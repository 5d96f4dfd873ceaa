import SourceLayout.Proofs.Literal.Framed

/-!
# Numbers with an exponent

To the spacing rules the sign of an exponent is an operator, so a number with one has to be cut out.
The finder knows the numbers that start with a digit. Where such a number stands by itself it is cut
out as a whole: no number that starts before it goes on into it, and no later finder takes its mark
away. A number that starts with its point stays in the text, unless an argument list of types around
it is cut out.
-/

namespace SourceLayout

/-- Whether all points from one to another lie in the same range. -/
def Ranges.covers (first last : Nat) : Ranges → Bool
  | [] => false
  | (low, high) :: rest =>
      if first < low then false else if last ≤ high then true
      else decide (high < first) && covers first last rest

theorem Ranges.has_of_covers {ranges : Ranges} {first last point : Nat}
    (hcovers : ranges.covers first last = true) (hfirst : first ≤ point) (hlast : point ≤ last) :
    ranges.has point = true := by
  induction ranges with
  | nil => cases hcovers
  | cons range rest ih =>
      obtain ⟨low, high⟩ := range
      rw [Ranges.covers] at hcovers
      split at hcovers
      · cases hcovers
      · have hlow : low ≤ point := by omega
        rw [Ranges.has_cons, decide_eq_true hlow, Bool.true_and, Bool.or_eq_true]
        split at hcovers
        · exact .inl (decide_eq_true (by omega))
        · exact .inr (ih (Bool.and_eq_true_iff.mp hcovers).2)

theorem isWord_of_isDecimal {c : Char} (hdecimal : isDecimal c = true) : isWord c = true := by
  by_cases hascii : c.toNat < 128
  · rw [isDecimal, if_pos hascii] at hdecimal
    exact Literal.isWord_of_isDigit hdecimal
  · have hranges : ∀ start ∈ digitZeros, start < 118 ∨
        numeralRanges.covers start (start + 9) = true := by
      decide +kernel
    rw [isDecimal, if_neg hascii, digitValue?, Option.isSome_map, List.find?_isSome] at hdecimal
    obtain ⟨start, hstart, hrange⟩ := hdecimal
    rw [Bool.and_eq_true, decide_eq_true_eq, decide_eq_true_eq] at hrange
    have hcovers := (hranges start hstart).resolve_left (by omega)
    have hnumeral := Ranges.has_of_covers hcovers hrange.1 (by omega)
    rw [isWord, if_neg hascii, hnumeral, Bool.or_true]

namespace Literal

/-- The digits of a number, with those after its point if it has one. -/
structure Mantissa where
  whole : Text
  fraction : Option Text
  whole_digits : ∀ c ∈ whole, isDecimal c = true
  fraction_digits : ∀ digits ∈ fraction, ∀ c ∈ digits, isDecimal c = true
  ne_nil : whole = [] → ∃ digits ∈ fraction, digits ≠ []

/-- The point of a number and the digits after it. -/
def Mantissa.point (m : Mantissa) : Text :=
  m.fraction.elim [] ('.' :: ·)

def Mantissa.text (m : Mantissa) : Text :=
  m.whole ++ m.point

/-- A decimal number with an exponent. -/
structure Numeral where
  mantissa : Mantissa
  letter : Char
  sign : Option Char
  power : Text
  letter_eq : letter = 'e' ∨ letter = 'E'
  sign_eq : ∀ c ∈ sign, c = '+' ∨ c = '-'
  power_digits : ∀ c ∈ power, isDecimal c = true
  power_ne_nil : power ≠ []

/-- The letter, the sign and the digits of an exponent. -/
def Numeral.scale (n : Numeral) : Text :=
  n.letter :: (n.sign.toList ++ n.power)

def Numeral.text (n : Numeral) : Text :=
  n.mantissa.text ++ n.scale

/-- The number `.5e-3` with these digits before its point. -/
def Numeral.sample (whole : Text) (hwhole : ∀ c ∈ whole, isDecimal c = true) : Numeral where
  mantissa :=
    { whole, fraction := some ['5'], whole_digits := hwhole
      fraction_digits := by
        rintro _ ⟨⟩
        exact List.forall_mem_singleton.mpr rfl
      ne_nil := by simp }
  letter := 'e'
  sign := some '-'
  power := ['3']
  letter_eq := .inl rfl
  sign_eq := by simp
  power_digits := List.forall_mem_singleton.mpr rfl
  power_ne_nil := by simp

/-- What makes a digit after it part of a word or of a number. -/
def continuesNumber (c : Char) : Bool :=
  isWord c || c == '.'

/-- Whether a text ends in a number that breaks off after the sign of its exponent. -/
def EndsInSign (t : Text) : Prop :=
  ∃ (front : Text) (m : Mantissa) (letter sign : Char), t = front ++ (m.text ++ [letter, sign]) ∧
    m.whole ≠ [] ∧ headIs continuesNumber front.reverse = false ∧ (letter = 'e' ∨ letter = 'E') ∧
    (sign = '+' ∨ sign = '-')

/-- The texts around an operand: nothing in the first one starts a literal, and no word or number goes
on from it into the operand or from the operand into the second one. -/
structure Surrounds (family : Family) (p s : Text) : Prop where
  quotes : ∀ c ∈ p, c ∉ family.quotes
  regex : family = .javascript → ¬['(', '/'] <:+: p
  word : headIs continuesNumber p.reverse = false
  sign : ¬EndsInSign p
  digit : headIs isDecimal s = false

variable {family : Family} {masked : Masked} {n : Numeral} {p s u left right before t v : Text}

theorem not_endsInSign (hlast : headIs (fun c => c == '+' || c == '-') p.reverse = false) :
    ¬EndsInSign p := by
  rintro ⟨front, m, letter, sign, rfl, -, -, -, hsign⟩
  simp only [List.reverse_append, List.reverse_cons, List.reverse_nil, List.nil_append,
    List.cons_append, headIs_cons, Bool.or_eq_false_iff, beq_eq_false_iff_ne] at hlast
  exact hsign.elim hlast.1 hlast.2

/-! ### The characters of a number -/

theorem isNumeral_of_isDecimal {c : Char} (hdecimal : isDecimal c = true) : isNumeral c = true := by
  rw [isNumeral, hdecimal, Bool.true_or]

theorem Mantissa.mem_text {m : Mantissa} {c : Char} (hc : c ∈ m.text) : isDecimal c = true ∨ c = '.' := by
  rw [Mantissa.text, Mantissa.point, List.mem_append] at hc
  rcases hc with hc | hc
  · exact .inl (m.whole_digits c hc)
  · cases hfraction : m.fraction with
    | none => simp [hfraction] at hc
    | some digits =>
        rw [hfraction, Option.elim_some, List.mem_cons] at hc
        exact hc.symm.imp_left (m.fraction_digits digits hfraction c)

theorem Numeral.mem_text {c : Char} (hc : c ∈ n.text) :
    (isDecimal c = true ∨ c = '.') ∨ c = n.letter ∨ c ∈ n.sign := by
  rw [Numeral.text, Numeral.scale, List.mem_append, List.mem_cons, List.mem_append] at hc
  rcases hc with hc | hc | hc | hc
  · exact .inl (Mantissa.mem_text hc)
  · exact .inr (.inl hc)
  · exact .inr (.inr (Option.mem_toList.mp hc))
  · exact .inl (.inl (n.power_digits c hc))

theorem Numeral.isNumeral_of_mem {c : Char} (hc : c ∈ n.text) : isNumeral c = true := by
  rcases Numeral.mem_text hc with (hdecimal | rfl) | rfl | hsign
  · exact isNumeral_of_isDecimal hdecimal
  · decide +kernel
  · rcases n.letter_eq with hletter | hletter <;> rw [hletter] <;> decide +kernel
  · rcases n.sign_eq c hsign with rfl | rfl <;> decide +kernel

theorem continuesNumber_of_decimal {c : Char} (hc : isDecimal c = true ∨ c = '.') :
    continuesNumber c = true := by
  rcases hc with hdecimal | rfl
  · rw [continuesNumber, isWord_of_isDecimal hdecimal, Bool.true_or]
  · decide +kernel

theorem Numeral.continuesNumber_letter (n : Numeral) : continuesNumber n.letter = true := by
  rcases n.letter_eq with hletter | hletter <;> rw [hletter] <;> decide +kernel

/-- Without a sign every character of a number continues it. -/
theorem Numeral.continuesNumber_of_mem (hsign : n.sign = none) {c : Char} (hc : c ∈ n.text) :
    continuesNumber c = true := by
  rcases Numeral.mem_text hc with hc | rfl | hmem
  · exact continuesNumber_of_decimal hc
  · exact n.continuesNumber_letter
  · rw [hsign] at hmem
    cases hmem

/-- Without digits before its point a number has some after it. -/
theorem Mantissa.exists_pointed (m : Mantissa) (hwhole : m.whole = []) :
    ∃ digits, m.text = '.' :: digits ∧ digits ≠ [] ∧ ∀ c ∈ digits, isDecimal c = true := by
  obtain ⟨digits, hdigits, hne⟩ := m.ne_nil hwhole
  have hfraction : m.fraction = some digits := hdigits
  refine ⟨digits, ?_, hne, m.fraction_digits digits hdigits⟩
  rw [Mantissa.text, Mantissa.point, hwhole, hfraction]
  rfl

theorem Mantissa.text_ne_nil (m : Mantissa) : m.text ≠ [] := by
  cases hwhole : m.whole with
  | nil =>
      obtain ⟨digits, htext, -⟩ := m.exists_pointed hwhole
      simp [htext]
  | cons c cs => simp [Mantissa.text, hwhole]

theorem Numeral.text_ne_nil (n : Numeral) : n.text ≠ [] :=
  List.append_ne_nil_of_left_ne_nil n.mantissa.text_ne_nil _

theorem Numeral.headIs_of_point (n : Numeral) (hwhole : n.mantissa.whole = []) :
    headIs isDecimal n.text = false := by
  obtain ⟨digits, htext, -⟩ := n.mantissa.exists_pointed hwhole
  rw [Numeral.text, htext]
  exact (by decide +kernel : isDecimal '.' = false)

/-- After its point a number without sign is one word. -/
theorem Numeral.exists_pointed (n : Numeral) (hwhole : n.mantissa.whole = []) (hsign : n.sign = none) :
    ∃ digits, n.text = '.' :: digits ∧ digits ≠ [] ∧ ∀ c ∈ digits, isWord c = true := by
  obtain ⟨digits, htext, -, hdigits⟩ := n.mantissa.exists_pointed hwhole
  refine ⟨digits ++ n.scale, by rw [Numeral.text, htext]; rfl, by simp [Numeral.scale], fun c hc => ?_⟩
  rw [Numeral.scale, hsign, List.mem_append, List.mem_cons] at hc
  rcases hc with hc | rfl | hc
  · exact isWord_of_isDecimal (hdigits c hc)
  · rcases n.letter_eq with hletter | hletter <;> rw [hletter] <;> decide +kernel
  · exact isWord_of_isDecimal (n.power_digits c hc)

/-- Where every character continues a number none starts. -/
theorem numberFree_of_forall (ht : ∀ c ∈ t, continuesNumber c = true) : NumberFree t :=
  (List.isChain_isInfix t).imp fun c _ hpair _ => ht c (hpair.subset List.mem_cons_self)

/-- Digits alone are no number with an exponent. -/
theorem exponent_passes_digits (ht : ∀ c ∈ t, isDecimal c = true) (before : Text) :
    exponent.Passes before t [] := by
  induction t generalizing before with
  | nil => exact Finder.passes_nil []
  | cons c cs ih =>
      refine .char ?_ (ih (fun d hd => ht d (List.mem_cons_of_mem c hd)) _)
      rw [List.append_nil, exponent_eq, List.dropWhile_eq_nil_iff.mpr ht]
      simp [fractionLength, exponentLength]

/-! ### The number is found -/

theorem takeWhile_append_of_all {q : Char → Bool} {w : Text} (hw : ∀ c ∈ w, q c = true)
    (hv : headIs q v = false) : (w ++ v).takeWhile q = w := by
  rw [takeWhile_append_of_headIs hv, List.takeWhile_eq_self_iff]
  exact hw

theorem exponentLength_scale (n : Numeral) (hs : headIs isDecimal s = false) :
    exponentLength (n.scale ++ s) = n.scale.length := by
  have hletter := n.letter_eq
  have hpower := takeWhile_append_of_all n.power_digits hs
  obtain ⟨d, ds, hds⟩ := List.exists_cons_of_ne_nil n.power_ne_nil
  rw [Numeral.scale]
  cases hsign : n.sign with
  | none =>
      have hother : ¬(d = '-' ∨ d = '+') := by
        have hdigit := n.power_digits d (by simp [hds])
        rintro (rfl | rfl) <;> exact absurd hdigit (by decide +kernel)
      rw [hds] at hpower
      simp only [List.cons_append] at hpower
      simp [exponentLength, hletter, hds, hother, hpower]
  | some sign =>
      have hsigns : sign = '-' ∨ sign = '+' := (n.sign_eq sign hsign).symm
      rw [hds] at hpower
      simp only [List.cons_append] at hpower
      simp [exponentLength, hletter, hsigns, hds, hpower]

theorem Numeral.headIs_scale (n : Numeral) (s : Text) :
    headIs isDecimal (n.scale ++ s) = false ∧ headIs (· == '.') (n.scale ++ s) = false := by
  rw [Numeral.scale, List.cons_append, headIs_cons, headIs_cons]
  rcases n.letter_eq with hletter | hletter <;> rw [hletter] <;> decide +kernel

theorem Mantissa.headIs_point (m : Mantissa) (hv : headIs isDecimal v = false) :
    headIs isDecimal (m.point ++ v) = false := by
  rw [Mantissa.point]
  cases m.fraction with
  | none => exact hv
  | some digits => exact (by decide +kernel : isDecimal '.' = false)

theorem Mantissa.fractionLength_point (m : Mantissa) (hdecimal : headIs isDecimal v = false)
    (hpoint : headIs (· == '.') v = false) : fractionLength (m.point ++ v) = m.point.length := by
  rw [Mantissa.point]
  cases hfraction : m.fraction with
  | none => exact (@fractionLength_append v hdecimal hpoint []).1
  | some digits =>
      have hdigits := takeWhile_append_of_all (m.fraction_digits digits hfraction) hdecimal
      simp [fractionLength, hdigits]

/-- A number that starts with a digit and that nothing before it continues is found as a whole. -/
theorem exponent_numeral (hwhole : n.mantissa.whole ≠ [])
    (hbefore : headIs continuesNumber before = false) (hs : headIs isDecimal s = false) :
    exponent before (n.text ++ s) = n.text.length := by
  obtain ⟨hdecimal, hpoint⟩ := n.headIs_scale s
  have htail := n.mantissa.headIs_point hdecimal
  have hdigits := takeWhile_append_of_all n.mantissa.whole_digits htail
  have hrest : (n.mantissa.whole ++ (n.mantissa.point ++ (n.scale ++ s))).dropWhile isDecimal =
      n.mantissa.point ++ (n.scale ++ s) := by
    rw [dropWhile_append_of_headIs htail, List.dropWhile_eq_nil_iff.mpr n.mantissa.whole_digits,
      List.nil_append]
  have hlength : ∃ k, n.scale.length = k + 1 := ⟨_, rfl⟩
  obtain ⟨k, hk⟩ := hlength
  have hempty : n.mantissa.whole.isEmpty = false := by simpa using hwhole
  have hbefore : headIs (fun c => isWord c || c == '.') before = false := hbefore
  simp only [Numeral.text, Mantissa.text, List.append_assoc, exponent_eq, hbefore, hdigits, hrest,
    n.mantissa.fractionLength_point hdecimal hpoint, List.drop_left, exponentLength_scale n hs, hk,
    hempty, Bool.false_eq_true, if_false, List.length_append]
  rw [Nat.add_assoc, Nat.add_assoc]

/-! ### No number goes on into it -/

theorem exists_fraction (t : Text) : ∃ fraction : Option Text,
    (∀ digits ∈ fraction, ∀ c ∈ digits, isDecimal c = true) ∧
      fraction.elim [] ('.' :: ·) = t.take (fractionLength t) := by
  match t with
  | [] => exact ⟨none, by simp, rfl⟩
  | c :: cs =>
      by_cases hc : c = '.'
      · subst hc
        refine ⟨some (cs.takeWhile isDecimal), ?_, ?_⟩
        · rintro _ ⟨⟩ c hc
          exact List.mem_takeWhile_imp hc
        · rw [fractionLength, List.take_succ_cons, take_length_takeWhile]
          rfl
      · exact ⟨none, by simp, by simp [fractionLength, hc]⟩

/-- After a character that no number goes on with, a number ends before it or breaks off after the
sign that it is. -/
theorem exponent_append_or {c : Char} (hc : continuesNumber c = false) (before t v : Text) :
    exponent before (t ++ c :: v) = exponent before t ∨
      headIs continuesNumber before = false ∧ ∃ (m : Mantissa) (letter : Char), t = m.text ++ [letter] ∧
        m.whole ≠ [] ∧ (letter = 'e' ∨ letter = 'E') ∧ (c = '+' ∨ c = '-') := by
  obtain ⟨hword, hpoint⟩ : isWord c = false ∧ (c == '.') = false := by
    rwa [continuesNumber, Bool.or_eq_false_iff] at hc
  have hdecimal : isDecimal c = false := by
    rw [Bool.eq_false_iff]
    intro hdecimal
    rw [isWord_of_isDecimal hdecimal] at hword
    cases hword
  have hletter : ¬(c = 'e' ∨ c = 'E') := by
    rintro (rfl | rfl) <;> exact absurd hword (by decide +kernel)
  have hhead : headIs isDecimal (c :: v) = false := hdecimal
  by_cases hsign : c = '+' ∨ c = '-'
  case neg =>
    refine .inl (exponent_append ?_ before t)
    rw [headIs_cons, isNumeral, hdecimal, Bool.false_or, decide_eq_false_iff_not]
    have hchars : ".eE+-".toList = ['.', 'e', 'E', '+', '-'] := rfl
    simp only [hchars, List.mem_cons, List.not_mem_nil, or_false]
    rintro (rfl | rfl | rfl | rfl | rfl) <;> simp_all
  rw [exponent_eq, exponent_eq, takeWhile_append_of_headIs hhead, dropWhile_append_of_headIs hhead]
  cases hbefore : headIs (fun c => isWord c || c == '.') before with
  | true => exact .inl rfl
  | false =>
      by_cases hempty : t.takeWhile isDecimal = []
      · exact .inl (by simp [hempty])
      obtain ⟨hsame, hshort⟩ := @fractionLength_append (c :: v) hhead hpoint (t.dropWhile isDecimal)
      have hsplit : t.takeWhile isDecimal ++ t.dropWhile isDecimal = t :=
        List.takeWhile_append_dropWhile
      generalize htail : t.dropWhile isDecimal = tail at hsame hshort hsplit
      simp only [hsame, List.drop_append_of_le_length hshort]
      have hparts : tail.take (fractionLength tail) ++ tail.drop (fractionLength tail) = tail :=
        List.take_append_drop _ _
      rcases hrest : tail.drop (fractionLength tail) with _ | ⟨e, _ | ⟨d, ds⟩⟩
      case nil => exact .inl (by simp [exponentLength, hletter])
      case cons.cons => exact .inl (by rw [exponentLength_append_of_two hhead])
      case cons.nil =>
          by_cases he : e = 'e' ∨ e = 'E'
          case neg => exact .inl (by simp [exponentLength, he])
          refine .inr ⟨hbefore, ?_⟩
          rw [hrest] at hparts
          obtain ⟨fraction, hfraction, hpoint'⟩ := exists_fraction tail
          refine ⟨⟨t.takeWhile isDecimal, fraction, fun _ hc => List.mem_takeWhile_imp hc, hfraction,
            fun hnil => absurd hnil hempty⟩, e, ?_, hempty, he, hsign⟩
          rw [Mantissa.text, Mantissa.point, hpoint', List.append_assoc, hparts, hsplit]

theorem exponent_splits_at (hword : headIs continuesNumber p.reverse = false)
    (hsign : ¬EndsInSign p) (v : Text) : exponent.Splits [] p v := by
  refine Finder.splits_of_places fun front t hne ht => ⟨?_, exponent_le _ t⟩
  obtain ⟨t, c, rfl⟩ := (List.eq_nil_or_concat t).resolve_left hne
  rw [List.concat_eq_append] at ht ⊢
  have hc : continuesNumber c = false := by
    rw [ht, ← List.append_assoc, List.reverse_append] at hword
    exact hword
  have hlocal : ∀ v, exponent (front.reverse ++ []) (t ++ c :: v) =
      exponent (front.reverse ++ []) t := by
    intro v
    refine (exponent_append_or hc _ t v).resolve_right ?_
    rintro ⟨hfront, m, letter, rfl, hwhole, hletter, hsigns⟩
    rw [List.append_nil] at hfront
    exact hsign ⟨front, m, letter, c, by simp [ht], hwhole, hfront, hletter, hsigns⟩
  rw [List.append_assoc, List.singleton_append, hlocal, hlocal]

/-! ### The number in a masked line -/

theorem Finder.Passes.maskFrom_eq {find : Finder} (h : find.Passes before u []) (literals : List Text) :
    find.maskFrom before 0 u literals = ⟨u, literals⟩ := by
  have hown := h literals
  rw [List.append_nil] at hown
  rw [hown, Finder.maskFrom, Masked.prepend, List.append_nil]

theorem Finder.Passes.splits {find : Finder} (h : find.Passes before u v)
    (hown : find.Passes before u []) : find.Splits before u v := by
  intro literals
  rw [h, hown.maskFrom_eq]

/-- Where no literal starts the first run leaves the text as it is. -/
theorem quoted_passes_code (hquotes : ∀ c ∈ p, c ∉ family.quotes)
    (hregex : family = .javascript → ¬['(', '/'] <:+: before.head?.toList ++ p) (rest : Text) :
    (quoted family).Passes before p rest := by
  induction p generalizing before with
  | nil => exact Finder.passes_nil rest
  | cons c cs ih =>
      obtain ⟨hc, hcs⟩ := List.forall_mem_cons.mp hquotes
      have hend : family.literalEnd? before.head? c = none := by
        rw [Family.literalEnd?, if_neg hc, if_neg]
        rintro ⟨hjavascript, rfl, hparen⟩
        rw [hparen] at hregex
        exact hregex hjavascript (List.prefix_append ['(', '/'] cs).isInfix
      refine .char (quoted_eq_zero_of_none hend) (ih hcs fun hjavascript hinside => ?_)
      exact hregex hjavascript (hinside.trans (List.suffix_append _ _).isInfix)

/-- What a masked text starts with is what the text starts with that it stands for, or a mark. -/
theorem Expands.headIs_eq_false {literals : List Text} {bound : Nat} {t o : Text} {q : Char → Bool}
    (hq : q markOpen = false) (h : Expands literals bound t o) (ho : headIs q o = false) :
    headIs q t = false := by
  cases h with
  | nil => rfl
  | char => exact ho
  | mark => rwa [mark_append, headIs_cons]

variable {find : Finder} {stretch core : Text}

/-- A run that finds a stretch puts one mark in its place. -/
theorem Framed.run_found (h : Framed masked u stretch s left right) (hrespects : find.Respects)
    (hne : stretch ≠ []) (hsplits : find.Splits [] u (stretch ++ s))
    (hfind : find (u.reverse ++ []) (stretch ++ s) = stretch.length) :
    ∃ u' number s', Framed (find.run masked) u' (mark number) s' left right ∧
      (find.run masked).literals[number]? = some stretch := by
  obtain ⟨extra, hextra⟩ := find.exists_literals_eq_append [] u masked.literals
  have hleft := hrespects.maskFrom_expands h.left []
  have hright := (h.right.grow extra).grow [stretch]
  rw [Finder.run, h.text, hsplits, Finder.maskFrom_found hne hfind]
  rw [hextra] at hleft ⊢
  generalize stretch.reverse ++ (u.reverse ++ []) = before
  have hmore := hrespects.maskFrom_expands hright before
  obtain ⟨extra', hextra'⟩ := find.exists_literals_eq_append before s
    (masked.literals ++ extra ++ [stretch])
  refine ⟨_, (masked.literals ++ extra).length, _, ⟨rfl, ?_, hmore⟩, ?_⟩
  · have hgrown := (hleft.grow [stretch]).grow extra'
    rwa [← hextra'] at hgrown
  · simp only [Masked.prepend_literals, hextra']
    simp

/-- A run that finds nothing across the start of a mark leaves the mark and its literal. -/
theorem Framed.run_mark {number : Nat} {span : Text} (h : Framed masked u (mark number) s left right)
    (hget : masked.literals[number]? = some span) (hrespects : find.Respects)
    (hsplits : find.Splits [] u (mark number ++ s)) :
    ∃ u' s', Framed (find.run masked) u' (mark number) s' left right ∧
      (find.run masked).literals[number]? = some span := by
  obtain ⟨s', hframed, extra, hextra⟩ := h.run hrespects hsplits fun literals =>
    Finder.maskFrom_pass (hrespects.passes (u.reverse ++ []) number s)
  refine ⟨_, s', hframed, ?_⟩
  rw [hextra, List.getElem?_append_left (List.getElem?_eq_some_iff.mp hget).1, hget]

/-- A number in a masked line: cut out, alone or with what is around it, or, if it starts with its
point and has no sign, left in the text. -/
inductive Numeral.HeldIn (n : Numeral) (masked : Masked) : Prop
  | bare {u s left right : Text} (hwhole : n.mantissa.whole = []) (hsign : n.sign = none)
      (hframed : Framed masked u n.text s left right)
  | marked {u s left right span : Text} {number : Nat}
      (hframed : Framed masked u (mark number) s left right)
      (hget : masked.literals[number]? = some span) (hplain : markOpen ∉ span)
      (hinside : n.text <:+: span)

/-- Before a character that no argument list holds the list finder stops. -/
theorem typeList_splits_before (hv : headIs isTypeListChar v = false) (before u : Text) :
    typeList.Splits before u v := by
  refine Finder.splits_of_forall (fun before t hne _ => ⟨?_, typeList_le before t⟩) before
  cases t with
  | nil => exact absurd rfl hne
  | cons c cs =>
      by_cases hc : c = '<'
      · subst hc
        rw [List.cons_append, typeList_cons, typeList_cons, takeWhile_append_of_headIs hv]
      · rw [List.cons_append, typeList_of_ne hc, typeList_of_ne hc]

/-- What comes after a list makes no difference to it. -/
theorem typeList_eq_of_le {n : Nat} (hfind : typeList before (t ++ v) = n + 1)
    (hle : n + 1 ≤ t.length) : typeList before t = n + 1 := by
  cases t with
  | nil => simp at hle
  | cons c cs =>
      obtain rfl : c = '<' := by
        by_contra hc
        rw [List.cons_append, typeList_of_ne hc] at hfind
        cases hfind
      rw [List.cons_append, typeList_cons] at hfind
      rw [typeList_cons, ← hfind]
      cases hall : cs.all isTypeListChar with
      | false => rw [takeWhile_of_not_all hall]
      | true =>
          have hchars := List.all_eq_true.mp hall
          rw [List.takeWhile_append_of_pos hchars, List.reverse_append, List.dropWhile_append] at hfind ⊢
          rw [List.takeWhile_eq_self_iff.mpr hchars]
          -- With a bracket after them, all of these characters would be in the list.
          cases hafter : ((v.takeWhile isTypeListChar).reverse.dropWhile (· ≠ '>')).isEmpty with
          | true => rfl
          | false =>
              simp only [hafter, Bool.false_eq_true, if_false] at hfind
              split at hfind
              · split at hfind
                · cases hfind
                · have hpositive : 0 < ((v.takeWhile isTypeListChar).reverse.dropWhile
                      (fun c => decide (c ≠ '>'))).length := by
                    rwa [List.length_pos_iff, ← List.isEmpty_eq_false_iff]
                  rw [List.length_cons] at hle
                  rw [List.length_append, List.length_reverse] at hfind
                  omega
              · cases hfind

/-- Whether no list starts before a stretch and ends in it: it ends before the stretch, or the
stretch is in it. -/
def Undivided (before u core s : Text) : Prop :=
  typeList.Splits before u (core ++ s) ∨
    ∃ front start stop rest, u = front ++ '<' :: start ∧ s = stop ++ '>' :: rest ∧
      typeList.Splits before front ('<' :: (start ++ (core ++ s))) ∧
      typeList (front.reverse ++ before) ('<' :: (start ++ (core ++ s))) =
        ('<' :: (start ++ (core ++ (stop ++ ['>'])))).length

theorem Undivided.char {c : Char} (h : Undivided (c :: before) u core s)
    (hfind : typeList before (c :: (u ++ (core ++ s))) = 0) : Undivided before (c :: u) core s := by
  have hown : typeList before (c :: u) = 0 := typeList_eq_zero_of_append hfind
  rcases h with hsplits | ⟨front, start, stop, rest, rfl, rfl, hsplits, hcovers⟩
  · exact .inl (.char hown hfind hsplits)
  · refine .inr ⟨c :: front, start, stop, rest, rfl, rfl, ?_, by simpa using hcovers⟩
    refine .char (typeList_eq_zero_of_append (w := '<' :: start) hown) ?_ hsplits
    simpa using hfind

theorem Undivided.span {piece : Text} (hne : piece ≠ [])
    (h : Undivided (piece.reverse ++ before) u core s)
    (hfind : typeList before (piece ++ (u ++ (core ++ s))) = piece.length) :
    Undivided before (piece ++ u) core s := by
  have hlocal : ∀ t v, t ++ v = u ++ (core ++ s) → typeList before (piece ++ t) = piece.length := by
    intro t v htext
    obtain ⟨k, hk⟩ : ∃ k, piece.length = k + 1 := Nat.exists_eq_succ_of_ne_zero (by simpa using hne)
    rw [← htext, ← List.append_assoc, hk] at hfind
    rw [typeList_eq_of_le hfind (by rw [List.length_append]; omega), hk]
  rcases h with hsplits | ⟨front, start, stop, rest, rfl, rfl, hsplits, hcovers⟩
  · exact .inl (.span hne (hlocal u _ rfl) hfind hsplits)
  · refine .inr ⟨piece ++ front, start, stop, rest, by simp, rfl, ?_, by simpa using hcovers⟩
    exact .span hne (hlocal front _ (List.append_assoc ..).symm) (by simpa using hfind) hsplits

/-- A stretch without brackets is in no list or in one as a whole. -/
theorem undivided (hne : core ≠ []) (hcore : '>' ∉ core) (before u s : Text) :
    Undivided before u core s := by
  induction hlength : u.length using Nat.strongRecOn generalizing before u with
  | ind length ih =>
      cases u with
      | nil => exact .inl .nil
      | cons c cs =>
          rw [List.length_cons] at hlength
          cases hfind : typeList before (c :: (cs ++ (core ++ s))) with
          | zero => exact .char (ih cs.length (by omega) (c :: before) cs rfl) hfind
          | succ n =>
              obtain ⟨inner, others, hparts, rfl, _⟩ := typeList_cases hfind
              obtain ⟨rfl, htail⟩ := List.cons.inj hparts
              have hbefore : ∀ u, cs = inner ++ ['>'] ++ u → Undivided before ('<' :: cs) core s := by
                rintro u rfl
                have hpiece := ih u.length (by simp at hlength; omega)
                  (('<' :: (inner ++ ['>'])).reverse ++ before) u rfl
                refine hpiece.span (by simp) ?_
                simpa using hfind
              have hlist : inner ++ '>' :: others = inner ++ ['>'] ++ others := by simp
              rw [hlist] at htail
              rcases List.append_eq_append_iff.mp htail with ⟨m, hspan, hrest⟩ | ⟨m, hspan, -⟩
              · rcases List.suffix_concat_iff.mp ⟨cs, hspan.symm⟩ with rfl | ⟨m, rfl, -⟩
                · exact hbefore [] (by simpa using hspan.symm)
                rcases List.append_eq_append_iff.mp hrest with ⟨stop, hm, rfl⟩ | ⟨rest, rfl, -⟩
                · rcases List.suffix_concat_iff.mp ⟨core, hm.symm⟩ with rfl | ⟨stop, rfl, -⟩
                  · rw [List.append_nil] at hm
                    exact absurd (hm ▸ List.mem_append_right m List.mem_cons_self) hcore
                  · refine .inr ⟨[], cs, stop, others, rfl, by simp, .nil, ?_⟩
                    have hcount := congrArg List.length hspan
                    simp only [hm, List.length_append, List.length_cons, List.length_nil] at hcount ⊢
                    rw [List.reverse_nil, List.nil_append, hfind]
                    omega
                · exact absurd (by simp) hcore
              · exact hbefore m hspan

theorem Numeral.not_mem_text {c : Char} (hc : isNumeral c = false) : c ∉ n.text := by
  intro hmem
  rw [Numeral.isNumeral_of_mem hmem] at hc
  cases hc

/-- A list that is cut out holds the stretch, with brackets around it. -/
theorem Framed.run_list {start stop rest : Text}
    (h : Framed masked (u ++ '<' :: start) core (stop ++ '>' :: rest) left right)
    (hsplits : typeList.Splits [] u ('<' :: (start ++ (core ++ (stop ++ '>' :: rest)))))
    (hcovers : typeList (u.reverse ++ []) ('<' :: (start ++ (core ++ (stop ++ '>' :: rest)))) =
      ('<' :: (start ++ (core ++ (stop ++ ['>'])))).length) :
    ∃ u' number s' left' right', Framed (typeList.run masked) u' (mark number) s' left' right' ∧
      (typeList.run masked).literals[number]? = some ('<' :: (start ++ (core ++ (stop ++ ['>'])))) ∧
      markOpen ∉ '<' :: (start ++ (core ++ (stop ++ ['>']))) := by
  have hspan : '<' :: (start ++ (core ++ (stop ++ '>' :: rest))) =
      '<' :: (start ++ (core ++ (stop ++ ['>']))) ++ rest := by simp
  rw [hspan] at hsplits hcovers
  have hplain : markOpen ∉ '<' :: (start ++ (core ++ (stop ++ ['>']))) := by
    intro hmem
    have hchars := isTypeListChar_of_typeList hcovers
    rw [← List.length_cons, List.take_left] at hchars
    exact absurd (hchars _ hmem) (by rw [isTypeListChar_markOpen]; exact Bool.false_ne_true)
  have hleft : markOpen ∉ '<' :: start := fun hmem => hplain (by
    rw [← List.cons_append]
    exact List.mem_append_left _ hmem)
  obtain ⟨left', -, hfront⟩ := h.left.split_foreign hleft fun c hc => by
    obtain rfl : '<' = c := Option.some.inj hc
    decide +kernel
  have hright := h.right
  have hstop : stop ++ '>' :: rest = stop ++ ['>'] ++ rest := by simp
  rw [hstop] at hright
  obtain ⟨-, right', -, -, hback⟩ := hright.split
    (Expands.not_breaksOff (by decide) (by decide +kernel) stop List.not_mem_nil)
  have hframed : Framed masked u ('<' :: (start ++ (core ++ (stop ++ ['>'])))) rest left' right' := by
    refine ⟨?_, hfront, hback⟩
    rw [h.text]
    simp
  obtain ⟨u', number, s', hrun, hget⟩ := hframed.run_found typeList_respects (by simp) hsplits hcovers
  exact ⟨u', number, s', left', right', hrun, hget, hplain⟩

theorem Numeral.HeldIn.run_typeList (h : n.HeldIn masked) : n.HeldIn (typeList.run masked) := by
  cases h with
  | marked hframed hget hplain hinside =>
      have hmark : ∀ number s, headIs isTypeListChar (mark number ++ s) = false := by
        intro number s
        rw [mark_append, headIs_cons, isTypeListChar_markOpen]
      obtain ⟨u', s', hrun, hget⟩ := hframed.run_mark hget typeList_respects
        (typeList_splits_before (hmark _ _) [] _)
      exact .marked hrun hget hplain hinside
  | @bare u s left right hwhole hsign hframed =>
      have hbrackets : '<' ∉ n.text ∧ '>' ∉ n.text :=
        ⟨Numeral.not_mem_text (by decide +kernel), Numeral.not_mem_text (by decide +kernel)⟩
      rcases undivided n.text_ne_nil hbrackets.2 [] u s with
        hsplits | ⟨front, start, stop, rest, rfl, rfl, hsplits, hcovers⟩
      · obtain ⟨s', hrun, -⟩ := hframed.run typeList_respects hsplits
          (typeList_passes hbrackets.1 _ s)
        exact .bare hwhole hsign hrun
      · obtain ⟨u', number, s', left', right', hrun, hget, hplain⟩ := hframed.run_list hsplits hcovers
        refine .marked hrun hget hplain ⟨'<' :: start, stop ++ ['>'], ?_⟩
        simp

theorem Numeral.HeldIn.run_shift (h : n.HeldIn masked) : n.HeldIn (shift.run masked) := by
  have hsplits : ∀ {c : Char} {cs : Text}, c ∉ ['<', '=', '>'] → ∀ u,
      shift.Splits [] u (c :: cs) := by
    intro c cs hc u
    simp only [List.mem_cons, List.not_mem_nil, or_false, not_or] at hc
    exact shift_splits (by simp [hc]) (by simp [hc]) []
  cases h with
  | marked hframed hget hplain hinside =>
      have hmark : markOpen ∉ ['<', '=', '>'] := by decide
      obtain ⟨u', s', hrun, hget⟩ := hframed.run_mark hget shift_respects (by
        rw [mark_append]
        exact hsplits hmark _)
      exact .marked hrun hget hplain hinside
  | @bare u s left right hwhole hsign hframed =>
      have hother : ∀ d ∈ ['<', '=', '>'], isNumeral d = false :=
        List.all_iff_forall_prop.mp (by decide +kernel)
      have hsigns : ∀ c ∈ n.text, c ∉ ['<', '=', '>'] := fun c hc hmem =>
        Numeral.not_mem_text (hother c hmem) hc
      obtain ⟨c, cs, htext⟩ := List.exists_cons_of_ne_nil n.text_ne_nil
      obtain ⟨s', hrun, -⟩ := hframed.run shift_respects
        (by
          rw [htext]
          exact hsplits (hsigns c (by simp [htext])) u)
        (shift_passes (fun c hc => by
          have hc := hsigns c hc
          simp only [List.mem_cons, List.not_mem_nil, or_false, not_or] at hc
          exact ⟨hc.1, hc.2.2⟩) _ s)
      exact .bare hwhole hsign hrun

/-- The finders of code are those of quoted literals and of numbers, and perhaps two others. -/
theorem exists_finders (hcode : family ≠ .css ∧ family ≠ .html) (language : Option Text) :
    ∃ later, finders family language = quoted family :: exponent :: later ∧
      ∀ find ∈ later, find = typeList ∨ find = shift := by
  rw [finders, if_neg hcode.1, if_neg (not_or.mpr ⟨hcode.2, hcode.1⟩)]
  refine ⟨(if typeListLanguages.any (some · == language) then [typeList] else []) ++
    (if family = .cFamily then [shift] else []), rfl, fun find hfind => ?_⟩
  rcases List.mem_append.mp hfind with hfind | hfind
  · split at hfind <;> simp_all
  · split at hfind <;> simp_all

/-- The run for numbers cuts the number out if it starts with a digit, and else leaves it. -/
theorem Framed.heldIn_exponent (h : Framed masked p n.text v p s) (hplace : Surrounds family p s)
    (hform : n.mantissa.whole ≠ [] ∨ n.sign = none) : n.HeldIn (exponent.run masked) := by
  have hsplits := exponent_splits_at hplace.word hplace.sign (n.text ++ v)
  by_cases hwhole : n.mantissa.whole = []
  case neg =>
    have hdigit := h.right.headIs_eq_false isDecimal_markOpen hplace.digit
    obtain ⟨u', number, v', hrun, hget⟩ := h.run_found exponent_respects n.text_ne_nil hsplits
      (exponent_numeral hwhole (by rw [List.append_nil]; exact hplace.word) hdigit)
    exact .marked hrun hget (Numeral.not_mem_text (by decide +kernel)) (List.infix_refl n.text)
  case pos =>
    have hsign := hform.resolve_left (absurd hwhole)
    have hpoint := n.headIs_of_point hwhole
    have hchain := numberFree_of_forall fun c hc => Numeral.continuesNumber_of_mem hsign hc
    obtain ⟨v', hrun, -⟩ := h.run exponent_respects hsplits
      (exponent_passes (fun hdecimal => by
        rw [hpoint] at hdecimal
        cases hdecimal) hchain v)
    exact .bare hwhole hsign hrun

/-- In the masked line of an operand the number is cut out as a whole, or left as a whole. -/
theorem Numeral.heldIn_mask (hcode : family ≠ .css ∧ family ≠ .html) (language : Option Text)
    (hplace : Surrounds family p s) (hform : n.mantissa.whole ≠ [] ∨ n.sign = none)
    (hplain : markOpen ∉ p ++ (n.text ++ s)) :
    n.HeldIn (mask family language (p ++ (n.text ++ s))) := by
  simp only [List.mem_append, not_or] at hplain
  have hpasses : ∀ rest, (quoted family).Passes [] p rest :=
    quoted_passes_code hplace.quotes hplace.regex
  have hquiet : ∀ c ∈ n.text, isLoud c = false := fun c hc =>
    isLoud_of_isNumeral (Numeral.isNumeral_of_mem hc)
  have hsource : Framed ⟨p ++ (n.text ++ s), []⟩ p n.text s p s :=
    ⟨rfl, .of_plain hplain.1, .of_plain hplain.2.2⟩
  obtain ⟨s', hquoted, -⟩ := hsource.run (quoted_respects family) ((hpasses _).splits (hpasses []))
    (quoted_passes hquiet _ s)
  rw [(hpasses []).maskFrom_eq] at hquoted
  have hexponent := @Framed.heldIn_exponent family _ n p s s' hquoted hplace hform
  obtain ⟨later, hfinders, hlater⟩ := exists_finders hcode language
  rw [mask, hfinders, List.foldl_cons, List.foldl_cons]
  generalize exponent.run ((quoted family).run ⟨p ++ (n.text ++ s), []⟩) = masked at hexponent
  clear hfinders
  induction later generalizing masked with
  | nil => exact hexponent
  | cons find later ih =>
      obtain ⟨hfind, hlater⟩ := List.forall_mem_cons.mp hlater
      refine ih hlater _ ?_
      rcases hfind with rfl | rfl
      · exact hexponent.run_typeList
      · exact hexponent.run_shift

/-- Alone, a number that starts with its point and has a sign is not cut out. -/
theorem Numeral.mask_text (hcode : family ≠ .css ∧ family ≠ .html) (language : Option Text)
    (hwhole : n.mantissa.whole = []) {sign : Char} (hsign : n.sign = some sign) :
    mask family language n.text = ⟨n.text, []⟩ := by
  have hquiet : ∀ c ∈ n.text, isLoud c = false := fun c hc =>
    isLoud_of_isNumeral (Numeral.isNumeral_of_mem hc)
  have hexponent : exponent.Passes [] n.text [] := by
    have hfront : NumberFree (n.mantissa.text ++ [n.letter] ++ [sign]) := by
      refine (numberFree_of_forall fun c hc => ?_).append fun c hc => ?_
      · rcases List.mem_append.mp hc with hc | hc
        · exact continuesNumber_of_decimal (Mantissa.mem_text hc)
        · rw [List.mem_singleton.mp hc]
          exact n.continuesNumber_letter
      · rw [List.mem_singleton.mp hc]
        rcases n.sign_eq sign hsign with rfl | rfl <;> decide +kernel
    have htext : n.text = n.mantissa.text ++ [n.letter] ++ [sign] ++ n.power := by
      simp [Numeral.text, Numeral.scale, hsign]
    have hpoint := n.headIs_of_point hwhole
    rw [htext, List.append_assoc, List.append_assoc, Text.headIs_append n.mantissa.text_ne_nil] at hpoint
    rw [htext]
    refine .append (exponent_passes (fun hdecimal => ?_) hfront _)
      (exponent_passes_digits n.power_digits _)
    rw [List.append_assoc, Text.headIs_append n.mantissa.text_ne_nil, hpoint] at hdecimal
    cases hdecimal
  have hrun : ∀ {find : Finder}, find.Passes [] n.text [] → find.run ⟨n.text, []⟩ = ⟨n.text, []⟩ :=
    fun hpasses => hpasses.maskFrom_eq []
  obtain ⟨later, hfinders, hlater⟩ := exists_finders hcode language
  rw [mask, hfinders, List.foldl_cons, List.foldl_cons, hrun (quoted_passes hquiet [] []),
    hrun hexponent]
  clear hfinders
  induction later with
  | nil => rfl
  | cons find later ih =>
      obtain ⟨hfind, hlater⟩ := List.forall_mem_cons.mp hlater
      have hpasses : find.Passes [] n.text [] := by
        rcases hfind with rfl | rfl
        · exact typeList_passes (Numeral.not_mem_text (by decide +kernel)) [] []
        · exact shift_passes (fun c hc => ⟨fun heq => Numeral.not_mem_text (by decide +kernel) (heq ▸ hc),
            fun heq => Numeral.not_mem_text (by decide +kernel) (heq ▸ hc)⟩) [] []
      rw [List.foldl_cons, hrun hpasses, ih hlater]

end Literal

end SourceLayout
