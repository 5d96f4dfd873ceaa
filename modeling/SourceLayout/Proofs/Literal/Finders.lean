import SourceLayout.Proofs.Literal.Run
import Mathlib.Data.Bool.AllAny
import Mathlib.Data.List.Find

/-!
# All finders respect marks

Quoted strings, references, argument lists of types and shifts start and end with characters that
no mark has. A number with an exponent may start with the digits of a mark only if the mark's
closing sign were the letter of the exponent.
-/

namespace SourceLayout.Literal

/-- The delimiter is missing, or it is the last character of the literal. -/
theorem lengthTo_spec (stop previous : Char) (t : Text) :
    lengthTo stop previous t = t.length ∨
      ∃ inner, t.take (lengthTo stop previous t) = inner ++ [stop] := by
  fun_induction lengthTo stop previous t with
  | case1 => exact .inl rfl
  | case2 previous c cs hstop => exact .inr ⟨[], by simp [hstop.1]⟩
  | case3 previous c cs hstop ih =>
      rcases ih with hall | ⟨inner, hinner⟩
      · exact .inl (by simp [hall])
      · exact .inr ⟨c :: inner, by simp [hinner]⟩

/-- A literal ends with the sign it starts with: a quote, or a slash in JavaScript. -/
theorem eq_slash_or_quote {family : Family} {previous : Option Char} {opener stop : Char}
    (hend : family.literalEnd? previous opener = some stop) :
    stop = opener ∧ (opener = '/' ∧ family = .javascript ∨ opener ∈ family.quotes) := by
  rw [Family.literalEnd?] at hend
  split at hend
  next hquote => exact ⟨(Option.some.inj hend).symm, .inr hquote⟩
  next =>
      split at hend
      next hslash =>
          obtain ⟨hfamily, rfl, _⟩ := hslash
          exact ⟨(Option.some.inj hend).symm, .inl ⟨rfl, hfamily⟩⟩
      next => cases hend

theorem isForeign_of_literalEnd? {family : Family} {previous : Option Char} {c stop : Char}
    (hend : family.literalEnd? previous c = some stop) :
    isForeign c = true ∧ isForeign stop = true := by
  have hquotes : ∀ c ∈ family.quotes, isForeign c = true :=
    List.all_iff_forall_prop.mp (by cases family <;> decide)
  obtain ⟨rfl, ⟨rfl, _⟩ | hquote⟩ := eq_slash_or_quote hend
  · decide
  · exact ⟨hquotes stop hquote, hquotes stop hquote⟩

theorem isLetter_markOpen : isLetter markOpen = false := by
  decide +kernel

theorem quoted_respects (family : Family) : Finder.Respects (quoted family) where
  passes := by
    apply Finder.passes_of_foreign
    intro before c cs hforeign
    rw [quoted]
    split
    next => rfl
    next stop hend => simp [(isForeign_of_literalEnd? hend).1] at hforeign
  anchors := by
    intro before c cs n hfind
    rw [quoted] at hfind
    split at hfind
    next => cases hfind
    next stop hend =>
        obtain ⟨hstart, hstop⟩ := isForeign_of_literalEnd? hend
        obtain ⟨flags, hflags, hletters, hn⟩ : ∃ flags : Text,
            flags <+: cs.drop (lengthTo stop c cs) ∧ markOpen ∉ flags ∧
              n = lengthTo stop c cs + flags.length := by
          refine ⟨_, ?_, ?_, (Nat.succ.inj hfind).symm⟩
          · split
            · exact List.takeWhile_prefix isLetter
            · exact List.nil_prefix
          · split
            · intro hmem
              have hletter := List.all_eq_true.mp List.all_takeWhile _ hmem
              simp [isLetter_markOpen] at hletter
            · simp
        rcases lengthTo_spec stop c cs with hall | ⟨inner, hinner⟩
        · refine ⟨[], c, cs.take n, rfl, hstart, .inr ?_⟩
          exact List.drop_of_length_le (by omega)
        · refine ⟨c :: inner, stop, flags, ?_, hstop, .inl hletters⟩
          rw [hn, List.take_add, hinner, List.prefix_iff_eq_take.mp hflags]
          simp

theorem eq_of_toLower_eq {c lower upper : Char} (hlower : c.toLower = lower)
    (hupper : upper.val = lower.val - 32) : c = lower ∨ c = upper := by
  delta Char.toLower at hlower
  split at hlower
  next =>
      have hval := congrArg Char.val hlower
      have hcode : c.val = lower.val - 32 := by
        rw [← hval]
        grind
      exact .inr (Char.ext (hcode.trans hupper.symm))
  next => exact .inl hlower

theorem isForeign_of_toLower_eq {c : Char} (hlower : c.toLower = 'u') : isForeign c = true := by
  rcases @eq_of_toLower_eq c 'u' 'U' hlower rfl with rfl | rfl <;> decide

theorem exists_eq_takeWhile_append {p : Char → Bool} {t : Text}
    (hlength : (t.takeWhile p).length < t.length) :
    ∃ (d : Char) (rest : Text), t = t.takeWhile p ++ d :: rest ∧ p d = false := by
  have hsplit : t.takeWhile p ++ t.dropWhile p = t := List.takeWhile_append_dropWhile
  have hhead := List.head?_dropWhile_not p t
  cases hdrop : t.dropWhile p with
  | nil =>
      rw [hdrop, List.append_nil] at hsplit
      rw [hsplit] at hlength
      exact absurd hlength (Nat.lt_irrefl _)
  | cons d rest =>
      rw [hdrop] at hsplit hhead
      exact ⟨d, rest, hsplit.symm, by simpa using hhead⟩

/-- A reference is its four first characters, anything but a closing parenthesis, and one. -/
theorem resource_cases {before rest : Text} {n : Nat} (hfind : resource before rest = n + 1) :
    ∃ (u r l : Char) (inner others : Text), rest = u :: r :: l :: '(' :: (inner ++ ')' :: others) ∧
      [u, r, l].map Char.toLower = ['u', 'r', 'l'] ∧ (∀ c ∈ inner, c ≠ ')') ∧
      n = inner.length + 4 := by
  unfold resource at hfind
  split at hfind
  next u r l cs =>
      simp only at hfind
      split at hfind
      next hlower =>
          split at hfind
          next hclosed =>
              obtain ⟨d, others, hsplit, hd⟩ := exists_eq_takeWhile_append hclosed
              obtain rfl : d = ')' := by simpa using hd
              refine ⟨u, r, l, cs.takeWhile (· ≠ ')'), others, by rw [← hsplit], hlower, ?_, ?_⟩
              · intro c hc
                simpa using List.all_eq_true.mp List.all_takeWhile c hc
              · omega
          next => cases hfind
      next => cases hfind
  next => cases hfind

theorem resource_respects : Finder.Respects resource where
  passes := by
    apply Finder.passes_of_foreign
    intro before c cs hforeign
    unfold resource
    split
    next u r l cs' heq =>
        cases heq
        split
        next hlower => simp [isForeign_of_toLower_eq (List.cons.inj hlower).1] at hforeign
        next => rfl
    next => rfl
  anchors := by
    intro before c cs n hfind
    obtain ⟨u, r, l, inner, others, hsplit, _, _, rfl⟩ := resource_cases hfind
    obtain ⟨rfl, rfl⟩ := List.cons.inj hsplit
    refine ⟨c :: r :: l :: '(' :: inner, ')', [], ?_, by decide, .inl (by simp)⟩
    simp [List.take_length_add_append]

theorem take_length_takeWhile (p : Char → Bool) (t : Text) :
    t.take (t.takeWhile p).length = t.takeWhile p :=
  (List.prefix_iff_eq_take.mp (List.takeWhile_prefix p)).symm

/-- An exponent is its letter, a sign or none, and digits. -/
theorem exponentLength_cases {t : Text} {n : Nat} (hlength : exponentLength t = n + 1) :
    ∃ (e : Char) (sign digits : Text), t.take (n + 1) = e :: (sign ++ digits) ∧
      (e = 'e' ∨ e = 'E') ∧ (∀ c ∈ sign, c = '-' ∨ c = '+') ∧ digits ≠ [] ∧
      ∀ c ∈ digits, isDecimal c = true := by
  have hdigits : ∀ {rest : Text} {m : Nat}, (rest.takeWhile isDecimal).length = m + 1 →
      rest.take (m + 1) = rest.takeWhile isDecimal ∧ rest.takeWhile isDecimal ≠ [] := by
    intro rest m hm
    exact ⟨by rw [← hm, take_length_takeWhile], List.ne_nil_of_length_pos (by omega)⟩
  have hdecimal : ∀ {rest : Text}, ∀ c ∈ rest.takeWhile isDecimal, isDecimal c = true :=
    fun c hc => List.all_eq_true.mp List.all_takeWhile c hc
  unfold exponentLength at hlength
  split at hlength
  next e cs =>
      split at hlength
      next he =>
          split at hlength
          next => cases hlength
          next sign rest =>
              split at hlength
              next hsign =>
                  split at hlength
                  next => cases hlength
                  next m hm =>
                      obtain rfl : n = m + 2 := by omega
                      obtain ⟨htake, hne⟩ := hdigits hm
                      refine ⟨e, [sign], rest.takeWhile isDecimal, ?_, he,
                        List.forall_mem_singleton.mpr hsign, hne, hdecimal⟩
                      rw [List.take_succ_cons, List.take_succ_cons, htake]
                      rfl
              next hsign =>
                  split at hlength
                  next => cases hlength
                  next m hm =>
                      obtain rfl : n = m + 1 := by omega
                      obtain ⟨htake, hne⟩ := hdigits hm
                      refine ⟨e, [], (sign :: rest).takeWhile isDecimal, ?_, he, nofun, hne,
                        hdecimal⟩
                      rw [List.take_succ_cons, htake]
                      rfl
      next => cases hlength
  next => cases hlength

/-- How long the fraction of a number is, with its point. -/
def fractionLength : Text → Nat
  | '.' :: cs => (cs.takeWhile isDecimal).length + 1
  | _ => 0

theorem of_mem_take_fractionLength {t : Text} {c : Char} (hc : c ∈ t.take (fractionLength t)) :
    c = '.' ∨ isDecimal c = true := by
  unfold fractionLength at hc
  split at hc
  next cs =>
      rw [List.take_succ_cons, take_length_takeWhile, List.mem_cons] at hc
      exact hc.imp_right fun hdigit => List.all_eq_true.mp List.all_takeWhile c hdigit
  next => simp at hc

theorem exponent_parts {before rest : Text} {n : Nat} (hfind : exponent before rest = n + 1) :
    ∃ m, exponentLength ((rest.dropWhile isDecimal).drop
        (fractionLength (rest.dropWhile isDecimal))) = m + 1 ∧
      (rest.takeWhile isDecimal).length + (fractionLength (rest.dropWhile isDecimal) + (m + 1)) =
        n + 1 := by
  rw [exponent] at hfind
  split at hfind
  next => cases hfind
  next =>
      simp only at hfind
      split at hfind
      next => cases hfind
      next =>
          split at hfind
          next => cases hfind
          next m hm => exact ⟨m, hm, by rwa [← Nat.add_assoc, ← Nat.add_assoc]⟩

/-- A number with an exponent is its digits, a fraction and the exponent. -/
theorem exponent_cases {before rest : Text} {n : Nat} (hfind : exponent before rest = n + 1) :
    ∃ (whole fraction : Text) (e : Char) (sign digits : Text),
      rest.take (n + 1) = whole ++ (fraction ++ e :: (sign ++ digits)) ∧
      (∀ c ∈ whole, isDecimal c = true) ∧ (∀ c ∈ fraction, c = '.' ∨ isDecimal c = true) ∧
      (e = 'e' ∨ e = 'E') ∧ (∀ c ∈ sign, c = '-' ∨ c = '+') ∧ digits ≠ [] ∧
      ∀ c ∈ digits, isDecimal c = true := by
  obtain ⟨m, hm, hlength⟩ := exponent_parts hfind
  obtain ⟨e, sign, digits, htake, he, hsign, hdigits⟩ := exponentLength_cases hm
  have hsplit : rest.takeWhile isDecimal ++ rest.dropWhile isDecimal = rest :=
    List.takeWhile_append_dropWhile
  generalize rest.dropWhile isDecimal = tail at hlength htake hsplit
  refine ⟨rest.takeWhile isDecimal, tail.take (fractionLength tail), e, sign, digits, ?_,
    fun c hc => List.all_eq_true.mp List.all_takeWhile c hc, fun c => of_mem_take_fractionLength,
    he, hsign, hdigits⟩
  rw [← htake, ← List.take_add, ← List.take_length_add_append, hsplit, hlength]

theorem exponent_anchors (before : Text) (c : Char) (cs : Text) (n : Nat)
    (hfind : exponent before (c :: cs) = n + 1) : Anchored (c :: cs.take n) (cs.drop n) := by
  obtain ⟨whole, fraction, e, sign, digits, hspan, _, _, he, hsign, _, hdigits⟩ :=
    exponent_cases hfind
  refine ⟨whole ++ fraction, e, sign ++ digits, by simpa using hspan, ?_, .inl fun hmem => ?_⟩
  · rcases he with rfl | rfl <;> decide
  · rcases List.mem_append.mp hmem with hmem | hmem
    · rcases hsign _ hmem with h | h <;> revert h <;> decide
    · have hdecimal := hdigits _ hmem
      rw [isDecimal_markOpen] at hdecimal
      cases hdecimal

theorem exponent_eq_zero_of_continued {before : Text}
    (hbefore : headIs (fun c => isWord c || c == '.') before = true) (rest : Text) :
    exponent before rest = 0 := by
  rw [exponent, if_pos hbefore]

theorem exponent_eq_zero_of_not_decimal {c : Char} (hc : isDecimal c = false) (before cs : Text) :
    exponent before (c :: cs) = 0 := by
  simp [exponent, hc]

theorem exponent_digits_markClose (before : Text) (number : Nat) (rest : Text) :
    exponent before (Nat.toDigits 10 number ++ markClose :: rest) = 0 := by
  rw [exponent]
  split
  next => rfl
  next =>
      rw [takeWhile_digits isDecimal_markClose, dropWhile_digits isDecimal_markClose]
      simp [markClose, exponentLength]

theorem isWord_of_isDigit {c : Char} (hdigit : c.isDigit = true) : isWord c = true := by
  have hascii := toNat_lt_of_isDigit hdigit
  rw [isWord, if_pos hascii, Char.isAlphanum, hdigit, Bool.or_true, Bool.true_or]

theorem exponent_respects : Finder.Respects exponent where
  passes := by
    intro before number rest i hi
    -- Before the digits nothing is found, at their start the number has no exponent, and from the
    -- second one on a digit stands before.
    match i with
    | 0 => exact exponent_eq_zero_of_not_decimal isDecimal_markOpen _ _
    | 1 => simpa [mark] using exponent_digits_markClose (markOpen :: before) number rest
    | i + 2 =>
        apply exponent_eq_zero_of_continued
        have hdigit : i < (Nat.toDigits 10 number).length := by
          simp only [mark, List.length_cons, List.length_append, List.length_nil] at hi
          omega
        have htake : (mark number).take (i + 2) =
            (mark number).take (i + 1) ++ [(Nat.toDigits 10 number)[i]] := by
          rw [List.take_add_one (i := i + 1)]
          simp [mark, List.getElem?_append_left hdigit]
        have hword := isWord_of_isDigit
          (Nat.isDigit_of_mem_toDigits (by decide) (by decide) (List.getElem_mem hdigit))
        rw [htake, List.reverse_append]
        simp [hword]
  anchors := exponent_anchors

/-- An argument list is an opening sign, characters that a list may hold, and a closing sign. -/
theorem typeList_cases {before rest : Text} {n : Nat} (hfind : typeList before rest = n + 1) :
    ∃ inner others : Text, rest = '<' :: (inner ++ '>' :: others) ∧ n = inner.length + 1 ∧
      ∀ c ∈ inner, isTypeListChar c = true := by
  unfold typeList at hfind
  split at hfind
  next before cs =>
      split at hfind
      next =>
          simp only at hfind
          split at hfind
          next => cases hfind
          next hne =>
              have hprefix : ((cs.takeWhile isTypeListChar).reverse.dropWhile (· ≠ '>')).reverse <+:
                  cs := by
                refine List.IsPrefix.trans ?_ (List.takeWhile_prefix isTypeListChar)
                rw [← List.reverse_suffix, List.reverse_reverse]
                exact List.dropWhile_suffix _
              have hhead := List.head?_dropWhile_not (· ≠ '>')
                (cs.takeWhile isTypeListChar).reverse
              have hchars : ∀ c ∈ (cs.takeWhile isTypeListChar).reverse.dropWhile (· ≠ '>'),
                  isTypeListChar c = true := by
                intro c hc
                have hmem := List.mem_reverse.mp ((List.dropWhile_suffix _).subset hc)
                exact List.all_eq_true.mp List.all_takeWhile c hmem
              generalize (cs.takeWhile isTypeListChar).reverse.dropWhile (· ≠ '>') = inner
                at hfind hne hprefix hhead hchars
              cases inner with
              | nil => simp at hne
              | cons d inner =>
                  obtain rfl : d = '>' := by simpa using hhead
                  obtain ⟨others, rfl⟩ := hprefix
                  refine ⟨inner.reverse, others, by simp, by simpa using hfind.symm, ?_⟩
                  intro c hc
                  exact hchars c (List.mem_cons_of_mem _ (List.mem_reverse.mp hc))
      next => cases hfind
  next => cases hfind

theorem typeList_respects : Finder.Respects typeList where
  passes := by
    apply Finder.passes_of_foreign
    intro before c cs hforeign
    unfold typeList
    split
    next before' cs' heq =>
        cases heq
        exact absurd hforeign (by decide)
    next => rfl
  anchors := by
    intro before c cs n hfind
    obtain ⟨inner, others, hsplit, rfl, _⟩ := typeList_cases hfind
    obtain ⟨rfl, rfl⟩ := List.cons.inj hsplit
    refine ⟨'<' :: inner, '>', [], ?_, by decide, .inl (by simp)⟩
    simp [List.take_length_add_append]

/-- The operators that are cut out, the longer ones first. -/
def shiftOperators : List Text :=
  [['<', '<', '='], ['<', '<'], ['>', '>', '>', '='], ['>', '>', '>'], ['>', '>', '='], ['>', '>']]

theorem shift_eq (before t : Text) : shift before t =
    ((shiftOperators.find? fun operator => operator <+: t).map List.length).getD 0 := by
  unfold shift
  split <;> simp_all [shiftOperators, List.cons_prefix_iff]

theorem shift_cases {before rest : Text} {n : Nat} (hfind : shift before rest = n + 1) :
    rest.take (n + 1) ∈ shiftOperators := by
  rw [shift_eq] at hfind
  cases hsome : shiftOperators.find? fun operator => operator <+: rest with
  | none => simp [hsome] at hfind
  | some operator =>
      have hfound := List.find?_some hsome
      have hfront : operator <+: rest := of_decide_eq_true hfound
      have hlength : operator.length = n + 1 := by simpa [hsome] using hfind
      rw [← hlength, ← List.prefix_iff_eq_take.mp hfront]
      exact List.mem_of_find?_eq_some hsome

theorem shift_respects : Finder.Respects shift where
  passes := by
    apply Finder.passes_of_foreign
    intro before c cs hforeign
    have hleft : c ≠ '<' := by
      rintro rfl
      exact absurd hforeign (by decide)
    have hright : c ≠ '>' := by
      rintro rfl
      exact absurd hforeign (by decide)
    unfold shift
    split <;> simp_all
  anchors := by
    intro before c cs n hfind
    have hoperators : ∀ operator ∈ shiftOperators, operator.all isForeign = true := by decide
    have hforeign := List.all_eq_true.mp (hoperators _ (shift_cases hfind))
    exact ⟨[], c, cs.take n, rfl, hforeign c List.mem_cons_self, .inl fun hmem =>
      absurd (hforeign markOpen (List.mem_cons_of_mem c hmem)) (by decide +kernel)⟩

theorem finders_respect {family : Family} {language : Option Text} {find : Finder}
    (hfind : find ∈ finders family language) : find.Respects := by
  simp only [finders, List.mem_cons, List.mem_append] at hfind
  rcases hfind with rfl | ((hfind | hfind) | hfind) | hfind
  · exact quoted_respects family
  · split at hfind <;> simp_all [resource_respects]
  · split at hfind <;> simp_all [exponent_respects]
  · split at hfind <;> simp_all [typeList_respects]
  · split at hfind <;> simp_all [shift_respects]

end SourceLayout.Literal
