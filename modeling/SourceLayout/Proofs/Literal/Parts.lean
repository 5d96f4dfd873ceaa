import SourceLayout.Proofs.Literal.Kinds

/-!
# A run on the parts of a text

What a finder finds in the first part of a text mostly does not depend on what comes after it: a
literal that is closed stays closed, a number goes on with the characters of numbers only, and an
argument list ends before a character that it may not hold. A run on the whole is then a run on the
first part followed by one on the second.
-/

namespace SourceLayout.Literal

variable {family : Family} {find : Finder} {before u v : Text}

theorem headIs_reverse_eq (p : Char → Bool) (t : Text) :
    headIs p t.reverse = true ↔ ∃ c, t.getLast? = some c ∧ p c = true := by
  rw [← List.head?_reverse]
  cases t.reverse <;> simp

theorem getLast?_mark (number : Nat) : (mark number).getLast? = some markClose :=
  List.getLast?_concat

/-- Whether a run on a text is one on its first part and then one on the second. -/
def Finder.Splits (find : Finder) (before u v : Text) : Prop :=
  ∀ literals, find.maskFrom before 0 (u ++ v) literals =
    (find.maskFrom (u.reverse ++ before) 0 v (find.maskFrom before 0 u literals).literals).prepend
      (find.maskFrom before 0 u literals).text

/-- Whether a run leaves the first part of a text as it is. -/
def Finder.Passes (find : Finder) (before stretch rest : Text) : Prop :=
  ∀ literals, find.maskFrom before 0 (stretch ++ rest) literals =
    (find.maskFrom (stretch.reverse ++ before) 0 rest literals).prepend stretch

namespace Finder

theorem Splits.nil : find.Splits before [] v :=
  fun _ => rfl

theorem Splits.char {c : Char} {cs : Text} (hfind : find before (c :: cs) = 0)
    (hwhole : find before (c :: (cs ++ v)) = 0) (hrest : find.Splits (c :: before) cs v) :
    find.Splits before (c :: cs) v := by
  intro literals
  rw [List.cons_append, maskFrom_cons hwhole, maskFrom_cons hfind, hrest]
  simp [Masked.prepend]

theorem Splits.span {piece others : Text} (hne : piece ≠ [])
    (hfind : find before (piece ++ others) = piece.length)
    (hwhole : find before (piece ++ (others ++ v)) = piece.length)
    (hrest : find.Splits (piece.reverse ++ before) others v) :
    find.Splits before (piece ++ others) v := by
  intro literals
  rw [List.append_assoc, maskFrom_found hne hwhole, maskFrom_found hne hfind, hrest]
  simp [Masked.prepend]

/-- Where the second part makes no difference to what is found at the places of the first. -/
theorem splits_of_places
    (hlocal : ∀ front t : Text, t ≠ [] → u = front ++ t →
      find (front.reverse ++ before) (t ++ v) = find (front.reverse ++ before) t ∧
        find (front.reverse ++ before) t ≤ t.length) : find.Splits before u v := by
  induction before, u using scan_induct find with
  | done before => exact .nil
  | passed before c cs hfind ih =>
      have hsame := (hlocal [] (c :: cs) (by simp) rfl).1
      rw [List.reverse_nil, List.nil_append, hfind] at hsame
      refine .char hfind hsame (ih fun front t hne ht => ?_)
      have hplace := hlocal (c :: front) t hne (by rw [ht, List.cons_append])
      rwa [List.reverse_cons, List.append_assoc] at hplace
  | found before c cs n hfind ih =>
      obtain ⟨hsame, hshort⟩ := hlocal [] (c :: cs) (by simp) rfl
      rw [List.reverse_nil, List.nil_append, hfind] at hsame hshort
      have hsplit : c :: cs = (c :: cs.take n) ++ cs.drop n := by simp
      have hpiece : n + 1 = (c :: cs.take n).length := by
        simp only [List.length_cons, List.length_take] at hshort ⊢
        omega
      rw [hsplit, hpiece] at hfind
      rw [hsplit, hpiece, List.append_assoc] at hsame
      rw [hsplit]
      refine .span (by simp) hfind hsame (ih fun front t hne ht => ?_)
      have hplace := hlocal (c :: cs.take n ++ front) t hne (by
        rw [List.append_assoc, ← ht, List.cons_append, List.take_append_drop])
      rwa [List.reverse_append, List.append_assoc] at hplace

theorem splits_of_forall
    (hlocal : ∀ (before t : Text), t ≠ [] → t <:+ u →
      find before (t ++ v) = find before t ∧ find before t ≤ t.length)
    (before : Text) : find.Splits before u v :=
  splits_of_places fun front t hne ht => hlocal _ t hne ⟨front, ht.symm⟩

theorem passes_nil (rest : Text) : find.Passes before [] rest :=
  fun _ => rfl

theorem Passes.char {c : Char} {cs rest : Text} (hfind : find before (c :: (cs ++ rest)) = 0)
    (hrest : find.Passes (c :: before) cs rest) : find.Passes before (c :: cs) rest := by
  intro literals
  rw [List.cons_append, maskFrom_cons hfind, hrest]
  simp [Masked.prepend]

theorem Passes.append {stretch stretch' rest : Text} (h : find.Passes before stretch (stretch' ++ rest))
    (h' : find.Passes (stretch.reverse ++ before) stretch' rest) :
    find.Passes before (stretch ++ stretch') rest := by
  intro literals
  rw [List.append_assoc, h, h']
  simp [Masked.prepend]

/-- What a run writes last is the last character of the text or the end of a mark, and which one of
them does not depend on the numbers of the marks. -/
theorem getLast?_maskFrom (find : Finder) (before t : Text) (literals : List Text) :
    ((find.maskFrom before 0 t literals).text.getLast? = t.getLast? ∨
        (find.maskFrom before 0 t literals).text.getLast? = some markClose) ∧
      ∀ literals', (find.maskFrom before 0 t literals').text.getLast? =
        (find.maskFrom before 0 t literals).text.getLast? := by
  induction before, t using scan_induct find generalizing literals with
  | done before => exact ⟨.inl rfl, fun _ => rfl⟩
  | passed before c cs hfind ih =>
      obtain ⟨hlast, hsame⟩ := ih literals
      simp only [maskFrom_cons hfind, Masked.prepend_text, List.singleton_append,
        List.getLast?_cons, hsame]
      refine ⟨?_, fun _ => trivial⟩
      rcases hlast with hlast | hlast
      · exact .inl (by rw [hlast])
      · exact .inr (by rw [hlast]; rfl)
  | found before c cs n hfind ih =>
      obtain ⟨hlast, hsame⟩ := ih (literals ++ [c :: cs.take n])
      simp only [maskFrom_span hfind, Masked.prepend_text, List.getLast?_append, getLast?_mark, hsame]
      refine ⟨?_, fun _ => trivial⟩
      rcases hlast with hlast | hlast
      · rw [hlast]
        cases hdrop : (cs.drop n).getLast? with
        | none => exact .inr rfl
        | some d =>
            have hsplit : c :: cs = (c :: cs.take n) ++ cs.drop n := by simp
            exact .inl (by rw [hsplit, List.getLast?_append, hdrop]; rfl)
      · exact .inr (by rw [hlast]; rfl)

end Finder

/-! ### Quoted literals -/

/-- The delimiter of the literal that a text leaves open, if any, scanning inside the literal that
`inside` ends. -/
def openLiteral? (family : Family) (previous inside : Option Char) : Text → Option Char
  | [] => inside
  | c :: cs =>
      match inside with
      | some stop =>
          let inside' := if c = stop ∧ previous ≠ some '\\' then none else some stop
          openLiteral? family (some c) inside' cs
      | none => openLiteral? family (some c) (family.literalEnd? previous c) cs

theorem openLiteral?_closes {stop previous : Char} {inner : Text} (h : Closes stop previous inner)
    (rest : Text) : openLiteral? family (some previous) (some stop) (inner ++ rest) =
      openLiteral? family (some stop) none rest := by
  induction h with
  | stop hprevious => simp [openLiteral?, hprevious]
  | pass hpass _ ih => simp [openLiteral?, hpass, ih]

theorem openLiteral?_open {stop previous : Char} {t : Text}
    (hopen : ∀ front, front <+: t → ¬Closes stop previous front) :
    openLiteral? family (some previous) (some stop) t = some stop := by
  induction t generalizing previous with
  | nil => rfl
  | cons c cs ih =>
      have hpass : ¬(c = stop ∧ previous ≠ '\\') := by
        rintro ⟨rfl, hprevious⟩
        exact hopen [c] (by simp) (.stop hprevious)
      have hrest := ih fun front hfront hcloses =>
        hopen (c :: front) (List.cons_prefix_cons.mpr ⟨rfl, hfront⟩) (.pass hpass hcloses)
      simpa [openLiteral?, hpass] using hrest

theorem openLiteral?_letters {flags : Text} (hflags : flags.all isLetter = true)
    (before rest : Text) : openLiteral? family before.head? none (flags ++ rest) =
      openLiteral? family (flags.reverse ++ before).head? none rest := by
  induction flags generalizing before with
  | nil => rfl
  | cons c cs ih =>
      rw [List.all_cons, Bool.and_eq_true] at hflags
      have hrest := ih hflags.2 (c :: before)
      rw [List.cons_append, openLiteral?, Comment.literalEnd?_of_isLetter hflags.1]
      simpa using hrest

/-- No literal is left open by one that closes. -/
theorem openLiteral?_literal {inner flags others : Text} {opener stop : Char}
    (hend : family.literalEnd? before.head? opener = some stop) (hcloses : Closes stop opener inner)
    (hletters : flags.all isLetter = true) :
    openLiteral? family before.head? none (opener :: (inner ++ flags) ++ others) =
      openLiteral? family ((opener :: (inner ++ flags)).reverse ++ before).head? none others := by
  have hlast : some stop = ((opener :: inner).reverse ++ before).head? := by
    simp [hcloses.getLast?]
  rw [List.cons_append, openLiteral?, hend, List.append_assoc, openLiteral?_closes hcloses, hlast,
    openLiteral?_letters hletters]
  simp

theorem takeWhile_append_of_headIs {p : Char → Bool} {v : Text} (hv : headIs p v = false) (t : Text) :
    (t ++ v).takeWhile p = t.takeWhile p := by
  induction t with
  | nil =>
      cases v with
      | nil => rfl
      | cons c cs =>
          rw [headIs_cons] at hv
          simp [hv]
  | cons c cs ih => rw [List.cons_append, List.takeWhile_cons, List.takeWhile_cons, ih]

theorem dropWhile_append_of_headIs {p : Char → Bool} {v : Text} (hv : headIs p v = false) (t : Text) :
    (t ++ v).dropWhile p = t.dropWhile p ++ v := by
  induction t with
  | nil =>
      cases v with
      | nil => rfl
      | cons c cs =>
          rw [headIs_cons] at hv
          simp [hv]
  | cons c cs ih =>
      rw [List.cons_append, List.dropWhile_cons, List.dropWhile_cons, ih]
      split <;> rfl

theorem QuotedRun.splits (hrun : QuotedRun family before u)
    (hclosed : openLiteral? family before.head? none u = none) (hv : headIs isLetter v = false) :
    (quoted family).Splits before u v := by
  induction hrun with
  | nil => exact .nil
  | char hend _ ih =>
      rw [openLiteral?, hend] at hclosed
      exact .char (quoted_eq_zero_of_none hend) (quoted_eq_zero_of_none hend) (ih hclosed)
  | @closed before inner flags others opener stop hend hcloses hletters _ hfind _ ih =>
      rw [openLiteral?_literal hend hcloses hletters] at hclosed
      refine .span (by simp) hfind ?_ (ih hclosed)
      rw [List.cons_append, List.append_assoc, quoted_of_closes hend hcloses] at hfind
      rw [List.cons_append, List.append_assoc, quoted_of_closes hend hcloses, ← hfind, flagsOf,
        flagsOf, ← List.append_assoc, takeWhile_append_of_headIs hv]
  | unclosed hend hnever =>
      rw [List.append_nil, openLiteral?, hend, openLiteral?_open hnever] at hclosed
      cases hclosed

/-- A text whose masked text does not end with a mark leaves no literal open. -/
theorem QuotedRun.openLiteral?_eq_none (hrun : QuotedRun family before u) {literals : List Text}
    (hlast : ((quoted family).maskFrom before 0 u literals).text.getLast? ≠ some markClose) :
    openLiteral? family before.head? none u = none := by
  have hlater : ∀ {front rest : Text}, (front ++ rest).getLast? ≠ some markClose →
      rest.getLast? ≠ some markClose := by
    intro front rest hlast hrest
    rw [List.getLast?_append, hrest] at hlast
    exact hlast rfl
  induction hrun generalizing literals with
  | nil => rfl
  | char hend _ ih =>
      rw [Finder.maskFrom_cons (quoted_eq_zero_of_none hend)] at hlast
      rw [openLiteral?, hend]
      exact ih (hlater hlast)
  | closed hend hcloses hletters _ hfind _ ih =>
      rw [Finder.maskFrom_found (by simp) hfind] at hlast
      rw [openLiteral?_literal hend hcloses hletters]
      exact ih (hlater hlast)
  | unclosed _ _ hfind =>
      rw [Finder.maskFrom_found (by simp) hfind] at hlast
      rw [Finder.maskFrom, Masked.prepend_text, List.append_nil] at hlast
      exact absurd (getLast?_mark _) hlast

theorem quoted_passes {stretch : Text} (hstretch : ∀ c ∈ stretch, isLoud c = false)
    (before rest : Text) : (quoted family).Passes before stretch rest := by
  have hloud : ∀ c ∈ '/' :: family.quotes, isLoud c = true :=
    List.all_iff_forall_prop.mp (by cases family <;> decide +kernel)
  have hend : ∀ c, isLoud c = false → ∀ previous, family.literalEnd? previous c = none := by
    intro c hc previous
    have hother : c ∉ '/' :: family.quotes := fun hmem => by simp [hloud c hmem] at hc
    rw [List.mem_cons, not_or] at hother
    simp [Family.literalEnd?, hother]
  exact fun literals => Finder.maskFrom_of_forall
    (fun c hc _ _ => quoted_eq_zero_of_none (hend c (hstretch c hc) _)) before rest literals

/-! ### Numbers -/

theorem headIs_isDecimal_of_isNumeral (hv : headIs isNumeral v = false) :
    headIs isDecimal v = false := by
  cases v with
  | nil => rfl
  | cons c cs =>
      rw [headIs_cons, isNumeral, Bool.or_eq_false_iff] at hv
      exact hv.1

/-- Once it has a letter and another character, an exponent goes on with digits only. -/
theorem exponentLength_append_of_two (hv : headIs isDecimal v = false) (e d : Char) (ds : Text) :
    exponentLength (e :: d :: ds ++ v) = exponentLength (e :: d :: ds) := by
  have hdecimal := takeWhile_append_of_headIs hv
  have hrest := hdecimal (d :: ds)
  rw [List.cons_append] at hrest
  simp only [List.cons_append, exponentLength, hdecimal, hrest]

theorem exponentLength_append (hv : headIs isNumeral v = false) (t : Text) :
    exponentLength (t ++ v) = exponentLength t := by
  match t with
  | e :: d :: ds => exact exponentLength_append_of_two (headIs_isDecimal_of_isNumeral hv) e d ds
  | [e] =>
      cases v with
      | nil => rfl
      | cons c cs =>
          have hsigns : ∀ d ∈ ['-', '+'], isNumeral d = true :=
            List.all_iff_forall_prop.mp (by decide +kernel)
          have hsign : ¬(c = '-' ∨ c = '+') := by
            intro hc
            rw [headIs_cons, hsigns c (by simpa using hc)] at hv
            cases hv
          have hnone := takeWhile_append_of_headIs (headIs_isDecimal_of_isNumeral hv) []
          rw [List.nil_append] at hnone
          simp [exponentLength, hsign, hnone]
  | [] =>
      cases v with
      | nil => rfl
      | cons c cs =>
          have hletters : ∀ d ∈ ['e', 'E'], isNumeral d = true :=
            List.all_iff_forall_prop.mp (by decide +kernel)
          have hletter : ¬(c = 'e' ∨ c = 'E') := by
            intro hc
            rw [headIs_cons, hletters c (by simpa using hc)] at hv
            cases hv
          simp [exponentLength, hletter]

theorem exponent_eq (before rest : Text) : exponent before rest =
    if headIs (fun c => isWord c || c == '.') before then 0
    else if (rest.takeWhile isDecimal).isEmpty then 0
    else
      let tail := rest.dropWhile isDecimal
      match exponentLength (tail.drop (fractionLength tail)) with
      | 0 => 0
      | n + 1 => (rest.takeWhile isDecimal).length + fractionLength tail + n + 1 := by
  rfl

theorem fractionLength_append (hdecimal : headIs isDecimal v = false)
    (hpoint : headIs (· == '.') v = false) (t : Text) :
    fractionLength (t ++ v) = fractionLength t ∧ fractionLength t ≤ t.length := by
  cases t with
  | nil =>
      have hpoint : ∀ cs, v ≠ '.' :: cs := by
        rintro cs rfl
        simp at hpoint
      rw [List.nil_append, fractionLength.eq_2 v hpoint]
      exact ⟨rfl, Nat.le_refl 0⟩
  | cons c cs =>
      by_cases hc : c = '.'
      · subst hc
        rw [List.cons_append, fractionLength, fractionLength, takeWhile_append_of_headIs hdecimal]
        exact ⟨rfl, Nat.succ_le_succ (List.takeWhile_sublist isDecimal).length_le⟩
      · simp [fractionLength, hc]

theorem exponent_append (hv : headIs isNumeral v = false) (before t : Text) :
    exponent before (t ++ v) = exponent before t := by
  have hdecimal := headIs_isDecimal_of_isNumeral hv
  have hpoint : headIs (· == '.') v = false := by
    cases v with
    | nil => rfl
    | cons c cs =>
        rw [headIs_cons, beq_eq_false_iff_ne]
        rintro rfl
        exact absurd hv (by rw [headIs_cons]; decide +kernel)
  obtain ⟨hsame, hshort⟩ := fractionLength_append hdecimal hpoint (t.dropWhile isDecimal)
  simp only [exponent_eq, takeWhile_append_of_headIs hdecimal, dropWhile_append_of_headIs hdecimal,
    hsame, List.drop_append_of_le_length hshort, exponentLength_append hv]

theorem exponent_le (before t : Text) : exponent before t ≤ t.length := by
  have hsign : isNumeral '<' = false := by decide +kernel
  cases hfind : exponent before t with
  | zero => exact Nat.zero_le _
  | succ n =>
      -- A longer one would go on through any sign after the text.
      rw [← @exponent_append ['<'] hsign] at hfind
      by_contra hlong
      have hmem : '<' ∈ (t ++ ['<']).take (n + 1) := by
        rw [List.take_of_length_le (by rw [List.length_append, List.length_singleton]; omega)]
        simp
      rw [isNumeral_of_exponent hfind '<' hmem] at hsign
      cases hsign

theorem exponent_splits (hv : headIs isNumeral v = false) (before u : Text) :
    exponent.Splits before u v :=
  Finder.splits_of_forall (fun before t _ _ => ⟨exponent_append hv before t, exponent_le before t⟩)
    before

theorem exponent_passes {stretch : Text}
    (hstart : headIs isDecimal stretch = true → headIs (fun c => isWord c || c == '.') before = true)
    (hchain : stretch.IsChain fun c d => isDecimal d = true → (isWord c || c == '.') = true)
    (rest : Text) : exponent.Passes before stretch rest := by
  induction stretch generalizing before with
  | nil => exact Finder.passes_nil rest
  | cons c cs ih =>
      have hnone : exponent before (c :: (cs ++ rest)) = 0 := by
        cases hc : isDecimal c with
        | true => exact exponent_eq_zero_of_continued (hstart hc) _
        | false => exact exponent_eq_zero_of_not_decimal hc before _
      refine .char hnone (ih ?_ hchain.tail)
      cases cs with
      | nil => simp
      | cons d ds => exact (List.isChain_cons_cons.mp hchain).1

/-! ### Shifts -/

theorem shift_le (before t : Text) : shift before t ≤ t.length := by
  rw [shift_eq]
  cases hfind : shiftOperators.find? fun operator => operator <+: t with
  | none => exact Nat.zero_le _
  | some operator =>
      have hfront := List.find?_some hfind
      exact (of_decide_eq_true hfront).length_le

theorem shift_append {t : Text} (hne : t ≠ [])
    (hv : headIs (fun c => c == '<' || c == '=') v = false)
    (hseam : headIs (· == '>') v = true → headIs (· == '>') t.reverse = false) (before : Text) :
    shift before (t ++ v) = shift before t := by
  have hsigns : ∀ operator ∈ shiftOperators, operator.IsChain fun c d =>
      (d = '<' ∨ d = '=') ∨ d = '>' ∧ c = '>' := by decide
  have hsame : ∀ operator ∈ shiftOperators, operator <+: t ++ v ↔ operator <+: t := by
    intro operator hoperator
    refine ⟨fun hstart => ?_, fun hstart => hstart.trans (List.prefix_append t v)⟩
    rcases List.prefix_or_prefix_of_prefix hstart (List.prefix_append t v) with h | ⟨more, rfl⟩
    · exact h
    · cases more with
      | nil => exact (List.append_nil t).symm ▸ List.prefix_rfl
      | cons d ds =>
          -- The operator would go on with a sign that the second part starts with.
          obtain ⟨rest, rfl⟩ := (List.prefix_append_right_inj t).mp hstart
          obtain ⟨front, c, rfl⟩ := (List.eq_nil_or_concat t).resolve_left hne
          have hpair := hsigns _ hoperator
          rw [List.concat_eq_append, List.append_assoc] at hpair
          have hlast := List.IsChain.infix hpair (List.suffix_append front _).isInfix
          have hd := (List.isChain_cons_cons.mp hlast).1
          rw [List.cons_append, headIs_cons] at hv hseam
          rw [List.concat_eq_append, Text.headIs_reverse_append_of_ne_nil (by simp)] at hseam
          rcases hd with hd | ⟨rfl, rfl⟩
          · exact absurd hd (by simpa using hv)
          · simp at hseam
  rw [shift_eq, shift_eq]
  congr 2
  exact List.find?_congr fun operator hoperator => decide_eq_decide.mpr (hsame operator hoperator)

theorem shift_splits (hv : headIs (fun c => c == '<' || c == '=') v = false)
    (hseam : headIs (· == '>') v = true → headIs (· == '>') u.reverse = false) (before : Text) :
    shift.Splits before u v := by
  refine Finder.splits_of_forall (fun before t hne ht => ⟨?_, shift_le before t⟩) before
  refine shift_append hne hv (fun hhead => ?_) before
  obtain ⟨front, rfl⟩ := ht
  rw [← hseam hhead, Text.headIs_reverse_append_of_ne_nil hne]

theorem shift_eq_zero {c : Char} {cs : Text} (hc : c ≠ '<' ∧ c ≠ '>' ∨ headIs (· == c) cs = false)
    (before : Text) : shift before (c :: cs) = 0 := by
  have hsigns : ∀ operator ∈ shiftOperators, ∃ d ds, operator = d :: d :: ds ∧ (d = '<' ∨ d = '>') := by
    simp [shiftOperators]
  rw [shift_eq, List.find?_eq_none.mpr fun operator hoperator => ?_]
  · rfl
  · obtain ⟨d, ds, rfl, hd⟩ := hsigns operator hoperator
    rw [decide_eq_true_eq, List.cons_prefix_cons]
    rintro ⟨rfl, rest, rfl⟩
    rcases hc with hc | hc
    · simp_all
    · simp at hc

end SourceLayout.Literal
