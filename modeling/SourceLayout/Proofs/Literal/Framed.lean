import SourceLayout.Proofs.Literal.TypeList

/-!
# An initialiser in a masked line

The runs that mask a line are followed past an argument list of types and the sign of an assignment
after it. The sign is in no literal. If the list consists of the characters that a list may hold, one
mark stands for it, with what may come before it in the same span; if not, its last bracket is in no
literal either.
-/

namespace SourceLayout.Literal

variable {family : Family} {find : Finder} {masked : Masked} {u stretch s left right : Text}

/-- A masked line with a stretch between the masked texts of what is before and after it. -/
structure Framed (masked : Masked) (u stretch s left right : Text) : Prop where
  text : masked.text = u ++ (stretch ++ s)
  left : Expands masked.literals masked.literals.length u left
  right : Expands masked.literals masked.literals.length s right

theorem Expands.grow {literals : List Text} {t o : Text} (h : Expands literals literals.length t o)
    (extra : List Text) : Expands (literals ++ extra) (literals ++ extra).length t o :=
  (h.extend extra).mono (by simp)

/-- A text without marks at the end stands for itself. -/
theorem Expands.split_foreign {literals : List Text} {bound : Nat} {front t o : Text}
    (h : Expands literals bound (front ++ t) o) (hplain : markOpen ∉ t)
    (hhead : ∀ c ∈ t.head?, isForeign c = true) :
    ∃ o', o = o' ++ t ∧ Expands literals bound front o' := by
  generalize hwhole : front ++ t = whole at h
  induction h generalizing front with
  | nil =>
      obtain ⟨rfl, rfl⟩ := List.append_eq_nil_iff.mp hwhole
      exact ⟨[], rfl, .nil⟩
  | @char bound c rest o hc hrest ih =>
      cases front with
      | nil =>
          obtain rfl : t = c :: rest := hwhole
          have hown := (Expands.char hc hrest).eq_of_plain hplain
          exact ⟨[], hown.symm, .nil⟩
      | cons d ds =>
          obtain ⟨rfl, hlater⟩ := List.cons.inj hwhole
          obtain ⟨o', rfl, hfront⟩ := ih hlater
          exact ⟨d :: o', rfl, .char hc hfront⟩
  | @mark bound number span part rest o hlt hget hpart hrest _ ih =>
      rcases List.append_eq_append_iff.mp hwhole with ⟨middle, hmark, rfl⟩ | ⟨middle, rfl, hlater⟩
      · cases middle with
        | nil =>
            obtain ⟨o', rfl, hfront⟩ := @ih [] rfl
            refine ⟨part ++ o', by rw [List.append_assoc], ?_⟩
            rw [List.append_nil] at hmark
            rw [← hmark, ← List.append_nil (Literal.mark number)]
            exact .mark hlt hget hpart hfront
        | cons d ds =>
            have hforeign := isForeign_of_mem_mark (hmark ▸ List.mem_append_right front List.mem_cons_self)
            rw [hhead d rfl] at hforeign
            cases hforeign
      · obtain ⟨o', rfl, hfront⟩ := ih hlater.symm
        exact ⟨part ++ o', by rw [List.append_assoc], .mark hlt hget hpart hfront⟩

/-- A run that leaves the stretch as it is. -/
theorem Framed.run (h : Framed masked u stretch s left right) (hrespects : find.Respects)
    (hsplits : find.Splits [] u (stretch ++ s)) (hpasses : find.Passes (u.reverse ++ []) stretch s) :
    ∃ s', Framed (find.run masked) (find.maskFrom [] 0 u masked.literals).text stretch s' left right ∧
      ∃ extra, (find.run masked).literals = masked.literals ++ extra := by
  obtain ⟨extra, hextra⟩ := find.exists_literals_eq_append [] u masked.literals
  have hleft := hrespects.maskFrom_expands h.left []
  have hright := h.right.grow extra
  rw [Finder.run, h.text, hsplits, hpasses]
  rw [hextra] at hleft ⊢
  have hmore := hrespects.maskFrom_expands hright (stretch.reverse ++ (u.reverse ++ []))
  obtain ⟨extra', hextra'⟩ := find.exists_literals_eq_append (stretch.reverse ++ (u.reverse ++ [])) s
    (masked.literals ++ extra)
  refine ⟨_, ⟨rfl, ?_, hmore⟩, extra ++ extra', ?_⟩
  · have hgrown := hleft.grow extra'
    rwa [← hextra'] at hgrown
  · exact hextra'.trans (List.append_assoc _ _ _)

/-- The run that cuts argument lists out puts one mark in the place of the list and of what stands
before it in the span. -/
theorem Framed.run_typeList {list tail : Text}
    (h : Framed masked u ('<' :: (list ++ '>' :: tail)) s left right)
    (hword : headIs isWord u.reverse = true) (hlist : list.all isTypeListChar = true)
    (hbracket : '>' ∉ (tail ++ s).takeWhile isTypeListChar) (htail : '<' ∉ tail) :
    ∃ u' number start left' s', left = left' ++ start ∧
      Framed (typeList.run masked) u' (mark number ++ tail) s' left' right ∧
      (typeList.run masked).literals[number]? = some (start ++ '<' :: (list ++ ['>'])) := by
  obtain ⟨front, start, rfl, hstart, hsplits, hcovers⟩ :=
    @typeList_covers [] u list (tail ++ s) hlist hbracket (by simpa using hword)
  have hplain : markOpen ∉ start := fun hmem => by
    have hown := List.all_eq_true.mp hstart _ hmem
    rw [isTypeListChar_markOpen] at hown
    cases hown
  -- The span starts with a bracket.
  have hhead : ∀ c ∈ start.head?, isForeign c = true := by
    intro c hc
    obtain ⟨cs, rfl⟩ := List.head?_eq_some_iff.mp hc
    obtain ⟨_, _, hrest, _⟩ := typeList_cases hcovers
    obtain ⟨rfl, _⟩ := List.cons.inj hrest
    decide +kernel
  obtain ⟨left', rfl, hleft⟩ := h.left.split_foreign hplain hhead
  have hpiece : start ++ '<' :: (list ++ '>' :: (tail ++ s)) =
      (start ++ '<' :: (list ++ ['>'])) ++ (tail ++ s) := by simp
  have htext : masked.text = front ++ ((start ++ '<' :: (list ++ ['>'])) ++ (tail ++ s)) := by
    rw [h.text, ← hpiece]
    simp
  have hlength : (start ++ '<' :: list).length + 1 = (start ++ '<' :: (list ++ ['>'])).length := by
    simp
    omega
  rw [hpiece] at hsplits hcovers
  rw [hlength] at hcovers
  have hne : start ++ '<' :: (list ++ ['>']) ≠ [] := by simp
  generalize hspan : start ++ '<' :: (list ++ ['>']) = span at htext hsplits hcovers hne
  obtain ⟨extra, hextra⟩ := typeList.exists_literals_eq_append [] front masked.literals
  have hfront := typeList_respects.maskFrom_expands hleft []
  have hright := (h.right.grow extra).grow [span]
  rw [Finder.run, htext, hsplits, Finder.maskFrom_found hne hcovers, typeList_passes htail]
  rw [hextra] at hfront ⊢
  generalize tail.reverse ++ (span.reverse ++ (front.reverse ++ [])) = before
  have hmore := typeList_respects.maskFrom_expands hright before
  obtain ⟨extra', hextra'⟩ := typeList.exists_literals_eq_append before s
    (masked.literals ++ extra ++ [span])
  refine ⟨(typeList.maskFrom [] 0 front masked.literals).text, (masked.literals ++ extra).length,
    start, left', _, rfl, ⟨?_, ?_, hmore⟩, ?_⟩
  · simp only [Masked.prepend_text, List.append_assoc]
  · have hgrown := (hfront.grow [span]).grow extra'
    rwa [← hextra'] at hgrown
  · rw [hspan]
    simp only [Masked.prepend_literals, hextra']
    simp

/-! ### All runs -/

theorem mask_eq (hcode : family = .javascript ∨ family = .cFamily) {language : Option Text}
    (hlanguage : typeListLanguages.any (some · == language) = true) (code : Text) :
    mask family language code =
      let masked := typeList.run (exponent.run ((quoted family).run ⟨code, []⟩))
      if family = .cFamily then shift.run masked else masked := by
  rcases hcode with rfl | rfl <;> simp [mask, finders, hlanguage]

theorem mask_none_eq (hcode : family = .javascript ∨ family = .cFamily) (code : Text) :
    mask family none code =
      let masked := exponent.run ((quoted family).run ⟨code, []⟩)
      if family = .cFamily then shift.run masked else masked := by
  rcases hcode with rfl | rfl <;> rfl

/-- What stands between a list and its initialiser. -/
structure IsAssignment (tail : Text) : Prop where
  mem : '=' ∈ tail
  char : ∀ c ∈ tail, isBlank c = true ∨ c = '='

theorem IsAssignment.forall {tail : Text} (h : IsAssignment tail) {p : Char → Prop}
    (hblank : ∀ c, isBlank c = true → p c) (hsign : p '=') : ∀ c ∈ tail, p c := by
  intro c hc
  rcases h.char c hc with hc | rfl
  · exact hblank c hc
  · exact hsign

/-- The runs before the one for lists. -/
theorem exists_framed_exponent {q r : Text} (hopen : openLiteral? family none none q = none)
    (hquiet : ∀ c ∈ stretch, isLoud c = false)
    (hstart : headIs (fun c => c == '<' || c == '>') stretch = true)
    (hchain : stretch.IsChain fun c d => isDecimal d = true → (isWord c || c == '.') = true)
    (hplain : markOpen ∉ q ++ (stretch ++ r)) :
    ∃ literals s, Framed (exponent.run ((quoted family).run ⟨q ++ (stretch ++ r), []⟩))
      (exponent.maskFrom [] 0 ((quoted family).maskFrom [] 0 q []).text literals).text stretch s q r := by
  obtain ⟨c, cs, rfl⟩ : ∃ c cs, stretch = c :: cs := by
    cases stretch with
    | nil => cases hstart
    | cons c cs => exact ⟨c, cs, rfl⟩
  have hbracket : isLetter c = false ∧ isNumeral c = false ∧ isDecimal c = false := by
    rw [headIs_cons, Bool.or_eq_true, beq_iff_eq, beq_iff_eq] at hstart
    rcases hstart with rfl | rfl <;> decide +kernel
  simp only [List.mem_append, not_or] at hplain
  have hsource : Framed ⟨q ++ (c :: cs ++ r), []⟩ q (c :: cs) r q r :=
    ⟨rfl, .of_plain hplain.1, .of_plain hplain.2.2⟩
  obtain ⟨s, hquoted, _⟩ := hsource.run (quoted_respects family)
    ((quotedRun family [] q).splits hopen hbracket.1) (quoted_passes hquiet _ r)
  obtain ⟨s', hexponent, _⟩ := hquoted.run exponent_respects
    (exponent_splits (by exact hbracket.2.1) [] _)
    (exponent_passes (fun hdecimal => by
      rw [headIs_cons, hbracket.2.2] at hdecimal
      cases hdecimal) hchain s)
  exact ⟨_, s', hexponent⟩

theorem shift_passes {t : Text} (ht : ∀ c ∈ t, c ≠ '<' ∧ c ≠ '>') (before rest : Text) :
    shift.Passes before t rest :=
  fun literals => Finder.maskFrom_of_forall
    (fun c hc _ _ => shift_eq_zero (.inl (ht c hc)) _) before rest literals

/-- Where numbers do not start, the digits go on from a word or a point. -/
def NumberFree (t : Text) : Prop :=
  t.IsChain fun c d => isDecimal d = true → (isWord c || c == '.') = true

instance (t : Text) : Decidable (NumberFree t) :=
  inferInstanceAs (Decidable (t.IsChain _))

theorem NumberFree.append {t t' : Text} (h : NumberFree t) (ht' : ∀ c ∈ t', isDecimal c = false) :
    NumberFree (t ++ t') := by
  have hlater : NumberFree t' := by
    have hpairs : t'.IsChain fun c d => [c, d] <:+: t' := List.isChain_isInfix t'
    refine hpairs.imp fun c d hpair hdecimal => ?_
    rw [ht' d (hpair.subset (by simp))] at hdecimal
    cases hdecimal
  refine List.IsChain.append h hlater fun c _ d hd hdecimal => ?_
  rw [ht' d (List.mem_of_mem_head? hd)] at hdecimal
  cases hdecimal

theorem IsAssignment.plain {tail : Text} (h : IsAssignment tail) :
    (∀ c ∈ tail, isLoud c = false) ∧ (∀ c ∈ tail, c ≠ '<' ∧ c ≠ '>') ∧
      ∀ c ∈ tail, isDecimal c = false := by
  have hblank : ∀ c, isBlank c = true → isLoud c = false ∧ (c ≠ '<' ∧ c ≠ '>') ∧ isDecimal c = false := by
    intro c hc
    refine ⟨isLoud_of_isTypeListChar (by simp [isTypeListChar, hc]), ?_, isDecimal_of_isBlank c hc⟩
    constructor <;> rintro rfl <;> cases hc
  exact ⟨h.forall (fun c hc => (hblank c hc).1) (by decide +kernel),
    h.forall (fun c hc => (hblank c hc).2.1) (by decide),
    h.forall (fun c hc => (hblank c hc).2.2) (by decide +kernel)⟩

/-- A text that ends with a word outside of its literals leaves none open, and no number takes the
word away. -/
theorem word_of_mask (hcode : family = .javascript ∨ family = .cFamily) {q : Text}
    (hname : headIs isWord (mask family none q).text.reverse = true) :
    openLiteral? family none none q = none ∧ ∀ literals, headIs isWord
      (exponent.maskFrom [] 0 ((quoted family).maskFrom [] 0 q []).text literals).text.reverse =
        true := by
  obtain ⟨c, hlast, hword⟩ := (headIs_reverse_eq isWord _).mp hname
  have hclose : some markClose ≠ some c := by
    rintro heq
    rw [← Option.some.inj heq] at hword
    exact absurd hword (by decide +kernel)
  have hrun : ∀ {find : Finder} {t : Text} {literals : List Text},
      (find.maskFrom [] 0 t literals).text.getLast? = some c → t.getLast? = some c := by
    intro find t literals hlast
    rcases (find.getLast?_maskFrom [] t literals).1 with hsame | hmark
    · rw [← hsame, hlast]
    · exact absurd (hmark.symm.trans hlast) hclose
  have hexponent : (exponent.run ((quoted family).run ⟨q, []⟩)).text.getLast? = some c := by
    rw [mask_none_eq hcode] at hlast
    simp only at hlast
    split at hlast
    · exact hrun hlast
    · exact hlast
  have hquoted : ((quoted family).maskFrom [] 0 q []).text.getLast? = some c := hrun hexponent
  refine ⟨(quotedRun family [] q).openLiteral?_eq_none fun hmark => hclose (hmark.symm.trans hquoted),
    fun literals => (headIs_reverse_eq isWord _).mpr ⟨c, ?_, hword⟩⟩
  rw [← hexponent]
  exact (exponent.getLast?_maskFrom [] _ _).2 literals

/-- In a masked line, one mark stands for a list that the finder knows. -/
theorem exists_framed_list (hcode : family = .javascript ∨ family = .cFamily)
    {language : Option Text} (hlanguage : typeListLanguages.any (some · == language) = true)
    {q list tail r : Text} (hname : headIs isWord (mask family none q).text.reverse = true)
    (hlist : list.all isTypeListChar = true) (hnumbers : NumberFree ('<' :: list))
    (htail : IsAssignment tail) (hplain : markOpen ∉ q ++ ('<' :: (list ++ '>' :: tail) ++ r)) :
    let masked := mask family language (q ++ ('<' :: (list ++ '>' :: tail) ++ r))
    ∃ u number start left s, q = left ++ start ∧ Framed masked u (mark number ++ tail) s left r ∧
      masked.literals[number]? = some (start ++ '<' :: (list ++ ['>'])) := by
  obtain ⟨hquiet, hsigns, hdecimals⟩ := htail.plain
  obtain ⟨hopen, hword⟩ := word_of_mask hcode hname
  have hbrackets : isLoud '<' = false ∧ isLoud '>' = false ∧ isDecimal '>' = false := by
    decide +kernel
  have hstretch : ∀ c ∈ '<' :: (list ++ '>' :: tail), isLoud c = false := by
    simp only [List.mem_cons, List.mem_append]
    rintro c (rfl | hc | rfl | hc)
    · exact hbrackets.1
    · exact isLoud_of_isTypeListChar (List.all_eq_true.mp hlist c hc)
    · exact hbrackets.2.1
    · exact hquiet c hc
  have hchain : NumberFree ('<' :: (list ++ '>' :: tail)) :=
    hnumbers.append (List.forall_mem_cons.mpr ⟨hbrackets.2.2, hdecimals⟩)
  obtain ⟨literals, s, hexponent⟩ := exists_framed_exponent hopen hstretch rfl hchain hplain
  have hbracket : '>' ∉ (tail ++ s).takeWhile isTypeListChar := by
    have hsign : tail.all isTypeListChar = false := by
      rw [List.all_eq_false]
      exact ⟨'=', htail.mem, by decide +kernel⟩
    rw [takeWhile_of_not_all hsign]
    exact fun hmem => (hsigns '>' ((List.takeWhile_sublist isTypeListChar).subset hmem)).2 rfl
  obtain ⟨u, number, start, left, s', hleft, hframed, hget⟩ :=
    hexponent.run_typeList (hword literals) hlist hbracket fun hmem => (hsigns '<' hmem).1 rfl
  rw [mask_eq hcode hlanguage]
  simp only
  split
  · have hmark : ∀ c ∈ mark number ++ tail, c ≠ '<' ∧ c ≠ '>' := by
      intro c hc
      rcases List.mem_append.mp hc with hc | hc
      · have hforeign := isForeign_of_mem_mark hc
        constructor <;> rintro rfl <;> exact absurd hforeign (by decide +kernel)
      · exact hsigns c hc
    have hopener : headIs (fun c => c == '<' || c == '=') (mark number ++ tail ++ s') = false ∧
        headIs (· == '>') (mark number ++ tail ++ s') = false := by
      rw [List.append_assoc, mark_append, headIs_cons, headIs_cons]
      decide +kernel
    obtain ⟨s'', hshift, extra, hextra⟩ := hframed.run shift_respects
      (shift_splits hopener.1 (fun hhead => absurd (hhead.symm.trans hopener.2) (by simp)) [])
      (shift_passes hmark _ s')
    refine ⟨_, number, start, left, s'', hleft, hshift, ?_⟩
    rw [hextra, List.getElem?_append_left (List.getElem?_eq_some_iff.mp hget).1, hget]
  · exact ⟨u, number, start, left, s', hleft, hframed, hget⟩

/-- In a masked line, the last bracket of a list that goes on with a character which no list holds is
in no literal. -/
theorem exists_framed_bracket (hcode : family = .javascript ∨ family = .cFamily)
    {language : Option Text} (hlanguage : typeListLanguages.any (some · == language) = true)
    {q tail r : Text} (hopen : openLiteral? family none none q = none) (hblunt : isBlunt q = true)
    (htail : IsAssignment tail) (hplain : markOpen ∉ q ++ (('>' :: tail) ++ r)) :
    ∃ u s, Framed (mask family language (q ++ (('>' :: tail) ++ r))) u ('>' :: tail) s q r := by
  obtain ⟨hquiet, hsigns, hdecimals⟩ := htail.plain
  have hstretch : ∀ c ∈ '>' :: tail, isLoud c = false :=
    List.forall_mem_cons.mpr ⟨by decide +kernel, hquiet⟩
  have hchain : NumberFree (['>'] ++ tail) :=
    NumberFree.append (List.isChain_singleton '>') hdecimals
  obtain ⟨literals, s, hexponent⟩ := exists_framed_exponent hopen hstretch rfl hchain hplain
  have hblunt' := isBlunt_maskFrom exponent [] (isBlunt_maskFrom (quoted family) [] hblunt []) literals
  have hlower : '<' ∉ '>' :: tail := by
    rw [List.mem_cons, not_or]
    exact ⟨by decide, fun hmem => (hsigns '<' hmem).1 rfl⟩
  obtain ⟨s', hlist, _⟩ := hexponent.run typeList_respects (typeList_splits hblunt' [] _)
    (typeList_passes hlower _ s)
  rw [mask_eq hcode hlanguage]
  simp only
  split
  · have hnext : headIs (· == '>') (tail ++ s') = false := by
      cases htext : tail with
      | nil => exact absurd htail.mem (by simp [htext])
      | cons c cs => simpa using (hsigns c (by simp [htext])).2
    obtain ⟨s'', hshift, _⟩ := hlist.run shift_respects
      (shift_splits rfl (fun _ => headIs_reverse_of_isBlunt (isBlunt_maskFrom typeList [] hblunt' _)) [])
      (.char (shift_eq_zero (.inr hnext) _) (shift_passes hsigns _ s'))
    exact ⟨_, s'', hshift⟩
  · exact ⟨_, s', hlist⟩

end SourceLayout.Literal
