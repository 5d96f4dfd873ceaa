import SourceLayout.Proofs.Spacing.Apart
import SourceLayout.Proofs.Spacing.Spot

/-!
# An asterisk before an operand

In the C family an asterisk at the start of a line dereferences what comes after it. The operator rule
takes the two apart, collapsing leaves one space at most between them, and the unary rule takes that
one away. The rules after it match no asterisk and write nothing before the start of an operand.
-/

namespace SourceLayout.Spacing

open Text (Trimmed solid solid_cons solid_blank_cons)

/-- What an operator without left operand may be drawn to, as a class of characters. -/
def operand : WordClass :=
  WordClass.plain.adding (Literal.markOpen :: "([.!~$".toList)
    (List.all_iff_forall_prop.mp (by decide))

theorem operand_iff {c : Char} : operand.has c = true ↔ startsOperand c = true := by
  simp only [operand, WordClass.adding, WordClass.plain, startsOperand, Bool.or_eq_true,
    List.contains_iff_mem, List.mem_cons, beq_iff_eq, decide_eq_true_eq, or_assoc]

/-- An asterisk right before an operand. -/
def Dereferences (t : Text) : Prop :=
  ∃ u, t = '*' :: u ∧ headIs operand.has u = true

/-- An asterisk before an operand, with one space between the two at most. -/
def Nears (t : Text) : Prop :=
  ∃ u, headIs operand.has u = true ∧ (t = '*' :: u ∨ t = '*' :: ' ' :: u)

/-! ### Rules that look elsewhere -/

/-- Whether no match of a pattern starts at a character that is no blank. -/
def Pattern.misses (c : Char) : Pattern → Bool
  | .look _ :: parts | .gap _ _ :: parts => Pattern.misses c parts
  | .space :: _ => true
  | .token choices :: _ => choices.all fun choice => !choice.isEmpty && !headIs (· == c) choice
  | .run member _ :: _ => !member c
  | [] => false

/-- Whether a pattern that matches at a character of a class writes nothing before it. -/
def Pattern.keepsHead (words : WordClass) : Pattern → Bool
  | .look _ :: parts => Pattern.keepsHead words parts
  | .gap _ spaced :: parts =>
      if spaced then Pattern.shuns words parts else Pattern.keepsHead words parts
  | .token choices :: _ => choices.all fun choice => !choice.isEmpty
  | .space :: _ | .run _ _ :: _ | [] => true

theorem Pattern.match?_eq_none_of_misses {pattern : Pattern} {c : Char} {before cs : Text}
    (hmisses : Pattern.misses c pattern = true) (hc : isBlank c = false) :
    Pattern.match? before (c :: cs) pattern = none := by
  refine Pattern.match?_eq_none fun rest read written ht hmatch => ?_
  induction hmatch with
  | nil => cases hmisses
  | @cons _ first _ _ _ _ _ hfirst _ ih =>
      cases hfirst with
      | look => exact ih hmisses ht
      | gap hblanks =>
          cases first with
          | nil => exact ih hmisses ht
          | cons b bs =>
              obtain rfl := (List.cons.inj ht).1
              simp [hc] at hblanks
      | space =>
          obtain rfl := (List.cons.inj ht).1
          exact absurd hc (by decide)
      | token hchoice =>
          have hown := List.all_eq_true.mp hmisses first hchoice
          cases first with
          | nil => cases hown
          | cons d ds =>
              obtain rfl := (List.cons.inj ht).1
              simp at hown
      | run hword hne =>
          cases first with
          | nil => exact hne rfl
          | cons d ds =>
              obtain rfl := (List.cons.inj ht).1
              simp [Pattern.misses, hword c List.mem_cons_self] at hmisses

/-- A match that reads the character writes it first. -/
theorem Pattern.Matches.exists_of_keepsHead {words : WordClass} {pattern : Pattern} {c : Char}
    {before rest read written cs : Text} (hmatch : pattern.Matches rest before read written)
    (hkeeps : Pattern.keepsHead words pattern = true) (hc : words.has c = true)
    (ht : c :: cs = read ++ rest) : read = [] ∨ ∃ w, written = c :: w := by
  have hblank := words.isBlank_eq_false c hc
  induction hmatch with
  | nil => exact .inl rfl
  | @cons _ first _ _ _ _ _ hfirst hothers ih =>
      cases hfirst with
      | look => exact ih hkeeps ht
      | @gap _ spaced _ hblanks =>
          cases first with
          | nil =>
              cases spaced with
              | false => exact ih hkeeps ht
              | true =>
                  have hhead := hothers.headIs_of_shuns hkeeps rest
                  rw [← List.nil_append (_ ++ _), ← List.append_assoc, ← ht, headIs_cons, hc] at hhead
                  cases hhead
          | cons b bs =>
              obtain rfl := (List.cons.inj ht).1
              simp [hblank] at hblanks
      | space =>
          obtain rfl := (List.cons.inj ht).1
          exact absurd hblank (by decide)
      | token hchoice =>
          have hown := List.all_eq_true.mp hkeeps first hchoice
          cases first with
          | nil => cases hown
          | cons d ds =>
              obtain rfl := (List.cons.inj ht).1
              exact .inr ⟨_, rfl⟩
      | run _ hne =>
          cases first with
          | nil => exact absurd rfl hne
          | cons d ds =>
              obtain rfl := (List.cons.inj ht).1
              exact .inr ⟨_, rfl⟩

theorem Pattern.headIs_respaceFrom {words : WordClass} {pattern : Pattern} {t : Text}
    (hkeeps : Pattern.keepsHead words pattern = true) (hhead : headIs words.has t = true)
    (before : Text) : headIs words.has (pattern.respaceFrom before 0 t) = true := by
  induction before, t using Pattern.respaceFrom_induct pattern with
  | done before => cases hhead
  | found before read written rest hne hmatch _ =>
      rw [Pattern.respaceFrom_match hne hmatch]
      cases read with
      | nil => exact absurd rfl hne
      | cons c cs =>
          have hwritten := (Pattern.matches_of_match? hmatch).exists_of_keepsHead hkeeps hhead rfl
          obtain ⟨w, rfl⟩ := hwritten.resolve_left hne
          exact hhead
  | passed before c cs hnone _ =>
      rw [Pattern.respaceFrom_passed hnone]
      exact hhead

/-- Whether a rule leaves a dereference as it is. -/
def Rule.keepsDereference (rule : Rule) : Bool :=
  match rule.action with
  | .respace pattern => Pattern.misses '*' pattern && Pattern.keepsHead operand pattern
  | .collapse => true
  | .keyColons | .declarationColons | .sliceColons | .keywordArguments => false

/-- Collapsing leaves one space at most between an asterisk and the operand after it. -/
theorem exists_collapse {t u : Text} (hsolid : solid t = '*' :: u)
    (hhead : headIs operand.has u = true) : Nears t.collapse := by
  rw [← map_char_spotsFrom false] at hsolid
  rw [collapse_eq_render, spots]
  cases hspots : spotsFrom false t with
  | nil => simp [hspots] at hsolid
  | cons star rest =>
      rw [hspots, List.map_cons, List.cons.injEq] at hsolid
      cases rest with
      | nil => simp [← hsolid.2] at hhead
      | cons next others =>
          rw [← hsolid.2, List.map_cons, headIs_cons] at hhead
          refine ⟨next.char :: render others, hhead, ?_⟩
          cases hgap : next.gap <;> simp [close, render, hsolid.1, hgap]

theorem Dereferences.collapse {t : Text} (h : Dereferences t) : Dereferences t.collapse := by
  obtain ⟨u, rfl, hhead⟩ := h
  cases u with
  | nil => cases hhead
  | cons c cs =>
      have hc := operand.isBlank_eq_false c hhead
      rw [collapse_eq_render, spots, spotsFrom_solid (by decide), spotsFrom_solid hc]
      exact ⟨c :: render (spotsFrom false cs), by simp [close, render], hhead⟩

theorem Dereferences.apply {rule : Rule} (hkeeps : rule.keepsDereference = true) {t : Text}
    (h : Dereferences t) : Dereferences (rule.apply t) := by
  rw [Rule.keepsDereference] at hkeeps
  rw [Rule.apply]
  cases haction : rule.action with
  | respace pattern =>
      simp only [haction, Bool.and_eq_true] at hkeeps
      obtain ⟨u, rfl, hhead⟩ := h
      refine ⟨pattern.respaceFrom ['*'] 0 u, ?_, Pattern.headIs_respaceFrom hkeeps.2 hhead _⟩
      exact Pattern.respaceFrom_cons (Pattern.match?_eq_none_of_misses hkeeps.1 (by decide))
  | collapse => exact h.collapse
  | keyColons | declarationColons | sliceColons | keywordArguments => simp [haction] at hkeeps

theorem Dereferences.applyAll {rules : List Rule}
    (hkeeps : ∀ rule ∈ rules, rule.keepsDereference = true) {t : Text} (h : Dereferences t) :
    Dereferences (applyAll rules t) :=
  applyAll_induct (fun rule hrule _ h => h.apply (hkeeps rule hrule)) h

/-! ### Up to the unary rule -/

/-- Taking blanks away brings the two no further apart. -/
theorem Nears.of_sublist {t r : Text} (h : Nears t) (hsub : r.Sublist t)
    (hsolid : solid r = solid t) : Nears r := by
  have hdrawn : ∀ {u r : Text}, headIs operand.has u = true → r.Sublist u → solid r = solid u →
      headIs operand.has r = true := by
    intro u r hhead hsub hsolid
    cases u with
    | nil => cases hhead
    | cons c cs =>
        have hc := operand.isBlank_eq_false c hhead
        have hstart := Text.headIs_of_sublist hsub (by rw [hsolid]) hc
        cases r with
        | nil => simp [solid, hc] at hsolid
        | cons d ds =>
            rw [solid_cons hc, solid_cons hstart] at hsolid
            rw [headIs_cons, (List.cons.inj hsolid).1]
            exact hhead
  have hsign : ∀ t : Text, solid ('*' :: t) = '*' :: solid t := fun t =>
    solid_cons (by decide) t
  have hspace : ∀ t : Text, solid (' ' :: t) = solid t := fun t =>
    solid_blank_cons (by decide) t
  have hblank : ∀ t : Text, headIs isBlank ('*' :: t) = false := fun t =>
    (by decide : isBlank '*' = false)
  obtain ⟨u, hhead, ht⟩ := h
  have hwhole : headIs isBlank t = false ∧ solid t = '*' :: solid u := by
    rcases ht with rfl | rfl
    · exact ⟨hblank u, hsign u⟩
    · exact ⟨hblank _, by rw [hsign, hspace]⟩
  have hstart := Text.headIs_of_sublist hsub (by rw [hsolid]) hwhole.1
  rw [hwhole.2] at hsolid
  cases r with
  | nil => cases hsolid
  | cons c r =>
      rw [solid_cons hstart, List.cons.injEq] at hsolid
      obtain ⟨rfl, hrest⟩ := hsolid
      rcases ht with rfl | rfl
      · exact ⟨r, hdrawn hhead (List.cons_sublist_cons.mp hsub) hrest, .inl rfl⟩
      · cases List.cons_sublist_cons.mp hsub with
        | cons _ hsub => exact ⟨r, hdrawn hhead hsub hrest, .inl rfl⟩
        | @cons_cons r' _ _ hsub =>
            rw [hspace] at hrest
            exact ⟨r', hdrawn hhead hsub hrest, .inr rfl⟩

/-- The unary rule draws an asterisk to the operand. -/
theorem Nears.unary {t : Text} (h : Nears t) : Dereferences
    ((unaryRule "c-unary" ["++", "--"] "-+!~*&" cUnaryKeywords).apply t) := by
  obtain ⟨u, hhead, ht⟩ := h
  have hkeeps : Pattern.keepsHead operand (unaryPattern
      (["++", "--"].map String.toList ++ "-+!~*&".toList.map fun c => [c]) cUnaryKeywords) = true := by
    decide
  have hoperand : headIs startsOperand u = true := by
    cases u with
    | nil => cases hhead
    | cons c cs => exact operand_iff.mp hhead
  rcases ht with rfl | rfl
  · refine ⟨_, Pattern.respaceFrom_cons ?_, Pattern.headIs_respaceFrom hkeeps hhead ['*']⟩
    cases u with
    | nil => cases hhead
    | cons c cs =>
        have hc : c ≠ ' ' := by
          rintro rfl
          exact absurd (operand.isBlank_eq_false ' ' hhead) (by decide)
        simp [Pattern.match?, Part.match?, hc]
  · exact ⟨_, respaceFrom_unary (by decide) rfl hoperand,
      Pattern.headIs_respaceFrom hkeeps hhead [' ', '*']⟩

theorem solid_applyAll {rules : List Rule} (hsafe : ∀ rule ∈ rules, rule.isSafe .marked [] = true)
    (t : Text) : solid (applyAll rules t) = solid t := by
  rw [← Text.flatten_tokens .marked, ← Text.flatten_tokens .marked,
    tokens_applyAll (by simp) hsafe (by simp [Text.Lacks])]

theorem applyAll_cons (rule : Rule) (rules : List Rule) (t : Text) :
    applyAll (rule :: rules) t = applyAll rules (rule.apply t) :=
  rfl

/-- The rules of the C family leave an asterisk with the operand after it. -/
theorem dereferences_cRules (language : Option Text) {t : Text} (h : Dereferences t) :
    Dereferences (applyAll (cRules language) t) := by
  have hsplit : cFirstRules = cFirstRules.take 7 ++ collapseRule :: postfixRule ::
      unaryRule "c-unary" ["++", "--"] "-+!~*&" cUnaryKeywords :: cFirstRules.drop 10 := rfl
  have hdeletes : postfixRule.deletes = true := by decide +kernel
  have hkept : ∀ s : Text, solid (postfixRule.apply s) = solid s := fun s =>
    @solid_applyAll [postfixRule] (by decide +kernel) s
  have hcollapse : ∀ s : Text, collapseRule.apply s = s.collapse := fun _ => rfl
  have hlater : ∀ rule ∈ cFirstRules.drop 10 ++ memberArrowRule :: cLastRules,
      rule.keepsDereference = true := by decide +kernel
  have hfirst : Dereferences (applyAll cFirstRules t) := by
    obtain ⟨u, rfl, hhead⟩ := h
    have hapart : solid (applyAll (cFirstRules.take 7) ('*' :: u)) = '*' :: solid u := by
      rw [solid_applyAll (by decide +kernel)]
      exact solid_cons (by decide) u
    have hoperand : headIs operand.has (solid u) = true := by
      cases u with
      | nil => cases hhead
      | cons c cs =>
          have hc := operand.isBlank_eq_false c hhead
          rwa [solid_cons hc]
    have hnears := exists_collapse hapart hoperand
    have hpostfix := hnears.of_sublist (Rule.apply_sublist hdeletes _) (hkept _)
    have hhugs := hpostfix.unary.applyAll fun rule hrule =>
      hlater rule (List.mem_append_left _ hrule)
    rw [hsplit, applyAll_append, applyAll_cons, applyAll_cons, applyAll_cons, hcollapse]
    exact hhugs
  rw [cRules]
  split
  · rw [applyAll_append]
    exact hfirst.applyAll fun rule hrule => hlater rule (List.mem_append_right _ hrule)
  · rw [applyAll_append]
    exact hfirst.applyAll fun rule hrule =>
      hlater rule (List.mem_append_right _ (List.mem_cons_of_mem _ hrule))

end SourceLayout.Spacing
