import SourceLayout.Proofs.Literal.Respacing
import SourceLayout.Proofs.Spacing.Pattern
import SourceLayout.Spacing.Families

/-!
# Rules that keep the tokens

Every action of a rule either respaces by a pattern or deletes and inserts blanks next to one of a
few signs. `Rule.isSafe` asks that those signs are points, and the rules of all families pass.
-/

namespace SourceLayout.Spacing

open Text (tokens Respaced Lacks lacks_iff_tokens)

variable {words : WordClass}

/-! ### Collapsing blanks -/

theorem headIs_of_cutAt {cs first : Text} {rest : List Text}
    (hcut : Text.cutAt isBlank cs = first :: rest) :
    headIs words.has first = headIs words.has cs := by
  cases cs with
  | nil =>
      cases hcut
      rfl
  | cons d ds =>
      rw [Text.cutAt] at hcut
      split at hcut
      next hblank =>
          cases hcut
          have hgap : [d].all isBlank = true := by simpa using hblank
          exact (Text.headIs_of_blanks hgap).symm
      next =>
          split at hcut <;> cases hcut <;> rfl

theorem tokens_eq_flatMap_cutAt (t : Text) :
    tokens words t = (Text.cutAt isBlank t).flatMap (tokens words) := by
  induction t with
  | nil => rfl
  | cons c cs ih =>
      by_cases hblank : isBlank c = true
      · simp [Text.cutAt, hblank, Text.tokens_blank_cons hblank, ih]
      · cases hcut : Text.cutAt isBlank cs with
        | nil => exact absurd hcut (Text.cutAt_ne_nil _ _)
        | cons first rest =>
            rw [hcut, List.flatMap_cons] at ih
            simp only [Text.cutAt, hcut, hblank, tokens, ih]
            cases hjoin : words.has c && headIs words.has cs with
            | false => simp [tokens, hblank, headIs_of_cutAt hcut, hjoin]
            | true =>
                have hhead : headIs words.has first = true := by
                  rw [headIs_of_cutAt hcut]
                  simp_all
                cases hfirst : tokens words first with
                | nil => exact absurd hfirst (Text.tokens_ne_nil hhead)
                | cons tok toks =>
                    simp [tokens, hblank, headIs_of_cutAt hcut, hjoin, hfirst, Text.consFirst]

theorem intercalate_space_cons (first second : Text) (others : List Text) :
    [' '].intercalate (first :: second :: others) =
      first ++ [' '] ++ [' '].intercalate (second :: others) := by
  simp [List.intercalate]

theorem tokens_intercalate_space (ts : List Text) :
    tokens words ([' '].intercalate ts) = ts.flatMap (tokens words) := by
  induction ts with
  | nil => rfl
  | cons first rest ih =>
      cases rest with
      | nil => simp [List.intercalate]
      | cons second others =>
          rw [intercalate_space_cons, Text.tokens_append_gap (by decide) (by simp), ih]
          rfl

theorem tokens_collapse (t : Text) : tokens words t.collapse = tokens words t := by
  rw [Text.collapse, tokens_intercalate_space, tokens_eq_flatMap_cutAt t, Text.chunks]
  induction Text.cutAt isBlank t with
  | nil => rfl
  | cons first rest ih => cases first <;> simp [ih]

/-! ### Colons -/

def Cut.text (cut : Cut) : Text :=
  cut.first ++ cut.others.flatMap fun entry => entry.1.text ++ entry.2

theorem Cut.text_push (c : Char) (cut : Cut) : (cut.push c).text = c :: cut.text :=
  rfl

theorem Cut.text_join (joint : Joint) (cut : Cut) :
    (cut.join joint).text = joint.text ++ cut.text := by
  simp [Cut.text, Cut.join]

theorem text_cut (t : Text) : (cut t).text = t := by
  fun_induction cut t with
  | case1 => rfl
  | case2 cs ih => simp [Cut.text_join, ih, Joint.text]
  | case3 cs ih => simp [Cut.text_join, ih, Joint.text]
  | case4 cs ih => simp [Cut.text_join, ih, Joint.text]
  | case5 cs _ _ _ ih => simp [Cut.text_join, ih, Joint.text]
  | case6 cs ih => simp [Cut.text_join, ih, Joint.text]
  | case7 c cs _ _ _ _ _ ih => simp [Cut.text_push, ih]

theorem Cut.text_cons (first text : Text) (joint : Joint) (others : List (Joint × Text)) :
    Cut.text ⟨first, (joint, text) :: others⟩ =
      first ++ (joint.text ++ Cut.text ⟨text, others⟩) := by
  simp [Cut.text]

theorem respaced_trimRight {c : Char} (hpoint : words.isPoint c = true) (t rest : Text) :
    Respaced words (t ++ c :: rest) (t.trimRight ++ c :: rest) := by
  obtain ⟨gap, hgap, hsplit⟩ := Text.trimRight_append t
  have htrim : Respaced words (t.trimRight ++ (gap ++ [c])) (t.trimRight ++ [c]) :=
    Respaced.append_left _ (Respaced.drop_gap_point hpoint hgap)
  have hrest := htrim.append_right rest
  rw [← List.append_assoc, hsplit] at hrest
  simpa only [List.append_assoc, List.singleton_append] using hrest

theorem respaced_afterKey {c : Char} (hpoint : words.isPoint c = true) (text : Text)
    (others : List (Joint × Text)) :
    Respaced words (c :: Cut.text ⟨text, others⟩) (c :: Cut.text ⟨afterKey text, others⟩) := by
  have hgap : (text.takeWhile isBlank).all isBlank = true := List.all_takeWhile
  have hsplit : text.takeWhile isBlank ++ text.trimLeft = text :=
    List.takeWhile_append_dropWhile
  have hkey : Respaced words (c :: text) (c :: afterKey text) := by
    rw [afterKey]
    split
    next htrim =>
        rw [htrim, List.append_nil] at hsplit
        rw [hsplit] at hgap
        exact Respaced.point_gap hpoint hgap rfl
    next =>
        have hspaced : Respaced words (c :: text.takeWhile isBlank) [c, ' '] :=
          Respaced.point_gap hpoint hgap (by decide)
        have hrest := hspaced.append_right text.trimLeft
        rwa [List.cons_append, hsplit] at hrest
  exact hkey.append_right _

/-- Key colons lose the blanks before them and get one space after them. -/
theorem respaced_spaceKeys (hcolon : words.isPoint ':' = true)
    (hquestion : words.isPoint '?' = true) (pending : Nat) (first : Text) (others : List (Joint × Text)) :
    Respaced words (Cut.text ⟨first, others⟩) (spaceKeys pending first others) := by
  fun_induction spaceKeys pending first others with
  | case1 pending first => simpa [Cut.text] using Respaced.refl first
  | case2 pending first text others ih =>
      simpa [Cut.text_cons, Joint.text] using Respaced.append_left (first ++ ['?']) ih
  | case3 first text others ih =>
      have hbefore := respaced_trimRight hcolon first (Cut.text ⟨text, others⟩)
      have hafter := (respaced_afterKey hcolon text others).trans (ih.cons ':')
      simpa [Cut.text_cons, Joint.text] using hbefore.trans (hafter.append_left _)
  | case4 first text others pending ih =>
      simpa [Cut.text_cons, Joint.text] using Respaced.append_left (first ++ [':']) ih
  | case5 pending first text others ih =>
      have hbefore := respaced_trimRight hquestion first (':' :: Cut.text ⟨text, others⟩)
      have hafter := (respaced_afterKey hcolon text others).trans (ih.cons ':')
      simpa [Cut.text_cons, Joint.text] using hbefore.trans ((hafter.cons '?').append_left _)
  | case6 pending first joint text others _ _ _ ih =>
      simpa [Cut.text_cons] using Respaced.append_left (first ++ joint.text) ih

theorem respaced_keyColons (hcolon : words.isPoint ':' = true)
    (hquestion : words.isPoint '?' = true) (t : Text) : Respaced words t (keyColons t) := by
  have hspaced := respaced_spaceKeys hcolon hquestion 0 (cut t).first (cut t).others
  rwa [text_cut] at hspaced

theorem splitAtLastBrace?_append {t selector declarations : Text}
    (hsplit : splitAtLastBrace? t = some (selector, declarations)) :
    selector ++ declarations = t := by
  simp only [splitAtLastBrace?, Option.ite_none_right_eq_some, Option.some.injEq,
    Prod.mk.injEq] at hsplit
  obtain ⟨_, rfl, rfl⟩ := hsplit
  have hsuffix : (t.reverse.takeWhile (· ≠ '{')).reverse <:+ t := by
    rw [← List.reverse_prefix, List.reverse_reverse]
    exact List.takeWhile_prefix _
  rw [← List.suffix_iff_eq_append]
  exact hsuffix

theorem respaced_declarationColons {absent : Text}
    (hsafe : Pattern.isSafe words absent false declarationColon = true) {t : Text}
    (hlacks : Lacks absent t) : Respaced words t (declarationColons t) := by
  rw [declarationColons]
  split
  · exact Pattern.respace_respaced hsafe hlacks
  · split
    next selector declarations hsplit =>
        rw [← splitAtLastBrace?_append hsplit] at hlacks ⊢
        exact Respaced.append_left selector
          (Pattern.respace_respaced hsafe hlacks.of_append_right)
    next =>
        split
        · exact Respaced.refl t
        · exact Pattern.respace_respaced hsafe hlacks

/-! ### Brackets -/

theorem tokens_sliceColonsFrom (hcolon : words.isPoint ':' = true) (stack : List Char)
    (written rest : Text) :
    tokens words (sliceColonsFrom stack written rest) = tokens words (written.reverse ++ rest) := by
  fun_induction sliceColonsFrom stack written rest with
  | case1 stack written => simp
  | case2 stack written c cs stack' inSlice hslice ih =>
      obtain ⟨rfl, _⟩ := hslice
      have hgap : (written.takeWhile (· == ' ')).reverse.all isBlank = true := by
        rw [List.all_reverse, List.all_eq_true]
        intro c hc
        have hspace := List.all_eq_true.mp List.all_takeWhile c hc
        simp only [beq_iff_eq] at hspace
        subst hspace
        decide
      have hsplit : written.reverse =
          (written.dropWhile (· == ' ')).reverse ++ (written.takeWhile (· == ' ')).reverse := by
        rw [← List.reverse_append, List.takeWhile_append_dropWhile]
      have hjoin := Respaced.drop_gap_point hcolon hgap (written.dropWhile (· == ' ')).reverse cs
      rw [ih, hsplit]
      simpa using hjoin.symm
  | case3 stack written c cs stack' inSlice hslice hspace ih =>
      obtain ⟨rfl, hhead, _⟩ := hspace
      obtain ⟨before, rfl⟩ : ∃ before, written = ':' :: before := by
        cases written with
        | nil => simp at hhead
        | cons d before => exact ⟨before, by simpa using hhead⟩
      have hspaced : Respaced words [':', ' '] [':'] := Respaced.drop_point_gap hcolon (by decide)
      rw [ih]
      simpa using (hspaced before.reverse cs).symm
  | case4 stack written c cs stack' inSlice hslice hspace ih =>
      rw [ih, List.reverse_cons, List.append_assoc, List.singleton_append]

theorem respaced_keywordArgumentsFrom (hequals : words.isPoint '=' = true) (frames : List Frame)
    (previous : Option Char) (t : Text) :
    Respaced words t (keywordArgumentsFrom frames previous t) := by
  fun_induction keywordArgumentsFrom frames previous t with
  | case1 => exact Respaced.refl []
  | case2 frames previous cs hbinds ih =>
      have hleft : Respaced words ([' '] ++ ['=']) ['='] :=
        Respaced.drop_gap_point hequals (by decide)
      have hright : Respaced words ['=', ' '] ['='] :=
        Respaced.drop_point_gap hequals (by decide)
      exact ((hleft.append_right [' ']).trans hright).append ih
  | case3 frames previous cs hbinds ih => exact ih.cons ' '
  | case4 frames previous c cs _ ih => exact ih.cons c

/-! ### Rules -/

/-- Whether the blanks that a rule changes touch points, in texts that lack some characters. -/
def Rule.isSafe (words : WordClass) (absent : Text) (rule : Rule) : Bool :=
  match rule.action with
  | .respace pattern => Pattern.isSafe words absent false pattern
  | .collapse => true
  | .keyColons => words.isPoint ':' && words.isPoint '?'
  | .declarationColons => Pattern.isSafe words absent false declarationColon
  | .sliceColons => words.isPoint ':'
  | .keywordArguments => words.isPoint '='

theorem Rule.tokens_apply {rule : Rule} {absent : Text} (hsafe : rule.isSafe words absent = true)
    {t : Text} (hlacks : Lacks absent t) : tokens words (rule.apply t) = tokens words t := by
  rw [Rule.isSafe] at hsafe
  rw [Rule.apply]
  cases haction : rule.action with
  | respace pattern =>
      rw [haction] at hsafe
      exact (Pattern.respace_respaced hsafe hlacks).tokens_eq.symm
  | collapse => exact tokens_collapse t
  | keyColons =>
      simp only [haction, Bool.and_eq_true] at hsafe
      exact (respaced_keyColons hsafe.1 hsafe.2 t).tokens_eq.symm
  | declarationColons =>
      rw [haction] at hsafe
      exact (respaced_declarationColons hsafe hlacks).tokens_eq.symm
  | sliceColons =>
      rw [haction] at hsafe
      exact tokens_sliceColonsFrom hsafe [] [] t
  | keywordArguments =>
      rw [haction] at hsafe
      exact (respaced_keywordArgumentsFrom hsafe [] none t).tokens_eq.symm

/-- What every rule keeps holds of the spaced text. -/
theorem applyAll_induct {motive : Text → Prop} {rules : List Rule}
    (hrules : ∀ rule ∈ rules, ∀ t, motive t → motive (rule.apply t)) {t : Text} (h : motive t) :
    motive (applyAll rules t) :=
  List.foldlRecOn rules _ h fun t ht rule hrule => hrules rule hrule t ht

theorem tokens_applyAll {rules : List Rule} {absent : Text}
    (hblank : ∀ c ∈ absent, isBlank c = false)
    (hsafe : ∀ rule ∈ rules, rule.isSafe words absent = true) {t : Text}
    (hlacks : Lacks absent t) : tokens words (applyAll rules t) = tokens words t := by
  -- The characters that are absent stay so, since they are no blanks.
  suffices hall : Lacks absent (applyAll rules t) ∧ tokens words (applyAll rules t) = tokens words t
    from hall.2
  refine applyAll_induct (motive := fun s => Lacks absent s ∧ tokens words s = tokens words t) ?_
    ⟨hlacks, rfl⟩
  rintro rule hrule s ⟨hs, hsame⟩
  have hrun := Rule.tokens_apply (hsafe rule hrule) hs
  refine ⟨?_, hrun.trans hsame⟩
  rwa [lacks_iff_tokens hblank, hrun, ← lacks_iff_tokens hblank]

/-- The languages of the C family differ in their last rules only. -/
theorem exists_cRules (language : Option Text) : ∃ last, cRules language = cFirstRules ++ last ∧
    ∀ rule ∈ last, rule ∈ memberArrowRule :: cLastRules := by
  rw [cRules]
  split
  · exact ⟨_, rfl, fun rule hrule => hrule⟩
  · exact ⟨_, rfl, fun rule hrule => List.mem_cons_of_mem _ hrule⟩

theorem mem_of_mem_cRules {language : Option Text} {rule : Rule} (hrule : rule ∈ cRules language) :
    rule ∈ cFirstRules ++ memberArrowRule :: cLastRules := by
  obtain ⟨last, hrules, hlast⟩ := exists_cRules language
  rw [hrules, List.mem_append] at hrule
  exact List.mem_append.mpr (hrule.imp_right (hlast rule))

/-- The rules of all families leave the words of a masked text, and so its marks, in one piece. -/
theorem rules_isSafe (family : Family) (language : Option Text) :
    ∀ rule ∈ rules family language, rule.isSafe .marked [] = true := by
  cases family with
  | javascript =>
      simp only [rules]
      decide +kernel
  | html =>
      simp only [rules]
      decide +kernel
  | css =>
      simp only [rules]
      decide +kernel
  | python =>
      simp only [rules]
      decide +kernel
  | cFamily =>
      have hall : ∀ rule ∈ cFirstRules ++ memberArrowRule :: cLastRules,
          rule.isSafe .marked [] = true := by
        decide +kernel
      exact fun rule hrule => hall rule (mem_of_mem_cRules hrule)

theorem tokens_rules (family : Family) (language : Option Text) (t : Text) :
    tokens .marked (applyAll (rules family language) t) = tokens .marked t :=
  tokens_applyAll (by simp) (rules_isSafe family language) (by simp [Lacks])

/-! ### No new characters -/

theorem mem_intercalate_space {ts : List Text} {c : Char} (hc : c ∈ [' '].intercalate ts) :
    (∃ t ∈ ts, c ∈ t) ∨ c = ' ' := by
  induction ts with
  | nil => simp [List.intercalate] at hc
  | cons first rest ih =>
      cases rest with
      | nil => exact .inl ⟨first, by simp, by simpa [List.intercalate] using hc⟩
      | cons second others =>
          rw [intercalate_space_cons, List.append_assoc, List.singleton_append, List.mem_append,
            List.mem_cons] at hc
          rcases hc with hfirst | hspace | hrest
          · exact .inl ⟨first, by simp, hfirst⟩
          · exact .inr hspace
          · refine (ih hrest).imp_left ?_
            rintro ⟨t, ht, hmem⟩
            exact ⟨t, List.mem_cons_of_mem first ht, hmem⟩

theorem mem_collapse {t : Text} {c : Char} (hc : c ∈ t.collapse) : c ∈ t ∨ c = ' ' := by
  refine (mem_intercalate_space hc).imp_left ?_
  rintro ⟨chunk, hchunk, hmem⟩
  exact (Text.of_mem_cutAt (List.mem_filter.mp hchunk).1).1.subset hmem

theorem mem_afterKey {t : Text} {c : Char} (hc : c ∈ afterKey t) : c ∈ t ∨ c = ' ' := by
  rw [afterKey] at hc
  split at hc
  · simp at hc
  · rcases List.mem_cons.mp hc with hspace | hc
    · exact .inr hspace
    · exact .inl ((Text.trimLeft_sublist t).subset hc)

theorem mem_spaceKeys {pending : Nat} {first : Text} {others : List (Joint × Text)} {c : Char}
    (hc : c ∈ spaceKeys pending first others) : c ∈ Cut.text ⟨first, others⟩ ∨ c = ' ' := by
  have hkey : ∀ (text : Text) (rest : List (Joint × Text)),
      c ∈ Cut.text ⟨afterKey text, rest⟩ ∨ c = ' ' → c ∈ Cut.text ⟨text, rest⟩ ∨ c = ' ' := by
    intro text rest hmem
    have hafter := @mem_afterKey text c
    simp only [Cut.text, List.mem_append] at hmem ⊢
    grind
  have htrim := fun (text : Text) => @(Text.trimRight_sublist text).subset
  fun_induction spaceKeys pending first others with
  | case1 pending first => exact .inl (by simpa [Cut.text] using hc)
  | case2 pending first text others ih =>
      simp only [Cut.text_cons, Joint.text, List.mem_append] at hc ⊢
      grind
  | case3 first text others ih =>
      have hrest := fun hmem => hkey text others (ih hmem)
      simp only [Cut.text_cons, Joint.text, List.mem_append] at hc ⊢
      grind
  | case4 first text others pending ih =>
      simp only [Cut.text_cons, Joint.text, List.mem_append] at hc ⊢
      grind
  | case5 pending first text others ih =>
      have hrest := fun hmem => hkey text others (ih hmem)
      simp only [Cut.text_cons, Joint.text, List.mem_append] at hc ⊢
      grind
  | case6 pending first joint text others _ _ _ ih =>
      simp only [Cut.text_cons, List.mem_append] at hc ⊢
      grind

theorem mem_keyColons {t : Text} {c : Char} (hc : c ∈ keyColons t) : c ∈ t ∨ c = ' ' := by
  have hmem := mem_spaceKeys hc
  rwa [text_cut] at hmem

theorem mem_declarationColons {t : Text} {c : Char} (hc : c ∈ declarationColons t) :
    c ∈ t ∨ c = ' ' := by
  rw [declarationColons] at hc
  split at hc
  · exact Pattern.mem_respaceFrom hc
  · split at hc
    next selector declarations hsplit =>
        rw [← splitAtLastBrace?_append hsplit, List.mem_append]
        rcases List.mem_append.mp hc with hselector | hspaced
        · exact .inl (.inl hselector)
        · exact (Pattern.mem_respaceFrom hspaced).imp_left .inr
    next =>
        split at hc
        · exact .inl hc
        · exact Pattern.mem_respaceFrom hc

theorem mem_sliceColonsFrom {stack : List Char} {written rest : Text} {c : Char}
    (hc : c ∈ sliceColonsFrom stack written rest) : c ∈ written ∨ c ∈ rest := by
  fun_induction sliceColonsFrom stack written rest with
  | case1 stack written => exact .inl (by simpa using hc)
  | case2 stack written d cs stack' inSlice hslice ih =>
      have hdrop : ∀ e ∈ written.dropWhile (· == ' '), e ∈ written :=
        fun e he => (List.dropWhile_suffix _).mem he
      grind
  | case3 stack written d cs stack' inSlice hslice hspace ih => grind
  | case4 stack written d cs stack' inSlice hslice hspace ih => grind

theorem mem_keywordArgumentsFrom {frames : List Frame} {previous : Option Char} {t : Text}
    {c : Char} (hc : c ∈ keywordArgumentsFrom frames previous t) : c ∈ t := by
  fun_induction keywordArgumentsFrom frames previous t with
  | case1 => exact hc
  | case2 frames previous cs hbinds ih => grind
  | case3 frames previous cs hbinds ih => grind
  | case4 frames previous d cs _ ih => grind

theorem Rule.mem_apply {rule : Rule} {t : Text} {c : Char} (hc : c ∈ rule.apply t) :
    c ∈ t ∨ c = ' ' := by
  rw [Rule.apply] at hc
  split at hc
  · exact Pattern.mem_respaceFrom hc
  · exact mem_collapse hc
  · exact mem_keyColons hc
  · exact mem_declarationColons hc
  · exact .inl ((mem_sliceColonsFrom hc).resolve_left (by simp))
  · exact .inl (mem_keywordArgumentsFrom hc)

/-- Rules write no character that was not there, but for the space. -/
theorem mem_applyAll {rules : List Rule} {t : Text} {c : Char} (hc : c ∈ applyAll rules t) :
    c ∈ t ∨ c = ' ' := by
  refine applyAll_induct (motive := fun s => c ∈ s → c ∈ t ∨ c = ' ') ?_ .inl hc
  intro rule _ s hs hrule
  exact (Rule.mem_apply hrule).elim hs .inr

end SourceLayout.Spacing
