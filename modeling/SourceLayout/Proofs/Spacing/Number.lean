import SourceLayout.Proofs.Json.Spacing
import SourceLayout.Proofs.Spacing.Joined

/-!
# A number between the operators

A number that starts with its point and has no sign stays in one piece. Most rules take its point for a
part of a word; only the operator of optional access holds one, and what it takes away from a number
the rule for optional access brings back. Before the sign of an exponent the operator rule writes a
blank that no rule takes away.
-/

namespace SourceLayout.Spacing

open Text (solid solid_append solid_blanks)

/-! ### Operators between gaps -/

/-- An operator and the blanks around it. -/
def gappedPattern (spaced : Bool) (choices : List Text) : Pattern :=
  [.gap 0 spaced, .token choices, .gap 0 spaced]

section

variable {spaced : Bool} {choices : List Text} {before : Text}

theorem gappedPattern_read {rest read written : Text}
    (hmatch : Pattern.Matches rest before (gappedPattern spaced choices) read written) :
    ∃ gap choice gap', choice ∈ choices ∧ gap.all isBlank = true ∧ gap'.all isBlank = true ∧
      headIs isBlank rest = false ∧ read = gap ++ (choice ++ gap') ∧
      written = space spaced ++ (choice ++ space spaced) := by
  obtain _ | @⟨_, gap, _, _, _, _, _, hgap, _ | @⟨_, choice, _, _, _, _, _, hchoice,
    _ | @⟨_, gap', _, _, _, _, _, hgap', ⟨⟩⟩⟩⟩ := hmatch
  cases hgap with
  | gap hgap =>
  cases hchoice with
  | token hchoice =>
  cases hgap' with
  | gap hgap' _ hrest =>
      exact ⟨gap, choice, gap', hchoice, hgap, hgap', hrest, by simp, by simp [space]⟩

/-- In an operator between gaps a character that is no blank is one of the operator. -/
theorem exists_of_gapped_eq {gap choice gap' u cs : Text} {c : Char} (hgap : gap.all isBlank = true)
    (hgap' : gap'.all isBlank = true) (hc : isBlank c = false)
    (hsame : gap ++ (choice ++ gap') = u ++ c :: cs) :
    ∃ x y, choice = x ++ c :: y ∧ u = gap ++ x ∧ cs = y ++ gap' := by
  have hblank : ∀ {blanks front back : Text}, blanks.all isBlank = true → blanks ≠ front ++ c :: back := by
    rintro _ front back hblanks rfl
    simp [hc] at hblanks
  have hchoice : ∀ {x : Text}, choice ++ gap' = x ++ c :: cs → ∃ y, choice = x ++ c :: y ∧ cs = y ++ gap' := by
    intro x hx
    rcases List.append_eq_append_iff.mp hx with ⟨z, -, hz⟩ | ⟨z, hz, hback⟩
    · exact absurd hz (hblank hgap')
    · cases z with
      | nil => exact absurd hback.symm (@hblank _ [] cs hgap')
      | cons d y =>
          obtain ⟨rfl, hcs⟩ := List.cons.inj hback
          exact ⟨y, hz, hcs⟩
  rcases List.append_eq_append_iff.mp hsame with ⟨x, rfl, hx⟩ | ⟨z, hz, hback⟩
  · obtain ⟨y, hy, hcs⟩ := hchoice hx
    exact ⟨x, y, hy, rfl, hcs⟩
  · cases z with
    | nil =>
        obtain ⟨y, hy, hcs⟩ := @hchoice [] hback.symm
        exact ⟨[], y, hy, by simpa using hz.symm, hcs⟩
    | cons d z =>
        obtain ⟨rfl, -⟩ := List.cons.inj hback
        exact absurd hz (hblank hgap)

/-- What is written of a text with this character in it: a match ends before the character, or an
operator that holds it goes on over it. -/
inductive Reached (spaced : Bool) (choices : List Text) (c : Char) (u cs t : Text) : Prop
  | stops {before u' : Text}
      (htext : t = u' ++ (gappedPattern spaced choices).respaceFrom before 0 (c :: cs))
  | crosses {before u' front x y gap right : Text} (hchoice : x ++ c :: y ∈ choices)
      (hu : u = front ++ x) (hcs : cs = y ++ (gap ++ right)) (hgap : gap.all isBlank = true)
      (hright : headIs isBlank right = false)
      (htext : t = u' ++ (x ++ c :: y ++ (space spaced ++
        (gappedPattern spaced choices).respaceFrom before 0 right)))

theorem Reached.append {c : Char} {u cs t : Text} (h : Reached spaced choices c u cs t)
    (read written : Text) : Reached spaced choices c (read ++ u) cs (written ++ t) := by
  cases h with
  | stops htext => exact .stops (by rw [htext, ← List.append_assoc])
  | crosses hchoice hu hcs hgap hright htext =>
      exact .crosses hchoice (by rw [hu, ← List.append_assoc]) hcs hgap hright
        (by rw [htext, ← List.append_assoc])

theorem reached_respaceFrom {c : Char} (hc : isBlank c = false) (before u cs : Text) :
    Reached spaced choices c u cs
      ((gappedPattern spaced choices).respaceFrom before 0 (u ++ c :: cs)) := by
  generalize ht : u ++ c :: cs = t
  induction before, t using Pattern.respaceFrom_induct (gappedPattern spaced choices)
    generalizing u with
  | done before => simp at ht
  | found before read written rest hread hmatch ih =>
      rw [Pattern.respaceFrom_match hread hmatch]
      obtain ⟨gap, choice, gap', hchoice, hgap, hgap', hrest, rfl, rfl⟩ :=
        gappedPattern_read (Pattern.matches_of_match? hmatch)
      rcases List.append_eq_append_iff.mp ht with ⟨z, hz, hback⟩ | ⟨left, rfl, hback⟩
      · cases z with
        | nil =>
            rw [List.nil_append] at hback
            rw [← hback]
            exact .stops rfl
        | cons e z =>
            obtain ⟨rfl, rfl⟩ := List.cons.inj hback
            obtain ⟨x, y, rfl, hu, rfl⟩ := exists_of_gapped_eq hgap hgap' hc hz
            have hwritten : ∀ later, space spaced ++ (x ++ c :: y ++ space spaced) ++ later =
                space spaced ++ (x ++ c :: y ++ (space spaced ++ later)) := fun later => by simp
            exact .crosses hchoice hu (List.append_assoc ..) hgap' hrest (hwritten _)
      · exact (ih left hback.symm).append _ _
  | passed before d ds hnone ih =>
      cases u with
      | nil =>
          rw [← ht]
          exact .stops (List.nil_append _).symm
      | cons e u =>
          obtain ⟨rfl, rfl⟩ := List.cons.inj ht
          rw [Pattern.respaceFrom_passed hnone]
          exact (ih u rfl).append [e] [e]

/-- Where no operator starts in a word it is written as it is. -/
theorem respaceFrom_gapped_word {words : WordClass}
    (hchoices : ∀ choice ∈ choices, headIs (fun c => !words.has c) choice = true) {word : Text}
    (hword : ∀ c ∈ word, words.has c = true) (before rest : Text) :
    (gappedPattern spaced choices).respaceFrom before 0 (word ++ rest) =
      word ++ (gappedPattern spaced choices).respaceFrom (word.reverse ++ before) 0 rest := by
  refine Pattern.respaceFrom_of_forall (fun c hc _ _ => ?_) before rest
  refine Pattern.match?_eq_none_of_misses ?_ (words.isBlank_eq_false c (hword c hc))
  rw [gappedPattern, Pattern.misses, Pattern.misses, List.all_eq_true]
  intro choice hchoice
  have hhead := hchoices choice hchoice
  cases choice with
  | nil => cases hhead
  | cons d ds =>
      simp only [headIs_cons, Bool.not_eq_true', List.isEmpty_cons, Bool.not_false, Bool.true_and,
        beq_eq_false_iff_ne] at hhead ⊢
      rintro rfl
      rw [hword d hc] at hhead
      cases hhead

end

/-! ### Optional access -/

/-- A number that starts with its point, after these characters: in one piece, or with its point taken
for the end of an operator. -/
inductive Kept (front digits t : Text) : Prop
  | whole (h : Joined front ('.' :: digits) t)
  | taken {front' : Text} (hfront : front = front' ++ ['?']) (hoperator : Joined front' ['?', '.'] t)
      (hdigits : Joined (front ++ ['.']) digits t)

section

variable {front digits t : Text}

theorem headIs_word (hne : digits ≠ []) (hdigits : ∀ c ∈ digits, isWord c = true) (v : Text) :
    headIs isBlank (digits ++ v) = false := by
  cases digits with
  | nil => exact absurd rfl hne
  | cons c cs => exact WordClass.plain.isBlank_eq_false c (hdigits c List.mem_cons_self)

theorem numeric_pointed (hdigits : ∀ c ∈ digits, isWord c = true) :
    ∀ c ∈ '.' :: digits, Json.numeric.has c = true :=
  List.forall_mem_cons.mpr ⟨by decide, fun c hc => Json.numeric_of_isWord (hdigits c hc)⟩

/-- A point that is written as the end of an operator, with a blank after it. -/
theorem Kept.of_taken {front' u' v later : Text} (hlater : solid later = solid v)
    (hsolid : solid (u' ++ (['?', '.'] ++ (space true ++ (digits ++ later)))) =
      solid (front' ++ (['?', '.'] ++ (digits ++ v)))) :
    Kept (solid (front' ++ ['?'])) digits
      (u' ++ (['?', '.'] ++ (space true ++ (digits ++ later)))) := by
  have hsigns : solid ['?', '.'] = ['?', '.'] := rfl
  have hspace := solid_blanks (space_all_isBlank true)
  have hback : solid (['?', '.'] ++ (space true ++ (digits ++ later))) =
      solid (['?', '.'] ++ (digits ++ v)) := by
    simp only [solid_append, hspace, hlater, List.nil_append]
  have hfront : solid u' = solid front' := solid_cancel_right hsolid hback
  refine .taken (solid_append ..) ⟨u', _, rfl, hfront⟩ ⟨u' ++ (['?', '.'] ++ space true), later, ?_, ?_⟩
  · simp
  · have hquestion : solid ['?'] = ['?'] := rfl
    rw [solid_append, solid_append, solid_append, hfront, hsigns, hspace, hquestion]
    simp

/-- The operator rule takes the point for the end of an operator at most. -/
theorem kept_operators (hne : digits ≠ []) (hdigits : ∀ c ∈ digits, isWord c = true)
    (h : Joined front ('.' :: digits) t) :
    Kept front digits ((gappedPattern true (operatorChoices javascriptOperators)).respace t) := by
  obtain ⟨u, v, rfl, rfl⟩ := h
  have hsafe : Pattern.isSafe .marked [] false
      (gappedPattern true (operatorChoices javascriptOperators)) = true := by decide +kernel
  have hstarts : ∀ choice ∈ operatorChoices javascriptOperators,
      headIs (fun c => !Json.numeric.has c) choice = true := by decide +kernel
  have hpoint : ∀ choice ∈ operatorChoices javascriptOperators, '.' ∈ choice → choice = ['?', '.'] := by
    decide +kernel
  have hreached := @reached_respaceFrom true (operatorChoices javascriptOperators) '.' (by decide) [] u
    (digits ++ v)
  have hsolid := solid_respaceFrom hsafe [] (u ++ '.' :: (digits ++ v))
  rw [Pattern.respace, List.cons_append]
  cases hreached with
  | @stops before u' htext =>
      have hword := @respaceFrom_gapped_word true _ _ hstarts _ (numeric_pointed hdigits) before v
      rw [htext] at hsolid ⊢
      have hfront := solid_cancel_right hsolid (solid_respaceFrom hsafe before ('.' :: (digits ++ v)))
      exact .whole ⟨u', _, congrArg (u' ++ ·) hword, hfront⟩
  | @crosses before u' front' x y gap right hchoice hu hcs hgap hright htext =>
      obtain ⟨rfl, rfl⟩ : x = ['?'] ∧ y = [] := by
        have hwhole := hpoint _ hchoice (by simp)
        cases x with
        | nil => simp at hwhole
        | cons d x => cases x <;> simp_all
      rw [List.nil_append] at hcs
      obtain rfl := Text.eq_nil_of_headIs hgap (hcs ▸ headIs_word hne hdigits v)
      rw [List.nil_append] at hcs
      have hword := @respaceFrom_gapped_word true _ _ hstarts _
        (fun c hc => numeric_pointed hdigits c (List.mem_cons_of_mem '.' hc)) before v
      rw [← hcs, hword] at htext
      rw [htext, hu, List.append_assoc front'] at hsolid
      rw [htext, hu]
      exact .of_taken (solid_respaceFrom hsafe (digits.reverse ++ before) v) hsolid

/-- The blanks after the operator of optional access go, wherever it stands. -/
theorem exists_access {gap rest : Text} (hgap : gap.all isBlank = true)
    (hrest : headIs isBlank rest = false) (u : Text) :
    ∃ u' before, (gappedPattern false [['?', '.']]).respace (u ++ '?' :: '.' :: (gap ++ rest)) =
      u' ++ (['?', '.'] ++ (gappedPattern false [['?', '.']]).respaceFrom before 0 rest) := by
  have hreached := @reached_respaceFrom false [['?', '.']] '?' (by decide) [] u
    ('.' :: (gap ++ rest))
  rw [Pattern.respace]
  cases hreached with
  | @stops before u' htext =>
      have hmatch : Pattern.match? before ('?' :: '.' :: gap ++ rest)
          (gappedPattern false [['?', '.']]) = some ⟨'?' :: '.' :: gap, ['?', '.']⟩ := by
        simp [gappedPattern, Pattern.match?, Part.match?, takeWhile_blanks hgap hrest,
          (by decide : isBlank '?' = false)]
      exact ⟨u', _, htext.trans (congrArg (u' ++ ·) (Pattern.respaceFrom_match (by simp) hmatch))⟩
  | @crosses before u' front x y gap' right hchoice _ hcs hgap' hright htext =>
      obtain ⟨rfl, rfl⟩ : x = [] ∧ y = ['.'] := by
        rw [List.mem_singleton] at hchoice
        cases x with
        | nil => simpa using hchoice
        | cons d x => cases x <;> simp at hchoice
      have hsame : gap ++ rest = gap' ++ right := (List.cons.inj hcs).2
      obtain rfl := eq_of_solid hsame ((solid_blanks hgap).trans (solid_blanks hgap').symm) hrest hright
      exact ⟨u', before, htext⟩

/-- The rule for optional access brings the point back. -/
theorem Kept.access (hne : digits ≠ []) (hdigits : ∀ c ∈ digits, isWord c = true)
    (h : Kept front digits t) :
    Joined front ('.' :: digits) ((gappedPattern false [['?', '.']]).respace t) := by
  have hword := numeric_pointed hdigits
  have hblank : ∀ c ∈ '.' :: digits, isBlank c = false := fun c hc =>
    Json.numeric.isBlank_eq_false c (hword c hc)
  have hsafe : Pattern.isSafe .marked [] false (gappedPattern false [['?', '.']]) = true := by
    decide +kernel
  cases h with
  | whole h =>
      exact h.of_sublist hblank (@Rule.apply_sublist javascriptRules[11] rfl t)
        (solid_respaceFrom hsafe [] t)
  | @taken front' hfront hoperator hnext =>
      rw [hfront, List.append_assoc] at hnext
      obtain ⟨u, gap, v, rfl, hgap, rfl⟩ := hoperator.exists_next
        (fun c hc => hblank c (List.mem_cons_of_mem '.' hc)) hne hnext
      have hstarts : ∀ choice ∈ [['?', '.']], headIs (fun c => !Json.numeric.has c) choice = true := by
        decide +kernel
      have hsplit : ∀ rest, ['?', '.'] ++ rest = '?' :: '.' :: rest := fun _ => rfl
      obtain ⟨u', before, hout⟩ := exists_access hgap (headIs_word hne hdigits v) u
      have hspaced := solid_respaceFrom hsafe [] (u ++ (['?', '.'] ++ (gap ++ (digits ++ v))))
      have hlater := solid_respaceFrom hsafe before (digits ++ v)
      rw [← Pattern.respace, hsplit (gap ++ (digits ++ v)), hout] at hspaced
      have hfront' : solid u' = solid u := by
        refine solid_cancel_right hspaced ?_
        rw [← hsplit (gap ++ (digits ++ v)), solid_append, solid_append, hlater, solid_append gap,
          solid_blanks hgap, List.nil_append]
      rw [hsplit, hout, respaceFrom_gapped_word hstarts
        (fun c hc => hword c (List.mem_cons_of_mem '.' hc))]
      refine ⟨u' ++ ['?'], _, by rw [List.append_assoc]; rfl, ?_⟩
      rw [solid_append, hfront', hfront]
      rfl

/-- Rules between the two keep both. -/
theorem Kept.applyAll {rules : List Rule} (hne : digits ≠ []) (hdigits : ∀ c ∈ digits, isWord c = true)
    (hnumeric : ∀ rule ∈ rules, (rule.deletes || rule.isSafe Json.numeric []) = true)
    (haccess : ∀ rule ∈ rules, (rule.deletes || rule.isSafe (.only ['?', '.']) []) = true)
    (hmarked : ∀ rule ∈ rules, rule.isSafe .marked [] = true) (h : Kept front digits t) :
    Kept front digits (applyAll rules t) := by
  have hword := numeric_pointed hdigits
  cases h with
  | whole h => exact .whole (h.applyAll (by simp) hword hnumeric hmarked)
  | taken hfront hoperator hword' =>
      have hsigns : ∀ c ∈ ['?', '.'], (WordClass.only ['?', '.']).has c = true :=
        List.all_iff_forall_prop.mp (by decide)
      exact .taken hfront (hoperator.applyAll (by simp) hsigns haccess hmarked)
        (hword'.applyAll hne (fun c hc => hword c (List.mem_cons_of_mem '.' hc)) hnumeric hmarked)

theorem joined_javascriptRules (hne : digits ≠ []) (hdigits : ∀ c ∈ digits, isWord c = true)
    (h : Joined front ('.' :: digits) t) :
    Joined front ('.' :: digits) (applyAll javascriptRules t) := by
  have hsplit : javascriptRules = javascriptRules[0] :: (javascriptRules.take 11).tail ++
      javascriptRules[11] :: javascriptRules.drop 12 := rfl
  have hmarked := rules_isSafe .javascript none
  rw [rules, hsplit, List.forall_mem_append, List.forall_mem_cons, List.forall_mem_cons] at hmarked
  have hkept := @Kept.applyAll _ _ _ (javascriptRules.take 11).tail hne hdigits (by decide +kernel)
    (by decide +kernel) hmarked.1.2 (kept_operators hne hdigits h)
  rw [hsplit, applyAll_append, applyAll_cons, applyAll_cons]
  exact (hkept.access hne hdigits).applyAll (by simp) (numeric_pointed hdigits) (by decide +kernel)
    hmarked.2.2

end

/-- A number that starts with its point and has no sign stays in one piece. -/
theorem joined_rules {family : Family}
    (hfamily : family = .javascript ∨ family = .python ∨ family = .cFamily) (language : Option Text)
    {front digits t : Text} (hne : digits ≠ []) (hdigits : ∀ c ∈ digits, isWord c = true)
    (h : Joined front ('.' :: digits) t) :
    Joined front ('.' :: digits) (applyAll (rules family language) t) := by
  have hall : ∀ rule ∈ pythonRules ++ (cFirstRules ++ memberArrowRule :: cLastRules),
      (rule.deletes || rule.isSafe Json.numeric []) = true := by decide +kernel
  obtain ⟨hpython, hc⟩ := List.forall_mem_append.mp hall
  have hjoined : (∀ rule ∈ rules family language, (rule.deletes || rule.isSafe Json.numeric []) = true) →
      Joined front ('.' :: digits) (applyAll (rules family language) t) := fun hrules =>
    h.applyAll (by simp) (numeric_pointed hdigits) hrules (rules_isSafe family language)
  rcases hfamily with rfl | rfl | rfl
  · exact joined_javascriptRules hne hdigits h
  · exact hjoined hpython
  · exact hjoined fun rule hrule => hc rule (mem_of_mem_cRules hrule)

/-! ### The sign of an exponent -/

def exponentLetters : WordClass :=
  .only ['e', 'E']

def exponentSigns : WordClass :=
  .only ['+', '-']

/-- The characters of the operators that a rule may draw to a word. -/
def isArrow (c : Char) : Bool :=
  c == '+' || c == '-' || c == '>'

/-- Whether a rule needs two of these characters. -/
def Rule.needsTwo (rule : Rule) : Bool :=
  match rule.action with
  | .respace pattern => pattern.any fun
      | .token choices => choices.all fun choice => 1 < choice.countP isArrow
      | _ => false
  | _ => false

section

variable {t : Text}

theorem countP_solid (t : Text) : (solid t).countP isArrow = t.countP isArrow := by
  rw [solid, List.countP_filter]
  refine List.countP_congr fun c _ => ?_
  rw [Bool.and_eq_true, and_iff_left_iff_imp]
  intro harrow
  simp only [isArrow, Bool.or_eq_true, beq_iff_eq] at harrow
  rcases harrow with (rfl | rfl) | rfl <;> decide

theorem Rule.apply_of_needsTwo {rule : Rule} (hneeds : rule.needsTwo = true)
    (hcount : t.countP isArrow ≤ 1) : rule.apply t = t := by
  rw [Rule.needsTwo] at hneeds
  rw [Rule.apply]
  cases haction : rule.action with
  | respace pattern =>
      rw [haction, List.any_eq_true] at hneeds
      obtain ⟨part, hpart, hchoices⟩ := hneeds
      cases part with
      | token choices =>
          refine Pattern.respace_eq_self hpart fun choice hchoice hinside => ?_
          have htwo := of_decide_eq_true (List.all_eq_true.mp hchoices choice hchoice)
          have hshort := hinside.sublist.countP_le (p := isArrow)
          omega
      | look _ | gap _ _ | space | run _ _ => cases hchoices
  | collapse | keyColons | declarationColons | sliceColons | keywordArguments =>
      simp [haction] at hneeds

/-- Whether a rule draws no sign of a number to the letter before it, in a text with one sign. -/
def Rule.partsExponents (rule : Rule) : Bool :=
  rule.keepsApart exponentLetters exponentSigns ||
    rule.isSafe (exponentLetters.union exponentSigns) [] || rule.needsTwo

theorem apart_exponents_applyAll {rules : List Rule}
    (hparts : ∀ rule ∈ rules, rule.partsExponents = true)
    (hmarked : ∀ rule ∈ rules, rule.isSafe .marked [] = true) (hcount : t.countP isArrow ≤ 1)
    (h : Apart exponentLetters exponentSigns t) :
    Apart exponentLetters exponentSigns (applyAll rules t) := by
  suffices hall : (applyAll rules t).countP isArrow ≤ 1 ∧
      Apart exponentLetters exponentSigns (applyAll rules t) from hall.2
  refine applyAll_induct (motive := fun s =>
    s.countP isArrow ≤ 1 ∧ Apart exponentLetters exponentSigns s) ?_ ⟨hcount, h⟩
  rintro rule hrule s ⟨hcount, h⟩
  refine ⟨by rwa [← countP_solid, solid_apply (hmarked rule hrule), countP_solid], ?_⟩
  have hown := hparts rule hrule
  rw [Rule.partsExponents, Bool.or_eq_true, Bool.or_eq_true] at hown
  rcases hown with (hkeeps | hsafe) | hneeds
  · exact Rule.apart_apply hkeeps h
  · exact apart_congr (Rule.tokens_apply hsafe (by simp [Text.Lacks])) h
  · rwa [Rule.apply_of_needsTwo hneeds hcount]

theorem apart_exponents_operatorRule {id singles : String} {operators : List String}
    {later : List Rule} (hcount : t.countP isArrow ≤ 1)
    (hchoices : ∀ choice ∈ operators.map String.toList ++ singles.toList.map fun c => [c],
      choice ≠ [] ∧ Apart exponentLetters exponentSigns choice)
    (hsigns : '+' ∈ singles.toList ∧ '-' ∈ singles.toList)
    (hparts : ∀ rule ∈ later, rule.partsExponents = true)
    (hmarked : ∀ rule ∈ operatorRule id operators singles :: later, rule.isSafe .marked [] = true) :
    Apart exponentLetters exponentSigns (applyAll (operatorRule id operators singles :: later) t) := by
  obtain ⟨hown, hmarked⟩ := List.forall_mem_cons.mp hmarked
  have hsolid := solid_apply hown t
  rw [applyAll_cons]
  refine apart_exponents_applyAll hparts hmarked (by rwa [← countP_solid, hsolid, countP_solid])
    (apart_operator hchoices (fun c d _ hd => .inr ?_) t)
  refine List.mem_append_right _ (List.mem_map_of_mem ?_)
  have hd := WordClass.mem_of_only hd
  simp only [List.mem_cons, List.not_mem_nil, or_false] at hd
  rcases hd with rfl | rfl
  · exact hsigns.1
  · exact hsigns.2

/-- The operator rule parts the letter and the sign of an exponent, and they stay apart. -/
theorem apart_exponents {family : Family}
    (hfamily : family = .javascript ∨ family = .python ∨ family = .cFamily) (language : Option Text)
    (hcount : t.countP isArrow ≤ 1) :
    Apart exponentLetters exponentSigns (applyAll (rules family language) t) := by
  have hmarked := rules_isSafe family language
  have hparts : ∀ rule ∈ javascriptRules.tail ++ (pythonRules.tail ++
      (cFirstRules.tail ++ memberArrowRule :: cLastRules)), rule.partsExponents = true := by
    decide +kernel
  obtain ⟨hjavascript, hparts⟩ := List.forall_mem_append.mp hparts
  obtain ⟨hpython, hparts⟩ := List.forall_mem_append.mp hparts
  rcases hfamily with rfl | rfl | rfl
  · exact apart_exponents_operatorRule hcount (by decide +kernel) (by decide +kernel) hjavascript hmarked
  · exact apart_exponents_operatorRule hcount (by decide +kernel) (by decide +kernel) hpython hmarked
  · obtain ⟨last, hrules, hlast⟩ := exists_cRules language
    rw [rules, hrules] at hmarked ⊢
    refine apart_exponents_operatorRule hcount (by decide +kernel) (by decide +kernel)
      (fun rule hrule => hparts rule ?_) hmarked
    exact List.mem_append.mpr ((List.mem_append.mp hrule).imp_right (hlast rule))

end

end SourceLayout.Spacing
