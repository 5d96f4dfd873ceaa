import Mathlib.Data.List.Chain
import SourceLayout.Proofs.Spacing.Rules

/-!
# Spaces around operators

The operator rule airs an operator: blanks stand on both of its sides, and collapsing makes each of
them one space. Where the operator has no left operand, the unary rule takes the space after it
away again. Rules whose operators do not occur in a text leave it as it is.
-/

namespace SourceLayout.Spacing

open Text (Lacks)

/-! ### Patterns that do not match -/

namespace Pattern

variable {pattern : Pattern} {before : Text}

theorem respaceFrom_pass {stretch rest : Text}
    (hpass : ∀ i < stretch.length,
      Pattern.match? ((stretch.take i).reverse ++ before) (stretch.drop i ++ rest) pattern =
        none) :
    pattern.respaceFrom before 0 (stretch ++ rest) =
      stretch ++ pattern.respaceFrom (stretch.reverse ++ before) 0 rest := by
  induction stretch generalizing before with
  | nil => rfl
  | cons c cs ih =>
      have hfirst := hpass 0 (by simp)
      rw [List.cons_append, respaceFrom_cons (by simpa using hfirst), ih]
      · simp
      · intro i hi
        simpa using hpass (i + 1) (by simpa using hi)

theorem respaceFrom_of_forall {stretch : Text}
    (hpass : ∀ c ∈ stretch, ∀ before rest, Pattern.match? before (c :: rest) pattern = none)
    (before rest : Text) :
    pattern.respaceFrom before 0 (stretch ++ rest) =
      stretch ++ pattern.respaceFrom (stretch.reverse ++ before) 0 rest := by
  apply respaceFrom_pass
  intro i hi
  rw [List.drop_eq_getElem_cons hi, List.cons_append]
  exact hpass _ (List.getElem_mem hi) _ _

theorem match?_eq_none {t : Text}
    (hnone : ∀ rest read written, t = read ++ rest → ¬pattern.Matches rest before read written) :
    Pattern.match? before t pattern = none := by
  rw [Option.eq_none_iff_forall_ne_some]
  intro m hmatch
  obtain ⟨rest, ht, hmatches⟩ := exists_matches hmatch
  exact hnone rest m.read m.written ht hmatches

/-- A match reads one of its choices somewhere. -/
theorem Matches.exists_choice {choices : List Text} {rest read written : Text}
    (hmatch : pattern.Matches rest before read written) (hmem : Part.token choices ∈ pattern) :
    ∃ choice ∈ choices, choice <:+: read := by
  induction hmatch with
  | nil => cases hmem
  | @cons _ own _ others _ _ _ hfirst _ ih =>
      rcases List.mem_cons.mp hmem with rfl | hmem
      · cases hfirst with
        | token hchoice => exact ⟨own, hchoice, (List.prefix_append own others).isInfix⟩
      · obtain ⟨choice, hchoice, hinside⟩ := ih hmem
        exact ⟨choice, hchoice, hinside.trans (List.suffix_append own others).isInfix⟩

/-- A pattern does nothing where none of its operators occurs. -/
theorem respaceFrom_eq_self {choices : List Text} (hmem : Part.token choices ∈ pattern) {t : Text}
    (habsent : ∀ choice ∈ choices, ¬choice <:+: t) (before : Text) :
    pattern.respaceFrom before 0 t = t := by
  induction before, t using respaceFrom_induct pattern with
  | done before => rfl
  | found before read written rest _ hmatch _ =>
      obtain ⟨choice, hchoice, hinside⟩ := (matches_of_match? hmatch).exists_choice hmem
      exact absurd (hinside.trans (List.prefix_append read rest).isInfix) (habsent choice hchoice)
  | passed before c cs hnone ih =>
      rw [respaceFrom_passed hnone,
        ih fun choice hchoice hinside => habsent choice hchoice (List.infix_cons hinside)]

theorem respace_eq_self {choices : List Text} (hmem : Part.token choices ∈ pattern) {t : Text}
    (habsent : ∀ choice ∈ choices, ¬choice <:+: t) : pattern.respace t = t :=
  respaceFrom_eq_self hmem habsent []

end Pattern

/-- Whether a rule needs an operator that the absence of some characters rules out. -/
def Rule.isIdle (absent : Text) (rule : Rule) : Bool :=
  match rule.action with
  | .respace pattern => pattern.any fun
      | .token choices => choices.all (isRuledOut absent)
      | _ => false
  | _ => false

theorem not_infix_of_isRuledOut {absent choice t : Text} (hout : isRuledOut absent choice = true)
    (hlacks : Lacks absent t) : ¬choice <:+: t := by
  intro hinside
  have hnot : isRuledOut absent choice = false :=
    isRuledOut_of_lacks fun c hc => hlacks c (hinside.subset hc)
  rw [hnot] at hout
  cases hout

theorem Rule.apply_eq_self {absent : Text} {rule : Rule} (hidle : rule.isIdle absent = true)
    {t : Text} (hlacks : Lacks absent t) : rule.apply t = t := by
  rw [Rule.isIdle] at hidle
  rw [Rule.apply]
  cases haction : rule.action with
  | respace pattern =>
      rw [haction, List.any_eq_true] at hidle
      obtain ⟨part, hpart, hchoices⟩ := hidle
      cases part with
      | token choices =>
          refine Pattern.respace_eq_self hpart fun choice hchoice => ?_
          exact not_infix_of_isRuledOut (List.all_eq_true.mp hchoices choice hchoice) hlacks
      | look _ | gap _ _ | space | run _ _ => cases hchoices
  | collapse | keyColons | declarationColons | sliceColons | keywordArguments =>
      simp [haction] at hidle

theorem applyAll_eq_self {absent : Text} {rules : List Rule}
    (hidle : ∀ rule ∈ rules, rule.isIdle absent = true) {t : Text} (hlacks : Lacks absent t) :
    applyAll rules t = t := by
  refine applyAll_induct (motive := (· = t)) ?_ rfl
  rintro rule hrule _ rfl
  exact Rule.apply_eq_self (hidle rule hrule) hlacks

theorem applyAll_append (first others : List Rule) (t : Text) :
    applyAll (first ++ others) t = applyAll others (applyAll first t) :=
  List.foldl_append

/-! ### Airing an operator -/

/-- Next to a sign stand blanks only. -/
def Aired (sign : Char) (c d : Char) : Prop :=
  (c = sign → isBlank d = true) ∧ (d = sign → isBlank c = true)

theorem Aired.of_ne {sign c d : Char} (hc : c ≠ sign) (hd : d ≠ sign) : Aired sign c d :=
  ⟨fun heq => absurd heq hc, fun heq => absurd heq hd⟩

theorem isChain_aired_of_not_mem {sign : Char} {t : Text} (hnot : sign ∉ t) :
    t.IsChain (Aired sign) := by
  have hchain : t.IsChain fun c d => [c, d] <:+: t := List.isChain_isInfix t
  refine hchain.imp fun c d hpair => ?_
  have hne : ∀ e ∈ [c, d], e ≠ sign := by
    rintro e he rfl
    exact hnot (hpair.subset he)
  exact .of_ne (hne c (by simp)) (hne d (by simp))

section Operators

variable {choices : List Text} {sign : Char}

/-- What the operator rule looks for. -/
def operatorPattern (choices : List Text) : Pattern :=
  [.spaced, .token choices, .spaced]

theorem operatorPattern_written {before rest read written : Text}
    (hmatch : Pattern.Matches rest before (operatorPattern choices) read written) :
    ∃ choice ∈ choices, choice <:+: read ∧ written = ' ' :: (choice ++ [' ']) := by
  obtain _ | ⟨hgap, _ | ⟨htoken, _ | ⟨hgap', ⟨⟩⟩⟩⟩ := hmatch
  cases hgap
  cases hgap'
  cases htoken with
  | token hchoice => exact ⟨_, hchoice, ⟨_, _, List.append_assoc ..⟩, by simp⟩

/-- An operator by itself is not passed over. -/
theorem operatorPattern_match (hsign : [sign] ∈ choices) (hblank : isBlank sign = false)
    (hne : ∀ choice ∈ choices, choice ≠ []) (before cs : Text) :
    ∃ m, Pattern.match? before (sign :: cs) (operatorPattern choices) = some m ∧ m.read ≠ [] := by
  have hfind : (choices.find? fun choice => choice.isPrefixOf (sign :: cs)).isSome = true :=
    List.find?_isSome.mpr ⟨[sign], hsign, by simp⟩
  obtain ⟨choice, hchoice⟩ := Option.isSome_iff_exists.mp hfind
  have hread := hne choice (List.mem_of_find?_eq_some hchoice)
  refine ⟨⟨choice ++ ((sign :: cs).drop choice.length).takeWhile isBlank,
    ' ' :: (choice ++ [' '])⟩, ?_, ?_⟩
  · simp [operatorPattern, Pattern.match?, Part.match?, Part.spaced, hblank, hchoice]
  · simp [hread]

/-- The operator rule airs an operator if no longer one holds its sign. -/
theorem isChain_operator (hsign : [sign] ∈ choices) (hblank : isBlank sign = false)
    (hne : ∀ choice ∈ choices, choice ≠ []) {t : Text}
    (hlonger : ∀ choice ∈ choices, choice <:+: t → choice = [sign] ∨ sign ∉ choice)
    (before : Text) {previous : Char} (hprevious : previous ≠ sign) :
    List.IsChain (Aired sign)
      (previous :: (operatorPattern choices).respaceFrom before 0 t) := by
  have hspace : ' ' ≠ sign := by
    rintro rfl
    exact absurd hblank (by decide)
  induction before, t using Pattern.respaceFrom_induct (operatorPattern choices)
    generalizing previous with
  | done before => exact List.isChain_singleton previous
  | found before read written rest hread hmatch ih =>
      obtain ⟨choice, hchoice, hinside, rfl⟩ :=
        operatorPattern_written (Pattern.matches_of_match? hmatch)
      have hfound := hinside.trans (List.prefix_append read rest).isInfix
      have hlead : List.IsChain (Aired sign) (previous :: ' ' :: choice ++ [' ']) := by
        rcases hlonger choice hchoice hfound with rfl | hnot
        · have hgap : isBlank ' ' = true := by decide
          simp [Aired, hprevious, hspace, hgap]
        · refine isChain_aired_of_not_mem ?_
          simp [Ne.symm hprevious, Ne.symm hspace, hnot]
      have htail := ih (fun choice hchoice hinside =>
        hlonger choice hchoice (hinside.trans (List.suffix_append read rest).isInfix)) hspace
      have hjoined := List.isChain_split.mpr ⟨hlead, htail⟩
      rw [Pattern.respaceFrom_match hread hmatch]
      simpa using hjoined
  | passed before c cs hnone ih =>
      have hc : c ≠ sign := by
        rintro rfl
        obtain ⟨m, hsome, hread⟩ := operatorPattern_match hsign hblank hne before cs
        exact hread (hnone m hsome)
      rw [Pattern.respaceFrom_passed hnone]
      exact List.isChain_cons_cons.mpr ⟨.of_ne hprevious hc,
        ih (fun choice hchoice hinside => hlonger choice hchoice (List.infix_cons hinside)) hc⟩

end Operators

/-! ### Collapsing -/

/-- Next to a sign stand blanks only, and next to a blank none. -/
def Tight (sign : Char) (c d : Char) : Prop :=
  Aired sign c d ∧ (isBlank c = true → isBlank d = false)

theorem headIs_intercalate {chunks : List Text}
    (hchunks : ∀ chunk ∈ chunks, chunk ≠ [] ∧ ∀ c ∈ chunk, isBlank c = false) :
    headIs isBlank ([' '].intercalate chunks) = false := by
  cases chunks with
  | nil => rfl
  | cons first rest =>
      obtain ⟨hne, hsolid⟩ := hchunks first List.mem_cons_self
      cases first with
      | nil => exact absurd rfl hne
      | cons c cs =>
          have hc := hsolid c List.mem_cons_self
          cases rest with
          | nil => simpa [List.intercalate] using hc
          | cons second others => simpa [intercalate_space_cons] using hc

theorem isChain_intercalate {sign : Char} (hblank : isBlank sign = false) {chunks : List Text}
    (hchunks : ∀ chunk ∈ chunks, chunk ≠ [] ∧ ∀ c ∈ chunk, isBlank c = false)
    (haired : ∀ chunk ∈ chunks, chunk.IsChain (Aired sign)) :
    List.IsChain (Tight sign) ([' '].intercalate chunks) := by
  have hgap : isBlank ' ' = true := by decide
  have hspace : ' ' ≠ sign := by
    rintro rfl
    simp [hgap] at hblank
  induction chunks with
  | nil => simp [List.intercalate]
  | cons first rest ih =>
      have hsolid := (hchunks first List.mem_cons_self).2
      have hfirst : first.IsChain (Tight sign) :=
        (haired first List.mem_cons_self).imp_of_mem_imp fun c d hc _ hpair =>
          ⟨hpair, by simp [hsolid c hc]⟩
      cases rest with
      | nil => simpa [List.intercalate] using hfirst
      | cons second others =>
          have hothers : ∀ chunk ∈ second :: others, chunk ≠ [] ∧ ∀ c ∈ chunk, isBlank c = false :=
            fun chunk hchunk => hchunks chunk (List.mem_cons_of_mem first hchunk)
          have hrest := ih hothers fun chunk hchunk =>
            haired chunk (List.mem_cons_of_mem first hchunk)
          have hhead := headIs_intercalate hothers
          rw [intercalate_space_cons, List.append_assoc, List.singleton_append]
          refine hfirst.append (hrest.cons fun d hd => ?_) fun c hc d hd => ?_
          · have hd : isBlank d = false := by
              cases hjoin : [' '].intercalate (second :: others) with
              | nil => simp [hjoin] at hd
              | cons e es =>
                  obtain rfl : e = d := by simpa [hjoin] using hd
                  simpa [hjoin] using hhead
            exact ⟨⟨fun heq => absurd heq hspace, fun _ => hgap⟩, fun _ => hd⟩
          · obtain rfl : ' ' = d := by simpa using hd
            have hc := hsolid c (List.mem_of_mem_getLast? hc)
            exact ⟨⟨fun _ => hgap, fun heq => absurd heq hspace⟩, by simp [hc]⟩

theorem of_mem_chunks {t chunk : Text} (hchunk : chunk ∈ t.chunks) :
    chunk <:+: t ∧ chunk ≠ [] ∧ ∀ c ∈ chunk, isBlank c = false := by
  obtain ⟨hcut, hne⟩ := List.mem_filter.mp hchunk
  obtain ⟨hinside, hsolid⟩ := Text.of_mem_cutAt hcut
  exact ⟨hinside, by simpa using hne, hsolid⟩

/-- Collapsing an aired text leaves one space at most, and none at the start. -/
theorem isChain_collapse {sign : Char} (hblank : isBlank sign = false) {t : Text}
    (haired : t.IsChain (Aired sign)) :
    t.collapse.IsChain (Tight sign) ∧ headIs isBlank t.collapse = false :=
  ⟨isChain_intercalate hblank (fun _ hchunk => (of_mem_chunks hchunk).2)
      fun _ hchunk => List.IsChain.infix haired (of_mem_chunks hchunk).1,
    headIs_intercalate fun _ hchunk => (of_mem_chunks hchunk).2⟩

/-! ### Drawing an operator to its operand -/

section Unary

variable {choices : List Text} {keywords : List String}

/-- What the unary rule looks for. -/
def unaryPattern (choices : List Text) (keywords : List String) : Pattern :=
  [.look fun before _ => hasNoLeftOperand keywords before, .token choices, .space,
    .ahead startsOperand]

theorem unaryPattern_eq_none {c : Char} (hc : choices.all (headIs (· != c)) = true)
    (before cs : Text) :
    Pattern.match? before (c :: cs) (unaryPattern choices keywords) = none := by
  refine Pattern.match?_eq_none fun rest read written ht hmatch => ?_
  obtain _ | ⟨hlook, _ | @⟨_, choice, _, _, _, _, _, htoken, -⟩⟩ := hmatch
  cases hlook
  cases htoken with
  | token hchoice =>
      have hhead := List.all_eq_true.mp hc choice hchoice
      cases choice with
      | nil => cases hhead
      | cons d ds =>
          obtain rfl : c = d := (List.cons.inj ht).1
          simp at hhead

theorem unaryPattern_match {sign : Char} {before operand : Text}
    (hbefore : hasNoLeftOperand keywords before = true)
    (hchoice : (choices.find? fun choice => choice.isPrefixOf (sign :: ' ' :: operand)) =
      some [sign])
    (hoperand : headIs startsOperand operand = true) :
    Pattern.match? before (sign :: ' ' :: operand) (unaryPattern choices keywords) =
      some ⟨[sign, ' '], [sign]⟩ := by
  simp [unaryPattern, Pattern.match?, Part.match?, Part.ahead, hbefore, hchoice, hoperand]

/-- An operator without left operand loses the space after it. -/
theorem respaceFrom_unary {sign : Char} {before operand : Text}
    (hbefore : hasNoLeftOperand keywords before = true)
    (hchoice : (choices.find? fun choice => choice.isPrefixOf (sign :: ' ' :: operand)) =
      some [sign])
    (hoperand : headIs startsOperand operand = true) :
    (unaryPattern choices keywords).respaceFrom before 0 (sign :: ' ' :: operand) =
      sign :: (unaryPattern choices keywords).respaceFrom (' ' :: sign :: before) 0 operand :=
  @Pattern.respaceFrom_match _ before [sign, ' '] operand [sign] (by simp)
    (unaryPattern_match hbefore hchoice hoperand)

end Unary

end SourceLayout.Spacing
