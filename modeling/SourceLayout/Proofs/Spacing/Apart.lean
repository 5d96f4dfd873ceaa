import Mathlib.Data.Bool.AllAny
import SourceLayout.Proofs.Trimmed

/-!
# Characters that stay apart

The operator rule writes blanks around every operator, so an operator of one character stands next
to nothing but blanks, or inside a longer operator. The rules after it take blanks away again, but
each of them next to few characters only. Whether a rule can bring a character of one class right
before one of another is checked part by part; where neither side of a gap that goes can be of these
classes, what stood apart stays apart.
-/

namespace SourceLayout

/-- Some characters that are no blanks, taken for words. -/
def WordClass.only (signs : Text) : WordClass where
  has c := !isBlank c && signs.contains c
  isBlank_eq_false := by
    intro c hword
    simp only [Bool.and_eq_true, Bool.not_eq_true'] at hword
    exact hword.1

theorem WordClass.mem_of_only {signs : Text} {c : Char} (hc : (WordClass.only signs).has c = true) :
    c ∈ signs := by
  rw [WordClass.only, Bool.and_eq_true] at hc
  exact List.contains_iff_mem.mp hc.2

def WordClass.union (p q : WordClass) : WordClass where
  has c := p.has c || q.has c
  isBlank_eq_false := by
    intro c hword
    rcases Bool.or_eq_true _ _ ▸ hword with hp | hq
    · exact p.isBlank_eq_false c hp
    · exact q.isBlank_eq_false c hq

namespace Spacing

open Text (tokens tokenized Separated)

variable {p q : WordClass}

/-- No character of one class stands directly before one of another. -/
def Apart (p q : WordClass) (t : Text) : Prop :=
  t.IsChain fun c d => ¬(p.has c = true ∧ q.has d = true)

instance (p q : WordClass) (t : Text) : Decidable (Apart p q t) :=
  inferInstanceAs (Decidable (t.IsChain _))

namespace Apart

theorem nil : Apart p q [] :=
  List.isChain_nil

theorem single (c : Char) : Apart p q [c] :=
  List.isChain_singleton c

theorem of_infix {t part : Text} (h : Apart p q t) (hpart : part <:+: t) : Apart p q part :=
  List.IsChain.infix h hpart

theorem append {left right : Text} (hleft : Apart p q left) (hright : Apart p q right)
    (hseam : headIs p.has left.reverse = false ∨ headIs q.has right = false) :
    Apart p q (left ++ right) := by
  refine List.IsChain.append hleft hright fun c hc d hd => ?_
  rintro ⟨hp, hq⟩
  rcases hseam with hlast | hhead
  · rw [Text.headIs_reverse_of_getLast? hc, hp] at hlast
    cases hlast
  · obtain ⟨ds, rfl⟩ := List.head?_eq_some_iff.mp hd
    rw [headIs_cons, hq] at hhead
    cases hhead

theorem not_first {t : Text} {c d : Char} (h : Apart p q (c :: d :: t)) :
    ¬(p.has c = true ∧ q.has d = true) :=
  (List.isChain_cons_cons.mp h).1

theorem headIs_eq_false {c : Char} {t : Text} (h : Apart p q (c :: t)) (hc : p.has c = true) :
    headIs q.has t = false := by
  cases t with
  | nil => rfl
  | cons d ds => exact Bool.eq_false_iff.mpr fun hd => h.not_first ⟨hc, hd⟩

/-- Two characters next to each other. -/
theorem not_both {left right : Text} {c d : Char} (h : Apart p q (left ++ c :: d :: right)) :
    ¬(p.has c = true ∧ q.has d = true) :=
  (h.of_infix (List.suffix_append left (c :: d :: right)).isInfix).not_first

theorem of_blanks {blanks : Text} (hblanks : blanks.all isBlank = true) : Apart p q blanks := by
  have hpairs : blanks.IsChain fun c d => [c, d] <:+: blanks := List.isChain_isInfix blanks
  refine hpairs.imp fun c d hpair => ?_
  rintro ⟨hp, _⟩
  have hblank := List.all_eq_true.mp hblanks c (hpair.subset List.mem_cons_self)
  rw [p.isBlank_eq_false c hp] at hblank
  cases hblank

/-- A gap may go where it touches a character that is in neither class. -/
theorem respace_gap {left old new right : Text} (hnew : new.all isBlank = true)
    (h : Apart p q (left ++ old ++ right))
    (htouch : new ≠ [] ∨ headIs p.has left.reverse = false ∨ headIs q.has right = false) :
    Apart p q (left ++ new ++ right) := by
  have hleft : Apart p q left := h.of_infix ⟨[], old ++ right, by simp⟩
  have hright : Apart p q right := h.of_infix (List.suffix_append (left ++ old) right).isInfix
  have hgap : Apart p q (left ++ new) :=
    hleft.append (of_blanks hnew) (.inr (Text.headIs_of_blanks hnew))
  refine hgap.append hright ?_
  by_cases hne : new = []
  · rw [hne, List.append_nil]
    exact htouch.resolve_left (absurd hne)
  · rw [Text.headIs_reverse_append_of_ne_nil hne]
    exact .inl (Text.headIs_reverse_of_blanks hnew)

end Apart

/-- Neighbours of the two classes stand in one token, if these classes are all that words hold. -/
theorem apart_iff_tokens (p q : WordClass) (t : Text) :
    Apart p q t ↔ ∀ tok ∈ tokens (p.union q) t, Apart p q tok := by
  have hread := tokenized (p.union q) t
  generalize tokens (p.union q) t = toks at hread
  induction hread with
  | nil => simp [Apart.nil]
  | @blank c t toks hblank _ ih =>
      refine Iff.trans ⟨fun h => h.of_infix (List.suffix_cons c t).isInfix, fun h => ?_⟩ ih
      have hc : p.has c = false := by
        cases hp : p.has c with
        | false => rfl
        | true => simp [p.isBlank_eq_false c hp] at hblank
      exact (Apart.single c).append h (.inl (by simpa using hc))
  | @token tok t toks _ hsep _ ih =>
      rw [List.forall_mem_cons]
      refine Iff.trans ⟨fun h => ?_, fun h => ?_⟩ (and_congr_right fun _ => ih)
      · exact ⟨h.of_infix (List.prefix_append tok t).isInfix,
          h.of_infix (List.suffix_append tok t).isInfix⟩
      · refine h.1.append h.2 ?_
        cases hlast : headIs p.has tok.reverse with
        | false => exact .inl rfl
        | true =>
            have hword : headIs (p.union q).has tok.reverse = true := by
              cases hreverse : tok.reverse with
              | nil => simp [hreverse] at hlast
              | cons d ds =>
                  rw [hreverse, headIs_cons] at hlast
                  simp [WordClass.union, hlast]
            have hnext := hsep hword
            refine .inr ?_
            cases t with
            | nil => rfl
            | cons d ds =>
                simp only [WordClass.union, headIs_cons, Bool.or_eq_false_iff] at hnext
                exact hnext.2

theorem apart_congr {t t' : Text} (htokens : tokens (p.union q) t' = tokens (p.union q) t)
    (h : Apart p q t) : Apart p q t' := by
  rw [apart_iff_tokens] at h ⊢
  rwa [htokens]

/-! ### The operator rule -/

/-- Where every character of one of the classes is an operator by itself, the operator rule parts
the two but inside of its operators. -/
theorem apart_operatorFrom {choices : List Text}
    (hchoices : ∀ choice ∈ choices, choice ≠ [] ∧ Apart p q choice)
    (hsingle : ∀ c d, p.has c = true → q.has d = true → [c] ∈ choices ∨ [d] ∈ choices)
    {previous : Char} (hprevious : p.has previous = true → [previous] ∉ choices)
    (before t : Text) :
    Apart p q (previous :: (operatorPattern choices).respaceFrom before 0 t) := by
  have hspace : ∀ words : WordClass, words.has ' ' = false := fun words =>
    Text.headIs_of_blanks (by decide : [' '].all isBlank = true)
  induction before, t using Pattern.respaceFrom_induct (operatorPattern choices)
    generalizing previous with
  | done before => exact Apart.single previous
  | found before read written rest hread hmatch ih =>
      obtain ⟨choice, hchoice, _, rfl⟩ :=
        operatorPattern_written (Pattern.matches_of_match? hmatch)
      have htail := @ih ' ' (by simp [hspace p])
      have hfront : Apart p q ([previous] ++ [' ']) :=
        (Apart.single previous).append (.single ' ') (.inr (hspace q))
      have hown : Apart p q ([previous] ++ [' '] ++ choice ++ [' ']) :=
        (hfront.append (hchoices choice hchoice).2 (.inl (hspace p))).append (.single ' ')
          (.inr (hspace q))
      have hjoined : Apart p q ([previous] ++ [' '] ++ choice ++ ' ' :: _) :=
        List.isChain_split.mpr ⟨hown, htail⟩
      rw [Pattern.respaceFrom_match hread hmatch]
      simpa only [List.append_assoc, List.cons_append, List.nil_append] using hjoined
  | passed before c cs hnone ih =>
      have hother : isBlank c = false → [c] ∉ choices := by
        intro hblank hsign
        obtain ⟨m, hsome, hread⟩ := operatorPattern_match hsign hblank
          (fun choice hchoice => (hchoices choice hchoice).1) before cs
        exact hread (hnone m hsome)
      rw [Pattern.respaceFrom_passed hnone]
      refine List.isChain_cons_cons.mpr ⟨?_, ih fun hp => hother (p.isBlank_eq_false c hp)⟩
      rintro ⟨hp, hq⟩
      rcases hsingle previous c hp hq with hleft | hright
      · exact hprevious hp hleft
      · exact hother (q.isBlank_eq_false c hq) hright

theorem apart_operator {choices : List Text}
    (hchoices : ∀ choice ∈ choices, choice ≠ [] ∧ Apart p q choice)
    (hsingle : ∀ c d, p.has c = true → q.has d = true → [c] ∈ choices ∨ [d] ∈ choices) (t : Text) :
    Apart p q ((operatorPattern choices).respace t) := by
  have hspace : p.has ' ' = false := Text.headIs_of_blanks (by decide : [' '].all isBlank = true)
  have hall := @apart_operatorFrom p q choices hchoices hsingle ' ' (by simp [hspace]) [] t
  exact hall.of_infix (List.suffix_cons _ _).isInfix

/-! ### Rules that take blanks away -/

/-- Whether what a pattern reads first is no character of a class. -/
def Pattern.shuns (words : WordClass) : Pattern → Bool
  | .look _ :: parts => Pattern.shuns words parts
  | .token choices :: _ => choices.all fun choice => !choice.isEmpty && !headIs words.has choice
  | _ => false

/-- Whether no gap that goes lies between the two classes. `near` tells whether a character of the
first one may stand before the pattern. -/
def Pattern.keepsApart (p q : WordClass) (near : Bool) : Pattern → Bool
  | [] => true
  | .look _ :: parts => Pattern.keepsApart p q near parts
  | .gap _ spaced :: parts =>
      (spaced || !near || Pattern.shuns q parts) && Pattern.keepsApart p q (near && !spaced) parts
  | .space :: parts => (!near || Pattern.shuns q parts) && Pattern.keepsApart p q near parts
  | .token choices :: parts =>
      Pattern.keepsApart p q
        (choices.any fun choice => choice.isEmpty || headIs p.has choice.reverse) parts
  | .run _ _ :: parts => Pattern.keepsApart p q true parts

theorem Pattern.Matches.headIs_of_shuns {words : WordClass} {pattern : Pattern}
    {before rest read written : Text} (hmatch : pattern.Matches rest before read written)
    (hshuns : Pattern.shuns words pattern = true) (right : Text) :
    headIs words.has (read ++ right) = false := by
  induction hmatch with
  | nil => cases hshuns
  | @cons _ read _ _ _ _ _ hfirst _ ih =>
      cases hfirst with
      | look => exact ih hshuns
      | token hchoice =>
          have hown := List.all_eq_true.mp hshuns read hchoice
          simp only [Bool.and_eq_true, Bool.not_eq_true', List.isEmpty_eq_false_iff] at hown
          rw [List.append_assoc, Text.headIs_append hown.1]
          exact hown.2
      | gap | space | run => cases hshuns

/-- What a pattern writes keeps apart what stood apart where it matched. -/
theorem Pattern.Matches.apart {pattern : Pattern} {before rest read written left right : Text}
    {near : Bool} (hmatch : pattern.Matches rest before read written)
    (hkeeps : Pattern.keepsApart p q near pattern = true)
    (hleft : near = false → headIs p.has left.reverse = false)
    (h : Apart p q (left ++ read ++ right)) : Apart p q (left ++ written ++ right) := by
  induction hmatch generalizing left near with
  | nil => exact h
  | @cons _ first _ read _ part parts hfirst hothers ih =>
      -- The first gap is respaced before the other parts are.
      have hgap : ∀ new : Text, new.all isBlank = true →
          (new ≠ [] ∨ near = false ∨ Pattern.shuns q parts = true) →
          Apart p q (left ++ new ++ read ++ right) := by
        intro new hnew htouch
        rw [List.append_assoc]
        refine Apart.respace_gap hnew (by simpa using h) (htouch.imp_right (Or.imp hleft ?_))
        exact fun hshuns => hothers.headIs_of_shuns hshuns right
      rw [← List.append_assoc]
      cases hfirst with
      | look => exact ih hkeeps (by simpa using hleft) (by simpa using h)
      | @gap least spaced =>
          simp only [Pattern.keepsApart, Bool.and_eq_true, Bool.or_eq_true,
            Bool.not_eq_true'] at hkeeps
          cases spaced with
          | true =>
              refine ih hkeeps.2 (fun _ => ?_) (hgap [' '] (by decide) (.inl (by simp)))
              rw [if_pos rfl, Text.headIs_reverse_append_of_ne_nil (by simp)]
              exact Text.headIs_of_blanks (by decide : [' '].all isBlank = true)
          | false =>
              refine ih hkeeps.2 (by simpa using hleft) (hgap [] rfl (.inr ?_))
              simpa using hkeeps.1
      | space =>
          simp only [Pattern.keepsApart, Bool.and_eq_true, Bool.or_eq_true,
            Bool.not_eq_true'] at hkeeps
          exact ih hkeeps.2 (by simpa using hleft) (hgap [] rfl (.inr hkeeps.1))
      | token hchoice =>
          refine ih hkeeps (fun hnear => ?_) (by simpa using h)
          have hown := List.any_eq_false.mp hnear first hchoice
          simp only [Bool.or_eq_true, not_or, Bool.not_eq_true, List.isEmpty_eq_false_iff] at hown
          rw [Text.headIs_reverse_append_of_ne_nil hown.1]
          exact hown.2
      | run => exact ih hkeeps (by simp) (by simpa using h)

/-- Whatever a pattern writes at a place keeps apart what stood apart. -/
def Pattern.KeepsApart (p q : WordClass) (pattern : Pattern) : Prop :=
  ∀ (before rest left : Text) (m : Match), Pattern.match? before rest pattern = some m →
    Apart p q (left ++ rest) → Apart p q (left ++ (m.written ++ rest.drop m.read.length))

theorem Pattern.keepsApart_of_check {pattern : Pattern}
    (hkeeps : Pattern.keepsApart p q true pattern = true) : pattern.KeepsApart p q := by
  intro before t left m hmatch h
  obtain ⟨rest, rfl, hmatches⟩ := Pattern.exists_matches hmatch
  rw [List.drop_left, ← List.append_assoc]
  exact hmatches.apart hkeeps (by simp) (by simpa using h)

theorem unaryPattern_written {choices : List Text} {keywords : List String}
    {before rest read written : Text}
    (hmatch : Pattern.Matches rest before (unaryPattern choices keywords) read written) :
    read = written ++ [' '] ∧ headIs startsOperand rest = true := by
  obtain _ | ⟨hlook, _ | ⟨htoken, _ | ⟨hspace, _ | ⟨hahead, ⟨⟩⟩⟩⟩⟩ := hmatch
  cases hlook
  cases htoken
  cases hspace
  cases hahead with
  | look hoperand => exact ⟨by simp, by simpa using hoperand⟩

/-- An operator without left operand is drawn to nothing but the start of an operand. -/
theorem keepsApart_unaryPattern (hoperand : ∀ c, startsOperand c = true → q.has c = false)
    (choices : List Text) (keywords : List String) :
    (unaryPattern choices keywords).KeepsApart p q := by
  intro before t left m hmatch h
  obtain ⟨rest, rfl, hmatches⟩ := Pattern.exists_matches hmatch
  obtain ⟨hread, hahead⟩ := unaryPattern_written hmatches
  have hgap : Apart p q (left ++ m.written ++ [' '] ++ rest) := by
    rw [hread] at h
    simpa using h
  have hright : headIs q.has rest = false := by
    cases rest with
    | nil => rfl
    | cons c cs => exact hoperand c hahead
  have hspaced : Apart p q (left ++ m.written ++ [] ++ rest) :=
    hgap.respace_gap rfl (.inr (.inr hright))
  rw [List.drop_left]
  simpa using hspaced

theorem Pattern.KeepsApart.respaceFrom {pattern : Pattern} (hkeeps : pattern.KeepsApart p q)
    (left before : Text) {t : Text} (h : Apart p q (left ++ t)) :
    Apart p q (left ++ pattern.respaceFrom before 0 t) := by
  induction before, t using Pattern.respaceFrom_induct pattern generalizing left with
  | done before => exact h
  | found before read written rest hne hmatch ih =>
      have hown := hkeeps before (read ++ rest) left _ hmatch h
      rw [List.drop_left, ← List.append_assoc] at hown
      rw [Pattern.respaceFrom_match hne hmatch, ← List.append_assoc]
      exact ih (left ++ written) hown
  | passed before c cs hnone ih =>
      rw [Pattern.respaceFrom_passed hnone, List.append_cons]
      exact ih (left ++ [c]) (by simpa using h)

theorem Pattern.KeepsApart.respace {pattern : Pattern} (hkeeps : pattern.KeepsApart p q) {t : Text}
    (h : Apart p q t) : Apart p q (pattern.respace t) :=
  hkeeps.respaceFrom [] [] h

/-- Whether a rule passes the check, which the colon rule of markup and the bracket rules do not
undergo. -/
def Rule.keepsApart (p q : WordClass) (rule : Rule) : Bool :=
  match rule.action with
  | .respace pattern => Pattern.keepsApart p q true pattern
  | .collapse => true
  | .keyColons => (p.union q).isPoint ':' && (p.union q).isPoint '?'
  | .declarationColons | .sliceColons | .keywordArguments => false

theorem Rule.apart_apply {rule : Rule} (hkeeps : rule.keepsApart p q = true) {t : Text}
    (h : Apart p q t) : Apart p q (rule.apply t) := by
  rw [Rule.keepsApart] at hkeeps
  rw [Rule.apply]
  cases haction : rule.action with
  | respace pattern =>
      rw [haction] at hkeeps
      exact (Pattern.keepsApart_of_check hkeeps).respace h
  | collapse => exact apart_congr (tokens_collapse t) h
  | keyColons =>
      simp only [haction, Bool.and_eq_true] at hkeeps
      exact apart_congr (respaced_keyColons hkeeps.1 hkeeps.2 t).tokens_eq.symm h
  | declarationColons | sliceColons | keywordArguments => simp [haction] at hkeeps

/-! ### The rules of two families -/

/-- What the operator rule of a family looks for. -/
def operatorChoices (operators : List String) : List Text :=
  operators.map String.toList ++ "=+-*/%&|^<>!?:".toList.map fun c => [c]

/-- Whether the operators of a family part two classes: none has the two next to each other, and of
two characters that must not meet one is an operator by itself. -/
structure Parts (operators : List String) (p q : WordClass) : Prop where
  choices : ∀ choice ∈ operatorChoices operators, choice ≠ [] ∧ Apart p q choice
  single : ∀ c d, p.has c = true → q.has d = true →
    [c] ∈ operatorChoices operators ∨ [d] ∈ operatorChoices operators

theorem only_of_startsOperand {signs : List Char}
    (hsigns : signs.all (fun c => !startsOperand c) = true) (c : Char)
    (hc : startsOperand c = true) : (WordClass.only signs).has c = false := by
  rw [Bool.eq_false_iff]
  intro hsign
  have hother := List.all_eq_true.mp hsigns c (WordClass.mem_of_only hsign)
  rw [hc] at hother
  cases hother

theorem apart_javascriptRules (hparts : Parts javascriptOperators p q)
    (hkeeps : ∀ rule ∈ javascriptRules.tail, rule.keepsApart p q = true) (t : Text) :
    Apart p q (applyAll javascriptRules t) := by
  have hsplit : javascriptRules = operatorRule "js-operator-spacing" javascriptOperators
      "=+-*/%&|^<>!?:" :: javascriptRules.tail := rfl
  rw [hsplit, applyAll, List.foldl_cons]
  exact applyAll_induct (fun rule hrule _ => Rule.apart_apply (hkeeps rule hrule))
    (apart_operator hparts.choices hparts.single t)

/-- The unary rule of the family passes no check, since an asterisk may be drawn to what follows. -/
theorem apart_cRules (hparts : Parts cOperators p q)
    (hkeeps : ∀ rule ∈ (cFirstRules.take 9).tail ++ cFirstRules.drop 10 ++
      memberArrowRule :: cLastRules, rule.keepsApart p q = true)
    (hoperand : ∀ c, startsOperand c = true → q.has c = false) (language : Option Text)
    (t : Text) : Apart p q (applyAll (cRules language) t) := by
  have hsplit : cFirstRules = operatorRule "c-operator-spacing" cOperators "=+-*/%&|^<>!?:" ::
      ((cFirstRules.take 9).tail ++
        unaryRule "c-unary" ["++", "--"] "-+!~*&" cUnaryKeywords :: cFirstRules.drop 10) := rfl
  have hfirst : Apart p q (applyAll cFirstRules t) := by
    rw [hsplit, applyAll, List.foldl_cons]
    refine applyAll_induct (fun rule hrule s h => ?_)
      (apart_operator hparts.choices hparts.single t)
    rcases List.mem_append.mp hrule with hmem | hmem
    · exact Rule.apart_apply (hkeeps rule (by simp [hmem])) h
    · rcases List.mem_cons.mp hmem with rfl | hmem
      · exact (keepsApart_unaryPattern hoperand _ _).respace h
      · exact Rule.apart_apply (hkeeps rule (by simp [hmem])) h
  have hlast : ∀ rules : List Rule, (∀ rule ∈ rules, rule ∈ memberArrowRule :: cLastRules) →
      Apart p q (applyAll rules (applyAll cFirstRules t)) := fun rules hrules =>
    applyAll_induct (fun rule hrule _ => Rule.apart_apply (hkeeps rule (by
      exact List.mem_append_right _ (hrules rule hrule)))) hfirst
  rw [cRules]
  split
  · rw [applyAll_append]
    exact hlast _ fun rule hrule => hrule
  · rw [applyAll_append]
    exact hlast _ fun rule hrule => List.mem_cons_of_mem _ hrule

end Spacing

end SourceLayout
