import SourceLayout.Proofs.Json.Mask
import SourceLayout.Proofs.Spacing.Operator

/-!
# The rules on a line of forms

Up to the unary rule a minus is a token of its own, apart from the number it belongs to, and from
then on a part of it. The operator rule airs the minus, and the unary rule draws it to the number
again, since what stands before it in a document is no operand.
-/

namespace SourceLayout.Json

open Literal (mark)
open Text (tokens Lacks Separated)
open Spacing

/-- Words and marks, and numbers without sign. -/
def numeric : WordClass :=
  WordClass.marked.adding ['.'] (List.forall_mem_singleton.mpr (by decide))

/-- Words and marks, and numbers with their sign. -/
def signed : WordClass :=
  numeric.adding ['-'] (List.forall_mem_singleton.mpr (by decide))

/-- Characters of operators that stand in no document outside its strings. -/
def foreignSigns : Text :=
  ['?', '=', '&', '|', '+', '!', '~']

/-- The tokens of a form while its minus stands apart. -/
def Form.pieces : Form → List Text
  | .sign s => [[s.char]]
  | .atom negative core => if negative then [['-'], core] else [core]

/-- The core of an atom is one word that an operator can be drawn to. -/
def Form.Solid : Form → Prop
  | .sign _ => True
  | .atom _ core => headIs startsOperand core = true ∧ ∀ c ∈ core, numeric.has c = true

theorem numeric_of_marked {c : Char} (hc : WordClass.marked.has c = true) :
    numeric.has c = true := by
  simp [numeric, WordClass.adding, hc]

theorem numeric_of_isWord {c : Char} (hc : isWord c = true) : numeric.has c = true :=
  numeric_of_marked (WordClass.marked_of_plain c hc)

theorem signed_of_numeric {c : Char} (hc : numeric.has c = true) : signed.has c = true := by
  simp [signed, WordClass.adding, hc]

theorem Masks.solid {literals : List Text} {token : Token} {form : Form}
    (h : Masks literals true token form) : form.Solid := by
  have hmark : ∀ place, headIs startsOperand (mark place) = true ∧
      ∀ c ∈ mark place, numeric.has c = true := by
    intro place
    refine ⟨by simp [Literal.mark, startsOperand], fun c hc => numeric_of_marked ?_⟩
    simp only [Literal.mark, List.cons_append, List.mem_cons, List.mem_append, List.not_mem_nil,
      or_false] at hc
    rcases hc with rfl | hdigit | rfl
    · exact Literal.marked_markOpen
    · exact Literal.marked_of_isDecimal (Literal.isDecimal_of_mem_toDigits hdigit)
    · exact Literal.marked_markClose
  cases h with
  | sign s => trivial
  | word w =>
      have hletters : w.text.all isWord = true := by cases w <;> decide
      refine ⟨by cases w <;> decide, fun c hc => ?_⟩
      exact numeric_of_isWord (List.all_eq_true.mp hletters c hc)
  | string _ => exact hmark _
  | exponent _ _ => exact hmark _
  | number n hplain =>
      have hcore : n.core = n.mantissa := by simp [Number.core, hplain rfl]
      refine ⟨?_, fun c hc => ?_⟩
      · cases hwhole : n.whole with
        | nil => exact absurd hwhole n.whole_isDigits.1
        | cons d ds =>
            have hd := Literal.isWord_of_isDigit (n.whole_isDigits.2 d (by simp [hwhole]))
            simp [hcore, Number.mantissa, hwhole, startsOperand, hd]
      · rw [hcore] at hc
        have hc := n.mem_mantissa hc
        simp only [Bool.or_eq_true, beq_iff_eq] at hc
        rcases hc with hword | rfl
        · exact numeric_of_isWord hword
        · rfl

theorem solid_of_masks {literals : List Text} {toks : List Token} {forms : List Form}
    (h : List.Forall₂ (Masks literals true) toks forms) : ∀ form ∈ forms, form.Solid := by
  induction h with
  | nil => simp
  | cons hmasks _ ih => exact List.forall_mem_cons.mpr ⟨hmasks.solid, ih⟩

/-! ### Tokens of a line of forms -/

theorem Form.Solid.ne_nil {negative : Bool} {core : Text} (h : (Form.atom negative core).Solid) :
    core ≠ [] := by
  rintro rfl
  simp [Form.Solid] at h

theorem Form.Solid.tokens_core {negative : Bool} {core : Text}
    (h : (Form.atom negative core).Solid) : tokens numeric core = [core] :=
  Text.tokens_of_forall h.ne_nil h.2

theorem Form.Solid.tokens_text {negative : Bool} {core : Text}
    (h : (Form.atom negative core).Solid) :
    tokens signed (Form.atom negative core).text = [(Form.atom negative core).text] := by
  refine Text.tokens_of_forall ?_ fun c hc => ?_
  · cases negative <;> simp [Form.text, h.ne_nil]
  · cases negative with
    | false => exact signed_of_numeric (h.2 c hc)
    | true =>
        rcases List.mem_cons.mp hc with rfl | hc
        · decide
        · exact signed_of_numeric (h.2 c hc)

theorem isPoint_sign (s : Sign) : numeric.isPoint s.char = true ∧ signed.isPoint s.char = true := by
  cases s <;> decide

theorem isPoint_minus : numeric.isPoint '-' = true := by
  decide

/-- No word runs from an atom into what follows. -/
theorem separated_formed {words : WordClass} (hsigns : ∀ s : Sign, words.isPoint s.char = true)
    {forms : List Form} {t : Text} (h : Formed forms t) (hplaced : placed false forms = true)
    (left : Text) : Separated words left t := by
  refine Separated.of_head (headIs_formed (fun c hc => ?_) (fun s => ?_) h hplaced) left
  · cases hword : words.has c with
    | false => rfl
    | true =>
        have hblank := words.isBlank_eq_false c hword
        rw [isBlank_of_isSpace hc] at hblank
        cases hblank
  · have hsign := hsigns s
    simp only [WordClass.isPoint, Bool.and_eq_true, Bool.not_eq_true'] at hsign
    exact hsign.2

theorem tokens_point_cons {words : WordClass} {c : Char} (hpoint : words.isPoint c = true)
    (t : Text) : tokens words (c :: t) = [c] :: tokens words t :=
  Text.tokens_append_point hpoint [] t

theorem tokens_formed {forms : List Form} {t : Text} (h : Formed forms t)
    (hsolid : ∀ form ∈ forms, form.Solid) {ready : Bool} (hplaced : placed ready forms = true) :
    tokens numeric t = forms.flatMap Form.pieces ∧ tokens signed t = forms.map Form.text := by
  induction h generalizing ready with
  | nil => exact ⟨rfl, rfl⟩
  | space hc _ ih =>
      have hblank := isBlank_of_isSpace hc
      rw [Text.tokens_blank_cons hblank, Text.tokens_blank_cons hblank]
      exact ih hsolid hplaced
  | @form form forms t h ih =>
      have hrest := @ih fun other hother => hsolid other (List.mem_cons_of_mem form hother)
      rw [List.flatMap_cons, List.map_cons]
      cases form with
      | sign s =>
          obtain ⟨hnumeric, hsigned⟩ := isPoint_sign s
          obtain ⟨hpieces, htexts⟩ := hrest hplaced
          rw [Form.text, List.singleton_append, tokens_point_cons hnumeric,
            tokens_point_cons hsigned, hpieces, htexts]
          exact ⟨rfl, rfl⟩
      | atom negative core =>
          have hatom := hsolid _ List.mem_cons_self
          simp only [placed, Bool.and_eq_true] at hplaced
          obtain ⟨hpieces, htexts⟩ := hrest hplaced.2
          have hsep : ∀ left, Separated numeric left t :=
            separated_formed (fun s => (isPoint_sign s).1) h hplaced.2
          have hsep' : ∀ left, Separated signed left t :=
            separated_formed (fun s => (isPoint_sign s).2) h hplaced.2
          refine ⟨?_, ?_⟩
          · cases negative with
            | false =>
                rw [Form.text, if_neg (by simp), Text.tokens_append (hsep core), hpieces,
                  hatom.tokens_core]
                rfl
            | true =>
                rw [Form.text, if_pos rfl, List.cons_append, tokens_point_cons isPoint_minus,
                  Text.tokens_append (hsep core), hpieces, hatom.tokens_core]
                rfl
          · rw [Text.tokens_append (hsep' _), hatom.tokens_text, htexts, List.singleton_append]

/-! ### What the pieces tell of a text -/

theorem foreignSigns_isBlank : ∀ c ∈ foreignSigns, isBlank c = false := by
  have hall : foreignSigns.all (fun c => !isBlank c) = true := by decide
  intro c hc
  simpa using List.all_eq_true.mp hall c hc

theorem not_foreign_of_numeric {c : Char} (hc : numeric.has c = true) : c ∉ foreignSigns := by
  have hall : foreignSigns.all (fun c => !numeric.has c) = true := by decide
  intro hmem
  have hnot := List.all_eq_true.mp hall c hmem
  simp [hc] at hnot

theorem lacks_of_pieces {forms : List Form} (hsolid : ∀ form ∈ forms, form.Solid) {t : Text}
    (htokens : tokens numeric t = forms.flatMap Form.pieces) : Lacks foreignSigns t := by
  rw [Text.lacks_iff_tokens foreignSigns_isBlank, htokens]
  intro tok htok c hc
  obtain ⟨form, hform, hpiece⟩ := List.mem_flatMap.mp htok
  cases form with
  | sign s =>
      obtain rfl := List.mem_singleton.mp hpiece
      obtain rfl := List.mem_singleton.mp hc
      cases s <;> decide
  | atom negative core =>
      have hcore : ∀ d ∈ core, d ∉ foreignSigns := fun d hd =>
        not_foreign_of_numeric ((hsolid _ hform).2 d hd)
      cases negative with
      | false =>
          obtain rfl := List.mem_singleton.mp hpiece
          exact hcore c hc
      | true =>
          rcases List.mem_cons.mp hpiece with rfl | hpiece
          · obtain rfl := List.mem_singleton.mp hc
            decide
          · obtain rfl := List.mem_singleton.mp hpiece
            exact hcore c hc

theorem Form.Solid.ne_minus {negative : Bool} {core : Text} (h : (Form.atom negative core).Solid) :
    core ≠ ['-'] := by
  rintro rfl
  have hminus := h.2 '-' (by simp)
  revert hminus
  decide

/-- After a minus comes its number. -/
theorem isChain_pieces {forms : List Form} (hsolid : ∀ form ∈ forms, form.Solid) :
    (forms.flatMap Form.pieces).IsChain fun tok next => tok = ['-'] → next ≠ ['-'] := by
  induction forms with
  | nil => exact .nil
  | cons form forms ih =>
      have hrest := ih fun other hother => hsolid other (List.mem_cons_of_mem form hother)
      rw [List.flatMap_cons]
      cases form with
      | sign s =>
          have hne : [s.char] ≠ ['-'] := by cases s <;> decide
          exact hrest.cons fun _ _ heq => absurd heq hne
      | atom negative core =>
          have hne := (hsolid _ List.mem_cons_self).ne_minus
          have hcore := hrest.cons (x := core) fun _ _ heq => absurd heq hne
          cases negative with
          | false => exact hcore
          | true => exact hcore.cons_cons fun _ => hne

theorem not_infix_minuses {forms : List Form} (hsolid : ∀ form ∈ forms, form.Solid) {t : Text}
    (htokens : tokens numeric t = forms.flatMap Form.pieces) : ¬['-', '-'] <:+: t := by
  rintro ⟨left, right, rfl⟩
  have hchain := isChain_pieces hsolid
  rw [← htokens, List.append_assoc, List.cons_append, List.singleton_append,
    Text.tokens_append_point isPoint_minus, tokens_point_cons isPoint_minus,
    List.isChain_append_cons_cons] at hchain
  exact hchain.2.1 rfl rfl

/-! ### Up to the unary rule -/

def operators : Pattern :=
  operatorPattern
    (javascriptOperators.map String.toList ++ "=+-*/%&|^<>!?:".toList.map fun c => [c])

def unaries : Pattern :=
  unaryPattern (["++", "--"].map String.toList ++ "-+!~".toList.map fun c => [c])
    javascriptUnaryKeywords

/-- The rules that put together operators that were taken apart. -/
def rejoining : List Rule :=
  (javascriptRules.drop 1).take 7

/-- The rules after the unary one. -/
def finishing : List Rule :=
  javascriptRules.drop 11

theorem javascriptRules_eq :
    javascriptRules =
      operatorRule "js-operator-spacing" javascriptOperators "=+-*/%&|^<>!?:" ::
        (rejoining ++ collapseRule :: postfixRule ::
          unaryRule "js-unary" ["++", "--"] "-+!~" javascriptUnaryKeywords :: finishing) :=
  rfl

theorem applyAll_javascriptRules (t : Text) :
    applyAll javascriptRules t =
      applyAll finishing (unaries.respace
        (postfixRule.apply (applyAll rejoining (operators.respace t)).collapse)) := by
  have hcons : ∀ (rule : Rule) (rules : List Rule) (t : Text),
      applyAll (rule :: rules) t = applyAll rules (rule.apply t) := fun _ _ _ => rfl
  have hoperator : ∀ t, (operatorRule "js-operator-spacing" javascriptOperators
      "=+-*/%&|^<>!?:").apply t = operators.respace t := fun _ => rfl
  have hcollapse : ∀ t, collapseRule.apply t = t.collapse := fun _ => rfl
  have hunary : ∀ t, (unaryRule "js-unary" ["++", "--"] "-+!~" javascriptUnaryKeywords).apply t =
      unaries.respace t := fun _ => rfl
  rw [javascriptRules_eq, hcons, applyAll_append, hcons, hcons, hcons, hoperator, hcollapse,
    hunary]

theorem rejoining_isIdle : ∀ rule ∈ rejoining, rule.isIdle foreignSigns = true := by
  decide

/-- The only operator of several characters that a minus may belong to is the decrement. -/
theorem operators_minus {forms : List Form} (hsolid : ∀ form ∈ forms, form.Solid) {t : Text}
    (htokens : tokens numeric t = forms.flatMap Form.pieces) {previous : Char}
    (hprevious : previous ≠ '-') :
    List.IsChain (Aired '-') (previous :: operators.respace t) := by
  refine isChain_operator ?_ (by decide) ?_ ?_ [] hprevious
  · decide
  · decide
  · have hall : (javascriptOperators.map String.toList ++
        "=+-*/%&|^<>!?:".toList.map fun c => [c]).all (fun choice =>
          isRuledOut foreignSigns choice || choice == ['-'] || choice == ['-', '-'] ||
            !choice.contains '-') = true := by
      decide
    intro choice hchoice hinside
    have hcases := List.all_eq_true.mp hall choice hchoice
    simp only [Bool.or_eq_true, beq_iff_eq] at hcases
    rcases hcases with ((hout | hsingle) | hdouble) | hnone
    · exact absurd hinside (not_infix_of_isRuledOut hout (lacks_of_pieces hsolid htokens))
    · exact .inl hsingle
    · exact absurd (hdouble ▸ hinside) (not_infix_minuses hsolid htokens)
    · exact .inr (by simpa using hnone)

theorem eq_space_of_mem_collapse {t : Text} {c : Char} (hc : c ∈ t.collapse)
    (hblank : isBlank c = true) : c = ' ' := by
  rcases mem_intercalate_space hc with ⟨chunk, hchunk, hmem⟩ | hspace
  · simp [(of_mem_chunks hchunk).2.2 c hmem] at hblank
  · exact hspace

theorem postfixRule_apply {t : Text} (hplus : ¬['+', '+'] <:+: t) (hminus : ¬['-', '-'] <:+: t) :
    postfixRule.apply t = t := by
  refine @Pattern.respace_eq_self _ [['+', '+'], ['-', '-']] (by simp [Part.anyOf]) t ?_
  simp [hplus, hminus]

/-- Single spaces stand around every minus, and no text starts with one. -/
structure Tightened (w : Text) : Prop where
  chain : w.IsChain (Tight '-')
  start : headIs isBlank w = false
  space : ∀ c ∈ w, isBlank c = true → c = ' '

theorem opening_formed {forms : List Form} {t : Text} (h : Formed forms t)
    (hsolid : ∀ form ∈ forms, form.Solid) {ready : Bool} (hplaced : placed ready forms = true) :
    ∃ u, applyAll javascriptRules t = applyAll finishing (unaries.respace u) ∧
      tokens numeric u = forms.flatMap Form.pieces ∧ Tightened u := by
  have htokens := (tokens_formed h hsolid hplaced).1
  have hsafe : Pattern.isSafe numeric foreignSigns false operators = true := by decide
  have haired := Pattern.respace_respaced hsafe (lacks_of_pieces hsolid htokens)
  have hpieces : tokens numeric (operators.respace t) = forms.flatMap Form.pieces := by
    rw [← haired.tokens_eq, htokens]
  have hrejoin : applyAll rejoining (operators.respace t) = operators.respace t :=
    applyAll_eq_self rejoining_isIdle (lacks_of_pieces hsolid hpieces)
  have hcollapsed : tokens numeric (operators.respace t).collapse = forms.flatMap Form.pieces := by
    rw [tokens_collapse, hpieces]
  have hplus : ¬['+', '+'] <:+: (operators.respace t).collapse :=
    not_infix_of_isRuledOut (by decide) (lacks_of_pieces hsolid hcollapsed)
  have hchain : List.IsChain (Aired '-') (' ' :: operators.respace t) :=
    operators_minus hsolid htokens (by decide)
  obtain ⟨htight, hhead⟩ := isChain_collapse (by decide) hchain.tail
  refine ⟨(operators.respace t).collapse, ?_, hcollapsed, htight, hhead,
    fun _ => eq_space_of_mem_collapse⟩
  rw [applyAll_javascriptRules, hrejoin,
    postfixRule_apply hplus (not_infix_minuses hsolid hcollapsed)]

/-! ### The unary rule -/

theorem Tightened.tight {w : Text} (h : Tightened w) {c d : Char} (hpair : [c, d] <:+: w) :
    Tight '-' c d := by
  have hchain := List.IsChain.infix h.chain hpair
  exact List.isChain_pair.mp hchain

theorem Tightened.gap_eq {w gap : Text} (h : Tightened w) (hgap : gap.all isBlank = true)
    (hinside : gap <:+: w) : gap = [] ∨ gap = [' '] := by
  match gap with
  | [] => exact .inl rfl
  | [c] =>
      have hc := h.space c (hinside.subset List.mem_cons_self) (by simpa using hgap)
      exact .inr (by rw [hc])
  | c :: d :: cs =>
      simp only [List.all_cons, Bool.and_eq_true] at hgap
      have hpair : [c, d] <:+: w := (List.prefix_append [c, d] cs).isInfix.trans hinside
      have hsolid := (h.tight hpair).2 hgap.1
      simp [hgap.2.1] at hsolid

theorem hasNoLeftOperand_sign {s : Sign} (hleads : s.leads = true) (keywords : List String)
    (before : Text) : hasNoLeftOperand keywords (' ' :: s.char :: before) = true := by
  have hstart : isOperandStart s.char = true := by
    cases s with
    | closeArray => cases hleads
    | closeObject => cases hleads
    | openArray | openObject | comma | colon => decide
  have hplus : '+' ≠ s.char := by cases s <;> decide
  have hminus : '-' ≠ s.char := by cases s <;> decide
  simp [hasNoLeftOperand, Text.startsWith, List.isPrefixOf, hstart, hplus, hminus]

/-- The rule passes over whatever is no operator of its own. -/
theorem unaries_eq_none {c : Char} (hc : c ≠ '-') (hforeign : c ∉ foreignSigns)
    (before cs : Text) : Pattern.match? before (c :: cs) unaries = none := by
  refine unaryPattern_eq_none ?_ before cs
  simp only [foreignSigns, List.mem_cons, List.not_mem_nil, or_false, not_or] at hforeign
  simp [Ne.symm hc, Ne.symm hforeign.2.2.2.2.1, Ne.symm hforeign.2.2.2.2.2.1,
    Ne.symm hforeign.2.2.2.2.2.2]

theorem unaries_pass {stretch : Text} (hstretch : ∀ c ∈ stretch, c ≠ '-' ∧ c ∉ foreignSigns)
    (before rest : Text) :
    unaries.respaceFrom before 0 (stretch ++ rest) =
      stretch ++ unaries.respaceFrom (stretch.reverse ++ before) 0 rest :=
  Pattern.respaceFrom_of_forall
    (fun c hc => unaries_eq_none (hstretch c hc).1 (hstretch c hc).2) before rest

theorem Formed.spaces {gap : Text} (hgap : ∀ c ∈ gap, isSpace c = true) {forms : List Form}
    {t : Text} (h : Formed forms t) : Formed forms (gap ++ t) := by
  induction gap with
  | nil => exact h
  | cons c cs ih =>
      exact .space (hgap c List.mem_cons_self) (ih fun d hd => hgap d (List.mem_cons_of_mem c hd))

/-- What stands before the place a minus may come to: nothing, or a sign that leads to a value. -/
def Leads (before : Text) : Prop :=
  before = [] ∨ ∃ (s : Sign) (cs : Text), before = s.char :: cs ∧ s.leads = true

theorem Tightened.minus {w before gap gap' operand : Text} (h : Tightened w)
    (hw : before.reverse ++ (gap ++ '-' :: (gap' ++ operand)) = w)
    (hgap : gap.all isBlank = true) (hgap' : gap'.all isBlank = true)
    (hoperand : headIs isBlank operand = false) (hne : operand ≠ []) (hbefore : Leads before)
    (keywords : List String) :
    gap' = [' '] ∧ hasNoLeftOperand keywords (gap.reverse ++ before) = true := by
  subst hw
  refine ⟨?_, ?_⟩
  · have hinside : gap' <:+: before.reverse ++ (gap ++ '-' :: (gap' ++ operand)) :=
      ⟨before.reverse ++ (gap ++ ['-']), operand, by simp⟩
    refine (h.gap_eq hgap' hinside).resolve_left ?_
    rintro rfl
    -- The minus would touch its operand.
    cases operand with
    | nil => exact hne rfl
    | cons c cs =>
        have hpair : ['-', c] <:+: before.reverse ++ (gap ++ '-' :: ([] ++ c :: cs)) :=
          ⟨before.reverse ++ gap, cs, by simp⟩
        have haired := (h.tight hpair).1.1 rfl
        simp [haired] at hoperand
  · have hinside : gap <:+: before.reverse ++ (gap ++ '-' :: (gap' ++ operand)) :=
      ⟨before.reverse, '-' :: (gap' ++ operand), by simp⟩
    rcases hbefore with rfl | ⟨s, cs, rfl, hleads⟩
    · have hnil : gap = [] := by
        refine (h.gap_eq hgap hinside).resolve_right ?_
        rintro rfl
        have hstart : isBlank ' ' = false := h.start
        exact absurd hstart (by decide)
      simp [hnil, hasNoLeftOperand, Text.startsWith]
    · have hspaced : gap = [' '] := by
        refine (h.gap_eq hgap hinside).resolve_left ?_
        rintro rfl
        -- The minus would touch the sign.
        have hpair : [s.char, '-'] <:+:
            (s.char :: cs).reverse ++ ([] ++ '-' :: (gap' ++ operand)) :=
          ⟨cs.reverse, gap' ++ operand, by simp⟩
        have haired := (h.tight hpair).1.2 rfl
        simp [s.char_isBlank] at haired
      rw [hspaced]
      exact hasNoLeftOperand_sign hleads keywords cs

theorem Tightened.mem_gap {w gap : Text} (h : Tightened w) (hgap : gap.all isBlank = true)
    (hinside : gap <:+: w) :
    (∀ c ∈ gap, isSpace c = true) ∧ ∀ c ∈ gap, c ≠ '-' ∧ c ∉ foreignSigns := by
  rcases h.gap_eq hgap hinside with rfl | rfl
  · simp
  · exact ⟨List.forall_mem_singleton.mpr rfl,
      List.forall_mem_singleton.mpr ⟨by decide, by decide⟩⟩

theorem Form.Solid.mem_core {negative : Bool} {core : Text} (h : (Form.atom negative core).Solid) :
    ∀ c ∈ core, c ≠ '-' ∧ c ∉ foreignSigns := by
  intro c hc
  refine ⟨?_, not_foreign_of_numeric (h.2 c hc)⟩
  rintro rfl
  have hminus := h.2 '-' hc
  revert hminus
  decide

/-- A piece without minus stays, and so does the gap before it. -/
theorem Tightened.pass {w before t piece : Text} {toks : List Text} (h : Tightened w)
    (hsplit : before.reverse ++ t = w) (hpiece : ∀ c ∈ piece, c ≠ '-' ∧ c ∉ foreignSigns)
    (htokens : tokens numeric t = piece :: toks) :
    ∃ gap t', (∀ c ∈ gap, isSpace c = true) ∧ tokens numeric t' = toks ∧
      (piece.reverse ++ (gap.reverse ++ before)).reverse ++ t' = w ∧
      unaries.respaceFrom before 0 t = gap ++ (piece ++
        unaries.respaceFrom (piece.reverse ++ (gap.reverse ++ before)) 0 t') := by
  obtain ⟨gap, t', rfl, hgap, _, htokens'⟩ := Text.exists_of_tokens_eq_cons htokens
  have hmem := h.mem_gap hgap ⟨before.reverse, piece ++ t', by simpa using hsplit⟩
  refine ⟨gap, t', hmem.1, htokens', by simpa using hsplit, ?_⟩
  rw [unaries_pass hmem.2, unaries_pass hpiece]

/-- A minus is drawn to its number. -/
theorem Tightened.draw {w before t core : Text} {toks : List Text} (h : Tightened w)
    (hsplit : before.reverse ++ t = w) (hsolid : (Form.atom true core).Solid)
    (hbefore : Leads before) (htokens : tokens numeric t = ['-'] :: core :: toks) :
    ∃ gap before' t', (∀ c ∈ gap, isSpace c = true) ∧ tokens numeric t' = toks ∧
      before'.reverse ++ t' = w ∧
      unaries.respaceFrom before 0 t =
        gap ++ ('-' :: core ++ unaries.respaceFrom before' 0 t') := by
  obtain ⟨gap, t₁, rfl, hgap, _, htokens₁⟩ := Text.exists_of_tokens_eq_cons htokens
  obtain ⟨gap', t', rfl, hgap', _, htokens'⟩ := Text.exists_of_tokens_eq_cons htokens₁
  have hoperand : headIs startsOperand (core ++ t') = true := by
    rw [Text.headIs_append hsolid.ne_nil]
    exact hsolid.1
  have hblank : headIs isBlank (core ++ t') = false := by
    cases hcore : core with
    | nil => exact absurd hcore hsolid.ne_nil
    | cons c cs => exact numeric.isBlank_eq_false c (hsolid.2 c (by simp [hcore]))
  rw [List.singleton_append] at hsplit
  obtain ⟨rfl, hleft⟩ := h.minus hsplit hgap hgap' hblank (by simp [hsolid.ne_nil]) hbefore
    javascriptUnaryKeywords
  have hmem := h.mem_gap hgap ⟨before.reverse, '-' :: ' ' :: (core ++ t'), by simpa using hsplit⟩
  refine ⟨gap, core.reverse ++ (' ' :: '-' :: (gap.reverse ++ before)), t', hmem.1, htokens',
    by simpa using hsplit, ?_⟩
  rw [unaries_pass hmem.2, List.singleton_append, List.singleton_append, unaries,
    respaceFrom_unary hleft rfl hoperand, ← unaries, unaries_pass hsolid.mem_core,
    List.cons_append]

/-- The rule draws every minus to its number. `w` is the whole text, of which `t` is left. -/
theorem unaries_formed {w : Text} (hw : Tightened w) {forms : List Form}
    (hsolid : ∀ form ∈ forms, form.Solid) {ready : Bool} (hplaced : placed ready forms = true)
    {before t : Text} (hsplit : before.reverse ++ t = w)
    (htokens : tokens numeric t = forms.flatMap Form.pieces)
    (hbefore : ready = true → Leads before) : Formed forms (unaries.respaceFrom before 0 t) := by
  induction forms generalizing ready before t with
  | nil =>
      have hblank : t.all isBlank = true := (Text.tokens_eq_nil_iff t).mp htokens
      have hgap := hw.mem_gap hblank ⟨before.reverse, [], by simpa using hsplit⟩
      have hall := unaries_pass hgap.2 before []
      rw [List.append_nil] at hall
      rw [hall, Pattern.respaceFrom]
      exact Formed.spaces hgap.1 .nil
  | cons form forms ih =>
      have hothers : ∀ other ∈ forms, other.Solid := fun other hother =>
        hsolid other (List.mem_cons_of_mem form hother)
      have hform := hsolid form List.mem_cons_self
      rw [List.flatMap_cons] at htokens
      cases form with
      | sign s =>
          have hplain : ∀ c ∈ [s.char], c ≠ '-' ∧ c ∉ foreignSigns :=
            List.forall_mem_singleton.mpr (by cases s <;> decide)
          obtain ⟨gap, t', hgap, htokens', hsplit', hrest⟩ := hw.pass hsplit hplain htokens
          rw [hrest]
          exact Formed.spaces hgap (.form (.sign s) (ih hothers hplaced hsplit' htokens'
            fun hleads => .inr ⟨s, _, rfl, hleads⟩))
      | atom negative core =>
          simp only [placed, Bool.and_eq_true] at hplaced
          cases negative with
          | false =>
              obtain ⟨gap, t', hgap, htokens', hsplit', hrest⟩ :=
                hw.pass hsplit hform.mem_core htokens
              rw [hrest]
              exact Formed.spaces hgap (.form (.atom false core)
                (ih hothers hplaced.2 hsplit' htokens' (by simp)))
          | true =>
              obtain ⟨gap, before', t', hgap, htokens', hsplit', hrest⟩ :=
                hw.draw hsplit hform (hbefore hplaced.1) htokens
              rw [hrest]
              exact Formed.spaces hgap (.form (.atom true core)
                (ih hothers hplaced.2 hsplit' htokens' (by simp)))

/-! ### All rules -/

theorem finishing_isSafe : ∀ rule ∈ finishing, rule.isSafe signed foreignSigns = true := by
  decide

/-- The rules keep every form in one piece. -/
theorem applyAll_formed {forms : List Form} {t : Text} (h : Formed forms t)
    (hsolid : ∀ form ∈ forms, form.Solid) (hplaced : placed true forms = true) :
    tokens signed (applyAll javascriptRules t) = forms.map Form.text := by
  obtain ⟨u, hrules, hpieces, hu⟩ := opening_formed h hsolid hplaced
  have hformed : Formed forms (unaries.respace u) :=
    unaries_formed hu hsolid hplaced rfl hpieces fun _ => .inl rfl
  obtain ⟨hpieces', htexts⟩ := tokens_formed hformed hsolid hplaced
  rw [hrules, tokens_applyAll foreignSigns_isBlank finishing_isSafe
    (lacks_of_pieces hsolid hpieces'), htexts]

end SourceLayout.Json
