import SourceLayout.Proofs.Literal.Numeral
import SourceLayout.Proofs.Markup
import SourceLayout.Proofs.NormalForm
import SourceLayout.Proofs.Stability.Code

/-!
# Lines without operators

In a line of words and numbers, commas and semicolons no literal starts, and there is nothing to
tidy but the gaps at its commas and semicolons. One run sets these for good. So such a line is tidied
once and for all, and a text of such lines is formatted once and for all.
-/

namespace SourceLayout

open Text (tokens Lacks)
open Literal (mask markOpen numberLimit)

/-- The signs of operators and brackets, and those that literals and comments start with. -/
def signs : Text :=
  markOpen :: '\'' :: '"' :: '`' :: "=+-*/%&|^<>!?:~#([\x7b)]\x7d".toList

/-- A line without signs, and without numbers that have an exponent. -/
structure Text.Simple (line : Text) : Prop where
  lacks : Lacks signs line
  unscaled : line.IsChain fun c d => isDecimal c = true ∨ c = '.' → d ≠ 'e' ∧ d ≠ 'E'

namespace Spacing

/-- The rules that have something to do where there are no signs. -/
def gapRules : List Rule :=
  [collapseRule, commaRule, semicolonRule, collapseRule]

theorem keyColons_eq_self {t : Text} (ht : Lacks signs t) : keyColons t = t := by
  have hcut : cut t = ⟨t, []⟩ := by
    induction t with
    | nil => rfl
    | cons c cs ih =>
        obtain ⟨hc, hcs⟩ := List.forall_mem_cons.mp ht
        have hne : c ≠ '?' ∧ c ≠ ':' := by
          constructor <;> rintro rfl <;> exact hc (by decide)
        rw [cut]
        · rw [ih hcs]
          rfl
        all_goals simp [hne]
  rw [keyColons, hcut]
  rfl

theorem sliceColons_eq_self {t : Text} (ht : Lacks signs t) : sliceColons t = t := by
  suffices hall : ∀ stack written, ':' ∉ written →
      sliceColonsFrom stack written t = written.reverse ++ t from hall [] [] (by simp)
  induction t with
  | nil => simp [sliceColonsFrom]
  | cons c cs ih =>
      obtain ⟨hc, hcs⟩ := List.forall_mem_cons.mp ht
      have hne : c ≠ ':' := by
        rintro rfl
        exact hc (by decide)
      intro stack written hwritten
      have hhead : written.head? ≠ some ':' := fun hhead =>
        hwritten (List.mem_of_head? hhead)
      rw [sliceColonsFrom]
      simp only [hne, hhead, false_and, and_false, if_false]
      rw [ih hcs _ _ (by simp [hwritten, Ne.symm hne])]
      simp

theorem keywordArguments_eq_self {t : Text} (ht : Lacks signs t) : keywordArguments t = t := by
  have hequals : '=' ∉ t := fun hmem => ht '=' hmem (by decide)
  suffices hall : ∀ frames previous, keywordArgumentsFrom frames previous t = t from hall [] none
  induction t with
  | nil => exact fun _ _ => rfl
  | cons c cs ih =>
      intro frames previous
      rw [keywordArgumentsFrom, ih]
      · exact fun d hd => ht d (List.mem_cons_of_mem c hd)
      · exact fun hmem => hequals (List.mem_cons_of_mem c hmem)
      · rintro rest rfl rfl
        exact hequals (by simp)

/-- Whether a rule has nothing to do where there are no signs. -/
def Rule.rests (rule : Rule) : Bool :=
  match rule.action with
  | .keyColons | .sliceColons | .keywordArguments => true
  | _ => rule.isIdle signs

theorem Rule.apply_of_rests {rule : Rule} (hrests : rule.rests = true) {t : Text}
    (ht : Lacks signs t) : rule.apply t = t := by
  rw [rests] at hrests
  split at hrests
  next haction => rw [Rule.apply, haction, keyColons_eq_self ht]
  next haction => rw [Rule.apply, haction, sliceColons_eq_self ht]
  next haction => rw [Rule.apply, haction, keywordArguments_eq_self ht]
  next => exact apply_eq_self hrests ht

theorem lacks_apply (rule : Rule) {t : Text} (ht : Lacks signs t) : Lacks signs (rule.apply t) := by
  intro c hc
  rcases rule.mem_apply hc with hmem | rfl
  · exact ht c hmem
  · decide

/-- Rules that rest can be left out. -/
theorem applyAll_filter (rules : List Rule) {t : Text} (ht : Lacks signs t) :
    applyAll rules t = applyAll (rules.filter fun rule => !rule.rests) t := by
  induction rules generalizing t with
  | nil => rfl
  | cons rule rules ih =>
      have hrest : applyAll (rule :: rules) t = applyAll rules (rule.apply t) := rfl
      cases hrests : rule.rests with
      | true =>
          rw [hrest, Rule.apply_of_rests hrests ht, ih ht,
            List.filter_cons_of_neg (by simp [hrests])]
      | false =>
          rw [hrest, ih (lacks_apply rule ht), List.filter_cons_of_pos (by simp [hrests])]
          rfl

theorem filter_rules {family : Family} (hcode : family ≠ .css ∧ family ≠ .html)
    (language : Option Text) :
    (rules family language).filter (fun rule => !rule.rests) = gapRules := by
  cases family with
  | css | html => simp at hcode
  | javascript => rfl
  | python => rfl
  | cFamily =>
      rw [rules, cRules]
      split <;> rfl

theorem applyAll_rules {family : Family} (hcode : family ≠ .css ∧ family ≠ .html)
    (language : Option Text) {t : Text} (ht : Lacks signs t) :
    applyAll (rules family language) t = applyAll gapRules t := by
  rw [applyAll_filter _ ht, filter_rules hcode]

/-! ### Gaps at commas and semicolons -/

/-- Sets the gap at a comma or a semicolon. -/
def listGap (before : Text) (c : Char) (gap : Bool) : Bool :=
  closeGap before c (signGap false true ';' before c (signGap false true ',' before c
    (closeGap before c gap)))

theorem listGap_sets : Sets listGap :=
  closeGap_sets.comp ((signGap_sets false true ';').comp ((signGap_sets false true ',').comp
    closeGap_sets))

theorem applyAll_gapRules (t : Text) :
    applyAll gapRules t = render (regap listGap [] (spots t)) := by
  have hspots : spots (Text.collapse t) = regap closeGap [] (spots t) := by
    rw [collapse_eq_render, close_eq_regap, spots_render_regap]
  have hrules : applyAll gapRules t =
      Text.collapse (semicolonRule.apply (commaRule.apply (Text.collapse t))) := rfl
  rw [hrules, collapse_eq_render, close_eq_regap, spots_semicolonRule, spots_commaRule, hspots,
    regap_regap, regap_regap, regap_regap]
  rfl

/-- Gaps that have been set are set for good. -/
theorem applyAll_gapRules_again (t : Text) :
    applyAll gapRules (applyAll gapRules t) = applyAll gapRules t := by
  rw [applyAll_gapRules (applyAll gapRules t), applyAll_gapRules t, spots_render_regap,
    regap_of_settled listGap_sets.settled]

/-- With all but commas and semicolons for words, the tokens stay. -/
theorem tokens_gapRules (t : Text) :
    tokens (.except [',', ';']) (applyAll gapRules t) = tokens (.except [',', ';']) t :=
  @tokens_applyAll _ gapRules [] (by simp) (by decide) t (by simp [Lacks])

end Spacing

namespace Text.Simple

variable {family : Family} {language : Option Text} {line : Text}

theorem not_mem (h : line.Simple) {c : Char} (hc : c ∈ signs) : c ∉ line :=
  fun hmem => h.lacks c hmem hc

theorem of_infix (h : line.Simple) {part : Text} (hpart : part <:+: line) : part.Simple where
  lacks c hc := h.lacks c (hpart.subset hc)
  unscaled := List.IsChain.infix h.unscaled hpart

theorem not_infix (h : line.Simple) {c e : Char} (hc : isDecimal c = true ∨ c = '.')
    (he : e = 'e' ∨ e = 'E') : ¬[c, e] <:+: line := by
  intro hinside
  have hpair := List.IsChain.infix h.unscaled hinside
  obtain ⟨hlower, hupper⟩ := List.isChain_pair.mp hpair hc
  exact he.elim hlower hupper

/-- Two characters next to each other in one token stood so before. -/
theorem applyAll_gapRules (h : line.Simple) :
    (Spacing.applyAll Spacing.gapRules line).Simple where
  lacks := by
    intro c hc
    rcases Spacing.mem_applyAll hc with hmem | rfl
    · exact h.lacks c hmem
    · decide
  unscaled := by
    refine (List.isChain_isInfix _).imp fun c e hinside hc => ?_
    rw [← not_or]
    intro he
    have hdigit : (WordClass.except [',', ';']).has c = true := by
      rcases hc with hdecimal | rfl
      · exact Line.has_except (by decide) c (by simp [Literal.isForeign, hdecimal])
      · decide
    have hletter : (WordClass.except [',', ';']).has e = true := by
      rcases he with rfl | rfl <;> decide
    rw [← Line.has_iff_occurs] at hinside
    exact h.not_infix hc he ((Line.has_iff_occurs _ _).mp (Line.has_of_tokens (by simp)
      (by simp [hdigit, hletter]) (Spacing.tokens_gapRules line) hinside))

/-! ### Literals and comments -/

theorem exponent_eq_zero (h : line.Simple) {before rest : Text} (hrest : rest <:+: line) :
    Literal.exponent before rest = 0 := by
  cases hfind : Literal.exponent before rest with
  | zero => rfl
  | succ n =>
      obtain ⟨whole, fraction, e, sign, digits, hspan, hwhole, hfraction, he, _⟩ :=
        Literal.exponent_cases hfind
      rw [← List.append_assoc] at hspan
      have hfront : ∀ c ∈ whole ++ fraction, isDecimal c = true ∨ c = '.' := fun c hc =>
        (List.mem_append.mp hc).elim (fun hmem => .inl (hwhole c hmem))
          fun hmem => (hfraction c hmem).symm
      have hinside := (List.take_prefix (n + 1) rest).isInfix.trans hrest
      rw [hspan] at hinside
      rcases List.eq_nil_or_concat (whole ++ fraction) with hnil | ⟨others, c, hlast⟩
      · -- A number starts with a digit, and not with the letter of its exponent.
        rw [hnil] at hspan
        cases rest with
        | nil => simp at hspan
        | cons d ds =>
            obtain rfl : d = e := by simpa using congrArg List.head? hspan
            have hletter : isDecimal d = false := by rcases he with rfl | rfl <;> decide
            rw [Literal.exponent_eq_zero_of_not_decimal hletter] at hfind
            cases hfind
      · rw [List.concat_eq_append] at hlast
        rw [hlast] at hinside hfront
        have hpair : [c, e] <:+: others ++ [c] ++ e :: (sign ++ digits) :=
          ⟨others, sign ++ digits, by simp⟩
        exact absurd (hpair.trans hinside) (h.not_infix (hfront c (by simp)) he)

theorem exponent_passes (h : line.Simple) {part : Text} (hpart : part <:+: line) (before : Text) :
    Literal.exponent.Passes before part [] := by
  induction part generalizing before with
  | nil => exact Literal.Finder.passes_nil []
  | cons c cs ih =>
      refine .char (h.exponent_eq_zero ?_) (ih ((List.suffix_cons c cs).isInfix.trans hpart) _)
      rwa [List.append_nil]

theorem mask_eq (h : line.Simple) (hcode : family ≠ .css ∧ family ≠ .html)
    (language : Option Text) : mask family language line = ⟨line, []⟩ := by
  obtain ⟨later, hfinders, hlater⟩ := Literal.exists_finders hcode language
  refine Literal.mask_eq_of_run fun find hfind => ?_
  have hpasses : find.Passes [] line [] := by
    rw [hfinders, List.mem_cons, List.mem_cons] at hfind
    rcases hfind with rfl | rfl | hfind
    · refine Literal.quoted_passes (fun c hc => ?_) [] []
      have hloud : "/'\"`(\x7b\x7d".toList ⊆ signs := by decide
      have hnot := h.lacks c hc
      rw [Literal.isLoud, Bool.or_eq_false_iff, decide_eq_false_iff_not, beq_eq_false_iff_ne]
      exact ⟨fun hmem => hnot (hloud hmem), fun heq => hnot (heq ▸ List.mem_cons_self)⟩
    · exact h.exponent_passes (List.infix_refl line) []
    · rcases hlater find hfind with rfl | rfl
      · exact Literal.typeList_passes (h.not_mem (by decide)) [] []
      · refine Literal.shift_passes (fun c hc => ⟨?_, ?_⟩) [] []
        · rintro rfl
          exact h.not_mem (by decide) hc
        · rintro rfl
          exact h.not_mem (by decide) hc
  exact hpasses.maskFrom_eq []

theorem split_eq (h : line.Simple) : Comment.split family line = ⟨line, []⟩ :=
  Comment.split_eq_self (h.not_mem (by decide)) (h.not_mem (by decide))

theorem headIs_eq_false (h : line.Simple) {sign : Char} (hsign : sign ∈ signs) {t : Text}
    (ht : t ⊆ line) : headIs (· == sign) t = false := by
  cases t with
  | nil => rfl
  | cons c cs =>
      rw [headIs_cons, beq_eq_false_iff_ne]
      rintro rfl
      exact h.not_mem hsign (ht List.mem_cons_self)

theorem isBlockLine_eq_false (h : line.Simple) : Comment.isBlockLine line = false :=
  Comment.isBlockLine_eq_false (h.headIs_eq_false (by decide) (List.Subset.refl line))
    (h.headIs_eq_false (by decide) (List.Subset.refl line)) (h.headIs_eq_false (by decide) (by simp))

/-! ### Tidying -/

theorem trim (h : line.Simple) : line.trim.Simple :=
  h.of_infix (Text.trim_occurs line)

theorem tidyCode_eq (h : line.Simple) (hcode : family ≠ .css ∧ family ≠ .html)
    (language : Option Text) :
    Line.tidyCode family language line = .ok (Spacing.applyAll Spacing.gapRules line.trim) := by
  rw [Line.tidyCode]
  dsimp only
  split
  next hempty =>
      rw [List.isEmpty_iff.mp hempty]
      rfl
  next =>
      have hplain := h.trim.applyAll_gapRules.not_mem (c := markOpen) (by decide)
      rw [h.trim.mask_eq hcode, Spacing.applyAll_rules hcode language h.trim.lacks,
        Literal.restore, Literal.restoreTimes, if_neg hplain]

/-- Of a simple line only the gaps at commas and semicolons are set. -/
theorem tidy_eq (h : line.Simple) (hcode : family ≠ .css ∧ family ≠ .html)
    (language : Option Text) :
    Line.tidy family language line = .ok (Spacing.applyAll Spacing.gapRules line.trim) := by
  have hcomment : Line.isComment family line.trim = false := by
    cases family with
    | css | html => simp at hcode
    | python => rfl
    | javascript | cFamily => exact h.trim.isBlockLine_eq_false
  have htrim := (Text.trimmed_trim line).trim_eq
  have hassemble : (fun code => Line.assemble code []) = id := rfl
  rw [Line.tidy_eq, hcomment, if_neg Bool.false_ne_true, h.trim.split_eq, hassemble, Except.map_id,
    h.trim.tidyCode_eq hcode, htrim]
  rfl

theorem tidied (h : line.Simple) (hcode : family ≠ .css ∧ family ≠ .html) {out : Text}
    (htidy : Line.tidy family language line = .ok out) : out.Simple := by
  rw [h.tidy_eq hcode] at htidy
  cases htidy
  exact h.trim.applyAll_gapRules

/-- **A simple line settles** in every language of code. -/
theorem settles (h : line.Simple) (hcode : family ≠ .css ∧ family ≠ .html)
    (language : Option Text) : Line.Settles family language line := by
  intro out htidy
  have htrim := (Line.trimmed_tidy htidy).trim_eq
  rw [(h.tidied hcode htidy).tidy_eq hcode, htrim]
  rw [h.tidy_eq hcode] at htidy
  obtain rfl := Except.ok.inj htidy
  rw [Spacing.applyAll_gapRules_again]

example : Text.Simple "return x1 , a.b;".toList where
  lacks := by
    have hall : "return x1 , a.b;".toList.all (fun c => !signs.contains c) = true := by decide
    simpa [Lacks] using hall
  unscaled := by decide

theorem foldl_depthAfter (h : line.Simple) (depth : Nat) :
    line.foldl Indent.depthAfter depth = depth := by
  have hopen : '\x7b' ∉ line := h.not_mem (by decide)
  have hclose : '\x7d' ∉ line := h.not_mem (by decide)
  clear h
  induction line with
  | nil => rfl
  | cons c cs ih =>
      rw [List.mem_cons, not_or] at hopen hclose
      rw [List.foldl_cons, Indent.depthAfter, if_neg (Ne.symm hopen.1), if_neg (Ne.symm hclose.1),
        ih hopen.2 hclose.2]

theorem depthPast_eq (h : line.Simple) (hcode : family ≠ .css ∧ family ≠ .html) (depth : Nat) :
    Layout.depthPast family depth line = depth := by
  have hdirective : Indent.isDirective line.trim = false :=
    Comment.startsWith_eq_false (h.trim.headIs_eq_false (by decide) (List.Subset.refl _))
  rw [Layout.depthPast, h.trim.isBlockLine_eq_false, hdirective, Indent.advance, Literal.bareCode,
    h.trim.split_eq, h.trim.mask_eq hcode, h.trim.foldl_depthAfter]
  simp

theorem keepsDepth (h : line.Simple) (hcode : family ≠ .css ∧ family ≠ .html)
    (language : Option Text) : Layout.KeepsDepth family language line := by
  intro out htidy depth
  rw [h.depthPast_eq hcode, (h.tidied hcode htidy).depthPast_eq hcode]

end Text.Simple

/-! ### Texts of simple lines -/

theorem Layout.steady_of_simple {family : Family} {language : Option Text} {unit : IndentUnit}
    {lines out : List Text} (hcode : family ≠ .css ∧ family ≠ .html)
    (hlines : ∀ line ∈ lines, line.Simple)
    (hwidth : usesDepth family out = false → unit.Matches family)
    (hdepth : usesDepth family out = true → usesDepth family lines = true) :
    Steady family language unit lines out where
  settles line hline := (hlines line hline).settles hcode language
  width := hwidth
  depth hout := ⟨hdepth hout, fun line hline => (hlines line hline).keepsDepth hcode language⟩

/-- **A text of simple lines is formatted once and for all** by an indentation that is as wide as its
family reads it. In the C family it may be any indentation, and in JavaScript no line may be indented
before. -/
theorem format_simple_again {language : Text} {family : Family}
    (hfamily : Language.family? language = some family) (hcode : family ≠ .css ∧ family ≠ .html)
    {unit : IndentUnit} (hunit : ∀ c ∈ unit.text, isBlank c = true ∧ c ≠ '\n')
    (hmatches : family ≠ .cFamily → unit.Matches family) {text : Text} (hplain : markOpen ∉ text)
    (hlength : text.length ≤ numberLimit) (hlines : ∀ line ∈ text.lines, line.Simple)
    (hflat : family = .javascript → Indent.isFlat text.lines = true) :
    ∃ out, format (some language) unit text = .ok out ∧
      format (some language) unit out = .ok out := by
  have hbreak : '\n' ∉ unit.text := fun hmem => (hunit _ hmem).2 rfl
  obtain ⟨out, hformat⟩ := (@exists_format_iff (some language) family hfamily unit text).mpr
    (layable_of_plain family _ hplain hlength)
  refine ⟨out, hformat, (format_code_again_iff hfamily hcode hbreak hformat).mpr ?_⟩
  obtain ⟨laid, hindent, hout⟩ := (format_code_iff hfamily hcode hbreak).mp hformat
  rw [hout]
  have hsteady := @Layout.steady_of_simple family (some (Language.normalize language)) unit _
    (Layout.settle family (some (Language.normalize language)) laid) hcode hlines
  refine (hsteady (fun hwidth => hmatches ?_) fun hdepth => ?_).exists_indent hcode
    (List.all_eq_true.mpr fun c hc => (hunit c hc).1)
    (fun line hline => plain_of_mem_lines hline hplain hlength) hindent
  · rintro rfl
    cases hwidth
  · cases family with
    | javascript => exact hflat rfl
    | cFamily => rfl
    | python => cases hdepth
    | css | html => simp at hcode

end SourceLayout
