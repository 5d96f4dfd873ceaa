import SourceLayout.Proofs.Outcome
import SourceLayout.Proofs.Json.Spacing

/-!
# JSON documents survive formatting

Formatting returns a text that writes the same document as long as no string of it ends in a
backslash. The escaped backslash at the end of such a string is taken for the escape of the closing
quote, and from there on the scanner has strings and code the wrong way round.
-/

namespace SourceLayout.Json

open Literal (mark markOpen numberLimit Expands Finder lengthTo quoted exponent)
open Text (tokens)

/-! ### Restoring forms -/

theorem expands_mark {literals : List Text} {place : Nat} {span : Text}
    (hget : literals[place]? = some span) (hplain : markOpen ∉ span) :
    Expands literals literals.length (mark place) span := by
  have hlt := (List.getElem?_eq_some_iff.mp hget).1
  have hwhole := Expands.mark hlt hget (.of_plain hplain) .nil
  rwa [List.append_nil, List.append_nil] at hwhole

/-- A form stands for its token. -/
theorem Masks.expands {literals : List Text} {token : Token} {form : Form}
    (h : Masks literals true token form) (hplain : markOpen ∉ token.text) :
    Expands literals literals.length form.text token.text := by
  cases h with
  | sign s => exact .of_plain hplain
  | word w => exact .of_plain hplain
  | string hget => exact expands_mark hget hplain
  | number n _ => exact .of_plain hplain
  | @exponent n place _ hget =>
      rw [Token.text, Number.text] at hplain ⊢
      cases hnegative : n.negative with
      | false =>
          rw [hnegative] at hplain
          exact expands_mark hget hplain
      | true =>
          rw [hnegative, if_pos rfl, List.mem_cons, not_or] at hplain
          exact .char (Ne.symm hplain.1) (expands_mark hget hplain.2)

/-- A text that holds the forms of some tokens is restored to one that writes the tokens. -/
theorem exists_expands {literals : List Text} {toks : List Token} {forms : List Form}
    (h : List.Forall₂ (Masks literals true) toks forms)
    (hplain : ∀ token ∈ toks, markOpen ∉ token.text) {t : Text}
    (htokens : tokens signed t = forms.map Form.text)
    (hspace : ∀ c ∈ t, isBlank c = true → isSpace c = true) :
    ∃ o, Expands literals literals.length t o ∧ Written toks o := by
  have hgap : ∀ gap : Text, gap.all isBlank = true → markOpen ∉ gap := by
    intro gap hgap hmem
    exact absurd (List.all_eq_true.mp hgap _ hmem) (by decide)
  induction h generalizing t with
  | nil =>
      have hblank : t.all isBlank = true := (Text.tokens_eq_nil_iff t).mp htokens
      have hspaces : ∀ c ∈ t, isSpace c = true := fun c hc =>
        hspace c hc (List.all_eq_true.mp hblank c hc)
      refine ⟨t, .of_plain (hgap t hblank), ?_⟩
      simpa using Written.spaces_append hspaces .nil
  | @cons token form toks forms hmasks _ ih =>
      obtain ⟨gap, t', rfl, hblank, _, htokens'⟩ := Text.exists_of_tokens_eq_cons htokens
      obtain ⟨o, hexpands, hwritten⟩ := ih
        (fun other hother => hplain other (List.mem_cons_of_mem token hother)) htokens'
        fun c hc => hspace c (by simp [hc])
      have hform := hmasks.expands (hplain token List.mem_cons_self)
      refine ⟨gap ++ (token.text ++ o),
        (Expands.of_plain (hgap gap hblank)).append (hform.append hexpands), ?_⟩
      exact Written.spaces_append (fun c hc =>
        hspace c (by simp [hc]) (List.all_eq_true.mp hblank c hc)) (.token token hwritten)

theorem isSpace_of_mem_formed {forms : List Form} {t : Text} (h : Formed forms t)
    (hsolid : ∀ form ∈ forms, form.Solid) {c : Char} (hc : c ∈ t) (hblank : isBlank c = true) :
    isSpace c = true := by
  induction h with
  | nil => simp at hc
  | space hspace _ ih =>
      rcases List.mem_cons.mp hc with rfl | hc
      · exact hspace
      · exact ih hsolid hc
  | form form _ ih =>
      rcases List.mem_append.mp hc with hc | hc
      · have hform := hsolid form List.mem_cons_self
        cases form with
        | sign s =>
            obtain rfl := List.mem_singleton.mp hc
            simp [s.char_isBlank] at hblank
        | atom negative core =>
            have hcore : c ∉ core := fun hmem => by
              simp [numeric.isBlank_eq_false c (hform.2 c hmem)] at hblank
            cases negative with
            | false => exact absurd hc hcore
            | true =>
                rcases List.mem_cons.mp hc with rfl | hc
                · exact absurd hblank (by decide)
                · exact absurd hc hcore
      · exact ih (fun other hother => hsolid other (List.mem_cons_of_mem form hother)) hc

/-! ### One line -/

theorem Written.plain_of_mem {toks : List Token} {t : Text} (h : Written toks t)
    (hplain : markOpen ∉ t) : ∀ token ∈ toks, markOpen ∉ token.text := by
  induction h with
  | nil => simp
  | space _ _ ih => exact ih fun hmem => hplain (List.mem_cons_of_mem _ hmem)
  | token tok _ ih =>
      simp only [List.mem_append, not_or] at hplain
      simp only [List.mem_cons, forall_eq_or_imp]
      exact ⟨hplain.1, ih hplain.2⟩

theorem tidyCode_written {toks : List Token} {code out : Text} (h : Written toks code)
    (hends : ∀ s, .string s ∈ toks → ¬s.EndsInBackslash) (hplaced : wellPlaced true toks = true)
    (hplain : markOpen ∉ code) (hlength : code.length ≤ numberLimit)
    (htidy : Line.tidyCode .javascript (some "json".toList) code = .ok out) :
    Written toks out := by
  have hsub := Text.trim_sublist code
  have hplain' : markOpen ∉ code.trim := fun hmem => hplain (hsub.subset hmem)
  rw [Line.tidyCode] at htidy
  split at htidy
  next hempty =>
      have htrim := h.trim
      cases htidy
      rwa [List.isEmpty_iff.mp hempty] at htrim
  next =>
      obtain ⟨forms, literals, t, hmask, hformed, hready, hforms⟩ :=
        mask_written h.trim hends hplaced
      have hsolid := solid_of_masks hforms
      have hstands := Literal.stands_mask .javascript (some "json".toList) hplain'
      have hcount := hstands.literals_length_le
      rw [hmask] at htidy hcount
      have htexts := applyAll_formed hformed hsolid hready
      have hspace : ∀ c ∈ Spacing.applyAll Spacing.javascriptRules t, isBlank c = true →
          isSpace c = true := by
        intro c hc hblank
        rcases Spacing.mem_applyAll hc with hmem | rfl
        · exact isSpace_of_mem_formed hformed hsolid hmem hblank
        · rfl
      have hrules : Spacing.rules .javascript (some "json".toList) = Spacing.javascriptRules := rfl
      rw [hrules] at htidy
      dsimp only at htidy
      generalize Spacing.applyAll Spacing.javascriptRules t = spaced at htidy htexts hspace
      obtain ⟨o, hexpands, hwritten⟩ :=
        exists_expands hforms (h.trim.plain_of_mem hplain') htexts hspace
      have hlimit : literals.length ≤ numberLimit :=
        Nat.le_trans hcount (Nat.le_trans hsub.length_le hlength)
      have hrestore : Literal.restore ⟨spaced, literals⟩ = .ok o :=
        Expands.restore_eq hlimit hexpands
      rw [hrestore] at htidy
      cases htidy
      exact hwritten

/-- The scanner finds no comment in a line, so all of it is code. -/
theorem tidy_written {toks : List Token} {line out : Text} (h : Written toks line)
    (hends : ∀ s, .string s ∈ toks → ¬s.EndsInBackslash) (hplaced : wellPlaced true toks = true)
    (hplain : markOpen ∉ line) (hlength : line.length ≤ numberLimit)
    (htidy : Line.tidy .javascript (some "json".toList) line = .ok out) : Written toks out := by
  have hsub := Text.trim_sublist line
  have hcomment : Line.isComment .javascript line.trim = false := isBlockLine_written h.trim
  have hsplit : Comment.split .javascript line.trim = ⟨line.trim, []⟩ := by
    rw [Comment.split, Comment.start?, startFrom_written h.trim hends]
  rw [Line.tidy_eq, hcomment, if_neg (by simp), hsplit] at htidy
  obtain ⟨code, hcode, rfl⟩ := exists_of_map_eq_ok htidy
  have hplain' : markOpen ∉ line.trim := fun hmem => hplain (hsub.subset hmem)
  exact tidyCode_written h.trim hends hplaced hplain' (Nat.le_trans hsub.length_le hlength) hcode

/-! ### All lines -/

section Document

variable {unit : IndentUnit}

theorem laid_written (hunit : ∀ c ∈ unit.text, isSpace c = true) {toks : List Token}
    {line out : Text} (h : Written toks line)
    (hends : ∀ s, .string s ∈ toks → ¬s.EndsInBackslash) (hplaced : wellPlaced true toks = true)
    (hplain : markOpen ∉ line) (hlength : line.length ≤ numberLimit)
    (hlaid : Layout.Laid .javascript (some "json".toList) unit line out) : Written toks out := by
  cases hlaid with
  | blank hblank =>
      rw [h.eq_nil_of_blank hblank]
      exact .nil
  | directive hfamily => cases hfamily
  | tidied level _ htidy =>
      rw [Layout.indented_eq]
      refine Written.spaces_append (fun c hc => ?_)
        (tidy_written h hends hplaced hplain hlength htidy)
      rcases Layout.mem_margin hc with hmem | rfl
      · exact hunit c hmem
      · rfl

theorem isMarked_written {toks : List Token} {line : Text} (h : Written toks line) :
    Comment.isMarked (Family.javascript.commentMarker?.getD "//".toList) line.trim = false := by
  have hslash : headIs (· == '/') line.trim = false :=
    (headIs_written (by decide) (by decide) (by decide) h.trim).1
  have hstart : line.trim.startsWith "//".toList = false := Comment.startsWith_eq_false hslash
  have hmarker : Family.javascript.commentMarker?.getD "//".toList = "//".toList := rfl
  rw [hmarker, Comment.isMarked, hstart, Bool.false_and]

/-- The structural pass finds no comments to move and takes out blank lines only. -/
theorem settle_written {parts : List (List Token)} {lines : List Text}
    (h : List.Forall₂ Written parts lines) :
    ∃ parts', parts'.flatten = parts.flatten ∧
      List.Forall₂ Written parts' (Layout.settle .javascript (some "json".toList) lines) := by
  obtain ⟨kept, hthinned, hsettle⟩ :=
    @Layout.settle_cases .javascript (by decide) (some "json".toList) lines
  obtain ⟨parts', hflatten, hkept⟩ := Written.thinned h hthinned
  refine ⟨parts', hflatten, ?_⟩
  rcases hsettle with hsettle | hsettle
  · rwa [hsettle]
  · rw [hsettle, Layout.align_eq_self]
    · exact hkept
    · intro line hline
      obtain ⟨part, hpart⟩ := Written.exists_of_mem hkept hline
      exact isMarked_written hpart

theorem indent_written (hunit : ∀ c ∈ unit.text, isSpace c = true) {parts : List (List Token)}
    {lines laid : List Text} (h : List.Forall₂ Written parts lines)
    (hends : ∀ s, .string s ∈ parts.flatten → ¬s.EndsInBackslash)
    (hplaced : ∀ part ∈ parts, wellPlaced true part = true)
    (hlines : ∀ line ∈ lines, markOpen ∉ line ∧ line.length ≤ numberLimit)
    (hlaid : List.Forall₂ (Layout.Laid .javascript (some "json".toList) unit) lines laid) :
    List.Forall₂ Written parts laid := by
  induction h generalizing laid with
  | nil =>
      cases hlaid
      exact .nil
  | @cons part line parts lines hline _ ih =>
      cases hlaid with
      | cons hfirst hrest =>
          obtain ⟨hplain, hlength⟩ := hlines line List.mem_cons_self
          rw [List.flatten_cons] at hends
          refine .cons ?_ (ih ?_ ?_ ?_ hrest)
          · exact laid_written hunit hline (fun s hs => hends s (List.mem_append_left _ hs))
              (hplaced part List.mem_cons_self) hplain hlength hfirst
          · exact fun s hs => hends s (List.mem_append_right _ hs)
          · exact fun other hother => hplaced other (List.mem_cons_of_mem part hother)
          · exact fun other hother => hlines other (List.mem_cons_of_mem line hother)

theorem family?_json : Language.family? ((some "json".toList).getD []) = some .javascript := by
  decide +kernel

theorem normalize_json : Language.normalize ((some "json".toList).getD []) = "json".toList := by
  decide +kernel

theorem format_written (hunit : ∀ c ∈ unit.text, isSpace c = true) {toks : List Token} {text : Text}
    (h : Written toks text) (hends : ∀ s, .string s ∈ toks → ¬s.EndsInBackslash)
    (hplaced : wellPlaced true toks = true) (hplain : markOpen ∉ text)
    (hlength : text.length ≤ numberLimit) :
    ∃ out, format (some "json".toList) unit text = .ok out ∧ Written toks out := by
  obtain ⟨out, hformat⟩ := (exists_format_iff family?_json unit text).mpr
    (layable_of_plain .javascript _ hplain hlength)
  obtain ⟨laid, hindent, rfl⟩ := (format_eq_ok_iff family?_json).mp hformat
  refine ⟨_, hformat, ?_⟩
  rw [normalize_json] at hindent ⊢
  obtain ⟨parts, rfl, hparts⟩ := h.lines
  have hlaid := indent_written hunit hparts hends (wellPlaced_of_flatten hplaced)
    (fun line hline => plain_of_mem_lines hline hplain hlength) (Layout.laid_of_indent hindent)
  obtain ⟨parts', hflatten, hsettled⟩ := settle_written hlaid
  rw [← hflatten]
  exact (Written.ofLines hsettled).collapseFrom 0

end Document

/-! ### Documents -/

/-- Whatever text writes the document, formatting it under any options succeeds, with a text that
writes the document again. Texts with marks of their own are left out, and texts far longer than any
that can be addressed. -/
def Tree.Survives [Machine] (tree : Tree) : Prop :=
  ∀ text, tree.Writes text → markOpen ∉ text → text.length ≤ numberLimit →
    ∀ spaces tabSize unit, Options.unitOf spaces tabSize = .ok unit →
      ∃ out, format (some "json".toList) unit text = .ok out ∧ tree.Writes out

theorem isSpace_of_unitOf [Machine] {spaces : Bool} {tabSize : Value} {unit : IndentUnit}
    (hunit : Options.unitOf spaces tabSize = .ok unit) : ∀ c ∈ unit.text, isSpace c = true := by
  rcases (Options.unitOf_eq_ok hunit).1 with htext | htext
  · rw [htext]
    exact List.forall_mem_singleton.mpr rfl
  · rw [htext]
    exact List.forall_mem_singleton.mpr rfl

theorem Tree.survives [Machine] {tree : Tree}
    (hends : ∀ s, .string s ∈ tree.tokens → ¬s.EndsInBackslash) : tree.Survives :=
  fun _ hwrites hplain hlength _ _ _ hunit =>
    format_written (isSpace_of_unitOf hunit) hwrites hends tree.wellPlaced_tokens hplain hlength

/-! ### A string that ends in a backslash -/

/-- A string with a run of blanks in it. -/
def blankRun : Str :=
  [.plain 'a' (by decide), .plain ' ' (by decide), .plain ' ' (by decide), .plain ' ' (by decide),
    .plain 'b' (by decide)]

/-- A string, and then one with a run of blanks. -/
def pair (s : Str) : Tree :=
  .array [.string s, .string blankRun]

/-- What the scanner takes for a string if the first one ends in a backslash. -/
def overrun (s : Str) : Text :=
  '"' :: (s.body ++ ['"', ',', ' ', '"'])

def pairText (s : Str) : Text :=
  '[' :: (overrun s ++ ['a', ' ', ' ', ' ', 'b', '"', ']'])

/-- The blanks in the second string are taken for code. -/
def pairResult (s : Str) : Text :=
  '[' :: (overrun s ++ (['a', ' ', 'b'] ++ ['"', ']']))

theorem pair_writes (s : Str) : (pair s).Writes (pairText s) := by
  have hclosed : Written [.sign .closeArray] [']'] := .token (.sign .closeArray) .nil
  have hsecond := Written.token (.string blankRun) hclosed
  have hcomma := Written.token (.sign .comma) (.space (c := ' ') rfl hsecond)
  have hfirst := Written.token (.sign .openArray) (.token (.string s) hcomma)
  simpa [Tree.Writes, pair, Tree.tokens, itemTokens, pairText, overrun, Token.text, Str.text,
    Str.body, Sign.char, blankRun, StringPart.text] using hfirst

section Overrun

variable {s : Str}

theorem lengthTo_overrun (hends : s.EndsInBackslash) :
    lengthTo '"' '"' (s.body ++ ['"', ',', ' ', '"'] ++ ['a', ' ', ' ', ' ', 'b', '"', ']']) =
      s.body.length + 4 := by
  have hlast : s.body.getLast?.getD '"' = '\\' := by rw [hends, Option.getD_some]
  rw [List.append_assoc, s.lengthTo_append, hlast]
  rfl

theorem split_pairText (hends : s.EndsInBackslash) :
    Comment.split .javascript (pairText s) = ⟨pairText s, []⟩ := by
  have hinside := @startFrom_inside .javascript '"' '"' (s.body ++ ['"', ',', ' ', '"'])
    ['a', ' ', ' ', ' ', 'b', '"', ']'] (by rw [lengthTo_overrun hends]; simp) fun _ => rfl
  have hquote : Comment.startFrom .javascript (some '[') none
      (overrun s ++ ['a', ' ', ' ', ' ', 'b', '"', ']']) = none := by
    simpa [overrun, Comment.startFrom, Family.opensComment, Family.literalEnd?,
      Family.quotes] using hinside
  have hnone : Comment.start? .javascript (pairText s) = none :=
    startFrom_cons (by decide) hquote none
  rw [Comment.split, hnone]

/-- The scanner masks the overrun and the rest of the line, but not the blanks between. -/
def pairMask : Text :=
  '[' :: (mark 0 ++ (['a', ' ', ' ', ' ', 'b'] ++ mark 1))

theorem quoted_pairText (hends : s.EndsInBackslash) :
    (quoted .javascript).run ⟨pairText s, []⟩ = ⟨pairMask, [overrun s, ['"', ']']]⟩ := by
  have hfirst : ∀ before, quoted .javascript before
      (overrun s ++ ['a', ' ', ' ', ' ', 'b', '"', ']']) = (overrun s).length := by
    intro before
    have hlength := lengthTo_overrun hends
    simp only [List.append_assoc, List.cons_append, List.nil_append] at hlength
    simp [quoted, overrun, Family.literalEnd?, Family.quotes, hlength]
  have hbetween : ∀ c ∈ ['a', ' ', ' ', ' ', 'b'], ∀ before rest,
      quoted .javascript before (c :: rest) = 0 := by
    intro c hc before rest
    have hall : ['a', ' ', ' ', ' ', 'b'].all (fun c => !isDelimiter c) = true := by decide
    exact quoted_eq_zero (by simpa using List.all_eq_true.mp hall c hc) before rest
  have hlast : ∀ before, quoted .javascript before ['"', ']'] = 2 := fun _ => rfl
  have hrest : ∀ before, (quoted .javascript).maskFrom before 0
      (['a', ' ', ' ', ' ', 'b'] ++ ['"', ']']) [overrun s] =
        ⟨['a', ' ', ' ', ' ', 'b'] ++ mark 1, [overrun s, ['"', ']']]⟩ := by
    intro before
    rw [Finder.maskFrom_of_forall hbetween]
    have hfound := @Finder.maskFrom_found (quoted .javascript) 
      (['a', ' ', ' ', ' ', 'b'].reverse ++ before) [overrun s] ['"', ']'] [] (by simp) (hlast _)
    rw [List.append_nil] at hfound
    rw [hfound]
    simp [Finder.maskFrom, Literal.Masked.prepend]
  rw [Finder.run, pairText, Finder.maskFrom_cons (quoted_eq_zero (by decide) _ _),
    Finder.maskFrom_found (by simp [overrun]) (hfirst _)]
  have hsplit : ['a', ' ', ' ', ' ', 'b', '"', ']'] = ['a', ' ', ' ', ' ', 'b'] ++ ['"', ']'] := rfl
  rw [hsplit, List.nil_append, hrest]
  rfl

theorem mask_pairText (hends : s.EndsInBackslash) :
    Literal.mask .javascript (some "json".toList) (pairText s) =
      ⟨pairMask, [overrun s, ['"', ']']]⟩ := by
  have hnone : ∀ i < pairMask.length,
      exponent ((pairMask.take i).reverse ++ []) (pairMask.drop i ++ []) = 0 := by
    decide +kernel
  have hpass := @Finder.maskFrom_pass exponent [] [overrun s, ['"', ']']] pairMask [] hnone
  rw [List.append_nil] at hpass
  rw [Literal.mask, finders_json, List.foldl_cons, quoted_pairText hends, List.foldl_cons,
    List.foldl_nil, Finder.run, hpass]
  simp [Finder.maskFrom, Literal.Masked.prepend]

/-- What stands between the marks loses its blanks. -/
theorem applyAll_pairMask :
    Spacing.applyAll Spacing.javascriptRules pairMask =
      '[' :: (mark 0 ++ (['a', ' ', 'b'] ++ mark 1)) := by
  decide +kernel

theorem restore_pairText (hplain : markOpen ∉ s.text) :
    Literal.restore ⟨'[' :: (mark 0 ++ (['a', ' ', 'b'] ++ mark 1)), [overrun s, ['"', ']']]⟩ =
      .ok (pairResult s) := by
  have hbody : markOpen ∉ s.body := fun hmem => hplain (by simp [Str.text, hmem])
  have hoverrun : markOpen ∉ overrun s := by
    simp only [overrun, List.mem_cons, List.mem_append, hbody, List.not_mem_nil]
    decide
  have hlimit : 2 ≤ numberLimit := Nat.le_trans (by decide) Literal.addressLimit_le
  refine Expands.restore_eq hlimit (.char (by decide) ?_)
  exact (expands_mark rfl hoverrun).append
    ((Expands.of_plain (by decide)).append (expands_mark rfl (by decide)))

theorem trim_pairText (s : Str) : (pairText s).trim = pairText s := by
  refine Text.trim_eq_self rfl ?_
  simp only [pairText, overrun, List.reverse_cons, List.reverse_append]
  rfl

theorem tidy_pairText (hends : s.EndsInBackslash) (hplain : markOpen ∉ s.text) :
    Line.tidy .javascript (some "json".toList) (pairText s) = .ok (pairResult s) := by
  have hcomment : Line.isComment .javascript (pairText s) = false :=
    isBlockLine_written (pair_writes s)
  have hcode : Line.tidyCode .javascript (some "json".toList) (pairText s) =
      .ok (pairResult s) := by
    have hrules : Spacing.rules .javascript (some "json".toList) = Spacing.javascriptRules := rfl
    have hempty : (pairText s).isEmpty = false := rfl
    rw [Line.tidyCode, trim_pairText, hempty, if_neg (by simp), mask_pairText hends, hrules]
    dsimp only
    rw [applyAll_pairMask, restore_pairText hplain]
  rw [Line.tidy_eq, trim_pairText, hcomment, if_neg (by simp), split_pairText hends, hcode]
  rfl

theorem lines_pairText (s : Str) : (pairText s).lines = [pairText s] := by
  refine Layout.lines_eq_self fun hmem => ?_
  have hbody : '\n' ∈ s.text := by
    simpa [pairText, overrun, Str.text] using hmem
  exact absurd (s.toNat_le hbody) (by decide)

/-- The line stands at the margin, and nothing comes before or after it. -/
theorem indent_pairText (hends : s.EndsInBackslash) (hplain : markOpen ∉ s.text)
    (unit : IndentUnit) :
    Layout.indent .javascript (some "json".toList) unit (pairText s).lines =
      .ok [pairResult s] := by
  have hdepth : Layout.usesDepth .javascript [pairText s] = true := rfl
  have hlay : Layout.layAt .javascript (some "json".toList) unit 0 (pairText s) =
      .ok (pairResult s) := by
    have hempty : (pairText s).isEmpty = false := rfl
    rw [Layout.layAt, trim_pairText, hempty, if_neg (by simp), if_neg (by simp),
      tidy_pairText hends hplain]
    exact congrArg Except.ok (Layout.indented_margin rfl)
  rw [lines_pairText, Layout.indent, hdepth, if_pos rfl, Layout.byDepth]
  exact Layout.byDepthFrom_cons_eq_ok.mpr ⟨_, [], hlay, rfl, rfl⟩

theorem settle_singleton (line : Text) :
    Layout.settle .javascript (some "json".toList) [line] = [line] := by
  cases hblank : line.isEmptyLine <;>
    simp [Layout.settle, Layout.squeeze, Layout.squeezeFrom, Layout.dropBetweenBraces,
      Layout.dropBetweenBracesFrom, Layout.align, Layout.Aligned.push, hblank]

theorem Written.length_le {toks : List Token} {t : Text} (h : Written toks t) :
    (toks.flatMap Token.text).length ≤ t.length := by
  induction h with
  | nil => exact Nat.le_refl 0
  | space _ _ ih =>
      rw [List.length_cons]
      omega
  | token tok _ ih =>
      rw [List.flatMap_cons, List.length_append, List.length_append]
      omega

/-- What formatting returns is too short to hold both strings. -/
theorem not_survives [Machine] (hends : s.EndsInBackslash) (hplain : markOpen ∉ s.text)
    (hlength : s.text.length ≤ Options.addressLimit) : ¬(pair s).Survives := by
  intro hsurvives
  have hsize : s.text.length = s.body.length + 2 := by simp [Str.text]
  have hplain' : markOpen ∉ pairText s := by
    have hbody : markOpen ∉ s.body := fun hmem => hplain (by simp [Str.text, hmem])
    simp only [pairText, overrun, List.mem_cons, List.mem_append, hbody, List.not_mem_nil]
    decide
  have hlength' : (pairText s).length ≤ numberLimit := by
    have hlimit := Literal.addressLimit_le
    have hsmall : 11 ≤ Options.addressLimit := by decide
    have hwhole : (pairText s).length = s.body.length + 13 := by simp [pairText, overrun]
    omega
  obtain ⟨out, hformat, hwrites⟩ :=
    hsurvives _ (pair_writes s) hplain' hlength' false (.int 1) { text := ['\t'] } rfl
  obtain ⟨laid, hindent, rfl⟩ := (format_eq_ok_iff family?_json).mp hformat
  rw [normalize_json, indent_pairText hends hplain] at hindent
  cases hindent
  rw [normalize_json, settle_singleton] at hwrites
  have hshort := (Layout.collapseFrom_sublist 0 (Text.ofLines [pairResult s])).length_le
  have hlong := Written.length_le hwrites
  have hout : (Text.ofLines [pairResult s]).length = s.body.length + 11 := by
    simp [Text.ofLines, List.intercalate, pairResult, overrun]
  have htokens : ((pair s).tokens.flatMap Token.text).length = s.body.length + 12 := by
    simp [pair, Tree.tokens, itemTokens, Token.text, Str.text, Str.body, blankRun, StringPart.text]
  rw [htokens] at hlong
  rw [hout] at hshort
  exact absurd (Nat.le_trans hlong hshort) (by omega)

end Overrun

/-- **JSON documents survive formatting** for as long as no string ends in a backslash, and none
that does can be let in. -/
theorem survives_iff [Machine] (s : Str) (hplain : markOpen ∉ s.text)
    (hlength : s.text.length ≤ Options.addressLimit) :
    (∀ tree : Tree, (∀ t, .string t ∈ tree.tokens → t = s ∨ ¬t.EndsInBackslash) →
      tree.Survives) ↔ ¬s.EndsInBackslash := by
  constructor
  · intro hall hends
    refine not_survives hends hplain hlength (hall (pair s) fun t ht => ?_)
    have hblank : ¬blankRun.EndsInBackslash := by
      simp only [Str.EndsInBackslash, blankRun, Str.body]
      decide
    simp only [pair, Tree.tokens, itemTokens, List.isEmpty_cons, List.isEmpty_nil, if_true,
      Bool.false_eq_true, if_false, List.mem_cons, List.mem_append, List.not_mem_nil, or_false,
      reduceCtorEq, false_or, Token.string.injEq] at ht
    rcases ht with rfl | rfl
    · exact .inl rfl
    · exact .inr hblank
  · intro hends tree hstrings
    refine Tree.survives fun t ht => ?_
    rcases hstrings t ht with rfl | hnot
    · exact hends
    · exact hnot

/-- Two backslashes are a string that ends in one. -/
theorem survives_iff_backslash :
    ¬∀ tree : Tree, (∀ t : Str, .string t ∈ tree.tokens →
      t = [.escape '\\' rfl] ∨ ¬t.EndsInBackslash) → tree.Survives := by
  rw [survives_iff [.escape '\\' rfl] (by decide) (by decide), not_not]
  rfl

end SourceLayout.Json
