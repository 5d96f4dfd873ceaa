import SourceLayout.Proofs.Pieces
import SourceLayout.Proofs.Spacing.Drawn

/-!
# Brackets and commas in Python

The comma rule leaves a gap after every comma and the bracket rules leave none inside of a bracket
next to it. All other rules after the comma rule only take gaps away, so the brackets stay as they
are, and it is enough to know where each rule takes a gap away: before a semicolon, before the
parenthesis of a call, inside of a bracket, next to the colon of a slice and around the equals sign
of a keyword argument. Of these the semicolon, the closing bracket, the colon and the equals sign may
come right after a comma.
-/

namespace SourceLayout

namespace Spacing

open Text (solid)

/-- What may come right after a comma, by the innermost bracket that is open there. -/
def touchesComma (innermost : Option Char) (c : Char) : Bool :=
  isClosing c || c == ';' || (c == ':' && innermost == some '[') ||
    (c == '=' && innermost == some '(')

/-! ### Spots -/

/-- A gap that is not inside of a bracket next to it, and that is there after a comma unless
something may come right after it. -/
structure Normal (before : Text) (c : Char) (gap : Bool) : Prop where
  opened : headIs isOpening before = true → gap = false
  closed : isClosing c = true → gap = false
  comma : headIs (· == ',') before = true → gap = true ∨ touchesComma (innermost? before) c = true

theorem normal_false {before : Text} {c : Char}
    (htouches : headIs (· == ',') before = true → touchesComma (innermost? before) c = true) :
    Normal before c false where
  opened _ := rfl
  closed _ := rfl
  comma hcomma := .inr (htouches hcomma)

theorem headIs_eq_false_of_beq {q : Char → Bool} {before : Text} {c : Char} (hq : q c = false)
    (hc : headIs (· == c) before = true) : headIs q before = false := by
  cases before with
  | nil => rfl
  | cons b bs =>
      rw [headIs_cons, beq_iff_eq] at hc
      rw [headIs_cons, hc, hq]

theorem Normal.sliceGap {before : Text} {c : Char} {gap : Bool} (h : Normal before c gap) :
    Normal before c (sliceGap before c gap) := by
  rw [Spacing.sliceGap]
  cases hslice : innermost? before == some '[' && (c == ':' || headIs (· == ':') before) with
  | false => rwa [Bool.not_false, Bool.and_true]
  | true =>
      rw [Bool.not_true, Bool.and_false]
      refine normal_false fun hcomma => ?_
      rw [headIs_eq_false_of_beq (by decide) hcomma, Bool.or_false, Bool.and_eq_true] at hslice
      simp [touchesComma, hslice]

theorem Normal.keyword {before : Text} {c : Char}
    (hlost : c = '=' ∧ innermost? before = some '(' ∨ headIs (· == '=') before = true) :
    Normal before c false := by
  refine normal_false fun hcomma => ?_
  rcases hlost with ⟨rfl, hinside⟩ | hequals
  · simp [touchesComma, hinside]
  · rw [headIs_eq_false_of_beq (by decide) hcomma] at hequals
    cases hequals

/-- The gaps of a text after the comma rule and the semicolon rule. -/
theorem everywhere_comma (list : List Spot) :
    Everywhere (fun before c gap => headIs (· == ',') before = true → c ≠ ';' → gap = true) []
      (regap (signGap false true ';') [] (regap (signGap false true ',') [] list)) := by
  rw [everywhere_regap, everywhere_regap]
  refine everywhere_of_forall (fun before c gap hcomma hne => ?_) [] list
  have hsemicolon := @headIs_eq_false_of_beq (· == ';') before ',' (by decide) hcomma
  simp [signGap, hne, hsemicolon, hcomma]

/-- Gaps after the bracket rules, collapsed. -/
def bracketGap (before : Text) (c : Char) (gap : Bool) : Bool :=
  closeGap before c (closedGap before c (openedGap before c gap))

/-- Drawn to their neighbours, brackets have no gap inside, and commas keep their gaps. -/
theorem normal_bracketGap {before : Text} {c : Char} {gap : Bool}
    (hcomma : headIs (· == ',') before = true → c ≠ ';' → gap = true) :
    Normal before c (bracketGap before c gap) where
  opened hopening := by simp [bracketGap, closeGap, closedGap, openedGap, hopening]
  closed hclosing := by simp [bracketGap, closeGap, closedGap, hclosing]
  comma hhead := by
    by_cases htouches : isClosing c = true ∨ c = ';'
    · refine .inr ?_
      rcases htouches with hclosing | hsemicolon
      · simp [touchesComma, hclosing]
      · simp [touchesComma, hsemicolon]
    · rw [not_or, Bool.not_eq_true] at htouches
      have hopening := headIs_eq_false_of_beq (by decide : isOpening ',' = false) hhead
      have hne : before ≠ [] := by
        rintro rfl
        cases hhead
      left
      simp [bracketGap, closeGap, closedGap, openedGap, hcomma hhead htouches.2, htouches.1, hopening, hne]

/-- The rules for Python end with those that set the gaps at commas and those that take gaps away. -/
theorem exists_applyAll_python (language : Option Text) (t : Text) :
    ∃ earlier : Text, applyAll (rules .python language) t =
      keywordArguments (sliceColons (Text.collapse (closedPattern.respace (openedPattern.respace
        ((callPattern (pythonKeywords.map String.toList)).respace
          (semicolonRule.apply (commaRule.apply earlier))))))) := by
  have hlast : pythonRules.drop 12 =
      [commaRule, semicolonRule,
        callRule "python-call-tight" "No space between a callable and its argument list"
          pythonKeywords,
        .pattern "python-open-bracket" "No space after an opening bracket" openedPattern,
        .pattern "python-close-bracket" "No space before a closing bracket" closedPattern,
        collapseRule,
        ⟨"python-slice-colon", "Remove spaces around colons directly inside square brackets",
          .sliceColons⟩,
        ⟨"python-keyword-argument", "Drop spaces around '=' for keyword arguments inside parentheses",
          .keywordArguments⟩] := rfl
  refine ⟨applyAll (pythonRules.take 12) t, ?_⟩
  rw [rules, ← List.take_append_drop 12 pythonRules, applyAll_append, List.take_append_drop, hlast]
  generalize applyAll (pythonRules.take 12) t = earlier
  rfl

theorem spots_commaRule (t : Text) :
    spots (commaRule.apply t) = regap (signGap false true ',') [] (spots t) :=
  spots_respace_sign (by decide) false true t

theorem spots_semicolonRule (t : Text) :
    spots (semicolonRule.apply t) = regap (signGap false true ';') [] (spots t) :=
  spots_respace_sign (by decide) false true t

theorem exists_spots_python (language : Option Text) (t : Text) :
    ∃ list, (∀ spot ∈ list, isBlank spot.char = false) ∧
      applyAll (rules .python language) t = render list ∧ Everywhere Normal [] list := by
  obtain ⟨earlier, hrules⟩ := exists_applyAll_python language t
  have hcomma := everywhere_comma (spots earlier)
  rw [← spots_commaRule, ← spots_semicolonRule] at hcomma
  generalize semicolonRule.apply (commaRule.apply earlier) = spaced at hrules hcomma
  have hcall := @everywhere_callPattern (pythonKeywords.map String.toList) _
    (fun before hword _ hhead _ => by
      rw [headIs_eq_false_of_beq (by decide) hhead] at hword
      cases hword) [] [] spaced false hcomma
  rw [← Pattern.respace, ← spots] at hcall
  generalize (callPattern _).respace spaced = called at hrules hcall
  rw [collapse_eq_render, close_eq_regap, spots_closedPattern, spots_openedPattern, regap_regap,
    regap_regap] at hrules
  change _ = keywordArguments (sliceColons (render (regap bracketGap [] (spots called)))) at hrules
  have hbrackets : Everywhere Normal [] (regap bracketGap [] (spots called)) :=
    everywhere_regap.mpr (hcall.imp fun _ _ _ => normal_bracketGap)
  have hsolid : ∀ spot ∈ regap bracketGap [] (spots called), isBlank spot.char = false :=
    fun _ => isBlank_of_mem_regap fun _ => isBlank_of_mem_spotsFrom
  generalize regap bracketGap [] (spots called) = list at hrules hbrackets hsolid
  have hslices : Everywhere Normal [] (regap sliceGap [] list) :=
    everywhere_regap.mpr (hbrackets.imp fun _ _ _ => Normal.sliceGap)
  have hkept : ∀ spot ∈ regap sliceGap [] list, isBlank spot.char = false :=
    fun _ => isBlank_of_mem_regap hsolid
  rw [sliceColons_render hsolid, keywordArguments_render hkept] at hrules
  refine ⟨_, fun _ => isBlank_of_mem_keywordSpots hkept, hrules, hslices.keywordSpots ?_ rfl none (by simp)⟩
  exact fun _ _ hlost _ => Normal.keyword hlost

/-! ### Texts -/

theorem render_append (left right : List Spot) :
    render (left ++ right) = render left ++ render right := by
  induction left with
  | nil => rfl
  | cons spot rest ih => rw [List.cons_append, render_cons, render_cons, ih, List.append_assoc]; rfl

/-- A rendered text is cut at a character where its spots are. -/
theorem exists_append_of_render {list : List Spot} {left right : Text} {c : Char}
    (hc : isBlank c = false) (hlist : render list = left ++ c :: right) :
    ∃ front gap back, list = front ++ ⟨gap, c⟩ :: back ∧ left = render front ++ space gap ∧
      right = render back := by
  induction list generalizing left with
  | nil => simp [render] at hlist
  | cons spot rest ih =>
      obtain ⟨gap, d⟩ := spot
      rw [render_cons] at hlist
      rcases List.append_eq_append_iff.mp hlist with ⟨between, hleft, hrest⟩ | ⟨between, hgap, hrest⟩
      · cases between with
        | nil =>
            rw [List.nil_append, List.cons.injEq] at hrest
            obtain ⟨rfl, rfl⟩ := hrest
            exact ⟨[], gap, rest, rfl, by simpa [render] using hleft, rfl⟩
        | cons e between =>
            rw [List.cons_append, List.cons.injEq] at hrest
            obtain ⟨rfl, hrest⟩ := hrest
            obtain ⟨front, gap', back, rfl, rfl, rfl⟩ := ih hrest
            exact ⟨⟨gap, d⟩ :: front, gap', back, rfl, by simp [render_cons, hleft], rfl⟩
      · cases between with
        | nil =>
            rw [List.nil_append, List.cons.injEq] at hrest
            obtain ⟨rfl, rfl⟩ := hrest
            exact ⟨[], gap, rest, rfl, by simpa [render] using hgap.symm, rfl⟩
        | cons e between =>
            rw [List.cons_append, List.cons.injEq] at hrest
            have hmem : c ∈ space gap := by
              rw [hgap, hrest.1]
              exact List.mem_append_right left List.mem_cons_self
            rw [List.all_eq_true.mp (space_all_isBlank gap) c hmem] at hc
            cases hc

theorem headIs_reverse_render {list : List Spot} (hsolid : ∀ spot ∈ list, isBlank spot.char = false) :
    headIs isBlank (render list).reverse = false := by
  cases list using List.reverseRecOn with
  | nil => rfl
  | append_singleton front spot =>
      have hspot := hsolid spot (List.mem_append_right front List.mem_cons_self)
      rw [render_append, render_cons]
      simpa [render] using hspot

/-- A text whose brackets have no blank inside next to them and whose commas are followed by one
space, or by something that may come right after a comma, or by nothing. -/
structure Regular (t : Text) : Prop where
  opened : ∀ left c right, t = left ++ c :: right → isOpening c = true →
    headIs isBlank right = false
  closed : ∀ left c right, t = left ++ c :: right → isClosing c = true →
    headIs isBlank left.reverse = false
  comma : ∀ left right, t = left ++ ',' :: right → right = [] ∨
    (∃ c rest, right = c :: rest ∧ touchesComma (openBrackets left).head? c = true) ∨
      ∃ c rest, right = ' ' :: c :: rest ∧ isBlank c = false

theorem openBrackets_render {front : List Spot} (hsolid : ∀ spot ∈ front, isBlank spot.char = false)
    (gap : Bool) : openBrackets (render front ++ space gap) = openBrackets (front.map Spot.char) := by
  have hfront : solid (render front) = front.map Spot.char := by
    rw [← map_char_spotsFrom false, ← spots, spotsFrom_render hsolid]
  have hspace : solid (space gap) = [] := by
    cases gap <;> rfl
  rw [← openBrackets_solid, solid, List.filter_append, ← solid, ← solid, hfront, hspace,
    List.append_nil]

theorem regular_of_normal {list : List Spot} (hsolid : ∀ spot ∈ list, isBlank spot.char = false)
    (hnormal : Everywhere Normal [] list) : Regular (render list) where
  opened left c right hrender hopening := by
    obtain ⟨front, gap, back, rfl, _, rfl⟩ :=
      exists_append_of_render (isBlank_of_isOpening hopening) hrender
    rw [headIs_render (by decide) fun spot hspot => hsolid spot (by simp [hspot])]
    cases back with
    | nil => rfl
    | cons next back =>
        have hnext := ((everywhere_append.mp hnormal).2).2.1
        exact hnext.opened (by rwa [headIs_cons])
  closed left c right hrender hclosing := by
    obtain ⟨front, gap, back, rfl, rfl, _⟩ :=
      exists_append_of_render (isBlank_of_isClosing hclosing) hrender
    have hgap := ((everywhere_append.mp hnormal).2).1.closed hclosing
    obtain rfl : gap = false := hgap
    rw [space, if_neg Bool.false_ne_true, List.append_nil]
    exact headIs_reverse_render fun spot hspot => hsolid spot (by simp [hspot])
  comma left right hrender := by
    obtain ⟨front, gap, back, rfl, rfl, rfl⟩ :=
      exists_append_of_render (by decide : isBlank ',' = false) hrender
    cases back with
    | nil => exact .inl rfl
    | cons next back =>
        have hnext := ((everywhere_append.mp hnormal).2).2.1.comma rfl
        rw [innermost?, List.append_nil, List.reverse_cons, List.reverse_reverse,
          openBrackets_append_singleton, openAfter_of_other rfl rfl] at hnext
        rw [openBrackets_render fun spot hspot => hsolid spot (by simp [hspot]), render_cons]
        right
        cases hgap : next.gap with
        | false => exact .inl ⟨next.char, render back, rfl, hnext.resolve_left (by simp [hgap])⟩
        | true => exact .inr ⟨next.char, render back, rfl, hsolid next (by simp)⟩

theorem regular_python (language : Option Text) (t : Text) :
    Regular (applyAll (rules .python language) t) := by
  obtain ⟨list, hsolid, hrules, hnormal⟩ := exists_spots_python language t
  rw [hrules]
  exact regular_of_normal hsolid hnormal

end Spacing

namespace Literal

open Spacing (isOpening isClosing touchesComma openBrackets Regular)

/-! ### Pieces -/

/-- No blank stands inside of a bracket next to it, outside of the marks. -/
structure BracketsTight (ps : List Piece) : Prop where
  opened : ∀ before c after, ps = before ++ .char c :: after → isOpening c = true →
    ∀ piece ∈ after.head?, piece.isSolid = true
  closed : ∀ before c after, ps = before ++ .char c :: after → isClosing c = true →
    ∀ piece ∈ before.getLast?, piece.isSolid = true

/-- Outside of the marks every comma that does not end the text has exactly one space after it, or
something that touches it, told by the brackets that are open there. -/
def CommasSpaced (touches : List Char → Char → Bool) (ps : List Piece) : Prop :=
  ∀ before after, ps = before ++ .char ',' :: after → after = [] ∨
    (∃ c rest, after = .char c :: rest ∧
      touches (openBrackets (before.flatMap Piece.text)) c = true) ∨
    ∃ piece rest, after = .char ' ' :: piece :: rest ∧ piece.isSolid = true

/-- A comma with something right after it that does not touch it. -/
theorem not_commasSpaced {touches : List Char → Char → Bool} {ps before rest : List Piece} {c : Char}
    (hps : ps = before ++ .char ',' :: .char c :: rest) (hspace : c ≠ ' ')
    (htouches : ∀ stack, touches stack c = false) : ¬CommasSpaced touches ps := by
  intro hspaced
  rcases hspaced before (.char c :: rest) hps with hnil | ⟨d, others, hother, htouching⟩ |
    ⟨piece, others, hother, _⟩
  · cases hnil
  · cases hother
    rw [htouches] at htouching
    cases htouching
  · cases hother
    exact hspace rfl

theorem Piece.exists_text (piece : Piece) :
    ∃ c cs, piece.text = c :: cs ∧ (!isBlank c) = piece.isSolid ∧ (piece = .char c ∨ c = markOpen) := by
  cases piece with
  | char c => exact ⟨c, [], rfl, rfl, .inl rfl⟩
  | mark digits =>
      have hmark : (!isBlank markOpen) = true := by decide
      exact ⟨markOpen, digits ++ [markClose], rfl, hmark, .inr rfl⟩

theorem isSolid_of_headIs {ps : List Piece} (hhead : headIs isBlank (ps.flatMap Piece.text) = false) :
    ∀ piece ∈ ps.head?, piece.isSolid = true := by
  intro piece hpiece
  obtain ⟨others, rfl⟩ := List.head?_eq_some_iff.mp hpiece
  obtain ⟨c, cs, htext, hsolid, _⟩ := piece.exists_text
  rw [List.flatMap_cons, htext, List.cons_append, headIs_cons] at hhead
  rw [← hsolid, hhead]
  rfl

theorem isSolid_of_headIs_reverse {ps : List Piece}
    (hlast : headIs isBlank (ps.flatMap Piece.text).reverse = false) :
    ∀ piece ∈ ps.getLast?, piece.isSolid = true := by
  intro piece hpiece
  obtain ⟨others, rfl⟩ := List.getLast?_eq_some_iff.mp hpiece
  cases piece with
  | char c => simpa [Piece.text, Piece.isSolid] using hlast
  | mark digits => rfl

theorem bracketsTight_pieces {t : Text} (h : Regular t) : BracketsTight (pieces t) where
  opened before c after hpieces hopening := by
    have htext := text_pieces t
    rw [hpieces, List.flatMap_append, List.flatMap_cons] at htext
    exact isSolid_of_headIs (h.opened _ c _ htext.symm hopening)
  closed before c after hpieces hclosing := by
    have htext := text_pieces t
    rw [hpieces, List.flatMap_append, List.flatMap_cons] at htext
    exact isSolid_of_headIs_reverse (h.closed _ c _ htext.symm hclosing)

theorem touchesComma_markOpen (innermost : Option Char) :
    touchesComma innermost markOpen = false := by
  have hclosing : isClosing markOpen = false := by decide
  have hsemicolon : (markOpen == ';') = false := by decide
  have hcolon : (markOpen == ':') = false := by decide
  have hequals : (markOpen == '=') = false := by decide
  rw [touchesComma, hclosing, hsemicolon, hcolon, hequals]
  rfl

theorem commasSpaced_pieces {t : Text} (h : Regular t) :
    CommasSpaced (fun stack c => touchesComma stack.head? c) (pieces t) := by
  intro before after hpieces
  have htext := text_pieces t
  rw [hpieces, List.flatMap_append, List.flatMap_cons] at htext
  have hcomma := h.comma (before.flatMap Piece.text) (after.flatMap Piece.text) htext.symm
  cases after with
  | nil => exact .inl rfl
  | cons piece after =>
      right
      rw [List.flatMap_cons] at hcomma
      obtain ⟨c, cs, hpiece, _, hkind⟩ := piece.exists_text
      rcases hcomma with hnil | ⟨d, rest, hrest, htouches⟩ | ⟨d, rest, hrest, hsolid⟩
      · rw [hpiece] at hnil
        cases hnil
      · rw [hpiece, List.cons_append, List.cons.injEq] at hrest
        obtain ⟨rfl, _⟩ := hrest
        rcases hkind with rfl | rfl
        · exact .inl ⟨c, after, rfl, htouches⟩
        · rw [touchesComma_markOpen] at htouches
          cases htouches
      · rcases hkind with rfl | rfl
        · rw [Piece.text, List.singleton_append, List.cons.injEq] at hrest
          obtain ⟨rfl, hrest⟩ := hrest
          cases after with
          | nil => cases hrest
          | cons next after =>
              have hnext := isSolid_of_headIs (by rw [hrest]; exact hsolid) next rfl
              exact .inr ⟨next, after, rfl, hnext⟩
        · rw [hpiece, List.cons_append, List.cons.injEq] at hrest
          exact absurd hrest.1 (by decide)

end Literal

namespace Line

open Literal (mask restore markOpen numberLimit Piece pieces marks BracketsTight CommasSpaced)
open Spacing (applyAll rules touchesComma)

/-- **Spacing in Python has a normal form.** Read as marks and the characters around them, the spaced
text has no blank inside of a bracket next to it, and every comma is followed by exactly one space,
unless it ends the text or what follows is a closing bracket, a semicolon, a colon whose innermost
bracket is `[` or an equals sign whose innermost bracket is `(`. Code without marks of its own is
tidied to this text with every mark replaced by the span that was cut out there. -/
theorem tidyCode_python_normalForm (language : Option Text) {code : Text}
    (hplain : markOpen ∉ code) :
    BracketsTight
        (pieces (applyAll (rules .python language) (mask .python language code.trim).text)) ∧
      CommasSpaced (fun stack c => touchesComma stack.head? c)
        (pieces (applyAll (rules .python language) (mask .python language code.trim).text)) ∧
      (code.length ≤ numberLimit → ∃ (spans : Text → Text) (out : Text),
        tidyCode .python language code = .ok out ∧
        (∀ digits ∈ marks (mask .python language code.trim).text,
          restore ⟨(Piece.mark digits).text, (mask .python language code.trim).literals⟩ =
            .ok (spans digits)) ∧
        code.trim =
          (pieces (mask .python language code.trim).text).flatMap (Piece.fill spans) ∧
        out = (pieces (applyAll (rules .python language)
          (mask .python language code.trim).text)).flatMap (Piece.fill spans)) := by
  have hspaced := Spacing.regular_python language (mask .python language code.trim).text
  exact ⟨Literal.bracketsTight_pieces hspaced, Literal.commasSpaced_pieces hspaced,
    exists_fill_tidyCode .python language hplain⟩

/-- A call with a string: the comma in the string is none of the pieces. -/
theorem tidyCode_python_normalForm_call :
    markOpen ∉ "f( 'x,y',b )".toList ∧
      ∃ (spans : Text → Text) (out : Text),
        tidyCode .python none "f( 'x,y',b )".toList = .ok out ∧ spans ['0'] = "'x,y'".toList ∧
        out = "f(".toList ++ spans ['0'] ++ ", b)".toList := by
  have hplain : markOpen ∉ "f( 'x,y',b )".toList := by decide +kernel
  obtain ⟨_, _, hspaced⟩ := tidyCode_python_normalForm none hplain
  obtain ⟨spans, out, htidy, hrestore, _, hout⟩ :=
    hspaced (Nat.le_trans (by decide +kernel) Literal.addressLimit_le)
  have hspan := hrestore ['0'] (by decide +kernel)
  have hstring : restore ⟨(Piece.mark ['0']).text,
      (mask .python none (Text.trim "f( 'x,y',b )".toList)).literals⟩ = .ok "'x,y'".toList :=
    eq_ok_of_toOption (by decide +kernel)
  have hpieces : pieces (applyAll (rules .python none)
      (mask .python none (Text.trim "f( 'x,y',b )".toList)).text) =
        [.char 'f', .char '(', .mark ['0'], .char ',', .char ' ', .char 'b', .char ')'] := by
    decide +kernel
  refine ⟨hplain, spans, out, htidy, Except.ok.inj (hspan.symm.trans hstring), ?_⟩
  rw [hout, hpieces]
  simp [Piece.fill]

/-- A comma is drawn to what follows it if that is the colon of a slice, a semicolon or the equals
sign of a keyword argument. -/
theorem not_commasSpaced_isClosing :
    markOpen ∉ "a[1,:2]".toList ∧ tidyCode .python none "a[1,:2]".toList = .ok "a[1,:2]".toList ∧
      ¬CommasSpaced (fun _ c => Spacing.isClosing c)
        (pieces (applyAll (rules .python none)
          (mask .python none (Text.trim "a[1,:2]".toList)).text)) ∧
      ¬CommasSpaced (fun _ c => Spacing.isClosing c)
        (pieces (applyAll (rules .python none)
          (mask .python none (Text.trim "a = 1,; b = 2".toList)).text)) ∧
      ¬CommasSpaced (fun _ c => Spacing.isClosing c)
        (pieces (applyAll (rules .python none)
          (mask .python none (Text.trim "f(a,=b)".toList)).text)) := by
  refine ⟨by decide +kernel, eq_ok_of_toOption (by decide +kernel), ?_, ?_, ?_⟩
  · refine @Literal.not_commasSpaced _ _ ("a[1".toList.map .char) ("2]".toList.map .char) ':' ?_
      (by decide) fun _ => rfl
    decide +kernel
  · refine @Literal.not_commasSpaced _ _ ("a = 1".toList.map .char) (" b = 2".toList.map .char) ';'
      ?_ (by decide) fun _ => rfl
    decide +kernel
  · refine @Literal.not_commasSpaced _ _ ("f(a".toList.map .char) ("b)".toList.map .char) '=' ?_
      (by decide) fun _ => rfl
    decide +kernel

end Line

end SourceLayout
