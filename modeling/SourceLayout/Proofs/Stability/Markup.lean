import SourceLayout.Proofs.Layout.Reread
import SourceLayout.Proofs.Markup

/-!
# Formatting markup twice

Under an indentation that is read back as it was written, two spaces or a tab, every line of a
formatted text is laid out to itself. What is left to do the second time are the blank lines of a
style sheet, when the first time there were too many of them to tell that one is missing.
-/

namespace SourceLayout

open Literal (markOpen numberLimit)

namespace Layout

variable {family : Family} {language : Option Text} {unit : IndentUnit}

theorem sameBlanks_of_laid {lines laid : List Text}
    (h : List.Forall₂ (Laid family language unit) lines laid) (hunit : unit.text.all isBlank = true)
    (hlines : ∀ line ∈ lines, markOpen ∉ line ∧ line.length ≤ numberLimit) :
    SameBlanks lines laid := by
  induction h with
  | nil => exact .nil
  | cons hfirst _ ih =>
      obtain ⟨⟨hplain, _⟩, hothers⟩ := List.forall_mem_cons.mp hlines
      refine .cons ?_ (ih hothers)
      rw [Bool.eq_iff_iff, ← @Text.tokens_eq_nil_iff .marked, ← @Text.tokens_eq_nil_iff .marked,
        hfirst.tokens_eq hunit hplain]

end Layout

/-! ### Formatting again -/

/-- Two of the families have one language each. -/
theorem Language.normalize_of_markup {id : Text} {family : Family}
    (hfamily : family? id = some family) (hmarkup : family = .html ∨ family = .css) :
    normalize id = family.name.toList := by
  obtain ⟨entry, hentry, rfl, hname⟩ := exists_of_family? hfamily
  have hall : families.all (fun entry => entry.2 ≠ .html && entry.2 ≠ .css ||
      entry.1 == entry.2.name) = true := by decide
  have hown := List.all_eq_true.mp hall entry hentry
  have hsame : entry.1 = entry.2.name := by
    rcases hmarkup with hmarkup | hmarkup <;> simpa [hmarkup] using hown
  rw [hname, hsame]

section

variable {language : Text} {family : Family} (hfamily : Language.family? language = some family)
  (hmarkup : family = .html ∨ family = .css) {unit : IndentUnit} (hunit : unit.Matches family)

include hfamily hmarkup hunit

/-- Lines that are laid out to themselves go to the passes over blank lines as they are. -/
theorem format_again_iff {text out : Text}
    (hlines : ∀ line ∈ text.lines,
      Layout.layByWidth family (some family.name.toList) unit line = .ok line) :
    format (some language) unit text = .ok out ↔
      out.lines = Layout.collapseLines 0
        (Layout.settle family (some family.name.toList) text.lines) := by
  have hname := Language.normalize_of_markup hfamily hmarkup
  have hindent : Layout.indent family (some family.name.toList) unit text.lines =
      .ok text.lines := by
    have hwidth : Layout.usesDepth family text.lines = false := by
      rcases hmarkup with rfl | rfl <;> rfl
    rw [Layout.indent, hwidth]
    exact Layout.byWidth_eq_self hlines
  rw [@format_eq_ok_iff_lines (some language) family hfamily unit hunit.newline_not_mem,
    Option.getD_some, hname, hindent]
  constructor
  · rintro ⟨laid, hlaid, hout⟩
    rwa [Except.ok.inj hlaid]
  · exact fun hout => ⟨text.lines, rfl, hout⟩

/-- The first run: every laid out line is laid out to itself from then on. -/
theorem exists_format_markup {text : Text} (hplain : markOpen ∉ text)
    (hlength : text.length ≤ numberLimit)
    (hsettles : ∀ line ∈ text.lines, Line.Settles family (some family.name.toList) line) :
    ∃ laid out, format (some language) unit text = .ok out ∧
      out.lines = Layout.collapseLines 0 (Layout.settle family (some family.name.toList) laid) ∧
      (∀ line ∈ laid, Layout.layByWidth family (some family.name.toList) unit line = .ok line) ∧
      Layout.SameBlanks text.lines laid := by
  have hname := Language.normalize_of_markup hfamily hmarkup
  obtain ⟨out, hformat⟩ := (@exists_format_iff (some language) family hfamily unit text).mpr
    (layable_of_plain family _ hplain hlength)
  obtain ⟨laid, hindent, hlines⟩ := @lines_of_format (some language) family hfamily unit
    hunit.newline_not_mem text out hformat
  rw [Option.getD_some, hname] at hindent hlines
  have hlaid := Layout.laid_of_indent hindent
  have hwidth : family ≠ .cFamily := by
    rcases hmarkup with rfl | rfl <;> decide
  have hlinesPlain : ∀ line ∈ text.lines, markOpen ∉ line ∧ line.length ≤ numberLimit :=
    fun line hline => plain_of_mem_lines hline hplain hlength
  exact ⟨laid, out, hformat, hlines,
    Layout.layByWidth_of_laid hlaid hwidth hunit hlinesPlain hsettles,
    Layout.sameBlanks_of_laid hlaid hunit.all_isBlank hlinesPlain⟩

end

section

variable {language : Text} {unit : IndentUnit} {text : Text}

theorem format_html_again (hunit : unit.Matches .html)
    (hfamily : Language.family? language = some .html)
    (hplain : markOpen ∉ text) (hlength : text.length ≤ numberLimit) :
    ∃ out, format (some language) unit text = .ok out ∧
      format (some language) unit out = .ok out := by
  obtain ⟨laid, out, hformat, hlines, hlaid, _⟩ := exists_format_markup hfamily (.inl rfl) hunit
    hplain hlength (by
      intro line hline tidied htidy
      obtain ⟨hlinePlain, hlineLength⟩ := plain_of_mem_lines hline hplain hlength
      exact Line.tidy_html_tidied hlinePlain hlineLength htidy)
  refine ⟨out, hformat, (format_again_iff hfamily (.inl rfl) hunit ?_).mpr ?_⟩
  · rw [hlines]
    exact fun line hline => hlaid line ((Layout.thinned_collapseLines 0 _).sublist.subset hline)
  · rw [hlines]
    exact (Layout.collapseLines_collapseLines 0 laid).symm

theorem format_css_again (hunit : unit.Matches .css)
    (hfamily : Language.family? language = some .css)
    (hplain : markOpen ∉ text) (hlength : text.length ≤ numberLimit)
    (hfree : ∀ line ∈ text.lines, ¬line.HasTrain) :
    ∃ once twice, format (some language) unit text = .ok once ∧
      format (some language) unit once = .ok twice ∧
      format (some language) unit twice = .ok twice ∧
      (Layout.hasBlankPair text.lines = false → twice = once) := by
  obtain ⟨laid, once, hformat, honce, hlaid, hblanks⟩ := exists_format_markup hfamily (.inr rfl)
    hunit hplain hlength (by
      intro line hline tidied htidy
      obtain ⟨hlinePlain, hlineLength⟩ := plain_of_mem_lines hline hplain hlength
      exact Line.tidy_css_tidied hlinePlain hlineLength (hfree line hline) htidy)
  replace honce : once.lines = Layout.spaced 0 laid := honce
  have hstays : ∀ {lines : List Text},
      (∀ line ∈ lines, Layout.layByWidth .css (some "css".toList) unit line = .ok line) →
      ∀ line ∈ Layout.spaced 0 lines,
        Layout.layByWidth .css (some "css".toList) unit line = .ok line := by
    intro lines hlines line hline
    rcases Layout.mem_spaced hline with hmem | rfl
    · exact hlines line hmem
    · rfl
  have honceStays := hstays hlaid
  rw [← honce] at honceStays
  obtain ⟨twice, htwice⟩ : ∃ twice : Text, twice.lines = Layout.spaced 0 once.lines := by
    obtain ⟨first, rest, hlines⟩ := Layout.exists_lines once
    refine Text.exists_of_lines (Layout.spaced_ne_nil (by simp [hlines]) 0) fun line hline => ?_
    rcases Layout.mem_spaced hline with hmem | rfl
    · exact Layout.newline_not_mem hmem
    · simp
  have htwiceStays := hstays honceStays
  rw [← htwice] at htwiceStays
  refine ⟨once, twice, hformat, (format_again_iff hfamily (.inr rfl) hunit honceStays).mpr htwice,
    (format_again_iff hfamily (.inr rfl) hunit htwiceStays).mpr ?_, fun hpair => ?_⟩
  · have hcollapsed : Layout.Collapsed 0 once.lines := by
      rw [honce]
      exact Layout.collapseLines_collapseLines 0 _
    rw [htwice]
    exact (Layout.spaced_spaced hcollapsed fun line hline =>
      Layout.eq_nil_of_layByWidth (honceStays line hline)).symm
  · have hcollapsed : Layout.Collapsed 0 laid :=
      Layout.collapsed_of_hasBlankPair (hblanks.hasBlankPair_eq ▸ hpair) (by simp)
    apply Text.eq_of_lines_eq
    rw [htwice, honce]
    exact Layout.spaced_spaced hcollapsed fun line hline =>
      Layout.eq_nil_of_layByWidth (hlaid line hline)

/-- Every run draws one more colon of a train to those that touch. -/
theorem format_train (hunit : '\n' ∉ unit.text)
    (hfamily : Language.family? language = some .css) (touching single : Nat) :
    format (some language) unit (train (touching + 2) (single + 1)) =
      .ok (train (touching + 3) single) := by
  have hbreak : ∀ touching single : Nat, '\n' ∉ train touching single := by
    intro touching single hmem
    rcases mem_train hmem with h | h <;> revert h <;> decide
  have hname : Language.normalize ((some language).getD []) = "css".toList :=
    Language.normalize_of_markup hfamily (.inr rfl)
  have htrimmed := trimmed_train (touching + 1) (single + 1)
  refine @format_line (some language) .css hfamily unit hunit _ _ (hbreak _ _)
    (hbreak _ _) htrimmed.head (by simp [train, List.replicate_succ]) ?_ ?_ ?_
  · rw [htrimmed.trim_eq]
    rfl
  · rw [hname]
    exact Line.tidy_train touching single
  · rw [train, List.replicate_succ]
    rfl

end

/-- **Formatting markup twice**, under an indentation of two spaces or a tab. HTML stays as it is
the second time. A style sheet without trains of colons stays as it is the third time, and the
second time if it had no two blank lines in a row. A train is changed as often as it has single
colons: each run draws one of them to those that touch, where it is no single colon any more. -/
theorem format_markup_again (unit : IndentUnit)
    (hunit : unit.levels 1 = [' ', ' '] ∨ unit.levels 1 = ['\t']) (text : Text)
    (hplain : markOpen ∉ text) (hlength : text.length ≤ numberLimit) :
    (∀ language, Language.family? language = some .html →
      ∃ out, format (some language) unit text = .ok out ∧
        format (some language) unit out = .ok out) ∧
    ∀ language, Language.family? language = some .css →
      ((∀ line ∈ text.lines, ¬line.HasTrain) →
        ∃ once twice, format (some language) unit text = .ok once ∧
          format (some language) unit once = .ok twice ∧
          format (some language) unit twice = .ok twice ∧
          (Layout.hasBlankPair text.lines = false → twice = once)) ∧
      ∀ touching single, format (some language) unit (train (touching + 2) (single + 1)) =
        .ok (train (touching + 3) single) :=
  have hbreak : '\n' ∉ unit.text := @IndentUnit.Matches.newline_not_mem unit .css hunit
  ⟨fun _ hfamily => format_html_again hunit hfamily hplain hlength, fun _ hfamily =>
    ⟨format_css_again hunit hfamily hplain hlength, format_train hbreak hfamily⟩⟩

/-- A style sheet in which a blank line is put after a block, and the same text taken for HTML. -/
theorem format_markup_again_sheet :
    (∃ out, format (some "html".toList) ⟨[' '], 2⟩ "a\x7b b:c;\x7d\n/* d  e */\n\tf,g\x7b".toList =
        .ok out ∧
      format (some "html".toList) ⟨[' '], 2⟩ out = .ok out) ∧
    ∃ out, format (some "CSS".toList) ⟨[' '], 2⟩ "a\x7b b:c;\x7d\n/* d  e */\n\tf,g\x7b".toList =
        .ok out ∧
      format (some "CSS".toList) ⟨[' '], 2⟩ out = .ok out := by
  obtain ⟨hhtml, hcss⟩ := format_markup_again ⟨[' '], 2⟩ (.inl (by decide))
    "a\x7b b:c;\x7d\n/* d  e */\n\tf,g\x7b".toList (by decide +kernel)
    (Nat.le_trans (by decide +kernel) Literal.addressLimit_le)
  obtain ⟨once, twice, honce, htwice, _, hsame⟩ := (hcss "CSS".toList (by decide +kernel)).1 (by
    intro line hline htrain
    have htouching := htrain.touching.trans (Text.of_mem_cutAt hline).1
    revert htouching
    decide +kernel)
  obtain rfl := hsame (by decide +kernel)
  exact ⟨hhtml "html".toList (by decide +kernel), twice, honce, htwice⟩

end SourceLayout
