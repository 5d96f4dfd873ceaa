import SourceLayout.Format
import SourceLayout.Proofs.Layout.Structure

/-!
# Formatting is spacing only

Whatever formatting does to a text, its lines with something in them stay, in their order, and each
keeps its tokens. Formatting fails only where a language is unknown, or where a line holds marks of
its own that name no literal.
-/

namespace SourceLayout

open Text (tokens)
open Layout (Laid Layable body)
open Literal (markOpen isForeign numberLimit RestoreError)

/-! ### From the text to its laid out lines and back -/

theorem format_eq_ok_iff {language : Option Text} {family : Family}
    (hfamily : Language.family? (language.getD []) = some family) {unit : IndentUnit}
    {text out : Text} :
    format language unit text = .ok out ↔
      ∃ laid, Layout.indent family (some (Language.normalize (language.getD []))) unit text.lines =
          .ok laid ∧
        out = Layout.collapse (Text.ofLines
          (Layout.settle family (some (Language.normalize (language.getD []))) laid)) := by
  rw [format, hfamily]
  simp only [Layout.document]
  cases Layout.indent family (some (Language.normalize (language.getD []))) unit text.lines with
  | error error => simp [Except.map]
  | ok laid => simp [Except.map, eq_comm]

theorem exists_format_iff {language : Option Text} {family : Family}
    (hfamily : Language.family? (language.getD []) = some family) (unit : IndentUnit)
    (text : Text) :
    (∃ out, format language unit text = .ok out) ↔
      ∀ line ∈ text.lines,
        Layable family (some (Language.normalize (language.getD []))) line := by
  rw [← @Layout.exists_indent_iff family _ unit]
  simp only [format_eq_ok_iff hfamily]
  constructor
  · rintro ⟨out, laid, hindent, _⟩
    exact ⟨laid, hindent⟩
  · rintro ⟨laid, hindent⟩
    exact ⟨_, laid, hindent, rfl⟩

theorem mem_flatten_lines {text : Text} {c : Char} (hc : c ∈ text.lines.flatten) :
    c ∈ text ∧ c ≠ '\n' := by
  obtain ⟨line, hline, hmem⟩ := List.mem_flatten.mp hc
  refine ⟨(Layout.sublist_of_mem_lines hline).subset hmem, ?_⟩
  rintro rfl
  exact Layout.newline_not_mem hline hmem

theorem newline_not_mem_settle {family : Family} {language : Option Text} {unit : IndentUnit}
    (hunit : '\n' ∉ unit.text) {text : Text} {laid : List Text}
    (hlaid : List.Forall₂ (Laid family language unit) text.lines laid) {line : Text}
    (hline : line ∈ Layout.settle family language laid) : '\n' ∉ line := by
  intro hbreak
  have hmem := Layout.settle_subset _ _ _ (List.mem_flatten_of_mem hline hbreak)
  rcases Layout.mem_of_laid hlaid (by decide +kernel) hmem with hlines | hindentation | hspace
  · exact (mem_flatten_lines hlines).2 rfl
  · exact hunit hindentation
  · exact absurd hspace (by decide)

/-- The body of a formatted text is that of its laid out lines. -/
theorem laid_of_format {language : Option Text} {family : Family}
    (hfamily : Language.family? (language.getD []) = some family) {unit : IndentUnit}
    (hunit : '\n' ∉ unit.text) {text out : Text} (hformat : format language unit text = .ok out) :
    ∃ laid, List.Forall₂ (Laid family (some (Language.normalize (language.getD []))) unit)
        text.lines laid ∧ body out.lines = body laid := by
  obtain ⟨laid, hindent, rfl⟩ := (format_eq_ok_iff hfamily).mp hformat
  have hlaid := Layout.laid_of_indent hindent
  refine ⟨laid, hlaid, ?_⟩
  rw [Layout.body_collapse, Layout.body_lines_ofLines, Layout.body_settle]
  exact fun line => newline_not_mem_settle hunit hlaid

/-- Formatting writes no character that was not there, marks, indentation and line feeds apart. -/
theorem mem_format {language : Option Text} {family : Family}
    (hfamily : Language.family? (language.getD []) = some family) {unit : IndentUnit}
    {text out : Text} (hformat : format language unit text = .ok out) {c : Char}
    (hforeign : isForeign c = true) (hc : c ∈ out) :
    c ∈ text ∨ c ∈ unit.text ∨ c = ' ' ∨ c = '\n' := by
  obtain ⟨laid, hindent, rfl⟩ := (format_eq_ok_iff hfamily).mp hformat
  have hlaid := Layout.laid_of_indent hindent
  rcases Layout.mem_ofLines ((Layout.collapseFrom_sublist 0 _).subset hc) with hmem | hbreak
  · rcases Layout.mem_of_laid hlaid hforeign (Layout.settle_subset _ _ _ hmem) with
      hlines | hindentation | hspace
    · exact .inl (mem_flatten_lines hlines).1
    · exact .inr (.inl hindentation)
    · exact .inr (.inr (.inl hspace))
  · exact .inr (.inr (.inr hbreak))

/-! ### Tokens -/

/-- The tokens of every line that is not blank. -/
def lineTokens (text : Text) : List (List Text) :=
  (text.lines.filter fun line => !line.isEmptyLine).map (tokens .plain)

theorem map_tokens_body (words : WordClass) (lines : List Text) :
    (body lines).map (tokens words) =
      (lines.map (tokens words)).filter fun toks => !toks.isEmpty := by
  induction lines with
  | nil => rfl
  | cons line lines ih =>
      cases hblank : line.isEmptyLine with
      | true => simp [Layout.body_blank_cons hblank, ih, Text.tokens_blanks hblank]
      | false =>
          have hne : tokens words line ≠ [] := by
            rw [Ne, Text.tokens_eq_nil_iff, hblank]
            simp
          simp [Layout.body_cons hblank, ih, Text.tokens_trim, hne]

theorem lineTokens_eq (text : Text) :
    lineTokens text = (body text.lines).map (tokens .plain) := by
  simp [lineTokens, body, Function.comp_def, Text.tokens_trim]

theorem map_plain_of_map_marked {lines lines' : List Text}
    (h : lines.map (tokens .marked) = lines'.map (tokens .marked)) :
    lines.map (tokens .plain) = lines'.map (tokens .plain) := by
  have hrefine : ∀ ls : List Text, ls.map (tokens .plain) =
      (ls.map (tokens .marked)).map fun toks => toks.flatMap (tokens .plain) := by
    intro ls
    rw [List.map_map]
    exact List.map_congr_left fun line _ =>
      Text.tokens_refine WordClass.marked_of_plain line
  rw [hrefine, hrefine, h]

theorem plain_of_mem_lines {text line : Text} (hline : line ∈ text.lines)
    (hplain : markOpen ∉ text) (hlength : text.length ≤ numberLimit) :
    markOpen ∉ line ∧ line.length ≤ numberLimit := by
  have hsub := Layout.sublist_of_mem_lines hline
  exact ⟨mt (fun hmem => hsub.subset hmem) hplain, Nat.le_trans hsub.length_le hlength⟩

/-- Every line of a text without marks of its own can be laid out. -/
theorem layable_of_plain (family : Family) (language : Option Text) {text : Text}
    (hplain : markOpen ∉ text) (hlength : text.length ≤ numberLimit) :
    ∀ line ∈ text.lines, Layable family language line := by
  intro line hline
  obtain ⟨hmark, hshort⟩ := plain_of_mem_lines hline hplain hlength
  exact .inr (.inr (Line.restorable_of_plain family language hmark hshort))

/-- **Formatting is spacing only.** Every supported language, every indentation made of blanks and
every text without marks of its own gives a text with the same lines, blank ones apart, and the same
tokens on each. The bound on the length is far beyond the longest text that can be addressed. -/
theorem format_keeps_tokens (language : Text) (hsupported : Language.isSupported language = true)
    (unit : IndentUnit) (hunit : ∀ c ∈ unit.text, isBlank c = true ∧ c ≠ '\n') (text : Text)
    (hplain : markOpen ∉ text) (hlength : text.length ≤ numberLimit) :
    ∃ out, format (some language) unit text = .ok out ∧ lineTokens out = lineTokens text := by
  obtain ⟨family, hfamily⟩ := Option.isSome_iff_exists.mp hsupported
  obtain ⟨out, hformat⟩ := (@exists_format_iff (some language) family hfamily unit text).mpr
    (layable_of_plain family _ hplain hlength)
  have hblanks : unit.text.all isBlank = true :=
    List.all_eq_true.mpr fun c hc => (hunit c hc).1
  obtain ⟨laid, hlaid, hbody⟩ := @laid_of_format (some language) family hfamily unit
    (fun hmem => (hunit _ hmem).2 rfl) text out hformat
  have hmarked := Layout.tokens_of_laid hlaid hblanks fun line hline =>
    plain_of_mem_lines hline hplain hlength
  refine ⟨out, hformat, ?_⟩
  rw [lineTokens_eq, lineTokens_eq, hbody, map_tokens_body, map_tokens_body,
    map_plain_of_map_marked hmarked]

/-- A document with a string, a keyword argument, a comment and blank lines, under a language that
is written with blanks and in upper case. -/
theorem format_keeps_tokens_python :
    ∃ out, format (some " PYTHON".toList) ⟨['\t'], 2⟩
        "def f( a = 1 ):\n\n\n\n  return - a<<2  #  x   y\n\ns = 'a  b'".toList = .ok out ∧
      lineTokens out = lineTokens
        "def f( a = 1 ):\n\n\n\n  return - a<<2  #  x   y\n\ns = 'a  b'".toList :=
  format_keeps_tokens " PYTHON".toList (by decide +kernel) ⟨['\t'], 2⟩
    (List.forall_mem_singleton.mpr (by decide)) _ (by decide +kernel)
    (Nat.le_trans (by decide +kernel) Literal.addressLimit_le)

end SourceLayout
