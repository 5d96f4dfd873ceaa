import SourceLayout.Proofs.Format
import SourceLayout.Proofs.Trimmed

/-!
# The shape of a formatted text

No three line feeds stand in a row, no line ends with a blank, and there are no more lines than
before. Only in style sheets lines are added: at most one for every line that ends a block, since
collapsing leaves one of the blank lines that were put there.
-/

namespace SourceLayout

open Layout (Laid Aligned Thinned)
open Literal (markOpen numberLimit)

namespace Text

/-- No blank at the end; the empty text has none. -/
def Ended (t : Text) : Prop :=
  ∀ c, t.getLast? = some c → isBlank c = false

theorem ended_iff (t : Text) : Ended t ↔ headIs isBlank t.reverse = false := by
  rw [Ended, ← List.head?_reverse]
  cases t.reverse with
  | nil => simp
  | cons c cs => simp

theorem Ended.nil : Ended [] := by
  simp [Ended]

theorem Ended.append {t : Text} (h : Ended t) (hne : t ≠ []) (left : Text) : Ended (left ++ t) := by
  rw [ended_iff] at h ⊢
  rwa [headIs_reverse_append_of_ne_nil hne]

theorem Trimmed.ended {t : Text} (h : Trimmed t) : Ended t :=
  (ended_iff t).mpr h.last

end Text

open Text (Ended tokens)

namespace Layout

/-! ### Line feeds -/

/-- After a run of line feeds the text goes on with so few of them that no three are in a row. -/
theorem not_infix_collapseFrom (run : Nat) (t : Text) :
    ¬['\n', '\n', '\n'] <:+: collapseFrom run t ∧
      ¬List.replicate (3 - min run 2) '\n' <+: collapseFrom run t := by
  induction t generalizing run with
  | nil =>
      refine ⟨by simp [collapseFrom], fun hstarts => ?_⟩
      have hlength := hstarts.length_le
      simp only [collapseFrom, List.length_replicate, List.length_nil] at hlength
      omega
  | cons c cs ih =>
      rw [collapseFrom]
      split
      next hc =>
          subst hc
          obtain ⟨htriples, hstarts⟩ := ih (run + 1)
          split
          next hrun =>
              have hmin : min (run + 1) 2 = min run 2 := by omega
              rw [hmin] at hstarts
              exact ⟨htriples, hstarts⟩
          next hrun =>
              have hcount : 3 - min run 2 = 3 - min (run + 1) 2 + 1 := by omega
              refine ⟨?_, ?_⟩
              · intro htriple
                rcases List.infix_cons_iff.mp htriple with hstart | hlater
                · refine hstarts (List.IsPrefix.trans ?_ (List.cons_prefix_cons.mp hstart).2)
                  obtain rfl | rfl : run = 0 ∨ run = 1 := by omega
                  · exact List.prefix_refl _
                  · exact ⟨['\n'], rfl⟩
                · exact htriples hlater
              · rw [hcount, List.replicate_succ, List.cons_prefix_cons]
                exact fun hstart => hstarts hstart.2
      next hc =>
          obtain ⟨htriples, _⟩ := ih 0
          refine ⟨?_, ?_⟩
          · intro htriple
            rcases List.infix_cons_iff.mp htriple with hstart | hlater
            · exact hc (List.cons_prefix_cons.mp hstart).1.symm
            · exact htriples hlater
          · intro hstart
            obtain ⟨count, hcount⟩ : ∃ count, 3 - min run 2 = count + 1 :=
              ⟨2 - min run 2, by omega⟩
            rw [hcount, List.replicate_succ, List.cons_prefix_cons] at hstart
            exact hc hstart.1.symm

/-! ### Ends of lines -/

theorem mem_spaceBlocks {lines : List Text} {line : Text} (hline : line ∈ spaceBlocks lines) :
    line ∈ lines ∨ line = [] := by
  induction lines with
  | nil => exact .inl hline
  | cons first lines ih =>
      simp only [spaceBlocks, List.cons_append, List.mem_cons, List.mem_append,
        List.mem_replicate] at hline
      rcases hline with rfl | ⟨_, rfl⟩ | hlater
      · exact .inl List.mem_cons_self
      · exact .inr rfl
      · exact (ih hlater).imp_left (List.mem_cons_of_mem first)

/-- An aligned line is one that was there, or one that is not blank with blanks before it. -/
theorem ended_align {lines : List Text} (hlines : ∀ line ∈ lines, Ended line) (marker : Text) :
    ∀ line ∈ align marker lines, Ended line := by
  rw [align]
  induction lines with
  | nil => simp
  | cons first lines ih =>
      have hfirst := hlines first List.mem_cons_self
      have hbelow := ih fun line hline => hlines line (List.mem_cons_of_mem first hline)
      rw [List.foldr_cons]
      generalize lines.foldr (Aligned.push marker) ⟨[], none⟩ = below at hbelow
      have hown : ∀ line ∈ first :: below.lines, Ended line :=
        List.forall_mem_cons.mpr ⟨hfirst, hbelow⟩
      rw [Aligned.push]
      split
      next => exact hown
      next hblank =>
          split
          next indentation _ =>
              split
              next =>
                  refine List.forall_mem_cons.mpr ⟨?_, ?_⟩
                  · refine (Text.trimmed_trim first).ended.append ?_ indentation
                    rwa [Ne, Text.trim_eq_nil_iff]
                  · exact fun line hline => hbelow line ((List.dropWhile_sublist _).subset hline)
              next => exact hown
          next => exact hown

theorem ended_settle {lines : List Text} (hlines : ∀ line ∈ lines, Ended line) (family : Family)
    (language : Option Text) : ∀ line ∈ settle family language lines, Ended line := by
  by_cases hcss : family = .css
  · subst hcss
    intro line hline
    rcases mem_spaceBlocks hline with hmem | rfl
    · exact hlines line hmem
    · exact .nil
  · by_cases hhtml : family = .html
    · subst hhtml
      exact hlines
    · obtain ⟨kept, hthinned, hsettle⟩ := settle_cases ⟨hcss, hhtml⟩ language lines
      have hkept : ∀ line ∈ kept, Ended line :=
        fun line hline => hlines line (hthinned.sublist.subset hline)
      rcases hsettle with hsettle | hsettle
      · rwa [hsettle]
      · rw [hsettle]
        exact ended_align hkept _

theorem Laid.ended {family : Family} {language : Option Text} {unit : IndentUnit} {line out : Text}
    (h : Laid family language unit line out) (hplain : markOpen ∉ line) : Ended out := by
  cases h with
  | blank hblank => exact .nil
  | directive _ => exact (Text.trimmed_trim line).ended
  | tidied level hblank htidy =>
      rw [indented_eq]
      refine (Line.trimmed_tidy htidy).ended.append ?_ _
      rintro rfl
      have htokens := Line.tokens_tidy hplain htidy
      rw [Text.tokens_nil, eq_comm, Text.tokens_eq_nil_iff, hblank] at htokens
      cases htokens

theorem ended_of_laid {family : Family} {language : Option Text} {unit : IndentUnit}
    {lines laid : List Text} (h : List.Forall₂ (Laid family language unit) lines laid)
    (hlines : ∀ line ∈ lines, markOpen ∉ line ∧ line.length ≤ numberLimit) :
    ∀ line ∈ laid, Ended line := by
  induction h with
  | nil => simp
  | cons hfirst _ ih =>
      obtain ⟨⟨hplain, _⟩, hlater⟩ := List.forall_mem_cons.mp hlines
      exact List.forall_mem_cons.mpr ⟨hfirst.ended hplain, ih hlater⟩

/-! ### Counting lines -/

theorem closesBlock_eq_of_tokens {line line' : Text}
    (htokens : tokens .marked line = tokens .marked line') :
    closesBlock line = closesBlock line' := by
  have hclose : '}' ∈ line ↔ '}' ∈ line' := Text.mem_iff_of_tokens_eq htokens (by decide)
  have hopen : '{' ∈ line ↔ '{' ∈ line' := Text.mem_iff_of_tokens_eq htokens (by decide)
  simp [closesBlock, hclose, hopen]

theorem countP_closesBlock_of_laid {family : Family} {language : Option Text} {unit : IndentUnit}
    (hunit : unit.text.all isBlank = true) {lines laid : List Text}
    (h : List.Forall₂ (Laid family language unit) lines laid)
    (hlines : ∀ line ∈ lines, markOpen ∉ line ∧ line.length ≤ numberLimit) :
    laid.countP closesBlock = lines.countP closesBlock := by
  induction h with
  | nil => rfl
  | cons hfirst _ ih =>
      obtain ⟨⟨hplain, _⟩, hlater⟩ := List.forall_mem_cons.mp hlines
      rw [List.countP_cons, List.countP_cons, ih hlater,
        closesBlock_eq_of_tokens (hfirst.tokens_eq hunit hplain)]

theorem settle_ne_nil {lines : List Text} (hne : lines ≠ []) (family : Family)
    (language : Option Text) : settle family language lines ≠ [] := by
  obtain ⟨first, others, rfl⟩ := List.exists_cons_of_ne_nil hne
  have halign : ∀ (marker line : Text) (lines : List Text), align marker (line :: lines) ≠ [] := by
    intro marker line lines
    rw [align, List.foldr_cons, Aligned.push]
    split
    · simp
    · split
      · split <;> simp
      · simp
  have hsqueeze : squeeze (first :: others) = first :: squeezeFrom first.isEmptyLine others := by
    simp [squeeze, squeezeFrom]
  unfold settle
  split
  next => simp [spaceBlocks]
  next => simp
  next =>
      dsimp only
      rw [hsqueeze]
      split
      next => simp
      next =>
          simp only [dropBetweenBraces, dropBetweenBracesFrom, Option.any_none, Bool.and_false,
            Bool.false_and, Bool.false_eq_true, if_false]
          exact halign _ _ _

theorem length_align_le (marker : Text) (lines : List Text) :
    (align marker lines).length ≤ lines.length := by
  rw [align]
  induction lines with
  | nil => simp
  | cons line lines ih =>
      rw [List.foldr_cons, List.length_cons]
      generalize lines.foldr (Aligned.push marker) ⟨[], none⟩ = below at ih
      have hdropped : (below.lines.dropWhile Text.isEmptyLine).length ≤ below.lines.length :=
        (List.dropWhile_sublist _).length_le
      rw [Aligned.push]
      split
      next => simpa using ih
      next =>
          split
          next =>
              split
              next =>
                  rw [List.length_cons]
                  omega
              next => simpa using ih
          next => simpa using ih

theorem length_settle_le {family : Family} (hcss : family ≠ .css) (language : Option Text)
    (lines : List Text) : (settle family language lines).length ≤ lines.length := by
  by_cases hhtml : family = .html
  · subst hhtml
    exact Nat.le_refl _
  · obtain ⟨kept, hthinned, hsettle⟩ := settle_cases ⟨hcss, hhtml⟩ language lines
    have hkept := hthinned.sublist.length_le
    rcases hsettle with hsettle | hsettle
    · rwa [hsettle]
    · rw [hsettle]
      exact Nat.le_trans (length_align_le _ kept) hkept

theorem length_collapseLines_le (run : Nat) (lines : List Text) :
    (collapseLines run lines).length ≤ lines.length :=
  (thinned_collapseLines run lines).sublist.length_le

theorem collapseLines_cons {line : Text} (hline : line ≠ []) {lines : List Text} (hne : lines ≠ [])
    (run : Nat) : collapseLines run (line :: lines) = line :: collapseLines 1 lines := by
  obtain ⟨next, others, rfl⟩ := List.exists_cons_of_ne_nil hne
  rw [collapseLines, if_neg fun hdrop => hline hdrop.1, if_neg hline]

theorem length_collapseLines_cons (run : Nat) (line : Text) {lines : List Text} (hne : lines ≠ []) :
    ∃ run', (collapseLines run (line :: lines)).length ≤ (collapseLines run' lines).length + 1 := by
  obtain ⟨next, others, rfl⟩ := List.exists_cons_of_ne_nil hne
  rw [collapseLines]
  split
  next => exact ⟨run + 1, Nat.le_succ _⟩
  next => exact ⟨_, Nat.le_refl _⟩

theorem collapseLines_replicate {run : Nat} (hrun : 2 ≤ run) (missing : Nat) {lines : List Text}
    (hne : lines ≠ []) :
    collapseLines run (List.replicate missing [] ++ lines) =
      collapseLines (run + missing) lines := by
  induction missing generalizing run with
  | zero => rfl
  | succ missing ih =>
      obtain ⟨next, others, hrest⟩ :=
        List.exists_cons_of_ne_nil
          (List.append_ne_nil_of_right_ne_nil (List.replicate missing []) hne)
      have hlater := ih (Nat.le_succ_of_le hrun)
      rw [hrest] at hlater
      rw [List.replicate_succ, List.cons_append, hrest, collapseLines, if_pos ⟨rfl, hrun⟩, hlater,
        Nat.succ_add_eq_add_succ]

/-- Of blank lines that are put after a line with something in it the first one stays. -/
theorem collapseLines_one_replicate (missing : Nat) {lines : List Text} (hne : lines ≠ []) :
    collapseLines 1 (List.replicate (missing + 1) [] ++ lines) =
      [] :: collapseLines (2 + missing) lines := by
  obtain ⟨next, others, hrest⟩ :=
    List.exists_cons_of_ne_nil (List.append_ne_nil_of_right_ne_nil (List.replicate missing []) hne)
  have hlater := collapseLines_replicate (Nat.le_refl 2) missing hne
  rw [hrest] at hlater
  rw [List.replicate_succ, List.cons_append, hrest, collapseLines, if_neg (by omega), if_pos rfl,
    hlater]

theorem spaceBlocks_ne_nil {lines : List Text} (hne : lines ≠ []) : spaceBlocks lines ≠ [] := by
  obtain ⟨first, others, rfl⟩ := List.exists_cons_of_ne_nil hne
  simp [spaceBlocks]

theorem ne_nil_of_closesBlock {line : Text} (hcloses : closesBlock line = true) : line ≠ [] := by
  rintro rfl
  simp [closesBlock] at hcloses

theorem length_spaced_le (run : Nat) (lines : List Text) :
    (collapseLines run (spaceBlocks lines)).length ≤ lines.length + lines.countP closesBlock := by
  -- For every run, since the lines after a block are reached with any number of line feeds passed.
  induction lines generalizing run with
  | nil => simp [spaceBlocks, collapseLines]
  | cons line lines ih =>
      rw [spaceBlocks, List.length_cons, List.countP_cons]
      by_cases hnil : lines = []
      · subst hnil
        simp [spaceBlocks, missingBlanks, collapseLines]
      · have hne := spaceBlocks_ne_nil hnil
        cases hcloses : closesBlock line with
        | false =>
            obtain ⟨run', hle⟩ := length_collapseLines_cons run line hne
            have hlater := ih run'
            simp only [Bool.false_eq_true, if_false, List.replicate_zero, List.cons_append,
              List.nil_append, Nat.add_zero]
            omega
        | true =>
            simp only [if_true, List.cons_append]
            have hline := ne_nil_of_closesBlock hcloses
            rw [collapseLines_cons hline (List.append_ne_nil_of_right_ne_nil _ hne),
              List.length_cons]
            cases missingBlanks lines with
            | zero =>
                have hlater := ih 1
                rw [List.replicate_zero, List.nil_append]
                omega
            | succ missing =>
                have hlater := ih (2 + missing)
                rw [collapseLines_one_replicate missing hne, List.length_cons]
                omega

end Layout

/-! ### Formatted texts -/

/-- The lines of a formatted text are the laid out lines after the passes over blank lines. -/
theorem lines_of_format {language : Option Text} {family : Family}
    (hfamily : Language.family? (language.getD []) = some family) {unit : IndentUnit}
    (hunit : '\n' ∉ unit.text) {text out : Text} (hformat : format language unit text = .ok out) :
    ∃ laid, Layout.indent family (some (Language.normalize (language.getD []))) unit text.lines =
        .ok laid ∧
      out.lines = Layout.collapseLines 0
        (Layout.settle family (some (Language.normalize (language.getD []))) laid) := by
  obtain ⟨laid, hindent, rfl⟩ := (format_eq_ok_iff hfamily).mp hformat
  have hlaid := Layout.laid_of_indent hindent
  refine ⟨laid, hindent, ?_⟩
  rw [Layout.lines_collapse, Layout.lines_ofLines]
  · refine Layout.settle_ne_nil ?_ _ _
    intro hnil
    obtain ⟨first, rest, hlines⟩ := Layout.exists_lines text
    rw [hnil, hlines] at hlaid
    cases hlaid
  · exact fun line => newline_not_mem_settle hunit hlaid

/-- **The shape of every formatted text**: no three line feeds in a row, no line with a blank at its
end, and no more lines than before, but for style sheets: there at most one more for every line with
a closing brace and no opening one. -/
theorem format_shape (language : Text) (hsupported : Language.isSupported language = true)
    (unit : IndentUnit) (hunit : ∀ c ∈ unit.text, isBlank c = true ∧ c ≠ '\n') (text : Text)
    (hplain : markOpen ∉ text) (hlength : text.length ≤ numberLimit) :
    ∃ out, format (some language) unit text = .ok out ∧ ¬['\n', '\n', '\n'] <:+: out ∧
      (∀ line ∈ out.lines, ∀ c, line.getLast? = some c → isBlank c = false) ∧
      out.lines.length ≤ text.lines.length +
        if Language.family? language = some .css then
          text.lines.countP fun line => '}' ∈ line ∧ '{' ∉ line
        else 0 := by
  obtain ⟨family, hfamily⟩ := Option.isSome_iff_exists.mp hsupported
  obtain ⟨out, hformat⟩ := (@exists_format_iff (some language) family hfamily unit text).mpr
    (layable_of_plain family _ hplain hlength)
  have hblanks : unit.text.all isBlank = true :=
    List.all_eq_true.mpr fun c hc => (hunit c hc).1
  have hbreak : '\n' ∉ unit.text := fun hmem => (hunit _ hmem).2 rfl
  obtain ⟨laid, hindent, hlines⟩ := @lines_of_format (some language) family hfamily unit hbreak text
    out hformat
  have hlaid := Layout.laid_of_indent hindent
  have hlinesPlain : ∀ line ∈ text.lines, markOpen ∉ line ∧ line.length ≤ numberLimit :=
    fun line hline => plain_of_mem_lines hline hplain hlength
  refine ⟨out, hformat, ?_, ?_, ?_⟩
  · obtain ⟨settled, _, rfl⟩ := (@format_eq_ok_iff (some language) family hfamily unit text out).mp
      hformat
    exact (Layout.not_infix_collapseFrom 0 _).1
  · rw [hlines]
    intro line hline
    exact Layout.ended_settle (Layout.ended_of_laid hlaid hlinesPlain) family _ line
      ((Layout.thinned_collapseLines 0 _).sublist.subset hline)
  · rw [hlines, hlaid.length_eq, hfamily]
    by_cases hcss : family = .css
    · subst hcss
      have hcount := Layout.countP_closesBlock_of_laid hblanks hlaid hlinesPlain
      rw [if_pos rfl]
      exact hcount ▸ Layout.length_spaced_le 0 laid
    · rw [if_neg (by simpa using hcss)]
      exact Nat.le_trans (Layout.length_collapseLines_le 0 _) (Layout.length_settle_le hcss _ laid)

/-- A style sheet in which a blank line is added after a block, and which ends with blanks. -/
theorem format_shape_css :
    ∃ out, format (some "CSS ".toList) ⟨[' '], 2⟩ "a\x7b b:c \x7d\n\x7d\nd\x7b\n\n\n\n  e:f  \n\x7d".toList =
        .ok out ∧
      ¬['\n', '\n', '\n'] <:+: out ∧
      (∀ line ∈ out.lines, ∀ c, line.getLast? = some c → isBlank c = false) ∧
      out.lines.length ≤ 10 := by
  obtain ⟨out, hformat, hbreaks, hended, hcount⟩ :=
    format_shape "CSS ".toList (by decide +kernel) ⟨[' '], 2⟩
      (List.forall_mem_singleton.mpr (by decide)) "a\x7b b:c \x7d\n\x7d\nd\x7b\n\n\n\n  e:f  \n\x7d".toList
      (by decide +kernel) (Nat.le_trans (by decide +kernel) Literal.addressLimit_le)
  refine ⟨out, hformat, hbreaks, hended, Nat.le_trans hcount ?_⟩
  decide +kernel

end SourceLayout
