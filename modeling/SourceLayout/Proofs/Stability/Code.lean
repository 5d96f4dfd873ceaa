import SourceLayout.Proofs.Layout.Reading

/-!
# Formatting code twice

The passes over blank lines and comments are done after one run. So a second run changes a formatted
text only while it indents: where a line is not tidied for good, or where its place is not found
again.
-/

namespace SourceLayout

open Literal (markOpen numberLimit)

namespace Layout

variable {family : Family} {language : Option Text} {unit : IndentUnit}

/-! ### Finding the place again -/

theorem tidy_of_layByWidth {line : Text} (hunit : unit.text.all isBlank = true)
    (hsolid : line.isEmptyLine = false) (hline : layByWidth family language unit line = .ok line) :
    Line.tidy family language line.trim = .ok line.trim := by
  rw [layByWidth, hsolid, if_neg Bool.false_ne_true] at hline
  obtain ⟨tidied, htidy, hindented⟩ := exists_of_map_eq_ok hline
  have htrim : line.trim = tidied := by
    rw [← hindented, trim_indented hunit _ (Line.trimmed_tidy htidy)]
  rw [htidy, htrim]

/-- Where only comments were moved away from their place, indenting by width moves only comments. -/
theorem Realigned.exists_byWidth {marker : Text} (hmarker : marker ≠ [])
    (hunit : unit.text.all isBlank = true) {lines lines' : List Text}
    (h : Realigned marker lines lines')
    (hlines : ∀ line ∈ lines', layByWidth family language unit line = .ok line) :
    ∃ laid, byWidth family language unit lines = .ok laid ∧ Realigned marker lines laid := by
  induction h with
  | nil => exact ⟨[], rfl, .nil⟩
  | same line _ ih =>
      obtain ⟨hline, hothers⟩ := List.forall_mem_cons.mp hlines
      obtain ⟨laid, hlaid, hrealigned⟩ := ih hothers
      exact ⟨line :: laid, byWidth_cons_eq_ok.mpr ⟨line, laid, hline, hlaid, rfl⟩,
        .same line hrealigned⟩
  | @comment line line' hmarked htrim lines lines' hbelow _ ih =>
      obtain ⟨hline, hothers⟩ := List.forall_mem_cons.mp hlines
      obtain ⟨laid, hlaid, hrealigned⟩ := ih hothers
      have hsolid := isEmptyLine_of_isMarked hmarker hmarked
      have hsolid' := isEmptyLine_of_isMarked hmarker (htrim ▸ hmarked)
      have htidy := tidy_of_layByWidth hunit hsolid' hline
      rw [← htrim] at htidy
      refine ⟨indented family unit (Indent.level family line) line.trim :: laid,
        byWidth_cons_eq_ok.mpr ⟨_, laid, ?_, hlaid, rfl⟩,
        .comment hmarked ?_ hbelow hrealigned⟩
      · rw [layByWidth, hsolid, if_neg Bool.false_ne_true, htidy]
        rfl
      · rw [trim_indented hunit _ (Text.trimmed_trim line)]

/-- What it takes to find the place of every line again: tidying is done with the lines, and their
levels can be read off the width they were given, or off the braces if these were what gave them
their levels. -/
structure Steady (family : Family) (language : Option Text) (unit : IndentUnit)
    (lines out : List Text) : Prop where
  settles : ∀ line ∈ lines, Line.Settles family language line
  width : usesDepth family out = false → unit.Matches family
  depth : usesDepth family out = true →
    usesDepth family lines = true ∧ ∀ line ∈ lines, KeepsDepth family language line

theorem Steady.exists_indent {lines laid : List Text} (hcode : family ≠ .css ∧ family ≠ .html)
    (hunit : unit.text.all isBlank = true)
    (hlines : ∀ line ∈ lines, markOpen ∉ line ∧ line.length ≤ numberLimit)
    (hindent : indent family language unit lines = .ok laid)
    (h : Steady family language unit lines (settle family language laid)) :
    ∃ again, indent family language unit (settle family language laid) = .ok again ∧
      Unmoved family language (settle family language laid) again := by
  obtain ⟨kept, hthinned, hunmoved⟩ := @exists_unmoved family language hcode laid
  cases hdepth : usesDepth family (settle family language laid) with
  | true =>
      -- The depth does not depend on where comments stand: count it on the lines before alignment.
      obtain ⟨hfirst, hkeeps⟩ := h.depth hdepth
      rw [indent, hfirst, if_pos rfl] at hindent
      refine ⟨kept, ?_, hunmoved⟩
      rw [indent, hdepth, if_pos rfl, byDepth, byDepthFrom, slotsFrom_congr hunmoved.sameTrims]
      exact byDepthFrom_again hindent hthinned hunit hlines h.settles hkeeps
  | false =>
      have hfamily : family ≠ .cFamily := by
        rintro rfl
        cases hdepth
      have hskip : ¬SkipsComments family language (settle family language laid) :=
        fun hskip => hfamily hskip.1
      -- However the first run told the levels, the width tells the same ones now.
      have hself := layByWidth_of_laid (laid_of_indent hindent) hfamily (h.width hdepth) hlines
        h.settles
      rw [Unmoved, if_neg hskip] at hunmoved
      obtain ⟨again, hagain, hrealigned⟩ := hunmoved.exists_byWidth (markerOf_ne_nil family) hunit
        fun line hline => hself line (hthinned.sublist.subset hline)
      refine ⟨again, ?_, ?_⟩
      · rw [indent, hdepth, if_neg Bool.false_ne_true]
        exact hagain
      · rwa [Unmoved, if_neg hskip]

end Layout

/-! ### Formatting again -/

section

variable {language : Text} {family : Family} (hfamily : Language.family? language = some family)
  (hcode : family ≠ .css ∧ family ≠ .html) {unit : IndentUnit} (hunit : '\n' ∉ unit.text)

include hfamily hcode hunit

theorem format_code_iff {text out : Text} :
    format (some language) unit text = .ok out ↔
      ∃ laid, Layout.indent family (some (Language.normalize language)) unit text.lines =
          .ok laid ∧
        out.lines = Layout.settle family (some (Language.normalize language)) laid := by
  have hcollapse : ∀ laid : List Text,
      Layout.collapseLines 0 (Layout.settle family (some (Language.normalize language)) laid) =
        Layout.settle family (some (Language.normalize language)) laid := by
    intro laid
    exact Layout.collapsed_of_hasBlankPair (Layout.settle_settle hcode laid).1 (by simp)
  rw [@format_eq_ok_iff_lines (some language) family hfamily unit hunit, Option.getD_some]
  simp only [hcollapse]

/-- A second run changes nothing exactly if its indenting does nothing but move comments. -/
theorem format_code_again_iff {text out : Text}
    (hformat : format (some language) unit text = .ok out) :
    format (some language) unit out = .ok out ↔
      ∃ laid, Layout.indent family (some (Language.normalize language)) unit out.lines =
          .ok laid ∧
        Layout.Unmoved family (some (Language.normalize language)) out.lines laid := by
  obtain ⟨first, _, hout⟩ := (format_code_iff hfamily hcode hunit).mp hformat
  have hsettled : Layout.settle family (some (Language.normalize language)) out.lines =
      out.lines := by
    rw [hout]
    exact (Layout.settle_settle hcode first).2
  rw [format_code_iff hfamily hcode hunit]
  refine exists_congr fun laid => and_congr_right fun hindent => ?_
  rw [eq_comm]
  exact Layout.settle_eq_iff hcode hsettled (Layout.laid_of_indent hindent).length_eq.symm

end

/-! ### Lines that one run does not settle -/

instance (family : Family) (language : Option Text) (line : Text) :
    Decidable (Line.Settles family language line) :=
  match htidy : Line.tidy family language line with
  | .error _ => isTrue fun tidied h => by simp [htidy] at h
  | .ok out =>
      decidable_of_iff ((Line.tidy family language out).toOption = some out)
        ⟨fun hout tidied h => by
          obtain rfl := Except.ok.inj (htidy.symm.trans h)
          exact Line.eq_ok_of_toOption hout,
        fun h => by rw [h out htidy]; rfl⟩

section

variable {language : Text} {family : Family} (hfamily : Language.family? language = some family)
  (hcode : family ≠ .css ∧ family ≠ .html)

include hfamily hcode

/-- What tidying gives in every language of code. -/
theorem tidy_of_families {line tidied : Text}
    (hall : Language.families.all (fun entry => entry.2 == .css || entry.2 == .html ||
      (Line.tidy entry.2 (some entry.1.toList) line).toOption == some tidied) = true) :
    Line.tidy family (some (Language.normalize language)) line = .ok tidied := by
  obtain ⟨entry, hentry, rfl, hname⟩ := Language.exists_of_family? hfamily
  have hown := List.all_eq_true.mp hall entry hentry
  rw [hname]
  apply Line.eq_ok_of_toOption
  simpa [hcode.1, hcode.2] using hown

/-- The comma gets its blank after the sign next to it was looked at, so that the sign is put next
to its operand only the second time. -/
theorem format_sign {unit : IndentUnit} (hunit : '\n' ∉ unit.text) :
    format (some language) unit "a,~ b".toList = .ok "a, ~ b".toList ∧
      format (some language) unit "a, ~ b".toList = .ok "a, ~b".toList := by
  constructor
  · exact @format_line (some language) family hfamily unit hunit _ _ (by decide) (by decide)
      (by decide) (by decide) (by decide) (tidy_of_families hfamily hcode (by decide +kernel))
      (by decide)
  · exact @format_line (some language) family hfamily unit hunit _ _ (by decide) (by decide)
      (by decide) (by decide) (by decide) (tidy_of_families hfamily hcode (by decide +kernel))
      (by decide)

end

/-- A name after so many spaces. -/
def shifted (columns : Nat) : Text :=
  List.replicate columns ' ' ++ ['a']

theorem all_isBlank_spaces (columns : Nat) :
    (List.replicate columns ' ').all isBlank = true := by
  refine List.all_eq_true.mpr fun c hc => ?_
  rw [List.eq_of_mem_replicate hc]
  decide

theorem newline_not_mem_shifted (columns : Nat) : '\n' ∉ shifted columns := by
  simp [shifted]

theorem trim_shifted (columns : Nat) : (shifted columns).trim = ['a'] := by
  rw [shifted, Text.trim_blanks_append (all_isBlank_spaces columns)]
  decide

theorem isEmptyLine_shifted (columns : Nat) : (shifted columns).isEmptyLine = false := by
  rw [Bool.eq_false_iff, Ne, ← Text.trim_eq_nil_iff, trim_shifted]
  decide

theorem width_shifted (unit : Int) (columns : Nat) :
    Indent.width unit (shifted columns) = columns := by
  rw [shifted, Layout.width_append (all_isBlank_spaces columns), Layout.width_replicate,
    Layout.width_eq_zero (by decide), Int.add_zero]

theorem levels_eq_replicate {unit : IndentUnit} {columns : Nat}
    (hunit : unit.levels 1 = List.replicate columns ' ') (count : Nat) :
    unit.levels count = List.replicate (count * columns) ' ' := by
  induction count with
  | zero => simp [IndentUnit.levels]
  | succ count ih =>
      rw [IndentUnit.levels_succ, hunit, ih, List.replicate_append_replicate, Nat.succ_mul,
        Nat.add_comm]

theorem usesDepth_shifted {family : Family} (hfamily : family ≠ .cFamily) {columns : Nat}
    (hcolumns : 0 < columns) : Layout.usesDepth family [shifted columns] = false := by
  have hsolid := isEmptyLine_shifted columns
  obtain ⟨others, rfl⟩ := Nat.exists_eq_add_one.mpr hcolumns
  have hindentation : (shifted (others + 1)).indentation ≠ [] := by
    simp [shifted, List.replicate_succ, Text.indentation, show isBlank ' ' = true by decide]
  cases family with
  | javascript => simp [Layout.usesDepth, Indent.isFlat, hsolid, hindentation]
  | cFamily => exact absurd rfl hfamily
  | html | css | python => rfl

/-- The level of a line is told by the columns the family takes for one, and written with the
columns of the unit. -/
theorem format_shifted {language : Text} {family : Family}
    (hfamily : Language.family? language = some family) (hcode : family ≠ .css ∧ family ≠ .html)
    (hwidth : family ≠ .cFamily) {unit : IndentUnit} (hbreak : '\n' ∉ unit.text) {columns : Nat}
    (hunit : unit.levels 1 = List.replicate columns ' ') {count : Nat} (hcount : 0 < count) :
    format (some language) unit (shifted (family.unitWidth * count)) =
      .ok (shifted (count * columns)) := by
  have hpos := family.one_lt_unitWidth
  have htidy : Line.tidy family (some (Language.normalize language)) ['a'] = .ok ['a'] :=
    tidy_of_families hfamily hcode (by decide +kernel)
  have hlevel : Indent.level family (shifted (family.unitWidth * count)) = count := by
    refine @Layout.level_of_width family _ count 0 (by omega) ?_
    rw [width_shifted, Int.natCast_mul]
    rfl
  have hindented : Layout.indented family unit count ['a'] = shifted (count * columns) := by
    have hshift : Layout.shift family ['a'] = [] := Layout.shift_eq_nil (by decide)
    rw [Layout.indented_eq, Layout.margin, levels_eq_replicate hunit, hshift, List.append_nil,
      shifted]
  have hlay : Layout.layByWidth family (some (Language.normalize language)) unit
      (shifted (family.unitWidth * count)) = .ok (shifted (count * columns)) := by
    rw [Layout.layByWidth, isEmptyLine_shifted, if_neg Bool.false_ne_true, trim_shifted, htidy,
      hlevel, ← hindented]
    rfl
  refine (format_code_iff hfamily hcode hbreak).mpr ⟨[shifted (count * columns)], ?_, ?_⟩
  · have hcolumns : 0 < family.unitWidth * count := Nat.mul_pos (by omega) hcount
    rw [Layout.lines_eq_self (newline_not_mem_shifted _), Layout.indent,
      usesDepth_shifted hwidth hcolumns, if_neg Bool.false_ne_true]
    exact Layout.byWidth_cons_eq_ok.mpr ⟨_, [], hlay, rfl, rfl⟩
  · rw [Layout.lines_eq_self (newline_not_mem_shifted _), Layout.settle_singleton]

/-- **Formatting code twice**, under any indentation of blanks. The second run finds every line
where the first one put it, and so changes nothing, if the lines are steady; and it changes nothing
exactly if its indenting does nothing but move comments. No language has steady lines only: a sign
after a comma that no blank follows is put next to its operand the second time. And where levels are
told by the width, an indentation of spaces that is not as wide as the family takes it to be makes
lines move each time. -/
theorem format_code_again (language : Text) (family : Family)
    (hfamily : Language.family? language = some family) (hcode : family ≠ .css ∧ family ≠ .html)
    (unit : IndentUnit) (hunit : ∀ c ∈ unit.text, isBlank c = true ∧ c ≠ '\n') :
    (∀ text, markOpen ∉ text → text.length ≤ numberLimit →
      ∃ out, format (some language) unit text = .ok out ∧
        (Layout.Steady family (some (Language.normalize language)) unit text.lines out.lines →
          format (some language) unit out = .ok out) ∧
        (format (some language) unit out = .ok out ↔
          ∃ laid, Layout.indent family (some (Language.normalize language)) unit out.lines =
              .ok laid ∧
            Layout.Unmoved family (some (Language.normalize language)) out.lines laid)) ∧
    (format (some language) unit "a,~ b".toList = .ok "a, ~ b".toList ∧
      format (some language) unit "a, ~ b".toList = .ok "a, ~b".toList) ∧
    (family ≠ .cFamily → ∀ columns, 0 < columns →
      unit.levels 1 = List.replicate columns ' ' →
      format (some language) unit (shifted (family.unitWidth * family.unitWidth)) =
          .ok (shifted (family.unitWidth * columns)) ∧
        format (some language) unit (shifted (family.unitWidth * columns)) =
          .ok (shifted (columns * columns))) := by
  have hbreak : '\n' ∉ unit.text := fun hmem => (hunit _ hmem).2 rfl
  have hblanks : unit.text.all isBlank = true :=
    List.all_eq_true.mpr fun c hc => (hunit c hc).1
  refine ⟨fun text hplain hlength => ?_, format_sign hfamily hcode hbreak,
    fun hwidth columns hcolumns hlevels => ⟨?_, ?_⟩⟩
  · obtain ⟨out, hformat⟩ := (@exists_format_iff (some language) family hfamily unit text).mpr
      (layable_of_plain family _ hplain hlength)
    have hiff := format_code_again_iff hfamily hcode hbreak hformat
    refine ⟨out, hformat, fun hsteady => hiff.mpr ?_, hiff⟩
    obtain ⟨laid, hindent, hlines⟩ := (format_code_iff hfamily hcode hbreak).mp hformat
    rw [hlines] at hsteady ⊢
    exact hsteady.exists_indent hcode hblanks
      (fun line hline => plain_of_mem_lines hline hplain hlength) hindent
  · exact format_shifted hfamily hcode hwidth hbreak hlevels
      (Nat.zero_lt_of_lt family.one_lt_unitWidth)
  · exact format_shifted hfamily hcode hwidth hbreak hlevels hcolumns

/-- A comment that is moved to the code below it, and blank lines that go. -/
theorem format_code_again_python :
    ∃ out, format (some "python".toList) ⟨[' '], 4⟩
        "if a :\n\tb=[ 1 ]\n\n\n  #  c\n\n        d(e ,f)".toList = .ok out ∧
      format (some "python".toList) ⟨[' '], 4⟩ out = .ok out := by
  obtain ⟨hagain, _, _⟩ := format_code_again "python".toList .python (by decide +kernel)
    (by decide) ⟨[' '], 4⟩ (List.forall_mem_singleton.mpr (by decide))
  obtain ⟨out, hformat, hsteady, _⟩ := hagain
    "if a :\n\tb=[ 1 ]\n\n\n  #  c\n\n        d(e ,f)".toList (by decide +kernel)
    (Nat.le_trans (by decide +kernel) Literal.addressLimit_le)
  have hname : Language.normalize "python".toList = "python".toList := by decide +kernel
  have hsettles : (Text.lines "if a :\n\tb=[ 1 ]\n\n\n  #  c\n\n        d(e ,f)".toList).all
      (fun line => decide (Line.Settles .python (some "python".toList) line)) = true := by
    decide +kernel
  refine ⟨out, hformat, hsteady ⟨fun line hline => ?_, fun _ => .inl (by decide), nofun⟩⟩
  rw [hname]
  exact of_decide_eq_true (List.all_eq_true.mp hsettles line hline)

end SourceLayout
