import SourceLayout.Proofs.Layout.Reread
import SourceLayout.Proofs.Outcome
import SourceLayout.Proofs.Layout.Settled

/-!
# Lines keep their nesting

The indentation of Python code tells its blocks. A line of code gets as many levels as its width has
whole units, and no pass over the lines takes it away from there: the only lines that are moved are
comments. So lines of the same width stay aligned, and a line stays deeper than another one if its
width has more units. Less than one unit of difference may be lost.
-/

namespace SourceLayout

open Literal (markOpen numberLimit)

/-! ### Code that stays code -/

theorem Comment.squeezeRuns_cons {c : Char} (hc : isBlank c = false) (cs : Text) :
    squeezeRuns (c :: cs) = c :: squeezeRuns cs := by
  cases cs with
  | nil => rfl
  | cons d ds => simp [squeezeRuns, hc]

/-- A line for the interpreter stays one. -/
theorem Comment.startsWith_normalize {comment : Text}
    (hstart : comment.trim.startsWith ['#', '!'] = true) :
    (normalize comment).startsWith ['#', '!'] = true := by
  obtain ⟨cs, hcs⟩ := List.isPrefixOf_iff_prefix.mp hstart
  have hhash : isBlank '#' = false := by decide
  have hbang : isBlank '!' = false := by decide
  have hnormal : normalize comment = '#' :: '!' :: squeezeRuns cs := by
    rw [normalize, ← hcs]
    simp [hbang, squeezeRuns_cons hhash, squeezeRuns_cons hbang]
  rw [hnormal]
  rfl

theorem Line.tidy_interpreter {language : Option Text} {line : Text}
    (hstart : line.trim.startsWith ['#', '!'] = true) :
    tidy .python language line = .ok (Comment.normalize line.trim) := by
  obtain ⟨cs, hcs⟩ := List.isPrefixOf_iff_prefix.mp hstart
  have hsplit : Comment.split .python line.trim = ⟨[], line.trim⟩ := by
    rw [← hcs]
    rfl
  have hcomment : line.trim.isEmpty = false := by
    rw [← hcs]
    rfl
  rw [tidy]
  dsimp only
  rw [hcomment, hsplit, isComment, Comment.Split.hasComment, hcomment]
  rfl

/-- Tidying turns no line of code into a comment. -/
theorem Line.isMarked_tidy {language : Option Text} {line tidied : Text}
    (hplain : markOpen ∉ line) (htidy : tidy .python language line = .ok tidied)
    (hline : Comment.isMarked ['#'] line.trim = false) :
    Comment.isMarked ['#'] tidied = false := by
  have hdirective : tidied.startsWith ['#'] = line.trim.startsWith ['#'] :=
    Layout.isDirective_tidy hplain htidy
  cases hstart : line.trim.startsWith ['#', '!'] with
  | true =>
      obtain rfl := Except.ok.inj ((tidy_interpreter hstart).symm.trans htidy)
      rw [Comment.isMarked, Comment.startsWith_normalize (by rwa [Text.trim_trim])]
      simp
  | false =>
      rw [Comment.isMarked, hstart] at hline
      rw [Comment.isMarked, hdirective]
      simp_all

/-! ### Where a line of code stands -/

namespace Layout

/-- The lines that are not blank. -/
def filled (lines : List Text) : List Text :=
  lines.filter fun line => !line.isEmptyLine

theorem filled_blank_cons {line : Text} (hblank : line.isEmptyLine = true) (lines : List Text) :
    filled (line :: lines) = filled lines := by
  simp [filled, hblank]

theorem filled_cons {line : Text} (hsolid : line.isEmptyLine = false) (lines : List Text) :
    filled (line :: lines) = line :: filled lines := by
  simp [filled, hsolid]

theorem Thinned.filled_eq {lines kept : List Text} (h : Thinned lines kept) :
    filled kept = filled lines := by
  induction h with
  | nil => rfl
  | @keep line lines kept _ ih =>
      cases hline : line.isEmptyLine with
      | true => rw [filled_blank_cons hline, filled_blank_cons hline, ih]
      | false => rw [filled_cons hline, filled_cons hline, ih]
  | drop hblank _ ih => rw [filled_blank_cons hblank, ih]

variable {language : Option Text} {unit : IndentUnit}

/-- A line of code is put where its width says, and is still one there. -/
def Placed (unit : IndentUnit) (line out : Text) : Prop :=
  Comment.isStandalone .python line.trim = false →
    out.indentation = unit.levels (Indent.level .python line) ∧
      Comment.isStandalone .python out.trim = false

theorem indentation_append {blanks : Text} (hblanks : blanks.all isBlank = true) {t : Text}
    (ht : headIs isBlank t = false) : (blanks ++ t).indentation = blanks := by
  rw [Text.indentation, List.takeWhile_append_of_pos (List.all_eq_true.mp hblanks),
    ← Text.indentation, indentation_eq_nil ht, List.append_nil]

theorem placed_of_tidy (hunit : unit.text.all isBlank = true) {line tidied : Text}
    (hplain : markOpen ∉ line) (htidy : Line.tidy .python language line = .ok tidied) :
    Placed unit line (indented .python unit (Indent.level .python line) tidied) := by
  intro hcode
  have htrimmed := Line.trimmed_tidy htidy
  have hmargin : margin .python unit (Indent.level .python line) tidied =
      unit.levels (Indent.level .python line) := by
    rw [margin, shift, if_neg (by simp), List.append_nil]
  constructor
  · rw [indented_eq, hmargin, indentation_append (levels_all_isBlank hunit _) htrimmed.head]
  · rw [trim_indented hunit _ htrimmed]
    exact Line.isMarked_tidy hplain htidy hcode

theorem placed_of_byWidth (hunit : unit.text.all isBlank = true) {lines laid : List Text}
    (hlines : ∀ line ∈ lines, markOpen ∉ line ∧ line.length ≤ numberLimit)
    (hindent : byWidth .python language unit lines = .ok laid) :
    List.Forall₂ (Placed unit) (filled lines) (filled laid) := by
  induction lines generalizing laid with
  | nil =>
      cases hindent
      exact .nil
  | cons line lines ih =>
      obtain ⟨⟨hplain, _⟩, hlines⟩ := List.forall_mem_cons.mp hlines
      obtain ⟨first, rest, hfirst, hrest, rfl⟩ := byWidth_cons_eq_ok.mp hindent
      rw [layByWidth] at hfirst
      split at hfirst
      next hblank =>
          cases hfirst
          rw [filled_blank_cons hblank, filled_blank_cons rfl]
          exact ih hlines hrest
      next hsolid =>
          rw [Bool.not_eq_true] at hsolid
          obtain ⟨tidied, htidy, rfl⟩ := exists_of_map_eq_ok hfirst
          rw [tidy_trim] at htidy
          have hout : (indented .python unit (Indent.level .python line) tidied).isEmptyLine =
              false := by
            rw [isEmptyLine_indented hunit, Line.isEmptyLine_tidy hplain htidy, hsolid]
          rw [filled_cons hsolid, filled_cons hout]
          exact .cons (placed_of_tidy hunit hplain htidy) (ih hlines hrest)

/-- Alignment moves comments, and so leaves every line of code where it was put. -/
theorem Realigned.placed {lines settled kept : List Text} (h : Realigned ['#'] settled kept)
    (hplaced : List.Forall₂ (Placed unit) lines (filled kept)) :
    List.Forall₂ (Placed unit) lines (filled settled) := by
  induction h generalizing lines with
  | nil => exact hplaced
  | same line _ ih =>
      cases hline : line.isEmptyLine with
      | true =>
          rw [filled_blank_cons hline] at hplaced ⊢
          exact ih hplaced
      | false =>
          rw [filled_cons hline] at hplaced ⊢
          cases hplaced with
          | cons hfirst hothers => exact .cons hfirst (ih hothers)
  | @comment line line' hmarked htrim _ _ _ _ ih =>
      have hmarked' : Comment.isMarked ['#'] line'.trim = true := htrim ▸ hmarked
      rw [filled_cons (isEmptyLine_of_isMarked (by simp) hmarked)]
      rw [filled_cons (isEmptyLine_of_isMarked (by simp) hmarked')] at hplaced
      cases hplaced with
      | cons hfirst hothers =>
          -- What became a comment was one, so that nothing is said of its place.
          refine .cons (fun hcode => ?_) (ih hothers)
          have hstays : Comment.isMarked ['#'] line'.trim = false := (hfirst hcode).2
          rw [hmarked'] at hstays
          cases hstays

theorem placed_of_indent (hunit : unit.text.all isBlank = true) {lines laid : List Text}
    (hlines : ∀ line ∈ lines, markOpen ∉ line ∧ line.length ≤ numberLimit)
    (hindent : indent .python language unit lines = .ok laid) :
    List.Forall₂ (Placed unit) (filled lines)
      (filled (collapseLines 0 (settle .python language laid))) := by
  obtain ⟨kept, hthinned, hunmoved⟩ := @exists_unmoved .python language (by decide) laid
  have hskip : ¬SkipsComments .python language (settle .python language laid) := nofun
  rw [Unmoved, if_neg hskip] at hunmoved
  rw [(thinned_collapseLines 0 _).filled_eq]
  refine hunmoved.placed ?_
  rw [hthinned.filled_eq]
  exact placed_of_byWidth hunit hlines hindent

end Layout

/-! ### Comparing indentations -/

namespace Layout

/-- The level of a line of Python is the number of whole units of four columns in its width. -/
theorem level_python (line : Text) :
    (Indent.level .python line : Int) = Indent.width 4 line / 4 := by
  have hwidth := @width_nonneg 4 (by decide) line
  rw [Indent.level, show ((Family.unitWidth .python : Nat) : Int) = 4 from rfl,
    Int.fdiv_eq_ediv_of_nonneg _ (by decide), Int.toNat_of_nonneg (by omega)]

/-- The lines of code of a Python text, each with what formatting makes of it. -/
def codeLines (text out : Text) : List (Text × Text) :=
  ((filled text.lines).zip (filled out.lines)).filter fun pair =>
    !Comment.isStandalone .python pair.1.trim

/-- **Nesting is kept.** Every line has its counterpart; code that is shallower stays so, and code
of the same width is indented the same. What it is to be shallower is a parameter. -/
structure Nests (shallower : Text → Text → Prop) (text out : Text) : Prop where
  length_eq : (filled out.lines).length = (filled text.lines).length
  shallower : ∀ line ∈ codeLines text out, ∀ other ∈ codeLines text out,
    shallower line.1 other.1 → line.2.indentation.length < other.2.indentation.length
  aligned : ∀ line ∈ codeLines text out, ∀ other ∈ codeLines text out,
    Indent.width 4 line.1 = Indent.width 4 other.1 → line.2.indentation = other.2.indentation

/-- Fewer columns of leading white space, a tab counting as four. -/
def Narrower (line other : Text) : Prop :=
  Indent.width 4 line < Indent.width 4 other

/-- Fewer whole units of four columns. -/
def FewerUnits (line other : Text) : Prop :=
  Indent.width 4 line / 4 < Indent.width 4 other / 4

section

variable {unit : IndentUnit} {text out : Text}
  (h : List.Forall₂ (Placed unit) (filled text.lines) (filled out.lines))

include h

theorem indentation_of_placed {line : Text × Text} (hline : line ∈ codeLines text out) :
    line.2.indentation = unit.levels (Indent.level .python line.1) := by
  obtain ⟨hzip, hcode⟩ := List.mem_filter.mp hline
  rw [Bool.not_eq_true'] at hcode
  exact ((List.forall₂_iff_zip.mp h).2 hzip hcode).1

theorem aligned_of_placed {line other : Text × Text} (hline : line ∈ codeLines text out)
    (hother : other ∈ codeLines text out)
    (hunits : Indent.width 4 line.1 / 4 = Indent.width 4 other.1 / 4) :
    line.2.indentation = other.2.indentation := by
  rw [← level_python, ← level_python, Int.natCast_inj] at hunits
  rw [indentation_of_placed h hline, indentation_of_placed h hother, hunits]

/-- Lines that are placed nest by their whole units. -/
theorem nests_of_placed (hcolumns : 0 < unit.length) : Nests FewerUnits text out where
  length_eq := h.length_eq.symm
  shallower := by
    intro line hline other hother hunits
    rw [FewerUnits, ← level_python, ← level_python, Int.ofNat_lt] at hunits
    rw [indentation_of_placed h hline, indentation_of_placed h hother, unit.length_levels,
      unit.length_levels]
    exact Nat.mul_lt_mul_of_pos_right hunits hcolumns
  aligned := by
    intro line hline other hother hwidth
    exact aligned_of_placed h hline hother (by rw [hwidth])

end

end Layout

/-- **Python code keeps its nesting**, under every unit that options give: of two lines of code the
one with fewer whole units of four columns before it stays the shallower one, and as many units, so
in particular the same width, give the same indentation. -/
theorem exists_format_nests [Machine] (language : Text)
    (hfamily : Language.family? language = some .python) (spaces : Bool) (tabSize : Value)
    (unit : IndentUnit) (hunit : Options.unitOf spaces tabSize = .ok unit) (text : Text)
    (hplain : markOpen ∉ text) (hlength : text.length ≤ numberLimit) :
    ∃ out, format (some language) unit text = .ok out ∧
      Layout.Nests Layout.FewerUnits text out ∧
      ∀ line ∈ Layout.codeLines text out, ∀ other ∈ Layout.codeLines text out,
        Indent.width 4 line.1 / 4 = Indent.width 4 other.1 / 4 →
          line.2.indentation = other.2.indentation := by
  obtain ⟨hchar, htimes⟩ := Options.unitOf_eq_ok hunit
  have hblanks : unit.text.all isBlank = true := by
    rcases hchar with h | h <;> rw [h] <;> decide
  have hbreak : '\n' ∉ unit.text := by
    rcases hchar with h | h <;> rw [h] <;> decide
  have hcolumns : 0 < unit.length := by
    rcases hchar with h | h <;> simpa [IndentUnit.length, h] using htimes
  obtain ⟨out, hformat⟩ := (@exists_format_iff (some language) .python hfamily unit text).mpr
    (layable_of_plain .python _ hplain hlength)
  obtain ⟨laid, hindent, hlines⟩ :=
    @lines_of_format (some language) .python hfamily unit hbreak text out hformat
  have hplaced : List.Forall₂ (Layout.Placed unit) (Layout.filled text.lines)
      (Layout.filled out.lines) := by
    rw [hlines]
    exact Layout.placed_of_indent hblanks
      (fun line hline => plain_of_mem_lines hline hplain hlength) hindent
  exact ⟨out, hformat, Layout.nests_of_placed hplaced hcolumns,
    fun line hline other hother => Layout.aligned_of_placed hplaced hline hother⟩

/-- A block of mixed tabs and spaces with a comment that moves, under a unit of two spaces. -/
theorem exists_format_nests_mixed :
    ∃ out,
      format (some "Python".toList) ⟨[' '], 2⟩ "if a:\n\tif b:\n         c\n# d\n    e".toList =
        .ok out ∧
      Layout.Nests Layout.FewerUnits "if a:\n\tif b:\n         c\n# d\n    e".toList out := by
  obtain ⟨out, hformat, hnests, _⟩ :=
    exists_format_nests "Python".toList (by decide +kernel) true (.int 2) ⟨[' '], 2⟩ rfl
      "if a:\n\tif b:\n         c\n# d\n    e".toList (by decide +kernel)
      (Nat.le_trans (by decide +kernel) Literal.addressLimit_le)
  exact ⟨out, hformat, hnests⟩

/-- Two columns are no unit: a block that is indented by them is flat afterwards. -/
theorem format_block_of_two :
    Options.unitOf true (.int 4) = .ok ⟨[' '], 4⟩ ∧ markOpen ∉ "if a:\n  b".toList ∧
      format (some "python".toList) ⟨[' '], 4⟩ "if a:\n  b".toList =
        .ok "if a:\nb".toList ∧
      ¬Layout.Nests Layout.Narrower "if a:\n  b".toList "if a:\nb".toList := by
  refine ⟨rfl, by decide +kernel, Line.eq_ok_of_toOption (by decide +kernel), fun h => ?_⟩
  have hnarrower : Layout.Narrower "if a:".toList "  b".toList := by
    rw [Layout.Narrower]
    decide +kernel
  have hless := h.shallower ("if a:".toList, "if a:".toList) (by decide +kernel)
    ("  b".toList, "b".toList) (by decide +kernel) hnarrower
  exact absurd hless (by decide +kernel)

end SourceLayout
