import SourceLayout.Proofs.Layout.Rerun

/-!
# Indenting indented lines

A line that was indented is indented to itself, if tidying is done with it and its place is found
again. Its width tells its level if one level is written as wide as the family takes it to be; the
braces before it tell its level if tidying leaves them as many as they were.
-/

namespace SourceLayout

open Literal (markOpen numberLimit)

/-! ### Reading a level off the width -/

/-- An indentation of which one level is as wide as the family takes it to be. -/
def IndentUnit.Matches (unit : IndentUnit) (family : Family) : Prop :=
  unit.levels 1 = List.replicate family.unitWidth ' ' ∨ unit.levels 1 = ['\t']

theorem IndentUnit.levels_succ (unit : IndentUnit) (count : Nat) :
    unit.levels (count + 1) = unit.levels 1 ++ unit.levels count := by
  rw [IndentUnit.levels, IndentUnit.levels, IndentUnit.levels, ← List.flatten_append,
    List.replicate_append_replicate, Nat.add_mul, Nat.add_comm]

theorem Family.one_lt_unitWidth (family : Family) : 1 < family.unitWidth := by
  cases family <;> decide

section

variable {unit : IndentUnit} {family : Family}

theorem IndentUnit.Matches.text_subset (h : unit.Matches family) : unit.text ⊆ unit.levels 1 := by
  have hne : unit.levels 1 ≠ [] := by
    rcases h with h | h
    · rw [h, Ne, List.replicate_eq_nil_iff]
      have := family.one_lt_unitWidth
      omega
    · simp [h]
  cases htimes : unit.times with
  | zero => simp [IndentUnit.levels, htimes] at hne
  | succ times =>
      intro c hc
      simp [IndentUnit.levels, htimes, List.replicate_succ, hc]

theorem IndentUnit.Matches.mem (h : unit.Matches family) {c : Char} (hc : c ∈ unit.text) :
    c = ' ' ∨ c = '\t' := by
  have hmem := h.text_subset hc
  rcases h with h | h
  · rw [h] at hmem
    exact .inl (List.eq_of_mem_replicate hmem)
  · rw [h, List.mem_singleton] at hmem
    exact .inr hmem

theorem IndentUnit.Matches.all_isBlank (h : unit.Matches family) :
    unit.text.all isBlank = true := by
  refine List.all_eq_true.mpr fun c hc => ?_
  rcases h.mem hc with rfl | rfl <;> decide

theorem IndentUnit.Matches.newline_not_mem (h : unit.Matches family) : '\n' ∉ unit.text := by
  intro hmem
  rcases h.mem hmem with h | h <;> revert h <;> decide

end

namespace Layout

theorem width_blank_cons {c : Char} (hc : isBlank c = true) (unit : Int) (line : Text) :
    Indent.width unit (c :: line) = (if c = '\t' then unit else 1) + Indent.width unit line := by
  rw [Indent.width, Text.indentation, List.takeWhile_cons_of_pos hc, List.foldr_cons]
  rfl

theorem width_append {blanks : Text} (hblanks : blanks.all isBlank = true) (unit : Int)
    (t : Text) :
    Indent.width unit (blanks ++ t) = Indent.width unit blanks + Indent.width unit t := by
  induction blanks with
  | nil => rw [List.nil_append, show Indent.width unit [] = 0 from rfl, Int.zero_add]
  | cons c blanks ih =>
      rw [List.all_cons, Bool.and_eq_true] at hblanks
      rw [List.cons_append, width_blank_cons hblanks.1, width_blank_cons hblanks.1, ih hblanks.2,
        Int.add_assoc]

theorem width_eq_zero {t : Text} (ht : headIs isBlank t = false) (unit : Int) :
    Indent.width unit t = 0 := by
  rw [Indent.width, indentation_eq_nil ht, List.foldr_nil]

theorem width_replicate (unit : Int) (columns : Nat) :
    Indent.width unit (List.replicate columns ' ') = columns := by
  induction columns with
  | zero => rfl
  | succ columns ih =>
      have hspace : isBlank ' ' = true := by decide
      rw [List.replicate_succ, width_blank_cons hspace, ih, if_neg (by decide)]
      omega

theorem width_nonneg {unit : Int} (hunit : 0 ≤ unit) (line : Text) :
    0 ≤ Indent.width unit line := by
  rw [Indent.width]
  induction line.indentation with
  | nil => exact Int.le_refl 0
  | cons c cs ih =>
      rw [List.foldr_cons]
      split <;> omega

variable {family : Family} {language : Option Text} {unit : IndentUnit}

theorem width_levels (h : unit.Matches family) (count : Nat) :
    Indent.width family.unitWidth (unit.levels count) = family.unitWidth * count := by
  have hone : Indent.width family.unitWidth (unit.levels 1) = family.unitWidth := by
    rcases h with h | h
    · rw [h, width_replicate]
    · have htab : isBlank '\t' = true := by decide
      rw [h, width_blank_cons htab, if_pos rfl, width_eq_zero rfl, Int.add_zero]
  induction count with
  | zero =>
      rw [IndentUnit.levels, Nat.zero_mul, List.replicate_zero, List.flatten_nil,
        width_eq_zero rfl]
      simp
  | succ count ih =>
      rw [IndentUnit.levels_succ, width_append (levels_all_isBlank h.all_isBlank 1), hone, ih,
        Int.natCast_add, Int.mul_add, Int.natCast_one, Int.mul_one, Int.add_comm]

/-- The level is the number of whole units in the width. -/
theorem level_of_width {line : Text} {count more : Nat} (hmore : more < family.unitWidth)
    (hwidth : Indent.width family.unitWidth line = family.unitWidth * count + more) :
    Indent.level family line = count := by
  have hpos := family.one_lt_unitWidth
  have hdiv : (family.unitWidth * count + more) / family.unitWidth = count := by
    rw [Nat.mul_add_div (by omega), Nat.div_eq_of_lt hmore, Nat.add_zero]
  rw [Indent.level, hwidth, ← Int.natCast_mul, ← Int.natCast_add, ← Int.ofNat_fdiv, hdiv,
    Int.toNat_natCast]

/-- The level a line was given is the level it has. -/
theorem level_indented (h : unit.Matches family) (count : Nat) {tidied : Text}
    (htidied : headIs isBlank tidied = false) :
    Indent.level family (indented family unit count tidied) = count := by
  have hblanks := levels_all_isBlank h.all_isBlank count
  rw [indented_eq, margin, List.append_assoc, shift]
  split
  · -- One column more does not make a level.
    refine level_of_width family.one_lt_unitWidth ?_
    rw [width_append hblanks, width_levels h, width_append (by decide), width_eq_zero htidied]
    rfl
  · refine level_of_width (Nat.zero_lt_of_lt family.one_lt_unitWidth) ?_
    rw [width_append hblanks, width_levels h, List.nil_append, width_eq_zero htidied]
    rfl

end Layout

/-! ### Lines whose width is read again -/

theorem Line.isEmptyLine_tidy {family : Family} {language : Option Text} {line out : Text}
    (hplain : markOpen ∉ line) (htidy : Line.tidy family language line = .ok out) :
    out.isEmptyLine = line.isEmptyLine := by
  rw [Bool.eq_iff_iff, ← @Text.tokens_eq_nil_iff .marked, Line.tokens_tidy hplain htidy,
    Text.tokens_eq_nil_iff]

/-- A line that is tidied once and for all. -/
def Line.Settles (family : Family) (language : Option Text) (line : Text) : Prop :=
  ∀ tidied, tidy family language line = .ok tidied → tidy family language tidied = .ok tidied

namespace Layout

variable {family : Family} {language : Option Text} {unit : IndentUnit}

theorem trim_indented (hunit : unit.text.all isBlank = true) (level : Nat) {tidied : Text}
    (htrimmed : tidied.Trimmed) : (indented family unit level tidied).trim = tidied := by
  rw [indented_eq, Text.trim_blanks_append (margin_all_isBlank hunit level tidied),
    htrimmed.trim_eq]

theorem isEmptyLine_indented (hunit : unit.text.all isBlank = true) (level : Nat)
    (tidied : Text) :
    (indented family unit level tidied).isEmptyLine = tidied.isEmptyLine := by
  have hmargin : Text.isEmptyLine (margin family unit level tidied) = true :=
    margin_all_isBlank hunit level tidied
  rw [indented_eq, Text.isEmptyLine_append, hmargin, Bool.true_and]

theorem byWidth_eq_self {lines : List Text}
    (hlines : ∀ line ∈ lines, layByWidth family language unit line = .ok line) :
    byWidth family language unit lines = .ok lines := by
  induction lines with
  | nil => rfl
  | cons line lines ih =>
      obtain ⟨hline, hothers⟩ := List.forall_mem_cons.mp hlines
      exact byWidth_cons_eq_ok.mpr ⟨line, lines, hline, ih hothers, rfl⟩

theorem eq_nil_of_layByWidth {line : Text}
    (hline : layByWidth family language unit line = .ok line) (hblank : line.isEmptyLine = true) :
    line = [] := by
  rw [layByWidth, if_pos hblank] at hline
  exact (Except.ok.inj hline).symm

/-- A line that was laid out is laid out to itself, if tidying it again changes nothing. -/
theorem Laid.layByWidth_eq {line out : Text} (h : Laid family language unit line out)
    (hfamily : family ≠ .cFamily) (hunit : unit.Matches family) (hplain : markOpen ∉ line)
    (hsettles : Line.Settles family language line) :
    layByWidth family language unit out = .ok out := by
  cases h with
  | blank hblank => rfl
  | directive hc => exact absurd hc hfamily
  | @tidied tidied level hblank htidy =>
      have htrimmed := Line.trimmed_tidy htidy
      have hsolid : tidied.isEmptyLine = false :=
        (Line.isEmptyLine_tidy hplain htidy).trans hblank
      rw [layByWidth, isEmptyLine_indented hunit.all_isBlank, hsolid, if_neg Bool.false_ne_true,
        trim_indented hunit.all_isBlank level htrimmed, hsettles tidied htidy,
        level_indented hunit level htrimmed.head]
      rfl

theorem layByWidth_of_laid {lines laid : List Text}
    (h : List.Forall₂ (Laid family language unit) lines laid)
    (hfamily : family ≠ .cFamily) (hunit : unit.Matches family)
    (hlines : ∀ line ∈ lines, markOpen ∉ line ∧ line.length ≤ numberLimit)
    (hsettles : ∀ line ∈ lines, Line.Settles family language line) :
    ∀ line ∈ laid, layByWidth family language unit line = .ok line := by
  induction h with
  | nil => simp
  | cons hfirst _ ih =>
      obtain ⟨⟨hplain, _⟩, hothers⟩ := List.forall_mem_cons.mp hlines
      obtain ⟨hown, hlater⟩ := List.forall_mem_cons.mp hsettles
      exact List.forall_mem_cons.mpr
        ⟨hfirst.layByWidth_eq hfamily hunit hplain hown, ih hothers hlater⟩

/-! ### Lines whose braces are counted again -/

/-- A line after which as many braces are open as after the line it is tidied to. -/
def KeepsDepth (family : Family) (language : Option Text) (line : Text) : Prop :=
  ∀ tidied, Line.tidy family language line = .ok tidied →
    ∀ depth, depthPast family depth tidied = depthPast family depth line

theorem depthPast_eq_of_trim {line line' : Text} (htrim : line.trim = line'.trim) (depth : Nat) :
    depthPast family depth line = depthPast family depth line' := by
  rw [depthPast, depthPast, htrim]

theorem layAt_eq_of_trim {line line' : Text} (htrim : line.trim = line'.trim) (depth : Nat) :
    layAt family language unit depth line = layAt family language unit depth line' := by
  rw [layAt, layAt, ← tidy_trim family language line, ← tidy_trim family language line', htrim]

theorem depthPast_blank {line : Text} (hblank : line.isEmptyLine = true) (depth : Nat) :
    depthPast family depth line = depth := by
  rw [depthPast, (Text.trim_eq_nil_iff line).mpr hblank]
  rfl

/-- Tidying makes no line into one for the preprocessor. -/
theorem isDirective_tidy {line tidied : Text} (hplain : markOpen ∉ line)
    (htidy : Line.tidy family language line = .ok tidied) :
    Indent.isDirective tidied = Indent.isDirective line.trim := by
  have htokens : Text.tokens .marked tidied = Text.tokens .marked line.trim := by
    rw [Line.tokens_tidy hplain htidy, Text.tokens_trim]
  have hhead := (Line.trimmed_tidy htidy).head
  rw [Indent.isDirective, Indent.isDirective, ← Text.startsWith_solid hhead,
    ← Text.startsWith_solid (Text.trimmed_trim line).head, ← Text.flatten_tokens .marked, htokens,
    Text.flatten_tokens]

/-- A tidied line is laid out to itself at the depth it was laid out at. -/
theorem layAt_indented {depth : Nat} {line tidied : Text} (hline : line.isEmptyLine = false)
    (hdirective : ¬(family = .cFamily ∧ Indent.isDirective line.trim = true))
    (htidy : Line.tidy family language line = .ok tidied) (hunit : unit.text.all isBlank = true)
    (hplain : markOpen ∉ line) (hsettles : Line.Settles family language line) :
    layAt family language unit depth
        (indented family unit (Indent.levelAt depth tidied) tidied) =
      .ok (indented family unit (Indent.levelAt depth tidied) tidied) := by
  have htrimmed := Line.trimmed_tidy htidy
  have hsolid : ¬tidied.isEmpty = true := by
    rw [List.isEmpty_iff]
    rintro rfl
    rw [← Line.isEmptyLine_tidy hplain htidy] at hline
    cases hline
  have htrim : (indented family unit (Indent.levelAt depth tidied) tidied).trim = tidied.trim := by
    rw [trim_indented hunit _ htrimmed, htrimmed.trim_eq]
  rw [layAt_eq_of_trim htrim, layAt, htrimmed.trim_eq, if_neg hsolid,
    isDirective_tidy hplain htidy, if_neg hdirective, hsettles tidied htidy]
  rfl

/-- A line that was laid out at a depth is laid out to itself there, and leads to the same depth. -/
theorem layAt_again {depth : Nat} {line out : Text}
    (hlay : layAt family language unit depth line = .ok out)
    (hunit : unit.text.all isBlank = true) (hplain : markOpen ∉ line)
    (hsettles : Line.Settles family language line) (hkeeps : KeepsDepth family language line) :
    layAt family language unit depth out = .ok out ∧
      depthPast family depth out = depthPast family depth line := by
  rw [layAt] at hlay
  split at hlay
  next hempty =>
      cases hlay
      refine ⟨rfl, ?_⟩
      rw [depthPast_blank rfl, depthPast, if_pos hempty]
  next hempty =>
      split at hlay
      next hdirective =>
          cases hlay
          refine ⟨?_, depthPast_eq_of_trim (Text.trim_trim line) depth⟩
          rw [layAt, Text.trim_trim, if_neg hempty, if_pos hdirective]
      next hdirective =>
          obtain ⟨tidied, htidy, rfl⟩ := exists_of_map_eq_ok hlay
          rw [List.isEmpty_iff, Text.trim_eq_nil_iff, Bool.not_eq_true] at hempty
          have htrimmed := Line.trimmed_tidy htidy
          have htrim : (indented family unit (Indent.levelAt depth tidied) tidied).trim =
              tidied.trim := by
            rw [trim_indented hunit _ htrimmed, htrimmed.trim_eq]
          exact ⟨layAt_indented hempty hdirective htidy hunit hplain hsettles,
            (depthPast_eq_of_trim htrim depth).trans (hkeeps tidied htidy depth)⟩

/-- Lines that were laid out by depth are laid out to themselves, also if blank ones are missing. -/
theorem byDepthFrom_again {depth : Nat} {lines laid kept : List Text}
    (hindent : byDepthFrom family language unit depth lines = .ok laid)
    (hthinned : Thinned laid kept) (hunit : unit.text.all isBlank = true)
    (hlines : ∀ line ∈ lines, markOpen ∉ line ∧ line.length ≤ numberLimit)
    (hsettles : ∀ line ∈ lines, Line.Settles family language line)
    (hkeeps : ∀ line ∈ lines, KeepsDepth family language line) :
    byDepthFrom family language unit depth kept = .ok kept := by
  induction lines generalizing depth laid kept with
  | nil =>
      cases hindent
      cases hthinned
      rfl
  | cons line lines ih =>
      obtain ⟨⟨hplain, _⟩, hlines⟩ := List.forall_mem_cons.mp hlines
      obtain ⟨hsettle, hsettles⟩ := List.forall_mem_cons.mp hsettles
      obtain ⟨hkeep, hkeeps⟩ := List.forall_mem_cons.mp hkeeps
      obtain ⟨first, rest, hfirst, hrest, rfl⟩ := byDepthFrom_cons_eq_ok.mp hindent
      obtain ⟨hagain, hdepth⟩ := layAt_again hfirst hunit hplain hsettle hkeep
      rw [← hdepth] at hrest
      cases hthinned with
      | keep _ hthinned =>
          exact byDepthFrom_cons_eq_ok.mpr
            ⟨first, _, hagain, ih hrest hthinned hlines hsettles hkeeps, rfl⟩
      | drop hblank hthinned =>
          -- A blank line leaves the depth as it is, so that the next one stands where it stood.
          rw [depthPast_blank hblank] at hrest
          exact ih hrest hthinned hlines hsettles hkeeps

end Layout

end SourceLayout
