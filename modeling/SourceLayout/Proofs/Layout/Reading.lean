import Mathlib.Logic.Relation
import SourceLayout.Proofs.Layout.Reread
import SourceLayout.Proofs.Layout.Settled

/-!
# What is read of the layout

Indenting reads the text of every line. Where the width tells the levels it reads the level of a
line too, and where it depends on the document what tells them, whether any line is indented. It
reads nothing else, and these see neither the blanks at the end of a line nor whether its margin is
of tabs or of spaces.
-/

namespace SourceLayout

/-! ### Blanks at the end -/

theorem Text.trimLeft_append {t : Text} (hsolid : t.isEmptyLine = false) (rest : Text) :
    trimLeft (t ++ rest) = trimLeft t ++ rest := by
  have hleft : ¬(t.dropWhile isBlank).isEmpty = true := by
    rw [List.isEmpty_iff, List.dropWhile_eq_nil_iff, ← List.all_eq_true]
    exact Bool.eq_false_iff.mp hsolid
  rw [trimLeft, List.dropWhile_append, if_neg hleft, trimLeft]

theorem Text.trim_append_blanks {gap : Text} (hgap : gap.all isBlank = true) (t : Text) :
    trim (t ++ gap) = trim t := by
  cases hsolid : t.isEmptyLine with
  | true =>
      have hboth : (t ++ gap).isEmptyLine = true := by
        rw [isEmptyLine_append, hsolid]
        exact hgap
      rw [(trim_eq_nil_iff t).mpr hsolid, (trim_eq_nil_iff _).mpr hboth]
  | false =>
      have hlast : ∀ c ∈ gap.reverse, isBlank c = true :=
        fun c hc => List.all_eq_true.mp hgap c (List.mem_reverse.mp hc)
      rw [trim, trimLeft_append hsolid, trimRight, List.reverse_append,
        List.dropWhile_append_of_pos hlast, ← trimRight, ← trim]

namespace Layout

theorem indentation_append_of_solid {line : Text} (hsolid : line.isEmptyLine = false)
    (rest : Text) : (line ++ rest).indentation = line.indentation := by
  rw [Text.indentation, List.takeWhile_append, if_neg, ← Text.indentation]
  intro hlength
  have hall : line.takeWhile isBlank = line :=
    (List.takeWhile_prefix isBlank).eq_of_length hlength
  have hblank : line.isEmptyLine = true := by
    rw [← hall]
    exact List.all_takeWhile
  rw [hblank] at hsolid
  cases hsolid

/-- A line is indented if its width is not zero. -/
theorem indentation_eq_nil_iff {unit : Int} (hunit : 0 < unit) (line : Text) :
    line.indentation = [] ↔ Indent.width unit line = 0 := by
  cases line with
  | nil => exact iff_of_true rfl rfl
  | cons c cs =>
      cases hc : isBlank c with
      | true =>
          have hlater := width_nonneg (Int.le_of_lt hunit) cs
          have hindentation : Text.indentation (c :: cs) ≠ [] := by
            simp [Text.indentation, hc]
          refine iff_of_false hindentation ?_
          rw [width_blank_cons hc]
          split <;> omega
      | false =>
          have hhead : headIs isBlank (c :: cs) = false := hc
          exact iff_of_true (indentation_eq_nil hhead) (width_eq_zero hhead unit)

variable {family : Family} {language : Option Text} {unit : IndentUnit}

/-! ### Documents that are read alike -/

/-- Documents of which the same is read: line for line the same text, on lines that are not blank
the same levels if the width tells them, and in both or none of them an indented line, if this tells
what the levels are told by. -/
structure Alike (family : Family) (lines lines' : List Text) : Prop where
  trims : SameTrims lines lines'
  levels : family ≠ .cFamily → List.Forall₂ (fun line line' =>
    line.isEmptyLine = false → Indent.level family line = Indent.level family line') lines lines'
  flat : family = .javascript → Indent.isFlat lines = Indent.isFlat lines'

theorem slotsFrom_congr {lines lines' : List Text} (h : SameTrims lines lines') (depth : Nat) :
    slotsFrom family language depth lines = slotsFrom family language depth lines' := by
  induction h generalizing depth with
  | nil => rfl
  | cons htrim _ ih => simp only [slotsFrom, slotAt, depthPast, htrim, ih]

theorem slotByWidth_congr {line line' : Text} (htrim : line.trim = line'.trim)
    (hlevel : line.isEmptyLine = false → Indent.level family line = Indent.level family line') :
    slotByWidth family language line = slotByWidth family language line' := by
  rw [slotByWidth, slotByWidth, ← isEmptyLine_eq_of_trim htrim, htrim]
  cases hsolid : line.isEmptyLine with
  | true => rfl
  | false => rw [hlevel hsolid]

theorem map_slotByWidth_congr {lines lines' : List Text} (htrims : SameTrims lines lines')
    (hlevels : List.Forall₂ (fun line line' => line.isEmptyLine = false →
      Indent.level family line = Indent.level family line') lines lines') :
    lines.map (slotByWidth family language) = lines'.map (slotByWidth family language) := by
  have hlines : List.Forall₂ (fun line line' => slotByWidth family language line =
      slotByWidth family language line') lines lines' :=
    htrims.mp (fun _ _ => slotByWidth_congr) hlevels
  rwa [← List.forall₂_eq_eq_eq, List.forall₂_map_left_iff, List.forall₂_map_right_iff]

theorem Alike.usesDepth_eq {lines lines' : List Text} (h : Alike family lines lines') :
    usesDepth family lines = usesDepth family lines' := by
  cases family with
  | javascript => exact h.flat rfl
  | html | css | python | cFamily => rfl

/-- Documents that are read alike have the same lines at the same levels. -/
theorem Alike.slots_eq {lines lines' : List Text} (h : Alike family lines lines') :
    slots family language lines = slots family language lines' := by
  rw [slots, slots, ← h.usesDepth_eq]
  cases hdepth : usesDepth family lines with
  | true => exact slotsFrom_congr h.trims 0
  | false =>
      refine map_slotByWidth_congr h.trims (h.levels ?_)
      rintro rfl
      cases hdepth

theorem Alike.indent_eq {lines lines' : List Text} (h : Alike family lines lines') :
    indent family language unit lines = indent family language unit lines' := by
  rw [indent_eq_write, indent_eq_write, h.slots_eq]

/-! ### Lines that are read alike -/

/-- One line for another of which the same is read: without some blanks at its end, or with so many
spaces for a tab before its text as the family takes a tab for. -/
inductive Respelled (family : Family) : Text → Text → Prop
  | ended (line : Text) {blanks : Text} (hblanks : blanks.all isBlank = true) :
      Respelled family (line ++ blanks) line
  | spread {blanks : Text} (hblanks : blanks.all isBlank = true) (rest : Text) :
      Respelled family (blanks ++ '\t' :: rest)
        (blanks ++ (List.replicate family.unitWidth ' ' ++ rest))

/-- Lines with the same text, at the same width unless they are blank. -/
structure SameLine (family : Family) (line line' : Text) : Prop where
  trim : line.trim = line'.trim
  width : line.isEmptyLine = false →
    Indent.width family.unitWidth line = Indent.width family.unitWidth line'

theorem SameLine.symm {line line' : Text} (h : SameLine family line line') :
    SameLine family line' line where
  trim := h.trim.symm
  width hsolid := (h.width ((isEmptyLine_eq_of_trim h.trim).trans hsolid)).symm

theorem SameLine.trans {line line' line'' : Text} (h : SameLine family line line')
    (h' : SameLine family line' line'') : SameLine family line line'' where
  trim := h.trim.trans h'.trim
  width hsolid :=
    (h.width hsolid).trans (h'.width ((isEmptyLine_eq_of_trim h.trim).symm.trans hsolid))

theorem Respelled.sameLine {line line' : Text} (h : Respelled family line line') :
    SameLine family line line' := by
  cases h with
  | ended _ hblanks =>
      refine ⟨Text.trim_append_blanks hblanks line', fun hsolid => ?_⟩
      have hline : line'.isEmptyLine = false := by
        rwa [Text.isEmptyLine_append, show Text.isEmptyLine _ = true from hblanks,
          Bool.and_true] at hsolid
      rw [Indent.width, indentation_append_of_solid hline, Indent.width]
  | @spread blanks hblanks rest =>
      have htab : isBlank '\t' = true := by decide
      have hspaces : (List.replicate family.unitWidth ' ').all isBlank = true := by
        cases family <;> decide
      constructor
      · rw [Text.trim_blanks_append hblanks, Text.trim_blanks_append hblanks,
          Text.trim_blanks_append hspaces]
        exact @Text.trim_blanks_append ['\t'] (by decide) rest
      · intro _
        rw [width_append hblanks, width_append hblanks, width_append hspaces,
          width_blank_cons htab, if_pos rfl, width_replicate]

/-- Whatever is read of a line is the same after any number of such steps, either way. -/
theorem sameLine_of_eqvGen {line line' : Text}
    (h : Relation.EqvGen (Respelled family) line line') : SameLine family line line' := by
  induction h with
  | rel _ _ h => exact h.sameLine
  | refl _ => exact ⟨rfl, fun _ => rfl⟩
  | symm _ _ _ ih => exact ih.symm
  | trans _ _ _ _ _ ih ih' => exact ih.trans ih'

/-- Of two such lines both or none are indented. -/
theorem SameLine.isFlat_eq {line line' : Text} (h : SameLine family line line') :
    Indent.isFlat [line] = Indent.isFlat [line'] := by
  have hpos : (0 : Int) < family.unitWidth := by
    have := family.one_lt_unitWidth
    omega
  simp only [Indent.isFlat, List.all_cons, List.all_nil, Bool.and_true]
  rw [← isEmptyLine_eq_of_trim h.trim]
  cases hsolid : line.isEmptyLine with
  | true => rfl
  | false =>
      rw [Bool.false_or, Bool.false_or, Bool.eq_iff_iff, List.isEmpty_iff, List.isEmpty_iff,
        indentation_eq_nil_iff hpos, indentation_eq_nil_iff hpos, h.width hsolid]

theorem isFlat_cons (line : Text) (lines : List Text) :
    Indent.isFlat (line :: lines) = (Indent.isFlat [line] && Indent.isFlat lines) := by
  simp [Indent.isFlat]

theorem alike_of_sameLine {lines lines' : List Text}
    (h : List.Forall₂ (SameLine family) lines lines') : Alike family lines lines' where
  trims := h.imp fun _ _ hline => hline.trim
  levels _ := h.imp fun _ _ hline hsolid => by
    rw [Indent.level, Indent.level, hline.width hsolid]
  flat _ := by
    induction h with
    | nil => rfl
    | cons hline _ ih =>
        rw [isFlat_cons, hline.isFlat_eq, ih, ← isFlat_cons]

end Layout

end SourceLayout
