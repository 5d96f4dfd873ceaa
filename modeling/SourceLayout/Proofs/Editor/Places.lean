import Mathlib.Data.List.GetD
import Mathlib.Order.Monotone.Basic
import SourceLayout.Proofs.Editor.Synchronization

/-!
# The order of positions and places

A position is a row and a column, and each is moved into its range on its own. All rows but the last
end with a line end and so are longer than they are wide. Hence positions that stand for different
rows have places in the order of the rows. Positions outside the rows all stand for the first or
the last row, where only their columns count, so that a later position may have an earlier place.
-/

namespace SourceLayout

/-- Positions in reading order: by row, and within a row by column. -/
instance : LE Position :=
  ⟨fun start stop => start.row < stop.row ∨ start.row = stop.row ∧ start.column ≤ stop.column⟩

theorem Position.le_iff {start stop : Position} :
    start ≤ stop ↔
      start.row < stop.row ∨ start.row = stop.row ∧ start.column ≤ stop.column :=
  Iff.rfl

namespace Text

/-- Where a row starts, by its number. -/
def startOf (t : Text) (index : Nat) : Nat :=
  ((rows t).take index).flatten.length

/-- The columns of a row before its line end, by its number. -/
def widthOf (t : Text) (index : Nat) : Nat :=
  (((rows t).getD index []).takeWhile fun c => !isRowEnd c).length

/-- The row that a position stands for. -/
def rowOf (t : Text) (position : Position) : Nat :=
  Document.clamp ((rows t).length - 1) position.row

/-- The column that a position stands for, in the row that it stands for. -/
def columnOf (t : Text) (position : Position) : Nat :=
  Document.clamp (t.widthOf (t.rowOf position)) position.column

theorem place_eq (t : Text) (position : Position) :
    t.place position = t.startOf (t.rowOf position) + t.columnOf position :=
  rfl

/-! ### Rows and their widths -/

theorem length_takeWhile_lt {content ending : Text} (hne : ending ≠ [])
    (hcontent : ∀ c ∈ content, isRowEnd c = false) (hending : ∀ c ∈ ending, isRowEnd c = true) :
    ((content ++ ending).takeWhile fun c => !isRowEnd c).length < (content ++ ending).length := by
  rw [Document.takeWhile_append hcontent hending, List.length_append]
  exact Nat.lt_add_of_pos_right (List.length_pos_iff.mpr hne)

/-- A row with a row after it is longer than it is wide. -/
theorem Rowed.length_takeWhile_lt {rows : List Text} (h : Rowed rows) {index : Nat}
    (hindex : index + 1 < rows.length) :
    ((rows.getD index []).takeWhile fun c => !isRowEnd c).length <
      (rows.getD index []).length := by
  induction h generalizing index with
  | last => simp at hindex
  | closed hcontent hne hending _ ih =>
      cases index with
      | zero => exact Text.length_takeWhile_lt hne hcontent hending
      | succ index => exact ih (Nat.lt_of_succ_lt_succ hindex)

theorem startOf_succ (t : Text) {index : Nat} (hindex : index < (rows t).length) :
    t.startOf (index + 1) = t.startOf index + ((rows t).getD index []).length := by
  rw [startOf, List.take_succ_eq_append_getElem hindex, List.flatten_append,
    List.flatten_singleton, List.length_append, List.getD_eq_getElem _ _ hindex, startOf]

theorem startOf_mono (t : Text) : Monotone t.startOf := by
  refine monotone_nat_of_le_succ fun index => ?_
  by_cases hindex : index < (rows t).length
  · rw [startOf_succ t hindex]
    exact Nat.le_add_right _ _
  · rw [startOf, startOf, List.take_of_length_le (by omega), List.take_of_length_le (by omega)]

theorem startOf_add_widthOf_lt (t : Text) {index : Nat} (hindex : index + 1 < (rows t).length) :
    t.startOf index + t.widthOf index < t.startOf (index + 1) := by
  rw [startOf_succ t (by omega)]
  exact Nat.add_lt_add_left ((rowed_rows t).length_takeWhile_lt hindex) _

theorem length_rows_pos (t : Text) : 0 < (rows t).length :=
  List.length_pos_iff.mpr (rowed_rows t).ne_nil

/-- The last row is as wide as it is long, and the text ends with it. -/
theorem startOf_add_widthOf_last (t : Text) :
    t.startOf ((rows t).length - 1) + t.widthOf ((rows t).length - 1) = t.length := by
  obtain ⟨front, hfront⟩ := (rowed_rows t).exists_front
  rw [flatten_rows] at hfront
  have hlast : (t.rtakeWhile fun c => !isRowEnd c).takeWhile (fun c => !isRowEnd c) =
      t.rtakeWhile fun c => !isRowEnd c :=
    by
    refine List.takeWhile_eq_self_iff.mpr fun c hc => ?_
    exact List.mem_rtakeWhile_imp (p := fun c => !isRowEnd c) hc
  have hlength : (rows t).length - 1 = front.length := by
    rw [hfront, List.length_append, List.length_singleton, Nat.add_sub_cancel]
  calc t.startOf ((rows t).length - 1) + t.widthOf ((rows t).length - 1)
      = front.flatten.length + (t.rtakeWhile fun c => !isRowEnd c).length := by
        rw [startOf, widthOf, hlength, hfront, List.take_left,
          List.getD_append_right _ _ _ _ (Nat.le_refl _), Nat.sub_self, List.getD_cons_zero, hlast]
    _ = (rows t).flatten.length := by
        rw [hfront, List.flatten_append, List.flatten_singleton, List.length_append]
    _ = t.length := by rw [flatten_rows]

/-! ### Places -/

theorem rowOf_lt (t : Text) (position : Position) : t.rowOf position < (rows t).length := by
  have hle := Document.clamp_le ((rows t).length - 1) position.row
  have hpos := length_rows_pos t
  rw [rowOf]
  omega

theorem columnOf_le (t : Text) (position : Position) :
    t.columnOf position ≤ t.widthOf (t.rowOf position) :=
  Document.clamp_le _ _

theorem place_lt_of_rowOf_lt (t : Text) {start stop : Position}
    (hrow : t.rowOf start < t.rowOf stop) : t.place start < t.place stop := by
  have hstop := rowOf_lt t stop
  calc t.place start
      ≤ t.startOf (t.rowOf start) + t.widthOf (t.rowOf start) :=
        Nat.add_le_add_left (columnOf_le t start) _
    _ < t.startOf (t.rowOf start + 1) := startOf_add_widthOf_lt t (by omega)
    _ ≤ t.startOf (t.rowOf stop) := startOf_mono t hrow
    _ ≤ t.place stop := Nat.le_add_right _ _

/-- Places are in the order of the rows that positions stand for, and within a row in the order of
the columns. -/
theorem place_le_iff (t : Text) (start stop : Position) :
    t.place start ≤ t.place stop ↔ t.rowOf start < t.rowOf stop ∨
      t.rowOf start = t.rowOf stop ∧ t.columnOf start ≤ t.columnOf stop := by
  rcases Nat.lt_trichotomy (t.rowOf start) (t.rowOf stop) with hlt | heq | hgt
  · have hplace := place_lt_of_rowOf_lt t hlt
    exact ⟨fun _ => .inl hlt, fun _ => hplace.le⟩
  · rw [place_eq, place_eq, heq]
    omega
  · have hplace := place_lt_of_rowOf_lt t hgt
    omega

theorem place_le_length (t : Text) (position : Position) : t.place position ≤ t.length := by
  have hcolumn := columnOf_le t position
  rw [place_eq]
  by_cases hlast : t.rowOf position = (rows t).length - 1
  · rw [hlast] at hcolumn ⊢
    exact (Nat.add_le_add_left hcolumn _).trans_eq (startOf_add_widthOf_last t)
  · have hrow := rowOf_lt t position
    have hstart := @startOf_add_widthOf_lt t (t.rowOf position) (by omega)
    have hmono := startOf_mono t (show t.rowOf position + 1 ≤ (rows t).length - 1 by omega)
    have hend := startOf_add_widthOf_last t
    omega

theorem place_eq_length_iff (t : Text) {position : Position}
    (hrow : t.rowOf position = (rows t).length - 1) :
    t.place position = t.length ↔ t.widthOf ((rows t).length - 1) ≤ position.column.toNat := by
  have hend := startOf_add_widthOf_last t
  rw [place_eq, columnOf, hrow, Document.clamp]
  omega

theorem rowOf_le_rowOf (t : Text) {start stop : Position} (hle : start ≤ stop) :
    t.rowOf start ≤ t.rowOf stop := by
  rw [Position.le_iff] at hle
  rw [rowOf, rowOf, Document.clamp, Document.clamp]
  omega

/-- Only positions that stand for the same row can have places against their order. -/
theorem place_le_place_iff (t : Text) {start stop : Position} (hle : start ≤ stop) :
    t.place start ≤ t.place stop ↔
      (t.rowOf start = t.rowOf stop → t.columnOf start ≤ t.columnOf stop) := by
  have hrow := rowOf_le_rowOf t hle
  rw [place_le_iff]
  omega

/-- Positions of the same row, and positions whose rows are there, have places in their order. -/
theorem place_le_place_of_inside (t : Text) {start stop : Position} (hle : start ≤ stop)
    (hinside : start.row = stop.row ∨ 0 ≤ start.row ∧ stop.row < (rows t).length) :
    t.place start ≤ t.place stop := by
  rw [place_le_place_iff t hle]
  intro hrow
  have hrows : start.row = stop.row := by
    rw [Position.le_iff] at hle
    rw [rowOf, rowOf, Document.clamp, Document.clamp] at hrow
    omega
  rw [Position.le_iff] at hle
  rw [columnOf, columnOf, hrow, Document.clamp, Document.clamp]
  omega

end Text

/-! ### Changes -/

section

variable {α : Type} (xs new : List α)

theorem take_append_drop_take {first second : Nat} (hle : first ≤ second) :
    xs.take first ++ (xs.take second).drop first = xs.take second := by
  have hfront : xs.take first = (xs.take second).take first := by
    rw [List.take_take, Nat.min_eq_left hle]
  rw [hfront, List.take_append_drop]

theorem drop_take_append_drop {first second : Nat} (hle : first ≤ second) :
    (xs.take second).drop first ++ xs.drop second = xs.drop first := by
  have hwhole : xs.take first ++ ((xs.take second).drop first ++ xs.drop second) =
      xs.take first ++ xs.drop first := by
    rw [← List.append_assoc, take_append_drop_take xs hle, List.take_append_drop,
      List.take_append_drop]
  exact List.append_cancel_left hwhole

/-- What stands between two places is replaced if they are in order, and else doubled. -/
theorem exists_replaced {first second : Nat} (hfirst : first ≤ xs.length) :
    ∃ before between after, xs = before ++ between ++ after ∧
      if first ≤ second then xs.take first ++ new ++ xs.drop second = before ++ new ++ after
      else between ≠ [] ∧ xs.take first ++ new ++ xs.drop second =
        before ++ between ++ new ++ (between ++ after) := by
  by_cases hle : first ≤ second
  · refine ⟨xs.take first, (xs.take second).drop first, xs.drop second, ?_, ?_⟩
    · rw [take_append_drop_take xs hle, List.take_append_drop]
    · rw [if_pos hle]
  · have hge := Nat.le_of_not_le hle
    refine ⟨xs.take second, (xs.take first).drop second, xs.drop first, ?_, ?_⟩
    · rw [take_append_drop_take xs hge, List.take_append_drop]
    · rw [if_neg hle]
      refine ⟨?_, ?_⟩
      · rw [← List.length_pos_iff, List.length_drop, List.length_take]
        omega
      · rw [take_append_drop_take xs hge, drop_take_append_drop xs hge]

end

namespace Document

open Text (rows)

theorem length_offsetsOf (t : Text) : (offsetsOf t).length = (rows t).length := by
  rw [offsetsOf_eq, length_startsFrom]

/-- **Places in the order of positions.** Every position has a place in the text. The places of two
positions are in the order of the positions unless both stand for the same row and the later one has
the lesser column there; so they are in order if the positions have the same row or rows that
the document has. A position past the last row has the end of the text as its place only if its
column reaches the width of that row. A change between positions whose places are in order puts its
text in the place of what stands between them. If the places are against the order, what stands
between them is left on both sides of the new text. -/
theorem InStep.offsetAt_order {document : Document} (h : document.InStep) :
    (∀ position, document.offsetAt position ≤ document.text.length) ∧
      (∀ position : Position, document.offsets.length ≤ position.row →
        (document.offsetAt position = document.text.length ↔
          document.text.widthOf (document.offsets.length - 1) ≤ position.column.toNat)) ∧
      ∀ start stop : Position, start ≤ stop →
        (document.offsetAt start ≤ document.offsetAt stop ↔
          (document.text.rowOf start = document.text.rowOf stop →
            document.text.columnOf start ≤ document.text.columnOf stop)) ∧
        (start.row = stop.row ∨ 0 ≤ start.row ∧ stop.row < document.offsets.length →
          document.offsetAt start ≤ document.offsetAt stop) ∧
        ∀ new : Text, ∃ before between after,
          document.text = before ++ between ++ after ∧
            if document.offsetAt start ≤ document.offsetAt stop then
              (document.apply (.ranged start stop new)).text = before ++ new ++ after
            else between ≠ [] ∧ (document.apply (.ranged start stop new)).text =
              before ++ between ++ new ++ (between ++ after) := by
  have hlength : document.offsets.length = (rows document.text).length := by
    rw [h.offsets_eq, length_offsetsOf]
  have hinside : ∀ position, document.offsetAt position ≤ document.text.length := by
    intro position
    rw [h.offsetAt_eq]
    exact Text.place_le_length ..
  refine ⟨hinside, fun position hrow => ?_, fun start stop hle => ⟨?_, ?_, fun new => ?_⟩⟩
  · rw [h.offsetAt_eq, hlength]
    refine Text.place_eq_length_iff _ ?_
    rw [Text.rowOf, clamp]
    omega
  · rw [h.offsetAt_eq, h.offsetAt_eq]
    exact Text.place_le_place_iff _ hle
  · rw [h.offsetAt_eq, h.offsetAt_eq, hlength]
    exact Text.place_le_place_of_inside _ hle
  · exact exists_replaced document.text new (hinside start)

/-- The row after the last one has the place of the last one, before the end of the text. -/
theorem offsetAt_order_past_end :
    (make "a.js".toList "javascript".toList 1 "ab\r\ncd".toList).InStep ∧
      (⟨1, 2⟩ : Position) ≤ ⟨2, 0⟩ ∧
      (make "a.js".toList "javascript".toList 1 "ab\r\ncd".toList).offsetAt ⟨1, 2⟩ = 6 ∧
      (make "a.js".toList "javascript".toList 1 "ab\r\ncd".toList).offsetAt ⟨2, 0⟩ = 4 ∧
      ∃ before between after : Text, "ab\r\ncd".toList = before ++ between ++ after ∧
        between ≠ [] ∧
        ((make "a.js".toList "javascript".toList 1 "ab\r\ncd".toList).apply
          (.ranged ⟨1, 2⟩ ⟨2, 0⟩ "x".toList)).text =
            before ++ between ++ "x".toList ++ (between ++ after) := by
  have hinStep := inStep_make "a.js".toList "javascript".toList 1 "ab\r\ncd".toList
  have hle : (⟨1, 2⟩ : Position) ≤ ⟨2, 0⟩ := .inl (by decide)
  obtain ⟨_, _, hordered⟩ := hinStep.offsetAt_order
  obtain ⟨_, _, hchange⟩ := hordered ⟨1, 2⟩ ⟨2, 0⟩ hle
  obtain ⟨before, between, after, htext, hresult⟩ := hchange "x".toList
  rw [if_neg (by decide +kernel)] at hresult
  exact ⟨hinStep, hle, by decide +kernel, by decide +kernel, before, between, after, htext, hresult⟩

end Document

end SourceLayout
