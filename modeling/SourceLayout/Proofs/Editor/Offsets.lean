import Mathlib.Data.Nat.Find
import SourceLayout.Proofs.Editor.Places

/-!
# The offsets of a text and its places

Rows are read off a text one line end at a time. So each row but the last has one line end, after all
its other characters, and the last one has none. A position that a row has before its line end stands
for a place that no other such position stands for. Only the places that cut a line end in two are
left over, since a row goes on past its columns by the line end alone.
-/

namespace SourceLayout

/-- Positions in reading order, strictly. -/
instance : LT Position :=
  ⟨fun start stop => start.row < stop.row ∨ start.row = stop.row ∧ start.column < stop.column⟩

theorem Position.lt_iff {start stop : Position} :
    start < stop ↔
      start.row < stop.row ∨ start.row = stop.row ∧ start.column < stop.column :=
  Iff.rfl

theorem Position.lt_trichotomy (start stop : Position) :
    start < stop ∨ start = stop ∨ stop < start := by
  obtain ⟨row, column⟩ := start
  obtain ⟨row', column'⟩ := stop
  simp only [Position.lt_iff, Position.mk.injEq]
  omega

namespace Text

/-- A line end with what follows it: a line feed, the two characters of a pair, or a carriage return
without a line feed after it. -/
def IsLineEnd (ending after : Text) : Prop :=
  ending = ['\n'] ∨ ending = ['\r', '\n'] ∨ ending = ['\r'] ∧ after.head? ≠ some '\n'

theorem IsLineEnd.ne_nil {ending after : Text} (h : IsLineEnd ending after) : ending ≠ [] := by
  rcases h with rfl | rfl | ⟨rfl, _⟩ <;> simp

theorem IsLineEnd.length_eq_or_eq {ending after : Text} (h : IsLineEnd ending after) :
    ending.length = 1 ∨ ending = ['\r', '\n'] := by
  rcases h with rfl | rfl | ⟨rfl, _⟩
  · exact .inl rfl
  · exact .inr rfl
  · exact .inl rfl

/-- A place between a carriage return and the line feed after it. -/
def SplitsPair (t : Text) (place : Nat) : Prop :=
  (t.take place).getLast? = some '\r' ∧ (t.drop place).head? = some '\n'

instance (t : Text) (place : Nat) : Decidable (t.SplitsPair place) :=
  inferInstanceAs (Decidable (_ ∧ _))

/-! ### Rows and their line ends -/

/-- What a row with a row after it has from its first line end on is one line end. -/
theorem isLineEnd_of_rows {t : Text} {front rest : List Text} {row : Text}
    (hrows : rows t = front ++ row :: rest) (hrest : rest ≠ []) :
    IsLineEnd (row.dropWhile fun c => !isRowEnd c) rest.flatten := by
  fun_induction rows t generalizing front row with
  | case1 =>
      have hlength := congrArg List.length hrows
      have hpos := List.length_pos_iff.mpr hrest
      simp only [List.length_append, List.length_cons, List.length_nil] at hlength
      omega
  | case2 cs ih =>
      cases front with
      | nil =>
          obtain ⟨rfl, rfl⟩ := List.cons.inj hrows
          exact .inr (.inl (by decide))
      | cons first front => exact ih (List.cons.inj hrows).2
  | case3 c cs hpair hc ih =>
      cases front with
      | nil =>
          obtain ⟨rfl, rfl⟩ := List.cons.inj hrows
          rw [flatten_rows, List.dropWhile_cons_of_neg (by simp [hc])]
          simp only [isRowEnd, Bool.or_eq_true, beq_iff_eq] at hc
          rcases hc with rfl | rfl
          · exact .inl rfl
          · refine .inr (.inr ⟨rfl, fun hhead => ?_⟩)
            obtain ⟨after, rfl⟩ := List.head?_eq_some_iff.mp hhead
            exact hpair after rfl rfl
      | cons first front => exact ih (List.cons.inj hrows).2
  | case4 c cs hpair hc ih =>
      obtain ⟨own, others, hown⟩ := List.exists_cons_of_ne_nil (rowed_rows cs).ne_nil
      rw [hown, consFirst] at hrows
      cases front with
      | nil =>
          obtain ⟨rfl, rfl⟩ := List.cons.inj hrows
          rw [List.dropWhile_cons_of_pos (by simpa using hc)]
          exact @ih [] own (by rw [hown, List.nil_append])
      | cons first front =>
          rw [(List.cons.inj hrows).2] at hown
          exact @ih (own :: front) row hown

/-- The rows up to a row and the rows from it on are the text. -/
theorem flatten_take_append_flatten_drop (t : Text) (index : Nat) :
    ((rows t).take index).flatten ++ ((rows t).drop index).flatten = t := by
  rw [← List.flatten_append, List.take_append_drop, flatten_rows]

theorem take_startOf (t : Text) (index : Nat) :
    t.take (t.startOf index) = ((rows t).take index).flatten := by
  have htake := @List.take_left _ ((rows t).take index).flatten ((rows t).drop index).flatten
  rwa [flatten_take_append_flatten_drop] at htake

theorem drop_startOf (t : Text) (index : Nat) :
    t.drop (t.startOf index) = ((rows t).drop index).flatten := by
  have hdrop := @List.drop_left _ ((rows t).take index).flatten ((rows t).drop index).flatten
  rwa [flatten_take_append_flatten_drop] at hdrop

theorem take_startOf_succ (t : Text) {index : Nat} (hindex : index < (rows t).length) :
    t.take (t.startOf (index + 1)) = t.take (t.startOf index) ++ (rows t).getD index [] := by
  rw [take_startOf, take_startOf, List.take_succ_eq_append_getElem hindex, List.flatten_append,
    List.flatten_singleton, List.getD_eq_getElem _ _ hindex]

/-- From the start of a row on there is the row, and then what starts with the next one. -/
theorem drop_startOf_eq (t : Text) {index : Nat} (hindex : index < (rows t).length) :
    t.drop (t.startOf index) = (rows t).getD index [] ++ t.drop (t.startOf (index + 1)) := by
  rw [drop_startOf, drop_startOf, List.drop_eq_getElem_cons hindex, List.flatten_cons,
    List.getD_eq_getElem _ _ hindex]

/-- The characters of a row before its line end. -/
def columns (t : Text) (index : Nat) : Text :=
  ((rows t).getD index []).takeWhile fun c => !isRowEnd c

theorem length_columns (t : Text) (index : Nat) : (t.columns index).length = t.widthOf index :=
  rfl

theorem isRowEnd_of_mem_columns {t : Text} {index : Nat} {c : Char} (hc : c ∈ t.columns index) :
    isRowEnd c = false := by
  simpa using List.mem_takeWhile_imp hc

theorem columns_append_dropWhile (t : Text) (index : Nat) :
    t.columns index ++ ((rows t).getD index []).dropWhile (fun c => !isRowEnd c) =
      (rows t).getD index [] :=
  List.takeWhile_append_dropWhile

/-- A row with a row after it is its columns and one line end. -/
theorem exists_ending (t : Text) {index : Nat} (hindex : index + 1 < (rows t).length) :
    ∃ ending, (rows t).getD index [] = t.columns index ++ ending ∧
      IsLineEnd ending (t.drop (t.startOf (index + 1))) := by
  refine ⟨((rows t).getD index []).dropWhile fun c => !isRowEnd c,
    (columns_append_dropWhile t index).symm, ?_⟩
  rw [drop_startOf, List.getD_eq_getElem _ _ (Nat.lt_of_succ_lt hindex)]
  have hrows : rows t = (rows t).take index ++ (rows t)[index] :: (rows t).drop (index + 1) := by
    rw [← List.drop_eq_getElem_cons, List.take_append_drop]
  refine isLineEnd_of_rows hrows (List.length_pos_iff.mp ?_)
  rw [List.length_drop]
  omega

/-- The last row is its columns alone. -/
theorem columns_last (t : Text) :
    t.columns ((rows t).length - 1) = (rows t).getD ((rows t).length - 1) [] := by
  have hlast := drop_startOf_eq t (Nat.sub_one_lt_of_lt (length_rows_pos t))
  have hend := startOf_add_widthOf_last t
  have hlength := congrArg List.length hlast
  rw [List.length_append, List.length_drop] at hlength
  exact (List.takeWhile_prefix _).eq_of_length_le (by rw [← columns, length_columns]; omega)

/-! ### Places of rows -/

/-- A row starts after a whole line end. -/
theorem not_splitsPair_startOf (t : Text) {index : Nat} (hindex : index < (rows t).length) :
    ¬t.SplitsPair (t.startOf index) := by
  rintro ⟨hbefore, hafter⟩
  cases index with
  | zero => simp [startOf] at hbefore
  | succ index =>
      obtain ⟨ending, hrow, hending⟩ := exists_ending t hindex
      rw [take_startOf_succ t (Nat.lt_of_succ_lt hindex), hrow, ← List.append_assoc,
        List.getLast?_append_of_ne_nil _ hending.ne_nil] at hbefore
      rcases hending with rfl | rfl | ⟨rfl, hnext⟩
      · simp at hbefore
      · simp at hbefore
      · exact hnext hafter

/-- No column of a row is inside a line end. -/
theorem not_splitsPair (t : Text) {index column : Nat} (hindex : index < (rows t).length)
    (hcolumn : column ≤ t.widthOf index) : ¬t.SplitsPair (t.startOf index + column) := by
  cases column with
  | zero => exact not_splitsPair_startOf t hindex
  | succ column =>
      rintro ⟨hbefore, _⟩
      rw [← length_columns] at hcolumn
      have htake : (t.drop (t.startOf index)).take (column + 1) =
          (t.columns index).take (column + 1) := by
        rw [drop_startOf_eq t hindex, ← columns_append_dropWhile, List.append_assoc,
          List.take_append_of_le_length hcolumn]
      have hne : (t.columns index).take (column + 1) ≠ [] := by
        rw [← List.length_pos_iff, List.length_take]
        omega
      -- The character before the place is one of the columns, and so no carriage return.
      rw [List.take_add, htake, List.getLast?_append_of_ne_nil _ hne] at hbefore
      have hmem := List.mem_of_mem_take (List.mem_of_getLast? hbefore)
      exact absurd (isRowEnd_of_mem_columns hmem) (by decide)

theorem splitsPair_of_drop {t content after : Text} {start : Nat}
    (hdrop : t.drop start = content ++ '\r' :: '\n' :: after) :
    t.SplitsPair (start + (content.length + 1)) := by
  have hsplit : t.drop start = (content ++ ['\r']) ++ '\n' :: after := by simp [hdrop]
  have hlength : (content ++ ['\r']).length = content.length + 1 := by simp
  constructor
  · rw [List.take_add, hsplit, ← hlength, List.take_left, ← List.append_assoc,
      List.getLast?_concat]
  · rw [← List.drop_drop, hsplit, ← hlength, List.drop_left, List.head?_cons]

/-- The row of a place is the last one that does not start after it. -/
theorem exists_last_start (t : Text) (place : Nat) :
    ∃ index, index < (rows t).length ∧ t.startOf index ≤ place ∧
      (index + 1 < (rows t).length → place < t.startOf (index + 1)) := by
  have hpos := length_rows_pos t
  refine ⟨Nat.findGreatest (fun index => t.startOf index ≤ place) ((rows t).length - 1), ?_, ?_,
    fun hnext => ?_⟩
  · have hle := Nat.findGreatest_le (P := fun index => t.startOf index ≤ place) ((rows t).length - 1)
    omega
  · exact Nat.findGreatest_spec (P := fun index => t.startOf index ≤ place) (Nat.zero_le _)
      (Nat.zero_le _)
  · exact Nat.lt_of_not_le (Nat.findGreatest_is_greatest (P := fun index => t.startOf index ≤ place)
      (Nat.lt_succ_self _) (Nat.le_sub_one_of_lt hnext))

/-- Every other place is in the columns of a row. -/
theorem exists_row_of_le (t : Text) {place : Nat} (hplace : place ≤ t.length)
    (hpair : ¬t.SplitsPair place) :
    ∃ index column, index < (rows t).length ∧ column ≤ t.widthOf index ∧
      t.startOf index + column = place := by
  obtain ⟨index, hindex, hstart, hlast⟩ := exists_last_start t place
  obtain ⟨column, rfl⟩ := Nat.exists_eq_add_of_le hstart
  refine ⟨index, column, hindex, ?_, rfl⟩
  by_cases hsucc : index + 1 < (rows t).length
  · have hnext := hlast hsucc
    obtain ⟨ending, hrow, hending⟩ := exists_ending t hsucc
    rw [startOf_succ t hindex, hrow, List.length_append, length_columns] at hnext
    rcases hending.length_eq_or_eq with hlength | rfl
    · omega
    · -- One column past the row, the place would be inside its pair.
      have hdrop := drop_startOf_eq t hindex
      rw [hrow, List.append_assoc] at hdrop
      refine Nat.le_of_not_lt fun hpast => hpair ?_
      obtain rfl : column = (t.columns index).length + 1 := by
        rw [List.length_cons, List.length_singleton] at hnext
        rw [length_columns]
        omega
      exact splitsPair_of_drop hdrop
  · have hend := startOf_add_widthOf_last t
    obtain rfl : index = (rows t).length - 1 := by omega
    omega

end Text

namespace Document

open Text (rows)

/-- Where a row starts by the offsets of a document. After the last row there is the end of the
text. -/
def startAt (document : Document) (index : Nat) : Nat :=
  document.offsets.getD index document.text.length

/-- What stands between the start of a row and the start of the next one. -/
def slice (document : Document) (index : Nat) : Text :=
  (document.text.take (document.startAt (index + 1))).drop (document.startAt index)

/-- What a row has before its first line end. -/
def content (document : Document) (index : Nat) : Text :=
  (document.slice index).takeWhile fun c => !Text.isRowEnd c

/-- Positions in the table: in a row that is there, and no further than to its line end. -/
structure Covers (document : Document) (position : Position) : Prop where
  row_nonneg : 0 ≤ position.row
  row_lt : position.row < document.offsets.length
  column_nonneg : 0 ≤ position.column
  column_le : position.column ≤ (document.content position.row.toNat).length

namespace InStep

variable {document : Document} (h : document.InStep)

include h

theorem length_offsets : document.offsets.length = (rows document.text).length := by
  rw [h.offsets_eq, length_offsetsOf]

theorem startAt_eq (index : Nat) : document.startAt index = document.text.startOf index := by
  have hlength := h.length_offsets
  rw [startAt]
  by_cases hindex : index < document.offsets.length
  · rw [List.getD_eq_getElem _ _ hindex, ← List.getD_eq_getElem _ 0 hindex, h.offsets_eq,
      offsetsOf_eq, getD_startsFrom 0 (by omega), Nat.zero_add]
    rfl
  · rw [List.getD_eq_default _ _ (by omega), Text.startOf, List.take_of_length_le (by omega),
      Text.flatten_rows]

/-- The slices are the rows of the text. -/
theorem slice_eq {index : Nat} (hindex : index < document.offsets.length) :
    document.slice index = (rows document.text).getD index [] := by
  rw [h.length_offsets] at hindex
  rw [slice, h.startAt_eq, h.startAt_eq, Text.take_startOf_succ _ hindex, Text.take_startOf,
    Text.startOf, List.drop_left]

theorem content_eq {index : Nat} (hindex : index < document.offsets.length) :
    document.content index = document.text.columns index := by
  rw [content, h.slice_eq hindex, Text.columns]

theorem flatMap_slice :
    (List.range document.offsets.length).flatMap document.slice = document.text := by
  have hslices : (List.range document.offsets.length).map document.slice = rows document.text := by
    refine List.ext_getElem (by simp [h.length_offsets]) fun index hindex hrow => ?_
    rw [List.length_map, List.length_range] at hindex
    rw [List.getElem_map, List.getElem_range, h.slice_eq hindex, List.getD_eq_getElem _ _ hrow]
  rw [List.flatMap_def, hslices, Text.flatten_rows]

theorem slice_closed {index : Nat} (hindex : index + 1 < document.offsets.length) :
    ∃ ending, document.slice index = document.content index ++ ending ∧
      Text.IsLineEnd ending (document.text.drop (document.startAt (index + 1))) := by
  have hrow : index < document.offsets.length := Nat.lt_of_succ_lt hindex
  rw [h.slice_eq hrow, h.content_eq hrow, h.startAt_eq]
  exact Text.exists_ending document.text (h.length_offsets ▸ hindex)

theorem slice_last : document.slice (document.offsets.length - 1) =
    document.content (document.offsets.length - 1) := by
  have hpos := Text.length_rows_pos document.text
  have hlength := h.length_offsets
  rw [h.slice_eq (by omega), h.content_eq (by omega), hlength, Text.columns_last]

/-! ### Positions in the table -/

theorem of_covers {position : Position} (hcovers : document.Covers position) :
    position.row.toNat < (rows document.text).length ∧
      position.column.toNat ≤ document.text.widthOf position.row.toNat := by
  obtain ⟨hrow, hlt, hcolumn, hle⟩ := hcovers
  have hindex : position.row.toNat < document.offsets.length := by omega
  rw [h.content_eq hindex, Text.length_columns] at hle
  exact ⟨h.length_offsets ▸ hindex, by omega⟩

/-- A position in the table is not moved. -/
theorem offsetAt_of_covers {position : Position} (hcovers : document.Covers position) :
    document.offsetAt position =
      document.text.startOf position.row.toNat + position.column.toNat := by
  obtain ⟨hrow, hcolumn⟩ := h.of_covers hcovers
  have hrowOf : document.text.rowOf position = position.row.toNat := by
    rw [Text.rowOf, clamp]
    omega
  rw [h.offsetAt_eq, Text.place_eq, hrowOf, Text.columnOf, hrowOf, clamp]
  omega

theorem offsetAt_lt {start stop : Position} (hstart : document.Covers start)
    (hstop : document.Covers stop) (hlt : start < stop) :
    document.offsetAt start < document.offsetAt stop := by
  have hrow := hstart.row_nonneg
  have hcolumn := hstart.column_nonneg
  rcases hlt with hrows | ⟨hrows, hcolumns⟩
  · obtain ⟨hend, _⟩ := h.of_covers hstop
    rw [h.offsetAt_eq, h.offsetAt_eq]
    refine Text.place_lt_of_rowOf_lt document.text ?_
    rw [Text.rowOf, Text.rowOf, clamp, clamp]
    omega
  · rw [h.offsetAt_of_covers hstart, h.offsetAt_of_covers hstop, hrows]
    omega

theorem offsetAt_lt_iff {start stop : Position} (hstart : document.Covers start)
    (hstop : document.Covers stop) :
    document.offsetAt start < document.offsetAt stop ↔ start < stop := by
  refine ⟨fun hplaces => ?_, h.offsetAt_lt hstart hstop⟩
  rcases Position.lt_trichotomy start stop with hlt | rfl | hgt
  · exact hlt
  · exact absurd hplaces (Nat.lt_irrefl _)
  · exact absurd hplaces (Nat.lt_asymm (h.offsetAt_lt hstop hstart hgt))

theorem eq_of_offsetAt_eq {left right : Position} (hleft : document.Covers left)
    (hright : document.Covers right) (hplaces : document.offsetAt left = document.offsetAt right) :
    left = right := by
  rcases Position.lt_trichotomy left right with hlt | heq | hgt
  · exact absurd hplaces (Nat.ne_of_lt (h.offsetAt_lt hleft hright hlt))
  · exact heq
  · exact absurd hplaces (Nat.ne_of_gt (h.offsetAt_lt hright hleft hgt))

theorem not_splitsPair_offsetAt {position : Position} (hcovers : document.Covers position) :
    ¬document.text.SplitsPair (document.offsetAt position) := by
  obtain ⟨hrow, hcolumn⟩ := h.of_covers hcovers
  rw [h.offsetAt_of_covers hcovers]
  exact Text.not_splitsPair document.text hrow hcolumn

theorem exists_covers {place : Nat} (hplace : place ≤ document.text.length)
    (hpair : ¬document.text.SplitsPair place) :
    ∃ position, document.Covers position ∧ document.offsetAt position = place := by
  obtain ⟨index, column, hindex, hcolumn, hsum⟩ :=
    Text.exists_row_of_le document.text hplace hpair
  rw [← h.length_offsets] at hindex
  have hcovers : document.Covers ⟨index, column⟩ := by
    refine ⟨Int.natCast_nonneg index, Int.ofNat_lt.mpr hindex, Int.natCast_nonneg column, ?_⟩
    rw [Int.toNat_natCast, h.content_eq hindex, Text.length_columns]
    exact Int.ofNat_le.mpr hcolumn
  exact ⟨⟨index, column⟩, hcovers, by simpa [h.offsetAt_of_covers hcovers] using hsum⟩

/-- **The table of rows is exact.** Between the offsets there are slices that make up the text. Each
of them but the last ends in one line end and has no other one, and the last one has none. Positions
in the table stand for places of the text in their order, and every place is that of exactly one of
them, unless it is between a carriage return and the line feed after it; then it is that of none. -/
theorem offsets_exact :
    (List.range document.offsets.length).flatMap document.slice = document.text ∧
      (∀ index, index + 1 < document.offsets.length →
        ∃ ending, document.slice index = document.content index ++ ending ∧
          Text.IsLineEnd ending (document.text.drop (document.startAt (index + 1)))) ∧
      document.slice (document.offsets.length - 1) =
        document.content (document.offsets.length - 1) ∧
      (∀ start stop, document.Covers start → document.Covers stop →
        (document.offsetAt start < document.offsetAt stop ↔ start < stop)) ∧
      (∀ position, document.offsetAt position ≤ document.text.length) ∧
      ∀ place, place ≤ document.text.length →
        if document.text.SplitsPair place then
          ∀ position, document.Covers position → document.offsetAt position ≠ place
        else ∃! position, document.Covers position ∧ document.offsetAt position = place := by
  refine ⟨h.flatMap_slice, fun index => h.slice_closed, h.slice_last,
    fun start stop => h.offsetAt_lt_iff, fun position => ?_, fun place hplace => ?_⟩
  · rw [h.offsetAt_eq]
    exact Text.place_le_length ..
  · split
    next hpair =>
        rintro position hcovers rfl
        exact h.not_splitsPair_offsetAt hcovers hpair
    next hpair =>
        obtain ⟨position, hcovers, hposition⟩ := h.exists_covers hplace hpair
        refine ⟨position, ⟨hcovers, hposition⟩, fun other hother => ?_⟩
        exact h.eq_of_offsetAt_eq hother.1 hcovers (hother.2.trans hposition.symm)

end InStep

/-- Pairs, line feeds and carriage returns in one text: nothing stands between the two characters of
the pair, and one position after it. -/
theorem offsets_exact_mixed :
    ∃ document : Document, document.InStep ∧ document.text = "a\r\n\n\rb\r".toList ∧
      document.offsets = [0, 3, 4, 5, 7] ∧ document.slice 0 = "a\r\n".toList ∧
      (∀ position, document.Covers position → document.offsetAt position ≠ 2) ∧
      ∃! position, document.Covers position ∧ document.offsetAt position = 3 := by
  have hinStep := inStep_make "a.js".toList "javascript".toList 1 "a\r\n\n\rb\r".toList
  obtain ⟨_, _, _, _, _, hplaces⟩ := hinStep.offsets_exact
  have hinside := hplaces 2 (by decide)
  have hafter := hplaces 3 (by decide)
  rw [if_pos (by decide)] at hinside
  rw [if_neg (by decide)] at hafter
  exact ⟨_, hinStep, rfl, by decide, by decide, hinside, hafter⟩

end Document

end SourceLayout
