import Mathlib.Data.List.DropRight
import SourceLayout.Editor.Document

/-!
# Rows and offsets

An editor counts the rows of a text: every line feed, every carriage return and every pair of the
two ends one. The offsets worked out for a text are the places where its rows start, so that in a
document with the offsets of its text a position is found by the rows of the text alone.
-/

namespace SourceLayout

namespace Text

/-- The rows of a text, each with the line end that closes it. The last row has no line end and may
be empty. -/
def rows : Text → List Text
  | [] => [[]]
  | '\r' :: '\n' :: cs => ['\r', '\n'] :: rows cs
  | c :: cs => if isRowEnd c then [c] :: rows cs else consFirst c (rows cs)

/-- Rows of which all but the last one are closed by line ends, and that have no other ones. -/
inductive Rowed : List Text → Prop
  | last {row : Text} (hrow : ∀ c ∈ row, isRowEnd c = false) : Rowed [row]
  | closed {content ending : Text} {rows : List Text} (hcontent : ∀ c ∈ content, isRowEnd c = false)
      (hne : ending ≠ []) (hending : ∀ c ∈ ending, isRowEnd c = true) (hrows : Rowed rows) :
      Rowed ((content ++ ending) :: rows)

theorem Rowed.consFirst {c : Char} (hc : isRowEnd c = false) {rows : List Text} (h : Rowed rows) :
    Rowed (consFirst c rows) := by
  cases h with
  | last hrow => exact .last (List.forall_mem_cons.mpr ⟨hc, hrow⟩)
  | closed hcontent hne hending hrows =>
      exact .closed (List.forall_mem_cons.mpr ⟨hc, hcontent⟩) hne hending hrows

theorem rowed_rows (t : Text) : Rowed (rows t) := by
  fun_induction rows t with
  | case1 => exact .last (by simp)
  | case2 cs ih => exact @Rowed.closed [] ['\r', '\n'] _ (by simp) (by simp) (by simp [isRowEnd]) ih
  | case3 c cs _ hc ih => exact @Rowed.closed [] [c] _ (by simp) (by simp) (by simpa using hc) ih
  | case4 c cs _ hc ih => exact ih.consFirst (by simpa using hc)

theorem Rowed.ne_nil {rows : List Text} (h : Rowed rows) : rows ≠ [] := by
  cases h <;> simp

theorem rtakeWhile_append {ending : Text} (hne : ending ≠ [])
    (hending : ∀ c ∈ ending, isRowEnd c = true) (before after : Text) :
    (before ++ ending ++ after).rtakeWhile (fun c => !isRowEnd c) =
      after.rtakeWhile fun c => !isRowEnd c := by
  have hstop : (ending.reverse ++ before.reverse).takeWhile (fun c => !isRowEnd c) = [] := by
    obtain ⟨c, cs, hreverse⟩ := List.exists_cons_of_ne_nil (List.reverse_ne_nil_iff.mpr hne)
    have hc : c ∈ ending := List.mem_reverse.mp (hreverse ▸ List.mem_cons_self)
    rw [hreverse, List.cons_append, List.takeWhile_cons_of_neg (by simp [hending c hc])]
  rw [List.rtakeWhile, List.rtakeWhile, List.reverse_append, List.reverse_append,
    List.takeWhile_append, hstop, List.append_nil]
  split
  next hall => rw [(List.takeWhile_prefix _).eq_of_length hall]
  next => rfl

/-- The last row is what follows the last line end. -/
theorem Rowed.exists_front {rows : List Text} (h : Rowed rows) :
    ∃ front, rows = front ++ [rows.flatten.rtakeWhile fun c => !isRowEnd c] := by
  induction h with
  | @last row hrow =>
      have hall : row.rtakeWhile (fun c => !isRowEnd c) = row :=
        List.rtakeWhile_eq_self_iff.mpr fun c hc => by simp [hrow c hc]
      exact ⟨[], by rw [List.flatten_singleton, hall, List.nil_append]⟩
  | @closed content ending rows _ hne hending _ ih =>
      obtain ⟨front, hfront⟩ := ih
      refine ⟨(content ++ ending) :: front, ?_⟩
      rw [List.flatten_cons, rtakeWhile_append hne hending, List.cons_append, ← hfront]

theorem flatten_consFirst (c : Char) (rows : List Text) :
    (consFirst c rows).flatten = c :: rows.flatten := by
  cases rows <;> rfl

theorem flatten_rows (t : Text) : (rows t).flatten = t := by
  fun_induction rows t with
  | case1 => rfl
  | case2 cs ih => rw [List.flatten_cons, ih]; rfl
  | case3 c cs _ _ ih => rw [List.flatten_cons, ih]; rfl
  | case4 c cs _ _ ih => rw [flatten_consFirst, ih]

end Text

namespace Document

open Text (rows Rowed isRowEnd)

/-! ### Widths -/

/-- The columns of a row are those before its line end. -/
theorem rowWidth_append {content ending : Text} (hcontent : ∀ c ∈ content, isRowEnd c = false)
    (hending : ∀ c ∈ ending, isRowEnd c = true) :
    rowWidth (content ++ ending) = content.length := by
  have hrest : content.reverse.dropWhile isRowEnd = content.reverse := by
    cases hreverse : content.reverse with
    | nil => rfl
    | cons c cs =>
        have hc : c ∈ content := List.mem_reverse.mp (hreverse ▸ List.mem_cons_self)
        rw [List.dropWhile_cons_of_neg (by simp [hcontent c hc])]
  have hends : ∀ c ∈ ending.reverse, isRowEnd c = true :=
    fun c hc => hending c (List.mem_reverse.mp hc)
  rw [rowWidth, List.reverse_append, List.dropWhile_append_of_pos hends, hrest,
    List.length_reverse]

theorem takeWhile_append {content ending : Text} (hcontent : ∀ c ∈ content, isRowEnd c = false)
    (hending : ∀ c ∈ ending, isRowEnd c = true) :
    (content ++ ending).takeWhile (fun c => !isRowEnd c) = content := by
  rw [List.takeWhile_append_of_pos fun c hc => by simp [hcontent c hc]]
  cases ending with
  | nil => rw [List.takeWhile_nil, List.append_nil]
  | cons c cs =>
      rw [List.takeWhile_cons_of_neg (by simp [hending c List.mem_cons_self]), List.append_nil]

/-- Whatever line ends a row ends with, it has the columns before the first one. -/
theorem rowWidth_of_rowed {rows : List Text} (h : Rowed rows) {row : Text} (hrow : row ∈ rows) :
    rowWidth row = (row.takeWhile fun c => !isRowEnd c).length := by
  have hsplit : ∀ content ending : Text, (∀ c ∈ content, isRowEnd c = false) →
      (∀ c ∈ ending, isRowEnd c = true) → rowWidth (content ++ ending) =
        ((content ++ ending).takeWhile fun c => !isRowEnd c).length := by
    intro content ending hcontent hending
    rw [rowWidth_append hcontent hending, takeWhile_append hcontent hending]
  induction h with
  | @last last hlast =>
      obtain rfl := List.mem_singleton.mp hrow
      simpa using hsplit row [] hlast (by simp)
  | closed hcontent _ hending _ ih =>
      rcases List.mem_cons.mp hrow with rfl | hlater
      · exact hsplit _ _ hcontent hending
      · exact ih hlater

/-! ### Offsets -/

/-- Where rows start when the first one starts at a place. -/
def startsFrom (place : Nat) : List Text → List Nat
  | [] => []
  | row :: rows => place :: startsFrom (place + row.length) rows

theorem startsFrom_consFirst (place : Nat) (c : Char) {rows : List Text} {starts : List Nat}
    (h : startsFrom (place + 1) rows = (place + 1) :: starts) :
    startsFrom place (Text.consFirst c rows) = place :: starts := by
  cases rows with
  | nil => cases h
  | cons row rows =>
      rw [startsFrom, List.cons.injEq] at h
      rw [Text.consFirst, startsFrom, List.length_cons, ← h.2, Nat.add_comm row.length 1,
        Nat.add_assoc]

theorem startsFrom_rows (place : Nat) (t : Text) :
    startsFrom place (rows t) = place :: startsAfter place t := by
  fun_induction rows t generalizing place with
  | case1 => rfl
  | case2 cs ih => rw [startsFrom, ih, startsAfter]; rfl
  | case3 c cs hpair hc ih => rw [startsFrom, ih, startsAfter, if_pos hc]; exacts [rfl, hpair]
  | case4 c cs hpair hc ih =>
      rw [startsFrom_consFirst place c (ih (place + 1)), startsAfter, if_neg hc]
      exact hpair

theorem length_startsFrom (place : Nat) (rows : List Text) :
    (startsFrom place rows).length = rows.length := by
  induction rows generalizing place with
  | nil => rfl
  | cons row rows ih => rw [startsFrom, List.length_cons, ih, List.length_cons]

theorem getD_startsFrom (place : Nat) {rows : List Text} {index : Nat}
    (hindex : index < rows.length) :
    (startsFrom place rows).getD index 0 = place + (rows.take index).flatten.length := by
  induction rows generalizing place index with
  | nil => simp at hindex
  | cons row rows ih =>
      cases index with
      | zero => rfl
      | succ index =>
          rw [List.length_cons, Nat.succ_lt_succ_iff] at hindex
          rw [startsFrom, List.getD_cons_succ, ih (place + row.length) hindex, List.take_succ_cons,
            List.flatten_cons, List.length_append, Nat.add_assoc]

/-- The offsets of a text are the places where its rows start. -/
theorem offsetsOf_eq (t : Text) : offsetsOf t = startsFrom 0 (rows t) :=
  (startsFrom_rows 0 t).symm

/-! ### Positions -/

theorem clamp_le (most : Nat) (n : Int) : clamp most n ≤ most :=
  Nat.min_le_right _ _

/-- What stands between the start of a row and the start of the next one is the row. -/
theorem drop_take_flatten {rows : List Text} {index : Nat} (hindex : index < rows.length) :
    (rows.flatten.take (rows.take (index + 1)).flatten.length).drop
        (rows.take index).flatten.length = rows[index] := by
  have hsplit : rows.flatten =
      (rows.take (index + 1)).flatten ++ (rows.drop (index + 1)).flatten := by
    rw [← List.flatten_append, List.take_append_drop]
  rw [hsplit, List.take_left, List.take_succ_eq_append_getElem hindex, List.flatten_append,
    List.flatten_singleton, List.drop_left]

end Document

/-- The place of a position in a text, told by its rows alone. A row or column too many stands for
the last one there is, and one below zero for the first one. -/
def Text.place (t : Text) (position : Position) : Nat :=
  let index := Document.clamp ((rows t).length - 1) position.row
  ((rows t).take index).flatten.length +
    Document.clamp (((rows t).getD index []).takeWhile fun c => !isRowEnd c).length position.column

namespace Document

open Text (rows Rowed isRowEnd)

/-- A document whose lines and offsets are those of its text. -/
structure InStep (document : Document) : Prop where
  lines_eq : document.lines = linesOf document.text
  offsets_eq : document.offsets = offsetsOf document.text

theorem inStep_make (uri language : Text) (version : Int) (text : Text) :
    (make uri language version text).InStep :=
  ⟨rfl, rfl⟩

theorem inStep_update (document : Document) (text : Text) (version : Int) :
    (document.update text version).InStep :=
  ⟨rfl, rfl⟩

/-- In a document in step with its text a position is found by the rows of the text. -/
theorem InStep.offsetAt_eq {document : Document} (h : document.InStep) (position : Position) :
    document.offsetAt position = document.text.place position := by
  have hne := (Text.rowed_rows document.text).ne_nil
  have hflatten := Text.flatten_rows document.text
  rw [offsetAt, Text.place, h.offsets_eq, offsetsOf_eq, length_startsFrom]
  generalize hrows : rows document.text = rs at hne hflatten
  have hpos := List.length_pos_iff.mpr hne
  have hle := clamp_le (rs.length - 1) position.row
  generalize clamp (rs.length - 1) position.row = index at hle
  have hindex : index < rs.length := by omega
  have hstop : (if index < rs.length - 1 then (startsFrom 0 rs).getD (index + 1) 0
      else document.text.length) = (rs.take (index + 1)).flatten.length := by
    split
    next hlast => rw [getD_startsFrom 0 (by omega), Nat.zero_add]
    next hlast => rw [List.take_of_length_le (by omega), hflatten]
  have hrow : rs[index] ∈ rows document.text := hrows ▸ List.getElem_mem hindex
  rw [hstop, getD_startsFrom 0 hindex, Nat.zero_add, ← hflatten, drop_take_flatten hindex,
    rowWidth_of_rowed (Text.rowed_rows document.text) hrow, List.getD_eq_getElem?_getD,
    List.getElem?_eq_getElem hindex, Option.getD_some]

end Document

end SourceLayout
