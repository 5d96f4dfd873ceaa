import SourceLayout.Proofs.Editor.Synchronization

/-!
# The edit of a whole document

The edit that answers a request for formatting goes from the start of a document to the start of the
row after its last line. There is no such row unless the text ends with a line end: the position
then stands for the start of the last row, and what this row holds is left behind the new text.
-/

namespace SourceLayout

open Text (rows isRowEnd)

namespace Document

theorem isLineBreak_of_isRowEnd {c : Char} (hc : isRowEnd c = true) :
    Text.isLineBreak c = true := by
  rw [isRowEnd, Bool.or_eq_true, beq_iff_eq, beq_iff_eq] at hc
  rcases hc with rfl | rfl <;> decide

theorem length_consFirst_le (c : Char) (lines : List Text) :
    lines.length ≤ (Text.consFirst c lines).length := by
  cases lines <;> simp [Text.consFirst]

theorem length_consFirst {lines : List Text} (hne : lines ≠ []) (c : Char) :
    (Text.consFirst c lines).length = lines.length := by
  obtain ⟨first, rest, rfl⟩ := List.exists_cons_of_ne_nil hne
  rfl

/-- Every line end of a row also ends a line. -/
theorem length_rows_le (t : Text) : (rows t).length ≤ (Text.brokenLines t).length + 1 := by
  fun_induction rows t with
  | case1 => simp [Text.brokenLines]
  | case2 cs ih =>
      rw [Text.brokenLines, List.length_cons, List.length_cons]
      omega
  | case3 c cs hpair hc ih =>
      rw [Text.brokenLines, if_pos (isLineBreak_of_isRowEnd hc), List.length_cons,
        List.length_cons]
      · omega
      · exact hpair
  | case4 c cs hpair hc ih =>
      rw [Text.brokenLines, length_consFirst (Text.rowed_rows cs).ne_nil]
      · split
        next => simpa using Nat.le_succ_of_le ih
        next =>
            have hlength := length_consFirst_le c (Text.brokenLines cs)
            omega
      · exact hpair

theorem length_rows_le_linesOf (t : Text) : (rows t).length ≤ (linesOf t).length + 1 := by
  have hrows := length_rows_le t
  rw [linesOf]
  split
  next hnone =>
      rw [List.map_eq_nil_iff.mp hnone] at hrows
      simpa using Nat.le_succ_of_le hrows
  next lines _ => simpa using hrows

end Document

/-! ### Places -/

theorem Text.place_start (t : Text) : t.place ⟨0, 0⟩ = 0 := by
  simp [Text.place, Document.clamp]

/-- The start of a row past the last one stands for the start of the last one. -/
theorem Text.drop_place {t : Text} {row : Int} (hrow : (rows t).length ≤ row + 1) :
    t.drop (t.place ⟨row, 0⟩) = t.rtakeWhile fun c => !isRowEnd c := by
  obtain ⟨front, hfront⟩ := (rowed_rows t).exists_front
  rw [flatten_rows] at hfront
  have hflatten := flatten_rows t
  generalize t.rtakeWhile (fun c => !isRowEnd c) = last at hfront
  rw [hfront, List.flatten_append, List.flatten_singleton] at hflatten
  have hindex : Document.clamp ((rows t).length - 1) row = front.length := by
    rw [hfront, List.length_append, List.length_singleton] at hrow ⊢
    rw [Document.clamp]
    omega
  have hplace : t.place ⟨row, 0⟩ = front.flatten.length := by
    simp only [Text.place, hindex]
    rw [hfront, List.take_left]
    simp [Document.clamp]
  rw [hplace, ← hflatten, List.drop_left]

/-- The change that an editor tells when it has made an edit. -/
def Edit.change (edit : Edit) : Change :=
  .ranged ⟨0, 0⟩ ⟨edit.rows, 0⟩ edit.text

theorem Edit.onText_change {t : Text} {edit : Edit} (hrows : (Text.rows t).length ≤ edit.rows + 1) :
    edit.change.onText t = edit.text ++ t.rtakeWhile fun c => !isRowEnd c := by
  rw [Edit.change, Change.onText, Text.place_start, List.take_zero, List.nil_append,
    Text.drop_place (by omega)]

theorem Text.rtakeWhile_eq_nil_iff (t : Text) :
    t.rtakeWhile (fun c => !isRowEnd c) = [] ↔ ∀ c, t.getLast? = some c → isRowEnd c = true := by
  rw [List.rtakeWhile_eq_nil_iff]
  cases t using List.reverseRecOn with
  | nil => simp
  | append_singleton front last => simp

namespace Session

/-- **The edit of a changed document, made and told back**, leads to the formatted text followed by
what the document had after its last line end. So it leads to the formatted text exactly if the
document ends with a line end or is empty. -/
theorem exists_edit_change [Machine] {session : Session} (hreachable : Reachable session)
    {uri : Text} {document : Document} (hopen : session.document? uri = some document)
    {options : Option Options} {formatted : Session} {outcome : Outcome}
    (hformat : session.format uri options = .ok (formatted, some outcome))
    (hsucceeded : outcome.succeeded = true) (hchanged : outcome.changed = true) (version : Int) :
    ∃ edit after, formatted.edits uri (some outcome) = [edit] ∧
      (formatted.change uri version [edit.change]).document? uri = some after ∧
      after.text = outcome.text ++ document.text.rtakeWhile (fun c => !isRowEnd c) ∧
      (after.text = outcome.text ↔
        ∀ c, document.text.getLast? = some c → isRowEnd c = true) := by
  have hdocument := hreachable.inStep uri document hopen
  have hformatted : formatted.document? uri = some document := by
    rw [document?, documents_of_format hformat]
    exact hopen
  have hedits : formatted.edits uri (some outcome) = [⟨document.lines.length, outcome.text⟩] := by
    simp [edits, hformatted, hsucceeded, hchanged]
  obtain ⟨after, hafter, _, htext⟩ := exists_document?_change hformatted hdocument version
    [Edit.change ⟨document.lines.length, outcome.text⟩]
  have hrows := Document.length_rows_le_linesOf document.text
  rw [← hdocument.lines_eq] at hrows
  rw [List.foldl_cons, List.foldl_nil, Edit.onText_change hrows] at htext
  refine ⟨_, after, hedits, hafter, htext, ?_⟩
  rw [htext, List.append_right_eq_self, Text.rtakeWhile_eq_nil_iff]

/-- A document without a line end at its end: its only line stays behind the formatted one. -/
theorem exists_edit_change_unended :
    ∃ formatted outcome,
      (opening "a.js".toList "javascript".toList 1 "a=1".toList).format "a.js".toList none =
        .ok (formatted, some outcome) ∧
      outcome.text = "a = 1".toList ∧ outcome.succeeded = true ∧ outcome.changed = true ∧
      ∃ edit after, formatted.edits "a.js".toList (some outcome) = [edit] ∧
        (formatted.change "a.js".toList 2 [edit.change]).document? "a.js".toList = some after ∧
        after.text = "a = 1a=1".toList := by
  obtain ⟨formatted, outcome, hformat, hview⟩ : ∃ formatted outcome,
      (opening "a.js".toList "javascript".toList 1 "a=1".toList).format "a.js".toList none =
        .ok (formatted, some outcome) ∧
      (outcome.text, outcome.succeeded, outcome.changed) = ("a = 1".toList, true, true) :=
    exists_outcome (by decide +kernel)
  simp only [Prod.mk.injEq] at hview
  obtain ⟨htext, hsucceeded, hchanged⟩ := hview
  obtain ⟨edit, after, hedits, hafter, hresult, _⟩ := exists_edit_change (reachable_opening ..)
    (document?_putDocument ..) hformat hsucceeded hchanged 2
  refine ⟨formatted, outcome, hformat, htext, hsucceeded, hchanged, edit, after, hedits, hafter, ?_⟩
  rw [hresult, htext]
  decide +kernel

end Session

end SourceLayout
