import SourceLayout.Proofs.Layout.Settled

/-!
# The structural pass done twice

Over code the pass finds its work done. In a style sheet it only inserts blank lines, and those that
it inserts after one block may stand in the gap of a block before it. So after one pass no gap is
narrower than it was made, the comments in it are the same, and no gap is short of a line any more.
-/

namespace SourceLayout.Layout

variable {lines lines' : List Text}

theorem isBetween_nil : isBetween [] = true :=
  rfl

theorem spaceBlocks_blanks (count : Nat) (lines : List Text) :
    spaceBlocks (List.replicate count [] ++ lines) =
      List.replicate count [] ++ spaceBlocks lines := by
  have hcloses : closesBlock [] = false := by decide
  induction count with
  | zero => rfl
  | succ count ih =>
      rw [List.replicate_succ, List.cons_append, spaceBlocks, ih, hcloses, if_neg Bool.false_ne_true]
      rfl

/-- The lines of a gap, with blank ones before them. -/
theorem takeWhile_isBetween_blanks (count : Nat) (lines : List Text) :
    (List.replicate count [] ++ lines).takeWhile isBetween =
      List.replicate count [] ++ lines.takeWhile isBetween :=
  List.takeWhile_append_of_pos fun line hline => by
    rw [List.eq_of_mem_replicate hline, isBetween_nil]

theorem countP_comments_blanks (count : Nat) :
    (List.replicate count ([] : Text)).countP isStyleComment = 0 := by
  rw [List.countP_replicate, if_neg (by decide)]

theorem countP_blanks_blanks (count : Nat) :
    (List.replicate count ([] : Text)).countP Text.isEmptyLine = count := by
  have hblank : Text.isEmptyLine [] = true := rfl
  rw [List.countP_replicate, if_pos hblank]

/-- A gap keeps its comments and loses no blank line. -/
theorem countP_spaceBlocks (lines : List Text) :
    ((spaceBlocks lines).takeWhile isBetween).countP isStyleComment =
        (lines.takeWhile isBetween).countP isStyleComment ∧
      (lines.takeWhile isBetween).countP Text.isEmptyLine ≤
        ((spaceBlocks lines).takeWhile isBetween).countP Text.isEmptyLine := by
  induction lines with
  | nil => exact ⟨rfl, Nat.le_refl _⟩
  | cons line lines ih =>
      rw [spaceBlocks]
      generalize (if closesBlock line then missingBlanks lines else 0) = missing
      by_cases hbetween : isBetween line = true
      · obtain ⟨hcomments, hblanks⟩ := ih
        rw [List.cons_append, List.takeWhile_cons_of_pos hbetween,
          List.takeWhile_cons_of_pos hbetween, takeWhile_isBetween_blanks]
        simp only [List.countP_cons, List.countP_append, countP_comments_blanks,
          countP_blanks_blanks]
        omega
      · rw [List.cons_append, List.takeWhile_cons_of_neg hbetween,
          List.takeWhile_cons_of_neg hbetween]
        exact ⟨rfl, Nat.le_refl _⟩

theorem wantsGap_congr (hbody : body lines = body lines') : wantsGap lines = wantsGap lines' := by
  rw [wantsGap, wantsGap, hbody]

/-- With its missing lines put in, a gap misses none. -/
theorem missingBlanks_spaceBlocks (lines : List Text) :
    missingBlanks (List.replicate (missingBlanks lines) [] ++ spaceBlocks lines) = 0 := by
  have hbody : body (List.replicate (missingBlanks lines) [] ++ spaceBlocks lines) = body lines := by
    rw [body_append, body_replicate_nil, List.nil_append, body_spaceBlocks]
  have hwants := wantsGap_congr hbody
  cases hgap : wantsGap lines with
  | false => exact missingBlanks_eq_zero (hwants.trans hgap)
  | true =>
      obtain ⟨hcomments, hblanks⟩ := countP_spaceBlocks lines
      have hmissing := missingBlanks_eq lines
      rw [hgap, if_pos rfl] at hmissing
      rw [missingBlanks_eq, hwants, hgap, if_pos rfl, takeWhile_isBetween_blanks]
      simp only [List.countP_append, countP_comments_blanks, countP_blanks_blanks]
      omega

theorem spaceBlocks_spaceBlocks (lines : List Text) :
    spaceBlocks (spaceBlocks lines) = spaceBlocks lines := by
  induction lines with
  | nil => rfl
  | cons line lines ih =>
      cases hcloses : closesBlock line with
      | false =>
          have hfirst : spaceBlocks (line :: lines) = line :: spaceBlocks lines := by
            rw [spaceBlocks, hcloses, if_neg Bool.false_ne_true]
            rfl
          rw [hfirst, spaceBlocks, ih, hcloses, if_neg Bool.false_ne_true]
          rfl
      | true =>
          have hfirst : spaceBlocks (line :: lines) =
              line :: (List.replicate (missingBlanks lines) [] ++ spaceBlocks lines) := by
            rw [spaceBlocks, hcloses, if_pos rfl]
            rfl
          rw [hfirst, spaceBlocks, hcloses, if_pos rfl, missingBlanks_spaceBlocks,
            spaceBlocks_blanks, ih]
          rfl

/-- **The structural pass is done after one run**: for every family and language and all lines, a
second run changes nothing. -/
theorem settle_twice (family : Family) (language : Option Text) (lines : List Text) :
    settle family language (settle family language lines) = settle family language lines := by
  by_cases hcode : family ≠ .css ∧ family ≠ .html
  · exact (settle_settle hcode lines).2
  · cases family with
    | css => exact spaceBlocks_spaceBlocks lines
    | html => rfl
    | javascript | python | cFamily => simp at hcode

end SourceLayout.Layout
