import Mathlib.Data.List.DropRight
import Mathlib.Data.List.Flatten
import SourceLayout.Layout.Blank
import SourceLayout.Proofs.Token

/-!
# Blank lines come and go

The body of a document is its lines that are not blank, without the blanks at either end. The passes
over blank lines and comments change nothing of it, and no line gets a character from elsewhere than
the lines there were.
-/

namespace SourceLayout

namespace Text

/-! ### Trimming -/

theorem trimLeft_blanks_append {gap : Text} (hgap : gap.all isBlank = true) (t : Text) :
    trimLeft (gap ++ t) = trimLeft t :=
  List.dropWhile_append_of_pos (List.all_eq_true.mp hgap)

theorem trim_blanks_append {gap : Text} (hgap : gap.all isBlank = true) (t : Text) :
    trim (gap ++ t) = trim t := by
  rw [trim, trimLeft_blanks_append hgap, trim]

theorem trimLeft_eq_self {t : Text} (hhead : headIs isBlank t = false) : t.trimLeft = t := by
  cases t with
  | nil => rfl
  | cons c cs => exact List.dropWhile_cons_of_neg (by simpa using hhead)

theorem headIs_trimLeft (t : Text) : headIs isBlank t.trimLeft = false :=
  headIs_dropWhile isBlank t

theorem headIs_trim (t : Text) : headIs isBlank t.trim = false := by
  obtain ⟨gap, _, hsplit⟩ := trimRight_append t.trimLeft
  have hhead := headIs_trimLeft t
  cases htrim : t.trim with
  | nil => rfl
  | cons c cs =>
      rw [← hsplit, ← trim, htrim] at hhead
      exact hhead

theorem trimRight_trimRight (t : Text) : t.trimRight.trimRight = t.trimRight := by
  simp only [trimRight, List.reverse_reverse, List.dropWhile_idempotent]

@[simp]
theorem trim_trim (t : Text) : t.trim.trim = t.trim := by
  calc t.trim.trim
      = t.trim.trimRight := by rw [trim, trimLeft_eq_self (headIs_trim t)]
    _ = t.trim := trimRight_trimRight _

theorem trim_eq_self {t : Text} (hhead : headIs isBlank t = false)
    (hlast : headIs isBlank t.reverse = false) : t.trim = t := by
  rw [trim, trimLeft_eq_self hhead, trimRight, ← trimLeft, trimLeft_eq_self hlast,
    List.reverse_reverse]

@[simp]
theorem isEmptyLine_append (left right : Text) :
    isEmptyLine (left ++ right) = (left.isEmptyLine && right.isEmptyLine) :=
  List.all_append

@[simp]
theorem isEmptyLine_trim (t : Text) : t.trim.isEmptyLine = t.isEmptyLine := by
  rw [Bool.eq_iff_iff, ← @tokens_eq_nil_iff .plain, tokens_trim, tokens_eq_nil_iff]

theorem trim_eq_nil_iff (t : Text) : t.trim = [] ↔ t.isEmptyLine = true := by
  constructor
  · intro htrim
    rw [← isEmptyLine_trim, htrim]
    rfl
  · intro hblank
    have hleft : t.trimLeft = [] := by
      have hall := trimLeft_blanks_append hblank []
      rwa [List.append_nil] at hall
    rw [trim, hleft]
    rfl

theorem subset_of_has {part t : Text} (hhas : has part t = true) : part ⊆ t := by
  induction t with
  | nil =>
      obtain rfl : part = [] := by simpa [has] using hhas
      exact List.Subset.refl []
  | cons c cs ih =>
      simp only [has, Bool.or_eq_true] at hhas
      rcases hhas with hstart | hrest
      · exact (List.isPrefixOf_iff_prefix.mp hstart).subset
      · exact List.subset_cons_of_subset c (ih hrest)

end Text

namespace Layout

/-- The lines that are not blank, trimmed. -/
def body (lines : List Text) : List Text :=
  (lines.filter fun line => !line.isEmptyLine).map Text.trim

theorem body_blank_cons {line : Text} (hblank : line.isEmptyLine = true) (lines : List Text) :
    body (line :: lines) = body lines := by
  simp [body, hblank]

theorem body_cons {line : Text} (hblank : line.isEmptyLine = false) (lines : List Text) :
    body (line :: lines) = line.trim :: body lines := by
  simp [body, hblank]

theorem body_append (left right : List Text) : body (left ++ right) = body left ++ body right := by
  simp [body]

theorem body_cons_congr (line : Text) {lines lines' : List Text} (h : body lines = body lines') :
    body (line :: lines) = body (line :: lines') := by
  cases hblank : line.isEmptyLine with
  | true => rw [body_blank_cons hblank, body_blank_cons hblank, h]
  | false => rw [body_cons hblank, body_cons hblank, h]

/-! ### Passes over lines -/

/-- The same lines, but for some blank ones. -/
inductive Thinned : List Text → List Text → Prop
  | nil : Thinned [] []
  | keep (line : Text) {lines kept : List Text} (h : Thinned lines kept) :
      Thinned (line :: lines) (line :: kept)
  | drop {line : Text} (hblank : line.isEmptyLine = true) {lines kept : List Text}
      (h : Thinned lines kept) : Thinned (line :: lines) kept

namespace Thinned

variable {lines kept : List Text}

theorem refl (lines : List Text) : Thinned lines lines := by
  induction lines with
  | nil => exact .nil
  | cons line lines ih => exact .keep line ih

theorem trans (h : Thinned lines kept) {final : List Text} (h' : Thinned kept final) :
    Thinned lines final := by
  induction h generalizing final with
  | nil => exact h'
  | drop hblank _ ih => exact .drop hblank (ih h')
  | keep line _ ih =>
      cases h' with
      | keep _ hrest => exact .keep line (ih hrest)
      | drop hblank hrest => exact .drop hblank (ih hrest)

theorem body_eq (h : Thinned lines kept) : body kept = body lines := by
  induction h with
  | nil => rfl
  | keep line _ ih => exact body_cons_congr line ih
  | drop hblank _ ih => rw [body_blank_cons hblank, ih]

theorem sublist (h : Thinned lines kept) : kept.Sublist lines := by
  induction h with
  | nil => exact .refl []
  | keep line _ ih => exact ih.cons_cons line
  | drop _ _ ih => exact ih.cons _

end Thinned

theorem thinned_squeezeFrom (afterBlank : Bool) (lines : List Text) :
    Thinned lines (squeezeFrom afterBlank lines) := by
  induction lines generalizing afterBlank with
  | nil => exact .nil
  | cons line lines ih =>
      rw [squeezeFrom]
      split
      next hdrop =>
          simp only [Bool.and_eq_true] at hdrop
          exact .drop hdrop.1 (ih true)
      next => exact .keep line (ih _)

theorem thinned_dropBetweenBracesFrom (previous : Option Text) (lines : List Text) :
    Thinned lines (dropBetweenBracesFrom previous lines) := by
  induction lines generalizing previous with
  | nil => exact .nil
  | cons line lines ih =>
      rw [dropBetweenBracesFrom]
      split
      next hdrop =>
          simp only [Bool.and_eq_true] at hdrop
          exact .drop hdrop.1.1 (ih _)
      next => exact .keep line (ih _)

theorem thinned_dropWhile_isEmptyLine (lines : List Text) :
    Thinned lines (lines.dropWhile Text.isEmptyLine) := by
  induction lines with
  | nil => exact .nil
  | cons line lines ih =>
      by_cases hblank : line.isEmptyLine = true
      · rw [List.dropWhile_cons_of_pos hblank]
        exact .drop hblank ih
      · rw [List.dropWhile_cons_of_neg hblank]
        exact .refl _

/-- Lines that were aligned, with their old body, under an indentation of blanks. -/
structure Aligned.Keeps (lines : List Text) (aligned : Aligned) : Prop where
  body_eq : body aligned.lines = body lines
  blanks : ∀ indentation ∈ aligned.indentation, indentation.all isBlank = true

theorem Aligned.Keeps.push {marker line : Text} {lines : List Text} {below : Aligned}
    (h : Aligned.Keeps lines below) : Aligned.Keeps (line :: lines) (below.push marker line) := by
  have hown : Aligned.Keeps (line :: lines) ⟨line :: below.lines, some line.indentation⟩ := by
    refine ⟨body_cons_congr line h.body_eq, ?_⟩
    intro indentation hindentation
    obtain rfl := Option.mem_some.mp hindentation
    exact List.all_takeWhile
  rw [Aligned.push]
  split
  next => exact ⟨body_cons_congr line h.body_eq, h.blanks⟩
  next hblank =>
      split
      next indentation hbelow =>
          have hgap := h.blanks indentation hbelow
          split
          next =>
              have hline : (indentation ++ line.trim).isEmptyLine = false := by
                simp [hblank]
              refine ⟨?_, ?_⟩
              · rw [body_cons hline, (thinned_dropWhile_isEmptyLine _).body_eq, h.body_eq,
                  Text.trim_blanks_append hgap, Text.trim_trim, body_cons (by simpa using hblank)]
              · intro indentation' hindentation
                obtain rfl := Option.mem_some.mp hindentation
                exact hgap
          next => exact hown
      next => exact hown

theorem align_keeps (marker : Text) (lines : List Text) :
    Aligned.Keeps lines (lines.foldr (Aligned.push marker) ⟨[], none⟩) := by
  induction lines with
  | nil => exact ⟨rfl, by simp⟩
  | cons line lines ih => exact ih.push

theorem align_eq_self {marker : Text} {lines : List Text}
    (hlines : ∀ line ∈ lines, Comment.isMarked marker line.trim = false) :
    align marker lines = lines := by
  rw [align]
  induction lines with
  | nil => rfl
  | cons line lines ih =>
      have hline := hlines line List.mem_cons_self
      have hrest := ih fun other hother => hlines other (List.mem_cons_of_mem line hother)
      rw [List.foldr_cons, Aligned.push]
      split
      next => simp [hrest]
      next =>
          split
          next => simp [hline, hrest]
          next => simp [hrest]

theorem body_replicate_nil (count : Nat) : body (List.replicate count []) = [] := by
  induction count with
  | zero => rfl
  | succ count ih => rw [List.replicate_succ, body_blank_cons rfl, ih]

theorem body_spaceBlocks (lines : List Text) : body (spaceBlocks lines) = body lines := by
  induction lines with
  | nil => rfl
  | cons line lines ih =>
      rw [spaceBlocks, List.cons_append]
      refine body_cons_congr line ?_
      rw [body_append, body_replicate_nil, List.nil_append, ih]

/-! ### No new characters -/

theorem flatten_spaceBlocks (lines : List Text) : (spaceBlocks lines).flatten = lines.flatten := by
  induction lines with
  | nil => rfl
  | cons line lines ih => simp [spaceBlocks, ih]

/-- Whatever stands in aligned lines or in their indentation stood in the lines before. -/
structure Aligned.DrawnFrom (lines : List Text) (aligned : Aligned) : Prop where
  text : aligned.lines.flatten ⊆ lines.flatten
  indentation : ∀ indentation ∈ aligned.indentation, indentation ⊆ lines.flatten

theorem Aligned.DrawnFrom.push {marker line : Text} {lines : List Text} {below : Aligned}
    (h : Aligned.DrawnFrom lines below) :
    Aligned.DrawnFrom (line :: lines) (below.push marker line) := by
  have hlines : (line :: below.lines).flatten ⊆ (line :: lines).flatten := by
    simpa using List.append_subset.mpr
      ⟨List.subset_append_left line lines.flatten, List.subset_append_of_subset_right line h.text⟩
  have hindent : ∀ indentation ∈ below.indentation, indentation ⊆ (line :: lines).flatten :=
    fun indentation hmem => List.subset_append_of_subset_right line (h.indentation _ hmem)
  have hown : Aligned.DrawnFrom (line :: lines) ⟨line :: below.lines, some line.indentation⟩ := by
    refine ⟨hlines, ?_⟩
    intro indentation hmem
    obtain rfl := Option.mem_some.mp hmem
    exact List.subset_append_of_subset_left _ (List.takeWhile_prefix isBlank).subset
  rw [Aligned.push]
  split
  next => exact ⟨hlines, hindent⟩
  next =>
      split
      next indentation hbelow =>
          split
          next =>
              have hmem : indentation ∈ below.indentation := hbelow
              refine ⟨?_, ?_⟩
              · have hdropped : (below.lines.dropWhile Text.isEmptyLine).flatten ⊆ lines.flatten :=
                  fun c hc => h.text ((List.dropWhile_sublist _).flatten.subset hc)
                simp only [List.flatten_cons, List.append_subset]
                exact ⟨⟨hindent indentation hmem, List.subset_append_of_subset_left _
                  (Text.trim_sublist line).subset⟩,
                  List.subset_append_of_subset_right line hdropped⟩
              · intro indentation' hmem'
                obtain rfl := Option.mem_some.mp hmem'
                exact hindent _ hmem
          next => exact hown
      next => exact hown

theorem align_drawnFrom (marker : Text) (lines : List Text) :
    Aligned.DrawnFrom lines (lines.foldr (Aligned.push marker) ⟨[], none⟩) := by
  induction lines with
  | nil => exact ⟨List.Subset.refl _, by simp⟩
  | cons line lines ih => exact ih.push

/-! ### Lines and text -/

theorem lines_newline_cons (t : Text) : Text.lines ('\n' :: t) = [] :: t.lines :=
  rfl

theorem lines_cons {c : Char} (hc : c ≠ '\n') {t first : Text} {rest : List Text}
    (hlines : t.lines = first :: rest) : Text.lines (c :: t) = (c :: first) :: rest := by
  rw [Text.lines] at hlines
  simp [Text.lines, Text.cutAt, hc, hlines]

theorem exists_lines (t : Text) : ∃ first rest, t.lines = first :: rest :=
  List.exists_cons_of_ne_nil (Text.cutAt_ne_nil _ t)

/-- What collapsing line feeds does to lines: of more than two empty lines at the start, and of more
than one after a line with something in it, the first ones stay. `run` counts the line feeds just
passed. The last line always stays, since no line feed follows it. -/
def collapseLines (run : Nat) : List Text → List Text
  | [] => []
  | [line] => [line]
  | line :: next :: lines =>
      if line = [] ∧ 2 ≤ run then collapseLines (run + 1) (next :: lines)
      else line :: collapseLines (if line = [] then run + 1 else 1) (next :: lines)

theorem lines_collapseFrom (run : Nat) (t : Text) :
    (collapseFrom run t).lines = collapseLines run t.lines := by
  induction t generalizing run with
  | nil => rfl
  | cons c cs ih =>
      obtain ⟨first, rest, hlines⟩ := exists_lines cs
      by_cases hc : c = '\n'
      · subst hc
        rw [lines_newline_cons, hlines, collapseFrom, if_pos rfl, collapseLines, ← hlines]
        by_cases hrun : 2 ≤ run
        · rw [if_pos hrun, if_pos ⟨rfl, hrun⟩, ih]
        · rw [if_neg hrun, if_neg fun h => hrun h.2, if_pos rfl, lines_newline_cons, ih]
      · have hrest := ih 0
        rw [hlines] at hrest
        rw [lines_cons hc hlines, collapseFrom, if_neg hc]
        -- The line goes on, so nothing of it is dropped, whether it was empty so far or not.
        cases rest with
        | nil => exact lines_cons hc hrest
        | cons second others =>
            have hfirst : collapseLines 0 (first :: second :: others) =
                first :: collapseLines 1 (second :: others) := by
              simp [collapseLines]
            rw [hfirst] at hrest
            rw [lines_cons hc hrest, collapseLines, if_neg (by simp), if_neg (by simp)]

theorem lines_collapse (t : Text) : (collapse t).lines = collapseLines 0 t.lines :=
  lines_collapseFrom 0 t

theorem thinned_collapseLines (run : Nat) (lines : List Text) :
    Thinned lines (collapseLines run lines) := by
  fun_induction collapseLines run lines with
  | case1 => exact .nil
  | case2 run line => exact .refl [line]
  | case3 run line next lines hdrop ih => exact .drop (by simp [hdrop.1, Text.isEmptyLine]) ih
  | case4 run line next lines _ ih => exact .keep line ih

theorem body_collapse (t : Text) : body (collapse t).lines = body t.lines := by
  rw [lines_collapse, (thinned_collapseLines 0 t.lines).body_eq]

theorem collapseFrom_sublist (run : Nat) (t : Text) : (collapseFrom run t).Sublist t := by
  induction t generalizing run with
  | nil => exact List.nil_sublist []
  | cons c cs ih =>
      rw [collapseFrom]
      split
      · split
        · exact (ih _).cons c
        · exact (ih _).cons_cons c
      · exact (ih _).cons_cons c

theorem ofLines_cons (first second : Text) (others : List Text) :
    Text.ofLines (first :: second :: others) =
      first ++ '\n' :: Text.ofLines (second :: others) := by
  simp [Text.ofLines, List.intercalate]

theorem lines_append {line : Text} (hline : '\n' ∉ line) {t first : Text} {rest : List Text}
    (hlines : t.lines = first :: rest) : Text.lines (line ++ t) = (line ++ first) :: rest := by
  induction line with
  | nil => exact hlines
  | cons c cs ih =>
      simp only [List.mem_cons, not_or] at hline
      exact lines_cons (Ne.symm hline.1) (ih hline.2)

theorem lines_append_newline {line : Text} (hline : '\n' ∉ line) (t : Text) :
    Text.lines (line ++ '\n' :: t) = line :: t.lines := by
  rw [lines_append hline (lines_newline_cons t), List.append_nil]

theorem lines_eq_self {line : Text} (hline : '\n' ∉ line) : line.lines = [line] := by
  have hlines := @lines_append line hline [] [] [] rfl
  rwa [List.append_nil] at hlines

/-- Text without line feeds is passed over, and the count starts anew after it. -/
theorem collapseFrom_append {line : Text} (hline : '\n' ∉ line) (run : Nat) :
    ∃ run', ∀ t, collapseFrom run (line ++ t) = line ++ collapseFrom run' t := by
  induction line generalizing run with
  | nil => exact ⟨run, fun t => rfl⟩
  | cons c cs ih =>
      simp only [List.mem_cons, not_or] at hline
      obtain ⟨run', hrest⟩ := ih hline.2 0
      refine ⟨run', fun t => ?_⟩
      rw [List.cons_append, collapseFrom, if_neg (Ne.symm hline.1), hrest, List.cons_append]

/-- Lines without line feeds come back from their text. -/
theorem lines_ofLines {lines : List Text} (hne : lines ≠ []) (hlines : ∀ line ∈ lines, '\n' ∉ line) :
    (Text.ofLines lines).lines = lines := by
  induction lines with
  | nil => exact absurd rfl hne
  | cons first rest ih =>
      have hfirst := hlines first List.mem_cons_self
      cases rest with
      | nil => simpa [Text.ofLines, List.intercalate] using lines_eq_self hfirst
      | cons second others =>
          rw [ofLines_cons, lines_append_newline hfirst,
            ih (by simp) fun line hmem => hlines line (List.mem_cons_of_mem first hmem)]

/-- No lines at all come back as a blank one. -/
theorem body_lines_ofLines {lines : List Text} (hlines : ∀ line ∈ lines, '\n' ∉ line) :
    body (Text.ofLines lines).lines = body lines := by
  by_cases hne : lines = []
  · rw [hne]
    rfl
  · rw [lines_ofLines hne hlines]

theorem mem_ofLines {lines : List Text} {c : Char} (hc : c ∈ Text.ofLines lines) :
    c ∈ lines.flatten ∨ c = '\n' := by
  induction lines with
  | nil => simp [Text.ofLines, List.intercalate] at hc
  | cons first rest ih =>
      cases rest with
      | nil => exact .inl (by simpa [Text.ofLines, List.intercalate] using hc)
      | cons second others =>
          rw [ofLines_cons, List.mem_append, List.mem_cons] at hc
          rw [List.flatten_cons, List.mem_append]
          rcases hc with hfirst | hbreak | hrest
          · exact .inl (.inl hfirst)
          · exact .inr hbreak
          · exact (ih hrest).imp_left .inr

theorem sublist_of_mem_lines {t line : Text} (hline : line ∈ t.lines) : line.Sublist t :=
  (Text.of_mem_cutAt hline).1.sublist

theorem newline_not_mem {t line : Text} (hline : line ∈ t.lines) : '\n' ∉ line := by
  intro hmem
  simpa using (Text.of_mem_cutAt hline).2 _ hmem

end Layout

end SourceLayout
