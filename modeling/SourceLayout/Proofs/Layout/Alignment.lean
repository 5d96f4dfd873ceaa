import SourceLayout.Proofs.Layout.Nesting

/-!
# Comments above code

Lines are aligned from the last one up, so that a comment finds the lines below it done and takes
the indentation of the first one that is not blank, which may be a comment itself. The blank lines
on the way to it go with the same step. Which lines are left can be told from the top down as well:
it only matters whether the last line above that is not blank is a comment, and whether anything
follows.
-/

namespace SourceLayout.Layout

variable {marker line : Text} {lines lines' : List Text}

/-- A line with a comment and nothing else on it. A blank line is none, whatever the marker. -/
def isComment (marker line : Text) : Bool :=
  !line.isEmptyLine && Comment.isMarked marker line.trim

/-- Whether not all lines are blank. -/
def hasText (lines : List Text) : Bool :=
  lines.any fun line => !line.isEmptyLine

/-- The lines without the blank ones that lie between a comment and the next line that is not blank.
`commented` tells whether the last line before them that is not blank is a comment. -/
def unparted (marker : Text) (commented : Bool) : List Text → List Text
  | [] => []
  | line :: lines =>
      if line.isEmptyLine then
        if commented && hasText lines then unparted marker commented lines
        else line :: unparted marker commented lines
      else line :: unparted marker (isComment marker line) lines

/-- The same line; if it is a comment, its indentation may have changed. -/
structure Moved (marker line out : Text) : Prop where
  trim_eq : out.trim = line.trim
  code : isComment marker line = false → out = line

/-- Every comment with a line below it that is not blank stands right above one, with the same
indentation. -/
def Attached (marker : Text) (lines : List Text) : Prop :=
  ∀ front line back, lines = front ++ line :: back → isComment marker line = true →
    hasText back = true → ∃ next rest, back = next :: rest ∧ next.isEmptyLine = false ∧
      next.indentation = line.indentation

/-! ### Lines that stay -/

theorem hasText_eq_false_iff (lines : List Text) : hasText lines = false ↔ body lines = [] := by
  simp [hasText, body]

theorem hasText_congr (hbody : body lines = body lines') : hasText lines = hasText lines' := by
  rw [Bool.eq_iff_iff, ← not_iff_not, Bool.not_eq_true, Bool.not_eq_true, hasText_eq_false_iff,
    hasText_eq_false_iff, hbody]

theorem unparted_of_hasText_eq_false (hblank : hasText lines = false) (commented : Bool) :
    unparted marker commented lines = lines := by
  induction lines with
  | nil => rfl
  | cons line lines ih =>
      rw [hasText, List.any_cons, Bool.or_eq_false_iff, Bool.not_eq_false'] at hblank
      obtain ⟨hline, hlater⟩ := hblank
      rw [unparted, if_pos hline, hasText, hlater, Bool.and_false, if_neg Bool.false_ne_true,
        ih hlater]

/-- Under a comment the blank lines in front of other lines go. -/
theorem unparted_under_comment (htext : hasText lines = true) :
    unparted marker true lines = (unparted marker false lines).dropWhile Text.isEmptyLine := by
  induction lines with
  | nil => cases htext
  | cons line lines ih =>
      rw [unparted, unparted]
      cases hline : line.isEmptyLine with
      | true =>
          have hlater : hasText lines = true := by simpa [hasText, hline] using htext
          rw [if_pos rfl, if_pos rfl, hlater, Bool.and_true, Bool.and_true, if_pos rfl,
            if_neg Bool.false_ne_true, List.dropWhile_cons_of_pos hline, ih hlater]
      | false =>
          rw [if_neg Bool.false_ne_true, if_neg Bool.false_ne_true,
            List.dropWhile_cons_of_neg (by simp [hline])]

theorem Moved.dropWhile (h : List.Forall₂ (Moved marker) lines lines') :
    List.Forall₂ (Moved marker) (lines.dropWhile Text.isEmptyLine)
      (lines'.dropWhile Text.isEmptyLine) := by
  induction h with
  | nil => exact .nil
  | @cons line out lines outs hfirst hothers ih =>
      have hsame := isEmptyLine_eq_of_trim hfirst.trim_eq
      cases hline : line.isEmptyLine with
      | true =>
          rwa [List.dropWhile_cons_of_pos hline, List.dropWhile_cons_of_pos (hsame.trans hline)]
      | false =>
          rw [List.dropWhile_cons_of_neg (by simp [hline]),
            List.dropWhile_cons_of_neg (by simp [hsame, hline])]
          exact .cons hfirst hothers

theorem Moved.refl (marker line : Text) : Moved marker line line :=
  ⟨rfl, fun _ => rfl⟩

/-! ### Comments in their places -/

theorem Attached.cons (h : Attached marker lines)
    (hfirst : isComment marker line = true → hasText lines = true → ∃ next rest,
      lines = next :: rest ∧ next.isEmptyLine = false ∧ next.indentation = line.indentation) :
    Attached marker (line :: lines) := by
  intro front comment back heq hcomment htext
  cases front with
  | nil =>
      obtain ⟨rfl, rfl⟩ := List.cons.inj heq
      exact hfirst hcomment htext
  | cons first front => exact h front comment back (List.cons.inj heq).2 hcomment htext

theorem Attached.of_suffix (h : Attached marker lines) (hsuffix : lines' <:+ lines) :
    Attached marker lines' := by
  obtain ⟨before, rfl⟩ := hsuffix
  intro front comment back heq
  refine h (before ++ front) comment back ?_
  rw [heq, List.append_assoc]

/-- What holds of aligned lines while others are put above them. -/
structure Aligned.Attaches (marker : Text) (lines : List Text) (below : Aligned) : Prop where
  moved : List.Forall₂ (Moved marker) (unparted marker false lines) below.lines
  attached : Attached marker below.lines
  first : below.indentation = (below.lines.dropWhile Text.isEmptyLine).head?.map Text.indentation

/-- A line that is no comment, or a comment with nothing below it, is put above the others as it
is. -/
theorem push_loose {below : Aligned} (hline : line.isEmptyLine = false)
    (hloose : below.indentation = none ∨ isComment marker line = false) :
    below.push marker line = ⟨line :: below.lines, some line.indentation⟩ := by
  rw [Aligned.push, if_neg (by simp [hline])]
  cases hbelow : below.indentation with
  | none => rfl
  | some indentation =>
      have hmarked : Comment.isMarked marker line.trim = false := by
        simpa [hbelow, isComment, hline] using hloose
      simp only
      rw [if_neg (by simp [hmarked])]

section

variable (h : (aligned marker lines).Attaches marker lines)

include h

theorem Aligned.Attaches.blank (hline : line.isEmptyLine = true) :
    (aligned marker (line :: lines)).Attaches marker (line :: lines) := by
  have hpush : aligned marker (line :: lines) =
      ⟨line :: (aligned marker lines).lines, (aligned marker lines).indentation⟩ := by
    rw [aligned_cons, Aligned.push, if_pos hline]
  rw [hpush]
  refine ⟨?_, h.attached.cons fun hcomment => ?_, ?_⟩
  · rw [unparted, if_pos hline, Bool.false_and, if_neg Bool.false_ne_true]
    exact .cons (.refl marker line) h.moved
  · simp [isComment, hline] at hcomment
  · rw [List.dropWhile_cons_of_pos hline]
    exact h.first

theorem Aligned.Attaches.loose (hline : line.isEmptyLine = false)
    (hloose : (aligned marker lines).indentation = none ∨ isComment marker line = false) :
    (aligned marker (line :: lines)).Attaches marker (line :: lines) := by
  have hsolid : ¬line.isEmptyLine = true := by simp [hline]
  have hnone : (aligned marker lines).indentation = none → hasText lines = false := by
    intro hbelow
    exact (hasText_eq_false_iff lines).mpr ((aligned_indentation_eq_none_iff lines).mp hbelow)
  rw [aligned_cons, push_loose hline hloose]
  refine ⟨?_, h.attached.cons fun hcomment htext => ?_, ?_⟩
  · rw [unparted, if_neg hsolid]
    refine .cons (.refl marker line) ?_
    rcases hloose with hbelow | hcode
    · have hmoved := h.moved
      rw [unparted_of_hasText_eq_false (hnone hbelow)] at hmoved ⊢
      exact hmoved
    · rw [hcode]
      exact h.moved
  · have hbody : body (aligned marker lines).lines = body lines :=
      (align_keeps marker lines).body_eq
    rw [hasText_congr hbody] at htext
    rcases hloose with hbelow | hcode
    · rw [hnone hbelow] at htext
      cases htext
    · rw [hcode] at hcomment
      cases hcomment
  · rw [List.dropWhile_cons_of_neg hsolid]
    rfl

/-- A comment goes to the line below it that is not blank. -/
theorem Aligned.Attaches.comment (hcomment : isComment marker line = true) {indentation : Text}
    (hbelow : (aligned marker lines).indentation = some indentation) :
    (aligned marker (line :: lines)).Attaches marker (line :: lines) := by
  have hcase := hcomment
  rw [isComment, Bool.and_eq_true, Bool.not_eq_true'] at hcase
  obtain ⟨hline, hmarked⟩ := hcase
  have hgap : indentation.all isBlank = true := (align_keeps marker lines).blanks _ hbelow
  have htrim : (indentation ++ line.trim).trim = line.trim := by
    rw [Text.trim_blanks_append hgap, Text.trim_trim]
  have hout : (indentation ++ line.trim).indentation = indentation :=
    indentation_append hgap (Text.trimmed_trim line).head
  have hsolid : ¬(indentation ++ line.trim).isEmptyLine = true := by
    rw [isEmptyLine_eq_of_trim htrim, hline]
    decide
  have htext : hasText lines = true := by
    rw [← Bool.not_eq_false, hasText_eq_false_iff, ← @aligned_indentation_eq_none_iff marker,
      hbelow]
    simp
  have hfirst := h.first
  rw [hbelow, eq_comm, Option.map_eq_some_iff] at hfirst
  obtain ⟨next, hhead, hnext⟩ := hfirst
  obtain ⟨rest, hrest⟩ := List.head?_eq_some_iff.mp hhead
  have hfilled : next.isEmptyLine = false := by
    rw [← List.find?_not_eq_head?_dropWhile] at hhead
    simpa using List.find?_some hhead
  rw [aligned_cons, push_marked hline hbelow hmarked]
  refine ⟨?_, (h.attached.of_suffix (List.dropWhile_suffix _)).cons fun _ _ => ?_, ?_⟩
  · rw [unparted, if_neg (by simp [hline]), hcomment, unparted_under_comment htext]
    refine .cons ⟨htrim, fun hcode => ?_⟩ (Moved.dropWhile h.moved)
    rw [hcomment] at hcode
    cases hcode
  · exact ⟨next, rest, hrest, hfilled, hnext.trans hout.symm⟩
  · rw [List.dropWhile_cons_of_neg hsolid, List.head?_cons, Option.map_some, hout]

end

theorem attaches_aligned (marker : Text) (lines : List Text) :
    (aligned marker lines).Attaches marker lines := by
  induction lines with
  | nil => exact ⟨.nil, by simp [Attached, aligned], rfl⟩
  | cons line lines ih =>
      cases hline : line.isEmptyLine with
      | true => exact ih.blank hline
      | false =>
          cases hcomment : isComment marker line with
          | false => exact ih.loose hline (.inr hcomment)
          | true =>
              cases hbelow : (aligned marker lines).indentation with
              | none => exact ih.loose hline (.inl hbelow)
              | some indentation => exact ih.comment hcomment hbelow

/-- **Comments stand above the code they belong to.** Lines keep their text and their order. Every
comment with a line below it that is not blank stands right above one, at the same indentation. For
that, the blank lines in between are dropped and no others, and no line but a comment is moved. -/
theorem align_attaches (marker : Text) (lines : List Text) :
    body (align marker lines) = body lines ∧
      List.Forall₂ (Moved marker) (unparted marker false lines) (align marker lines) ∧
      Attached marker (align marker lines) := by
  have hattaches := attaches_aligned marker lines
  exact ⟨(align_keeps marker lines).body_eq, hattaches.moved, hattaches.attached⟩

end SourceLayout.Layout
