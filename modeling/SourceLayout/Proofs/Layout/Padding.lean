import SourceLayout.Proofs.Layout.Again

/-!
# The gaps of a style sheet

Blank lines are put in behind the lines that end a block and nowhere else. Those missing from a gap
are counted in the lines as they were, and the gaps of two blocks may run into each other: a comment
that ends a block stands in the gap before it and has a gap of its own. So padding is a relation
that can be cut before any line, and a gap is told by the lines on both sides of it. What a
comment's own gap adds to the one around it only makes that one wider.
-/

namespace SourceLayout.Layout

variable {lines out : List Text}

/-- The same lines, with blank ones put in directly after those that end a block. -/
inductive Padded : List Text → List Text → Prop
  | nil : Padded [] []
  | line (line : Text) {lines out : List Text} (count : Nat)
      (hcount : count = 0 ∨ closesBlock line = true) (h : Padded lines out) :
      Padded (line :: lines) (line :: (List.replicate count [] ++ out))

/-- A line that ends a block, the blank lines and comments after it, and the first line that is
neither, which does not start with a closing brace and so belongs to the next rule. -/
structure Gap (lines : List Text) where
  front : List Text
  closer : Text
  between : List Text
  next : Text
  back : List Text
  lines_eq : lines = front ++ closer :: (between ++ next :: back)
  closes : closesBlock closer = true
  inside : ∀ line ∈ between, isBetween line = true
  outside : isBetween next = false
  starts : next.trim.startsWith ['}'] = false

def Gap.blanks (gap : Gap lines) : Nat :=
  gap.between.countP Text.isEmptyLine

def Gap.comments (gap : Gap lines) : Nat :=
  gap.between.countP isStyleComment

/-- A gap that has been padded, with the lines around it, until it has two blank lines and one more
for each comment. Only a comment that ends a block itself brings in others. -/
structure Gap.Widened (gap : Gap lines) (gap' : Gap out) : Prop where
  front : Padded gap.front gap'.front
  between : Padded (gap.closer :: gap.between) (gap'.closer :: gap'.between)
  back : Padded (gap.next :: gap.back) (gap'.next :: gap'.back)
  wide : 2 + gap.comments ≤ gap'.blanks
  tight : (∀ line ∈ gap.between, isStyleComment line = true → closesBlock line = false) →
    gap'.blanks = max gap.blanks (2 + gap.comments)

/-! ### Padded lines -/

namespace Padded

theorem isBetween (h : Padded lines out) (hlines : ∀ line ∈ lines, isBetween line = true) :
    ∀ line ∈ out, Layout.isBetween line = true := by
  induction h with
  | nil => simp
  | line line count _ _ ih =>
      obtain ⟨hline, hlater⟩ := List.forall_mem_cons.mp hlines
      refine List.forall_mem_cons.mpr ⟨hline, List.forall_mem_append.mpr ⟨?_, ih hlater⟩⟩
      intro added hadded
      rw [List.eq_of_mem_replicate hadded, isBetween_nil]

theorem countP_blanks_le (h : Padded lines out) :
    lines.countP Text.isEmptyLine ≤ out.countP Text.isEmptyLine := by
  induction h with
  | nil => exact Nat.le_refl _
  | line line count _ _ ih =>
      rw [List.countP_cons, List.countP_cons, List.countP_append]
      omega

/-- Where no block ends, nothing is put in. -/
theorem eq_of_forall (h : Padded lines out) (hlines : ∀ line ∈ lines, closesBlock line = false) :
    out = lines := by
  induction h with
  | nil => rfl
  | line line count hcount _ ih =>
      obtain ⟨hline, hlater⟩ := List.forall_mem_cons.mp hlines
      have hzero : count = 0 := hcount.resolve_right (by simp [hline])
      rw [hzero, ih hlater]
      rfl

end Padded

/-- Up to any line, the lines are padded on their own. -/
theorem exists_spaceBlocks_append (front rest : List Text) :
    ∃ front', spaceBlocks (front ++ rest) = front' ++ spaceBlocks rest ∧ Padded front front' := by
  induction front with
  | nil => exact ⟨[], rfl, .nil⟩
  | cons line front ih =>
      obtain ⟨front', hspace, hpadded⟩ := ih
      have hcount : (if closesBlock line then missingBlanks (front ++ rest) else 0) = 0 ∨
          closesBlock line = true := by
        split
        next hcloses => exact .inr hcloses
        next => exact .inl rfl
      refine ⟨_, ?_, .line line _ hcount hpadded⟩
      rw [List.cons_append, spaceBlocks, hspace, List.cons_append, List.cons_append,
        List.append_assoc]

theorem padded_spaceBlocks (lines : List Text) : Padded lines (spaceBlocks lines) := by
  obtain ⟨out, hspace, hpadded⟩ := exists_spaceBlocks_append lines []
  rw [List.append_nil, spaceBlocks, List.append_nil] at hspace
  rwa [hspace]

/-! ### One gap -/

theorem closesBlock_of_isEmptyLine {line : Text} (hline : line.isEmptyLine = true) :
    closesBlock line = false := by
  rw [Text.isEmptyLine, List.all_eq_true] at hline
  have hclose : '}' ∉ line := fun hmem => by cases hline '}' hmem
  simp [closesBlock, hclose]

theorem Gap.missingBlanks_eq (gap : Gap lines) :
    missingBlanks (gap.between ++ gap.next :: gap.back) = 2 + gap.comments - gap.blanks := by
  have hnext : ¬isBetween gap.next = true := by simp [gap.outside]
  have hwants : wantsGap (gap.between ++ gap.next :: gap.back) = true := by
    rw [wantsGap_eq, List.dropWhile_append_of_pos gap.inside, List.dropWhile_cons_of_neg hnext]
    simp only [gap.starts, Bool.not_false]
  rw [Layout.missingBlanks_eq, if_pos hwants, List.takeWhile_append_of_pos gap.inside,
    List.takeWhile_cons_of_neg hnext, List.append_nil]
  rfl

/-- How many blank lines go into a gap. -/
def Gap.missing (gap : Gap lines) : Nat :=
  2 + gap.comments - gap.blanks

/-- Padded lines, cut at the places where the gap was. -/
theorem Gap.exists_spaceBlocks_eq (gap : Gap lines) :
    ∃ front' between' back',
      spaceBlocks lines = front' ++ gap.closer ::
        (List.replicate gap.missing [] ++ between' ++ gap.next :: back') ∧
      Padded gap.front front' ∧ Padded gap.between between' ∧
      Padded (gap.next :: gap.back) (gap.next :: back') := by
  obtain ⟨front', hfront, hbefore⟩ := exists_spaceBlocks_append gap.front
    (gap.closer :: (gap.between ++ gap.next :: gap.back))
  obtain ⟨between', hbetween, hinside⟩ := exists_spaceBlocks_append gap.between
    (gap.next :: gap.back)
  obtain ⟨back', hnext⟩ : ∃ back', spaceBlocks (gap.next :: gap.back) = gap.next :: back' :=
    ⟨_, rfl⟩
  have hcloser : spaceBlocks (gap.closer :: (gap.between ++ gap.next :: gap.back)) =
      gap.closer :: (List.replicate gap.missing [] ++ (between' ++ gap.next :: back')) := by
    rw [spaceBlocks, gap.closes, if_pos rfl, gap.missingBlanks_eq, hbetween, hnext]
    rfl
  have hafter := padded_spaceBlocks (gap.next :: gap.back)
  rw [hnext] at hafter
  refine ⟨front', between', back', ?_, hbefore, hinside, hafter⟩
  calc spaceBlocks lines
      = spaceBlocks (gap.front ++ gap.closer :: (gap.between ++ gap.next :: gap.back)) :=
        congrArg spaceBlocks gap.lines_eq
    _ = front' ++ gap.closer ::
          (List.replicate gap.missing [] ++ between' ++ gap.next :: back') := by
        rw [hfront, hcloser, List.append_assoc]

/-- Blank lines end no block, so nothing in a gap does when no comment does. -/
theorem Gap.not_closesBlock (gap : Gap lines)
    (hcomments : ∀ line ∈ gap.between, isStyleComment line = true → closesBlock line = false) :
    ∀ line ∈ gap.between, closesBlock line = false := by
  intro line hline
  have hcase := gap.inside line hline
  rw [isBetween, Bool.or_eq_true] at hcase
  rcases hcase with hblank | hcomment
  · exact closesBlock_of_isEmptyLine hblank
  · exact hcomments line hline hcomment

/-- **Gaps of a style sheet.** Blank lines are only put in directly after lines that end a block. A
gap before the next rule then has at least two of them and one more for each comment in it; it has
as many as before if that was more, and no other ones unless a comment ends a block, too. -/
theorem spaceBlocks_widens (lines : List Text) :
    Padded lines (spaceBlocks lines) ∧
      ∀ gap : Gap lines, ∃ gap' : Gap (spaceBlocks lines), gap.Widened gap' := by
  refine ⟨padded_spaceBlocks lines, fun gap => ?_⟩
  obtain ⟨front', between', back', heq, hbefore, hinside, hafter⟩ := gap.exists_spaceBlocks_eq
  have hapart : ∀ line ∈ List.replicate gap.missing [] ++ between', isBetween line = true := by
    refine List.forall_mem_append.mpr ⟨fun added hadded => ?_, hinside.isBetween gap.inside⟩
    rw [List.eq_of_mem_replicate hadded, isBetween_nil]
  have hblanks : (List.replicate gap.missing [] ++ between').countP Text.isEmptyLine =
      gap.missing + between'.countP Text.isEmptyLine := by
    rw [List.countP_append, countP_blanks_blanks]
  have hkept : gap.blanks ≤ between'.countP Text.isEmptyLine := hinside.countP_blanks_le
  refine ⟨⟨front', gap.closer, List.replicate gap.missing [] ++ between', gap.next, back', heq,
    gap.closes, hapart, gap.outside, gap.starts⟩, hbefore, .line gap.closer _ (.inr gap.closes)
    hinside, hafter, ?_, fun hcomments => ?_⟩
  · rw [Gap.blanks, hblanks, Gap.missing]
    omega
  · rw [Gap.blanks, hblanks, hinside.eq_of_forall (gap.not_closesBlock hcomments), ← Gap.blanks,
      Gap.missing]
    omega

/-- A comment that ends a block itself, in the gap before a rule. -/
theorem exists_widened_of_closing_comment :
    ∃ gap' : Gap (spaceBlocks [['}'], [], "/* \x7d */".toList, "a \x7b".toList]),
      Gap.Widened ⟨[], ['}'], [[], "/* \x7d */".toList], "a \x7b".toList, [], rfl, by decide,
        by decide, by decide, by decide⟩ gap' :=
  (spaceBlocks_widens _).2 _

end SourceLayout.Layout
