import SourceLayout.Proofs.Layout.Rerun

/-!
# Settling settled lines

The structural pass over code is stable: on lines it has been over it does nothing. And all it can
do to lines of which it drops none is to move comments, so that whatever else a second run of the
formatter changes, it changes while it indents.
-/

namespace SourceLayout.Layout

/-! ### Blank lines -/

theorem hasBlankPair_cons {line : Text} {lines : List Text} (hpair : hasBlankPair lines = false)
    (hhead : line.isEmptyLine = true → ∀ next, lines.head? = some next → next.isEmptyLine = false) :
    hasBlankPair (line :: lines) = false := by
  cases lines with
  | nil => rfl
  | cons next others =>
      rw [hasBlankPair, hpair, Bool.or_false]
      cases hline : line.isEmptyLine with
      | false => rfl
      | true => exact hhead hline next rfl

theorem head?_of_hasBlankPair {line : Text} {lines : List Text}
    (hpair : hasBlankPair (line :: lines) = false) (hline : line.isEmptyLine = true) (next : Text)
    (hnext : lines.head? = some next) : next.isEmptyLine = false := by
  cases lines with
  | nil => cases hnext
  | cons first others =>
      obtain rfl : first = next := by simpa using hnext
      exact head_of_hasBlankPair hpair hline

theorem hasBlankPair_squeezeFrom (afterBlank : Bool) (lines : List Text) :
    hasBlankPair (squeezeFrom afterBlank lines) = false ∧
      (afterBlank = true → ∀ next, (squeezeFrom afterBlank lines).head? = some next →
        next.isEmptyLine = false) := by
  induction lines generalizing afterBlank with
  | nil => exact ⟨rfl, by simp [squeezeFrom]⟩
  | cons line lines ih =>
      rw [squeezeFrom]
      split
      next hdrop => exact ⟨(ih true).1, fun _ => (ih true).2 rfl⟩
      next hkeep =>
          obtain ⟨hpair, hhead⟩ := ih line.isEmptyLine
          refine ⟨hasBlankPair_cons hpair hhead, fun hafter next hnext => ?_⟩
          obtain rfl : line = next := by simpa using hnext
          simpa [hafter] using hkeep

theorem squeezeFrom_eq_self {afterBlank : Bool} {lines : List Text}
    (hpair : hasBlankPair lines = false)
    (hhead : afterBlank = true → ∀ next, lines.head? = some next → next.isEmptyLine = false) :
    squeezeFrom afterBlank lines = lines := by
  induction lines generalizing afterBlank with
  | nil => rfl
  | cons line lines ih =>
      have hkeep : ¬(line.isEmptyLine && afterBlank) = true := by
        rw [Bool.and_eq_true]
        rintro ⟨hline, hafter⟩
        rw [hhead hafter line rfl] at hline
        cases hline
      rw [squeezeFrom, if_neg hkeep,
        ih (hasBlankPair_of_cons hpair) (head?_of_hasBlankPair hpair)]

theorem Thinned.hasBlankPair_eq {lines kept : List Text} (h : Thinned lines kept)
    (hpair : hasBlankPair lines = false) :
    hasBlankPair kept = false ∧ ∀ next, lines.head? = some next → next.isEmptyLine = false →
      kept.head? = some next := by
  induction h with
  | nil => exact ⟨rfl, by simp⟩
  | @keep line lines kept h ih =>
      obtain ⟨hkept, hhead⟩ := ih (hasBlankPair_of_cons hpair)
      refine ⟨hasBlankPair_cons hkept fun hline next hnext => ?_, by simp⟩
      cases hlines : lines.head? with
      | none =>
          obtain rfl := List.head?_eq_none_iff.mp hlines
          cases h
          cases hnext
      | some first =>
          have hfirst := head?_of_hasBlankPair hpair hline first hlines
          rw [hhead first hlines hfirst] at hnext
          rwa [← Option.some.inj hnext]
  | drop hblank h ih =>
      refine ⟨(ih (hasBlankPair_of_cons hpair)).1, fun next hnext hsolid => ?_⟩
      obtain rfl := Option.some.inj hnext
      rw [hblank] at hsolid
      cases hsolid

/-! ### Blank lines between braces -/

theorem isEmptyLine_eq_of_trim {line line' : Text} (htrim : line.trim = line'.trim) :
    line.isEmptyLine = line'.isEmptyLine := by
  rw [← Text.isEmptyLine_trim line, htrim, Text.isEmptyLine_trim]

theorem endsInBrace_eq_of_trim {line line' : Text} (htrim : line.trim = line'.trim) :
    endsInBrace line = endsInBrace line' := by
  have hsolid : ∀ line : Text, endsInBrace line = (Text.solid line.trim).endsWith ['}'] := by
    intro line
    have hlast : headIs isBlank line.trimRight.reverse = false := by
      rw [Text.trimRight, List.reverse_reverse]
      exact Text.headIs_trimLeft line.reverse
    have htokens : Text.tokens .plain line.trimRight = Text.tokens .plain line.trim := by
      rw [Text.tokens_trimRight, Text.tokens_trim]
    rw [endsInBrace, ← Text.endsWith_solid hlast, ← Text.flatten_tokens .plain, htokens,
      Text.flatten_tokens]
  rw [hsolid, hsolid, htrim]

/-- Lines of which none is dropped for standing between braces. -/
def Kept (previous : Option Text) (lines : List Text) : Prop :=
  dropBetweenBracesFrom previous lines = lines

theorem kept_cons_iff {previous : Option Text} {line : Text} {lines : List Text} :
    Kept previous (line :: lines) ↔
      (line.isEmptyLine && previous.any endsInBrace && lines.head?.any endsInBrace) = false ∧
        Kept (some line) lines := by
  rw [Kept, dropBetweenBracesFrom]
  split
  next hdrop =>
      rw [hdrop]
      refine iff_of_false (fun heq => ?_) (by simp)
      have hlength := (thinned_dropBetweenBracesFrom (some line) lines).sublist.length_le
      rw [heq, List.length_cons] at hlength
      omega
  next hkeep =>
      rw [Bool.not_eq_true] at hkeep
      rw [hkeep, List.cons.injEq]
      simp [Kept]

theorem kept_solid_iff {previous : Option Text} {line : Text} (hline : line.isEmptyLine = false)
    {lines : List Text} : Kept previous (line :: lines) ↔ Kept (some line) lines := by
  rw [kept_cons_iff, hline]
  simp

theorem kept_dropBetweenBracesFrom {lines : List Text} (hpair : hasBlankPair lines = false)
    (previous : Option Text) : Kept previous (dropBetweenBracesFrom previous lines) := by
  induction lines generalizing previous with
  | nil => rfl
  | cons line lines ih =>
      have hothers := hasBlankPair_of_cons hpair
      have hlater := ih hothers (some line)
      have hhead := ((thinned_dropBetweenBracesFrom (some line) lines).hasBlankPair_eq hothers).2
      -- The line after a blank one is not blank, so that it stays.
      have hsame : line.isEmptyLine = true →
          (dropBetweenBracesFrom (some line) lines).head? = lines.head? := by
        intro hline
        cases hnext : lines.head? with
        | none =>
            obtain rfl := List.head?_eq_none_iff.mp hnext
            rfl
        | some next => exact hhead next hnext (head?_of_hasBlankPair hpair hline next hnext)
      rw [dropBetweenBracesFrom]
      split
      next hdrop =>
          simp only [Bool.and_eq_true] at hdrop
          obtain ⟨⟨hline, _⟩, hends⟩ := hdrop
          cases hnext : lines.head? with
          | none =>
              rw [hnext] at hends
              cases hends
          | some next =>
              have hkept := hsame hline
              rw [hnext] at hkept
              cases hlines : dropBetweenBracesFrom (some line) lines with
              | nil => rfl
              | cons first others =>
                  rw [hlines, List.head?_cons, Option.some.injEq] at hkept
                  subst hkept
                  have hsolid := head?_of_hasBlankPair hpair hline first hnext
                  rw [hlines, kept_solid_iff hsolid] at hlater
                  exact (kept_solid_iff hsolid).mpr hlater
      next hkeep =>
          refine kept_cons_iff.mpr ⟨?_, hlater⟩
          rw [Bool.not_eq_true] at hkeep
          cases hline : line.isEmptyLine with
          | false => rfl
          | true => rwa [hsame hline, ← hline]

theorem kept_dropWhile {previous : Option Text} {lines : List Text} (h : Kept previous lines)
    (previous' : Option Text) : Kept previous' (lines.dropWhile Text.isEmptyLine) := by
  induction lines generalizing previous with
  | nil => rfl
  | cons line lines ih =>
      cases hline : line.isEmptyLine with
      | true =>
          rw [List.dropWhile_cons_of_pos hline]
          exact ih (kept_cons_iff.mp h).2
      | false =>
          rw [List.dropWhile_cons_of_neg (by rw [hline]; decide)]
          exact (kept_solid_iff hline).mpr ((kept_solid_iff hline).mp h)

/-- Lines with the same text, whatever their indentation. -/
def SameTrims (lines lines' : List Text) : Prop :=
  List.Forall₂ (fun line line' => line.trim = line'.trim) lines lines'

theorem SameTrims.kept {lines lines' : List Text} (h : SameTrims lines lines')
    {previous previous' : Option Text}
    (hprevious : previous.any endsInBrace = previous'.any endsInBrace)
    (hkept : Kept previous lines) :
    Kept previous' lines' := by
  induction h generalizing previous previous' with
  | nil => rfl
  | @cons line line' lines lines' hline hothers ih =>
      obtain ⟨hown, hlater⟩ := kept_cons_iff.mp hkept
      have hhead : lines.head?.any endsInBrace = lines'.head?.any endsInBrace := by
        cases hothers with
        | nil => rfl
        | cons hnext _ => exact endsInBrace_eq_of_trim hnext
      have hends : (some line).any endsInBrace = (some line').any endsInBrace :=
        endsInBrace_eq_of_trim hline
      refine kept_cons_iff.mpr ⟨?_, ih hends hlater⟩
      rwa [← isEmptyLine_eq_of_trim hline, ← hprevious, ← hhead]

/-! ### Comments above code -/

section

variable {marker : Text}

/-- Lines aligned from the last one up. -/
def aligned (marker : Text) (lines : List Text) : Aligned :=
  lines.foldr (Aligned.push marker) ⟨[], none⟩

theorem aligned_cons (marker line : Text) (lines : List Text) :
    aligned marker (line :: lines) = (aligned marker lines).push marker line :=
  rfl

theorem push_marked {line indentation : Text} {below : Aligned} (hline : line.isEmptyLine = false)
    (hbelow : below.indentation = some indentation)
    (hmarked : Comment.isMarked marker line.trim = true) :
    below.push marker line = ⟨(indentation ++ line.trim) ::
      below.lines.dropWhile Text.isEmptyLine, some indentation⟩ := by
  rw [Aligned.push, hline, if_neg Bool.false_ne_true, hbelow]
  exact if_pos hmarked

/-- What becomes of a line that is put above aligned ones. -/
theorem push_cases (marker line : Text) (below : Aligned) :
    (line.isEmptyLine = true ∧
      below.push marker line = ⟨line :: below.lines, below.indentation⟩) ∨
    (∃ indentation, line.isEmptyLine = false ∧ below.indentation = some indentation ∧
      Comment.isMarked marker line.trim = true) ∨
    (line.isEmptyLine = false ∧
      below.push marker line = ⟨line :: below.lines, some line.indentation⟩) := by
  rw [Aligned.push]
  cases hline : line.isEmptyLine with
  | true => exact .inl ⟨rfl, rfl⟩
  | false =>
      rw [if_neg Bool.false_ne_true]
      cases hbelow : below.indentation with
      | none => exact .inr (.inr ⟨rfl, rfl⟩)
      | some indentation =>
          cases hmarked : Comment.isMarked marker line.trim with
          | true => exact .inr (.inl ⟨indentation, rfl, rfl, rfl⟩)
          | false => exact .inr (.inr ⟨rfl, rfl⟩)

theorem aligned_dropWhile {lines : List Text} {indentation : Option Text}
    (h : aligned marker lines = ⟨lines, indentation⟩) :
    aligned marker (lines.dropWhile Text.isEmptyLine) =
      ⟨lines.dropWhile Text.isEmptyLine, indentation⟩ := by
  induction lines with
  | nil => exact h
  | cons line lines ih =>
      cases hline : line.isEmptyLine with
      | false => rwa [List.dropWhile_cons_of_neg (by rw [hline]; decide)]
      | true =>
          rw [List.dropWhile_cons_of_pos hline]
          apply ih
          have hpush : aligned marker (line :: lines) =
              ⟨line :: (aligned marker lines).lines, (aligned marker lines).indentation⟩ := by
            rw [aligned_cons, Aligned.push, if_pos hline]
          rw [hpush, Aligned.mk.injEq, List.cons.injEq] at h
          calc aligned marker lines
              = ⟨(aligned marker lines).lines, (aligned marker lines).indentation⟩ := rfl
            _ = ⟨lines, indentation⟩ := by rw [h.1.2, h.2]

/-- Aligned lines that the passes before and a second alignment leave alone. -/
structure Aligned.Stable (marker : Text) (lines : List Text) (below : Aligned) : Prop where
  again : aligned marker below.lines = below
  pairs : hasBlankPair below.lines = false
  head : below.lines.head?.map Text.trim = lines.head?.map Text.trim
  braces : ∀ previous, Kept previous lines → Kept previous below.lines
  blanks : ∀ indentation ∈ below.indentation, indentation.all isBlank = true

section

variable {line : Text} {lines : List Text} {below : Aligned} (h : below.Stable marker lines)

include h

theorem Aligned.Stable.solid_head (hpair : hasBlankPair (line :: lines) = false)
    (hline : line.isEmptyLine = true) (next : Text) (hnext : below.lines.head? = some next) :
    next.isEmptyLine = false := by
  have hhead := h.head
  rw [hnext, Option.map_some] at hhead
  obtain ⟨old, hold, htrim⟩ := Option.map_eq_some_iff.mp hhead.symm
  rw [← isEmptyLine_eq_of_trim htrim]
  exact head?_of_hasBlankPair hpair hline old hold

theorem Aligned.Stable.any_head :
    below.lines.head?.any endsInBrace = lines.head?.any endsInBrace := by
  have hhead := h.head
  cases hbelow : below.lines.head? with
  | none =>
      rw [hbelow, Option.map_none, eq_comm, Option.map_eq_none_iff] at hhead
      rw [hhead]
  | some next =>
      rw [hbelow, Option.map_some] at hhead
      obtain ⟨old, hold, htrim⟩ := Option.map_eq_some_iff.mp hhead.symm
      rw [hold]
      exact (endsInBrace_eq_of_trim htrim).symm

/-- A line that is put above the others as it is. -/
theorem Aligned.Stable.keep (hpair : hasBlankPair (line :: lines) = false)
    {indentation : Option Text} (hindentation : ∀ i ∈ indentation, i.all isBlank = true)
    (hpush : below.push marker line = ⟨line :: below.lines, indentation⟩) :
    (below.push marker line).Stable marker (line :: lines) where
  again := by
    rw [hpush, aligned_cons, h.again, hpush]
  pairs := by
    rw [hpush]
    exact hasBlankPair_cons h.pairs (h.solid_head hpair)
  head := by rw [hpush, List.head?_cons, List.head?_cons]
  braces := by
    intro previous hkept
    obtain ⟨hown, hlater⟩ := kept_cons_iff.mp hkept
    rw [hpush]
    exact kept_cons_iff.mpr ⟨by rwa [h.any_head], h.braces (some line) hlater⟩
  blanks := by
    rw [hpush]
    exact hindentation

/-- A comment that takes the indentation of the code below it. -/
theorem Aligned.Stable.move {indentation : Text} (hline : line.isEmptyLine = false)
    (hbelow : below.indentation = some indentation)
    (hmarked : Comment.isMarked marker line.trim = true) :
    (below.push marker line).Stable marker (line :: lines) := by
  have hpush := push_marked hline hbelow hmarked
  have hgap : indentation.all isBlank = true := h.blanks indentation hbelow
  have htrim : (indentation ++ line.trim).trim = line.trim := by
    rw [Text.trim_blanks_append hgap, Text.trim_trim]
  have hsolid : (indentation ++ line.trim).isEmptyLine = false := by
    rw [← hline]
    exact isEmptyLine_eq_of_trim htrim
  have hagain : aligned marker (below.lines.dropWhile Text.isEmptyLine) =
      ⟨below.lines.dropWhile Text.isEmptyLine, some indentation⟩ := by
    rw [← hbelow]
    exact aligned_dropWhile h.again
  refine ⟨?_, ?_, ?_, ?_, ?_⟩
  · rw [hpush, aligned_cons, hagain, Aligned.push, hsolid, if_neg Bool.false_ne_true, htrim]
    dsimp only
    rw [if_pos hmarked, List.dropWhile_idempotent]
  · rw [hpush]
    refine hasBlankPair_cons ((thinned_dropWhile_isEmptyLine _).hasBlankPair_eq h.pairs).1 ?_
    intro hblank
    rw [hsolid] at hblank
    cases hblank
  · rw [hpush, List.head?_cons, List.head?_cons, Option.map_some, Option.map_some, htrim]
  · intro previous hkept
    rw [hpush, kept_solid_iff hsolid]
    exact kept_dropWhile (h.braces (some line) ((kept_solid_iff hline).mp hkept)) _
  · rw [hpush]
    intro other hother
    rwa [← Option.mem_some.mp hother]

theorem Aligned.Stable.push (hpair : hasBlankPair (line :: lines) = false) :
    (below.push marker line).Stable marker (line :: lines) := by
  rcases push_cases marker line below with ⟨_, hpush⟩ | ⟨_, hline, hbelow, hmarked⟩ | ⟨_, hpush⟩
  · exact h.keep hpair h.blanks hpush
  · exact h.move hline hbelow hmarked
  · refine h.keep hpair ?_ hpush
    intro indentation hindentation
    rw [← Option.mem_some.mp hindentation]
    exact List.all_takeWhile

end

theorem stable_aligned {lines : List Text} (hpair : hasBlankPair lines = false) :
    (aligned marker lines).Stable marker lines := by
  induction lines with
  | nil => exact ⟨rfl, rfl, rfl, fun _ h => h, by simp [aligned]⟩
  | cons line lines ih => exact (ih (hasBlankPair_of_cons hpair)).push hpair

theorem aligned_indentation_eq_none_iff (lines : List Text) :
    (aligned marker lines).indentation = none ↔ body lines = [] := by
  induction lines with
  | nil => exact iff_of_true rfl rfl
  | cons line lines ih =>
      rw [aligned_cons]
      rcases push_cases marker line (aligned marker lines) with
        ⟨hline, hpush⟩ | ⟨_, hline, hbelow, hmarked⟩ | ⟨hline, hpush⟩
      · rw [hpush, body_blank_cons hline, ← ih]
      · rw [push_marked hline hbelow hmarked, body_cons hline]
        simp
      · rw [hpush, body_cons hline]
        simp

/-- The same lines, but for the indentation of comments that stand above a line with something in
it. -/
inductive Realigned (marker : Text) : List Text → List Text → Prop
  | nil : Realigned marker [] []
  | same (line : Text) {lines lines' : List Text} (h : Realigned marker lines lines') :
      Realigned marker (line :: lines) (line :: lines')
  | comment {line line' : Text} (hmarked : Comment.isMarked marker line.trim = true)
      (htrim : line.trim = line'.trim) {lines lines' : List Text} (hbelow : body lines ≠ [])
      (h : Realigned marker lines lines') : Realigned marker (line :: lines) (line' :: lines')

theorem Realigned.sameTrims {lines lines' : List Text} (h : Realigned marker lines lines') :
    SameTrims lines lines' := by
  induction h with
  | nil => exact .nil
  | same line _ ih => exact .cons rfl ih
  | comment _ htrim _ _ ih => exact .cons htrim ih

theorem SameTrims.body_eq {lines lines' : List Text} (h : SameTrims lines lines') :
    body lines = body lines' := by
  induction h with
  | nil => rfl
  | @cons line line' _ _ htrim _ ih =>
      have hblank := isEmptyLine_eq_of_trim htrim
      cases hline : line.isEmptyLine with
      | true => rw [body_blank_cons hline, body_blank_cons (hblank ▸ hline), ih]
      | false => rw [body_cons hline, body_cons (hblank ▸ hline), ih, htrim]

theorem SameTrims.sameBlanks {lines lines' : List Text} (h : SameTrims lines lines') :
    SameBlanks lines lines' :=
  h.imp fun _ _ => isEmptyLine_eq_of_trim

theorem isEmptyLine_of_isMarked (hmarker : marker ≠ []) {line : Text}
    (hmarked : Comment.isMarked marker line.trim = true) : line.isEmptyLine = false := by
  rw [Bool.eq_false_iff, Ne, ← Text.trim_eq_nil_iff]
  intro hnil
  rw [hnil, Comment.isMarked, Bool.and_eq_true] at hmarked
  exact hmarker (List.prefix_nil.mp (List.isPrefixOf_iff_prefix.mp hmarked.1))

/-- Alignment does not depend on the indentation it replaces. -/
theorem Realigned.aligned_eq (hmarker : marker ≠ []) {lines lines' : List Text}
    (h : Realigned marker lines lines') : aligned marker lines' = aligned marker lines := by
  induction h with
  | nil => rfl
  | same line _ ih => exact congrArg (Aligned.push marker line) ih
  | @comment line line' hmarked htrim lines lines' hbelow _ ih =>
      have hline := isEmptyLine_of_isMarked hmarker hmarked
      have hline' := isEmptyLine_of_isMarked hmarker (htrim ▸ hmarked)
      rw [Ne, ← @aligned_indentation_eq_none_iff marker] at hbelow
      obtain ⟨indentation, hindentation⟩ := Option.ne_none_iff_exists'.mp hbelow
      rw [aligned_cons, aligned_cons, ih, push_marked hline hindentation hmarked,
        push_marked hline' hindentation (htrim ▸ hmarked), htrim]

theorem Realigned.length_eq {lines lines' : List Text} (h : Realigned marker lines lines') :
    lines.length = lines'.length :=
  h.sameTrims.length_eq

theorem Realigned.dropWhile (hmarker : marker ≠ []) {lines lines' : List Text}
    (h : Realigned marker lines lines') :
    Realigned marker (lines.dropWhile Text.isEmptyLine) (lines'.dropWhile Text.isEmptyLine) := by
  induction h with
  | nil => exact .nil
  | same line h ih =>
      cases hline : line.isEmptyLine with
      | true => rwa [List.dropWhile_cons_of_pos hline, List.dropWhile_cons_of_pos hline]
      | false =>
          have hneg : ¬line.isEmptyLine = true := by rw [hline]; decide
          rw [List.dropWhile_cons_of_neg hneg, List.dropWhile_cons_of_neg hneg]
          exact .same line h
  | comment hmarked htrim hbelow h _ =>
      have hline := isEmptyLine_of_isMarked hmarker hmarked
      have hline' := isEmptyLine_of_isMarked hmarker (htrim ▸ hmarked)
      rw [List.dropWhile_cons_of_neg (by rw [hline]; decide),
        List.dropWhile_cons_of_neg (by rw [hline']; decide)]
      exact .comment hmarked htrim hbelow h

/-- Alignment drops blank lines and moves comments, and that is all. -/
theorem exists_realigned (hmarker : marker ≠ []) (lines : List Text) :
    ∃ kept, Thinned lines kept ∧ Realigned marker (align marker lines) kept := by
  induction lines with
  | nil => exact ⟨[], .nil, .nil⟩
  | cons line lines ih =>
      obtain ⟨kept, hthinned, hrealigned⟩ := ih
      have hsame : align marker (line :: lines) = line :: align marker lines →
          ∃ kept, Thinned (line :: lines) kept ∧
            Realigned marker (align marker (line :: lines)) kept := by
        intro hcons
        exact ⟨line :: kept, .keep line hthinned, hcons ▸ .same line hrealigned⟩
      rcases push_cases marker line (aligned marker lines) with
        ⟨_, hpush⟩ | ⟨indentation, hline, hbelow, hmarked⟩ | ⟨_, hpush⟩
      · exact hsame (congrArg Aligned.lines hpush)
      · have hmoved : align marker (line :: lines) =
            (indentation ++ line.trim) :: (align marker lines).dropWhile Text.isEmptyLine :=
          congrArg Aligned.lines (push_marked hline hbelow hmarked)
        have htrim : (indentation ++ line.trim).trim = line.trim := by
          rw [Text.trim_blanks_append ((align_keeps marker lines).blanks indentation hbelow),
            Text.trim_trim]
        have hbody : body ((align marker lines).dropWhile Text.isEmptyLine) ≠ [] := by
          rw [(thinned_dropWhile_isEmptyLine _).body_eq, align, (align_keeps marker lines).body_eq,
            Ne, ← @aligned_indentation_eq_none_iff marker, hbelow]
          simp
        refine ⟨line :: kept.dropWhile Text.isEmptyLine,
          .keep line (hthinned.trans (thinned_dropWhile_isEmptyLine kept)), ?_⟩
        rw [hmoved]
        exact .comment (by rwa [htrim]) htrim hbody (hrealigned.dropWhile hmarker)
      · exact hsame (congrArg Aligned.lines hpush)

/-- Alignment that drops no line moves comments only. -/
theorem realigned_align (hmarker : marker ≠ []) {lines : List Text}
    (hlength : (align marker lines).length = lines.length) :
    Realigned marker (align marker lines) lines := by
  obtain ⟨kept, hthinned, hrealigned⟩ := exists_realigned hmarker lines
  have hkept : kept = lines :=
    hthinned.sublist.eq_of_length (hrealigned.length_eq.symm.trans hlength)
  rwa [hkept] at hrealigned

end

/-! ### The whole pass -/

section

variable {family : Family} {language : Option Text}

/-- Whether comments are left where they are, for want of functions. -/
def SkipsComments (family : Family) (language : Option Text) (lines : List Text) : Prop :=
  family = .cFamily ∧ (spans family language lines).isEmpty = true

instance (family : Family) (language : Option Text) (lines : List Text) :
    Decidable (SkipsComments family language lines) :=
  inferInstanceAs (Decidable (family = .cFamily ∧ _))

/-- What starts a standalone comment. -/
def markerOf (family : Family) : Text :=
  family.commentMarker?.getD "//".toList

theorem markerOf_ne_nil (family : Family) : markerOf family ≠ [] := by
  cases family <;> decide

theorem settle_code (hcode : family ≠ .css ∧ family ≠ .html) (lines : List Text) :
    settle family language lines =
      if SkipsComments family language (squeeze lines) then squeeze lines
      else align (markerOf family) (dropBetweenBraces (squeeze lines)) := by
  cases family with
  | css => exact absurd rfl hcode.1
  | html => exact absurd rfl hcode.2
  | javascript => rfl
  | python => rfl
  | cFamily => rfl

theorem spansFrom_eq_nil_iff (index : Nat) (lines : List Text) :
    spansFrom family language index 0 lines = [] ↔
      ∀ line ∈ lines, declared? family language line.trim = none := by
  induction lines generalizing index with
  | nil => simp [spansFrom]
  | cons line lines ih =>
      rw [spansFrom, List.forall_mem_cons]
      cases hdeclared : declared? family language line.trim with
      | none =>
          dsimp only
          rw [ih]
          simp
      | some name => simp

/-- Whether functions are declared is told by the body. -/
theorem skipsComments_iff (lines : List Text) :
    SkipsComments family language lines ↔
      family = .cFamily ∧ ∀ line ∈ body lines, declared? family language line = none := by
  refine and_congr_right fun hfamily => ?_
  subst hfamily
  have hblank : declared? .cFamily language [] = none := by
    rw [declared?]
    split <;> decide
  rw [List.isEmpty_iff, spans, spansFrom_eq_nil_iff]
  constructor
  · intro hlines line hline
    obtain ⟨old, hold, rfl⟩ := List.mem_map.mp hline
    exact hlines old (List.mem_filter.mp hold).1
  · intro hbody line hline
    cases hempty : line.isEmptyLine with
    | true => rwa [(Text.trim_eq_nil_iff line).mpr hempty]
    | false =>
        exact hbody line.trim
          (List.mem_map_of_mem (List.mem_filter.mpr ⟨hline, by rw [hempty]; rfl⟩))

theorem skipsComments_congr {lines lines' : List Text} (hbody : body lines = body lines') :
    SkipsComments family language lines ↔ SkipsComments family language lines' := by
  rw [skipsComments_iff, skipsComments_iff, hbody]

theorem body_squeeze (lines : List Text) : body (squeeze lines) = body lines :=
  (thinned_squeezeFrom false lines).body_eq

theorem squeeze_eq_self {lines : List Text} (hpair : hasBlankPair lines = false) :
    squeeze lines = lines :=
  squeezeFrom_eq_self hpair (by simp)

/-- Settled lines have no two blank ones in a row, and the pass leaves them alone. -/
theorem settle_settle (hcode : family ≠ .css ∧ family ≠ .html) (lines : List Text) :
    hasBlankPair (settle family language lines) = false ∧
      settle family language (settle family language lines) = settle family language lines := by
  have hpair : hasBlankPair (squeeze lines) = false := (hasBlankPair_squeezeFrom false lines).1
  have hbody : body (settle family language lines) = body (squeeze lines) := by
    rw [body_settle, body_squeeze]
  by_cases hskip : SkipsComments family language (squeeze lines)
  · have hsettle : settle family language lines = squeeze lines := by
      rw [settle_code hcode, if_pos hskip]
    refine ⟨by rwa [hsettle], ?_⟩
    rw [hsettle, settle_code hcode, squeeze_eq_self hpair, if_pos hskip]
  · have hsettle : settle family language lines =
        align (markerOf family) (dropBetweenBraces (squeeze lines)) := by
      rw [settle_code hcode, if_neg hskip]
    have hdropped : hasBlankPair (dropBetweenBraces (squeeze lines)) = false :=
      ((thinned_dropBetweenBracesFrom none (squeeze lines)).hasBlankPair_eq hpair).1
    have hstable := @stable_aligned (markerOf family) _ hdropped
    have hskip' : ¬SkipsComments family language (settle family language lines) := by
      rwa [skipsComments_congr hbody]
    have hpairs :
        hasBlankPair (align (markerOf family) (dropBetweenBraces (squeeze lines))) = false :=
      hstable.pairs
    rw [hsettle] at hskip' ⊢
    refine ⟨hpairs, ?_⟩
    -- Each part of the pass finds its work done, since alignment undoes none of it.
    have hbraces : Kept none (align (markerOf family) (dropBetweenBraces (squeeze lines))) :=
      hstable.braces none (kept_dropBetweenBracesFrom hpair none)
    rw [settle_code hcode, squeeze_eq_self hpairs, if_neg hskip', dropBetweenBraces, hbraces]
    exact congrArg Aligned.lines hstable.again

/-- A pass that drops no line has dropped none in any of its parts. -/
theorem settle_of_length (hcode : family ≠ .css ∧ family ≠ .html) {lines : List Text}
    (hlength : (settle family language lines).length = lines.length) :
    squeeze lines = lines ∧ (SkipsComments family language lines ∨
      (Kept none lines ∧ settle family language lines = align (markerOf family) lines)) := by
  have hsqueeze : (squeeze lines).Sublist lines := (thinned_squeezeFrom false lines).sublist
  have hbraces : (dropBetweenBraces (squeeze lines)).Sublist (squeeze lines) :=
    (thinned_dropBetweenBracesFrom none (squeeze lines)).sublist
  have halign := length_align_le (markerOf family) (dropBetweenBraces (squeeze lines))
  rw [settle_code hcode] at hlength ⊢
  by_cases hskip : SkipsComments family language (squeeze lines)
  · rw [if_pos hskip] at hlength
    have hsame : squeeze lines = lines := hsqueeze.eq_of_length hlength
    exact ⟨hsame, .inl (hsame ▸ hskip)⟩
  · rw [if_neg hskip] at hlength ⊢
    have hshort := hsqueeze.length_le
    have hshort' := hbraces.length_le
    have hkept : dropBetweenBraces (squeeze lines) = squeeze lines :=
      hbraces.eq_of_length (by omega)
    have hsame : squeeze lines = lines := hsqueeze.eq_of_length (by omega)
    rw [hkept, hsame]
    rw [hsame] at hkept
    exact ⟨rfl, .inr ⟨hkept, rfl⟩⟩

/-- The same lines as far as the pass cares: comments may have been moved, where the pass moves
them back. -/
def Unmoved (family : Family) (language : Option Text) (lines laid : List Text) : Prop :=
  if SkipsComments family language lines then laid = lines
  else Realigned (markerOf family) lines laid

theorem Unmoved.sameTrims {lines laid : List Text} (h : Unmoved family language lines laid) :
    SameTrims lines laid := by
  rw [Unmoved] at h
  split at h
  · rw [h]
    exact List.forall₂_same.mpr fun _ _ => rfl
  · exact h.sameTrims

/-- The pass drops blank lines and moves comments, and that is all. -/
theorem exists_unmoved (hcode : family ≠ .css ∧ family ≠ .html) (lines : List Text) :
    ∃ kept, Thinned lines kept ∧ Unmoved family language (settle family language lines) kept := by
  have hsqueeze : Thinned lines (squeeze lines) := thinned_squeezeFrom false lines
  have hbraces : Thinned (squeeze lines) (dropBetweenBraces (squeeze lines)) :=
    thinned_dropBetweenBracesFrom none (squeeze lines)
  have hbody : body (settle family language lines) = body (squeeze lines) := by
    rw [body_settle, body_squeeze]
  have hsettle := @settle_code family language hcode lines
  by_cases hskip : SkipsComments family language (squeeze lines)
  · refine ⟨squeeze lines, hsqueeze, ?_⟩
    rw [Unmoved, if_pos ((skipsComments_congr hbody).mpr hskip), hsettle, if_pos hskip]
  · obtain ⟨kept, hthinned, hrealigned⟩ :=
      exists_realigned (markerOf_ne_nil family) (dropBetweenBraces (squeeze lines))
    refine ⟨kept, (hsqueeze.trans hbraces).trans hthinned, ?_⟩
    rwa [Unmoved, if_neg (mt (skipsComments_congr hbody).mp hskip), hsettle, if_neg hskip]

/-- The pass gives settled lines exactly for the lines that differ from them in the place of
comments only. -/
theorem settle_eq_iff (hcode : family ≠ .css ∧ family ≠ .html) {lines laid : List Text}
    (hsettled : settle family language lines = lines) (hlength : laid.length = lines.length) :
    settle family language laid = lines ↔ Unmoved family language lines laid := by
  rw [Unmoved]
  constructor
  · intro hsettle
    have hbody : body lines = body laid := by rw [← hsettle, body_settle]
    obtain ⟨hsqueeze, hparts⟩ :=
      @settle_of_length family language hcode laid (by rw [hsettle, hlength])
    split
    next hskip =>
        rw [skipsComments_congr hbody] at hskip
        rw [settle_code hcode, hsqueeze, if_pos hskip] at hsettle
        exact hsettle
    next hskip =>
        rw [skipsComments_congr hbody] at hskip
        obtain ⟨_, halign⟩ := hparts.resolve_left hskip
        rw [halign] at hsettle
        rw [← hsettle]
        exact realigned_align (markerOf_ne_nil family) (by rw [hsettle, hlength])
  · intro hsame
    obtain ⟨hsqueeze, hparts⟩ := @settle_of_length family language hcode lines (by rw [hsettled])
    split at hsame
    next hskip => rw [hsame, hsettled]
    next hskip =>
        obtain ⟨hkept, halign⟩ := hparts.resolve_left hskip
        -- Squeezing and the braces see no indentation, and alignment replaces the one that differs.
        have htrims := hsame.sameTrims
        have hpair : hasBlankPair laid = false := by
          rw [← htrims.sameBlanks.hasBlankPair_eq, ← hsqueeze]
          exact (hasBlankPair_squeezeFrom false lines).1
        have hkept' : Kept none laid := htrims.kept rfl hkept
        rw [skipsComments_congr htrims.body_eq] at hskip
        rw [settle_code hcode, squeeze_eq_self hpair, if_neg hskip, dropBetweenBraces, hkept']
        calc align (markerOf family) laid
            = align (markerOf family) lines :=
              congrArg Aligned.lines (hsame.aligned_eq (markerOf_ne_nil family))
          _ = lines := halign.symm.trans hsettled

end

end SourceLayout.Layout
