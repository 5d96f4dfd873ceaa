import SourceLayout.Layout.Declaration

/-!
# The spans of functions

The scan stops at every declaration it comes to, measures how far the function reaches and goes on
behind it. Neither measure leaves the document or stops before the declaration itself, so the scan
always gets further: no two spans meet, and a declaration it does not stop at lies inside a span.
How far a function reaches is told from the lines alone, by the braces seen since its first line or
by the widths of the lines below it.
-/

namespace SourceLayout.Layout

open Literal (bareCode)

variable {family : Family} {language : Option Text}

/-! ### Where a function ends -/

/-- The code of some lines, without comments and with literals masked. -/
def codeOf (family : Family) (lines : List Text) : Text :=
  lines.flatMap fun line => bareCode family line.trim

/-- Some brace has been opened, and no fewer have been closed. -/
def IsClosed (code : Text) : Prop :=
  0 < code.count '{' ∧ code.count '{' ≤ code.count '}'

/-- The lines from `start` to `place`, both included, hold all braces of a block. -/
def ClosesAt (family : Family) (lines : List Text) (start place : Nat) : Prop :=
  IsClosed (codeOf family ((lines.drop start).take (place - start + 1)))

/-- The first line at which the braces seen from `start` on are closed, or the last line of all. -/
structure EndsBraces (family : Family) (lines : List Text) (start stop : Nat) : Prop where
  closes : ClosesAt family lines start stop ∨ stop + 1 = lines.length
  first : ∀ place, start ≤ place → place < stop → ¬ClosesAt family lines start place

/-- The last line of a block whose first line has a width: blank lines apart, the lines up to it are
wider, and the next one is not. -/
structure EndsIndented (lines : List Text) (width : Int) (start stop : Nat) : Prop where
  wider : ∀ place line, start < place → place ≤ stop → lines[place]? = some line →
    line.isEmptyLine = false → width < Indent.width 4 line
  next : ∀ line, (lines.drop (stop + 1)).find? (fun line => !line.isEmptyLine) = some line →
    Indent.width 4 line ≤ width
  solid : start < stop → ∃ line, lines[stop]? = some line ∧ line.isEmptyLine = false

/-! ### Braces -/

theorem codeOf_cons (line : Text) (lines : List Text) :
    codeOf family (line :: lines) = bareCode family line.trim ++ codeOf family lines :=
  rfl

/-- The balance that code leads to. -/
def balanceOf (code : Text) : Balance :=
  code.foldl Balance.after ⟨0, false⟩

theorem foldl_after (balance : Balance) (code : Text) :
    code.foldl Balance.after balance =
      ⟨balance.depth + code.count '{' - code.count '}',
        balance.opened || decide (0 < code.count '{')⟩ := by
  induction code generalizing balance with
  | nil => simp
  | cons c cs ih =>
      rw [List.foldl_cons, ih, Balance.after]
      by_cases hopen : c = '{'
      · subst hopen
        simp only [if_true, List.count_cons_self, Balance.mk.injEq]
        refine ⟨?_, by simp⟩
        rw [List.count_cons_of_ne (by decide)]
        omega
      · rw [if_neg hopen, List.count_cons_of_ne hopen]
        by_cases hclose : c = '}'
        · subst hclose
          simp only [if_true, List.count_cons_self, Balance.mk.injEq]
          exact ⟨by omega, trivial⟩
        · rw [if_neg hclose, List.count_cons_of_ne hclose]

theorem balanceOf_closed_iff (code : Text) :
    ((balanceOf code).opened && decide ((balanceOf code).depth ≤ 0)) = true ↔ IsClosed code := by
  rw [balanceOf, foldl_after, IsClosed, Bool.and_eq_true, Bool.false_or, decide_eq_true_iff,
    decide_eq_true_iff]
  refine and_congr_right fun _ => ?_
  simp only
  omega

/-- How far the braces reach when some code has been seen before. -/
theorem braceReach_spec (before : Text) {lines : List Text} (hne : lines ≠ []) :
    braceReach family (balanceOf before) lines < lines.length ∧
      (IsClosed (before ++ codeOf family
          (lines.take (braceReach family (balanceOf before) lines + 1))) ∨
        braceReach family (balanceOf before) lines + 1 = lines.length) ∧
      ∀ count < braceReach family (balanceOf before) lines,
        ¬IsClosed (before ++ codeOf family (lines.take (count + 1))) := by
  induction lines generalizing before with
  | nil => exact absurd rfl hne
  | cons line lines ih =>
      have hseen : (bareCode family line.trim).foldl Balance.after (balanceOf before) =
          balanceOf (before ++ bareCode family line.trim) := by
        rw [balanceOf, balanceOf, List.foldl_append]
      have hown : codeOf family ((line :: lines).take 1) = bareCode family line.trim := by
        simp [codeOf]
      rw [braceReach, hseen]
      split
      next hends =>
          refine ⟨by simp, ?_, by simp⟩
          rw [Nat.zero_add, hown]
          rw [Bool.or_eq_true, balanceOf_closed_iff, List.isEmpty_iff] at hends
          rcases hends with rfl | hclosed
          · exact .inr rfl
          · exact .inl hclosed
      next hgoes =>
          rw [Bool.or_eq_true, balanceOf_closed_iff, not_or, List.isEmpty_iff] at hgoes
          obtain ⟨hlt, hcloses, hfirst⟩ := ih (before ++ bareCode family line.trim) hgoes.1
          simp only [List.append_assoc] at hcloses hfirst
          refine ⟨by simpa using hlt, ?_, fun count hcount => ?_⟩
          · rw [List.take_succ_cons, codeOf_cons, List.length_cons]
            exact hcloses.imp_right fun hlast => by rw [hlast]
          · cases count with
            | zero =>
                rw [Nat.zero_add, hown]
                exact hgoes.2
            | succ count =>
                rw [List.take_succ_cons, codeOf_cons]
                exact hfirst count (by omega)

/-! ### Indentation -/

theorem indentReach_blanks (base : Int) (blanks : Nat) (lines : List Text) :
    indentReach base blanks lines =
      if indentReach base 0 lines = 0 then 0 else blanks + indentReach base 0 lines := by
  induction lines generalizing blanks with
  | nil => simp [indentReach]
  | cons line lines ih =>
      rw [indentReach, indentReach]
      split
      next =>
          rw [ih (blanks + 1), ih (0 + 1)]
          by_cases hzero : indentReach base 0 lines = 0
          · rw [if_pos hzero, if_pos hzero, if_pos rfl]
          · rw [if_neg hzero, if_neg hzero, if_neg (by omega), Nat.add_assoc, Nat.zero_add]
      next =>
          split
          next => simp
          next =>
              rw [if_neg (by omega)]
              omega

theorem indentReach_blank {line : Text} (hline : line.isEmptyLine = true) (base : Int)
    (lines : List Text) : indentReach base 0 (line :: lines) =
      if indentReach base 0 lines = 0 then 0 else indentReach base 0 lines + 1 := by
  rw [indentReach, if_pos hline, indentReach_blanks]
  split
  next => rfl
  next => omega

theorem indentReach_le (base : Int) (lines : List Text) :
    indentReach base 0 lines ≤ lines.length := by
  induction lines with
  | nil => simp [indentReach]
  | cons line lines ih =>
      rw [List.length_cons]
      cases hline : line.isEmptyLine with
      | true =>
          rw [indentReach_blank hline]
          split <;> omega
      | false =>
          rw [indentReach, hline]
          simp only [Bool.false_eq_true, if_false]
          split <;> omega

/-- Blank lines apart, the lines that are reached are wider, the last one among them, and the next
line is not. -/
theorem indentReach_spec (base : Int) (lines : List Text) :
    (∀ place line, place < indentReach base 0 lines → lines[place]? = some line →
      line.isEmptyLine = false → base < Indent.width 4 line) ∧
    (∀ line, (lines.drop (indentReach base 0 lines)).find? (fun line => !line.isEmptyLine) =
      some line → Indent.width 4 line ≤ base) ∧
    (∀ place, indentReach base 0 lines = place + 1 →
      ∃ line, lines[place]? = some line ∧ line.isEmptyLine = false) := by
  induction lines with
  | nil => simp [indentReach]
  | cons first lines ih =>
      obtain ⟨hwider, hnext, hsolid⟩ := ih
      cases hfirst : first.isEmptyLine with
      | true =>
          rw [indentReach_blank hfirst]
          split
          next hzero =>
              rw [hzero] at hnext
              refine ⟨by simp, fun line hline => hnext line ?_, by simp⟩
              rw [List.drop_zero, List.find?_cons, hfirst] at hline
              exact hline
          next hreach =>
              refine ⟨fun place line hplace hline hblank => ?_, hnext, fun place hplace => ?_⟩
              · cases place with
                | zero =>
                    obtain rfl := Option.some.inj hline
                    rw [hfirst] at hblank
                    cases hblank
                | succ place => exact hwider place line (by omega) hline hblank
              · obtain ⟨last, rfl⟩ : ∃ last, place = last + 1 := ⟨place - 1, by omega⟩
                exact hsolid last (by omega)
      | false =>
          rw [indentReach, hfirst, if_neg Bool.false_ne_true]
          split
          next hnarrow =>
              refine ⟨by simp, fun line hline => ?_, by simp⟩
              rw [List.drop_zero, List.find?_cons, hfirst] at hline
              obtain rfl := Option.some.inj hline
              exact hnarrow
          next hwide =>
              have hshift : 0 + 1 + indentReach base 0 lines = indentReach base 0 lines + 1 := by
                omega
              rw [hshift]
              refine ⟨fun place line hplace hline hblank => ?_, hnext, fun place hplace => ?_⟩
              · cases place with
                | zero =>
                    obtain rfl := Option.some.inj hline
                    omega
                | succ place => exact hwider place line (by omega) hline hblank
              · cases place with
                | zero => exact ⟨first, rfl, hfirst⟩
                | succ place => exact hsolid place (by omega)

/-! ### One function -/

theorem reach_le (line : Text) (lines : List Text) :
    reach family (line :: lines) ≤ lines.length := by
  rw [reach]
  split
  next => exact indentReach_le _ lines
  next =>
      have hlt := (@braceReach_spec family [] (line :: lines) (by simp)).1
      exact Nat.le_of_lt_succ hlt

variable {lines : List Text} {start : Nat} {line : Text}

theorem drop_of_getElem? (hline : lines[start]? = some line) :
    lines.drop start = line :: lines.drop (start + 1) := by
  obtain ⟨hlt, rfl⟩ := List.getElem?_eq_some_iff.mp hline
  exact List.drop_eq_getElem_cons hlt

theorem endsBraces_reach (hfamily : family ≠ .python) (hline : lines[start]? = some line) :
    EndsBraces family lines start (start + reach family (lines.drop start)) := by
  have hdrop := drop_of_getElem? hline
  have hreach : reach family (lines.drop start) =
      braceReach family (balanceOf []) (lines.drop start) := by
    rw [hdrop, reach, if_neg hfamily]
    rfl
  obtain ⟨hlt, hcloses, hfirst⟩ :=
    @braceReach_spec family [] (lines.drop start) (by simp [hdrop])
  rw [← hreach, List.nil_append] at hcloses
  rw [← hreach, List.length_drop] at hlt
  refine ⟨?_, fun place hfrom hto => ?_⟩
  · rw [ClosesAt, Nat.add_sub_cancel_left]
    refine hcloses.imp_right fun hlast => ?_
    rw [List.length_drop] at hlast
    omega
  · have hearlier := hfirst (place - start) (by omega)
    rwa [List.nil_append] at hearlier

theorem endsIndented_reach (hfamily : family = .python) (hline : lines[start]? = some line) :
    EndsIndented lines (Indent.width 4 line) start
      (start + reach family (lines.drop start)) := by
  have hdrop := drop_of_getElem? hline
  have hreach : reach family (lines.drop start) =
      indentReach (Indent.width 4 line) 0 (lines.drop (start + 1)) := by
    rw [hdrop, reach, if_pos hfamily]
  obtain ⟨hwider, hnext, hsolid⟩ := indentReach_spec (Indent.width 4 line) (lines.drop (start + 1))
  simp only [← hreach, List.getElem?_drop, List.drop_drop] at hwider hnext hsolid
  refine ⟨fun place later hfrom hto hlater hblank => ?_, fun later hlater => hnext later ?_,
    fun hlt => ?_⟩
  · refine hwider (place - (start + 1)) later (by omega) ?_ hblank
    rwa [Nat.add_sub_cancel' hfrom]
  · rwa [Nat.add_right_comm] at hlater
  · obtain ⟨last, hlast⟩ : ∃ last, reach family (lines.drop start) = last + 1 :=
      ⟨reach family (lines.drop start) - 1, by omega⟩
    obtain ⟨later, hlater, hblank⟩ := hsolid last hlast
    refine ⟨later, ?_, hblank⟩
    rwa [hlast, ← Nat.add_assoc, Nat.add_right_comm]

/-! ### The scan -/

theorem spansFrom_drop (index skip : Nat) (lines : List Text) :
    spansFrom family language index skip lines =
      spansFrom family language (index + skip) 0 (lines.drop skip) := by
  induction skip generalizing index lines with
  | zero => rfl
  | succ skip ih =>
      cases lines with
      | nil => rfl
      | cons line lines =>
          rw [spansFrom, ih, List.drop_succ_cons]
          congr 1
          omega

/-- What a scan has found in the lines from number `index` on. -/
structure Found (family : Family) (language : Option Text) (index : Nat) (lines : List Text)
    (found : List Span) : Prop where
  declared : ∀ span ∈ found, ∃ place line, span.start = index + place ∧
    lines[place]? = some line ∧ declared? family language line.trim = some span.name ∧
    span.stop = span.start + reach family (lines.drop place)
  apart : found.Pairwise fun earlier later => earlier.stop < later.start
  covers : ∀ place line, lines[place]? = some line →
    (declared? family language line.trim).isSome = true →
    ∃ span ∈ found, span.start ≤ index + place ∧ index + place ≤ span.stop

theorem Found.passed {index : Nat} {found : List Span}
    (h : Found family language (index + 1) lines found)
    (hline : declared? family language line.trim = none) :
    Found family language index (line :: lines) found := by
  refine ⟨fun span hspan => ?_, h.apart, fun place later hlater hdeclared => ?_⟩
  · obtain ⟨place, later, hstart, hlater, hname, hstop⟩ := h.declared span hspan
    exact ⟨place + 1, later, by omega, hlater, hname, hstop⟩
  · cases place with
    | zero =>
        obtain rfl := Option.some.inj hlater
        rw [hline] at hdeclared
        cases hdeclared
    | succ place =>
        obtain ⟨span, hspan, hfrom, hto⟩ := h.covers place later hlater hdeclared
        exact ⟨span, hspan, by omega, by omega⟩

/-- A declaration, and the spans behind the function that it starts. -/
theorem Found.function {index : Nat} {found : List Span} {name : Text} {length : Nat}
    (hline : declared? family language line.trim = some name)
    (hlength : length = reach family (line :: lines))
    (h : Found family language (index + 1 + length) (lines.drop length) found) :
    Found family language index (line :: lines) (⟨index, index + length, name⟩ :: found) := by
  refine ⟨fun span hspan => ?_, List.pairwise_cons.mpr ⟨fun span hspan => ?_, h.apart⟩,
    fun place later hlater hdeclared => ?_⟩
  · rcases List.mem_cons.mp hspan with rfl | hlater
    · exact ⟨0, line, rfl, rfl, hline, by rw [hlength, List.drop_zero]⟩
    · obtain ⟨place, later, hstart, hgiven, hname, hstop⟩ := h.declared span hlater
      rw [List.getElem?_drop] at hgiven
      rw [List.drop_drop] at hstop
      refine ⟨length + place + 1, later, by omega, hgiven, hname, hstop⟩
  · obtain ⟨place, _, hstart, _⟩ := h.declared span hspan
    change index + length < span.start
    omega
  · by_cases hinside : place ≤ length
    · exact ⟨_, List.mem_cons_self, Nat.le_add_right index place, Nat.add_le_add_left hinside index⟩
    · obtain ⟨count, rfl⟩ : ∃ count, place = length + count + 1 := ⟨place - length - 1, by omega⟩
      rw [List.getElem?_cons_succ, ← List.getElem?_drop] at hlater
      obtain ⟨span, hspan, hfrom, hto⟩ := h.covers count later hlater hdeclared
      exact ⟨span, List.mem_cons_of_mem _ hspan, by omega, by omega⟩

theorem found_spansFrom (index : Nat) (lines : List Text) :
    Found family language index lines (spansFrom family language index 0 lines) := by
  induction hcount : lines.length using Nat.strongRecOn generalizing index lines with
  | ind count ih =>
      cases lines with
      | nil => exact ⟨by simp [spansFrom], by simp [spansFrom], by simp⟩
      | cons line lines =>
          rw [List.length_cons] at hcount
          rw [spansFrom]
          cases hdeclared : declared? family language line.trim with
          | none => exact (ih lines.length (by omega) (index + 1) lines rfl).passed hdeclared
          | some name =>
              simp only
              rw [spansFrom_drop]
              refine .function hdeclared rfl (ih _ ?_ _ _ rfl)
              rw [List.length_drop]
              omega

/-- **The spans of functions are sound and complete.** Every span starts at a declaration and ends,
inside the document, where the function does: at the first line that closes its braces, or the last
line if none does, or at the last line of its indented block. No two spans meet, they stand in
order, and every declaration lies in one. -/
theorem spans_sound_and_complete (family : Family) (language : Option Text) (lines : List Text) :
    (∀ span ∈ spans family language lines,
      span.start ≤ span.stop ∧ span.stop < lines.length ∧
      ∃ line, lines[span.start]? = some line ∧
        declared? family language line.trim = some span.name ∧
        (family ≠ .python → EndsBraces family lines span.start span.stop) ∧
        (family = .python →
          EndsIndented lines (Indent.width 4 line) span.start span.stop)) ∧
    (spans family language lines).Pairwise (fun earlier later => earlier.stop < later.start) ∧
    ∀ place line, lines[place]? = some line →
      (declared? family language line.trim).isSome = true →
      ∃ span ∈ spans family language lines, span.start ≤ place ∧ place ≤ span.stop := by
  have hfound := @found_spansFrom family language 0 lines
  refine ⟨fun span hspan => ?_, hfound.apart, fun place line hline hdeclared => ?_⟩
  · obtain ⟨place, line, hstart, hline, hname, hstop⟩ := hfound.declared span hspan
    rw [Nat.zero_add] at hstart
    subst hstart
    have hreach : reach family (lines.drop span.start) ≤ (lines.drop (span.start + 1)).length := by
      rw [drop_of_getElem? hline]
      exact reach_le line _
    have hlt : span.start < lines.length := (List.getElem?_eq_some_iff.mp hline).1
    rw [List.length_drop] at hreach
    refine ⟨by omega, by omega, line, hline, hname, fun hfamily => ?_, fun hfamily => ?_⟩
    · rw [hstop]
      exact endsBraces_reach hfamily hline
    · rw [hstop]
      exact endsIndented_reach hfamily hline
  · obtain ⟨span, hspan, hfrom, hto⟩ := hfound.covers place line hline hdeclared
    exact ⟨span, hspan, by omega, by omega⟩

end SourceLayout.Layout
