import SourceLayout.Proofs.Shape

/-!
# The passes over lines, run again

Collapsing blank lines twice is collapsing them once. Spacing the blocks of a style sheet puts a
blank line after every block that wants one, and when the blank lines were collapsed before, it puts
it there the first time.
-/

namespace SourceLayout

namespace Layout

/-! ### Collapsing -/

theorem collapseLines_ne_nil {lines : List Text} (hne : lines ≠ []) (run : Nat) :
    collapseLines run lines ≠ [] := by
  fun_induction collapseLines run lines with
  | case1 => exact hne
  | case2 run line => simp
  | case3 run line next lines _ ih => exact ih (by simp)
  | case4 run line next lines _ _ => simp

theorem collapseLines_keep {run : Nat} {line : Text} (hkeep : line = [] → run < 2)
    {lines : List Text} (hne : lines ≠ []) :
    collapseLines run (line :: lines) =
      line :: collapseLines (if line = [] then run + 1 else 1) lines := by
  obtain ⟨next, others, rfl⟩ := List.exists_cons_of_ne_nil hne
  rw [collapseLines, if_neg]
  rintro ⟨hline, hrun⟩
  have hless := hkeep hline
  omega

theorem collapseLines_drop {run : Nat} (hrun : 2 ≤ run) {lines : List Text} (hne : lines ≠ []) :
    collapseLines run ([] :: lines) = collapseLines (run + 1) lines := by
  obtain ⟨next, others, rfl⟩ := List.exists_cons_of_ne_nil hne
  rw [collapseLines, if_pos ⟨rfl, hrun⟩]

/-- Two line feeds in a row are as good as more. -/
theorem collapseLines_of_two_le {run : Nat} (hrun : 2 ≤ run) (lines : List Text) :
    collapseLines run lines = collapseLines 2 lines := by
  induction lines generalizing run with
  | nil => rfl
  | cons line lines ih =>
      by_cases hnil : lines = []
      · rw [hnil, collapseLines, collapseLines]
      · by_cases hline : line = []
        · rw [hline, collapseLines_drop hrun hnil, collapseLines_drop (Nat.le_refl 2) hnil,
            ih (by omega), ih (Nat.le_succ 2)]
        · rw [collapseLines_keep (by simp [hline]) hnil, collapseLines_keep (by simp [hline]) hnil,
            if_neg hline, if_neg hline]

theorem collapseLines_collapseLines (run : Nat) (lines : List Text) :
    collapseLines run (collapseLines run lines) = collapseLines run lines := by
  induction lines generalizing run with
  | nil => rfl
  | cons line lines ih =>
      by_cases hnil : lines = []
      · rw [hnil]
        rfl
      · by_cases hdrop : line = [] ∧ 2 ≤ run
        · obtain ⟨rfl, hrun⟩ := hdrop
          rw [collapseLines_drop hrun hnil, collapseLines_of_two_le hrun,
            collapseLines_of_two_le (by omega : 2 ≤ run + 1), ih 2]
        · have hkeep : line = [] → run < 2 := by
            intro hline
            exact Nat.lt_of_not_le fun hrun => hdrop ⟨hline, hrun⟩
          rw [collapseLines_keep hkeep hnil, collapseLines_keep hkeep (collapseLines_ne_nil hnil _),
            ih]

/-- Lines from which collapsing takes nothing. -/
def Collapsed (run : Nat) (lines : List Text) : Prop :=
  collapseLines run lines = lines

theorem Collapsed.of_cons {run : Nat} {line : Text} {lines : List Text} (hne : lines ≠ [])
    (h : Collapsed run (line :: lines)) :
    (line = [] → run < 2) ∧ Collapsed (if line = [] then run + 1 else 1) lines := by
  have hkeep : line = [] → run < 2 := by
    rintro rfl
    refine Nat.lt_of_not_le fun hrun => ?_
    have hlength := length_collapseLines_le (run + 1) lines
    rw [Collapsed, collapseLines_drop hrun hne] at h
    rw [h, List.length_cons] at hlength
    omega
  rw [Collapsed, collapseLines_keep hkeep hne, List.cons.injEq] at h
  exact ⟨hkeep, h.2⟩

/-- Whether two blank lines follow one another. -/
def hasBlankPair : List Text → Bool
  | line :: next :: lines => (line.isEmptyLine && next.isEmptyLine) || hasBlankPair (next :: lines)
  | _ => false

theorem hasBlankPair_of_cons {line : Text} {lines : List Text}
    (hpair : hasBlankPair (line :: lines) = false) : hasBlankPair lines = false := by
  cases lines with
  | nil => rfl
  | cons next others =>
      rw [hasBlankPair, Bool.or_eq_false_iff] at hpair
      exact hpair.2

theorem head_of_hasBlankPair {line next : Text} {lines : List Text}
    (hpair : hasBlankPair (line :: next :: lines) = false) (hblank : line.isEmptyLine = true) :
    next.isEmptyLine = false := by
  rw [hasBlankPair, Bool.or_eq_false_iff, hblank, Bool.true_and] at hpair
  exact hpair.1

/-- As many lines, blank at the same places. -/
def SameBlanks (lines lines' : List Text) : Prop :=
  List.Forall₂ (fun line line' => line.isEmptyLine = line'.isEmptyLine) lines lines'

theorem SameBlanks.hasBlankPair_eq {lines lines' : List Text} (h : SameBlanks lines lines') :
    hasBlankPair lines = hasBlankPair lines' := by
  induction h with
  | nil => rfl
  | cons hfirst hothers ih =>
      cases hothers with
      | nil => rfl
      | cons hnext hrest => rw [hasBlankPair, hasBlankPair, hfirst, hnext, ih]

theorem collapsed_of_hasBlankPair {lines : List Text} (hpair : hasBlankPair lines = false)
    {run : Nat} (hrun : lines.head? = some [] → run < 2) : Collapsed run lines := by
  induction lines generalizing run with
  | nil => rfl
  | cons line lines ih =>
      by_cases hnil : lines = []
      · rw [hnil]
        rfl
      · have hkeep : line = [] → run < 2 := by
          rintro rfl
          exact hrun rfl
        have hlater : Collapsed (if line = [] then run + 1 else 1) lines := by
          refine ih (hasBlankPair_of_cons hpair) ?_
          intro hhead
          split
          next hline =>
              obtain ⟨next, others, rfl⟩ := List.exists_cons_of_ne_nil hnil
              obtain rfl : next = [] := by simpa using hhead
              rw [hline] at hpair
              cases head_of_hasBlankPair hpair rfl
          next => decide
        rw [Collapsed, collapseLines_keep hkeep hnil, hlater]

/-! ### The blocks of a style sheet -/

/-- A line between a block and the next rule. -/
def isBetween (line : Text) : Bool :=
  line.isEmptyLine || isStyleComment line

/-- Whether a rule follows, so that a block before it wants a gap. -/
def wantsGap (lines : List Text) : Bool :=
  match (body lines).dropWhile isStyleComment with
  | [] => false
  | next :: _ => !next.startsWith ['}']

theorem wantsGap_eq (lines : List Text) :
    wantsGap lines = match lines.dropWhile isBetween with
      | [] => false
      | next :: _ => !next.trim.startsWith ['}'] := by
  induction lines with
  | nil => rfl
  | cons line lines ih =>
      have htrim : isStyleComment line.trim = isStyleComment line := by
        simp [isStyleComment]
      cases hblank : line.isEmptyLine with
      | true =>
          have hbetween : isBetween line = true := by simp [isBetween, hblank]
          rw [List.dropWhile_cons_of_pos hbetween, ← ih, wantsGap, body_blank_cons hblank, wantsGap]
      | false =>
          cases hcomment : isStyleComment line with
          | true =>
              have hbetween : isBetween line = true := by simp [isBetween, hcomment]
              rw [List.dropWhile_cons_of_pos hbetween, ← ih, wantsGap, body_cons hblank,
                List.dropWhile_cons_of_pos (by rw [htrim, hcomment]), wantsGap]
          | false =>
              have hbetween : ¬isBetween line = true := by simp [isBetween, hblank, hcomment]
              rw [List.dropWhile_cons_of_neg hbetween, wantsGap, body_cons hblank,
                List.dropWhile_cons_of_neg (by rw [htrim, hcomment]; decide)]

theorem missingBlanks_eq (lines : List Text) :
    missingBlanks lines =
      if wantsGap lines then
        2 + (lines.takeWhile isBetween).countP isStyleComment -
          (lines.takeWhile isBetween).countP Text.isEmptyLine
      else 0 := by
  have hdrop : lines.drop (lines.takeWhile isBetween).length = lines.dropWhile isBetween := by
    have hleft := @List.drop_left _ (lines.takeWhile isBetween) (lines.dropWhile isBetween)
    rwa [List.takeWhile_append_dropWhile] at hleft
  rw [missingBlanks, wantsGap_eq]
  change (match lines.drop (lines.takeWhile isBetween).length with
    | [] => 0
    | next :: _ => _) = _
  rw [hdrop]
  cases lines.dropWhile isBetween with
  | nil => rfl
  | cons next others =>
      dsimp only
      by_cases hclose : next.trim.startsWith ['}'] = true
      · rw [if_pos hclose, if_neg (by simp [hclose])]
      · rw [if_neg hclose, if_pos (by simpa using hclose)]
        rfl

/-- Collapsed lines have no more blank ones between a block and the next rule than comments, and one
more before the first comment. -/
theorem countP_blank_le {run : Nat} {lines : List Text} (h : Collapsed run lines)
    (hnext : lines.dropWhile isBetween ≠ [])
    (hblank : ∀ line ∈ lines, line.isEmptyLine = true → line = []) :
    (lines.takeWhile isBetween).countP Text.isEmptyLine ≤
      (lines.takeWhile isBetween).countP isStyleComment + (2 - min run 2) := by
  induction lines generalizing run with
  | nil => simp
  | cons line lines ih =>
      cases hbetween : isBetween line with
      | false => simp [hbetween]
      | true =>
          rw [List.dropWhile_cons_of_pos hbetween] at hnext
          have hne : lines ≠ [] := by
            rintro rfl
            exact hnext rfl
          obtain ⟨hkeep, hlater⟩ := h.of_cons hne
          obtain ⟨hown, hothers⟩ := List.forall_mem_cons.mp hblank
          have hcount := ih hlater hnext hothers
          rw [List.takeWhile_cons_of_pos hbetween, List.countP_cons, List.countP_cons]
          by_cases hline : line.isEmptyLine = true
          · have hnil := hown hline
            have hrun := hkeep hnil
            have hcomment : isStyleComment line = false := by
              rw [hnil]
              decide
            rw [if_pos hnil] at hcount
            rw [hline, hcomment, if_pos rfl, if_neg Bool.false_ne_true]
            omega
          · have hcomment : isStyleComment line = true := by
              simpa [isBetween, hline] using hbetween
            have hnil : line ≠ [] := by
              rintro rfl
              exact hline rfl
            rw [if_neg hnil] at hcount
            rw [hcomment, if_pos rfl, if_neg hline]
            omega

/-- After a line with something in it, a gap that is wanted is missing, since blank lines were
collapsed. -/
theorem missingBlanks_pos {lines : List Text} (h : Collapsed 1 lines)
    (hblank : ∀ line ∈ lines, line.isEmptyLine = true → line = [])
    (hwants : wantsGap lines = true) :
    0 < missingBlanks lines := by
  have hnext : lines.dropWhile isBetween ≠ [] := by
    intro hnil
    rw [wantsGap_eq, hnil] at hwants
    cases hwants
  have hcount := countP_blank_le h hnext hblank
  rw [missingBlanks_eq, if_pos hwants]
  omega

theorem missingBlanks_eq_zero {lines : List Text} (hwants : wantsGap lines = false) :
    missingBlanks lines = 0 := by
  rw [missingBlanks_eq, hwants, if_neg Bool.false_ne_true]

/-- What is left of the lines after spacing the blocks and collapsing. -/
def spaced (run : Nat) (lines : List Text) : List Text :=
  collapseLines run (spaceBlocks lines)

theorem wantsGap_spaced (run : Nat) (lines : List Text) :
    wantsGap (spaced run lines) = wantsGap lines := by
  rw [wantsGap, wantsGap, spaced, (thinned_collapseLines run _).body_eq, body_spaceBlocks]

theorem spaced_ne_nil {lines : List Text} (hne : lines ≠ []) (run : Nat) : spaced run lines ≠ [] :=
  collapseLines_ne_nil (spaceBlocks_ne_nil hne) run

theorem mem_spaced {run : Nat} {lines : List Text} {line : Text} (hline : line ∈ spaced run lines) :
    line ∈ lines ∨ line = [] :=
  mem_spaceBlocks ((thinned_collapseLines run _).sublist.subset hline)

/-- A line that ends no block. -/
theorem spaced_cons_other {line : Text} (hcloses : closesBlock line = false) {run : Nat}
    (hkeep : line = [] → run < 2) {lines : List Text} (hne : lines ≠ []) :
    spaced run (line :: lines) = line :: spaced (if line = [] then run + 1 else 1) lines := by
  rw [spaced, spaceBlocks, hcloses]
  exact collapseLines_keep hkeep (spaceBlocks_ne_nil hne)

/-- A line that ends a block before the end or another closing brace. -/
theorem spaced_cons_last {line : Text} (hcloses : closesBlock line = true) {lines : List Text}
    (hmissing : missingBlanks lines = 0) (hne : lines ≠ []) (run : Nat) :
    spaced run (line :: lines) = line :: spaced 1 lines := by
  have hline := ne_nil_of_closesBlock hcloses
  rw [spaced, spaceBlocks, hcloses, if_pos rfl, hmissing]
  exact collapseLines_cons hline (spaceBlocks_ne_nil hne) run

/-- A line that ends a block before a rule. -/
theorem spaced_cons_gap {line : Text} (hcloses : closesBlock line = true) {lines : List Text}
    (hmissing : 0 < missingBlanks lines) (hne : lines ≠ []) (run : Nat) :
    spaced run (line :: lines) = line :: [] :: spaced 2 lines := by
  have hline := ne_nil_of_closesBlock hcloses
  obtain ⟨missing, hcount⟩ := Nat.exists_eq_add_one.mpr hmissing
  have hblocks := spaceBlocks_ne_nil hne
  rw [spaced, spaceBlocks, hcloses, if_pos rfl, hcount, List.cons_append,
    collapseLines_cons hline (List.append_ne_nil_of_right_ne_nil _ hblocks),
    collapseLines_one_replicate missing hblocks, collapseLines_of_two_le (by omega)]
  rfl

theorem spaced_singleton (run : Nat) (line : Text) : spaced run [line] = [line] := by
  simp [spaced, spaceBlocks, missingBlanks, collapseLines]

/-- A blank line after two line feeds goes. -/
theorem spaced_two_blank {lines : List Text} (hne : lines ≠ []) :
    spaced 2 ([] :: lines) = spaced 2 lines := by
  rw [spaced, spaceBlocks]
  exact (collapseLines_drop (Nat.le_refl 2) (spaceBlocks_ne_nil hne)).trans
    (collapseLines_of_two_le (by omega) _)

/-- Lines that were collapsed after one line feed are so after two, but for a blank one. -/
theorem Collapsed.exists_suffix {lines : List Text} (h : Collapsed 1 lines)
    (hwants : wantsGap lines = true) :
    ∃ rest, rest <:+ lines ∧ Collapsed 2 rest ∧ spaced 2 lines = spaced 2 rest := by
  cases lines with
  | nil => cases hwants
  | cons next others =>
      by_cases hnext : next = []
      · subst hnext
        have hne : others ≠ [] := by
          rintro rfl
          cases hwants
        exact ⟨others, List.suffix_cons [] others, (h.of_cons hne).2, spaced_two_blank hne⟩
      · refine ⟨next :: others, List.suffix_refl _, ?_, rfl⟩
        by_cases hnil : others = []
        · rw [hnil]
          rfl
        · rw [Collapsed, collapseLines_cons hnext hnil] at h ⊢
          exact h

/-- Blocks that were spaced after a collapse are spaced for good. -/
theorem spaced_spaced {run : Nat} {lines : List Text} (h : Collapsed run lines)
    (hblank : ∀ line ∈ lines, line.isEmptyLine = true → line = []) :
    spaced run (spaced run lines) = spaced run lines := by
  induction hlength : lines.length using Nat.strongRecOn generalizing run lines with
  | ind length ih =>
      cases lines with
      | nil => rfl
      | cons line lines =>
          rw [List.length_cons] at hlength
          by_cases hnil : lines = []
          · rw [hnil, spaced_singleton, spaced_singleton]
          · obtain ⟨hkeep, hlater⟩ := h.of_cons hnil
            have hothers := (List.forall_mem_cons.mp hblank).2
            cases hcloses : closesBlock line with
            | false =>
                have hagain := ih lines.length (by omega) hlater hothers rfl
                rw [spaced_cons_other hcloses hkeep hnil,
                  spaced_cons_other hcloses hkeep (spaced_ne_nil hnil _), hagain]
            | true =>
                rw [if_neg (ne_nil_of_closesBlock hcloses)] at hlater
                cases hwants : wantsGap lines with
                | false =>
                    have hagain := ih lines.length (by omega) hlater hothers rfl
                    have hmissing : missingBlanks (spaced 1 lines) = 0 :=
                      missingBlanks_eq_zero ((wantsGap_spaced 1 lines).trans hwants)
                    rw [spaced_cons_last hcloses (missingBlanks_eq_zero hwants) hnil,
                      spaced_cons_last hcloses hmissing (spaced_ne_nil hnil _), hagain]
                | true =>
                    have hagain : spaced 2 (spaced 2 lines) = spaced 2 lines := by
                      obtain ⟨rest, hsuffix, hrest, hsame⟩ := hlater.exists_suffix hwants
                      rw [hsame]
                      exact ih rest.length (by have := hsuffix.length_le; omega) hrest
                        (fun other hother => hothers other (hsuffix.subset hother)) rfl
                    have hne := spaced_ne_nil hnil 2
                    rw [spaced_cons_gap hcloses (missingBlanks_pos hlater hothers hwants) hnil]
                    -- The gap is there now; whether blank lines are put into it or not, one is
                    -- left.
                    rcases Nat.eq_zero_or_pos (missingBlanks ([] :: spaced 2 lines)) with
                      hzero | hpos
                    · rw [spaced_cons_last hcloses hzero (by simp),
                        spaced_cons_other rfl (by simp) hne]
                      exact congrArg _ (congrArg _ hagain)
                    · rw [spaced_cons_gap hcloses hpos (by simp), spaced_two_blank hne, hagain]

end Layout

/-! ### Formatting, told by lines -/

theorem Language.exists_of_family? {id : Text} {family : Family}
    (hfamily : family? id = some family) :
    ∃ entry ∈ families, entry.2 = family ∧ normalize id = entry.1.toList := by
  rw [family?, Option.map_eq_some_iff] at hfamily
  obtain ⟨entry, hfind, hentry⟩ := hfamily
  refine ⟨entry, List.mem_of_find?_eq_some hfind, hentry, ?_⟩
  have hname := List.find?_some hfind
  exact (beq_iff_eq.mp hname).symm

theorem Text.eq_of_lines_eq {t t' : Text} (h : t.lines = t'.lines) : t = t' := by
  rw [← Text.ofLines_lines t, h, Text.ofLines_lines]

theorem Text.exists_of_lines {lines : List Text} (hne : lines ≠ [])
    (hlines : ∀ line ∈ lines, '\n' ∉ line) : ∃ t : Text, t.lines = lines :=
  ⟨Text.ofLines lines, Layout.lines_ofLines hne hlines⟩

theorem format_eq_ok_iff_lines {language : Option Text} {family : Family}
    (hfamily : Language.family? (language.getD []) = some family) {unit : IndentUnit}
    (hunit : '\n' ∉ unit.text) {text out : Text} :
    format language unit text = .ok out ↔
      ∃ laid, Layout.indent family (some (Language.normalize (language.getD []))) unit text.lines =
          .ok laid ∧
        out.lines = Layout.collapseLines 0
          (Layout.settle family (some (Language.normalize (language.getD []))) laid) := by
  refine ⟨lines_of_format hfamily hunit, ?_⟩
  rintro ⟨laid, hindent, hlines⟩
  have hformat := (format_eq_ok_iff hfamily).mpr ⟨laid, hindent, rfl⟩
  obtain ⟨laid', hindent', hlines'⟩ := lines_of_format hfamily hunit hformat
  obtain rfl : laid = laid' := Except.ok.inj (hindent.symm.trans hindent')
  rw [hformat, Text.eq_of_lines_eq (hlines'.trans hlines.symm)]

/-! ### Texts of one line -/

namespace Layout

variable {family : Family} {unit : IndentUnit}

theorem settle_singleton (family : Family) (language : Option Text) (line : Text) :
    settle family language [line] = [line] := by
  have hblocks : spaceBlocks [line] = [line] := by simp [spaceBlocks, missingBlanks]
  have hsqueeze : squeeze [line] = [line] := by simp [squeeze, squeezeFrom]
  have hbraces : dropBetweenBraces [line] = [line] := by
    simp [dropBetweenBraces, dropBetweenBracesFrom]
  have halign : ∀ marker, align marker [line] = [line] := by
    intro marker
    rw [align, List.foldr_cons, List.foldr_nil, Aligned.push]
    split <;> rfl
  unfold settle
  split
  · exact hblocks
  · rfl
  · dsimp only
    rw [hsqueeze, hbraces, halign, ite_self]

theorem indentation_eq_nil {line : Text} (hhead : headIs isBlank line = false) :
    line.indentation = [] := by
  cases line with
  | nil => rfl
  | cons c cs => exact List.takeWhile_cons_of_neg (by simpa using hhead)

theorem level_eq_zero {line : Text} (hhead : headIs isBlank line = false) :
    Indent.level family line = 0 := by
  rw [Indent.level, Indent.width, indentation_eq_nil hhead]
  simp

theorem indent_line {language : Option Text} {line tidied : Text}
    (hhead : headIs isBlank line = false) (hne : line ≠ [])
    (hdirective : Indent.isDirective line.trim = false)
    (htidy : Line.tidy family language line = .ok tidied)
    (hstar : tidied.startsWith ['*'] = false) :
    indent family language unit [line] = .ok [tidied] := by
  have hsolid : line.isEmptyLine = false := by
    cases line with
    | nil => exact absurd rfl hne
    | cons c cs =>
        have hc : isBlank c = false := hhead
        simp [Text.isEmptyLine, hc]
  have htrim : line.trim ≠ [] := by
    rw [Ne, Text.trim_eq_nil_iff, hsolid]
    decide
  rw [indent]
  split
  · refine byDepthFrom_cons_eq_ok.mpr ⟨tidied, [], ?_, rfl, rfl⟩
    have hlevel : Indent.levelAt 0 tidied = 0 := by simp [Indent.levelAt]
    rw [layAt, if_neg (by simpa using htrim), if_neg (by simp [hdirective]), htidy, Except.map,
      hlevel, indented_margin hstar]
  · refine byWidth_cons_eq_ok.mpr ⟨tidied, [], ?_, rfl, rfl⟩
    rw [layByWidth, hsolid, if_neg Bool.false_ne_true, tidy_trim, htidy, Except.map,
      level_eq_zero hhead, indented_margin hstar]

end Layout

/-- A text of one line that starts at the margin is tidied, and that is all. -/
theorem format_line {language : Option Text} {family : Family}
    (hfamily : Language.family? (language.getD []) = some family) {unit : IndentUnit}
    (hunit : '\n' ∉ unit.text) {line out : Text} (hline : '\n' ∉ line) (hout : '\n' ∉ out)
    (hhead : headIs isBlank line = false) (hne : line ≠ [])
    (hdirective : Indent.isDirective line.trim = false)
    (htidy : Line.tidy family (some (Language.normalize (language.getD []))) line = .ok out)
    (hstar : out.startsWith ['*'] = false) : format language unit line = .ok out := by
  refine (format_eq_ok_iff_lines hfamily hunit).mpr ⟨[out], ?_, ?_⟩
  · rw [Layout.lines_eq_self hline]
    exact Layout.indent_line hhead hne hdirective htidy hstar
  · rw [Layout.lines_eq_self hout, Layout.settle_singleton, Layout.collapseLines]

end SourceLayout
