import SourceLayout.Proofs.Spacing.Markup

/-!
# Spacing by the innermost bracket

Blanks are no brackets, so the brackets that are open at a spot are told by the characters before
it. Told on spots, the pass over the colons of slices removes every gap next to a colon whose
innermost bracket is `[`, and no other one. The pass over keyword arguments goes from left to right
and removes the gaps around an equals sign together, so whether a gap goes depends on what was done
to the one before it.
-/

namespace SourceLayout.Spacing

/-- The brackets that are open after a text, innermost first. -/
def openBrackets (t : Text) : List Char :=
  t.foldl openAfter []

/-- The innermost bracket that is open after some characters, nearest first. -/
def innermost? (before : Text) : Option Char :=
  (openBrackets before.reverse).head?

theorem openBrackets_append_singleton (t : Text) (c : Char) :
    openBrackets (t ++ [c]) = openAfter (openBrackets t) c := by
  rw [openBrackets, List.foldl_append, List.foldl_cons, List.foldl_nil, openBrackets]

theorem openBrackets_reverse_cons (c : Char) (before : Text) :
    openBrackets (c :: before).reverse = openAfter (openBrackets before.reverse) c := by
  rw [List.reverse_cons, openBrackets_append_singleton]

theorem openAfter_of_other {c : Char} (hopening : isOpening c = false)
    (hclosing : isClosing c = false) (stack : List Char) : openAfter stack c = stack := by
  rw [openAfter, hopening, hclosing, if_neg Bool.false_ne_true, if_neg Bool.false_ne_true]

theorem isBlank_of_isOpening {c : Char} (hc : isOpening c = true) : isBlank c = false := by
  simp only [isOpening, Bool.or_eq_true, beq_iff_eq] at hc
  rcases hc with (rfl | rfl) | rfl <;> decide

theorem isBlank_of_isClosing {c : Char} (hc : isClosing c = true) : isBlank c = false := by
  simp only [isClosing, Bool.or_eq_true, beq_iff_eq] at hc
  rcases hc with (rfl | rfl) | rfl <;> decide

theorem openAfter_blank {c : Char} (hc : isBlank c = true) (stack : List Char) :
    openAfter stack c = stack := by
  apply openAfter_of_other
  · exact Bool.eq_false_iff.mpr fun hopening => by simp [isBlank_of_isOpening hopening] at hc
  · exact Bool.eq_false_iff.mpr fun hclosing => by simp [isBlank_of_isClosing hclosing] at hc

theorem openBrackets_solid (t : Text) : openBrackets (Text.solid t) = openBrackets t := by
  have hall : ∀ stack, (Text.solid t).foldl openAfter stack = t.foldl openAfter stack := by
    induction t with
    | nil => exact fun _ => rfl
    | cons c cs ih =>
        intro stack
        cases hc : isBlank c with
        | true =>
            rw [List.foldl_cons, openAfter_blank hc, ← ih]
            simp [Text.solid, hc]
        | false =>
            rw [List.foldl_cons, ← ih]
            simp [Text.solid, hc]
  exact hall []

theorem render_cons (spot : Spot) (rest : List Spot) :
    render (spot :: rest) = space spot.gap ++ spot.char :: render rest := by
  rw [render, space]
  split <;> rfl

theorem beq_space_eq_false {c : Char} (hc : isBlank c = false) : (c == ' ') = false := by
  rw [beq_eq_false_iff_ne]
  rintro rfl
  exact absurd hc (by decide)

/-- What a rendered text starts with is told by its first gap. -/
theorem headIs_render {q : Char → Bool} (hspace : q ' ' = true) {list : List Spot}
    (hother : ∀ spot ∈ list, q spot.char = false) :
    headIs q (render list) = list.head?.any Spot.gap := by
  cases list with
  | nil => rfl
  | cons spot rest =>
      rw [render_cons, space]
      cases hgap : spot.gap with
      | false => simpa [hgap] using hother spot List.mem_cons_self
      | true => simpa [hgap] using hspace

theorem drop_one_render {list : List Spot} (hgap : list.head?.any Spot.gap = true) :
    (render list).drop 1 = render (close list) := by
  cases list with
  | nil => rfl
  | cons spot rest =>
      have hspot : spot.gap = true := hgap
      simp [render_cons, close, space, hspot]

/-! ### What holds of every gap -/

/-- What holds of every gap, told by the characters before it, nearest first, and the character
after it. -/
def Everywhere (holds : Text → Char → Bool → Prop) (before : Text) : List Spot → Prop
  | [] => True
  | spot :: rest => holds before spot.char spot.gap ∧ Everywhere holds (spot.char :: before) rest

section

variable {holds holds' : Text → Char → Bool → Prop} {before : Text} {list : List Spot}

theorem everywhere_of_forall (hall : ∀ before c gap, holds before c gap) (before : Text)
    (list : List Spot) : Everywhere holds before list := by
  induction list generalizing before with
  | nil => trivial
  | cons spot rest ih => exact ⟨hall before spot.char spot.gap, ih (spot.char :: before)⟩

theorem Everywhere.imp (h : Everywhere holds before list)
    (himp : ∀ before c gap, holds before c gap → holds' before c gap) :
    Everywhere holds' before list := by
  induction list generalizing before with
  | nil => trivial
  | cons spot rest ih => exact ⟨himp before spot.char spot.gap h.1, ih h.2⟩

theorem everywhere_regap {set : Text → Char → Bool → Bool} :
    Everywhere holds before (regap set before list) ↔
      Everywhere (fun before c gap => holds before c (set before c gap)) before list := by
  induction list generalizing before with
  | nil => exact Iff.rfl
  | cons spot rest ih => exact and_congr_right fun _ => ih

theorem everywhere_append {left right : List Spot} :
    Everywhere holds before (left ++ right) ↔ Everywhere holds before left ∧
      Everywhere holds ((left.map Spot.char).reverse ++ before) right := by
  induction left generalizing before with
  | nil => exact (and_iff_right trivial).symm
  | cons spot rest ih =>
      rw [List.cons_append, Everywhere, ih, Everywhere, and_assoc]
      simp

end

/-! ### Colons of slices -/

/-- No gap next to a colon whose innermost bracket is `[`. -/
def sliceGap (before : Text) (c : Char) (gap : Bool) : Bool :=
  gap && !(innermost? before == some '[' && (c == ':' || headIs (· == ':') before))

section

variable {stack : List Char} {written : Text}

theorem sliceColonsFrom_space (cs : Text) :
    sliceColonsFrom stack written (' ' :: cs) =
      if headIs (· == ':') written = true ∧ stack.head? = some '[' then
        sliceColonsFrom stack written cs
      else sliceColonsFrom stack (' ' :: written) cs := by
  have hhead : written.head? = some ':' ↔ headIs (· == ':') written = true := by
    cases written <;> simp
  rw [sliceColonsFrom, openAfter_blank (by decide : isBlank ' ' = true)]
  simp [hhead]

/-- A character is written with the gap before it, or without one. -/
theorem sliceColonsFrom_solid {c : Char} (hc : isBlank c = false)
    (hwritten : headIs (· == ' ') written = false) (gap : Bool) (cs : Text) :
    sliceColonsFrom stack written (space gap ++ c :: cs) =
      sliceColonsFrom (openAfter stack c)
        (c :: (space (gap && !(stack.head? == some '[' &&
          (c == ':' || headIs (· == ':') written))) ++ written)) cs := by
  have hdrop : written.dropWhile (· == ' ') = written := by
    cases written with
    | nil => rfl
    | cons d ds => rw [List.dropWhile_cons_of_neg (by simpa using hwritten)]
  have hspace : c ≠ ' ' := ne_of_beq_false (beq_space_eq_false hc)
  have hcolon : ∀ stack, openAfter stack ':' = stack := openAfter_of_other rfl rfl
  by_cases hsign : c = ':'
  · subst hsign
    by_cases hslice : stack.head? = some '['
    · have hgap : sliceColonsFrom stack written (space gap ++ ':' :: cs) =
          sliceColonsFrom stack (':' :: written) cs := by
        cases gap with
        | false => simp [space, sliceColonsFrom, hcolon, hslice, hdrop]
        | true =>
            rw [space, if_pos rfl, List.singleton_append, sliceColonsFrom_space]
            split <;> simp [sliceColonsFrom, hcolon, hslice, hdrop]
      rw [hgap, hcolon]
      simp [hslice, space]
    · cases gap <;> simp [space, sliceColonsFrom_space, sliceColonsFrom, hcolon, hslice]
  · have hother : ∀ written, sliceColonsFrom stack written (c :: cs) =
        sliceColonsFrom (openAfter stack c) (c :: written) cs := by
      intro written
      simp [sliceColonsFrom, hsign, hspace]
    cases gap with
    | false => simp [space, hother]
    | true =>
        rw [space, if_pos rfl, List.singleton_append, sliceColonsFrom_space, hother, hother]
        split
        next hslice => simp [hslice.1, hslice.2, space]
        next hslice =>
            have hkeep : ¬(stack.head? = some '[' ∧ headIs (· == ':') written = true) :=
              fun hboth => hslice hboth.symm
            cases hcolon : headIs (· == ':') written <;> simp_all [space]

end

theorem sliceColonsFrom_render {list : List Spot} (hsolid : ∀ spot ∈ list, isBlank spot.char = false)
    {before written : Text} (hspace : headIs (· == ' ') written = false)
    (hcolon : headIs (· == ':') written = headIs (· == ':') before) :
    sliceColonsFrom (openBrackets before.reverse) written (render list) =
      written.reverse ++ render (regap sliceGap before list) := by
  induction list generalizing before written with
  | nil => simp [render, regap, sliceColonsFrom]
  | cons spot rest ih =>
      obtain ⟨hspot, hrest⟩ := List.forall_mem_cons.mp hsolid
      have hnext : headIs (· == ' ') (spot.char :: (space (sliceGap before spot.char spot.gap) ++
          written)) = false := beq_space_eq_false hspot
      have hlater := @ih hrest (spot.char :: before) _ hnext rfl
      have hgap : (space (sliceGap before spot.char spot.gap)).reverse =
          space (sliceGap before spot.char spot.gap) := by
        rw [space]
        split <;> rfl
      rw [openBrackets_reverse_cons] at hlater
      rw [render_cons, sliceColonsFrom_solid hspot hspace, hcolon, ← innermost?, ← sliceGap, hlater,
        regap, render_cons, List.reverse_cons, List.reverse_append, hgap]
      simp

/-- On collapsed text the pass over slices sets the gaps by the characters around them. -/
theorem sliceColons_render {list : List Spot} (hsolid : ∀ spot ∈ list, isBlank spot.char = false) :
    sliceColons (render list) = render (regap sliceGap [] list) :=
  @sliceColonsFrom_render list hsolid [] [] rfl rfl

/-! ### Keyword arguments -/

/-- The spots after the pass over keyword arguments; `drawn` tells whether the spot before was an
equals sign that binds. -/
def keywordSpots (frames : List Frame) (previous : Option Char) (drawn : Bool) :
    List Spot → List Spot
  | [] => []
  | spot :: rest =>
      let gap := spot.gap && !drawn
      let binds := gap && spot.char == '=' && rest.head?.any Spot.gap && bindsKeyword frames previous
      ⟨gap && !binds, spot.char⟩ ::
        keywordSpots (framesAfter frames spot.char) (some spot.char) binds rest

theorem framesAfter_of_other {c : Char} (hopening : isOpening c = false)
    (hclosing : isClosing c = false) (hcomma : c ≠ ',') (hcolon : c ≠ ':') (frames : List Frame) :
    framesAfter frames c = frames := by
  unfold framesAfter
  rw [hopening, if_neg Bool.false_ne_true]
  cases frames with
  | nil => rfl
  | cons frame outer => simp [hclosing, hcomma, hcolon]

/-- The brackets of the frames are those that are open. -/
theorem map_bracket_framesAfter (frames : List Frame) (c : Char) :
    (framesAfter frames c).map Frame.bracket = openAfter (frames.map Frame.bracket) c := by
  unfold framesAfter
  rw [openAfter]
  split
  next => rfl
  next =>
      cases frames with
      | nil => simp
      | cons frame outer =>
          dsimp only
          split
          next => rfl
          next => split_ifs <;> rfl

theorem keywordArgumentsFrom_solid {c : Char} (hc : isBlank c = false) (frames : List Frame)
    (previous : Option Char) (cs : Text) :
    keywordArgumentsFrom frames previous (c :: cs) =
      c :: keywordArgumentsFrom (framesAfter frames c) (some c) cs := by
  rw [keywordArgumentsFrom]
  rintro cs' rfl _
  exact absurd hc (by decide)

/-- A space stays unless an equals sign that binds follows, with a space after it. -/
theorem keywordArgumentsFrom_space {c : Char} (hc : isBlank c = false) (frames : List Frame)
    (previous : Option Char) (cs : Text) :
    keywordArgumentsFrom frames previous (' ' :: c :: cs) =
      if c = '=' ∧ headIs (· == ' ') cs = true ∧ bindsKeyword frames previous = true then
        '=' :: keywordArgumentsFrom frames (some '=') (cs.drop 1)
      else ' ' :: c :: keywordArgumentsFrom (framesAfter frames c) (some c) cs := by
  have hblank : ∀ frames, framesAfter frames ' ' = frames :=
    framesAfter_of_other rfl rfl (by decide) (by decide)
  by_cases hsign : c = '=' ∧ headIs (· == ' ') cs = true
  · obtain ⟨rfl, hspace⟩ := hsign
    obtain ⟨cs, rfl⟩ : ∃ rest, cs = ' ' :: rest := by
      cases cs with
      | nil => cases hspace
      | cons d ds => exact ⟨ds, by simpa using hspace⟩
    rw [keywordArgumentsFrom, keywordArgumentsFrom_solid hc]
    by_cases hbinds : bindsKeyword frames previous = true
    · rw [if_pos hbinds, if_pos ⟨rfl, hspace, hbinds⟩, List.drop_one, List.tail_cons]
    · rw [if_neg hbinds, if_neg fun h => hbinds h.2.2]
  · rw [if_neg fun h => hsign ⟨h.1, h.2.1⟩, keywordArgumentsFrom, hblank,
      keywordArgumentsFrom_solid hc]
    rintro cs' _ hother
    rw [List.cons.injEq] at hother
    obtain ⟨rfl, rfl⟩ := hother
    exact hsign ⟨rfl, rfl⟩

theorem keywordArgumentsFrom_render {list : List Spot}
    (hsolid : ∀ spot ∈ list, isBlank spot.char = false) (frames : List Frame)
    (previous : Option Char) (drawn : Bool) :
    keywordArgumentsFrom frames previous (render (if drawn then close list else list)) =
      render (keywordSpots frames previous drawn list) := by
  induction list generalizing frames previous drawn with
  | nil => cases drawn <;> rfl
  | cons spot rest ih =>
      obtain ⟨hspot, hrest⟩ := List.forall_mem_cons.mp hsolid
      obtain ⟨gap, c⟩ := spot
      have hfirst : render (if drawn then close (⟨gap, c⟩ :: rest) else ⟨gap, c⟩ :: rest) =
          space (gap && !drawn) ++ c :: render rest := by
        cases drawn <;> simp [close, render_cons]
      have hopen := ih hrest (framesAfter frames c) (some c) false
      rw [if_neg Bool.false_ne_true] at hopen
      rw [hfirst, keywordSpots, render_cons]
      generalize (gap && !drawn) = gap
      cases gap with
      | false => simp [space, keywordArgumentsFrom_solid hspot, hopen]
      | true =>
          have hspace := @headIs_render (· == ' ') rfl rest fun next hnext =>
            beq_space_eq_false (hrest next hnext)
          rw [space, if_pos rfl, List.singleton_append, keywordArgumentsFrom_space hspot, hspace]
          by_cases hbinds : c = '=' ∧ rest.head?.any Spot.gap = true ∧
              bindsKeyword frames previous = true
          · obtain ⟨rfl, hnext, hkeyword⟩ := hbinds
            have hclose := ih hrest frames (some '=') true
            rw [if_pos rfl] at hclose
            have hframes : framesAfter frames '=' = frames :=
              framesAfter_of_other rfl rfl (by decide) (by decide) frames
            rw [if_pos ⟨rfl, hnext, hkeyword⟩, drop_one_render hnext, hclose, hframes]
            simp [hnext, hkeyword, space]
          · have hkept : (true && c == '=' && rest.head?.any Spot.gap &&
                bindsKeyword frames previous) = false := by
              rw [← Bool.not_eq_true]
              simpa [and_assoc] using hbinds
            rw [if_neg hbinds, hkept, hopen]
            simp [space]

/-- On collapsed text the pass over keyword arguments removes gaps of spots. -/
theorem keywordArguments_render {list : List Spot}
    (hsolid : ∀ spot ∈ list, isBlank spot.char = false) :
    keywordArguments (render list) = render (keywordSpots [] none false list) :=
  keywordArgumentsFrom_render hsolid [] none false

theorem map_char_keywordSpots (frames : List Frame) (previous : Option Char) (drawn : Bool)
    (list : List Spot) :
    (keywordSpots frames previous drawn list).map Spot.char = list.map Spot.char := by
  induction list generalizing frames previous drawn with
  | nil => rfl
  | cons spot rest ih => rw [keywordSpots, List.map_cons, List.map_cons, ih]

theorem isBlank_of_mem_keywordSpots {frames : List Frame} {previous : Option Char} {drawn : Bool}
    {list : List Spot} (hsolid : ∀ spot ∈ list, isBlank spot.char = false) {spot : Spot}
    (hspot : spot ∈ keywordSpots frames previous drawn list) : isBlank spot.char = false := by
  have hchar : spot.char ∈ list.map Spot.char := by
    rw [← map_char_keywordSpots frames previous drawn]
    exact List.mem_map_of_mem hspot
  obtain ⟨old, hold, hsame⟩ := List.mem_map.mp hchar
  rw [← hsame]
  exact hsolid old hold

/-- An equals sign binds only right inside parentheses. -/
theorem head?_of_bindsKeyword {frames : List Frame} {previous : Option Char}
    (hbinds : bindsKeyword frames previous = true) :
    (frames.map Frame.bracket).head? = some '(' := by
  cases frames with
  | nil => simp [bindsKeyword] at hbinds
  | cons frame outer =>
      cases previous with
      | none => simp [bindsKeyword] at hbinds
      | some p =>
          simp only [bindsKeyword, Bool.and_eq_true, beq_iff_eq] at hbinds
          rw [List.map_cons, List.head?_cons, hbinds.1.1]

/-- The pass over keyword arguments takes gaps away before an equals sign inside parentheses and
after an equals sign. -/
theorem Everywhere.keywordSpots {holds : Text → Char → Bool → Prop} {before : Text}
    {list : List Spot}
    (hlost : ∀ before c, c = '=' ∧ innermost? before = some '(' ∨ headIs (· == '=') before = true →
      holds before c true → holds before c false)
    {frames : List Frame} (hframes : frames.map Frame.bracket = openBrackets before.reverse)
    (previous : Option Char) {drawn : Bool}
    (hdrawn : drawn = true → headIs (· == '=') before = true) (h : Everywhere holds before list) :
    Everywhere holds before (Spacing.keywordSpots frames previous drawn list) := by
  induction list generalizing before frames previous drawn with
  | nil => trivial
  | cons spot rest ih =>
      obtain ⟨gap, c⟩ := spot
      rw [Spacing.keywordSpots]
      refine ⟨?_, ih ?_ _ ?_ h.2⟩
      · have hown : holds before c gap := h.1
        dsimp only
        cases gap with
        | false => simpa using hown
        | true =>
            cases drawn with
            | true => simpa using hlost before c (.inr (hdrawn rfl)) hown
            | false =>
                cases hbinds : c == '=' && rest.head?.any Spot.gap && bindsKeyword frames previous with
                | false => simpa [hbinds] using hown
                | true =>
                    simp only [Bool.and_eq_true, beq_iff_eq] at hbinds
                    have hinside : innermost? before = some '(' := by
                      rw [innermost?, ← hframes, head?_of_bindsKeyword hbinds.2]
                    have hclosed := hlost before c (.inl ⟨hbinds.1.1, hinside⟩) hown
                    simpa [hbinds] using hclosed
      · rw [map_bracket_framesAfter, hframes, openBrackets_reverse_cons]
      · simp only [Bool.and_eq_true, beq_iff_eq]
        exact fun hbinds => by simp [hbinds.1.1.2]

end SourceLayout.Spacing
