import SourceLayout.Proofs.Spacing.Bracket

/-!
# What the passes by bracket leave

Both passes take spaces out of a text and nothing else. A look at the top of a stack never meets an
empty one: the pass over keyword arguments keeps its brackets and what it has seen in them on two
stacks, which grow and shrink together. After the pass over slices no colon that belongs to a slice
has a space next to it. After the pass over keyword arguments an equals sign between two spaces is
one that the pass has met as it stands, because no two spaces are next to each other, and so one that
it had a reason to keep.
-/

namespace SourceLayout.Spacing

/-! ### Stacks that may be empty -/

/-- The brackets open after a character; there are none if the top of an empty stack is asked for. -/
def openAfter? (stack : List Char) (c : Char) : Option (List Char) :=
  if isOpening c then some (c :: stack)
  else if isClosing c ∧ stack ≠ [] then stack.tail?
  else some stack

/-- Whether the top of the brackets is the given one. An empty stack is not asked. -/
def isInside? (bracket : Char) (stack : List Char) : Option Bool :=
  if stack = [] then some false else stack.head?.map (· == bracket)

/-- The pass over the colons of slices, with no result if the top of an empty stack is asked for. -/
def sliceColonsFrom? (stack : List Char) (written : Text) : Text → Option Text
  | [] => some written.reverse
  | c :: cs => do
      let stack ← openAfter? stack c
      let inSlice ← isInside? '[' stack
      if c = ':' ∧ inSlice then
        sliceColonsFrom? stack (':' :: written.dropWhile (· == ' ')) cs
      else if c = ' ' ∧ written.head? = some ':' ∧ inSlice then
        sliceColonsFrom? stack written cs
      else sliceColonsFrom? stack (c :: written) cs

/-- The open brackets, and on a stack of its own whether a colon has been seen in each. -/
structure Stacks where
  brackets : List Char
  annotated : List Bool

/-- A stack with another top; there is none for an empty one. -/
def putTop? (entry : Bool) (stack : List Bool) : Option (List Bool) :=
  stack.tail?.map (entry :: ·)

/-- Both stacks after a character. -/
def Stacks.after? (held : Stacks) (c : Char) : Option Stacks :=
  if isOpening c then some ⟨c :: held.brackets, false :: held.annotated⟩
  else if isClosing c ∧ held.brackets ≠ [] then do
    return ⟨← held.brackets.tail?, ← held.annotated.tail?⟩
  else do
    let inCall ← isInside? '(' held.brackets
    if inCall ∧ c = ',' then return ⟨held.brackets, ← putTop? false held.annotated⟩
    else if inCall ∧ c = ':' then return ⟨held.brackets, ← putTop? true held.annotated⟩
    else return held

/-- Whether an equals sign between spaces binds a keyword. -/
def Stacks.binds? (held : Stacks) (previous : Option Char) : Option Bool := do
  if ← isInside? '(' held.brackets then
    let annotated ← held.annotated.head?
    return !annotated && previous.any fun c => !(c ∈ ['=', '!', '<', '>'])
  else return false

/-- The pass over keyword arguments, with no result if the top of an empty stack is asked for. -/
def keywordArgumentsFrom? (held : Stacks) (previous : Option Char) : Text → Option Text
  | [] => some []
  | ' ' :: '=' :: ' ' :: cs => do
      if ← held.binds? previous then
        return '=' :: (← keywordArgumentsFrom? held (some '=') cs)
      else return ' ' :: (← keywordArgumentsFrom? held (some ' ') ('=' :: ' ' :: cs))
  | c :: cs => do
      return c :: (← keywordArgumentsFrom? (← held.after? c) (some c) cs)

theorem openAfter?_eq (stack : List Char) (c : Char) :
    openAfter? stack c = some (openAfter stack c) := by
  rw [openAfter?, openAfter]
  split
  next => rfl
  next =>
      cases stack with
      | nil => simp
      | cons top rest => by_cases hc : isClosing c = true <;> simp [hc]

theorem isInside?_eq (bracket : Char) (stack : List Char) :
    isInside? bracket stack = some (stack.head? == some bracket) := by
  cases stack <;> simp [isInside?]

theorem sliceColonsFrom?_eq (stack : List Char) (written t : Text) :
    sliceColonsFrom? stack written t = some (sliceColonsFrom stack written t) := by
  induction t generalizing stack written with
  | nil => rfl
  | cons c cs ih =>
      rw [sliceColonsFrom?, openAfter?_eq, Option.bind_eq_bind, Option.bind_some, isInside?_eq,
        Option.bind_eq_bind, Option.bind_some, sliceColonsFrom, ih, ih, ih]
      split_ifs <;> rfl

/-- The two stacks of some frames. -/
def stacksOf (frames : List Frame) : Stacks :=
  ⟨frames.map Frame.bracket, frames.map Frame.annotated⟩

theorem after?_stacksOf (frames : List Frame) (c : Char) :
    (stacksOf frames).after? c = some (stacksOf (framesAfter frames c)) := by
  unfold framesAfter
  rw [Stacks.after?, isInside?_eq]
  cases hopening : isOpening c with
  | true => rfl
  | false =>
      cases frames with
      | nil => simp [stacksOf]
      | cons frame outer =>
          cases hclosing : isClosing c with
          | true => simp [stacksOf]
          | false =>
              by_cases hcall : frame.bracket = '('
              · by_cases hcomma : c = ','
                · simp [stacksOf, putTop?, hcall, hcomma]
                · by_cases hcolon : c = ':' <;> simp [stacksOf, putTop?, hcall, hcomma, hcolon]
              · simp [stacksOf, hcall]

theorem binds?_stacksOf (frames : List Frame) (previous : Option Char) :
    (stacksOf frames).binds? previous = some (bindsKeyword frames previous) := by
  rw [Stacks.binds?, isInside?_eq]
  cases frames with
  | nil => rfl
  | cons frame outer =>
      by_cases hcall : frame.bracket = '('
      · cases previous <;> simp [stacksOf, bindsKeyword, hcall]
      · cases previous <;> simp [stacksOf, bindsKeyword, hcall]

/-- As both stacks have one entry for each frame, every top that is asked for is there. -/
theorem keywordArgumentsFrom?_eq (frames : List Frame) (previous : Option Char) (t : Text) :
    keywordArgumentsFrom? (stacksOf frames) previous t =
      some (keywordArgumentsFrom frames previous t) := by
  fun_induction keywordArgumentsFrom frames previous t with
  | case1 => rfl
  | case2 frames previous cs hbinds ih =>
      rw [keywordArgumentsFrom?, binds?_stacksOf, hbinds]
      simp [ih]
  | case3 frames previous cs hbinds ih =>
      rw [keywordArgumentsFrom?, binds?_stacksOf]
      simp [hbinds, ih]
  | case4 frames previous c cs hpattern ih =>
      rw [keywordArgumentsFrom?, after?_stacksOf]
      · simp [ih]
      · exact hpattern

/-! ### Spaces taken out -/

/-- Nothing but spaces has been taken out of a text. -/
def SpacesTaken (old new : Text) : Prop :=
  new.Sublist old ∧ new.filter (· ≠ ' ') = old.filter (· ≠ ' ')

theorem SpacesTaken.refl (t : Text) : SpacesTaken t t :=
  ⟨List.Sublist.refl t, rfl⟩

theorem SpacesTaken.trans {old middle new : Text} (h : SpacesTaken old middle)
    (h' : SpacesTaken middle new) : SpacesTaken old new :=
  ⟨h'.1.trans h.1, h'.2.trans h.2⟩

theorem SpacesTaken.append {old new old' new' : Text} (h : SpacesTaken old new)
    (h' : SpacesTaken old' new') : SpacesTaken (old ++ old') (new ++ new') :=
  ⟨h.1.append h'.1, by rw [List.filter_append, List.filter_append, h.2, h'.2]⟩

theorem SpacesTaken.cons {old new : Text} (h : SpacesTaken old new) (c : Char) :
    SpacesTaken (c :: old) (c :: new) :=
  (SpacesTaken.refl [c]).append h

theorem SpacesTaken.space {old new : Text} (h : SpacesTaken old new) :
    SpacesTaken (' ' :: old) new :=
  ⟨h.1.cons ' ', by rw [h.2, List.filter_cons_of_neg (by simp)]⟩

theorem spacesTaken_dropWhile (written : Text) :
    SpacesTaken written.reverse (written.dropWhile (· == ' ')).reverse := by
  induction written with
  | nil => exact .refl []
  | cons c cs ih =>
      rw [List.reverse_cons]
      by_cases hc : c = ' '
      · subst hc
        rw [List.dropWhile_cons_of_pos rfl]
        simpa using ih.append (SpacesTaken.refl []).space
      · rw [List.dropWhile_cons_of_neg (by simpa using hc), List.reverse_cons]
        exact .refl _

theorem spacesTaken_sliceColonsFrom (stack : List Char) (written t : Text) :
    SpacesTaken (written.reverse ++ t) (sliceColonsFrom stack written t) := by
  fun_induction sliceColonsFrom stack written t with
  | case1 stack written =>
      rw [List.append_nil]
      exact .refl _
  | case2 stack written c cs stack' inSlice hcolon ih =>
      rw [List.reverse_cons, List.append_assoc] at ih
      obtain ⟨rfl, _⟩ := hcolon
      exact ((spacesTaken_dropWhile written).append (.refl _)).trans ih
  | case3 stack written c cs stack' inSlice _ hspace ih =>
      obtain ⟨rfl, _⟩ := hspace
      exact ((SpacesTaken.refl written.reverse).append (SpacesTaken.refl cs).space).trans ih
  | case4 stack written c cs stack' inSlice _ _ ih =>
      rwa [List.reverse_cons, List.append_assoc] at ih

theorem spacesTaken_keywordArgumentsFrom (frames : List Frame) (previous : Option Char) (t : Text) :
    SpacesTaken t (keywordArgumentsFrom frames previous t) := by
  fun_induction keywordArgumentsFrom frames previous t with
  | case1 => exact .refl []
  | case2 frames previous cs hbinds ih => exact (ih.space.cons '=').space
  | case3 frames previous cs hbinds ih => exact ih.cons ' '
  | case4 frames previous c cs hpattern ih => exact ih.cons c

/-! ### Colons of slices -/

/-- No colon that is right inside `[` has a space next to it. -/
def SlicesTight (t : Text) : Prop :=
  ∀ before after, t = before ++ ':' :: after → (openBrackets before).head? = some '[' →
    before.getLast? ≠ some ' ' ∧ after.head? ≠ some ' '

theorem SlicesTight.of_append {t rest : Text} (h : SlicesTight (t ++ rest)) : SlicesTight t := by
  rintro before after rfl hinside
  obtain ⟨hbefore, hafter⟩ := h before (after ++ rest) (by simp) hinside
  refine ⟨hbefore, fun hspace => hafter ?_⟩
  rw [List.head?_append, hspace]
  rfl

theorem openBrackets_append_colon (t : Text) : openBrackets (t ++ [':']) = openBrackets t := by
  rw [openBrackets_append_singleton, openAfter_of_other rfl rfl]

/-- A character can be written behind a tight text if it does not put a space next to a colon. -/
theorem SlicesTight.append_singleton {t : Text} {c : Char} (h : SlicesTight t)
    (hcolon : c = ':' → (openBrackets t).head? = some '[' → t.getLast? ≠ some ' ')
    (hspace : c = ' ' → (openBrackets t).head? = some '[' → t.getLast? ≠ some ':') :
    SlicesTight (t ++ [c]) := by
  intro before after hsplit hinside
  rcases List.eq_nil_or_concat after with rfl | ⟨front, last, rfl⟩
  · obtain ⟨rfl, hc⟩ := List.append_inj' hsplit rfl
    exact ⟨hcolon (List.singleton_inj.mp hc) hinside, by simp⟩
  · rw [List.concat_eq_append] at hsplit ⊢
    rw [← List.cons_append, ← List.append_assoc] at hsplit
    obtain ⟨rfl, hc⟩ := List.append_inj' hsplit rfl
    obtain rfl := List.singleton_inj.mp hc
    obtain ⟨hbefore, hfront⟩ := h before front rfl hinside
    refine ⟨hbefore, ?_⟩
    cases front with
    | nil =>
        -- The colon was the last character, and the new one is right behind it.
        rw [openBrackets_append_colon, List.getLast?_concat] at hspace
        intro hlast
        exact hspace (Option.some.inj hlast) hinside rfl
    | cons d ds => exact hfront

theorem openBrackets_dropWhile (written : Text) :
    openBrackets (written.dropWhile (· == ' ')).reverse = openBrackets written.reverse := by
  induction written with
  | nil => rfl
  | cons c cs ih =>
      by_cases hc : c = ' '
      · subst hc
        rw [List.dropWhile_cons_of_pos rfl, ih, openBrackets_reverse_cons, openAfter_blank (by decide)]
      · rw [List.dropWhile_cons_of_neg (by simpa using hc)]

theorem getLast?_reverse_dropWhile (written : Text) :
    (written.dropWhile (· == ' ')).reverse.getLast? ≠ some ' ' := by
  rw [List.getLast?_reverse]
  intro hhead
  have hspace := List.head?_dropWhile_not (· == ' ') written
  rw [hhead] at hspace
  simp at hspace

/-- Every character is written behind a tight text so that it stays tight. -/
theorem slicesTight_sliceColonsFrom {stack : List Char} {written : Text}
    (hstack : stack = openBrackets written.reverse) (hwritten : SlicesTight written.reverse)
    (t : Text) : SlicesTight (sliceColonsFrom stack written t) := by
  fun_induction sliceColonsFrom stack written t with
  | case1 => exact hwritten
  | case2 stack written c cs stack' inSlice hcolon ih =>
      obtain ⟨rfl, _⟩ := hcolon
      have hkept : SlicesTight (written.dropWhile (· == ' ')).reverse := by
        have hsplit := List.takeWhile_append_dropWhile (p := (· == ' ')) (l := written)
        rw [← hsplit, List.reverse_append] at hwritten
        exact hwritten.of_append
      have hopen : stack' = openBrackets (':' :: written.dropWhile (· == ' ')).reverse := by
        rw [openBrackets_reverse_cons, openBrackets_dropWhile, ← hstack]
      refine ih hopen ?_
      rw [List.reverse_cons]
      exact hkept.append_singleton (fun _ _ => getLast?_reverse_dropWhile written) (by simp)
  | case3 stack written c cs stack' inSlice _ hspace ih =>
      obtain ⟨rfl, _⟩ := hspace
      exact ih ((openAfter_blank (by decide) stack).trans hstack) hwritten
  | case4 stack written c cs stack' inSlice hcolon hspace ih =>
      have hopen : stack' = openBrackets (c :: written).reverse := by
        rw [openBrackets_reverse_cons, ← hstack]
      have hinSlice : ∀ d, openAfter stack d = stack → c = d →
          (openBrackets written.reverse).head? = some '[' → inSlice = true := by
        rintro d hsame rfl hinside
        rw [← hstack, ← hsame] at hinside
        exact beq_iff_eq.mpr hinside
      refine ih hopen ?_
      rw [List.reverse_cons]
      refine hwritten.append_singleton (fun hc hinside => ?_) fun hc hinside hlast => ?_
      · exact absurd ⟨hc, hinSlice ':' (openAfter_of_other rfl rfl stack) hc hinside⟩ hcolon
      · rw [List.getLast?_reverse] at hlast
        exact absurd ⟨hc, hlast, hinSlice ' ' (openAfter_blank (by decide) stack) hc hinside⟩ hspace

/-! ### Equals signs in calls -/

/-- The characters right inside a bracket that is open after a text, read back from its end. Before
that bracket is reached, `inner` others are to be left. -/
def levelFrom (inner : Nat) : Text → Text
  | [] => []
  | c :: before =>
      if isClosing c then levelFrom (inner + 1) before
      else if isOpening c then if inner = 0 then [] else levelFrom (inner - 1) before
      else if inner = 0 then c :: levelFrom 0 before
      else levelFrom inner before

/-- The characters right inside the innermost bracket that is open after a text, last one first. -/
def level (t : Text) : Text :=
  levelFrom 0 t.reverse

/-- A colon has been seen at the level of the innermost bracket since this opened or since the last
comma of the level. -/
def Annotated (t : Text) : Prop :=
  ':' ∈ (level t).takeWhile (· ≠ ',')

theorem isClosing_of_isOpening {c : Char} (hc : isOpening c = true) : isClosing c = false := by
  simp only [isOpening, Bool.or_eq_true, beq_iff_eq] at hc
  rcases hc with (rfl | rfl) | rfl <;> decide

/-- The frames open after a text. -/
def openFrames (t : Text) : List Frame :=
  t.foldl framesAfter []

theorem openFrames_reverse_cons (c : Char) (before : Text) :
    openFrames (c :: before).reverse = framesAfter (openFrames before.reverse) c := by
  rw [openFrames, List.reverse_cons, List.foldl_append, List.foldl_cons, List.foldl_nil, openFrames]

theorem map_bracket_openFrames (t : Text) :
    (openFrames t).map Frame.bracket = openBrackets t := by
  have hall : ∀ frames : List Frame, (t.foldl framesAfter frames).map Frame.bracket =
      t.foldl openAfter (frames.map Frame.bracket) := by
    induction t with
    | nil => exact fun _ => rfl
    | cons c cs ih =>
        intro frames
        rw [List.foldl_cons, ih, map_bracket_framesAfter, List.foldl_cons]
  exact hall []

theorem framesAfter_opening {c : Char} (hc : isOpening c = true) (frames : List Frame) :
    framesAfter frames c = ⟨c, false⟩ :: frames := by
  unfold framesAfter
  rw [if_pos hc]

theorem framesAfter_closing {c : Char} (hopening : isOpening c = false)
    (hclosing : isClosing c = true) (frames : List Frame) :
    framesAfter frames c = frames.tail := by
  unfold framesAfter
  rw [hopening, if_neg Bool.false_ne_true]
  cases frames with
  | nil => rfl
  | cons top outer => exact if_pos hclosing

/-- Any other character is at most noted in the innermost frame. -/
theorem exists_framesAfter {c : Char} (hopening : isOpening c = false)
    (hclosing : isClosing c = false) (top : Frame) (outer : List Frame) :
    ∃ noted : Frame, framesAfter (top :: outer) c = noted :: outer ∧
      noted.bracket = top.bracket ∧ (top.bracket = '(' →
        (noted.annotated = true ↔ c = ':' ∨ c ≠ ',' ∧ top.annotated = true)) := by
  unfold framesAfter
  simp only [hopening, hclosing, Bool.false_eq_true, if_false]
  split_ifs with hcomma hcolon
  · obtain ⟨_, rfl⟩ := hcomma
    exact ⟨_, rfl, rfl, fun _ => by simp⟩
  · obtain ⟨_, rfl⟩ := hcolon
    exact ⟨_, rfl, rfl, fun _ => by simp⟩
  · refine ⟨top, rfl, rfl, fun hcall => ?_⟩
    have hcomma' : c ≠ ',' := fun hc => hcomma ⟨hcall, hc⟩
    have hcolon' : c ≠ ':' := fun hc => hcolon ⟨hcall, hc⟩
    simp [hcomma', hcolon']

/-- What a frame for a parenthesis knows is told by the level of its bracket. -/
theorem annotated_iff {before : Text} {inner : Nat} {frame : Frame}
    (hframe : (openFrames before.reverse)[inner]? = some frame) (hcall : frame.bracket = '(') :
    frame.annotated = true ↔ ':' ∈ (levelFrom inner before).takeWhile (· ≠ ',') := by
  induction before generalizing inner frame with
  | nil => simp [openFrames] at hframe
  | cons c before ih =>
      rw [openFrames_reverse_cons] at hframe
      rw [levelFrom]
      cases hopening : isOpening c with
      | true =>
          rw [framesAfter_opening hopening] at hframe
          rw [isClosing_of_isOpening hopening, if_neg Bool.false_ne_true, if_pos rfl]
          cases inner with
          | zero =>
              obtain rfl := Option.some.inj hframe
              simp
          | succ inner => exact ih hframe hcall
      | false =>
          cases hclosing : isClosing c with
          | true =>
              rw [framesAfter_closing hopening hclosing, List.getElem?_tail] at hframe
              exact ih hframe hcall
          | false =>
              cases hframes : openFrames before.reverse with
              | nil =>
                  rw [hframes] at hframe
                  simp [framesAfter, hopening] at hframe
              | cons top outer =>
                  obtain ⟨noted, hnoted, hbracket, hknown⟩ :=
                    exists_framesAfter hopening hclosing top outer
                  rw [hframes, hnoted] at hframe
                  rw [hframes] at ih
                  simp only [Bool.false_eq_true, if_false]
                  cases inner with
                  | zero =>
                      obtain rfl := Option.some.inj hframe
                      rw [hbracket] at hcall
                      rw [hknown hcall, @ih 0 top rfl hcall, if_pos rfl, List.takeWhile_cons]
                      by_cases hcomma : c = ','
                      · simp [hcomma]
                      · simp [hcomma, eq_comm]
                  | succ inner => exact @ih (inner + 1) frame hframe hcall

/-! ### Equals signs that are kept -/

/-- What a written text starts with is what the text starts with, or an equals sign for a space. -/
theorem head?_of_keywordArgumentsFrom {frames : List Frame} {previous : Option Char} {t : Text}
    {c : Char} (hhead : (keywordArgumentsFrom frames previous t).head? = some c) :
    t.head? = some c ∨ c = '=' := by
  fun_cases keywordArgumentsFrom frames previous t with
  | case1 => exact .inl hhead
  | case2 cs hbinds =>
      rw [keywordArgumentsFrom, if_pos hbinds] at hhead
      exact .inr (Option.some.inj hhead).symm
  | case3 cs hbinds =>
      rw [keywordArgumentsFrom, if_neg hbinds] at hhead
      exact .inl hhead
  | case4 d cs hpattern =>
      rw [keywordArgumentsFrom] at hhead
      · exact .inl hhead
      · exact hpattern

theorem getLast?_cons_or (c : Char) (front : Text) (previous : Option Char) :
    (c :: front).getLast?.or previous = front.getLast?.or (some c) := by
  rw [List.getLast?_cons]
  cases front.getLast? <;> rfl

/-- A space before an equals sign and a space is written only where the text has all three. -/
theorem exists_of_written_equals {frames : List Frame} {c : Char} {cs after : Text}
    (hspaced : ¬[' ', ' '] <:+: ' ' :: cs)
    (hwritten : keywordArgumentsFrom frames (some c) cs = '=' :: ' ' :: after) :
    ∃ rest, cs = '=' :: ' ' :: rest := by
  have hfirst : cs.head? ≠ some ' ' := by
    intro hhead
    obtain ⟨rest, rfl⟩ := List.head?_eq_some_iff.mp hhead
    exact hspaced ⟨[], rest, rfl⟩
  cases cs with
  | nil => simp [keywordArgumentsFrom] at hwritten
  | cons d ds =>
      have hother : ∀ ds', d = ' ' → ds = '=' :: ' ' :: ds' → False :=
        fun _ hd _ => hfirst (congrArg some hd)
      rw [keywordArgumentsFrom] at hwritten
      · obtain ⟨rfl, hrest⟩ := List.cons.inj hwritten
        have hsecond := @head?_of_keywordArgumentsFrom _ _ _ ' ' (by rw [hrest]; rfl)
        obtain ⟨rest, rfl⟩ := List.head?_eq_some_iff.mp (hsecond.resolve_right (by decide))
        exact ⟨rest, rfl⟩
      · exact hother

/-- An equals sign that still has its spaces does not bind where it stands. -/
theorem not_bindsKeyword_of_kept {frames : List Frame} {previous : Option Char} {t : Text}
    (hspaced : ¬[' ', ' '] <:+: t) {before after : Text}
    (hkept : keywordArgumentsFrom frames previous t = before ++ ' ' :: '=' :: ' ' :: after) :
    bindsKeyword (before.foldl framesAfter frames) (before.getLast?.or previous) = false := by
  have hsame : ∀ frames, framesAfter frames '=' = frames ∧ framesAfter frames ' ' = frames :=
    fun frames => ⟨framesAfter_of_other rfl rfl (by decide) (by decide) frames,
      framesAfter_of_other rfl rfl (by decide) (by decide) frames⟩
  have htail : ∀ {c : Char} {cs : Text}, ¬[' ', ' '] <:+: c :: cs → ¬[' ', ' '] <:+: cs :=
    fun hspaced hpart => hspaced (hpart.trans (List.suffix_cons ..).isInfix)
  fun_induction keywordArgumentsFrom frames previous t generalizing before with
  | case1 => simp at hkept
  | case2 frames previous cs hbinds ih =>
      cases before with
      | nil => simp at hkept
      | cons d front =>
          obtain ⟨rfl, hrest⟩ := List.cons.inj hkept
          rw [List.foldl_cons, (hsame frames).1, getLast?_cons_or]
          exact ih (htail (htail (htail hspaced))) hrest
  | case3 frames previous cs hbinds ih =>
      cases before with
      | nil => simpa using hbinds
      | cons d front =>
          obtain ⟨rfl, hrest⟩ := List.cons.inj hkept
          rw [List.foldl_cons, (hsame frames).2, getLast?_cons_or]
          exact ih (htail hspaced) hrest
  | case4 frames previous c cs hpattern ih =>
      cases before with
      | nil =>
          -- Written one by one, the three characters would have matched the pattern.
          obtain ⟨rfl, hrest⟩ := List.cons.inj hkept
          obtain ⟨rest, rfl⟩ := exists_of_written_equals hspaced hrest
          exact absurd rfl (hpattern rest rfl)
      | cons d front =>
          obtain ⟨rfl, hrest⟩ := List.cons.inj hkept
          rw [List.foldl_cons, getLast?_cons_or]
          exact ih (htail hspaced) hrest

/-- An equals sign with its spaces in a call has been kept for one of two reasons. -/
theorem annotated_or_of_kept {t before after : Text} (hspaced : ¬[' ', ' '] <:+: t)
    (hkept : keywordArguments t = before ++ ' ' :: '=' :: ' ' :: after)
    (hinside : (openBrackets before).head? = some '(') :
    Annotated before ∨ ∃ c ∈ ['=', '!', '<', '>'], before.getLast? = some c := by
  have hbinds := not_bindsKeyword_of_kept hspaced hkept
  rw [Option.or_none, ← openFrames] at hbinds
  rw [← map_bracket_openFrames] at hinside
  cases hframes : openFrames before with
  | nil => simp [hframes] at hinside
  | cons frame outer =>
      rw [hframes] at hbinds hinside
      have hcall : frame.bracket = '(' := by simpa using hinside
      cases hlast : before.getLast? with
      | none =>
          rw [List.getLast?_eq_none_iff] at hlast
          subst hlast
          simp [openFrames] at hframes
      | some c =>
          rw [hlast] at hbinds
          have hframe : (openFrames before.reverse.reverse)[0]? = some frame := by
            rw [List.reverse_reverse, hframes, List.getElem?_cons_zero]
          rw [Annotated, level, ← annotated_iff hframe hcall]
          simp only [bindsKeyword, hcall, beq_self_eq_true, Bool.true_and, Bool.and_eq_false_iff,
            Bool.not_eq_false', decide_eq_true_eq] at hbinds
          exact hbinds.imp id fun hc => ⟨c, hc, rfl⟩

/-! ### Both passes -/

theorem not_infix_render {list : List Spot} (hsolid : ∀ spot ∈ list, isBlank spot.char = false) :
    ¬[' ', ' '] <:+: render list := by
  induction list with
  | nil => simp [render]
  | cons spot rest ih =>
      obtain ⟨hspot, hrest⟩ := List.forall_mem_cons.mp hsolid
      have hne : ' ' ≠ spot.char := fun hspace => by simp [← hspace, isBlank] at hspot
      rw [render_cons, space]
      split <;> simp [List.infix_cons_iff, hne, ih hrest]

/-- Collapsed text has no two spaces next to each other. -/
theorem not_infix_collapse (t : Text) : ¬[' ', ' '] <:+: t.collapse := by
  rw [collapse_eq_render, close_eq_regap]
  exact not_infix_render fun _ => isBlank_of_mem_regap fun _ => isBlank_of_mem_spotsFrom

/-- The pass over the colons of slices, from a text without open brackets on. -/
def sliceColons? (text : Text) : Option Text :=
  sliceColonsFrom? [] [] text

def keywordArguments? (text : Text) : Option Text :=
  keywordArgumentsFrom? ⟨[], []⟩ none text

/-- **What the passes by bracket leave.** On every text both passes run without ever asking for the
top of an empty stack, and take nothing but spaces out. After the pass over slices no colon right
inside `[` has a space next to it. If the text has no two spaces next to each other, then after the
pass over keyword arguments each equals sign between two spaces right inside `(` comes after a colon
of its argument, or right after one of four signs. -/
theorem passes_by_bracket {text : Text} (hspaced : ¬[' ', ' '] <:+: text) :
    (sliceColons? text = some (sliceColons text) ∧
        keywordArguments? text = some (keywordArguments text)) ∧
      (SpacesTaken text (sliceColons text) ∧ SpacesTaken text (keywordArguments text)) ∧
      (∀ before after, sliceColons text = before ++ ':' :: after →
        (openBrackets before).head? = some '[' →
          before.getLast? ≠ some ' ' ∧ after.head? ≠ some ' ') ∧
      ∀ before after, keywordArguments text = before ++ ' ' :: '=' :: ' ' :: after →
        (openBrackets before).head? = some '(' →
          Annotated before ∨ ∃ c ∈ ['=', '!', '<', '>'], before.getLast? = some c := by
  have hempty : SlicesTight [] := fun before after hsplit _ => by simp at hsplit
  exact ⟨⟨sliceColonsFrom?_eq [] [] text, keywordArgumentsFrom?_eq [] none text⟩,
    ⟨spacesTaken_sliceColonsFrom [] [] text, spacesTaken_keywordArgumentsFrom [] none text⟩,
    @slicesTight_sliceColonsFrom [] [] rfl hempty text,
    fun before after => annotated_or_of_kept hspaced⟩

/-- The argument without annotation is drawn together, and the one with an annotation is not. -/
theorem passes_by_bracket_call :
    ∃ text : Text, ¬[' ', ' '] <:+: text ∧
      sliceColons text = "f(a = 1, b: t = c[1:2]) = d".toList ∧
      keywordArguments text = "f(a=1, b: t = c[1 : 2]) = d".toList ∧
      (Annotated "f(a=1, b: t".toList ∨
        ∃ c ∈ ['=', '!', '<', '>'], "f(a=1, b: t".toList.getLast? = some c) := by
  have hspaced := not_infix_collapse "f(a =  1, b: t = c[1 :  2]) = d ".toList
  obtain ⟨_, _, _, hkept⟩ := passes_by_bracket hspaced
  refine ⟨_, hspaced, by decide +kernel, by decide +kernel, ?_⟩
  exact hkept "f(a=1, b: t".toList "c[1 : 2]) = d".toList (by decide +kernel) (by decide +kernel)

end SourceLayout.Spacing
