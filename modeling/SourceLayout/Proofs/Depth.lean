import Mathlib.Data.List.Infix
import SourceLayout.Indent

/-!
# The depth of braces

Only the braces of a text count for the depth, and where none closes what was not open, the depth
after them is the height they reach: one up for each opening brace and one down for each closing one.
-/

namespace SourceLayout.Indent

def isBrace (c : Char) : Bool :=
  c == '{' || c == '}'

/-- A class that has neither brace has no brace. -/
theorem isBrace_eq_false {p : Char → Bool} (hopen : p '{' = false) (hclose : p '}' = false)
    {c : Char} (hc : p c = true) : isBrace c = false := by
  rw [Bool.eq_false_iff]
  intro hbrace
  simp only [isBrace, Bool.or_eq_true, beq_iff_eq] at hbrace
  rcases hbrace with rfl | rfl
  · simp [hopen] at hc
  · simp [hclose] at hc

/-- The braces of a text, in their order. -/
def braces (t : Text) : Text :=
  t.filter isBrace

theorem braces_append (left right : Text) : braces (left ++ right) = braces left ++ braces right :=
  List.filter_append left right

theorem braces_cons (c : Char) (t : Text) : braces (c :: t) = braces [c] ++ braces t :=
  braces_append [c] t

theorem braces_eq_nil {t : Text} (h : ∀ c ∈ t, isBrace c = false) : braces t = [] :=
  List.filter_eq_nil_iff.mpr fun c hc => by simp [h c hc]

theorem depthAfter_of_not_isBrace {c : Char} (hc : isBrace c = false) (depth : Nat) :
    depthAfter depth c = depth := by
  simp only [isBrace, Bool.or_eq_false_iff, beq_eq_false_iff_ne] at hc
  rw [depthAfter, if_neg hc.1, if_neg hc.2]

theorem foldl_depthAfter_braces (depth : Nat) (t : Text) :
    t.foldl depthAfter depth = (braces t).foldl depthAfter depth := by
  induction t generalizing depth with
  | nil => rfl
  | cons c cs ih =>
      cases hc : isBrace c with
      | false =>
          rw [List.foldl_cons, depthAfter_of_not_isBrace hc, ih, braces, braces,
            List.filter_cons_of_neg (by simp [hc])]
      | true => rw [List.foldl_cons, ih, braces, braces, List.filter_cons_of_pos hc, List.foldl_cons]

/-- Texts with the same braces have the same effect on every depth. -/
theorem advance_congr {family : Family} {line line' : Text}
    (hbraces : braces (Literal.bareCode family line) = braces (Literal.bareCode family line'))
    (depth : Nat) : advance family depth line = advance family depth line' := by
  rw [advance, advance, foldl_depthAfter_braces, hbraces, ← foldl_depthAfter_braces]

/-! ### Heights -/

/-- Opening braces less closing ones. -/
def height (t : Text) : Int :=
  t.count '{' - t.count '}'

@[simp]
theorem height_nil : height [] = 0 :=
  rfl

@[simp]
theorem height_append (left right : Text) : height (left ++ right) = height left + height right := by
  simp only [height, List.count_append]
  omega

/-- From a height on, no brace closes what is not open. -/
def NeverBelow (start : Int) (t : Text) : Prop :=
  ∀ front, front <+: t → 0 ≤ start + height front

instance (start : Int) (t : Text) : Decidable (NeverBelow start t) :=
  decidable_of_iff (∀ front ∈ t.inits, 0 ≤ start + height front) (by simp [NeverBelow])

theorem neverBelow_nil {start : Int} : NeverBelow start [] ↔ 0 ≤ start := by
  simp [NeverBelow]

/-- Going on is as high up as the height that has been reached. -/
theorem neverBelow_append {start : Int} {left right : Text} :
    NeverBelow start (left ++ right) ↔
      NeverBelow start left ∧ NeverBelow (start + height left) right := by
  constructor
  · intro h
    refine ⟨fun front hfront => h front (hfront.trans (List.prefix_append left right)),
      fun front hfront => ?_⟩
    have hlonger := h (left ++ front) (List.prefix_append_right_inj left |>.mpr hfront)
    rw [height_append] at hlonger
    omega
  · rintro ⟨hleft, hright⟩ front hfront
    obtain ⟨after, hafter⟩ := hfront
    rcases List.append_eq_append_iff.mp hafter with ⟨more, hsplit, _⟩ | ⟨more, rfl, hsplit⟩
    · exact hleft front ⟨more, hsplit.symm⟩
    · have hlonger := hright more ⟨after, hsplit.symm⟩
      rw [height_append]
      omega

/-- Lines never go below if every line does not, from the height that the lines before it reach. -/
theorem neverBelow_flatMap {α : Type} (f : α → Text) {start : Int} (lines : List α) :
    NeverBelow start (lines.flatMap f) ↔ 0 ≤ start ∧ ∀ place line, lines[place]? = some line →
      NeverBelow (start + height ((lines.take place).flatMap f)) (f line) := by
  induction lines generalizing start with
  | nil => simp [neverBelow_nil]
  | cons first lines ih =>
      rw [List.flatMap_cons, neverBelow_append, ih]
      constructor
      · rintro ⟨hfirst, hheight, hlines⟩
        refine ⟨by simpa using hfirst [] List.nil_prefix, fun place line hline => ?_⟩
        cases place with
        | zero =>
            obtain rfl : first = line := Option.some.inj hline
            simpa using hfirst
        | succ place =>
            have hlater := hlines place line hline
            rwa [Int.add_assoc, ← height_append, ← List.flatMap_cons] at hlater
      · rintro ⟨_, hlines⟩
        have hfirst : NeverBelow start (f first) := by simpa using hlines 0 first rfl
        refine ⟨hfirst, hfirst (f first) List.prefix_rfl, fun place line hline => ?_⟩
        have hlater := hlines (place + 1) line hline
        rwa [List.take_succ_cons, List.flatMap_cons, height_append, ← Int.add_assoc] at hlater

@[simp]
theorem height_replicate_open (count : Nat) : height (List.replicate count '{') = count := by
  simp [height, List.count_replicate]

@[simp]
theorem height_replicate_close (count : Nat) : height (List.replicate count '}') = -count := by
  simp [height, List.count_replicate]

/-- Where the closing braces come first, the height after them is the lowest. -/
theorem neverBelow_replicate {start : Int} (closings openings : Nat) :
    NeverBelow start (List.replicate closings '}' ++ List.replicate openings '{') ↔
      (closings : Int) ≤ start := by
  rw [neverBelow_append, height_replicate_close]
  constructor
  · rintro ⟨_, hopen⟩
    have hlow := hopen [] List.nil_prefix
    rw [height_nil] at hlow
    omega
  · intro hle
    constructor
    · intro front hfront
      obtain ⟨_, hreplicate⟩ := List.prefix_replicate_iff.mp hfront
      rw [hreplicate, height_replicate_close]
      omega
    · intro front hfront
      obtain ⟨_, hreplicate⟩ := List.prefix_replicate_iff.mp hfront
      rw [hreplicate, height_replicate_open]
      omega

/-- A brace counts for its height, but nothing goes below zero. -/
theorem depthAfter_eq_max (depth : Nat) (c : Char) :
    (depthAfter depth c : Int) = max (depth + height [c]) 0 := by
  rw [depthAfter]
  by_cases hopen : c = '{'
  · subst hopen
    have hheight : height ['{'] = 1 := by decide
    rw [if_pos rfl, hheight]
    omega
  · by_cases hclose : c = '}'
    · subst hclose
      have hheight : height ['}'] = -1 := by decide
      rw [if_neg hopen, if_pos rfl, hheight]
      omega
    · have hheight : height [c] = 0 := by simp [height, hopen, hclose]
      rw [if_neg hopen, if_neg hclose, hheight]
      omega

theorem depthAfter_eq {depth : Nat} {c : Char} (h : 0 ≤ (depth : Int) + height [c]) :
    (depthAfter depth c : Int) = depth + height [c] := by
  rw [depthAfter_eq_max]
  exact Int.max_eq_left h

/-- Where no brace closes too much, none is passed over. -/
theorem NeverBelow.foldl_depthAfter {depth : Nat} {t : Text} (h : NeverBelow depth t) :
    ((t.foldl depthAfter depth : Nat) : Int) = depth + height t := by
  induction t generalizing depth with
  | nil => simp
  | cons c cs ih =>
      have hfirst := depthAfter_eq (h [c] (by simp))
      have hrest : NeverBelow (depthAfter depth c : Nat) cs := by
        rw [hfirst]
        exact ((@neverBelow_append depth [c] cs).mp h).2
      have hsplit : height (c :: cs) = height [c] + height cs := height_append [c] cs
      rw [List.foldl_cons, ih hrest, hfirst, hsplit]
      omega

end SourceLayout.Indent
