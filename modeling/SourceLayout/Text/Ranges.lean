/-!
# Code point ranges

A character class of the standard is stored as sorted, disjoint, inclusive ranges of code points.
-/

namespace SourceLayout

/-- Sorted, disjoint, inclusive ranges of code points. -/
abbrev Ranges := List (Nat × Nat)

/-- Membership stops at the first range that starts above the point. -/
def Ranges.has : Ranges → Nat → Bool
  | [], _ => false
  | (low, high) :: rest, point =>
      if point < low then false
      else if point ≤ high then true
      else Ranges.has rest point

@[simp]
theorem Ranges.has_nil (point : Nat) : Ranges.has [] point = false :=
  rfl

theorem Ranges.has_cons (low high point : Nat) (rest : Ranges) :
    Ranges.has ((low, high) :: rest) point =
      (decide (low ≤ point) && (decide (point ≤ high) || Ranges.has rest point)) := by
  rw [Ranges.has]
  by_cases hlow : point < low
  · simp [hlow, Nat.not_le.mpr hlow]
  · by_cases hhigh : point ≤ high
    · simp [hlow, hhigh, Nat.le_of_not_lt hlow]
    · simp [hlow, hhigh, Nat.le_of_not_lt hlow]

end SourceLayout
