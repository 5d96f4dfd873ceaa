import Mathlib.Order.Bounds.Basic
import SourceLayout.Proofs.Depth

/-!
# The depth in closed form

A closing brace too many counts for nothing, so a depth depends on all the braces before it and not
only on how many there are of each. Each closing brace that is passed over takes the height one below
the lowest height so far. Hence the depth is at every place the height less the lowest height that
has been reached, and only the braces of the lines tell it, wherever the lines are cut.
-/

namespace SourceLayout.Indent

/-- The heights that a text reaches, the one at its start and the one after each character. -/
def heights (t : Text) : Set Int :=
  {reached | ∃ front, front <+: t ∧ height front = reached}

theorem heights_nil : heights [] = {0} := by
  ext reached
  simp [heights, eq_comm]

theorem heights_append_singleton (t : Text) (c : Char) :
    heights (t ++ [c]) = insert (height (t ++ [c])) (heights t) := by
  ext reached
  simp only [heights, List.prefix_concat_iff, Set.mem_insert_iff, Set.mem_ofPred_eq]
  constructor
  · rintro ⟨front, rfl | hfront, rfl⟩
    · exact .inl rfl
    · exact .inr ⟨front, hfront, rfl⟩
  · rintro (rfl | ⟨front, hfront, rfl⟩)
    · exact ⟨t ++ [c], .inl rfl, rfl⟩
    · exact ⟨front, .inr hfront, rfl⟩

/-- One more character leaves the depth as far above the lowest height as the text has come. -/
theorem isLeast_heights_append {t : Text} {depth : Nat}
    (h : IsLeast (heights t) (height t - depth)) (c : Char) :
    IsLeast (heights (t ++ [c])) (height (t ++ [c]) - depthAfter depth c) := by
  have hlowest : height (t ++ [c]) - depthAfter depth c =
      min (height (t ++ [c])) (height t - depth) := by
    rw [depthAfter_eq_max, height_append]
    omega
  rw [heights_append_singleton, hlowest]
  exact h.insert _

/-- From no depth on, the depth is the height above the lowest one. -/
theorem isLeast_heights_foldl (t : Text) :
    IsLeast (heights t) (height t - (t.foldl depthAfter 0 : Nat)) := by
  induction t using List.reverseRecOn with
  | nil => simp [heights_nil]
  | append_singleton t c ih =>
      rw [List.foldl_append]
      exact isLeast_heights_append ih c

/-- The braces of some lines that count for the depth, in their order. -/
def bracesOf (family : Family) (lines : List Text) : Text :=
  braces (lines.flatMap (Literal.bareCode family))

theorem foldl_advance (family : Family) (depth : Nat) (lines : List Text) :
    lines.foldl (advance family) depth = (bracesOf family lines).foldl depthAfter depth := by
  rw [bracesOf, ← foldl_depthAfter_braces, List.foldl_flatMap]
  rfl

/-- **The depth in closed form.** The depth after any lines is the height of their braces less the
lowest height that the first so many of these braces reach. Hence lines with the same braces, however
these are spread over the lines, lead to the same depth; and no brace is open after the lines just if
no height was lower than the last one. -/
theorem foldl_advance_eq_sub_lowest (family : Family) (lines : List Text) :
    (∃ lowest, IsLeast (heights (bracesOf family lines)) lowest ∧
        ((lines.foldl (advance family) 0 : Nat) : Int) =
          height (bracesOf family lines) - lowest) ∧
      (∀ (family' : Family) (lines' : List Text),
        bracesOf family' lines' = bracesOf family lines →
          lines'.foldl (advance family') 0 = lines.foldl (advance family) 0) ∧
      (lines.foldl (advance family) 0 = 0 ↔
        IsLeast (heights (bracesOf family lines)) (height (bracesOf family lines))) := by
  have hleast := isLeast_heights_foldl (bracesOf family lines)
  rw [← foldl_advance] at hleast
  refine ⟨⟨_, hleast, by omega⟩, fun family' lines' hbraces => ?_, fun hzero => ?_, fun hlast => ?_⟩
  · rw [foldl_advance, foldl_advance, hbraces]
  · rwa [hzero, Int.ofNat_zero, Int.sub_zero] at hleast
  · have hsame := hleast.unique hlast
    omega

/-- Two closing braces are passed over, one at the start and one later on, and the brace in quotes
does not count. -/
theorem foldl_advance_eq_sub_lowest_cut :
    ["\x7d \x7b".toList, "\x7d\x7d '\x7b' \x7b".toList, "\x7b\x7b".toList].foldl
        (advance .javascript) 0 = 3 ∧
      bracesOf .cFamily ["\x7d\x7b\x7d\x7d\x7b\x7b\x7b".toList] = bracesOf .javascript
        ["\x7d \x7b".toList, "\x7d\x7d '\x7b' \x7b".toList, "\x7b\x7b".toList] ∧
      ["\x7d\x7b\x7d\x7d\x7b\x7b\x7b".toList].foldl (advance .cFamily) 0 = 3 := by
  obtain ⟨_, hsame, _⟩ := foldl_advance_eq_sub_lowest .javascript
    ["\x7d \x7b".toList, "\x7d\x7d '\x7b' \x7b".toList, "\x7b\x7b".toList]
  have hbraces : bracesOf .cFamily ["\x7d\x7b\x7d\x7d\x7b\x7b\x7b".toList] = bracesOf .javascript
      ["\x7d \x7b".toList, "\x7d\x7d '\x7b' \x7b".toList, "\x7b\x7b".toList] := by
    decide +kernel
  have hdepth : ["\x7d \x7b".toList, "\x7d\x7d '\x7b' \x7b".toList, "\x7b\x7b".toList].foldl
      (advance .javascript) 0 = 3 := by
    decide +kernel
  exact ⟨hdepth, hbraces, (hsame .cFamily _ hbraces).trans hdepth⟩

end SourceLayout.Indent
