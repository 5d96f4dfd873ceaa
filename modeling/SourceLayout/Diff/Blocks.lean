import SourceLayout.Text.Basic

/-!
# Matching blocks of two lists of lines

The longest common run is found first, the earliest of several; then the lines before it and the
lines after it are matched in the same way. Lines that are frequent in a long second list start no
run, but a run may be extended over them.
-/

namespace SourceLayout.Diff

/-- `size` equal lines, from `first` in one list and from `second` in the other. -/
structure Block where
  first : Nat
  second : Nat
  size : Nat
  deriving DecidableEq, Repr

/-- A line of the first list, with the places of the second one where a run may pass it. -/
structure Line where
  text : String
  places : List Nat
  deriving DecidableEq, Repr

/-- The places of a line in a numbered list, in order. -/
def placesOf (numbered : List (String × Nat)) (line : String) : List Nat :=
  numbered.filterMap fun (other, place) => if other = line then some place else none

/-- Whether a line with so many places is too frequent in a list of 200 lines or more. -/
def isFrequent (length places : Nat) : Bool :=
  200 ≤ length && length / 100 + 1 < places

def linesOf (a b : List String) : List Line :=
  let numbered := b.zipIdx
  a.map fun text =>
    let places := placesOf numbered text
    ⟨text, if isFrequent b.length places.length then [] else places⟩

/-- The runs that end at one line of the first list: the place of their last line in the second
list, and their length. They are in the order of the places. -/
abbrev Runs := List (Nat × Nat)

/-- The runs that end at a line with these places, from the runs that end at the line before. -/
def extendRuns : List Nat → Runs → Runs
  | [], _ => []
  | place :: places, runs =>
      let near := runs.dropWhile fun run => run.1 + 1 < place
      let length :=
        match near.head? with
        | some (last, length) => if last + 1 = place then length + 1 else 1
        | none => 1
      (place, length) :: extendRuns places near

/-- The best block of two, the former if they are of one size. -/
def better (best block : Block) : Block :=
  if best.size < block.size then block else best

/-- The longest run between lines from `index` on and the lines from `low` up to `high`, if it is
longer than the best one so far. -/
def longestRun (low high : Nat) : Nat → Runs → Block → List Line → Block
  | _, _, best, [] => best
  | index, runs, best, line :: lines =>
      let places := (line.places.dropWhile (· < low)).takeWhile (· < high)
      let runs := extendRuns places runs
      let best := runs.foldl
        (fun best (place, size) => better best ⟨index + 1 - size, place + 1 - size, size⟩) best
      longestRun low high (index + 1) runs best lines

/-- How many lines two lists have in common at their heads. -/
def commonLength : List Line → List String → Nat
  | x :: a, y :: b => if x.text = y then commonLength a b + 1 else 0
  | _, _ => 0

/-- The longest run between lines from `first` and `second` on, extended to both sides as far as
lines agree. -/
def longest (first second : Nat) (a : List Line) (b : List String) : Block :=
  let run := longestRun second (second + b.length) first [] ⟨first, second, 0⟩ a
  let before := run.first - first
  let before' := run.second - second
  let back := commonLength (a.take before).reverse (b.take before').reverse
  let ahead := commonLength (a.drop (before + run.size)) (b.drop (before' + run.size))
  ⟨run.first - back, run.second - back, run.size + back + ahead⟩

/-- All blocks between lines from `first` and `second` on, in order. The first argument bounds the
depth of the recursion. -/
def blocksFrom : Nat → Nat → Nat → List Line → List String → List Block
  | 0, _, _, _, _ => []
  | fuel + 1, first, second, a, b =>
      let block := longest first second a b
      if block.size = 0 then []
      else
        let next := block.first + block.size
        let next' := block.second + block.size
        blocksFrom fuel first second (a.take (block.first - first))
            (b.take (block.second - second)) ++
          block :: blocksFrom fuel next next' (a.drop (next - first)) (b.drop (next' - second))

/-- Neighbouring blocks become one. -/
def joinBlocks : List Block → List Block
  | [] => []
  | block :: blocks =>
      match joinBlocks blocks with
      | [] => [block]
      | next :: others =>
          if block.first + block.size = next.first ∧ block.second + block.size = next.second then
            { block with size := block.size + next.size } :: others
          else block :: next :: others

def blocks (a b : List Text) : List Block :=
  let b := b.map String.ofList
  joinBlocks (blocksFrom (a.length + 1) 0 0 (linesOf (a.map String.ofList) b) b)

end SourceLayout.Diff
