import SourceLayout.Diff.Blocks
import SourceLayout.Text.LineBreak

/-!
# Unified differences

Matching blocks are turned into a list of changes, grouped with three lines of context, and written
in the unified form. Lines keep their ends, so a last line without one runs into the next.
-/

namespace SourceLayout.Diff

/-- Lines `first.1` up to `first.2` of one text against `second.1` up to `second.2` of the other. -/
structure Change where
  equal : Bool
  first : Nat × Nat
  second : Nat × Nat
  deriving DecidableEq, Repr

/-- The changes up to the ends of both lists, from given places on. -/
def changesFrom (i j lengthA lengthB : Nat) : List Block → List Change
  | [] =>
      if i < lengthA ∨ j < lengthB then [⟨false, (i, lengthA), (j, lengthB)⟩] else []
  | block :: blocks =>
      let next := block.first + block.size
      let next' := block.second + block.size
      let gap :=
        if i < block.first ∨ j < block.second then
          [⟨false, (i, block.first), (j, block.second)⟩]
        else []
      gap ++ ⟨true, (block.first, next), (block.second, next')⟩ ::
        changesFrom next next' lengthA lengthB blocks

def changes (a b : List Text) : List Change :=
  changesFrom 0 0 a.length b.length (blocks a b)

def context : Nat := 3

/-- The last lines of an equal stretch, as context before a change. -/
def Change.ending (change : Change) : Change :=
  { change with
    first := (max change.first.1 (change.first.2 - context), change.first.2)
    second := (max change.second.1 (change.second.2 - context), change.second.2) }

/-- The first lines of an equal stretch, as context after a change. -/
def Change.beginning (change : Change) : Change :=
  { change with
    first := (change.first.1, min change.first.2 (change.first.1 + context))
    second := (change.second.1, min change.second.2 (change.second.1 + context)) }

def trimFirst : List Change → List Change
  | [] => []
  | change :: others => (if change.equal then change.ending else change) :: others

def trimLast : List Change → List Change
  | [] => []
  | [change] => [if change.equal then change.beginning else change]
  | change :: others => change :: trimLast others

/-- Cuts the changes at equal stretches longer than twice the context. -/
def groupFrom (group : List Change) : List Change → List (List Change)
  | [] => [group]
  | change :: others =>
      if change.equal ∧ 2 * context < change.first.2 - change.first.1 then
        (group ++ [change.beginning]) :: groupFrom [change.ending] others
      else groupFrom (group ++ [change]) others

def groups (changes : List Change) : List (List Change) :=
  (groupFrom [] (trimLast (trimFirst changes))).filter fun group =>
    group.any fun change => !change.equal

/-- A range of lines, counted from one; an empty range is named by the line before it. -/
def rangeText (start stop : Nat) : String :=
  match stop - start with
  | 0 => toString start ++ ",0"
  | 1 => toString (start + 1)
  | length => toString (start + 1) ++ "," ++ toString length

def slice (lines : List Text) (range : Nat × Nat) : List Text :=
  (lines.drop range.1).take (range.2 - range.1)

def changeText (a b : List Text) (change : Change) : Text :=
  let marked (mark : Char) (lines : List Text) : Text := lines.flatMap (mark :: ·)
  if change.equal then marked ' ' (slice a change.first)
  else marked '-' (slice a change.first) ++ marked '+' (slice b change.second)

def groupText (a b : List Text) (group : List Change) : Text :=
  match group.head?, group.getLast? with
  | some first, some last =>
      let rangeA := rangeText first.first.1 last.first.2
      let rangeB := rangeText first.second.1 last.second.2
      ("@@ -" ++ rangeA ++ " +" ++ rangeB ++ " @@\n").toList ++ group.flatMap (changeText a b)
  | _, _ => []

/-- The difference of two texts under two titles, empty if they have the same lines. -/
def unified (titleA titleB : String) (textA textB : Text) : Text :=
  let a := Text.brokenLines textA
  let b := Text.brokenLines textB
  match groups (changes a b) with
  | [] => []
  | found =>
      ("--- " ++ titleA ++ "\n+++ " ++ titleB ++ "\n").toList ++ found.flatMap (groupText a b)

end SourceLayout.Diff
