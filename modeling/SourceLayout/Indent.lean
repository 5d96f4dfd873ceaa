import SourceLayout.Literal.Basic

/-!
# Indentation

A line's level is read off its leading white space, or off the braces that are open before it.
-/

namespace SourceLayout

/-- One level of indentation: a text a number of times over. -/
structure IndentUnit where
  text : Text
  times : Nat := 1
  deriving DecidableEq, Repr

def IndentUnit.length (unit : IndentUnit) : Nat :=
  unit.times * unit.text.length

/-- So many levels of indentation. -/
def IndentUnit.levels (unit : IndentUnit) (count : Nat) : Text :=
  (List.replicate (count * unit.times) unit.text).flatten

namespace Indent

/-- Columns of leading white space; a tab counts as one unit. -/
def width (unit : Int) (line : Text) : Int :=
  line.indentation.foldr (fun c columns => (if c = '\t' then unit else 1) + columns) 0

/-- How often a unit fits into the leading white space. There is no level for the unit zero. -/
def level? (unit : Int) (line : Text) : Option Int :=
  if unit = 0 then none else some ((width unit line).fdiv unit)

def level (family : Family) (line : Text) : Nat :=
  ((width family.unitWidth line).fdiv family.unitWidth).toNat

/-- No line with text in it has leading white space. -/
def isFlat (lines : List Text) : Bool :=
  lines.all fun line => line.isEmptyLine || line.indentation.isEmpty

/-- Lines for the preprocessor keep their place and do not count for the depth. -/
def isDirective (line : Text) : Bool :=
  line.startsWith ['#']

/-- The level of a line when `depth` braces are open before it. -/
def levelAt (depth : Nat) (line : Text) : Nat :=
  if line.startsWith ['}'] then depth - 1 else depth

/-- The depth after one character; a closing brace too many counts for nothing. -/
def depthAfter (depth : Nat) (c : Char) : Nat :=
  if c = '{' then depth + 1
  else if c = '}' then depth - 1
  else depth

/-- The depth after a line; braces in literals and comments do not count. -/
def advance (family : Family) (depth : Nat) (line : Text) : Nat :=
  (Literal.bareCode family line).foldl depthAfter depth

end Indent

end SourceLayout
