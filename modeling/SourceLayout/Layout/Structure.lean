import SourceLayout.Layout.Blank
import SourceLayout.Layout.Declaration
import SourceLayout.Line

/-!
# Laying out the lines of a document

Each line is tidied and indented, one output line per input line; then the family's structural
pass runs over the result.
-/

namespace SourceLayout.Layout

open Literal (RestoreError)

/-- Continuation lines of a block comment stand one column right of their opener. -/
def shift (family : Family) (tidied : Text) : Text :=
  if (family = .javascript ∨ family = .cFamily) ∧ tidied.startsWith ['*'] ∧
      Comment.isBlockLine tidied then [' ']
  else []

/-- A tidied line at its level. -/
def indented (family : Family) (unit : IndentUnit) (level : Nat) (tidied : Text) : Text :=
  unit.levels level ++ shift family tidied ++ tidied

/-- A line that is ready to be written at its level. -/
structure Slot where
  level : Nat := 0
  text : Text
  deriving DecidableEq, Repr

namespace Slot

def line (family : Family) (unit : IndentUnit) (slot : Slot) : Text :=
  indented family unit slot.level slot.text

/-- The length of the line, without writing it. -/
def length (family : Family) (unit : IndentUnit) (slot : Slot) : Nat :=
  slot.level * unit.length + (shift family slot.text).length + slot.text.length

end Slot

/-- Writes the lines of a document, or stops at the first that could not be tidied. -/
def write (family : Family) (unit : IndentUnit) (slots : List (Except RestoreError Slot)) :
    Except RestoreError (List Text) :=
  slots.mapM fun slot => slot.map (Slot.line family unit)

/-- A line at the level of the width it has. -/
def slotByWidth (family : Family) (language : Option Text) (line : Text) :
    Except RestoreError Slot :=
  if line.isEmptyLine then .ok { text := [] }
  else (Line.tidy family language line.trim).map ({ level := Indent.level family line, text := · })

/-- A line at the level of the braces open before it. Lines for the preprocessor keep to the
margin. -/
def slotAt (family : Family) (language : Option Text) (depth : Nat) (line : Text) :
    Except RestoreError Slot :=
  if line.trim.isEmpty then .ok { text := [] }
  else if family = .cFamily ∧ Indent.isDirective line.trim then .ok { text := line.trim }
  else (Line.tidy family language line.trim).map fun tidied =>
    { level := Indent.levelAt depth tidied, text := tidied }

/-- The depth of braces after a line. -/
def depthPast (family : Family) (depth : Nat) (line : Text) : Nat :=
  if line.trim.isEmpty then depth
  else if family = .cFamily ∧ Indent.isDirective line.trim then depth
  else if Comment.isBlockLine line.trim then depth
  else Indent.advance family depth line.trim

def slotsFrom (family : Family) (language : Option Text) (depth : Nat) :
    List Text → List (Except RestoreError Slot)
  | [] => []
  | line :: lines =>
      slotAt family language depth line ::
        slotsFrom family language (depthPast family depth line) lines

/-- Indents every line by the width it has. -/
def byWidth (family : Family) (language : Option Text) (unit : IndentUnit) (lines : List Text) :
    Except RestoreError (List Text) :=
  write family unit (lines.map (slotByWidth family language))

/-- Indents every line by the braces open before it. -/
def byDepthFrom (family : Family) (language : Option Text) (unit : IndentUnit) (depth : Nat)
    (lines : List Text) : Except RestoreError (List Text) :=
  write family unit (slotsFrom family language depth lines)

def byDepth (family : Family) (language : Option Text) (unit : IndentUnit) (lines : List Text) :
    Except RestoreError (List Text) :=
  byDepthFrom family language unit 0 lines

/-- Whether the depth of braces, and not the width it has, indents a line of the document. -/
def usesDepth (family : Family) (lines : List Text) : Bool :=
  match family with
  | .cFamily => true
  | .javascript => Indent.isFlat lines
  | _ => false

def indent (family : Family) (language : Option Text) (unit : IndentUnit) (lines : List Text) :
    Except RestoreError (List Text) :=
  if usesDepth family lines then byDepth family language unit lines
  else byWidth family language unit lines

/-- The lines of a document, each ready to be written. -/
def slots (family : Family) (language : Option Text) (lines : List Text) :
    List (Except RestoreError Slot) :=
  if usesDepth family lines then slotsFrom family language 0 lines
  else lines.map (slotByWidth family language)

/-- The structural pass over indented lines. -/
def settle (family : Family) (language : Option Text) (lines : List Text) : List Text :=
  match family with
  | .css => spaceBlocks lines
  | .html => lines
  | _ =>
      let squeezed := squeeze lines
      if family = .cFamily ∧ (spans family language squeezed).isEmpty then squeezed
      else align (family.commentMarker?.getD "//".toList) (dropBetweenBraces squeezed)

def document (family : Family) (language : Option Text) (unit : IndentUnit) (lines : List Text) :
    Except RestoreError (List Text) :=
  (indent family language unit lines).map (settle family language)

end SourceLayout.Layout
