import SourceLayout.Editor.Uri
import SourceLayout.Language
import SourceLayout.Text.LineBreak

/-!
# Open documents

A document is the text an editor shows, with what is known of its file. Positions are a row and a
column; one that lies outside the text stands for the nearest place in it.
-/

namespace SourceLayout

structure Position where
  row : Int
  column : Int
  deriving DecidableEq, Repr

/-- A change to a document: another text, or another text between two positions. -/
inductive Change where
  | whole (text : Text)
  | ranged (start stop : Position) (text : Text)
  deriving DecidableEq, Repr

structure Document where
  text : Text
  version : Int
  /-- The language as the editor names it, in normal form. -/
  language : Text
  path : Path
  /-- The lines the text is shown as. -/
  lines : List Text
  /-- Where the rows of the text start. -/
  offsets : List Nat
  deriving DecidableEq, Repr

namespace Document

/-- The lines a text is shown as; an empty one shows one line. -/
def linesOf (text : Text) : List Text :=
  match (Text.brokenLines text).map Text.dropBreak with
  | [] => [[]]
  | lines => lines

/-- Where a row starts after each line end of a text that stands at `place`. A line end is a line
feed, a carriage return or both. -/
def startsAfter (place : Nat) : Text → List Nat
  | [] => []
  | '\r' :: '\n' :: cs => (place + 2) :: startsAfter (place + 2) cs
  | c :: cs =>
      if Text.isRowEnd c then (place + 1) :: startsAfter (place + 1) cs
      else startsAfter (place + 1) cs

/-- Where the rows of a text start; the first one starts with it. -/
def offsetsOf (text : Text) : List Nat :=
  0 :: startsAfter 0 text

def make (uri language : Text) (version : Int) (text : Text) : Document where
  text := text
  version := version
  language := Language.normalize language
  path := Uri.pathOf uri
  lines := linesOf text
  offsets := offsetsOf text

/-- Puts another text and version into a document. Lines and offsets are worked out anew. -/
def update (document : Document) (text : Text) (version : Int) : Document :=
  { document with
    text := text
    version := version
    lines := linesOf text
    offsets := offsetsOf text }

/-- The language the document is formatted as: the editor's, or else that of the file's suffix. -/
def effective? (document : Document) : Option Text :=
  if Language.isSupported document.language then some document.language
  else Language.ofSuffix? [] document.path.suffix

/-- A number moved into the range from zero to `most`. -/
def clamp (most : Nat) (n : Int) : Nat :=
  min n.toNat most

/-- The columns of a row, the line ends it ends with left out. -/
def rowWidth (row : Text) : Nat :=
  (row.reverse.dropWhile Text.isRowEnd).length

/-- The place of a position in the text, found with the offsets of its rows. -/
def offsetAt (document : Document) (position : Position) : Nat :=
  let last := document.offsets.length - 1
  let index := clamp last position.row
  let start := document.offsets.getD index 0
  let stop :=
    if index < last then document.offsets.getD (index + 1) 0 else document.text.length
  start + clamp (rowWidth ((document.text.take stop).drop start)) position.column

/-- The document after a change. The version changes only when all changes are made. -/
def apply (document : Document) : Change → Document
  | .whole text => document.update text document.version
  | .ranged start stop text =>
      document.update
        (document.text.take (document.offsetAt start) ++ text ++
          document.text.drop (document.offsetAt stop))
        document.version

/-- Changes made one after the other, each seen from the text the one before it left. -/
def applyAll (document : Document) (changes : List Change) : Document :=
  changes.foldl apply document

end Document

end SourceLayout
