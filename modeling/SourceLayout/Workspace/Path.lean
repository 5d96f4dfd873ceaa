import SourceLayout.Text.Basic

/-!
# Paths

A path is a root and its components. Empty components and single dots are dropped when a text is
read; double dots stay until a path is resolved.
-/

namespace SourceLayout

structure Path where
  /-- Empty for a relative path; two slashes at the head of a text are kept apart from one. -/
  root : Text := []
  parts : List Text := []
  deriving DecidableEq, Repr

namespace Path

def ofText (text : Text) : Path :=
  let slashes := (text.takeWhile (· == '/')).length
  let root : Text := if slashes = 0 then [] else if slashes = 2 then ['/', '/'] else ['/']
  ⟨root, (Text.cutAt (· == '/') text).filter fun part => !part.isEmpty && part != ['.']⟩

def ofString (text : String) : Path :=
  ofText text.toList

def isAbsolute (path : Path) : Bool :=
  !path.root.isEmpty

def text (path : Path) : Text :=
  match path.root ++ ['/'].intercalate path.parts with
  | [] => ['.']
  | text => text

def string (path : Path) : String :=
  String.ofList path.text

/-- A path below another one; an absolute path stands for itself. -/
def join (base path : Path) : Path :=
  if path.isAbsolute then path else ⟨base.root, base.parts ++ path.parts⟩

def child (base : Path) (part : Text) : Path :=
  ⟨base.root, base.parts ++ [part]⟩

def name (path : Path) : Text :=
  path.parts.getLast?.getD []

/-- The last dot of the name and what follows it, unless the dot is the first or last character. -/
def suffix (path : Path) : Text :=
  let tail := (path.name.reverse.takeWhile (· ≠ '.')).reverse
  if tail.isEmpty ∨ path.name.length ≤ tail.length + 1 then [] else '.' :: tail

/-- Components with every double dot and the one before it taken out; above the root is the root. -/
def collapseDots (parts : List Text) : List Text :=
  let step (done : List Text) (part : Text) : List Text :=
    if part = ['.', '.'] then done.drop 1 else part :: done
  (parts.foldl step []).reverse

/-- The absolute path without double dots, seen from a directory. -/
def resolve (current path : Path) : Path :=
  ⟨['/'], collapseDots (current.join path).parts⟩

/-- Whether some component is one that no file can have. -/
def hasNul (path : Path) : Bool :=
  path.parts.any fun part => '\x00' ∈ part

/-- The bytes of a text. -/
def byteSize (text : Text) : Nat :=
  (String.ofList text).utf8ByteSize

/-- The bytes that a component and a whole path may have. -/
def componentLimit : Nat := 255

def textLimit : Nat := 4095

/-- The path as seen from a directory above it. -/
def relativeTo? (base path : Path) : Option Path :=
  if path.root = base.root ∧ base.parts.isPrefixOf path.parts then
    some ⟨[], path.parts.drop base.parts.length⟩
  else none

/-- Order by components, each compared by code points. -/
def partsLe : List Text → List Text → Bool
  | [], _ => true
  | _ :: _, [] => false
  | a :: as, b :: bs => if a = b then partsLe as bs else decide (a < b)

end Path

end SourceLayout
