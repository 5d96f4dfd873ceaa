import SourceLayout.Workspace.Path

/-!
# File trees

The files and directories a run sees, by absolute paths. Every directory above a file is there, and
every directory can be searched. A file may have further names, and reading or writing it may be
refused; there are no symbolic links.
-/

namespace SourceLayout

/-- Why a file cannot be written. -/
structure Refusal where
  name : String
  reason : String
  /-- The bytes that are in the file afterwards, if it was opened and its own were lost. -/
  left : Option ByteArray := none

structure Tree where
  files : List (Path × ByteArray) := []
  directories : List Path := []
  /-- Further names of files, each with the one that its file is listed by. -/
  links : List (Path × Path) := []
  unreadable : List Path := []
  refusals : List (Path × Refusal) := []

inductive Tree.Node where
  | file (path : Path) (bytes : ByteArray)
  /-- A file that cannot be read. -/
  | sealed (path : Path)
  | directory (path : Path)

namespace Tree

/-- Whether `above` is `below` or lies above it. -/
def isAbove (above below : Path) : Bool :=
  above.parts.isPrefixOf below.parts

/-- The name that the file with a name is listed by. -/
def home (tree : Tree) (path : Path) : List Text :=
  ((tree.links.find? fun link => link.1.parts == path.parts).map fun link => link.2.parts).getD
    path.parts

def bytes? (tree : Tree) (path : Path) : Option ByteArray :=
  (tree.files.find? fun file => file.1.parts == tree.home path).map Prod.snd

def isReadable (tree : Tree) (path : Path) : Bool :=
  tree.unreadable.all fun file => file.parts != tree.home path

/-- The bytes of a file, if it can be read. -/
def read? (tree : Tree) (path : Path) : Option ByteArray :=
  (tree.bytes? path).filter fun _ => tree.isReadable path

def refusal? (tree : Tree) (path : Path) : Option Refusal :=
  (tree.refusals.find? fun refused => refused.1.parts == tree.home path).map Prod.snd

/-- The names of all files. -/
def names (tree : Tree) : List Path :=
  tree.files.map Prod.fst ++ tree.links.map Prod.fst

def isDirectory (tree : Tree) (path : Path) : Bool :=
  path.parts.isEmpty || tree.directories.any (isAbove path) ||
    tree.names.any fun name => isAbove path name && name.parts != path.parts

/-- The node with an absolute path without double dots. -/
def nodeAt? (tree : Tree) (path : Path) : Option Node :=
  match tree.bytes? path with
  | some bytes => some (if tree.isReadable path then .file path bytes else .sealed path)
  | none => if tree.isDirectory path then some (.directory path) else none

/-- What looking for a path comes to. -/
inductive Lookup where
  | found (node : Node)
  | missing
  /-- The path, or a component that was to be looked for, has too many bytes. -/
  | tooLong

/-- Goes from a node along components; only a directory can be gone through. -/
def walk (tree : Tree) : Node → List Text → Lookup
  | node, [] => .found node
  | .file _ _, _ :: _ => .missing
  | .sealed _, _ :: _ => .missing
  | .directory path, part :: parts =>
      if Path.componentLimit < Path.byteSize part then .tooLong
      else
        let next := if part = ['.', '.'] then { path with parts := path.parts.dropLast }
          else path.child part
        match tree.nodeAt? next with
        | none => .missing
        | some node => tree.walk node parts

/-- The node that a path leads to from a directory. -/
def find (tree : Tree) (current path : Path) : Lookup :=
  if path.hasNul then .missing
  else if Path.textLimit < Path.byteSize path.text then .tooLong
  else tree.walk (.directory (if path.isAbsolute then ⟨['/'], []⟩ else current)) path.parts

/-- Puts bytes into a file that is there, under all its names. -/
def put (tree : Tree) (path : Path) (bytes : ByteArray) : Tree :=
  { tree with
    files := tree.files.map fun file =>
      if file.1.parts = tree.home path then (file.1, bytes) else file }

/-- Writes a file that is there. A refusal comes with the tree as it is then. -/
def write (tree : Tree) (path : Path) (bytes : ByteArray) : Except (Refusal × Tree) Tree :=
  match tree.refusal? path with
  | none => .ok (tree.put path bytes)
  | some refusal =>
      .error (refusal, (refusal.left.map (tree.put path)).getD tree)

/-- The names of files below a directory by their components below it, in order. -/
def filesBelow (tree : Tree) (path : Path) : List (List Text) :=
  let below := tree.names.filterMap fun name =>
    if isAbove path name && name.parts != path.parts && (tree.bytes? name).isSome then
      some (name.parts.drop path.parts.length)
    else none
  below.mergeSort Path.partsLe

end Tree

end SourceLayout
