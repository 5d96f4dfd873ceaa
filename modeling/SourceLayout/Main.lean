import SourceLayout.Command.Run

/-!
# The program

The outer layer reads what a run may look at, runs it, and carries out what the result says. The
exchange with an editor is not part of it, so the language server ends at once.
-/

namespace SourceLayout.Command

/-- What opening a file comes to. -/
def attempt {α : Type} (act : IO α) : IO (Except IO.Error α) :=
  try return .ok (← act) catch error => return .error error

/-- Why a file that could not be opened for writing is not written. -/
def refusalOf (error : IO.Error) : Refusal where
  name := if error matches .permissionDenied .. then "PermissionError" else "OSError"
  reason := toString error

/-- Adds the files at and below a path to a tree. Whether they can be read and written is found out
by opening them. -/
partial def load (tree : Tree) (path : Path) : IO Tree := do
  let place := (← IO.currentDir) / path.string
  if ← place.isDir then
    (← place.readDir).foldlM (fun tree entry => load tree (path.child entry.fileName.toList))
      { tree with directories := path :: tree.directories }
  else if (← place.pathExists) && (tree.bytes? path).isNone then
    let bytes ← attempt (IO.FS.readBinFile place)
    let access ← attempt (IO.FS.Handle.mk place .append)
    return { tree with
      files := (path, bytes.toOption.getD .empty) :: tree.files
      unreadable := if bytes matches .ok _ then tree.unreadable else path :: tree.unreadable
      refusals :=
        match access with
        | .ok _ => tree.refusals
        | .error error => (path, refusalOf error) :: tree.refusals }
  else return tree

/-- All that a run depends on, as far as its arguments ask for it. -/
def gather (arguments : List Text) : IO World := do
  let current := Path.ofString (← IO.currentDir).toString
  let invocation := (Invocation.ofArguments arguments).toOption
  let paths := (invocation.map (·.reads current)).getD []
  let readsInput := (invocation.map (·.readsInput)).getD false
  let environment ← Environment.names.filterMapM fun name => do
    return (← IO.getEnv name).map fun value => (name, value)
  let input ← if readsInput then (← IO.getStdin).readToEnd else pure ""
  return {
    tree := ← paths.foldlM load { directories := [current] }
    current := current
    input := input.toList
    environment := environment
    stamp := toString (← IO.monoMsNow) }

/-- Writes the files that a run has changed. -/
def carryOut (before after : Tree) : IO Unit := do
  for ((_, old), (path, new)) in before.files.zip after.files do
    if old != new then IO.FS.writeBinFile ((← IO.currentDir) / path.string) new

/-- The exit status, with a word on a trouble that was passed on. -/
def Ending.report : Ending → IO UInt32
  | .exit status => return status.toUInt32
  | .raised trouble => do
      IO.eprintln trouble.text
      return 1
  | .unloadable _ => do
      IO.eprintln "The settings cannot be read"
      return 1

end SourceLayout.Command

open SourceLayout Command in
def main (arguments : List String) : IO UInt32 := do
  let arguments := arguments.map String.toList
  let world ← gather arguments
  let result := run world arguments
  IO.print (String.ofList result.progress.output)
  IO.eprint (String.ofList result.progress.errors)
  carryOut world.tree result.progress.tree
  result.ending.report
