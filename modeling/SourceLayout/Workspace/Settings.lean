import SourceLayout.Language
import SourceLayout.Options
import SourceLayout.Toml.Document
import SourceLayout.Workspace.Glob
import SourceLayout.Workspace.Tree

/-!
# Workspace settings

A workspace may have one settings file, in TOML or in JSON, with formatting defaults, a table of
further suffixes and a list of excluded paths. A section that is absent, empty, zero or false stands
for its default.
-/

namespace SourceLayout

structure Settings where
  root : Path
  insertSpaces : Bool := true
  tabSize : Nat := 4
  finalNewline : Bool := false
  languages : List (Text × Text) := []
  exclude : List Spelling := []
  source : Option Path := none

namespace Settings

/-- Whatever keeps settings from being loaded. -/
inductive LoadError where
  | reported (diagnostic : Diagnostic)
  /-- The file holds a value that is no table. -/
  | noTable
  /-- The file is not UTF-8. -/
  | undecodable
  /-- The path is that of a directory, or of a file that cannot be read. -/
  | directory
  /-- The path, or a component of it, has more bytes than any file's. -/
  | pathTooLong
  /-- The path has a character that no file's path has. -/
  | badPath
  /-- A value is beyond what can be read or shown. -/
  | beyond (limit : Limit)

def fileNames : List String :=
  ["codebeautifier.toml", ".codebeautifierrc"]

/-- A section, if it is there and not empty. -/
def section? (name : String) (entries : Entries) : Option Value :=
  (lookup? name entries).filter Value.isTrue

def invalid {α : Type} (path : String) (message : String) (hint : Option String := none) :
    Except LoadError α :=
  .error (.reported (.invalid message (some path) hint))

/-- Readers do not say why they gave up; messages show this in its place. -/
def unknownDetail : String := "<detail>"

/-- What a value shows as, if it shows as anything. -/
def shown {α : Type} (form : Except Limit α) : Except LoadError α :=
  form.mapError .beyond

/-- The entries of a section that must be a table. -/
def tableSection (path name : String) (entries : Entries) : Except LoadError Entries :=
  match section? name entries with
  | none => .ok []
  | some (.table inner) => .ok inner
  | some _ => invalid path ("[" ++ name ++ "] must be a table")

section

variable [Machine]

def tabSizeOf (path : String) (entries : Entries) : Except LoadError Nat :=
  let value := (lookup? "tab_size" entries).getD (.int 4)
  match value.positive? with
  | some size => .ok size
  | none => do
      invalid path ("'tab_size' must be a positive integer, got " ++ (← shown value.form?))

def flagOf (path key : String) (otherwise : Bool) (entries : Entries) : Except LoadError Bool :=
  match lookup? key entries with
  | none => .ok otherwise
  | some (.bool value) => .ok value
  | some value => do
      invalid path ("'" ++ key ++ "' must be true or false, got " ++ (← shown value.form?))
        (some ("Set [formatting] " ++ key ++ " = true or false"))

end

/-- Suffixes are kept in lower case and with their dot. -/
def suffixKey (suffix : Text) : Text :=
  match lower suffix with
  | '.' :: rest => '.' :: rest
  | key => '.' :: key

/-- The language that a value names, if it is one of those supported. -/
def languageNamed? (spelled : Spelling) : Option Text :=
  (spelled.text?.map Language.normalize).filter fun language =>
    Language.supported.any fun id => id.toList == language

/-- Adds the language of a suffix. A suffix that no path can have is left out. -/
def putLanguage (suffix : Spelling) (language : Text) (found : List (Text × Text)) :
    List (Text × Text) :=
  match suffix.text? with
  | some suffix => putEntry (suffixKey suffix) language found
  | none => found

section

variable [Machine]

def languagesOf (path : String) (entries : Entries) : Except LoadError (List (Text × Text)) :=
  entries.foldlM
    (fun found (suffix, value) => do
      let spelled ← shown value.spelled?
      match languageNamed? spelled with
      | some language => return putLanguage suffix language found
      | none =>
          invalid path
            ("Unsupported language '" ++ String.ofList spelled.shown ++ "' for suffix '" ++
              String.ofList suffix.shown ++ "'")
            (some ("Use one of: " ++ Language.supportedList)))
    []

def excludeOf (entries : Entries) : Except LoadError (List Spelling) :=
  match section? "exclude" entries with
  | some (.text pattern) => .ok [pattern]
  | some (.list values) => values.mapM fun value => shown value.spelled?
  | _ => .ok []

/-- Settings as the entries of a file give them. -/
def ofEntries (root source : Path) (entries : Entries) : Except LoadError Settings := do
  let path := source.string
  let formatting ← tableSection path "formatting" entries
  let tabSize ← tabSizeOf path formatting
  let insertSpaces ← flagOf path "insert_spaces" true formatting
  let finalNewline ← flagOf path "insert_final_newline" false formatting
  let languages ← languagesOf path (← tableSection path "languages" entries)
  let exclude ← excludeOf entries
  return {
    root := root
    insertSpaces := insertSpaces
    tabSize := tabSize
    finalNewline := finalNewline
    languages := languages
    exclude := exclude
    source := some source }

/-- The entries of a settings file. The suffix of its name tells the format. -/
def entriesOf (source : Path) (bytes : ByteArray) : Except LoadError Entries :=
  match String.fromUTF8? bytes with
  | none => .error .undecodable
  | some text =>
      let found :=
        if source.suffix = ".toml".toList then (Toml.read text.toList).map Value.table
        else Json.read text.toList
      match found with
      | .ok (.table entries) => .ok entries
      | .ok _ => .error .noTable
      | .error .malformed =>
          invalid source.string ("Could not parse configuration: " ++ unknownDetail)
      | .error (.beyond limit) => .error (.beyond limit)

end

/-- A path if there is something at it. -/
def existing (tree : Tree) (root path : Path) : Except LoadError (Option Path) :=
  match tree.find root path with
  | .found _ => .ok (some path)
  | .missing => .ok none
  | .tooLong => .error .pathTooLong

/-- The first of some paths that there is something at. -/
def firstExisting (tree : Tree) (root : Path) : List Path → Except LoadError (Option Path)
  | [] => .ok none
  | path :: paths => do
      match ← existing tree root path with
      | some path => return some path
      | none => firstExisting tree root paths

/-- The settings file of a workspace: the one named if it exists, else the first of the usual ones
that does. -/
def locate (tree : Tree) (root : Path) (named : Option Path) : Except LoadError (Option Path) :=
  match named with
  | some path => existing tree root path
  | none => firstExisting tree root (fileNames.map fun name => root.child name.toList)

/-- The settings of a workspace, which are the defaults if it has no file for them. -/
def load [Machine] (tree : Tree) (root : Path) (named : Option Path) : Except LoadError Settings := do
  match ← locate tree root named with
  | none => return { root := root }
  | some path =>
      match tree.find root path with
      | .found (.file _ bytes) => entriesOf path bytes >>= ofEntries root path
      | _ => .error .directory

/-- The language of a path, by its suffix. -/
def languageFor? (settings : Settings) (path : Path) : Option Text :=
  Language.ofSuffix? settings.languages path.suffix

/-- The text of a path that patterns are held against: the path inside the workspace, or the path as
it is given if it lies outside. -/
def matchedText (settings : Settings) (current path : Path) : Text :=
  let inside :=
    if path.hasNul then none else Path.relativeTo? settings.root (Path.resolve current path)
  (inside.getD path).text

/-- Whether some pattern fits the path or its name. -/
def isExcluded (settings : Settings) (current path : Path) : Bool :=
  let text := settings.matchedText current path
  settings.exclude.any fun pattern => Glob.fits pattern text || Glob.fits pattern path.name

/-- The options of a run, with what the command line overrides. -/
def options (settings : Settings) (tabSize : Option Value) (useTabs : Option Bool) : Options where
  style := .ofSpaces ((useTabs.map (!·)).getD settings.insertSpaces)
  tabSize := tabSize.getD (.int settings.tabSize)
  finalNewline := settings.finalNewline

end Settings

end SourceLayout
