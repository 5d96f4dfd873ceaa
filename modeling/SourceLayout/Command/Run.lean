import SourceLayout.Command.Error
import SourceLayout.Command.Invocation
import SourceLayout.Diff.Unified
import SourceLayout.Workspace.Settings

/-!
# Running a command

A run sees a file tree, standard input and its environment, and gives an exit status, what it
writes on its two channels, and the tree as it leaves it.
-/

namespace SourceLayout.Command

/-- How the loop of the language server ends. -/
inductive ServerEnd where
  | stopped
  | interrupted
  | failed (text : String)

/-- All that a run depends on. `stamp`, `trace` and `process` are shown for the time of a log line,
the way to a trouble and the number of the process. -/
structure World where
  tree : Tree
  current : Path
  input : Text := []
  environment : Environment := []
  stamp : String := ""
  trace : String := ""
  process : String := ""
  server : ServerEnd := .stopped

inductive Ending where
  | exit (status : Nat)
  | raised (trouble : Trouble)
  /-- The settings could not be loaded for a reason that is not explained. -/
  | unloadable (error : Settings.LoadError)

/-- What a run has done so far. -/
structure Progress where
  tree : Tree
  output : Text := []
  errors : Text := []

structure Result where
  ending : Ending
  progress : Progress

namespace Progress

def print (progress : Progress) (text : Text) : Progress :=
  { progress with output := progress.output ++ text }

def printLine (progress : Progress) (line : String) : Progress :=
  progress.print (line ++ "\n").toList

def complain (progress : Progress) (line : String) : Progress :=
  { progress with errors := progress.errors ++ (line ++ "\n").toList }

end Progress

/-- The least severity that is logged: that of the command line, else of the environment. -/
def threshold (world : World) (invocation : Invocation) : Severity :=
  let chosen := invocation.logLevel.filter fun level => !level.isEmpty
  let level := chosen.getD
    ((world.environment.get? "CODEBEAUTIFIER_LOG_LEVEL").getD "warning").toList
  match String.ofList (lower level) with
  | "debug" => .debug
  | "info" => .info
  | "error" => .error
  | _ => .warning

/-- Logs the notes that are severe enough. -/
def Progress.log (progress : Progress) (world : World) (least : Severity) (notes : List Note) :
    Progress :=
  (notes.filter fun note => least.rank ≤ note.severity.rank).foldl
    (fun progress note =>
      progress.complain (world.stamp ++ " - " ++ note.channel ++ " - " ++ note.severity.name ++
        " - " ++ note.message))
    progress

/-- The settings file that the command line names, unless its name is empty. -/
def Invocation.config? (invocation : Invocation) : Option Text :=
  invocation.config.filter fun config => !config.isEmpty

def Invocation.workspace? (invocation : Invocation) : Option Text :=
  invocation.workspace.filter fun workspace => !workspace.isEmpty

/-- The settings file that the command line names, as an absolute path. -/
def namedConfig (current : Path) (invocation : Invocation) : Option (Text × Path) :=
  invocation.config?.map fun config => (config, Path.resolve current (.ofText config))

def workspaceRoot (current : Path) (invocation : Invocation) : Path :=
  match invocation.workspace? with
  | some workspace => Path.resolve current (.ofText workspace)
  | none => current

/-- Whether a path named on the command line is one that no file can have. -/
def Invocation.hasBadPath (invocation : Invocation) : Bool :=
  [invocation.workspace?, invocation.config?].any fun name =>
    name.any fun name => (Path.ofText name).hasNul

/-- The paths that a run reads, with all that is below them. -/
def Invocation.reads (current : Path) (invocation : Invocation) : List Path :=
  let settings :=
    match namedConfig current invocation with
    | some (_, path) => [path]
    | none =>
        Settings.fileNames.map fun name => (workspaceRoot current invocation).child name.toList
  match invocation.request with
  | some (.format request) =>
      if request.stdin then settings
      else settings ++ request.paths.map fun path => Path.resolve current (.ofText path)
  | _ => settings

def Invocation.readsInput (invocation : Invocation) : Bool :=
  match invocation.request with
  | some (.format request) => request.stdin
  | _ => false

/-- Why a run has no settings. -/
inductive ContextError where
  | command (error : Error)
  | unloadable (error : Settings.LoadError)

/-- The settings of a run. -/
def settingsOf [Machine] (world : World) (invocation : Invocation) : Except ContextError Settings :=
  let root := workspaceRoot world.current invocation
  let load (named : Option Path) : Except ContextError Settings :=
    match Settings.load world.tree root named with
    | .ok settings => .ok settings
    | .error (.reported diagnostic) =>
        .error (.command
          { kind := .config
            message := diagnostic.render
            hint := diagnostic.hint
            context := [("path", (diagnostic.path.map fun path => .ofText path.toList).getD .null)] })
    | .error error => .error (.unloadable error)
  if invocation.hasBadPath then .error (.unloadable .badPath)
  else
    match namedConfig world.current invocation with
    | none => load none
    | some (config, path) =>
        match world.tree.find world.current path with
        | .found _ => load (some path)
        | .tooLong => .error (.unloadable .pathTooLong)
        | .missing =>
            .error (.command
              { kind := .fileNotFound
                message := "Configuration file not found: " ++ String.ofList config
                hint := some "Check the --config path"
                context := [("path", .ofText path.text)] })

/-- Shows a trouble and exits, or passes it on. -/
def Progress.fail (progress : Progress) (world : World) (verbose : Bool) (trouble : Trouble) :
    Result :=
  match trouble.handle world.environment verbose world.trace with
  | .passedOn => ⟨.raised trouble, progress⟩
  | .shown text => ⟨.exit 1, { progress with errors := progress.errors ++ text.toList }⟩

/-- A file to be formatted: the path it is shown by, the path it has, and its language. -/
structure Item where
  shown : Path
  path : Path
  language : Text

/-- The language forced on all files, unless it is empty. -/
def FormatRequest.forced? (request : FormatRequest) : Option Text :=
  request.language.filter fun language => !language.isEmpty

/-- The files that arguments stand for, and what is wrong with some of them. -/
structure Collected where
  items : List Item := []
  problems : List String := []

def Collected.append (first second : Collected) : Collected where
  items := first.items ++ second.items
  problems := first.problems ++ second.problems

/-- A path with too many bytes ends a run. -/
def pathTooLong (path : Path) : Trouble :=
  .other "OSError" ("[Errno 36] File name too long: " ++ String.ofList path.text.quote)

/-- A file that is named by an argument, or what is wrong with it. -/
def collectFile (settings : Settings) (request : FormatRequest) (argument : Text) (place : Path) :
    Collected :=
  match request.forced?.or (settings.languageFor? (.ofText argument)) with
  | some language => { items := [⟨.ofText argument, place, language⟩] }
  | none => { problems := ["Unsupported file type: " ++ String.ofList argument] }

/-- The files one argument stands for, or what is wrong with it. Files of a directory are taken if
their suffix is known and no pattern excludes them. -/
def collectOne (world : World) (settings : Settings) (request : FormatRequest) (argument : Text) :
    Except Trouble Collected :=
  let path := Path.ofText argument
  match world.tree.find world.current path with
  | .tooLong => .error (pathTooLong path)
  | .missing => .ok { problems := ["Path not found: " ++ String.ofList argument] }
  | .found (.file place _) | .found (.sealed place) =>
      .ok (collectFile settings request argument place)
  | .found (.directory place) =>
      .ok { items := (world.tree.filesBelow place).filterMap fun parts =>
        let shown : Path := ⟨path.root, path.parts ++ parts⟩
        if settings.isExcluded world.current shown then none
        else
          (request.forced?.or (settings.languageFor? shown)).map fun language =>
            ⟨shown, ⟨place.root, place.parts ++ parts⟩, language⟩ }

/-- The files that all arguments stand for. -/
def collect (world : World) (settings : Settings) (request : FormatRequest) :
    Except Trouble Collected :=
  request.paths.foldlM
    (fun found argument => (collectOne world settings request argument).map found.append) {}

/-- The counts of a formatting run. -/
structure Tally where
  changed : Nat := 0
  failed : Nat := 0

/-- What all files of a run share. -/
structure FormatRun where
  world : World
  least : Severity
  options : Options
  request : FormatRequest

def difference (name : String) (before after : Text) : Text :=
  Diff.unified (name ++ " (original)") (name ++ " (formatted)") before after

/-- What a refusal to write a file is named. The name of the file is only told if it could not be
opened. -/
def refused (refusal : Refusal) (shown : Path) : Trouble :=
  .other refusal.name
    (if refusal.left.isSome then refusal.reason
    else refusal.reason ++ ": " ++ String.ofList shown.text.quote)

section

variable [Machine]

/-- Formats one file as it is in the tree now. What is wrong with reading or formatting it is
counted, but a failure of the formatter that is not explained, and one to write the file, end the
run. -/
def FormatRun.file (run : FormatRun) (item : Item) (progress : Progress) (tally : Tally) :
    Except (Trouble × Progress) (Progress × Tally) :=
  let name := item.shown.string
  match (progress.tree.read? item.path).bind String.fromUTF8? with
  | none =>
      .ok (progress.complain ("Error reading " ++ name ++ ": " ++ Settings.unknownDetail),
        { tally with failed := tally.failed + 1 })
  | some content =>
      let text := Text.unifyBreaks content.toList
      let progress := progress.log run.world run.least
        (run.options.formatNotes (some item.language) (some name) text)
      match run.options.format (some item.language) (some name) text with
      | .error failure => .error (.ofFailure failure, progress)
      | .ok outcome =>
          let progress := outcome.errors.foldl
            (fun p error => p.complain ("Error formatting " ++ name ++ ": " ++ error)) progress
          let progress := outcome.warnings.foldl
            (fun p warning => p.printLine ("Warning in " ++ name ++ ": " ++ warning)) progress
          if !outcome.succeeded then .ok (progress, { tally with failed := tally.failed + 1 })
          else if !outcome.changed then .ok (progress, tally)
          else
            let tally := { tally with changed := tally.changed + 1 }
            let progress :=
              if run.request.diff then progress.print (difference name text outcome.text)
              else progress
            if run.request.check then .ok (progress.printLine ("Would reformat " ++ name), tally)
            else if run.request.diff then .ok (progress, tally)
            else
              let bytes := (String.ofList outcome.text).toUTF8
              match progress.tree.write item.path bytes with
              | .error (refusal, tree) =>
                  .error (refused refusal item.shown, { progress with tree := tree })
              | .ok tree =>
                  .ok ({ progress with tree := tree }.printLine ("Formatted " ++ name), tally)

def FormatRun.files (run : FormatRun) :
    List Item → Progress → Tally → Except (Trouble × Progress) (Progress × Tally)
  | [], progress, tally => .ok (progress, tally)
  | item :: items, progress, tally =>
      match run.file item progress tally with
      | .error stopped => .error stopped
      | .ok (progress, tally) => run.files items progress tally

end

/-- Sums a run over files up. -/
def FormatRun.finish (run : FormatRun) (progress : Progress) (tally : Tally) : Result :=
  if run.request.check ∧ 0 < tally.changed then
    ⟨.exit 1, progress.printLine (toString tally.changed ++ " file(s) would be reformatted")⟩
  else
    let progress :=
      if run.request.check then progress.printLine "All files are already formatted"
      else if 0 < tally.changed ∧ !run.request.diff then
        progress.printLine ("Formatted " ++ toString tally.changed ++ " file(s) successfully")
      else progress
    if 0 < tally.failed then
      ⟨.exit 1, progress.complain ("Encountered " ++ toString tally.failed ++ " error(s)")⟩
    else ⟨.exit 0, progress⟩

/-- Formats the files that the arguments stand for. -/
def FormatRun.paths [Machine] (run : FormatRun) (settings : Settings) (verbose : Bool)
    (progress : Progress) : Result :=
  match collect run.world settings run.request with
  | .error trouble => progress.fail run.world verbose trouble
  | .ok ⟨items, problems⟩ =>
      let progress := problems.foldl Progress.complain progress
      if items.isEmpty then
        ⟨.exit (if problems.isEmpty then 0 else 1), progress.printLine "No files to format"⟩
      else
        match run.files items progress { failed := problems.length } with
        | .error (trouble, progress) => progress.fail run.world verbose trouble
        | .ok (progress, tally) => run.finish progress tally

/-- A wrong argument, with the languages as the hint. -/
def invalidArgument (message : String) : Trouble :=
  .command
    { kind := .validation
      message := message
      hint := some ("Use one of: " ++ Language.supportedList) }

/-- Formats standard input. -/
def FormatRun.standardInput [Machine] (run : FormatRun) (verbose : Bool) (progress : Progress) : Result :=
  match run.request.forced? with
  | none => progress.fail run.world verbose (invalidArgument "--stdin requires --language")
  | some language =>
      let text := Text.unifyBreaks run.world.input
      let progress := progress.log run.world run.least
        (run.options.formatNotes (some language) (some "<stdin>") text)
      match run.options.format (some language) (some "<stdin>") text with
      | .error failure => progress.fail run.world verbose (.ofFailure failure)
      | .ok outcome =>
          match outcome.errors with
          | error :: _ =>
              progress.fail run.world verbose (.command { kind := .runtime, message := error })
          | [] =>
              if run.request.check then
                if outcome.changed then ⟨.exit 1, progress.complain "Would reformat <stdin>"⟩
                else ⟨.exit 0, progress⟩
              else if run.request.diff then
                ⟨.exit 0, progress.print (difference "<stdin>" text outcome.text)⟩
              else ⟨.exit 0, progress.print outcome.text⟩

def runFormat [Machine] (world : World) (invocation : Invocation) (settings : Settings)
    (request : FormatRequest) (progress : Progress) : Result :=
  let unknown := request.forced?.filter fun language => !Language.isSupported language
  match unknown with
  | some language =>
      progress.fail world invocation.verbose
        (invalidArgument ("Unsupported language: " ++ String.ofList language))
  | none =>
      let run : FormatRun :=
        { world := world
          least := threshold world invocation
          options := settings.options request.tabSize
            (if request.useTabs then some true else none)
          request := request }
      if request.stdin then run.standardInput invocation.verbose progress
      else run.paths settings invocation.verbose progress

/-- Lists the languages with their families. -/
def runLanguages (progress : Progress) : Result :=
  let line (entry : String × Family) : String :=
    entry.1 ++ String.ofList (List.replicate (12 - entry.1.length) ' ') ++ " " ++ entry.2.name
  ⟨.exit 0, (Language.families.map line).foldl Progress.printLine progress⟩

def runServer (world : World) (invocation : Invocation) (progress : Progress) : Result :=
  let progress := progress.complain
    ("Starting codebeautifier language server (pid=" ++ world.process ++ ")")
  match world.server with
  | .stopped => ⟨.exit 0, progress⟩
  | .interrupted => ⟨.exit 0, progress.complain "Language server interrupted by user."⟩
  | .failed text =>
      progress.fail world invocation.verbose
        (.command { kind := .runtime, message := "Language server stopped unexpectedly: " ++ text })

def helpText : String := "usage: codebeautifier [options] \x7bformat,languages,lsp\x7d ...\n"

def versionText : String := "codebeautifier 0.1.0\n"

/-- Runs a command line. -/
def run [Machine] (world : World) (arguments : List Text) : Result :=
  let progress : Progress := { tree := world.tree }
  match Invocation.ofArguments arguments with
  | .error .usage => ⟨.exit 2, { progress with errors := helpText.toList }⟩
  | .error .help => ⟨.exit 0, progress.print helpText.toList⟩
  | .error .version => ⟨.exit 0, progress.print versionText.toList⟩
  | .ok invocation =>
      match invocation.request with
      | none => ⟨.exit 1, progress.print helpText.toList⟩
      | some request =>
          match settingsOf world invocation with
          | .error (.command error) =>
              progress.fail world invocation.verbose (.command error)
          | .error (.unloadable error) => ⟨.unloadable error, progress⟩
          | .ok settings =>
              match request with
              | .format request => runFormat world invocation settings request progress
              | .languages => runLanguages progress
              | .server => runServer world invocation progress

end SourceLayout.Command
