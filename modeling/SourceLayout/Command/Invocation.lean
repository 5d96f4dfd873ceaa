import SourceLayout.Command.Arguments

/-!
# Invocations

What a command line asks for. Options before the command belong to the whole run, those after it to
the command.
-/

namespace SourceLayout.Command

inductive RunOption where
  | help
  | version
  | config
  | verbose
  | workspace
  | logLevel
  deriving DecidableEq, Repr

inductive FormatOption where
  | help
  | check
  | diff
  | language
  | stdin
  | tabSize
  | useTabs
  deriving DecidableEq, Repr

/-- What the command `format` is asked to do. -/
structure FormatRequest where
  paths : List Text := [['.']]
  check : Bool := false
  diff : Bool := false
  language : Option Text := none
  stdin : Bool := false
  tabSize : Option Value := none
  useTabs : Bool := false

inductive Request where
  | format (request : FormatRequest)
  | languages
  | server

structure Invocation where
  config : Option Text := none
  verbose : Bool := false
  workspace : Option Text := none
  logLevel : Option Text := none
  request : Option Request := none

open Grammar (Event)

def runGrammar : Grammar RunOption where
  options :=
    [("-h", .help),
      ("--help", .help),
      ("--version", .version),
      ("--config", .config),
      ("--verbose", .verbose),
      ("--workspace", .workspace),
      ("--log-level", .logLevel)]
  takesValue option := option ∈ [RunOption.config, .workspace, .logLevel]
  rest := .command

def formatGrammar : Grammar FormatOption where
  options :=
    [("-h", .help),
      ("--help", .help),
      ("--check", .check),
      ("--diff", .diff),
      ("--language", .language),
      ("--stdin", .stdin),
      ("--tab-size", .tabSize),
      ("--use-tabs", .useTabs)]
  takesValue option := option ∈ [FormatOption.language, .tabSize]
  rest := .stretch

/-- A command without options of its own. -/
def plainGrammar : Grammar Unit where
  options := [("-h", ()), ("--help", ())]
  takesValue _ := false
  rest := .none

def FormatRequest.apply (request : FormatRequest) : Event FormatOption → Except Stop FormatRequest
  | .option .help _ => .error .help
  | .option .check _ => .ok { request with check := true }
  | .option .diff _ => .ok { request with diff := true }
  | .option .language value => .ok { request with language := value }
  | .option .stdin _ => .ok { request with stdin := true }
  | .option .tabSize none => .ok { request with tabSize := some (.list []) }
  | .option .tabSize (some text) =>
      match wholeNumber? text with
      | some size => .ok { request with tabSize := some (.int size) }
      | none => .error .usage
  | .option .useTabs _ => .ok { request with useTabs := true }
  | .rest [] => .ok request
  | .rest paths => .ok { request with paths := paths }

def logLevels : List String :=
  ["debug", "info", "warn", "error"]

/-- The request of a command with its arguments, and the arguments it leaves over. -/
def requestOf (name : Text) (arguments : List Text) : Except Stop (Request × List Text) :=
  let plain (request : Request) : Except Stop (Request × List Text) := do
    let (_, extras) ← plainGrammar.run (fun _ _ => .error .help) () arguments
    return (request, extras)
  match String.ofList name with
  | "format" => do
      let (request, extras) ← formatGrammar.run FormatRequest.apply {} arguments
      return (.format request, extras)
  | "languages" => plain .languages
  | "lsp" => plain .server
  | _ => .error .usage

/-- An invocation as far as it has been read, and the arguments its command leaves over. -/
abbrev Invocation.State := Invocation × List Text

def Invocation.apply (state : Invocation.State) : Event RunOption → Except Stop Invocation.State
  | .option .help _ => .error .help
  | .option .version _ => .error .version
  | .option .config value => .ok ({ state.1 with config := value }, state.2)
  | .option .verbose _ => .ok ({ state.1 with verbose := true }, state.2)
  | .option .workspace value => .ok ({ state.1 with workspace := value }, state.2)
  | .option .logLevel value =>
      if value.all fun text => logLevels.any fun level => level.toList == text then
        .ok ({ state.1 with logLevel := value }, state.2)
      else .error .usage
  | .rest [] => .error .usage
  | .rest (name :: arguments) => do
      let (request, extras) ← requestOf name arguments
      return ({ state.1 with request := some request }, state.2 ++ extras)

/-- Reads a whole command line; arguments that are left over are refused. -/
def Invocation.ofArguments (arguments : List Text) : Except Stop Invocation := do
  let ((invocation, left), extras) ← runGrammar.run Invocation.apply ({}, []) arguments
  if left.isEmpty ∧ extras.isEmpty then return invocation else .error .usage

end SourceLayout.Command
