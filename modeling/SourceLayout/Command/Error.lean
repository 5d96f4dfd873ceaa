import SourceLayout.Format
import SourceLayout.Text.Case

/-!
# Errors of the command line

Every failure of a command has a code and, as far as they are known, a hint and some context values,
which are shown when details are asked for.
-/

namespace SourceLayout.Command

inductive ErrorKind where
  | general
  | validation
  | runtime
  | fileNotFound
  | config
  deriving DecidableEq, Repr

def ErrorKind.code : ErrorKind → String
  | .general => "CLI_ERROR"
  | .validation => "CLI_VALIDATION_ERROR"
  | .runtime => "CLI_RUNTIME_ERROR"
  | .fileNotFound => "CLI_FILE_NOT_FOUND"
  | .config => "CLI_CONFIG_ERROR"

structure Error where
  kind : ErrorKind
  message : String
  code : String := kind.code
  hint : Option String := none
  context : List (String × Value) := []

/-- An error with a code of its own, unless that is missing or empty. -/
def Error.coded (kind : ErrorKind) (message : String) (code hint : Option String)
    (context : List (String × Value)) : Error where
  kind := kind
  message := message
  code := (Diagnostic.filled? code).getD kind.code
  hint := hint
  context := context

/-- Whatever may end a command. -/
inductive Trouble where
  | command (error : Error)
  | reported (diagnostic : Diagnostic)
  /-- A failure without an explanation of its own, by its name and text. -/
  | other (name text : String)

/-- The text of a trouble alone. -/
def Trouble.text : Trouble → String
  | .command error => error.message
  | .reported diagnostic => diagnostic.message
  | .other _ text => text

/-- What is said of a text that is too long. -/
def overflowText : Part → String
  | .unit => "cannot fit 'int' into an index-sized integer"
  | .indentation => "repeated string is too long"
  | .line => "strings are too large to concat"
  | .document => "join() result is too long for a Python string"

/-- How a failure of the formatter is named. -/
def Trouble.ofFailure : Failure → Trouble
  | .reported diagnostic => .reported diagnostic
  | .restore (.unknownMark number) =>
      .other "IndexError"
        (if number ≤ Options.addressLimit then "list index out of range"
        else "cannot fit 'int' into an index-sized integer")
  | .restore (.numberTooLong digits) =>
      .other "ValueError"
        ("Exceeds the limit (" ++ toString digitLimit ++
          " digits) for integer string conversion: value has " ++ toString digits ++
          " digits; use sys.set_int_max_str_digits() to increase the limit")
  | .tooLong part => .other "OverflowError" (overflowText part)
  | .outOfMemory => .other "MemoryError" ""
  | .beyond .digits =>
      .other "ValueError"
        ("Exceeds the limit (" ++ toString digitLimit ++
          " digits) for integer string conversion; use sys.set_int_max_str_digits() to increase " ++
          "the limit")
  | .beyond .nesting =>
      .other "RecursionError" "maximum recursion depth exceeded while getting the repr of an object"

/-- The lines shown for a trouble. -/
def Trouble.lines (verbose : Bool) : Trouble → List String
  | .command error =>
      let hint := (Diagnostic.filled? error.hint).map ("Hint: " ++ ·)
      let context :=
        if verbose ∧ !error.context.isEmpty then
          "\nContext:" :: error.context.map fun (key, value) => "  " ++ key ++ ": " ++ value.plain
        else []
      ("Error [" ++ error.code ++ "]: " ++ error.message) :: (hint.toList ++ context)
  | .reported diagnostic => ["Error: " ++ diagnostic.render]
  | .other name text => ["Error: " ++ name ++ ": " ++ text]

/-- The text shown for a trouble, with the way that led to it if it is given. -/
def Trouble.render (verbose : Bool) (trace : Option String) (trouble : Trouble) : String :=
  let traced := (trace.map fun trace => ["\nTraceback:", trace]).getD []
  "\n".intercalate (trouble.lines verbose ++ traced)

/-- The variables of the environment with their values. -/
abbrev Environment := List (String × String)

/-- The names a run looks up. -/
def Environment.names : List String :=
  ["CODEBEAUTIFIER_RERAISE", "CODEBEAUTIFIER_DEBUG", "CODEBEAUTIFIER_VERBOSE",
    "CODEBEAUTIFIER_LOG_LEVEL"]

def Environment.get? (environment : Environment) (name : String) : Option String :=
  (environment.find? fun entry => entry.1 == name).map Prod.snd

def Environment.isOn (environment : Environment) (name : String) : Bool :=
  let value := lower (Text.trim ((environment.get? name).getD "").toList)
  ["1", "true", "yes", "on"].any fun word => word.toList == value

/-- How a trouble ends a run: it is passed on to the caller, or its text is shown. -/
inductive Handled where
  | passedOn
  | shown (text : String)

def Trouble.handle (environment : Environment) (verbose : Bool) (trace : String)
    (trouble : Trouble) : Handled :=
  if environment.isOn "CODEBEAUTIFIER_RERAISE" || environment.isOn "CODEBEAUTIFIER_DEBUG" then
    .passedOn
  else
    let detailed := verbose || environment.isOn "CODEBEAUTIFIER_VERBOSE"
    .shown (trouble.render detailed (if detailed then some trace else none) ++ "\n")

/-- The settings of a workspace are asked for before they are loaded. -/
def noContext : Error where
  kind := .config
  message := "CLI context was not initialized before command execution"
  code := "CLI_CONTEXT_NOT_INITIALIZED"
  hint := some "This is an internal error - please report it"

end SourceLayout.Command
