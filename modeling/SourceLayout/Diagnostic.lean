import SourceLayout.Literal.Restore
import SourceLayout.Value.Basic

/-!
# Diagnostics

A diagnostic is a failure that is explained to the user, with the place it belongs to, a code and a
hint as far as they are known. Other failures have no place to be reported at.
-/

namespace SourceLayout

namespace Diagnostic

inductive Kind where
  | general
  | unsupportedLanguage
  | invalidConfig
  deriving DecidableEq, Repr

/-- The code a kind of diagnostic has unless it is given another one. -/
def Kind.code? : Kind → Option String
  | .general => none
  | .unsupportedLanguage => some "unsupported-language"
  | .invalidConfig => some "invalid-config"

end Diagnostic

structure Diagnostic where
  kind : Diagnostic.Kind
  message : String
  path : Option String := none
  line : Option Int := none
  column : Option Int := none
  code : Option String := kind.code?
  hint : Option String := none

namespace Diagnostic

/-- A text that is there and not empty. -/
def filled? (text : Option String) : Option String :=
  text.filter fun s => !s.isEmpty

/-- The place, with line and column as far as they are known. -/
def describe (d : Diagnostic) : String :=
  match filled? d.path with
  | none => "unknown location"
  | some path =>
      match d.line, d.column with
      | some line, some column => path ++ ":" ++ toString line ++ ":" ++ toString column
      | some line, none => path ++ ":" ++ toString line
      | none, _ => path

/-- Names the file, unless the diagnostic already names one. -/
def withPath (d : Diagnostic) (path : String) : Diagnostic :=
  { d with path := d.path.or (some path) }

/-- The whole text: the message, place and code in parentheses, and the hint. -/
def render (d : Diagnostic) : String :=
  let place := (filled? d.path).map fun _ => d.describe
  let details := [place, filled? d.code].filterMap id
  let text :=
    if details.isEmpty then d.message else d.message ++ " (" ++ "; ".intercalate details ++ ")"
  match filled? d.hint with
  | none => text
  | some hint => text ++ " Hint: " ++ hint

/-- A language no family belongs to. -/
def unsupported (language : String) (supported : List String) (path : Option String) :
    Diagnostic where
  kind := .unsupportedLanguage
  message := "Unsupported language: " ++ language
  path := path
  hint := if supported.isEmpty then none
    else some ("Supported languages: " ++ ", ".intercalate supported)

/-- A diagnostic at a place. A code that is not given is that of the kind. -/
def located (kind : Kind) (message : String) (path : Option String) (line column : Option Int)
    (code hint : Option String) : Diagnostic where
  kind := kind
  message := message
  path := path
  line := line
  column := column
  code := code.or kind.code?
  hint := hint

/-- An option or a configuration that cannot be used. -/
def invalid (message : String) (path hint : Option String) : Diagnostic where
  kind := .invalidConfig
  message := message
  path := path
  hint := hint

end Diagnostic

/-- The texts that indentation makes long. -/
inductive Part where
  | unit
  /-- The levels of one line. -/
  | indentation
  /-- One line behind another text. -/
  | line
  | document
  deriving DecidableEq, Repr

/-- Whatever keeps a text from being formatted. -/
inductive Failure where
  | reported (diagnostic : Diagnostic)
  | restore (error : Literal.RestoreError)
  /-- A text would be longer than any that can be addressed. -/
  | tooLong (part : Part)
  | outOfMemory
  /-- A value that cannot be used cannot be shown either. -/
  | beyond (limit : Limit)

end SourceLayout
