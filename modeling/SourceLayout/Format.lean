import SourceLayout.Layout.Structure
import SourceLayout.Options

/-!
# Formatting a document

`format` is the formatter itself, on texts of any length. `formatWithin` is the formatter on a
machine, which may not have room for the lines once they are indented, nor for all of them in one
text. `Options.format` runs it under options and turns every failure that can be explained into a
result with the text unchanged. What a run reports on the way is given by its notes, in the order
they arise.
-/

namespace SourceLayout

/-- How a missing language is shown. -/
def languageText (language : Option Text) : String :=
  (language.map String.ofList).getD "None"

def unsupportedLanguage (language : Option Text) : Failure :=
  .reported (.unsupported (languageText language) Language.supported none)

def format (language : Option Text) (unit : IndentUnit) (text : Text) : Except Failure Text :=
  match Language.family? (language.getD []) with
  | none => .error (unsupportedLanguage language)
  | some family =>
      let language := Language.normalize (language.getD [])
      match Layout.document family (some language) unit text.lines with
      | .error error => .error (.restore error)
      | .ok lines => .ok (Layout.collapse (Text.ofLines lines))

/-- Writes the lines of a document as far as there is room for them. A line is tidied before it is
indented. -/
def Layout.writeWithin [Machine] (family : Family) (unit : IndentUnit)
    (slots : List (Except Literal.RestoreError Slot)) : Except Failure (List Text) :=
  slots.mapM fun slot => do
    let slot ← slot.mapError .restore
    Options.reserve .indentation (slot.level * unit.length)
    Options.reserve .line (slot.length family unit)
    return slot.line family unit

/-- Formats a text on a machine. Tidying hardly lengthens a text, so room is asked for only where
the indentation comes in. -/
def formatWithin [Machine] (language : Option Text) (unit : IndentUnit) (text : Text) :
    Except Failure Text :=
  match Language.family? (language.getD []) with
  | none => .error (unsupportedLanguage language)
  | some family => do
      let language := Language.normalize (language.getD [])
      let laid ← Layout.writeWithin family unit (Layout.slots family (some language) text.lines)
      let joined := Text.ofLines (Layout.settle family (some language) laid)
      Options.reserve .document joined.length
      return Layout.collapse joined

/-- The result of formatting a document. -/
structure Outcome where
  text : Text
  changed : Bool
  errors : List String := []
  warnings : List String := []

def Outcome.succeeded (outcome : Outcome) : Bool :=
  outcome.errors.isEmpty

namespace Options

section

variable [Machine]

/-- Formats a text with the indentation that the options ask for. -/
def run (options : Options) (language : Option Text) (text : Text) : Except Failure Text :=
  options.unit >>= fun unit => formatWithin language unit text

/-- Ends a text with a line feed if the options ask for one. -/
def finish (options : Options) (formatted : Text) : Except Failure Text :=
  if options.finalNewline && !formatted.isEmpty && !formatted.endsWith ['\n'] then
    (reserve .line (formatted.length + 1)).map fun _ => formatted ++ ['\n']
  else .ok formatted

/-- Formats under options. The path is only named in errors. -/
def format (options : Options) (language : Option Text) (path : Option String) (text : Text) :
    Except Failure Outcome :=
  match options.run language text with
  | .error (.reported diagnostic) =>
      let diagnostic :=
        match Diagnostic.filled? path with
        | some path => diagnostic.withPath path
        | none => diagnostic
      .ok { text := text, changed := false, errors := [diagnostic.render] }
  | .error failure => .error failure
  | .ok formatted =>
      let warnings :=
        if Text.has ['\r', '\n'] text then ["CRLF line endings were converted to LF"] else []
      (options.finish formatted).map fun finished =>
        { text := finished, changed := finished != text, warnings := warnings }

end

end Options

/-- What a run of the formatter tells a log. -/
inductive Note where
  | formatting (lines : Nat) (language : Text) (family : Family)
  | unindented (language : Text)
  | noDeclarations
  | declarations (count : Nat)
  | failed (path : Option String) (message : String)

inductive Severity where
  | debug
  | info
  | warning
  | error
  deriving DecidableEq, Repr

def Severity.rank : Severity → Nat
  | .debug => 10
  | .info => 20
  | .warning => 30
  | .error => 40

def Severity.name : Severity → String
  | .debug => "DEBUG"
  | .info => "INFO"
  | .warning => "WARNING"
  | .error => "ERROR"

namespace Note

def severity : Note → Severity
  | .failed _ _ => .warning
  | _ => .debug

/-- The channel a note is logged on. -/
def channel : Note → String
  | .formatting _ _ _ | .failed _ _ => "codebeautifier.formatting.core"
  | .unindented _ => "codebeautifier.formatting.pipelines"
  | .noDeclarations | .declarations _ => "codebeautifier.formatting.boundaries"

def message : Note → String
  | .formatting lines language family =>
      "Formatting " ++ toString lines ++ " lines as " ++ String.ofList language ++ " (" ++
        family.name ++ " family)"
  | .unindented language =>
      "Unindented " ++ String.ofList language ++ " source; using brace depth"
  | .noDeclarations => "No method boundaries found; skipping comment alignment"
  | .declarations count => "Found " ++ toString count ++ " method boundaries"
  | .failed path message =>
      "Formatting failed for " ++ ((Diagnostic.filled? path).getD "<text>") ++ ": " ++ message

end Note

section

variable [Machine]

/-- The notes of one run of the formatter. -/
def formatNotes (language : Option Text) (unit : IndentUnit) (text : Text) : List Note :=
  match Language.family? (language.getD []) with
  | none => []
  | some family =>
      let language := Language.normalize (language.getD [])
      let lines := text.lines
      let further :=
        match family with
        | .javascript => if Indent.isFlat lines then [.unindented language] else []
        | .cFamily =>
            match Layout.writeWithin family unit (Layout.slots family (some language) lines) with
            | .error _ => []
            | .ok laid =>
                match (Layout.spans family (some language) (Layout.squeeze laid)).length with
                | 0 => [.noDeclarations]
                | count => [.declarations count]
        | _ => []
      .formatting lines.length language family :: further

/-- The notes of formatting a document under options. -/
def Options.formatNotes (options : Options) (language : Option Text) (path : Option String)
    (text : Text) : List Note :=
  match options.unit with
  | .error (.reported diagnostic) => [.failed path diagnostic.message]
  | .error _ => []
  | .ok unit =>
      let notes := SourceLayout.formatNotes language unit text
      match formatWithin language unit text with
      | .error (.reported diagnostic) => notes ++ [.failed path diagnostic.message]
      | _ => notes

end

end SourceLayout
