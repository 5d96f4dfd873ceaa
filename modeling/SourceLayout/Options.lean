import SourceLayout.Diagnostic
import SourceLayout.Indent

/-!
# Formatting options
-/

namespace SourceLayout

inductive IndentStyle where
  | spaces
  | tabs
  deriving DecidableEq, Repr

def IndentStyle.name : IndentStyle → String
  | .spaces => "spaces"
  | .tabs => "tabs"

def IndentStyle.ofSpaces (spaces : Bool) : IndentStyle :=
  if spaces then .spaces else .tabs

/-- Options as a caller gives them; the tab size is checked when it is used. -/
structure Options where
  style : IndentStyle := .spaces
  tabSize : Value := .int 4
  finalNewline : Bool := false

namespace Options

def standard : Options := {}

def compact : Options := { tabSize := .int 2 }

def tabs : Options := { style := .tabs }

def preset? (name : String) : Option Options :=
  match name with
  | "standard" => some standard
  | "compact" => some compact
  | "tabs" => some tabs
  | _ => none

/-- The length of the longest text that can be addressed. -/
def addressLimit : Nat := 0x7fffffffffffffff

section

variable [Machine]

/-- Asks for the room that a text of a length takes up. -/
def reserve (part : Part) (length : Nat) : Except Failure Unit :=
  if addressLimit < length then .error (.tooLong part)
  else if Machine.memory < length then .error .outOfMemory
  else .ok ()

/-- One level of indentation. -/
def unitOf (spaces : Bool) (tabSize : Value) : Except Failure IndentUnit :=
  match tabSize.positive? with
  | none =>
      match tabSize.form? with
      | .error limit => .error (.beyond limit)
      | .ok form =>
          .error (.reported (.invalid ("Invalid tab size: " ++ form) none
            (some "tab_size must be a positive integer")))
  | some size =>
      if !spaces then .ok { text := ['\t'] }
      else (reserve .unit size).map fun _ => { text := [' '], times := size }

def unit (options : Options) : Except Failure IndentUnit :=
  unitOf (options.style == .spaces) options.tabSize

end

/-- The first of some keys that is there. -/
def firstOf (entries : Entries) (keys : List String) (otherwise : Value) : Value :=
  (keys.findSome? fun key => lookup? key entries).getD otherwise

/-- Options as an editor sends them. Whatever is no table of options stands for the defaults. -/
def ofEditor? : Value → Option Options
  | .null => none
  | .table entries =>
      some
        { style := .ofSpaces (firstOf entries ["insertSpaces", "insert_spaces"] (.bool true)).isTrue
          tabSize := firstOf entries ["tabSize", "tab_size"] (.int 4)
          finalNewline :=
            (firstOf entries ["insertFinalNewline", "insert_final_newline"] .null).isTrue }
  | _ => some {}

end Options

end SourceLayout
