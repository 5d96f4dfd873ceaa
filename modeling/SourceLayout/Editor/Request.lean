import SourceLayout.Editor.Session

/-!
# Requests of an editor

An editor sends values. Before a session takes a step, its numbers must be whole and have at most 32
bits, and its flags must be true or false.
-/

namespace SourceLayout.Session

/-- The greatest number an editor may send. -/
def greatestNumber : Int := 2147483647

/-- A whole number that is not less than another one. Truth values count as numbers. -/
def wholeNumber (least : Int) : Value → Except Fault Int
  | .int number =>
      if least ≤ number ∧ number ≤ greatestNumber then .ok number else .error .badNumber
  | .bool flag => .ok (if flag then 1 else 0)
  | _ => .error .badNumber

/-- A version may be negative. -/
def versionNumber (value : Value) : Except Fault Int :=
  wholeNumber (-greatestNumber - 1) value

/-- A change as it is sent: a text, and the rows and columns between which it stands if not for the
whole. -/
structure ChangeRequest where
  range : Option (Value × Value × Value × Value)
  text : Text

def ChangeRequest.check (request : ChangeRequest) : Except Fault Change :=
  match request.range with
  | none => .ok (.whole request.text)
  | some (startRow, startColumn, stopRow, stopColumn) => do
      let start := ⟨← wholeNumber 0 startRow, ← wholeNumber 0 startColumn⟩
      let stop := ⟨← wholeNumber 0 stopRow, ← wholeNumber 0 stopColumn⟩
      return .ranged start stop request.text

/-- The options of a request for edits. -/
structure OptionsRequest where
  tabSize : Value
  insertSpaces : Value
  finalNewline : Value := .null

def flag : Value → Except Fault Bool
  | .bool value => .ok value
  | _ => .error .badFlag

/-- The size stays the value it is, since a truth value is not taken for a size later on. -/
def OptionsRequest.check (request : OptionsRequest) : Except Fault Options := do
  let _ ← wholeNumber 0 request.tabSize
  let spaces ← flag request.insertSpaces
  let finalNewline ←
    match request.finalNewline with
    | .null => pure false
    | value => flag value
  return {
    style := .ofSpaces spaces
    tabSize := request.tabSize
    finalNewline := finalNewline }

inductive Request where
  | opened (uri language : Text) (version : Value) (text : Text)
  | changed (uri : Text) (version : Value) (changes : List ChangeRequest)
  | closed (uri : Text)
  | format (uri : Text) (options : OptionsRequest)
  | tidy (arguments : List Value)

/-- The step that a request asks for. -/
def Request.check : Request → Except Fault Step
  | .opened uri language version text => do
      return .opened uri language (← versionNumber version) text
  | .changed uri version changes => do
      return .changed uri (← versionNumber version) (← changes.mapM ChangeRequest.check)
  | .closed uri => .ok (.closed uri)
  | .format uri options => do
      return .format uri (some (← options.check))
  | .tidy arguments => .ok (.tidy arguments)

/-- Takes the step that a request asks for, if it may be asked for. -/
def answer [Machine] (session : Session) (request : Request) : Except Fault Reply :=
  request.check >>= session.step

end SourceLayout.Session
