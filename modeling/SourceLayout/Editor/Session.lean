import SourceLayout.Editor.Document
import SourceLayout.Format

/-!
# Editing sessions

A session holds the open documents by their addresses, and for each of them the errors of its last
formatting if there were any. A step is what an editor asks for; the reply has the session after it,
the answer, what is shown to the user and the edits that the editor is asked to make.
-/

namespace SourceLayout

structure Session where
  documents : List (Text × Document) := []
  errors : List (Text × List String) := []

/-- A replacement of the first `rows` rows of a document. -/
structure Edit where
  rows : Nat
  text : Text
  deriving DecidableEq, Repr

namespace Session

inductive Level where
  | info
  | warning
  | error
  deriving DecidableEq, Repr

def Level.name : Level → String
  | .info => "Info"
  | .warning => "Warning"
  | .error => "Error"

/-- A message shown to the user. -/
structure Notice where
  level : Level
  text : String
  deriving DecidableEq, Repr

inductive Step where
  | opened (uri language : Text) (version : Int) (text : Text)
  | changed (uri : Text) (version : Int) (changes : List Change)
  | closed (uri : Text)
  | format (uri : Text) (options : Option Options)
  | tidy (arguments : List Value)

inductive Answer where
  | done
  | edits (edits : List Edit)
  | finished (success : Bool)

structure Reply where
  session : Session
  answer : Answer := .done
  notices : List Notice := []
  applied : List (Text × List Edit) := []

/-- Why a step cannot be done. -/
inductive Fault where
  /-- The address is a value that no document can be found by. -/
  | badAddress
  /-- A number is no whole number, or none that an editor may send. -/
  | badNumber
  /-- What should be true or false is neither. -/
  | badFlag
  | formatting (failure : Failure)

def document? (session : Session) (uri : Text) : Option Document :=
  session.documents.lookup uri

def errorsOf (session : Session) (uri : Text) : List String :=
  (session.errors.lookup uri).getD []

def putDocument (session : Session) (uri : Text) (document : Document) : Session :=
  { session with documents := putEntry uri document session.documents }

/-- Records the errors of a formatting; none are recorded as no entry. -/
def putErrors (session : Session) (uri : Text) (errors : List String) : Session :=
  { session with
    errors :=
      if errors.isEmpty then session.errors.filter (·.1 ≠ uri)
      else putEntry uri errors session.errors }

def change (session : Session) (uri : Text) (version : Int) (changes : List Change) : Session :=
  match session.document? uri with
  | none => session
  | some document =>
      if changes.isEmpty then session
      else
        let changed := document.applyAll changes
        session.putDocument uri (changed.update changed.text version)

def close (session : Session) (uri : Text) : Session where
  documents := session.documents.filter (·.1 ≠ uri)
  errors := session.errors.filter (·.1 ≠ uri)

/-! ## Formatting -/

/-- The name of a document's language in an error: the editor's name for it, the suffix of its file,
or nothing known. -/
def languageName (document : Document) : String :=
  if !document.language.isEmpty then String.ofList document.language
  else if !document.path.suffix.isEmpty then String.ofList document.path.suffix
  else "unknown"

def unsupportedMessage (document : Document) : String :=
  "Unsupported language: " ++ languageName document ++ " (supported: " ++ Language.supportedList ++
    ")"

/-- The result of formatting a document by itself. -/
def outcome [Machine] (options : Option Options) (document : Document) : Except Failure Outcome :=
  match document.effective? with
  | none =>
      .ok { text := document.text, changed := false, errors := [unsupportedMessage document] }
  | some language =>
      (options.getD {}).format (some language) (some document.path.string) document.text

/-- Formats an open document and records its errors. -/
def format [Machine] (session : Session) (uri : Text) (options : Option Options) :
    Except Failure (Session × Option Outcome) :=
  match session.document? uri with
  | none => .ok (session, none)
  | some document => do
      let outcome ← outcome options document
      return (session.putErrors uri outcome.errors, some outcome)

/-- One edit of the whole document, or none where nothing changed. -/
def edits (session : Session) (uri : Text) (outcome : Option Outcome) : List Edit :=
  match session.document? uri, outcome with
  | some document, some outcome =>
      if outcome.succeeded && outcome.changed then [⟨document.lines.length, outcome.text⟩] else []
  | _, _ => []

def failed (errors : List String) : Notice :=
  ⟨.error, "Beautification failed: " ++ "; ".intercalate errors⟩

/-- Answers a request for edits. -/
def answerFormat [Machine] (session : Session) (uri : Text) (options : Option Options) :
    Except Failure Reply := do
  let (session, outcome) ← session.format uri options
  let errors := session.errorsOf uri
  return {
    session := session
    answer := .edits (session.edits uri outcome)
    notices := if errors.isEmpty then [] else [failed errors] }

/-- The address and the options among the arguments of the command: either the two of them, or a
table with both. -/
def target : List Value → Value × Value
  | [] => (.null, .null)
  | first :: rest =>
      let options := rest.headD .null
      match first with
      | .text uri => (.text uri, options)
      | .table entries =>
          ((lookup? "uri" entries).getD .null, (lookup? "options" entries).getD options)
      | _ => (.null, options)

def nothingOpen (session : Session) : Reply where
  session := session
  answer := .finished false
  notices := [⟨.warning, "No open document to beautify"⟩]

/-- Formats a document and asks the editor to apply the result. -/
def tidyAt [Machine] (session : Session) (uri : Text) (options : Option Options) :
    Except Failure Reply := do
  let (session, outcome) ← session.format uri options
  match outcome with
  | none => return session.nothingOpen
  | some outcome =>
      if !outcome.errors.isEmpty then
        return { session := session, answer := .finished false, notices := [failed outcome.errors] }
      let edits := session.edits uri (some outcome)
      return {
        session := session
        answer := .finished true
        notices := [⟨.info, "Code beautified successfully!"⟩]
        applied := if edits.isEmpty then [] else [(uri, edits)] }

def tidy [Machine] (session : Session) (arguments : List Value) : Except Fault Reply :=
  let (uri, options) := target arguments
  match uri with
  | .text uri =>
      match uri.text? with
      | some uri => (session.tidyAt uri (Options.ofEditor? options)).mapError .formatting
      | none => .ok session.nothingOpen
  | .list _ | .table _ => .error .badAddress
  | _ => .ok session.nothingOpen

def step [Machine] (session : Session) : Step → Except Fault Reply
  | .opened uri language version text =>
      .ok { session := session.putDocument uri (.make uri language version text) }
  | .changed uri version changes => .ok { session := session.change uri version changes }
  | .closed uri => .ok { session := session.close uri }
  | .format uri options => (session.answerFormat uri options).mapError .formatting
  | .tidy arguments => session.tidy arguments

end Session

end SourceLayout
