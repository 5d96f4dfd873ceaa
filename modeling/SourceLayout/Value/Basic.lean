import SourceLayout.Decimal.Shortest
import SourceLayout.Machine
import SourceLayout.Text.Spelling
import SourceLayout.Value.Moment

/-!
# Values of configuration files and editors

A value is whatever a configuration file or an editor may hold where an option is expected. It has
a truth value and two texts: `form` is used inside messages, `spelled` drops the quotes of a text
that stands alone. Values beyond a limit have no text that could be shown.
-/

namespace SourceLayout

inductive Value where
  | null
  | bool (value : Bool)
  | int (value : Int)
  | float (value : Binary)
  | text (value : Spelling)
  | moment (value : Moment)
  | list (values : List Value)
  | table (entries : List (Spelling × Value))

/-- What keeps a value from being read or written. -/
inductive Limit where
  /-- A whole number has more digits than `digitLimit`. -/
  | digits
  /-- Lists and tables are nested too deep. -/
  | nesting
  deriving DecidableEq, Repr

namespace Value

def ofText (text : Text) : Value :=
  .text (.ofText text)

def isTrue : Value → Bool
  | .null => false
  | .bool value => value
  | .int value => value != 0
  | .float value => !value.isZero
  | .text value => !value.isEmpty
  | .moment _ => true
  | .list values => !values.isEmpty
  | .table entries => !entries.isEmpty

mutual

/-- The form of a value inside messages. -/
def form : Value → String
  | .null => "None"
  | .bool true => "True"
  | .bool false => "False"
  | .int value => toString value
  | .float value => value.text
  | .text value => String.ofList value.quote
  | .moment value => value.form
  | .list values => "[" ++ ", ".intercalate (listForms values) ++ "]"
  | .table entries => "\x7b" ++ ", ".intercalate (entryForms entries) ++ "\x7d"

def listForms : List Value → List String
  | [] => []
  | value :: values => value.form :: listForms values

def entryForms : List (Spelling × Value) → List String
  | [] => []
  | (key, value) :: entries => (String.ofList key.quote ++ ": " ++ value.form) :: entryForms entries

end

mutual

/-- The first limit that a value exceeds, when lists and tables may be nested `room` deep. -/
def exceeded? (room : Nat) : Value → Option Limit
  | .int value => if Nat.pow 10 digitLimit ≤ value.natAbs then some .digits else none
  | .list values => if room = 0 then some .nesting else listExceeded? (room - 1) values
  | .table entries => if room = 0 then some .nesting else entriesExceeded? (room - 1) entries
  | _ => none

def listExceeded? (room : Nat) : List Value → Option Limit
  | [] => none
  | value :: values => (value.exceeded? room).or (listExceeded? room values)

def entriesExceeded? (room : Nat) : List (Spelling × Value) → Option Limit
  | [] => none
  | (_, value) :: entries => (value.exceeded? room).or (entriesExceeded? room entries)

end

section

variable [Machine]

/-- The form of a value, if it has one. -/
def form? (value : Value) : Except Limit String :=
  match value.exceeded? Machine.writtenDepth with
  | some limit => .error limit
  | none => .ok value.form

/-- The text of a value, if it has one: a text stands for itself. -/
def spelled? : Value → Except Limit Spelling
  | .text value => .ok value
  | .moment value => .ok (.ofString value.text)
  | value => value.form?.map Spelling.ofString

end

/-- The text of a value as a terminal shows it. -/
def plain : Value → String
  | .text value => String.ofList value.shown
  | .moment value => value.text
  | value => value.form

/-- A whole number above zero; truth values do not count as numbers. -/
def positive? : Value → Option Nat
  | .int value => if 0 < value then some value.toNat else none
  | _ => none

end Value

abbrev Entries := List (Spelling × Value)

/-- The entry under a key. -/
def lookup? (key : String) (entries : Entries) : Option Value :=
  entries.lookup (.ofString key)

/-- Puts an entry last, or in the place of the one with the same key. -/
def putEntry {κ α : Type} [DecidableEq κ] (key : κ) (value : α) : List (κ × α) → List (κ × α)
  | [] => [(key, value)]
  | entry :: entries =>
      if entry.1 = key then (key, value) :: entries else entry :: putEntry key value entries

end SourceLayout
