import SourceLayout.Toml.Scalar

/-!
# Documents of TOML

A document is read statement by statement into one table. A table may be opened by its header once,
inline tables and arrays may not be added to, and no value may be given twice.
-/

namespace SourceLayout.Toml

abbrev Key := List Spelling

def isBareKeyChar (c : Char) : Bool :=
  c.isAlphanum || c == '-' || c == '_'

def keyPart? (text : Text) : Option (Text × Text) :=
  match text with
  | '\'' :: rest => literal? rest
  | '"' :: rest => basic? false (text.length + 1) rest
  | _ =>
      let part := text.takeWhile isBareKeyChar
      if part.isEmpty then none else some (part, text.drop part.length)

/-- A dotted key and the blanks after it. The first argument bounds the depth of the recursion. -/
def keyParts? : Nat → Text → Option (Key × Text)
  | 0, _ => none
  | fuel + 1, text => do
      let (part, rest) ← keyPart? text
      match skipSpace rest with
      | '.' :: rest =>
          let (parts, rest) ← keyParts? fuel (skipSpace rest)
          return (.ofText part :: parts, rest)
      | rest => return ([.ofText part], rest)

def key (text : Text) : Except ReadError (Key × Text) :=
  ReadError.ofOption (keyParts? text.length text)

/-- The text after one character that must stand here. -/
def past (c : Char) (text : Text) : Except ReadError Text :=
  ReadError.ofOption (past? c text)

/-- The text after blanks, line ends and comments. -/
def skipFiller (text : Text) : Except ReadError Text :=
  ReadError.ofOption (skipFiller? text.length text)

/-- Changes the table under a key, making the tables on the way that are missing. A list on the way
stands for its last table if `throughLists`. -/
def updateTable? (throughLists : Bool) (change : Entries → Option Entries) :
    Key → Entries → Option Entries
  | [], entries => change entries
  | part :: parts, entries =>
      match entries.lookup part with
      | none => do
          let inner ← updateTable? throughLists change parts []
          return entries ++ [(part, .table inner)]
      | some (.table inner) => do
          let inner ← updateTable? throughLists change parts inner
          return putEntry part (.table inner) entries
      | some (.list values) =>
          match throughLists, values.getLast? with
          | true, some (.table inner) => do
              let inner ← updateTable? throughLists change parts inner
              return putEntry part (.list (values.dropLast ++ [.table inner])) entries
          | _, _ => none
      | some _ => none

/-- Adds an entry, unless its key is taken. -/
def insertNew? (part : Spelling) (value : Value) (entries : Entries) : Option Entries :=
  if (entries.lookup part).isSome then none else some (entries ++ [(part, value)])

/-- Adds an empty table to the list under a key, starting the list if it is not there. -/
def appendTable? (part : Spelling) (entries : Entries) : Option Entries :=
  match entries.lookup part with
  | none => some (entries ++ [(part, .list [.table []])])
  | some (.list values) => some (putEntry part (.list (values ++ [.table []])) entries)
  | some _ => none

/-- What may no longer be done with keys: `opened` may not be opened by a header again, and nothing
at or below `frozen` may change. -/
structure Locks where
  opened : List Key := []
  frozen : List Key := []

def Locks.isFrozen (locks : Locks) (key : Key) : Bool :=
  locks.frozen.any fun lock => lock.isPrefixOf key

def Locks.isOpened (locks : Locks) (key : Key) : Bool :=
  locks.opened.contains key

/-- Forgets what is known of a key and all below it. -/
def Locks.free (locks : Locks) (key : Key) : Locks where
  opened := locks.opened.filter fun lock => !key.isPrefixOf lock
  frozen := locks.frozen.filter fun lock => !key.isPrefixOf lock

def isContainer : Value → Bool
  | .list _ | .table _ => true
  | _ => false

/-- Puts a value under a key of an inline table. -/
def putInline? (frozen : List Key) (key : Key) (value : Value) (entries : Entries) :
    Option Entries := do
  let stem ← key.getLast?
  if frozen.any fun lock => lock.isPrefixOf key then none
  else updateTable? false (insertNew? stem value) key.dropLast entries

/-- How much room a list and an inline table take up, and how much there is. -/
def listRoom : Nat := 2

def tableRoom : Nat := 3

mutual

/-- One value, as far as the room for lists and inline tables goes. The second argument bounds the
depth of the recursion. -/
def value (room : Nat) : Nat → Text → Except ReadError (Value × Text)
  | 0, _ => .error .malformed
  | fuel + 1, text =>
      match text with
      | '"' :: _ | '\'' :: _ => do
          let (text, rest) ← ReadError.ofOption (string? text)
          return (.ofText text, rest)
      | '[' :: rest =>
          if room < listRoom then .error (.beyond .nesting)
          else do
            let (values, rest) ← elements (room - listRoom) fuel (← skipFiller rest)
            return (.list values, rest)
      | '{' :: rest =>
          if room < tableRoom then .error (.beyond .nesting)
          else
            match skipSpace rest with
            | '}' :: rest => .ok (.table [], rest)
            | rest => do
                let (entries, rest) ← inlineEntries (room - tableRoom) fuel [] [] rest
                return (.table entries, rest)
      | _ => plainScalar text

/-- The values of an array up to its end. -/
def elements (room : Nat) : Nat → Text → Except ReadError (List Value × Text)
  | 0, _ => .error .malformed
  | fuel + 1, text =>
      match text with
      | ']' :: rest => .ok ([], rest)
      | _ => do
          let (first, rest) ← value room fuel text
          match ← skipFiller rest with
          | ']' :: rest => return ([first], rest)
          | ',' :: rest =>
              let (others, rest) ← elements room fuel (← skipFiller rest)
              return (first :: others, rest)
          | _ => .error .malformed

/-- The entries of an inline table up to its end, put after those before. -/
def inlineEntries (room : Nat) :
    Nat → List Key → Entries → Text → Except ReadError (Entries × Text)
  | 0, _, _, _ => .error .malformed
  | fuel + 1, frozen, before, text => do
      let (key, rest) ← key text
      let (entry, rest) ← value room fuel (skipSpace (← past '=' rest))
      let all ← ReadError.ofOption (putInline? frozen key entry before)
      match skipSpace rest with
      | '}' :: rest => return (all, rest)
      | ',' :: rest =>
          let frozen := if isContainer entry then key :: frozen else frozen
          inlineEntries room fuel frozen all (skipSpace rest)
      | _ => .error .malformed

end

/-- A document as far as it has been read. `pending` are the keys that may no longer be opened once
the next header comes. -/
structure State where
  entries : Entries := []
  locks : Locks := {}
  pending : List Key := []
  header : Key := []

def State.settlePending (state : State) : State :=
  { state with
    locks := { state.locks with opened := state.pending ++ state.locks.opened }
    pending := [] }

/-- The proper, non-empty starts of a key. -/
def starts (key : Key) : List Key :=
  ((List.range key.length).drop 1).map key.take

/-- Puts a value under a key of the table that the last header opened. -/
def State.put? (state : State) (key : Key) (value : Value) : Option State := do
  let stem ← key.getLast?
  let parent := state.header ++ key.dropLast
  let between := (starts key).map (state.header ++ ·)
  if between.any state.locks.isOpened || state.locks.isFrozen parent then none
  else
    let entries ← updateTable? true (insertNew? stem value) parent state.entries
    let frozen :=
      if isContainer value then (state.header ++ key) :: state.locks.frozen else state.locks.frozen
    return { state with
      entries := entries
      locks := { state.locks with frozen := frozen }
      pending := between ++ state.pending }

/-- Opens a table by its header. -/
def State.openTable? (state : State) (key : Key) : Option State := do
  let state := state.settlePending
  if state.locks.isOpened key || state.locks.isFrozen key then none
  else
    let entries ← updateTable? true some key state.entries
    return { state with
      entries := entries
      locks := { state.locks with opened := key :: state.locks.opened }
      header := key }

/-- Opens the next table of a list of tables by its header. -/
def State.openListItem? (state : State) (key : Key) : Option State := do
  let state := state.settlePending
  let stem ← key.getLast?
  if state.locks.isFrozen key then none
  else
    let locks := state.locks.free key
    let entries ← updateTable? true (appendTable? stem) key.dropLast state.entries
    return { state with
      entries := entries
      locks := { locks with opened := key :: locks.opened }
      header := key }

section

variable [Machine]

/-- One statement, up to but without the end of its line. -/
def statement (state : State) (text : Text) : Except ReadError (State × Text) :=
  match text with
  | '[' :: '[' :: rest => do
      let (key, rest) ← key (skipSpace rest)
      let state ← ReadError.ofOption (state.openListItem? key)
      return (state, ← past ']' (← past ']' rest))
  | '[' :: rest => do
      let (key, rest) ← key (skipSpace rest)
      let state ← ReadError.ofOption (state.openTable? key)
      return (state, ← past ']' rest)
  | '#' :: _ => .ok (state, text)
  | _ => do
      let (key, rest) ← key text
      let rest := skipSpace (← past '=' rest)
      let (value, rest) ← value Machine.tomlDepth (2 * rest.length + 2) rest
      return (← ReadError.ofOption (state.put? key value), rest)

/-- All statements. The first argument bounds the depth of the recursion. -/
def statements : Nat → State → Text → Except ReadError State
  | 0, _, _ => .error .malformed
  | fuel + 1, state, text =>
      match skipSpace text with
      | [] => .ok state
      | '\n' :: rest => statements fuel state rest
      | text => do
          let (state, rest) ← statement state text
          match ← ReadError.ofOption (skipComment? (skipSpace rest)) with
          | [] => return state
          | '\n' :: rest => statements fuel state rest
          | _ => .error .malformed

/-- A carriage return counts only where no line feed follows. -/
def unifyLineEnds : Text → Text
  | '\r' :: '\n' :: rest => '\n' :: unifyLineEnds rest
  | c :: rest => c :: unifyLineEnds rest
  | [] => []

/-- A whole text as one table. -/
def read (text : Text) : Except ReadError Entries :=
  let text := unifyLineEnds text
  (statements (text.length + 1) {} text).map State.entries

end

end SourceLayout.Toml
