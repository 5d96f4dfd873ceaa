import SourceLayout.Value.Basic

/-!
# Reading JSON

A reader takes a text and gives what it has read with the text that is left. Numbers with a
fraction or an exponent are binary, all others are whole. The last of several entries with one key
counts, at the place of the first.
-/

namespace SourceLayout

/-- Why a text cannot be read as a value. -/
inductive ReadError where
  | malformed
  | beyond (limit : Limit)
  deriving DecidableEq, Repr

/-- What was found, or nothing that follows the format. -/
def ReadError.ofOption {α : Type} (found : Option α) : Except ReadError α :=
  match found with
  | some value => .ok value
  | none => .error .malformed

namespace Json

def isSpace (c : Char) : Bool :=
  c == ' ' || c == '\t' || c == '\n' || c == '\r'

def skipSpace (text : Text) : Text :=
  text.dropWhile isSpace

def hexValue? (c : Char) : Option Nat :=
  if '0' ≤ c ∧ c ≤ '9' then some (c.toNat - '0'.toNat)
  else if 'a' ≤ c ∧ c ≤ 'f' then some (c.toNat - 'a'.toNat + 10)
  else if 'A' ≤ c ∧ c ≤ 'F' then some (c.toNat - 'A'.toNat + 10)
  else none

def hexNumber? (digits : Text) : Option Nat :=
  digits.foldlM (fun total c => (hexValue? c).map (total * 16 + ·)) 0

/-- The character that a letter after a backslash stands for. -/
def escaped? : Char → Option Char
  | '"' => some '"'
  | '\\' => some '\\'
  | '/' => some '/'
  | 'b' => some '\x08'
  | 'f' => some '\x0c'
  | 'n' => some '\n'
  | 'r' => some '\r'
  | 't' => some '\t'
  | _ => none

/-- The character of two halves of a surrogate pair, if they are that. -/
def joinHalves? (high low : Nat) : Option Char :=
  if 0xd800 ≤ high ∧ high < 0xdc00 ∧ 0xdc00 ≤ low ∧ low < 0xe000 then
    some (Char.ofNat (0x10000 + (high - 0xd800) * 0x400 + (low - 0xdc00)))
  else none

/-- The rest of a string after its opening quote. -/
def stringBody? : Text → Option (Spelling × Text)
  | [] => none
  | '"' :: rest => some ([], rest)
  | '\\' :: 'u' :: a :: b :: c :: d :: '\\' :: 'u' :: e :: f :: g :: h :: rest =>
      match hexNumber? [a, b, c, d], (hexNumber? [e, f, g, h]) with
      | some high, some low =>
          match joinHalves? high low with
          | some joined => (stringBody? rest).map fun (text, rest) => (.char joined :: text, rest)
          | none =>
              (stringBody? ('\\' :: 'u' :: e :: f :: g :: h :: rest)).map fun (text, rest) =>
                (.ofCode high :: text, rest)
      | _, _ => none
  | '\\' :: 'u' :: a :: b :: c :: d :: rest => do
      let number ← hexNumber? [a, b, c, d]
      let (text, rest) ← stringBody? rest
      return (.ofCode number :: text, rest)
  | '\\' :: c :: rest => do
      let first ← escaped? c
      let (text, rest) ← stringBody? rest
      return (.char first :: text, rest)
  | c :: rest =>
      if c.toNat < 0x20 ∨ c = '\\' then none
      else (stringBody? rest).map fun (text, rest) => (.char c :: text, rest)

/-- The digits at the head of a text, at least one. -/
def digits? (text : Text) : Option (Text × Text) :=
  let digits := text.takeWhile Char.isDigit
  if digits.isEmpty then none else some (digits, text.drop digits.length)

/-- A fraction, if one is complete. -/
def fraction (text : Text) : Text × Text :=
  match text with
  | '.' :: rest => (digits? rest).getD ([], text)
  | _ => ([], text)

/-- An exponent, if one is complete. -/
def exponent? (text : Text) : Option (Int × Text) :=
  match text with
  | e :: rest =>
      if e = 'e' ∨ e = 'E' then
        let (negative, rest) :=
          match rest with
          | '-' :: rest => (true, rest)
          | '+' :: rest => (false, rest)
          | _ => (false, rest)
        (digits? rest).map fun (digits, rest) =>
          let value : Int := decimalValue digits
          (if negative then -value else value, rest)
      else none
  | [] => none

/-- The number with these digits before and after the point. -/
def number (negative : Bool) (whole fraction : Text) (exponent : Option Int) :
    Except ReadError Value :=
  if fraction.isEmpty ∧ exponent.isNone then
    if digitLimit < whole.length then .error (.beyond .digits)
    else
      let value : Int := decimalValue whole
      .ok (.int (if negative then -value else value))
  else
    .ok (.float (.ofDecimal negative (decimalValue (whole ++ fraction))
      (exponent.getD 0 - fraction.length)))

/-- A number, if one is complete. -/
def number? (text : Text) : Option (Except ReadError Value × Text) := do
  let (negative, text) :=
    match text with
    | '-' :: rest => (true, rest)
    | _ => (false, text)
  let (whole, text) ←
    match text with
    | '0' :: rest => some (['0'], rest)
    | _ => digits? text
  let (fraction, text) := fraction text
  match exponent? text with
  | some (exponent, text) => return (number negative whole fraction (some exponent), text)
  | none => return (number negative whole fraction none, text)

/-- The values that are written as words. -/
def words : List (String × Value) :=
  [("null", .null),
    ("true", .bool true),
    ("false", .bool false),
    ("NaN", .float .undefined),
    ("Infinity", .float (.infinite false)),
    ("-Infinity", .float (.infinite true))]

def word? (text : Text) : Option (Value × Text) :=
  words.findSome? fun (word, value) =>
    if word.toList.isPrefixOf text then some (value, text.drop word.length) else none

/-- A word or a number. -/
def plainScalar (text : Text) : Except ReadError (Value × Text) :=
  match word? text with
  | some found => .ok found
  | none => do
      let (value, rest) ← ReadError.ofOption (number? text)
      return (← value, rest)

mutual

/-- One value, with lists and tables nested at most `room` deep. The second argument bounds the
depth of the recursion. -/
def value (room : Nat) : Nat → Text → Except ReadError (Value × Text)
  | 0, _ => .error .malformed
  | fuel + 1, text =>
      match text with
      | '"' :: rest => do
          let (text, rest) ← ReadError.ofOption (stringBody? rest)
          return (.text text, rest)
      | '[' :: rest =>
          if room = 0 then .error (.beyond .nesting)
          else
            match skipSpace rest with
            | ']' :: rest => .ok (.list [], rest)
            | rest => do
                let (values, rest) ← elements (room - 1) fuel rest
                return (.list values, rest)
      | '{' :: rest =>
          if room = 0 then .error (.beyond .nesting)
          else
            match skipSpace rest with
            | '}' :: rest => .ok (.table [], rest)
            | rest => do
                let (entries, rest) ← entries (room - 1) fuel [] rest
                return (.table entries, rest)
      | text => plainScalar text

/-- The values of a list up to its end. -/
def elements (room : Nat) : Nat → Text → Except ReadError (List Value × Text)
  | 0, _ => .error .malformed
  | fuel + 1, text => do
      let (first, rest) ← value room fuel text
      match skipSpace rest with
      | ',' :: rest =>
          let (others, rest) ← elements room fuel (skipSpace rest)
          return (first :: others, rest)
      | ']' :: rest => return ([first], rest)
      | _ => .error .malformed

/-- The entries of a table up to its end, put after those before. -/
def entries (room : Nat) : Nat → Entries → Text → Except ReadError (Entries × Text)
  | 0, _, _ => .error .malformed
  | fuel + 1, before, text =>
      match text with
      | '"' :: rest => do
          let (key, rest) ← ReadError.ofOption (stringBody? rest)
          match skipSpace rest with
          | ':' :: rest =>
              let (entry, rest) ← value room fuel (skipSpace rest)
              let all := putEntry key entry before
              match skipSpace rest with
              | ',' :: rest => entries room fuel all (skipSpace rest)
              | '}' :: rest => return (all, rest)
              | _ => .error .malformed
          | _ => .error .malformed
      | _ => .error .malformed

end

/-- A whole text as one value. -/
def read [Machine] (text : Text) : Except ReadError Value := do
  let (value, rest) ← value Machine.jsonDepth (2 * text.length + 2) (skipSpace text)
  if (skipSpace rest).isEmpty then return value else .error .malformed

end Json

end SourceLayout
