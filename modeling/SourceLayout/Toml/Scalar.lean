import SourceLayout.Json.Reader

/-!
# Scalars of TOML

Strings, numbers, dates and times. Each reader takes a text and gives what it has read with the
text that is left.
-/

namespace SourceLayout.Toml

def isSpace (c : Char) : Bool :=
  c == ' ' || c == '\t'

def skipSpace (text : Text) : Text :=
  text.dropWhile isSpace

/-- A control character other than a tab. -/
def isControl (c : Char) : Bool :=
  (c.toNat < 32 || c.toNat == 127) && c != '\t'

/-- The text after a comment that starts here, if one does; none if it holds a control character. -/
def skipComment? : Text → Option Text
  | '#' :: rest =>
      let comment := rest.takeWhile (· ≠ '\n')
      if comment.any isControl then none else some (rest.drop comment.length)
  | text => some text

/-- Passes over blanks, line ends and comments. -/
def skipFiller? : Nat → Text → Option Text
  | 0, text => some text
  | fuel + 1, text => do
      let rest ← skipComment? (text.dropWhile fun c => isSpace c || c == '\n')
      if rest.length = text.length then return rest else skipFiller? fuel rest

/-- A literal string after its opening quote. -/
def literal? (text : Text) : Option (Text × Text) :=
  let body := text.takeWhile (· ≠ '\'')
  if body.any isControl then none
  else
    match text.drop body.length with
    | _ :: rest => some (body, rest)
    | [] => none

/-- The text up to three single quotes and the text after them. -/
def literalBlock? : Text → Option (Text × Text)
  | [] => none
  | '\'' :: '\'' :: '\'' :: rest => some ([], rest)
  | c :: rest =>
      if isControl c && c != '\n' then none
      else (literalBlock? rest).map fun (text, rest) => (c :: text, rest)

/-- The character that a letter after a backslash stands for. -/
def escaped? : Char → Option Char
  | 'b' => some '\x08'
  | 't' => some '\t'
  | 'n' => some '\n'
  | 'f' => some '\x0c'
  | 'r' => some '\r'
  | '"' => some '"'
  | '\\' => some '\\'
  | _ => none

/-- The character with a number of so many hexadecimal digits. -/
def numbered? (width : Nat) (text : Text) : Option (Char × Text) := do
  let digits := text.take width
  if digits.length < width then none
  else
    let number ← Json.hexNumber? digits
    if number < 0xd800 ∨ (0xe000 ≤ number ∧ number < 0x110000) then
      some (Char.ofNat number, text.drop width)
    else none

/-- The text after a backslash that ends its line, which joins the lines. -/
def joinLine? (text : Text) : Option Text :=
  let isFiller (c : Char) : Bool := isSpace c || c == '\n'
  match skipSpace text with
  | [] => some []
  | '\n' :: rest => some (rest.dropWhile isFiller)
  | _ => none

/-- A basic string after its opening quote, or after its three opening quotes if `block`. The first
argument bounds the depth of the recursion. -/
def basic? (block : Bool) : Nat → Text → Option (Text × Text)
  | 0, _ => none
  | _, [] => none
  | fuel + 1, '"' :: rest =>
      if !block then some ([], rest)
      else
        match rest with
        | '"' :: '"' :: rest => some ([], rest)
        | rest => (basic? block fuel rest).map fun (text, rest) => ('"' :: text, rest)
  | fuel + 1, '\\' :: rest => do
      match rest with
      | [] => none
      | 'u' :: rest =>
          let (c, rest) ← numbered? 4 rest
          let (text, rest) ← basic? block fuel rest
          return (c :: text, rest)
      | 'U' :: rest =>
          let (c, rest) ← numbered? 8 rest
          let (text, rest) ← basic? block fuel rest
          return (c :: text, rest)
      | c :: after =>
          if block && (isSpace c || c == '\n') then basic? block fuel (← joinLine? rest)
          else
            let c ← escaped? c
            let (text, rest) ← basic? block fuel after
            return (c :: text, rest)
  | fuel + 1, c :: rest =>
      if isControl c && !(block && c == '\n') then none
      else (basic? block fuel rest).map fun (text, rest) => (c :: text, rest)

/-- A block string may end in up to two quotes of its own. -/
def withOwnQuotes (quote : Char) (text rest : Text) : Text × Text :=
  match rest with
  | c :: d :: after =>
      if c = quote ∧ d = quote then (text ++ [quote, quote], after)
      else if c = quote then (text ++ [quote], d :: after)
      else (text, rest)
  | [c] => if c = quote then (text ++ [quote], []) else (text, rest)
  | [] => (text, rest)

/-- A line end right after the opening quotes of a block string does not count. -/
def dropLineEnd : Text → Text
  | '\n' :: rest => rest
  | text => text

def string? (text : Text) : Option (Text × Text) :=
  match text with
  | '"' :: '"' :: '"' :: rest =>
      (basic? true (text.length + 1) (dropLineEnd rest)).map fun (body, rest) =>
        withOwnQuotes '"' body rest
  | '"' :: rest => basic? false (text.length + 1) rest
  | '\'' :: '\'' :: '\'' :: rest =>
      (literalBlock? (dropLineEnd rest)).map fun (body, rest) => withOwnQuotes '\'' body rest
  | '\'' :: rest => literal? rest
  | _ => none

/-- Exactly so many ASCII digits, as a number in a range. -/
def fixed? (width least most : Nat) (text : Text) : Option (Nat × Text) :=
  let digits := text.take width
  let number := decimalValue digits
  if digits.length = width ∧ digits.all Char.isDigit ∧ least ≤ number ∧ number ≤ most then
    some (number, text.drop width)
  else none

/-- The text after one character. -/
def past? (c : Char) : Text → Option Text
  | d :: rest => if c = d then some rest else none
  | [] => none

/-- The fraction of a second in microseconds; further digits are dropped. -/
def microseconds (text : Text) : Nat × Text :=
  match text with
  | '.' :: rest =>
      let digits := rest.takeWhile Char.isDigit
      if digits.isEmpty then (0, text)
      else
        let leading := digits.take 6
        (decimalValue (leading ++ List.replicate (6 - leading.length) '0'),
          rest.drop digits.length)
  | _ => (0, text)

def time? (text : Text) : Option (ClockTime × Text) := do
  let (hour, text) ← fixed? 2 0 23 text
  let (minute, text) ← fixed? 2 0 59 (← past? ':' text)
  let (second, text) ← fixed? 2 0 59 (← past? ':' text)
  let (fraction, text) := microseconds text
  return (⟨hour, minute, second, fraction⟩, text)

def offset? (text : Text) : Option (Int × Text) :=
  match text with
  | c :: rest =>
      if c = 'Z' ∨ c = 'z' then some (0, rest)
      else if c = '+' ∨ c = '-' then do
        let (hours, rest) ← fixed? 2 0 23 rest
        let (minutes, rest) ← fixed? 2 0 59 (← past? ':' rest)
        let total : Int := hours * 60 + minutes
        return (if c = '-' then -total else total, rest)
      else none
  | [] => none

def isLeapYear (year : Nat) : Bool :=
  year % 4 == 0 && (year % 100 != 0 || year % 400 == 0)

def daysIn (year month : Nat) : Nat :=
  if month = 2 then if isLeapYear year then 29 else 28
  else if month ∈ [4, 6, 9, 11] then 30
  else 31

/-- A date that exists. -/
def Date.isValid (date : Date) : Bool :=
  1 ≤ date.year && date.day ≤ daysIn date.year date.month

/-- The shape of a date. -/
def date? (text : Text) : Option (Date × Text) := do
  let (year, text) ← fixed? 4 0 9999 text
  let (month, text) ← fixed? 2 1 12 (← past? '-' text)
  let (day, text) ← fixed? 2 1 31 (← past? '-' text)
  return (⟨year, month, day⟩, text)

/-- The time after a date, with a `T` or a space between them. -/
def timeAfterDate? : Text → Option (ClockTime × Text)
  | c :: rest => if c ∈ ['T', 't', ' '] then time? rest else none
  | [] => none

/-- A date, with or without a time, or a time. The inner option is empty for a date that does not
exist. -/
def moment? (text : Text) : Option (Option (Moment × Text)) :=
  match date? text with
  | some (date, rest) =>
      if !Date.isValid date then some none
      else
        match timeAfterDate? rest with
        | none => some (some (.date date, rest))
        | some (time, rest) =>
            match offset? rest with
            | none => some (some (.dateTime date time none, rest))
            | some (offset, rest) => some (some (.dateTime date time (some offset), rest))
  | none => (time? text).map fun (time, rest) => some (.time time, rest)

/-- Digits of a kind with single underscores between them, at least one; the underscores are
dropped. -/
def grouped (isDigit : Char → Bool) : Text → Text × Text
  | '_' :: c :: rest =>
      if isDigit c then
        let (digits, rest) := grouped isDigit rest
        (c :: digits, rest)
      else ([], '_' :: c :: rest)
  | c :: rest =>
      if isDigit c then
        let (digits, rest) := grouped isDigit rest
        (c :: digits, rest)
      else ([], c :: rest)
  | [] => ([], [])

def digits? (isDigit : Char → Bool) (text : Text) : Option (Text × Text) :=
  if headIs isDigit text then some (grouped isDigit text) else none

/-- A whole number in base 16, 8 or 2. -/
def radixNumber? : Text → Option (Value × Text)
  | '0' :: mark :: rest =>
      let radix := if mark = 'x' then 16 else if mark = 'o' then 8 else if mark = 'b' then 2 else 0
      let isDigit (c : Char) : Bool := ((Json.hexValue? c).map (decide <| · < radix)).getD false
      (digits? isDigit rest).map fun (digits, rest) =>
        (.int (digits.foldl (fun total c => total * radix + (Json.hexValue? c).getD 0) 0), rest)
  | _ => none

/-- A fraction, if one is complete. -/
def fraction (text : Text) : Text × Text :=
  match text with
  | '.' :: rest => (digits? Char.isDigit rest).getD ([], text)
  | _ => ([], text)

/-- An exponent, if one is complete. -/
def exponent? (text : Text) : Option (Int × Text) :=
  match text with
  | e :: rest =>
      if e = 'e' ∨ e = 'E' then
        let (negative, rest) :=
          match rest with
          | '-' :: rest => (true, rest)
          | '+' :: rest => (false, rest)
          | _ => (false, rest)
        (digits? Char.isDigit rest).map fun (digits, rest) =>
          let value : Int := decimalValue digits
          (if negative then -value else value, rest)
      else none
  | [] => none

/-- A decimal number, if one is complete. -/
def decimalNumber? (text : Text) : Option (Except ReadError Value × Text) := do
  let (negative, text) :=
    match text with
    | '-' :: rest => (true, rest)
    | '+' :: rest => (false, rest)
    | _ => (false, text)
  let (whole, text) ←
    match text with
    | '0' :: rest => some (['0'], rest)
    | _ => digits? Char.isDigit text
  let (fraction, text) := fraction text
  match exponent? text with
  | some (exponent, text) => return (Json.number negative whole fraction (some exponent), text)
  | none => return (Json.number negative whole fraction none, text)

/-- The values that are written as words. -/
def words : List (String × Value) :=
  [("inf", .float (.infinite false)),
    ("nan", .float .undefined),
    ("-inf", .float (.infinite true)),
    ("+inf", .float (.infinite false)),
    ("-nan", .float .undefined),
    ("+nan", .float .undefined)]

def word? (text : Text) : Option (Value × Text) :=
  words.findSome? fun (word, value) =>
    if word.toList.isPrefixOf text then some (value, text.drop word.length) else none

/-- A number in digits, or one that is written as a word. -/
def plainNumber (text : Text) : Except ReadError (Value × Text) :=
  match radixNumber? text, decimalNumber? text with
  | some found, _ => .ok found
  | none, some (value, rest) => value.map fun value => (value, rest)
  | none, none => ReadError.ofOption (word? text)

/-- A truth value, date, time or number. -/
def plainScalar (text : Text) : Except ReadError (Value × Text) :=
  if "true".toList.isPrefixOf text then .ok (.bool true, text.drop 4)
  else if "false".toList.isPrefixOf text then .ok (.bool false, text.drop 5)
  else
    match moment? text with
    | some found => do
        let (moment, rest) ← ReadError.ofOption found
        return (.moment moment, rest)
    | none => plainNumber text

end SourceLayout.Toml
