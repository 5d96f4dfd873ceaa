import SourceLayout.Indent

/-!
# Declarations of functions

A declaration is recognised by the shape of one trimmed line, and its span runs to the line that
closes its braces or, where indentation delimits blocks, to the last deeper line.
-/

namespace SourceLayout.Layout

/-- The text after `start`, if a text starts with it. -/
def after? (start text : Text) : Option Text :=
  if start.isPrefixOf text then some (text.drop start.length) else none

/-- The text after a keyword and the blanks that must follow it. -/
def afterKeyword? (keyword : String) (text : Text) : Option Text := do
  let rest ← after? keyword.toList text
  if headIs isBlank rest then some rest.trimLeft else none

/-- The text after a keyword and its blanks if it is there, else the text. -/
def skipKeyword (keyword : String) (text : Text) : Text :=
  (afterKeyword? keyword text).getD text

/-- A word at the head of a text and the text after it. -/
def word? (text : Text) : Option (Text × Text) :=
  let word := text.takeWhile isWord
  if word.isEmpty then none else some (word, text.drop word.length)

/-- A word, any blanks and an opening parenthesis; the text after it comes second. -/
def callee? (text : Text) : Option (Text × Text) := do
  let (name, rest) ← word? text
  let rest ← after? ['('] rest.trimLeft
  return (name, rest)

/-- Whether a closing parenthesis of the line is followed by an arrow. -/
def hasArrow : Text → Bool
  | [] => false
  | c :: cs =>
      if c = '\n' then false
      else (c = ')' && (Text.trimLeft cs).startsWith "=>".toList) || hasArrow cs

/-- Whether a text starts with a function expression. -/
def isFunctionValue (text : Text) : Bool :=
  match after? "function".toList text with
  | some rest => !headIs isWord rest
  | none =>
      match text with
      | '(' :: rest => hasArrow rest
      | _ => false

/-- `function name`, with or without a star. -/
def namedFunction? (text : Text) : Option Text := do
  let rest ← after? "function".toList text
  let rest := rest.trimLeft
  let rest := ((after? ['*'] rest).getD rest).trimLeft
  let (name, _) ← word? rest
  return name

/-- `const name = function` and the like. -/
def boundFunction? (text : Text) : Option Text := do
  let rest ← ["const", "let", "var"].findSome? fun keyword => afterKeyword? keyword text
  let (name, rest) ← word? rest
  let value ← after? ['='] rest.trimLeft
  if isFunctionValue (skipKeyword "async" value.trimLeft) then some name else none

def javascriptFunction? (line : Text) : Option Text :=
  let rest := skipKeyword "async" (skipKeyword "default" (skipKeyword "export" line))
  (namedFunction? rest).or (boundFunction? rest)

def pythonFunction? (line : Text) : Option Text := do
  let rest ← afterKeyword? "def" (skipKeyword "async" line)
  let (name, _) ← callee? rest
  return name

/-- The text after any number of `[]`. -/
def skipArrays : Text → Text
  | '[' :: ']' :: rest => skipArrays rest
  | text => text

/-- A type, with its arguments and array brackets, blanks, a name and a parenthesis. -/
def typedMethod? (text : Text) : Option Text := do
  let (type, rest) ← word? text
  if ["return", "new", "else", "throw", "case"].any (·.toList == type) then none
  else
    let rest :=
      match rest with
      | '<' :: arguments =>
          match arguments.dropWhile (· ≠ '>') with
          | _ :: rest => rest
          | [] => rest
      | _ => rest
    let rest := skipArrays rest
    if headIs isBlank rest then (callee? rest.trimLeft).map Prod.fst else none

/-- A modifier may also be the type itself, so the readings that take most words as modifiers are
tried first. -/
def javaMethod? (line : Text) : Option Text :=
  let plain (text : Text) : Option Text :=
    ((afterKeyword? "static" text).bind typedMethod?).or (typedMethod? text)
  let modified := ["public", "private", "protected"].findSome? fun word => afterKeyword? word line
  (modified.bind plain).or (plain line)

/-- The text after any number of words with `::` behind them. -/
def skipScopes (fuel : Nat) (text : Text) : Text :=
  match fuel with
  | 0 => text
  | fuel + 1 =>
      match word? text with
      | some (_, ':' :: ':' :: rest) => skipScopes fuel rest
      | _ => text

/-- A name, a parameter list and an opening brace. -/
def definedFunction? (text : Text) : Option Text := do
  let (name, rest) ← callee? (skipScopes text.length text)
  if ["if", "for", "while", "switch", "catch", "return"].any (·.toList == name) then none
  else
    let rest ← after? [')'] (rest.dropWhile (· ≠ ')'))
    let rest := rest.trimLeft
    let rest := ((after? "const".toList rest).map Text.trimLeft).getD rest
    if headIs (· == '{') rest then some name else none

/-- The text after a word and the blanks, stars and ampersands that must follow it. -/
def afterType? (text : Text) : Option Text := do
  let (_, rest) ← word? text
  let isGlue (c : Char) : Bool := isBlank c || c == '*' || c == '&'
  if headIs isGlue rest then some (rest.dropWhile isGlue) else none

/-- A function after as many type words as possible, but at least one. -/
def cFunctionFrom (fuel : Nat) (text : Text) : Option Text :=
  match fuel with
  | 0 => none
  | fuel + 1 =>
      (afterType? text).bind fun rest => (cFunctionFrom fuel rest).or (definedFunction? rest)

def cFunction? (line : Text) : Option Text :=
  cFunctionFrom line.length line

/-- The name of the function that a trimmed line declares. -/
def declared? (family : Family) (language : Option Text) (line : Text) : Option Text :=
  match family with
  | .javascript => javascriptFunction? line
  | .python => pythonFunction? line
  | .cFamily => if language = some "java".toList then javaMethod? line else cFunction? line
  | .html | .css => none

/-- The lines of one function, both ends included. -/
structure Span where
  start : Nat
  stop : Nat
  name : Text
  deriving DecidableEq, Repr

/-- Braces balanced so far, and whether one has been opened. -/
structure Balance where
  depth : Int
  opened : Bool

def Balance.after (balance : Balance) (c : Char) : Balance :=
  if c = '{' then ⟨balance.depth + 1, true⟩
  else if c = '}' then { balance with depth := balance.depth - 1 }
  else balance

/-- How many lines follow before the braces are closed: all of them if they never are. -/
def braceReach (family : Family) (balance : Balance) : List Text → Nat
  | [] => 0
  | line :: lines =>
      let balance := (Literal.bareCode family line.trim).foldl Balance.after balance
      if lines.isEmpty || (balance.opened && balance.depth ≤ 0) then 0
      else braceReach family balance lines + 1

/-- How many of the following lines belong to a block whose first line has a width: all up to the
last deeper one before a line that is not deeper. `blanks` counts the blank lines just passed. -/
def indentReach (base : Int) (blanks : Nat) : List Text → Nat
  | [] => 0
  | line :: lines =>
      if line.isEmptyLine then indentReach base (blanks + 1) lines
      else if Indent.width 4 line ≤ base then 0
      else blanks + 1 + indentReach base 0 lines

/-- How many lines after its first one the function that starts a list of lines has. -/
def reach (family : Family) : List Text → Nat
  | [] => 0
  | line :: lines =>
      if family = .python then indentReach (Indent.width 4 line) 0 lines
      else braceReach family ⟨0, false⟩ (line :: lines)

/-- The functions declared in some lines, the first of which has the number `index`; the next `skip`
lines are inside a function already found. -/
def spansFrom (family : Family) (language : Option Text) (index : Nat) :
    Nat → List Text → List Span
  | _, [] => []
  | skip + 1, _ :: lines => spansFrom family language (index + 1) skip lines
  | 0, line :: lines =>
      match declared? family language line.trim with
      | none => spansFrom family language (index + 1) 0 lines
      | some name =>
          let length := reach family (line :: lines)
          ⟨index, index + length, name⟩ :: spansFrom family language (index + 1) length lines

def spans (family : Family) (language : Option Text) (lines : List Text) : List Span :=
  spansFrom family language 0 0 lines

end SourceLayout.Layout
