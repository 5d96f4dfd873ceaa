import SourceLayout.Text.Basic

/-!
# Spacing that depends on the innermost bracket

Both passes keep the stack of open brackets, innermost first; any closing bracket removes the top.
They delete spaces and change nothing else.
-/

namespace SourceLayout.Spacing

def isOpening (c : Char) : Bool :=
  c == '(' || c == '[' || c == '{'

def isClosing (c : Char) : Bool :=
  c == ')' || c == ']' || c == '}'

/-- The brackets open after a character. -/
def openAfter (stack : List Char) (c : Char) : List Char :=
  if isOpening c then c :: stack
  else if isClosing c then stack.drop 1
  else stack

/-- No space stays next to a colon whose innermost bracket is `[`. `written` holds the text written
so far, last character first. -/
def sliceColonsFrom (stack : List Char) (written : Text) : Text → Text
  | [] => written.reverse
  | c :: cs =>
      let stack' := openAfter stack c
      let inSlice := stack'.head? == some '['
      if c = ':' ∧ inSlice then
        sliceColonsFrom stack' (':' :: written.dropWhile (· == ' ')) cs
      else if c = ' ' ∧ written.head? = some ':' ∧ inSlice then
        sliceColonsFrom stack' written cs
      else sliceColonsFrom stack' (c :: written) cs

def sliceColons (text : Text) : Text :=
  sliceColonsFrom [] [] text

/-- An open bracket, and whether a colon has been seen in it since it opened or since its last
comma. -/
structure Frame where
  bracket : Char
  annotated : Bool

/-- The frames open after a character. -/
def framesAfter (frames : List Frame) (c : Char) : List Frame :=
  if isOpening c then ⟨c, false⟩ :: frames
  else
    match frames with
    | [] => []
    | frame :: outer =>
        if isClosing c then outer
        else if frame.bracket = '(' ∧ c = ',' then { frame with annotated := false } :: outer
        else if frame.bracket = '(' ∧ c = ':' then { frame with annotated := true } :: outer
        else frames

/-- Whether an `=` between spaces binds a keyword here. -/
def bindsKeyword (frames : List Frame) (previous : Option Char) : Bool :=
  match frames, previous with
  | frame :: _, some c =>
      frame.bracket == '(' && !frame.annotated && !(c ∈ ['=', '!', '<', '>'])
  | _, _ => false

/-- An `=` that binds a keyword without annotation inside parentheses loses its spaces. `previous`
is the last character written. -/
def keywordArgumentsFrom (frames : List Frame) (previous : Option Char) : Text → Text
  | [] => []
  | ' ' :: '=' :: ' ' :: cs =>
      if bindsKeyword frames previous then '=' :: keywordArgumentsFrom frames (some '=') cs
      else ' ' :: keywordArgumentsFrom frames (some ' ') ('=' :: ' ' :: cs)
  | c :: cs => c :: keywordArgumentsFrom (framesAfter frames c) (some c) cs

def keywordArguments (text : Text) : Text :=
  keywordArgumentsFrom [] none text

end SourceLayout.Spacing
