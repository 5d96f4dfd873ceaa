import SourceLayout.Language

/-!
# Comments of a line

A line is scanned from left to right, with the delimiter of the literal it is inside of, if any.
A delimiter counts unless the character before it is a backslash. Lines are looked at one by one,
so a comment or literal that spans lines is only recognised by the shape of each line.
-/

namespace SourceLayout

def Family.quotes : Family → Text
  | .javascript => ['\'', '"', '`']
  | _ => ['\'', '"']

/-- The delimiter that ends the literal which `c` starts after `previous`. -/
def Family.literalEnd? (family : Family) (previous : Option Char) (c : Char) : Option Char :=
  if c ∈ family.quotes then some c
  else if family = .javascript ∧ c = '/' ∧ previous = some '(' then some '/'
  else none

/-- Whether a comment starts at the head of the text. -/
def Family.opensComment : Family → Text → Bool
  | .javascript, '/' :: c :: _ => c == '/' || c == '*'
  | .cFamily, '/' :: c :: _ => c == '/' || c == '*'
  | .python, '#' :: _ => true
  | _, _ => false

namespace Comment

/-- The place of the first comment, scanning inside the literal that `inside` ends, if any. -/
def startFrom (family : Family) (previous inside : Option Char) : Text → Option Nat
  | [] => none
  | c :: cs =>
      match inside with
      | some stop =>
          let inside' := if c = stop ∧ previous ≠ some '\\' then none else some stop
          (startFrom family (some c) inside' cs).map (· + 1)
      | none =>
          if family.opensComment (c :: cs) then some 0
          else (startFrom family (some c) (family.literalEnd? previous c) cs).map (· + 1)

/-- The place of the first comment marker outside any literal. -/
def start? (family : Family) (line : Text) : Option Nat :=
  startFrom family none none line

/-- A line as its code and the comment after it. -/
structure Split where
  code : Text
  comment : Text

def Split.hasComment (split : Split) : Bool :=
  !split.comment.isEmpty

def split (family : Family) (line : Text) : Split :=
  match start? family line with
  | none => ⟨line, []⟩
  | some place => ⟨Text.trimRight (line.take place), line.drop place⟩

/-- Openers, closers and continuation lines of a block comment. -/
def isBlockLine (line : Text) : Bool :=
  line.startsWith ['/', '*'] || line.startsWith ['*', '/'] || line.startsWith ['*', ' '] ||
    line == ['*'] || (line.endsWith ['*', '/'] && !Text.has ['/', '*'] line)

/-- Whether a trimmed line starts with a comment marker; `#!` starts no comment. -/
def isMarked (marker line : Text) : Bool :=
  line.startsWith marker && !(marker == ['#'] && line.startsWith ['#', '!'])

/-- A trimmed line that holds a comment and nothing before it. -/
def isStandalone (family : Family) (line : Text) : Bool :=
  match family.commentMarker? with
  | none => false
  | some marker => isMarked marker line

/-- Runs of two or more blanks become one space. -/
def squeezeRuns : Text → Text
  | [] => []
  | [c] => [c]
  | c :: d :: cs =>
      if isBlank c && isBlank d then
        match cs with
        | e :: _ => if isBlank e then squeezeRuns (d :: cs) else ' ' :: squeezeRuns cs
        | [] => [' ']
      else c :: squeezeRuns (d :: cs)

/-- One space after a leading marker that blanks follow, and single spaces for inner runs. -/
def normalize (comment : Text) : Text :=
  let text := comment.trim
  let led :=
    match text with
    | '/' :: '/' :: c :: cs => if isBlank c then '/' :: '/' :: ' ' :: Text.trimLeft cs else text
    | '#' :: c :: cs => if isBlank c then '#' :: ' ' :: Text.trimLeft cs else text
    | _ => text
  squeezeRuns led

end Comment

end SourceLayout
