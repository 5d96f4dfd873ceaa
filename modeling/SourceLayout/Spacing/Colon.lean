import SourceLayout.Spacing.Part

/-!
# Key colons and declaration colons

A colon after a key is written `key: value`, a colon that closes a conditional keeps its spacing.
The text is cut at its question marks and colons; each `?` is one pending conditional and the next
single colon closes it.
-/

namespace SourceLayout.Spacing

/-- What a text is cut at. -/
inductive Joint where
  | coalesce
  | chain
  | optionalKey
  | question
  | colon
  deriving DecidableEq, Repr

def Joint.text : Joint → Text
  | .coalesce => ['?', '?']
  | .chain => ['?', '.']
  | .optionalKey => ['?', ':']
  | .question => ['?']
  | .colon => [':']

/-- A text cut at its joints: the text before the first one, then each joint with the text after. -/
structure Cut where
  first : Text
  others : List (Joint × Text)

def Cut.push (c : Char) (cut : Cut) : Cut :=
  ⟨c :: cut.first, cut.others⟩

def Cut.join (joint : Joint) (cut : Cut) : Cut :=
  ⟨[], (joint, cut.first) :: cut.others⟩

def cut : Text → Cut
  | [] => ⟨[], []⟩
  | '?' :: '?' :: cs => (cut cs).join .coalesce
  | '?' :: '.' :: cs => (cut cs).join .chain
  | '?' :: ':' :: cs => (cut cs).join .optionalKey
  | '?' :: cs => (cut cs).join .question
  | ':' :: cs => (cut cs).join .colon
  | c :: cs => (cut cs).push c

/-- The text after a key colon starts with one space, if anything but blanks is in it. -/
def afterKey (text : Text) : Text :=
  match text.trimLeft with
  | [] => []
  | rest => ' ' :: rest

/-- `pending` counts the conditionals still open, and `first` is already spaced on its left. -/
def spaceKeys (pending : Nat) (first : Text) : List (Joint × Text) → Text
  | [] => first
  | (.question, text) :: others => first ++ ['?'] ++ spaceKeys (pending + 1) text others
  | (.colon, text) :: others =>
      match pending with
      | 0 => first.trimRight ++ [':'] ++ spaceKeys 0 (afterKey text) others
      | pending + 1 => first ++ [':'] ++ spaceKeys pending text others
  | (.optionalKey, text) :: others =>
      first.trimRight ++ ['?', ':'] ++ spaceKeys pending (afterKey text) others
  | (joint, text) :: others => first ++ joint.text ++ spaceKeys pending text others

def keyColons (text : Text) : Text :=
  spaceKeys 0 (cut text).first (cut text).others

/-- A single colon, which one space follows. -/
def declarationColon : Pattern :=
  [.tight, .notAfter (· == ':'), .exactly ":", .notAhead (· == ':'), .spaced]

/-- The text up to and including its last opening brace, and the text after it. -/
def splitAtLastBrace? (text : Text) : Option (Text × Text) :=
  let tail := (text.reverse.takeWhile (· ≠ '{')).reverse
  if tail.length < text.length then some (text.take (text.length - tail.length), tail) else none

/-- Colons of declarations are spaced; those of selectors, before the last opening brace or on a
line that ends in a comma, are left alone. -/
def declarationColons (text : Text) : Text :=
  if text.startsWith ['@'] then declarationColon.respace text
  else
    match splitAtLastBrace? text with
    | some (selector, declarations) => selector ++ declarationColon.respace declarations
    | none => if text.endsWith [','] then text else declarationColon.respace text

end SourceLayout.Spacing
