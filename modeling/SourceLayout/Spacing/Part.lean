import SourceLayout.Text.Basic

/-!
# Spacing patterns

A pattern is a list of parts that match one after the other, each in at most one way: blanks are
respaced, everything else is kept. `respace` applies a pattern at every place from left to right;
what a pattern asks of the text around it is asked of the text as it was before.
-/

namespace SourceLayout.Spacing

inductive Part where
  /-- Asks something of the text before, nearest character first, and of the text after. -/
  | look (holds : Text → Text → Bool)
  /-- All blanks that stand here, at least `least`; they become one space or nothing. -/
  | gap (least : Nat) (spaced : Bool)
  /-- One ASCII space, which is removed. -/
  | space
  /-- The first of some texts that stands here. -/
  | token (choices : List Text)
  /-- All characters of a class that stand here, at least one, unless they form one of some
  words. -/
  | run (member : Char → Bool) (except : List Text)

/-- What a match has read and what it writes instead. -/
structure Match where
  read : Text
  written : Text

def Part.match? (before rest : Text) : Part → Option Match
  | .look holds => if holds before rest then some ⟨[], []⟩ else none
  | .gap least spaced =>
      let blanks := rest.takeWhile isBlank
      if least ≤ blanks.length then some ⟨blanks, if spaced then [' '] else []⟩ else none
  | .space =>
      match rest with
      | ' ' :: _ => some ⟨[' '], []⟩
      | _ => none
  | .token choices =>
      (choices.find? fun choice => choice.isPrefixOf rest).map fun choice => ⟨choice, choice⟩
  | .run member except =>
      let word := rest.takeWhile member
      if word.isEmpty || except.contains word then none else some ⟨word, word⟩

abbrev Pattern := List Part

def Pattern.match? (before rest : Text) : Pattern → Option Match
  | [] => some ⟨[], []⟩
  | part :: parts => do
      let first ← part.match? before rest
      let others ← Pattern.match? (first.read.reverse ++ before) (rest.drop first.read.length) parts
      return ⟨first.read ++ others.read, first.written ++ others.written⟩

/-- Respaces a text, passing over the next `skip` characters first. A match that reads nothing is
no match. -/
def Pattern.respaceFrom (pattern : Pattern) (before : Text) : Nat → Text → Text
  | _, [] => []
  | skip + 1, c :: cs => pattern.respaceFrom (c :: before) skip cs
  | 0, c :: cs =>
      match Pattern.match? before (c :: cs) pattern with
      | some ⟨_ :: read, written⟩ => written ++ pattern.respaceFrom (c :: before) read.length cs
      | _ => c :: pattern.respaceFrom (c :: before) 0 cs

def Pattern.respace (pattern : Pattern) (text : Text) : Text :=
  pattern.respaceFrom [] 0 text

namespace Part

/-- The character before, if there is one, is of a class. -/
def after (p : Char → Bool) : Part :=
  .look fun before _ => headIs p before

/-- No character of a class stands before. -/
def notAfter (p : Char → Bool) : Part :=
  .look fun before _ => !headIs p before

/-- The next character is of a class. -/
def ahead (p : Char → Bool) : Part :=
  .look fun _ rest => headIs p rest

/-- No character of a class is next. -/
def notAhead (p : Char → Bool) : Part :=
  .look fun _ rest => !headIs p rest

/-- The end of the text, or of its last line. -/
def atEnd : Part :=
  .look fun _ rest => rest.isEmpty || rest == ['\n']

/-- One of some characters. -/
def oneOf (chars : String) : Part :=
  .token (chars.toList.map fun c => [c])

/-- One of some texts. -/
def anyOf (texts : List String) : Part :=
  .token (texts.map String.toList)

/-- A text. -/
def exactly (text : String) : Part :=
  .token [text.toList]

/-- Any blanks, written as one space. -/
def spaced : Part := .gap 0 true

/-- Any blanks, removed. -/
def tight : Part := .gap 0 false

/-- At least one blank, written as one space. -/
def narrowed : Part := .gap 1 true

/-- At least one blank, removed. -/
def joined : Part := .gap 1 false

end Part

end SourceLayout.Spacing
