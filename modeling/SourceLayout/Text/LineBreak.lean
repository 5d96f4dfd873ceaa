import SourceLayout.Text.Basic

/-!
# Line breaks

Three views of lines meet here: any character that breaks a line, the line ends that editors count
by, and the single line feed that all line ends are turned into when a file is read.
-/

namespace SourceLayout.Text

/-- Characters that end a line when a text is split for display. -/
def isLineBreak (c : Char) : Bool :=
  c.toNat ∈ [0x0a, 0x0b, 0x0c, 0x0d, 0x1c, 0x1d, 0x1e, 0x85, 0x2028, 0x2029]

def consFirst (c : Char) : List Text → List Text
  | [] => [[c]]
  | first :: rest => (c :: first) :: rest

/-- The lines of a text, each with the break that ends it. A carriage return and the line feed after
it are one break. -/
def brokenLines : Text → List Text
  | [] => []
  | '\r' :: '\n' :: cs => ['\r', '\n'] :: brokenLines cs
  | c :: cs => if isLineBreak c then [c] :: brokenLines cs else consFirst c (brokenLines cs)

/-- A line without the break that ends it. -/
def dropBreak (line : Text) : Text :=
  line.takeWhile fun c => !isLineBreak c

/-- Characters that end a row as an editor counts them. -/
def isRowEnd (c : Char) : Bool :=
  c == '\n' || c == '\r'

/-- Every line end becomes one line feed. -/
def unifyBreaks : Text → Text
  | [] => []
  | '\r' :: '\n' :: cs => '\n' :: unifyBreaks cs
  | '\r' :: cs => '\n' :: unifyBreaks cs
  | c :: cs => c :: unifyBreaks cs

end SourceLayout.Text
