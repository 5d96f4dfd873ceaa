import SourceLayout.Text.Basic
import SourceLayout.Text.Printable

/-!
# Quoted texts

A text in quotes, as messages show it. Single quotes are used unless the text has one and no double
quote; characters that cannot be printed are written as escapes.
-/

namespace SourceLayout.Text

/-- A number in lower-case hexadecimal, padded with zeros to a width. -/
def hex (width n : Nat) : Text :=
  let digits := Nat.toDigits 16 n
  List.replicate (width - digits.length) '0' ++ digits

def escape (quote c : Char) : Text :=
  if c = quote ∨ c = '\\' then ['\\', c]
  else if c = '\t' then ['\\', 't']
  else if c = '\n' then ['\\', 'n']
  else if c = '\r' then ['\\', 'r']
  else if isPrintable c then [c]
  else if c.toNat < 0x100 then '\\' :: 'x' :: hex 2 c.toNat
  else if c.toNat < 0x10000 then '\\' :: 'u' :: hex 4 c.toNat
  else '\\' :: 'U' :: hex 8 c.toNat

/-- The quote for a text of which is known what quotes it has. -/
def quoteMark (hasSingle hasDouble : Bool) : Char :=
  if hasSingle && !hasDouble then '"' else '\''

def quote (text : Text) : Text :=
  let mark := quoteMark (text.contains '\'') (text.contains '"')
  mark :: text.flatMap (escape mark) ++ [mark]

end SourceLayout.Text
