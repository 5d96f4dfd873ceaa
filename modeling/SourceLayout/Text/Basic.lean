import SourceLayout.Text.Letter
import SourceLayout.Text.Numeral

/-!
# Texts

A text is a list of characters. This module has the classes every other module speaks of (blanks
and word characters), trimming, and cutting a text at separators.
-/

namespace SourceLayout

abbrev Text := List Char

/-- White space of any kind, line ends included. -/
def isBlank (c : Char) : Bool :=
  c.toNat ∈ [0x20, 0x09, 0x0a, 0x0b, 0x0c, 0x0d, 0x1c, 0x1d, 0x1e, 0x1f, 0x85, 0xa0, 0x1680,
    0x2000, 0x2001, 0x2002, 0x2003, 0x2004, 0x2005, 0x2006, 0x2007, 0x2008, 0x2009, 0x200a,
    0x2028, 0x2029, 0x202f, 0x205f, 0x3000]

/-- Letters, numerals of any kind and the underscore. -/
def isWord (c : Char) : Bool :=
  if c.toNat < 128 then c.isAlphanum || c == '_'
  else letterRanges.has c.toNat || numeralRanges.has c.toNat

/-- Whether a text starts with a character of a class. -/
def headIs (p : Char → Bool) : Text → Bool
  | [] => false
  | c :: _ => p c

@[simp]
theorem headIs_nil (p : Char → Bool) : headIs p [] = false :=
  rfl

@[simp]
theorem headIs_cons (p : Char → Bool) (c : Char) (cs : Text) : headIs p (c :: cs) = p c :=
  rfl

namespace Text

def trimLeft (t : Text) : Text :=
  t.dropWhile isBlank

def trimRight (t : Text) : Text :=
  (t.reverse.dropWhile isBlank).reverse

def trim (t : Text) : Text :=
  trimRight (trimLeft t)

/-- Nothing but blanks. -/
def isEmptyLine (t : Text) : Bool :=
  t.all isBlank

/-- The blanks a text starts with. -/
def indentation (t : Text) : Text :=
  t.takeWhile isBlank

def startsWith (t start : Text) : Bool :=
  start.isPrefixOf t

def endsWith (t stop : Text) : Bool :=
  stop.isSuffixOf t

/-- Whether `part` occurs in the text. -/
def has (part : Text) : Text → Bool
  | [] => part.isEmpty
  | c :: cs => part.isPrefixOf (c :: cs) || has part cs

/-- Cuts a text at every character of a class; the cuts themselves are dropped. -/
def cutAt (p : Char → Bool) : Text → List Text
  | [] => [[]]
  | c :: cs =>
      if p c then [] :: cutAt p cs
      else
        match cutAt p cs with
        | [] => [[c]]
        | first :: rest => (c :: first) :: rest

/-- The lines of a text, cut at line feeds only. -/
def lines (t : Text) : List Text :=
  cutAt (· == '\n') t

/-- Lines put together again with a line feed between any two. -/
def ofLines (ls : List Text) : Text :=
  ['\n'].intercalate ls

/-- The maximal runs without blanks. -/
def chunks (t : Text) : List Text :=
  (cutAt isBlank t).filter fun chunk => !chunk.isEmpty

/-- Every run of blanks becomes one space, and none is left at either end. -/
def collapse (t : Text) : Text :=
  [' '].intercalate (chunks t)

theorem cutAt_ne_nil (p : Char → Bool) (t : Text) : cutAt p t ≠ [] := by
  cases t with
  | nil => simp [cutAt]
  | cons c cs =>
      rw [cutAt]
      split
      · simp
      · split <;> simp

theorem ofLines_lines (t : Text) : ofLines (lines t) = t := by
  unfold ofLines lines
  induction t with
  | nil => rfl
  | cons c cs ih =>
      rw [cutAt]
      cases hrest : cutAt (· == '\n') cs with
      | nil => exact absurd hrest (cutAt_ne_nil _ _)
      | cons first rest =>
          rw [hrest] at ih
          by_cases hc : c = '\n'
          · subst hc
            simp [List.intercalate] at ih ⊢
            rw [← ih]
          · simp [hc]
            cases rest with
            | nil => simpa [List.intercalate] using ih
            | cons second others =>
                simp [List.intercalate] at ih ⊢
                exact ih

end Text

end SourceLayout
