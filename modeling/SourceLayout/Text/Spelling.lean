import SourceLayout.Text.Quoted

/-!
# Spelled texts

A file may spell a character by its number, and half of a surrogate pair that stands alone is the
number of no character. A spelled text keeps such halves beside its characters, so that two texts
are equal only if they are spelled alike.
-/

namespace SourceLayout

/-- A character, or half of a surrogate pair that stands alone. -/
inductive Sign where
  | char (c : Char)
  | half (code : Nat)
  deriving DecidableEq, Repr

def Sign.code : Sign → Nat
  | .char c => c.toNat
  | .half code => code

/-- The character with a number, or the half that has it. -/
def Sign.ofCode (code : Nat) : Sign :=
  if 0xd800 ≤ code ∧ code < 0xe000 then .half code else .char (Char.ofNat code)

abbrev Spelling := List Sign

namespace Spelling

def ofText (text : Text) : Spelling :=
  text.map .char

def ofString (text : String) : Spelling :=
  ofText text.toList

/-- The text that is spelled, if no half stands alone in it. -/
def text? (spelling : Spelling) : Option Text :=
  spelling.mapM fun sign =>
    match sign with
    | .char c => some c
    | .half _ => none

/-- The escape of a half. -/
def halfText (code : Nat) : Text :=
  '\\' :: 'u' :: Text.hex 4 code

/-- The text with escapes in place of halves, as a terminal shows it. -/
def shown (spelling : Spelling) : Text :=
  spelling.flatMap fun sign =>
    match sign with
    | .char c => [c]
    | .half code => halfText code

/-- The text in quotes. -/
def quote (spelling : Spelling) : Text :=
  let mark := Text.quoteMark (spelling.contains (.char '\'')) (spelling.contains (.char '"'))
  mark :: spelling.flatMap (fun sign =>
    match sign with
    | .char c => Text.escape mark c
    | .half code => halfText code) ++ [mark]

@[simp]
theorem text?_ofText (text : Text) : text? (ofText text) = some text := by
  induction text with
  | nil => rfl
  | cons c cs ih =>
      unfold text? ofText at ih ⊢
      simp only [List.map_cons, List.mapM_cons, ih]
      rfl

end Spelling

end SourceLayout
