import SourceLayout.Text.Basic

/-!
# Characters from bytes

Bytes are read one at a time. Between two of them the reader holds what it has seen of a longer
character. A byte that cannot go on with it leaves one replacement character behind and is read
again on its own.
-/

namespace SourceLayout.Text.Utf8

/-- A character that has begun: the bytes still missing, the bounds of the next one and the bits
read so far. -/
structure Pending where
  missing : Nat
  least : Nat
  most : Nat
  bits : Nat
  deriving DecidableEq, Repr

def replacement : Char := Char.ofNat 0xfffd

/-- The first byte of a longer character. The bounds of the second byte leave out longer spellings
of a character, surrogates and numbers above the last character. -/
def lead? (byte : Nat) : Option Pending :=
  if 0xc2 ≤ byte ∧ byte ≤ 0xdf then some ⟨1, 0x80, 0xbf, byte - 0xc0⟩
  else if 0xe0 ≤ byte ∧ byte ≤ 0xef then
    some ⟨2, if byte = 0xe0 then 0xa0 else 0x80, if byte = 0xed then 0x9f else 0xbf, byte - 0xe0⟩
  else if 0xf0 ≤ byte ∧ byte ≤ 0xf4 then
    some ⟨3, if byte = 0xf0 then 0x90 else 0x80, if byte = 0xf4 then 0x8f else 0xbf, byte - 0xf0⟩
  else none

/-- What a byte gives where a character may begin. -/
def begin (byte : Nat) : Text × Option Pending :=
  if byte < 0x80 then ([Char.ofNat byte], none)
  else
    match lead? byte with
    | some pending => ([], some pending)
    | none => ([replacement], none)

def step (byte : Nat) : Option Pending → Text × Option Pending
  | none => begin byte
  | some pending =>
      if pending.least ≤ byte ∧ byte ≤ pending.most then
        let bits := pending.bits * 64 + (byte - 0x80)
        if pending.missing = 1 then ([Char.ofNat bits], none)
        else ([], some ⟨pending.missing - 1, 0x80, 0xbf, bits⟩)
      else
        let (read, next) := begin byte
        (replacement :: read, next)

def readFrom : Option Pending → List Nat → Text
  | none, [] => []
  | some _, [] => [replacement]
  | pending, byte :: bytes =>
      let (read, next) := step byte pending
      read ++ readFrom next bytes

/-- The text of some bytes, with a replacement character for each longest part that is no
character. -/
def read (bytes : List Nat) : Text :=
  readFrom none bytes

example : read [0x61, 0xe6, 0x97, 0xa5] = "a日".toList := by decide

example : read [0xe6, 0x97, 0x61, 0xff] = "\uFFFDa\uFFFD".toList := by decide

example : read [0xed, 0xa0, 0x80] = "\uFFFD\uFFFD\uFFFD".toList := by decide

end SourceLayout.Text.Utf8
