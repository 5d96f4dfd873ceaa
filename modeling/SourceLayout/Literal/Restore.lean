import SourceLayout.Literal.Basic

/-!
# Restoring literals

Marks are replaced by the spans they number. A span may hold marks of spans cut out before it, so
the replacement is repeated until no mark is left.
-/

namespace SourceLayout.Literal

inductive RestoreError where
  | unknownMark (number : Nat)
  | numberTooLong (digits : Nat)
  deriving DecidableEq, Repr

/-- The digits of the mark at the head of a text. -/
def markDigits? : Text → Option Text
  | [] => none
  | c :: cs =>
      let digits := cs.takeWhile isDecimal
      if c = markOpen ∧ digits ≠ [] ∧ (cs.dropWhile isDecimal).head? = some markClose then
        some digits
      else none

def literalAt (literals : List Text) (digits : Text) : Except RestoreError Text :=
  if digitLimit < digits.length then .error (.numberTooLong digits.length)
  else
    match literals[decimalValue digits]? with
    | some literal => .ok literal
    | none => .error (.unknownMark (decimalValue digits))

/-- Replaces every mark once, passing over the next `skip` characters first. -/
def restoreOnce (literals : List Text) : Nat → Text → Except RestoreError Text
  | _, [] => .ok []
  | skip + 1, _ :: cs => restoreOnce literals skip cs
  | 0, c :: cs =>
      match markDigits? (c :: cs) with
      | none => (restoreOnce literals 0 cs).map (c :: ·)
      | some digits => do
          let literal ← literalAt literals digits
          let rest ← restoreOnce literals (digits.length + 1) cs
          return literal ++ rest

def restoreTimes (literals : List Text) : Nat → Text → Except RestoreError Text
  | 0, text => .ok text
  | n + 1, text =>
      if markOpen ∈ text then restoreOnce literals 0 text >>= restoreTimes literals n
      else .ok text

def restore (masked : Masked) : Except RestoreError Text :=
  restoreTimes masked.literals (masked.literals.length + 1) masked.text

end SourceLayout.Literal
