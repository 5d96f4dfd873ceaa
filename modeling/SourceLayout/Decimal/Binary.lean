/-!
# Binary floating-point numbers

A finite number is a mantissa below `2 ^ 53` times a power of two not below `2 ^ (-1074)`. A decimal
is rounded to the nearest such number, a tie to the even mantissa.
-/

namespace SourceLayout

inductive Binary where
  | finite (negative : Bool) (mantissa : Nat) (exponent : Int)
  | infinite (negative : Bool)
  | undefined
  deriving DecidableEq, Repr

namespace Binary

/-- All mantissas are below this power of two. -/
def mantissaLimit : Nat := 0x20000000000000

def leastExponent : Int := -1074

def greatestExponent : Int := 971

/-- A quotient rounded to the nearest integer, a tie to the even one. -/
def roundQuotient (numerator denominator : Nat) : Nat :=
  let quotient := numerator / denominator
  let rest := 2 * (numerator % denominator)
  if denominator < rest ∨ (rest = denominator ∧ quotient % 2 = 1) then quotient + 1 else quotient

/-- The exponent of the greatest power of two that a positive quotient reaches. -/
def binaryOrder (numerator denominator : Nat) : Int :=
  let guess : Int := numerator.log2 - denominator.log2
  let reached :=
    if 0 ≤ guess then denominator * Nat.pow 2 guess.toNat ≤ numerator
    else denominator ≤ numerator * Nat.pow 2 (-guess).toNat
  if reached then guess else guess - 1

/-- The number nearest to a positive quotient. -/
def ofQuotient (negative : Bool) (numerator denominator : Nat) : Binary :=
  let exponent := max leastExponent (binaryOrder numerator denominator - 52)
  let mantissa :=
    if 0 ≤ exponent then roundQuotient numerator (denominator * Nat.pow 2 exponent.toNat)
    else roundQuotient (numerator * Nat.pow 2 (-exponent).toNat) denominator
  let (mantissa, exponent) :=
    if mantissa = mantissaLimit then (mantissaLimit / 2, exponent + 1) else (mantissa, exponent)
  if greatestExponent < exponent then .infinite negative else .finite negative mantissa exponent

/-- The number of decimal digits of a natural number. -/
def digitCount (n : Nat) : Nat :=
  (Nat.toDigits 10 n).length

/-- The number nearest to `digits * 10 ^ scale`. Decimals far out of range are not multiplied
out. -/
def ofDecimal (negative : Bool) (digits : Nat) (scale : Int) : Binary :=
  let order := digitCount digits + scale
  if digits = 0 ∨ order < -330 then .finite negative 0 leastExponent
  else if 310 < order then .infinite negative
  else if 0 ≤ scale then ofQuotient negative (digits * Nat.pow 10 scale.toNat) 1
  else ofQuotient negative digits (Nat.pow 10 (-scale).toNat)

/-- Zero of either sign. -/
def isZero : Binary → Bool
  | .finite _ mantissa _ => mantissa == 0
  | _ => false

end Binary

end SourceLayout
