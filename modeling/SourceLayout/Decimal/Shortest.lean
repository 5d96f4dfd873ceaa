import SourceLayout.Decimal.Binary

/-!
# The shortest decimal text of a binary number

A number is written with the fewest digits that read back as the same number, and of those with the
ones nearest to it. Exponents from -4 to 15 are written positionally.
-/

namespace SourceLayout.Binary

/-- `mantissa * 2 ^ exponent * 10 ^ scale` as a quotient. -/
def scaled (mantissa : Nat) (exponent scale : Int) : Nat × Nat :=
  (mantissa * Nat.pow 2 exponent.toNat * Nat.pow 10 scale.toNat,
    Nat.pow 2 (-exponent).toNat * Nat.pow 10 (-scale).toNat)

/-- A decimal of a given scale that reads back as the number: of its two neighbours on that grid the
nearer one that does. -/
def decimalAt? (mantissa : Nat) (exponent scale : Int) : Option Nat :=
  let (numerator, denominator) := scaled mantissa exponent scale
  let below := numerator / denominator
  let rest := 2 * (numerator % denominator)
  let preferBelow := rest < denominator ∨ (rest = denominator ∧ below % 2 = 0)
  let order := if preferBelow then [below, below + 1] else [below + 1, below]
  order.find? fun digits => ofDecimal false digits (-scale) == .finite false mantissa exponent

/-- The decimal order: the number of digits before the point. -/
def decimalOrder (mantissa : Nat) (exponent : Int) : Int :=
  let (numerator, denominator) := scaled mantissa exponent 0
  if denominator ≤ numerator then digitCount (numerator / denominator)
  else
    -- The first power of ten that brings the number to one or above.
    let inverse := (denominator + numerator - 1) / numerator
    let guess := digitCount inverse
    let reached := fun n : Nat => denominator ≤ numerator * Nat.pow 10 n
    if 0 < guess ∧ reached (guess - 1) then 1 - (guess - 1 : Int) else 1 - (guess : Int)

/-- The fewest digits, at least `count` and at most `count + more`, and their scale. -/
def shortestFrom (mantissa : Nat) (exponent order : Int) (count : Nat) : Nat → Nat × Int
  | 0 => ((decimalAt? mantissa exponent (count - order)).getD 0, count - order)
  | more + 1 =>
      match decimalAt? mantissa exponent (count - order) with
      | some digits => (digits, count - order)
      | none => shortestFrom mantissa exponent order (count + 1) more

/-- Digits without trailing zeros, and the place of the point: the value is
`0.digits * 10 ^ place`. -/
def digitsAndPlace (mantissa : Nat) (exponent : Int) : List Char × Int :=
  let order := decimalOrder mantissa exponent
  let (digits, scale) := shortestFrom mantissa exponent order 1 16
  let text := Nat.toDigits 10 digits
  let place := (text.length : Int) - scale
  ((text.reverse.dropWhile (· == '0')).reverse, place)

def exponentText (exponent : Int) : String :=
  let digits := toString exponent.natAbs
  "e" ++ (if exponent < 0 then "-" else "+") ++ (if digits.length < 2 then "0" else "") ++ digits

/-- Digits written out around the point at a place. -/
def placed (digits : List Char) (place : Int) : String :=
  let zeros (n : Int) : List Char := List.replicate n.toNat '0'
  if place ≤ -4 ∨ 16 < place then
    let fraction := if digits.length ≤ 1 then [] else '.' :: digits.drop 1
    String.ofList (digits.take 1 ++ fraction) ++ exponentText (place - 1)
  else if place ≤ 0 then "0." ++ String.ofList (zeros (-place) ++ digits)
  else if digits.length ≤ place then
    String.ofList (digits ++ zeros (place - digits.length)) ++ ".0"
  else String.ofList (digits.take place.toNat ++ '.' :: digits.drop place.toNat)

def text : Binary → String
  | .undefined => "nan"
  | .infinite negative => if negative then "-inf" else "inf"
  | .finite negative mantissa exponent =>
      let sign := if negative then "-" else ""
      if mantissa = 0 then sign ++ "0.0"
      else
        let (digits, place) := digitsAndPlace mantissa exponent
        sign ++ placed digits place

end SourceLayout.Binary
