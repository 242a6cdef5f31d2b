import Manuscript.Number.Power

/-! Binary floating point in exact integer arithmetic: the value a bit pattern stands for, and the pattern nearest
to a quotient of two integers, a tie going to the even one. -/

namespace Manuscript

/-- A binary interchange format. -/
structure BinaryFormat where
  fractionBits : Nat
  exponentBits : Nat
deriving DecidableEq, Repr

/-- What a bit pattern stands for; a finite value is `mantissa * 2 ^ exponent`. -/
inductive BinaryValue where
  | finite (negative : Bool) (mantissa : Nat) (exponent : Int)
  | infinite (negative : Bool)
  | invalid
deriving DecidableEq, Repr

namespace BinaryFormat

def single : BinaryFormat := ⟨23, 8⟩

def double : BinaryFormat := ⟨52, 11⟩

/-- The exponent of the last place of the smallest numbers. -/
def leastExponent (format : BinaryFormat) : Int := 2 - twoTo (format.exponentBits - 1) - format.fractionBits

def signBit (format : BinaryFormat) : Nat := twoTo (format.fractionBits + format.exponentBits)

def infinity (format : BinaryFormat) : Nat := (twoTo format.exponentBits - 1) * twoTo format.fractionBits

def value (format : BinaryFormat) (bits : Nat) : BinaryValue :=
  let negative := format.signBit ≤ bits
  let magnitude := bits % format.signBit
  let fraction := magnitude % twoTo format.fractionBits
  let exponent := magnitude / twoTo format.fractionBits
  if format.infinity < magnitude then .invalid
  else if magnitude = format.infinity then .infinite negative
  else if exponent = 0 then .finite negative fraction format.leastExponent
  else .finite negative (fraction + twoTo format.fractionBits) (format.leastExponent + exponent - 1)

def signed (format : BinaryFormat) (negative : Bool) (magnitude : Nat) : Nat :=
  if negative then format.signBit + magnitude else magnitude

/-- `numerator / denominator` to the nearest integer, a half to the even one. -/
def roundQuotient (numerator denominator : Nat) : Nat :=
  let quotient := numerator / denominator
  let twice := 2 * (numerator % denominator)
  if twice < denominator || (twice = denominator && quotient % 2 = 0) then quotient else quotient + 1

/-- A quotient divided by a power of two, again as a quotient. -/
def scaleDown (numerator denominator : Nat) (exponent : Int) : Nat × Nat :=
  if 0 ≤ exponent then (numerator, denominator * twoTo exponent.toNat) else (numerator * twoTo (-exponent).toNat, denominator)

/-- The magnitude nearest to a quotient, infinity when it is too large. -/
def nearest (format : BinaryFormat) (numerator denominator : Nat) : Nat :=
  if numerator = 0 then 0
  else
    let guess : Int := numerator.log2 - denominator.log2 - format.fractionBits - 1
    let low := max format.leastExponent guess
    let (n, d) := scaleDown numerator denominator low
    let exponent := if twoTo (format.fractionBits + 1) ≤ n / d then low + 1 else low
    let (n, d) := scaleDown numerator denominator exponent
    let mantissa := roundQuotient n d
    -- A mantissa without the leading bit occurs at the least exponent only, so places just add up, and rounding
    -- up to the next power of two carries into the exponent.
    min format.infinity (mantissa + (exponent - format.leastExponent).toNat * twoTo format.fractionBits)

/-- The magnitude nearest to `digits * 10 ^ exponent`. -/
def ofDecimal (format : BinaryFormat) (digits : Nat) (exponent : Int) : Nat :=
  if 0 ≤ exponent then format.nearest (digits * tenTo exponent.toNat) 1
  else format.nearest digits (tenTo (-exponent).toNat)

end BinaryFormat
end Manuscript
