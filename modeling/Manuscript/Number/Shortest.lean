import Manuscript.Number.Binary

/-! The shortest decimal that reads back as a given binary number, and its positional notation. -/

namespace Manuscript.Shortest

/-- `digits * 10 ^ exponent`. -/
structure Decimal where
  digits : Nat
  exponent : Int
deriving DecidableEq, Repr

/-- The reals that round to a value, as bounds in units of `1 / denominator`; both count as inside when `closed`. -/
structure Interval where
  low : Nat
  middle : Nat
  high : Nat
  denominator : Nat
  closed : Bool

/-- Below a power of two the neighbours are half as far apart, except at the bottom of the range. -/
def interval (format : BinaryFormat) (mantissa : Nat) (exponent : Int) : Interval :=
  let narrow := mantissa = twoTo format.fractionBits && format.leastExponent < exponent
  let low := if narrow then 4 * mantissa - 1 else 4 * mantissa - 2
  let (scale, denominator) := if 0 ≤ exponent then (twoTo exponent.toNat, 4) else (1, 4 * twoTo (-exponent).toNat)
  ⟨low * scale, 4 * mantissa * scale, (4 * mantissa + 2) * scale, denominator, mantissa % 2 = 0⟩

/-- Whether `digits * 10 ^ exponent` lies in the interval. -/
def Interval.contains (range : Interval) (decimal : Decimal) : Bool :=
  let point := if 0 ≤ decimal.exponent then decimal.digits * tenTo decimal.exponent.toNat * range.denominator
    else decimal.digits * range.denominator
  let scale := if 0 ≤ decimal.exponent then 1 else tenTo (-decimal.exponent).toNat
  if range.closed then range.low * scale ≤ point && point ≤ range.high * scale
  else range.low * scale < point && point < range.high * scale

/-- The point of the grid of multiples of `10 ^ exponent` that lies in the interval, the nearer one of two. -/
def onGrid (range : Interval) (exponent : Int) : Option Decimal :=
  let numerator := if 0 ≤ exponent then range.middle else range.middle * tenTo (-exponent).toNat
  let denominator := if 0 ≤ exponent then range.denominator * tenTo exponent.toNat else range.denominator
  let below : Decimal := ⟨numerator / denominator, exponent⟩
  let above : Decimal := ⟨numerator / denominator + 1, exponent⟩
  let inside := (range.contains below, range.contains above)
  if inside = (true, true) then
    let twice := 2 * (numerator % denominator)
    if twice < denominator || (twice = denominator && below.digits % 2 = 0) then some below else some above
  else if inside.1 then some below
  else if inside.2 then some above
  else none

/-- The coarsest grid with a point in the interval, from `exponent` downwards. -/
def search (range : Interval) : (steps : Nat) → (exponent : Int) → Decimal
  | 0, exponent => ⟨0, exponent⟩
  | steps + 1, exponent =>
    match onGrid range exponent with
    | some decimal => if decimal.digits = 0 then search range steps (exponent - 1) else decimal
    | none => search range steps (exponent - 1)

/-- The fewest digits that read back as `mantissa * 2 ^ exponent`. -/
def decimal (format : BinaryFormat) (mantissa : Nat) (exponent : Int) : Decimal :=
  if mantissa = 0 then ⟨0, 0⟩
  else
    let size : Int := mantissa.log2 + exponent
    -- One more than the number of decimal places before the point, or none of them.
    let start : Int := if 0 ≤ size then size * 3 / 10 + 2 else -((-size) * 3 / 10) + 2
    search (interval format mantissa exponent) 800 start

def stripZeros : (steps : Nat) → Decimal → Decimal
  | 0, decimal => decimal
  | steps + 1, decimal =>
    if decimal.digits ≠ 0 && decimal.digits % 10 = 0 then stripZeros steps ⟨decimal.digits / 10, decimal.exponent + 1⟩
    else decimal

/-- Positional notation without an exponent. -/
def Decimal.positional (decimal : Decimal) : String :=
  let digits := (toString decimal.digits).toList
  if 0 ≤ decimal.exponent then String.ofList (digits ++ List.replicate decimal.exponent.toNat '0')
  else
    let places := (-decimal.exponent).toNat
    let padded := List.replicate (places + 1 - digits.length) '0' ++ digits
    String.ofList (padded.take (padded.length - places) ++ '.' :: padded.drop (padded.length - places))

/-- A number of a binary format in positional notation. -/
def text (format : BinaryFormat) (bits : Nat) : String :=
  match format.value bits with
  | .invalid => "NaN"
  | .infinite negative => if negative then "-Inf" else "+Inf"
  | .finite negative mantissa exponent =>
    let decimal := decimal format mantissa exponent
    let shown := if decimal.digits = 0 then "0" else (stripZeros 400 decimal).positional
    if negative then "-" ++ shown else shown

end Manuscript.Shortest
