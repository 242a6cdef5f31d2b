import Manuscript.Number.Shortest
import Manuscript.Text.Numeral
import Manuscript.Text.Quoted

/-! Measurements such as `5.1cm`, `6em` or `0.25\textwidth`: a number and a unit, and their length in pixels in
single precision. -/

namespace Manuscript

inductive MeasureError where
  | malformed
  | notANumber (text : String)
  | outOfRange (text : String)
  | unsupportedUnit (unit : String)
deriving DecidableEq, Repr

namespace MeasureError

def message : MeasureError → String
  | malformed => "unable to parse measurement"
  | notANumber text => "strconv.ParseFloat: parsing " ++ Quoted.quote text ++ ": invalid syntax"
  | outOfRange text => "strconv.ParseFloat: parsing " ++ Quoted.quote text ++ ": value out of range"
  | unsupportedUnit unit => "measurement unit " ++ Quoted.quote unit ++ " is not supported"

end MeasureError

/-- A number in single precision, by its bit pattern, and the unit it is given in. -/
structure Measure where
  bits : Nat
  unit : String
deriving DecidableEq, Repr

namespace Measure

def isUnitChar (c : Char) : Bool := ('a' ≤ c && c ≤ 'z') || c = ' '

/-- A percent sign, or lower-case letters and spaces behind an optional backslash. -/
def isUnit : List Char → Bool
  | ['%'] => true
  | '\\' :: rest => rest.all isUnitChar
  | chars => chars.all isUnitChar

/-- The sign, the digits before the point and those behind it, with what follows the number. -/
structure Parts where
  negative : Bool
  whole : List Char
  fraction : List Char
  unit : List Char

/-- A point counts as part of the number only if a digit follows it. -/
def split (chars : List Char) : Parts :=
  let negative := chars.head? = some '-'
  let chars := if negative then chars.drop 1 else chars
  let whole := chars.takeWhile Numeral.isDigit
  match chars.dropWhile Numeral.isDigit with
  | '.' :: rest =>
    let fraction := rest.takeWhile Numeral.isDigit
    if fraction.isEmpty then ⟨negative, whole, [], '.' :: rest⟩
    else ⟨negative, whole, fraction, rest.dropWhile Numeral.isDigit⟩
  | rest => ⟨negative, whole, [], rest⟩

namespace Parts

def number (parts : Parts) : String :=
  String.ofList ((if parts.negative then ['-'] else []) ++ parts.whole ++
    (if parts.fraction.isEmpty then [] else '.' :: parts.fraction))

end Parts

def parse (raw : String) : Except MeasureError Measure :=
  let parts := split raw.toList
  if !isUnit parts.unit then .error .malformed
  else
    let digits := parts.whole ++ parts.fraction
    if digits.isEmpty then .error (.notANumber parts.number)
    else
      let magnitude := BinaryFormat.single.ofDecimal (Numeral.value digits) (-parts.fraction.length)
      if magnitude = BinaryFormat.single.infinity then .error (.outOfRange parts.number)
      else .ok ⟨BinaryFormat.single.signed parts.negative magnitude, String.ofList parts.unit⟩

/-- A factor or divisor, rounded to single precision as any number is. -/
def constant (digits : Nat) (places : Nat) : Nat := BinaryFormat.single.ofDecimal digits (-places)

/-- Combines a number with a positive constant by an exact operation on quotients and rounds the result. -/
def scale (bits constant : Nat) (divide : Bool) : Nat :=
  let format := BinaryFormat.single
  match format.value bits, format.value constant with
  | .finite negative mantissa exponent, .finite _ factor shift =>
    let (numerator, denominator) := if divide then (mantissa, factor) else (mantissa * factor, 1)
    let total := if divide then exponent - shift else exponent + shift
    let (numerator, denominator) := BinaryFormat.scaleDown numerator denominator (-total)
    format.signed negative (format.nearest numerator denominator)
  | .infinite _, _ => bits
  | _, _ => if bits / twoTo 22 % 2 = 1 then bits else bits + twoTo 22

def times (bits constant : Nat) : Nat := scale bits constant false

def dividedBy (bits constant : Nat) : Nat := scale bits constant true

/-- Pixels in a centimetre. -/
def pixelsPerCentimetre : Nat := constant 37795276 6

def toPixels (bits : Nat) (unit : String) : Except MeasureError Nat :=
  match unit with
  | "pt" => .ok (dividedBy (times bits pixelsPerCentimetre) (constant 284495 4))
  | "mm" => .ok (dividedBy (times bits pixelsPerCentimetre) (constant 10 0))
  | "cm" => .ok (times bits pixelsPerCentimetre)
  | "in" => .ok (times (times bits pixelsPerCentimetre) (constant 254 2))
  | "ex" => .ok (times (times bits pixelsPerCentimetre) (constant 15132 5))
  | "em" => .ok (times (times bits pixelsPerCentimetre) (constant 35146 5))
  | "px" => .ok bits
  | _ => .error (.unsupportedUnit unit)

/-- A measurement in pixels; without a unit the number is taken as pixels. -/
def pixels (raw : String) : Except MeasureError Nat := do
  let measure ← parse raw
  if measure.unit = "" then pure measure.bits else toPixels measure.bits measure.unit

end Measure
end Manuscript
