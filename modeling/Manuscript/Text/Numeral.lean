import Manuscript.Text.Hex

/-! Numbers and truth values as attributes and settings spell them. -/

namespace Manuscript.Numeral

def isDigit (c : Char) : Bool := '0' ≤ c && c ≤ '9'

def digitValue (c : Char) : Nat := c.toNat - '0'.toNat

def value (digits : List Char) : Nat := digits.foldl (fun total digit => 10 * total + digitValue digit) 0

/-- Decimal digits only, and at least one of them. -/
def nat? (chars : List Char) : Option Nat :=
  if !chars.isEmpty && chars.all isDigit then some (value chars) else none

/-- The first magnitude beyond the positive numbers of 64 bits. -/
def signedLimit : Nat := 0x8000000000000000

/-- The signed number of 64 bits with a given magnitude. -/
def signed? (negative : Bool) (magnitude : Nat) : Option Int :=
  if negative then if magnitude ≤ signedLimit then some (-magnitude) else none
  else if magnitude < signedLimit then some magnitude else none

/-- A number with a sign in front, or without one. -/
def withSign? (magnitude? : List Char → Option Nat) (text : String) : Option Int :=
  match text.toList with
  | '-' :: digits => (magnitude? digits).bind (signed? true)
  | '+' :: digits => (magnitude? digits).bind (signed? false)
  | digits => (magnitude? digits).bind (signed? false)

/-- A signed decimal number that fits in 64 bits. -/
def int? (text : String) : Option Int := withSign? nat? text

/-- Digits in which an underscore stands only between two of them, without the underscores. -/
def grouped (isDigit : Char → Bool) : List Char → Option (List Char)
  | [] => none
  | [c] => if isDigit c then some [c] else none
  | c :: '_' :: rest => if isDigit c then (grouped isDigit rest).map (c :: ·) else none
  | c :: rest => if isDigit c then (grouped isDigit rest).map (c :: ·) else none

def isDigitOf (base : Nat) (c : Char) : Bool := (Hex.value? c).any (· < base)

def valueIn (base : Nat) (digits : List Char) : Nat :=
  digits.foldl (fun total digit => base * total + (Hex.value? digit).getD 0) 0

/-- The base a number is written in, and its digits. A mark behind a zero names the base, a zero alone means eight.
The zero counts as a digit, so an underscore may follow the mark. -/
def basedDigits (chars : List Char) : Nat × List Char :=
  match chars with
  | '0' :: mark :: digit :: rest =>
    if mark = 'b' || mark = 'B' then (2, '0' :: digit :: rest)
    else if mark = 'o' || mark = 'O' then (8, '0' :: digit :: rest)
    else if mark = 'x' || mark = 'X' then (16, '0' :: digit :: rest)
    else (8, chars)
  | '0' :: _ => (8, chars)
  | _ => (10, chars)

def basedNat? (chars : List Char) : Option Nat :=
  let (base, digits) := basedDigits chars
  (grouped (isDigitOf base) digits).map (valueIn base)

/-- A signed number in any base that fits in 64 bits. -/
def basedInt? (text : String) : Option Int := withSign? basedNat? text

def bool? (text : String) : Option Bool :=
  if text ∈ ["1", "t", "T", "TRUE", "true", "True"] then some true
  else if text ∈ ["0", "f", "F", "FALSE", "false", "False"] then some false
  else none

end Manuscript.Numeral
