import Manuscript.Text.Numeral

/-! Texts that a YAML reader takes for a date or a point in time. -/

namespace Manuscript.Yaml

/-- One or two digits at the start, and what follows them. -/
def shortNumber : List Char → Option (Nat × List Char)
  | a :: b :: rest =>
    if Numeral.isDigit a then
      if Numeral.isDigit b then some (10 * Numeral.digitValue a + Numeral.digitValue b, rest)
      else some (Numeral.digitValue a, b :: rest)
    else none
  | [a] => if Numeral.isDigit a then some (Numeral.digitValue a, []) else none
  | [] => none

/-- Two digits, both present. -/
def fixedNumber : List Char → Option (Nat × List Char)
  | a :: b :: rest =>
    if Numeral.isDigit a && Numeral.isDigit b then some (10 * Numeral.digitValue a + Numeral.digitValue b, rest)
    else none
  | _ => none

def literally (c : Char) : List Char → Option (List Char)
  | d :: rest => if c = d then some rest else none
  | [] => none

def isLeapYear (year : Nat) : Bool := year % 4 = 0 && (year % 100 ≠ 0 || year % 400 = 0)

def daysIn (year month : Nat) : Nat :=
  if month = 2 then if isLeapYear year then 29 else 28
  else if month ∈ [4, 6, 9, 11] then 30
  else 31

/-- A four-digit year, a month and a day; what follows the date. -/
def date (chars : List Char) : Option (List Char) := do
  let year := chars.takeWhile Numeral.isDigit
  guard (year.length = 4)
  let rest ← literally '-' (chars.drop 4)
  let (month, rest) ← shortNumber rest
  guard (1 ≤ month && month ≤ 12)
  let rest ← literally '-' rest
  let (day, rest) ← shortNumber rest
  guard (1 ≤ day && day ≤ daysIn (Numeral.value year) month)
  pure rest

/-- A fraction of a second, if there is one. -/
def skipFraction : List Char → List Char
  | mark :: digit :: rest =>
    if (mark = '.' || mark = ',') && Numeral.isDigit digit then rest.dropWhile Numeral.isDigit
    else mark :: digit :: rest
  | chars => chars

/-- Hours, minutes and seconds; what follows them. -/
def clock (chars : List Char) : Option (List Char) := do
  let (hour, rest) ← shortNumber chars
  guard (hour < 24)
  let rest ← literally ':' rest
  let (minute, rest) ← shortNumber rest
  guard (minute < 60)
  let rest ← literally ':' rest
  let (second, rest) ← shortNumber rest
  guard (second < 60)
  pure (skipFraction rest)

/-- `Z`, or a signed offset in hours and minutes, at the end. -/
def isZone : List Char → Bool
  | ['Z'] => true
  | sign :: rest =>
    (sign = '+' || sign = '-') &&
    match fixedNumber rest with
    | some (hour, ':' :: rest) =>
      match fixedNumber rest with
      | some (minute, []) => hour ≤ 24 && minute ≤ 60
      | _ => false
    | _ => false
  | [] => false

/-- A date alone, a date and a clock reading with spaces between them, or both with a `T` between them and a zone. -/
def isTimestamp (chars : List Char) : Bool :=
  match date chars with
  | none => false
  | some [] => true
  | some (separator :: rest) =>
    if separator = ' ' then (clock (rest.dropWhile (· = ' '))).any List.isEmpty
    else (separator = 'T' || separator = 't') && (clock rest).any isZone

end Manuscript.Yaml
