import Manuscript.Number.Binary
import Manuscript.Text.Hex
import Manuscript.Text.Numeral
import Manuscript.Toml.Value

/-! The words of TOML: white space and comments, keys, strings, numbers and points in time. Every reader takes
characters and gives what it read with the characters that follow, or nothing when the text is malformed. -/

namespace Manuscript.Toml

abbrev Reader (α : Type) := List Char → Option (α × List Char)

def skipBlank (chars : List Char) : List Char := chars.dropWhile fun c => c = ' ' || c = '\t'

/-- Control characters other than the tab stand nowhere in a document. -/
def isControl (c : Char) : Bool := (c.toNat < 0x20 && c ≠ '\t') || c.toNat = 0x7F

/-- What follows a comment, up to its line break. -/
def skipComment : List Char → Option (List Char)
  | [] => some []
  | '\n' :: rest => some ('\n' :: rest)
  | '\r' :: '\n' :: rest => some ('\n' :: rest)
  | c :: rest => if isControl c then none else skipComment rest

/-- The end of a line: blanks, a comment if there is one, and a line break or the end of the document. -/
def endOfLine (chars : List Char) : Option (List Char) := do
  let rest ← match skipBlank chars with
    | '#' :: rest => skipComment rest
    | rest => some rest
  match rest with
  | [] => some []
  | '\n' :: rest => some rest
  | '\r' :: '\n' :: rest => some rest
  | _ => none

/-- Blanks, comments and line breaks; `steps` bounds the number of lines. -/
def skipLines : (steps : Nat) → List Char → Option (List Char)
  | 0, chars => some chars
  | steps + 1, chars =>
    match skipBlank chars with
    | '\n' :: rest => skipLines steps rest
    | '\r' :: '\n' :: rest => skipLines steps rest
    | '#' :: rest => do skipLines steps (← skipComment rest)
    | rest => some rest

/-- A character given by a fixed number of hexadecimal digits. -/
def codePoint (width : Nat) : Reader Char := fun chars => do
  let digits := chars.take width
  guard (digits.length = width)
  let code ← digits.foldl (fun total c => do return 16 * (← total) + (← Hex.value? c)) (some 0)
  guard (code < 0xD800 || (0xE000 ≤ code && code < 0x110000))
  pure (Char.ofNat code, chars.drop width)

/-- The character behind a backslash. -/
def escaped : Reader Char
  | 'b' :: rest => some ('\x08', rest)
  | 't' :: rest => some ('\t', rest)
  | 'n' :: rest => some ('\n', rest)
  | 'f' :: rest => some ('\x0c', rest)
  | 'r' :: rest => some ('\r', rest)
  | 'e' :: rest => some ('\x1b', rest)
  | '"' :: rest => some ('"', rest)
  | '\\' :: rest => some ('\\', rest)
  | 'u' :: rest => codePoint 4 rest
  | 'U' :: rest => codePoint 8 rest
  | _ => none

/-- The rest of a basic string on one line. -/
def basicString : (steps : Nat) → Reader (List Char)
  | 0, _ => none
  | steps + 1, chars =>
    match chars with
    | [] => none
    | '"' :: rest => some ([], rest)
    | '\\' :: rest => do
      let (c, rest) ← escaped rest
      let (more, rest) ← basicString steps rest
      pure (c :: more, rest)
    | c :: rest => do
      guard !isControl c
      let (more, rest) ← basicString steps rest
      pure (c :: more, rest)

/-- The rest of a literal string on one line. -/
def literalString : Reader (List Char)
  | [] => none
  | '\'' :: rest => some ([], rest)
  | c :: rest => do
    guard !isControl c
    let (more, rest) ← literalString rest
    pure (c :: more, rest)

/-- Closing quotes of a string of several lines: the last three close it and up to two more belong to it. -/
def closing (quote : Char) (chars : List Char) : Option (List Char × List Char) :=
  let run := (chars.takeWhile (· = quote)).take 5
  if run.length < 3 then none else some (run.drop 3, chars.drop run.length)

/-- White space behind a backslash at the end of a line, with at least one line break in it. -/
def skipFold (chars : List Char) : Option (List Char) :=
  match skipBlank chars with
  | '\n' :: rest => some (trim rest)
  | '\r' :: '\n' :: rest => some (trim rest)
  | _ => none
where
  trim : List Char → List Char
    | '\r' :: '\n' :: rest => trim rest
    | c :: rest => if c ∈ [' ', '\t', '\n'] then trim rest else c :: rest
    | [] => []

/-- A line break inside a string of several lines. -/
def lineBreak : List Char → Option (List Char × List Char)
  | '\n' :: rest => some (['\n'], rest)
  | '\r' :: '\n' :: rest => some (['\r', '\n'], rest)
  | _ => none

/-- The rest of a string of several lines, with escapes if it is a basic one. -/
def longString (quote : Char) : (steps : Nat) → Reader (List Char)
  | 0, _ => none
  | steps + 1, chars =>
    match closing quote chars with
    | some (last, rest) => some (last, rest)
    | none =>
      match lineBreak chars with
      | some (taken, rest) => do
        let (more, rest) ← longString quote steps rest
        pure (taken ++ more, rest)
      | none =>
        match chars with
        | [] => none
        | c :: rest =>
          if c = '\\' && quote = '"' then
            match skipFold rest with
            | some rest => longString quote steps rest
            | none => do
              let (c, rest) ← escaped rest
              let (more, rest) ← longString quote steps rest
              pure (c :: more, rest)
          else do
            guard !isControl c
            let (more, rest) ← longString quote steps rest
            pure (c :: more, rest)

def skipFirstBreak (chars : List Char) : List Char :=
  match lineBreak chars with
  | some (_, rest) => rest
  | none => chars

/-- A string of any of the four kinds. -/
def string (chars : List Char) : Option (String × List Char) := do
  let (value, rest) ← match chars with
    | '"' :: '"' :: '"' :: rest => longString '"' (rest.length + 1) (skipFirstBreak rest)
    | '\'' :: '\'' :: '\'' :: rest => longString '\'' (rest.length + 1) (skipFirstBreak rest)
    | '"' :: rest => basicString (rest.length + 1) rest
    | '\'' :: rest => literalString rest
    | _ => none
  pure (String.ofList value, rest)

def isBareKeyChar (c : Char) : Bool := c.isAlphanum || c = '_' || c = '-'

/-- One part of a key. -/
def keyPart (chars : List Char) : Option (String × List Char) :=
  match chars with
  | '"' :: rest => (basicString (rest.length + 1) rest).map fun (key, rest) => (String.ofList key, rest)
  | '\'' :: rest => (literalString rest).map fun (key, rest) => (String.ofList key, rest)
  | _ =>
    let key := chars.takeWhile isBareKeyChar
    if key.isEmpty then none else some (String.ofList key, chars.drop key.length)

/-- Parts of a key separated by points. -/
def key : (steps : Nat) → Reader (List String)
  | 0, _ => none
  | steps + 1, chars => do
    let (part, rest) ← keyPart (skipBlank chars)
    match skipBlank rest with
    | '.' :: rest => do
      let (parts, rest) ← key steps rest
      pure (part :: parts, rest)
    | rest => pure ([part], rest)

def integerOf (negative : Bool) (magnitude : Nat) : Option Toml := (Numeral.signed? negative magnitude).map .integer

def radixInteger (base : Nat) (chars : List Char) : Option Toml := do
  integerOf false (Numeral.valueIn base (← Numeral.grouped (Numeral.isDigitOf base) chars))

/-- Decimal digits without a needless zero in front. -/
def wholePart (chars : List Char) : Option (List Char) := do
  let digits ← Numeral.grouped Numeral.isDigit chars
  guard (digits.length = 1 || digits.head? ≠ some '0')
  pure digits

/-- The exponent behind its mark. -/
def exponent (chars : List Char) : Option Int :=
  match chars with
  | '-' :: rest => (Numeral.grouped Numeral.isDigit rest).map fun digits => -(Numeral.value digits : Int)
  | '+' :: rest => (Numeral.grouped Numeral.isDigit rest).map fun digits => (Numeral.value digits : Int)
  | rest => (Numeral.grouped Numeral.isDigit rest).map fun digits => (Numeral.value digits : Int)

/-- A float within range. Powers of ten far outside of it are not computed. -/
def floatOf (negative : Bool) (digits : List Char) (power : Int) : Option Toml :=
  let format := BinaryFormat.double
  let value := Numeral.value digits
  let magnitude := if value = 0 || power < -400 - (digits.length : Int) then 0
    else if 400 < power then format.infinity
    else format.ofDecimal value power
  if magnitude = format.infinity then none else some (.float (format.signed negative magnitude))

/-- A decimal number: an integer, or a float with a fraction, an exponent or both. -/
def decimalNumber (negative : Bool) (chars : List Char) : Option Toml := do
  let isPlace (c : Char) : Bool := Numeral.isDigit c || c = '_'
  let whole ← wholePart (chars.takeWhile isPlace)
  match chars.dropWhile isPlace with
  | [] => integerOf negative (Numeral.value whole)
  | '.' :: rest =>
    let fraction ← Numeral.grouped Numeral.isDigit (rest.takeWhile isPlace)
    let power ← match rest.dropWhile isPlace with
      | [] => some 0
      | mark :: rest => if mark = 'e' || mark = 'E' then exponent rest else none
    floatOf negative (whole ++ fraction) (power - fraction.length)
  | mark :: rest => if mark = 'e' || mark = 'E' then floatOf negative whole (← exponent rest) else none

def number (chars : List Char) : Option Toml :=
  match chars with
  | '0' :: 'x' :: rest => radixInteger 16 rest
  | '0' :: 'o' :: rest => radixInteger 8 rest
  | '0' :: 'b' :: rest => radixInteger 2 rest
  | '-' :: rest => signed true rest
  | '+' :: rest => signed false rest
  | rest => signed false rest
where
  signed (negative : Bool) (chars : List Char) : Option Toml :=
    let format := BinaryFormat.double
    if chars = ['i', 'n', 'f'] then some (.float (format.signed negative format.infinity))
    else if chars = ['n', 'a', 'n'] then some (.float (format.infinity + twoTo (format.fractionBits - 1)))
    else decimalNumber negative chars

/-- A number of exactly so many digits. -/
def fixedDigits (width : Nat) (chars : List Char) : Option (Nat × List Char) :=
  let digits := chars.take width
  if digits.length = width && digits.all Numeral.isDigit then some (Numeral.value digits, chars.drop width) else none

def mark (expected : Char) : List Char → Option (List Char)
  | c :: rest => if c = expected then some rest else none
  | [] => none

def isLeapYear (year : Nat) : Bool := year % 4 = 0 && (year % 100 ≠ 0 || year % 400 = 0)

def daysIn (year month : Nat) : Nat :=
  if month = 2 then (if isLeapYear year then 29 else 28)
  else if month ∈ [4, 6, 9, 11] then 30
  else if 1 ≤ month && month ≤ 12 then 31
  else 0

def date (chars : List Char) : Option (List Char) := do
  let (year, rest) ← fixedDigits 4 chars
  let (month, rest) ← fixedDigits 2 (← mark '-' rest)
  let (day, rest) ← fixedDigits 2 (← mark '-' rest)
  guard (1 ≤ day && day ≤ daysIn year month)
  pure rest

/-- Hours and minutes. -/
def hourMinute (chars : List Char) : Option (List Char) := do
  let (hour, rest) ← fixedDigits 2 chars
  let (minute, rest) ← fixedDigits 2 (← mark ':' rest)
  guard (hour < 24 && minute < 60)
  pure rest

/-- A time of day with its seconds, of which a fraction may follow. A leap second is one. -/
def clock (chars : List Char) : Option (List Char) := do
  let (second, rest) ← fixedDigits 2 (← mark ':' (← hourMinute chars))
  guard (second ≤ 60)
  match rest with
  | '.' :: digit :: rest => if Numeral.isDigit digit then some (rest.dropWhile Numeral.isDigit) else none
  | rest => some rest

def zone (chars : List Char) : Option (List Char) :=
  match chars with
  | [] => some []
  | c :: rest =>
    if c = 'Z' || c = 'z' then some rest
    else if c = '+' || c = '-' then hourMinute rest
    else none

/-- A date, a time of day, or both, perhaps with an offset. -/
def pointInTime (chars : List Char) : Option Toml :=
  let day := do
    match ← date chars with
    | [] => some []
    | separator :: rest => if separator ∈ ['T', 't', ' '] then zone (← clock rest) else none
  if day = some [] || clock chars = some [] then some .moment else none

/-- Characters of numbers and points in time. -/
def isScalarChar (c : Char) : Bool := c.isAlphanum || c ∈ ['+', '-', '_', '.', ':']

/-- A value written without quotes or brackets. A blank may stand between a date and a time. -/
def bareValue (chars : List Char) : Option (Toml × List Char) :=
  let word := chars.takeWhile isScalarChar
  let rest := chars.drop word.length
  let longer := match rest with
    | ' ' :: more => word ++ ' ' :: more.takeWhile isScalarChar
    | _ => word
  if word = ['t', 'r', 'u', 'e'] then some (.boolean true, rest)
  else if word = ['f', 'a', 'l', 's', 'e'] then some (.boolean false, rest)
  else if word ≠ longer && date word = some [] && (pointInTime longer).isSome then some (.moment, chars.drop longer.length)
  else match pointInTime word with
    | some value => some (value, rest)
    | none => (number word).map fun value => (value, rest)

end Manuscript.Toml
