import Manuscript.Number.Binary
import Manuscript.Text.Hex
import Manuscript.Yaml.Timestamp

/-! How a text is written as a YAML scalar: plain where it can be, in quotes where it would be read as something
else, and as a literal block where it has several lines. -/

namespace Manuscript.Yaml

/-- Words read as a null, a truth value, a special number, or a truth value of older readers. -/
def reservedWords : List String :=
  ["", "~", "null", "Null", "NULL", "true", "True", "TRUE", "false", "False", "FALSE", ".nan", ".NaN", ".NAN",
   ".inf", ".Inf", ".INF", "+.inf", "+.Inf", "+.INF", "-.inf", "-.Inf", "-.INF",
   "y", "Y", "yes", "Yes", "YES", "on", "On", "ON", "n", "N", "no", "No", "NO", "off", "Off", "OFF"]

def unsign : List Char → List Char
  | '+' :: rest | '-' :: rest => rest
  | chars => chars

def isNegative (chars : List Char) : Bool := chars.head? = some '-'

/-- The value of digits of a base, if there are some and all of them are. -/
def inBase (base : Nat) (chars : List Char) : Option Nat :=
  if chars.isEmpty then none
  else chars.foldl (fun total c => do
    let total ← total
    let digit ← Hex.value? c
    if digit < base then some (base * total + digit) else none) (some 0)

/-- Base and digits of an unsigned integer, by the base prefix of its digits. -/
def radix : List Char → Nat × List Char
  | '0' :: c :: rest =>
    if c = 'x' || c = 'X' then (16, rest)
    else if c = 'b' || c = 'B' then (2, rest)
    else if c = 'o' || c = 'O' then (8, rest)
    else (8, c :: rest)
  | chars => (10, chars)

/-- Integers of 64 bits, signed or not. -/
def fits (signed negative : Bool) (value : Nat) : Bool :=
  if signed then if negative then value ≤ Numeral.signedLimit else value < Numeral.signedLimit
  else value < 2 * Numeral.signedLimit

def isInteger (chars : List Char) : Bool :=
  let signed := unsign chars ≠ chars
  let (base, digits) := radix (unsign chars)
  (inBase base digits).any (fits signed (isNegative chars))

/-- A sign may also follow the base prefix of a binary or an octal number. -/
def isPrefixedInteger (chars : List Char) : Bool :=
  match chars with
  | '0' :: 'b' :: digits => isSignedIn 2 digits
  | '0' :: 'o' :: digits => isSignedIn 8 digits
  | '-' :: '0' :: 'b' :: digits => (inBase 2 digits).any (· ≤ Numeral.signedLimit)
  | '-' :: '0' :: 'o' :: digits => (inBase 8 digits).any (· ≤ Numeral.signedLimit)
  | _ => false
where
  isSignedIn (base : Nat) (digits : List Char) : Bool :=
    (inBase base (unsign digits)).any (fits (unsign digits ≠ digits) (isNegative digits))

/-- The digits and the power of ten of a decimal number with an optional fraction and exponent. -/
def decimal? (chars : List Char) : Option (Nat × Int) :=
  let chars := unsign chars
  let whole := chars.takeWhile Numeral.isDigit
  let rest := chars.dropWhile Numeral.isDigit
  let (fraction, rest) := match rest with
    | '.' :: rest => (some (rest.takeWhile Numeral.isDigit), rest.dropWhile Numeral.isDigit)
    | _ => (none, rest)
  let places := fraction.getD []
  if whole.isEmpty && places.isEmpty then none
  else
    let value := Numeral.value (whole ++ places)
    match rest with
    | [] => some (value, -places.length)
    | mark :: exponent =>
      if mark = 'e' || mark = 'E' then
        (Numeral.nat? (unsign exponent)).map fun n =>
          (value, (if isNegative exponent then -(n : Int) else n) - places.length)
      else none

/-- Whether a decimal number is within the range of double precision. Powers far outside of it are not computed. -/
def isFiniteDecimal (value : Nat) (exponent : Int) : Bool :=
  if value = 0 || exponent < -400 - (value.log2 : Int) then true
  else exponent ≤ 400 && BinaryFormat.double.ofDecimal value exponent < BinaryFormat.double.infinity

def isFloat (chars : List Char) : Bool := (decimal? chars).any fun (value, exponent) => isFiniteDecimal value exponent

/-- Each underscore stands between two digits. -/
def underscoresSeparateDigits : List Char → Bool
  | a :: '_' :: rest =>
    Numeral.isDigit a && (rest.head?.any fun b => Numeral.isDigit b || b = '_') && rest.head? ≠ some '_' &&
      underscoresSeparateDigits rest
  | ['_'] => false
  | _ :: rest => underscoresSeparateDigits rest
  | [] => true

/-- Sexagesimal numbers of older readers, such as `1:30`. -/
def isBase60 (chars : List Char) : Bool :=
  let chars := unsign chars
  let isPlace (c : Char) : Bool := Numeral.isDigit c || c = '_'
  chars.head?.any Numeral.isDigit && places (chars.dropWhile isPlace) false chars.length
where
  places (chars : List Char) (some : Bool) : Nat → Bool
    | 0 => false
    | steps + 1 =>
      match chars with
      | [] => some
      | ':' :: a :: b :: rest =>
        if '0' ≤ a && a ≤ '5' && Numeral.isDigit b then places rest true steps
        else Numeral.isDigit a && places (b :: rest) true steps
      | [':', a] => Numeral.isDigit a
      | '.' :: rest => some && rest.all fun c => Numeral.isDigit c || c = '_'
      | _ => false

/-- Whether a plain text would be read as a string. -/
def isString (text : String) : Bool :=
  if text ∈ reservedWords then false
  else
    let chars := text.toList
    match chars with
    | [] => false
    | c :: _ =>
      if c = '.' then !(underscoresSeparateDigits chars && isFloat (chars.filter (· ≠ '_')))
      else if Numeral.isDigit c || c = '+' || c = '-' then
        let plain := chars.filter (· ≠ '_')
        !(isTimestamp chars || isInteger plain || isFloat plain || isPrefixedInteger plain || isBase60 chars)
      else true

def isBreak (c : Char) : Bool := c ∈ ['\n', '\r', '\u0085', '\u2028', '\u2029']

def isBlankChar (c : Char) : Bool := c = ' ' || c = '\t'

/-- Characters that need no escape: the printable part of the basic plane without the byte order mark. -/
def isPrintable (c : Char) : Bool :=
  let code := c.toNat
  code = 0x0A || (0x20 ≤ code && code ≤ 0x7E) ||
    (0xA0 ≤ code && code < 0x10000 && code ≠ 0xFEFF && code ≠ 0xFFFE && code ≠ 0xFFFF)

/-- Each character with the one before it and the one after it. -/
def neighbours (chars : List Char) : List (Option Char × Char × Option Char) :=
  (none :: chars.map some).zip (chars.zip ((chars.drop 1).map some ++ [none]))

/-- Marks that mean something else than text at the place where they stand. -/
def hasIndicator (chars : List Char) : Bool :=
  ['-', '-', '-'].isPrefixOf chars || ['.', '.', '.'].isPrefixOf chars ||
  (neighbours chars).any fun (before, c, after) =>
    let blankAfter := after.all isBlankChar
    match before with
    | none => c ∈ ['#', ',', '[', ']', '\x7b', '\x7d', '&', '*', '!', '|', '>', '\'', '"', '%', '@', '\x60'] ||
        (c ∈ ['?', ':', '-'] && blankAfter)
    | some b => (c = ':' && blankAfter) || (c = '#' && (isBlankChar b || isBreak b || b = '\x00'))

inductive Style where
  | plain
  | single
  | double
  | literal
deriving DecidableEq, Repr

def style (text : String) : Style :=
  let chars := text.toList
  let lines := chars.any isBreak
  let isEdge (test : Char → Bool) : Bool := chars.head?.any test || chars.getLast?.any test
  let special := chars.any fun c => c ≠ '\t' && !isPrintable c
  let spaceBreak := (neighbours chars).any fun (before, c, _) => before = some ' ' && isBreak c
  let breakSpace := (neighbours chars).any fun (before, c, _) => before.any isBreak && c = ' '
  let quotable := !breakSpace && !spaceBreak && !chars.contains '\t' && !special
  if chars.contains '\n' then
    if spaceBreak || special || chars.getLast? = some ' ' then .double else .literal
  else if !isString text then .double
  else if !lines && quotable && !isEdge (· = ' ') && !hasIndicator chars then .plain
  else if quotable then .single
  else .double

def spaces (count : Nat) : List Char := List.replicate count ' '

/-- A single-quoted text; a line that a break inside it starts is indented. -/
def singleQuoted (indent : Nat) (chars : List Char) : List Char :=
  '\'' :: inside false chars ++ ['\'']
where
  inside (fresh : Bool) : List Char → List Char
    | [] => []
    | c :: rest =>
      if isBreak c then c :: inside true rest
      else
        let margin := if fresh && c ≠ ' ' then spaces indent else []
        let mark := if c = '\'' then ['\'', '\''] else [c]
        margin ++ mark ++ inside (fresh && c = ' ') rest

/-- The escape of a character, by its short name where it has one. -/
def escape (c : Char) : List Char :=
  '\\' :: match c.toNat with
    | 0x00 => ['0']
    | 0x07 => ['a']
    | 0x08 => ['b']
    | 0x09 => ['t']
    | 0x0A => ['n']
    | 0x0B => ['v']
    | 0x0C => ['f']
    | 0x0D => ['r']
    | 0x1B => ['e']
    | 0x22 => ['"']
    | 0x5C => ['\\']
    | 0x85 => ['N']
    | 0xA0 => ['_']
    | 0x2028 => ['L']
    | 0x2029 => ['P']
    | code =>
      if code ≤ 0xFF then 'x' :: Hex.digits Hex.upperDigit 2 code
      else if code ≤ 0xFFFF then 'u' :: Hex.digits Hex.upperDigit 4 code
      else 'U' :: Hex.digits Hex.upperDigit 8 code

def byteOrderMark : Char := '\uFEFF'

/-- Characters that stand for themselves between double quotes. -/
def isVerbatim (c : Char) : Bool := isPrintable c && !isBreak c && c ≠ '"' && c ≠ '\\'

/-- A double-quoted text. One that starts with a byte order mark has every character escaped. -/
def doubleQuoted (chars : List Char) : List Char :=
  let marked := chars.head? = some byteOrderMark
  '"' :: chars.flatMap (fun c => if isVerbatim c && !marked then [c] else escape c) ++ ['"']

/-- The mark of a literal block: an indentation hint when the text starts with white space, and what becomes of
the line breaks at its end. -/
def literalHead (chars : List Char) : List Char :=
  let hint := if chars.head?.any (fun c => c = ' ' || isBreak c) then ['2'] else []
  let chomp := match chars.reverse with
    | [] => ['-']
    | [last] => if isBreak last then ['+'] else ['-']
    | last :: previous :: _ => if !isBreak last then ['-'] else if isBreak previous then ['+'] else []
  '|' :: hint ++ chomp

/-- The lines of a literal block behind its mark. `fresh` tells whether a line break was just written, and
`pending` whether the next character starts a line. -/
def literalLines (indent : Nat) : (fresh pending : Bool) → List Char → List Char
  | _, _, [] => []
  | fresh, pending, c :: rest =>
    if isBreak c then c :: literalLines indent true true rest
    else
      let margin := if pending then (if fresh then [] else ['\n']) ++ spaces indent else []
      margin ++ c :: literalLines indent false false rest

/-- A scalar whose continuation lines are indented, and whether it ends at the start of a line. -/
def scalar (indent : Nat) (text : String) : List Char × Bool :=
  let chars := text.toList
  match style text with
  | .plain => (chars, false)
  | .single => (singleQuoted indent chars, false)
  | .double => (doubleQuoted chars, false)
  | .literal => (literalHead chars ++ literalLines indent false true chars, chars.getLast?.any isBreak)

end Manuscript.Yaml
