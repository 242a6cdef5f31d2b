import Manuscript.Text.Utf8

/-! Base 64 with padding. -/

namespace Manuscript.Base64

def digit (value : Nat) : Char :=
  if value < 26 then Char.ofNat (65 + value)
  else if value < 52 then Char.ofNat (71 + value)
  else if value < 62 then Char.ofNat (value - 4)
  else if value = 62 then '+'
  else '/'

/-- The digits of three bytes taken together. -/
def group (a b c : UInt8) : List Char :=
  let bits := a.toNat * 65536 + b.toNat * 256 + c.toNat
  [digit (bits / 262144), digit (bits / 4096 % 64), digit (bits / 64 % 64), digit (bits % 64)]

def encodeChars : Bytes → List Char
  | [] => []
  | [a] => (group a 0 0).take 2 ++ ['=', '=']
  | [a, b] => (group a b 0).take 3 ++ ['=']
  | a :: b :: c :: rest => group a b c ++ encodeChars rest

def encode (bytes : Bytes) : String := String.ofList (encodeChars bytes)

end Manuscript.Base64
