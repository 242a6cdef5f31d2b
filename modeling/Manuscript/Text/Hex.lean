/-! Hexadecimal digits. -/

namespace Manuscript.Hex

def lowerDigit (value : Nat) : Char := Char.ofNat (if value < 10 then 48 + value else 87 + value)

def upperDigit (value : Nat) : Char := Char.ofNat (if value < 10 then 48 + value else 55 + value)

/-- The last `width` digits of a number, most significant first. -/
def digits (digit : Nat → Char) (width value : Nat) : List Char :=
  (List.range width).reverse.map fun place => digit (value / Nat.pow 16 place % 16)

def value? (c : Char) : Option Nat :=
  if '0' ≤ c && c ≤ '9' then some (c.toNat - 48)
  else if 'a' ≤ c && c ≤ 'f' then some (c.toNat - 87)
  else if 'A' ≤ c && c ≤ 'F' then some (c.toNat - 55)
  else none

end Manuscript.Hex
