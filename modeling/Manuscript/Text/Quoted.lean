import Manuscript.Text.Hex
import Manuscript.Text.Printable

/-! Text in double quotes, with escapes for whatever would not be seen as it is. -/

namespace Manuscript.Quoted

def escapeChar (c : Char) : List Char :=
  if c = '"' then ['\\', '"']
  else if c = '\\' then ['\\', '\\']
  else if Printable.isPrintable c then [c]
  else match c.toNat with
    | 0x07 => ['\\', 'a']
    | 0x08 => ['\\', 'b']
    | 0x0C => ['\\', 'f']
    | 0x0A => ['\\', 'n']
    | 0x0D => ['\\', 'r']
    | 0x09 => ['\\', 't']
    | 0x0B => ['\\', 'v']
    | code =>
      if code < 0x20 || code = 0x7F then '\\' :: 'x' :: Hex.digits Hex.lowerDigit 2 code
      else if code < 0x10000 then '\\' :: 'u' :: Hex.digits Hex.lowerDigit 4 code
      else '\\' :: 'U' :: Hex.digits Hex.lowerDigit 8 code

def quote (text : String) : String := String.ofList ('"' :: text.toList.flatMap escapeChar ++ ['"'])

end Manuscript.Quoted
