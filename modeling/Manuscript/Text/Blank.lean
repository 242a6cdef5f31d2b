/-! White space in the sense of the Unicode property, and the ways text is trimmed and cut at it. -/

namespace Manuscript.Blank

/-- The characters of the Unicode property White_Space. -/
def isSpace (c : Char) : Bool :=
  let code := c.toNat
  (0x09 ≤ code && code ≤ 0x0D) || code == 0x20 || code == 0x85 || code == 0xA0 || code == 0x1680 ||
    (0x2000 ≤ code && code ≤ 0x200A) || code == 0x2028 || code == 0x2029 || code == 0x202F || code == 0x205F ||
    code == 0x3000

/-- A word is blank when it consists of white space and is not empty. -/
def isBlank (word : String) : Bool := word != "" && word.toList.all isSpace

def trimChars (chars : List Char) : List Char :=
  ((chars.dropWhile isSpace).reverse.dropWhile isSpace).reverse

def trim (text : String) : String := String.ofList (trimChars text.toList)

/-- Maximal runs of items that are not blank, in order. -/
def fieldsBy {α : Type} (blank : α → Bool) : List α → List (List α)
  | [] => []
  | item :: rest =>
    if blank item then fieldsBy blank rest
    else match rest, fieldsBy blank rest with
      | next :: _, run :: runs => if blank next then [item] :: run :: runs else (item :: run) :: runs
      | _, runs => [item] :: runs

end Manuscript.Blank
