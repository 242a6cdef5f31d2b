import Manuscript.Document.Attributes
import Manuscript.Text.LowerCase
import Manuscript.Text.Numeral

/-! Heading levels and the values that a declaration admits for its attributes. -/

namespace Manuscript

namespace Heading

/-- A level from 1 to 6, written `hN`, in either case and with or without a backslash or the letter. -/
def level? (value : String) : Option Nat :=
  let chars := (LowerCase.lowerText (Blank.trim value)).toList
  let unslashed := if chars.head? = some '\\' then chars.drop 1 else chars
  let digits := if unslashed.head? = some 'h' then unslashed.drop 1 else unslashed
  match Numeral.int? (String.ofList digits) with
  | some level => if 1 ≤ level && level ≤ 6 then some level.toNat else none
  | none => none

end Heading

namespace AttributeSpec

def admits (spec : AttributeSpec) (value : String) : Bool :=
  match spec.type with
  | .string => true
  | .int => (Numeral.int? value).isSome
  | .bool => value == "" || (Numeral.bool? value).isSome
  | .heading => (Heading.level? value).isSome

end AttributeSpec

namespace Declaration

/-- Every declared attribute that is given has an admissible value, and every required one is given. -/
def admitsAttributes (declaration : Declaration) (items : Attributes) : Bool :=
  declaration.attributes.all fun spec =>
    match Attributes.value? items spec.name with
    | none => !spec.required
    | some value => spec.admits value

end Declaration
end Manuscript
