/-! Values of a TOML document. -/

namespace Manuscript

/-- A float is given by its bit pattern in double precision. A point in time is only recognized as one. -/
inductive Toml where
  | text (value : String)
  | integer (value : Int)
  | float (bits : Nat)
  | boolean (value : Bool)
  | moment
  | array (items : List Toml)
  | table (fields : List (String × Toml))

end Manuscript
