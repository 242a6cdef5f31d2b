import Manuscript.Document.Equality
import Manuscript.Document.Source

/-! Attribute lists are ordered maps whose keys are compared by syntactic equality: inserting a key that is
already there replaces its value in place, and a new key goes to the end. -/

namespace Manuscript.Attributes

/-- The value stored for a key; the inner option is empty for a flag. -/
def find? (items : Attributes) (key : Node) : Option (Option Node) :=
  (List.find? (·.key.alike key) items).map Attribute.value

def insert (key : Node) (value : Option Node) : Attributes → Attributes
  | [] => [⟨key, value⟩]
  | item :: rest => if item.key.alike key then { item with value } :: rest else item :: insert key value rest

def nameKey (name : String) : Node := .symbol name {}

def set (items : Attributes) (name value : String) : Attributes :=
  insert (nameKey name) (some (.text value {})) items

def flag (items : Attributes) (name : String) : Attributes := insert (nameKey name) none items

def has (items : Attributes) (name : String) : Bool := (find? items (nameKey name)).isSome

/-- The value as text; a flag has an empty one. -/
def value? (items : Attributes) (name : String) : Option String :=
  (find? items (nameKey name)).map fun value => (value.map Node.flatten).getD ""

def isSymbol (text : String) : Node → Bool
  | .symbol value _ => value == text
  | _ => false

/-- The segments between top-level occurrences of a symbol. -/
def splitAt (separator : String) : List Node → List (List Node)
  | [] => [[]]
  | node :: rest =>
    if isSymbol separator node then [] :: splitAt separator rest
    else match splitAt separator rest with
      | segment :: segments => (node :: segment) :: segments
      | [] => [[node]]

/-- What stands before the first top-level occurrence of a symbol, and what after it if it occurs. -/
def cut (separator : String) (nodes : List Node) : List Node × Option (List Node) :=
  match nodes.dropWhile (!isSymbol separator ·) with
  | [] => (nodes, none)
  | _ :: after => (nodes.takeWhile (!isSymbol separator ·), some after)

/-- One segment `key=value`, `key="quoted value"` or `flag`; a segment with an empty key says nothing. -/
def insertSegment (items : Attributes) (segment : List Node) : Attributes :=
  let (key, value) := cut "=" segment
  let name := Blank.trim (flatten key)
  if name = "" then items
  else match value with
    | none => flag items name
    | some value => set items name (Blank.trim (flatten value))

/-- Reads an attribute list: segments are separated by top-level commas. -/
def parse (nodes : List Node) : Attributes := (splitAt "," nodes).foldl insertSegment []

end Manuscript.Attributes

namespace Manuscript.Command

def attribute? (command : Command Node) (name : String) : Option String :=
  Attributes.value? (command.attributes.getD []) name

def hasAttribute (command : Command Node) (name : String) : Bool :=
  Attributes.has (command.attributes.getD []) name

end Manuscript.Command
