import Manuscript.Document.Attributes
import Manuscript.Yaml.Scalar

/-! A tree as plain values for inspection, and these values as YAML. -/

namespace Manuscript

/-- Plain data; the fields of a record are listed in alphabetical order. -/
inductive Data where
  | null
  | text (value : String)
  | number (value : Nat)
  | list (items : List Data)
  | record (fields : List (String × Data))

namespace Data

def ofAttributes (items : Attributes) : Data :=
  .list (items.map fun item => .text <|
    match item.value with
    | none => item.key.flatten
    | some value => item.key.flatten ++ "=" ++ value.flatten)

def tokens (opening closing : Option Token) : Data := .text (Token.textOf opening ++ Token.textOf closing)

mutual

def ofNode : Node → Data
  | .hole => .null
  | .text value _ => .record [("text", .text value)]
  | .symbol value _ => .record [("symbol", .text value)]
  | .ident ident => .record [("ident", .text ident.name)]
  | .stray token => .record [("invalid", .text token.text)]
  | .drawing drawing => .record [("drawing", .text drawing.name)]
  | .bracket block => ofBlock block
  | .quotation opening closing children =>
    .record [("children", .list (ofNodes children)), ("quote", tokens opening closing)]
  | .fragment children => .record [("fragment", .list (ofNodes children))]
  | .tag ⟨ident, _, attributes, args, rules⟩ =>
    .record ([("args", .list (ofBlocks args))] ++ (attributes.map fun items => ("attrs", ofAttributes items)).toList ++
      (if rules.isEmpty then [] else [("rules", .number rules.length)]) ++ [("tag", .text ident.name)])
  | .command ⟨ident, attributes, args, _, _⟩ =>
    let items := attributes.getD []
    .record ([("args", .list (ofNodes args))] ++
      (if items.isEmpty then [] else [("attrs", ofAttributes items)]) ++ [("cmd", .text ident.name)])
termination_by structural node => node

def ofNodes : List Node → List Data
  | [] => []
  | node :: rest => ofNode node :: ofNodes rest
termination_by structural nodes => nodes

def ofBlock : Block Node → Data
  | ⟨_, opening, closing, children⟩ =>
    .record [("bracket", tokens opening closing), ("children", .list (ofNodes children))]
termination_by structural block => block

def ofBlocks : List (Block Node) → List Data
  | [] => []
  | block :: rest => ofBlock block :: ofBlocks rest
termination_by structural blocks => blocks

end

def line (text : String) : String := text ++ "\n"

/-- A scalar and the line break behind it, unless it has one already. -/
def scalarLine (indent : Nat) (text : String) : String :=
  let (chars, ended) := Yaml.scalar (indent + 2) text
  if ended then String.ofList chars else line (String.ofList chars)

def margin (indent : Nat) : String := String.ofList (Yaml.spaces indent)

mutual

/-- The lines of a value. The first one goes on where the mark or key in front of it ends; `key` tells whether
that is a key, after which a list starts on a line of its own. -/
def yaml (indent : Nat) (key : Bool) : Data → String
  | .null => (if key then " " else "") ++ line "null"
  | .text value => (if key then " " else "") ++ scalarLine indent value
  | .number value => (if key then " " else "") ++ line (toString value)
  | .list items =>
    if items.isEmpty then (if key then " " else "") ++ line "[]"
    else if key then "\n" ++ yamlItems (indent + 2) false items
    else yamlItems (indent + 2) true items
  | .record fields =>
    if key then "\n" ++ yamlFields (indent + 2) false fields else yamlFields (indent + 2) true fields
termination_by structural data => data

/-- The items of a list; `started` when the first one goes on an unfinished line. -/
def yamlItems (indent : Nat) (started : Bool) : List Data → String
  | [] => ""
  | item :: rest =>
    (if started then "" else margin indent) ++ "- " ++ yaml indent false item ++ yamlItems indent false rest
termination_by structural items => items

def yamlFields (indent : Nat) (started : Bool) : List (String × Data) → String
  | [] => ""
  | field :: rest => (if started then "" else margin indent) ++ yamlField indent field ++ yamlFields indent false rest
termination_by structural fields => fields

def yamlField (indent : Nat) : String × Data → String
  | (name, value) => name ++ ":" ++ yaml indent true value
termination_by structural field => field

end

end Data

def dump (nodes : List Node) : Data := .list (Data.ofNodes nodes)

/-- A tree as a YAML document. -/
def dumpYaml (nodes : List Node) : String :=
  if nodes.isEmpty then "[]\n" else Data.yamlItems 0 false (Data.ofNodes nodes)

end Manuscript
