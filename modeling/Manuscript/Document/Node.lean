import Manuscript.Document.Declaration
import Manuscript.Document.Token

/-! The document tree. Enclosures, attributes and substitution rules are parametric in the nodes they hold, so that
the tree is one inductive type and every pass over it is a structural recursion. -/

namespace Manuscript

structure Ident where
  name : String
  span : Span := {}
deriving DecidableEq, Repr, Inhabited

/-- An enclosure `{...}`, `[...]` or `(...)`; a block that is never terminated has no closing token. -/
structure Block (α : Type) where
  kind : BracketKind
  opening : Option Token
  closing : Option Token
  children : List α
deriving Repr, Inhabited

/-- A key with an optional value; a flag has none. -/
structure Attribute (α : Type) where
  key : α
  value : Option α := none
deriving Repr

/-- Replaces nodes that look like `pattern` by `target`. -/
structure Rule (α : Type) where
  pattern : List α
  target : List α
deriving Repr

/-- Opaque pictures for a light and a dark colour scheme. -/
structure Drawing where
  name : String
  light : Bytes
  dark : Bytes
deriving DecidableEq, Repr

/-- An identifier with the option list, argument blocks and substitution rules written next to it. -/
structure Tag (α : Type) where
  ident : Ident
  options : Option (Block α) := none
  attributes : Option (List (Attribute α)) := none
  args : List (Block α) := []
  rules : List (Rule α) := []
deriving Repr

/-- An identifier that was matched with a declaration. -/
structure Command (α : Type) where
  ident : Ident
  attributes : Option (List (Attribute α)) := none
  args : List α := []
  declaration : Option Declaration := none
  rules : List (Rule α) := []
deriving Repr

/-- `hole` is a place without a node, and `stray` a closing bracket that closes nothing. -/
inductive Node where
  | hole
  | text (value : String) (span : Span)
  | symbol (value : String) (span : Span)
  | ident (ident : Ident)
  | stray (token : Token)
  | bracket (block : Block Node)
  | quotation (opening closing : Option Token) (children : List Node)
  | fragment (children : List Node)
  | drawing (drawing : Drawing)
  | tag (tag : Tag Node)
  | command (command : Command Node)
deriving Repr

instance : Inhabited Node := ⟨.hole⟩

abbrev Attributes := List (Attribute Node)

/-- A curly block that was not written in any source. -/
def Block.synthesized (children : List Node) : Block Node :=
  ⟨.curly, some { text := "\x7b" }, some { text := "\x7d" }, children⟩

namespace Node

def isCurly : Node → Bool
  | bracket block => block.kind == .curly
  | _ => false

/-- The block of a given kind that a list starts with. -/
def leadingBlock (kind : BracketKind) : List Node → Option (Block Node)
  | bracket block :: _ => if block.kind == kind then some block else none
  | _ => none

/-- The curly blocks that a list starts with. -/
def leadingCurly : List Node → List (Block Node)
  | bracket block :: rest => if block.kind == .curly then block :: leadingCurly rest else []
  | _ => []

def isBlank : Node → Bool
  | text value _ => Blank.isBlank value
  | _ => false

/-- How many blank nodes a list starts with. -/
def leadingBlanks (nodes : List Node) : Nat := (nodes.takeWhile isBlank).length

/-- Argument nodes with the outermost layer of curly braces removed. -/
def unwrap : List Node → List Node
  | [] => []
  | bracket block :: rest =>
    if block.kind == .curly then block.children ++ unwrap rest else bracket block :: unwrap rest
  | node :: rest => node :: unwrap rest

end Node

def Command.body (command : Command Node) : List Node := Node.unwrap command.args

end Manuscript
