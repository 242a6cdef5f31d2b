import Manuscript.Document.Node

/-! Syntactic equality of trees: structure and token text count, places in the source do not. All texts look the
same to it, and so do all drawings, while symbols and identifiers are told apart by what they say. -/

namespace Manuscript

mutual

def Node.alike : Node → Node → Bool
  | .hole, .hole => true
  | .text _ _, .text _ _ => true
  | .symbol value _, .symbol other _ => value == other
  | .ident ident, .ident other => ident.name == other.name
  | .stray token, .stray other => token.text == other.text
  | .bracket block, .bracket other => blockAlike block other
  | .quotation opening closing children, .quotation opening' closing' children' =>
    Token.textOf opening == Token.textOf opening' && Token.textOf closing == Token.textOf closing' &&
      alike children children'
  | .fragment children, .fragment children' => alike children children'
  | .drawing _, .drawing _ => true
  | .tag ⟨ident, _, attributes, args, _⟩, .tag other =>
    ident.name == other.ident.name && attributesAlike attributes (other.attributes.getD []) &&
      blocksAlike args other.args
  | .command ⟨ident, attributes, args, _, _⟩, .command other =>
    ident.name == other.ident.name && attributesAlike attributes (other.attributes.getD []) && alike args other.args
  | _, _ => false
termination_by structural node => node

def alike : List Node → List Node → Bool
  | [], [] => true
  | node :: rest, node' :: rest' => node.alike node' && alike rest rest'
  | _, _ => false
termination_by structural nodes => nodes

def blockAlike : Block Node → Block Node → Bool
  | ⟨kind, opening, closing, children⟩, other =>
    kind == other.kind && Token.textOf opening == Token.textOf other.opening &&
      Token.textOf closing == Token.textOf other.closing && alike children other.children
termination_by structural block => block

def blocksAlike : List (Block Node) → List (Block Node) → Bool
  | [], [] => true
  | block :: rest, block' :: rest' => blockAlike block block' && blocksAlike rest rest'
  | _, _ => false
termination_by structural blocks => blocks

/-- An absent attribute list is alike to an empty one. -/
def attributesAlike : Option (List (Attribute Node)) → List (Attribute Node) → Bool
  | none, others => others.isEmpty
  | some items, others => itemsAlike items others
termination_by structural attributes => attributes

def itemsAlike : List (Attribute Node) → List (Attribute Node) → Bool
  | [], [] => true
  | item :: rest, item' :: rest' => itemAlike item item' && itemsAlike rest rest'
  | _, _ => false
termination_by structural items => items

def itemAlike : Attribute Node → Attribute Node → Bool
  | ⟨key, value⟩, other => key.alike other.key && valueAlike value other.value
termination_by structural item => item

def valueAlike : Option Node → Option Node → Bool
  | none, none => true
  | some value, some other => value.alike other
  | _, _ => false
termination_by structural value => value

end

end Manuscript
