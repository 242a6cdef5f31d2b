import Manuscript.Document.Node

/-! Deep copies. A copy is built anew from every node, token, attribute and rule of a tree; only the declaration of a
command is shared with it. What a rule inserts is such a copy of its target. -/

namespace Manuscript

mutual

def Node.clone : Node → Node
  | .bracket block => .bracket (cloneBlock block)
  | .quotation opening closing children => .quotation opening closing (cloneAll children)
  | .fragment children => .fragment (cloneAll children)
  | .tag ⟨ident, options, attributes, args, rules⟩ =>
    .tag ⟨ident, cloneOptions options, cloneAttributes attributes, cloneBlocks args, cloneRules rules⟩
  | .command ⟨ident, attributes, args, declaration, rules⟩ =>
    .command ⟨ident, cloneAttributes attributes, cloneAll args, declaration, cloneRules rules⟩
  | .hole => .hole
  | .text value span => .text value span
  | .symbol value span => .symbol value span
  | .ident ident => .ident ident
  | .stray token => .stray token
  | .drawing drawing => .drawing drawing
termination_by structural node => node

def cloneAll : List Node → List Node
  | [] => []
  | node :: rest => node.clone :: cloneAll rest
termination_by structural nodes => nodes

def cloneBlock : Block Node → Block Node
  | ⟨kind, opening, closing, children⟩ => ⟨kind, opening, closing, cloneAll children⟩
termination_by structural block => block

def cloneOptions : Option (Block Node) → Option (Block Node)
  | none => none
  | some block => some (cloneBlock block)
termination_by structural options => options

def cloneBlocks : List (Block Node) → List (Block Node)
  | [] => []
  | block :: rest => cloneBlock block :: cloneBlocks rest
termination_by structural blocks => blocks

def cloneAttributes : Option (List (Attribute Node)) → Option (List (Attribute Node))
  | none => none
  | some items => some (cloneItems items)
termination_by structural attributes => attributes

def cloneItems : List (Attribute Node) → List (Attribute Node)
  | [] => []
  | item :: rest => cloneItem item :: cloneItems rest
termination_by structural items => items

def cloneItem : Attribute Node → Attribute Node
  | ⟨key, value⟩ => ⟨key.clone, cloneValue value⟩
termination_by structural item => item

def cloneValue : Option Node → Option Node
  | none => none
  | some value => some value.clone
termination_by structural value => value

def cloneRules : List (Rule Node) → List (Rule Node)
  | [] => []
  | rule :: rest => cloneRule rule :: cloneRules rest
termination_by structural rules => rules

def cloneRule : Rule Node → Rule Node
  | ⟨pattern, target⟩ => ⟨cloneAll pattern, cloneAll target⟩
termination_by structural rule => rule

end

end Manuscript
