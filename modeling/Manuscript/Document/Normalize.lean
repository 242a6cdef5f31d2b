import Manuscript.Document.Attributes
import Manuscript.Document.Rule

/-! Normalization turns an identifier with enclosures right behind it into a tag: a square block becomes its
option list, curly blocks its arguments, and where blocks its substitution rules. White space breaks adjacency, and
enclosures that follow no identifier stay as they are. Nodes are normalized from the inside out. -/

namespace Manuscript.Normalize

/-- The rules of every where block a list starts with, and how many nodes these take up. -/
def leadingWheres : List Node → List (Rule Node) × Nat
  | [] => ([], 0)
  | [node] => (Rule.leadingWhere [node]).getD ([], 0)
  | node :: next :: rest =>
    match Rule.leadingWhere (node :: next :: rest) with
    | none => ([], 0)
    | some (rules, used) =>
      let (more, count) := if used = 1 then leadingWheres (next :: rest) else leadingWheres rest
      (rules ++ more, used + count)

/-- Adds the argument blocks and where blocks that follow a tag. A tag with neither options nor arguments is no
tag at all. -/
def attach (tag : Tag Node) (rest : List Node) : Option (Tag Node × Nat) :=
  let args := Node.leadingCurly rest
  if tag.options.isNone && (tag.args ++ args).isEmpty then none
  else
    let (rules, used) := leadingWheres (rest.drop args.length)
    some ({ tag with args := tag.args ++ args, rules := tag.rules ++ rules }, args.length + used)

/-- The tag that starts at a node, and the number of siblings behind it that it takes up. -/
def tagAt (node : Node) (rest : List Node) : Option (Tag Node × Nat) :=
  match node with
  | .ident ident =>
    match Node.leadingBlock .square rest with
    | some options =>
      (attach { ident, options := some options, attributes := some (Attributes.parse options.children) }
        (rest.drop 1)).map fun (tag, used) => (tag, used + 1)
    | none => attach { ident } rest
  | .tag tag => attach tag rest
  | _ => none

/-- Collapses one level of siblings, passing over `skip` nodes that the last tag has taken up. -/
def collapseFrom : (skip : Nat) → List Node → List Node
  | _, [] => []
  | skip + 1, _ :: rest => collapseFrom skip rest
  | 0, node :: rest =>
    match tagAt node rest with
    | some (tag, used) => .tag tag :: collapseFrom used rest
    | none => node :: collapseFrom 0 rest

end Normalize

mutual

def Node.normalize : Node → Node
  | .bracket block => .bracket (normalizeBlock block)
  | .quotation opening closing children =>
    .quotation opening closing (Normalize.collapseFrom 0 (normalizeEach children))
  | .fragment children => .fragment (Normalize.collapseFrom 0 (normalizeEach children))
  | .tag ⟨ident, options, attributes, args, rules⟩ => .tag ⟨ident, options, attributes, normalizeBlocks args, rules⟩
  | .command ⟨ident, attributes, args, declaration, rules⟩ =>
    .command ⟨ident, attributes, Normalize.collapseFrom 0 (normalizeEach args), declaration, rules⟩
  | node => node
termination_by structural node => node

def normalizeEach : List Node → List Node
  | [] => []
  | node :: rest => node.normalize :: normalizeEach rest
termination_by structural nodes => nodes

def normalizeBlock : Block Node → Block Node
  | ⟨kind, opening, closing, children⟩ =>
    ⟨kind, opening, closing, Normalize.collapseFrom 0 (normalizeEach children)⟩
termination_by structural block => block

def normalizeBlocks : List (Block Node) → List (Block Node)
  | [] => []
  | block :: rest => normalizeBlock block :: normalizeBlocks rest
termination_by structural blocks => blocks

end

def normalize (nodes : List Node) : List Node := Normalize.collapseFrom 0 (normalizeEach nodes)

end Manuscript
