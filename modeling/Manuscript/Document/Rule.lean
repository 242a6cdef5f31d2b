import Manuscript.Document.Equality

/-! Substitution rules. A where block lists arms `{pattern} => {target}`; substitution is one pass from left to right in
which the first rule that matches at a place wins and what it inserts is not looked at again. -/

namespace Manuscript.Rule

/-- The identifier of a block of substitution rules. -/
def whereIdent : String := "\\where!"

/-- How far an arm has been read: nothing, a pattern, or a pattern and its arrow. -/
inductive Arm where
  | start
  | pattern (nodes : List Node)
  | arrow (nodes : List Node)

/-- Reads the arms of a where block. Blank text between the parts of an arm is passed over; any other node that
is not part of an arm starts afresh. -/
def parseFrom : Arm → List Node → List (Rule Node)
  | _, [] => []
  | arm, .bracket block :: rest =>
    if block.kind = .curly then
      match arm with
      | .arrow pattern => ⟨pattern, block.children⟩ :: parseFrom .start rest
      | _ => parseFrom (.pattern block.children) rest
    else parseFrom .start rest
  | arm, .symbol value _ :: rest =>
    if value = "=>" then
      match arm with
      | .start => parseFrom .start rest
      | .pattern pattern | .arrow pattern => parseFrom (.arrow pattern) rest
    else parseFrom .start rest
  | arm, .text value _ :: rest => if Blank.isBlank value then parseFrom arm rest else parseFrom .start rest
  | _, _ :: rest => parseFrom .start rest

def parse (nodes : List Node) : List (Rule Node) := parseFrom .start nodes

/-- What has been read of an arm has a property. -/
def Arm.Holds (P : List Node → Prop) : Arm → Prop
  | .start => True
  | .pattern nodes | .arrow nodes => P nodes

theorem parseFrom_forall {P : List Node → Prop} {arm : Arm} {nodes : List Node} (held : arm.Holds P)
    (blocks : ∀ block, .bracket block ∈ nodes → P block.children) :
    ∀ rule ∈ parseFrom arm nodes, P rule.pattern ∧ P rule.target := by
  have later {node : Node} {rest : List Node} (each : ∀ block, .bracket block ∈ node :: rest → P block.children) :
      ∀ block, .bracket block ∈ rest → P block.children :=
    fun block member => each block (List.mem_cons_of_mem _ member)
  fun_induction parseFrom arm nodes with
  | case1 => simp
  | case2 block rest _ pattern ih =>
    have target := blocks block (List.mem_cons_self ..)
    exact List.forall_mem_cons.mpr ⟨⟨held, target⟩, ih trivial (later blocks)⟩
  | case3 arm block rest _ _ ih => exact ih (blocks block (List.mem_cons_self ..)) (later blocks)
  | case6 _ rest _ ih | case7 _ rest _ ih | case9 _ _ _ rest _ ih => exact ih held (later blocks)
  | case4 _ _ _ _ ih | case5 _ _ ih | case8 _ _ _ _ _ ih | case10 _ _ _ _ _ ih | case11 _ _ _ _ _ _ ih =>
    exact ih trivial (later blocks)

/-- Patterns and targets of rules are contents of blocks. -/
theorem parse_forall {P : List Node → Prop} {nodes : List Node}
    (blocks : ∀ block, .bracket block ∈ nodes → P block.children) :
    ∀ rule ∈ parse nodes, P rule.pattern ∧ P rule.target :=
  parseFrom_forall trivial blocks

/-- Whether the pattern is alike to the start of a window; an empty pattern matches nowhere. -/
def matchesAt (window : List Node) (rule : Rule Node) : Bool :=
  !rule.pattern.isEmpty && alike (window.take rule.pattern.length) rule.pattern

def firstMatch (rules : List (Rule Node)) (window : List Node) : Option (Rule Node) :=
  rules.find? (matchesAt window)

/-- The rules of the where block that a list starts with, and the number of nodes it takes up. A where block is
its identifier with one curly block behind it, or a tag that was made of these. -/
def leadingWhere : List Node → Option (List (Rule Node) × Nat)
  | .ident ident :: .bracket block :: _ =>
    if ident.name = whereIdent && block.kind = .curly then some (parse block.children, 2) else none
  | .tag tag :: _ =>
    if tag.ident.name = whereIdent && tag.options.isNone && !tag.args.isEmpty then
      some (tag.args.flatMap (parse ·.children), 1)
    else none
  | _ => none

end Rule

mutual

/-- Substitutes inside a node that is kept. Options, attributes and attached rules are left alone. -/
def Node.substitute (rules : List (Rule Node)) : Node → Node
  | .bracket block => .bracket (substituteBlock rules block)
  | .quotation opening closing children => .quotation opening closing (substituteFrom rules 0 children)
  | .fragment children => .fragment (substituteFrom rules 0 children)
  | .tag ⟨ident, options, attributes, args, attached⟩ =>
    .tag ⟨ident, options, attributes, substituteBlocks rules args, attached⟩
  | .command ⟨ident, attributes, args, declaration, attached⟩ =>
    .command ⟨ident, attributes, substituteFrom rules 0 args, declaration, attached⟩
  | node => node
termination_by structural node => node

/-- Substitutes in what follows `skip` nodes that belong to a window already replaced. -/
def substituteFrom (rules : List (Rule Node)) : (skip : Nat) → List Node → List Node
  | _, [] => []
  | skip + 1, _ :: rest => substituteFrom rules skip rest
  | 0, node :: rest =>
    match Rule.firstMatch rules (node :: rest) with
    | some rule => rule.target ++ substituteFrom rules (rule.pattern.length - 1) rest
    | none => node.substitute rules :: substituteFrom rules 0 rest
termination_by structural _ nodes => nodes

def substituteBlock (rules : List (Rule Node)) : Block Node → Block Node
  | ⟨kind, opening, closing, children⟩ => ⟨kind, opening, closing, substituteFrom rules 0 children⟩
termination_by structural block => block

def substituteBlocks (rules : List (Rule Node)) : List (Block Node) → List (Block Node)
  | [] => []
  | block :: rest => substituteBlock rules block :: substituteBlocks rules rest
termination_by structural blocks => blocks

end

def substitute (rules : List (Rule Node)) (nodes : List Node) : List Node := substituteFrom rules 0 nodes

end Manuscript
