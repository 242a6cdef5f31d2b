import Manuscript.Document.Node

/-! Exact equality of trees is decided, so that what a run on a given source leaves can be computed and compared. Unlike
syntactic equality it passes over nothing. -/

namespace Manuscript

mutual

def Node.identical : Node → Node → Bool
  | .hole, .hole => true
  | .text value span, .text value' span' => value == value' && span == span'
  | .symbol value span, .symbol value' span' => value == value' && span == span'
  | .ident ident, .ident other => ident == other
  | .stray token, .stray other => token == other
  | .bracket block, .bracket other => blockIdentical block other
  | .quotation opening closing children, .quotation opening' closing' children' =>
    opening == opening' && closing == closing' && identical children children'
  | .fragment children, .fragment children' => identical children children'
  | .drawing drawing, .drawing other => drawing == other
  | .tag ⟨ident, options, attributes, args, rules⟩, .tag other =>
    ident == other.ident && optionsIdentical options other.options && attributesIdentical attributes other.attributes &&
      blocksIdentical args other.args && rulesIdentical rules other.rules
  | .command ⟨ident, attributes, args, declaration, rules⟩, .command other =>
    ident == other.ident && attributesIdentical attributes other.attributes && identical args other.args &&
      declaration == other.declaration && rulesIdentical rules other.rules
  | _, _ => false
termination_by structural node => node

def identical : List Node → List Node → Bool
  | [], [] => true
  | node :: rest, other :: more => node.identical other && identical rest more
  | _, _ => false
termination_by structural nodes => nodes

def blockIdentical : Block Node → Block Node → Bool
  | ⟨kind, opening, closing, children⟩, other =>
    kind == other.kind && opening == other.opening && closing == other.closing && identical children other.children
termination_by structural block => block

def optionsIdentical : Option (Block Node) → Option (Block Node) → Bool
  | none, none => true
  | some block, some other => blockIdentical block other
  | _, _ => false
termination_by structural options => options

def blocksIdentical : List (Block Node) → List (Block Node) → Bool
  | [], [] => true
  | block :: rest, other :: more => blockIdentical block other && blocksIdentical rest more
  | _, _ => false
termination_by structural blocks => blocks

def attributesIdentical : Option (List (Attribute Node)) → Option (List (Attribute Node)) → Bool
  | none, none => true
  | some items, some others => itemsIdentical items others
  | _, _ => false
termination_by structural attributes => attributes

def itemsIdentical : List (Attribute Node) → List (Attribute Node) → Bool
  | [], [] => true
  | item :: rest, other :: more => itemIdentical item other && itemsIdentical rest more
  | _, _ => false
termination_by structural items => items

def itemIdentical : Attribute Node → Attribute Node → Bool
  | ⟨key, value⟩, other => key.identical other.key && valueIdentical value other.value
termination_by structural item => item

def valueIdentical : Option Node → Option Node → Bool
  | none, none => true
  | some value, some other => value.identical other
  | _, _ => false
termination_by structural value => value

def rulesIdentical : List (Rule Node) → List (Rule Node) → Bool
  | [], [] => true
  | rule :: rest, other :: more => ruleIdentical rule other && rulesIdentical rest more
  | _, _ => false
termination_by structural rules => rules

def ruleIdentical : Rule Node → Rule Node → Bool
  | ⟨pattern, target⟩, other => identical pattern other.pattern && identical target other.target
termination_by structural rule => rule

end

mutual

theorem Node.identical_iff (node other : Node) : node.identical other = true ↔ node = other := by
  match node with
  | .bracket block =>
    cases other with
    | bracket other => simpa [Node.identical] using blockIdentical_iff block other
    | _ => simp [Node.identical]
  | .quotation opening closing children =>
    cases other with
    | quotation opening' closing' others => simp [Node.identical, identical_iff children others, and_assoc]
    | _ => simp [Node.identical]
  | .fragment children =>
    cases other with
    | fragment others => simpa [Node.identical] using identical_iff children others
    | _ => simp [Node.identical]
  | .tag ⟨ident, options, attributes, args, rules⟩ =>
    cases other with
    | tag other =>
      obtain ⟨ident', options', attributes', args', rules'⟩ := other
      simp [Node.identical, optionsIdentical_iff options options', attributesIdentical_iff attributes attributes',
        blocksIdentical_iff args args', rulesIdentical_iff rules rules', and_assoc]
    | _ => simp [Node.identical]
  | .command ⟨ident, attributes, args, declaration, rules⟩ =>
    cases other with
    | command other =>
      obtain ⟨ident', attributes', args', declaration', rules'⟩ := other
      simp [Node.identical, attributesIdentical_iff attributes attributes', identical_iff args args',
        rulesIdentical_iff rules rules', and_assoc]
    | _ => simp [Node.identical]
  | .hole | .text _ _ | .symbol _ _ | .ident _ | .stray _ | .drawing _ => cases other <;> simp [Node.identical]
termination_by structural node

theorem identical_iff (nodes others : List Node) : identical nodes others = true ↔ nodes = others := by
  match nodes, others with
  | [], [] | [], _ :: _ | _ :: _, [] => simp [identical]
  | node :: rest, other :: more => simp [identical, Node.identical_iff node other, identical_iff rest more]
termination_by structural nodes

theorem blockIdentical_iff (block other : Block Node) : blockIdentical block other = true ↔ block = other := by
  match block with
  | ⟨kind, opening, closing, children⟩ =>
    obtain ⟨kind', opening', closing', others⟩ := other
    simp [blockIdentical, identical_iff children others, and_assoc]
termination_by structural block

theorem optionsIdentical_iff (options others : Option (Block Node)) :
    optionsIdentical options others = true ↔ options = others := by
  match options, others with
  | none, none | none, some _ | some _, none => simp [optionsIdentical]
  | some block, some other => simp [optionsIdentical, blockIdentical_iff block other]
termination_by structural options

theorem blocksIdentical_iff (blocks others : List (Block Node)) :
    blocksIdentical blocks others = true ↔ blocks = others := by
  match blocks, others with
  | [], [] | [], _ :: _ | _ :: _, [] => simp [blocksIdentical]
  | block :: rest, other :: more =>
    simp [blocksIdentical, blockIdentical_iff block other, blocksIdentical_iff rest more]
termination_by structural blocks

theorem attributesIdentical_iff (attributes others : Option Attributes) :
    attributesIdentical attributes others = true ↔ attributes = others := by
  match attributes, others with
  | none, none | none, some _ | some _, none => simp [attributesIdentical]
  | some items, some others => simp [attributesIdentical, itemsIdentical_iff items others]
termination_by structural attributes

theorem itemsIdentical_iff (items others : Attributes) : itemsIdentical items others = true ↔ items = others := by
  match items, others with
  | [], [] | [], _ :: _ | _ :: _, [] => simp [itemsIdentical]
  | item :: rest, other :: more => simp [itemsIdentical, itemIdentical_iff item other, itemsIdentical_iff rest more]
termination_by structural items

theorem itemIdentical_iff (item other : Attribute Node) : itemIdentical item other = true ↔ item = other := by
  match item with
  | ⟨key, value⟩ =>
    obtain ⟨key', value'⟩ := other
    simp [itemIdentical, Node.identical_iff key key', valueIdentical_iff value value']
termination_by structural item

theorem valueIdentical_iff (value other : Option Node) : valueIdentical value other = true ↔ value = other := by
  match value, other with
  | none, none | none, some _ | some _, none => simp [valueIdentical]
  | some value, some other => simp [valueIdentical, Node.identical_iff value other]
termination_by structural value

theorem rulesIdentical_iff (rules others : List (Rule Node)) :
    rulesIdentical rules others = true ↔ rules = others := by
  match rules, others with
  | [], [] | [], _ :: _ | _ :: _, [] => simp [rulesIdentical]
  | rule :: rest, other :: more => simp [rulesIdentical, ruleIdentical_iff rule other, rulesIdentical_iff rest more]
termination_by structural rules

theorem ruleIdentical_iff (rule other : Rule Node) : ruleIdentical rule other = true ↔ rule = other := by
  match rule with
  | ⟨pattern, target⟩ =>
    obtain ⟨pattern', target'⟩ := other
    simp [ruleIdentical, identical_iff pattern pattern', identical_iff target target']
termination_by structural rule

end

instance : DecidableEq Node := fun node other => decidable_of_iff _ (node.identical_iff other)

end Manuscript
