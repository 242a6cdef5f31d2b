import Manuscript.Document.Clone
import Manuscript.Document.Equality
import Manuscript.Proofs.Placement

/-! Syntactic equality is equality of skeletons. A skeleton has what the comparison sees of a tree and nothing else, so
that the comparison is an equivalence relation although it passes over different things in different nodes. -/

namespace Manuscript

/-- An absent token counts as an empty one. -/
def Token.skeleton (token : Option Token) : Option Token := some { text := Token.textOf token }

mutual

/-- A node without its places, without what its texts and drawings hold, and without the options, rules and
declarations of tags and commands. An attribute list that is absent counts as an empty one. -/
def Node.skeleton : Node → Node
  | .hole => .hole
  | .text _ _ => .text "" {}
  | .symbol value _ => .symbol value {}
  | .ident ident => .ident { name := ident.name }
  | .stray token => .stray token.unplaced
  | .bracket block => .bracket (blockSkeleton block)
  | .quotation opening closing children =>
    .quotation (Token.skeleton opening) (Token.skeleton closing) (skeleton children)
  | .fragment children => .fragment (skeleton children)
  | .drawing _ => .drawing ⟨"", [], []⟩
  | .tag ⟨ident, _, attributes, args, _⟩ =>
    .tag {
      ident := { name := ident.name }
      attributes := some (attributesSkeleton attributes)
      args := blocksSkeleton args }
  | .command ⟨ident, attributes, args, _, _⟩ =>
    .command {
      ident := { name := ident.name }
      attributes := some (attributesSkeleton attributes)
      args := skeleton args }
termination_by structural node => node

def skeleton : List Node → List Node
  | [] => []
  | node :: rest => node.skeleton :: skeleton rest
termination_by structural nodes => nodes

def blockSkeleton : Block Node → Block Node
  | ⟨kind, opening, closing, children⟩ => ⟨kind, Token.skeleton opening, Token.skeleton closing, skeleton children⟩
termination_by structural block => block

def blocksSkeleton : List (Block Node) → List (Block Node)
  | [] => []
  | block :: rest => blockSkeleton block :: blocksSkeleton rest
termination_by structural blocks => blocks

def attributesSkeleton : Option (List (Attribute Node)) → List (Attribute Node)
  | none => []
  | some items => itemsSkeleton items
termination_by structural attributes => attributes

def itemsSkeleton : List (Attribute Node) → List (Attribute Node)
  | [] => []
  | item :: rest => itemSkeleton item :: itemsSkeleton rest
termination_by structural items => items

def itemSkeleton : Attribute Node → Attribute Node
  | ⟨key, value⟩ => ⟨key.skeleton, valueSkeleton value⟩
termination_by structural item => item

def valueSkeleton : Option Node → Option Node
  | none => none
  | some value => some value.skeleton
termination_by structural value => value

end

section Comparison

theorem Token.skeleton_inj {token other : Option Token} :
    Token.skeleton token = Token.skeleton other ↔ Token.textOf token = Token.textOf other := by
  simp [Token.skeleton]

theorem attributesSkeleton_getD (attributes : Option Attributes) :
    itemsSkeleton (attributes.getD []) = attributesSkeleton attributes := by
  cases attributes <;> rfl

mutual

theorem Node.alike_iff (node other : Node) : node.alike other = true ↔ node.skeleton = other.skeleton := by
  match node with
  | .bracket block =>
    cases other with
    | bracket other => simpa [Node.alike, Node.skeleton] using blockAlike_iff block other
    | _ => simp [Node.alike, Node.skeleton]
  | .quotation opening closing children =>
    cases other with
    | quotation opening' closing' others =>
      simp [Node.alike, Node.skeleton, Token.skeleton_inj, alike_iff children others, and_assoc]
    | _ => simp [Node.alike, Node.skeleton]
  | .fragment children =>
    cases other with
    | fragment others => simpa [Node.alike, Node.skeleton] using alike_iff children others
    | _ => simp [Node.alike, Node.skeleton]
  | .tag ⟨ident, options, attributes, args, rules⟩ =>
    cases other with
    | tag other =>
      simp [Node.alike, Node.skeleton, attributesAlike_iff attributes (other.attributes.getD []),
        attributesSkeleton_getD, blocksAlike_iff args other.args, and_assoc]
    | _ => simp [Node.alike, Node.skeleton]
  | .command ⟨ident, attributes, args, declaration, rules⟩ =>
    cases other with
    | command other =>
      simp [Node.alike, Node.skeleton, attributesAlike_iff attributes (other.attributes.getD []),
        attributesSkeleton_getD, alike_iff args other.args, and_assoc]
    | _ => simp [Node.alike, Node.skeleton]
  | .hole | .text _ _ | .symbol _ _ | .ident _ | .stray _ | .drawing _ =>
    cases other <;> simp [Node.alike, Node.skeleton, Token.unplaced]
termination_by structural node

theorem alike_iff (nodes others : List Node) : alike nodes others = true ↔ skeleton nodes = skeleton others := by
  match nodes, others with
  | [], [] => simp [alike, skeleton]
  | [], _ :: _ | _ :: _, [] => simp [alike, skeleton]
  | node :: rest, other :: more =>
    simp [alike, skeleton, Node.alike_iff node other, alike_iff rest more]
termination_by structural nodes

theorem blockAlike_iff (block other : Block Node) :
    blockAlike block other = true ↔ blockSkeleton block = blockSkeleton other := by
  match block with
  | ⟨kind, opening, closing, children⟩ =>
    obtain ⟨kind', opening', closing', others⟩ := other
    simp [blockAlike, blockSkeleton, Token.skeleton_inj, alike_iff children others, and_assoc]
termination_by structural block

theorem blocksAlike_iff (blocks others : List (Block Node)) :
    blocksAlike blocks others = true ↔ blocksSkeleton blocks = blocksSkeleton others := by
  match blocks, others with
  | [], [] => simp [blocksAlike, blocksSkeleton]
  | [], _ :: _ | _ :: _, [] => simp [blocksAlike, blocksSkeleton]
  | block :: rest, other :: more =>
    simp [blocksAlike, blocksSkeleton, blockAlike_iff block other, blocksAlike_iff rest more]
termination_by structural blocks

theorem attributesAlike_iff (attributes : Option Attributes) (others : Attributes) :
    attributesAlike attributes others = true ↔ attributesSkeleton attributes = itemsSkeleton others := by
  match attributes with
  | none => cases others <;> simp [attributesAlike, attributesSkeleton, itemsSkeleton]
  | some items => exact itemsAlike_iff items others
termination_by structural attributes

theorem itemsAlike_iff (items others : Attributes) :
    itemsAlike items others = true ↔ itemsSkeleton items = itemsSkeleton others := by
  match items, others with
  | [], [] => simp [itemsAlike, itemsSkeleton]
  | [], _ :: _ | _ :: _, [] => simp [itemsAlike, itemsSkeleton]
  | item :: rest, other :: more =>
    simp [itemsAlike, itemsSkeleton, itemAlike_iff item other, itemsAlike_iff rest more]
termination_by structural items

theorem itemAlike_iff (item other : Attribute Node) :
    itemAlike item other = true ↔ itemSkeleton item = itemSkeleton other := by
  match item with
  | ⟨key, value⟩ =>
    obtain ⟨key', other⟩ := other
    simp [itemAlike, itemSkeleton, Node.alike_iff key key', valueAlike_iff value other]
termination_by structural item

theorem valueAlike_iff (value other : Option Node) :
    valueAlike value other = true ↔ valueSkeleton value = valueSkeleton other := by
  match value, other with
  | none, none => simp [valueAlike, valueSkeleton]
  | none, some _ | some _, none => simp [valueAlike, valueSkeleton]
  | some value, some other => simp [valueAlike, valueSkeleton, Node.alike_iff value other]
termination_by structural value

end

theorem Node.alike_equivalence : Equivalence fun node other : Node => node.alike other = true where
  refl node := (Node.alike_iff node node).mpr rfl
  symm {node other} same := (Node.alike_iff other node).mpr ((Node.alike_iff node other).mp same).symm
  trans {node other third} same more :=
    (Node.alike_iff node third).mpr (((Node.alike_iff node other).mp same).trans ((Node.alike_iff other third).mp more))

theorem alike_equivalence : Equivalence fun nodes others : List Node => alike nodes others = true where
  refl nodes := (alike_iff nodes nodes).mpr rfl
  symm {nodes others} same := (alike_iff others nodes).mpr ((alike_iff nodes others).mp same).symm
  trans {nodes others third} same more :=
    (alike_iff nodes third).mpr (((alike_iff nodes others).mp same).trans ((alike_iff others third).mp more))

theorem Node.alike_symm (node other : Node) : node.alike other = other.alike node := by
  apply Bool.eq_iff_iff.mpr
  rw [Node.alike_iff, Node.alike_iff, eq_comm]

/-- Nodes that are equal to one another are equal to the same nodes. -/
theorem Node.alike_left {node other : Node} (same : node.alike other = true) (third : Node) :
    node.alike third = other.alike third := by
  apply Bool.eq_iff_iff.mpr
  rw [Node.alike_iff, Node.alike_iff, (Node.alike_iff node other).mp same]

end Comparison

section Copies

mutual

/-- A tree has no identity besides what it holds, so a deep copy of it is the tree itself. -/
theorem Node.clone_eq (node : Node) : node.clone = node := by
  match node with
  | .bracket block => rw [Node.clone, cloneBlock_eq block]
  | .quotation _ _ children | .fragment children => rw [Node.clone, cloneAll_eq children]
  | .tag ⟨_, options, attributes, args, rules⟩ =>
    rw [Node.clone, cloneOptions_eq options, cloneAttributes_eq attributes, cloneBlocks_eq args, cloneRules_eq rules]
  | .command ⟨_, attributes, args, _, rules⟩ =>
    rw [Node.clone, cloneAttributes_eq attributes, cloneAll_eq args, cloneRules_eq rules]
  | .hole | .text _ _ | .symbol _ _ | .ident _ | .stray _ | .drawing _ => rfl
termination_by structural node

theorem cloneAll_eq (nodes : List Node) : cloneAll nodes = nodes := by
  match nodes with
  | [] => rfl
  | node :: rest => rw [cloneAll, Node.clone_eq node, cloneAll_eq rest]
termination_by structural nodes

theorem cloneBlock_eq (block : Block Node) : cloneBlock block = block := by
  match block with
  | ⟨_, _, _, children⟩ => rw [cloneBlock, cloneAll_eq children]
termination_by structural block

theorem cloneOptions_eq (options : Option (Block Node)) : cloneOptions options = options := by
  match options with
  | none => rfl
  | some block => rw [cloneOptions, cloneBlock_eq block]
termination_by structural options

theorem cloneBlocks_eq (blocks : List (Block Node)) : cloneBlocks blocks = blocks := by
  match blocks with
  | [] => rfl
  | block :: rest => rw [cloneBlocks, cloneBlock_eq block, cloneBlocks_eq rest]
termination_by structural blocks

theorem cloneAttributes_eq (attributes : Option Attributes) : cloneAttributes attributes = attributes := by
  match attributes with
  | none => rfl
  | some items => rw [cloneAttributes, cloneItems_eq items]
termination_by structural attributes

theorem cloneItems_eq (items : Attributes) : cloneItems items = items := by
  match items with
  | [] => rfl
  | item :: rest => rw [cloneItems, cloneItem_eq item, cloneItems_eq rest]
termination_by structural items

theorem cloneItem_eq (item : Attribute Node) : cloneItem item = item := by
  match item with
  | ⟨key, value⟩ => rw [cloneItem, Node.clone_eq key, cloneValue_eq value]
termination_by structural item

theorem cloneValue_eq (value : Option Node) : cloneValue value = value := by
  match value with
  | none => rfl
  | some value => rw [cloneValue, Node.clone_eq value]
termination_by structural value

theorem cloneRules_eq (rules : List (Rule Node)) : cloneRules rules = rules := by
  match rules with
  | [] => rfl
  | rule :: rest => rw [cloneRules, cloneRule_eq rule, cloneRules_eq rest]
termination_by structural rules

theorem cloneRule_eq (rule : Rule Node) : cloneRule rule = rule := by
  match rule with
  | ⟨pattern, target⟩ => rw [cloneRule, cloneAll_eq pattern, cloneAll_eq target]
termination_by structural rule

end

end Copies

/-- Nodes are equal to the comparison if and only if their skeletons are, and so are lists of nodes. So the comparison is
an equivalence relation, and a copy is equal to what it was made of. -/
theorem alike_skeletons :
    (∀ node other : Node, node.alike other = true ↔ node.skeleton = other.skeleton) ∧
      (∀ nodes others : List Node, alike nodes others = true ↔ skeleton nodes = skeleton others) ∧
      (Equivalence fun node other : Node => node.alike other = true) ∧
      (Equivalence fun nodes others : List Node => alike nodes others = true) ∧
      (∀ node : Node, node.alike node.clone = true) ∧ ∀ nodes : List Node, alike nodes (cloneAll nodes) = true := by
  refine ⟨Node.alike_iff, alike_iff, Node.alike_equivalence, alike_equivalence, ?_, ?_⟩
  · intro node
    rw [node.clone_eq]
    exact Node.alike_equivalence.refl node
  · intro nodes
    rw [cloneAll_eq]
    exact alike_equivalence.refl nodes

end Manuscript
