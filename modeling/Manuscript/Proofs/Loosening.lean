import Manuscript.Proofs.Idempotence
import Manuscript.Proofs.Unresolved

/-! Arguments attached and loose. Where neither option lists nor where blocks are written, all that normalization does
is to move argument blocks from behind identifiers into tags. An invocation finds the same arguments in both places,
so a tree resolves alike as it was parsed and as it was normalized, but for the tags that are left. -/

namespace Manuscript

open Resolve

mutual

/-- A tag that is left unresolved, written out as its identifier with its argument blocks behind it. -/
def Node.loosened : Node → List Node
  | .bracket block => [.bracket (loosenedBlock block)]
  | .quotation opening closing children => [.quotation opening closing (loosened children)]
  | .fragment children => [.fragment (loosened children)]
  | .tag ⟨ident, _, _, args, _⟩ => .ident ident :: loosenedBlocks args
  | .command ⟨ident, attributes, args, declaration, rules⟩ =>
    [.command ⟨ident, attributes, loosened args, declaration, rules⟩]
  | node => [node]
termination_by structural node => node

/-- Every tag written out, at every depth. -/
def loosened : List Node → List Node
  | [] => []
  | node :: rest => node.loosened ++ loosened rest
termination_by structural nodes => nodes

def loosenedBlock : Block Node → Block Node
  | ⟨kind, opening, closing, children⟩ => ⟨kind, opening, closing, loosened children⟩
termination_by structural block => block

def loosenedBlocks : List (Block Node) → List Node
  | [] => []
  | block :: rest => .bracket (loosenedBlock block) :: loosenedBlocks rest
termination_by structural blocks => blocks

end

mutual

/-- No square blocks and no where blocks, and nothing attached to identifiers but arguments, if these may be. -/
def Node.Simple (attached : Bool) : Node → Prop
  | .ident ident => ident.name ≠ Rule.whereIdent
  | .bracket block => BlockSimple attached block
  | .quotation _ _ children => Simple attached children
  | .fragment children => Simple attached children
  | .tag ⟨ident, options, attributes, args, rules⟩ =>
    attached = true ∧ ident.name ≠ Rule.whereIdent ∧ options = none ∧ attributes = none ∧ BlocksSimple attached args ∧
      rules = []
  | .command ⟨_, _, args, _, _⟩ => Simple attached args
  | _ => True
termination_by structural node => node

def Simple (attached : Bool) : List Node → Prop
  | [] => True
  | node :: rest => node.Simple attached ∧ Simple attached rest
termination_by structural nodes => nodes

def BlockSimple (attached : Bool) : Block Node → Prop
  | ⟨kind, _, _, children⟩ => kind ≠ .square ∧ Simple attached children
termination_by structural block => block

def BlocksSimple (attached : Bool) : List (Block Node) → Prop
  | [] => True
  | block :: rest => BlockSimple attached block ∧ BlocksSimple attached rest
termination_by structural blocks => blocks

end

variable {attached : Bool}

theorem simple_iff {nodes : List Node} : Simple attached nodes ↔ ∀ node ∈ nodes, node.Simple attached := by
  induction nodes with
  | nil => simp [Simple]
  | cons node rest ih => rw [Simple, ih, List.forall_mem_cons]

theorem blocksSimple_iff {blocks : List (Block Node)} :
    BlocksSimple attached blocks ↔ ∀ block ∈ blocks, BlockSimple attached block := by
  induction blocks with
  | nil => simp [BlocksSimple]
  | cons block rest ih => rw [BlocksSimple, ih, List.forall_mem_cons]

theorem blockSimple_iff {block : Block Node} :
    BlockSimple attached block ↔ block.kind ≠ .square ∧ Simple attached block.children := by
  obtain ⟨kind, opening, closing, children⟩ := block
  rfl

theorem simple_brackets {blocks : List (Block Node)} :
    Simple attached (blocks.map .bracket) ↔ ∀ block ∈ blocks, BlockSimple attached block := by
  rw [simple_iff, List.forall_mem_map]
  rfl

theorem Simple.sublist {nodes others : List Node} (simple : Simple attached others) (within : nodes.Sublist others) :
    Simple attached nodes :=
  simple_iff.mpr fun node member => simple_iff.mp simple node (within.subset member)

theorem Simple.append {nodes others : List Node} (first : Simple attached nodes) (second : Simple attached others) :
    Simple attached (nodes ++ others) :=
  simple_iff.mpr (List.forall_mem_append.mpr ⟨simple_iff.mp first, simple_iff.mp second⟩)

theorem Simple.no_square {nodes : List Node} (simple : Simple attached nodes) :
    Node.leadingBlock .square nodes = none := by
  cases nodes with
  | nil => rfl
  | cons node rest =>
    cases node with
    | bracket block =>
      have other := (blockSimple_iff.mp simple.1).1
      simp [Node.leadingBlock, other]
    | _ => rfl

theorem Simple.no_where {nodes : List Node} (simple : Simple attached nodes) : Rule.leadingWhere nodes = none := by
  unfold Rule.leadingWhere
  split
  · rw [if_neg]
    simp [show _ ≠ Rule.whereIdent from simple.1]
  next tag rest =>
    obtain ⟨ident, options, attributes, args, rules⟩ := tag
    rw [if_neg]
    simp [show ident.name ≠ Rule.whereIdent from simple.1.2.1]
  · rfl

section Loosened

theorem loosenedBlocks_eq (blocks : List (Block Node)) :
    loosenedBlocks blocks = (blocks.map loosenedBlock).map .bracket := by
  induction blocks with
  | nil => rfl
  | cons block rest ih => rw [loosenedBlocks, ih, List.map_cons, List.map_cons]

theorem loosened_append (nodes others : List Node) :
    loosened (nodes ++ others) = loosened nodes ++ loosened others := by
  induction nodes with
  | nil => rfl
  | cons node rest ih => rw [List.cons_append, loosened, loosened, ih, List.append_assoc]

theorem loosened_brackets (blocks : List (Block Node)) :
    loosened (blocks.map .bracket) = (blocks.map loosenedBlock).map .bracket := by
  induction blocks with
  | nil => rfl
  | cons block rest ih =>
    rw [List.map_cons, loosened, ih]
    rfl

theorem blocksSimple_brackets {blocks : List (Block Node)} (simple : BlocksSimple attached (blocks.map loosenedBlock)) :
    Simple attached (loosenedBlocks blocks) := by
  rw [loosenedBlocks_eq]
  exact simple_brackets.mpr (blocksSimple_iff.mp simple)

mutual

theorem Node.loosened_simple (node : Node) (simple : node.Simple attached) : Simple attached node.loosened := by
  cases node with
  | bracket block => exact ⟨loosenedBlock_simple block simple, trivial⟩
  | quotation opening closing children | fragment children => exact ⟨loosened_simple children simple, trivial⟩
  | tag tag =>
    obtain ⟨ident, options, attributes, args, rules⟩ := tag
    obtain ⟨_, named, _, _, blocks, _⟩ := simple
    exact ⟨named, blocksSimple_brackets (loosenedBlocks_simple args blocks)⟩
  | command command =>
    obtain ⟨ident, attributes, args, declaration, rules⟩ := command
    exact ⟨loosened_simple args simple, trivial⟩
  | ident ident => exact ⟨simple, trivial⟩
  | hole | text | symbol | stray | drawing => exact ⟨trivial, trivial⟩
termination_by structural node

theorem loosened_simple (nodes : List Node) (simple : Simple attached nodes) : Simple attached (loosened nodes) := by
  cases nodes with
  | nil => trivial
  | cons node rest => exact (Node.loosened_simple node simple.1).append (loosened_simple rest simple.2)
termination_by structural nodes

theorem loosenedBlock_simple (block : Block Node) (simple : BlockSimple attached block) :
    BlockSimple attached (loosenedBlock block) := by
  obtain ⟨kind, opening, closing, children⟩ := block
  exact ⟨simple.1, loosened_simple children simple.2⟩
termination_by structural block

theorem loosenedBlocks_simple (blocks : List (Block Node)) (simple : BlocksSimple attached blocks) :
    BlocksSimple attached (blocks.map loosenedBlock) := by
  cases blocks with
  | nil => trivial
  | cons block rest => exact ⟨loosenedBlock_simple block simple.1, loosenedBlocks_simple rest simple.2⟩
termination_by structural blocks

end

end Loosened

section Normalized

open Normalize

/-- Without options and where blocks, an identifier takes up the curly blocks behind it and nothing else. -/
theorem tagAt_simple {node : Node} {rest : List Node} {tag : Tag Node} {used : Nat} (bare : node.isTag = false)
    (simple : Simple attached rest) (found : tagAt node rest = some (tag, used)) :
    ∃ ident, node = .ident ident ∧ tag = { ident, args := Node.leadingCurly rest } ∧
      used = (Node.leadingCurly rest).length := by
  cases node with
  | ident ident =>
    have none : Rule.leadingWhere (rest.drop (Node.leadingCurly rest).length) = none :=
      (simple.sublist (List.drop_sublist ..)).no_where
    simp only [tagAt, simple.no_square, attach_eq, leadingWheres_of_none none] at found
    split at found
    · cases found
    · cases found
      exact ⟨ident, rfl, rfl, rfl⟩
  | tag => cases bare
  | _ => cases found

/-- Collapsing only moves blocks into tags. -/
theorem loosened_collapse (skip : Nat) {nodes : List Node} (plain : untagged nodes = true)
    (simple : Simple true nodes) :
    loosened (collapseFrom skip nodes) = loosened (nodes.drop skip) ∧ Simple true (collapseFrom skip nodes) := by
  fun_induction collapseFrom skip nodes with
  | case1 => simp [loosened, Simple]
  | case2 skip node rest ih =>
    rw [List.drop_succ_cons]
    exact ih (untagged_cons.mp plain).2 simple.2
  | case3 node rest tag used found ih =>
    obtain ⟨bare, others⟩ := untagged_cons.mp plain
    obtain ⟨same, kept⟩ := ih others simple.2
    obtain ⟨ident, rfl, rfl, rfl⟩ := tagAt_simple bare simple.2 found
    have front := Node.leadingCurly_take rest
    have args : ∀ block ∈ Node.leadingCurly rest, BlockSimple true block :=
      simple_brackets.mp (front ▸ simple.2.sublist (List.take_sublist ..))
    refine ⟨?_, ⟨rfl, simple.1, rfl, rfl, blocksSimple_iff.mpr args, rfl⟩, kept⟩
    calc loosened (.tag { ident, args := Node.leadingCurly rest } :: collapseFrom (Node.leadingCurly rest).length rest)
        = .ident ident :: (loosenedBlocks (Node.leadingCurly rest) ++
            loosened (rest.drop (Node.leadingCurly rest).length)) := by
          rw [loosened, same]
          rfl
      _ = .ident ident :: loosened rest := by
          rw [loosenedBlocks_eq, ← loosened_brackets, ← front, ← loosened_append, List.take_append_drop]
  | case4 node rest _ ih =>
    obtain ⟨same, kept⟩ := ih (untagged_cons.mp plain).2 simple.2
    exact ⟨by rw [loosened, same]; rfl, simple.1, kept⟩

theorem untagged_of_simple {nodes : List Node} (simple : Simple false nodes) :
    untagged (normalizeEach nodes) = true := by
  induction nodes with
  | nil => rfl
  | cons node rest ih =>
    refine untagged_cons.mpr ⟨?_, ih simple.2⟩
    cases node with
    | tag tag => cases simple.1.1
    | _ => rfl

theorem loosened_normalize_of_each {nodes : List Node} (simple : Simple false nodes)
    (each : loosened (normalizeEach nodes) = nodes ∧ Simple true (normalizeEach nodes)) :
    loosened (normalize nodes) = nodes ∧ Simple true (normalize nodes) := by
  obtain ⟨same, kept⟩ := loosened_collapse 0 (untagged_of_simple simple) each.2
  exact ⟨same.trans each.1, kept⟩

mutual

theorem Node.loosened_normalize (node : Node) (simple : node.Simple false) :
    node.normalize.loosened = [node] ∧ node.normalize.Simple true := by
  cases node with
  | bracket block =>
    obtain ⟨kind, opening, closing, children⟩ := block
    obtain ⟨same, kept⟩ := loosened_normalize_of_each simple.2 (loosened_normalizeEach children simple.2)
    exact ⟨congrArg (fun children => [Node.bracket ⟨kind, opening, closing, children⟩]) same, simple.1, kept⟩
  | quotation opening closing children =>
    obtain ⟨same, kept⟩ := loosened_normalize_of_each simple (loosened_normalizeEach children simple)
    exact ⟨congrArg (fun children => [Node.quotation opening closing children]) same, kept⟩
  | fragment children =>
    obtain ⟨same, kept⟩ := loosened_normalize_of_each simple (loosened_normalizeEach children simple)
    exact ⟨congrArg (fun children => [Node.fragment children]) same, kept⟩
  | command command =>
    obtain ⟨ident, attributes, args, declaration, rules⟩ := command
    obtain ⟨same, kept⟩ := loosened_normalize_of_each simple (loosened_normalizeEach args simple)
    exact ⟨congrArg (fun args => [Node.command ⟨ident, attributes, args, declaration, rules⟩]) same, kept⟩
  | tag tag => cases simple.1
  | ident ident => exact ⟨rfl, simple⟩
  | hole | text | symbol | stray | drawing => exact ⟨rfl, trivial⟩
termination_by structural node

theorem loosened_normalizeEach (nodes : List Node) (simple : Simple false nodes) :
    loosened (normalizeEach nodes) = nodes ∧ Simple true (normalizeEach nodes) := by
  cases nodes with
  | nil => exact ⟨rfl, trivial⟩
  | cons node rest =>
    obtain ⟨first, kept⟩ := Node.loosened_normalize node simple.1
    obtain ⟨others, further⟩ := loosened_normalizeEach rest simple.2
    exact ⟨by rw [normalizeEach, loosened, first, others]; rfl, kept, further⟩
termination_by structural nodes

end

/-- Written out again, a normalized tree is the one it was made of. -/
theorem loosened_normalize {nodes : List Node} (simple : Simple false nodes) :
    loosened (normalize nodes) = nodes ∧ Simple true (normalize nodes) :=
  loosened_normalize_of_each simple (loosened_normalizeEach nodes simple)

end Normalized

section Source

open Parse

mutual

theorem Node.simple_of_wellFormed (node : Node) {place : Place} {final : Bool}
    (formed : node.wellFormed place final = true)
    (plain : ∀ token ∈ node.tokens, token.text ≠ opener .square ∧ token.text ≠ Rule.whereIdent) :
    node.Simple false := by
  cases node with
  | bracket block => exact blockSimple_of_wellFormed block formed plain
  | quotation opening closing children =>
    simp only [Node.wellFormed, Bool.and_eq_true] at formed
    simp only [Node.tokens, List.forall_mem_append] at plain
    exact simple_of_wellFormed children formed.2 plain.1.2
  | ident ident => exact (plain _ (List.mem_singleton_self _)).2
  | fragment | tag | command => cases formed
  | hole | text | symbol | stray | drawing => trivial
termination_by structural node

theorem simple_of_wellFormed (nodes : List Node) {place : Place} {final : Bool}
    (formed : wellFormed place final nodes = true)
    (plain : ∀ token ∈ tokensOf nodes, token.text ≠ opener .square ∧ token.text ≠ Rule.whereIdent) :
    Simple false nodes := by
  cases nodes with
  | nil => trivial
  | cons node rest =>
    simp only [wellFormed, Bool.and_eq_true] at formed
    simp only [tokensOf, List.forall_mem_append] at plain
    exact ⟨Node.simple_of_wellFormed node formed.1.1 plain.1, simple_of_wellFormed rest formed.2 plain.2⟩
termination_by structural nodes

theorem blockSimple_of_wellFormed (block : Block Node) {final : Bool} (formed : blockWellFormed final block = true)
    (plain : ∀ token ∈ blockTokens block, token.text ≠ opener .square ∧ token.text ≠ Rule.whereIdent) :
    BlockSimple false block := by
  obtain ⟨kind, opening, closing, children⟩ := block
  simp only [blockWellFormed, Bool.and_eq_true] at formed
  simp only [blockTokens, List.forall_mem_append] at plain
  refine ⟨?_, simple_of_wellFormed children formed.2 plain.1.2⟩
  rintro rfl
  obtain ⟨token, opened, mark⟩ := Option.any_eq_true .. |>.mp formed.1.1
  exact (plain.1.1 token (Option.mem_toList.mpr opened)).1 (beq_iff_eq.mp mark)
termination_by structural block

end

/-- What a token reads is a part of what the source reads. -/
theorem token_within {source : Bytes} {token : Token} (member : token ∈ tokensOf (Parse.ofBytes source)) :
    token.text.toList <:+: (Utf8.decode source).map Glyph.char := by
  rw [← source_ofBytes, source_toList]
  obtain ⟨front, back, split⟩ := List.append_of_mem member
  rw [split]
  exact ⟨spelling front, spelling back, by simp⟩

theorem ofBytes_simple {source : Bytes} (unsquared : '[' ∉ (Utf8.decode source).map Glyph.char)
    (whereless : ¬Rule.whereIdent.toList <:+: (Utf8.decode source).map Glyph.char) :
    Simple false (Parse.ofBytes source) := by
  refine simple_of_wellFormed _ (ofBytes_wellFormed source) fun token member => ⟨?_, ?_⟩
  · intro square
    refine unsquared ((token_within member).subset ?_)
    rw [square]
    exact List.mem_singleton_self _
  · intro named
    exact whereless (named ▸ token_within member)

end Source

end Manuscript
