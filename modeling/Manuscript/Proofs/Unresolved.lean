import Manuscript.Proofs.ParseGrammar
import Manuscript.Proofs.ResolutionEnds

/-! Trees that are not resolved yet. They hold no commands, and rules only where a where block was written. Sources are
parsed and normalized into such trees, and a descent never leaves them, as rules insert nothing but what was
written in their targets. -/

namespace Manuscript

open Resolve

mutual

/-- No command is inside, every identifier has one of the names that `named` is true of, and rules are there only if
that is true of the name of a where block. -/
def Node.Unresolved (named : String → Prop) : Node → Prop
  | .ident ident => named ident.name
  | .bracket block => BlockUnresolved named block
  | .quotation _ _ children => Unresolved named children
  | .fragment children => Unresolved named children
  | .tag ⟨ident, options, _, args, rules⟩ =>
    named ident.name ∧ OptionsUnresolved named options ∧ BlocksUnresolved named args ∧
      (rules = [] ∨ named Rule.whereIdent) ∧ RulesUnresolved named rules
  | .command _ => False
  | _ => True
termination_by structural node => node

def Unresolved (named : String → Prop) : List Node → Prop
  | [] => True
  | node :: rest => node.Unresolved named ∧ Unresolved named rest
termination_by structural nodes => nodes

def BlockUnresolved (named : String → Prop) : Block Node → Prop
  | ⟨_, _, _, children⟩ => Unresolved named children
termination_by structural block => block

def OptionsUnresolved (named : String → Prop) : Option (Block Node) → Prop
  | none => True
  | some block => BlockUnresolved named block
termination_by structural options => options

def BlocksUnresolved (named : String → Prop) : List (Block Node) → Prop
  | [] => True
  | block :: rest => BlockUnresolved named block ∧ BlocksUnresolved named rest
termination_by structural blocks => blocks

/-- Only targets are ever inserted somewhere. -/
def RulesUnresolved (named : String → Prop) : List (Rule Node) → Prop
  | [] => True
  | rule :: rest => RuleUnresolved named rule ∧ RulesUnresolved named rest
termination_by structural rules => rules

def RuleUnresolved (named : String → Prop) : Rule Node → Prop
  | ⟨_, target⟩ => Unresolved named target
termination_by structural rule => rule

end

variable {named : String → Prop}

theorem unresolved_iff {nodes : List Node} : Unresolved named nodes ↔ ∀ node ∈ nodes, node.Unresolved named := by
  induction nodes with
  | nil => simp [Unresolved]
  | cons node rest ih => rw [Unresolved, ih, List.forall_mem_cons]

theorem blockUnresolved_iff {block : Block Node} : BlockUnresolved named block ↔ Unresolved named block.children := by
  obtain ⟨kind, opening, closing, children⟩ := block
  rfl

theorem blocksUnresolved_iff {blocks : List (Block Node)} :
    BlocksUnresolved named blocks ↔ ∀ block ∈ blocks, BlockUnresolved named block := by
  induction blocks with
  | nil => simp [BlocksUnresolved]
  | cons block rest ih => rw [BlocksUnresolved, ih, List.forall_mem_cons]

theorem rulesUnresolved_iff {rules : List (Rule Node)} :
    RulesUnresolved named rules ↔ ∀ rule ∈ rules, Unresolved named rule.target := by
  induction rules with
  | nil => simp [RulesUnresolved]
  | cons rule rest ih =>
    obtain ⟨pattern, target⟩ := rule
    rw [RulesUnresolved, ih, List.forall_mem_cons, RuleUnresolved]

theorem unresolved_brackets {blocks : List (Block Node)} :
    Unresolved named (blocks.map .bracket) ↔ ∀ block ∈ blocks, BlockUnresolved named block := by
  rw [unresolved_iff, List.forall_mem_map]
  rfl

theorem Unresolved.sublist {nodes others : List Node} (unresolved : Unresolved named others)
    (within : nodes.Sublist others) : Unresolved named nodes :=
  unresolved_iff.mpr fun node member => unresolved_iff.mp unresolved node (within.subset member)

theorem Unresolved.append {nodes others : List Node} (first : Unresolved named nodes)
    (second : Unresolved named others) : Unresolved named (nodes ++ others) :=
  unresolved_iff.mpr (List.forall_mem_append.mpr ⟨unresolved_iff.mp first, unresolved_iff.mp second⟩)

section Rules

/-- Rules of a where block insert only what stands in it. -/
theorem parse_unresolved {nodes : List Node} (unresolved : Unresolved named nodes) :
    ∀ rule ∈ Rule.parse nodes, Unresolved named rule.target := by
  have blocks (block : Block Node) (inside : .bracket block ∈ nodes) : Unresolved named block.children :=
    blockUnresolved_iff.mp (unresolved_iff.mp unresolved (.bracket block) inside)
  exact fun rule member => (Rule.parse_forall (P := Unresolved named) blocks rule member).2

theorem leadingWhere_unresolved {nodes : List Node} (unresolved : Unresolved named nodes) {rules : List (Rule Node)}
    {used : Nat} (found : Rule.leadingWhere nodes = some (rules, used)) :
    named Rule.whereIdent ∧ ∀ rule ∈ rules, Unresolved named rule.target := by
  unfold Rule.leadingWhere at found
  split at found
  next ident block rest =>
    split at found
    next fits =>
      cases found
      simp only [Bool.and_eq_true, decide_eq_true_eq] at fits
      exact ⟨fits.1 ▸ unresolved.1, parse_unresolved (blockUnresolved_iff.mp unresolved.2.1)⟩
    next => cases found
  next tag rest =>
    split at found
    next fits =>
      cases found
      obtain ⟨ident, options, attributes, args, attached⟩ := tag
      simp only [Bool.and_eq_true, decide_eq_true_eq] at fits
      obtain ⟨own, _, blocks, _⟩ := unresolved.1
      refine ⟨fits.1.1 ▸ own, ?_⟩
      intro rule member
      obtain ⟨block, inside, listed⟩ := List.mem_flatMap.mp member
      exact parse_unresolved (blockUnresolved_iff.mp (blocksUnresolved_iff.mp blocks block inside)) rule listed
    next => cases found
  next => cases found

theorem leadingWheres_unresolved {nodes : List Node} (unresolved : Unresolved named nodes) :
    ((Normalize.leadingWheres nodes).1 = [] ∨ named Rule.whereIdent) ∧
      ∀ rule ∈ (Normalize.leadingWheres nodes).1, Unresolved named rule.target := by
  fun_induction Normalize.leadingWheres nodes with
  | case1 => simp
  | case2 node =>
    cases found : Rule.leadingWhere [node] with
    | none => simp
    | some result =>
      obtain ⟨own, targets⟩ := leadingWhere_unresolved unresolved found
      exact ⟨.inr own, targets⟩
  | case3 => simp
  | case4 node next rest rules used found more count behind first second =>
    obtain ⟨own, targets⟩ := leadingWhere_unresolved unresolved found
    refine ⟨.inr own, List.forall_mem_append.mpr ⟨targets, ?_⟩⟩
    split at behind
    · rw [behind] at first
      exact (first unresolved.2).2
    · rw [behind] at second
      exact (second unresolved.2.2).2

end Rules

section Normalize

theorem leadingCurly_unresolved {nodes : List Node} (unresolved : Unresolved named nodes) :
    ∀ block ∈ Node.leadingCurly nodes, BlockUnresolved named block := by
  have front : Unresolved named ((Node.leadingCurly nodes).map .bracket) :=
    unresolved.sublist (Node.leadingCurly_take nodes ▸ List.take_sublist ..)
  exact unresolved_brackets.mp front

theorem attach_unresolved {tag grown : Tag Node} {rest : List Node} {used : Nat}
    (own : (Node.tag tag).Unresolved named) (behind : Unresolved named rest)
    (found : Normalize.attach tag rest = some (grown, used)) : (Node.tag grown).Unresolved named := by
  obtain ⟨ident, options, attributes, args, rules⟩ := tag
  obtain ⟨name, optional, blocks, ruled, targets⟩ := own
  unfold Normalize.attach at found
  dsimp only at found
  split at found
  · cases found
  · cases found
    obtain ⟨more, others⟩ :=
      leadingWheres_unresolved (behind.sublist (List.drop_sublist (Node.leadingCurly rest).length rest))
    refine ⟨name, optional, ?_, ?_, ?_⟩
    · exact blocksUnresolved_iff.mpr
        (List.forall_mem_append.mpr ⟨blocksUnresolved_iff.mp blocks, leadingCurly_unresolved behind⟩)
    · rcases ruled with none | own
      · rcases more with nothing | own
        · exact .inl (by rw [none, nothing]; rfl)
        · exact .inr own
      · exact .inr own
    · exact rulesUnresolved_iff.mpr (List.forall_mem_append.mpr ⟨rulesUnresolved_iff.mp targets, others⟩)

theorem tagAt_unresolved {node : Node} {rest : List Node} {tag : Tag Node} {used : Nat}
    (own : node.Unresolved named) (behind : Unresolved named rest)
    (found : Normalize.tagAt node rest = some (tag, used)) : (Node.tag tag).Unresolved named := by
  unfold Normalize.tagAt at found
  split at found
  next ident =>
    split at found
    next options leads =>
      obtain ⟨⟨grown, count⟩, attached, same⟩ := Option.map_eq_some_iff.mp found
      cases same
      obtain ⟨others, rfl⟩ := Node.leadingBlock_eq leads
      refine attach_unresolved ?_ behind.2 attached
      exact ⟨own, behind.1, trivial, .inl rfl, trivial⟩
    next =>
      refine attach_unresolved ?_ behind found
      exact ⟨own, trivial, trivial, .inl rfl, trivial⟩
  next other => exact attach_unresolved own behind found
  next => cases found

theorem collapseFrom_unresolved (skip : Nat) {nodes : List Node} (unresolved : Unresolved named nodes) :
    Unresolved named (Normalize.collapseFrom skip nodes) := by
  fun_induction Normalize.collapseFrom skip nodes with
  | case1 => trivial
  | case2 skip node rest ih => exact ih unresolved.2
  | case3 node rest tag used found ih => exact ⟨tagAt_unresolved unresolved.1 unresolved.2 found, ih unresolved.2⟩
  | case4 node rest _ ih => exact ⟨unresolved.1, ih unresolved.2⟩

mutual

theorem Node.normalize_unresolved (node : Node) (unresolved : node.Unresolved named) :
    node.normalize.Unresolved named := by
  cases node with
  | bracket block => exact normalizeBlock_unresolved block unresolved
  | quotation opening closing children => exact collapseFrom_unresolved 0 (normalizeEach_unresolved children unresolved)
  | fragment children => exact collapseFrom_unresolved 0 (normalizeEach_unresolved children unresolved)
  | tag tag =>
    obtain ⟨ident, options, attributes, args, rules⟩ := tag
    obtain ⟨name, optional, blocks, ruled⟩ := unresolved
    exact ⟨name, optional, normalizeBlocks_unresolved args blocks, ruled⟩
  | command command => exact unresolved.elim
  | _ => exact unresolved
termination_by structural node

theorem normalizeEach_unresolved (nodes : List Node) (unresolved : Unresolved named nodes) :
    Unresolved named (normalizeEach nodes) := by
  cases nodes with
  | nil => trivial
  | cons node rest => exact ⟨Node.normalize_unresolved node unresolved.1, normalizeEach_unresolved rest unresolved.2⟩
termination_by structural nodes

theorem normalizeBlock_unresolved (block : Block Node) (unresolved : BlockUnresolved named block) :
    BlockUnresolved named (normalizeBlock block) := by
  obtain ⟨kind, opening, closing, children⟩ := block
  exact collapseFrom_unresolved 0 (normalizeEach_unresolved children unresolved)
termination_by structural block

theorem normalizeBlocks_unresolved (blocks : List (Block Node)) (unresolved : BlocksUnresolved named blocks) :
    BlocksUnresolved named (normalizeBlocks blocks) := by
  cases blocks with
  | nil => trivial
  | cons block rest =>
    exact ⟨normalizeBlock_unresolved block unresolved.1, normalizeBlocks_unresolved rest unresolved.2⟩
termination_by structural blocks

end

end Normalize

section Substitute

variable {rules : List (Rule Node)}

mutual

theorem Node.substitute_unresolved (targets : ∀ rule ∈ rules, Unresolved named rule.target) (node : Node)
    (unresolved : node.Unresolved named) : (node.substitute rules).Unresolved named := by
  cases node with
  | bracket block => exact substituteBlock_unresolved targets block unresolved
  | quotation opening closing children => exact substituteFrom_unresolved targets children 0 unresolved
  | fragment children => exact substituteFrom_unresolved targets children 0 unresolved
  | tag tag =>
    obtain ⟨ident, options, attributes, args, attached⟩ := tag
    obtain ⟨name, optional, blocks, ruled⟩ := unresolved
    exact ⟨name, optional, substituteBlocks_unresolved targets args blocks, ruled⟩
  | command command => exact unresolved.elim
  | _ => exact unresolved
termination_by structural node

theorem substituteFrom_unresolved (targets : ∀ rule ∈ rules, Unresolved named rule.target) (nodes : List Node)
    (skip : Nat) (unresolved : Unresolved named nodes) : Unresolved named (substituteFrom rules skip nodes) := by
  cases nodes with
  | nil => cases skip <;> trivial
  | cons node rest =>
    cases skip with
    | succ skip => exact substituteFrom_unresolved targets rest skip unresolved.2
    | zero =>
      rw [substituteFrom]
      split
      next rule found =>
        exact (targets rule (firstMatch_mem found)).append (substituteFrom_unresolved targets rest _ unresolved.2)
      next =>
        exact ⟨Node.substitute_unresolved targets node unresolved.1,
          substituteFrom_unresolved targets rest 0 unresolved.2⟩
termination_by structural nodes

theorem substituteBlock_unresolved (targets : ∀ rule ∈ rules, Unresolved named rule.target) (block : Block Node)
    (unresolved : BlockUnresolved named block) : BlockUnresolved named (substituteBlock rules block) := by
  obtain ⟨kind, opening, closing, children⟩ := block
  exact substituteFrom_unresolved targets children 0 unresolved
termination_by structural block

theorem substituteBlocks_unresolved (targets : ∀ rule ∈ rules, Unresolved named rule.target) (blocks : List (Block Node))
    (unresolved : BlocksUnresolved named blocks) : BlocksUnresolved named (substituteBlocks rules blocks) := by
  cases blocks with
  | nil => trivial
  | cons block rest =>
    exact ⟨substituteBlock_unresolved targets block unresolved.1, substituteBlocks_unresolved targets rest unresolved.2⟩
termination_by structural blocks

end

end Substitute

section Parse

open Parse

mutual

theorem Node.unresolved_of_lexical (node : Node) (lexical : ∀ lexeme ∈ node.lexemes, lexeme.isLexical = true)
    (names : ∀ token ∈ node.tokens, named token.text) : node.Unresolved named := by
  cases node with
  | ident ident => exact names _ (List.mem_singleton_self _)
  | bracket block => exact blockUnresolved_of_lexical block lexical names
  | quotation opening closing children =>
    simp only [Node.lexemes, Node.tokens, List.forall_mem_append] at lexical names
    exact unresolved_of_lexical children lexical.1.2 names.1.2
  | fragment children => exact absurd (lexical _ (List.mem_singleton_self _)) (by simp [Lexeme.isLexical])
  | tag tag => exact absurd (lexical _ (List.mem_singleton_self _)) (by simp [Lexeme.isLexical])
  | command command => exact absurd (lexical _ (List.mem_singleton_self _)) (by simp [Lexeme.isLexical])
  | _ => trivial
termination_by structural node

theorem unresolved_of_lexical (nodes : List Node) (lexical : ∀ lexeme ∈ lexemesOf nodes, lexeme.isLexical = true)
    (names : ∀ token ∈ tokensOf nodes, named token.text) : Unresolved named nodes := by
  cases nodes with
  | nil => trivial
  | cons node rest =>
    simp only [lexemesOf, tokensOf, List.forall_mem_append] at lexical names
    exact ⟨Node.unresolved_of_lexical node lexical.1 names.1, unresolved_of_lexical rest lexical.2 names.2⟩
termination_by structural nodes

theorem blockUnresolved_of_lexical (block : Block Node)
    (lexical : ∀ lexeme ∈ blockLexemes block, lexeme.isLexical = true)
    (names : ∀ token ∈ blockTokens block, named token.text) : BlockUnresolved named block := by
  obtain ⟨kind, opening, closing, children⟩ := block
  simp only [blockLexemes, blockTokens, List.forall_mem_append] at lexical names
  exact unresolved_of_lexical children lexical.1.2 names.1.2
termination_by structural block

end

/-- A source is parsed into a tree without commands, whose identifiers are words of the source. -/
theorem ofBytes_unresolved (bytes : Bytes) (names : ∀ token ∈ tokensOf (ofBytes bytes), named token.text) :
    Unresolved named (ofBytes bytes) := by
  have formed := (wellFormed_iff _ _ _ none announces_none (fun _ => rfl)).mp (ofBytes_wellFormed bytes)
  exact unresolved_of_lexical _ formed.lexical names

/-- Normalization keeps it that way. -/
theorem normalize_ofBytes_unresolved (bytes : Bytes) (names : ∀ token ∈ tokensOf (ofBytes bytes), named token.text) :
    Unresolved named (normalize (ofBytes bytes)) :=
  collapseFrom_unresolved 0 (normalizeEach_unresolved _ (ofBytes_unresolved bytes names))

end Parse

section Descent

theorem head_unresolved {node : Node} {head : Head} (heads : head? node = some head)
    (unresolved : node.Unresolved named) :
    (∀ block ∈ head.options.toList ++ head.attached, BlockUnresolved named block) ∧
      (head.rules = [] ∨ named Rule.whereIdent) ∧ ∀ rule ∈ head.rules, Unresolved named rule.target := by
  cases node with
  | ident ident =>
    cases heads
    simp
  | tag tag =>
    obtain ⟨ident, options, attributes, args, rules⟩ := tag
    cases heads
    obtain ⟨_, optional, blocks, ruled, targets⟩ := unresolved
    refine ⟨List.forall_mem_append.mpr ⟨?_, blocksUnresolved_iff.mp blocks⟩, ruled, rulesUnresolved_iff.mp targets⟩
    cases options with
    | none => simp
    | some block => exact List.forall_mem_singleton.mpr optional
  | _ => cases heads

theorem below_unresolved {scope : Scope} {node : Node} (unresolved : node.Unresolved named)
    {lower : Scope × List Node} (under : lower ∈ below scope node) : Unresolved named lower.2 := by
  cases node with
  | bracket block =>
    obtain rfl := List.mem_singleton.mp under
    exact blockUnresolved_iff.mp unresolved
  | quotation opening closing children | fragment children =>
    obtain rfl := List.mem_singleton.mp under
    exact unresolved
  | command command => exact unresolved.elim
  | tag tag =>
    obtain ⟨block, member, rfl⟩ := List.mem_map.mp under
    obtain ⟨ident, options, attributes, args, rules⟩ := tag
    exact blockUnresolved_iff.mp (blocksUnresolved_iff.mp unresolved.2.2.1 block member)
  | _ => cases under

namespace Resolve.Invocation

variable {scope : Scope} {invoker : Node} {head : Head} {rest nodes : List Node}
  (invocation : Invocation scope head rest nodes) (heads : head? invoker = some head)
  (unresolved : Unresolved named (invoker :: rest))

include heads unresolved

theorem attached_unresolved : ∀ block ∈ invocation.attached, BlockUnresolved named block := by
  obtain ⟨blocks, _⟩ := head_unresolved heads unresolved.1
  rcases invocation.offered with same | same
  · exact same ▸ blocks
  · exact same ▸ fun block member => blocks block (List.mem_append_right _ member)

theorem args_unresolved : Unresolved named (invocation.args.map .bracket) := by
  have stream : Unresolved named (invocation.attached.map .bracket ++ rest.drop invocation.skipped) :=
    (unresolved_brackets.mpr (invocation.attached_unresolved heads unresolved)).append
      (unresolved.2.sublist (List.drop_sublist ..))
  exact stream.sublist (invocation.captured.trans (List.take_sublist ..))

theorem rules_unresolved : (head.rules ++ invocation.more = [] ∨ named Rule.whereIdent) ∧
    ∀ rule ∈ head.rules ++ invocation.more, Unresolved named rule.target := by
  obtain ⟨_, ruled, targets⟩ := head_unresolved heads unresolved.1
  rcases invocation.followed with none | ⟨behind, found⟩
  · rw [none, List.append_nil]
    exact ⟨ruled, targets⟩
  · obtain ⟨own, others⟩ := leadingWhere_unresolved (unresolved.2.sublist (List.drop_sublist ..)) found
    exact ⟨.inr own, List.forall_mem_append.mpr ⟨targets, others⟩⟩

end Resolve.Invocation

/-- What resolution goes into is not resolved yet. -/
theorem descent_unresolved {registry : Registry} {lower upper : Scope × List Node}
    (unresolved : Unresolved named upper.2) (descent : Descent registry lower upper) : Unresolved named lower.2 := by
  obtain ⟨node, scanned, under⟩ := List.mem_flatMap.mp descent
  cases scan_left registry upper.1 0 upper.2 node scanned with
  | kept member => exact below_unresolved (unresolved_iff.mp unresolved node member) under
  | made suffix heads invocation member =>
    have here := unresolved.sublist suffix.sublist
    have args := invocation.args_unresolved heads here
    rcases invocation.below_cases member under with same | same | ⟨block, inside, same⟩
    · exact same ▸ args
    · exact same ▸ substituteFrom_unresolved (invocation.rules_unresolved heads here).2 _ 0 args
    · exact same ▸ blockUnresolved_iff.mp (invocation.attached_unresolved heads here block inside)

end Descent

end Manuscript
