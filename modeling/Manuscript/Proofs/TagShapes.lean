import Manuscript.Proofs.Idempotence

/-! The shape of normalized trees. In every list of siblings of a normalized source, at every depth, an identifier has
taken up the blocks right behind it and a tag the where blocks, and a tag is put together as its parts say. Option
lists, arguments and rules are lists of the source that were normalized before the tag was made, so what holds of
every list goes on to hold inside of tags. -/

namespace Manuscript

open Node (leadingBlock leadingCurly)
open Normalize

mutual

/-- A property holds of every list of siblings below a node: of what the node encloses, of its option list, its
arguments, and the patterns and targets of its rules. -/
def Node.Below (P : List Node → Prop) : Node → Prop
  | .bracket block => BlockBelow P block
  | .quotation _ _ children => P children ∧ AllBelow P children
  | .fragment children => P children ∧ AllBelow P children
  | .tag ⟨_, options, _, args, rules⟩ => OptionsBelow P options ∧ BlocksBelow P args ∧ RulesBelow P rules
  | .command ⟨_, _, args, _, rules⟩ => (P args ∧ AllBelow P args) ∧ RulesBelow P rules
  | _ => True
termination_by structural node => node

def AllBelow (P : List Node → Prop) : List Node → Prop
  | [] => True
  | node :: rest => node.Below P ∧ AllBelow P rest
termination_by structural nodes => nodes

def BlockBelow (P : List Node → Prop) : Block Node → Prop
  | ⟨_, _, _, children⟩ => P children ∧ AllBelow P children
termination_by structural block => block

def OptionsBelow (P : List Node → Prop) : Option (Block Node) → Prop
  | none => True
  | some block => BlockBelow P block
termination_by structural options => options

def BlocksBelow (P : List Node → Prop) : List (Block Node) → Prop
  | [] => True
  | block :: rest => BlockBelow P block ∧ BlocksBelow P rest
termination_by structural blocks => blocks

def RulesBelow (P : List Node → Prop) : List (Rule Node) → Prop
  | [] => True
  | rule :: rest => RuleBelow P rule ∧ RulesBelow P rest
termination_by structural rules => rules

def RuleBelow (P : List Node → Prop) : Rule Node → Prop
  | ⟨pattern, target⟩ => (P pattern ∧ AllBelow P pattern) ∧ P target ∧ AllBelow P target
termination_by structural rule => rule

end

/-- A property holds of a list and of every list of siblings below it. -/
def Throughout (P : List Node → Prop) (nodes : List Node) : Prop := P nodes ∧ AllBelow P nodes

/-- A tag with an option list or arguments, put together as normalization does. -/
structure Tag.Whole (tag : Tag Node) : Prop where
  filled : tag.options.isSome = true ∨ tag.args ≠ []
  options : ∀ block ∈ tag.options, block.kind = .square
  attributes : tag.attributes = tag.options.map fun block => Attributes.parse block.children
  args : ∀ block ∈ tag.args, block.kind = .curly

/-- The identifier of a where block with a curly block behind it, or a tag of that name without an option list. -/
def startsWhere : List Node → Bool
  | .ident ident :: .bracket block :: _ => ident.name == Rule.whereIdent && block.kind == .curly
  | .tag tag :: _ => tag.ident.name == Rule.whereIdent && tag.options.isNone
  | _ => false

/-- A list of siblings in which each identifier has taken up the blocks behind it, and each tag the where blocks. -/
structure Gathered (siblings : List Node) : Prop where
  bare : ∀ before ident block after, siblings = before ++ .ident ident :: .bracket block :: after →
    block.kind ≠ .curly ∧ block.kind ≠ .square
  whole : ∀ tag, .tag tag ∈ siblings → tag.Whole
  heard : ∀ before tag after, siblings = before ++ .tag tag :: after → startsWhere after = false

section Below

variable {P : List Node → Prop} {nodes : List Node}

theorem allBelow_iff : AllBelow P nodes ↔ ∀ node ∈ nodes, node.Below P := by
  induction nodes with
  | nil => simp [AllBelow]
  | cons node rest ih => rw [AllBelow, ih, List.forall_mem_cons]

theorem blockBelow_iff {block : Block Node} : BlockBelow P block ↔ Throughout P block.children := by
  obtain ⟨_, _, _, children⟩ := block
  rfl

theorem blocksBelow_iff {blocks : List (Block Node)} :
    BlocksBelow P blocks ↔ ∀ block ∈ blocks, Throughout P block.children := by
  induction blocks with
  | nil => simp [BlocksBelow]
  | cons block rest ih => rw [BlocksBelow, ih, List.forall_mem_cons, blockBelow_iff]

theorem rulesBelow_iff {rules : List (Rule Node)} :
    RulesBelow P rules ↔ ∀ rule ∈ rules, Throughout P rule.pattern ∧ Throughout P rule.target := by
  induction rules with
  | nil => simp [RulesBelow]
  | cons rule rest ih =>
    obtain ⟨pattern, target⟩ := rule
    rw [RulesBelow, ih, List.forall_mem_cons, RuleBelow]
    rfl

theorem AllBelow.block (all : AllBelow P nodes) {block : Block Node} (member : .bracket block ∈ nodes) :
    Throughout P block.children :=
  blockBelow_iff.mp (allBelow_iff.mp all _ member)

theorem AllBelow.drop (all : AllBelow P nodes) (count : Nat) : AllBelow P (nodes.drop count) :=
  allBelow_iff.mpr fun node member => allBelow_iff.mp all node (List.mem_of_mem_drop member)

theorem parse_below (throughout : Throughout P nodes) :
    ∀ rule ∈ Rule.parse nodes, Throughout P rule.pattern ∧ Throughout P rule.target :=
  Rule.parse_forall (P := Throughout P) fun _ => throughout.2.block

theorem leadingWhere_below (all : AllBelow P nodes) {rules : List (Rule Node)} {used : Nat}
    (found : Rule.leadingWhere nodes = some (rules, used)) : RulesBelow P rules := by
  unfold Rule.leadingWhere at found
  split at found
  next ident block rest =>
    split at found
    next =>
      cases found
      exact rulesBelow_iff.mpr (parse_below (blockBelow_iff.mp all.2.1))
    next => cases found
  next tag rest =>
    split at found
    next =>
      cases found
      obtain ⟨ident, options, attributes, args, attached⟩ := tag
      refine rulesBelow_iff.mpr fun rule member => ?_
      obtain ⟨block, inside, listed⟩ := List.mem_flatMap.mp member
      exact parse_below (blocksBelow_iff.mp all.1.2.1 block inside) rule listed
    next => cases found
  next => cases found

theorem RulesBelow.append {rules more : List (Rule Node)} (first : RulesBelow P rules) (second : RulesBelow P more) :
    RulesBelow P (rules ++ more) :=
  rulesBelow_iff.mpr (List.forall_mem_append.mpr ⟨rulesBelow_iff.mp first, rulesBelow_iff.mp second⟩)

theorem leadingWheres_below (all : AllBelow P nodes) : RulesBelow P (Normalize.leadingWheres nodes).1 := by
  fun_induction Normalize.leadingWheres nodes with
  | case1 => trivial
  | case2 node =>
    cases found : Rule.leadingWhere [node] with
    | none => trivial
    | some result => exact leadingWhere_below all found
  | case3 => trivial
  | case4 node next rest rules used found more count behind first second =>
    refine (leadingWhere_below all found).append ?_
    split at behind
    · rw [behind] at first
      exact first all.2
    · rw [behind] at second
      exact second all.2.2

theorem attach_below {tag grown : Tag Node} {rest : List Node} {used : Nat} (own : (Node.tag tag).Below P)
    (behind : AllBelow P rest) (found : attach tag rest = some (grown, used)) : (Node.tag grown).Below P := by
  obtain ⟨ident, options, attributes, args, rules⟩ := tag
  obtain ⟨optional, blocks, targets⟩ := own
  rw [attach_eq] at found
  split at found
  · cases found
  · cases found
    have more : BlocksBelow P (leadingCurly rest) :=
      blocksBelow_iff.mpr fun block member => behind.block (mem_leadingCurly member)
    have both := List.forall_mem_append.mpr ⟨blocksBelow_iff.mp blocks, blocksBelow_iff.mp more⟩
    exact ⟨optional, blocksBelow_iff.mpr both, targets.append (leadingWheres_below (behind.drop _))⟩

theorem tagAt_below {node : Node} {rest : List Node} {tag : Tag Node} {used : Nat} (own : node.Below P)
    (behind : AllBelow P rest) (found : tagAt node rest = some (tag, used)) : (Node.tag tag).Below P := by
  unfold tagAt at found
  split at found
  next ident =>
    split at found
    next options leads =>
      obtain ⟨⟨grown, count⟩, attached, same⟩ := Option.map_eq_some_iff.mp found
      cases same
      obtain ⟨others, rfl⟩ := Node.leadingBlock_eq leads
      refine attach_below ?_ behind.2 attached
      exact ⟨behind.1, trivial, trivial⟩
    next =>
      refine attach_below ?_ behind found
      exact ⟨trivial, trivial, trivial⟩
  next other => exact attach_below own behind found
  next => cases found

/-- Whatever holds below the nodes of a list holds below the tags made of them. -/
theorem collapse_below (skip : Nat) (all : AllBelow P nodes) : AllBelow P (collapseFrom skip nodes) := by
  fun_induction collapseFrom skip nodes with
  | case1 => trivial
  | case2 skip node rest ih => exact ih all.2
  | case3 node rest tag used found ih => exact ⟨tagAt_below all.1 all.2 found, ih all.2⟩
  | case4 node rest _ ih => exact ⟨all.1, ih all.2⟩

end Below

section Gathered

variable {nodes : List Node}

theorem attach_whole {tag grown : Tag Node} {rest : List Node} {used : Nat}
    (square : ∀ block ∈ tag.options, block.kind = .square) (args : ∀ block ∈ tag.args, block.kind = .curly)
    (parsed : tag.attributes = tag.options.map fun block => Attributes.parse block.children)
    (found : attach tag rest = some (grown, used)) : grown.Whole := by
  rw [attach_eq] at found
  split at found
  next => cases found
  next filled =>
    cases found
    refine ⟨?_, square, parsed, List.forall_mem_append.mpr ⟨args, ArgumentList.leadingCurly_kind rest⟩⟩
    simpa [Option.isSome_iff_ne_none, or_iff_not_imp_left] using filled

theorem tagAt_whole {node : Node} {rest : List Node} {tag : Tag Node} {used : Nat} (plain : node.isTag = false)
    (found : tagAt node rest = some (tag, used)) : tag.Whole := by
  cases node with
  | ident ident =>
    simp only [tagAt] at found
    split at found
    next options leads =>
      obtain ⟨⟨grown, count⟩, attached, same⟩ := Option.map_eq_some_iff.mp found
      cases same
      have square : options.kind = .square := ArgumentList.leadingBlock_kind leads
      exact attach_whole (by simpa using square) (by simp) rfl attached
    next => exact attach_whole (by simp) (by simp) rfl found
  | tag other => cases plain
  | _ => cases found

theorem collapse_whole (skip : Nat) (plain : untagged nodes = true) :
    ∀ tag, .tag tag ∈ collapseFrom skip nodes → tag.Whole := by
  fun_induction collapseFrom skip nodes with
  | case1 => simp
  | case2 skip node rest ih => exact ih (untagged_cons.mp plain).2
  | case3 node rest tag used found ih =>
    obtain ⟨own, others⟩ := untagged_cons.mp plain
    intro other member
    rcases List.mem_cons.mp member with same | later
    · cases same
      exact tagAt_whole own found
    · exact ih others other later
  | case4 node rest _ ih =>
    obtain ⟨own, others⟩ := untagged_cons.mp plain
    intro other member
    rcases List.mem_cons.mp member with same | later
    · cases same
      cases own
    · exact ih others other later

/-- Among whole tags no where block starts a list that no rules are read off. -/
theorem startsWhere_eq_false (whole : ∀ tag, .tag tag ∈ nodes → tag.Whole) (none : Rule.leadingWhere nodes = none) :
    startsWhere nodes = false := by
  unfold startsWhere
  split
  next ident block rest => simpa [Rule.leadingWhere] using none
  next tag rest =>
    have filled := (whole tag (List.mem_cons_self ..)).filled
    cases plain : tag.options with
    | some options => simp
    | none =>
      rw [plain] at filled
      simpa [Rule.leadingWhere, plain, filled.resolve_left Bool.false_ne_true] using none
  next => rfl

theorem level_true (nodes : List Node) : level (fun _ _ => true) nodes = true := by
  induction nodes with
  | nil => rfl
  | cons node rest ih => exact ih

theorem level_split {test : Node → List Node → Bool} {before : List Node} {node : Node} {after : List Node}
    (holds : level test (before ++ node :: after) = true) : test node after = true := by
  have behind := level_drop before.length holds
  rw [List.drop_left, level, Bool.and_eq_true] at behind
  exact behind.1

/-- What normalization makes of a list that holds no tags yet. -/
theorem gathered_collapse (plain : untagged nodes = true) : Gathered (collapseFrom 0 nodes) where
  bare := by
    intro before ident block after split
    have joined := turns_joined nodes plain (level_true nodes)
    rw [split] at joined
    have apart := level_split joined
    simpa [Normalize.joined, Node.startsWith, leadingBlock, and_comm] using apart
  whole := collapse_whole 0 plain
  heard := by
    intro before tag after split
    have joined := turns_joined nodes plain (level_true nodes)
    rw [split] at joined
    have none := Option.isNone_iff_eq_none.mp (level_split joined)
    refine startsWhere_eq_false (fun other member => collapse_whole 0 plain other ?_) none
    exact split ▸ List.mem_append_right _ (List.mem_cons_of_mem _ member)

theorem throughout_of_each {nodes : List Node} (lexical : ∀ lexeme ∈ lexemesOf nodes, lexeme.isLexical = true)
    (each : AllBelow Gathered (normalizeEach nodes)) : Throughout Gathered (normalize nodes) :=
  ⟨gathered_collapse (untagged_normalizeEach nodes lexical), collapse_below 0 each⟩

-- What a node encloses is normalized before its siblings are collapsed, so by the time a tag takes up a block the
-- shape holds of what is in there, and collapsing carries it along.
mutual

theorem normalize_below (node : Node) (lexical : ∀ lexeme ∈ node.lexemes, lexeme.isLexical = true) :
    node.normalize.Below Gathered := by
  match node with
  | .bracket ⟨kind, opening, closing, children⟩ =>
    simp only [Node.lexemes, blockLexemes, List.forall_mem_append] at lexical
    exact throughout_of_each lexical.1.2 (normalizeEach_below children lexical.1.2)
  | .quotation opening closing children =>
    simp only [Node.lexemes, List.forall_mem_append] at lexical
    exact throughout_of_each lexical.1.2 (normalizeEach_below children lexical.1.2)
  | .fragment _ | .tag _ | .command _ =>
    exact absurd (lexical _ (List.mem_singleton_self _)) (by simp [Parse.Lexeme.isLexical])
  | .hole | .text _ _ | .symbol _ _ | .ident _ | .stray _ | .drawing _ => trivial
termination_by structural node

theorem normalizeEach_below (nodes : List Node) (lexical : ∀ lexeme ∈ lexemesOf nodes, lexeme.isLexical = true) :
    AllBelow Gathered (normalizeEach nodes) := by
  match nodes with
  | [] => trivial
  | node :: rest =>
    simp only [lexemesOf, List.forall_mem_append] at lexical
    exact ⟨normalize_below node lexical.1, normalizeEach_below rest lexical.2⟩
termination_by structural nodes

end

end Gathered

/-- In a normalized source, at every depth, no block stands behind an identifier that would take it up and no where
block behind a tag, and every tag is put together as its parts say. -/
theorem normalized_shape (source : Bytes) : Throughout Gathered (normalize (Parse.ofBytes source)) :=
  have formed := (wellFormed_iff _ _ _ none announces_none (fun _ => rfl)).mp (Parse.ofBytes_wellFormed source)
  throughout_of_each formed.lexical (normalizeEach_below _ formed.lexical)

end Manuscript
