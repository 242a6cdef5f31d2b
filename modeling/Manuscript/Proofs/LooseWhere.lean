import Manuscript.Proofs.RuleBurden

/-! Where blocks that are not nested. A loose where block is one that rules of another can reach into, since it is not
attached to a tag. When no such block holds another one, and no attached rule could insert one, the same is true
of everything that rules of these blocks and tags make of the tree. -/

namespace Manuscript

/-- No where block in a list is loose, nor would one become so if the rules attached to its tags were applied. -/
def calm (nodes : List Node) : Bool := ⊤ ∉ burden nodes

theorem calm_iff {nodes : List Node} : calm nodes = true ↔ ⊤ ∉ burden nodes := decide_eq_true_iff

theorem calm_of_le {nodes : List Node} {marks : Multiset (WithTop Nat)} (fewer : burden nodes ≤ marks)
    (none : ⊤ ∉ marks) : calm nodes = true :=
  calm_iff.mpr fun top => none (Multiset.mem_of_le fewer top)

/-- The identifier of a where block without a block. -/
def Node.isBareWhere : Node → Bool
  | .ident ⟨name, _⟩ => name == Rule.whereIdent
  | _ => false

mutual

/-- Loose where blocks hold no loose where blocks, and neither do the targets of attached rules. -/
def Node.unnested : Node → Bool
  | .bracket block => blockUnnested block
  | .quotation _ _ children => unnested children
  | .fragment children => unnested children
  | .tag ⟨ident, options, _, args, rules⟩ =>
    (ident.name != Rule.whereIdent || decide (⊤ ∉ blocksBurden args)) && decide (⊤ ∉ rulesBurden rules) &&
      optionsUnnested options && blocksUnnested args
  | .command ⟨_, _, args, _, _⟩ => unnested args
  | _ => true
termination_by structural node => node

/-- A bare identifier makes a where block of whatever comes to stand behind it. -/
def unnested : List Node → Bool
  | [] => true
  | node :: rest => node.unnested && (!node.isBareWhere || calm rest) && unnested rest
termination_by structural nodes => nodes

def blockUnnested : Block Node → Bool
  | ⟨_, _, _, children⟩ => unnested children
termination_by structural block => block

def optionsUnnested : Option (Block Node) → Bool
  | none => true
  | some block => blockUnnested block
termination_by structural options => options

def blocksUnnested : List (Block Node) → Bool
  | [] => true
  | block :: rest => blockUnnested block && blocksUnnested rest
termination_by structural blocks => blocks

end

theorem Node.not_bareWhere {node : Node} (none : ⊤ ∉ node.burden) : node.isBareWhere = false := by
  cases node with
  | ident ident =>
    obtain ⟨name, span⟩ := ident
    by_cases named : name = Rule.whereIdent
    · simp [Node.burden, Ident.mark, named] at none
    · simp [Node.isBareWhere, named]
  | _ => rfl

mutual

theorem Node.unnested_of_calm (node : Node) (none : ⊤ ∉ node.burden) : node.unnested = true := by
  cases node with
  | bracket block => exact blockUnnested_of_calm block none
  | quotation opening closing children =>
    simp only [Node.burden, Multiset.mem_add, not_or] at none
    exact unnested_of_calm children none.2
  | fragment children =>
    simp only [Node.burden, Multiset.mem_add, not_or] at none
    exact unnested_of_calm children none.2
  | tag tag =>
    obtain ⟨ident, options, attributes, args, rules⟩ := tag
    simp only [Node.burden, Multiset.mem_add, not_or] at none
    obtain ⟨⟨⟨_, free⟩, args_free⟩, rules_free⟩ := none
    simp [Node.unnested, args_free, rules_free, optionsUnnested_of_calm options free,
      blocksUnnested_of_calm args args_free]
  | command command =>
    obtain ⟨ident, attributes, args, declaration, rules⟩ := command
    simp only [Node.burden, Multiset.mem_add, not_or] at none
    exact unnested_of_calm args none.2
  | _ => rfl
termination_by structural node

theorem unnested_of_calm (nodes : List Node) (none : ⊤ ∉ burden nodes) : unnested nodes = true := by
  cases nodes with
  | nil => rfl
  | cons node rest =>
    simp only [burden, Multiset.mem_add, not_or] at none
    simp [unnested, Node.unnested_of_calm node none.1, Node.not_bareWhere none.1, unnested_of_calm rest none.2]
termination_by structural nodes

theorem blockUnnested_of_calm (block : Block Node) (none : ⊤ ∉ blockBurden block) : blockUnnested block = true := by
  obtain ⟨kind, opening, closing, children⟩ := block
  simp only [blockBurden, Multiset.mem_add, not_or] at none
  exact unnested_of_calm children none.2
termination_by structural block

theorem optionsUnnested_of_calm (options : Option (Block Node)) (none : ⊤ ∉ optionsBurden options) :
    optionsUnnested options = true := by
  cases options with
  | none => rfl
  | some block => exact blockUnnested_of_calm block none
termination_by structural options

theorem blocksUnnested_of_calm (blocks : List (Block Node)) (none : ⊤ ∉ blocksBurden blocks) :
    blocksUnnested blocks = true := by
  cases blocks with
  | nil => rfl
  | cons block rest =>
    simp only [blocksBurden, Multiset.mem_add, not_or] at none
    simp [blocksUnnested, blockUnnested_of_calm block none.1, blocksUnnested_of_calm rest none.2]
termination_by structural blocks

end

theorem unnested_append (front back : List Node) (none : calm front = true) (later : unnested back = true) :
    unnested (front ++ back) = true := by
  induction front with
  | nil => exact later
  | cons node front ih =>
    simp only [calm_iff, burden, Multiset.mem_add, not_or] at none ih
    simp [unnested, node.unnested_of_calm none.1, Node.not_bareWhere none.1, ih none.2]

/-- Substitution with calm targets leaves no mark behind that was not there. -/
theorem Adds.calm {rules : List (Rule Node)} {more less : Multiset (WithTop Nat)} (grown : Adds rules more less)
    (targets : ∀ rule ∈ rules, Manuscript.calm rule.target = true) (none : ⊤ ∉ less) : ⊤ ∉ more := by
  obtain ⟨added, fewer, known⟩ := grown
  intro top
  rcases Multiset.mem_add.mp (Multiset.mem_of_le fewer top) with old | new
  · exact none old
  · obtain ⟨rule, member, mark⟩ := known ⊤ new
    exact calm_iff.mp (targets rule member) mark

mutual

theorem Node.substitute_unnested (rules : List (Rule Node)) (targets : ∀ rule ∈ rules, calm rule.target = true)
    (node : Node) (fits : node.unnested = true) : (node.substitute rules).unnested = true := by
  cases node with
  | bracket block => exact substituteBlock_unnested rules targets block fits
  | quotation opening closing children => exact substituteFrom_unnested rules targets children 0 fits
  | fragment children => exact substituteFrom_unnested rules targets children 0 fits
  | tag tag =>
    obtain ⟨ident, options, attributes, args, attached⟩ := tag
    simp only [Node.unnested, Bool.and_eq_true, Bool.or_eq_true, decide_eq_true_eq] at fits
    obtain ⟨⟨⟨held, ranked⟩, opened⟩, inside⟩ := fits
    simp only [Node.substitute, Node.unnested, Bool.and_eq_true, Bool.or_eq_true, decide_eq_true_eq]
    refine ⟨⟨⟨held.imp_right ?_, ranked⟩, opened⟩, substituteBlocks_unnested rules targets args inside⟩
    exact (substituteBlocks_adds rules args).calm targets
  | command command =>
    obtain ⟨ident, attributes, args, declaration, attached⟩ := command
    exact substituteFrom_unnested rules targets args 0 fits
  | _ => rfl
termination_by structural node

/-- Substitution with calm targets nests nothing. -/
theorem substituteFrom_unnested (rules : List (Rule Node)) (targets : ∀ rule ∈ rules, calm rule.target = true)
    (nodes : List Node) (skip : Nat) (fits : unnested nodes = true) :
    unnested (substituteFrom rules skip nodes) = true := by
  cases nodes with
  | nil => cases skip <;> rfl
  | cons node rest =>
    simp only [unnested, Bool.and_eq_true] at fits
    obtain ⟨⟨first, bare⟩, others⟩ := fits
    cases skip with
    | succ skip => exact substituteFrom_unnested rules targets rest skip others
    | zero =>
      rw [substituteFrom]
      split
      next rule found =>
        exact unnested_append _ _ (targets rule (firstMatch_mem found))
          (substituteFrom_unnested rules targets rest _ others)
      next =>
        have same : (node.substitute rules).isBareWhere = node.isBareWhere := by
          cases node <;> simp [Node.substitute, Node.isBareWhere]
        rw [unnested, same, Node.substitute_unnested rules targets node first,
          substituteFrom_unnested rules targets rest 0 others]
        simp only [Bool.or_eq_true, calm_iff] at bare
        simp only [Bool.true_and, Bool.and_true, Bool.or_eq_true, calm_iff]
        exact bare.imp_right ((substituteFrom_adds rules rest 0).calm targets)
termination_by structural nodes

theorem substituteBlock_unnested (rules : List (Rule Node)) (targets : ∀ rule ∈ rules, calm rule.target = true)
    (block : Block Node) (fits : blockUnnested block = true) :
    blockUnnested (substituteBlock rules block) = true := by
  obtain ⟨kind, opening, closing, children⟩ := block
  exact substituteFrom_unnested rules targets children 0 fits
termination_by structural block

theorem substituteBlocks_unnested (rules : List (Rule Node)) (targets : ∀ rule ∈ rules, calm rule.target = true)
    (blocks : List (Block Node)) (fits : blocksUnnested blocks = true) :
    blocksUnnested (substituteBlocks rules blocks) = true := by
  cases blocks with
  | nil => rfl
  | cons block rest =>
    simp only [blocksUnnested, Bool.and_eq_true] at fits
    simp [substituteBlocks, blocksUnnested, substituteBlock_unnested rules targets block fits.1,
      substituteBlocks_unnested rules targets rest fits.2]
termination_by structural blocks

end

end Manuscript
