import Manuscript.Document.Rule
import Mathlib.Data.ENat.Basic
import Mathlib.Data.Multiset.DershowitzManna
import Mathlib.Data.Multiset.Lattice
import Mathlib.Order.Lattice.Nat

/-! A measure of what substitution can still do to a tree. Every node counts, and so do the rules it carries: rules that
are attached to a tag count for more than anything in their targets, and a where block that is still loose, so that
other rules can reach into it, for more than all attached rules. Substituting adds only what targets hold. -/

namespace Manuscript

/-- What a node counts for by itself. -/
def Ident.mark (ident : Ident) : WithTop Nat := if ident.name = Rule.whereIdent then ⊤ else 0

mutual

def Node.burden : Node → Multiset (WithTop Nat)
  | .ident ident => {ident.mark}
  | .bracket block => blockBurden block
  | .quotation _ _ children => {0} + burden children
  | .fragment children => {0} + burden children
  | .tag ⟨ident, options, _, args, rules⟩ =>
    {ident.mark} + optionsBurden options + blocksBurden args + rulesBurden rules
  | .command ⟨_, _, args, _, _⟩ => {0} + burden args
  | _ => {0}
termination_by structural node => node

/-- What each node and each set of rules in a list counts for. -/
def burden : List Node → Multiset (WithTop Nat)
  | [] => 0
  | node :: rest => node.burden + burden rest
termination_by structural nodes => nodes

def blockBurden : Block Node → Multiset (WithTop Nat)
  | ⟨_, _, _, children⟩ => {0} + burden children
termination_by structural block => block

def optionsBurden : Option (Block Node) → Multiset (WithTop Nat)
  | none => 0
  | some block => blockBurden block
termination_by structural options => options

def blocksBurden : List (Block Node) → Multiset (WithTop Nat)
  | [] => 0
  | block :: rest => blockBurden block + blocksBurden rest
termination_by structural blocks => blocks

/-- Attached rules count once, all together. -/
def rulesBurden : List (Rule Node) → Multiset (WithTop Nat)
  | [] => 0
  | rule :: rest => {max (targetRank rule) (rulesBurden rest).sup}
termination_by structural rules => rules

def targetRank : Rule Node → WithTop Nat
  | ⟨_, target⟩ => (burden target).sup + 1
termination_by structural rule => rule

end

theorem burden_append (nodes others : List Node) : burden (nodes ++ others) = burden nodes + burden others := by
  induction nodes with
  | nil => simp [burden]
  | cons node nodes ih => rw [List.cons_append, burden, burden, ih, add_assoc]

theorem burden_sublist {nodes others : List Node} (within : nodes.Sublist others) : burden nodes ≤ burden others := by
  induction within with
  | slnil => exact le_rfl
  | cons node _ ih => exact ih.trans (Multiset.le_add_left _ _)
  | cons_cons node _ ih => exact add_le_add le_rfl ih

theorem burden_map_bracket (blocks : List (Block Node)) : burden (blocks.map .bracket) = blocksBurden blocks := by
  induction blocks with
  | nil => rfl
  | cons block blocks ih => rw [List.map_cons, burden, blocksBurden, ih, Node.burden]

theorem burden_children (block : Block Node) : blockBurden block = {0} + burden block.children := by
  obtain ⟨kind, opening, closing, children⟩ := block
  rfl

theorem targetRank_eq (rule : Rule Node) : targetRank rule = (burden rule.target).sup + 1 := by
  obtain ⟨pattern, target⟩ := rule
  rfl

theorem rulesBurden_cons (rule : Rule Node) (rules : List (Rule Node)) :
    ∃ rank, rulesBurden (rule :: rules) = {rank} ∧
      ∀ other ∈ rule :: rules, targetRank other ≤ rank := by
  induction rules generalizing rule with
  | nil => exact ⟨_, rfl, by simp [rulesBurden]⟩
  | cons next rules ih =>
    obtain ⟨rank, single, bounded⟩ := ih next
    refine ⟨max (targetRank rule) rank, by rw [rulesBurden, single, Multiset.sup_singleton], ?_⟩
    intro other member
    rcases List.mem_cons.mp member with rfl | member
    · exact le_max_left ..
    · exact (bounded other member).trans (le_max_right ..)

/-- Marks that were counted already, or else stem from the targets of rules. -/
def Adds (rules : List (Rule Node)) (more less : Multiset (WithTop Nat)) : Prop :=
  ∃ added, more ≤ less + added ∧ ∀ mark ∈ added, ∃ rule ∈ rules, mark ∈ burden rule.target

namespace Adds

variable {rules : List (Rule Node)} {first second third fourth : Multiset (WithTop Nat)}

theorem refl (marks : Multiset (WithTop Nat)) : Adds rules marks marks := ⟨0, by simp, by simp⟩

theorem add (left : Adds rules first second) (right : Adds rules third fourth) :
    Adds rules (first + third) (second + fourth) := by
  obtain ⟨added, less, known⟩ := left
  obtain ⟨others, fewer, sure⟩ := right
  refine ⟨added + others, ?_, ?_⟩
  · calc first + third ≤ second + added + (fourth + others) := add_le_add less fewer
      _ = second + fourth + (added + others) := add_add_add_comm ..
  · intro mark member
    exact (Multiset.mem_add.mp member).elim (known mark) (sure mark)

theorem mono (grown : Adds rules first second) (larger : second ≤ third) : Adds rules first third := by
  obtain ⟨added, less, known⟩ := grown
  exact ⟨added, less.trans (add_le_add larger le_rfl), known⟩

theorem target {rule : Rule Node} (member : rule ∈ rules) : Adds rules (burden rule.target) 0 :=
  ⟨burden rule.target, by simp, fun _ mark => ⟨rule, member, mark⟩⟩

end Adds

theorem firstMatch_mem {rules : List (Rule Node)} {window : List Node} {rule : Rule Node}
    (found : Rule.firstMatch rules window = some rule) : rule ∈ rules :=
  List.mem_of_find?_eq_some found

mutual

theorem Node.substitute_adds (rules : List (Rule Node)) (node : Node) :
    Adds rules (node.substitute rules).burden node.burden := by
  cases node with
  | bracket block => exact substituteBlock_adds rules block
  | quotation opening closing children => exact (Adds.refl {0}).add (substituteFrom_adds rules children 0)
  | fragment children => exact (Adds.refl {0}).add (substituteFrom_adds rules children 0)
  | tag tag =>
    obtain ⟨ident, options, attributes, args, attached⟩ := tag
    exact ((Adds.refl _).add (substituteBlocks_adds rules args)).add (Adds.refl _)
  | command command =>
    obtain ⟨ident, attributes, args, declaration, attached⟩ := command
    exact (Adds.refl {0}).add (substituteFrom_adds rules args 0)
  | _ => exact Adds.refl _
termination_by structural node

/-- Substitution adds nothing but what the targets hold. -/
theorem substituteFrom_adds (rules : List (Rule Node)) (nodes : List Node) (skip : Nat) :
    Adds rules (burden (substituteFrom rules skip nodes)) (burden nodes) := by
  cases nodes with
  | nil => exact Adds.refl _
  | cons node rest =>
    cases skip with
    | succ skip =>
      rw [substituteFrom]
      exact (substituteFrom_adds rules rest skip).mono (Multiset.le_add_left _ _)
    | zero =>
      rw [substituteFrom]
      split
      next rule found =>
        rw [burden_append]
        have replaced := (Adds.target (firstMatch_mem found)).add
          (substituteFrom_adds rules rest (rule.pattern.length - 1))
        exact replaced.mono (by rw [zero_add]; exact Multiset.le_add_left _ _)
      next => exact (Node.substitute_adds rules node).add (substituteFrom_adds rules rest 0)
termination_by structural nodes

theorem substituteBlock_adds (rules : List (Rule Node)) (block : Block Node) :
    Adds rules (blockBurden (substituteBlock rules block)) (blockBurden block) := by
  obtain ⟨kind, opening, closing, children⟩ := block
  exact (Adds.refl {0}).add (substituteFrom_adds rules children 0)
termination_by structural block

theorem substituteBlocks_adds (rules : List (Rule Node)) (blocks : List (Block Node)) :
    Adds rules (blocksBurden (substituteBlocks rules blocks)) (blocksBurden blocks) := by
  cases blocks with
  | nil => exact Adds.refl _
  | cons block rest => exact (substituteBlock_adds rules block).add (substituteBlocks_adds rules rest)
termination_by structural blocks

end

/-- Rules of a where block hold nothing that the block does not. -/
theorem parse_targets (nodes : List Node) : ∀ rule ∈ Rule.parse nodes, burden rule.target ≤ burden nodes := by
  have blocks (block : Block Node) (inside : .bracket block ∈ nodes) : burden block.children ≤ burden nodes :=
    calc burden block.children ≤ {0} + burden block.children := Multiset.le_add_left _ _
      _ = burden [.bracket block] := by simp [burden, Node.burden, burden_children]
      _ ≤ burden nodes := burden_sublist (List.singleton_sublist.mpr inside)
  exact fun rule member => (Rule.parse_forall (P := (burden · ≤ burden nodes)) blocks rule member).2

end Manuscript
