import Manuscript.Proofs.CrossLinks
import Manuscript.Proofs.ResolutionSound

/-! Places where no heading stands. A heading asks for a block of text around it; inside of an image or a formula there
is none, and no command that may stand there brings one back. -/

namespace Manuscript

open Resolve

/-- Text on a line, or the content of a formula. -/
def Scope.isInline (scope : Scope) : Bool := scope.layout == .inline || scope.content == .math

namespace Builtin

/-- What a command makes of an inline place is inline again, and it is no heading. -/
theorem inline_kept {declaration : Declaration} (listed : declaration ∈ registry.declarations) {scope : Scope}
    (inline : scope.isInline = true) (allowed : declaration.allows scope = true) :
    declaration.heading = 0 ∧ ∀ name, (scope.descend name declaration.child).isInline = true := by
  have facts (content : Content) (layout : Layout) : ∀ declaration ∈ registry.declarations,
      (layout == .inline || content == .math) = true →
      (declaration.parent.all fun limit => limit.content.accepts content && limit.layout.accepts layout) = true →
      declaration.heading = 0 ∧ ((declaration.child.map ScopeOverride.layout).getD layout == .inline ||
        (declaration.child.map ScopeOverride.content).getD content == .math) = true := by
    cases content <;> cases layout <;> decide +kernel
  have fits : (declaration.parent.all fun limit =>
      limit.content.accepts scope.content && limit.layout.accepts scope.layout) = true := by
    unfold Declaration.allows at allowed
    cases parent : declaration.parent with
    | none => rfl
    | some limit =>
      rw [parent, Option.all_some, ScopeConstraint.allows, Bool.and_eq_true] at allowed
      exact allowed.1
  obtain ⟨plain, below⟩ := facts scope.content scope.layout declaration listed inline fits
  exact ⟨plain, fun _ => below⟩

/-- A command whose headings are not met is an inclusion, or what is inside of it is inline. -/
theorem closed_inline {declaration : Declaration} (listed : declaration ∈ registry.declarations)
    (closed : Declaration.opens (some declaration) = false) (scope : Scope) (name : String) :
    Declaration.isInclusion (some declaration) = true ∨ (scope.descend name declaration.child).isInline = true := by
  have facts : ∀ declaration ∈ registry.declarations, Declaration.opens (some declaration) = false →
      Declaration.isInclusion (some declaration) = true ∨
        (declaration.child.any fun child => child.layout == .inline || child.content == .math) = true := by
    decide +kernel
  refine (facts declaration listed closed).imp_right fun inline => ?_
  obtain ⟨child, given, quiet⟩ := (Option.any_eq_true _ _).mp inline
  rw [Scope.isInline, Scope.descend, given]
  exact quiet

end Builtin

/-- Each command of a tree is one that is allowed where it stands. -/
def Placed (tree : Scope × List Node) : Prop :=
  ∀ place command, Occurs tree place (.command command) →
    ∃ declaration ∈ Builtin.registry.declarations, command.declaration = some declaration ∧
      declaration.allows place = true

namespace Placed

variable {scope : Scope}

theorem inside {tree lower : Scope × List Node} (placed : Placed tree) (nests : Nests tree lower) : Placed lower := by
  intro place command ⟨nodes, within, member⟩
  exact placed place command ⟨nodes, .head nests within, member⟩

theorem mono {nodes others : List Node} (placed : Placed (scope, nodes)) (fewer : others ⊆ nodes) :
    Placed (scope, others) := by
  intro place command ⟨list, within, member⟩
  rcases within.cases_head with same | ⟨lower, ⟨node, listed, below⟩, further⟩
  · cases same
    exact placed scope command ⟨nodes, .refl, fewer member⟩
  · exact placed place command ⟨list, .head ⟨node, fewer listed, below⟩ further, member⟩

theorem head {node : Node} {rest : List Node} (placed : Placed (scope, node :: rest)) : Placed (scope, [node]) :=
  placed.mono (List.cons_subset_cons _ (List.nil_subset _))

theorem tail {node : Node} {rest : List Node} (placed : Placed (scope, node :: rest)) : Placed (scope, rest) :=
  placed.mono (List.subset_cons_self _ _)

theorem below {node : Node} (placed : Placed (scope, [node])) {lower : Scope × List Node}
    (listed : lower ∈ Resolve.below scope node) : Placed lower :=
  placed.inside ⟨node, List.mem_singleton_self _, listed⟩

theorem command {command : Command Node} (placed : Placed (scope, [.command command])) :
    (∃ declaration ∈ Builtin.registry.declarations, command.declaration = some declaration ∧
      declaration.allows scope = true) ∧
    Placed (scope.descend command.ident.name (command.declaration.bind Declaration.child), command.args) :=
  ⟨placed scope command ⟨_, .refl, List.mem_singleton_self _⟩, placed.below (List.mem_singleton_self _)⟩

end Placed

namespace Outline

mutual

theorem collectNode_inline {scope : Scope} (inline : scope.isInline = true) (node : Node)
    (placed : Placed (scope, [node])) : collectNode node = [] := by
  match node with
  | .command ⟨ident, attributes, args, declaration, rules⟩ =>
    obtain ⟨⟨known, listed, declared, allowed⟩, within⟩ := placed.command
    obtain rfl : declaration = some known := declared
    obtain ⟨plain, below⟩ := Builtin.inline_kept listed inline allowed
    have other : ¬Formula.isHeading (some known) = true := by simp [Formula.isHeading, plain]
    rw [collectNode, if_neg other]
    exact collect_inline (below ident.name) args within
  | .bracket ⟨_, _, _, children⟩ | .quotation _ _ children | .fragment children =>
    exact collect_inline inline children (placed.below (List.mem_singleton_self _))
  | .hole | .text _ _ | .symbol _ _ | .ident _ | .stray _ | .drawing _ | .tag _ => rfl
termination_by structural node

/-- There are no headings where everything is inline. -/
theorem collect_inline {scope : Scope} (inline : scope.isInline = true) (nodes : List Node)
    (placed : Placed (scope, nodes)) : collect nodes = [] := by
  match nodes with
  | [] => rfl
  | node :: rest =>
    rw [collect, collectNode_inline inline node placed.head, collect_inline inline rest placed.tail, List.append_nil]
termination_by structural nodes

end

end Outline

/-- Inside of a command whose headings are not met there are none, unless it is an inclusion. -/
theorem Placed.collect_closed {scope : Scope} {command : Command Node} (placed : Placed (scope, [.command command]))
    (closed : Declaration.opens command.declaration = false)
    (other : Declaration.isInclusion command.declaration = false) : Outline.collect command.args = [] := by
  obtain ⟨⟨declaration, listed, declared, _⟩, within⟩ := placed.command
  rw [declared] at closed other within
  rcases Builtin.closed_inline listed closed scope command.ident.name with included | inline
  · exact absurd included (Bool.eq_false_iff.mp other)
  · exact Outline.collect_inline inline command.args within

namespace Compiler

/-- Resolution leaves commands where they are allowed. -/
theorem Loads.placed {compiler : Compiler} (standard : compiler.registry = Builtin.registry) {path : String}
    {nodes : List Node} (loads : compiler.Loads path nodes) : Placed (.top path, nodes) := by
  have plain : Builtin.registry.Plain := by
    unfold Registry.Plain
    decide +kernel
  intro place command occurs
  cases loads with
  | @source data depth _ events _ _ resolved =>
    rw [standard] at resolved
    have unresolved : Unresolved (fun _ => True) (normalize (Parse.ofBytes data)) :=
      normalize_ofBytes_unresolved data fun _ _ => trivial
    obtain ⟨_, _, _, choice, _, _, chosen, _⟩ := command_chosen resolved plain unresolved occurs
    obtain ⟨listed, _⟩ := Registry.mem_choices chosen.first.member
    exact ⟨choice.1, List.mem_of_mem_filter listed, chosen.declaration, chosen.first.fits.allowed⟩
  | @drawing _ _ drawings =>
    obtain ⟨list, within, member⟩ := occurs
    rcases within.cases_head with same | ⟨lower, ⟨node, listed, below⟩, _⟩
    · cases same
      obtain ⟨_, _, impossible⟩ := List.mem_map.mp member
      cases impossible
    · obtain ⟨_, _, rfl⟩ := List.mem_map.mp listed
      cases below

end Compiler
end Manuscript
