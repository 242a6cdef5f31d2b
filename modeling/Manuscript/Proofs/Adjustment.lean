import Manuscript.Proofs.Builtins
import Manuscript.Proofs.OrderedAttributes

/-! What an inclusion does to a heading: it moves the level down by its shift and adds what the heading does not say
itself, a source and flags. Nothing else about the attributes of a heading changes. -/

namespace Manuscript

namespace Attributes

theorem find?_insert (items : Attributes) (name other : String) (value : Option Node) :
    find? (insert (nameKey name) value items) (nameKey other) =
      if name = other then some value else find? items (nameKey other) := by
  simp only [find?_insert_key, nameKey_alike, beq_iff_eq]

theorem value?_set (items : Attributes) (name value other : String) :
    value? (set items name value) other = if name = other then some value else value? items other := by
  unfold value? set
  rw [find?_insert]
  split <;> rfl

theorem has_set (items : Attributes) (name value other : String) :
    has (set items name value) other = (name == other || has items other) := by
  unfold has set
  rw [find?_insert]
  split
  next same => simp [same]
  next apart => simp [apart]

theorem has_flag (items : Attributes) (name other : String) :
    has (flag items name) other = (name == other || has items other) := by
  unfold has flag
  rw [find?_insert]
  split
  next same => simp [same]
  next apart => simp [apart]

theorem value?_flag (items : Attributes) {name other : String} (apart : name ≠ other) :
    value? (flag items name) other = value? items other := by
  unfold value? flag
  rw [find?_insert, if_neg apart]

theorem has_iff_value? (items : Attributes) (name : String) : has items name = (value? items name).isSome := by
  unfold has value?
  rw [Option.isSome_map]

end Attributes

namespace Outline

open Builtin

theorem ensureFlag_has (name : String) (wanted : Bool) (items : Attributes) (other : String) :
    Attributes.has (ensureFlag name wanted items) other = (Attributes.has items other || wanted && name == other) := by
  unfold ensureFlag
  split
  next missing =>
    rw [Bool.and_eq_true] at missing
    rw [Attributes.has_flag, missing.1, Bool.true_and, Bool.or_comm]
  next there =>
    by_cases same : name = other
    · subst same
      cases wanted <;> simp_all
    · simp [same]

theorem ensureFlag_value? (wanted : Bool) (items : Attributes) {name other : String} (apart : name ≠ other) :
    Attributes.value? (ensureFlag name wanted items) other = Attributes.value? items other := by
  unfold ensureFlag
  split
  · exact Attributes.value?_flag items apart
  · rfl

/-- A source is added where there is none. -/
theorem adjustAttributes_source (adjustment : Adjustment) (items : Attributes) :
    Attributes.value? (adjustAttributes adjustment items) "source" =
      (Attributes.value? items "source").or (some adjustment.source) := by
  unfold adjustAttributes
  dsimp only
  rw [ensureFlag_value? _ _ (by decide), ensureFlag_value? _ _ (by decide), Attributes.has_iff_value?]
  cases own : Attributes.value? items "source" with
  | none => simp [Attributes.value?_set]
  | some value => simp [own]

theorem adjustAttributes_has (adjustment : Adjustment) (items : Attributes) {name : String} (apart : name ≠ "source") :
    Attributes.has (adjustAttributes adjustment items) name = (Attributes.has items name ||
      (adjustment.tocOnly && "toc-only" == name || adjustment.noToc && "no-toc" == name)) := by
  unfold adjustAttributes
  dsimp only
  rw [ensureFlag_has, ensureFlag_has, Bool.or_assoc]
  congr 1
  split
  · rfl
  · rw [Attributes.has_set, beq_false_of_ne apart.symm, Bool.false_or]

theorem adjustHeading_attributes (adjustment : Adjustment) (command : Command Node) (declaration : Declaration) :
    (adjustHeading adjustment command declaration).attributes =
      some (adjustAttributes adjustment (command.attributes.getD [])) := by
  unfold adjustHeading
  dsimp only
  split <;> rfl

theorem adjustHeading_span (adjustment : Adjustment) (command : Command Node) (declaration : Declaration) :
    (adjustHeading adjustment command declaration).ident.span = command.ident.span := by
  unfold adjustHeading
  dsimp only
  split <;> rfl

/-- There is a heading for every level from the first to the sixth, so a shift always finds the one it asks for. -/
theorem adjustHeading_level {adjustment : Adjustment} (standard : adjustment.registry = registry)
    {command : Command Node} {heading : Declaration} (declared : command.declaration = some heading)
    (listed : heading ∈ registry.lookup command.ident.name) (positive : 0 < heading.heading) :
    ∃ moved ∈ registry.declarations, (adjustHeading adjustment command heading).declaration = some moved ∧
      (adjustHeading adjustment command heading).ident.name = moved.name ∧
      moved.heading = min (heading.heading + adjustment.shift) 6 := by
  obtain ⟨member, named⟩ := mem_lookup.mp listed
  obtain ⟨_, bound⟩ := heading_name heading member positive
  obtain ⟨target, same, level⟩ := first_heading (show 1 ≤ min (heading.heading + adjustment.shift) 6 by omega) (by omega)
  unfold adjustHeading
  dsimp only
  split
  next moved found =>
    obtain ⟨inside, first⟩ := shifted_known standard found
    cases first.symm.trans same
    exact ⟨target, (mem_lookup.mp inside).1, rfl, rfl, level⟩
  next missing =>
    have still : adjustment.shift = 0 := by
      by_contra shift
      rw [shifted, if_neg shift, standard, same] at missing
      cases missing
    exact ⟨heading, member, declared, named.symm, by omega⟩

/-- What an inclusion makes of a heading. -/
def adjusted (adjustment : Adjustment) (command : Command Node) : Command Node :=
  (command.declaration.map (adjustHeading adjustment command)).getD command

theorem visible_heading {slots : Bool} (taken : Bool) {command : Command Node}
    (known : (Node.command command).Declared (Known slots)) (heads : Formula.isHeading command.declaration = true) :
    visibleNode taken (.command command) = [command] := by
  have own := (command_declared.mp known).1.math heads
  obtain ⟨ident, attributes, args, declaration, rules⟩ := command
  rw [visibleNode, if_neg, if_pos heads]
  simp only [own, Option.isSome_none, Bool.and_false, Bool.false_eq_true, not_false_eq_true]

theorem visible_headings {slots : Bool} (taken : Bool) {commands : List (Command Node)}
    (each : ∀ command ∈ commands, Formula.isHeading command.declaration = true ∧
      (Node.command command).Declared (Known slots)) :
    visible taken (commands.map .command) = commands := by
  induction commands with
  | nil => rfl
  | cons command commands ih =>
    obtain ⟨⟨heads, known⟩, others⟩ := List.forall_mem_cons.mp each
    rw [List.map_cons, visible, visible_heading taken known heads, ih others, List.singleton_append]

theorem adjustNode_heading {slots : Bool} {adjustment : Adjustment} (standard : adjustment.registry = registry)
    {command : Command Node} (own : Known slots command.ident command.attributes command.declaration)
    (heads : Formula.isHeading command.declaration = true) :
    adjustNode adjustment (.command command) = .command (adjusted adjustment command) ∧
      Formula.isHeading (adjusted adjustment command).declaration = true := by
  obtain ⟨heading, listed, declared, positive⟩ := own.heading heads
  obtain ⟨moved, _, replaced, _, level⟩ := adjustHeading_level standard declared listed positive
  obtain ⟨ident, attributes, args, declaration, rules⟩ := command
  obtain rfl : declaration = some heading := declared
  constructor
  · rw [adjustNode]
    exact if_pos positive
  · show Formula.isHeading (adjustHeading adjustment _ heading).declaration = true
    rw [replaced, Formula.isHeading, Option.any_some, decide_eq_true_eq]
    omega

theorem adjusted_attributes {slots : Bool} (adjustment : Adjustment) {command : Command Node}
    (own : Known slots command.ident command.attributes command.declaration)
    (heads : Formula.isHeading command.declaration = true) :
    (adjusted adjustment command).attributes = some (adjustAttributes adjustment (command.attributes.getD [])) := by
  obtain ⟨heading, listed, declared, positive⟩ := own.heading heads
  rw [adjusted, declared, Option.map_some, Option.getD_some, adjustHeading_attributes]

theorem adjusted_args (adjustment : Adjustment) (command : Command Node) :
    (adjusted adjustment command).args = command.args := by
  obtain ⟨ident, attributes, args, declaration, rules⟩ := command
  cases declaration with
  | none => rfl
  | some heading =>
    show (adjustHeading adjustment _ heading).args = args
    unfold adjustHeading
    dsimp only
    split <;> rfl

theorem adjustNode_plain (adjustment : Adjustment) (ident : Ident) (attributes : Option Attributes) (args : List Node)
    {declaration : Option Declaration} (rules : List (Rule Node)) (plain : ¬Formula.isHeading declaration = true) :
    adjustNode adjustment (.command ⟨ident, attributes, args, declaration, rules⟩) =
      .command ⟨ident, attributes, adjust adjustment args, declaration, rules⟩ := by
  cases declaration with
  | none => rfl
  | some heading =>
    rw [adjustNode]
    exact if_neg (by simpa [Formula.isHeading] using plain)

mutual

theorem visibleNode_adjust {slots : Bool} {adjustment : Adjustment} (standard : adjustment.registry = registry)
    (taken : Bool) (node : Node) (known : node.Declared (Known slots)) :
    visibleNode taken (adjustNode adjustment node) = (visibleNode taken node).map (adjusted adjustment) := by
  match node with
  | .command ⟨ident, attributes, args, declaration, rules⟩ =>
    by_cases heads : Formula.isHeading declaration = true
    · have changed := adjustNode_known standard _ known
      obtain ⟨same, still⟩ :=
        @adjustNode_heading slots _ standard ⟨ident, attributes, args, declaration, rules⟩ known.1 heads
      rw [same] at changed ⊢
      rw [visible_heading taken known heads, visible_heading taken changed still, List.map_singleton]
    · have below := visible_adjust standard taken args known.2.1
      rw [adjustNode_plain adjustment ident attributes args rules heads, visibleNode, visibleNode]
      simp only [if_neg heads, below]
      split
      · rfl
      · rfl
  | .bracket ⟨_, _, _, children⟩ => exact visible_adjust standard taken children known
  | .quotation _ _ children => exact visible_adjust standard taken children known
  | .fragment children => exact visible_adjust standard taken children known
  | .hole | .text _ _ | .symbol _ _ | .ident _ | .stray _ | .drawing _ | .tag _ => rfl
termination_by structural node

/-- Adjusting a document adjusts its headings, each by itself. -/
theorem visible_adjust {slots : Bool} {adjustment : Adjustment} (standard : adjustment.registry = registry)
    (taken : Bool) (nodes : List Node) (known : Declared (Known slots) nodes) :
    visible taken (adjust adjustment nodes) = (visible taken nodes).map (adjusted adjustment) := by
  match nodes with
  | [] => rfl
  | node :: rest =>
    rw [adjust, visible, visible, List.map_append, visibleNode_adjust standard taken node known.1,
      visible_adjust standard taken rest known.2]
termination_by structural nodes

end

end Outline
end Manuscript
