import Manuscript.Project.Compiler
import Manuscript.Proofs.ResolutionDepth

/-! The inclusions of a file. What a file includes does not depend on the path it was loaded from, as a path can only
get into texts, and texts are never resolved. -/

namespace Manuscript

namespace Compiler

mutual

/-- The inclusions that are expanded in a node, in order. -/
def inclusions : Node → List (Command Node)
  | .command ⟨ident, attributes, args, declaration, rules⟩ =>
    if declaration.any (·.name == Builtin.includeIdent) then [⟨ident, attributes, args, declaration, rules⟩]
    else inclusionsOf args
  | .bracket ⟨_, _, _, children⟩ => inclusionsOf children
  | .quotation _ _ children => inclusionsOf children
  | .fragment children => inclusionsOf children
  | _ => []
termination_by structural node => node

def inclusionsOf : List Node → List (Command Node)
  | [] => []
  | node :: rest => inclusions node ++ inclusionsOf rest
termination_by structural nodes => nodes

end

/-- The path of an inclusion as it is written. -/
def address (command : Command Node) : String := (command.attribute? "src").getD ""

def addresses (nodes : List Node) : List String := (inclusionsOf nodes).map address

theorem target_eq (path : String) (command : Command Node) :
    target path command = Path.join (Path.dir path) (address command) := rfl

theorem target_mem {nodes : List Node} {command : Command Node} (member : command ∈ inclusionsOf nodes)
    (path : String) : target path command ∈ (addresses nodes).map (Path.join (Path.dir path)) :=
  List.mem_map_of_mem (List.mem_map_of_mem member)

end Compiler

namespace Scope

def moved (scope : Scope) (other : String) : Scope := { scope with path := other }

end Scope

namespace Resolve

/-- Forgets what a text says. -/
def mask : Node → Node
  | .text _ _ => .text "" {}
  | node => node

theorem mask_eq {node other : Node} (same : mask node = mask other) :
    node = other ∨ (∃ value span, node = .text value span) ∧ ∃ value span, other = .text value span := by
  cases node <;> cases other <;> simp_all [mask]

theorem mask_applyRules {node other : Node} (same : mask node = mask other) (rules : List (Rule Node))
    (deferred : Bool) : mask (applyRules rules deferred node) = mask (applyRules rules deferred other) := by
  rcases mask_eq same with rfl | ⟨⟨value, span, rfl⟩, word, place, rfl⟩
  · rfl
  · rfl

theorem mask_convert (declaration : Declaration) (converter : Converter) (ident : Ident)
    (attributes : Option Attributes) (args : List (Block Node)) (scope : Scope) (other : String) :
    mask (convert declaration converter ident attributes args (scope.moved other)) =
      mask (convert declaration converter ident attributes args scope) := by
  cases converter <;> rfl

def Production.masked (production : Production) : Production :=
  { production with nodes := production.nodes.map mask }

theorem produce_moved (declaration : Declaration) (head : Head) (offer : Offer) (rest : List Node) (scope : Scope)
    (other : String) (arguments : ArgumentList) :
    (produce declaration head offer rest (scope.moved other) arguments).map Production.masked =
      (produce declaration head offer rest scope arguments).map Production.masked := by
  unfold produce
  dsimp only
  cases arguments.capture (offer.attached.map .bracket ++ rest.drop offer.skipped) with
  | none => rfl
  | some captured =>
    obtain ⟨args, taken⟩ := captured
    have made := mask_convert declaration arguments.converter head.ident offer.attributes args scope other
    simp only [Option.bind_eq_bind, Option.bind_some, Option.pure_def, Option.map_some, Production.masked, List.map_cons]
    generalize (if offer.attached.length ≤ taken then
      (Rule.leadingWhere (rest.drop (offer.skipped + (taken - offer.attached.length)))).getD ([], 0) else ([], 0)) = behind
    split
    · rw [made]
    · rw [mask_applyRules made]

theorem invoke_moved (registry : Registry) (scope : Scope) (other : String) (head : Head) (rest : List Node) :
    (invoke registry (scope.moved other) head rest).map Production.masked =
      (invoke registry scope head rest).map Production.masked := by
  unfold invoke
  rw [List.map_findSome?, List.map_findSome?]
  congr 1
  funext declaration
  have allowed : declaration.allows (scope.moved other) = declaration.allows scope := rfl
  simp only [Function.comp_apply, allowed]
  split
  · rfl
  · split
    · rfl
    · rw [List.map_findSome?, List.map_findSome?]
      congr 1
      funext arguments
      exact produce_moved ..

theorem scan_moved (registry : Registry) (scope : Scope) (other : String) (skip : Nat) (nodes : List Node) :
    (scanFrom registry (scope.moved other) skip nodes).1.map mask = (scanFrom registry scope skip nodes).1.map mask := by
  induction nodes generalizing skip with
  | nil => simp [scanFrom]
  | cons node rest ih =>
    cases skip with
    | succ skip =>
      rw [scanFrom, scanFrom]
      exact ih skip
    | zero =>
      rw [scanFrom, scanFrom]
      cases head? node with
      | none =>
        dsimp only
        rw [List.map_cons, List.map_cons, ih 0]
      | some head =>
        have invoked := invoke_moved registry scope other head rest
        dsimp only
        cases here : invoke registry scope head rest with
        | none =>
          rw [here, Option.map_none, Option.map_eq_none_iff] at invoked
          rw [invoked]
          dsimp only
          rw [List.map_cons, List.map_cons, ih 0]
        | some production =>
          rw [here, Option.map_some, Option.map_eq_some_iff] at invoked
          obtain ⟨moved, there, same⟩ := invoked
          obtain ⟨nodes, used, _⟩ := Production.mk.inj same
          rw [there]
          dsimp only
          rw [List.map_append, List.map_append, nodes, used, ih production.used]

open Compiler

/-- A resolver that finds the same inclusions in another file. -/
def Steady (other : String) (inner : Scope → List Node → Option (List Node × List ResolveEvent)) : Prop :=
  ∀ scope nodes left events, inner scope nodes = some (left, events) →
    ∃ moved reports, inner (scope.moved other) nodes = some (moved, reports) ∧ addresses moved = addresses left

theorem inclusions_command (ident : Ident) (attributes : Option Attributes) (declaration : Option Declaration)
    (rules : List (Rule Node)) {args others : List Node} (same : addresses args = addresses others) :
    (inclusions (.command ⟨ident, attributes, args, declaration, rules⟩)).map address =
      (inclusions (.command ⟨ident, attributes, others, declaration, rules⟩)).map address := by
  rw [inclusions, inclusions]
  split
  · rfl
  · exact same

theorem descend_moved {other : String} {inner : Scope → List Node → Option (List Node × List ResolveEvent)}
    (steady : Steady other inner) (scope : Scope) {node twin : Node} (alike : mask twin = mask node) {left : Node}
    {events : List ResolveEvent} (found : descend inner scope node = some (left, events)) :
    ∃ moved reports, descend inner (scope.moved other) twin = some (moved, reports) ∧
      (inclusions moved).map address = (inclusions left).map address := by
  rcases mask_eq alike with rfl | ⟨⟨word, place, rfl⟩, value, span, rfl⟩
  · cases twin with
    | command command =>
      simp only [descend, Option.bind_eq_bind, Option.bind_eq_some_iff] at found ⊢
      obtain ⟨⟨args, inside⟩, entered, result⟩ := found
      obtain ⟨moved, reports, reached, same⟩ := steady _ _ _ _ entered
      cases result
      exact ⟨_, _, ⟨_, reached, rfl⟩, inclusions_command _ _ _ _ same⟩
    | bracket block =>
      simp only [descend, Option.bind_eq_bind, Option.bind_eq_some_iff] at found ⊢
      obtain ⟨⟨children, inside⟩, entered, result⟩ := found
      obtain ⟨moved, reports, reached, same⟩ := steady _ _ _ _ entered
      cases result
      exact ⟨_, _, ⟨_, reached, rfl⟩, by simpa only [inclusions, addresses] using same⟩
    | quotation opening closing nodes | fragment nodes =>
      simp only [descend, Option.bind_eq_bind, Option.bind_eq_some_iff] at found ⊢
      obtain ⟨⟨children, inside⟩, entered, result⟩ := found
      obtain ⟨moved, reports, reached, same⟩ := steady _ _ _ _ entered
      cases result
      exact ⟨_, _, ⟨_, reached, rfl⟩, by simpa only [inclusions, addresses] using same⟩
    | tag tag =>
      have some : (descend inner (scope.moved other) (.tag tag)).isSome = true := by
        rw [descend_isSome]
        have each := (descend_isSome inner scope (.tag tag)).mp (by rw [found]; rfl)
        rw [below, List.forall_mem_map] at each ⊢
        intro block member
        obtain ⟨⟨nodes, inside⟩, entered⟩ := Option.isSome_iff_exists.mp (each block member)
        obtain ⟨moved, reports, reached, _⟩ := steady _ _ _ _ entered
        rw [reached]
        rfl
      obtain ⟨⟨moved, reports⟩, reached⟩ := Option.isSome_iff_exists.mp some
      refine ⟨moved, reports, reached, ?_⟩
      simp only [descend, Option.bind_eq_bind, Option.bind_eq_some_iff] at found reached
      obtain ⟨_, _, result⟩ := found
      obtain ⟨_, _, made⟩ := reached
      cases result
      cases made
      rfl
    | _ => exact ⟨_, _, found, rfl⟩
  · cases found
    exact ⟨_, _, rfl, rfl⟩

theorem gather_moved {other : String} {inner : Scope → List Node → Option (List Node × List ResolveEvent)}
    (steady : Steady other inner) (scope : Scope) {nodes twins : List Node} (alike : twins.map mask = nodes.map mask)
    {left : List Node} {events : List ResolveEvent}
    (found : gather (nodes.map (descend inner scope)) = some (left, events)) :
    ∃ moved reports, gather (twins.map (descend inner (scope.moved other))) = some (moved, reports) ∧
      addresses moved = addresses left := by
  induction nodes generalizing twins left events with
  | nil =>
    obtain rfl := List.map_eq_nil_iff.mp alike
    cases found
    exact ⟨_, _, rfl, rfl⟩
  | cons node nodes ih =>
    obtain ⟨twin, twins, rfl, first, others⟩ := List.map_eq_cons_iff.mp alike
    simp only [List.map_cons, gather, Option.bind_eq_bind, Option.bind_eq_some_iff] at found ⊢
    obtain ⟨⟨value, inside⟩, here, ⟨values, more⟩, further, result⟩ := found
    obtain ⟨moved, reports, reached, same⟩ := descend_moved steady scope first here
    obtain ⟨others, remarks, followed, alike⟩ := ih others further
    cases result
    refine ⟨_, _, ⟨_, reached, _, followed, rfl⟩, ?_⟩
    simp only [addresses, inclusionsOf, List.map_append] at alike ⊢
    rw [same, alike]

end Resolve

open Resolve

/-- A file includes the same paths wherever it is loaded from. -/
theorem resolve_steady (registry : Registry) (depth : Nat) (other : String) : Steady other (resolve registry depth) := by
  induction depth with
  | zero =>
    intro scope nodes left events found
    cases found
  | succ depth ih =>
    intro scope nodes left events found
    simp only [resolve, Option.bind_eq_bind, Option.bind_eq_some_iff] at found ⊢
    obtain ⟨⟨values, more⟩, gathered, result⟩ := found
    obtain ⟨moved, reports, reached, same⟩ := gather_moved ih scope (scan_moved registry scope other 0 nodes) gathered
    cases result
    exact ⟨_, _, ⟨_, reached, rfl⟩, same⟩

end Manuscript
