import Manuscript.Document.Resolve
import Mathlib.Order.WellFounded

/-! How deep resolution goes. A result that was found at some depth is the one found at every greater depth, and one is
found exactly when no chain of descents, from a list to the lists below what a scan leaves of it, goes on for ever. -/

namespace Manuscript

namespace Resolve

/-- The lists that resolution goes into at a node, with their scopes. -/
def below (scope : Scope) : Node → List (Scope × List Node)
  | .command command =>
    [(scope.descend command.ident.name (command.declaration.bind Declaration.child), command.args)]
  | .bracket block => [(scope, block.children)]
  | .quotation _ _ children => [(scope, children)]
  | .fragment children => [(scope, children)]
  | .tag tag => tag.args.map fun block => (scope, block.children)
  | _ => []

/-- The lists below a list, once it is scanned. -/
def inner (registry : Registry) (place : Scope × List Node) : List (Scope × List Node) :=
  (scanFrom registry place.1 0 place.2).1.flatMap (below place.1)

/-- Resolution of the second list goes into the first. -/
def Descent (registry : Registry) (lower upper : Scope × List Node) : Prop := lower ∈ inner registry upper

theorem gather_isSome {α : Type} (outcomes : List (Option (α × List ResolveEvent))) :
    (gather outcomes).isSome = true ↔ ∀ outcome ∈ outcomes, outcome.isSome = true := by
  induction outcomes with
  | nil => simp [gather]
  | cons outcome rest ih =>
    rw [List.forall_mem_cons, ← ih, gather]
    cases outcome with
    | none => simp
    | some value => cases gather rest <;> simp

theorem descend_isSome (resolver : Scope → List Node → Option (List Node × List ResolveEvent)) (scope : Scope)
    (node : Node) : (descend resolver scope node).isSome = true ↔
      ∀ place ∈ below scope node, (resolver place.1 place.2).isSome = true := by
  cases node with
  | command command =>
    rw [below, List.forall_mem_singleton, descend]
    cases resolver _ command.args <;> simp
  | bracket block =>
    rw [below, List.forall_mem_singleton, descend]
    cases resolver scope block.children <;> simp
  | quotation opening closing children =>
    rw [below, List.forall_mem_singleton, descend]
    cases resolver scope children <;> simp
  | fragment children =>
    rw [below, List.forall_mem_singleton, descend]
    cases resolver scope children <;> simp
  | tag tag =>
    have parts := gather_isSome (tag.args.map fun block => (resolver scope block.children).map fun result =>
      ({ block with children := result.1 }, result.2))
    simp only [List.forall_mem_map, Option.isSome_map] at parts
    rw [below, List.forall_mem_map, ← parts]
    change (gather (tag.args.map fun block => (resolver scope block.children).map fun result =>
      ({ block with children := result.1 }, result.2)) >>= _).isSome = true ↔ _
    cases gather _ <;> simp
  | _ => simp [descend, below]

/-- A resolver that knows at least what another one knows. -/
def Extends (more less : Scope → List Node → Option (List Node × List ResolveEvent)) : Prop :=
  ∀ scope nodes result, less scope nodes = some result → more scope nodes = some result

theorem gather_extends {α β : Type} (less more : β → Option (α × List ResolveEvent))
    (same : ∀ item value, less item = some value → more item = some value) (items : List β)
    {result : List α × List ResolveEvent} (found : gather (items.map less) = some result) :
    gather (items.map more) = some result := by
  induction items generalizing result with
  | nil => exact found
  | cons item items ih =>
    simp only [List.map_cons, gather, Option.bind_eq_bind, Option.bind_eq_some_iff] at found ⊢
    obtain ⟨value, first, rest, further, result⟩ := found
    exact ⟨value, same item value first, rest, ih further, result⟩

theorem descend_extends {more less : Scope → List Node → Option (List Node × List ResolveEvent)}
    (larger : Extends more less) (scope : Scope) (node : Node) (result : Node × List ResolveEvent)
    (found : descend less scope node = some result) : descend more scope node = some result := by
  cases node with
  | tag tag =>
    simp only [descend, Option.bind_eq_bind, Option.bind_eq_some_iff] at found ⊢
    obtain ⟨value, parts, result⟩ := found
    refine ⟨value, gather_extends _ _ ?_ tag.args parts, result⟩
    intro block value found
    obtain ⟨inside, first, same⟩ := Option.map_eq_some_iff.mp found
    exact Option.map_eq_some_iff.mpr ⟨inside, larger _ _ _ first, same⟩
  | command | bracket | quotation | fragment =>
    simp only [descend, Option.bind_eq_bind, Option.bind_eq_some_iff] at found ⊢
    obtain ⟨value, inside, result⟩ := found
    exact ⟨value, larger _ _ _ inside, result⟩
  | _ => exact found

end Resolve

open Resolve

theorem resolve_succ_extends (registry : Registry) (depth : Nat) :
    Extends (resolve registry (depth + 1)) (resolve registry depth) := by
  induction depth with
  | zero =>
    intro scope nodes result found
    cases found
  | succ depth ih =>
    intro scope nodes result found
    rw [resolve] at found ⊢
    simp only [Option.bind_eq_bind, Option.bind_eq_some_iff] at found ⊢
    obtain ⟨value, parts, result⟩ := found
    exact ⟨value, gather_extends _ _ (descend_extends ih scope) _ parts, result⟩

/-- A result does not change when resolution may go deeper. -/
theorem resolve_extends (registry : Registry) {depth more : Nat} (deeper : depth ≤ more) :
    Extends (resolve registry more) (resolve registry depth) := by
  induction deeper with
  | refl => exact fun _ _ _ found => found
  | step _ ih => exact fun scope nodes result found => resolve_succ_extends registry _ scope nodes result (ih _ _ _ found)

theorem resolve_unique {registry : Registry} {depth other : Nat} {scope : Scope} {nodes : List Node}
    {result another : List Node × List ResolveEvent} (found : resolve registry depth scope nodes = some result)
    (again : resolve registry other scope nodes = some another) : result = another := by
  have left := resolve_extends registry (le_max_left depth other) _ _ _ found
  have right := resolve_extends registry (le_max_right depth other) _ _ _ again
  exact Option.some.inj (left.symm.trans right)

theorem resolve_isSome_succ (registry : Registry) (depth : Nat) (place : Scope × List Node) :
    (resolve registry (depth + 1) place.1 place.2).isSome = true ↔
      ∀ lower, Descent registry lower place → (resolve registry depth lower.1 lower.2).isSome = true := by
  have parts := gather_isSome ((scanFrom registry place.1 0 place.2).1.map (descend (resolve registry depth) place.1))
  simp only [List.forall_mem_map, descend_isSome] at parts
  have inside : (∀ lower, Descent registry lower place → (resolve registry depth lower.1 lower.2).isSome = true) ↔
      ∀ node ∈ (scanFrom registry place.1 0 place.2).1, ∀ lower ∈ below place.1 node,
        (resolve registry depth lower.1 lower.2).isSome = true := by
    simp only [Descent, Resolve.inner, List.mem_flatMap]
    constructor
    · intro all node member lower under
      exact all lower ⟨node, member, under⟩
    · rintro all lower ⟨node, member, under⟩
      exact all node member lower under
  rw [inside, ← parts, resolve]
  obtain ⟨scanned, events⟩ := scanFrom registry place.1 0 place.2
  dsimp only
  cases gather (scanned.map (descend (resolve registry depth) place.1)) <;> simp

/-- Resolution gives a result from some depth on, and keeps it. -/
def Ends (registry : Registry) (scope : Scope) (nodes : List Node) : Prop :=
  ∃ depth result, ∀ more, depth ≤ more → resolve registry more scope nodes = some result

theorem ends_iff_isSome (registry : Registry) (scope : Scope) (nodes : List Node) :
    Ends registry scope nodes ↔ ∃ depth, (resolve registry depth scope nodes).isSome = true := by
  constructor
  · rintro ⟨depth, result, found⟩
    exact ⟨depth, by rw [found depth le_rfl]; rfl⟩
  · rintro ⟨depth, found⟩
    obtain ⟨result, found⟩ := Option.isSome_iff_exists.mp found
    exact ⟨depth, result, fun more deeper => resolve_extends registry deeper _ _ _ found⟩

/-- Finitely many lists that all end do so at a common depth. -/
theorem common_depth (registry : Registry) (places : List (Scope × List Node))
    (each : ∀ place ∈ places, ∃ depth, (resolve registry depth place.1 place.2).isSome = true) :
    ∃ depth, ∀ place ∈ places, (resolve registry depth place.1 place.2).isSome = true := by
  induction places with
  | nil => exact ⟨0, by simp⟩
  | cons place places ih =>
    obtain ⟨⟨first, found⟩, others⟩ := List.forall_mem_cons.mp each
    obtain ⟨second, further⟩ := ih others
    have deeper {depth : Nat} {place : Scope × List Node} (below : depth ≤ max first second)
        (found : (resolve registry depth place.1 place.2).isSome = true) :
        (resolve registry (max first second) place.1 place.2).isSome = true := by
      obtain ⟨result, found⟩ := Option.isSome_iff_exists.mp found
      rw [resolve_extends registry below _ _ _ found]
      rfl
    refine ⟨max first second, List.forall_mem_cons.mpr ⟨deeper (le_max_left ..) found, ?_⟩⟩
    exact fun other member => deeper (le_max_right ..) (further other member)

theorem acc_of_isSome (registry : Registry) (depth : Nat) (place : Scope × List Node)
    (found : (resolve registry depth place.1 place.2).isSome = true) : Acc (Descent registry) place := by
  induction depth generalizing place with
  | zero => cases found
  | succ depth ih =>
    exact .intro _ fun lower under => ih lower ((resolve_isSome_succ registry depth place).mp found lower under)

theorem isSome_of_acc (registry : Registry) (place : Scope × List Node) (ends : Acc (Descent registry) place) :
    ∃ depth, (resolve registry depth place.1 place.2).isSome = true := by
  induction ends with
  | intro place _ ih =>
    obtain ⟨depth, found⟩ := common_depth registry (Resolve.inner registry place) ih
    exact ⟨depth + 1, (resolve_isSome_succ registry depth place).mpr found⟩

theorem ends_iff_acc (registry : Registry) (scope : Scope) (nodes : List Node) :
    Ends registry scope nodes ↔ Acc (Descent registry) (scope, nodes) := by
  rw [ends_iff_isSome]
  constructor
  · rintro ⟨depth, found⟩
    exact acc_of_isSome registry depth (scope, nodes) found
  · exact isSome_of_acc registry (scope, nodes)

end Manuscript
