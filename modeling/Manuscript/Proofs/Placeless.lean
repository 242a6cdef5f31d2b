import Manuscript.Proofs.Inclusions
import Manuscript.Registry.Builtin

/-! Resolution without places. Only a command that writes its scope down sees the path of the file it stands in, or in
which order and how often the commands around it stand; without such commands, what nodes resolve to is the same in
all scopes that agree on the rest. -/

namespace Manuscript

/-- The same commands around, in whatever order and however often, and the same content and layout. -/
structure Scope.Akin (scope other : Scope) : Prop where
  content : scope.content = other.content
  layout : scope.layout = other.layout
  within : ∀ ident, scope.within ident = other.within ident

namespace Scope.Akin

variable {scope other : Scope}

theorem top (path other : String) : (Scope.top path).Akin (.top other) := ⟨rfl, rfl, fun _ => rfl⟩

theorem trans {third : Scope} (first : scope.Akin other) (second : other.Akin third) : scope.Akin third where
  content := first.content.trans second.content
  layout := first.layout.trans second.layout
  within ident := (first.within ident).trans (second.within ident)

theorem descend (akin : scope.Akin other) (ident : String) (imposed : Option ScopeOverride) :
    (scope.descend ident imposed).Akin (other.descend ident imposed) where
  content := congrArg (imposed.map ScopeOverride.content).getD akin.content
  layout := congrArg (imposed.map ScopeOverride.layout).getD akin.layout
  within name := by
    have around := akin.within name
    unfold Scope.within at around
    simp only [Scope.within, Scope.descend, List.contains_append, around]

theorem allows (akin : scope.Akin other) (declaration : Declaration) :
    declaration.allows scope = declaration.allows other := by
  unfold Declaration.allows
  simp only [ScopeConstraint.allows, akin.content, akin.layout, akin.within]

end Scope.Akin

/-- No command writes down where it stands. -/
def Registry.Placeless (registry : Registry) : Prop :=
  ∀ declaration ∈ registry.declarations, ∀ arguments ∈ declaration.arguments, arguments.converter ≠ .scope

namespace Resolve

theorem produce_placeless {declaration : Declaration} {arguments : ArgumentList} (blind : arguments.converter ≠ .scope)
    (head : Head) (offer : Offer) (rest : List Node) (scope other : Scope) :
    produce declaration head offer rest scope arguments = produce declaration head offer rest other arguments := by
  have same (args : List (Block Node)) :
      convert declaration arguments.converter head.ident offer.attributes args scope =
        convert declaration arguments.converter head.ident offer.attributes args other := by
    cases converter : arguments.converter with
    | scope => exact absurd converter blind
    | _ => rfl
  unfold produce
  simp only [same]

theorem findSome?_congr {α β : Type} {items : List α} {first second : α → Option β}
    (same : ∀ item ∈ items, first item = second item) : items.findSome? first = items.findSome? second := by
  induction items with
  | nil => rfl
  | cons item items ih =>
    obtain ⟨here, others⟩ := List.forall_mem_cons.mp same
    rw [List.findSome?_cons, List.findSome?_cons, here, ih others]

section Scan

variable {registry : Registry} (placeless : registry.Placeless) {scope other : Scope} (akin : scope.Akin other)

include placeless akin

theorem invoke_placeless (head : Head) (rest : List Node) :
    invoke registry scope head rest = invoke registry other head rest := by
  unfold invoke
  apply findSome?_congr
  intro declaration listed
  simp only [akin.allows]
  split
  · rfl
  · split
    · rfl
    · apply findSome?_congr
      intro arguments offered
      exact produce_placeless (placeless declaration (List.mem_filter.mp listed).1 arguments offered) ..

theorem scan_placeless (skip : Nat) (nodes : List Node) :
    (scanFrom registry scope skip nodes).1 = (scanFrom registry other skip nodes).1 := by
  induction nodes generalizing skip with
  | nil => simp [scanFrom]
  | cons node rest ih =>
    cases skip with
    | succ skip =>
      rw [scanFrom, scanFrom]
      exact ih skip
    | zero =>
      rw [scanFrom, scanFrom]
      cases head? node with
      | none =>
        dsimp only
        rw [ih 0]
      | some head =>
        dsimp only
        rw [invoke_placeless placeless akin]
        cases invoke registry other head rest with
        | none =>
          dsimp only
          rw [ih 0]
        | some production =>
          dsimp only
          rw [ih production.used]

end Scan

theorem below_akin {scope other : Scope} (akin : scope.Akin other) {node : Node} {lower : Scope × List Node}
    (under : lower ∈ below scope node) : ∃ inside, lower.1.Akin inside ∧ (inside, lower.2) ∈ below other node := by
  cases node with
  | command command =>
    obtain rfl := List.mem_singleton.mp under
    exact ⟨_, akin.descend .., List.mem_singleton_self _⟩
  | bracket | quotation | fragment =>
    obtain rfl := List.mem_singleton.mp under
    exact ⟨other, akin, List.mem_singleton_self _⟩
  | tag tag =>
    obtain ⟨block, member, rfl⟩ := List.mem_map.mp under
    exact ⟨other, akin, List.mem_map_of_mem member⟩
  | _ => cases under

/-- Where no command writes down where it stands, resolution goes into the same lists in akin scopes. -/
theorem descent_akin {registry : Registry} (placeless : registry.Placeless) {scope other lower : Scope}
    (akin : scope.Akin other) {nodes children : List Node}
    (descent : Descent registry (lower, children) (scope, nodes)) :
    ∃ inside, lower.Akin inside ∧ Descent registry (inside, children) (other, nodes) := by
  obtain ⟨node, scanned, under⟩ := List.mem_flatMap.mp descent
  obtain ⟨inside, around, member⟩ := below_akin akin under
  rw [scan_placeless placeless akin] at scanned
  exact ⟨inside, around, List.mem_flatMap.mpr ⟨node, scanned, member⟩⟩

/-- What is put together from equal values is equal, whatever is reported. -/
theorem values_bind {α β : Type} {one other : Option (α × List ResolveEvent)}
    (same : one.map Prod.fst = other.map Prod.fst) (rebuild : α → β)
    (more further : List ResolveEvent → List ResolveEvent) :
    (one >>= fun result => pure (rebuild result.1, more result.2)).map Prod.fst =
      (other >>= fun result => pure (rebuild result.1, further result.2)).map Prod.fst := by
  have rebuilt := congrArg (Option.map rebuild) same
  cases one <;> cases other <;> exact rebuilt

theorem gather_values {α : Type} {outcomes others : List (Option (α × List ResolveEvent))}
    (same : outcomes.map (Option.map Prod.fst) = others.map (Option.map Prod.fst)) :
    (gather outcomes).map Prod.fst = (gather others).map Prod.fst := by
  induction outcomes generalizing others with
  | nil =>
    rw [List.map_nil, eq_comm, List.map_eq_nil_iff] at same
    rw [same]
  | cons outcome outcomes ih =>
    cases others with
    | nil => cases same
    | cons other others =>
      obtain ⟨here, later⟩ := List.cons.inj same
      cases outcome with
      | none =>
        cases other with
        | none => rfl
        | some twin => cases here
      | some result =>
        cases other with
        | none => cases here
        | some twin =>
          obtain ⟨value, events⟩ := result
          obtain ⟨again, reports⟩ := twin
          obtain rfl : value = again := Option.some.inj here
          exact values_bind (ih later) (value :: ·) (events ++ ·) (reports ++ ·)

/-- A resolver whose results, apart from what it reports, are the same in akin scopes. -/
def Placeless (inner : Scope → List Node → Option (List Node × List ResolveEvent)) : Prop :=
  ∀ ⦃scope other⦄, scope.Akin other → ∀ nodes, (inner scope nodes).map Prod.fst = (inner other nodes).map Prod.fst

theorem Placeless.descend {inner : Scope → List Node → Option (List Node × List ResolveEvent)}
    (placeless : Placeless inner) {scope other : Scope} (akin : scope.Akin other) (node : Node) :
    (Resolve.descend inner scope node).map Prod.fst = (Resolve.descend inner other node).map Prod.fst := by
  cases node with
  | command command =>
    exact values_bind (placeless (akin.descend ..) command.args) (fun args => Node.command { command with args }) id id
  | bracket block =>
    exact values_bind (placeless akin block.children) (fun children => Node.bracket { block with children }) id id
  | quotation opening closing children =>
    exact values_bind (placeless akin children) (Node.quotation opening closing) id id
  | fragment children => exact values_bind (placeless akin children) Node.fragment id id
  | tag tag =>
    refine values_bind (gather_values ?_) (fun args => Node.tag { tag with args }) id id
    rw [List.map_map, List.map_map]
    apply List.map_congr_left
    intro block _
    have same := congrArg (Option.map fun children => { block with children }) (placeless akin block.children)
    rw [Option.map_map, Option.map_map] at same
    rw [Function.comp_apply, Function.comp_apply, Option.map_map, Option.map_map]
    exact same
  | _ => rfl

/-- Where no command writes down where it stands, the same nodes resolve alike in akin scopes. -/
theorem resolve_placeless {registry : Registry} (placeless : registry.Placeless) (depth : Nat) :
    Placeless (resolve registry depth) := by
  induction depth with
  | zero => exact fun _ _ _ _ => rfl
  | succ depth ih =>
    intro scope other akin nodes
    rw [resolve, resolve]
    refine values_bind (gather_values ?_) id (_ ++ ·) (_ ++ ·)
    rw [scan_placeless placeless akin, List.map_map, List.map_map]
    exact List.map_congr_left fun node _ => ih.descend akin node

end Resolve

theorem placeless_builtin : Builtin.registry.Placeless := by
  unfold Registry.Placeless
  decide +kernel

end Manuscript
