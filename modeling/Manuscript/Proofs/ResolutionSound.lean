import Manuscript.Proofs.FirstFit
import Manuscript.Proofs.Unresolved

/-! What resolution leaves is justified. Each list of the resolved tree stands for a list that was scanned in the same
scope, and each command in it for an identifier at which its declaration was the first to fit; an identifier that is
still there is one at which none fits. -/

namespace Manuscript

namespace Resolve

/-- What stands at a position, with what follows it, once it is scanned. -/
def step (registry : Registry) (scope : Scope) (node : Node) (rest : List Node) : Option Production :=
  (head? node).bind fun head => invoke registry scope head rest

/-- The scan of the first list stops at the start of the second. -/
inductive Reaches (registry : Registry) (scope : Scope) : List Node → List Node → Prop where
  | here (nodes : List Node) : Reaches registry scope nodes nodes
  | past {node : Node} {rest suffix : List Node} (kept : step registry scope node rest = none)
      (later : Reaches registry scope rest suffix) : Reaches registry scope (node :: rest) suffix
  | behind {node : Node} {rest suffix : List Node} {production : Production}
      (invoked : step registry scope node rest = some production)
      (later : Reaches registry scope (rest.drop production.used) suffix) : Reaches registry scope (node :: rest) suffix

/-- What a scan leaves of a position. -/
def remains (registry : Registry) (scope : Scope) (node : Node) (rest : List Node) : List Node :=
  ((step registry scope node rest).map Production.nodes).getD [node]

theorem Reaches.suffix {registry : Registry} {scope : Scope} {nodes others : List Node}
    (reaches : Reaches registry scope nodes others) : others.IsSuffix nodes := by
  induction reaches with
  | here nodes => exact List.suffix_refl nodes
  | past _ _ ih => exact ih.trans (List.suffix_cons ..)
  | behind _ _ ih => exact (ih.trans (List.drop_suffix ..)).trans (List.suffix_cons ..)

theorem mem_scan (registry : Registry) (scope : Scope) (skip : Nat) (nodes : List Node) (left : Node) :
    left ∈ (scanFrom registry scope skip nodes).1 ↔
      ∃ node rest, Reaches registry scope (nodes.drop skip) (node :: rest) ∧
        left ∈ remains registry scope node rest := by
  have past {node : Node} {rest : List Node} (kept : step registry scope node rest = none) :
      (∃ first behind, Reaches registry scope (node :: rest) (first :: behind) ∧
        left ∈ remains registry scope first behind) ↔ left = node ∨
      ∃ first behind, Reaches registry scope rest (first :: behind) ∧ left ∈ remains registry scope first behind := by
    constructor
    · rintro ⟨first, behind, reaches, member⟩
      cases reaches with
      | here =>
        rw [remains, kept] at member
        exact .inl (List.mem_singleton.mp member)
      | past _ later => exact .inr ⟨first, behind, later, member⟩
      | behind invoked => exact absurd (kept.symm.trans invoked) (by simp)
    · rintro (rfl | ⟨first, behind, reaches, member⟩)
      · exact ⟨_, _, .here _, by rw [remains, kept]; exact List.mem_singleton_self _⟩
      · exact ⟨first, behind, .past kept reaches, member⟩
  fun_induction scanFrom registry scope skip nodes with
  | case1 skip =>
    simp only [List.drop_nil, List.not_mem_nil, false_iff]
    rintro ⟨node, rest, reaches, _⟩
    cases reaches
  | case2 skip first rest ih => simpa using ih
  | case3 first rest unnamed scanned events same ih =>
    simp only [same, List.drop_zero] at ih
    rw [List.drop_zero, past (by rw [step, unnamed]; rfl), List.mem_cons]
    exact or_congr_right ih
  | case4 first rest head named production found scanned events same ih =>
    have invoked : step registry scope first rest = some production := by rw [step, named]; exact found
    simp only [same] at ih
    rw [List.mem_append, List.drop_zero]
    refine (or_congr_right ih).trans ?_
    constructor
    · rintro (member | ⟨node, behind, reaches, member⟩)
      · exact ⟨_, _, .here _, by rw [remains, invoked]; exact member⟩
      · exact ⟨node, behind, .behind invoked reaches, member⟩
    · rintro ⟨node, behind, reaches, member⟩
      cases reaches with
      | here =>
        rw [remains, invoked] at member
        exact .inl member
      | past kept => exact absurd (kept.symm.trans invoked) (by simp)
      | behind again later =>
        cases invoked.symm.trans again
        exact .inr ⟨node, behind, later, member⟩
  | case5 first rest head named unfit scanned events same ih =>
    simp only [same, List.drop_zero] at ih
    rw [List.drop_zero, past (by rw [step, named]; exact unfit), List.mem_cons]
    exact or_congr_right ih

theorem gather_forall₂ {α β : Type} {each : α → Option (β × List ResolveEvent)} {items : List α} {values : List β}
    {events : List ResolveEvent} (found : gather (items.map each) = some (values, events)) :
    List.Forall₂ (fun item value => ∃ events, each item = some (value, events)) items values := by
  induction items generalizing values events with
  | nil =>
    cases found
    exact .nil
  | cons item items ih =>
    simp only [List.map_cons, gather, Option.bind_eq_bind, Option.bind_eq_some_iff] at found
    obtain ⟨⟨value, inside⟩, first, ⟨others, more⟩, further, result⟩ := found
    cases result
    exact .cons ⟨inside, first⟩ (ih further)

/-- The lists below a node are resolved one by one. -/
theorem descend_below {inner : Scope → List Node → Option (List Node × List ResolveEvent)} {scope : Scope}
    {node made : Node} {events : List ResolveEvent} (found : descend inner scope node = some (made, events)) :
    List.Forall₂ (fun before after => after.1 = before.1 ∧ ∃ events, inner before.1 before.2 = some (after.2, events))
      (below scope node) (below scope made) := by
  cases node with
  | command command | bracket block | quotation opening closing children | fragment children =>
    simp only [descend, Option.bind_eq_bind, Option.bind_eq_some_iff] at found
    obtain ⟨⟨nodes, inside⟩, entered, result⟩ := found
    cases result
    exact .cons ⟨rfl, _, entered⟩ .nil
  | tag tag =>
    simp only [descend, Option.bind_eq_bind, Option.bind_eq_some_iff] at found
    obtain ⟨⟨blocks, inside⟩, entered, result⟩ := found
    cases result
    rw [below, below, List.forall₂_map_left_iff, List.forall₂_map_right_iff]
    refine (gather_forall₂ entered).imp ?_
    rintro block after ⟨events, found⟩
    obtain ⟨⟨nodes, inside⟩, reached, same⟩ := Option.map_eq_some_iff.mp found
    cases same
    exact ⟨rfl, _, reached⟩
  | _ =>
    cases found
    exact .nil

/-- The second list is inside a node of the first. -/
def Nests (upper lower : Scope × List Node) : Prop := ∃ node ∈ upper.2, lower ∈ below upper.1 node

/-- A node is somewhere in a tree; its scope is that of the tree, changed by each command around it. -/
def Occurs (tree : Scope × List Node) (scope : Scope) (node : Node) : Prop :=
  ∃ nodes, Relation.ReflTransGen Nests tree (scope, nodes) ∧ node ∈ nodes

/-- Resolution goes into a list, by one descent after the other. -/
def Enters (registry : Registry) (tree place : Scope × List Node) : Prop :=
  Relation.ReflTransGen (fun upper lower => Descent registry lower upper) tree place

/-- Resolution comes to a node, with the nodes that follow it. -/
def Scans (registry : Registry) (tree : Scope × List Node) (scope : Scope) (node : Node) (rest : List Node) : Prop :=
  ∃ nodes, Enters registry tree (scope, nodes) ∧ Reaches registry scope nodes (node :: rest)

end Resolve

open Resolve

theorem resolve_each {registry : Registry} {depth : Nat} {scope : Scope} {nodes result : List Node}
    {events : List ResolveEvent} (found : resolve registry depth scope nodes = some (result, events)) :
    ∃ less, depth = less + 1 ∧ List.Forall₂ (fun node made => ∃ events,
      descend (resolve registry less) scope node = some (made, events)) (scanFrom registry scope 0 nodes).1 result := by
  cases depth with
  | zero => cases found
  | succ less =>
    simp only [resolve, Option.bind_eq_bind, Option.bind_eq_some_iff] at found
    obtain ⟨⟨values, more⟩, gathered, same⟩ := found
    cases same
    exact ⟨less, rfl, gather_forall₂ gathered⟩

theorem forall₂_members {α β : Type} {relation : α → β → Prop} {items : List α} {values : List β}
    (pairs : List.Forall₂ relation items values) :
    (∀ value ∈ values, ∃ item ∈ items, relation item value) ∧
      ∀ item ∈ items, ∃ value ∈ values, relation item value := by
  induction pairs with
  | nil => simp
  | cons first _ ih =>
    obtain ⟨back, forth⟩ := ih
    constructor
    · refine List.forall_mem_cons.mpr ⟨⟨_, List.mem_cons_self .., first⟩, fun value member => ?_⟩
      obtain ⟨item, inside, related⟩ := back value member
      exact ⟨item, List.mem_cons_of_mem _ inside, related⟩
    · refine List.forall_mem_cons.mpr ⟨⟨_, List.mem_cons_self .., first⟩, fun item member => ?_⟩
      obtain ⟨value, inside, related⟩ := forth item member
      exact ⟨value, List.mem_cons_of_mem _ inside, related⟩

section Levels

variable {registry : Registry} {depth : Nat} {scope : Scope} {nodes result : List Node}
  {events : List ResolveEvent} (found : resolve registry depth scope nodes = some (result, events))

include found

/-- Each list right below a result is what a list right below the scanned one was resolved into. -/
theorem resolve_nests {lower : Scope × List Node} (nests : Nests (scope, result) lower) :
    ∃ less inner events, Descent registry (lower.1, inner) (scope, nodes) ∧
      resolve registry less lower.1 inner = some (lower.2, events) := by
  obtain ⟨less, _, each⟩ := resolve_each found
  obtain ⟨made, member, under⟩ := nests
  obtain ⟨node, scanned, inside, descended⟩ := (forall₂_members each).1 made member
  obtain ⟨before, listed, same, events, resolved⟩ := (forall₂_members (descend_below descended)).1 lower under
  rw [same]
  exact ⟨less, before.2, events, List.mem_flatMap.mpr ⟨node, scanned, listed⟩, resolved⟩

theorem resolve_descent {lower : Scope × List Node} (descent : Descent registry lower (scope, nodes)) :
    ∃ less inner events, Nests (scope, result) (lower.1, inner) ∧
      resolve registry less lower.1 lower.2 = some (inner, events) := by
  obtain ⟨less, _, each⟩ := resolve_each found
  obtain ⟨node, scanned, under⟩ := List.mem_flatMap.mp descent
  obtain ⟨made, member, inside, descended⟩ := (forall₂_members each).2 node scanned
  obtain ⟨after, listed, same, events, resolved⟩ := (forall₂_members (descend_below descended)).2 lower under
  exact ⟨less, after.2, events, ⟨made, member, same ▸ listed⟩, resolved⟩

/-- Every list of a resolved tree was entered in the scope it has there. -/
theorem resolve_entered {place : Scope × List Node} (within : Relation.ReflTransGen Nests (scope, result) place) :
    ∃ less inner events, Enters registry (scope, nodes) (place.1, inner) ∧
      resolve registry less place.1 inner = some (place.2, events) := by
  induction within with
  | refl => exact ⟨depth, nodes, events, .refl, found⟩
  | tail _ nests ih =>
    obtain ⟨less, inner, events, entered, resolved⟩ := ih
    obtain ⟨last, others, more, descent, further⟩ := resolve_nests resolved nests
    exact ⟨last, others, more, entered.tail descent, further⟩

/-- Every list that is entered is found in the resolved tree. -/
theorem resolve_found {place : Scope × List Node} (entered : Enters registry (scope, nodes) place) :
    ∃ less inner events, Relation.ReflTransGen Nests (scope, result) (place.1, inner) ∧
      resolve registry less place.1 place.2 = some (inner, events) := by
  induction entered with
  | refl => exact ⟨depth, result, events, .refl, found⟩
  | tail _ descent ih =>
    obtain ⟨less, inner, events, within, resolved⟩ := ih
    obtain ⟨last, others, more, nests, further⟩ := resolve_descent resolved descent
    exact ⟨last, others, more, within.tail nests, further⟩

end Levels

theorem enters_unresolved {named : String → Prop} {registry : Registry} {tree place : Scope × List Node}
    (unresolved : Unresolved named tree.2) (entered : Enters registry tree place) : Unresolved named place.2 := by
  induction entered with
  | refl => exact unresolved
  | tail _ descent ih => exact descent_unresolved ih descent

theorem scans_unresolved {named : String → Prop} {registry : Registry} {tree : Scope × List Node} {scope : Scope}
    {node : Node} {rest : List Node} (unresolved : Unresolved named tree.2)
    (scans : Scans registry tree scope node rest) : Unresolved named (node :: rest) := by
  obtain ⟨nodes, entered, reaches⟩ := scans
  exact (enters_unresolved unresolved entered).sublist reaches.suffix.sublist

namespace Resolve

theorem produce_left {declaration : Declaration} {head : Head} {offer : Offer} {rest : List Node} {scope : Scope}
    {arguments : ArgumentList} {production : Production}
    (found : produce declaration head offer rest scope arguments = some production) :
    ∃ args taken more, arguments.capture (offer.stream rest) = some (args, taken) ∧
      (more = [] ∨ ∃ used behind, Rule.leadingWhere (rest.drop used) = some (more, behind)) ∧
      production.nodes =
        (if (head.rules ++ more).isEmpty then
            convert declaration arguments.converter head.ident offer.attributes args scope
          else applyRules (head.rules ++ more) declaration.defersRules
            (convert declaration arguments.converter head.ident offer.attributes args scope)) ::
          (offer.attached.drop taken).map .bracket := by
  simp only [produce, Option.bind_eq_bind, Option.bind_eq_some_iff] at found
  obtain ⟨⟨args, taken⟩, captured, result⟩ := found
  cases result
  refine ⟨args, taken, _, captured, ?_, rfl⟩
  split
  · cases leads : Rule.leadingWhere (rest.drop (offer.skipped + (taken - offer.attached.length))) with
    | none => exact .inl rfl
    | some rules => exact .inr ⟨_, rules.2, leads⟩
  · exact .inl rfl

/-- Rules change nothing of a command but its arguments and the rules it keeps. -/
theorem applyRules_command (rules : List (Rule Node)) (deferred : Bool) (command : Command Node) :
    ∃ args kept, applyRules rules deferred (.command command) = .command { command with args, rules := kept } := by
  cases deferred with
  | true => exact ⟨_, _, rfl⟩
  | false => exact ⟨_, _, rfl⟩

theorem produce_command {declaration : Declaration} {head : Head} {offer : Offer} {rest : List Node} {scope : Scope}
    {arguments : ArgumentList} {production : Production} (plain : arguments.converter = .command)
    (found : produce declaration head offer rest scope arguments = some production) :
    ∃ (command : Command Node) (blocks : List (Block Node)),
      production.nodes = .command command :: blocks.map .bracket ∧ command.ident = head.ident ∧
      command.declaration = some declaration ∧ command.attributes = offer.attributes ∧
      (head.rules = [] → (∀ used, Rule.leadingWhere (rest.drop used) = none) →
        ∃ args taken, arguments.capture (offer.stream rest) = some (args, taken) ∧
          command.args = args.map .bracket) := by
  obtain ⟨args, taken, more, captured, followed, left⟩ := produce_left found
  rw [plain] at left
  by_cases ruled : head.rules ++ more = []
  · rw [ruled] at left
    exact ⟨_, _, left, rfl, rfl, rfl, fun _ _ => ⟨args, taken, captured, rfl⟩⟩
  · rw [if_neg (by rwa [List.isEmpty_iff]), convert] at left
    obtain ⟨changed, kept, applied⟩ := applyRules_command (head.rules ++ more) declaration.defersRules
      { ident := head.ident, attributes := offer.attributes, args := args.map .bracket, declaration := some declaration }
    rw [applied] at left
    refine ⟨_, _, left, rfl, rfl, rfl, fun none unfollowed => absurd ?_ ruled⟩
    rw [none, List.nil_append]
    rcases followed with nothing | ⟨used, behind, leads⟩
    · exact nothing
    · exact absurd ((unfollowed used).symm.trans leads) (by simp)

theorem descend_command {inner : Scope → List Node → Option (List Node × List ResolveEvent)} {scope : Scope}
    {node : Node} {command : Command Node} {events : List ResolveEvent}
    (found : descend inner scope node = some (.command command, events)) :
    ∃ before events, node = .command { command with args := before } ∧
      inner (scope.descend command.ident.name (command.declaration.bind Declaration.child)) before =
        some (command.args, events) := by
  cases node with
  | command original =>
    simp only [descend, Option.bind_eq_bind, Option.bind_eq_some_iff] at found
    obtain ⟨⟨nodes, inside⟩, entered, result⟩ := found
    cases result
    exact ⟨original.args, inside, rfl, entered⟩
  | bracket | quotation | fragment | tag =>
    simp only [descend, Option.bind_eq_bind, Option.bind_eq_some_iff] at found
    obtain ⟨_, _, result⟩ := found
    cases result
  | _ => cases found

theorem descend_head {inner : Scope → List Node → Option (List Node × List ResolveEvent)} {scope : Scope}
    {node made : Node} {head : Head} {events : List ResolveEvent}
    (found : descend inner scope node = some (made, events)) (heads : head? made = some head) :
    ∃ attached, head? node = some { head with attached } := by
  cases node with
  | tag tag =>
    simp only [descend, Option.bind_eq_bind, Option.bind_eq_some_iff] at found
    obtain ⟨_, _, result⟩ := found
    cases result
    cases heads
    exact ⟨_, rfl⟩
  | command | bracket | quotation | fragment =>
    simp only [descend, Option.bind_eq_bind, Option.bind_eq_some_iff] at found
    obtain ⟨_, _, result⟩ := found
    cases result
    cases heads
  | _ =>
    cases found
    exact ⟨head.attached, heads⟩

end Resolve

/-- Blocks stay blocks of the same kinds. -/
theorem resolve_brackets {registry : Registry} {depth : Nat} {scope : Scope} {blocks : List (Block Node)}
    {result : List Node} {events : List ResolveEvent}
    (found : resolve registry depth scope (blocks.map .bracket) = some (result, events)) :
    ∃ others : List (Block Node), result = others.map .bracket ∧ others.map Block.kind = blocks.map Block.kind := by
  have scanned : (scanFrom registry scope 0 (blocks.map .bracket)).1 = blocks.map .bracket := by
    clear found
    induction blocks with
    | nil => rfl
    | cons block blocks ih =>
      rw [List.map_cons, scanFrom]
      simp only [head?, ih]
  obtain ⟨less, _, each⟩ := resolve_each found
  rw [scanned, List.forall₂_map_left_iff] at each
  clear found scanned
  induction each with
  | nil => exact ⟨[], rfl, rfl⟩
  | cons first _ ih =>
    obtain ⟨others, rfl, kinds⟩ := ih
    obtain ⟨events, first⟩ := first
    simp only [descend, Option.bind_eq_bind, Option.bind_eq_some_iff] at first
    obtain ⟨⟨nodes, inside⟩, _, made⟩ := first
    cases made
    exact ⟨_ :: others, rfl, by rw [List.map_cons, List.map_cons, kinds]⟩

/-- Each invocation is left as a command. -/
def Registry.Plain (registry : Registry) : Prop :=
  ∀ declaration ∈ registry.declarations, ∀ arguments ∈ declaration.arguments, arguments.converter = .command

theorem Registry.Plain.converter {registry : Registry} (plain : registry.Plain) {name : String}
    {choice : Declaration × ArgumentList} (member : choice ∈ registry.choices name) :
    choice.2.converter = .command := by
  obtain ⟨found, inside⟩ := mem_choices member
  exact plain choice.1 (List.mem_of_mem_filter found) choice.2 inside

namespace Resolve

/-- A command that stands for an identifier, by the first choice that fits there. -/
structure Chosen (registry : Registry) (scope : Scope) (head : Head) (rest : List Node)
    (choice : Declaration × ArgumentList) (command : Command Node) : Prop where
  first : FirstFit registry scope head rest choice
  ident : command.ident = head.ident
  declaration : command.declaration = some choice.1
  attributes : command.attributes = (offer choice.1 head rest).attributes

/-- A declaration that ignores attributes leaves its command without any. -/
theorem offer_ignored {declaration : Declaration} (ignored : declaration.ignoresAttributes = true) (head : Head)
    (rest : List Node) : (offer declaration head rest).attributes = none := by
  simp [offer, ignored]

theorem Chosen.attributes_valid {registry : Registry} {scope : Scope} {head : Head} {rest : List Node}
    {choice : Declaration × ArgumentList} {command : Command Node}
    (chosen : Chosen registry scope head rest choice command) :
    if choice.1.ignoresAttributes then command.attributes = none
    else choice.1.admitsAttributes (command.attributes.getD []) = true := by
  rw [chosen.attributes]
  split
  next ignored => exact offer_ignored ignored head rest
  next counted => exact chosen.first.fits.valid.resolve_left counted

/-- What is left where something fits starts with a command, and the rest of it are blocks. -/
theorem step_chosen {registry : Registry} (plain : registry.Plain) {scope : Scope} {node : Node} {rest : List Node}
    {head : Head} (heads : head? node = some head) {production : Production}
    (invoked : step registry scope node rest = some production) :
    ∃ choice command, ∃ blocks : List (Block Node), Chosen registry scope head rest choice command ∧
      remains registry scope node rest = .command command :: blocks.map .bracket ∧
      (head.rules = [] → (∀ used, Rule.leadingWhere (rest.drop used) = none) →
        ∃ args : List (Block Node), command.args = args.map .bracket ∧ choice.2.Asks (args.map Block.kind)) := by
  rw [step, heads, Option.bind_some] at invoked
  obtain ⟨choice, first, produced⟩ := invoke_eq_some invoked
  obtain ⟨command, blocks, left, ident, declaration, attributes, plainly⟩ :=
    produce_command (plain.converter first.member) produced
  refine ⟨choice, command, blocks, ⟨first, ident, declaration, attributes⟩, ?_, ?_⟩
  · rw [remains, step, heads, Option.bind_some, invoked]
    exact left
  · intro none unfollowed
    obtain ⟨args, taken, captured, same⟩ := plainly none unfollowed
    exact ⟨args, same, ArgumentList.capture_asks captured⟩

end Resolve

section Sound

variable {registry : Registry} {depth : Nat} {scope : Scope} {nodes result : List Node}
  {events : List ResolveEvent} (found : resolve registry depth scope nodes = some (result, events))

include found

/-- Whatever stands in a resolved tree was left at a position that was scanned. -/
theorem occurs_scanned {place : Scope} {made : Node} (occurs : Occurs (scope, result) place made) :
    ∃ node rest left less events, Scans registry (scope, nodes) place node rest ∧
      left ∈ remains registry place node rest ∧ descend (resolve registry less) place left = some (made, events) := by
  obtain ⟨list, within, member⟩ := occurs
  obtain ⟨less, inner, events, entered, resolved⟩ := resolve_entered found within
  obtain ⟨last, _, each⟩ := resolve_each resolved
  obtain ⟨left, scanned, more, descended⟩ := (forall₂_members each).1 made member
  obtain ⟨node, rest, reaches, remaining⟩ := (mem_scan registry place 0 inner left).mp scanned
  exact ⟨node, rest, left, last, more, ⟨inner, entered, reaches⟩, remaining, descended⟩

/-- Whatever is left at a position is found in the resolved tree. -/
theorem scanned_occurs {place : Scope} {node left : Node} {rest : List Node}
    (scans : Scans registry (scope, nodes) place node rest) (member : left ∈ remains registry place node rest) :
    ∃ made less events, Occurs (scope, result) place made ∧
      descend (resolve registry less) place left = some (made, events) := by
  obtain ⟨list, entered, reaches⟩ := scans
  obtain ⟨less, inner, events, within, resolved⟩ := resolve_found found entered
  obtain ⟨last, _, each⟩ := resolve_each resolved
  have scanned : left ∈ (scanFrom registry place 0 list).1 := (mem_scan ..).mpr ⟨node, rest, reaches, member⟩
  obtain ⟨made, inside, more, descended⟩ := (forall₂_members each).2 left scanned
  exact ⟨made, last, more, ⟨inner, within, inside⟩, descended⟩

/-- A command stands for an identifier of which its declaration is the first choice; where no where block is written,
its arguments are what that choice asks for. -/
theorem command_chosen (plain : registry.Plain) (unresolved : Unresolved (fun _ => True) nodes) {place : Scope}
    {command : Command Node} (occurs : Occurs (scope, result) place (.command command)) :
    ∃ node rest head choice, Scans registry (scope, nodes) place node rest ∧ head? node = some head ∧
      Chosen registry place head rest choice command ∧
      (Unresolved (· ≠ Rule.whereIdent) nodes →
        ∃ blocks : List (Block Node), command.args = blocks.map .bracket ∧ choice.2.Asks (blocks.map Block.kind)) := by
  obtain ⟨node, rest, left, less, events, scans, remaining, descended⟩ := occurs_scanned found occurs
  obtain ⟨before, more, rfl, entered⟩ := descend_command descended
  cases stepped : step registry place node rest with
  | none =>
    rw [remains, stepped] at remaining
    obtain rfl := List.mem_singleton.mp remaining
    exact (scans_unresolved unresolved scans).1.elim
  | some production =>
    obtain ⟨head, heads, _⟩ := Option.bind_eq_some_iff.mp stepped
    obtain ⟨choice, original, blocks, chosen, left, plainly⟩ := step_chosen plain heads stepped
    rw [left] at remaining
    rcases List.mem_cons.mp remaining with same | block
    · cases same
      refine ⟨node, rest, head, choice, scans, heads,
        ⟨chosen.first, chosen.ident, chosen.declaration, chosen.attributes⟩, ?_⟩
      intro whereless
      have here := scans_unresolved whereless scans
      have unruled := (head_unresolved heads here.1).2.1.resolve_right (· rfl)
      obtain ⟨args, rfl, asked⟩ := plainly unruled fun used => by
        cases leads : Rule.leadingWhere (rest.drop used) with
        | none => rfl
        | some rules =>
          exact absurd rfl (leadingWhere_unresolved (here.2.sublist (List.drop_sublist ..)) leads).1
      obtain ⟨others, same, kinds⟩ := resolve_brackets entered
      exact ⟨others, same, kinds ▸ asked⟩
    · obtain ⟨_, _, impossible⟩ := List.mem_map.mp block
      cases impossible

theorem fitting_resolved (plain : registry.Plain) {place : Scope} {node : Node} {rest : List Node} {head : Head}
    (scans : Scans registry (scope, nodes) place node rest) (heads : head? node = some head)
    (fitting : ∃ choice ∈ registry.choices head.ident.name, Fits place head rest choice) :
    ∃ choice command, Occurs (scope, result) place (.command command) ∧
      Chosen registry place head rest choice command := by
  cases stepped : step registry place node rest with
  | none =>
    rw [step, heads, Option.bind_some] at stepped
    obtain ⟨choice, member, fits⟩ := fitting
    exact absurd fits (invoke_eq_none.mp stepped choice member)
  | some production =>
    obtain ⟨choice, command, blocks, chosen, left, _⟩ := step_chosen plain heads stepped
    have member : Node.command command ∈ remains registry place node rest := by
      rw [left]
      exact List.mem_cons_self ..
    obtain ⟨made, less, events, occurs, descended⟩ := scanned_occurs found scans member
    simp only [descend, Option.bind_eq_bind, Option.bind_eq_some_iff] at descended
    obtain ⟨_, _, result⟩ := descended
    cases result
    exact ⟨choice, _, occurs, chosen.first, chosen.ident, chosen.declaration, chosen.attributes⟩

theorem left_unfit (plain : registry.Plain) {place : Scope} {left : Node} {head : Head}
    (occurs : Occurs (scope, result) place left) (heads : head? left = some head) :
    ∃ node rest attached, Scans registry (scope, nodes) place node rest ∧
      head? node = some { head with attached } ∧
      ∀ choice ∈ registry.choices head.ident.name, ¬Fits place { head with attached } rest choice := by
  obtain ⟨node, rest, before, less, events, scans, remaining, descended⟩ := occurs_scanned found occurs
  obtain ⟨attached, named⟩ := descend_head descended heads
  cases stepped : step registry place node rest with
  | none =>
    rw [remains, stepped] at remaining
    obtain rfl := List.mem_singleton.mp remaining
    rw [step, named, Option.bind_some] at stepped
    exact ⟨_, rest, attached, scans, named, invoke_eq_none.mp stepped⟩
  | some production =>
    obtain ⟨first, starts, _⟩ := Option.bind_eq_some_iff.mp stepped
    obtain ⟨choice, command, blocks, _, left, _⟩ := step_chosen plain starts stepped
    rw [left] at remaining
    rcases List.mem_cons.mp remaining with rfl | block
    · cases named
    · obtain ⟨_, _, rfl⟩ := List.mem_map.mp block
      cases named

end Sound

/-- Every command of a resolved source is one that its declaration allows in the scope it stands in, with valid
attributes and, where no where block is written, arguments of the kinds that are asked for. Its declaration and argument
list are the first to fit at an identifier that was scanned in that scope. Conversely, where some choice fits there is a
command in the end, and an identifier that is left is one at which none fits. -/
theorem resolution_sound {registry : Registry} (plain : registry.Plain) {depth : Nat} {scope : Scope} {source : Bytes}
    {result : List Node} {events : List ResolveEvent}
    (found : resolve registry depth scope (normalize (Parse.ofBytes source)) = some (result, events)) :
    (∀ place command, Occurs (scope, result) place (.command command) →
      ∃ node rest head declaration arguments,
        Scans registry (scope, normalize (Parse.ofBytes source)) place node rest ∧ head? node = some head ∧
        Chosen registry place head rest (declaration, arguments) command ∧
        declaration ∈ registry.lookup command.ident.name ∧ declaration.allows place = true ∧
        (if declaration.ignoresAttributes then command.attributes = none
          else declaration.admitsAttributes (command.attributes.getD []) = true) ∧
        ((∀ token ∈ tokensOf (Parse.ofBytes source), token.text ≠ Rule.whereIdent) →
          arguments ∈ declaration.arguments ∧ ∃ blocks : List (Block Node),
            command.args = blocks.map .bracket ∧ arguments.Asks (blocks.map Block.kind))) ∧
    (∀ place node rest head, Scans registry (scope, normalize (Parse.ofBytes source)) place node rest →
      head? node = some head → (∃ choice ∈ registry.choices head.ident.name, Fits place head rest choice) →
      ∃ choice command, Occurs (scope, result) place (.command command) ∧
        Chosen registry place head rest choice command) ∧
    ∀ place left head, Occurs (scope, result) place left → head? left = some head →
      ∃ node rest attached, Scans registry (scope, normalize (Parse.ofBytes source)) place node rest ∧
        head? node = some { head with attached } ∧
        ∀ choice ∈ registry.choices head.ident.name, ¬Fits place { head with attached } rest choice := by
  refine ⟨?_, ?_, ?_⟩
  · intro place command occurs
    have unresolved : Unresolved (fun _ => True) (normalize (Parse.ofBytes source)) :=
      normalize_ofBytes_unresolved source fun _ _ => trivial
    obtain ⟨node, rest, head, ⟨declaration, arguments⟩, scans, heads, chosen, asked⟩ :=
      command_chosen found plain unresolved occurs
    obtain ⟨listed, inside⟩ := Registry.mem_choices chosen.first.member
    refine ⟨node, rest, head, declaration, arguments, scans, heads, chosen, chosen.ident ▸ listed,
      chosen.first.fits.allowed, chosen.attributes_valid, ?_⟩
    intro whereless
    exact ⟨inside, asked (normalize_ofBytes_unresolved source whereless)⟩
  · intro place node rest head scans heads fitting
    exact fitting_resolved found plain scans heads fitting
  · intro place left head occurs heads
    exact left_unfit found plain occurs heads

namespace Sample

/-- Arguments behind blanks, blocks that are not taken, declarations that are tried in vain and a name that has none. -/
def mixture : String :=
  "\\p" ++ curly ("\\b " ++ curly "\\img[src=a]" ++ " \\img" ++ curly "x" ++ " \\" ++ curly ("\\sqrt[3]" ++ curly "x" ++
    "\\frac" ++ curly "1" ++ " " ++ curly "2") ++ "\\nope" ++ curly "\\i") ++ "\\item" ++ curly "y"

end Sample

theorem resolution_sound_mixture : Builtin.registry.Plain ∧ ∃ result events,
    resolve Builtin.registry 8 (.top "doc.ss") (normalize (Parse.ofString Sample.mixture)) = some (result, events) ∧
      ∀ place command, Occurs (.top "doc.ss", result) place (.command command) →
        ∃ declaration ∈ Builtin.registry.lookup command.ident.name,
          command.declaration = some declaration ∧ declaration.allows place = true := by
  have plain : Builtin.registry.Plain := by
    unfold Registry.Plain
    decide +kernel
  have some : (resolve Builtin.registry 8 (.top "doc.ss") (normalize (Parse.ofString Sample.mixture))).isSome = true := by
    rw [Parse.ofString, Parse.ofBytes, Words.ofBytes_encode]
    decide +kernel
  obtain ⟨⟨result, events⟩, found⟩ := Option.isSome_iff_exists.mp some
  refine ⟨plain, result, events, found, ?_⟩
  intro place command occurs
  obtain ⟨_, _, _, declaration, _, _, _, chosen, listed, allowed, _⟩ :=
    (resolution_sound plain found).1 place command occurs
  exact ⟨declaration, listed, chosen.declaration, allowed⟩

end Manuscript
