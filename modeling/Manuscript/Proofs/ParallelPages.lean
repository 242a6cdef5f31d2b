import Manuscript.Proofs.FlagValues
import Manuscript.Proofs.Skeletons

/-! Two pages that are the same but in some places. What they expand to is the same but in these places too, since all the
files that they include are the same. -/

namespace Manuscript

/-- Lists of nodes that are the same but for where nodes stand, and for nodes that go together in other ways. `here` tells
whether everything around is of a sort that `enters`. -/
inductive Parallel (part : Bool → Node → Node → Prop) (enters : Option Declaration → Bool) :
    (here : Bool) → List Node → List Node → Prop where
  | nil {here : Bool} : Parallel part enters here [] []
  | part {here : Bool} {node other : Node} {rest others : List Node} (given : part here node other)
      (later : Parallel part enters here rest others) : Parallel part enters here (node :: rest) (other :: others)
  | command {here : Bool} {ident name : Ident} {attributes : Option Attributes} {args inner : List Node}
      {declaration : Option Declaration} {rules more : List (Rule Node)} {rest others : List Node}
      (named : name.name = ident.name) (ruled : rulesUnspanned more = rulesUnspanned rules)
      (inside : Parallel part enters (here && enters declaration) args inner)
      (later : Parallel part enters here rest others) :
      Parallel part enters here (.command ⟨ident, attributes, args, declaration, rules⟩ :: rest)
        (.command ⟨name, attributes, inner, declaration, more⟩ :: others)
  | bracket {here : Bool} {kind : BracketKind} {opening closing first last : Option Token} {children inner : List Node}
      {rest others : List Node} (opened : first.map Token.unplaced = opening.map Token.unplaced)
      (closed : last.map Token.unplaced = closing.map Token.unplaced)
      (inside : Parallel part enters here children inner) (later : Parallel part enters here rest others) :
      Parallel part enters here (.bracket ⟨kind, opening, closing, children⟩ :: rest)
        (.bracket ⟨kind, first, last, inner⟩ :: others)
  | quotation {here : Bool} {opening closing first last : Option Token} {children inner rest others : List Node}
      (opened : first.map Token.unplaced = opening.map Token.unplaced)
      (closed : last.map Token.unplaced = closing.map Token.unplaced)
      (inside : Parallel part enters here children inner) (later : Parallel part enters here rest others) :
      Parallel part enters here (.quotation opening closing children :: rest) (.quotation first last inner :: others)
  | fragment {here : Bool} {children inner rest others : List Node} (inside : Parallel part enters here children inner)
      (later : Parallel part enters here rest others) :
      Parallel part enters here (.fragment children :: rest) (.fragment inner :: others)
  | tag {here : Bool} {ident name : Ident} {options choices : Option (Block Node)} {attributes : Option Attributes}
      {args inner : List (Block Node)} {rules more : List (Rule Node)} {rest others : List Node}
      (named : name.name = ident.name) (chosen : optionsBare choices = optionsBare options)
      (ruled : rulesUnspanned more = rulesUnspanned rules)
      (inside : Parallel part enters (here && enters none) (args.map .bracket) (inner.map .bracket))
      (later : Parallel part enters here rest others) :
      Parallel part enters here (.tag ⟨ident, options, attributes, args, rules⟩ :: rest)
        (.tag ⟨name, choices, attributes, inner, more⟩ :: others)

namespace Parallel

variable {part others : Bool → Node → Node → Prop} {enters : Option Declaration → Bool} {here : Bool}
  {nodes left : List Node}

theorem mono (parallel : Parallel part enters here nodes left)
    (weaker : ∀ inner, (inner = true → here = true) → ∀ node other, part inner node other → others inner node other) :
    Parallel others enters here nodes left := by
  have deeper {here entered : Bool} : (here && entered) = true → here = true := fun both =>
    (Bool.and_eq_true_iff.mp both).1
  induction parallel with
  | nil => exact .nil
  | part given _ ih => exact .part (weaker _ id _ _ given) (ih weaker)
  | command named ruled _ _ inside later =>
    exact .command named ruled (inside fun inner below => weaker inner fun sure => deeper (below sure)) (later weaker)
  | bracket opened closed _ _ inside later => exact .bracket opened closed (inside weaker) (later weaker)
  | quotation opened closed _ _ inside later => exact .quotation opened closed (inside weaker) (later weaker)
  | fragment _ _ inside later => exact .fragment (inside weaker) (later weaker)
  | tag named chosen ruled _ _ inside later =>
    exact .tag named chosen ruled (inside fun inner below => weaker inner fun sure => deeper (below sure)) (later weaker)

theorem blocksBare_inj {blocks more : List (Block Node)} (same : bare (blocks.map .bracket) = bare (more.map .bracket)) :
    blocksBare blocks = blocksBare more := by
  induction blocks generalizing more with
  | nil =>
    cases more with
    | nil => rfl
    | cons => cases same
  | cons block blocks ih =>
    cases more with
    | nil => cases same
    | cons other more =>
      obtain ⟨first, later⟩ := List.cons.inj same
      rw [blocksBare, blocksBare, ih later, Node.bracket.inj first]

/-- Where nothing goes together in other ways, lists are the same. -/
theorem bare_eq (parallel : Parallel part enters here nodes left)
    (alike : ∀ inner, (inner = true → here = true) → ∀ node other, part inner node other → node.bare = other.bare) :
    bare nodes = bare left := by
  have deeper {here entered : Bool} : (here && entered) = true → here = true := fun both =>
    (Bool.and_eq_true_iff.mp both).1
  induction parallel with
  | nil => rfl
  | part given _ ih => rw [bare, bare, alike _ id _ _ given, ih alike]
  | command named ruled _ _ inside later =>
    have below := inside fun inner below => alike inner fun sure => deeper (below sure)
    rw [bare, bare, Node.bare, Node.bare, named, ruled, below, later alike]
  | bracket opened closed _ _ inside later =>
    rw [bare, bare, Node.bare, Node.bare, blockBare, blockBare, opened, closed, inside alike, later alike]
  | quotation opened closed _ _ inside later =>
    rw [bare, bare, Node.bare, Node.bare, opened, closed, inside alike, later alike]
  | fragment _ _ inside later => rw [bare, bare, Node.bare, Node.bare, inside alike, later alike]
  | tag named chosen ruled _ _ inside later =>
    have below := blocksBare_inj (inside fun inner below => alike inner fun sure => deeper (below sure))
    rw [bare, bare, Node.bare, Node.bare, named, chosen, ruled, below, later alike]

end Parallel

theorem bare_of_unspanned {node other : Node} (same : node.unspanned = other.unspanned) : node.bare = other.bare := by
  rw [← Node.bare_unspanned, same, Node.bare_unspanned]

theorem isPassed_congr {node other : Node} (same : node.unspanned = other.unspanned) :
    node.isPassed = other.isPassed := by
  have forgotten (node : Node) : node.unspanned.isPassed = node.isPassed := by cases node <;> rfl
  rw [← forgotten, same, forgotten]

/-- Nodes of two sources that go together: expansion passes over both, and they are the same, or they are swapped. -/
def Before (swap : Node → Node → Prop) (here : Bool) (node other : Node) : Prop :=
  (node.isPassed = true ∧ node.unspanned = other.unspanned) ∨ (here = true ∧ swap node other)

/-- Nodes that go together where two sources are expanded. -/
def After (swap : Node → Node → Prop) (here : Bool) (node other : Node) : Prop :=
  node.bare = other.bare ∨ (here = true ∧ swap node other)

namespace Compiler

open Compile

/-- The same project but for one page. -/
structure Beside (compiler twin : Compiler) (page : String) : Prop where
  standard : compiler.registry = Builtin.registry
  registry : twin.registry = compiler.registry
  decoders : twin.decoders = compiler.decoders
  limit : twin.limit = compiler.limit
  read : ∀ path, compiler.Reached page path → path ≠ page → twin.tree.read path = compiler.tree.read path

section Expand

variable {meet : Session → Session → Prop} {fail : Failure → Failure → Prop}
  {one other : Command Node → Expand (List Node)} {node left : Node} {rest others : List Node}

theorem expandNode_passed {inclusion : Command Node → Expand (List Node)} (plain : node.isPassed = true) :
    expandNode inclusion node = pure node := by
  cases node <;> first | rfl | cases plain

theorem expandNode_included {inclusion : Command Node → Expand (List Node)} {command : Command Node}
    (included : Declaration.isInclusion command.declaration = true) :
    expandNode inclusion (.command command) = (do pure (.fragment (← inclusion command))) := by
  obtain ⟨ident, attributes, args, declaration, rules⟩ := command
  exact if_pos included

theorem expandNode_other {inclusion : Command Node → Expand (List Node)} {command : Command Node}
    (other : Declaration.isInclusion command.declaration = false) :
    expandNode inclusion (.command command) = (do
      pure (.command { command with args := ← expandNodes inclusion command.args })) := by
  obtain ⟨ident, attributes, args, declaration, rules⟩ := command
  exact if_neg (Bool.eq_false_iff.mp other)

theorem couples_cons
    (first : ∀ sheet filled, Couples meet fail (fun _ _ => True) ((expandNode one node).run sheet)
      ((expandNode other left).run filled))
    (later : ∀ sheet filled, Couples meet fail (fun _ _ => True) ((expandNodes one rest).run sheet)
      ((expandNodes other others).run filled)) (sheet filled : FormulaSheet) :
    Couples meet fail (fun _ _ => True) ((expandNodes one (node :: rest)).run sheet)
      ((expandNodes other (left :: others)).run filled) := by
  simp only [expandNodes, StateT.run_bind]
  refine (first sheet filled).bind fun given granted _ => ?_
  exact (later given.2 granted.2).bind fun _ _ _ => couples_pure trivial

end Expand

section Settled

variable {compiler : Compiler} {path : String} {chain : List String} {extract : Bool} {nodes left : List Node}
  {sheet after : FormulaSheet}

/-- Where rules stand has no part in what drawings become in them. -/
theorem Spliced.bare_eq {twin : Compiler} (registry : twin.registry = compiler.registry)
    {content placed others : List Node} {rules more : List (Rule Node)}
    (spliced : compiler.Spliced path content rules placed)
    (again : twin.Spliced path content more others) (ruled : rulesUnspanned more = rulesUnspanned rules) :
    bare placed = bare others := by
  have none_iff {rules : List (Rule Node)} : rulesUnspanned rules = [] ↔ rules = [] := by
    rw [rulesUnspanned_eq_map, List.map_eq_nil_iff]
  cases spliced with
  | plain =>
    cases again with
    | plain => rfl
    | filled given => exact absurd (none_iff.mp ruled) given
  | filled given resolved =>
    cases again with
    | plain => exact absurd (none_iff.mp ruled.symm) given
    | filled _ repeated =>
      rw [registry] at repeated
      have one := congrArg (Option.map (Prod.map unspanned id)) resolved
      have other := congrArg (Option.map (Prod.map unspanned id)) repeated
      rw [← Resolve.resolve_unspanned, filled_unspanned, Option.map_some] at one other
      rw [ruled] at other
      have same : unspanned placed = unspanned others := congrArg Prod.fst (resolve_unique one other)
      rw [← bare_unspanned placed, same, bare_unspanned]

end Settled

/-- An inclusion and the same inclusion elsewhere. -/
def Again (node other : Node) : Prop :=
  ∃ command twin : Command Node, node = .command command ∧ other = .command twin ∧
    Declaration.isInclusion command.declaration = true ∧ twin.declaration = command.declaration ∧
    twin.attributes = command.attributes ∧ rulesUnspanned twin.rules = rulesUnspanned command.rules

/-- Nodes that are swapped are inclusions of the same source. -/
def Alike (page : String) (swap : Node → Node → Prop) : Prop :=
  ∀ node other, swap node other → ∃ command twin : Command Node, node = .command command ∧ other = .command twin ∧
    Declaration.isInclusion command.declaration = true ∧ Declaration.isInclusion twin.declaration = true ∧
    target page twin = target page command ∧ Path.ext (target page command) = sourceExt

/-- Where nodes are swapped, the page is expanded to nodes that go together, and the same sheet is left. -/
def Exchanges (compiler twin : Compiler) (page : String) (extract : Bool) (file : List Node)
    (swap swapped : Node → Node → Prop) : Prop :=
  ∀ node other rest others sheet left again after final, swap node other → inclusions node ⊆ inclusionsOf file →
    compiler.Expands page [page] extract (node :: rest) sheet left after →
    twin.Expands page [page] extract (other :: others) sheet again final →
    ∃ one two middle more further, left = one :: more ∧ again = two :: further ∧ swapped one two ∧
      compiler.Expands page [page] extract rest middle more after ∧
      twin.Expands page [page] extract others middle further final

namespace Beside

variable {compiler twin : Compiler} {page : String} (beside : compiler.Beside twin page)

include beside

theorem loads_iff {path : String} (reached : compiler.Reached page path) (other : path ≠ page) (nodes : List Node) :
    twin.Loads path nodes ↔ compiler.Loads path nodes := by
  have read := beside.read path reached other
  constructor
  · intro loads
    cases loads with
    | source ending given resolved => exact .source ending (read ▸ given) (beside.registry ▸ resolved)
    | drawing ending known given decoded => exact .drawing ending (beside.decoders ▸ known) (read ▸ given) decoded
  · intro loads
    cases loads with
    | source ending given resolved => exact .source ending (read ▸ given) (beside.registry ▸ resolved)
    | drawing ending known given decoded => exact .drawing ending (beside.decoders ▸ known) (read ▸ given) decoded

theorem content_eq {path : String} (reached : compiler.Reached page path) (other : path ≠ page) :
    twin.content path = compiler.content path := by
  have resolved (data : Bytes) : twin.resolveSource path data = compiler.resolveSource path data := by
    unfold resolveSource resolveTop
    rw [beside.registry, beside.limit]
  have same : twin.loadFile path = compiler.loadFile path := by
    unfold loadFile
    simp only [beside.decoders, beside.read path reached other, resolved]
  rw [content, same, content]

theorem spliced {path : String} {content placed : List Node} {rules : List (Rule Node)}
    (spliced : twin.Spliced path content rules placed) : compiler.Spliced path content rules placed := by
  cases spliced with
  | plain => exact .plain
  | filled given resolved => exact .filled given (beside.registry ▸ resolved)

/-- What is included is expanded to the same in both. -/
theorem expands {path : String} {chain : List String} {extract : Bool} {nodes left : List Node}
    {sheet after : FormulaSheet} (expands : twin.Expands path chain extract nodes sheet left after)
    (onward : page ∈ chain) (chained : compiler.Chain page chain path) {whole : List Node}
    (loads : compiler.Loads path whole) (within : inclusionsOf nodes ⊆ inclusionsOf whole) :
    compiler.Expands path chain extract nodes sheet left after := by
  induction expands generalizing whole with
  | nil => exact .nil
  | passed plain _ later => exact .passed plain (later onward chained loads (List.append_subset.mp within).2)
  | command other _ _ inside later =>
    obtain ⟨here, there⟩ := List.append_subset.mp within
    rw [inclusions_other other] at here
    exact .command other (inside onward chained loads here) (later onward chained loads there)
  | bracket _ _ inside later =>
    obtain ⟨here, there⟩ := List.append_subset.mp within
    exact .bracket (inside onward chained loads here) (later onward chained loads there)
  | quotation _ _ inside later =>
    obtain ⟨here, there⟩ := List.append_subset.mp within
    exact .quotation (inside onward chained loads here) (later onward chained loads there)
  | fragment _ _ inside later =>
    obtain ⟨here, there⟩ := List.append_subset.mp within
    exact .fragment (inside onward chained loads here) (later onward chained loads there)
  | @spliced path chain _ command _ _ _ _ _ _ included fresh ending loaded filled _ later =>
    obtain ⟨here, there⟩ := List.append_subset.mp within
    rw [inclusions_included included] at here
    have member := here (List.mem_singleton_self command)
    have other : target path command ≠ page := fun same => fresh (same ▸ onward)
    have reread := (beside.loads_iff (.target chained loads member) other _).mp loaded
    exact .spliced included fresh ending reread (beside.spliced filled) (later onward chained loads there)
  | @source path chain _ command _ _ _ _ _ _ _ included fresh ending loaded _ _ inside later =>
    obtain ⟨here, there⟩ := List.append_subset.mp within
    rw [inclusions_included included] at here
    have member := here (List.mem_singleton_self command)
    have other : target path command ≠ page := fun same => fresh (same ▸ onward)
    have reread := (beside.loads_iff (.target chained loads member) other _).mp loaded
    have longer := chained.next ⟨loads, member, rfl, ending, reread⟩ fresh
    have same : twin.adjustment (target path command) command = compiler.adjustment (target path command) command := by
      rw [adjustment, beside.registry, adjustment]
    have deeper := inside (List.mem_append_left _ onward) longer reread (List.Subset.refl _)
    rw [same] at later ⊢
    exact .source included fresh ending reread deeper (later onward chained loads there)

/-- Inclusions of the same file in both succeed together. -/
theorem couples_include (depth : Nat) {chain : List String} {path : String} {nodes : List Node}
    (chained : compiler.Chain page chain path) (onward : page ∈ chain) (loads : compiler.Loads path nodes)
    {command other : Command Node} (member : command ∈ inclusionsOf nodes)
    (same : target path other = target path command)
    (ruled : Path.ext (target path command) ≠ sourceExt → rulesUnspanned other.rules = rulesUnspanned command.rules)
    (extract taken : Bool) (sheet filled : FormulaSheet) :
    Couples (Meet compiler twin) Eq (fun _ _ => True)
      ((compiler.includeFile depth path chain extract command).run sheet)
      ((twin.includeFile depth path chain taken other).run filled) := by
  induction depth generalizing chain path nodes command other extract taken sheet filled with
  | zero => exact couples_throw rfl
  | succ depth ih =>
    rw [includeFile_run, includeFile_run, same]
    split
    · exact couples_throw rfl
    next unchained =>
      have fresh : target path command ∉ chain := by simpa using unchained
      have apart : target path command ≠ page := fun equal => fresh (equal ▸ onward)
      have shared := (Agree.of_eq (beside.content_eq (.target chained loads member) apart).symm).remember.mono
        (fun _ _ => And.left) fun nodes _ both => And.intro both.1 (loads_of_content both.2)
      refine (couples_fetch shared fun _ _ => congrArg (Failure.including _)).bind fun content _ given => ?_
      obtain ⟨rfl, loaded⟩ := given
      unfold place
      rw [same]
      dsimp only
      split
      next ending =>
        have splices := @couples_spliceSame _ _ path beside.registry beside.limit content content _ _ (ruled ending).symm
          rfl fun _ => rfl
        exact splices.bind fun _ _ _ => couples_pure trivial
      next ending =>
        have longer := chained.next ⟨loads, member, rfl, not_not.mp ending, loaded⟩ fresh
        have congruence : Congruence (fun _ _ _ => True) fun _ _ => True := by constructor <;> intros <;> trivial
        have declared : Declared (fun _ _ _ => True) content := loaded.declared fun _ _ _ _ _ => trivial
        have each : ∀ inner ∈ inclusionsOf content, (Node.command inner).Declared (fun _ _ _ => True) →
            ∀ sheet filled : FormulaSheet, True → Couples (Meet compiler twin) Eq (Both (fun _ _ => True) fun _ _ => True)
              ((compiler.nested depth path chain extract command inner).run sheet)
              ((twin.nested depth path chain taken other inner).run filled) := by
          intro inner within _ sheet filled _
          unfold nested
          rw [same]
          exact (ih longer (List.mem_append_left _ onward) loaded within rfl (fun _ => rfl) _ _ sheet filled).mono
            fun _ _ _ => ⟨trivial, trivial⟩
        exact (couples_expandNodes congruence content declared each sheet.successor filled.successor trivial).bind
          fun _ _ _ => couples_pure trivial

theorem exchanges_again {extract : Bool} {file : List Node} (loads : compiler.Loads page file) :
    Exchanges compiler twin page extract file Again fun node other => node.bare = other.bare := by
  rintro _ _ rest others sheet left again after final ⟨command, other, rfl, rfl, included, declared, listed, ruled⟩ within
    expands repeated
  rw [inclusions_included included] at within
  have member := within (List.mem_singleton_self command)
  have reached : compiler.Reached page (target page command) := .target .page loads member
  have same : target page other = target page command := by rw [target, Command.attribute?, listed]; rfl
  by_cases ending : Path.ext (target page command) = sourceExt
  · obtain ⟨_, _, _, _, rfl, fresh, loaded, inside, later⟩ := expands.source_cases included ending
    obtain ⟨_, _, _, _, rfl, _, reloaded, inner, more⟩ := repeated.source_cases (declared ▸ included) (same.symm ▸ ending)
    have apart : target page command ≠ page := by simpa using fresh
    have flagged (name : String) : other.hasAttribute name = command.hasAttribute name := by
      rw [Command.hasAttribute, listed]
      rfl
    have adjusted : twin.adjustment (target page command) other =
        compiler.adjustment (target page command) command := by
      rw [adjustment, adjustment, flagged, flagged, Command.attribute?, listed, beside.registry]
      rfl
    rw [same, beside.loads_iff reached apart] at reloaded
    obtain rfl := loaded.unique reloaded
    rw [same, flagged] at inner more
    rw [adjusted] at more
    have opens := beside.expands inner (List.mem_append_left _ (List.mem_singleton_self _))
      (.next .page ⟨loads, member, rfl, ending, loaded⟩ fresh) loaded (List.Subset.refl _)
    obtain ⟨rfl, rfl⟩ := inside.settled opens
    rw [same, flagged, adjusted]
    exact ⟨_, _, _, _, _, rfl, rfl, rfl, later, more⟩
  · obtain ⟨_, _, _, rfl, fresh, loaded, filled, later⟩ := expands.spliced_cases included ending
    obtain ⟨_, _, _, rfl, _, reloaded, refilled, more⟩ :=
      repeated.spliced_cases (declared ▸ included) (same.symm ▸ ending)
    have apart : target page command ≠ page := by simpa using fresh
    rw [same, beside.loads_iff reached apart] at reloaded
    obtain rfl := loaded.unique reloaded
    have alike := filled.bare_eq beside.registry refilled ruled
    exact ⟨_, _, _, _, _, rfl, rfl, congrArg Node.fragment alike, later, more⟩

/-- A page is expanded to what goes together with what the other page is expanded to, if it does where nodes are
swapped. Arguments of tags are not expanded, so what is swapped there has to go together as it is. -/
theorem expands_parallel {extract : Bool} {file : List Node} (loads : compiler.Loads page file)
    {swap swapped : Node → Node → Prop} (exchanges : Exchanges compiler twin page extract file swap swapped)
    {enters : Option Declaration → Bool} (still : enters none = true → ∀ node other, swap node other → swapped node other)
    {here : Bool} {nodes others : List Node} (parallel : Parallel (Before swap) enters here nodes others)
    (within : inclusionsOf nodes ⊆ inclusionsOf file) {sheet after final : FormulaSheet} {left again : List Node}
    (expands : compiler.Expands page [page] extract nodes sheet left after)
    (repeated : twin.Expands page [page] extract others sheet again final) :
    Parallel (After swapped) enters here left again ∧ final = after := by
  induction parallel generalizing sheet left after again final with
  | nil =>
    cases expands
    cases repeated
    exact ⟨.nil, rfl⟩
  | part given _ ih =>
    obtain ⟨first, later⟩ := List.append_subset.mp within
    rcases given with ⟨plain, same⟩ | ⟨inside, swap⟩
    · obtain ⟨_, rfl, opens⟩ := expands.passed_cases plain
      obtain ⟨_, rfl, reopens⟩ := repeated.passed_cases ((isPassed_congr same).symm.trans plain)
      obtain ⟨parallel, rfl⟩ := ih later opens reopens
      exact ⟨.part (.inl (bare_of_unspanned same)) parallel, rfl⟩
    · obtain ⟨one, two, middle, more, further, rfl, rfl, together, opens, reopens⟩ :=
        exchanges _ _ _ _ _ _ _ _ _ swap first expands repeated
      obtain ⟨parallel, rfl⟩ := ih later opens reopens
      exact ⟨.part (.inr ⟨inside, together⟩) parallel, rfl⟩
  | @command here ident name attributes args inner declaration rules more rest others named ruled _ _ inside ih =>
    obtain ⟨first, later⟩ := List.append_subset.mp within
    by_cases included : Declaration.isInclusion declaration = true
    · have again : Again (.command ⟨ident, attributes, args, declaration, rules⟩)
          (.command ⟨name, attributes, inner, declaration, more⟩) := ⟨_, _, rfl, rfl, included, rfl, rfl, ruled⟩
      obtain ⟨one, two, middle, more, further, rfl, rfl, together, opens, reopens⟩ :=
        beside.exchanges_again loads _ _ _ _ _ _ _ _ _ again first expands repeated
      obtain ⟨parallel, rfl⟩ := ih later opens reopens
      exact ⟨.part (.inl together) parallel, rfl⟩
    · have other := Bool.eq_false_iff.mpr included
      have first : inclusionsOf args ⊆ inclusionsOf file := inclusions_other
        (show Declaration.isInclusion (⟨ident, attributes, args, declaration, rules⟩ : Command Node).declaration = false
          from other) ▸ first
      obtain ⟨_, _, _, rfl, opens, next⟩ := expands.command_cases other
      obtain ⟨_, _, _, rfl, reopens, following⟩ := repeated.command_cases other
      obtain ⟨below, rfl⟩ := inside first opens reopens
      obtain ⟨parallel, rfl⟩ := ih later next following
      exact ⟨.command named ruled below parallel, rfl⟩
  | bracket opened closed _ _ inside ih =>
    obtain ⟨first, later⟩ := List.append_subset.mp within
    obtain ⟨_, _, _, rfl, opens, next⟩ := expands.bracket_cases
    obtain ⟨_, _, _, rfl, reopens, following⟩ := repeated.bracket_cases
    obtain ⟨below, rfl⟩ := inside first opens reopens
    obtain ⟨parallel, rfl⟩ := ih later next following
    exact ⟨.bracket opened closed below parallel, rfl⟩
  | quotation opened closed _ _ inside ih =>
    obtain ⟨first, later⟩ := List.append_subset.mp within
    obtain ⟨_, _, _, rfl, opens, next⟩ := expands.quotation_cases
    obtain ⟨_, _, _, rfl, reopens, following⟩ := repeated.quotation_cases
    obtain ⟨below, rfl⟩ := inside first opens reopens
    obtain ⟨parallel, rfl⟩ := ih later next following
    exact ⟨.quotation opened closed below parallel, rfl⟩
  | fragment _ _ inside ih =>
    obtain ⟨first, later⟩ := List.append_subset.mp within
    obtain ⟨_, _, _, rfl, opens, next⟩ := expands.fragment_cases
    obtain ⟨_, _, _, rfl, reopens, following⟩ := repeated.fragment_cases
    obtain ⟨below, rfl⟩ := inside first opens reopens
    obtain ⟨parallel, rfl⟩ := ih later next following
    exact ⟨.fragment below parallel, rfl⟩
  | tag named chosen ruled below _ _ ih =>
    obtain ⟨_, later⟩ := List.append_subset.mp within
    obtain ⟨_, rfl, next⟩ := expands.passed_cases rfl
    obtain ⟨_, rfl, following⟩ := repeated.passed_cases rfl
    obtain ⟨parallel, rfl⟩ := ih later next following
    refine ⟨.tag named chosen ruled (below.mono fun inner sure node other given => ?_) parallel, rfl⟩
    rcases given with ⟨_, same⟩ | ⟨here, swap⟩
    · exact .inl (bare_of_unspanned same)
    · exact .inr ⟨here, still (Bool.and_eq_true_iff.mp (sure here)).2 _ _ swap⟩

theorem couples_parallel {file : List Node} (loads : compiler.Loads page file) {swap : Node → Node → Prop}
    (alike : Alike page swap) {enters : Option Declaration → Bool} {here : Bool} {nodes others : List Node}
    (parallel : Parallel (Before swap) enters here nodes others) (within : inclusionsOf nodes ⊆ inclusionsOf file)
    (depth : Nat) (extract taken : Bool) (sheet filled : FormulaSheet) :
    Couples (Meet compiler twin) Eq (fun _ _ => True)
      ((expandNodes (compiler.includeFile depth page [page] extract) nodes).run sheet)
      ((expandNodes (twin.includeFile depth page [page] taken) others).run filled) := by
  have onward : page ∈ [page] := List.mem_singleton_self page
  have placed {command other : Command Node} {sheet filled : FormulaSheet}
      (couples : Couples (Meet compiler twin) Eq (fun _ _ => True)
        ((compiler.includeFile depth page [page] extract command).run sheet)
        ((twin.includeFile depth page [page] taken other).run filled))
      (included : Declaration.isInclusion command.declaration = true)
      (again : Declaration.isInclusion other.declaration = true) :
      Couples (Meet compiler twin) Eq (fun _ _ => True)
        ((expandNode (compiler.includeFile depth page [page] extract) (.command command)).run sheet)
        ((expandNode (twin.includeFile depth page [page] taken) (.command other)).run filled) := by
    rw [expandNode_included included, expandNode_included again, StateT.run_bind, StateT.run_bind]
    exact couples.bind fun _ _ _ => couples_pure trivial
  induction parallel generalizing sheet filled with
  | nil => exact couples_pure trivial
  | part given _ ih =>
    obtain ⟨first, later⟩ := List.append_subset.mp within
    refine couples_cons (fun sheet filled => ?_) (ih later) sheet filled
    rcases given with ⟨plain, same⟩ | ⟨_, swapped⟩
    · rw [expandNode_passed plain, expandNode_passed ((isPassed_congr same).symm.trans plain)]
      exact couples_pure trivial
    · obtain ⟨command, other, rfl, rfl, included, again, same, ending⟩ := alike _ _ swapped
      rw [inclusions_included included] at first
      have couples := beside.couples_include depth .page onward loads (first (List.mem_singleton_self command)) same
        (fun source => absurd ending source) extract taken sheet filled
      exact placed couples included again
  | @command _ ident name attributes args inner declaration rules more _ _ _ ruled _ _ inside ih =>
    obtain ⟨first, later⟩ := List.append_subset.mp within
    refine couples_cons (fun sheet filled => ?_) (ih later) sheet filled
    by_cases included : Declaration.isInclusion declaration = true
    · rw [inclusions_included included] at first
      have couples := @couples_include _ _ _ beside depth _ _ _ .page onward loads
        ⟨ident, attributes, args, declaration, rules⟩ ⟨name, attributes, inner, declaration, more⟩
        (first (List.mem_singleton_self _)) rfl (fun _ => ruled) extract taken sheet filled
      exact placed couples included included
    · have other : Declaration.isInclusion (⟨ident, attributes, args, declaration, rules⟩ : Command Node).declaration =
        false := Bool.eq_false_iff.mpr included
      rw [inclusions_other other] at first
      rw [expandNode_other other, expandNode_other (by exact other), StateT.run_bind, StateT.run_bind]
      exact (inside first sheet filled).bind fun _ _ _ => couples_pure trivial
  | bracket _ _ _ _ inside ih | quotation _ _ _ _ inside ih | fragment _ _ inside ih =>
    obtain ⟨first, later⟩ := List.append_subset.mp within
    refine couples_cons (fun sheet filled => ?_) (ih later) sheet filled
    simp only [expandNode, StateT.run_bind]
    exact (inside first sheet filled).bind fun _ _ _ => couples_pure trivial
  | tag _ _ _ _ _ _ ih =>
    exact couples_cons (fun _ _ => couples_pure trivial) (ih (List.append_subset.mp within).2) sheet filled

end Beside

/-- Both pages are compiled, or both fail for the same reason. -/
theorem couples_compile {compiler twin : Compiler} {page : String} (beside : compiler.Beside twin (Path.clean page))
    {swap : Node → Node → Prop} (alike : Alike (Path.clean page) swap) {enters : Option Declaration → Bool}
    (content : Agree Eq (Parallel (Before swap) enters true) (compiler.content (Path.clean page))
      (twin.content (Path.clean page))) (extract : Bool) :
    Couples (Meet compiler twin) Eq (fun _ _ => ∃ nodes others, compiler.Loads (Path.clean page) nodes ∧
        twin.Loads (Path.clean page) others ∧ Parallel (Before swap) enters true nodes others)
      (compiler.compileFile page extract) (twin.compileFile page extract) := by
  have both : Agree Eq (fun nodes others => (compiler.Loads (Path.clean page) nodes ∧
      twin.Loads (Path.clean page) others) ∧ Parallel (Before swap) enters true nodes others)
      (compiler.content (Path.clean page)) (twin.content (Path.clean page)) := by
    cases one : compiler.content (Path.clean page) <;> cases two : twin.content (Path.clean page) <;>
      rw [one, two] at content <;> cases content
    case ok.ok.ok parallel => exact .ok ⟨⟨loads_of_content one, loads_of_content two⟩, parallel⟩
    case error.error.error same => exact .error same
  have opened : Couples (Meet compiler twin) Eq (fun _ _ => ∃ nodes others, compiler.Loads (Path.clean page) nodes ∧
        twin.Loads (Path.clean page) others ∧ Parallel (Before swap) enters true nodes others)
      (compiler.load (Path.clean page) >>= fun nodes => compiler.finish (Path.clean page) nodes extract)
      (twin.load (Path.clean page) >>= fun nodes => twin.finish (Path.clean page) nodes extract) := by
    refine (couples_load both).bind fun nodes others given => ?_
    obtain ⟨⟨loads, reloads⟩, parallel⟩ := given
    unfold finish
    rw [beside.limit]
    refine (beside.couples_parallel loads alike parallel (List.Subset.refl _) compiler.limit extract extract {} {}).bind
      fun expanded further _ => ?_
    cases extract <;> exact couples_pure ⟨nodes, others, loads, reloads, parallel⟩
  exact opened.rethrow fun _ _ => congrArg (Failure.compiling _)

end Compiler
end Manuscript
