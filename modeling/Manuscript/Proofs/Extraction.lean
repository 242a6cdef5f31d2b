import Manuscript.Proofs.FormulaAccounts

/-! Formulas of one tree. Extraction goes through a tree from left to right and changes nothing but formulas: those
that are drawn become slots, those in headings that are not drawn leave an empty fragment, and what is inside a formula
is part of its text. The sheet is filled on the way, so its entries stand in the order in which slots first use them.
A tree that comes from resolution has its commands where extraction finds them, and no formula is left in it. -/

namespace Manuscript

open Resolve

namespace Formula

/-- What extraction makes of nodes, with the places of the formulas that it takes out, in order. `keep` is off inside
headings that are not drawn, and `heading` is on inside all. -/
inductive Extracted : (keep heading : Bool) → List Node → List Node → List Place → Prop where
  | nil {keep heading : Bool} : Extracted keep heading [] [] []
  | leaf {keep heading : Bool} {node : Node} {nodes left : List Node} {places : List Place} (plain : isLeaf node = true)
      (later : Extracted keep heading nodes left places) : Extracted keep heading (node :: nodes) (node :: left) places
  | formula {heading : Bool} {ident : Ident} {attributes : Option Attributes} {args : List Node}
      {declaration : Option Declaration} {rules : List (Rule Node)} {spec : MathSpec} {latex id : String} {put : Node}
      {nodes left : List Node} {places : List Place} (math : declaration.bind Declaration.math = some spec)
      (typeset : Typeset spec args latex) (stands : Slot ident.span id spec.block put)
      (later : Extracted true heading nodes left places) :
      Extracted true heading (.command ⟨ident, attributes, args, declaration, rules⟩ :: nodes) (put :: left)
        (⟨spec, latex, heading, id⟩ :: places)
  | dropped {heading : Bool} {ident : Ident} {attributes : Option Attributes} {args : List Node}
      {declaration : Option Declaration} {rules : List (Rule Node)} {spec : MathSpec} {nodes left : List Node}
      {places : List Place} (math : declaration.bind Declaration.math = some spec)
      (later : Extracted false heading nodes left places) :
      Extracted false heading (.command ⟨ident, attributes, args, declaration, rules⟩ :: nodes)
        (.fragment [] :: left) places
  | command {keep heading : Bool} {ident : Ident} {attributes : Option Attributes} {args inner : List Node}
      {declaration : Option Declaration} {rules : List (Rule Node)} {nodes left : List Node} {below places : List Place}
      (plain : declaration.bind Declaration.math = none)
      (inside : Extracted (keep && !(isHeading declaration && Attributes.has (attributes.getD []) "toc-only"))
        (heading || isHeading declaration) args inner below)
      (later : Extracted keep heading nodes left places) :
      Extracted keep heading (.command ⟨ident, attributes, args, declaration, rules⟩ :: nodes)
        (.command ⟨ident, attributes, inner, declaration, rules⟩ :: left) (below ++ places)
  | bracket {keep heading : Bool} {kind : BracketKind} {opening closing : Option Token}
      {children inner nodes left : List Node} {below places : List Place}
      (inside : Extracted keep heading children inner below) (later : Extracted keep heading nodes left places) :
      Extracted keep heading (.bracket ⟨kind, opening, closing, children⟩ :: nodes)
        (.bracket ⟨kind, opening, closing, inner⟩ :: left) (below ++ places)
  | quotation {keep heading : Bool} {opening closing : Option Token} {children inner nodes left : List Node}
      {below places : List Place} (inside : Extracted keep heading children inner below)
      (later : Extracted keep heading nodes left places) :
      Extracted keep heading (.quotation opening closing children :: nodes) (.quotation opening closing inner :: left)
        (below ++ places)
  | fragment {keep heading : Bool} {children inner nodes left : List Node} {below places : List Place}
      (inside : Extracted keep heading children inner below) (later : Extracted keep heading nodes left places) :
      Extracted keep heading (.fragment children :: nodes) (.fragment inner :: left) (below ++ places)
  | tag {keep heading : Bool} {ident : Ident} {options : Option (Block Node)} {attributes : Option Attributes}
      {args inner : List (Block Node)} {rules : List (Rule Node)} {nodes left : List Node} {below places : List Place}
      (inside : Extracted keep heading (args.map .bracket) (inner.map .bracket) below)
      (later : Extracted keep heading nodes left places) :
      Extracted keep heading (.tag ⟨ident, options, attributes, args, rules⟩ :: nodes)
        (.tag ⟨ident, options, attributes, inner, rules⟩ :: left) (below ++ places)

/-- Adding the formulas of these places to a sheet, one after the other, gives them their ids. -/
inductive Filled : FormulaSheet → List Place → FormulaSheet → Prop where
  | nil {sheet : FormulaSheet} : Filled sheet [] sheet
  | cons {sheet middle after : FormulaSheet} {place : Place} {places : List Place}
      (added : sheet.add place.latex place.spec.block (place.spec.unique || place.heading) = (place.id, middle))
      (later : Filled middle places after) : Filled sheet (place :: places) after

namespace Filled

variable {sheet middle after : FormulaSheet} {places more : List Place}

theorem append (first : Filled sheet places middle) (second : Filled middle more after) :
    Filled sheet (places ++ more) after := by
  induction first with
  | nil => exact second
  | cons added _ ih => exact .cons added (ih second)

theorem grows (filled : Filled sheet places after) : sheet.issued ≤ after.issued := by
  induction filled with
  | nil => exact Nat.le_refl _
  | @cons sheet middle after place places added _ ih =>
    have step := (FormulaSheet.Files.add True 0 sheet place.spec place.latex place.heading []).grows
    rw [added] at step
    exact step.trans ih

end Filled

/-- Extraction gives what is `Extracted` and fills the sheet with its places. -/
def Extracts (keep heading : Bool) (nodes left : List Node) (sheet after : FormulaSheet) : Prop :=
  ∃ places, Extracted keep heading nodes left places ∧ Filled sheet places after

/-- What is below a node is extracted before what follows it, and its places come first. -/
theorem Extracts.around {keep heading deeper headed : Bool} {nodes left children inner whole result : List Node}
    {sheet middle after : FormulaSheet} (below : Extracts deeper headed children inner sheet middle)
    (later : Extracts keep heading nodes left middle after)
    (rule : ∀ {first second : List Place}, Extracted deeper headed children inner first →
      Extracted keep heading nodes left second → Extracted keep heading whole result (first ++ second)) :
    Extracts keep heading whole result sheet after := by
  obtain ⟨first, inside, filled⟩ := below
  obtain ⟨second, follows, further⟩ := later
  exact ⟨first ++ second, rule inside follows, filled.append further⟩

mutual

theorem extractNode_extracts (keep heading : Bool) (node : Node) {nodes left : List Node} {sheet after : FormulaSheet}
    (later : Extracts keep heading nodes left ((extractNode keep heading node).run sheet).2 after) :
    Extracts keep heading (node :: nodes) (((extractNode keep heading node).run sheet).1 :: left) sheet after := by
  match node with
  | .command ⟨ident, attributes, args, declaration, rules⟩ =>
    cases math : declaration.bind Declaration.math with
    | some spec =>
      rw [extractNode, math] at later ⊢
      obtain ⟨places, extracted, filled⟩ := later
      cases keep with
      | true => exact ⟨_, .formula math (typeset_iff.mpr rfl) (slot_iff.mpr rfl) extracted, .cons rfl filled⟩
      | false => exact ⟨_, .dropped math extracted, filled⟩
    | none =>
      rw [extractNode_plain keep heading ident attributes args rules math] at later ⊢
      exact (extractNodes_extracts _ _ args sheet).around later (.command math)
  | .bracket ⟨kind, opening, closing, children⟩ =>
    exact (extractNodes_extracts keep heading children sheet).around later .bracket
  | .quotation opening closing children =>
    exact (extractNodes_extracts keep heading children sheet).around later .quotation
  | .fragment children => exact (extractNodes_extracts keep heading children sheet).around later .fragment
  | .tag ⟨ident, options, attributes, args, rules⟩ =>
    exact (extractBlocks_extracts keep heading args sheet).around later .tag
  | .hole | .text _ _ | .symbol _ _ | .ident _ | .stray _ | .drawing _ =>
    obtain ⟨places, extracted, filled⟩ := later
    exact ⟨places, .leaf rfl extracted, filled⟩
termination_by structural node

theorem extractNodes_extracts (keep heading : Bool) (nodes : List Node) (sheet : FormulaSheet) :
    Extracts keep heading nodes ((extractNodes keep heading nodes).run sheet).1 sheet
      ((extractNodes keep heading nodes).run sheet).2 := by
  match nodes with
  | [] => exact ⟨[], .nil, .nil⟩
  | node :: rest => exact extractNode_extracts keep heading node (extractNodes_extracts keep heading rest _)
termination_by structural nodes

theorem extractBlocks_extracts (keep heading : Bool) (blocks : List (Block Node)) (sheet : FormulaSheet) :
    Extracts keep heading (blocks.map .bracket) (((extractBlocks keep heading blocks).run sheet).1.map .bracket) sheet
      ((extractBlocks keep heading blocks).run sheet).2 := by
  match blocks with
  | [] => exact ⟨[], .nil, .nil⟩
  | ⟨kind, opening, closing, children⟩ :: rest =>
    exact (extractNodes_extracts keep heading children sheet).around
      (extractBlocks_extracts keep heading rest ((extractNodes keep heading children).run sheet).2) .bracket
termination_by structural blocks

end

namespace Filled

variable {sheet after : FormulaSheet} {first : Nat} {places others : List Place}

/-- A formula that is added has an entry before it or gets the next one. -/
theorem add_ids (accounts : sheet.Accounts True first others) (spec : MathSpec) (latex : String) (heading : Bool)
    (room : (sheet.add latex spec.block (spec.unique || heading)).2.issued < 16 ^ 12)
    (listed : sheet.ids = (others.map Place.id).eraseDups) :
    (sheet.add latex spec.block (spec.unique || heading)).2.ids =
      (others.map Place.id ++ [(sheet.add latex spec.block (spec.unique || heading)).1]).eraseDups := by
  have known : ∀ id, id ∈ others.map Place.id ↔ id ∈ sheet.ids := fun id => by rw [listed, List.mem_eraseDups]
  rw [eraseDups_concat, ← listed]
  unfold FormulaSheet.add at room ⊢
  split at room
  next entry found =>
    have shared : sheet.shared? latex spec.block = some entry := by
      split at found
      · cases found
      · exact found
    have old : entry.id ∈ others.map Place.id :=
      (known _).mpr (List.mem_map_of_mem (List.mem_of_find?_eq_some shared))
    rw [if_pos old]
  next =>
    have new : FormulaSheet.idOf (sheet.issued + 1) ∉ others.map Place.id :=
      fun member => accounts.fresh room ((known _).mp member)
    rw [if_neg new]
    simp [FormulaSheet.ids]

/-- What a sheet accounts for and how it is ordered is kept while it is filled. -/
theorem accounted (filled : Filled sheet places after) (room : after.issued < 16 ^ 12)
    (accounts : sheet.Accounts True first others) (listed : sheet.ids = (others.map Place.id).eraseDups) :
    after.Accounts True first (others ++ places) ∧ after.ids = ((others ++ places).map Place.id).eraseDups := by
  induction filled generalizing others with
  | nil =>
    rw [List.append_nil]
    exact ⟨accounts, listed⟩
  | @cons sheet middle after place places added later ih =>
    have id := congrArg Prod.fst added
    have next := congrArg Prod.snd added
    have space : (sheet.add place.latex place.spec.block (place.spec.unique || place.heading)).2.issued < 16 ^ 12 :=
      next ▸ later.grows.trans_lt room
    have more := accounts.add place.spec place.latex place.heading space
    have ids := add_ids accounts place.spec place.latex place.heading space listed
    rw [id, next] at more ids
    have swapped := more.mono (List.perm_append_singleton place others).subperm
    have both := ih room swapped (ids.trans (by rw [List.map_append]; rfl))
    rwa [List.append_assoc] at both

end Filled

/-- No command of a formula is left. -/
def Bare (_ : Ident) (_ : Option Attributes) (declaration : Option Declaration) : Prop :=
  declaration.bind Declaration.math = none

/-- Wherever formulas are taken out of nodes, none is left. -/
def Clears (nodes : List Node) : Prop :=
  ∀ keep heading sheet, Declared Bare ((extractNodes keep heading nodes).run sheet).1

theorem Clears.cons {node : Node} {nodes : List Node} (first : Clears [node]) (rest : Clears nodes) :
    Clears (node :: nodes) :=
  fun keep heading sheet => ⟨(first keep heading sheet).1, rest keep heading _⟩

theorem clears_of_each {nodes : List Node} (each : ∀ node ∈ nodes, Clears [node]) : Clears nodes := by
  induction nodes with
  | nil => exact fun _ _ _ => trivial
  | cons node rest ih =>
    exact (each node (List.mem_cons_self ..)).cons (ih fun other member => each other (List.mem_cons_of_mem _ member))

/-- What a scan leaves of nodes that are not resolved yet: such a node, or a command made of such nodes. -/
inductive Scanned : Node → Prop where
  | kept {node : Node} (unresolved : node.Unresolved fun _ => True) : Scanned node
  | made {ident : Ident} {attributes : Option Attributes} {args : List Node} {declaration : Option Declaration}
      {rules : List (Rule Node)} (inside : Unresolved (fun _ => True) args)
      (targets : RulesUnresolved (fun _ => True) rules) :
      Scanned (.command ⟨ident, attributes, args, declaration, rules⟩)

theorem convert_scanned {args : List (Block Node)} (inside : Unresolved (fun _ => True) (args.map .bracket))
    (declaration : Declaration) (converter : Converter) (ident : Ident) (attributes : Option Attributes)
    (scope : Scope) : Scanned (convert declaration converter ident attributes args scope) := by
  cases converter with
  | command => exact .made inside trivial
  | fragment | block => exact .kept inside
  | name | scope => exact .kept trivial

theorem applyRules_scanned {rules : List (Rule Node)}
    (targets : ∀ rule ∈ rules, Unresolved (fun _ => True) rule.target) (deferred : Bool) {node : Node}
    (scanned : Scanned node) : Scanned (applyRules rules deferred node) := by
  cases scanned with
  | made inside ruled =>
    cases deferred with
    | true =>
      refine .made inside (rulesUnresolved_iff.mpr ?_)
      exact List.forall_mem_append.mpr ⟨rulesUnresolved_iff.mp ruled, targets⟩
    | false => exact .made (substituteFrom_unresolved targets _ 0 inside) ruled
  | kept unresolved =>
    cases node with
    | command command => exact unresolved.elim
    | fragment children =>
      cases deferred with
      | true => exact .kept unresolved
      | false => exact .kept (substituteFrom_unresolved targets children 0 unresolved)
    | bracket block =>
      obtain ⟨kind, opening, closing, children⟩ := block
      cases deferred with
      | true => exact .kept unresolved
      | false => exact .kept (substituteFrom_unresolved targets children 0 unresolved)
    | _ => exact .kept unresolved

theorem scanned_of_left {scope : Scope} {nodes : List Node} {node : Node} (left : Left scope nodes node)
    (unresolved : Unresolved (fun _ => True) nodes) : Scanned node := by
  cases left with
  | kept member => exact .kept (unresolved_iff.mp unresolved node member)
  | @made _ _ _ head suffix heads invocation member =>
    have here := unresolved.sublist suffix.sublist
    have inside := invocation.args_unresolved heads here
    rw [invocation.left] at member
    rcases List.mem_cons.mp member with rfl | member
    · have made := convert_scanned inside invocation.declaration invocation.converter head.ident invocation.attributes
        scope
      split
      · exact made
      · exact applyRules_scanned (invocation.rules_unresolved heads here).2 _ made
    · obtain ⟨block, behind, rfl⟩ := List.mem_map.mp member
      exact .kept (invocation.attached_unresolved heads here block (List.mem_of_mem_drop behind))

theorem command_clears {args : List Node} (inside : Clears args) {rules : List (Rule Node)}
    (targets : RulesUnresolved (fun _ => True) rules) (ident : Ident) (attributes : Option Attributes)
    (declaration : Option Declaration) : Clears [.command ⟨ident, attributes, args, declaration, rules⟩] := by
  intro keep heading sheet
  refine ⟨?_, trivial⟩
  change ((extractNode keep heading (.command ⟨ident, attributes, args, declaration, rules⟩)).run sheet).1.Declared Bare
  cases math : declaration.bind Declaration.math with
  | some spec =>
    rw [extractNode, math]
    cases keep with
    | true => exact ⟨rfl, trivial, trivial⟩
    | false => exact trivial
  | none =>
    rw [extractNode_plain keep heading ident attributes args rules math]
    exact ⟨math, inside _ _ sheet, rulesDeclared_of_unresolved rules targets⟩

theorem tag_clears {args : List (Block Node)} (inside : ∀ block ∈ args, Clears block.children)
    {options : Option (Block Node)} (optional : OptionsUnresolved (fun _ => True) options) {rules : List (Rule Node)}
    (targets : RulesUnresolved (fun _ => True) rules) (ident : Ident) (attributes : Option Attributes) :
    Clears [.tag ⟨ident, options, attributes, args, rules⟩] := by
  have blocks : Clears (args.map .bracket) := by
    refine clears_of_each (List.forall_mem_map.mpr fun block member keep heading sheet => ?_)
    exact ⟨inside block member keep heading sheet, trivial⟩
  intro keep heading sheet
  have left := blocks keep heading sheet
  rw [extractBlocks_brackets] at left
  have made := blocksDeclared_iff.mpr (declared_brackets.mp left)
  exact ⟨⟨optional, made, rulesDeclared_of_unresolved rules targets⟩, trivial⟩

/-- Resolution of what is below a node leaves no command where extraction does not find it. -/
theorem descend_clears {inner : Scope → List Node → Option (List Node × List ResolveEvent)}
    (clears : ∀ scope nodes result events, inner scope nodes = some (result, events) →
      Unresolved (fun _ => True) nodes → Clears result) {scope : Scope} {node made : Node} {events : List ResolveEvent}
    (found : descend inner scope node = some (made, events)) (scanned : Scanned node) : Clears [made] := by
  cases scanned with
  | made inside targets =>
    simp only [descend, Option.bind_eq_bind, Option.bind_eq_some_iff] at found
    obtain ⟨⟨left, reports⟩, entered, result⟩ := found
    cases result
    exact command_clears (clears _ _ _ _ entered inside) targets _ _ _
  | kept unresolved =>
    cases node with
    | command command => exact unresolved.elim
    | bracket block =>
      simp only [descend, Option.bind_eq_bind, Option.bind_eq_some_iff] at found
      obtain ⟨⟨left, reports⟩, entered, result⟩ := found
      cases result
      have inside := clears _ _ _ _ entered (blockUnresolved_iff.mp unresolved)
      exact fun keep heading sheet => ⟨inside keep heading sheet, trivial⟩
    | quotation opening closing children | fragment children =>
      simp only [descend, Option.bind_eq_bind, Option.bind_eq_some_iff] at found
      obtain ⟨⟨left, reports⟩, entered, result⟩ := found
      cases result
      have inside := clears _ _ _ _ entered unresolved
      exact fun keep heading sheet => ⟨inside keep heading sheet, trivial⟩
    | tag tag =>
      obtain ⟨ident, options, attributes, args, rules⟩ := tag
      simp only [descend, Option.bind_eq_bind, Option.bind_eq_some_iff] at found
      obtain ⟨⟨blocks, reports⟩, entered, result⟩ := found
      cases result
      obtain ⟨_, optional, before, _, targets⟩ := unresolved
      refine tag_clears (fun block member => ?_) optional targets ident attributes
      obtain ⟨original, listed, _, resolved⟩ := (forall₂_members (gather_forall₂ entered)).1 block member
      obtain ⟨⟨left, _⟩, reached, same⟩ := Option.map_eq_some_iff.mp resolved
      cases same
      exact clears _ _ _ _ reached (blockUnresolved_iff.mp (blocksUnresolved_iff.mp before original listed))
    | _ =>
      cases found
      exact fun _ _ _ => ⟨trivial, trivial⟩

theorem resolve_clears {registry : Registry} (depth : Nat) (scope : Scope) (nodes result : List Node)
    (events : List ResolveEvent) (found : resolve registry depth scope nodes = some (result, events))
    (unresolved : Unresolved (fun _ => True) nodes) : Clears result := by
  induction depth generalizing scope nodes result events with
  | zero => cases found
  | succ depth ih =>
    obtain ⟨less, same, each⟩ := resolve_each found
    obtain rfl := Nat.succ.inj same
    refine clears_of_each fun made member => ?_
    obtain ⟨node, inside, events, descended⟩ := (forall₂_members each).1 made member
    exact descend_clears ih descended (scanned_of_left (scan_left registry scope 0 nodes node inside) unresolved)

/-- No formula is left in a resolved tree. Formulas that are drawn become slots, each with an entry of its own text and
mode. Two share their id if both may and are the same, and neither is in a heading. Entries stand in the order in which
slots first use them. -/
theorem extraction_accounts {registry : Registry} {depth first : Nat} {scope : Scope} {nodes tree left : List Node}
    {events : List ResolveEvent} {after : FormulaSheet} (unresolved : Unresolved (fun _ => True) nodes)
    (resolved : resolve registry depth scope nodes = some (tree, events))
    (taken : (extractFormulas tree).run { issued := first } = (left, after)) (room : after.issued < 16 ^ 12) :
    Declared Bare left ∧ after.ids.Nodup ∧ ∃ places, Extracted true false tree left places ∧
      (∀ place ∈ places, ∃ entry ∈ after.entries,
        entry.id = place.id ∧ entry.latex = place.latex ∧ entry.block = place.spec.block) ∧
      (places.Pairwise fun one other =>
        one.id = other.id ↔ one.Alike other ∧ one.heading = false ∧ other.heading = false) ∧
      after.ids = (places.map Place.id).eraseDups := by
  have same : ((extractNodes true false tree).run { issued := first }) = (left, after) := taken
  have cleared := resolve_clears depth scope nodes tree events resolved unresolved true false { issued := first }
  obtain ⟨places, extracted, filled⟩ := extractNodes_extracts true false tree { issued := first }
  rw [same] at cleared extracted filled
  have empty : FormulaSheet.Accounts True first { issued := first } [] :=
    ⟨rfl, rfl, fun _ none => (List.not_mem_nil none).elim, fun _ none => (List.not_mem_nil none).elim, fun _ => .nil⟩
  obtain ⟨accounts, listed⟩ := filled.accounted room empty rfl
  refine ⟨cleared, accounts.nodup room, places, extracted, fun place member => ?_, ?_, listed⟩
  · obtain ⟨entry, inside, entered⟩ := accounts.entered place member
    exact ⟨entry, inside, entered.id, entered.latex, entered.block⟩
  · exact (accounts.shared room).imp fun both => both.2 trivial

namespace Sample

/-- A formula in a heading, one that is used twice, two that are never shared, and one that is not drawn. -/
def mixed : String :=
  "\\h1\x7b\\\x7bx\x7d\x7d \\\x7bx\x7d \\\x7bx\x7d \\math\x7bx\x7d " ++
    "\\h2[toc-only]\x7ba \\\x7by\x7d\x7d\n\\equation\x7bE\x7d"

/-- What is listed for them, in this order. -/
def mixedEntries : List Formula :=
  [⟨FormulaSheet.idOf 1, "x", false, true⟩, ⟨FormulaSheet.idOf 2, "x", false, false⟩,
    ⟨FormulaSheet.idOf 3, "x", false, true⟩,
    ⟨FormulaSheet.idOf 4, "\\begin\x7bequation\x7dE\\end\x7bequation\x7d", true, true⟩]

end Sample

theorem extraction_accounts_mixed : ∃ tree events left after,
    resolve Builtin.registry 6 (.top "doc.ss") (normalize (Parse.ofString Sample.mixed)) = some (tree, events) ∧
    (extractFormulas tree).run {} = (left, after) ∧
    after.entries = Sample.mixedEntries ∧ placeholders left = [1, 2, 2, 3, 4].map FormulaSheet.idOf ∧
    Declared Bare left ∧ ∃ places, Extracted true false tree left places ∧
      (∀ place ∈ places, ∃ entry ∈ after.entries,
        entry.id = place.id ∧ entry.latex = place.latex ∧ entry.block = place.spec.block) ∧
      (places.Pairwise fun one other =>
        one.id = other.id ↔ one.Alike other ∧ one.heading = false ∧ other.heading = false) ∧
      after.ids = (places.map Place.id).eraseDups := by
  have succeeds : (resolve Builtin.registry 6 (.top "doc.ss") (normalize (Parse.ofString Sample.mixed))).map
      (fun found =>
        let taken := (extractFormulas found.1).run {}
        (taken.2.issued, taken.2.entries, placeholders taken.1)) =
        some (4, Sample.mixedEntries, [1, 2, 2, 3, 4].map FormulaSheet.idOf) := by
    decide +kernel
  obtain ⟨⟨tree, events⟩, resolved, seen⟩ := Option.map_eq_some_iff.mp succeeds
  obtain ⟨issued, rest⟩ := Prod.mk.inj seen
  obtain ⟨entries, slots⟩ := Prod.mk.inj rest
  have unresolved : Unresolved (fun _ => True) (normalize (Parse.ofString Sample.mixed)) :=
    normalize_ofBytes_unresolved _ fun _ _ => trivial
  have room : ((extractFormulas tree).run {}).2.issued < 16 ^ 12 := by
    rw [issued]
    decide
  have taken : (extractFormulas tree).run { issued := 0 } = ((extractFormulas tree).run {}) := rfl
  obtain ⟨bare, _, places, extracted, entered, shared, order⟩ := extraction_accounts unresolved resolved taken room
  exact ⟨tree, events, _, _, resolved, rfl, entries, slots, bare, places, extracted, entered, shared, order⟩

end Formula
end Manuscript
