import Manuscript.Proofs.Assembly

/-! The commands of a page that was compiled with the builtin registry. Adjusting and collecting headings leaves the
commands of this registry, and taking formulas out leaves slots besides. -/

namespace Manuscript

namespace Builtin

/-- A command as resolution leaves it. -/
def Written (ident : Ident) (attributes : Option Attributes) (declaration : Option Declaration) : Prop :=
  ∃ known ∈ registry.lookup ident.name, declaration = some known ∧
    (known.ignoresAttributes = true ∨ known.admitsAttributes (attributes.getD []) = true)

/-- A command as it may stand in a page: one that has its name from its declaration or, where `slots` says that there
may be some, a slot. -/
def Known (slots : Bool) (ident : Ident) (_ : Option Attributes) (declaration : Option Declaration) : Prop :=
  (slots = true ∧ declaration = some formulaSlot) ∨ ∃ known ∈ registry.lookup ident.name, declaration = some known

theorem makes_written : registry.Makes Written := by
  intro ident attributes declaration listed valid
  exact ⟨declaration, listed, rfl, valid.imp_left And.left⟩

theorem makes_known (slots : Bool) : registry.Makes (Known slots) := by
  intro ident attributes declaration listed _
  exact .inr ⟨declaration, listed, rfl⟩

theorem mem_lookup {name : String} {declaration : Declaration} :
    declaration ∈ registry.lookup name ↔ declaration ∈ registry.declarations ∧ declaration.name = name := by
  simp [Registry.lookup]

/-- What a declaration is for can be told from how it is lowered. -/
theorem lowering_tells : ∀ declaration ∈ registry.declarations,
    (declaration.html = .heading ↔ 0 < declaration.heading) ∧
    (declaration.html = .formula ↔ declaration.math.isSome = true) ∧ declaration.html ≠ .slot := by
  decide +kernel

theorem heading_name : ∀ declaration ∈ registry.declarations, 0 < declaration.heading →
    declaration.name = "\\h" ++ toString declaration.heading ∧ declaration.heading ≤ 6 := by
  decide +kernel

theorem first_heading {level : Nat} (least : 1 ≤ level) (most : level ≤ 6) :
    ∃ declaration, registry.first? ("\\h" ++ toString level) = some declaration ∧ declaration.heading = level := by
  have all : ∀ level ∈ [1, 2, 3, 4, 5, 6],
      (registry.first? ("\\h" ++ toString level)).map Declaration.heading = some level := by
    decide +kernel
  have listed : level ∈ [1, 2, 3, 4, 5, 6] := by
    simp only [List.mem_cons, List.not_mem_nil, or_false]
    omega
  exact Option.map_eq_some_iff.mp (all level listed)

theorem Known.loosen {slots : Bool} {ident : Ident} {attributes : Option Attributes} {declaration : Option Declaration}
    (known : Known false ident attributes declaration) : Known slots ident attributes declaration := by
  rcases known with ⟨impossible, _⟩ | known
  · cases impossible
  · exact .inr known

theorem Known.heading {slots : Bool} {ident : Ident} {attributes : Option Attributes} {declaration : Option Declaration}
    (known : Known slots ident attributes declaration) (heads : Formula.isHeading declaration = true) :
    ∃ heading ∈ registry.lookup ident.name, declaration = some heading ∧ 0 < heading.heading := by
  rcases known with ⟨_, rfl⟩ | ⟨heading, listed, rfl⟩
  · cases heads
  · exact ⟨heading, listed, rfl, by simpa [Formula.isHeading] using heads⟩

/-- A heading holds no formula itself. -/
theorem Known.math {slots : Bool} {ident : Ident} {attributes : Option Attributes} {declaration : Option Declaration}
    (known : Known slots ident attributes declaration) (heads : Formula.isHeading declaration = true) :
    declaration.bind Declaration.math = none := by
  obtain ⟨heading, listed, rfl, level⟩ := known.heading heads
  obtain ⟨headed, formula, _⟩ := lowering_tells heading (mem_lookup.mp listed).1
  cases math : heading.math with
  | none => exact math
  | some spec =>
    have lowered := formula.mpr (by rw [math]; rfl)
    rw [headed.mpr level] at lowered
    cases lowered

end Builtin

namespace Outline

open Builtin

theorem shifted_known {adjustment : Adjustment} (standard : adjustment.registry = registry)
    {declaration heading : Declaration} (found : shifted adjustment declaration = some heading) :
    heading ∈ registry.lookup heading.name ∧
      registry.first? ("\\h" ++ toString (min (declaration.heading + adjustment.shift) 6)) = some heading := by
  unfold shifted at found
  split at found
  · cases found
  · rw [standard] at found
    exact ⟨mem_lookup.mpr ⟨List.mem_of_find?_eq_some found, rfl⟩, found⟩

mutual

theorem adjustNode_known {slots : Bool} {adjustment : Adjustment} (standard : adjustment.registry = registry)
    (node : Node) (known : node.Declared (Known slots)) : (adjustNode adjustment node).Declared (Known slots) := by
  match node with
  | .command ⟨ident, attributes, args, declaration, rules⟩ =>
    obtain ⟨own, inside, ruled⟩ := known
    have below := adjust_known standard args inside
    unfold adjustNode
    split
    next heading =>
      split
      · unfold adjustHeading
        dsimp only
        split
        next found => exact ⟨.inr ⟨_, (shifted_known standard found).1, rfl⟩, inside, ruled⟩
        next => exact ⟨own, inside, ruled⟩
      · exact ⟨own, below, ruled⟩
    next => exact ⟨own, below, ruled⟩
  | .bracket ⟨_, _, _, children⟩ => exact adjust_known standard children known
  | .quotation _ _ children => exact adjust_known standard children known
  | .fragment children => exact adjust_known standard children known
  | .hole | .text _ _ | .symbol _ _ | .ident _ | .stray _ | .drawing _ | .tag _ => exact known
termination_by structural node

theorem adjust_known {slots : Bool} {adjustment : Adjustment} (standard : adjustment.registry = registry)
    (nodes : List Node) (known : Declared (Known slots) nodes) : Declared (Known slots) (adjust adjustment nodes) := by
  match nodes with
  | [] => trivial
  | node :: rest => exact ⟨adjustNode_known standard node known.1, adjust_known standard rest known.2⟩
termination_by structural nodes

end

mutual

def visibleNode (taken : Bool) : Node → List (Command Node)
  | .command ⟨ident, attributes, args, declaration, rules⟩ =>
    if taken && (declaration.bind Declaration.math).isSome then []
    else if Formula.isHeading declaration then [⟨ident, attributes, args, declaration, rules⟩]
    else visible taken args
  | .bracket ⟨_, _, _, children⟩ => visible taken children
  | .quotation _ _ children => visible taken children
  | .fragment children => visible taken children
  | _ => []
termination_by structural node => node

/-- The headings of a document in order, without those in formulas if these are taken out. -/
def visible (taken : Bool) : List Node → List (Command Node)
  | [] => []
  | node :: rest => visibleNode taken node ++ visible taken rest
termination_by structural nodes => nodes

end

mutual

theorem visibleNode_false (node : Node) : visibleNode false node = collectNode node := by
  match node with
  | .command ⟨ident, attributes, args, declaration, rules⟩ =>
    simp only [visibleNode, collectNode, Bool.false_and, Bool.false_eq_true, if_false, visible_false args]
  | .bracket ⟨_, _, _, children⟩ => exact visible_false children
  | .quotation _ _ children => exact visible_false children
  | .fragment children => exact visible_false children
  | .hole | .text _ _ | .symbol _ _ | .ident _ | .stray _ | .drawing _ | .tag _ => rfl
termination_by structural node

theorem visible_false (nodes : List Node) : visible false nodes = collect nodes := by
  match nodes with
  | [] => rfl
  | node :: rest => rw [visible, collect, visibleNode_false node, visible_false rest]
termination_by structural nodes

end

mutual

theorem visibleNode_declared {good : Ident → Option Attributes → Option Declaration → Prop} (taken : Bool) (node : Node)
    (declared : node.Declared good) :
    ∀ command ∈ visibleNode taken node, Formula.isHeading command.declaration = true ∧
      (Node.command command).Declared good := by
  match node with
  | .command ⟨ident, attributes, args, declaration, rules⟩ =>
    unfold visibleNode
    split
    · simp
    · split
      next heads => exact List.forall_mem_singleton.mpr ⟨heads, declared⟩
      next => exact visible_declared taken args declared.2.1
  | .bracket ⟨_, _, _, children⟩ => exact visible_declared taken children declared
  | .quotation _ _ children => exact visible_declared taken children declared
  | .fragment children => exact visible_declared taken children declared
  | .hole | .text _ _ | .symbol _ _ | .ident _ | .stray _ | .drawing _ | .tag _ => simp [visibleNode]
termination_by structural node

theorem visible_declared {good : Ident → Option Attributes → Option Declaration → Prop} (taken : Bool)
    (nodes : List Node) (declared : Declared good nodes) :
    ∀ command ∈ visible taken nodes, Formula.isHeading command.declaration = true ∧
      (Node.command command).Declared good := by
  match nodes with
  | [] => simp [visible]
  | node :: rest =>
    rw [visible]
    exact List.forall_mem_append.mpr ⟨visibleNode_declared taken node declared.1, visible_declared taken rest declared.2⟩
termination_by structural nodes

end

end Outline

namespace Formula

open Builtin

/-- Whether formulas are taken out of the arguments of a command rather than dropped. -/
def keeps (keep : Bool) (attributes : Option Attributes) (declaration : Option Declaration) : Bool :=
  keep && !(isHeading declaration && Attributes.has (attributes.getD []) "toc-only")

theorem extractNode_plain (keep inHeading : Bool) (ident : Ident) (attributes : Option Attributes) (args : List Node)
    {declaration : Option Declaration} (rules : List (Rule Node)) (plain : declaration.bind Declaration.math = none)
    (sheet : FormulaSheet) :
    (extractNode keep inHeading (.command ⟨ident, attributes, args, declaration, rules⟩)).run sheet =
      let inner := (extractNodes (keeps keep attributes declaration) (inHeading || isHeading declaration) args).run sheet
      (.command ⟨ident, attributes, inner.1, declaration, rules⟩, inner.2) := by
  rw [extractNode, plain]
  rfl

mutual

theorem extractNode_known (keep inHeading : Bool) (node : Node) (known : node.Declared (Known true))
    (sheet : FormulaSheet) : ((extractNode keep inHeading node).run sheet).1.Declared (Known true) := by
  match node with
  | .command ⟨ident, attributes, args, declaration, rules⟩ =>
    obtain ⟨own, inside, ruled⟩ := known
    unfold extractNode
    split
    · split
      · exact ⟨.inl ⟨rfl, rfl⟩, trivial, trivial⟩
      · trivial
    · exact ⟨own, extractNodes_known _ _ args inside sheet, ruled⟩
  | .bracket ⟨_, _, _, children⟩ => exact extractNodes_known keep inHeading children known sheet
  | .quotation _ _ children => exact extractNodes_known keep inHeading children known sheet
  | .fragment children => exact extractNodes_known keep inHeading children known sheet
  | .tag ⟨ident, options, attributes, args, rules⟩ =>
    obtain ⟨optional, blocks, ruled⟩ := known
    exact ⟨optional, extractBlocks_known keep inHeading args blocks sheet, ruled⟩
  | .hole | .text _ _ | .symbol _ _ | .ident _ | .stray _ | .drawing _ => trivial
termination_by structural node

theorem extractNodes_known (keep inHeading : Bool) (nodes : List Node) (known : Declared (Known true) nodes)
    (sheet : FormulaSheet) : Declared (Known true) ((extractNodes keep inHeading nodes).run sheet).1 := by
  match nodes with
  | [] => trivial
  | node :: rest =>
    exact ⟨extractNode_known keep inHeading node known.1 sheet, extractNodes_known keep inHeading rest known.2 _⟩
termination_by structural nodes

theorem extractBlocks_known (keep inHeading : Bool) (blocks : List (Block Node))
    (known : BlocksDeclared (Known true) blocks) (sheet : FormulaSheet) :
    BlocksDeclared (Known true) ((extractBlocks keep inHeading blocks).run sheet).1 := by
  match blocks with
  | [] => trivial
  | ⟨kind, opening, closing, children⟩ :: rest =>
    exact ⟨extractNodes_known keep inHeading children known.1 sheet, extractBlocks_known keep inHeading rest known.2 _⟩
termination_by structural blocks

end

end Formula

namespace Compiler

open Builtin

variable {compiler : Compiler} {path : String} {chain : List String} {extract : Bool}

theorem conclude_known {adjustment : Outline.Adjustment} (standard : adjustment.registry = Builtin.registry)
    (extract : Bool) (sheet : FormulaSheet) {expanded : List Node × FormulaSheet}
    (known : Declared (Known (extract && !adjustment.tocOnly)) expanded.1) :
    Declared (Known extract) (conclude adjustment (extract && !adjustment.tocOnly) sheet expanded).1 := by
  have adjusted := Outline.adjust_known standard expanded.1 known
  unfold conclude
  dsimp only
  split
  next only =>
    rw [only, Bool.not_true, Bool.and_false] at adjusted
    rw [← Outline.visible_false, declared_iff, List.forall_mem_map]
    intro command member
    exact Node.Declared.mono (fun _ _ _ => Known.loosen) _ (Outline.visible_declared false _ adjusted command member).2
  next drawn =>
    rw [Bool.not_eq_true] at drawn
    rw [drawn, Bool.not_false, Bool.and_true] at adjusted ⊢
    split
    next taken =>
      rw [taken] at adjusted ⊢
      exact Formula.extractNodes_known true false _ adjusted expanded.2
    next => exact adjusted

/-- Expansion keeps the commands of a page known, and leaves no slots unless formulas are taken out. -/
theorem Expands.known (standard : compiler.registry = Builtin.registry) {nodes left : List Node}
    {sheet after : FormulaSheet} (expands : compiler.Expands path chain extract nodes sheet left after)
    (known : Declared (Known extract) nodes) : Declared (Known extract) left := by
  have makes (slots : Bool) : compiler.registry.Makes (Known slots) := standard ▸ makes_known slots
  induction expands with
  | nil => trivial
  | passed _ _ later => exact ⟨known.1, later known.2⟩
  | command _ _ _ inside later =>
    obtain ⟨⟨own, below, ruled⟩, rest⟩ := known
    exact ⟨⟨own, inside below, ruled⟩, later rest⟩
  | bracket _ _ inside later | quotation _ _ inside later | fragment _ _ inside later =>
    exact ⟨inside known.1, later known.2⟩
  | spliced _ _ _ loaded filled _ later =>
    obtain ⟨own, rest⟩ := known
    exact ⟨filled.declared (makes _) (loaded.declared (makes _)) (command_declared.mp own).2.2, later rest⟩
  | source _ _ _ loaded _ _ inside later =>
    exact ⟨conclude_known standard _ _ (inside (loaded.declared (makes _))), later known.2⟩

end Compiler
end Manuscript
