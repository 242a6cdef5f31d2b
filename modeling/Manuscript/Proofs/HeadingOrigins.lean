import Manuscript.Proofs.Adjustment

/-! Where the headings of a page come from. Each is written in some file, and inclusions lead from the page to that
file; along them levels add up, the innermost file is the source of the heading, and flags accumulate. -/

namespace Manuscript

/-- A heading as it is written, and the inclusions that lead to it with the paths of the files that they include. The
innermost comes first. -/
structure Origin where
  heading : Command Node
  inclusions : List (String × Command Node) := []

namespace Origin

/-- The level that the headings of an included file start at. -/
def baseline (command : Command Node) : Nat := ((command.attribute? "baseline").bind Heading.level?).getD 1

def through (target : String) (command : Command Node) (origin : Origin) : Origin :=
  { origin with inclusions := origin.inclusions ++ [(target, command)] }

def written (origin : Origin) : Nat := (origin.heading.declaration.map Declaration.heading).getD 0

/-- Levels add up, but not beyond the sixth. -/
def level (origin : Origin) : Nat :=
  min 6 (origin.written + (origin.inclusions.map fun inclusion => baseline inclusion.2 - 1).sum)

/-- What the heading says comes first. -/
def source (origin : Origin) : Option String :=
  (origin.heading.attribute? "source").or (origin.inclusions.head?.map Prod.fst)

def flagged (origin : Origin) (name : String) : Bool :=
  origin.heading.hasAttribute name || origin.inclusions.any fun inclusion => inclusion.2.hasAttribute name

theorem level_through (target : String) (command : Command Node) (origin : Origin) :
    (origin.through target command).level = min (origin.level + (baseline command - 1)) 6 := by
  simp only [level, through, written, List.map_append, List.sum_append, List.map_cons, List.map_nil, List.sum_cons,
    List.sum_nil]
  omega

theorem source_through (target : String) (command : Command Node) (origin : Origin) :
    (origin.through target command).source = origin.source.or (some target) := by
  obtain ⟨heading, inclusions⟩ := origin
  simp only [Origin.source, through]
  cases heading.attribute? "source" with
  | some value => rfl
  | none =>
    cases inclusions with
    | nil => rfl
    | cons first others => rfl

theorem flagged_through (target : String) (command : Command Node) (origin : Origin) (name : String) :
    (origin.through target command).flagged name = (origin.flagged name || command.hasAttribute name) := by
  simp [flagged, through, Bool.or_assoc]

/-- A heading of a page that has its origin to thank for its level, its source and its flags. -/
structure Fits (origin : Origin) (command : Command Node) : Prop where
  level : command.declaration.map Declaration.heading = some origin.level
  name : command.ident.name = "\\h" ++ toString origin.level
  place : command.ident.span = origin.heading.ident.span
  source : command.attribute? "source" = origin.source
  tocOnly : command.hasAttribute "toc-only" = origin.flagged "toc-only"
  noToc : command.hasAttribute "no-toc" = origin.flagged "no-toc"

end Origin

/-- A command without what is inside it. -/
def Command.bare (command : Command Node) : Command Node := { command with args := [], rules := [] }

namespace Formula

open Outline

mutual

theorem extractNode_headings (keep inHeading : Bool) (node : Node) (sheet : FormulaSheet) :
    visibleNode true ((extractNode keep inHeading node).run sheet).1 =
        collectNode ((extractNode keep inHeading node).run sheet).1 ∧
      (collectNode ((extractNode keep inHeading node).run sheet).1).map Command.bare =
        (visibleNode true node).map Command.bare := by
  match node with
  | .command ⟨ident, attributes, args, declaration, rules⟩ =>
    cases math : declaration.bind Declaration.math with
    | some spec =>
      have hidden : visibleNode true (.command ⟨ident, attributes, args, declaration, rules⟩) = [] := by
        rw [visibleNode, math]
        rfl
      rw [hidden, extractNode, math]
      dsimp only
      split
      · exact ⟨rfl, rfl⟩
      · exact ⟨rfl, rfl⟩
    | none =>
      obtain ⟨same, bare⟩ := extractNodes_headings (keeps keep attributes declaration)
        (inHeading || isHeading declaration) args sheet
      rw [extractNode_plain keep inHeading ident attributes args rules math]
      simp only [visibleNode, collectNode, math, Option.isSome_none, Bool.and_false, Bool.false_eq_true, if_false]
      split
      · exact ⟨rfl, rfl⟩
      · exact ⟨same, bare⟩
  | .bracket ⟨_, _, _, children⟩ => exact extractNodes_headings keep inHeading children sheet
  | .quotation _ _ children => exact extractNodes_headings keep inHeading children sheet
  | .fragment children => exact extractNodes_headings keep inHeading children sheet
  | .tag _ => exact ⟨rfl, rfl⟩
  | .hole | .text _ _ | .symbol _ _ | .ident _ | .stray _ | .drawing _ => exact ⟨rfl, rfl⟩
termination_by structural node

/-- Taking formulas out leaves the headings outside of them, and no others. -/
theorem extractNodes_headings (keep inHeading : Bool) (nodes : List Node) (sheet : FormulaSheet) :
    visible true ((extractNodes keep inHeading nodes).run sheet).1 =
        collect ((extractNodes keep inHeading nodes).run sheet).1 ∧
      (collect ((extractNodes keep inHeading nodes).run sheet).1).map Command.bare =
        (visible true nodes).map Command.bare := by
  match nodes with
  | [] => exact ⟨rfl, rfl⟩
  | node :: rest =>
    obtain ⟨same, bare⟩ := extractNode_headings keep inHeading node sheet
    obtain ⟨others, more⟩ := extractNodes_headings keep inHeading rest ((extractNode keep inHeading node).run sheet).2
    constructor
    · exact congrArg₂ (· ++ ·) same others
    · rw [visible, List.map_append, ← bare, ← more, ← List.map_append]
      rfl
termination_by structural nodes

end

end Formula

namespace Origin

open Builtin Outline

/-- A heading as it is written fits itself. -/
theorem fits_written {slots : Bool} {command : Command Node}
    (known : Known slots command.ident command.attributes command.declaration)
    (heads : Formula.isHeading command.declaration = true) (args : List Node) (rules : List (Rule Node)) :
    Fits ⟨command, []⟩ { command with args, rules } := by
  obtain ⟨heading, listed, declared, positive⟩ := known.heading heads
  obtain ⟨member, named⟩ := mem_lookup.mp listed
  obtain ⟨spelled, bound⟩ := heading_name heading member positive
  have own : (⟨command, []⟩ : Origin).level = heading.heading := by
    simp only [level, written, declared, Option.map_some, Option.getD_some, List.map_nil, List.sum_nil]
    omega
  constructor
  · rw [own, declared, Option.map_some]
  · rw [own, ← spelled, named]
  · rfl
  · exact Option.or_none.symm
  · exact (Bool.or_false _).symm
  · exact (Bool.or_false _).symm

theorem Fits.bare {origin : Origin} {command : Command Node} : Fits origin command.bare ↔ Fits origin command :=
  ⟨fun fits => ⟨fits.level, fits.name, fits.place, fits.source, fits.tocOnly, fits.noToc⟩,
    fun fits => ⟨fits.level, fits.name, fits.place, fits.source, fits.tocOnly, fits.noToc⟩⟩

theorem fits_of_bare {origins : List Origin} {commands others : List (Command Node)}
    (fits : List.Forall₂ Fits origins commands) (same : others.map Command.bare = commands.map Command.bare) :
    List.Forall₂ Fits origins others := by
  have bare : List.Forall₂ Fits origins (commands.map Command.bare) := by
    rw [List.forall₂_map_right_iff]
    exact fits.imp fun _ _ => Fits.bare.mpr
  rw [← same, List.forall₂_map_right_iff] at bare
  exact bare.imp fun _ _ => Fits.bare.mp

theorem shift_eq (compiler : Compiler) (target : String) (command : Command Node) :
    (compiler.adjustment target command).shift = baseline command - 1 := by
  unfold Compiler.adjustment baseline
  cases (command.attribute? "baseline").bind Heading.level? with
  | none => rfl
  | some value => rfl

/-- An inclusion adds its shift to the level of a heading, and its file and flags to what is known of it. -/
theorem Fits.through {slots : Bool} {compiler : Compiler} (standard : compiler.registry = registry) {origin : Origin}
    {command : Command Node} (fits : Fits origin command)
    (known : Known slots command.ident command.attributes command.declaration)
    (heads : Formula.isHeading command.declaration = true) (target : String) (inclusion : Command Node) :
    Fits (origin.through target inclusion) (adjusted (compiler.adjustment target inclusion) command) := by
  obtain ⟨heading, listed, declared, positive⟩ := known.heading heads
  have changed : adjusted (compiler.adjustment target inclusion) command =
      adjustHeading (compiler.adjustment target inclusion) command heading := by
    rw [adjusted, declared, Option.map_some, Option.getD_some]
  obtain ⟨moved, member, replaced, renamed, level⟩ :=
    @adjustHeading_level (compiler.adjustment target inclusion) standard command heading declared listed positive
  have before : heading.heading = origin.level := by
    have own := fits.level
    rw [declared, Option.map_some] at own
    exact Option.some.inj own
  have after : moved.heading = (origin.through target inclusion).level := by
    rw [level, before, shift_eq, level_through]
  rw [changed]
  have items := adjustHeading_attributes (compiler.adjustment target inclusion) command heading
  constructor
  · rw [replaced, Option.map_some, after]
  · rw [renamed, ← after]
    exact (heading_name moved member (by omega)).1
  · rw [adjustHeading_span, fits.place]
    rfl
  · have own := fits.source
    rw [Command.attribute?] at own ⊢
    rw [items, Option.getD_some, adjustAttributes_source, own, source_through]
    rfl
  · have own := fits.tocOnly
    rw [Command.hasAttribute] at own ⊢
    rw [items, Option.getD_some, adjustAttributes_has _ _ (by decide), own, flagged_through]
    simp [Compiler.adjustment]
  · have own := fits.noToc
    rw [Command.hasAttribute] at own ⊢
    rw [items, Option.getD_some, adjustAttributes_has _ _ (by decide), own, flagged_through]
    simp [Compiler.adjustment]

theorem fits_through {slots : Bool} {compiler : Compiler} (standard : compiler.registry = registry)
    {origins : List Origin} {commands : List (Command Node)} (fits : List.Forall₂ Fits origins commands)
    (each : ∀ command ∈ commands, Formula.isHeading command.declaration = true ∧
      (Node.command command).Declared (Known slots))
    (target : String) (inclusion : Command Node) :
    List.Forall₂ Fits (origins.map (through target inclusion))
      (commands.map (adjusted (compiler.adjustment target inclusion))) := by
  induction fits with
  | nil => exact .nil
  | cons first _ ih =>
    obtain ⟨⟨heads, known⟩, others⟩ := List.forall_mem_cons.mp each
    exact .cons (first.through standard (command_declared.mp known).1 heads target inclusion) (ih others)

end Origin

namespace Compiler

open Compile Outline

/-- The headings that a part of the file at a path brings into the outline of a page, in order. Formulas bring in none
if they are taken out. -/
inductive Outlines (compiler : Compiler) : (path : String) → (extract : Bool) → List Node → List Origin → Prop where
  | nil {path : String} {extract : Bool} : Outlines compiler path extract [] []
  | passed {path : String} {extract : Bool} {node : Node} {rest : List Node} {origins : List Origin}
      (plain : node.isPassed = true) (later : Outlines compiler path extract rest origins) :
      Outlines compiler path extract (node :: rest) origins
  | formula {path : String} {extract : Bool} {command : Command Node} {rest : List Node} {origins : List Origin}
      (other : Declaration.isInclusion command.declaration = false)
      (taken : (extract && (command.declaration.bind Declaration.math).isSome) = true)
      (later : Outlines compiler path extract rest origins) :
      Outlines compiler path extract (.command command :: rest) origins
  | heading {path : String} {extract : Bool} {command : Command Node} {rest : List Node} {origins : List Origin}
      (other : Declaration.isInclusion command.declaration = false)
      (shown : (extract && (command.declaration.bind Declaration.math).isSome) = false)
      (heads : Formula.isHeading command.declaration = true) (later : Outlines compiler path extract rest origins) :
      Outlines compiler path extract (.command command :: rest) (⟨command, []⟩ :: origins)
  | command {path : String} {extract : Bool} {command : Command Node} {rest : List Node} {inner origins : List Origin}
      (other : Declaration.isInclusion command.declaration = false)
      (shown : (extract && (command.declaration.bind Declaration.math).isSome) = false)
      (plain : Formula.isHeading command.declaration = false) (inside : Outlines compiler path extract command.args inner)
      (later : Outlines compiler path extract rest origins) :
      Outlines compiler path extract (.command command :: rest) (inner ++ origins)
  | bracket {path : String} {extract : Bool} {block : Block Node} {rest : List Node} {inner origins : List Origin}
      (inside : Outlines compiler path extract block.children inner)
      (later : Outlines compiler path extract rest origins) :
      Outlines compiler path extract (.bracket block :: rest) (inner ++ origins)
  | quotation {path : String} {extract : Bool} {opening closing : Option Token} {children rest : List Node}
      {inner origins : List Origin} (inside : Outlines compiler path extract children inner)
      (later : Outlines compiler path extract rest origins) :
      Outlines compiler path extract (.quotation opening closing children :: rest) (inner ++ origins)
  | fragment {path : String} {extract : Bool} {children rest : List Node} {inner origins : List Origin}
      (inside : Outlines compiler path extract children inner) (later : Outlines compiler path extract rest origins) :
      Outlines compiler path extract (.fragment children :: rest) (inner ++ origins)
  /-- What is put in without being expanded counts as if it were written in the file that includes it. -/
  | spliced {path : String} {extract : Bool} {command : Command Node} {content placed rest : List Node}
      {origins : List Origin} (included : Declaration.isInclusion command.declaration = true)
      (ending : Path.ext (target path command) ≠ sourceExt) (loaded : compiler.Loads (target path command) content)
      (filled : compiler.Spliced path content command.rules placed)
      (later : Outlines compiler path extract rest origins) :
      Outlines compiler path extract (.command command :: rest) ((visible extract placed).map (⟨·, []⟩) ++ origins)
  /-- An included source brings in its own headings. Those of a source for the table of contents alone are not drawn,
  so its formulas are not taken out. -/
  | source {path : String} {extract : Bool} {command : Command Node} {content rest : List Node}
      {inner origins : List Origin} (included : Declaration.isInclusion command.declaration = true)
      (ending : Path.ext (target path command) = sourceExt) (loaded : compiler.Loads (target path command) content)
      (inside : Outlines compiler (target path command) (extract && !command.hasAttribute "toc-only") content inner)
      (later : Outlines compiler path extract rest origins) :
      Outlines compiler path extract (.command command :: rest)
        (inner.map (.through (target path command) command) ++ origins)

variable {compiler : Compiler} {path : String} {chain : List String} {extract : Bool}

/-- What a file brings into an outline is settled by what is in it. -/
theorem Outlines.unique {nodes : List Node} {origins others : List Origin}
    (outlines : compiler.Outlines path extract nodes origins)
    (again : compiler.Outlines path extract nodes others) : others = origins := by
  induction outlines generalizing others with
  | nil =>
    cases again
    rfl
  | passed plain _ later =>
    cases again with
    | passed _ more => exact later more
    | _ => cases plain
  | formula other taken _ later =>
    cases again with
    | formula _ _ more => exact later more
    | _ => simp_all [Node.isPassed]
  | heading other shown heads _ later =>
    cases again with
    | heading _ _ _ more => rw [later more]
    | _ => simp_all [Node.isPassed]
  | command other shown plain _ _ inside later =>
    cases again with
    | command _ _ _ within more => rw [inside within, later more]
    | _ => simp_all [Node.isPassed]
  | bracket _ _ inside later =>
    cases again with
    | bracket within more => rw [inside within, later more]
    | passed plain => cases plain
  | quotation _ _ inside later =>
    cases again with
    | quotation within more => rw [inside within, later more]
    | passed plain => cases plain
  | fragment _ _ inside later =>
    cases again with
    | fragment within more => rw [inside within, later more]
    | passed plain => cases plain
  | spliced included ending loaded filled _ later =>
    cases again with
    | spliced _ _ reloaded refilled more =>
      obtain rfl := loaded.unique reloaded
      rw [filled.unique refilled, later more]
    | _ => simp_all [Node.isPassed]
  | source included ending loaded _ _ inside later =>
    cases again with
    | source _ _ reloaded within more =>
      obtain rfl := loaded.unique reloaded
      rw [inside within, later more]
    | _ => simp_all [Node.isPassed]

/-- What an included source leaves has the headings it had before, adjusted. -/
theorem conclude_visible {slots : Bool} (standard : compiler.registry = Builtin.registry) {inner : List Node}
    (known : Declared (Builtin.Known slots) inner) (target : String) (command : Command Node) (extract : Bool)
    (sheet filled : FormulaSheet) {origins : List Origin}
    (fits : List.Forall₂ Origin.Fits origins (visible (extract && !command.hasAttribute "toc-only") inner)) :
    List.Forall₂ Origin.Fits (origins.map (.through target command)) (visible extract
      (conclude (compiler.adjustment target command) (extract && !command.hasAttribute "toc-only") sheet
        (inner, filled)).1) := by
  have adjusted : Declared (Builtin.Known slots) (adjust (compiler.adjustment target command) inner) :=
    adjust_known standard inner known
  have through := Origin.fits_through standard fits (visible_declared _ inner known) target command
  rw [← @visible_adjust slots (compiler.adjustment target command) standard _ inner known] at through
  have flag : (compiler.adjustment target command).tocOnly = command.hasAttribute "toc-only" := rfl
  unfold conclude
  dsimp only
  split
  next only =>
    rw [flag] at only
    rw [only, Bool.not_true, Bool.and_false, visible_false] at through
    have each := visible_declared false _ adjusted
    rw [visible_false] at each
    rw [visible_headings extract each]
    exact through
  next drawn =>
    rw [flag, Bool.not_eq_true] at drawn
    rw [drawn, Bool.not_false, Bool.and_true] at through ⊢
    split
    next taken =>
      obtain ⟨same, bare⟩ := Formula.extractNodes_headings true false (adjust (compiler.adjustment target command) inner)
        filled
      rw [taken] at through ⊢
      exact Origin.fits_of_bare through ((congrArg (List.map Command.bare) same).trans bare)
    next => exact through

/-- The headings that expansion leaves are those of the outline, each fitting its origin. -/
theorem Expands.outlines (standard : compiler.registry = Builtin.registry) {nodes left : List Node}
    {sheet after : FormulaSheet} (expands : compiler.Expands path chain extract nodes sheet left after)
    (known : Declared (Builtin.Known extract) nodes) :
    ∃ origins, compiler.Outlines path extract nodes origins ∧ List.Forall₂ Origin.Fits origins (visible extract left) := by
  have makes (slots : Bool) : compiler.registry.Makes (Builtin.Known slots) := standard ▸ Builtin.makes_known slots
  induction expands with
  | nil => exact ⟨[], .nil, .nil⟩
  | @passed _ _ extract node _ _ _ _ plain _ later =>
    obtain ⟨origins, outlines, fits⟩ := later known.2
    have none : visibleNode extract node = [] := by cases node <;> first | rfl | cases plain
    refine ⟨origins, .passed plain outlines, ?_⟩
    rw [visible, none]
    exact fits
  | @command _ _ extract ident attributes args inner declaration rules _ _ _ _ _ other _ _ inside later =>
    obtain ⟨origins, outlines, fits⟩ := later known.2
    obtain ⟨⟨own, below, _⟩, _⟩ := known
    rw [visible, visibleNode]
    by_cases taken : (extract && (declaration.bind Declaration.math).isSome) = true
    · rw [if_pos taken]
      exact ⟨origins, .formula other taken outlines, fits⟩
    · rw [if_neg taken]
      replace taken := Bool.eq_false_iff.mpr taken
      by_cases heads : Formula.isHeading declaration = true
      · rw [if_pos heads]
        refine ⟨_, .heading other taken heads outlines, .cons ?_ fits⟩
        exact @Origin.fits_written extract ⟨ident, attributes, args, declaration, rules⟩ own heads inner rules
      · obtain ⟨first, listed, one⟩ := inside below
        rw [if_neg heads]
        exact ⟨_, .command other taken (Bool.eq_false_iff.mpr heads) listed outlines, List.rel_append one fits⟩
  | bracket _ _ inside later =>
    obtain ⟨first, listed, one⟩ := inside known.1
    obtain ⟨origins, outlines, fits⟩ := later known.2
    exact ⟨_, .bracket listed outlines, List.rel_append one fits⟩
  | quotation _ _ inside later =>
    obtain ⟨first, listed, one⟩ := inside known.1
    obtain ⟨origins, outlines, fits⟩ := later known.2
    exact ⟨_, .quotation listed outlines, List.rel_append one fits⟩
  | fragment _ _ inside later =>
    obtain ⟨first, listed, one⟩ := inside known.1
    obtain ⟨origins, outlines, fits⟩ := later known.2
    exact ⟨_, .fragment listed outlines, List.rel_append one fits⟩
  | spliced included _ ending loaded filled _ later =>
    obtain ⟨own, rest⟩ := known
    obtain ⟨origins, outlines, fits⟩ := later rest
    have placed := filled.declared (makes _) (loaded.declared (makes _)) (command_declared.mp own).2.2
    refine ⟨_, .spliced included ending loaded filled outlines, List.rel_append ?_ fits⟩
    rw [visibleNode, List.forall₂_map_left_iff, List.forall₂_same]
    intro command member
    obtain ⟨heads, declared⟩ := visible_declared _ _ placed command member
    exact Origin.fits_written (command_declared.mp declared).1 heads command.args command.rules
  | source included _ ending loaded deeper _ inside later =>
    obtain ⟨first, listed, one⟩ := inside (loaded.declared (makes _))
    obtain ⟨origins, outlines, fits⟩ := later known.2
    refine ⟨_, .source included ending loaded listed outlines, List.rel_append ?_ fits⟩
    exact conclude_visible standard (deeper.known standard (loaded.declared (makes _))) _ _ _ _ _ one

end Compiler

theorem Heading.level_bounds {value : String} {level : Nat} (found : Heading.level? value = some level) :
    1 ≤ level ∧ level ≤ 6 := by
  unfold Heading.level? at found
  dsimp only at found
  split at found
  next number read =>
    split at found
    next bounds =>
      simp only [Bool.and_eq_true, decide_eq_true_eq] at bounds
      cases found
      omega
    next => cases found
  next => cases found

theorem occurs_declared {good : Ident → Option Attributes → Option Declaration → Prop} {scope place : Scope}
    {nodes : List Node} {node : Node} (declared : Declared good nodes)
    (occurs : Resolve.Occurs (scope, nodes) place node) : node.Declared good := by
  obtain ⟨list, within, member⟩ := occurs
  suffices inside : ∀ tree, Relation.ReflTransGen Resolve.Nests (scope, nodes) tree → Declared good tree.2 from
    declared_iff.mp (inside _ within) node member
  intro tree within
  induction within with
  | refl => exact declared
  | tail _ nests ih =>
    obtain ⟨upper, listed, under⟩ := nests
    have above := declared_iff.mp ih upper listed
    cases upper with
    | command command =>
      obtain rfl := List.mem_singleton.mp under
      exact (command_declared.mp above).2.1
    | bracket block =>
      obtain rfl := List.mem_singleton.mp under
      exact blockDeclared_iff.mp above
    | quotation | fragment =>
      obtain rfl := List.mem_singleton.mp under
      exact above
    | tag tag =>
      obtain ⟨block, inside, rfl⟩ := List.mem_map.mp under
      obtain ⟨ident, options, attributes, args, rules⟩ := tag
      exact blockDeclared_iff.mp (blocksDeclared_iff.mp above.2.1 block inside)
    | _ => cases under

/-- The baseline of an inclusion that was resolved is one that was asked for, or the first level. -/
theorem Builtin.Written.baseline {command : Command Node}
    (written : Written command.ident command.attributes command.declaration)
    (included : Declaration.isInclusion command.declaration = true) :
    (command.attribute? "baseline" = none ∧ Origin.baseline command = 1) ∨
      ∃ value, command.attribute? "baseline" = some value ∧ Heading.level? value = some (Origin.baseline command) := by
  have facts : ∀ declaration ∈ registry.declarations, declaration.name = includeIdent →
      declaration.ignoresAttributes = false ∧ ⟨"baseline", false, .heading⟩ ∈ declaration.attributes := by
    decide +kernel
  obtain ⟨known, listed, declared, valid⟩ := written
  rw [declared, Declaration.isInclusion, Option.any_some, beq_iff_eq] at included
  obtain ⟨counted, asked⟩ := facts known (mem_lookup.mp listed).1 included
  have valued : known.admitsAttributes (command.attributes.getD []) = true := by simpa [counted] using valid
  rw [Declaration.admitsAttributes, List.all_eq_true] at valued
  have admitted := valued _ asked
  unfold Origin.baseline
  cases given : command.attribute? "baseline" with
  | none => exact .inl ⟨rfl, rfl⟩
  | some value =>
    rw [Command.attribute?] at given
    simp only [given, AttributeSpec.admits] at admitted
    obtain ⟨level, found⟩ := Option.isSome_iff_exists.mp admitted
    exact .inr ⟨value, rfl, by rw [Option.bind_some, found, Option.getD_some]⟩

namespace Compiler

open Compile Outline

/-- The headings of a page come from the files that inclusions lead to, in order: each has the level at which it is
written plus what the baselines on the way add, the source it names or else the innermost file, and the flags of its own
and of all inclusions on the way. An inclusion that resolution leaves moves headings by at most five levels. -/
theorem headings_fit (compiler : Compiler) (standard : compiler.registry = Builtin.registry) :
    (∀ limit path extract session after document, compiler.Faithful session →
      outcome ((compiler.within limit).compileFile path extract) session = (.ok document, after) →
      ∃ nodes origins, compiler.Loads (Path.clean path) nodes ∧
        (∀ others, compiler.Outlines (Path.clean path) extract nodes others ↔ others = origins) ∧
        List.Forall₂ Origin.Fits origins (collect document.nodes)) ∧
    ∀ path nodes place command, compiler.Loads path nodes →
      Resolve.Occurs (.top path, nodes) place (.command command) →
      Declaration.isInclusion command.declaration = true →
      ((command.attribute? "baseline" = none ∧ Origin.baseline command = 1) ∨
        ∃ value, command.attribute? "baseline" = some value ∧ Heading.level? value = some (Origin.baseline command)) ∧
      (compiler.adjustment (target path command) command).shift + 1 = Origin.baseline command ∧
      (compiler.adjustment (target path command) command).shift ≤ 5 := by
  constructor
  · intro limit path extract session after document faithful succeeds
    obtain ⟨nodes, left, sheet, loads, expands, rfl⟩ := compileFile_expands faithful succeeds
    obtain ⟨origins, outlines, fits⟩ := expands.outlines standard (loads.declared (standard ▸ Builtin.makes_known extract))
    refine ⟨nodes, origins, loads, fun others => ⟨outlines.unique, fun same => same ▸ outlines⟩, ?_⟩
    cases extract with
    | true =>
      obtain ⟨_, bare⟩ := Formula.extractNodes_headings true false left sheet
      exact Origin.fits_of_bare fits bare
    | false =>
      rw [visible_false] at fits
      exact fits
  · intro path nodes place command loads occurs included
    have written : Declared Builtin.Written nodes := loads.declared (standard ▸ Builtin.makes_written)
    have own := (command_declared.mp (occurs_declared written occurs)).1
    have stated := own.baseline included
    refine ⟨stated, ?_⟩
    have bounds : 1 ≤ Origin.baseline command ∧ Origin.baseline command ≤ 6 := by
      rcases stated with ⟨_, first⟩ | ⟨value, _, found⟩
      · omega
      · exact Heading.level_bounds found
    have shift := Origin.shift_eq compiler (target path command) command
    omega

namespace Sample

/-- Two inclusions on the way to a heading, the inner one for the table of contents alone. -/
def nesting : Compiler :=
  files [("main.ss", "\\h2\x7bM\x7d\\include[src=a.ss,baseline=h2]"),
    ("a.ss", "\\h1\x7bA\x7d\\include[src=b.ss,baseline=h3,toc-only]"),
    ("b.ss", "\\h2[source=x.ss]\x7bB\x7d\\h5[no-toc]\x7bC\x7d")]

theorem ok_of_view {α : Type} {view : Document → α} {result : Except Failure Document × Session} {seen : α}
    (found : result.1.toOption.map view = some seen) :
    ∃ document after, result = (.ok document, after) ∧ view document = seen := by
  obtain ⟨document, given, same⟩ := Option.map_eq_some_iff.mp found
  exact ⟨document, result.2, Prod.ext (ok_of_toOption given) rfl, same⟩

def headingView (document : Document) : List (String × Option String × Bool × Bool) :=
  (collect document.nodes).map fun command =>
    (command.ident.name, command.attribute? "source", command.hasAttribute "toc-only", command.hasAttribute "no-toc")

end Sample

theorem headings_fit_nesting : Sample.nesting.registry = Builtin.registry ∧ ∃ document after,
    outcome (Sample.nesting.compile "main.ss") {} = (.ok document, after) ∧
    Sample.headingView document = [("\\h2", none, false, false), ("\\h2", some "a.ss", false, false),
      ("\\h5", some "x.ss", true, false), ("\\h6", some "b.ss", true, true)] ∧
    ∃ nodes origins, Sample.nesting.Loads (Path.clean "main.ss") nodes ∧
      (∀ others, Sample.nesting.Outlines (Path.clean "main.ss") true nodes others ↔ others = origins) ∧
      List.Forall₂ Origin.Fits origins (collect document.nodes) := by
  refine ⟨rfl, ?_⟩
  have succeeds : (outcome (Sample.nesting.compile "main.ss") {}).1.toOption.map Sample.headingView =
    some [("\\h2", none, false, false), ("\\h2", some "a.ss", false, false),
      ("\\h5", some "x.ss", true, false), ("\\h6", some "b.ss", true, true)] := by decide +kernel
  obtain ⟨document, after, run, seen⟩ := Sample.ok_of_view succeeds
  exact ⟨document, after, run, seen, (headings_fit Sample.nesting rfl).1 _ _ _ _ _ _ (faithful_empty _) run⟩

end Compiler
end Manuscript
