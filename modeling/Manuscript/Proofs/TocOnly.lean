import Manuscript.Proofs.ListedHeadings
import Manuscript.Proofs.ParallelPages

/-! Inclusions for the table of contents alone. The headings that such an inclusion leaves make the entries that the
whole file would make, as long as the file keeps its headings in the open. -/

namespace Manuscript

open Formula Html

mutual

/-- Whether there are no tags, and no inclusions where headings are not met. What is in headings does not count. -/
def Node.isListable : Node → Bool
  | .command ⟨_, _, args, declaration, _⟩ =>
    Declaration.isInclusion declaration || isHeading declaration ||
      if Declaration.opens declaration then isListable args else (Compiler.inclusionsOf args).isEmpty
  | .bracket ⟨_, _, _, children⟩ => isListable children
  | .quotation _ _ children => isListable children
  | .fragment children => isListable children
  | .tag _ => false
  | _ => true
termination_by structural node => node

def isListable : List Node → Bool
  | [] => true
  | node :: rest => node.isListable && isListable rest
termination_by structural nodes => nodes

end

theorem Parallel.isEmpty_eq {part : Bool → Node → Node → Prop} {enters : Option Declaration → Bool} {here : Bool}
    {nodes left : List Node} (parallel : Parallel part enters here nodes left) : nodes.isEmpty = left.isEmpty := by
  cases parallel <;> rfl

theorem erase_brackets (blocks : List (Block Node)) :
    erase (blocks.map .bracket) = (eraseBlocks blocks).map .bracket := by
  induction blocks with
  | nil => rfl
  | cons block blocks ih =>
    obtain ⟨_, _, _, _⟩ := block
    exact congrArg (_ :: ·) ih

/-- Lists that go together make the same entries, if what is swapped does and is in no heading. -/
theorem Parallel.listed_eq (page : String) {swapped : Node → Node → Prop}
    (each : ∀ node other, swapped node other → ∀ contents,
      listedIn page (eraseNode node) contents = listedIn page (eraseNode other) contents) {here : Bool}
    {nodes left : List Node}
    (parallel : Parallel (After swapped) (Declaration.lowering · != .heading) here nodes left)
    (contents : Option Contents) : listed page (erase nodes) contents = listed page (erase left) contents := by
  induction parallel generalizing contents with
  | nil => rfl
  | @part _ node other _ _ given _ ih =>
    have first : listedIn page (eraseNode node) contents = listedIn page (eraseNode other) contents := by
      rcases given with same | ⟨_, swap⟩
      · exact @listed_erase_congr page [node] [other] (by rw [bare, bare, same]; rfl) contents
      · exact each node other swap contents
    rw [erase, erase, listed_cons, listed_cons, first, ih]
  | @command here _ _ attributes args inner declaration _ _ _ _ _ _ inside _ below ih =>
    -- what a heading says is its title, so nothing may be swapped in it
    have titled (lowered : Declaration.lowering declaration = .heading) :
        flattenBody (erase args) = flattenBody (erase inner) := by
      have same : bare args = bare inner := inside.bare_eq fun inner sure node other given => by
        rcases given with same | ⟨inside, _⟩
        · exact same
        · rw [lowered] at sure
          exact absurd (sure inside) (by simp)
      rw [← flattenBody_bare, ← erase_bare, same, erase_bare, flattenBody_bare]
    rw [erase, erase, listed_cons, listed_cons, eraseNode, eraseNode, isErased_congr declaration inside.isEmpty_eq]
    split
    · exact ih contents
    · rw [listedIn_command, listedIn_command, below]
      cases lowered : Declaration.lowering declaration with
      | heading =>
        rw [titled lowered]
        exact ih _
      | element | link | item | image | formula | slot | nothing => exact ih _
  | bracket _ _ _ _ below ih | quotation _ _ _ _ below ih | fragment _ _ below ih =>
    rw [erase, erase, listed_cons, listed_cons, ← ih]
    exact congrArg _ (below contents)
  | @tag _ _ _ options choices _ _ _ _ _ _ _ _ chosen _ _ _ below ih =>
    have same : ofOptions page options = ofOptions page choices := by
      rw [← ofOptions_bare, ← chosen, ofOptions_bare]
    rw [erase, erase, listed_cons, listed_cons, eraseNode, eraseNode, listedIn_tag, listedIn_tag, ← erase_brackets,
      ← erase_brackets, below, same]
    exact ih _

namespace Compiler

open Compile Outline

/-- A file whose headings are all in the open, as are those of the files that it includes: no tag is in the way, and
nothing is included where headings are not met, nor are any put there by rules. -/
structure Listable (compiler : Compiler) (file : String) : Prop where
  sources : ∀ chain path nodes, compiler.Chain file chain path → compiler.Loads path nodes → isListable nodes = true
  spliced : ∀ chain path nodes command content left, compiler.Chain file chain path → compiler.Loads path nodes →
    command ∈ inclusionsOf nodes → Path.ext (target path command) ≠ sourceExt →
    compiler.Loads (target path command) content → compiler.Spliced path content command.rules left →
    isOpen left = true

theorem conclude_isOpen {slots : Bool} {adjustment : Adjustment} (standard : adjustment.registry = Builtin.registry)
    {inner : List Node} (known : Declared (Builtin.Known slots) inner) (opens : isOpen inner = true)
    (sheet filled : FormulaSheet) : isOpen (conclude adjustment false sheet (inner, filled)).1 = true := by
  unfold conclude
  dsimp only
  split
  · have each := visible_declared false _ (adjust_known standard inner known)
    rw [visible_false] at each
    exact isOpen_headings fun command member => (each command member).1
  · exact adjust_isOpen standard inner known opens

/-- Such a file is expanded to an open list. -/
theorem Expands.isOpen {compiler : Compiler} (standard : compiler.registry = Builtin.registry) {file : String}
    (listable : compiler.Listable file) {path : String} {chain : List String} {extract : Bool} {nodes left : List Node}
    {sheet after : FormulaSheet} (expands : compiler.Expands path chain extract nodes sheet left after)
    (kept : extract = false) {front : List String} (chained : compiler.Chain file front path) (fewer : front ⊆ chain)
    {whole : List Node} (loads : compiler.Loads path whole) (within : inclusionsOf nodes ⊆ inclusionsOf whole)
    {scope : Scope} (placed : Placed (scope, nodes)) (listed : isListable nodes = true) :
    Manuscript.isOpen left = true := by
  induction expands generalizing front whole scope with
  | nil => rfl
  | @passed _ _ _ node _ _ _ _ plain _ later =>
    rw [isListable, Bool.and_eq_true] at listed
    have rest := later kept chained fewer loads (List.append_subset.mp within).2 placed.tail listed.2
    have untagged := listed.1
    have first : node.isOpen = true := by
      cases node with
      | command | bracket | quotation | fragment => cases plain
      | tag => cases untagged
      | hole | text | symbol | ident | stray | drawing => rfl
    rw [Manuscript.isOpen, first, rest]
    rfl
  | @command _ _ _ ident attributes args inner declaration rules _ _ _ _ _ other opens _ inside later =>
    obtain ⟨here, there⟩ := List.append_subset.mp within
    rw [inclusions_other other] at here
    rw [isListable, Bool.and_eq_true, Node.isListable, other, Bool.false_or] at listed
    have rest := later kept chained fewer loads there placed.tail listed.2
    rw [Manuscript.isOpen, rest, Bool.and_true, Node.isOpen]
    cases heads : isHeading declaration with
    | true => rfl
    | false =>
      rw [heads, Bool.false_or] at listed
      rw [Bool.false_or]
      split
      next shows =>
        rw [if_pos shows] at listed
        exact inside kept chained fewer loads here placed.head.command.2 listed.1
      next closed =>
        rw [if_neg closed, List.isEmpty_iff] at listed
        rw [(opens.idle listed.1).1, placed.head.collect_closed (Bool.eq_false_iff.mpr closed) other]
        rfl
  | bracket _ _ inside later | quotation _ _ inside later | fragment _ _ inside later =>
    obtain ⟨here, there⟩ := List.append_subset.mp within
    rw [isListable, Bool.and_eq_true] at listed
    have rest := later kept chained fewer loads there placed.tail listed.2
    have first := inside kept chained fewer loads here (placed.head.below (List.mem_singleton_self _)) listed.1
    rw [Manuscript.isOpen, rest, Bool.and_true]
    exact first
  | @spliced _ _ _ command content filled _ _ _ _ included _ ending loaded splices _ later =>
    obtain ⟨here, there⟩ := List.append_subset.mp within
    rw [inclusions_included included] at here
    rw [isListable, Bool.and_eq_true] at listed
    have first := listable.spliced _ _ _ command content filled chained loads (here (List.mem_singleton_self _)) ending
      loaded splices
    rw [Manuscript.isOpen, later kept chained fewer loads there placed.tail listed.2, Bool.and_true]
    exact first
  | @source path _ _ command content inner _ _ _ filled _ included fresh ending loaded deeper _ inside later =>
    obtain ⟨here, there⟩ := List.append_subset.mp within
    rw [inclusions_included included] at here
    rw [isListable, Bool.and_eq_true] at listed
    subst kept
    rw [Manuscript.isOpen, later rfl chained fewer loads there placed.tail listed.2, Bool.and_true]
    have member := here (List.mem_singleton_self command)
    have longer := chained.next ⟨loads, member, rfl, ending, loaded⟩ fun old => fresh (fewer old)
    have below := inside rfl longer (List.append_subset.mpr ⟨List.subset_append_of_subset_left _ fewer,
      List.subset_append_right _ _⟩) loaded (List.Subset.refl _) (loaded.placed standard)
      (listable.sources _ _ _ longer loaded)
    rw [Bool.false_and] at deeper ⊢
    exact conclude_isOpen standard (deeper.known standard (loaded.declared (standard ▸ Builtin.makes_known _))) below ..

/-- Nodes that make the same entries of the table of contents. -/
def SameEntries (page : String) (node other : Node) : Prop :=
  ∀ contents, listedIn page (eraseNode node) contents = listedIn page (eraseNode other) contents

/-- What an open file leaves makes the same entries, drawn or not. -/
theorem sameEntries_conclude {slots : Bool} {adjustment : Adjustment} (standard : adjustment.registry = Builtin.registry)
    {inner : List Node} (known : Declared (Builtin.Known slots) inner) (opens : isOpen inner = true) (page : String)
    (sheet filled less : FormulaSheet) :
    SameEntries page (.fragment (conclude adjustment false sheet (inner, filled)).1)
      (.fragment (conclude { adjustment with tocOnly := true } false sheet (inner, less)).1) := by
  intro contents
  rw [eraseNode, eraseNode, listedIn_fragment, listedIn_fragment]
  by_cases only : adjustment.tocOnly = true
  · rw [← only, (conclude_still adjustment sheet sheet inner filled less).2]
  · have undrawn : (conclude { adjustment with tocOnly := true } false sheet (inner, less)).1 =
        (collect (adjust { adjustment with tocOnly := true } inner)).map .command := rfl
    rw [conclude_drawn (Bool.eq_false_iff.mpr only), undrawn, listed_tocOnly page standard known opens]

/-- An inclusion of a source on a page, and the same with the flag that it is for the table of contents alone. -/
structure Flags (compiler : Compiler) (page : String) (command twin : Command Node) : Prop where
  declared : command.declaration = Builtin.registry.first? Builtin.includeIdent
  again : twin.declaration = command.declaration
  source : twin.attribute? "src" = command.attribute? "src"
  baseline : twin.attribute? "baseline" = command.attribute? "baseline"
  noToc : twin.hasAttribute "no-toc" = command.hasAttribute "no-toc"
  flagged : twin.hasAttribute "toc-only" = true
  ending : Path.ext (target page command) = sourceExt
  listable : compiler.Listable (target page command)

namespace Flags

variable {compiler twin : Compiler} {page : String} {command other : Command Node}
  (flags : compiler.Flags page command other)

include flags

theorem included : Declaration.isInclusion command.declaration = true := by
  rw [flags.declared]
  decide +kernel

theorem target_eq : target page other = target page command := by rw [target, flags.source, target]

theorem included_again : Declaration.isInclusion other.declaration = true := by
  rw [flags.again]
  exact flags.included

theorem ending_again : Path.ext (target page other) = sourceExt := by
  rw [flags.target_eq]
  exact flags.ending

theorem adjustment_eq (registry : twin.registry = compiler.registry) (path : String) :
    twin.adjustment path other = { compiler.adjustment path command with tocOnly := true } := by
  simp only [adjustment, registry, flags.baseline, flags.noToc, flags.flagged]

end Flags

/-- Nodes of which the second is the first with a flag. -/
def Flagged (compiler : Compiler) (page : String) (node other : Node) : Prop :=
  ∃ command twin : Command Node, node = .command command ∧ other = .command twin ∧ compiler.Flags page command twin

theorem alike_flagged (compiler : Compiler) (page : String) : Alike page (compiler.Flagged page) := by
  rintro _ _ ⟨command, twin, rfl, rfl, flags⟩
  exact ⟨command, twin, rfl, rfl, flags.included, flags.included_again, flags.target_eq, flags.ending⟩

/-- An inclusion that is not expanded makes no entries. -/
theorem sameEntries_flagged {compiler : Compiler} {page : String} (node other : Node)
    (flagged : compiler.Flagged page node other) : SameEntries page node other := by
  obtain ⟨command, twin, rfl, rfl, flags⟩ := flagged
  have silent (command : Command Node) (declared : command.declaration = Builtin.registry.first? Builtin.includeIdent)
      (contents : Option Contents) : listedIn page (eraseNode (.command command)) contents = contents := by
    obtain ⟨ident, attributes, args, declaration, rules⟩ := command
    obtain rfl : declaration = _ := declared
    have lowered : Declaration.lowering (Builtin.registry.first? Builtin.includeIdent) = .nothing := by decide +kernel
    rw [eraseNode]
    split
    · rfl
    · rw [listedIn_command, lowered]
  intro contents
  rw [silent command flags.declared, silent twin (flags.again.trans flags.declared)]

/-- An inclusion leaves nodes with the same entries whether or not it is for the table of contents alone. -/
theorem exchanges_flagged {compiler twin : Compiler} {page : String} (beside : compiler.Beside twin page)
    {file : List Node} (loads : compiler.Loads page file) :
    Exchanges compiler twin page false file (compiler.Flagged page) (SameEntries page) := by
  rintro _ _ rest others sheet left again after final ⟨command, other, rfl, rfl, flags⟩ within expands repeated
  have included := flags.included
  have standard := beside.standard
  rw [inclusions_included included] at within
  have member := within (List.mem_singleton_self command)
  have reached : compiler.Reached page (target page command) := .target .page loads member
  obtain ⟨_, _, _, _, rfl, fresh, loaded, inside, later⟩ := expands.source_cases included flags.ending
  obtain ⟨_, _, _, _, rfl, _, reloaded, inner, more⟩ :=
    repeated.source_cases flags.included_again flags.ending_again
  have apart : target page command ≠ page := by simpa using fresh
  rw [flags.target_eq, beside.loads_iff reached apart] at reloaded
  obtain rfl := loaded.unique reloaded
  rw [flags.target_eq, Bool.false_and] at inner
  rw [Bool.false_and] at inside
  have longer := Chain.page.next ⟨loads, member, rfl, flags.ending, loaded⟩ fresh
  have opens := beside.expands inner (List.mem_append_left _ (List.mem_singleton_self _)) longer loaded
    (List.Subset.refl _)
  obtain ⟨rfl, rfl⟩ := inside.settled opens
  rw [Bool.false_and, (conclude_still _ sheet sheet _ _ sheet).1] at later more
  refine ⟨_, _, _, _, _, rfl, rfl, ?_, later, more⟩
  rw [flags.target_eq, flags.adjustment_eq beside.registry, Bool.false_and, Bool.false_and]
  have known := inside.known standard (loaded.declared (standard ▸ Builtin.makes_known _))
  have opened := Expands.isOpen standard flags.listable inside rfl .page (List.subset_append_right _ _) loaded
    (List.Subset.refl _) (loaded.placed standard) (flags.listable.sources _ _ _ .page loaded)
  exact sameEntries_conclude standard known opened page sheet _ _

/-- Projects that are the same but for a page, on which inclusions have the flag in the other. -/
structure Flagging (compiler twin : Compiler) (page : String) : Prop where
  beside : compiler.Beside twin page
  content : Agree Eq (Parallel (Before (compiler.Flagged page)) (Declaration.lowering · != .heading) true)
    (compiler.content page) (twin.content page)

theorem Consistent.faithful {compiler : Compiler} {session : Session} (consistent : compiler.Consistent session) :
    compiler.Faithful session := fun path nodes found => loads_of_content (consistent path nodes found)

/-- The table of contents of a page is that of its expanded nodes, formulas left out. -/
theorem contents_expanded {compiler : Compiler} (standard : compiler.registry = Builtin.registry) {page : String}
    {session : Session} (consistent : compiler.Consistent session) {document : Document}
    (succeeds : (outcome (compiler.compile page) session).1 = .ok document) :
    ∃ nodes whole, compiler.Loads (Path.clean page) nodes ∧
      compiler.Expands (Path.clean page) [Path.clean page] false nodes {} whole {} ∧
      document.drawn.2 = listed (Path.clean page) (erase whole) (some {}) := by
  obtain ⟨nodes, left, sheet, loads, expands, rfl⟩ :=
    @compileFile_expands compiler compiler.limit page true _ _ consistent.faithful _ (Prod.ext succeeds rfl)
  obtain ⟨whole, opens, same⟩ := expands.whole standard
  refine ⟨nodes, whole, loads, opens, ?_⟩
  have bare := extractNodes_hasFormula true false left sheet
  rw [← same, ← extractNodes_erase true false left sheet, erase_listed _ _ bare]
  rfl

/-- Inclusions of a page make the same table of contents when they are for the table of contents alone. -/
theorem Flagging.contents_eq {compiler twin : Compiler} {page : String}
    (flagging : compiler.Flagging twin (Path.clean page)) {session other : Session}
    (consistent : compiler.Consistent session) (further : twin.Consistent other) :
    Agree Eq (fun document twin => document.drawn.2 = twin.drawn.2) (outcome (compiler.compile page) session).1
      (outcome (twin.compile page) other).1 := by
  have beside := flagging.beside
  have agree := (couples_compile beside (alike_flagged compiler _) flagging.content true session other
    ⟨consistent, further⟩).2
  generalize succeeds : (outcome (compiler.compile page) session).1 = result
  generalize resucceeds : (outcome (twin.compile page) other).1 = again
  rw [compile] at succeeds resucceeds
  rw [succeeds, resucceeds] at agree
  cases agree with
  | error same => exact .error same
  | ok given =>
    refine .ok ?_
    obtain ⟨nodes, others, loads, reloads, parallel⟩ := given
    obtain ⟨_, whole, listing, opens, same⟩ := contents_expanded beside.standard consistent succeeds
    obtain ⟨_, left, relisting, reopens, alike⟩ :=
      contents_expanded (beside.registry.trans beside.standard) further resucceeds
    obtain rfl := loads.unique listing
    obtain rfl := reloads.unique relisting
    obtain ⟨together, _⟩ := beside.expands_parallel loads (exchanges_flagged beside loads)
      (fun _ => sameEntries_flagged) parallel (List.Subset.refl _) opens reopens
    rw [same, alike]
    exact together.listed_eq _ (fun _ _ entries => entries) _

end Compiler
end Manuscript
