import Manuscript.Proofs.Anchors
import Manuscript.Proofs.FormulaSharing

/-! Pages without their formulas. Whether formulas are taken out, and when, makes no difference to what is left of a
page without them. So the headings of a page are those of its files, expanded with their formulas left where they
are. -/

namespace Manuscript

namespace Formula

/-- Whether a command is a formula, or a slot in the place of one. -/
def isErased (declaration : Option Declaration) (args : List Node) : Bool :=
  (declaration.bind Declaration.math).isSome || (Declaration.lowering declaration == .slot && args.isEmpty)

mutual

def eraseNode : Node → Node
  | .command ⟨ident, attributes, args, declaration, rules⟩ =>
    if isErased declaration args then .fragment []
    else .command ⟨ident, attributes, erase args, declaration, rules⟩
  | .bracket ⟨kind, opening, closing, children⟩ => .bracket ⟨kind, opening, closing, erase children⟩
  | .quotation opening closing children => .quotation opening closing (erase children)
  | .fragment children => .fragment (erase children)
  | .tag ⟨ident, options, attributes, args, rules⟩ => .tag ⟨ident, options, attributes, eraseBlocks args, rules⟩
  | node => node
termination_by structural node => node

/-- The same without formulas and their slots. -/
def erase : List Node → List Node
  | [] => []
  | node :: rest => eraseNode node :: erase rest
termination_by structural nodes => nodes

def eraseBlocks : List (Block Node) → List (Block Node)
  | [] => []
  | ⟨kind, opening, closing, children⟩ :: rest => ⟨kind, opening, closing, erase children⟩ :: eraseBlocks rest
termination_by structural blocks => blocks

end

theorem eraseNode_kept {command : Command Node} (kept : isErased command.declaration command.args = false) :
    eraseNode (.command command) = .command { command with args := erase command.args } := by
  obtain ⟨ident, attributes, args, declaration, rules⟩ := command
  exact if_neg (Bool.eq_false_iff.mp kept)

theorem erase_isEmpty (nodes : List Node) : (erase nodes).isEmpty = nodes.isEmpty := by
  cases nodes <;> rfl

theorem isErased_congr (declaration : Option Declaration) {args others : List Node}
    (same : args.isEmpty = others.isEmpty) : isErased declaration args = isErased declaration others := by
  rw [isErased, isErased, same]

mutual

theorem extractNode_erase (keep inHeading : Bool) (node : Node) (sheet : FormulaSheet) :
    eraseNode ((extractNode keep inHeading node).run sheet).1 = eraseNode node := by
  match node with
  | .command ⟨ident, attributes, args, declaration, rules⟩ =>
    cases math : declaration.bind Declaration.math with
    | some spec =>
      have erased : isErased declaration args = true := by rw [isErased, math]; rfl
      rw [extractNode, math, eraseNode, if_pos erased]
      cases keep <;> rfl
    | none =>
      have empty : ((extractNodes (keeps keep attributes declaration) (inHeading || isHeading declaration) args).run
          sheet).1.isEmpty = args.isEmpty := by cases args <;> rfl
      rw [extractNode_plain keep inHeading ident attributes args rules math]
      dsimp only
      rw [eraseNode, eraseNode, isErased_congr declaration empty, extractNodes_erase _ _ args sheet]
  | .bracket ⟨_, _, _, children⟩ => exact congrArg (Node.bracket ⟨_, _, _, ·⟩) (extractNodes_erase _ _ children sheet)
  | .quotation _ _ children => exact congrArg (Node.quotation _ _) (extractNodes_erase _ _ children sheet)
  | .fragment children => exact congrArg Node.fragment (extractNodes_erase _ _ children sheet)
  | .tag ⟨_, _, _, args, _⟩ => exact congrArg (Node.tag ⟨_, _, _, ·, _⟩) (extractBlocks_erase _ _ args sheet)
  | .hole | .text _ _ | .symbol _ _ | .ident _ | .stray _ | .drawing _ => rfl
termination_by structural node

/-- Taking formulas out changes nothing but formulas. -/
theorem extractNodes_erase (keep inHeading : Bool) (nodes : List Node) (sheet : FormulaSheet) :
    erase ((extractNodes keep inHeading nodes).run sheet).1 = erase nodes := by
  match nodes with
  | [] => rfl
  | node :: rest =>
    exact congrArg₂ List.cons (extractNode_erase keep inHeading node sheet)
      (extractNodes_erase keep inHeading rest ((extractNode keep inHeading node).run sheet).2)
termination_by structural nodes

theorem extractBlocks_erase (keep inHeading : Bool) (blocks : List (Block Node)) (sheet : FormulaSheet) :
    eraseBlocks ((extractBlocks keep inHeading blocks).run sheet).1 = eraseBlocks blocks := by
  match blocks with
  | [] => rfl
  | ⟨kind, opening, closing, children⟩ :: rest =>
    exact congrArg₂ (fun children rest => ⟨kind, opening, closing, children⟩ :: rest)
      (extractNodes_erase keep inHeading children sheet)
      (extractBlocks_erase keep inHeading rest ((extractNodes keep inHeading children).run sheet).2)
termination_by structural blocks

end

mutual

theorem eraseNode_unchanged (node : Node) (none : node.hasFormula = false) :
    (eraseNode node).flatten = node.flatten ∧ headlinesIn (eraseNode node) = headlinesIn node := by
  match node with
  | .command ⟨ident, attributes, args, declaration, rules⟩ =>
    simp only [Node.hasFormula, Bool.or_eq_false_iff, Option.isSome_eq_false_iff, Option.isNone_iff_eq_none] at none
    obtain ⟨_, body, found⟩ := erase_unchanged args none.2
    by_cases erased : isErased declaration args = true
    · rw [eraseNode, if_pos erased]
      rw [isErased, none.1, Option.isSome_none, Bool.false_or, Bool.and_eq_true, beq_iff_eq, List.isEmpty_iff] at erased
      obtain ⟨slot, rfl⟩ := erased
      exact ⟨rfl, by rw [headlinesIn, headlinesIn, slot]; rfl⟩
    · rw [eraseNode, if_neg erased]
      exact ⟨body, by rw [headlinesIn, headlinesIn, body, found]⟩
  | .bracket ⟨_, _, _, children⟩ =>
    obtain ⟨same, _, found⟩ := erase_unchanged children none
    exact ⟨by rw [eraseNode, Node.flatten, Node.flatten, same], found⟩
  | .quotation _ _ children =>
    obtain ⟨same, _, found⟩ := erase_unchanged children none
    exact ⟨same, found⟩
  | .fragment children =>
    obtain ⟨same, _, found⟩ := erase_unchanged children none
    exact ⟨same, found⟩
  | .tag ⟨_, _, _, args, _⟩ =>
    obtain ⟨same, found⟩ := eraseBlocks_unchanged args none
    exact ⟨same, by rw [eraseNode, headlinesIn, headlinesIn, found]⟩
  | .hole | .text _ _ | .symbol _ _ | .ident _ | .stray _ | .drawing _ => exact ⟨rfl, rfl⟩
termination_by structural node

/-- Where formulas have been taken out, slots do not matter to titles and headings. -/
theorem erase_unchanged (nodes : List Node) (none : hasFormula nodes = false) :
    flatten (erase nodes) = flatten nodes ∧ flattenBody (erase nodes) = flattenBody nodes ∧
      headlines (erase nodes) = headlines nodes := by
  match nodes with
  | [] => exact ⟨rfl, rfl, rfl⟩
  | .bracket ⟨.curly, opening, closing, children⟩ :: rest =>
    simp only [hasFormula, Bool.or_eq_false_iff] at none
    obtain ⟨same, _, inner⟩ := erase_unchanged children none.1
    obtain ⟨later, body, headings⟩ := erase_unchanged rest none.2
    refine ⟨by rw [erase, flatten, flatten, eraseNode, Node.flatten, Node.flatten, same, later], ?_, ?_⟩
    · rw [erase, eraseNode, flattenBody, flattenBody, same, body]
    · rw [erase, headlines, headlines, headings]
      exact congrArg (· ++ _) inner
  | .bracket ⟨.square, _, _, _⟩ :: rest | .bracket ⟨.round, _, _, _⟩ :: rest | .hole :: rest | .text _ _ :: rest
  | .symbol _ _ :: rest | .ident _ :: rest | .stray _ :: rest | .quotation _ _ _ :: rest | .fragment _ :: rest
  | .drawing _ :: rest | .tag _ :: rest =>
    simp only [hasFormula, Bool.or_eq_false_iff] at none
    obtain ⟨first, heading⟩ := eraseNode_unchanged _ none.1
    obtain ⟨later, body, headings⟩ := erase_unchanged rest none.2
    exact ⟨congrArg₂ (· ++ ·) first later, congrArg₂ (· ++ ·) first body, congrArg₂ (· ++ ·) heading headings⟩
  | .command ⟨ident, attributes, args, declaration, rules⟩ :: rest =>
    simp only [hasFormula, Bool.or_eq_false_iff] at none
    obtain ⟨first, heading⟩ := eraseNode_unchanged (.command ⟨ident, attributes, args, declaration, rules⟩) none.1
    obtain ⟨later, body, headings⟩ := erase_unchanged rest none.2
    refine ⟨congrArg₂ (· ++ ·) first later, ?_, congrArg₂ (· ++ ·) heading headings⟩
    have plain : flattenBody (eraseNode (.command ⟨ident, attributes, args, declaration, rules⟩) :: erase rest) =
        (eraseNode (.command ⟨ident, attributes, args, declaration, rules⟩)).flatten ++ flattenBody (erase rest) := by
      rw [eraseNode]
      split <;> rfl
    exact plain.trans (congrArg₂ (· ++ ·) first body)
termination_by structural nodes

theorem eraseBlocks_unchanged (blocks : List (Block Node)) (none : blocksHaveFormula blocks = false) :
    flattenBlocks (eraseBlocks blocks) = flattenBlocks blocks ∧
      blocksHeadlines (eraseBlocks blocks) = blocksHeadlines blocks := by
  match blocks with
  | [] => exact ⟨rfl, rfl⟩
  | ⟨_, _, _, children⟩ :: rest =>
    simp only [blocksHaveFormula, Bool.or_eq_false_iff] at none
    obtain ⟨first, _, heading⟩ := erase_unchanged children none.1
    obtain ⟨later, headings⟩ := eraseBlocks_unchanged rest none.2
    exact ⟨by rw [eraseBlocks, flattenBlocks, flattenBlocks, first, later],
      by rw [eraseBlocks, blocksHeadlines, blocksHeadlines, blockHeadlines, blockHeadlines, heading, headings]⟩
termination_by structural blocks

end

end Formula

/-- The headings of a page, whose formulas do not count for their titles. -/
def outline (nodes : List Node) : List Headline := headlines (Formula.erase nodes)

theorem outline_cons (node : Node) (rest : List Node) :
    outline (node :: rest) = headlinesIn (Formula.eraseNode node) ++ outline rest := rfl

theorem outline_split (node : Node) (rest : List Node) : outline (node :: rest) = outline [node] ++ outline rest := by
  rw [outline_cons, outline_cons, List.append_assoc]
  rfl

/-- A heading of an included file: it has its source from the inclusion, if it names none itself. -/
def Headline.fitted (source : String) (heading : Headline) : Headline :=
  if heading.exposed then { heading with source := heading.source.or (some source) } else heading

theorem Headline.fitted_inside (source : String) (shown : Bool) (headings : List Headline) :
    (headings.map (Headline.inside shown)).map (Headline.fitted source) = headings.map (Headline.inside shown) := by
  rw [List.map_map]
  rfl

/-- Only headings are lowered as headings. -/
theorem Builtin.Known.heading_of_lowering {slots : Bool} {ident : Ident} {attributes : Option Attributes}
    {declaration : Option Declaration} (own : Known slots ident attributes declaration)
    (lowered : Declaration.lowering declaration = .heading) : Formula.isHeading declaration = true := by
  rcases own with ⟨_, rfl⟩ | ⟨heading, listed, rfl⟩
  · cases lowered
  · have positive := (lowering_tells heading (mem_lookup.mp listed).1).1.mp lowered
    simpa [Formula.isHeading] using positive

namespace Outline

open Builtin Formula

variable {slots : Bool} {adjustment : Adjustment}

theorem heading_erased {ident : Ident} {attributes : Option Attributes} {declaration : Option Declaration}
    (own : Known slots ident attributes declaration) (heads : Formula.isHeading declaration = true) (args : List Node) :
    isErased declaration args = false ∧ Declaration.lowering declaration = .heading := by
  have math := own.math heads
  obtain ⟨heading, listed, rfl, positive⟩ := own.heading heads
  have lowered : Declaration.lowering (some heading) = .heading :=
    (lowering_tells heading (mem_lookup.mp listed).1).1.mpr positive
  rw [isErased, math, lowered]
  exact ⟨rfl, rfl⟩

theorem adjusted_with (adjustment : Adjustment) (command : Command Node) (args : List Node) :
    adjusted adjustment { command with args } = { adjusted adjustment command with args } := by
  obtain ⟨ident, attributes, inner, declaration, rules⟩ := command
  cases declaration with
  | none => rfl
  | some heading =>
    show adjustHeading adjustment _ heading = { adjustHeading adjustment _ heading with args }
    unfold adjustHeading
    dsimp only
    split <;> rfl

theorem adjust_isEmpty (adjustment : Adjustment) (nodes : List Node) :
    (adjust adjustment nodes).isEmpty = nodes.isEmpty := by
  cases nodes <;> rfl

theorem adjusted_lowering (standard : adjustment.registry = registry) {command : Command Node}
    (known : (Node.command command).Declared (Known slots)) (heads : Formula.isHeading command.declaration = true) :
    Declaration.lowering (adjusted adjustment command).declaration = .heading := by
  obtain ⟨same, still⟩ := adjustNode_heading standard (command_declared.mp known).1 heads
  have fits := adjustNode_known standard _ known
  rw [same] at fits
  exact (heading_erased (command_declared.mp fits).1 still []).2

/-- What is left of a heading that is fitted into an outline. -/
theorem eraseNode_adjusted (standard : adjustment.registry = registry) {command : Command Node}
    (known : (Node.command command).Declared (Known slots)) (heads : Formula.isHeading command.declaration = true) :
    eraseNode (adjustNode adjustment (.command command)) =
      .command (adjusted adjustment { command with args := erase command.args }) := by
  obtain ⟨same, still⟩ := adjustNode_heading standard (command_declared.mp known).1 heads
  have fits := adjustNode_known standard _ known
  rw [same] at fits ⊢
  have plain := (heading_erased (command_declared.mp fits).1 still (adjusted adjustment command).args).1
  rw [eraseNode_kept plain, adjusted_with adjustment command (erase command.args), adjusted_args]

mutual

theorem eraseNode_adjust (standard : adjustment.registry = registry) (node : Node)
    (known : node.Declared (Known slots)) :
    eraseNode (adjustNode adjustment node) = adjustNode adjustment (eraseNode node) := by
  match node with
  | .command ⟨ident, attributes, args, declaration, rules⟩ =>
    by_cases heads : Formula.isHeading declaration = true
    · have plain := (heading_erased known.1 heads args).1
      let bare : Command Node := ⟨ident, attributes, erase args, declaration, rules⟩
      have fits : adjustNode adjustment (.command bare) = _ := (adjustNode_heading standard known.1 heads).1
      rw [eraseNode_adjusted standard known heads, eraseNode, if_neg (Bool.eq_false_iff.mp plain)]
      exact fits.symm
    · rw [adjustNode_plain _ _ _ _ _ heads, eraseNode, eraseNode,
        isErased_congr declaration (adjust_isEmpty adjustment args), erase_adjust standard args known.2.1]
      split
      · rfl
      · rw [adjustNode_plain _ _ _ _ _ heads]
  | .bracket ⟨_, _, _, children⟩ => exact congrArg (Node.bracket ⟨_, _, _, ·⟩) (erase_adjust standard children known)
  | .quotation _ _ children => exact congrArg (Node.quotation _ _) (erase_adjust standard children known)
  | .fragment children => exact congrArg Node.fragment (erase_adjust standard children known)
  | .tag _ | .hole | .text _ _ | .symbol _ _ | .ident _ | .stray _ | .drawing _ => rfl
termination_by structural node

/-- Headings are fitted into an outline in the same way without formulas. -/
theorem erase_adjust (standard : adjustment.registry = registry) (nodes : List Node)
    (known : Declared (Known slots) nodes) :
    erase (adjust adjustment nodes) = adjust adjustment (erase nodes) := by
  match nodes with
  | [] => rfl
  | node :: rest =>
    exact congrArg₂ List.cons (eraseNode_adjust standard node known.1) (erase_adjust standard rest known.2)
termination_by structural nodes

end

mutual

theorem outline_adjustNode (standard : adjustment.registry = registry) (drawn : adjustment.tocOnly = false)
    (node : Node) (known : node.Declared (Known slots)) :
    headlinesIn (eraseNode (adjustNode adjustment node)) =
      (headlinesIn (eraseNode node)).map (Headline.fitted adjustment.source) := by
  match node with
  | .command ⟨ident, attributes, args, declaration, rules⟩ =>
    by_cases heads : Formula.isHeading declaration = true
    · obtain ⟨plain, lowered⟩ := heading_erased known.1 heads args
      let bare : Command Node := ⟨ident, attributes, erase args, declaration, rules⟩
      have fits := adjusted_lowering standard known heads
      have named : (adjusted adjustment bare).attributes = _ := adjusted_attributes adjustment known.1 heads
      have found : headlinesIn (.command bare) = _ := headlinesIn_heading lowered
      rw [eraseNode_adjusted standard known heads, eraseNode, if_neg (Bool.eq_false_iff.mp plain), found,
        headlinesIn_heading (by rw [adjusted_with]; exact fits), adjusted_args, named, Option.getD_some,
        adjustAttributes_source, adjustAttributes_has _ _ (by decide), drawn, List.map_append, Headline.fitted_inside]
      simp [Headline.fitted, bare]
    · rw [adjustNode_plain _ _ _ _ _ heads, eraseNode, eraseNode,
        isErased_congr declaration (adjust_isEmpty adjustment args)]
      have below := outline_adjust standard drawn args known.2.1
      split
      · rfl
      · rw [headlinesIn, headlinesIn]
        cases lowered : Declaration.lowering declaration with
        | element | link | item => exact below
        | heading => exact (heads (known.1.heading_of_lowering lowered)).elim
        | image | formula | slot | nothing => rfl
  | .bracket ⟨_, _, _, children⟩ => exact outline_adjust standard drawn children known
  | .quotation _ _ children => exact outline_adjust standard drawn children known
  | .fragment children => exact outline_adjust standard drawn children known
  | .tag ⟨_, options, _, args, _⟩ => exact (Headline.fitted_inside ..).symm
  | .hole | .text _ _ | .symbol _ _ | .ident _ | .stray _ | .drawing _ => rfl
termination_by structural node

theorem outline_adjust (standard : adjustment.registry = registry) (drawn : adjustment.tocOnly = false)
    (nodes : List Node) (known : Declared (Known slots) nodes) :
    outline (adjust adjustment nodes) = (outline nodes).map (Headline.fitted adjustment.source) := by
  match nodes with
  | [] => rfl
  | node :: rest =>
    have both := congrArg₂ (· ++ ·) (outline_adjustNode standard drawn node known.1)
      (outline_adjust standard drawn rest known.2)
    rw [← List.map_append] at both
    exact both
termination_by structural nodes

end

/-- A heading gets the flag of the inclusion that it is for the table of contents alone. -/
theorem adjusted_hidden (only : adjustment.tocOnly = true) {command : Command Node}
    (own : Known slots command.ident command.attributes command.declaration)
    (heads : Formula.isHeading command.declaration = true) :
    Attributes.has ((adjusted adjustment command).attributes.getD []) "toc-only" = true := by
  rw [adjusted_attributes adjustment own heads, Option.getD_some, adjustAttributes_has _ _ (by decide), only]
  simp

/-- Headings of a file that is included for the table of contents alone are not drawn. -/
theorem listed_hidden (standard : adjustment.registry = registry) (only : adjustment.tocOnly = true)
    {commands : List (Command Node)} (each : ∀ command ∈ commands, Formula.isHeading command.declaration = true ∧
      (Node.command command).Declared (Known slots)) :
    ∀ heading ∈ outline ((commands.map (adjusted adjustment)).map .command), heading.drawn = false := by
  induction commands with
  | nil => exact fun _ none => (List.not_mem_nil none).elim
  | cons command commands ih =>
    obtain ⟨⟨heads, known⟩, others⟩ := List.forall_mem_cons.mp each
    obtain ⟨same, still⟩ := adjustNode_heading standard (command_declared.mp known).1 heads
    have fits := adjustNode_known standard _ known
    rw [same] at fits
    have plain := (heading_erased (command_declared.mp fits).1 still (adjusted adjustment command).args).1
    have hidden := adjusted_hidden only (command_declared.mp known).1 heads
    have own : headlinesIn (eraseNode (.command (adjusted adjustment command))) =
        (headlines (erase (adjusted adjustment command).args)).map (Headline.inside false) ++
          [⟨flattenBody (erase (adjusted adjustment command).args), false, true,
            Attributes.value? ((adjusted adjustment command).attributes.getD []) "source"⟩] := by
      have lowered : Declaration.lowering { adjusted adjustment command with
          args := erase (adjusted adjustment command).args }.declaration = .heading :=
        adjusted_lowering standard known heads
      rw [eraseNode_kept plain, headlinesIn_heading lowered, hidden, Bool.not_true]
    intro heading member
    rw [List.map_cons, List.map_cons, outline, erase, headlines, own, List.mem_append, List.mem_append] at member
    rcases member with (inner | last) | later
    · obtain ⟨_, _, rfl⟩ := List.mem_map.mp inner
      rfl
    · rw [List.mem_singleton.mp last]
    · exact ih others heading later

end Outline

namespace Compiler

open Compile Outline Formula

variable {compiler : Compiler} {path : String} {chain : List String} {extract : Bool} {nodes left : List Node}
  {sheet after : FormulaSheet}

theorem conclude_erase {adjustment : Adjustment} (drawn : adjustment.tocOnly = false) (sheet : FormulaSheet)
    (inner : List Node) (filled : FormulaSheet) :
    erase (conclude adjustment extract sheet (inner, filled)).1 = erase (adjust adjustment inner) := by
  cases extract with
  | true =>
    rw [conclude_taken drawn]
    exact extractNodes_erase true false _ filled
  | false => rw [conclude_drawn drawn]

/-- Whether formulas are taken out makes no difference to the rest of a page. -/
theorem Expands.whole (standard : compiler.registry = Builtin.registry)
    (expands : compiler.Expands path chain extract nodes sheet left after) :
    ∃ whole, compiler.Expands path chain false nodes {} whole {} ∧ erase left = erase whole := by
  have makes (slots : Bool) : compiler.registry.Makes (Builtin.Known slots) := standard ▸ Builtin.makes_known slots
  induction expands with
  | nil => exact ⟨[], .nil, rfl⟩
  | @passed _ _ _ node _ _ _ _ plain _ later =>
    obtain ⟨whole, opens, same⟩ := later
    exact ⟨_, .passed plain opens, congrArg (eraseNode node :: ·) same⟩
  | @command _ _ _ ident attributes _ inner declaration rules _ _ _ _ _ other _ _ inside later =>
    obtain ⟨below, within, alike⟩ := inside
    obtain ⟨whole, opens, same⟩ := later
    have empty : inner.isEmpty = below.isEmpty := by
      rw [← erase_isEmpty, alike, erase_isEmpty]
    exact ⟨_, .command other within opens, by
      rw [erase, erase, eraseNode, eraseNode, isErased_congr declaration empty, alike, same]⟩
  | bracket _ _ inside later =>
    obtain ⟨below, within, alike⟩ := inside
    obtain ⟨whole, opens, same⟩ := later
    exact ⟨_, .bracket within opens, by rw [erase, erase, eraseNode, eraseNode, alike, same]⟩
  | quotation _ _ inside later =>
    obtain ⟨below, within, alike⟩ := inside
    obtain ⟨whole, opens, same⟩ := later
    exact ⟨_, .quotation within opens, by rw [erase, erase, eraseNode, eraseNode, alike, same]⟩
  | fragment _ _ inside later =>
    obtain ⟨below, within, alike⟩ := inside
    obtain ⟨whole, opens, same⟩ := later
    exact ⟨_, .fragment within opens, by rw [erase, erase, eraseNode, eraseNode, alike, same]⟩
  | spliced included fresh ending loaded filled _ later =>
    obtain ⟨whole, opens, same⟩ := later
    exact ⟨_, .spliced included fresh ending loaded filled opens, congrArg (_ :: ·) same⟩
  | @source path chain extract command content inner _ _ sheet filled _ included fresh ending loaded deeper _ inside
      later =>
    obtain ⟨whole, opens, same⟩ := later
    have fits : (compiler.adjustment (target path command) command).registry = Builtin.registry := standard
    cases only : command.hasAttribute "toc-only" with
    | true =>
      rw [only] at deeper
      rw [Bool.not_true, Bool.and_false] at deeper ⊢
      refine ⟨_, .source_still included fresh ending loaded (deeper.still rfl _) opens, ?_⟩
      rw [(conclude_still _ sheet {} inner filled (FormulaSheet.successor {})).2]
      exact congrArg (_ :: ·) same
    | false =>
      have drawn : (compiler.adjustment (target path command) command).tocOnly = false := only
      obtain ⟨below, within, alike⟩ := inside
      have narrow := deeper.known standard (loaded.declared (makes _))
      have wide := within.known standard (loaded.declared (makes _))
      refine ⟨_, .source_still included fresh ending loaded within opens, ?_⟩
      rw [erase, erase, eraseNode, eraseNode, conclude_erase drawn, conclude_erase drawn,
        erase_adjust fits inner narrow, erase_adjust fits below wide, alike, same]

end Compiler

end Manuscript
