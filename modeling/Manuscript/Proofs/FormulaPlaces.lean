import Manuscript.Proofs.Adjustment
import Manuscript.Proofs.Placeholders

/-! Formulas and their places. Every slot that is drawn has its entry in the sheet of the page. An entry can lose its
slot where a formula is taken out of something that is not drawn, so it keeps its place on pages where images hold no
formulas, and where nothing is included inside of what is not drawn. -/

namespace Manuscript

namespace FormulaSheet

def ids (sheet : FormulaSheet) : List String := sheet.entries.map Formula.id

/-- The id that is handed out has an entry, and there is at most this one more. -/
theorem mem_ids_add (sheet : FormulaSheet) (latex : String) (block unique : Bool) (id : String) :
    id ∈ (sheet.add latex block unique).2.ids ↔ id ∈ sheet.ids ∨ id = (sheet.add latex block unique).1 := by
  unfold add
  split
  next entry found =>
    have shared : sheet.shared? latex block = some entry := by
      split at found
      · cases found
      · exact found
    have member : entry.id ∈ sheet.ids := List.mem_map_of_mem (List.mem_of_find?_eq_some shared)
    constructor
    · exact .inl
    · rintro (there | rfl)
      · exact there
      · exact member
  next => simp [ids]

theorem mem_ids_merge (sheet other : FormulaSheet) (id : String) :
    id ∈ (sheet.merge other).ids ↔ id ∈ sheet.ids ∨ id ∈ other.ids := by
  obtain ⟨entries, issued⟩ := sheet
  obtain ⟨others, count⟩ := other
  unfold merge ids
  dsimp only
  induction others generalizing entries with
  | nil => simp
  | cons entry others ih =>
    rw [List.foldl_cons, ih, List.map_cons, List.mem_cons]
    split
    next known =>
      obtain ⟨twin, listed, same⟩ := List.any_eq_true.mp known
      have there : entry.id ∈ entries.map Formula.id := beq_iff_eq.mp same ▸ List.mem_map_of_mem listed
      constructor
      · rintro (old | new)
        · exact .inl old
        · exact .inr (.inr new)
      · rintro (old | rfl | new)
        · exact .inl old
        · exact .inl there
        · exact .inr new
    next => rw [List.map_append, List.mem_append, List.map_singleton, List.mem_singleton, or_assoc]

end FormulaSheet

/-- Slots and a sheet, and what became of them: nothing is lost, a new slot has its entry and, if it is `sure`, a new
entry its slot. -/
structure Grows (sure : Prop) (slots : List String) (sheet : FormulaSheet) (more : List String) (after : FormulaSheet) :
    Prop where
  kept : sheet.ids ⊆ after.ids
  stay : slots ⊆ more
  known : ∀ id ∈ more, id ∈ slots ∨ id ∈ after.ids
  placed : sure → ∀ id ∈ after.ids, id ∈ sheet.ids ∨ id ∈ more

namespace Grows

variable {sure : Prop} {slots more most : List String} {sheet middle after : FormulaSheet}

theorem refl (sure : Prop) (slots : List String) (sheet : FormulaSheet) : Grows sure slots sheet slots sheet :=
  ⟨fun _ => id, fun _ => id, fun _ => .inl, fun _ _ => .inl⟩

theorem trans (first : Grows sure slots sheet more middle) (second : Grows sure more middle most after) :
    Grows sure slots sheet most after := by
  refine ⟨List.Subset.trans first.kept second.kept, List.Subset.trans first.stay second.stay, ?_, ?_⟩
  · intro id drawn
    rcases second.known id drawn with before | entry
    · exact (first.known id before).imp_right fun entry => second.kept entry
    · exact .inr entry
  · intro certain id entry
    rcases second.placed certain id entry with before | drawn
    · exact (first.placed certain id before).imp_right fun drawn => second.stay drawn
    · exact .inr drawn

/-- What stands next to the slots has no part in it. -/
theorem frame (grows : Grows sure slots sheet more after) (front back : List String) :
    Grows sure (front ++ slots ++ back) sheet (front ++ more ++ back) after := by
  refine ⟨grows.kept, ?_, ?_, ?_⟩
  · intro id member
    simp only [List.mem_append] at member ⊢
    exact member.imp_left (Or.imp_right fun drawn => grows.stay drawn)
  · intro id member
    simp only [List.mem_append] at member ⊢
    rcases member with (before | drawn) | behind
    · exact .inl (.inl (.inl before))
    · exact (grows.known id drawn).imp_left fun old => .inl (.inr old)
    · exact .inl (.inr behind)
  · intro certain id entry
    simp only [List.mem_append]
    exact (grows.placed certain id entry).imp_right fun drawn => .inl (.inr drawn)

theorem append {others further : List String} (first : Grows sure slots sheet more middle)
    (second : Grows sure others middle further after) : Grows sure (slots ++ others) sheet (more ++ further) after := by
  have one := first.frame [] others
  have two := second.frame more []
  simp only [List.nil_append, List.append_nil] at one two
  exact one.trans two

theorem mono {less : Prop} (grows : Grows sure slots sheet more after) (certain : less → sure) :
    Grows less slots sheet more after :=
  ⟨grows.kept, grows.stay, grows.known, fun given => grows.placed (certain given)⟩

/-- Where the sheet stays, no entry is new. -/
theorem still {less : Prop} (grows : Grows less slots sheet more after) (same : after = sheet) :
    Grows sure slots sheet more after :=
  ⟨grows.kept, grows.stay, grows.known, fun _ _ entry => .inl (same ▸ entry)⟩

theorem add (sure : Prop) (sheet : FormulaSheet) (latex : String) (block unique : Bool) :
    Grows sure [] sheet [(sheet.add latex block unique).1] (sheet.add latex block unique).2 := by
  have listed := sheet.mem_ids_add latex block unique
  refine ⟨fun id entry => (listed id).mpr (.inl entry), List.nil_subset _, ?_, ?_⟩
  · intro id drawn
    exact .inr ((listed id).mpr (.inr (List.mem_singleton.mp drawn)))
  · intro _ id entry
    exact ((listed id).mp entry).imp_right List.mem_singleton.mpr

end Grows

mutual

/-- Whether there is a formula to be taken out. -/
def Node.hasFormula : Node → Bool
  | .command ⟨_, _, args, declaration, _⟩ => (declaration.bind Declaration.math).isSome || hasFormula args
  | .bracket ⟨_, _, _, children⟩ => hasFormula children
  | .quotation _ _ children => hasFormula children
  | .fragment children => hasFormula children
  | .tag ⟨_, _, _, args, _⟩ => blocksHaveFormula args
  | _ => false
termination_by structural node => node

def hasFormula : List Node → Bool
  | [] => false
  | node :: rest => node.hasFormula || hasFormula rest
termination_by structural nodes => nodes

def blocksHaveFormula : List (Block Node) → Bool
  | [] => false
  | ⟨_, _, _, children⟩ :: rest => hasFormula children || blocksHaveFormula rest
termination_by structural blocks => blocks

end

/-- Formulas inside a formula, or inside a heading that is not drawn, are not taken out by themselves. -/
def dropsFormulas (attributes : Option Attributes) (declaration : Option Declaration) : Bool :=
  (declaration.bind Declaration.math).isSome ||
    (Formula.isHeading declaration && Attributes.has (attributes.getD []) "toc-only")

mutual

/-- Whether each formula that is taken out leaves a slot that is drawn. -/
def Node.isClear (toc : Bool) : Node → Bool
  | .command ⟨_, attributes, args, declaration, _⟩ => dropsFormulas attributes declaration ||
    if drawsBody toc attributes declaration then isClear toc args else !hasFormula args
  | .bracket ⟨_, _, _, children⟩ => isClear toc children
  | .quotation _ _ children => isClear toc children
  | .fragment children => isClear toc children
  | .tag ⟨_, _, _, args, _⟩ => blocksAreClear toc args
  | _ => true
termination_by structural node => node

def isClear (toc : Bool) : List Node → Bool
  | [] => true
  | node :: rest => node.isClear toc && isClear toc rest
termination_by structural nodes => nodes

def blocksAreClear (toc : Bool) : List (Block Node) → Bool
  | [] => true
  | ⟨_, _, _, children⟩ :: rest => isClear toc children && blocksAreClear toc rest
termination_by structural blocks => blocks

end

namespace Formula

open Builtin

mutual

theorem extractNode_unchanged (keep inHeading : Bool) (node : Node) (sheet : FormulaSheet)
    (none : keep = true → node.hasFormula = false) : ((extractNode keep inHeading node).run sheet).2 = sheet := by
  match node with
  | .command ⟨ident, attributes, args, declaration, rules⟩ =>
    simp only [Node.hasFormula, Bool.or_eq_false_iff, Option.isSome_eq_false_iff, Option.isNone_iff_eq_none] at none
    cases math : declaration.bind Declaration.math with
    | some spec =>
      cases keep with
      | true =>
        rw [math] at none
        cases (none rfl).1
      | false =>
        rw [extractNode, math]
        rfl
    | none =>
      rw [extractNode_plain keep inHeading ident attributes args rules math]
      refine extractNodes_unchanged _ _ args sheet fun kept => ?_
      rw [keeps, Bool.and_eq_true] at kept
      exact (none kept.1).2
  | .bracket ⟨_, _, _, children⟩ => exact extractNodes_unchanged keep inHeading children sheet none
  | .quotation _ _ children => exact extractNodes_unchanged keep inHeading children sheet none
  | .fragment children => exact extractNodes_unchanged keep inHeading children sheet none
  | .tag ⟨ident, options, attributes, args, rules⟩ => exact extractBlocks_unchanged keep inHeading args sheet none
  | .hole | .text _ _ | .symbol _ _ | .ident _ | .stray _ | .drawing _ => rfl
termination_by structural node

/-- Nothing is added to a sheet where formulas are dropped, or where there are none. -/
theorem extractNodes_unchanged (keep inHeading : Bool) (nodes : List Node) (sheet : FormulaSheet)
    (none : keep = true → hasFormula nodes = false) : ((extractNodes keep inHeading nodes).run sheet).2 = sheet := by
  match nodes with
  | [] => rfl
  | node :: rest =>
    simp only [hasFormula, Bool.or_eq_false_iff] at none
    have first := extractNode_unchanged keep inHeading node sheet fun kept => (none kept).1
    have second := extractNodes_unchanged keep inHeading rest ((extractNode keep inHeading node).run sheet).2
      fun kept => (none kept).2
    exact second.trans first
termination_by structural nodes

theorem extractBlocks_unchanged (keep inHeading : Bool) (blocks : List (Block Node)) (sheet : FormulaSheet)
    (none : keep = true → blocksHaveFormula blocks = false) :
    ((extractBlocks keep inHeading blocks).run sheet).2 = sheet := by
  match blocks with
  | [] => rfl
  | ⟨kind, opening, closing, children⟩ :: rest =>
    simp only [blocksHaveFormula, Bool.or_eq_false_iff] at none
    have first := extractNodes_unchanged keep inHeading children sheet fun kept => (none kept).1
    have second := extractBlocks_unchanged keep inHeading rest ((extractNodes keep inHeading children).run sheet).2
      fun kept => (none kept).2
    exact second.trans first
termination_by structural blocks

end

/-- A formula is shown by its slot alone. -/
theorem formula_hidden {known : Bool} {ident : Ident} {attributes : Option Attributes} {declaration : Option Declaration}
    (own : Known known ident attributes declaration) (math : (declaration.bind Declaration.math).isSome = true)
    (toc : Bool) : slotIds attributes declaration = [] ∧ drawsBody toc attributes declaration = false := by
  have lowered : Declaration.lowering declaration = .formula := by
    rcases own with ⟨_, rfl⟩ | ⟨found, listed, rfl⟩
    · cases math
    · exact (lowering_tells found (mem_lookup.mp listed).1).2.1.mpr math
  rw [slotIds, drawsBody, lowered]
  exact ⟨rfl, rfl⟩

theorem slot_slots (toc : Bool) (span : Span) (id : String) (block : Bool) : (slot span id block).slots toc = [id] := by
  have value : Attributes.value? (Attributes.set (Attributes.set [] "id" id) "display"
      (if block then "block" else "inline")) "id" = some id := by
    rw [Attributes.value?_set, if_neg (by decide), Attributes.value?_set, if_pos rfl]
  simp only [slot, Node.slots, slotIds, drawsBody, Declaration.lowering, Builtin.formulaSlot, Option.map_some,
    Option.getD_some, value]
  rfl

mutual

theorem extractNode_grows {known : Bool} (toc keep inHeading : Bool) (node : Node) (sheet : FormulaSheet)
    (declared : node.Declared (Known known)) :
    Grows (node.isClear toc = true) (node.slots toc) sheet (((extractNode keep inHeading node).run sheet).1.slots toc)
      ((extractNode keep inHeading node).run sheet).2 := by
  match node with
  | .command ⟨ident, attributes, args, declaration, rules⟩ =>
    obtain ⟨own, inside, _⟩ := declared
    cases math : declaration.bind Declaration.math with
    | some spec =>
      obtain ⟨bare, hidden⟩ := formula_hidden own (by rw [math]; rfl) toc
      have before : (Node.command ⟨ident, attributes, args, declaration, rules⟩).slots toc = [] := by
        rw [Node.slots, bare, hidden]
        rfl
      rw [before, extractNode, math]
      cases keep with
      | false => exact .refl _ _ _
      | true =>
        show Grows _ [] sheet ((slot ident.span _ spec.block).slots toc)
          (sheet.add (code spec args) spec.block (spec.unique || inHeading)).2
        rw [slot_slots]
        exact .add ..
    | none =>
      have grows := extractNodes_grows toc (keeps keep attributes declaration) (inHeading || isHeading declaration) args
        sheet inside
      have unchanged (none : keeps keep attributes declaration = true → hasFormula args = false) :=
        extractNodes_unchanged (keeps keep attributes declaration) (inHeading || isHeading declaration) args sheet none
      rw [extractNode_plain keep inHeading ident attributes args rules math]
      simp only [Node.slots, Node.isClear, dropsFormulas, math, Option.isSome_none, Bool.false_or]
      by_cases dropped : (isHeading declaration && Attributes.has (attributes.getD []) "toc-only") = true
      · have same := unchanged (by simp [keeps, dropped])
        split
        · have framed := grows.frame (slotIds attributes declaration) []
          simp only [List.append_nil] at framed
          exact framed.still same
        · rw [same]
          exact .refl _ _ _
      · split
        · have framed := grows.frame (slotIds attributes declaration) []
          simp only [List.append_nil] at framed
          exact framed.mono fun clear => by simpa [dropped] using clear
        next hidden =>
          refine ⟨grows.kept, List.Subset.refl _, fun _ => .inl, fun clear id entry => .inl ?_⟩
          rwa [unchanged fun _ => by simpa [dropped] using clear] at entry
  | .bracket ⟨_, _, _, children⟩ => exact extractNodes_grows toc keep inHeading children sheet declared
  | .quotation _ _ children => exact extractNodes_grows toc keep inHeading children sheet declared
  | .fragment children => exact extractNodes_grows toc keep inHeading children sheet declared
  | .tag ⟨ident, options, attributes, args, rules⟩ =>
    have blocks := (extractBlocks_grows toc keep inHeading args sheet declared.2.1).frame (optionsSlots toc options) []
    simp only [List.append_nil] at blocks
    exact blocks
  | .hole | .text _ _ | .symbol _ _ | .ident _ | .stray _ | .drawing _ => exact .refl _ _ _
termination_by structural node

theorem extractNodes_grows {known : Bool} (toc keep inHeading : Bool) (nodes : List Node) (sheet : FormulaSheet)
    (declared : Declared (Known known) nodes) :
    Grows (isClear toc nodes = true) (slots toc nodes) sheet (slots toc ((extractNodes keep inHeading nodes).run sheet).1)
      ((extractNodes keep inHeading nodes).run sheet).2 := by
  match nodes with
  | [] => exact .refl _ _ _
  | node :: rest =>
    have first := extractNode_grows toc keep inHeading node sheet declared.1
    have second := extractNodes_grows toc keep inHeading rest ((extractNode keep inHeading node).run sheet).2 declared.2
    simp only [isClear, Bool.and_eq_true]
    exact (first.mono And.left).append (second.mono And.right)
termination_by structural nodes

theorem extractBlocks_grows {known : Bool} (toc keep inHeading : Bool) (blocks : List (Block Node)) (sheet : FormulaSheet)
    (declared : BlocksDeclared (Known known) blocks) :
    Grows (blocksAreClear toc blocks = true) (blocksSlots toc blocks) sheet
      (blocksSlots toc ((extractBlocks keep inHeading blocks).run sheet).1)
      ((extractBlocks keep inHeading blocks).run sheet).2 := by
  match blocks with
  | [] => exact .refl _ _ _
  | ⟨kind, opening, closing, children⟩ :: rest =>
    have first := extractNodes_grows toc keep inHeading children sheet declared.1
    have second := extractBlocks_grows toc keep inHeading rest ((extractNodes keep inHeading children).run sheet).2
      declared.2
    simp only [blocksAreClear, Bool.and_eq_true]
    exact (first.mono And.left).append (second.mono And.right)
termination_by structural blocks

end

mutual

theorem extractNode_hasFormula (keep inHeading : Bool) (node : Node) (sheet : FormulaSheet) :
    ((extractNode keep inHeading node).run sheet).1.hasFormula = false := by
  match node with
  | .command ⟨ident, attributes, args, declaration, rules⟩ =>
    cases math : declaration.bind Declaration.math with
    | some spec =>
      rw [extractNode, math]
      cases keep <;> rfl
    | none =>
      rw [extractNode_plain keep inHeading ident attributes args rules math]
      simp only [Node.hasFormula, math, Option.isSome_none, Bool.false_or]
      exact extractNodes_hasFormula _ _ args sheet
  | .bracket ⟨_, _, _, children⟩ => exact extractNodes_hasFormula keep inHeading children sheet
  | .quotation _ _ children => exact extractNodes_hasFormula keep inHeading children sheet
  | .fragment children => exact extractNodes_hasFormula keep inHeading children sheet
  | .tag ⟨ident, options, attributes, args, rules⟩ => exact extractBlocks_hasFormula keep inHeading args sheet
  | .hole | .text _ _ | .symbol _ _ | .ident _ | .stray _ | .drawing _ => rfl
termination_by structural node

/-- No formula is left where formulas were taken out. -/
theorem extractNodes_hasFormula (keep inHeading : Bool) (nodes : List Node) (sheet : FormulaSheet) :
    hasFormula ((extractNodes keep inHeading nodes).run sheet).1 = false := by
  match nodes with
  | [] => rfl
  | node :: rest =>
    exact Bool.or_eq_false_iff.mpr ⟨extractNode_hasFormula keep inHeading node sheet,
      extractNodes_hasFormula keep inHeading rest ((extractNode keep inHeading node).run sheet).2⟩
termination_by structural nodes

theorem extractBlocks_hasFormula (keep inHeading : Bool) (blocks : List (Block Node)) (sheet : FormulaSheet) :
    blocksHaveFormula ((extractBlocks keep inHeading blocks).run sheet).1 = false := by
  match blocks with
  | [] => rfl
  | ⟨kind, opening, closing, children⟩ :: rest =>
    exact Bool.or_eq_false_iff.mpr ⟨extractNodes_hasFormula keep inHeading children sheet,
      extractBlocks_hasFormula keep inHeading rest ((extractNodes keep inHeading children).run sheet).2⟩
termination_by structural blocks

end

end Formula

mutual

theorem Node.isClear_of_hasFormula (toc : Bool) (node : Node) (none : node.hasFormula = false) :
    node.isClear toc = true := by
  match node with
  | .command ⟨ident, attributes, args, declaration, rules⟩ =>
    simp only [Node.hasFormula, Bool.or_eq_false_iff] at none
    have inside := isClear_of_hasFormula toc args none.2
    simp only [Node.isClear, none.2, inside, Bool.not_false, ite_self, Bool.or_true]
  | .bracket ⟨_, _, _, children⟩ => exact isClear_of_hasFormula toc children none
  | .quotation _ _ children => exact isClear_of_hasFormula toc children none
  | .fragment children => exact isClear_of_hasFormula toc children none
  | .tag ⟨ident, options, attributes, args, rules⟩ => exact blocksAreClear_of_haveFormula toc args none
  | .hole | .text _ _ | .symbol _ _ | .ident _ | .stray _ | .drawing _ => rfl
termination_by structural node

theorem isClear_of_hasFormula (toc : Bool) (nodes : List Node) (none : hasFormula nodes = false) :
    isClear toc nodes = true := by
  match nodes with
  | [] => rfl
  | node :: rest =>
    simp only [hasFormula, Bool.or_eq_false_iff] at none
    exact Bool.and_eq_true_iff.mpr ⟨Node.isClear_of_hasFormula toc node none.1, isClear_of_hasFormula toc rest none.2⟩
termination_by structural nodes

theorem blocksAreClear_of_haveFormula (toc : Bool) (blocks : List (Block Node))
    (none : blocksHaveFormula blocks = false) : blocksAreClear toc blocks = true := by
  match blocks with
  | [] => rfl
  | ⟨kind, opening, closing, children⟩ :: rest =>
    simp only [blocksHaveFormula, Bool.or_eq_false_iff] at none
    exact Bool.and_eq_true_iff.mpr
      ⟨isClear_of_hasFormula toc children none.1, blocksAreClear_of_haveFormula toc rest none.2⟩
termination_by structural blocks

end

section Slotless

open Builtin

mutual

theorem Node.slots_eq_nil (toc : Bool) (node : Node) (declared : node.Declared (Known false)) : node.slots toc = [] := by
  match node with
  | .command ⟨ident, attributes, args, declaration, rules⟩ =>
    obtain ⟨own, inside, _⟩ := declared
    have bare : slotIds attributes declaration = [] := by
      rcases own with ⟨impossible, _⟩ | ⟨found, listed, rfl⟩
      · cases impossible
      · have other := (lowering_tells found (mem_lookup.mp listed).1).2.2
        have lowered : Declaration.lowering (some found) = found.html := rfl
        rw [slotIds, lowered]
        split
        next slot => exact absurd slot other
        next => rfl
    rw [Node.slots, bare, slots_eq_nil toc args inside, ite_self]
    rfl
  | .bracket block => exact blockSlots_eq_nil toc block declared
  | .quotation _ _ children => exact slots_eq_nil toc children declared
  | .fragment children => exact slots_eq_nil toc children declared
  | .tag ⟨ident, options, attributes, args, rules⟩ =>
    obtain ⟨optional, blocks, _⟩ := declared
    rw [Node.slots, optionsSlots_eq_nil toc options optional, blocksSlots_eq_nil toc args blocks]
    rfl
  | .hole | .text _ _ | .symbol _ _ | .ident _ | .stray _ | .drawing _ => rfl
termination_by structural node

/-- Before formulas are taken out, there are no slots. -/
theorem slots_eq_nil (toc : Bool) (nodes : List Node) (declared : Declared (Known false) nodes) :
    slots toc nodes = [] := by
  match nodes with
  | [] => rfl
  | node :: rest =>
    rw [slots, Node.slots_eq_nil toc node declared.1, slots_eq_nil toc rest declared.2]
    rfl
termination_by structural nodes

theorem blockSlots_eq_nil (toc : Bool) (block : Block Node) (declared : BlockDeclared (Known false) block) :
    blockSlots toc block = [] := by
  match block with
  | ⟨_, _, _, children⟩ => exact slots_eq_nil toc children declared
termination_by structural block

theorem optionsSlots_eq_nil (toc : Bool) (options : Option (Block Node))
    (unresolved : OptionsUnresolved (fun _ => True) options) : optionsSlots toc options = [] := by
  match options with
  | none => rfl
  | some block => exact blockSlots_eq_nil toc block (blockDeclared_of_unresolved block unresolved)
termination_by structural options

theorem blocksSlots_eq_nil (toc : Bool) (blocks : List (Block Node)) (declared : BlocksDeclared (Known false) blocks) :
    blocksSlots toc blocks = [] := by
  match blocks with
  | [] => rfl
  | block :: rest =>
    rw [blocksSlots, blockSlots_eq_nil toc block declared.1, blocksSlots_eq_nil toc rest declared.2]
    rfl
termination_by structural blocks

end

end Slotless

namespace Outline

open Builtin

/-- A heading is drawn unless it is for the table of contents alone, and in that case formulas in it are dropped. -/
theorem heading_slots {known : Bool} (toc : Bool) {command : Command Node}
    (own : Known known command.ident command.attributes command.declaration)
    (heads : Formula.isHeading command.declaration = true) :
    (Node.command command).slots toc =
        (if !(toc && command.hasAttribute "toc-only") then slots toc command.args else []) ∧
      (Node.command command).isClear toc = (command.hasAttribute "toc-only" || isClear toc command.args) ∧
      (Node.command command).hasFormula = hasFormula command.args := by
  have lowered : Declaration.lowering command.declaration = .heading := by
    obtain ⟨heading, listed, declared, positive⟩ := own.heading heads
    rw [declared]
    exact (lowering_tells heading (mem_lookup.mp listed).1).1.mpr positive
  have math := own.math heads
  obtain ⟨ident, attributes, args, declaration, rules⟩ := command
  simp only [Node.slots, Node.isClear, Node.hasFormula, slotIds, drawsBody, dropsFormulas, lowered, math, heads,
    Command.hasAttribute, Option.isSome_none, Bool.false_or, Bool.true_and, List.nil_append, and_true]
  by_cases flag : Attributes.has (attributes.getD []) "toc-only" = true
  · simp [flag]
  · simp [flag]

mutual

theorem adjustNode_slots {known : Bool} {adjustment : Adjustment} (standard : adjustment.registry = registry)
    (drawn : adjustment.tocOnly = false) (toc : Bool) (node : Node) (declared : node.Declared (Known known)) :
    (adjustNode adjustment node).slots toc = node.slots toc ∧
      (adjustNode adjustment node).isClear toc = node.isClear toc ∧
      (adjustNode adjustment node).hasFormula = node.hasFormula := by
  match node with
  | .command ⟨ident, attributes, args, declaration, rules⟩ =>
    by_cases heads : Formula.isHeading declaration = true
    · have changed := adjustNode_known standard _ declared
      obtain ⟨same, still⟩ :=
        @adjustNode_heading known _ standard ⟨ident, attributes, args, declaration, rules⟩ declared.1 heads
      rw [same] at changed ⊢
      have flag : (adjusted adjustment ⟨ident, attributes, args, declaration, rules⟩).hasAttribute "toc-only" =
          Attributes.has (attributes.getD []) "toc-only" := by
        rw [Command.hasAttribute, @adjusted_attributes known adjustment ⟨ident, attributes, args, declaration, rules⟩
          declared.1 heads, Option.getD_some, adjustAttributes_has _ _ (by decide), drawn]
        simp
      obtain ⟨slots, clear, formula⟩ := heading_slots toc (command_declared.mp changed).1 still
      obtain ⟨more, further, others⟩ :=
        @heading_slots known toc ⟨ident, attributes, args, declaration, rules⟩ declared.1 heads
      rw [slots, clear, formula, more, further, others, flag, adjusted_args]
      exact ⟨rfl, rfl, rfl⟩
    · obtain ⟨slots, clear, formula⟩ := adjust_slots standard drawn toc args declared.2.1
      rw [adjustNode_plain adjustment ident attributes args rules heads]
      simp only [Node.slots, Node.isClear, Node.hasFormula, slots, clear, formula, and_self]
  | .bracket ⟨_, _, _, children⟩ => exact adjust_slots standard drawn toc children declared
  | .quotation _ _ children => exact adjust_slots standard drawn toc children declared
  | .fragment children => exact adjust_slots standard drawn toc children declared
  | .hole | .text _ _ | .symbol _ _ | .ident _ | .stray _ | .drawing _ | .tag _ => exact ⟨rfl, rfl, rfl⟩
termination_by structural node

/-- Unless it flags headings as not drawn, an inclusion does not change what is drawn. -/
theorem adjust_slots {known : Bool} {adjustment : Adjustment} (standard : adjustment.registry = registry)
    (drawn : adjustment.tocOnly = false) (toc : Bool) (nodes : List Node) (declared : Declared (Known known) nodes) :
    slots toc (adjust adjustment nodes) = slots toc nodes ∧
      isClear toc (adjust adjustment nodes) = isClear toc nodes ∧
      hasFormula (adjust adjustment nodes) = hasFormula nodes := by
  match nodes with
  | [] => exact ⟨rfl, rfl, rfl⟩
  | node :: rest =>
    obtain ⟨slots, clear, formula⟩ := adjustNode_slots standard drawn toc node declared.1
    obtain ⟨more, still, further⟩ := adjust_slots standard drawn toc rest declared.2
    simp only [adjust, Manuscript.slots, isClear, hasFormula, slots, clear, formula, more, still, further, and_self]
termination_by structural nodes

end

end Outline

end Manuscript
