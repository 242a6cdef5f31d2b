import Manuscript.Proofs.FormulaPlaces

/-! What the slots of a page stand for. A page with slots is compared with the same page with its formulas left where
they are: each slot stands in the place of a formula and has an entry for it. Entries have ids of their own, and an
entry that is not shared has one slot at most. -/

namespace Manuscript

namespace Hex

theorem lowerDigit_injective {value other : Nat} (small : value < 16) (less : other < 16)
    (same : lowerDigit value = lowerDigit other) : value = other := by
  have all : ∀ value < 16, ∀ other < 16, lowerDigit value = lowerDigit other → value = other := by decide
  exact all value small other less same

theorem mod_of_places {width value other : Nat}
    (same : ∀ place < width, value / 16 ^ place % 16 = other / 16 ^ place % 16) :
    value % 16 ^ width = other % 16 ^ width := by
  induction width with
  | zero => rw [Nat.pow_zero, Nat.mod_one, Nat.mod_one]
  | succ width ih =>
    have lower := ih fun place within => same place (by omega)
    rw [Nat.mod_pow_succ, Nat.mod_pow_succ, lower, same width (Nat.lt_succ_self width)]

/-- Digits tell numbers apart as far as they go. -/
theorem mod_of_digits {width value other : Nat} (same : digits lowerDigit width value = digits lowerDigit width other) :
    value % 16 ^ width = other % 16 ^ width := by
  apply mod_of_places
  intro place within
  have digit := List.map_inj_left.mp same place (List.mem_reverse.mpr (List.mem_range.mpr within))
  exact lowerDigit_injective (Nat.mod_lt _ (by omega)) (Nat.mod_lt _ (by omega)) digit

end Hex

namespace FormulaSheet

/-- Ids are fresh as long as there are digits for them. -/
theorem idOf_injective {number other : Nat} (room : number < 16 ^ 12) (space : other < 16 ^ 12)
    (same : idOf number = idOf other) : number = other := by
  have digits : Hex.digits Hex.lowerDigit 12 number = Hex.digits Hex.lowerDigit 12 other := by
    unfold idOf at same
    have last := String.append_right_inj _ |>.mp same
    exact String.ofList_injective last
  have rest := Hex.mod_of_digits digits
  rwa [Nat.mod_eq_of_lt room, Nat.mod_eq_of_lt space] at rest

end FormulaSheet

namespace Formula

/-- What is typeset for a formula: the LaTeX of its arguments, inside its environment if it has one. -/
inductive Typeset (spec : MathSpec) (args : List Node) : String → Prop where
  | bare (none : spec.environment = "") : Typeset spec args (latexBody args)
  | enclosed (some : spec.environment ≠ "") :
      Typeset spec args ("\\begin\x7b" ++ spec.environment ++ "\x7d" ++ latexBody args ++
        "\\end\x7b" ++ spec.environment ++ "\x7d")

theorem typeset_iff {spec : MathSpec} {args : List Node} {text : String} :
    Typeset spec args text ↔ text = code spec args := by
  unfold code
  constructor
  · intro typeset
    cases typeset with
    | bare none => rw [if_pos none]
    | enclosed some => rw [if_neg some]
  · rintro rfl
    split
    next none => exact .bare none
    next some => exact .enclosed some

/-- The command in the place of a formula. It has the id of an entry and says whether what is typeset is displayed. -/
inductive Slot (span : Span) (id : String) : (block : Bool) → Node → Prop where
  | displayed : Slot span id true (.command {
      ident := ⟨"\\mathslot", span⟩
      attributes := some [⟨.symbol "id" {}, some (.text id {})⟩, ⟨.symbol "display" {}, some (.text "block" {})⟩]
      declaration := some Builtin.formulaSlot })
  | inline : Slot span id false (.command {
      ident := ⟨"\\mathslot", span⟩
      attributes := some [⟨.symbol "id" {}, some (.text id {})⟩, ⟨.symbol "display" {}, some (.text "inline" {})⟩]
      declaration := some Builtin.formulaSlot })

theorem slot_iff {span : Span} {id : String} {block : Bool} {node : Node} :
    Slot span id block node ↔ node = slot span id block := by
  constructor
  · intro stands
    cases stands <;> rfl
  · rintro rfl
    cases block with
    | true => exact .displayed
    | false => exact .inline

/-- A formula of a page, what it is declared to be, whether it stands in a heading, and the id it was given. -/
structure Place where
  spec : MathSpec
  latex : String
  heading : Bool
  id : String

/-- Two formulas are the same, and each is declared to be one that may be shared. -/
structure Place.Alike (one other : Place) : Prop where
  plain : one.spec.unique = false
  open_other : other.spec.unique = false
  block : one.spec.block = other.spec.block
  latex : one.latex = other.latex

/-- The same formula, in a heading if `outer` says that it is in one there. -/
def Place.under (outer : Bool) (place : Place) : Place := { place with heading := outer || place.heading }

/-- There is nothing inside that formulas are taken out of. -/
def isLeaf : Node → Bool
  | .command _ | .bracket _ | .quotation _ _ _ | .fragment _ | .tag _ => false
  | _ => true

/-- The second list is the first with some of its formulas taken out, which gave these slots. `heading` tells whether it
stands in a heading. A heading may have been fitted into an outline on one side alone. -/
inductive Replaced : (heading : Bool) → List Node → List Node → List Place → Prop where
  | nil {heading : Bool} : Replaced heading [] [] []
  | leaf {heading : Bool} {node : Node} {nodes left : List Node} {places : List Place} (plain : isLeaf node = true)
      (later : Replaced heading nodes left places) : Replaced heading (node :: nodes) (node :: left) places
  | command {heading : Bool} {ident : Ident} {attributes : Option Attributes} {args inner : List Node}
      {declaration : Option Declaration} {rules : List (Rule Node)} {nodes left : List Node} {below places : List Place}
      (plain : isHeading declaration = false) (inside : Replaced heading args inner below)
      (later : Replaced heading nodes left places) :
      Replaced heading (.command ⟨ident, attributes, args, declaration, rules⟩ :: nodes)
        (.command ⟨ident, attributes, inner, declaration, rules⟩ :: left) (below ++ places)
  | heading {heading : Bool} {command other : Command Node} {nodes left : List Node} {below places : List Place}
      (heads : isHeading command.declaration = true) (still : isHeading other.declaration = true)
      (inside : Replaced true command.args other.args below) (later : Replaced heading nodes left places) :
      Replaced heading (.command command :: nodes) (.command other :: left) (below ++ places)
  | bracket {heading : Bool} {kind : BracketKind} {opening closing : Option Token}
      {children inner nodes left : List Node} {below places : List Place}
      (inside : Replaced heading children inner below) (later : Replaced heading nodes left places) :
      Replaced heading (.bracket ⟨kind, opening, closing, children⟩ :: nodes)
        (.bracket ⟨kind, opening, closing, inner⟩ :: left) (below ++ places)
  | quotation {heading : Bool} {opening closing : Option Token} {children inner nodes left : List Node}
      {below places : List Place} (inside : Replaced heading children inner below)
      (later : Replaced heading nodes left places) :
      Replaced heading (.quotation opening closing children :: nodes) (.quotation opening closing inner :: left)
        (below ++ places)
  | fragment {heading : Bool} {children inner nodes left : List Node} {below places : List Place}
      (inside : Replaced heading children inner below) (later : Replaced heading nodes left places) :
      Replaced heading (.fragment children :: nodes) (.fragment inner :: left) (below ++ places)
  | tag {heading : Bool} {ident : Ident} {options : Option (Block Node)} {attributes : Option Attributes}
      {args inner : List (Block Node)} {rules : List (Rule Node)} {nodes left : List Node} {below places : List Place}
      (inside : Replaced heading (args.map .bracket) (inner.map .bracket) below)
      (later : Replaced heading nodes left places) :
      Replaced heading (.tag ⟨ident, options, attributes, args, rules⟩ :: nodes)
        (.tag ⟨ident, options, attributes, inner, rules⟩ :: left) (below ++ places)
  /-- The text of a formula is what was made of it by the time it was taken out. -/
  | formula {heading : Bool} {ident : Ident} {attributes : Option Attributes} {args written : List Node}
      {declaration : Option Declaration} {rules : List (Rule Node)} {spec : MathSpec} {latex id : String} {put : Node}
      {nodes left : List Node} {lost places : List Place} (math : declaration.bind Declaration.math = some spec)
      (typeset : Typeset spec written latex) (stands : Slot ident.span id spec.block put)
      (inside : Replaced heading args written lost) (later : Replaced heading nodes left places) :
      Replaced heading (.command ⟨ident, attributes, args, declaration, rules⟩ :: nodes) (put :: left)
        (⟨spec, latex, heading, id⟩ :: places)
  /-- What is not drawn is left without formulas. -/
  | dropped {heading : Bool} {command : Command Node} {nodes left : List Node} {places : List Place}
      (math : (command.declaration.bind Declaration.math).isSome = true) (later : Replaced heading nodes left places) :
      Replaced heading (.command command :: nodes) (.fragment [] :: left) places

mutual

theorem replaced_node (heading : Bool) (node : Node) {nodes left : List Node} {places : List Place}
    (later : Replaced heading nodes left places) : Replaced heading (node :: nodes) (node :: left) places := by
  change Replaced heading _ _ ([] ++ places)
  match node with
  | .command ⟨ident, attributes, args, declaration, rules⟩ =>
    by_cases heads : isHeading declaration = true
    · exact .heading heads heads (replaced_self true args) later
    · exact .command (Bool.eq_false_iff.mpr heads) (replaced_self heading args) later
  | .bracket ⟨_, _, _, children⟩ => exact .bracket (replaced_self heading children) later
  | .quotation _ _ children => exact .quotation (replaced_self heading children) later
  | .fragment children => exact .fragment (replaced_self heading children) later
  | .tag ⟨_, _, _, args, _⟩ => exact .tag (replaced_blocks heading args) later
  | .hole | .text _ _ | .symbol _ _ | .ident _ | .stray _ | .drawing _ => exact .leaf rfl later
termination_by structural node

/-- Where no formula is taken out, nothing changes. -/
theorem replaced_self (heading : Bool) (nodes : List Node) : Replaced heading nodes nodes [] := by
  match nodes with
  | [] => exact .nil
  | node :: rest => exact replaced_node heading node (replaced_self heading rest)
termination_by structural nodes

theorem replaced_blocks (heading : Bool) (blocks : List (Block Node)) :
    Replaced heading (blocks.map .bracket) (blocks.map .bracket) [] := by
  match blocks with
  | [] => exact .nil
  | ⟨_, _, _, children⟩ :: rest =>
    change Replaced heading _ _ ([] ++ [])
    exact .bracket (replaced_self heading children) (replaced_blocks heading rest)
termination_by structural blocks

end

namespace Replaced

open Builtin Outline

variable {heading slots : Bool} {nodes left : List Node} {places : List Place}

/-- What is put into a heading is in a heading from then on. -/
theorem under (outer : Bool) (replaced : Replaced heading nodes left places) :
    Replaced (outer || heading) nodes left (places.map (Place.under outer)) := by
  induction replaced with
  | nil => exact .nil
  | leaf plain _ later => exact .leaf plain later
  | command plain _ _ inside later =>
    rw [List.map_append]
    exact .command plain inside later
  | heading heads still _ _ inside later =>
    rw [List.map_append]
    rw [Bool.or_true] at inside
    exact .heading heads still inside later
  | bracket _ _ inside later =>
    rw [List.map_append]
    exact .bracket inside later
  | quotation _ _ inside later =>
    rw [List.map_append]
    exact .quotation inside later
  | fragment _ _ inside later =>
    rw [List.map_append]
    exact .fragment inside later
  | tag _ _ inside later =>
    rw [List.map_append]
    exact .tag inside later
  | formula math typeset stands _ _ inside later => exact .formula math typeset stands inside later
  | dropped math _ later => exact .dropped math later

section Adjust

variable {adjustment : Adjustment} (standard : adjustment.registry = registry)

include standard

theorem adjust_left (replaced : Replaced heading nodes left places) (known : Declared (Known slots) nodes) :
    Replaced heading (adjust adjustment nodes) left places := by
  induction replaced with
  | nil => exact .nil
  | @leaf _ node _ _ _ plain _ later =>
    have same : adjustNode adjustment node = node := by cases node <;> first | rfl | cases plain
    rw [adjust, same]
    exact .leaf plain (later known.2)
  | command plain _ _ inside later =>
    rw [adjust, adjustNode_plain _ _ _ _ _ (Bool.eq_false_iff.mp plain)]
    exact .command plain (inside known.1.2.1) (later known.2)
  | heading heads still within _ _ later =>
    obtain ⟨same, fits⟩ := adjustNode_heading standard (command_declared.mp known.1).1 heads
    rw [adjust, same]
    exact .heading fits still ((adjusted_args ..).symm ▸ within) (later known.2)
  | bracket _ _ inside later => exact .bracket (inside known.1) (later known.2)
  | quotation _ _ inside later => exact .quotation (inside known.1) (later known.2)
  | fragment _ _ inside later => exact .fragment (inside known.1) (later known.2)
  | tag within _ _ later => exact .tag within (later known.2)
  | formula math typeset stands _ _ inside later =>
    rw [adjust, adjustNode_plain _ _ _ _ _ fun heads => by cases (known.1.1.math heads).symm.trans math]
    exact .formula math typeset stands (inside known.1.2.1) (later known.2)
  | @dropped _ command _ _ _ math _ later =>
    obtain ⟨ident, attributes, args, declaration, rules⟩ := command
    rw [adjust, adjustNode_plain _ _ _ _ _ fun heads => by cases (known.1.1.math heads) ▸ math]
    exact .dropped math (later known.2)

theorem adjust_right (replaced : Replaced heading nodes left places) (known : Declared (Known slots) left) :
    Replaced heading nodes (adjust adjustment left) places := by
  induction replaced with
  | nil => exact .nil
  | @leaf _ node _ _ _ plain _ later =>
    have same : adjustNode adjustment node = node := by cases node <;> first | rfl | cases plain
    rw [adjust, same]
    exact .leaf plain (later known.2)
  | command plain _ _ inside later =>
    rw [adjust, adjustNode_plain _ _ _ _ _ (Bool.eq_false_iff.mp plain)]
    exact .command plain (inside known.1.2.1) (later known.2)
  | heading heads still within _ _ later =>
    obtain ⟨same, fits⟩ := adjustNode_heading standard (command_declared.mp known.1).1 still
    rw [adjust, same]
    exact .heading heads fits ((adjusted_args ..).symm ▸ within) (later known.2)
  | bracket _ _ inside later => exact .bracket (inside known.1) (later known.2)
  | quotation _ _ inside later => exact .quotation (inside known.1) (later known.2)
  | fragment _ _ inside later => exact .fragment (inside known.1) (later known.2)
  | tag within _ _ later => exact .tag within (later known.2)
  | formula math typeset stands within _ _ later =>
    obtain rfl := slot_iff.mp stands
    exact .formula math typeset stands within (later known.2)
  | dropped math _ later => exact .dropped math (later known.2)

end Adjust

end Replaced

/-- A place has this entry. One in a heading should not share it, and does not where this is `sure`. -/
structure Place.Entered (sure : Prop) (place : Place) (entry : Formula) : Prop where
  id : entry.id = place.id
  latex : entry.latex = place.latex
  block : entry.block = place.spec.block
  own : place.spec.unique = true → entry.unique = true
  sharing : entry.unique = true → place.spec.unique = true ∨ place.heading = true
  apart : sure → place.heading = true → entry.unique = true

theorem Place.Entered.under {sure : Prop} {place : Place} {entry : Formula} (entered : place.Entered sure entry)
    {outer : Bool} (apart : sure → outer = true → entry.unique = true) : (place.under outer).Entered sure entry := by
  refine ⟨entered.id, entered.latex, entered.block, entered.own, fun unique => ?_, fun certain inside => ?_⟩
  · exact (entered.sharing unique).imp_right fun inside => by simp [Place.under, inside]
  · rcases Bool.or_eq_true_iff.mp inside with new | old
    · exact apart certain new
    · exact entered.apart certain old

end Formula

/-- Two entries are not for the same formula, unless one of them is not to be shared. -/
def Formula.Apart (entry other : Formula) : Prop :=
  entry.unique = false → other.unique = false → entry.block = other.block → entry.latex ≠ other.latex

instance : Std.Symm Formula.Apart where
  symm _ _ apart shared plain block latex := apart plain shared block.symm latex.symm

namespace FormulaSheet

/-- A sheet has accounts of the slots: each has its entry, and an entry that is not shared has one slot. Its ids go on
from `first`. It lists no formula twice where this is `sure`. -/
structure Accounts (sure : Prop) (first : Nat) (sheet : FormulaSheet) (places : List Formula.Place) : Prop where
  ids : sheet.ids = (List.range' (first + 1) sheet.entries.length).map idOf
  issued : sheet.issued = first + sheet.entries.length
  entered : ∀ place ∈ places, ∃ entry ∈ sheet.entries, place.Entered sure entry
  alone : ∀ entry ∈ sheet.entries, entry.unique = true → (places.map Formula.Place.id).count entry.id ≤ 1
  apart : sure → sheet.entries.Pairwise Formula.Apart

namespace Accounts

variable {sure : Prop} {first : Nat} {sheet : FormulaSheet} {places others : List Formula.Place}

/-- Slots may be lost, and their order does not count. -/
theorem mono (accounts : sheet.Accounts sure first others) (fewer : places.Subperm others) :
    sheet.Accounts sure first places := by
  obtain ⟨list, same, within⟩ := fewer
  refine ⟨accounts.ids, accounts.issued, fun place member => ?_, fun entry listed unique => ?_, accounts.apart⟩
  · exact accounts.entered place (within.subset (same.mem_iff.mpr member))
  · rw [← (same.map _).count_eq]
    exact (List.Sublist.count_le _ (within.map _)).trans (accounts.alone entry listed unique)

theorem mem_ids (accounts : sheet.Accounts sure first places) {id : String} (member : id ∈ sheet.ids) :
    ∃ number, first < number ∧ number ≤ sheet.issued ∧ id = idOf number := by
  rw [accounts.ids] at member
  obtain ⟨number, within, rfl⟩ := List.mem_map.mp member
  have bounds := List.mem_range'_1.mp within
  have issued := accounts.issued
  exact ⟨number, by omega, by omega, rfl⟩

/-- An id that is handed out is new. -/
theorem fresh (accounts : sheet.Accounts sure first places) (room : sheet.issued + 1 < 16 ^ 12) :
    idOf (sheet.issued + 1) ∉ sheet.ids := by
  intro member
  obtain ⟨number, _, bound, same⟩ := accounts.mem_ids member
  have equal := idOf_injective room (by omega) same
  omega

theorem nodup (accounts : sheet.Accounts sure first places) (room : sheet.issued < 16 ^ 12) : sheet.ids.Nodup := by
  rw [accounts.ids]
  refine List.Nodup.map_on ?_ List.nodup_range'
  intro number within other inside same
  have bounds := List.mem_range'_1.mp within
  have limits := List.mem_range'_1.mp inside
  have issued := accounts.issued
  exact idOf_injective (by omega) (by omega) same

theorem entry_eq (accounts : sheet.Accounts sure first places) (room : sheet.issued < 16 ^ 12) {entry other : Formula}
    (listed : entry ∈ sheet.entries) (member : other ∈ sheet.entries) (same : entry.id = other.id) : entry = other :=
  List.inj_on_of_nodup_map (accounts.nodup room) listed member same

theorem place_id (accounts : sheet.Accounts sure first places) {id : String}
    (member : id ∈ places.map Formula.Place.id) : id ∈ sheet.ids := by
  obtain ⟨place, listed, rfl⟩ := List.mem_map.mp member
  obtain ⟨entry, inside, entered⟩ := accounts.entered place listed
  exact entered.id ▸ List.mem_map_of_mem inside

/-- An entry that is shared may have more slots. -/
theorem share (accounts : sheet.Accounts sure first places) (room : sheet.issued < 16 ^ 12) {entry : Formula}
    {place : Formula.Place} (listed : entry ∈ sheet.entries) (shared : entry.unique = false)
    (entered : place.Entered sure entry) : sheet.Accounts sure first (place :: places) := by
  refine ⟨accounts.ids, accounts.issued, List.forall_mem_cons.mpr ⟨⟨entry, listed, entered⟩, accounts.entered⟩, ?_,
    accounts.apart⟩
  intro other member unique
  have different : place.id ≠ other.id := by
    intro equal
    obtain rfl := accounts.entry_eq room listed member (entered.id.trans equal)
    cases shared.symm.trans unique
  rw [List.map_cons, List.count_cons_of_ne different]
  exact accounts.alone other member unique

/-- An entry with the next id is listed last, and its slot is the only one so far. -/
theorem enter (accounts : sheet.Accounts sure first places) (room : sheet.issued + 1 < 16 ^ 12) {entry : Formula}
    {place : Formula.Place} (next : entry.id = idOf (sheet.issued + 1)) (entered : place.Entered sure entry)
    (apart : sure → ∀ other ∈ sheet.entries, other.Apart entry) :
    Accounts sure first ⟨sheet.entries ++ [entry], sheet.issued + 1⟩ (place :: places) := by
  have new : place.id ∉ sheet.ids := (entered.id.symm.trans next) ▸ accounts.fresh room
  have issued := accounts.issued
  constructor
  · have ids := accounts.ids
    unfold FormulaSheet.ids at ids ⊢
    rw [List.map_append, List.length_append, List.length_singleton, List.range'_1_concat, List.map_append, ids,
      List.map_singleton, List.map_singleton, next, show first + 1 + sheet.entries.length = sheet.issued + 1 by omega]
  · rw [List.length_append, List.length_singleton, issued, Nat.add_assoc]
  · refine List.forall_mem_cons.mpr ⟨⟨entry, List.mem_concat_self, entered⟩, fun other member => ?_⟩
    obtain ⟨twin, listed, fits⟩ := accounts.entered other member
    exact ⟨twin, List.mem_append_left _ listed, fits⟩
  · intro other member unique
    rw [List.map_cons]
    rcases List.mem_append.mp member with old | added
    · have different : place.id ≠ other.id := fun same => new (same ▸ List.mem_map_of_mem old)
      rw [List.count_cons_of_ne different]
      exact accounts.alone other old unique
    · obtain rfl := List.mem_singleton.mp added
      rw [entered.id, List.count_cons_self, List.count_eq_zero.mpr fun member => new (accounts.place_id member)]
  · intro certain
    refine List.pairwise_append.mpr ⟨accounts.apart certain, List.pairwise_singleton _ _, fun other listed => ?_⟩
    exact List.forall_mem_singleton.mpr (apart certain other listed)

/-- Accounts are kept of a formula that is added. -/
theorem add (accounts : sheet.Accounts sure first places) (spec : MathSpec) (latex : String) (heading : Bool)
    (room : (sheet.add latex spec.block (spec.unique || heading)).2.issued < 16 ^ 12) :
    (sheet.add latex spec.block (spec.unique || heading)).2.Accounts sure first
      (⟨spec, latex, heading, (sheet.add latex spec.block (spec.unique || heading)).1⟩ :: places) := by
  unfold FormulaSheet.add at room ⊢
  split at room
  next entry found =>
    have joins : (spec.unique || heading) = false := by
      cases unique : spec.unique || heading with
      | false => rfl
      | true =>
        rw [unique] at found
        cases found
    rw [joins] at found
    obtain ⟨plain, outside⟩ := Bool.or_eq_false_iff.mp joins
    have fits := List.find?_some found
    simp only [Bool.and_eq_true, Bool.not_eq_true', beq_iff_eq] at fits
    obtain ⟨⟨shared, block⟩, same⟩ := fits
    refine accounts.share room (List.mem_of_find?_eq_some found) shared ⟨rfl, same, block, ?_, ?_, ?_⟩
    · intro unique
      cases plain.symm.trans unique
    · intro unique
      cases shared.symm.trans unique
    · intro _ inside
      cases outside.symm.trans inside
  next found =>
    refine accounts.enter room rfl ⟨rfl, rfl, rfl, ?_, Bool.or_eq_true_iff.mp, ?_⟩ ?_
    · intro unique
      exact Bool.or_eq_true_iff.mpr (.inl unique)
    · intro _ inside
      exact Bool.or_eq_true_iff.mpr (.inr inside)
    · intro _ entry listed shared plain block latex
      replace plain : (spec.unique || heading) = false := plain
      rw [plain] at found
      have absent := List.find?_eq_none.mp found entry listed
      simp [shared, block, latex] at absent

/-- Slots with one id share an entry. -/
theorem sharing (accounts : sheet.Accounts sure first places) : places.Pairwise fun one other =>
    one.id = other.id → ∀ entry ∈ sheet.entries, entry.id = one.id → entry.unique = false := by
  induction places with
  | nil => exact .nil
  | cons place places ih =>
    refine .cons (fun other member same entry listed equal => ?_)
      (ih (accounts.mono (List.sublist_cons_self ..).subperm))
    by_contra unique
    have bound := accounts.alone entry listed (by simpa using unique)
    have again : place.id ∈ places.map Formula.Place.id := same ▸ List.mem_map_of_mem member
    have positive := List.count_pos_iff.mpr again
    rw [List.map_cons, equal, List.count_cons_self] at bound
    omega

/-- Slots share an id only if their formulas may and are the same; if it is `sure`, those that may and are do. -/
theorem shared (accounts : sheet.Accounts sure first places) (room : sheet.issued < 16 ^ 12) :
    places.Pairwise fun one other => (one.id = other.id → one.Alike other) ∧
      (sure → (one.id = other.id ↔ one.Alike other ∧ one.heading = false ∧ other.heading = false)) := by
  refine accounts.sharing.imp_of_mem fun {one other} member inside sharing => ?_
  obtain ⟨entry, listed, entered⟩ := accounts.entered one member
  obtain ⟨twin, found, fits⟩ := accounts.entered other inside
  have alike (same : one.id = other.id) : entry.unique = false ∧ entry = twin :=
    ⟨sharing same entry listed entered.id,
      accounts.entry_eq room listed found (entered.id.trans (same.trans fits.id.symm))⟩
  have forward (same : one.id = other.id) : one.Alike other := by
    obtain ⟨plain, rfl⟩ := alike same
    refine ⟨?_, ?_, entered.block.symm.trans fits.block, entered.latex.symm.trans fits.latex⟩
    · exact Bool.eq_false_iff.mpr fun unique => by cases plain.symm.trans (entered.own unique)
    · exact Bool.eq_false_iff.mpr fun unique => by cases plain.symm.trans (fits.own unique)
  refine ⟨forward, fun certain => ⟨fun same => ⟨forward same, ?_⟩, ?_⟩⟩
  · obtain ⟨plain, rfl⟩ := alike same
    constructor
    · exact Bool.eq_false_iff.mpr fun headed => by cases plain.symm.trans (entered.apart certain headed)
    · exact Bool.eq_false_iff.mpr fun headed => by cases plain.symm.trans (fits.apart certain headed)
  · rintro ⟨⟨plain, simple, block, latex⟩, outside, apart⟩
    have open_entry : entry.unique = false := Bool.eq_false_iff.mpr fun unique => by
      simpa [plain, outside] using entered.sharing unique
    have open_twin : twin.unique = false := Bool.eq_false_iff.mpr fun unique => by
      simpa [simple, apart] using fits.sharing unique
    have same : entry = twin := by
      by_contra different
      exact (accounts.apart certain).forall listed found different open_entry open_twin
        (entered.block.trans (block.trans fits.block.symm)) (entered.latex.trans (latex.trans fits.latex.symm))
    exact entered.id.symm.trans ((congrArg Formula.id same).trans fits.id)

theorem mem_merge {other : FormulaSheet} {entry : Formula} (member : entry ∈ (sheet.merge other).entries) :
    entry ∈ sheet.entries ∨ entry ∈ other.entries := by
  obtain ⟨entries, issued⟩ := sheet
  obtain ⟨added, count⟩ := other
  unfold FormulaSheet.merge at member
  dsimp only at member ⊢
  induction added generalizing entries with
  | nil => exact .inl member
  | cons first added ih =>
    rw [List.foldl_cons] at member
    rw [List.mem_cons]
    rcases ih _ member with old | new
    · split at old
      · exact .inl old
      · rw [List.mem_append, List.mem_singleton] at old
        exact old.imp_right .inl
    · exact .inr (.inr new)

theorem merge_entries {other : FormulaSheet} (fresh : ∀ entry ∈ other.entries, entry.id ∉ sheet.ids)
    (distinct : other.ids.Nodup) : (sheet.merge other).entries = sheet.entries ++ other.entries := by
  obtain ⟨entries, issued⟩ := sheet
  obtain ⟨added, count⟩ := other
  unfold FormulaSheet.merge FormulaSheet.ids at *
  dsimp only at fresh distinct ⊢
  induction added generalizing entries with
  | nil => exact (List.append_nil _).symm
  | cons first added ih =>
    obtain ⟨new, others⟩ := List.forall_mem_cons.mp fresh
    obtain ⟨single, rest⟩ := List.nodup_cons.mp distinct
    have unknown : ¬(entries.any (·.id == first.id)) = true := by
      rw [List.any_eq_true]
      rintro ⟨twin, listed, same⟩
      exact new (beq_iff_eq.mp same ▸ List.mem_map_of_mem listed)
    have unlisted : ∀ entry ∈ added, entry.id ∉ (entries ++ [first]).map Formula.id := by
      intro entry member known
      rw [List.map_append, List.mem_append, List.map_singleton, List.mem_singleton] at known
      rcases known with old | same
      · exact others entry member old
      · exact single (same ▸ List.mem_map_of_mem member)
    rw [List.foldl_cons, if_neg unknown, ih _ rest unlisted, List.append_assoc, List.singleton_append]

/-- A sheet that goes on numbering gives no id again. -/
theorem ids_apart (accounts : sheet.Accounts sure first others) {other : FormulaSheet}
    (inner : other.Accounts sure sheet.issued places) (room : other.issued < 16 ^ 12) :
    ∀ id ∈ other.ids, id ∉ sheet.ids := by
  intro id new old
  obtain ⟨number, above, bound, rfl⟩ := inner.mem_ids new
  obtain ⟨twin, _, below, same⟩ := accounts.mem_ids old
  have equal := idOf_injective (by omega) (by omega) same
  omega

/-- Accounts are kept of a sheet that goes on numbering and is merged. -/
theorem merge (accounts : sheet.Accounts sure first others) {other : FormulaSheet}
    (inner : other.Accounts sure sheet.issued places) (room : other.issued < 16 ^ 12) {outer : Bool}
    (closed : sure → outer = true → ∀ entry ∈ other.entries, entry.unique = true)
    (apart : sure → ∀ entry ∈ sheet.entries, ∀ twin ∈ other.entries, entry.Apart twin) :
    (sheet.merge other).Accounts sure first (places.map (Formula.Place.under outer) ++ others) := by
  have later : sheet.issued ≤ other.issued := by
    have count := inner.issued
    omega
  have fresh := accounts.ids_apart inner room
  have entries := merge_entries (fun entry member => fresh _ (List.mem_map_of_mem member)) (inner.nodup room)
  have kept : (places.map (Formula.Place.under outer)).map Formula.Place.id = places.map Formula.Place.id :=
    List.map_map ..
  have issued : (sheet.merge other).issued = other.issued := Nat.max_eq_right later
  constructor
  · have old := accounts.ids
    have new := inner.ids
    have count := accounts.issued
    unfold FormulaSheet.ids at old new ⊢
    rw [entries, List.map_append, old, new, ← List.map_append, List.length_append, count,
      show first + sheet.entries.length + 1 = first + 1 + sheet.entries.length by omega, List.range'_append_1]
  · have one := accounts.issued
    have two := inner.issued
    rw [issued, entries, List.length_append]
    omega
  · rw [entries, List.forall_mem_append, List.forall_mem_map]
    constructor
    · intro place member
      obtain ⟨entry, listed, entered⟩ := inner.entered place member
      exact ⟨entry, List.mem_append_right _ listed,
        entered.under fun certain inside => closed certain inside entry listed⟩
    · intro place member
      obtain ⟨entry, listed, entered⟩ := accounts.entered place member
      exact ⟨entry, List.mem_append_left _ listed, entered⟩
  · rw [entries, List.map_append, kept]
    intro entry member unique
    rw [List.count_append]
    rcases List.mem_append.mp member with old | new
    · have none := List.count_eq_zero.mpr fun there : entry.id ∈ _ =>
        fresh _ (inner.place_id there) (List.mem_map_of_mem old)
      rw [none, Nat.zero_add]
      exact accounts.alone entry old unique
    · have none := List.count_eq_zero.mpr fun there =>
        fresh entry.id (List.mem_map_of_mem new) (accounts.place_id there)
      rw [none]
      exact inner.alone entry new unique
  · intro certain
    rw [entries, List.pairwise_append]
    exact ⟨accounts.apart certain, inner.apart certain, apart certain⟩

end Accounts

/-- Slots and the sheet with their entries, and what became of them. -/
structure Files (sure : Prop) (first : Nat) (sheet : FormulaSheet) (places : List Formula.Place) (after : FormulaSheet)
    (more : List Formula.Place) : Prop where
  grows : sheet.issued ≤ after.issued
  keeps : after.issued < 16 ^ 12 → ∀ others, sheet.Accounts sure first (places ++ others) →
    after.Accounts sure first (more ++ others)

namespace Files

variable {sure : Prop} {first : Nat} {sheet middle after : FormulaSheet}
  {places more others further : List Formula.Place}

theorem refl (sure : Prop) (first : Nat) (sheet : FormulaSheet) (places : List Formula.Place) :
    Files sure first sheet places sheet places := ⟨Nat.le_refl _, fun _ _ accounts => accounts⟩

theorem append (one : Files sure first sheet places middle more) (two : Files sure first middle others after further) :
    Files sure first sheet (places ++ others) after (more ++ further) := by
  refine ⟨one.grows.trans two.grows, fun room rest accounts => ?_⟩
  rw [List.append_assoc] at accounts ⊢
  have middle := one.keeps (two.grows.trans_lt room) _ accounts
  have swap (front back : List Formula.Place) : (back ++ (front ++ rest)).Perm (front ++ (back ++ rest)) := by
    rw [← List.append_assoc, ← List.append_assoc]
    exact List.perm_append_comm.append_right rest
  exact (two.keeps room _ (middle.mono (swap more others).subperm)).mono (swap further more).subperm

/-- The slots inside a formula are lost when it is taken out. -/
theorem add (sure : Prop) (first : Nat) (sheet : FormulaSheet) (spec : MathSpec) (latex : String) (heading : Bool)
    (lost : List Formula.Place) :
    Files sure first sheet lost (sheet.add latex spec.block (spec.unique || heading)).2
      [⟨spec, latex, heading, (sheet.add latex spec.block (spec.unique || heading)).1⟩] := by
  constructor
  · unfold FormulaSheet.add
    split
    · exact Nat.le_refl _
    · exact Nat.le_succ _
  · intro room others accounts
    exact (accounts.mono (List.sublist_append_right lost others).subperm).add spec latex heading room

theorem lose (sure : Prop) (first : Nat) (sheet : FormulaSheet) (lost : List Formula.Place) :
    Files sure first sheet lost sheet [] :=
  ⟨Nat.le_refl _, fun _ others accounts => accounts.mono (List.sublist_append_right lost others).subperm⟩

end Files

end FormulaSheet

namespace Formula

open Builtin Outline FormulaSheet

theorem extractBlocks_brackets (keep heading : Bool) (blocks : List (Block Node)) (sheet : FormulaSheet) :
    (extractNodes keep heading (blocks.map .bracket)).run sheet =
      (((extractBlocks keep heading blocks).run sheet).1.map .bracket,
        ((extractBlocks keep heading blocks).run sheet).2) := by
  induction blocks generalizing sheet with
  | nil => rfl
  | cons block rest ih =>
    have later := ih ((extractNodes keep heading block.children).run sheet).2
    have first : (extractNodes keep heading ((block :: rest).map .bracket)).run sheet =
        (.bracket ⟨block.kind, block.opening, block.closing,
              ((extractNodes keep heading block.children).run sheet).1⟩ ::
            ((extractNodes keep heading (rest.map .bracket)).run
              ((extractNodes keep heading block.children).run sheet).2).1,
          ((extractNodes keep heading (rest.map .bracket)).run
            ((extractNodes keep heading block.children).run sheet).2).2) := rfl
    rw [first, later]
    rfl

theorem extractNodes_cons (keep heading : Bool) (node : Node) (rest : List Node) (sheet : FormulaSheet) :
    (extractNodes keep heading (node :: rest)).run sheet =
      let first := (extractNode keep heading node).run sheet
      let later := (extractNodes keep heading rest).run first.2
      (first.1 :: later.1, later.2) := rfl

/-- Taking formulas out puts slots in their place, with entries for them, also where some have been taken out before. -/
theorem Replaced.extract {heading known : Bool} {nodes left : List Node} {places : List Place} (sure : Prop)
    (first : Nat) (replaced : Replaced heading nodes left places) (declared : Declared (Known known) left)
    (keep : Bool) (sheet : FormulaSheet) :
    ∃ more, Replaced heading nodes ((extractNodes keep heading left).run sheet).1 more ∧
      Files sure first sheet places ((extractNodes keep heading left).run sheet).2 more := by
  induction replaced generalizing keep sheet with
  | nil => exact ⟨[], .nil, .refl _ _ _ _⟩
  | @leaf heading node _ _ _ plain _ later =>
    have same : (extractNode keep heading node).run sheet = (node, sheet) := by cases node <;> first | rfl | cases plain
    obtain ⟨more, follows, files⟩ := later declared.2 keep sheet
    rw [extractNodes_cons, same]
    exact ⟨more, .leaf plain follows, files⟩
  | @command heading ident attributes _ inner declaration rules _ _ below _ plain within _ inside later =>
    rw [extractNodes_cons]
    cases math : declaration.bind Declaration.math with
    | some spec =>
      rw [extractNode, math]
      cases keep with
      | true =>
        obtain ⟨more, follows, files⟩ := later declared.2 true
          (sheet.add (code spec inner) spec.block (spec.unique || heading)).2
        exact ⟨_ :: more, .formula math (typeset_iff.mpr rfl) (slot_iff.mpr rfl) within follows,
          (Files.add sure first sheet spec _ heading below).append files⟩
      | false =>
        obtain ⟨more, follows, files⟩ := later declared.2 false sheet
        exact ⟨more, .dropped (by simp [math]) follows, (Files.lose sure first sheet below).append files⟩
    | none =>
      obtain ⟨lower, placed, one⟩ := inside declared.1.2.1 (keeps keep attributes declaration) sheet
      obtain ⟨more, follows, two⟩ := later declared.2 keep _
      rw [extractNode_plain keep heading ident attributes inner rules math, plain, Bool.or_false]
      exact ⟨lower ++ more, .command plain placed follows, one.append two⟩
  | @heading heading _ other _ _ below _ heads still within _ inside later =>
    obtain ⟨ident, attributes, args, declaration, rules⟩ := other
    have math : declaration.bind Declaration.math = none := declared.1.1.math still
    obtain ⟨lower, placed, one⟩ := inside declared.1.2.1 (keeps keep attributes declaration) sheet
    obtain ⟨more, follows, two⟩ := later declared.2 keep _
    have headed : isHeading declaration = true := still
    rw [extractNodes_cons, extractNode_plain keep heading ident attributes args rules math, headed, Bool.or_true]
    exact ⟨lower ++ more, .heading heads still placed follows, one.append two⟩
  | bracket _ _ inside later =>
    obtain ⟨below, placed, one⟩ := inside declared.1 keep sheet
    obtain ⟨more, follows, two⟩ := later declared.2 keep _
    exact ⟨below ++ more, .bracket placed follows, one.append two⟩
  | quotation _ _ inside later =>
    obtain ⟨below, placed, one⟩ := inside declared.1 keep sheet
    obtain ⟨more, follows, two⟩ := later declared.2 keep _
    exact ⟨below ++ more, .quotation placed follows, one.append two⟩
  | fragment _ _ inside later =>
    obtain ⟨below, placed, one⟩ := inside declared.1 keep sheet
    obtain ⟨more, follows, two⟩ := later declared.2 keep _
    exact ⟨below ++ more, .fragment placed follows, one.append two⟩
  | @tag heading _ _ _ _ inner _ _ _ _ _ _ _ inside later =>
    obtain ⟨below, placed, one⟩ := inside (declared_brackets.mpr (blocksDeclared_iff.mp declared.1.2.1)) keep sheet
    rw [extractBlocks_brackets] at placed one
    obtain ⟨more, follows, two⟩ := later declared.2 keep _
    exact ⟨below ++ more, .tag placed follows, one.append two⟩
  | @formula heading _ _ _ _ _ _ spec latex id _ _ _ _ _ math typeset stands within _ _ later =>
    obtain rfl := slot_iff.mp stands
    obtain ⟨more, follows, files⟩ := later declared.2 keep sheet
    have kept := Files.refl sure first sheet [⟨spec, latex, heading, id⟩]
    exact ⟨_ :: more, .formula math typeset stands within follows, kept.append files⟩
  | dropped math _ later =>
    obtain ⟨more, follows, files⟩ := later declared.2 keep sheet
    exact ⟨more, .dropped math follows, files⟩

mutual

/-- The ids of all slots, drawn or not. -/
def placeholdersIn : Node → List String
  | .command ⟨_, attributes, args, declaration, _⟩ => slotIds attributes declaration ++ placeholders args
  | .bracket ⟨_, _, _, children⟩ => placeholders children
  | .quotation _ _ children => placeholders children
  | .fragment children => placeholders children
  | .tag ⟨_, _, _, args, _⟩ => blockPlaceholders args
  | _ => []
termination_by structural node => node

def placeholders : List Node → List String
  | [] => []
  | node :: rest => placeholdersIn node ++ placeholders rest
termination_by structural nodes => nodes

def blockPlaceholders : List (Block Node) → List String
  | [] => []
  | ⟨_, _, _, children⟩ :: rest => placeholders children ++ blockPlaceholders rest
termination_by structural blocks => blocks

end

theorem placeholders_brackets (blocks : List (Block Node)) :
    placeholders (blocks.map .bracket) = blockPlaceholders blocks := by
  induction blocks with
  | nil => rfl
  | cons block rest ih =>
    rw [List.map_cons, placeholders, ih]
    rfl

theorem slotIds_nil {known : Bool} {ident : Ident} {attributes : Option Attributes} {declaration : Option Declaration}
    (own : Known known ident attributes declaration) (given : known = false ∨ isHeading declaration = true) :
    slotIds attributes declaration = [] := by
  have listed : ∃ found ∈ registry.declarations, declaration = some found := by
    rcases own with ⟨slots, rfl⟩ | ⟨found, listed, rfl⟩
    · rcases given with none | heads
      · cases slots.symm.trans none
      · cases heads
    · exact ⟨found, (mem_lookup.mp listed).1, rfl⟩
  obtain ⟨found, listed, rfl⟩ := listed
  have other := (lowering_tells found listed).2.2
  have lowered : Declaration.lowering (some found) = found.html := rfl
  rw [slotIds, lowered]
  split
  next slot => exact absurd slot other
  next => rfl

/-- All slots stand in the place of formulas. -/
theorem Replaced.placeholders {heading known : Bool} {nodes left : List Node} {places : List Place}
    (replaced : Replaced heading nodes left places) (declared : Declared (Known false) nodes)
    (fits : Declared (Known known) left) : placeholders left = places.map Place.id := by
  induction replaced with
  | nil => rfl
  | @leaf _ node _ _ _ plain _ later =>
    have none : placeholdersIn node = [] := by cases node <;> first | rfl | cases plain
    rw [Formula.placeholders, none, later declared.2 fits.2, List.nil_append]
  | command _ _ _ inside later =>
    rw [Formula.placeholders, placeholdersIn, slotIds_nil declared.1.1 (.inl rfl), inside declared.1.2.1 fits.1.2.1,
      later declared.2 fits.2, List.nil_append, List.map_append]
  | @heading _ command other _ _ _ _ _ still _ _ inside later =>
    have below := inside (command_declared.mp declared.1).2.1 (command_declared.mp fits.1).2.1
    rw [Formula.placeholders, placeholdersIn, slotIds_nil (command_declared.mp fits.1).1 (.inr still), below,
      later declared.2 fits.2, List.nil_append, List.map_append]
  | bracket _ _ inside later | quotation _ _ inside later | fragment _ _ inside later =>
    rw [Formula.placeholders, placeholdersIn, inside declared.1 fits.1, later declared.2 fits.2, List.map_append]
  | @tag _ _ _ _ args inner _ _ _ _ _ _ _ inside later =>
    have below := inside (declared_brackets.mpr (blocksDeclared_iff.mp declared.1.2.1))
      (declared_brackets.mpr (blocksDeclared_iff.mp fits.1.2.1))
    rw [placeholders_brackets] at below
    rw [Formula.placeholders, placeholdersIn, below, later declared.2 fits.2, List.map_append]
  | @formula _ ident _ _ _ _ _ spec _ id _ _ _ _ _ _ _ stands _ _ _ later =>
    obtain rfl := slot_iff.mp stands
    have own : placeholdersIn (slot ident.span id spec.block) = [id] := by
      rw [← slot_slots true ident.span id spec.block]
      rfl
    rw [Formula.placeholders, own, later declared.2 fits.2, List.map_cons, List.singleton_append]
  | dropped _ _ later =>
    rw [Formula.placeholders, later declared.2 fits.2]
    rfl

end Formula
end Manuscript
