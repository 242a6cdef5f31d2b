import Manuscript.Proofs.FormulaPlaces
import Manuscript.Proofs.HeadingOrigins

/-! The entries of a page and its placeholders. Formulas of included files are taken out before those around them, so an
entry can be left without its place where the file is included in a formula, in a heading that is not drawn or in an
image; and images draw none of what is inside them. Apart from these a page has a placeholder for each of its entries. -/

namespace Manuscript

open Builtin

namespace Compiler

open Compile

mutual

/-- Whether nothing is included inside of what is not drawn. -/
def nodeExposed (toc : Bool) : Node → Bool
  | .command ⟨_, attributes, args, declaration, _⟩ => Declaration.isInclusion declaration ||
    if drawsBody toc attributes declaration then isExposed toc args else (inclusionsOf args).isEmpty
  | .bracket ⟨_, _, _, children⟩ => isExposed toc children
  | .quotation _ _ children => isExposed toc children
  | .fragment children => isExposed toc children
  | _ => true
termination_by structural node => node

def isExposed (toc : Bool) : List Node → Bool
  | [] => true
  | node :: rest => nodeExposed toc node && isExposed toc rest
termination_by structural nodes => nodes

end

/-- What a page is put together from keeps its formulas in view: nothing is included inside of what is not drawn, and of
that nothing holds a formula that is taken out. -/
structure InView (compiler : Compiler) (page : String) (toc : Bool) : Prop where
  loaded : ∀ chain path nodes, compiler.Chain page chain path → compiler.Loads path nodes →
    isExposed toc nodes = true ∧ isClear toc nodes = true
  spliced : ∀ chain path nodes command content left, compiler.Chain page chain path → compiler.Loads path nodes →
    command ∈ inclusionsOf nodes → Path.ext (target path command) ≠ sourceExt →
    compiler.Loads (target path command) content → compiler.Spliced path content command.rules left →
    isClear toc left = true

variable {compiler : Compiler} {page path : String} {chain : List String} {extract toc : Bool} {nodes left : List Node}
  {sheet after : FormulaSheet}

theorem inclusions_included {command : Command Node} (included : Declaration.isInclusion command.declaration = true) :
    inclusions (.command command) = [command] := by
  obtain ⟨ident, attributes, args, declaration, rules⟩ := command
  exact if_pos included

theorem inclusions_other {command : Command Node} (other : Declaration.isInclusion command.declaration = false) :
    inclusions (.command command) = inclusionsOf command.args := by
  obtain ⟨ident, attributes, args, declaration, rules⟩ := command
  exact if_neg (Bool.eq_false_iff.mp other)

/-- Without inclusions there is nothing to expand. -/
theorem Expands.idle (expands : compiler.Expands path chain extract nodes sheet left after)
    (none : inclusionsOf nodes = []) : left = nodes ∧ after = sheet := by
  induction expands with
  | nil => exact ⟨rfl, rfl⟩
  | passed _ _ later =>
    rw [inclusionsOf, List.append_eq_nil_iff] at none
    obtain ⟨rfl, same⟩ := later none.2
    exact ⟨rfl, same⟩
  | command other _ _ inside later =>
    rw [inclusionsOf, inclusions_other other, List.append_eq_nil_iff] at none
    obtain ⟨rfl, rfl⟩ := inside none.1
    obtain ⟨rfl, same⟩ := later none.2
    exact ⟨rfl, same⟩
  | bracket _ _ inside later | quotation _ _ inside later | fragment _ _ inside later =>
    rw [inclusionsOf, inclusions, List.append_eq_nil_iff] at none
    obtain ⟨rfl, rfl⟩ := inside none.1
    obtain ⟨rfl, same⟩ := later none.2
    exact ⟨rfl, same⟩
  | spliced included | source included =>
    rw [inclusionsOf, inclusions_included included] at none
    cases none

/-- Part of the file at the end of a chain: its inclusions are inclusions of the file. -/
structure PartOf (compiler : Compiler) (page path : String) (chain : List String) (nodes : List Node) : Prop where
  intro ::
  chained : compiler.Chain page chain path
  loaded : ∃ whole, compiler.Loads path whole ∧ ∀ command ∈ inclusionsOf nodes, command ∈ inclusionsOf whole

namespace PartOf

theorem sub {others : List Node} (part : compiler.PartOf page path chain nodes)
    (fewer : ∀ command ∈ inclusionsOf others, command ∈ inclusionsOf nodes) :
    compiler.PartOf page path chain others := by
  obtain ⟨whole, loads, within⟩ := part.loaded
  exact ⟨part.chained, whole, loads, fun command member => within command (fewer command member)⟩

theorem rest {node : Node} (part : compiler.PartOf page path chain (node :: nodes)) :
    compiler.PartOf page path chain nodes :=
  part.sub fun _ member => List.mem_append_right _ member

theorem inside {node : Node} {children : List Node} (part : compiler.PartOf page path chain (node :: nodes))
    (same : inclusions node = inclusionsOf children) : compiler.PartOf page path chain children :=
  part.sub fun _ member => List.mem_append_left _ (same ▸ member)

/-- The inclusion that a part starts with is one of the file. -/
theorem first {command : Command Node} (part : compiler.PartOf page path chain (.command command :: nodes))
    (included : Declaration.isInclusion command.declaration = true) :
    ∃ whole, compiler.Loads path whole ∧ command ∈ inclusionsOf whole := by
  obtain ⟨whole, loads, within⟩ := part.loaded
  refine ⟨whole, loads, within command ?_⟩
  rw [inclusionsOf, inclusions_included included]
  exact List.mem_cons_self ..

/-- It leads to the next file, if this is a source. -/
theorem next {command : Command Node} {content : List Node}
    (part : compiler.PartOf page path chain (.command command :: nodes))
    (included : Declaration.isInclusion command.declaration = true) (fresh : target path command ∉ chain)
    (ending : Path.ext (target path command) = sourceExt) (loaded : compiler.Loads (target path command) content) :
    compiler.PartOf page (target path command) (chain ++ [target path command]) content := by
  obtain ⟨whole, loads, member⟩ := part.first included
  exact ⟨part.chained.next ⟨loads, member, rfl, ending, loaded⟩ fresh, content, loaded, fun _ => id⟩

end PartOf

theorem isClear_iff : isClear toc nodes = true ↔ ∀ node ∈ nodes, node.isClear toc = true := by
  induction nodes with
  | nil => simp [isClear]
  | cons node nodes ih => rw [isClear, Bool.and_eq_true, ih, List.forall_mem_cons]

/-- Of a source that is included for its headings alone nothing is drawn, and its formulas are dropped. -/
theorem conclude_hidden (standard : compiler.registry = Builtin.registry) {command : Command Node} {inner : List Node}
    (known : Declared (Known false) inner) (only : command.hasAttribute "toc-only" = true) (toc : Bool) (target : String)
    (sheet filled : FormulaSheet) :
    slots toc (conclude (compiler.adjustment target command) false sheet (inner, filled)).1 = [] ∧
      isClear toc (conclude (compiler.adjustment target command) false sheet (inner, filled)).1 = true ∧
      (conclude (compiler.adjustment target command) false sheet (inner, filled)).2 = sheet := by
  have builtin : (compiler.adjustment target command).registry = Builtin.registry := standard
  have flag : (compiler.adjustment target command).tocOnly = true := only
  have shown := @conclude_known (compiler.adjustment target command) standard false sheet (inner, filled) known
  refine ⟨slots_eq_nil toc _ shown, ?_, ?_⟩
  · unfold conclude
    simp only [flag, if_true]
    rw [← Outline.visible_false, Outline.visible_adjust builtin false inner known, isClear_iff, List.forall_mem_map,
      List.forall_mem_map]
    intro heading member
    obtain ⟨heads, declared⟩ := Outline.visible_declared false inner known heading member
    have own := (command_declared.mp declared).1
    have changed := Outline.adjustNode_known builtin _ declared
    obtain ⟨same, still⟩ := Outline.adjustNode_heading builtin own heads
    rw [same] at changed
    rw [(Outline.heading_slots toc (command_declared.mp changed).1 still).2.1, Command.hasAttribute,
      Outline.adjusted_attributes _ own heads, Option.getD_some, Outline.adjustAttributes_has _ _ (by decide), flag]
    simp
  · unfold conclude
    simp only [flag, if_true]

/-- What an included source adds, when its formulas are taken out. -/
theorem conclude_grows (standard : compiler.registry = Builtin.registry) {command : Command Node} {sure : Prop}
    {inner : List Node} {filled : FormulaSheet} (known : Declared (Known true) inner)
    (drawn : command.hasAttribute "toc-only" = false) (toc : Bool)
    (grows : Grows sure [] sheet.successor (slots toc inner) filled) (clear : sure → isClear toc inner = true)
    (target : String) :
    Grows sure [] sheet
      (slots toc (conclude (compiler.adjustment target command) true sheet (inner, filled)).1)
      (conclude (compiler.adjustment target command) true sheet (inner, filled)).2 ∧
    isClear toc (conclude (compiler.adjustment target command) true sheet (inner, filled)).1 = true := by
  have flag : (compiler.adjustment target command).tocOnly = false := drawn
  obtain ⟨same, still, _⟩ := @Outline.adjust_slots true (compiler.adjustment target command) standard flag toc inner known
  have taken := @Formula.extractNodes_grows true toc true false
    (Outline.adjust (compiler.adjustment target command) inner) filled (Outline.adjust_known standard inner known)
  rw [same, still] at taken
  have all := grows.trans (taken.mono clear)
  unfold conclude
  simp only [flag, Bool.false_eq_true, if_false, if_true]
  refine ⟨⟨fun id entry => ?_, List.nil_subset _, fun id member => ?_, fun certain id entry => ?_⟩, ?_⟩
  · exact (FormulaSheet.mem_ids_merge ..).mpr (.inl entry)
  · exact .inr ((FormulaSheet.mem_ids_merge ..).mpr (.inr ((all.known id member).resolve_left (List.not_mem_nil))))
  · rcases (FormulaSheet.mem_ids_merge ..).mp entry with old | new
    · exact .inl old
    · exact .inr ((all.placed certain id new).resolve_left (List.not_mem_nil))
  · exact isClear_of_hasFormula toc _ (Formula.extractNodes_hasFormula true false _ filled)

/-- Expansion gives each slot an entry and, where formulas stay in view, each entry a slot. -/
theorem Expands.grows (standard : compiler.registry = Builtin.registry) {sure : Prop}
    (view : sure → compiler.InView page toc) (expands : compiler.Expands path chain extract nodes sheet left after)
    (taken : extract = true) (part : compiler.PartOf page path chain nodes) (known : Declared (Known false) nodes)
    (exposed : sure → isExposed toc nodes = true) :
    Grows sure [] sheet (slots toc left) after ∧ (sure → isClear toc nodes = true → isClear toc left = true) := by
  have makes (slots : Bool) : compiler.registry.Makes (Known slots) := standard ▸ makes_known slots
  induction expands generalizing sure with
  | nil => exact ⟨.refl _ _ _, fun _ clear => clear⟩
  | passed _ _ later =>
    simp only [isExposed, Bool.and_eq_true] at exposed
    obtain ⟨grows, clears⟩ := later view taken part.rest known.2 fun certain => (exposed certain).2
    rw [slots, Node.slots_eq_nil toc _ known.1, List.nil_append]
    simp only [isClear, Bool.and_eq_true]
    exact ⟨grows, fun certain clear => ⟨clear.1, clears certain clear.2⟩⟩
  | @command _ _ _ ident attributes args inner declaration rules _ _ _ _ _ other within _ inside later =>
    simp only [isExposed, nodeExposed, other, Bool.false_or, Bool.and_eq_true] at exposed
    obtain ⟨own, below, _⟩ := known.1
    obtain ⟨grows, clears⟩ := later view taken part.rest known.2 fun certain => (exposed certain).2
    have first : slotIds attributes declaration = [] :=
      (List.append_eq_nil_iff.mp (Node.slots_eq_nil toc _ known.1)).1
    have part := part.inside (inclusions_other other)
    simp only [slots, isClear, Node.slots, Node.isClear, first, List.nil_append, Bool.and_eq_true]
    by_cases drawn : drawsBody toc attributes declaration = true
    · simp only [drawn, if_true] at exposed ⊢
      obtain ⟨more, clear⟩ := inside view taken part below fun certain => (exposed certain).1
      refine ⟨more.append grows, fun certain both => ⟨?_, clears certain both.2⟩⟩
      exact Bool.or_eq_true_iff.mpr ((Bool.or_eq_true_iff.mp both.1).imp_right (clear certain))
    · -- nothing is included where nothing is drawn, so what is inside stays as it is
      rw [if_neg drawn] at exposed
      have idle (certain : sure) := within.idle (List.isEmpty_iff.mp (exposed certain).1)
      have hidden := (inside (fun never => never.elim) taken part below fun never : False => never.elim).1.kept
      simp only [if_neg drawn, List.nil_append]
      refine ⟨⟨List.Subset.trans hidden grows.kept, grows.stay, grows.known, fun certain => ?_⟩, fun certain both => ?_⟩
      · rw [← (idle certain).2]
        exact grows.placed certain
      · rw [(idle certain).1]
        exact ⟨both.1, clears certain both.2⟩
  | bracket _ _ inside later | quotation _ _ inside later | fragment _ _ inside later =>
    simp only [isExposed, nodeExposed, Bool.and_eq_true] at exposed
    obtain ⟨more, clear⟩ := inside view taken (part.inside rfl) known.1 fun certain => (exposed certain).1
    obtain ⟨grows, clears⟩ := later view taken part.rest known.2 fun certain => (exposed certain).2
    simp only [isClear, Node.isClear, Bool.and_eq_true]
    exact ⟨more.append grows, fun certain both => ⟨clear certain both.1, clears certain both.2⟩⟩
  | spliced included fresh ending loaded filled _ later =>
    simp only [isExposed, Bool.and_eq_true] at exposed
    obtain ⟨grows, clears⟩ := later view taken part.rest known.2 fun certain => (exposed certain).2
    have placed := filled.declared (makes false) (loaded.declared (makes _)) (command_declared.mp known.1).2.2
    obtain ⟨whole, loads, member⟩ := part.first included
    simp only [slots, isClear, Node.slots, Node.isClear, slots_eq_nil toc _ placed, List.nil_append, Bool.and_eq_true]
    refine ⟨grows, fun certain both => ⟨?_, clears certain both.2⟩⟩
    exact (view certain).spliced _ _ whole _ _ _ part.chained loads member ending loaded filled
  | @source _ _ extract command content inner _ _ sheet filled _ included fresh ending loaded deeper _ inside later =>
    simp only [isExposed, Bool.and_eq_true] at exposed
    obtain ⟨grows, clears⟩ := later view taken part.rest known.2 fun certain => (exposed certain).2
    have content := loaded.declared (makes false)
    simp only [slots, isClear, Node.slots, Node.isClear, Bool.and_eq_true]
    subst taken
    by_cases only : command.hasAttribute "toc-only" = true
    · simp only [only, Bool.not_true, Bool.and_false] at deeper grows ⊢
      obtain ⟨drawn, clear, same⟩ := conclude_hidden standard (deeper.known standard content) only toc
        (target _ command) sheet filled
      rw [same] at grows
      rw [drawn]
      exact ⟨grows, fun certain both => ⟨clear, clears certain both.2⟩⟩
    · rw [Bool.not_eq_true] at only
      simp only [only, Bool.not_false, Bool.and_true] at inside deeper grows ⊢
      have part := part.next included fresh ending loaded
      have shown (certain : sure) := (view certain).loaded _ _ _ part.chained loaded
      obtain ⟨more, clearer⟩ := inside view trivial part content fun certain => (shown certain).1
      have inner := deeper.known standard (loaded.declared (makes true))
      obtain ⟨all, clear⟩ := conclude_grows standard inner only toc more
        (fun certain => clearer certain (shown certain).2) (target _ command)
      exact ⟨all.append grows, fun certain both => ⟨clear, clears certain both.2⟩⟩

/-- Every formula that a page has a placeholder for is listed and, where formulas stay in view, every formula that is
listed has a placeholder, with a table of contents or without one. -/
theorem placeholders_listed (compiler : Compiler) (standard : compiler.registry = Builtin.registry) (limit : Nat)
    (path : String) {session after : Session} (faithful : compiler.Faithful session) {document : Document}
    (succeeds : outcome ((compiler.within limit).compile path) session = (.ok document, after))
    (contents : Option Contents) :
    Html.placeholdersOf ((Html.ofNodes document.path document.nodes).run contents).1 ⊆ document.formulas.ids ∧
      (compiler.InView (Path.clean path) contents.isSome → document.formulas.ids ⊆
        Html.placeholdersOf ((Html.ofNodes document.path document.nodes).run contents).1) := by
  obtain ⟨nodes, left, sheet, loads, expands, rfl⟩ := compileFile_expands faithful succeeds
  have makes (slots : Bool) : compiler.registry.Makes (Known slots) := standard ▸ makes_known slots
  have shown (view : compiler.InView (Path.clean path) contents.isSome) := view.loaded _ _ _ .page loads
  have part : compiler.PartOf (Path.clean path) (Path.clean path) [Path.clean path] nodes :=
    ⟨.page, nodes, loads, fun _ member => member⟩
  obtain ⟨grows, clear⟩ := expands.grows standard (fun view => view) rfl part (loads.declared (makes false))
    fun view => (shown view).1
  have known := expands.known standard (loads.declared (makes true))
  have taken := Formula.extractNodes_grows contents.isSome true false left sheet known
  have all := grows.trans (taken.mono fun view => clear view (shown view).2)
  have drawn := (Html.ofNodes_draws (Path.clean path) _ (Formula.extractNodes_known true false left known sheet)
    contents rfl).2
  have page : finished true left sheet = (Formula.extractNodes true false left).run sheet := rfl
  dsimp only
  rw [page, drawn]
  refine ⟨fun id member => (all.known id member).resolve_left List.not_mem_nil, fun view id entry => ?_⟩
  exact (all.placed view id entry).resolve_left List.not_mem_nil

namespace Sample

/-- Formulas in a page, in a heading that is not drawn and in an included source, beside an image and a drawing. -/
def gallery : Compiler :=
  files [("main.ss", "\\\x7bx\x7d\\h1[toc-only]\x7b\\\x7bu\x7d\x7d\\img[src=a.png]\x7bI\x7d" ++
      "\\include[src=a.ss]\\include[src=d.svg]"),
    ("a.ss", "\\link[href=x]\x7b\\\x7by\x7d\x7d"), ("d.svg", "<svg")]

/-- What there is to include in the content of a source, each time with whether there are no rules for it, and whether
formulas stay in view. -/
def sight (nodes : List Node) : List (String × Bool) × Bool :=
  ((inclusionsOf nodes).map fun command => (address command, command.rules.isEmpty),
    isExposed true nodes && isClear true nodes)

/-- The content of a source, seen through a view that is evaluated. -/
theorem loads_seen {compiler : Compiler} {path : String} {nodes : List Node} {α : Type} {view : List Node → α} {seen : α}
    (loads : compiler.Loads path nodes) (ending : LowerCase.lowerText (Path.ext path) = sourceExt)
    (found : ((compiler.tree.read path).toOption.bind fun data =>
      (resolve compiler.registry 5 (.top path) (normalize (Parse.ofBytes data))).map fun result => view result.1) =
        some seen) : view nodes = seen := by
  obtain ⟨data, read, parsed⟩ := Option.bind_eq_some_iff.mp found
  obtain ⟨⟨others, events⟩, resolved, same⟩ := Option.map_eq_some_iff.mp parsed
  obtain rfl := loads.unique (.source ending (ok_of_toOption read) resolved)
  exact same

theorem gallery_page {nodes : List Node} (loads : gallery.Loads "main.ss" nodes) :
    sight nodes = ([("a.ss", true), ("d.svg", true)], true) :=
  loads_seen loads (by decide +kernel) (by decide +kernel)

theorem gallery_inner {nodes : List Node} (loads : gallery.Loads "a.ss" nodes) : sight nodes = ([], true) :=
  loads_seen loads (by decide +kernel) (by decide +kernel)

theorem gallery_inclusion {path : String} {nodes : List Node} {command : Command Node}
    (listed : path = "main.ss" ∨ path = "a.ss") (loads : gallery.Loads path nodes)
    (member : command ∈ inclusionsOf nodes) :
    (target path command = "a.ss" ∨ target path command = "d.svg") ∧ command.rules = [] := by
  have seen : (address command, command.rules.isEmpty) ∈ (sight nodes).1 :=
    List.mem_map_of_mem member
  rcases listed with rfl | rfl
  · rw [gallery_page loads] at seen
    simp only [List.mem_cons, List.not_mem_nil, or_false, Prod.mk.injEq] at seen
    rcases seen with ⟨same, bare⟩ | ⟨same, bare⟩
    · exact ⟨.inl (by rw [target_eq, same]; decide), List.isEmpty_iff.mp bare⟩
    · exact ⟨.inr (by rw [target_eq, same]; decide), List.isEmpty_iff.mp bare⟩
  · rw [gallery_inner loads] at seen
    cases seen

theorem gallery_chain {chain : List String} {path : String} (chained : gallery.Chain "main.ss" chain path) :
    path = "main.ss" ∨ path = "a.ss" := by
  refine chained.holds (fun path => path = "main.ss" ∨ path = "a.ss") (.inl rfl) fun listed loads member ending => ?_
  rcases (gallery_inclusion listed loads member).1 with same | same
  · exact .inr same
  · rw [same] at ending
    exact absurd ending (by decide)

theorem gallery_inView : gallery.InView "main.ss" true := by
  constructor
  · intro chain path nodes chained loads
    have seen : (sight nodes).2 = true := by
      rcases gallery_chain chained with rfl | rfl
      · rw [gallery_page loads]
      · rw [gallery_inner loads]
    exact Bool.and_eq_true_iff.mp seen
  · intro chain path nodes command content left chained loads member other loaded spliced
    obtain ⟨leads, none⟩ := gallery_inclusion (gallery_chain chained) loads member
    rw [none] at spliced
    cases spliced with
    | filled given => exact absurd rfl given
    | plain =>
      cases loaded with
      | drawing => exact isClear_iff.mpr (List.forall_mem_map.mpr fun _ _ => rfl)
      | source ending =>
        rcases leads with same | same
        · rw [same] at other
          exact absurd (by decide) other
        · rw [same] at ending
          exact absurd ending (by decide)

def formulaView (document : Document) : List String × List String :=
  (document.formulas.ids, Html.placeholdersOf ((Html.ofNodes document.path document.nodes).run (some {})).1)

/-- A formula in an image. -/
def captioned : Compiler := files [("main.ss", "\\img[src=a.png]\x7b\\\x7bx\x7d\x7d")]

/-- A source with a formula that is included in a heading that is not drawn. -/
def concealed : Compiler :=
  files [("main.ss", "\\h1[toc-only]\x7b\\include[src=a.ss]\x7d"), ("a.ss", "\\\x7bx\x7d")]

/-- A source with a formula that is included in a formula. -/
def embedded : Compiler :=
  files [("main.ss", "\\\x7b\\text\x7b\\include[src=a.ss]\x7d\x7d"), ("a.ss", "\\\x7bx\x7d")]

end Sample

theorem placeholders_listed_gallery : Sample.gallery.registry = Builtin.registry ∧
    Sample.gallery.InView (Path.clean "main.ss") true ∧ ∃ document after,
    outcome ((Sample.gallery.within 5).compile "main.ss") {} = (.ok document, after) ∧
    document.formulas.ids = ["00000000-0000-4000-8000-000000000001", "00000000-0000-4000-8000-000000000002"] ∧
    document.formulas.ids ⊆ Html.placeholdersOf ((Html.ofNodes document.path document.nodes).run (some {})).1 := by
  have page : Path.clean "main.ss" = "main.ss" := by decide +kernel
  have view : Sample.gallery.InView (Path.clean "main.ss") true := page.symm ▸ Sample.gallery_inView
  have succeeds : ((outcome ((Sample.gallery.within 5).compile "main.ss") {}).1.toOption.map fun document =>
      document.formulas.ids) = some ["00000000-0000-4000-8000-000000000001", "00000000-0000-4000-8000-000000000002"] := by
    decide +kernel
  obtain ⟨document, after, run, seen⟩ := Sample.ok_of_view succeeds
  exact ⟨rfl, view, document, after, run, seen,
    (placeholders_listed _ rfl 5 "main.ss" (faithful_empty _) run (some {})).2 view⟩

/-- Formulas that are listed and have no placeholder: in an image, in a source that is included in a heading that is not
drawn, and in a source that is included in a formula. -/
theorem placeholders_missing :
    (∃ document after, outcome (Sample.captioned.compile "main.ss") {} = (.ok document, after) ∧
      Sample.formulaView document = (["00000000-0000-4000-8000-000000000001"], [])) ∧
    (∃ document after, outcome (Sample.concealed.compile "main.ss") {} = (.ok document, after) ∧
      Sample.formulaView document = (["00000000-0000-4000-8000-000000000001"], [])) ∧
    ∃ document after, outcome (Sample.embedded.compile "main.ss") {} = (.ok document, after) ∧
      Sample.formulaView document = (["00000000-0000-4000-8000-000000000001",
        "00000000-0000-4000-8000-000000000002"], ["00000000-0000-4000-8000-000000000002"]) := by
  refine ⟨?_, ?_, ?_⟩ <;> exact Sample.ok_of_view (by decide +kernel)

end Compiler
end Manuscript
