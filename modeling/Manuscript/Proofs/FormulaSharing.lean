import Manuscript.Proofs.FormulaAccounts
import Manuscript.Proofs.FormulaEntries

/-! Formulas that share their entries. Each included file has a sheet of its own, and its sheet is put into that of the
file that includes it as it is. So formulas that are the same share an entry across a page as long as no two inclusions
of a file bring in the same, and none in a heading brings in any that may be shared. -/

namespace Manuscript.Compiler

open Compile Outline Formula

variable {compiler : Compiler} {path : String} {chain : List String} {extract : Bool} {nodes left : List Node}
  {sheet after : FormulaSheet}

/-- An inclusion brings in an entry that may be shared: the sheet of the source that it includes has one. -/
def Brings (compiler : Compiler) (path : String) (chain : List String) (command : Command Node) (block : Bool)
    (latex : String) : Prop :=
  ∃ content sheet inner filled, compiler.Loads (target path command) content ∧ sheet.entries = [] ∧
    Path.ext (target path command) = sourceExt ∧ command.hasAttribute "toc-only" = false ∧
    compiler.Expands (target path command) (chain ++ [target path command]) true content sheet inner filled ∧
    ∃ entry ∈ ((extractFormulas (adjust (compiler.adjustment (target path command) command) inner)).run
      filled).2.entries, entry.unique = false ∧ entry.block = block ∧ entry.latex = latex

/-- In part of a file, no two inclusions bring in the same, and none in a heading brings in anything. -/
structure Unmixed (compiler : Compiler) (path : String) (chain : List String) (heading : Bool) (nodes : List Node) :
    Prop where
  apart : (inclusionsOf nodes).Pairwise fun one other =>
    ∀ block latex, compiler.Brings path chain one block latex → ¬compiler.Brings path chain other block latex
  closed : ∀ command ∈ if heading then inclusionsOf nodes else (collect nodes).flatMap (inclusionsOf ·.args),
    ∀ block latex, ¬compiler.Brings path chain command block latex

/-- So it is in all the files that inclusions lead to from a page. -/
def AllUnmixed (compiler : Compiler) (page : String) : Prop :=
  ∀ chain path nodes, compiler.Chain page chain path → compiler.Loads path nodes →
    compiler.Unmixed path chain false nodes

namespace Unmixed

variable {heading : Bool} {node : Node}

theorem rest (unmixed : compiler.Unmixed path chain heading (node :: nodes)) :
    compiler.Unmixed path chain heading nodes := by
  refine ⟨(List.pairwise_append.mp unmixed.apart).2.1, fun command member => unmixed.closed command ?_⟩
  cases heading with
  | true => exact List.mem_append_right _ member
  | false =>
    simp only [Bool.false_eq_true, if_false] at member ⊢
    rw [collect, List.flatMap_append]
    exact List.mem_append_right _ member

theorem inside {children : List Node} (unmixed : compiler.Unmixed path chain heading (node :: nodes))
    (same : inclusions node = inclusionsOf children) (plain : collectNode node = collect children) :
    compiler.Unmixed path chain heading children := by
  refine ⟨same ▸ (List.pairwise_append.mp unmixed.apart).1, fun command member => unmixed.closed command ?_⟩
  cases heading with
  | true => exact List.mem_append_left _ (same ▸ member)
  | false =>
    simp only [Bool.false_eq_true, if_false] at member ⊢
    rw [collect, List.flatMap_append, plain]
    exact List.mem_append_left _ member

theorem headed {command : Command Node} (unmixed : compiler.Unmixed path chain heading (.command command :: nodes))
    (other : Declaration.isInclusion command.declaration = false) (heads : isHeading command.declaration = true) :
    compiler.Unmixed path chain true command.args := by
  have same := inclusions_other other
  refine ⟨same ▸ (List.pairwise_append.mp unmixed.apart).1, fun inclusion member => unmixed.closed inclusion ?_⟩
  cases heading with
  | true => exact List.mem_append_left _ (same ▸ member)
  | false =>
    have own : collectNode (.command command) = [command] := by
      obtain ⟨ident, attributes, args, declaration, rules⟩ := command
      exact if_pos heads
    simp only [if_true, Bool.false_eq_true, if_false] at member ⊢
    rw [collect, List.flatMap_append, own, List.flatMap_singleton]
    exact List.mem_append_left _ member

end Unmixed

/-- What inclusions make of a sheet, with the slots that stand for what they bring in. -/
structure Gathers (compiler : Compiler) (sure : Prop) (path : String) (chain : List String)
    (commands : List (Command Node)) (sheet : FormulaSheet) (places : List Formula.Place) (after : FormulaSheet) :
    Prop where
  grows : sheet.issued ≤ after.issued
  brought : ∀ entry ∈ after.entries, entry.unique = false → entry ∈ sheet.entries ∨
    ∃ command ∈ commands, compiler.Brings path chain command entry.block entry.latex
  keeps : after.issued < 16 ^ 12 → ∀ first others,
    (sure → ∀ entry ∈ sheet.entries, entry.unique = false → ∀ command ∈ commands,
      ¬compiler.Brings path chain command entry.block entry.latex) →
    sheet.Accounts sure first others → after.Accounts sure first (places ++ others)

namespace Gathers

variable {sure : Prop} {commands others : List (Command Node)} {places more : List Formula.Place}
  {middle : FormulaSheet}

theorem refl (compiler : Compiler) (sure : Prop) (path : String) (chain : List String) (commands : List (Command Node))
    (sheet : FormulaSheet) : compiler.Gathers sure path chain commands sheet [] sheet :=
  ⟨Nat.le_refl _, fun _ listed _ => .inl listed, fun _ _ _ _ accounts => accounts⟩

theorem append (one : compiler.Gathers sure path chain commands sheet places middle)
    (two : compiler.Gathers sure path chain others middle more after)
    (apart : sure → (commands ++ others).Pairwise fun one other =>
      ∀ block latex, compiler.Brings path chain one block latex → ¬compiler.Brings path chain other block latex) :
    compiler.Gathers sure path chain (commands ++ others) sheet (places ++ more) after := by
  refine ⟨one.grows.trans two.grows, fun entry listed shared => ?_, fun room first rest new accounts => ?_⟩
  · rcases two.brought entry listed shared with old | ⟨command, member, brings⟩
    · rcases one.brought entry old shared with older | ⟨command, member, brings⟩
      · exact .inl older
      · exact .inr ⟨command, List.mem_append_left _ member, brings⟩
    · exact .inr ⟨command, List.mem_append_right _ member, brings⟩
  · have middle := one.keeps (two.grows.trans_lt room) first rest
      (fun certain entry listed shared command member =>
        new certain entry listed shared command (List.mem_append_left _ member)) accounts
    have all := two.keeps room first _ (fun certain entry listed shared command member => by
      rcases one.brought entry listed shared with old | ⟨earlier, before, brings⟩
      · exact new certain entry old shared command (List.mem_append_right _ member)
      · exact (List.pairwise_append.mp (apart certain)).2.2 earlier before command member _ _ brings) middle
    refine all.mono (List.Perm.subperm ?_)
    rw [← List.append_assoc]
    exact List.perm_append_comm.append_right rest

end Gathers

theorem conclude_drawn {adjustment : Adjustment} (drawn : adjustment.tocOnly = false) (sheet : FormulaSheet)
    (expanded : List Node × FormulaSheet) :
    (conclude adjustment false sheet expanded).1 = adjust adjustment expanded.1 := by
  unfold conclude
  rw [drawn]
  rfl

theorem conclude_taken {adjustment : Adjustment} (drawn : adjustment.tocOnly = false) (sheet : FormulaSheet)
    (inner : List Node) (filled : FormulaSheet) : conclude adjustment true sheet (inner, filled) =
      (((extractFormulas (adjust adjustment inner)).run filled).1,
        sheet.merge ((extractFormulas (adjust adjustment inner)).run filled).2) := by
  unfold conclude
  rw [drawn]
  rfl

/-- What an included source brings in: its formulas are taken out, and its sheet is put into that of the file. -/
theorem Gathers.source {sure : Prop} {command : Command Node} {content inner : List Node} {filled : FormulaSheet}
    {places more : List Formula.Place} {heading : Bool} (loaded : compiler.Loads (target path command) content)
    (ending : Path.ext (target path command) = sourceExt) (drawn : command.hasAttribute "toc-only" = false)
    (deeper : compiler.Expands (target path command) (chain ++ [target path command]) true content sheet.successor inner
      filled)
    (inside : compiler.Gathers sure (target path command) (chain ++ [target path command]) (inclusionsOf content)
      sheet.successor places filled)
    (files : FormulaSheet.Files sure sheet.issued filled places
      ((extractFormulas (adjust (compiler.adjustment (target path command) command) inner)).run filled).2 more)
    (closed : sure → heading = true → ∀ block latex, ¬compiler.Brings path chain command block latex) :
    compiler.Gathers sure path chain [command] sheet (more.map (Formula.Place.under heading))
      (sheet.merge ((extractFormulas (adjust (compiler.adjustment (target path command) command) inner)).run
        filled).2) := by
  have brings : ∀ entry ∈ ((extractFormulas (adjust (compiler.adjustment (target path command) command) inner)).run
      filled).2.entries, entry.unique = false → compiler.Brings path chain command entry.block entry.latex :=
    fun entry listed shared =>
      ⟨content, sheet.successor, inner, filled, loaded, rfl, ending, drawn, deeper, entry, listed, shared, rfl, rfl⟩
  refine ⟨Nat.le_max_left _ _, fun entry listed shared => ?_, fun room first others new accounts => ?_⟩
  · rcases FormulaSheet.Accounts.mem_merge listed with old | added
    · exact .inl old
    · exact .inr ⟨command, List.mem_singleton.mpr rfl, brings entry added shared⟩
  · have space := (Nat.le_max_right _ _).trans_lt room
    have start : sheet.successor.Accounts sure sheet.issued [] :=
      ⟨rfl, rfl, fun _ none => (List.not_mem_nil none).elim, fun _ none => (List.not_mem_nil none).elim, fun _ => .nil⟩
    have within := inside.keeps (files.grows.trans_lt space) sheet.issued []
      (fun _ _ none => (List.not_mem_nil none).elim) start
    have taken := files.keeps space [] within
    rw [List.append_nil] at taken
    refine accounts.merge taken space (fun certain inside entry listed => ?_) fun certain entry listed twin added => ?_
    · by_contra unique
      exact closed certain inside _ _ (brings entry listed (Bool.eq_false_iff.mpr unique))
    · intro shared plain block latex
      exact new certain entry listed shared command (List.mem_singleton.mpr rfl)
        (block ▸ latex ▸ brings twin added plain)

/-- What an included source leaves of its formulas: slots for all of them, and what it brings in. -/
theorem Gathers.included (standard : compiler.registry = Builtin.registry) {sure : Prop} {command : Command Node}
    {content inner below : List Node} {filled : FormulaSheet} {places : List Formula.Place} (heading : Bool)
    (loaded : compiler.Loads (target path command) content) (ending : Path.ext (target path command) = sourceExt)
    (drawn : command.hasAttribute "toc-only" = false)
    (deeper : compiler.Expands (target path command) (chain ++ [target path command]) true content sheet.successor inner
      filled)
    (opens : compiler.Expands (target path command) (chain ++ [target path command]) false content {} below {})
    (covered : Replaced false below inner places)
    (inside : compiler.Gathers sure (target path command) (chain ++ [target path command]) (inclusionsOf content)
      sheet.successor places filled)
    (closed : sure → heading = true → ∀ block latex, ¬compiler.Brings path chain command block latex) :
    ∃ more, Replaced heading (adjust (compiler.adjustment (target path command) command) below)
        ((extractFormulas (adjust (compiler.adjustment (target path command) command) inner)).run filled).1 more ∧
      compiler.Gathers sure path chain [command] sheet more (sheet.merge
        ((extractFormulas (adjust (compiler.adjustment (target path command) command) inner)).run filled).2) := by
  have makes (slots : Bool) : compiler.registry.Makes (Builtin.Known slots) := standard ▸ Builtin.makes_known slots
  have fits : (compiler.adjustment (target path command) command).registry = Builtin.registry := standard
  have wide := opens.known standard (loaded.declared (makes false))
  have narrow := deeper.known standard (loaded.declared (makes true))
  obtain ⟨more, stands, files⟩ := ((covered.adjust_left fits wide).adjust_right fits narrow).extract sure sheet.issued
    (adjust_known fits inner narrow) true filled
  have stands := stands.under heading
  rw [Bool.or_false] at stands
  exact ⟨_, stands, .source loaded ending drawn deeper inside files closed⟩

/-- What is left of nodes whose formulas are taken out: these nodes with formulas left where they are, but for slots in
the place of those that are brought in. -/
def Gathered (compiler : Compiler) (sure : Prop) (path : String) (chain : List String) (heading : Bool)
    (nodes : List Node) (sheet : FormulaSheet) (left : List Node) (after : FormulaSheet) : Prop :=
  ∃ whole places, compiler.Expands path chain false nodes {} whole {} ∧ Replaced heading whole left places ∧
    compiler.Gathers sure path chain (inclusionsOf nodes) sheet places after

/-- What one node brings in comes before what the nodes behind it do. -/
theorem Gathered.cons {sure : Prop} {heading : Bool} {node part other : Node} {middle : FormulaSheet}
    {lower : List Formula.Place} (later : compiler.Gathered sure path chain heading nodes middle left after)
    (one : compiler.Gathers sure path chain (inclusions node) sheet lower middle)
    (opens : ∀ {whole}, compiler.Expands path chain false nodes {} whole {} →
      compiler.Expands path chain false (node :: nodes) {} (part :: whole) {})
    (covers : ∀ {whole places}, Replaced heading whole left places →
      Replaced heading (part :: whole) (other :: left) (lower ++ places))
    (orderly : sure → compiler.Unmixed path chain heading (node :: nodes)) :
    compiler.Gathered sure path chain heading (node :: nodes) sheet (other :: left) after := by
  obtain ⟨whole, places, expands, replaced, gathers⟩ := later
  exact ⟨part :: whole, lower ++ places, opens expands, covers replaced,
    one.append gathers fun certain => (orderly certain).apart⟩

/-- Expansion with formulas taken out gathers what inclusions bring in. -/
theorem Expands.gathers (standard : compiler.registry = Builtin.registry) {sure : Prop} {page : String}
    (unmixed : sure → compiler.AllUnmixed page) (expands : compiler.Expands path chain extract nodes sheet left after)
    (taken : extract = true) (part : compiler.PartOf page path chain nodes) (heading : Bool)
    (orderly : sure → compiler.Unmixed path chain heading nodes) (known : Declared (Builtin.Known false) nodes) :
    compiler.Gathered sure path chain heading nodes sheet left after := by
  induction expands generalizing heading with
  | nil => exact ⟨[], [], .nil, .nil, .refl _ _ _ _ _ _⟩
  | @passed _ _ _ node _ _ _ _ plain _ later =>
    exact (later taken part.rest heading (fun certain => (orderly certain).rest) known.2).cons (.refl _ _ _ _ _ _)
      (.passed plain) (replaced_node heading node) orderly
  | @command _ _ _ ident attributes args inner declaration rules _ _ _ _ _ other _ _ inside later =>
    have rest := later taken part.rest heading (fun certain => (orderly certain).rest) known.2
    have same : inclusions (.command ⟨ident, attributes, args, declaration, rules⟩) = inclusionsOf args :=
      inclusions_other other
    by_cases heads : isHeading declaration = true
    · obtain ⟨_, _, opens, covered, one⟩ := inside taken (part.inside same) true
        (fun certain => (orderly certain).headed other heads) known.1.2.1
      exact rest.cons (same ▸ one) (.command other opens) (.heading heads heads covered) orderly
    · have plain : collectNode (.command ⟨ident, attributes, args, declaration, rules⟩) = collect args := if_neg heads
      obtain ⟨_, _, opens, covered, one⟩ := inside taken (part.inside same) heading
        (fun certain => (orderly certain).inside same plain) known.1.2.1
      exact rest.cons (same ▸ one) (.command other opens) (.command (Bool.eq_false_iff.mpr heads) covered) orderly
  | bracket _ _ inside later =>
    obtain ⟨_, _, opens, covered, one⟩ := inside taken (part.inside rfl) heading
      (fun certain => (orderly certain).inside rfl rfl) known.1
    exact (later taken part.rest heading (fun certain => (orderly certain).rest) known.2).cons one (.bracket opens)
      (.bracket covered) orderly
  | quotation _ _ inside later =>
    obtain ⟨_, _, opens, covered, one⟩ := inside taken (part.inside rfl) heading
      (fun certain => (orderly certain).inside rfl rfl) known.1
    exact (later taken part.rest heading (fun certain => (orderly certain).rest) known.2).cons one (.quotation opens)
      (.quotation covered) orderly
  | fragment _ _ inside later =>
    obtain ⟨_, _, opens, covered, one⟩ := inside taken (part.inside rfl) heading
      (fun certain => (orderly certain).inside rfl rfl) known.1
    exact (later taken part.rest heading (fun certain => (orderly certain).rest) known.2).cons one (.fragment opens)
      (.fragment covered) orderly
  | spliced included fresh ending loaded filled _ later =>
    exact (later taken part.rest heading (fun certain => (orderly certain).rest) known.2).cons (.refl _ _ _ _ _ _)
      (.spliced included fresh ending loaded filled) (replaced_node heading _) orderly
  | @source path chain _ command content inner _ _ sheet filled _ included fresh ending loaded deeper _ inside later =>
    have rest := later taken part.rest heading (fun certain => (orderly certain).rest) known.2
    subst taken
    have own : inclusions (.command command) = [command] := inclusions_included included
    cases only : command.hasAttribute "toc-only" with
    | true =>
      -- nothing of it is drawn, so it brings in nothing
      rw [only] at deeper rest
      rw [Bool.not_true, Bool.and_false] at deeper rest ⊢
      obtain ⟨same, alike⟩ := conclude_still (compiler.adjustment (target path command) command) sheet {} inner filled
        (FormulaSheet.successor {})
      rw [same] at rest
      rw [alike]
      exact rest.cons (.refl _ _ _ _ _ _) (.source_still included fresh ending loaded (deeper.still rfl _))
        (replaced_node heading _) orderly
    | false =>
      have drawn : (compiler.adjustment (target path command) command).tocOnly = false := only
      rw [only] at deeper inside rest
      rw [Bool.not_false, Bool.and_true] at deeper inside rest ⊢
      rw [conclude_taken drawn] at rest ⊢
      have next := part.next included fresh ending loaded
      obtain ⟨below, lower, opens, covered, one⟩ := inside rfl next false
        (fun certain => unmixed certain _ _ _ next.chained loaded)
        (loaded.declared (standard ▸ Builtin.makes_known false))
      have closed (certain : sure) (inside : heading = true) := by
        have closed := (orderly certain).closed command
        rw [inside, if_pos rfl, inclusionsOf, own] at closed
        exact closed (List.mem_cons_self ..)
      obtain ⟨more, stands, both⟩ := Gathers.included standard heading loaded ending only deeper opens covered one closed
      rw [← conclude_drawn drawn {} (below, FormulaSheet.successor {})] at stands
      exact rest.cons (own ▸ both) (.source_still included fresh ending loaded opens) (.fragment stands) orderly

/-- The ids of the formulas of a page are distinct. Each slot of the page stands in the place of a formula of the
expanded page and has an entry with its text. Two slots have the same id only if their formulas may be shared and are
the same and, where inclusions are not mixed, exactly if moreover neither stands in a heading. -/
theorem formulas_shared (compiler : Compiler) (standard : compiler.registry = Builtin.registry) (limit : Nat)
    (path : String) {session after : Session} (faithful : compiler.Faithful session) {document : Document}
    (succeeds : outcome ((compiler.within limit).compile path) session = (.ok document, after))
    (fresh : document.formulas.issued < 16 ^ 12) :
    document.formulas.ids.Nodup ∧ ∃ nodes whole places, compiler.Loads (Path.clean path) nodes ∧
      compiler.Expands (Path.clean path) [Path.clean path] false nodes {} whole {} ∧
      Replaced false whole document.nodes places ∧ hasFormula document.nodes = false ∧
      placeholders document.nodes = places.map Place.id ∧
      (∀ place ∈ places, ∃ entry ∈ document.formulas.entries,
        entry.id = place.id ∧ entry.latex = place.latex ∧ entry.block = place.spec.block) ∧
      places.Pairwise fun one other => (one.id = other.id → one.Alike other) ∧
        (compiler.AllUnmixed (Path.clean path) →
          (one.id = other.id ↔ one.Alike other ∧ one.heading = false ∧ other.heading = false)) := by
  obtain ⟨nodes, left, sheet, loads, expands, rfl⟩ := compileFile_expands faithful succeeds
  have makes (slots : Bool) : compiler.registry.Makes (Builtin.Known slots) := standard ▸ Builtin.makes_known slots
  have part : compiler.PartOf (Path.clean path) (Path.clean path) [Path.clean path] nodes :=
    ⟨.page, nodes, loads, fun _ member => member⟩
  obtain ⟨whole, places, opens, replaced, gathers⟩ := expands.gathers standard (fun unmixed => unmixed) rfl part false
    (fun unmixed => unmixed _ _ _ .page loads) (loads.declared (makes false))
  have wide := opens.known standard (loads.declared (makes false))
  have narrow := expands.known standard (loads.declared (makes true))
  obtain ⟨more, stands, files⟩ := replaced.extract (compiler.AllUnmixed (Path.clean path)) 0 narrow true sheet
  have page : finished true left sheet = (extractNodes true false left).run sheet := rfl
  dsimp only at fresh ⊢
  rw [page] at fresh ⊢
  have start : FormulaSheet.Accounts (compiler.AllUnmixed (Path.clean path)) 0 {} [] :=
    ⟨rfl, rfl, fun _ none => (List.not_mem_nil none).elim, fun _ none => (List.not_mem_nil none).elim, fun _ => .nil⟩
  have filled := gathers.keeps (files.grows.trans_lt fresh) 0 [] (fun _ _ none => (List.not_mem_nil none).elim) start
  have accounts := files.keeps fresh [] filled
  rw [List.append_nil] at accounts
  refine ⟨accounts.nodup fresh, nodes, whole, more, loads, opens, stands, ?_, ?_, fun place member => ?_,
    accounts.shared fresh⟩
  · exact extractNodes_hasFormula true false left sheet
  · exact stands.placeholders wide (extractNodes_known true false left narrow sheet)
  · obtain ⟨entry, listed, entered⟩ := accounts.entered place member
    exact ⟨entry, listed, entered.id, entered.latex, entered.block⟩

namespace Sample

/-- Formulas in a heading and beside it, some of them in an included source as well. -/
def board : Compiler :=
  files [("main.ss", "\\h1\x7b\\\x7by\x7d\x7d\\\x7bx\x7d \\\x7by\x7d\\include[src=a.ss]"),
    ("a.ss", "\\\x7bx\x7d \\math\x7bx\x7d")]

/-- Where the inclusions of a source lead to, and how many there are in headings. -/
def mixture (nodes : List Node) : List String × Nat :=
  ((inclusionsOf nodes).map address, ((collect nodes).flatMap (inclusionsOf ·.args)).length)

theorem board_page {nodes : List Node} (loads : board.Loads "main.ss" nodes) : mixture nodes = (["a.ss"], 0) :=
  loads_seen loads (by decide +kernel) (by decide +kernel)

theorem board_inner {nodes : List Node} (loads : board.Loads "a.ss" nodes) : mixture nodes = ([], 0) :=
  loads_seen loads (by decide +kernel) (by decide +kernel)

theorem board_chain {chain : List String} {path : String} (chained : board.Chain "main.ss" chain path) :
    path = "main.ss" ∨ path = "a.ss" := by
  refine chained.holds (fun path => path = "main.ss" ∨ path = "a.ss") (.inl rfl) ?_
  rintro path nodes command (rfl | rfl) loads member _
  · have seen := target_mem member "main.ss"
    have places : addresses nodes = ["a.ss"] := congrArg Prod.fst (board_page loads)
    rw [places, List.map_singleton, List.mem_singleton] at seen
    exact .inr (seen.trans (by decide))
  · have seen := target_mem member "a.ss"
    have places : addresses nodes = [] := congrArg Prod.fst (board_inner loads)
    rw [places] at seen
    cases seen

theorem unmixed_of_mixture {compiler : Compiler} {path : String} {chain : List String} {nodes : List Node}
    (few : (mixture nodes).1.length ≤ 1) (none : (mixture nodes).2 = 0) : compiler.Unmixed path chain false nodes := by
  constructor
  · rw [mixture, List.length_map] at few
    cases all : inclusionsOf nodes with
    | nil => exact .nil
    | cons first rest =>
      rw [all, List.length_cons] at few
      rw [List.eq_nil_of_length_eq_zero (Nat.le_zero.mp (Nat.le_of_succ_le_succ few))]
      exact List.pairwise_singleton _ _
  · have empty := List.eq_nil_of_length_eq_zero none
    intro command member
    simp only [Bool.false_eq_true, if_false, empty, List.not_mem_nil] at member

theorem board_unmixed : board.AllUnmixed "main.ss" := by
  intro chain path nodes chained loads
  rcases board_chain chained with rfl | rfl
  · have seen := board_page loads
    exact unmixed_of_mixture (by rw [seen]; rfl) (by rw [seen])
  · have seen := board_inner loads
    exact unmixed_of_mixture (by rw [seen]; exact Nat.zero_le _) (by rw [seen])

/-- The slots of a page, those in its headings, and the entries. -/
def sharingView (document : Document) : List String × List String × List Formula :=
  (placeholders document.nodes, (collect document.nodes).flatMap (placeholders ·.args), document.formulas.entries)

/-- Two included sources with the same formula. -/
def doubled : Compiler :=
  files [("main.ss", "\\include[src=a.ss]\\include[src=b.ss]"), ("a.ss", "\\\x7bx\x7d"), ("b.ss", "\\\x7bx\x7d")]

/-- A source with the same formula twice that is included in a heading. -/
def crowned : Compiler :=
  files [("main.ss", "\\h1\x7b\\include[src=a.ss]\x7d"), ("a.ss", "\\\x7bx\x7d \\\x7bx\x7d")]

end Sample

theorem formulas_shared_board : Sample.board.registry = Builtin.registry ∧
    Sample.board.AllUnmixed (Path.clean "main.ss") ∧ ∃ document after,
    outcome ((Sample.board.within 5).compile "main.ss") {} = (.ok document, after) ∧
    document.formulas.issued = 4 ∧ document.formulas.issued < 16 ^ 12 ∧ document.formulas.ids.Nodup ∧
    ∃ places : List Formula.Place, places.map Place.id = [3, 1, 4, 1, 2].map FormulaSheet.idOf ∧
      places.Pairwise fun one other =>
        one.id = other.id ↔ one.Alike other ∧ one.heading = false ∧ other.heading = false := by
  have page : Path.clean "main.ss" = "main.ss" := by decide +kernel
  have unmixed : Sample.board.AllUnmixed (Path.clean "main.ss") := page.symm ▸ Sample.board_unmixed
  have succeeds : ((outcome ((Sample.board.within 5).compile "main.ss") {}).1.toOption.map fun document =>
      (document.formulas.issued, placeholders document.nodes)) = some (4, [3, 1, 4, 1, 2].map FormulaSheet.idOf) := by
    decide +kernel
  obtain ⟨document, after, run, seen⟩ := Sample.ok_of_view succeeds
  obtain ⟨issued, slots⟩ := Prod.mk.inj seen
  have fresh : document.formulas.issued < 16 ^ 12 := by omega
  obtain ⟨distinct, _, _, places, _, _, _, _, same, _, shared⟩ :=
    formulas_shared Sample.board rfl 5 "main.ss" (faithful_empty _) run fresh
  exact ⟨rfl, unmixed, document, after, run, issued, fresh, distinct, places, same.symm.trans slots,
    shared.imp fun both => both.2 unmixed⟩

/-- Formulas that may be shared and are the same get two entries when two sources bring them in, and those that a source
brings into a heading share one. -/
theorem formulas_misplaced :
    (∃ document after, outcome (Sample.doubled.compile "main.ss") {} = (.ok document, after) ∧
      Sample.sharingView document = ([1, 2].map FormulaSheet.idOf, [],
        [⟨FormulaSheet.idOf 1, "x", false, false⟩, ⟨FormulaSheet.idOf 2, "x", false, false⟩])) ∧
    ∃ document after, outcome (Sample.crowned.compile "main.ss") {} = (.ok document, after) ∧
      Sample.sharingView document = ([1, 1].map FormulaSheet.idOf, [1, 1].map FormulaSheet.idOf,
        [⟨FormulaSheet.idOf 1, "x", false, false⟩]) := by
  constructor <;> exact Sample.ok_of_view (by decide +kernel)

end Manuscript.Compiler
