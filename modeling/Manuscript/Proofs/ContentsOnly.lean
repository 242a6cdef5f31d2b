import Manuscript.Proofs.TocOnly
import Manuscript.Proofs.Undrawn

/-! What a page is with inclusions for the table of contents alone. It has the entries that the whole files would make,
and what is drawn is what would be drawn if the inclusions were not there, except in images: the text that stands for an
image is made of all that is in it, whether or not it is drawn elsewhere. -/

namespace Manuscript

open Formula Html

namespace Compile

variable {α β γ δ : Type} {compiler : Compiler} {related : α → β → Prop} {further : γ → δ → Prop}

/-- Where one succeeds, so does the other, with a result that has to do with it. -/
def Follows (compiler : Compiler) (related : α → β → Prop) (one : Compile α) (other : Compile β) : Prop :=
  ∀ session twin, compiler.Consistent session → compiler.Consistent twin →
    ∀ value middle, outcome one session = (.ok value, middle) →
      ∃ result left, outcome other twin = (.ok result, left) ∧ related value result ∧ compiler.Consistent middle ∧
        compiler.Consistent left

theorem follows_pure {value : α} {result : β} (same : related value result) :
    Follows compiler related (pure value) (pure result) := by
  intro session twin consistent further _ _ succeeds
  cases succeeds
  exact ⟨result, twin, rfl, same, consistent, further⟩

theorem Follows.bind {one : Compile α} {other : Compile β} {next : α → Compile γ} {more : β → Compile δ}
    (first : Follows compiler related one other)
    (second : ∀ value result, related value result → Follows compiler further (next value) (more result)) :
    Follows compiler further (one >>= next) (other >>= more) := by
  intro session twin consistent other value middle succeeds
  cases run : outcome one session with
  | mk given left =>
    cases given with
    | error failure =>
      rw [outcome_bind_error run] at succeeds
      cases succeeds
    | ok given =>
      obtain ⟨result, reached, reruns, same, kept, keeps⟩ := first session twin consistent other given left run
      rw [outcome_bind_ok run] at succeeds
      rw [outcome_bind_ok reruns]
      exact second _ _ same _ _ kept keeps _ _ succeeds

theorem Follows.mono {weaker : α → β → Prop} {one : Compile α} {other : Compile β}
    (follows : Follows compiler related one other)
    (values : ∀ value result, related value result → weaker value result) :
    Follows compiler weaker one other := by
  intro session twin consistent further value middle succeeds
  obtain ⟨result, left, reruns, same, kept⟩ := follows session twin consistent further value middle succeeds
  exact ⟨result, left, reruns, values _ _ same, kept⟩

theorem Blind.follows {compilation : Compile α} (blind : Blind compiler.Consistent compilation) :
    Follows compiler Eq compilation compilation := by
  intro session twin consistent further value middle succeeds
  obtain ⟨kept, same⟩ := blind session consistent
  rw [succeeds] at kept same
  exact ⟨value, (outcome compilation twin).2, Prod.ext (same twin further) rfl, rfl, kept, (blind twin further).1⟩

/-- In place of a program of which something is known there may be nothing. -/
theorem Keeps.follows {holds : α → Prop} {compilation : Compile α} {result : β}
    (keeps : Keeps compiler.Faithful holds compilation) (blind : Blind compiler.Consistent compilation)
    (fits : ∀ value, holds value → related value result) : Follows compiler related compilation (pure result) := by
  intro session twin consistent further value middle succeeds
  have kept := (blind session consistent).1
  have known := (keeps session consistent.faithful).2 value (congrArg Prod.fst succeeds)
  rw [succeeds] at kept
  exact ⟨result, twin, rfl, fits value known, kept, further⟩

end Compile

namespace Compiler

open Compile Outline

/-- Whether a command on a page includes a source for the table of contents alone, if it is an inclusion. -/
def feeds (page : String) (command : Command Node) : Bool :=
  command.hasAttribute "toc-only" && Path.ext (target page command) == sourceExt

mutual

def clearedNode (page : String) : Node → Node
  | .command ⟨ident, attributes, args, declaration, rules⟩ =>
    if Declaration.isInclusion declaration then
      if feeds page ⟨ident, attributes, args, declaration, rules⟩ then .fragment []
      else .command ⟨ident, attributes, args, declaration, rules⟩
    else if Declaration.shows declaration then .command ⟨ident, attributes, cleared page args, declaration, rules⟩
    else .command ⟨ident, attributes, args, declaration, rules⟩
  | .bracket ⟨kind, opening, closing, children⟩ => .bracket ⟨kind, opening, closing, cleared page children⟩
  | .quotation opening closing children => .quotation opening closing (cleared page children)
  | .fragment children => .fragment (cleared page children)
  | node => node
termination_by structural node => node

/-- A page without its inclusions for the table of contents alone, wherever arguments are shown as they are. -/
def cleared (page : String) : List Node → List Node
  | [] => []
  | node :: rest => clearedNode page node :: cleared page rest
termination_by structural nodes => nodes

end

variable {compiler : Compiler} {page : String}

section Expand

variable {inclusion : Command Node → Expand (List Node)}

theorem blind_expandNode (each : ∀ command sheet, Blind compiler.Consistent ((inclusion command).run sheet))
    (node : Node) (sheet : FormulaSheet) : Blind compiler.Consistent ((expandNode inclusion node).run sheet) :=
  @Modular.expandNode _ (modular_blind compiler) (fun _ => inclusion) (fun _ => True) node
    (fun command _ _ => each command) 0 sheet

/-- Expanded nodes that are the same, or of which the second leaves out what is not drawn. -/
def HollowedNode (given left : Node × FormulaSheet) : Prop :=
  (∀ rest others, Hollowed rest others → Hollowed (given.1 :: rest) (left.1 :: others)) ∧ given.2 = left.2

/-- A way to include files: where a file only feeds the table of contents, nothing is drawn. -/
structure Quiet (compiler : Compiler) (page : String) (inclusion : Command Node → Expand (List Node)) : Prop where
  blind : ∀ command sheet, Blind compiler.Consistent ((inclusion command).run sheet)
  fed : ∀ command, Declaration.isInclusion command.declaration = true → feeds page command = true → ∀ sheet,
    Keeps compiler.Faithful (fun result => (∃ commands : List (Command Node), (∀ heading ∈ commands, Unseen heading) ∧
      result.1 = commands.map .command) ∧ result.2 = sheet) ((inclusion command).run sheet)

mutual

theorem clearedNode_follows (quiet : compiler.Quiet page inclusion) (node : Node) (sheet : FormulaSheet) :
    Follows compiler HollowedNode ((expandNode inclusion node).run sheet)
      ((expandNode inclusion (clearedNode page node)).run sheet) := by
  have still (node : Node) : Follows compiler HollowedNode ((expandNode inclusion node).run sheet)
      ((expandNode inclusion node).run sheet) :=
    (blind_expandNode quiet.blind node sheet).follows.mono fun _ _ same =>
      ⟨fun _ _ later => same ▸ Hollowed.same _ later, congrArg Prod.snd same⟩
  match node with
  | .command ⟨ident, attributes, args, declaration, rules⟩ =>
    rw [clearedNode]
    by_cases included : Declaration.isInclusion declaration = true
    · rw [if_pos included]
      split
      next fed =>
        have run := @expandNode_included inclusion ⟨ident, attributes, args, declaration, rules⟩ included
        rw [run, StateT.run_bind]
        refine Keeps.follows ((quiet.fed _ included fed sheet).bind fun given known => keeps_pure ?_)
          ((quiet.blind _ sheet).bind fun _ => blind_pure _) fun _ fits => fits
        obtain ⟨⟨commands, unseen, same⟩, unchanged⟩ := known
        rw [same]
        exact ⟨fun _ _ later => .hollow unseen later, unchanged⟩
      · exact still _
    · rw [if_neg included]
      have other := Bool.eq_false_iff.mpr included
      split
      next shows =>
        rw [@expandNode_other inclusion ⟨ident, attributes, args, declaration, rules⟩ other,
          @expandNode_other inclusion ⟨ident, attributes, cleared page args, declaration, rules⟩ other, StateT.run_bind,
          StateT.run_bind]
        exact (cleared_follows quiet args sheet).bind fun _ _ inside => follows_pure
          ⟨fun _ _ later => .command shows inside.1 later, inside.2⟩
      · exact still _
  | .bracket ⟨_, _, _, children⟩ =>
    simp only [clearedNode, expandNode, StateT.run_bind]
    exact (cleared_follows quiet children sheet).bind fun _ _ inside => follows_pure
      ⟨fun _ _ later => .bracket inside.1 later, inside.2⟩
  | .quotation _ _ children =>
    simp only [clearedNode, expandNode, StateT.run_bind]
    exact (cleared_follows quiet children sheet).bind fun _ _ inside => follows_pure
      ⟨fun _ _ later => .quotation inside.1 later, inside.2⟩
  | .fragment children =>
    simp only [clearedNode, expandNode, StateT.run_bind]
    exact (cleared_follows quiet children sheet).bind fun _ _ inside => follows_pure
      ⟨fun _ _ later => .fragment inside.1 later, inside.2⟩
  | .hole | .text _ _ | .symbol _ _ | .ident _ | .stray _ | .drawing _ | .tag _ => exact still _
termination_by structural node

theorem cleared_follows (quiet : compiler.Quiet page inclusion) (nodes : List Node) (sheet : FormulaSheet) :
    Follows compiler (fun given left => Hollowed given.1 left.1 ∧ given.2 = left.2)
      ((expandNodes inclusion nodes).run sheet) ((expandNodes inclusion (cleared page nodes)).run sheet) := by
  match nodes with
  | [] => exact follows_pure ⟨.nil, rfl⟩
  | node :: rest =>
    simp only [cleared, expandNodes, StateT.run_bind]
    refine (clearedNode_follows quiet node sheet).bind fun given left first => ?_
    rw [first.2]
    exact (cleared_follows quiet rest left.2).bind fun _ _ later => follows_pure ⟨first.1 _ _ later.1, later.2⟩
termination_by structural nodes

end

end Expand

/-- An inclusion for the table of contents alone leaves headings kept out of the text, and the sheet as it is. -/
theorem keeps_fed (standard : compiler.registry = Builtin.registry) (depth : Nat) (chain : List String) (extract : Bool)
    (command : Command Node) (included : Declaration.isInclusion command.declaration = true)
    (fed : feeds page command = true) (sheet : FormulaSheet) :
    Keeps compiler.Faithful (fun result => (∃ commands : List (Command Node), (∀ heading ∈ commands, Unseen heading) ∧
      result.1 = commands.map .command) ∧ result.2 = sheet)
      ((compiler.includeFile depth page chain extract command).run sheet) := by
  rw [feeds, Bool.and_eq_true, beq_iff_eq] at fed
  obtain ⟨flagged, ending⟩ := fed
  refine (keeps_includeFile_expands compiler compiler.limit depth page chain extract command included sheet).mono ?_
  rintro ⟨nodes, after⟩ expands
  have opens := expands [] [] after .nil
  cases opens with
  | spliced _ _ other => exact absurd ending other
  | source _ _ _ loaded inside later =>
    have only : (compiler.adjustment (target page command) command).tocOnly = true := flagged
    have known := inside.known standard (loaded.declared (standard ▸ Builtin.makes_known _))
    have left (extract : Bool) (inner : List Node) (filled : FormulaSheet) :
        conclude (compiler.adjustment (target page command) command) extract sheet (inner, filled) =
          ((collect (adjust (compiler.adjustment (target page command) command) inner)).map .command, sheet) := by
      unfold conclude
      rw [only]
      rfl
    rw [left] at later ⊢
    cases later
    exact ⟨⟨_, adjusted_unseen standard only known, rfl⟩, rfl⟩

theorem quiet_includeFile (standard : compiler.registry = Builtin.registry) (page : String) (depth : Nat)
    (chain : List String) (extract : Bool) :
    compiler.Quiet page (compiler.includeFile depth page chain extract) :=
  ⟨blind_includeFile compiler depth page chain extract, keeps_fed standard depth chain extract⟩

/-- What a page draws is what it draws without its inclusions for the table of contents alone, but for anchors. -/
theorem drawn_cleared (standard : compiler.registry = Builtin.registry) {session twin : Session}
    (consistent : compiler.Consistent session) (further : compiler.Consistent twin) {document : Document}
    (succeeds : (outcome (compiler.compile page) session).1 = .ok document) :
    ∃ nodes rest, compiler.Loads (Path.clean page) nodes ∧
      (outcome (compiler.finish (Path.clean page) (cleared (Path.clean page) nodes) true) twin).1 = .ok rest ∧
      Reanchored document.drawn.1 rest.drawn.1 ∧ document.formulas = rest.formulas := by
  rw [compile, compileFile, outcome_rethrow] at succeeds
  obtain ⟨loaded, kept⟩ := load_content compiler consistent (Path.clean page)
  cases given : outcome (compiler.load (Path.clean page)) session with
  | mk content middle =>
    rw [given] at loaded kept
    cases content with
    | error failure =>
      rw [outcome_bind_error given] at succeeds
      cases succeeds
    | ok nodes =>
      rw [outcome_bind_ok given] at succeeds
      have finishes : Follows compiler (fun document rest : Document => document.path = rest.path ∧
          Hollowed document.nodes rest.nodes ∧ document.formulas = rest.formulas)
          (compiler.finish (Path.clean page) nodes true)
          (compiler.finish (Path.clean page) (cleared (Path.clean page) nodes) true) := by
        refine (cleared_follows (quiet_includeFile standard _ _ _ _) nodes {}).bind fun given left together => ?_
        obtain ⟨hollowed, same⟩ := together
        obtain ⟨still, filed⟩ := hollowed.extract true false given.2
        rw [same] at still filed
        exact follows_pure ⟨rfl, same ▸ still, same ▸ filed⟩
      have ends : (outcome (compiler.finish (Path.clean page) nodes true) middle).1 = .ok document := by
        cases finished : (outcome (compiler.finish (Path.clean page) nodes true) middle).1 with
        | error failure =>
          rw [finished] at succeeds
          cases succeeds
        | ok result =>
          rw [finished] at succeeds
          exact succeeds
      obtain ⟨rest, last, reruns, ⟨path, hollowed, filed⟩, _⟩ :=
        finishes middle twin kept further document _ (Prod.ext ends rfl)
      refine ⟨nodes, rest, loads_of_content loaded.symm, congrArg Prod.fst reruns, ?_, filed⟩
      rw [Document.drawn, Document.drawn, ← path]
      exact ((hollowed.redraws document.path).1 {} {}).2.2

/-- Inclusions for the table of contents alone make the entries that inclusions of the whole files make. Nothing is drawn
of them, and their formulas are left out, wherever the arguments around them are shown as they are. -/
theorem toc_only_same_contents {compiler twin : Compiler} {page : String}
    (flagging : compiler.Flagging twin (Path.clean page)) {session other : Session}
    (consistent : compiler.Consistent session) (further : twin.Consistent other) :
    Agree Eq (fun document copy => document.drawn.2 = copy.drawn.2 ∧
        ∃ nodes rest, twin.Loads (Path.clean page) nodes ∧
          (outcome (twin.finish (Path.clean page) (cleared (Path.clean page) nodes) true) other).1 = .ok rest ∧
          Reanchored copy.drawn.1 rest.drawn.1 ∧ copy.formulas = rest.formulas)
      (outcome (compiler.compile page) session).1 (outcome (twin.compile page) other).1 := by
  have standard : twin.registry = Builtin.registry := flagging.beside.registry.trans flagging.beside.standard
  have agree := flagging.contents_eq consistent further
  generalize (outcome (compiler.compile page) session).1 = result at agree ⊢
  generalize recompiled : (outcome (twin.compile page) other).1 = again at agree ⊢
  cases agree with
  | error same => exact .error same
  | ok same => exact .ok ⟨same, drawn_cleared standard further further recompiled⟩

namespace Sample

/-- A word and an inclusion of a file with a heading. -/
def announced (flags : String) : Compiler :=
  files [("main.ss", "A\\include[src=f.ss" ++ flags ++ "]"), ("f.ss", "\\h1\x7bA\x7d")]

/-- What an inclusion behind a word says. -/
def inclusionView (nodes : List Node) : Option (String × Option Declaration × List (Option String) × List Bool) :=
  match nodes with
  | [.text word _, .command command] =>
    some (word, command.declaration, ["src", "baseline"].map command.attribute?,
      ["no-toc", "toc-only"].map command.hasAttribute)
  | _ => none

theorem announced_page {flags : String} {only : Bool}
    (seen : ((announced flags).content "main.ss").toOption.bind inclusionView =
      some ("A", Builtin.registry.first? Builtin.includeIdent, [some "f.ss", none], [false, only])) :
    ∃ span command, (announced flags).content "main.ss" = .ok [.text "A" span, .command command] ∧
      command.declaration = Builtin.registry.first? Builtin.includeIdent ∧ command.attribute? "src" = some "f.ss" ∧
      command.attribute? "baseline" = none ∧ command.hasAttribute "no-toc" = false ∧
      command.hasAttribute "toc-only" = only := by
  obtain ⟨nodes, given, view⟩ := Option.bind_eq_some_iff.mp seen
  unfold inclusionView at view
  split at view
  next word span command =>
    simp only [List.map_cons, List.map_nil, Option.some.injEq, Prod.mk.injEq, List.cons.injEq, and_true] at view
    obtain ⟨rfl, declared, ⟨source, baseline⟩, noToc, flag⟩ := view
    exact ⟨span, command, ok_of_toOption given, declared, source, baseline, noToc, flag⟩
  next => cases view

theorem announced_listable : (announced "").Listable "f.ss" := by
  have inner {nodes : List Node} (loads : (announced "").Loads "f.ss" nodes) :
      (isListable nodes, (inclusionsOf nodes).isEmpty) = (true, true) :=
    @loads_seen _ _ _ _ (fun nodes => (isListable nodes, (inclusionsOf nodes).isEmpty)) _ loads (by decide +kernel)
      (by decide +kernel)
  have none {nodes : List Node} {command : Command Node} (loads : (announced "").Loads "f.ss" nodes)
      (member : command ∈ inclusionsOf nodes) : False := by
    rw [List.isEmpty_iff.mp (congrArg Prod.snd (inner loads))] at member
    cases member
  have only {chain : List String} {path : String} (chained : (announced "").Chain "f.ss" chain path) : path = "f.ss" :=
    chained.holds (· = "f.ss") rfl fun here loads member _ => (none (here ▸ loads) member).elim
  constructor
  · intro chain path nodes chained loads
    exact congrArg Prod.fst (inner (only chained ▸ loads))
  · intro chain path nodes command content left chained loads member
    exact (none (only chained ▸ loads) member).elim

theorem announced_flagging : (announced "").Flagging (announced ",toc-only") "main.ss" := by
  constructor
  · have closed : isClosed (announced "") ["main.ss", "f.ss"] = true := by decide +kernel
    constructor
    case standard | registry | decoders | limit => rfl
    case read =>
      intro path reached other
      have listed : path ∈ ["main.ss", "f.ss"] := reached_listed reached (by decide) closed
      obtain rfl : path = "f.ss" := by simpa [other] using listed
      have plain : (announced "").tree.read "f.ss" = .ok (Utf8.encode "\\h1\x7bA\x7d") :=
        ok_of_toOption (by decide +kernel)
      have only : (announced ",toc-only").tree.read "f.ss" = .ok (Utf8.encode "\\h1\x7bA\x7d") :=
        ok_of_toOption (by decide +kernel)
      rw [plain, only]
  · obtain ⟨span, command, given, declared, source, baseline, noToc, _⟩ :=
      @announced_page "" false (by decide +kernel)
    obtain ⟨place, twin, regiven, again, resource, rebased, unlisted, flagged⟩ :=
      @announced_page ",toc-only" true (by decide +kernel)
    have aims : target "main.ss" command = "f.ss" := by rw [target, source]; decide +kernel
    have flags : (announced "").Flags "main.ss" command twin :=
      ⟨declared, again.trans declared.symm, resource.trans source.symm, rebased.trans baseline.symm,
        unlisted.trans noToc.symm, flagged, by rw [aims]; decide, aims ▸ announced_listable⟩
    rw [given, regiven]
    exact .ok (.part (.inl ⟨rfl, rfl⟩) (.part (.inr ⟨rfl, _, _, rfl, rfl, flags⟩) .nil))

/-- An image with an inclusion of a file in its text. -/
def pictured (text : String) : Compiler :=
  files [("main.ss", "\\img[src=a.png]\x7b\\include[src=f.ss,toc-only]\x7d"), ("f.ss", text)]

end Sample

/-- The heading is in the table of contents both times, and is drawn once. -/
theorem toc_only_same_contents_announced :
    (∃ document copy, (outcome ((Sample.announced "").compile "main.ss") {}).1 = .ok document ∧
      (outcome ((Sample.announced ",toc-only").compile "main.ss") {}).1 = .ok copy ∧
      document.drawn.2 = copy.drawn.2) ∧
    Sample.body (Sample.announced "") = .ok "A<h1 id=\"A\"><a href=\"/f.html#A\">A</a></h1>" ∧
    Sample.body (Sample.announced ",toc-only") = .ok "A" := by
  have clean : Path.clean "main.ss" = "main.ss" := by decide
  have flagging := Sample.announced_flagging
  rw [← clean] at flagging
  have agree := toc_only_same_contents flagging (consistent_empty _) (consistent_empty _)
  have drawn : Sample.body (Sample.announced "") = .ok "A<h1 id=\"A\"><a href=\"/f.html#A\">A</a></h1>" :=
    Sample.ok_of_toOption (by decide +kernel)
  refine ⟨?_, drawn, Sample.ok_of_toOption (by decide +kernel)⟩
  unfold Sample.body at drawn
  generalize (outcome ((Sample.announced "").compile "main.ss") {}).1 = page at agree drawn ⊢
  generalize (outcome ((Sample.announced ",toc-only").compile "main.ss") {}).1 = twin at agree ⊢
  cases agree with
  | error => cases drawn
  | ok same => exact ⟨_, _, rfl, rfl, same.1⟩

/-- The text of an image says what is in a file that is included for the table of contents alone. -/
theorem toc_only_drawn_in_image :
    Sample.body (Sample.pictured "\\h1\x7bA\x7d") = .ok "<img src=\"a.png\" alt=\"A\"/>" ∧
      Sample.body (Sample.pictured "") = .ok "<img src=\"a.png\"/>" :=
  ⟨Sample.ok_of_toOption (by decide +kernel), Sample.ok_of_toOption (by decide +kernel)⟩

end Compiler
end Manuscript
