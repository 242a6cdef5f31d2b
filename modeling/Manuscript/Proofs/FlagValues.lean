import Manuscript.Proofs.BareFlags
import Manuscript.Proofs.ExactEquality
import Manuscript.Proofs.Moving

/-! Values of flags in a project. Inclusions and headings of two projects that differ in these values alone are the same
in all that they do, so the pages of the two are the same: a flag with a false value is a flag like any other. -/

namespace Manuscript

open Compile

theorem Agree.of_map {α β : Type} {make : α → β} {one other : Except Failure α} (same : one.map make = other.map make) :
    Agree Eq (fun value twin => make value = make twin) one other := by
  cases one with
  | ok value =>
    cases other with
    | ok twin => exact .ok (Except.ok.inj same)
    | error failure => cases same
  | error failure =>
    cases other with
    | ok twin => cases same
    | error reason => exact .error (Except.error.inj same)

theorem Agree.bind_eq {α β γ : Type} {related : α → β → Prop} {one : Except Failure α} {other : Except Failure β}
    (agree : Agree Eq related one other) {make : α → Except Failure γ} {remake : β → Except Failure γ}
    (same : ∀ value twin, related value twin → make value = remake twin) : one >>= make = other >>= remake := by
  cases agree with
  | ok given => exact same _ _ given
  | error failure => exact congrArg Except.error failure

namespace Compiler

section Expand

variable {meet : Session → Session → Prop} {fail : Failure → Failure → Prop}
  {one other : Command Node → Expand (List Node)}

/-- Results of expansion that differ in values of flags and in places. -/
def Bare (given left : List Node × FormulaSheet) : Prop := bare given.1 = bare left.1 ∧ given.2 = left.2

/-- Inclusions of the same file with the same flags are expanded to the same, but for these values. -/
def CouplesEach (meet : Session → Session → Prop) (fail : Failure → Failure → Prop)
    (one other : Command Node → Expand (List Node)) (commands : List (Command Node)) : Prop :=
  ∀ command ∈ commands, ∀ twin : Command Node, (Node.command command).bare = (Node.command twin).bare →
    ∀ sheet, Couples meet fail Bare ((one command).run sheet) ((other twin).run sheet)

mutual

theorem couples_bareNode (node left : Node) (same : node.bare = left.bare)
    (each : CouplesEach meet fail one other (inclusions node)) (sheet : FormulaSheet) :
    Couples meet fail (fun given left => given.1.bare = left.1.bare ∧ given.2 = left.2)
      ((expandNode one node).run sheet) ((expandNode other left).run sheet) := by
  match node with
  | .command ⟨ident, attributes, args, declaration, rules⟩ =>
    cases left with
    | command command =>
      obtain ⟨name, others, inner, heading, more⟩ := command
      have whole := same
      simp only [Node.bare, Node.command.injEq, Command.mk.injEq] at same
      obtain ⟨named, flagged, inside, rfl, ruled⟩ := same
      unfold inclusions at each
      unfold expandNode
      split at each
      next included =>
        rw [if_pos included, if_pos included, StateT.run_bind, StateT.run_bind]
        refine (each _ (List.mem_singleton_self _) _ whole sheet).bind fun given left both => ?_
        exact couples_pure ⟨congrArg Node.fragment both.1, both.2⟩
      next plain =>
        rw [if_neg plain, if_neg plain, StateT.run_bind, StateT.run_bind]
        refine (couples_bareNodes args inner inside each sheet).bind fun given left both => ?_
        exact couples_pure ⟨by simp only [Node.bare, named, flagged, both.1, ruled], both.2⟩
    | _ => cases same
  | .bracket ⟨kind, opening, closing, children⟩ =>
    cases left with
    | bracket block =>
      obtain ⟨brackets, first, last, inner⟩ := block
      simp only [Node.bare, blockBare, Node.bracket.injEq, Block.mk.injEq] at same
      obtain ⟨alike, opened, closed, inside⟩ := same
      simp only [expandNode, StateT.run_bind]
      refine (couples_bareNodes children inner inside each sheet).bind fun given left both => ?_
      exact couples_pure ⟨by simp only [Node.bare, blockBare, alike, opened, closed, both.1], both.2⟩
    | _ => cases same
  | .quotation opening closing children =>
    cases left with
    | quotation first last inner =>
      simp only [Node.bare, Node.quotation.injEq] at same
      obtain ⟨opened, closed, inside⟩ := same
      simp only [expandNode, StateT.run_bind]
      refine (couples_bareNodes children inner inside each sheet).bind fun given left both => ?_
      exact couples_pure ⟨by simp only [Node.bare, opened, closed, both.1], both.2⟩
    | _ => cases same
  | .fragment children =>
    cases left with
    | fragment inner =>
      simp only [expandNode, StateT.run_bind]
      refine (couples_bareNodes children inner (Node.fragment.inj same) each sheet).bind fun given left both => ?_
      exact couples_pure ⟨congrArg Node.fragment both.1, both.2⟩
    | _ => cases same
  | .hole | .text _ _ | .symbol _ _ | .ident _ | .stray _ | .drawing _ | .tag _ =>
    cases left with
    | command | bracket | quotation | fragment => cases same
    | hole | text | symbol | ident | stray | drawing | tag => exact couples_pure ⟨same, rfl⟩
termination_by structural node

theorem couples_bareNodes (nodes left : List Node) (same : bare nodes = bare left)
    (each : CouplesEach meet fail one other (inclusionsOf nodes)) (sheet : FormulaSheet) :
    Couples meet fail Bare ((expandNodes one nodes).run sheet) ((expandNodes other left).run sheet) := by
  match nodes with
  | [] =>
    cases left with
    | nil => exact couples_pure ⟨rfl, rfl⟩
    | cons => cases same
  | node :: rest =>
    cases left with
    | nil => cases same
    | cons twin others =>
      obtain ⟨first, later⟩ := List.cons.inj same
      rw [inclusionsOf] at each
      obtain ⟨here, there⟩ := List.forall_mem_append.mp each
      simp only [expandNodes, StateT.run_bind]
      refine (couples_bareNode node twin first here sheet).bind fun given granted both => ?_
      rw [both.2]
      refine (couples_bareNodes rest others later there _).bind fun left further more => ?_
      exact couples_pure ⟨by rw [bare, bare, both.1, more.1], more.2⟩
termination_by structural nodes

end

end Expand

section Splice

/-- Where drawings and rules stand has no part in what the rules become. -/
theorem filled_unspanned (drawings : List Node) (rules : List (Rule Node)) :
    unspanned (drawings.flatMap fun drawing =>
        rules.flatMap fun rule => substitute [⟨rule.pattern, [drawing]⟩] rule.target) =
      (unspanned drawings).flatMap fun drawing =>
        (rulesUnspanned rules).flatMap fun rule => substitute [⟨rule.pattern, [drawing]⟩] rule.target := by
  have filled (drawing : Node) (rule : Rule Node) :
      unspanned (substitute [⟨rule.pattern, [drawing]⟩] rule.target) =
        substitute [⟨rule.unspanned.pattern, [drawing.unspanned]⟩] rule.unspanned.target :=
    (substituteFrom_unspanned [⟨rule.pattern, [drawing]⟩] 0 rule.target).symm
  rw [unspanned_eq_map, unspanned_eq_map, rulesUnspanned_eq_map, List.map_flatMap, List.flatMap_map]
  refine List.flatMap_congr fun drawing _ => ?_
  rw [List.map_flatMap, List.flatMap_map]
  refine List.flatMap_congr fun rule _ => ?_
  rw [← unspanned_eq_map]
  exact filled drawing rule

variable {compiler twin : Compiler} {path : String}

theorem couples_resolveSame (registry : twin.registry = compiler.registry) (limit : twin.limit = compiler.limit)
    {nodes others : List Node} (same : unspanned nodes = unspanned others) :
    Couples (Meet compiler twin) Eq (fun left given => unspanned left = unspanned given)
      (compiler.resolveTop path nodes) (twin.resolveTop path others) := by
  have resolved : (resolve compiler.registry compiler.limit (.top path) nodes).map (Prod.map unspanned id) =
      (resolve compiler.registry compiler.limit (.top path) others).map (Prod.map unspanned id) := by
    rw [← Resolve.resolve_unspanned, ← Resolve.resolve_unspanned, same]
  unfold resolveTop
  rw [registry, limit]
  cases found : resolve compiler.registry compiler.limit (.top path) nodes with
  | none =>
    rw [found, Option.map_none, eq_comm, Option.map_eq_none_iff] at resolved
    rw [resolved]
    exact couples_throw rfl
  | some result =>
    rw [found, Option.map_some, eq_comm, Option.map_eq_some_iff] at resolved
    obtain ⟨other, given, alike⟩ := resolved
    rw [given]
    exact (couples_reports _ _).bind fun _ _ _ => couples_pure (congrArg Prod.fst alike).symm

theorem couples_spliceSame (registry : twin.registry = compiler.registry) (limit : twin.limit = compiler.limit)
    {drawings others : List Node} {rules more : List (Rule Node)} (ruled : rulesUnspanned rules = rulesUnspanned more)
    (plain : bare drawings = bare others) (same : rules ≠ [] → unspanned drawings = unspanned others) :
    Couples (Meet compiler twin) Eq (fun left given => bare left = bare given)
      (compiler.splice path drawings rules) (twin.splice path others more) := by
  have empty : more.isEmpty = rules.isEmpty := by
    cases rules <;> cases more <;> first | rfl | cases ruled
  unfold splice
  rw [empty]
  split
  next => exact couples_pure plain
  next some =>
    have given := same fun none => some (List.isEmpty_iff.mpr none)
    refine (couples_resolveSame registry limit ?_).mono fun left given resolved => ?_
    · rw [filled_unspanned, filled_unspanned, given, ruled]
    · rw [← bare_unspanned left, resolved, bare_unspanned]

end Splice

/-- Two projects with files of the same content for a page, but for the values of flags and the places of nodes. What
is put into rules has the same flags with the same values. -/
structure Twins (compiler twin : Compiler) (page : String) : Prop where
  standard : compiler.registry = Builtin.registry
  registry : twin.registry = compiler.registry
  limit : twin.limit = compiler.limit
  content : ∀ path, compiler.Reached page path → (compiler.content path).map bare = (twin.content path).map bare
  spliced : ∀ chain path nodes command, compiler.Chain page chain path → compiler.Loads path nodes →
    command ∈ inclusionsOf nodes → command.rules ≠ [] → Path.ext (target path command) ≠ sourceExt →
    (compiler.content (target path command)).map unspanned = (twin.content (target path command)).map unspanned

section Bare

variable {nodes left : List Node} (same : bare nodes = bare left)

include same

theorem adjust_congr {adjustment : Outline.Adjustment} (standard : adjustment.registry = Builtin.registry) :
    bare (Outline.adjust adjustment nodes) = bare (Outline.adjust adjustment left) := by
  rw [← adjust_bare standard, same, adjust_bare standard]

theorem collect_congr : bare ((Outline.collect nodes).map .command) = bare ((Outline.collect left).map .command) := by
  rw [← collect_bare, same, collect_bare]

theorem extract_congr (sheet : FormulaSheet) :
    Bare ((extractFormulas nodes).run sheet) ((extractFormulas left).run sheet) := by
  have given := extractNodes_bare true false nodes sheet
  rw [same, extractNodes_bare true false left sheet] at given
  exact ⟨(congrArg Prod.fst given).symm, (congrArg Prod.snd given).symm⟩

theorem conclude_bare {adjustment : Outline.Adjustment} (standard : adjustment.registry = Builtin.registry)
    (extract : Bool) (sheet inner : FormulaSheet) :
    Bare (conclude adjustment extract sheet (nodes, inner)) (conclude adjustment extract sheet (left, inner)) := by
  have adjusted := adjust_congr same standard
  unfold conclude
  dsimp only
  split
  · exact ⟨collect_congr adjusted, rfl⟩
  · split
    · obtain ⟨alike, filed⟩ := extract_congr adjusted inner
      exact ⟨alike, congrArg sheet.merge filed⟩
    · exact ⟨adjusted, rfl⟩

end Bare

section Command

variable {command other : Command Node} (same : (Node.command command).bare = (Node.command other).bare)

include same

theorem attribute_bare (name : String) (plain : Attributes.flags.contains name = false) :
    command.attribute? name = other.attribute? name := by
  obtain ⟨_, attributes, _, declaration, _⟩ := command
  obtain ⟨_, others, _, heading, _⟩ := other
  simp only [Node.bare, Node.command.injEq, Command.mk.injEq] at same
  obtain ⟨_, flagged, _, rfl, _⟩ := same
  unfold Command.attribute?
  rw [← flagsBare_value? declaration attributes name plain, flagged, flagsBare_value? declaration others name plain]

theorem hasAttribute_bare (name : String) : command.hasAttribute name = other.hasAttribute name := by
  obtain ⟨_, attributes, _, declaration, _⟩ := command
  obtain ⟨_, others, _, heading, _⟩ := other
  simp only [Node.bare, Node.command.injEq, Command.mk.injEq] at same
  obtain ⟨_, flagged, _, rfl, _⟩ := same
  unfold Command.hasAttribute
  rw [← flagsBare_has declaration attributes, flagged, flagsBare_has]

theorem target_bare (path : String) : target path command = target path other := by
  unfold target
  rw [attribute_bare same "src" (by decide)]

theorem adjustment_bare {compiler twin : Compiler} (registry : twin.registry = compiler.registry) (target : String) :
    compiler.adjustment target command = twin.adjustment target other := by
  unfold adjustment
  rw [attribute_bare same "baseline" (by decide), hasAttribute_bare same, hasAttribute_bare same, registry]

theorem rules_bare : rulesUnspanned command.rules = rulesUnspanned other.rules := by
  obtain ⟨_, _, _, _, _⟩ := command
  obtain ⟨_, _, _, _, _⟩ := other
  simp only [Node.bare, Node.command.injEq, Command.mk.injEq] at same
  exact same.2.2.2.2

end Command

namespace Twins

variable {compiler twin : Compiler} {page : String} (twins : Twins compiler twin page)

include twins

theorem loaded {path : String} (reached : compiler.Reached page path) :
    Agree Eq (fun nodes left => bare nodes = bare left ∧ compiler.Loads path nodes) (compiler.content path)
      (twin.content path) :=
  (Agree.of_map (twins.content path reached)).remember.mono (fun _ _ => And.left)
    fun _ _ both => ⟨both.1, loads_of_content both.2⟩

/-- The content of a file that an inclusion leads to. -/
theorem included {chain : List String} {path : String} {nodes : List Node} (chained : compiler.Chain page chain path)
    (loads : compiler.Loads path nodes) {command : Command Node} (member : command ∈ inclusionsOf nodes) :
    Agree Eq (fun nodes left => (bare nodes = bare left ∧ (command.rules ≠ [] →
        Path.ext (target path command) ≠ sourceExt → unspanned nodes = unspanned left)) ∧
        compiler.Loads (target path command) nodes)
      (compiler.content (target path command)) (twin.content (target path command)) := by
  by_cases filled : command.rules ≠ [] ∧ Path.ext (target path command) ≠ sourceExt
  · have same := twins.spliced chain path nodes command chained loads member filled.1 filled.2
    refine (Agree.of_map same).remember.mono (fun _ _ => And.left) fun nodes left both => ?_
    have alike : bare nodes = bare left := by rw [← bare_unspanned nodes, both.1, bare_unspanned]
    exact ⟨⟨alike, fun _ _ => both.1⟩, loads_of_content both.2⟩
  · refine (twins.loaded (.target chained loads member)).mono (fun _ _ => id) fun nodes left both => ?_
    exact ⟨⟨both.1, fun ruled other => absurd ⟨ruled, other⟩ filled⟩, both.2⟩

theorem couples_include (depth : Nat) {chain : List String} {path : String} {nodes : List Node}
    (chained : compiler.Chain page chain path) (loads : compiler.Loads path nodes) {command other : Command Node}
    (member : command ∈ inclusionsOf nodes) (same : (Node.command command).bare = (Node.command other).bare)
    (extract : Bool) (sheet : FormulaSheet) :
    Couples (Meet compiler twin) Eq Bare ((compiler.includeFile depth path chain extract command).run sheet)
      ((twin.includeFile depth path chain extract other).run sheet) := by
  induction depth generalizing chain path nodes command other extract sheet with
  | zero => exact couples_throw rfl
  | succ depth ih =>
    rw [includeFile_run, includeFile_run, ← target_bare same]
    split
    · exact couples_throw rfl
    next unchained =>
      have fresh : target path command ∉ chain := by simpa using unchained
      have shared := twins.included chained loads member
      refine (couples_fetch shared fun _ _ => congrArg (Failure.including _)).bind fun content left given => ?_
      obtain ⟨⟨alike, filled⟩, loaded⟩ := given
      unfold place
      rw [← target_bare same, ← adjustment_bare same twins.registry]
      dsimp only
      split
      next ending =>
        have splices := @couples_spliceSame _ _ path twins.registry twins.limit _ _ _ _ (rules_bare same) alike
          fun ruled => filled ruled ending
        exact splices.bind fun left given same => couples_pure ⟨same, rfl⟩
      next ending =>
        have longer := chained.next ⟨loads, member, rfl, not_not.mp ending, loaded⟩ fresh
        have each : CouplesEach (Meet compiler twin) Eq (compiler.nested depth path chain extract command)
            (twin.nested depth path chain extract other) (inclusionsOf content) := by
          intro inner within further matching sheet
          unfold nested
          rw [← target_bare same, ← adjustment_bare same twins.registry]
          exact ih longer loaded within matching _ sheet
        refine (couples_bareNodes content left alike each sheet.successor).bind fun expanded further both => ?_
        obtain ⟨inner, filed⟩ := expanded
        obtain ⟨nodes, account⟩ := further
        obtain ⟨agreed, rfl⟩ : bare inner = bare nodes ∧ filed = account := both
        exact couples_pure (conclude_bare agreed twins.standard _ sheet filed)

end Twins

/-- Documents that differ in values of flags and in places. -/
def Resembles (document other : Document) : Prop :=
  document.path = other.path ∧ bare document.nodes = bare other.nodes ∧ document.formulas = other.formulas

theorem Twins.couples_compile {compiler twin : Compiler} {page : String} (twins : Twins compiler twin (Path.clean page))
    (extract : Bool) :
    Couples (Meet compiler twin) Eq Resembles (compiler.compileFile page extract) (twin.compileFile page extract) := by
  have opened : Couples (Meet compiler twin) Eq Resembles
      (compiler.load (Path.clean page) >>= fun nodes => compiler.finish (Path.clean page) nodes extract)
      (twin.load (Path.clean page) >>= fun nodes => twin.finish (Path.clean page) nodes extract) := by
    refine (couples_load (twins.loaded .page)).bind fun nodes left given => ?_
    obtain ⟨alike, loads⟩ := given
    have each : CouplesEach (Meet compiler twin) Eq
        (compiler.includeFile compiler.limit (Path.clean page) [Path.clean page] extract)
        (twin.includeFile twin.limit (Path.clean page) [Path.clean page] extract) (inclusionsOf nodes) := by
      intro command member other matching sheet
      rw [twins.limit]
      exact twins.couples_include compiler.limit .page loads member matching extract sheet
    unfold finish
    refine (couples_bareNodes nodes left alike each {}).bind fun expanded further both => ?_
    obtain ⟨inner, filed⟩ := expanded
    obtain ⟨others, account⟩ := further
    obtain ⟨agreed, rfl⟩ : bare inner = bare others ∧ filed = account := both
    cases extract with
    | true => exact couples_pure ⟨rfl, extract_congr agreed filed⟩
    | false => exact couples_pure ⟨rfl, agreed, rfl⟩
  exact opened.rethrow fun _ _ => congrArg (Failure.compiling _)

theorem Resembles.title {document other : Document} (resembles : Resembles document other) :
    Page.title document = Page.title other := by
  have titles (nodes : List Node) : (Outline.collect nodes).map (fun heading => Blank.trim (flattenBody heading.args)) =
      (bare ((Outline.collect nodes).map .command)).map fun node => Blank.trim node.flatten := by
    rw [bare_eq_map, List.map_map, List.map_map]
    refine List.map_congr_left fun heading _ => ?_
    exact congrArg Blank.trim (Node.flatten_bare (.command heading)).symm
  unfold Page.title
  rw [titles, titles, collect_congr resembles.2.1, resembles.1]

theorem Resembles.renderPage {document other : Document} (resembles : Resembles document other) (layout : PageLayout) :
    renderPage document layout = renderPage other layout := by
  obtain ⟨path, nodes, formulas⟩ := resembles
  have lowered : Html.ofNodes document.path document.nodes = Html.ofNodes other.path other.nodes := by
    rw [← ofNodes_bare, nodes, ofNodes_bare, path]
  unfold Manuscript.renderPage
  rw [lowered, formulas, Resembles.title ⟨path, nodes, formulas⟩]

/-- What a flag of a heading or an inclusion says makes no difference to the page, as HTML or as LaTeX, or to why there
is none: a flag that says false is a flag that is there. -/
theorem flag_values_unheard {compiler twin : Compiler} {page : String} (twins : Twins compiler twin (Path.clean page))
    (layout : PageLayout) {session other : Session} (consistent : compiler.Consistent session)
    (further : twin.Consistent other) :
    ((outcome (compiler.compile page) session).1 >>= fun document => renderPage document layout) =
      ((outcome (twin.compile page) other).1 >>= fun document => renderPage document layout) ∧
    (outcome (compiler.compileLatex page) session).1 = (outcome (twin.compileLatex page) other).1 := by
  have agree := (twins.couples_compile true session other ⟨consistent, further⟩).2
  have written : Couples (Meet compiler twin) Eq Eq (compiler.compileLatex page) (twin.compileLatex page) := by
    refine (twins.couples_compile false).bind fun document twin resembles => couples_pure ?_
    rw [latex, latex, ← allPieces_bare document.nodes, resembles.2.1, allPieces_bare]
  refine ⟨agree.bind_eq fun _ _ resembles => resembles.renderPage layout, ?_⟩
  have same := (written session other ⟨consistent, further⟩).2.bind_eq fun _ _ => congrArg Except.ok
  exact (bind_pure _).symm.trans (same.trans (bind_pure _))

namespace Sample

/-- A page with flags of an inclusion and of headings, all of which have this value. -/
def flagged (value : String) : Compiler :=
  files [("main.ss", "\\include[src=a.ss,toc-only=" ++ value ++ "]\\h1[no-toc=" ++ value ++ "]\x7bA\x7d"),
    ("a.ss", "\\h2[toc-only=" ++ value ++ ",source=b.ss]\x7bB\x7d")]

theorem flagged_twins : (flagged "false").Twins (flagged "true") "main.ss" := by
  have paths : ∀ path ∈ ["main.ss", "a.ss"], Path.ext path = sourceExt := by decide
  have closed : isClosed (flagged "false") ["main.ss", "a.ss"] = true := by decide +kernel
  have listed {path : String} (reached : (flagged "false").Reached "main.ss" path) : path ∈ ["main.ss", "a.ss"] :=
    reached_listed reached (by decide) closed
  have drawn : ∀ path ∈ ["main.ss", "a.ss"], (((flagged "false").content path).map bare).toOption.isSome = true ∧
      (((flagged "true").content path).map bare).toOption = (((flagged "false").content path).map bare).toOption := by
    decide +kernel
  constructor
  case standard | registry | limit => rfl
  case content =>
    intro path reached
    obtain ⟨some, same⟩ := drawn path (listed reached)
    obtain ⟨nodes, found⟩ := Option.isSome_iff_exists.mp some
    rw [ok_of_toOption found, ok_of_toOption (same.trans found)]
  case spliced =>
    intro chain path nodes command chained loads member _ other
    exact absurd (paths _ (listed (.target chained loads member))) other

/-- The body of a page. -/
def body (compiler : Compiler) : Except Failure String :=
  (outcome (compiler.compile "main.ss") {}).1 >>= fun document => renderPage document { template := Page.place "body" }

def written (compiler : Compiler) : Except Failure String := (outcome (compiler.compileLatex "main.ss") {}).1

/-- A page of this text. -/
def sheet (text : String) : Compiler := files [("main.ss", text)]

end Sample

/-- The included heading is left out whatever its flag says. -/
theorem flag_values_unheard_flagged :
    Sample.body (Sample.flagged "false") = Sample.body (Sample.flagged "true") ∧
      Sample.written (Sample.flagged "false") = Sample.written (Sample.flagged "true") ∧
      Sample.written (Sample.flagged "false") = .ok "\\section\x7bA\x7d\n" := by
  have clean : Path.clean "main.ss" = "main.ss" := by decide
  have twins := Sample.flagged_twins
  rw [← clean] at twins
  obtain ⟨pages, texts⟩ := flag_values_unheard twins { template := Page.place "body" } (consistent_empty _)
    (consistent_empty _)
  exact ⟨pages, texts, Sample.ok_of_toOption (by decide +kernel)⟩

/-- A heading with a flag that says false is left out, and is drawn without the flag. -/
theorem false_flag_heard :
    Numeral.bool? "false" = some false ∧
      Sample.body (Sample.sheet "\\h1[toc-only=false]\x7bA\x7d") = .ok "" ∧
      Sample.body (Sample.sheet "\\h1\x7bA\x7d") = .ok "<h1 id=\"A\"><a href=\"/main.html#A\">A</a></h1>" ∧
      Sample.written (Sample.sheet "\\h1[toc-only=false]\x7bA\x7d") = .ok "" ∧
      Sample.written (Sample.sheet "\\h1\x7bA\x7d") = .ok "\\section\x7bA\x7d\n" := by
  refine ⟨by decide, ?_, ?_, ?_, ?_⟩ <;> exact Sample.ok_of_toOption (by decide +kernel)

end Compiler
end Manuscript
