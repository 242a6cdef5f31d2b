import Manuscript.Proofs.FormulaEntries

/-! Endings in other letters. A file is loaded as a source whatever the letter case of its ending, but it is included as
one only if it ends in `sourceExt` as it is written. The difference shows in what the file holds: without inclusions,
headings and formulas its content is the same either way. -/

namespace Manuscript

open Compile

namespace Compiler

mutual

theorem expandNode_idle (inclusion : Command Node → Expand (List Node)) (node : Node) (none : inclusions node = []) :
    expandNode inclusion node = pure node := by
  match node with
  | .command ⟨ident, attributes, args, declaration, rules⟩ =>
    rw [inclusions] at none
    rw [expandNode]
    split
    next included =>
      rw [if_pos included] at none
      cases none
    next other =>
      rw [if_neg other] at none
      rw [expandNodes_idle inclusion args none, pure_bind]
  | .bracket ⟨_, _, _, children⟩ => rw [expandNode, expandNodes_idle inclusion children none, pure_bind]
  | .quotation _ _ children => rw [expandNode, expandNodes_idle inclusion children none, pure_bind]
  | .fragment children => rw [expandNode, expandNodes_idle inclusion children none, pure_bind]
  | .hole | .text _ _ | .symbol _ _ | .ident _ | .stray _ | .drawing _ | .tag _ => rfl
termination_by structural node

theorem expandNodes_idle (inclusion : Command Node → Expand (List Node)) (nodes : List Node)
    (none : inclusionsOf nodes = []) : expandNodes inclusion nodes = pure nodes := by
  match nodes with
  | [] => rfl
  | node :: rest =>
    rw [inclusionsOf, List.append_eq_nil_iff] at none
    rw [expandNodes, expandNode_idle inclusion node none.1, pure_bind, expandNodes_idle inclusion rest none.2, pure_bind]
termination_by structural nodes

end

end Compiler

namespace Outline

mutual

theorem adjustNode_idle (adjustment : Adjustment) (node : Node) (none : collectNode node = []) :
    adjustNode adjustment node = node := by
  match node with
  | .command ⟨ident, attributes, args, declaration, rules⟩ =>
    rw [collectNode] at none
    split at none
    next => cases none
    next plain => rw [adjustNode_plain adjustment ident attributes args rules plain, adjust_idle adjustment args none]
  | .bracket ⟨_, _, _, children⟩ => rw [adjustNode, adjust_idle adjustment children none]
  | .quotation _ _ children => rw [adjustNode, adjust_idle adjustment children none]
  | .fragment children => rw [adjustNode, adjust_idle adjustment children none]
  | .hole | .text _ _ | .symbol _ _ | .ident _ | .stray _ | .drawing _ | .tag _ => rfl
termination_by structural node

theorem adjust_idle (adjustment : Adjustment) (nodes : List Node) (none : collect nodes = []) :
    adjust adjustment nodes = nodes := by
  match nodes with
  | [] => rfl
  | node :: rest =>
    rw [collect, List.append_eq_nil_iff] at none
    rw [adjust, adjustNode_idle adjustment node none.1, adjust_idle adjustment rest none.2]
termination_by structural nodes

end

end Outline

namespace Formula

mutual

theorem extractNode_idle (keep inHeading : Bool) (node : Node) (sheet : FormulaSheet) (none : node.hasFormula = false) :
    (extractNode keep inHeading node).run sheet = (node, sheet) := by
  match node with
  | .command ⟨ident, attributes, args, declaration, rules⟩ =>
    simp only [Node.hasFormula, Bool.or_eq_false_iff, Option.isSome_eq_false_iff, Option.isNone_iff_eq_none] at none
    rw [extractNode_plain keep inHeading ident attributes args rules none.1, extractNodes_idle _ _ args sheet none.2]
  | .bracket ⟨_, _, _, children⟩ =>
    rw [extractNode, StateT.run_bind, extractNodes_idle keep inHeading children sheet none]
    rfl
  | .quotation _ _ children =>
    rw [extractNode, StateT.run_bind, extractNodes_idle keep inHeading children sheet none]
    rfl
  | .fragment children =>
    rw [extractNode, StateT.run_bind, extractNodes_idle keep inHeading children sheet none]
    rfl
  | .tag ⟨ident, options, attributes, args, rules⟩ =>
    rw [extractNode, StateT.run_bind, extractBlocks_idle keep inHeading args sheet none]
    rfl
  | .hole | .text _ _ | .symbol _ _ | .ident _ | .stray _ | .drawing _ => rfl
termination_by structural node

theorem extractNodes_idle (keep inHeading : Bool) (nodes : List Node) (sheet : FormulaSheet)
    (none : hasFormula nodes = false) : (extractNodes keep inHeading nodes).run sheet = (nodes, sheet) := by
  match nodes with
  | [] => rfl
  | node :: rest =>
    simp only [hasFormula, Bool.or_eq_false_iff] at none
    rw [extractNodes, StateT.run_bind, extractNode_idle keep inHeading node sheet none.1]
    show (extractNodes keep inHeading rest >>= _).run sheet = _
    rw [StateT.run_bind, extractNodes_idle keep inHeading rest sheet none.2]
    rfl
termination_by structural nodes

theorem extractBlocks_idle (keep inHeading : Bool) (blocks : List (Block Node)) (sheet : FormulaSheet)
    (none : blocksHaveFormula blocks = false) : (extractBlocks keep inHeading blocks).run sheet = (blocks, sheet) := by
  match blocks with
  | [] => rfl
  | ⟨kind, opening, closing, children⟩ :: rest =>
    simp only [blocksHaveFormula, Bool.or_eq_false_iff] at none
    rw [extractBlocks, StateT.run_bind, extractNodes_idle keep inHeading children sheet none.1]
    show (extractBlocks keep inHeading rest >>= _).run sheet = _
    rw [StateT.run_bind, extractBlocks_idle keep inHeading rest sheet none.2]
    rfl
termination_by structural blocks

end

end Formula

namespace Compile

variable {α β : Type} {invariant : Session → Prop} {holds : α → Prop}

/-- The same outcome in every session of which `invariant` is true. -/
def Same (invariant : Session → Prop) (compilation other : Compile α) : Prop :=
  ∀ session, invariant session → outcome compilation session = outcome other session

theorem Same.refl (compilation : Compile α) : Same invariant compilation compilation := fun _ _ => rfl

theorem Same.bind {compilation other : Compile α} {next more : α → Compile β} (first : Same invariant compilation other)
    (keeps : Keeps invariant holds compilation)
    (second : ∀ value, holds value → Same invariant (next value) (more value)) :
    Same invariant (compilation >>= next) (other >>= more) := by
  intro session kept
  obtain ⟨left, given⟩ := keeps session kept
  have same := first session kept
  cases run : outcome compilation session with
  | mk result middle =>
    rw [run] at left given same
    cases result with
    | error failure => rw [outcome_bind_error run, outcome_bind_error same.symm]
    | ok value =>
      rw [outcome_bind_ok run, outcome_bind_ok same.symm]
      exact second value (given value rfl) middle left

theorem Same.rethrow {compilation other : Compile α} (same : Same invariant compilation other)
    (wrap : Failure → Failure) : Same invariant (tryCatch compilation fun failure => throw (wrap failure))
      (tryCatch other fun failure => throw (wrap failure)) := by
  intro session kept
  rw [outcome_rethrow, outcome_rethrow, same session kept]

end Compile

namespace Compiler

/-- What is made of a loaded file in the place of its inclusion. The inclusions inside of it are expanded, and its
headings adjusted, if `isSource` says that it is a source. -/
def placeBy (compiler : Compiler) (isSource : String → Bool) (inclusion : Command Node → Expand (List Node))
    (path : String) (extract : Bool) (command : Command Node) (sheet : FormulaSheet) (nodes : List Node) :
    Compile (List Node × FormulaSheet) :=
  if isSource (target path command) then do
    let expanded ← (expandNodes inclusion nodes).run sheet.successor
    pure (conclude (compiler.adjustment (target path command) command) extract sheet expanded)
  else do pure (← compiler.splice path nodes command.rules, sheet)

/-- Inclusion with another test for sources. -/
def includeBy (compiler : Compiler) (isSource : String → Bool) : (depth : Nat) → (path : String) → (chain : List String) →
    (extract : Bool) → Command Node → Expand (List Node)
  | 0, _, _, _, _ => throw .tooDeep
  | depth + 1, path, chain, extract, command => fun sheet =>
    let target := target path command
    let extract := extract && !command.hasAttribute "toc-only"
    let inclusion := compiler.includeBy isSource depth target (chain ++ [target]) extract
    if chain.contains target then throw (.including target .includeCycle)
    else compiler.fetch path target >>= compiler.placeBy isSource inclusion path extract command sheet

/-- Compilation of a file with inclusion of this kind. -/
def compileBy (compiler : Compiler) (isSource : String → Bool) (path : String) (extract : Bool) : Compile Document :=
  let path := Path.clean path
  tryCatch (do
    let nodes ← compiler.load path
    let inclusion := compiler.includeBy isSource compiler.limit path [path] extract
    let (nodes, sheet) ← (expandNodes inclusion nodes).run {}
    pure ⟨path, (finished extract nodes sheet).1, (finished extract nodes sheet).2⟩)
    fun failure => throw (.compiling path failure)

/-- As files are included: by their ending as it is written. -/
def endsExactly (path : String) : Bool := Path.ext path == sourceExt

/-- As files are loaded: by their ending in lower case. -/
def endsAlike (path : String) : Bool := LowerCase.lowerText (Path.ext path) == sourceExt

theorem includeBy_run (compiler : Compiler) (isSource : String → Bool) (depth : Nat) (path : String)
    (chain : List String) (extract : Bool) (command : Command Node) (sheet : FormulaSheet) :
    (compiler.includeBy isSource (depth + 1) path chain extract command).run sheet =
      if chain.contains (target path command) then throw (.including (target path command) .includeCycle)
      else compiler.fetch path (target path command) >>= compiler.placeBy isSource
        (compiler.includeBy isSource depth (target path command) (chain ++ [target path command])
          (extract && !command.hasAttribute "toc-only"))
        path (extract && !command.hasAttribute "toc-only") command sheet := rfl

theorem includeFile_eq_includeBy (compiler : Compiler) (depth : Nat) :
    compiler.includeFile depth = compiler.includeBy endsExactly depth := by
  induction depth with
  | zero => rfl
  | succ depth ih =>
    funext path chain extract command sheet
    show (compiler.includeFile (depth + 1) path chain extract command).run sheet =
      (compiler.includeBy endsExactly (depth + 1) path chain extract command).run sheet
    rw [includeFile_run, includeBy_run]
    split
    · rfl
    · apply bind_congr
      intro nodes
      unfold place placeBy nested
      rw [ih]
      by_cases ending : Path.ext (target path command) = sourceExt
      · simp only [endsExactly, ending, beq_self_eq_true, ne_eq, not_true_eq_false, if_false, if_true]
        rfl
      · simp only [endsExactly, ending, beq_eq_false_iff_ne.mpr ending, ne_eq, not_false_eq_true, if_true,
          Bool.false_eq_true, if_false]

theorem compileFile_eq_compileBy (compiler : Compiler) (path : String) (extract : Bool) :
    compiler.compileFile path extract = compiler.compileBy endsExactly path extract := by
  unfold compileFile compileBy finish
  rw [includeFile_eq_includeBy]
  refine congrArg (fun body => tryCatch body _) ?_
  apply bind_congr
  intro nodes
  apply bind_congr
  intro expanded
  unfold finished
  cases extract <;> rfl

/-- An inclusion that puts in the content of a file as it is, whether the file is taken for a source or not. -/
structure Inert (extract : Bool) (command : Command Node) (content : List Node) : Prop where
  unruled : command.rules = []
  drawn : command.hasAttribute "toc-only" = false
  flat : inclusionsOf content = []
  headless : Outline.collect content = []
  wordy : extract = true → hasFormula content = false

/-- Sources whose ending is in other letters are included for nothing but text. -/
def CaseFree (compiler : Compiler) (page : String) (extract : Bool) : Prop :=
  ∀ chain path nodes command content, compiler.Chain page chain path → compiler.Loads path nodes →
    command ∈ inclusionsOf nodes → endsAlike (target path command) = true → endsExactly (target path command) = false →
    compiler.Loads (target path command) content → Inert extract command content

theorem endsAlike_of_endsExactly {path : String} (exactly : endsExactly path = true) : endsAlike path = true := by
  rw [endsExactly, beq_iff_eq] at exactly
  rw [endsAlike, exactly, lowerText_sourceExt, beq_self_eq_true]

theorem merge_successor (sheet : FormulaSheet) : sheet.merge sheet.successor = sheet := by
  simp [FormulaSheet.merge, FormulaSheet.successor]

theorem Inert.conclude {extract taken : Bool} {command : Command Node} {content : List Node}
    (inert : Inert extract command content) (less : taken = true → extract = true) (compiler : Compiler) (target : String)
    (sheet : FormulaSheet) :
    conclude (compiler.adjustment target command) taken sheet (content, sheet.successor) = (content, sheet) := by
  have drawn : (compiler.adjustment target command).tocOnly = false := inert.drawn
  unfold Compiler.conclude
  simp only [Outline.adjust_idle _ content inert.headless, drawn, Bool.false_eq_true, if_false]
  split
  next given =>
    have same : (extractFormulas content).run sheet.successor = (content, sheet.successor) :=
      Formula.extractNodes_idle true false content sheet.successor (inert.wordy (less given))
    simp only [same, merge_successor]
  next => rfl

/-- Two programs are compared as members of a family: what holds of the first two is kept when programs are put
together. -/
theorem modular_same (compiler : Compiler) : Modular fun program _ => ∀ sheet,
    Keeps compiler.Faithful (fun _ => True) ((program 0).run sheet) ∧
      Same compiler.Faithful ((program 0).run sheet) ((program 1).run sheet) := by
  constructor
  · intro α value sheet
    exact ⟨keeps_pure trivial, .refl _⟩
  · intro α β first next told more holds rest sheet
    simp only [StateT.run_bind]
    obtain ⟨keeps, same⟩ := holds sheet
    exact ⟨keeps.bind fun value _ => (rest value.1 value.2).1,
      same.bind keeps fun value _ => (rest value.1 value.2).2⟩
  · intro α program told less holds _
    exact holds

theorem same_expandNodes {compiler : Compiler} {one other : Command Node → Expand (List Node)} {nodes : List Node}
    (keeps : ∀ command sheet, Keeps compiler.Faithful (fun _ => True) ((one command).run sheet))
    (same : ∀ command ∈ inclusionsOf nodes, ∀ sheet,
      Same compiler.Faithful ((one command).run sheet) ((other command).run sheet)) (sheet : FormulaSheet) :
    Keeps compiler.Faithful (fun _ => True) ((expandNodes one nodes).run sheet) ∧
      Same compiler.Faithful ((expandNodes one nodes).run sheet) ((expandNodes other nodes).run sheet) :=
  @Modular.expandNodes _ (modular_same compiler) (fun limit => if limit = 0 then one else other) (fun _ => True) nodes
    (fun command member sheet => ⟨keeps command sheet, same command member sheet⟩) sheet

theorem keeps_includeBy (compiler : Compiler) (limit depth : Nat) (path : String) (chain : List String) (extract : Bool)
    (command : Command Node) (sheet : FormulaSheet) : Keeps compiler.Faithful (fun _ => True)
      (((compiler.within limit).includeBy endsExactly depth path chain extract command).run sheet) := by
  rw [← includeFile_eq_includeBy]
  exact (keeps_includeFile compiler limit depth path chain extract command sheet).mono fun _ _ => trivial

theorem same_includeBy {compiler : Compiler} {page : String} {extract : Bool} (free : compiler.CaseFree page extract)
    (limit depth : Nat) {chain : List String} {path : String} {nodes : List Node}
    (chained : compiler.Chain page chain path) (loads : compiler.Loads path nodes) {command : Command Node}
    (member : command ∈ inclusionsOf nodes) {taken : Bool} (less : taken = true → extract = true) (sheet : FormulaSheet) :
    Same compiler.Faithful (((compiler.within limit).includeBy endsExactly depth path chain taken command).run sheet)
      (((compiler.within limit).includeBy endsAlike depth path chain taken command).run sheet) := by
  induction depth generalizing chain path nodes command taken sheet with
  | zero =>
    rw [includeBy, includeBy]
    exact .refl _
  | succ depth ih =>
    rw [includeBy_run, includeBy_run]
    split
    · exact .refl _
    next other =>
      have fresh : target path command ∉ chain := by simpa using other
      refine (Same.refl _).bind (keeps_fetch compiler limit path _) fun content loaded => ?_
      have fewer (given : (taken && !command.hasAttribute "toc-only") = true) : extract = true :=
        less (Bool.and_eq_true_iff.mp given).1
      unfold placeBy
      by_cases exactly : endsExactly (target path command) = true
      · have ending : Path.ext (target path command) = sourceExt := beq_iff_eq.mp exactly
        have longer := chained.next ⟨loads, member, rfl, ending, loaded⟩ fresh
        have each (inner : Command Node) (inside : inner ∈ inclusionsOf content) (sheet : FormulaSheet) :=
          ih longer loaded inside fewer sheet
        obtain ⟨keeps, same⟩ := same_expandNodes (keeps_includeBy compiler limit depth _ _ _) each sheet.successor
        rw [if_pos exactly, if_pos (endsAlike_of_endsExactly exactly)]
        exact same.bind keeps fun _ _ => .refl _
      · rw [if_neg exactly]
        split
        next alike =>
          -- one side puts the content in as it is, and on the other there is nothing to expand, move or take out
          have inert := free _ _ _ _ _ chained loads member alike (Bool.eq_false_iff.mpr exactly) loaded
          rw [expandNodes_idle _ content inert.flat, splice, if_pos (List.isEmpty_iff.mpr inert.unruled)]
          show Same _ (pure (content, sheet)) (pure (conclude _ _ sheet (content, sheet.successor)))
          rw [inert.conclude fewer]
          exact .refl _
        next => exact .refl _

/-- A compilation takes for sources what ends in `sourceExt` as it is written. Where those whose ending is in other
letters are included for text alone, one that takes them for sources too has the same outcome. -/
theorem letter_case_free (compiler : Compiler) (path : String) (extract : Bool) :
    compiler.compileFile path extract = compiler.compileBy endsExactly path extract ∧
    (compiler.CaseFree (Path.clean path) extract → ∀ limit session, compiler.Faithful session →
      outcome ((compiler.within limit).compileFile path extract) session =
        outcome ((compiler.within limit).compileBy endsAlike path extract) session) := by
  refine ⟨compileFile_eq_compileBy compiler path extract, fun free limit session faithful => ?_⟩
  have same : Same compiler.Faithful ((compiler.within limit).compileBy endsExactly path extract)
      ((compiler.within limit).compileBy endsAlike path extract) := by
    apply Same.rethrow
    refine (Same.refl _).bind (keeps_load compiler limit _) fun nodes loads => ?_
    have each (command : Command Node) (member : command ∈ inclusionsOf nodes) (sheet : FormulaSheet) :=
      same_includeBy free limit limit .page loads member (fun given => given) sheet
    obtain ⟨keeps, same⟩ := same_expandNodes (keeps_includeBy compiler limit limit _ _ _) each {}
    exact same.bind keeps fun _ _ => .refl _
  rw [compileFile_eq_compileBy]
  exact same session faithful

namespace Sample

/-- Text from a source whose ending is in capitals, and a source with a heading. -/
def quoting : Compiler :=
  files [("main.ss", "\\include[src=a.SS]\\include[src=b.ss,baseline=h2]"), ("a.SS", "\\b\x7bA\x7d"),
    ("b.ss", "\\h1\x7bB\x7d")]

/-- The inclusions of a source, each with whether it has no rules and is drawn, and whether the source is without
headings and formulas. -/
def words (nodes : List Node) : List (String × Bool) × Bool :=
  ((inclusionsOf nodes).map fun command => (address command, command.rules.isEmpty && !command.hasAttribute "toc-only"),
    (Outline.collect nodes).isEmpty && !hasFormula nodes)

theorem quoting_page {nodes : List Node} (loads : quoting.Loads "main.ss" nodes) :
    words nodes = ([("a.SS", true), ("b.ss", true)], true) :=
  loads_seen loads (by decide +kernel) (by decide +kernel)

theorem quoting_text {nodes : List Node} (loads : quoting.Loads "a.SS" nodes) : words nodes = ([], true) :=
  loads_seen loads (by decide +kernel) (by decide +kernel)

theorem quoting_inner {nodes : List Node} (loads : quoting.Loads "b.ss" nodes) : words nodes = ([], false) :=
  loads_seen loads (by decide +kernel) (by decide +kernel)

theorem quoting_inclusion {path : String} {nodes : List Node} {command : Command Node}
    (listed : path = "main.ss" ∨ path = "b.ss") (loads : quoting.Loads path nodes)
    (member : command ∈ inclusionsOf nodes) :
    (target path command = "a.SS" ∨ target path command = "b.ss") ∧ command.rules = [] ∧
      command.hasAttribute "toc-only" = false := by
  have seen : (address command, command.rules.isEmpty && !command.hasAttribute "toc-only") ∈ (words nodes).1 :=
    List.mem_map_of_mem member
  rcases listed with rfl | rfl
  · simp only [quoting_page loads, List.mem_cons, List.not_mem_nil, or_false, Prod.mk.injEq, Bool.and_eq_true,
      Bool.not_eq_true', List.isEmpty_iff] at seen
    rcases seen with ⟨same, bare⟩ | ⟨same, bare⟩
    · exact ⟨.inl (by rw [target_eq, same]; decide), bare⟩
    · exact ⟨.inr (by rw [target_eq, same]; decide), bare⟩
  · rw [quoting_inner loads] at seen
    cases seen

theorem quoting_chain {chain : List String} {path : String} (chained : quoting.Chain "main.ss" chain path) :
    path = "main.ss" ∨ path = "b.ss" := by
  refine chained.holds (fun path => path = "main.ss" ∨ path = "b.ss") (.inl rfl) fun listed loads member ending => ?_
  rcases (quoting_inclusion listed loads member).1 with same | same
  · rw [same] at ending
    exact absurd ending (by decide)
  · exact .inr same

theorem quoting_caseFree : quoting.CaseFree "main.ss" true := by
  intro chain path nodes command content chained loads member alike other loaded
  obtain ⟨leads, unruled, drawn⟩ := quoting_inclusion (quoting_chain chained) loads member
  rcases leads with same | same
  · rw [same] at loaded
    obtain ⟨flat, text⟩ := Prod.mk.inj (quoting_text loaded)
    simp only [Bool.and_eq_true, Bool.not_eq_true', List.isEmpty_iff] at text
    exact ⟨unruled, drawn, List.map_eq_nil_iff.mp flat, text.1, fun _ => text.2⟩
  · rw [same] at other
    exact absurd other (by decide)

/-- A source whose ending is in capitals, with an inclusion. -/
def loud : Compiler :=
  files [("main.ss", "\\include[src=a.SS]"), ("a.SS", "\\include[src=b.ss]"), ("b.ss", "B")]

/-- Such a source with a heading, that is to be moved and shown in the table of contents alone. -/
def titled : Compiler := files [("main.ss", "\\include[src=a.SS,baseline=h2,toc-only]"), ("a.SS", "\\h1\x7bA\x7d")]

/-- Such a source that includes itself. -/
def ringing : Compiler := files [("main.ss", "\\include[src=a.SS]"), ("a.SS", "\\include[src=a.SS]")]

def failureText : Except Failure Document → Option String
  | .ok _ => none
  | .error failure => some failure.message

theorem error_of_message {result : Except Failure Document × Session} {text : String}
    (found : failureText result.1 = some text) :
    ∃ failure after, result = (.error failure, after) ∧ failure.message = text := by
  obtain ⟨given, after⟩ := result
  cases given with
  | ok document => cases found
  | error failure => exact ⟨failure, after, rfl, Option.some.inj found⟩

end Sample

theorem letter_case_free_quoting : Sample.quoting.CaseFree (Path.clean "main.ss") true ∧
    Sample.quoting.tree.read "a.SS" = .ok (Utf8.encode "\\b\x7bA\x7d") ∧
    outcome ((Sample.quoting.within 5).compileFile "main.ss" true) {} =
      outcome ((Sample.quoting.within 5).compileBy endsAlike "main.ss" true) {} := by
  have page : Path.clean "main.ss" = "main.ss" := by decide +kernel
  have free : Sample.quoting.CaseFree (Path.clean "main.ss") true := page.symm ▸ Sample.quoting_caseFree
  exact ⟨free, Sample.ok_of_toOption (by decide +kernel),
    (letter_case_free Sample.quoting _ _).2 free 5 {} (faithful_empty _)⟩

/-- Where a source whose ending is in capitals holds more than text, it is not treated as one: its inclusions stay, its
headings are not moved and are drawn, and a cycle through it is not reported. -/
theorem letter_case_matters :
    (∃ document after other later, outcome (Sample.loud.compile "main.ss") {} = (.ok document, after) ∧
      outcome (Sample.loud.compileBy endsAlike "main.ss" true) {} = (.ok other, later) ∧
      unexpanded false document.nodes = true ∧ unexpanded false other.nodes = false) ∧
    (∃ document after other later, outcome (Sample.titled.compile "main.ss") {} = (.ok document, after) ∧
      outcome (Sample.titled.compileBy endsAlike "main.ss" true) {} = (.ok other, later) ∧
      Sample.headingView document = [("\\h1", none, false, false)] ∧
      Sample.headingView other = [("\\h2", some "a.SS", true, false)]) ∧
    ∃ document after failure later, outcome (Sample.ringing.compile "main.ss") {} = (.ok document, after) ∧
      outcome (Sample.ringing.compileBy endsAlike "main.ss" true) {} = (.error failure, later) ∧
      failure.message = "unable to compile main.ss: unable to include a.SS: file includes itself" := by
  refine ⟨?_, ?_, ?_⟩
  · obtain ⟨document, after, run, left⟩ := @Sample.ok_of_view _ (fun document => unexpanded false document.nodes)
      (outcome (Sample.loud.compile "main.ss") {}) true (by decide +kernel)
    obtain ⟨other, later, rerun, none⟩ := @Sample.ok_of_view _ (fun document => unexpanded false document.nodes)
      (outcome (Sample.loud.compileBy endsAlike "main.ss" true) {}) false (by decide +kernel)
    exact ⟨document, after, other, later, run, rerun, left, none⟩
  · obtain ⟨document, after, run, drawn⟩ := @Sample.ok_of_view _ Sample.headingView
      (outcome (Sample.titled.compile "main.ss") {}) [("\\h1", none, false, false)] (by decide +kernel)
    obtain ⟨other, later, rerun, moved⟩ := @Sample.ok_of_view _ Sample.headingView
      (outcome (Sample.titled.compileBy endsAlike "main.ss" true) {}) [("\\h2", some "a.SS", true, false)]
      (by decide +kernel)
    exact ⟨document, after, other, later, run, rerun, drawn, moved⟩
  · obtain ⟨document, after, run, _⟩ := @Sample.ok_of_view _ (fun _ => true)
      (outcome (Sample.ringing.compile "main.ss") {}) true (by decide +kernel)
    obtain ⟨failure, later, rerun, told⟩ := Sample.error_of_message
      (show Sample.failureText (outcome (Sample.ringing.compileBy endsAlike "main.ss" true) {}).1 = some
        "unable to compile main.ss: unable to include a.SS: file includes itself" by decide +kernel)
    exact ⟨document, after, failure, later, run, rerun, told⟩

end Compiler
end Manuscript
