import Manuscript.Proofs.Coupling
import Manuscript.Proofs.FormulaAccounts

/-! A file as a page and as LaTeX. Compilations of the same file differ in whether its formulas are taken out; they fail
together and for the same reason, and what they give differs in the formulas alone. -/

namespace Manuscript

open Builtin

/-- No heading is a formula. -/
def Registry.Unmixed (registry : Registry) : Prop :=
  ∀ declaration ∈ registry.declarations, 0 < declaration.heading → declaration.math = none

/-- A command that is not both a heading and a formula, unless the registry has such. -/
def Unmixed (registry : Registry) (_ : Ident) (_ : Option Attributes) (declaration : Option Declaration) : Prop :=
  registry.Unmixed → Formula.isHeading declaration = true → declaration.bind Declaration.math = none

theorem makes_unmixed (registry : Registry) : registry.Makes (Unmixed registry) := by
  intro ident attributes declaration listed _ unmixed heads
  exact unmixed declaration (List.mem_filter.mp listed).1 (by simpa [Formula.isHeading] using heads)

namespace Outline

/-- What is good of commands stays so when headings are adjusted. -/
structure Harmless (good : Ident → Option Attributes → Option Declaration → Prop) (adjustment : Adjustment) : Prop where
  stays : ∀ ident attributes others declaration, good ident attributes declaration → good ident others declaration
  shifts : ∀ (ident : Ident) attributes declaration heading, shifted adjustment declaration = some heading →
    good { ident with name := heading.name } attributes (some heading)

mutual

theorem adjustNode_declared {good : Ident → Option Attributes → Option Declaration → Prop} {adjustment : Adjustment}
    (harmless : Harmless good adjustment) (node : Node) (declared : node.Declared good) :
    (adjustNode adjustment node).Declared good := by
  match node with
  | .command ⟨ident, attributes, args, declaration, rules⟩ =>
    obtain ⟨own, inside, ruled⟩ := declared
    have below := adjust_declared harmless args inside
    unfold adjustNode
    split
    next heading =>
      split
      · unfold adjustHeading
        dsimp only
        split
        next found => exact ⟨harmless.shifts _ _ _ _ found, inside, ruled⟩
        next => exact ⟨harmless.stays _ _ _ _ own, inside, ruled⟩
      · exact ⟨own, below, ruled⟩
    next => exact ⟨own, below, ruled⟩
  | .bracket ⟨_, _, _, children⟩ => exact adjust_declared harmless children declared
  | .quotation _ _ children => exact adjust_declared harmless children declared
  | .fragment children => exact adjust_declared harmless children declared
  | .hole | .text _ _ | .symbol _ _ | .ident _ | .stray _ | .drawing _ | .tag _ => exact declared
termination_by structural node

theorem adjust_declared {good : Ident → Option Attributes → Option Declaration → Prop} {adjustment : Adjustment}
    (harmless : Harmless good adjustment) (nodes : List Node) (declared : Declared good nodes) :
    Declared good (adjust adjustment nodes) := by
  match nodes with
  | [] => trivial
  | node :: rest => exact ⟨adjustNode_declared harmless node declared.1, adjust_declared harmless rest declared.2⟩
termination_by structural nodes

end

theorem harmless_unmixed (adjustment : Adjustment) : Harmless (Unmixed adjustment.registry) adjustment where
  stays _ _ _ _ own := own
  shifts ident attributes declaration heading found := by
    unfold shifted at found
    split at found
    · cases found
    · intro unmixed heads
      exact unmixed heading (List.mem_of_find?_eq_some found) (by simpa [Formula.isHeading] using heads)

end Outline

namespace Formula

/-- The second list is the first with outermost formulas taken out, each of which has left a slot or an empty fragment.
`all` says that none has been left where it was. -/
inductive Lifted (all : Bool) : List Node → List Node → Prop where
  | nil : Lifted all [] []
  | leaf {node : Node} {nodes left : List Node} (plain : isLeaf node = true) (later : Lifted all nodes left) :
      Lifted all (node :: nodes) (node :: left)
  | command {ident : Ident} {attributes : Option Attributes} {args inner : List Node} {declaration : Option Declaration}
      {rules : List (Rule Node)} {nodes left : List Node}
      (other : all = true → declaration.bind Declaration.math = none) (inside : Lifted all args inner)
      (later : Lifted all nodes left) :
      Lifted all (.command ⟨ident, attributes, args, declaration, rules⟩ :: nodes)
        (.command ⟨ident, attributes, inner, declaration, rules⟩ :: left)
  | bracket {kind : BracketKind} {opening closing : Option Token} {children inner nodes left : List Node}
      (inside : Lifted all children inner) (later : Lifted all nodes left) :
      Lifted all (.bracket ⟨kind, opening, closing, children⟩ :: nodes)
        (.bracket ⟨kind, opening, closing, inner⟩ :: left)
  | quotation {opening closing : Option Token} {children inner nodes left : List Node}
      (inside : Lifted all children inner) (later : Lifted all nodes left) :
      Lifted all (.quotation opening closing children :: nodes) (.quotation opening closing inner :: left)
  | fragment {children inner nodes left : List Node} (inside : Lifted all children inner)
      (later : Lifted all nodes left) : Lifted all (.fragment children :: nodes) (.fragment inner :: left)
  | tag {ident : Ident} {options : Option (Block Node)} {attributes : Option Attributes}
      {args inner : List (Block Node)} {rules : List (Rule Node)} {nodes left : List Node}
      (inside : Lifted all (args.map .bracket) (inner.map .bracket)) (later : Lifted all nodes left) :
      Lifted all (.tag ⟨ident, options, attributes, args, rules⟩ :: nodes)
        (.tag ⟨ident, options, attributes, inner, rules⟩ :: left)
  | formula {ident : Ident} {attributes : Option Attributes} {args : List Node} {declaration : Option Declaration}
      {rules : List (Rule Node)} {spec : MathSpec} {id : String} {put : Node} {nodes left : List Node}
      (math : declaration.bind Declaration.math = some spec) (plain : isHeading declaration = false)
      (stands : Slot ident.span id spec.block put) (later : Lifted all nodes left) :
      Lifted all (.command ⟨ident, attributes, args, declaration, rules⟩ :: nodes) (put :: left)
  | dropped {ident : Ident} {attributes : Option Attributes} {args : List Node} {declaration : Option Declaration}
      {rules : List (Rule Node)} {nodes left : List Node} (math : (declaration.bind Declaration.math).isSome = true)
      (plain : isHeading declaration = false) (later : Lifted all nodes left) :
      Lifted all (.command ⟨ident, attributes, args, declaration, rules⟩ :: nodes) (.fragment [] :: left)

mutual

theorem lifted_node (node : Node) {nodes left : List Node} (later : Lifted false nodes left) :
    Lifted false (node :: nodes) (node :: left) := by
  match node with
  | .command ⟨ident, attributes, args, declaration, rules⟩ =>
    exact .command (fun all => by cases all) (lifted_self args) later
  | .bracket ⟨_, _, _, children⟩ => exact .bracket (lifted_self children) later
  | .quotation _ _ children => exact .quotation (lifted_self children) later
  | .fragment children => exact .fragment (lifted_self children) later
  | .tag ⟨_, _, _, args, _⟩ => exact .tag (lifted_blocks args) later
  | .hole | .text _ _ | .symbol _ _ | .ident _ | .stray _ | .drawing _ => exact .leaf rfl later
termination_by structural node

/-- Formulas may be left where they are. -/
theorem lifted_self (nodes : List Node) : Lifted false nodes nodes := by
  match nodes with
  | [] => exact .nil
  | node :: rest => exact lifted_node node (lifted_self rest)
termination_by structural nodes

theorem lifted_blocks (blocks : List (Block Node)) : Lifted false (blocks.map .bracket) (blocks.map .bracket) := by
  match blocks with
  | [] => exact .nil
  | ⟨_, _, _, children⟩ :: rest => exact .bracket (lifted_self children) (lifted_blocks rest)
termination_by structural blocks

end

namespace Lifted

open Outline

variable {all : Bool} {nodes left : List Node}

theorem loosen (lifted : Lifted all nodes left) : Lifted false nodes left := by
  induction lifted with
  | nil => exact .nil
  | leaf plain _ later => exact .leaf plain later
  | command _ _ _ inside later => exact .command (fun impossible => by cases impossible) inside later
  | bracket _ _ inside later => exact .bracket inside later
  | quotation _ _ inside later => exact .quotation inside later
  | fragment _ _ inside later => exact .fragment inside later
  | tag _ _ inside later => exact .tag inside later
  | formula math plain stands _ later => exact .formula math plain stands later
  | dropped math plain _ later => exact .dropped math plain later

/-- Fitting headings into an outline changes both sides in the same way. -/
theorem adjust (lifted : Lifted false nodes left) (adjustment : Outline.Adjustment) :
    Lifted false (Outline.adjust adjustment nodes) (Outline.adjust adjustment left) := by
  induction lifted with
  | nil => exact .nil
  | @leaf node _ _ plain _ later =>
    have same : Outline.adjustNode adjustment node = node := by cases node <;> first | rfl | cases plain
    rw [Outline.adjust, Outline.adjust, same]
    exact .leaf plain later
  | @command ident attributes args inner declaration rules _ _ _ within _ inside later =>
    rw [Outline.adjust, Outline.adjust]
    by_cases heads : isHeading declaration = true
    · cases declaration with
      | none => cases heads
      | some heading =>
        have level : 0 < heading.heading := by simpa [isHeading] using heads
        rw [Outline.adjustNode, Outline.adjustNode, if_pos level, if_pos level]
        unfold Outline.adjustHeading
        dsimp only
        split <;> exact .command (fun impossible => by cases impossible) within later
    · rw [adjustNode_plain adjustment ident attributes args rules heads,
        adjustNode_plain adjustment ident attributes inner rules heads]
      exact .command (fun impossible => by cases impossible) inside later
  | bracket _ _ inside later => exact .bracket inside later
  | quotation _ _ inside later => exact .quotation inside later
  | fragment _ _ inside later => exact .fragment inside later
  | tag within _ _ later => exact .tag within later
  | @formula ident attributes args declaration rules _ _ _ _ _ math plain stands _ later =>
    obtain rfl := slot_iff.mp stands
    rw [Outline.adjust, adjustNode_plain adjustment ident attributes args rules (Bool.eq_false_iff.mp plain)]
    exact .formula math plain stands later
  | @dropped ident attributes args declaration rules _ _ math plain _ later =>
    rw [Outline.adjust, adjustNode_plain adjustment ident attributes args rules (Bool.eq_false_iff.mp plain)]
    exact .dropped math plain later

/-- Taking the rest of the formulas out leaves none. -/
theorem extract {registry : Registry} (unmixed : registry.Unmixed) (lifted : Lifted all nodes left)
    (declared : Declared (Unmixed registry) nodes) (keep heading : Bool) (sheet : FormulaSheet) :
    Lifted true nodes ((extractNodes keep heading left).run sheet).1 := by
  induction lifted generalizing keep heading sheet with
  | nil => exact .nil
  | @leaf node _ _ plain _ later =>
    have same : (extractNode keep heading node).run sheet = (node, sheet) := by cases node <;> first | rfl | cases plain
    rw [extractNodes_cons, same]
    exact .leaf plain (later declared.2 _ _ _)
  | @command ident attributes args inner declaration rules _ _ _ _ _ inside later =>
    rw [extractNodes_cons]
    cases math : declaration.bind Declaration.math with
    | some spec =>
      have plain : isHeading declaration = false := by
        rw [Bool.eq_false_iff]
        intro heads
        cases (declared.1.1 unmixed heads).symm.trans math
      rw [extractNode, math]
      cases keep with
      | true => exact .formula math plain (slot_iff.mpr rfl) (later declared.2 _ _ _)
      | false => exact .dropped (by simp [math]) plain (later declared.2 _ _ _)
    | none =>
      rw [extractNode_plain keep heading ident attributes inner rules math]
      exact .command (fun _ => math) (inside declared.1.2.1 _ _ _) (later declared.2 _ _ _)
  | bracket _ _ inside later => exact .bracket (inside declared.1 _ _ _) (later declared.2 _ _ _)
  | quotation _ _ inside later => exact .quotation (inside declared.1 _ _ _) (later declared.2 _ _ _)
  | fragment _ _ inside later => exact .fragment (inside declared.1 _ _ _) (later declared.2 _ _ _)
  | tag _ _ inside later =>
    have placed := inside (declared_brackets.mpr (blocksDeclared_iff.mp declared.1.2.1)) keep heading sheet
    rw [extractBlocks_brackets] at placed
    exact .tag placed (later declared.2 _ _ _)
  | formula math plain stands _ later =>
    obtain rfl := slot_iff.mp stands
    exact .formula math plain stands (later declared.2 _ _ _)
  | dropped math plain _ later => exact .dropped math plain (later declared.2 _ _ _)

end Lifted

end Formula

namespace Compiler

open Compile Formula

/-- Trees of the same file: without formulas taken out, and with, if `taken` says so. -/
structure Kin (registry : Registry) (taken : Bool) (whole left : List Node) : Prop where
  declared : Declared (Unmixed registry) whole
  same : taken = false → whole = left
  lifted : registry.Unmixed → Lifted false whole left

theorem kin_self {registry : Registry} (taken : Bool) {nodes : List Node}
    (declared : Declared (Unmixed registry) nodes) : Kin registry taken nodes nodes :=
  ⟨declared, fun _ => rfl, fun _ => lifted_self nodes⟩

theorem congruence_kin (registry : Registry) (taken : Bool) : Congruence (Unmixed registry) (Kin registry taken) := by
  constructor
  case nil => exact kin_self taken trivial
  case passed =>
    intro node rest left _ own later
    exact ⟨⟨own, later.declared⟩, fun untaken => by rw [later.same untaken],
      fun unmixed => lifted_node node (later.lifted unmixed)⟩
  case command =>
    intro ident attributes args inner declaration rules rest left own ruled inside later
    exact ⟨⟨⟨own, inside.declared, ruled⟩, later.declared⟩,
      fun untaken => by rw [inside.same untaken, later.same untaken],
      fun unmixed => .command (fun impossible => by cases impossible) (inside.lifted unmixed) (later.lifted unmixed)⟩
  case bracket =>
    intro kind opening closing children inner rest left inside later
    exact ⟨⟨inside.declared, later.declared⟩, fun untaken => by rw [inside.same untaken, later.same untaken],
      fun unmixed => .bracket (inside.lifted unmixed) (later.lifted unmixed)⟩
  case quotation =>
    intro opening closing children inner rest left inside later
    exact ⟨⟨inside.declared, later.declared⟩, fun untaken => by rw [inside.same untaken, later.same untaken],
      fun unmixed => .quotation (inside.lifted unmixed) (later.lifted unmixed)⟩
  case fragment =>
    intro children inner rest left inside later
    exact ⟨⟨inside.declared, later.declared⟩, fun untaken => by rw [inside.same untaken, later.same untaken],
      fun unmixed => .fragment (inside.lifted unmixed) (later.lifted unmixed)⟩

/-- What an inclusion leaves differs in formulas if what it has put in does. -/
theorem kin_conclude {adjustment : Outline.Adjustment} {extract : Bool} {expanded other : List Node × FormulaSheet}
    (kin : Kin adjustment.registry (extract && !adjustment.tocOnly) expanded.1 other.1) (sheet twin : FormulaSheet) :
    Kin adjustment.registry extract (conclude adjustment false sheet expanded).1
      (conclude adjustment (extract && !adjustment.tocOnly) twin other).1 := by
  have declared := Outline.adjust_declared (Outline.harmless_unmixed adjustment) _ kin.declared
  unfold conclude
  dsimp only
  split
  next only =>
    rw [only, Bool.not_true, Bool.and_false] at kin
    rw [← kin.same rfl]
    apply kin_self
    rw [← Outline.visible_false, declared_iff, List.forall_mem_map]
    exact fun command member => (Outline.visible_declared false _ declared command member).2
  next drawn =>
    rw [Bool.not_eq_true] at drawn
    rw [drawn, Bool.not_false, Bool.and_true] at kin ⊢
    cases extract with
    | false =>
      refine ⟨declared, fun untaken => ?_, fun unmixed => (kin.lifted unmixed).adjust adjustment⟩
      exact congrArg (Outline.adjust adjustment) (kin.same untaken)
    | true =>
      refine ⟨declared, fun impossible => (by cases impossible), fun unmixed => ?_⟩
      exact (((kin.lifted unmixed).adjust adjustment).extract unmixed declared _ _ _).loosen

/-- The failure of an inclusion, unless the limit was too low. -/
def InclusionFails (failure : Failure) : Prop := failure = .tooDeep ∨ ∃ target cause, failure = .including target cause

def SameInclusion (failure other : Failure) : Prop := failure = other ∧ InclusionFails failure

theorem sameInclusion_including {target : String} {failure other : Failure} (same : failure = other) :
    SameInclusion (.including target failure) (.including target other) := by
  subst same
  exact ⟨rfl, .inr ⟨target, failure, rfl⟩⟩

variable (compiler : Compiler)

theorem couples_contents (path target : String) :
    Couples (Meet compiler compiler) SameInclusion (fun nodes others => nodes = others ∧ compiler.Loads target nodes)
      (compiler.fetch path target) (compiler.fetch path target) := by
  have agree : Agree Eq (fun nodes others => nodes = others ∧ compiler.Loads target nodes) (compiler.content target)
      (compiler.content target) := by
    refine (Agree.of_eq rfl).remember.mono (fun _ _ => And.left) ?_
    rintro nodes others ⟨same, given⟩
    exact ⟨same, loads_of_content given⟩
  exact couples_fetch agree fun _ _ => sameInclusion_including

/-- Whether formulas are taken out makes no difference to whether an inclusion succeeds. -/
theorem couples_includeFile (depth : Nat) (path : String) (chain : List String) (extract : Bool)
    (command : Command Node) (declared : (Node.command command).Declared (Unmixed compiler.registry))
    (sheet twin : FormulaSheet) :
    Couples (Meet compiler compiler) SameInclusion (Both (Kin compiler.registry extract) fun _ _ => True)
      ((compiler.includeFile depth path chain false command).run sheet)
      ((compiler.includeFile depth path chain extract command).run twin) := by
  have makes := makes_unmixed compiler.registry
  induction depth generalizing path chain extract command sheet twin with
  | zero => exact couples_throw ⟨rfl, .inl rfl⟩
  | succ depth ih =>
    rw [includeFile_run, includeFile_run]
    split
    · exact couples_throw ⟨rfl, .inr ⟨_, _, rfl⟩⟩
    · refine (couples_contents compiler path _).bind fun nodes others loaded => ?_
      obtain ⟨rfl, loads⟩ := loaded
      unfold place
      dsimp only
      split
      · refine (couples_splice ⟨rfl, .inl rfl⟩ nodes command.rules fun _ => rfl).bind fun left given spliced => ?_
        obtain ⟨rfl, filled⟩ := spliced
        have placed := filled.declared makes (loads.declared makes) (command_declared.mp declared).2.2
        exact couples_pure ⟨kin_self extract placed, trivial⟩
      · have each (inner : Command Node) (_ : inner ∈ inclusionsOf nodes)
            (own : (Node.command inner).Declared (Unmixed compiler.registry)) (sheet twin : FormulaSheet) (_ : True) :=
          ih (target path command) (chain ++ [target path command])
            (extract && !(compiler.adjustment (target path command) command).tocOnly) inner own sheet twin
        refine (couples_expandNodes (congruence_kin _ _) nodes (loads.declared makes) each _ _ trivial).bind ?_
        intro expanded other kin
        have left := @kin_conclude (compiler.adjustment (target path command) command) extract expanded other kin.1
        exact couples_pure ⟨left sheet twin, trivial⟩

/-- Nor does it to whether a page does. -/
theorem couples_finish (path : String) (nodes : List Node) (declared : Declared (Unmixed compiler.registry) nodes) :
    Couples (Meet compiler compiler) SameInclusion
      (fun page document => page.path = document.path ∧
        (compiler.registry.Unmixed → Lifted true page.nodes document.nodes))
      (compiler.finish path nodes false) (compiler.finish path nodes true) := by
  have each (command : Command Node) (_ : command ∈ inclusionsOf nodes)
      (own : (Node.command command).Declared (Unmixed compiler.registry)) (sheet twin : FormulaSheet) (_ : True) :=
    couples_includeFile compiler compiler.limit path [path] true command own sheet twin
  refine (couples_expandNodes (congruence_kin _ true) nodes declared each {} {} trivial).bind ?_
  intro whole left kin
  exact couples_pure ⟨rfl, fun unmixed => (kin.1.lifted unmixed).extract unmixed kin.1.declared _ _ _⟩

section Source

variable {path : String} {source : Bytes} (ending : LowerCase.lowerText (Path.ext path) = sourceExt)
  (stored : compiler.tree.read path = .ok source)

include ending stored

/-- What is stored under the path of a source is what its text resolves to. -/
theorem content_source {session : Session} (consistent : compiler.Consistent session) :
    compiler.content path = (outcome (compiler.resolveSource path source) session).1 := by
  have loads : compiler.loadFile path = _ := loadFile_source compiler.limit ending
  rw [content, loads, stored]
  exact (blind_resolveTop compiler path _ session consistent).2 _ (consistent_empty compiler)

theorem couples_source : Couples (Meet compiler compiler) Eq Eq (compiler.load path)
    (compiler.resolveSource path source) := by
  intro session twin together
  obtain ⟨given, left⟩ := load_content compiler together.1 path
  refine ⟨⟨left, (blind_resolveTop compiler path _ twin together.2).1⟩, Agree.of_eq ?_⟩
  rw [given, content_source compiler ending stored together.2]

theorem agree_source : Agree SameInclusion (fun nodes others => nodes = others ∧ compiler.Loads path nodes)
    (compiler.content path) (compiler.content path) := by
  have resolves : Couples (Meet compiler compiler) SameInclusion Eq (compiler.resolveSource path source)
      (compiler.resolveSource path source) :=
    (couples_resolveTop ⟨rfl, .inl rfl⟩ rfl).mono fun _ _ => And.left
  have empty := consistent_empty compiler
  have agree := (resolves {} {} ⟨empty, empty⟩).2
  rw [← content_source compiler ending stored empty] at agree
  refine agree.remember.mono (fun _ _ => And.left) ?_
  rintro nodes others ⟨same, given⟩
  exact ⟨same, loads_of_content given⟩

end Source

theorem Blind.couples {α : Type} {compilation : Compile α} (blind : Blind compiler.Consistent compilation) :
    Couples (Meet compiler compiler) Eq Eq compilation compilation := by
  intro session twin together
  refine ⟨⟨(blind session together.1).1, (blind twin together.2).1⟩, Agree.of_eq ?_⟩
  exact (blind twin together.2).2 _ together.1

/-- Of a source, compilation from its file and from its text give the same, but for the path that is named when they
fail; they fail for want of depth or at an inclusion. Compilation for LaTeX fails when they do and for the same reason,
and the page is what it renders, with a slot or an empty fragment for each outermost formula. -/
theorem entry_points_agree {path : String} {source : Bytes}
    (ending : LowerCase.lowerText (Path.ext (Path.clean path)) = sourceExt)
    (stored : compiler.tree.read (Path.clean path) = .ok source) {session twin third : Session}
    (consistent : compiler.Consistent session) (further : compiler.Consistent twin)
    (other : compiler.Consistent third) :
    (outcome (compiler.compile path) session).1 =
      (outcome (compiler.compileSource path source) twin).1.mapError (.compiling (Path.clean path)) ∧
    (outcome (compiler.compileLatex path) third).1 =
      (outcome (compiler.compileFile path false) third).1.map (fun page => latex page.nodes) ∧
    Agree (fun failure other => failure = other ∧
        ∃ cause, failure = .compiling (Path.clean path) cause ∧ InclusionFails cause)
      (fun page document => page.path = document.path ∧
        (compiler.registry.Unmixed → Lifted true page.nodes document.nodes))
      (outcome (compiler.compileFile path false) third).1 (outcome (compiler.compile path) session).1 := by
  refine ⟨?_, ?_, ?_⟩
  · have same : Couples (Meet compiler compiler) Eq Eq
        (compiler.load (Path.clean path) >>= fun nodes => compiler.finish (Path.clean path) nodes true)
        (compiler.resolveSource (Path.clean path) source >>= fun nodes =>
          compiler.finish (Path.clean path) nodes true) := by
      refine (couples_source compiler ending stored).bind fun nodes others equal => ?_
      subst equal
      exact Blind.couples compiler (blind_finish compiler _ nodes true)
    have agree := (same session twin ⟨consistent, further⟩).2
    rw [compile, compileFile, compileSource, outcome_rethrow]
    generalize (outcome _ session).1 = given at agree ⊢
    generalize (outcome _ twin).1 = granted at agree ⊢
    cases agree with
    | ok same => rw [same]
    | error same => rw [same]
  · rw [compileLatex]
    cases run : outcome (compiler.compileFile path false) third with
    | mk given after =>
      cases given with
      | ok page => rw [outcome_bind_ok run]; rfl
      | error failure => rw [outcome_bind_error run]; rfl
  · have couples : Couples (Meet compiler compiler) (fun failure other => failure = other ∧
          ∃ cause, failure = .compiling (Path.clean path) cause ∧ InclusionFails cause)
        (fun page document => page.path = document.path ∧
          (compiler.registry.Unmixed → Lifted true page.nodes document.nodes))
        (compiler.compileFile path false) (compiler.compileFile path true) := by
      have loads := couples_load (agree_source compiler ending stored)
      refine Couples.rethrow (loads.bind fun nodes others loaded => ?_) ?_
      · obtain ⟨rfl, loads⟩ := loaded
        exact couples_finish compiler _ nodes (loads.declared (makes_unmixed compiler.registry))
      · rintro failure other ⟨rfl, reason⟩
        exact ⟨rfl, failure, rfl, reason⟩
    exact (couples third session ⟨other, consistent⟩).2

theorem unmixed_builtin : Builtin.registry.Unmixed := by
  intro declaration listed level
  have known : Known false ⟨declaration.name, {}⟩ none (some declaration) :=
    .inr ⟨declaration, mem_lookup.mpr ⟨listed, rfl⟩, rfl⟩
  exact known.math (by simpa [Formula.isHeading] using level)

namespace Sample

def pairedText : String := "\\math\x7bx\x7d\\include[src=a.ss,baseline=h2]"

/-- A formula on its own, one in a file that is included, and one in a heading of it that is not drawn. -/
def paired : Compiler :=
  files [("main.ss", pairedText), ("a.ss", "\\h1[toc-only]\x7bA\\math\x7by\x7d\x7d\\math\x7bz\x7d")]

end Sample

theorem entry_points_agree_paired :
    LowerCase.lowerText (Path.ext (Path.clean "main.ss")) = sourceExt ∧
    Sample.paired.tree.read (Path.clean "main.ss") = .ok (Utf8.encode Sample.pairedText) ∧
    Sample.paired.registry.Unmixed ∧ ∃ page document : Document,
      (outcome (Sample.paired.compileSource "main.ss" (Utf8.encode Sample.pairedText)) {}).1 = .ok document ∧
      (outcome (Sample.paired.compile "main.ss") {}).1 = .ok document ∧
      (outcome (Sample.paired.compileLatex "main.ss") {}).1 = .ok (latex page.nodes) ∧ latex page.nodes = "$x$$z$" ∧
      document.formulas.entries.map Formula.latex = ["z", "x"] ∧ Lifted true page.nodes document.nodes := by
  have ending : LowerCase.lowerText (Path.ext (Path.clean "main.ss")) = sourceExt := by decide +kernel
  have stored : Sample.paired.tree.read (Path.clean "main.ss") = .ok (Utf8.encode Sample.pairedText) :=
    Sample.ok_of_toOption (by decide +kernel)
  have empty := consistent_empty Sample.paired
  obtain ⟨document, compiled, entries⟩ := Option.map_eq_some_iff.mp
    (show ((outcome (Sample.paired.compileSource "main.ss" (Utf8.encode Sample.pairedText)) {}).1.toOption.map
      fun document => document.formulas.entries.map Formula.latex) = some ["z", "x"] by decide +kernel)
  have text : (outcome (Sample.paired.compileLatex "main.ss") {}).1 = .ok "$x$$z$" :=
    Sample.ok_of_toOption (by decide +kernel)
  obtain ⟨same, written, agree⟩ := entry_points_agree Sample.paired ending stored empty empty empty
  rw [Sample.ok_of_toOption compiled] at same
  rw [same] at agree
  cases found : (outcome (Sample.paired.compileFile "main.ss" false) {}).1 with
  | error failure =>
    rw [found] at written
    cases text.symm.trans written
  | ok page =>
    rw [found] at written agree
    cases agree with
    | ok both =>
      have rendered : "$x$$z$" = latex page.nodes := Except.ok.inj (text.symm.trans written)
      exact ⟨ending, stored, unmixed_builtin, page, document, Sample.ok_of_toOption compiled, same, written,
        rendered.symm, entries, both.2 unmixed_builtin⟩

end Compiler
end Manuscript
