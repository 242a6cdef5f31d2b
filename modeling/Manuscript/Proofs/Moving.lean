import Manuscript.Proofs.LetterCase
import Manuscript.Proofs.Placeless
import Manuscript.Proofs.Relocation
import Manuscript.Proofs.SourceNames

/-! Projects that are moved into a directory. Each file that an inclusion leads to has moved with the file it stands in,
so a page compiles to the same as before, but for the names of the files that its headings come from; or it fails for
the same reason. -/

namespace Manuscript

namespace Compiler

open Compile Manuscript.Path

/-- No file is loaded by a path with this ending. -/
def Foreign (compiler : Compiler) (path : String) : Prop :=
  LowerCase.lowerText (Path.ext path) ≠ sourceExt ∧
    compiler.decoders.lookup (LowerCase.lowerText (Path.ext path)) = none

/-- The second compiler finds below a directory what the first finds below the root. -/
structure Moves (directory : String) (compiler moved : Compiler) : Prop where
  named : directory ≠ ""
  registry : moved.registry = compiler.registry
  decoders : moved.decoders = compiler.decoders
  limit : moved.limit = compiler.limit
  placeless : compiler.registry.Placeless
  read : ∀ path, Inside path → path ≠ "." →
    (compiler.tree.read path).toOption = (moved.tree.read (join directory path)).toOption

/-- The same failure, or that a file is not there. -/
def SameKind (failure other : Failure) : Prop :=
  failure = other ∨ failure.isNotFound = true ∧ other.isNotFound = true

/-- Why a page fails, before and after it has been moved: because of its own file, because it is too deep, or because of
an inclusion, of a file that has been moved as well. -/
inductive Displaced (compiler : Compiler) (directory page : String) : Failure → Failure → Prop where
  | page {failure other : Failure} (same : SameKind failure other) (failed : compiler.content page = .error failure) :
      Displaced compiler directory page failure other
  | deep : Displaced compiler directory page .tooDeep .tooDeep
  | inclusion {target : String} {failure other : Failure} (same : SameKind failure other) :
      Displaced compiler directory page (.including target failure) (.including (join directory target) other)

theorem couples_lift {meet : Session → Session → Prop} {fail : Failure → Failure → Prop} {α β : Type}
    {related : α → β → Prop} {result : Except Failure α} {other : Except Failure β}
    (agree : Agree fail related result other) :
    Couples meet fail related (loadFile.liftExcept result) (loadFile.liftExcept other) := by
  cases agree with
  | ok same => exact couples_pure same
  | error same => exact couples_throw same

theorem read_isNotFound {tree : FileTree} {path : String} {failure : Failure}
    (failed : tree.read path = .error failure) : failure.isNotFound = true := by
  unfold FileTree.read FileSystem.read at failed
  split at failed
  · split at failed
    · cases failed
    · cases failed
      rfl
  · cases failed
    rfl

theorem agree_read {tree moved : FileTree} {path other : String}
    (same : (tree.read path).toOption = (moved.read other).toOption) :
    Agree SameKind Eq (tree.read path) (moved.read other) := by
  cases here : tree.read path with
  | ok data =>
    rw [here] at same
    rw [Sample.ok_of_toOption same.symm]
    exact .ok rfl
  | error failure =>
    cases there : moved.read other with
    | ok data =>
      rw [here, there] at same
      cases same
    | error other => exact .error (.inr ⟨read_isNotFound here, read_isNotFound there⟩)

section Moves

variable {directory page : String} {compiler moved : Compiler} (moves : Moves directory compiler moved)

include moves

theorem Moves.resolve (path other : String) (nodes : List Node) :
    (Manuscript.resolve compiler.registry compiler.limit (.top path) nodes).map Prod.fst =
      (Manuscript.resolve moved.registry moved.limit (.top other) nodes).map Prod.fst := by
  rw [moves.registry, moves.limit]
  exact Resolve.resolve_placeless moves.placeless compiler.limit (.top path other) nodes

/-- An inclusion leads from a file that was moved to a file that was moved. -/
theorem Moves.target {path : String} (inside : Inside path) (below : path ≠ ".") (command : Command Node) :
    Compiler.target (join directory path) command = join directory (Compiler.target path command) := by
  unfold Compiler.target
  rw [inside.dir_join moves.named below, join_assoc moves.named inside.dir.ne_empty inside.dir.relative]

/-- Inclusions of two files change headings alike, but for the name of the file. -/
theorem Moves.adjustment (name rename : String → String) (target other : String) (command : Command Node) :
    (moved.adjustment other command).naming rename = { (compiler.adjustment target command).naming name with
        source := ((moved.adjustment other command).naming rename).source } ∧
      ((compiler.adjustment target command).naming name).source = name target ∧
      ((moved.adjustment other command).naming rename).source = rename other := by
  refine ⟨?_, rfl, rfl⟩
  unfold Compiler.adjustment
  rw [moves.registry]
  rfl

theorem Moves.couples_loadFile {path : String} (inside : Inside path) (below : path ≠ ".") :
    Couples (Meet compiler moved) SameKind Eq (compiler.loadFile path) (moved.loadFile (join directory path)) := by
  have ext := inside.ext_join moves.named below
  have read := agree_read (moves.read path inside below)
  by_cases ending : LowerCase.lowerText (Path.ext path) = sourceExt
  · rw [show compiler.loadFile path = _ from loadFile_source compiler.limit ending,
      show moved.loadFile (join directory path) = _ from loadFile_source moved.limit (ext ▸ ending)]
    refine (couples_lift read).bind fun data other same => ?_
    subst same
    refine (couples_report _ _).bind fun _ _ _ => ?_
    exact (couples_resolveTop (.inl rfl) (moves.resolve path _ _)).mono fun _ _ => And.left
  · cases known : compiler.decoders.lookup (LowerCase.lowerText (Path.ext path)) with
    | none =>
      rw [show compiler.loadFile path = _ from loadFile_unknown compiler.limit ending known,
        show moved.loadFile (join directory path) = _ from
          loadFile_unknown moved.limit (ext ▸ ending) (by rw [ext, moves.decoders, known])]
      exact couples_throw (.inl rfl)
    | some decode =>
      rw [show compiler.loadFile path = _ from loadFile_drawing compiler.limit ending known,
        show moved.loadFile (join directory path) = _ from
          loadFile_drawing moved.limit (ext ▸ ending) (by rw [ext, moves.decoders, known]),
        inside.base_join moves.named below]
      refine (couples_lift read).bind fun data other same => ?_
      subst same
      refine (couples_report _ _).bind fun _ _ _ => ?_
      have decoded : Agree SameKind Eq (decode (Path.base path) data) (decode (Path.base path) data) :=
        (Agree.of_eq rfl).mono (fun _ _ => .inl) fun _ _ => id
      refine (couples_lift decoded).bind fun drawings other same => ?_
      subst same
      exact couples_pure rfl

/-- What a file contains moves with it, unless the root has an ending of files or is moved to where it gets one. -/
theorem Moves.content {path : String} (inside : Inside path)
    (plain : path = "." → compiler.Foreign path ∧ compiler.Foreign (join directory path)) :
    Agree SameKind (fun nodes others => nodes = others ∧ compiler.Loads path nodes ∧ path ≠ ".") (compiler.content path)
      (moved.content (join directory path)) := by
  by_cases below : path = "."
  · obtain ⟨here, there⟩ := plain below
    have left : compiler.loadFile path = throw .unsupportedFormat := loadFile_unknown compiler.limit here.1 here.2
    have right : moved.loadFile (join directory path) = throw .unsupportedFormat :=
      loadFile_unknown moved.limit there.1 (moves.decoders ▸ there.2)
    unfold Compiler.content
    rw [left, right]
    exact .error (.inl rfl)
  · have agree := (moves.couples_loadFile inside below {} {} ⟨consistent_empty _, consistent_empty _⟩).2
    refine agree.remember.mono (fun _ _ => And.left) ?_
    rintro nodes others ⟨same, given⟩
    exact ⟨same, loads_of_content given, below⟩

end Moves

theorem Chain.reached {compiler : Compiler} {page path : String} {chain : List String}
    (chained : compiler.Chain page chain path) : compiler.Reached page path := by
  cases chained with
  | page => exact .page
  | next chained includes _ =>
    obtain ⟨loads, member, rfl, _, _⟩ := includes
    exact .target chained loads member

theorem Chain.reached_all {compiler : Compiler} {page path : String} {chain : List String}
    (chained : compiler.Chain page chain path) : ∀ other ∈ chain, compiler.Reached page other := by
  obtain ⟨targets, rfl, _, each⟩ := chained.targets
  rw [List.forall_mem_cons]
  refine ⟨.page, fun other member => ?_⟩
  obtain ⟨⟨_, led⟩, _⟩ := each other member
  exact led.reached

/-- No file that a page leads to is outside of the root. The root itself is no file among them, unless it stays without
an ending of files when it is moved. -/
structure Enclosed (compiler : Compiler) (directory page : String) : Prop where
  inside : ∀ path, compiler.Reached page path → Inside path
  plain : compiler.Reached page "." → compiler.Foreign "." ∧ compiler.Foreign (join directory ".")

theorem makes_any (registry : Registry) : registry.Makes fun _ _ _ => True := fun _ _ _ _ _ => trivial

section Moves

variable {directory page : String} {compiler moved : Compiler} (moves : Moves directory compiler moved)
  (enclosed : compiler.Enclosed directory page)

include moves enclosed

theorem Moves.reached {path : String} (reached : compiler.Reached page path) :
    Agree SameKind (fun nodes others => nodes = others ∧ compiler.Loads path nodes ∧ path ≠ ".") (compiler.content path)
      (moved.content (join directory path)) := by
  refine moves.content (enclosed.inside path reached) ?_
  rintro rfl
  exact enclosed.plain reached

section Rendition

variable {place : String → String → Prop} {related : List Node → List Node → Prop}
  {sheets : FormulaSheet → FormulaSheet → Prop} (rendition : Rendition place related sheets)
  {name rename : String → String} (named : ∀ target, place (name target) (rename (join directory target)))

include rendition named

theorem Moves.couples_include (depth : Nat) {chain : List String} {path : String} {nodes : List Node}
    (chained : compiler.Chain page chain path) (loads : compiler.Loads path nodes) (below : path ≠ ".")
    {command : Command Node} (member : command ∈ inclusionsOf nodes) (extract : Bool) (sheet twin : FormulaSheet)
    (together : sheets sheet twin) :
    Couples (Meet compiler moved) (compiler.Displaced directory page) (Both related sheets)
      ((compiler.includeNaming name depth path chain extract command).run sheet)
      ((moved.includeNaming rename depth (join directory path) (chain.map (join directory)) extract command).run
        twin) := by
  induction depth generalizing chain path nodes command extract sheet twin with
  | zero => exact couples_throw .deep
  | succ depth ih =>
    have reached : compiler.Reached page (Compiler.target path command) := .target chained loads member
    have inside := enclosed.inside _ reached
    have leads := moves.target (enclosed.inside path chained.reached) below command
    have found : (chain.map (join directory)).contains (join directory (Compiler.target path command)) =
        chain.contains (Compiler.target path command) := by
      rw [Bool.eq_iff_iff, List.contains_iff_mem, List.contains_iff_mem, List.mem_map]
      constructor
      · rintro ⟨other, listed, same⟩
        rw [inside.join_injective moves.named (enclosed.inside other (chained.reached_all other listed)) same.symm]
        exact listed
      · exact fun listed => ⟨_, listed, rfl⟩
    rw [includeNaming_run, includeNaming_run, leads, found]
    split
    · exact couples_throw (.inclusion (.inl rfl))
    next other =>
      have fresh : Compiler.target path command ∉ chain := by simpa using other
      refine (couples_fetch (moves.reached enclosed reached) fun _ _ => .inclusion).bind fun content others loaded => ?_
      obtain ⟨rfl, loaded, below⟩ := loaded
      unfold placeNaming
      rw [leads, inside.ext_join moves.named below]
      split
      next ending =>
        refine (couples_splice .deep content command.rules (moves.resolve path _)).bind fun left given same => ?_
        obtain ⟨rfl, _⟩ := same
        exact couples_pure ⟨rendition.self left, together⟩
      next ending =>
        have longer := chained.next ⟨loads, member, rfl, not_not.mp ending, loaded⟩ fresh
        have each (inner : Command Node) (within : inner ∈ inclusionsOf content)
            (_ : (Node.command inner).Declared fun _ _ _ => True) (sheet twin : FormulaSheet)
            (together : sheets sheet twin) :=
          ih longer loaded below within (extract && !command.hasAttribute "toc-only") sheet twin together
        rw [List.map_append, List.map_singleton] at each
        refine (couples_expandNodes rendition.congruence content (loaded.declared (makes_any _)) each _ _
          (rendition.successor together)).bind fun expanded left both => ?_
        obtain ⟨same, source, other⟩ := moves.adjustment name rename (Compiler.target path command)
          (join directory (Compiler.target path command)) command
        refine couples_pure (rendition.conclude _ same ?_ together both)
        rw [source, other]
        exact named _

theorem Moves.couples_compile (isClean : IsClean page) (extract : Bool) :
    Couples (Meet compiler moved)
      (fun failure other => ∃ cause reason, failure = .compiling page cause ∧
        other = .compiling (join directory page) reason ∧ compiler.Displaced directory page cause reason)
      (fun document other => document.path = page ∧ other.path = join directory page ∧
        related document.nodes other.nodes ∧ sheets document.formulas other.formulas)
      (compiler.compileNaming name page extract) (moved.compileNaming rename (join directory page) extract) := by
  have joined : Path.clean (join directory page) = join directory page := (join_spec moves.named page).1
  have content : Agree (compiler.Displaced directory page)
      (fun nodes others => nodes = others ∧ compiler.Loads page nodes ∧ page ≠ ".") (compiler.content page)
      (moved.content (join directory page)) :=
    (moves.reached enclosed .page).remember.mono (fun _ _ failed => .page failed.1 failed.2) fun _ _ => And.left
  unfold compileNaming
  rw [show Path.clean page = page from isClean, joined]
  refine Couples.rethrow ((couples_load content).bind fun nodes others loaded => ?_) ?_
  · obtain ⟨rfl, loads, below⟩ := loaded
    rw [moves.limit]
    have each (command : Command Node) (member : command ∈ inclusionsOf nodes)
        (_ : (Node.command command).Declared fun _ _ _ => True) (sheet twin : FormulaSheet)
        (together : sheets sheet twin) :=
      moves.couples_include enclosed rendition named compiler.limit .page loads below member extract sheet twin together
    refine (couples_expandNodes rendition.congruence nodes (loads.declared (makes_any _)) each {} {}
      rendition.empty).bind fun expanded left both => ?_
    obtain ⟨same, account⟩ := rendition.finished extract both.1 both.2
    exact couples_pure ⟨rfl, rfl, same, account⟩
  · exact fun failure other displaced => ⟨failure, other, rfl, rfl, displaced⟩

end Rendition

end Moves

/-- A page of a project that is moved compiles as before, but for the names that inclusions give to the sources of
headings and the ids of formulas; it is what the page would be if inclusions called files by their new names. Or it
fails as before, for a reason of the same kind, and at the inclusion of the file that is the same but has been moved. -/
theorem compileFile_moved {directory page : String} {compiler moved : Compiler} (moves : Moves directory compiler moved)
    (enclosed : compiler.Enclosed directory (Path.clean page)) (extract : Bool) {session twin : Session}
    (consistent : compiler.Consistent session) (further : moved.Consistent twin) :
    Agree (fun failure other => ∃ cause reason, failure = .compiling (Path.clean page) cause ∧
        other = .compiling (join directory page) reason ∧ compiler.Displaced directory (Path.clean page) cause reason)
      (fun document other => document.path = Path.clean page ∧ other.path = join directory page ∧
        Outline.Renames (join directory) document.nodes other.nodes)
      (outcome (compiler.compileFile page extract) session).1
      (outcome (moved.compileFile (join directory page) extract) twin).1 ∧
    compiler.compileFile page extract = compiler.compileNaming id page extract ∧
    (outcome (moved.compileFile (join directory page) extract) twin).1.toOption =
      (outcome (compiler.compileNaming (join directory) page extract) session).1.toOption.map fun document =>
        { document with path := join directory page } := by
  have isClean := isClean_clean page
  have relative : rooted page = false := (rooted_clean page).symm.trans (enclosed.inside _ .page).relative
  have joined : join directory (Path.clean page) = join directory page := join_clean moves.named relative
  have cleaned (name : String → String) :
      compiler.compileNaming name page extract = compiler.compileNaming name (Path.clean page) extract := by
    unfold compileNaming
    rw [show Path.clean (Path.clean page) = Path.clean page from isClean]
  refine ⟨?_, compileFile_eq_compileNaming .., ?_⟩
  · have couples := @Moves.couples_compile _ _ _ _ moves enclosed _ _ _ (rendition_renames (join directory)) id id
      (fun _ => rfl) isClean extract
    rw [joined, ← cleaned, ← compileFile_eq_compileNaming, ← compileFile_eq_compileNaming] at couples
    exact (couples session twin ⟨consistent, further⟩).2.mono (fun _ _ => id)
      fun _ _ same => ⟨same.1, same.2.1, same.2.2.1⟩
  · have couples := @Moves.couples_compile _ _ _ _ moves enclosed _ _ _ rendition_eq (join directory) id
      (fun _ => rfl) isClean extract
    rw [joined, ← cleaned, ← compileFile_eq_compileNaming] at couples
    have agree := (couples session twin ⟨consistent, further⟩).2
    generalize (outcome (compiler.compileNaming (join directory) page extract) session).1 = given at agree ⊢
    generalize (outcome (moved.compileFile (join directory page) extract) twin).1 = granted at agree ⊢
    cases agree with
    | error _ => rfl
    | @ok document other same =>
      obtain ⟨_, path, nodes, formulas⟩ := same
      obtain ⟨place, left, sheet⟩ := other
      obtain rfl : place = join directory page := path
      obtain rfl : document.nodes = left := nodes
      obtain rfl : document.formulas = sheet := formulas
      rfl

/-- The files of a project, all moved into a directory inside. -/
theorem moves_project (compiler : Compiler) (placeless : compiler.registry.Placeless) {base directory : String}
    (apart : Path.clean base ≠ ".") (inside : Inside directory) (files : List (String × Bytes))
    (each : ∀ file ∈ files, Inside file.1 ∧ file.1 ≠ ".") :
    Moves directory { compiler with tree := .project base files }
      { compiler with tree := .project base (files.map fun file => (join directory file.1, file.2)) } where
  named := inside.ne_empty
  registry := rfl
  decoders := rfl
  limit := rfl
  placeless := placeless
  read _ within below := FileTree.read_moved apart inside files each within below

namespace Sample

theorem moves_files (list : List (String × String)) {directory : String} (inside : Inside directory)
    (each : ∀ file ∈ list, Inside file.1 ∧ file.1 ≠ ".") :
    Moves directory (files list) (files (list.map fun file => (join directory file.1, file.2))) := by
  have moves := moves_project (files list) placeless_builtin (show Path.clean "src" ≠ "." by decide) inside
    (list.map fun file => (file.1, Utf8.encode file.2)) (List.forall_mem_map.mpr each)
  simpa only [files, FileTree.project, List.map_map, Function.comp_def] using moves

/-- The inclusions of the sources among these paths lead to these paths. -/
def isClosed (compiler : Compiler) (paths : List String) : Bool :=
  paths.all fun path => LowerCase.lowerText (Path.ext path) != sourceExt ||
    ((compiler.tree.read path).toOption.bind fun data =>
      (resolve compiler.registry 5 (.top path) (normalize (Parse.ofBytes data))).map fun result =>
        (addresses result.1).map (join (dir path))).any fun targets => targets.all paths.contains

theorem reached_listed {compiler : Compiler} {page path : String} {paths : List String}
    (reached : compiler.Reached page path) (first : page ∈ paths) (closed : isClosed compiler paths = true) :
    path ∈ paths := by
  have next {path : String} {nodes : List Node} {command : Command Node} (listed : path ∈ paths)
      (loads : compiler.Loads path nodes) (member : command ∈ inclusionsOf nodes) : target path command ∈ paths := by
    have ending := loads.ending member
    have seen := List.all_eq_true.mp closed path listed
    rw [ending, bne_self_eq_false, Bool.false_or, Option.any_eq_true] at seen
    obtain ⟨targets, found, all⟩ := seen
    have same := @loads_seen _ _ _ _ (fun nodes => (addresses nodes).map (join (dir path))) _ loads ending found
    exact List.contains_iff_mem.mp (List.all_eq_true.mp all _ (same ▸ target_mem member path))
  cases reached with
  | page => exact first
  | target chained loads member =>
    exact next (chained.holds (· ∈ paths) first fun listed loads member _ => next listed loads member) loads member

/-- A page in a directory and a file next to it, with a heading that names its source. -/
def shelf : List (String × String) :=
  [("docs/main.ss", "\\include[src=../a.ss]"), ("a.ss", "\\h1\x7bA\x7d\\h2[source=own.ss]\x7bB\x7d")]

theorem shelf_enclosed : (files shelf).Enclosed "x" "docs/main.ss" := by
  have closed : isClosed (files shelf) ["docs/main.ss", "a.ss"] = true := by decide +kernel
  have all : ∀ path ∈ ["docs/main.ss", "a.ss"], Inside path := by decide
  constructor
  · exact fun path reached => all path (reached_listed reached (by decide) closed)
  · exact fun reached => absurd (reached_listed reached (by decide) closed) (by decide)

end Sample

/-- A heading of an included file names the file where it is after the move, and keeps a source of its own. -/
theorem compileFile_moved_shelf :
    ∃ document other : Document,
      (outcome ((Sample.files Sample.shelf).compileFile "docs/main.ss" true) {}).1 = .ok document ∧
      (outcome ((Sample.files (Sample.shelf.map fun file => (join "x" file.1, file.2))).compileFile "x/docs/main.ss"
        true) {}).1 = .ok other ∧
      Sample.headingView document = [("\\h1", some "a.ss", false, false), ("\\h2", some "own.ss", false, false)] ∧
      Sample.headingView other = [("\\h1", some "x/a.ss", false, false), ("\\h2", some "own.ss", false, false)] ∧
      Outline.Renames (join "x") document.nodes other.nodes := by
  have moves := Sample.moves_files Sample.shelf (show Inside "x" by decide) (by decide +kernel)
  have page : Path.clean "docs/main.ss" = "docs/main.ss" := by decide
  have enclosed : (Sample.files Sample.shelf).Enclosed "x" (Path.clean "docs/main.ss") := page ▸ Sample.shelf_enclosed
  obtain ⟨agree, _, _⟩ := compileFile_moved moves enclosed true (consistent_empty _) (consistent_empty _)
  rw [show join "x" "docs/main.ss" = "x/docs/main.ss" by decide] at agree
  obtain ⟨document, compiled, headings⟩ := Option.map_eq_some_iff.mp
    (show (outcome ((Sample.files Sample.shelf).compileFile "docs/main.ss" true) {}).1.toOption.map Sample.headingView =
      some [("\\h1", some "a.ss", false, false), ("\\h2", some "own.ss", false, false)] by decide +kernel)
  obtain ⟨other, recompiled, renamed⟩ := Option.map_eq_some_iff.mp
    (show (outcome ((Sample.files (Sample.shelf.map fun file => (join "x" file.1, file.2))).compileFile "x/docs/main.ss"
        true) {}).1.toOption.map Sample.headingView =
      some [("\\h1", some "x/a.ss", false, false), ("\\h2", some "own.ss", false, false)] by decide +kernel)
  have here := Sample.ok_of_toOption compiled
  have there := Sample.ok_of_toOption recompiled
  rw [here, there] at agree
  cases agree with
  | ok same => exact ⟨document, other, here, there, headings, renamed, same.2.2⟩

namespace Sample

/-- A page that includes the directory it is in. -/
def looking : List (String × String) := [("p.ss", "\\include[src=.]")]

theorem looking_inside {path : String} (reached : (files looking).Reached "p.ss" path) : Inside path := by
  have closed : isClosed (files looking) ["p.ss", "."] = true := by decide +kernel
  have all : ∀ path ∈ ["p.ss", "."], Inside path := by decide
  exact all path (reached_listed reached (by decide) closed)

end Sample

/-- The root is no file. Moved into a directory with the ending of a source it is loaded as an empty one, so a page that
fails to include it compiles after the move. -/
theorem root_moved_to_source :
    Moves "x.ss" (Sample.files Sample.looking)
      (Sample.files (Sample.looking.map fun file => (join "x.ss" file.1, file.2))) ∧
    (∀ path, (Sample.files Sample.looking).Reached "p.ss" path → Inside path) ∧
    (∃ failure after, outcome ((Sample.files Sample.looking).compile "p.ss") {} = (.error failure, after) ∧
      failure.message = "unable to compile p.ss: unable to include .: unsupported file format") ∧
    ∃ document, (outcome ((Sample.files (Sample.looking.map fun file => (join "x.ss" file.1, file.2))).compile
      "x.ss/p.ss") {}).1 = .ok document := by
  refine ⟨Sample.moves_files Sample.looking (by decide) (by decide +kernel), fun _ => Sample.looking_inside, ?_, ?_⟩
  · exact Sample.error_of_message (by decide +kernel)
  · obtain ⟨document, compiled, _⟩ := Option.map_eq_some_iff.mp
      (show (outcome ((Sample.files (Sample.looking.map fun file => (join "x.ss" file.1, file.2))).compile "x.ss/p.ss")
        {}).1.toOption.map (fun document => latex document.nodes) = some "" by decide +kernel)
    exact ⟨document, Sample.ok_of_toOption compiled⟩

end Compiler
end Manuscript
