import Manuscript.Proofs.History
import Manuscript.Proofs.OutputFiles

/-! What a compiler answers, whatever it was asked before. Each answer is the one that a compiler gives which has not
compiled anything yet, so the pages of a project come out the same in whatever order they are built. -/

namespace Manuscript.Compiler

open Compile

inductive Request where
  | compile (path : String)
  | source (path : String) (text : Bytes)
  | latex (path : String)
  | page (layout : PageLayout) (output : Output) (source : String)

inductive Answer where
  | document (result : Except Failure Document)
  | text (result : Except Failure String)
  | page (result : PageResult) (output : Output)

def serve (compiler : Compiler) : Request → StateM Session Answer
  | .compile path => do pure (.document (← (compiler.compile path).run))
  | .source path text => do pure (.document (← (compiler.compileSource path text).run))
  | .latex path => do pure (.text (← (compiler.compileLatex path).run))
  | .page layout output source => do
    let (result, output) ← compiler.buildPage layout output source
    pure (.page result output)

/-- The answer of a compiler that has not compiled anything yet. -/
def fresh (compiler : Compiler) (request : Request) : Answer := ((compiler.serve request).run {}).1

/-- The page of a source that is the first thing a compiler makes. -/
def pageOf (compiler : Compiler) (layout : PageLayout) (source : String) : Except Failure String :=
  (outcome (compiler.compile source) {}).1 >>= fun document => renderPage document layout

/-- What becomes of a page: it is written, unless it could not be made. -/
def publish (output : Output) (source : String) : Except Failure String → PageResult × Output
  | .error failure => (⟨source, outputPath source, some failure⟩, output)
  | .ok page =>
    match output.write (outputPath source) (Utf8.encode page) with
    | .error failure => (⟨source, outputPath source, some failure⟩, output)
    | .ok after => (⟨source, outputPath source, none⟩, after)

theorem publish_refused {output : Output} {source page : String} {failure : Failure}
    (refused : output.write (outputPath source) (Utf8.encode page) = .error failure) :
    publish output source (.ok page) = (⟨source, outputPath source, some failure⟩, output) := by
  simp only [publish, refused]

theorem publish_written {output after : Output} {source page : String}
    (written : output.write (outputPath source) (Utf8.encode page) = .ok after) :
    publish output source (.ok page) = (⟨source, outputPath source, none⟩, after) := by
  simp only [publish, written]

/-- The pages of sources, made by a compiler that has not compiled anything yet and published one after the other. -/
def publishAll (compiler : Compiler) (layout : PageLayout) (output : Output) :
    List String → List PageResult × Output
  | [] => ([], output)
  | source :: rest =>
    let built := publish output source (compiler.pageOf layout source)
    let later := compiler.publishAll layout built.2 rest
    (built.1 :: later.1, later.2)

theorem Consistent.outcome_eq {α : Type} {compiler : Compiler} {session : Session}
    (consistent : compiler.Consistent session) {compilation : Compile α}
    (blind : Blind compiler.Consistent compilation) :
    (outcome compilation session).1 = (outcome compilation {}).1 ∧
      compiler.Consistent (outcome compilation session).2 := by
  obtain ⟨left, alike⟩ := blind session consistent
  exact ⟨(alike {} (consistent_empty compiler)).symm, left⟩

theorem run_answer {α β : Type} (compilation : Compile α) (make : Except Failure α → β) (session : Session) :
    (do pure (make (← compilation.run)) : StateM Session β).run session =
      (make (outcome compilation session).1, (outcome compilation session).2) := rfl

theorem run_page (building : StateM Session (PageResult × Output)) (session : Session) :
    (do
      let (result, output) ← building
      pure (Answer.page result output) : StateM Session Answer).run session =
        (.page (building.run session).1.1 (building.run session).1.2, (building.run session).2) := rfl

theorem run_pages (building : StateM Session (PageResult × Output))
    (next : Output → StateM Session (List PageResult × Output)) (session : Session) :
    (do
      let (result, output) ← building
      let (results, output) ← next output
      pure (result :: results, output) : StateM Session (List PageResult × Output)).run session =
        let later := (next (building.run session).1.2).run (building.run session).2
        (((building.run session).1.1 :: later.1.1, later.1.2), later.2) := rfl

theorem buildPage_eq_publish (compiler : Compiler) (layout : PageLayout) (output : Output) (source : String) :
    compiler.buildPage layout output source = (do
      let given ← (compiler.compile source).run
      pure (publish output source (given >>= fun document => renderPage document layout))) := by
  unfold buildPage
  dsimp only
  apply bind_congr
  intro given
  cases given with
  | error failure => rfl
  | ok document =>
    simp only [bind, Except.bind]
    cases renderPage document layout with
    | error failure => rfl
    | ok page =>
      dsimp only
      split
      next refused => rw [publish_refused refused]
      next written => rw [publish_written written]

section History

variable {compiler : Compiler} {session : Session} (consistent : compiler.Consistent session)

include consistent

theorem buildPage_eq (layout : PageLayout) (output : Output) (source : String) :
    ((compiler.buildPage layout output source).run session).1 = publish output source (compiler.pageOf layout source) ∧
      compiler.Consistent ((compiler.buildPage layout output source).run session).2 := by
  obtain ⟨same, left⟩ := consistent.outcome_eq (blind_compile compiler source)
  rw [buildPage_eq_publish, run_answer (compiler.compile source), pageOf]
  refine ⟨?_, left⟩
  dsimp only
  rw [same]

theorem serve_eq (request : Request) : ((compiler.serve request).run session).1 = compiler.fresh request ∧
    compiler.Consistent ((compiler.serve request).run session).2 := by
  cases request with
  | compile path =>
    obtain ⟨same, left⟩ := consistent.outcome_eq (blind_compile compiler path)
    simp only [fresh, serve, run_answer (compiler.compile path)]
    exact ⟨congrArg Answer.document same, left⟩
  | source path text =>
    obtain ⟨same, left⟩ := consistent.outcome_eq (blind_compileSource compiler path text)
    simp only [fresh, serve, run_answer (compiler.compileSource path text)]
    exact ⟨congrArg Answer.document same, left⟩
  | latex path =>
    obtain ⟨same, left⟩ := consistent.outcome_eq (blind_compileLatex compiler path)
    simp only [fresh, serve, run_answer (compiler.compileLatex path)]
    exact ⟨congrArg Answer.text same, left⟩
  | page layout output source =>
    obtain ⟨same, left⟩ := buildPage_eq consistent layout output source
    obtain ⟨again, _⟩ := buildPage_eq (consistent_empty compiler) layout output source
    simp only [fresh, serve, run_page (compiler.buildPage layout output source)]
    rw [same, again]
    exact ⟨rfl, left⟩

theorem answers_eq (history : List Request) :
    ((history.mapM compiler.serve).run session).1 = history.map compiler.fresh ∧
      compiler.Consistent ((history.mapM compiler.serve).run session).2 := by
  induction history generalizing session with
  | nil => exact ⟨rfl, consistent⟩
  | cons request history ih =>
    obtain ⟨same, left⟩ := serve_eq consistent request
    obtain ⟨rest, last⟩ := ih left
    rw [List.mapM_cons]
    exact ⟨List.cons_eq_cons.mpr ⟨same, rest⟩, last⟩

theorem buildPages_eq (layout : PageLayout) (output : Output) (order : List String) :
    ((compiler.buildPages layout output order).run session).1 = compiler.publishAll layout output order ∧
      compiler.Consistent ((compiler.buildPages layout output order).run session).2 := by
  induction order generalizing session output with
  | nil => exact ⟨rfl, consistent⟩
  | cons source order ih =>
    obtain ⟨same, left⟩ := buildPage_eq consistent layout output source
    obtain ⟨rest, last⟩ := ih left (publish output source (compiler.pageOf layout source)).2
    have run : (compiler.buildPages layout output (source :: order)).run session = _ :=
      run_pages (compiler.buildPage layout output source) (compiler.buildPages layout · order) session
    rw [run, same, publishAll]
    dsimp only
    rw [rest]
    exact ⟨rfl, last⟩

end History

section Publishing

variable {output : Output} {source : String}

theorem publish_alike {other : Output} (alike : output.Alike other) (source : String) (page : Except Failure String) :
    (publish output source page).1 = (publish other source page).1 ∧ output.Alike (publish other source page).2 := by
  cases page with
  | error failure => exact ⟨rfl, alike⟩
  | ok page =>
    have same := alike.write (outputPath source) (Utf8.encode page)
    cases first : output.write (outputPath source) (Utf8.encode page) with
    | error failure =>
      cases second : other.write (outputPath source) (Utf8.encode page) with
      | error cause =>
        rw [first, second] at same
        obtain rfl := Except.error.inj same
        rw [publish_refused first, publish_refused second]
        exact ⟨rfl, alike⟩
      | ok after =>
        rw [first, second] at same
        cases same
    | ok before =>
      cases second : other.write (outputPath source) (Utf8.encode page) with
      | error cause =>
        rw [first, second] at same
        cases same
      | ok after =>
        obtain ⟨kept, _⟩ := Output.write_eq_ok second
        rw [publish_written first, publish_written second]
        exact ⟨rfl, alike.1.trans kept.1, alike.2.trans kept.2⟩

theorem read_publish {page : String} (built : (publish output source (.ok page)).1.failure = none) :
    (publish output source (.ok page)).2.tree.read (outputPath source) = .ok (Utf8.encode page) := by
  cases written : output.write (outputPath source) (Utf8.encode page) with
  | error failure =>
    rw [publish_refused written] at built
    cases built
  | ok after =>
    rw [publish_written written]
    exact Output.read_write written

/-- A page stays as it was written, unless another one is written to the same file. -/
theorem publish_keeps {page : String} (held : output.tree.read (outputPath source) = .ok (Utf8.encode page))
    {other : String} {text : Except Failure String}
    (apart : output.file (outputPath other) = output.file (outputPath source) → other = source ∧ text = .ok page) :
    (publish output other text).2.tree.read (outputPath source) = .ok (Utf8.encode page) := by
  cases text with
  | error failure => exact held
  | ok content =>
    cases written : output.write (outputPath other) (Utf8.encode content) with
    | error failure =>
      rw [publish_refused written]
      exact held
    | ok after =>
      rw [publish_written written]
      by_cases same : output.file (outputPath other) = output.file (outputPath source)
      -- to the same file the same page is written once more
      · obtain ⟨rfl, equal⟩ := apart same
        rw [Except.ok.inj equal] at written
        exact Output.read_write written
      · exact Output.read_write_other written held same

variable {compiler : Compiler} {layout : PageLayout}

theorem publishAll_results {other : Output} (alike : output.Alike other) (order : List String) :
    (compiler.publishAll layout other order).1 =
      order.map fun source => (publish output source (compiler.pageOf layout source)).1 := by
  induction order generalizing other with
  | nil => rfl
  | cons source order ih =>
    obtain ⟨same, further⟩ := publish_alike alike source (compiler.pageOf layout source)
    rw [publishAll, List.map_cons, ← ih further, same]

theorem publishAll_keeps {page : String} (rendered : compiler.pageOf layout source = .ok page) {order : List String}
    (held : output.tree.read (outputPath source) = .ok (Utf8.encode page))
    (apart : ∀ other ∈ order, output.file (outputPath other) = output.file (outputPath source) → other = source) :
    (compiler.publishAll layout output order).2.tree.read (outputPath source) = .ok (Utf8.encode page) := by
  induction order generalizing output with
  | nil => exact held
  | cons other order ih =>
    obtain ⟨first, rest⟩ := List.forall_mem_cons.mp apart
    rw [publishAll]
    have alike := (publish_alike ⟨rfl, rfl⟩ other (compiler.pageOf layout other) : _ ∧ output.Alike _).2
    apply ih
    · apply publish_keeps held
      intro same
      obtain rfl := first same
      exact ⟨rfl, rendered⟩
    · intro further member same
      rw [← alike.file, ← alike.file] at same
      exact rest further member same

theorem read_publishAll {page : String} (rendered : compiler.pageOf layout source = .ok page) {order : List String}
    (member : source ∈ order) (built : (publish output source (.ok page)).1.failure = none)
    (apart : ∀ other ∈ order, output.file (outputPath other) = output.file (outputPath source) → other = source) :
    (compiler.publishAll layout output order).2.tree.read (outputPath source) = .ok (Utf8.encode page) := by
  induction order generalizing output with
  | nil => cases member
  | cons first order ih =>
    have alike := (publish_alike ⟨rfl, rfl⟩ first (compiler.pageOf layout first) : _ ∧ output.Alike _).2
    have later (further : String) (inside : further ∈ order)
        (same : (publish output first (compiler.pageOf layout first)).2.file (outputPath further) =
          (publish output first (compiler.pageOf layout first)).2.file (outputPath source)) : further = source := by
      rw [← alike.file, ← alike.file] at same
      exact apart further (List.mem_cons_of_mem _ inside) same
    rw [publishAll]
    rcases List.mem_cons.mp member with rfl | inside
    · apply publishAll_keeps rendered _ later
      rw [rendered]
      exact read_publish built
    · apply ih inside _ later
      rw [← (publish_alike alike source _).1]
      exact built

end Publishing

theorem joinFailures_eq_none_iff (results : List PageResult) :
    joinFailures results = none ↔ ∀ result ∈ results, result.failure = none := by
  unfold joinFailures
  split
  next none => simpa [List.filterMap_eq_nil_iff] using none
  next some =>
    simp only [reduceCtorEq, false_iff]
    intro all
    exact some (List.filterMap_eq_nil_iff.mpr all)

theorem run_build (building : StateM Session (List PageResult × Output)) (note : List PageResult → Session → Session)
    (session : Session) :
    ((do
      let (results, output) ← building
      modify (note results)
      pure (.ok (results, output)) : StateM Session (Except Failure (List PageResult × Output))).run session).1 =
        .ok (building.run session).1 := rfl

/-- What is left by the requests of `history`. -/
def after (compiler : Compiler) (history : List Request) : Session := ((history.mapM compiler.serve).run {}).2

/-- The result of a source whose page is the first thing that a compiler makes. -/
def resultOf (compiler : Compiler) (layout : PageLayout) (output : Output) (source : String) : PageResult :=
  ((compiler.buildPage layout output source).run {}).1.1

/-- What comes of building the pages of `order`: the page that each source has alone is published, so each has the
result at its place that it has alone, there is a failure if one of them failed, and a file holds the page of its source
unless two of them share it. -/
structure Built (compiler : Compiler) (layout : PageLayout) (output : Output) (order : List String)
    (built : List PageResult × Output) : Prop where
  published : built = compiler.publishAll layout output order
  results : built.1 = order.map (compiler.resultOf layout output)
  failed : joinFailures built.1 = none ↔ ∀ source ∈ order, (compiler.resultOf layout output source).failure = none
  content : ∀ source ∈ order, (compiler.resultOf layout output source).failure = none →
    (∀ other ∈ order, output.file (outputPath other) = output.file (outputPath source) → other = source) →
    ∃ page, compiler.pageOf layout source = .ok page ∧
      built.2.tree.read (outputPath source) = .ok (Utf8.encode page)

theorem resultOf_eq (compiler : Compiler) (layout : PageLayout) (output : Output) (source : String) :
    compiler.resultOf layout output source = (publish output source (compiler.pageOf layout source)).1 :=
  congrArg Prod.fst (buildPage_eq (consistent_empty compiler) layout output source).1

theorem built_publishAll (compiler : Compiler) (layout : PageLayout) (output : Output) (order : List String) :
    compiler.Built layout output order (compiler.publishAll layout output order) := by
  have results : (compiler.publishAll layout output order).1 = order.map (compiler.resultOf layout output) := by
    rw [publishAll_results ⟨rfl, rfl⟩]
    exact List.map_congr_left fun source _ => (resultOf_eq compiler layout output source).symm
  refine ⟨rfl, results, ?_, ?_⟩
  · rw [results, joinFailures_eq_none_iff, List.forall_mem_map]
  · intro source member built apart
    rw [resultOf_eq] at built
    cases rendered : compiler.pageOf layout source with
    | error failure =>
      rw [rendered] at built
      cases built
    | ok page =>
      rw [rendered] at built
      exact ⟨page, rfl, read_publishAll rendered member built apart⟩

/-- Answers do not depend on what was asked before, and neither do builds. A project has the same results and the same
pages in whatever order its pages are built; and a page that cannot be made leaves the output as it is. -/
theorem history_irrelevant (compiler : Compiler) (history : List Request) :
    ((history.mapM compiler.serve).run {}).1 = history.map compiler.fresh ∧ ∀ layout output,
      (∀ order, compiler.Built layout output order
        ((compiler.buildPages layout output order).run (compiler.after history)).1) ∧
      (∀ sources, compiler.sources = .ok sources → ∃ built, compiler.Built layout output sources built ∧
        ((compiler.build layout output).run (compiler.after history)).1 = .ok built) ∧
      ∀ source failure, compiler.pageOf layout source = .error failure →
        ((compiler.buildPage layout output source).run (compiler.after history)).1 =
          (⟨source, outputPath source, some failure⟩, output) := by
  obtain ⟨answers, consistent⟩ := answers_eq (consistent_empty compiler) history
  have pages (layout : PageLayout) (output : Output) (order : List String) : compiler.Built layout output order
      ((compiler.buildPages layout output order).run (compiler.after history)).1 := by
    rw [after, (buildPages_eq consistent layout output order).1]
    exact built_publishAll compiler layout output order
  refine ⟨answers, fun layout output => ⟨pages layout output, ?_, ?_⟩⟩
  · intro sources listed
    refine ⟨_, pages layout output sources, ?_⟩
    unfold build
    rw [listed]
    exact run_build (compiler.buildPages layout output sources)
      (fun results session => { session with log := session.log ++ (results.map resultEvent).toArray }) _
  · intro source failure fails
    rw [after, (buildPage_eq consistent layout output source).1, fails]
    rfl

end Manuscript.Compiler
