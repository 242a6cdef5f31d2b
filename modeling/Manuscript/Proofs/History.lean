import Manuscript.Proofs.Expansion
import Manuscript.Project.Build

/-! Compilations do not depend on those before them. What the cache of a session holds is what a load without a cache
gives, so a compilation that loads through it has the same result whatever the session, and leaves the cache as such. -/

namespace Manuscript

namespace Compile

variable {α β : Type} {invariant : Session → Prop}

/-- Has the same result in all sessions of which `invariant` is true, and leaves such a session. -/
def Blind (invariant : Session → Prop) (compilation : Compile α) : Prop :=
  ∀ session, invariant session → invariant (outcome compilation session).2 ∧
    ∀ other, invariant other → (outcome compilation other).1 = (outcome compilation session).1

theorem blind_pure (value : α) : Blind invariant (pure value : Compile α) :=
  fun _ kept => ⟨kept, fun _ _ => rfl⟩

theorem blind_throw (failure : Failure) : Blind invariant (throw failure : Compile α) :=
  fun _ kept => ⟨kept, fun _ _ => rfl⟩

theorem Blind.bind {compilation : Compile α} {next : α → Compile β} (first : Blind invariant compilation)
    (second : ∀ value, Blind invariant (next value)) : Blind invariant (compilation >>= next) := by
  intro session kept
  obtain ⟨left, alike⟩ := first session kept
  cases run : outcome compilation session with
  | mk result middle =>
    rw [run] at left alike
    cases result with
    | error failure =>
      rw [outcome_bind_error run]
      refine ⟨left, ?_⟩
      intro other further
      have fails : outcome compilation other = (.error failure, (outcome compilation other).2) :=
        Prod.ext (alike other further) rfl
      rw [outcome_bind_error fails]
    | ok value =>
      rw [outcome_bind_ok run]
      obtain ⟨last, same⟩ := second value middle left
      refine ⟨last, ?_⟩
      intro other further
      have gives : outcome compilation other = (.ok value, (outcome compilation other).2) :=
        Prod.ext (alike other further) rfl
      rw [outcome_bind_ok gives]
      exact same _ (first other further).1

theorem Blind.rethrow {compilation : Compile α} (blind : Blind invariant compilation) (wrap : Failure → Failure) :
    Blind invariant (tryCatch compilation fun failure => throw (wrap failure)) := by
  intro session kept
  obtain ⟨left, alike⟩ := blind session kept
  simp only [outcome_rethrow]
  exact ⟨left, fun other further => by rw [alike other further]⟩

/-- What is seen of the session may be used, as long as it does not get into the result. -/
theorem Blind.get {next : Session → Compile α} (blind : ∀ seen, Blind invariant (next seen))
    (same : ∀ seen other session, (outcome (next seen) session).1 = (outcome (next other) session).1) :
    Blind invariant (MonadState.get >>= next) := by
  intro session kept
  obtain ⟨left, alike⟩ := blind session session kept
  refine ⟨left, ?_⟩
  intro other further
  exact (same other session other).trans (alike other further)

end Compile

namespace Compiler

open Compile

/-- What loading a file gives that was not loaded before. -/
def content (compiler : Compiler) (path : String) : Except Failure (List Node) :=
  (outcome (compiler.loadFile path) {}).1

/-- What is in the cache is what loading gives. -/
def Consistent (compiler : Compiler) (session : Session) : Prop :=
  ∀ path nodes, session.cache.find? path = some nodes → compiler.content path = .ok nodes

theorem consistent_empty (compiler : Compiler) : compiler.Consistent {} := by
  intro path nodes found
  cases found

theorem Consistent.insert {compiler : Compiler} {session : Session} (consistent : compiler.Consistent session)
    {path : String} {nodes : List Node} (loaded : compiler.content path = .ok nodes) :
    compiler.Consistent { session with cache := session.cache.insert path nodes } := by
  intro other content found
  simp only [IncludeCache.insert, IncludeCache.find?, List.lookup_cons] at found
  split at found
  next same =>
    cases found
    rw [beq_iff_eq.mp same]
    exact loaded
  next => exact consistent other content found

section Blind

variable (compiler : Compiler)

theorem blind_report (event : LogEvent) : Blind compiler.Consistent (report event) :=
  fun _ kept => ⟨kept, fun _ _ => rfl⟩

theorem blind_lift {α : Type} (result : Except Failure α) : Blind compiler.Consistent (loadFile.liftExcept result) := by
  cases result with
  | ok value => exact blind_pure value
  | error failure => exact blind_throw failure

theorem blind_reports (events : List ResolveEvent) :
    Blind compiler.Consistent (events.forM fun event => report (.resolve event)) := by
  induction events with
  | nil => exact blind_pure _
  | cons event events ih => exact (blind_report compiler _).bind fun _ => ih

theorem blind_resolveTop (path : String) (nodes : List Node) :
    Blind compiler.Consistent (compiler.resolveTop path nodes) := by
  unfold resolveTop
  split
  · exact blind_throw _
  · exact (blind_reports compiler _).bind fun _ => blind_pure _

theorem blind_loadFile (path : String) : Blind compiler.Consistent (compiler.loadFile path) := by
  by_cases ending : LowerCase.lowerText (Path.ext path) = sourceExt
  · rw [show compiler.loadFile path = _ from loadFile_source compiler.limit ending]
    refine (blind_lift compiler _).bind fun data => (blind_report compiler _).bind fun _ => ?_
    exact blind_resolveTop compiler path _
  · cases known : compiler.decoders.lookup (LowerCase.lowerText (Path.ext path)) with
    | none =>
      rw [show compiler.loadFile path = _ from loadFile_unknown compiler.limit ending known]
      exact blind_throw _
    | some decode =>
      rw [show compiler.loadFile path = _ from loadFile_drawing compiler.limit ending known]
      refine (blind_lift compiler _).bind fun data => (blind_report compiler _).bind fun _ => ?_
      exact (blind_lift compiler _).bind fun _ => blind_pure _

/-- Through the cache or not, loading a file gives the same. -/
theorem load_content {session : Session} (consistent : compiler.Consistent session) (path : String) :
    (outcome (compiler.load path) session).1 = compiler.content path ∧
      compiler.Consistent (outcome (compiler.load path) session).2 := by
  cases known : session.cache.find? path with
  | some nodes =>
    rw [load_known known]
    exact ⟨(consistent path nodes known).symm, consistent⟩
  | none =>
    rw [load_fresh known]
    obtain ⟨left, alike⟩ := blind_loadFile compiler path session consistent
    have same : compiler.content path = (outcome (compiler.loadFile path) session).1 :=
      alike {} (consistent_empty compiler)
    cases run : outcome (compiler.loadFile path) session with
    | mk result middle =>
      rw [run] at left same
      cases result with
      | error failure =>
        rw [outcome_bind_error run]
        exact ⟨same.symm, left⟩
      | ok nodes =>
        rw [outcome_bind_ok run]
        exact ⟨same.symm, left.insert same⟩

theorem blind_load (path : String) : Blind compiler.Consistent (compiler.load path) := by
  intro session consistent
  obtain ⟨same, left⟩ := load_content compiler consistent path
  refine ⟨left, ?_⟩
  intro other further
  rw [same, (load_content compiler further path).1]

theorem blind_fetch (path target : String) : Blind compiler.Consistent (compiler.fetch path target) := by
  refine Blind.get (fun seen => ?_) fun seen other session => ?_
  · refine ((blind_load compiler target).rethrow _).bind fun nodes => ?_
    exact (blind_report compiler _).bind fun _ => blind_pure nodes
  -- whether the file was in the cache is reported, and nothing else
  · cases run : outcome (tryCatch (compiler.load target) fun failure => throw (.including target failure)) session with
    | mk result middle =>
      cases result with
      | error failure => rw [outcome_bind_error run, outcome_bind_error run]
      | ok nodes =>
        rw [outcome_bind_ok run, outcome_bind_ok run]
        rfl

theorem blind_splice (path : String) (nodes : List Node) (rules : List (Rule Node)) :
    Blind compiler.Consistent (compiler.splice path nodes rules) := by
  unfold splice
  split
  · exact blind_pure _
  · exact blind_resolveTop compiler path _

theorem modular_blind : Modular fun program _ =>
    ∀ limit sheet, Blind compiler.Consistent ((program limit).run sheet) := by
  constructor
  · intro α value limit sheet
    exact blind_pure _
  · intro α β first next told more holds rest limit sheet
    rw [StateT.run_bind]
    exact (holds limit sheet).bind fun value => rest value.1 limit value.2
  · intro α program told less holds _
    exact holds

theorem blind_expandNodes {inclusion : Command Node → Expand (List Node)}
    (each : ∀ command sheet, Blind compiler.Consistent ((inclusion command).run sheet)) (nodes : List Node)
    (sheet : FormulaSheet) : Blind compiler.Consistent ((expandNodes inclusion nodes).run sheet) :=
  @Modular.expandNodes _ (modular_blind compiler) (fun _ => inclusion) (fun _ => True) nodes
    (fun command _ _ => each command) 0 sheet

theorem blind_includeFile (depth : Nat) (path : String) (chain : List String) (extract : Bool) (command : Command Node)
    (sheet : FormulaSheet) :
    Blind compiler.Consistent ((compiler.includeFile depth path chain extract command).run sheet) := by
  induction depth generalizing path chain extract command sheet with
  | zero => exact blind_throw _
  | succ depth ih =>
    rw [includeFile_run]
    split
    · exact blind_throw _
    · refine (blind_fetch compiler path _).bind fun nodes => ?_
      unfold place
      dsimp only
      split
      · exact (blind_splice compiler path nodes _).bind fun _ => blind_pure _
      · exact (blind_expandNodes compiler (ih _ _ _) nodes _).bind fun _ => blind_pure _

theorem blind_finish (path : String) (nodes : List Node) (extract : Bool) :
    Blind compiler.Consistent (compiler.finish path nodes extract) := by
  refine (blind_expandNodes compiler (blind_includeFile compiler _ _ _ _) nodes {}).bind fun result => ?_
  dsimp only
  split <;> exact blind_pure _

theorem blind_compileFile (path : String) (extract : Bool) :
    Blind compiler.Consistent (compiler.compileFile path extract) :=
  ((blind_load compiler _).bind fun nodes => blind_finish compiler _ nodes extract).rethrow _

theorem blind_compile (path : String) : Blind compiler.Consistent (compiler.compile path) :=
  blind_compileFile compiler path true

theorem blind_compileLatex (path : String) : Blind compiler.Consistent (compiler.compileLatex path) :=
  (blind_compileFile compiler path false).bind fun _ => blind_pure _

theorem blind_compileSource (path : String) (source : Bytes) :
    Blind compiler.Consistent (compiler.compileSource path source) :=
  (blind_resolveTop compiler _ _).bind fun nodes => blind_finish compiler _ nodes true

end Blind

end Compiler
end Manuscript
