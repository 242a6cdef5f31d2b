import Manuscript.Project.Compiler
import Mathlib.Order.Lattice

/-! Outcomes of compilations. A compilation that is bounded by a limit settles when it has one outcome from some limit
on, and this outcome is not that the limit was too low. Steps that settle do so one after the other. -/

namespace Manuscript.Compile

/-- What a compilation gives, and what it leaves for the next. -/
def outcome {α : Type} (compilation : Compile α) (session : Session) : Except Failure α × Session :=
  compilation.run.run session

variable {α β : Type}

@[simp] theorem outcome_pure (value : α) (session : Session) : outcome (pure value) session = (.ok value, session) := rfl

@[simp] theorem outcome_throw (failure : Failure) (session : Session) :
    outcome (throw failure : Compile α) session = (.error failure, session) := rfl

theorem outcome_get_bind (next : Session → Compile α) (session : Session) :
    outcome (get >>= next) session = outcome (next session) session := rfl

theorem outcome_bind_ok {compilation : Compile α} {session middle : Session} {value : α}
    (first : outcome compilation session = (.ok value, middle)) (next : α → Compile β) :
    outcome (compilation >>= next) session = outcome (next value) middle := by
  unfold outcome at *
  simp only [ExceptT.run_bind, StateT.run_bind, first]
  rfl

theorem outcome_bind_error {compilation : Compile α} {session middle : Session} {failure : Failure}
    (first : outcome compilation session = (.error failure, middle)) (next : α → Compile β) :
    outcome (compilation >>= next) session = (.error failure, middle) := by
  unfold outcome at *
  simp only [ExceptT.run_bind, StateT.run_bind, first]
  rfl

theorem outcome_rethrow (compilation : Compile α) (wrap : Failure → Failure) (session : Session) :
    outcome (tryCatch compilation fun failure => throw (wrap failure)) session =
      ((outcome compilation session).1.mapError wrap, (outcome compilation session).2) := by
  cases run : outcome compilation session with
  | mk given after =>
    unfold outcome at *
    simp only [tryCatch, tryCatchThe, MonadExceptOf.tryCatch, ExceptT.tryCatch, ExceptT.run_mk, StateT.run_bind]
    rw [show StateT.run compilation session = (given, after) from run]
    cases given <;> rfl

/-- Leaves sessions as `invariant` says they are, and gives values of which `holds` is true. -/
def Keeps (invariant : Session → Prop) (holds : α → Prop) (compilation : Compile α) : Prop :=
  ∀ session, invariant session → invariant (outcome compilation session).2 ∧
    ∀ value, (outcome compilation session).1 = .ok value → holds value

variable {invariant : Session → Prop} {holds : α → Prop} {further : β → Prop}

theorem keeps_pure {value : α} (true : holds value) : Keeps invariant holds (pure value) := by
  intro session kept
  refine ⟨kept, ?_⟩
  intro other same
  cases same
  exact true

theorem keeps_throw (failure : Failure) : Keeps invariant holds (throw failure) := by
  intro session kept
  refine ⟨kept, ?_⟩
  intro value impossible
  cases impossible

theorem keeps_get : Keeps invariant (fun _ => True) (get : Compile Session) := by
  intro session kept
  exact ⟨kept, fun _ _ => trivial⟩

theorem Keeps.bind {compilation : Compile α} {next : α → Compile β} (first : Keeps invariant holds compilation)
    (second : ∀ value, holds value → Keeps invariant further (next value)) :
    Keeps invariant further (compilation >>= next) := by
  intro session kept
  obtain ⟨left, given⟩ := first session kept
  cases run : outcome compilation session with
  | mk result middle =>
    rw [run] at left given
    cases result with
    | ok value =>
      rw [outcome_bind_ok run]
      exact second value (given value rfl) middle left
    | error failure =>
      rw [outcome_bind_error run]
      refine ⟨left, ?_⟩
      intro value impossible
      cases impossible

theorem Keeps.mono {compilation : Compile α} {less : α → Prop} (keeps : Keeps invariant holds compilation)
    (weaker : ∀ value, holds value → less value) : Keeps invariant less compilation := by
  intro session kept
  obtain ⟨left, given⟩ := keeps session kept
  exact ⟨left, fun value same => weaker value (given value same)⟩

theorem Keeps.rethrow {compilation : Compile α} (keeps : Keeps invariant holds compilation) (wrap : Failure → Failure) :
    Keeps invariant holds (tryCatch compilation fun failure => throw (wrap failure)) := by
  intro session kept
  obtain ⟨left, given⟩ := keeps session kept
  rw [outcome_rethrow]
  refine ⟨left, ?_⟩
  intro value same
  cases result : (outcome compilation session).1 with
  | ok other =>
    rw [result] at same
    cases same
    exact given value result
  | error failure =>
    rw [result] at same
    cases same

/-- The limit was too low. -/
def Deep : Except Failure α → Prop
  | .ok _ => False
  | .error failure => .tooDeep ∈ failure.roots

/-- From some limit on, a compilation has one outcome, for which the limit is no reason. -/
def Settles (family : Nat → Compile α) (session : Session) : Prop :=
  ∃ limit result, ¬Deep result.1 ∧ ∀ more, limit ≤ more → outcome (family more) session = result

theorem settles_const {compilation : Compile α} {session : Session} (honest : ¬Deep (outcome compilation session).1) :
    Settles (fun _ => compilation) session := ⟨0, _, honest, fun _ _ => rfl⟩

theorem Settles.of_le {family other : Nat → Compile α} {session : Session} (settles : Settles other session)
    {limit : Nat} (same : ∀ more, limit ≤ more → family more = other more) : Settles family session := by
  obtain ⟨bound, result, honest, reached⟩ := settles
  refine ⟨max limit bound, result, honest, ?_⟩
  intro more enough
  rw [same more ((le_max_left ..).trans enough), reached more ((le_max_right ..).trans enough)]

theorem Settles.bind {family : Nat → Compile α} {next : Nat → α → Compile β} {session : Session}
    (settles : Settles family session) (keeps : ∀ limit, Keeps invariant holds (family limit)) (kept : invariant session)
    (rest : ∀ value middle, holds value → invariant middle → Settles (fun limit => next limit value) middle) :
    Settles (fun limit => family limit >>= next limit) session := by
  obtain ⟨limit, ⟨given, middle⟩, honest, reached⟩ := settles
  obtain ⟨left, true⟩ := keeps limit session kept
  rw [reached limit le_rfl] at left true
  cases given with
  | error failure =>
    refine ⟨limit, (.error failure, middle), honest, ?_⟩
    intro more enough
    exact outcome_bind_error (reached more enough) _
  | ok value =>
    obtain ⟨bound, result, certain, found⟩ := rest value middle (true value rfl) left
    refine ⟨max limit bound, result, certain, ?_⟩
    intro more enough
    rw [outcome_bind_ok (reached more ((le_max_left ..).trans enough))]
    exact found more ((le_max_right ..).trans enough)

theorem Settles.rethrow {family : Nat → Compile α} {session : Session} (settles : Settles family session)
    {wrap : Failure → Failure} (same : ∀ failure, (wrap failure).roots = failure.roots) :
    Settles (fun limit => tryCatch (family limit) fun failure => throw (wrap failure)) session := by
  obtain ⟨limit, ⟨given, after⟩, honest, reached⟩ := settles
  refine ⟨limit, (given.mapError wrap, after), ?_, ?_⟩
  · cases given with
    | ok value => exact id
    | error failure =>
      show .tooDeep ∉ (wrap failure).roots
      rw [same]
      exact honest
  · intro more enough
    rw [outcome_rethrow, reached more enough]

end Manuscript.Compile
