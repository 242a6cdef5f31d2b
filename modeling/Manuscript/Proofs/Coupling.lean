import Manuscript.Proofs.Assembly
import Manuscript.Proofs.History

/-! Two compilations side by side. Programs are coupled if they succeed together, with values that have to do with each
other, or fail together; programs that are put together from coupled ones are coupled, so what two inclusions make of
the same commands carries over to the files around them. -/

namespace Manuscript

/-- Two values, or two failures, that have to do with each other. -/
inductive Agree {α β : Type} (fail : Failure → Failure → Prop) (related : α → β → Prop) :
    Except Failure α → Except Failure β → Prop where
  | ok {value : α} {other : β} (same : related value other) : Agree fail related (.ok value) (.ok other)
  | error {failure other : Failure} (same : fail failure other) : Agree fail related (.error failure) (.error other)

section Agree

variable {α β : Type} {fail : Failure → Failure → Prop} {related : α → β → Prop} {one : Except Failure α}
  {other : Except Failure β}

theorem Agree.mono {less : Failure → Failure → Prop} {weaker : α → β → Prop} (agree : Agree fail related one other)
    (failures : ∀ failure twin, fail failure twin → less failure twin)
    (values : ∀ value twin, related value twin → weaker value twin) : Agree less weaker one other := by
  cases agree with
  | ok same => exact .ok (values _ _ same)
  | error same => exact .error (failures _ _ same)

theorem Agree.mapError {wrapped : Failure → Failure → Prop} {wrap rewrap : Failure → Failure}
    (agree : Agree fail related one other)
    (failures : ∀ failure twin, fail failure twin → wrapped (wrap failure) (rewrap twin)) :
    Agree wrapped related (one.mapError wrap) (other.mapError rewrap) := by
  cases agree with
  | ok same => exact .ok same
  | error same => exact .error (failures _ _ same)

theorem Agree.of_eq {one other : Except Failure α} (same : one = other) : Agree Eq Eq one other := by
  subst same
  cases one with
  | ok value => exact .ok rfl
  | error failure => exact .error rfl

/-- What two results have to do with each other may tell what the first one is. -/
theorem Agree.remember (agree : Agree fail related one other) :
    Agree (fun failure twin => fail failure twin ∧ one = .error failure)
      (fun value twin => related value twin ∧ one = .ok value) one other := by
  cases agree with
  | ok same => exact .ok ⟨same, rfl⟩
  | error same => exact .error ⟨same, rfl⟩

end Agree

namespace Compile

variable {α β γ δ : Type} {meet : Session → Session → Prop} {fail : Failure → Failure → Prop} {related : α → β → Prop}
  {further : γ → δ → Prop}

/-- From sessions that go together, both give results that have to do with each other, and leave such sessions. -/
def Couples (meet : Session → Session → Prop) (fail : Failure → Failure → Prop) (related : α → β → Prop)
    (one : Compile α) (other : Compile β) : Prop :=
  ∀ session twin, meet session twin → meet (outcome one session).2 (outcome other twin).2 ∧
    Agree fail related (outcome one session).1 (outcome other twin).1

theorem couples_pure {value : α} {other : β} (same : related value other) :
    Couples meet fail related (pure value) (pure other) := fun _ _ together => ⟨together, .ok same⟩

theorem couples_throw {failure other : Failure} (same : fail failure other) :
    Couples meet fail related (throw failure) (throw other) := fun _ _ together => ⟨together, .error same⟩

theorem Couples.bind {one : Compile α} {other : Compile β} {next : α → Compile γ} {more : β → Compile δ}
    (first : Couples meet fail related one other)
    (second : ∀ value twin, related value twin → Couples meet fail further (next value) (more twin)) :
    Couples meet fail further (one >>= next) (other >>= more) := by
  intro session twin together
  obtain ⟨left, agree⟩ := first session twin together
  cases run : outcome one session with
  | mk given middle =>
    cases rerun : outcome other twin with
    | mk granted midway =>
      rw [run, rerun] at left agree
      cases agree with
      | ok same =>
        rw [outcome_bind_ok run, outcome_bind_ok rerun]
        exact second _ _ same middle midway left
      | error same =>
        rw [outcome_bind_error run, outcome_bind_error rerun]
        exact ⟨left, .error same⟩

theorem Couples.mono {weaker : α → β → Prop} {one : Compile α} {other : Compile β}
    (couples : Couples meet fail related one other) (values : ∀ value twin, related value twin → weaker value twin) :
    Couples meet fail weaker one other := by
  intro session twin together
  obtain ⟨left, agree⟩ := couples session twin together
  exact ⟨left, agree.mono (fun _ _ same => same) values⟩

theorem Couples.rethrow {wrapped : Failure → Failure → Prop} {wrap rewrap : Failure → Failure} {one : Compile α}
    {other : Compile β} (couples : Couples meet fail related one other)
    (failures : ∀ failure twin, fail failure twin → wrapped (wrap failure) (rewrap twin)) :
    Couples meet wrapped related (tryCatch one fun failure => throw (wrap failure))
      (tryCatch other fun failure => throw (rewrap failure)) := by
  intro session twin together
  obtain ⟨left, agree⟩ := couples session twin together
  simp only [outcome_rethrow]
  exact ⟨left, agree.mapError failures⟩

theorem couples_get {next : Session → Compile α} {more : Session → Compile β}
    (couples : ∀ seen other, Couples meet fail related (next seen) (more other)) :
    Couples meet fail related (MonadState.get >>= next) (MonadState.get >>= more) :=
  fun session twin together => couples session twin session twin together

end Compile

namespace Compiler

open Compile

variable {meet : Session → Session → Prop} {fail : Failure → Failure → Prop}

/-- A relation between trees that goes through the nodes into which expansion looks, if commands are good. -/
structure Congruence (good : Ident → Option Attributes → Option Declaration → Prop)
    (related : List Node → List Node → Prop) : Prop where
  nil : related [] []
  passed : ∀ {node : Node} {rest left : List Node}, node.isPassed = true → node.Declared good → related rest left →
    related (node :: rest) (node :: left)
  command : ∀ {ident : Ident} {attributes : Option Attributes} {args inner : List Node}
    {declaration : Option Declaration} {rules : List (Rule Node)} {rest left : List Node},
    good ident attributes declaration → RulesDeclared good rules → related args inner → related rest left →
    related (.command ⟨ident, attributes, args, declaration, rules⟩ :: rest)
      (.command ⟨ident, attributes, inner, declaration, rules⟩ :: left)
  bracket : ∀ {kind : BracketKind} {opening closing : Option Token} {children inner rest left : List Node},
    related children inner → related rest left →
    related (.bracket ⟨kind, opening, closing, children⟩ :: rest) (.bracket ⟨kind, opening, closing, inner⟩ :: left)
  quotation : ∀ {opening closing : Option Token} {children inner rest left : List Node},
    related children inner → related rest left →
    related (.quotation opening closing children :: rest) (.quotation opening closing inner :: left)
  fragment : ∀ {children inner rest left : List Node}, related children inner → related rest left →
    related (.fragment children :: rest) (.fragment inner :: left)

/-- Results of expansion: related trees, and sheets that have to do with each other. -/
def Both (related : List Node → List Node → Prop) (sheets : FormulaSheet → FormulaSheet → Prop)
    (one other : List Node × FormulaSheet) : Prop :=
  related one.1 other.1 ∧ sheets one.2 other.2

section Expand

variable {good : Ident → Option Attributes → Option Declaration → Prop} {related : List Node → List Node → Prop}
  {sheets : FormulaSheet → FormulaSheet → Prop} {one other : Command Node → Expand (List Node)}
  (congruence : Congruence good related)

include congruence

mutual

theorem couples_expandNode (node : Node) (declared : node.Declared good)
    (each : ∀ command ∈ inclusions node, (Node.command command).Declared good → ∀ sheet twin, sheets sheet twin →
      Couples meet fail (Both related sheets) ((one command).run sheet) ((other command).run twin))
    (sheet twin : FormulaSheet) (together : sheets sheet twin) :
    Couples meet fail (fun given left => (∀ rest others, related rest others →
        related (given.1 :: rest) (left.1 :: others)) ∧ sheets given.2 left.2)
      ((expandNode one node).run sheet) ((expandNode other node).run twin) := by
  match node with
  | .command ⟨ident, attributes, args, declaration, rules⟩ =>
    unfold inclusions at each
    unfold expandNode
    split at each
    next included =>
      rw [if_pos included, if_pos included, StateT.run_bind, StateT.run_bind]
      refine (each _ (List.mem_singleton_self _) declared sheet twin together).bind fun given left both => ?_
      exact couples_pure ⟨fun _ _ later => congruence.fragment both.1 later, both.2⟩
    next plain =>
      rw [if_neg plain, if_neg plain, StateT.run_bind, StateT.run_bind]
      refine (couples_expandNodes args declared.2.1 each sheet twin together).bind fun given left both => ?_
      exact couples_pure ⟨fun _ _ later => congruence.command declared.1 declared.2.2 both.1 later, both.2⟩
  | .bracket ⟨kind, opening, closing, children⟩ =>
    simp only [expandNode, StateT.run_bind]
    refine (couples_expandNodes children declared each sheet twin together).bind fun given left both => ?_
    exact couples_pure ⟨fun _ _ later => congruence.bracket both.1 later, both.2⟩
  | .quotation opening closing children =>
    simp only [expandNode, StateT.run_bind]
    refine (couples_expandNodes children declared each sheet twin together).bind fun given left both => ?_
    exact couples_pure ⟨fun _ _ later => congruence.quotation both.1 later, both.2⟩
  | .fragment children =>
    simp only [expandNode, StateT.run_bind]
    refine (couples_expandNodes children declared each sheet twin together).bind fun given left both => ?_
    exact couples_pure ⟨fun _ _ later => congruence.fragment both.1 later, both.2⟩
  | .hole | .text _ _ | .symbol _ _ | .ident _ | .stray _ | .drawing _ | .tag _ =>
    exact couples_pure ⟨fun _ _ later => congruence.passed rfl declared later, together⟩
termination_by structural node

/-- Expansions of the same nodes are coupled if the inclusions are. -/
theorem couples_expandNodes (nodes : List Node) (declared : Declared good nodes)
    (each : ∀ command ∈ inclusionsOf nodes, (Node.command command).Declared good → ∀ sheet twin, sheets sheet twin →
      Couples meet fail (Both related sheets) ((one command).run sheet) ((other command).run twin))
    (sheet twin : FormulaSheet) (together : sheets sheet twin) :
    Couples meet fail (Both related sheets) ((expandNodes one nodes).run sheet)
      ((expandNodes other nodes).run twin) := by
  match nodes with
  | [] => exact couples_pure ⟨congruence.nil, together⟩
  | node :: rest =>
    rw [inclusionsOf, List.forall_mem_append] at each
    simp only [expandNodes, StateT.run_bind]
    refine (couples_expandNode node declared.1 each.1 sheet twin together).bind fun first others both => ?_
    refine (couples_expandNodes rest declared.2 each.2 _ _ both.2).bind fun given left later => ?_
    exact couples_pure ⟨both.1 _ _ later.1, later.2⟩
termination_by structural nodes

end

end Expand

section Load

variable {compiler twin : Compiler} {path other : String}

/-- Two sessions whose caches hold what loading gives, each for a compiler of its own. -/
def Meet (compiler twin : Compiler) (session other : Session) : Prop :=
  compiler.Consistent session ∧ twin.Consistent other

theorem couples_report (event more : LogEvent) :
    Couples (Meet compiler twin) fail (fun _ _ => True) (report event) (report more) :=
  fun _ _ together => ⟨together, .ok trivial⟩

theorem outcome_reports (events : List ResolveEvent) (session : Session) :
    ∃ log, outcome (events.forM fun event => report (.resolve event)) session = (.ok (), { session with log }) := by
  induction events generalizing session with
  | nil => exact ⟨session.log, rfl⟩
  | cons event events ih =>
    have first : outcome (report (.resolve event)) session =
        (.ok (), { session with log := session.log.push (.resolve event) }) := rfl
    obtain ⟨log, later⟩ := ih { session with log := session.log.push (.resolve event) }
    exact ⟨log, (outcome_bind_ok first _).trans later⟩

theorem couples_reports (events more : List ResolveEvent) :
    Couples (Meet compiler twin) fail (fun _ _ => True) (events.forM fun event => report (.resolve event))
      (more.forM fun event => report (.resolve event)) := by
  intro session session' together
  obtain ⟨log, given⟩ := outcome_reports events session
  obtain ⟨others, granted⟩ := outcome_reports more session'
  rw [given, granted]
  exact ⟨together, .ok trivial⟩

/-- Two lists that resolve to the same nodes, whatever is reported. -/
theorem couples_resolveTop (deep : fail .tooDeep .tooDeep) {nodes others : List Node}
    (same : (resolve compiler.registry compiler.limit (.top path) nodes).map Prod.fst =
      (resolve twin.registry twin.limit (.top other) others).map Prod.fst) :
    Couples (Meet compiler twin) fail (fun left given => left = given ∧ ∃ events,
        resolve compiler.registry compiler.limit (.top path) nodes = some (left, events))
      (compiler.resolveTop path nodes) (twin.resolveTop other others) := by
  unfold resolveTop
  cases found : resolve compiler.registry compiler.limit (.top path) nodes with
  | none =>
    rw [found, Option.map_none, eq_comm, Option.map_eq_none_iff] at same
    rw [same]
    exact couples_throw deep
  | some result =>
    rw [found, Option.map_some, eq_comm, Option.map_eq_some_iff] at same
    obtain ⟨⟨left, events⟩, resolved, rfl⟩ := same
    rw [resolved]
    exact (couples_reports _ _).bind fun _ _ _ => couples_pure ⟨rfl, result.2, rfl⟩

/-- The same drawings are put into the same rules in two files. -/
theorem couples_splice (deep : fail .tooDeep .tooDeep) (drawings : List Node) (rules : List (Rule Node))
    (same : ∀ nodes, (resolve compiler.registry compiler.limit (.top path) nodes).map Prod.fst =
      (resolve twin.registry twin.limit (.top other) nodes).map Prod.fst) :
    Couples (Meet compiler twin) fail (fun left given => left = given ∧ compiler.Spliced path drawings rules left)
      (compiler.splice path drawings rules) (twin.splice other drawings rules) := by
  unfold splice
  split
  next none =>
    rw [List.isEmpty_iff.mp none]
    exact couples_pure ⟨rfl, .plain⟩
  next some =>
    refine (couples_resolveTop deep (same _)).mono fun left given resolved => ?_
    obtain ⟨rfl, events, found⟩ := resolved
    exact ⟨rfl, .filled (fun none => some (List.isEmpty_iff.mpr none)) found⟩

theorem loads_of_content {nodes : List Node} (given : compiler.content path = .ok nodes) : compiler.Loads path nodes :=
  (keeps_loadFile compiler compiler.limit path {} (faithful_empty compiler)).2 nodes given

/-- Loading is coupled if what it gives without a cache is. -/
theorem couples_load {related : List Node → List Node → Prop}
    (agree : Agree fail related (compiler.content path) (twin.content other)) :
    Couples (Meet compiler twin) fail related (compiler.load path) (twin.load other) := by
  intro session session' together
  obtain ⟨given, left⟩ := load_content compiler together.1 path
  obtain ⟨granted, leaves⟩ := load_content twin together.2 other
  rw [given, granted]
  exact ⟨⟨left, leaves⟩, agree⟩

/-- So is loading for an inclusion, up to the paths that are named when it fails. -/
theorem couples_fetch {less : Failure → Failure → Prop} {related : List Node → List Node → Prop}
    {target aim : String} (agree : Agree less related (compiler.content target) (twin.content aim))
    (wraps : ∀ failure failure', less failure failure' → fail (.including target failure) (.including aim failure')) :
    Couples (Meet compiler twin) fail related (compiler.fetch path target) (twin.fetch other aim) := by
  refine couples_get fun seen noticed => ?_
  refine ((couples_load agree).rethrow wraps).bind fun nodes others same => ?_
  exact (couples_report _ _).bind fun _ _ _ => couples_pure same

end Load

end Compiler
end Manuscript
