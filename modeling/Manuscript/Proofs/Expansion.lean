import Manuscript.Proofs.Loading

/-! Expansion, inclusion by inclusion. What holds of each inclusion of a file, and of programs put together from others
of which it holds, holds of the expansion of the file. -/

namespace Manuscript.Compiler

open Compile

/-- A property of programs that is kept when they are put together, with what their success tells. -/
structure Modular (P : ∀ {α : Type}, (Nat → Expand α) → Prop → Prop) : Prop where
  pure : ∀ {α : Type} (value : α), P (fun _ => Pure.pure value) True
  bind : ∀ {α β : Type} {first : Nat → Expand α} {next : Nat → α → Expand β} {told more : Prop}, P first told →
    (∀ value, P (fun limit => next limit value) more) → P (fun limit => first limit >>= next limit) (told ∧ more)
  mono : ∀ {α : Type} {program : Nat → Expand α} {told less : Prop}, P program told → (told → less) → P program less

section Modular

variable {P : ∀ {α : Type}, (Nat → Expand α) → Prop → Prop} (modular : Modular P)
  {inclusion : Nat → Command Node → Expand (List Node)} {told : Command Node → Prop}

include modular

theorem Modular.map {α β : Type} {program : Nat → Expand α} {fact : Prop} (holds : P program fact) (make : α → β) :
    P (fun limit => program limit >>= fun value => Pure.pure (make value)) fact :=
  modular.mono (modular.bind holds fun value => modular.pure (make value)) And.left

mutual

theorem Modular.expandNode (node : Node)
    (each : ∀ command ∈ inclusions node, P (fun limit => inclusion limit command) (told command)) :
    P (fun limit => Compiler.expandNode (inclusion limit) node) (∀ command ∈ inclusions node, told command) := by
  match node with
  | .command ⟨ident, attributes, args, declaration, rules⟩ =>
    simp only [inclusions, Compiler.expandNode] at each ⊢
    split at each
    next included =>
      simp only [included, if_true, List.forall_mem_singleton] at each ⊢
      exact modular.map each _
    next other =>
      simp only [other] at each ⊢
      exact modular.map (Modular.expandNodes args each) _
  | .bracket ⟨kind, opening, closing, children⟩ =>
    simp only [inclusions, Compiler.expandNode] at each ⊢
    exact modular.map (Modular.expandNodes children each) _
  | .quotation opening closing children =>
    simp only [inclusions, Compiler.expandNode] at each ⊢
    exact modular.map (Modular.expandNodes children each) _
  | .fragment children =>
    simp only [inclusions, Compiler.expandNode] at each ⊢
    exact modular.map (Modular.expandNodes children each) _
  | .hole | .text _ _ | .symbol _ _ | .ident _ | .stray _ | .drawing _ | .tag _ =>
    simp only [inclusions, Compiler.expandNode, List.not_mem_nil, false_implies, implies_true]
    exact modular.pure _
termination_by structural node

theorem Modular.expandNodes (nodes : List Node)
    (each : ∀ command ∈ inclusionsOf nodes, P (fun limit => inclusion limit command) (told command)) :
    P (fun limit => Compiler.expandNodes (inclusion limit) nodes) (∀ command ∈ inclusionsOf nodes, told command) := by
  match nodes with
  | [] =>
    simp only [inclusionsOf, Compiler.expandNodes, List.not_mem_nil, false_implies, implies_true]
    exact modular.pure _
  | node :: rest =>
    simp only [inclusionsOf, Compiler.expandNodes, List.forall_mem_append] at each ⊢
    exact modular.bind (Modular.expandNode node each.1) fun value =>
      modular.map (Modular.expandNodes rest each.2) _
termination_by structural nodes

end

end Modular

/-- What an included file leaves, once its own inclusions are expanded. -/
def conclude (adjustment : Outline.Adjustment) (extract : Bool) (sheet : FormulaSheet)
    (expanded : List Node × FormulaSheet) : List Node × FormulaSheet :=
  let nodes := Outline.adjust adjustment expanded.1
  if adjustment.tocOnly then ((Outline.collect nodes).map .command, sheet)
  else if extract then
    let (nodes, inner) := (extractFormulas nodes).run expanded.2
    (nodes, sheet.merge inner)
  else (nodes, sheet)

/-- The inclusions inside the file that an inclusion leads to. -/
def nested (compiler : Compiler) (depth : Nat) (path : String) (chain : List String) (extract : Bool)
    (command : Command Node) : Command Node → Expand (List Node) :=
  compiler.includeFile depth (target path command) (chain ++ [target path command])
    (extract && !(compiler.adjustment (target path command) command).tocOnly)

/-- What is made of a loaded file in the place of its inclusion. -/
def place (compiler : Compiler) (depth : Nat) (path : String) (chain : List String) (extract : Bool)
    (command : Command Node) (sheet : FormulaSheet) (nodes : List Node) : Compile (List Node × FormulaSheet) :=
  let adjustment := compiler.adjustment (target path command) command
  if Path.ext (target path command) ≠ sourceExt then do pure (← compiler.splice path nodes command.rules, sheet)
  else do
    let expanded ← (expandNodes (compiler.nested depth path chain extract command) nodes).run sheet.successor
    pure (conclude adjustment (extract && !adjustment.tocOnly) sheet expanded)

def fetch (compiler : Compiler) (path target : String) : Compile (List Node) := do
  let session ← get
  let nodes ← tryCatch (compiler.load target) fun failure => throw (.including target failure)
  report (.included target path (session.cache.cached target))
  pure nodes

theorem run_rethrow {α : Type} (compilation : Compile α) (wrap : Failure → Failure) (sheet : FormulaSheet) :
    (tryCatch (liftM compilation : Expand α) fun failure => throw (wrap failure)).run sheet =
      (do
        let value ← tryCatch compilation fun failure => throw (wrap failure)
        pure (value, sheet) : Compile (α × FormulaSheet)) := by
  funext session
  have left : (tryCatch (liftM compilation : Expand α) fun failure => throw (wrap failure)).run sheet =
    (tryCatch (compilation >>= fun value => pure (value, sheet)) fun failure => throw (wrap failure) : Compile _) := rfl
  rw [left]
  show outcome _ session = outcome _ session
  rw [outcome_rethrow]
  cases run : outcome compilation session with
  | mk given after =>
    cases given with
    | ok value =>
      rw [outcome_bind_ok run, outcome_bind_ok (by rw [outcome_rethrow, run]; rfl)]
      rfl
    | error failure =>
      rw [outcome_bind_error run, outcome_bind_error (by rw [outcome_rethrow, run]; rfl)]
      rfl

theorem includeFile_run (compiler : Compiler) (depth : Nat) (path : String) (chain : List String) (extract : Bool)
    (command : Command Node) (sheet : FormulaSheet) :
    (compiler.includeFile (depth + 1) path chain extract command).run sheet =
      if chain.contains (target path command) then throw (.including (target path command) .includeCycle)
      else compiler.fetch path (target path command) >>= compiler.place depth path chain extract command sheet := by
  rw [includeFile]
  dsimp only
  split
  · rfl
  · have got : (getThe Session : Expand Session).run sheet = (get >>= fun session => pure (session, sheet)) := rfl
    have lifted {α : Type} (compilation : Compile α) (sheet : FormulaSheet) :
      (liftM compilation : Expand α).run sheet = (compilation >>= fun value => pure (value, sheet)) := rfl
    simp only [StateT.run_bind, run_rethrow, bind_assoc, pure_bind, fetch, got, lifted]
    apply bind_congr
    intro session
    apply bind_congr
    intro nodes
    apply bind_congr
    intro _
    unfold place
    dsimp only
    split
    · exact lifted ..
    · simp only [StateT.run_bind, StateT.run_get, lifted, bind_assoc, pure_bind]
      apply bind_congr
      intro expanded
      unfold conclude
      dsimp only
      split
      · rfl
      · split <;> rfl

theorem keeps_fetch (compiler : Compiler) (limit : Nat) (path target : String) :
    Keeps compiler.Faithful (compiler.Loads target) ((compiler.within limit).fetch path target) := by
  apply keeps_get.bind
  intro session _
  apply ((keeps_load compiler limit target).rethrow _).bind
  intro nodes loads
  apply (keeps_report compiler _).bind
  intro _ _
  exact keeps_pure loads

theorem settles_fetch {compiler : Compiler} {page target : String} (resolvable : compiler.Resolvable page)
    (reached : compiler.Reached page target) (path : String) {session : Session} (faithful : compiler.Faithful session) :
    Settles (fun limit => (compiler.within limit).fetch path target) session := by
  have wrapped (failure : Failure) : (Failure.including target failure).roots = failure.roots := by rw [Failure.roots]
  refine Settles.bind (settles_const id) (fun _ => keeps_get) faithful ?_
  intro before middle _ kept
  refine ((settles_load resolvable reached kept).rethrow wrapped).bind
    (fun limit => (keeps_load compiler limit target).rethrow _) kept ?_
  intro nodes last _ left
  refine (settles_report _ last).bind (fun _ => keeps_report compiler _) left ?_
  intro _ _ _ _
  exact settles_const id

theorem modular_keeps (compiler : Compiler) : Modular fun program told =>
    ∀ limit sheet, Keeps compiler.Faithful (fun _ => told) ((program limit).run sheet) := by
  constructor
  · intro α value limit sheet
    exact keeps_pure trivial
  · intro α β first next told more holds rest limit sheet
    simp only [StateT.run_bind]
    apply (holds limit sheet).bind
    intro value fact
    exact (rest value.1 limit value.2).mono fun _ further => ⟨fact, further⟩
  · intro α program told less holds weaker limit sheet
    exact (holds limit sheet).mono fun _ => weaker

theorem keeps_expandNodes (compiler : Compiler) (inclusion : Nat → Command Node → Expand (List Node))
    {told : Command Node → Prop}
    (each : ∀ limit command sheet, Keeps compiler.Faithful (fun _ => told command) ((inclusion limit command).run sheet))
    (limit : Nat) (nodes : List Node) (sheet : FormulaSheet) :
    Keeps compiler.Faithful (fun _ => ∀ command ∈ inclusionsOf nodes, told command)
      ((expandNodes (inclusion limit) nodes).run sheet) :=
  (modular_keeps compiler).expandNodes nodes (fun command _ limit sheet => each limit command sheet) limit sheet

theorem modular_settles (compiler : Compiler) : Modular fun program _ =>
    (∀ limit sheet, Keeps compiler.Faithful (fun _ => True) ((program limit).run sheet)) ∧
      ∀ sheet session, compiler.Faithful session → Settles (fun limit => (program limit).run sheet) session := by
  have keeps := modular_keeps compiler
  constructor
  · intro α value
    exact ⟨keeps.pure value, fun sheet session _ => settles_const id⟩
  · intro α β first next told more holds rest
    have kept := keeps.mono (keeps.bind holds.1 fun value => (rest value).1) fun _ => trivial
    refine ⟨kept, ?_⟩
    intro sheet session faithful
    simp only [StateT.run_bind]
    refine (holds.2 sheet session faithful).bind (fun limit => holds.1 limit sheet) faithful ?_
    intro value middle _ left
    exact (rest value.1).2 value.2 middle left
  · intro α program told less holds _
    exact holds

theorem settles_expandNodes {compiler : Compiler} {inclusion : Nat → Command Node → Expand (List Node)}
    (keeps : ∀ limit command sheet, Keeps compiler.Faithful (fun _ => True) ((inclusion limit command).run sheet))
    {nodes : List Node}
    (settles : ∀ command ∈ inclusionsOf nodes, ∀ sheet session, compiler.Faithful session →
      Settles (fun limit => (inclusion limit command).run sheet) session)
    (sheet : FormulaSheet) {session : Session} (faithful : compiler.Faithful session) :
    Settles (fun limit => (expandNodes (inclusion limit) nodes).run sheet) session := by
  have each (command : Command Node) (member : command ∈ inclusionsOf nodes) :=
    And.intro (fun limit sheet => keeps limit command sheet) (settles command member)
  exact (@Modular.expandNodes _ (modular_settles compiler) inclusion (fun _ => True) nodes each).2 sheet session faithful

end Manuscript.Compiler
