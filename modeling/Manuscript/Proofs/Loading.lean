import Manuscript.Proofs.IncludeChain
import Manuscript.Proofs.Settling

/-! Loading settles. The cache of a session holds what the files of the project contain, so a file has one content for
all inclusions of it; and a load settles when the content of the file can be resolved. -/

namespace Manuscript.Compiler

open Compile

def within (compiler : Compiler) (limit : Nat) : Compiler := { compiler with limit }

/-- What is in the cache is what files contain. -/
def Faithful (compiler : Compiler) (session : Session) : Prop :=
  ∀ path nodes, session.cache.find? path = some nodes → compiler.Loads path nodes

theorem faithful_empty (compiler : Compiler) : compiler.Faithful {} := by
  intro path nodes found
  cases found

theorem Faithful.insert {compiler : Compiler} {session : Session} (faithful : compiler.Faithful session)
    {path : String} {nodes : List Node} (loads : compiler.Loads path nodes) :
    compiler.Faithful { session with cache := session.cache.insert path nodes } := by
  intro other content found
  simp only [IncludeCache.insert, IncludeCache.find?, List.lookup_cons] at found
  split at found
  next same =>
    cases found
    rw [beq_iff_eq.mp same]
    exact loads
  next => exact faithful other content found

theorem keeps_report (compiler : Compiler) (event : LogEvent) :
    Keeps compiler.Faithful (fun _ => True) (report event) := by
  intro session faithful
  exact ⟨faithful, fun _ _ => trivial⟩

theorem keeps_lift {α : Type} (compiler : Compiler) (result : Except Failure α) :
    Keeps compiler.Faithful (fun value => result = .ok value) (loadFile.liftExcept result) := by
  cases result with
  | ok value => exact keeps_pure rfl
  | error failure => exact keeps_throw failure

theorem settles_lift {α : Type} {result : Except Failure α} (honest : ¬Deep result) (session : Session) :
    Settles (fun _ => loadFile.liftExcept result) session := by
  apply settles_const
  cases result <;> exact honest

theorem settles_report (event : LogEvent) (session : Session) : Settles (fun _ => report event) session :=
  settles_const id

theorem keeps_reports (compiler : Compiler) (events : List ResolveEvent) :
    Keeps compiler.Faithful (fun _ => True) (events.forM fun event => report (.resolve event)) := by
  induction events with
  | nil => exact keeps_pure trivial
  | cons event events ih => exact (keeps_report compiler _).bind fun _ _ => ih

theorem settles_reports (compiler : Compiler) (events : List ResolveEvent) {session : Session}
    (faithful : compiler.Faithful session) :
    Settles (fun _ => events.forM fun event => report (.resolve event)) session := by
  induction events generalizing session with
  | nil => exact settles_const id
  | cons event events ih =>
    exact (settles_report _ session).bind (fun _ => keeps_report compiler _) faithful fun _ _ _ kept => ih kept

theorem keeps_resolveTop (compiler : Compiler) (limit : Nat) (path : String) (nodes : List Node) :
    Keeps compiler.Faithful (fun left => ∃ depth events, resolve compiler.registry depth (.top path) nodes =
      some (left, events)) ((compiler.within limit).resolveTop path nodes) := by
  unfold resolveTop
  cases found : resolve (compiler.within limit).registry (compiler.within limit).limit (.top path) nodes with
  | none => exact keeps_throw _
  | some result => exact (keeps_reports compiler _).bind fun _ _ => keeps_pure ⟨_, _, found⟩

theorem settles_resolveTop {compiler : Compiler} {path : String} {nodes : List Node}
    (ends : Ends compiler.registry (.top path) nodes) {session : Session} (faithful : compiler.Faithful session) :
    Settles (fun limit => (compiler.within limit).resolveTop path nodes) session := by
  obtain ⟨depth, ⟨left, events⟩, found⟩ := ends
  have settles : Settles (fun _ => do
      events.forM fun event => report (.resolve event)
      pure left) session :=
    (settles_reports compiler events faithful).bind (fun _ => keeps_reports compiler events) faithful
      fun _ _ _ _ => settles_const id
  apply settles.of_le
  intro more enough
  unfold resolveTop
  rw [show resolve (compiler.within more).registry (compiler.within more).limit (.top path) nodes =
    some (left, events) from found more enough]

section LoadFile

variable {compiler : Compiler} {path : String} (limit : Nat)

theorem loadFile_source (ending : LowerCase.lowerText (Path.ext path) = sourceExt) :
    (compiler.within limit).loadFile path = (do
      let data ← loadFile.liftExcept (compiler.tree.read path)
      report (.loaded path data.length)
      (compiler.within limit).resolveSource path data) := by
  simp [loadFile, within, ending]

theorem loadFile_drawing {decode : Decoder} (ending : LowerCase.lowerText (Path.ext path) ≠ sourceExt)
    (known : compiler.decoders.lookup (LowerCase.lowerText (Path.ext path)) = some decode) :
    (compiler.within limit).loadFile path = (do
      let data ← loadFile.liftExcept (compiler.tree.read path)
      report (.loaded path data.length)
      let drawings ← loadFile.liftExcept (decode (Path.base path) data)
      pure (drawings.map .drawing)) := by
  simp [loadFile, within, ending, known]

theorem loadFile_unknown (ending : LowerCase.lowerText (Path.ext path) ≠ sourceExt)
    (unknown : compiler.decoders.lookup (LowerCase.lowerText (Path.ext path)) = none) :
    (compiler.within limit).loadFile path = throw .unsupportedFormat := by
  simp [loadFile, within, ending, unknown]

end LoadFile

def Resolves (compiler : Compiler) (path : String) : Prop :=
  ∀ data, LowerCase.lowerText (Path.ext path) = sourceExt → compiler.tree.read path = .ok data →
    Ends compiler.registry (.top path) (normalize (Parse.ofBytes data))

/-- The paths that are loaded for a page. -/
inductive Reached (compiler : Compiler) (page : String) : String → Prop where
  | page : Reached compiler page page
  | target {chain : List String} {path : String} {nodes : List Node} {command : Command Node}
      (chained : compiler.Chain page chain path) (loads : compiler.Loads path nodes)
      (member : command ∈ inclusionsOf nodes) : Reached compiler page (Compiler.target path command)

/-- The files of a page resolve: its sources do, and so do the targets of rules into which drawings are put. A decoder
may fail, but not for want of depth. -/
structure Resolvable (compiler : Compiler) (page : String) : Prop where
  source : ∀ path, compiler.Reached page path → compiler.Resolves path
  spliced : ∀ chain path nodes command content, compiler.Chain page chain path → compiler.Loads path nodes →
    command ∈ inclusionsOf nodes → Path.ext (target path command) ≠ sourceExt →
    compiler.Loads (target path command) content → Ends compiler.registry (.top path) (content.flatMap fun drawing =>
      command.rules.flatMap fun rule => substitute [⟨rule.pattern, [drawing]⟩] rule.target)
  decoder : ∀ ext decode name data, compiler.decoders.lookup ext = some decode → ¬Deep (decode name data)

theorem read_honest (tree : FileTree) (path : String) : ¬Deep (tree.read path) := by
  unfold FileTree.read FileSystem.read
  split
  · split
    · exact id
    · simp [Deep, Failure.roots]
  · simp [Deep, Failure.roots]

theorem keeps_loadFile (compiler : Compiler) (limit : Nat) (path : String) :
    Keeps compiler.Faithful (compiler.Loads path) ((compiler.within limit).loadFile path) := by
  by_cases ending : LowerCase.lowerText (Path.ext path) = sourceExt
  · rw [loadFile_source _ ending]
    refine (keeps_lift compiler _).bind ?_
    intro data read
    refine (keeps_report compiler _).bind ?_
    intro _ _ session faithful
    obtain ⟨kept, given⟩ := keeps_resolveTop compiler limit path (normalize (Parse.ofBytes data)) session faithful
    refine ⟨kept, ?_⟩
    intro nodes same
    obtain ⟨depth, events, resolved⟩ := given nodes same
    exact .source ending read resolved
  · cases known : compiler.decoders.lookup (LowerCase.lowerText (Path.ext path)) with
    | none =>
      rw [loadFile_unknown _ ending known]
      exact keeps_throw _
    | some decode =>
      rw [loadFile_drawing _ ending known]
      refine (keeps_lift compiler _).bind ?_
      intro data read
      refine (keeps_report compiler _).bind ?_
      intro _ _
      refine (keeps_lift compiler _).bind ?_
      intro drawings decoded
      exact keeps_pure (.drawing ending known read decoded)

theorem settles_loadFile {compiler : Compiler} {page path : String} (resolvable : compiler.Resolvable page)
    (reached : compiler.Reached page path) {session : Session} (faithful : compiler.Faithful session) :
    Settles (fun limit => (compiler.within limit).loadFile path) session := by
  by_cases ending : LowerCase.lowerText (Path.ext path) = sourceExt
  · simp only [loadFile_source _ ending]
    refine (settles_lift (read_honest _ _) session).bind (fun _ => keeps_lift compiler _) faithful ?_
    intro data middle read kept
    refine (settles_report _ middle).bind (fun _ => keeps_report compiler _) kept ?_
    intro _ last _ left
    exact settles_resolveTop (resolvable.source path reached data ending read) left
  · cases known : compiler.decoders.lookup (LowerCase.lowerText (Path.ext path)) with
    | none =>
      simp only [loadFile_unknown _ ending known]
      exact settles_const (by simp [Deep, Failure.roots])
    | some decode =>
      simp only [loadFile_drawing _ ending known]
      refine (settles_lift (read_honest _ _) session).bind (fun _ => keeps_lift compiler _) faithful ?_
      intro data middle read kept
      refine (settles_report _ middle).bind (fun _ => keeps_report compiler _) kept ?_
      intro _ last _ left
      refine (settles_lift (resolvable.decoder _ _ _ _ known) last).bind (fun _ => keeps_lift compiler _) left ?_
      intro _ _ _ _
      exact settles_const id

def store (path : String) (nodes : List Node) : Compile (List Node) := do
  modify fun session => { session with cache := session.cache.insert path nodes }
  pure nodes

theorem keeps_store {compiler : Compiler} {path : String} {nodes : List Node} (loads : compiler.Loads path nodes) :
    Keeps compiler.Faithful (compiler.Loads path) (store path nodes) := by
  intro session faithful
  refine ⟨faithful.insert loads, ?_⟩
  intro value same
  cases same
  exact loads

theorem load_known {compiler : Compiler} {path : String} {nodes : List Node} {session : Session}
    (known : session.cache.find? path = some nodes) : outcome (compiler.load path) session = (.ok nodes, session) := by
  unfold load
  rw [outcome_get_bind]
  simp [known]

theorem load_fresh {compiler : Compiler} {path : String} {session : Session}
    (fresh : session.cache.find? path = none) :
    outcome (compiler.load path) session = outcome (compiler.loadFile path >>= store path) session := by
  unfold load
  rw [outcome_get_bind]
  simp only [fresh]
  rfl

theorem keeps_load (compiler : Compiler) (limit : Nat) (path : String) :
    Keeps compiler.Faithful (compiler.Loads path) ((compiler.within limit).load path) := by
  intro session faithful
  cases known : session.cache.find? path with
  | some nodes =>
    rw [load_known known]
    refine ⟨faithful, ?_⟩
    intro value same
    cases same
    exact faithful path nodes known
  | none =>
    rw [load_fresh known]
    exact (keeps_loadFile compiler limit path).bind (fun _ => keeps_store) session faithful

theorem settles_load {compiler : Compiler} {page path : String} (resolvable : compiler.Resolvable page)
    (reached : compiler.Reached page path) {session : Session} (faithful : compiler.Faithful session) :
    Settles (fun limit => (compiler.within limit).load path) session := by
  cases known : session.cache.find? path with
  | some nodes => exact ⟨0, _, id, fun more _ => load_known known⟩
  | none =>
    have settles : Settles (fun limit => (compiler.within limit).loadFile path >>= store path) session := by
      refine (settles_loadFile resolvable reached faithful).bind (fun limit => keeps_loadFile compiler limit path)
        faithful ?_
      intro nodes middle _ _
      exact settles_const id
    obtain ⟨limit, result, honest, found⟩ := settles
    refine ⟨limit, result, honest, ?_⟩
    intro more enough
    rw [load_fresh known]
    exact found more enough

theorem keeps_splice (compiler : Compiler) (limit : Nat) (path : String) (content : List Node)
    (rules : List (Rule Node)) :
    Keeps compiler.Faithful (fun _ => True) ((compiler.within limit).splice path content rules) := by
  unfold splice
  split
  · exact keeps_pure trivial
  · intro session faithful
    exact ⟨(keeps_resolveTop compiler limit path _ session faithful).1, fun _ _ => trivial⟩

theorem settles_splice {compiler : Compiler} {path : String} {content : List Node} {rules : List (Rule Node)}
    (ends : Ends compiler.registry (.top path) (content.flatMap fun drawing =>
      rules.flatMap fun rule => substitute [⟨rule.pattern, [drawing]⟩] rule.target)) {session : Session}
    (faithful : compiler.Faithful session) :
    Settles (fun limit => (compiler.within limit).splice path content rules) session := by
  unfold splice
  split
  · exact settles_const id
  · exact settles_resolveTop ends faithful

end Manuscript.Compiler
