import Manuscript.Proofs.Coupling
import Manuscript.Proofs.SelfContained

/-! Drawings in the targets of rules. The target of each rule is filled in for each drawing, and what comes of all of
them is resolved as one list, so a command at the end of what is filled in for one drawing can take its attributes,
arguments and rules from what is filled in for the next one. Where none does, drawings are placed independently of one
another. -/

namespace Manuscript

open Resolve

namespace Compiler

open Compile

/-- The targets of the rules with a drawing in the place of their patterns. -/
def filled (rules : List (Rule Node)) (drawing : Drawing) : List Node :=
  rules.flatMap fun rule => substitute [⟨rule.pattern, [.drawing drawing]⟩] rule.target

/-- A file from which a decoder reads these drawings. -/
structure Shows (compiler : Compiler) (path : String) (drawings : List Drawing) : Prop where
  ending : LowerCase.lowerText (Path.ext path) ≠ sourceExt
  decoded : ∃ decode data, compiler.decoders.lookup (LowerCase.lowerText (Path.ext path)) = some decode ∧
    compiler.tree.read path = .ok data ∧ decode (Path.base path) data = .ok drawings

/-- What there is when an inclusion is met: how deep inclusion may still go, the files that are being included, whether
formulas are taken out, those of the document so far, and what earlier compilations have left. -/
structure Moment where
  depth : Nat
  chain : List String
  extract : Bool
  sheet : FormulaSheet
  session : Session

/-- A moment in which a file may be included. -/
structure Moment.Open (moment : Moment) (compiler : Compiler) (target : String) : Prop where
  further : 0 < moment.depth
  fresh : target ∉ moment.chain
  consistent : compiler.Consistent moment.session

/-- The nodes that an inclusion leaves in its place, if it does not fail. -/
def leaves (compiler : Compiler) (path : String) (command : Command Node) (moment : Moment) : Option (List Node) :=
  let inclusion := compiler.includeFile moment.depth path moment.chain moment.extract command
  ((outcome (inclusion.run moment.sheet) moment.session).1.toOption).map Prod.fst

section Leaves

variable {compiler : Compiler} {path target : String} {drawings : List Drawing}

theorem Shows.content (shows : compiler.Shows path drawings) :
    compiler.content path = .ok (drawings.map .drawing) := by
  obtain ⟨ending, decode, data, known, read, decoded⟩ := shows
  rw [Compiler.content, show compiler.loadFile path = _ from loadFile_drawing compiler.limit ending known, read]
  simp only [loadFile.liftExcept, pure_bind, decoded]
  rfl

theorem Shows.ext_ne (shows : compiler.Shows path drawings) : Path.ext path ≠ sourceExt := by
  intro same
  exact shows.ending (by rw [same, lowerText_sourceExt])

theorem outcome_resolveTop (nodes : List Node) (session : Session) :
    (outcome (compiler.resolveTop path nodes) session).1.toOption =
      (resolve compiler.registry compiler.limit (.top path) nodes).map Prod.fst := by
  unfold resolveTop
  cases resolve compiler.registry compiler.limit (.top path) nodes with
  | none => rfl
  | some result =>
    obtain ⟨log, reported⟩ := outcome_reports result.2 session
    dsimp only
    rw [outcome_bind_ok reported]
    rfl

theorem outcome_splice (rules : List (Rule Node)) (session : Session) :
    (outcome (compiler.splice path (drawings.map .drawing) rules) session).1.toOption =
      if rules.isEmpty then some (drawings.map .drawing)
      else (resolve compiler.registry compiler.limit (.top path) (drawings.map (filled rules)).flatten).map
        Prod.fst := by
  unfold splice
  split
  next => rfl
  next => rw [outcome_resolveTop, List.flatMap_map, ← List.flatMap_def]; rfl

theorem outcome_fetch {nodes : List Node} (loaded : compiler.content target = .ok nodes) {session : Session}
    (consistent : compiler.Consistent session) :
    ∃ after, outcome (compiler.fetch path target) session = (.ok nodes, after) := by
  have given := (load_content compiler consistent target).1
  cases run : outcome (compiler.load target) session with
  | mk result after =>
    obtain rfl : result = .ok nodes := by rw [← loaded, ← given, run]
    rw [fetch, outcome_get_bind, outcome_bind_ok (by rw [outcome_rethrow, run]; rfl)]
    exact ⟨_, rfl⟩

theorem outcome_attach {α β : Type} (compilation : Compile α) (further : β) (session : Session) :
    (outcome (compilation >>= fun value => pure (value, further)) session).1.toOption.map Prod.fst =
      (outcome compilation session).1.toOption := by
  cases run : outcome compilation session with
  | mk result after =>
    cases result with
    | ok value =>
      rw [outcome_bind_ok run]
      rfl
    | error failure =>
      rw [outcome_bind_error run]
      rfl

theorem leaves_eq {command : Command Node} (shows : compiler.Shows (Compiler.target path command) drawings)
    {moment : Moment} (met : moment.Open compiler (Compiler.target path command)) :
    compiler.leaves path command moment = if command.rules.isEmpty then some (drawings.map .drawing)
      else (resolve compiler.registry compiler.limit (.top path) (drawings.map (filled command.rules)).flatten).map
        Prod.fst := by
  obtain ⟨depth, chain, extract, sheet, session⟩ := moment
  obtain ⟨depth, rfl⟩ := Nat.exists_eq_succ_of_ne_zero met.further.ne_zero
  obtain ⟨after, fetched⟩ : ∃ after, outcome (compiler.fetch path (Compiler.target path command)) session =
      (.ok (drawings.map .drawing), after) := outcome_fetch shows.content met.consistent
  have fresh : ¬chain.contains (Compiler.target path command) = true := by simpa using met.fresh
  rw [leaves, includeFile_run, if_neg fresh, outcome_bind_ok fetched, place]
  dsimp only
  rw [if_pos shows.ext_ne, outcome_attach, outcome_splice]

end Leaves

theorem mapM_congr {α β : Type} {items : List α} {first second : α → Option β}
    (same : ∀ item ∈ items, first item = second item) : items.mapM first = items.mapM second := by
  induction items with
  | nil => rfl
  | cons item items ih =>
    obtain ⟨here, others⟩ := List.forall_mem_cons.mp same
    rw [List.mapM_cons, List.mapM_cons, here, ih others]

/-- Without rules the drawings of a file are placed themselves; with rules they are placed as each of them would be on
its own, if what is filled in for one of them takes nothing of what is filled in for the ones behind it. -/
theorem drawings_placed {compiler : Compiler} {alone : Drawing → Compiler} {path : String} {command : Command Node}
    {drawings : List Drawing} (shows : compiler.Shows (target path command) drawings)
    (shown : ∀ drawing ∈ drawings, (alone drawing).Shows (target path command) [drawing])
    (registries : ∀ drawing ∈ drawings, (alone drawing).registry = compiler.registry)
    (limits : ∀ drawing ∈ drawings, (alone drawing).limit = compiler.limit) (enough : 0 < compiler.limit)
    {moment : Moment} (met : moment.Open compiler (target path command)) {moments : Drawing → Moment}
    (meets : ∀ drawing ∈ drawings, (moments drawing).Open (alone drawing) (target path command)) :
    (command.rules = [] → compiler.leaves path command moment = some (drawings.map .drawing)) ∧
    (selfContainedEach compiler.registry (.top path) (drawings.map (filled command.rules)) = true →
      compiler.leaves path command moment =
        (drawings.mapM fun drawing => (alone drawing).leaves path command (moments drawing)).map List.flatten) := by
  have separate : (drawings.mapM fun drawing => (alone drawing).leaves path command (moments drawing)) =
      drawings.mapM fun drawing => if command.rules.isEmpty then some [.drawing drawing]
        else (resolve compiler.registry compiler.limit (.top path) (filled command.rules drawing)).map Prod.fst := by
    apply mapM_congr
    intro drawing member
    rw [leaves_eq (shown drawing member) (meets drawing member), registries drawing member, limits drawing member,
      List.map_singleton, List.map_singleton, List.flatten_singleton]
  rw [leaves_eq shows met, separate]
  constructor
  · intro none
    rw [none]
    rfl
  · intro contained
    split
    next =>
      have each := List.mapM_pure (m := Option) (l := drawings) (f := fun drawing => [Node.drawing drawing])
      rw [show (drawings.mapM fun drawing => some [Node.drawing drawing]) = _ from each]
      exact congrArg some (by rw [← List.flatMap_def, ← List.map_eq_flatMap])
    next =>
      rw [resolve_flatten enough contained, List.mapM_map]
      rfl

namespace Sample

def drawer : FileTree where
  system := .ofFiles [("p.drawing", [])]

/-- A project with one file, which shows these drawings. -/
def album (drawings : List Drawing) : Compiler where
  tree := drawer
  decoders := [(".drawing", fun _ _ => .ok drawings)]
  limit := 8

theorem album_shows (drawings : List Drawing) : (album drawings).Shows "p.drawing" drawings := by
  have ext : LowerCase.lowerText (Path.ext "p.drawing") = ".drawing" := by decide +kernel
  have read : drawer.read "p.drawing" = .ok [] := ok_of_toOption (by decide +kernel)
  refine ⟨by rw [ext]; decide, fun _ _ => .ok drawings, [], ?_, read, rfl⟩
  rw [ext]
  rfl

def first : Drawing := ⟨"p.drawing#1", [], []⟩
def second : Drawing := ⟨"p.drawing#2", [], []⟩
def both : List Drawing := [first, second]

/-- An inclusion with a rule that puts `target` in for each drawing. -/
def showing (target : List Node) : Command Node where
  ident := ⟨"\\include", {}⟩
  attributes := some (Attributes.set [] "src" "p.drawing")
  rules := [⟨[.ident ⟨"\\pic", {}⟩], target⟩]

def picture : Block Node := ⟨.curly, none, none, [.ident ⟨"\\pic", {}⟩]⟩

/-- A picture in bold, and one with a bold command behind it that has no argument of its own. -/
def bold : List Node := [.tag { ident := ⟨"\\b", {}⟩, args := [picture] }]

def trailing : List Node := [.bracket picture, .text " " {}, .ident ⟨"\\b", {}⟩, .text " " {}]

/-- The moment in which the page includes the file. -/
def start : Moment := ⟨1, ["main.ss"], true, {}, {}⟩

theorem start_open (drawings : List Drawing) : start.Open (album drawings) "p.drawing" :=
  ⟨Nat.one_pos, by decide, consistent_empty _⟩

theorem showing_target (target : List Node) : Compiler.target "main.ss" (showing target) = "p.drawing" := by
  have leads : Path.join (Path.dir "main.ss") "p.drawing" = "p.drawing" := by decide +kernel
  have given : Attributes.value? (Attributes.set [] "src" "p.drawing") "src" = some "p.drawing" := by decide +kernel
  rw [Compiler.target, Command.attribute?, showing, Option.getD_some, given]
  exact leads

end Sample

/-- Each of two pictures is put into bold type. -/
theorem drawings_placed_bold :
    (Sample.album Sample.both).leaves "main.ss" (Sample.showing Sample.bold) Sample.start =
      (Sample.both.mapM fun drawing =>
        (Sample.album [drawing]).leaves "main.ss" (Sample.showing Sample.bold) Sample.start).map List.flatten ∧
    ((Sample.album Sample.both).leaves "main.ss" (Sample.showing Sample.bold) Sample.start).map latex =
      some ("\\textbf\x7b\\includegraphics\x7bp.drawing#1\x7d\x7d" ++
        "\\textbf\x7b\\includegraphics\x7bp.drawing#2\x7d\x7d") := by
  have leads := Sample.showing_target Sample.bold
  have placed := @drawings_placed _ (fun drawing => Sample.album [drawing]) _ (Sample.showing Sample.bold) _
    (leads ▸ Sample.album_shows Sample.both) (fun drawing _ => leads ▸ Sample.album_shows [drawing]) (fun _ _ => rfl)
    (fun _ _ => rfl) (by decide) _ (leads ▸ Sample.start_open _) (fun _ => Sample.start)
    (fun drawing _ => leads ▸ Sample.start_open [drawing])
  refine ⟨placed.2 (selfContainedEach_firm _ _ ?_), ?_⟩ <;> decide +kernel

/-- The command behind the first picture takes the second one for its argument, which it cannot where each picture is
shown on its own. -/
theorem drawings_taken : (Sample.album Sample.both).Shows "p.drawing" Sample.both ∧
    (∀ drawing, (Sample.album [drawing]).Shows "p.drawing" [drawing]) ∧
    (Sample.album Sample.both).leaves "main.ss" (Sample.showing Sample.trailing) Sample.start ≠
      (Sample.both.mapM fun drawing =>
        (Sample.album [drawing]).leaves "main.ss" (Sample.showing Sample.trailing) Sample.start).map List.flatten := by
  refine ⟨Sample.album_shows _, fun drawing => Sample.album_shows _, fun same => ?_⟩
  have written := congrArg (Option.map latex) same
  revert written
  decide +kernel

end Compiler

end Manuscript
