import Mathlib.Data.List.Induction
import Manuscript.Project.SharedCache

/-! Loading each path once. Clients that load from a cache at a time run the loader of a path with success at most once,
whatever the order of their steps: a call looks the path up again when it begins, and no other call of the path runs as
long as it does. -/

namespace Manuscript

namespace Loading

variable {ε : Type}

/-- What a run of the loader gave that is not stored yet. -/
def loaded? : Loading ε → Option (List Node)
  | loaded nodes => some nodes
  | _ => none

attribute [simp] result? leads unstored inFlight loaded?

theorem leads_of_unstored {stage : Loading ε} (unstored : stage.unstored = true) : stage.leads = true := by
  cases stage <;> first | rfl | cases unstored

theorem inFlight_of_leads {stage : Loading ε} (leads : stage.leads = true) : stage.inFlight = true := by
  cases stage <;> first | rfl | cases leads

end Loading

namespace LoadEvent

variable {ε : Type}

/-- The client whose loader begins or ends a run. -/
def runs? : LoadEvent ε → Option Nat
  | launch client | finish client _ => some client
  | _ => none

/-- Whose turn it is. -/
def client : LoadEvent ε → Nat
  | check client | enter client | recheck client | launch client | finish client _ | store client | leave client
  | receive client | reply client => client

attribute [simp] client

/-- What a run of the loader of a path gives, if it succeeds. -/
def success? (path : Nat → String) (target : String) : LoadEvent ε → Option (List Node)
  | finish client (.ok nodes) => if path client = target then some nodes else none
  | _ => none

end LoadEvent

/-- What the runs of the loader of a path gave that succeeded. -/
def successes {ε : Type} (path : Nat → String) (target : String) (events : List (LoadEvent ε)) : List (List Node) :=
  events.filterMap (LoadEvent.success? path target)

theorem successes_snoc {ε : Type} (path : Nat → String) (target : String) (events : List (LoadEvent ε))
    (event : LoadEvent ε) :
    successes path target (events ++ [event]) =
      successes path target events ++ (event.success? path target).toList := by
  rw [successes, List.filterMap_append]
  cases found : event.success? path target <;> simp [successes, found]

namespace SharedCache

variable {ε : Type} {path : Nat → String} {events : List (LoadEvent ε)} {event : LoadEvent ε}
  {shared later : SharedCache ε} {client : Nat}

/-- What a step can be, and when. -/
inductive Moves (path : Nat → String) (shared : SharedCache ε) : LoadEvent ε → SharedCache ε → Prop where
  | hit {client : Nat} {nodes : List Node} (idle : shared.loading client = .idle)
      (found : shared.cache.find? (path client) = some nodes) :
      Moves path shared (.check client) (shared.set client (.holding (.ok nodes)))
  | miss {client : Nat} (idle : shared.loading client = .idle) :
      Moves path shared (.check client) (shared.set client .missed)
  | join {client leader : Nat} (missed : shared.loading client = .missed)
      (running : shared.group (path client) = some leader) :
      Moves path shared (.enter client) (shared.set client (.joined leader))
  | lead {client : Nat} (missed : shared.loading client = .missed) (free : shared.group (path client) = none) :
      Moves path shared (.enter client)
        (shared.lead (path client) client)
  | found {client : Nat} {nodes : List Node} (leading : shared.loading client = .leading)
      (found : shared.cache.find? (path client) = some nodes) :
      Moves path shared (.recheck client) (shared.set client (.leaving (.ok nodes)))
  | clear {client : Nat} (leading : shared.loading client = .leading)
      (missing : shared.cache.find? (path client) = none) :
      Moves path shared (.recheck client) (shared.set client .cleared)
  | launch {client : Nat} (cleared : shared.loading client = .cleared) :
      Moves path shared (.launch client) (shared.set client .running)
  | succeed {client : Nat} {nodes : List Node} (running : shared.loading client = .running) :
      Moves path shared (.finish client (.ok nodes)) (shared.set client (.loaded nodes))
  | fail {client : Nat} {error : ε} (running : shared.loading client = .running) :
      Moves path shared (.finish client (.error error)) (shared.set client (.leaving (.error error)))
  | store {client : Nat} {nodes : List Node} (loaded : shared.loading client = .loaded nodes) :
      Moves path shared (.store client)
        (shared.store (path client) client nodes)
  | leave {client : Nat} {result : Except ε (List Node)} (leaving : shared.loading client = .leaving result) :
      Moves path shared (.leave client) (shared.leave (path client) client result)
  | receive {client leader : Nat} {result : Except ε (List Node)} (joined : shared.loading client = .joined leader)
      (answered : shared.answers leader = some result) :
      Moves path shared (.receive client) (shared.set client (.holding result))
  | reply {client : Nat} {result : Except ε (List Node)} (holding : shared.loading client = .holding result) :
      Moves path shared (.reply client) (shared.set client (.returned result))

theorem moves_of_step (steps : step path shared event = some later) : Moves path shared event later := by
  cases event with
  | check client =>
    simp only [step] at steps
    split at steps
    next idle found => exact Option.some.inj steps ▸ .hit idle found
    next idle _ => exact Option.some.inj steps ▸ .miss idle
    next => cases steps
  | enter client =>
    simp only [step] at steps
    split at steps
    next missed running => exact Option.some.inj steps ▸ .join missed running
    next missed free => exact Option.some.inj steps ▸ .lead missed free
    next => cases steps
  | recheck client =>
    simp only [step] at steps
    split at steps
    next leading found => exact Option.some.inj steps ▸ .found leading found
    next leading missing => exact Option.some.inj steps ▸ .clear leading missing
    next => cases steps
  | launch client =>
    simp only [step] at steps
    split at steps
    next cleared => exact Option.some.inj steps ▸ .launch cleared
    next => cases steps
  | finish client result =>
    simp only [step] at steps
    split at steps
    next running => exact Option.some.inj steps ▸ .succeed running
    next running => exact Option.some.inj steps ▸ .fail running
    next => cases steps
  | store client =>
    simp only [step] at steps
    split at steps
    next loaded => exact Option.some.inj steps ▸ .store loaded
    next => cases steps
  | leave client =>
    simp only [step] at steps
    split at steps
    next leaving => exact Option.some.inj steps ▸ .leave leaving
    next => cases steps
  | receive client =>
    simp only [step] at steps
    split at steps
    next joined =>
      obtain ⟨result, answered, rfl⟩ := Option.map_eq_some_iff.mp steps
      exact .receive joined answered
    next => cases steps
  | reply client =>
    simp only [step] at steps
    split at steps
    next holding => exact Option.some.inj steps ▸ .reply holding
    next => cases steps

section Frame

variable {stage : Loading ε} {name : String} {nodes : List Node} {result : Except ε (List Node)}

@[simp] theorem set_loading : (shared.set client stage).loading = Function.update shared.loading client stage := rfl
@[simp] theorem set_cache : (shared.set client stage).cache = shared.cache := rfl
@[simp] theorem set_group : (shared.set client stage).group = shared.group := rfl
@[simp] theorem set_answers : (shared.set client stage).answers = shared.answers := rfl

@[simp] theorem lead_loading : (shared.lead name client).loading = Function.update shared.loading client .leading := rfl
@[simp] theorem lead_cache : (shared.lead name client).cache = shared.cache := rfl
@[simp] theorem lead_group : (shared.lead name client).group = Function.update shared.group name (some client) := rfl
@[simp] theorem lead_answers : (shared.lead name client).answers = shared.answers := rfl

@[simp] theorem store_loading :
    (shared.store name client nodes).loading = Function.update shared.loading client (.leaving (.ok nodes)) := rfl
@[simp] theorem store_cache : (shared.store name client nodes).cache = shared.cache.insert name nodes := rfl
@[simp] theorem store_group : (shared.store name client nodes).group = shared.group := rfl
@[simp] theorem store_answers : (shared.store name client nodes).answers = shared.answers := rfl

@[simp] theorem leave_loading :
    (shared.leave name client result).loading = Function.update shared.loading client (.holding result) := rfl
@[simp] theorem leave_cache : (shared.leave name client result).cache = shared.cache := rfl
@[simp] theorem leave_group : (shared.leave name client result).group = Function.update shared.group name none := rfl
@[simp] theorem leave_answers :
    (shared.leave name client result).answers = Function.update shared.answers client (some result) := rfl

theorem find?_insert (cache : IncludeCache) (name target : String) (nodes : List Node) :
    (cache.insert name nodes).find? target = if target = name then some nodes else cache.find? target := by
  simp only [IncludeCache.insert, IncludeCache.find?, List.lookup_cons]
  split <;> simp_all

end Frame

theorem run_append (shared : SharedCache ε) (events more : List (LoadEvent ε)) :
    run path shared (events ++ more) = (run path shared events).bind fun later => run path later more :=
  List.foldlM_append

theorem run_single (shared : SharedCache ε) (event : LoadEvent ε) :
    run path shared [event] = step path shared event := by
  simp [run]

/-- At some time the call of a leader for the path of a client was running, and the client was in flight. -/
def Met (path : Nat → String) (events : List (LoadEvent ε)) (client leader : Nat) : Prop :=
  ∃ before after moment, events = before ++ after ∧ run path {} before = some moment ∧
    moment.group (path client) = some leader ∧ (moment.loading client).inFlight = true

theorem Met.more {leader : Nat} (met : Met path events client leader) (event : LoadEvent ε) :
    Met path (events ++ [event]) client leader := by
  obtain ⟨before, after, moment, rfl, ran, running, flying⟩ := met
  exact ⟨before, after ++ [event], moment, List.append_assoc .., ran, running, flying⟩

theorem met_now {leader : Nat} (ran : run path {} events = some shared)
    (running : shared.group (path client) = some leader) (flying : (shared.loading client).inFlight = true)
    (event : LoadEvent ε) : Met path (events ++ [event]) client leader :=
  ⟨events, [event], shared, rfl, ran, running, flying⟩

/-- Where a result comes from: nodes from the cache, an error from the run of a loader of a call that the client has
met. -/
def Sourced (path : Nat → String) (events : List (LoadEvent ε)) (shared : SharedCache ε) (client : Nat) :
    Except ε (List Node) → Prop
  | .ok nodes => shared.cache.find? (path client) = some nodes
  | .error error => ∃ leader, .finish leader (.error error) ∈ events ∧ Met path events client leader

/-- What the cache holds for a path or is about to hold. -/
def fetched (shared : SharedCache ε) (target : String) : Option (List Node) :=
  (shared.cache.find? target).or ((shared.group target).bind fun leader => (shared.loading leader).loaded?)

theorem fetched_set {stage : Loading ε} (same : stage.loaded? = (shared.loading client).loaded?) (target : String) :
    (shared.set client stage).fetched target = shared.fetched target := by
  unfold fetched
  congr 1
  refine Option.bind_congr fun leader _ => ?_
  rw [set_loading, Function.update_apply]
  split
  next mover => rw [mover, same]
  next => rfl

/-- What a client has come to know is so. -/
structure Fits (path : Nat → String) (events : List (LoadEvent ε)) (shared : SharedCache ε) (client : Nat) : Prop where
  leads : (shared.loading client).leads = true → shared.group (path client) = some client
  unstored : (shared.loading client).unstored = true → shared.cache.find? (path client) = none
  joined : ∀ leader, shared.loading client = .joined leader → path leader = path client ∧ Met path events client leader
  sourced : ∀ result, (shared.loading client).result? = some result → Sourced path events shared client result
  own : ∀ error, shared.loading client = .leaving (.error error) → .finish client (.error error) ∈ events

/-- What holds of the state that a sequence of steps leads to. -/
structure Kept (path : Nat → String) (events : List (LoadEvent ε)) (shared : SharedCache ε) : Prop where
  fits : ∀ client, Fits path events shared client
  led : ∀ target leader, shared.group target = some leader →
    path leader = target ∧ (shared.loading leader).leads = true
  stored : ∀ leader nodes, shared.answers leader = some (.ok nodes) → shared.cache.find? (path leader) = some nodes
  failed : ∀ leader error, shared.answers leader = some (.error error) → .finish leader (.error error) ∈ events
  known : ∀ target, successes path target events = (shared.fetched target).toList
  fails : ∀ client error, .finish client (.error error) ∈ events →
    (shared.loading client).result? = some (.error error)
  stores : ∀ client, .store client ∈ events → ∃ nodes, (shared.loading client).result? = some (.ok nodes)

theorem kept_empty : Kept path [] ({} : SharedCache ε) where
  fits client := by constructor <;> intros <;> contradiction
  led target leader running := by cases running
  stored leader nodes answered := by cases answered
  failed leader error answered := by cases answered
  known target := rfl
  fails client error member := by cases member
  stores client member := by cases member

section Moves

variable (moves : Moves path shared event later)

include moves

theorem Moves.other {other : Nat} (apart : other ≠ event.client) : later.loading other = shared.loading other := by
  cases moves <;> exact Function.update_of_ne apart ..

/-- A result that is known stays. -/
theorem Moves.result {result : Except ε (List Node)} (known : (shared.loading client).result? = some result) :
    (later.loading client).result? = some result := by
  by_cases mover : client = event.client
  · subst mover
    cases moves <;> simp_all [LoadEvent.client, Loading.result?]
  · rwa [moves.other mover]

theorem Moves.fails {error : ε} (ends : event = .finish client (.error error)) :
    (later.loading client).result? = some (.error error) := by
  subst ends
  cases moves
  simp [Loading.result?]

theorem Moves.stores (stores : event = .store client) : ∃ nodes, (later.loading client).result? = some (.ok nodes) := by
  subst stores
  cases moves
  simp [Loading.result?]

/-- An answer is there already, or it is that of a leader who leaves. -/
theorem Moves.answered {leader : Nat} {result : Except ε (List Node)} (answered : later.answers leader = some result) :
    shared.answers leader = some result ∨ shared.loading leader = .leaving result := by
  cases moves with
  | leave leaving =>
    simp only [leave_answers, Function.update_apply] at answered
    split at answered
    next same => exact .inr (same ▸ Option.some.inj answered ▸ leaving)
    next => exact .inl answered
  | _ => exact .inl answered

/-- Other paths are not concerned. -/
theorem Moves.elsewhere {target : String} (apart : target ≠ path event.client) :
    later.cache.find? target = shared.cache.find? target ∧ later.group target = shared.group target ∧
      event.success? path target = none := by
  have other : path event.client ≠ target := Ne.symm apart
  cases moves <;> simp_all [LoadEvent.success?, find?_insert]

variable (kept : Kept path events shared)

include kept

/-- What is stored stays as it is. -/
theorem Moves.cache {target : String} {nodes : List Node} (found : shared.cache.find? target = some nodes) :
    later.cache.find? target = some nodes := by
  cases moves with
  | @store client other loaded =>
    have missing := (kept.fits client).unstored (by rw [loaded]; rfl)
    have apart : target ≠ path client := by
      rintro rfl
      rw [missing] at found
      cases found
    rw [store_cache, find?_insert, if_neg apart]
    exact found
  | _ => exact found

/-- Nothing is stored for the path of a call but by its leader. -/
theorem Moves.free {other : Nat} (apart : other ≠ event.client) (leads : shared.group (path other) = some other)
    (missing : shared.cache.find? (path other) = none) : later.cache.find? (path other) = none := by
  cases moves with
  | @store client nodes loaded =>
    have elsewhere : path other ≠ path client := by
      intro same
      rw [same, (kept.fits client).leads (by rw [loaded]; rfl)] at leads
      exact apart (Option.some.inj leads).symm
    rw [store_cache, find?_insert, if_neg elsewhere]
    exact missing
  | _ => exact missing

/-- A call runs until its leader ends it. -/
theorem Moves.group {other : Nat} (apart : other ≠ event.client) (leads : shared.group (path other) = some other) :
    later.group (path other) = some other := by
  cases moves with
  | @lead client missed free =>
    have elsewhere : path other ≠ path client := by
      intro same
      rw [same, free] at leads
      cases leads
    rw [lead_group, Function.update_of_ne elsewhere]
    exact leads
  | @leave client result leaving =>
    have elsewhere : path other ≠ path client := by
      intro same
      rw [same, (kept.fits client).leads (by rw [leaving]; rfl)] at leads
      exact apart (Option.some.inj leads).symm
    rw [leave_group, Function.update_of_ne elsewhere]
    exact leads
  | _ => exact leads

theorem Moves.sourced {result : Except ε (List Node)} (sourced : Sourced path events shared client result) :
    Sourced path (events ++ [event]) later client result := by
  cases result with
  | ok nodes => exact moves.cache kept sourced
  | error error =>
    obtain ⟨leader, failed, met⟩ := sourced
    exact ⟨leader, List.mem_append_left _ failed, met.more event⟩

/-- Those whose turn it is not are not disturbed. -/
theorem Moves.undisturbed {other : Nat} (apart : other ≠ event.client) : Fits path (events ++ [event]) later other := by
  obtain ⟨leads, unstored, joined, sourced, own⟩ := kept.fits other
  rw [← moves.other apart] at leads unstored joined sourced own
  constructor
  · intro led
    exact moves.group kept apart (leads led)
  · intro missing
    exact moves.free kept apart (leads (Loading.leads_of_unstored missing)) (unstored missing)
  · intro leader waits
    exact (joined leader waits).imp_right fun met => met.more event
  · intro result given
    exact moves.sourced kept (sourced result given)
  · intro error leaves
    exact List.mem_append_left _ (own error leaves)

/-- Nor does the one whose turn it is come to know what is not so. -/
theorem Moves.mover (ran : run path {} events = some shared) : Fits path (events ++ [event]) later event.client := by
  have fits := kept.fits event.client
  have sourced {result : Except ε (List Node)} (known : (shared.loading event.client).result? = some result) :=
    moves.sourced kept (fits.sourced result known)
  cases moves with
  | hit idle found =>
    constructor <;> simp
    case sourced => exact found
  | miss idle => constructor <;> simp
  | join missed running =>
    constructor <;> simp
    case joined => exact ⟨(kept.led _ _ running).1, met_now ran running (by rw [missed]; rfl) _⟩
  | lead missed free => constructor <;> simp
  | found leading found =>
    constructor <;> simp
    case leads => exact fits.leads (by simp [leading])
    case sourced => exact found
  | clear leading missing =>
    constructor <;> simp
    case leads => exact fits.leads (by simp [leading])
    case unstored => exact missing
  | launch cleared =>
    constructor <;> simp
    case leads => exact fits.leads (by simp [cleared])
    case unstored => exact fits.unstored (by simp [cleared])
  | succeed running =>
    constructor <;> simp
    case leads => exact fits.leads (by simp [running])
    case unstored => exact fits.unstored (by simp [running])
  | fail running =>
    have leads := fits.leads (by simp [running])
    constructor <;> simp
    case leads => exact leads
    case sourced =>
      have met := met_now ran leads (by simp [running])
      exact ⟨_, List.mem_append_right _ (List.mem_singleton_self _), met _⟩
  | store loaded =>
    constructor <;> simp
    case leads => exact fits.leads (by simp [loaded])
    case sourced => exact (find?_insert ..).trans (if_pos rfl)
  | leave leaving =>
    constructor <;> simp
    case sourced => exact sourced (by simp [leaving])
  | @receive client leader result joined answered =>
    obtain ⟨same, met⟩ := fits.joined leader joined
    constructor <;> simp
    case sourced =>
      cases result with
      | ok nodes => exact (congrArg _ same).symm.trans (kept.stored leader nodes answered)
      | error error => exact ⟨leader, List.mem_append_left _ (kept.failed leader error answered), met.more _⟩
  | reply holding =>
    constructor <;> simp
    case sourced => exact sourced (by simp [holding])

theorem Moves.led {target : String} {leader : Nat} (running : later.group target = some leader) :
    path leader = target ∧ (later.loading leader).leads = true := by
  by_cases mover : leader = event.client
  · subst mover
    have before := kept.led target event.client
    cases moves <;> simp_all [Function.update_apply]
  · rw [moves.other mover]
    apply kept.led target leader
    cases moves with
    | lead missed free =>
      simp only [lead_group, Function.update_apply] at running
      split at running
      · exact absurd (Option.some.inj running).symm mover
      · exact running
    | leave leaving =>
      simp only [leave_group, Function.update_apply] at running
      split at running
      · cases running
      · exact running
    | _ => exact running

theorem Moves.stored {leader : Nat} {nodes : List Node} (answered : later.answers leader = some (.ok nodes)) :
    later.cache.find? (path leader) = some nodes := by
  apply moves.cache kept
  rcases moves.answered answered with before | leaving
  · exact kept.stored leader nodes before
  · exact (kept.fits leader).sourced (.ok nodes) (by simp [leaving])

theorem Moves.failed {leader : Nat} {error : ε} (answered : later.answers leader = some (.error error)) :
    .finish leader (.error error) ∈ events ++ [event] := by
  apply List.mem_append_left
  rcases moves.answered answered with before | leaving
  · exact kept.failed leader error before
  · exact (kept.fits leader).own error leaving

theorem Moves.fetched_elsewhere {target : String} (apart : target ≠ path event.client) :
    later.fetched target = shared.fetched target := by
  obtain ⟨stored, running, _⟩ := moves.elsewhere apart
  unfold fetched
  rw [stored, running]
  congr 1
  cases leads : shared.group target with
  | none => rfl
  | some leader =>
    have other : leader ≠ event.client := by
      rintro rfl
      exact apart (kept.led target _ leads).1.symm
    simp only [Option.bind_some, moves.other other]

/-- What is known of a path grows by what its loader gives. -/
theorem Moves.fetched (target : String) :
    (later.fetched target).toList = (shared.fetched target).toList ++ (event.success? path target).toList := by
  by_cases home : target = path event.client
  · subst home
    cases moves with
    | @lead client missed free => simp [SharedCache.fetched, free, LoadEvent.success?]
    | @succeed client nodes running =>
      have leads := (kept.fits client).leads (by simp [running])
      have missing := (kept.fits client).unstored (by simp [running])
      simp [SharedCache.fetched, leads, missing, LoadEvent.success?, running]
    | @store client nodes loaded =>
      have leads := (kept.fits client).leads (by simp [loaded])
      have missing := (kept.fits client).unstored (by simp [loaded])
      simp [SharedCache.fetched, leads, missing, LoadEvent.success?, loaded, find?_insert]
    | @leave client result leaving =>
      have leads := (kept.fits client).leads (by simp [leaving])
      simp [SharedCache.fetched, leads, LoadEvent.success?, leaving]
    | _ =>
      rw [fetched_set (by rw [‹shared.loading _ = _›]; rfl)]
      simp [LoadEvent.success?]
  · rw [moves.fetched_elsewhere kept home, (moves.elsewhere home).2.2, Option.toList_none, List.append_nil]

theorem Moves.next (ran : run path {} events = some shared) : Kept path (events ++ [event]) later where
  fits client := by
    by_cases mover : client = event.client
    · exact mover ▸ moves.mover kept ran
    · exact moves.undisturbed kept mover
  led target leader running := moves.led kept running
  stored leader nodes answered := moves.stored kept answered
  failed leader error answered := moves.failed kept answered
  known target := by
    rw [moves.fetched kept, ← kept.known target, successes_snoc]
  fails client error member := by
    rcases List.mem_append.mp member with before | now
    · exact moves.result (kept.fails client error before)
    · exact moves.fails (List.mem_singleton.mp now).symm
  stores client member := by
    rcases List.mem_append.mp member with before | now
    · obtain ⟨nodes, known⟩ := kept.stores client before
      exact ⟨nodes, moves.result known⟩
    · exact moves.stores (List.mem_singleton.mp now).symm

end Moves

theorem kept_of_run {events : List (LoadEvent ε)} {shared : SharedCache ε} (ran : run path {} events = some shared) :
    Kept path events shared := by
  induction events using List.reverseRecOn generalizing shared with
  | nil =>
    cases ran
    exact kept_empty
  | append_singleton events event ih =>
    rw [run_append, Option.bind_eq_some_iff] at ran
    obtain ⟨before, earlier, last⟩ := ran
    rw [run_single] at last
    exact (moves_of_step last).next (ih earlier) earlier

/-- A loader runs only while nothing is stored for its path. -/
theorem Moves.runs (moves : Moves path shared event later) (kept : Kept path events shared)
    (runs : event.runs? = some client) : shared.cache.find? (path client) = none := by
  have unstored := (kept.fits client).unstored
  cases moves <;> cases runs <;> exact unstored (by simp [*])

theorem stays_stored {more : List (LoadEvent ε)} {target : String} {nodes : List Node}
    (ran : run path {} events = some shared) (found : shared.cache.find? target = some nodes)
    (goes : run path shared more = some later) :
    later.cache.find? target = some nodes ∧
      ∀ event ∈ more, ∀ client, event.runs? = some client → path client ≠ target := by
  induction more using List.reverseRecOn generalizing later with
  | nil =>
    cases goes
    exact ⟨found, by simp⟩
  | append_singleton more event ih =>
    rw [run_append, Option.bind_eq_some_iff] at goes
    obtain ⟨middle, front, last⟩ := goes
    rw [run_single] at last
    obtain ⟨still, others⟩ := ih front
    have kept : Kept path (events ++ more) middle := by
      apply kept_of_run
      rw [run_append, ran]
      exact front
    have moves := moves_of_step last
    refine ⟨moves.cache kept still, List.forall_mem_append.mpr ⟨others, ?_⟩⟩
    rw [List.forall_mem_singleton]
    rintro client runs rfl
    rw [moves.runs kept runs] at still
    cases still

/-- What holds when the loads of some clients have come as far as a sequence of steps. -/
structure LoadsOnce (path : Nat → String) (events : List (LoadEvent ε)) (shared : SharedCache ε) : Prop where
  /-- At most one run of the loader of a path succeeds. -/
  once : ∀ target, (successes path target events).length ≤ 1
  /-- All loads of the path that return without an error return what this run gave. -/
  same : ∀ client nodes, shared.loading client = .returned (.ok nodes) →
    successes path (path client) events = [nodes]
  /-- It is also what is stored. -/
  stored : ∀ target nodes, shared.cache.find? target = some nodes → successes path target events = [nodes]
  /-- What was stored at some time is there ever since, and the loader of its path has not run any more. -/
  stays : ∀ before after earlier target nodes, events = before ++ after → run path {} before = some earlier →
    earlier.cache.find? target = some nodes → shared.cache.find? target = some nodes ∧
      ∀ event ∈ after, ∀ client, event.runs? = some client → path client ≠ target
  /-- A load whose loader fails does not store anything. -/
  fails : ∀ client error, .finish client (.error error) ∈ events → .store client ∉ events
  /-- An error comes from a load of the path that was in flight together with the one that returns it. -/
  blame : ∀ client error, shared.loading client = .returned (.error error) →
    ∃ leader, path leader = path client ∧ .finish leader (.error error) ∈ events ∧
      ∃ before after moment, events = before ++ after ∧ run path {} before = some moment ∧
        (moment.loading client).inFlight = true ∧ (moment.loading leader).inFlight = true

theorem loads_once (path : Nat → String) (events : List (LoadEvent ε)) (shared : SharedCache ε)
    (ran : run path {} events = some shared) : LoadsOnce path events shared := by
  have kept := kept_of_run ran
  have stored {target : String} {nodes : List Node} (found : shared.cache.find? target = some nodes) :
      successes path target events = [nodes] := by
    rw [kept.known, fetched, found]
    rfl
  constructor
  case once =>
    intro target
    rw [kept.known]
    cases shared.fetched target <;> simp
  case same =>
    intro client nodes returned
    exact stored ((kept.fits client).sourced (.ok nodes) (by simp [returned]))
  case stored =>
    intro target nodes found
    exact stored found
  case stays =>
    rintro before after earlier target nodes rfl first found
    rw [run_append, first] at ran
    exact stays_stored first found ran
  case fails =>
    intro client error failed stores
    obtain ⟨nodes, known⟩ := kept.stores client stores
    rw [kept.fails client error failed] at known
    cases known
  case blame =>
    intro client error returned
    obtain ⟨leader, failed, before, after, moment, split, first, running, flying⟩ :=
      (kept.fits client).sourced (.error error) (by simp [returned])
    obtain ⟨same, leads⟩ := (kept_of_run first).led _ _ running
    exact ⟨leader, same, failed, before, after, moment, split, first, flying, Loading.inFlight_of_leads leads⟩

/-- Five clients. The first two load a text: the first of them does not find it and leads a call only when the second
has stored it. The others load a file that is not there. -/
def Sample.readers (client : Nat) : String := if client < 3 then "a.ss" else "b.ss"

def Sample.text : List Node := [.text "A" {}]

def Sample.turns : List (LoadEvent String) :=
  [.check 0, .check 1, .check 3, .enter 1, .recheck 1, .launch 1, .check 2, .enter 2, .enter 3, .recheck 3,
    .finish 1 (.ok Sample.text), .launch 3, .store 1, .check 4, .finish 3 (.error "not found"), .enter 4, .leave 3,
    .leave 1, .enter 0, .recheck 0, .receive 4, .reply 1, .receive 2, .leave 0, .reply 0, .reply 4]

theorem loads_once_turns : ∃ shared, run Sample.readers {} Sample.turns = some shared ∧
    shared.loading 0 = .returned (.ok Sample.text) ∧ shared.loading 4 = .returned (.error "not found") ∧
    LoadsOnce Sample.readers Sample.turns shared := by
  obtain ⟨shared, ran⟩ := Option.isSome_iff_exists.mp (show (run Sample.readers {} Sample.turns).isSome from rfl)
  have late : (run Sample.readers {} Sample.turns).map (·.loading 0) = some (.returned (.ok Sample.text)) := rfl
  have lost : (run Sample.readers {} Sample.turns).map (·.loading 4) = some (.returned (.error "not found")) := rfl
  rw [ran] at late lost
  exact ⟨shared, ran, Option.some.inj late, Option.some.inj lost, loads_once _ _ shared ran⟩

/-- Without others, a load is the load of the cache. -/
theorem alone_load (path : Nat → String) (shared : SharedCache ε) {client : Nat}
    (idle : shared.loading client = .idle) (free : shared.group (path client) = none)
    (result : Except ε (List Node)) :
    ∃ events later, (∀ event ∈ events, event.client = client) ∧ run path shared events = some later ∧
      later.loading client = .returned (shared.cache.load (path client) result).1 ∧
      later.cache = (shared.cache.load (path client) result).2 := by
  cases found : shared.cache.find? (path client) with
  | some nodes =>
    refine ⟨[.check client, .reply client], _, by simp, by simp [run, step, idle, found]; rfl, ?_, ?_⟩ <;>
    simp [IncludeCache.load, found]
  | none =>
    cases result with
    | ok nodes =>
      refine ⟨[.check client, .enter client, .recheck client, .launch client, .finish client (.ok nodes), .store client,
        .leave client, .reply client], _, by simp, by simp [run, step, idle, found, free]; rfl, ?_, ?_⟩ <;>
      simp [IncludeCache.load, found]
    | error error =>
      refine ⟨[.check client, .enter client, .recheck client, .launch client, .finish client (.error error),
        .leave client, .reply client], _, by simp, by simp [run, step, idle, found, free]; rfl, ?_, ?_⟩ <;>
      simp [IncludeCache.load, found]

end SharedCache
end Manuscript
