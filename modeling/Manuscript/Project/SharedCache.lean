import Mathlib.Logic.Function.Basic
import Manuscript.Project.Cache

/-! A cache that several clients load from at a time. A client is one load of one path; the steps of different clients
come in any order. Of the clients that do not find their path, one at a time leads a call for it, and those that come
while its call is running join it and get what it gives. -/

namespace Manuscript

/-- How far a load has come. -/
inductive Loading (ε : Type) where
  | idle
  /-- The path was not in the cache when the load began. -/
  | missed
  /-- Waits for the call of another client. -/
  | joined (leader : Nat)
  | leading
  /-- The path was not in the cache when the call began. -/
  | cleared
  | running
  | loaded (nodes : List Node)
  /-- Knows what its call gives, which others may still join. -/
  | leaving (result : Except ε (List Node))
  | holding (result : Except ε (List Node))
  | returned (result : Except ε (List Node))

namespace Loading

variable {ε : Type}

/-- What a load gives, as far as this is known. -/
def result? : Loading ε → Option (Except ε (List Node))
  | leaving result | holding result | returned result => some result
  | _ => none

/-- Between the begin and the end of a call of one's own. -/
def leads : Loading ε → Bool
  | leading | cleared | running | loaded _ | leaving _ => true
  | _ => false

/-- Found nothing in the cache during its own call, and has not stored anything yet. -/
def unstored : Loading ε → Bool
  | cleared | running | loaded _ => true
  | _ => false

/-- Has begun and not returned. -/
def inFlight : Loading ε → Bool
  | idle | returned _ => false
  | _ => true

end Loading

/-- What a client does next. Only the outcome of a run of the loader is not determined by what came before. -/
inductive LoadEvent (ε : Type) where
  | check (client : Nat)
  | enter (client : Nat)
  | recheck (client : Nat)
  | launch (client : Nat)
  | finish (client : Nat) (result : Except ε (List Node))
  | store (client : Nat)
  | leave (client : Nat)
  | receive (client : Nat)
  | reply (client : Nat)

/-- `group` tells who leads the running call of a path, and `answers` what the calls that have ended gave, by the
clients that led them. -/
structure SharedCache (ε : Type) where
  cache : IncludeCache := {}
  group : String → Option Nat := fun _ => none
  answers : Nat → Option (Except ε (List Node)) := fun _ => none
  loading : Nat → Loading ε := fun _ => .idle

namespace SharedCache

variable {ε : Type}

def set (shared : SharedCache ε) (client : Nat) (stage : Loading ε) : SharedCache ε :=
  { shared with loading := Function.update shared.loading client stage }

/-- Makes a client the leader of a new call. -/
def lead (shared : SharedCache ε) (path : String) (client : Nat) : SharedCache ε :=
  { shared.set client .leading with group := Function.update shared.group path (some client) }

/-- Keeps what the loader of a client gave. -/
def store (shared : SharedCache ε) (path : String) (client : Nat) (nodes : List Node) : SharedCache ε :=
  { shared.set client (.leaving (.ok nodes)) with cache := shared.cache.insert path nodes }

/-- Ends the call of a client with a result for all who have joined it. -/
def leave (shared : SharedCache ε) (path : String) (client : Nat) (result : Except ε (List Node)) : SharedCache ε :=
  { shared.set client (.holding result) with
    group := Function.update shared.group path none
    answers := Function.update shared.answers client (some result) }

/-- One step, if it is the turn of it. `path` tells what each client loads. -/
def step (path : Nat → String) (shared : SharedCache ε) : LoadEvent ε → Option (SharedCache ε)
  | .check client =>
    match shared.loading client, shared.cache.find? (path client) with
    | .idle, some nodes => some (shared.set client (.holding (.ok nodes)))
    | .idle, none => some (shared.set client .missed)
    | _, _ => none
  | .enter client =>
    match shared.loading client, shared.group (path client) with
    | .missed, some leader => some (shared.set client (.joined leader))
    | .missed, none => some (shared.lead (path client) client)
    | _, _ => none
  | .recheck client =>
    match shared.loading client, shared.cache.find? (path client) with
    | .leading, some nodes => some (shared.set client (.leaving (.ok nodes)))
    | .leading, none => some (shared.set client .cleared)
    | _, _ => none
  | .launch client =>
    match shared.loading client with
    | .cleared => some (shared.set client .running)
    | _ => none
  | .finish client result =>
    match shared.loading client, result with
    | .running, .ok nodes => some (shared.set client (.loaded nodes))
    | .running, .error error => some (shared.set client (.leaving (.error error)))
    | _, _ => none
  | .store client =>
    match shared.loading client with
    | .loaded nodes => some (shared.store (path client) client nodes)
    | _ => none
  | .leave client =>
    match shared.loading client with
    | .leaving result => some (shared.leave (path client) client result)
    | _ => none
  | .receive client =>
    match shared.loading client with
    | .joined leader => (shared.answers leader).map fun result => shared.set client (.holding result)
    | _ => none
  | .reply client =>
    match shared.loading client with
    | .holding result => some (shared.set client (.returned result))
    | _ => none

/-- Steps one after the other. -/
def run (path : Nat → String) (shared : SharedCache ε) (events : List (LoadEvent ε)) : Option (SharedCache ε) :=
  events.foldlM (step path) shared

end SharedCache
end Manuscript
