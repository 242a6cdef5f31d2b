import Manuscript.Document.Node

/-! Resolved content of the files met so far. A path that was loaded keeps its content; a load that fails leaves
no trace. -/

namespace Manuscript

structure IncludeCache where
  entries : List (String × List Node) := []

namespace IncludeCache

def find? (cache : IncludeCache) (path : String) : Option (List Node) := cache.entries.lookup path

def cached (cache : IncludeCache) (path : String) : Bool := (cache.find? path).isSome

def insert (cache : IncludeCache) (path : String) (nodes : List Node) : IncludeCache where
  entries := (path, nodes) :: cache.entries

/-- The content of a path and the cache that holds it, by `load` if it is not there yet. -/
def load {ε : Type} (cache : IncludeCache) (path : String) (load : Except ε (List Node)) :
    Except ε (List Node) × IncludeCache :=
  match cache.find? path with
  | some nodes => (.ok nodes, cache)
  | none =>
    match load with
    | .ok nodes => (.ok nodes, cache.insert path nodes)
    | .error error => (.error error, cache)

end IncludeCache
end Manuscript
