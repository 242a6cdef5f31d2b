/-! How far apart two lists are: the least number of elements to insert, to drop or to replace that turns one into
the other. -/

namespace Manuscript.EditDistance

variable {α : Type} [DecidableEq α]

/-- The rest of a row of distances. `left` is the cell before it, `above` the row before from one cell earlier on. -/
def rowFrom (x : α) : (left : Nat) → (target : List α) → (above : List Nat) → List Nat
  | left, y :: target, diagonal :: upper :: rest =>
    let cell := if x = y then diagonal else min (min upper left) diagonal + 1
    cell :: rowFrom x cell target (upper :: rest)
  | _, _, _ => []

/-- The distances of one element more to every beginning of `target`. -/
def nextRow (target : List α) (above : List Nat) (x : α) : List Nat :=
  let first := above.headD 0 + 1
  first :: rowFrom x first target above

def distance (source target : List α) : Nat :=
  (source.foldl (nextRow target) (List.range (target.length + 1))).getLastD 0

end Manuscript.EditDistance
