import Manuscript.Latex.Write

/-! Output with room for so many bytes. The piece that no longer fits is taken as far as there is room, and
nothing is written after it. -/

namespace Manuscript

structure Sink where
  accepted : Bytes := []
  room : Nat
deriving DecidableEq, Repr

namespace Sink

/-- The sink after a write, and whether all of the piece fitted. -/
def write (sink : Sink) (piece : String) : Sink × Bool :=
  let bytes := Utf8.encode piece
  (⟨sink.accepted ++ bytes.take sink.room, sink.room - bytes.length⟩, bytes.length ≤ sink.room)

/-- Writes pieces up to the first failure; the flag tells whether all of them fitted. -/
def writeAll (sink : Sink) : List String → Sink × Bool
  | [] => (sink, true)
  | piece :: rest =>
    match sink.write piece with
    | (sink, true) => sink.writeAll rest
    | (sink, false) => (sink, false)

end Sink

/-- Writes a document into a sink. -/
def writeLatex (sink : Sink) (nodes : List Node) : Sink × Bool := sink.writeAll (Latex.allPieces nodes)

end Manuscript
