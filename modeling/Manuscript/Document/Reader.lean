import Manuscript.Document.Token

/-! Reading words from a source that may fail. A reader permits a number of character reads, the read that
finds the end of input included, and putting a character back returns one read; or it refuses to take
characters back at all. A run is known to be complete only after the character behind it was seen and put
back, so a failure inside a run leaves no word for it. -/

namespace Manuscript

/-- `reads` is the number of reads left, `none` for no limit. -/
structure Reader where
  rest : List Glyph
  reads : Option Nat := none
  takesBack : Bool := true

inductive ReadStop where
  | endOfInput
  | readFailed
  | unreadFailed
deriving DecidableEq, Repr

namespace ReadStop

def message : ReadStop → String
  | endOfInput => "EOF"
  | readFailed => "read failed"
  | unreadFailed => "unread failed"

end ReadStop

namespace Reader

/-- The reads left after one more, `none` when it is refused. -/
def spend : Option Nat → Option (Option Nat)
  | none => some none
  | some 0 => none
  | some (reads + 1) => some (some reads)

/-- The words read before the reader stops. `run` holds the glyphs of an unfinished run, latest first. -/
def wordsFrom (takesBack : Bool) : (reads : Option Nat) → (offset : Nat) → (run : List Glyph) → List Glyph →
    List Token × ReadStop
  | reads, offset, run, [] =>
    match spend reads, run with
    | none, _ => ([], .readFailed)
    | some _, [] => ([], .endOfInput)
    | some left, run => ([Words.token offset run.reverse], if (spend left).isNone then .readFailed else .endOfInput)
  | reads, offset, run, glyph :: rest =>
    match spend reads with
    | none => ([], .readFailed)
    | some left =>
      if Words.isPlain glyph.char then wordsFrom takesBack left offset (glyph :: run) rest
      else
        match run with
        | [] =>
          let (words, stop) := wordsFrom takesBack left (offset + glyph.width) [] rest
          (Words.token offset [glyph] :: words, stop)
        | run =>
          if takesBack then
            let next := offset + Words.width run.reverse
            let (words, stop) := wordsFrom takesBack left (next + glyph.width) [] rest
            (Words.token offset run.reverse :: Words.token next [glyph] :: words, stop)
          else ([], .unreadFailed)

def words (reader : Reader) : List Token × ReadStop :=
  wordsFrom reader.takesBack reader.reads 0 [] reader.rest

end Reader
end Manuscript
