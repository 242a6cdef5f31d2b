import Manuscript.Text.Blank
import Manuscript.Text.Utf8

/-! Words of source text: a single reserved character, a single white space character, or a maximal run of
characters that are neither. -/

namespace Manuscript

/-- Byte offsets into the source; `stop` is exclusive. -/
structure Span where
  start : Nat := 0
  stop : Nat := 0
deriving DecidableEq, Repr, Inhabited

structure Token where
  text : String
  span : Span := {}
deriving DecidableEq, Repr, Inhabited

namespace Token

/-- An absent token reads as no text. -/
def textOf (token : Option Token) : String := (token.map Token.text).getD ""

end Token

namespace Words

/-- Characters that always form a word on their own. -/
def isReserved (c : Char) : Bool :=
  c ∈ ['\\', '{', '}', '[', ']', '(', ')', '=', '>', '_', '^', ',', '.', '"']

def isPlain (c : Char) : Bool := !isReserved c && !Blank.isSpace c

/-- A run of plain characters. -/
def isPlainWord (word : String) : Bool := word != "" && word.toList.all isPlain

def width : List Glyph → Nat
  | [] => 0
  | glyph :: rest => glyph.width + width rest

def token (offset : Nat) (glyphs : List Glyph) : Token :=
  ⟨String.ofList (glyphs.map Glyph.char), ⟨offset, offset + width glyphs⟩⟩

/-- Segments what follows `skip` glyphs that the previous run has claimed; `offset` is where it starts. -/
def segmentFrom : (skip offset : Nat) → List Glyph → List Token
  | _, _, [] => []
  | skip + 1, offset, _ :: rest => segmentFrom skip offset rest
  | 0, offset, glyph :: rest =>
    let run := if isPlain glyph.char then rest.takeWhile (isPlain ·.char) else []
    token offset (glyph :: run) :: segmentFrom run.length (offset + width (glyph :: run)) rest

def segment (glyphs : List Glyph) : List Token := segmentFrom 0 0 glyphs

def ofBytes (source : Bytes) : List Token := segment (Utf8.decode source)

end Words
end Manuscript
