import Manuscript.Text.Blank
import Manuscript.Text.Hex
import Manuscript.Text.Utf8

/-! Percent encoding of path segments. Escapes stand for bytes, so decoded text need not be well formed. -/

namespace Manuscript.Percent

def byteChar (byte : UInt8) : Char := Char.ofNat byte.toNat

/-- The bytes that a text stands for, unless a percent sign in it starts no escape. -/
def decode : Bytes → Option Bytes
  | [] => some []
  | byte :: rest =>
    if byte = 0x25 then
      match rest with
      | high :: low :: rest =>
        match Hex.value? (byteChar high), Hex.value? (byteChar low) with
        | some h, some l => (decode rest).map (UInt8.ofNat (16 * h + l) :: ·)
        | _, _ => none
      | _ => none
    else (decode rest).map (byte :: ·)

/-- Bytes that may stand for themselves in a path segment. -/
def isSafe (byte : UInt8) : Bool :=
  let c := byteChar byte
  byte < 0x80 && (c.isAlphanum || c ∈ ['-', '_', '.', '~', '$', '&', '+', ':', '=', '@'])

def encodeByte (byte : UInt8) : List Char :=
  if isSafe byte then [byteChar byte] else '%' :: Hex.digits Hex.upperDigit 2 byte.toNat

def encode (bytes : Bytes) : String := String.ofList (bytes.flatMap encodeByte)

/-- Cuts bytes into characters, each with the bytes it was decoded from. -/
def chunksFrom : List Glyph → Bytes → List (Char × Bytes)
  | [], _ => []
  | glyph :: glyphs, bytes => (glyph.char, bytes.take glyph.width) :: chunksFrom glyphs (bytes.drop glyph.width)

/-- The runs of bytes between white space. -/
def fields (bytes : Bytes) : List Bytes :=
  (Blank.fieldsBy (Blank.isSpace ·.1) (chunksFrom (Utf8.decode bytes) bytes)).map (·.flatMap Prod.snd)

end Manuscript.Percent
