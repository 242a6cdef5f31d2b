/-! Source bytes as characters. A byte that belongs to no well-formed sequence counts as one replacement
character of width one, so decoding never fails and the widths always add up to the length of the input. -/

namespace Manuscript

abbrev Bytes := List UInt8

/-- A decoded character together with the number of source bytes it occupies. -/
structure Glyph where
  char : Char
  width : Nat
deriving DecidableEq, Repr

namespace Utf8

/-- Stands for a byte that is not part of a well-formed sequence. -/
def replacement : Glyph := ⟨'\uFFFD', 1⟩

def isContinuation (byte : UInt8) : Bool := 0x80 ≤ byte && byte ≤ 0xBF

def payload (byte : UInt8) : Nat := byte.toNat % 64

/-- The second byte of a three-byte sequence is restricted after `E0` (overlong forms) and `ED` (surrogates). -/
def secondOfThree (lead second : UInt8) : Bool :=
  if lead == 0xE0 then 0xA0 ≤ second && second ≤ 0xBF
  else if lead == 0xED then 0x80 ≤ second && second ≤ 0x9F
  else isContinuation second

/-- The second byte of a four-byte sequence is restricted after `F0` (overlong forms) and `F4` (beyond the last plane). -/
def secondOfFour (lead second : UInt8) : Bool :=
  if lead == 0xF0 then 0x90 ≤ second && second ≤ 0xBF
  else if lead == 0xF4 then 0x80 ≤ second && second ≤ 0x8F
  else isContinuation second

/-- The character that starts at `lead`, given the bytes after it. -/
def first (lead : UInt8) (rest : Bytes) : Glyph :=
  if lead < 0x80 then ⟨Char.ofNat lead.toNat, 1⟩
  else if 0xC2 ≤ lead && lead ≤ 0xDF then
    match rest with
    | b :: _ =>
      if isContinuation b then ⟨Char.ofNat (lead.toNat % 32 * 64 + payload b), 2⟩ else replacement
    | _ => replacement
  else if 0xE0 ≤ lead && lead ≤ 0xEF then
    match rest with
    | b :: c :: _ =>
      if secondOfThree lead b && isContinuation c then
        ⟨Char.ofNat (lead.toNat % 16 * 4096 + payload b * 64 + payload c), 3⟩
      else replacement
    | _ => replacement
  else if 0xF0 ≤ lead && lead ≤ 0xF4 then
    match rest with
    | b :: c :: d :: _ =>
      if secondOfFour lead b && isContinuation c && isContinuation d then
        ⟨Char.ofNat (lead.toNat % 8 * 262144 + payload b * 4096 + payload c * 64 + payload d), 4⟩
      else replacement
    | _ => replacement
  else replacement

/-- Decodes after passing over `skip` bytes that an earlier character has already claimed. -/
def decodeFrom : (skip : Nat) → Bytes → List Glyph
  | _, [] => []
  | skip + 1, _ :: rest => decodeFrom skip rest
  | 0, lead :: rest =>
    let glyph := first lead rest
    glyph :: decodeFrom (glyph.width - 1) rest

def decode (bytes : Bytes) : List Glyph := decodeFrom 0 bytes

/-- The text that decoding shows, one replacement character per malformed byte. -/
def text (bytes : Bytes) : String := String.ofList ((decode bytes).map Glyph.char)

def encode (text : String) : Bytes := text.toUTF8.toList

end Utf8
end Manuscript
