import Manuscript.Document.Token

/-! Decoding reads exactly the well-formed sequences. A character at the front of a byte string is found whatever
follows it, a byte that starts no character is replaced alone, and so decoding can be cut at any glyph. -/

namespace Manuscript.Utf8

/-- A well-formed character as decoding shows it. -/
def glyph (c : Char) : Glyph := ⟨c, c.utf8Size⟩

theorem isContinuation_iff (byte : UInt8) :
    isContinuation byte = true ↔ 0x80 ≤ byte.toNat ∧ byte.toNat ≤ 0xBF := by
  simp [isContinuation, UInt8.le_iff_toNat_le]

theorem secondOfThree_iff (lead second : UInt8) : secondOfThree lead second = true ↔
    0x80 ≤ second.toNat ∧ second.toNat ≤ 0xBF ∧ (lead.toNat = 0xE0 → 0xA0 ≤ second.toNat) ∧
      (lead.toNat = 0xED → second.toNat ≤ 0x9F) := by
  unfold secondOfThree
  simp only [beq_iff_eq, ← UInt8.toNat_inj]
  split
  next overlong => simp [UInt8.le_iff_toNat_le] at *; omega
  next =>
    split
    next surrogate => simp [UInt8.le_iff_toNat_le] at *; omega
    next => simp [isContinuation_iff] at *; omega

theorem secondOfFour_iff (lead second : UInt8) : secondOfFour lead second = true ↔
    0x80 ≤ second.toNat ∧ second.toNat ≤ 0xBF ∧ (lead.toNat = 0xF0 → 0x90 ≤ second.toNat) ∧
      (lead.toNat = 0xF4 → second.toNat ≤ 0x8F) := by
  unfold secondOfFour
  simp only [beq_iff_eq, ← UInt8.toNat_inj]
  split
  next overlong => simp [UInt8.le_iff_toNat_le] at *; omega
  next =>
    split
    next beyond => simp [UInt8.le_iff_toNat_le] at *; omega
    next => simp [isContinuation_iff] at *; omega

/-- The four well-formed shapes at the front of a byte string, with the number of the character they spell. -/
inductive Shape : UInt8 → Bytes → Nat → Nat → Prop where
  | one {lead rest} (small : lead.toNat < 0x80) : Shape lead rest lead.toNat 1
  | two {lead b rest} (range : 0xC2 ≤ lead.toNat ∧ lead.toNat ≤ 0xDF)
      (second : 0x80 ≤ b.toNat ∧ b.toNat ≤ 0xBF) :
      Shape lead (b :: rest) (lead.toNat % 32 * 64 + b.toNat % 64) 2
  | three {lead b c rest} (range : 0xE0 ≤ lead.toNat ∧ lead.toNat ≤ 0xEF)
      (second : 0x80 ≤ b.toNat ∧ b.toNat ≤ 0xBF ∧ (lead.toNat = 0xE0 → 0xA0 ≤ b.toNat) ∧
        (lead.toNat = 0xED → b.toNat ≤ 0x9F))
      (third : 0x80 ≤ c.toNat ∧ c.toNat ≤ 0xBF) :
      Shape lead (b :: c :: rest) (lead.toNat % 16 * 4096 + b.toNat % 64 * 64 + c.toNat % 64) 3
  | four {lead b c d rest} (range : 0xF0 ≤ lead.toNat ∧ lead.toNat ≤ 0xF4)
      (second : 0x80 ≤ b.toNat ∧ b.toNat ≤ 0xBF ∧ (lead.toNat = 0xF0 → 0x90 ≤ b.toNat) ∧
        (lead.toNat = 0xF4 → b.toNat ≤ 0x8F))
      (third : 0x80 ≤ c.toNat ∧ c.toNat ≤ 0xBF) (fourth : 0x80 ≤ d.toNat ∧ d.toNat ≤ 0xBF) :
      Shape lead (b :: c :: d :: rest)
        (lead.toNat % 8 * 262144 + b.toNat % 64 * 4096 + c.toNat % 64 * 64 + d.toNat % 64) 4

theorem first_of_shape {lead : UInt8} {rest : Bytes} {value width : Nat} (shape : Shape lead rest value width) :
    first lead rest = ⟨Char.ofNat value, width⟩ := by
  cases shape with
  | one small =>
    unfold first
    rw [if_pos (by simpa [UInt8.lt_iff_toNat_lt] using small)]
  | two range second =>
    unfold first
    rw [if_neg (by simp [UInt8.lt_iff_toNat_lt]; omega), if_pos (by simpa [UInt8.le_iff_toNat_le] using range)]
    exact if_pos ((isContinuation_iff _).mpr second)
  | three range second third =>
    unfold first
    rw [if_neg (by simp [UInt8.lt_iff_toNat_lt]; omega), if_neg (by simp [UInt8.le_iff_toNat_le]; omega),
      if_pos (by simpa [UInt8.le_iff_toNat_le] using range)]
    exact if_pos (by rw [(secondOfThree_iff _ _).mpr second, (isContinuation_iff _).mpr third]; rfl)
  | four range second third fourth =>
    unfold first
    rw [if_neg (by simp [UInt8.lt_iff_toNat_lt]; omega), if_neg (by simp [UInt8.le_iff_toNat_le]; omega),
      if_neg (by simp [UInt8.le_iff_toNat_le]; omega), if_pos (by simpa [UInt8.le_iff_toNat_le] using range)]
    exact if_pos (by
      rw [(secondOfFour_iff _ _).mpr second, (isContinuation_iff _).mpr third, (isContinuation_iff _).mpr fourth]; rfl)

/-- What starts with no well-formed shape is replaced. -/
theorem first_cases (lead : UInt8) (rest : Bytes) :
    (∃ value width, Shape lead rest value width) ∨ first lead rest = replacement := by
  unfold first
  split
  next small => exact .inl ⟨_, _, .one (by simpa [UInt8.lt_iff_toNat_lt] using small)⟩
  next =>
    simp only [Bool.and_eq_true, decide_eq_true_eq, UInt8.le_iff_toNat_le]
    split
    next range =>
      split
      next b tail =>
        split
        next second => exact .inl ⟨_, _, .two range ((isContinuation_iff b).mp second)⟩
        next => exact .inr rfl
      next => exact .inr rfl
    next =>
      split
      next range =>
        split
        next b c tail =>
          split
          next valid =>
            exact .inl ⟨_, _, .three range ((secondOfThree_iff _ _).mp valid.1) ((isContinuation_iff c).mp valid.2)⟩
          next => exact .inr rfl
        next => exact .inr rfl
      next =>
        split
        next range =>
          split
          next b c d tail =>
            split
            next valid =>
              exact .inl ⟨_, _, .four range ((secondOfFour_iff _ _).mp valid.1.1)
                ((isContinuation_iff c).mp valid.1.2) ((isContinuation_iff d).mp valid.2)⟩
            next => exact .inr rfl
          next => exact .inr rfl
        next => exact .inr rfl

theorem toNat_ofNat_small (n : Nat) (small : n < 256) : (UInt8.ofNat n).toNat = n := by
  simp [UInt8.toNat_ofNat', Nat.mod_eq_of_lt small]

/-- The bytes of a character have one of the shapes, whatever follows them. -/
theorem shape_of_encoded (c : Char) (rest : Bytes) : ∃ lead more,
    String.utf8EncodeChar c = lead :: more ∧ Shape lead (more ++ rest) c.toNat c.utf8Size := by
  have bound : c.toNat < 0xD800 ∨ 0xDFFF < c.toNat ∧ c.toNat < 0x110000 := c.valid
  have number : c.val.toNat = c.toNat := rfl
  rw [← String.length_utf8EncodeChar c]
  fun_cases String.utf8EncodeChar c with
  | case1 v small =>
    have leadNat := toNat_ofNat_small c.toNat (by omega)
    have shape : Shape (.ofNat c.toNat) rest _ 1 := .one (by omega)
    rw [leadNat] at shape
    exact ⟨_, _, rfl, shape⟩
  | case2 v large small =>
    have leadNat := toNat_ofNat_small (c.toNat / 64 % 0x20 + 0xc0) (by omega)
    have secondNat := toNat_ofNat_small (c.toNat % 0x40 + 0x80) (by omega)
    have value : (c.toNat / 64 % 0x20 + 0xc0) % 32 * 64 + (c.toNat % 0x40 + 0x80) % 64 = c.toNat := by omega
    have shape : Shape (.ofNat (c.toNat / 64 % 0x20 + 0xc0)) (.ofNat (c.toNat % 0x40 + 0x80) :: rest) _ 2 :=
      .two (by omega) (by omega)
    rw [leadNat, secondNat, value] at shape
    exact ⟨_, _, rfl, shape⟩
  | case3 v large larger small =>
    have leadNat := toNat_ofNat_small (c.toNat / 4096 % 0x10 + 0xe0) (by omega)
    have secondNat := toNat_ofNat_small (c.toNat / 64 % 0x40 + 0x80) (by omega)
    have thirdNat := toNat_ofNat_small (c.toNat % 0x40 + 0x80) (by omega)
    have value : (c.toNat / 4096 % 0x10 + 0xe0) % 16 * 4096 + (c.toNat / 64 % 0x40 + 0x80) % 64 * 64 +
      (c.toNat % 0x40 + 0x80) % 64 = c.toNat := by omega
    have shape : Shape (.ofNat (c.toNat / 4096 % 0x10 + 0xe0))
        (.ofNat (c.toNat / 64 % 0x40 + 0x80) :: .ofNat (c.toNat % 0x40 + 0x80) :: rest) _ 3 :=
      .three (by omega) (by omega) (by omega)
    rw [leadNat, secondNat, thirdNat, value] at shape
    exact ⟨_, _, rfl, shape⟩
  | case4 v large larger largest =>
    have leadNat := toNat_ofNat_small (c.toNat / 262144 % 0x08 + 0xf0) (by omega)
    have secondNat := toNat_ofNat_small (c.toNat / 4096 % 0x40 + 0x80) (by omega)
    have thirdNat := toNat_ofNat_small (c.toNat / 64 % 0x40 + 0x80) (by omega)
    have fourthNat := toNat_ofNat_small (c.toNat % 0x40 + 0x80) (by omega)
    have value : (c.toNat / 262144 % 0x08 + 0xf0) % 8 * 262144 + (c.toNat / 4096 % 0x40 + 0x80) % 64 * 4096 +
      (c.toNat / 64 % 0x40 + 0x80) % 64 * 64 + (c.toNat % 0x40 + 0x80) % 64 = c.toNat := by omega
    have shape : Shape (.ofNat (c.toNat / 262144 % 0x08 + 0xf0)) (.ofNat (c.toNat / 4096 % 0x40 + 0x80) ::
        .ofNat (c.toNat / 64 % 0x40 + 0x80) :: .ofNat (c.toNat % 0x40 + 0x80) :: rest) _ 4 :=
      .four (by omega) (by omega) (by omega) (by omega)
    rw [leadNat, secondNat, thirdNat, fourthNat, value] at shape
    exact ⟨_, _, rfl, shape⟩

private theorem ofNat_eq_of_toNat {n : Nat} {byte : UInt8} (same : n = byte.toNat) : UInt8.ofNat n = byte := by
  subst same
  exact UInt8.ofNat_toNat

/-- A shape spells a character: encoding it gives the same bytes back. -/
theorem encoded_of_shape {lead : UInt8} {rest : Bytes} {value width : Nat} (shape : Shape lead rest value width) :
    lead :: rest = String.utf8EncodeChar (Char.ofNat value) ++ rest.drop (width - 1) := by
  have valid : value.isValidChar := by
    cases shape <;> simp only [Nat.isValidChar] <;> omega
  have number : (Char.ofNat value).val.toNat = value := by
    rw [Char.ofNat, dif_pos valid]
    rfl
  simp only [String.utf8EncodeChar, number]
  cases shape with
  | one small =>
    rw [if_pos (by omega)]
    simp
  | two range second =>
    rw [if_neg (by omega), if_pos (by omega)]
    congr 1
    · exact (ofNat_eq_of_toNat (by omega)).symm
    · congr 1
      exact (ofNat_eq_of_toNat (by omega)).symm
  | three range second third =>
    rw [if_neg (by omega), if_neg (by omega), if_pos (by omega)]
    congr 1
    · exact (ofNat_eq_of_toNat (by omega)).symm
    · congr 1
      · exact (ofNat_eq_of_toNat (by omega)).symm
      · congr 1
        exact (ofNat_eq_of_toNat (by omega)).symm
  | four range second third fourth =>
    rw [if_neg (by omega), if_neg (by omega), if_neg (by omega)]
    congr 1
    · exact (ofNat_eq_of_toNat (by omega)).symm
    · congr 1
      · exact (ofNat_eq_of_toNat (by omega)).symm
      · congr 1
        · exact (ofNat_eq_of_toNat (by omega)).symm
        · congr 1
          exact (ofNat_eq_of_toNat (by omega)).symm

theorem first_encoded (c : Char) (rest : Bytes) : ∃ lead more,
    String.utf8EncodeChar c = lead :: more ∧ first lead (more ++ rest) = glyph c := by
  obtain ⟨lead, more, encoded, shape⟩ := shape_of_encoded c rest
  refine ⟨lead, more, encoded, ?_⟩
  rw [first_of_shape shape, Char.ofNat_toNat]
  rfl

/-- A byte string starts with a character, which decoding shows, or with a byte that belongs to none, which it
replaces. -/
theorem first_split (lead : UInt8) (rest : Bytes) :
    (∃ c tail, lead :: rest = String.utf8EncodeChar c ++ tail ∧ first lead rest = glyph c) ∨
    (first lead rest = replacement ∧ ∀ c tail, lead :: rest ≠ String.utf8EncodeChar c ++ tail) := by
  have found : ∀ c tail, lead :: rest = String.utf8EncodeChar c ++ tail → first lead rest = glyph c := by
    intro c tail same
    obtain ⟨lead', more, encoded, known⟩ := first_encoded c tail
    rw [encoded, List.cons_append] at same
    obtain ⟨rfl, rfl⟩ := List.cons.inj same
    exact known
  rcases first_cases lead rest with ⟨value, width, shape⟩ | replaced
  · exact .inl ⟨_, _, encoded_of_shape shape, found _ _ (encoded_of_shape shape)⟩
  · refine .inr ⟨replaced, ?_⟩
    intro c tail same
    -- The replacement character itself takes up three bytes, the glyph of a malformed byte one.
    have glyphs : glyph c = replacement := (found c tail same).symm.trans replaced
    obtain ⟨chars, widths⟩ := Glyph.mk.inj glyphs
    subst chars
    exact absurd widths (by decide)

theorem decodeFrom_eq_drop (skip : Nat) (bytes : Bytes) : decodeFrom skip bytes = decode (bytes.drop skip) := by
  induction bytes generalizing skip with
  | nil => cases skip <;> rfl
  | cons byte rest ih =>
    cases skip with
    | zero => rfl
    | succ skip => simpa [decodeFrom] using ih skip

theorem decode_cons (lead : UInt8) (rest : Bytes) :
    decode (lead :: rest) = first lead rest :: decode (rest.drop ((first lead rest).width - 1)) := by
  rw [decode, decodeFrom, decodeFrom_eq_drop]

theorem decode_char (c : Char) (rest : Bytes) :
    decode (String.utf8EncodeChar c ++ rest) = glyph c :: decode rest := by
  obtain ⟨lead, more, encoded, known⟩ := first_encoded c rest
  have size : more.length + 1 = c.utf8Size := by
    rw [← String.length_utf8EncodeChar, encoded, List.length_cons]
  rw [encoded, List.cons_append, decode_cons, known]
  simp [glyph, ← size]

theorem decode_malformed {byte : UInt8} {rest : Bytes}
    (alone : ∀ c tail, byte :: rest ≠ String.utf8EncodeChar c ++ tail) :
    decode (byte :: rest) = replacement :: decode rest := by
  rcases first_split byte rest with ⟨c, tail, same, _⟩ | ⟨replaced, _⟩
  · exact absurd same (alone c tail)
  · rw [decode_cons, replaced]
    rfl

/-- How bytes read as text: characters stand for themselves, and a byte that is part of no character for the
replacement character. -/
inductive Reads : Bytes → List Char → Prop where
  | nil : Reads [] []
  | char (c : Char) {rest text} (reads : Reads rest text) : Reads (String.utf8EncodeChar c ++ rest) (c :: text)
  | malformed {byte rest text} (alone : ∀ c tail, byte :: rest ≠ String.utf8EncodeChar c ++ tail)
      (reads : Reads rest text) : Reads (byte :: rest) ('\uFFFD' :: text)

private theorem Reads.eq_decode {bytes : Bytes} {chars : List Char} (reads : Reads bytes chars) :
    chars = (decode bytes).map Glyph.char := by
  induction reads with
  | nil => rfl
  | char c _ ih => rw [decode_char, List.map_cons, ← ih]; rfl
  | malformed alone _ ih => rw [decode_malformed alone, List.map_cons, ← ih]; rfl

theorem reads_decode (bytes : Bytes) : Reads bytes ((decode bytes).map Glyph.char) := by
  induction size : bytes.length using Nat.strongRecOn generalizing bytes with
  | ind n ih =>
    cases bytes with
    | nil => exact .nil
    | cons lead rest =>
      rcases first_split lead rest with ⟨c, tail, same, _⟩ | ⟨_, alone⟩
      · rw [same, decode_char]
        have shorter : tail.length < n := by
          have lengths := congrArg List.length same
          have positive := Char.utf8Size_pos c
          simp only [List.length_append, String.length_utf8EncodeChar] at lengths
          omega
        exact .char c (ih _ shorter tail rfl)
      · rw [decode_malformed alone]
        exact .malformed alone (ih _ (by simp [← size]) rest rfl)

/-- Decoding is the one way of reading bytes as text. -/
theorem reads_iff (bytes : Bytes) (chars : List Char) : Reads bytes chars ↔ chars = (decode bytes).map Glyph.char :=
  ⟨Reads.eq_decode, fun same => same ▸ reads_decode bytes⟩

private theorem byteList_loop (bytes : ByteArray) (index : Nat) (taken : List UInt8) :
    ByteArray.toList.loop bytes index taken = taken.reverse ++ bytes.data.toList.drop index := by
  fun_induction ByteArray.toList.loop bytes index taken with
  | case1 index taken inside ih =>
    have bound : index < bytes.data.toList.length := by simpa using inside
    rw [ih, List.drop_eq_getElem_cons bound]
    simp [ByteArray.get!, inside]
  | case2 index taken outside =>
    have past : bytes.data.toList.length ≤ index := by simpa using outside
    simp [List.drop_eq_nil_of_le past]

theorem encode_eq (text : String) : encode text = text.toList.flatMap String.utf8EncodeChar := by
  have chars : text.toUTF8 = (text.toList.flatMap String.utf8EncodeChar).toByteArray := by
    rw [String.toUTF8_eq_toByteArray, ← String.utf8Encode_toList]
    rfl
  rw [encode, ByteArray.toList, byteList_loop, chars, List.toList_data_toByteArray]
  rfl

theorem encode_append (text more : String) : encode (text ++ more) = encode text ++ encode more := by
  rw [encode_eq, encode_eq, encode_eq, String.toList_append, List.flatMap_append]

theorem decode_encode (text : String) : decode (encode text) = text.toList.map glyph := by
  rw [encode_eq]
  induction text.toList with
  | nil => rfl
  | cons c chars ih => rw [List.flatMap_cons, decode_char, ih, List.map_cons]

end Manuscript.Utf8
