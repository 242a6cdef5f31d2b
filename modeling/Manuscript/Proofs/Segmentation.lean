import Manuscript.Proofs.ParseLossless
import Manuscript.Proofs.WordClasses

/-! A source has one segmentation. A cut through a character leaves malformed bytes on both of its sides; these read as
plain characters, and so there would be a run next to a run. All other cuts are between glyphs, where the words of a text
can be cut in one way only. -/

namespace Manuscript

namespace Utf8

/-- A character starts with a byte that continues none, and all of its other bytes continue it. -/
theorem encoded_continues (c : Char) : ∃ lead more, String.utf8EncodeChar c = lead :: more ∧
    isContinuation lead = false ∧ ∀ byte ∈ more, isContinuation byte = true := by
  obtain ⟨lead, more, encoded, shape⟩ := shape_of_encoded c []
  have size : more.length + 1 = c.utf8Size := by rw [← String.length_utf8EncodeChar, encoded, List.length_cons]
  refine ⟨lead, more, encoded, ?_⟩
  rw [List.append_nil] at shape
  simp only [Bool.eq_false_iff, ne_eq, isContinuation_iff]
  generalize c.toNat = value at shape
  generalize c.utf8Size = width at shape size
  cases shape with
  | one small =>
    obtain rfl := List.length_eq_zero_iff.mp (Nat.succ.inj size)
    exact ⟨by omega, by simp⟩
  | @two b rest range second =>
    obtain rfl := List.length_eq_zero_iff.mp (Nat.succ.inj (Nat.succ.inj size))
    exact ⟨by omega, by simpa using second⟩
  | @three b c rest range second third =>
    obtain rfl := List.length_eq_zero_iff.mp (Nat.succ.inj (Nat.succ.inj (Nat.succ.inj size)))
    exact ⟨by omega, by simpa using ⟨⟨second.1, second.2.1⟩, third⟩⟩
  | @four b c d rest range second third fourth =>
    obtain rfl := List.length_eq_zero_iff.mp (Nat.succ.inj (Nat.succ.inj (Nat.succ.inj (Nat.succ.inj size))))
    exact ⟨by omega, by simpa using ⟨⟨second.1, second.2.1⟩, third, fourth⟩⟩

theorem decode_continuation {byte : UInt8} (continues : isContinuation byte = true) (rest : Bytes) :
    decode (byte :: rest) = replacement :: decode rest := by
  apply decode_malformed
  intro c tail same
  obtain ⟨lead, more, encoded, starts, _⟩ := encoded_continues c
  rw [encoded, List.cons_append] at same
  rw [(List.cons.inj same).1, starts] at continues
  cases continues

/-- No part of a character, cut off before its end, starts with a character. -/
theorem decode_cut_off (c : Char) {count : Nat} (some : 0 < count) (short : count < c.utf8Size) :
    replacement ∈ decode ((String.utf8EncodeChar c).take count) := by
  have size := String.length_utf8EncodeChar c
  cases shape : (String.utf8EncodeChar c).take count with
  | nil => simp [← List.length_eq_zero_iff] at shape; omega
  | cons lead part =>
    rw [decode_malformed]
    · exact List.mem_cons_self
    · intro d tail same
      -- otherwise the whole character would start with the other one as well
      have whole := List.take_append_drop count (String.utf8EncodeChar c)
      rw [shape, same, List.append_assoc] at whole
      have read := decode_char d (tail ++ (String.utf8EncodeChar c).drop count)
      rw [whole, ← List.append_nil (String.utf8EncodeChar c), decode_char c []] at read
      obtain rfl : c = d := congrArg Glyph.char (List.cons.inj read).1
      have lengths := congrArg List.length (shape.trans same)
      rw [List.length_take, List.length_append] at lengths
      omega

/-- A source is cut between two glyphs, or through a character; then there are malformed bytes in front of the cut, and
one right behind it. -/
theorem decode_cut (bytes : Bytes) (count : Nat) (inside : count ≤ bytes.length) :
    (∃ group others, decode bytes = group ++ others ∧ Words.width group = count) ∨
      (replacement ∈ decode (bytes.take count) ∧
        ∃ byte rest, bytes.drop count = byte :: rest ∧ isContinuation byte = true) := by
  have reads := reads_decode bytes
  generalize (decode bytes).map Glyph.char = chars at reads
  induction reads generalizing count with
  | nil => exact .inl ⟨[], [], rfl, (Nat.le_zero.mp inside).symm⟩
  | @char c rest chars _ ih =>
    have size := String.length_utf8EncodeChar c
    rcases Nat.lt_or_ge count c.utf8Size with short | long
    · rcases Nat.eq_zero_or_pos count with rfl | some
      · exact .inl ⟨[], _, rfl, rfl⟩
      · right
        rw [List.take_append_of_le_length (by omega), List.drop_append_of_le_length (by omega)]
        refine ⟨decode_cut_off c some short, ?_⟩
        obtain ⟨lead, more, encoded, _, continues⟩ := encoded_continues c
        obtain ⟨before, rfl⟩ := Nat.exists_eq_succ_of_ne_zero (Nat.ne_of_gt some)
        have bound : before < more.length := by
          rw [encoded, List.length_cons] at size
          omega
        rw [encoded, List.drop_succ_cons, List.drop_eq_getElem_cons bound]
        exact ⟨_, _, rfl, continues _ (List.getElem_mem _)⟩
    · obtain ⟨behind, rfl⟩ := Nat.exists_eq_add_of_le long
      rw [List.length_append] at inside
      rw [← size, List.take_length_add_append, List.drop_length_add_append, decode_char, decode_char, size]
      refine (ih behind (by omega)).imp ?_ (.imp_left (List.mem_cons_of_mem _))
      rintro ⟨group, others, split, width⟩
      exact ⟨glyph c :: group, others, by rw [split, List.cons_append], by rw [Words.width, width]; rfl⟩
  | @malformed byte rest chars alone _ ih =>
    cases count with
    | zero => exact .inl ⟨[], _, rfl, rfl⟩
    | succ behind =>
      rw [List.length_cons] at inside
      have apart : decode (byte :: rest.take behind) = replacement :: decode (rest.take behind) := by
        apply decode_malformed
        intro c tail same
        apply alone c (tail ++ rest.drop behind)
        rw [← List.append_assoc, ← same, List.cons_append, List.take_append_drop]
      rw [List.take_succ_cons, List.drop_succ_cons, decode_malformed alone, apart]
      refine (ih behind (by omega)).imp ?_ (.imp_left (List.mem_cons_of_mem _))
      rintro ⟨group, others, split, width⟩
      exact ⟨replacement :: group, others, by rw [split, List.cons_append], by rw [Words.width, width, Nat.add_comm]; rfl⟩

end Utf8

open Words

/-- What reads as a malformed byte is part of a run. -/
theorem Words.plain_of_malformed {word : String} (shape : isPlainWord word = true ∨ isSingle word = true)
    (malformed : Utf8.replacement.char ∈ word.toList) : isPlainWord word = true := by
  refine shape.resolve_right fun single => ?_
  obtain ⟨c, letters, special⟩ := (isSingle_iff word).mp single
  rw [letters] at malformed
  rw [← List.mem_singleton.mp malformed] at special
  exact absurd special (by decide)

namespace Covering

variable {source : Bytes} {offset : Nat} {token : Token} {tokens : List Token}

theorem tail (covering : Covering source offset (token :: tokens)) : Covering source token.span.stop tokens := by
  refine ⟨(List.forall_mem_cons.mp covering.filled).2, covering.contiguous.tail, ?_, ?_,
    (List.forall_mem_cons.mp covering.texts).2⟩
  · intro next member
    exact ((List.isChain_cons.mp covering.contiguous).1 next member).symm
  · rw [← covering.ends]
    cases tokens with
    | nil => rfl
    | cons next others => rw [List.getLast?_cons_cons, List.getLast?_cons]; rfl

theorem inside (covering : Covering source offset tokens) : offset ≤ source.length := by
  induction tokens generalizing offset with
  | nil => exact Nat.le_of_eq covering.ends
  | cons token tokens ih =>
    rw [← covering.starts token rfl]
    exact Nat.le_trans (Nat.le_of_lt (covering.filled token List.mem_cons_self)) (ih covering.tail)

theorem nothing_behind (covering : Covering source offset []) : source.drop offset = [] :=
  List.drop_eq_nil_of_le (Nat.le_of_eq covering.ends.symm)

theorem letters (covering : Covering source offset (token :: tokens)) : token.text.toList =
    (Utf8.decode ((source.drop offset).take (token.span.stop - offset))).map Glyph.char := by
  rw [← Utf8.reads_iff, ← covering.starts token rfl]
  exact covering.texts token List.mem_cons_self

/-- A word that starts inside of a character is a run. -/
theorem starts_plain (covering : Covering source offset tokens) (proper : Proper (tokens.map Token.text)) {byte : UInt8}
    {rest : Bytes} (behind : source.drop offset = byte :: rest) (continues : Utf8.isContinuation byte = true) :
    ∃ next ∈ (tokens.map Token.text).head?, isPlainWord next = true := by
  cases tokens with
  | nil =>
    rw [covering.nothing_behind] at behind
    cases behind
  | cons token tokens =>
    refine ⟨token.text, rfl, plain_of_malformed (proper.shapes _ List.mem_cons_self) ?_⟩
    have filled := covering.filled token List.mem_cons_self
    rw [covering.starts token rfl] at filled
    obtain ⟨width, longer⟩ : ∃ width, token.span.stop - offset = width + 1 := ⟨token.span.stop - offset - 1, by omega⟩
    rw [covering.letters, behind, longer, List.take_succ_cons, Utf8.decode_continuation continues]
    exact List.mem_cons_self

/-- Tokens that cover a source and are proper words are cut between its glyphs. -/
theorem tiles (covering : Covering source offset tokens) (proper : Proper (tokens.map Token.text)) :
    Tiles offset (Utf8.decode (source.drop offset)) tokens := by
  induction tokens generalizing offset with
  | nil =>
    rw [covering.nothing_behind]
    exact .nil
  | cons token tokens ih =>
    have starts := covering.starts token rfl
    have filled := covering.filled token List.mem_cons_self
    have stops := covering.tail.inside
    rcases Utf8.decode_cut (source.drop offset) (token.span.stop - offset) (by rw [List.length_drop]; omega) with
      ⟨group, others, split, width⟩ | ⟨malformed, byte, rest, behind, continues⟩
    · obtain ⟨front, back⟩ := Utf8.decode_split group others _ split
      have stop : offset + Words.width group = token.span.stop := by omega
      have word : token = Words.token offset group := by
        have letters := covering.letters
        rw [← width, front] at letters
        obtain ⟨text, start, stop⟩ := token
        rw [Words.token, ← letters, String.ofList_toList, stop, ← starts]
      have further := ih covering.tail proper.tail
      rw [List.drop_drop, stop] at back
      rw [← stop] at further
      rw [split, ← back, ← stop, word]
      refine .cons ?_ further
      rintro rfl
      simp only [Words.width] at width
      omega
    · -- The cut goes through a character, and so this word and the next one are both runs.
      have run : isPlainWord token.text = true := by
        apply plain_of_malformed (proper.shapes _ List.mem_cons_self)
        rw [covering.letters]
        exact List.mem_map_of_mem malformed
      rw [List.drop_drop, Nat.add_sub_cancel' (by omega)] at behind
      obtain ⟨next, first, plain⟩ := covering.tail.starts_plain proper.tail behind continues
      rw [(List.isChain_cons.mp proper.maximal).1 next first run] at plain
      cases plain

end Covering

/-- Tiles that read the same are the same. -/
theorem Tiles.unique {offset : Nat} {glyphs : List Glyph} {tokens others : List Token}
    (tiles : Tiles offset glyphs tokens) (again : Tiles offset glyphs others)
    (texts : tokens.map Token.text = others.map Token.text) : tokens = others := by
  induction tiles generalizing others with
  | nil => exact (List.map_eq_nil_iff.mp texts.symm).symm
  | @cons offset group rest tokens some tiles ih =>
    generalize whole : group ++ rest = glyphs at again
    cases again with
    | nil => cases texts
    | @cons _ group' rest' _ some' tiles' =>
      rw [List.map_cons, List.map_cons] at texts
      have letters := congrArg (fun text => text.toList.length) (List.cons.inj texts).1
      simp only [token_text, List.length_map] at letters
      obtain ⟨rfl, rfl⟩ := List.append_inj whole letters
      rw [ih tiles' (List.cons.inj texts).2]

/-- The words of a source are the only list of tokens that lie side by side from the start of the source to its end, each
reading as the source does there, in which each is a single reserved or white space character or a run of plain characters
and no two runs stand side by side. -/
theorem segmentation_unique (source : Bytes) (tokens : List Token) :
    tokens = Words.ofBytes source ↔ Covering source 0 tokens ∧ Words.Proper (tokens.map Token.text) := by
  have words := Words.segmentFrom_tiles 0 (Utf8.decode source)
  constructor
  · rintro rfl
    exact ⟨words.covering (Nat.zero_le _) rfl, Words.segment_proper 0 _⟩
  · rintro ⟨covering, proper⟩
    have tiles := covering.tiles proper
    rw [List.drop_zero] at tiles
    exact tiles.unique words (Words.segment_texts _ proper 0 _ (by
      rw [List.flatMap_map]
      exact tiles.spelling.symm)).symm

end Manuscript
