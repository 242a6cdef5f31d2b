import Mathlib.Data.List.Chain
import Manuscript.Proofs.Decoding

/-! Words lie side by side in the source. A list of tokens tiles a list of glyphs when it cuts it into consecutive
groups, none of them empty; tiles may be joined, and what tiles the decoded source covers its bytes. -/

namespace Manuscript

namespace Words

theorem width_append (glyphs others : List Glyph) : width (glyphs ++ others) = width glyphs + width others := by
  induction glyphs with
  | nil => simp [width]
  | cons glyph glyphs ih => simp [width, ih, Nat.add_assoc]

end Words

namespace Utf8

/-- Decoding a source that is cut behind some of its glyphs gives these glyphs and the others. -/
theorem decode_split (group others : List Glyph) (bytes : Bytes) (whole : decode bytes = group ++ others) :
    decode (bytes.take (Words.width group)) = group ∧ decode (bytes.drop (Words.width group)) = others := by
  induction group generalizing bytes with
  | nil => exact ⟨rfl, by simpa [Words.width] using whole⟩
  | cons glyph group ih =>
    cases bytes with
    | nil => cases whole
    | cons lead rest =>
      rcases first_split lead rest with ⟨c, tail, same, _⟩ | ⟨_, alone⟩
      · rw [same, decode_char, List.cons_append] at whole
        obtain ⟨rfl, more⟩ := List.cons.inj whole
        have size : Words.width (Utf8.glyph c :: group) = (String.utf8EncodeChar c).length + Words.width group := by
          rw [String.length_utf8EncodeChar]
          rfl
        rw [same, size, List.take_length_add_append, List.drop_length_add_append, decode_char]
        exact ⟨congrArg _ (ih tail more).1, (ih tail more).2⟩
      · rw [decode_malformed alone, List.cons_append] at whole
        obtain ⟨rfl, more⟩ := List.cons.inj whole
        have size : Words.width (replacement :: group) = Words.width group + 1 := Nat.add_comm _ _
        rw [size, List.take_succ_cons, List.drop_succ_cons, decode_malformed]
        · exact ⟨congrArg _ (ih rest more).1, (ih rest more).2⟩
        · intro c tail same
          apply alone c (tail ++ rest.drop (Words.width group))
          rw [← List.append_assoc, ← same, List.cons_append, List.take_append_drop]

theorem width_decode (bytes : Bytes) : Words.width (decode bytes) = bytes.length := by
  have reads := reads_decode bytes
  generalize (decode bytes).map Glyph.char = chars at reads
  induction reads with
  | nil => rfl
  | char c _ ih => rw [decode_char, Words.width, ih, List.length_append, String.length_utf8EncodeChar]; rfl
  | malformed alone _ ih => rw [decode_malformed alone, Words.width, ih, List.length_cons, Nat.add_comm]; rfl

theorem width_pos (bytes : Bytes) : ∀ glyph ∈ decode bytes, 0 < glyph.width := by
  have reads := reads_decode bytes
  generalize (decode bytes).map Glyph.char = chars at reads
  induction reads with
  | nil => intro glyph member; cases member
  | char c _ ih => rw [decode_char]; exact List.forall_mem_cons.mpr ⟨Char.utf8Size_pos c, ih⟩
  | malformed alone _ ih => rw [decode_malformed alone]; exact List.forall_mem_cons.mpr ⟨Nat.one_pos, ih⟩

end Utf8

/-- Tokens that cut a list of glyphs, the first of which stands at `offset`, into consecutive groups. -/
inductive Tiles : Nat → List Glyph → List Token → Prop where
  | nil {offset} : Tiles offset [] []
  | cons {offset group rest tokens} (some : group ≠ []) (tiles : Tiles (offset + Words.width group) rest tokens) :
      Tiles offset (group ++ rest) (Words.token offset group :: tokens)

namespace Words

/-- The words of a text are cut from its characters as they are. -/
theorem ofBytes_encode (text : String) : ofBytes (Utf8.encode text) = segment (text.toList.map Utf8.glyph) := by
  rw [ofBytes, Utf8.decode_encode]

theorem segmentFrom_eq_drop (skip offset : Nat) (glyphs : List Glyph) :
    segmentFrom skip offset glyphs = segmentFrom 0 offset (glyphs.drop skip) := by
  induction glyphs generalizing skip with
  | nil => cases skip <;> rfl
  | cons glyph rest ih =>
    cases skip with
    | zero => rfl
    | succ skip => simpa [segmentFrom] using ih skip

def run (glyph : Glyph) (rest : List Glyph) : List Glyph :=
  if isPlain glyph.char then rest.takeWhile (isPlain ·.char) else []

theorem run_prefix (glyph : Glyph) (rest : List Glyph) : run glyph rest <+: rest := by
  unfold run
  split
  · exact List.takeWhile_prefix _
  · exact List.nil_prefix

theorem run_append_drop (glyph : Glyph) (rest : List Glyph) :
    run glyph rest ++ rest.drop (run glyph rest).length = rest := by
  obtain ⟨others, same⟩ := run_prefix glyph rest
  generalize run glyph rest = group at same
  subst same
  rw [List.drop_left]

theorem segmentFrom_cons (offset : Nat) (glyph : Glyph) (rest : List Glyph) :
    segmentFrom 0 offset (glyph :: rest) = token offset (glyph :: run glyph rest) ::
      segmentFrom 0 (offset + width (glyph :: run glyph rest)) (rest.drop (run glyph rest).length) := by
  rw [segmentFrom, ← segmentFrom_eq_drop]
  rfl

theorem segmentFrom_tiles (offset : Nat) (glyphs : List Glyph) : Tiles offset glyphs (segmentFrom 0 offset glyphs) := by
  induction size : glyphs.length using Nat.strongRecOn generalizing offset glyphs with
  | ind n ih =>
    cases glyphs with
    | nil => exact .nil
    | cons glyph rest =>
      have shorter : (rest.drop (run glyph rest).length).length < n := by
        rw [List.length_drop, ← size, List.length_cons]
        omega
      have further := ih _ shorter (offset + width (glyph :: run glyph rest)) _ rfl
      have tiles := Tiles.cons (List.cons_ne_nil glyph (run glyph rest)) further
      rwa [List.cons_append, run_append_drop, ← segmentFrom_cons] at tiles

theorem token_append (offset : Nat) (group others : List Glyph) : token offset (group ++ others) =
    ⟨(token offset group).text ++ (token (offset + width group) others).text,
      ⟨(token offset group).span.start, (token (offset + width group) others).span.stop⟩⟩ := by
  simp [token, width_append, Nat.add_assoc]

end Words

theorem Tiles.change_tail {offset : Nat} {glyphs : List Glyph} {token : Token} {tokens others : List Token}
    (tiles : Tiles offset glyphs (token :: tokens))
    (change : ∀ offset glyphs, Tiles offset glyphs tokens → Tiles offset glyphs others) :
    Tiles offset glyphs (token :: others) := by
  cases tiles with
  | cons some tiles => exact .cons some (change _ _ tiles)

theorem Tiles.join {offset : Nat} {glyphs : List Glyph} {first second : Token} {tokens : List Token}
    (tiles : Tiles offset glyphs (first :: second :: tokens)) :
    Tiles offset glyphs (⟨first.text ++ second.text, ⟨first.span.start, second.span.stop⟩⟩ :: tokens) := by
  cases tiles with
  | @cons _ group _ _ some tiles =>
    cases tiles with
    | @cons _ others rest _ _ tiles =>
      rw [← Words.token_append, ← List.append_assoc]
      exact .cons (by simp [some]) (by rwa [Words.width_append, ← Nat.add_assoc])

/-- Tokens that lie side by side in a source from `offset` to its end, each reading as the source does there. -/
structure Covering (source : Bytes) (offset : Nat) (tokens : List Token) : Prop where
  filled : ∀ token ∈ tokens, token.span.start < token.span.stop
  contiguous : tokens.IsChain fun token next => token.span.stop = next.span.start
  starts : ∀ token ∈ tokens.head?, token.span.start = offset
  ends : (tokens.getLast?.map (·.span.stop)).getD offset = source.length
  texts : ∀ token ∈ tokens,
    Utf8.Reads ((source.drop token.span.start).take (token.span.stop - token.span.start)) token.text.toList

private theorem width_pos_of_ne_nil {group : List Glyph} (some : group ≠ [])
    (positive : ∀ glyph ∈ group, 0 < glyph.width) : 0 < Words.width group := by
  cases group with
  | nil => exact absurd rfl some
  | cons glyph others =>
    have first := positive glyph (List.mem_cons_self ..)
    simp only [Words.width]
    omega

theorem Tiles.covering {source : Bytes} {offset : Nat} {glyphs : List Glyph} {tokens : List Token}
    (tiles : Tiles offset glyphs tokens) (inside : offset ≤ source.length)
    (decoded : Utf8.decode (source.drop offset) = glyphs) : Covering source offset tokens := by
  induction tiles with
  | @nil offset =>
    have width := Utf8.width_decode (source.drop offset)
    rw [decoded, List.length_drop] at width
    refine ⟨by simp, .nil, by simp, ?_, by simp⟩
    simp only [Words.width] at width
    simp only [List.getLast?_nil, Option.map_none, Option.getD_none]
    omega
  | @cons offset group rest tokens some tiles ih =>
    have positive := Utf8.width_pos (source.drop offset)
    have width := Utf8.width_decode (source.drop offset)
    obtain ⟨front, back⟩ := Utf8.decode_split group rest _ decoded
    rw [decoded] at positive width
    rw [Words.width_append, List.length_drop] at width
    rw [List.drop_drop] at back
    have further := ih (by omega) back
    have filled := width_pos_of_ne_nil some fun glyph member => positive glyph (List.mem_append_left _ member)
    refine ⟨?_, ?_, ?_, ?_, ?_⟩
    · intro token member
      rcases List.mem_cons.mp member with rfl | member
      · exact Nat.lt_add_of_pos_right filled
      · exact further.filled token member
    · refine List.isChain_cons.mpr ⟨?_, further.contiguous⟩
      intro next member
      exact (further.starts next member).symm
    · simp [Words.token]
    · rw [← further.ends]
      cases tokens with
      | nil => rfl
      | cons next others => rw [List.getLast?_cons_cons, List.getLast?_cons]; rfl
    · intro token member
      rcases List.mem_cons.mp member with rfl | member
      · simp only [Words.token, Nat.add_sub_cancel_left, String.toList_ofList]
        rw [Utf8.reads_iff, front]
      · exact further.texts token member

end Manuscript
