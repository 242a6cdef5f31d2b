import Manuscript.Proofs.WordTiling

/-! What words look like. Each is a single character that stands alone or a run of plain characters, and no run is
followed by another; a text has only one such segmentation, which is the one segmenting finds. -/

namespace Manuscript.Words

/-- A character that is reserved or white space, as a word of its own. -/
def isSingle (word : String) : Bool :=
  match word.toList with
  | [c] => !isPlain c
  | _ => false

/-- A list of words in which no run is cut in two. -/
structure Proper (words : List String) : Prop where
  shapes : ∀ word ∈ words, isPlainWord word = true ∨ isSingle word = true
  maximal : words.IsChain fun word next => isPlainWord word = true → isPlainWord next = false

theorem Proper.tail {word : String} {words : List String} (proper : Proper (word :: words)) : Proper words :=
  ⟨fun other member => proper.shapes other (List.mem_cons_of_mem _ member), proper.maximal.tail⟩

theorem Proper.head {word : String} {words : List String} (proper : Proper (word :: words))
    (plain : isPlainWord word = true) : words.head?.any isPlainWord = false := by
  cases words with
  | nil => rfl
  | cons next words => exact (List.isChain_cons_cons.mp proper.maximal).1 plain

theorem Proper.cons {word : String} {words : List String} (shape : isPlainWord word = true ∨ isSingle word = true)
    (maximal : isPlainWord word = true → words.head?.any isPlainWord = false) (proper : Proper words) :
    Proper (word :: words) := by
  refine ⟨List.forall_mem_cons.mpr ⟨shape, proper.shapes⟩, List.isChain_cons.mpr ⟨?_, proper.maximal⟩⟩
  intro next member plain
  simpa [Option.mem_def.mp member] using maximal plain

theorem isPlainWord_iff (word : String) :
    isPlainWord word = true ↔ ∃ c chars, word.toList = c :: chars ∧ ∀ d ∈ c :: chars, isPlain d = true := by
  simp only [isPlainWord, Bool.and_eq_true, bne_iff_ne, ne_eq, List.all_eq_true]
  constructor
  · rintro ⟨some, plain⟩
    cases shape : word.toList with
    | nil => exact absurd (String.toList_inj.mp (shape.trans String.toList_empty.symm)) some
    | cons c chars => exact ⟨c, chars, rfl, shape ▸ plain⟩
  · rintro ⟨c, chars, shape, plain⟩
    refine ⟨?_, shape ▸ plain⟩
    rintro rfl
    cases shape

theorem isSingle_iff (word : String) : isSingle word = true ↔ ∃ c, word.toList = [c] ∧ isPlain c = false := by
  unfold isSingle
  split
  next c shape => simp [shape]
  next other =>
    simp only [Bool.false_eq_true, false_iff, not_exists, not_and]
    intro c shape
    exact absurd shape (other c)

theorem isPlainWord_of_single {word : String} (single : isSingle word = true) : isPlainWord word = false := by
  obtain ⟨c, shape, special⟩ := (isSingle_iff word).mp single
  simp [isPlainWord, shape, special]

theorem token_text (offset : Nat) (glyphs : List Glyph) : (token offset glyphs).text.toList = glyphs.map Glyph.char :=
  String.toList_ofList

theorem run_plain (glyph : Glyph) (rest : List Glyph) : ∀ other ∈ run glyph rest, isPlain other.char = true := by
  unfold run
  split
  · exact fun other member => List.all_eq_true.mp List.all_takeWhile other member
  · intro other member
    cases member

/-- A run ends where the next character is not plain. -/
theorem run_maximal (glyph : Glyph) (rest : List Glyph) (plain : isPlain glyph.char = true) :
    ∀ next ∈ (rest.drop (run glyph rest).length).head?, isPlain next.char = false := by
  have stops := List.head?_dropWhile_not (fun glyph : Glyph => isPlain glyph.char) rest
  have split : rest.drop (run glyph rest).length = rest.dropWhile (isPlain ·.char) := by
    have same := run_append_drop glyph rest
    rw [run, if_pos plain] at same ⊢
    exact List.append_cancel_left (same.trans List.takeWhile_append_dropWhile.symm)
  intro next member
  rw [split] at member
  rw [Option.mem_def.mp member] at stops
  exact stops

private theorem run_of_boundary (glyph : Glyph) (group rest : List Glyph) (plain : isPlain glyph.char = true)
    (group_plain : ∀ other ∈ group, isPlain other.char = true)
    (boundary : ∀ next ∈ rest.head?, isPlain next.char = false) : run glyph (group ++ rest) = group := by
  rw [run, if_pos plain, List.takeWhile_append_of_pos group_plain]
  cases rest with
  | nil => simp
  | cons next rest => simp [boundary next rfl]

/-- The first word is a run if it starts with a plain character, and the character alone if not. -/
theorem first_word (offset : Nat) (glyph : Glyph) (rest : List Glyph) :
    isPlainWord (token offset (glyph :: run glyph rest)).text = isPlain glyph.char ∧
      (isPlain glyph.char = false → isSingle (token offset (glyph :: run glyph rest)).text = true) := by
  constructor
  · by_cases plain : isPlain glyph.char = true
    · rw [plain, isPlainWord_iff]
      refine ⟨glyph.char, (run glyph rest).map Glyph.char, token_text _ _, ?_⟩
      intro d member
      rcases List.mem_cons.mp member with rfl | member
      · exact plain
      · obtain ⟨other, inside, rfl⟩ := List.mem_map.mp member
        exact run_plain glyph rest other inside
    · rw [Bool.not_eq_true] at plain
      rw [plain, Bool.eq_false_iff]
      intro word
      obtain ⟨c, chars, shape, all⟩ := (isPlainWord_iff _).mp word
      rw [token_text, List.map_cons] at shape
      obtain ⟨rfl, _⟩ := List.cons.inj shape
      exact absurd (all _ (List.mem_cons_self ..)) (by simp [plain])
  · intro reserved
    refine (isSingle_iff _).mpr ⟨glyph.char, ?_, reserved⟩
    rw [token_text, run, if_neg (by simp [reserved])]
    rfl

theorem segment_proper (offset : Nat) (glyphs : List Glyph) :
    Proper ((segmentFrom 0 offset glyphs).map Token.text) := by
  induction size : glyphs.length using Nat.strongRecOn generalizing offset glyphs with
  | ind n ih =>
    cases glyphs with
    | nil => exact ⟨by simp [segmentFrom], .nil⟩
    | cons glyph rest =>
      have shorter : (rest.drop (run glyph rest).length).length < n := by
        rw [List.length_drop, ← size, List.length_cons]
        omega
      have further := ih _ shorter (offset + width (glyph :: run glyph rest)) _ rfl
      obtain ⟨plain_iff, single⟩ := first_word offset glyph rest
      rw [segmentFrom_cons, List.map_cons]
      refine ⟨List.forall_mem_cons.mpr ⟨?_, further.shapes⟩, List.isChain_cons.mpr ⟨?_, further.maximal⟩⟩
      · cases plain : isPlain glyph.char with
        | true => exact .inl (plain_iff.trans plain)
        | false => exact .inr (single plain)
      · intro next member plain
        have boundary := run_maximal glyph rest (plain_iff.symm.trans plain)
        -- The next word starts with the character at which the run ended.
        generalize rest.drop (run glyph rest).length = others at boundary member
        cases others with
        | nil => cases member
        | cons other others =>
          rw [segmentFrom_cons, List.map_cons] at member
          obtain rfl := Option.some.inj member
          exact (first_word _ other others).1.trans (boundary other rfl)

/-- Words that follow a run start with a character that is not plain. -/
private theorem boundary_of_words (words : List String) (rest : List Glyph)
    (shapes : ∀ word ∈ words, isPlainWord word = true ∨ isSingle word = true)
    (reserved : ∀ word ∈ words.head?, isPlainWord word = false)
    (chars : rest.map Glyph.char = words.flatMap String.toList) :
    ∀ next ∈ rest.head?, isPlain next.char = false := by
  intro next member
  cases words with
  | nil =>
    obtain rfl := List.map_eq_nil_iff.mp chars
    cases member
  | cons word words =>
    rcases shapes word (List.mem_cons_self ..) with plain | single
    · exact absurd plain (by simp [reserved word rfl])
    · obtain ⟨c, shape, special⟩ := (isSingle_iff word).mp single
      cases rest with
      | nil => cases member
      | cons glyph rest =>
        obtain rfl := Option.some.inj member
        rw [List.flatMap_cons, shape, List.map_cons] at chars
        rwa [(List.cons.inj chars).1]

/-- A proper segmentation of a text is the one that segmenting finds. -/
theorem segment_texts (words : List String) (proper : Proper words) (offset : Nat) (glyphs : List Glyph)
    (chars : glyphs.map Glyph.char = words.flatMap String.toList) :
    (segmentFrom 0 offset glyphs).map Token.text = words := by
  induction words generalizing offset glyphs with
  | nil =>
    obtain rfl := List.map_eq_nil_iff.mp chars
    rfl
  | cons word words ih =>
    obtain ⟨shapes, maximal⟩ := proper
    obtain ⟨shape, shapes⟩ := List.forall_mem_cons.mp shapes
    obtain ⟨follows, maximal⟩ := List.isChain_cons.mp maximal
    rw [List.flatMap_cons] at chars
    obtain ⟨front, back, rfl, front_chars, back_chars⟩ := List.map_eq_append_iff.mp chars
    have first : ∃ glyph group, front = glyph :: group ∧ run glyph (group ++ back) = group := by
      rcases shape with plain | single
      · obtain ⟨c, others, shape, all⟩ := (isPlainWord_iff word).mp plain
        rw [shape] at front_chars
        obtain ⟨glyph, group, rfl, rfl, rfl⟩ := List.map_eq_cons_iff.mp front_chars
        have boundary := boundary_of_words words back shapes (fun next member => follows next member plain) back_chars
        refine ⟨glyph, group, rfl, run_of_boundary glyph group back (all _ (List.mem_cons_self ..)) ?_ boundary⟩
        intro other member
        exact all _ (List.mem_cons_of_mem _ (List.mem_map_of_mem member))
      · obtain ⟨c, shape, special⟩ := (isSingle_iff word).mp single
        rw [shape] at front_chars
        obtain ⟨glyph, group, rfl, rfl, empty⟩ := List.map_eq_cons_iff.mp front_chars
        obtain rfl := List.map_eq_nil_iff.mp empty
        exact ⟨glyph, [], rfl, if_neg (by simp [special])⟩
    obtain ⟨glyph, group, rfl, group_run⟩ := first
    rw [List.cons_append, segmentFrom_cons, group_run, List.drop_left, List.map_cons,
      ih ⟨shapes, maximal⟩ _ back back_chars]
    congr 1
    exact String.toList_inj.mp ((token_text _ _).trans front_chars)

end Manuscript.Words
