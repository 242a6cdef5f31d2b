import Manuscript.Document.Parse
import Manuscript.Proofs.ParseLossless
import Manuscript.Proofs.WordClasses

/-! Reading from a source that may fail. What is read before the reader stops is a beginning of the words of the source,
and it is known from the words alone how far it reaches; there is a tree only where all of them were read. -/

namespace Manuscript

open Words (isPlainWord)

namespace Reader

/-- The reads left after a number of them, `none` when one of these is refused. -/
def spendAll : Nat → Option Nat → Option (Option Nat)
  | 0, reads => some reads
  | count + 1, reads => (spend reads).bind (spendAll count)

theorem spendAll_unlimited (count : Nat) : spendAll count none = some none := by
  induction count with
  | zero => rfl
  | succ count ih => exact ih

theorem spendAll_limited (count permitted : Nat) :
    spendAll count (some permitted) = if count ≤ permitted then some (some (permitted - count)) else none := by
  induction count generalizing permitted with
  | zero => rfl
  | succ count ih =>
    cases permitted with
    | zero => rfl
    | succ permitted =>
      have less : permitted + 1 - (count + 1) = permitted - count := by omega
      rw [spendAll, spend, Option.bind_some, ih, less]
      simp only [Nat.add_le_add_iff_right]

/-- The stop after the last word. -/
def stopAtEnd (reads : Option Nat) : ReadStop := if (spend reads).isNone then .readFailed else .endOfInput

/-- The words of a source that are read before the reader stops, word by word. What stands behind a run is read as well;
that read is given back unless it finds the end of input. -/
def readWords (takesBack : Bool) : Option Nat → List Token → List Token × ReadStop
  | reads, [] => ([], stopAtEnd reads)
  | reads, word :: rest =>
    match spendAll word.text.length reads with
    | none => ([], .readFailed)
    | some left =>
      if isPlainWord word.text then
        match spend left, rest with
        | none, _ => ([], .readFailed)
        | some further, [] => ([word], stopAtEnd further)
        | some _, next :: rest =>
          if takesBack then (readWords takesBack left (next :: rest)).map (word :: ·) id else ([], .unreadFailed)
      else (readWords takesBack left rest).map (word :: ·) id

attribute [local simp] wordsFrom readWords

section Words

open Words

variable (takesBack : Bool)

theorem wordsFrom_plain {group : List Glyph} (plain : ∀ glyph ∈ group, isPlain glyph.char = true) (reads : Option Nat)
    (offset : Nat) (before rest : List Glyph) : wordsFrom takesBack reads offset before (group ++ rest) =
      match spendAll group.length reads with
      | none => ([], .readFailed)
      | some left => wordsFrom takesBack left offset (group.reverse ++ before) rest := by
  induction group generalizing reads before with
  | nil => rfl
  | cons glyph group ih =>
    obtain ⟨first, others⟩ := List.forall_mem_cons.mp plain
    rw [List.cons_append, wordsFrom, List.length_cons, spendAll]
    cases spend reads with
    | none => rfl
    | some left =>
      rw [Option.bind_some]
      dsimp only
      rw [if_pos first, ih others, List.reverse_cons, List.append_assoc]
      rfl

theorem segmentFrom_special {glyph : Glyph} (special : isPlain glyph.char = false) (offset : Nat) (rest : List Glyph) :
    segmentFrom 0 offset (glyph :: rest) = token offset [glyph] :: segmentFrom 0 (offset + glyph.width) rest := by
  have alone : run glyph rest = [] := if_neg (Bool.eq_false_iff.mp special)
  rw [segmentFrom_cons, alone]
  rfl

theorem token_length (offset : Nat) (glyphs : List Glyph) : (token offset glyphs).text.length = glyphs.length := by
  rw [← String.length_toList, token_text, List.length_map]

theorem readWords_special {glyph : Glyph} (special : isPlain glyph.char = false) (reads : Option Nat) (offset : Nat)
    (rest : List Token) : readWords takesBack reads (token offset [glyph] :: rest) =
      match spend reads with
      | none => ([], .readFailed)
      | some left => (readWords takesBack left rest).map (token offset [glyph] :: ·) id := by
  have single : isPlainWord (token offset [glyph]).text = false :=
    isPlainWord_of_single ((isSingle_iff _).mpr ⟨glyph.char, token_text offset [glyph], special⟩)
  rw [readWords, token_length, List.length_singleton, spendAll]
  cases spend reads with
  | none => rfl
  | some left => exact if_neg (Bool.eq_false_iff.mp single)

theorem wordsFrom_end {group : List Glyph} (filled : group ≠ []) (reads : Option Nat) (offset : Nat) :
    wordsFrom takesBack reads offset group.reverse [] =
      match spend reads with
      | none => ([], .readFailed)
      | some left => ([token offset group], stopAtEnd left) := by
  obtain ⟨last, before, reversed⟩ := List.exists_cons_of_ne_nil (List.reverse_ne_nil_iff.mpr filled)
  have again : group = (last :: before).reverse := by rw [← reversed, List.reverse_reverse]
  rw [reversed, again]
  unfold wordsFrom
  cases spend reads <;> rfl

theorem wordsFrom_boundary {group : List Glyph} (filled : group ≠ []) {next : Glyph}
    (special : isPlain next.char = false) (reads : Option Nat) (offset : Nat) (rest : List Glyph) :
    wordsFrom takesBack reads offset group.reverse (next :: rest) =
      match spend reads with
      | none => ([], .readFailed)
      | some left =>
        if takesBack then
          let further := wordsFrom takesBack left (offset + width group + next.width) [] rest
          (token offset group :: token (offset + width group) [next] :: further.1, further.2)
        else ([], .unreadFailed) := by
  obtain ⟨last, before, reversed⟩ := List.exists_cons_of_ne_nil (List.reverse_ne_nil_iff.mpr filled)
  have again : group = (last :: before).reverse := by rw [← reversed, List.reverse_reverse]
  rw [reversed, again, wordsFrom, special]
  cases spend reads <;> cases takesBack <;> rfl

/-- A run is read up to what stands behind it, from where reading goes on as it does from a word. -/
theorem wordsFrom_run {group others : List Glyph} {offset : Nat} (filled : group ≠ [])
    (plain : ∀ glyph ∈ group, isPlain glyph.char = true) (word : isPlainWord (token offset group).text = true)
    (boundary : ∀ next ∈ others.head?, isPlain next.char = false)
    (further : ∀ next tail, others = next :: tail → ∀ left offset,
      wordsFrom takesBack left offset [] tail = readWords takesBack left (segmentFrom 0 offset tail))
    (reads : Option Nat) : wordsFrom takesBack reads offset [] (group ++ others) =
      readWords takesBack reads (token offset group :: segmentFrom 0 (offset + width group) others) := by
  rw [wordsFrom_plain takesBack plain, List.append_nil, readWords, token_length]
  cases spendAll group.length reads with
  | none => rfl
  | some left =>
    dsimp only
    rw [if_pos word]
    cases others with
    | nil =>
      rw [wordsFrom_end takesBack filled, segmentFrom]
      cases spend left <;> rfl
    | cons next tail =>
      have special := boundary next rfl
      rw [wordsFrom_boundary takesBack filled special, segmentFrom_special special]
      cases spent : spend left with
      | none => rfl
      | some rest =>
        dsimp only
        rw [readWords_special takesBack special, spent, further next tail rfl]
        rfl

/-- Reading goes from word to word. -/
theorem wordsFrom_eq (reads : Option Nat) (offset : Nat) (glyphs : List Glyph) :
    wordsFrom takesBack reads offset [] glyphs = readWords takesBack reads (segmentFrom 0 offset glyphs) := by
  induction size : glyphs.length using Nat.strongRecOn generalizing reads offset glyphs with
  | ind n ih =>
    cases glyphs with
    | nil =>
      unfold wordsFrom segmentFrom readWords stopAtEnd
      cases spend reads <;> rfl
    | cons glyph rest =>
      rw [List.length_cons] at size
      cases plain : isPlain glyph.char with
      | false =>
        rw [segmentFrom_special plain, readWords_special takesBack plain, wordsFrom]
        cases spend reads with
        | none => rfl
        | some left =>
          dsimp only
          rw [if_neg (Bool.eq_false_iff.mp plain), ih rest.length (by omega) _ _ _ rfl]
          rfl
      | true =>
        have whole : glyph :: rest = (glyph :: run glyph rest) ++ rest.drop (run glyph rest).length := by
          rw [List.cons_append, run_append_drop]
        rw [segmentFrom_cons, whole]
        apply wordsFrom_run takesBack (List.cons_ne_nil _ _) (List.forall_mem_cons.mpr ⟨plain, run_plain glyph rest⟩)
          ((first_word offset glyph rest).1.trans plain) (run_maximal glyph rest plain)
        intro next tail behind left offset
        have shorter := congrArg List.length behind
        rw [List.length_drop, List.length_cons] at shorter
        exact ih tail.length (by omega) left offset tail rfl

end Words
end Reader

namespace Words

variable {word : Token} {words rest : List Token}

def endsInRun (words : List Token) : Bool := words.getLast?.any (isPlainWord ·.text)

/-- The reads that it takes to know that the last of these words is complete: one for each character, and one more for
what stands behind a run. -/
def demand (words : List Token) : Nat := (spelling words).length + if endsInRun words then 1 else 0

theorem demand_singleton (word : Token) :
    demand [word] = word.text.length + if isPlainWord word.text then 1 else 0 := by
  have letters : spelling [word] = word.text.toList := List.append_nil _
  rw [demand, letters, String.length_toList]
  rfl

theorem demand_cons (word : Token) {rest : List Token} (more : rest ≠ []) :
    demand (word :: rest) = word.text.length + demand rest := by
  have last : endsInRun (word :: rest) = endsInRun rest := by
    rw [endsInRun, List.getLast?_cons_of_ne_nil more, endsInRun]
  rw [demand, last, spelling_cons, List.length_append, String.length_toList, Nat.add_assoc, ← demand]

/-- There is text in every word, so that what follows a word takes at least one read more. -/
theorem demand_singleton_le (word : Token) (filled : ∀ next ∈ rest, next.text ≠ "") :
    demand [word] ≤ demand (word :: rest) := by
  cases rest with
  | nil => exact Nat.le_refl _
  | cons next rest =>
    rw [demand_cons word (List.cons_ne_nil next rest), demand_singleton, demand, spelling_cons, List.length_append]
    have some : 0 < next.text.toList.length := by
      rw [List.length_pos_iff]
      exact fun empty => filled next List.mem_cons_self (String.toList_eq_nil_iff.mp empty)
    split <;> omega

end Words

namespace Reader

open Words

variable {word : Token} {words rest : List Token} {permitted : Nat}

theorem readWords_refused (rest : List Token) (short : permitted < demand [word]) :
    readWords true (some permitted) (word :: rest) = ([], .readFailed) := by
  rw [demand_singleton] at short
  rw [readWords, spendAll_limited]
  by_cases long : word.text.length ≤ permitted
  · have run : isPlainWord word.text = true := by
      by_contra special
      rw [if_neg special] at short
      omega
    rw [if_pos run] at short
    have spent : permitted - word.text.length = 0 := by omega
    rw [if_pos long, spent]
    exact if_pos run
  · rw [if_neg long]

theorem readWords_last (enough : demand [word] ≤ permitted) :
    readWords true (some permitted) [word] = ([word], stopAtEnd (some (permitted - demand [word]))) := by
  rw [demand_singleton] at enough ⊢
  rw [readWords, spendAll_limited, if_pos (by omega)]
  by_cases run : isPlainWord word.text = true
  · rw [if_pos run] at enough ⊢
    have left : permitted - word.text.length = permitted - (word.text.length + 1) + 1 := by omega
    rw [left]
    exact if_pos run
  · rw [if_neg run]
    exact if_neg run

theorem readWords_next (next : Token) (rest : List Token) (enough : demand [word] ≤ permitted) :
    readWords true (some permitted) (word :: next :: rest) =
      (readWords true (some (permitted - word.text.length)) (next :: rest)).map (word :: ·) id := by
  rw [demand_singleton] at enough
  rw [readWords, spendAll_limited, if_pos (by omega)]
  by_cases run : isPlainWord word.text = true
  · rw [if_pos run] at enough
    have left : permitted - word.text.length = permitted - (word.text.length + 1) + 1 := by omega
    rw [left]
    exact if_pos run
  · exact if_neg run

theorem readWords_begins (takesBack : Bool) (reads : Option Nat) (words : List Token) :
    (readWords takesBack reads words).1 <+: words := by
  fun_induction readWords takesBack reads words with
  | case1 => exact List.nil_prefix
  | case2 => exact List.nil_prefix
  | case3 => exact List.nil_prefix
  | case4 => exact List.prefix_refl _
  | case5 _ word _ _ _ _ next rest _ _ ih => exact (List.prefix_cons_inj word).mpr ih
  | case6 => exact List.nil_prefix
  | case7 _ word rest _ _ _ ih => exact (List.prefix_cons_inj word).mpr ih

/-- With limited reads, words are read as long as the reads last. -/
theorem readWords_take (permitted : Nat) {words : List Token} (filled : ∀ word ∈ words, word.text ≠ "") (count : Nat) :
    words.take count <+: (readWords true (some permitted) words).1 ↔ demand (words.take count) ≤ permitted := by
  induction words generalizing permitted count with
  | nil => simp [demand, endsInRun, spelling]
  | cons word rest ih =>
    obtain ⟨_, others⟩ := List.forall_mem_cons.mp filled
    cases count with
    | zero => simp [demand, endsInRun, spelling]
    | succ count =>
      rw [List.take_succ_cons]
      have least : demand [word] ≤ demand (word :: rest.take count) :=
        demand_singleton_le word fun next member => others next (List.mem_of_mem_take member)
      rcases Nat.lt_or_ge permitted (demand [word]) with short | enough
      · rw [readWords_refused rest short]
        simp only [List.prefix_nil, List.cons_ne_nil, false_iff]
        omega
      · cases rest with
        | nil => simp [readWords_last enough, enough]
        | cons next rest =>
          have further := ih (permitted - word.text.length) others count
          rw [readWords_next next rest enough, Prod.map_fst, List.prefix_cons_inj, further]
          rw [demand_singleton] at enough
          by_cases more : (next :: rest).take count = []
          · rw [more, demand_singleton]
            simpa [demand, endsInRun, spelling] using enough
          · rw [demand_cons word more]
            omega

theorem readWords_stop (permitted : Nat) {words : List Token} (filled : ∀ word ∈ words, word.text ≠ "") :
    (readWords true (some permitted) words).2 = if demand words < permitted then .endOfInput else .readFailed := by
  have atEnd (left : Nat) : stopAtEnd (some left) = if 0 < left then .endOfInput else .readFailed := by
    cases left <;> rfl
  induction words generalizing permitted with
  | nil => exact atEnd permitted
  | cons word rest ih =>
    obtain ⟨_, others⟩ := List.forall_mem_cons.mp filled
    have least := demand_singleton_le word others
    rcases Nat.lt_or_ge permitted (demand [word]) with short | enough
    · rw [readWords_refused rest short, if_neg (by omega)]
    · cases rest with
      | nil =>
        rw [readWords_last enough, atEnd]
        simp only [Nat.sub_pos_iff_lt]
      | cons next rest =>
        have more := List.cons_ne_nil next rest
        rw [readWords_next next rest enough, Prod.map_snd, ih _ others, demand_cons word more, id]
        congr 1
        apply propext
        omega

/-- A reader that takes no character back stops at the first run that something follows. -/
theorem readWords_kept (words : List Token) : readWords false none words =
    match words.dropLast.findIdx? (isPlainWord ·.text) with
    | some index => (words.take index, .unreadFailed)
    | none => (words, .endOfInput) := by
  induction words with
  | nil => rfl
  | cons word rest ih =>
    rw [readWords, spendAll_unlimited]
    cases rest with
    | nil => cases run : isPlainWord word.text <;> simp [spend, readWords, stopAtEnd]
    | cons next rest =>
      rw [List.dropLast_cons_cons, List.findIdx?_cons]
      by_cases run : isPlainWord word.text = true
      · simp [run, spend]
      · rw [if_neg run]
        dsimp only
        rw [if_neg run, ih]
        cases (next :: rest).dropLast.findIdx? (isPlainWord ·.text) <;> rfl

theorem readWords_all {words : List Token} (filled : ∀ word ∈ words, word.text ≠ "")
    (ends : (readWords true (some permitted) words).2 = .endOfInput) :
    (readWords true (some permitted) words).1 = words := by
  have enough : demand words < permitted := by
    by_contra short
    rw [readWords_stop permitted filled, if_neg short] at ends
    cases ends
  have whole := (readWords_take permitted filled words.length).mpr (by rw [List.take_length]; omega)
  rw [List.take_length] at whole
  exact ((readWords_begins true _ words).eq_of_length_le whole.length_le)

end Reader

theorem Parse.ofReader_eq (reader : Reader) : ofReader reader =
    if reader.words.2 = .endOfInput then .ok (ofWords reader.words.1) else .error reader.words.2 := by
  unfold ofReader
  cases reader.words with
  | mk words stop => cases stop <;> rfl

open Reader Words

theorem Words.ofBytes_filled (source : Bytes) : ∀ word ∈ ofBytes source, word.text ≠ "" := by
  intro word member empty
  have shape := (segment_proper 0 (Utf8.decode source)).shapes word.text (List.mem_map_of_mem member)
  rw [empty] at shape
  exact shape.elim (by decide) (by decide)

/-- The reads that it takes to find the end of a source. -/
theorem Words.demand_ofBytes (source : Bytes) : demand (ofBytes source) + 1 =
    (Utf8.decode source).length + if endsInRun (ofBytes source) then 2 else 1 := by
  have letters : spelling (ofBytes source) = (Utf8.decode source).map Glyph.char :=
    (segmentFrom_tiles 0 (Utf8.decode source)).spelling
  rw [demand, letters, List.length_map]
  split <;> rfl

/-- A reader with limited reads gives the words of the source up to the first one that the reads do not suffice for; it
takes as many reads as there are characters, one to find the end, and one more if a run stands there. A reader that takes
no character back gives the words in front of the first run that something follows. In both cases there is a tree, that of
the source, only where all words were read and the end was found. -/
theorem reading_cut_short (source : Bytes) :
    (∀ permitted,
      let reader : Reader := { rest := Utf8.decode source, reads := some permitted }
      reader.words.1 <+: Words.ofBytes source ∧
      (∀ count, (Words.ofBytes source).take count <+: reader.words.1 ↔
        demand ((Words.ofBytes source).take count) ≤ permitted) ∧
      (reader.words.2 = .endOfInput ↔
        (Utf8.decode source).length + (if endsInRun (Words.ofBytes source) then 2 else 1) ≤ permitted) ∧
      Parse.ofReader reader =
        if reader.words.2 = .endOfInput then .ok (Parse.ofBytes source) else .error .readFailed) ∧
    let reader : Reader := { rest := Utf8.decode source, takesBack := false }
    (reader.words = match (Words.ofBytes source).dropLast.findIdx? (isPlainWord ·.text) with
      | some index => ((Words.ofBytes source).take index, .unreadFailed)
      | none => (Words.ofBytes source, .endOfInput)) ∧
    Parse.ofReader reader =
      if (Words.ofBytes source).dropLast.any (isPlainWord ·.text) then .error .unreadFailed
      else .ok (Parse.ofBytes source) := by
  have filled := ofBytes_filled source
  constructor
  · intro permitted reader
    have words : reader.words = readWords true (some permitted) (Words.ofBytes source) := wordsFrom_eq true _ 0 _
    have stop := readWords_stop permitted filled
    rw [Parse.ofReader_eq, words]
    refine ⟨readWords_begins true _ _, readWords_take permitted filled, ?_, ?_⟩
    · rw [stop, ← demand_ofBytes]
      split <;> simp <;> omega
    · split
      next ends => rw [readWords_all filled ends]; rfl
      next failed =>
        rw [stop] at failed ⊢
        rw [if_neg (by simpa using failed)]
  · intro reader
    have words : reader.words = readWords false none (Words.ofBytes source) := wordsFrom_eq false _ 0 _
    rw [Parse.ofReader_eq, words, readWords_kept]
    refine ⟨rfl, ?_⟩
    rw [← List.findIdx?_isSome]
    cases (Words.ofBytes source).dropLast.findIdx? (isPlainWord ·.text) <;> rfl

end Manuscript
