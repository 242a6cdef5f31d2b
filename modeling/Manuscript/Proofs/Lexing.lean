import Manuscript.Proofs.Placement
import Manuscript.Proofs.WordClasses

/-! Words and lexemes determine each other. Merging words gives lexemes of a few kinds, none of which could take in
the word behind it; and such lexemes, written as words again, merge into themselves. -/

namespace Manuscript.Parse

def symbols : List String := ["\\", "=", "=>", ">", ">>", "_", "^", ",", "."]

def closers : List String := ["\x7d", "]", ")"]

def opener : BracketKind → String
  | .curly => "\x7b"
  | .square => "["
  | .round => "("

def isSpaceWord (value : String) : Bool :=
  match value.toList with
  | [c] => Blank.isSpace c
  | _ => false

/-- A backslash and a run of plain characters. -/
def isName (name : String) : Bool :=
  match name.toList with
  | c :: chars => c == '\\' && Words.isPlainWord (String.ofList chars)
  | [] => false

namespace Lexeme

/-- Whether a lexeme says what its kind of lexeme can say. -/
def isLexical : Lexeme → Bool
  | .leaf (.text value _) => Words.isPlainWord value || isSpaceWord value
  | .leaf (.symbol value _) => value ∈ symbols
  | .leaf (.ident ident) => ident.name == inlineMath || isName ident.name
  | .leaf _ => false
  | .opening kind token => token.text == opener kind
  | .closing token => token.text ∈ closers
  | .quote token => token.text == "\""

/-- The words that a lexeme is written with. -/
def words : Lexeme → List String
  | .leaf (.text value _) => [value]
  | .leaf (.symbol value _) => if value = "=>" then ["=", ">"] else if value = ">>" then [">", ">"] else [value]
  | .leaf (.ident ident) =>
    if ident.name = inlineMath then [inlineMath] else [inlineMath, String.ofList (ident.name.toList.drop 1)]
  | .leaf _ => []
  | .opening _ token | .closing token | .quote token => [token.text]

/-- Whether a lexeme stays as it is when `next` is the word behind it. -/
def apart (next : Option String) : Lexeme → Bool
  | .leaf (.text value _) => !(Words.isPlainWord value && next.any Words.isPlainWord)
  | .leaf (.symbol value _) =>
    if value = "\\" then next != some "\x7b" && !next.any Words.isPlainWord
    else if value = "=" || value = ">" then next != some ">"
    else true
  | .leaf (.ident ident) =>
    if ident.name = inlineMath then next == some "\x7b" else !next.any Words.isPlainWord
  | _ => true

end Lexeme

/-- Lexemes none of which would merge with what follows it; `after` is the word behind them all. -/
def spaced (after : Option String) : List Lexeme → Bool
  | [] => true
  | lexeme :: rest => lexeme.apart ((rest.flatMap Lexeme.words).head?.or after) && spaced after rest

theorem spaced_append (after : Option String) (front back : List Lexeme) :
    spaced after (front ++ back) =
      (spaced ((back.flatMap Lexeme.words).head?.or after) front && spaced after back) := by
  induction front with
  | nil => simp [spaced]
  | cons lexeme front ih =>
    rw [List.cons_append, spaced, spaced, ih, List.flatMap_append, List.head?_append, Option.or_assoc, Bool.and_assoc]

/-- The strings that words made of one reserved character can be. -/
def marks : List String := ["\\", "\x7b", "\x7d", "[", "]", "(", ")", "=", ">", "_", "^", ",", ".", "\""]

theorem isSingle_cases {word : String} (single : Words.isSingle word = true) :
    word ∈ marks ∨ isSpaceWord word = true := by
  obtain ⟨c, shape, special⟩ := (Words.isSingle_iff word).mp single
  have text : word = String.ofList [c] := by rw [← shape, String.ofList_toList]
  by_cases reserved : Words.isReserved c = true
  · left
    simp only [Words.isReserved, List.mem_cons, List.not_mem_nil, or_false, decide_eq_true_eq] at reserved
    rcases reserved with rfl | rfl | rfl | rfl | rfl | rfl | rfl | rfl | rfl | rfl | rfl | rfl | rfl | rfl
    all_goals subst text; decide
  · right
    simp only [isSpaceWord, shape]
    simpa [Words.isPlain, reserved] using special

theorem isSingle_of_space {word : String} (space : isSpaceWord word = true) : Words.isSingle word = true := by
  unfold isSpaceWord at space
  split at space
  next c shape => exact (Words.isSingle_iff word).mpr ⟨c, shape, by simp [Words.isPlain, space]⟩
  next => cases space

theorem isName_iff {name : String} :
    isName name = true ↔ ∃ word, Words.isPlainWord word = true ∧ name = "\\" ++ word := by
  unfold isName
  constructor
  · intro named
    split at named
    next c chars shape =>
      simp only [Bool.and_eq_true, beq_iff_eq] at named
      refine ⟨_, named.2, String.toList_inj.mp ?_⟩
      rw [shape, named.1]
      simp
    next => cases named
  · rintro ⟨word, plain, rfl⟩
    simp [plain]

theorem marks_reserved : ∀ word ∈ marks, Words.isPlainWord word = false ∧ isSpaceWord word = false := by decide

theorem not_mark {word : String} (text : Words.isPlainWord word = true ∨ isSpaceWord word = true) : word ∉ marks := by
  intro mark
  obtain ⟨plain, space⟩ := marks_reserved _ mark
  simp [plain, space] at text

theorem single_text {word : Token} (text : Words.isPlainWord word.text = true ∨ isSpaceWord word.text = true) :
    single word = .leaf (.text word.text word.span) := by
  have other := not_mark text
  simp only [marks, List.mem_cons, List.not_mem_nil, or_false, not_or] at other
  simp [single, other]

theorem word_cases {word : String} (proper : Words.isPlainWord word = true ∨ Words.isSingle word = true) :
    word ∈ marks ∨ Words.isPlainWord word = true ∨ isSpaceWord word = true := by
  rcases proper with plain | alone
  · exact .inr (.inl plain)
  · exact (isSingle_cases alone).imp_right .inr

theorem single_mark {word : Token} (mark : word.text ∈ marks) :
    (single word).isLexical = true ∧ (single word).words = [word.text] := by
  obtain ⟨text, span⟩ := word
  simp only [marks, List.mem_cons, List.not_mem_nil, or_false] at mark
  rcases mark with rfl | rfl | rfl | rfl | rfl | rfl | rfl | rfl | rfl | rfl | rfl | rfl | rfl | rfl
  all_goals exact ⟨rfl, rfl⟩

theorem single_lexical {word : Token} (proper : Words.isPlainWord word.text = true ∨ Words.isSingle word.text = true) :
    (single word).isLexical = true := by
  rcases word_cases proper with mark | text
  · exact (single_mark mark).1
  · rw [single_text text]
    simpa [Lexeme.isLexical] using text

theorem single_words {word : Token} (proper : Words.isPlainWord word.text = true ∨ Words.isSingle word.text = true) :
    (single word).words = [word.text] := by
  rcases word_cases proper with mark | text
  · exact (single_mark mark).2
  · rw [single_text text]
    rfl

/-- A word that does not merge with the one behind it. -/
structure Alone (word : String) (next : Option String) : Prop where
  run : Words.isPlainWord word = true → next.any Words.isPlainWord = false
  escape : word = "\\" → next ≠ some "\x7b" ∧ next.any Words.isPlainWord = false
  arrow : word = "=" ∨ word = ">" → next ≠ some ">"

theorem single_apart {word : Token} (next : Option String)
    (proper : Words.isPlainWord word.text = true ∨ Words.isSingle word.text = true) :
    (single word).apart next = true ↔ Alone word.text next := by
  rcases word_cases proper with mark | text
  · have special := (marks_reserved _ mark).1
    obtain ⟨text, span⟩ := word
    simp only [marks, List.mem_cons, List.not_mem_nil, or_false] at mark
    constructor
    · intro apart
      rcases mark with rfl | rfl | rfl | rfl | rfl | rfl | rfl | rfl | rfl | rfl | rfl | rfl | rfl | rfl
      all_goals exact ⟨by simp [special], by simp_all [single, Lexeme.apart], by simp_all [single, Lexeme.apart]⟩
    · rintro ⟨run, escape, arrow⟩
      rcases mark with rfl | rfl | rfl | rfl | rfl | rfl | rfl | rfl | rfl | rfl | rfl | rfl | rfl | rfl
      all_goals simp_all [single, Lexeme.apart]
  · have other : word.text ∉ marks := not_mark text
    simp only [marks, List.mem_cons, List.not_mem_nil, or_false, not_or] at other
    rw [single_text text]
    simp only [Lexeme.apart, Bool.not_eq_true', Bool.and_eq_false_iff]
    constructor
    · intro apart
      refine ⟨fun plain => apart.resolve_left (by simp [plain]), fun slash => absurd slash other.1, ?_⟩
      exact fun sign => absurd sign (by simp [other])
    · intro alone
      cases plain : Words.isPlainWord word.text with
      | true => exact .inr (alone.run plain)
      | false => exact .inl rfl

/-- Two words merge into one lexeme that is written with both. -/
theorem merged_spec {word next : Token} {lexeme : Lexeme} (merges : merged word next = some lexeme) :
    lexeme.isLexical = true ∧ lexeme.words = [word.text, next.text] ∧
      ∀ behind, lexeme.apart behind = true ↔
        (Words.isPlainWord next.text = true → behind.any Words.isPlainWord = false) := by
  have special : Words.isPlainWord ">" = false := rfl
  unfold merged at merges
  simp only [Bool.and_eq_true, decide_eq_true_eq] at merges
  split at merges
  next named =>
    cases merges
    have chars : ("\\" ++ next.text).toList = '\\' :: next.text.toList := by simp
    have longer : "\\" ++ next.text ≠ inlineMath := by
      intro same
      have empty := congrArg String.toList same
      rw [chars] at empty
      obtain ⟨c, others, shape, _⟩ := (Words.isPlainWord_iff _).mp named.2
      rw [shape] at empty
      exact absurd empty (by simp [inlineMath])
    refine ⟨?_, ?_, ?_⟩
    · simp [Lexeme.isLexical, isName, chars, named.2]
    · rw [Lexeme.words, if_neg longer, chars, named.1]
      simp [inlineMath]
    · intro behind
      simp [Lexeme.apart, longer, named.2]
  split at merges
  next arrow =>
    cases merges
    refine ⟨rfl, by rw [arrow.1, arrow.2]; rfl, fun behind => ?_⟩
    simp [Lexeme.apart, arrow.2, special]
  split at merges
  next shift =>
    cases merges
    refine ⟨rfl, by rw [shift.1, shift.2]; rfl, fun behind => ?_⟩
    simp [Lexeme.apart, shift.2, special]
  · cases merges

theorem merged_eq_none {word next : Token} (apart : merged word next = none) :
    (word.text = "\\" → Words.isPlainWord next.text = false) ∧
      (word.text = "=" ∨ word.text = ">" → next.text ≠ ">") := by
  unfold merged at apart
  simp only [Bool.and_eq_true, decide_eq_true_eq] at apart
  split at apart
  · cases apart
  split at apart
  · cases apart
  split at apart
  · cases apart
  · simp_all
    grind

/-- Lexemes as merging finds them in `texts`. -/
structure Written (texts : List String) (lexemes : List Lexeme) : Prop where
  lexical : ∀ lexeme ∈ lexemes, lexeme.isLexical = true
  words : lexemes.flatMap Lexeme.words = texts
  spaced : spaced none lexemes = true

theorem Written.cons {texts : List String} {lexeme : Lexeme} {lexemes : List Lexeme} (written : Written texts lexemes)
    (lexical : lexeme.isLexical = true) (apart : lexeme.apart texts.head? = true) :
    Written (lexeme.words ++ texts) (lexeme :: lexemes) := by
  refine ⟨List.forall_mem_cons.mpr ⟨lexical, written.lexical⟩, by rw [List.flatMap_cons, written.words], ?_⟩
  rw [Parse.spaced, written.words, Option.or_none, apart, written.spaced]
  rfl

/-- Merging proper words gives lexemes that are written with the same words and that merging left apart. -/
theorem lexemes_written (words : List Token) (proper : Words.Proper (words.map Token.text)) :
    Written (words.map Token.text) (lexemes words) := by
  fun_induction lexemes words with
  | case1 => exact ⟨by simp, rfl, rfl⟩
  | case2 word =>
    have shape := proper.shapes word.text (by simp)
    have last : (single word).apart none = true := (single_apart none shape).mpr ⟨by simp, by simp, by simp⟩
    have written : Written [] [] := ⟨by simp, rfl, rfl⟩
    simpa [single_words shape] using written.cons (single_lexical shape) last
  | case3 word next rest lexeme merges ih =>
    obtain ⟨lexical, written, apart⟩ := merged_spec merges
    simpa [written] using (ih proper.tail.tail).cons lexical ((apart _).mpr proper.tail.head)
  | case4 word next rest none formula ih =>
    simp only [Bool.and_eq_true, decide_eq_true_eq] at formula
    have lexical : (Lexeme.leaf (.ident ⟨inlineMath, word.span⟩)).isLexical = true := rfl
    have behind : (Lexeme.leaf (.ident ⟨inlineMath, word.span⟩)).apart (some next.text) = true := by
      simp [Lexeme.apart, formula.2]
    simpa [Lexeme.words, inlineMath, formula.1] using (ih proper.tail).cons lexical behind
  | case5 word next rest none formula ih =>
    simp only [Bool.and_eq_true, decide_eq_true_eq, not_and] at formula
    obtain ⟨escape, arrow⟩ := merged_eq_none none
    have shape := proper.shapes word.text (by simp)
    have behind : (single word).apart (some next.text) = true := by
      refine (single_apart _ shape).mpr ⟨proper.head, fun slash => ⟨?_, escape slash⟩, fun sign => ?_⟩
      · exact fun brace => formula slash (Option.some.inj brace)
      · exact fun greater => arrow sign (Option.some.inj greater)
    simpa [single_words shape] using (ih proper.tail).cons (single_lexical shape) behind

theorem lexemes_alone (word : Token) (rest : List Token) (alone : Alone word.text (rest.map Token.text).head?) :
    lexemes (word :: rest) = single word :: lexemes rest := by
  cases rest with
  | nil => rfl
  | cons next rest =>
    obtain ⟨run, escape, arrow⟩ := alone
    simp only [List.map_cons, List.head?_cons, Option.any_some, ne_eq, Option.some.injEq] at escape arrow
    have apart : merged word next = none := by
      unfold merged
      grind
    simp only [lexemes, apart]
    rw [if_neg (by simpa using fun slash => (escape slash).1)]

theorem lexemes_pair {word next : Token} {lexeme : Lexeme} (rest : List Token)
    (merges : merged word next = some lexeme) : lexemes (word :: next :: rest) = lexeme :: lexemes rest := by
  simp [lexemes, merges]

def bare (text : String) : Token := { text }

theorem bare_texts (texts : List String) : (texts.map bare).map Token.text = texts := by
  rw [List.map_map]
  exact List.map_id texts

@[simp]
theorem Lexeme.unplaced_words (lexeme : Lexeme) : lexeme.unplaced.words = lexeme.words := by
  cases lexeme with
  | leaf node => cases node <;> rfl
  | _ => rfl

@[simp]
theorem Lexeme.unplaced_apart (lexeme : Lexeme) (next : Option String) :
    lexeme.unplaced.apart next = lexeme.apart next := by
  cases lexeme with
  | leaf node => cases node <;> rfl
  | _ => rfl

/-- Every lexeme is that of one word, that of two words, or the name of a formula. -/
theorem lexical_cases {lexeme : Lexeme} (lexical : lexeme.isLexical = true) :
    (∃ word, (Words.isPlainWord word = true ∨ Words.isSingle word = true) ∧ single (bare word) = lexeme.unplaced) ∨
      (∃ word next, merged (bare word) (bare next) = some lexeme.unplaced ∧ Words.isSingle word = true ∧
        (Words.isPlainWord next = true ∨ Words.isSingle next = true)) ∨
      lexeme.unplaced = .leaf (.ident { name := inlineMath }) := by
  cases lexeme with
  | leaf node =>
    cases node with
    | text value span =>
      simp only [Lexeme.isLexical, Bool.or_eq_true] at lexical
      exact .inl ⟨value, lexical.imp_right isSingle_of_space, single_text lexical⟩
    | symbol value span =>
      simp only [Lexeme.isLexical, symbols, List.mem_cons, List.not_mem_nil, or_false, decide_eq_true_eq] at lexical
      rcases lexical with rfl | rfl | rfl | rfl | rfl | rfl | rfl | rfl | rfl
      · exact .inl ⟨"\\", .inr rfl, rfl⟩
      · exact .inl ⟨"=", .inr rfl, rfl⟩
      · exact .inr (.inl ⟨"=", ">", rfl, rfl, .inr rfl⟩)
      · exact .inl ⟨">", .inr rfl, rfl⟩
      · exact .inr (.inl ⟨">", ">", rfl, rfl, .inr rfl⟩)
      · exact .inl ⟨"_", .inr rfl, rfl⟩
      · exact .inl ⟨"^", .inr rfl, rfl⟩
      · exact .inl ⟨",", .inr rfl, rfl⟩
      · exact .inl ⟨".", .inr rfl, rfl⟩
    | ident ident =>
      obtain ⟨name, span⟩ := ident
      simp only [Lexeme.isLexical, Bool.or_eq_true, beq_iff_eq] at lexical
      rcases lexical with rfl | named
      · exact .inr (.inr rfl)
      · obtain ⟨word, plain, rfl⟩ := isName_iff.mp named
        exact .inr (.inl ⟨"\\", word, if_pos (by simp [bare, plain]), rfl, .inl plain⟩)
    | _ => cases lexical
  | opening kind token =>
    obtain ⟨text, span⟩ := token
    obtain rfl : text = opener kind := by simpa [Lexeme.isLexical] using lexical
    refine .inl ⟨opener kind, ?_⟩
    cases kind <;> exact ⟨.inr rfl, rfl⟩
  | closing token =>
    obtain ⟨text, span⟩ := token
    have closing : text ∈ closers := by simpa [Lexeme.isLexical] using lexical
    simp only [closers, List.mem_cons, List.not_mem_nil, or_false] at closing
    refine .inl ⟨text, ?_⟩
    rcases closing with rfl | rfl | rfl <;> exact ⟨.inr rfl, rfl⟩
  | quote token =>
    obtain ⟨text, span⟩ := token
    obtain rfl : text = "\"" := by simpa [Lexeme.isLexical] using lexical
    exact .inl ⟨"\"", .inr rfl, rfl⟩

namespace Written

theorem uncons {texts : List String} {lexeme : Lexeme} {lexemes : List Lexeme}
    (written : Written texts (lexeme :: lexemes)) :
    ∃ rest, texts = lexeme.words ++ rest ∧ lexeme.isLexical = true ∧ lexeme.apart rest.head? = true ∧
      Written rest lexemes := by
  obtain ⟨lexical, rfl, spaced⟩ := written
  obtain ⟨first, others⟩ := List.forall_mem_cons.mp lexical
  rw [Parse.spaced, Option.or_none, Bool.and_eq_true] at spaced
  exact ⟨_, List.flatMap_cons, first, spaced.1, others, rfl, spaced.2⟩

/-- Lexemes that stand apart are written with words that are not cut in two. -/
theorem proper {texts : List String} {lexemes : List Lexeme} (written : Written texts lexemes) :
    Words.Proper texts := by
  induction lexemes generalizing texts with
  | nil =>
    obtain ⟨_, rfl, _⟩ := written
    exact ⟨by simp, .nil⟩
  | cons lexeme lexemes ih =>
    obtain ⟨rest, rfl, lexical, apart, written⟩ := written.uncons
    have further := ih written
    rw [← Lexeme.unplaced_words]
    rw [← Lexeme.unplaced_apart] at apart
    rcases lexical_cases lexical with ⟨word, shape, same⟩ | ⟨word, next, merges, alone, shape⟩ | formula
    · rw [← same] at apart ⊢
      rw [single_words shape]
      exact further.cons shape ((single_apart _ shape).mp apart).run
    · obtain ⟨_, both, behind⟩ := merged_spec merges
      rw [both]
      refine (further.cons shape ((behind _).mp apart)).cons (.inr alone) fun plain => ?_
      exact absurd plain (by simp [bare, Words.isPlainWord_of_single alone])
    · rw [formula]
      exact further.cons (.inr rfl) fun plain => absurd plain (by decide)

/-- Lexemes that stand apart are found again in the words they are written with. -/
theorem lexemes_eq {texts : List String} {lexemes : List Lexeme} (written : Written texts lexemes) :
    Parse.lexemes (texts.map bare) = lexemes.map Lexeme.unplaced := by
  induction lexemes generalizing texts with
  | nil =>
    obtain ⟨_, rfl, _⟩ := written
    rfl
  | cons lexeme lexemes ih =>
    obtain ⟨rest, rfl, lexical, apart, written⟩ := written.uncons
    rw [← Lexeme.unplaced_words, List.map_append, List.map_cons, ← ih written]
    rw [← Lexeme.unplaced_apart] at apart
    rcases lexical_cases lexical with ⟨word, shape, same⟩ | ⟨word, next, merges, alone, shape⟩ | formula
    · rw [← same] at apart ⊢
      rw [single_words shape]
      refine lexemes_alone (bare word) (rest.map bare) ?_
      rw [bare_texts]
      exact (single_apart _ shape).mp apart
    · rw [(merged_spec merges).2.1]
      exact lexemes_pair _ merges
    · rw [formula] at apart ⊢
      cases rest with
      | nil => cases apart
      | cons next rest =>
        obtain rfl : next = "\x7b" := by simpa [Lexeme.apart] using apart
        rfl

end Written

end Manuscript.Parse
