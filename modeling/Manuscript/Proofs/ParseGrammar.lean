import Manuscript.Proofs.Lexing
import Manuscript.Proofs.Nested
import Manuscript.Proofs.ParseLossless

/-! The grammar of parsed trees. Its rules speak of a list of nodes at a time: what each node may say, what may stand
next to it, and where it may be left open. Every parsed tree obeys them, and a tree that does is parsed from the text
it is written as, so that writing and parsing undo each other. -/

namespace Manuscript

open Parse

namespace Node

def isPlainText : Node → Bool
  | .text value _ => Words.isPlainWord value
  | _ => false

def isGreater : Node → Bool
  | .symbol value _ => value == ">" || value == ">>"
  | _ => false

/-- Whether a node would be read as it is when `next` is the sibling behind it. -/
def apart (next : Option Node) : Node → Bool
  | .text value _ => !(Words.isPlainWord value && next.any isPlainText)
  | .symbol value _ =>
    if value = "\\" then !next.any isCurly && !next.any isPlainText
    else if value = "=" || value = ">" then !next.any isGreater
    else true
  | .ident ⟨name, _⟩ => if name = inlineMath then next.any isCurly else !next.any isPlainText
  | _ => true

end Node

/-- An enclosure closes with one of a few marks; only one that is `final` may have none. -/
def closes (final : Bool) (marks : List String) : Option Token → Bool
  | some token => token.text ∈ marks
  | none => final

mutual

def Node.wellFormed (place : Place) (final : Bool) : Node → Bool
  | .text value _ => Words.isPlainWord value || isSpaceWord value
  | .symbol value _ => value ∈ symbols
  | .ident ident => ident.name == inlineMath || isName ident.name
  | .stray token => place == .top && token.text ∈ closers
  | .bracket block => blockWellFormed final block
  | .quotation opening closing children =>
    place != .quotation && opening.any (·.text == "\"") && closes final ("\"" :: closers) closing &&
      wellFormed .quotation (final && closing.isNone) children
  | _ => false
termination_by structural node => node

/-- The grammar of a list of siblings; `final` tells that all the enclosures around it have no closing token. -/
def wellFormed (place : Place) (final : Bool) : List Node → Bool
  | [] => true
  | node :: rest =>
    node.wellFormed place (final && rest.isEmpty) && node.apart rest.head? && wellFormed place final rest
termination_by structural nodes => nodes

def blockWellFormed (final : Bool) : Block Node → Bool
  | ⟨kind, opening, closing, children⟩ =>
    opening.any (·.text == opener kind) && closes final closers closing &&
      wellFormed .bracket (final && closing.isNone) children
termination_by structural block => block

end

/-- A sibling and a word that the node in front of them cannot tell apart. -/
structure Announces (next : Option Node) (word : Option String) : Prop where
  plain : next.any Node.isPlainText = word.any Words.isPlainWord
  curly : next.any Node.isCurly = (word == some "\x7b")
  greater : next.any Node.isGreater = (word == some ">")

theorem announces_none : Announces none none := ⟨rfl, rfl, rfl⟩

theorem announces_closer {word : String} (closes : word ∈ "\"" :: closers) : Announces none (some word) := by
  simp only [closers, List.mem_cons, List.not_mem_nil, or_false] at closes
  rcases closes with rfl | rfl | rfl | rfl <;> exact ⟨rfl, rfl, rfl⟩

theorem Announces.apart {next : Option Node} {word : Option String} (same : Announces next word) (node : Node) :
    node.apart next = (Lexeme.leaf node).apart word := by
  obtain ⟨plain, curly, greater⟩ := same
  cases node <;> simp [Node.apart, Lexeme.apart, plain, curly, greater, bne]

/-- A node announces itself with the first of its words. -/
theorem announces_node {place : Place} {final : Bool} {node : Node} (fits : node.nested place final = true)
    (lexical : ∀ lexeme ∈ node.lexemes, lexeme.isLexical = true) :
    ∃ word, (node.lexemes.flatMap Lexeme.words).head? = some word ∧ Announces (some node) (some word) := by
  cases node with
  | text value span =>
    have text : Words.isPlainWord value = true ∨ isSpaceWord value = true := by
      simpa [Node.lexemes, Lexeme.isLexical] using lexical
    have other := not_mark text
    simp only [marks, List.mem_cons, List.not_mem_nil, or_false, not_or] at other
    exact ⟨value, rfl, rfl, by simp [Node.isCurly, other], by simp [Node.isGreater, other]⟩
  | symbol value span =>
    have known : value ∈ symbols := by simpa [Node.lexemes, Lexeme.isLexical] using lexical
    simp only [symbols, List.mem_cons, List.not_mem_nil, or_false] at known
    rcases known with rfl | rfl | rfl | rfl | rfl | rfl | rfl | rfl | rfl
    all_goals exact ⟨_, rfl, rfl, rfl, rfl⟩
  | ident ident =>
    refine ⟨"\\", ?_, rfl, rfl, rfl⟩
    simp only [Node.lexemes, Lexeme.words, List.flatMap_singleton]
    split <;> rfl
  | stray token =>
    have closing : token.text ∈ closers := by simpa [Node.lexemes, Lexeme.isLexical] using lexical
    obtain ⟨plain, curly, greater⟩ := announces_closer (List.mem_cons_of_mem _ closing)
    exact ⟨token.text, rfl, plain, curly, greater⟩
  | bracket block =>
    obtain ⟨kind, opening, closing, children⟩ := block
    simp only [Node.nested, blockNested, Bool.and_eq_true] at fits
    obtain ⟨token, rfl⟩ := Option.isSome_iff_exists.mp fits.1.1
    have mark : token.text = opener kind := by
      simpa [Lexeme.isLexical] using lexical (.opening kind token) (by simp [Node.lexemes, blockLexemes])
    refine ⟨token.text, rfl, ?_⟩
    rw [mark]
    cases kind <;> exact ⟨rfl, rfl, rfl⟩
  | quotation opening closing children =>
    simp only [Node.nested, Bool.and_eq_true] at fits
    obtain ⟨token, rfl⟩ := Option.isSome_iff_exists.mp fits.1.1.2
    have mark : token.text = "\"" := by
      simpa [Lexeme.isLexical] using lexical (.quote token) (by simp [Node.lexemes])
    refine ⟨token.text, rfl, ?_⟩
    rw [mark]
    exact ⟨rfl, rfl, rfl⟩
  | _ => cases fits

/-- Nesting, what each lexeme spoken and what it merges with, together. -/
structure Sound (place : Place) (final : Bool) (after : Option String) (nodes : List Node) : Prop where
  deep : nested place final nodes = true
  lexical : ∀ lexeme ∈ lexemesOf nodes, lexeme.isLexical = true
  parted : spaced after (lexemesOf nodes) = true

/-- The marks of an enclosure part its children from what stands around it. -/
theorem enclosure_iff {place : Place} {final : Bool} {after : Option String} {children : List Node} (start : Lexeme)
    (mark : Token → Lexeme) (allowed : List String) (closing : Option Token)
    (inner : ∀ final after, Announces none after → (final = true → after = none) →
      (wellFormed place final children = true ↔ Sound place final after children))
    (opens : ∀ next, start.apart next = true) (apart : ∀ token next, (mark token).apart next = true)
    (words : ∀ token, (mark token).words = [token.text])
    (lexical : ∀ token, (mark token).isLexical = true ↔ token.text ∈ allowed)
    (known : ∀ word ∈ allowed, word ∈ "\"" :: closers) (last : final = true → after = none) :
    start.isLexical = true ∧ closes final allowed closing = true ∧
        wellFormed place (final && closing.isNone) children = true ↔
      ((closing.isSome || final) = true ∧ nested place (final && closing.isNone) children = true) ∧
        (∀ lexeme ∈ start :: (lexemesOf children ++ closing.toList.map mark), lexeme.isLexical = true) ∧
        spaced after (start :: (lexemesOf children ++ closing.toList.map mark)) = true := by
  simp only [List.forall_mem_cons, spaced, opens, Bool.true_and]
  cases closing with
  | none =>
    cases final with
    | false => simp [closes]
    | true =>
      obtain rfl := last rfl
      have parts := inner true none announces_none (fun _ => rfl)
      simp only [closes, Option.isNone_none, Bool.and_true, parts, Option.isSome_none, Bool.or_true, true_and,
        Option.toList_none, List.map_nil, List.append_nil]
      constructor
      · rintro ⟨begins, deep, spoken, parted⟩
        exact ⟨deep, ⟨begins, spoken⟩, parted⟩
      · rintro ⟨deep, ⟨begins, spoken⟩, parted⟩
        exact ⟨begins, deep, spoken, parted⟩
  | some token =>
    have behind : spaced after (lexemesOf children ++ [mark token]) = spaced (some token.text) (lexemesOf children) := by
      rw [spaced_append]
      simp [spaced, apart, words]
    simp only [closes, Option.isNone_some, Bool.and_false, Option.isSome_some, Bool.true_or, true_and,
      Option.toList_some, List.map_cons, List.map_nil, behind, decide_eq_true_eq, List.forall_mem_append,
      List.forall_mem_singleton, lexical]
    constructor
    · rintro ⟨begins, allows, formed⟩
      obtain ⟨deep, spoken, parted⟩ := (inner false _ (announces_closer (known _ allows)) (by simp)).mp formed
      exact ⟨deep, ⟨begins, spoken, allows⟩, parted⟩
    · rintro ⟨deep, ⟨begins, spoken, allows⟩, parted⟩
      exact ⟨begins, allows, (inner false _ (announces_closer (known _ allows)) (by simp)).mpr ⟨deep, spoken, parted⟩⟩

theorem closer_lexical (token : Token) : (closer token).isLexical = true ↔ token.text ∈ "\"" :: closers := by
  unfold closer
  split <;> simp_all [Lexeme.isLexical]

theorem closer_words (token : Token) : (closer token).words = [token.text] := by
  unfold closer
  split <;> rfl

theorem closer_apart (token : Token) (next : Option String) : (closer token).apart next = true := by
  unfold closer
  split <;> rfl

theorem Sound.singleton_iff {place : Place} {final : Bool} {after : Option String} {node : Node} :
    Sound place final after [node] ↔ node.nested place final = true ∧
      (∀ lexeme ∈ node.lexemes, lexeme.isLexical = true) ∧ spaced after node.lexemes = true := by
  constructor
  · rintro ⟨deep, spoken, parted⟩
    simp only [nested_singleton, lexemesOf_singleton] at deep spoken parted
    exact ⟨deep, spoken, parted⟩
  · rintro ⟨deep, spoken, parted⟩
    refine ⟨?_, ?_, ?_⟩
    all_goals simpa only [nested_singleton, lexemesOf_singleton]

theorem Sound.cons_iff {place : Place} {final : Bool} {after : Option String} {node : Node} {rest : List Node} :
    Sound place final after (node :: rest) ↔
      Sound place (final && rest.isEmpty) (((lexemesOf rest).flatMap Lexeme.words).head?.or after) [node] ∧
        Sound place final after rest := by
  rw [Sound.singleton_iff]
  constructor
  · rintro ⟨deep, spoken, parted⟩
    rw [nested, Bool.and_eq_true] at deep
    rw [lexemesOf, List.forall_mem_append] at spoken
    rw [lexemesOf, spaced_append, Bool.and_eq_true] at parted
    exact ⟨⟨deep.1, spoken.1, parted.1⟩, deep.2, spoken.2, parted.2⟩
  · rintro ⟨⟨deep, spoken, parted⟩, others⟩
    refine ⟨?_, ?_, ?_⟩
    · rw [nested, deep, others.deep]
      rfl
    · rw [lexemesOf, List.forall_mem_append]
      exact ⟨spoken, others.lexical⟩
    · rw [lexemesOf, spaced_append, parted, others.parted]
      rfl

theorem Sound.announces {place : Place} {final : Bool} {after : Option String} {nodes : List Node}
    (sound : Sound place final after nodes) (same : Announces none after) :
    Announces nodes.head? (((lexemesOf nodes).flatMap Lexeme.words).head?.or after) := by
  cases nodes with
  | nil => exact same
  | cons node rest =>
    obtain ⟨first, _⟩ := Sound.cons_iff.mp sound
    obtain ⟨deep, spoken, _⟩ := Sound.singleton_iff.mp first
    obtain ⟨word, starts, announced⟩ := announces_node deep spoken
    rw [lexemesOf, List.flatMap_append, List.head?_append, starts]
    exact announced

theorem leaf_wellFormed_iff {place : Place} {final : Bool} {next : Option Node} {after : Option String} {node : Node}
    (same : Announces next after) (leaf : node.lexemes = [.leaf node])
    (spoken : node.wellFormed place final = (Lexeme.leaf node).isLexical)
    (fits : (Lexeme.leaf node).isLexical = true → node.nested place final = true) :
    node.wellFormed place final = true ∧ node.apart next = true ↔ Sound place final after [node] := by
  rw [Sound.singleton_iff, leaf, spoken, same.apart]
  simp only [List.forall_mem_singleton, spaced, List.flatMap_nil, List.head?_nil, Option.none_or, Bool.and_true]
  constructor
  · rintro ⟨lexical, parted⟩
    exact ⟨fits lexical, lexical, parted⟩
  · rintro ⟨_, lexical, parted⟩
    exact ⟨lexical, parted⟩

mutual

theorem Node.wellFormed_iff (node : Node) (place : Place) (final : Bool) (next : Option Node) (after : Option String)
    (same : Announces next after) (last : final = true → after = none) :
    node.wellFormed place final = true ∧ node.apart next = true ↔ Sound place final after [node] := by
  cases node with
  | bracket block =>
    rw [Sound.singleton_iff]
    exact (and_iff_left rfl).trans (blockWellFormed_iff block final after last)
  | quotation opening closing children =>
    rw [Sound.singleton_iff]
    cases opening with
    | none => simp [Node.wellFormed, Node.nested]
    | some token =>
      have inner := enclosure_iff (.quote token) closer ("\"" :: closers) closing (wellFormed_iff children .quotation)
        (fun _ => rfl) closer_apart closer_words closer_lexical (fun _ known => known) last
      simp only [Node.wellFormed, Node.nested, Node.apart, Bool.and_eq_true, and_true, and_assoc] at inner ⊢
      exact and_congr_right fun _ => inner.trans (and_iff_right rfl).symm
  | stray token =>
    rw [Sound.singleton_iff]
    simp [Node.wellFormed, Node.nested, Node.lexemes, Node.apart, spaced, Lexeme.apart, Lexeme.isLexical]
  | _ => exact leaf_wellFormed_iff same rfl rfl (by simp [Node.nested, Lexeme.isLexical])
termination_by structural node

theorem wellFormed_iff (nodes : List Node) (place : Place) (final : Bool) (after : Option String)
    (same : Announces none after) (last : final = true → after = none) :
    wellFormed place final nodes = true ↔ Sound place final after nodes := by
  cases nodes with
  | nil => exact ⟨fun _ => ⟨rfl, by simp [lexemesOf], rfl⟩, fun _ => rfl⟩
  | cons node rest =>
    have behind := wellFormed_iff rest place final after same last
    -- What stands behind the node is known from either side.
    have first (sound : Sound place final after rest) :=
      Node.wellFormed_iff node place (final && rest.isEmpty) rest.head? _ (sound.announces same) (by
        intro ends
        rw [Bool.and_eq_true, List.isEmpty_iff] at ends
        rw [ends.2, last ends.1]
        rfl)
    rw [wellFormed, Bool.and_eq_true, Bool.and_eq_true, Sound.cons_iff, behind]
    exact and_congr_left first
termination_by structural nodes

theorem blockWellFormed_iff (block : Block Node) (final : Bool) (after : Option String)
    (last : final = true → after = none) :
    blockWellFormed final block = true ↔ blockNested final block = true ∧
      (∀ lexeme ∈ blockLexemes block, lexeme.isLexical = true) ∧ spaced after (blockLexemes block) = true := by
  obtain ⟨kind, opening, closing, children⟩ := block
  cases opening with
  | none => simp [blockWellFormed, blockNested]
  | some token =>
    have inner := enclosure_iff (.opening kind token) .closing closers closing (wellFormed_iff children .bracket)
      (fun _ => rfl) (fun _ _ => rfl) (fun _ => rfl) (fun _ => decide_eq_true_iff)
      (fun _ known => List.mem_cons_of_mem _ known) last
    simp only [blockWellFormed, blockNested, Bool.and_eq_true, and_assoc, Option.isSome_some, true_and] at inner ⊢
    exact inner
termination_by structural block

end

theorem Node.apart_unplaced (node : Node) (next : Option Node) :
    node.unplaced.apart (next.map Node.unplaced) = node.apart next := by
  have plain (other : Node) : other.unplaced.isPlainText = other.isPlainText := by cases other <;> rfl
  have curly (other : Node) : other.unplaced.isCurly = other.isCurly := by
    cases other with
    | bracket block => obtain ⟨kind, opening, closing, children⟩ := block; rfl
    | _ => rfl
  have greater (other : Node) : other.unplaced.isGreater = other.isGreater := by cases other <;> rfl
  cases next <;> cases node <;> simp [Node.unplaced, Node.apart, plain, curly, greater]

mutual

theorem Node.wellFormed_unplaced (node : Node) (place : Place) (final : Bool) :
    node.unplaced.wellFormed place final = node.wellFormed place final := by
  cases node with
  | bracket block => exact blockWellFormed_unplaced block final
  | quotation opening closing children =>
    have inner := wellFormed_unplaced children .quotation (final && closing.isNone)
    cases opening <;> cases closing <;> simp_all [Node.unplaced, Node.wellFormed, Token.unplaced, closes]
  | _ => rfl
termination_by structural node

/-- The grammar does not look at places. -/
theorem wellFormed_unplaced (nodes : List Node) (place : Place) (final : Bool) :
    wellFormed place final (unplaced nodes) = wellFormed place final nodes := by
  cases nodes with
  | nil => rfl
  | cons node rest =>
    have others := wellFormed_unplaced rest place final
    have first := Node.wellFormed_unplaced node place
    have next : node.unplaced.apart (unplaced rest).head? = node.apart rest.head? := by
      rw [unplaced_eq_map, List.head?_map]
      exact node.apart_unplaced rest.head?
    have empty : (unplaced rest).isEmpty = rest.isEmpty := by cases rest <;> rfl
    simp only [unplaced, wellFormed, first, next, others, empty]
termination_by structural nodes

theorem blockWellFormed_unplaced (block : Block Node) (final : Bool) :
    blockWellFormed final (blockUnplaced block) = blockWellFormed final block := by
  obtain ⟨kind, opening, closing, children⟩ := block
  have inner := wellFormed_unplaced children .bracket (final && closing.isNone)
  cases opening <;> cases closing <;> simp_all [blockUnplaced, blockWellFormed, Token.unplaced, closes]
termination_by structural block

end

namespace Parse

theorem Lexeme.words_spelling {lexeme : Lexeme} (lexical : lexeme.isLexical = true) :
    lexeme.words.flatMap String.toList = spelling lexeme.tokens := by
  cases lexeme with
  | leaf node =>
    cases node with
    | text value span => simp [Lexeme.words, Lexeme.tokens, Node.tokens, spelling]
    | symbol value span =>
      simp only [Lexeme.words, Lexeme.tokens, Node.tokens]
      split
      next arrow => simp [arrow, spelling]
      split
      next shift => simp [shift, spelling]
      · simp [spelling]
    | ident ident =>
      simp only [Lexeme.isLexical, Bool.or_eq_true, beq_iff_eq] at lexical
      simp only [Lexeme.words, Lexeme.tokens, Node.tokens]
      split
      next formula => simp [formula, spelling]
      next longer =>
        obtain ⟨word, _, named⟩ := isName_iff.mp (lexical.resolve_left longer)
        simp [named, spelling, inlineMath]
    | _ => cases lexical
  | _ => simp [Lexeme.words, Lexeme.tokens, spelling]

theorem source_words {nodes : List Node} (lexical : ∀ lexeme ∈ lexemesOf nodes, lexeme.isLexical = true) :
    (source nodes).toList = ((lexemesOf nodes).flatMap Lexeme.words).flatMap String.toList := by
  rw [source_toList, tokensOf_eq_lexemes, List.flatMap_assoc, spelling, List.flatMap_assoc]
  exact List.flatMap_congr fun lexeme member => (Lexeme.words_spelling (lexical lexeme member)).symm

theorem lexical_flat {lexeme : Lexeme} (lexical : lexeme.isLexical = true) : lexeme.IsFlat := by
  cases lexeme with
  | leaf node => cases node <;> first | cases lexical | exact fun _ => rfl
  | _ => trivial

theorem ofBytes_wellFormed (bytes : Bytes) : wellFormed .top true (ofBytes bytes) = true := by
  have written := lexemes_written (Words.ofBytes bytes) (Words.segment_proper 0 (Utf8.decode bytes))
  rw [wellFormed_iff _ _ _ none announces_none (fun _ => rfl)]
  have read : lexemesOf (ofBytes bytes) = lexemes (Words.ofBytes bytes) := lexemesOf_nest _ (lexemes_faithful _)
  exact ⟨nest_nested _ fun lexeme member => lexical_flat (written.lexical lexeme member),
    read ▸ written.lexical, read ▸ written.spaced⟩

theorem ofString_source (nodes : List Node) (formed : wellFormed .top true nodes = true) :
    unplaced (ofString (source nodes)) = unplaced nodes := by
  obtain ⟨deep, lexical, parted⟩ := (wellFormed_iff _ _ _ none announces_none (fun _ => rfl)).mp formed
  have written : Written ((lexemesOf nodes).flatMap Lexeme.words) (lexemesOf nodes) := ⟨lexical, rfl, parted⟩
  have texts : (Words.ofBytes (Utf8.encode (source nodes))).map Token.text =
      (lexemesOf nodes).flatMap Lexeme.words := by
    rw [Words.ofBytes_encode]
    refine Words.segment_texts _ written.proper 0 _ ?_
    rw [← source_words lexical, List.map_map]
    exact List.map_id _
  have bares : (Words.ofBytes (Utf8.encode (source nodes))).map Token.unplaced =
      ((lexemesOf nodes).flatMap Lexeme.words).map bare := by
    rw [← texts, List.map_map]
    rfl
  calc unplaced (ofString (source nodes))
      = nest ((lexemes (Words.ofBytes (Utf8.encode (source nodes)))).map Lexeme.unplaced) := (nest_unplaced _).symm
    _ = nest ((lexemesOf nodes).map Lexeme.unplaced) := by rw [← lexemes_unplaced, bares, written.lexemes_eq]
    _ = unplaced nodes := by rw [nest_unplaced, nest_lexemesOf nodes deep]

theorem source_ofString (text : String) : source (ofString text) = text := by
  have reads := source_ofBytes (Utf8.encode text)
  rw [Utf8.decode_encode, List.map_map] at reads
  exact String.toList_inj.mp (reads.trans (List.map_id _))

end Parse

/-- The parsed trees are, up to places, the trees that obey the grammar; on these, writing and parsing undo each
other. -/
theorem parse_image :
    (∀ bytes, wellFormed .top true (Parse.ofBytes bytes) = true) ∧
      (∀ nodes, wellFormed .top true nodes = true ↔ unplaced (Parse.ofString (source nodes)) = unplaced nodes) ∧
      ∀ text, source (Parse.ofString text) = text := by
  refine ⟨ofBytes_wellFormed, fun nodes => ⟨ofString_source nodes, fun same => ?_⟩, source_ofString⟩
  rw [← wellFormed_unplaced, ← same, wellFormed_unplaced]
  exact ofBytes_wellFormed _

end Manuscript
