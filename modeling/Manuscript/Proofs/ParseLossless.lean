import Manuscript.Proofs.Nesting
import Manuscript.Proofs.WordTiling

/-! Parsing loses nothing. The leaf tokens of a parsed tree, read in document order, are the words of the source,
some of them joined; so they cover the source and spell what it reads, whether its brackets are balanced or not. -/

namespace Manuscript

open Parse (Lexeme)

mutual

/-- The leaf tokens of a node in document order: its words and the marks of its enclosures. -/
def Node.tokens : Node → List Token
  | .hole => []
  | .text value span => [⟨value, span⟩]
  | .symbol value span => [⟨value, span⟩]
  | .ident ident => [⟨ident.name, ident.span⟩]
  | .stray token => [token]
  | .bracket block => blockTokens block
  | .quotation opening closing children => opening.toList ++ tokensOf children ++ closing.toList
  | .fragment children => tokensOf children
  | .drawing _ => []
  | .tag ⟨ident, options, _, args, _⟩ => ⟨ident.name, ident.span⟩ :: optionTokens options ++ blocksTokens args
  | .command ⟨ident, _, args, _, _⟩ => ⟨ident.name, ident.span⟩ :: tokensOf args
termination_by structural node => node

def tokensOf : List Node → List Token
  | [] => []
  | node :: rest => node.tokens ++ tokensOf rest
termination_by structural nodes => nodes

def blockTokens : Block Node → List Token
  | ⟨_, opening, closing, children⟩ => opening.toList ++ tokensOf children ++ closing.toList
termination_by structural block => block

def optionTokens : Option (Block Node) → List Token
  | none => []
  | some block => blockTokens block
termination_by structural options => options

def blocksTokens : List (Block Node) → List Token
  | [] => []
  | block :: rest => blockTokens block ++ blocksTokens rest
termination_by structural blocks => blocks

end

def spelling (tokens : List Token) : List Char := tokens.flatMap (·.text.toList)

@[simp]
theorem spelling_append (tokens others : List Token) : spelling (tokens ++ others) = spelling tokens ++ spelling others :=
  List.flatMap_append

@[simp]
theorem spelling_cons (token : Token) (tokens : List Token) :
    spelling (token :: tokens) = token.text.toList ++ spelling tokens :=
  List.flatMap_cons

theorem textOf_toList (token : Option Token) : (Token.textOf token).toList = spelling token.toList := by
  cases token <;> simp [Token.textOf, spelling]

mutual

theorem Node.source_toList (node : Node) : node.source.toList = spelling node.tokens := by
  cases node with
  | bracket block => rw [Node.source, Node.tokens, blockSource_toList]
  | quotation opening closing children =>
    simp [Node.source, Node.tokens, textOf_toList, source_toList children]
  | fragment children => rw [Node.source, Node.tokens, source_toList children]
  | tag tag =>
    obtain ⟨ident, options, attributes, args, rules⟩ := tag
    simp [Node.source, Node.tokens, optionsSource_toList options, blocksSource_toList args]
  | command command =>
    obtain ⟨ident, attributes, args, declaration, rules⟩ := command
    simp [Node.source, Node.tokens, source_toList args]
  | _ => simp [Node.source, Node.tokens, spelling]
termination_by structural node

/-- What a tree was written as is what its leaf tokens spell. -/
theorem source_toList (nodes : List Node) : (source nodes).toList = spelling (tokensOf nodes) := by
  cases nodes with
  | nil => rfl
  | cons node rest => simp [source, tokensOf, Node.source_toList node, source_toList rest]
termination_by structural nodes

theorem blockSource_toList (block : Block Node) : (blockSource block).toList = spelling (blockTokens block) := by
  obtain ⟨kind, opening, closing, children⟩ := block
  simp [blockSource, blockTokens, textOf_toList, source_toList children]
termination_by structural block

theorem optionsSource_toList (options : Option (Block Node)) :
    (optionsSource options).toList = spelling (optionTokens options) := by
  cases options with
  | none => rfl
  | some block => rw [optionsSource, optionTokens, blockSource_toList block]
termination_by structural options

theorem blocksSource_toList (blocks : List (Block Node)) :
    (blocksSource blocks).toList = spelling (blocksTokens blocks) := by
  cases blocks with
  | nil => rfl
  | cons block rest => simp [blocksSource, blocksTokens, blockSource_toList block, blocksSource_toList rest]
termination_by structural blocks

end

def Parse.Lexeme.tokens : Lexeme → List Token
  | .leaf node => node.tokens
  | .opening _ token | .closing token | .quote token => [token]

theorem closer_tokens (token : Token) : (closer token).tokens = [token] := by
  unfold closer
  split <;> rfl

private theorem mark_tokens (mark : Token → Lexeme) (marks : ∀ token, (mark token).tokens = [token])
    (token : Option Token) : (token.toList.map mark).flatMap Lexeme.tokens = token.toList := by
  cases token <;> simp [marks]

mutual

theorem Node.tokens_eq_lexemes (node : Node) : node.tokens = node.lexemes.flatMap Lexeme.tokens := by
  cases node with
  | bracket block => rw [Node.tokens, Node.lexemes, blockTokens_eq_lexemes block]
  | quotation opening closing children =>
    rw [Node.tokens, Node.lexemes, tokensOf_eq_lexemes children, List.flatMap_append, List.flatMap_append,
      mark_tokens _ (fun _ => rfl), mark_tokens _ closer_tokens]
  | _ => simp [Node.tokens, Node.lexemes, Lexeme.tokens]
termination_by structural node

theorem tokensOf_eq_lexemes (nodes : List Node) : tokensOf nodes = (lexemesOf nodes).flatMap Lexeme.tokens := by
  cases nodes with
  | nil => rfl
  | cons node rest =>
    rw [tokensOf, lexemesOf, List.flatMap_append, Node.tokens_eq_lexemes node, tokensOf_eq_lexemes rest]
termination_by structural nodes

theorem blockTokens_eq_lexemes (block : Block Node) :
    blockTokens block = (blockLexemes block).flatMap Lexeme.tokens := by
  obtain ⟨kind, opening, closing, children⟩ := block
  rw [blockTokens, blockLexemes, tokensOf_eq_lexemes children, List.flatMap_append, List.flatMap_append,
    mark_tokens _ (fun _ => rfl), mark_tokens _ (fun _ => rfl)]
termination_by structural block

end

namespace Parse

theorem single_tokens (word : Token) : (single word).tokens = [word] := by
  unfold single
  repeat' split
  all_goals rfl

theorem single_faithful (word : Token) : (single word).Faithful := by
  unfold single
  split
  · trivial
  split
  · trivial
  split
  · trivial
  split
  next closing =>
    intro quote
    rw [quote] at closing
    exact absurd closing (by decide)
  next =>
    split
    next quote => exact quote
    next => split <;> rfl

theorem merged_cases {word next : Token} {lexeme : Lexeme} (merges : merged word next = some lexeme) :
    lexeme.Faithful ∧
      lexeme.tokens = [⟨word.text ++ next.text, ⟨word.span.start, next.span.stop⟩⟩] := by
  unfold merged at merges
  simp only [Bool.and_eq_true, decide_eq_true_eq] at merges
  split at merges
  next named =>
    cases merges
    exact ⟨rfl, by simp [Lexeme.tokens, Node.tokens, named.1]⟩
  split at merges
  next arrow =>
    cases merges
    exact ⟨rfl, by rw [arrow.1, arrow.2]; rfl⟩
  split at merges
  next shift =>
    cases merges
    exact ⟨rfl, by rw [shift.1, shift.2]; rfl⟩
  · cases merges

theorem lexemes_faithful (words : List Token) : ∀ lexeme ∈ lexemes words, lexeme.Faithful := by
  fun_induction lexemes words with
  | case1 => simp
  | case2 word => simpa using single_faithful word
  | case3 word next rest lexeme merges ih => exact List.forall_mem_cons.mpr ⟨(merged_cases merges).1, ih⟩
  | case4 word next rest _ _ ih => exact List.forall_mem_cons.mpr ⟨rfl, ih⟩
  | case5 word next rest _ _ ih => exact List.forall_mem_cons.mpr ⟨single_faithful word, ih⟩

/-- Lexemes tile what the words tile: a lexeme is one word or two that are joined. -/
theorem lexemes_tile {offset : Nat} {glyphs : List Glyph} {words : List Token} (tiles : Tiles offset glyphs words) :
    Tiles offset glyphs ((lexemes words).flatMap Lexeme.tokens) := by
  fun_induction lexemes words generalizing offset glyphs with
  | case1 => exact tiles
  | case2 word => simpa [single_tokens] using tiles
  | case3 word next rest lexeme merges ih =>
    rw [List.flatMap_cons, (merged_cases merges).2]
    exact tiles.join.change_tail fun _ _ => ih
  | case4 word next rest _ formula ih =>
    have name : word.text = inlineMath := by
      simp only [Bool.and_eq_true, decide_eq_true_eq] at formula
      exact formula.1
    rw [List.flatMap_cons, ← name]
    exact tiles.change_tail fun _ _ => ih
  | case5 word next rest _ _ ih =>
    rw [List.flatMap_cons, single_tokens]
    exact tiles.change_tail fun _ _ => ih

theorem ofBytes_tiles (bytes : Bytes) : Tiles 0 (Utf8.decode bytes) (tokensOf (ofBytes bytes)) := by
  rw [ofBytes, ofWords_eq_nest, tokensOf_eq_lexemes, lexemesOf_nest _ (lexemes_faithful _)]
  exact lexemes_tile (Words.segmentFrom_tiles 0 (Utf8.decode bytes))

end Parse

theorem Tiles.spelling {offset : Nat} {glyphs : List Glyph} {tokens : List Token} (tiles : Tiles offset glyphs tokens) :
    Manuscript.spelling tokens = glyphs.map Glyph.char := by
  induction tiles with
  | nil => rfl
  | cons some tiles ih => simp [ih, Words.token]

theorem source_ofBytes (bytes : Bytes) :
    (source (Parse.ofBytes bytes)).toList = (Utf8.decode bytes).map Glyph.char := by
  rw [source_toList, (Parse.ofBytes_tiles bytes).spelling]

/-- Parsing loses nothing, on any source: a parsed tree is written as the source reads, and its leaf tokens lie side
by side from the start of the source to its end, each reading as the source does there. -/
theorem parse_lossless (bytes : Bytes) :
    Utf8.Reads bytes (source (Parse.ofBytes bytes)).toList ∧ Covering bytes 0 (tokensOf (Parse.ofBytes bytes)) := by
  refine ⟨?_, (Parse.ofBytes_tiles bytes).covering (Nat.zero_le _) rfl⟩
  rw [Utf8.reads_iff, source_ofBytes]

end Manuscript
