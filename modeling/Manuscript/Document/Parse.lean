import Manuscript.Document.Node
import Manuscript.Document.Reader

/-! Parsing never fails. Words are first merged into lexemes, which needs to look one word ahead, and lexemes are
then nested with a stack of open enclosures: any closing bracket closes the innermost one, a closing bracket
with nothing to close stays in the tree as a stray token, and whatever is open at the end has no closing token. -/

namespace Manuscript.Parse

/-- The identifier of an inline formula, written as a backslash right before a curly block. -/
def inlineMath : String := "\\"

inductive Lexeme where
  | leaf (node : Node)
  | opening (kind : BracketKind) (token : Token)
  | closing (token : Token)
  | quote (token : Token)

/-- The lexeme of a word that does not merge with the one after it. -/
def single (word : Token) : Lexeme :=
  if word.text = "\x7b" then .opening .curly word
  else if word.text = "[" then .opening .square word
  else if word.text = "(" then .opening .round word
  else if word.text ∈ ["\x7d", "]", ")"] then .closing word
  else if word.text = "\"" then .quote word
  else if word.text ∈ ["\\", "=", ">", "_", "^", ",", "."] then .leaf (.symbol word.text word.span)
  else .leaf (.text word.text word.span)

/-- The lexeme of two adjacent words that belong together. -/
def merged (word next : Token) : Option Lexeme :=
  let span : Span := ⟨word.span.start, next.span.stop⟩
  if word.text = "\\" && Words.isPlainWord next.text then some (.leaf (.ident ⟨"\\" ++ next.text, span⟩))
  else if word.text = "=" && next.text = ">" then some (.leaf (.symbol "=>" span))
  else if word.text = ">" && next.text = ">" then some (.leaf (.symbol ">>" span))
  else none

def lexemes : List Token → List Lexeme
  | [] => []
  | [word] => [single word]
  | word :: next :: rest =>
    match merged word next with
    | some lexeme => lexeme :: lexemes rest
    | none =>
      if word.text = "\\" && next.text = "\x7b" then .leaf (.ident ⟨inlineMath, word.span⟩) :: lexemes (next :: rest)
      else single word :: lexemes (next :: rest)

/-- An enclosure that is open: `kind` is absent for a quotation, and `before` holds the siblings in front of it,
latest first. -/
structure Frame where
  kind : Option BracketKind
  token : Token
  before : List Node

/-- `siblings` are the nodes of the innermost open enclosure, latest first. -/
structure State where
  stack : List Frame := []
  siblings : List Node := []

namespace Frame

def finish (frame : Frame) (closing : Option Token) (children : List Node) : Node :=
  match frame.kind with
  | some kind => .bracket ⟨kind, some frame.token, closing, children⟩
  | none => .quotation (some frame.token) closing children

end Frame

namespace State

def emit (state : State) (node : Node) : State := { state with siblings := node :: state.siblings }

def push (state : State) (kind : Option BracketKind) (token : Token) : State :=
  ⟨⟨kind, token, state.siblings⟩ :: state.stack, []⟩

def step (state : State) : Lexeme → State
  | .leaf node => state.emit node
  | .opening kind token => state.push (some kind) token
  | .closing token =>
    match state.stack with
    | [] => state.emit (.stray token)
    | frame :: stack => ⟨stack, frame.finish (some token) state.siblings.reverse :: frame.before⟩
  | .quote token =>
    match state.stack with
    | [] => state.push none token
    | frame :: stack =>
      if frame.kind.isNone then ⟨stack, frame.finish (some token) state.siblings.reverse :: frame.before⟩
      else state.push none token

/-- Leaves every open enclosure unterminated. -/
def close : List Frame → List Node → List Node
  | [], siblings => siblings.reverse
  | frame :: stack, siblings => close stack (frame.finish none siblings.reverse :: frame.before)

end State

def ofWords (words : List Token) : List Node :=
  let state := (lexemes words).foldl State.step {}
  State.close state.stack state.siblings

def ofBytes (source : Bytes) : List Node := ofWords (Words.ofBytes source)

def ofString (source : String) : List Node := ofBytes (Utf8.encode source)

/-- A reader that stops before the end of input gives no tree. -/
def ofReader (reader : Reader) : Except ReadStop (List Node) :=
  match reader.words with
  | (words, .endOfInput) => .ok (ofWords words)
  | (_, stop) => .error stop

end Manuscript.Parse
