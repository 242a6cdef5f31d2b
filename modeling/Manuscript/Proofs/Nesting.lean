import Manuscript.Document.Parse
import Manuscript.Document.Source

/-! Nesting takes nothing away. The lexemes of a tree, written in order, are those it was nested from: every step of
the stack machine only moves what was read so far between open enclosures and finished nodes. -/

namespace Manuscript

open Parse (Lexeme Frame State)

/-- A closing token as it was read: only a quote mark can close a quotation by itself. -/
def closer (token : Token) : Lexeme := if token.text = "\"" then .quote token else .closing token

mutual

/-- The lexemes that a node of a parsed tree was made of. -/
def Node.lexemes : Node → List Lexeme
  | .bracket block => blockLexemes block
  | .quotation opening closing children =>
    opening.toList.map .quote ++ lexemesOf children ++ closing.toList.map closer
  | .stray token => [.closing token]
  | node => [.leaf node]
termination_by structural node => node

def lexemesOf : List Node → List Lexeme
  | [] => []
  | node :: rest => node.lexemes ++ lexemesOf rest
termination_by structural nodes => nodes

def blockLexemes : Block Node → List Lexeme
  | ⟨kind, opening, closing, children⟩ =>
    opening.toList.map (.opening kind) ++ lexemesOf children ++ closing.toList.map .closing
termination_by structural block => block

end

attribute [local simp] Node.lexemes lexemesOf blockLexemes

@[simp]
theorem lexemesOf_append (nodes others : List Node) :
    lexemesOf (nodes ++ others) = lexemesOf nodes ++ lexemesOf others := by
  induction nodes with
  | nil => rfl
  | cons node nodes ih => simp [lexemesOf, ih]

@[simp]
theorem lexemesOf_singleton (node : Node) : lexemesOf [node] = node.lexemes := by simp [lexemesOf]

namespace Parse

/-- Lexemes whose tokens say what they are: a leaf is no enclosure, and a closing bracket is no quote mark. -/
def Lexeme.Faithful : Lexeme → Prop
  | .leaf node => node.lexemes = [.leaf node]
  | .closing token => token.text ≠ "\""
  | .quote token => token.text = "\""
  | .opening _ _ => True

def Frame.lexeme (frame : Frame) : Lexeme :=
  match frame.kind with
  | some kind => .opening kind frame.token
  | none => .quote frame.token

/-- What was read before the innermost enclosure that is still open. -/
def unwind : List Frame → List Lexeme
  | [] => []
  | frame :: stack => unwind stack ++ lexemesOf frame.before.reverse ++ [frame.lexeme]

def State.lexemes (state : State) : List Lexeme := unwind state.stack ++ lexemesOf state.siblings.reverse

theorem Frame.finish_lexemes (frame : Frame) (token : Token) (children : List Node) :
    (frame.finish (some token) children).lexemes = frame.lexeme :: lexemesOf children ++
      [if frame.kind.isSome then .closing token else closer token] := by
  unfold Frame.finish Frame.lexeme
  cases frame.kind <;> simp [Node.lexemes, blockLexemes]

theorem Frame.finish_open_lexemes (frame : Frame) (children : List Node) :
    (frame.finish none children).lexemes = frame.lexeme :: lexemesOf children := by
  unfold Frame.finish Frame.lexeme
  cases frame.kind <;> simp [Node.lexemes, blockLexemes]

theorem State.emit_lexemes (state : State) (node : Node) :
    (state.emit node).lexemes = state.lexemes ++ node.lexemes := by
  simp [State.lexemes, State.emit]

theorem State.push_lexemes (state : State) (kind : Option BracketKind) (token : Token) :
    (state.push kind token).lexemes = state.lexemes ++ [Frame.lexeme ⟨kind, token, []⟩] := by
  simp [State.lexemes, State.push, unwind, Frame.lexeme, lexemesOf]

/-- One step adds the lexeme it reads behind all that was read before. -/
theorem State.step_lexemes (state : State) (lexeme : Lexeme) (faithful : lexeme.Faithful) :
    (state.step lexeme).lexemes = state.lexemes ++ [lexeme] := by
  obtain ⟨stack, siblings⟩ := state
  cases lexeme with
  | leaf node => rw [State.step, State.emit_lexemes, faithful]
  | opening kind token => exact State.push_lexemes _ _ _
  | closing token =>
    cases stack with
    | nil => exact State.emit_lexemes _ _
    | cons frame stack =>
      have same : closer token = .closing token := if_neg faithful
      simp [State.step, State.lexemes, unwind, Frame.finish_lexemes, same]
  | quote token =>
    cases stack with
    | nil => exact State.push_lexemes _ _ _
    | cons frame stack =>
      have same : closer token = .quote token := if_pos faithful
      by_cases quoted : frame.kind.isNone
      · simp [State.step, State.lexemes, unwind, Frame.finish_lexemes, quoted, same]
      · simp only [State.step, quoted]
        exact State.push_lexemes _ _ _

theorem State.run_lexemes (lexemes : List Lexeme) (state : State) (faithful : ∀ lexeme ∈ lexemes, lexeme.Faithful) :
    (lexemes.foldl State.step state).lexemes = state.lexemes ++ lexemes := by
  induction lexemes generalizing state with
  | nil => simp
  | cons lexeme lexemes ih =>
    rw [List.foldl_cons, ih _ fun other member => faithful other (List.mem_cons_of_mem _ member),
      State.step_lexemes _ _ (faithful lexeme (List.mem_cons_self ..))]
    simp

theorem State.close_lexemes (stack : List Frame) (siblings : List Node) :
    lexemesOf (State.close stack siblings) = unwind stack ++ lexemesOf siblings.reverse := by
  induction stack generalizing siblings with
  | nil => rfl
  | cons frame stack ih => simp [State.close, ih, unwind, Frame.finish_open_lexemes]

/-- The tree that a list of lexemes nests into. -/
def nest (lexemes : List Lexeme) : List Node :=
  let state := lexemes.foldl State.step {}
  State.close state.stack state.siblings

theorem ofWords_eq_nest (words : List Token) : ofWords words = nest (lexemes words) := rfl

theorem lexemesOf_nest (lexemes : List Lexeme) (faithful : ∀ lexeme ∈ lexemes, lexeme.Faithful) :
    lexemesOf (nest lexemes) = lexemes := by
  have read := State.run_lexemes lexemes {} faithful
  rw [nest, State.close_lexemes]
  exact read

end Parse
end Manuscript
