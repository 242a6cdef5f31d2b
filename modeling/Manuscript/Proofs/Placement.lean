import Manuscript.Proofs.Nesting

/-! Where a word stands in the source has no part in what it is parsed as: words that are moved give the same tree,
moved. So trees can be compared, and words written anew, with every place forgotten. -/

namespace Manuscript

def Token.unplaced (token : Token) : Token := { text := token.text }

mutual

/-- A node of a parsed tree with its places forgotten; nodes of later passes stay as they are. -/
def Node.unplaced : Node → Node
  | .text value _ => .text value {}
  | .symbol value _ => .symbol value {}
  | .ident ident => .ident { name := ident.name }
  | .stray token => .stray token.unplaced
  | .bracket block => .bracket (blockUnplaced block)
  | .quotation opening closing children =>
    .quotation (opening.map Token.unplaced) (closing.map Token.unplaced) (unplaced children)
  | node => node
termination_by structural node => node

def unplaced : List Node → List Node
  | [] => []
  | node :: rest => node.unplaced :: unplaced rest
termination_by structural nodes => nodes

def blockUnplaced : Block Node → Block Node
  | ⟨kind, opening, closing, children⟩ =>
    ⟨kind, opening.map Token.unplaced, closing.map Token.unplaced, unplaced children⟩
termination_by structural block => block

end

theorem unplaced_eq_map (nodes : List Node) : unplaced nodes = nodes.map Node.unplaced := by
  induction nodes with
  | nil => rfl
  | cons node nodes ih => rw [unplaced, ih, List.map_cons]

theorem unplaced_reverse (nodes : List Node) : unplaced nodes.reverse = (unplaced nodes).reverse := by
  simp [unplaced_eq_map]

namespace Parse

def Lexeme.unplaced : Lexeme → Lexeme
  | .leaf node => .leaf node.unplaced
  | .opening kind token => .opening kind token.unplaced
  | .closing token => .closing token.unplaced
  | .quote token => .quote token.unplaced

theorem single_unplaced (word : Token) : single word.unplaced = (single word).unplaced := by
  unfold single Token.unplaced
  repeat' split
  all_goals rfl

theorem merged_unplaced (word next : Token) :
    merged word.unplaced next.unplaced = (merged word next).map Lexeme.unplaced := by
  unfold merged Token.unplaced
  dsimp only
  repeat' split
  all_goals rfl

theorem lexemes_unplaced (words : List Token) :
    lexemes (words.map Token.unplaced) = (lexemes words).map Lexeme.unplaced := by
  fun_induction lexemes words with
  | case1 => rfl
  | case2 word => simp [lexemes, single_unplaced]
  | case3 word next rest lexeme merges ih => simp [lexemes, merged_unplaced, merges, ih]
  | case4 word next rest apart formula ih =>
    simp only [List.map_cons] at ih ⊢
    rw [lexemes, merged_unplaced, apart, ih]
    exact if_pos formula
  | case5 word next rest apart formula ih =>
    simp only [List.map_cons] at ih ⊢
    rw [lexemes, merged_unplaced, apart, ih, single_unplaced]
    exact if_neg formula

def Frame.unplaced (frame : Frame) : Frame :=
  ⟨frame.kind, frame.token.unplaced, Manuscript.unplaced frame.before⟩

def State.unplaced (state : State) : State :=
  ⟨state.stack.map Frame.unplaced, Manuscript.unplaced state.siblings⟩

theorem Frame.finish_unplaced (frame : Frame) (closing : Option Token) (children : List Node) :
    frame.unplaced.finish (closing.map Token.unplaced) (Manuscript.unplaced children) =
      (frame.finish closing children).unplaced := by
  obtain ⟨kind, token, before⟩ := frame
  cases kind <;> rfl

private theorem State.finish_unplaced (frame : Frame) (stack : List Frame) (siblings : List Node) (token : Token) :
    State.unplaced ⟨stack, frame.finish (some token) siblings.reverse :: frame.before⟩ =
      ⟨stack.map Frame.unplaced, frame.unplaced.finish (some token.unplaced) (Manuscript.unplaced siblings).reverse ::
        frame.unplaced.before⟩ := by
  rw [State.unplaced, Manuscript.unplaced, ← frame.finish_unplaced, unplaced_reverse]
  rfl

theorem State.step_unplaced (state : State) (lexeme : Lexeme) :
    state.unplaced.step lexeme.unplaced = (state.step lexeme).unplaced := by
  obtain ⟨stack, siblings⟩ := state
  cases lexeme with
  | leaf node => rfl
  | opening kind token => rfl
  | closing token =>
    cases stack with
    | nil => rfl
    | cons frame stack => exact (State.finish_unplaced frame stack siblings token).symm
  | quote token =>
    cases stack with
    | nil => rfl
    | cons frame stack =>
      have same : frame.unplaced.kind = frame.kind := rfl
      simp only [State.step, State.unplaced, Lexeme.unplaced, List.map_cons, same]
      split
      · exact (State.finish_unplaced frame stack siblings token).symm
      · rfl

theorem State.run_unplaced (lexemes : List Lexeme) (state : State) :
    (lexemes.map Lexeme.unplaced).foldl State.step state.unplaced = (lexemes.foldl State.step state).unplaced := by
  induction lexemes generalizing state with
  | nil => rfl
  | cons lexeme lexemes ih => rw [List.map_cons, List.foldl_cons, List.foldl_cons, State.step_unplaced, ih]

theorem State.close_unplaced (stack : List Frame) (siblings : List Node) :
    State.close (stack.map Frame.unplaced) (Manuscript.unplaced siblings) =
      Manuscript.unplaced (State.close stack siblings) := by
  induction stack generalizing siblings with
  | nil => exact (unplaced_reverse siblings).symm
  | cons frame stack ih =>
    rw [List.map_cons, State.close, State.close, ← ih, ← unplaced_reverse, Manuscript.unplaced,
      ← frame.finish_unplaced none]
    rfl

theorem nest_unplaced (lexemes : List Lexeme) :
    nest (lexemes.map Lexeme.unplaced) = Manuscript.unplaced (nest lexemes) := by
  have run := State.run_unplaced lexemes {}
  rw [nest, nest, ← State.close_unplaced]
  exact congrArg (fun state => State.close state.stack state.siblings) run

end Parse
end Manuscript
