import Manuscript.Latex.Sink

/-! LaTeX on its way to an output that may fail. The tree is walked from left to right and every piece is handed to the
output as soon as it is known. A piece that is not taken ends the walk, however deep in the tree, and every node around
it passes the failure on. -/

namespace Manuscript

namespace Latex

variable {m : Type → Type} [Monad m] (write : String → m Unit)

mutual

/-- Writes a node with one call of `write` for each of its pieces. -/
def send : Node → m Unit
  | .hole => pure ()
  | .text value _ => write value
  | .symbol value _ => write value
  | .ident ident => write ident.name
  | .stray token => write token.text
  | .bracket block => sendBlock block
  | .quotation _ closing children => do
    write "``"
    sendAll children
    write (if closing.isSome then "''" else "")
  | .fragment children => sendAll children
  | .drawing drawing => write ("\\includegraphics\x7b" ++ drawing.name ++ "\x7d")
  | .tag ⟨ident, opts, _, args, _⟩ => do
    write ident.name
    sendOptions opts
    sendBlocks args
  | .command ⟨ident, attributes, args, declaration, _⟩ =>
    match (declaration.map Declaration.latex).getD .invocation with
    | .invocation => do
      write ident.name
      if !(attributes.getD []).isEmpty then write ("[" ++ options (attributes.getD []) ++ "]")
      sendAll args
    | .wrapped before after => do
      write before
      sendBody args
      write after
    | .heading =>
      if Attributes.has (attributes.getD []) "toc-only" then pure ()
      else do
        write ("\\" ++ sectioning ((declaration.map Declaration.heading).getD 0) ++ "\x7b")
        sendBody args
        write "\x7d\n"
    | .link => do
      write ("\\href\x7b" ++ attributeOf attributes "href" ++ "\x7d\x7b")
      sendBody args
      write "\x7d"
    | .image => write (image attributes)
    | .matrix => write ("\\begin\x7bmatrix\x7d" ++ " \\\\ ".intercalate (rows args) ++ "\\end\x7bmatrix\x7d")
    | .input => write ("\\input\x7b" ++ Path.dropEnding (attributeOf attributes "src") ".ss" ++ "\x7d")
    | .nothing => pure ()
termination_by structural node => node

def sendAll : List Node → m Unit
  | [] => pure ()
  | node :: rest => do
    send node
    sendAll rest
termination_by structural nodes => nodes

def sendBlock : Block Node → m Unit
  | ⟨_, opening, closing, children⟩ => do
    write (Token.textOf opening)
    sendAll children
    write (Token.textOf closing)
termination_by structural block => block

def sendOptions : Option (Block Node) → m Unit
  | none => pure ()
  | some block => sendBlock block
termination_by structural options => options

def sendBlocks : List (Block Node) → m Unit
  | [] => pure ()
  | block :: rest => do
    sendBlock block
    sendBlocks rest
termination_by structural blocks => blocks

/-- Arguments without their outermost curly braces. -/
def sendBody : List Node → m Unit
  | [] => pure ()
  | .bracket ⟨.curly, _, _, children⟩ :: rest => do
    sendAll children
    sendBody rest
  | node :: rest => do
    send node
    sendBody rest
termination_by structural nodes => nodes

end

/-- What becomes of an output by a piece, and whether it took all of it. -/
abbrev Output (σ : Type) := σ → String → σ × Bool

namespace Output

variable {σ : Type}

/-- Hands over a piece, and fails when it is not taken. -/
def put (output : Output σ) (piece : String) : OptionT (StateM σ) Unit := fun state =>
  let (state, taken) := output state piece
  (if taken then some () else none, state)

/-- Hands a document to an output. The flag tells whether everything was taken. -/
def document (output : Output σ) (state : σ) (nodes : List Node) : σ × Bool :=
  let outcome := (sendAll output.put nodes).run.run state
  (outcome.2, outcome.1.isSome)

/-- An output that keeps a record of the pieces handed to it, each with whether it was taken. -/
def recorded (output : Output σ) : Output (σ × List (String × Bool)) := fun (state, record) piece =>
  let (state, taken) := output state piece
  ((state, record ++ [(piece, taken)]), taken)

end Output
end Latex
end Manuscript
