import Manuscript.Document.Node

/-! Text of a tree. The source view writes every leaf token back in order; the flat view is the content a reader
sees: quote marks are dropped, brackets are kept, and a command counts for its body alone. -/

namespace Manuscript

mutual

def Node.source : Node → String
  | .hole => ""
  | .text value _ => value
  | .symbol value _ => value
  | .ident ident => ident.name
  | .stray token => token.text
  | .bracket block => blockSource block
  | .quotation opening closing children => Token.textOf opening ++ source children ++ Token.textOf closing
  | .fragment children => source children
  | .drawing _ => ""
  | .tag ⟨ident, options, _, args, _⟩ => ident.name ++ optionsSource options ++ blocksSource args
  | .command ⟨ident, _, args, _, _⟩ => ident.name ++ source args
termination_by structural node => node

def source : List Node → String
  | [] => ""
  | node :: rest => node.source ++ source rest
termination_by structural nodes => nodes

def blockSource : Block Node → String
  | ⟨_, opening, closing, children⟩ => Token.textOf opening ++ source children ++ Token.textOf closing
termination_by structural block => block

def optionsSource : Option (Block Node) → String
  | none => ""
  | some block => blockSource block
termination_by structural options => options

def blocksSource : List (Block Node) → String
  | [] => ""
  | block :: rest => blockSource block ++ blocksSource rest
termination_by structural blocks => blocks

end

theorem source_append (nodes others : List Node) : source (nodes ++ others) = source nodes ++ source others := by
  induction nodes with
  | nil => rw [List.nil_append, source, String.empty_append]
  | cons node nodes ih => rw [List.cons_append, source, source, ih, String.append_assoc]

theorem blocksSource_eq (blocks : List (Block Node)) : blocksSource blocks = source (blocks.map .bracket) := by
  induction blocks with
  | nil => rfl
  | cons block blocks ih => rw [blocksSource, ih, List.map_cons, source, Node.source]

mutual

def Node.flatten : Node → String
  | .hole => ""
  | .text value _ => value
  | .symbol value _ => value
  | .ident ident => ident.name
  | .stray token => token.text
  | .bracket ⟨_, opening, closing, children⟩ => Token.textOf opening ++ flatten children ++ Token.textOf closing
  | .quotation _ _ children => flatten children
  | .fragment children => flatten children
  | .drawing _ => ""
  | .tag ⟨_, _, _, args, _⟩ => flattenBlocks args
  | .command ⟨_, _, args, _, _⟩ => flattenBody args
termination_by structural node => node

def flatten : List Node → String
  | [] => ""
  | node :: rest => node.flatten ++ flatten rest
termination_by structural nodes => nodes

/-- The content of argument blocks without their brackets, whatever kind they are. -/
def flattenBlocks : List (Block Node) → String
  | [] => ""
  | ⟨_, _, _, children⟩ :: rest => flatten children ++ flattenBlocks rest
termination_by structural blocks => blocks

/-- The content of arguments with the outermost curly braces removed. -/
def flattenBody : List Node → String
  | [] => ""
  | .bracket ⟨.curly, _, _, children⟩ :: rest => flatten children ++ flattenBody rest
  | node :: rest => node.flatten ++ flattenBody rest
termination_by structural nodes => nodes

end

@[simp]
theorem flatten_append (nodes others : List Node) : flatten (nodes ++ others) = flatten nodes ++ flatten others := by
  induction nodes with
  | nil => simp [flatten]
  | cons node rest ih => simp [flatten, ih, String.append_assoc]

/-- The body of a command reads the same whether its braces are removed first or while flattening. -/
theorem flattenBody_eq (args : List Node) : flattenBody args = flatten (Node.unwrap args) := by
  induction args with
  | nil => simp [flattenBody, flatten, Node.unwrap]
  | cons node rest ih =>
    cases node with
    | bracket block =>
      obtain ⟨kind, opening, closing, children⟩ := block
      cases kind <;> simp [flattenBody, flatten, Node.unwrap, ih]
    | _ => simp [flattenBody, flatten, Node.unwrap, ih]

end Manuscript
