import Manuscript.Document.Attributes
import Manuscript.Text.Path

/-! LaTeX output. A document is written as a sequence of pieces, each handed to the output in one go; text stands
as it is, and a command is written the way its declaration says. -/

namespace Manuscript.Latex

/-- Attributes as an option list. -/
def options (items : Attributes) : String :=
  ",".intercalate (items.map fun item =>
    match item.value with
    | none => item.key.flatten
    | some value => item.key.flatten ++ "=" ++ value.flatten)

/-- Sectioning commands by heading level. -/
def sectioning (level : Nat) : String :=
  match level with
  | 1 => "section"
  | 2 => "subsection"
  | 3 => "subsubsection"
  | 4 => "paragraph"
  | _ => "subparagraph"

def attributeOf (attributes : Option Attributes) (name : String) : String :=
  (Attributes.value? (attributes.getD []) name).getD ""

def invocation (name : String) (attributes : Option Attributes) : List String :=
  match attributes.getD [] with
  | [] => [name]
  | items => [name, "[" ++ options items ++ "]"]

def image (attributes : Option Attributes) : String :=
  let given := ["width", "height"].filterMap fun key =>
    (Attributes.value? (attributes.getD []) key).map (key ++ "=" ++ ·)
  let size := if given.isEmpty then "" else "[" ++ ",".intercalate given ++ "]"
  "\\includegraphics" ++ size ++ "\x7b" ++ attributeOf attributes "src" ++ "\x7d"

mutual

def pieces : Node → List String
  | .hole => []
  | .text value _ => [value]
  | .symbol value _ => [value]
  | .ident ident => [ident.name]
  | .stray token => [token.text]
  | .bracket block => blockPieces block
  | .quotation _ closing children => "``" :: allPieces children ++ [if closing.isSome then "''" else ""]
  | .fragment children => allPieces children
  | .drawing drawing => ["\\includegraphics\x7b" ++ drawing.name ++ "\x7d"]
  | .tag ⟨ident, opts, _, args, _⟩ => ident.name :: optionPieces opts ++ blocksPieces args
  | .command ⟨ident, attributes, args, declaration, _⟩ =>
    match (declaration.map Declaration.latex).getD .invocation with
    | .invocation => invocation ident.name attributes ++ allPieces args
    | .wrapped before after => before :: bodyPieces args ++ [after]
    | .heading =>
      if Attributes.has (attributes.getD []) "toc-only" then []
      else ("\\" ++ sectioning ((declaration.map Declaration.heading).getD 0) ++ "\x7b") :: bodyPieces args ++ ["\x7d\n"]
    | .link => ("\\href\x7b" ++ attributeOf attributes "href" ++ "\x7d\x7b") :: bodyPieces args ++ ["\x7d"]
    | .image => [image attributes]
    | .matrix => ["\\begin\x7bmatrix\x7d" ++ " \\\\ ".intercalate (rows args) ++ "\\end\x7bmatrix\x7d"]
    | .input => ["\\input\x7b" ++ Path.dropEnding (attributeOf attributes "src") ".ss" ++ "\x7d"]
    | .nothing => []
termination_by structural node => node

def allPieces : List Node → List String
  | [] => []
  | node :: rest => pieces node ++ allPieces rest
termination_by structural nodes => nodes

def blockPieces : Block Node → List String
  | ⟨_, opening, closing, children⟩ => Token.textOf opening :: allPieces children ++ [Token.textOf closing]
termination_by structural block => block

def optionPieces : Option (Block Node) → List String
  | none => []
  | some block => blockPieces block
termination_by structural options => options

def blocksPieces : List (Block Node) → List String
  | [] => []
  | block :: rest => blockPieces block ++ blocksPieces rest
termination_by structural blocks => blocks

/-- Arguments without their outermost curly braces. -/
def bodyPieces : List Node → List String
  | [] => []
  | .bracket ⟨.curly, _, _, children⟩ :: rest => allPieces children ++ bodyPieces rest
  | node :: rest => pieces node ++ bodyPieces rest
termination_by structural nodes => nodes

/-- Each argument as a row of a matrix. -/
def rows : List Node → List String
  | [] => []
  | .bracket ⟨.curly, _, _, children⟩ :: rest => String.join (allPieces children) :: rows rest
  | node :: rest => String.join (pieces node) :: rows rest
termination_by structural nodes => nodes

end

end Latex

/-- A document as LaTeX. -/
def latex (nodes : List Node) : String := String.join (Latex.allPieces nodes)

/-- The body of a command as LaTeX. -/
def latexBody (args : List Node) : String := String.join (Latex.bodyPieces args)

end Manuscript
