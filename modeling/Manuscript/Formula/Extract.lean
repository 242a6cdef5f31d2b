import Manuscript.Formula.Sheet
import Manuscript.Latex.Write
import Manuscript.Registry.Builtin

/-! Taking formulas out of a document. Each is replaced by a slot that carries its id. A heading that only feeds
the table of contents is never drawn, so formulas inside one are removed instead: every entry has its place on
the page. -/

namespace Manuscript.Formula

/-- LaTeX of a formula, inside its environment if it has one. -/
def code (spec : MathSpec) (args : List Node) : String :=
  let body := latexBody args
  if spec.environment = "" then body
  else "\\begin\x7b" ++ spec.environment ++ "\x7d" ++ body ++ "\\end\x7b" ++ spec.environment ++ "\x7d"

def slot (span : Span) (id : String) (block : Bool) : Node :=
  .command {
    ident := ⟨Builtin.formulaSlot.name, span⟩
    attributes := some (Attributes.set (Attributes.set [] "id" id) "display" (if block then "block" else "inline"))
    declaration := some Builtin.formulaSlot }

def isHeading (declaration : Option Declaration) : Bool := declaration.any (0 < ·.heading)

mutual

/-- `keep` is off inside headings that are not drawn, and formulas inside any heading are unique. -/
def extractNode (keep inHeading : Bool) : Node → StateM FormulaSheet Node
  | .command ⟨ident, attributes, args, declaration, rules⟩ =>
    match declaration.bind Declaration.math with
    | some spec =>
      if keep then do
        let id ← modifyGet (·.add (code spec args) spec.block (spec.unique || inHeading))
        pure (slot ident.span id spec.block)
      else pure (.fragment [])
    | none => do
      let heading := isHeading declaration
      let args ← extractNodes (keep && !(heading && Attributes.has (attributes.getD []) "toc-only"))
        (inHeading || heading) args
      pure (.command ⟨ident, attributes, args, declaration, rules⟩)
  | .bracket ⟨kind, opening, closing, children⟩ => do
    pure (.bracket ⟨kind, opening, closing, ← extractNodes keep inHeading children⟩)
  | .quotation opening closing children => do
    pure (.quotation opening closing (← extractNodes keep inHeading children))
  | .fragment children => do pure (.fragment (← extractNodes keep inHeading children))
  | .tag ⟨ident, options, attributes, args, rules⟩ => do
    pure (.tag ⟨ident, options, attributes, ← extractBlocks keep inHeading args, rules⟩)
  | node => pure node
termination_by structural node => node

def extractNodes (keep inHeading : Bool) : List Node → StateM FormulaSheet (List Node)
  | [] => pure []
  | node :: rest => do
    let node ← extractNode keep inHeading node
    pure (node :: (← extractNodes keep inHeading rest))
termination_by structural nodes => nodes

def extractBlocks (keep inHeading : Bool) : List (Block Node) → StateM FormulaSheet (List (Block Node))
  | [] => pure []
  | ⟨kind, opening, closing, children⟩ :: rest => do
    let children ← extractNodes keep inHeading children
    pure (⟨kind, opening, closing, children⟩ :: (← extractBlocks keep inHeading rest))
termination_by structural blocks => blocks

end

end Formula

/-- Moves the formulas of a document into a sheet. -/
def extractFormulas (nodes : List Node) : StateM FormulaSheet (List Node) := Formula.extractNodes true false nodes

end Manuscript
