import Manuscript.Formula.Extract
import Manuscript.Registry.Basic

/-! Headings of an included document, fitted into the outline of the document that includes it. -/

namespace Manuscript.Outline

/-- How an inclusion changes the headings of what it includes: levels move down by `shift` but not below the
sixth, and headings remember the file they come from. -/
structure Adjustment where
  registry : Registry
  shift : Nat
  source : String
  tocOnly : Bool
  noToc : Bool

/-- The declaration of a heading after a shift; it stays when the registry has none for the new level. -/
def shifted (adjustment : Adjustment) (declaration : Declaration) : Option Declaration :=
  if adjustment.shift = 0 then none
  else adjustment.registry.first? ("\\h" ++ toString (min (declaration.heading + adjustment.shift) 6))

/-- Inserts a flag unless the list has the name already. -/
def ensureFlag (name : String) (wanted : Bool) (items : Attributes) : Attributes :=
  if wanted && !Attributes.has items name then Attributes.flag items name else items

/-- What the heading itself says about its source and flags comes first. -/
def adjustAttributes (adjustment : Adjustment) (items : Attributes) : Attributes :=
  let items := if Attributes.has items "source" then items else Attributes.set items "source" adjustment.source
  ensureFlag "no-toc" adjustment.noToc (ensureFlag "toc-only" adjustment.tocOnly items)

def adjustHeading (adjustment : Adjustment) (command : Command Node) (declaration : Declaration) : Command Node :=
  let attributes := some (adjustAttributes adjustment (command.attributes.getD []))
  match shifted adjustment declaration with
  | some declaration =>
    { command with
      ident := { command.ident with name := declaration.name }
      attributes
      declaration := some declaration }
  | none => { command with attributes }

mutual

/-- Headings inside headings and inside unresolved tags are left alone. -/
def adjustNode (adjustment : Adjustment) : Node → Node
  | .command ⟨ident, attributes, args, declaration, rules⟩ =>
    match declaration with
    | some heading =>
      if 0 < heading.heading then
        .command (adjustHeading adjustment ⟨ident, attributes, args, declaration, rules⟩ heading)
      else .command ⟨ident, attributes, adjust adjustment args, declaration, rules⟩
    | none => .command ⟨ident, attributes, adjust adjustment args, declaration, rules⟩
  | .bracket ⟨kind, opening, closing, children⟩ => .bracket ⟨kind, opening, closing, adjust adjustment children⟩
  | .quotation opening closing children => .quotation opening closing (adjust adjustment children)
  | .fragment children => .fragment (adjust adjustment children)
  | node => node
termination_by structural node => node

def adjust (adjustment : Adjustment) : List Node → List Node
  | [] => []
  | node :: rest => adjustNode adjustment node :: adjust adjustment rest
termination_by structural nodes => nodes

end

mutual

def collectNode : Node → List (Command Node)
  | .command ⟨ident, attributes, args, declaration, rules⟩ =>
    if Formula.isHeading declaration then [⟨ident, attributes, args, declaration, rules⟩] else collect args
  | .bracket ⟨_, _, _, children⟩ => collect children
  | .quotation _ _ children => collect children
  | .fragment children => collect children
  | _ => []
termination_by structural node => node

/-- The headings of a document, in order. -/
def collect : List Node → List (Command Node)
  | [] => []
  | node :: rest => collectNode node ++ collect rest
termination_by structural nodes => nodes

end

end Manuscript.Outline
