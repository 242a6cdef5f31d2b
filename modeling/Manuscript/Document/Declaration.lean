import Manuscript.Document.Scope

/-! Declarations say where a command may stand, which attributes and arguments it takes and how it is written
in each output. They are plain data: a converter or a lowering is named here and carried out where the trees it
works on are known. -/

namespace Manuscript

inductive BracketKind where
  | curly
  | square
  | round
deriving DecidableEq, Repr, Inhabited

/-- A kind of argument list. An `unknown` shape never matches. -/
inductive Shape where
  /-- A fixed sequence of enclosures, white space between them is passed over. -/
  | exact
  /-- Every curly block that follows immediately. -/
  | greedy
  | none
  | unknown (code : Int)
deriving DecidableEq, Repr, Inhabited

/-- What stands in the tree for a matched invocation. -/
inductive Converter where
  /-- The command with its captured arguments. -/
  | command
  /-- The captured arguments, spliced in place. -/
  | fragment
  /-- The captured arguments in a curly block of their own. -/
  | block
  /-- The identifier as text. -/
  | name
  /-- A description of the scope the invocation was found in. -/
  | scope
deriving DecidableEq, Repr, Inhabited

/-- One of the alternative argument lists of a command; `brackets` matters for the exact shape only. -/
structure ArgumentList where
  shape : Shape
  brackets : List BracketKind := []
  converter : Converter := .command
deriving DecidableEq, Repr

inductive AttributeType where
  | string
  | int
  | bool
  | heading
deriving DecidableEq, Repr, Inhabited

structure AttributeSpec where
  name : String
  required : Bool := false
  type : AttributeType := .string
deriving DecidableEq, Repr

/-- Marks a formula container. `environment` is the LaTeX environment put around the formula, empty for none;
a `unique` formula never shares its entry with an identical one. -/
structure MathSpec where
  environment : String := ""
  block : Bool := false
  unique : Bool := false
deriving DecidableEq, Repr

inductive HtmlLowering where
  /-- An element of the command's name and attributes around its body. -/
  | element
  | heading
  | link
  | image
  | item
  /-- A formula left in the text, shown as its source. -/
  | formula
  /-- The empty element a formula is typeset into. -/
  | slot
  | nothing
deriving DecidableEq, Repr, Inhabited

inductive LatexLowering where
  /-- The command as it would be invoked, with its options and arguments. -/
  | invocation
  | wrapped (before after : String)
  | heading
  | link
  | image
  | matrix
  | input
  | nothing
deriving DecidableEq, Repr, Inhabited

/-- `ordinal` is the position among the declarations of the same name in a registry, absent for a declaration
that belongs to none. `heading` is the level of a heading and zero for other commands. -/
structure Declaration where
  name : String
  parent : Option ScopeConstraint := Option.none
  child : Option ScopeOverride := Option.none
  attributes : List AttributeSpec := []
  ignoresAttributes : Bool := false
  arguments : List ArgumentList := []
  html : HtmlLowering := .element
  latex : LatexLowering := .invocation
  /-- Trailing substitution rules are kept on the command instead of being applied. -/
  defersRules : Bool := false
  math : Option MathSpec := Option.none
  heading : Nat := 0
  ordinal : Option Nat := Option.none
deriving DecidableEq, Repr

namespace Declaration

def allows (declaration : Declaration) (scope : Scope) : Bool :=
  declaration.parent.all (·.allows scope)

end Declaration
end Manuscript
