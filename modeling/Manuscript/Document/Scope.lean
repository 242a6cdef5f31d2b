/-! Where in a document a command stands: the commands around it and the kind of content and layout expected
there. Scopes are values, so descending never disturbs the scope it starts from. -/

namespace Manuscript

/-- `symbolic` asks for symbols of any sort, `math` is the content of a formula. -/
inductive Content where
  | text
  | symbolic
  | math
deriving DecidableEq, Repr, Inhabited

namespace Content

/-- Whether content asked for by a declaration is met by the content at a place. -/
def accepts (required current : Content) : Bool :=
  required == current || (required == .symbolic && current == .math)

def name : Content → String
  | text => "text"
  | symbolic => "symbolic"
  | math => "math"

end Content

inductive Layout where
  | block
  | inline
  | both
deriving DecidableEq, Repr, Inhabited

namespace Layout

/-- Layouts agree when they are the same or either side leaves it open. -/
def accepts (required current : Layout) : Bool :=
  required == .both || current == .both || required == current

def name : Layout → String
  | block => "block"
  | inline => "inline"
  | both => "both"

end Layout

/-- The content and layout a command imposes on what is inside it. -/
structure ScopeOverride where
  content : Content
  layout : Layout
deriving DecidableEq, Repr

/-- Limits where a command may appear. An empty `ancestor` asks for none. -/
structure ScopeConstraint where
  ancestor : String := ""
  content : Content
  layout : Layout
deriving DecidableEq, Repr

/-- `ancestors` lists the enclosing commands from the outside in. -/
structure Scope where
  ancestors : List String := []
  content : Content := .text
  layout : Layout := .block
  path : String
deriving DecidableEq, Repr

namespace Scope

/-- The scope at the top of a file. -/
def top (path : String) : Scope where
  path

def descend (scope : Scope) (ident : String) (imposed : Option ScopeOverride) : Scope where
  ancestors := scope.ancestors ++ [ident]
  content := (imposed.map ScopeOverride.content).getD scope.content
  layout := (imposed.map ScopeOverride.layout).getD scope.layout
  path := scope.path

def within (scope : Scope) (ident : String) : Bool := scope.ancestors.contains ident

def describe (scope : Scope) : String :=
  "<" ++ ",".intercalate scope.ancestors ++ "|" ++ scope.content.name ++ "|" ++ scope.layout.name ++ "|" ++
    scope.path ++ ">"

end Scope

namespace ScopeConstraint

def allows (constraint : ScopeConstraint) (scope : Scope) : Bool :=
  constraint.content.accepts scope.content && constraint.layout.accepts scope.layout &&
    (constraint.ancestor == "" || scope.within constraint.ancestor)

end ScopeConstraint
end Manuscript
