import Manuscript.Document.Declaration

/-! A registry holds the declarations of commands in the order they were registered. Several declarations may
share a name; each knows its position among these. -/

namespace Manuscript

structure Registry where
  declarations : List Declaration
deriving Repr

namespace Registry

/-- Declarations of a name, in order of registration. -/
def lookup (registry : Registry) (name : String) : List Declaration :=
  registry.declarations.filter (·.name == name)

def first? (registry : Registry) (name : String) : Option Declaration :=
  registry.declarations.find? (·.name == name)

/-- A declaration without argument lists takes no arguments. -/
def insert (registry : Registry) (declaration : Declaration) : Registry where
  declarations := registry.declarations ++ [{ declaration with
    arguments := if declaration.arguments.isEmpty then [{ shape := .none }] else declaration.arguments
    ordinal := some (registry.lookup declaration.name).length }]

def ofList (declarations : List Declaration) : Registry := declarations.foldl insert ⟨[]⟩

end Registry
end Manuscript
