import Manuscript.Text.Path

/-! Changes of files, and which of them call for another build. -/

namespace Manuscript

inductive FileOperation where
  | create
  | write
  | remove
  | rename
  | chmod
deriving DecidableEq, Repr

/-- Something that happened to a file, perhaps several things at once. -/
structure FileChange where
  path : String
  operations : List FileOperation

namespace FileChange

/-- A change of permissions alone cannot affect the output, nor can hidden files and backups of editors. -/
def isRelevant (change : FileChange) : Bool :=
  let name := (Path.base change.path).toList
  let onlyMode := !change.operations.isEmpty && change.operations.all (· = .chmod)
  !onlyMode && name.head? ≠ some '.' && name.getLast? ≠ some '~'

end FileChange
end Manuscript
