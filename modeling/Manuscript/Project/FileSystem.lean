import Manuscript.Project.Failure
import Manuscript.Text.Path
import Manuscript.Text.Utf8

/-! Files by clean path, and the view of them from below a base directory. A file below which something is stored
becomes a directory and keeps its content. A directory lists what was stored below it since it came into being. -/

namespace Manuscript

/-- What is kept under a path; `below` holds the paths right below a directory and is absent for a plain file. -/
structure FileEntry where
  content : Bytes := []
  below : Option (List String) := none

namespace FileEntry

def isDirectory (entry : FileEntry) : Bool := entry.below.isSome

/-- A directory that lists the path too. -/
def attach (entry : FileEntry) (key : String) : FileEntry :=
  let keys := entry.below.getD []
  { entry with below := some (if keys.contains key then keys else keys ++ [key]) }

def detach (entry : FileEntry) (key : String) : FileEntry :=
  { entry with below := entry.below.map fun keys => keys.filter (· ≠ key) }

end FileEntry

/-- Each path has one entry. -/
structure FileSystem where
  entries : List (String × FileEntry) := [("/", { below := some [] })]

namespace FileSystem

/-- The name under which a path is kept; the working directory and what is above it are the root. -/
def keyOf (path : String) : String :=
  let path := Path.clean path
  if path = "." || path = ".." then "/" else path

def parentOf (key : String) : String := keyOf (Path.dir key)

def find? (system : FileSystem) (path : String) : Option FileEntry := system.entries.lookup (keyOf path)

/-- Changes the entry of a key, if there is one. -/
def adjust (system : FileSystem) (key : String) (change : FileEntry → FileEntry) : FileSystem :=
  { system with entries := system.entries.map fun (name, entry) => (name, if name = key then change entry else entry) }

/-- Stores an entry under a key that has none. -/
def add (system : FileSystem) (key : String) (entry : FileEntry) : FileSystem :=
  { system with entries := system.entries ++ [(key, entry)] }

/-- Makes the directory above a key list it. Directories that are missing on the way to the root come into being;
`steps` bounds their number. -/
def attach : (steps : Nat) → (system : FileSystem) → (key : String) → FileSystem
  | 0, system, _ => system
  | steps + 1, system, key =>
    let parent := parentOf key
    match system.find? parent with
    | some _ => system.adjust parent (·.attach key)
    | none => attach steps (system.add parent { below := some [key] }) parent

/-- Stores a new entry and lists it in the directory above. -/
def create (system : FileSystem) (key : String) (entry : FileEntry) : FileSystem :=
  attach key.length (system.add key entry) key

/-- What is stored under the path already stays as it is, be it a directory or a plain file. -/
def makeDirectory (system : FileSystem) (path : String) : FileSystem :=
  match system.find? path with
  | some _ => system
  | none => system.create (keyOf path) { below := some [] }

/-- Replaces the content of what is stored under the path, or stores a new file. -/
def write (system : FileSystem) (path : String) (content : Bytes) : FileSystem :=
  match system.find? path with
  | some _ => system.adjust (keyOf path) ({ · with content })
  | none => system.create (keyOf path) { content }

/-- Removes the entry of one path. What is stored below it stays, though no directory lists it any more. -/
def remove (system : FileSystem) (path : String) : FileSystem :=
  let key := keyOf path
  let system := system.adjust (parentOf key) (·.detach key)
  { system with entries := system.entries.filter (·.1 ≠ key) }

def ofFiles (files : List (String × Bytes)) : FileSystem := files.foldl (fun system file => system.write file.1 file.2) {}

/-- The plain files with their content. -/
def files (system : FileSystem) : List (String × Bytes) :=
  (system.entries.filter fun stored => !stored.2.isDirectory).map fun (key, entry) => (key, entry.content)

def read (system : FileSystem) (path : String) : Except Failure Bytes :=
  match system.find? path with
  | some entry => .ok entry.content
  | none => .error (.notFound "open" (keyOf path))

end FileSystem

/-- Files seen from a base directory, or as they are when there is none. -/
structure FileTree where
  system : FileSystem
  base : Option String := none

namespace FileTree

/-- The path in the file system that a path in the tree stands for. It has to start with the text of the base. -/
def realPath (tree : FileTree) (path : String) : Option String :=
  match tree.base with
  | none => some path
  | some base =>
    let base := Path.clean base
    let real := Path.clean (Path.join base path)
    if base.toList.isPrefixOf real.toList then some real else none

def read (tree : FileTree) (path : String) : Except Failure Bytes :=
  match tree.realPath path with
  | some real => tree.system.read real
  | none => .error (.notFound "open" path)

def makeDirectory (tree : FileTree) (path : String) : Except Failure FileTree :=
  match tree.realPath path with
  | some real => .ok { tree with system := tree.system.makeDirectory real }
  | none => .error (.notFound "mkdir" path)

def write (tree : FileTree) (path : String) (content : Bytes) : Except Failure FileTree :=
  match tree.realPath path with
  | some real => .ok { tree with system := tree.system.write real content }
  | none => .error (.notFound "open" path)

/-- Has no effect outside of the base. -/
def remove (tree : FileTree) (path : String) : FileTree :=
  match tree.realPath path with
  | some real => { tree with system := tree.system.remove real }
  | none => tree

/-- The files below a path of the tree, entries of a directory in the order of their names and its content at its
place; `depth` bounds how far down it looks. -/
def walk (tree : FileTree) : (depth : Nat) → (path : String) → Except Failure (List String)
  | 0, _ => .ok []
  | depth + 1, path =>
    match tree.realPath path with
    | none => .error (.notFound "lstat" path)
    | some real =>
      match tree.system.find? real with
      | none => .error (.notFound "open" (FileSystem.keyOf real))
      | some ⟨_, none⟩ => .ok [path]
      | some ⟨_, some keys⟩ => do
        let names := (keys.map Path.base).mergeSort (· ≤ ·)
        let below ← names.mapM fun name => tree.walk depth (Path.join path name)
        pure below.flatten

/-- Every file below a path. -/
def filesBelow (tree : FileTree) (path : String) : Except Failure (List String) :=
  tree.walk (tree.system.entries.length + 1) path

end FileTree
end Manuscript
