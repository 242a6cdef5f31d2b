import Manuscript.Command.Run
import Manuscript.Command.Watch

/-! The program on the files of the machine. A run works on a snapshot of files; when it misses one that exists,
that file joins the snapshot and the run starts anew. -/

namespace Manuscript.Program

def readFile? (path : String) : IO (Option Bytes) := do
  try
    let content ← IO.FS.readBinFile path
    pure (some content.data.toList)
  catch _ => pure none

partial def filesBelow (path : String) : IO (List String) := do
  let folder := (← IO.currentDir) / path
  let entries ← try folder.readDir catch _ => pure #[]
  let mut found := []
  for entry in entries do
    let inner := Path.join path entry.fileName
    if ← entry.path.isDir then found := found ++ (← filesBelow inner) else found := found ++ [inner]
  pure found

/-- Adds the files that can be read to a snapshot. -/
def addFiles (system : FileSystem) (paths : List String) : IO FileSystem :=
  paths.foldlM (fun system path => do
    match ← readFile? path with
    | some content => pure (system.write path content)
    | none => pure system) system

/-- Project files of the working directory, which counts as the root. -/
def projectFiles : IO FileSystem :=
  Settings.fileNames.foldlM (fun system path => do
    match ← readFile? (Path.dropBeginning path "/") with
    | some content => pure (system.write path content)
    | none => pure system) {}

def environment : IO (List (String × String)) :=
  SettingsSources.variableNames.filterMapM fun name => do pure ((← IO.getEnv name).map fun value => (name, value))

def isProjectTask : Task → Bool
  | .build | .watch => true
  | _ => false

/-- What a run on the given arguments starts from: the project file and, when the whole project is built, its
sources. -/
def surroundings (args : List String) : IO Surroundings := do
  let environment ← environment
  let system ← projectFiles
  match Invocation.parse args with
  | .ok (.task options task) =>
    let system ← if options.config = "" then pure system else addFiles system [options.config]
    match Settings.load system environment 1 options.config with
    | .ok settings =>
      let sources ← if isProjectTask task then filesBelow settings.source else pure []
      pure { system := ← addFiles system sources, environment }
    | .error _ => pure { system, environment }
  | _ => pure { system, environment }

/-- Files that a run has looked for in vain. -/
def missing (outcome : Outcome) : List String :=
  match outcome.error with
  | some (.failed failure) => failure.roots.filterMap fun
    | .notFound "open" path => some path
    | _ => none
  | _ => []

/-- Runs until no file is missing that could be read. -/
partial def settle (around : Surroundings) (args : List String) : IO (FileSystem × Outcome) := do
  let outcome := Command.run around args
  let unknown := (missing outcome).filter fun path => !(around.system.files.any fun file => file.1 = path)
  let system ← addFiles around.system unknown
  if system.files.length = around.system.files.length then pure (around.system, outcome)
  else settle { around with system } args

def store (before after : FileSystem) : IO Unit := do
  for (path, content) in after.files do
    if before.files.lookup path ≠ some content then
      IO.FS.createDirAll (Path.dir path)
      IO.FS.writeBinFile path ⟨content.toArray⟩

/-- Runs once, and stores and prints the outcome. -/
def perform (around : Surroundings) (args : List String) : IO (Option CommandError) := do
  let (before, outcome) ← settle around args
  store before outcome.system
  IO.print outcome.output
  outcome.error.forM fun error => IO.eprintln error.message
  pure outcome.error

/-- The files of a snapshot whose changes matter. -/
def watched (around : Surroundings) : List (String × Bytes) :=
  around.system.files.filter fun file => (FileChange.mk file.1 [.write]).isRelevant

partial def watch (around : Surroundings) (args : List String) : IO UInt32 := do
  IO.sleep 200
  let current ← surroundings args
  if watched current ≠ watched around then discard (perform current args)
  watch current args

end Manuscript.Program

open Manuscript in
def main (args : List String) : IO UInt32 := do
  let around ← Program.surroundings args
  match Invocation.parse args, ← Program.perform around args with
  | .ok (.task _ .watch), none | .ok (.task _ .watch), some (.failed _) => Program.watch around args
  | _, error => pure (if error.isNone then 0 else 1)
