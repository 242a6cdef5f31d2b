import Manuscript.Command.Invocation
import Manuscript.Latex.Write
import Manuscript.Project.Build
import Manuscript.Settings.Load
import Manuscript.Yaml.Dump

/-! What a command prints and which files it leaves behind, given the files and the environment it finds. -/

namespace Manuscript

inductive CommandError where
  | usage (error : UsageError)
  | settings (error : SettingsError)
  | failed (failure : Failure)

def CommandError.message : CommandError → String
  | usage error => error.message
  | settings error => error.message
  | failed failure => failure.message

/-- The surroundings of a command. -/
structure Surroundings where
  system : FileSystem := {}
  environment : List (String × String) := []
  processors : Nat := 1

/-- What a command leaves. Files that were written before an error stay. -/
structure Outcome where
  output : String := ""
  system : FileSystem
  error : Option CommandError := none

namespace Command

def usage : String :=
  "ssc compiles SS documents into HTML pages and LaTeX.\n\n" ++
  "Usage:\n  ssc build\n  ssc watch\n  ssc html FILE\n  ssc latex FILE\n  ssc dump [--raw] FILE\n\n" ++
  "Flags:\n      --config string   config file (default is ./ss.toml)\n  -v, --verbose         verbose output\n" ++
  "  -h, --help            help\n"

/-- Images that documents may include. -/
def decoders : List (String × Decoder) := [(".svg", .svg)]

def compilerOf (system : FileSystem) (base : Option String) : Compiler where
  tree := { system, base }
  decoders := decoders

/-- The layout of pages, its template read from the file that the settings name. -/
def layoutOf (system : FileSystem) (settings : Settings) : Except Failure PageLayout := do
  let template ← if settings.layout = "" then pure ""
    else match system.read settings.layout with
      | .ok content => pure (Utf8.text content)
      | .error failure => throw (.readingLayout failure)
  pure { template, styles := settings.styles, scripts := settings.scripts }

/-- The result of a compilation that starts with an empty cache. -/
def compiled {α : Type} (compilation : Compile α) : Except Failure α := (compilation.run.run {}).1

/-- The page of one file. -/
def html (system : FileSystem) (settings : Settings) (path : String) : Except Failure String := do
  let layout ← layoutOf system settings
  let document ← compiled ((compilerOf system none).compile path)
  renderPage document layout

/-- The LaTeX of one file, ended by a single line break. -/
def latex (system : FileSystem) (path : String) : Except Failure String := do
  let text ← compiled ((compilerOf system none).compileLatex path)
  pure (String.ofList (text.toList.reverse.dropWhile (· = '\n')).reverse ++ "\n")

/-- The tree of one file, either as it is parsed or as it is compiled. -/
def dump (system : FileSystem) (raw : Bool) (path : String) : Except Failure String := do
  if raw then pure (dumpYaml (Parse.ofBytes (← system.read path)))
  else pure (dumpYaml (← compiled ((compilerOf system none).compile path)).nodes)

/-- Builds the pages of a project from its source directory into its output directory. -/
def build (system : FileSystem) (settings : Settings) : FileSystem × Option Failure :=
  match layoutOf system settings with
  | .error failure => (system, some failure)
  | .ok layout =>
    let system := system.makeDirectory settings.output
    let output : Output := { tree := { system, base := some settings.output } }
    match (((compilerOf system (some settings.source)).build layout output).run {}).1 with
    | .error failure => (system, some failure)
    | .ok (results, output) => (output.tree.system, joinFailures results)

def printed (system : FileSystem) (result : Except Failure String) : Outcome :=
  match result with
  | .ok output => { output, system }
  | .error failure => { system, error := some (.failed failure) }

/-- Carries out a task under known settings. Watching starts with a build. -/
def carryOut (system : FileSystem) (settings : Settings) : Task → Outcome
  | .build | .watch =>
    let (system, failure) := build system settings
    { system, error := failure.map .failed }
  | .html path => printed system (html system settings path)
  | .latex path => printed system (latex system path)
  | .dump raw path => printed system (dump system raw path)

/-- Runs the program on the arguments of its command line. They are checked before settings are loaded, and help
needs no settings. -/
def run (surroundings : Surroundings) (args : List String) : Outcome :=
  let system := surroundings.system
  match Invocation.parse args with
  | .error error => { system, error := some (.usage error) }
  | .ok .help => { output := usage, system }
  | .ok (.task options task) =>
    match Settings.load system surroundings.environment surroundings.processors options.config with
    | .error error => { system, error := some (.settings error) }
    | .ok settings => carryOut system settings task

end Command
end Manuscript
