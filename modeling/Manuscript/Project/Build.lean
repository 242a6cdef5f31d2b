import Manuscript.Project.Page

/-! Building every source file of a project into a page. A page that fails does not keep the others from being
built; its failure is reported with its result. -/

namespace Manuscript

structure PageResult where
  source : String
  output : String
  failure : Option Failure := none

/-- Where pages are written. A tree that is read only refuses every write. -/
structure Output where
  tree : FileTree
  readOnly : Bool := false

namespace Output

def write (output : Output) (path : String) (content : Bytes) : Except Failure Output := do
  if output.readOnly then throw .notPermitted
  let tree ← output.tree.makeDirectory (Path.dir path)
  pure { output with tree := ← tree.write path content }

end Output

namespace Compiler

/-- The source files of the project, in the order of a walk through its directories. -/
def sources (compiler : Compiler) : Except Failure (List String) := do
  pure ((← compiler.tree.filesBelow ".").filter fun path => LowerCase.foldsTo sourceExt (Path.ext path))

def outputPath (source : String) : String := Path.dropEnding source (Path.ext source) ++ ".html"

/-- Compiles one file and writes its page. -/
def buildPage (compiler : Compiler) (layout : PageLayout) (output : Output) (source : String) :
    StateM Session (PageResult × Output) := do
  let path := outputPath source
  match ← (compiler.compile source).run with
  | .error failure => pure (⟨source, path, some failure⟩, output)
  | .ok document =>
    match renderPage document layout >>= fun page => output.write path (Utf8.encode page) with
    | .error failure => pure (⟨source, path, some failure⟩, output)
    | .ok output => pure (⟨source, path, none⟩, output)

def buildPages (compiler : Compiler) (layout : PageLayout) (output : Output) :
    List String → StateM Session (List PageResult × Output)
  | [] => pure ([], output)
  | source :: rest => do
    let (result, output) ← compiler.buildPage layout output source
    let (results, output) ← compiler.buildPages layout output rest
    pure (result :: results, output)

def resultEvent (result : PageResult) : LogEvent :=
  match result.failure with
  | some failure => .pageFailed result.source failure
  | none => .pageBuilt result.source result.output

/-- Builds every source of the project, or fails when the sources cannot be listed. -/
def build (compiler : Compiler) (layout : PageLayout) (output : Output) :
    StateM Session (Except Failure (List PageResult × Output)) := do
  match compiler.sources with
  | .error failure => pure (.error failure)
  | .ok sources =>
    let (results, output) ← compiler.buildPages layout output sources
    modify fun session => { session with log := session.log ++ (results.map resultEvent).toArray }
    pure (.ok (results, output))

end Compiler

/-- The failures of a build taken together, if there are any. -/
def joinFailures (results : List PageResult) : Option Failure :=
  match results.filterMap PageResult.failure with
  | [] => none
  | failures => some (.several failures)

end Manuscript
