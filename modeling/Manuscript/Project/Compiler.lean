import Manuscript.Document.Parse
import Manuscript.Outline.Heading
import Manuscript.Project.Cache
import Manuscript.Project.FileSystem
import Manuscript.Project.Log

/-! Compilation of source files into documents: a file is parsed, normalized and resolved, the files it includes
are put in its place, and formulas are taken out. A file is loaded once and its resolved content is kept for
later inclusions. Inclusion follows a chain of files; a file that is on the chain already cannot be included. -/

namespace Manuscript

/-- Reads drawings from the content of a file of the given name. -/
abbrev Decoder := String → Bytes → Except Failure (List Drawing)

namespace Decoder

def containsSequence (sequence : Bytes) : Bytes → Bool
  | [] => sequence.isEmpty
  | byte :: rest => sequence.isPrefixOf (byte :: rest) || containsSequence sequence rest

/-- A vector image is one drawing, the same in both colour schemes. -/
def svg : Decoder := fun name data =>
  if containsSequence (Utf8.encode "<svg") data then .ok [⟨name, data, data⟩] else .error (.notAnImage name)

end Decoder

/-- Extensions of `decoders` are in lower case, and the first entry for an extension counts. `limit` bounds how
deep resolution and inclusion go. -/
structure Compiler where
  tree : FileTree
  registry : Registry := Builtin.registry
  decoders : List (String × Decoder) := []
  limit : Nat := 100000

/-- What one compilation leaves for the next, and what it reports. -/
structure Session where
  cache : IncludeCache := {}
  log : Array LogEvent := #[]

structure Document where
  path : String
  nodes : List Node
  formulas : FormulaSheet := {}

/-- A failure does not undo what was loaded before it. -/
abbrev Compile := ExceptT Failure (StateM Session)

/-- Expansion also collects the formulas of included files. -/
abbrev Expand := StateT FormulaSheet Compile

def sourceExt : String := ".ss"

namespace Compiler

def report (event : LogEvent) : Compile Unit := modify fun session => { session with log := session.log.push event }

/-- Resolves a list at the top of a file. -/
def resolveTop (compiler : Compiler) (path : String) (nodes : List Node) : Compile (List Node) := do
  match resolve compiler.registry compiler.limit (.top path) nodes with
  | none => throw .tooDeep
  | some (nodes, events) =>
    events.forM fun event => report (.resolve event)
    pure nodes

def resolveSource (compiler : Compiler) (path : String) (source : Bytes) : Compile (List Node) :=
  compiler.resolveTop path (normalize (Parse.ofBytes source))

/-- The resolved content of a file that is not in the cache: a source, or a drawing with a known decoder. -/
def loadFile (compiler : Compiler) (path : String) : Compile (List Node) := do
  let ext := LowerCase.lowerText (Path.ext path)
  let decoder := compiler.decoders.lookup ext
  if ext ≠ sourceExt && decoder.isNone then throw .unsupportedFormat
  let data ← liftExcept (compiler.tree.read path)
  report (.loaded path data.length)
  match if ext = sourceExt then none else decoder with
  | none => compiler.resolveSource path data
  | some decode => pure ((← liftExcept (decode (Path.base path) data)).map .drawing)
where
  liftExcept {α : Type} (result : Except Failure α) : Compile α :=
    match result with
    | .ok value => pure value
    | .error failure => throw failure

/-- The resolved content of a file. -/
def load (compiler : Compiler) (path : String) : Compile (List Node) := do
  match (← get).cache.find? path with
  | some nodes => pure nodes
  | none =>
    let nodes ← compiler.loadFile path
    modify fun session => { session with cache := session.cache.insert path nodes }
    pure nodes

/-- Puts each drawing into the targets of the rules in place of their patterns; without rules the drawings stand
for themselves. -/
def splice (compiler : Compiler) (path : String) (drawings : List Node) (rules : List (Rule Node)) :
    Compile (List Node) :=
  if rules.isEmpty then pure drawings
  else compiler.resolveTop path (drawings.flatMap fun drawing =>
    rules.flatMap fun rule => substitute [⟨rule.pattern, [drawing]⟩] rule.target)

mutual

/-- Replaces the inclusions inside a node by what `inclusion` makes of them. Arguments of unresolved tags are left
alone. -/
def expandNode (inclusion : Command Node → Expand (List Node)) : Node → Expand Node
  | .command ⟨ident, attributes, args, declaration, rules⟩ =>
    if declaration.any (·.name == Builtin.includeIdent) then do
      pure (.fragment (← inclusion ⟨ident, attributes, args, declaration, rules⟩))
    else do pure (.command ⟨ident, attributes, ← expandNodes inclusion args, declaration, rules⟩)
  | .bracket ⟨kind, opening, closing, children⟩ => do
    pure (.bracket ⟨kind, opening, closing, ← expandNodes inclusion children⟩)
  | .quotation opening closing children => do
    pure (.quotation opening closing (← expandNodes inclusion children))
  | .fragment children => do pure (.fragment (← expandNodes inclusion children))
  | node => pure node
termination_by structural node => node

def expandNodes (inclusion : Command Node → Expand (List Node)) : List Node → Expand (List Node)
  | [] => pure []
  | node :: rest => do
    let node ← expandNode inclusion node
    pure (node :: (← expandNodes inclusion rest))
termination_by structural nodes => nodes

end

/-- The path an inclusion names, seen from the file it stands in. -/
def target (path : String) (command : Command Node) : String :=
  Path.join (Path.dir path) ((command.attribute? "src").getD "")

def adjustment (compiler : Compiler) (target : String) (command : Command Node) : Outline.Adjustment where
  registry := compiler.registry
  shift := (((command.attribute? "baseline").bind Heading.level?).getD 0) - 1
  source := target
  tocOnly := command.hasAttribute "toc-only"
  noToc := command.hasAttribute "no-toc"

/-- The content of an included file as it stands in the including document. `chain` lists the files being
included, from the page on; `extract` tells whether formulas are taken out. Headings of a file that only feeds the
table of contents are never drawn, so its formulas are not taken out either. -/
def includeFile (compiler : Compiler) : (depth : Nat) → (path : String) → (chain : List String) → (extract : Bool) →
    Command Node → Expand (List Node)
  | 0, _, _, _, _ => throw .tooDeep
  | depth + 1, path, chain, extract, command => do
    let target := target path command
    if chain.contains target then throw (.including target .includeCycle)
    let cached := (← getThe Session).cache.cached target
    let nodes ← tryCatch (compiler.load target) fun failure => throw (.including target failure)
    report (.included target path cached)
    if Path.ext target ≠ sourceExt then compiler.splice path nodes command.rules
    else
      let adjustment := compiler.adjustment target command
      let extract := extract && !adjustment.tocOnly
      let sheet ← get
      let expansion := expandNodes (compiler.includeFile depth target (chain ++ [target]) extract) nodes
      let (nodes, inner) ← expansion.run sheet.successor
      let nodes := Outline.adjust adjustment nodes
      if adjustment.tocOnly then pure ((Outline.collect nodes).map .command)
      else if extract then
        let (nodes, inner) := (extractFormulas nodes).run inner
        set (sheet.merge inner)
        pure nodes
      else pure nodes

/-- Expands the inclusions of a resolved file and, if asked to, takes out its formulas. -/
def finish (compiler : Compiler) (path : String) (nodes : List Node) (extract : Bool) : Compile Document := do
  let (nodes, sheet) ← (expandNodes (compiler.includeFile compiler.limit path [path] extract) nodes).run {}
  if extract then
    let (nodes, sheet) := (extractFormulas nodes).run sheet
    pure ⟨path, nodes, sheet⟩
  else pure ⟨path, nodes, sheet⟩

def compileFile (compiler : Compiler) (path : String) (extract : Bool) : Compile Document :=
  let path := Path.clean path
  tryCatch (do compiler.finish path (← compiler.load path) extract) fun failure => throw (.compiling path failure)

/-- Compiles a file into a document. -/
def compile (compiler : Compiler) (path : String) : Compile Document := compiler.compileFile path true

/-- Compiles a file into LaTeX; formulas stay where they are. -/
def compileLatex (compiler : Compiler) (path : String) : Compile String := do
  pure (latex (← compiler.compileFile path false).nodes)

/-- Compiles source text that is not stored in a file; what it includes is looked up from `path`. -/
def compileSource (compiler : Compiler) (path : String) (source : Bytes) : Compile Document := do
  let path := Path.clean path
  compiler.finish path (← compiler.resolveSource path source) true

end Compiler
end Manuscript
