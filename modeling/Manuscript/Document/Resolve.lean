import Manuscript.Document.Level
import Manuscript.Document.Normalize
import Manuscript.Registry.Basic

/-! Resolution matches identifiers with declarations. A list is scanned from left to right; an identifier that
matches is replaced, together with the attributes, arguments and where blocks it takes up, by what its
declaration makes of it, and nothing that was produced is scanned again at the same level. Resolution then goes
into the children of every node, with a derived scope for the arguments of commands.

Rules of a where block are applied before their command's arguments are resolved, and they reach into where
blocks that are still to come. Such blocks can rebuild one another without end, so resolution takes the depth
down to which it may go and gives nothing when that does not suffice. -/

namespace Manuscript

/-- What resolution reports about each identifier it looks at. -/
inductive ResolveEvent where
  | resolved (command : String) (args : Nat)
  | unresolved (command path : String)
deriving DecidableEq, Repr

namespace ArgumentList

/-- The blocks of an exact argument list and the number of nodes up to the last of them. -/
def captureExact : List BracketKind → List Node → Option (List (Block Node) × Nat)
  | [], _ => some ([], 0)
  | kind :: kinds, nodes => do
    let blanks := Node.leadingBlanks nodes
    let block ← Node.leadingBlock kind (nodes.drop blanks)
    let (blocks, used) ← captureExact kinds (nodes.drop (blanks + 1))
    pure (block :: blocks, blanks + 1 + used)

/-- The arguments captured at the start of a list and the number of nodes they take up. -/
def capture (arguments : ArgumentList) (nodes : List Node) : Option (List (Block Node) × Nat) :=
  match arguments.shape with
  | .none => some ([], 0)
  | .greedy => let blocks := Node.leadingCurly nodes; some (blocks, blocks.length)
  | .exact => captureExact arguments.brackets nodes
  | .unknown _ => none

end ArgumentList

namespace Resolve

/-- An identifier with whatever normalization attached to it. -/
structure Head where
  ident : Ident
  options : Option (Block Node) := none
  attributes : Option Attributes := none
  attached : List (Block Node) := []
  rules : List (Rule Node) := []

def head? : Node → Option Head
  | .ident ident => some { ident }
  | .tag tag => some ⟨tag.ident, tag.options, tag.attributes, tag.args, tag.rules⟩
  | _ => none

/-- A declaration applied at a place: its attributes, the blocks attached to the identifier that may serve as
arguments, and the number of siblings taken up by a loose attribute list. -/
structure Offer where
  attributes : Option Attributes
  attached : List (Block Node)
  skipped : Nat

/-- A declaration that ignores attributes treats an option list as the first argument; otherwise a bare
identifier may find its attribute list among the siblings that follow. -/
def offer (declaration : Declaration) (head : Head) (rest : List Node) : Offer :=
  if declaration.ignoresAttributes then ⟨none, head.options.toList ++ head.attached, 0⟩
  else if head.options.isNone && head.attached.isEmpty then
    let blanks := Node.leadingBlanks rest
    match Node.leadingBlock .square (rest.drop blanks) with
    | some block => ⟨some (Attributes.parse block.children), head.attached, blanks + 1⟩
    | none => ⟨head.attributes, head.attached, 0⟩
  else ⟨head.attributes, head.attached, 0⟩

def convert (declaration : Declaration) (converter : Converter) (ident : Ident) (attributes : Option Attributes)
    (args : List (Block Node)) (scope : Scope) : Node :=
  match converter with
  | .command => .command { ident, attributes, args := args.map .bracket, declaration := some declaration }
  | .fragment => .fragment (args.map .bracket)
  | .block => .bracket (.synthesized (args.map .bracket))
  | .name => .text ident.name ident.span
  | .scope => .text scope.describe {}

/-- Substitutes in the arguments of a produced node, or keeps the rules on the command when they are deferred. -/
def applyRules (rules : List (Rule Node)) (deferred : Bool) : Node → Node
  | .command command =>
    if deferred then .command { command with rules := command.rules ++ rules }
    else .command { command with args := substitute rules command.args }
  | .fragment children => .fragment (if deferred then children else substitute rules children)
  | .bracket block => .bracket (if deferred then block else { block with children := substitute rules block.children })
  | node => node

/-- What an invocation puts in place of itself and of `used` siblings behind it. -/
structure Production where
  nodes : List Node
  used : Nat
  args : Nat

/-- Tries one argument list. Attached blocks that it does not take stay behind the produced node; when it takes
them all, a where block may follow the arguments. -/
def produce (declaration : Declaration) (head : Head) (offer : Offer) (rest : List Node) (scope : Scope)
    (arguments : ArgumentList) : Option Production := do
  let stream := offer.attached.map .bracket ++ rest.drop offer.skipped
  let (args, taken) ← arguments.capture stream
  let node := convert declaration arguments.converter head.ident offer.attributes args scope
  let attached := offer.attached.length
  let used := offer.skipped + (taken - attached)
  let (more, behind) := if attached ≤ taken then (Rule.leadingWhere (rest.drop used)).getD ([], 0) else ([], 0)
  let rules := head.rules ++ more
  let node := if rules.isEmpty then node else applyRules rules declaration.defersRules node
  pure ⟨node :: (offer.attached.drop taken).map .bracket, used + behind, args.length⟩

/-- The first declaration and argument list that fit, in order of registration. -/
def invoke (registry : Registry) (scope : Scope) (head : Head) (rest : List Node) : Option Production :=
  (registry.lookup head.ident.name).findSome? fun declaration =>
    let offer := offer declaration head rest
    if !declaration.allows scope then none
    else if !declaration.ignoresAttributes && !declaration.admitsAttributes (offer.attributes.getD []) then none
    else declaration.arguments.findSome? (produce declaration head offer rest scope)

/-- One level of siblings, after `skip` nodes that the last invocation has taken up. -/
def scanFrom (registry : Registry) (scope : Scope) : (skip : Nat) → List Node → List Node × List ResolveEvent
  | _, [] => ([], [])
  | skip + 1, _ :: rest => scanFrom registry scope skip rest
  | 0, node :: rest =>
    match head? node with
    | none =>
      let (nodes, events) := scanFrom registry scope 0 rest
      (node :: nodes, events)
    | some head =>
      match invoke registry scope head rest with
      | some production =>
        let (nodes, events) := scanFrom registry scope production.used rest
        (production.nodes ++ nodes, .resolved head.ident.name production.args :: events)
      | none =>
        let (nodes, events) := scanFrom registry scope 0 rest
        (node :: nodes, .unresolved head.ident.name scope.path :: events)

/-- Puts results together in order, what was reported included; one that is missing leaves nothing. -/
def gather {α : Type} : List (Option (α × List ResolveEvent)) → Option (List α × List ResolveEvent)
  | [] => some ([], [])
  | outcome :: rest => do
    let (value, events) ← outcome
    let (values, more) ← gather rest
    pure (value :: values, events ++ more)

/-- Resolves the children of a node with `inner`. Option lists are never resolved. -/
def descend (inner : Scope → List Node → Option (List Node × List ResolveEvent)) (scope : Scope) :
    Node → Option (Node × List ResolveEvent)
  | .command command => do
    let (args, events) ←
      inner (scope.descend command.ident.name (command.declaration.bind Declaration.child)) command.args
    pure (.command { command with args }, events)
  | .bracket block => do
    let (children, events) ← inner scope block.children
    pure (.bracket { block with children }, events)
  | .quotation opening closing children => do
    let (children, events) ← inner scope children
    pure (.quotation opening closing children, events)
  | .fragment children => do
    let (children, events) ← inner scope children
    pure (.fragment children, events)
  | .tag tag => do
    let (args, events) ← gather (tag.args.map fun block =>
      (inner scope block.children).map fun (children, events) => ({ block with children }, events))
    pure (.tag { tag with args }, events)
  | node => some (node, [])

end Resolve

/-- Resolves a list down to a depth, or gives nothing when the depth does not suffice. -/
def resolve (registry : Registry) : (depth : Nat) → Scope → List Node → Option (List Node × List ResolveEvent)
  | 0, _, _ => none
  | depth + 1, scope, nodes => do
    let (scanned, events) := Resolve.scanFrom registry scope 0 nodes
    let (nodes, more) ← Resolve.gather (scanned.map (Resolve.descend (resolve registry depth) scope))
    pure (nodes, events ++ more)

end Manuscript
