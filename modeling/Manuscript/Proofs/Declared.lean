import Manuscript.Proofs.ExpansionComplete
import Manuscript.Proofs.ResolutionSound

/-! Where commands come from. Resolution makes commands of declarations that it finds under their names, with
attributes that these admit, and no later step puts in another: not the rules that move resolved trees about, and not
the resolution of targets into which the content of a file was put. -/

namespace Manuscript

open Resolve

mutual

/-- Every command inside, those in targets of rules included, is one that `good` is true of. Option lists hold none. -/
def Node.Declared (good : Ident → Option Attributes → Option Declaration → Prop) : Node → Prop
  | .bracket block => BlockDeclared good block
  | .quotation _ _ children => Declared good children
  | .fragment children => Declared good children
  | .tag ⟨_, options, _, args, rules⟩ =>
    OptionsUnresolved (fun _ => True) options ∧ BlocksDeclared good args ∧ RulesDeclared good rules
  | .command ⟨ident, attributes, args, declaration, rules⟩ =>
    good ident attributes declaration ∧ Declared good args ∧ RulesDeclared good rules
  | _ => True
termination_by structural node => node

def Declared (good : Ident → Option Attributes → Option Declaration → Prop) : List Node → Prop
  | [] => True
  | node :: rest => node.Declared good ∧ Declared good rest
termination_by structural nodes => nodes

def BlockDeclared (good : Ident → Option Attributes → Option Declaration → Prop) : Block Node → Prop
  | ⟨_, _, _, children⟩ => Declared good children
termination_by structural block => block

def BlocksDeclared (good : Ident → Option Attributes → Option Declaration → Prop) : List (Block Node) → Prop
  | [] => True
  | block :: rest => BlockDeclared good block ∧ BlocksDeclared good rest
termination_by structural blocks => blocks

def RulesDeclared (good : Ident → Option Attributes → Option Declaration → Prop) : List (Rule Node) → Prop
  | [] => True
  | rule :: rest => RuleDeclared good rule ∧ RulesDeclared good rest
termination_by structural rules => rules

def RuleDeclared (good : Ident → Option Attributes → Option Declaration → Prop) : Rule Node → Prop
  | ⟨_, target⟩ => Declared good target
termination_by structural rule => rule

end

section Declared

variable {good : Ident → Option Attributes → Option Declaration → Prop}

theorem declared_iff {nodes : List Node} : Declared good nodes ↔ ∀ node ∈ nodes, node.Declared good := by
  induction nodes with
  | nil => simp [Declared]
  | cons node rest ih => rw [Declared, ih, List.forall_mem_cons]

theorem blockDeclared_iff {block : Block Node} : BlockDeclared good block ↔ Declared good block.children := by
  obtain ⟨kind, opening, closing, children⟩ := block
  rfl

theorem blocksDeclared_iff {blocks : List (Block Node)} :
    BlocksDeclared good blocks ↔ ∀ block ∈ blocks, BlockDeclared good block := by
  induction blocks with
  | nil => simp [BlocksDeclared]
  | cons block rest ih => rw [BlocksDeclared, ih, List.forall_mem_cons]

theorem rulesDeclared_iff {rules : List (Rule Node)} :
    RulesDeclared good rules ↔ ∀ rule ∈ rules, Declared good rule.target := by
  induction rules with
  | nil => simp [RulesDeclared]
  | cons rule rest ih =>
    obtain ⟨pattern, target⟩ := rule
    rw [RulesDeclared, ih, List.forall_mem_cons, RuleDeclared]

theorem command_declared {command : Command Node} : (Node.command command).Declared good ↔
    good command.ident command.attributes command.declaration ∧ Declared good command.args ∧
      RulesDeclared good command.rules := by
  obtain ⟨ident, attributes, args, declaration, rules⟩ := command
  rfl

theorem declared_brackets {blocks : List (Block Node)} :
    Declared good (blocks.map .bracket) ↔ ∀ block ∈ blocks, BlockDeclared good block := by
  rw [declared_iff, List.forall_mem_map]
  rfl

theorem Declared.sublist {nodes others : List Node} (declared : Declared good others) (within : nodes.Sublist others) :
    Declared good nodes :=
  declared_iff.mpr fun node member => declared_iff.mp declared node (within.subset member)

theorem Declared.append {nodes others : List Node} (first : Declared good nodes) (second : Declared good others) :
    Declared good (nodes ++ others) :=
  declared_iff.mpr (List.forall_mem_append.mpr ⟨declared_iff.mp first, declared_iff.mp second⟩)

mutual

theorem Node.Declared.mono {better : Ident → Option Attributes → Option Declaration → Prop}
    (weaker : ∀ ident attributes declaration, good ident attributes declaration → better ident attributes declaration)
    (node : Node) (declared : node.Declared good) : node.Declared better := by
  match node with
  | .bracket block => exact BlockDeclared.mono weaker block declared
  | .quotation _ _ children => exact Declared.mono weaker children declared
  | .fragment children => exact Declared.mono weaker children declared
  | .tag ⟨ident, options, attributes, args, rules⟩ =>
    obtain ⟨optional, blocks, ruled⟩ := declared
    exact ⟨optional, BlocksDeclared.mono weaker args blocks, RulesDeclared.mono weaker rules ruled⟩
  | .command ⟨ident, attributes, args, declaration, rules⟩ =>
    obtain ⟨own, inside, ruled⟩ := declared
    exact ⟨weaker _ _ _ own, Declared.mono weaker args inside, RulesDeclared.mono weaker rules ruled⟩
  | .hole | .text _ _ | .symbol _ _ | .ident _ | .stray _ | .drawing _ => trivial
termination_by structural node

theorem Declared.mono {better : Ident → Option Attributes → Option Declaration → Prop}
    (weaker : ∀ ident attributes declaration, good ident attributes declaration → better ident attributes declaration)
    (nodes : List Node) (declared : Declared good nodes) : Declared better nodes := by
  match nodes with
  | [] => trivial
  | node :: rest => exact ⟨Node.Declared.mono weaker node declared.1, Declared.mono weaker rest declared.2⟩
termination_by structural nodes

theorem BlockDeclared.mono {better : Ident → Option Attributes → Option Declaration → Prop}
    (weaker : ∀ ident attributes declaration, good ident attributes declaration → better ident attributes declaration)
    (block : Block Node) (declared : BlockDeclared good block) : BlockDeclared better block := by
  match block with
  | ⟨_, _, _, children⟩ => exact Declared.mono weaker children declared
termination_by structural block

theorem BlocksDeclared.mono {better : Ident → Option Attributes → Option Declaration → Prop}
    (weaker : ∀ ident attributes declaration, good ident attributes declaration → better ident attributes declaration)
    (blocks : List (Block Node)) (declared : BlocksDeclared good blocks) : BlocksDeclared better blocks := by
  match blocks with
  | [] => trivial
  | block :: rest => exact ⟨BlockDeclared.mono weaker block declared.1, BlocksDeclared.mono weaker rest declared.2⟩
termination_by structural blocks

theorem RulesDeclared.mono {better : Ident → Option Attributes → Option Declaration → Prop}
    (weaker : ∀ ident attributes declaration, good ident attributes declaration → better ident attributes declaration)
    (rules : List (Rule Node)) (declared : RulesDeclared good rules) : RulesDeclared better rules := by
  match rules with
  | [] => trivial
  | rule :: rest => exact ⟨RuleDeclared.mono weaker rule declared.1, RulesDeclared.mono weaker rest declared.2⟩
termination_by structural rules

theorem RuleDeclared.mono {better : Ident → Option Attributes → Option Declaration → Prop}
    (weaker : ∀ ident attributes declaration, good ident attributes declaration → better ident attributes declaration)
    (rule : Rule Node) (declared : RuleDeclared good rule) : RuleDeclared better rule := by
  match rule with
  | ⟨_, target⟩ => exact Declared.mono weaker target declared
termination_by structural rule

end

mutual

theorem Node.declared_of_unresolved (node : Node) (unresolved : node.Unresolved fun _ => True) :
    node.Declared good := by
  match node with
  | .bracket block => exact blockDeclared_of_unresolved block unresolved
  | .quotation _ _ children => exact declared_of_unresolved children unresolved
  | .fragment children => exact declared_of_unresolved children unresolved
  | .tag ⟨ident, options, attributes, args, rules⟩ =>
    obtain ⟨_, optional, blocks, _, targets⟩ := unresolved
    exact ⟨optional, blocksDeclared_of_unresolved args blocks, rulesDeclared_of_unresolved rules targets⟩
  | .command _ => exact unresolved.elim
  | .hole | .text _ _ | .symbol _ _ | .ident _ | .stray _ | .drawing _ => trivial
termination_by structural node

theorem declared_of_unresolved (nodes : List Node) (unresolved : Unresolved (fun _ => True) nodes) :
    Declared good nodes := by
  match nodes with
  | [] => trivial
  | node :: rest => exact ⟨Node.declared_of_unresolved node unresolved.1, declared_of_unresolved rest unresolved.2⟩
termination_by structural nodes

theorem blockDeclared_of_unresolved (block : Block Node) (unresolved : BlockUnresolved (fun _ => True) block) :
    BlockDeclared good block := by
  match block with
  | ⟨_, _, _, children⟩ => exact declared_of_unresolved children unresolved
termination_by structural block

theorem blocksDeclared_of_unresolved (blocks : List (Block Node)) (unresolved : BlocksUnresolved (fun _ => True) blocks) :
    BlocksDeclared good blocks := by
  match blocks with
  | [] => trivial
  | block :: rest =>
    exact ⟨blockDeclared_of_unresolved block unresolved.1, blocksDeclared_of_unresolved rest unresolved.2⟩
termination_by structural blocks

theorem rulesDeclared_of_unresolved (rules : List (Rule Node)) (unresolved : RulesUnresolved (fun _ => True) rules) :
    RulesDeclared good rules := by
  match rules with
  | [] => trivial
  | rule :: rest =>
    exact ⟨ruleDeclared_of_unresolved rule unresolved.1, rulesDeclared_of_unresolved rest unresolved.2⟩
termination_by structural rules

theorem ruleDeclared_of_unresolved (rule : Rule Node) (unresolved : RuleUnresolved (fun _ => True) rule) :
    RuleDeclared good rule := by
  match rule with
  | ⟨_, target⟩ => exact declared_of_unresolved target unresolved
termination_by structural rule

end

/-- Rules of a where block insert only what stands in it. -/
theorem parse_declared {nodes : List Node} (declared : Declared good nodes) :
    ∀ rule ∈ Rule.parse nodes, Declared good rule.target := by
  have blocks (block : Block Node) (inside : .bracket block ∈ nodes) : Declared good block.children :=
    blockDeclared_iff.mp (declared_iff.mp declared (.bracket block) inside)
  exact fun rule member => (Rule.parse_forall (P := Declared good) blocks rule member).2

theorem leadingWhere_declared {nodes : List Node} (declared : Declared good nodes) {rules : List (Rule Node)}
    {used : Nat} (found : Rule.leadingWhere nodes = some (rules, used)) :
    ∀ rule ∈ rules, Declared good rule.target := by
  unfold Rule.leadingWhere at found
  split at found
  next ident block rest =>
    split at found
    · cases found
      exact parse_declared (blockDeclared_iff.mp declared.2.1)
    · cases found
  next tag rest =>
    split at found
    · cases found
      obtain ⟨ident, options, attributes, args, attached⟩ := tag
      obtain ⟨_, blocks, _⟩ := declared.1
      intro rule member
      obtain ⟨block, inside, listed⟩ := List.mem_flatMap.mp member
      exact parse_declared (blockDeclared_iff.mp (blocksDeclared_iff.mp blocks block inside)) rule listed
    · cases found
  next => cases found

section Substitute

variable {rules : List (Rule Node)}

mutual

theorem Node.substitute_declared (targets : ∀ rule ∈ rules, Declared good rule.target) (node : Node)
    (declared : node.Declared good) : (node.substitute rules).Declared good := by
  match node with
  | .bracket block => exact substituteBlock_declared targets block declared
  | .quotation opening closing children => exact substituteFrom_declared targets children 0 declared
  | .fragment children => exact substituteFrom_declared targets children 0 declared
  | .tag ⟨ident, options, attributes, args, attached⟩ =>
    obtain ⟨optional, blocks, ruled⟩ := declared
    exact ⟨optional, substituteBlocks_declared targets args blocks, ruled⟩
  | .command ⟨ident, attributes, args, declaration, attached⟩ =>
    obtain ⟨own, inside, ruled⟩ := declared
    exact ⟨own, substituteFrom_declared targets args 0 inside, ruled⟩
  | .hole | .text _ _ | .symbol _ _ | .ident _ | .stray _ | .drawing _ => trivial
termination_by structural node

theorem substituteFrom_declared (targets : ∀ rule ∈ rules, Declared good rule.target) (nodes : List Node) (skip : Nat)
    (declared : Declared good nodes) : Declared good (substituteFrom rules skip nodes) := by
  match nodes, skip with
  | [], _ => exact trivial
  | _ :: rest, skip + 1 => exact substituteFrom_declared targets rest skip declared.2
  | node :: rest, 0 =>
    rw [substituteFrom]
    split
    next rule found =>
      exact (targets rule (firstMatch_mem found)).append (substituteFrom_declared targets rest _ declared.2)
    next => exact ⟨Node.substitute_declared targets node declared.1, substituteFrom_declared targets rest 0 declared.2⟩
termination_by structural nodes

theorem substituteBlock_declared (targets : ∀ rule ∈ rules, Declared good rule.target) (block : Block Node)
    (declared : BlockDeclared good block) : BlockDeclared good (substituteBlock rules block) := by
  match block with
  | ⟨_, _, _, children⟩ => exact substituteFrom_declared targets children 0 declared
termination_by structural block

theorem substituteBlocks_declared (targets : ∀ rule ∈ rules, Declared good rule.target) (blocks : List (Block Node))
    (declared : BlocksDeclared good blocks) : BlocksDeclared good (substituteBlocks rules blocks) := by
  match blocks with
  | [] => trivial
  | block :: rest =>
    exact ⟨substituteBlock_declared targets block declared.1, substituteBlocks_declared targets rest declared.2⟩
termination_by structural blocks

end

end Substitute

theorem head_declared {node : Node} {head : Head} (heads : head? node = some head) (declared : node.Declared good) :
    (∀ block ∈ head.options.toList ++ head.attached, BlockDeclared good block) ∧
      ∀ rule ∈ head.rules, Declared good rule.target := by
  cases node with
  | ident ident =>
    cases heads
    simp
  | tag tag =>
    obtain ⟨ident, options, attributes, args, rules⟩ := tag
    cases heads
    obtain ⟨optional, blocks, targets⟩ := declared
    refine ⟨List.forall_mem_append.mpr ⟨?_, blocksDeclared_iff.mp blocks⟩, rulesDeclared_iff.mp targets⟩
    cases options with
    | none => simp
    | some block => exact List.forall_mem_singleton.mpr (blockDeclared_of_unresolved block optional)
  | _ => cases heads

/-- What an invocation makes of a declaration under its name is good. -/
def Registry.Makes (registry : Registry) (good : Ident → Option Attributes → Option Declaration → Prop) : Prop :=
  ∀ ident attributes declaration, declaration ∈ registry.lookup ident.name →
    (declaration.ignoresAttributes = true ∧ attributes = none ∨
      declaration.admitsAttributes (attributes.getD []) = true) → good ident attributes (some declaration)

theorem convert_declared {declaration : Declaration} {ident : Ident} {attributes : Option Attributes}
    (own : good ident attributes (some declaration)) {args : List (Block Node)}
    (inside : Declared good (args.map .bracket)) (converter : Converter) (scope : Scope) :
    (convert declaration converter ident attributes args scope).Declared good := by
  cases converter with
  | command => exact ⟨own, inside, trivial⟩
  | fragment | block => exact inside
  | name | scope => trivial

theorem applyRules_declared {rules : List (Rule Node)} (targets : ∀ rule ∈ rules, Declared good rule.target)
    (deferred : Bool) {node : Node} (declared : node.Declared good) : (applyRules rules deferred node).Declared good := by
  cases node with
  | command command =>
    obtain ⟨ident, attributes, args, declaration, kept⟩ := command
    obtain ⟨own, inside, ruled⟩ := declared
    cases deferred with
    | true =>
      refine ⟨own, inside, rulesDeclared_iff.mpr (List.forall_mem_append.mpr ⟨rulesDeclared_iff.mp ruled, targets⟩)⟩
    | false => exact ⟨own, substituteFrom_declared targets args 0 inside, ruled⟩
  | fragment children =>
    cases deferred with
    | true => exact declared
    | false => exact substituteFrom_declared targets children 0 declared
  | bracket block =>
    obtain ⟨kind, opening, closing, children⟩ := block
    cases deferred with
    | true => exact declared
    | false => exact substituteFrom_declared targets children 0 declared
  | _ => exact declared

theorem invoke_declared {registry : Registry} (makes : registry.Makes good) {scope : Scope} {node : Node} {head : Head}
    {rest : List Node} (heads : head? node = some head) (declared : Declared good (node :: rest))
    {production : Production} (found : invoke registry scope head rest = some production) :
    Declared good production.nodes := by
  obtain ⟨blocks, targets⟩ := head_declared heads declared.1
  obtain ⟨⟨declaration, arguments⟩, first, produced⟩ := invoke_eq_some found
  obtain ⟨args, taken, more, captured, followed, left⟩ := produce_left produced
  have attached : ∀ block ∈ (offer declaration head rest).attached, BlockDeclared good block := by
    rcases offer_attached declaration head rest with same | same
    · exact same ▸ blocks
    · exact same ▸ fun block member => blocks block (List.mem_append_right _ member)
  have stream : Declared good ((offer declaration head rest).stream rest) :=
    (declared_brackets.mpr attached).append (declared.2.sublist (List.drop_sublist ..))
  have inside := stream.sublist ((ArgumentList.capture_sublist captured).trans (List.take_sublist ..))
  have own : good head.ident (offer declaration head rest).attributes (some declaration) := by
    refine makes _ _ _ (Registry.mem_choices first.member).1 ?_
    rcases first.fits.valid with ignored | valid
    · exact .inl ⟨ignored, offer_ignored ignored head rest⟩
    · exact .inr valid
  have further : ∀ rule ∈ more, Declared good rule.target := by
    rcases followed with none | ⟨used, behind, leads⟩
    · simp [none]
    · exact leadingWhere_declared (declared.2.sublist (List.drop_sublist ..)) leads
  rw [left]
  refine ⟨?_, declared_brackets.mpr fun block member => attached block (List.mem_of_mem_drop member)⟩
  have made := convert_declared own inside arguments.converter scope
  split
  · exact made
  · exact applyRules_declared (List.forall_mem_append.mpr ⟨targets, further⟩) _ made

theorem scan_declared {registry : Registry} (makes : registry.Makes good) (scope : Scope) (skip : Nat)
    {nodes : List Node} (declared : Declared good nodes) : Declared good (scanFrom registry scope skip nodes).1 := by
  fun_induction scanFrom registry scope skip nodes with
  | case1 => trivial
  | case2 skip first rest ih => exact ih declared.2
  | case3 first rest _ scanned events same ih =>
    rw [same] at ih
    exact ⟨declared.1, ih declared.2⟩
  | case4 first rest head heads production found scanned events same ih =>
    rw [same] at ih
    exact (invoke_declared makes heads declared found).append (ih declared.2)
  | case5 first rest head _ _ scanned events same ih =>
    rw [same] at ih
    exact ⟨declared.1, ih declared.2⟩

theorem descend_declared {inner : Scope → List Node → Option (List Node × List ResolveEvent)}
    (keeps : ∀ scope nodes result events, inner scope nodes = some (result, events) → Declared good nodes →
      Declared good result) {scope : Scope} {node made : Node} {events : List ResolveEvent}
    (found : descend inner scope node = some (made, events)) (declared : node.Declared good) : made.Declared good := by
  cases node with
  | command command =>
    obtain ⟨ident, attributes, args, declaration, rules⟩ := command
    simp only [descend, Option.bind_eq_bind, Option.bind_eq_some_iff] at found
    obtain ⟨⟨left, inside⟩, entered, result⟩ := found
    cases result
    obtain ⟨own, below, ruled⟩ := declared
    exact ⟨own, keeps _ _ _ _ entered below, ruled⟩
  | bracket block =>
    simp only [descend, Option.bind_eq_bind, Option.bind_eq_some_iff] at found
    obtain ⟨⟨left, inside⟩, entered, result⟩ := found
    cases result
    exact keeps _ _ _ _ entered (blockDeclared_iff.mp declared)
  | quotation opening closing children | fragment children =>
    simp only [descend, Option.bind_eq_bind, Option.bind_eq_some_iff] at found
    obtain ⟨⟨left, inside⟩, entered, result⟩ := found
    cases result
    exact keeps _ _ _ _ entered declared
  | tag tag =>
    obtain ⟨ident, options, attributes, args, rules⟩ := tag
    simp only [descend, Option.bind_eq_bind, Option.bind_eq_some_iff] at found
    obtain ⟨⟨blocks, inside⟩, entered, result⟩ := found
    cases result
    obtain ⟨optional, before, ruled⟩ := declared
    refine ⟨optional, blocksDeclared_iff.mpr fun block member => ?_, ruled⟩
    obtain ⟨original, listed, events, resolved⟩ := (forall₂_members (gather_forall₂ entered)).1 block member
    obtain ⟨⟨left, reports⟩, reached, same⟩ := Option.map_eq_some_iff.mp resolved
    cases same
    exact keeps _ _ _ _ reached (blockDeclared_iff.mp (blocksDeclared_iff.mp before original listed))
  | _ =>
    cases found
    exact declared

theorem resolve_declared {registry : Registry} (makes : registry.Makes good) (depth : Nat) (scope : Scope)
    (nodes result : List Node) (events : List ResolveEvent)
    (found : resolve registry depth scope nodes = some (result, events)) (declared : Declared good nodes) :
    Declared good result := by
  induction depth generalizing scope nodes result events with
  | zero => cases found
  | succ depth ih =>
    obtain ⟨less, same, each⟩ := resolve_each found
    obtain rfl := Nat.succ.inj same
    have scanned := scan_declared makes scope 0 declared
    refine declared_iff.mpr fun made member => ?_
    obtain ⟨node, inside, events, descended⟩ := (forall₂_members each).1 made member
    exact descend_declared ih descended (declared_iff.mp scanned node inside)

theorem declared_drawings (drawings : List Drawing) : Declared good (drawings.map .drawing) := by
  rw [declared_iff, List.forall_mem_map]
  exact fun _ _ => trivial

namespace Compiler

theorem Loads.declared {compiler : Compiler} {path : String} {nodes : List Node} (loads : compiler.Loads path nodes)
    (makes : compiler.registry.Makes good) : Declared good nodes := by
  cases loads with
  | source _ _ resolved =>
    apply resolve_declared makes _ _ _ _ _ resolved
    exact declared_of_unresolved _ (normalize_ofBytes_unresolved _ fun _ _ => trivial)
  | drawing => exact declared_drawings _

theorem Spliced.declared {compiler : Compiler} {path : String} {content left : List Node} {rules : List (Rule Node)}
    (spliced : compiler.Spliced path content rules left) (makes : compiler.registry.Makes good)
    (inside : Declared good content) (targets : RulesDeclared good rules) : Declared good left := by
  cases spliced with
  | plain => exact inside
  | filled _ resolved =>
    refine resolve_declared makes _ _ _ _ _ resolved (declared_iff.mpr fun node member => ?_)
    obtain ⟨drawing, listed, under⟩ := List.mem_flatMap.mp member
    obtain ⟨rule, given, substituted⟩ := List.mem_flatMap.mp under
    have single : ∀ rule' ∈ [(⟨rule.pattern, [drawing]⟩ : Rule Node)], Declared good rule'.target :=
      List.forall_mem_singleton.mpr ⟨declared_iff.mp inside drawing listed, trivial⟩
    exact declared_iff.mp (substituteFrom_declared single _ 0 (rulesDeclared_iff.mp targets rule given)) node substituted

end Compiler

end Declared

end Manuscript
