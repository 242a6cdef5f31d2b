import Manuscript.Proofs.FirstFit
import Manuscript.Proofs.Loosening
import Mathlib.Data.List.TakeWhile

/-! Resolution finds the same arguments whether they are attached to tags or stand loose behind identifiers. Both ways
look through the same stream of blocks and siblings; they differ in what of it counts as attached, and so in how many
siblings an invocation takes up and in what it leaves behind itself. -/

namespace Manuscript

open Resolve

section Stream

theorem leadingBlanks_loosened (nodes : List Node) :
    Node.leadingBlanks (loosened nodes) = Node.leadingBlanks nodes := by
  unfold Node.leadingBlanks
  induction nodes with
  | nil => rfl
  | cons node rest ih =>
    cases node with
    | text value span =>
      simp only [loosened, Node.loosened, List.singleton_append, List.takeWhile_cons]
      split
      · rw [List.length_cons, List.length_cons, ih]
      · rfl
    | _ => rfl

theorem leadingBlock_loosened (kind : BracketKind) (nodes : List Node) :
    Node.leadingBlock kind (loosened nodes) = (Node.leadingBlock kind nodes).map loosenedBlock := by
  cases nodes with
  | nil => rfl
  | cons node rest =>
    cases node with
    | bracket block =>
      obtain ⟨own, opening, closing, children⟩ := block
      simp only [loosened, Node.loosened, loosenedBlock, List.singleton_append, Node.leadingBlock]
      split <;> rfl
    | _ => rfl

theorem leadingCurly_loosened (nodes : List Node) :
    Node.leadingCurly (loosened nodes) = (Node.leadingCurly nodes).map loosenedBlock := by
  fun_induction Node.leadingCurly nodes with
  | case1 block rest curly ih =>
    obtain ⟨kind, opening, closing, children⟩ := block
    simp only [loosened, Node.loosened, loosenedBlock, List.singleton_append, Node.leadingCurly, List.map_cons]
    rw [if_pos curly, ih]
  | case2 block rest other =>
    obtain ⟨kind, opening, closing, children⟩ := block
    simp only [loosened, Node.loosened, loosenedBlock, List.singleton_append, Node.leadingCurly]
    rw [if_neg other]
    rfl
  | case3 nodes other =>
    cases nodes with
    | nil => rfl
    | cons node rest =>
      cases node with
      | bracket block => exact absurd rfl (other block rest)
      | _ => rfl

/-- Nodes that are written out as one node each are dropped one by one. -/
theorem drop_loosened {nodes : List Node} (count : Nat)
    (single : ∀ node ∈ nodes.take count, ∃ other, node.loosened = [other]) :
    (loosened nodes).drop count = loosened (nodes.drop count) := by
  induction count generalizing nodes with
  | zero => rfl
  | succ count ih =>
    cases nodes with
    | nil => rfl
    | cons node rest =>
      rw [List.take_succ_cons, List.forall_mem_cons] at single
      obtain ⟨other, alone⟩ := single.1
      rw [loosened, alone, List.singleton_append, List.drop_succ_cons, List.drop_succ_cons]
      exact ih single.2

theorem loosened_blank {node : Node} (blank : node.isBlank = true) : ∃ other, node.loosened = [other] := by
  cases node with
  | text value span => exact ⟨_, rfl⟩
  | _ => cases blank

/-- The stream that an argument list goes through is the same up to its end, and written out behind it. -/
theorem captureExact_loosened (kinds : List BracketKind) (nodes : List Node) :
    ArgumentList.captureExact kinds (loosened nodes) =
        (ArgumentList.captureExact kinds nodes).map (fun result => (result.1.map loosenedBlock, result.2)) ∧
      ∀ blocks used, ArgumentList.captureExact kinds nodes = some (blocks, used) →
        (loosened nodes).drop used = loosened (nodes.drop used) := by
  induction kinds generalizing nodes with
  | nil =>
    refine ⟨rfl, fun blocks used found => ?_⟩
    cases found
    rfl
  | cons kind kinds ih =>
    have blanks :
        (loosened nodes).drop (Node.leadingBlanks nodes) = loosened (nodes.drop (Node.leadingBlanks nodes)) := by
      refine drop_loosened _ fun node member => loosened_blank ?_
      rw [Node.leadingBlanks, ← List.prefix_iff_eq_take.mp (List.takeWhile_prefix _)] at member
      exact List.mem_takeWhile_imp member
    cases leads : Node.leadingBlock kind (nodes.drop (Node.leadingBlanks nodes)) with
    | none =>
      simp only [ArgumentList.captureExact, leadingBlanks_loosened, blanks, leadingBlock_loosened, leads]
      exact ⟨rfl, fun blocks used found => by cases found⟩
    | some block =>
      obtain ⟨rest, split⟩ := Node.leadingBlock_eq leads
      have behind : (loosened nodes).drop (Node.leadingBlanks nodes + 1) =
          loosened (nodes.drop (Node.leadingBlanks nodes + 1)) := by
        rw [← List.drop_drop, blanks, ← List.drop_drop, split]
        rfl
      obtain ⟨same, after⟩ := ih (nodes.drop (Node.leadingBlanks nodes + 1))
      simp only [ArgumentList.captureExact, leadingBlanks_loosened, blanks, leadingBlock_loosened, leads, behind, same]
      cases further : ArgumentList.captureExact kinds (nodes.drop (Node.leadingBlanks nodes + 1)) with
      | none => exact ⟨rfl, fun blocks used found => by cases found⟩
      | some result =>
        refine ⟨rfl, fun blocks used found => ?_⟩
        cases found
        rw [← List.drop_drop, behind, after _ _ further, List.drop_drop]

theorem capture_loosened (arguments : ArgumentList) (nodes : List Node) :
    arguments.capture (loosened nodes) =
        (arguments.capture nodes).map (fun result => (result.1.map loosenedBlock, result.2)) ∧
      ∀ blocks used, arguments.capture nodes = some (blocks, used) →
        (loosened nodes).drop used = loosened (nodes.drop used) := by
  unfold ArgumentList.capture
  cases arguments.shape with
  | none =>
    refine ⟨rfl, fun blocks used found => ?_⟩
    cases found
    rfl
  | greedy =>
    refine ⟨by simp [leadingCurly_loosened], fun blocks used found => ?_⟩
    cases found
    refine drop_loosened _ fun node member => ?_
    rw [Node.leadingCurly_take] at member
    obtain ⟨block, _, rfl⟩ := List.mem_map.mp member
    exact ⟨_, rfl⟩
  | exact => exact captureExact_loosened arguments.brackets nodes
  | unknown code => exact ⟨rfl, fun blocks used found => by cases found⟩

end Stream

section Scan

/-- What stands attached to an identifier, if this is all that may. -/
structure Head.Simple (head : Head) : Prop where
  options : head.options = none
  attributes : head.attributes = none
  attached : ∀ block ∈ head.attached, BlockSimple true block
  rules : head.rules = []

theorem head_simple {node : Node} {head : Head} (heads : head? node = some head) (simple : node.Simple true) :
    Head.Simple head ∧ node.loosened = .ident head.ident :: (head.attached.map loosenedBlock).map .bracket := by
  cases node with
  | ident ident =>
    cases heads
    exact ⟨⟨rfl, rfl, by simp, rfl⟩, rfl⟩
  | tag tag =>
    obtain ⟨ident, options, attributes, args, rules⟩ := tag
    cases heads
    obtain ⟨_, _, rfl, rfl, blocks, rfl⟩ := simple
    exact ⟨⟨rfl, rfl, blocksSimple_iff.mp blocks, rfl⟩, by rw [Node.loosened, loosenedBlocks_eq]⟩
  | _ => cases heads

/-- Without square blocks nothing is offered but the blocks that are attached. -/
theorem offer_simple (declaration : Declaration) {head : Head} {rest : List Node} (options : head.options = none)
    (attributes : head.attributes = none) (simple : Simple true rest) :
    offer declaration head rest = ⟨none, head.attached, 0⟩ := by
  have unsquared : Node.leadingBlock .square (rest.drop (Node.leadingBlanks rest)) = none :=
    (simple.sublist (List.drop_sublist ..)).no_square
  simp [offer, options, attributes, unsquared]

theorem convert_loosened (declaration : Declaration) (converter : Converter) (ident : Ident)
    (args : List (Block Node)) (scope : Scope) :
    (convert declaration converter ident none args scope).loosened =
      [convert declaration converter ident none (args.map loosenedBlock) scope] := by
  cases converter <;> simp only [convert, Node.loosened, Block.synthesized, loosenedBlock, loosened_brackets]

theorem convert_simple (declaration : Declaration) (converter : Converter) (ident : Ident)
    {args : List (Block Node)} (scope : Scope) (simple : ∀ block ∈ args, BlockSimple true block) :
    (convert declaration converter ident none args scope).Simple true := by
  have inside := simple_brackets.mpr simple
  cases converter with
  | command | fragment => exact inside
  | block => exact ⟨by decide, inside⟩
  | name | scope => trivial

/-- Two invocations with the same arguments, the first of which found in `stream` what the second found attached and in
`rest`. What the second leaves behind its node is still there for the first to pass over. -/
structure Resolve.Production.Loosens (stream rest : List Node) (loose attached : Production) : Prop where
  args : loose.args = attached.args
  left : ∃ node, ∃ blocks : List (Block Node), attached.nodes = node :: blocks.map .bracket ∧
    loose.nodes = node.loosened ∧ node.Simple true ∧ (∀ block ∈ blocks, BlockSimple true block) ∧
    stream.drop loose.used = loosened (blocks.map .bracket ++ rest.drop attached.used)

theorem produce_loosened (declaration : Declaration) {head : Head} {rest : List Node} (scope : Scope)
    (arguments : ArgumentList) (plain : Head.Simple head) (simple : Simple true rest) :
    Option.Rel (Production.Loosens (loosened (head.attached.map .bracket ++ rest)) rest)
      (produce declaration { ident := head.ident } ⟨none, [], 0⟩ (loosened (head.attached.map .bracket ++ rest)) scope
        arguments)
      (produce declaration head ⟨none, head.attached, 0⟩ rest scope arguments) := by
  obtain ⟨same, behind⟩ := capture_loosened arguments (head.attached.map .bracket ++ rest)
  have stream : Simple true (head.attached.map .bracket ++ rest) := (simple_brackets.mpr plain.attached).append simple
  have unruled : ∀ count, Rule.leadingWhere (rest.drop count) = none :=
    fun count => (simple.sublist (List.drop_sublist ..)).no_where
  simp only [produce, List.map_nil, List.nil_append, List.drop_zero, same]
  cases captured : arguments.capture (head.attached.map .bracket ++ rest) with
  | none => exact .none
  | some result =>
    obtain ⟨args, taken⟩ := result
    have after := behind args taken captured
    have loose : Rule.leadingWhere ((loosened (head.attached.map .bracket ++ rest)).drop taken) = none :=
      ((loosened_simple _ stream).sublist (List.drop_sublist ..)).no_where
    have inside : ∀ block ∈ args, BlockSimple true block :=
      simple_brackets.mp ((stream.sublist (List.take_sublist ..)).sublist (ArgumentList.capture_sublist captured))
    refine .some ⟨by simp, convert declaration arguments.converter head.ident none args scope,
      head.attached.drop taken, ?_, ?_, convert_simple _ _ _ _ inside, ?_, ?_⟩
    · simp [unruled, plain.rules]
    · simp [loose, convert_loosened]
    · exact fun block member => plain.attached block (List.mem_of_mem_drop member)
    · simp only [loose, unruled, ite_self, Option.getD_none, Nat.add_zero, Nat.sub_zero, List.length_nil, Nat.zero_add]
      rw [after, List.drop_append, List.length_map, List.map_drop]

theorem findSome?_related {α β γ : Type} {relation : β → γ → Prop} {first : α → Option β} {second : α → Option γ}
    {items : List α} (related : ∀ item, Option.Rel relation (first item) (second item)) :
    Option.Rel relation (items.findSome? first) (items.findSome? second) := by
  induction items with
  | nil => exact .none
  | cons item items ih =>
    rw [List.findSome?_cons, List.findSome?_cons]
    have same := related item
    generalize first item = left, second item = right at same ⊢
    cases same with
    | some same => exact .some same
    | none => exact ih

theorem invoke_loosened (registry : Registry) (scope : Scope) {head : Head} {rest : List Node}
    (plain : Head.Simple head) (simple : Simple true rest) :
    Option.Rel (Production.Loosens (loosened (head.attached.map .bracket ++ rest)) rest)
      (invoke registry scope { ident := head.ident } (loosened (head.attached.map .bracket ++ rest)))
      (invoke registry scope head rest) := by
  have stream : Simple true (head.attached.map .bracket ++ rest) := (simple_brackets.mpr plain.attached).append simple
  rw [invoke_eq, invoke_eq]
  refine findSome?_related fun choice => ?_
  unfold attempt
  rw [offer_simple choice.1 rfl rfl (loosened_simple _ stream),
    offer_simple choice.1 plain.options plain.attributes simple]
  dsimp only
  split
  · exact produce_loosened choice.1 scope choice.2 plain simple
  · exact .none

theorem scanFrom_eq_drop (registry : Registry) (scope : Scope) (skip : Nat) (nodes : List Node) :
    scanFrom registry scope skip nodes = scanFrom registry scope 0 (nodes.drop skip) := by
  induction skip generalizing nodes with
  | zero => rfl
  | succ skip ih =>
    cases nodes with
    | nil => simp [scanFrom]
    | cons node rest => rw [scanFrom, ih, List.drop_succ_cons]

theorem scan_brackets (registry : Registry) (scope : Scope) (blocks : List (Block Node)) (nodes : List Node) :
    scanFrom registry scope 0 (blocks.map .bracket ++ nodes) =
      (blocks.map .bracket ++ (scanFrom registry scope 0 nodes).1, (scanFrom registry scope 0 nodes).2) := by
  induction blocks with
  | nil => rfl
  | cons block blocks ih =>
    rw [List.map_cons, List.cons_append, scanFrom]
    simp only [head?, ih, List.cons_append]

theorem loosened_cons {node : Node} {rest : List Node} {ident : Ident} {blocks : List (Block Node)}
    (spelt : node.loosened = .ident ident :: (blocks.map loosenedBlock).map .bracket) :
    loosened (node :: rest) = .ident ident :: loosened (blocks.map .bracket ++ rest) := by
  rw [loosened, spelt, loosened_append, loosened_brackets, List.cons_append]

/-- A scan of what is written out leaves what the scan of the list leaves, written out, and reports the same. -/
theorem scan_loosened (registry : Registry) (scope : Scope) (skip : Nat) {nodes : List Node}
    (simple : Simple true nodes) :
    scanFrom registry scope 0 (loosened (nodes.drop skip)) =
        (loosened (scanFrom registry scope skip nodes).1, (scanFrom registry scope skip nodes).2) ∧
      Simple true (scanFrom registry scope skip nodes).1 := by
  fun_induction scanFrom registry scope skip nodes with
  | case1 => simp [loosened, scanFrom, Simple]
  | case2 skip node rest ih => exact ih simple.2
  | case3 node rest unnamed scanned events same ih =>
    obtain ⟨further, kept⟩ := ih simple.2
    rw [same] at further kept
    obtain ⟨other, alone, nameless⟩ : ∃ other, node.loosened = [other] ∧ head? other = none := by
      cases node with
      | ident | tag => cases unnamed
      | _ => exact ⟨_, rfl, rfl⟩
    refine ⟨?_, simple.1, kept⟩
    rw [List.drop_zero, loosened, loosened, alone, List.singleton_append, List.singleton_append, scanFrom, nameless]
    exact congrArg (fun result => (other :: result.1, result.2)) further
  | case4 node rest head named production found scanned events same ih =>
    obtain ⟨further, kept⟩ := ih simple.2
    rw [same] at further kept
    obtain ⟨plain, spelt⟩ := head_simple named simple.1
    have alike := invoke_loosened registry scope plain simple.2
    rw [found] at alike
    rw [List.drop_zero, loosened_cons spelt, scanFrom]
    simp only [head?]
    generalize invoke registry scope { ident := head.ident } _ = invoked at alike ⊢
    cases alike with
    | some alike =>
      rename_i loose
      obtain ⟨args, made, blocks, left, produced, first, others, behind⟩ := alike
      have after : scanFrom registry scope loose.used (loosened (head.attached.map .bracket ++ rest)) =
          ((blocks.map loosenedBlock).map .bracket ++ loosened scanned, events) := by
        rw [scanFrom_eq_drop, behind, loosened_append, loosened_brackets, scan_brackets, further]
      dsimp only
      rw [after, left, produced, args]
      refine ⟨?_, first, (simple_brackets.mpr others).append kept⟩
      simp only [List.cons_append, loosened, loosened_append, loosened_brackets]
  | case5 node rest head named unfit scanned events same ih =>
    obtain ⟨further, kept⟩ := ih simple.2
    rw [same] at further kept
    obtain ⟨plain, spelt⟩ := head_simple named simple.1
    have alike := invoke_loosened registry scope plain simple.2
    rw [unfit] at alike
    refine ⟨?_, simple.1, kept⟩
    rw [List.drop_zero, loosened_cons spelt, scanFrom]
    simp only [head?]
    generalize invoke registry scope { ident := head.ident } _ = invoked at alike ⊢
    cases alike with
    | none =>
      dsimp only
      rw [loosened_append, loosened_brackets, scan_brackets, ← rest.drop_zero, further, loosened, spelt]
      rfl

end Scan

section Resolution

theorem gather_append {α : Type} (outcomes others : List (Option (α × List ResolveEvent))) :
    gather (outcomes ++ others) = (gather outcomes).bind fun first =>
      (gather others).map fun second => (first.1 ++ second.1, first.2 ++ second.2) := by
  induction outcomes with
  | nil => simp [gather]
  | cons outcome outcomes ih =>
    rw [List.cons_append, gather, gather, ih]
    cases outcome with
    | none => rfl
    | some value =>
      cases gather outcomes with
      | none => rfl
      | some first => cases gather others <;> simp

/-- Two resolvers of which the first, on what is written out, does what the second does. -/
def Writes (loose attached : Scope → List Node → Option (List Node × List ResolveEvent)) : Prop :=
  ∀ scope nodes, Simple true nodes →
    loose scope (loosened nodes) = (attached scope nodes).map fun result => (loosened result.1, result.2)

variable {loose attached : Scope → List Node → Option (List Node × List ResolveEvent)}

theorem gather_blocks (writes : Writes loose attached) (scope : Scope) {blocks : List (Block Node)}
    (simple : ∀ block ∈ blocks, BlockSimple true block) :
    gather (((blocks.map loosenedBlock).map .bracket).map (descend loose scope)) =
      (gather (blocks.map fun block => (attached scope block.children).map fun (children, events) =>
        ({ block with children }, events))).map
        fun result => ((result.1.map loosenedBlock).map .bracket, result.2) := by
  induction blocks with
  | nil => rfl
  | cons block blocks ih =>
    obtain ⟨first, others⟩ := List.forall_mem_cons.mp simple
    have inside := writes scope block.children (blockSimple_iff.mp first).2
    obtain ⟨kind, opening, closing, children⟩ := block
    simp only [List.map_cons, gather, ih others, loosenedBlock, descend] at inside ⊢
    rw [inside]
    cases attached scope children with
    | none => rfl
    | some result => cases gather _ <;> rfl

theorem descend_loosened (writes : Writes loose attached) (scope : Scope) {node : Node} (simple : node.Simple true) :
    gather (node.loosened.map (descend loose scope)) =
      (descend attached scope node).map fun result => (result.1.loosened, result.2) := by
  cases node with
  | bracket block =>
    obtain ⟨kind, opening, closing, children⟩ := block
    simp only [Node.loosened, loosenedBlock, List.map_cons, List.map_nil, gather, descend,
      writes scope children simple.2]
    cases attached scope children <;> simp [Node.loosened, loosenedBlock]
  | quotation opening closing children | fragment children =>
    simp only [Node.loosened, List.map_cons, List.map_nil, gather, descend, writes scope children simple]
    cases attached scope children <;> simp [Node.loosened]
  | command command =>
    obtain ⟨ident, attributes, args, declaration, rules⟩ := command
    simp only [Node.loosened, List.map_cons, List.map_nil, gather, descend, writes _ args simple]
    cases attached _ args <;> simp [Node.loosened]
  | tag tag =>
    obtain ⟨ident, options, attributes, args, rules⟩ := tag
    obtain ⟨_, _, rfl, rfl, blocks, rfl⟩ := simple
    have same := gather_blocks writes scope (blocksSimple_iff.mp blocks)
    simp only [Node.loosened, loosenedBlocks_eq, List.map_cons, gather, same, descend]
    cases gather _ <;> simp [Node.loosened, loosenedBlocks_eq]
  | hole | text | symbol | ident | stray | drawing => simp [Node.loosened, gather, descend]

theorem gather_loosened (writes : Writes loose attached) (scope : Scope) {nodes : List Node}
    (simple : Simple true nodes) :
    gather ((loosened nodes).map (descend loose scope)) =
      (gather (nodes.map (descend attached scope))).map fun result => (loosened result.1, result.2) := by
  induction nodes with
  | nil => rfl
  | cons node rest ih =>
    rw [loosened, List.map_append, gather_append, descend_loosened writes scope simple.1, ih simple.2, List.map_cons,
      gather]
    cases descend attached scope node with
    | none => rfl
    | some result => cases gather _ <;> rfl

theorem resolve_loosened (registry : Registry) (depth : Nat) :
    Writes (resolve registry depth) (resolve registry depth) := by
  induction depth with
  | zero => exact fun scope nodes simple => rfl
  | succ depth ih =>
    intro scope nodes simple
    obtain ⟨scans, kept⟩ := scan_loosened registry scope 0 simple
    rw [List.drop_zero] at scans
    rw [resolve, resolve, scans]
    simp only [gather_loosened ih scope kept]
    cases gather _ <;> rfl

end Resolution

section Ending

mutual

theorem Node.unranked_of_simple (node : Node) (simple : node.Simple true) : ⊤ ∉ node.burden := by
  cases node with
  | bracket block => exact blockUnranked_of_simple block simple
  | quotation opening closing children | fragment children =>
    simpa [Node.burden] using unranked_of_simple children simple
  | tag tag =>
    obtain ⟨ident, options, attributes, args, rules⟩ := tag
    obtain ⟨_, named, rfl, rfl, blocks, rfl⟩ := simple
    simpa [Node.burden, Ident.mark, named, optionsBurden, rulesBurden] using blocksUnranked_of_simple args blocks
  | command command =>
    obtain ⟨ident, attributes, args, declaration, rules⟩ := command
    simpa [Node.burden] using unranked_of_simple args simple
  | ident ident => simp [Node.burden, Ident.mark, show ident.name ≠ Rule.whereIdent from simple]
  | hole | text | symbol | stray | drawing => simp [Node.burden]
termination_by structural node

/-- Without where blocks no rule can reach into another one. -/
theorem unranked_of_simple (nodes : List Node) (simple : Simple true nodes) : ⊤ ∉ burden nodes := by
  cases nodes with
  | nil => simp [burden]
  | cons node rest =>
    simpa [burden] using ⟨Node.unranked_of_simple node simple.1, unranked_of_simple rest simple.2⟩
termination_by structural nodes

theorem blockUnranked_of_simple (block : Block Node) (simple : BlockSimple true block) : ⊤ ∉ blockBurden block := by
  obtain ⟨kind, opening, closing, children⟩ := block
  simpa [blockBurden] using unranked_of_simple children simple.2
termination_by structural block

theorem blocksUnranked_of_simple (blocks : List (Block Node)) (simple : BlocksSimple true blocks) :
    ⊤ ∉ blocksBurden blocks := by
  cases blocks with
  | nil => simp [blocksBurden]
  | cons block rest =>
    simpa [blocksBurden] using ⟨blockUnranked_of_simple block simple.1, blocksUnranked_of_simple rest simple.2⟩
termination_by structural blocks

end

end Ending

/-- Where neither an option list nor a where block is written, a source resolves as it is parsed to what it resolves to
as it is normalized, with every tag that is left written out as its identifier with its arguments behind it; and the
same is reported about it. -/
theorem resolution_loosens (registry : Registry) (scope : Scope) (source : Bytes)
    (unsquared : '[' ∉ (Utf8.decode source).map Glyph.char)
    (whereless : ¬Rule.whereIdent.toList <:+: (Utf8.decode source).map Glyph.char) :
    ∃ bound nodes events, ∀ depth, bound ≤ depth →
      resolve registry depth scope (normalize (Parse.ofBytes source)) = some (nodes, events) ∧
        resolve registry depth scope (Parse.ofBytes source) = some (loosened nodes, events) := by
  obtain ⟨same, simple⟩ := loosened_normalize (ofBytes_simple unsquared whereless)
  have fits : unnested (normalize (Parse.ofBytes source)) = true :=
    unnested_of_calm _ (unranked_of_simple _ simple)
  obtain ⟨bound, ⟨nodes, events⟩, found⟩ : Ends registry scope (normalize (Parse.ofBytes source)) :=
    (ends_iff_acc ..).mpr (descent_acc registry (scope, _) fits)
  refine ⟨bound, nodes, events, fun depth deep => ⟨found depth deep, ?_⟩⟩
  have written := resolve_loosened registry depth scope _ simple
  rw [same, found depth deep] at written
  exact written

namespace Sample

/-- Blocks that are attached and not taken, blocks behind a blank, and a name without a declaration. -/
def scattered : String :=
  "\\frac" ++ curly "1" ++ " " ++ curly ("\\nope" ++ curly "2" ++ curly "\\i" ++ " ") ++ "\\b" ++ curly "x" ++ curly "y"

end Sample

theorem resolution_loosens_scattered :
    '[' ∉ (Utf8.decode (Utf8.encode Sample.scattered)).map Glyph.char ∧
    ¬Rule.whereIdent.toList <:+: (Utf8.decode (Utf8.encode Sample.scattered)).map Glyph.char ∧
    ∃ bound nodes events, ∀ depth, bound ≤ depth →
      resolve Builtin.registry depth (.top "doc.ss") (normalize (Parse.ofString Sample.scattered)) =
          some (nodes, events) ∧
        resolve Builtin.registry depth (.top "doc.ss") (Parse.ofString Sample.scattered) =
          some (loosened nodes, events) := by
  have unsquared : '[' ∉ (Utf8.decode (Utf8.encode Sample.scattered)).map Glyph.char := by
    rw [Utf8.decode_encode]
    decide +kernel
  have whereless : ¬Rule.whereIdent.toList <:+: (Utf8.decode (Utf8.encode Sample.scattered)).map Glyph.char := by
    rw [Utf8.decode_encode]
    decide +kernel
  exact ⟨unsquared, whereless, resolution_loosens Builtin.registry (.top "doc.ss") _ unsquared whereless⟩

end Manuscript
