import Manuscript.Proofs.Idempotence
import Manuscript.Proofs.LooseArguments

/-! Where a node stands in the source has no part in what it resolves to. Places can be forgotten before normalization,
before resolution or after it, and the same is left and reported. -/

namespace Manuscript

mutual

/-- A node with its places forgotten. What an attribute list holds was read from its options and has no place. -/
def Node.unspanned : Node → Node
  | .hole => .hole
  | .text value _ => .text value {}
  | .symbol value _ => .symbol value {}
  | .ident ident => .ident { name := ident.name }
  | .stray token => .stray token.unplaced
  | .bracket block => .bracket (blockUnspanned block)
  | .quotation opening closing children =>
    .quotation (opening.map Token.unplaced) (closing.map Token.unplaced) (unspanned children)
  | .fragment children => .fragment (unspanned children)
  | .drawing drawing => .drawing drawing
  | .tag ⟨ident, options, attributes, args, rules⟩ =>
    .tag ⟨{ name := ident.name }, optionsUnspanned options, attributes, blocksUnspanned args, rulesUnspanned rules⟩
  | .command ⟨ident, attributes, args, declaration, rules⟩ =>
    .command ⟨{ name := ident.name }, attributes, unspanned args, declaration, rulesUnspanned rules⟩
termination_by structural node => node

def unspanned : List Node → List Node
  | [] => []
  | node :: rest => node.unspanned :: unspanned rest
termination_by structural nodes => nodes

def blockUnspanned : Block Node → Block Node
  | ⟨kind, opening, closing, children⟩ =>
    ⟨kind, opening.map Token.unplaced, closing.map Token.unplaced, unspanned children⟩
termination_by structural block => block

def optionsUnspanned : Option (Block Node) → Option (Block Node)
  | none => none
  | some block => some (blockUnspanned block)
termination_by structural options => options

def blocksUnspanned : List (Block Node) → List (Block Node)
  | [] => []
  | block :: rest => blockUnspanned block :: blocksUnspanned rest
termination_by structural blocks => blocks

def rulesUnspanned : List (Rule Node) → List (Rule Node)
  | [] => []
  | ⟨pattern, target⟩ :: rest => ⟨unspanned pattern, unspanned target⟩ :: rulesUnspanned rest
termination_by structural rules => rules

end

def Rule.unspanned (rule : Rule Node) : Rule Node :=
  ⟨Manuscript.unspanned rule.pattern, Manuscript.unspanned rule.target⟩

section Lists

theorem unspanned_eq_map (nodes : List Node) : unspanned nodes = nodes.map Node.unspanned := by
  induction nodes with
  | nil => rfl
  | cons node nodes ih => rw [unspanned, ih, List.map_cons]

theorem blocksUnspanned_eq_map (blocks : List (Block Node)) : blocksUnspanned blocks = blocks.map blockUnspanned := by
  induction blocks with
  | nil => rfl
  | cons block blocks ih => rw [blocksUnspanned, ih, List.map_cons]

theorem rulesUnspanned_eq_map (rules : List (Rule Node)) : rulesUnspanned rules = rules.map Rule.unspanned := by
  induction rules with
  | nil => rfl
  | cons rule rules ih => rw [rulesUnspanned, ih, List.map_cons]; rfl

theorem optionsUnspanned_eq_map (options : Option (Block Node)) :
    optionsUnspanned options = options.map blockUnspanned := by
  cases options <;> rfl

@[simp] theorem unspanned_append (nodes others : List Node) :
    unspanned (nodes ++ others) = unspanned nodes ++ unspanned others := by
  simp only [unspanned_eq_map, List.map_append]

theorem unspanned_drop (count : Nat) (nodes : List Node) :
    unspanned (nodes.drop count) = (unspanned nodes).drop count := by
  simp only [unspanned_eq_map, List.map_drop]

@[simp] theorem unspanned_length (nodes : List Node) : (unspanned nodes).length = nodes.length := by
  rw [unspanned_eq_map, List.length_map]

@[simp] theorem unspanned_brackets (blocks : List (Block Node)) :
    unspanned (blocks.map .bracket) = (blocks.map blockUnspanned).map .bracket := by
  rw [unspanned_eq_map, List.map_map, List.map_map]
  rfl

@[simp] theorem blockUnspanned_kind (block : Block Node) : (blockUnspanned block).kind = block.kind := by
  cases block
  rfl

@[simp] theorem blockUnspanned_children (block : Block Node) :
    (blockUnspanned block).children = unspanned block.children := by
  cases block
  rfl

@[simp] theorem textOf_unplaced (token : Option Token) :
    Token.textOf (token.map Token.unplaced) = Token.textOf token := by
  cases token <;> rfl

end Lists

section Parsed

mutual

theorem Node.unspanned_unplaced (node : Node) : node.unplaced.unspanned = node.unspanned := by
  match node with
  | .bracket block => rw [Node.unplaced, Node.unspanned, Node.unspanned, blockUnspanned_unplaced block]
  | .quotation opening closing children =>
    rw [Node.unplaced, Node.unspanned, Node.unspanned, unspanned_unplaced children, Option.map_map, Option.map_map]
    rfl
  | .hole | .text _ _ | .symbol _ _ | .ident _ | .stray _ | .fragment _ | .drawing _ | .tag _ | .command _ => rfl
termination_by structural node

/-- Places that are forgotten in a parsed tree can be forgotten again. -/
theorem unspanned_unplaced (nodes : List Node) : unspanned (unplaced nodes) = unspanned nodes := by
  match nodes with
  | [] => rfl
  | node :: rest =>
    rw [unplaced, unspanned, unspanned, Node.unspanned_unplaced node, unspanned_unplaced rest]
termination_by structural nodes

theorem blockUnspanned_unplaced (block : Block Node) : blockUnspanned (blockUnplaced block) = blockUnspanned block := by
  match block with
  | ⟨kind, opening, closing, children⟩ =>
    rw [blockUnplaced, blockUnspanned, blockUnspanned, unspanned_unplaced children, Option.map_map, Option.map_map]
    rfl
termination_by structural block

end

end Parsed

section Alike

mutual

theorem Node.alike_unspanned (node other : Node) : node.unspanned.alike other.unspanned = node.alike other := by
  match node with
  | .bracket block =>
    cases other with
    | bracket other => exact blockAlike_unspanned block other
    | _ => rfl
  | .quotation opening closing children =>
    cases other with
    | quotation opening' closing' others =>
      simp only [Node.unspanned, Node.alike, textOf_unplaced, alike_unspanned children others]
    | _ => rfl
  | .fragment children =>
    cases other with
    | fragment others => exact alike_unspanned children others
    | _ => rfl
  | .tag ⟨ident, options, attributes, args, rules⟩ =>
    cases other with
    | tag other =>
      obtain ⟨ident', options', attributes', others, rules'⟩ := other
      simp only [Node.unspanned, Node.alike, blocksAlike_unspanned args others]
    | _ => rfl
  | .command ⟨ident, attributes, args, declaration, rules⟩ =>
    cases other with
    | command other =>
      obtain ⟨ident', attributes', others, declaration', rules'⟩ := other
      simp only [Node.unspanned, Node.alike, alike_unspanned args others]
    | _ => rfl
  | .hole | .text _ _ | .symbol _ _ | .ident _ | .stray _ | .drawing _ => cases other <;> rfl
termination_by structural node

theorem alike_unspanned (nodes others : List Node) :
    alike (unspanned nodes) (unspanned others) = alike nodes others := by
  match nodes, others with
  | [], [] | [], _ :: _ | _ :: _, [] => rfl
  | node :: rest, other :: more =>
    simp only [unspanned, alike, Node.alike_unspanned node other, alike_unspanned rest more]
termination_by structural nodes

theorem blockAlike_unspanned (block other : Block Node) :
    blockAlike (blockUnspanned block) (blockUnspanned other) = blockAlike block other := by
  match block with
  | ⟨kind, opening, closing, children⟩ =>
    obtain ⟨kind', opening', closing', others⟩ := other
    simp only [blockUnspanned, blockAlike, textOf_unplaced, alike_unspanned children others]
termination_by structural block

theorem blocksAlike_unspanned (blocks others : List (Block Node)) :
    blocksAlike (blocksUnspanned blocks) (blocksUnspanned others) = blocksAlike blocks others := by
  match blocks, others with
  | [], [] | [], _ :: _ | _ :: _, [] => rfl
  | block :: rest, other :: more =>
    simp only [blocksUnspanned, blocksAlike, blockAlike_unspanned block other, blocksAlike_unspanned rest more]
termination_by structural blocks

end

end Alike

section Read

mutual

theorem Node.flatten_unspanned (node : Node) : node.unspanned.flatten = node.flatten := by
  match node with
  | .bracket ⟨_, _, _, children⟩ =>
    simp only [Node.unspanned, blockUnspanned, Node.flatten, textOf_unplaced, flatten_unspanned children]
  | .quotation _ _ children | .fragment children => exact flatten_unspanned children
  | .tag ⟨_, _, _, args, _⟩ => exact flattenBlocks_unspanned args
  | .command ⟨_, _, args, _, _⟩ => exact flattenBody_unspanned args
  | .hole | .text _ _ | .symbol _ _ | .ident _ | .stray _ | .drawing _ => rfl
termination_by structural node

theorem flatten_unspanned (nodes : List Node) : flatten (unspanned nodes) = flatten nodes := by
  match nodes with
  | [] => rfl
  | node :: rest => rw [unspanned, flatten, flatten, Node.flatten_unspanned node, flatten_unspanned rest]
termination_by structural nodes

theorem flattenBlocks_unspanned (blocks : List (Block Node)) :
    flattenBlocks (blocksUnspanned blocks) = flattenBlocks blocks := by
  match blocks with
  | [] => rfl
  | ⟨_, _, _, children⟩ :: rest =>
    rw [blocksUnspanned, blockUnspanned, flattenBlocks, flattenBlocks, flatten_unspanned children,
      flattenBlocks_unspanned rest]
termination_by structural blocks

theorem flattenBody_unspanned (nodes : List Node) : flattenBody (unspanned nodes) = flattenBody nodes := by
  match nodes with
  | [] => rfl
  | .bracket ⟨kind, opening, closing, children⟩ :: rest =>
    cases kind <;>
      simp only [unspanned, Node.unspanned, blockUnspanned, flattenBody, Node.flatten, textOf_unplaced,
        flatten_unspanned children, flattenBody_unspanned rest]
  | .quotation _ _ children :: rest | .fragment children :: rest =>
    simp only [unspanned, Node.unspanned, flattenBody, Node.flatten, flatten_unspanned children,
      flattenBody_unspanned rest]
  | .tag ⟨_, _, _, args, _⟩ :: rest =>
    simp only [unspanned, Node.unspanned, flattenBody, Node.flatten, flattenBlocks_unspanned args,
      flattenBody_unspanned rest]
  | .command ⟨_, _, args, _, _⟩ :: rest =>
    simp only [unspanned, Node.unspanned, flattenBody, Node.flatten, flattenBody_unspanned args,
      flattenBody_unspanned rest]
  | .hole :: rest | .text _ _ :: rest | .symbol _ _ :: rest | .ident _ :: rest | .stray _ :: rest
  | .drawing _ :: rest =>
    simp only [unspanned, Node.unspanned, Token.unplaced, flattenBody, Node.flatten, flattenBody_unspanned rest]
termination_by structural nodes

end

end Read

section Attributes

open Attributes

theorem isSymbol_unspanned (text : String) (node : Node) : isSymbol text node.unspanned = isSymbol text node := by
  cases node <;> rfl

theorem splitAt_unspanned (separator : String) (nodes : List Node) :
    Attributes.splitAt separator (unspanned nodes) = (Attributes.splitAt separator nodes).map unspanned := by
  induction nodes with
  | nil => rfl
  | cons node nodes ih =>
    rw [unspanned, Attributes.splitAt, Attributes.splitAt, isSymbol_unspanned, ih]
    split
    · rfl
    · cases Attributes.splitAt separator nodes <;> rfl

theorem cut_unspanned (separator : String) (nodes : List Node) :
    cut separator (unspanned nodes) =
      (unspanned (cut separator nodes).1, (cut separator nodes).2.map unspanned) := by
  have same : (fun node => !isSymbol separator node) ∘ Node.unspanned = fun node => !isSymbol separator node :=
    funext fun node => congrArg (!·) (isSymbol_unspanned separator node)
  unfold cut
  rw [unspanned_eq_map, List.dropWhile_map, List.takeWhile_map, same]
  cases nodes.dropWhile (!isSymbol separator ·) with
  | nil => simp [unspanned_eq_map]
  | cons node after => simp [unspanned_eq_map]

/-- What an option list says does not depend on where it stands. -/
theorem parse_unspanned (nodes : List Node) : Attributes.parse (unspanned nodes) = Attributes.parse nodes := by
  have each (items : Attributes) (segment : List Node) :
      insertSegment items (unspanned segment) = insertSegment items segment := by
    unfold insertSegment
    rw [cut_unspanned]
    cases cut "=" segment with
    | mk key value => cases value <;> simp only [flatten_unspanned, Option.map_none, Option.map_some]
  unfold Attributes.parse
  rw [splitAt_unspanned, List.foldl_map]
  simp only [each]

end Attributes

section Neighbours

open Node

@[simp] theorem isBlank_unspanned (node : Node) : node.unspanned.isBlank = node.isBlank := by cases node <;> rfl

theorem leadingBlanks_unspanned (nodes : List Node) : leadingBlanks (unspanned nodes) = leadingBlanks nodes := by
  have same : isBlank ∘ Node.unspanned = isBlank := funext isBlank_unspanned
  rw [leadingBlanks, leadingBlanks, unspanned_eq_map, List.takeWhile_map, List.length_map, same]

theorem leadingBlock_unspanned (kind : BracketKind) (nodes : List Node) :
    leadingBlock kind (unspanned nodes) = (leadingBlock kind nodes).map blockUnspanned := by
  cases nodes with
  | nil => rfl
  | cons node nodes =>
    cases node with
    | bracket block =>
      rw [unspanned, Node.unspanned, leadingBlock, leadingBlock, blockUnspanned_kind]
      split <;> rfl
    | _ => rfl

theorem leadingCurly_unspanned (nodes : List Node) :
    leadingCurly (unspanned nodes) = (leadingCurly nodes).map blockUnspanned := by
  induction nodes with
  | nil => rfl
  | cons node nodes ih =>
    cases node with
    | bracket block =>
      rw [unspanned, Node.unspanned, leadingCurly, leadingCurly, blockUnspanned_kind, ih]
      split <;> rfl
    | _ => rfl

end Neighbours

section Rules

open Rule

def Rule.Arm.unspanned : Rule.Arm → Rule.Arm
  | .start => .start
  | .pattern nodes => .pattern (Manuscript.unspanned nodes)
  | .arrow nodes => .arrow (Manuscript.unspanned nodes)

theorem parseFrom_unspanned (arm : Arm) (nodes : List Node) :
    parseFrom arm.unspanned (unspanned nodes) = (parseFrom arm nodes).map Rule.unspanned := by
  induction nodes generalizing arm with
  | nil => cases arm <;> rfl
  | cons node nodes ih =>
    cases node with
    | bracket block =>
      obtain ⟨kind, opening, closing, children⟩ := block
      cases kind with
      | curly =>
        cases arm with
        | start | pattern => exact ih (.pattern children)
        | arrow pattern => exact congrArg (_ :: ·) (ih .start)
      | square | round => cases arm <;> exact ih .start
    | symbol value span =>
      by_cases arrow : value = "=>"
      · cases arm with
        | start => simpa [unspanned, Node.unspanned, parseFrom, Arm.unspanned, arrow] using ih .start
        | pattern pattern | arrow pattern =>
          simpa [unspanned, Node.unspanned, parseFrom, Arm.unspanned, arrow] using ih (.arrow pattern)
      · cases arm <;> simpa [unspanned, Node.unspanned, parseFrom, Arm.unspanned, arrow] using ih .start
    | text value span =>
      rw [unspanned, Node.unspanned, parseFrom, parseFrom]
      split
      · exact ih arm
      · exact ih .start
    | _ => cases arm <;> exact ih .start

theorem Rule.parse_unspanned (nodes : List Node) :
    Rule.parse (Manuscript.unspanned nodes) = (Rule.parse nodes).map Rule.unspanned :=
  parseFrom_unspanned .start nodes

theorem leadingWhere_unspanned (nodes : List Node) :
    leadingWhere (unspanned nodes) = (leadingWhere nodes).map (Prod.map (List.map Rule.unspanned) id) := by
  cases nodes with
  | nil => rfl
  | cons node rest =>
    cases node with
    | ident ident =>
      rw [unspanned, Node.unspanned, Normalize.leadingWhere_ident, Normalize.leadingWhere_ident, leadingBlock_unspanned]
      split
      · cases Node.leadingBlock .curly rest with
        | none => rfl
        | some block => simp [Rule.parse_unspanned]
      · rfl
    | tag tag =>
      obtain ⟨ident, options, attributes, args, rules⟩ := tag
      have none : (optionsUnspanned options).isNone = options.isNone := by cases options <;> rfl
      have empty : (blocksUnspanned args).isEmpty = args.isEmpty := by cases args <;> rfl
      simp only [unspanned, Node.unspanned, leadingWhere, none, empty]
      split
      · simp [blocksUnspanned_eq_map, List.flatMap_map, List.map_flatMap, Rule.parse_unspanned]
      · rfl
    | _ => rfl

theorem firstMatch_unspanned (rules : List (Rule Node)) (window : List Node) :
    firstMatch (rules.map Rule.unspanned) (unspanned window) = (firstMatch rules window).map Rule.unspanned := by
  have same : matchesAt (unspanned window) ∘ Rule.unspanned = matchesAt window := by
    funext rule
    have empty : (unspanned rule.pattern).isEmpty = rule.pattern.isEmpty := by cases rule.pattern <;> rfl
    simp only [Function.comp, matchesAt, Rule.unspanned, empty, unspanned_length]
    rw [unspanned_eq_map window, ← List.map_take, ← unspanned_eq_map, alike_unspanned]
  rw [firstMatch, firstMatch, List.find?_map, same]

mutual

theorem Node.substitute_unspanned (rules : List (Rule Node)) (node : Node) :
    node.unspanned.substitute (rules.map Rule.unspanned) = (node.substitute rules).unspanned := by
  match node with
  | .bracket block =>
    simp only [Node.unspanned, Node.substitute, substituteBlock_unspanned rules block]
  | .quotation opening closing children | .fragment children =>
    simp only [Node.unspanned, Node.substitute, substituteFrom_unspanned rules 0 children]
  | .tag ⟨ident, options, attributes, args, attached⟩ =>
    simp only [Node.unspanned, Node.substitute, substituteBlocks_unspanned rules args]
  | .command ⟨ident, attributes, args, declaration, attached⟩ =>
    simp only [Node.unspanned, Node.substitute, substituteFrom_unspanned rules 0 args]
  | .hole | .text _ _ | .symbol _ _ | .ident _ | .stray _ | .drawing _ => rfl
termination_by structural node

theorem substituteFrom_unspanned (rules : List (Rule Node)) (skip : Nat) (nodes : List Node) :
    substituteFrom (rules.map Rule.unspanned) skip (unspanned nodes) = unspanned (substituteFrom rules skip nodes) := by
  match skip, nodes with
  | _, [] => simp [unspanned, substituteFrom]
  | skip + 1, _ :: rest => exact substituteFrom_unspanned rules skip rest
  | 0, node :: rest =>
    have found := firstMatch_unspanned rules (node :: rest)
    rw [unspanned] at found ⊢
    rw [substituteFrom, substituteFrom, found]
    cases firstMatch rules (node :: rest) with
    | none =>
      rw [Option.map_none]
      simp only [unspanned, Node.substitute_unspanned rules node, substituteFrom_unspanned rules 0 rest]
    | some rule =>
      rw [Option.map_some]
      simp only [Rule.unspanned, unspanned_length, unspanned_append,
        substituteFrom_unspanned rules (rule.pattern.length - 1) rest]
termination_by structural nodes

theorem substituteBlock_unspanned (rules : List (Rule Node)) (block : Block Node) :
    substituteBlock (rules.map Rule.unspanned) (blockUnspanned block) =
      blockUnspanned (substituteBlock rules block) := by
  match block with
  | ⟨kind, opening, closing, children⟩ =>
    simp only [blockUnspanned, substituteBlock, substituteFrom_unspanned rules 0 children]
termination_by structural block

theorem substituteBlocks_unspanned (rules : List (Rule Node)) (blocks : List (Block Node)) :
    substituteBlocks (rules.map Rule.unspanned) (blocksUnspanned blocks) =
      blocksUnspanned (substituteBlocks rules blocks) := by
  match blocks with
  | [] => rfl
  | block :: rest =>
    simp only [blocksUnspanned, substituteBlocks, substituteBlock_unspanned rules block,
      substituteBlocks_unspanned rules rest]
termination_by structural blocks

end

end Rules

section Normalization

open Normalize
open Node (leadingBlock leadingCurly)

theorem leadingWheres_unspanned (nodes : List Node) :
    leadingWheres (unspanned nodes) = Prod.map (List.map Rule.unspanned) id (leadingWheres nodes) := by
  fun_induction leadingWheres nodes with
  | case1 => rfl
  | case2 node =>
    have found := leadingWhere_unspanned [node]
    rw [unspanned, unspanned] at found ⊢
    rw [leadingWheres, found]
    cases Rule.leadingWhere [node] <;> rfl
  | case3 node next rest none =>
    have found := leadingWhere_unspanned (node :: next :: rest)
    rw [none] at found
    exact leadingWheres_of_none found
  | case4 node next rest rules used found more count same ih ih' =>
    have found' := leadingWhere_unspanned (node :: next :: rest)
    rw [found] at found'
    simp only [unspanned] at found' ih ih' ⊢
    have later : (if used = 1 then leadingWheres (next.unspanned :: unspanned rest)
        else leadingWheres (unspanned rest)) = (more.map Rule.unspanned, count) := by
      rw [ih, ih', ← apply_ite (Prod.map (List.map Rule.unspanned) id), same]
      rfl
    rw [leadingWheres, found']
    simp only [Option.map_some, Prod.map, id, later, List.map_append]

/-- The tag that is made at a place, and how much it takes up. -/
def Tag.unspanned (tag : Tag Node) : Tag Node :=
  ⟨{ name := tag.ident.name }, optionsUnspanned tag.options, tag.attributes, blocksUnspanned tag.args,
    rulesUnspanned tag.rules⟩

theorem attach_unspanned (tag : Tag Node) (rest : List Node) :
    attach (Tag.unspanned tag) (unspanned rest) = (attach tag rest).map (Prod.map Tag.unspanned id) := by
  obtain ⟨ident, options, attributes, args, rules⟩ := tag
  have none : (optionsUnspanned options).isNone = options.isNone := by cases options <;> rfl
  have empty : (blocksUnspanned args ++ (leadingCurly rest).map blockUnspanned).isEmpty =
      (args ++ leadingCurly rest).isEmpty := by
    rw [blocksUnspanned_eq_map, ← List.map_append, List.isEmpty_map]
  rw [attach_eq, attach_eq, leadingCurly_unspanned, List.length_map, ← unspanned_drop, leadingWheres_unspanned]
  simp only [Tag.unspanned, none, empty]
  split
  · rfl
  · simp [Tag.unspanned, blocksUnspanned_eq_map, rulesUnspanned_eq_map]

theorem tagAt_unspanned (node : Node) (rest : List Node) :
    tagAt node.unspanned (unspanned rest) = (tagAt node rest).map (Prod.map Tag.unspanned id) := by
  cases node with
  | ident ident =>
    rw [Node.unspanned, tagAt, tagAt, leadingBlock_unspanned]
    cases leadingBlock .square rest with
    | none => exact attach_unspanned { ident } rest
    | some options =>
      have grown := attach_unspanned
        { ident, options := some options, attributes := some (Attributes.parse options.children) } (rest.drop 1)
      simp only [Tag.unspanned, optionsUnspanned, blocksUnspanned, rulesUnspanned] at grown
      simp only [Option.map_some, blockUnspanned_children, parse_unspanned, ← unspanned_drop, grown, Option.map_map]
      rfl
  | tag tag => exact attach_unspanned tag rest
  | _ => rfl

theorem collapseFrom_unspanned (skip : Nat) (nodes : List Node) :
    collapseFrom skip (unspanned nodes) = unspanned (collapseFrom skip nodes) := by
  fun_induction collapseFrom skip nodes with
  | case1 => simp [unspanned, collapseFrom]
  | case2 skip node rest ih => exact ih
  | case3 node rest tag used found ih =>
    rw [unspanned, collapseFrom, tagAt_unspanned, found]
    simp only [Option.map_some, Prod.map, id, ih]
    rfl
  | case4 node rest none ih =>
    rw [unspanned, collapseFrom, tagAt_unspanned, none]
    simp only [Option.map_none, ih]
    rfl

mutual

theorem Node.normalize_unspanned (node : Node) : node.unspanned.normalize = node.normalize.unspanned := by
  match node with
  | .bracket block => simp only [Node.unspanned, Node.normalize, normalizeBlock_unspanned block]
  | .quotation opening closing children | .fragment children =>
    simp only [Node.unspanned, Node.normalize, normalizeEach_unspanned children, collapseFrom_unspanned]
  | .tag ⟨ident, options, attributes, args, rules⟩ =>
    simp only [Node.unspanned, Node.normalize, normalizeBlocks_unspanned args]
  | .command ⟨ident, attributes, args, declaration, rules⟩ =>
    simp only [Node.unspanned, Node.normalize, normalizeEach_unspanned args, collapseFrom_unspanned]
  | .hole | .text _ _ | .symbol _ _ | .ident _ | .stray _ | .drawing _ => rfl
termination_by structural node

theorem normalizeEach_unspanned (nodes : List Node) :
    normalizeEach (unspanned nodes) = unspanned (normalizeEach nodes) := by
  match nodes with
  | [] => rfl
  | node :: rest =>
    simp only [unspanned, normalizeEach, Node.normalize_unspanned node, normalizeEach_unspanned rest]
termination_by structural nodes

theorem normalizeBlock_unspanned (block : Block Node) :
    normalizeBlock (blockUnspanned block) = blockUnspanned (normalizeBlock block) := by
  match block with
  | ⟨kind, opening, closing, children⟩ =>
    simp only [blockUnspanned, normalizeBlock, normalizeEach_unspanned children, collapseFrom_unspanned]
termination_by structural block

theorem normalizeBlocks_unspanned (blocks : List (Block Node)) :
    normalizeBlocks (blocksUnspanned blocks) = blocksUnspanned (normalizeBlocks blocks) := by
  match blocks with
  | [] => rfl
  | block :: rest =>
    simp only [blocksUnspanned, normalizeBlocks, normalizeBlock_unspanned block, normalizeBlocks_unspanned rest]
termination_by structural blocks

end

theorem normalize_unspanned (nodes : List Node) : normalize (unspanned nodes) = unspanned (normalize nodes) := by
  rw [normalize, normalizeEach_unspanned, collapseFrom_unspanned]
  rfl

end Normalization

namespace Resolve

/-- An identifier with what is attached to it, a declaration applied there, and what comes of it. -/
def Head.unspanned (head : Head) : Head :=
  ⟨{ name := head.ident.name }, head.options.map blockUnspanned, head.attributes, head.attached.map blockUnspanned,
    head.rules.map Rule.unspanned⟩

def Offer.unspanned (offer : Offer) : Offer :=
  ⟨offer.attributes, offer.attached.map blockUnspanned, offer.skipped⟩

def Production.unspanned (production : Production) : Production :=
  ⟨Manuscript.unspanned production.nodes, production.used, production.args⟩

theorem head?_unspanned (node : Node) : head? node.unspanned = (head? node).map Head.unspanned := by
  cases node with
  | tag tag =>
    simp [head?, Node.unspanned, Head.unspanned, optionsUnspanned_eq_map, blocksUnspanned_eq_map, rulesUnspanned_eq_map]
  | _ => rfl

theorem captureExact_unspanned (kinds : List BracketKind) (nodes : List Node) :
    ArgumentList.captureExact kinds (unspanned nodes) =
      (ArgumentList.captureExact kinds nodes).map (Prod.map (List.map blockUnspanned) id) := by
  induction kinds generalizing nodes with
  | nil => rfl
  | cons kind kinds ih =>
    rw [ArgumentList.captureExact, ArgumentList.captureExact, leadingBlanks_unspanned, ← unspanned_drop,
      ← unspanned_drop, leadingBlock_unspanned, ih]
    cases Node.leadingBlock kind (nodes.drop (Node.leadingBlanks nodes)) with
    | none => rfl
    | some block => cases ArgumentList.captureExact kinds (nodes.drop (Node.leadingBlanks nodes + 1)) <;> rfl

theorem capture_unspanned (arguments : ArgumentList) (nodes : List Node) :
    arguments.capture (unspanned nodes) = (arguments.capture nodes).map (Prod.map (List.map blockUnspanned) id) := by
  unfold ArgumentList.capture
  split
  · rfl
  · simp [leadingCurly_unspanned]
  · exact captureExact_unspanned ..
  · rfl

theorem offer_unspanned (declaration : Declaration) (head : Head) (rest : List Node) :
    offer declaration head.unspanned (unspanned rest) = (offer declaration head rest).unspanned := by
  unfold offer
  split
  · cases options : head.options <;> simp [Head.unspanned, Offer.unspanned, options]
  · simp only [Head.unspanned, Option.isNone_map, List.isEmpty_map, leadingBlanks_unspanned, ← unspanned_drop,
      leadingBlock_unspanned]
    split
    · cases Node.leadingBlock .square (rest.drop (Node.leadingBlanks rest)) with
      | none => rfl
      | some block => simp [Offer.unspanned, parse_unspanned]
    · rfl

theorem convert_unspanned (declaration : Declaration) (converter : Converter) (ident : Ident)
    (attributes : Option Attributes) (args : List (Block Node)) (scope : Scope) :
    convert declaration converter { name := ident.name } attributes (args.map blockUnspanned) scope =
      (convert declaration converter ident attributes args scope).unspanned := by
  cases converter <;>
    simp [convert, Node.unspanned, blockUnspanned, Block.synthesized, Token.unplaced, rulesUnspanned]

theorem applyRules_unspanned (rules : List (Rule Node)) (deferred : Bool) (node : Node) :
    applyRules (rules.map Rule.unspanned) deferred node.unspanned = (applyRules rules deferred node).unspanned := by
  cases node with
  | command command =>
    cases deferred <;>
      simp [applyRules, Node.unspanned, substitute, substituteFrom_unspanned, rulesUnspanned_eq_map]
  | fragment children =>
    cases deferred <;> simp [applyRules, Node.unspanned, substitute, substituteFrom_unspanned]
  | bracket block =>
    obtain ⟨kind, opening, closing, children⟩ := block
    cases deferred <;> simp [applyRules, Node.unspanned, blockUnspanned, substitute, substituteFrom_unspanned]
  | _ => rfl

theorem produce_unspanned (declaration : Declaration) (head : Head) (offer : Offer) (rest : List Node) (scope : Scope)
    (arguments : ArgumentList) :
    produce declaration head.unspanned offer.unspanned (unspanned rest) scope arguments =
      (produce declaration head offer rest scope arguments).map Production.unspanned := by
  have stream : (offer.attached.map blockUnspanned).map .bracket ++ unspanned (rest.drop offer.skipped) =
      unspanned (offer.attached.map .bracket ++ rest.drop offer.skipped) := by
    rw [unspanned_append, unspanned_brackets]
  unfold produce
  simp only [Head.unspanned, Offer.unspanned, ← unspanned_drop, stream, capture_unspanned, Option.bind_eq_bind,
    Option.bind_map, List.length_map, leadingWhere_unspanned]
  rw [Option.map_bind]
  refine Option.bind_congr fun ⟨args, taken⟩ _ => ?_
  simp only [Function.comp, Prod.map_apply, id]
  have behind (found : Option (List (Rule Node) × Nat)) :
      (if offer.attached.length ≤ taken then (found.map (Prod.map (List.map Rule.unspanned) id)).getD ([], 0)
        else ([], 0)) = Prod.map (List.map Rule.unspanned) id
          (if offer.attached.length ≤ taken then found.getD ([], 0) else ([], 0)) := by
    cases found <;> split <;> rfl
  rw [behind]
  generalize (if offer.attached.length ≤ taken then _ else _) = found
  have made (rules : List (Rule Node)) :
      (if (rules.map Rule.unspanned).isEmpty then convert declaration arguments.converter { name := head.ident.name }
          offer.attributes (args.map blockUnspanned) scope
        else applyRules (rules.map Rule.unspanned) declaration.defersRules (convert declaration arguments.converter
          { name := head.ident.name } offer.attributes (args.map blockUnspanned) scope)) =
      (if rules.isEmpty then convert declaration arguments.converter head.ident offer.attributes args scope
        else applyRules rules declaration.defersRules
          (convert declaration arguments.converter head.ident offer.attributes args scope)).unspanned := by
    rw [convert_unspanned, applyRules_unspanned, List.isEmpty_map]
    split <;> rfl
  simp only [Prod.map_fst, Prod.map_snd, ← List.map_append, made, List.length_map, id]
  simp [Production.unspanned, unspanned, unspanned_drop]

/-- What an identifier is matched with is matched wherever it stands. -/
theorem invoke_unspanned (registry : Registry) (scope : Scope) (head : Head) (rest : List Node) :
    invoke registry scope head.unspanned (unspanned rest) =
      (invoke registry scope head rest).map Production.unspanned := by
  have each (declaration : Declaration) (items : List ArgumentList) :
      items.findSome? (produce declaration head.unspanned (offer declaration head rest).unspanned (unspanned rest)
        scope) = (items.findSome? (produce declaration head (offer declaration head rest) rest scope)).map
          Production.unspanned := by
    rw [List.map_findSome?]
    exact congrArg (List.findSome? · items) (funext fun arguments => produce_unspanned ..)
  unfold invoke
  rw [List.map_findSome?]
  refine congrArg (List.findSome? · _) (funext fun declaration => ?_)
  have same : (offer declaration head rest).unspanned.attributes = (offer declaration head rest).attributes := rfl
  simp only [Function.comp, offer_unspanned, same, each]
  split
  · rfl
  · split <;> rfl

theorem scanFrom_unspanned (registry : Registry) (scope : Scope) (skip : Nat) (nodes : List Node) :
    scanFrom registry scope skip (unspanned nodes) =
      Prod.map unspanned id (scanFrom registry scope skip nodes) := by
  fun_induction scanFrom registry scope skip nodes with
  | case1 => simp [unspanned, scanFrom]
  | case2 skip node rest ih => exact ih
  | case3 node rest none scanned events same ih =>
    rw [unspanned, scanFrom, head?_unspanned, none]
    simp only [Option.map_none, ih, same]
    rfl
  | case4 node rest head named production found scanned events same ih =>
    rw [unspanned, scanFrom, head?_unspanned, named]
    simp only [Option.map_some, invoke_unspanned, found, Production.unspanned, ih, same, Prod.map, unspanned_append]
    rfl
  | case5 node rest head named none scanned events same ih =>
    rw [unspanned, scanFrom, head?_unspanned, named]
    simp only [Option.map_some, invoke_unspanned, none, Option.map_none, ih, same]
    rfl

/-- What is put together from changed values is what is put together, changed. -/
theorem gather_changed {α β : Type} {change : α → α} {turn : β → β} {make : α → Option (β × List ResolveEvent)}
    (same : ∀ item, make (change item) = (make item).map (Prod.map turn id)) (items : List α) :
    gather ((items.map change).map make) = (gather (items.map make)).map (Prod.map (List.map turn) id) := by
  induction items with
  | nil => rfl
  | cons item items ih =>
    rw [List.map_cons, List.map_cons, List.map_cons, gather, gather, ih, same]
    cases make item with
    | none => rfl
    | some first => cases gather (items.map make) <;> rfl

variable {inner : Scope → List Node → Option (List Node × List ResolveEvent)}

theorem descend_unspanned (same : ∀ scope nodes, inner scope (unspanned nodes) =
    (inner scope nodes).map (Prod.map unspanned id)) (scope : Scope) (node : Node) :
    descend inner scope node.unspanned = (descend inner scope node).map (Prod.map Node.unspanned id) := by
  cases node with
  | command command =>
    obtain ⟨ident, attributes, args, declaration, rules⟩ := command
    simp only [Node.unspanned, descend, same]
    cases inner _ args <;> rfl
  | bracket block =>
    obtain ⟨kind, opening, closing, children⟩ := block
    simp only [Node.unspanned, blockUnspanned, descend, same]
    cases inner scope children <;> rfl
  | quotation opening closing children =>
    simp only [Node.unspanned, descend, same]
    cases inner scope children <;> rfl
  | fragment children =>
    simp only [Node.unspanned, descend, same]
    cases inner scope children <;> rfl
  | tag tag =>
    obtain ⟨ident, options, attributes, args, rules⟩ := tag
    have each (block : Block Node) :
        (inner scope (blockUnspanned block).children).map (fun found => ({ blockUnspanned block with
          children := found.1 }, found.2)) =
        ((inner scope block.children).map fun found => ({ block with children := found.1 }, found.2)).map
          (Prod.map blockUnspanned id) := by
      rw [blockUnspanned_children, same]
      obtain ⟨kind, opening, closing, children⟩ := block
      cases inner scope children <;> rfl
    simp only [Node.unspanned, descend, blocksUnspanned_eq_map]
    rw [gather_changed each]
    generalize gather _ = outcome
    cases outcome with
    | none => rfl
    | some result => simp [Node.unspanned, blocksUnspanned_eq_map]
  | hole | text | symbol | ident | stray | drawing => rfl

/-- Forgetting where nodes stand changes nothing about what they resolve to but the places in it. -/
theorem resolve_unspanned (registry : Registry) (depth : Nat) (scope : Scope) (nodes : List Node) :
    resolve registry depth scope (unspanned nodes) =
      (resolve registry depth scope nodes).map (Prod.map unspanned id) := by
  induction depth generalizing scope nodes with
  | zero => rfl
  | succ depth ih =>
    rw [resolve, resolve, scanFrom_unspanned]
    obtain ⟨scanned, events⟩ := scanFrom registry scope 0 nodes
    simp only [Prod.map, id]
    rw [unspanned_eq_map, gather_changed (descend_unspanned ih scope)]
    cases gather (scanned.map (descend (resolve registry depth) scope)) with
    | none => rfl
    | some result => simp [unspanned_eq_map]

end Resolve

end Manuscript
