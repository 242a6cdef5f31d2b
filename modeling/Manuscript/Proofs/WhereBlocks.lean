import Manuscript.Proofs.FirstFit
import Manuscript.Proofs.Grafting
import Manuscript.Proofs.ParseGrammar

/-! Which where blocks an invocation hears. Right behind its arguments all of them give their rules to the tag; with
white space in front of an argument there is no tag yet for them to go to, so the first one takes the others for rules
of its own, and these are never asked for. -/

namespace Manuscript

open Node (leadingBlock leadingBlanks leadingCurly)

/-- An argument with the white space that is written in front of it. -/
structure SpacedArgument where
  gap : List Char := []
  content : List Node

namespace SpacedArgument

def block (argument : SpacedArgument) : Block Node := .synthesized argument.content

def blanks (gap : List Char) : List Node := gap.map fun c => .text (String.singleton c) {}

def nodes (argument : SpacedArgument) : List Node := blanks argument.gap ++ [.bracket argument.block]

def isTight (argument : SpacedArgument) : Bool := argument.gap.isEmpty

def tight (argument : SpacedArgument) : SpacedArgument := { argument with gap := [] }

def normalized (argument : SpacedArgument) : SpacedArgument := { argument with content := normalize argument.content }

end SpacedArgument

open SpacedArgument

/-- Where blocks, one right behind the other. -/
def whereNodes (wheres : List (List Node)) : List Node :=
  wheres.flatMap fun content => [.ident { name := Rule.whereIdent }, .bracket (.synthesized content)]

/-- An identifier with its arguments and the where blocks right behind the last of them. -/
def written (name : String) (arguments : List SpacedArgument) (wheres : List (List Node)) : List Node :=
  .ident { name } :: (arguments.flatMap SpacedArgument.nodes ++ whereNodes wheres)

theorem nodes_cons (argument : SpacedArgument) (arguments : List SpacedArgument) (rest : List Node) :
    (argument :: arguments).flatMap SpacedArgument.nodes ++ rest =
      blanks argument.gap ++ .bracket argument.block :: (arguments.flatMap SpacedArgument.nodes ++ rest) := by
  simp [SpacedArgument.nodes]

section Grammar

theorem wellFormed_blanks {gap : List Char} (spaces : gap.all Blank.isSpace = true) {rest : List Node}
    (formed : wellFormed .top true rest = true) : wellFormed .top true (blanks gap ++ rest) = true := by
  induction gap with
  | nil => exact formed
  | cons c gap ih =>
    rw [List.all_cons, Bool.and_eq_true] at spaces
    have single : Parse.isSpaceWord (String.singleton c) = true := by
      simp [Parse.isSpaceWord, spaces.1]
    have plain : Words.isPlainWord (String.singleton c) = false :=
      Words.isPlainWord_of_single (Parse.isSingle_of_space single)
    simp only [blanks, List.map_cons, List.cons_append, wellFormed, Node.wellFormed, Node.apart, single, plain,
      Bool.or_true, Bool.false_and, Bool.not_false, Bool.true_and]
    exact ih spaces.2

theorem wellFormed_curly {content : List Node} (closed : wellFormed .bracket false content = true) {rest : List Node}
    (formed : wellFormed .top true rest = true) :
    wellFormed .top true (.bracket (.synthesized content) :: rest) = true := by
  simp [wellFormed, Node.wellFormed, Block.synthesized, blockWellFormed, closes, Parse.opener, Parse.closers,
    Node.apart, closed, formed]

theorem wellFormed_whereNodes {wheres : List (List Node)}
    (closed : ∀ content ∈ wheres, wellFormed .bracket false content = true) :
    wellFormed .top true (whereNodes wheres) = true := by
  induction wheres with
  | nil => rfl
  | cons content wheres ih =>
    obtain ⟨first, others⟩ := List.forall_mem_cons.mp closed
    have named : Parse.isName Rule.whereIdent = true := by decide
    have other : Rule.whereIdent ≠ Parse.inlineMath := by decide
    have block := wellFormed_curly first (ih others)
    rw [whereNodes, List.flatMap_cons, ← whereNodes, List.cons_append, List.singleton_append]
    rw [wellFormed, block, Bool.and_true, Bool.and_eq_true]
    exact ⟨by simp [Node.wellFormed, named], by simp [Node.apart, other, Node.isPlainText]⟩

theorem wellFormed_arguments {arguments : List SpacedArgument}
    (spaces : ∀ argument ∈ arguments, argument.gap.all Blank.isSpace = true)
    (closed : ∀ argument ∈ arguments, wellFormed .bracket false argument.content = true) {rest : List Node}
    (formed : wellFormed .top true rest = true) :
    wellFormed .top true (arguments.flatMap SpacedArgument.nodes ++ rest) = true := by
  induction arguments with
  | nil => exact formed
  | cons argument arguments ih =>
    obtain ⟨blank, spaces⟩ := List.forall_mem_cons.mp spaces
    obtain ⟨first, closed⟩ := List.forall_mem_cons.mp closed
    rw [List.flatMap_cons, SpacedArgument.nodes, List.append_assoc, List.append_assoc]
    exact wellFormed_blanks blank (wellFormed_curly first (ih spaces closed))

/-- White space in front of the first argument turns the name of an inline formula into a symbol. -/
theorem wellFormed_written {name : String} {arguments : List SpacedArgument} {wheres : List (List Node)}
    (nonempty : arguments ≠ [])
    (named : Parse.isName name = true ∨ name = Parse.inlineMath ∧ arguments.head?.any isTight = true)
    (spaces : ∀ argument ∈ arguments, argument.gap.all Blank.isSpace = true)
    (closed : ∀ argument ∈ arguments, wellFormed .bracket false argument.content = true)
    (ruled : ∀ content ∈ wheres, wellFormed .bracket false content = true) :
    wellFormed .top true (written name arguments wheres) = true := by
  have rest := wellFormed_arguments spaces closed (wellFormed_whereNodes ruled)
  rw [written, wellFormed, rest, Bool.and_true, Bool.and_eq_true]
  obtain ⟨argument, others, rfl⟩ := List.exists_cons_of_ne_nil nonempty
  rw [nodes_cons]
  rcases named with named | ⟨rfl, attached⟩
  · have other : name ≠ Parse.inlineMath := fun same => by
      rw [same] at named
      exact absurd named (by decide)
    refine ⟨by simp [Node.wellFormed, named], ?_⟩
    rw [Node.apart, if_neg other, Bool.not_eq_true']
    cases gap : argument.gap with
    | nil => rfl
    | cons c gap =>
      have blank := spaces argument (List.mem_cons_self ..)
      rw [gap, List.all_cons, Bool.and_eq_true] at blank
      exact Words.isPlainWord_of_single (Parse.isSingle_of_space (by simp [Parse.isSpaceWord, blank.1]))
  · have tight : argument.gap = [] := List.isEmpty_iff.mp attached
    rw [tight]
    exact ⟨rfl, rfl⟩

/-- A text that was written from a tree resolves to what the tree resolves to, up to places. -/
theorem resolve_source (registry : Registry) (depth : Nat) (scope : Scope) {nodes : List Node}
    (formed : wellFormed .top true nodes = true) :
    (resolve registry depth scope (normalize (Parse.ofString (source nodes)))).map (unspanned ·.1) =
      (resolve registry depth scope (normalize nodes)).map (unspanned ·.1) := by
  have forget (nodes : List Node) : (resolve registry depth scope (normalize nodes)).map (unspanned ·.1) =
      (resolve registry depth scope (normalize (unspanned nodes))).map Prod.fst := by
    rw [normalize_unspanned, Resolve.resolve_unspanned, Option.map_map]
    rfl
  rw [forget, forget, ← unspanned_unplaced, Parse.ofString_source nodes formed, unspanned_unplaced]

end Grammar

section Collapse

open Normalize

theorem normalize_argument (argument : SpacedArgument) :
    normalizeEach argument.nodes = argument.normalized.nodes := by
  rw [normalizeEach_eq_map, SpacedArgument.nodes, List.map_append, blanks, List.map_map]
  rfl

theorem normalizeEach_written (name : String) (arguments : List SpacedArgument) (wheres : List (List Node)) :
    normalizeEach (written name arguments wheres) =
      written name (arguments.map normalized) (wheres.map normalize) := by
  have args : normalizeEach (arguments.flatMap SpacedArgument.nodes) =
      (arguments.map normalized).flatMap SpacedArgument.nodes := by
    rw [normalizeEach_eq_map, List.map_flatMap, List.flatMap_map]
    exact List.flatMap_congr fun argument _ => (normalizeEach_eq_map _).symm.trans (normalize_argument argument)
  have rules : normalizeEach (whereNodes wheres) = whereNodes (wheres.map normalize) := by
    rw [normalizeEach_eq_map, whereNodes, whereNodes, List.map_flatMap, List.flatMap_map]
    rfl
  rw [normalizeEach_eq_map] at args rules
  rw [normalizeEach_eq_map, written, List.map_cons, List.map_append, args, rules]
  rfl

theorem leadingCurly_whereNodes (wheres : List (List Node)) : leadingCurly (whereNodes wheres) = [] := by
  cases wheres <;> rfl

theorem leadingCurly_blocks (arguments : List SpacedArgument) {rest : List Node} (bare : leadingCurly rest = []) :
    leadingCurly ((arguments.map SpacedArgument.block).map .bracket ++ rest) = arguments.map SpacedArgument.block := by
  induction arguments with
  | nil => exact bare
  | cons argument arguments ih => exact congrArg (_ :: ·) ih

/-- An identifier takes the blocks right behind it and the rules of all the where blocks right behind these. -/
theorem collapse_blocks (ident : Ident) {arguments : List SpacedArgument} (nonempty : arguments ≠ []) {rest : List Node}
    (bare : leadingCurly rest = []) :
    collapseFrom 0 (.ident ident :: ((arguments.map SpacedArgument.block).map .bracket ++ rest)) =
      .tag { ident, args := arguments.map SpacedArgument.block, rules := (leadingWheres rest).1 } ::
        collapseFrom 0 (rest.drop (leadingWheres rest).2) := by
  have curly := leadingCurly_blocks arguments bare
  have behind : ((arguments.map SpacedArgument.block).map Node.bracket ++ rest).drop arguments.length = rest :=
    List.drop_left' (by simp)
  obtain ⟨argument, others, rfl⟩ := List.exists_cons_of_ne_nil nonempty
  have round : leadingBlock .square (((argument :: others).map SpacedArgument.block).map .bracket ++ rest) = none := rfl
  rw [collapseFrom, tagAt, round]
  simp only [attach_eq, curly, List.nil_append, List.isEmpty_map, List.isEmpty_cons, Bool.and_false,
    Bool.false_eq_true, if_false, List.length_map, behind]
  rw [collapseFrom_eq_drop, ← List.drop_drop, behind]

theorem leadingWheres_whereNodes (wheres : List (List Node)) :
    leadingWheres (whereNodes wheres) = (wheres.flatMap Rule.parse, (whereNodes wheres).length) := by
  induction wheres with
  | nil => rfl
  | cons content wheres ih =>
    have first (rest : List Node) : Rule.leadingWhere (.ident { name := Rule.whereIdent } ::
        .bracket (.synthesized content) :: rest) = some (Rule.parse content, 2) := by
      simp [Rule.leadingWhere, Block.synthesized]
    rw [whereNodes, List.flatMap_cons, ← whereNodes, List.cons_append, List.singleton_append, leadingWheres, first]
    simp [ih, List.flatMap_cons]
    omega

/-- The tag that is made of where blocks without arguments in front of them. -/
def whereTag : List (List Node) → List Node
  | [] => []
  | content :: wheres =>
    [.tag { ident := { name := Rule.whereIdent }, args := [.synthesized content], rules := wheres.flatMap Rule.parse }]

/-- Where blocks that stand for themselves go into the first of them. -/
theorem collapse_whereNodes (wheres : List (List Node)) : collapseFrom 0 (whereNodes wheres) = whereTag wheres := by
  cases wheres with
  | nil => rfl
  | cons content wheres =>
    have first := collapse_blocks { name := Rule.whereIdent } (List.cons_ne_nil ⟨[], content⟩ [])
      (leadingCurly_whereNodes wheres)
    rw [leadingWheres_whereNodes, List.drop_length] at first
    exact first

theorem leadingWhere_whereTag (wheres : List (List Node)) :
    (Rule.leadingWhere (whereTag wheres)).getD ([], 0) =
      ((wheres.take 1).flatMap Rule.parse, (whereTag wheres).length) := by
  cases wheres with
  | nil => rfl
  | cons content wheres => simp [whereTag, Rule.leadingWhere, Block.synthesized]

/-- Blanks and blocks with no identifier right in front of them stay as they are. -/
theorem collapse_arguments (arguments : List SpacedArgument) (rest : List Node) :
    collapseFrom 0 (arguments.flatMap SpacedArgument.nodes ++ rest) =
      arguments.flatMap SpacedArgument.nodes ++ collapseFrom 0 rest := by
  have loose (nodes rest : List Node) (inert : ∀ node ∈ nodes, ∀ rest, tagAt node rest = none) :
      collapseFrom 0 (nodes ++ rest) = nodes ++ collapseFrom 0 rest := by
    induction nodes with
    | nil => rfl
    | cons node nodes ih =>
      obtain ⟨here, others⟩ := List.forall_mem_cons.mp inert
      rw [List.cons_append, collapseFrom, here, ih others]
      rfl
  refine loose _ rest fun node member => ?_
  obtain ⟨argument, _, listed⟩ := List.mem_flatMap.mp member
  rcases List.mem_append.mp listed with blank | block
  · obtain ⟨c, _, rfl⟩ := List.mem_map.mp blank
    exact fun _ => rfl
  · obtain rfl := List.mem_singleton.mp block
    exact fun _ => rfl

/-- The arguments that are written right behind one another come first. -/
theorem nodes_takeWhile (arguments : List SpacedArgument) :
    arguments.flatMap SpacedArgument.nodes = ((arguments.takeWhile isTight).map SpacedArgument.block).map .bracket ++
      (arguments.dropWhile isTight).flatMap SpacedArgument.nodes := by
  induction arguments with
  | nil => rfl
  | cons argument arguments ih =>
    obtain ⟨gap, content⟩ := argument
    cases gap with
    | nil => exact congrArg (_ :: ·) ih
    | cons c gap => rfl

theorem leadingCurly_dropWhile (arguments : List SpacedArgument) {rest : List Node} (bare : leadingCurly rest = []) :
    leadingCurly ((arguments.dropWhile isTight).flatMap SpacedArgument.nodes ++ rest) = [] := by
  induction arguments with
  | nil => exact bare
  | cons argument arguments ih =>
    obtain ⟨gap, content⟩ := argument
    cases gap with
    | nil => exact ih
    | cons c gap => rfl

/-- An identifier with the blocks right behind it. -/
def attachedTo (name : String) (blocks : List (Block Node)) : Node :=
  if blocks.isEmpty then .ident { name } else .tag { ident := { name }, args := blocks }

/-- What is left at the top of an invocation. Without white space its tag has heard all the where blocks; otherwise the
arguments behind the first white space are not attached, and neither are the where blocks. -/
def collapsed (name : String) (arguments : List SpacedArgument) (wheres : List (List Node)) : List Node :=
  if arguments.all isTight then
    [.tag { ident := { name }, args := arguments.map SpacedArgument.block, rules := wheres.flatMap Rule.parse }]
  else
    attachedTo name ((arguments.takeWhile isTight).map SpacedArgument.block) ::
      ((arguments.dropWhile isTight).flatMap SpacedArgument.nodes ++ whereTag wheres)

theorem collapse_written (name : String) {arguments : List SpacedArgument} (nonempty : arguments ≠ [])
    (wheres : List (List Node)) :
    collapseFrom 0 (written name arguments wheres) = collapsed name arguments wheres := by
  have bare := leadingCurly_dropWhile arguments (leadingCurly_whereNodes wheres)
  have spaced := List.head?_dropWhile_not isTight arguments
  rw [written, nodes_takeWhile, List.append_assoc, collapsed]
  cases tight : arguments.all isTight with
  | true =>
    have each := List.all_eq_true.mp tight
    have heard := collapse_blocks { name } nonempty (leadingCurly_whereNodes wheres)
    rw [leadingWheres_whereNodes, List.drop_length] at heard
    rw [List.takeWhile_eq_self_iff.mpr each, List.dropWhile_eq_nil_iff.mpr each]
    exact heard
  | false =>
    have behind := collapse_arguments (arguments.dropWhile isTight) (whereNodes wheres)
    rw [collapse_whereNodes] at behind
    cases loose : arguments.dropWhile isTight with
    | nil =>
      rw [List.all_eq_true.mpr (List.dropWhile_eq_nil_iff.mp loose)] at tight
      cases tight
    | cons argument back =>
      -- the white space stands between the identifier and the where blocks
      rw [loose] at bare behind spaced
      obtain ⟨gap, content⟩ := argument
      obtain ⟨c, gap, rfl⟩ : ∃ c rest, gap = c :: rest := List.exists_cons_of_ne_nil fun empty => by
        rw [empty] at spaced
        cases spaced
      cases arguments.takeWhile isTight with
      | nil => exact congrArg (_ :: ·) behind
      | cons first front =>
        have heard := collapse_blocks { name } (List.cons_ne_nil first front) bare
        rw [leadingWheres_of_none rfl, List.drop_zero, behind] at heard
        exact heard

end Collapse

section Unruled

/-- Without rules nothing is substituted. -/
theorem substituteFrom_nil (nodes : List Node) : substituteFrom [] 0 nodes = nodes := by
  have naming : ∀ rule ∈ ([] : List (Rule Node)), rule.IsNaming := nofun
  rw [← graft_insertion naming]
  exact graft_eq_self nodes fun _ _ => rfl

theorem applyRules_nil (node : Node) : Resolve.applyRules [] false node = node := by
  cases node with
  | command command => simp [Resolve.applyRules, substitute, substituteFrom_nil]
  | fragment children => simp [Resolve.applyRules, substitute, substituteFrom_nil]
  | bracket block => simp [Resolve.applyRules, substitute, substituteFrom_nil]
  | _ => rfl

end Unruled

section Resolution

open Resolve

theorem leadingBlanks_blanks {gap : List Char} (spaces : gap.all Blank.isSpace = true) (block : Block Node)
    (rest : List Node) : leadingBlanks (blanks gap ++ .bracket block :: rest) = gap.length := by
  induction gap with
  | nil => rfl
  | cons c gap ih =>
    rw [List.all_cons, Bool.and_eq_true] at spaces
    have blank : Node.isBlank (.text (String.singleton c) {}) = true := by simp [Node.isBlank, Blank.isBlank, spaces.1]
    unfold leadingBlanks at ih ⊢
    simp only [blanks, List.map_cons, List.cons_append, List.takeWhile_cons, blank, if_true, List.length_cons]
    exact congrArg (· + 1) (ih spaces.2)

/-- An exact list of curly blocks passes over the white space in front of each. -/
theorem captureExact_arguments {arguments : List SpacedArgument}
    (spaces : ∀ argument ∈ arguments, argument.gap.all Blank.isSpace = true) (rest : List Node) :
    ArgumentList.captureExact (List.replicate arguments.length .curly)
        (arguments.flatMap SpacedArgument.nodes ++ rest) =
      some (arguments.map SpacedArgument.block, (arguments.flatMap SpacedArgument.nodes).length) := by
  induction arguments with
  | nil => rfl
  | cons argument arguments ih =>
    obtain ⟨blank, spaces⟩ := List.forall_mem_cons.mp spaces
    have front : (blanks argument.gap).length = argument.gap.length := List.length_map ..
    have here : leadingBlock .curly (.bracket argument.block :: (arguments.flatMap SpacedArgument.nodes ++ rest)) =
        some argument.block := rfl
    rw [List.length_cons, List.replicate_succ, nodes_cons, ArgumentList.captureExact, leadingBlanks_blanks blank,
      List.drop_left' front, here, ← List.drop_drop, List.drop_left' front, List.drop_one, List.tail_cons, ih spaces]
    simp [SpacedArgument.nodes, front]
    omega

/-- The only declaration of a name takes a number of curly blocks and no attributes where it stands, and rewrites its
arguments at once. -/
structure Sole (registry : Registry) (scope : Scope) (name : String) (declaration : Declaration)
    (converter : Converter) (count : Nat) : Prop where
  declared : registry.lookup name = [declaration]
  arguments : declaration.arguments = [⟨.exact, List.replicate count .curly, converter⟩]
  immediate : declaration.defersRules = false
  allowed : declaration.allows scope = true
  admitted : declaration.ignoresAttributes = true ∨ declaration.admitsAttributes [] = true

/-- What an invocation becomes when its arguments are rewritten with some rules. -/
def rewritten (declaration : Declaration) (converter : Converter) (scope : Scope) (name : String)
    (arguments : List SpacedArgument) (rules : List (Rule Node)) : Node :=
  applyRules rules false (convert declaration converter { name } none (arguments.map SpacedArgument.block) scope)

variable {registry : Registry} {scope : Scope} {name : String} {declaration : Declaration} {converter : Converter}

/-- Behind a bare identifier stands an argument, so there is no attribute list for it to find. -/
theorem offer_arguments {arguments : List SpacedArgument} (nonempty : arguments ≠ [])
    (spaces : ∀ argument ∈ arguments, argument.gap.all Blank.isSpace = true) (rules : List (Rule Node))
    (rest : List Node) :
    offer declaration ⟨{ name }, none, none, (arguments.takeWhile isTight).map SpacedArgument.block, rules⟩
        ((arguments.dropWhile isTight).flatMap SpacedArgument.nodes ++ rest) =
      ⟨none, (arguments.takeWhile isTight).map SpacedArgument.block, 0⟩ := by
  unfold offer
  split
  · rfl
  · split
    next bare =>
      have whole := List.takeWhile_append_dropWhile (p := isTight) (l := arguments)
      rw [List.isEmpty_map, Bool.and_eq_true, List.isEmpty_iff] at bare
      rw [bare.2, List.nil_append] at whole
      obtain ⟨argument, others, rfl⟩ := List.exists_cons_of_ne_nil nonempty
      have front : (blanks argument.gap).length = argument.gap.length := List.length_map ..
      rw [whole, nodes_cons, leadingBlanks_blanks (spaces argument (List.mem_cons_self ..))]
      simp only [List.drop_left' front]
      rfl
    next => rfl

/-- An argument list that takes what is attached and all of some siblings hears the where block behind these. -/
theorem produce_all {head : Head} {attributes : Option Attributes} {attached args : List (Block Node)}
    {back rest : List Node} {arguments : ArgumentList} (immediate : declaration.defersRules = false)
    (captured : arguments.capture (attached.map .bracket ++ (back ++ rest)) =
      some (args, attached.length + back.length)) :
    produce declaration head ⟨attributes, attached, 0⟩ (back ++ rest) scope arguments =
      some ⟨[applyRules (head.rules ++ ((Rule.leadingWhere rest).getD ([], 0)).1) false
          (convert declaration arguments.converter head.ident attributes args scope)],
        back.length + ((Rule.leadingWhere rest).getD ([], 0)).2, args.length⟩ := by
  have taken : attached.drop (attached.length + back.length) = [] := List.drop_eq_nil_of_le (Nat.le_add_right ..)
  unfold produce
  simp only [List.drop_zero, captured, Option.bind_eq_bind, Option.bind_some, Nat.add_sub_cancel_left, Nat.zero_add,
    Nat.le_add_right, if_true, List.drop_left, immediate, taken, List.map_nil]
  split
  next none =>
    rw [List.isEmpty_iff.mp none, applyRules_nil]
    rfl
  next => rfl

theorem invoke_arguments {arguments : List SpacedArgument}
    (sole : Sole registry scope name declaration converter arguments.length) (nonempty : arguments ≠ [])
    (spaces : ∀ argument ∈ arguments, argument.gap.all Blank.isSpace = true) (rules : List (Rule Node))
    (rest : List Node) :
    invoke registry scope ⟨{ name }, none, none, (arguments.takeWhile isTight).map SpacedArgument.block, rules⟩
        ((arguments.dropWhile isTight).flatMap SpacedArgument.nodes ++ rest) =
      some ⟨[rewritten declaration converter scope name arguments
          (rules ++ ((Rule.leadingWhere rest).getD ([], 0)).1)],
        ((arguments.dropWhile isTight).flatMap SpacedArgument.nodes).length +
          ((Rule.leadingWhere rest).getD ([], 0)).2, arguments.length⟩ := by
  have admitted : (!declaration.ignoresAttributes && !declaration.admitsAttributes []) = false := by
    rcases sole.admitted with ignored | admitted
    · rw [ignored]; rfl
    · rw [admitted, Bool.not_true, Bool.and_false]
  have split := nodes_takeWhile arguments
  have captured : ArgumentList.capture ⟨.exact, List.replicate arguments.length .curly, converter⟩ _ = _ :=
    captureExact_arguments spaces rest
  rw [split, List.append_assoc, List.length_append, List.length_map] at captured
  unfold invoke
  rw [sole.declared, List.findSome?_singleton]
  simp only [offer_arguments nonempty spaces, sole.allowed, Bool.not_true, Bool.false_eq_true, if_false,
    Option.getD_none, admitted, sole.arguments, List.findSome?_singleton]
  rw [produce_all sole.immediate captured, List.length_map]
  rfl

/-- An invocation that takes up all that is behind it is all that a scan leaves. -/
theorem scan_all {node made : Node} {rest : List Node} {head : Head} {used args : Nat} (named : head? node = some head)
    (found : invoke registry scope head rest = some ⟨[made], used, args⟩) (all : rest.length ≤ used) :
    scanFrom registry scope 0 (node :: rest) = ([made], [.resolved head.ident.name args]) := by
  have behind : scanFrom registry scope used rest = ([], []) := by
    rw [scanFrom_eq_drop, List.drop_eq_nil_of_le all, scanFrom]
  rw [scanFrom, named]
  simp only [found, behind, List.append_nil]

theorem scan_collapsed {arguments : List SpacedArgument}
    (sole : Sole registry scope name declaration converter arguments.length) (nonempty : arguments ≠ [])
    (spaces : ∀ argument ∈ arguments, argument.gap.all Blank.isSpace = true) (wheres : List (List Node)) :
    scanFrom registry scope 0 (collapsed name arguments wheres) =
      ([rewritten declaration converter scope name arguments
          ((if arguments.all isTight then wheres else wheres.take 1).flatMap Rule.parse)],
        [.resolved name arguments.length]) := by
  have invoked := invoke_arguments sole nonempty spaces
  unfold collapsed
  cases tight : arguments.all isTight with
  | true =>
    have each := List.all_eq_true.mp tight
    have found := invoked (wheres.flatMap Rule.parse) []
    rw [List.takeWhile_eq_self_iff.mpr each, List.dropWhile_eq_nil_iff.mpr each] at found
    refine (scan_all rfl found (Nat.zero_le _)).trans ?_
    simp [Rule.leadingWhere]
  | false =>
    have found := invoked [] (whereTag wheres)
    rw [leadingWhere_whereTag] at found
    refine (scan_all ?_ found (List.length_append ..).le).trans rfl
    unfold attachedTo
    split
    next bare => rw [List.isEmpty_iff.mp bare]; rfl
    next => rfl

/-- The rules of where blocks, in the order in which they are written. -/
def rulesOf (wheres : List (List Node)) : List (Rule Node) :=
  wheres.flatMap fun content => Rule.parse (normalize content)

/-- What an invocation becomes when its arguments are rewritten with some rules, and then resolved inside. Places are
forgotten. -/
def rewrittenTo (registry : Registry) (scope : Scope) (name : String) (declaration : Declaration)
    (converter : Converter) (arguments : List SpacedArgument) (rules : List (Rule Node)) :
    (depth : Nat) → Option (List Node)
  | 0 => none
  | depth + 1 =>
    let node := rewritten declaration converter scope name (arguments.map normalized) rules
    (descend (resolve registry depth) scope node).map fun (node, _) => [node.unspanned]

/-- What a text resolves to. Places are forgotten. -/
def resolvedText (registry : Registry) (scope : Scope) (text : String) (depth : Nat) : Option (List Node) :=
  (resolve registry depth scope (normalize (Parse.ofString text))).map (unspanned ·.1)

theorem resolve_written {arguments : List SpacedArgument}
    (sole : Sole registry scope name declaration converter arguments.length) (nonempty : arguments ≠ [])
    (spaces : ∀ argument ∈ arguments, argument.gap.all Blank.isSpace = true) (wheres : List (List Node)) (depth : Nat) :
    (resolve registry depth scope (normalize (written name arguments wheres))).map (unspanned ·.1) =
      rewrittenTo registry scope name declaration converter arguments
        (rulesOf (if arguments.all isTight then wheres else wheres.take 1)) depth := by
  cases depth with
  | zero => rfl
  | succ depth =>
    have count : (arguments.map normalized).length = arguments.length := List.length_map ..
    have tight : (arguments.map normalized).all isTight = arguments.all isTight := by
      rw [List.all_map]
      rfl
    have rules : (if arguments.all isTight then wheres.map normalize else (wheres.map normalize).take 1).flatMap
        Rule.parse = rulesOf (if arguments.all isTight then wheres else wheres.take 1) := by
      rw [← List.map_take, ← apply_ite (List.map normalize), List.flatMap_map]
      rfl
    have blank : ∀ argument ∈ arguments.map normalized, argument.gap.all Blank.isSpace = true :=
      List.forall_mem_map.mpr spaces
    have scanned := scan_collapsed (count.symm ▸ sole) (by simpa using nonempty) blank (wheres.map normalize)
    rw [tight, rules] at scanned
    rw [normalize, normalizeEach_written, collapse_written _ (by simpa using nonempty), resolve, scanned, rewrittenTo]
    simp only [List.map_singleton, gather]
    cases descend (resolve registry depth) scope _ <;> rfl

theorem rewrittenTo_tight (arguments : List SpacedArgument) (rules : List (Rule Node)) (depth : Nat) :
    rewrittenTo registry scope name declaration converter (arguments.map tight) rules depth =
      rewrittenTo registry scope name declaration converter arguments rules depth := by
  have same : ((arguments.map tight).map normalized).map SpacedArgument.block =
      (arguments.map normalized).map SpacedArgument.block := by
    simp only [List.map_map]
    rfl
  cases depth with
  | zero => rfl
  | succ depth => rw [rewrittenTo, rewrittenTo, rewritten, rewritten, same]

/-- Right behind the arguments of a command all where blocks are heard, in order. With white space in front of an
argument only the first one is, so that both forms resolve to the same when the others hold no rules. -/
theorem where_blocks_heard {arguments : List SpacedArgument} {wheres : List (List Node)}
    (sole : Sole registry scope name declaration converter arguments.length) (nonempty : arguments ≠ [])
    (named : Parse.isName name = true ∨ name = Parse.inlineMath ∧ arguments.head?.any isTight = true)
    (spaces : ∀ argument ∈ arguments, argument.gap.all Blank.isSpace = true)
    (closed : ∀ argument ∈ arguments, wellFormed .bracket false argument.content = true)
    (ruled : ∀ content ∈ wheres, wellFormed .bracket false content = true) (depth : Nat) :
    resolvedText registry scope (source (written name (arguments.map tight) wheres)) depth =
        rewrittenTo registry scope name declaration converter arguments (rulesOf wheres) depth ∧
      ((∃ argument ∈ arguments, argument.gap ≠ []) →
        resolvedText registry scope (source (written name arguments wheres)) depth =
          rewrittenTo registry scope name declaration converter arguments (rulesOf (wheres.take 1)) depth) ∧
      (rulesOf (wheres.drop 1) = [] → resolvedText registry scope (source (written name arguments wheres)) depth =
        resolvedText registry scope (source (written name (arguments.map tight) wheres)) depth) := by
  have loose : resolvedText registry scope (source (written name arguments wheres)) depth =
      rewrittenTo registry scope name declaration converter arguments
        (rulesOf (if arguments.all isTight then wheres else wheres.take 1)) depth := by
    rw [← resolve_written sole nonempty spaces]
    exact resolve_source registry depth scope (wellFormed_written nonempty named spaces closed ruled)
  have attached : resolvedText registry scope (source (written name (arguments.map tight) wheres)) depth =
      rewrittenTo registry scope name declaration converter arguments (rulesOf wheres) depth := by
    have all : (arguments.map tight).all isTight = true := by
      rw [List.all_map]
      exact List.all_eq_true.mpr fun _ _ => rfl
    have count : (arguments.map tight).length = arguments.length := List.length_map ..
    have some : arguments.map tight ≠ [] := by simpa using nonempty
    have blank : ∀ argument ∈ arguments.map tight, argument.gap.all Blank.isSpace = true :=
      List.forall_mem_map.mpr fun _ _ => rfl
    have first : (arguments.map tight).head?.any isTight = true := by
      obtain ⟨argument, others, rfl⟩ := List.exists_cons_of_ne_nil nonempty
      rfl
    have read := resolve_written (count.symm ▸ sole) some blank wheres depth
    rw [all, if_pos rfl, rewrittenTo_tight] at read
    rw [← read]
    have named := named.imp_right fun formula => And.intro formula.1 first
    exact resolve_source registry depth scope
      (wellFormed_written some named blank (List.forall_mem_map.mpr closed) ruled)
  refine ⟨attached, fun ⟨argument, member, spaced⟩ => ?_, fun silent => ?_⟩
  · have mixed : ¬arguments.all isTight = true := fun all =>
      spaced (List.isEmpty_iff.mp (List.all_eq_true.mp all argument member))
    rw [loose, if_neg mixed]
  · have heard : rulesOf (if arguments.all isTight then wheres else wheres.take 1) = rulesOf wheres := by
      split
      · rfl
      · rw [← List.take_append_drop 1 wheres, rulesOf, rulesOf, List.flatMap_append]
        rw [rulesOf] at silent
        rw [silent, List.append_nil, List.take_append_drop]
    rw [loose, attached, heard]

end Resolution

namespace Sample

def ruleFor (word value : String) : List Node :=
  [.bracket (.synthesized [.ident { name := word }]), .symbol "=>" {}, .bracket (.synthesized [.text value {}])]

/-- Two arguments, the second on a line of its own. -/
def fraction : List SpacedArgument :=
  [⟨[], [.ident { name := "\\x" }]⟩,
    ⟨['\n', ' '], [.ident { name := "\\x" }, .symbol "^" {}, .ident { name := "\\y" }]⟩]

def inMath : Scope := { Scope.top "doc.ss" with content := .math }

end Sample

theorem where_blocks_heard_fraction : ∃ declaration,
    Sole Builtin.registry Sample.inMath "\\frac" declaration .command Sample.fraction.length ∧
    ∀ depth,
      resolvedText Builtin.registry Sample.inMath (source (written "\\frac" (Sample.fraction.map tight)
          [Sample.ruleFor "\\x" "a", Sample.ruleFor "\\y" "b"])) depth =
        rewrittenTo Builtin.registry Sample.inMath "\\frac" declaration .command Sample.fraction
          (rulesOf [Sample.ruleFor "\\x" "a", Sample.ruleFor "\\y" "b"]) depth ∧
      resolvedText Builtin.registry Sample.inMath (source (written "\\frac" Sample.fraction
          [Sample.ruleFor "\\x" "a", Sample.ruleFor "\\y" "b"])) depth =
        rewrittenTo Builtin.registry Sample.inMath "\\frac" declaration .command Sample.fraction
          (rulesOf [Sample.ruleFor "\\x" "a"]) depth := by
  obtain ⟨declaration, declared, arguments, immediate, allowed, admitted⟩ : ∃ declaration,
      Builtin.registry.lookup "\\frac" = [declaration] ∧ declaration.arguments = Builtin.curly 2 ∧
        declaration.defersRules = false ∧ declaration.allows Sample.inMath = true ∧
        declaration.admitsAttributes [] = true :=
    ⟨_, rfl, rfl, rfl, rfl, rfl⟩
  have sole : Sole Builtin.registry Sample.inMath "\\frac" declaration .command Sample.fraction.length :=
    ⟨declared, arguments, immediate, allowed, .inr admitted⟩
  have ruled : ∀ content ∈ [Sample.ruleFor "\\x" "a", Sample.ruleFor "\\y" "b"],
      wellFormed .bracket false content = true := by decide +kernel
  have heard := where_blocks_heard sole (List.cons_ne_nil _ _) (.inl (by decide +kernel)) (by decide +kernel)
    (by decide +kernel) ruled
  refine ⟨declaration, sole, fun depth => ⟨(heard depth).1, (heard depth).2.1 ?_⟩⟩
  exact ⟨_, List.mem_cons_of_mem _ (List.mem_singleton_self _), List.cons_ne_nil _ _⟩

/-- With a blank in front of the argument the second rule is lost. -/
theorem where_block_unheard :
    (resolve Builtin.registry 4 (.top "doc.ss") (normalize (Parse.ofString
      "\\b\x7b\\x\\y\x7d\\where!\x7b\x7b\\x\x7d=>\x7bA\x7d\x7d\\where!\x7b\x7b\\y\x7d=>\x7bB\x7d\x7d"))).map
        (source ·.1) = some "\\b\x7bAB\x7d" ∧
    (resolve Builtin.registry 4 (.top "doc.ss") (normalize (Parse.ofString
      "\\b \x7b\\x\\y\x7d\\where!\x7b\x7b\\x\x7d=>\x7bA\x7d\x7d\\where!\x7b\x7b\\y\x7d=>\x7bB\x7d\x7d"))).map
        (source ·.1) = some "\\b\x7bA\\y\x7d" := by
  simp only [Parse.ofString, Parse.ofBytes, Words.ofBytes_encode]
  decide +kernel

end Manuscript
