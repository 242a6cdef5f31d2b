import Manuscript.Proofs.FirstFit
import Manuscript.Proofs.ParseGrammar

/-! Trees that normalization leaves as they are. A tree is one when nothing in it takes up what stands behind it. Of a
tree that was made by normalization this is true but for one thing: a where block takes up one curly block only, so
another one behind it is left right behind a tag, and the next normalization takes that one for an argument. -/

namespace Manuscript

namespace Node

def startsWith (kind : BracketKind) (nodes : List Node) : Bool := (leadingBlock kind nodes).isSome

def isTag : Node → Bool
  | .tag _ => true
  | _ => false

end Node

open Node (startsWith leadingBlock leadingCurly)

mutual

/-- The places below a node that normalization comes to: each node there, with the nodes behind it. -/
def Node.inner : Node → List (Node × List Node)
  | .bracket ⟨_, _, _, children⟩ => places children
  | .quotation _ _ children => places children
  | .fragment children => places children
  | .tag ⟨_, _, _, args, _⟩ => blocksPlaces args
  | .command ⟨_, _, args, _, _⟩ => places args
  | _ => []
termination_by structural node => node

def places : List Node → List (Node × List Node)
  | [] => []
  | node :: rest => (node, rest) :: (node.inner ++ places rest)
termination_by structural nodes => nodes

def blocksPlaces : List (Block Node) → List (Node × List Node)
  | [] => []
  | ⟨_, _, _, children⟩ :: rest => places children ++ blocksPlaces rest
termination_by structural blocks => blocks

end

namespace Normalize

/-- Whether a test holds at each place of a list, at every depth. -/
def everywhere (test : Node → List Node → Bool) (nodes : List Node) : Bool :=
  (places nodes).all fun place => test place.1 place.2

/-- Whether a test holds at each place of a list, whatever is inside its nodes. -/
def level (test : Node → List Node → Bool) : List Node → Bool
  | [] => true
  | node :: rest => test node rest && level test rest

/-- A node takes up nothing of what stands behind it. -/
def idle (node : Node) (rest : List Node) : Bool :=
  match node with
  | .ident _ => !startsWith .square rest && !startsWith .curly rest
  | .tag tag =>
    !startsWith .curly rest && (tag.options.isNone && tag.args.isEmpty || (Rule.leadingWhere rest).isNone)
  | _ => true

/-- A node has taken up all the blocks and where blocks behind it, a curly block behind a tag apart. -/
def joined (node : Node) (rest : List Node) : Bool :=
  match node with
  | .ident _ => !startsWith .square rest && !startsWith .curly rest
  | .tag _ => (Rule.leadingWhere rest).isNone
  | _ => true

/-- A node is no tag with a curly block right behind it. -/
def detached (node : Node) (rest : List Node) : Bool := !(node.isTag && startsWith .curly rest)

/-- A node does not start a where block that has another curly block right behind it. -/
def single (node : Node) (rest : List Node) : Bool :=
  match node with
  | .ident ident => !(ident.name == Rule.whereIdent && startsWith .curly rest && startsWith .curly (rest.drop 1))
  | _ => true

theorem detached_of_idle {node : Node} {rest : List Node} (still : idle node rest = true) :
    detached node rest = true := by
  cases node <;> simp_all [idle, detached, Node.isTag]

theorem idle_of_joined {node : Node} {rest : List Node} (whole : joined node rest = true)
    (apart : detached node rest = true) : idle node rest = true := by
  cases node <;> simp_all [idle, joined, detached, Node.isTag]

section Places

variable {test : Node → List Node → Bool} {nodes : List Node}

theorem everywhere_iff : everywhere test nodes = true ↔
    level test nodes = true ∧ ∀ node ∈ nodes, ∀ place ∈ node.inner, test place.1 place.2 = true := by
  unfold everywhere
  induction nodes with
  | nil => simp [places, level]
  | cons node rest ih =>
    simp only [places, level, List.all_cons, List.all_append, Bool.and_eq_true, ih, List.all_eq_true,
      List.forall_mem_cons]
    tauto

theorem level_drop (count : Nat) (holds : level test nodes = true) : level test (nodes.drop count) = true := by
  induction nodes generalizing count with
  | nil => rwa [List.drop_nil]
  | cons node rest ih =>
    cases count with
    | zero => exact holds
    | succ count =>
      simp only [level, Bool.and_eq_true] at holds
      exact ih count holds.2

theorem inner_bracket (block : Block Node) : (Node.bracket block).inner = places block.children := by
  obtain ⟨_, _, _, children⟩ := block
  rfl

theorem blocksPlaces_eq (blocks : List (Block Node)) :
    blocksPlaces blocks = blocks.flatMap fun block => places block.children := by
  induction blocks with
  | nil => rfl
  | cons block blocks ih => rw [blocksPlaces, ih, List.flatMap_cons]

end Places

section Collapse

theorem leadingCurly_eq_nil_iff {nodes : List Node} : leadingCurly nodes = [] ↔ startsWith .curly nodes = false := by
  unfold startsWith leadingBlock leadingCurly
  split
  · split <;> simp
  · simp

theorem attach_eq (tag : Tag Node) (rest : List Node) : attach tag rest =
    if tag.options.isNone && (tag.args ++ leadingCurly rest).isEmpty then none
    else some ({ tag with
      args := tag.args ++ leadingCurly rest
      rules := tag.rules ++ (leadingWheres (rest.drop (leadingCurly rest).length)).1 },
      (leadingCurly rest).length + (leadingWheres (rest.drop (leadingCurly rest).length)).2) := rfl

theorem collapseFrom_eq_drop (skip : Nat) (nodes : List Node) :
    collapseFrom skip nodes = collapseFrom 0 (nodes.drop skip) := by
  induction skip generalizing nodes with
  | zero => rfl
  | succ skip ih =>
    cases nodes with
    | nil => simp [collapseFrom]
    | cons node rest => rw [collapseFrom, ih, List.drop_succ_cons]

theorem collapse_length_le (skip : Nat) (nodes : List Node) : (collapseFrom skip nodes).length ≤ nodes.length - skip := by
  fun_induction collapseFrom skip nodes with
  | case1 => simp
  | case2 skip node rest ih => simpa using ih
  | case3 node rest tag used found ih =>
    simp only [List.length_cons]
    omega
  | case4 node rest none ih =>
    simp only [List.length_cons]
    omega

theorem leadingWheres_of_none {nodes : List Node} (none : Rule.leadingWhere nodes = none) :
    leadingWheres nodes = ([], 0) := by
  unfold leadingWheres
  split
  · rfl
  · rw [none]
    rfl
  · rw [none]

theorem leadingWheres_pos {nodes : List Node} {found : List (Rule Node) × Nat}
    (some : Rule.leadingWhere nodes = some found) (positive : 0 < found.2) : 0 < (leadingWheres nodes).2 := by
  unfold leadingWheres
  split
  · cases some
  · rw [some]
    exact positive
  · rw [some]
    simp only
    omega

theorem leadingWhere_pos {nodes : List Node} {found : List (Rule Node) × Nat}
    (some : Rule.leadingWhere nodes = some found) : 0 < found.2 := by
  unfold Rule.leadingWhere at some
  split at some
  · split at some
    · cases some
      exact Nat.two_pos
    · cases some
  · split at some
    · cases some
      exact Nat.one_pos
    · cases some
  · cases some

theorem tagAt_idle {node : Node} {rest : List Node} (still : idle node rest = true) :
    tagAt node rest = none ∨ ∃ tag, node = .tag tag ∧ tagAt node rest = some (tag, 0) := by
  cases node with
  | ident ident =>
    simp only [idle, startsWith, Bool.and_eq_true, Bool.not_eq_true', Option.isSome_eq_false_iff,
      Option.isNone_iff_eq_none] at still
    have bare : leadingCurly rest = [] := leadingCurly_eq_nil_iff.mpr (by simp [startsWith, still.2])
    left
    simp only [tagAt, still.1, attach_eq, bare]
    rfl
  | tag tag =>
    simp only [idle, Bool.and_eq_true, Bool.not_eq_true', Bool.or_eq_true, Option.isNone_iff_eq_none,
      List.isEmpty_iff] at still
    have bare := leadingCurly_eq_nil_iff.mpr still.1
    simp only [tagAt, attach_eq, bare, List.append_nil, List.length_nil, List.drop_zero]
    rcases still.2 with ⟨none, empty⟩ | alone
    · left
      simp [none, empty]
    · rw [leadingWheres_of_none alone]
      split
      · exact .inl rfl
      · exact .inr ⟨tag, rfl, by simp⟩
  | _ => exact .inl rfl

theorem tagAt_busy {node : Node} {rest : List Node} (busy : idle node rest = false) :
    ∃ tag used, tagAt node rest = some (tag, used) ∧ 0 < used := by
  cases node with
  | ident ident =>
    simp only [tagAt]
    cases leads : leadingBlock .square rest with
    | some options =>
      simp only [attach_eq, Option.isNone_some, Bool.false_and, Bool.false_eq_true, if_false, Option.map_some]
      exact ⟨_, _, rfl, Nat.succ_pos _⟩
    | none =>
      have curly : startsWith .curly rest = true := by simpa [idle, startsWith, leads] using busy
      have full : leadingCurly rest ≠ [] := by simp [ne_eq, leadingCurly_eq_nil_iff, curly]
      simp only [attach_eq]
      rw [if_neg (by simpa using full)]
      have := List.length_pos_iff.mpr full
      exact ⟨_, _, rfl, by omega⟩
  | tag tag =>
    simp only [tagAt, attach_eq]
    by_cases curly : startsWith .curly rest = true
    · have full : leadingCurly rest ≠ [] := by simp [ne_eq, leadingCurly_eq_nil_iff, curly]
      rw [if_neg (by simp [full])]
      have := List.length_pos_iff.mpr full
      exact ⟨_, _, rfl, by omega⟩
    · have bare := leadingCurly_eq_nil_iff.mpr (Bool.eq_false_iff.mpr curly)
      simp only [idle, curly, Bool.not_false, Bool.true_and, Bool.or_eq_false_iff, Option.isNone_eq_false_iff] at busy
      obtain ⟨found, leads⟩ := Option.isSome_iff_exists.mp busy.2
      have := leadingWheres_pos leads (leadingWhere_pos leads)
      rw [bare, List.append_nil, if_neg (by simpa using busy.1)]
      exact ⟨_, _, rfl, by simpa using this⟩
  | _ => cases busy

theorem collapse_of_idle {nodes : List Node} (still : level idle nodes = true) : collapseFrom 0 nodes = nodes := by
  induction nodes with
  | nil => rfl
  | cons node rest ih =>
    simp only [level, Bool.and_eq_true] at still
    rcases tagAt_idle still.1 with none | ⟨tag, rfl, same⟩
    · simp only [collapseFrom, none, ih still.2]
    · simp only [collapseFrom, same, ih still.2]

/-- Where something is taken up, there are fewer nodes afterwards. -/
theorem idle_of_length {nodes : List Node} (kept : nodes.length ≤ (collapseFrom 0 nodes).length) :
    level idle nodes = true := by
  induction nodes with
  | nil => rfl
  | cons node rest ih =>
    simp only [level, Bool.and_eq_true]
    cases still : idle node rest with
    | true =>
      refine ⟨rfl, ih ?_⟩
      rcases tagAt_idle still with none | ⟨tag, rfl, same⟩
      · simpa [collapseFrom, none] using kept
      · simpa [collapseFrom, same] using kept
    | false =>
      obtain ⟨tag, used, found, positive⟩ := tagAt_busy still
      have shorter := collapse_length_le used rest
      simp only [collapseFrom, found, List.length_cons] at kept
      have longer : rest ≠ [] := by
        rintro rfl
        cases node <;> simp [idle, startsWith, leadingBlock, Rule.leadingWhere] at still
      have := List.length_pos_iff.mpr longer
      omega

theorem normalizeEach_eq_map (nodes : List Node) : normalizeEach nodes = nodes.map Node.normalize := by
  induction nodes with
  | nil => rfl
  | cons node rest ih => rw [normalizeEach, ih, List.map_cons]

/-- A list is normal when all of its nodes are, and none of them takes up something. -/
theorem normalize_eq_self_of_each {nodes : List Node}
    (each : normalizeEach nodes = nodes ↔ ∀ node ∈ nodes, ∀ place ∈ node.inner, idle place.1 place.2 = true) :
    normalize nodes = nodes ↔ everywhere idle nodes = true := by
  rw [everywhere_iff, ← each]
  constructor
  · intro same
    have length : (normalizeEach nodes).length = nodes.length := by rw [normalizeEach_eq_map, List.length_map]
    have still := idle_of_length (length.trans (congrArg List.length same).symm).le
    have equal : normalizeEach nodes = nodes := (collapse_of_idle still).symm.trans same
    exact ⟨equal ▸ still, equal⟩
  · rintro ⟨still, same⟩
    rw [normalize, same]
    exact collapse_of_idle still

end Collapse

end Normalize

open Normalize

mutual

theorem Node.normalize_eq_self_iff (node : Node) :
    node.normalize = node ↔ ∀ place ∈ node.inner, idle place.1 place.2 = true := by
  match node with
  | .bracket ⟨kind, opening, closing, children⟩ =>
    simp only [Node.normalize, normalizeBlock, Node.bracket.injEq, Block.mk.injEq, true_and]
    exact (normalize_eq_self_of_each (normalizeEach_eq_self_iff children)).trans List.all_eq_true
  | .quotation opening closing children =>
    simp only [Node.normalize, Node.quotation.injEq, true_and]
    exact (normalize_eq_self_of_each (normalizeEach_eq_self_iff children)).trans List.all_eq_true
  | .fragment children =>
    simp only [Node.normalize, Node.fragment.injEq]
    exact (normalize_eq_self_of_each (normalizeEach_eq_self_iff children)).trans List.all_eq_true
  | .tag ⟨ident, options, attributes, args, rules⟩ =>
    simp only [Node.normalize, Node.tag.injEq, Tag.mk.injEq, true_and, and_true]
    exact normalizeBlocks_eq_self_iff args
  | .command ⟨ident, attributes, args, declaration, rules⟩ =>
    simp only [Node.normalize, Node.command.injEq, Command.mk.injEq, true_and, and_true]
    exact (normalize_eq_self_of_each (normalizeEach_eq_self_iff args)).trans List.all_eq_true
  | .hole | .text _ _ | .symbol _ _ | .ident _ | .stray _ | .drawing _ => simp [Node.normalize, Node.inner]
termination_by structural node

theorem normalizeEach_eq_self_iff (nodes : List Node) : normalizeEach nodes = nodes ↔
    ∀ node ∈ nodes, ∀ place ∈ node.inner, idle place.1 place.2 = true := by
  match nodes with
  | [] => simp [normalizeEach]
  | node :: rest =>
    rw [normalizeEach, List.cons.injEq, List.forall_mem_cons, Node.normalize_eq_self_iff node,
      normalizeEach_eq_self_iff rest]
termination_by structural nodes

theorem normalizeBlocks_eq_self_iff (blocks : List (Block Node)) : normalizeBlocks blocks = blocks ↔
    ∀ place ∈ blocksPlaces blocks, idle place.1 place.2 = true := by
  match blocks with
  | [] => simp [normalizeBlocks, blocksPlaces]
  | ⟨kind, opening, closing, children⟩ :: rest =>
    simp only [normalizeBlocks, normalizeBlock, blocksPlaces, List.cons.injEq, Block.mk.injEq, true_and,
      List.forall_mem_append, normalizeBlocks_eq_self_iff rest]
    exact and_congr_left' ((normalize_eq_self_of_each (normalizeEach_eq_self_iff children)).trans List.all_eq_true)
termination_by structural blocks

end

/-- Normalization leaves just those trees as they are in which nothing takes up what stands behind it. -/
theorem normalize_eq_self_iff (nodes : List Node) : normalize nodes = nodes ↔ everywhere idle nodes = true :=
  normalize_eq_self_of_each (normalizeEach_eq_self_iff nodes)

end Manuscript
