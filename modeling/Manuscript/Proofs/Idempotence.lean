import Manuscript.Proofs.NormalForm
import Manuscript.Proofs.ResolutionEnds

/-! Normalizing twice. Normalization of a source takes up all that it should, so a second one changes the tree exactly
when the first has left a curly block right behind a tag. That happens only behind a where block. -/

namespace Manuscript

open Node (startsWith leadingBlock leadingCurly)

namespace Normalize

/-- No node of a list is a tag, as before the list is normalized. -/
def untagged (nodes : List Node) : Bool := nodes.all (!·.isTag)

theorem untagged_drop {nodes : List Node} (plain : untagged nodes = true) (count : Nat) :
    untagged (nodes.drop count) = true := by
  simp only [untagged, List.all_eq_true] at plain ⊢
  exact fun node member => plain node (List.mem_of_mem_drop member)

theorem untagged_cons {node : Node} {rest : List Node} : untagged (node :: rest) = true ↔
    node.isTag = false ∧ untagged rest = true := by
  simp [untagged]

theorem leadingWhere_ident (ident : Ident) (rest : List Node) : Rule.leadingWhere (.ident ident :: rest) =
    if ident.name = Rule.whereIdent then (leadingBlock .curly rest).map fun block => (Rule.parse block.children, 2)
    else none := by
  cases rest with
  | nil => simp [Rule.leadingWhere, leadingBlock]
  | cons node rest =>
    cases node with
    | bracket block =>
      by_cases named : ident.name = Rule.whereIdent <;> by_cases curly : block.kind = .curly <;>
        simp [Rule.leadingWhere, leadingBlock, named, curly]
    | _ => simp [Rule.leadingWhere, leadingBlock]

theorem leadingWhere_untagged {nodes : List Node} (plain : untagged nodes = true) {found : List (Rule Node) × Nat}
    (some : Rule.leadingWhere nodes = some found) : ∃ ident rest, nodes = .ident ident :: rest ∧
      ident.name = Rule.whereIdent ∧ startsWith .curly rest = true ∧ found.2 = 2 := by
  cases nodes with
  | nil => cases some
  | cons node rest =>
    cases node with
    | ident ident =>
      rw [leadingWhere_ident] at some
      split at some
      next named =>
        obtain ⟨block, leads, rfl⟩ := Option.map_eq_some_iff.mp some
        exact ⟨ident, rest, rfl, named, by rw [startsWith, leads]; rfl, rfl⟩
      next => cases some
    | tag tag => cases plain
    | _ => cases some

theorem startsWith_drop_leadingCurly (nodes : List Node) :
    startsWith .curly (nodes.drop (leadingCurly nodes).length) = false := by
  fun_induction leadingCurly nodes with
  | case1 block rest _ ih => simpa using ih
  | case2 block rest other => simpa [startsWith, leadingBlock] using other
  | case3 nodes other =>
    rw [List.length_nil, List.drop_zero]
    unfold startsWith leadingBlock
    split
    next block rest => exact absurd rfl (other block rest)
    next => rfl

/-- The where blocks of a list are taken up to the last one. -/
theorem leadingWheres_untagged {nodes : List Node} (plain : untagged nodes = true) :
    Rule.leadingWhere (nodes.drop (leadingWheres nodes).2) = none ∧
      (startsWith .curly nodes = false → level single nodes = true →
        startsWith .curly (nodes.drop (leadingWheres nodes).2) = false) := by
  fun_induction leadingWheres nodes with
  | case1 => exact ⟨rfl, fun _ _ => rfl⟩
  | case2 node =>
    have none : Rule.leadingWhere [node] = none := by
      cases node with
      | tag tag => cases plain
      | _ => rfl
    rw [none]
    exact ⟨none, fun bare _ => bare⟩
  | case3 node next rest none => exact ⟨none, fun bare _ => bare⟩
  | case4 node next rest rules used found more count same _ ih =>
    obtain ⟨ident, others, split, named, curly, two⟩ := leadingWhere_untagged plain found
    cases split
    obtain rfl : used = 2 := two
    have behind := ih (untagged_drop plain 2)
    rw [show leadingWheres rest = (more, count) from same] at behind
    simp only [← List.drop_drop]
    refine ⟨behind.1, fun _ alone => behind.2 ?_ (level_drop 2 alone)⟩
    simp only [level, single, named, beq_self_eq_true, curly, Bool.true_and, Bool.and_eq_true, Bool.not_eq_true'] at alone
    exact alone.1

theorem mem_leadingCurly {nodes : List Node} {block : Block Node} (member : block ∈ leadingCurly nodes) :
    .bracket block ∈ nodes := by
  have listed : Node.bracket block ∈ (leadingCurly nodes).map .bracket := List.mem_map_of_mem member
  rw [← Node.leadingCurly_take] at listed
  exact List.mem_of_mem_take listed

theorem attach_untagged {tag grown : Tag Node} {rest : List Node} {used : Nat} (plain : untagged rest = true)
    (found : attach tag rest = some (grown, used)) :
    grown = { grown with ident := tag.ident, options := tag.options, args := tag.args ++ leadingCurly rest } ∧
      Rule.leadingWhere (rest.drop used) = none ∧
      (level single rest = true → startsWith .curly (rest.drop used) = false) := by
  rw [attach_eq] at found
  split at found
  · cases found
  · cases found
    obtain ⟨none, bare⟩ := leadingWheres_untagged (untagged_drop plain (leadingCurly rest).length)
    rw [← List.drop_drop]
    exact ⟨rfl, none, fun alone => bare (startsWith_drop_leadingCurly rest) (level_drop _ alone)⟩

/-- What an identifier takes up: all of the where blocks behind its arguments, and nothing after them. -/
theorem tagAt_untagged {node : Node} {rest : List Node} {tag : Tag Node} {used : Nat}
    (plain : untagged (node :: rest) = true) (found : tagAt node rest = some (tag, used)) :
    node = .ident tag.ident ∧ (tag.options = none → startsWith .curly rest = true) ∧
      (∀ block ∈ tag.args, .bracket block ∈ rest) ∧ Rule.leadingWhere (rest.drop used) = none ∧
      (level single rest = true → startsWith .curly (rest.drop used) = false) := by
  obtain ⟨own, others⟩ := untagged_cons.mp plain
  cases node with
  | ident ident =>
    simp only [tagAt] at found
    cases leads : leadingBlock .square rest with
    | some options =>
      rw [leads] at found
      obtain ⟨⟨grown, count⟩, attached, same⟩ := Option.map_eq_some_iff.mp found
      cases same
      obtain ⟨same, none, bare⟩ := attach_untagged (untagged_drop others 1) attached
      rw [List.drop_drop, Nat.add_comm] at none bare
      refine ⟨by rw [same], ?_, ?_, none, fun alone => bare (level_drop 1 alone)⟩
      · rw [same]
        intro impossible
        cases impossible
      · rw [same]
        exact fun block member => List.mem_of_mem_drop (mem_leadingCurly member)
    | none =>
      rw [leads] at found
      obtain ⟨same, none, bare⟩ := attach_untagged others found
      refine ⟨by rw [same], ?_, ?_, none, bare⟩
      · intro _
        by_contra curly
        have empty := leadingCurly_eq_nil_iff.mpr (Bool.eq_false_iff.mpr curly)
        rw [attach_eq, empty] at found
        cases found
      · rw [same]
        exact fun block member => mem_leadingCurly member
  | tag other => cases own
  | _ => cases found

theorem leadingBlock_collapse (kind : BracketKind) (nodes : List Node) :
    leadingBlock kind (collapseFrom 0 nodes) = leadingBlock kind nodes := by
  cases nodes with
  | nil => rfl
  | cons node rest =>
    rw [collapseFrom]
    split
    next tag used found =>
      cases node with
      | ident ident => rfl
      | tag other => rfl
      | _ => cases found
    next =>
      cases node with
      | bracket block => rfl
      | _ => rfl

/-- A list that starts with no where block starts with none once it is normalized. -/
theorem leadingWhere_collapse {nodes : List Node} (plain : untagged nodes = true)
    (none : Rule.leadingWhere nodes = none) : Rule.leadingWhere (collapseFrom 0 nodes) = Option.none := by
  cases nodes with
  | nil => rfl
  | cons node rest =>
    rw [collapseFrom]
    split
    next tag used found =>
      obtain ⟨rfl, curly, _⟩ := tagAt_untagged plain found
      rw [leadingWhere_ident] at none
      simp only [Rule.leadingWhere, ite_eq_right_iff, Bool.and_eq_true, decide_eq_true_eq, Option.isNone_iff_eq_none]
      rintro ⟨⟨named, bare⟩, _⟩
      rw [if_pos named, Option.map_eq_none_iff] at none
      have starts := curly bare
      rw [startsWith, none] at starts
      cases starts
    next =>
      cases node with
      | ident ident => rwa [leadingWhere_ident, leadingBlock_collapse, ← leadingWhere_ident]
      | tag tag => cases plain
      | _ => rfl

/-- A test that holds along a list of which nothing is taken up yet passes on to another one, once it is. -/
def Turns (before after : Node → List Node → Bool) : Prop :=
  ∀ nodes, untagged nodes = true → level before nodes = true → level after (collapseFrom 0 nodes) = true

theorem turns_joined : Turns (fun _ _ => true) joined := by
  intro nodes plain level
  clear level
  generalize zero : 0 = skip
  clear zero
  fun_induction collapseFrom skip nodes with
  | case1 => rfl
  | case2 skip node rest ih => exact ih (untagged_cons.mp plain).2
  | case3 node rest tag used found ih =>
    obtain ⟨_, _, _, none, _⟩ := tagAt_untagged plain found
    rw [level, Bool.and_eq_true]
    refine ⟨?_, ih (untagged_cons.mp plain).2⟩
    rw [collapseFrom_eq_drop]
    exact Option.isNone_iff_eq_none.mpr (leadingWhere_collapse (untagged_drop (untagged_cons.mp plain).2 used) none)
  | case4 node rest none ih =>
    rw [level, Bool.and_eq_true]
    refine ⟨?_, ih (untagged_cons.mp plain).2⟩
    cases node with
    | ident ident =>
      cases still : idle (.ident ident) rest with
      | true => simpa only [joined, idle, startsWith, leadingBlock_collapse] using still
      | false =>
        obtain ⟨tag, used, found, _⟩ := tagAt_busy still
        rw [none] at found
        cases found
    | tag tag => cases plain
    | _ => rfl

theorem turns_detached : Turns single detached := by
  intro nodes plain alone
  generalize zero : 0 = skip
  clear zero
  fun_induction collapseFrom skip nodes with
  | case1 => rfl
  | case2 skip node rest ih => exact ih (untagged_cons.mp plain).2 (level_drop 1 alone)
  | case3 node rest tag used found ih =>
    obtain ⟨_, _, _, _, bare⟩ := tagAt_untagged plain found
    rw [level, Bool.and_eq_true]
    refine ⟨?_, ih (untagged_cons.mp plain).2 (level_drop 1 alone)⟩
    rw [detached, collapseFrom_eq_drop, startsWith, leadingBlock_collapse, ← startsWith, bare (level_drop 1 alone)]
    rfl
  | case4 node rest none ih =>
    rw [level, Bool.and_eq_true]
    refine ⟨?_, ih (untagged_cons.mp plain).2 (level_drop 1 alone)⟩
    rw [detached, (untagged_cons.mp plain).1]
    rfl

/-- What is inside the nodes of a list is inside them, or inside tags made of them, once the list is normalized. -/
theorem inner_collapse {test : Node → List Node → Bool} (skip : Nat) {nodes : List Node} (plain : untagged nodes = true)
    (holds : ∀ node ∈ nodes, ∀ place ∈ node.inner, test place.1 place.2 = true) :
    ∀ node ∈ collapseFrom skip nodes, ∀ place ∈ node.inner, test place.1 place.2 = true := by
  fun_induction collapseFrom skip nodes with
  | case1 => exact fun node member => absurd member List.not_mem_nil
  | case2 skip node rest ih =>
    exact ih (untagged_cons.mp plain).2 (List.forall_mem_cons.mp holds).2
  | case3 node rest tag used found ih =>
    obtain ⟨_, _, blocks, _⟩ := tagAt_untagged plain found
    refine List.forall_mem_cons.mpr ⟨?_, ih (untagged_cons.mp plain).2 (List.forall_mem_cons.mp holds).2⟩
    intro place member
    obtain ⟨ident, options, attributes, args, rules⟩ := tag
    rw [Node.inner, blocksPlaces_eq, List.mem_flatMap] at member
    obtain ⟨block, inside, further⟩ := member
    exact holds _ (List.mem_cons_of_mem _ (blocks block inside)) place (inner_bracket block ▸ further)
  | case4 node rest _ ih =>
    obtain ⟨own, others⟩ := List.forall_mem_cons.mp holds
    exact List.forall_mem_cons.mpr ⟨own, ih (untagged_cons.mp plain).2 others⟩

theorem startsWith_normalize (kind : BracketKind) (nodes : List Node) :
    startsWith kind (nodes.map Node.normalize) = startsWith kind nodes := by
  cases nodes with
  | nil => rfl
  | cons node rest =>
    cases node with
    | bracket block =>
      obtain ⟨same, opening, closing, children⟩ := block
      simp only [startsWith, leadingBlock, List.map_cons, Node.normalize, normalizeBlock]
      split <;> rfl
    | _ => rfl

/-- A test that looks at nothing that normalization of the nodes changes. -/
def Stable (test : Node → List Node → Bool) : Prop :=
  ∀ node rest, test node.normalize (rest.map Node.normalize) = test node rest

theorem stable_single : Stable single := by
  intro node rest
  cases node with
  | ident ident =>
    simp only [Node.normalize, single, ← List.map_drop, startsWith_normalize]
  | _ => rfl

theorem Stable.level {test : Node → List Node → Bool} (stable : Stable test) (nodes : List Node) :
    level test (normalizeEach nodes) = level test nodes := by
  rw [normalizeEach_eq_map]
  induction nodes with
  | nil => rfl
  | cons node rest ih => rw [List.map_cons, Normalize.level, Normalize.level, stable, ih]

theorem untagged_normalizeEach (nodes : List Node)
    (lexical : ∀ lexeme ∈ lexemesOf nodes, lexeme.isLexical = true) : untagged (normalizeEach nodes) = true := by
  induction nodes with
  | nil => rfl
  | cons node rest ih =>
    simp only [lexemesOf, List.forall_mem_append] at lexical
    refine untagged_cons.mpr ⟨?_, ih lexical.2⟩
    cases node with
    | tag tag => exact absurd (lexical.1 _ (List.mem_singleton_self _)) (by simp [Parse.Lexeme.isLexical])
    | _ => rfl

section Source

variable {before after : Node → List Node → Bool}

theorem everywhere_of_each (turns : Turns before after) (stable : Stable before) {nodes : List Node}
    (lexical : ∀ lexeme ∈ lexemesOf nodes, lexeme.isLexical = true) (holds : level before nodes = true)
    (each : ∀ node ∈ normalizeEach nodes, ∀ place ∈ node.inner, after place.1 place.2 = true) :
    everywhere after (normalize nodes) = true := by
  have plain := untagged_normalizeEach nodes lexical
  have level := turns _ plain ((stable.level nodes).trans holds)
  exact everywhere_iff.mpr ⟨level, inner_collapse 0 plain each⟩

mutual

theorem inner_normalize (turns : Turns before after) (stable : Stable before) (node : Node)
    (lexical : ∀ lexeme ∈ node.lexemes, lexeme.isLexical = true)
    (holds : ∀ place ∈ node.inner, before place.1 place.2 = true) :
    ∀ place ∈ node.normalize.inner, after place.1 place.2 = true := by
  match node with
  | .bracket ⟨kind, opening, closing, children⟩ =>
    simp only [Node.lexemes, blockLexemes, List.forall_mem_append] at lexical
    obtain ⟨level, deeper⟩ := everywhere_iff.mp (List.all_eq_true.mpr holds)
    have each := inner_normalizeEach turns stable children lexical.1.2 deeper
    exact List.all_eq_true.mp (everywhere_of_each turns stable lexical.1.2 level each)
  | .quotation opening closing children =>
    simp only [Node.lexemes, List.forall_mem_append] at lexical
    obtain ⟨level, deeper⟩ := everywhere_iff.mp (List.all_eq_true.mpr holds)
    have each := inner_normalizeEach turns stable children lexical.1.2 deeper
    exact List.all_eq_true.mp (everywhere_of_each turns stable lexical.1.2 level each)
  | .fragment _ | .tag _ | .command _ =>
    exact absurd (lexical _ (List.mem_singleton_self _)) (by simp [Parse.Lexeme.isLexical])
  | .hole | .text _ _ | .symbol _ _ | .ident _ | .stray _ | .drawing _ =>
    exact fun place member => absurd member List.not_mem_nil
termination_by structural node

theorem inner_normalizeEach (turns : Turns before after) (stable : Stable before) (nodes : List Node)
    (lexical : ∀ lexeme ∈ lexemesOf nodes, lexeme.isLexical = true)
    (holds : ∀ node ∈ nodes, ∀ place ∈ node.inner, before place.1 place.2 = true) :
    ∀ node ∈ normalizeEach nodes, ∀ place ∈ node.inner, after place.1 place.2 = true := by
  match nodes with
  | [] => exact fun node member => absurd member List.not_mem_nil
  | node :: rest =>
    simp only [lexemesOf, List.forall_mem_append] at lexical
    obtain ⟨own, others⟩ := List.forall_mem_cons.mp holds
    exact List.forall_mem_cons.mpr
      ⟨inner_normalize turns stable node lexical.1 own, inner_normalizeEach turns stable rest lexical.2 others⟩
termination_by structural nodes

end

/-- What is true everywhere in a source and turns into something else is that everywhere once it is normalized. -/
theorem everywhere_normalize (turns : Turns before after) (stable : Stable before) {bytes : Bytes}
    (holds : everywhere before (Parse.ofBytes bytes) = true) :
    everywhere after (normalize (Parse.ofBytes bytes)) = true := by
  have formed := (wellFormed_iff _ _ _ none announces_none (fun _ => rfl)).mp (Parse.ofBytes_wellFormed bytes)
  obtain ⟨level, deeper⟩ := everywhere_iff.mp holds
  have each := inner_normalizeEach turns stable _ formed.lexical deeper
  exact everywhere_of_each turns stable formed.lexical level each

end Source

end Normalize

open Normalize

/-- A second normalization changes nothing exactly when the first has left no curly block right behind a tag, and so
whenever no where block of the source has a second curly block right behind it. -/
theorem normalization_idempotent (source : Bytes) :
    (normalize (normalize (Parse.ofBytes source)) = normalize (Parse.ofBytes source) ↔
      everywhere detached (normalize (Parse.ofBytes source)) = true) ∧
    (everywhere single (Parse.ofBytes source) = true →
      normalize (normalize (Parse.ofBytes source)) = normalize (Parse.ofBytes source)) := by
  have whole : everywhere joined (normalize (Parse.ofBytes source)) = true :=
    everywhere_normalize turns_joined (fun _ _ => rfl) (List.all_eq_true.mpr fun _ _ => rfl)
  have alike : normalize (normalize (Parse.ofBytes source)) = normalize (Parse.ofBytes source) ↔
      everywhere detached (normalize (Parse.ofBytes source)) = true := by
    rw [normalize_eq_self_iff]
    simp only [everywhere, List.all_eq_true] at whole ⊢
    constructor
    · exact fun still place member => detached_of_idle (still place member)
    · exact fun apart place member => idle_of_joined (whole place member) (apart place member)
  refine ⟨alike, fun alone => alike.mpr ?_⟩
  exact everywhere_normalize turns_detached stable_single alone

namespace Sample

/-- Options, where blocks inside an argument and one after the other, and a curly block behind a blank. -/
def whered : String :=
  "\\h1[a]" ++ curly ("\\b" ++ curly "x" ++ "\\where!" ++ curly (arm "x" ("\\i" ++ curly "y"))) ++ "\\where!" ++
    curly "" ++ "\\where!" ++ curly (arm "a" "b") ++ " " ++ curly "c"

/-- A where block with another curly block right behind it. -/
def crowded : String := "\\b" ++ curly "x" ++ "\\where!" ++ curly (arm "x" "z") ++ curly "y"

end Sample

theorem normalization_idempotent_whered : everywhere single (Parse.ofString Sample.whered) = true ∧
    normalize (normalize (Parse.ofString Sample.whered)) = normalize (Parse.ofString Sample.whered) := by
  have alone : everywhere single (Parse.ofString Sample.whered) = true := by
    rw [Parse.ofString, Parse.ofBytes, Words.ofBytes_encode]
    decide +kernel
  exact ⟨alone, (normalization_idempotent (Utf8.encode Sample.whered)).2 alone⟩

/-- The second normalization takes the curly block behind the where block for an argument. -/
theorem normalization_repeated :
    normalize (normalize (Parse.ofString Sample.crowded)) ≠ normalize (Parse.ofString Sample.crowded) := by
  rw [ne_eq, normalize_eq_self_iff, Parse.ofString, Parse.ofBytes, Words.ofBytes_encode]
  decide +kernel

end Manuscript
