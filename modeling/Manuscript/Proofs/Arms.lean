import Manuscript.Document.Rule
import Mathlib.Data.List.Sort

/-! The arms of a where block. An arm is a curly block, blank text and arrows with one arrow at least, and another curly
block; read from left to right, a block that is the target of an arm is not the pattern of the next. These places are
determined by the list alone, and the rules of the block are what stands there. -/

namespace Manuscript.Rule

/-- The content of the curly block at a place. -/
def contentAt (nodes : List Node) (place : Nat) : Option (List Node) :=
  match nodes[place]? with
  | some (.bracket block) => if block.kind = .curly then some block.children else none
  | _ => none

def isArrow : Node → Bool
  | .symbol value _ => value = "=>"
  | _ => false

/-- What may stand between the two blocks of an arm. -/
def joins (node : Node) : Bool := node.isBlank || isArrow node

/-- Two curly blocks with nothing between them but blank text and arrows, and one arrow at least. -/
structure Spans (nodes : List Node) (first second : Nat) : Prop where
  ordered : first < second
  pattern : (contentAt nodes first).isSome = true
  target : (contentAt nodes second).isSome = true
  between : ∀ place node, first < place → place < second → nodes[place]? = some node → joins node = true
  arrow : ∃ place node, first < place ∧ place < second ∧ nodes[place]? = some node ∧ isArrow node = true

/-- The places of the arms of a list, in order: all pairs of blocks that are an arm and of which the first is not the
target of another one. -/
structure Arms (nodes : List Node) (places : List (Nat × Nat)) : Prop where
  ordered : places.Pairwise fun one other => one.1 < other.1
  taken : ∀ first second, (first, second) ∈ places ↔ Spans nodes first second ∧ ∀ other, (other, first) ∉ places

/-- What ends an arm that is being read and starts none. -/
def separates (node : Node) : Bool := !(node.isCurly || joins node)

/-- The blocks at two places are the pattern and the target of a rule. -/
def Stands (nodes : List Node) (place : Nat × Nat) (rule : Rule Node) : Prop :=
  contentAt nodes place.1 = some rule.pattern ∧ contentAt nodes place.2 = some rule.target

section Parse

variable {node : Node} {rest : List Node}

theorem parseFrom_separator (arm : Arm) (apart : separates node = true) :
    parseFrom arm (node :: rest) = parse rest := by
  cases node with
  | bracket block =>
    have other : block.kind ≠ .curly := by simpa [separates, joins, Node.isCurly, Node.isBlank, isArrow] using apart
    simp [parseFrom, parse, other]
  | text value span =>
    have filled : Blank.isBlank value = false := by
      simpa [separates, joins, Node.isCurly, Node.isBlank, isArrow] using apart
    simp [parseFrom, parse, filled]
  | symbol value span =>
    have other : value ≠ "=>" := by simpa [separates, joins, Node.isCurly, Node.isBlank, isArrow] using apart
    simp [parseFrom, parse, other]
  | _ => simp [parseFrom, parse]

theorem parse_joins (between : joins node = true) : parse (node :: rest) = parse rest := by
  cases node with
  | text value span => simp [parse, parseFrom]
  | symbol value span => simp [parse, parseFrom]
  | _ => simp [joins, Node.isBlank, isArrow] at between

/-- How far an arm has been read behind what stands between its blocks. -/
theorem parseFrom_gap (pattern : List Node) {gap : List Node} (between : ∀ node ∈ gap, joins node = true) :
    parseFrom (.pattern pattern) (gap ++ rest) =
        parseFrom (if gap.any isArrow then .arrow pattern else .pattern pattern) rest ∧
      parseFrom (.arrow pattern) (gap ++ rest) = parseFrom (.arrow pattern) rest := by
  induction gap with
  | nil => exact ⟨rfl, rfl⟩
  | cons node gap ih =>
    obtain ⟨own, others⟩ := List.forall_mem_cons.mp between
    cases node with
    | text value span =>
      have blank : Blank.isBlank value = true := by simpa [joins, Node.isBlank, isArrow] using own
      simpa [parseFrom, blank, isArrow] using ih others
    | symbol value span =>
      have arrow : value = "=>" := by simpa [joins, Node.isBlank, isArrow] using own
      simpa [parseFrom, arrow, isArrow] using (ih others).2
    | _ => simp [joins, Node.isBlank, isArrow] at own

/-- A block that is followed by no target is not heard. -/
theorem parse_unanswered {block : Block Node} (curly : block.kind = .curly) {gap tail : List Node}
    (between : ∀ node ∈ gap, joins node = true) (ends : ∀ node ∈ tail.head?, joins node = false)
    (unanswered : gap.any isArrow = true → ∀ node ∈ tail.head?, node.isCurly = false) :
    parse (.bracket block :: gap ++ tail) = parse tail := by
  have read : parse (.bracket block :: gap ++ tail) =
      parseFrom (if gap.any isArrow then .arrow block.children else .pattern block.children) tail := by
    rw [← (parseFrom_gap block.children between).1]
    simp [parse, parseFrom, curly]
  rw [read]
  cases tail with
  | nil => simp [parse, parseFrom]
  | cons node rest =>
    have stop : joins node = false := ends node rfl
    by_cases open_ : node.isCurly = true
    · have silent : ¬gap.any isArrow = true := fun arrow => by simpa [open_] using unanswered arrow node rfl
      rw [if_neg silent]
      cases node with
      | bracket other =>
        have same : other.kind = .curly := by simpa [Node.isCurly] using open_
        simp [parse, parseFrom, same]
      | _ => cases open_
    · have apart : separates node = true := by simp [separates, open_, stop]
      exact (parseFrom_separator _ apart).trans (parseFrom_separator .start apart).symm

/-- An arm is read, and what stands behind it is read afresh. -/
theorem parse_arm {block other : Block Node} (curly : block.kind = .curly) (target : other.kind = .curly)
    {gap : List Node} (between : ∀ node ∈ gap, joins node = true) (arrow : gap.any isArrow = true) (rest : List Node) :
    parse (.bracket block :: gap ++ .bracket other :: rest) = ⟨block.children, other.children⟩ :: parse rest := by
  have read : parse (.bracket block :: gap ++ .bracket other :: rest) =
      parseFrom (.pattern block.children) (gap ++ .bracket other :: rest) := by
    simp [parse, parseFrom, curly]
  rw [read, (parseFrom_gap block.children between).1, if_pos arrow]
  simp [parse, parseFrom, target]

/-- What stands behind a separator is read as if it stood alone, and so is what stands in front of it. -/
theorem parseFrom_append (arm : Arm) (before : List Node) (apart : separates node = true) (after : List Node) :
    parseFrom arm (before ++ node :: after) = parseFrom arm before ++ parse after := by
  fun_induction parseFrom arm before with
  | case1 arm => exact parseFrom_separator arm apart
  | _ => simp_all [parseFrom]

end Parse

section Places

variable {front tail nodes : List Node} {places : List (Nat × Nat)}

theorem contentAt_behind (place : Nat) : contentAt (front ++ tail) (front.length + place) = contentAt tail place := by
  simp [contentAt, List.getElem?_append_right]

theorem contentAt_isSome {place : Nat} : (contentAt nodes place).isSome = true ↔
    ∃ node, nodes[place]? = some node ∧ node.isCurly = true := by
  unfold contentAt
  split
  next block found => simp [found, Node.isCurly]
  next other =>
    constructor
    · intro impossible
      cases impossible
    · rintro ⟨node, found, curly⟩
      cases node with
      | bracket block => exact absurd found (other block)
      | _ => cases curly

theorem getElem?_behind {place : Nat} {node : Node} : (front ++ tail)[front.length + place]? = some node ↔
    tail[place]? = some node := by
  rw [List.getElem?_append_right (Nat.le_add_right ..), Nat.add_sub_cancel_left]

theorem spans_behind {first second : Nat} :
    Spans (front ++ tail) (front.length + first) (front.length + second) ↔ Spans tail first second := by
  constructor
  · rintro ⟨ordered, pattern, target, between, place, node, after, before, found, arrow⟩
    rw [contentAt_behind] at pattern target
    obtain ⟨place, rfl⟩ := Nat.exists_eq_add_of_le (show front.length ≤ place by omega)
    refine ⟨by omega, pattern, target, ?_, place, node, by omega, by omega, getElem?_behind.mp found, arrow⟩
    intro place node after before found
    exact between (front.length + place) node (by omega) (by omega) (getElem?_behind.mpr found)
  · rintro ⟨ordered, pattern, target, between, place, node, after, before, found, arrow⟩
    rw [← @contentAt_behind front] at pattern target
    refine ⟨by omega, pattern, target, ?_, front.length + place, node, by omega, by omega,
      getElem?_behind.mpr found, arrow⟩
    intro place node after before found
    obtain ⟨place, rfl⟩ := Nat.exists_eq_add_of_le (show front.length ≤ place by omega)
    exact between place node (by omega) (by omega) (getElem?_behind.mp found)

/-- The arms of a list with something in front of it, when the arms that start there are known. -/
theorem Arms.prepend {heads : List (Nat × Nat)} (arms : Arms tail places)
    (ordered : heads.Pairwise fun one other => one.1 < other.1)
    (inside : ∀ place ∈ heads, place.1 < front.length ∧ place.2 < front.length)
    (taken : ∀ first second, first < front.length →
      ((first, second) ∈ heads ↔ Spans (front ++ tail) first second ∧ ∀ other, (other, first) ∉ heads)) :
    Arms (front ++ tail) (heads ++ places.map fun place => (front.length + place.1, front.length + place.2)) := by
  have parts {first second : Nat} : (first, second) ∈
      heads ++ places.map (fun place => (front.length + place.1, front.length + place.2)) ↔
        (first, second) ∈ heads ∨
          ∃ place ∈ places, front.length + place.1 = first ∧ front.length + place.2 = second := by
    simp [Prod.ext_iff]
  constructor
  · refine List.pairwise_append.mpr ⟨ordered, ?_, ?_⟩
    · exact List.pairwise_map.mpr (arms.ordered.imp fun less => Nat.add_lt_add_left less _)
    · intro head member place moved
      obtain ⟨place, _, rfl⟩ := List.mem_map.mp moved
      exact Nat.lt_of_lt_of_le (inside head member).1 (Nat.le_add_right ..)
  · intro first second
    rcases Nat.lt_or_ge first front.length with early | late
    · have alone {other : Nat} : (first, other) ∈ heads ↔ (first, other) ∈
          heads ++ places.map (fun place => (front.length + place.1, front.length + place.2)) := by
        rw [parts]
        exact ⟨.inl, fun either => either.elim id fun ⟨place, _, same, _⟩ => by omega⟩
      have untouched {other : Nat} : (other, first) ∈ heads ↔ (other, first) ∈
          heads ++ places.map (fun place => (front.length + place.1, front.length + place.2)) := by
        rw [parts]
        exact ⟨.inl, fun either => either.elim id fun ⟨place, _, _, same⟩ => by omega⟩
      rw [← alone, taken first second early]
      simp only [untouched]
    · obtain ⟨first, rfl⟩ := Nat.exists_eq_add_of_le late
      have headless {second : Nat} : (front.length + first, second) ∉ heads := fun member =>
        absurd (inside _ member).1 (by simp)
      have uncaught : (∀ other, (other, front.length + first) ∉
          heads ++ places.map (fun place => (front.length + place.1, front.length + place.2))) ↔
            ∀ other, (other, first) ∉ places := by
        simp only [parts, not_or]
        constructor
        · exact fun all other member => (all (front.length + other)).2 ⟨_, member, rfl, rfl⟩
        · refine fun all other => ⟨fun member => absurd (inside _ member).2 (by simp), ?_⟩
          rintro ⟨⟨one, same⟩, member, _, equal⟩
          obtain rfl : same = first := by simpa using equal
          exact all one member
      rw [uncaught, parts]
      constructor
      · rintro (member | ⟨⟨one, other⟩, member, same, rfl⟩)
        · exact absurd member headless
        · obtain rfl : one = first := by simpa using same
          exact ((arms.taken _ _).mp member).imp_left spans_behind.mpr
      · rintro ⟨spans, free⟩
        have above : front.length ≤ second := by
          have := spans.ordered
          omega
        obtain ⟨second, rfl⟩ := Nat.exists_eq_add_of_le above
        exact .inr ⟨_, (arms.taken _ _).mpr ⟨spans_behind.mp spans, free⟩, rfl, rfl⟩

theorem joins_not_curly {node : Node} (between : joins node = true) : node.isCurly = false := by
  cases node with
  | bracket block => cases between
  | _ => rfl

section Gap

variable {block : Block Node} {gap : List Node} (between : ∀ node ∈ gap, joins node = true)
  (ends : ∀ node ∈ tail.head?, joins node = false)

include between ends

/-- An arm that starts with a block ends with the first node behind it that may not stand inside an arm. -/
theorem Spans.at_gap {first second : Nat} (spans : Spans (.bracket block :: gap ++ tail) first second)
    (early : first ≤ gap.length) :
    first = 0 ∧ second = gap.length + 1 ∧ gap.any isArrow = true ∧ ∃ node ∈ tail.head?, node.isCurly = true := by
  have inner {place : Nat} {node : Node} (inside : place < gap.length)
      (found : (.bracket block :: gap ++ tail)[place + 1]? = some node) : node ∈ gap := by
    rw [List.cons_append, List.getElem?_cons_succ, List.getElem?_append_left inside] at found
    exact List.mem_of_getElem? found
  have behind : (.bracket block :: gap ++ tail)[gap.length + 1]? = tail.head? := by
    rw [List.cons_append, List.getElem?_cons_succ, List.getElem?_append_right (Nat.le_refl _), Nat.sub_self,
      List.head?_eq_getElem?]
  obtain ⟨ordered, pattern, target, fill, place, node, after, before, found, arrow⟩ := spans
  have open_ {place : Nat} (content : (contentAt (.bracket block :: gap ++ tail) (place + 1)).isSome = true) :
      gap.length ≤ place := by
    by_contra inside
    obtain ⟨node, found, curly⟩ := contentAt_isSome.mp content
    rw [joins_not_curly (between node (inner (Nat.lt_of_not_le inside) found))] at curly
    cases curly
  obtain rfl : first = 0 := by
    cases first with
    | zero => rfl
    | succ first => exact absurd (open_ pattern) (by omega)
  obtain ⟨second, rfl⟩ := Nat.exists_eq_add_one_of_ne_zero (show second ≠ 0 by omega)
  have late := open_ target
  obtain ⟨other, reached, curly⟩ := contentAt_isSome.mp target
  have last : second = gap.length := by
    by_contra further
    have bound : second + 1 < (.bracket block :: gap ++ tail : List Node).length :=
      (List.getElem?_eq_some_iff.mp reached).1
    obtain ⟨stop, same⟩ : ∃ stop, tail.head? = some stop := by
      cases tail with
      | nil => simp at bound; omega
      | cons stop rest => exact ⟨stop, rfl⟩
    have wrong := fill (gap.length + 1) stop (by omega) (by omega) (behind.trans same)
    rw [ends stop same] at wrong
    cases wrong
  subst last
  rw [behind] at reached
  obtain ⟨place, rfl⟩ := Nat.exists_eq_add_one_of_ne_zero (show place ≠ 0 by omega)
  exact ⟨rfl, rfl, List.any_eq_true.mpr ⟨node, inner (by omega) found, arrow⟩, other, reached, curly⟩

end Gap

theorem Stands.behind (front : List Node) {rules : List (Rule Node)} (stand : List.Forall₂ (Stands tail) places rules) :
    List.Forall₂ (Stands (front ++ tail))
      (places.map fun place => (front.length + place.1, front.length + place.2)) rules := by
  refine List.forall₂_map_left_iff.mpr (stand.imp fun place rule stands => ?_)
  simpa only [Stands, contentAt_behind] using stands

/-- What stands in front of a list and starts no arm leaves the arms of the list. -/
theorem Arms.behind (front : List Node) (arms : Arms tail places)
    (none : ∀ first second, first < front.length → ¬Spans (front ++ tail) first second) :
    Arms (front ++ tail) (places.map fun place => (front.length + place.1, front.length + place.2)) := by
  change Arms (front ++ tail) ([] ++ _)
  refine arms.prepend .nil (fun _ member => absurd member List.not_mem_nil) ?_
  intro first second early
  simp [none first second early]

/-- The blocks around a gap with an arrow in it are an arm. -/
theorem Arms.first {block other : Block Node} (curly : block.kind = .curly) (target : other.kind = .curly)
    {gap : List Node}
    (between : ∀ node ∈ gap, joins node = true) (arrow : gap.any isArrow = true) (arms : Arms tail places)
    (shape : front = .bracket block :: gap ++ [.bracket other]) :
    Arms (front ++ tail)
      ([(0, gap.length + 1)] ++ places.map fun place => (front.length + place.1, front.length + place.2)) := by
  have length : front.length = gap.length + 2 := by simp [shape]
  have split : front ++ tail = .bracket block :: gap ++ .bracket other :: tail := by simp [shape]
  have inner {place : Nat} (inside : place < gap.length) : (front ++ tail)[place + 1]? = gap[place]? := by
    rw [split, List.cons_append, List.getElem?_cons_succ, List.getElem?_append_left inside]
  have last : (front ++ tail)[gap.length + 1]? = some (.bracket other) := by simp [split]
  have arm : Spans (front ++ tail) 0 (gap.length + 1) := by
    refine ⟨Nat.succ_pos _, ?_, ?_, ?_, ?_⟩
    · exact contentAt_isSome.mpr ⟨.bracket block, by rw [split]; rfl, by simp [Node.isCurly, curly]⟩
    · exact contentAt_isSome.mpr ⟨.bracket other, last, by simp [Node.isCurly, target]⟩
    · intro place node after before found
      obtain ⟨place, rfl⟩ := Nat.exists_eq_add_one_of_ne_zero (show place ≠ 0 by omega)
      rw [inner (by omega)] at found
      exact between node (List.mem_of_getElem? found)
    · obtain ⟨node, member, arrow⟩ := List.any_eq_true.mp arrow
      obtain ⟨place, found⟩ := List.mem_iff_getElem?.mp member
      have inside := (List.getElem?_eq_some_iff.mp found).1
      exact ⟨place + 1, node, by omega, by omega, (inner inside).trans found, arrow⟩
  have stop : ∀ node ∈ (Node.bracket other :: tail).head?, joins node = false := by
    rintro _ same
    cases same
    rfl
  refine arms.prepend (List.pairwise_singleton ..) ?_ ?_
  · intro place member
    rw [List.mem_singleton.mp member, length]
    omega
  intro first second early
  rw [List.mem_singleton, Prod.mk.injEq]
  rcases Nat.lt_or_ge gap.length first with late | inside
  · obtain rfl : first = gap.length + 1 := by omega
    constructor
    · rintro ⟨impossible, _⟩
      omega
    · rintro ⟨_, free⟩
      exact absurd (List.mem_singleton_self _) (free 0)
  · constructor
    · rintro ⟨rfl, rfl⟩
      exact ⟨arm, by simp⟩
    · rintro ⟨spans, _⟩
      rw [split] at spans
      obtain ⟨start, last, _⟩ := spans.at_gap between stop inside
      exact ⟨start, last⟩

theorem exists_block {node : Node} (curly : node.isCurly = true) :
    ∃ block, node = .bracket block ∧ block.kind = .curly := by
  cases node with
  | bracket block => exact ⟨block, rfl, beq_iff_eq.mp curly⟩
  | _ => cases curly

/-- A list after a block: what may stand inside an arm, and then a node that may not, if there is one. -/
theorem exists_gap (rest : List Node) : ∃ gap tail, rest = gap ++ tail ∧ (∀ node ∈ gap, joins node = true) ∧
    ∀ node ∈ tail.head?, joins node = false := by
  refine ⟨rest.takeWhile joins, rest.dropWhile joins, List.takeWhile_append_dropWhile.symm, ?_, ?_⟩
  · exact List.all_eq_true.mp List.all_takeWhile
  · intro node same
    have stops := List.head?_dropWhile_not joins rest
    rw [Option.mem_def.mp same] at stops
    simpa using stops

/-- The places of the arms of a list, at which its rules stand. -/
structure ReadAt (nodes : List Node) (places : List (Nat × Nat)) : Prop where
  arms : Arms nodes places
  stand : List.Forall₂ (Stands nodes) places (parse nodes)

theorem ReadAt.other {node : Node} (other : node.isCurly = false) (read : ReadAt tail places) :
    ∃ places, ReadAt (node :: tail) places := by
  have none (first second : Nat) (early : first < [node].length) : ¬Spans ([node] ++ tail) first second := by
    intro spans
    obtain rfl : first = 0 := by simpa using early
    obtain ⟨_, found, curly⟩ := contentAt_isSome.mp spans.pattern
    cases found
    rw [other] at curly
    cases curly
  have same : parse (node :: tail) = parse tail := by
    by_cases between : joins node = true
    · exact parse_joins between
    · exact parseFrom_separator .start (by simp [separates, other, between])
  exact ⟨_, read.arms.behind [node] none, same ▸ Stands.behind [node] read.stand⟩

theorem ReadAt.answered {block other : Block Node} (curly : block.kind = .curly) (target : other.kind = .curly)
    {gap : List Node} (between : ∀ node ∈ gap, joins node = true) (arrow : gap.any isArrow = true)
    (read : ReadAt tail places) : ∃ places, ReadAt (.bracket block :: gap ++ .bracket other :: tail) places := by
  have split :
      .bracket block :: gap ++ .bracket other :: tail = (.bracket block :: gap ++ [.bracket other]) ++ tail := by
    simp
  have stands : Stands (.bracket block :: gap ++ .bracket other :: tail) (0, gap.length + 1)
      ⟨block.children, other.children⟩ := by
    simp [Stands, contentAt, curly, target]
  have behind := Stands.behind (.bracket block :: gap ++ [.bracket other]) read.stand
  have arms := read.arms.first curly target between arrow rfl
  rw [← split] at behind arms
  refine ⟨_, arms, ?_⟩
  rw [parse_arm curly target between arrow]
  exact .cons stands behind

theorem ReadAt.unanswered {block : Block Node} (curly : block.kind = .curly) {gap : List Node}
    (between : ∀ node ∈ gap, joins node = true) (ends : ∀ node ∈ tail.head?, joins node = false)
    (unanswered : ¬(gap.any isArrow = true ∧ ∃ node ∈ tail.head?, node.isCurly = true)) (read : ReadAt tail places) :
    ∃ places, ReadAt (.bracket block :: gap ++ tail) places := by
  have none (first second : Nat) (early : first < (.bracket block :: gap : List Node).length) :
      ¬Spans (.bracket block :: gap ++ tail) first second := fun spans =>
    unanswered (spans.at_gap between ends (Nat.le_of_lt_succ early)).2.2
  have silent : gap.any isArrow = true → ∀ node ∈ tail.head?, node.isCurly = false := fun arrow node same =>
    Bool.eq_false_iff.mpr fun open_ => unanswered ⟨arrow, node, same, open_⟩
  refine ⟨_, read.arms.behind (.bracket block :: gap) none, ?_⟩
  rw [parse_unanswered curly between ends silent]
  exact Stands.behind (.bracket block :: gap) read.stand

/-- The arms of every list can be told, and its rules are what stands there. -/
theorem exists_readAt (nodes : List Node) : ∃ places, ReadAt nodes places := by
  induction length : nodes.length using Nat.strong_induction_on generalizing nodes with
  | _ count ih =>
    cases nodes with
    | nil =>
      have none (first second : Nat) : ¬Spans [] first second := fun spans => by simpa [contentAt] using spans.pattern
      exact ⟨[], ⟨.nil, by simp [none]⟩, .nil⟩
    | cons node rest =>
      rw [List.length_cons] at length
      cases curly : node.isCurly with
      | false =>
        obtain ⟨_, read⟩ := ih rest.length (by omega) rest rfl
        exact read.other curly
      | true =>
        obtain ⟨block, rfl, kind⟩ := exists_block curly
        obtain ⟨gap, tail, rfl, between, ends⟩ := exists_gap rest
        rw [List.length_append] at length
        by_cases answered : gap.any isArrow = true ∧ ∃ node ∈ tail.head?, node.isCurly = true
        · obtain ⟨arrow, head, same, open_⟩ := answered
          obtain ⟨other, rfl, target⟩ := exists_block open_
          obtain ⟨tail, rfl⟩ := List.head?_eq_some_iff.mp same
          rw [List.length_cons] at length
          obtain ⟨_, read⟩ := ih tail.length (by omega) tail rfl
          exact read.answered kind target between arrow
        · obtain ⟨_, read⟩ := ih tail.length (by omega) tail rfl
          exact read.unanswered kind between ends answered

/-- There is one way only to tell the arms of a list. -/
theorem Arms.unique {others : List (Nat × Nat)} (arms : Arms nodes places) (again : Arms nodes others) :
    places = others := by
  -- By induction on the pattern: the arms of which it could be the target start before it.
  have same (first second : Nat) : (first, second) ∈ places ↔ (first, second) ∈ others := by
    induction first using Nat.strong_induction_on generalizing second with
    | _ first ih =>
      rw [arms.taken, again.taken]
      refine and_congr_right fun _ => forall_congr' fun other => not_congr ?_
      by_cases earlier : other < first
      · exact ih other earlier first
      · have late {list : List (Nat × Nat)} (told : Arms nodes list) : (other, first) ∉ list := fun member =>
          earlier ((told.taken other first).mp member).1.ordered
        exact iff_of_false (late arms) (late again)
  have : Std.Irrefl fun one other : Nat × Nat => one.1 < other.1 := ⟨fun _ => Nat.lt_irrefl _⟩
  exact arms.ordered.eq_of_mem_iff again.ordered fun place => same place.1 place.2

end Places

/-- The rules of a where block are its arms, in order. A node that is no curly block, no blank text and no arrow takes
no part in an arm and parts what stands on either side of it. -/
theorem arms_read (nodes : List Node) :
    (∃ places, Arms nodes places ∧ (∀ others, Arms nodes others → others = places) ∧
      List.Forall₂ (Stands nodes) places (parse nodes)) ∧
    ∀ before node after, nodes = before ++ node :: after → separates node = true →
      parse nodes = parse before ++ parse after := by
  obtain ⟨places, arms, stand⟩ := exists_readAt nodes
  refine ⟨⟨places, arms, fun others again => again.unique arms, stand⟩, ?_⟩
  rintro before node after rfl apart
  exact parseFrom_append .start before apart after

namespace Sample

def cell (word : String) : Node := .bracket (.synthesized [.text word {}])

def arrow : Node := .symbol "=>" {}

/-- A target in the place of a pattern, and an arm after it with a blank and two arrows. -/
def chain : List Node := [cell "a", arrow, cell "b", arrow, cell "c", .text " " {}, arrow, arrow, cell "d"]

end Sample

theorem arms_read_chain : separates (.text ";" {}) = true ∧
    (∃ places, Arms (Sample.chain ++ .text ";" {} :: Sample.chain) places ∧
      List.Forall₂ (Stands (Sample.chain ++ .text ";" {} :: Sample.chain)) places
        (parse (Sample.chain ++ .text ";" {} :: Sample.chain))) ∧
    parse (Sample.chain ++ .text ";" {} :: Sample.chain) = parse Sample.chain ++ parse Sample.chain ∧
    (parse Sample.chain).length = 2 := by
  have apart : separates (.text ";" {}) = true := by decide
  obtain ⟨⟨places, arms, _, stand⟩, parted⟩ := arms_read (Sample.chain ++ .text ";" {} :: Sample.chain)
  exact ⟨apart, ⟨places, arms, stand⟩, parted _ _ _ rfl apart, by decide⟩

end Manuscript.Rule
