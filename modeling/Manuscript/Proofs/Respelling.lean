import Manuscript.Proofs.RealPaths

/-! Different paths to one file. Of two of them, the one that climbs higher has the more names after its climbs; so an
inclusion that leads to a file from one of them leads from the other to the same file, by a path that again climbs
higher. -/

namespace Manuscript

namespace Path

/-- A climb takes the last name away, or is one more climb. -/
theorem Normal.climb_counts {kept : List String} (normal : Normal false kept) :
    (kept.count ".." = kept.length ∧ (cleanStep false kept "..").count ".." = kept.count ".." + 1 ∧
      (cleanStep false kept "..").length = kept.length + 1) ∨
    (kept.count ".." < kept.length ∧ (cleanStep false kept "..").count ".." = kept.count ".." ∧
      (cleanStep false kept "..").length + 1 = kept.length) := by
  obtain ⟨climbs, names, rfl, all, _⟩ := normal.shape
  cases names with
  | nil =>
    have more : cleanStep false (List.replicate climbs "..") ".." = List.replicate (climbs + 1) ".." := by
      cases climbs <;> rfl
    left
    rw [List.nil_append, more]
    simp
  | cons name names =>
    obtain ⟨first, _⟩ := List.forall_mem_cons.mp all
    have inside : (names ++ List.replicate climbs "..").count ".." ≤ (names ++ List.replicate climbs "..").length :=
      List.count_le_length
    right
    rw [List.cons_append, cleanStep_back first, List.count_cons_of_ne first.climb, List.length_cons]
    exact ⟨Nat.lt_succ_of_le inside, rfl, rfl⟩

theorem Normal.count_le_follow {kept : List String} (normal : Normal false kept) (segments : List String) :
    kept.count ".." ≤ (Path.follow false kept segments).count ".." := by
  induction segments generalizing kept with
  | nil => exact le_rfl
  | cons segment segments ih =>
    refine le_trans ?_ (ih (normal.step segment))
    by_cases skip : segment = "" ∨ segment = "."
    · rw [cleanStep_skip skip]
    by_cases climb : segment = ".."
    · subst climb
      have counts := normal.climb_counts
      omega
    · rw [cleanStep_name (isName_of_not skip climb), List.count_cons_of_ne (isName_of_not skip climb).climb]

/-- Of two lists of segments, the second has climbed higher, and has the more names left. -/
structure Above (low high : List String) : Prop where
  climbs : low.count ".." ≤ high.count ".."
  names : low.length + high.count ".." ≤ high.length + low.count ".."
  balance : 2 * low.count ".." + high.length ≤ 2 * high.count ".." + low.length

theorem Above.step {low high : List String} (above : Above low high) (first : Normal false low)
    (second : Normal false high) (segment : String) :
    Above (cleanStep false low segment) (cleanStep false high segment) := by
  obtain ⟨climbs, names, balance⟩ := above
  by_cases skip : segment = "" ∨ segment = "."
  · rw [cleanStep_skip skip, cleanStep_skip skip]
    exact ⟨climbs, names, balance⟩
  by_cases climb : segment = ".."
  · subst climb
    have fewer := first.climb_counts
    have more := second.climb_counts
    constructor <;> omega
  · have name := isName_of_not skip climb
    rw [cleanStep_name name, cleanStep_name name]
    constructor <;> simp only [List.count_cons_of_ne name.climb, List.length_cons] <;> omega

theorem Above.follow {low high : List String} (above : Above low high) (first : Normal false low)
    (second : Normal false high) (segments : List String) :
    Above (Path.follow false low segments) (Path.follow false high segments) := by
  induction segments generalizing low high with
  | nil => exact above
  | cons segment segments ih => exact ih (above.step first second segment) (first.step segment) (second.step segment)

theorem normal_reverse (path : String) : Normal (rooted path) (cleanSegments path).reverse := by
  rw [cleanSegments_eq, List.reverse_reverse]
  exact (normal_nil _).follow _

theorem Normal.length_climbs {kept : List String} (normal : Normal true kept) (climbs : Nat) :
    (Path.follow true kept (List.replicate climbs "..")).length = kept.length - climbs := by
  induction climbs generalizing kept with
  | zero => rfl
  | succ climbs ih =>
    obtain ⟨none, names, rfl, all, root⟩ := normal.shape
    obtain rfl := root rfl
    rw [List.replicate_succ, follow_cons, ih (normal.step "..")]
    cases names with
    | nil => simp [cleanStep]
    | cons name names =>
      obtain ⟨first, _⟩ := List.forall_mem_cons.mp all
      rw [List.cons_append, cleanStep_back first, List.length_cons]
      omega

theorem Above.tail {low high : List String} {first second : String} (name : IsName first) (named : IsName second)
    (above : Above (first :: low) (second :: high)) : Above low high := by
  obtain ⟨climbs, names, balance⟩ := above
  rw [List.count_cons_of_ne name.climb, List.count_cons_of_ne named.climb] at climbs names balance
  rw [List.length_cons, List.length_cons] at names balance
  constructor <;> omega

/-- Where more names than climbs are left, the last segment is a name. -/
theorem exists_name {path : String} (isClean : IsClean path)
    (more : (cleanSegments path).count ".." < (cleanSegments path).length) :
    IsName (fileName path) ∧ ∃ front, cleanSegments path = front ++ [fileName path] := by
  obtain ⟨names, shape, all, _⟩ := cleanSegments_shape path
  rcases List.eq_nil_or_concat names with none | ⟨front, last, split⟩
  · rw [shape, none, List.append_nil, List.count_replicate_self, List.length_replicate] at more
    exact absurd more (lt_irrefl _)
  · have written : raw path = raw (render (rooted path) (cleanSegments path)) := by rw [← clean_eq, isClean]
    rw [split, List.concat_eq_append, ← List.append_assoc] at shape
    have some : cleanSegments path ≠ [] := by rw [shape]; simp
    rw [raw_render (cleanSegments_legible path) some] at written
    have same : fileName path = last := by
      rw [fileName, written, shape, ← List.append_assoc, List.getLast?_concat]
      rfl
    rw [same]
    exact ⟨all last (by simp [split]), _, shape⟩

end Path

namespace FileTree

open Manuscript.Path

/-- The second path stands for the same file as the first one and climbs at least as high. -/
structure Respells (tree : FileTree) (path other : String) : Prop where
  first : IsClean path
  second : IsClean other
  root : rooted path = rooted other
  file : tree.realPath path = tree.realPath other
  climbs : climb path ≤ climb other

/-- Only from a base, and only for relative paths, is there more than one path to a file. -/
theorem Respells.eq_or_relative {tree : FileTree} {path other real : String} (respells : tree.Respells path other)
    (found : tree.realPath path = some real) :
    path = other ∨ rooted path = false ∧ ∃ base, tree.base = some base := by
  cases based : tree.base with
  | none =>
    left
    have same := respells.file
    simpa only [realPath, based, Option.some.injEq] using same
  | some base =>
    cases relative : rooted path with
    | true =>
      left
      obtain ⟨_, _, _, flat⟩ := cleanSegments_shape path
      obtain ⟨_, _, _, level⟩ := cleanSegments_shape other
      have climbs : climb path = climb other := by rw [flat relative, level (respells.root ▸ relative)]
      exact realPath_injective respells.first respells.second respells.root climbs found (respells.file ▸ found)
    | false => exact .inr ⟨rfl, base, rfl⟩

theorem Respells.above {tree : FileTree} {path other real base : String} (respells : tree.Respells path other)
    (based : tree.base = some base) (found : tree.realPath path = some real) :
    Above (cleanSegments path).reverse (cleanSegments other).reverse := by
  obtain ⟨names, shape, all, _⟩ := cleanSegments_shape path
  obtain ⟨others, split, each, _⟩ := cleanSegments_shape other
  have left := (realPath_based based respells.first found).2.2
  have right := (realPath_based based respells.second (respells.file ▸ found)).2.2
  have climbs := respells.climbs
  have reached := List.reverse_inj.mp (left.symm.trans right)
  rw [shape, split, follow_append, follow_append, follow_names _ _ _ all, follow_names _ _ _ each] at reached
  have counts := congrArg (List.count "..") reached
  have lengths := congrArg List.length reached
  have plain : names.count ".." = 0 := List.count_eq_zero.mpr fun member => (all _ member).climb rfl
  have bare : others.count ".." = 0 := List.count_eq_zero.mpr fun member => (each _ member).climb rfl
  simp only [List.count_append, List.count_reverse, plain, bare, List.length_append, List.length_reverse,
    Nat.zero_add] at counts lengths
  have fewer : names.length ≤ others.length ∧ climb path + others.length ≤ climb other + names.length := by
    cases root : rooted base with
    | true =>
      have normal : Normal true (cleanSegments base).reverse := root ▸ normal_reverse base
      rw [root, normal.length_climbs, normal.length_climbs] at lengths
      omega
    | false =>
      have first := climbs_balance (cleanSegments base).reverse (climb path)
      have second := climbs_balance (cleanSegments base).reverse (climb other)
      rw [root] at counts lengths
      omega
  have count : (cleanSegments path).count ".." = climb path := rfl
  have counted : (cleanSegments other).count ".." = climb other := rfl
  have size : (cleanSegments path).length = climb path + names.length := by
    rw [shape, List.length_append, List.length_replicate]
  have sized : (cleanSegments other).length = climb other + others.length := by
    rw [split, List.length_append, List.length_replicate]
  constructor <;> rw [List.count_reverse, List.count_reverse, count, counted]
  · exact climbs
  · rw [List.length_reverse, List.length_reverse, size, sized]
    omega
  · rw [List.length_reverse, List.length_reverse, size, sized]
    omega

theorem Respells.fileName_eq {tree : FileTree} {path other real : String} (respells : tree.Respells path other)
    (found : tree.realPath path = some real) (name : IsName (fileName path)) : fileName other = fileName path := by
  rcases respells.eq_or_relative found with rfl | ⟨_, base, based⟩
  · rfl
  · obtain ⟨front, split⟩ := cleanSegments_fileName respells.first name
    have above := respells.above based found
    have inside : front.count ".." ≤ front.length := List.count_le_length
    have more : (cleanSegments other).count ".." < (cleanSegments other).length := by
      have names := above.names
      simp only [List.count_reverse, List.length_reverse, split, List.count_append, List.length_append,
        List.count_singleton, name.climb, beq_iff_eq, if_false, List.length_singleton] at names
      omega
    obtain ⟨named, face, parted⟩ := exists_name respells.second more
    have left := (realPath_based based respells.first found).2.2
    have right := (realPath_based based respells.second (respells.file ▸ found)).2.2
    have ends := List.reverse_inj.mp (left.symm.trans right)
    rw [split, parted, follow_append, follow_append] at ends
    have heads := (cleanStep_name name ..).symm.trans (ends.trans (cleanStep_name named ..))
    exact (List.cons.inj heads).1.symm

/-- An inclusion leads from both paths to one file. -/
theorem Respells.target {tree : FileTree} {path other real : String} (respells : tree.Respells path other)
    (found : tree.realPath path = some real) (name : IsName (fileName path)) (source : String) :
    tree.Respells (join (dir path) source) (join (dir other) source) := by
  have named : IsName (fileName other) := respells.fileName_eq found name ▸ name
  obtain ⟨_, root, segments⟩ := dir_spec respells.first
  obtain ⟨_, level, parts⟩ := dir_spec respells.second
  obtain ⟨first, rooted_first, split⟩ := join_spec (dir_ne_empty path) source
  obtain ⟨second, rooted_second, parted⟩ := join_spec (dir_ne_empty other) source
  refine ⟨first, second, ?_, ?_, ?_⟩
  · rw [rooted_first, rooted_second, root, level, respells.root]
  · exact realPath_target respells.first respells.second name named respells.root found (respells.file ▸ found) source
  · rcases respells.eq_or_relative found with rfl | ⟨relative, base, based⟩
    · exact le_rfl
    · obtain ⟨front, shape⟩ := cleanSegments_fileName respells.first name
      obtain ⟨face, form⟩ := cleanSegments_fileName respells.second named
      have above := respells.above based found
      rw [shape, form, List.reverse_concat, List.reverse_concat] at above
      have low := normal_reverse path
      have high := normal_reverse other
      rw [shape, List.reverse_concat, relative] at low
      rw [form, List.reverse_concat, ← respells.root, relative] at high
      have higher := ((above.tail name named).follow low.tail high.tail (raw source)).climbs
      unfold climb
      rw [split, parted, root, level, ← respells.root, relative, segments, parts, shape, form, List.dropLast_concat,
        List.dropLast_concat, List.count_reverse, List.count_reverse]
      exact higher

/-- An inclusion never leads to a path that climbs less. -/
theorem climb_le_target {path : String} (isClean : IsClean path) (name : IsName (fileName path)) (source : String) :
    climb path ≤ climb (join (dir path) source) := by
  obtain ⟨_, _, _, flat⟩ := cleanSegments_shape path
  cases relative : rooted path with
  | true =>
    rw [flat relative]
    exact Nat.zero_le _
  | false =>
    obtain ⟨front, shape⟩ := cleanSegments_fileName isClean name
    obtain ⟨_, root, segments⟩ := dir_spec isClean
    have low := normal_reverse path
    rw [shape, List.reverse_concat, relative] at low
    have higher := low.tail.count_le_follow (raw source)
    unfold climb
    rw [(join_spec (dir_ne_empty path) source).2.2, root, relative, segments, shape, List.dropLast_concat,
      List.count_reverse, List.count_append, List.count_singleton]
    simpa [name.climb] using higher

end FileTree

end Manuscript
