import Manuscript.Project.Compiler
import Manuscript.Proofs.PathSegments
import Mathlib.Data.List.Nodup
import Mathlib.Data.List.Perm.Subperm
import Mathlib.Data.List.ProdSigma

/-! What paths stand for. Seen from a base, many paths stand for one file, but only one of them for each number of
climbs; and unless the base is rooted, a path that climbs too high stands for no file. -/

namespace Manuscript

namespace Path

/-- How many directories a clean path first goes up. -/
def climb (path : String) : Nat := (cleanSegments path).count ".."

def fileName (path : String) : String := ((raw path).getLast?).getD ""

theorem cleanSegments_shape (path : String) :
    ∃ names, cleanSegments path = List.replicate (climb path) ".." ++ names ∧ (∀ name ∈ names, IsName name) ∧
      (rooted path = true → climb path = 0) := by
  obtain ⟨climbs, names, shape, all, root⟩ := ((normal_nil (rooted path)).follow (raw path)).shape
  have split : cleanSegments path = List.replicate climbs ".." ++ names.reverse := by
    rw [cleanSegments_eq, shape, List.reverse_append, List.reverse_replicate]
  have count : climb path = climbs := by
    have none : names.reverse.count ".." = 0 :=
      List.count_eq_zero.mpr fun member => (all _ (List.mem_reverse.mp member)).climb rfl
    rw [climb, split, List.count_append, List.count_replicate_self, none, Nat.add_zero]
  rw [count]
  exact ⟨names.reverse, split, fun name member => all name (List.mem_reverse.mp member), root⟩

theorem takeLastWhile_eq (path : String) : takeLastWhile (· ≠ '/') path.toList = (fileName path).toList := by
  have whole (chars : List Char) (plain : '/' ∉ chars) : chars.takeWhile (· ≠ '/') = chars :=
    List.takeWhile_eq_self_iff.mpr fun c member => by simpa using fun same : c = '/' => plain (same ▸ member)
  unfold takeLastWhile
  by_cases slash : '/' ∈ path.toList
  · obtain ⟨last, front, split, plain⟩ := List.eq_append_cons_of_mem (List.mem_reverse.mpr slash)
    have chars : path.toList = front.reverse ++ '/' :: last.reverse := by
      rw [← List.reverse_reverse path.toList, split]
      simp
    have parts : raw path = (segments front.reverse).map String.ofList ++ [String.ofList last.reverse] := by
      rw [raw, chars, segments_eq_splitOn, List.splitOn_append_cons_self, segments_eq_splitOn,
        List.splitOn_eq_singleton (fun member => plain (List.mem_reverse.mp member)), List.map_append]
      rfl
    rw [split, List.takeWhile_append_of_pos (by
      intro c member
      simpa using fun same : c = '/' => plain (same ▸ member)), fileName, parts]
    simp
  · rw [whole _ (fun member => slash (List.mem_reverse.mp member)), List.reverse_reverse, fileName, raw_plain slash]
    rfl

theorem fileName_plain (path : String) : '/' ∉ (fileName path).toList := by
  unfold fileName
  cases last : (raw path).getLast? with
  | none => simp
  | some segment => exact mem_raw (List.mem_of_getLast? last)

theorem ext_eq (path : String) : ext path = ext (fileName path) := by
  have same : fileName (fileName path) = fileName path := by
    conv_lhs => rw [fileName, raw_plain (fileName_plain path)]
    rfl
  unfold ext
  rw [takeLastWhile_eq, takeLastWhile_eq, same]

theorem isName_of_source {path : String} (source : LowerCase.lowerText (ext path) = sourceExt) :
    IsName (fileName path) := by
  rw [ext_eq] at source
  constructor
  all_goals
    intro same
    rw [same] at source
    revert source
    decide

private theorem climb_step (kept : List String) :
    2 * (cleanStep false kept "..").count ".." + kept.length =
      2 * kept.count ".." + (cleanStep false kept "..").length + 1 := by
  cases kept with
  | nil => rfl
  | cons last rest =>
    by_cases climb : last = ".."
    · subst climb
      simp [cleanStep]
      omega
    · simp [cleanStep, climb]
      omega

/-- Climbing from a relative path takes names away or leads outside. -/
theorem climbs_balance (kept : List String) (climbs : Nat) :
    2 * (follow false kept (List.replicate climbs "..")).count ".." + kept.length =
      2 * kept.count ".." + (follow false kept (List.replicate climbs "..")).length + climbs := by
  induction climbs generalizing kept with
  | zero => rfl
  | succ climbs ih =>
    have first := climb_step kept
    have others := ih (cleanStep false kept "..")
    rw [List.replicate_succ, follow_cons]
    omega

theorem climbs_le (kept : List String) (climbs : Nat) :
    climbs ≤ (follow false kept (List.replicate climbs "..")).count ".." + kept.length := by
  have balance := climbs_balance kept climbs
  have inside : (follow false kept (List.replicate climbs "..")).count ".." ≤
      (follow false kept (List.replicate climbs "..")).length := List.count_le_length
  omega

theorem cleanSegments_fileName {path : String} (isClean : IsClean path) (name : IsName (fileName path)) :
    ∃ front, cleanSegments path = front ++ [fileName path] := by
  have written : raw path = raw (render (rooted path) (cleanSegments path)) := by rw [← clean_eq, isClean]
  by_cases some : cleanSegments path = []
  · exfalso
    rw [some] at written
    cases root : rooted path with
    | true =>
      have empty : fileName path = "" := by rw [fileName, written, root]; rfl
      exact name.some empty
    | false =>
      have point : fileName path = "." := by rw [fileName, written, root]; rfl
      exact name.point point
  · rw [raw_render (cleanSegments_legible path) some] at written
    have last : fileName path = (cleanSegments path).getLast some := by
      rw [fileName, written, List.getLast?_append, List.getLast?_eq_some_getLast some]
      rfl
    exact ⟨(cleanSegments path).dropLast, by rw [last, List.dropLast_concat_getLast]⟩

theorem dir_ne_empty (path : String) : dir path ≠ "" := clean_ne_empty _

/-- A path that is followed from the directory of a relative one leads below a base to where both lead. -/
theorem follow_target {path : String} (isClean : IsClean path) (relative : rooted path = false) (source : String)
    (root : Bool) (kept : List String) :
    follow root kept (cleanSegments (join (dir path) source)) =
      follow root (follow root kept (cleanSegments path).dropLast) (raw source) := by
  obtain ⟨_, rooted_dir, segments_dir⟩ := dir_spec isClean
  have normal : Normal false (cleanSegments path).dropLast.reverse := by
    rw [cleanSegments_eq, List.dropLast_reverse, List.reverse_reverse, relative]
    exact ((normal_nil _).follow _).tail
  have back := normal.follow_reverse
  rw [List.reverse_reverse] at back
  rw [(join_spec (dir_ne_empty path) source).2.2, rooted_dir, relative, segments_dir, ← back, ← follow_append,
    follow_clean, follow_append]

end Path

namespace FileTree

open Manuscript.Path

/-- A path below a base is followed from where the base leads. -/
theorem realPath_based {tree : FileTree} {base : String} (based : tree.base = some base) {path real : String}
    (isClean : IsClean path) (found : tree.realPath path = some real) :
    IsClean real ∧ rooted real = rooted base ∧
      cleanSegments real = (follow (rooted base) (cleanSegments base).reverse (cleanSegments path)).reverse := by
  have joined := join_spec (clean_ne_empty base) path
  rw [rooted_clean, cleanSegments_clean, isClean.follow_raw] at joined
  unfold realPath at found
  rw [based] at found
  simp only [show clean (join (clean base) path) = join (clean base) path from joined.1] at found
  split at found
  · cases found
    exact joined
  · cases found

theorem realPath_isClean {tree : FileTree} {path real : String} (isClean : IsClean path)
    (found : tree.realPath path = some real) : IsClean real := by
  cases based : tree.base with
  | none =>
    simp only [realPath, based, Option.some.injEq] at found
    exact found ▸ isClean
  | some base => exact (realPath_based based isClean found).1

/-- Of the paths that climb equally high, one stands for a file. -/
theorem realPath_injective {tree : FileTree} {path other real : String} (first : IsClean path) (second : IsClean other)
    (root : rooted path = rooted other) (climbs : climb path = climb other) (found : tree.realPath path = some real)
    (same : tree.realPath other = some real) : path = other := by
  cases based : tree.base with
  | none =>
    simp only [realPath, based, Option.some.injEq] at found same
    exact found.trans same.symm
  | some base =>
    obtain ⟨names, shape, all, _⟩ := cleanSegments_shape path
    obtain ⟨others, split, each, _⟩ := cleanSegments_shape other
    have left := (realPath_based based first found).2.2
    have right := (realPath_based based second same).2.2
    rw [shape, follow_append, follow_names _ _ _ all, List.reverse_append, List.reverse_reverse] at left
    rw [split, follow_append, follow_names _ _ _ each, List.reverse_append, List.reverse_reverse, ← climbs] at right
    refine first.ext second root ?_
    rw [shape, split, climbs, List.append_cancel_left (left.symm.trans right)]

theorem read_of_realPath {tree : FileTree} {path other : String} {data : Bytes} (found : tree.read path = .ok data)
    (same : tree.realPath path = tree.realPath other) : tree.read other = .ok data := by
  unfold read at found ⊢
  rw [← same]
  cases real : tree.realPath path with
  | none => simp [real] at found
  | some real => simpa [real] using found

/-- The paths of a file system that something can be read from. -/
def readable (tree : FileTree) : List String := tree.system.entries.map Prod.fst ++ [".", ".."]

theorem read_readable {tree : FileTree} {path : String} {data : Bytes} (isClean : IsClean path)
    (found : tree.read path = .ok data) : ∃ real, tree.realPath path = some real ∧ real ∈ tree.readable := by
  unfold read at found
  split at found
  next real same =>
    refine ⟨real, same, ?_⟩
    have cleaned : clean real = real := realPath_isClean isClean same
    unfold FileSystem.read at found
    split at found
    next entry stored =>
      unfold FileSystem.find? FileSystem.keyOf at stored
      rw [cleaned] at stored
      dsimp only at stored
      by_cases top : real = "." ∨ real = ".."
      · rcases top with rfl | rfl <;> simp [readable]
      · rw [if_neg (by simpa using top)] at stored
        obtain ⟨front, back, split, _⟩ := List.lookup_eq_some_iff.mp stored
        simp [readable, split]
    next => cases found
  next => cases found

theorem read_mem {tree : FileTree} {path : String} {data : Bytes} (found : tree.read path = .ok data) :
    data ∈ tree.system.entries.map fun stored => stored.2.content := by
  unfold read FileSystem.read FileSystem.find? at found
  split at found
  · split at found
    next entry stored =>
      cases found
      obtain ⟨front, back, split, _⟩ := List.lookup_eq_some_iff.mp stored
      simp [split]
    next => cases found
  next => cases found

/-- Where an inclusion leads is decided by the file it stands in, not by the path that file was reached by. -/
theorem realPath_target {tree : FileTree} {path other real : String} (first : IsClean path) (second : IsClean other)
    (name : IsName (fileName path)) (named : IsName (fileName other)) (root : rooted path = rooted other)
    (found : tree.realPath path = some real) (same : tree.realPath other = some real) (source : String) :
    tree.realPath (join (dir path) source) = tree.realPath (join (dir other) source) := by
  cases based : tree.base with
  | none =>
    simp only [realPath, based, Option.some.injEq] at found same
    rw [found, same]
  | some base =>
    cases relative : rooted path with
    | true =>
      obtain ⟨_, _, _, flat⟩ := cleanSegments_shape path
      obtain ⟨_, _, _, level⟩ := cleanSegments_shape other
      have climbs : climb path = climb other := by rw [flat relative, level (root ▸ relative)]
      rw [realPath_injective first second root climbs found same]
    | false =>
      have left := (realPath_based based first found).2.2
      have right := (realPath_based based second same).2.2
      obtain ⟨front, split⟩ := cleanSegments_fileName first name
      obtain ⟨face, parted⟩ := cleanSegments_fileName second named
      have heads : fileName path :: follow (rooted base) (cleanSegments base).reverse front =
          fileName other :: follow (rooted base) (cleanSegments base).reverse face := by
        have ends := List.reverse_inj.mp (left.symm.trans right)
        rw [split, parted, follow_append, follow_append] at ends
        exact (cleanStep_name name ..).symm.trans (ends.trans (cleanStep_name named ..))
      have lead (target : String) (clean_target : IsClean target) :
          cleanSegments (join (clean base) target) =
            (follow (rooted base) (cleanSegments base).reverse (cleanSegments target)).reverse := by
        rw [(join_spec (clean_ne_empty base) target).2.2, rooted_clean, cleanSegments_clean, clean_target.follow_raw]
      have reached : join (clean base) (join (dir path) source) = join (clean base) (join (dir other) source) := by
        obtain ⟨clean_path, rooted_path, _⟩ := join_spec (clean_ne_empty base) (join (dir path) source)
        obtain ⟨clean_other, rooted_other, _⟩ := join_spec (clean_ne_empty base) (join (dir other) source)
        refine clean_path.ext clean_other (rooted_path.trans rooted_other.symm) ?_
        rw [lead _ (join_spec (dir_ne_empty path) source).1, lead _ (join_spec (dir_ne_empty other) source).1,
          follow_target first relative, follow_target second (root ▸ relative), split, parted, List.dropLast_concat,
          List.dropLast_concat, (List.cons.inj heads).2]
      unfold realPath
      rw [based]
      dsimp only
      rw [reached]

/-- From a base that is not rooted, a path that climbs out of it stands for a file that is out of it as well. -/
theorem climb_le {tree : FileTree} (relative : ∀ base ∈ tree.base, rooted base = false) {path real : String}
    (isClean : IsClean path) (found : tree.realPath path = some real) :
    climb path ≤ climb real + ((tree.base.map cleanSegments).getD []).length := by
  cases based : tree.base with
  | none =>
    simp only [realPath, based, Option.some.injEq] at found
    rw [found]
    exact Nat.le_add_right ..
  | some base =>
    obtain ⟨names, shape, all, _⟩ := cleanSegments_shape path
    have parts := (realPath_based based isClean found).2.2
    rw [relative base based, shape, follow_append, follow_names _ _ _ all, List.reverse_append,
      List.reverse_reverse] at parts
    have climbs := climbs_le (cleanSegments base).reverse (climb path)
    have inside : (follow false (cleanSegments base).reverse (List.replicate (climb path) "..")).count ".." ≤
        climb real := by
      show _ ≤ (cleanSegments real).count ".."
      rw [parts, List.count_append, List.count_reverse]
      exact Nat.le_add_right ..
    rw [List.length_reverse] at climbs
    exact climbs.trans (Nat.add_le_add_right inside _)

/-- Clean paths to files are few when none of them climbs higher than `height`. -/
theorem length_le_of_climbs {tree : FileTree} {height : Nat} {root : Bool} (paths : List String) (distinct : paths.Nodup)
    (each : ∀ path ∈ paths, IsClean path ∧ rooted path = root ∧ climb path ≤ height ∧
      ∃ data, tree.read path = .ok data) :
    paths.length ≤ (height + 1) * tree.readable.length := by
  let key (path : String) : Nat × String := (climb path, (tree.realPath path).getD "")
  have keyed : ∀ path ∈ paths, key path ∈ List.range (height + 1) ×ˢ tree.readable := by
    intro path member
    obtain ⟨isClean, _, low, data, found⟩ := each path member
    obtain ⟨real, same, stored⟩ := read_readable isClean found
    simp only [key, same, Option.getD_some, List.mem_product, List.mem_range]
    exact ⟨Nat.lt_succ_of_le low, stored⟩
  have injective : ∀ path ∈ paths, ∀ other ∈ paths, key path = key other → path = other := by
    intro path member other further same
    obtain ⟨isClean, root_path, _, data, found⟩ := each path member
    obtain ⟨cleaned, root_other, _, content, read⟩ := each other further
    obtain ⟨real, first, _⟩ := read_readable isClean found
    obtain ⟨place, second, _⟩ := read_readable cleaned read
    obtain ⟨climbs, reals⟩ := Prod.mk.inj same
    rw [first, second, Option.getD_some, Option.getD_some] at reals
    exact realPath_injective isClean cleaned (root_path.trans root_other.symm) climbs first (reals ▸ second)
  have few := List.Nodup.subperm ((List.nodup_map_iff_inj_on distinct).mpr injective) (List.forall_mem_map.mpr keyed)
  have counted := few.length_le
  rwa [List.length_map, List.length_product, List.length_range] at counted

end FileTree

end Manuscript
