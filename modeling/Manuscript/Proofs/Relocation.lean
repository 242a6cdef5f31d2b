import Manuscript.Proofs.OutputFiles
import Manuscript.Proofs.Respelling

/-! Files that are moved together. Below the root, joining a directory to a path only puts the segments of the directory
in front. So what an inclusion leads to moves with the file that it stands in, and files that are written below one
directory are read like the same files written below another. -/

namespace Manuscript

namespace Path

/-- A clean path that leads to the root or to something below it. -/
structure Inside (path : String) : Prop where
  clean : IsClean path
  relative : rooted path = false
  low : climb path = 0

instance (path : String) : Decidable (IsClean path) := inferInstanceAs (Decidable (clean path = path))

theorem inside_iff {path : String} : Inside path ↔ IsClean path ∧ rooted path = false ∧ climb path = 0 :=
  ⟨fun inside => ⟨inside.clean, inside.relative, inside.low⟩, fun parts => ⟨parts.1, parts.2.1, parts.2.2⟩⟩

instance (path : String) : Decidable (Inside path) := decidable_of_iff _ inside_iff.symm

theorem fileName_of_segments {path : String} {front : List String} {name : String} (isClean : IsClean path)
    (split : cleanSegments path = front ++ [name]) : fileName path = name := by
  have written : raw path = raw (render (rooted path) (cleanSegments path)) := by rw [← clean_eq, isClean]
  rw [raw_render (cleanSegments_legible path) (by simp [split]), split, ← List.append_assoc] at written
  rw [fileName, written, List.getLast?_concat]
  rfl

theorem length_intercalate {segments : List String} (some : ∀ segment ∈ segments, segment ≠ "") :
    segments.length ≤ ("/".intercalate segments).length := by
  have filled {segment : String} (filled : segment ≠ "") : 1 ≤ segment.length :=
    Nat.one_le_iff_ne_zero.mpr fun none => filled (String.length_eq_zero_iff.mp none)
  induction segments with
  | nil => exact Nat.zero_le _
  | cons segment segments ih =>
    obtain ⟨first, others⟩ := List.forall_mem_cons.mp some
    cases segments with
    | nil =>
      rw [String.intercalate_singleton]
      exact filled first
    | cons second segments =>
      have rest := ih others
      have more := filled first
      rw [String.intercalate_cons_cons, String.length_append, String.length_append, List.length_cons]
      omega

/-- A path has no more segments than characters. -/
theorem length_cleanSegments {path : String} (isClean : IsClean path) : (cleanSegments path).length ≤ path.length := by
  have joined := length_intercalate (cleanSegments_legible path).some
  have written : path.length = (render (rooted path) (cleanSegments path)).length := by rw [← clean_eq, isClean]
  rw [written, render]
  split
  · rw [String.length_append]
    exact joined.trans (Nat.le_add_left ..)
  · split
    next none =>
      rw [none] at joined
      exact joined.trans (Nat.zero_le _)
    next => exact joined

theorem prefix_intercalate (front back : List String) :
    ("/".intercalate front).toList <+: ("/".intercalate (front ++ back)).toList := by
  by_cases none : front = []
  · rw [none, String.intercalate_nil]
    exact List.nil_prefix
  by_cases flat : back = []
  · simp [flat]
  · rw [String.intercalate_append_of_ne_nil none flat, String.toList_append, String.toList_append, List.append_assoc]
    exact List.prefix_append ..

theorem prefix_render (rooted : Bool) {front back : List String} (legible : Legible (front ++ back))
    (some : rooted = false → front ≠ []) : (render rooted front).toList <+: (render rooted (front ++ back)).toList := by
  have joined := prefix_intercalate front back
  cases rooted with
  | true =>
    rw [render, render, if_pos rfl, if_pos rfl, String.toList_append, String.toList_append]
    exact (List.prefix_append_right_inj _).mpr joined
  | false =>
    have first : Legible front :=
      ⟨fun segment member => legible.plain segment (List.mem_append_left _ member),
        fun segment member => legible.some segment (List.mem_append_left _ member)⟩
    have filled := (first.joined_ne (some rfl)).1
    have whole := (legible.joined_ne (List.append_ne_nil_of_left_ne_nil (some rfl) back)).1
    simpa only [render, Bool.false_eq_true, if_false, if_neg filled, if_neg whole] using joined

theorem base_eq {path : String} (some : fileName path ≠ "") : base path = fileName path := by
  have last := takeLastWhile_eq path
  have filled : path ≠ "" := by
    rintro rfl
    exact some (by decide)
  have whole : path.toList.reverse.dropWhile (· = '/') = path.toList.reverse := by
    cases chars : path.toList.reverse with
    | nil => rfl
    | cons c rest =>
      have other : c ≠ '/' := by
        rintro rfl
        rw [takeLastWhile, chars] at last
        exact some (String.toList_inj.mp (last.symm.trans (by simp)))
      simp [other]
  unfold base
  have chars : path.toList.isEmpty = false := by simpa using filled
  simp only [if_neg filled, whole, List.reverse_reverse, chars, Bool.false_eq_true, if_false, last,
    String.ofList_toList]

/-- Paths are cleaned before they are joined. -/
theorem join_clean {directory path : String} (some : directory ≠ "") (relative : rooted path = false) :
    join directory (clean path) = join directory path := by
  obtain ⟨clean_left, rooted_left, segments_left⟩ := join_spec some (clean path)
  obtain ⟨clean_right, rooted_right, segments_right⟩ := join_spec some path
  refine clean_left.ext clean_right (rooted_left.trans rooted_right.symm) ?_
  rw [segments_left, segments_right, (isClean_clean path).follow_raw, cleanSegments_clean, cleanSegments_eq path,
    relative, follow_clean]

theorem join_clean_left {directory : String} (some : directory ≠ "") (path : String) :
    join (clean directory) path = join directory path := by
  obtain ⟨clean_left, rooted_left, segments_left⟩ := join_spec (clean_ne_empty directory) path
  obtain ⟨clean_right, rooted_right, segments_right⟩ := join_spec some path
  refine clean_left.ext clean_right ?_ ?_
  · rw [rooted_left, rooted_right, rooted_clean]
  · rw [segments_left, segments_right, rooted_clean, cleanSegments_clean]

/-- Joining puts relative paths together, in whichever order. -/
theorem join_assoc {first second : String} (some : first ≠ "") (filled : second ≠ "")
    (relative : rooted second = false) (third : String) :
    join (join first second) third = join first (join second third) := by
  obtain ⟨clean_joined, rooted_joined, segments_joined⟩ := join_spec some second
  obtain ⟨clean_left, rooted_left, segments_left⟩ := join_spec (clean_joined ▸ clean_ne_empty _) third
  obtain ⟨clean_right, rooted_right, segments_right⟩ := join_spec some (join second third)
  obtain ⟨clean_inner, _, segments_inner⟩ := join_spec filled third
  refine clean_left.ext clean_right ?_ ?_
  · rw [rooted_left, rooted_right, rooted_joined]
  have led : cleanSegments (join second third) = (follow false [] (raw second ++ raw third)).reverse := by
    rw [segments_inner, relative, follow_append, cleanSegments_eq second, relative, List.reverse_reverse]
  rw [segments_left, segments_right, rooted_joined, segments_joined, List.reverse_reverse, clean_inner.follow_raw, led,
    follow_clean, follow_append]

namespace Inside

variable {directory path other : String}

theorem names (inside : Inside path) : ∀ name ∈ cleanSegments path, IsName name := by
  obtain ⟨names, shape, all, _⟩ := cleanSegments_shape path
  rw [inside.low, List.replicate_zero, List.nil_append] at shape
  exact shape ▸ all

theorem some_segment (inside : Inside path) (below : path ≠ ".") : cleanSegments path ≠ [] := by
  intro none
  have point : IsClean "." := by decide
  exact below (inside.clean.ext point (inside.relative.trans (by decide)) (none.trans (by decide)))

theorem ne_empty (inside : Inside path) : path ≠ "" := by
  intro empty
  exact clean_ne_empty path (inside.clean.trans empty)

/-- Below the root, the last segment is a name. -/
theorem last (inside : Inside path) (below : path ≠ ".") :
    IsName (fileName path) ∧ ∃ front, cleanSegments path = front ++ [fileName path] := by
  refine exists_name inside.clean ?_
  rw [show (cleanSegments path).count ".." = 0 from inside.low]
  exact List.length_pos_of_ne_nil (inside.some_segment below)

theorem segments_join (some : directory ≠ "") (inside : Inside path) :
    cleanSegments (join directory path) = cleanSegments directory ++ cleanSegments path := by
  rw [(join_spec some path).2.2, inside.clean.follow_raw, follow_names _ _ _ inside.names, List.reverse_append,
    List.reverse_reverse, List.reverse_reverse]

theorem length_segments_join (some : directory ≠ "") (inside : Inside path) :
    (cleanSegments path).length ≤ (cleanSegments (join directory path)).length := by
  rw [inside.segments_join some, List.length_append]
  exact Nat.le_add_left ..

/-- The text of a directory that is not the working directory is where the text of a path below it begins. -/
theorem prefix_join (isClean : IsClean directory) (apart : directory ≠ ".") (inside : Inside path) :
    directory.toList <+: (join directory path).toList := by
  have some : directory ≠ "" := isClean ▸ clean_ne_empty directory
  obtain ⟨clean_joined, rooted_joined, _⟩ := join_spec some path
  have whole : render (rooted directory) (cleanSegments directory ++ cleanSegments path) = join directory path := by
    rw [← inside.segments_join some, ← rooted_joined, ← clean_eq, clean_joined]
  have front : render (rooted directory) (cleanSegments directory) = directory := by rw [← clean_eq, isClean]
  have legible := cleanSegments_legible (join directory path)
  rw [inside.segments_join some] at legible
  have prefixed := prefix_render (rooted directory) legible fun root => by
    intro none
    rw [root, none] at front
    exact apart (front.symm.trans (by decide))
  rwa [front, whole] at prefixed

theorem join_injective (some : directory ≠ "") (inside : Inside path) (further : Inside other)
    (same : join directory path = join directory other) : path = other := by
  have segments := congrArg cleanSegments same
  rw [inside.segments_join some, further.segments_join some] at segments
  exact inside.clean.ext further.clean (inside.relative.trans further.relative.symm)
    (List.append_cancel_left segments)

theorem join_inj (some : directory ≠ "") (inside : Inside path) (further : Inside other) :
    join directory path = join directory other ↔ path = other :=
  ⟨inside.join_injective some further, congrArg (join directory)⟩

theorem fileName_join (some : directory ≠ "") (inside : Inside path) (below : path ≠ ".") :
    fileName (join directory path) = fileName path := by
  obtain ⟨_, front, split⟩ := inside.last below
  have joined : cleanSegments (join directory path) = (cleanSegments directory ++ front) ++ [fileName path] := by
    rw [inside.segments_join some, split, List.append_assoc]
  exact fileName_of_segments (join_spec some path).1 joined

theorem ext_join (some : directory ≠ "") (inside : Inside path) (below : path ≠ ".") :
    ext (join directory path) = ext path := by
  rw [ext_eq, inside.fileName_join some below, ← ext_eq]

theorem base_join (some : directory ≠ "") (inside : Inside path) (below : path ≠ ".") :
    base (join directory path) = base path := by
  have same := inside.fileName_join some below
  have name := (inside.last below).1
  rw [base_eq (same ▸ name.some), base_eq name.some, same]

theorem dir (inside : Inside path) : Inside (Path.dir path) := by
  obtain ⟨clean_dir, rooted_dir, segments_dir⟩ := dir_spec inside.clean
  refine ⟨clean_dir, rooted_dir.trans inside.relative, ?_⟩
  rw [climb, segments_dir, List.count_eq_zero]
  intro member
  exact (inside.names _ ((List.dropLast_sublist _).subset member)).climb rfl

theorem length_segments_dir (inside : Inside path) (below : path ≠ ".") :
    (cleanSegments (Path.dir path)).length + 1 = (cleanSegments path).length := by
  have positive := List.length_pos_of_ne_nil (inside.some_segment below)
  rw [(dir_spec inside.clean).2.2, List.length_dropLast]
  exact Nat.sub_add_cancel positive

theorem dir_join (some : directory ≠ "") (inside : Inside path) (below : path ≠ ".") :
    Path.dir (join directory path) = join directory (Path.dir path) := by
  obtain ⟨clean_left, rooted_left, segments_left⟩ := dir_spec (join_spec some path).1
  obtain ⟨clean_right, rooted_right, _⟩ := join_spec some (Path.dir path)
  refine clean_left.ext clean_right ?_ ?_
  · rw [rooted_left, rooted_right, (join_spec some path).2.1]
  · rw [segments_left, inside.segments_join some, inside.dir.segments_join some, (dir_spec inside.clean).2.2,
      List.dropLast_append_of_ne_nil (inside.some_segment below)]

/-- A path inside a directory that is inside is inside. -/
theorem join (first : Inside directory) (inside : Inside path) : Inside (Path.join directory path) := by
  obtain ⟨clean_joined, rooted_joined, _⟩ := join_spec first.ne_empty path
  refine ⟨clean_joined, rooted_joined.trans first.relative, ?_⟩
  rw [climb, inside.segments_join first.ne_empty, List.count_append]
  exact Nat.add_eq_zero_iff.mpr ⟨first.low, inside.low⟩

end Inside

end Path

namespace FileSystem

open Manuscript.Path

/-- What is read from a path, if there is something. -/
def stored (system : FileSystem) (path : String) : Option Bytes := (system.find? path).map FileEntry.content

theorem read_toOption (system : FileSystem) (path : String) : (system.read path).toOption = system.stored path := by
  unfold read stored
  cases system.find? path <;> rfl

theorem stored_attach (system : FileSystem) (key name path : String) :
    (system.adjust key (·.attach name)).stored path = system.stored path := by
  unfold stored
  rw [find?_adjust, Option.map_map]
  congr 1
  funext entry
  rw [Function.comp_apply]
  split <;> rfl

theorem stored_adjust (system : FileSystem) (key path : String) (content : Bytes) :
    (system.adjust key ({ · with content })).stored path =
      (system.stored path).map fun old => if keyOf path = key then content else old := by
  unfold stored
  rw [find?_adjust, Option.map_map, Option.map_map]
  congr 1
  funext entry
  rw [Function.comp_apply, Function.comp_apply]
  split <;> rfl

theorem stored_add (system : FileSystem) (key path : String) (entry : FileEntry) :
    (system.add key entry).stored path =
      (system.stored path).or (if keyOf path = key then some entry.content else none) := by
  unfold stored find? add
  rw [List.lookup_append, Option.map_or, List.lookup_cons]
  congr 1
  by_cases same : keyOf path = key
  · simp [same]
  · simp [same, beq_false_of_ne same]

theorem keyOf_clean (path : String) : IsClean (keyOf path) := by
  unfold keyOf
  dsimp only
  split
  · show clean "/" = "/"
    decide
  · exact isClean_clean path

theorem parentOf_clean (key : String) : IsClean (parentOf key) := keyOf_clean _

theorem keyOf_eq {path : String} (isClean : IsClean path) (name : IsName (fileName path)) : keyOf path = path := by
  have point : path ≠ "." := by
    rintro rfl
    exact name.point (by decide)
  have climb : path ≠ ".." := by
    rintro rfl
    exact name.climb (by decide)
  unfold keyOf
  rw [isClean]
  simp [point, climb]

theorem length_keyOf (path : String) : (cleanSegments (keyOf path)).length ≤ (cleanSegments path).length := by
  unfold keyOf
  dsimp only
  split
  · have none : cleanSegments "/" = [] := by decide
    rw [none]
    exact Nat.zero_le _
  · rw [cleanSegments_clean]

theorem length_parentOf {key : String} (isClean : IsClean key) :
    (cleanSegments (parentOf key)).length ≤ (cleanSegments key).length - 1 := by
  refine (length_keyOf _).trans ?_
  rw [(dir_spec isClean).2.2, List.length_dropLast]

section Below

variable {directory path : String}

theorem keyOf_join (filled : directory ≠ "") (inside : Inside path) (below : path ≠ ".") :
    keyOf (join directory path) = join directory path := by
  refine keyOf_eq (join_spec filled path).1 ?_
  rw [inside.fileName_join filled below]
  exact (inside.last below).1

theorem parentOf_join (filled : directory ≠ "") (inside : Inside path) (below : path ≠ ".")
    (deep : Path.dir path ≠ ".") : parentOf (join directory path) = join directory (Path.dir path) := by
  rw [parentOf, inside.dir_join filled below, keyOf_join filled inside.dir deep]

theorem length_join (filled : directory ≠ "") (inside : Inside path) (below : path ≠ ".") :
    (cleanSegments directory).length < (cleanSegments (join directory path)).length := by
  rw [inside.segments_join filled, List.length_append]
  have positive := List.length_pos_of_ne_nil (inside.some_segment below)
  omega

/-- Making directories down to a directory leaves what is below it. -/
theorem stored_attach_above (filled : directory ≠ "") (inside : Inside path) (below : path ≠ ".") (steps : Nat)
    {key : String} (isClean : IsClean key)
    (above : (cleanSegments key).length ≤ (cleanSegments directory).length + 1) (system : FileSystem) :
    (attach steps system key).stored (join directory path) = system.stored (join directory path) := by
  induction steps generalizing key system with
  | zero => rfl
  | succ steps ih =>
    have shorter := length_parentOf isClean
    unfold attach
    dsimp only
    split
    · exact stored_attach ..
    · have apart : join directory path ≠ parentOf key := by
        intro same
        have longer := length_join filled inside below
        rw [same] at longer
        omega
      rw [ih (parentOf_clean key) (by omega), stored_add, keyOf_join filled inside below, if_neg apart, Option.or_none]

end Below

/-- Below a directory of each, two file systems hold the same. -/
def Mirrors (directory other : String) (system twin : FileSystem) : Prop :=
  ∀ path, Inside path → path ≠ "." → system.stored (join directory path) = twin.stored (join other path)

theorem stored_eq_none {system : FileSystem} {path : String} : system.stored path = none ↔ system.find? path = none :=
  Option.map_eq_none_iff

/-- What is below the one directory is below the other. -/
theorem Mirrors.found {directory other : String} {system twin : FileSystem}
    (mirrors : Mirrors directory other system twin) {path : String} (inside : Inside path) (below : path ≠ ".") :
    system.find? (join directory path) = none ↔ twin.find? (join other path) = none := by
  rw [← stored_eq_none, ← stored_eq_none, mirrors path inside below]

section Mirrors

variable {directory other : String} (filled : directory ≠ "") (further : other ≠ "")

include filled further

theorem Mirrors.add {system twin : FileSystem} (mirrors : Mirrors directory other system twin) {path : String}
    (inside : Inside path) {entry more : FileEntry} (same : entry.content = more.content) :
    Mirrors directory other (system.add (join directory path) entry) (twin.add (join other path) more) := by
  intro place within under
  rw [stored_add, stored_add, mirrors place within under, keyOf_join filled within under,
    keyOf_join further within under, same]
  simp only [within.join_inj filled inside, within.join_inj further inside]

theorem mirrors_empty : Mirrors directory other {} {} := by
  have missing (first : String) (filled : first ≠ "") {path : String} (inside : Inside path) (below : path ≠ ".") :
      stored {} (join first path) = none := by
    have apart : join first path ≠ "/" := by
      intro same
      have longer := length_join filled inside below
      rw [same, show cleanSegments "/" = [] by decide] at longer
      cases longer
    have other : (join first path == "/") = false := beq_false_of_ne apart
    simp only [stored, find?, keyOf_join filled inside below, List.lookup_cons, other, List.lookup_nil, Option.map_none]
  intro path inside below
  rw [missing directory filled inside below, missing other further inside below]

theorem Mirrors.attach {system twin : FileSystem} (mirrors : Mirrors directory other system twin) (steps more : Nat)
    {path : String} (inside : Inside path) (below : path ≠ ".") (enough : (cleanSegments path).length ≤ steps)
    (ample : (cleanSegments path).length ≤ more) :
    Mirrors directory other (attach steps system (join directory path)) (attach more twin (join other path)) := by
  have parents := inside.length_segments_dir below
  induction steps generalizing more path system twin with
  | zero => omega
  | succ steps ih =>
    by_cases top : Path.dir path = "."
    -- the directories are above everything that is compared
    · have shallow : (cleanSegments path).length = 1 := by rw [← parents, top]; decide
      intro place within under
      rw [stored_attach_above filled within under _ (join_spec filled path).1 (by
          rw [inside.segments_join filled, List.length_append, shallow]),
        stored_attach_above further within under _ (join_spec further path).1 (by
          rw [inside.segments_join further, List.length_append, shallow])]
      exact mirrors place within under
    · obtain ⟨more, rfl⟩ : ∃ fewer, more = fewer + 1 := Nat.exists_eq_succ_of_ne_zero (by omega)
      have both := mirrors.found inside.dir top
      unfold FileSystem.attach
      dsimp only
      rw [parentOf_join filled inside below top, parentOf_join further inside below top]
      cases here : system.find? (join directory (Path.dir path)) with
      | none =>
        rw [both.mp here]
        refine ih ?_ more inside.dir top (by omega) (by omega) (inside.dir.length_segments_dir top)
        exact mirrors.add filled further inside.dir rfl
      | some entry =>
        obtain ⟨entry, there⟩ := Option.ne_none_iff_exists'.mp fun none => by rw [both.mpr none] at here; cases here
        rw [there]
        intro place within under
        rw [stored_attach, stored_attach]
        exact mirrors place within under

theorem Mirrors.write {system twin : FileSystem} (mirrors : Mirrors directory other system twin) {path : String}
    (inside : Inside path) (below : path ≠ ".") (content : Bytes) :
    Mirrors directory other (system.write (join directory path) content) (twin.write (join other path) content) := by
  have both := mirrors.found inside below
  unfold FileSystem.write
  rw [keyOf_join filled inside below, keyOf_join further inside below]
  cases here : system.find? (join directory path) with
  | none =>
    rw [both.mp here]
    refine (mirrors.add filled further inside rfl).attach filled further _ _ inside below ?_ ?_
    · exact (inside.length_segments_join filled).trans (length_cleanSegments (join_spec filled path).1)
    · exact (inside.length_segments_join further).trans (length_cleanSegments (join_spec further path).1)
  | some entry =>
    obtain ⟨entry, there⟩ := Option.ne_none_iff_exists'.mp fun none => by rw [both.mpr none] at here; cases here
    rw [there]
    intro place within under
    simp only [stored_adjust, mirrors place within under, keyOf_join filled within under,
      keyOf_join further within under, within.join_inj filled inside, within.join_inj further inside]

theorem Mirrors.writes (files : List (String × Bytes)) (each : ∀ file ∈ files, Inside file.1 ∧ file.1 ≠ ".")
    {system twin : FileSystem} (mirrors : Mirrors directory other system twin) :
    Mirrors directory other (files.foldl (fun system file => system.write (join directory file.1) file.2) system)
      (files.foldl (fun system file => system.write (join other file.1) file.2) twin) := by
  induction files generalizing system twin with
  | nil => exact mirrors
  | cons file files ih =>
    obtain ⟨⟨inside, below⟩, others⟩ := List.forall_mem_cons.mp each
    exact ih others (mirrors.write filled further inside below file.2)

/-- Files with paths below the root are stored below both directories. -/
theorem mirrors_ofFiles (files : List (String × Bytes)) (each : ∀ file ∈ files, Inside file.1 ∧ file.1 ≠ ".") :
    Mirrors directory other (.ofFiles (files.map fun file => (join directory file.1, file.2)))
      (.ofFiles (files.map fun file => (join other file.1, file.2))) := by
  rw [ofFiles, ofFiles, List.foldl_map, List.foldl_map]
  exact (mirrors_empty filled further).writes filled further files each

end Mirrors

end FileSystem

namespace FileTree

open Manuscript.Path

/-- Files below a base, seen from there. -/
def project (base : String) (files : List (String × Bytes)) : FileTree where
  system := .ofFiles (files.map fun file => (join base file.1, file.2))
  base := some base

/-- From a base, a path inside stands for what is below the base. -/
theorem read_inside {tree : FileTree} {base path : String} (based : tree.base = some base) (apart : clean base ≠ ".")
    (inside : Inside path) : tree.read path = tree.system.read (join base path) := by
  have filled : base ≠ "" := by
    rintro rfl
    exact apart (by decide)
  have joined := join_spec (clean_ne_empty base) path
  have found : tree.realPath path = some (join base path) := by
    unfold realPath
    rw [based]
    simp only [show clean (join (clean base) path) = join (clean base) path from joined.1]
    rw [if_pos (List.isPrefixOf_iff_prefix.mpr (inside.prefix_join (isClean_clean base) apart)), join_clean_left filled]
  unfold read
  rw [found]

/-- Where a file is read, it is read from below a directory once all files have been moved there. -/
theorem read_moved {base directory path : String} (apart : clean base ≠ ".") (first : Inside directory)
    (files : List (String × Bytes)) (each : ∀ file ∈ files, Inside file.1 ∧ file.1 ≠ ".") (inside : Inside path)
    (below : path ≠ ".") : ((project base files).read path).toOption =
      ((project base (files.map fun file => (join directory file.1, file.2))).read (join directory path)).toOption := by
  have filled : base ≠ "" := by
    rintro rfl
    exact apart (by decide)
  have together (path : String) : join base (join directory path) = join (join base directory) path :=
    (join_assoc filled first.ne_empty first.relative path).symm
  have full : join base directory ≠ "" := (join_spec filled directory).1 ▸ clean_ne_empty _
  rw [read_inside rfl apart inside, read_inside rfl apart (first.join inside), FileSystem.read_toOption,
    FileSystem.read_toOption, together]
  have mirrors := FileSystem.mirrors_ofFiles filled full files each path inside below
  simp only [project, List.map_map, Function.comp_def, together]
  exact mirrors

end FileTree
end Manuscript
