import Manuscript.Proofs.Relocation

/-! What a project lists. A walk goes down by the names that directories list, so it comes to each file once if each
directory lists a name once, and the path it gives is the clean one below where it started. File systems that are put
together by writing files list names so. -/

namespace Manuscript

namespace Path

/-- A name on its own is a path with one segment. -/
theorem inside_name {name : String} (isName : IsName name) (plain : '/' ∉ name.toList) :
    Inside name ∧ cleanSegments name = [name] := by
  have relative : rooted name = false := by
    rw [rooted, decide_eq_false_iff_not]
    exact fun slash => plain (List.mem_of_head? slash)
  have segments : cleanSegments name = [name] := by
    rw [cleanSegments_eq, raw_plain plain, relative]
    exact congrArg List.reverse (cleanStep_name isName false [])
  refine ⟨⟨?_, relative, ?_⟩, segments⟩
  · rw [IsClean, clean_eq, segments, relative]
    simp [render, isName.some]
  · rw [climb, segments, List.count_eq_zero]
    exact fun member => isName.climb (List.mem_singleton.mp member).symm

end Path

open Manuscript.Path

namespace FileSystem

/-- Every directory lists a name once, and the names are single segments of paths. -/
def Orderly (system : FileSystem) : Prop :=
  ∀ path entry keys, (path, entry) ∈ system.entries → entry.below = some keys →
    (keys.map base).Nodup ∧ ∀ name ∈ keys.map base, IsName name ∧ '/' ∉ name.toList

theorem mem_of_find? {system : FileSystem} {path : String} {entry : FileEntry}
    (found : system.find? path = some entry) : (keyOf path, entry) ∈ system.entries := by
  obtain ⟨front, back, split, _⟩ := List.lookup_eq_some_iff.mp found
  rw [split]
  exact List.mem_append_right _ (List.mem_cons_self ..)

end FileSystem

theorem except_bind_eq_ok {ε α β : Type} {first : Except ε α} {next : α → Except ε β} {result : β} :
    first >>= next = .ok result ↔ ∃ value, first = .ok value ∧ next value = .ok result := by
  cases first <;> simp [bind, Except.bind]

namespace FileTree

/-- What a walk finds below a path: each once, and by clean paths below it. -/
structure Finds (path : String) (found : List String) : Prop where
  once : found.Nodup
  inside : ∀ file ∈ found, Inside file
  below : ∀ file ∈ found, cleanSegments path <+: cleanSegments file

variable {tree : FileTree} {path : String}

theorem finds_self (inside : Inside path) : Finds path [path] := by
  refine ⟨List.nodup_singleton path, ?_, ?_⟩
  · exact List.forall_mem_singleton.mpr inside
  · exact List.forall_mem_singleton.mpr (List.prefix_refl _)

theorem Finds.segment {name : String} {found : List String} (inside : Inside path) (isName : IsName name)
    (plain : '/' ∉ name.toList) (finds : Finds (join path name) found) {file : String} (member : file ∈ found) :
    cleanSegments path ++ [name] <+: cleanSegments file := by
  obtain ⟨single, segments⟩ := inside_name isName plain
  have below := finds.below file member
  rwa [single.segments_join inside.ne_empty, segments] at below

/-- What a directory holds is what its names lead to, one after the other. -/
theorem finds_names (inside : Inside path) {walk : String → Except Failure (List String)}
    (finds : ∀ name found, Inside name → walk name = .ok found → Finds (join path name) found)
    {names : List String} (distinct : names.Nodup) (named : ∀ name ∈ names, IsName name ∧ '/' ∉ name.toList)
    {found : List (List String)} (walked : names.mapM walk = .ok found) : Finds path found.flatten ∧
      ∀ file ∈ found.flatten, ∃ name ∈ names, cleanSegments path ++ [name] <+: cleanSegments file := by
  induction names generalizing found with
  | nil =>
    cases walked
    exact ⟨⟨List.nodup_nil, by simp, by simp⟩, by simp⟩
  | cons name names ih =>
    rw [List.mapM_cons] at walked
    obtain ⟨here, first, walked⟩ := except_bind_eq_ok.mp walked
    obtain ⟨others, later, result⟩ := except_bind_eq_ok.mp walked
    cases result
    obtain ⟨new, distinct⟩ := List.nodup_cons.mp distinct
    obtain ⟨⟨isName, plain⟩, named⟩ := List.forall_mem_cons.mp named
    obtain ⟨rest, under⟩ := ih distinct named later
    have own := finds name here (inside_name isName plain).1 first
    have segment : ∀ file ∈ here, cleanSegments path ++ [name] <+: cleanSegments file :=
      fun file => own.segment inside isName plain
    have apart : ∀ file ∈ here, file ∉ others.flatten := by
      intro file member again
      obtain ⟨other, listed, longer⟩ := under file again
      have same := List.prefix_of_prefix_length_le (segment file member) longer (by simp)
      obtain rfl := List.singleton_inj.mp (((List.prefix_append_right_inj _).mp same).eq_of_length rfl)
      exact new listed
    rw [List.flatten_cons]
    refine ⟨⟨?_, ?_, ?_⟩, ?_⟩
    · refine List.nodup_append.mpr ⟨own.once, rest.once, ?_⟩
      rintro file member other again rfl
      exact apart file member again
    · exact List.forall_mem_append.mpr ⟨own.inside, rest.inside⟩
    · refine List.forall_mem_append.mpr ⟨fun file member => ?_, rest.below⟩
      exact (List.prefix_append ..).trans (segment file member)
    · refine List.forall_mem_append.mpr ⟨fun file member => ?_, fun file member => ?_⟩
      · exact ⟨name, List.mem_cons_self .., segment file member⟩
      · obtain ⟨other, listed, longer⟩ := under file member
        exact ⟨other, List.mem_cons_of_mem _ listed, longer⟩

theorem walk_finds (orderly : tree.system.Orderly) (depth : Nat) (inside : Inside path) {found : List String}
    (walked : tree.walk depth path = .ok found) : Finds path found := by
  induction depth generalizing path found with
  | zero =>
    cases walked
    exact ⟨List.nodup_nil, by simp, by simp⟩
  | succ depth ih =>
    unfold walk at walked
    split at walked
    · cases walked
    next real _ =>
      split at walked
      · cases walked
      · cases walked
        exact finds_self inside
      next content keys stored =>
        obtain ⟨below, listed, result⟩ := except_bind_eq_ok.mp walked
        cases result
        obtain ⟨distinct, named⟩ := orderly _ _ keys (FileSystem.mem_of_find? stored) rfl
        have sorted := List.mergeSort_perm (keys.map Path.base) fun name other => decide (name ≤ other)
        have finds (name : String) (found : List String) (single : Inside name)
            (walked : tree.walk depth (join path name) = .ok found) : Finds (join path name) found :=
          ih (inside.join single) walked
        exact (finds_names inside finds (sorted.nodup_iff.mpr distinct)
          (fun name member => named name (sorted.mem_iff.mp member)) listed).1

end FileTree

namespace FileSystem

/-- What something below the root is kept under, if paths do not climb; `root` tells whether it is written from the
root. -/
structure IsKey (root : Bool) (key : String) : Prop where
  clean : IsClean key
  written : rooted key = root
  low : climb key = 0
  below : cleanSegments key ≠ []

namespace IsKey

variable {root : Bool} {key other : String}

theorem last (isKey : IsKey root key) :
    IsName (fileName key) ∧ ∃ front, cleanSegments key = front ++ [fileName key] := by
  refine exists_name isKey.clean ?_
  rw [show (cleanSegments key).count ".." = 0 from isKey.low]
  exact List.length_pos_of_ne_nil isKey.below

theorem keyOf (isKey : IsKey root key) : FileSystem.keyOf key = key := keyOf_eq isKey.clean isKey.last.1

theorem base (isKey : IsKey root key) : Path.base key = fileName key := base_eq isKey.last.1.some

/-- The directory above is the root or something below it. -/
theorem parent (isKey : IsKey root key) : cleanSegments (parentOf key) = (cleanSegments key).dropLast ∧
    (parentOf key ≠ "/" → IsKey root (parentOf key)) := by
  obtain ⟨clean, written, segments⟩ := dir_spec isKey.clean
  have low : climb (dir key) = 0 := by
    have none := List.count_eq_zero.mp (isKey.low : (cleanSegments key).count ".." = 0)
    rw [climb, segments, List.count_eq_zero]
    exact fun member => none ((List.dropLast_sublist _).subset member)
  by_cases top : (cleanSegments key).dropLast = []
  · have same : parentOf key = "/" := by
      rw [top] at segments
      have flat : dir key = render root [] := by
        rw [← clean, clean_eq, written, isKey.written, segments]
      rw [parentOf, flat]
      cases root <;> decide
    rw [same, top]
    exact ⟨by decide, fun apart => absurd rfl apart⟩
  · have isDirectory : IsKey root (dir key) := ⟨clean, written.trans isKey.written, low, segments ▸ top⟩
    rw [parentOf, isDirectory.keyOf]
    exact ⟨segments, fun _ => isDirectory⟩

theorem segments (isKey : IsKey root key) : cleanSegments key = cleanSegments (parentOf key) ++ [fileName key] := by
  obtain ⟨_, front, split⟩ := isKey.last
  rw [isKey.parent.1, split, List.dropLast_concat]

/-- A directory has one key of a name. -/
theorem ext (isKey : IsKey root key) (further : IsKey root other) (parents : parentOf key = parentOf other)
    (names : fileName key = fileName other) : key = other := by
  refine isKey.clean.ext further.clean (isKey.written.trans further.written.symm) ?_
  rw [isKey.segments, further.segments, parents, names]

end IsKey

/-- There is a root, and each directory lists keys below itself, each of them once. -/
structure Tidy (root : Bool) (system : FileSystem) : Prop where
  grounded : (system.find? "/").isSome
  listed : ∀ path entry keys, (path, entry) ∈ system.entries → entry.below = some keys →
    keys.Nodup ∧ ∀ key ∈ keys, IsKey root key ∧ parentOf key = path

namespace Tidy

variable {root : Bool} {system : FileSystem} {key : String}

theorem empty (root : Bool) : Tidy root {} := by
  refine ⟨rfl, fun path entry keys member below => ?_⟩
  cases List.mem_singleton.mp member
  cases below
  exact ⟨List.nodup_nil, by simp⟩

theorem orderly (tidy : Tidy root system) : system.Orderly := by
  intro path entry keys member below
  obtain ⟨distinct, named⟩ := tidy.listed path entry keys member below
  constructor
  · refine List.Nodup.map_on (fun key listed other further same => ?_) distinct
    obtain ⟨isKey, parent⟩ := named key listed
    obtain ⟨isOther, above⟩ := named other further
    rw [isKey.base, isOther.base] at same
    exact isKey.ext isOther (parent.trans above.symm) same
  · refine List.forall_mem_map.mpr fun key listed => ?_
    obtain ⟨isKey, _⟩ := named key listed
    rw [isKey.base]
    exact ⟨isKey.last.1, fileName_plain key⟩

theorem adjust (tidy : Tidy root system) (name : String) {change : FileEntry → FileEntry}
    (keeps : ∀ entry keys, (name, entry) ∈ system.entries → (change entry).below = some keys →
      keys.Nodup ∧ ∀ key ∈ keys, IsKey root key ∧ parentOf key = name) :
    Tidy root (system.adjust name change) := by
  constructor
  · rw [find?_adjust, Option.isSome_map]
    exact tidy.grounded
  · intro path changed keys member below
    obtain ⟨⟨other, entry⟩, stored, same⟩ := List.mem_map.mp member
    cases same
    split at below
    next same =>
      subst same
      exact keeps entry keys stored below
    next => exact tidy.listed path entry keys stored below

theorem add (tidy : Tidy root system) (name : String) {entry : FileEntry}
    (fits : ∀ keys, entry.below = some keys →
      keys.Nodup ∧ ∀ key ∈ keys, IsKey root key ∧ parentOf key = name) :
    Tidy root (system.add name entry) := by
  constructor
  · unfold find? FileSystem.add
    rw [List.lookup_append, Option.isSome_or]
    exact Bool.or_eq_true_iff.mpr (.inl tidy.grounded)
  · intro path other keys member below
    rcases List.mem_append.mp member with old | new
    · exact tidy.listed path other keys old below
    · cases List.mem_singleton.mp new
      exact fits keys below

/-- A directory that lists a key of its own too lists it once. -/
theorem attached (tidy : Tidy root system) (isKey : IsKey root key) {entry : FileEntry}
    (member : (parentOf key, entry) ∈ system.entries) {keys : List String}
    (below : (entry.attach key).below = some keys) :
    keys.Nodup ∧ ∀ other ∈ keys, IsKey root other ∧ parentOf other = parentOf key := by
  have before : (entry.below.getD []).Nodup ∧
      ∀ other ∈ entry.below.getD [], IsKey root other ∧ parentOf other = parentOf key := by
    cases known : entry.below with
    | none => exact ⟨List.nodup_nil, by simp⟩
    | some others => exact tidy.listed _ entry others member known
  obtain ⟨distinct, named⟩ := before
  simp only [FileEntry.attach, Option.some_inj] at below
  subst below
  split
  next => exact ⟨distinct, named⟩
  next new =>
    have absent : key ∉ entry.below.getD [] := by simpa using new
    refine ⟨List.nodup_append.mpr ⟨distinct, List.nodup_singleton key, ?_⟩, ?_⟩
    · rintro other old _ added rfl
      exact absent (List.mem_singleton.mp added ▸ old)
    · exact List.forall_mem_append.mpr ⟨named, List.forall_mem_singleton.mpr ⟨isKey, rfl⟩⟩

theorem attach (tidy : Tidy root system) (steps : Nat) (isKey : IsKey root key) :
    Tidy root (FileSystem.attach steps system key) := by
  induction steps generalizing system key with
  | zero => exact tidy
  | succ steps ih =>
    unfold FileSystem.attach
    dsimp only
    split
    next => exact tidy.adjust _ fun entry keys member below => tidy.attached isKey member below
    next missing =>
      have apart : parentOf key ≠ "/" := by
        intro top
        rw [top] at missing
        cases missing ▸ tidy.grounded
      refine ih (tidy.add _ fun keys below => ?_) (isKey.parent.2 apart)
      cases below
      exact ⟨List.nodup_singleton key, List.forall_mem_singleton.mpr ⟨isKey, rfl⟩⟩

theorem write (tidy : Tidy root system) (isKey : IsKey root key) (content : Bytes) :
    Tidy root (system.write key content) := by
  unfold FileSystem.write
  split
  · exact tidy.adjust _ fun entry keys member below => tidy.listed _ entry keys member below
  · rw [isKey.keyOf]
    refine attach (tidy.add key fun keys below => ?_) _ isKey
    cases below

theorem writeAll (tidy : Tidy root system) {files : List (String × Bytes)}
    (keys : ∀ file ∈ files, IsKey root file.1) :
    Tidy root (files.foldl (fun system file => system.write file.1 file.2) system) := by
  induction files generalizing system with
  | nil => exact tidy
  | cons file files ih =>
    obtain ⟨first, others⟩ := List.forall_mem_cons.mp keys
    exact ih (tidy.write first file.2) others

end Tidy

/-- Files that are written below one directory are listed in an orderly way. -/
theorem project_orderly {directory : String} (filled : directory ≠ "") (low : climb directory = 0)
    {files : List (String × Bytes)} (inside : ∀ file ∈ files, Inside file.1 ∧ file.1 ≠ ".") :
    (FileTree.project directory files).system.Orderly := by
  refine ((Tidy.empty (rooted directory)).writeAll (List.forall_mem_map.mpr fun file member => ?_)).orderly
  obtain ⟨within, below⟩ := inside file member
  obtain ⟨clean, written, _⟩ := join_spec filled file.1
  refine ⟨clean, written, ?_, ?_⟩
  · rw [climb, within.segments_join filled, List.count_append]
    exact Nat.add_eq_zero_iff.mpr ⟨low, within.low⟩
  · rw [within.segments_join filled]
    exact List.append_ne_nil_of_right_ne_nil _ (within.some_segment below)

end FileSystem

end Manuscript
