import Manuscript.Text.Path
import Mathlib.Data.List.Induction
import Mathlib.Data.List.TakeWhile

/-! Paths by their segments. A clean path is known by whether it is rooted and by its segments: climbs first, then
names. Cleaning a relative path before it is appended to another one changes nothing. -/

namespace Manuscript.Path

/-- The parts of a path between slashes, as they are written. -/
def raw (path : String) : List String := (segments path.toList).map String.ofList

def rooted (path : String) : Bool := path.toList.head? = some '/'

/-- Follows segments from `kept`, which are listed latest first. -/
def follow (rooted : Bool) (kept : List String) (segments : List String) : List String :=
  segments.foldl (cleanStep rooted) kept

theorem follow_cons (rooted : Bool) (kept : List String) (segment : String) (segments : List String) :
    follow rooted kept (segment :: segments) = follow rooted (cleanStep rooted kept segment) segments := rfl

theorem follow_append (rooted : Bool) (kept first second : List String) :
    follow rooted kept (first ++ second) = follow rooted (follow rooted kept first) second := List.foldl_append

theorem cleanSegments_eq (path : String) : cleanSegments path = (follow (rooted path) [] (raw path)).reverse := rfl

/-- A segment that stays: it is neither empty nor a point, nor a climb. -/
structure IsName (segment : String) : Prop where
  some : segment ≠ ""
  point : segment ≠ "."
  climb : segment ≠ ".."

theorem cleanStep_name {segment : String} (name : IsName segment) (rooted : Bool) (kept : List String) :
    cleanStep rooted kept segment = segment :: kept := by
  simp [cleanStep, name.some, name.point, name.climb]

theorem cleanStep_skip {segment : String} (skip : segment = "" ∨ segment = ".") (rooted : Bool) (kept : List String) :
    cleanStep rooted kept segment = kept := by
  simp [cleanStep, skip]

theorem cleanStep_back {name : String} (first : IsName name) (rooted : Bool) (kept : List String) :
    cleanStep rooted (name :: kept) ".." = kept := by
  simp [cleanStep, first.climb]

theorem isName_of_not {segment : String} (skip : ¬(segment = "" ∨ segment = ".")) (climb : segment ≠ "..") :
    IsName segment := ⟨fun empty => skip (.inl empty), fun point => skip (.inr point), climb⟩

theorem follow_names (rooted : Bool) (kept names : List String) (all : ∀ name ∈ names, IsName name) :
    follow rooted kept names = names.reverse ++ kept := by
  induction names generalizing kept with
  | nil => rfl
  | cons name names ih =>
    obtain ⟨first, others⟩ := List.forall_mem_cons.mp all
    rw [follow_cons, cleanStep_name first, ih _ others, List.reverse_cons, List.append_assoc]
    rfl

/-- Climbs come first, and there are none in a rooted path. -/
structure Normal (rooted : Bool) (kept : List String) : Prop where
  intro ::
  shape : ∃ climbs names, kept = names ++ List.replicate climbs ".." ∧ (∀ name ∈ names, IsName name) ∧
    (rooted = true → climbs = 0)

theorem Normal.step {rooted : Bool} {kept : List String} (normal : Normal rooted kept) (segment : String) :
    Normal rooted (cleanStep rooted kept segment) := by
  obtain ⟨climbs, names, rfl, all, root⟩ := normal.shape
  unfold cleanStep
  split
  · exact normal
  next kept =>
    simp only [Bool.or_eq_true, decide_eq_true_eq, not_or] at kept
    split
    next climb =>
      cases names with
      | nil =>
        cases climbs with
        | zero =>
          cases rooted with
          | true => exact ⟨0, [], rfl, by simp, fun _ => rfl⟩
          | false => exact ⟨1, [], rfl, by simp, by simp⟩
        | succ climbs => exact ⟨climbs + 2, [], rfl, by simp, fun rooted => by cases root rooted⟩
      | cons name names =>
        obtain ⟨first, others⟩ := List.forall_mem_cons.mp all
        simp only [List.cons_append, first.climb, if_false]
        exact ⟨climbs, names, rfl, others, root⟩
    next climb => exact ⟨climbs, segment :: names, rfl, List.forall_mem_cons.mpr ⟨⟨kept.1, kept.2, climb⟩, all⟩, root⟩

theorem Normal.follow {rooted : Bool} {kept : List String} (normal : Normal rooted kept) (segments : List String) :
    Normal rooted (follow rooted kept segments) := by
  induction segments generalizing kept with
  | nil => exact normal
  | cons segment segments ih => exact ih (normal.step segment)

theorem normal_nil (rooted : Bool) : Normal rooted [] := ⟨0, [], rfl, by simp, fun _ => rfl⟩

/-- Cleaning a relative path first leads to the same place. -/
theorem follow_clean (rooted : Bool) (kept segments : List String) :
    follow rooted kept (follow false [] segments).reverse = follow rooted kept segments := by
  induction segments using List.reverseRecOn with
  | nil => rfl
  | append_singleton segments segment ih =>
    obtain ⟨climbs, names, shape, all, _⟩ := ((normal_nil false).follow segments).shape
    rw [follow_append, follow_append, ← ih, shape]
    by_cases skip : segment = "" ∨ segment = "."
    · rw [follow_cons, follow_cons, cleanStep_skip skip, cleanStep_skip skip]
      rfl
    by_cases climb : segment = ".."
    · subst climb
      cases names with
      | nil =>
        -- Climbs are all that is left, so one more is appended.
        have more : cleanStep false ([] ++ List.replicate climbs "..") ".." = ".." :: List.replicate climbs ".." := by
          cases climbs <;> rfl
        rw [follow_cons false, more, List.nil_append]
        exact (congrArg (follow rooted kept) List.reverse_cons).trans (follow_append ..)
      | cons name names =>
        obtain ⟨first, _⟩ := List.forall_mem_cons.mp all
        have back : follow false (name :: names ++ List.replicate climbs "..") [".."] =
            names ++ List.replicate climbs ".." := cleanStep_back first false _
        have there : follow rooted kept (name :: names ++ List.replicate climbs "..").reverse =
            name :: follow rooted kept (names ++ List.replicate climbs "..").reverse := by
          rw [List.cons_append, List.reverse_cons, follow_append]
          exact cleanStep_name first ..
        rw [back, there]
        exact (cleanStep_back first rooted _).symm
    · have stays := isName_of_not skip climb
      have kept_last : follow false (names ++ List.replicate climbs "..") [segment] =
          segment :: (names ++ List.replicate climbs "..") := cleanStep_name stays ..
      rw [kept_last, List.reverse_cons, follow_append]

theorem Normal.follow_reverse {rooted : Bool} {kept : List String} (normal : Normal rooted kept) :
    Path.follow rooted [] kept.reverse = kept := by
  obtain ⟨climbs, names, rfl, all, root⟩ := normal.shape
  have climbing : Path.follow rooted [] (List.replicate climbs "..") = List.replicate climbs ".." := by
    cases rooted with
    | true =>
      obtain rfl := root rfl
      rfl
    | false =>
      clear all root normal
      induction climbs with
      | zero => rfl
      | succ climbs ih =>
        rw [List.replicate_succ', follow_append, ih]
        cases climbs with
        | zero => rfl
        | succ climbs => exact List.replicate_succ'
  rw [List.reverse_append, List.reverse_replicate, follow_append, climbing,
    follow_names _ _ _ (fun name member => all name (List.mem_reverse.mp member)), List.reverse_reverse]

theorem segments_eq_splitOn (chars : List Char) : segments chars = chars.splitOn '/' := by
  induction chars with
  | nil => rfl
  | cons c chars ih =>
    rw [segments, List.splitOn_cons_eq_if_modifyHead, ih]
    obtain ⟨first, others, split⟩ := List.exists_cons_of_ne_nil (List.splitOn_ne_nil '/' chars)
    by_cases slash : c = '/' <;> simp [slash, split]

theorem raw_append (first second : String) : raw (first ++ "/" ++ second) = raw first ++ raw second := by
  have chars : (first ++ "/" ++ second).toList = first.toList ++ '/' :: second.toList := by simp
  rw [raw, segments_eq_splitOn, chars, List.splitOn_append_cons_self, List.map_append]
  simp only [raw, segments_eq_splitOn]

theorem raw_plain {segment : String} (plain : '/' ∉ segment.toList) : raw segment = [segment] := by
  rw [raw, segments_eq_splitOn, List.splitOn_eq_singleton plain]
  simp

theorem raw_intercalate {segments : List String} (plain : ∀ segment ∈ segments, '/' ∉ segment.toList)
    (some : segments ≠ []) : raw ("/".intercalate segments) = segments := by
  have slash : "/".toList = ['/'] := rfl
  rw [raw, segments_eq_splitOn, String.toList_intercalate, slash, List.splitOn_intercalate, List.map_map]
  · exact (List.map_congr_left fun segment _ => String.ofList_toList).trans (List.map_id _)
  · exact List.forall_mem_map.mpr plain
  · simpa using some

theorem mem_raw {path segment : String} (member : segment ∈ raw path) : '/' ∉ segment.toList := by
  obtain ⟨chars, split, rfl⟩ := List.mem_map.mp member
  rw [String.toList_ofList]
  generalize path.toList = text at split
  clear member
  fun_induction segments text generalizing chars with
  | case1 => simp_all
  | case2 rest ih =>
    rcases List.mem_cons.mp split with rfl | later
    · simp
    · exact ih _ later
  | case3 c rest other first others shape ih =>
    rw [shape] at ih
    rcases List.mem_cons.mp split with rfl | later
    · simpa [Ne.symm other] using ih _ (List.mem_cons_self ..)
    · exact ih _ (List.mem_cons_of_mem _ later)
  | case4 c rest other _ ih =>
    obtain rfl := List.mem_singleton.mp split
    simpa using Ne.symm other

def render (rooted : Bool) (segments : List String) : String :=
  let joined := "/".intercalate segments
  if rooted then "/" ++ joined else if joined = "" then "." else joined

theorem clean_eq (path : String) : clean path = render (rooted path) (cleanSegments path) := by
  unfold clean render rooted
  by_cases root : path.toList.head? = some '/' <;> simp [root]

theorem mem_cleanStep {rooted : Bool} {kept : List String} {segment other : String}
    (member : other ∈ cleanStep rooted kept segment) : other ∈ kept ∨ other = segment ∨ other = ".." := by
  unfold cleanStep at member
  split at member
  · exact .inl member
  split at member
  · split at member
    · split at member <;> simp_all
    next last rest =>
      split at member
      · rcases List.mem_cons.mp member with climb | kept
        · exact .inr (.inr climb)
        · exact .inl kept
      · exact .inl (List.mem_cons_of_mem _ member)
  · rcases List.mem_cons.mp member with same | kept
    · exact .inr (.inl same)
    · exact .inl kept

theorem mem_follow {rooted : Bool} {kept segments : List String} {segment : String}
    (member : segment ∈ follow rooted kept segments) : segment ∈ kept ∨ segment ∈ segments ∨ segment = ".." := by
  induction segments generalizing kept with
  | nil => exact .inl member
  | cons first segments ih =>
    rcases ih member with step | later | climb
    · rcases mem_cleanStep step with kept | same | climb
      · exact .inl kept
      · exact .inr (.inl (same ▸ List.mem_cons_self ..))
      · exact .inr (.inr climb)
    · exact .inr (.inl (List.mem_cons_of_mem _ later))
    · exact .inr (.inr climb)

/-- Segments that can be told apart in the text of a path. -/
structure Legible (segments : List String) : Prop where
  plain : ∀ segment ∈ segments, '/' ∉ segment.toList
  some : ∀ segment ∈ segments, segment ≠ ""

theorem cleanSegments_legible (path : String) : Legible (cleanSegments path) := by
  constructor
  · intro segment member
    rcases mem_follow (List.mem_reverse.mp member) with kept | written | rfl
    · cases kept
    · exact mem_raw written
    · decide
  · intro segment member
    obtain ⟨climbs, names, shape, all, _⟩ := ((normal_nil (rooted path)).follow (raw path)).shape
    rw [cleanSegments_eq, shape, List.mem_reverse] at member
    rcases List.mem_append.mp member with name | climb
    · exact (all segment name).some
    · obtain rfl := List.eq_of_mem_replicate climb
      decide

theorem Legible.joined_ne {segments : List String} (legible : Legible segments) (some : segments ≠ []) :
    "/".intercalate segments ≠ "" ∧ rooted ("/".intercalate segments) = false := by
  have read := raw_intercalate legible.plain some
  constructor
  · intro empty
    rw [empty] at read
    exact legible.some "" (read ▸ List.mem_cons_self ..) rfl
  · cases chars : ("/".intercalate segments).toList with
    | nil => simp [rooted, chars]
    | cons c rest =>
      have other : c ≠ '/' := by
        rintro rfl
        have split : "/".intercalate segments = "" ++ "/" ++ String.ofList rest := by
          apply String.toList_inj.mp
          simp [chars]
        rw [split, raw_append] at read
        exact legible.some "" (read ▸ List.mem_cons_self ..) rfl
      simp [rooted, chars, other]

theorem follow_raw_render {segments : List String} (legible : Legible segments) (root rooted : Bool)
    (kept : List String) : follow root kept (raw (render rooted segments)) = follow root kept segments := by
  have empty (kept : List String) : follow root kept (raw "") = kept := cleanStep_skip (.inl rfl) root kept
  have joined : follow root kept (raw ("/".intercalate segments)) = follow root kept segments := by
    cases segments with
    | nil => exact empty kept
    | cons segment segments => rw [raw_intercalate legible.plain (List.cons_ne_nil _ _)]
  unfold render
  cases rooted with
  | true =>
    have slash : "/" ++ "/".intercalate segments = "" ++ "/" ++ "/".intercalate segments := by simp
    rw [if_pos rfl, slash, raw_append, follow_append, empty, joined]
  | false =>
    simp only [Bool.false_eq_true, if_false]
    split
    next none =>
      rw [none, empty] at joined
      rw [← joined]
      exact cleanStep_skip (.inr rfl) root kept
    next => exact joined

theorem rooted_render {segments : List String} (legible : Legible segments) (root : Bool) :
    rooted (render root segments) = root := by
  unfold render
  cases root with
  | true => simp [rooted]
  | false =>
    simp only [Bool.false_eq_true, if_false]
    split
    · rfl
    next filled =>
      refine (legible.joined_ne ?_).2
      rintro rfl
      exact filled rfl

/-- Cleaning keeps what a path is known by. -/
theorem rooted_clean (path : String) : rooted (clean path) = rooted path := by
  rw [clean_eq, rooted_render (cleanSegments_legible path)]

theorem cleanSegments_clean (path : String) : cleanSegments (clean path) = cleanSegments path := by
  rw [cleanSegments_eq (clean path), rooted_clean, clean_eq, follow_raw_render (cleanSegments_legible path),
    cleanSegments_eq, ((normal_nil _).follow _).follow_reverse]

theorem clean_clean (path : String) : clean (clean path) = clean path := by
  rw [clean_eq (clean path), rooted_clean, cleanSegments_clean, ← clean_eq]

def IsClean (path : String) : Prop := clean path = path

theorem isClean_clean (path : String) : IsClean (clean path) := clean_clean path

theorem IsClean.ext {path other : String} (first : IsClean path) (second : IsClean other)
    (root : rooted path = rooted other) (same : cleanSegments path = cleanSegments other) : path = other := by
  rw [← first, ← second, clean_eq, clean_eq, root, same]

theorem IsClean.follow_raw {path : String} (isClean : IsClean path) (root : Bool) (kept : List String) :
    follow root kept (raw path) = follow root kept (cleanSegments path) := by
  conv_lhs => rw [← isClean, clean_eq]
  exact follow_raw_render (cleanSegments_legible path) root _ kept

theorem follow_raw (path : String) : follow (rooted path) [] (raw path) = (cleanSegments path).reverse := by
  rw [cleanSegments_eq, List.reverse_reverse]

/-- The second path is followed from where the first one leads. -/
theorem join_spec {first : String} (some : first ≠ "") (second : String) :
    IsClean (join first second) ∧ rooted (join first second) = rooted first ∧
      cleanSegments (join first second) =
        (follow (rooted first) (cleanSegments first).reverse (raw second)).reverse := by
  have root : rooted (first ++ "/" ++ second) = rooted first := by
    cases chars : first.toList with
    | nil => exact absurd (String.toList_inj.mp (chars.trans String.toList_empty.symm)) some
    | cons c rest => simp [rooted, chars]
  by_cases empty : second = ""
  · have same : join first second = clean first := by simp [join, some, empty]
    rw [same]
    refine ⟨isClean_clean first, rooted_clean first, ?_⟩
    have stays : follow (rooted first) (cleanSegments first).reverse (raw second) = (cleanSegments first).reverse := by
      rw [empty]
      exact cleanStep_skip (.inl rfl) (rooted first) _
    rw [cleanSegments_clean, stays, List.reverse_reverse]
  · have same : join first second = clean (first ++ "/" ++ second) := by simp [join, some, empty]
    rw [same]
    refine ⟨isClean_clean _, (rooted_clean _).trans root, ?_⟩
    rw [cleanSegments_clean, cleanSegments_eq, root, raw_append, follow_append, follow_raw]

theorem clean_ne_empty (path : String) : clean path ≠ "" := by
  rw [clean_eq]
  unfold render
  split
  · intro empty
    have chars := congrArg String.toList empty
    simp at chars
  · dsimp only
    split
    · decide
    next filled => exact filled

theorem raw_render {segments : List String} (legible : Legible segments) (some : segments ≠ []) (rooted : Bool) :
    raw (render rooted segments) = (if rooted then [""] else []) ++ segments := by
  have joined := raw_intercalate legible.plain some
  unfold render
  cases rooted with
  | true =>
    have slash : "/" ++ "/".intercalate segments = "" ++ "/" ++ "/".intercalate segments := by simp
    rw [if_pos rfl, slash, raw_append, joined]
    rfl
  | false =>
    simp only [Bool.false_eq_true, if_false, (legible.joined_ne some).1]
    exact joined

/-- A text without what follows its last slash ends in an empty segment. -/
theorem raw_dropLast (path : String) :
    raw (String.ofList (path.toList.reverse.dropWhile (· ≠ '/')).reverse) = (raw path).dropLast ++ [""] ∧
      rooted (String.ofList (path.toList.reverse.dropWhile (· ≠ '/')).reverse) = rooted path := by
  by_cases slash : '/' ∈ path.toList
  · obtain ⟨last, front, split, plain⟩ := List.eq_append_cons_of_mem (List.mem_reverse.mpr slash)
    have whole : path.toList = front.reverse ++ '/' :: last.reverse := by
      rw [← List.reverse_reverse path.toList, split]
      simp
    have cut : (path.toList.reverse.dropWhile (· ≠ '/')).reverse = front.reverse ++ ['/'] := by
      rw [split, List.dropWhile_append_of_pos (by
        intro c member
        simpa using fun same : c = '/' => plain (same ▸ member))]
      simp
    rw [cut]
    constructor
    · simp only [raw, segments_eq_splitOn, String.toList_ofList, whole]
      rw [List.splitOn_append_cons_self, List.splitOn_append_cons_self,
        List.splitOn_eq_singleton (fun member => plain (List.mem_reverse.mp member))]
      simp
    · simp only [rooted, String.toList_ofList, whole]
      cases front.reverse <;> simp
  · have none : path.toList.reverse.dropWhile (· ≠ '/') = [] := by
      rw [List.dropWhile_eq_nil_iff]
      intro c member
      simpa using fun same : c = '/' => slash (same ▸ List.mem_reverse.mp member)
    rw [none, raw_plain slash]
    refine ⟨rfl, ?_⟩
    cases chars : path.toList with
    | nil => simp [rooted, chars]
    | cons c rest =>
      rw [chars] at slash
      simp [rooted, chars, Ne.symm (List.ne_of_not_mem_cons slash)]

theorem Normal.tail {rooted : Bool} {kept : List String} (normal : Normal rooted kept) : Normal rooted kept.tail := by
  obtain ⟨climbs, names, rfl, all, root⟩ := normal.shape
  cases names with
  | nil =>
    cases climbs with
    | zero => exact normal
    | succ climbs => exact ⟨climbs, [], rfl, by simp, fun rooted => by cases root rooted⟩
  | cons name names => exact ⟨climbs, names, rfl, (List.forall_mem_cons.mp all).2, root⟩

/-- The directory of a clean path has all of its segments but the last. -/
theorem dir_spec {path : String} (isClean : IsClean path) :
    IsClean (dir path) ∧ rooted (dir path) = rooted path ∧ cleanSegments (dir path) = (cleanSegments path).dropLast := by
  obtain ⟨parts, root⟩ := raw_dropLast path
  refine ⟨isClean_clean _, (rooted_clean _).trans root, ?_⟩
  have skip (kept : List String) : follow (rooted path) kept [""] = kept := cleanStep_skip (.inl rfl) (rooted path) kept
  rw [dir, cleanSegments_clean, cleanSegments_eq, parts, root, follow_append, skip]
  have legible := cleanSegments_legible path
  have written : raw path = raw (render (rooted path) (cleanSegments path)) := by
    rw [← clean_eq, isClean]
  have normal : Normal (rooted path) (cleanSegments path).dropLast.reverse := by
    rw [cleanSegments_eq, List.dropLast_reverse, List.reverse_reverse]
    exact ((normal_nil _).follow _).tail
  by_cases some : cleanSegments path = []
  · rw [written, some]
    cases rooted path <;> rfl
  · rw [written, raw_render legible some, List.dropLast_append_of_ne_nil some, follow_append]
    have start : follow (rooted path) [] (if rooted path then [""] else []) = [] := by
      cases rooted path <;> rfl
    rw [start]
    have back := normal.follow_reverse
    rw [List.reverse_reverse] at back
    rw [back, List.reverse_reverse]

end Manuscript.Path
