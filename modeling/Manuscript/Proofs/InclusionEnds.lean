import Manuscript.Proofs.Expansion
import Manuscript.Proofs.Placeless

/-! Expansion of inclusions ends when chains of inclusions are bounded, and it fails for a file that includes itself. -/

namespace Manuscript.Compiler

open Compile

/-- From this path on, inclusions come to an end. -/
abbrev Grounded (compiler : Compiler) (path : String) : Prop :=
  Acc (fun target path => compiler.Includes path target) path

theorem grounded_of_inclusions {compiler : Compiler} {path : String} {nodes : List Node}
    (loads : compiler.Loads path nodes)
    (each : ∀ command ∈ inclusionsOf nodes, Path.ext (target path command) = sourceExt →
      compiler.Grounded (target path command)) : compiler.Grounded path := by
  constructor
  rintro _ ⟨again, member, rfl, ending, _⟩
  obtain rfl := loads.unique again
  exact each _ member ending

theorem keeps_includeFile (compiler : Compiler) (limit depth : Nat) (path : String) (chain : List String) (extract : Bool)
    (command : Command Node) (sheet : FormulaSheet) :
    Keeps compiler.Faithful
      (fun _ => Path.ext (target path command) = sourceExt → compiler.Grounded (target path command))
      (((compiler.within limit).includeFile depth path chain extract command).run sheet) := by
  induction depth generalizing limit path chain extract command sheet with
  | zero => exact keeps_throw _
  | succ depth ih =>
    rw [includeFile_run]
    split
    · exact keeps_throw _
    · apply (keeps_fetch compiler limit path _).bind
      intro nodes loads
      unfold place
      dsimp only
      split
      next other =>
        apply (keeps_splice compiler limit path nodes command.rules).bind
        intro _ _
        exact keeps_pure fun ending => absurd ending other
      next =>
        have expanded := keeps_expandNodes compiler
          (fun limit => (compiler.within limit).nested depth path chain extract command)
          (fun limit further sheet => ih limit _ _ _ further sheet)
        apply (expanded limit nodes sheet.successor).bind
        intro _ each
        exact keeps_pure fun _ => grounded_of_inclusions loads each

theorem keeps_compileFile (compiler : Compiler) (limit : Nat) (path : String) (extract : Bool) :
    Keeps compiler.Faithful (fun _ => compiler.Grounded (Path.clean path))
      ((compiler.within limit).compileFile path extract) := by
  apply Keeps.rethrow
  apply (keeps_load compiler limit _).bind
  intro nodes loads
  have expanded := keeps_expandNodes compiler
    (fun limit => (compiler.within limit).includeFile limit (Path.clean path) [Path.clean path] extract)
    fun limit command sheet => keeps_includeFile compiler limit limit _ _ _ command sheet
  apply (expanded limit nodes {}).bind
  intro result each
  dsimp only
  split <;> exact keeps_pure (grounded_of_inclusions loads each)

/-- Along a chain there is room for the files that are still to come, and with them an inclusion settles. -/
theorem settles_includeFile {compiler : Compiler} {page : String} (resolvable : compiler.Resolvable page) {bound : Nat}
    (bounded : ∀ chain path, compiler.Chain page chain path → chain.length ≤ bound) (room : Nat) {chain : List String}
    {path : String} (near : bound < chain.length + room) (chained : compiler.Chain page chain path) {nodes : List Node}
    (loads : compiler.Loads path nodes) {command : Command Node} (member : command ∈ inclusionsOf nodes) (extract : Bool)
    (sheet : FormulaSheet) {session : Session} (faithful : compiler.Faithful session) :
    Settles (fun limit => ((compiler.within limit).includeFile (limit + 1 - chain.length) path chain extract command).run
      sheet) session := by
  induction room generalizing chain path nodes command extract sheet session with
  | zero => exact absurd (bounded chain path chained) (Nat.not_le.mpr near)
  | succ room ih =>
    have entered (limit : Nat) (enough : chain.length ≤ limit) :
        ((compiler.within limit).includeFile (limit + 1 - chain.length) path chain extract command).run sheet =
          if chain.contains (target path command) then throw (.including (target path command) .includeCycle)
          else (compiler.within limit).fetch path (target path command) >>=
            (compiler.within limit).place (limit - chain.length) path chain extract command sheet := by
      rw [Nat.succ_sub enough, includeFile_run]
    refine Settles.of_le ?_ entered
    split
    · exact settles_const (by simp [Deep, Failure.roots])
    next fresh =>
      have reached : compiler.Reached page (target path command) := .target chained loads member
      refine (settles_fetch resolvable reached path faithful).bind (fun limit => keeps_fetch compiler limit path _)
        faithful ?_
      intro content middle loaded kept
      unfold place
      dsimp only
      split
      next other =>
        have ends := resolvable.spliced chain path nodes command content chained loads member other loaded
        refine (settles_splice ends kept).bind (fun limit => keeps_splice compiler limit path _ _) kept ?_
        intro _ _ _ _
        exact settles_const id
      next same =>
        have ending : Path.ext (target path command) = sourceExt := not_not.mp same
        have longer : compiler.Chain page (chain ++ [target path command]) (target path command) :=
          chained.next ⟨loads, member, rfl, ending, loaded⟩ (by simpa using fresh)
        have length : (chain ++ [target path command]).length = chain.length + 1 := by simp
        have keeps (limit : Nat) (further : Command Node) (sheet : FormulaSheet) :=
          keeps_includeFile compiler limit (limit - chain.length) (target path command) (chain ++ [target path command])
            (extract && !(compiler.adjustment (target path command) command).tocOnly) further sheet
        have settles : Settles (fun limit => (expandNodes ((compiler.within limit).nested (limit - chain.length) path
            chain extract command) content).run sheet.successor) middle := by
          apply settles_expandNodes
            (fun limit further sheet => (keeps limit further sheet).mono fun _ _ => trivial) _ _ kept
          intro further inside other last left
          have deeper := ih (by omega) longer loaded inside
            (extract && !(compiler.adjustment (target path command) command).tocOnly) other left
          simpa only [length, Nat.add_sub_add_right] using deeper
        refine settles.bind (fun limit => keeps_expandNodes compiler _ keeps limit content sheet.successor) kept ?_
        intro value last _ _
        have adjusted (limit : Nat) : (compiler.within limit).adjustment = compiler.adjustment := rfl
        simp only [adjusted]
        exact settles_const id

theorem settles_compileFile {compiler : Compiler} {path : String} (resolvable : compiler.Resolvable (Path.clean path))
    {bound : Nat}
    (bounded : ∀ chain last, compiler.Chain (Path.clean path) chain last → chain.length ≤ bound) (extract : Bool)
    {session : Session} (faithful : compiler.Faithful session) :
    Settles (fun limit => (compiler.within limit).compileFile path extract) session := by
  have wrapped (failure : Failure) : (Failure.compiling (Path.clean path) failure).roots = failure.roots := by
    rw [Failure.roots]
  refine Settles.rethrow ?_ wrapped
  refine (settles_load resolvable .page faithful).bind (fun limit => keeps_load compiler limit _) faithful ?_
  intro nodes middle loads kept
  have keeps (limit : Nat) (command : Command Node) (sheet : FormulaSheet) :=
    keeps_includeFile compiler limit limit (Path.clean path) [Path.clean path] extract command sheet
  have settles : Settles (fun limit => (expandNodes ((compiler.within limit).includeFile limit (Path.clean path)
      [Path.clean path] extract) nodes).run {}) middle := by
    apply settles_expandNodes (fun limit command sheet => (keeps limit command sheet).mono fun _ _ => trivial) _ _ kept
    intro command member sheet last left
    exact settles_includeFile resolvable bounded (bound + 1) (by omega) .page loads member extract sheet left
  refine settles.bind (fun limit => keeps_expandNodes compiler _ keeps limit nodes {}) kept ?_
  intro value last _ _
  dsimp only
  split <;> exact settles_const id

namespace Sample

def project (base name text : String) : Compiler where
  tree := { system := .ofFiles [(Path.join base name, Utf8.encode text)], base := some base }

/-- A file that includes itself by another path. -/
def circular : Compiler := project "src" "a.ss" "\\include[src=../src/a.ss]"

/-- The same, with an ending in capitals. -/
def capital : Compiler := project "src" "a.SS" "\\include[src=../src/a.SS]"

/-- Above the root there is nothing, so each path that climbs out of it stands for the same file. -/
def climbing : Compiler := project "/" "a.ss" "\\include[src=../a.ss]"

end Sample

/-- Chains of inclusions are bounded exactly when they do not climb higher and higher, and they do not unless the base is
rooted. Where they are bounded and files resolve, compilation ends with a document or with a failure that is not its
limit; and a file that includes itself, by whatever path, is never made into a document. -/
theorem inclusion_ends (compiler : Compiler) :
    (∀ path, (∃ bound, ∀ chain last, compiler.Chain (Path.clean path) chain last → chain.length ≤ bound) ↔
      ∃ height, ∀ chain last, compiler.Chain (Path.clean path) chain last → Path.climb last ≤ height) ∧
    ((∀ base ∈ compiler.tree.base, Path.rooted base = false) → ∃ bound, ∀ path chain last,
      compiler.Chain (Path.clean path) chain last → chain.length ≤ bound) ∧
    (∀ path bound, compiler.Resolvable (Path.clean path) →
      (∀ chain last, compiler.Chain (Path.clean path) chain last → chain.length ≤ bound) →
      ∀ session, compiler.Faithful session → Settles (fun limit => (compiler.within limit).compile path) session) ∧
    ∀ path again, Relation.TransGen compiler.Includes (Path.clean path) again →
      compiler.tree.realPath again = compiler.tree.realPath (Path.clean path) →
      ∀ limit session, compiler.Faithful session → ∀ document after,
        outcome ((compiler.within limit).compile path) session ≠ (.ok document, after) := by
  refine ⟨?_, ?_, ?_, ?_⟩
  · intro path
    exact chains_bounded_iff compiler (Path.isClean_clean path)
  · intro relative
    obtain ⟨bound, short⟩ := chains_bounded_of_relative relative
    exact ⟨bound, fun path chain last => short _ chain last (Path.isClean_clean path)⟩
  · intro path bound resolvable bounded session faithful
    exact settles_compileFile resolvable bounded true faithful
  · intro path again cycle same limit session faithful document after succeeds
    have given := (keeps_compileFile compiler limit path true session faithful).2 document
    exact not_acc_of_cycle (Path.isClean_clean path) cycle same (given (congrArg Prod.fst succeeds))

namespace Sample

/-- Content that resolves to nothing but inclusions without rules. -/
def Plain (data : Bytes) (list : List String) : Prop :=
  ∀ path, (resolve Builtin.registry 2 (.top path) (normalize (Parse.ofBytes data))).map (fun result =>
    (addresses result.1, (inclusionsOf result.1).all fun command => command.rules.isEmpty)) = some (list, true)

theorem Plain.resolved {data : Bytes} {list : List String} (plain : Plain data list) (path : String) :
    ∃ nodes events, resolve Builtin.registry 2 (.top path) (normalize (Parse.ofBytes data)) = some (nodes, events) ∧
      addresses nodes = list ∧ ∀ command ∈ inclusionsOf nodes, command.rules = [] := by
  obtain ⟨⟨nodes, events⟩, found, same⟩ := Option.map_eq_some_iff.mp (plain path)
  obtain ⟨listed, none⟩ := Prod.mk.inj same
  refine ⟨nodes, events, found, listed, ?_⟩
  intro command member
  simpa using List.all_eq_true.mp none command member

theorem plain_of_top {data : Bytes} {list : List String}
    (found : (resolve Builtin.registry 2 (.top "") (normalize (Parse.ofBytes data))).map (fun result =>
      (addresses result.1, (inclusionsOf result.1).all fun command => command.rules.isEmpty)) = some (list, true)) :
    Plain data list := by
  intro path
  have same := Resolve.resolve_placeless placeless_builtin 2 (.top path "") (normalize (Parse.ofBytes data))
  have seen := congrArg (Option.map fun nodes =>
    (addresses nodes, (inclusionsOf nodes).all fun command => command.rules.isEmpty)) same
  rw [Option.map_map, Option.map_map] at seen
  exact seen.trans found

theorem plain_empty : Plain [] [] := plain_of_top (by decide +kernel)

theorem plain_include : Plain (Utf8.encode "\\include[src=../src/a.ss]") ["../src/a.ss"] ∧
    Plain (Utf8.encode "\\include[src=../src/a.SS]") ["../src/a.SS"] ∧
    Plain (Utf8.encode "\\include[src=../a.ss]") ["../a.ss"] := by
  refine ⟨?_, ?_, ?_⟩ <;> exact plain_of_top (by decide +kernel)

theorem resolvable_of_plain {compiler : Compiler} {page : String} (standard : compiler.registry = Builtin.registry)
    (bare : compiler.decoders = [])
    (plain : ∀ data ∈ compiler.tree.system.entries.map (fun stored => stored.2.content), ∃ list, Plain data list) :
    compiler.Resolvable page := by
  constructor
  · intro path _ data _ read
    obtain ⟨list, plain⟩ := plain data (FileTree.read_mem read)
    obtain ⟨nodes, events, found, _⟩ := plain.resolved path
    exact (ends_iff_isSome ..).mpr ⟨2, by rw [standard, found]; rfl⟩
  · intro chain path nodes command content _ loads member _ _
    cases loads with
    | drawing _ known =>
      rw [bare] at known
      cases known
    | source _ read resolved =>
      rw [standard] at resolved
      obtain ⟨list, plain⟩ := plain _ (FileTree.read_mem read)
      obtain ⟨others, events, found, _, none⟩ := plain.resolved path
      obtain rfl := (Prod.mk.inj (resolve_unique found resolved)).1
      have nothing : (content.flatMap fun drawing => command.rules.flatMap fun rule =>
          substitute [⟨rule.pattern, [drawing]⟩] rule.target) = [] := by
        rw [none command member]
        exact List.flatMap_eq_nil_iff.mpr fun _ _ => rfl
      rw [nothing]
      exact (ends_iff_isSome ..).mpr ⟨1, rfl⟩
  · intro ext decode name data known
    rw [bare] at known
    cases known

theorem Plain.loads {compiler : Compiler} {path : String} {data : Bytes} {list : List String} (plain : Plain data list)
    (read : compiler.tree.read path = .ok data) (standard : compiler.registry = Builtin.registry)
    (ending : LowerCase.lowerText (Path.ext path) = sourceExt) :
    ∃ nodes, compiler.Loads path nodes ∧ addresses nodes = list := by
  obtain ⟨nodes, events, found, listed, _⟩ := plain.resolved path
  exact ⟨nodes, .source ending read (standard ▸ found), listed⟩

theorem Plain.includes {compiler : Compiler} {path source : String} {data : Bytes} (plain : Plain data [source])
    (read : compiler.tree.read path = .ok data) (standard : compiler.registry = Builtin.registry)
    (ending : LowerCase.lowerText (Path.ext path) = sourceExt)
    (same : Path.ext (Path.join (Path.dir path) source) = sourceExt)
    (reread : compiler.tree.read (Path.join (Path.dir path) source) = .ok data) :
    compiler.Includes path (Path.join (Path.dir path) source) := by
  obtain ⟨nodes, loads, listed⟩ := plain.loads read standard ending
  obtain ⟨content, loaded, _⟩ := plain.loads reread standard (by rw [same, lowerText_sourceExt])
  have written : source ∈ addresses nodes := by rw [listed]; exact List.mem_singleton_self _
  obtain ⟨command, member, rfl⟩ := List.mem_map.mp written
  exact ⟨loads, member, rfl, same, loaded⟩

theorem ok_of_toOption {ε α : Type} {result : Except ε α} {value : α} (found : result.toOption = some value) :
    result = .ok value := by
  cases result with
  | ok other =>
    cases found
    rfl
  | error failure => cases found

theorem circular_contents : circular.tree.system.entries.map (fun stored => stored.2.content) =
    [[], Utf8.encode "\\include[src=../src/a.ss]", []] := by decide +kernel

theorem circular_resolvable (page : String) : circular.Resolvable page := by
  apply resolvable_of_plain rfl rfl
  intro data member
  have among : data ∈ [[], Utf8.encode "\\include[src=../src/a.ss]", []] := circular_contents ▸ member
  simp only [List.mem_cons, List.not_mem_nil, or_false] at among
  rcases among with rfl | rfl | rfl
  · exact ⟨_, plain_empty⟩
  · exact ⟨_, plain_include.1⟩
  · exact ⟨_, plain_empty⟩

theorem circular_includes : circular.Includes "a.ss" "../src/a.ss" := by
  have leads : Path.join (Path.dir "a.ss") "../src/a.ss" = "../src/a.ss" := by decide +kernel
  have read : circular.tree.read "a.ss" = .ok (Utf8.encode "\\include[src=../src/a.ss]") :=
    ok_of_toOption (by decide +kernel)
  have reread : circular.tree.read "../src/a.ss" = .ok (Utf8.encode "\\include[src=../src/a.ss]") :=
    ok_of_toOption (by decide +kernel)
  have includes := plain_include.1.includes read rfl (by decide +kernel) (leads ▸ by decide +kernel) (leads ▸ reread)
  rwa [leads] at includes

end Sample

/-- One file that includes itself by a path of another spelling. -/
theorem inclusion_ends_circular :
    Sample.circular.Resolvable "a.ss" ∧ Path.rooted "src" = false ∧
      Settles (fun limit => (Sample.circular.within limit).compile "a.ss") {} ∧
      ∀ limit document after, outcome ((Sample.circular.within limit).compile "a.ss") {} ≠ (.ok document, after) := by
  obtain ⟨_, relative, settles, never⟩ := inclusion_ends Sample.circular
  have page : Path.clean "a.ss" = "a.ss" := by decide +kernel
  have root : Path.rooted "src" = false := by decide
  have based : ∀ base ∈ Sample.circular.tree.base, Path.rooted base = false := by
    intro base given
    obtain rfl : "src" = base := Option.some.inj given
    exact root
  obtain ⟨bound, bounded⟩ := relative based
  have same : Sample.circular.tree.realPath "../src/a.ss" = Sample.circular.tree.realPath (Path.clean "a.ss") := by
    decide +kernel
  refine ⟨Sample.circular_resolvable _, root, ?_, ?_⟩
  · exact settles "a.ss" bound (Sample.circular_resolvable _) (bounded "a.ss") {} (faithful_empty _)
  · intro limit
    exact never "a.ss" _ (.single (page.symm ▸ Sample.circular_includes)) same limit {} (faithful_empty _)

namespace Sample

open Manuscript.Path

structure High (climbs : Nat) (path : String) : Prop where
  isClean : IsClean path
  relative : rooted path = false
  segments : cleanSegments path = List.replicate climbs ".." ++ ["a.ss"]

theorem High.climb {climbs : Nat} {path : String} (high : High climbs path) : climb path = climbs := by
  have other : ("a.ss" == "..") = false := by decide
  rw [Path.climb, high.segments, List.count_append, List.count_replicate_self, List.count_singleton, other]
  rfl

theorem High.ending {climbs : Nat} {path : String} (high : High climbs path) : ext path = sourceExt := by
  have more : (cleanSegments path).count ".." < (cleanSegments path).length := by
    have counted := high.climb
    rw [Path.climb] at counted
    rw [counted, high.segments, List.length_append, List.length_replicate]
    exact Nat.lt_succ_self climbs
  obtain ⟨_, front, shape⟩ := exists_name high.isClean more
  have last := List.append_inj_right' (high.segments.symm.trans shape) rfl
  rw [ext_eq, ← List.singleton_inj.mp last]
  decide

theorem High.read {climbs : Nat} {path : String} (high : High climbs path) :
    climbing.tree.read path = .ok (Utf8.encode "\\include[src=../a.ss]") := by
  have root : rooted "/" = true := by decide
  have top : cleanSegments "/" = [] := by decide +kernel
  have climbs_out (climbs : Nat) : follow true [] (List.replicate climbs "..") = [] := by
    induction climbs with
    | zero => rfl
    | succ climbs ih => exact ih
  obtain ⟨clean_real, rooted_real, segments⟩ := join_spec (show "/" ≠ "" by decide) path
  rw [root, top, high.isClean.follow_raw, high.segments, List.reverse_nil, follow_append, climbs_out] at segments
  have real : join "/" path = "/a.ss" :=
    clean_real.ext (show Path.clean "/a.ss" = "/a.ss" by decide +kernel) (rooted_real.trans (by decide +kernel))
      (segments.trans (by decide +kernel))
  have base : Path.clean "/" = "/" := by decide +kernel
  have stands : climbing.tree.realPath path = some "/a.ss" := by
    show (let base := Path.clean "/"; let real := Path.clean (join base path);
      if base.toList.isPrefixOf real.toList then some real else none) = some "/a.ss"
    dsimp only
    rw [base, real]
    decide
  have stored : climbing.tree.system.read "/a.ss" = .ok (Utf8.encode "\\include[src=../a.ss]") :=
    ok_of_toOption (by decide +kernel)
  rw [FileTree.read, stands]
  exact stored

theorem High.next {climbs : Nat} {path : String} (high : High climbs path) :
    High (climbs + 1) (join (dir path) "../a.ss") := by
  obtain ⟨_, root, segments⟩ := dir_spec high.isClean
  obtain ⟨clean_target, rooted_target, parts⟩ := join_spec (dir_ne_empty path) "../a.ss"
  refine ⟨clean_target, (rooted_target.trans root).trans high.relative, ?_⟩
  have written : raw "../a.ss" = ["..", "a.ss"] := by decide
  have further : cleanStep false (List.replicate climbs "..") ".." = List.replicate (climbs + 1) ".." := by
    cases climbs <;> rfl
  rw [parts, root, high.relative, segments, high.segments, List.dropLast_concat, List.reverse_replicate, written,
    follow_cons, further]
  show ("a.ss" :: List.replicate (climbs + 1) "..").reverse = _
  rw [List.reverse_cons, List.reverse_replicate]

theorem High.includes {climbs : Nat} {path : String} (high : High climbs path) :
    climbing.Includes path (join (dir path) "../a.ss") :=
  plain_include.2.2.includes high.read rfl (by rw [high.ending, lowerText_sourceExt]) high.next.ending high.next.read

theorem climbing_chain (climbs : Nat) : ∃ chain path, climbing.Chain "a.ss" chain path ∧ chain.length = climbs + 1 ∧
    High climbs path ∧ ∀ other ∈ chain, Path.climb other ≤ climbs := by
  induction climbs with
  | zero =>
    have start : High 0 "a.ss" := ⟨show Path.clean "a.ss" = "a.ss" by decide, by decide, by decide⟩
    exact ⟨_, _, .page, rfl, start, by simp [start.climb]⟩
  | succ climbs ih =>
    obtain ⟨chain, path, chained, length, high, low⟩ := ih
    have fresh : join (dir path) "../a.ss" ∉ chain := by
      intro member
      have lower := low _ member
      rw [high.next.climb] at lower
      exact absurd lower (Nat.not_succ_le_self climbs)
    refine ⟨_, _, chained.next high.includes fresh, by simp [length], high.next, ?_⟩
    intro other member
    rcases List.mem_append.mp member with before | last
    · exact (low other before).trans (Nat.le_succ climbs)
    · rw [List.mem_singleton.mp last]
      exact high.next.climb.le

end Sample

/-- Below a rooted base chains may have no bound, and with an ending in capitals a file that includes itself is made into
a document. -/
theorem inclusion_endless :
    (¬∃ bound, ∀ chain path, Sample.climbing.Chain "a.ss" chain path → chain.length ≤ bound) ∧
    (∃ nodes command, Sample.capital.Loads "a.SS" nodes ∧ command ∈ inclusionsOf nodes ∧
      Sample.capital.tree.realPath (target "a.SS" command) = Sample.capital.tree.realPath "a.SS") ∧
    ∃ document after, outcome (Sample.capital.compile "a.SS") {} = (.ok document, after) := by
  refine ⟨?_, ?_, ?_⟩
  · rintro ⟨bound, short⟩
    obtain ⟨chain, path, chained, length, _⟩ := Sample.climbing_chain bound
    have long := short chain path chained
    omega
  · have read : Sample.capital.tree.read "a.SS" = .ok (Utf8.encode "\\include[src=../src/a.SS]") :=
      Sample.ok_of_toOption (by decide +kernel)
    obtain ⟨nodes, loads, listed⟩ := Sample.plain_include.2.1.loads read rfl (by decide +kernel)
    have written : "../src/a.SS" ∈ addresses nodes := by rw [listed]; exact List.mem_singleton_self _
    obtain ⟨command, member, same⟩ := List.mem_map.mp written
    refine ⟨nodes, command, loads, member, ?_⟩
    have leads : target "a.SS" command = Path.join (Path.dir "a.SS") "../src/a.SS" := by rw [← same]; rfl
    rw [leads]
    decide +kernel
  · have succeeds : (outcome (Sample.capital.compile "a.SS") {}).1.toBool = true := by decide +kernel
    cases run : outcome (Sample.capital.compile "a.SS") {} with
    | mk given after =>
      rw [run] at succeeds
      cases given with
      | ok document => exact ⟨document, after, rfl⟩
      | error failure => cases succeeds

end Manuscript.Compiler
