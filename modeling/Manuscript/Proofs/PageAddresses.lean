import Mathlib.Data.List.Sort
import Manuscript.Proofs.InclusionEnds
import Manuscript.Proofs.Independence
import Manuscript.Proofs.Listing

/-! Where pages are. The sources of a project are listed once each and their pages are written beside each other, so
only sources that differ in how their ending is spelled can have one page. The address of a page is where it is written
if the ending is in lower case, and only then. -/

namespace Manuscript

namespace Path

theorem takeLastWhile_suffix (test : Char → Bool) (chars : List Char) : takeLastWhile test chars <:+ chars := by
  have front := List.takeWhile_prefix test (l := chars.reverse)
  simpa [takeLastWhile] using List.reverse_suffix.mpr front

/-- A text that holds a point ends in what follows the last one. -/
theorem point_suffix {chars : List Char} (point : '.' ∈ chars) :
    '.' :: takeLastWhile (· ≠ '.') chars <:+ chars := by
  obtain ⟨last, front, split, plain⟩ := List.eq_append_cons_of_mem (List.mem_reverse.mpr point)
  have taken : takeLastWhile (· ≠ '.') chars = last.reverse := by
    rw [takeLastWhile, split, List.takeWhile_append_of_pos (by
      intro c member
      simpa using fun same : c = '.' => plain (same ▸ member))]
    simp
  refine ⟨front.reverse, ?_⟩
  rw [taken, ← List.reverse_reverse chars, split]
  simp

theorem ext_suffix (path : String) : (ext path).toList <:+ path.toList := by
  have last := takeLastWhile_suffix (· ≠ '/') path.toList
  unfold ext
  dsimp only
  split
  next point =>
    rw [String.toList_ofList]
    exact (point_suffix (List.contains_iff_mem.mp point)).trans last
  next => exact List.nil_suffix

theorem dropEnding_append {text ending : String} (ends : ending.toList <:+ text.toList) :
    dropEnding text ending ++ ending = text := by
  rw [dropEnding, if_pos (List.isSuffixOf_iff_suffix.mpr ends)]
  apply String.toList_inj.mp
  rw [String.toList_append, String.toList_ofList]
  exact List.suffix_iff_eq_append.mp ends

theorem prefix_dropEnding (text ending : String) : (dropEnding text ending).toList <+: text.toList := by
  unfold dropEnding
  split
  · rw [String.toList_ofList]
    exact List.take_prefix ..
  · exact List.prefix_refl _

end Path

open Manuscript.Path

namespace Compiler

theorem outputPath_inj {source other : String} : outputPath source = outputPath other ↔
    ∃ stem, source = stem ++ ext source ∧ other = stem ++ ext other := by
  have whole (path : String) := dropEnding_append (ext_suffix path)
  unfold outputPath
  rw [String.append_left_inj]
  constructor
  · intro same
    refine ⟨dropEnding source (ext source), (whole source).symm, ?_⟩
    rw [same, whole other]
  · rintro ⟨stem, first, second⟩
    have stems {path : String} (split : path = stem ++ ext path) : dropEnding path (ext path) = stem :=
      (String.append_left_inj _).mp ((whole path).trans split)
    rw [stems first, stems second]

theorem pageUrl_eq {source : String} (inside : Inside source) (plain : '\\' ∉ source.toList) :
    pageUrl source = "/" ++ dropEnding source sourceExt ++ ".html" := by
  have letters : (source.toList.map fun c => if c = '\\' then '/' else c) = source.toList := by
    refine (List.map_congr_left fun c member => if_neg ?_).trans (List.map_id _)
    rintro rfl
    exact plain member
  have relative : ¬"/".toList <+: (dropEnding source sourceExt).toList := by
    intro slash
    have root := inside.relative
    rw [rooted, List.singleton_prefix_iff_head?_eq_some.mp (slash.trans (prefix_dropEnding source sourceExt))] at root
    cases root
  unfold pageUrl
  rw [letters, String.ofList_toList, inside.clean]
  change "/" ++ dropBeginning (dropEnding source sourceExt) "/" ++ ".html" = _
  rw [dropBeginning, if_neg (mt List.isPrefixOf_iff_prefix.mp relative)]

/-- The address of a page is where the page is if its ending is spelled in lower case. -/
theorem pageUrl_output {source : String} (inside : Inside source) (plain : '\\' ∉ source.toList)
    (ending : LowerCase.foldsTo sourceExt (ext source) = true) :
    pageUrl source = "/" ++ outputPath source ↔ ext source = sourceExt := by
  have whole := dropEnding_append (ext_suffix source)
  rw [pageUrl_eq inside plain, outputPath, String.append_assoc, String.append_right_inj, String.append_left_inj]
  constructor
  · intro same
    by_cases lower : sourceExt.toList <:+ source.toList
    · have other := dropEnding_append lower
      rw [same] at other
      exact (String.append_right_inj _).mp (whole.trans other.symm)
    · have untouched : dropEnding source sourceExt = source := if_neg (mt List.isSuffixOf_iff_suffix.mp lower)
      rw [← same, untouched] at whole
      have none : ext source = "" := by
        apply String.toList_inj.mp
        have letters := congrArg String.toList whole
        rwa [String.toList_append, List.append_right_eq_self] at letters
      rw [none] at ending
      cases ending
  · intro same
    rw [same]

theorem publish_output (output : Output) (source : String) (page : Except Failure String) :
    (publish output source page).1.output = outputPath source := by
  cases page with
  | error failure => rfl
  | ok page =>
    unfold publish
    dsimp only
    split <;> rfl

theorem buildPage_output (compiler : Compiler) (layout : PageLayout) (output : Output) (source : String)
    (session : Session) :
    ((compiler.buildPage layout output source).run session).1.1.output = outputPath source := by
  rw [buildPage_eq_publish, run_answer (compiler.compile source)]
  exact publish_output ..

/-- Sources are listed once each, by clean paths of files that have the ending. -/
theorem sources_spec {compiler : Compiler} (orderly : compiler.tree.system.Orderly) {sources : List String}
    (listed : compiler.sources = .ok sources) : sources.Nodup ∧
      ∀ source ∈ sources, Inside source ∧ LowerCase.foldsTo sourceExt (ext source) = true := by
  obtain ⟨found, walked, result⟩ := except_bind_eq_ok.mp listed
  cases result
  have finds := FileTree.walk_finds orderly _ (by decide : Inside ".") walked
  refine ⟨finds.once.filter _, fun source member => ?_⟩
  obtain ⟨inside, ending⟩ := List.mem_filter.mp member
  exact ⟨finds.inside source inside, ending⟩

/-- Two sources of a project have one page only if they differ in how their ending is spelled and in nothing else. The
address of a page is where it is built if and only if the ending of its source is in lower case. -/
theorem pages_addressed {compiler : Compiler} (orderly : compiler.tree.system.Orderly) {sources : List String}
    (listed : compiler.sources = .ok sources) :
    (sources.Pairwise fun source other => source ≠ other ∧ (outputPath source = outputPath other ↔
      ∃ stem, source = stem ++ ext source ∧ other = stem ++ ext other)) ∧
    (∀ source ∈ sources, Inside source ∧ ∀ layout output session,
      ((compiler.buildPage layout output source).run session).1.1.output = outputPath source ∧
      ('\\' ∉ source.toList → (pageUrl source =
        "/" ++ ((compiler.buildPage layout output source).run session).1.1.output ↔ ext source = sourceExt))) ∧
    ((∀ source ∈ sources, ext source = sourceExt) → (sources.map outputPath).Nodup) := by
  obtain ⟨distinct, all⟩ := sources_spec orderly listed
  refine ⟨distinct.imp fun apart => ⟨apart, outputPath_inj⟩, fun source member => ?_, fun lower => ?_⟩
  · obtain ⟨inside, ending⟩ := all source member
    refine ⟨inside, fun layout output session => ?_⟩
    rw [buildPage_output]
    exact ⟨rfl, fun plain => pageUrl_output inside plain ending⟩
  · refine List.Nodup.map_on (fun source member other further same => ?_) distinct
    obtain ⟨stem, first, second⟩ := outputPath_inj.mp same
    rw [first, second, lower source member, lower other further]

namespace Sample

/-- A project of empty files. -/
def empties (names : List String) : Compiler where
  tree := .project "src" (names.map fun name => (name, []))

theorem empties_orderly {names : List String} (inside : ∀ name ∈ names, Inside name ∧ name ≠ ".") :
    (empties names).tree.system.Orderly :=
  FileSystem.project_orderly (by decide) (by decide) (List.forall_mem_map.mpr inside)

/-- Names with points, a name that is only an ending, a directory, and a file that is no source. -/
def mixed : List String := ["x.tar.ss", "b/c.ss", "b/.ss", "b/d.txt", "a.ss"]

end Sample

theorem pages_addressed_mixed : ∃ sources, (Sample.empties Sample.mixed).sources = .ok sources ∧
    sources = ["a.ss", "b/.ss", "b/c.ss", "x.tar.ss"] ∧ (sources.map outputPath).Nodup ∧
    ∀ source ∈ sources, ∀ layout output session, pageUrl source =
      "/" ++ (((Sample.empties Sample.mixed).buildPage layout output source).run session).1.1.output := by
  have listed : (Sample.empties Sample.mixed).sources = .ok ["a.ss", "b/.ss", "b/c.ss", "x.tar.ss"] := by
    have depth : (Sample.empties Sample.mixed).tree.system.entries.length = 8 := by decide +kernel
    apply Sample.ok_of_toOption
    simp only [sources, FileTree.filesBelow, depth, FileTree.walk, List.mergeSort_eq_insertionSort]
    decide +kernel
  have lower : ∀ source ∈ ["a.ss", "b/.ss", "b/c.ss", "x.tar.ss"],
      ext source = sourceExt ∧ '\\' ∉ source.toList := by
    decide +kernel
  obtain ⟨_, pages, distinct⟩ := pages_addressed (Sample.empties_orderly (by decide)) listed
  refine ⟨_, listed, rfl, distinct fun source member => (lower source member).1, ?_⟩
  intro source member layout output session
  obtain ⟨ending, plain⟩ := lower source member
  exact (((pages source member).2 layout output session).2 plain).mpr ending

/-- A source whose ending is in capitals has its page where another one has its own, and its address is elsewhere. -/
theorem pages_misaddressed : ∃ sources, (Sample.empties ["a.ss", "a.SS"]).sources = .ok sources ∧
    ¬(sources.map outputPath).Nodup ∧ ∃ source ∈ sources, '\\' ∉ source.toList ∧
      ∀ layout output session, pageUrl source ≠
        "/" ++ (((Sample.empties ["a.ss", "a.SS"]).buildPage layout output source).run session).1.1.output := by
  have listed : (Sample.empties ["a.ss", "a.SS"]).sources = .ok ["a.SS", "a.ss"] := by
    have depth : (Sample.empties ["a.ss", "a.SS"]).tree.system.entries.length = 4 := by decide +kernel
    apply Sample.ok_of_toOption
    simp only [sources, FileTree.filesBelow, depth, FileTree.walk, List.mergeSort_eq_insertionSort]
    decide +kernel
  refine ⟨_, listed, by decide +kernel, "a.SS", List.mem_cons_self .., by decide, ?_⟩
  intro layout output session
  rw [buildPage_output]
  decide +kernel

end Compiler
end Manuscript
