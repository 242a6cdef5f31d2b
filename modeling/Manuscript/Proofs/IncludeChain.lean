import Manuscript.Proofs.Inclusions
import Manuscript.Proofs.Respelling
import Mathlib.Algebra.Order.BigOperators.Group.List
import Mathlib.Algebra.Order.Group.Nat
import Mathlib.Data.Set.Finite.Lattice
import Mathlib.Logic.Relation
import Mathlib.Order.Bounds.Basic

/-! Which files include which, and the chains of inclusions that lead to a file. A chain names no path twice, and a
file has one path for each number of climbs, so chains are bounded exactly when their paths do not climb higher and
higher. -/

namespace Manuscript.Compiler

open Manuscript.Path FileTree

/-- What a path contains, once it is resolved as deep as it takes. -/
inductive Loads (compiler : Compiler) (path : String) : List Node → Prop where
  | source {data : Bytes} {depth : Nat} {nodes : List Node} {events : List ResolveEvent}
      (ending : LowerCase.lowerText (Path.ext path) = sourceExt) (read : compiler.tree.read path = .ok data)
      (resolved : resolve compiler.registry depth (.top path) (normalize (Parse.ofBytes data)) = some (nodes, events)) :
      Loads compiler path nodes
  | drawing {decode : Decoder} {data : Bytes} {drawings : List Drawing}
      (ending : LowerCase.lowerText (Path.ext path) ≠ sourceExt)
      (known : compiler.decoders.lookup (LowerCase.lowerText (Path.ext path)) = some decode)
      (read : compiler.tree.read path = .ok data) (decoded : decode (Path.base path) data = .ok drawings) :
      Loads compiler path (drawings.map .drawing)

theorem Loads.readable {compiler : Compiler} {path : String} {nodes : List Node} (loads : compiler.Loads path nodes) :
    ∃ data, compiler.tree.read path = .ok data := by
  cases loads with
  | source _ read _ => exact ⟨_, read⟩
  | drawing _ _ read _ => exact ⟨_, read⟩

theorem Loads.unique {compiler : Compiler} {path : String} {nodes others : List Node}
    (loads : compiler.Loads path nodes) (again : compiler.Loads path others) : nodes = others := by
  cases loads with
  | source ending read resolved =>
    cases again with
    | source _ reread deeper =>
      obtain rfl := Except.ok.inj (read.symm.trans reread)
      exact (Prod.mk.inj (resolve_unique resolved deeper)).1
    | drawing other => exact absurd ending other
  | drawing ending known read decoded =>
    cases again with
    | source other => exact absurd other ending
    | drawing _ found reread redone =>
      obtain rfl := Option.some.inj (known.symm.trans found)
      obtain rfl := Except.ok.inj (read.symm.trans reread)
      obtain rfl := Except.ok.inj (decoded.symm.trans redone)
      rfl

theorem inclusionsOf_drawings (drawings : List Drawing) : inclusionsOf (drawings.map .drawing) = [] := by
  induction drawings with
  | nil => rfl
  | cons drawing drawings ih => simp only [List.map_cons, inclusionsOf, inclusions, ih, List.append_nil]

/-- Only sources include something. -/
theorem Loads.ending {compiler : Compiler} {path : String} {nodes : List Node} (loads : compiler.Loads path nodes)
    {command : Command Node} (member : command ∈ inclusionsOf nodes) :
    LowerCase.lowerText (Path.ext path) = sourceExt := by
  cases loads with
  | source ending => exact ending
  | drawing =>
    rw [inclusionsOf_drawings] at member
    cases member

theorem Loads.realPath {compiler : Compiler} {path : String} {nodes : List Node} (loads : compiler.Loads path nodes) :
    ∃ real, compiler.tree.realPath path = some real := by
  obtain ⟨data, read⟩ := loads.readable
  unfold FileTree.read at read
  cases found : compiler.tree.realPath path with
  | none =>
    rw [found] at read
    cases read
  | some real => exact ⟨real, rfl⟩

/-- A source has the same inclusions on every path to it. -/
theorem Loads.respelled {compiler : Compiler} {path other : String} {nodes : List Node}
    (loads : compiler.Loads path nodes) (ending : LowerCase.lowerText (Path.ext path) = sourceExt)
    (respells : compiler.tree.Respells path other) :
    ∃ moved, compiler.Loads other moved ∧ addresses moved = addresses nodes := by
  obtain ⟨real, found⟩ := loads.realPath
  have same : Path.ext other = Path.ext path := by
    rw [ext_eq other, respells.fileName_eq found (isName_of_source ending), ← ext_eq]
  cases loads with
  | drawing different => exact absurd ending different
  | source _ read resolved =>
    obtain ⟨moved, events, reached, alike⟩ := resolve_steady compiler.registry _ other _ _ _ _ resolved
    exact ⟨moved, .source (same ▸ ending) (read_of_realPath read respells.file) reached, alike⟩

/-- The second path is an included source: its content is expanded in turn. -/
inductive Includes (compiler : Compiler) (path target : String) : Prop where
  | intro {nodes content : List Node} {command : Command Node} (loads : compiler.Loads path nodes)
      (member : command ∈ inclusionsOf nodes) (leads : Compiler.target path command = target)
      (ending : Path.ext target = sourceExt) (loaded : compiler.Loads target content)

theorem Includes.loads_target {compiler : Compiler} {path target : String} (includes : compiler.Includes path target) :
    ∃ content, compiler.Loads target content := by
  obtain ⟨_, _, _, _, loaded⟩ := includes
  exact ⟨_, loaded⟩

theorem lowerText_sourceExt : LowerCase.lowerText sourceExt = sourceExt := by decide

theorem Includes.clean {compiler : Compiler} {path target : String} (includes : compiler.Includes path target)
    (isClean : IsClean path) : IsClean target ∧ rooted target = rooted path ∧ climb path ≤ climb target := by
  obtain ⟨loads, member, rfl, _, _⟩ := includes
  obtain ⟨clean_target, root, _⟩ := join_spec (dir_ne_empty path) (address _)
  have name := isName_of_source (loads.ending member)
  exact ⟨clean_target, root.trans (dir_spec isClean).2.1, climb_le_target isClean name _⟩

theorem Includes.respelled {compiler : Compiler} {path other target : String}
    (includes : compiler.Includes path target) (respells : compiler.tree.Respells path other) :
    ∃ again, compiler.Includes other again ∧ compiler.tree.Respells target again := by
  obtain ⟨loads, member, rfl, ending, loaded⟩ := includes
  rename_i command
  obtain ⟨real, found⟩ := loads.realPath
  obtain ⟨moved, reloads, alike⟩ := loads.respelled (loads.ending member) respells
  have listed : address command ∈ addresses moved := alike ▸ List.mem_map_of_mem member
  obtain ⟨twin, further, same⟩ := List.mem_map.mp listed
  have both : compiler.tree.Respells (Compiler.target path command) (Compiler.target other twin) := by
    have toward : Compiler.target other twin = join (dir other) (address command) := by rw [← same]; rfl
    rw [toward]
    exact respells.target found (isName_of_source (loads.ending member)) (address command)
  have lower : LowerCase.lowerText (Path.ext (Compiler.target path command)) = sourceExt := by
    rw [ending, lowerText_sourceExt]
  obtain ⟨place, reached⟩ := loaded.realPath
  obtain ⟨content, reloaded, _⟩ := loaded.respelled lower both
  refine ⟨_, ⟨reloads, further, rfl, ?_, reloaded⟩, both⟩
  rw [ext_eq, both.fileName_eq reached (isName_of_source lower), ← ext_eq, ending]

theorem transGen_respelled {compiler : Compiler} {path other target : String}
    (way : Relation.TransGen compiler.Includes path target) (respells : compiler.tree.Respells path other) :
    ∃ again, Relation.TransGen compiler.Includes other again ∧ compiler.tree.Respells target again := by
  induction way with
  | single includes =>
    obtain ⟨again, reached, same⟩ := includes.respelled respells
    exact ⟨again, .single reached, same⟩
  | tail _ includes ih =>
    obtain ⟨middle, way, same⟩ := ih
    obtain ⟨again, reached, alike⟩ := includes.respelled same
    exact ⟨again, way.tail reached, alike⟩

theorem transGen_clean {compiler : Compiler} {path target : String}
    (way : Relation.TransGen compiler.Includes path target) (isClean : IsClean path) :
    IsClean target ∧ rooted target = rooted path ∧ climb path ≤ climb target := by
  induction way with
  | single includes => exact includes.clean isClean
  | tail _ includes ih =>
    obtain ⟨clean_middle, root, higher⟩ := ih
    obtain ⟨clean_target, rooted_target, highest⟩ := includes.clean clean_middle
    exact ⟨clean_target, rooted_target.trans root, higher.trans highest⟩

/-- From a file that includes itself, by whatever path, inclusion can go on for ever. -/
theorem not_acc_of_cycle {compiler : Compiler} {path again : String} (isClean : IsClean path)
    (cycle : Relation.TransGen compiler.Includes path again)
    (same : compiler.tree.realPath again = compiler.tree.realPath path) :
    ¬Acc (fun target path => compiler.Includes path target) path := by
  have respells : compiler.tree.Respells path again := by
    obtain ⟨clean_again, root, higher⟩ := transGen_clean cycle isClean
    exact ⟨isClean, clean_again, root.symm, same.symm, higher⟩
  intro ends
  replace ends := ends.transGen
  clear isClean same
  induction ends generalizing again with
  | intro path _ ih =>
    obtain ⟨last, round, alike⟩ := transGen_respelled cycle respells
    exact ih again (Relation.transGen_swap.mp cycle) round alike

/-- The files that are being included when a file is, from the page on. -/
inductive Chain (compiler : Compiler) (page : String) : List String → String → Prop where
  | page : Chain compiler page [page] page
  | next {chain : List String} {path target : String} (chained : Chain compiler page chain path)
      (includes : compiler.Includes path target) (fresh : target ∉ chain) :
      Chain compiler page (chain ++ [target]) target

theorem Chain.clean {compiler : Compiler} {page path : String} {chain : List String}
    (chained : compiler.Chain page chain path) (isClean : IsClean page) : IsClean path ∧ rooted path = rooted page := by
  induction chained with
  | page => exact ⟨isClean, rfl⟩
  | next _ includes _ ih =>
    obtain ⟨clean_target, root, _⟩ := includes.clean ih.1
    exact ⟨clean_target, root.trans ih.2⟩

/-- What holds of the page, and of the targets of inclusions in files of which it holds, holds of all files on chains. -/
theorem Chain.holds {compiler : Compiler} {page path : String} {chain : List String}
    (chained : compiler.Chain page chain path) (good : String → Prop) (first : good page)
    (next : ∀ {path : String} {nodes : List Node} {command : Command Node}, good path → compiler.Loads path nodes →
      command ∈ inclusionsOf nodes → Path.ext (target path command) = sourceExt → good (target path command)) :
    good path := by
  induction chained with
  | page => exact first
  | next _ includes _ ih =>
    obtain ⟨loads, member, rfl, ending, _⟩ := includes
    exact next ih loads member ending

/-- What is on a chain behind the page: distinct files, each at the end of a chain of its own. -/
theorem Chain.targets {compiler : Compiler} {page path : String} {chain : List String}
    (chained : compiler.Chain page chain path) :
    ∃ targets, chain = page :: targets ∧ targets.Nodup ∧
      ∀ target ∈ targets, (∃ front, compiler.Chain page front target) ∧ ∃ content, compiler.Loads target content := by
  induction chained with
  | page => exact ⟨[], rfl, List.nodup_nil, by simp⟩
  | next chained includes fresh ih =>
    rename_i chain path target
    obtain ⟨targets, rfl, distinct, each⟩ := ih
    refine ⟨targets ++ [target], rfl, ?_, ?_⟩
    · rw [List.nodup_append]
      refine ⟨distinct, List.nodup_singleton _, ?_⟩
      intro other member last equal same
      obtain rfl := List.mem_singleton.mp equal
      exact fresh (List.mem_cons_of_mem _ (same ▸ member))
    · intro other member
      rcases List.mem_append.mp member with before | last
      · exact each other before
      · obtain rfl := List.mem_singleton.mp last
        exact ⟨⟨_, chained.next includes fresh⟩, includes.loads_target⟩

theorem Chain.length_le {compiler : Compiler} {page path : String} {chain : List String}
    (chained : compiler.Chain page chain path) (isClean : IsClean page) {height : Nat}
    (low : ∀ front target content, compiler.Chain page front target → compiler.Loads target content →
      climb target ≤ height) : chain.length ≤ (height + 1) * compiler.tree.readable.length + 1 := by
  obtain ⟨targets, rfl, distinct, each⟩ := chained.targets
  rw [List.length_cons]
  apply Nat.succ_le_succ
  apply length_le_of_climbs targets distinct
  intro target member
  obtain ⟨⟨front, reached⟩, content, loaded⟩ := each target member
  obtain ⟨clean_target, root⟩ := reached.clean isClean
  exact ⟨clean_target, root, low front target content reached loaded, loaded.readable⟩

theorem finite_includes (compiler : Compiler) (path : String) : {target | compiler.Includes path target}.Finite := by
  by_cases known : ∃ nodes, compiler.Loads path nodes
  · obtain ⟨nodes, loads⟩ := known
    apply ((inclusionsOf nodes).map (Compiler.target path)).finite_toSet.subset
    rintro target ⟨again, member, rfl, _, _⟩
    obtain rfl := loads.unique again
    exact List.mem_map_of_mem member
  · apply Set.finite_empty.subset
    rintro target ⟨loads, _, _, _, _⟩
    exact known ⟨_, loads⟩

/-- As each file includes finitely many others, there are finitely many chains of a length. -/
theorem finite_chains (compiler : Compiler) (page : String) (length : Nat) :
    {link : List String × String | compiler.Chain page link.1 link.2 ∧ link.1.length ≤ length}.Finite := by
  induction length with
  | zero =>
    apply Set.finite_empty.subset
    rintro ⟨chain, path⟩ ⟨chained, short⟩
    obtain ⟨targets, rfl, _⟩ := chained.targets
    exact absurd short (Nat.not_succ_le_zero _)
  | succ length ih =>
    have steps := ih.biUnion fun link _ =>
      (finite_includes compiler link.2).image fun target => (link.1 ++ [target], target)
    apply (steps.insert ([page], page)).subset
    rintro ⟨chain, path⟩ ⟨chained, short⟩
    dsimp only at chained short
    cases chained with
    | page => exact .inl rfl
    | next before includes fresh =>
      rw [List.length_append, List.length_singleton] at short
      apply Or.inr
      exact Set.mem_iUnion₂.mpr ⟨(_, _), ⟨before, Nat.le_of_succ_le_succ short⟩, _, includes, rfl⟩

/-- Chains are bounded exactly when they do not climb higher and higher. -/
theorem chains_bounded_iff (compiler : Compiler) {page : String} (isClean : IsClean page) :
    (∃ bound, ∀ chain path, compiler.Chain page chain path → chain.length ≤ bound) ↔
      ∃ height, ∀ chain path, compiler.Chain page chain path → climb path ≤ height := by
  constructor
  · rintro ⟨bound, short⟩
    obtain ⟨height, low⟩ := ((finite_chains compiler page bound).image fun link => climb link.2).bddAbove
    refine ⟨height, ?_⟩
    intro chain path chained
    exact low ⟨(chain, path), ⟨chained, short chain path chained⟩, rfl⟩
  · rintro ⟨height, low⟩
    refine ⟨(height + 1) * compiler.tree.readable.length + 1, ?_⟩
    intro chain path chained
    exact chained.length_le isClean fun front target _ reached _ => low front target reached

/-- Unless the base is rooted, the files of a project bound how high its chains climb. -/
theorem chains_bounded_of_relative {compiler : Compiler}
    (relative : ∀ base ∈ compiler.tree.base, rooted base = false) :
    ∃ bound, ∀ page chain path, IsClean page → compiler.Chain page chain path → chain.length ≤ bound := by
  let depth := ((compiler.tree.base.map cleanSegments).getD []).length
  let height := (compiler.tree.readable.map climb).sum + depth
  refine ⟨(height + 1) * compiler.tree.readable.length + 1, ?_⟩
  intro page chain path isClean chained
  apply chained.length_le isClean
  intro front target content reached loaded
  obtain ⟨data, found⟩ := loaded.readable
  obtain ⟨clean_target, _⟩ := reached.clean isClean
  obtain ⟨real, stands, stored⟩ := read_readable clean_target found
  calc
    climb target ≤ climb real + depth := climb_le relative clean_target stands
    _ ≤ height := Nat.add_le_add_right (List.le_sum_of_mem (List.mem_map_of_mem stored)) depth

end Manuscript.Compiler
