import Manuscript.Proofs.Blame
import Manuscript.Proofs.InclusionEnds

/-! Which inclusion a page fails at. The inclusions that are met from a page on are in the order in which they are
expanded; a page is made into a document exactly when none of them leads back or to a file that cannot be loaded, and
otherwise it fails at the first one that does. -/

namespace Manuscript.Compiler

open Compile

/-- An inclusion where it is met: the file it stands in, and the files that are being included there. -/
structure Visit where
  chain : List String
  path : String
  command : Command Node

namespace Visit

def target (visit : Visit) : String := Compiler.target visit.path visit.command

/-- Leads back to a file that is being included, or to one that cannot be loaded. -/
def Fails (visit : Visit) (compiler : Compiler) : Prop :=
  visit.target ∈ visit.chain ∨ ¬∃ content, compiler.Loads visit.target content

end Visit

/-- The inclusions that are met where `command` is expanded, with the way to each of them: its number among the
inclusions of a file, for each file that is entered. -/
inductive Meets (compiler : Compiler) : List String → String → Command Node → List Nat → Visit → Prop where
  | here {chain : List String} {path : String} {command : Command Node} :
      Meets compiler chain path command [] ⟨chain, path, command⟩
  | inside {chain : List String} {path : String} {command further : Command Node} {content : List Node} {index : Nat}
      {route : List Nat} {visit : Visit} (fresh : target path command ∉ chain)
      (ending : Path.ext (target path command) = sourceExt) (loads : compiler.Loads (target path command) content)
      (found : (inclusionsOf content)[index]? = some further)
      (meets : Meets compiler (chain ++ [target path command]) (target path command) further route visit) :
      Meets compiler chain path command (index :: route) visit

/-- The inclusions that are met where the content of a file is expanded. -/
inductive Visits (compiler : Compiler) (chain : List String) (path : String) (nodes : List Node) :
    List Nat → Visit → Prop where
  | intro {command : Command Node} {index : Nat} {route : List Nat} {visit : Visit}
      (found : (inclusionsOf nodes)[index]? = some command) (meets : compiler.Meets chain path command route visit) :
      Visits compiler chain path nodes (index :: route) visit

theorem meets_iff {compiler : Compiler} {chain : List String} {path : String} {command : Command Node}
    {content : List Node} (fresh : target path command ∉ chain) (ending : Path.ext (target path command) = sourceExt)
    (loads : compiler.Loads (target path command) content) {route : List Nat} {visit : Visit} :
    compiler.Meets chain path command route visit ↔ route = [] ∧ visit = ⟨chain, path, command⟩ ∨
      compiler.Visits (chain ++ [target path command]) (target path command) content route visit := by
  constructor
  · intro meets
    cases meets with
    | here => exact .inl ⟨rfl, rfl⟩
    | inside _ _ again found meets =>
      obtain rfl := loads.unique again
      exact .inr ⟨found, meets⟩
  · rintro (⟨rfl, rfl⟩ | ⟨found, meets⟩)
    · exact .here
    · exact .inside fresh ending loads found meets

section First

variable {compiler : Compiler}

/-- None of these visits fails. -/
def Clear (compiler : Compiler) (visits : List Nat → Visit → Prop) : Prop :=
  ∀ route visit, visits route visit → ¬visit.Fails compiler

/-- The first of these visits that fails, from left to right and a file before what is inside of it. -/
structure First (compiler : Compiler) (visits : List Nat → Visit → Prop) (route : List Nat) (visit : Visit) : Prop where
  met : visits route visit
  fails : visit.Fails compiler
  least : ∀ other later, visits other later → later.Fails compiler → other = route ∨ List.Lex (· < ·) route other

/-- What is said of an inclusion that leads nowhere. -/
def Cause (compiler : Compiler) (visit : Visit) (cause : Failure) : Prop :=
  visit.target ∈ visit.chain ∧ cause = .includeCycle ∨ visit.target ∉ visit.chain ∧ compiler.Refuses visit.target cause

/-- A failure of the first visit that fails. -/
def Faults (compiler : Compiler) (visits : List Nat → Visit → Prop) (failure : Failure) : Prop :=
  ∃ route visit cause, compiler.First visits route visit ∧ compiler.Cause visit cause ∧
    failure = .including visit.target cause

theorem Cause.fails {visit : Visit} {cause : Failure} (reason : compiler.Cause visit cause) : visit.Fails compiler := by
  rcases reason with ⟨back, _⟩ | ⟨_, refuses⟩
  · exact .inl back
  · exact .inr refuses.not_loads

theorem Faults.congr {visits others : List Nat → Visit → Prop} {failure : Failure}
    (faults : compiler.Faults visits failure)
    (same : ∀ route visit, visit.Fails compiler → (others route visit ↔ visits route visit)) :
    compiler.Faults others failure := by
  obtain ⟨route, visit, cause, ⟨met, fails, least⟩, reason, rfl⟩ := faults
  refine ⟨route, visit, cause, ⟨(same route visit fails).mpr met, fails, ?_⟩, reason, rfl⟩
  intro other later further failing
  exact least other later ((same other later failing).mp further) failing

/-- Where the inclusions before one are clear, what it fails at is what the list fails at. -/
theorem Faults.visits {chain : List String} {path : String} {nodes : List Node} {before after : List (Command Node)}
    {command : Command Node} {failure : Failure} (split : inclusionsOf nodes = before ++ command :: after)
    (clear : ∀ other ∈ before, compiler.Clear (compiler.Meets chain path other))
    (faults : compiler.Faults (compiler.Meets chain path command) failure) :
    compiler.Faults (compiler.Visits chain path nodes) failure := by
  obtain ⟨route, visit, cause, ⟨met, fails, least⟩, reason, rfl⟩ := faults
  have place : (inclusionsOf nodes)[before.length]? = some command := by simp [split]
  refine ⟨before.length :: route, visit, cause, ⟨⟨place, met⟩, fails, ?_⟩, reason, rfl⟩
  rintro _ later ⟨found, meets⟩ failing
  rename_i further index other
  rcases Nat.lt_trichotomy index before.length with earlier | rfl | behind
  · rw [split, List.getElem?_append_left earlier] at found
    exact absurd failing (clear further (List.mem_of_getElem? found) other later meets)
  · obtain rfl := Option.some.inj (place.symm.trans found)
    rcases least other later meets failing with rfl | less
    · exact .inl rfl
    · exact .inr (.cons less)
  · exact .inr (.rel behind)

end First

section Page

variable {compiler : Compiler} {path : String} {nodes : List Node} (loads : compiler.Loads (Path.clean path) nodes)

include loads

end Page

/-- An inclusion leads from one path to the other. Only the page and files that end in `sourceExt` are entered. -/
inductive Links (compiler : Compiler) (page path target : String) : Prop where
  | intro {nodes : List Node} {command : Command Node} (loads : compiler.Loads path nodes)
      (entered : path = page ∨ Path.ext path = sourceExt) (member : command ∈ inclusionsOf nodes)
      (leads : Compiler.target path command = target)

/-- A way from the page along inclusions. -/
inductive Walk (compiler : Compiler) (page : String) : List String → String → Prop where
  | page : Walk compiler page [page] page
  | next {walked : List String} {path target : String} (walk : Walk compiler page walked path)
      (links : compiler.Links page path target) : Walk compiler page (walked ++ [target]) target

theorem Walk.mem {compiler : Compiler} {page last : String} {walked : List String}
    (walk : compiler.Walk page walked last) : page ∈ walked := by
  induction walk with
  | page => exact List.mem_singleton_self page
  | next _ _ ih => exact List.mem_append_left _ ih

/-- Where nothing that is met from the page on fails, a walk meets each file once. -/
theorem Walk.clear {compiler : Compiler} {page last : String} {walked : List String} {nodes : List Node}
    (loads : compiler.Loads page nodes) (clear : compiler.Clear (compiler.Visits [page] page nodes))
    (walk : compiler.Walk page walked last) : walked.Nodup ∧ ∃ content, compiler.Loads last content ∧
      (last = page ∨ Path.ext last = sourceExt → compiler.Clear (compiler.Visits walked last content)) := by
  induction walk with
  | page => exact ⟨List.nodup_singleton page, nodes, loads, fun _ => clear⟩
  | next walk links ih =>
    rename_i walked path _
    obtain ⟨distinct, listed, loaded, passes⟩ := ih
    obtain ⟨again, entered, member, rfl⟩ := links
    rename_i command
    obtain rfl := loaded.unique again
    obtain ⟨index, found⟩ := List.getElem?_of_mem member
    have sound := passes entered [index] _ ⟨found, .here⟩
    obtain ⟨fresh, content, inner⟩ := not_or.mp sound |>.imp id not_not.mp
    refine ⟨?_, content, inner, ?_⟩
    · rw [List.nodup_append_comm]
      exact List.nodup_cons.mpr ⟨fresh, distinct⟩
    · intro further route visit visits
      -- the page is on the walk from the start, so the target is another file
      have ending : Path.ext (target path command) = sourceExt := by
        rcases further with same | ending
        · exact absurd (show target path command ∈ walked by rw [same]; exact walk.mem) fresh
        · exact ending
      exact passes entered _ visit ⟨found, (meets_iff fresh ending inner).mpr (.inr visits)⟩

/-- What is met from the page on is met on a walk. -/
theorem Meets.walk {compiler : Compiler} {page path : String} {chain : List String} {command : Command Node}
    {route : List Nat} {visit : Visit} (meets : compiler.Meets chain path command route visit) {nodes : List Node}
    (walk : compiler.Walk page chain path) (loads : compiler.Loads path nodes)
    (entered : path = page ∨ Path.ext path = sourceExt) (member : command ∈ inclusionsOf nodes) :
    compiler.Walk page (visit.chain ++ [visit.target]) visit.target := by
  induction meets generalizing nodes with
  | here => exact walk.next ⟨loads, entered, member, rfl⟩
  | inside _ ending loaded found _ ih =>
    exact ih (walk.next ⟨loads, entered, member, rfl⟩) loaded (.inr ending) (List.mem_of_getElem? found)

section Finite

variable {compiler : Compiler}

end Finite

/-- Decoders fail for reasons of their own, none of which has to do with inclusion. -/
def Apart (compiler : Compiler) : Prop :=
  ∀ ext decode name data failure, compiler.decoders.lookup ext = some decode → decode name data = .error failure →
    failure ≠ .includeCycle ∧ failure ≠ .unsupportedFormat ∧ failure.includePaths = []

theorem Refuses.apart {compiler : Compiler} (apart : compiler.Apart) {path : String} {failure : Failure}
    (refuses : compiler.Refuses path failure) (known : compiler.Supported path) :
    failure ≠ .includeCycle ∧ failure ≠ .unsupportedFormat ∧ failure.includePaths = [] := by
  cases refuses with
  | unsupported unknown => exact absurd known unknown
  | unread _ read =>
    unfold FileTree.read FileSystem.read at read
    split at read
    · split at read
      · cases read
      · cases read
        simp [Failure.includePaths]
    · cases read
      simp [Failure.includePaths]
  | undecoded _ found _ decoded => exact apart _ _ _ _ _ found decoded

theorem Cause.exact {compiler : Compiler} (apart : compiler.Apart) {visit : Visit} {cause : Failure}
    (reason : compiler.Cause visit cause) :
    cause.includePaths = [] ∧ (cause = .includeCycle ↔ visit.target ∈ visit.chain) ∧
      (cause = .unsupportedFormat ↔ visit.target ∉ visit.chain ∧ ¬compiler.Supported visit.target) := by
  rcases reason with ⟨back, rfl⟩ | ⟨fresh, refuses⟩
  · simp [Failure.includePaths, back]
  · by_cases known : compiler.Supported visit.target
    · obtain ⟨first, second, third⟩ := refuses.apart apart known
      simp [first, second, third, fresh, known]
    · cases refuses with
      | unsupported _ => simp [Failure.includePaths, fresh, known]
      | unread supported _ => exact absurd supported known
      | undecoded _ found _ _ => exact absurd (.inr ⟨_, found⟩) known

namespace Sample

theorem Plain.links {compiler : Compiler} {page path source : String} {data : Bytes} {list : List String}
    (plain : Plain data list) (read : compiler.tree.read path = .ok data)
    (standard : compiler.registry = Builtin.registry) (ending : Path.ext path = sourceExt) (member : source ∈ list) :
    compiler.Links page path (Path.join (Path.dir path) source) := by
  obtain ⟨nodes, loads, listed⟩ := plain.loads read standard (by rw [ending, lowerText_sourceExt])
  have written : source ∈ addresses nodes := by rwa [listed]
  obtain ⟨command, among, rfl⟩ := List.mem_map.mp written
  exact ⟨loads, .inr ending, among, rfl⟩

end Sample

end Manuscript.Compiler
