import Manuscript.Project.Build

/-! What is read back from a tree of files. A write is read back from its path and leaves the content of all other
files, whatever directories come into being on the way; and whether it succeeds does not depend on what was written
before. -/

namespace Manuscript

namespace FileSystem

/-- The path has this content, be it a directory or a plain file. -/
def Holds (system : FileSystem) (path : String) (content : Bytes) : Prop :=
  ∃ entry, system.find? path = some entry ∧ entry.content = content

theorem read_eq_ok_iff {system : FileSystem} {path : String} {content : Bytes} :
    system.read path = .ok content ↔ system.Holds path content := by
  unfold read Holds
  cases system.find? path <;> simp

theorem lookup_adjust (entries : List (String × FileEntry)) (key name : String) (change : FileEntry → FileEntry) :
    (entries.map fun (name, entry) => (name, if name = key then change entry else entry)).lookup name =
      (entries.lookup name).map fun entry => if name = key then change entry else entry := by
  induction entries with
  | nil => rfl
  | cons stored entries ih =>
    obtain ⟨other, entry⟩ := stored
    simp only [List.map_cons, List.lookup_cons]
    split
    next same =>
      rw [beq_iff_eq.mp same]
      rfl
    next => exact ih

theorem find?_adjust (system : FileSystem) (key path : String) (change : FileEntry → FileEntry) :
    (system.adjust key change).find? path =
      (system.find? path).map fun entry => if keyOf path = key then change entry else entry :=
  lookup_adjust ..

theorem Holds.adjust {system : FileSystem} {path : String} {content : Bytes} (holds : system.Holds path content)
    {key : String} {change : FileEntry → FileEntry}
    (keeps : keyOf path = key → ∀ entry, entry.content = content → (change entry).content = content) :
    (system.adjust key change).Holds path content := by
  obtain ⟨entry, found, same⟩ := holds
  refine ⟨_, by rw [find?_adjust, found, Option.map_some], ?_⟩
  split
  next here => exact keeps here entry same
  next => exact same

theorem Holds.add {system : FileSystem} {path : String} {content : Bytes} (holds : system.Holds path content)
    (key : String) (entry : FileEntry) : (system.add key entry).Holds path content := by
  obtain ⟨stored, found, same⟩ := holds
  refine ⟨stored, ?_, same⟩
  unfold find? FileSystem.add at *
  rw [List.lookup_append, found]
  rfl

theorem Holds.attach {system : FileSystem} {path : String} {content : Bytes} (holds : system.Holds path content)
    (steps : Nat) (key : String) : (FileSystem.attach steps system key).Holds path content := by
  induction steps generalizing system key with
  | zero => exact holds
  | succ steps ih =>
    unfold FileSystem.attach
    dsimp only
    split
    · exact holds.adjust fun _ entry same => same
    · exact ih (holds.add _ _) _

theorem holds_create {system : FileSystem} {path : String} (fresh : system.find? path = none) (entry : FileEntry) :
    (system.create (keyOf path) entry).Holds path entry.content := by
  apply Holds.attach
  refine ⟨entry, ?_, rfl⟩
  unfold find? FileSystem.add at *
  rw [List.lookup_append, fresh, List.lookup_cons_self]
  rfl

theorem Holds.makeDirectory {system : FileSystem} {path : String} {content : Bytes} (holds : system.Holds path content)
    (directory : String) : (system.makeDirectory directory).Holds path content := by
  unfold FileSystem.makeDirectory
  split
  · exact holds
  · exact (holds.add _ _).attach _ _

theorem holds_write (system : FileSystem) (path : String) (content : Bytes) :
    (system.write path content).Holds path content := by
  unfold FileSystem.write
  split
  next entry found =>
    refine ⟨_, by rw [find?_adjust, found, Option.map_some], ?_⟩
    rw [if_pos rfl]
  next fresh => exact holds_create fresh _

theorem Holds.write {system : FileSystem} {path other : String} {content : Bytes} (holds : system.Holds path content)
    (apart : keyOf other ≠ keyOf path) (data : Bytes) : (system.write other data).Holds path content := by
  unfold FileSystem.write
  split
  · exact holds.adjust fun same => absurd same.symm apart
  · exact (holds.add _ _).attach _ _

end FileSystem

namespace Output

/-- The file that a path stands for. -/
def file (output : Output) (path : String) : Option String := (output.tree.realPath path).map FileSystem.keyOf

/-- Two states of one place to write to. -/
def Alike (output other : Output) : Prop := output.readOnly = other.readOnly ∧ output.tree.base = other.tree.base

theorem Alike.realPath {output other : Output} (alike : output.Alike other) (path : String) :
    output.tree.realPath path = other.tree.realPath path := by
  unfold FileTree.realPath
  rw [alike.2]

/-- A write is decided by the place and the path; what is there already only gets more. -/
theorem write_eq (output : Output) (path : String) (content : Bytes) : output.write path content =
    if output.readOnly then .error .notPermitted
    else match output.tree.realPath (Path.dir path), output.tree.realPath path with
      | none, _ => .error (.notFound "mkdir" (Path.dir path))
      | some _, none => .error (.notFound "open" path)
      | some directory, some real => .ok { output with tree := { output.tree with
          system := (output.tree.system.makeDirectory directory).write real content } } := by
  obtain ⟨tree, readOnly⟩ := output
  have based (system : FileSystem) : FileTree.realPath { tree with system } path = tree.realPath path := rfl
  cases readOnly with
  | true => rfl
  | false =>
    simp only [Output.write, FileTree.makeDirectory, FileTree.write]
    cases tree.realPath (Path.dir path) with
    | none => rfl
    | some directory =>
      simp only [Bool.false_eq_true, if_false, bind, Except.bind, based]
      cases tree.realPath path <;> rfl

theorem write_eq_ok {output after : Output} {path : String} {content : Bytes}
    (written : output.write path content = .ok after) : output.Alike after ∧ ∃ real directory,
      output.tree.realPath path = some real ∧
      after.tree.system = (output.tree.system.makeDirectory directory).write real content := by
  rw [write_eq] at written
  split at written
  · cases written
  · split at written
    · cases written
    · cases written
    next directory real _ found =>
      cases written
      exact ⟨⟨rfl, rfl⟩, real, directory, found, rfl⟩

theorem Alike.file {output other : Output} (alike : output.Alike other) (path : String) :
    output.file path = other.file path := by
  unfold Output.file
  rw [alike.realPath]

/-- Whether a write succeeds is decided by the place and the path alone. -/
theorem Alike.write {output other : Output} (alike : output.Alike other) (path : String) (content : Bytes) :
    (output.write path content).map (fun _ => ()) = (other.write path content).map fun _ => () := by
  simp only [write_eq, alike.1, alike.realPath]
  split
  · rfl
  · split <;> rfl

theorem read_write {output after : Output} {path : String} {content : Bytes}
    (written : output.write path content = .ok after) : after.tree.read path = .ok content := by
  obtain ⟨alike, real, directory, found, system⟩ := write_eq_ok written
  unfold FileTree.read
  rw [← alike.realPath, found, system]
  exact FileSystem.read_eq_ok_iff.mpr (FileSystem.holds_write ..)

theorem read_write_other {output after : Output} {path other : String} {content data : Bytes}
    (written : output.write path content = .ok after) (held : output.tree.read other = .ok data)
    (apart : output.file path ≠ output.file other) : after.tree.read other = .ok data := by
  obtain ⟨alike, real, directory, found, system⟩ := write_eq_ok written
  unfold FileTree.read at *
  rw [← alike.realPath, system]
  cases place : output.tree.realPath other with
  | none =>
    rw [place] at held
    cases held
  | some stored =>
    rw [place] at held
    have distinct : FileSystem.keyOf real ≠ FileSystem.keyOf stored := by
      simpa [Output.file, found, place] using apart
    have kept := (FileSystem.read_eq_ok_iff.mp held).makeDirectory directory
    exact FileSystem.read_eq_ok_iff.mpr (kept.write distinct content)

end Output

end Manuscript
