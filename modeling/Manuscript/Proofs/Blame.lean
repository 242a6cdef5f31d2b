import Manuscript.Proofs.Expansion

/-! What compilations fail with. A file that cannot be loaded is refused for a reason of its own, and the inclusions of
a file are expanded one after the other, so its expansion fails as the first of them that does. -/

namespace Manuscript

namespace Compile

variable {α β : Type} {invariant : Session → Prop} {holds : α → Prop} {blames less : Failure → Prop}

/-- Fails only with failures of which `blames` is true. -/
def Blames (invariant : Session → Prop) (blames : Failure → Prop) (compilation : Compile α) : Prop :=
  ∀ session, invariant session → ∀ failure, (outcome compilation session).1 = .error failure → blames failure

theorem Blames.bind {compilation : Compile α} {next : α → Compile β} (first : Blames invariant blames compilation)
    (keeps : Keeps invariant holds compilation) (second : ∀ value, holds value → Blames invariant blames (next value)) :
    Blames invariant blames (compilation >>= next) := by
  intro session kept failure fails
  obtain ⟨left, given⟩ := keeps session kept
  cases run : outcome compilation session with
  | mk result middle =>
    rw [run] at left given
    cases result with
    | ok value =>
      rw [outcome_bind_ok run] at fails
      exact second value (given value rfl) middle left failure fails
    | error cause =>
      rw [outcome_bind_error run] at fails
      cases fails
      exact first session kept failure (by rw [run])

theorem Blames.mono {compilation : Compile α} (holds : Blames invariant blames compilation)
    (weaker : ∀ failure, blames failure → less failure) : Blames invariant less compilation := by
  intro session kept failure fails
  exact weaker failure (holds session kept failure fails)

theorem Blames.rethrow {compilation : Compile α} {wrap : Failure → Failure}
    (holds : Blames invariant blames compilation) (wrapped : ∀ failure, blames failure → less (wrap failure)) :
    Blames invariant less (tryCatch compilation fun failure => throw (wrap failure)) := by
  intro session kept failure fails
  rw [outcome_rethrow] at fails
  cases result : (outcome compilation session).1 with
  | ok value =>
    rw [result] at fails
    cases fails
  | error cause =>
    rw [result] at fails
    cases fails
    exact wrapped cause (holds session kept cause result)

end Compile

namespace Compiler

open Compile

/-- A source, or a drawing for which there is a decoder. -/
def Supported (compiler : Compiler) (path : String) : Prop :=
  LowerCase.lowerText (Path.ext path) = sourceExt ∨
    ∃ decode, compiler.decoders.lookup (LowerCase.lowerText (Path.ext path)) = some decode

/-- Why a file cannot be loaded, be its content resolved as deep as it takes. -/
inductive Refuses (compiler : Compiler) (path : String) : Failure → Prop where
  | unsupported (unknown : ¬compiler.Supported path) : Refuses compiler path .unsupportedFormat
  | unread {failure : Failure} (known : compiler.Supported path) (read : compiler.tree.read path = .error failure) :
      Refuses compiler path failure
  | undecoded {decode : Decoder} {data : Bytes} {failure : Failure}
      (ending : LowerCase.lowerText (Path.ext path) ≠ sourceExt)
      (known : compiler.decoders.lookup (LowerCase.lowerText (Path.ext path)) = some decode)
      (read : compiler.tree.read path = .ok data) (decoded : decode (Path.base path) data = .error failure) :
      Refuses compiler path failure

theorem Loads.supported {compiler : Compiler} {path : String} {nodes : List Node} (loads : compiler.Loads path nodes) :
    compiler.Supported path := by
  cases loads with
  | source ending _ _ => exact .inl ending
  | drawing _ known _ _ => exact .inr ⟨_, known⟩

theorem Refuses.not_loads {compiler : Compiler} {path : String} {failure : Failure}
    (refuses : compiler.Refuses path failure) : ¬∃ nodes, compiler.Loads path nodes := by
  rintro ⟨nodes, loads⟩
  cases refuses with
  | unsupported unknown => exact unknown loads.supported
  | unread _ read =>
    obtain ⟨data, found⟩ := loads.readable
    cases read.symm.trans found
  | undecoded ending known read decoded =>
    cases loads with
    | source other => exact ending other
    | drawing _ found reread redone =>
      obtain rfl := Option.some.inj (known.symm.trans found)
      obtain rfl := Except.ok.inj (read.symm.trans reread)
      cases decoded.symm.trans redone

section Loading

variable {compiler : Compiler} {blames : Failure → Prop}

end Loading

/-- Runs a program for what it does, not for what it gives. -/
def discard {α : Type} (program : Expand α) : Expand Unit := program >>= fun _ => pure ()

theorem discard_map {α β : Type} (program : Expand α) (make : α → β) :
    discard (program >>= fun value => pure (make value)) = discard program := by
  simp only [discard, bind_assoc, pure_bind]

section Order

variable (inclusion : Command Node → Expand (List Node))

mutual

theorem discard_expandNode (node : Node) : discard (expandNode inclusion node) =
    (inclusions node).forM fun command => discard (inclusion command) := by
  match node with
  | .command ⟨ident, attributes, args, declaration, rules⟩ =>
    simp only [expandNode, inclusions]
    split
    · rw [discard_map]
      simp only [List.forM_eq_forM, List.forM_cons, List.forM_nil, discard, bind_assoc, pure_bind]
    · rw [discard_map, discard_expandNodes args]
  | .bracket ⟨kind, opening, closing, children⟩ =>
    simp only [expandNode, inclusions]
    rw [discard_map, discard_expandNodes children]
  | .quotation opening closing children =>
    simp only [expandNode, inclusions]
    rw [discard_map, discard_expandNodes children]
  | .fragment children =>
    simp only [expandNode, inclusions]
    rw [discard_map, discard_expandNodes children]
  | .hole | .text _ _ | .symbol _ _ | .ident _ | .stray _ | .drawing _ | .tag _ => rfl
termination_by structural node

/-- Expansion runs the inclusions of a list one after the other. -/
theorem discard_expandNodes (nodes : List Node) : discard (expandNodes inclusion nodes) =
    (inclusionsOf nodes).forM fun command => discard (inclusion command) := by
  match nodes with
  | [] => rfl
  | node :: rest =>
    have first := discard_expandNode node
    have second := discard_expandNodes rest
    simp only [expandNodes, inclusionsOf, List.forM_eq_forM, List.forM_append] at first second ⊢
    rw [← first, ← second]
    simp only [discard, bind_assoc, pure_bind]
termination_by structural nodes

end

end Order

section First

variable {invariant : Session → Prop} {inclusion : Command Node → Expand (List Node)} {told : Command Node → Prop}
  {blamed : Command Node → Failure → Prop}
  (keeps : ∀ command sheet, Keeps invariant (fun _ => told command) ((inclusion command).run sheet))
  (blames : ∀ command sheet, Blames invariant (blamed command) ((inclusion command).run sheet))

include keeps blames

end First

end Compiler
end Manuscript
