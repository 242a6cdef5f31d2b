import Manuscript.Latex.Output
import Manuscript.Proofs.Decoding

/-! LaTeX on an output that fails. Walking the tree comes to handing over its pieces one after the other, whatever the
output does, so what an output with room for so many bytes has in the end is the beginning of the text that an
output with room for everything gets. -/

namespace Manuscript

namespace Latex

section Walk

variable {m : Type → Type} [Monad m] (write : String → m Unit)

mutual

theorem send_eq [LawfulMonad m] (node : Node) : send write node = (pieces node).forM write := by
  match node with
  | .hole => rfl
  | .text value _ | .symbol value _ | .ident ⟨value, _⟩ | .stray ⟨value, _⟩ | .drawing _ => simp [send, pieces]
  | .bracket block => exact sendBlock_eq block
  | .quotation _ closing children => simp [send, pieces, sendAll_eq children]
  | .fragment children => exact sendAll_eq children
  | .tag ⟨ident, opts, _, args, _⟩ => simp [send, pieces, sendOptions_eq opts, sendBlocks_eq args]
  | .command ⟨ident, attributes, args, declaration, _⟩ =>
    simp only [send, pieces]
    cases (declaration.map Declaration.latex).getD .invocation with
    | invocation => cases given : attributes.getD [] <;> simp [invocation, given, sendAll_eq args]
    | wrapped before after => simp [sendBody_eq args]
    | heading =>
      dsimp only
      split
      · rfl
      · simp [sendBody_eq args]
    | link => simp [sendBody_eq args]
    | image | matrix | input => simp
    | nothing => rfl
termination_by structural node

theorem sendAll_eq [LawfulMonad m] (nodes : List Node) : sendAll write nodes = (allPieces nodes).forM write := by
  match nodes with
  | [] => rfl
  | node :: rest => simp [sendAll, allPieces, send_eq node, sendAll_eq rest]
termination_by structural nodes

theorem sendBlock_eq [LawfulMonad m] (block : Block Node) : sendBlock write block = (blockPieces block).forM write := by
  match block with
  | ⟨_, opening, closing, children⟩ => simp [sendBlock, blockPieces, sendAll_eq children]
termination_by structural block

theorem sendOptions_eq [LawfulMonad m] (options : Option (Block Node)) :
    sendOptions write options = (optionPieces options).forM write := by
  match options with
  | none => rfl
  | some block => rw [sendOptions, optionPieces, sendBlock_eq block]
termination_by structural options

theorem sendBlocks_eq [LawfulMonad m] (blocks : List (Block Node)) :
    sendBlocks write blocks = (blocksPieces blocks).forM write := by
  match blocks with
  | [] => rfl
  | block :: rest => simp [sendBlocks, blocksPieces, sendBlock_eq block, sendBlocks_eq rest]
termination_by structural blocks

theorem sendBody_eq [LawfulMonad m] (nodes : List Node) : sendBody write nodes = (bodyPieces nodes).forM write := by
  match nodes with
  | [] => rfl
  | .bracket ⟨.curly, _, _, children⟩ :: rest => simp [sendBody, bodyPieces, sendAll_eq children, sendBody_eq rest]
  | .bracket ⟨.square, _, _, _⟩ :: rest | .bracket ⟨.round, _, _, _⟩ :: rest | .hole :: rest | .text _ _ :: rest
  | .symbol _ _ :: rest | .ident _ :: rest | .stray _ :: rest | .quotation _ _ _ :: rest | .fragment _ :: rest
  | .drawing _ :: rest | .tag _ :: rest | .command _ :: rest =>
    simp [sendBody, bodyPieces, send_eq, sendBody_eq rest]
termination_by structural nodes

end

end Walk

namespace Output

variable {σ : Type}

/-- Hands over pieces up to the first one that is not taken. -/
def feed (output : Output σ) (state : σ) : List String → σ × Bool
  | [] => (state, true)
  | piece :: rest =>
    if (output state piece).2 then output.feed (output state piece).1 rest else ((output state piece).1, false)

theorem run_put (output : Output σ) (piece : String) (next : Unit → OptionT (StateM σ) Unit) (state : σ) :
    (output.put piece >>= next).run.run state =
      if (output state piece).2 then (next ()).run.run (output state piece).1 else (none, (output state piece).1) := by
  have first : (output.put piece).run.run state =
      (if (output state piece).2 then some () else none, (output state piece).1) := rfl
  simp only [OptionT.run_bind, Option.elimM, StateT.run_bind, first]
  split <;> rfl

theorem run_forM (output : Output σ) (state : σ) (pieces : List String) :
    (((pieces.forM output.put).run.run state).2, ((pieces.forM output.put).run.run state).1.isSome) =
      output.feed state pieces := by
  induction pieces generalizing state with
  | nil => rfl
  | cons piece rest ih =>
    rw [List.forM_eq_forM, List.forM_cons, run_put, feed]
    split
    · exact ih _
    · rfl

/-- A document is written as its pieces, on every output. -/
theorem document_eq (output : Output σ) (state : σ) (nodes : List Node) :
    output.document state nodes = output.feed state (allPieces nodes) := by
  rw [document, sendAll_eq]
  exact run_forM output state _

/-- The record of what an output is handed ends with the first piece that it does not take. -/
theorem feed_recorded (output : Output σ) (state : σ) (record : List (String × Bool)) (pieces : List String) :
    ∃ handed, output.recorded.feed (state, record) pieces =
        (((output.feed state pieces).1, record ++ handed), (output.feed state pieces).2) ∧
      ∀ before piece after, handed = before ++ (piece, false) :: after → after = [] := by
  induction pieces generalizing state record with
  | nil => exact ⟨[], by simp [feed], by simp⟩
  | cons piece rest ih =>
    simp only [feed, recorded]
    split
    next taken =>
      obtain ⟨handed, same, last⟩ := ih (output state piece).1 (record ++ [(piece, (output state piece).2)])
      refine ⟨(piece, true) :: handed, ?_, ?_⟩
      · simpa [taken] using same
      · rintro (_ | ⟨first, before⟩) other after split
        · cases split
        · exact last before other after (List.cons.inj split).2
    next refused =>
      refine ⟨[(piece, false)], by simp [refused], ?_⟩
      rintro (_ | ⟨first, before⟩) other after split
      · exact (List.cons.inj split).2.symm
      · simp at split

end Output

end Latex

open Latex

namespace Sink

/-- Of a text the beginning is taken for which there is room, however it is cut into pieces. -/
theorem feed_eq (sink : Sink) (pieces : List String) : Output.feed write sink pieces =
    (⟨sink.accepted ++ (Utf8.encode (String.join pieces)).take sink.room,
      sink.room - (Utf8.encode (String.join pieces)).length⟩,
      decide ((Utf8.encode (String.join pieces)).length ≤ sink.room)) := by
  induction pieces generalizing sink with
  | nil => simp [Output.feed, Utf8.encode_eq, String.join]
  | cons piece rest ih =>
    rw [Output.feed, String.join_cons, Utf8.encode_append, List.length_append, List.take_append]
    split
    next taken =>
      have fits : (Utf8.encode piece).length ≤ sink.room := by simpa [write] using taken
      rw [ih]
      simp only [write, List.append_assoc, List.take_of_length_le fits, Nat.sub_sub, Prod.mk.injEq, decide_eq_decide,
        true_and]
      omega
    next refused =>
      have full : sink.room < (Utf8.encode piece).length := by simpa [write] using refused
      have spent : sink.room - (Utf8.encode piece).length = 0 := by omega
      have long : ¬(Utf8.encode piece).length + (Utf8.encode (String.join rest)).length ≤ sink.room := by omega
      have empty : sink.room - ((Utf8.encode piece).length + (Utf8.encode (String.join rest)).length) = 0 := by omega
      simp only [write, spent, long, empty, List.take_zero, List.append_nil, decide_false]

theorem writeAll_eq (sink : Sink) (pieces : List String) : sink.writeAll pieces = Output.feed write sink pieces := by
  induction pieces generalizing sink with
  | nil => rfl
  | cons piece rest ih =>
    rw [writeAll, Output.feed]
    split
    next next taken => rw [taken, if_pos rfl, ih]
    next next refused => rw [refused, if_neg Bool.false_ne_true]

/-- What there is room for is taken. -/
theorem writeAll_fits (pieces : List String) (accepted : Bytes) (room : Nat) :
    writeAll ⟨accepted, (Utf8.encode (String.join pieces)).length + room⟩ pieces =
      (⟨accepted ++ Utf8.encode (String.join pieces), room⟩, true) := by
  rw [writeAll_eq, feed_eq, List.take_of_length_le (Nat.le_add_right ..)]
  simp

end Sink

/-- Writing the text of a document piece by piece comes to walking it. -/
theorem writeLatex_eq (sink : Sink) (nodes : List Node) :
    writeLatex sink nodes = Output.document Sink.write sink nodes := by
  rw [writeLatex, Sink.writeAll_eq, Output.document_eq]

/-- Takes every piece. -/
def Latex.Output.text : Output String := fun text piece => (text ++ piece, true)

theorem Latex.Output.feed_text (start : String) (pieces : List String) :
    text.feed start pieces = (start ++ String.join pieces, true) := by
  induction pieces generalizing start with
  | nil => simp [feed, String.join]
  | cons piece rest ih => simp [feed, text, ih, String.join_cons, String.append_assoc]

/-- An output with room for so many bytes is left with just that many of the beginning of the text, and writing fails
exactly when the text is longer. After the first piece that is not taken in full nothing more is handed over. -/
theorem output_cut_short (nodes : List Node) (limit : Nat) :
    let bytes := Utf8.encode (latex nodes)
    let written := Output.document Sink.write { room := limit } nodes
    Output.text.document "" nodes = (latex nodes, true) ∧
    written.1.accepted = bytes.take limit ∧ (written.2 = false ↔ limit < bytes.length) ∧
    ∃ record, (Output.recorded Sink.write).document ({ room := limit }, []) nodes = ((written.1, record), written.2) ∧
      ∀ before piece after, record = before ++ (piece, false) :: after → after = [] := by
  intro bytes written
  have whole : Output.text.document "" nodes = (latex nodes, true) := by
    rw [Output.document_eq, Output.feed_text, String.empty_append]
    rfl
  have left : written = (⟨bytes.take limit, limit - bytes.length⟩, decide (bytes.length ≤ limit)) :=
    (Output.document_eq ..).trans (Sink.feed_eq ..)
  have fails : written.2 = false ↔ limit < bytes.length := by rw [left, decide_eq_false_iff_not, Nat.not_le]
  obtain ⟨record, same, last⟩ := Output.feed_recorded Sink.write { room := limit } [] (Latex.allPieces nodes)
  refine ⟨whole, congrArg (·.1.accepted) left, fails, record, ?_, last⟩
  rw [Output.document_eq, same]
  exact congrArg (fun outcome : Sink × Bool => ((outcome.1, record), outcome.2)) (Output.document_eq ..).symm

end Manuscript
