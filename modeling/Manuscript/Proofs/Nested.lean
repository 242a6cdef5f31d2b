import Manuscript.Proofs.Nesting

/-! The shape of nested trees. Lexemes nest into trees in which only what is open to the end has no closing token, no
quotation stands directly inside another and stray closing brackets stand outside all enclosures; and any such tree
is what its own lexemes nest into. -/

namespace Manuscript

open Parse (Lexeme Frame State)

/-- What the nodes of a list are direct children of. -/
inductive Place where
  | top
  | bracket
  | quotation
deriving DecidableEq

mutual

/-- `final` allows an enclosure to be left open: no sibling follows it, and what it stands in is left open too. -/
def Node.nested (place : Place) (final : Bool) : Node → Bool
  | .text _ _ | .symbol _ _ | .ident _ => true
  | .stray _ => place == .top
  | .bracket block => blockNested final block
  | .quotation opening closing children =>
    place != .quotation && opening.isSome && (closing.isSome || final) &&
      nested .quotation (final && closing.isNone) children
  | _ => false
termination_by structural node => node

def nested (place : Place) (final : Bool) : List Node → Bool
  | [] => true
  | node :: rest => node.nested place (final && rest.isEmpty) && nested place final rest
termination_by structural nodes => nodes

def blockNested (final : Bool) : Block Node → Bool
  | ⟨_, opening, closing, children⟩ =>
    opening.isSome && (closing.isSome || final) && nested .bracket (final && closing.isNone) children
termination_by structural block => block

end

attribute [local simp] Node.nested nested blockNested

/-- Before the end of a list everything is closed. -/
theorem nested_append (place : Place) (final : Bool) (front back : List Node) (some : back ≠ []) :
    nested place final (front ++ back) = (nested place false front && nested place final back) := by
  induction front with
  | nil => simp [nested]
  | cons node front ih =>
    have follows : (front ++ back).isEmpty = false := by simp [some]
    rw [List.cons_append, nested, nested, ih, follows, Bool.and_false, Bool.false_and, Bool.and_assoc]

theorem Node.nested_open (place : Place) (final : Bool) (node : Node) (closed : node.nested place false = true) :
    node.nested place final = true := by
  cases node with
  | bracket block =>
    obtain ⟨kind, opening, closing, children⟩ := block
    cases closing <;> simp_all [Node.nested, blockNested]
  | quotation opening closing children => cases closing <;> simp_all [Node.nested]
  | _ => exact closed

theorem nested_open (place : Place) (nodes : List Node) (closed : nested place false nodes = true) :
    nested place true nodes = true := by
  induction nodes with
  | nil => rfl
  | cons node rest ih =>
    rw [nested, Bool.and_eq_true] at closed ⊢
    exact ⟨node.nested_open place _ closed.1, ih closed.2⟩

theorem nested_singleton (place : Place) (final : Bool) (node : Node) :
    nested place final [node] = node.nested place final := by simp [nested]

namespace Parse

def Frame.place (frame : Frame) : Place := if frame.kind.isSome then .bracket else .quotation

/-- Where the nodes of the innermost open enclosure stand. -/
def placeOf : List Frame → Place
  | [] => .top
  | frame :: _ => frame.place

theorem Frame.finish_nested (frame : Frame) (place : Place) (final : Bool) (closing : Option Token)
    (children : List Node) (fits : frame.kind = none → place ≠ .quotation) (closes : closing.isSome || final)
    (inner : Manuscript.nested frame.place (final && closing.isNone) children = true) :
    (frame.finish closing children).nested place final = true := by
  unfold Frame.place at inner
  unfold Frame.finish
  cases kind : frame.kind with
  | none =>
    simp only [kind] at inner
    simp_all [Node.nested]
  | some bracket =>
    simp only [kind] at inner
    simp_all [Node.nested, blockNested]

/-- Every enclosure that is open was opened where it may stand, behind nodes that are all closed. -/
def stackNested : List Frame → Prop
  | [] => True
  | frame :: stack =>
    Manuscript.nested (placeOf stack) false frame.before.reverse = true ∧
      (frame.kind = none → placeOf stack ≠ .quotation) ∧ stackNested stack

structure State.Nested (state : State) : Prop where
  siblings : Manuscript.nested (placeOf state.stack) false state.siblings.reverse = true
  stack : stackNested state.stack

theorem State.Nested.emit {state : State} {node : Node} (sound : state.Nested)
    (fits : node.nested (placeOf state.stack) false = true) : (state.emit node).Nested := by
  refine ⟨?_, sound.stack⟩
  rw [State.emit, List.reverse_cons, nested_append _ _ _ _ (by simp), nested_singleton, sound.siblings, fits]
  rfl

theorem State.Nested.push {state : State} {kind : Option BracketKind} {token : Token} (sound : state.Nested)
    (fits : kind = none → placeOf state.stack ≠ .quotation) : (state.push kind token).Nested :=
  ⟨rfl, sound.siblings, fits, sound.stack⟩

theorem State.Nested.finish {frame : Frame} {stack : List Frame} {siblings : List Node} {token : Token}
    (sound : State.Nested ⟨frame :: stack, siblings⟩) :
    State.Nested ⟨stack, frame.finish (some token) siblings.reverse :: frame.before⟩ := by
  obtain ⟨inner, before, fits, below⟩ := sound
  have outer : State.Nested ⟨stack, frame.before⟩ := ⟨before, below⟩
  exact outer.emit (frame.finish_nested _ _ _ _ fits rfl inner)

def Lexeme.IsFlat : Lexeme → Prop
  | .leaf node => ∀ place, node.nested place false = true
  | _ => True

theorem State.Nested.step {state : State} {lexeme : Lexeme} (sound : state.Nested) (flat : lexeme.IsFlat) :
    (state.step lexeme).Nested := by
  obtain ⟨stack, siblings⟩ := state
  cases lexeme with
  | leaf node => exact sound.emit (flat _)
  | opening kind token => exact sound.push (by simp)
  | closing token =>
    cases stack with
    | nil => exact sound.emit rfl
    | cons frame stack => exact sound.finish
  | quote token =>
    cases stack with
    | nil => exact sound.push (fun _ => by simp [placeOf])
    | cons frame stack =>
      simp only [State.step]
      split
      · exact sound.finish
      next bracket =>
        refine sound.push fun _ => ?_
        simp_all [placeOf, Frame.place]

theorem State.close_nested (stack : List Frame) (siblings : List Node) (sound : stackNested stack)
    (inner : Manuscript.nested (placeOf stack) true siblings.reverse = true) :
    Manuscript.nested .top true (State.close stack siblings) = true := by
  induction stack generalizing siblings with
  | nil => exact inner
  | cons frame stack ih =>
    obtain ⟨before, fits, below⟩ := sound
    have finished := frame.finish_nested (placeOf stack) true none siblings.reverse fits rfl inner
    refine ih _ below ?_
    rw [List.reverse_cons, nested_append _ _ _ _ (by simp), nested_singleton, before, finished]
    rfl

theorem nest_nested (lexemes : List Lexeme) (flat : ∀ lexeme ∈ lexemes, lexeme.IsFlat) :
    Manuscript.nested .top true (nest lexemes) = true := by
  have start : State.Nested {} := ⟨rfl, trivial⟩
  have run : (lexemes.foldl State.step {}).Nested := List.foldlRecOn lexemes State.step start
    fun state sound lexeme member => sound.step (flat lexeme member)
  exact State.close_nested _ _ run.stack (nested_open _ _ run.siblings)

/-- The tree that a state ends in when nothing more is read. -/
def State.tree (state : State) : List Node := State.close state.stack state.siblings

/-- Reading `lexemes` where `place` is innermost gives `nodes`, and leaves enclosures open only if `final`. -/
structure Rereads (place : Place) (final : Bool) (lexemes : List Lexeme) (nodes : List Node) : Prop where
  closed : final = false → ∀ stack siblings, placeOf stack = place →
    lexemes.foldl State.step ⟨stack, siblings⟩ = ⟨stack, nodes.reverse ++ siblings⟩
  tree : ∀ stack siblings, placeOf stack = place →
    (lexemes.foldl State.step ⟨stack, siblings⟩).tree = State.tree ⟨stack, nodes.reverse ++ siblings⟩

theorem Rereads.of_closed {place : Place} {final : Bool} {lexemes : List Lexeme} {nodes : List Node}
    (closed : ∀ stack siblings, placeOf stack = place →
      lexemes.foldl State.step ⟨stack, siblings⟩ = ⟨stack, nodes.reverse ++ siblings⟩) :
    Rereads place final lexemes nodes :=
  ⟨fun _ => closed, fun stack siblings fits => by rw [closed stack siblings fits]⟩

theorem Rereads.append {place : Place} {final : Bool} {front back : List Lexeme} {nodes others : List Node}
    (first : Rereads place false front nodes) (second : Rereads place final back others) :
    Rereads place final (front ++ back) (nodes ++ others) := by
  refine ⟨fun closed stack siblings fits => ?_, fun stack siblings fits => ?_⟩
  all_goals rw [List.foldl_append, first.closed rfl stack siblings fits, List.reverse_append, List.append_assoc]
  · exact second.closed closed _ _ fits
  · exact second.tree _ _ fits

/-- An enclosure is read again when its opening mark opens it and its closing mark closes it. -/
theorem Rereads.enclosure (kind : Option BracketKind) (token : Token) (mark : Token → Lexeme) {place : Place}
    {final : Bool} {children : List Node} {closing : Option Token}
    (inner : Rereads (Frame.place ⟨kind, token, []⟩) (final && closing.isNone) (lexemesOf children) children)
    (closes : closing.isSome || final)
    (opens : ∀ stack siblings, placeOf stack = place →
      State.step ⟨stack, siblings⟩ (Frame.lexeme ⟨kind, token, []⟩) = ⟨⟨kind, token, siblings⟩ :: stack, []⟩)
    (marks : ∀ last frame stack siblings, frame.kind = kind →
      State.step ⟨frame :: stack, siblings⟩ (mark last) =
        ⟨stack, frame.finish (some last) siblings.reverse :: frame.before⟩) :
    Rereads place final (Frame.lexeme ⟨kind, token, []⟩ :: lexemesOf children ++ closing.toList.map mark)
      [Frame.finish ⟨kind, token, []⟩ closing children] := by
  have same (before : List Node) (closing : Option Token) :
      Frame.finish ⟨kind, token, before⟩ closing children = Frame.finish ⟨kind, token, []⟩ closing children := rfl
  cases closing with
  | some last =>
    refine .of_closed fun stack siblings fits => ?_
    rw [List.foldl_append, List.foldl_cons, opens stack siblings fits, inner.closed (Bool.and_false _) _ _ rfl]
    simp [marks, same]
  | none =>
    obtain rfl : final = true := by simpa using closes
    refine ⟨by simp, fun stack siblings fits => ?_⟩
    rw [Option.toList_none, List.map_nil, List.append_nil, List.foldl_cons, opens stack siblings fits,
      inner.tree _ _ rfl]
    simp [State.tree, State.close, same]

theorem quote_opens {stack : List Frame} (token : Token) (siblings : List Node) (outside : placeOf stack ≠ .quotation) :
    State.step ⟨stack, siblings⟩ (.quote token) = ⟨⟨none, token, siblings⟩ :: stack, []⟩ := by
  cases stack with
  | nil => rfl
  | cons frame stack =>
    have bracket : ¬frame.kind.isNone = true := fun quoted => outside (by simp_all [placeOf, Frame.place])
    exact if_neg bracket

end Parse

open Parse

mutual

theorem Node.rereads (node : Node) (place : Place) (final : Bool) (fits : node.nested place final = true) :
    Rereads place final node.lexemes [node] := by
  cases node with
  | bracket block => exact blockRereads block place final fits
  | quotation opening closing children =>
    simp only [Node.nested, Bool.and_eq_true, bne_iff_ne, ne_eq] at fits
    obtain ⟨⟨⟨outside, opened⟩, closes⟩, inner⟩ := fits
    obtain ⟨token, rfl⟩ := Option.isSome_iff_exists.mp opened
    have inside := rereads children .quotation _ inner
    refine Rereads.enclosure none token closer inside closes ?_ ?_
    · intro stack siblings fits
      exact quote_opens token siblings (fits ▸ outside)
    · intro last frame stack siblings quoted
      unfold closer
      split <;> simp [State.step, quoted]
  | stray token =>
    obtain rfl : place = .top := by simpa [Node.nested] using fits
    refine .of_closed fun stack siblings fits => ?_
    cases stack with
    | nil => rfl
    | cons frame stack =>
      simp only [placeOf, Frame.place] at fits
      split at fits <;> cases fits
  | text value span => exact .of_closed fun _ _ _ => rfl
  | symbol value span => exact .of_closed fun _ _ _ => rfl
  | ident ident => exact .of_closed fun _ _ _ => rfl
  | _ => cases fits
termination_by structural node

theorem rereads (nodes : List Node) (place : Place) (final : Bool) (fits : nested place final nodes = true) :
    Rereads place final (lexemesOf nodes) nodes := by
  cases nodes with
  | nil => exact .of_closed fun _ _ _ => rfl
  | cons node rest =>
    rw [nested, Bool.and_eq_true] at fits
    have first := Node.rereads node place _ fits.1
    have second := rereads rest place final fits.2
    cases rest with
    | nil => simpa [lexemesOf] using first
    | cons next rest =>
      rw [List.isEmpty_cons, Bool.and_false] at first
      exact first.append second
termination_by structural nodes

theorem blockRereads (block : Block Node) (place : Place) (final : Bool) (fits : blockNested final block = true) :
    Rereads place final (blockLexemes block) [.bracket block] := by
  obtain ⟨kind, opening, closing, children⟩ := block
  simp only [blockNested, Bool.and_eq_true] at fits
  obtain ⟨⟨opened, closes⟩, inner⟩ := fits
  obtain ⟨token, rfl⟩ := Option.isSome_iff_exists.mp opened
  have inside := rereads children .bracket _ inner
  exact Rereads.enclosure (some kind) token .closing inside closes (fun _ _ _ => rfl) (fun _ _ _ _ _ => rfl)
termination_by structural block

end

/-- A nested tree is what its lexemes nest into. -/
theorem nest_lexemesOf (nodes : List Node) (fits : nested .top true nodes = true) : nest (lexemesOf nodes) = nodes := by
  have again := (rereads nodes .top true fits).tree [] [] rfl
  rw [List.append_nil] at again
  exact again.trans (List.reverse_reverse nodes)

end Manuscript
