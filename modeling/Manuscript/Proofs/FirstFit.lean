import Manuscript.Proofs.Invocation

/-! The choice of a declaration. Declarations of a name are tried with each of their argument lists, in the order of
registration, and the first pair that fits at a place is taken; a scan leaves an identifier only where none fits. -/

namespace Manuscript

namespace Registry

/-- The declarations of a name with each of their argument lists, in the order in which they are tried. -/
def choices (registry : Registry) (name : String) : List (Declaration × ArgumentList) :=
  (registry.lookup name).flatMap fun declaration => declaration.arguments.map (declaration, ·)

theorem mem_choices {registry : Registry} {name : String} {choice : Declaration × ArgumentList}
    (member : choice ∈ registry.choices name) :
    choice.1 ∈ registry.lookup name ∧ choice.2 ∈ choice.1.arguments := by
  obtain ⟨declaration, found, listed⟩ := List.mem_flatMap.mp member
  obtain ⟨arguments, inside, rfl⟩ := List.mem_map.mp listed
  exact ⟨found, inside⟩

end Registry

namespace ArgumentList

/-- Whether blocks of these kinds are what an argument list asks for. -/
def Asks (arguments : ArgumentList) (kinds : List BracketKind) : Prop :=
  match arguments.shape with
  | .none => kinds = []
  | .greedy => ∀ kind ∈ kinds, kind = .curly
  | .exact => kinds = arguments.brackets
  | .unknown _ => False

theorem leadingBlock_kind {kind : BracketKind} {nodes : List Node} {block : Block Node}
    (found : Node.leadingBlock kind nodes = some block) : block.kind = kind := by
  unfold Node.leadingBlock at found
  split at found
  next other rest =>
    split at found
    next same =>
      cases found
      exact beq_iff_eq.mp same
    next => cases found
  next => cases found

theorem leadingCurly_kind (nodes : List Node) : ∀ block ∈ Node.leadingCurly nodes, block.kind = .curly := by
  fun_induction Node.leadingCurly nodes with
  | case1 block rest same ih => exact List.forall_mem_cons.mpr ⟨beq_iff_eq.mp same, ih⟩
  | case2 => simp
  | case3 => simp

theorem captureExact_kinds {kinds : List BracketKind} {nodes : List Node} {blocks : List (Block Node)} {used : Nat}
    (found : captureExact kinds nodes = some (blocks, used)) : blocks.map Block.kind = kinds := by
  induction kinds generalizing nodes blocks used with
  | nil =>
    cases found
    rfl
  | cons kind kinds ih =>
    simp only [captureExact, Option.bind_eq_bind, Option.bind_eq_some_iff] at found
    obtain ⟨block, first, ⟨others, count⟩, further, result⟩ := found
    cases result
    rw [List.map_cons, leadingBlock_kind first, ih further]

theorem capture_asks {arguments : ArgumentList} {nodes : List Node} {blocks : List (Block Node)} {taken : Nat}
    (found : arguments.capture nodes = some (blocks, taken)) : arguments.Asks (blocks.map Block.kind) := by
  unfold capture at found
  unfold Asks
  cases shape : arguments.shape with
  | none =>
    simp only [shape] at found
    cases found
    rfl
  | greedy =>
    simp only [shape] at found
    cases found
    exact List.forall_mem_map.mpr (leadingCurly_kind nodes)
  | exact =>
    simp only [shape] at found
    exact captureExact_kinds found
  | unknown code =>
    simp only [shape] at found
    cases found

end ArgumentList

namespace Resolve

/-- The nodes among which a declaration looks for its arguments. -/
def Offer.stream (offer : Offer) (rest : List Node) : List Node :=
  offer.attached.map .bracket ++ rest.drop offer.skipped

/-- A declaration that is allowed where an identifier stands and finds valid attributes there, with an argument list that
matches what follows. -/
structure Fits (scope : Scope) (head : Head) (rest : List Node) (choice : Declaration × ArgumentList) : Prop where
  allowed : choice.1.allows scope = true
  valid : choice.1.ignoresAttributes = true ∨
    choice.1.admitsAttributes ((offer choice.1 head rest).attributes.getD []) = true
  matching : (choice.2.capture ((offer choice.1 head rest).stream rest)).isSome = true

/-- The choice that fits, when none that is tried before it does. -/
structure FirstFit (registry : Registry) (scope : Scope) (head : Head) (rest : List Node)
    (choice : Declaration × ArgumentList) : Prop where
  fits : Fits scope head rest choice
  first : ∃ before after, registry.choices head.ident.name = before ++ choice :: after ∧
    ∀ earlier ∈ before, ¬Fits scope head rest earlier

theorem FirstFit.member {registry : Registry} {scope : Scope} {head : Head} {rest : List Node}
    {choice : Declaration × ArgumentList} (first : FirstFit registry scope head rest choice) :
    choice ∈ registry.choices head.ident.name := by
  obtain ⟨before, after, listed, _⟩ := first.first
  rw [listed]
  exact List.mem_append_right _ (List.mem_cons_self ..)

section Attempt

variable (scope : Scope) (head : Head) (rest : List Node) (choice : Declaration × ArgumentList)

/-- What comes of one choice. -/
def attempt : Option Production :=
  if choice.1.allows scope &&
      (choice.1.ignoresAttributes || choice.1.admitsAttributes ((offer choice.1 head rest).attributes.getD [])) then
    produce choice.1 head (offer choice.1 head rest) rest scope choice.2
  else none

theorem produce_isSome (declaration : Declaration) (offer : Offer) (arguments : ArgumentList) :
    (produce declaration head offer rest scope arguments).isSome = (arguments.capture (offer.stream rest)).isSome := by
  simp only [produce, ← Offer.stream.eq_def]
  cases arguments.capture (offer.stream rest) <;> rfl

theorem attempt_isSome : (attempt scope head rest choice).isSome = true ↔ Fits scope head rest choice := by
  unfold attempt
  split
  next admitted =>
    simp only [Bool.and_eq_true, Bool.or_eq_true] at admitted
    rw [produce_isSome]
    exact ⟨fun matching => ⟨admitted.1, admitted.2, matching⟩, Fits.matching⟩
  next refused =>
    simp only [Bool.and_eq_true, Bool.or_eq_true] at refused
    exact ⟨fun impossible => Bool.noConfusion impossible, fun fits => absurd ⟨fits.allowed, fits.valid⟩ refused⟩

theorem attempt_eq_none : attempt scope head rest choice = none ↔ ¬Fits scope head rest choice := by
  rw [← attempt_isSome, Bool.not_eq_true, Option.isSome_eq_false_iff, Option.isNone_iff_eq_none]

theorem attempt_produces {scope : Scope} {head : Head} {rest : List Node} {choice : Declaration × ArgumentList}
    {production : Production} (found : attempt scope head rest choice = some production) :
    produce choice.1 head (offer choice.1 head rest) rest scope choice.2 = some production := by
  unfold attempt at found
  split at found
  · exact found
  · cases found

end Attempt

theorem findSome?_flatMap {α β γ : Type} (test : β → Option γ) (parts : α → List β) (items : List α) :
    (items.flatMap parts).findSome? test = items.findSome? fun item => (parts item).findSome? test := by
  induction items with
  | nil => rfl
  | cons item items ih =>
    rw [List.flatMap_cons, List.findSome?_append, ih, List.findSome?_cons]
    cases (parts item).findSome? test <;> rfl

theorem invoke_eq (registry : Registry) (scope : Scope) (head : Head) (rest : List Node) :
    invoke registry scope head rest = (registry.choices head.ident.name).findSome? (attempt scope head rest) := by
  rw [Registry.choices, findSome?_flatMap, invoke]
  congr 1
  funext declaration
  rw [List.findSome?_map]
  have nothing : declaration.arguments.findSome? (fun _ => (none : Option Production)) = none :=
    List.findSome?_eq_none_iff.mpr fun _ _ => rfl
  unfold attempt Function.comp
  dsimp only
  by_cases allowed : declaration.allows scope = true
  · by_cases ignored : declaration.ignoresAttributes = true
    · simp [allowed, ignored]
    · by_cases valid : declaration.admitsAttributes ((offer declaration head rest).attributes.getD []) = true
      · simp [allowed, ignored, valid]
      · simp [allowed, ignored, valid, nothing]
  · simp [allowed, nothing]

variable {registry : Registry} {scope : Scope} {head : Head} {rest : List Node}

theorem invoke_eq_none : invoke registry scope head rest = none ↔
    ∀ choice ∈ registry.choices head.ident.name, ¬Fits scope head rest choice := by
  rw [invoke_eq, List.findSome?_eq_none_iff]
  exact forall₂_congr fun choice _ => attempt_eq_none scope head rest choice

theorem invoke_eq_some {production : Production} (found : invoke registry scope head rest = some production) :
    ∃ choice, FirstFit registry scope head rest choice ∧
      produce choice.1 head (offer choice.1 head rest) rest scope choice.2 = some production := by
  rw [invoke_eq] at found
  obtain ⟨before, choice, after, listed, taken, earlier⟩ := List.findSome?_eq_some_iff.mp found
  refine ⟨choice, ⟨?_, before, after, listed, ?_⟩, attempt_produces taken⟩
  · exact (attempt_isSome ..).mp (by rw [taken]; rfl)
  · exact fun other member => (attempt_eq_none ..).mp (earlier other member)

end Resolve
end Manuscript
