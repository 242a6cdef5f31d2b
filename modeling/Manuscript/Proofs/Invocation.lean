import Manuscript.Document.Resolve

/-! What a scan leaves. A node that it leaves was there before or stands for an invocation, and an invocation works
with blocks that were attached to its identifier or stood behind it, in the order they stood. -/

namespace Manuscript

theorem Node.leadingBlock_eq {kind : BracketKind} {nodes : List Node} {block : Block Node}
    (found : Node.leadingBlock kind nodes = some block) : ∃ rest, nodes = .bracket block :: rest := by
  unfold Node.leadingBlock at found
  split at found
  next other rest =>
    split at found
    · cases found
      exact ⟨rest, rfl⟩
    · cases found
  next => cases found

theorem Node.leadingCurly_take (nodes : List Node) :
    nodes.take (Node.leadingCurly nodes).length = (Node.leadingCurly nodes).map .bracket := by
  fun_induction Node.leadingCurly nodes with
  | case1 block rest _ ih => simpa using ih
  | case2 => rfl
  | case3 => rfl

theorem ArgumentList.captureExact_sublist {kinds : List BracketKind} {nodes : List Node} {blocks : List (Block Node)}
    {used : Nat} (found : captureExact kinds nodes = some (blocks, used)) :
    (blocks.map Node.bracket).Sublist (nodes.take used) := by
  induction kinds generalizing nodes blocks used with
  | nil =>
    cases found
    exact .slnil
  | cons kind kinds ih =>
    simp only [captureExact, Option.bind_eq_bind, Option.bind_eq_some_iff] at found
    obtain ⟨block, first, ⟨others, count⟩, further, result⟩ := found
    cases result
    obtain ⟨rest, split⟩ := Node.leadingBlock_eq first
    have behind := ih further
    have after : nodes.drop (Node.leadingBlanks nodes + 1) = rest := by
      rw [← List.drop_drop, split, List.drop_one, List.tail_cons]
    rw [after] at behind
    have front : nodes.take (Node.leadingBlanks nodes + 1 + count) =
        nodes.take (Node.leadingBlanks nodes) ++ .bracket block :: rest.take count := by
      rw [Nat.add_assoc, List.take_add, split, Nat.add_comm 1, List.take_succ_cons]
    rw [front]
    exact (behind.cons_cons _).trans (List.sublist_append_right ..)

/-- Arguments are captured in order, from the nodes that they take up. -/
theorem ArgumentList.capture_sublist {arguments : ArgumentList} {nodes : List Node} {blocks : List (Block Node)}
    {taken : Nat} (found : arguments.capture nodes = some (blocks, taken)) :
    (blocks.map Node.bracket).Sublist (nodes.take taken) := by
  unfold ArgumentList.capture at found
  split at found
  · cases found
    exact .slnil
  · cases found
    exact (Node.leadingCurly_take nodes).symm ▸ List.Sublist.refl _
  · exact captureExact_sublist found
  · cases found

namespace Resolve

/-- An invocation that leaves `nodes`: where its arguments and rules come from, and what it makes of them. -/
structure Invocation (scope : Scope) (head : Head) (rest nodes : List Node) where
  declaration : Declaration
  converter : Converter
  attributes : Option Attributes
  attached : List (Block Node)
  skipped : Nat
  args : List (Block Node)
  taken : Nat
  more : List (Rule Node)
  offered : attached = head.options.toList ++ head.attached ∨ attached = head.attached
  captured : (args.map Node.bracket).Sublist ((attached.map Node.bracket ++ rest.drop skipped).take taken)
  followed : more = [] ∨
    ∃ behind, Rule.leadingWhere (rest.drop (skipped + (taken - attached.length))) = some (more, behind)
  left : nodes =
    (if (head.rules ++ more).isEmpty then convert declaration converter head.ident attributes args scope
      else applyRules (head.rules ++ more) declaration.defersRules
        (convert declaration converter head.ident attributes args scope)) ::
      (attached.drop taken).map Node.bracket

theorem offer_attached (declaration : Declaration) (head : Head) (rest : List Node) :
    (offer declaration head rest).attached = head.options.toList ++ head.attached ∨
      (offer declaration head rest).attached = head.attached := by
  unfold offer
  split
  · exact .inl rfl
  · split
    · dsimp only
      split <;> exact .inr rfl
    · exact .inr rfl

theorem produce_invocation {declaration : Declaration} {head : Head} {rest : List Node} {scope : Scope}
    {arguments : ArgumentList} {production : Production}
    (found : produce declaration head (offer declaration head rest) rest scope arguments = some production) :
    Nonempty (Invocation scope head rest production.nodes) := by
  have offered := offer_attached declaration head rest
  generalize offer declaration head rest = offered_ at offered found
  simp only [produce, Option.bind_eq_bind, Option.bind_eq_some_iff] at found
  obtain ⟨⟨args, taken⟩, captured, result⟩ := found
  cases result
  refine ⟨⟨declaration, arguments.converter, offered_.attributes, offered_.attached, offered_.skipped, args, taken, _,
    offered, ArgumentList.capture_sublist captured, ?_, rfl⟩⟩
  split
  · cases Rule.leadingWhere _ with
    | none => exact .inl rfl
    | some rules => exact .inr ⟨rules.2, rfl⟩
  · exact .inl rfl

theorem invoke_invocation {registry : Registry} {scope : Scope} {head : Head} {rest : List Node}
    {production : Production} (found : invoke registry scope head rest = some production) :
    Nonempty (Invocation scope head rest production.nodes) := by
  obtain ⟨declaration, _, fits⟩ := List.exists_of_findSome?_eq_some found
  dsimp only at fits
  split at fits
  · cases fits
  · split at fits
    · cases fits
    · obtain ⟨arguments, _, produced⟩ := List.exists_of_findSome?_eq_some fits
      exact produce_invocation produced

/-- A node that stood in a list before, or that an invocation somewhere in it left. -/
inductive Left (scope : Scope) (nodes : List Node) (node : Node) : Prop where
  | kept (member : node ∈ nodes)
  | made {invoker : Node} {rest left : List Node} {head : Head} (suffix : (invoker :: rest).IsSuffix nodes)
      (named : head? invoker = some head) (invocation : Invocation scope head rest left) (member : node ∈ left)

theorem Left.cons {scope : Scope} {nodes : List Node} {node : Node} (first : Node) (left : Left scope nodes node) :
    Left scope (first :: nodes) node := by
  cases left with
  | kept member => exact .kept (List.mem_cons_of_mem _ member)
  | made suffix named invocation member => exact .made (suffix.trans (List.suffix_cons ..)) named invocation member

theorem scan_left (registry : Registry) (scope : Scope) (skip : Nat) (nodes : List Node) :
    ∀ node ∈ (scanFrom registry scope skip nodes).1, Left scope nodes node := by
  fun_induction scanFrom registry scope skip nodes with
  | case1 => simp
  | case2 skip first rest ih => exact fun node member => (ih node member).cons first
  | case3 first rest _ scanned events same ih =>
    rw [same] at ih
    exact List.forall_mem_cons.mpr ⟨.kept (List.mem_cons_self ..), fun node member => (ih node member).cons first⟩
  | case4 first rest head named production found scanned events same ih =>
    rw [same] at ih
    obtain ⟨invocation⟩ := invoke_invocation found
    refine List.forall_mem_append.mpr ⟨?_, fun node member => (ih node member).cons first⟩
    exact fun node member => .made (List.suffix_refl _) named invocation member
  | case5 first rest head _ _ scanned events same ih =>
    rw [same] at ih
    exact List.forall_mem_cons.mpr ⟨.kept (List.mem_cons_self ..), fun node member => (ih node member).cons first⟩

end Resolve
end Manuscript
