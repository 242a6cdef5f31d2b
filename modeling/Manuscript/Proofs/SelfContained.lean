import Manuscript.Proofs.Idempotence
import Manuscript.Proofs.LooseArguments

/-! Lists that are resolved one after the other. A command looks for its attributes, arguments and rules among the
nodes behind it, so a list that stands in front of another one is resolved as on its own exactly as long as no command
finds there what it takes, or an attribute list that it does not admit. -/

namespace Manuscript

namespace Resolve

open Node (leadingBlanks leadingBlock leadingCurly)

section Window

variable {nodes : List Node} (behind : List Node)

theorem leadingBlock_append (kind : BracketKind) (nonempty : nodes ≠ []) :
    leadingBlock kind (nodes ++ behind) = leadingBlock kind nodes := by
  cases nodes with
  | nil => exact absurd rfl nonempty
  | cons node rest => cases node <;> rfl

theorem leadingBlanks_append : leadingBlanks (nodes ++ behind) =
    if leadingBlanks nodes = nodes.length then nodes.length + leadingBlanks behind else leadingBlanks nodes := by
  by_cases blank : (nodes.takeWhile Node.isBlank).length = nodes.length <;>
    simp [leadingBlanks, List.takeWhile_append, blank]

theorem leadingBlanks_le (nodes : List Node) : leadingBlanks nodes ≤ nodes.length :=
  (List.takeWhile_sublist _).length_le

theorem leadingBlanks_eq (short : leadingBlanks (nodes ++ behind) < nodes.length) :
    leadingBlanks (nodes ++ behind) = leadingBlanks nodes := by
  rw [leadingBlanks_append] at short ⊢
  split at short
  next => omega
  next filled => rw [if_neg filled]

/-- The block behind blank text is the same one, whatever stands behind the list, as long as it stands in the list. -/
theorem nextBlock_append {kind : BracketKind} {block : Block Node} :
    leadingBlock kind (nodes.drop (leadingBlanks nodes)) = some block ↔
      leadingBlock kind ((nodes ++ behind).drop (leadingBlanks (nodes ++ behind))) = some block ∧
        leadingBlanks (nodes ++ behind) < nodes.length := by
  rw [leadingBlanks_append]
  split
  next blank =>
    rw [blank, List.drop_length]
    constructor
    · exact fun impossible => nomatch impossible
    · exact fun found => absurd found.2 (by omega)
  next filled =>
    have short : leadingBlanks nodes < nodes.length := (leadingBlanks_le nodes).lt_of_ne filled
    rw [List.drop_append_of_le_length short.le, leadingBlock_append _ _ (by simpa using short)]
    exact (and_iff_left short).symm

theorem leadingCurly_append (few : (leadingCurly (nodes ++ behind)).length ≤ nodes.length) :
    leadingCurly (nodes ++ behind) = leadingCurly nodes := by
  fun_induction leadingCurly nodes with
  | case1 block rest curly ih =>
    rw [List.cons_append, leadingCurly, if_pos curly] at few ⊢
    rw [ih (by simpa using few)]
  | case2 block rest other => rw [List.cons_append, leadingCurly, if_neg other]
  | case3 nodes other =>
    cases nodes with
    | nil => exact List.eq_nil_of_length_eq_zero (Nat.le_zero.mp few)
    | cons node rest =>
      cases node with
      | bracket block => exact absurd rfl (other block rest)
      | _ => rfl

/-- Blocks are captured in the list and with it what stands behind, or reach beyond it. -/
theorem captureExact_append {kinds : List BracketKind} {blocks : List (Block Node)} {used : Nat} :
    ArgumentList.captureExact kinds nodes = some (blocks, used) ↔
      ArgumentList.captureExact kinds (nodes ++ behind) = some (blocks, used) ∧ used ≤ nodes.length := by
  induction kinds generalizing nodes blocks used with
  | nil =>
    simp only [ArgumentList.captureExact, Option.some.injEq, Prod.mk.injEq, iff_self_and]
    rintro ⟨_, rfl⟩
    exact Nat.zero_le _
  | cons kind kinds ih =>
    simp only [ArgumentList.captureExact, Option.bind_eq_bind, Option.bind_eq_some_iff]
    constructor
    · rintro ⟨block, first, ⟨others, count⟩, further, result⟩
      cases result
      obtain ⟨found, short⟩ := (nextBlock_append behind).mp first
      obtain ⟨more, few⟩ := ih.mp further
      rw [List.length_drop] at few
      have equal := leadingBlanks_eq behind short
      rw [equal] at found short ⊢
      rw [← List.drop_append_of_le_length short] at more
      exact ⟨⟨block, found, (others, count), more, rfl⟩, by omega⟩
    · rintro ⟨⟨block, found, ⟨others, count⟩, more, result⟩, few⟩
      cases result
      have short : leadingBlanks (nodes ++ behind) < nodes.length := by omega
      have first := (nextBlock_append behind).mpr ⟨found, short⟩
      have equal := leadingBlanks_eq behind short
      rw [equal] at short more few ⊢
      rw [List.drop_append_of_le_length short] at more
      have further := ih.mpr ⟨more, by rw [List.length_drop]; omega⟩
      exact ⟨block, first, (others, count), further, rfl⟩

theorem capture_append {arguments : ArgumentList} {blocks : List (Block Node)} {taken : Nat}
    (found : arguments.capture (nodes ++ behind) = some (blocks, taken)) (few : taken ≤ nodes.length) :
    arguments.capture nodes = some (blocks, taken) := by
  unfold ArgumentList.capture at found ⊢
  split at found
  next => exact found
  next =>
    cases found
    simp only [leadingCurly_append behind few]
  next => exact (captureExact_append behind).mpr ⟨found, few⟩
  next => cases found

theorem capture_isSome {arguments : ArgumentList} (found : (arguments.capture nodes).isSome = true) :
    (arguments.capture (nodes ++ behind)).isSome = true := by
  unfold ArgumentList.capture at found ⊢
  split at found
  next => rfl
  next => rfl
  next =>
    obtain ⟨⟨blocks, used⟩, taken⟩ := Option.isSome_iff_exists.mp found
    rw [((captureExact_append behind).mp taken).1]
    rfl
  next => cases found

theorem leadingWhere_append (few : ((Rule.leadingWhere (nodes ++ behind)).getD ([], 0)).2 ≤ nodes.length) :
    Rule.leadingWhere (nodes ++ behind) = Rule.leadingWhere nodes := by
  match nodes with
  | [] =>
    cases found : Rule.leadingWhere behind with
    | none => exact found
    | some rules =>
      have positive := Normalize.leadingWhere_pos found
      simp [found] at few
      omega
  | [.ident ident] =>
    rw [List.singleton_append, Normalize.leadingWhere_ident] at few ⊢
    cases leads : leadingBlock .curly behind with
    | none => simp [Rule.leadingWhere]
    | some block =>
      split
      next named => simp [leads, named] at few
      next => simp [Rule.leadingWhere]
  | .ident _ :: node :: _ => cases node <;> rfl
  | .hole :: _ | .text _ _ :: _ | .symbol _ _ :: _ | .stray _ :: _ | .drawing _ :: _ | .bracket _ :: _ |
    .quotation _ _ _ :: _ | .fragment _ :: _ | .tag _ :: _ | .command _ :: _ => rfl

end Window

section Invoke

variable {registry : Registry} {scope : Scope} {declaration : Declaration} {head : Head} {rest : List Node}
  (behind : List Node)

theorem offer_append (near : (offer declaration head (rest ++ behind)).skipped ≤ rest.length) :
    offer declaration head (rest ++ behind) = offer declaration head rest := by
  unfold offer at near ⊢
  split
  next => rfl
  next heeds =>
    split
    next bare =>
      rw [if_neg heeds, if_pos bare] at near
      dsimp only at near ⊢
      cases found : leadingBlock .square ((rest ++ behind).drop (leadingBlanks (rest ++ behind))) with
      | some block =>
        rw [found] at near
        have first := (nextBlock_append behind).mpr ⟨found, near⟩
        rw [first, leadingBlanks_eq behind near]
      | none =>
        cases first : leadingBlock .square (rest.drop (leadingBlanks rest)) with
        | some block =>
          rw [((nextBlock_append behind).mp first).1] at found
          cases found
        | none => rfl
    next => rfl

theorem stream_append {offer : Offer} (near : offer.skipped ≤ rest.length) :
    offer.stream (rest ++ behind) = offer.stream rest ++ behind := by
  rw [Offer.stream, Offer.stream, List.drop_append_of_le_length near, List.append_assoc]

/-- What an argument list makes of a place does not depend on what it takes nothing of. -/
theorem produce_append {offer : Offer} {arguments : ArgumentList} {production : Production}
    (found : produce declaration head offer (rest ++ behind) scope arguments = some production)
    (near : offer.skipped ≤ rest.length) (few : production.used ≤ rest.length) :
    produce declaration head offer rest scope arguments = some production := by
  simp only [produce, ← Offer.stream.eq_def, stream_append behind near, Option.bind_eq_bind,
    Option.bind_eq_some_iff] at found ⊢
  obtain ⟨⟨args, taken⟩, captured, result⟩ := found
  cases result
  dsimp only at few ⊢
  have front : offer.skipped + (taken - offer.attached.length) ≤ rest.length := by omega
  have count : taken ≤ (offer.stream rest).length := by
    simp only [Offer.stream, List.length_append, List.length_map, List.length_drop]
    omega
  refine ⟨(args, taken), capture_append behind captured count, ?_⟩
  rw [List.drop_append_of_le_length front] at few ⊢
  split at few
  next all =>
    rw [leadingWhere_append behind (by rw [List.length_drop]; omega)]
    rfl
  next some =>
    simp only [if_neg some]
    rfl

theorem attempt_append {choice : Declaration × ArgumentList} {production : Production}
    (near : (offer choice.1 head (rest ++ behind)).skipped ≤ rest.length)
    (found : attempt scope head (rest ++ behind) choice = some production) (few : production.used ≤ rest.length) :
    attempt scope head rest choice = some production := by
  have same := offer_append behind near
  unfold attempt at found ⊢
  rw [same] at near found
  split at found
  next admitted =>
    rw [if_pos admitted]
    exact produce_append behind found near few
  next => cases found

theorem attempt_eq_none_of_append {choice : Declaration × ArgumentList}
    (near : (offer choice.1 head (rest ++ behind)).skipped ≤ rest.length)
    (nothing : attempt scope head (rest ++ behind) choice = none) : attempt scope head rest choice = none := by
  rw [attempt_eq_none] at nothing ⊢
  have same := offer_append behind near
  intro fits
  refine nothing ⟨fits.allowed, same ▸ fits.valid, ?_⟩
  rw [same] at near ⊢
  rw [stream_append behind near]
  exact capture_isSome behind fits.matching

/-- An identifier is matched with the same declaration, whatever stands behind the list, when it takes nothing of that
and no declaration of its name finds an attribute list there. -/
theorem invoke_append
    (near : ∀ declaration ∈ registry.lookup head.ident.name,
      (offer declaration head (rest ++ behind)).skipped ≤ rest.length)
    (few : ∀ production ∈ invoke registry scope head (rest ++ behind), production.used ≤ rest.length) :
    invoke registry scope head rest = invoke registry scope head (rest ++ behind) := by
  rw [invoke_eq] at few
  rw [invoke_eq, invoke_eq]
  -- A declaration that is passed over has to be passed over again: its attributes may not have been admitted only
  -- because they were found behind the list.
  have offers : ∀ choice ∈ registry.choices head.ident.name,
      (offer choice.1 head (rest ++ behind)).skipped ≤ rest.length :=
    fun choice member => near _ (Registry.mem_choices member).1
  generalize registry.choices head.ident.name = choices at few offers ⊢
  induction choices with
  | nil => rfl
  | cons choice choices ih =>
    obtain ⟨here, others⟩ := List.forall_mem_cons.mp offers
    rw [List.findSome?_cons] at few ⊢
    rw [List.findSome?_cons]
    cases found : attempt scope head (rest ++ behind) choice with
    | some production =>
      rw [found] at few
      rw [attempt_append behind here found (few _ rfl)]
    | none =>
      rw [found] at few
      rw [attempt_eq_none_of_append behind here found]
      exact ih few others

/-- No identifier that a scan of a list comes to, in front of what stands behind the list, takes up anything of that or
looks for attributes in it. -/
def selfContained (registry : Registry) (scope : Scope) (behind : List Node) : (skip : Nat) → List Node → Bool
  | _, [] => true
  | skip + 1, _ :: rest => selfContained registry scope behind skip rest
  | 0, node :: rest =>
    match head? node with
    | none => selfContained registry scope behind 0 rest
    | some head =>
      (registry.lookup head.ident.name).all (fun declaration =>
        (offer declaration head (rest ++ behind)).skipped ≤ rest.length) &&
      match invoke registry scope head (rest ++ behind) with
      | none => selfContained registry scope behind 0 rest
      | some production =>
        production.used ≤ rest.length && selfContained registry scope behind production.used rest

/-- A list that takes nothing of what stands behind it is scanned on its own. -/
theorem scan_append {skip : Nat} {nodes : List Node} (contained : selfContained registry scope behind skip nodes = true)
    (enough : skip ≤ nodes.length) : (scanFrom registry scope skip (nodes ++ behind)).1 =
      (scanFrom registry scope skip nodes).1 ++ (scanFrom registry scope 0 behind).1 := by
  fun_induction selfContained registry scope behind skip nodes with
  | case1 skip =>
    obtain rfl := Nat.le_zero.mp enough
    rfl
  | case2 skip node rest ih =>
    rw [List.cons_append, scanFrom, scanFrom]
    exact ih contained (Nat.le_of_succ_le_succ enough)
  | case3 node rest unnamed ih =>
    rw [List.cons_append, scanFrom, scanFrom, unnamed]
    exact congrArg (node :: ·) (ih contained (Nat.zero_le _))
  | case4 node rest head named unmatched matched =>
    simp only [Bool.and_eq_true, List.all_eq_true, decide_eq_true_eq] at contained
    obtain ⟨near, further⟩ := contained
    rw [List.cons_append, scanFrom, scanFrom, named]
    cases found : invoke registry scope head (rest ++ behind) with
    | none =>
      rw [found] at further
      have same : invoke registry scope head rest = invoke registry scope head (rest ++ behind) :=
        invoke_append behind near (by simp [found])
      simp only [same, found]
      exact congrArg (node :: ·) (unmatched further (Nat.zero_le _))
    | some production =>
      simp only [found, Bool.and_eq_true, decide_eq_true_eq] at further
      have same : invoke registry scope head rest = invoke registry scope head (rest ++ behind) :=
        invoke_append behind near (by simpa [found] using further.1)
      simp only [same, found]
      rw [matched production further.2 further.1, List.append_assoc]

end Invoke

/-- None of these lists takes anything of the ones behind it. -/
def selfContainedEach (registry : Registry) (scope : Scope) : List (List Node) → Bool
  | [] => true
  | nodes :: parts =>
    selfContained registry scope parts.flatten 0 nodes && selfContainedEach registry scope parts

section Firm

/-- A list that starts with a node which no identifier in front of it takes up, nor passes over in search of a block. -/
def startsFirm : List Node → Bool
  | .bracket _ :: _ => false
  | .text value _ :: _ => !Blank.isBlank value
  | .ident ident :: _ => ident.name != Rule.whereIdent
  | .tag tag :: _ => tag.ident.name != Rule.whereIdent
  | _ => true

theorem startsFirm_append {nodes behind : List Node} (first : startsFirm nodes = true)
    (second : startsFirm behind = true) : startsFirm (nodes ++ behind) = true := by
  cases nodes with
  | nil => exact second
  | cons node rest => cases node <;> exact first

variable {nodes behind : List Node} (firm : startsFirm behind = true)

include firm

theorem leadingBlock_firm (kind : BracketKind) : leadingBlock kind behind = none := by
  unfold leadingBlock
  split
  next => cases firm
  next => rfl

theorem leadingBlanks_firm : leadingBlanks (nodes ++ behind) = leadingBlanks nodes := by
  have bare : leadingBlanks behind = 0 := by
    cases behind with
    | nil => rfl
    | cons node rest => cases node <;> simp_all [leadingBlanks, Node.isBlank, startsFirm]
  rw [leadingBlanks_append, bare]
  split
  next blank => rw [blank, Nat.add_zero]
  next => rfl

theorem nextBlock_firm {kind : BracketKind} {block : Block Node}
    (found : leadingBlock kind ((nodes ++ behind).drop (leadingBlanks (nodes ++ behind))) = some block) :
    leadingBlanks (nodes ++ behind) < nodes.length := by
  rw [leadingBlanks_firm firm] at found ⊢
  refine (leadingBlanks_le nodes).lt_of_ne fun blank => ?_
  rw [blank, List.drop_left, leadingBlock_firm firm] at found
  cases found

theorem captureExact_firm {kinds : List BracketKind} {blocks : List (Block Node)} {used : Nat}
    (found : ArgumentList.captureExact kinds (nodes ++ behind) = some (blocks, used)) : used ≤ nodes.length := by
  induction kinds generalizing nodes blocks used with
  | nil =>
    cases found
    exact Nat.zero_le _
  | cons kind kinds ih =>
    simp only [ArgumentList.captureExact, Option.bind_eq_bind, Option.bind_eq_some_iff] at found
    obtain ⟨block, first, ⟨others, count⟩, further, result⟩ := found
    cases result
    have short := nextBlock_firm firm first
    rw [List.drop_append_of_le_length short] at further
    have few := ih further
    rw [List.length_drop] at few
    omega

theorem leadingCurly_firm : (leadingCurly (nodes ++ behind)).length ≤ nodes.length := by
  fun_induction leadingCurly nodes with
  | case1 block rest curly ih =>
    rw [List.cons_append, leadingCurly, if_pos curly]
    simpa using ih
  | case2 block rest other =>
    rw [List.cons_append, leadingCurly, if_neg other]
    exact Nat.zero_le _
  | case3 nodes other =>
    cases nodes with
    | nil =>
      have none := Normalize.leadingCurly_eq_nil_iff.mpr (by rw [Node.startsWith, leadingBlock_firm firm]; rfl)
      rw [List.nil_append, none]
      exact Nat.zero_le _
    | cons node rest =>
      cases node with
      | bracket block => exact absurd rfl (other block rest)
      | _ => exact Nat.zero_le _

theorem capture_firm {arguments : ArgumentList} {blocks : List (Block Node)} {taken : Nat}
    (found : arguments.capture (nodes ++ behind) = some (blocks, taken)) : taken ≤ nodes.length := by
  unfold ArgumentList.capture at found
  split at found
  next =>
    cases found
    exact Nat.zero_le _
  next =>
    cases found
    exact leadingCurly_firm firm
  next => exact captureExact_firm firm found
  next => cases found

theorem leadingWhere_firm {rules : List (Rule Node)} {used : Nat}
    (found : Rule.leadingWhere (nodes ++ behind) = some (rules, used)) : used ≤ nodes.length := by
  unfold Rule.leadingWhere at found
  split at found
  next ident block rest same =>
    split at found
    next fits =>
      cases found
      match nodes with
      | [] =>
        subst same
        simp_all [startsFirm]
      | [_] =>
        cases same
        cases firm
      | _ :: _ :: _ => simp
    next => cases found
  next tag rest same =>
    split at found
    next fits =>
      cases found
      cases nodes with
      | nil =>
        subst same
        simp_all [startsFirm]
      | cons => simp
    next => cases found
  next => cases found

theorem offer_firm (declaration : Declaration) (head : Head) :
    (offer declaration head (nodes ++ behind)).skipped ≤ nodes.length := by
  unfold offer
  split
  next => exact Nat.zero_le _
  next =>
    split
    next =>
      dsimp only
      split
      next found => exact nextBlock_firm firm found
      next => exact Nat.zero_le _
    next => exact Nat.zero_le _

theorem invoke_firm {registry : Registry} {scope : Scope} {head : Head} {production : Production}
    (found : invoke registry scope head (nodes ++ behind) = some production) : production.used ≤ nodes.length := by
  obtain ⟨choice, _, produced⟩ := invoke_eq_some found
  have near : (offer choice.1 head (nodes ++ behind)).skipped ≤ nodes.length := offer_firm firm choice.1 head
  generalize offer choice.1 head (nodes ++ behind) = offered at near produced
  simp only [produce, ← Offer.stream.eq_def, stream_append _ near, Option.bind_eq_bind,
    Option.bind_eq_some_iff] at produced
  obtain ⟨⟨args, taken⟩, captured, result⟩ := produced
  cases result
  have count := capture_firm firm captured
  simp only [Offer.stream, List.length_append, List.length_map, List.length_drop] at count
  have front : offered.skipped + (taken - offered.attached.length) ≤ nodes.length := by omega
  dsimp only
  rw [List.drop_append_of_le_length front]
  split
  next =>
    cases followed : Rule.leadingWhere (nodes.drop (offered.skipped + (taken - offered.attached.length)) ++ behind) with
    | none => exact front
    | some rules =>
      have few := leadingWhere_firm firm followed
      rw [List.length_drop] at few
      simp only [Option.getD_some]
      omega
  next => exact front

theorem selfContained_firm (registry : Registry) (scope : Scope) (skip : Nat) (nodes : List Node) :
    selfContained registry scope behind skip nodes = true := by
  fun_induction selfContained registry scope behind skip nodes with
  | case1 => rfl
  | case2 skip first rest ih => exact ih
  | case3 first rest unnamed ih => exact ih
  | case4 first rest head named unmatched matched =>
    simp only [Bool.and_eq_true, List.all_eq_true, decide_eq_true_eq]
    refine ⟨fun declaration _ => offer_firm firm declaration head, ?_⟩
    cases found : invoke registry scope head (rest ++ behind) with
    | none => exact unmatched
    | some production => simp [invoke_firm firm found, matched production]

end Firm

/-- Lists that start with nodes which nothing takes up take nothing of one another. -/
theorem selfContainedEach_firm (registry : Registry) (scope : Scope) {parts : List (List Node)}
    (firm : ∀ nodes ∈ parts, startsFirm nodes = true) : selfContainedEach registry scope parts = true := by
  -- What stands behind a list is all of the lists behind it, so these have to be known to start with such a node, too.
  have together : startsFirm parts.flatten = true ∧ selfContainedEach registry scope parts = true := by
    induction parts with
    | nil => exact ⟨rfl, rfl⟩
    | cons nodes parts ih =>
      obtain ⟨here, others⟩ := List.forall_mem_cons.mp firm
      obtain ⟨behind, each⟩ := ih others
      refine ⟨startsFirm_append here behind, ?_⟩
      rw [selfContainedEach, selfContained_firm behind, each]
      rfl
  exact together.2

section Resolution

variable {registry : Registry} {scope : Scope}

theorem resolve_succ_values (depth : Nat) (nodes : List Node) :
    (resolve registry (depth + 1) scope nodes).map Prod.fst =
      (gather ((scanFrom registry scope 0 nodes).1.map (descend (resolve registry depth) scope))).map Prod.fst := by
  rw [resolve]
  obtain ⟨scanned, events⟩ := scanFrom registry scope 0 nodes
  dsimp only
  cases gather (scanned.map (descend (resolve registry depth) scope)) <;> rfl

theorem resolve_append (depth : Nat) {nodes behind : List Node}
    (contained : selfContained registry scope behind 0 nodes = true) :
    (resolve registry depth scope (nodes ++ behind)).map Prod.fst =
      ((resolve registry depth scope nodes).map Prod.fst).bind fun first =>
        ((resolve registry depth scope behind).map Prod.fst).map fun second => first ++ second := by
  cases depth with
  | zero => rfl
  | succ depth =>
    rw [resolve_succ_values, resolve_succ_values, resolve_succ_values, scan_append behind contained (Nat.zero_le _),
      List.map_append, gather_append]
    cases gather ((scanFrom registry scope 0 nodes).1.map (descend (resolve registry depth) scope)) with
    | none => rfl
    | some first =>
      cases gather ((scanFrom registry scope 0 behind).1.map (descend (resolve registry depth) scope)) <;> rfl

/-- Lists that take nothing of one another are resolved one by one. -/
theorem resolve_flatten {depth : Nat} (enough : 0 < depth) {parts : List (List Node)}
    (contained : selfContainedEach registry scope parts = true) :
    (resolve registry depth scope parts.flatten).map Prod.fst =
      (parts.mapM fun nodes => (resolve registry depth scope nodes).map Prod.fst).map List.flatten := by
  induction parts with
  | nil =>
    obtain ⟨depth, rfl⟩ := Nat.exists_eq_succ_of_ne_zero enough.ne_zero
    rfl
  | cons nodes parts ih =>
    simp only [selfContainedEach, Bool.and_eq_true] at contained
    rw [List.flatten_cons, resolve_append depth contained.1, ih contained.2, List.mapM_cons]
    cases (resolve registry depth scope nodes).map Prod.fst with
    | none => rfl
    | some first =>
      cases parts.mapM fun nodes => (resolve registry depth scope nodes).map Prod.fst <;> rfl

end Resolution

end Resolve

end Manuscript
