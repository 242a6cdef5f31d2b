import Manuscript.Proofs.ExactEquality
import Manuscript.Proofs.Invocation
import Manuscript.Proofs.LooseWhere
import Manuscript.Proofs.Placeless
import Manuscript.Proofs.WordTiling

/-! When resolution ends. It does not always: a where block can hold another one that rebuilds it. It ends whenever no
loose where block is nested, because every list that a descent goes into is then lighter than the one above, in the
order that compares what two multisets do not share. -/

namespace Manuscript

open Resolve

theorem lighter_of_le {kept added removed less more : Multiset (WithTop Nat)} (fewer : less ≤ kept + added)
    (larger : kept + removed ≤ more) (some : removed ≠ 0) (below : ∀ mark ∈ added, ∃ other ∈ removed, mark < other) :
    Multiset.IsDershowitzMannaLT less more := by
  have shared : less ∩ kept ≤ more := Multiset.inter_le_right.trans (le_self_add.trans larger)
  have replaced : removed ≤ more - less ∩ kept := by
    calc removed = kept + removed - kept := (add_tsub_cancel_left ..).symm
      _ ≤ more - less ∩ kept := tsub_le_tsub larger Multiset.inter_le_right
  refine ⟨less ∩ kept, less - kept, more - less ∩ kept, ?_, ?_, (add_tsub_cancel_of_le shared).symm, ?_⟩
  · intro none
    rw [none] at replaced
    exact some (Multiset.le_zero.mp replaced)
  · rw [add_comm]
    exact (Multiset.sub_add_inter ..).symm
  · intro mark member
    obtain ⟨other, inside, smaller⟩ := below mark (Multiset.mem_of_le (tsub_le_iff_left.mpr fewer) member)
    exact ⟨other, Multiset.mem_of_le replaced inside, smaller⟩

theorem blocks_of_mem {block : Block Node} {blocks : List (Block Node)} (member : block ∈ blocks) :
    blockBurden block ≤ blocksBurden blocks ∧ (blocksUnnested blocks = true → blockUnnested block = true) := by
  induction member with
  | head rest =>
    refine ⟨le_self_add, fun fits => ?_⟩
    rw [blocksUnnested, Bool.and_eq_true] at fits
    exact fits.1
  | tail other _ ih =>
    refine ⟨ih.1.trans le_add_self, fun fits => ?_⟩
    rw [blocksUnnested, Bool.and_eq_true] at fits
    exact ih.2 fits.2

theorem blockUnnested_children (block : Block Node) : blockUnnested block = unnested block.children := by
  obtain ⟨kind, opening, closing, children⟩ := block
  rfl

/-- The lists below a node are lighter than the node and no more nested. -/
theorem below_lighter {scope : Scope} {node : Node} {lower : Scope × List Node} (under : lower ∈ below scope node)
    (fits : node.unnested = true) : unnested lower.2 = true ∧ ∃ mark, {mark} + burden lower.2 ≤ node.burden := by
  cases node with
  | bracket block =>
    obtain rfl := List.mem_singleton.mp under
    obtain ⟨kind, opening, closing, children⟩ := block
    exact ⟨fits, 0, le_rfl⟩
  | quotation opening closing children =>
    obtain rfl := List.mem_singleton.mp under
    exact ⟨fits, 0, le_rfl⟩
  | fragment children =>
    obtain rfl := List.mem_singleton.mp under
    exact ⟨fits, 0, le_rfl⟩
  | command command =>
    obtain rfl := List.mem_singleton.mp under
    obtain ⟨ident, attributes, args, declaration, rules⟩ := command
    exact ⟨fits, 0, le_rfl⟩
  | tag tag =>
    obtain ⟨block, member, rfl⟩ := List.mem_map.mp under
    obtain ⟨ident, options, attributes, args, rules⟩ := tag
    simp only [Node.unnested, Bool.and_eq_true] at fits
    obtain ⟨lighter, inside⟩ := blocks_of_mem member
    rw [burden_children] at lighter
    refine ⟨(blockUnnested_children block).symm.trans (inside fits.2), 0, lighter.trans ?_⟩
    exact le_add_self.trans le_self_add
  | _ => cases under

/-- What an identifier brings along is part of what its node counts for, and not nested either. -/
theorem head_spec {node : Node} {head : Head} (named : head? node = some head) :
    node.burden = {head.ident.mark} + optionsBurden head.options + blocksBurden head.attached +
        rulesBurden head.rules ∧
      (node.unnested = true → ⊤ ∉ rulesBurden head.rules ∧ optionsUnnested head.options = true ∧
        blocksUnnested head.attached = true) := by
  cases node with
  | ident ident =>
    cases named
    simp [Node.burden, optionsBurden, blocksBurden, rulesBurden, optionsUnnested, blocksUnnested]
  | tag tag =>
    obtain ⟨ident, options, attributes, args, rules⟩ := tag
    cases named
    refine ⟨rfl, fun fits => ?_⟩
    simp only [Node.unnested, Bool.and_eq_true, decide_eq_true_eq] at fits
    exact ⟨fits.1.1.2, fits.1.2, fits.2⟩
  | _ => cases named

theorem unnested_suffix {nodes others : List Node} (suffix : nodes.IsSuffix others) (fits : unnested others = true) :
    unnested nodes = true := by
  obtain ⟨front, rfl⟩ := suffix
  induction front with
  | nil => exact fits
  | cons node front ih =>
    simp only [List.cons_append, unnested, Bool.and_eq_true] at fits
    exact ih fits.2

/-- Calm targets count for less than the rules they belong to. -/
theorem rules_calm {rules : List (Rule Node)} (none : ⊤ ∉ rulesBurden rules) :
    ∀ rule ∈ rules, calm rule.target = true ∧
      ∀ mark ∈ burden rule.target, ∃ other ∈ rulesBurden rules, mark < other := by
  intro rule member
  cases rules with
  | nil => cases member
  | cons first rules =>
    obtain ⟨rank, single, bounded⟩ := rulesBurden_cons first rules
    rw [single, Multiset.mem_singleton] at none
    have bound := bounded rule member
    rw [targetRank_eq] at bound
    have smaller : ∀ mark ∈ burden rule.target, mark < rank := by
      intro mark inside
      have least := Multiset.le_sup inside
      cases highest : (burden rule.target).sup with
      | top =>
        rw [highest, top_add] at bound
        exact absurd (top_le_iff.mp bound).symm none
      | coe count =>
        rw [highest] at bound least
        have above : (count : WithTop Nat) < count + 1 := by exact_mod_cast Nat.lt_succ_self count
        exact least.trans_lt (above.trans_le bound)
    refine ⟨calm_iff.mpr fun top => ?_, fun mark inside => ⟨rank, by rw [single]; simp, smaller mark inside⟩⟩
    exact not_top_lt (smaller ⊤ top)

/-- A where block that a list starts with is loose, and holds no other loose one. -/
theorem leadingWhere_spec {nodes : List Node} {rules : List (Rule Node)} {used : Nat}
    (found : Rule.leadingWhere nodes = some (rules, used)) (fits : unnested nodes = true) :
    ⊤ ∈ burden nodes ∧ ∀ rule ∈ rules, calm rule.target = true := by
  unfold Rule.leadingWhere at found
  split at found
  next ident block rest =>
    split at found
    next named =>
      cases found
      obtain ⟨name, span⟩ := ident
      simp only [Bool.and_eq_true, decide_eq_true_eq] at named
      obtain ⟨rfl, _⟩ := named
      have inside : calm (.bracket block :: rest) = true := by
        simp only [unnested, Node.isBareWhere, Bool.and_eq_true] at fits
        simpa using fits.1.2
      refine ⟨by simp [burden, Node.burden, Ident.mark], fun rule member => calm_of_le ?_ (calm_iff.mp inside)⟩
      calc burden rule.target ≤ burden block.children := parse_targets _ rule member
        _ ≤ {0} + burden block.children := le_add_self
        _ = blockBurden block := (burden_children block).symm
        _ ≤ burden (.bracket block :: rest) := le_self_add
    next => cases found
  next tag rest =>
    split at found
    next named =>
      cases found
      obtain ⟨⟨name, span⟩, options, attributes, args, attached⟩ := tag
      simp only [Bool.and_eq_true, decide_eq_true_eq] at named
      obtain ⟨⟨rfl, _⟩, _⟩ := named
      have inside : ⊤ ∉ blocksBurden args := by
        simp only [unnested, Node.unnested, Bool.and_eq_true] at fits
        simpa using fits.1.1.1.1.1
      refine ⟨by simp [burden, Node.burden, Ident.mark], fun rule member => ?_⟩
      obtain ⟨block, arg, member⟩ := List.mem_flatMap.mp member
      refine calm_of_le ?_ inside
      calc burden rule.target ≤ burden block.children := parse_targets _ rule member
        _ ≤ {0} + burden block.children := le_add_self
        _ = blockBurden block := (burden_children block).symm
        _ ≤ blocksBurden args := (blocks_of_mem arg).1
    next => cases found
  next => cases found

theorem Resolve.Invocation.attached_burden {scope : Scope} {head : Head} {rest nodes : List Node}
    (invocation : Invocation scope head rest nodes) :
    blocksBurden invocation.attached ≤ optionsBurden head.options + blocksBurden head.attached := by
  rcases invocation.offered with same | same
  · rw [same]
    cases head.options with
    | none => simp [optionsBurden]
    | some block => exact le_rfl
  · rw [same]
    exact le_add_self

/-- What the arguments of an invocation count for is no part of what is left behind them. -/
theorem Resolve.Invocation.args_burden {scope : Scope} {head : Head} {rest nodes : List Node}
    (invocation : Invocation scope head rest nodes) :
    blocksBurden invocation.args +
        burden (rest.drop (invocation.skipped + (invocation.taken - invocation.attached.length))) ≤
      optionsBurden head.options + blocksBurden head.attached + burden rest := by
  have given := invocation.attached_burden
  obtain ⟨_, _, _, attached, skipped, args, taken, _, _, captured, _, _⟩ := invocation
  have split : (attached.map Node.bracket ++ rest.drop skipped).take taken =
      (attached.map Node.bracket).take taken ++ (rest.drop skipped).take (taken - attached.length) := by
    rw [List.take_append, List.length_map]
  have parts : burden ((rest.drop skipped).take (taken - attached.length)) +
      burden (rest.drop (skipped + (taken - attached.length))) ≤ burden rest := by
    rw [← List.drop_drop, ← burden_append, List.take_append_drop]
    exact burden_sublist (List.drop_sublist ..)
  have taken_part : blocksBurden args ≤
      blocksBurden attached + burden ((rest.drop skipped).take (taken - attached.length)) := by
    rw [← burden_map_bracket, ← burden_map_bracket, ← burden_append]
    rw [split] at captured
    exact burden_sublist (captured.trans ((List.take_sublist ..).append_right _))
  calc blocksBurden args + burden (rest.drop (skipped + (taken - attached.length)))
      ≤ blocksBurden attached + burden ((rest.drop skipped).take (taken - attached.length)) +
        burden (rest.drop (skipped + (taken - attached.length))) := add_le_add taken_part le_rfl
    _ ≤ blocksBurden attached + burden rest := by
      rw [add_assoc]
      exact add_le_add le_rfl parts
    _ ≤ optionsBurden head.options + blocksBurden head.attached + burden rest := add_le_add given le_rfl

theorem unnested_mem {node : Node} {nodes : List Node} (member : node ∈ nodes) (fits : unnested nodes = true) :
    node.unnested = true := by
  obtain ⟨front, back, rfl⟩ := List.append_of_mem member
  have suffix := unnested_suffix (List.suffix_append ..) fits
  simp only [unnested, Bool.and_eq_true] at suffix
  exact suffix.1.1

theorem unnested_brackets (blocks : List (Block Node)) (fits : ∀ block ∈ blocks, blockUnnested block = true) :
    unnested (blocks.map .bracket) = true := by
  induction blocks with
  | nil => rfl
  | cons block blocks ih =>
    obtain ⟨first, others⟩ := List.forall_mem_cons.mp fits
    simp [unnested, Node.unnested, Node.isBareWhere, first, ih others]

theorem Resolve.Invocation.attached_unnested {scope : Scope} {head : Head} {rest nodes : List Node}
    (invocation : Invocation scope head rest nodes) (options : optionsUnnested head.options = true)
    (attached : blocksUnnested head.attached = true) :
    ∀ block ∈ invocation.attached, blockUnnested block = true := by
  intro block member
  have given : block ∈ head.options.toList ∨ block ∈ head.attached := by
    rcases invocation.offered with same | same
    · rw [same] at member
      exact List.mem_append.mp member
    · rw [same] at member
      exact .inr member
  rcases given with option | arg
  · rw [Option.mem_toList] at option
    rw [option] at options
    exact options
  · exact (blocks_of_mem arg).2 attached

theorem Resolve.Invocation.args_unnested {scope : Scope} {head : Head} {rest nodes : List Node}
    (invocation : Invocation scope head rest nodes) (options : optionsUnnested head.options = true)
    (attached : blocksUnnested head.attached = true) (behind : unnested rest = true) :
    unnested (invocation.args.map .bracket) = true := by
  refine unnested_brackets _ fun block member => ?_
  have stream := (invocation.captured.trans (List.take_sublist ..)).subset (List.mem_map_of_mem member)
  rcases List.mem_append.mp stream with given | sibling
  · obtain ⟨other, inside, same⟩ := List.mem_map.mp given
    cases same
    exact invocation.attached_unnested options attached _ inside
  · exact unnested_mem (List.mem_of_mem_drop sibling) behind

theorem convert_below {declaration : Declaration} {converter : Converter} {ident : Ident}
    {attributes : Option Attributes} {args : List (Block Node)} {scope : Scope} {lower : Scope × List Node}
    (under : lower ∈ below scope (convert declaration converter ident attributes args scope)) :
    lower.2 = args.map .bracket := by
  cases converter with
  | command | fragment | block =>
    obtain rfl := List.mem_singleton.mp under
    rfl
  | name | scope => cases under

theorem applyRules_below {rules : List (Rule Node)} {deferred : Bool} {declaration : Declaration}
    {converter : Converter} {ident : Ident} {attributes : Option Attributes} {args : List (Block Node)} {scope : Scope}
    {lower : Scope × List Node}
    (under : lower ∈ below scope
      (applyRules rules deferred (convert declaration converter ident attributes args scope))) :
    lower.2 = args.map .bracket ∨ lower.2 = substitute rules (args.map .bracket) := by
  cases converter with
  | command | fragment | block =>
    cases deferred with
    | true =>
      obtain rfl := List.mem_singleton.mp under
      exact .inl rfl
    | false =>
      obtain rfl := List.mem_singleton.mp under
      exact .inr rfl
  | name | scope => cases under

/-- An invocation leaves nothing to go into but its arguments, as they were or with its rules applied, and blocks that
it did not take. -/
theorem Resolve.Invocation.below_cases {scope : Scope} {head : Head} {rest nodes : List Node}
    (invocation : Invocation scope head rest nodes) {node : Node} (member : node ∈ nodes) {lower : Scope × List Node}
    (under : lower ∈ below scope node) :
    lower.2 = invocation.args.map .bracket ∨
      lower.2 = substitute (head.rules ++ invocation.more) (invocation.args.map .bracket) ∨
      ∃ block ∈ invocation.attached, lower.2 = block.children := by
  rw [invocation.left] at member
  rcases List.mem_cons.mp member with rfl | remains
  · split at under
    · exact .inl (convert_below under)
    · exact (applyRules_below under).imp_right .inl
  · obtain ⟨block, inside, rfl⟩ := List.mem_map.mp remains
    obtain rfl := List.mem_singleton.mp under
    exact .inr (.inr ⟨block, List.mem_of_mem_drop inside, rfl⟩)

namespace Resolve.Invocation

variable {scope : Scope} {invoker : Node} {head : Head} {rest nodes : List Node}

/-- The rules of a where block make no where block, and the block is left behind the arguments. -/
theorem where_calm (invocation : Invocation scope head rest nodes) (behind : unnested rest = true) {rule : Rule Node}
    (inside : rule ∈ invocation.more) : calm rule.target = true ∧
      ⊤ ∈ burden (rest.drop (invocation.skipped + (invocation.taken - invocation.attached.length))) := by
  rcases invocation.followed with none | ⟨used, found⟩
  · rw [none] at inside
    cases inside
  · obtain ⟨loose, targets⟩ := leadingWhere_spec found (unnested_suffix (List.drop_suffix ..) behind)
    exact ⟨targets rule inside, loose⟩

/-- The arguments stay; the identifier, its rules and what stands behind the arguments go. -/
theorem parted (invocation : Invocation scope head rest nodes) (named : head? invoker = some head) :
    blocksBurden invocation.args + ({head.ident.mark} + rulesBurden head.rules +
        burden (rest.drop (invocation.skipped + (invocation.taken - invocation.attached.length)))) ≤
      burden (invoker :: rest) := by
  rw [burden, (head_spec named).1]
  calc _ = {head.ident.mark} + rulesBurden head.rules + (blocksBurden invocation.args +
        burden (rest.drop (invocation.skipped + (invocation.taken - invocation.attached.length)))) := by ac_rfl
    _ ≤ {head.ident.mark} + rulesBurden head.rules +
        (optionsBurden head.options + blocksBurden head.attached + burden rest) :=
      add_le_add le_rfl invocation.args_burden
    _ = _ := by ac_rfl

theorem block_burden (invocation : Invocation scope head rest nodes) (named : head? invoker = some head)
    {block : Block Node} (inside : block ∈ invocation.attached) :
    burden block.children + {0} ≤ burden (invoker :: rest) := by
  rw [add_comm, ← burden_children, burden, (head_spec named).1]
  calc blockBurden block ≤ blocksBurden invocation.attached := (blocks_of_mem inside).1
    _ ≤ optionsBurden head.options + blocksBurden head.attached := invocation.attached_burden
    _ ≤ optionsBurden head.options + blocksBurden head.attached +
        ({head.ident.mark} + rulesBurden head.rules + burden rest) := le_self_add
    _ = _ := by ac_rfl

end Resolve.Invocation

/-- A list below what an invocation leaves is lighter than the list it started in, and no more nested. -/
theorem invocation_lighter {scope : Scope} {invoker : Node} {head : Head} {rest nodes : List Node}
    (named : head? invoker = some head) (invocation : Resolve.Invocation scope head rest nodes) {node : Node}
    (member : node ∈ nodes) {lower : Scope × List Node} (under : lower ∈ below scope node)
    (fits : unnested (invoker :: rest) = true) :
    unnested lower.2 = true ∧ Multiset.IsDershowitzMannaLT (burden lower.2) (burden (invoker :: rest)) := by
  simp only [unnested, Bool.and_eq_true] at fits
  obtain ⟨⟨first, _⟩, behind⟩ := fits
  obtain ⟨ranked, options, attached⟩ := (head_spec named).2 first
  have plain := invocation.args_unnested options attached behind
  have rules : ∀ rule ∈ head.rules ++ invocation.more, calm rule.target = true := by
    intro rule inside
    rcases List.mem_append.mp inside with own | follows
    · exact (rules_calm ranked rule own).1
    · exact (invocation.where_calm behind follows).1
  have parted := invocation.parted named
  rcases invocation.below_cases member under with same | same | ⟨block, inside, same⟩
  · rw [same]
    refine ⟨plain, ?_⟩
    rw [burden_map_bracket]
    exact lighter_of_le (by rw [add_zero]) parted (by simp) (by simp)
  · rw [same]
    refine ⟨substituteFrom_unnested _ rules _ 0 plain, ?_⟩
    obtain ⟨added, fewer, known⟩ :=
      substituteFrom_adds (head.rules ++ invocation.more) (invocation.args.map .bracket) 0
    rw [burden_map_bracket] at fewer
    -- what a rule puts in is lighter than the rules of the head or, if a where block gave the rule, than that block
    refine lighter_of_le fewer parted (by simp) fun mark new => ?_
    obtain ⟨rule, inside, target⟩ := known mark new
    rcases List.mem_append.mp inside with own | follows
    · obtain ⟨other, ranked, smaller⟩ := (rules_calm ranked rule own).2 mark target
      exact ⟨other, by simp [ranked], smaller⟩
    · obtain ⟨calm, loose⟩ := invocation.where_calm behind follows
      refine ⟨⊤, by simp [loose], lt_top_iff_ne_top.mpr ?_⟩
      rintro rfl
      exact calm_iff.mp calm target
  · rw [same]
    refine ⟨(blockUnnested_children block).symm.trans (invocation.attached_unnested options attached _ inside), ?_⟩
    exact lighter_of_le (by rw [add_zero]) (invocation.block_burden named inside) (by simp) (by simp)

theorem descent_lighter {registry : Registry} {lower upper : Scope × List Node} (descent : Descent registry lower upper)
    (fits : unnested upper.2 = true) :
    unnested lower.2 = true ∧ Multiset.IsDershowitzMannaLT (burden lower.2) (burden upper.2) := by
  obtain ⟨node, scanned, under⟩ := List.mem_flatMap.mp descent
  cases scan_left registry upper.1 0 upper.2 node scanned with
  | kept member =>
    obtain ⟨inside, mark, part⟩ := below_lighter under (unnested_mem member fits)
    have whole : burden lower.2 + {mark} ≤ burden upper.2 := by
      obtain ⟨front, back, split⟩ := List.append_of_mem member
      rw [split, burden_append, burden, add_comm]
      exact part.trans (le_self_add.trans le_add_self)
    exact ⟨inside, lighter_of_le (by rw [add_zero]) whole (by simp) (by simp)⟩
  | made suffix named invocation member =>
    obtain ⟨inside, kept, added, removed, some, less, more, smaller⟩ :=
      invocation_lighter named invocation member under (unnested_suffix suffix fits)
    have part := burden_sublist suffix.sublist
    rw [more] at part
    exact ⟨inside, lighter_of_le less.le part some smaller⟩

/-- Resolution ends where no loose where block is nested. -/
theorem descent_acc (registry : Registry) (place : Scope × List Node) (fits : unnested place.2 = true) :
    Acc (Descent registry) place := by
  have order : WellFounded (@Multiset.IsDershowitzMannaLT (WithTop Nat) _) :=
    Multiset.wellFounded_isDershowitzMannaLT
  induction measured : burden place.2 using order.induction generalizing place with
  | h marks ih =>
    refine .intro _ fun lower descent => ?_
    obtain ⟨inside, lighter⟩ := descent_lighter descent fits
    exact ih _ (measured ▸ lighter) lower inside rfl

namespace Sample

def curly (text : String) : String := "\x7b" ++ text ++ "\x7d"

def bold (body rules : String) : String := "\\b " ++ curly body ++ "\\where!" ++ curly rules

def arm (pattern target : String) : String := curly pattern ++ "=>" ++ curly target

/-- Rules that are attached to a tag, with rules in their target, next to a loose where block. -/
def harmless : String :=
  "\\b" ++ curly "=" ++ "\\where!" ++ curly (arm "=" ("\\i" ++ curly "_" ++ "\\where!" ++ curly (arm "_" "^"))) ++
    bold "." (arm "." "\\i")

/-- An invocation whose where block the outer rules turn into the outer where block. -/
def seed : String := bold ",." (arm ",,," ",," ++ arm ",,." ",.")

/-- The second rule puts the seed where the body of the seed was, and in the targets of its rules. -/
def endless : String := bold seed (arm ",," "," ++ arm ",." seed)

end Sample

/-- Resolution ends, with a result that does not depend on how deep it may go, exactly when it cannot descend for ever;
and it cannot when no loose where block is nested. -/
theorem resolution_ends (registry : Registry) (scope : Scope) (nodes : List Node) :
    (Ends registry scope nodes ↔ ¬∃ chain : Nat → Scope × List Node,
        chain 0 = (scope, nodes) ∧ ∀ step, Descent registry (chain (step + 1)) (chain step)) ∧
      (unnested nodes = true → Ends registry scope nodes) := by
  rw [ends_iff_acc]
  exact ⟨not_iff_not.mp (not_acc_iff_exists_descending_chain.trans not_not.symm), descent_acc registry (scope, nodes)⟩

/-- Attached rules may be nested, and loose where blocks may stand side by side. -/
theorem resolution_ends_unnested :
    unnested (normalize (Parse.ofString Sample.harmless)) = true ∧
      Ends Builtin.registry (.top "doc.ss") (normalize (Parse.ofString Sample.harmless)) := by
  have fits : unnested (normalize (Parse.ofString Sample.harmless)) = true := by
    rw [Parse.ofString, Parse.ofBytes, Words.ofBytes_encode]
    decide +kernel
  exact ⟨fits, (resolution_ends ..).2 fits⟩

namespace Endless

def start : List Node := normalize (Parse.ofWords (Words.segment (Sample.endless.toList.map Utf8.glyph)))

def inline (ancestors : List String) : Scope := ⟨ancestors, .text, .inline, "doc.ss"⟩

def enter (nodes : List Node) : List Node := ((inner Builtin.registry (inline [], nodes)).head?.map Prod.snd).getD []

/-- Once around, every place in the source is that of the rule that was applied last. -/
def settled : List Node := enter (enter (enter (enter start)))

instance (registry : Registry) (lower upper : Scope × List Node) : Decidable (Descent registry lower upper) :=
  inferInstanceAs (Decidable (lower ∈ inner registry upper))

theorem entered :
    Descent Builtin.registry (inline ["\\b"], enter start) (.top "doc.ss", start) ∧
    Descent Builtin.registry (inline ["\\b"], enter (enter start)) (inline ["\\b"], enter start) ∧
    Descent Builtin.registry (inline ["\\b", "\\b"], enter (enter (enter start)))
      (inline ["\\b"], enter (enter start)) ∧
    Descent Builtin.registry (inline ["\\b", "\\b"], settled)
      (inline ["\\b", "\\b"], enter (enter (enter start))) := by decide +kernel

/-- Two descents lead once around, with one more of the same commands around the list. -/
theorem rounds :
    Descent Builtin.registry (inline ["\\b", "\\b"], enter settled) (inline ["\\b"], settled) ∧
    Descent Builtin.registry (inline ["\\b"], settled) (inline ["\\b"], enter settled) := by decide +kernel

/-- The scopes on the way differ only in how many commands of one name are around. -/
def turning (place : Scope × List Node) : Prop :=
  ∃ scope, (inline ["\\b"]).Akin scope ∧ (place = (scope, settled) ∨ place = (scope, enter settled))

theorem akin_twice : (inline ["\\b"]).Akin (inline ["\\b", "\\b"]) where
  content := rfl
  layout := rfl
  within ident := by simp [Scope.within, inline]

theorem turning_descends {place : Scope × List Node} (turns : turning place) :
    ∃ lower, Descent Builtin.registry lower place ∧ turning lower := by
  obtain ⟨scope, akin, rfl | rfl⟩ := turns
  · obtain ⟨inside, around, descent⟩ := descent_akin placeless_builtin akin rounds.1
    exact ⟨_, descent, inside, akin_twice.trans around, .inr rfl⟩
  · obtain ⟨inside, around, descent⟩ := descent_akin placeless_builtin akin rounds.2
    exact ⟨_, descent, inside, around, .inl rfl⟩

theorem turning_endless {place : Scope × List Node} (ends : Acc (Descent Builtin.registry) place) : ¬turning place := by
  induction ends with
  | intro place _ ih =>
    intro turns
    obtain ⟨lower, descent, turning⟩ := turning_descends turns
    exact ih lower descent turning

end Endless

/-- Nested loose where blocks can rebuild each other at every descent. -/
theorem resolution_endless :
    ¬Ends Builtin.registry (.top "doc.ss") (normalize (Parse.ofString Sample.endless)) := by
  intro ends
  have first := (ends_iff_acc ..).mp ends
  rw [Parse.ofString, Parse.ofBytes, Words.ofBytes_encode] at first
  obtain ⟨second, third, fourth, fifth⟩ := Endless.entered
  have last := (((first.inv second).inv third).inv fourth).inv fifth
  exact Endless.turning_endless last ⟨_, Endless.akin_twice, .inl rfl⟩

end Manuscript
