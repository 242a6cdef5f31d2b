import Manuscript.Proofs.BareFlags
import Manuscript.Proofs.InlineScopes

/-! The table of contents that a page leaves. Only headings change it. Where none is inside of something that shows none,
all of them can be taken out and put into a list of their own, drawn or not, and the table of contents stays the same. -/

namespace Manuscript

namespace Html

/-- The table of contents after a node is drawn. -/
def listedIn (page : String) (node : Node) (contents : Option Contents) : Option Contents :=
  ((ofNode page node).run contents).2

def listed (page : String) (nodes : List Node) (contents : Option Contents) : Option Contents :=
  ((ofNodes page nodes).run contents).2

/-- What a heading does to the table of contents, wherever its own text is drawn. -/
def enter (page : String) (level : Nat) (attributes : Attributes) (title : String) (contents : Option Contents) :
    Option Contents :=
  (Html.heading page level attributes title [] contents).2

section Equations

variable (page : String)

@[simp] theorem listed_nil (contents : Option Contents) : listed page [] contents = contents := rfl

@[simp] theorem listed_cons (node : Node) (rest : List Node) (contents : Option Contents) :
    listed page (node :: rest) contents = listed page rest (listedIn page node contents) := rfl

@[simp] theorem listed_append (nodes others : List Node) (contents : Option Contents) :
    listed page (nodes ++ others) contents = listed page others (listed page nodes contents) := by
  induction nodes generalizing contents with
  | nil => rfl
  | cons node nodes ih => exact ih (listedIn page node contents)

@[simp] theorem listedIn_bracket (kind : BracketKind) (opening closing : Option Token) (children : List Node) :
    listedIn page (.bracket ⟨kind, opening, closing, children⟩) = listed page children := rfl

@[simp] theorem listedIn_quotation (opening closing : Option Token) (children : List Node) :
    listedIn page (.quotation opening closing children) = listed page children := rfl

@[simp] theorem listedIn_fragment (children : List Node) :
    listedIn page (.fragment children) = listed page children := rfl

theorem ofBlocks_listed (blocks : List (Block Node)) (contents : Option Contents) :
    ((ofBlocks page blocks).run contents).2 = listed page (blocks.map .bracket) contents := by
  induction blocks generalizing contents with
  | nil => rfl
  | cons block blocks ih => exact ih ((ofBlock page block).run contents).2

theorem ofBody_listed (nodes : List Node) (contents : Option Contents) :
    ((ofBody page nodes).run contents).2 = listed page nodes contents := by
  induction nodes generalizing contents with
  | nil => rfl
  | cons node nodes ih =>
    -- a block is opened in a body, which makes no difference to the headings in it
    match node with
    | .bracket ⟨.curly, _, _, children⟩ => exact ih (listed page children contents)
    | .bracket ⟨.square, _, _, _⟩ | .bracket ⟨.round, _, _, _⟩ | .hole | .text _ _ | .symbol _ _ | .ident _ | .stray _
    | .quotation _ _ _ | .fragment _ | .drawing _ | .tag _ | .command _ => exact ih _

@[simp] theorem listedIn_tag (ident : Ident) (options : Option (Block Node)) (attributes : Option Attributes)
    (args : List (Block Node)) (rules : List (Rule Node)) (contents : Option Contents) :
    listedIn page (.tag ⟨ident, options, attributes, args, rules⟩) contents =
      listed page (args.map .bracket) (((ofOptions page options).run contents).2) := by
  rw [← ofBlocks_listed]
  rfl

theorem heading_enter (level : Nat) (attributes : Attributes) (title : String) (children : List Html)
    (contents : Option Contents) :
    (Html.heading page level attributes title children contents).2 = enter page level attributes title contents := by
  cases contents <;> rfl

theorem listedIn_command (ident : Ident) (attributes : Option Attributes) (args : List Node)
    (declaration : Option Declaration) (rules : List (Rule Node)) (contents : Option Contents) :
    listedIn page (.command ⟨ident, attributes, args, declaration, rules⟩) contents =
      match Declaration.lowering declaration with
      | .element | .link | .item => listed page args contents
      | .heading => enter page ((declaration.map Declaration.heading).getD 0) (attributes.getD []) (flattenBody args)
          (listed page args contents)
      | .image | .formula | .slot | .nothing => contents := by
  have body := ofBody_listed page args contents
  unfold listedIn ofNode Declaration.lowering
  cases (declaration.map Declaration.html).getD .element with
  | element | link | item => exact body
  | heading => exact body ▸ heading_enter page _ _ _ _ _
  | image | formula | slot | nothing => rfl

theorem listedIn_heading {command : Command Node} (lowered : Declaration.lowering command.declaration = .heading)
    (contents : Option Contents) : listedIn page (.command command) contents =
      enter page ((command.declaration.map Declaration.heading).getD 0) (command.attributes.getD [])
        (flattenBody command.args) (listed page command.args contents) := by
  obtain ⟨ident, attributes, args, declaration, rules⟩ := command
  dsimp only at lowered ⊢
  rw [listedIn_command, lowered]

/-- Only its level, its source and whether it is kept out count for the entry of a heading. -/
theorem enter_congr {items others : Attributes} (level : Nat) (title : String)
    (source : Attributes.value? others "source" = Attributes.value? items "source")
    (noToc : Attributes.has others "no-toc" = Attributes.has items "no-toc") :
    enter page level others title = enter page level items title := by
  funext contents
  unfold enter Html.heading
  rw [source, noToc]
  cases contents <;> rfl

end Equations

end Html

namespace Formula

open Html

theorem erase_append (nodes others : List Node) : erase (nodes ++ others) = erase nodes ++ erase others := by
  induction nodes with
  | nil => rfl
  | cons node nodes ih => exact congrArg (eraseNode node :: ·) ih

mutual

theorem eraseNode_listed (page : String) (node : Node) (none : node.hasFormula = false) (contents : Option Contents) :
    listedIn page (eraseNode node) contents = listedIn page node contents := by
  match node with
  | .command ⟨ident, attributes, args, declaration, rules⟩ =>
    simp only [Node.hasFormula, Bool.or_eq_false_iff, Option.isSome_eq_false_iff, Option.isNone_iff_eq_none] at none
    have body := (erase_unchanged args none.2).2.1
    by_cases erased : isErased declaration args = true
    · rw [eraseNode, if_pos erased, listedIn_command]
      rw [isErased, none.1, Option.isSome_none, Bool.false_or, Bool.and_eq_true, beq_iff_eq] at erased
      rw [erased.1]
      rfl
    · rw [eraseNode, if_neg erased, listedIn_command, listedIn_command, body, erase_listed page args none.2]
  | .bracket ⟨_, _, _, children⟩ | .quotation _ _ children | .fragment children =>
    exact erase_listed page children none contents
  | .tag ⟨_, _, _, args, _⟩ =>
    rw [eraseNode, listedIn_tag, listedIn_tag]
    exact eraseBlocks_listed page args none _
  | .hole | .text _ _ | .symbol _ _ | .ident _ | .stray _ | .drawing _ => rfl
termination_by structural node

/-- Where formulas have been taken out, slots do not matter to the table of contents. -/
theorem erase_listed (page : String) (nodes : List Node) (none : hasFormula nodes = false)
    (contents : Option Contents) : listed page (erase nodes) contents = listed page nodes contents := by
  match nodes with
  | [] => rfl
  | node :: rest =>
    rw [hasFormula, Bool.or_eq_false_iff] at none
    rw [erase, listed_cons, listed_cons, eraseNode_listed page node none.1, erase_listed page rest none.2]
termination_by structural nodes

theorem eraseBlocks_listed (page : String) (blocks : List (Block Node)) (none : blocksHaveFormula blocks = false)
    (contents : Option Contents) :
    listed page ((eraseBlocks blocks).map .bracket) contents = listed page (blocks.map .bracket) contents := by
  match blocks with
  | [] => rfl
  | ⟨_, _, _, children⟩ :: rest =>
    rw [blocksHaveFormula, Bool.or_eq_false_iff] at none
    rw [eraseBlocks, List.map_cons, List.map_cons, listed_cons, listed_cons, listedIn_bracket, listedIn_bracket,
      erase_listed page children none.1, eraseBlocks_listed page rest none.2]
termination_by structural blocks

end

mutual

theorem eraseNode_bare (node : Node) : eraseNode node.bare = (eraseNode node).bare := by
  match node with
  | .command ⟨ident, attributes, args, declaration, rules⟩ =>
    have same : isErased declaration (bare args) = isErased declaration args :=
      isErased_congr declaration (by cases args <;> rfl)
    rw [Node.bare, eraseNode, eraseNode, same, erase_bare args]
    split <;> rfl
  | .bracket ⟨_, _, _, children⟩ => exact congrArg (Node.bracket ⟨_, _, _, ·⟩) (erase_bare children)
  | .quotation _ _ children => exact congrArg (Node.quotation _ _) (erase_bare children)
  | .fragment children => exact congrArg Node.fragment (erase_bare children)
  | .tag ⟨_, _, _, args, _⟩ => exact congrArg (Node.tag ⟨_, _, _, ·, _⟩) (eraseBlocks_bare args)
  | .hole | .text _ _ | .symbol _ _ | .ident _ | .stray _ | .drawing _ => rfl
termination_by structural node

/-- Values of flags, and places, can be forgotten before or after formulas are left out. -/
theorem erase_bare (nodes : List Node) : erase (bare nodes) = bare (erase nodes) := by
  match nodes with
  | [] => rfl
  | node :: rest => exact congrArg₂ List.cons (eraseNode_bare node) (erase_bare rest)
termination_by structural nodes

theorem eraseBlocks_bare (blocks : List (Block Node)) :
    eraseBlocks (blocksBare blocks) = blocksBare (eraseBlocks blocks) := by
  match blocks with
  | [] => rfl
  | ⟨kind, opening, closing, children⟩ :: rest =>
    exact congrArg₂
      (fun children rest => ⟨kind, opening.map Token.unplaced, closing.map Token.unplaced, children⟩ :: rest)
      (erase_bare children) (eraseBlocks_bare rest)
termination_by structural blocks

end

theorem listed_erase_congr (page : String) {nodes others : List Node} (same : bare nodes = bare others)
    (contents : Option Contents) : listed page (erase nodes) contents = listed page (erase others) contents := by
  have alike : bare (erase nodes) = bare (erase others) := by rw [← erase_bare, same, erase_bare]
  unfold listed
  rw [← ofNodes_bare page (erase nodes), alike, ofNodes_bare]

end Formula

mutual

/-- Whether each heading is outside of tags and of all that shows no headings. -/
def Node.isOpen : Node → Bool
  | .command ⟨_, _, args, declaration, _⟩ =>
    Formula.isHeading declaration ||
      if Declaration.opens declaration then isOpen args else (Outline.collect args).isEmpty
  | .bracket ⟨_, _, _, children⟩ => isOpen children
  | .quotation _ _ children => isOpen children
  | .fragment children => isOpen children
  | .tag _ => false
  | _ => true
termination_by structural node => node

def isOpen : List Node → Bool
  | [] => true
  | node :: rest => node.isOpen && isOpen rest
termination_by structural nodes => nodes

end

namespace Outline

open Builtin Formula Html

variable {slots : Bool} {adjustment : Adjustment}

theorem isOpen_headings {commands : List (Command Node)}
    (heads : ∀ command ∈ commands, Formula.isHeading command.declaration = true) :
    isOpen (commands.map .command) = true := by
  induction commands with
  | nil => rfl
  | cons command commands ih =>
    obtain ⟨first, others⟩ := List.forall_mem_cons.mp heads
    obtain ⟨_, _, _, _, _⟩ := command
    rw [List.map_cons, isOpen, ih others, Node.isOpen, first]
    rfl

mutual

theorem adjustNode_isOpen (standard : adjustment.registry = registry) (node : Node)
    (known : node.Declared (Known slots)) (isOpen : node.isOpen = true) :
    (adjustNode adjustment node).isOpen = true := by
  match node with
  | .command ⟨ident, attributes, args, declaration, rules⟩ =>
    by_cases heads : Formula.isHeading declaration = true
    · obtain ⟨same, still⟩ :=
        @adjustNode_heading slots _ standard ⟨ident, attributes, args, declaration, rules⟩ known.1 heads
      rw [same, Node.isOpen, still, Bool.true_or]
    · rw [adjustNode_plain adjustment ident attributes args rules heads]
      rw [Node.isOpen] at isOpen ⊢
      have inside := visible_adjust standard false args known.2.1
      rw [visible_false, visible_false] at inside
      rw [Bool.eq_false_iff.mpr heads, Bool.false_or] at isOpen ⊢
      split at isOpen
      next opens => rw [if_pos opens, adjust_isOpen standard args known.2.1 isOpen]
      next closed => rwa [if_neg closed, inside, List.isEmpty_map]
  | .bracket ⟨_, _, _, children⟩ => exact adjust_isOpen standard children known isOpen
  | .quotation _ _ children => exact adjust_isOpen standard children known isOpen
  | .fragment children => exact adjust_isOpen standard children known isOpen
  | .tag _ => cases isOpen
  | .hole | .text _ _ | .symbol _ _ | .ident _ | .stray _ | .drawing _ => rfl
termination_by structural node

theorem adjust_isOpen (standard : adjustment.registry = registry) (nodes : List Node)
    (known : Declared (Known slots) nodes) (isOpen : Manuscript.isOpen nodes = true) :
    Manuscript.isOpen (adjust adjustment nodes) = true := by
  match nodes with
  | [] => rfl
  | node :: rest =>
    rw [Manuscript.isOpen, Bool.and_eq_true] at isOpen
    rw [adjust, Manuscript.isOpen, adjustNode_isOpen standard node known.1 isOpen.1,
      adjust_isOpen standard rest known.2 isOpen.2, Bool.and_true]
termination_by structural nodes

end

mutual

theorem listedIn_collected (page : String) (node : Node) (known : node.Declared (Known slots))
    (isOpen : node.isOpen = true) (contents : Option Contents) :
    listedIn page (eraseNode node) contents = listed page (erase ((collectNode node).map .command)) contents := by
  match node with
  | .command ⟨ident, attributes, args, declaration, rules⟩ =>
    by_cases heads : Formula.isHeading declaration = true
    · rw [collectNode, if_pos heads]
      rfl
    · rw [Node.isOpen, Bool.eq_false_iff.mpr heads, Bool.false_or] at isOpen
      rw [collectNode, if_neg heads, eraseNode]
      split at isOpen
      next opens =>
        have shows : isErased declaration args = false ∧ (Declaration.lowering declaration = .element ∨
            Declaration.lowering declaration = .link ∨ Declaration.lowering declaration = .item) := by
          rw [Declaration.opens, Bool.and_eq_true, ← Option.not_isSome, Bool.not_eq_true'] at opens
          obtain ⟨math, shown⟩ := opens
          have plain : Declaration.lowering declaration ≠ .heading := fun lowered =>
            heads (known.1.heading_of_lowering lowered)
          rw [isErased, math]
          cases lowered : Declaration.lowering declaration <;> simp_all
        rw [if_neg (Bool.eq_false_iff.mp shows.1), ← listed_collected page args known.2.1 isOpen, listedIn_command]
        rcases shows.2 with lowered | lowered | lowered <;> rw [lowered]
      next closed =>
        rw [List.isEmpty_iff.mp isOpen]
        split
        · rfl
        next kept =>
          rw [isErased, Bool.not_eq_true, Bool.or_eq_false_iff] at kept
          rw [Declaration.opens, ← Option.not_isSome, kept.1, Bool.not_false, Bool.true_and] at closed
          rw [listedIn_command]
          cases lowered : Declaration.lowering declaration with
          | element | heading | link | item =>
            rw [lowered] at closed
            exact (closed rfl).elim
          | image | formula | slot | nothing => rfl
  | .bracket ⟨_, _, _, children⟩ => exact listed_collected page children known isOpen contents
  | .quotation _ _ children => exact listed_collected page children known isOpen contents
  | .fragment children => exact listed_collected page children known isOpen contents
  | .tag _ => cases isOpen
  | .hole | .text _ _ | .symbol _ _ | .ident _ | .stray _ | .drawing _ => rfl
termination_by structural node

/-- The headings of an open list are all that matters to the table of contents. -/
theorem listed_collected (page : String) (nodes : List Node) (known : Declared (Known slots) nodes)
    (isOpen : Manuscript.isOpen nodes = true) (contents : Option Contents) :
    listed page (erase nodes) contents = listed page (erase ((collect nodes).map .command)) contents := by
  match nodes with
  | [] => rfl
  | node :: rest =>
    rw [Manuscript.isOpen, Bool.and_eq_true] at isOpen
    rw [collect, List.map_append, erase_append, listed_append, ← listedIn_collected page node known.1 isOpen.1,
      ← listed_collected page rest known.2 isOpen.2]
    rfl
termination_by structural nodes

end

theorem adjusted_tocOnly (adjustment : Adjustment) (command : Command Node) :
    (adjusted { adjustment with tocOnly := true } command).declaration = (adjusted adjustment command).declaration := by
  unfold adjusted adjustHeading
  cases command.declaration with
  | none => rfl
  | some heading =>
    have same : shifted { adjustment with tocOnly := true } heading = shifted adjustment heading := rfl
    dsimp only [Option.map_some, Option.getD_some]
    rw [same]
    split <;> rfl

/-- That a heading is not drawn makes no difference to its entry. -/
theorem listedIn_undrawn (page : String) (standard : adjustment.registry = registry) {command : Command Node}
    (known : (Node.command command).Declared (Known slots)) (heads : Formula.isHeading command.declaration = true)
    (contents : Option Contents) :
    listedIn page (eraseNode (.command (adjusted { adjustment with tocOnly := true } command))) contents =
      listedIn page (eraseNode (.command (adjusted adjustment command))) contents := by
  let bare : Command Node := { command with args := erase command.args }
  have own := (command_declared.mp known).1
  have left (adjustment : Adjustment) (standard : adjustment.registry = registry) :
      listedIn page (eraseNode (.command (adjusted adjustment command))) contents =
        enter page (((adjusted adjustment bare).declaration.map Declaration.heading).getD 0)
          (adjustAttributes adjustment (command.attributes.getD [])) (flattenBody (erase command.args))
          (listed page (erase command.args) contents) := by
    have lowered : Declaration.lowering (adjusted adjustment bare).declaration = .heading := by
      rw [adjusted_with]
      exact adjusted_lowering standard known heads
    have items : (adjusted adjustment bare).attributes = _ := adjusted_attributes adjustment own heads
    rw [← (adjustNode_heading standard own heads).1, eraseNode_adjusted standard known heads,
      listedIn_heading page lowered, items, adjusted_args, Option.getD_some]
  rw [left adjustment standard, left { adjustment with tocOnly := true } standard, adjusted_tocOnly]
  refine congrFun (enter_congr page _ _ ?_ ?_) _
  · rw [adjustAttributes_source, adjustAttributes_source]
  · rw [adjustAttributes_has _ _ (by decide), adjustAttributes_has _ _ (by decide)]
    simp

/-- The headings of a file that only feeds the table of contents make the same entries as the whole file. -/
theorem listed_tocOnly (page : String) (standard : adjustment.registry = registry) {nodes : List Node}
    (known : Declared (Known slots) nodes) (isOpen : Manuscript.isOpen nodes = true) (contents : Option Contents) :
    listed page (erase ((collect (adjust { adjustment with tocOnly := true } nodes)).map .command)) contents =
      listed page (erase (adjust adjustment nodes)) contents := by
  have collected (adjustment : Adjustment) (standard : adjustment.registry = registry) :
      collect (adjust adjustment nodes) = (collect nodes).map (adjusted adjustment) := by
    have fits := visible_adjust standard false nodes known
    rwa [visible_false, visible_false] at fits
  have each := visible_declared false nodes known
  rw [visible_false] at each
  rw [listed_collected page (adjust adjustment nodes) (adjust_known standard nodes known)
    (adjust_isOpen standard nodes known isOpen), collected adjustment standard,
    collected { adjustment with tocOnly := true } standard]
  generalize collect nodes = commands at each
  induction commands generalizing contents with
  | nil => rfl
  | cons command commands ih =>
    obtain ⟨⟨heads, fits⟩, others⟩ := List.forall_mem_cons.mp each
    rw [List.map_cons, List.map_cons, List.map_cons, List.map_cons, erase, erase, listed_cons, listed_cons,
      listedIn_undrawn page standard fits heads, ih _ others]

end Outline
end Manuscript
