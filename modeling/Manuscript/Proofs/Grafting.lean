import Manuscript.Proofs.SpanFree
import Mathlib.Data.List.Find
import Mathlib.Logic.Equiv.Basic

/-! Rules whose patterns are single identifiers. They put nodes in the place of identifiers, everywhere at once: what is put
in is not looked at again, so that names can be swapped, and a second substitution follows from the first by the laws of
such grafts alone. -/

namespace Manuscript

mutual

/-- Puts nodes in the place of every identifier, wherever substitution goes. -/
def Node.graft (put : Ident → List Node) : Node → List Node
  | .ident ident => put ident
  | .bracket block => [.bracket (blockGraft put block)]
  | .quotation opening closing children => [.quotation opening closing (graft put children)]
  | .fragment children => [.fragment (graft put children)]
  | .tag ⟨ident, options, attributes, args, rules⟩ => [.tag ⟨ident, options, attributes, blocksGraft put args, rules⟩]
  | .command ⟨ident, attributes, args, declaration, rules⟩ =>
    [.command ⟨ident, attributes, graft put args, declaration, rules⟩]
  | node => [node]
termination_by structural node => node

def graft (put : Ident → List Node) : List Node → List Node
  | [] => []
  | node :: rest => node.graft put ++ graft put rest
termination_by structural nodes => nodes

def blockGraft (put : Ident → List Node) : Block Node → Block Node
  | ⟨kind, opening, closing, children⟩ => ⟨kind, opening, closing, graft put children⟩
termination_by structural block => block

def blocksGraft (put : Ident → List Node) : List (Block Node) → List (Block Node)
  | [] => []
  | block :: rest => blockGraft put block :: blocksGraft put rest
termination_by structural blocks => blocks

end

mutual

/-- The identifiers at the places that substitution reaches, in order. -/
def Node.idents : Node → List Ident
  | .ident ident => [ident]
  | .bracket block => blockIdents block
  | .quotation _ _ children | .fragment children => idents children
  | .tag ⟨_, _, _, args, _⟩ => blocksIdents args
  | .command ⟨_, _, args, _, _⟩ => idents args
  | _ => []
termination_by structural node => node

def idents : List Node → List Ident
  | [] => []
  | node :: rest => node.idents ++ idents rest
termination_by structural nodes => nodes

def blockIdents : Block Node → List Ident
  | ⟨_, _, _, children⟩ => idents children
termination_by structural block => block

def blocksIdents : List (Block Node) → List Ident
  | [] => []
  | block :: rest => blockIdents block ++ blocksIdents rest
termination_by structural blocks => blocks

end

section Laws

variable {put more : Ident → List Node}

theorem graft_append (put : Ident → List Node) (nodes others : List Node) :
    graft put (nodes ++ others) = graft put nodes ++ graft put others := by
  induction nodes with
  | nil => rfl
  | cons node nodes ih => rw [List.cons_append, graft, graft, ih, List.append_assoc]

theorem idents_append (nodes others : List Node) : idents (nodes ++ others) = idents nodes ++ idents others := by
  induction nodes with
  | nil => rfl
  | cons node nodes ih => rw [List.cons_append, idents, idents, ih, List.append_assoc]

mutual

theorem Node.graft_graft (node : Node) :
    Manuscript.graft more (node.graft put) = node.graft fun ident => Manuscript.graft more (put ident) := by
  match node with
  | .ident _ => rfl
  | .bracket block => simp [Node.graft, graft, blockGraft_graft block]
  | .quotation _ _ children | .fragment children => simp [Node.graft, graft, graft_graft children]
  | .tag ⟨_, _, _, args, _⟩ => simp [Node.graft, graft, blocksGraft_graft args]
  | .command ⟨_, _, args, _, _⟩ => simp [Node.graft, graft, graft_graft args]
  | .hole | .text _ _ | .symbol _ _ | .stray _ | .drawing _ => rfl
termination_by structural node

/-- A graft into a graft is one graft, of what was put in with more put into that. -/
theorem graft_graft (nodes : List Node) :
    graft more (graft put nodes) = graft (fun ident => graft more (put ident)) nodes := by
  match nodes with
  | [] => rfl
  | node :: rest => rw [graft, graft_append, graft, Node.graft_graft node, graft_graft rest]
termination_by structural nodes

theorem blockGraft_graft (block : Block Node) :
    blockGraft more (blockGraft put block) = blockGraft (fun ident => graft more (put ident)) block := by
  match block with
  | ⟨_, _, _, children⟩ => rw [blockGraft, blockGraft, blockGraft, graft_graft children]
termination_by structural block

theorem blocksGraft_graft (blocks : List (Block Node)) :
    blocksGraft more (blocksGraft put blocks) = blocksGraft (fun ident => graft more (put ident)) blocks := by
  match blocks with
  | [] => rfl
  | block :: rest => rw [blocksGraft, blocksGraft, blocksGraft, blockGraft_graft block, blocksGraft_graft rest]
termination_by structural blocks

end

mutual

theorem Node.idents_graft (node : Node) :
    Manuscript.idents (node.graft put) = node.idents.flatMap fun ident => Manuscript.idents (put ident) := by
  match node with
  | .ident _ => simp [Node.graft, Node.idents]
  | .bracket block => simp [Node.graft, Node.idents, idents, blockIdents_graft block]
  | .quotation _ _ children | .fragment children => simp [Node.graft, Node.idents, idents, idents_graft children]
  | .tag ⟨_, _, _, args, _⟩ => simp [Node.graft, Node.idents, idents, blocksIdents_graft args]
  | .command ⟨_, _, args, _, _⟩ => simp [Node.graft, Node.idents, idents, idents_graft args]
  | .hole | .text _ _ | .symbol _ _ | .stray _ | .drawing _ => rfl
termination_by structural node

/-- The identifiers of a graft are those of what was put in. -/
theorem idents_graft (nodes : List Node) :
    idents (graft put nodes) = (idents nodes).flatMap fun ident => idents (put ident) := by
  match nodes with
  | [] => rfl
  | node :: rest => rw [graft, idents_append, idents, List.flatMap_append, Node.idents_graft node, idents_graft rest]
termination_by structural nodes

theorem blockIdents_graft (block : Block Node) :
    blockIdents (blockGraft put block) = (blockIdents block).flatMap fun ident => idents (put ident) := by
  match block with
  | ⟨_, _, _, children⟩ => rw [blockGraft, blockIdents, blockIdents, idents_graft children]
termination_by structural block

theorem blocksIdents_graft (blocks : List (Block Node)) :
    blocksIdents (blocksGraft put blocks) = (blocksIdents blocks).flatMap fun ident => idents (put ident) := by
  match blocks with
  | [] => rfl
  | block :: rest =>
    rw [blocksGraft, blocksIdents, blocksIdents, List.flatMap_append, blockIdents_graft block, blocksIdents_graft rest]
termination_by structural blocks

end

mutual

theorem Node.graft_eq_self (node : Node) (kept : ∀ ident ∈ node.idents, put ident = [.ident ident]) :
    node.graft put = [node] := by
  match node with
  | .ident ident => exact kept ident (List.mem_singleton_self ident)
  | .bracket block => rw [Node.graft, blockGraft_eq_self block kept]
  | .quotation _ _ children | .fragment children => rw [Node.graft, graft_eq_self children kept]
  | .tag ⟨_, _, _, args, _⟩ => rw [Node.graft, blocksGraft_eq_self args kept]
  | .command ⟨_, _, args, _, _⟩ => rw [Node.graft, graft_eq_self args kept]
  | .hole | .text _ _ | .symbol _ _ | .stray _ | .drawing _ => rfl
termination_by structural node

/-- A graft that keeps every identifier it meets changes nothing. -/
theorem graft_eq_self (nodes : List Node) (kept : ∀ ident ∈ idents nodes, put ident = [.ident ident]) :
    graft put nodes = nodes := by
  match nodes with
  | [] => rfl
  | node :: rest =>
    have first := node.graft_eq_self fun ident member => kept ident (List.mem_append_left _ member)
    have others := graft_eq_self rest fun ident member => kept ident (List.mem_append_right _ member)
    rw [graft, first, others, List.singleton_append]
termination_by structural nodes

theorem blockGraft_eq_self (block : Block Node) (kept : ∀ ident ∈ blockIdents block, put ident = [.ident ident]) :
    blockGraft put block = block := by
  match block with
  | ⟨_, _, _, children⟩ => rw [blockGraft, graft_eq_self children kept]
termination_by structural block

theorem blocksGraft_eq_self (blocks : List (Block Node))
    (kept : ∀ ident ∈ blocksIdents blocks, put ident = [.ident ident]) : blocksGraft put blocks = blocks := by
  match blocks with
  | [] => rfl
  | block :: rest =>
    have first := blockGraft_eq_self block fun ident member => kept ident (List.mem_append_left _ member)
    have others := blocksGraft_eq_self rest fun ident member => kept ident (List.mem_append_right _ member)
    rw [blocksGraft, first, others]
termination_by structural blocks

end

mutual

theorem Node.unspanned_graft (named : ∀ ident, unspanned (put ident) = [.ident { name := ident.name }]) (node : Node) :
    Manuscript.unspanned (node.graft put) = [node.unspanned] := by
  match node with
  | .ident ident => exact named ident
  | .bracket block => simp [Node.graft, Node.unspanned, unspanned, blockUnspanned_graft named block]
  | .quotation _ _ children | .fragment children =>
    simp [Node.graft, Node.unspanned, unspanned, unspanned_graft named children]
  | .tag ⟨_, _, _, args, _⟩ => simp [Node.graft, Node.unspanned, unspanned, blocksUnspanned_graft named args]
  | .command ⟨_, _, args, _, _⟩ => simp [Node.graft, Node.unspanned, unspanned, unspanned_graft named args]
  | .hole | .text _ _ | .symbol _ _ | .stray _ | .drawing _ => rfl
termination_by structural node

/-- A graft of identifiers with the same names changes nothing but places. -/
theorem unspanned_graft (named : ∀ ident, unspanned (put ident) = [.ident { name := ident.name }]) (nodes : List Node) :
    unspanned (graft put nodes) = unspanned nodes := by
  match nodes with
  | [] => rfl
  | node :: rest =>
    rw [graft, unspanned_append, unspanned, Node.unspanned_graft named node, unspanned_graft named rest,
      List.singleton_append]
termination_by structural nodes

theorem blockUnspanned_graft (named : ∀ ident, unspanned (put ident) = [.ident { name := ident.name }])
    (block : Block Node) : blockUnspanned (blockGraft put block) = blockUnspanned block := by
  match block with
  | ⟨_, _, _, children⟩ => rw [blockGraft, blockUnspanned, blockUnspanned, unspanned_graft named children]
termination_by structural block

theorem blocksUnspanned_graft (named : ∀ ident, unspanned (put ident) = [.ident { name := ident.name }])
    (blocks : List (Block Node)) : blocksUnspanned (blocksGraft put blocks) = blocksUnspanned blocks := by
  match blocks with
  | [] => rfl
  | block :: rest =>
    rw [blocksGraft, blocksUnspanned, blocksUnspanned, blockUnspanned_graft named block, blocksUnspanned_graft named rest]
termination_by structural blocks

end

end Laws

namespace Rule

/-- A rule for a name: its pattern is one identifier. -/
def IsNaming (rule : Rule Node) : Prop := ∃ ident, rule.pattern = [.ident ident]

/-- One of the rules is for the name. -/
def Named (rules : List (Rule Node)) (name : String) : Prop :=
  ∃ rule ∈ rules, ∃ span, rule.pattern = [.ident ⟨name, span⟩]

/-- What rules for names put in the place of an identifier: the target of the first that is for its name. -/
def insertion (rules : List (Rule Node)) (ident : Ident) : List Node :=
  ((firstMatch rules [.ident ident]).map Rule.target).getD [.ident ident]

/-- The rules rename, and take every name that is moved to its image. -/
structure Renames (image : Equiv.Perm String) (rules : List (Rule Node)) : Prop where
  each : ∀ rule ∈ rules, ∃ name span span', rule = ⟨[.ident ⟨name, span⟩], [.ident ⟨image name, span'⟩]⟩
  all : ∀ name, image name ≠ name → Named rules name

section Naming

variable {rules : List (Rule Node)}

theorem IsNaming.matchesAt_ident {rule : Rule Node} (naming : rule.IsNaming) (ident : Ident) :
    matchesAt [.ident ident] rule = true ↔ ∃ span, rule.pattern = [.ident ⟨ident.name, span⟩] := by
  obtain ⟨⟨name, span⟩, pattern⟩ := naming
  simp only [matchesAt, pattern]
  simp [alike, Node.alike, eq_comm (a := name)]

theorem IsNaming.matchesAt_other {rule : Rule Node} (naming : rule.IsNaming) {node : Node}
    (other : ∀ ident, node ≠ .ident ident) : matchesAt [node] rule = false := by
  obtain ⟨named, pattern⟩ := naming
  cases node with
  | ident ident => exact absurd rfl (other ident)
  | _ => simp [matchesAt, pattern, alike, Node.alike]

/-- Rules for names look at one node at a time. -/
theorem firstMatch_single (naming : ∀ rule ∈ rules, rule.IsNaming) (node : Node) (rest : List Node) :
    firstMatch rules (node :: rest) = firstMatch rules [node] := by
  apply List.find?_congr
  intro rule member
  obtain ⟨ident, pattern⟩ := naming rule member
  simp [matchesAt, pattern]

theorem firstMatch_other (naming : ∀ rule ∈ rules, rule.IsNaming) {node : Node} (other : ∀ ident, node ≠ .ident ident) :
    firstMatch rules [node] = none := by
  apply List.find?_eq_none.mpr
  intro rule member
  simp [(naming rule member).matchesAt_other other]

theorem insertion_unnamed (naming : ∀ rule ∈ rules, rule.IsNaming) {ident : Ident} (unnamed : ¬Named rules ident.name) :
    insertion rules ident = [.ident ident] := by
  have none : firstMatch rules [.ident ident] = none := by
    apply List.find?_eq_none.mpr
    intro rule member hit
    exact unnamed ⟨rule, member, ((naming rule member).matchesAt_ident ident).mp hit⟩
  rw [insertion, none]
  rfl

theorem insertion_named (naming : ∀ rule ∈ rules, rule.IsNaming) {ident : Ident} (named : Named rules ident.name) :
    ∃ rule ∈ rules, (∃ span, rule.pattern = [.ident ⟨ident.name, span⟩]) ∧ insertion rules ident = rule.target := by
  obtain ⟨own, there, pattern⟩ := named
  cases found : firstMatch rules [.ident ident] with
  | none =>
    have missed := List.find?_eq_none.mp found own there
    exact absurd (((naming own there).matchesAt_ident ident).mpr pattern) missed
  | some rule =>
    have member := List.mem_of_find?_eq_some found
    refine ⟨rule, member, ((naming rule member).matchesAt_ident ident).mp (List.find?_some found), ?_⟩
    rw [insertion, found]
    rfl

end Naming

end Rule

section Simultaneous

open Rule

variable {rules : List (Rule Node)}

mutual

theorem Node.graft_insertion (naming : ∀ rule ∈ rules, rule.IsNaming) (node : Node) :
    node.graft (insertion rules) = ((firstMatch rules [node]).map Rule.target).getD [node.substitute rules] := by
  match node with
  | .ident _ => rfl
  | .bracket block =>
    simp [firstMatch_other naming, Node.graft, Node.substitute, blockGraft_insertion naming block]
  | .quotation _ _ children | .fragment children =>
    simp [firstMatch_other naming, Node.graft, Node.substitute, graft_insertion naming children]
  | .tag ⟨_, _, _, args, _⟩ =>
    simp [firstMatch_other naming, Node.graft, Node.substitute, blocksGraft_insertion naming args]
  | .command ⟨_, _, args, _, _⟩ =>
    simp [firstMatch_other naming, Node.graft, Node.substitute, graft_insertion naming args]
  | .hole | .text _ _ | .symbol _ _ | .stray _ | .drawing _ =>
    simp [firstMatch_other naming, Node.graft, Node.substitute]
termination_by structural node

/-- With rules for names, substitution is the graft of what they insert. -/
theorem graft_insertion (naming : ∀ rule ∈ rules, rule.IsNaming) (nodes : List Node) :
    graft (insertion rules) nodes = substituteFrom rules 0 nodes := by
  match nodes with
  | [] => rfl
  | node :: rest =>
    rw [graft, Node.graft_insertion naming node, graft_insertion naming rest, substituteFrom,
      firstMatch_single naming node rest]
    cases found : firstMatch rules [node] with
    | none => rfl
    | some rule =>
      obtain ⟨ident, pattern⟩ := naming rule (List.mem_of_find?_eq_some found)
      simp only [Option.map_some, Option.getD_some, pattern, List.length_singleton]
termination_by structural nodes

theorem blockGraft_insertion (naming : ∀ rule ∈ rules, rule.IsNaming) (block : Block Node) :
    blockGraft (insertion rules) block = substituteBlock rules block := by
  match block with
  | ⟨_, _, _, children⟩ => rw [blockGraft, substituteBlock, graft_insertion naming children]
termination_by structural block

theorem blocksGraft_insertion (naming : ∀ rule ∈ rules, rule.IsNaming) (blocks : List (Block Node)) :
    blocksGraft (insertion rules) blocks = substituteBlocks rules blocks := by
  match blocks with
  | [] => rfl
  | block :: rest =>
    rw [blocksGraft, substituteBlocks, blockGraft_insertion naming block, blocksGraft_insertion naming rest]
termination_by structural blocks

end

theorem substitute_eq_graft (naming : ∀ rule ∈ rules, rule.IsNaming) (nodes : List Node) :
    substitute rules nodes = graft (insertion rules) nodes :=
  (graft_insertion naming nodes).symm

/-- Where no target has a name of the rules, nothing that comes out has. -/
theorem unnamed_substitute (naming : ∀ rule ∈ rules, rule.IsNaming)
    (fresh : ∀ rule ∈ rules, ∀ ident ∈ idents rule.target, ¬Named rules ident.name) (nodes : List Node) :
    ∀ ident ∈ idents (substitute rules nodes), ¬Named rules ident.name := by
  intro ident member
  rw [substitute_eq_graft naming, idents_graft] at member
  obtain ⟨origin, -, put⟩ := List.mem_flatMap.mp member
  by_cases named : Named rules origin.name
  · obtain ⟨rule, there, -, target⟩ := insertion_named naming named
    rw [target] at put
    exact fresh rule there ident put
  · rw [insertion_unnamed naming named] at put
    obtain rfl : ident = origin := List.mem_singleton.mp put
    exact named

namespace Rule.Renames

variable {image : Equiv.Perm String}

theorem naming (renames : Renames image rules) : ∀ rule ∈ rules, rule.IsNaming := by
  intro rule member
  obtain ⟨name, span, span', rfl⟩ := renames.each rule member
  exact ⟨_, rfl⟩

theorem insertion (renames : Renames image rules) (ident : Ident) :
    ∃ span, Rule.insertion rules ident = [.ident ⟨image ident.name, span⟩] := by
  by_cases named : Named rules ident.name
  · obtain ⟨rule, member, ⟨place, pattern⟩, target⟩ := insertion_named renames.naming named
    obtain ⟨name, span, span', rfl⟩ := renames.each rule member
    obtain ⟨rfl, rfl⟩ : name = ident.name ∧ span = place := by simpa using pattern
    exact ⟨span', target⟩
  · have kept : image ident.name = ident.name := by
      by_contra away
      exact named (renames.all ident.name away)
    refine ⟨ident.span, ?_⟩
    rw [insertion_unnamed renames.naming named, kept]

end Rule.Renames

/-- Renaming by a permutation is undone by renaming by its inverse. -/
theorem substitute_inverse {image : Equiv.Perm String} {inverse : List (Rule Node)} (renames : Renames image rules)
    (back : Renames image.symm inverse) (nodes : List Node) :
    unspanned (substitute inverse (substitute rules nodes)) = unspanned nodes := by
  rw [substitute_eq_graft back.naming, substitute_eq_graft renames.naming, graft_graft]
  apply unspanned_graft
  intro ident
  obtain ⟨span, there⟩ := renames.insertion ident
  obtain ⟨span', home⟩ := back.insertion ⟨image ident.name, span⟩
  rw [there, graft, graft, Node.graft, home, image.symm_apply_apply]
  rfl

/-- With rules for names, substitution is a graft. It goes through a list node by node. Where no target has a name of the
rules, none is left and a second substitution changes nothing; and names that are permuted are put back by the inverse
permutation, with nothing but places changed. -/
theorem substitution_simultaneous (naming : ∀ rule ∈ rules, rule.IsNaming) (nodes : List Node) :
    substitute rules nodes = graft (insertion rules) nodes ∧
      (∀ others, substitute rules (nodes ++ others) = substitute rules nodes ++ substitute rules others) ∧
      ((∀ rule ∈ rules, ∀ ident ∈ idents rule.target, ¬Named rules ident.name) →
        (∀ ident ∈ idents (substitute rules nodes), ¬Named rules ident.name) ∧
          substitute rules (substitute rules nodes) = substitute rules nodes) ∧
      ∀ (image : Equiv.Perm String) (inverse : List (Rule Node)), Renames image rules → Renames image.symm inverse →
        unspanned (substitute inverse (substitute rules nodes)) = unspanned nodes := by
  refine ⟨substitute_eq_graft naming nodes, ?_, ?_, ?_⟩
  · intro others
    simp only [substitute_eq_graft naming, graft_append]
  · intro fresh
    have unnamed := unnamed_substitute naming fresh nodes
    refine ⟨unnamed, ?_⟩
    rw [substitute_eq_graft naming (substitute rules nodes)]
    apply graft_eq_self
    intro ident member
    exact insertion_unnamed naming (unnamed ident member)
  · intro image inverse renames back
    exact substitute_inverse renames back nodes

namespace Sample

def name (name : String) : Node := .ident { name }

def exchange : List (Rule Node) := [⟨[name "\\a"], [name "\\b"]⟩, ⟨[name "\\b"], [name "\\a"]⟩]

/-- The first name is written twice and the second left out. -/
def spell : List (Rule Node) := [⟨[name "\\a"], [name "\\x", name "\\x"]⟩, ⟨[name "\\b"], []⟩]

/-- Both names, in a tag, in a command and in a quotation. -/
def strewn : List Node :=
  [.ident ⟨"\\a", ⟨0, 2⟩⟩, .tag { ident := { name := "\\a" }, args := [.synthesized [name "\\b", .text "," {}]] },
    .command { ident := { name := "\\b" }, args := [name "\\b", .quotation none none [name "\\a"]] }]

theorem exchange_renames : Rule.Renames (Equiv.swap "\\a" "\\b") exchange where
  each rule member := by
    simp only [exchange, List.mem_cons, List.not_mem_nil, or_false] at member
    obtain rfl | rfl := member
    · exact ⟨"\\a", {}, {}, by rw [Equiv.swap_apply_left]; rfl⟩
    · exact ⟨"\\b", {}, {}, by rw [Equiv.swap_apply_right]; rfl⟩
  all name moved := by
    by_cases first : name = "\\a"
    · exact ⟨_, List.mem_cons_self, {}, by rw [first]; rfl⟩
    · by_cases second : name = "\\b"
      · exact ⟨_, List.mem_cons_of_mem _ List.mem_cons_self, {}, by rw [second]; rfl⟩
      · exact absurd (Equiv.swap_apply_of_ne_of_ne first second) moved

theorem spell_naming : ∀ rule ∈ spell, rule.IsNaming := by
  intro rule member
  simp only [spell, List.mem_cons, List.not_mem_nil, or_false] at member
  obtain rfl | rfl := member <;> exact ⟨_, rfl⟩

theorem spell_fresh : ∀ rule ∈ spell, ∀ ident ∈ idents rule.target, ¬Rule.Named spell ident.name := by
  intro rule member ident inside named
  simp only [spell, List.mem_cons, List.not_mem_nil, or_false] at member
  obtain ⟨other, there, span, pattern⟩ := named
  simp only [spell, List.mem_cons, List.not_mem_nil, or_false] at there
  obtain rfl | rfl := member
  · have same : ident = { name := "\\x" } := by simpa [idents, Node.idents, name] using inside
    subst same
    obtain rfl | rfl := there <;> simp [name] at pattern
  · cases inside

end Sample

/-- Names are swapped and swapped back; and a name that is written twice is not looked at again. -/
theorem substitution_simultaneous_exchange :
    (∀ rule ∈ Sample.exchange, rule.IsNaming) ∧ Renames (Equiv.swap "\\a" "\\b") Sample.exchange ∧
      substitute Sample.exchange Sample.strewn ≠ Sample.strewn ∧
      unspanned (substitute Sample.exchange (substitute Sample.exchange Sample.strewn)) = unspanned Sample.strewn ∧
      (∀ rule ∈ Sample.spell, ∀ ident ∈ idents rule.target, ¬Named Sample.spell ident.name) ∧
      substitute Sample.spell (substitute Sample.spell Sample.strewn) = substitute Sample.spell Sample.strewn := by
  have renames := Sample.exchange_renames
  have back : Renames (Equiv.swap "\\a" "\\b").symm Sample.exchange := by rwa [Equiv.symm_swap]
  obtain ⟨-, -, -, inverse⟩ := substitution_simultaneous renames.naming Sample.strewn
  obtain ⟨-, -, again, -⟩ := substitution_simultaneous Sample.spell_naming Sample.strewn
  refine ⟨renames.naming, renames, ?_, inverse _ _ renames back, Sample.spell_fresh, (again Sample.spell_fresh).2⟩
  intro same
  exact absurd (congrArg idents same) (by decide)

end Simultaneous

end Manuscript
