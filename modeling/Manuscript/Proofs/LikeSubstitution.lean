import Manuscript.Document.Rule
import Manuscript.Proofs.Likeness
import Mathlib.Data.List.Forall2

/-! Substitution looks at a tree only through syntactic equality. In trees that are equal to it, with rules that are, the
same rules are chosen at the same places, as many nodes are replaced, and what comes out is equal again. -/

namespace Manuscript

section Lists

theorem skeleton_eq_map (nodes : List Node) : skeleton nodes = nodes.map Node.skeleton := by
  induction nodes with
  | nil => rfl
  | cons node nodes ih => rw [skeleton, ih, List.map_cons]

theorem skeleton_append (nodes others : List Node) : skeleton (nodes ++ others) = skeleton nodes ++ skeleton others := by
  simp only [skeleton_eq_map, List.map_append]

theorem alike_length {nodes others : List Node} (same : alike nodes others = true) : nodes.length = others.length := by
  have equal := congrArg List.length ((alike_iff nodes others).mp same)
  simpa only [skeleton_eq_map, List.length_map] using equal

theorem alike_take {nodes others : List Node} (same : alike nodes others = true) (count : Nat) :
    alike (nodes.take count) (others.take count) = true := by
  apply (alike_iff _ _).mpr
  have equal := congrArg (List.take count) ((alike_iff nodes others).mp same)
  simpa only [skeleton_eq_map, List.map_take] using equal

/-- Lists can be replaced by equal ones on both sides of a comparison. -/
theorem alike_congr {nodes others pattern pattern' : List Node} (same : alike nodes others = true)
    (like : alike pattern pattern' = true) : alike nodes pattern = alike others pattern' := by
  apply Bool.eq_iff_iff.mpr
  rw [alike_iff, alike_iff, (alike_iff nodes others).mp same, (alike_iff pattern pattern').mp like]

end Lists

namespace Rule

/-- Rules that the comparison does not tell apart. -/
structure Alike (rule other : Rule Node) : Prop where
  pattern : alike rule.pattern other.pattern = true
  target : alike rule.target other.target = true

section Choice

variable {rules others : List (Rule Node)} {window window' : List Node}

theorem Alike.matchesAt {rule other : Rule Node} (like : rule.Alike other) (same : alike window window' = true) :
    matchesAt window rule = Rule.matchesAt window' other := by
  have length := alike_length like.pattern
  have empty : rule.pattern.isEmpty = other.pattern.isEmpty := by
    apply Bool.eq_iff_iff.mpr
    rw [List.isEmpty_iff_length_eq_zero, List.isEmpty_iff_length_eq_zero, length]
  unfold Rule.matchesAt
  rw [empty, length, alike_congr (alike_take same other.pattern.length) like.pattern]

theorem findIdx?_alike (like : List.Forall₂ Alike rules others) (same : alike window window' = true) :
    rules.findIdx? (Rule.matchesAt window) = others.findIdx? (Rule.matchesAt window') := by
  induction like with
  | nil => rfl
  | cons first rest ih => rw [List.findIdx?_cons, List.findIdx?_cons, first.matchesAt same, ih]

theorem firstMatch_alike (like : List.Forall₂ Alike rules others) (same : alike window window' = true) :
    Option.Rel Alike (firstMatch rules window) (firstMatch others window') := by
  unfold firstMatch
  induction like with
  | nil => exact .none
  | cons first rest ih =>
    rw [List.find?_cons, List.find?_cons, first.matchesAt same]
    split
    · exact .some first
    · exact ih

end Choice

end Rule

section Substitution

variable {rules rules' : List (Rule Node)}

open Rule

mutual

theorem Node.substitute_skeleton (like : List.Forall₂ Rule.Alike rules rules') (node other : Node)
    (same : node.skeleton = other.skeleton) : (node.substitute rules).skeleton = (other.substitute rules').skeleton := by
  match node with
  | .bracket block =>
    cases other with
    | bracket other =>
      simp only [Node.skeleton, Node.bracket.injEq] at same
      simp only [Node.substitute, Node.skeleton, substituteBlock_skeleton like block other same]
    | _ => cases same
  | .quotation opening closing children =>
    cases other with
    | quotation opening' closing' others =>
      simp only [Node.skeleton, Node.quotation.injEq] at same
      simp only [Node.substitute, Node.skeleton, same, substituteFrom_skeleton like 0 children others same.2.2]
    | _ => cases same
  | .fragment children =>
    cases other with
    | fragment others =>
      simp only [Node.skeleton, Node.fragment.injEq] at same
      simp only [Node.substitute, Node.skeleton, substituteFrom_skeleton like 0 children others same]
    | _ => cases same
  | .tag ⟨ident, options, attributes, args, attached⟩ =>
    cases other with
    | tag other =>
      obtain ⟨ident', options', attributes', others, attached'⟩ := other
      simp only [Node.skeleton, Node.tag.injEq, Tag.mk.injEq] at same
      simp only [Node.substitute, Node.skeleton, same, substituteBlocks_skeleton like args others same.2.2.2.1]
    | _ => cases same
  | .command ⟨ident, attributes, args, declaration, attached⟩ =>
    cases other with
    | command other =>
      obtain ⟨ident', attributes', others, declaration', attached'⟩ := other
      simp only [Node.skeleton, Node.command.injEq, Command.mk.injEq] at same
      simp only [Node.substitute, Node.skeleton, same, substituteFrom_skeleton like 0 args others same.2.2.1]
    | _ => cases same
  | .hole | .text _ _ | .symbol _ _ | .ident _ | .stray _ | .drawing _ => cases other <;> first | exact same | cases same
termination_by structural node

theorem substituteFrom_skeleton (like : List.Forall₂ Rule.Alike rules rules') (skip : Nat) (nodes others : List Node)
    (same : skeleton nodes = skeleton others) :
    skeleton (substituteFrom rules skip nodes) = skeleton (substituteFrom rules' skip others) := by
  match skip, nodes, others with
  | _, [], [] => simp [substituteFrom]
  | _, [], _ :: _ | _, _ :: _, [] => cases same
  | skip + 1, node :: rest, other :: more =>
    simp only [skeleton, List.cons.injEq] at same
    exact substituteFrom_skeleton like skip rest more same.2
  | 0, node :: rest, other :: more =>
    have chosen := firstMatch_alike like ((alike_iff _ _).mpr same)
    simp only [skeleton, List.cons.injEq] at same
    rw [substituteFrom, substituteFrom]
    generalize firstMatch rules (node :: rest) = found, firstMatch rules' (other :: more) = found' at chosen
    cases chosen with
    | none =>
      simp only [skeleton, Node.substitute_skeleton like node other same.1,
        substituteFrom_skeleton like 0 rest more same.2]
    | @some rule rule' both =>
      simp only [skeleton_append, (alike_iff _ _).mp both.target, alike_length both.pattern,
        substituteFrom_skeleton like (rule'.pattern.length - 1) rest more same.2]
termination_by structural nodes

theorem substituteBlock_skeleton (like : List.Forall₂ Rule.Alike rules rules') (block other : Block Node)
    (same : blockSkeleton block = blockSkeleton other) :
    blockSkeleton (substituteBlock rules block) = blockSkeleton (substituteBlock rules' other) := by
  match block with
  | ⟨kind, opening, closing, children⟩ =>
    obtain ⟨kind', opening', closing', others⟩ := other
    simp only [blockSkeleton, Block.mk.injEq] at same
    simp only [substituteBlock, blockSkeleton, same, substituteFrom_skeleton like 0 children others same.2.2.2]
termination_by structural block

theorem substituteBlocks_skeleton (like : List.Forall₂ Rule.Alike rules rules') (blocks others : List (Block Node))
    (same : blocksSkeleton blocks = blocksSkeleton others) :
    blocksSkeleton (substituteBlocks rules blocks) = blocksSkeleton (substituteBlocks rules' others) := by
  match blocks, others with
  | [], [] => rfl
  | [], _ :: _ | _ :: _, [] => cases same
  | block :: rest, other :: more =>
    simp only [blocksSkeleton, List.cons.injEq] at same
    simp only [substituteBlocks, blocksSkeleton, substituteBlock_skeleton like block other same.1,
      substituteBlocks_skeleton like rest more same.2]
termination_by structural blocks

end

/-- Equal trees, rewritten with rules that are equal one by one, are equal trees again. At equal windows the rule at the
same place of the list is chosen, or none is, and as many nodes are replaced. -/
theorem substitution_respects_likeness (like : List.Forall₂ Rule.Alike rules rules') :
    (∀ nodes others, alike nodes others = true → alike (substitute rules nodes) (substitute rules' others) = true) ∧
      ∀ window window', alike window window' = true →
        rules.findIdx? (matchesAt window) = rules'.findIdx? (matchesAt window') ∧
        (firstMatch rules window).map (·.pattern.length) = (firstMatch rules' window').map (·.pattern.length) := by
  refine ⟨?_, ?_⟩
  · intro nodes others same
    apply (alike_iff _ _).mpr
    exact substituteFrom_skeleton like 0 nodes others ((alike_iff nodes others).mp same)
  · intro window window' same
    have chosen := firstMatch_alike like same
    generalize firstMatch rules window = found, firstMatch rules' window' = found' at chosen ⊢
    refine ⟨findIdx?_alike like same, ?_⟩
    cases chosen with
    | none => rfl
    | some both => exact congrArg some (alike_length both.pattern)

namespace Sample

/-- A rule for a name and one for texts, written with some text at some place. -/
def marking (text : String) (span : Span) : List (Rule Node) :=
  [⟨[.ident ⟨"\\q", span⟩], []⟩, ⟨[.text text span], [.symbol "!" span, .text text {}]⟩]

/-- A text, and a tag around another one. -/
def noted (text : String) (span : Span) (attributes : Option Attributes) : List Node :=
  [.text text span, .tag { ident := ⟨"\\b", span⟩, attributes, args := [.synthesized [.text text {}, .symbol "," span]] }]

end Sample

/-- Other texts at other places: in both lists the second rule is chosen for them. -/
theorem substitution_respects_likeness_texts :
    List.Forall₂ Rule.Alike (Sample.marking "u" {}) (Sample.marking "" ⟨4, 5⟩) ∧
      alike (Sample.noted "a" ⟨0, 1⟩ none) (Sample.noted "bc" {} (some [])) = true ∧
      alike (substitute (Sample.marking "u" {}) (Sample.noted "a" ⟨0, 1⟩ none))
        (substitute (Sample.marking "" ⟨4, 5⟩) (Sample.noted "bc" {} (some []))) = true ∧
      (Sample.marking "u" {}).findIdx? (matchesAt (Sample.noted "a" ⟨0, 1⟩ none)) = some 1 ∧
      (Sample.marking "" ⟨4, 5⟩).findIdx? (matchesAt (Sample.noted "bc" {} (some []))) = some 1 := by
  have like : List.Forall₂ Rule.Alike (Sample.marking "u" {}) (Sample.marking "" ⟨4, 5⟩) :=
    .cons ⟨by decide, by decide⟩ (.cons ⟨by decide, by decide⟩ .nil)
  have same : alike (Sample.noted "a" ⟨0, 1⟩ none) (Sample.noted "bc" {} (some [])) = true := by decide
  have first : (Sample.marking "u" {}).findIdx? (matchesAt (Sample.noted "a" ⟨0, 1⟩ none)) = some 1 := by decide
  obtain ⟨equal, choice⟩ := substitution_respects_likeness like
  exact ⟨like, same, equal _ _ same, first, (choice _ _ same).1.symm.trans first⟩

end Substitution

end Manuscript
