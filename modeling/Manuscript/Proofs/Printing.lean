import Manuscript.Html.Lower
import Manuscript.Proofs.NormalForm
import Manuscript.Proofs.Unresolved

/-! Printing before and after normalization. A printer that writes a list part by part, and a tag as its identifier with
its option list and its arguments behind it, cannot tell a tree from the normalized one, as long as no where block is
taken up. The source view, LaTeX and HTML are such printers. -/

namespace Manuscript

/-- The nodes that a tag was made of, where blocks apart. -/
def Tag.spread (tag : Tag Node) : List Node :=
  .ident tag.ident :: (tag.options.toList ++ tag.args).map .bracket

section Prints

variable {β : Type}

/-- A printer that writes lists part by part, and a tag as what it was made of. -/
structure Prints (print : List Node → β) : Prop where
  append {first second third fourth : List Node} (front : print first = print second)
    (back : print third = print fourth) : print (first ++ third) = print (second ++ fourth)
  bracket (kind : BracketKind) (opening closing : Option Token) {children others : List Node}
    (inside : print children = print others) :
    print [.bracket ⟨kind, opening, closing, children⟩] = print [.bracket ⟨kind, opening, closing, others⟩]
  quotation (opening closing : Option Token) {children others : List Node} (inside : print children = print others) :
    print [.quotation opening closing children] = print [.quotation opening closing others]
  fragment {children others : List Node} (inside : print children = print others) :
    print [.fragment children] = print [.fragment others]
  tag (tag : Tag Node) : print [.tag tag] = print tag.spread

namespace Prints

open Normalize

variable {print : List Node → β} (prints : Prints print)

include prints

theorem cons {node other : Node} {nodes others : List Node} (first : print [node] = print [other])
    (later : print nodes = print others) : print (node :: nodes) = print (other :: others) :=
  prints.append first later

/-- Tags that were made of nodes that print alike do so themselves. -/
theorem tags {tag other : Tag Node} (same : tag.ident = other.ident)
    (blocks : print ((tag.options.toList ++ tag.args).map .bracket) =
      print ((other.options.toList ++ other.args).map .bracket)) :
    print [.tag tag] = print [.tag other] := by
  rw [prints.tag, prints.tag, Tag.spread, Tag.spread, same]
  exact prints.cons rfl blocks

/-- A tag that takes up curly blocks prints as the tag with these behind it. -/
theorem attach {tag grown : Tag Node} {rest : List Node} {used : Nat}
    (whereless : Unresolved (· ≠ Rule.whereIdent) rest) (found : Normalize.attach tag rest = some (grown, used)) :
    print [.tag grown] = print (tag.spread ++ rest.take used) := by
  have none : Rule.leadingWhere (rest.drop (Node.leadingCurly rest).length) = none := by
    by_contra some
    obtain ⟨⟨rules, count⟩, leads⟩ := Option.ne_none_iff_exists'.mp some
    exact (leadingWhere_unresolved (whereless.sublist (List.drop_sublist ..)) leads).1 rfl
  rw [attach_eq, leadingWheres_of_none none] at found
  split at found
  · cases found
  · cases found
    rw [prints.tag, Nat.add_zero, Node.leadingCurly_take, Tag.spread, Tag.spread, List.cons_append, ← List.map_append,
      List.append_assoc]

/-- What is made a tag prints as the nodes that it takes up. -/
theorem tagAt {node : Node} {rest : List Node} {tag : Tag Node} {used : Nat}
    (whereless : Unresolved (· ≠ Rule.whereIdent) rest) (found : Normalize.tagAt node rest = some (tag, used)) :
    print [.tag tag] = print (node :: rest.take used) := by
  unfold Normalize.tagAt at found
  split at found
  next ident =>
    split at found
    next options leads =>
      obtain ⟨⟨grown, count⟩, attached, same⟩ := Option.map_eq_some_iff.mp found
      cases same
      obtain ⟨others, rfl⟩ := Node.leadingBlock_eq leads
      exact prints.attach whereless.2 attached
    next => exact prints.attach whereless found
  next tag =>
    rw [prints.attach whereless found]
    exact prints.append (prints.tag tag).symm rfl
  next => cases found

/-- Taking up siblings changes nothing of what is printed. -/
theorem collapse (skip : Nat) {nodes : List Node} (whereless : Unresolved (· ≠ Rule.whereIdent) nodes) :
    print (collapseFrom skip nodes) = print (nodes.drop skip) := by
  fun_induction collapseFrom skip nodes with
  | case1 => rw [List.drop_nil]
  | case2 skip node rest ih => exact ih whereless.2
  | case3 node rest tag used found ih =>
    have split : node :: rest = (node :: rest.take used) ++ rest.drop used := by
      rw [List.cons_append, List.take_append_drop]
    rw [List.drop_zero, split]
    exact prints.append (prints.tagAt whereless.2 found) (ih whereless.2)
  | case4 node rest _ ih => exact prints.cons rfl (ih whereless.2)

/-- A list prints as it did when each of its nodes does. -/
theorem normalize_of_each {nodes : List Node} (whereless : Unresolved (· ≠ Rule.whereIdent) nodes)
    (each : print (normalizeEach nodes) = print nodes) : print (normalize nodes) = print nodes :=
  (prints.collapse 0 (normalizeEach_unresolved nodes whereless)).trans each

mutual

theorem node_normalize (node : Node) (whereless : node.Unresolved (· ≠ Rule.whereIdent)) :
    print [node.normalize] = print [node] := by
  match node with
  | .bracket block => exact block_normalize block whereless
  | .quotation opening closing children =>
    exact prints.quotation opening closing (prints.normalize_of_each whereless (each_normalize children whereless))
  | .fragment children => exact prints.fragment (prints.normalize_of_each whereless (each_normalize children whereless))
  | .tag ⟨ident, options, attributes, args, rules⟩ =>
    refine prints.tags rfl ?_
    rw [List.map_append, List.map_append]
    exact prints.append rfl (blocks_normalize args whereless.2.2.1)
  | .command command => exact whereless.elim
  | .hole | .text _ _ | .symbol _ _ | .ident _ | .stray _ | .drawing _ => rfl
termination_by structural node

theorem each_normalize (nodes : List Node) (whereless : Unresolved (· ≠ Rule.whereIdent) nodes) :
    print (normalizeEach nodes) = print nodes := by
  match nodes with
  | [] => rfl
  | node :: rest => exact prints.cons (node_normalize node whereless.1) (each_normalize rest whereless.2)
termination_by structural nodes

theorem block_normalize (block : Block Node) (whereless : BlockUnresolved (· ≠ Rule.whereIdent) block) :
    print [.bracket (normalizeBlock block)] = print [.bracket block] := by
  match block with
  | ⟨kind, opening, closing, children⟩ =>
    exact prints.bracket kind opening closing (prints.normalize_of_each whereless (each_normalize children whereless))
termination_by structural block

theorem blocks_normalize (blocks : List (Block Node)) (whereless : BlocksUnresolved (· ≠ Rule.whereIdent) blocks) :
    print ((normalizeBlocks blocks).map .bracket) = print (blocks.map .bracket) := by
  match blocks with
  | [] => rfl
  | block :: rest => exact prints.cons (block_normalize block whereless.1) (blocks_normalize rest whereless.2)
termination_by structural blocks

end

/-- Where nothing is named like a where block, a tree prints as before. -/
theorem normalize {nodes : List Node} (whereless : Unresolved (· ≠ Rule.whereIdent) nodes) :
    print (normalize nodes) = print nodes :=
  prints.normalize_of_each whereless (prints.each_normalize nodes whereless)

end Prints

end Prints

section Source

theorem optionsSource_eq (options : Option (Block Node)) :
    optionsSource options = source (options.toList.map .bracket) := by
  cases options with
  | none => rfl
  | some block => exact (String.append_empty (s := blockSource block)).symm

theorem source_prints : Prints source where
  append front back := by rw [source_append, source_append, front, back]
  bracket kind opening closing children others inside := by
    simp only [source, Node.source, blockSource, inside]
  quotation opening closing children others inside := by
    simp only [source, Node.source, inside]
  fragment inside := by
    simp only [source, Node.source, inside]
  tag tag := by
    obtain ⟨ident, options, attributes, args, rules⟩ := tag
    have blocks : source ((options.toList ++ args).map .bracket) = optionsSource options ++ blocksSource args := by
      rw [List.map_append, source_append, optionsSource_eq, blocksSource_eq]
    simp only [Tag.spread, source, Node.source, blocks, String.append_empty, String.append_assoc]

end Source

namespace Latex

theorem allPieces_append (nodes others : List Node) :
    allPieces (nodes ++ others) = allPieces nodes ++ allPieces others := by
  induction nodes with
  | nil => rfl
  | cons node nodes ih => rw [List.cons_append, allPieces, allPieces, ih, List.append_assoc]

theorem blocksPieces_eq (blocks : List (Block Node)) : blocksPieces blocks = allPieces (blocks.map .bracket) := by
  induction blocks with
  | nil => rfl
  | cons block blocks ih => rw [blocksPieces, ih, List.map_cons, allPieces, pieces]

theorem optionPieces_eq (options : Option (Block Node)) :
    optionPieces options = allPieces (options.toList.map .bracket) := by
  cases options with
  | none => rfl
  | some block => exact (List.append_nil (blockPieces block)).symm

theorem pieces_prints : Prints allPieces where
  append front back := by rw [allPieces_append, allPieces_append, front, back]
  bracket kind opening closing children others inside := by
    simp only [allPieces, pieces, blockPieces, inside]
  quotation opening closing children others inside := by
    simp only [allPieces, pieces, inside]
  fragment inside := by
    simp only [allPieces, pieces, inside]
  tag tag := by
    obtain ⟨ident, options, attributes, args, rules⟩ := tag
    have blocks : allPieces ((options.toList ++ args).map .bracket) = optionPieces options ++ blocksPieces args := by
      rw [List.map_append, allPieces_append, optionPieces_eq, blocksPieces_eq]
    simp only [Tag.spread, allPieces, pieces, blocks, List.append_nil, List.cons_append, List.nil_append]

end Latex

namespace Html

theorem ofNodes_append (page : String) (nodes others : List Node) : ofNodes page (nodes ++ others) = (do
    let html ← ofNodes page nodes
    pure (html ++ (← ofNodes page others))) := by
  induction nodes with
  | nil => simp [ofNodes]
  | cons node nodes ih => simp only [List.cons_append, ofNodes, ih, bind_assoc, pure_bind, List.append_assoc]

theorem ofBlocks_eq (page : String) (blocks : List (Block Node)) :
    ofBlocks page blocks = ofNodes page (blocks.map .bracket) := by
  induction blocks with
  | nil => rfl
  | cons block blocks ih => rw [ofBlocks, ih, List.map_cons, ofNodes, ofNode]

theorem ofOptions_eq (page : String) (options : Option (Block Node)) :
    ofOptions page options = ofNodes page (options.toList.map .bracket) := by
  cases options with
  | none => rfl
  | some block => simp [ofOptions, ofNodes, ofNode]

theorem nodes_prints (page : String) : Prints (ofNodes page) where
  append front back := by rw [ofNodes_append, ofNodes_append, front, back]
  bracket kind opening closing children others inside := by
    simp only [ofNodes, ofNode, ofBlock, inside]
  quotation opening closing children others inside := by
    simp only [ofNodes, ofNode, inside]
  fragment inside := by
    simp only [ofNodes, ofNode, inside]
  tag tag := by
    obtain ⟨ident, options, attributes, args, rules⟩ := tag
    simp [Tag.spread, ofNodes, ofNode, ofNodes_append, ofOptions_eq, ofBlocks_eq]

end Html

/-- Normalization does not change what is printed of a source in which no identifier is that of a where block: the
source itself, its LaTeX and its HTML, with a table of contents or without one. -/
theorem normalization_prints (bytes : Bytes)
    (whereless : Unresolved (· ≠ Rule.whereIdent) (Parse.ofBytes bytes)) :
    source (normalize (Parse.ofBytes bytes)) = source (Parse.ofBytes bytes) ∧
      latex (normalize (Parse.ofBytes bytes)) = latex (Parse.ofBytes bytes) ∧
      ∀ page, Html.ofNodes page (normalize (Parse.ofBytes bytes)) = Html.ofNodes page (Parse.ofBytes bytes) := by
  refine ⟨source_prints.normalize whereless, ?_, fun page => (Html.nodes_prints page).normalize whereless⟩
  exact congrArg String.join (Latex.pieces_prints.normalize whereless)

namespace Sample

/-- Options with an invocation inside, an enclosure that is closed by the bracket of another kind, and some that are
never closed. -/
def ragged : String := "\\h1[a,\\b\x7bx\x7d]\x7b\\i\x7by]\\u[k=v] (\"z\x7d)\x7d\\\x7bw"

end Sample

theorem normalization_prints_ragged : Unresolved (· ≠ Rule.whereIdent) (Parse.ofString Sample.ragged) ∧
    source (normalize (Parse.ofString Sample.ragged)) = source (Parse.ofString Sample.ragged) ∧
    latex (normalize (Parse.ofString Sample.ragged)) = latex (Parse.ofString Sample.ragged) ∧
    ∀ page, Html.ofNodes page (normalize (Parse.ofString Sample.ragged)) =
      Html.ofNodes page (Parse.ofString Sample.ragged) := by
  have whereless : Unresolved (· ≠ Rule.whereIdent) (Parse.ofString Sample.ragged) := by
    refine ofBytes_unresolved _ ?_
    rw [Parse.ofBytes, Words.ofBytes_encode]
    decide +kernel
  exact ⟨whereless, normalization_prints _ whereless⟩

end Manuscript
