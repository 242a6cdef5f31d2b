import Manuscript.Proofs.EntryPoints
import Manuscript.Proofs.SpanFree

/-! What a flag says is not heard. A heading or an inclusion has a flag or does not have it; the value that the flag is
given can be forgotten in a tree, like the places of its nodes, and what is made of the tree stays the same. -/

namespace Manuscript

namespace Attributes

/-- The attributes that are asked for by name alone. -/
def flags : List String := ["toc-only", "no-toc"]

def isFlag (key : Node) : Bool := flags.any fun name => key.alike (nameKey name)

/-- Attributes with the values of flags left out. -/
def bare (items : Attributes) : Attributes :=
  items.map fun item => if isFlag item.key then { item with value := none } else item

theorem isFlag_symbol (name : String) (span : Span) : isFlag (.symbol name span) = flags.contains name := by
  rw [isFlag, List.contains_eq_any_beq]
  rfl

theorem bare_bare (items : Attributes) : bare (bare items) = bare items := by
  unfold bare
  rw [List.map_map]
  refine List.map_congr_left fun item _ => ?_
  by_cases flag : isFlag item.key = true <;> simp [flag]

theorem find?_bare (items : Attributes) (name : String) :
    find? (bare items) (nameKey name) =
      (find? items (nameKey name)).map fun value => if flags.contains name then none else value := by
  induction items with
  | nil => rfl
  | cons item items ih =>
    obtain ⟨key, value⟩ := item
    have kept : (if isFlag key then { key, value := none } else ({ key, value } : Attribute Node)).key = key := by
      split <;> rfl
    by_cases here : key.alike (nameKey name) = true
    · obtain ⟨span, rfl⟩ := alike_nameKey.mp here
      rw [isFlag_symbol] at kept
      simp only [bare, find?, List.map_cons, List.find?_cons, isFlag_symbol, kept, here, Option.map_some]
      split <;> rfl
    · simp only [bare, find?, List.map_cons, List.find?_cons, kept, here] at ih ⊢
      exact ih

theorem has_bare (items : Attributes) (name : String) : has (bare items) name = has items name := by
  rw [has, has, find?_bare, Option.isSome_map]

theorem value?_bare (items : Attributes) {name : String} (other : flags.contains name = false) :
    value? (bare items) name = value? items name := by
  rw [value?, value?, find?_bare, other]
  simp only [Bool.false_eq_true, if_false, Option.map_id']

theorem bare_insert (items : Attributes) (name : String) (value : Option Node) :
    bare (insert (nameKey name) value items) =
      insert (nameKey name) (if flags.contains name then none else value) (bare items) := by
  induction items with
  | nil =>
    simp only [insert, bare, List.map_cons, List.map_nil]
    rw [show isFlag (nameKey name) = flags.contains name from isFlag_symbol ..]
    split <;> rfl
  | cons item items ih =>
    obtain ⟨key, old⟩ := item
    have kept : (if isFlag key then { key, value := none } else ({ key, value := old } : Attribute Node)).key =
        key := by
      split <;> rfl
    by_cases here : key.alike (nameKey name) = true
    · obtain ⟨span, rfl⟩ := alike_nameKey.mp here
      simp only [bare, insert, here, if_true, List.map_cons, isFlag_symbol] at kept ⊢
      rw [kept, if_pos here]
      split <;> rfl
    · simp only [bare, insert, List.map_cons, kept, here] at ih ⊢
      rw [← ih]
      rfl

theorem bare_ensureFlag (items : Attributes) {name : String} (flag : flags.contains name = true) (wanted : Bool) :
    bare (Outline.ensureFlag name wanted items) = Outline.ensureFlag name wanted (bare items) := by
  unfold Outline.ensureFlag
  rw [has_bare]
  split
  · rw [Attributes.flag, bare_insert, flag]
    rfl
  · rfl

/-- An inclusion adds its flags without values. -/
theorem bare_adjustAttributes (adjustment : Outline.Adjustment) (items : Attributes) :
    bare (Outline.adjustAttributes adjustment items) = Outline.adjustAttributes adjustment (bare items) := by
  unfold Outline.adjustAttributes
  dsimp only
  rw [bare_ensureFlag _ (by decide), bare_ensureFlag _ (by decide), has_bare]
  split
  · rfl
  · rw [Attributes.set, bare_insert]
    rfl

end Attributes

/-- A command of the builtin registry that has flags. -/
def Declaration.isFlagged (declaration : Declaration) : Bool :=
  Builtin.registry.declarations.contains declaration &&
    (0 < declaration.heading || declaration.name == Builtin.includeIdent)

namespace Builtin

/-- Neither output of a command with flags shows what attributes it has. -/
theorem flagged_lowering : ∀ declaration ∈ registry.declarations, declaration.isFlagged = true →
    (declaration.html = .heading ∨ declaration.html = .nothing) ∧
    (declaration.latex = .heading ∨ declaration.latex = .input) ∧ declaration.math = none := by
  decide +kernel

end Builtin

def flagsBare (declaration : Option Declaration) (attributes : Option Attributes) : Option Attributes :=
  if declaration.any Declaration.isFlagged then attributes.map Attributes.bare else attributes

mutual

/-- A node with the values of flags and the places of nodes left out. -/
def Node.bare : Node → Node
  | .hole => .hole
  | .text value _ => .text value {}
  | .symbol value _ => .symbol value {}
  | .ident ident => .ident { name := ident.name }
  | .stray token => .stray token.unplaced
  | .bracket block => .bracket (blockBare block)
  | .quotation opening closing children =>
    .quotation (opening.map Token.unplaced) (closing.map Token.unplaced) (bare children)
  | .fragment children => .fragment (bare children)
  | .drawing drawing => .drawing drawing
  | .tag ⟨ident, options, attributes, args, rules⟩ =>
    .tag ⟨{ name := ident.name }, optionsBare options, attributes, blocksBare args, rulesUnspanned rules⟩
  | .command ⟨ident, attributes, args, declaration, rules⟩ =>
    .command ⟨{ name := ident.name }, flagsBare declaration attributes, bare args, declaration, rulesUnspanned rules⟩
termination_by structural node => node

def bare : List Node → List Node
  | [] => []
  | node :: rest => node.bare :: bare rest
termination_by structural nodes => nodes

def blockBare : Block Node → Block Node
  | ⟨kind, opening, closing, children⟩ =>
    ⟨kind, opening.map Token.unplaced, closing.map Token.unplaced, bare children⟩
termination_by structural block => block

def optionsBare : Option (Block Node) → Option (Block Node)
  | none => none
  | some block => some (blockBare block)
termination_by structural options => options

def blocksBare : List (Block Node) → List (Block Node)
  | [] => []
  | block :: rest => blockBare block :: blocksBare rest
termination_by structural blocks => blocks

end

section Lists

theorem bare_eq_map (nodes : List Node) : bare nodes = nodes.map Node.bare := by
  induction nodes with
  | nil => rfl
  | cons node nodes ih => rw [bare, ih, List.map_cons]

@[simp] theorem bare_append (nodes others : List Node) : bare (nodes ++ others) = bare nodes ++ bare others := by
  simp only [bare_eq_map, List.map_append]

theorem flagsBare_getD (declaration : Option Declaration) (attributes : Option Attributes) :
    (flagsBare declaration attributes).getD [] = attributes.getD [] ∨
      (flagsBare declaration attributes).getD [] = Attributes.bare (attributes.getD []) := by
  unfold flagsBare
  split
  · right
    cases attributes <;> rfl
  · exact .inl rfl

/-- Whether there is a flag can still be told. -/
theorem flagsBare_has (declaration : Option Declaration) (attributes : Option Attributes) (name : String) :
    Attributes.has ((flagsBare declaration attributes).getD []) name = Attributes.has (attributes.getD []) name := by
  rcases flagsBare_getD declaration attributes with same | same <;> rw [same]
  exact Attributes.has_bare ..

theorem flagsBare_flagsBare (declaration : Option Declaration) (attributes : Option Attributes) :
    flagsBare declaration (flagsBare declaration attributes) = flagsBare declaration attributes := by
  unfold flagsBare
  split
  · rw [Option.map_map]
    exact congrArg (Option.map · attributes) (funext Attributes.bare_bare)
  · rfl

theorem flagsBare_value? (declaration : Option Declaration) (attributes : Option Attributes) (name : String)
    (other : Attributes.flags.contains name = false) :
    Attributes.value? ((flagsBare declaration attributes).getD []) name =
      Attributes.value? (attributes.getD []) name := by
  rcases flagsBare_getD declaration attributes with same | same <;> rw [same]
  exact Attributes.value?_bare _ other

end Lists

section Idempotent

mutual

theorem Node.unspanned_unspanned (node : Node) : node.unspanned.unspanned = node.unspanned := by
  match node with
  | .bracket block => rw [Node.unspanned, Node.unspanned, blockUnspanned_unspanned block]
  | .quotation opening closing children =>
    simp only [Node.unspanned, Manuscript.unspanned_unspanned children, Option.map_map]
    rfl
  | .fragment children => rw [Node.unspanned, Node.unspanned, Manuscript.unspanned_unspanned children]
  | .tag ⟨ident, options, attributes, args, rules⟩ =>
    simp only [Node.unspanned, optionsUnspanned_unspanned options, blocksUnspanned_unspanned args,
      rulesUnspanned_unspanned rules]
  | .command ⟨ident, attributes, args, declaration, rules⟩ =>
    simp only [Node.unspanned, Manuscript.unspanned_unspanned args, rulesUnspanned_unspanned rules]
  | .hole | .text _ _ | .symbol _ _ | .ident _ | .stray _ | .drawing _ => rfl
termination_by structural node

/-- Places are forgotten at once. -/
theorem unspanned_unspanned (nodes : List Node) : unspanned (unspanned nodes) = unspanned nodes := by
  match nodes with
  | [] => rfl
  | node :: rest => rw [unspanned, unspanned, Node.unspanned_unspanned node, unspanned_unspanned rest]
termination_by structural nodes

theorem blockUnspanned_unspanned (block : Block Node) :
    blockUnspanned (blockUnspanned block) = blockUnspanned block := by
  match block with
  | ⟨kind, opening, closing, children⟩ =>
    simp only [blockUnspanned, unspanned_unspanned children, Option.map_map]
    rfl
termination_by structural block

theorem optionsUnspanned_unspanned (options : Option (Block Node)) :
    optionsUnspanned (optionsUnspanned options) = optionsUnspanned options := by
  match options with
  | none => rfl
  | some block => rw [optionsUnspanned, optionsUnspanned, blockUnspanned_unspanned block]
termination_by structural options

theorem blocksUnspanned_unspanned (blocks : List (Block Node)) :
    blocksUnspanned (blocksUnspanned blocks) = blocksUnspanned blocks := by
  match blocks with
  | [] => rfl
  | block :: rest =>
    rw [blocksUnspanned, blocksUnspanned, blockUnspanned_unspanned block, blocksUnspanned_unspanned rest]
termination_by structural blocks

theorem rulesUnspanned_unspanned (rules : List (Rule Node)) :
    rulesUnspanned (rulesUnspanned rules) = rulesUnspanned rules := by
  match rules with
  | [] => rfl
  | ⟨pattern, target⟩ :: rest =>
    rw [rulesUnspanned, rulesUnspanned, unspanned_unspanned pattern, unspanned_unspanned target,
      rulesUnspanned_unspanned rest]
termination_by structural rules

end

end Idempotent

section Unspanned

mutual

theorem Node.bare_unspanned (node : Node) : node.unspanned.bare = node.bare := by
  match node with
  | .bracket block => rw [Node.unspanned, Node.bare, Node.bare, blockBare_unspanned block]
  | .quotation opening closing children =>
    simp only [Node.unspanned, Node.bare, Manuscript.bare_unspanned children, Option.map_map]
    rfl
  | .fragment children => rw [Node.unspanned, Node.bare, Node.bare, Manuscript.bare_unspanned children]
  | .tag ⟨ident, options, attributes, args, rules⟩ =>
    simp only [Node.unspanned, Node.bare, optionsBare_unspanned options, blocksBare_unspanned args,
      rulesUnspanned_unspanned]
  | .command ⟨ident, attributes, args, declaration, rules⟩ =>
    simp only [Node.unspanned, Node.bare, Manuscript.bare_unspanned args, rulesUnspanned_unspanned]
  | .hole | .text _ _ | .symbol _ _ | .ident _ | .stray _ | .drawing _ => rfl
termination_by structural node

theorem bare_unspanned (nodes : List Node) : bare (unspanned nodes) = bare nodes := by
  match nodes with
  | [] => rfl
  | node :: rest => rw [unspanned, bare, bare, Node.bare_unspanned node, bare_unspanned rest]
termination_by structural nodes

theorem blockBare_unspanned (block : Block Node) : blockBare (blockUnspanned block) = blockBare block := by
  match block with
  | ⟨kind, opening, closing, children⟩ =>
    simp only [blockUnspanned, blockBare, bare_unspanned children, Option.map_map]
    rfl
termination_by structural block

theorem optionsBare_unspanned (options : Option (Block Node)) :
    optionsBare (optionsUnspanned options) = optionsBare options := by
  match options with
  | none => rfl
  | some block => rw [optionsUnspanned, optionsBare, optionsBare, blockBare_unspanned block]
termination_by structural options

theorem blocksBare_unspanned (blocks : List (Block Node)) :
    blocksBare (blocksUnspanned blocks) = blocksBare blocks := by
  match blocks with
  | [] => rfl
  | block :: rest => rw [blocksUnspanned, blocksBare, blocksBare, blockBare_unspanned block, blocksBare_unspanned rest]
termination_by structural blocks

end

end Unspanned

section Read

mutual

theorem Node.flatten_bare (node : Node) : node.bare.flatten = node.flatten := by
  match node with
  | .bracket ⟨_, _, _, children⟩ =>
    simp only [Node.bare, blockBare, Node.flatten, textOf_unplaced, flatten_bare children]
  | .quotation _ _ children | .fragment children => exact flatten_bare children
  | .tag ⟨_, _, _, args, _⟩ => exact flattenBlocks_bare args
  | .command ⟨_, _, args, _, _⟩ => exact flattenBody_bare args
  | .hole | .text _ _ | .symbol _ _ | .ident _ | .stray _ | .drawing _ => rfl
termination_by structural node

theorem flatten_bare (nodes : List Node) : flatten (bare nodes) = flatten nodes := by
  match nodes with
  | [] => rfl
  | node :: rest => rw [bare, flatten, flatten, Node.flatten_bare node, flatten_bare rest]
termination_by structural nodes

theorem flattenBlocks_bare (blocks : List (Block Node)) : flattenBlocks (blocksBare blocks) = flattenBlocks blocks := by
  match blocks with
  | [] => rfl
  | ⟨_, _, _, children⟩ :: rest =>
    rw [blocksBare, blockBare, flattenBlocks, flattenBlocks, flatten_bare children, flattenBlocks_bare rest]
termination_by structural blocks

theorem flattenBody_bare (nodes : List Node) : flattenBody (bare nodes) = flattenBody nodes := by
  match nodes with
  | [] => rfl
  | .bracket ⟨kind, _, _, children⟩ :: rest =>
    cases kind <;>
      simp only [bare, Node.bare, blockBare, flattenBody, Node.flatten, textOf_unplaced, flatten_bare children,
        flattenBody_bare rest]
  | .quotation _ _ children :: rest | .fragment children :: rest =>
    simp only [bare, Node.bare, flattenBody, Node.flatten, flatten_bare children, flattenBody_bare rest]
  | .tag ⟨_, _, _, args, _⟩ :: rest =>
    simp only [bare, Node.bare, flattenBody, Node.flatten, flattenBlocks_bare args, flattenBody_bare rest]
  | .command ⟨_, _, args, _, _⟩ :: rest =>
    simp only [bare, Node.bare, flattenBody, Node.flatten, flattenBody_bare args, flattenBody_bare rest]
  | .hole :: rest | .text _ _ :: rest | .symbol _ _ :: rest | .ident _ :: rest | .stray _ :: rest
  | .drawing _ :: rest =>
    simp only [bare, Node.bare, Token.unplaced, flattenBody, Node.flatten, flattenBody_bare rest]
termination_by structural nodes

end

end Read

section Lowering

/-- A command that shows its attributes has no flags. -/
theorem flagsBare_shown {declaration : Option Declaration} (attributes : Option Attributes)
    (shown : (declaration.map Declaration.html).getD .element = .element ∨
      (declaration.map Declaration.latex).getD .invocation = .invocation) :
    flagsBare declaration attributes = attributes := by
  unfold flagsBare
  rw [if_neg]
  cases declaration with
  | none => exact Bool.false_ne_true
  | some declaration =>
    intro flagged
    have listed := List.contains_iff_mem.mp (Bool.and_eq_true_iff.mp flagged).1
    obtain ⟨html, latex, _⟩ := Builtin.flagged_lowering declaration listed flagged
    rcases shown with shown | shown
    · rcases html with own | own <;> cases own.symm.trans shown
    · rcases latex with own | own <;> cases own.symm.trans shown

end Lowering

section Latex

open Latex

theorem image_bare (declaration : Option Declaration) (attributes : Option Attributes) :
    Latex.image (flagsBare declaration attributes) = Latex.image attributes := by
  have read := flagsBare_value? declaration attributes
  have sized : ∀ key ∈ ["width", "height"], Attributes.flags.contains key = false := by decide
  have sizes : ["width", "height"].filterMap
        (fun key => (Attributes.value? ((flagsBare declaration attributes).getD []) key).map (key ++ "=" ++ ·)) =
      ["width", "height"].filterMap
        fun key => (Attributes.value? (attributes.getD []) key).map (key ++ "=" ++ ·) :=
    List.filterMap_congr fun key listed => by rw [read key (sized key listed)]
  unfold Latex.image attributeOf
  rw [sizes, read "src" (by decide)]

/-- A command is written the same if what is in it is. -/
theorem pieces_command {ident other : Ident} {attributes : Option Attributes} {args inner : List Node}
    {declaration : Option Declaration} {rules more : List (Rule Node)} (name : other.name = ident.name)
    (all : allPieces inner = allPieces args) (body : bodyPieces inner = bodyPieces args)
    (each : rows inner = rows args) :
    pieces (.command ⟨other, flagsBare declaration attributes, inner, declaration, more⟩) =
      pieces (.command ⟨ident, attributes, args, declaration, rules⟩) := by
  have read := flagsBare_value? declaration attributes
  unfold pieces
  rw [all, body, each, flagsBare_has, name, image_bare]
  split
  next lowering => rw [flagsBare_shown attributes (.inr lowering)]
  all_goals simp only [attributeOf, read "src" (by decide), read "href" (by decide)]

mutual

theorem pieces_bare (node : Node) : pieces node.bare = pieces node := by
  match node with
  | .bracket block => exact blockPieces_bare block
  | .quotation opening closing children =>
    simp only [Node.bare, pieces, allPieces_bare children, Option.isSome_map]
  | .fragment children => exact allPieces_bare children
  | .tag ⟨_, options, _, args, _⟩ =>
    simp only [Node.bare, pieces, optionPieces_bare options, blocksPieces_bare args]
  | .command ⟨_, _, args, _, _⟩ =>
    exact pieces_command rfl (allPieces_bare args) (bodyPieces_bare args) (rows_bare args)
  | .hole | .text _ _ | .symbol _ _ | .ident _ | .stray _ | .drawing _ => rfl
termination_by structural node

theorem allPieces_bare (nodes : List Node) : allPieces (bare nodes) = allPieces nodes := by
  match nodes with
  | [] => rfl
  | node :: rest => rw [bare, allPieces, allPieces, pieces_bare node, allPieces_bare rest]
termination_by structural nodes

theorem blockPieces_bare (block : Block Node) : blockPieces (blockBare block) = blockPieces block := by
  match block with
  | ⟨_, _, _, children⟩ => simp only [blockBare, blockPieces, textOf_unplaced, allPieces_bare children]
termination_by structural block

theorem optionPieces_bare (options : Option (Block Node)) :
    optionPieces (optionsBare options) = optionPieces options := by
  match options with
  | none => rfl
  | some block => exact blockPieces_bare block
termination_by structural options

theorem blocksPieces_bare (blocks : List (Block Node)) : blocksPieces (blocksBare blocks) = blocksPieces blocks := by
  match blocks with
  | [] => rfl
  | block :: rest => rw [blocksBare, blocksPieces, blocksPieces, blockPieces_bare block, blocksPieces_bare rest]
termination_by structural blocks

theorem bodyPieces_bare (nodes : List Node) : bodyPieces (bare nodes) = bodyPieces nodes := by
  match nodes with
  | [] => rfl
  | .bracket ⟨.curly, _, _, children⟩ :: rest =>
    exact congrArg₂ (· ++ ·) (allPieces_bare children) (bodyPieces_bare rest)
  | .bracket ⟨.square, opening, closing, children⟩ :: rest =>
    exact congrArg₂ (· ++ ·) (pieces_bare (.bracket ⟨.square, opening, closing, children⟩)) (bodyPieces_bare rest)
  | .bracket ⟨.round, opening, closing, children⟩ :: rest =>
    exact congrArg₂ (· ++ ·) (pieces_bare (.bracket ⟨.round, opening, closing, children⟩)) (bodyPieces_bare rest)
  | .hole :: rest | .text _ _ :: rest | .symbol _ _ :: rest | .ident _ :: rest | .stray _ :: rest
  | .quotation _ _ _ :: rest | .fragment _ :: rest | .drawing _ :: rest | .tag _ :: rest | .command _ :: rest =>
    exact congrArg₂ (· ++ ·) (pieces_bare _) (bodyPieces_bare rest)
termination_by structural nodes

theorem rows_bare (nodes : List Node) : rows (bare nodes) = rows nodes := by
  match nodes with
  | [] => rfl
  | .bracket ⟨.curly, _, _, children⟩ :: rest =>
    exact congrArg₂ (fun pieces rows => String.join pieces :: rows) (allPieces_bare children) (rows_bare rest)
  | .bracket ⟨.square, opening, closing, children⟩ :: rest =>
    exact congrArg₂ (fun pieces rows => String.join pieces :: rows)
      (pieces_bare (.bracket ⟨.square, opening, closing, children⟩)) (rows_bare rest)
  | .bracket ⟨.round, opening, closing, children⟩ :: rest =>
    exact congrArg₂ (fun pieces rows => String.join pieces :: rows)
      (pieces_bare (.bracket ⟨.round, opening, closing, children⟩)) (rows_bare rest)
  | .hole :: rest | .text _ _ :: rest | .symbol _ _ :: rest | .ident _ :: rest | .stray _ :: rest
  | .quotation _ _ _ :: rest | .fragment _ :: rest | .drawing _ :: rest | .tag _ :: rest | .command _ :: rest =>
    exact congrArg₂ (fun pieces rows => String.join pieces :: rows) (pieces_bare _) (rows_bare rest)
termination_by structural nodes

end

end Latex

section Html

open Html

/-- What two parts are drawn as, one after the other. -/
def inOrder (first later : Lower (List Html)) : Lower (List Html) := do pure ((← first) ++ (← later))

theorem htmlImage_bare (declaration : Option Declaration) (attributes : Option Attributes) (alt : String) :
    Html.image ((flagsBare declaration attributes).getD []) alt = Html.image (attributes.getD []) alt := by
  have read := flagsBare_value? declaration attributes
  unfold Html.image
  simp only [List.filterMap_cons, List.filterMap_nil, read "src" (by decide), read "width" (by decide),
    read "height" (by decide)]

theorem heading_bare (declaration : Option Declaration) (attributes : Option Attributes) (page : String) (level : Nat)
    (title : String) (children : List Html) :
    Html.heading page level ((flagsBare declaration attributes).getD []) title children =
      Html.heading page level (attributes.getD []) title children := by
  have read := flagsBare_value? declaration attributes
  unfold Html.heading
  simp only [flagsBare_has, read "source" (by decide)]

/-- A command is drawn the same if what is in it is. -/
theorem ofNode_command {page : String} {ident other : Ident} {attributes : Option Attributes} {args inner : List Node}
    {declaration : Option Declaration} {rules more : List (Rule Node)} (name : other.name = ident.name)
    (body : ofBody page inner = ofBody page args) (title : flattenBody inner = flattenBody args)
    (written : latexBody inner = latexBody args) :
    ofNode page (.command ⟨other, flagsBare declaration attributes, inner, declaration, more⟩) =
      ofNode page (.command ⟨ident, attributes, args, declaration, rules⟩) := by
  have read := flagsBare_value? declaration attributes
  have named : nameOf other = nameOf ident := by rw [nameOf, name, nameOf]
  unfold ofNode
  dsimp only
  rw [body, title, written, htmlImage_bare]
  split
  next lowering => rw [flagsBare_shown attributes (.inl lowering), named]
  all_goals simp only [heading_bare, Html.slot, read "href" (by decide), read "id" (by decide),
    read "display" (by decide)]

variable (page : String)

mutual

theorem ofNode_bare (node : Node) : ofNode page node.bare = ofNode page node := by
  match node with
  | .bracket block => exact ofBlock_bare block
  | .quotation opening closing children =>
    simp only [Node.bare, ofNode, ofNodes_bare children, Option.isSome_map]
  | .fragment children => exact ofNodes_bare children
  | .tag ⟨_, options, _, args, _⟩ => simp only [Node.bare, ofNode, ofOptions_bare options, ofBlocks_bare args]
  | .command ⟨_, _, args, _, _⟩ =>
    exact ofNode_command rfl (ofBody_bare args) (flattenBody_bare args) (congrArg String.join (bodyPieces_bare args))
  | .hole | .text _ _ | .symbol _ _ | .ident _ | .stray _ | .drawing _ => rfl
termination_by structural node

theorem ofNodes_bare (nodes : List Node) : ofNodes page (bare nodes) = ofNodes page nodes := by
  match nodes with
  | [] => rfl
  | node :: rest => rw [bare, ofNodes, ofNodes, ofNode_bare node, ofNodes_bare rest]
termination_by structural nodes

theorem ofBlock_bare (block : Block Node) : ofBlock page (blockBare block) = ofBlock page block := by
  match block with
  | ⟨_, _, _, children⟩ => simp only [blockBare, ofBlock, textOf_unplaced, ofNodes_bare children]
termination_by structural block

theorem ofOptions_bare (options : Option (Block Node)) :
    ofOptions page (optionsBare options) = ofOptions page options := by
  match options with
  | none => rfl
  | some block => exact ofBlock_bare block
termination_by structural options

theorem ofBlocks_bare (blocks : List (Block Node)) : ofBlocks page (blocksBare blocks) = ofBlocks page blocks := by
  match blocks with
  | [] => rfl
  | block :: rest => rw [blocksBare, ofBlocks, ofBlocks, ofBlock_bare block, ofBlocks_bare rest]
termination_by structural blocks

theorem ofBody_bare (nodes : List Node) : ofBody page (bare nodes) = ofBody page nodes := by
  match nodes with
  | [] => rfl
  | .bracket ⟨.curly, _, _, children⟩ :: rest =>
    rw [bare, Node.bare, blockBare, ofBody, ofBody, ofNodes_bare children, ofBody_bare rest]
  | .bracket ⟨.square, opening, closing, children⟩ :: rest =>
    exact congrArg₂ inOrder (ofNode_bare (.bracket ⟨.square, opening, closing, children⟩)) (ofBody_bare rest)
  | .bracket ⟨.round, opening, closing, children⟩ :: rest =>
    exact congrArg₂ inOrder (ofNode_bare (.bracket ⟨.round, opening, closing, children⟩)) (ofBody_bare rest)
  | .hole :: rest | .text _ _ :: rest | .symbol _ _ :: rest | .ident _ :: rest | .stray _ :: rest
  | .quotation _ _ _ :: rest | .fragment _ :: rest | .drawing _ :: rest | .tag _ :: rest | .command _ :: rest =>
    exact congrArg₂ inOrder (ofNode_bare _) (ofBody_bare rest)
termination_by structural nodes

end

end Html

section Idempotent

mutual

theorem Node.bare_bare (node : Node) : node.bare.bare = node.bare := by
  match node with
  | .bracket block => rw [Node.bare, Node.bare, blockBare_bare block]
  | .quotation opening closing children =>
    simp only [Node.bare, Manuscript.bare_bare children, Option.map_map]
    rfl
  | .fragment children => rw [Node.bare, Node.bare, Manuscript.bare_bare children]
  | .tag ⟨ident, options, attributes, args, rules⟩ =>
    simp only [Node.bare, optionsBare_bare options, blocksBare_bare args, rulesUnspanned_unspanned]
  | .command ⟨ident, attributes, args, declaration, rules⟩ =>
    simp only [Node.bare, flagsBare_flagsBare, Manuscript.bare_bare args, rulesUnspanned_unspanned]
  | .hole | .text _ _ | .symbol _ _ | .ident _ | .stray _ | .drawing _ => rfl
termination_by structural node

theorem bare_bare (nodes : List Node) : bare (bare nodes) = bare nodes := by
  match nodes with
  | [] => rfl
  | node :: rest => rw [bare, bare, Node.bare_bare node, bare_bare rest]
termination_by structural nodes

theorem blockBare_bare (block : Block Node) : blockBare (blockBare block) = blockBare block := by
  match block with
  | ⟨kind, opening, closing, children⟩ =>
    simp only [blockBare, bare_bare children, Option.map_map]
    rfl
termination_by structural block

theorem optionsBare_bare (options : Option (Block Node)) : optionsBare (optionsBare options) = optionsBare options := by
  match options with
  | none => rfl
  | some block => rw [optionsBare, optionsBare, blockBare_bare block]
termination_by structural options

theorem blocksBare_bare (blocks : List (Block Node)) : blocksBare (blocksBare blocks) = blocksBare blocks := by
  match blocks with
  | [] => rfl
  | block :: rest => rw [blocksBare, blocksBare, blockBare_bare block, blocksBare_bare rest]
termination_by structural blocks

end

end Idempotent

section Extract

open Formula

theorem slot_bare (span : Span) (id : String) (block : Bool) : (slot span id block).bare = slot {} id block := by
  unfold slot
  rw [Node.bare, flagsBare, if_neg (by decide +kernel)]
  rfl

theorem code_bare (spec : MathSpec) (args : List Node) : code spec (bare args) = code spec args := by
  unfold code latexBody
  rw [bodyPieces_bare]

theorem extractNode_formula (keep heading : Bool) (ident : Ident) (attributes : Option Attributes) (args : List Node)
    {declaration : Option Declaration} (rules : List (Rule Node)) {spec : MathSpec}
    (math : declaration.bind Declaration.math = some spec) (sheet : FormulaSheet) :
    (extractNode keep heading (.command ⟨ident, attributes, args, declaration, rules⟩)).run sheet =
      if keep then
        let added := sheet.add (code spec args) spec.block (spec.unique || heading)
        (slot ident.span added.1 spec.block, added.2)
      else (.fragment [], sheet) := by
  rw [extractNode, math]
  cases keep <;> rfl

theorem extractBlocks_cons (keep heading : Bool) (kind : BracketKind) (opening closing : Option Token)
    (children : List Node) (rest : List (Block Node)) (sheet : FormulaSheet) :
    (extractBlocks keep heading (⟨kind, opening, closing, children⟩ :: rest)).run sheet =
      let first := (extractNodes keep heading children).run sheet
      let later := (extractBlocks keep heading rest).run first.2
      (⟨kind, opening, closing, first.1⟩ :: later.1, later.2) := rfl

mutual

theorem extractNode_bare (keep heading : Bool) (node : Node) (sheet : FormulaSheet) :
    (extractNode keep heading node.bare).run sheet =
      (((extractNode keep heading node).run sheet).1.bare, ((extractNode keep heading node).run sheet).2) := by
  match node with
  | .command ⟨ident, attributes, args, declaration, rules⟩ =>
    cases math : declaration.bind Declaration.math with
    | some spec =>
      rw [Node.bare, extractNode_formula _ _ _ _ _ _ math, extractNode_formula _ _ _ _ _ _ math, code_bare]
      cases keep with
      | true => simp only [if_true, slot_bare]
      | false => rfl
    | none =>
      have inside := extractNodes_bare (keeps keep attributes declaration) (heading || isHeading declaration) args sheet
      rw [Node.bare, extractNode_plain _ _ _ _ _ _ math, extractNode_plain _ _ _ _ _ _ math]
      unfold keeps at inside ⊢
      rw [flagsBare_has, inside, Node.bare]
  | .bracket ⟨_, _, _, children⟩ =>
    exact congrArg (fun result => (Node.bracket ⟨_, _, _, result.1⟩, result.2))
      (extractNodes_bare keep heading children sheet)
  | .quotation _ _ children =>
    exact congrArg (fun result => (Node.quotation _ _ result.1, result.2))
      (extractNodes_bare keep heading children sheet)
  | .fragment children =>
    exact congrArg (fun result => (Node.fragment result.1, result.2)) (extractNodes_bare keep heading children sheet)
  | .tag ⟨_, _, _, args, _⟩ =>
    exact congrArg (fun result => (Node.tag ⟨_, _, _, result.1, _⟩, result.2))
      (extractBlocks_bare keep heading args sheet)
  | .hole | .text _ _ | .symbol _ _ | .ident _ | .stray _ | .drawing _ => rfl
termination_by structural node

theorem extractNodes_bare (keep heading : Bool) (nodes : List Node) (sheet : FormulaSheet) :
    (extractNodes keep heading (bare nodes)).run sheet =
      (bare ((extractNodes keep heading nodes).run sheet).1, ((extractNodes keep heading nodes).run sheet).2) := by
  match nodes with
  | [] => rfl
  | node :: rest =>
    rw [bare, extractNodes_cons, extractNodes_cons, extractNode_bare keep heading node]
    dsimp only
    rw [extractNodes_bare keep heading rest, bare]
termination_by structural nodes

theorem extractBlocks_bare (keep heading : Bool) (blocks : List (Block Node)) (sheet : FormulaSheet) :
    (extractBlocks keep heading (blocksBare blocks)).run sheet =
      (blocksBare ((extractBlocks keep heading blocks).run sheet).1,
        ((extractBlocks keep heading blocks).run sheet).2) := by
  match blocks with
  | [] => rfl
  | ⟨kind, opening, closing, children⟩ :: rest =>
    rw [blocksBare, blockBare, extractBlocks_cons, extractBlocks_cons, extractNodes_bare keep heading children]
    dsimp only
    rw [extractBlocks_bare keep heading rest, blocksBare, blockBare]
termination_by structural blocks

end

end Extract

section Adjust

open Outline

variable {adjustment : Adjustment}

theorem isFlagged_shifted (standard : adjustment.registry = Builtin.registry) {declaration heading : Declaration}
    (level : 0 < declaration.heading) (found : shifted adjustment declaration = some heading) :
    heading.isFlagged = true := by
  obtain ⟨listed, first⟩ := shifted_known standard found
  obtain ⟨other, same, shown⟩ := Builtin.first_heading
    (show 1 ≤ min (declaration.heading + adjustment.shift) 6 by omega) (Nat.min_le_right ..)
  obtain rfl : heading = other := Option.some.inj (first.symm.trans same)
  have headed : 0 < heading.heading := by omega
  rw [Declaration.isFlagged, List.contains_iff_mem.mpr (Builtin.mem_lookup.mp listed).1, decide_eq_true headed]
  rfl

/-- A heading is fitted into an outline the same way, whatever its flags say. -/
theorem flagsBare_adjust {declaration heading : Option Declaration} (attributes : Option Attributes)
    (kept : heading.any Declaration.isFlagged = true ∨ heading = declaration) :
    flagsBare heading (some (adjustAttributes adjustment ((flagsBare declaration attributes).getD []))) =
      flagsBare heading (some (adjustAttributes adjustment (attributes.getD []))) := by
  by_cases flagged : heading.any Declaration.isFlagged = true
  · have same : Attributes.bare ((flagsBare declaration attributes).getD []) =
        Attributes.bare (attributes.getD []) := by
      rcases flagsBare_getD declaration attributes with own | own <;> rw [own]
      exact Attributes.bare_bare _
    simp only [flagsBare, flagged, if_true, Option.map_some, Attributes.bare_adjustAttributes] at same ⊢
    rw [same]
  · obtain rfl := kept.resolve_left flagged
    rw [flagsBare, if_neg flagged, flagsBare, if_neg flagged, flagsBare, if_neg flagged]

theorem adjustHeading_bare (standard : adjustment.registry = Builtin.registry) (ident : Ident)
    (attributes : Option Attributes) (args : List Node) {declaration : Declaration} (rules : List (Rule Node))
    (level : 0 < declaration.heading) :
    (Node.command (adjustHeading adjustment ⟨{ name := ident.name }, flagsBare declaration attributes, bare args,
        declaration, rulesUnspanned rules⟩ declaration)).bare =
      (Node.command (adjustHeading adjustment ⟨ident, attributes, args, declaration, rules⟩ declaration)).bare := by
  unfold adjustHeading
  dsimp only
  split
  next heading found =>
    have flagged : (some heading).any Declaration.isFlagged = true := isFlagged_shifted standard level found
    simp only [Node.bare, bare_bare, rulesUnspanned_unspanned, flagsBare_adjust attributes (.inl flagged)]
  next =>
    simp only [Node.bare, bare_bare, rulesUnspanned_unspanned, flagsBare_adjust attributes (.inr rfl)]

mutual

theorem adjustNode_bare (standard : adjustment.registry = Builtin.registry) (node : Node) :
    (adjustNode adjustment node.bare).bare = (adjustNode adjustment node).bare := by
  match node with
  | .command ⟨ident, attributes, args, declaration, rules⟩ =>
    by_cases heads : Formula.isHeading declaration = true
    · cases declaration with
      | none => cases heads
      | some heading =>
        have level : 0 < heading.heading := by simpa [Formula.isHeading] using heads
        rw [Node.bare, adjustNode, adjustNode, if_pos level, if_pos level]
        exact adjustHeading_bare standard ident attributes args rules level
    · rw [Node.bare, adjustNode_plain _ _ _ _ _ heads, adjustNode_plain _ _ _ _ _ heads, Node.bare, Node.bare,
        adjust_bare standard args, flagsBare_flagsBare, rulesUnspanned_unspanned]
  | .bracket ⟨kind, opening, closing, children⟩ =>
    simp only [Node.bare, blockBare, adjustNode, adjust_bare standard children, Option.map_map]
    rfl
  | .quotation opening closing children =>
    simp only [Node.bare, adjustNode, adjust_bare standard children, Option.map_map]
    rfl
  | .fragment children => simp only [Node.bare, adjustNode, adjust_bare standard children]
  | .tag tag => exact Node.bare_bare (.tag tag)
  | .hole | .text _ _ | .symbol _ _ | .ident _ | .stray _ | .drawing _ => rfl
termination_by structural node

theorem adjust_bare (standard : adjustment.registry = Builtin.registry) (nodes : List Node) :
    bare (adjust adjustment (bare nodes)) = bare (adjust adjustment nodes) := by
  match nodes with
  | [] => rfl
  | node :: rest => exact congrArg₂ List.cons (adjustNode_bare standard node) (adjust_bare standard rest)
termination_by structural nodes

end

mutual

theorem collectNode_bare (node : Node) :
    (collectNode node.bare).map Node.command = bare ((collectNode node).map .command) := by
  match node with
  | .command ⟨ident, attributes, args, declaration, rules⟩ =>
    rw [Node.bare, collectNode, collectNode]
    split
    · rfl
    · exact collect_bare args
  | .bracket ⟨_, _, _, children⟩ | .quotation _ _ children | .fragment children => exact collect_bare children
  | .hole | .text _ _ | .symbol _ _ | .ident _ | .stray _ | .drawing _ | .tag _ => rfl
termination_by structural node

theorem collect_bare (nodes : List Node) :
    (collect (bare nodes)).map Node.command = bare ((collect nodes).map .command) := by
  match nodes with
  | [] => rfl
  | node :: rest =>
    rw [bare, collect, collect, List.map_append, List.map_append, bare_append, collectNode_bare node,
      collect_bare rest]
termination_by structural nodes

end

end Adjust

end Manuscript
