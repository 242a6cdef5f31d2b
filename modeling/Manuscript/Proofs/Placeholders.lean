import Manuscript.Html.Lower
import Manuscript.Proofs.Builtins

/-! Where formulas are typeset. A slot becomes an element of class `math` with the id of its formula, and no other
command of the builtin registry does, so the placeholders of a page are the slots that are drawn. Headings that are not
drawn hide what is inside them, and so do images. -/

namespace Manuscript

namespace Html

/-- The words of a class attribute. -/
def classes (attributes : List (String × String)) : List (List Char) :=
  ((attributes.lookup "class").getD "").toList.splitOnP fun c => decide (c ∈ [' ', '\t', '\n', '\r', '\x0c'])

/-- An element that a formula is shown in. -/
def isMath (name : String) (attributes : List (String × String)) : Bool :=
  (name == "span" || name == "div") && (classes attributes).contains "math".toList

mutual

/-- The ids of the elements that formulas are shown in. -/
def placeholders : Html → List String
  | .text _ => []
  | .element name attributes children =>
    (if isMath name attributes then (attributes.lookup "id").toList else []) ++ placeholdersOf children
termination_by structural html => html

def placeholdersOf : List Html → List String
  | [] => []
  | html :: rest => placeholders html ++ placeholdersOf rest
termination_by structural nodes => nodes

end

theorem placeholdersOf_append (nodes others : List Html) :
    placeholdersOf (nodes ++ others) = placeholdersOf nodes ++ placeholdersOf others := by
  induction nodes with
  | nil => rfl
  | cons html nodes ih => rw [List.cons_append, placeholdersOf, placeholdersOf, ih, List.append_assoc]

theorem placeholdersOf_element {name : String} (apart : name ≠ "span" ∧ name ≠ "div")
    (attributes : List (String × String)) (children : List Html) :
    placeholdersOf [.element name attributes children] = placeholdersOf children := by
  simp [placeholdersOf, placeholders, isMath, apart.1, apart.2]

end Html

/-- How a command is lowered, which is as an element if it has no declaration. -/
def Declaration.lowering (declaration : Option Declaration) : HtmlLowering :=
  (declaration.map Declaration.html).getD .element

/-- Whether what is inside a command is drawn. Only a page with a table of contents leaves out headings for it alone. -/
def drawsBody (toc : Bool) (attributes : Option Attributes) (declaration : Option Declaration) : Bool :=
  match Declaration.lowering declaration with
  | .element | .link | .item => true
  | .heading => !(toc && Attributes.has (attributes.getD []) "toc-only")
  | .image | .formula | .slot | .nothing => false

def slotIds (attributes : Option Attributes) (declaration : Option Declaration) : List String :=
  match Declaration.lowering declaration with
  | .slot => [(Attributes.value? (attributes.getD []) "id").getD ""]
  | _ => []

mutual

/-- The ids of the slots that are drawn. -/
def Node.slots (toc : Bool) : Node → List String
  | .command ⟨_, attributes, args, declaration, _⟩ =>
    slotIds attributes declaration ++ if drawsBody toc attributes declaration then slots toc args else []
  | .bracket block => blockSlots toc block
  | .quotation _ _ children => slots toc children
  | .fragment children => slots toc children
  | .tag ⟨_, options, _, args, _⟩ => optionsSlots toc options ++ blocksSlots toc args
  | _ => []
termination_by structural node => node

def slots (toc : Bool) : List Node → List String
  | [] => []
  | node :: rest => node.slots toc ++ slots toc rest
termination_by structural nodes => nodes

def blockSlots (toc : Bool) : Block Node → List String
  | ⟨_, _, _, children⟩ => slots toc children
termination_by structural block => block

def optionsSlots (toc : Bool) : Option (Block Node) → List String
  | none => []
  | some block => blockSlots toc block
termination_by structural options => options

def blocksSlots (toc : Bool) : List (Block Node) → List String
  | [] => []
  | block :: rest => blockSlots toc block ++ blocksSlots toc rest
termination_by structural blocks => blocks

end

namespace Html

open Builtin

/-- Leaves a table of contents where there was one, and nodes with these placeholders. -/
def Draws (toc : Bool) (lower : Lower (List Html)) (ids : List String) : Prop :=
  ∀ contents : Option Contents, contents.isSome = toc →
    (lower.run contents).2.isSome = toc ∧ placeholdersOf (lower.run contents).1 = ids

variable {toc : Bool}

theorem draws_pure {html : List Html} {ids : List String} (same : placeholdersOf html = ids) :
    Draws toc (pure html) ids := fun _ kept => ⟨kept, same⟩

theorem Draws.bind {lower : Lower (List Html)} {next : List Html → Lower (List Html)} {ids more : List String}
    (first : Draws toc lower ids) (second : ∀ html, placeholdersOf html = ids → Draws toc (next html) more) :
    Draws toc (lower >>= next) more := by
  intro contents kept
  obtain ⟨left, same⟩ := first contents kept
  exact second _ same _ left

theorem Draws.append {lower other : Lower (List Html)} {ids more : List String} (first : Draws toc lower ids)
    (second : Draws toc other more) :
    Draws toc (do
      let html ← lower
      pure (html ++ (← other))) (ids ++ more) := by
  refine first.bind fun html same => second.bind fun others alike => draws_pure ?_
  rw [placeholdersOf_append, same, alike]

/-- Puts the body of a command into an element that is no placeholder. -/
theorem Draws.element {lower : Lower (List Html)} {ids : List String} (inside : Draws toc lower ids) {name : String}
    (apart : name ≠ "span" ∧ name ≠ "div") (attributes : List (String × String)) :
    Draws toc (do pure [.element name attributes (← lower)]) ids :=
  inside.bind fun html same => draws_pure (by rw [placeholdersOf_element apart, same])

theorem headingName_apart (level : Nat) : "h" ++ toString level ≠ "span" ∧ "h" ++ toString level ≠ "div" := by
  have start : ("h" ++ toString level).toList.head? = some 'h' := by rw [String.toList_append]; rfl
  constructor
  · intro same
    rw [same] at start
    revert start
    decide
  · intro same
    rw [same] at start
    revert start
    decide

theorem heading_draws (page : String) (level : Nat) (attributes : Attributes) (title : String) (children : List Html) :
    Draws toc (heading page level attributes title children)
      (if !(toc && Attributes.has attributes "toc-only") then placeholdersOf children else []) := by
  intro contents kept
  cases contents with
  | none =>
    cases kept
    exact ⟨rfl, placeholdersOf_element (headingName_apart level) [] children⟩
  | some contents =>
    cases kept
    refine ⟨rfl, ?_⟩
    by_cases only : Attributes.has attributes "toc-only" = true
    · simp [StateT.run, heading, only, placeholdersOf]
    · simp only [StateT.run, heading, only, Option.isSome_some, Bool.true_and, Bool.not_false, if_true]
      exact (placeholdersOf_element (headingName_apart level) _ _).trans (placeholdersOf_element (by decide) _ _)

theorem elementName_apart : ∀ declaration ∈ registry.declarations, declaration.html = .element →
    nameOf ⟨declaration.name, {}⟩ ≠ "span" ∧ nameOf ⟨declaration.name, {}⟩ ≠ "div" := by
  decide +kernel

theorem nameOf_apart {known : Bool} {ident : Ident} {attributes : Option Attributes} {declaration : Option Declaration}
    (own : Known known ident attributes declaration) (element : Declaration.lowering declaration = .element) :
    nameOf ident ≠ "span" ∧ nameOf ident ≠ "div" := by
  rcases own with ⟨_, rfl⟩ | ⟨found, listed, rfl⟩
  · cases element
  · obtain ⟨member, named⟩ := mem_lookup.mp listed
    have spelled : nameOf ident = nameOf ⟨found.name, {}⟩ := by rw [named]; rfl
    rw [spelled]
    exact elementName_apart found member element

theorem slot_classes (id display : String) :
    (classes [("id", id), ("class", "math math-" ++ display)]).contains "math".toList = true := by
  have found : List.lookup "class" [("id", id), ("class", "math math-" ++ display)] =
      some ("math math-" ++ display) := rfl
  have start : "math math-".toList = ['m', 'a', 't', 'h', ' ', 'm', 'a', 't', 'h', '-'] := rfl
  rw [classes, found, Option.getD_some, String.toList_append, start]
  simp [List.splitOnP_cons_eq_if_modifyHead]

theorem slot_draws (attributes : Attributes) :
    placeholdersOf [slot attributes] = [(Attributes.value? attributes "id").getD ""] := by
  unfold slot
  dsimp only
  split
  · rw [placeholdersOf, placeholders, isMath, slot_classes]
    rfl
  · rw [placeholdersOf, placeholders, isMath, slot_classes]
    rfl

theorem formula_draws (block : Bool) (source : String) : placeholdersOf [formula block source] = [] := by
  cases block <;> simp [formula, placeholdersOf, placeholders]

mutual

theorem ofNode_draws {known : Bool} (page : String) (node : Node) (declared : node.Declared (Known known)) :
    Draws toc (ofNode page node) (node.slots toc) := by
  match node with
  | .hole | .text _ _ | .symbol _ _ | .ident _ | .stray _ => exact draws_pure rfl
  | .drawing drawing =>
    refine draws_pure ?_
    simp [picture, placeholdersOf, placeholders, isMath, Node.slots]
  | .bracket block => exact ofBlock_draws page block declared
  | .quotation opening closing children =>
    refine (ofNodes_draws page children declared).bind fun html same => draws_pure ?_
    have marks : placeholdersOf (if closing.isSome then [.text "”"] else []) = [] := by split <;> rfl
    rw [placeholdersOf_append, placeholdersOf_append, same, marks, List.append_nil]
    rfl
  | .fragment children => exact ofNodes_draws page children declared
  | .tag ⟨ident, options, attributes, args, rules⟩ =>
    obtain ⟨optional, blocks, _⟩ := declared
    refine (ofOptions_draws page options optional).bind fun html same => ?_
    refine (ofBlocks_draws page args blocks).bind fun others alike => draws_pure ?_
    rw [placeholdersOf_append, placeholdersOf_append, same, alike]
    rfl
  | .command ⟨ident, attributes, args, declaration, rules⟩ =>
    obtain ⟨own, inside, _⟩ := declared
    have body := ofBody_draws page args inside
    unfold ofNode Node.slots slotIds drawsBody
    obtain ⟨lowering, lowered⟩ : ∃ lowering, Declaration.lowering declaration = lowering := ⟨_, rfl⟩
    have shape : (declaration.map Declaration.html).getD .element = lowering := lowered
    simp only [lowered, shape]
    cases lowering with
    | element => exact body.element (nameOf_apart own lowered) _
    | heading => exact body.bind fun html same => same ▸ heading_draws page _ _ _ html
    | link => exact body.element (by decide) _
    | image => exact draws_pure (placeholdersOf_element (by decide) _ _)
    | item => exact body.element (by decide) _
    | formula => exact draws_pure (formula_draws _ _)
    | slot => exact draws_pure (slot_draws _)
    | nothing => exact draws_pure rfl
termination_by structural node

theorem ofNodes_draws {known : Bool} (page : String) (nodes : List Node) (declared : Declared (Known known) nodes) :
    Draws toc (ofNodes page nodes) (slots toc nodes) := by
  match nodes with
  | [] => exact draws_pure rfl
  | node :: rest => exact (ofNode_draws page node declared.1).append (ofNodes_draws page rest declared.2)
termination_by structural nodes

theorem ofBlock_draws {known : Bool} (page : String) (block : Block Node) (declared : BlockDeclared (Known known) block) :
    Draws toc (ofBlock page block) (blockSlots toc block) := by
  match block with
  | ⟨kind, opening, closing, children⟩ =>
    have bare (word : String) : placeholdersOf (shownText word) = [] := by
      unfold shownText
      split <;> rfl
    refine (ofNodes_draws page children declared).bind fun html same => draws_pure ?_
    rw [placeholdersOf_append, placeholdersOf_append, bare, bare, same, List.append_nil, List.nil_append]
    rfl
termination_by structural block

theorem ofOptions_draws (page : String) (options : Option (Block Node))
    (unresolved : OptionsUnresolved (fun _ => True) options) :
    Draws toc (ofOptions page options) (optionsSlots toc options) := by
  match options with
  | none => exact draws_pure rfl
  | some block => exact @ofBlock_draws false page block (blockDeclared_of_unresolved block unresolved)
termination_by structural options

theorem ofBlocks_draws {known : Bool} (page : String) (blocks : List (Block Node))
    (declared : BlocksDeclared (Known known) blocks) : Draws toc (ofBlocks page blocks) (blocksSlots toc blocks) := by
  match blocks with
  | [] => exact draws_pure rfl
  | block :: rest => exact (ofBlock_draws page block declared.1).append (ofBlocks_draws page rest declared.2)
termination_by structural blocks

theorem ofBody_draws {known : Bool} (page : String) (nodes : List Node) (declared : Declared (Known known) nodes) :
    Draws toc (ofBody page nodes) (slots toc nodes) := by
  match nodes with
  | [] => exact draws_pure rfl
  | .bracket ⟨.curly, opening, closing, children⟩ :: rest =>
    rw [ofBody]
    exact (ofNodes_draws page children declared.1).append (ofBody_draws page rest declared.2)
  | .bracket ⟨.square, _, _, _⟩ :: rest | .bracket ⟨.round, _, _, _⟩ :: rest | .hole :: rest | .text _ _ :: rest
  | .symbol _ _ :: rest | .ident _ :: rest | .stray _ :: rest | .quotation _ _ _ :: rest | .fragment _ :: rest
  | .drawing _ :: rest | .tag _ :: rest | .command _ :: rest =>
    exact (ofNode_draws page _ declared.1).append (ofBody_draws page rest declared.2)
termination_by structural nodes

end

end Html
end Manuscript
