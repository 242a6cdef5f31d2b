import Manuscript.Proofs.EntryPoints

/-! Other names for the files that headings come from. An inclusion names its file in the headings that it brings in and
nowhere else, so a compilation that calls files by other names gives the same document but for these names. -/

namespace Manuscript

namespace Attributes

theorem insert_insert (key : Node) (value more : Option Node) (items : Attributes) :
    insert key more (insert key value items) = insert key more items := by
  have self : key.alike key = true := Node.alike_equivalence.refl key
  induction items with
  | nil => simp [insert, self]
  | cons item items ih =>
    by_cases here : item.key.alike key = true
    · simp [insert, here]
    · simp [insert, here, ih]

theorem set_set (items : Attributes) (name value more : String) :
    set (set items name value) name more = set items name more :=
  insert_insert ..

theorem insert_comm {name other : String} (apart : name ≠ other) {items : Attributes} (has : has items name = true)
    (value more : Option Node) : insert (nameKey other) more (insert (nameKey name) value items) =
      insert (nameKey name) value (insert (nameKey other) more items) := by
  induction items with
  | nil => cases has
  | cons item items ih =>
    obtain ⟨key, old⟩ := item
    by_cases here : key.alike (nameKey name) = true
    · obtain ⟨span, rfl⟩ := alike_nameKey.mp here
      have away : (Node.symbol name span).alike (nameKey other) = false := beq_false_of_ne apart
      simp [insert, here, away]
    · have further : Attributes.has items name = true := by
        simpa [Attributes.has, find?, here] using has
      by_cases there : key.alike (nameKey other) = true
      · simp [insert, here, there]
      · simp [insert, here, there, ih further]

end Attributes

namespace Outline

theorem ensureFlag_set {name flag : String} (apart : name ≠ flag) (wanted : Bool) {items : Attributes}
    (has : Attributes.has items name = true) (value : String) :
    ensureFlag flag wanted (Attributes.set items name value) =
      Attributes.set (ensureFlag flag wanted items) name value := by
  unfold ensureFlag
  rw [Attributes.has_set, beq_false_of_ne apart, Bool.false_or]
  split
  · exact Attributes.insert_comm apart has ..
  · rfl

/-- Fitting a heading into an outline leaves a source that it names itself, whatever that is. -/
theorem adjustAttributes_set (adjustment : Adjustment) {items : Attributes} (has : Attributes.has items "source" = true)
    (value : String) : adjustAttributes adjustment (Attributes.set items "source" value) =
      Attributes.set (adjustAttributes adjustment items) "source" value := by
  have still : Attributes.has (Attributes.set items "source" value) "source" = true := by
    rw [Attributes.has_set, beq_self_eq_true, Bool.true_or]
  have flagged : Attributes.has (ensureFlag "toc-only" adjustment.tocOnly items) "source" = true := by
    rw [ensureFlag_has, has, Bool.true_or]
  unfold adjustAttributes
  simp only [has, still, if_true]
  rw [ensureFlag_set (by decide) _ has, ensureFlag_set (by decide) _ flagged]

theorem adjustAttributes_fresh (adjustment : Adjustment) {items : Attributes}
    (fresh : Attributes.has items "source" = false) (source other : String) :
    adjustAttributes { adjustment with source := other } items =
      Attributes.set (adjustAttributes { adjustment with source } items) "source" other := by
  have named (name : String) : Attributes.has (Attributes.set items "source" name) "source" = true := by
    rw [Attributes.has_set, beq_self_eq_true, Bool.true_or]
  have first (name : String) : adjustAttributes { adjustment with source := name } items =
      adjustAttributes adjustment (Attributes.set items "source" name) := by
    unfold adjustAttributes
    simp only [fresh, named, Bool.false_eq_true, if_false, if_true]
  rw [first other, first source, ← adjustAttributes_set adjustment (named source), Attributes.set_set]

/-- The same attributes, or the same but for a source that has another name. -/
def Renamed (name : String → String) (attributes others : Option Attributes) : Prop :=
  others = attributes ∨ ∃ source, Attributes.value? (attributes.getD []) "source" = some source ∧
    others = some (Attributes.set (attributes.getD []) "source" (name source))

theorem Renamed.adjust {name : String → String} {attributes others : Option Attributes}
    (renamed : Renamed name attributes others) (adjustment : Adjustment) (source : String) :
    Renamed name (some (adjustAttributes { adjustment with source } (attributes.getD [])))
      (some (adjustAttributes { adjustment with source := name source } (others.getD []))) := by
  have said := adjustAttributes_source { adjustment with source } (attributes.getD [])
  rcases renamed with rfl | ⟨old, given, rfl⟩
  · cases own : Attributes.has (others.getD []) "source" with
    | true =>
      left
      simp only [adjustAttributes, own, if_true]
    | false =>
      right
      have none := own
      rw [Attributes.has_iff_value?, Option.isSome_eq_false_iff, Option.isNone_iff_eq_none] at none
      rw [none, Option.none_or] at said
      exact ⟨source, said, congrArg some (adjustAttributes_fresh adjustment own source (name source))⟩
  · right
    have own : Attributes.has (attributes.getD []) "source" = true := by rw [Attributes.has_iff_value?, given]; rfl
    rw [given, Option.some_or] at said
    refine ⟨old, said, ?_⟩
    rw [Option.getD_some, adjustAttributes_set _ own]
    simp only [Option.getD_some, adjustAttributes, own, if_true]

theorem Renamed.has {name : String → String} {attributes others : Option Attributes}
    (renamed : Renamed name attributes others) {other : String} (apart : "source" ≠ other) :
    Attributes.has (others.getD []) other = Attributes.has (attributes.getD []) other := by
  rcases renamed with rfl | ⟨source, _, rfl⟩
  · rfl
  · rw [Option.getD_some, Attributes.has_set, beq_false_of_ne apart, Bool.false_or]

/-- The same changes to headings, with another name for the file that they come from. -/
def Adjustment.naming (adjustment : Adjustment) (name : String → String) : Adjustment :=
  { adjustment with source := name adjustment.source }

theorem Adjustment.naming_id (adjustment : Adjustment) : adjustment.naming id = adjustment := rfl

open Formula

/-- The same trees but for the sources of commands, which have other names, and the ids of slots. -/
inductive Renames (name : String → String) : List Node → List Node → Prop where
  | nil : Renames name [] []
  | leaf {node : Node} {nodes left : List Node} (plain : isLeaf node = true) (later : Renames name nodes left) :
      Renames name (node :: nodes) (node :: left)
  | command {ident : Ident} {attributes others : Option Attributes} {args inner : List Node}
      {declaration : Option Declaration} {rules : List (Rule Node)} {nodes left : List Node}
      (own : Renamed name attributes others) (inside : Renames name args inner) (later : Renames name nodes left) :
      Renames name (.command ⟨ident, attributes, args, declaration, rules⟩ :: nodes)
        (.command ⟨ident, others, inner, declaration, rules⟩ :: left)
  | bracket {kind : BracketKind} {opening closing : Option Token} {children inner nodes left : List Node}
      (inside : Renames name children inner) (later : Renames name nodes left) :
      Renames name (.bracket ⟨kind, opening, closing, children⟩ :: nodes)
        (.bracket ⟨kind, opening, closing, inner⟩ :: left)
  | quotation {opening closing : Option Token} {children inner nodes left : List Node}
      (inside : Renames name children inner) (later : Renames name nodes left) :
      Renames name (.quotation opening closing children :: nodes) (.quotation opening closing inner :: left)
  | fragment {children inner nodes left : List Node} (inside : Renames name children inner)
      (later : Renames name nodes left) : Renames name (.fragment children :: nodes) (.fragment inner :: left)
  | tag {ident : Ident} {options : Option (Block Node)} {attributes : Option Attributes}
      {args inner : List (Block Node)} {rules : List (Rule Node)} {nodes left : List Node}
      (inside : Renames name (args.map .bracket) (inner.map .bracket)) (later : Renames name nodes left) :
      Renames name (.tag ⟨ident, options, attributes, args, rules⟩ :: nodes)
        (.tag ⟨ident, options, attributes, inner, rules⟩ :: left)
  | slot {span : Span} {id other : String} {block : Bool} {nodes left : List Node} (later : Renames name nodes left) :
      Renames name (slot span id block :: nodes) (slot span other block :: left)

mutual

theorem renames_node (name : String → String) (node : Node) {nodes left : List Node} (later : Renames name nodes left) :
    Renames name (node :: nodes) (node :: left) := by
  match node with
  | .command ⟨_, _, args, _, _⟩ => exact .command (.inl rfl) (renames_self name args) later
  | .bracket ⟨_, _, _, children⟩ => exact .bracket (renames_self name children) later
  | .quotation _ _ children => exact .quotation (renames_self name children) later
  | .fragment children => exact .fragment (renames_self name children) later
  | .tag ⟨_, _, _, args, _⟩ => exact .tag (renames_blocks name args) later
  | .hole | .text _ _ | .symbol _ _ | .ident _ | .stray _ | .drawing _ => exact .leaf rfl later
termination_by structural node

theorem renames_self (name : String → String) (nodes : List Node) : Renames name nodes nodes := by
  match nodes with
  | [] => exact .nil
  | node :: rest => exact renames_node name node (renames_self name rest)
termination_by structural nodes

theorem renames_blocks (name : String → String) (blocks : List (Block Node)) :
    Renames name (blocks.map .bracket) (blocks.map .bracket) := by
  match blocks with
  | [] => exact .nil
  | ⟨_, _, _, children⟩ :: rest => exact .bracket (renames_self name children) (renames_blocks name rest)
termination_by structural blocks

end

namespace Renames

variable {name : String → String} {nodes left : List Node}

theorem append (renames : Renames name nodes left) {others more : List Node} (further : Renames name others more) :
    Renames name (nodes ++ others) (left ++ more) := by
  induction renames with
  | nil => exact further
  | leaf plain _ later => exact .leaf plain later
  | command own inside _ _ later => exact .command own inside later
  | bracket inside _ _ later => exact .bracket inside later
  | quotation inside _ _ later => exact .quotation inside later
  | fragment inside _ _ later => exact .fragment inside later
  | tag inside _ _ later => exact .tag inside later
  | slot _ later => exact .slot later

/-- An inclusion that calls its file by another name adds that name. -/
theorem adjust (renames : Renames name nodes left) (adjustment : Adjustment) (source : String) :
    Renames name (Outline.adjust { adjustment with source } nodes)
      (Outline.adjust { adjustment with source := name source } left) := by
  induction renames with
  | nil => exact .nil
  | @leaf node _ _ plain _ later =>
    have same (adjustment : Adjustment) : Outline.adjustNode adjustment node = node := by
      cases node <;> first | rfl | cases plain
    rw [Outline.adjust, Outline.adjust, same, same]
    exact .leaf plain later
  | @command ident attributes others args inner declaration rules _ _ own within _ inside later =>
    rw [Outline.adjust, Outline.adjust]
    by_cases heads : isHeading declaration = true
    · cases declaration with
      | none => cases heads
      | some heading =>
        have level : 0 < heading.heading := by simpa [isHeading] using heads
        have same : shifted { adjustment with source := name source } heading =
          shifted { adjustment with source } heading := rfl
        rw [Outline.adjustNode, Outline.adjustNode, if_pos level, if_pos level]
        unfold Outline.adjustHeading
        rw [same]
        dsimp only
        split <;> exact .command (own.adjust adjustment source) within later
    · rw [adjustNode_plain _ ident attributes args rules heads, adjustNode_plain _ ident others inner rules heads]
      exact .command own inside later
  | bracket _ _ inside later => exact .bracket inside later
  | quotation _ _ inside later => exact .quotation inside later
  | fragment _ _ inside later => exact .fragment inside later
  | tag within _ _ later => exact .tag within later
  | slot _ later => exact .slot later

theorem extract (renames : Renames name nodes left) (keep heading : Bool) (sheet twin : FormulaSheet) :
    Renames name ((extractNodes keep heading nodes).run sheet).1 ((extractNodes keep heading left).run twin).1 := by
  induction renames generalizing keep heading sheet twin with
  | nil => exact .nil
  | @leaf node _ _ plain _ later =>
    have same (sheet : FormulaSheet) : (extractNode keep heading node).run sheet = (node, sheet) := by
      cases node <;> first | rfl | cases plain
    rw [extractNodes_cons, extractNodes_cons, same, same]
    exact .leaf plain (later _ _ _ _)
  | @command ident attributes others args inner declaration rules _ _ own _ _ inside later =>
    rw [extractNodes_cons, extractNodes_cons]
    cases math : declaration.bind Declaration.math with
    | some spec =>
      rw [extractNode, extractNode, math]
      cases keep with
      | true => exact .slot (later _ _ _ _)
      | false => exact .fragment .nil (later _ _ _ _)
    | none =>
      have flagged := own.has (show "source" ≠ "toc-only" by decide)
      rw [extractNode_plain keep heading ident attributes args rules math,
        extractNode_plain keep heading ident others inner rules math]
      refine .command own ?_ (later _ _ _ _)
      unfold keeps
      rw [flagged]
      exact inside _ _ _ _
  | bracket _ _ inside later => exact .bracket (inside _ _ _ _) (later _ _ _ _)
  | quotation _ _ inside later => exact .quotation (inside _ _ _ _) (later _ _ _ _)
  | fragment _ _ inside later => exact .fragment (inside _ _ _ _) (later _ _ _ _)
  | tag _ _ inside later =>
    have placed := inside keep heading sheet twin
    rw [extractBlocks_brackets, extractBlocks_brackets] at placed
    exact .tag placed (later _ _ _ _)
  | slot _ later => exact .slot (later _ _ _ _)

theorem collect (renames : Renames name nodes left) :
    Renames name ((Outline.collect nodes).map .command) ((Outline.collect left).map .command) := by
  induction renames with
  | nil => exact .nil
  | @leaf node _ _ plain _ later =>
    have none : collectNode node = [] := by cases node <;> first | rfl | cases plain
    rw [Outline.collect, Outline.collect, none]
    exact later
  | command own within _ inside later =>
    rw [Outline.collect, Outline.collect, List.map_append, List.map_append, collectNode, collectNode]
    split
    · exact .command own within later
    · exact inside.append later
  | bracket _ _ inside later | quotation _ _ inside later | fragment _ _ inside later =>
    rw [Outline.collect, Outline.collect, List.map_append, List.map_append]
    exact inside.append later
  | tag _ _ _ later => exact later
  | slot _ later => exact later

end Renames

end Outline

namespace Compiler

open Compile Outline

/-- What is made of a loaded file in the place of its inclusion, where headings get another name for it. -/
def placeNaming (compiler : Compiler) (name : String → String) (inclusion : Command Node → Expand (List Node))
    (path : String) (extract : Bool) (command : Command Node) (sheet : FormulaSheet) (nodes : List Node) :
    Compile (List Node × FormulaSheet) :=
  if Path.ext (target path command) ≠ sourceExt then do pure (← compiler.splice path nodes command.rules, sheet)
  else do
    let expanded ← (expandNodes inclusion nodes).run sheet.successor
    pure (conclude ((compiler.adjustment (target path command) command).naming name) extract sheet expanded)

/-- Inclusion with other names for the files that headings come from. -/
def includeNaming (compiler : Compiler) (name : String → String) : (depth : Nat) → (path : String) →
    (chain : List String) → (extract : Bool) → Command Node → Expand (List Node)
  | 0, _, _, _, _ => throw .tooDeep
  | depth + 1, path, chain, extract, command => fun sheet =>
    let target := target path command
    let extract := extract && !command.hasAttribute "toc-only"
    let inclusion := compiler.includeNaming name depth target (chain ++ [target]) extract
    if chain.contains target then throw (.including target .includeCycle)
    else compiler.fetch path target >>= compiler.placeNaming name inclusion path extract command sheet

/-- Compilation of a file with such inclusion. -/
def compileNaming (compiler : Compiler) (name : String → String) (path : String) (extract : Bool) : Compile Document :=
  let path := Path.clean path
  tryCatch (do
    let nodes ← compiler.load path
    let inclusion := compiler.includeNaming name compiler.limit path [path] extract
    let (nodes, sheet) ← (expandNodes inclusion nodes).run {}
    pure ⟨path, (finished extract nodes sheet).1, (finished extract nodes sheet).2⟩)
    fun failure => throw (.compiling path failure)

theorem includeNaming_run (compiler : Compiler) (name : String → String) (depth : Nat) (path : String)
    (chain : List String) (extract : Bool) (command : Command Node) (sheet : FormulaSheet) :
    (compiler.includeNaming name (depth + 1) path chain extract command).run sheet =
      if chain.contains (target path command) then throw (.including (target path command) .includeCycle)
      else compiler.fetch path (target path command) >>= compiler.placeNaming name
        (compiler.includeNaming name depth (target path command) (chain ++ [target path command])
          (extract && !command.hasAttribute "toc-only"))
        path (extract && !command.hasAttribute "toc-only") command sheet := rfl

theorem includeFile_eq_includeNaming (compiler : Compiler) (depth : Nat) :
    compiler.includeFile depth = compiler.includeNaming id depth := by
  induction depth with
  | zero => rfl
  | succ depth ih =>
    funext path chain extract command sheet
    show (compiler.includeFile (depth + 1) path chain extract command).run sheet =
      (compiler.includeNaming id (depth + 1) path chain extract command).run sheet
    rw [includeFile_run, includeNaming_run]
    split
    · rfl
    · apply bind_congr
      intro nodes
      have shown : (compiler.adjustment (target path command) command).tocOnly = command.hasAttribute "toc-only" := rfl
      unfold place placeNaming nested
      simp only [ih, shown, Adjustment.naming_id]

/-- Compilation calls files by their own names. -/
theorem compileFile_eq_compileNaming (compiler : Compiler) (path : String) (extract : Bool) :
    compiler.compileFile path extract = compiler.compileNaming id path extract := by
  unfold compileFile compileNaming finish
  rw [includeFile_eq_includeNaming]
  refine congrArg (fun body => tryCatch body _) ?_
  apply bind_congr
  intro nodes
  apply bind_congr
  intro expanded
  unfold finished
  cases extract <;> rfl

/-- A relation between trees, and one between sheets, that compilations keep when they call files by names of which one
has to do with the other. -/
structure Rendition (place : String → String → Prop) (related : List Node → List Node → Prop)
    (sheets : FormulaSheet → FormulaSheet → Prop) : Prop where
  congruence : Congruence (fun _ _ _ => True) related
  self : ∀ nodes, related nodes nodes
  empty : sheets {} {}
  successor : ∀ {sheet twin : FormulaSheet}, sheets sheet twin → sheets sheet.successor twin.successor
  conclude : ∀ {adjustment other : Adjustment} {sheet twin : FormulaSheet} {expanded left : List Node × FormulaSheet}
    (extract : Bool), other = { adjustment with source := other.source } → place adjustment.source other.source →
    sheets sheet twin → Both related sheets expanded left →
    Both related sheets (Compiler.conclude adjustment extract sheet expanded)
      (Compiler.conclude other extract twin left)
  finished : ∀ {nodes left : List Node} {sheet twin : FormulaSheet} (extract : Bool), related nodes left →
    sheets sheet twin →
    Both related sheets (Compiler.finished extract nodes sheet) (Compiler.finished extract left twin)

theorem rendition_eq : Rendition Eq Eq Eq where
  congruence := by
    constructor
    all_goals intros; simp_all
  self _ := rfl
  empty := rfl
  successor same := congrArg _ same
  conclude := by
    rintro adjustment other sheet _ ⟨nodes, inner⟩ ⟨_, _⟩ extract same named rfl ⟨rfl, rfl⟩
    obtain rfl : other = adjustment := by rw [same, ← named]
    exact ⟨rfl, rfl⟩
  finished := by
    rintro nodes _ sheet _ extract rfl rfl
    exact ⟨rfl, rfl⟩

theorem congruence_renames (name : String → String) : Congruence (fun _ _ _ => True) (Renames name) where
  nil := .nil
  passed := by
    intro node rest left plain _ later
    exact renames_node name node later
  command _ _ inside later := .command (.inl rfl) inside later
  bracket inside later := .bracket inside later
  quotation inside later := .quotation inside later
  fragment inside later := .fragment inside later

theorem rendition_renames (name : String → String) :
    Rendition (fun source other => other = name source) (Renames name) fun _ _ => True where
  congruence := congruence_renames name
  self := renames_self name
  empty := trivial
  successor _ := trivial
  conclude := by
    rintro adjustment other sheet twin expanded left extract same named _ ⟨renames, _⟩
    have adjusted := renames.adjust adjustment adjustment.source
    rw [← named, ← same] at adjusted
    have alike : other.tocOnly = adjustment.tocOnly := by rw [same]
    unfold Compiler.conclude
    rw [alike]
    dsimp only
    split
    · exact ⟨adjusted.collect, trivial⟩
    · split
      · exact ⟨adjusted.extract _ _ _ _, trivial⟩
      · exact ⟨adjusted, trivial⟩
  finished := by
    intro nodes left sheet twin extract renames _
    unfold Compiler.finished
    split
    · exact ⟨renames.extract _ _ _ _, trivial⟩
    · exact ⟨renames, trivial⟩

end Compiler
end Manuscript
