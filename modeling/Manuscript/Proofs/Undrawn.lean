import Manuscript.Proofs.BareFlags
import Manuscript.Proofs.Skeletons

/-! Headings that only feed the table of contents. Taken out of a document, wherever arguments are not read as text, they
leave the formulas and what is drawn as it is, but for the anchors of other headings. -/

namespace Manuscript

open Builtin Formula Html

/-- A heading that is kept out of the text. -/
structure Unseen (command : Command Node) : Prop where
  heads : isHeading command.declaration = true
  lowered : Declaration.lowering command.declaration = .heading
  written : (command.declaration.map Declaration.latex).getD .invocation = .heading
  math : command.declaration.bind Declaration.math = none
  only : Attributes.has (command.attributes.getD []) "toc-only" = true

/-- Whether a command shows its arguments as they are. A heading and an image have a use for the text in them. -/
def Declaration.shows (declaration : Option Declaration) : Bool :=
  Declaration.lowering declaration != .heading && Declaration.lowering declaration != .image

/-- The same nodes, but with empty fragments for some that hold nothing but headings kept out of the text. -/
inductive Hollowed : List Node → List Node → Prop where
  | nil : Hollowed [] []
  | same (node : Node) {rest others : List Node} (later : Hollowed rest others) :
      Hollowed (node :: rest) (node :: others)
  | hollow {commands : List (Command Node)} {rest others : List Node} (unseen : ∀ command ∈ commands, Unseen command)
      (later : Hollowed rest others) : Hollowed (.fragment (commands.map .command) :: rest) (.fragment [] :: others)
  | command {ident : Ident} {attributes : Option Attributes} {args inner : List Node} {declaration : Option Declaration}
      {rules : List (Rule Node)} {rest others : List Node} (shows : Declaration.shows declaration = true)
      (inside : Hollowed args inner) (later : Hollowed rest others) :
      Hollowed (.command ⟨ident, attributes, args, declaration, rules⟩ :: rest)
        (.command ⟨ident, attributes, inner, declaration, rules⟩ :: others)
  | bracket {kind : BracketKind} {opening closing : Option Token} {children inner rest others : List Node}
      (inside : Hollowed children inner) (later : Hollowed rest others) :
      Hollowed (.bracket ⟨kind, opening, closing, children⟩ :: rest) (.bracket ⟨kind, opening, closing, inner⟩ :: others)
  | quotation {opening closing : Option Token} {children inner rest others : List Node}
      (inside : Hollowed children inner) (later : Hollowed rest others) :
      Hollowed (.quotation opening closing children :: rest) (.quotation opening closing inner :: others)
  | fragment {children inner rest others : List Node} (inside : Hollowed children inner) (later : Hollowed rest others) :
      Hollowed (.fragment children :: rest) (.fragment inner :: others)

theorem Builtin.heading_written : ∀ declaration ∈ registry.declarations, 0 < declaration.heading →
    declaration.latex = .heading := by
  decide +kernel

theorem Builtin.Known.unseen {slots : Bool} {command : Command Node}
    (own : Known slots command.ident command.attributes command.declaration)
    (heads : isHeading command.declaration = true)
    (only : Attributes.has (command.attributes.getD []) "toc-only" = true) : Unseen command := by
  refine ⟨heads, (Outline.heading_erased own heads []).2, ?_, own.math heads, only⟩
  obtain ⟨heading, listed, declared, positive⟩ := own.heading heads
  rw [declared]
  exact heading_written heading (mem_lookup.mp listed).1 positive

/-- What is left of a file that is included for the table of contents alone. -/
theorem Outline.adjusted_unseen {slots : Bool} {adjustment : Adjustment} (standard : adjustment.registry = registry)
    (only : adjustment.tocOnly = true) {nodes : List Node} (known : Declared (Known slots) nodes) :
    ∀ command ∈ collect (adjust adjustment nodes), Unseen command := by
  have each := visible_declared false _ (adjust_known standard nodes known)
  have fitted := visible_adjust standard false nodes known
  have below := visible_declared false _ known
  rw [visible_false] at each below
  rw [visible_false, visible_false] at fitted
  intro command member
  obtain ⟨heads, own, _⟩ := each command member
  rw [fitted] at member
  obtain ⟨source, listed, rfl⟩ := List.mem_map.mp member
  obtain ⟨first, fits⟩ := below source listed
  exact own.unseen heads (adjusted_hidden only (command_declared.mp fits).1 first)

section Latex

open Latex

/-- What an argument is written as, without its curly braces. -/
def Latex.unwrapped : Node → List String
  | .bracket ⟨.curly, _, _, children⟩ => allPieces children
  | node => pieces node

theorem bodyPieces_cons (node : Node) (rest : List Node) :
    bodyPieces (node :: rest) = unwrapped node ++ bodyPieces rest := by
  match node with
  | .bracket ⟨.curly, _, _, _⟩ | .bracket ⟨.square, _, _, _⟩ | .bracket ⟨.round, _, _, _⟩ | .hole | .text _ _
  | .symbol _ _ | .ident _ | .stray _ | .quotation _ _ _ | .fragment _ | .drawing _ | .tag _ | .command _ => rfl

theorem rows_cons (node : Node) (rest : List Node) : rows (node :: rest) = String.join (unwrapped node) :: rows rest := by
  match node with
  | .bracket ⟨.curly, _, _, _⟩ | .bracket ⟨.square, _, _, _⟩ | .bracket ⟨.round, _, _, _⟩ | .hole | .text _ _
  | .symbol _ _ | .ident _ | .stray _ | .quotation _ _ _ | .fragment _ | .drawing _ | .tag _ | .command _ => rfl

theorem allPieces_unseen {commands : List (Command Node)} (unseen : ∀ command ∈ commands, Unseen command) :
    allPieces (commands.map .command) = [] := by
  induction commands with
  | nil => rfl
  | cons command commands ih =>
    obtain ⟨first, others⟩ := List.forall_mem_cons.mp unseen
    obtain ⟨_, _, _, _, _⟩ := command
    rw [List.map_cons, allPieces, ih others, pieces, first.written]
    exact (List.append_nil _).trans (if_pos first.only)

/-- Headings that are kept out of the text are not written either. -/
theorem Hollowed.pieces_eq {nodes left : List Node} (hollowed : Hollowed nodes left) :
    allPieces nodes = allPieces left ∧ bodyPieces nodes = bodyPieces left ∧ rows nodes = rows left := by
  have cons {node other : Node} {rest others : List Node} (same : pieces node = pieces other)
      (alike : unwrapped node = unwrapped other)
      (later : allPieces rest = allPieces others ∧ bodyPieces rest = bodyPieces others ∧ rows rest = rows others) :
      allPieces (node :: rest) = allPieces (other :: others) ∧
        bodyPieces (node :: rest) = bodyPieces (other :: others) ∧ rows (node :: rest) = rows (other :: others) := by
    obtain ⟨all, body, each⟩ := later
    exact ⟨by rw [allPieces, allPieces, same, all], by rw [bodyPieces_cons, bodyPieces_cons, alike, body],
      by rw [rows_cons, rows_cons, alike, each]⟩
  induction hollowed with
  | nil => exact ⟨rfl, rfl, rfl⟩
  | same node _ ih => exact cons rfl rfl ih
  | hollow unseen _ ih => exact cons (allPieces_unseen unseen) (allPieces_unseen unseen) ih
  | @command ident attributes args inner declaration rules _ _ _ _ _ inside ih =>
    obtain ⟨all, body, each⟩ := inside
    have same : pieces (.command ⟨ident, attributes, args, declaration, rules⟩) =
        pieces (.command ⟨ident, attributes, inner, declaration, rules⟩) := by
      unfold pieces
      rw [all, body, each]
    exact cons same same ih
  | @bracket kind opening closing children inner _ _ _ _ inside ih =>
    have same : pieces (.bracket ⟨kind, opening, closing, children⟩) =
        pieces (.bracket ⟨kind, opening, closing, inner⟩) :=
      congrArg (fun all => Token.textOf opening :: all ++ [Token.textOf closing]) inside.1
    refine cons same ?_ ih
    cases kind with
    | curly => exact inside.1
    | square | round => exact same
  | @quotation opening closing _ _ _ _ _ _ inside ih =>
    have same := congrArg (fun all => "``" :: all ++ [if closing.isSome then "''" else ""]) inside.1
    exact cons same same ih
  | fragment _ _ inside ih => exact cons inside.1 inside.1 ih

end Latex

namespace Formula

mutual

theorem extractNode_dropped (inHeading : Bool) (node : Node) (sheet : FormulaSheet) :
    ((extractNode false inHeading node).run sheet).2 = sheet := by
  match node with
  | .command ⟨ident, attributes, args, declaration, rules⟩ =>
    cases math : declaration.bind Declaration.math with
    | some spec => rw [extractNode_formula _ _ _ _ _ _ math]; rfl
    | none =>
      rw [extractNode_plain _ _ _ _ _ _ math]
      exact extractNodes_dropped _ args sheet
  | .bracket ⟨_, _, _, children⟩ | .quotation _ _ children | .fragment children =>
    exact extractNodes_dropped inHeading children sheet
  | .tag ⟨_, _, _, args, _⟩ => exact extractBlocks_dropped inHeading args sheet
  | .hole | .text _ _ | .symbol _ _ | .ident _ | .stray _ | .drawing _ => rfl
termination_by structural node

/-- Formulas that are not kept get into no sheet. -/
theorem extractNodes_dropped (inHeading : Bool) (nodes : List Node) (sheet : FormulaSheet) :
    ((extractNodes false inHeading nodes).run sheet).2 = sheet := by
  match nodes with
  | [] => rfl
  | node :: rest =>
    rw [extractNodes_cons]
    dsimp only
    rw [extractNodes_dropped inHeading rest, extractNode_dropped inHeading node]
termination_by structural nodes

theorem extractBlocks_dropped (inHeading : Bool) (blocks : List (Block Node)) (sheet : FormulaSheet) :
    ((extractBlocks false inHeading blocks).run sheet).2 = sheet := by
  match blocks with
  | [] => rfl
  | ⟨_, _, _, children⟩ :: rest =>
    rw [extractBlocks_cons]
    dsimp only
    rw [extractBlocks_dropped inHeading rest, extractNodes_dropped inHeading children]
termination_by structural blocks

end

/-- A heading that is kept out of the text has no formulas on the page. -/
theorem extract_unseen (keep inHeading : Bool) {commands : List (Command Node)}
    (unseen : ∀ command ∈ commands, Unseen command) (sheet : FormulaSheet) :
    ∃ left : List (Command Node), (∀ command ∈ left, Unseen command) ∧
      (extractNodes keep inHeading (commands.map .command)).run sheet = (left.map .command, sheet) := by
  induction commands with
  | nil => exact ⟨[], unseen, rfl⟩
  | cons command commands ih =>
    obtain ⟨first, others⟩ := List.forall_mem_cons.mp unseen
    obtain ⟨left, later, taken⟩ := ih others
    obtain ⟨ident, attributes, args, declaration, rules⟩ := command
    have idle : keeps keep attributes declaration = false := by
      rw [keeps, first.heads, first.only]
      exact Bool.and_false keep
    have own (args : List Node) : Unseen ⟨ident, attributes, args, declaration, rules⟩ :=
      ⟨first.heads, first.lowered, first.written, first.math, first.only⟩
    refine ⟨_, List.forall_mem_cons.mpr
      ⟨own ((extractNodes false (inHeading || isHeading declaration) args).run sheet).1, later⟩, ?_⟩
    rw [List.map_cons, extractNodes_cons, extractNode_plain _ _ _ _ _ _ first.math, idle]
    dsimp only
    rw [extractNodes_dropped, taken]
    rfl

end Formula

/-- The same formulas are found. -/
theorem Hollowed.extract {nodes left : List Node} (hollowed : Hollowed nodes left) (keep inHeading : Bool)
    (sheet : FormulaSheet) :
    Hollowed ((extractNodes keep inHeading nodes).run sheet).1 ((extractNodes keep inHeading left).run sheet).1 ∧
      ((extractNodes keep inHeading nodes).run sheet).2 = ((extractNodes keep inHeading left).run sheet).2 := by
  have cons {keep inHeading : Bool} {sheet middle : FormulaSheet} {node other given left : Node}
      {rest others : List Node} (one : (extractNode keep inHeading node).run sheet = (given, middle))
      (two : (extractNode keep inHeading other).run sheet = (left, middle))
      (front : ∀ {rest others}, Hollowed rest others → Hollowed (given :: rest) (left :: others))
      (later : ∀ keep inHeading sheet, Hollowed ((extractNodes keep inHeading rest).run sheet).1
          ((extractNodes keep inHeading others).run sheet).1 ∧
        ((extractNodes keep inHeading rest).run sheet).2 = ((extractNodes keep inHeading others).run sheet).2) :
      Hollowed ((extractNodes keep inHeading (node :: rest)).run sheet).1
          ((extractNodes keep inHeading (other :: others)).run sheet).1 ∧
        ((extractNodes keep inHeading (node :: rest)).run sheet).2 =
          ((extractNodes keep inHeading (other :: others)).run sheet).2 := by
    obtain ⟨back, same⟩ := later keep inHeading middle
    rw [extractNodes_cons, extractNodes_cons, one, two]
    exact ⟨front back, same⟩
  induction hollowed generalizing keep inHeading sheet with
  | nil => exact ⟨.nil, rfl⟩
  | same node _ ih => exact cons rfl rfl (.same _) ih
  | @hollow commands _ _ unseen _ ih =>
    obtain ⟨left, still, taken⟩ := extract_unseen keep inHeading unseen sheet
    have first : (extractNode keep inHeading (.fragment (commands.map .command))).run sheet =
        (.fragment (left.map .command), sheet) :=
      congrArg (fun result : List Node × FormulaSheet => (Node.fragment result.1, result.2)) taken
    exact cons first rfl (.hollow still) ih
  | @command ident attributes args inner declaration rules _ _ shows hollowed _ inside ih =>
    cases math : declaration.bind Declaration.math with
    | some spec =>
      -- a formula is what is written of it
      have alike : code spec args = code spec inner := by rw [code, latexBody, hollowed.pieces_eq.2.1, code, latexBody]
      have same : (extractNode keep inHeading (.command ⟨ident, attributes, args, declaration, rules⟩)).run sheet =
          (extractNode keep inHeading (.command ⟨ident, attributes, inner, declaration, rules⟩)).run sheet := by
        rw [extractNode_formula _ _ _ _ _ _ math, extractNode_formula _ _ _ _ _ _ math, alike]
      exact cons same rfl (.same _) ih
    | none =>
      obtain ⟨below, same⟩ := inside (keeps keep attributes declaration) (inHeading || isHeading declaration) sheet
      refine cons (extractNode_plain _ _ _ _ _ _ math _) ?_ (.command shows below) ih
      rw [extractNode_plain _ _ _ _ _ _ math, same]
  | bracket _ _ inside ih =>
    obtain ⟨below, same⟩ := inside keep inHeading sheet
    exact cons rfl (Prod.ext rfl same.symm) (.bracket below) ih
  | quotation _ _ inside ih =>
    obtain ⟨below, same⟩ := inside keep inHeading sheet
    exact cons rfl (Prod.ext rfl same.symm) (.quotation below) ih
  | fragment _ _ inside ih =>
    obtain ⟨below, same⟩ := inside keep inHeading sheet
    exact cons rfl (Prod.ext rfl same.symm) (.fragment below) ih

namespace Html

/-- The same drawn nodes, but for the anchors of headings, each of which links to itself. -/
inductive Reanchored : List Html → List Html → Prop where
  | nil : Reanchored [] []
  | text (data : String) {rest others : List Html} (later : Reanchored rest others) :
      Reanchored (.text data :: rest) (.text data :: others)
  | element (name : String) (attributes : List (String × String)) {children inner rest others : List Html}
      (inside : Reanchored children inner) (later : Reanchored rest others) :
      Reanchored (.element name attributes children :: rest) (.element name attributes inner :: others)
  | heading (name page anchor other : String) {children inner rest others : List Html}
      (inside : Reanchored children inner) (later : Reanchored rest others) :
      Reanchored
        (.element name [("id", anchor)] [.element "a" [("href", page ++ "#" ++ anchor)] children] :: rest)
        (.element name [("id", other)] [.element "a" [("href", page ++ "#" ++ other)] inner] :: others)

namespace Reanchored

mutual

theorem single (html : Html) : Reanchored [html] [html] := by
  match html with
  | .text data => exact .text data .nil
  | .element name attributes children => exact .element name attributes (refl children) .nil
termination_by structural html

theorem refl (nodes : List Html) : Reanchored nodes nodes := by
  match nodes with
  | [] => exact .nil
  | html :: rest =>
    have first := single html
    have later := refl rest
    cases first with
    | text data => exact .text data later
    | element name attributes inside => exact .element name attributes inside later
    | heading name page anchor _ inside => exact .heading name page anchor _ inside later
termination_by structural nodes

end

theorem append {one two first second : List Html} (front : Reanchored one two) (back : Reanchored first second) :
    Reanchored (one ++ first) (two ++ second) := by
  induction front with
  | nil => exact back
  | text data _ ih => exact .text data ih
  | element name attributes inside _ _ ih => exact .element name attributes inside ih
  | heading name page anchor other inside _ _ ih => exact .heading name page anchor other inside ih

end Reanchored

/-- Whatever the tables of contents are before, the same is drawn but for anchors. -/
def Redraws (one other : Lower (List Html)) : Prop :=
  ∀ contents twin : Contents, (∃ left, (one.run (some contents)).2 = some left) ∧
    (∃ left, (other.run (some twin)).2 = some left) ∧
    Reanchored (one.run (some contents)).1 (other.run (some twin)).1

section Rules

variable {one other first second : Lower (List Html)}

theorem redraws_pure (html : List Html) : Redraws (pure html) (pure html) := fun contents twin =>
  ⟨⟨contents, rfl⟩, ⟨twin, rfl⟩, .refl html⟩

theorem Redraws.append (front : Redraws one other) (back : Redraws first second) :
    Redraws (inOrder one first) (inOrder other second) := by
  intro contents twin
  have run (lower later : Lower (List Html)) (contents : Contents) : (inOrder lower later).run (some contents) =
      ((lower.run (some contents)).1 ++ (later.run (lower.run (some contents)).2).1,
        (later.run (lower.run (some contents)).2).2) := rfl
  obtain ⟨⟨left, met⟩, ⟨right, meets⟩, drawn⟩ := front contents twin
  obtain ⟨kept, keeps, redrawn⟩ := back left right
  rw [run, run, met, meets]
  exact ⟨kept, keeps, drawn.append redrawn⟩

theorem Redraws.map (redraws : Redraws one other) (wrap : List Html → List Html)
    (wraps : ∀ html again, Reanchored html again → Reanchored (wrap html) (wrap again)) :
    Redraws (do pure (wrap (← one))) (do pure (wrap (← other))) := by
  intro contents twin
  obtain ⟨kept, keeps, drawn⟩ := redraws contents twin
  exact ⟨kept, keeps, wraps _ _ drawn⟩

theorem Redraws.heading (redraws : Redraws one other) (page : String) (level : Nat) (attributes : Attributes)
    (title : String) :
    Redraws (do Html.heading page level attributes title (← one))
      (do Html.heading page level attributes title (← other)) := by
  intro contents twin
  have run (lower : Lower (List Html)) (contents : Contents) :
      (do Html.heading page level attributes title (← lower) : Lower (List Html)).run (some contents) =
        Html.heading page level attributes title (lower.run (some contents)).1 (lower.run (some contents)).2 := rfl
  obtain ⟨⟨left, met⟩, ⟨right, meets⟩, drawn⟩ := redraws contents twin
  rw [run, run, met, meets]
  unfold Html.heading
  dsimp only
  refine ⟨⟨_, rfl⟩, ⟨_, rfl⟩, ?_⟩
  split
  · exact .nil
  · exact .heading _ _ _ _ drawn .nil

end Rules

variable (page : String)

/-- A command is drawn the same if what is in it is, and has the same text where only that counts. -/
theorem Redraws.command {ident : Ident} {attributes : Option Attributes} {args inner : List Node}
    {declaration : Option Declaration} {rules : List (Rule Node)} (body : Redraws (ofBody page args) (ofBody page inner))
    (spoken : Declaration.shows declaration = false → flattenBody args = flattenBody inner)
    (written : latexBody args = latexBody inner) :
    Redraws (ofNode page (.command ⟨ident, attributes, args, declaration, rules⟩))
      (ofNode page (.command ⟨ident, attributes, inner, declaration, rules⟩)) := by
  have wrapped (name : String) (items : List (String × String)) :
      Redraws (do pure [.element name items (← ofBody page args)])
        (do pure [.element name items (← ofBody page inner)]) :=
    body.map (fun html => [.element name items html]) fun _ _ drawn => .element name items drawn .nil
  unfold ofNode
  obtain ⟨lowering, lowered⟩ : ∃ lowering, Declaration.lowering declaration = lowering := ⟨_, rfl⟩
  have shape : (declaration.map Declaration.html).getD .element = lowering := lowered
  rw [Declaration.shows, lowered] at spoken
  simp only [shape]
  cases lowering with
  | element | link | item => exact wrapped _ _
  | heading =>
    rw [spoken rfl]
    exact body.heading page _ _ _
  | image =>
    rw [spoken rfl]
    exact redraws_pure _
  | formula =>
    rw [written]
    exact redraws_pure _
  | slot | nothing => exact redraws_pure _

mutual

theorem ofNode_redraws (node : Node) : Redraws (ofNode page node) (ofNode page node) := by
  match node with
  | .hole | .text _ _ | .symbol _ _ | .ident _ | .stray _ | .drawing _ => exact redraws_pure _
  | .bracket block => exact ofBlock_redraws block
  | .quotation opening closing children =>
    exact (ofNodes_redraws children).map
      (fun html => [.text "“"] ++ html ++ if closing.isSome then [.text "”"] else [])
      fun _ _ drawn => (Reanchored.append (.refl _) drawn).append (.refl _)
  | .fragment children => exact ofNodes_redraws children
  | .tag ⟨ident, options, _, args, _⟩ =>
    exact (((redraws_pure [.text ident.name]).append (ofOptions_redraws options)).append (ofBlocks_redraws args))
  | .command ⟨ident, attributes, args, declaration, rules⟩ =>
    exact .command page (ofBody_redraws args) (fun _ => rfl) rfl
termination_by structural node

theorem ofNodes_redraws (nodes : List Node) : Redraws (ofNodes page nodes) (ofNodes page nodes) := by
  match nodes with
  | [] => exact redraws_pure []
  | node :: rest => exact (ofNode_redraws node).append (ofNodes_redraws rest)
termination_by structural nodes

theorem ofBlock_redraws (block : Block Node) : Redraws (ofBlock page block) (ofBlock page block) := by
  match block with
  | ⟨_, opening, closing, children⟩ =>
    exact (ofNodes_redraws children).map
      (fun html => shownText (Token.textOf opening) ++ html ++ shownText (Token.textOf closing))
      fun _ _ drawn => (Reanchored.append (.refl _) drawn).append (.refl _)
termination_by structural block

theorem ofOptions_redraws (options : Option (Block Node)) :
    Redraws (ofOptions page options) (ofOptions page options) := by
  match options with
  | none => exact redraws_pure []
  | some block => exact ofBlock_redraws block
termination_by structural options

theorem ofBlocks_redraws (blocks : List (Block Node)) : Redraws (ofBlocks page blocks) (ofBlocks page blocks) := by
  match blocks with
  | [] => exact redraws_pure []
  | block :: rest => exact (ofBlock_redraws block).append (ofBlocks_redraws rest)
termination_by structural blocks

theorem ofBody_redraws (nodes : List Node) : Redraws (ofBody page nodes) (ofBody page nodes) := by
  match nodes with
  | [] => exact redraws_pure []
  | .bracket ⟨.curly, _, _, children⟩ :: rest => exact (ofNodes_redraws children).append (ofBody_redraws rest)
  | .bracket ⟨.square, opening, closing, children⟩ :: rest =>
    exact (ofNode_redraws (.bracket ⟨.square, opening, closing, children⟩)).append (ofBody_redraws rest)
  | .bracket ⟨.round, opening, closing, children⟩ :: rest =>
    exact (ofNode_redraws (.bracket ⟨.round, opening, closing, children⟩)).append (ofBody_redraws rest)
  | .hole :: rest | .text _ _ :: rest | .symbol _ _ :: rest | .ident _ :: rest | .stray _ :: rest
  | .quotation _ _ _ :: rest | .fragment _ :: rest | .drawing _ :: rest | .tag _ :: rest | .command _ :: rest =>
    exact (ofNode_redraws _).append (ofBody_redraws rest)
termination_by structural nodes

end

/-- What an argument is drawn as, without its curly braces. -/
def unwrapped : Node → Lower (List Html)
  | .bracket ⟨.curly, _, _, children⟩ => ofNodes page children
  | node => ofNode page node

theorem ofBody_cons (node : Node) (rest : List Node) :
    ofBody page (node :: rest) = inOrder (unwrapped page node) (ofBody page rest) := by
  match node with
  | .bracket ⟨.curly, _, _, _⟩ | .bracket ⟨.square, _, _, _⟩ | .bracket ⟨.round, _, _, _⟩ | .hole | .text _ _
  | .symbol _ _ | .ident _ | .stray _ | .quotation _ _ _ | .fragment _ | .drawing _ | .tag _ | .command _ => rfl

theorem unwrapped_redraws (node : Node) : Redraws (unwrapped page node) (unwrapped page node) := by
  match node with
  | .bracket ⟨.curly, _, _, children⟩ => exact ofNodes_redraws page children
  | .bracket ⟨.square, _, _, _⟩ | .bracket ⟨.round, _, _, _⟩ | .hole | .text _ _ | .symbol _ _ | .ident _ | .stray _
  | .quotation _ _ _ | .fragment _ | .drawing _ | .tag _ | .command _ => exact ofNode_redraws page _

/-- Nothing is drawn of headings that are kept out of the text. -/
theorem redraws_unseen {commands : List (Command Node)} (unseen : ∀ command ∈ commands, Unseen command) :
    Redraws (ofNodes page (commands.map .command)) (pure []) := by
  induction commands with
  | nil => exact redraws_pure []
  | cons command commands ih =>
    obtain ⟨first, others⟩ := List.forall_mem_cons.mp unseen
    obtain ⟨ident, attributes, args, declaration, rules⟩ := command
    have front : Redraws (ofNode page (.command ⟨ident, attributes, args, declaration, rules⟩)) (pure []) := by
      intro contents twin
      obtain ⟨⟨left, kept⟩, _⟩ := ofBody_redraws page args contents contents
      have lowered : (declaration.map Declaration.html).getD .element = .heading := first.lowered
      have run : (ofNode page (.command ⟨ident, attributes, args, declaration, rules⟩)).run (some contents) =
          Html.heading page ((declaration.map Declaration.heading).getD 0) (attributes.getD []) (flattenBody args)
            ((ofBody page args).run (some contents)).1 (some left) := by
        rw [ofNode, lowered, ← kept]
        rfl
      rw [run]
      unfold Html.heading
      dsimp only
      rw [if_pos first.only]
      exact ⟨⟨_, rfl⟩, ⟨twin, rfl⟩, .nil⟩
    exact front.append (ih others)

end Html

/-- What is drawn is the same but for the anchors of headings. -/
theorem Hollowed.redraws {nodes left : List Node} (hollowed : Hollowed nodes left) (page : String) :
    Redraws (ofNodes page nodes) (ofNodes page left) ∧ Redraws (ofBody page nodes) (ofBody page left) := by
  have cons {node other : Node} {rest others : List Node} (front : Redraws (ofNode page node) (ofNode page other))
      (argument : Redraws (unwrapped page node) (unwrapped page other))
      (later : Redraws (ofNodes page rest) (ofNodes page others) ∧ Redraws (ofBody page rest) (ofBody page others)) :
      Redraws (ofNodes page (node :: rest)) (ofNodes page (other :: others)) ∧
        Redraws (ofBody page (node :: rest)) (ofBody page (other :: others)) := by
    rw [ofBody_cons, ofBody_cons]
    exact ⟨front.append later.1, argument.append later.2⟩
  induction hollowed with
  | nil => exact ⟨redraws_pure [], redraws_pure []⟩
  | same node _ ih => exact cons (ofNode_redraws page node) (unwrapped_redraws page node) ih
  | hollow unseen _ ih => exact cons (redraws_unseen page unseen) (redraws_unseen page unseen) ih
  | @command ident attributes args inner declaration rules _ _ shows hollowed _ inside ih =>
    have same : Redraws (ofNode page (.command ⟨ident, attributes, args, declaration, rules⟩))
        (ofNode page (.command ⟨ident, attributes, inner, declaration, rules⟩)) :=
      .command page inside.2 (fun hidden => absurd shows (Bool.eq_false_iff.mp hidden))
        (congrArg String.join hollowed.pieces_eq.2.1)
    exact cons same same ih
  | @bracket kind opening closing children inner _ _ _ _ inside ih =>
    have same : Redraws (ofNode page (.bracket ⟨kind, opening, closing, children⟩))
        (ofNode page (.bracket ⟨kind, opening, closing, inner⟩)) :=
      inside.1.map (fun html => shownText (Token.textOf opening) ++ html ++ shownText (Token.textOf closing))
        fun _ _ drawn => (Reanchored.append (.refl _) drawn).append (.refl _)
    refine cons same ?_ ih
    cases kind with
    | curly => exact inside.1
    | square | round => exact same
  | @quotation opening closing _ _ _ _ _ _ inside ih =>
    have same := inside.1.map (fun html => [.text "“"] ++ html ++ if closing.isSome then [.text "”"] else [])
      fun _ _ drawn => (Reanchored.append (.refl _) drawn).append (.refl _)
    exact cons same same ih
  | fragment _ _ inside ih => exact cons inside.1 inside.1 ih

end Manuscript
