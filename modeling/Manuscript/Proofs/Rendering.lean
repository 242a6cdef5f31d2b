import Manuscript.Project.Page
import Manuscript.Proofs.FailingOutput
import Manuscript.Proofs.HeadingOrigins
import Manuscript.Proofs.Markup

/-! Pages can be written. Writing HTML fails only at a void element with children, and of a document that is compiled
with the builtin registry no such element is made: what a command is lowered to takes its name and its declaration for
granted, and each command has a name and a declaration that go with it. -/

namespace Manuscript

namespace Html

mutual

/-- Void elements are empty. -/
def Closed : Html → Prop
  | .text _ => True
  | .element name _ children => (isVoid name = true → children = []) ∧ ClosedAll children
termination_by structural html => html

def ClosedAll : List Html → Prop
  | [] => True
  | html :: rest => html.Closed ∧ ClosedAll rest
termination_by structural nodes => nodes

end

mutual

theorem Ordinary.closed (html : Html) (ordinary : html.Ordinary) : html.Closed := by
  match html with
  | .text _ => trivial
  | .element name attributes children =>
    obtain ⟨_, _, _, empty, inside⟩ := ordinary
    exact ⟨empty, OrdinaryAll.closed children inside⟩
termination_by structural html

theorem OrdinaryAll.closed (nodes : List Html) (ordinary : OrdinaryAll nodes) : ClosedAll nodes := by
  match nodes with
  | [] => trivial
  | html :: rest => exact ⟨Ordinary.closed html ordinary.1, OrdinaryAll.closed rest ordinary.2⟩
termination_by structural nodes

end

theorem closedAll_append {nodes others : List Html} (first : ClosedAll nodes) (second : ClosedAll others) :
    ClosedAll (nodes ++ others) := by
  induction nodes with
  | nil => exact second
  | cons html nodes ih => exact ⟨first.1, ih first.2⟩

/-- Was not ended by a void element with children. -/
def Written.Sound (written : Written) : Prop := ∀ name, written.stop ≠ some (.voidChildren name)

theorem Written.Sound.andThen {first second : Written} (one : first.Sound) (two : second.Sound) :
    (first.andThen second).Sound := by
  unfold Written.andThen
  split
  · exact one
  · exact two

theorem sound_of_none (output : String) : (⟨output, none⟩ : Written).Sound := fun _ stopped => by cases stopped

mutual

theorem write_sound (html : Html) (closed : html.Closed) : (write html).Sound := by
  match html with
  | .text data => exact sound_of_none _
  | .element name attributes children =>
    obtain ⟨empty, inside⟩ := closed
    unfold write
    dsimp only
    split
    next void =>
      rw [empty void]
      exact sound_of_none _
    next =>
      refine ((sound_of_none _).andThen (writeChildren_sound _ children inside)).andThen ?_
      split
      · intro other stopped
        cases stopped
      · exact sound_of_none _
termination_by structural html

theorem writeChildren_sound (literal : Bool) (nodes : List Html) (closed : ClosedAll nodes) :
    (writeChildren literal nodes).Sound := by
  match nodes with
  | [] => exact sound_of_none _
  | .text data :: rest => exact (sound_of_none _).andThen (writeChildren_sound literal rest closed.2)
  | .element name attributes children :: rest =>
    exact (write_sound (.element name attributes children) closed.1).andThen (writeChildren_sound literal rest closed.2)
termination_by structural nodes

end

theorem writeAll_sound (nodes : List Html) (closed : ClosedAll nodes) : (writeAll nodes).Sound := by
  induction nodes with
  | nil => exact sound_of_none _
  | cons html rest ih =>
    refine Written.Sound.andThen ?_ (ih closed.2)
    split
    · exact sound_of_none _
    · exact write_sound html closed.1

theorem render_closed {nodes : List Html} (closed : ClosedAll nodes) : ∃ text, render nodes = .ok text := by
  unfold render
  dsimp only
  split
  next name stopped => exact absurd stopped (writeAll_sound nodes closed name)
  next => exact ⟨_, rfl⟩

/-- What is in the table of contents can be written. -/
def Listed (contents : Option Contents) : Prop := ∀ kept, contents = some kept → ClosedAll kept.items

/-- Enters only what can be written into the table of contents. -/
def Enters {α : Type} (lower : Lower α) : Prop := ∀ contents, Listed contents → Listed (lower.run contents).2

theorem enters_pure {α : Type} (value : α) : Enters (pure value : Lower α) := fun _ listed => listed

theorem Enters.bind {α β : Type} {lower : Lower α} {next : α → Lower β} (first : Enters lower)
    (second : ∀ value, Enters (next value)) : Enters (lower >>= next) :=
  fun contents listed => second _ _ (first contents listed)

theorem Enters.map {α β : Type} {lower : Lower α} (enters : Enters lower) (make : α → β) :
    Enters (do pure (make (← lower))) :=
  enters.bind fun value => enters_pure (make value)

theorem enters_heading (page : String) (level : Nat) (attributes : Attributes) (title : String) (children : List Html) :
    Enters (heading page level attributes title children) := by
  intro contents listed
  cases contents with
  | none => exact listed
  | some contents =>
    intro kept left
    simp only [StateT.run, heading, Option.some.injEq] at left
    subst left
    have before : ClosedAll contents.items := listed contents rfl
    split
    · exact before
    · have void : ∀ name ∈ ["li", "a"], isVoid name = false := by decide
      have entry (kind : String) (href : String) : ClosedAll [element "li" [("class", kind),
          ("data-level", toString (level : Int))] [element "a" [("href", href)] [text title]]] :=
        ⟨⟨by simp [void], ⟨by simp [void], trivial, trivial⟩, trivial⟩, trivial⟩
      exact closedAll_append before (entry _ _)

mutual

theorem ofNode_enters (page : String) (node : Node) : Enters (ofNode page node) := by
  match node with
  | .hole | .text _ _ | .symbol _ _ | .ident _ | .stray _ | .drawing _ => exact enters_pure _
  | .bracket block => exact ofBlock_enters page block
  | .quotation _ _ children => exact (ofNodes_enters page children).map _
  | .fragment children => exact ofNodes_enters page children
  | .tag ⟨ident, options, attributes, args, rules⟩ =>
    exact (ofOptions_enters page options).bind fun _ => (ofBlocks_enters page args).map _
  | .command ⟨ident, attributes, args, declaration, rules⟩ =>
    have body := ofBody_enters page args
    unfold ofNode
    dsimp only
    split
    case h_1 | h_3 | h_5 => exact body.map _
    case h_2 => exact body.bind fun children => enters_heading page _ _ _ children
    all_goals exact enters_pure _
termination_by structural node

theorem ofNodes_enters (page : String) (nodes : List Node) : Enters (ofNodes page nodes) := by
  match nodes with
  | [] => exact enters_pure _
  | node :: rest => exact (ofNode_enters page node).bind fun _ => (ofNodes_enters page rest).map _
termination_by structural nodes

theorem ofBlock_enters (page : String) (block : Block Node) : Enters (ofBlock page block) := by
  match block with
  | ⟨_, _, _, children⟩ => exact (ofNodes_enters page children).map _
termination_by structural block

theorem ofOptions_enters (page : String) (options : Option (Block Node)) : Enters (ofOptions page options) := by
  match options with
  | none => exact enters_pure _
  | some block => exact ofBlock_enters page block
termination_by structural options

theorem ofBlocks_enters (page : String) (blocks : List (Block Node)) : Enters (ofBlocks page blocks) := by
  match blocks with
  | [] => exact enters_pure _
  | block :: rest => exact (ofBlock_enters page block).bind fun _ => (ofBlocks_enters page rest).map _
termination_by structural blocks

theorem ofBody_enters (page : String) (nodes : List Node) : Enters (ofBody page nodes) := by
  match nodes with
  | [] => exact enters_pure _
  | .bracket ⟨.curly, opening, closing, children⟩ :: rest =>
    rw [ofBody]
    exact (ofNodes_enters page children).bind fun _ => (ofBody_enters page rest).map _
  | .bracket ⟨.square, _, _, _⟩ :: rest | .bracket ⟨.round, _, _, _⟩ :: rest | .hole :: rest | .text _ _ :: rest
  | .symbol _ _ :: rest | .ident _ :: rest | .stray _ :: rest | .quotation _ _ _ :: rest | .fragment _ :: rest
  | .drawing _ :: rest | .tag _ :: rest | .command _ :: rest =>
    exact (ofNode_enters page _).bind fun _ => (ofBody_enters page rest).map _
termination_by structural nodes

end

theorem head_closed (layout : PageLayout) : ClosedAll (Page.head layout) := by
  have links (names : List String) (link : String → Html) (closed : ∀ name, (link name).Closed) :
      ClosedAll (names.flatMap fun name => [link name, .text "\n"]) := by
    induction names with
    | nil => trivial
    | cons name names ih => exact ⟨closed name, trivial, ih⟩
  exact closedAll_append (links _ _ fun _ => ⟨fun _ => rfl, trivial⟩) (links _ _ fun _ => ⟨fun _ => rfl, trivial⟩)

end Html

namespace Builtin

/-- What the lowerings of a command take for granted: it has a declaration, an element has a name of one that may have
children, a formula knows how it is typeset, and the level of a heading is between one and six. -/
structure Lowerable (ident : Ident) (_ : Option Attributes) (declaration : Option Declaration) : Prop where
  declared : declaration.isSome = true
  element : Declaration.lowering declaration = .element → Html.isVoid (Html.nameOf ident) = false
  formula : Declaration.lowering declaration = .formula → (declaration.bind Declaration.math).isSome = true
  heading : (Declaration.lowering declaration = .heading ∨ declaration.map Declaration.latex = some .heading) →
    ∃ level, declaration.map Declaration.heading = some level ∧ 1 ≤ level ∧ level ≤ 6

theorem latex_heading : ∀ declaration ∈ registry.declarations, declaration.latex = .heading →
    declaration.html = .heading := by
  decide +kernel

theorem Known.lowerable {slots : Bool} {ident : Ident} {attributes : Option Attributes}
    {declaration : Option Declaration} (known : Known slots ident attributes declaration) :
    Lowerable ident attributes declaration := by
  have named := Html.nameOf_ordinary known
  rcases known with ⟨_, rfl⟩ | ⟨found, listed, rfl⟩
  · constructor <;> simp [Declaration.lowering, formulaSlot]
  · have member := (mem_lookup.mp listed).1
    obtain ⟨headed, formula, _⟩ := lowering_tells found member
    constructor
    · rfl
    · intro element
      have ordinary := named element
      simp only [Html.isOrdinaryName, Bool.and_eq_true, Bool.not_eq_true'] at ordinary
      exact ordinary.2
    · exact formula.mp
    · intro heads
      have level := headed.mp (heads.elim id fun written => latex_heading found member (Option.some.inj written))
      exact ⟨found.heading, rfl, level, (heading_name found member level).2⟩

end Builtin

namespace Compiler

open Compile Builtin

/-- Of a document that is compiled with the builtin registry, pages of every layout and LaTeX can be written. Every
command in it has what its lowerings take for granted, and void elements are never given children. -/
theorem rendering_succeeds (compiler : Compiler) (standard : compiler.registry = Builtin.registry) {document : Document}
    (compiled : compiler.Compiled document) :
    (∀ layout, ∃ page, renderPage document layout = .ok page) ∧
    (∀ accepted room, writeLatex ⟨accepted, (Utf8.encode (latex document.nodes)).length + room⟩ document.nodes =
      (⟨accepted ++ Utf8.encode (latex document.nodes), room⟩, true)) ∧
    (∀ page contents, Html.ClosedAll ((Html.ofNodes page document.nodes).run contents).1) ∧
    Declared Lowerable document.nodes := by
  have known := compiled.known standard
  have closed (page : String) (contents : Option Contents) :
      Html.ClosedAll ((Html.ofNodes page document.nodes).run contents).1 :=
    Html.OrdinaryAll.closed _ (Html.ofNodes_marks page document.nodes known contents rfl).2.1
  refine ⟨?_, ?_, closed, Declared.mono (fun _ _ _ => Known.lowerable) _ known⟩
  · intro layout
    have inside := closed document.path (some {})
    have listed := Html.ofNodes_enters document.path document.nodes (some {}) fun _ same => by cases same; trivial
    cases run : (Html.ofNodes document.path document.nodes).run (some {}) with
    | mk nodes contents =>
      rw [run] at inside listed
      have items : Html.ClosedAll [(contents.getD {}).list] := by
        refine ⟨⟨fun void => absurd void (by decide), ?_⟩, trivial⟩
        cases contents with
        | none => trivial
        | some contents => exact listed contents rfl
      obtain ⟨body, drawn⟩ := Html.render_closed inside
      obtain ⟨list, entered⟩ := Html.render_closed items
      obtain ⟨head, linked⟩ := Html.render_closed (Html.head_closed layout)
      simp only [renderPage, run, renderHtml, drawn, linked, entered]
      exact ⟨_, rfl⟩
  · intro accepted room
    exact Sink.writeAll_fits _ accepted room

namespace Sample

/-- A heading that is moved, a formula, and a drawing that is put into a template. -/
def drawn : Compiler :=
  files [("main.ss", "\\math\x7bx\x7d\\include[src=a.ss,baseline=h2]\\include[src=d.svg]" ++
      "\\where!\x7b\x7bd\x7d => \x7b\\b\x7bd\x7d\x7d\x7d"),
    ("a.ss", "\\h1\x7bA\x7d"), ("d.svg", "<svg/>")]

end Sample

theorem rendering_succeeds_drawn : ∃ document,
    Sample.drawn.registry = Builtin.registry ∧ Sample.drawn.Compiled document ∧
    latex document.nodes = "\\subsection\x7bA\x7d\n\\textbf\x7b\\includegraphics\x7bd.svg\x7d\x7d" ∧
    (∀ layout, ∃ page, renderPage document layout = .ok page) ∧ Declared Lowerable document.nodes := by
  obtain ⟨document, after, run, seen⟩ := @Sample.ok_of_view _ (fun document => latex document.nodes)
    (outcome (Sample.drawn.compile "main.ss") {})
    "\\subsection\x7bA\x7d\n\\textbf\x7b\\includegraphics\x7bd.svg\x7d\x7d" (by decide +kernel)
  have compiled : Sample.drawn.Compiled document :=
    ⟨Sample.drawn.limit, "main.ss", {}, after, faithful_empty _, .inl run⟩
  obtain ⟨pages, _, _, lowerable⟩ := rendering_succeeds Sample.drawn rfl compiled
  exact ⟨document, rfl, compiled, seen, pages, lowerable⟩

end Compiler
end Manuscript
