import Manuscript.Proofs.ExpansionComplete
import Manuscript.Proofs.HtmlReading
import Manuscript.Proofs.Placeholders

/-! Documents as markup. Of a page that is compiled with the builtin registry, everything but the names of attributes is
written in a way that reads back: names of elements come from the registry, and text and attribute values are escaped.
The attributes of commands that become elements are passed through, so such a page reads back exactly when these have
plain names. -/

namespace Manuscript

/-- Whether the attributes of a command have plain names, if they become those of an element. -/
def plainKeys (attributes : Option Attributes) (declaration : Option Declaration) : Bool :=
  decide (Declaration.lowering declaration ≠ .element) ||
    (attributes.getD []).all fun item => Html.isPlainName item.key.flatten.toList

mutual

/-- Whether all attributes that are drawn are read as what they are. -/
def Node.legible (toc : Bool) : Node → Bool
  | .command ⟨_, attributes, args, declaration, _⟩ =>
    plainKeys attributes declaration && (!drawsBody toc attributes declaration || legible toc args)
  | .bracket block => blockLegible toc block
  | .quotation _ _ children => legible toc children
  | .fragment children => legible toc children
  | .tag ⟨_, options, _, args, _⟩ => optionsLegible toc options && blocksLegible toc args
  | _ => true
termination_by structural node => node

def legible (toc : Bool) : List Node → Bool
  | [] => true
  | node :: rest => node.legible toc && legible toc rest
termination_by structural nodes => nodes

def blockLegible (toc : Bool) : Block Node → Bool
  | ⟨_, _, _, children⟩ => legible toc children
termination_by structural block => block

def optionsLegible (toc : Bool) : Option (Block Node) → Bool
  | none => true
  | some block => blockLegible toc block
termination_by structural options => options

def blocksLegible (toc : Bool) : List (Block Node) → Bool
  | [] => true
  | block :: rest => blockLegible toc block && blocksLegible toc rest
termination_by structural blocks => blocks

end

namespace Html

open Builtin

/-- A name of an element that is written like any other and may have children. -/
def isOrdinaryName (name : String) : Bool :=
  isPlainName name.toList && !isLiteral name && !swallowsNewline name && !isVoid name

theorem ordinary_element {name : String} (named : isOrdinaryName name = true) (attributes : List (String × String))
    {children : List Html} (inside : OrdinaryAll children) : OrdinaryAll [.element name attributes children] := by
  simp only [isOrdinaryName, Bool.and_eq_true, Bool.not_eq_true'] at named
  obtain ⟨⟨⟨plain, other⟩, same⟩, filled⟩ := named
  exact ⟨⟨plain, other, same, fun void => absurd void (Bool.eq_false_iff.mp filled), inside⟩, trivial⟩

theorem plain_element {name : String} {attributes : List (String × String)} {children : List Html} :
    PlainAttributes [.element name attributes children] ↔
      (∀ pair ∈ attributes, isPlainName pair.1.toList = true) ∧ PlainAttributes children := by
  simp only [PlainAttributes, attributeNamesAll, attributeNames, List.append_nil, List.forall_mem_append,
    List.forall_mem_map]

theorem plain_append {nodes others : List Html} :
    PlainAttributes (nodes ++ others) ↔ PlainAttributes nodes ∧ PlainAttributes others := by
  simp only [PlainAttributes, attributeNamesAll_append, List.forall_mem_append]

theorem plain_text (data : String) : PlainAttributes [.text data] := by
  simp [PlainAttributes, attributeNamesAll, attributeNames]

theorem plain_nil : PlainAttributes [] := by simp [PlainAttributes, attributeNamesAll]

/-- The names of attributes that no document chooses. -/
def fixedNames : List String := ["id", "class", "href", "src", "alt", "width", "height"]

theorem plain_fixed {name : String} {attributes : List (String × String)} {children : List Html}
    (fixed : ∀ pair ∈ attributes, pair.1 ∈ fixedNames) :
    PlainAttributes [.element name attributes children] ↔ PlainAttributes children := by
  have all : ∀ name ∈ fixedNames, isPlainName name.toList = true := by decide
  exact plain_element.trans (and_iff_right fun pair member => all _ (fixed pair member))

/-- Leaves a table of contents where there was one, and ordinary trees whose attributes have plain names exactly under
a condition. -/
def Marks (toc : Bool) (lower : Lower (List Html)) (condition : Bool) : Prop :=
  ∀ contents : Option Contents, contents.isSome = toc →
    (lower.run contents).2.isSome = toc ∧ OrdinaryAll (lower.run contents).1 ∧
      (PlainAttributes (lower.run contents).1 ↔ condition = true)

variable {toc first second : Bool}

theorem marks_pure {html : List Html} (ordinary : OrdinaryAll html) (same : PlainAttributes html ↔ first = true) :
    Marks toc (pure html) first := fun _ kept => ⟨kept, ordinary, same⟩

theorem Marks.bind {lower : Lower (List Html)} {next : List Html → Lower (List Html)} (front : Marks toc lower first)
    (behind : ∀ html, OrdinaryAll html → (PlainAttributes html ↔ first = true) → Marks toc (next html) second) :
    Marks toc (lower >>= next) second := by
  intro contents kept
  obtain ⟨left, ordinary, same⟩ := front contents kept
  exact behind _ ordinary same _ left

theorem Marks.append {lower other : Lower (List Html)} (front : Marks toc lower first)
    (behind : Marks toc other second) :
    Marks toc (do
      let html ← lower
      pure (html ++ (← other))) (first && second) := by
  refine front.bind fun html ordinary same => behind.bind fun others further alike => ?_
  refine marks_pure (ordinaryAll_append ordinary further) (plain_append.trans ?_)
  rw [same, alike, Bool.and_eq_true]

/-- Puts text in front and behind. -/
theorem Marks.enclosed {lower : Lower (List Html)} (inside : Marks toc lower first) {front back : List Html}
    (opened : OrdinaryAll front ∧ PlainAttributes front) (closed : OrdinaryAll back ∧ PlainAttributes back) :
    Marks toc (do pure (front ++ (← lower) ++ back)) first := by
  refine inside.bind fun html ordinary same => ?_
  refine marks_pure (ordinaryAll_append (ordinaryAll_append opened.1 ordinary) closed.1) ?_
  rw [plain_append, plain_append, same]
  exact ⟨fun all => all.1.2, fun condition => ⟨⟨opened.2, condition⟩, closed.2⟩⟩

/-- Puts the body of a command into an element. -/
theorem Marks.element {lower : Lower (List Html)} {name : String} (named : isOrdinaryName name = true)
    (attributes : List (String × String)) (inside : Marks toc lower first) :
    Marks toc (do pure [.element name attributes (← lower)])
      ((attributes.all fun pair => isPlainName pair.1.toList) && first) := by
  refine inside.bind fun _ ordinary same => marks_pure (ordinary_element named attributes ordinary) ?_
  rw [plain_element, same, Bool.and_eq_true, List.all_eq_true]

theorem marks_heading (page : String) {level : Nat} (named : isOrdinaryName ("h" ++ toString level) = true)
    (attributes : Attributes) (title : String) {children : List Html} (ordinary : OrdinaryAll children)
    (same : PlainAttributes children ↔ first = true) :
    Marks toc (heading page level attributes title children)
      (!(!(toc && Attributes.has attributes "toc-only")) || first) := by
  intro contents kept
  cases contents with
  | none =>
    cases kept
    refine ⟨rfl, ordinary_element named [] ordinary, (plain_fixed (List.forall_mem_nil _)).trans ?_⟩
    simpa using same
  | some contents =>
    cases kept
    refine ⟨rfl, ?_⟩
    by_cases only : Attributes.has attributes "toc-only" = true
    · simp [StateT.run, heading, only, OrdinaryAll, plain_nil]
    · simp only [StateT.run, heading, only, Bool.false_eq_true, if_false]
      refine ⟨ordinary_element named _ (ordinary_element (by decide) _ ordinary), ?_⟩
      rw [plain_fixed (by simp [fixedNames]), plain_fixed (by simp [fixedNames])]
      simpa using same

theorem elementName_ordinary : ∀ declaration ∈ registry.declarations, declaration.html = .element →
    isOrdinaryName (nameOf ⟨declaration.name, {}⟩) = true := by
  decide +kernel

theorem nameOf_ordinary {known : Bool} {ident : Ident} {attributes : Option Attributes}
    {declaration : Option Declaration} (own : Known known ident attributes declaration)
    (element : Declaration.lowering declaration = .element) :
    isOrdinaryName (nameOf ident) = true := by
  rcases own with ⟨_, rfl⟩ | ⟨found, listed, rfl⟩
  · cases element
  · obtain ⟨member, named⟩ := mem_lookup.mp listed
    have spelled : nameOf ident = nameOf ⟨found.name, {}⟩ := by rw [named]; rfl
    rw [spelled]
    exact elementName_ordinary found member element

theorem headingName_ordinary {known : Bool} {ident : Ident} {attributes : Option Attributes}
    {declaration : Option Declaration} (own : Known known ident attributes declaration)
    (lowered : Declaration.lowering declaration = .heading) :
    isOrdinaryName ("h" ++ toString ((declaration.map Declaration.heading).getD 0)) = true := by
  rcases own with ⟨_, rfl⟩ | ⟨found, listed, rfl⟩
  · cases lowered
  · have member := (mem_lookup.mp listed).1
    have least := (lowering_tells found member).1.mp lowered
    have most := (heading_name found member least).2
    have all : ∀ level ∈ List.range 7, isOrdinaryName ("h" ++ toString level) = true := by decide +kernel
    exact all _ (List.mem_range.mpr (by simpa using Nat.lt_succ_of_le most))

theorem marks_image (attributes : Attributes) (alt : String) : Marks toc (pure [image attributes alt]) true := by
  refine marks_pure ⟨⟨by decide, by decide, by decide, fun _ => rfl, trivial⟩, trivial⟩ (iff_of_true ?_ rfl)
  refine (plain_fixed ?_).mpr plain_nil
  have sized : ∀ pair ∈ ["width", "height"].filterMap fun key =>
      (Attributes.value? attributes key).map fun raw => (key, size raw), pair.1 ∈ fixedNames := by
    intro pair member
    obtain ⟨key, listed, found⟩ := List.mem_filterMap.mp member
    obtain ⟨raw, _, rfl⟩ := Option.map_eq_some_iff.mp found
    have all : ∀ key ∈ ["width", "height"], key ∈ fixedNames := by decide
    exact all key listed
  refine List.forall_mem_append.mpr ⟨List.forall_mem_append.mpr ⟨by simp [fixedNames], ?_⟩, sized⟩
  split <;> simp [fixedNames]

theorem marks_slot (attributes : Attributes) : Marks toc (pure [slot attributes]) true := by
  unfold slot
  dsimp only
  refine marks_pure (ordinary_element ?_ _ trivial)
    (iff_of_true ((plain_fixed (by simp [fixedNames])).mpr plain_nil) rfl)
  split <;> decide

theorem marks_formula (block : Bool) (source : String) : Marks toc (pure [formula block source]) true := by
  unfold formula
  split <;> exact marks_pure (ordinary_element (by decide) _ ⟨trivial, trivial⟩)
    (iff_of_true ((plain_fixed (by simp [fixedNames])).mpr (plain_text source)) rfl)

mutual

theorem ofNode_marks {known : Bool} (page : String) (node : Node) (declared : node.Declared (Known known)) :
    Marks toc (ofNode page node) (node.legible toc) := by
  match node with
  | .hole => exact marks_pure trivial (iff_of_true plain_nil rfl)
  | .text _ _ | .symbol _ _ | .ident _ | .stray _ =>
    exact marks_pure ⟨trivial, trivial⟩ (iff_of_true (plain_text _) rfl)
  | .drawing drawing =>
    have drawn (scheme : String) (data : Bytes) : OrdinaryAll [picture scheme data drawing.name] ∧
        PlainAttributes [picture scheme data drawing.name] :=
      ⟨⟨⟨by decide, by decide, by decide, fun _ => rfl, trivial⟩, trivial⟩,
        (plain_fixed (by simp [fixedNames])).mpr plain_nil⟩
    have light := drawn "light" drawing.light
    have dark := drawn "dark" drawing.dark
    exact marks_pure (ordinaryAll_append light.1 dark.1) (iff_of_true (light.2.append dark.2) rfl)
  | .bracket block => exact ofBlock_marks page block declared
  | .quotation opening closing children =>
    refine (ofNodes_marks page children declared).enclosed ⟨⟨trivial, trivial⟩, plain_text _⟩ ?_
    split
    · exact ⟨⟨trivial, trivial⟩, plain_text _⟩
    · exact ⟨trivial, plain_nil⟩
  | .fragment children => exact ofNodes_marks page children declared
  | .tag ⟨ident, options, attributes, args, rules⟩ =>
    obtain ⟨optional, blocks, _⟩ := declared
    refine (ofOptions_marks page options optional).bind fun html ordinary same => ?_
    refine (ofBlocks_marks page args blocks).bind fun others further alike => ?_
    refine marks_pure (ordinaryAll_append (ordinaryAll_append ⟨trivial, trivial⟩ ordinary) further) ?_
    rw [plain_append, plain_append, same, alike, and_iff_right (plain_text _), Node.legible, Bool.and_eq_true]
  | .command ⟨ident, attributes, args, declaration, rules⟩ =>
    obtain ⟨own, inside, _⟩ := declared
    have body := ofBody_marks page args inside
    unfold ofNode Node.legible plainKeys drawsBody
    obtain ⟨lowering, lowered⟩ : ∃ lowering, Declaration.lowering declaration = lowering := ⟨_, rfl⟩
    have shape : (declaration.map Declaration.html).getD .element = lowering := lowered
    simp only [lowered, shape]
    cases lowering with
    | element =>
      have marks := body.element (nameOf_ordinary own lowered) (attributesOf (attributes.getD []))
      simpa [attributesOf, Function.comp_def] using marks
    | heading =>
      have named := headingName_ordinary own lowered
      refine body.bind fun html ordinary same => ?_
      simpa using marks_heading page named (attributes.getD []) (flattenBody args) ordinary same
    | link =>
      have named : isPlainName "href".toList = true := by decide
      have link : isOrdinaryName "a" = true := by decide
      have marks := body.element link [("href", (Attributes.value? (attributes.getD []) "href").getD "")]
      rw [List.all_cons, List.all_nil, named, Bool.true_and, Bool.true_and] at marks
      simpa using marks
    | image => simpa using marks_image (attributes.getD []) (flattenBody args)
    | item =>
      have item : isOrdinaryName "li" = true := by decide
      simpa using body.element item []
    | formula => simpa using marks_formula _ (latexBody args)
    | slot => simpa using marks_slot (attributes.getD [])
    | nothing =>
      have empty : Marks toc (pure []) true := marks_pure trivial (iff_of_true plain_nil rfl)
      simpa using empty
termination_by structural node

theorem ofNodes_marks {known : Bool} (page : String) (nodes : List Node) (declared : Declared (Known known) nodes) :
    Marks toc (ofNodes page nodes) (legible toc nodes) := by
  match nodes with
  | [] => exact marks_pure trivial (iff_of_true plain_nil rfl)
  | node :: rest => exact (ofNode_marks page node declared.1).append (ofNodes_marks page rest declared.2)
termination_by structural nodes

theorem ofBlock_marks {known : Bool} (page : String) (block : Block Node)
    (declared : BlockDeclared (Known known) block) : Marks toc (ofBlock page block) (blockLegible toc block) := by
  match block with
  | ⟨kind, opening, closing, children⟩ =>
    have bare (word : String) : OrdinaryAll (shownText word) ∧ PlainAttributes (shownText word) := by
      unfold shownText
      split
      · exact ⟨trivial, plain_nil⟩
      · exact ⟨⟨trivial, trivial⟩, plain_text _⟩
    exact (ofNodes_marks page children declared).enclosed (bare _) (bare _)
termination_by structural block

theorem ofOptions_marks (page : String) (options : Option (Block Node))
    (unresolved : OptionsUnresolved (fun _ => True) options) :
    Marks toc (ofOptions page options) (optionsLegible toc options) := by
  match options with
  | none => exact marks_pure trivial (iff_of_true plain_nil rfl)
  | some block => exact @ofBlock_marks false page block (blockDeclared_of_unresolved block unresolved)
termination_by structural options

theorem ofBlocks_marks {known : Bool} (page : String) (blocks : List (Block Node))
    (declared : BlocksDeclared (Known known) blocks) : Marks toc (ofBlocks page blocks) (blocksLegible toc blocks) := by
  match blocks with
  | [] => exact marks_pure trivial (iff_of_true plain_nil rfl)
  | block :: rest => exact (ofBlock_marks page block declared.1).append (ofBlocks_marks page rest declared.2)
termination_by structural blocks

theorem ofBody_marks {known : Bool} (page : String) (nodes : List Node) (declared : Declared (Known known) nodes) :
    Marks toc (ofBody page nodes) (legible toc nodes) := by
  match nodes with
  | [] => exact marks_pure trivial (iff_of_true plain_nil rfl)
  | .bracket ⟨.curly, opening, closing, children⟩ :: rest =>
    rw [ofBody]
    exact (ofNodes_marks page children declared.1).append (ofBody_marks page rest declared.2)
  | .bracket ⟨.square, _, _, _⟩ :: rest | .bracket ⟨.round, _, _, _⟩ :: rest | .hole :: rest | .text _ _ :: rest
  | .symbol _ _ :: rest | .ident _ :: rest | .stray _ :: rest | .quotation _ _ _ :: rest | .fragment _ :: rest
  | .drawing _ :: rest | .tag _ :: rest | .command _ :: rest =>
    exact (ofNode_marks page _ declared.1).append (ofBody_marks page rest declared.2)
termination_by structural nodes

end

end Html

namespace Compiler

open Compile Builtin

/-- A document that was compiled, from a file or from source text, whatever had been loaded before. -/
def Compiled (compiler : Compiler) (document : Document) : Prop :=
  ∃ limit path session after, compiler.Faithful session ∧
    (outcome ((compiler.within limit).compile path) session = (.ok document, after) ∨
      ∃ source, outcome ((compiler.within limit).compileSource path source) session = (.ok document, after))

theorem Compiled.known {compiler : Compiler} {document : Document} (compiled : compiler.Compiled document)
    (standard : compiler.registry = Builtin.registry) : Declared (Known true) document.nodes := by
  have makes : compiler.registry.Makes (Known true) := standard ▸ makes_known true
  have finishes {path : String} {nodes left : List Node} {sheet : FormulaSheet} (declared : Declared (Known true) nodes)
      (expands : compiler.Expands path [path] true nodes {} left sheet) :
      Declared (Known true) (finished true left sheet).1 :=
    Formula.extractNodes_known true false left (expands.known standard declared) sheet
  obtain ⟨limit, path, session, after, faithful, succeeds | ⟨source, succeeds⟩⟩ := compiled
  · obtain ⟨nodes, left, sheet, loads, expands, rfl⟩ := compileFile_expands faithful succeeds
    exact finishes (loads.declared makes) expands
  · obtain ⟨nodes, left, sheet, ⟨depth, events, resolved⟩, expands, rfl⟩ := compileSource_expands faithful succeeds
    refine finishes (resolve_declared makes _ _ _ _ _ resolved ?_) expands
    exact declared_of_unresolved _ (normalize_ofBytes_unresolved _ fun _ _ => trivial)

/-- The body of a page can always be written, and reads back to the tree that the document is lowered to exactly when
the attributes that its commands pass on have plain names. Text and the values of attributes never get in the way. -/
theorem markup_reads_back (compiler : Compiler) (standard : compiler.registry = Builtin.registry) {document : Document}
    (compiled : compiler.Compiled document) (page : String) (contents : Option Contents) :
    ∃ body, Html.render ((Html.ofNodes page document.nodes).run contents).1 = .ok body ∧
      (Html.read body = some (Html.letteredAll ((Html.ofNodes page document.nodes).run contents).1) ↔
        legible contents.isSome document.nodes = true) := by
  obtain ⟨_, ordinary, plain⟩ := Html.ofNodes_marks page document.nodes (compiled.known standard) contents rfl
  obtain ⟨body, written, reads⟩ := Html.read_render ordinary
  exact ⟨body, written, reads.trans plain⟩

namespace Sample

/-- Markup in headings, in text and in the values of attributes. -/
def marked : String := "\\h1\x7b<script>\x7d\\b[a=<i x='1'>]\x7b</b>&lt;\x7d\\img[src=&quot;><s>]\x7b<u>\x7d"

/-- Markup in the name of an attribute. -/
def injecting : String := "\\b[></b><script>alert(1)</script><b a=1]\x7by\x7d"

def compiledText (source : String) : Option Document :=
  (outcome ((files []).compileSource "doc.ss" (Utf8.encode source)) {}).1.toOption

def bodyOf (document : Document) : Option String :=
  (Html.render ((Html.ofNodes "doc.ss" document.nodes).run (some {})).1).toOption

/-- The names of elements, in order. -/
def elementsOf (nodes : List Html) : List String :=
  nodes.filterMap fun
    | .text _ => none
    | .element name _ _ => some name

theorem compiled_of_text {source : String} {document : Document} (succeeds : compiledText source = some document) :
    (files []).Compiled document := by
  obtain ⟨after, run⟩ : ∃ after,
      outcome ((files []).compileSource "doc.ss" (Utf8.encode source)) {} = (.ok document, after) :=
    ⟨_, Prod.ext (ok_of_toOption succeeds) rfl⟩
  exact ⟨(files []).limit, "doc.ss", {}, after, faithful_empty _, .inr ⟨Utf8.encode source, run⟩⟩

end Sample

theorem markup_reads_back_quoting : ∃ document body, (Sample.files []).registry = Builtin.registry ∧
    (Sample.files []).Compiled document ∧
    Html.render ((Html.ofNodes "doc.ss" document.nodes).run (some {})).1 = .ok body ∧
    body = "<h1 id=\"%3Cscript%3E\"><a href=\"/doc.html#%3Cscript%3E\">&lt;script&gt;</a></h1>" ++
      "<b a=\"&lt;i x=&#39;1&#39;&gt;\">&lt;/b&gt;&amp;lt;</b>" ++
      "<img src=\"&amp;quot;&gt;&lt;s&gt;\" alt=\"&lt;u&gt;\"/>" ∧
    Html.read body = some (Html.letteredAll ((Html.ofNodes "doc.ss" document.nodes).run (some {})).1) := by
  obtain ⟨document, succeeds, seen⟩ := Option.map_eq_some_iff.mp
    (show ((Sample.compiledText Sample.marked).map fun document =>
      (Sample.bodyOf document, legible true document.nodes)) = some (some
        ("<h1 id=\"%3Cscript%3E\"><a href=\"/doc.html#%3Cscript%3E\">&lt;script&gt;</a></h1>" ++
          "<b a=\"&lt;i x=&#39;1&#39;&gt;\">&lt;/b&gt;&amp;lt;</b>" ++
          "<img src=\"&amp;quot;&gt;&lt;s&gt;\" alt=\"&lt;u&gt;\"/>"), true) by decide +kernel)
  obtain ⟨shown, plain⟩ := Prod.mk.inj seen
  have compiled := Sample.compiled_of_text succeeds
  obtain ⟨body, written, reads⟩ := markup_reads_back (Sample.files []) rfl compiled "doc.ss" (some {})
  refine ⟨document, body, rfl, compiled, written, ?_, reads.mpr plain⟩
  rw [Sample.bodyOf, written] at shown
  exact Option.some.inj shown

/-- The name of an attribute that closes its element and opens another one. -/
theorem markup_injected : ∃ document body nodes, (Sample.files []).Compiled document ∧
    Html.render ((Html.ofNodes "doc.ss" document.nodes).run (some {})).1 = .ok body ∧
    body = "<b ></b><script>alert(1)</script><b a=\"1\">y</b>" ∧
    Html.read body = some nodes ∧ Sample.elementsOf nodes = ["b", "script", "b"] ∧
    nodes ≠ Html.letteredAll ((Html.ofNodes "doc.ss" document.nodes).run (some {})).1 := by
  obtain ⟨document, succeeds, seen⟩ := Option.map_eq_some_iff.mp
    (show ((Sample.compiledText Sample.injecting).map fun document => (Sample.bodyOf document,
      Sample.elementsOf (Html.letteredAll ((Html.ofNodes "doc.ss" document.nodes).run (some {})).1))) =
      some (some "<b ></b><script>alert(1)</script><b a=\"1\">y</b>", ["b"]) by decide +kernel)
  obtain ⟨shown, lowered⟩ := Prod.mk.inj seen
  obtain ⟨nodes, reads, elements⟩ := Option.map_eq_some_iff.mp
    (show (Html.read "<b ></b><script>alert(1)</script><b a=\"1\">y</b>").map Sample.elementsOf =
      some ["b", "script", "b"] by decide +kernel)
  refine ⟨document, _, nodes, Sample.compiled_of_text succeeds, Sample.ok_of_toOption shown, rfl, reads, elements, ?_⟩
  rintro rfl
  rw [lowered] at elements
  exact absurd elements (by decide)

end Compiler
end Manuscript
