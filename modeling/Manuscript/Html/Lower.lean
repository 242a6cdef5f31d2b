import Manuscript.Html.Contents
import Manuscript.Latex.Write
import Manuscript.Number.Measure
import Manuscript.Text.Base64

/-! A document as HTML. Headings register themselves in the table of contents, if there is one, in the order in
which they are met. -/

namespace Manuscript

namespace Typography

/-- Replaces dashes, double angle brackets and tildes by typographic marks, the longer sequence first. -/
def ligatures : List Char → List Char
  | '-' :: '-' :: '-' :: rest => '—' :: ligatures rest
  | '-' :: '-' :: rest => '–' :: ligatures rest
  | '<' :: '<' :: rest => '«' :: ligatures rest
  | '~' :: rest => '\u00A0' :: ligatures rest
  | c :: rest => c :: ligatures rest
  | [] => []

/-- How a word of text is shown. -/
def shown (word : String) : String :=
  if word = ">>" then "»" else if word = "=>" then "⇒" else String.ofList (ligatures word.toList)

end Typography

namespace Html

/-- Lowering keeps the table of contents as it goes; `none` when there is none to keep. -/
abbrev Lower := StateM (Option Contents)

def shownText (word : String) : List Html := if word = "" then [] else [.text (Typography.shown word)]

def nameOf (ident : Ident) : String :=
  let name := Path.dropBeginning ident.name "\\"
  if name = "" then "span" else name

def attributesOf (items : Attributes) : List (String × String) :=
  items.map fun item => (item.key.flatten, (item.value.map Node.flatten).getD "")

def pictureUrl (data : Bytes) : String := "data:image/svg+xml;base64," ++ Base64.encode data

def picture (scheme : String) (data : Bytes) (name : String) : Html :=
  .element "img" [("class", "drawing-" ++ scheme), ("src", pictureUrl data), ("alt", name)] []

/-- Measurements are shown in pixels where they can be. -/
def size (raw : String) : String :=
  match Measure.pixels raw with
  | .ok bits => Shortest.text .single bits
  | .error _ => raw

def image (attributes : Attributes) (alt : String) : Html :=
  let sizes := ["width", "height"].filterMap fun key => (Attributes.value? attributes key).map fun raw => (key, size raw)
  .element "img" ([("src", (Attributes.value? attributes "src").getD "")] ++
    (if alt = "" then [] else [("alt", alt)]) ++ sizes) []

/-- A formula that was not taken out of the text is shown as its source. -/
def formula (block : Bool) (source : String) : Html :=
  if block then .element "div" [("class", "math math-block")] [.text source]
  else .element "span" [("class", "math math-inline")] [.text source]

/-- The place a formula is typeset into. -/
def slot (attributes : Attributes) : Html :=
  let display := (Attributes.value? attributes "display").getD ""
  .element (if display = "block" then "div" else "span")
    [("id", (Attributes.value? attributes "id").getD ""), ("class", "math math-" ++ display)] []

/-- A heading with its anchor. Headings of another source link to the page of that source; `no-toc` keeps a
heading out of the table of contents and `toc-only` out of the text. -/
def heading (page : String) (level : Nat) (attributes : Attributes) (title : String) (children : List Html) :
    Lower (List Html) := fun contents =>
  let name := "h" ++ toString level
  match contents with
  | none => ([.element name [] children], none)
  | some contents =>
    let (id, contents) := contents.anchor title
    let source := Attributes.value? attributes "source"
    let href := pageUrl (source.getD page) ++ "#" ++ id
    let contents :=
      if Attributes.has attributes "no-toc" then contents else contents.add level href source.isSome [.text title]
    let shown := if Attributes.has attributes "toc-only" then []
      else [Html.element name [("id", id)] [.element "a" [("href", href)] children]]
    (shown, some contents)

mutual

def ofNode (page : String) : Node → Lower (List Html)
  | .hole => pure []
  | .text value _ => pure [.text (Typography.shown value)]
  | .symbol value _ => pure [.text (Typography.shown value)]
  | .ident ident => pure [.text ident.name]
  | .stray token => pure [.text token.text]
  | .bracket block => ofBlock page block
  | .quotation _ closing children => do
    pure ([.text "“"] ++ (← ofNodes page children) ++ (if closing.isSome then [.text "”"] else []))
  | .fragment children => ofNodes page children
  | .drawing drawing => pure [picture "light" drawing.light drawing.name, picture "dark" drawing.dark drawing.name]
  | .tag ⟨ident, options, _, args, _⟩ => do
    let options ← ofOptions page options
    pure ([.text ident.name] ++ options ++ (← ofBlocks page args))
  | .command ⟨ident, attributes, args, declaration, _⟩ =>
    let items := attributes.getD []
    match (declaration.map Declaration.html).getD .element with
    | .element => do pure [.element (nameOf ident) (attributesOf items) (← ofBody page args)]
    | .heading => do
      heading page ((declaration.map Declaration.heading).getD 0) items (flattenBody args) (← ofBody page args)
    | .link => do pure [.element "a" [("href", (Attributes.value? items "href").getD "")] (← ofBody page args)]
    | .image => pure [image items (flattenBody args)]
    | .item => do pure [.element "li" [] (← ofBody page args)]
    | .formula => pure [formula (((declaration.bind Declaration.math).map MathSpec.block).getD false) (latexBody args)]
    | .slot => pure [slot items]
    | .nothing => pure []
termination_by structural node => node

def ofNodes (page : String) : List Node → Lower (List Html)
  | [] => pure []
  | node :: rest => do
    let html ← ofNode page node
    pure (html ++ (← ofNodes page rest))
termination_by structural nodes => nodes

def ofBlock (page : String) : Block Node → Lower (List Html)
  | ⟨_, opening, closing, children⟩ => do
    pure (shownText (Token.textOf opening) ++ (← ofNodes page children) ++ shownText (Token.textOf closing))
termination_by structural block => block

def ofOptions (page : String) : Option (Block Node) → Lower (List Html)
  | none => pure []
  | some block => ofBlock page block
termination_by structural options => options

def ofBlocks (page : String) : List (Block Node) → Lower (List Html)
  | [] => pure []
  | block :: rest => do
    let html ← ofBlock page block
    pure (html ++ (← ofBlocks page rest))
termination_by structural blocks => blocks

/-- Arguments without their outermost curly braces. -/
def ofBody (page : String) : List Node → Lower (List Html)
  | [] => pure []
  | .bracket ⟨.curly, _, _, children⟩ :: rest => do
    let html ← ofNodes page children
    pure (html ++ (← ofBody page rest))
  | node :: rest => do
    let html ← ofNode page node
    pure (html ++ (← ofBody page rest))
termination_by structural nodes => nodes

end

end Html
end Manuscript
