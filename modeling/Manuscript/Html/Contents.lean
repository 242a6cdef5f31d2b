import Manuscript.Html.Tree
import Manuscript.Text.Path
import Manuscript.Text.Percent

/-! The table of contents of a page. Every heading gets an anchor that is unique on its page and safe in a URL. -/

namespace Manuscript

/-- Anchors in use and the entries so far, both in order. -/
structure Contents where
  used : List String := []
  items : List Html := []

namespace Contents

/-- The anchor a heading would have to itself: its words joined by dashes, percent-encoded. -/
def baseOf (bytes : Bytes) : String :=
  let words := Percent.fields ((Percent.decode bytes).getD bytes)
  if words.isEmpty then "section" else Percent.encode ([0x2D].intercalate words)

def anchorBase (text : String) : String := baseOf (Utf8.encode text)

/-- The base itself, then the base with numbers from one on. -/
def candidate (base : String) : Nat → String
  | 0 => base
  | number => base ++ toString number

/-- The first candidate that is free. One more candidate than there are anchors in use always suffices. -/
def freeAnchor (used : List String) (base : String) : String :=
  (((List.range (used.length + 1)).map (candidate base)).find? (!used.contains ·)).getD base

/-- The anchor for a heading with this text, which need not be well formed. -/
def anchorOf (contents : Contents) (bytes : Bytes) : String × Contents :=
  let id := freeAnchor contents.used (baseOf bytes)
  (id, { contents with used := contents.used ++ [id] })

def anchor (contents : Contents) (text : String) : String × Contents := contents.anchorOf (Utf8.encode text)

def add (contents : Contents) (level : Int) (href : String) (external : Bool) (children : List Html) : Contents :=
  let link := Html.element "a" [("href", href)] children
  let kind := if external then "toc-external" else "toc-local"
  { contents with
    items := contents.items ++ [.element "li" [("class", kind), ("data-level", toString level)] [link]] }

/-- The entries as a list. -/
def list (contents : Contents) : Html := .element "ul" [("class", "toc")] contents.items

end Contents

/-- The address of the page compiled from a source file. -/
def pageUrl (source : String) : String :=
  let path := Path.clean (String.ofList (source.toList.map fun c => if c = '\\' then '/' else c))
  "/" ++ Path.dropBeginning (Path.dropEnding path ".ss") "/" ++ ".html"

end Manuscript
