import Manuscript.Html.Lower
import Manuscript.Project.Compiler

/-! Complete pages: a document inside the shell that a template gives. -/

namespace Manuscript

/-- An empty template stands for the default one. -/
structure PageLayout where
  template : String := ""
  styles : List String := []
  scripts : List String := []

namespace Page

/-- Places of a template are marked by a name in double braces. -/
def place (name : String) : String := "\x7b\x7b" ++ name ++ "\x7d\x7d"

def defaultTemplate : String :=
  "<!DOCTYPE html>\n<html>\n<head>\n<meta charset=\"utf-8\">\n<title>" ++ place "title" ++ "</title>\n" ++
  place "head" ++ "\n</head>\n<body>\n<nav>" ++ place "toc" ++ "</nav>\n<main>" ++ place "body" ++
  "</main>\n<script>\n" ++ place "math" ++ "</script>\n</body>\n</html>\n"

/-- Fills the places of a template. `name` holds the characters of an open place, latest first. A place that is
never closed is no place. -/
def fillFrom (value : String → String) : (name : Option (List Char)) → List Char → List Char
  | none, [] => []
  | none, '\x7b' :: '\x7b' :: rest => fillFrom value (some []) rest
  | none, c :: rest => c :: fillFrom value none rest
  | some name, [] => '\x7b' :: '\x7b' :: name.reverse
  | some name, '\x7d' :: '\x7d' :: rest =>
    (value (String.ofList name.reverse)).toList ++ fillFrom value none rest
  | some name, c :: rest => fillFrom value (some (c :: name)) rest

def fill (template : String) (value : String → String) : String :=
  String.ofList (fillFrom value none template.toList)

/-- Links to styles and scripts, each on a line of its own. -/
def head (layout : PageLayout) : List Html :=
  (layout.styles.flatMap fun href => [.element "link" [("rel", "stylesheet"), ("href", href)] [], .text "\n"]) ++
  layout.scripts.flatMap fun src => [.element "script" [("src", src)] [], .text "\n"]

/-- The text of the first heading that has some, or the name of the file. -/
def title (document : Document) : String :=
  let titles := (Outline.collect document.nodes).map fun heading => Blank.trim (flattenBody heading.args)
  (titles.find? (· ≠ "")).getD (Path.dropEnding (Path.base document.path) sourceExt)

end Page

def renderHtml (nodes : List Html) : Except Failure String :=
  match Html.render nodes with
  | .ok text => .ok text
  | .error error => .error (.voidChildren error.name)

/-- A document as a complete page. -/
def renderPage (document : Document) (layout : PageLayout) : Except Failure String := do
  let (nodes, contents) := (Html.ofNodes document.path document.nodes).run (some {})
  let body ← renderHtml nodes
  let list ← renderHtml [(contents.getD {}).list]
  let head ← renderHtml (Page.head layout)
  let template := if layout.template = "" then Page.defaultTemplate else layout.template
  pure (Page.fill template fun name =>
    match name with
    | "title" => Html.escape (Page.title document)
    | "head" => head
    | "toc" => list
    | "body" => body
    | "math" => document.formulas.script
    | _ => "")

end Manuscript
