import Manuscript.Document.Parse
import Manuscript.Registry.Basic

/-! The commands every document can use: headings, text formats, links and images, lists, formulas and the
inclusion of other files. -/

namespace Manuscript.Builtin

def includeIdent : String := "\\include"

def blockText : ScopeConstraint where
  content := .text
  layout := .block

def anyText : ScopeConstraint where
  content := .text
  layout := .both

def symbolic : ScopeConstraint where
  content := .symbolic
  layout := .both

def inlineText : ScopeOverride := ⟨.text, .inline⟩

/-- Exactly `count` curly blocks. -/
def curly (count : Nat) : List ArgumentList := [{ shape := .exact, brackets := List.replicate count .curly }]

def greedy : List ArgumentList := [{ shape := .greedy }]

/-- Stands in a document where a formula was taken out; no source can invoke it. -/
def formulaSlot : Declaration where
  name := "\\mathslot"
  html := .slot
  latex := .nothing

def heading (level : Nat) : Declaration where
  name := "\\h" ++ toString level
  parent := some blockText
  child := some inlineText
  attributes := [{ name := "source" }, { name := "toc-only", type := .bool }, { name := "no-toc", type := .bool }]
  arguments := curly 1
  html := .heading
  latex := .heading
  heading := level

def format (name opening : String) : Declaration where
  name
  parent := some anyText
  child := some inlineText
  arguments := curly 1
  latex := .wrapped opening "\x7d"

def paragraph : Declaration where
  name := "\\p"
  parent := some blockText
  child := some inlineText
  arguments := greedy
  latex := .wrapped "" "\n\n"

def link : Declaration where
  name := "\\link"
  parent := some anyText
  child := some inlineText
  attributes := [{ name := "href", required := true }]
  arguments := curly 1
  html := .link
  latex := .link

def image : Declaration where
  name := "\\img"
  parent := some anyText
  child := some inlineText
  attributes := [{ name := "src", required := true }, { name := "width" }, { name := "height" }]
  arguments := curly 1 ++ [{ shape := .none }]
  html := .image
  latex := .image

def list (name environment : String) : Declaration where
  name
  parent := some blockText
  child := some ⟨.text, .block⟩
  arguments := greedy
  latex := .wrapped ("\\begin\x7b" ++ environment ++ "\x7d\n") ("\\end\x7b" ++ environment ++ "\x7d\n")

def item (list : String) : Declaration where
  name := "\\item"
  parent := some { anyText with ancestor := list }
  arguments := curly 1
  html := .item
  latex := .wrapped "\\item " "\n"

def inlineFormula (name : String) (math : MathSpec) : Declaration where
  name
  parent := some anyText
  child := some ⟨.math, .inline⟩
  arguments := curly 1
  html := .formula
  latex := .wrapped "$" "$"
  math := some math

def equation : Declaration where
  name := "\\equation"
  parent := some blockText
  child := some ⟨.math, .block⟩
  arguments := curly 1
  html := .formula
  latex := .wrapped "\\begin\x7bequation\x7d" "\\end\x7bequation\x7d"
  math := some { environment := "equation", block := true, unique := true }

def fraction : Declaration where
  name := "\\frac"
  parent := some symbolic
  arguments := curly 2

def root : Declaration where
  name := "\\sqrt"
  parent := some symbolic
  ignoresAttributes := true
  arguments := [{ shape := .exact, brackets := [.square, .curly] }, { shape := .exact, brackets := [.curly] }]

def textInFormula : Declaration where
  name := "\\text"
  parent := some symbolic
  child := some inlineText
  arguments := curly 1

def matrix : Declaration where
  name := "\\matrix"
  parent := some symbolic
  arguments := greedy
  latex := .matrix

def inclusion : Declaration where
  name := includeIdent
  parent := some anyText
  attributes := [{ name := "src", required := true }, { name := "baseline", type := .heading },
    { name := "toc-only", type := .bool }, { name := "no-toc", type := .bool }]
  arguments := [{ shape := .none }]
  html := .nothing
  latex := .input
  defersRules := true

def declarations : List Declaration :=
  (List.range 6).map (heading <| · + 1) ++
  [format "\\b" "\\textbf\x7b", format "\\i" "\\textit\x7b", format "\\u" "\\underline\x7b",
   format "\\code" "\\texttt\x7b", paragraph, link, image, list "\\ul" "itemize", list "\\ol" "enumerate",
   item "\\ul", item "\\ol", inlineFormula Parse.inlineMath {}, inlineFormula "\\math" { unique := true }, equation,
   fraction, root, textInFormula, matrix, inclusion]

def registry : Registry := .ofList declarations

end Manuscript.Builtin
