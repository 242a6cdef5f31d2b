/-! HTML trees and how they are written. Text and attribute values are escaped, names are written as they are. -/

namespace Manuscript

inductive Html where
  | text (data : String)
  | element (name : String) (attributes : List (String × String)) (children : List Html)
deriving Repr

namespace Html

def escapeChar (c : Char) : String :=
  match c with
  | '&' => "&amp;"
  | '\'' => "&#39;"
  | '<' => "&lt;"
  | '>' => "&gt;"
  | '"' => "&#34;"
  | '\r' => "&#13;"
  | _ => c.toString

def escape (text : String) : String := String.join (text.toList.map escapeChar)

/-- Elements that have no content and no closing tag. -/
def isVoid (name : String) : Bool :=
  name ∈ ["area", "base", "br", "col", "embed", "hr", "img", "input", "keygen", "link", "meta", "param", "source",
    "track", "wbr"]

/-- Elements whose own text is not escaped. -/
def isLiteral (name : String) : Bool :=
  name ∈ ["iframe", "noembed", "noframes", "noscript", "plaintext", "script", "style", "xmp"]

/-- Elements in which a newline right behind the opening tag is not part of the content. -/
def swallowsNewline (name : String) : Bool := name ∈ ["pre", "listing", "textarea"]

/-- Why writing ended early: text after `plaintext` cannot be told from its content, and a void element cannot
hold children. -/
inductive Stop where
  | plaintext
  | voidChildren (name : String)
deriving DecidableEq, Repr

/-- What was written, and what ended it early if anything did. -/
structure Written where
  output : String := ""
  stop : Option Stop := none
deriving DecidableEq, Repr

namespace Written

/-- Nothing more is written after a stop. -/
def andThen (first second : Written) : Written :=
  if first.stop.isSome then first else ⟨first.output ++ second.output, second.stop⟩

end Written

def writeAttributes (attributes : List (String × String)) : String :=
  String.join (attributes.map fun (key, value) => " " ++ key ++ "=\"" ++ escape value ++ "\"")

def startsWithNewline : List Html → Bool
  | text data :: _ => data.startsWith "\n"
  | _ => false

mutual

def write : Html → Written
  | text data => ⟨escape data, none⟩
  | element name attributes children =>
    let tag := "<" ++ name ++ writeAttributes attributes
    if isVoid name then if children.isEmpty then ⟨tag ++ "/>", none⟩ else ⟨tag, some (.voidChildren name)⟩
    else
      let guard := if swallowsNewline name && startsWithNewline children then "\n" else ""
      let closing := if name = "plaintext" then ⟨"", some .plaintext⟩ else ⟨"</" ++ name ++ ">", none⟩
      (Written.andThen ⟨tag ++ ">" ++ guard, none⟩ (writeChildren (isLiteral name) children)).andThen closing
termination_by structural html => html

def writeChildren (literal : Bool) : List Html → Written
  | [] => {}
  | text data :: rest =>
    Written.andThen ⟨if literal then data else escape data, none⟩ (writeChildren literal rest)
  | child :: rest => (write child).andThen (writeChildren literal rest)
termination_by structural children => children

end

/-- Writes top-level nodes one after the other. A `plaintext` element ends only the node it stands in. -/
def writeAll : List Html → Written
  | [] => {}
  | html :: rest =>
    let written := write html
    let written := if written.stop = some .plaintext then { written with stop := none } else written
    written.andThen (writeAll rest)

/-- A void element with children, the one failure of writing. -/
structure VoidChildren where
  name : String
deriving DecidableEq, Repr

def VoidChildren.message (error : VoidChildren) : String :=
  "html: void element <" ++ error.name ++ "> has child nodes"

def render (nodes : List Html) : Except VoidChildren String :=
  let written := writeAll nodes
  match written.stop with
  | some (.voidChildren name) => .error ⟨name⟩
  | _ => .ok written.output

end Html
end Manuscript
