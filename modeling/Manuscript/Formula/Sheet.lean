import Manuscript.Text.Hex

/-! Formulas taken out of a document to be typeset by the reader's browser. Each has an id under which its place
in the page is found. Formulas that need not be unique share an entry when they are the same. -/

namespace Manuscript

structure Formula where
  id : String
  latex : String
  block : Bool
  unique : Bool
deriving DecidableEq, Repr

/-- The formulas of a document in order of first use. `issued` counts the ids handed out so far, so that sheets
filled one after the other never use an id twice. -/
structure FormulaSheet where
  entries : List Formula := []
  issued : Nat := 0
deriving DecidableEq, Repr

namespace FormulaSheet

/-- Ids have the form of random UUIDs; the number fills the last group. -/
def idOf (number : Nat) : String :=
  "00000000-0000-4000-8000-" ++ String.ofList (Hex.digits Hex.lowerDigit 12 number)

/-- A sheet without entries that goes on numbering where another one is. -/
def successor (sheet : FormulaSheet) : FormulaSheet where
  issued := sheet.issued

def shared? (sheet : FormulaSheet) (latex : String) (block : Bool) : Option Formula :=
  sheet.entries.find? fun entry => !entry.unique && entry.block == block && entry.latex == latex

/-- The id of a formula, with a new entry unless it can share one. -/
def add (sheet : FormulaSheet) (latex : String) (block unique : Bool) : String × FormulaSheet :=
  match if unique then none else sheet.shared? latex block with
  | some entry => (entry.id, sheet)
  | none =>
    let id := idOf (sheet.issued + 1)
    (id, ⟨sheet.entries ++ [⟨id, latex, block, unique⟩], sheet.issued + 1⟩)

/-- Appends the entries of an included document whose ids are not there yet. -/
def merge (sheet other : FormulaSheet) : FormulaSheet where
  entries := other.entries.foldl (fun known entry =>
    if known.any (·.id == entry.id) then known else known ++ [entry]) sheet.entries
  issued := max sheet.issued other.issued

/-- Text as a string literal of a script inside a page: nothing in it can end the script element. -/
def literalChar (c : Char) : List Char :=
  match c with
  | '"' => ['\\', '"']
  | '\\' => ['\\', '\\']
  | '\n' => ['\\', 'n']
  | '\r' => ['\\', 'r']
  | '\t' => ['\\', 't']
  | _ =>
    let code := c.toNat
    if code = 0x08 then ['\\', 'b']
    else if code = 0x0C then ['\\', 'f']
    else if code < 0x20 || c ∈ ['<', '>', '&'] || code = 0x2028 || code = 0x2029 then
      '\\' :: 'u' :: Hex.digits Hex.lowerDigit 4 code
    else [c]

def literal (text : String) : String := String.ofList ('"' :: text.toList.flatMap literalChar ++ ['"'])

/-- The call that typesets one formula. -/
def scriptLine (entry : Formula) : String :=
  let mode := if entry.block then ", displayMode: true\x7d" else "\x7d"
  "katex.render(" ++ literal entry.latex ++ ", document.getElementById(" ++ literal entry.id ++
    "), \x7bthrowOnError: true" ++ mode ++ ");\n"

/-- The script that typesets every formula into its place. -/
def script (sheet : FormulaSheet) : String := String.join (sheet.entries.map scriptLine)

end FormulaSheet
end Manuscript
