import Manuscript.Html.Tree
import Mathlib.Data.List.Basic
import Mathlib.Tactic.SplitIfs

/-! Reading what was written. A plain reader of tags goes through a text letter by letter with the elements that are
open on a stack, and resolves character references in text and in attribute values. What is written reads back to the
tree it was written from exactly when the names of attributes hold no letter that ends a name. -/

namespace Manuscript

namespace Html

/-- Letters that end a name and may stand between attributes. -/
def isSeparator (c : Char) : Bool := c ∈ [' ', '\t', '\n', '\r', '\x0c', '/']

/-- A name that ends where it is written to end. An equals sign ends it unless it comes first. -/
def isPlainName : List Char → Bool
  | [] => false
  | c :: rest => !isSeparator c && c != '>' && rest.all fun c => !isSeparator c && c != '>' && c != '='

/-- What an opening tag says. -/
structure Opening where
  name : String
  attributes : List (String × String) := []

namespace Opening

def with_ (opening : Opening) (key value : String) : Opening :=
  { opening with attributes := opening.attributes ++ [(key, value)] }

def element (opening : Opening) (children : List Html) : Html := .element opening.name opening.attributes children

end Opening

/-- Where in a text the reader is, with what it has read of a name, a value or a reference. -/
inductive Place where
  | content
  | reference (read : List Char)
  | tag
  | name (read : List Char)
  | closing (read : List Char)
  | between (opening : Opening)
  | key (opening : Opening) (read : List Char)
  | equals (opening : Opening) (key : String)
  | value (opening : Opening) (key : String) (read : List Char)
  | valueReference (opening : Opening) (key : String) (read reference : List Char)

/-- The children read so far of the innermost element that is open, and the elements that are open, each with what was
read in front of it. -/
structure Reader where
  place : Place := .content
  children : List Html := []
  above : List (Opening × List Html) := []

namespace Reader

/-- The letter that a reference stands for. -/
def referred : List Char → Option Char
  | ['a', 'm', 'p'] => some '&'
  | ['l', 't'] => some '<'
  | ['g', 't'] => some '>'
  | ['q', 'u', 'o', 't'] => some '"'
  | '#' :: digits =>
    if digits.all Char.isDigit && !digits.isEmpty then
      some (Char.ofNat (digits.foldl (fun number digit => 10 * number + (digit.toNat - '0'.toNat)) 0))
    else none
  | _ => none

def add (reader : Reader) (html : Html) : Reader :=
  { reader with place := .content, children := reader.children ++ [html] }

/-- Behind an opening tag. A void element has no content. -/
def enter (reader : Reader) (opening : Opening) : Reader :=
  if isVoid opening.name then reader.add (opening.element [])
  else ⟨.content, [], (opening, reader.children) :: reader.above⟩

/-- Behind a closing tag, which has to be that of the innermost element. -/
def leave (reader : Reader) (name : String) : Option Reader :=
  match reader.above with
  | (opening, before) :: above =>
    if opening.name = name then some ⟨.content, before ++ [opening.element reader.children], above⟩ else none
  | [] => none

def step (reader : Reader) (c : Char) : Option Reader :=
  match reader.place with
  | .content =>
    if c = '<' then some { reader with place := .tag }
    else if c = '&' then some { reader with place := .reference [] }
    else some (reader.add (.text c.toString))
  | .reference read =>
    if c = ';' then (referred read).map fun letter => reader.add (.text letter.toString)
    else some { reader with place := .reference (read ++ [c]) }
  | .tag =>
    if c = '/' then some { reader with place := .closing [] }
    else if isSeparator c || c = '>' then none
    else some { reader with place := .name [c] }
  | .name read =>
    if isSeparator c then some { reader with place := .between ⟨String.ofList read, []⟩ }
    else if c = '>' then some (reader.enter ⟨String.ofList read, []⟩)
    else some { reader with place := .name (read ++ [c]) }
  | .closing read =>
    if c = '>' then reader.leave (String.ofList read) else some { reader with place := .closing (read ++ [c]) }
  | .between opening =>
    if isSeparator c then some reader
    else if c = '>' then some (reader.enter opening)
    else some { reader with place := .key opening [c] }
  | .key opening read =>
    if isSeparator c then some { reader with place := .between (opening.with_ (String.ofList read) "") }
    else if c = '>' then some (reader.enter (opening.with_ (String.ofList read) ""))
    else if c = '=' then some { reader with place := .equals opening (String.ofList read) }
    else some { reader with place := .key opening (read ++ [c]) }
  | .equals opening key => if c = '"' then some { reader with place := .value opening key [] } else none
  | .value opening key read =>
    if c = '"' then some { reader with place := .between (opening.with_ key (String.ofList read)) }
    else if c = '&' then some { reader with place := .valueReference opening key read [] }
    else some { reader with place := .value opening key (read ++ [c]) }
  | .valueReference opening key read reference =>
    if c = ';' then
      (referred reference).map fun letter => { reader with place := .value opening key (read ++ [letter]) }
    else some { reader with place := .valueReference opening key read (reference ++ [c]) }

def run (reader : Reader) (text : List Char) : Option Reader := text.foldlM step reader

/-- What was read, if no element or tag is left open. -/
def result (reader : Reader) : Option (List Html) :=
  match reader.place, reader.above with
  | .content, [] => some reader.children
  | _, _ => none

end Reader

/-- The nodes that a text reads as, each letter of text a node of its own. -/
def read (text : String) : Option (List Html) := (Reader.run {} text.toList).bind Reader.result

mutual

/-- Each letter of text a node of its own, so that it does not show how text was divided. -/
def lettered : Html → List Html
  | .text data => data.toList.map fun c => .text c.toString
  | .element name attributes children => [.element name attributes (letteredAll children)]
termination_by structural html => html

def letteredAll : List Html → List Html
  | [] => []
  | html :: rest => html.lettered ++ letteredAll rest
termination_by structural nodes => nodes

end

mutual

/-- The names of attributes, at every depth. -/
def attributeNames : Html → List String
  | .text _ => []
  | .element _ attributes children => attributes.map Prod.fst ++ attributeNamesAll children
termination_by structural html => html

def attributeNamesAll : List Html → List String
  | [] => []
  | html :: rest => html.attributeNames ++ attributeNamesAll rest
termination_by structural nodes => nodes

end

mutual

/-- Elements with plain names, none of which is written in a way of its own, and void ones without children. -/
def Ordinary : Html → Prop
  | .text _ => True
  | .element name _ children =>
    isPlainName name.toList = true ∧ isLiteral name = false ∧ swallowsNewline name = false ∧
      (isVoid name = true → children = []) ∧ OrdinaryAll children
termination_by structural html => html

def OrdinaryAll : List Html → Prop
  | [] => True
  | html :: rest => html.Ordinary ∧ OrdinaryAll rest
termination_by structural nodes => nodes

end

section Written

theorem attributeNamesAll_append (nodes others : List Html) :
    attributeNamesAll (nodes ++ others) = attributeNamesAll nodes ++ attributeNamesAll others := by
  induction nodes with
  | nil => rfl
  | cons html nodes ih => rw [List.cons_append, attributeNamesAll, attributeNamesAll, ih, List.append_assoc]

theorem ordinaryAll_append {nodes others : List Html} (first : OrdinaryAll nodes) (second : OrdinaryAll others) :
    OrdinaryAll (nodes ++ others) := by
  induction nodes with
  | nil => exact second
  | cons html nodes ih => exact ⟨first.1, ih first.2⟩

theorem attributeNames_letters (letters : List Char) :
    attributeNamesAll (letters.map fun c => .text c.toString) = [] := by
  induction letters with
  | nil => rfl
  | cons c letters ih => simpa [attributeNamesAll, attributeNames] using ih

mutual

theorem attributeNames_lettered (html : Html) : attributeNamesAll html.lettered = html.attributeNames := by
  cases html with
  | text data => exact attributeNames_letters data.toList
  | element name attributes children =>
    simp [lettered, attributeNamesAll, attributeNames, attributeNamesAll_lettered children]
termination_by structural html

theorem attributeNamesAll_lettered (nodes : List Html) :
    attributeNamesAll (letteredAll nodes) = attributeNamesAll nodes := by
  cases nodes with
  | nil => rfl
  | cons html rest =>
    rw [letteredAll, attributeNamesAll_append, attributeNames_lettered html, attributeNamesAll_lettered rest,
      attributeNamesAll]
termination_by structural nodes

end

/-- A text as it is written, letter by letter. -/
def escaped (data : String) : List Char := data.toList.flatMap fun c => (escapeChar c).toList

def spelledAttribute (pair : String × String) : List Char :=
  ' ' :: pair.1.toList ++ '=' :: '"' :: escaped pair.2 ++ ['"']

mutual

/-- How an ordinary tree is written. -/
def spelled : Html → List Char
  | .text data => escaped data
  | .element name attributes children =>
    '<' :: name.toList ++ attributes.flatMap spelledAttribute ++
      if isVoid name then ['/', '>'] else '>' :: spelledAll children ++ '<' :: '/' :: name.toList ++ ['>']
termination_by structural html => html

def spelledAll : List Html → List Char
  | [] => []
  | html :: rest => html.spelled ++ spelledAll rest
termination_by structural nodes => nodes

end

/-- What is written to the end, and reads `text`. -/
def Spells (written : Written) (text : List Char) : Prop := written.stop = none ∧ written.output.toList = text

theorem Spells.andThen {first second : Written} {text more : List Char} (front : Spells first text)
    (behind : Spells second more) : Spells (first.andThen second) (text ++ more) := by
  obtain ⟨done, rfl⟩ := front
  obtain ⟨further, rfl⟩ := behind
  simp [Spells, Written.andThen, done, further]

theorem escape_toList (data : String) : (escape data).toList = escaped data := by
  simp [escape, escaped, List.flatMap_map]

theorem writeAttributes_toList (attributes : List (String × String)) :
    (writeAttributes attributes).toList = attributes.flatMap spelledAttribute := by
  simp only [writeAttributes, String.toList_join, List.flatMap_map]
  refine List.flatMap_congr fun pair _ => ?_
  simp [spelledAttribute, escape_toList]

mutual

theorem write_spells (html : Html) (ordinary : html.Ordinary) : Spells (write html) html.spelled := by
  cases html with
  | text data => exact ⟨rfl, escape_toList data⟩
  | element name attributes children =>
    obtain ⟨_, other, same, empty, inside⟩ := ordinary
    have within := writeChildren_spells children inside
    rw [write, spelled]
    split
    next void =>
      obtain rfl := empty void
      exact ⟨rfl, by simp [writeAttributes_toList]⟩
    next =>
      have named : name ≠ "plaintext" := by
        rintro rfl
        exact absurd other (by decide)
      simp only [other, same, Bool.false_and, Bool.false_eq_true, if_false, named]
      have front : Spells ⟨"<" ++ name ++ writeAttributes attributes ++ ">" ++ "", none⟩
          ('<' :: name.toList ++ attributes.flatMap spelledAttribute ++ ['>']) :=
        ⟨rfl, by simp [writeAttributes_toList]⟩
      have back : Spells ⟨"</" ++ name ++ ">", none⟩ ('<' :: '/' :: name.toList ++ ['>']) := ⟨rfl, by simp⟩
      simpa using (front.andThen within).andThen back
termination_by structural html

theorem writeChildren_spells (nodes : List Html) (ordinary : OrdinaryAll nodes) :
    Spells (writeChildren false nodes) (spelledAll nodes) := by
  match nodes with
  | [] => exact ⟨rfl, rfl⟩
  | .text data :: rest =>
    rw [writeChildren]
    exact Spells.andThen ⟨rfl, escape_toList data⟩ (writeChildren_spells rest ordinary.2)
  | .element name attributes children :: rest =>
    rw [writeChildren]
    · exact (write_spells (.element name attributes children) ordinary.1).andThen (writeChildren_spells rest ordinary.2)
    · simp
termination_by structural nodes

end

end Written

section Reading

namespace Reader

variable {children : List Html} {above : List (Opening × List Html)}

theorem run_cons (reader : Reader) (c : Char) (rest : List Char) :
    run reader (c :: rest) = (reader.step c).bind fun next => run next rest := List.foldlM_cons ..

theorem run_append (reader : Reader) (text more : List Char) :
    run reader (text ++ more) = (run reader text).bind fun next => run next more := List.foldlM_append ..

theorem run_letter (c : Char) : run ⟨.content, children, above⟩ (escapeChar c).toList =
    some ⟨.content, children ++ [.text c.toString], above⟩ := by
  unfold escapeChar
  split
  case h_7 => simp_all [step, run, add]
  all_goals rfl

theorem run_valueLetter (opening : Opening) (key : String) (read : List Char) (c : Char) :
    run ⟨.value opening key read, children, above⟩ (escapeChar c).toList =
      some ⟨.value opening key (read ++ [c]), children, above⟩ := by
  unfold escapeChar
  split
  case h_7 => simp_all [step, run]
  all_goals rfl

theorem run_text (data : String) : run ⟨.content, children, above⟩ (escaped data) =
    some ⟨.content, children ++ (Html.text data).lettered, above⟩ := by
  unfold escaped lettered
  induction data.toList generalizing children with
  | nil => simp [run]
  | cons c letters ih => simp [run_append, run_letter, ih]

theorem run_value (opening : Opening) (key data : String) (read : List Char) :
    run ⟨.value opening key read, children, above⟩ (escaped data) =
      some ⟨.value opening key (read ++ data.toList), children, above⟩ := by
  unfold escaped
  induction data.toList generalizing read with
  | nil => simp [run]
  | cons c letters ih => simp [run_append, run_valueLetter, ih]

/-- Nothing ends a plain name before its end. -/
theorem isPlainName_cons {c : Char} {rest : List Char} : isPlainName (c :: rest) = true ↔
    (isSeparator c = false ∧ c ≠ '>') ∧ ∀ other ∈ rest, isSeparator other = false ∧ other ≠ '>' ∧ other ≠ '=' := by
  simp [isPlainName, and_assoc]

theorem isPlainName_concat {letters : List Char} {c : Char} (plain : isPlainName letters = true)
    (other : isSeparator c = false ∧ c ≠ '>' ∧ c ≠ '=') : isPlainName (letters ++ [c]) = true := by
  cases letters with
  | nil => cases plain
  | cons first rest =>
    rw [isPlainName_cons] at plain
    rw [List.cons_append, isPlainName_cons]
    exact ⟨plain.1, List.forall_mem_append.mpr ⟨plain.2, List.forall_mem_singleton.mpr other⟩⟩

theorem run_key (opening : Opening) (read letters : List Char)
    (plain : ∀ c ∈ letters, isSeparator c = false ∧ c ≠ '>' ∧ c ≠ '=') :
    run ⟨.key opening read, children, above⟩ letters = some ⟨.key opening (read ++ letters), children, above⟩ := by
  induction letters generalizing read with
  | nil => simp [run]
  | cons c letters ih =>
    obtain ⟨first, others⟩ := List.forall_mem_cons.mp plain
    simp [run_cons, step, first, ih _ others]

theorem run_name (read letters : List Char) (plain : ∀ c ∈ letters, isSeparator c = false ∧ c ≠ '>' ∧ c ≠ '=') :
    run ⟨.name read, children, above⟩ letters = some ⟨.name (read ++ letters), children, above⟩ := by
  induction letters generalizing read with
  | nil => simp [run]
  | cons c letters ih =>
    obtain ⟨first, others⟩ := List.forall_mem_cons.mp plain
    simp [run_cons, step, first, ih _ others]

theorem run_closing (read letters : List Char) (plain : ∀ c ∈ letters, c ≠ '>') :
    run ⟨.closing read, children, above⟩ letters = some ⟨.closing (read ++ letters), children, above⟩ := by
  induction letters generalizing read with
  | nil => simp [run]
  | cons c letters ih =>
    obtain ⟨first, others⟩ := List.forall_mem_cons.mp plain
    simp [run_cons, step, first, ih _ others]

/-- The reader is inside an opening tag, behind its name or behind an attribute. -/
def Inside (place : Place) (opening : Opening) : Prop :=
  place = .between opening ∨ ∃ read, place = .name read ∧ opening = ⟨String.ofList read, []⟩

theorem step_separator {place : Place} {opening : Opening} (inside : Inside place opening) {c : Char}
    (separates : isSeparator c = true) :
    step ⟨place, children, above⟩ c = some ⟨.between opening, children, above⟩ := by
  rcases inside with rfl | ⟨read, rfl, rfl⟩ <;> simp [step, separates]

theorem step_end {place : Place} {opening : Opening} (inside : Inside place opening) :
    step ⟨place, children, above⟩ '>' = some (enter ⟨place, children, above⟩ opening) := by
  have other : isSeparator '>' = false := by decide
  rcases inside with rfl | ⟨read, rfl, rfl⟩ <;> simp [step, other]

theorem run_attribute {place : Place} {opening : Opening} (inside : Inside place opening) {pair : String × String}
    (plain : isPlainName pair.1.toList = true) :
    run ⟨place, children, above⟩ (spelledAttribute pair) =
      some ⟨.between (opening.with_ pair.1 pair.2), children, above⟩ := by
  obtain ⟨key, value⟩ := pair
  obtain ⟨c, rest, split⟩ : ∃ c rest, key.toList = c :: rest := List.exists_cons_of_ne_nil (by
    rintro empty
    rw [empty] at plain
    cases plain)
  rw [split, isPlainName_cons] at plain
  have named : String.ofList (c :: rest) = key := by rw [← split, String.ofList_toList]
  have separates : isSeparator '=' = false := by decide
  have start : step ⟨.between opening, children, above⟩ c = some ⟨.key opening [c], children, above⟩ := by
    simp [step, plain.1]
  have equals : step ⟨.key opening (c :: rest), children, above⟩ '=' = some ⟨.equals opening key, children, above⟩ := by
    simp [step, separates, named]
  calc run ⟨place, children, above⟩ (spelledAttribute (key, value))
      = run ⟨.between opening, children, above⟩ (c :: rest ++ '=' :: '"' :: escaped value ++ ['"']) := by
        simp only [spelledAttribute, split, List.cons_append, run_cons, step_separator inside (c := ' ') (by decide),
          Option.bind_some]
    _ = run ⟨.key opening (c :: rest), children, above⟩ ('=' :: '"' :: escaped value ++ ['"']) := by
        rw [List.append_assoc, List.cons_append, run_cons, start, Option.bind_some, run_append,
          run_key opening [c] rest plain.2]
        rfl
    _ = run ⟨.value opening key [], children, above⟩ (escaped value ++ ['"']) := by
        rw [List.cons_append, List.cons_append, run_cons, equals, Option.bind_some, run_cons]
        rfl
    _ = some ⟨.between (opening.with_ key value), children, above⟩ := by
        rw [run_append, run_value, List.nil_append, Option.bind_some, run_cons]
        simp [step, run]

theorem run_attributes (children : List Html) (above : List (Opening × List Html)) {place : Place} {opening : Opening}
    (inside : Inside place opening) (pairs : List (String × String))
    (plain : ∀ pair ∈ pairs, isPlainName pair.1.toList = true) :
    ∃ next, run ⟨place, children, above⟩ (pairs.flatMap spelledAttribute) = some ⟨next, children, above⟩ ∧
      Inside next ⟨opening.name, opening.attributes ++ pairs⟩ := by
  induction pairs generalizing place opening with
  | nil => exact ⟨place, rfl, by simpa using inside⟩
  | cons pair pairs ih =>
    obtain ⟨first, others⟩ := List.forall_mem_cons.mp plain
    obtain ⟨next, reads, within⟩ := ih (.inl rfl : Inside (.between (opening.with_ pair.1 pair.2)) _) others
    refine ⟨next, ?_, by simpa [Opening.with_] using within⟩
    rw [List.flatMap_cons, run_append, run_attribute inside first]
    exact reads

theorem run_opening (children : List Html) (above : List (Opening × List Html)) {name : String}
    (named : isPlainName name.toList = true) {pairs : List (String × String)}
    (plain : ∀ pair ∈ pairs, isPlainName pair.1.toList = true) :
    ∃ place, run ⟨.content, children, above⟩ ('<' :: name.toList ++ pairs.flatMap spelledAttribute) =
      some ⟨place, children, above⟩ ∧ Inside place ⟨name, pairs⟩ := by
  obtain ⟨c, rest, split⟩ : ∃ c rest, name.toList = c :: rest := List.exists_cons_of_ne_nil (by
    rintro empty
    rw [empty] at named
    cases named)
  rw [split, isPlainName_cons] at named
  have whole : String.ofList (c :: rest) = name := by rw [← split, String.ofList_toList]
  have start : step ⟨.tag, children, above⟩ c = some ⟨.name [c], children, above⟩ := by
    have slash : c ≠ '/' := by
      rintro rfl
      exact absurd named.1.1 (by decide)
    simp [step, named.1, slash]
  obtain ⟨place, reads, inside⟩ := run_attributes children above (.inr ⟨c :: rest, rfl, rfl⟩) pairs plain
  rw [whole] at inside
  refine ⟨place, ?_, inside⟩
  rw [split, List.cons_append, List.cons_append, run_cons]
  change (run ⟨.tag, children, above⟩ (c :: (rest ++ pairs.flatMap spelledAttribute))) = _
  rw [run_cons, start, Option.bind_some, run_append, run_name [c] rest named.2]
  exact reads

theorem run_closed {opening : Opening} (before : List Html) (named : isPlainName opening.name.toList = true) :
    run ⟨.content, children, (opening, before) :: above⟩ ('<' :: '/' :: opening.name.toList ++ ['>']) =
      some ⟨.content, before ++ [opening.element children], above⟩ := by
  have plain : ∀ c ∈ opening.name.toList, c ≠ '>' := by
    cases split : opening.name.toList with
    | nil => simp
    | cons c rest =>
      rw [split, isPlainName_cons] at named
      exact List.forall_mem_cons.mpr ⟨named.1.2, fun other member => (named.2 other member).2.1⟩
  rw [List.cons_append, List.cons_append, run_cons]
  change (run ⟨.tag, children, (opening, before) :: above⟩ ('/' :: (opening.name.toList ++ ['>']))) = _
  rw [run_cons]
  change (run ⟨.closing [], children, (opening, before) :: above⟩ (opening.name.toList ++ ['>'])) = _
  rw [run_append, run_closing [] _ plain, List.nil_append, Option.bind_some, run_cons]
  simp [step, leave, run]

mutual

/-- An ordinary tree with plain names of attributes is read back. -/
theorem run_spelled (html : Html) (ordinary : html.Ordinary)
    (plain : ∀ name ∈ html.attributeNames, isPlainName name.toList = true) (children : List Html)
    (above : List (Opening × List Html)) :
    run ⟨.content, children, above⟩ html.spelled = some ⟨.content, children ++ html.lettered, above⟩ := by
  cases html with
  | text data => exact run_text data
  | element name attributes inner =>
    obtain ⟨named, _, _, empty, below⟩ := ordinary
    simp only [attributeNames, List.forall_mem_append, List.forall_mem_map] at plain
    obtain ⟨place, reads, inside⟩ := run_opening children above named plain.1
    rw [spelled, run_append, reads, Option.bind_some, lettered]
    split
    next void =>
      obtain rfl := empty void
      rw [run_cons, step_separator inside (by decide), Option.bind_some, run_cons, step_end (.inl rfl)]
      simp [enter, void, run, add, Opening.element, letteredAll]
    next other =>
      rw [List.append_assoc, List.cons_append, run_cons, step_end inside, Option.bind_some, enter, if_neg other,
        run_append, run_spelledAll inner below plain.2, Option.bind_some, List.nil_append]
      exact run_closed children named
termination_by structural html

theorem run_spelledAll (nodes : List Html) (ordinary : OrdinaryAll nodes)
    (plain : ∀ name ∈ attributeNamesAll nodes, isPlainName name.toList = true) (children : List Html)
    (above : List (Opening × List Html)) :
    run ⟨.content, children, above⟩ (spelledAll nodes) = some ⟨.content, children ++ letteredAll nodes, above⟩ := by
  cases nodes with
  | nil => simp [spelledAll, letteredAll, run]
  | cons html rest =>
    simp only [attributeNamesAll, List.forall_mem_append] at plain
    rw [spelledAll, run_append, run_spelled html ordinary.1 plain.1, Option.bind_some,
      run_spelledAll rest ordinary.2 plain.2, letteredAll, List.append_assoc]
termination_by structural nodes

end

end Reader

end Reading

section Names

/-- All names of attributes are plain. -/
def PlainAttributes (nodes : List Html) : Prop := ∀ name ∈ attributeNamesAll nodes, isPlainName name.toList = true

theorem PlainAttributes.append {nodes others : List Html} (first : PlainAttributes nodes)
    (second : PlainAttributes others) : PlainAttributes (nodes ++ others) := by
  unfold PlainAttributes
  rw [attributeNamesAll_append]
  exact List.forall_mem_append.mpr ⟨first, second⟩

namespace Opening

def Plain (opening : Opening) : Prop := ∀ pair ∈ opening.attributes, isPlainName pair.1.toList = true

theorem Plain.with_ {opening : Opening} {key value : String} (plain : opening.Plain)
    (named : isPlainName key.toList = true) : (opening.with_ key value).Plain :=
  List.forall_mem_append.mpr ⟨plain, List.forall_mem_singleton.mpr named⟩

theorem Plain.element {opening : Opening} {children : List Html} (plain : opening.Plain)
    (inside : PlainAttributes children) : PlainAttributes [opening.element children] := by
  simp only [PlainAttributes, attributeNamesAll, Opening.element, attributeNames, List.append_nil,
    List.forall_mem_append, List.forall_mem_map]
  exact ⟨plain, inside⟩

end Opening

/-- Whatever was read of attributes has plain names. -/
def Place.Plain : Place → Prop
  | .content | .reference _ | .tag | .name _ | .closing _ => True
  | .between opening => opening.Plain
  | .key opening read => opening.Plain ∧ isPlainName read = true
  | .equals opening word | .value opening word _ | .valueReference opening word _ _ =>
    opening.Plain ∧ isPlainName word.toList = true

namespace Reader

structure Plain (reader : Reader) : Prop where
  place : reader.place.Plain
  children : PlainAttributes reader.children
  above : ∀ frame ∈ reader.above, frame.1.Plain ∧ PlainAttributes frame.2

variable {reader next : Reader}

theorem Plain.add (plain : reader.Plain) {html : Html} (same : PlainAttributes [html]) : (reader.add html).Plain :=
  ⟨trivial, plain.children.append same, plain.above⟩

theorem Plain.letter (plain : reader.Plain) (letter : Char) : (reader.add (.text letter.toString)).Plain :=
  plain.add (by simp [PlainAttributes, attributeNamesAll, attributeNames])

theorem Plain.moved (plain : reader.Plain) {place : Place} (same : place.Plain) :
    Plain { reader with place := place } := ⟨same, plain.children, plain.above⟩

theorem Plain.enter (plain : reader.Plain) {opening : Opening} (same : opening.Plain) :
    (reader.enter opening).Plain := by
  have empty : PlainAttributes [] := by simp [PlainAttributes, attributeNamesAll]
  unfold Reader.enter
  split
  · exact plain.add (same.element empty)
  · exact ⟨trivial, empty, List.forall_mem_cons.mpr ⟨⟨same, plain.children⟩, plain.above⟩⟩

theorem Plain.leave (plain : reader.Plain) {name : String} (left : reader.leave name = some next) : next.Plain := by
  unfold Reader.leave at left
  split at left
  next opening before above split =>
    obtain ⟨frame, others⟩ := List.forall_mem_cons.mp (split ▸ plain.above)
    split at left
    · cases left
      exact ⟨trivial, frame.2.append (frame.1.element plain.children), others⟩
    · cases left
  next => cases left

/-- No letter that ends a name gets into one. -/
theorem Plain.step (plain : reader.Plain) {c : Char} (moves : reader.step c = some next) : next.Plain := by
  obtain ⟨place, children, above⟩ := reader
  have within := plain.place
  unfold Reader.step at moves
  cases place with
  | content =>
    dsimp only at moves
    split_ifs at moves <;> cases moves
    · exact plain.moved trivial
    · exact plain.moved trivial
    · exact plain.letter c
  | reference read =>
    dsimp only at moves
    split_ifs at moves
    · obtain ⟨letter, _, rfl⟩ := Option.map_eq_some_iff.mp moves
      exact plain.letter letter
    · cases moves
      exact plain.moved trivial
  | tag =>
    dsimp only at moves
    split_ifs at moves <;> cases moves <;> exact plain.moved trivial
  | name read =>
    have bare : Opening.Plain ⟨String.ofList read, []⟩ := List.forall_mem_nil _
    dsimp only at moves
    split_ifs at moves <;> cases moves
    · exact plain.moved bare
    · exact plain.enter bare
    · exact plain.moved trivial
  | closing read =>
    dsimp only at moves
    split_ifs at moves
    · exact plain.leave moves
    · cases moves
      exact plain.moved trivial
  | between opening =>
    dsimp only at moves
    split_ifs at moves with separates ends
    · cases moves
      exact plain
    · cases moves
      exact plain.enter within
    · cases moves
      exact plain.moved ⟨within, isPlainName_cons.mpr ⟨⟨Bool.eq_false_iff.mpr separates, ends⟩, List.forall_mem_nil _⟩⟩
  | key opening read =>
    have flag : (opening.with_ (String.ofList read) "").Plain := within.1.with_ (by simpa using within.2)
    dsimp only at moves
    split_ifs at moves with separates ends equals <;> cases moves
    · exact plain.moved flag
    · exact plain.enter flag
    · exact plain.moved ⟨within.1, by simpa using within.2⟩
    · exact plain.moved ⟨within.1, isPlainName_concat within.2 ⟨Bool.eq_false_iff.mpr separates, ends, equals⟩⟩
  | equals opening name =>
    dsimp only at moves
    split_ifs at moves
    cases moves
    exact plain.moved within
  | value opening name read =>
    dsimp only at moves
    split_ifs at moves <;> cases moves
    · exact plain.moved (within.1.with_ within.2)
    · exact plain.moved within
    · exact plain.moved within
  | valueReference opening name read reference =>
    dsimp only at moves
    split_ifs at moves
    · obtain ⟨letter, _, rfl⟩ := Option.map_eq_some_iff.mp moves
      exact plain.moved within
    · cases moves
      exact plain.moved within

theorem Plain.run (plain : reader.Plain) {text : List Char} (reads : reader.run text = some next) : next.Plain := by
  induction text generalizing reader with
  | nil =>
    cases reads
    exact plain
  | cons c text ih =>
    rw [run_cons] at reads
    obtain ⟨middle, moves, further⟩ := Option.bind_eq_some_iff.mp reads
    exact ih (plain.step moves) further

end Reader

/-- Whatever a text reads as, the names of attributes in it are plain. -/
theorem read_plain {text : String} {nodes : List Html} (reads : read text = some nodes) : PlainAttributes nodes := by
  obtain ⟨reader, runs, result⟩ := Option.bind_eq_some_iff.mp reads
  have empty : PlainAttributes [] := by simp [PlainAttributes, attributeNamesAll]
  have start : Reader.Plain {} := ⟨trivial, empty, List.forall_mem_nil _⟩
  have plain := start.run runs
  unfold Reader.result at result
  split at result
  · cases result
    exact plain.children
  · cases result

end Names

theorem writeAll_spells (nodes : List Html) (ordinary : OrdinaryAll nodes) :
    Spells (writeAll nodes) (spelledAll nodes) := by
  induction nodes with
  | nil => exact ⟨rfl, rfl⟩
  | cons html rest ih =>
    have first := write_spells html ordinary.1
    simp only [writeAll, first.1, reduceCtorEq, if_false]
    exact first.andThen (ih ordinary.2)

/-- What is written of ordinary trees reads back to them exactly when all names of attributes are plain. -/
theorem read_render {nodes : List Html} (ordinary : OrdinaryAll nodes) : ∃ body, render nodes = .ok body ∧
    (read body = some (letteredAll nodes) ↔ PlainAttributes nodes) := by
  obtain ⟨done, spelt⟩ := writeAll_spells nodes ordinary
  refine ⟨(writeAll nodes).output, by simp [render, done], fun same => ?_, fun plain => ?_⟩
  · have names := read_plain same
    rwa [PlainAttributes, attributeNamesAll_lettered] at names
  · rw [read, spelt, Reader.run_spelledAll nodes ordinary plain]
    rfl

end Html
end Manuscript
