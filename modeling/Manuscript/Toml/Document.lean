import Manuscript.Text.Utf8
import Manuscript.Toml.Lexical

/-! TOML documents. Lines open tables or set keys; a table may be filled in several places as long as it is
opened once, and a key is set once. -/

namespace Manuscript.Toml

/-- How a table came into being: on the way to another one, by its own header, or by a key with several parts. -/
inductive Origin where
  | implicit
  | header
  | dotted
deriving DecidableEq

/-- A document under construction. The last item of a list of tables is the one that is open. -/
inductive Entry where
  | value (value : Toml)
  | table (origin : Origin) (fields : List (String × Entry))
  | tables (items : List (List (String × Entry)))

abbrev Fields := List (String × Entry)

def setField (name : String) (entry : Entry) : Fields → Fields
  | [] => [(name, entry)]
  | (key, other) :: rest => if key = name then (key, entry) :: rest else (key, other) :: setField name entry rest

/-- Sets a key with one or several parts below an open table. -/
def setKey (value : Toml) : List String → Fields → Option Fields
  | [], _ => none
  | [name], fields => if (fields.lookup name).isSome then none else some (setField name (.value value) fields)
  | name :: rest, fields =>
    match fields.lookup name with
    | none => do pure (setField name (.table .dotted (← setKey value rest [])) fields)
    | some (.table origin inner) =>
      if origin = .header then none
      else do pure (setField name (.table origin (← setKey value rest inner)) fields)
    | some _ => none

/-- Opens the table of a header. -/
def openTable : List String → Fields → Option Fields
  | [], _ => none
  | [name], fields =>
    match fields.lookup name with
    | none => some (setField name (.table .header []) fields)
    | some (.table .implicit inner) => some (setField name (.table .header inner) fields)
    | some _ => none
  | name :: rest, fields =>
    match fields.lookup name with
    | none => do pure (setField name (.table .implicit (← openTable rest [])) fields)
    | some (.table origin inner) => do pure (setField name (.table origin (← openTable rest inner)) fields)
    | some (.tables items) => do
      pure (setField name (.tables (items.dropLast ++ [← openTable rest (items.getLastD [])])) fields)
    | some (.value _) => none

/-- Opens one more table of a list of tables. -/
def openItem : List String → Fields → Option Fields
  | [], _ => none
  | [name], fields =>
    match fields.lookup name with
    | none => some (setField name (.tables [[]]) fields)
    | some (.tables items) => some (setField name (.tables (items ++ [[]])) fields)
    | some _ => none
  | name :: rest, fields =>
    match fields.lookup name with
    | none => do pure (setField name (.table .implicit (← openItem rest [])) fields)
    | some (.table origin inner) => do pure (setField name (.table origin (← openItem rest inner)) fields)
    | some (.tables items) => do
      pure (setField name (.tables (items.dropLast ++ [← openItem rest (items.getLastD [])])) fields)
    | some (.value _) => none

/-- Changes the open table at a path. -/
def within (change : Fields → Option Fields) : List String → Fields → Option Fields
  | [], fields => change fields
  | name :: rest, fields =>
    match fields.lookup name with
    | some (.table origin inner) => do pure (setField name (.table origin (← within change rest inner)) fields)
    | some (.tables items) => do
      pure (setField name (.tables (items.dropLast ++ [← within change rest (items.getLastD [])])) fields)
    | _ => none

mutual

def Entry.finish : Entry → Toml
  | .value value => value
  | .table _ fields => .table (finishFields fields)
  | .tables items => .array (finishTables items)
termination_by structural entry => entry

def finishFields : List (String × Entry) → List (String × Toml)
  | [] => []
  | field :: rest => finishField field :: finishFields rest
termination_by structural fields => fields

def finishField : String × Entry → String × Toml
  | (name, entry) => (name, entry.finish)
termination_by structural field => field

def finishTables : List (List (String × Entry)) → List Toml
  | [] => []
  | fields :: rest => .table (finishFields fields) :: finishTables rest
termination_by structural items => items

end

mutual

/-- A value; `steps` bounds how many values and separators are read. -/
def value : (steps : Nat) → Reader Toml
  | 0, _ => none
  | steps + 1, chars =>
    match chars with
    | '[' :: rest => (arrayItems steps rest).map fun (items, rest) => (.array items, rest)
    | '\x7b' :: rest =>
      match skipBlank rest with
      | '\x7d' :: rest => some (.table [], rest)
      | rest => (inlineFields steps [] rest).map fun (fields, rest) => (.table (finishFields fields), rest)
    | '"' :: _ | '\'' :: _ => (string chars).map fun (content, rest) => (.text content, rest)
    | _ => bareValue chars

/-- The items of an array up to its closing bracket. -/
def arrayItems : (steps : Nat) → Reader (List Toml)
  | 0, _ => none
  | steps + 1, chars => do
    match ← skipLines chars.length chars with
    | ']' :: rest => pure ([], rest)
    | chars => do
      let (item, rest) ← value steps chars
      match ← skipLines rest.length rest with
      | ']' :: rest => pure ([item], rest)
      | ',' :: rest => do
        let (items, rest) ← arrayItems steps rest
        pure (item :: items, rest)
      | _ => none

/-- The fields of a table on one line up to its closing brace. -/
def inlineFields : (steps : Nat) → (fields : Fields) → Reader Fields
  | 0, _, _ => none
  | steps + 1, fields, chars => do
    let (path, rest) ← key chars.length chars
    let rest ← mark '=' rest
    let (item, rest) ← value steps (skipBlank rest)
    let fields ← setKey item path fields
    match skipBlank rest with
    | '\x7d' :: rest => pure (fields, rest)
    | ',' :: rest => inlineFields steps fields rest
    | _ => none

end

/-- The document so far and the path of the table that is open. -/
structure State where
  fields : Fields := []
  path : List String := []

/-- One line that is not blank. -/
def statement (state : State) (chars : List Char) : Option (State × List Char) :=
  match chars with
  | '[' :: '[' :: rest => do
    let (path, rest) ← key rest.length rest
    let rest ← mark ']' (← mark ']' rest)
    pure (⟨← openItem path state.fields, path⟩, ← endOfLine rest)
  | '[' :: rest => do
    let (path, rest) ← key rest.length rest
    let rest ← mark ']' rest
    pure (⟨← openTable path state.fields, path⟩, ← endOfLine rest)
  | _ => do
    let (path, rest) ← key chars.length chars
    let rest ← mark '=' rest
    let (item, rest) ← value (rest.length + 1) (skipBlank rest)
    pure ({ state with fields := ← within (setKey item path) state.path state.fields }, ← endOfLine rest)

def statements : (steps : Nat) → State → List Char → Option Fields
  | 0, state, _ => some state.fields
  | steps + 1, state, chars => do
    match ← skipLines chars.length chars with
    | [] => pure state.fields
    | chars => do
      let (state, rest) ← statement state chars
      statements steps state rest

/-- The fields of a document, or nothing when it is malformed. -/
def parse (source : Bytes) : Option (List (String × Toml)) :=
  let text := Utf8.text source
  if Utf8.encode text ≠ source then none
  else (statements (text.length + 1) {} text.toList).map finishFields

end Manuscript.Toml
