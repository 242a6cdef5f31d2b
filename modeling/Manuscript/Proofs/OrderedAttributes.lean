import Manuscript.Document.Attributes
import Manuscript.Proofs.Likeness
import Mathlib.Data.List.DropRight

/-! Attribute lists are ordered maps whose keys are nodes, up to syntactic equality. The laws of maps hold for all lists,
since it is an equivalence relation; that no key is there twice is kept by every change. What is read from an option
list has the names of its segments in the order of their first ones, with the values of their last ones. -/

namespace Manuscript

theorem eraseDups_concat {α : Type} [DecidableEq α] (items : List α) (item : α) :
    (items ++ [item]).eraseDups = if item ∈ items then items.eraseDups else items.eraseDups ++ [item] := by
  rw [List.eraseDups_append]
  split
  next member => simp [List.removeAll, member]
  next absent => simp [List.removeAll, absent, List.eraseDups_cons]

namespace Blank

theorem trimChars_trimChars (chars : List Char) : trimChars (trimChars chars) = trimChars chars := by
  have twice (chars : List Char) : trimChars chars = (chars.dropWhile isSpace).rdropWhile isSpace := rfl
  have first : (trimChars chars).dropWhile isSpace = trimChars chars := by
    apply List.dropWhile_eq_self_iff.mpr
    intro long blank
    have within : trimChars chars <+: chars.dropWhile isSpace := List.rdropWhile_prefix isSpace _
    have behind := List.dropWhile_eq_self_iff.mp (List.dropWhile_idempotent isSpace chars)
      (long.trans_le within.length_le)
    exact behind (within.getElem long ▸ blank)
  rw [twice (trimChars chars), first, twice, List.rdropWhile_idempotent]

/-- What is trimmed has no white space left at its ends. -/
theorem trim_trim (text : String) : trim (trim text) = trim text := by
  rw [trim, trim, String.toList_ofList, trimChars_trimChars]

end Blank

namespace Attributes

variable {items : Attributes}

theorem alike_nameKey {key : Node} {name : String} :
    key.alike (nameKey name) = true ↔ ∃ span, key = .symbol name span := by
  cases key with
  | symbol value span => simp [nameKey, Node.alike]
  | _ => simp [nameKey, Node.alike]

theorem nameKey_alike (name other : String) : (nameKey name).alike (nameKey other) = (name == other) := rfl

section Maps

/-- An insertion changes the value at the first key that is equal, in place, or adds the key at the end. -/
theorem insert_eq (key : Node) (value : Option Node) (items : Attributes) :
    insert key value items =
      match items.findIdx? (·.key.alike key) with
      | some index => items.modify index fun item => { item with value }
      | none => items ++ [⟨key, value⟩] := by
  induction items with
  | nil => rfl
  | cons item items ih =>
    rw [insert, List.findIdx?_cons]
    split
    · rfl
    · rw [ih]
      cases items.findIdx? (·.key.alike key) <;> rfl

theorem find?_cons (item : Attribute Node) (items : Attributes) (key : Node) :
    find? (item :: items) key = if item.key.alike key then some item.value else find? items key := by
  rw [find?, List.find?_cons]
  split
  next same => rw [if_pos same]; rfl
  next other => rw [if_neg (Bool.eq_false_iff.mp other), find?]

theorem find?_insert_key (items : Attributes) (key other : Node) (value : Option Node) :
    find? (insert key value items) other = if key.alike other then some value else find? items other := by
  induction items with
  | nil => rw [insert, find?_cons]
  | cons item items ih =>
    rw [insert]
    split
    next here =>
      rw [find?_cons, find?_cons, Node.alike_left here]
      split <;> rfl
    next away =>
      rw [find?_cons, find?_cons, ih]
      -- both keys cannot be equal to the one looked for, as they are not equal to one another
      by_cases there : item.key.alike other = true
      · have apart : key.alike other = false := by
          apply Bool.eq_false_iff.mpr
          intro same
          rw [Node.alike_symm, Node.alike_left same, Node.alike_symm] at away
          exact away there
        rw [if_pos there, apart, if_neg Bool.false_ne_true, if_pos there]
      · rw [if_neg there, if_neg there]

theorem keys_insert (key : Node) (value : Option Node) (items : Attributes) :
    (insert key value items).map Attribute.key =
      if (find? items key).isSome then items.map Attribute.key else items.map Attribute.key ++ [key] := by
  induction items with
  | nil => rfl
  | cons item items ih =>
    rw [insert, find?_cons]
    split
    · rfl
    · rw [List.map_cons, ih, List.map_cons]
      split <;> rfl

/-- No key is equal to another one. -/
def Distinct (items : Attributes) : Prop := (items.map Attribute.key).Pairwise fun key other => key.alike other = false

theorem find?_eq_none {key : Node} : find? items key = none ↔ ∀ item ∈ items, item.key.alike key = false := by
  simp [find?]

theorem Distinct.insert (distinct : Distinct items) (key : Node) (value : Option Node) :
    Distinct (insert key value items) := by
  unfold Distinct
  rw [keys_insert]
  split
  · exact distinct
  next absent =>
    have none : find? items key = none := by simpa using absent
    apply List.pairwise_append.mpr
    refine ⟨distinct, List.pairwise_singleton _ _, ?_⟩
    intro other member last same
    obtain rfl := List.mem_singleton.mp same
    obtain ⟨item, inside, rfl⟩ := List.mem_map.mp member
    exact find?_eq_none.mp none item inside

/-- One change of an attribute list. -/
inductive Change where
  | insert (key : Node) (value : Option Node)
  | set (name value : String)

def Change.apply (items : Attributes) : Change → Attributes
  | .insert key value => Attributes.insert key value items
  | .set name value => Attributes.set items name value

/-- What changes make of the empty list. -/
def changed (changes : List Change) : Attributes := changes.foldl Change.apply []

theorem Distinct.apply (distinct : Distinct items) (change : Change) : Distinct (change.apply items) := by
  cases change with
  | insert key value => exact distinct.insert key value
  | set name value => exact distinct.insert (nameKey name) (some (.text value {}))

theorem changed_concat (changes : List Change) (change : Change) :
    changed (changes ++ [change]) = change.apply (changed changes) := by
  simp only [changed, List.foldl_append, List.foldl_cons, List.foldl_nil]

theorem distinct_changed (changes : List Change) : Distinct (changed changes) := by
  induction changes using List.reverseRecOn with
  | nil => exact .nil
  | append_singleton changes change ih =>
    rw [changed_concat]
    exact ih.apply change

end Maps

section Reading

theorem splitAt_eq_splitOnP (separator : String) (nodes : List Node) :
    Attributes.splitAt separator nodes = nodes.splitOnP (isSymbol separator) := by
  induction nodes with
  | nil => rfl
  | cons node nodes ih =>
    rw [Attributes.splitAt, List.splitOnP_cons_eq_if_modifyHead, ih]
    split
    · rfl
    · cases parts : nodes.splitOnP (isSymbol separator) with
      | nil => exact absurd parts (List.splitOnP_ne_nil _ nodes)
      | cons part parts => rfl

/-- What a segment says: its name, and its value unless it is a flag. -/
def entryOf (segment : List Node) : Option (String × Option String) :=
  let (key, value) := cut "=" segment
  let name := Blank.trim (flatten key)
  if name = "" then none else some (name, value.map fun value => Blank.trim (flatten value))

/-- What the segments between top-level commas say, in order. -/
def entries (nodes : List Node) : List (String × Option String) :=
  (nodes.splitOnP (isSymbol ",")).filterMap entryOf

def change : String × Option String → Change
  | (name, none) => .insert (nameKey name) none
  | (name, some value) => .set name value

/-- The item of a name, with the value of its last entry. -/
def lastItem (entries : List (String × Option String)) (name : String) : Attribute Node :=
  ⟨nameKey name, ((entries.reverse.lookup name).getD none).map fun value => .text value {}⟩

theorem insertSegment_eq (items : Attributes) (segment : List Node) :
    insertSegment items segment = (entryOf segment).elim items fun entry => (change entry).apply items := by
  unfold insertSegment entryOf
  cases cut "=" segment with
  | mk key value =>
    by_cases empty : Blank.trim (flatten key) = ""
    · simp [empty]
    · cases value <;> simp [empty, change, Change.apply, flag]

/-- Reading an option list makes one change for each of its entries. -/
theorem parse_eq_changed (nodes : List Node) : parse nodes = changed ((entries nodes).map change) := by
  have step : ∀ (segments : List (List Node)) (items : Attributes),
      segments.foldl insertSegment items = ((segments.filterMap entryOf).map change).foldl Change.apply items := by
    intro segments
    induction segments with
    | nil => exact fun _ => rfl
    | cons segment segments ih =>
      intro items
      rw [List.foldl_cons, ih, insertSegment_eq, List.filterMap_cons]
      cases entryOf segment <;> rfl
  rw [parse, splitAt_eq_splitOnP]
  exact step _ []

theorem change_apply (items : Attributes) (name : String) (value : Option String) :
    (change (name, value)).apply items = insert (nameKey name) (value.map fun value => .text value {}) items := by
  cases value <;> rfl

theorem lastItem_concat (entries : List (String × Option String)) (name other : String) (value : Option String) :
    lastItem (entries ++ [(name, value)]) other =
      if other = name then ⟨nameKey name, value.map fun value => .text value {}⟩ else lastItem entries other := by
  unfold lastItem
  rw [List.reverse_concat, List.lookup_cons]
  by_cases same : other = name
  · simp [same]
  · have away : (other == name) = false := beq_false_of_ne same
    simp only [away, if_neg same]

section Names

variable {names : List String} {item : String → Attribute Node}

theorem Distinct.nodup (keyed : ∀ name, (item name).key = nameKey name) (distinct : Distinct (names.map item)) :
    names.Nodup := by
  unfold Distinct at distinct
  rw [List.map_map, List.pairwise_map] at distinct
  apply distinct.imp
  intro name other apart same
  simp [keyed, nameKey_alike, same] at apart

theorem insert_named (keyed : ∀ name, (item name).key = nameKey name) (nodup : names.Nodup) (name : String)
    (value : Option Node) : insert (nameKey name) value (names.map item) =
      if name ∈ names then names.map fun other => if other = name then ⟨nameKey name, value⟩ else item other
      else names.map item ++ [⟨nameKey name, value⟩] := by
  induction names with
  | nil => rfl
  | cons first names ih =>
    obtain ⟨absent, nodup⟩ := List.nodup_cons.mp nodup
    rw [List.map_cons, insert, keyed, nameKey_alike]
    by_cases same : first = name
    · subst same
      have others : names.map (fun other => if other = first then ⟨nameKey first, value⟩ else item other) =
          names.map item := by
        apply List.map_congr_left
        intro other member
        exact if_neg fun same : other = first => absent (same ▸ member)
      simp [others]
    · rw [if_neg (by simpa using same), ih nodup]
      by_cases member : name ∈ names <;> simp [member, same, Ne.symm same]

end Names

/-- The names of the entries in the order of their first ones, each with the value of its last one. -/
theorem changed_entries (entries : List (String × Option String)) :
    changed (entries.map change) = (entries.map Prod.fst).eraseDups.map (lastItem entries) := by
  induction entries using List.reverseRecOn with
  | nil => rfl
  | append_singleton entries entry ih =>
    obtain ⟨name, value⟩ := entry
    have distinct := distinct_changed (entries.map change)
    rw [ih] at distinct
    have nodup := distinct.nodup fun _ => rfl
    have last : lastItem (entries ++ [(name, value)]) =
        fun other =>
          if other = name then ⟨nameKey name, value.map fun value => .text value {}⟩ else lastItem entries other :=
      funext fun other => lastItem_concat entries name other value
    have made : changed ((entries ++ [(name, value)]).map change) = insert (nameKey name)
        (value.map fun value => .text value {}) ((entries.map Prod.fst).eraseDups.map (lastItem entries)) := by
      rw [List.map_append, List.map_singleton, changed_concat, change_apply, ih]
    rw [made, insert_named (fun _ => rfl) nodup, List.map_append, List.map_singleton, eraseDups_concat, last]
    simp only [List.mem_eraseDups]
    split
    · rfl
    next absent =>
      rw [List.map_append, List.map_singleton, if_pos rfl]
      congr 1
      apply List.map_congr_left
      intro other member
      exact (if_neg fun same : other = name => absent (same ▸ List.mem_eraseDups.mp member)).symm

theorem entries_names {nodes : List Node} {entry : String × Option String} (member : entry ∈ entries nodes) :
    entry.1 ≠ "" ∧ Blank.trim entry.1 = entry.1 := by
  obtain ⟨segment, -, read⟩ := List.mem_filterMap.mp member
  unfold entryOf at read
  cases cut "=" segment with
  | mk key value =>
    dsimp only at read
    split at read
    · cases read
    next filled =>
      cases read
      exact ⟨filled, Blank.trim_trim _⟩

end Reading

end Attributes

open Attributes

/-- After any changes of an empty list no two keys are equal. A key that was inserted has the value it was inserted with,
and so has every key that is equal to it; other keys have what they had. An insertion changes the value at one place, or
the key is new and goes to the end. An option list is read in this way, into the trimmed names of its segments in the
order of their first ones, with the values of their last ones. -/
theorem attributes_ordered :
    (∀ changes, Distinct (changed changes)) ∧
      (∀ items key value other,
        find? (insert key value items) other = if key.alike other then some value else find? items other) ∧
      (∀ items key value, insert key value items =
        match items.findIdx? (·.key.alike key) with
        | some index => items.modify index fun item => { item with value }
        | none => items ++ [⟨key, value⟩]) ∧
      (∀ items key value, (insert key value items).length =
        if (find? items key).isSome then items.length else items.length + 1) ∧
      ∀ nodes, (∃ changes, Attributes.parse nodes = changed changes) ∧
        Attributes.parse nodes = ((entries nodes).map Prod.fst).eraseDups.map (lastItem (entries nodes)) ∧
        ∀ name ∈ (entries nodes).map Prod.fst, name ≠ "" ∧ Blank.trim name = name := by
  refine ⟨distinct_changed, fun items key value other => find?_insert_key items key other value,
    fun items key value => insert_eq key value items, ?_, ?_⟩
  · intro items key value
    have lengths := congrArg List.length (keys_insert key value items)
    rw [apply_ite List.length] at lengths
    simpa using lengths
  · intro nodes
    have made := parse_eq_changed nodes
    refine ⟨⟨_, made⟩, made.trans (changed_entries (entries nodes)), ?_⟩
    intro name member
    obtain ⟨entry, there, rfl⟩ := List.mem_map.mp member
    exact entries_names there

namespace Sample

/-- A name that is given twice, first with blanks around it and at last in quotes, a flag and a value without a name. -/
def repeated : List Node :=
  [.text " " {}, .text "src" {}, .text " " {}, .symbol "=" {}, .text "a" {}, .symbol "," {}, .text "wide" {},
    .symbol "," {}, .symbol "=" {}, .text "x" {}, .symbol "," {}, .text "src" {}, .symbol "=" {},
    .quotation none none [.text "b," {}]]

theorem repeated_entries : entries repeated = [("src", some "a"), ("wide", none), ("src", some "b,")] := by
  decide +kernel

end Sample

theorem attributes_ordered_repeated :
    "src" ∈ (entries Sample.repeated).map Prod.fst ∧ ("src" ≠ "" ∧ Blank.trim "src" = "src") ∧
      Attributes.parse Sample.repeated = [⟨nameKey "src", some (.text "b," {})⟩, ⟨nameKey "wide", none⟩] := by
  obtain ⟨-, -, -, -, reading⟩ := attributes_ordered
  obtain ⟨-, items, names⟩ := reading Sample.repeated
  have member : "src" ∈ (entries Sample.repeated).map Prod.fst := by
    rw [Sample.repeated_entries]
    exact List.mem_cons_self
  refine ⟨member, names "src" member, ?_⟩
  rw [items, Sample.repeated_entries]
  rfl

end Manuscript
