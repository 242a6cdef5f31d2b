import Manuscript.Proofs.NormalForm
import Manuscript.Proofs.OrderedAttributes
import Manuscript.Proofs.SpanFree

/-! Option lists with all values in quotes. Quotes keep a value together through words, lexemes, enclosures and tags, so
that names and values are read as they were written, unless there are marks in them that open or close something. -/

namespace Manuscript

namespace Blank

/-- There is no white space at either end. -/
@[mk_iff]
structure Trimmed (text : String) : Prop where
  front : text.toList.head?.all (!isSpace ·) = true
  back : text.toList.getLast?.all (!isSpace ·) = true

instance : DecidablePred Trimmed := fun text => decidable_of_iff _ (trimmed_iff text).symm

theorem Trimmed.trim_eq {text : String} (trimmed : Trimmed text) : trim text = text := by
  have front : text.toList.dropWhile isSpace = text.toList := by
    have first := trimmed.front
    cases chars : text.toList with
    | nil => rfl
    | cons c rest =>
      rw [chars, List.head?_cons, Option.all_some, Bool.not_eq_true'] at first
      exact List.dropWhile_cons_of_neg (Bool.eq_false_iff.mp first)
  have back : text.toList.rdropWhile isSpace = text.toList := by
    apply List.rdropWhile_eq_self_iff.mpr
    intro filled
    have last := trimmed.back
    rw [List.getLast?_eq_getLast_of_ne_nil filled, Option.all_some, Bool.not_eq_true'] at last
    exact Bool.eq_false_iff.mp last
  have twice : trimChars text.toList = (text.toList.dropWhile isSpace).rdropWhile isSpace := rfl
  rw [trim, twice, front, back, String.ofList_toList]

theorem trim_blank (text : String) : trim (" " ++ text) = trim text := by
  rw [trim, trim, String.toList_append]
  rfl

end Blank

open Parse

/-- Marks that open or close a bracket or a quotation. -/
def enclosureMarks : List Char := ['"', '{', '}', '[', ']', '(', ')']

/-- There are none of these marks in a text. -/
def Without (marks : List Char) (text : String) : Prop := ∀ c ∈ text.toList, c ∉ marks

instance (marks : List Char) : DecidablePred (Without marks) := fun text =>
  decidable_of_iff (text.toList.all (· ∉ marks) = true) (by simp [Without])

/-- Text that neither opens nor closes anything. -/
abbrev Unenclosed (text : String) : Prop := Without enclosureMarks text

theorem unenclosed_append {text other : String} :
    Unenclosed (text ++ other) ↔ Unenclosed text ∧ Unenclosed other := by
  simp only [Unenclosed, Without, String.toList_append, List.forall_mem_append]

theorem Unenclosed.not_mark {text : String} (unenclosed : Unenclosed text) :
    text ∉ "\"" :: closers ∧ ∀ kind, text ≠ opener kind := by
  have marks : ("\"" :: closers).all (·.toList.any (· ∈ enclosureMarks)) = true := by decide
  have openers (kind : BracketKind) : (opener kind).toList.any (· ∈ enclosureMarks) = true := by cases kind <;> decide
  have clear : text.toList.any (· ∈ enclosureMarks) = false := by simpa [Without] using unenclosed
  constructor
  · intro closes
    exact Bool.false_ne_true (clear.symm.trans (List.all_eq_true.mp marks text closes))
  · rintro kind rfl
    exact Bool.false_ne_true (clear.symm.trans (openers kind))

namespace Node

/-- Text, a symbol or an identifier. -/
def isWord : Node → Bool
  | .text _ _ | .symbol _ _ | .ident _ => true
  | _ => false

/-- A word, or a quotation of words. -/
def isQuotable : Node → Bool
  | .quotation _ _ children => children.all isWord
  | node => node.isWord

/-- A node that nothing in front of it would take in. -/
def isNeutral (node : Node) : Bool := !node.isCurly && !node.isPlainText && !node.isGreater

theorem isQuotable_of_isWord {node : Node} (word : node.isWord = true) : node.isQuotable = true := by
  cases node <;> first | rfl | cases word

theorem isQuotable_cases {node : Node} (quotable : node.isQuotable = true) : node.isWord = true ∨
    ∃ opening closing children, node = .quotation opening closing children ∧ ∀ child ∈ children, child.isWord = true := by
  cases node with
  | quotation opening closing children => exact .inr ⟨opening, closing, children, rfl, List.all_eq_true.mp quotable⟩
  | _ => exact .inl quotable

theorem apart_neutral {node next : Node} (ends : node.apart none = true) (neutral : next.isNeutral = true) :
    node.apart (some next) = true := by
  simp only [isNeutral, Bool.and_eq_true, Bool.not_eq_true'] at neutral
  obtain ⟨⟨curly, plain⟩, greater⟩ := neutral
  cases node with
  | ident ident =>
    obtain ⟨name, span⟩ := ident
    by_cases formula : name = inlineMath
    · simp [apart, formula] at ends
    · simp [apart, formula, plain]
  | _ => simp [apart, curly, plain, greater]

theorem wellFormed_word {node : Node} (word : node.isWord = true) (place other : Place) (final last : Bool) :
    node.wellFormed place final = node.wellFormed other last := by
  cases node <;> first | rfl | cases word

theorem inner_word {node : Node} (word : node.isWord = true) : node.inner = [] := by
  cases node with
  | text _ _ | symbol _ _ | ident _ => rfl
  | _ => cases word

/-- Brackets, quotations and stray marks are written with marks. -/
theorem isWord_of_unenclosed {node : Node} {place : Place} {final : Bool} (formed : node.wellFormed place final = true)
    (unenclosed : Unenclosed node.source) : node.isWord = true := by
  cases node with
  | text value span => rfl
  | symbol value span => rfl
  | ident ident => rfl
  | stray token =>
    simp only [wellFormed, Bool.and_eq_true, decide_eq_true_eq] at formed
    exact absurd (List.mem_cons_of_mem _ formed.2) unenclosed.not_mark.1
  | bracket block =>
    obtain ⟨kind, opening, closing, children⟩ := block
    simp only [wellFormed, blockWellFormed, Bool.and_eq_true] at formed
    obtain ⟨token, rfl, opens⟩ := (Option.any_eq_true ..).mp formed.1.1
    exact absurd (beq_iff_eq.mp opens) ((unenclosed_append.mp (unenclosed_append.mp unenclosed).1).1.not_mark.2 kind)
  | quotation opening closing children =>
    simp only [wellFormed, Bool.and_eq_true] at formed
    obtain ⟨token, rfl, opens⟩ := (Option.any_eq_true ..).mp formed.1.1.2
    have quote : token.text ∈ "\"" :: closers := beq_iff_eq.mp opens ▸ List.mem_cons_self
    exact absurd quote (unenclosed_append.mp (unenclosed_append.mp unenclosed).1).1.not_mark.1
  | _ => cases formed

end Node

section Words

variable {nodes front back : List Node} {place : Place} {final : Bool}

theorem words_of_unenclosed (formed : wellFormed place final nodes = true) (unenclosed : Unenclosed (source nodes)) :
    ∀ node ∈ nodes, node.isWord = true := by
  induction nodes with
  | nil => simp
  | cons node rest ih =>
    simp only [wellFormed, Bool.and_eq_true] at formed
    obtain ⟨⟨first, _⟩, others⟩ := formed
    obtain ⟨here, later⟩ := unenclosed_append.mp unenclosed
    exact List.forall_mem_cons.mpr ⟨Node.isWord_of_unenclosed first here, ih others later⟩

/-- Words that are well formed on their own are so in front of a node that none of them would take in. -/
theorem wellFormed_words_append (words : ∀ node ∈ front, node.isWord = true) (formed : wellFormed .top true front = true)
    (neutral : ∀ next ∈ back.head?, next.isNeutral = true) (behind : wellFormed place final back = true) :
    wellFormed place final (front ++ back) = true := by
  induction front with
  | nil => exact behind
  | cons node rest ih =>
    obtain ⟨word, others⟩ := List.forall_mem_cons.mp words
    simp only [wellFormed, Bool.and_eq_true] at formed
    obtain ⟨⟨first, alone⟩, later⟩ := formed
    have parted : node.apart (rest ++ back).head? = true := by
      cases rest with
      | cons next rest => exact alone
      | nil =>
        rw [List.nil_append]
        cases back with
        | nil => exact alone
        | cons next back => exact Node.apart_neutral alone (neutral next rfl)
    rw [List.cons_append, wellFormed, Node.wellFormed_word word place .top _ (true && rest.isEmpty), first, parted,
      ih others later]
    rfl

theorem flatten_words (words : ∀ node ∈ nodes, node.isWord = true) : flatten nodes = source nodes := by
  induction nodes with
  | nil => rfl
  | cons node rest ih =>
    obtain ⟨word, others⟩ := List.forall_mem_cons.mp words
    have same : node.flatten = node.source := by cases node <;> first | rfl | cases word
    rw [flatten, source, same, ih others]

theorem mem_source {node : Node} (member : node ∈ nodes) : node.source.toList ⊆ (source nodes).toList := by
  induction nodes with
  | nil => cases member
  | cons first rest ih =>
    rw [source, String.toList_append]
    rcases List.mem_cons.mp member with rfl | later
    · exact List.subset_append_left _ _
    · exact List.subset_append_of_subset_right _ (ih later)

theorem isSymbol_eq_false (mark : Char) (clear : mark ∉ (source nodes).toList) :
    ∀ node ∈ nodes, Attributes.isSymbol (String.singleton mark) node = false := by
  intro node member
  apply Bool.eq_false_iff.mpr
  intro symbol
  have written : node.source = String.singleton mark := by
    cases node <;> first | exact beq_iff_eq.mp symbol | cases symbol
  apply clear (mem_source member _)
  rw [written, String.toList_singleton]
  exact List.mem_singleton_self mark

open Normalize

theorem level_idle_of_quotable (quotable : ∀ node ∈ nodes, node.isQuotable = true) : level idle nodes = true := by
  induction nodes with
  | nil => rfl
  | cons node rest ih =>
    obtain ⟨first, others⟩ := List.forall_mem_cons.mp quotable
    have closed (kind : BracketKind) : Node.startsWith kind rest = false := by
      cases rest with
      | nil => rfl
      | cons next rest =>
        have calm := others next List.mem_cons_self
        cases next <;> first | rfl | cases calm
    have still : idle node rest = true := by
      cases node with
      | ident ident => simp [idle, closed]
      | tag tag => cases first
      | _ => rfl
    rw [level, still, ih others]
    rfl

theorem everywhere_idle_words (words : ∀ node ∈ nodes, node.isWord = true) : everywhere idle nodes = true := by
  rw [everywhere_iff]
  refine ⟨level_idle_of_quotable fun node member => Node.isQuotable_of_isWord (words node member), fun node member => ?_⟩
  rw [Node.inner_word (words node member)]
  exact fun _ nowhere => nomatch nowhere

/-- Where there are no brackets there is nothing to take up. -/
theorem normalize_quotable (quotable : ∀ node ∈ nodes, node.isQuotable = true) : normalize nodes = nodes := by
  rw [normalize_eq_self_iff, everywhere_iff]
  refine ⟨level_idle_of_quotable quotable, fun node member => ?_⟩
  rcases Node.isQuotable_cases (quotable node member) with word | ⟨opening, closing, children, rfl, words⟩
  · rw [Node.inner_word word]
    exact fun _ nowhere => nomatch nowhere
  · exact List.all_eq_true.mp (everywhere_idle_words words)

end Words

/-- What normalization makes of a tree, and what is read from it then, has nothing to do with places. -/
theorem parse_normalize_congr {nodes others : List Node} (same : unspanned nodes = unspanned others) :
    Attributes.parse (normalize nodes) = Attributes.parse (normalize others) := by
  rw [← parse_unspanned, ← normalize_unspanned, same, normalize_unspanned, parse_unspanned]

namespace Attributes

/-- A name with its value in quotes. -/
def quote (pair : String × String) : String := pair.1 ++ "=\"" ++ pair.2 ++ "\""

/-- An option list with all values in quotes. -/
def written (pairs : List (String × String)) : String := ", ".intercalate (pairs.map quote)

/-- Marks that a name may not hold. -/
def nameMarks : List Char := ',' :: '=' :: enclosureMarks

/-- A name and a value that may be written in this way. -/
@[mk_iff]
structure Quotable (pair : String × String) : Prop where
  filled : pair.1 ≠ ""
  trimmed : Blank.Trimmed pair.1
  bare : Without nameMarks pair.1
  trimmed_value : Blank.Trimmed pair.2
  unenclosed_value : Unenclosed pair.2

instance : DecidablePred Quotable := fun pair => decidable_of_iff _ (quotable_iff pair).symm

theorem Quotable.unenclosed {pair : String × String} (quotable : Quotable pair) : Unenclosed pair.1 := by
  intro c member mark
  exact quotable.bare c member (List.mem_cons_of_mem _ (List.mem_cons_of_mem _ mark))

section Trees

variable {pair : String × String} {pairs : List (String × String)}

def equals : Node := .symbol "=" {}

def comma : Node := .symbol "," {}

def blank : Node := .text " " {}

def quoted (value : String) : Node := .quotation (some (bare "\"")) (some (bare "\"")) (ofString value)

def item (pair : String × String) : List Node := ofString pair.1 ++ [equals, quoted pair.2]

/-- The tree of an option list. -/
def listed : List (String × String) → List Node
  | [] => []
  | pair :: rest => item pair ++ rest.flatMap fun other => comma :: blank :: item other

theorem words_ofString {text : String} (unenclosed : Unenclosed text) : ∀ node ∈ ofString text, node.isWord = true :=
  words_of_unenclosed (ofBytes_wellFormed _) ((source_ofString text).symm ▸ unenclosed)

theorem source_item (pair : String × String) : source (item pair) = quote pair := by
  have mark : "=\"" = "=" ++ "\"" := rfl
  rw [item, source_append, source_ofString, quote, mark]
  simp only [source, equals, quoted, Node.source, source_ofString, Token.textOf, bare, Option.map_some,
    Option.getD_some, String.append_empty, String.append_assoc]

theorem source_listed (pairs : List (String × String)) : source (listed pairs) = written pairs := by
  have mark : ", " = "," ++ " " := rfl
  cases pairs with
  | nil => rfl
  | cons pair rest =>
    rw [listed, source_append, source_item, written]
    induction rest generalizing pair with
    | nil => simp [source]
    | cons other rest ih =>
      rw [List.flatMap_cons, source_append, source, source, source_item, List.map_cons, List.map_cons,
        String.intercalate_cons_cons, ← List.map_cons, ← ih, mark]
      simp only [comma, blank, Node.source, String.append_assoc]

theorem quoted_wellFormed {value : String} (unenclosed : Unenclosed value) (final : Bool) :
    (quoted value).wellFormed .top final = true := by
  have words := wellFormed_words_append (words_ofString unenclosed) (ofBytes_wellFormed _)
    (by simp) (show wellFormed .quotation false [] = true from rfl)
  rw [List.append_nil] at words
  rw [quoted, Node.wellFormed, Option.isNone_some, Bool.and_false, words]
  rfl

theorem item_wellFormed (quotable : Quotable pair) {behind : List Node} (formed : wellFormed .top true behind = true) :
    wellFormed .top true (item pair ++ behind) = true := by
  rw [item, List.append_assoc]
  apply wellFormed_words_append (words_ofString quotable.unenclosed) (ofBytes_wellFormed _)
  · intro next first
    obtain rfl := Option.some.inj first
    rfl
  · rw [List.cons_append, List.cons_append, List.nil_append, wellFormed, wellFormed,
      quoted_wellFormed quotable.unenclosed_value, formed]
    rfl

theorem listed_wellFormed (quotable : ∀ pair ∈ pairs, Quotable pair) : wellFormed .top true (listed pairs) = true := by
  cases pairs with
  | nil => rfl
  | cons pair rest =>
    obtain ⟨first, others⟩ := List.forall_mem_cons.mp quotable
    apply item_wellFormed first
    clear quotable
    induction rest with
    | nil => rfl
    | cons other rest ih =>
      obtain ⟨next, later⟩ := List.forall_mem_cons.mp others
      have behind := item_wellFormed next (ih later)
      rw [List.flatMap_cons, List.cons_append, List.cons_append, wellFormed, wellFormed, behind]
      rfl

theorem item_quotable (quotable : Quotable pair) : ∀ node ∈ item pair, node.isQuotable = true := by
  have value : (quoted pair.2).isQuotable = true := List.all_eq_true.mpr (words_ofString quotable.unenclosed_value)
  rw [item, List.forall_mem_append, List.forall_mem_cons, List.forall_mem_singleton]
  exact ⟨fun node member => Node.isQuotable_of_isWord (words_ofString quotable.unenclosed node member), rfl, value⟩

theorem listed_quotable (quotable : ∀ pair ∈ pairs, Quotable pair) : ∀ node ∈ listed pairs, node.isQuotable = true := by
  cases pairs with
  | nil => simp [listed]
  | cons pair rest =>
    obtain ⟨first, others⟩ := List.forall_mem_cons.mp quotable
    rw [listed, List.forall_mem_append]
    refine ⟨item_quotable first, fun node member => ?_⟩
    obtain ⟨other, listed, inside⟩ := List.mem_flatMap.mp member
    rcases List.mem_cons.mp inside with rfl | inside
    · rfl
    rcases List.mem_cons.mp inside with rfl | inside
    · rfl
    · exact item_quotable (others other listed) node inside

theorem isSymbol_name (quotable : Quotable pair) {mark : Char} (special : mark ∈ nameMarks) :
    ∀ node ∈ ofString pair.1, isSymbol (String.singleton mark) node = false := by
  apply isSymbol_eq_false
  rw [source_ofString]
  exact fun member => quotable.bare mark member special

theorem item_comma (quotable : Quotable pair) : ∀ node ∈ item pair, isSymbol "," node = false := by
  rw [item, List.forall_mem_append, List.forall_mem_cons, List.forall_mem_singleton]
  exact ⟨isSymbol_name quotable (show ',' ∈ nameMarks by decide), rfl, rfl⟩

theorem cut_append {separator : String} {key value : List Node} {mark : Node}
    (before : ∀ node ∈ key, isSymbol separator node = false) (here : isSymbol separator mark = true) :
    cut separator (key ++ mark :: value) = (key, some value) := by
  have passed : ∀ node ∈ key, (!isSymbol separator node) = true := fun node member => by rw [before node member]; rfl
  have stops : (!isSymbol separator mark) = false := by rw [here]; rfl
  rw [cut, List.dropWhile_append_of_pos passed, List.takeWhile_append_of_pos passed, List.dropWhile_cons_of_neg,
    List.takeWhile_cons_of_neg, List.append_nil]
  all_goals simp [stops]

/-- With white space in front of it or not, a name is read with its value. -/
theorem entryOf_item (quotable : Quotable pair) (lead : List Node) (bare : ∀ node ∈ lead, isSymbol "=" node = false)
    (reads : Blank.trim (flatten lead ++ pair.1) = Blank.trim pair.1) :
    entryOf (lead ++ item pair) = some (pair.1, some pair.2) := by
  have name : ∀ node ∈ ofString pair.1, isSymbol "=" node = false :=
    isSymbol_name quotable (show '=' ∈ nameMarks by decide)
  have parts : cut "=" (lead ++ item pair) = (lead ++ ofString pair.1, some [quoted pair.2]) := by
    rw [item, ← List.append_assoc]
    exact cut_append (List.forall_mem_append.mpr ⟨bare, name⟩) rfl
  have key : flatten (lead ++ ofString pair.1) = flatten lead ++ pair.1 := by
    rw [flatten_append, flatten_words (words_ofString quotable.unenclosed), source_ofString]
  have value : flatten [quoted pair.2] = pair.2 := by
    rw [flatten, flatten, String.append_empty, quoted, Node.flatten,
      flatten_words (words_ofString quotable.unenclosed_value), source_ofString]
  rw [entryOf, parts]
  simp only [key, reads, quotable.trimmed.trim_eq, quotable.filled, if_false, Option.map_some, value,
    quotable.trimmed_value.trim_eq]

theorem splitOnP_join {α : Type} {test : α → Bool} {mark : α} (here : test mark = true) {part : List α}
    {parts : List (List α)} (clear : ∀ item ∈ part, test item = false)
    (others : ∀ part ∈ parts, ∀ item ∈ part, test item = false) :
    (part ++ parts.flatMap (mark :: ·)).splitOnP test = part :: parts := by
  induction parts generalizing part with
  | nil => rw [List.flatMap_nil, List.append_nil, List.splitOnP_eq_singleton clear]
  | cons next parts ih =>
    rw [List.forall_mem_cons] at others
    rw [List.flatMap_cons, List.cons_append, List.splitOnP_append_cons _ _ here, List.splitOnP_eq_singleton clear,
      ih others.1 others.2]
    rfl

theorem entries_listed (quotable : ∀ pair ∈ pairs, Quotable pair) :
    entries (listed pairs) = pairs.map fun pair => (pair.1, some pair.2) := by
  cases pairs with
  | nil => rfl
  | cons pair rest =>
    obtain ⟨first, others⟩ := List.forall_mem_cons.mp quotable
    have alone : entryOf (item pair) = some (pair.1, some pair.2) :=
      entryOf_item first [] (by simp) (by rw [flatten, String.empty_append])
    have behind : ∀ segment ∈ rest.map (blank :: item ·), ∀ node ∈ segment, isSymbol "," node = false := by
      intro segment member
      obtain ⟨other, listed, rfl⟩ := List.mem_map.mp member
      rw [List.forall_mem_cons]
      exact ⟨rfl, item_comma (others other listed)⟩
    have further : ∀ other ∈ rest, entryOf (blank :: item other) = some (other.1, some other.2) := by
      intro other listed
      apply entryOf_item (others other listed) [blank]
      · simp [isSymbol, blank]
      · rw [flatten, flatten, String.append_empty]
        exact Blank.trim_blank other.1
    have segments := splitOnP_join (show isSymbol "," comma = true from rfl) (item_comma first) behind
    rw [List.flatMap_map] at segments
    have later : (rest.map (blank :: item ·)).filterMap entryOf = rest.map fun other => (other.1, some other.2) := by
      rw [List.filterMap_map, ← List.filterMap_eq_map]
      apply List.filterMap_congr
      intro other listed
      rw [Function.comp_apply, Function.comp_apply, further other listed]
    rw [entries, listed, segments, List.filterMap_cons_some alone, later, List.map_cons]

end Trees

section Values

variable {pairs : List (String × String)}

/-- The attribute of a name with a value. -/
def given (pair : String × String) : Attribute Node := ⟨nameKey pair.1, some (.text pair.2 {})⟩

/-- Names that differ get their values in order. -/
theorem changed_given (distinct : (pairs.map Prod.fst).Nodup) :
    changed ((pairs.map fun pair => (pair.1, some pair.2)).map change) = pairs.map given := by
  induction pairs using List.reverseRecOn with
  | nil => rfl
  | append_singleton pairs pair ih =>
    rw [List.map_append, List.map_singleton, List.nodup_append] at distinct
    obtain ⟨before, _, apart⟩ := distinct
    have absent : (pairs.map given).findIdx? (·.key.alike (nameKey pair.1)) = none := by
      rw [List.findIdx?_eq_none_iff, List.forall_mem_map]
      intro other member
      exact beq_false_of_ne (apart _ (List.mem_map_of_mem member) _ List.mem_cons_self)
    rw [List.map_append, List.map_append, List.map_singleton, List.map_singleton, changed_concat, ih before,
      change_apply, insert_eq, absent, List.map_append, List.map_singleton]
    rfl

theorem value?_given (distinct : (pairs.map Prod.fst).Nodup) {pair : String × String} (member : pair ∈ pairs) :
    value? (pairs.map given) pair.1 = some pair.2 := by
  induction pairs with
  | nil => cases member
  | cons first rest ih =>
    rw [List.map_cons, List.nodup_cons] at distinct
    rw [value?, List.map_cons, find?_cons, given, nameKey_alike]
    rcases List.mem_cons.mp member with rfl | later
    · rw [if_pos (beq_self_eq_true _)]
      rfl
    · have other : first.1 ≠ pair.1 := fun same => distinct.1 (same ▸ List.mem_map_of_mem later)
      rw [if_neg (by simpa using other)]
      exact ih distinct.2 later

end Values

end Attributes

open Attributes

/-- An option list with all values in quotes says what it was written from: its attributes are the names with their
values in order, when the names differ, and each name is found with its value. A name may hold anything but white space
at its ends, commas, equals signs and marks that open or close something; a value may hold commas and equals signs too,
and may be empty. -/
theorem quoted_attributes (pairs : List (String × String)) (distinct : (pairs.map Prod.fst).Nodup)
    (quotable : ∀ pair ∈ pairs, Quotable pair) :
    let attributes := Attributes.parse (normalize (Parse.ofString (written pairs)))
    attributes = pairs.map (fun pair => ⟨nameKey pair.1, some (.text pair.2 {})⟩) ∧
      ∀ pair ∈ pairs, Attributes.value? attributes pair.1 = some pair.2 := by
  have read : unspanned (Parse.ofString (written pairs)) = unspanned (listed pairs) := by
    rw [← source_listed, ← unspanned_unplaced, ofString_source _ (listed_wellFormed quotable), unspanned_unplaced]
  have made : Attributes.parse (normalize (Parse.ofString (written pairs))) = pairs.map given := by
    rw [parse_normalize_congr read, normalize_quotable (listed_quotable quotable), parse_eq_changed,
      entries_listed quotable, changed_given distinct]
  rw [made]
  exact ⟨rfl, fun pair member => value?_given distinct member⟩

namespace Sample

/-- Names with blanks, backslashes and marks that merge, right at the equals signs, and values with commas, equals signs,
arrows and a backslash right at the quote. -/
def quotable : List (String × String) :=
  [("alt text", "a, b = c => d"), ("\\name>", ""), (">", ">> \\w x=\\"), ("x.\\", "alt text")]

end Sample

theorem quoted_attributes_sample :
    written Sample.quotable = "alt text=\"a, b = c => d\", \\name>=\"\", >=\">> \\w x=\\\", x.\\=\"alt text\"" ∧
      (Sample.quotable.map Prod.fst).Nodup ∧ (∀ pair ∈ Sample.quotable, Quotable pair) ∧
      Attributes.parse (normalize (Parse.ofString (written Sample.quotable))) =
        [⟨nameKey "alt text", some (.text "a, b = c => d" {})⟩, ⟨nameKey "\\name>", some (.text "" {})⟩,
          ⟨nameKey ">", some (.text ">> \\w x=\\" {})⟩, ⟨nameKey "x.\\", some (.text "alt text" {})⟩] ∧
      Attributes.value? (Attributes.parse (normalize (Parse.ofString (written Sample.quotable)))) ">" =
        some ">> \\w x=\\" := by
  have distinct : (Sample.quotable.map Prod.fst).Nodup := by decide
  have quotable : ∀ pair ∈ Sample.quotable, Quotable pair := by decide
  obtain ⟨attributes, values⟩ := quoted_attributes Sample.quotable distinct quotable
  exact ⟨by decide, distinct, quotable, attributes, values (">", ">> \\w x=\\") (by decide)⟩

end Manuscript
