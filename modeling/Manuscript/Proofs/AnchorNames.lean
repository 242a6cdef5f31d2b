import Manuscript.Proofs.Anchors
import Manuscript.Proofs.WordTiling

/-! What anchors look like. Whatever a heading says, its anchor is text that may stand in a URL as it is, and the search
for one that is free comes to an end; so headings that are met one after the other have anchors that tell them apart. -/

namespace Manuscript

namespace Percent

/-- The characters other than letters and digits that stand for themselves in a path segment. -/
def keptMarks : List Char := ['-', '_', '.', '~', '$', '&', '+', ':', '=', '@']

def isKept (c : Char) : Bool := c.isAlphanum || c ∈ keptMarks

def hexDigits : List Char := ['0', '1', '2', '3', '4', '5', '6', '7', '8', '9', 'A', 'B', 'C', 'D', 'E', 'F']

/-- Text of characters that stand for themselves and of percent signs with two hexadecimal digits. -/
inductive Escaped : List Char → Prop where
  | nil : Escaped []
  | kept {c rest} (kept : isKept c = true) (escaped : Escaped rest) : Escaped (c :: rest)
  | triple {high low rest} (first : high ∈ hexDigits) (second : low ∈ hexDigits) (escaped : Escaped rest) :
      Escaped ('%' :: high :: low :: rest)

theorem Escaped.append {chars others : List Char} (first : Escaped chars) (second : Escaped others) :
    Escaped (chars ++ others) := by
  induction first with
  | nil => exact second
  | kept kept _ ih => exact .kept kept ih
  | triple high low _ ih => exact .triple high low ih

theorem escaped_of_kept {chars : List Char} (kept : ∀ c ∈ chars, isKept c = true) : Escaped chars := by
  induction chars with
  | nil => exact .nil
  | cons c chars ih =>
    obtain ⟨first, others⟩ := List.forall_mem_cons.mp kept
    exact .kept first (ih others)

/-- Marks that would end an address, a part of it or an attribute. -/
def endMarks : List Char := ['"', '\'', '<', '>', '#', '?', '/']

def isUnsafe (c : Char) : Bool := Blank.isSpace c || c ∈ endMarks

theorem safe_of_alphanum {c : Char} (plain : c.isAlphanum = true) : isUnsafe c = false := by
  delta Char.isAlphanum Char.isAlpha Char.isUpper Char.isLower Char.isDigit at plain
  simp only [Bool.or_eq_true, Bool.and_eq_true, decide_eq_true_eq, ge_iff_le, UInt32.le_iff_toNat_le] at plain
  change ((65 ≤ c.toNat ∧ c.toNat ≤ 90) ∨ (97 ≤ c.toNat ∧ c.toNat ≤ 122)) ∨ (48 ≤ c.toNat ∧ c.toNat ≤ 57) at plain
  rw [isUnsafe, Bool.or_eq_false_iff]
  constructor
  · simp only [Blank.isSpace, Bool.or_eq_false_iff, Bool.and_eq_false_iff, decide_eq_false_iff_not, beq_eq_false_iff_ne]
    omega
  · apply decide_eq_false
    intro mark
    have codes : endMarks.all (fun mark => mark.toNat < 48 || 58 ≤ mark.toNat && mark.toNat < 65) = true := by decide
    have code := List.all_eq_true.mp codes c mark
    simp only [Bool.or_eq_true, Bool.and_eq_true, decide_eq_true_eq] at code
    omega

theorem safe_of_mem {marks : List Char} (safe : marks.all (!isUnsafe ·) = true) {c : Char} (member : c ∈ marks) :
    isUnsafe c = false := by
  simpa using List.all_eq_true.mp safe c member

theorem Escaped.safe {chars : List Char} (escaped : Escaped chars) : ∀ c ∈ chars, isUnsafe c = false := by
  have digits : hexDigits.all (!isUnsafe ·) = true := by decide
  have marks : keptMarks.all (!isUnsafe ·) = true := by decide
  induction escaped with
  | nil => simp
  | @kept c rest kept _ ih =>
    refine List.forall_mem_cons.mpr ⟨?_, ih⟩
    rw [isKept, Bool.or_eq_true] at kept
    rcases kept with plain | mark
    · exact safe_of_alphanum plain
    · exact safe_of_mem marks (of_decide_eq_true mark)
  | triple high low _ ih =>
    refine List.forall_mem_cons.mpr ⟨by decide, List.forall_mem_cons.mpr ⟨?_, List.forall_mem_cons.mpr ⟨?_, ih⟩⟩⟩
    · exact safe_of_mem digits high
    · exact safe_of_mem digits low

theorem encodeByte_escaped (byte : UInt8) : Escaped (encodeByte byte) := by
  unfold encodeByte
  split
  next safe =>
    refine escaped_of_kept (List.forall_mem_singleton.mpr ?_)
    simp only [isSafe, Bool.and_eq_true] at safe
    exact safe.2
  next =>
    have digit : ∀ value < 16, Hex.upperDigit value ∈ hexDigits := by decide
    have digits : Hex.digits Hex.upperDigit 2 byte.toNat =
        [Hex.upperDigit (byte.toNat / 16 % 16), Hex.upperDigit (byte.toNat % 16)] := by
      simp [Hex.digits, List.range_succ]
    rw [digits]
    exact .triple (digit _ (Nat.mod_lt _ (by decide))) (digit _ (Nat.mod_lt _ (by decide))) .nil

theorem encode_escaped (bytes : Bytes) : Escaped (encode bytes).toList := by
  rw [encode, String.toList_ofList]
  induction bytes with
  | nil => exact .nil
  | cons byte bytes ih => exact (encodeByte_escaped byte).append ih

theorem encode_eq_empty {bytes : Bytes} (empty : encode bytes = "") : bytes = [] := by
  cases bytes with
  | nil => rfl
  | cons byte bytes =>
    have chars := congrArg String.toList empty
    rw [encode, String.toList_ofList, List.flatMap_cons, String.toList_empty, List.append_eq_nil_iff] at chars
    have none := chars.1
    unfold encodeByte at none
    split at none <;> cases none

end Percent

namespace Blank

variable {α : Type} {blank : α → Bool} {items run : List α}

theorem mem_fieldsBy_cons {item : α} (member : run ∈ fieldsBy blank (item :: items)) :
    run ∈ fieldsBy blank items ∨ run = [item] ∨ ∃ more ∈ fieldsBy blank items, run = item :: more := by
  unfold fieldsBy at member
  split at member
  · exact .inl member
  split at member
  next _ _ first runs fields =>
    rw [fields]
    split at member
    · rcases List.mem_cons.mp member with same | further
      · exact .inr (.inl same)
      · exact .inl further
    · rcases List.mem_cons.mp member with same | further
      · exact .inr (.inr ⟨first, List.mem_cons_self, same⟩)
      · exact .inl (List.mem_cons_of_mem _ further)
  · rcases List.mem_cons.mp member with same | further
    · exact .inr (.inl same)
    · exact .inl further

/-- Fields are not empty and hold nothing but items of the list. -/
theorem mem_fieldsBy (member : run ∈ fieldsBy blank items) : run ≠ [] ∧ run ⊆ items := by
  induction items generalizing run with
  | nil => cases member
  | cons item items ih =>
    rcases mem_fieldsBy_cons member with further | rfl | ⟨more, further, rfl⟩
    · exact ⟨(ih further).1, List.subset_cons_of_subset _ (ih further).2⟩
    · exact ⟨List.cons_ne_nil _ _, List.cons_subset_cons _ (List.nil_subset _)⟩
    · exact ⟨List.cons_ne_nil _ _, List.cons_subset_cons _ (ih further).2⟩

end Blank

namespace Percent

theorem chunksFrom_filled {glyphs : List Glyph} {bytes : Bytes} (wide : ∀ glyph ∈ glyphs, 0 < glyph.width)
    (fits : Words.width glyphs ≤ bytes.length) : ∀ chunk ∈ chunksFrom glyphs bytes, chunk.2 ≠ [] := by
  induction glyphs generalizing bytes with
  | nil => simp [chunksFrom]
  | cons glyph glyphs ih =>
    obtain ⟨first, others⟩ := List.forall_mem_cons.mp wide
    rw [Words.width] at fits
    refine List.forall_mem_cons.mpr ⟨?_, ih others (by rw [List.length_drop]; omega)⟩
    rw [← List.length_pos_iff, List.length_take]
    omega

theorem fields_filled {bytes word : Bytes} (member : word ∈ fields bytes) : word ≠ [] := by
  obtain ⟨run, inside, rfl⟩ := List.mem_map.mp member
  obtain ⟨some, within⟩ := Blank.mem_fieldsBy inside
  obtain ⟨chunk, chunks, rfl⟩ := List.exists_cons_of_ne_nil some
  have filled := chunksFrom_filled (Utf8.width_pos bytes) (Nat.le_of_eq (Utf8.width_decode bytes)) chunk
    (within List.mem_cons_self)
  rw [List.flatMap_cons]
  exact List.append_ne_nil_of_left_ne_nil filled _

end Percent

namespace Contents

theorem baseOf_escaped (text : Bytes) : Percent.Escaped (baseOf text).toList := by
  unfold baseOf
  dsimp only
  split
  · apply Percent.escaped_of_kept
    rw [← List.all_eq_true]
    decide +kernel
  · exact Percent.encode_escaped _

theorem baseOf_ne_empty (text : Bytes) : baseOf text ≠ "" := by
  unfold baseOf
  dsimp only
  generalize (Percent.decode text).getD text = bytes
  split
  · decide
  next words =>
    intro empty
    have none := Percent.encode_eq_empty empty
    cases shape : Percent.fields bytes with
    | nil => rw [shape] at words; exact words rfl
    | cons word others =>
      have filled : word ≠ [] := Percent.fields_filled (shape ▸ List.mem_cons_self)
      rw [shape] at none
      cases others with
      | nil => exact filled (by simpa using none)
      | cons next others =>
        rw [List.intercalate_cons_cons, List.append_assoc, List.append_eq_nil_iff] at none
        exact filled none.1

theorem candidate_escaped {base : String} (escaped : Percent.Escaped base.toList) (number : Nat) :
    Percent.Escaped (candidate base number).toList := by
  cases number with
  | zero => exact escaped
  | succ number =>
    rw [candidate, String.toList_append]
    · apply escaped.append
      apply Percent.escaped_of_kept
      intro c member
      rw [Nat.toString_eq_ofList_toDigits, String.toList_ofList] at member
      have digit := Nat.isDigit_of_mem_toDigits (by decide) (by decide) member
      simp [Percent.isKept, Char.isAlphanum, digit]
    · exact Nat.succ_ne_zero number

theorem candidate_ne_empty {base : String} (filled : base ≠ "") (number : Nat) : candidate base number ≠ "" := by
  cases number with
  | zero => exact filled
  | succ number =>
    intro empty
    exact filled (String.append_eq_empty_iff.mp empty).1

/-- The anchors that a page gives to headings with these texts, met one after the other. -/
def anchorEach (contents : Contents) : List Bytes → List String × Contents
  | [] => ([], contents)
  | text :: rest =>
    let (id, met) := contents.anchorOf text
    let (ids, last) := anchorEach met rest
    (id :: ids, last)

theorem anchorEach_cons (contents : Contents) (text : Bytes) (rest : List Bytes) :
    (anchorEach contents (text :: rest)).1 =
      (contents.anchorOf text).1 :: (anchorEach (contents.anchorOf text).2 rest).1 := rfl

theorem anchorOf_used (contents : Contents) (text : Bytes) :
    (contents.anchorOf text).2.used = contents.used ++ [(contents.anchorOf text).1] := rfl

theorem anchorEach_length (contents : Contents) (texts : List Bytes) :
    (anchorEach contents texts).1.length = texts.length := by
  induction texts generalizing contents with
  | nil => rfl
  | cons text texts ih => exact congrArg (· + 1) (ih _)

theorem anchorEach_getElem? (contents : Contents) {texts : List Bytes} {place : Nat} {text : Bytes}
    (found : texts[place]? = some text) : (anchorEach contents texts).1[place]? =
      some (freeAnchor (contents.used ++ (anchorEach contents texts).1.take place) (baseOf text)) := by
  induction texts generalizing contents place with
  | nil => cases found
  | cons first texts ih =>
    rw [anchorEach_cons]
    cases place with
    | zero =>
      obtain rfl := Option.some.inj found
      rw [List.take_zero, List.append_nil]
      rfl
    | succ place =>
      rw [List.getElem?_cons_succ] at found
      rw [List.getElem?_cons_succ, List.take_succ_cons, ih _ found, anchorOf_used, List.append_assoc]
      rfl

theorem anchorEach_nodup (contents : Contents) (texts : List Bytes) :
    (anchorEach contents texts).1.Nodup ∧ ∀ id ∈ (anchorEach contents texts).1, id ∉ contents.used := by
  induction texts generalizing contents with
  | nil => simp [anchorEach]
  | cons text texts ih =>
    obtain ⟨distinct, apart⟩ := ih (contents.anchorOf text).2
    rw [anchorOf_used] at apart
    have new : (contents.anchorOf text).1 ∉ contents.used := freeAnchor_not_mem contents.used _
    rw [anchorEach_cons, List.nodup_cons]
    refine ⟨⟨fun again => ?_, distinct⟩, List.forall_mem_cons.mpr ⟨new, fun id member old => ?_⟩⟩
    · exact apart _ again (List.mem_append_right _ List.mem_cons_self)
    · exact apart id member (List.mem_append_left _ old)

/-- Titles of a document are well-formed text. -/
theorem anchorEach_titles (contents : Contents) (titles : List String) :
    (anchorEach contents (titles.map Utf8.encode)).1 = anchorsFrom contents.used titles := by
  induction titles generalizing contents with
  | nil => rfl
  | cons title titles ih =>
    rw [List.map_cons, anchorEach_cons, ih, anchorOf_used, anchorsFrom]
    rfl

/-- The anchors of headings that are met one after the other, on a page with any anchors in use, are new and differ from
one another. Each is what the heading would have to itself, or this with the least number that makes it differ from all
the anchors before it, which is found after no more tries than there are of these; it is not empty, and is made of
characters that stand for themselves in a path segment and of percent signs with two hexadecimal digits, so that there is
no white space and no mark in it that would end an address or an attribute. -/
theorem anchors_unique (contents : Contents) (texts : List Bytes) :
    let ids := (anchorEach contents texts).1
    ids.length = texts.length ∧ ids.Nodup ∧ (∀ id ∈ ids, id ∉ contents.used) ∧
      ∀ place text, texts[place]? = some text → ∃ id, ids[place]? = some id ∧
        (∃ number ≤ contents.used.length + place, id = candidate (baseOf text) number ∧
          id ∉ contents.used ++ ids.take place ∧
          ∀ less < number, candidate (baseOf text) less ∈ contents.used ++ ids.take place) ∧
        id ≠ "" ∧ Percent.Escaped id.toList ∧ ∀ c ∈ id.toList, Percent.isUnsafe c = false := by
  obtain ⟨distinct, apart⟩ := anchorEach_nodup contents texts
  refine ⟨anchorEach_length contents texts, distinct, apart, fun place text found => ?_⟩
  refine ⟨_, anchorEach_getElem? contents found, ?_⟩
  obtain ⟨number, same, free, taken⟩ :=
    freeAnchor_first (contents.used ++ (anchorEach contents texts).1.take place) (baseOf text)
  have escaped := candidate_escaped (baseOf_escaped text) number
  have few := candidate_le taken
  rw [List.length_append, List.length_take] at few
  rw [same]
  exact ⟨⟨number, by omega, rfl, free, taken⟩, candidate_ne_empty (baseOf_ne_empty text) number, escaped, escaped.safe⟩

/-- A number may be taken by a heading that ends in it. Escapes that are not well formed are text, as bytes are that
stand for no character. -/
theorem anchors_taken :
    let texts : List Bytes :=
      ["Intro1", "Intro", "Intro", "a%20b", "%zz <\"?/", "", " a b "].map Utf8.encode ++ [[0xFF, 0x20, 0x41]]
    let ids := ["Intro1", "Intro", "Intro2", "a-b", "%25zz-%3C%22%3F%2F", "section", "a-b1", "%FF-A"]
    (anchorEach {} texts).1 = ids ∧ texts[2]? = some (Utf8.encode "Intro") ∧ ∃ id, ids[2]? = some id ∧
      (∃ number ≤ 2, id = candidate (baseOf (Utf8.encode "Intro")) number ∧ id ∉ ids.take 2 ∧
        ∀ less < number, candidate (baseOf (Utf8.encode "Intro")) less ∈ ids.take 2) ∧
      id ≠ "" ∧ Percent.Escaped id.toList ∧ ∀ c ∈ id.toList, Percent.isUnsafe c = false := by
  intro texts ids
  have given : (anchorEach {} texts).1 = ids := by decide +kernel
  have listed : texts[2]? = some (Utf8.encode "Intro") := rfl
  obtain ⟨_, _, _, each⟩ := anchors_unique {} texts
  refine ⟨given, listed, ?_⟩
  rw [← given]
  exact each 2 _ listed

end Contents

/-- So the anchors of a document are given. -/
theorem Document.anchors_each (document : Document) : document.anchors =
    (Contents.anchorEach {} (((headlines document.nodes).map Headline.title).map Utf8.encode)).1 := by
  rw [anchors_eq, Contents.anchorEach_titles]

end Manuscript
