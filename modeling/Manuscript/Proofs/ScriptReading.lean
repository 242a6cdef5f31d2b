import Mathlib.Tactic.Ring
import Mathlib.Data.List.Basic
import Manuscript.Formula.Sheet

/-! The script that typesets formulas can be read back. Formula text is anything a user writes, yet what a sheet
makes of it keeps to its own lines, holds nothing that could end the script element around it, and loses neither
text nor id nor mode of an entry. Reading follows the grammar of string literals, not the writer: it takes every
escape of that grammar, also those that are never written. -/

namespace Manuscript

namespace Hex

/-- The number that hexadecimal digits of either case spell. -/
def number (digits : List Char) : Option Nat :=
  digits.foldlM (fun value digit => (value? digit).map (16 * value + ·)) 0

theorem value_lowerDigit {value : Nat} (small : value < 16) : value? (lowerDigit value) = some value := by
  revert value
  decide

theorem digits_succ (digit : Nat → Char) (width value : Nat) :
    digits digit (width + 1) value = digit (value / 16 ^ width % 16) :: digits digit width value := by
  simp [digits, List.range_succ]

theorem foldlM_digits (width value start : Nat) :
    (digits lowerDigit width value).foldlM (fun value digit => (value? digit).map (16 * value + ·)) start =
      some (16 ^ width * start + value % 16 ^ width) := by
  induction width generalizing start with
  | zero => simp [digits, Nat.mod_one]
  | succ width hypothesis =>
    have first := value_lowerDigit (Nat.mod_lt (value / 16 ^ width) (by omega : 0 < 16))
    have cut : value % 16 ^ (width + 1) = value % 16 ^ width + 16 ^ width * (value / 16 ^ width % 16) :=
      Nat.mod_pow_succ
    rw [digits_succ, List.foldlM_cons, first]
    simp only [Option.map_some, Option.bind_eq_bind, Option.bind_some]
    rw [hypothesis, cut, Nat.pow_succ]
    congr 1
    ring

theorem number_digits (width value : Nat) : number (digits lowerDigit width value) = some (value % 16 ^ width) := by
  simpa [number] using foldlM_digits width value 0

end Hex

namespace Script

/-- The character that a backslash and this letter stand for. -/
def escaped : Char → Option Char
  | '"' => some '"'
  | '\\' => some '\\'
  | '/' => some '/'
  | 'b' => some '\x08'
  | 'f' => some '\x0c'
  | 'n' => some '\n'
  | 'r' => some '\r'
  | 't' => some '\t'
  | _ => none

def isHigh (unit : Nat) : Bool := 0xD800 ≤ unit && unit < 0xDC00

def isLow (unit : Nat) : Bool := 0xDC00 ≤ unit && unit < 0xE000

/-- The inside of a string literal up to its closing quote, and what follows. Characters beyond the first plane are
escaped as two surrogates; a surrogate alone is no character. -/
def readText : List Char → Option (List Char × List Char)
  | [] => none
  | '"' :: rest => some ([], rest)
  | '\\' :: 'u' :: a :: b :: c :: d :: rest => do
    let unit ← Hex.number [a, b, c, d]
    -- a high surrogate counts only together with the low one that has to follow it
    if isHigh unit then
      match rest with
      | '\\' :: 'u' :: e :: f :: g :: h :: rest => do
        let low ← Hex.number [e, f, g, h]
        if isLow low then
          let (text, after) ← readText rest
          some (Char.ofNat (0x10000 + (unit - 0xD800) * 0x400 + (low - 0xDC00)) :: text, after)
        else none
      | _ => none
    else if isLow unit then none
    else
      let (text, after) ← readText rest
      some (Char.ofNat unit :: text, after)
  | '\\' :: letter :: rest => do
    let c ← escaped letter
    let (text, after) ← readText rest
    some (c :: text, after)
  | c :: rest =>
    if c = '\\' || c.toNat < 0x20 then none
    else do
      let (text, after) ← readText rest
      some (c :: text, after)

theorem readText_letter {letter c : Char} (escapes : escaped letter = some c) (rest : List Char) :
    readText ('\\' :: letter :: rest) = (readText rest).map fun (text, after) => (c :: text, after) := by
  have plain : letter ≠ 'u' := by
    rintro rfl
    cases escapes
  rw [readText]
  · simp only [escapes, Option.bind_eq_bind, Option.bind_some]
    cases readText rest <;> rfl
  · intros
    contradiction

theorem readText_number {a b c d : Char} {unit : Char} (spelled : Hex.number [a, b, c, d] = some unit.toNat)
    (small : unit.toNat < 0xD800) (rest : List Char) : readText ('\\' :: 'u' :: a :: b :: c :: d :: rest) =
      (readText rest).map fun (text, after) => (unit :: text, after) := by
  have high : isHigh unit.toNat = false := by
    simp [isHigh]
    omega
  have low : isLow unit.toNat = false := by
    simp [isLow]
    omega
  rw [readText]
  simp only [spelled, high, low, Option.bind_eq_bind, Option.bind_some, Char.ofNat_toNat]
  cases readText rest <;> rfl

theorem readText_plain {c : Char} (quote : c ≠ '"') (backslash : c ≠ '\\') (printed : 0x20 ≤ c.toNat)
    (rest : List Char) : readText (c :: rest) = (readText rest).map fun (text, after) => (c :: text, after) := by
  rw [readText]
  · rw [if_neg (by simp [backslash]; omega)]
    cases readText rest <;> rfl
  all_goals simp_all

def readLiteral : List Char → Option (String × List Char)
  | '"' :: rest => (readText rest).map fun (text, after) => (String.ofList text, after)
  | _ => none

example : readLiteral "\"\\ud83d\\uDE00 \\/\"".toList = some ("😀 /", []) := by decide +kernel

/-- What a line asks for: to typeset a formula into the element with an id, on its own line or not. -/
structure Call where
  latex : String
  id : String
  block : Bool
deriving DecidableEq, Repr

def readMode (options : List Char) : Option Bool :=
  if options = "\x7bthrowOnError: true\x7d);".toList then some false
  else if options = "\x7bthrowOnError: true, displayMode: true\x7d);".toList then some true
  else none

/-- What follows a fixed text. -/
def expect (text : String) (line : List Char) : Option (List Char) := line.dropPrefix? text.toList

theorem expect_append (text : String) (rest : List Char) : expect text (text.toList ++ rest) = some rest :=
  List.dropPrefix?_append_of_beq rest (BEq.refl _)

/-- The call on a line of a script. -/
def readCall (line : List Char) : Option Call := do
  let rest ← expect "katex.render(" line
  let (latex, rest) ← readLiteral rest
  let rest ← expect ", document.getElementById(" rest
  let (id, rest) ← readLiteral rest
  let rest ← expect "), " rest
  let block ← readMode rest
  some ⟨latex, id, block⟩

/-- The characters that a script in a page may hold as they are. -/
def isSafe (c : Char) : Bool := !(['<', '>', '&', '\u2028', '\u2029'].contains c)

/-- What stays on its line inside the script. -/
def Kept (letters : List Char) : Prop := letters.all (fun c => isSafe c && c != '\n') = true

theorem kept_iff {letters : List Char} : Kept letters ↔ ∀ c ∈ letters, isSafe c = true ∧ c ≠ '\n' := by
  simp [Kept]

theorem Kept.append {letters others : List Char} (first : Kept letters) (second : Kept others) :
    Kept (letters ++ others) :=
  kept_iff.mpr (List.forall_mem_append.mpr ⟨kept_iff.mp first, kept_iff.mp second⟩)

theorem kept_ofList {letters : List Char} (kept : Kept letters) : Kept (String.ofList letters).toList := by
  rwa [String.toList_ofList]

end Script

open Script FormulaSheet

def Formula.call (entry : Formula) : Call := ⟨entry.latex, entry.id, entry.block⟩

namespace FormulaSheet

/-- A character is written as a short escape, as a number, or as it is. -/
theorem literalChar_cases (c : Char) :
    (∃ letter, literalChar c = ['\\', letter] ∧ escaped letter = some c) ∨
    (literalChar c = '\\' :: 'u' :: Hex.digits Hex.lowerDigit 4 c.toNat ∧ c.toNat < 0xD800) ∨
    (literalChar c = [c] ∧ isSafe c = true ∧ 0x20 ≤ c.toNat ∧ c ≠ '"' ∧ c ≠ '\\') := by
  unfold literalChar
  split
  case h_1 => exact .inl ⟨'"', rfl, rfl⟩
  case h_2 => exact .inl ⟨'\\', rfl, rfl⟩
  case h_3 => exact .inl ⟨'n', rfl, rfl⟩
  case h_4 => exact .inl ⟨'r', rfl, rfl⟩
  case h_5 => exact .inl ⟨'t', rfl, rfl⟩
  case h_6 quote backslash line carriage tab =>
    dsimp only
    split
    next back => exact .inl ⟨'b', rfl, congrArg some (Char.toNat_inj.mp back.symm)⟩
    next =>
      split
      next feed => exact .inl ⟨'f', rfl, congrArg some (Char.toNat_inj.mp feed.symm)⟩
      next =>
        split
        next hidden =>
          refine .inr (.inl ⟨rfl, ?_⟩)
          simp only [Bool.or_eq_true, decide_eq_true_eq, List.mem_cons, List.not_mem_nil, or_false] at hidden
          rcases hidden with ((control | rfl | rfl | rfl) | separator) | paragraph
          any_goals omega
          all_goals decide
        next plain =>
          simp only [Bool.or_eq_true, decide_eq_true_eq, not_or, Nat.not_lt] at plain
          obtain ⟨⟨⟨printed, markup⟩, separator⟩, paragraph⟩ := plain
          refine .inr (.inr ⟨rfl, ?_, printed, quote, backslash⟩)
          have separates : c ≠ '\u2028' := fun same => separator (congrArg Char.toNat same)
          have parts : c ≠ '\u2029' := fun same => paragraph (congrArg Char.toNat same)
          simp_all [isSafe]

theorem digit_safe {width value : Nat} {c : Char} (member : c ∈ Hex.digits Hex.lowerDigit width value) :
    isSafe c = true ∧ c ≠ '\n' := by
  obtain ⟨place, -, rfl⟩ := List.mem_map.mp member
  generalize bound : value / Nat.pow 16 place % 16 = digit
  have small : digit < 16 := by omega
  clear bound member
  revert digit
  decide

theorem letter_safe {letter c : Char} (escapes : escaped letter = some c) :
    isSafe letter = true ∧ letter ≠ '\n' := by
  unfold escaped at escapes
  split at escapes
  all_goals first | decide | cases escapes

theorem literalChar_safe {c written : Char} (member : written ∈ literalChar c) :
    isSafe written = true ∧ written ≠ '\n' := by
  rcases literalChar_cases c with ⟨letter, spelled, escapes⟩ | ⟨spelled, -⟩ | ⟨spelled, safe, printed, -⟩
  · rw [spelled] at member
    rcases List.mem_cons.mp member with rfl | member
    · decide
    · obtain rfl := List.mem_singleton.mp member
      exact letter_safe escapes
  · rw [spelled] at member
    rcases List.mem_cons.mp member with rfl | member
    · decide
    rcases List.mem_cons.mp member with rfl | member
    · decide
    · exact digit_safe member
  · rw [spelled] at member
    obtain rfl := List.mem_singleton.mp member
    refine ⟨safe, ?_⟩
    rintro rfl
    exact absurd printed (by decide)

theorem readText_literalChar (c : Char) (rest : List Char) :
    readText (literalChar c ++ rest) = (readText rest).map fun (text, after) => (c :: text, after) := by
  obtain ⟨letter, spelled, escapes⟩ | ⟨spelled, small⟩ | ⟨spelled, -, printed, quote, backslash⟩ :=
    literalChar_cases c
  · rw [spelled]
    exact readText_letter escapes rest
  · have whole : Hex.number (Hex.digits Hex.lowerDigit 4 c.toNat) = some c.toNat := by
      rw [Hex.number_digits, Nat.mod_eq_of_lt (by omega)]
    rw [spelled]
    simp only [Hex.digits_succ] at whole ⊢
    exact readText_number whole small rest
  · rw [spelled]
    exact readText_plain quote backslash printed rest

theorem readText_flatMap (letters rest : List Char) :
    readText (letters.flatMap literalChar ++ '"' :: rest) = some (letters, rest) := by
  induction letters with
  | nil => rfl
  | cons c letters hypothesis =>
    rw [List.flatMap_cons, List.append_assoc, readText_literalChar, hypothesis]
    rfl

/-- A string literal is read back to the text it was made of, whatever follows it. -/
theorem readLiteral_literal (text : String) (rest : List Char) :
    readLiteral ((literal text).toList ++ rest) = some (text, rest) := by
  have spelled : (literal text).toList ++ rest = '"' :: (text.toList.flatMap literalChar ++ '"' :: rest) := by
    simp [literal]
  rw [spelled]
  simp [readLiteral, readText_flatMap]

theorem literal_kept (text : String) : Kept (literal text).toList := by
  refine kept_iff.mpr fun c member => ?_
  simp only [literal, String.toList_ofList, List.cons_append, List.mem_cons, List.mem_append, List.mem_flatMap,
    List.not_mem_nil, or_false] at member
  rcases member with rfl | ⟨of, -, member⟩ | rfl
  · decide
  · exact literalChar_safe member
  · decide

/-- A line as it stands in the script before its end. -/
def lineOf (entry : Formula) : List Char :=
  "katex.render(".toList ++ ((literal entry.latex).toList ++ (", document.getElementById(".toList ++
    ((literal entry.id).toList ++ ("), ".toList ++
      if entry.block then "\x7bthrowOnError: true, displayMode: true\x7d);".toList
      else "\x7bthrowOnError: true\x7d);".toList))))

theorem scriptLine_toList (entry : Formula) : (scriptLine entry).toList = lineOf entry ++ ['\n'] := by
  unfold scriptLine lineOf
  cases entry.block <;> simp

theorem lineOf_kept (entry : Formula) : Kept (lineOf entry) := by
  have mode : Kept (if entry.block then "\x7bthrowOnError: true, displayMode: true\x7d);".toList
      else "\x7bthrowOnError: true\x7d);".toList) := by
    split
    · exact kept_ofList rfl
    · exact kept_ofList rfl
  have close : Kept "), ".toList := kept_ofList rfl
  have place : Kept ", document.getElementById(".toList := kept_ofList rfl
  have start : Kept "katex.render(".toList := kept_ofList rfl
  exact start.append ((literal_kept _).append (place.append ((literal_kept _).append (close.append mode))))

theorem readCall_lineOf (entry : Formula) : readCall (lineOf entry) = some entry.call := by
  have mode : readMode (if entry.block then "\x7bthrowOnError: true, displayMode: true\x7d);".toList
      else "\x7bthrowOnError: true\x7d);".toList) = some entry.block := by
    unfold readMode
    cases entry.block with
    | false => exact if_pos rfl
    | true => exact (if_neg (mt String.toList_inj.mp (by decide))).trans (if_pos rfl)
  unfold readCall lineOf
  simp only [expect_append, readLiteral_literal, Option.bind_eq_bind, Option.bind_some, mode]
  rfl

theorem script_toList (sheet : FormulaSheet) :
    sheet.script.toList = sheet.entries.flatMap fun entry => lineOf entry ++ ['\n'] := by
  unfold script
  induction sheet.entries with
  | nil => rfl
  | cons entry entries hypothesis =>
    rw [List.map_cons, String.join_cons, String.toList_append, hypothesis, scriptLine_toList, List.flatMap_cons]

theorem script_safe (sheet : FormulaSheet) {c : Char} (member : c ∈ sheet.script.toList) : isSafe c = true := by
  rw [script_toList] at member
  obtain ⟨entry, -, member⟩ := List.mem_flatMap.mp member
  rcases List.mem_append.mp member with member | member
  · exact (kept_iff.mp (lineOf_kept entry) _ member).1
  · obtain rfl := List.mem_singleton.mp member
    decide

theorem splitOn_script (sheet : FormulaSheet) :
    sheet.script.toList.splitOn '\n' = sheet.entries.map lineOf ++ [[]] := by
  rw [script_toList]
  induction sheet.entries with
  | nil => rfl
  | cons entry entries hypothesis =>
    have whole : '\n' ∉ lineOf entry := fun member => (kept_iff.mp (lineOf_kept entry) _ member).2 rfl
    rw [List.flatMap_cons, List.append_assoc, List.singleton_append, List.splitOn_append_cons_self,
      List.splitOn_eq_singleton whole, hypothesis]
    rfl

/-- A sheet's script keeps inside its script element, has a line for every entry in order, and each line read back
gives the entry's text, id and mode. Sheets that differ in these have different scripts. -/
theorem script_read_back (sheet : FormulaSheet) :
    (∀ c ∈ sheet.script.toList, c ∉ ['<', '>', '&', '\u2028', '\u2029']) ∧
    (∃ lines, sheet.script.toList.splitOn '\n' = lines ++ [[]] ∧
      lines.map readCall = sheet.entries.map fun entry => some entry.call) ∧
    ∀ other : FormulaSheet, sheet.script = other.script →
      sheet.entries.map Formula.call = other.entries.map Formula.call := by
  have reads : ∀ sheet : FormulaSheet,
      (sheet.entries.map lineOf).map readCall = (sheet.entries.map Formula.call).map some := by
    intro sheet
    simp [readCall_lineOf]
  refine ⟨?_, ?_, ?_⟩
  · intro c member
    simpa [isSafe] using script_safe sheet member
  · refine ⟨_, splitOn_script sheet, ?_⟩
    rw [reads, List.map_map]
    rfl
  · intro other same
    have split := splitOn_script sheet
    rw [same, splitOn_script other] at split
    have lines := List.append_cancel_right split
    have calls := reads other
    rw [lines, reads] at calls
    exact List.map_injective_iff.mpr (Option.some_injective _) calls

end FormulaSheet
end Manuscript
