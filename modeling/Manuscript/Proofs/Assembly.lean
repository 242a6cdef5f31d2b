import Manuscript.Proofs.Declared

/-! How a page is put together. A compilation that succeeds has followed a tree of inclusions; this tree is a relation
between what a file contains and what expansion leaves of it, and facts about pages are proved along it. -/

namespace Manuscript

/-- Expansion leaves these nodes alone and does not look into them. -/
def Node.isPassed : Node → Bool
  | .command _ | .bracket _ | .quotation _ _ _ | .fragment _ => false
  | _ => true

namespace Compiler

open Compile

/-- What expansion leaves of a part of the file at a path, and how it changes the sheet. -/
inductive Expands (compiler : Compiler) :
    (path : String) → (chain : List String) → (extract : Bool) → List Node → FormulaSheet → List Node → FormulaSheet →
      Prop where
  | nil {path : String} {chain : List String} {extract : Bool} {sheet : FormulaSheet} :
      Expands compiler path chain extract [] sheet [] sheet
  | passed {path : String} {chain : List String} {extract : Bool} {node : Node} {rest left : List Node}
      {sheet after : FormulaSheet} (plain : node.isPassed = true)
      (later : Expands compiler path chain extract rest sheet left after) :
      Expands compiler path chain extract (node :: rest) sheet (node :: left) after
  | command {path : String} {chain : List String} {extract : Bool} {ident : Ident} {attributes : Option Attributes}
      {args inner : List Node} {declaration : Option Declaration} {rules : List (Rule Node)} {rest left : List Node}
      {sheet middle after : FormulaSheet} (other : Declaration.isInclusion declaration = false)
      (inside : Expands compiler path chain extract args sheet inner middle)
      (later : Expands compiler path chain extract rest middle left after) :
      Expands compiler path chain extract (.command ⟨ident, attributes, args, declaration, rules⟩ :: rest) sheet
        (.command ⟨ident, attributes, inner, declaration, rules⟩ :: left) after
  | bracket {path : String} {chain : List String} {extract : Bool} {kind : BracketKind} {opening closing : Option Token}
      {children inner rest left : List Node} {sheet middle after : FormulaSheet}
      (inside : Expands compiler path chain extract children sheet inner middle)
      (later : Expands compiler path chain extract rest middle left after) :
      Expands compiler path chain extract (.bracket ⟨kind, opening, closing, children⟩ :: rest) sheet
        (.bracket ⟨kind, opening, closing, inner⟩ :: left) after
  | quotation {path : String} {chain : List String} {extract : Bool} {opening closing : Option Token}
      {children inner rest left : List Node} {sheet middle after : FormulaSheet}
      (inside : Expands compiler path chain extract children sheet inner middle)
      (later : Expands compiler path chain extract rest middle left after) :
      Expands compiler path chain extract (.quotation opening closing children :: rest) sheet
        (.quotation opening closing inner :: left) after
  | fragment {path : String} {chain : List String} {extract : Bool} {children inner rest left : List Node}
      {sheet middle after : FormulaSheet} (inside : Expands compiler path chain extract children sheet inner middle)
      (later : Expands compiler path chain extract rest middle left after) :
      Expands compiler path chain extract (.fragment children :: rest) sheet (.fragment inner :: left) after
  /-- A file that does not end in `sourceExt` is put in as it is, or into the targets of the rules. -/
  | spliced {path : String} {chain : List String} {extract : Bool} {command : Command Node}
      {content placed rest left : List Node} {sheet after : FormulaSheet}
      (included : Declaration.isInclusion command.declaration = true) (fresh : target path command ∉ chain)
      (ending : Path.ext (target path command) ≠ sourceExt) (loaded : compiler.Loads (target path command) content)
      (filled : compiler.Spliced path content command.rules placed)
      (later : Expands compiler path chain extract rest sheet left after) :
      Expands compiler path chain extract (.command command :: rest) sheet (.fragment placed :: left) after
  /-- A source is expanded in turn, with a sheet of its own. -/
  | source {path : String} {chain : List String} {extract : Bool} {command : Command Node}
      {content inner rest left : List Node} {sheet filled after : FormulaSheet}
      (included : Declaration.isInclusion command.declaration = true) (fresh : target path command ∉ chain)
      (ending : Path.ext (target path command) = sourceExt) (loaded : compiler.Loads (target path command) content)
      (inside : Expands compiler (target path command) (chain ++ [target path command])
        (extract && !command.hasAttribute "toc-only") content sheet.successor inner filled)
      (later : Expands compiler path chain extract rest
        (conclude (compiler.adjustment (target path command) command) (extract && !command.hasAttribute "toc-only") sheet
          (inner, filled)).2 left after) :
      Expands compiler path chain extract (.command command :: rest) sheet
        (.fragment (conclude (compiler.adjustment (target path command) command)
          (extract && !command.hasAttribute "toc-only") sheet (inner, filled)).1 :: left) after

section Keeps

variable {compiler : Compiler} {path : String} {chain : List String} {extract : Bool}
  {inclusion : Command Node → Expand (List Node)}

mutual

theorem keeps_expands_node (node : Node)
    (each : ∀ command, Declaration.isInclusion command.declaration = true → ∀ sheet,
      Keeps compiler.Faithful (fun result => ∀ rest left after,
        compiler.Expands path chain extract rest result.2 left after →
          compiler.Expands path chain extract (.command command :: rest) sheet (.fragment result.1 :: left) after)
        ((inclusion command).run sheet)) (sheet : FormulaSheet) :
    Keeps compiler.Faithful (fun result => ∀ rest left after,
      compiler.Expands path chain extract rest result.2 left after →
        compiler.Expands path chain extract (node :: rest) sheet (result.1 :: left) after)
      ((expandNode inclusion node).run sheet) := by
  match node with
  | .command ⟨ident, attributes, args, declaration, rules⟩ =>
    unfold expandNode
    split
    next included =>
      rw [StateT.run_bind]
      exact (each ⟨ident, attributes, args, declaration, rules⟩ included sheet).bind fun _ expands => keeps_pure expands
    next other =>
      rw [StateT.run_bind]
      refine (keeps_expands args each sheet).bind fun result inside => keeps_pure ?_
      intro rest left after later
      exact .command (Bool.eq_false_iff.mpr other) inside later
  | .bracket ⟨kind, opening, closing, children⟩ =>
    simp only [expandNode, StateT.run_bind]
    exact (keeps_expands children each sheet).bind fun _ inside => keeps_pure fun _ _ _ later => .bracket inside later
  | .quotation opening closing children =>
    simp only [expandNode, StateT.run_bind]
    exact (keeps_expands children each sheet).bind fun _ inside => keeps_pure fun _ _ _ later => .quotation inside later
  | .fragment children =>
    simp only [expandNode, StateT.run_bind]
    exact (keeps_expands children each sheet).bind fun _ inside => keeps_pure fun _ _ _ later => .fragment inside later
  | .hole | .text _ _ | .symbol _ _ | .ident _ | .stray _ | .drawing _ | .tag _ =>
    exact keeps_pure fun _ _ _ later => .passed rfl later
termination_by structural node

theorem keeps_expands (nodes : List Node)
    (each : ∀ command, Declaration.isInclusion command.declaration = true → ∀ sheet,
      Keeps compiler.Faithful (fun result => ∀ rest left after,
        compiler.Expands path chain extract rest result.2 left after →
          compiler.Expands path chain extract (.command command :: rest) sheet (.fragment result.1 :: left) after)
        ((inclusion command).run sheet)) (sheet : FormulaSheet) :
    Keeps compiler.Faithful (fun result => compiler.Expands path chain extract nodes sheet result.1 result.2)
      ((expandNodes inclusion nodes).run sheet) := by
  match nodes with
  | [] => exact keeps_pure .nil
  | node :: rest =>
    simp only [expandNodes, StateT.run_bind]
    refine (keeps_expands_node node each sheet).bind fun first expands => ?_
    refine (keeps_expands rest each first.2).bind fun second later => ?_
    exact keeps_pure (expands rest second.1 second.2 later)
termination_by structural nodes

end

end Keeps

theorem keeps_includeFile_expands (compiler : Compiler) (limit depth : Nat) (path : String) (chain : List String)
    (extract : Bool) (command : Command Node) (included : Declaration.isInclusion command.declaration = true)
    (sheet : FormulaSheet) :
    Keeps compiler.Faithful (fun result => ∀ rest left after,
      compiler.Expands path chain extract rest result.2 left after →
        compiler.Expands path chain extract (.command command :: rest) sheet (.fragment result.1 :: left) after)
      (((compiler.within limit).includeFile depth path chain extract command).run sheet) := by
  induction depth generalizing path chain extract command sheet with
  | zero => exact keeps_throw _
  | succ depth ih =>
    rw [includeFile_run]
    split
    · exact keeps_throw _
    next other =>
      have fresh : target path command ∉ chain := by simpa using other
      apply (keeps_fetch compiler limit path _).bind
      intro content loaded
      unfold place
      dsimp only
      split
      next ending =>
        apply (keeps_spliced compiler limit path content command.rules).bind
        intro placed filled
        exact keeps_pure fun _ _ _ later => .spliced included fresh ending loaded filled later
      next ending =>
        refine (keeps_expands content (fun inner nested sheet => ih _ _ _ inner nested sheet) sheet.successor).bind ?_
        intro expanded inside
        exact keeps_pure fun _ _ _ later => .source included fresh (not_not.mp ending) loaded inside later

/-- What is left of an expanded page once its formulas are taken out, if they are. -/
def finished (extract : Bool) (nodes : List Node) (sheet : FormulaSheet) : List Node × FormulaSheet :=
  if extract then (extractFormulas nodes).run sheet else (nodes, sheet)

theorem keeps_finish (compiler : Compiler) (limit : Nat) (path : String) (nodes : List Node) (extract : Bool) :
    Keeps compiler.Faithful (fun document => ∃ left sheet, compiler.Expands path [path] extract nodes {} left sheet ∧
      document = ⟨path, (finished extract left sheet).1, (finished extract left sheet).2⟩)
      ((compiler.within limit).finish path nodes extract) := by
  have each := keeps_includeFile_expands compiler limit limit path [path] extract
  apply (keeps_expands nodes each {}).bind
  rintro ⟨left, sheet⟩ expands
  dsimp only
  unfold finished
  split <;> exact keeps_pure ⟨left, sheet, expands, rfl⟩

/-- A page that was compiled has been put together from the content of its file. -/
theorem compileFile_expands {compiler : Compiler} {limit : Nat} {path : String} {extract : Bool}
    {session after : Session} (faithful : compiler.Faithful session) {document : Document}
    (succeeds : outcome ((compiler.within limit).compileFile path extract) session = (.ok document, after)) :
    ∃ nodes left sheet, compiler.Loads (Path.clean path) nodes ∧
      compiler.Expands (Path.clean path) [Path.clean path] extract nodes {} left sheet ∧
      document = ⟨Path.clean path, (finished extract left sheet).1, (finished extract left sheet).2⟩ := by
  have keeps : Keeps compiler.Faithful (fun document => ∃ nodes left sheet, compiler.Loads (Path.clean path) nodes ∧
      compiler.Expands (Path.clean path) [Path.clean path] extract nodes {} left sheet ∧
      document = ⟨Path.clean path, (finished extract left sheet).1, (finished extract left sheet).2⟩)
      ((compiler.within limit).compileFile path extract) := by
    apply Keeps.rethrow
    apply (keeps_load compiler limit _).bind
    intro nodes loads
    refine (keeps_finish compiler limit _ nodes extract).mono ?_
    rintro document ⟨left, sheet, expands, same⟩
    exact ⟨nodes, left, sheet, loads, expands, same⟩
  exact (keeps session faithful).2 document (congrArg Prod.fst succeeds)

/-- So has one that was compiled from source text, from what this text resolves to. -/
theorem compileSource_expands {compiler : Compiler} {limit : Nat} {path : String} {source : Bytes}
    {session after : Session} (faithful : compiler.Faithful session) {document : Document}
    (succeeds : outcome ((compiler.within limit).compileSource path source) session = (.ok document, after)) :
    ∃ nodes left sheet, (∃ depth events, resolve compiler.registry depth (.top (Path.clean path))
        (normalize (Parse.ofBytes source)) = some (nodes, events)) ∧
      compiler.Expands (Path.clean path) [Path.clean path] true nodes {} left sheet ∧
      document = ⟨Path.clean path, (finished true left sheet).1, (finished true left sheet).2⟩ := by
  have keeps : Keeps compiler.Faithful (fun document => ∃ nodes left sheet, (∃ depth events,
        resolve compiler.registry depth (.top (Path.clean path)) (normalize (Parse.ofBytes source)) =
          some (nodes, events)) ∧
      compiler.Expands (Path.clean path) [Path.clean path] true nodes {} left sheet ∧
      document = ⟨Path.clean path, (finished true left sheet).1, (finished true left sheet).2⟩)
      ((compiler.within limit).compileSource path source) := by
    apply (keeps_resolveTop compiler limit _ _).bind
    intro nodes resolved
    refine (keeps_finish compiler limit _ nodes true).mono ?_
    rintro document ⟨left, sheet, expands, same⟩
    exact ⟨nodes, left, sheet, resolved, expands, same⟩
  exact (keeps session faithful).2 document (congrArg Prod.fst succeeds)

section Settled

open Outline

variable {compiler : Compiler} {path : String} {chain : List String} {extract : Bool} {nodes left : List Node}
  {sheet after : FormulaSheet}

theorem Expands.passed_cases {node : Node} (plain : node.isPassed = true)
    (expands : compiler.Expands path chain extract (node :: nodes) sheet left after) :
    ∃ rest, left = node :: rest ∧ compiler.Expands path chain extract nodes sheet rest after := by
  cases expands with
  | passed _ later => exact ⟨_, rfl, later⟩
  | _ => cases plain

theorem Expands.command_cases {command : Command Node} (other : Declaration.isInclusion command.declaration = false)
    (expands : compiler.Expands path chain extract (.command command :: nodes) sheet left after) :
    ∃ inner rest middle, left = .command { command with args := inner } :: rest ∧
      compiler.Expands path chain extract command.args sheet inner middle ∧
      compiler.Expands path chain extract nodes middle rest after := by
  cases expands with
  | command _ inside later => exact ⟨_, _, _, rfl, inside, later⟩
  | passed plain => cases plain
  | spliced included | source included => cases other.symm.trans included

theorem Expands.bracket_cases {block : Block Node}
    (expands : compiler.Expands path chain extract (.bracket block :: nodes) sheet left after) :
    ∃ inner rest middle, left = .bracket { block with children := inner } :: rest ∧
      compiler.Expands path chain extract block.children sheet inner middle ∧
      compiler.Expands path chain extract nodes middle rest after := by
  cases expands with
  | bracket inside later => exact ⟨_, _, _, rfl, inside, later⟩
  | passed plain => cases plain

theorem Expands.quotation_cases {opening closing : Option Token} {children : List Node}
    (expands : compiler.Expands path chain extract (.quotation opening closing children :: nodes) sheet left after) :
    ∃ inner rest middle, left = .quotation opening closing inner :: rest ∧
      compiler.Expands path chain extract children sheet inner middle ∧
      compiler.Expands path chain extract nodes middle rest after := by
  cases expands with
  | quotation inside later => exact ⟨_, _, _, rfl, inside, later⟩
  | passed plain => cases plain

theorem Expands.fragment_cases {children : List Node}
    (expands : compiler.Expands path chain extract (.fragment children :: nodes) sheet left after) :
    ∃ inner rest middle, left = .fragment inner :: rest ∧
      compiler.Expands path chain extract children sheet inner middle ∧
      compiler.Expands path chain extract nodes middle rest after := by
  cases expands with
  | fragment inside later => exact ⟨_, _, _, rfl, inside, later⟩
  | passed plain => cases plain

theorem Expands.spliced_cases {command : Command Node} (included : Declaration.isInclusion command.declaration = true)
    (ending : Path.ext (target path command) ≠ sourceExt)
    (expands : compiler.Expands path chain extract (.command command :: nodes) sheet left after) :
    ∃ content placed rest, left = .fragment placed :: rest ∧ target path command ∉ chain ∧
      compiler.Loads (target path command) content ∧ compiler.Spliced path content command.rules placed ∧
      compiler.Expands path chain extract nodes sheet rest after := by
  cases expands with
  | spliced _ fresh _ loaded filled later => exact ⟨_, _, _, rfl, fresh, loaded, filled, later⟩
  | passed plain => cases plain
  | command other => cases other.symm.trans included
  | source _ _ source => exact absurd source ending

theorem Expands.source_cases {command : Command Node} (included : Declaration.isInclusion command.declaration = true)
    (ending : Path.ext (target path command) = sourceExt)
    (expands : compiler.Expands path chain extract (.command command :: nodes) sheet left after) :
    ∃ content inner filled rest, left = .fragment (conclude (compiler.adjustment (target path command) command)
        (extract && !command.hasAttribute "toc-only") sheet (inner, filled)).1 :: rest ∧ target path command ∉ chain ∧
      compiler.Loads (target path command) content ∧
      compiler.Expands (target path command) (chain ++ [target path command])
        (extract && !command.hasAttribute "toc-only") content sheet.successor inner filled ∧
      compiler.Expands path chain extract nodes (conclude (compiler.adjustment (target path command) command)
        (extract && !command.hasAttribute "toc-only") sheet (inner, filled)).2 rest after := by
  cases expands with
  | source _ fresh _ loaded inside later => exact ⟨_, _, _, _, rfl, fresh, loaded, inside, later⟩
  | passed plain => cases plain
  | command other => cases other.symm.trans included
  | spliced _ _ other => exact absurd ending other

theorem Spliced.unique {content left others : List Node} {rules : List (Rule Node)}
    (spliced : compiler.Spliced path content rules left) (again : compiler.Spliced path content rules others) :
    others = left := by
  cases spliced with
  | plain =>
    cases again with
    | plain => rfl
    | filled given => exact absurd rfl given
  | filled given resolved =>
    cases again with
    | plain => exact absurd rfl given
    | filled _ repeated => exact congrArg Prod.fst (resolve_unique repeated resolved)

/-- What a file expands to, and the sheet it leaves, are settled by what is in it. -/
theorem Expands.settled (expands : compiler.Expands path chain extract nodes sheet left after) {others : List String}
    {again : List Node} {final : FormulaSheet} (repeated : compiler.Expands path others extract nodes sheet again final) :
    again = left ∧ final = after := by
  induction expands generalizing others again final with
  | nil =>
    cases repeated
    exact ⟨rfl, rfl⟩
  | passed plain _ later =>
    obtain ⟨_, rfl, more⟩ := repeated.passed_cases plain
    obtain ⟨rfl, rfl⟩ := later more
    exact ⟨rfl, rfl⟩
  | command other _ _ inside later =>
    obtain ⟨_, _, _, rfl, within, more⟩ := repeated.command_cases other
    obtain ⟨rfl, rfl⟩ := inside within
    obtain ⟨rfl, rfl⟩ := later more
    exact ⟨rfl, rfl⟩
  | bracket _ _ inside later =>
    obtain ⟨_, _, _, rfl, within, more⟩ := repeated.bracket_cases
    obtain ⟨rfl, rfl⟩ := inside within
    obtain ⟨rfl, rfl⟩ := later more
    exact ⟨rfl, rfl⟩
  | quotation _ _ inside later =>
    obtain ⟨_, _, _, rfl, within, more⟩ := repeated.quotation_cases
    obtain ⟨rfl, rfl⟩ := inside within
    obtain ⟨rfl, rfl⟩ := later more
    exact ⟨rfl, rfl⟩
  | fragment _ _ inside later =>
    obtain ⟨_, _, _, rfl, within, more⟩ := repeated.fragment_cases
    obtain ⟨rfl, rfl⟩ := inside within
    obtain ⟨rfl, rfl⟩ := later more
    exact ⟨rfl, rfl⟩
  | spliced included _ ending loaded filled _ later =>
    obtain ⟨_, _, _, rfl, _, reloaded, refilled, more⟩ := repeated.spliced_cases included ending
    obtain rfl := loaded.unique reloaded
    obtain rfl := filled.unique refilled
    obtain ⟨rfl, rfl⟩ := later more
    exact ⟨rfl, rfl⟩
  | source included _ ending loaded _ _ inside later =>
    obtain ⟨_, _, _, _, rfl, _, reloaded, within, more⟩ := repeated.source_cases included ending
    obtain rfl := loaded.unique reloaded
    obtain ⟨rfl, rfl⟩ := inside within
    obtain ⟨rfl, rfl⟩ := later more
    exact ⟨rfl, rfl⟩

/-- Without formulas being taken out, the sheet does not matter. -/
theorem conclude_still (adjustment : Adjustment) (sheet other : FormulaSheet) (inner : List Node)
    (filled less : FormulaSheet) : (conclude adjustment false sheet (inner, filled)).2 = sheet ∧
      (conclude adjustment false sheet (inner, filled)).1 = (conclude adjustment false other (inner, less)).1 := by
  unfold conclude
  dsimp only
  split <;> exact ⟨rfl, rfl⟩

/-- A source is included where formulas stay in place. -/
theorem Expands.source_still {command : Command Node} {content inner : List Node}
    (included : Declaration.isInclusion command.declaration = true) (fresh : target path command ∉ chain)
    (ending : Path.ext (target path command) = sourceExt) (loaded : compiler.Loads (target path command) content)
    (inside : compiler.Expands (target path command) (chain ++ [target path command]) false content sheet.successor inner
      sheet.successor)
    (later : compiler.Expands path chain false nodes sheet left sheet) :
    compiler.Expands path chain false (.command command :: nodes) sheet (.fragment (conclude
      (compiler.adjustment (target path command) command) false sheet (inner, sheet.successor)).1 :: left) sheet := by
  have same := (conclude_still (compiler.adjustment (target path command) command) sheet sheet inner sheet.successor
    sheet.successor).1
  refine .source included fresh ending loaded inside ?_
  rw [Bool.false_and, same]
  exact later

theorem Expands.still (expands : compiler.Expands path chain extract nodes sheet left after) (kept : extract = false)
    (other : FormulaSheet) : compiler.Expands path chain false nodes other left other := by
  induction expands generalizing other with
  | nil => exact .nil
  | passed plain _ later => exact .passed plain (later kept other)
  | command plain _ _ inside later => exact .command plain (inside kept other) (later kept other)
  | bracket _ _ inside later => exact .bracket (inside kept other) (later kept other)
  | quotation _ _ inside later => exact .quotation (inside kept other) (later kept other)
  | fragment _ _ inside later => exact .fragment (inside kept other) (later kept other)
  | spliced included fresh ending loaded filled _ later =>
    exact .spliced included fresh ending loaded filled (later kept other)
  | source included fresh ending loaded _ _ inside later =>
    subst kept
    rw [Bool.false_and, (conclude_still _ _ other _ _ other.successor).2]
    exact .source_still included fresh ending loaded (inside rfl other.successor) (later rfl other)

/-- So what a file expands to is settled as long as formulas stay where they are, whatever is on the sheet. -/
theorem Expands.unique (expands : compiler.Expands path chain extract nodes sheet left after) (kept : extract = false)
    {others : List String} {start final : FormulaSheet} {again : List Node}
    (repeated : compiler.Expands path others false nodes start again final) : again = left :=
  ((expands.still kept start).settled repeated).1

end Settled

end Compiler
end Manuscript
