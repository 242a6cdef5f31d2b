import Manuscript.Proofs.InclusionEnds

/-! What is left of the inclusions of a document. Expansion replaces all of them but those in arguments of tags, and
later passes add none, so a document has an inclusion left only where a tag had one or where a file was put in without
being expanded. -/

namespace Manuscript

/-- A command that asks for a file. -/
def Declaration.isInclusion (declaration : Option Declaration) : Bool :=
  declaration.any (·.name == Builtin.includeIdent)

mutual

/-- Whether there is an inclusion at some depth. Arguments of tags are looked into if `inTags` says so. -/
def Node.unexpanded (inTags : Bool) : Node → Bool
  | .command ⟨_, _, args, declaration, _⟩ => Declaration.isInclusion declaration || unexpanded inTags args
  | .bracket ⟨_, _, _, children⟩ => unexpanded inTags children
  | .quotation _ _ children => unexpanded inTags children
  | .fragment children => unexpanded inTags children
  | .tag ⟨_, _, _, args, _⟩ => inTags && blocksUnexpanded inTags args
  | _ => false
termination_by structural node => node

def unexpanded (inTags : Bool) : List Node → Bool
  | [] => false
  | node :: rest => node.unexpanded inTags || unexpanded inTags rest
termination_by structural nodes => nodes

def blocksUnexpanded (inTags : Bool) : List (Block Node) → Bool
  | [] => false
  | ⟨_, _, _, children⟩ :: rest => unexpanded inTags children || blocksUnexpanded inTags rest
termination_by structural blocks => blocks

end

mutual

/-- Whether a tag that expansion comes by has an inclusion in its arguments. -/
def Node.tagged : Node → Bool
  | .command ⟨_, _, args, declaration, _⟩ => !Declaration.isInclusion declaration && tagged args
  | .bracket ⟨_, _, _, children⟩ => tagged children
  | .quotation _ _ children => tagged children
  | .fragment children => tagged children
  | .tag ⟨_, _, _, args, _⟩ => blocksUnexpanded true args
  | _ => false
termination_by structural node => node

def tagged : List Node → Bool
  | [] => false
  | node :: rest => node.tagged || tagged rest
termination_by structural nodes => nodes

end

theorem unexpanded_append (inTags : Bool) (nodes others : List Node) :
    unexpanded inTags (nodes ++ others) = (unexpanded inTags nodes || unexpanded inTags others) := by
  induction nodes with
  | nil => rfl
  | cons node nodes ih => simp only [List.cons_append, unexpanded, ih, Bool.or_assoc]

theorem unexpanded_drawings (inTags : Bool) (drawings : List Drawing) :
    unexpanded inTags (drawings.map .drawing) = false := by
  induction drawings with
  | nil => rfl
  | cons drawing drawings ih => simp only [List.map_cons, unexpanded, Node.unexpanded, ih, Bool.or_self]

namespace Outline

theorem shifted_isInclusion {adjustment : Adjustment} {declaration heading : Declaration}
    (found : shifted adjustment declaration = some heading) : Declaration.isInclusion (some heading) = false := by
  unfold shifted at found
  split at found
  · cases found
  · have named := List.find?_some found
    rw [beq_iff_eq] at named
    -- the names of headings and of inclusions differ in their second character
    have start : heading.name.toList[1]? = some 'h' := by rw [named, String.toList_append]; rfl
    simp only [Declaration.isInclusion, Option.any_some, beq_eq_false_iff_ne]
    intro same
    rw [same] at start
    revert start
    decide

mutual

theorem adjustNode_unexpanded {inTags : Bool} (adjustment : Adjustment) (node : Node)
    (bare : node.unexpanded inTags = false) : (adjustNode adjustment node).unexpanded inTags = false := by
  match node with
  | .command ⟨ident, attributes, args, declaration, rules⟩ =>
    simp only [Node.unexpanded, Bool.or_eq_false_iff] at bare
    have inside := adjust_unexpanded adjustment args bare.2
    unfold adjustNode
    split
    next heading =>
      split
      · unfold adjustHeading
        dsimp only
        split
        next found => simp only [Node.unexpanded, shifted_isInclusion found, bare.2, Bool.or_self]
        next => simp only [Node.unexpanded, bare, Bool.or_self]
      · simp only [Node.unexpanded, bare.1, inside, Bool.or_self]
    next => simp only [Node.unexpanded, bare.1, inside, Bool.or_self]
  | .bracket ⟨kind, opening, closing, children⟩ => exact adjust_unexpanded adjustment children bare
  | .quotation opening closing children => exact adjust_unexpanded adjustment children bare
  | .fragment children => exact adjust_unexpanded adjustment children bare
  | .hole | .text _ _ | .symbol _ _ | .ident _ | .stray _ | .drawing _ | .tag _ => exact bare
termination_by structural node

theorem adjust_unexpanded {inTags : Bool} (adjustment : Adjustment) (nodes : List Node)
    (bare : unexpanded inTags nodes = false) : unexpanded inTags (adjust adjustment nodes) = false := by
  match nodes with
  | [] => rfl
  | node :: rest =>
    simp only [unexpanded, adjust, Bool.or_eq_false_iff] at bare ⊢
    exact ⟨adjustNode_unexpanded adjustment node bare.1, adjust_unexpanded adjustment rest bare.2⟩
termination_by structural nodes

end

mutual

theorem collectNode_unexpanded {inTags : Bool} (node : Node) (bare : node.unexpanded inTags = false) :
    unexpanded inTags ((collectNode node).map .command) = false := by
  match node with
  | .command ⟨ident, attributes, args, declaration, rules⟩ =>
    unfold collectNode
    split
    · simp only [List.map_cons, List.map_nil, unexpanded, bare, Bool.or_self]
    · simp only [Node.unexpanded, Bool.or_eq_false_iff] at bare
      exact collect_unexpanded args bare.2
  | .bracket ⟨kind, opening, closing, children⟩ => exact collect_unexpanded children bare
  | .quotation opening closing children => exact collect_unexpanded children bare
  | .fragment children => exact collect_unexpanded children bare
  | .hole | .text _ _ | .symbol _ _ | .ident _ | .stray _ | .drawing _ | .tag _ => rfl
termination_by structural node

theorem collect_unexpanded {inTags : Bool} (nodes : List Node) (bare : unexpanded inTags nodes = false) :
    unexpanded inTags ((collect nodes).map .command) = false := by
  match nodes with
  | [] => rfl
  | node :: rest =>
    simp only [unexpanded, collect, List.map_append, unexpanded_append, Bool.or_eq_false_iff] at bare ⊢
    exact ⟨collectNode_unexpanded node bare.1, collect_unexpanded rest bare.2⟩
termination_by structural nodes

end

end Outline

namespace Formula

mutual

theorem extractNode_unexpanded {inTags : Bool} (keep inHeading : Bool) (node : Node)
    (bare : node.unexpanded inTags = false) (sheet : FormulaSheet) :
    ((extractNode keep inHeading node).run sheet).1.unexpanded inTags = false := by
  match node with
  | .command ⟨ident, attributes, args, declaration, rules⟩ =>
    simp only [Node.unexpanded, Bool.or_eq_false_iff] at bare
    unfold extractNode
    split
    · split
      · rfl
      · rfl
    · have inside := extractNodes_unexpanded
        (keep && !(isHeading declaration && Attributes.has (attributes.getD []) "toc-only"))
        (inHeading || isHeading declaration) args bare.2 sheet
      exact Bool.or_eq_false_iff.mpr ⟨bare.1, inside⟩
  | .bracket ⟨kind, opening, closing, children⟩ => exact extractNodes_unexpanded keep inHeading children bare sheet
  | .quotation opening closing children => exact extractNodes_unexpanded keep inHeading children bare sheet
  | .fragment children => exact extractNodes_unexpanded keep inHeading children bare sheet
  | .tag ⟨ident, options, attributes, args, rules⟩ =>
    simp only [Node.unexpanded, Bool.and_eq_false_iff] at bare
    apply Bool.and_eq_false_iff.mpr
    exact bare.imp_right fun inside => extractBlocks_unexpanded keep inHeading args inside sheet
  | .hole | .text _ _ | .symbol _ _ | .ident _ | .stray _ | .drawing _ => rfl
termination_by structural node

theorem extractNodes_unexpanded {inTags : Bool} (keep inHeading : Bool) (nodes : List Node)
    (bare : unexpanded inTags nodes = false) (sheet : FormulaSheet) :
    unexpanded inTags ((extractNodes keep inHeading nodes).run sheet).1 = false := by
  match nodes with
  | [] => rfl
  | node :: rest =>
    simp only [unexpanded, Bool.or_eq_false_iff] at bare
    have first := extractNode_unexpanded keep inHeading node bare.1 sheet
    have second := extractNodes_unexpanded keep inHeading rest bare.2 ((extractNode keep inHeading node).run sheet).2
    exact Bool.or_eq_false_iff.mpr ⟨first, second⟩
termination_by structural nodes

theorem extractBlocks_unexpanded {inTags : Bool} (keep inHeading : Bool) (blocks : List (Block Node))
    (bare : blocksUnexpanded inTags blocks = false) (sheet : FormulaSheet) :
    blocksUnexpanded inTags ((extractBlocks keep inHeading blocks).run sheet).1 = false := by
  match blocks with
  | [] => rfl
  | ⟨kind, opening, closing, children⟩ :: rest =>
    simp only [blocksUnexpanded, Bool.or_eq_false_iff] at bare
    have first := extractNodes_unexpanded keep inHeading children bare.1 sheet
    have second := extractBlocks_unexpanded keep inHeading rest bare.2
      ((extractNodes keep inHeading children).run sheet).2
    exact Bool.or_eq_false_iff.mpr ⟨first, second⟩
termination_by structural blocks

end

end Formula

namespace Compiler

open Compile

section Expansion

variable {invariant : Session → Prop} {inTags : Bool} {inclusion : Command Node → Expand (List Node)}

mutual

theorem keeps_expanded_node (node : Node)
    (each : ∀ command ∈ inclusions node, ∀ sheet,
      Keeps invariant (fun result => unexpanded inTags result.1 = false) ((inclusion command).run sheet))
    (untagged : inTags = true → node.tagged = false) (sheet : FormulaSheet) :
    Keeps invariant (fun result => result.1.unexpanded inTags = false) ((expandNode inclusion node).run sheet) := by
  match node with
  | .command ⟨ident, attributes, args, declaration, rules⟩ =>
    simp only [inclusions, expandNode, Node.tagged] at each untagged ⊢
    split
    next included =>
      rw [if_pos included, List.forall_mem_singleton] at each
      rw [StateT.run_bind]
      exact (each sheet).bind fun _ bare => keeps_pure bare
    next other =>
      rw [if_neg other] at each
      have plain : Declaration.isInclusion declaration = false := Bool.eq_false_iff.mpr other
      rw [plain] at untagged
      rw [StateT.run_bind]
      exact (keeps_expanded args each untagged sheet).bind fun _ bare =>
        keeps_pure (Bool.or_eq_false_iff.mpr ⟨plain, bare⟩)
  | .bracket ⟨kind, opening, closing, children⟩ =>
    simp only [inclusions, expandNode, StateT.run_bind] at each ⊢
    exact (keeps_expanded children each untagged sheet).bind fun _ bare => keeps_pure bare
  | .quotation opening closing children =>
    simp only [inclusions, expandNode, StateT.run_bind] at each ⊢
    exact (keeps_expanded children each untagged sheet).bind fun _ bare => keeps_pure bare
  | .fragment children =>
    simp only [inclusions, expandNode, StateT.run_bind] at each ⊢
    exact (keeps_expanded children each untagged sheet).bind fun _ bare => keeps_pure bare
  | .tag ⟨ident, options, attributes, args, rules⟩ =>
    apply keeps_pure
    cases inTags with
    | false => rfl
    | true => exact untagged rfl
  | .hole | .text _ _ | .symbol _ _ | .ident _ | .stray _ | .drawing _ => exact keeps_pure rfl
termination_by structural node

/-- Expansion leaves an inclusion only where one of the contents it puts in has one, or a tag. -/
theorem keeps_expanded (nodes : List Node)
    (each : ∀ command ∈ inclusionsOf nodes, ∀ sheet,
      Keeps invariant (fun result => unexpanded inTags result.1 = false) ((inclusion command).run sheet))
    (untagged : inTags = true → tagged nodes = false) (sheet : FormulaSheet) :
    Keeps invariant (fun result => unexpanded inTags result.1 = false) ((expandNodes inclusion nodes).run sheet) := by
  match nodes with
  | [] => exact keeps_pure rfl
  | node :: rest =>
    simp only [inclusionsOf, tagged, expandNodes, List.forall_mem_append, Bool.or_eq_false_iff, StateT.run_bind]
      at each untagged ⊢
    refine (keeps_expanded_node node each.1 (fun deep => (untagged deep).1) sheet).bind ?_
    intro first bare
    refine (keeps_expanded rest each.2 (fun deep => (untagged deep).2) first.2).bind ?_
    intro second others
    exact keeps_pure (Bool.or_eq_false_iff.mpr ⟨bare, others⟩)
termination_by structural nodes

end

end Expansion

theorem conclude_unexpanded {inTags : Bool} (adjustment : Outline.Adjustment) (extract : Bool) (sheet : FormulaSheet)
    {expanded : List Node × FormulaSheet} (bare : unexpanded inTags expanded.1 = false) :
    unexpanded inTags (conclude adjustment extract sheet expanded).1 = false := by
  have adjusted := Outline.adjust_unexpanded adjustment expanded.1 bare
  unfold conclude
  dsimp only
  split
  · exact Outline.collect_unexpanded _ adjusted
  · split
    · exact Formula.extractNodes_unexpanded true false _ adjusted expanded.2
    · exact adjusted

/-- What stands in the place of a file that is put in without being expanded. -/
inductive Spliced (compiler : Compiler) (path : String) (content : List Node) :
    List (Rule Node) → List Node → Prop where
  | plain : Spliced compiler path content [] content
  | filled {rules : List (Rule Node)} {depth : Nat} {left : List Node} {events : List ResolveEvent} (given : rules ≠ [])
      (resolved : resolve compiler.registry depth (.top path) (content.flatMap fun drawing =>
        rules.flatMap fun rule => substitute [⟨rule.pattern, [drawing]⟩] rule.target) = some (left, events)) :
      Spliced compiler path content rules left

theorem keeps_spliced (compiler : Compiler) (limit : Nat) (path : String) (content : List Node)
    (rules : List (Rule Node)) :
    Keeps compiler.Faithful (compiler.Spliced path content rules)
      ((compiler.within limit).splice path content rules) := by
  unfold splice
  split
  next none =>
    rw [List.isEmpty_iff.mp none]
    exact keeps_pure .plain
  next some =>
    refine (keeps_resolveTop compiler limit path _).mono ?_
    rintro left ⟨depth, events, resolved⟩
    exact .filled (fun none => some (List.isEmpty_iff.mpr none)) resolved

/-- Nothing that a page is put together from has an inclusion that is not expanded: tags do not, if `inTags` says that
they count, and neither does what stands in the place of a file that does not end in `sourceExt`. -/
structure Expandable (compiler : Compiler) (page : String) (inTags : Bool) : Prop where
  untagged : inTags = true → ∀ chain path nodes, compiler.Chain page chain path → compiler.Loads path nodes →
    tagged nodes = false
  spliced : ∀ chain path nodes command content left, compiler.Chain page chain path → compiler.Loads path nodes →
    command ∈ inclusionsOf nodes → Path.ext (target path command) ≠ sourceExt →
    compiler.Loads (target path command) content → compiler.Spliced path content command.rules left →
    unexpanded inTags left = false

theorem keeps_includeFile_expanded {compiler : Compiler} {page : String} {inTags : Bool}
    (expandable : compiler.Expandable page inTags) (limit depth : Nat) {chain : List String} {path : String}
    {nodes : List Node} (chained : compiler.Chain page chain path) (loads : compiler.Loads path nodes)
    {command : Command Node} (member : command ∈ inclusionsOf nodes) (extract : Bool) (sheet : FormulaSheet) :
    Keeps compiler.Faithful (fun result => unexpanded inTags result.1 = false)
      (((compiler.within limit).includeFile depth path chain extract command).run sheet) := by
  induction depth generalizing chain path nodes command extract sheet with
  | zero => exact keeps_throw _
  | succ depth ih =>
    rw [includeFile_run]
    split
    · exact keeps_throw _
    next other =>
      have fresh : target path command ∉ chain := by simpa using other
      apply (keeps_fetch compiler limit path _).bind
      intro content loaded
      unfold place
      dsimp only
      split
      next drawing =>
        apply (keeps_spliced compiler limit path content command.rules).bind
        intro left spliced
        exact keeps_pure (expandable.spliced _ _ _ command content left chained loads member drawing loaded spliced)
      next source =>
        have longer := chained.next ⟨loads, member, rfl, not_not.mp source, loaded⟩ fresh
        have untagged (deep : inTags = true) := expandable.untagged deep _ _ content longer loaded
        refine (keeps_expanded content ?_ untagged sheet.successor).bind ?_
        · intro further inside sheet
          exact ih longer loaded inside _ sheet
        · intro result bare
          exact keeps_pure (conclude_unexpanded _ _ sheet bare)

/-- A document has no inclusion left, wherever a page is put together from what has none that is not expanded. -/
theorem expansion_complete (compiler : Compiler) {path : String} {inTags : Bool}
    (expandable : compiler.Expandable (Path.clean path) inTags) (limit : Nat) (extract : Bool) {session after : Session}
    (faithful : compiler.Faithful session) {document : Document}
    (succeeds : outcome ((compiler.within limit).compileFile path extract) session = (.ok document, after)) :
    unexpanded inTags document.nodes = false := by
  have keeps : Keeps compiler.Faithful (fun document => unexpanded inTags document.nodes = false)
      ((compiler.within limit).compileFile path extract) := by
    apply Keeps.rethrow
    apply (keeps_load compiler limit _).bind
    intro nodes loads
    have expanded := keeps_expanded nodes
      (fun command member sheet => keeps_includeFile_expanded expandable limit limit .page loads member extract sheet)
      (fun deep => expandable.untagged deep _ _ nodes .page loads) {}
    apply expanded.bind
    intro result bare
    dsimp only
    split
    · exact keeps_pure (Formula.extractNodes_unexpanded true false _ bare result.2)
    · exact keeps_pure bare
  exact (keeps session faithful).2 document (congrArg Prod.fst succeeds)

namespace Sample

def files (list : List (String × String)) : Compiler where
  tree := { system := .ofFiles (list.map fun file => (Path.join "src" file.1, Utf8.encode file.2)), base := some "src" }
  decoders := [(".svg", Decoder.svg)]

/-- A tag without inclusions, an included source and an included drawing. -/
def tidy : Compiler :=
  files [("main.ss", "\\x\x7by\x7d\\include[src=a.ss]\\include[src=d.svg]"), ("a.ss", "A"), ("d.svg", "<svg")]

/-- An inclusion in an argument of a tag that has no declaration. -/
def tagging : Compiler := files [("main.ss", "\\x\x7b\\include[src=a.ss]\x7d"), ("a.ss", "A")]

/-- An inclusion in a rule for an included drawing. -/
def template : Compiler :=
  files [("main.ss", "\\include[src=d.svg]\\where!\x7b\x7bx\x7d=>\x7b\\include[src=a.ss]\x7d\x7d"), ("a.ss", "A"),
    ("d.svg", "<svg")]

/-- What there is to expand in the content of a source. -/
def summary (path : String) (data : Bytes) : Option ((List String × Bool) × Bool) :=
  (resolve Builtin.registry 2 (.top path) (normalize (Parse.ofBytes data))).map fun result =>
    ((addresses result.1, tagged result.1), (inclusionsOf result.1).all fun command => command.rules.isEmpty)

theorem Loads.summarized {compiler : Compiler} {path : String} {data : Bytes} {list : List String} {tags : Bool}
    {nodes : List Node} (loads : compiler.Loads path nodes) (standard : compiler.registry = Builtin.registry)
    (ending : LowerCase.lowerText (Path.ext path) = sourceExt) (read : compiler.tree.read path = .ok data)
    (summed : summary path data = some ((list, tags), true)) :
    addresses nodes = list ∧ tagged nodes = tags ∧ ∀ command ∈ inclusionsOf nodes, command.rules = [] := by
  obtain ⟨⟨others, events⟩, found, same⟩ := Option.map_eq_some_iff.mp summed
  obtain rfl := loads.unique (.source ending read (standard ▸ found))
  obtain ⟨listed, bare⟩ := Prod.mk.inj same
  refine ⟨congrArg Prod.fst listed, congrArg Prod.snd listed, ?_⟩
  intro command member
  simpa using List.all_eq_true.mp bare command member

theorem tidy_page {nodes : List Node} (loads : tidy.Loads "main.ss" nodes) : tagged nodes = false ∧
    ∀ command ∈ inclusionsOf nodes,
      (target "main.ss" command = "a.ss" ∨ target "main.ss" command = "d.svg") ∧ command.rules = [] := by
  have read : tidy.tree.read "main.ss" = .ok (Utf8.encode "\\x\x7by\x7d\\include[src=a.ss]\\include[src=d.svg]") :=
    ok_of_toOption (by decide +kernel)
  have summed : summary "main.ss" (Utf8.encode "\\x\x7by\x7d\\include[src=a.ss]\\include[src=d.svg]") =
    some ((["a.ss", "d.svg"], false), true) := by decide +kernel
  obtain ⟨listed, untagged, bare⟩ := Loads.summarized loads rfl (by decide +kernel) read summed
  refine ⟨untagged, ?_⟩
  intro command member
  have written : address command ∈ ["a.ss", "d.svg"] := listed ▸ List.mem_map_of_mem member
  rw [target_eq]
  refine ⟨?_, bare command member⟩
  simp only [List.mem_cons, List.not_mem_nil, or_false] at written
  rcases written with same | same
  · exact .inl (by rw [same]; decide +kernel)
  · exact .inr (by rw [same]; decide +kernel)

theorem tidy_inner {nodes : List Node} (loads : tidy.Loads "a.ss" nodes) :
    tagged nodes = false ∧ inclusionsOf nodes = [] := by
  have read : tidy.tree.read "a.ss" = .ok (Utf8.encode "A") := ok_of_toOption (by decide +kernel)
  have summed : summary "a.ss" (Utf8.encode "A") = some (([], false), true) := by decide +kernel
  obtain ⟨listed, untagged, _⟩ := Loads.summarized loads rfl (by decide +kernel) read summed
  exact ⟨untagged, List.map_eq_nil_iff.mp listed⟩

theorem tidy_chain {chain : List String} {path : String} (chained : tidy.Chain "main.ss" chain path) :
    path = "main.ss" ∨ path = "a.ss" := by
  refine chained.holds (fun path => path = "main.ss" ∨ path = "a.ss") (.inl rfl) ?_
  rintro path nodes command (rfl | rfl) loads member ending
  · rcases ((tidy_page loads).2 _ member).1 with same | same
    · exact .inr same
    · rw [same] at ending
      exact absurd ending (by decide)
  · rw [(tidy_inner loads).2] at member
    cases member

theorem tidy_expandable : tidy.Expandable "main.ss" true := by
  constructor
  · intro _ chain path nodes chained loads
    rcases tidy_chain chained with rfl | rfl
    · exact (tidy_page loads).1
    · exact (tidy_inner loads).1
  · intro chain path nodes command content left chained loads member drawing loaded spliced
    rcases tidy_chain chained with rfl | rfl
    · obtain ⟨leads, none⟩ := (tidy_page loads).2 command member
      rw [none] at spliced
      cases spliced with
      | filled given => exact absurd rfl given
      | plain =>
        cases loaded with
        | drawing => exact unexpanded_drawings true _
        | source ending =>
          rcases leads with same | same
          · rw [same] at drawing
            exact absurd (by decide) drawing
          · rw [same] at ending
            exact absurd ending (by decide)
    · rw [(tidy_inner loads).2] at member
      cases member

theorem ok_of_document {result : Except Failure Document × Session} {inTags left : Bool}
    (found : (result.1.toOption.map fun document => unexpanded inTags document.nodes) = some left) :
    ∃ document after, result = (.ok document, after) ∧ unexpanded inTags document.nodes = left := by
  obtain ⟨document, given, same⟩ := Option.map_eq_some_iff.mp found
  exact ⟨document, result.2, Prod.ext (ok_of_toOption given) rfl, same⟩

end Sample

/-- The arguments of a tag stay, but there is nothing in them to be expanded. -/
theorem expansion_complete_tidy : Sample.tidy.Expandable "main.ss" true ∧ ∃ document after,
    outcome ((Sample.tidy.within 5).compileFile "main.ss" true) {} = (.ok document, after) ∧
      unexpanded true document.nodes = false := by
  refine ⟨Sample.tidy_expandable, ?_⟩
  have page : Path.clean "main.ss" = "main.ss" := by decide +kernel
  have succeeds : ((outcome ((Sample.tidy.within 5).compileFile "main.ss" true) {}).1.toOption.map fun document =>
    unexpanded false document.nodes) = some false := by decide +kernel
  obtain ⟨document, after, run, _⟩ := Sample.ok_of_document succeeds
  refine ⟨document, after, run, ?_⟩
  exact expansion_complete Sample.tidy (page.symm ▸ Sample.tidy_expandable) 5 true (faithful_empty _) run

/-- Inclusions that are left: in an argument of a tag, in what a rule puts around a drawing, and in a source whose
ending is in capitals. -/
theorem expansion_incomplete :
    (∃ document after, outcome (Sample.tagging.compile "main.ss") {} = (.ok document, after) ∧
      unexpanded true document.nodes = true) ∧
    (∃ document after, outcome (Sample.template.compile "main.ss") {} = (.ok document, after) ∧
      unexpanded false document.nodes = true) ∧
    ∃ document after, outcome (Sample.capital.compile "a.SS") {} = (.ok document, after) ∧
      unexpanded false document.nodes = true := by
  refine ⟨?_, ?_, ?_⟩ <;> exact Sample.ok_of_document (by decide +kernel)

end Compiler
end Manuscript
