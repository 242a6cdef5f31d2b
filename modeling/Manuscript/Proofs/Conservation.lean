import Manuscript.Proofs.LooseArguments
import Manuscript.Proofs.ResolutionSound

/-! Resolution keeps the text. Where neither an option list nor a where block is written, the blocks that an invocation
takes up are the arguments of its command, in the order in which they stood, and those that it does not take stay behind
it; all that is passed over between them is white space. -/

namespace Manuscript

open Resolve

/-- A text without its white space. -/
def Blank.compact (text : String) : List Char := text.toList.filter (!isSpace ·)

/-- What a list reads as, white space apart. -/
def letters (nodes : List Node) : List Char := Blank.compact (source nodes)

section Letters

theorem Blank.compact_append (text more : String) : compact (text ++ more) = compact text ++ compact more := by
  rw [compact, String.toList_append, List.filter_append]
  rfl

theorem letters_cons (node : Node) (rest : List Node) :
    letters (node :: rest) = Blank.compact node.source ++ letters rest := by
  rw [letters, source, Blank.compact_append]
  rfl

theorem letters_append (nodes others : List Node) : letters (nodes ++ others) = letters nodes ++ letters others := by
  rw [letters, source_append, Blank.compact_append]
  rfl

theorem letters_take_drop (count : Nat) (nodes : List Node) :
    letters (nodes.take count) ++ letters (nodes.drop count) = letters nodes := by
  rw [← letters_append, List.take_append_drop]

theorem letters_blank {nodes : List Node} (blank : ∀ node ∈ nodes, node.isBlank = true) : letters nodes = [] := by
  induction nodes with
  | nil => rfl
  | cons node nodes ih =>
    obtain ⟨first, others⟩ := List.forall_mem_cons.mp blank
    rw [letters_cons, ih others, List.append_nil]
    cases node with
    | text value span =>
      have spaces : value.toList.all Blank.isSpace = true := (Bool.and_eq_true_iff.mp first).2
      exact List.filter_eq_nil_iff.mpr fun c member => by simpa using List.all_eq_true.mp spaces c member
    | _ => cases first

end Letters

section Written

mutual

theorem Node.source_loosened (node : Node) (simple : node.Simple true) : source node.loosened = node.source := by
  match node with
  | .bracket block =>
    rw [Node.loosened, source, source, String.append_empty, Node.source, Node.source, source_loosenedBlock block simple]
  | .quotation opening closing children =>
    rw [Node.loosened, source, source, String.append_empty, Node.source, Node.source, source_loosened children simple]
  | .fragment children =>
    rw [Node.loosened, source, source, String.append_empty, Node.source, Node.source, source_loosened children simple]
  | .tag ⟨ident, options, attributes, args, rules⟩ =>
    obtain ⟨_, _, rfl, _, blocks, _⟩ := simple
    have bare : ident.name ++ optionsSource none = ident.name := String.append_empty
    rw [Node.loosened, source, source_loosenedBlocks args blocks, Node.source, Node.source, bare]
  | .command ⟨ident, attributes, args, declaration, rules⟩ =>
    rw [Node.loosened, source, source, String.append_empty, Node.source, Node.source, source_loosened args simple]
  | .hole | .text _ _ | .symbol _ _ | .ident _ | .stray _ | .drawing _ => exact String.append_empty
termination_by structural node

/-- A tag is written as its identifier with its arguments behind it. -/
theorem source_loosened (nodes : List Node) (simple : Simple true nodes) : source (loosened nodes) = source nodes := by
  match nodes with
  | [] => rfl
  | node :: rest =>
    rw [loosened, source_append, Node.source_loosened node simple.1, source_loosened rest simple.2, source]
termination_by structural nodes

theorem source_loosenedBlock (block : Block Node) (simple : BlockSimple true block) :
    blockSource (loosenedBlock block) = blockSource block := by
  match block with
  | ⟨kind, opening, closing, children⟩ =>
    rw [loosenedBlock, blockSource, blockSource, source_loosened children simple.2]
termination_by structural block

theorem source_loosenedBlocks (blocks : List (Block Node)) (simple : BlocksSimple true blocks) :
    source (loosenedBlocks blocks) = blocksSource blocks := by
  match blocks with
  | [] => rfl
  | block :: rest =>
    rw [loosenedBlocks, source, Node.source, source_loosenedBlock block simple.1,
      source_loosenedBlocks rest simple.2, blocksSource]
termination_by structural blocks

end

end Written

section Scan

theorem leadingBlanks_letters (nodes : List Node) :
    letters (nodes.drop (Node.leadingBlanks nodes)) = letters nodes := by
  have blank : letters (nodes.take (Node.leadingBlanks nodes)) = [] := by
    refine letters_blank fun node member => ?_
    rw [Node.leadingBlanks, ← List.prefix_iff_eq_take.mp (List.takeWhile_prefix _)] at member
    exact List.mem_takeWhile_imp member
  rw [← letters_take_drop (Node.leadingBlanks nodes) nodes, blank, List.nil_append]

/-- An exact argument list passes over white space alone. -/
theorem captureExact_letters {kinds : List BracketKind} {nodes : List Node} {blocks : List (Block Node)} {used : Nat}
    (found : ArgumentList.captureExact kinds nodes = some (blocks, used)) :
    letters (blocks.map .bracket) ++ letters (nodes.drop used) = letters nodes := by
  induction kinds generalizing nodes blocks used with
  | nil =>
    cases found
    rfl
  | cons kind kinds ih =>
    simp only [ArgumentList.captureExact, Option.bind_eq_bind, Option.bind_eq_some_iff] at found
    obtain ⟨block, first, ⟨others, count⟩, further, result⟩ := found
    cases result
    obtain ⟨rest, split⟩ := Node.leadingBlock_eq first
    have after : nodes.drop (Node.leadingBlanks nodes + 1) = rest := by
      rw [← List.drop_drop, split, List.drop_one, List.tail_cons]
    rw [after] at further
    calc letters ((block :: others).map .bracket) ++ letters (nodes.drop (Node.leadingBlanks nodes + 1 + count))
        = Blank.compact (Node.bracket block).source ++
            (letters (others.map .bracket) ++ letters (rest.drop count)) := by
          rw [List.map_cons, letters_cons, List.append_assoc, ← List.drop_drop, after]
      _ = letters (.bracket block :: rest) := by rw [ih further, letters_cons]
      _ = letters nodes := by rw [← split, leadingBlanks_letters]

theorem capture_letters {arguments : ArgumentList} {nodes : List Node} {blocks : List (Block Node)} {taken : Nat}
    (found : arguments.capture nodes = some (blocks, taken)) :
    letters (blocks.map .bracket) ++ letters (nodes.drop taken) = letters nodes := by
  unfold ArgumentList.capture at found
  split at found
  · cases found
    rfl
  · cases found
    rw [← Node.leadingCurly_take, letters_take_drop]
  · exact captureExact_letters found
  · cases found

theorem head_letters {node : Node} {head : Head} (heads : head? node = some head) (simple : node.Simple true) :
    Blank.compact node.source = Blank.compact head.ident.name ++ letters (head.attached.map .bracket) := by
  cases node with
  | ident ident =>
    cases heads
    exact (List.append_nil _).symm
  | tag tag =>
    obtain ⟨ident, options, attributes, args, rules⟩ := tag
    cases heads
    obtain ⟨_, _, rfl, rfl, _, rfl⟩ := simple
    rw [Node.source, optionsSource, String.append_empty, Blank.compact_append, blocksSource_eq]
    rfl
  | _ => cases heads

/-- What an invocation leaves, with what it does not take up, reads as what was there. -/
theorem produce_letters {declaration : Declaration} {head : Head} {rest : List Node} {scope : Scope}
    {arguments : ArgumentList} {production : Production} (plain : Head.Simple head) (simple : Simple true rest)
    (command : arguments.converter = .command)
    (found : produce declaration head (offer declaration head rest) rest scope arguments = some production) :
    letters production.nodes ++ letters (rest.drop production.used) =
      Blank.compact head.ident.name ++ (letters (head.attached.map .bracket) ++ letters rest) := by
  have unruled : ∀ count, Rule.leadingWhere (rest.drop count) = none :=
    fun count => (simple.sublist (List.drop_sublist ..)).no_where
  rw [offer_simple declaration plain.options plain.attributes simple] at found
  simp only [produce, Option.bind_eq_bind, Option.bind_eq_some_iff, List.drop_zero, unruled, ite_self,
    Option.getD_none, plain.rules, List.append_nil, List.isEmpty_nil, if_true, Nat.zero_add, Nat.add_zero,
    command, convert] at found
  obtain ⟨⟨args, taken⟩, captured, result⟩ := found
  cases result
  have kept := capture_letters captured
  rw [List.drop_append, List.length_map, ← List.map_drop, letters_append, letters_append] at kept
  rw [letters_cons, ← kept, Node.source, Blank.compact_append]
  simp only [List.append_assoc]
  rfl

variable {registry : Registry}

/-- A scan leaves what it finds, white space apart. -/
theorem scan_letters (plain : registry.Plain) (scope : Scope) (skip : Nat) {nodes : List Node}
    (simple : Simple true nodes) :
    letters (scanFrom registry scope skip nodes).1 = letters (nodes.drop skip) := by
  fun_induction scanFrom registry scope skip nodes with
  | case1 => rw [List.drop_nil]
  | case2 skip node rest ih => exact ih simple.2
  | case3 node rest _ scanned events same ih =>
    have further := ih simple.2
    rw [same] at further
    rw [letters_cons, further, List.drop_zero, List.drop_zero, letters_cons]
  | case4 node rest head named production found scanned events same ih =>
    have further := ih simple.2
    rw [same] at further
    obtain ⟨choice, first, produced⟩ := invoke_eq_some found
    rw [letters_append, further,
      produce_letters (head_simple named simple.1).1 simple.2 (plain.converter first.member) produced, List.drop_zero,
      letters_cons, head_letters named simple.1, List.append_assoc]
  | case5 node rest head named _ scanned events same ih =>
    have further := ih simple.2
    rw [same] at further
    rw [letters_cons, further, List.drop_zero, List.drop_zero, letters_cons]

end Scan

section Resolution

variable {registry : Registry}

/-- A resolver that leaves what it finds, white space apart. -/
def Conserves (inner : Scope → List Node → Option (List Node × List ResolveEvent)) : Prop :=
  ∀ scope nodes result events, Simple true nodes → inner scope nodes = some (result, events) →
    letters result = letters nodes

variable {inner : Scope → List Node → Option (List Node × List ResolveEvent)}

theorem blocks_letters (conserves : Conserves inner) {scope : Scope} {blocks others : List (Block Node)}
    (simple : ∀ block ∈ blocks, BlockSimple true block)
    (each : List.Forall₂ (fun block other => ∃ events, (inner scope block.children).map (fun (children, events) =>
      ({ block with children }, events)) = some (other, events)) blocks others) :
    letters (others.map .bracket) = letters (blocks.map .bracket) := by
  induction each with
  | nil => rfl
  | @cons block other blocks others entered _ ih =>
    obtain ⟨first, rest⟩ := List.forall_mem_cons.mp simple
    obtain ⟨events, entered⟩ := entered
    obtain ⟨⟨children, more⟩, resolved, same⟩ := Option.map_eq_some_iff.mp entered
    cases same
    have inside := conserves _ _ _ _ (blockSimple_iff.mp first).2 resolved
    obtain ⟨kind, opening, closing, within⟩ := block
    rw [List.map_cons, letters_cons, List.map_cons, letters_cons, ih rest]
    simp only [Node.source, blockSource, Blank.compact_append, letters] at inside ⊢
    rw [inside]

theorem descend_letters (conserves : Conserves inner) {scope : Scope} {node made : Node} {events : List ResolveEvent}
    (simple : node.Simple true) (found : descend inner scope node = some (made, events)) :
    Blank.compact made.source = Blank.compact node.source := by
  cases node with
  | command command =>
    obtain ⟨ident, attributes, args, declaration, rules⟩ := command
    simp only [descend, Option.bind_eq_bind, Option.bind_eq_some_iff] at found
    obtain ⟨⟨nodes, _⟩, resolved, result⟩ := found
    cases result
    have inside := conserves _ _ _ _ simple resolved
    simp only [Node.source, Blank.compact_append, letters] at inside ⊢
    rw [inside]
  | bracket block =>
    obtain ⟨kind, opening, closing, children⟩ := block
    simp only [descend, Option.bind_eq_bind, Option.bind_eq_some_iff] at found
    obtain ⟨⟨nodes, _⟩, resolved, result⟩ := found
    cases result
    have inside := conserves _ _ _ _ (blockSimple_iff.mp simple).2 resolved
    simp only [Node.source, blockSource, Blank.compact_append, letters] at inside ⊢
    rw [inside]
  | quotation opening closing children =>
    simp only [descend, Option.bind_eq_bind, Option.bind_eq_some_iff] at found
    obtain ⟨⟨nodes, _⟩, resolved, result⟩ := found
    cases result
    have inside := conserves _ _ _ _ simple resolved
    simp only [Node.source, Blank.compact_append, letters] at inside ⊢
    rw [inside]
  | fragment children =>
    simp only [descend, Option.bind_eq_bind, Option.bind_eq_some_iff] at found
    obtain ⟨⟨nodes, _⟩, resolved, result⟩ := found
    cases result
    exact conserves _ _ _ _ simple resolved
  | tag tag =>
    obtain ⟨ident, options, attributes, args, rules⟩ := tag
    simp only [descend, Option.bind_eq_bind, Option.bind_eq_some_iff] at found
    obtain ⟨⟨others, _⟩, gathered, result⟩ := found
    cases result
    obtain ⟨_, _, _, _, blocks, _⟩ := simple
    have inside := blocks_letters conserves (blocksSimple_iff.mp blocks) (gather_forall₂ gathered)
    simp only [Node.source, Blank.compact_append, blocksSource_eq, letters] at inside ⊢
    rw [inside]
  | hole | text | symbol | ident | stray | drawing =>
    cases found
    rfl

theorem resolve_letters (plain : registry.Plain) (depth : Nat) : Conserves (resolve registry depth) := by
  induction depth with
  | zero =>
    intro scope nodes result events _ found
    cases found
  | succ depth ih =>
    intro scope nodes result events simple found
    obtain ⟨less, same, each⟩ := resolve_each found
    obtain rfl := Nat.succ.inj same
    rw [← nodes.drop_zero, ← scan_letters plain scope 0 simple]
    have kept := (scan_loosened registry scope 0 simple).2
    clear found
    generalize (scanFrom registry scope 0 nodes).1 = scanned at kept each ⊢
    induction each with
    | nil => rfl
    | cons descended _ rest =>
      obtain ⟨_, descended⟩ := descended
      rw [letters_cons, letters_cons, descend_letters ih kept.1 descended, rest kept.2]

end Resolution

/-- Where neither an option list nor a where block is written, and every invocation is left as a command, a source
resolves to what reads as the source does, white space apart. -/
theorem resolution_conserves (registry : Registry) (plain : registry.Plain) (scope : Scope) (source : Bytes)
    (unsquared : '[' ∉ (Utf8.decode source).map Glyph.char)
    (whereless : ¬Rule.whereIdent.toList <:+: (Utf8.decode source).map Glyph.char) :
    ∃ bound nodes events,
      (∀ depth, bound ≤ depth →
        resolve registry depth scope (normalize (Parse.ofBytes source)) = some (nodes, events)) ∧
      (Manuscript.source nodes).toList.filter (!Blank.isSpace ·) =
        ((Utf8.decode source).map Glyph.char).filter (!Blank.isSpace ·) := by
  have parsed := ofBytes_simple unsquared whereless
  obtain ⟨same, simple⟩ := loosened_normalize parsed
  have fits : unnested (normalize (Parse.ofBytes source)) = true := unnested_of_calm _ (unranked_of_simple _ simple)
  obtain ⟨bound, ⟨nodes, events⟩, found⟩ : Ends registry scope (normalize (Parse.ofBytes source)) :=
    (ends_iff_acc ..).mpr (descent_acc registry (scope, _) fits)
  refine ⟨bound, nodes, events, found, ?_⟩
  calc letters nodes
      = letters (normalize (Parse.ofBytes source)) := resolve_letters plain bound _ _ _ _ simple (found bound le_rfl)
    _ = letters (Parse.ofBytes source) := by rw [letters, ← source_loosened _ simple, same, letters]
    _ = ((Utf8.decode source).map Glyph.char).filter (!Blank.isSpace ·) := by
      rw [letters, Blank.compact, source_ofBytes]

namespace Sample

/-- Blocks behind blanks that are taken, blocks that are attached and are not, and a name without a declaration. -/
def spread : String :=
  "\\b " ++ curly ("x\\nope" ++ curly "y" ++ " ") ++ curly "z" ++ "\\i" ++ curly ("\\u " ++ curly "v") ++ " )"

end Sample

theorem resolution_conserves_spread : Builtin.registry.Plain ∧
    '[' ∉ (Utf8.decode (Utf8.encode Sample.spread)).map Glyph.char ∧
    ¬Rule.whereIdent.toList <:+: (Utf8.decode (Utf8.encode Sample.spread)).map Glyph.char ∧
    ∃ bound nodes events,
      (∀ depth, bound ≤ depth →
        resolve Builtin.registry depth (.top "doc.ss") (normalize (Parse.ofString Sample.spread)) =
          some (nodes, events)) ∧
      (source nodes).toList.filter (!Blank.isSpace ·) =
        ((Utf8.decode (Utf8.encode Sample.spread)).map Glyph.char).filter (!Blank.isSpace ·) := by
  have plain : Builtin.registry.Plain := by
    unfold Registry.Plain
    decide +kernel
  have unsquared : '[' ∉ (Utf8.decode (Utf8.encode Sample.spread)).map Glyph.char := by
    rw [Utf8.decode_encode]
    decide +kernel
  have whereless : ¬Rule.whereIdent.toList <:+: (Utf8.decode (Utf8.encode Sample.spread)).map Glyph.char := by
    rw [Utf8.decode_encode]
    decide +kernel
  exact ⟨plain, unsquared, whereless,
    resolution_conserves Builtin.registry plain (.top "doc.ss") _ unsquared whereless⟩

end Manuscript
