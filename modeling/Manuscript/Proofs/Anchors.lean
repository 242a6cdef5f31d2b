import Manuscript.Proofs.Placeholders

/-! Anchors of headings. Headings get their anchors in the order in which they are met, each the first that is free. One
that is met after more headings gets the same anchor as after fewer of them, unless this anchor is taken. -/

namespace Manuscript

namespace Contents

theorem candidate_injective {base : String} {number other : Nat} (same : candidate base number = candidate base other) :
    number = other := by
  have longer (number : Nat) : base ≠ base ++ toString (number + 1) := by
    intro equal
    have bare : toString (number + 1) = "" := String.append_eq_left_iff.mp equal.symm
    exact absurd (congrArg String.toList bare) (by simp [Nat.toDigits_ne_nil])
  cases number with
  | zero =>
    cases other with
    | zero => rfl
    | succ other => exact (longer other same).elim
  | succ number =>
    cases other with
    | zero => exact (longer number same.symm).elim
    | succ other =>
      have written := congrArg String.toList ((String.append_right_inj base).mp same)
      rw [Nat.toString_eq_repr, Nat.toString_eq_repr, Nat.toList_repr, Nat.toList_repr] at written
      have read := congrArg (Nat.ofDigitChars 10 · 0) written
      rwa [Nat.ofDigitChars_ten_toDigits, Nat.ofDigitChars_ten_toDigits] at read

/-- The first free candidate is found among as many as there are anchors in use, and one more. -/
theorem candidate_le {used : List String} {base : String} {number : Nat}
    (taken : ∀ less < number, candidate base less ∈ used) : number ≤ used.length := by
  have within : (List.range number).map (candidate base) ⊆ used := by
    intro anchor member
    obtain ⟨less, below, rfl⟩ := List.mem_map.mp member
    exact taken less (List.mem_range.mp below)
  have distinct : ((List.range number).map (candidate base)).Nodup :=
    List.nodup_range.map fun _ _ same => candidate_injective same
  simpa using (distinct.subperm within).length_le

/-- The anchor is the first candidate that is not in use. -/
theorem freeAnchor_first (used : List String) (base : String) :
    ∃ number, freeAnchor used base = candidate base number ∧ candidate base number ∉ used ∧
      ∀ less < number, candidate base less ∈ used := by
  unfold freeAnchor
  rw [List.find?_map]
  cases found : (List.range (used.length + 1)).find? ((!used.contains ·) ∘ candidate base) with
  | some number =>
    obtain ⟨free, _, taken⟩ := List.find?_range_eq_some.mp found
    refine ⟨number, rfl, by simpa using free, fun less below => by simpa using taken less below⟩
  | none =>
    have taken : ∀ less < used.length + 1, candidate base less ∈ used := by
      intro less below
      simpa using List.find?_eq_none.mp found less (List.mem_range.mpr below)
    exact absurd (candidate_le taken) (Nat.not_succ_le_self _)

theorem freeAnchor_not_mem (used : List String) (base : String) : freeAnchor used base ∉ used := by
  obtain ⟨number, same, free, _⟩ := freeAnchor_first used base
  rwa [same]

/-- With more anchors in use, a heading gets the same one exactly if this one is free still. -/
theorem freeAnchor_eq_iff {used more : List String} (fewer : used ⊆ more) (base : String) :
    freeAnchor more base = freeAnchor used base ↔ freeAnchor used base ∉ more := by
  constructor
  · intro same
    rw [← same]
    exact freeAnchor_not_mem more base
  · intro still
    obtain ⟨number, same, _, below⟩ := freeAnchor_first used base
    obtain ⟨other, equal, free, taken⟩ := freeAnchor_first more base
    rw [same] at still
    rcases Nat.lt_trichotomy number other with less | rfl | greater
    · exact (still (taken number less)).elim
    · rw [same, equal]
    · exact (free (fewer (below other greater))).elim

/-- The anchors that headings with these titles get one after the other. -/
def anchorsFrom (used : List String) : List String → List String
  | [] => []
  | title :: rest =>
    freeAnchor used (anchorBase title) :: anchorsFrom (used ++ [freeAnchor used (anchorBase title)]) rest

attribute [local simp] anchorsFrom

theorem anchorsFrom_length (used titles : List String) : (anchorsFrom used titles).length = titles.length := by
  induction titles generalizing used with
  | nil => rfl
  | cons title titles ih => exact congrArg (· + 1) (ih _)

theorem anchorsFrom_append (used titles others : List String) : anchorsFrom used (titles ++ others) =
    anchorsFrom used titles ++ anchorsFrom (used ++ anchorsFrom used titles) others := by
  induction titles generalizing used with
  | nil => rw [anchorsFrom, List.append_nil, List.nil_append, List.nil_append]
  | cons title titles ih => simp only [List.cons_append, anchorsFrom, ih, List.append_assoc, List.nil_append]

theorem anchorsFrom_take (used titles : List String) (count : Nat) :
    (anchorsFrom used titles).take count = anchorsFrom used (titles.take count) := by
  induction titles generalizing used count with
  | nil => rw [anchorsFrom, List.take_nil, anchorsFrom]
  | cons title titles ih =>
    cases count with
    | zero => rfl
    | succ count => rw [anchorsFrom, List.take_succ_cons, List.take_succ_cons, ih, anchorsFrom]

theorem anchorsFrom_getElem? (used : List String) {titles : List String} {place : Nat} {title : String}
    (found : titles[place]? = some title) : (anchorsFrom used titles)[place]? =
      some (freeAnchor (used ++ anchorsFrom used (titles.take place)) (anchorBase title)) := by
  induction titles generalizing used place with
  | nil => cases found
  | cons first titles ih =>
    cases place with
    | zero =>
      obtain rfl := Option.some.inj found
      rw [List.take_zero, anchorsFrom, anchorsFrom, List.append_nil]
      rfl
    | succ place =>
      rw [List.getElem?_cons_succ] at found
      rw [List.take_succ_cons, anchorsFrom, anchorsFrom, List.getElem?_cons_succ, ih _ found, List.append_assoc]
      rfl

/-- Where more anchors are in use at first, more are in use later. -/
theorem anchorsFrom_mono {used more : List String} (fewer : used ⊆ more) (titles : List String) :
    used ++ anchorsFrom used titles ⊆ more ++ anchorsFrom more titles := by
  induction titles generalizing used more with
  | nil =>
    rw [anchorsFrom, anchorsFrom, List.append_nil, List.append_nil]
    exact fewer
  | cons title titles ih =>
    have step : used ++ [freeAnchor used (anchorBase title)] ⊆ more ++ [freeAnchor more (anchorBase title)] := by
      intro anchor member
      rcases List.mem_append.mp member with old | new
      · exact List.mem_append_left _ (fewer old)
      · obtain rfl := List.mem_singleton.mp new
        by_cases taken : freeAnchor used (anchorBase title) ∈ more
        · exact List.mem_append_left _ taken
        · rw [(freeAnchor_eq_iff fewer _).mpr taken]
          exact List.mem_append_right _ (List.mem_singleton.mpr rfl)
    have later := ih step
    rw [List.append_assoc, List.append_assoc] at later
    exact later

/-- A heading that is met after the same headings as on another page, and perhaps after others, has its anchor there
exactly if this anchor is not taken by then. -/
theorem anchorsFrom_shared {titles others front : List String} {place index : Nat} {title : String}
    (found : titles[place]? = some title) (listed : others[index]? = some title)
    (before : titles.take place = front ++ others.take index) :
    ∃ anchor own, (anchorsFrom [] titles)[place]? = some anchor ∧ (anchorsFrom [] others)[index]? = some own ∧
      (anchor = own ↔ own ∉ (anchorsFrom [] titles).take place) := by
  refine ⟨_, _, anchorsFrom_getElem? [] found, anchorsFrom_getElem? [] listed, ?_⟩
  rw [anchorsFrom_take, before, List.nil_append, List.nil_append]
  apply freeAnchor_eq_iff
  rw [anchorsFrom_append, List.nil_append]
  exact anchorsFrom_mono (List.nil_subset (anchorsFrom [] front)) (others.take index)

end Contents

/-- A heading as it is met: its title, whether it is drawn, whether it is in no other heading and no unresolved tag, and
the source that it names. -/
structure Headline where
  title : String
  drawn : Bool
  exposed : Bool
  source : Option String
deriving DecidableEq

/-- The same heading inside of something, which is drawn or not. -/
def Headline.inside (shown : Bool) (heading : Headline) : Headline :=
  { heading with drawn := shown && heading.drawn, exposed := false }

theorem Headline.titles_inside (shown : Bool) (headings : List Headline) :
    (headings.map (Headline.inside shown)).map Headline.title = headings.map Headline.title :=
  List.map_map ..

mutual

/-- The headings of a page, in the order in which they are met: those inside of a heading come before it. -/
def headlinesIn : Node → List Headline
  | .command ⟨_, attributes, args, declaration, _⟩ =>
    match Declaration.lowering declaration with
    | .element | .link | .item => headlines args
    | .heading =>
      let shown := !Attributes.has (attributes.getD []) "toc-only"
      (headlines args).map (Headline.inside shown) ++
        [⟨flattenBody args, shown, true, Attributes.value? (attributes.getD []) "source"⟩]
    | .image | .formula | .slot | .nothing => []
  | .bracket block => blockHeadlines block
  | .quotation _ _ children => headlines children
  | .fragment children => headlines children
  | .tag ⟨_, options, _, args, _⟩ => (optionsHeadlines options ++ blocksHeadlines args).map (Headline.inside true)
  | _ => []
termination_by structural node => node

def headlines : List Node → List Headline
  | [] => []
  | node :: rest => headlinesIn node ++ headlines rest
termination_by structural nodes => nodes

def blockHeadlines : Block Node → List Headline
  | ⟨_, _, _, children⟩ => headlines children
termination_by structural block => block

def optionsHeadlines : Option (Block Node) → List Headline
  | none => []
  | some block => blockHeadlines block
termination_by structural options => options

def blocksHeadlines : List (Block Node) → List Headline
  | [] => []
  | block :: rest => blockHeadlines block ++ blocksHeadlines rest
termination_by structural blocks => blocks

end

theorem headlinesIn_heading {command : Command Node} (lowered : Declaration.lowering command.declaration = .heading) :
    headlinesIn (.command command) =
      (headlines command.args).map (Headline.inside (!Attributes.has (command.attributes.getD []) "toc-only")) ++
        [⟨flattenBody command.args, !Attributes.has (command.attributes.getD []) "toc-only", true,
          Attributes.value? (command.attributes.getD []) "source"⟩] := by
  obtain ⟨ident, attributes, args, declaration, rules⟩ := command
  dsimp only at lowered ⊢
  rw [headlinesIn, lowered]

namespace Html

open Contents

mutual

/-- A node of a tree with all that is inside of it. -/
def parts : Html → List Html
  | .text word => [.text word]
  | .element name attributes children => .element name attributes children :: partsOf children
termination_by structural html => html

def partsOf : List Html → List Html
  | [] => []
  | html :: rest => parts html ++ partsOf rest
termination_by structural nodes => nodes

end

theorem partsOf_append (nodes others : List Html) : partsOf (nodes ++ others) = partsOf nodes ++ partsOf others := by
  induction nodes with
  | nil => rfl
  | cons html nodes ih => rw [List.cons_append, partsOf, partsOf, ih, List.append_assoc]

theorem partsOf_element (name : String) (attributes : List (String × String)) (children : List Html) :
    partsOf [.element name attributes children] = .element name attributes children :: partsOf children := by
  rw [partsOf, partsOf, parts, List.append_nil]

/-- There is an element with this id, with a link to an address inside. -/
def Linked (html : List Html) (id href : String) : Prop :=
  ∃ name children, Html.element name [("id", id)] [.element "a" [("href", href)] children] ∈ partsOf html

theorem Linked.mono {html others : List Html} {id href : String} (linked : Linked html id href)
    (more : partsOf html ⊆ partsOf others) : Linked others id href := by
  obtain ⟨name, children, member⟩ := linked
  exact ⟨name, children, more member⟩

/-- The ids of the elements of a page. -/
def ids (nodes : List Html) : List String :=
  (partsOf nodes).filterMap fun
    | .element _ attributes _ => attributes.lookup "id"
    | .text _ => none

theorem Linked.id_mem {nodes : List Html} {id href : String} (linked : Linked nodes id href) : id ∈ ids nodes := by
  obtain ⟨name, children, member⟩ := linked
  exact List.mem_filterMap.mpr ⟨_, member, rfl⟩

/-- Where the link of a heading with this anchor leads to. -/
def linkOf (page id : String) (heading : Headline) : String := pageUrl (heading.source.getD page) ++ "#" ++ id

/-- Meets headings, which get the next anchors in order; those that are drawn have their anchors as ids and link to
them. -/
def Meets (page : String) (lower : Lower (List Html)) (headings : List Headline) : Prop :=
  ∀ contents : Contents,
    (∃ items, (lower.run (some contents)).2 =
      some ⟨contents.used ++ anchorsFrom contents.used (headings.map Headline.title), items⟩) ∧
    List.Forall₂ (fun id heading => heading.drawn = true →
      Linked (lower.run (some contents)).1 id (linkOf page id heading))
      (anchorsFrom contents.used (headings.map Headline.title)) headings

variable {page : String} {lower other : Lower (List Html)} {headings more : List Headline}

theorem meets_pure (page : String) (html : List Html) : Meets page (pure html) [] := fun contents =>
  ⟨⟨contents.items, by rw [List.map_nil, anchorsFrom, List.append_nil]; rfl⟩, .nil⟩

theorem Meets.append (first : Meets page lower headings) (second : Meets page other more)
    (join : List Html → List Html → List Html)
    (fits : ∀ html others, partsOf html ⊆ partsOf (join html others) ∧ partsOf others ⊆ partsOf (join html others)) :
    Meets page (do
      let html ← lower
      pure (join html (← other))) (headings ++ more) := by
  intro contents
  obtain ⟨⟨items, left⟩, linked⟩ := first contents
  obtain ⟨⟨others, after⟩, links⟩ := second ⟨_, items⟩
  have run : (do
      let html ← lower
      pure (join html (← other)) : Lower (List Html)).run (some contents) =
        (join (lower.run (some contents)).1 (other.run (lower.run (some contents)).2).1,
          (other.run (lower.run (some contents)).2).2) := rfl
  rw [run, left, after]
  simp only [List.map_append, anchorsFrom_append, ← List.append_assoc]
  refine ⟨⟨others, rfl⟩, List.rel_append (linked.imp fun id heading link drawn => ?_)
    (links.imp fun id heading link drawn => ?_)⟩
  · exact (link drawn).mono (fits _ _).1
  · exact (link drawn).mono (fits _ _).2

theorem joined (first : Meets page lower headings) (second : Meets page other more) :
    Meets page (do
      let html ← lower
      pure (html ++ (← other))) (headings ++ more) :=
  first.append second (· ++ ·) fun html others => by
    rw [partsOf_append]
    exact ⟨List.subset_append_left _ _, List.subset_append_right _ _⟩

theorem Meets.map (meets : Meets page lower headings) (wrap : List Html → List Html)
    (fits : ∀ html, partsOf html ⊆ partsOf (wrap html)) : Meets page (do pure (wrap (← lower))) headings := by
  intro contents
  obtain ⟨left, linked⟩ := meets contents
  exact ⟨left, linked.imp fun _ _ link drawn => (link drawn).mono (fits _)⟩

theorem Meets.inside (meets : Meets page lower headings) (shown : Bool) :
    Meets page lower (headings.map (Headline.inside shown)) := by
  intro contents
  rw [Headline.titles_inside, List.forall₂_map_right_iff]
  obtain ⟨left, linked⟩ := meets contents
  refine ⟨left, linked.imp fun id heading link drawn => ?_⟩
  exact link (Bool.and_eq_true_iff.mp drawn).2

/-- A heading that is not drawn hides what is inside of it. -/
theorem Meets.heading (meets : Meets page lower headings) (level : Nat) (attributes : Attributes) (title : String) :
    Meets page (do Html.heading page level attributes title (← lower))
      (headings.map (Headline.inside (!Attributes.has attributes "toc-only")) ++
        [⟨title, !Attributes.has attributes "toc-only", true, Attributes.value? attributes "source"⟩]) := by
  intro contents
  obtain ⟨⟨items, left⟩, linked⟩ := meets contents
  have run : (do Html.heading page level attributes title (← lower) : Lower (List Html)).run (some contents) =
      Html.heading page level attributes title (lower.run (some contents)).1 (lower.run (some contents)).2 := rfl
  rw [run, left]
  simp only [List.map_append, Headline.titles_inside, List.map_singleton, anchorsFrom_append, anchorsFrom]
  have entered : ∃ entries, (Html.heading page level attributes title (lower.run (some contents)).1
      (some ⟨contents.used ++ anchorsFrom contents.used (headings.map Headline.title), items⟩)).2 =
      some ⟨contents.used ++ anchorsFrom contents.used (headings.map Headline.title) ++
        [freeAnchor (contents.used ++ anchorsFrom contents.used (headings.map Headline.title)) (anchorBase title)],
        entries⟩ := by
    unfold Html.heading
    dsimp only [anchor, anchorOf]
    split
    · exact ⟨_, rfl⟩
    · exact ⟨_, rfl⟩
  obtain ⟨entries, entered⟩ := entered
  rw [← List.append_assoc]
  refine ⟨⟨entries, entered⟩, List.rel_append ?_ (.cons ?_ .nil)⟩
  · rw [List.forall₂_map_right_iff]
    refine linked.imp fun id heading link drawn => ?_
    obtain ⟨shown, drawn⟩ := Bool.and_eq_true_iff.mp drawn
    refine (link drawn).mono fun part member => ?_
    unfold Html.heading
    dsimp only [anchor, anchorOf]
    rw [if_neg (by simpa using shown), partsOf_element, partsOf_element]
    exact List.mem_cons_of_mem _ (List.mem_cons_of_mem _ member)
  · intro shown
    unfold Html.heading
    dsimp only [anchor, anchorOf]
    rw [if_neg (by simpa using shown)]
    refine ⟨"h" ++ toString level, (lower.run (some contents)).1, ?_⟩
    rw [partsOf_element]
    exact List.mem_cons_self ..

mutual

theorem ofNode_meets (page : String) (node : Node) : Meets page (ofNode page node) (headlinesIn node) := by
  match node with
  | .hole | .text _ _ | .symbol _ _ | .ident _ | .stray _ | .drawing _ => exact meets_pure page _
  | .bracket block => exact ofBlock_meets page block
  | .quotation opening closing children =>
    refine (ofNodes_meets page children).map
      (fun html => [.text "“"] ++ html ++ if closing.isSome then [.text "”"] else []) fun html => ?_
    rw [partsOf_append, partsOf_append]
    exact List.Subset.trans (List.subset_append_right _ _) (List.subset_append_left _ _)
  | .fragment children => exact ofNodes_meets page children
  | .tag ⟨ident, options, attributes, args, rules⟩ =>
    refine ((ofOptions_meets page options).append (ofBlocks_meets page args)
      (fun html others => [.text ident.name] ++ html ++ others) fun html others => ?_).inside true
    rw [partsOf_append, partsOf_append]
    exact ⟨List.Subset.trans (List.subset_append_right _ _) (List.subset_append_left _ _), List.subset_append_right _ _⟩
  | .command ⟨ident, attributes, args, declaration, rules⟩ =>
    have body := ofBody_meets page args
    have wrapped (name : String) (items : List (String × String)) :
        Meets page (do pure [.element name items (← ofBody page args)]) (headlines args) :=
      body.map (fun html => [.element name items html]) fun html => by
        rw [partsOf_element]
        exact List.subset_cons_self ..
    unfold ofNode headlinesIn
    obtain ⟨lowering, lowered⟩ : ∃ lowering, Declaration.lowering declaration = lowering := ⟨_, rfl⟩
    have shape : (declaration.map Declaration.html).getD .element = lowering := lowered
    simp only [lowered, shape]
    cases lowering with
    | element | link | item => exact wrapped _ _
    | heading => exact body.heading _ _ _
    | image | formula | slot | nothing => exact meets_pure page _
termination_by structural node

theorem ofNodes_meets (page : String) (nodes : List Node) : Meets page (ofNodes page nodes) (headlines nodes) := by
  match nodes with
  | [] => exact meets_pure page []
  | node :: rest => exact joined (ofNode_meets page node) (ofNodes_meets page rest)
termination_by structural nodes

theorem ofBlock_meets (page : String) (block : Block Node) :
    Meets page (ofBlock page block) (blockHeadlines block) := by
  match block with
  | ⟨kind, opening, closing, children⟩ =>
    refine (ofNodes_meets page children).map
      (fun html => shownText (Token.textOf opening) ++ html ++ shownText (Token.textOf closing)) fun html => ?_
    rw [partsOf_append, partsOf_append]
    exact List.Subset.trans (List.subset_append_right _ _) (List.subset_append_left _ _)
termination_by structural block

theorem ofOptions_meets (page : String) (options : Option (Block Node)) :
    Meets page (ofOptions page options) (optionsHeadlines options) := by
  match options with
  | none => exact meets_pure page []
  | some block => exact ofBlock_meets page block
termination_by structural options

theorem ofBlocks_meets (page : String) (blocks : List (Block Node)) :
    Meets page (ofBlocks page blocks) (blocksHeadlines blocks) := by
  match blocks with
  | [] => exact meets_pure page []
  | block :: rest => exact joined (ofBlock_meets page block) (ofBlocks_meets page rest)
termination_by structural blocks

theorem ofBody_meets (page : String) (nodes : List Node) : Meets page (ofBody page nodes) (headlines nodes) := by
  match nodes with
  | [] => exact meets_pure page []
  | .bracket ⟨.curly, opening, closing, children⟩ :: rest =>
    rw [ofBody]
    exact joined (ofNodes_meets page children) (ofBody_meets page rest)
  | .bracket ⟨.square, _, _, _⟩ :: rest | .bracket ⟨.round, _, _, _⟩ :: rest | .hole :: rest | .text _ _ :: rest
  | .symbol _ _ :: rest | .ident _ :: rest | .stray _ :: rest | .quotation _ _ _ :: rest | .fragment _ :: rest
  | .drawing _ :: rest | .tag _ :: rest | .command _ :: rest =>
    exact joined (ofNode_meets page _) (ofBody_meets page rest)
termination_by structural nodes

end

end Html

namespace Document

/-- A page as it is drawn, with the table of contents kept beside it. -/
def drawn (document : Document) : List Html × Option Contents :=
  (Html.ofNodes document.path document.nodes).run (some {})

/-- The anchors of the headings of a page, in order. -/
def anchors (document : Document) : List String := (document.drawn.2.getD {}).used

theorem anchors_eq (document : Document) :
    document.anchors = Contents.anchorsFrom [] ((headlines document.nodes).map Headline.title) := by
  obtain ⟨⟨items, left⟩, _⟩ := Html.ofNodes_meets document.path document.nodes {}
  rw [anchors, drawn, left]
  exact List.nil_append _

theorem linked (document : Document) {place : Nat} {heading : Headline} {anchor : String}
    (found : (headlines document.nodes)[place]? = some heading) (given : document.anchors[place]? = some anchor)
    (shown : heading.drawn = true) :
    Html.Linked document.drawn.1 anchor (Html.linkOf document.path anchor heading) := by
  obtain ⟨_, links⟩ := Html.ofNodes_meets document.path document.nodes {}
  rw [anchors_eq] at given
  obtain ⟨within, rfl⟩ := List.getElem?_eq_some_iff.mp given
  obtain ⟨bound, rfl⟩ := List.getElem?_eq_some_iff.mp found
  exact links.get within bound shown

end Document

end Manuscript
