import Manuscript.Proofs.Skeletons

/-! Links from page to page. A heading of an included file links to the page of that file with the anchor that it has on
the including page. It has the same anchor on its own page unless an earlier heading of the including page took it. -/

namespace Manuscript

open Html Contents

/-- The page that a heading belongs to, and its place there. -/
structure Home where
  file : String
  index : Nat
deriving DecidableEq

/-- As many headings of a file as there are, from a place on. -/
def Home.row (file : String) (start count : Nat) : List (Option Home) :=
  (List.range' start count).map fun index => some ⟨file, index⟩

theorem Home.row_append (file : String) (start count more : Nat) :
    row file start (count + more) = row file start count ++ row file (start + count) more := by
  rw [row, ← List.range'_append_1, List.map_append]
  rfl

theorem Home.row_length (file : String) (start count : Nat) : (row file start count).length = count := by
  rw [row, List.length_map, List.length_range']

/-- A heading on a page with an inclusion, and on the page of its own file. -/
structure Headline.Follows (heading own : Headline) (file : String) : Prop where
  title : heading.title = own.title
  drawn : heading.drawn = true → own.drawn = true
  exposed : heading.exposed = true → own.exposed = true
  source : heading.source = (own.fitted file).source

namespace Headline.Follows

variable {heading own : Headline} {file : String}

theorem fitted_self (own : Headline) (file : String) : (own.fitted file).Follows own file := by
  unfold Headline.fitted
  constructor
  · split <;> rfl
  · split <;> exact id
  · split <;> exact id
  · unfold Headline.fitted
    rfl

theorem inside (follows : heading.Follows own file) (shown : Bool) : (heading.inside shown).Follows own file :=
  ⟨follows.title, fun drawn => follows.drawn (Bool.and_eq_true_iff.mp drawn).2, fun exposed => (nomatch exposed),
    follows.source⟩

/-- A source that is there already stays. -/
theorem fitted (follows : heading.Follows own file) (source : String) : (heading.fitted source).Follows own file := by
  unfold Headline.fitted
  split
  next outside =>
    refine ⟨follows.title, follows.drawn, follows.exposed, ?_⟩
    have named := follows.source
    rw [Headline.fitted, if_pos (follows.exposed outside)] at named ⊢
    dsimp only at named ⊢
    rw [named, Option.or_assoc]
    rfl
  next => exact follows

end Headline.Follows

/-- Whether the headings inside of a command are met. -/
def Declaration.opens (declaration : Option Declaration) : Bool :=
  (declaration.bind Declaration.math).isNone &&
    match Declaration.lowering declaration with
    | .element | .heading | .link | .item => true
    | .image | .formula | .slot | .nothing => false

theorem outline_closed {command : Command Node} (closed : Declaration.opens command.declaration = false)
    (rest : List Node) : outline (.command command :: rest) = outline rest := by
  obtain ⟨ident, attributes, args, declaration, rules⟩ := command
  rw [outline_cons, Formula.eraseNode]
  split
  · rfl
  next kept =>
    rw [Formula.isErased, Bool.not_eq_true, Bool.or_eq_false_iff] at kept
    dsimp only [Declaration.opens] at closed
    rw [← Option.not_isSome, kept.1, Bool.not_false, Bool.true_and] at closed
    rw [headlinesIn]
    split at closed
    · cases closed
    · cases closed
    · cases closed
    · cases closed
    all_goals simp only [*, List.nil_append]

/-- The headings of a command that shows what is inside of it, and its own, if it is one. -/
theorem outline_opens {command : Command Node} (opens : Declaration.opens command.declaration = true)
    (rest : List Node) :
    outline (.command command :: rest) =
      (if Declaration.lowering command.declaration = .heading then
        (outline command.args).map (Headline.inside (!Attributes.has (command.attributes.getD []) "toc-only")) ++
          [⟨flattenBody (Formula.erase command.args), !Attributes.has (command.attributes.getD []) "toc-only", true,
            Attributes.value? (command.attributes.getD []) "source"⟩]
      else outline command.args) ++ outline rest := by
  obtain ⟨ident, attributes, args, declaration, rules⟩ := command
  dsimp only [Declaration.opens] at opens ⊢
  rw [Bool.and_eq_true, ← Option.not_isSome, Bool.not_eq_true'] at opens
  have kept : Formula.isErased declaration args = false := by
    rw [Formula.isErased, opens.1]
    split at opens <;> simp_all
  rw [outline_cons, Formula.eraseNode_kept kept, headlinesIn]
  split at opens <;> simp_all [outline]

namespace Compiler

open Compile Outline

variable {compiler : Compiler} {path : String} {chain : List String} {extract : Bool} {nodes left : List Node}
  {sheet after : FormulaSheet}

/-- The homes of the headings that a file brings to a page, from a place of its own headings on. Headings that are
included for the table of contents alone have none. -/
inductive Homes (compiler : Compiler) : (path : String) → (start : Nat) → List Node → List (Option Home) → Prop where
  | nil {path : String} {start : Nat} : Homes compiler path start [] []
  | passed {path : String} {start : Nat} {node : Node} {rest : List Node} {homes : List (Option Home)}
      (plain : node.isPassed = true) (later : Homes compiler path (start + (outline [node]).length) rest homes) :
      Homes compiler path start (node :: rest) (Home.row path start (outline [node]).length ++ homes)
  | closed {path : String} {start : Nat} {command : Command Node} {rest : List Node} {homes : List (Option Home)}
      (other : Declaration.isInclusion command.declaration = false)
      (closed : Declaration.opens command.declaration = false) (later : Homes compiler path start rest homes) :
      Homes compiler path start (.command command :: rest) homes
  | command {path : String} {start : Nat} {command : Command Node} {rest : List Node} {inner homes : List (Option Home)}
      (other : Declaration.isInclusion command.declaration = false)
      (opens : Declaration.opens command.declaration = true)
      (plain : Declaration.lowering command.declaration ≠ .heading)
      (inside : Homes compiler path start command.args inner)
      (later : Homes compiler path (start + inner.length) rest homes) :
      Homes compiler path start (.command command :: rest) (inner ++ homes)
  /-- A heading comes after those inside of it. -/
  | heading {path : String} {start : Nat} {command : Command Node} {rest : List Node} {inner homes : List (Option Home)}
      (other : Declaration.isInclusion command.declaration = false)
      (opens : Declaration.opens command.declaration = true)
      (heads : Declaration.lowering command.declaration = .heading)
      (inside : Homes compiler path start command.args inner)
      (later : Homes compiler path (start + inner.length + 1) rest homes) :
      Homes compiler path start (.command command :: rest)
        (inner ++ some ⟨path, start + inner.length⟩ :: homes)
  | bracket {path : String} {start : Nat} {block : Block Node} {rest : List Node} {inner homes : List (Option Home)}
      (inside : Homes compiler path start block.children inner)
      (later : Homes compiler path (start + inner.length) rest homes) :
      Homes compiler path start (.bracket block :: rest) (inner ++ homes)
  | quotation {path : String} {start : Nat} {opening closing : Option Token} {children rest : List Node}
      {inner homes : List (Option Home)} (inside : Homes compiler path start children inner)
      (later : Homes compiler path (start + inner.length) rest homes) :
      Homes compiler path start (.quotation opening closing children :: rest) (inner ++ homes)
  | fragment {path : String} {start : Nat} {children rest : List Node} {inner homes : List (Option Home)}
      (inside : Homes compiler path start children inner)
      (later : Homes compiler path (start + inner.length) rest homes) :
      Homes compiler path start (.fragment children :: rest) (inner ++ homes)
  | spliced {path : String} {start : Nat} {command : Command Node} {content placed rest : List Node}
      {homes : List (Option Home)} (included : Declaration.isInclusion command.declaration = true)
      (ending : Path.ext (target path command) ≠ sourceExt) (loaded : compiler.Loads (target path command) content)
      (filled : compiler.Spliced path content command.rules placed)
      (later : Homes compiler path (start + (outline placed).length) rest homes) :
      Homes compiler path start (.command command :: rest) (Home.row path start (outline placed).length ++ homes)
  | listed {path : String} {start : Nat} {chain : List String} {command : Command Node} {content inner rest : List Node}
      {homes : List (Option Home)} (included : Declaration.isInclusion command.declaration = true)
      (ending : Path.ext (target path command) = sourceExt) (only : command.hasAttribute "toc-only" = true)
      (loaded : compiler.Loads (target path command) content)
      (inside : compiler.Expands (target path command) chain false content {} inner {}) {count : Nat}
      (counted : count = (outline (conclude (compiler.adjustment (target path command) command) false {}
        (inner, {})).1).length)
      (later : Homes compiler path (start + count) rest homes) :
      Homes compiler path start (.command command :: rest) (List.replicate count none ++ homes)
  | source {path : String} {start : Nat} {command : Command Node} {content rest : List Node}
      {inner homes : List (Option Home)} (included : Declaration.isInclusion command.declaration = true)
      (ending : Path.ext (target path command) = sourceExt) (drawn : command.hasAttribute "toc-only" = false)
      (loaded : compiler.Loads (target path command) content)
      (inside : Homes compiler (target path command) 0 content inner)
      (later : Homes compiler path (start + inner.length) rest homes) :
      Homes compiler path start (.command command :: rest) (inner ++ homes)

/-- The homes of its headings are settled by what is in a file. -/
theorem Homes.unique {start : Nat} {homes others : List (Option Home)} (stated : compiler.Homes path start nodes homes)
    (again : compiler.Homes path start nodes others) : others = homes := by
  induction stated generalizing others with
  | nil =>
    cases again
    rfl
  | passed plain _ later =>
    cases again with
    | passed _ more => rw [later more]
    | _ => cases plain
  | closed other closed _ later =>
    cases again with
    | closed _ _ more => exact later more
    | _ => simp_all [Node.isPassed]
  | command other opens plain _ _ inside later =>
    cases again with
    | command _ _ _ within more =>
      obtain rfl := inside within
      rw [later more]
    | _ => simp_all [Node.isPassed]
  | heading other opens heads _ _ inside later =>
    cases again with
    | heading _ _ _ within more =>
      obtain rfl := inside within
      rw [later more]
    | _ => simp_all [Node.isPassed]
  | bracket _ _ inside later =>
    cases again with
    | bracket within more =>
      obtain rfl := inside within
      rw [later more]
    | passed plain => cases plain
  | quotation _ _ inside later =>
    cases again with
    | quotation within more =>
      obtain rfl := inside within
      rw [later more]
    | passed plain => cases plain
  | fragment _ _ inside later =>
    cases again with
    | fragment within more =>
      obtain rfl := inside within
      rw [later more]
    | passed plain => cases plain
  | spliced included ending loaded filled _ later =>
    cases again with
    | spliced _ _ reloaded refilled more =>
      obtain rfl := loaded.unique reloaded
      obtain rfl := filled.unique refilled
      rw [later more]
    | _ => simp_all [Node.isPassed]
  | listed included ending only loaded opens counted _ later =>
    cases again with
    | listed _ _ _ reloaded reopens recounted more =>
      obtain rfl := loaded.unique reloaded
      obtain rfl := opens.unique rfl reopens
      obtain rfl := counted.trans recounted.symm
      rw [later more]
    | _ => simp_all [Node.isPassed]
  | source included ending drawn loaded _ _ inside later =>
    cases again with
    | source _ _ _ reloaded within more =>
      obtain rfl := loaded.unique reloaded
      obtain rfl := inside within
      rw [later more]
    | _ => simp_all [Node.isPassed]

mutual

theorem homes_own_node (compiler : Compiler) (path : String) (start : Nat) (node : Node)
    (none : inclusions node = []) {rest : List Node} {homes : List (Option Home)}
    (later : compiler.Homes path (start + (outline [node]).length) rest homes) :
    compiler.Homes path start (node :: rest) (Home.row path start (outline [node]).length ++ homes) := by
  match node with
  | .command ⟨ident, attributes, args, declaration, rules⟩ =>
    have other : Declaration.isInclusion declaration = false := by
      rw [inclusions] at none
      split at none
      · cases none
      next plain => exact Bool.eq_false_iff.mpr plain
    have inside := homes_own compiler path start args ((inclusions_other other).symm.trans none)
    have count := Home.row_length path start (outline args).length
    cases shows : Declaration.opens declaration with
    | false =>
      rw [outline_closed shows] at later ⊢
      exact .closed other shows later
    | true =>
      rw [outline_opens shows] at later ⊢
      dsimp only at later ⊢
      have nothing : outline [] = [] := rfl
      by_cases heads : Declaration.lowering declaration = .heading
      · rw [if_pos heads, nothing, List.append_nil, List.length_append, List.length_map,
          List.length_singleton] at later ⊢
        rw [← Nat.add_assoc, ← count] at later
        have whole : compiler.Homes path start (.command ⟨ident, attributes, args, declaration, rules⟩ :: rest) _ :=
          .heading other shows heads inside later
        rw [Home.row_append, List.append_assoc]
        rw [count] at whole
        exact whole
      · rw [if_neg heads, nothing, List.append_nil] at later ⊢
        rw [← count] at later
        exact .command other shows heads inside later
  | .bracket ⟨kind, opening, closing, children⟩ =>
    have same : outline [.bracket ⟨kind, opening, closing, children⟩] = outline children := List.append_nil _
    rw [same] at later ⊢
    rw [← Home.row_length path start (outline children).length] at later
    exact .bracket (homes_own compiler path start children none) later
  | .quotation opening closing children =>
    have same : outline [.quotation opening closing children] = outline children := List.append_nil _
    rw [same] at later ⊢
    rw [← Home.row_length path start (outline children).length] at later
    exact .quotation (homes_own compiler path start children none) later
  | .fragment children =>
    have same : outline [.fragment children] = outline children := List.append_nil _
    rw [same] at later ⊢
    rw [← Home.row_length path start (outline children).length] at later
    exact .fragment (homes_own compiler path start children none) later
  | .hole | .text _ _ | .symbol _ _ | .ident _ | .stray _ | .drawing _ | .tag _ => exact .passed rfl later
termination_by structural node

/-- In a file without inclusions, headings are at home where they are. -/
theorem homes_own (compiler : Compiler) (path : String) (start : Nat) (nodes : List Node)
    (none : inclusionsOf nodes = []) :
    compiler.Homes path start nodes (Home.row path start (outline nodes).length) := by
  match nodes with
  | [] => exact .nil
  | node :: rest =>
    obtain ⟨first, others⟩ := List.append_eq_nil_iff.mp none
    rw [outline_split, List.length_append, Home.row_append]
    exact homes_own_node compiler path start node first (homes_own compiler path _ rest others)
termination_by structural nodes

end

/-- A heading that is met after headings with these titles is at home in a file of the project, where it is met after
the last of them. -/
def Returns (compiler : Compiler) (home : Home) (before : List String) (heading : Headline) : Prop :=
  ∃ chain content whole own front, Path.IsClean home.file ∧ compiler.Loads home.file content ∧
    compiler.Expands home.file chain false content {} whole {} ∧ (outline whole)[home.index]? = some own ∧
    heading.Follows own home.file ∧ before = front ++ ((outline whole).map Headline.title).take home.index

theorem Returns.along {home : Home} {before : List String} {heading other : Headline}
    (returns : compiler.Returns home before heading) (ahead : List String)
    (still : ∀ own, heading.Follows own home.file → other.Follows own home.file) :
    compiler.Returns home (ahead ++ before) other := by
  obtain ⟨chain, content, whole, own, front, clean, loads, opens, listed, follows, rfl⟩ := returns
  exact ⟨chain, content, whole, own, ahead ++ front, clean, loads, opens, listed, still own follows,
    (List.append_assoc ..).symm⟩

/-- A heading that a file brings to a page is one of its own or comes from elsewhere, or it is not drawn. -/
def Lodges (compiler : Compiler) (path : String) (before : List String) (heading : Headline) : Option Home → Prop
  | none => heading.drawn = false
  | some home => home = ⟨path, before.length⟩ ∨ compiler.Returns home before heading

/-- So it is with each of the headings that a file brings, one after the other. -/
inductive LodgesAll (compiler : Compiler) (path : String) :
    List String → List (Option Home) → List Headline → Prop where
  | nil {before : List String} : LodgesAll compiler path before [] []
  | cons {before : List String} {home : Option Home} {homes : List (Option Home)} {heading : Headline}
      {headings : List Headline} (lodges : compiler.Lodges path before heading home)
      (later : LodgesAll compiler path (before ++ [heading.title]) homes headings) :
      LodgesAll compiler path before (home :: homes) (heading :: headings)

namespace LodgesAll

variable {before : List String} {homes others : List (Option Home)} {headings more : List Headline}

theorem length_eq (all : compiler.LodgesAll path before homes headings) : homes.length = headings.length := by
  induction all with
  | nil => rfl
  | cons _ _ ih => exact congrArg (· + 1) ih

theorem append (all : compiler.LodgesAll path before homes headings)
    (later : compiler.LodgesAll path (before ++ headings.map Headline.title) others more) :
    compiler.LodgesAll path before (homes ++ others) (headings ++ more) := by
  induction all with
  | nil => simpa using later
  | cons lodges _ ih => exact .cons lodges (ih (by simpa using later))

/-- The next headings of a file itself. -/
theorem row (compiler : Compiler) (path : String) (before : List String) (headings : List Headline) :
    compiler.LodgesAll path before (Home.row path before.length headings.length) headings := by
  induction headings generalizing before with
  | nil => exact .nil
  | cons heading headings ih =>
    have next := ih (before ++ [heading.title])
    rw [List.length_append, List.length_singleton] at next
    exact .cons (.inl rfl) next

theorem hidden (compiler : Compiler) (path : String) (before : List String)
    (undrawn : ∀ heading ∈ headings, heading.drawn = false) :
    compiler.LodgesAll path before (List.replicate headings.length none) headings := by
  induction headings generalizing before with
  | nil => exact .nil
  | cons heading headings ih =>
    obtain ⟨first, others⟩ := List.forall_mem_cons.mp undrawn
    exact .cons first (ih _ others)

theorem inside (all : compiler.LodgesAll path before homes headings) (shown : Bool) :
    compiler.LodgesAll path before homes (headings.map (Headline.inside shown)) := by
  induction all with
  | nil => exact .nil
  | @cons _ home _ _ _ lodges _ ih =>
    refine .cons ?_ ih
    cases home with
    | none => exact Bool.and_eq_false_iff.mpr (.inr lodges)
    | some home => exact lodges.imp_right fun returns => returns.along [] fun own follows => follows.inside shown

/-- A heading of the file itself comes behind those inside of it. -/
theorem heading (all : compiler.LodgesAll path before homes headings) (shown : Bool) (own : Headline) :
    compiler.LodgesAll path before (homes ++ [some ⟨path, before.length + homes.length⟩])
      (headings.map (Headline.inside shown) ++ [own]) := by
  refine (all.inside shown).append (.cons (.inl ?_) .nil)
  rw [List.length_append, List.length_map, List.length_map, all.length_eq]

/-- The headings of a file are at home there when it is included. -/
theorem included {file : String} {content whole : List Node} (front : List Headline) (clean : Path.IsClean file)
    (loads : compiler.Loads file content) (opens : compiler.Expands file chain false content {} whole {})
    (all : compiler.LodgesAll file (front.map Headline.title) homes headings)
    (split : outline whole = front ++ headings) (before : List String) :
    compiler.LodgesAll path (before ++ front.map Headline.title) homes (headings.map (Headline.fitted file)) := by
  generalize titles : front.map Headline.title = own at all ⊢
  induction all generalizing front with
  | nil => exact .nil
  | @cons _ home _ heading _ lodges _ ih =>
    subst titles
    have title : (heading.fitted file).title = heading.title := (Headline.Follows.fitted_self heading file).title
    have next := ih (front ++ [heading]) (by rw [split, List.append_assoc]; rfl) (by simp)
    rw [List.map_cons]
    refine .cons ?_ (by rw [title, List.append_assoc]; exact next)
    cases home with
    | none =>
      show (heading.fitted file).drawn = false
      unfold Headline.fitted
      split <;> exact lodges
    | some home =>
      -- What the file has of its own is at home there; what it had from elsewhere stays where it is.
      right
      rcases lodges with rfl | returns
      · refine ⟨chain, content, whole, heading, before, clean, loads, opens, ?_, .fitted_self heading file, ?_⟩
        · rw [split, List.length_map, List.getElem?_append_right (Nat.le_refl _), Nat.sub_self, List.getElem?_cons_zero]
        · rw [split, List.length_map, List.map_append, List.take_append_of_le_length (by simp),
            List.take_of_length_le (by simp)]
      · exact returns.along before fun own follows => follows.fitted file

theorem getElem? (all : compiler.LodgesAll path before homes headings) {place : Nat} {heading : Headline}
    (found : headings[place]? = some heading) : ∃ home, homes[place]? = some home ∧
      compiler.Lodges path (before ++ (headings.map Headline.title).take place) heading home := by
  induction all generalizing place with
  | nil => cases found
  | @cons before home _ first _ lodges _ ih =>
    cases place with
    | zero =>
      obtain rfl := Option.some.inj found
      exact ⟨home, rfl, by simpa using lodges⟩
    | succ place =>
      obtain ⟨home, listed, lodges⟩ := ih found
      exact ⟨home, listed, by simpa using lodges⟩

end LodgesAll

theorem adjustment_source (compiler : Compiler) (file : String) (command : Command Node) :
    (compiler.adjustment file command).source = file := rfl

/-- A file that is included for the table of contents alone leaves headings that are not drawn. -/
theorem conclude_undrawn {slots : Bool} {adjustment : Adjustment} (standard : adjustment.registry = Builtin.registry)
    (only : adjustment.tocOnly = true) {inner : List Node} (known : Declared (Builtin.Known slots) inner) :
    ∀ heading ∈ outline (conclude adjustment false {} (inner, {})).1, heading.drawn = false := by
  have each := visible_declared false inner known
  have fitted := visible_adjust standard false inner known
  rw [visible_false] at each
  rw [visible_false, visible_false] at fitted
  unfold conclude
  rw [only]
  dsimp only
  rw [if_pos rfl, fitted]
  exact listed_hidden standard only each

/-- The headings that nodes of a file bring to a page have their homes in order, whatever comes before them. -/
def Housed (compiler : Compiler) (path : String) (nodes left : List Node) : Prop :=
  ∀ before, ∃ homes, compiler.Homes path before.length nodes homes ∧ compiler.LodgesAll path before homes (outline left)

/-- Behind other headings the homes are those further on. -/
theorem Housed.behind (housed : compiler.Housed path nodes left) {before : List String} {first : List (Option Home)}
    {headings : List Headline} (one : compiler.LodgesAll path before first headings) :
    ∃ homes, compiler.Homes path (before.length + first.length) nodes homes ∧
      compiler.LodgesAll path before (first ++ homes) (headings ++ outline left) := by
  obtain ⟨homes, stated, all⟩ := housed (before ++ headings.map Headline.title)
  rw [List.length_append, List.length_map, ← one.length_eq] at stated
  exact ⟨homes, stated, one.append all⟩

/-- Headings of the file itself are followed by those further on. -/
theorem Housed.behind_row (housed : compiler.Housed path nodes left) (before : List String) (headings : List Headline) :
    ∃ homes, compiler.Homes path (before.length + headings.length) nodes homes ∧ compiler.LodgesAll path before
      (Home.row path before.length headings.length ++ homes) (headings ++ outline left) := by
  have behind := housed.behind (LodgesAll.row compiler path before headings)
  rwa [Home.row_length] at behind

/-- The headings that an included source brings to a page are at home there. -/
theorem LodgesAll.source (standard : compiler.registry = Builtin.registry) {command : Command Node}
    {content whole : List Node} {homes : List (Option Home)} (drawn : command.hasAttribute "toc-only" = false)
    (loaded : compiler.Loads (target path command) content)
    (opens : compiler.Expands (target path command) chain false content {} whole {})
    (all : compiler.LodgesAll (target path command) [] homes (outline whole)) (before : List String) :
    compiler.LodgesAll path before homes
      (outline (adjust (compiler.adjustment (target path command) command) whole)) := by
  have clean : Path.IsClean (target path command) := (Path.join_spec (Path.dir_ne_empty path) _).1
  have known := opens.known standard (loaded.declared (standard ▸ Builtin.makes_known _))
  have brought := @outline_adjust _ (compiler.adjustment (target path command) command) standard drawn whole known
  rw [adjustment_source] at brought
  have headings : compiler.LodgesAll path _ homes _ := LodgesAll.included [] clean loaded opens all rfl before
  rwa [List.map_nil, List.append_nil, ← brought] at headings

/-- Expansion houses the headings that it leaves. -/
theorem Expands.homes (standard : compiler.registry = Builtin.registry)
    (expands : compiler.Expands path chain extract nodes sheet left after) (kept : extract = false) :
    compiler.Housed path nodes left := by
  induction expands with
  | nil => exact fun _ => ⟨[], .nil, .nil⟩
  | @passed _ _ _ node _ left _ _ plain _ later =>
    intro before
    obtain ⟨homes, stated, all⟩ := (later kept).behind_row before (outline [node])
    refine ⟨_, .passed plain stated, ?_⟩
    rw [outline_split node left]
    exact all
  | @command path _ _ ident attributes args inner declaration rules _ _ _ _ _ other _ _ inside later =>
    intro before
    cases shows : Declaration.opens declaration with
    | false =>
      obtain ⟨homes, stated, all⟩ := later kept before
      refine ⟨homes, .closed other shows stated, ?_⟩
      rw [outline_closed shows]
      exact all
    | true =>
      obtain ⟨first, opens, one⟩ := inside kept before
      rw [outline_opens shows]
      split
      next heads =>
        obtain ⟨homes, stated, all⟩ := (later kept).behind (one.heading _ _)
        rw [List.length_append, List.length_singleton, ← Nat.add_assoc] at stated
        rw [List.append_assoc] at all
        exact ⟨_, .heading other shows heads opens stated, all⟩
      next plain =>
        obtain ⟨homes, stated, all⟩ := (later kept).behind one
        exact ⟨_, .command other shows plain opens stated, all⟩
  | bracket _ _ inside later =>
    intro before
    obtain ⟨_, opens, one⟩ := inside kept before
    obtain ⟨_, stated, all⟩ := (later kept).behind one
    exact ⟨_, .bracket opens stated, all⟩
  | quotation _ _ inside later =>
    intro before
    obtain ⟨_, opens, one⟩ := inside kept before
    obtain ⟨_, stated, all⟩ := (later kept).behind one
    exact ⟨_, .quotation opens stated, all⟩
  | fragment _ _ inside later =>
    intro before
    obtain ⟨_, opens, one⟩ := inside kept before
    obtain ⟨_, stated, all⟩ := (later kept).behind one
    exact ⟨_, .fragment opens stated, all⟩
  | spliced included _ ending loaded filled _ later =>
    intro before
    obtain ⟨_, stated, all⟩ := (later kept).behind_row before (outline _)
    exact ⟨_, .spliced included ending loaded filled stated, all⟩
  | @source path chain _ command content inner _ _ sheet filled _ included _ ending loaded deeper _ inside later =>
    intro before
    subst kept
    have known := deeper.known standard (loaded.declared (standard ▸ Builtin.makes_known _))
    rw [Bool.false_and] at deeper ⊢
    obtain ⟨_, same⟩ := conclude_still (compiler.adjustment (target path command) command) sheet {} inner filled {}
    rw [same]
    cases only : command.hasAttribute "toc-only" with
    | true =>
      have undrawn := @conclude_undrawn _ (compiler.adjustment (target path command) command) standard only _ known
      obtain ⟨_, stated, all⟩ := (later rfl).behind (LodgesAll.hidden compiler path before undrawn)
      rw [List.length_replicate] at stated
      exact ⟨_, .listed included ending only loaded (deeper.still rfl {}) rfl stated, all⟩
    | false =>
      obtain ⟨_, opens, one⟩ := inside rfl []
      obtain ⟨_, stated, all⟩ :=
        (later rfl).behind (LodgesAll.source standard only loaded (deeper.still rfl {}) one before)
      rw [conclude_drawn only]
      exact ⟨_, .source included ending only loaded opens stated, all⟩

/-- The headings of a page that was compiled are those of its file, expanded with its formulas. -/
theorem compile_outline (standard : compiler.registry = Builtin.registry) {limit : Nat} {session last : Session}
    (faithful : compiler.Faithful session) {document : Document}
    (succeeds : outcome ((compiler.within limit).compile path) session = (.ok document, last)) :
    document.path = Path.clean path ∧ ∃ nodes whole, compiler.Loads (Path.clean path) nodes ∧
      compiler.Expands (Path.clean path) [Path.clean path] false nodes {} whole {} ∧
      headlines document.nodes = outline whole := by
  obtain ⟨nodes, left, sheet, loads, expands, rfl⟩ := compileFile_expands faithful succeeds
  obtain ⟨whole, opens, same⟩ := expands.whole standard
  refine ⟨rfl, nodes, whole, loads, opens, ?_⟩
  have taken : finished true left sheet = (Formula.extractNodes true false left).run sheet := rfl
  dsimp only
  rw [taken, ← (Formula.erase_unchanged _ (Formula.extractNodes_hasFormula true false left sheet)).2.2,
    Formula.extractNodes_erase, same]
  rfl

/-- A heading that is drawn on a page is met on the page of its own file after the last headings that it is met after
here; its source is that file, if it names none and is in no other heading. -/
theorem Lodges.returns {nodes whole : List Node} (clean : Path.IsClean path) (loads : compiler.Loads path nodes)
    (opens : compiler.Expands path chain false nodes {} whole {}) {place : Nat} {heading : Headline}
    (found : (outline whole)[place]? = some heading) (shown : heading.drawn = true) {home : Option Home}
    (lodges : compiler.Lodges path (((outline whole).map Headline.title).take place) heading home) :
    ∃ file index chain content far own front, home = some ⟨file, index⟩ ∧ Path.IsClean file ∧
      compiler.Loads file content ∧ compiler.Expands file chain false content {} far {} ∧
      (outline far)[index]? = some own ∧ own.title = heading.title ∧ own.drawn = true ∧
      (own.source = none → heading.source.getD path = if own.exposed then file else path) ∧
      ((outline whole).map Headline.title).take place = front ++ ((outline far).map Headline.title).take index := by
  cases home with
  | none => exact absurd shown (Bool.eq_false_iff.mp lodges)
  | some home =>
    rcases lodges with rfl | ⟨others, content, far, own, front, clean, loaded, expands, listed, follows, before⟩
    · have index : (((outline whole).map Headline.title).take place).length = place := by
        rw [List.length_take, List.length_map, min_eq_left (List.getElem?_eq_some_iff.mp found).1.le]
      rw [index]
      refine ⟨path, place, chain, nodes, whole, heading, [], rfl, clean, loads, opens, found, rfl, shown, ?_, rfl⟩
      intro unnamed
      rw [unnamed, ite_self]
      rfl
    · refine ⟨home.file, home.index, others, content, far, own, front, rfl, clean, loaded, expands, listed,
        follows.title.symm, follows.drawn shown, fun unnamed => ?_, before⟩
      rw [follows.source, Headline.fitted]
      split <;> simp [unnamed]

/-- A heading that is drawn on a page links to the page of its own file, where it is drawn as well. Its anchor there is
the one it has here unless a heading before it took that one; if it names no source, and is in no other heading, its
link leads to the page of its file with the anchor that it has here. -/
theorem headings_linked (compiler : Compiler) (standard : compiler.registry = Builtin.registry) (limit : Nat)
    (path : String) {session last : Session} (faithful : compiler.Faithful session) {document : Document}
    (succeeds : outcome ((compiler.within limit).compile path) session = (.ok document, last)) :
    ∃ nodes homes, compiler.Loads (Path.clean path) nodes ∧
      (∀ others, compiler.Homes (Path.clean path) 0 nodes others ↔ others = homes) ∧
      homes.length = (headlines document.nodes).length ∧
      document.anchors.length = (headlines document.nodes).length ∧
      ∀ place heading, (headlines document.nodes)[place]? = some heading → heading.drawn = true →
        ∃ home anchor, homes[place]? = some (some home) ∧ document.anchors[place]? = some anchor ∧
          ∀ less earlier later other, compiler.Faithful earlier →
            outcome ((compiler.within less).compile home.file) earlier = (.ok other, later) →
            ∃ own its, (headlines other.nodes)[home.index]? = some own ∧ other.anchors[home.index]? = some its ∧
              own.title = heading.title ∧ own.drawn = true ∧ its ∈ ids other.drawn.1 ∧
              (anchor = its ↔ its ∉ document.anchors.take place) ∧
              (own.source = none → Linked document.drawn.1 anchor
                (pageUrl (if own.exposed then home.file else Path.clean path) ++ "#" ++ anchor)) := by
  obtain ⟨page, nodes, whole, loads, opens, same⟩ := compile_outline standard faithful succeeds
  obtain ⟨homes, stated, all⟩ := opens.homes standard rfl []
  refine ⟨nodes, homes, loads, fun others => ⟨stated.unique, fun equal => equal ▸ stated⟩, same ▸ all.length_eq, ?_,
    fun place heading found shown => ?_⟩
  · rw [document.anchors_eq, anchorsFrom_length, List.length_map]
  · have here := same ▸ found
    obtain ⟨home, listed, lodges⟩ := all.getElem? here
    obtain ⟨file, index, others, content, far, own, front, rfl, clean, loaded, expands, there, title, drawn, source,
      before⟩ := Lodges.returns (Path.isClean_clean path) loads opens here shown lodges
    have titled : ((outline whole).map Headline.title)[place]? = some heading.title := by
      rw [List.getElem?_map, here, Option.map_some]
    have titles : ((outline far).map Headline.title)[index]? = some heading.title := by
      rw [List.getElem?_map, there, Option.map_some, title]
    obtain ⟨anchor, its, given, kept, shared⟩ := anchorsFrom_shared titled titles before
    rw [← same, ← document.anchors_eq] at given shared
    refine ⟨⟨file, index⟩, anchor, listed, given, ?_⟩
    intro less earlier later other sound compiled
    -- A file expands to the same wherever it is included, so the page of the file has the headings met here.
    obtain ⟨_, again, rest, reloads, reopens, alike⟩ := compile_outline standard sound compiled
    rw [clean] at reloads reopens
    obtain rfl := loaded.unique reloads
    obtain rfl := expands.unique rfl reopens
    rw [← alike, ← other.anchors_eq] at kept
    rw [← alike] at there
    refine ⟨own, its, there, kept, title, drawn, (other.linked there kept drawn).id_mem, shared, fun unnamed => ?_⟩
    have link := document.linked found given shown
    rw [linkOf, page, source unnamed] at link
    exact link

namespace Sample

/-- A source with the same heading twice, included before another one. -/
def relay : Compiler :=
  files [("main.ss", "\\include[src=a.ss]\\h1\x7bA\x7d"), ("a.ss", "\\h1\x7bA\x7d\\h2\x7bA\x7d")]

/-- The same heading on a page and in a source that it includes after it. -/
def clash : Compiler := files [("main.ss", "\\h1\x7bA\x7d\\include[src=a.ss]"), ("a.ss", "\\h1\x7bA\x7d")]

/-- How many inclusions and headings there are. -/
def counts (nodes : List Node) : Nat × Nat := ((inclusionsOf nodes).length, (outline nodes).length)

/-- An inclusion at the front, with what is behind it. -/
def frontView (nodes : List Node) : Option (Bool × Bool × String × Nat × Nat) :=
  match nodes with
  | .command command :: rest =>
    some (Declaration.isInclusion command.declaration, command.hasAttribute "toc-only", address command, counts rest)
  | _ => none

theorem relay_page {nodes : List Node} (loads : relay.Loads "main.ss" nodes) :
    frontView nodes = some (true, false, "a.ss", 0, 1) := loads_seen loads (by decide +kernel) (by decide +kernel)

theorem relay_inner {nodes : List Node} (loads : relay.Loads "a.ss" nodes) : counts nodes = (0, 2) :=
  loads_seen loads (by decide +kernel) (by decide +kernel)

theorem homes_counted {compiler : Compiler} {path : String} {nodes : List Node} {count : Nat} (start : Nat)
    (seen : counts nodes = (0, count)) : compiler.Homes path start nodes (Home.row path start count) := by
  obtain ⟨none, same⟩ := Prod.mk.inj seen
  exact same ▸ homes_own compiler path start nodes (List.eq_nil_of_length_eq_zero none)

theorem relay_homes {nodes content : List Node} (loads : relay.Loads "main.ss" nodes)
    (inner : relay.Loads "a.ss" content) :
    relay.Homes "main.ss" 0 nodes [some ⟨"a.ss", 0⟩, some ⟨"a.ss", 1⟩, some ⟨"main.ss", 2⟩] := by
  have seen := relay_page loads
  unfold frontView at seen
  split at seen
  next command rest =>
    simp only [Option.some.injEq, Prod.mk.injEq] at seen
    obtain ⟨included, drawn, written, behind⟩ := seen
    have leads : target "main.ss" command = "a.ss" := by
      rw [target_eq, written]
      decide
    have later : relay.Homes "main.ss" 2 rest [some ⟨"main.ss", 2⟩] := homes_counted 2 behind
    have first : relay.Homes "a.ss" 0 content [some ⟨"a.ss", 0⟩, some ⟨"a.ss", 1⟩] :=
      homes_counted 0 (relay_inner inner)
    have ending : Path.ext "a.ss" = sourceExt := by decide
    rw [← leads] at first inner ending
    have whole := Homes.source included ending drawn inner first later
    rw [leads] at whole
    exact whole
  next => cases seen

/-- The headings of a page, with their anchors. -/
def headingsView (document : Document) : List Headline × List String := (headlines document.nodes, document.anchors)

/-- What is drawn of a page, with the ids in it. -/
def drawnView (document : Document) : Option String × List String :=
  ((Html.render document.drawn.1).toOption, ids document.drawn.1)

end Sample

theorem headings_linked_relay : Sample.relay.registry = Builtin.registry ∧ ∃ document other last final,
    outcome ((Sample.relay.within 5).compile "main.ss") {} = (.ok document, last) ∧
    outcome ((Sample.relay.within 5).compile "a.ss") {} = (.ok other, final) ∧
    document.anchors = ["A", "A1", "A2"] ∧ other.anchors = ["A", "A1"] ∧
    Linked document.drawn.1 "A1" "/a.html#A1" ∧ "A1" ∈ ids other.drawn.1 := by
  obtain ⟨document, last, run, seen⟩ := Sample.ok_of_view
    (show (outcome ((Sample.relay.within 5).compile "main.ss") {}).1.toOption.map Sample.headingsView =
      some ([⟨"A", true, true, some "a.ss"⟩, ⟨"A", true, true, some "a.ss"⟩, ⟨"A", true, true, none⟩],
        ["A", "A1", "A2"]) by decide +kernel)
  obtain ⟨other, final, again, alone⟩ := Sample.ok_of_view
    (show (outcome ((Sample.relay.within 5).compile "a.ss") {}).1.toOption.map Sample.headingsView =
      some ([⟨"A", true, true, none⟩, ⟨"A", true, true, none⟩], ["A", "A1"]) by decide +kernel)
  obtain ⟨headings, anchors⟩ := Prod.mk.inj seen
  obtain ⟨lines, ids⟩ := Prod.mk.inj alone
  obtain ⟨_, _, loads, own, _, _, linked⟩ :=
    headings_linked Sample.relay rfl 5 "main.ss" (faithful_empty _) run
  obtain ⟨_, content, _, inner, _⟩ := compile_outline rfl (faithful_empty _) again
  have main : Path.clean "main.ss" = "main.ss" := by decide +kernel
  have side : Path.clean "a.ss" = "a.ss" := by decide +kernel
  rw [main] at loads own linked
  rw [side] at inner
  obtain rfl := (own _).mp (Sample.relay_homes loads inner)
  obtain ⟨home, anchor, at_home, given, found⟩ := linked 1 ⟨"A", true, true, some "a.ss"⟩ (by rw [headings]; rfl) rfl
  obtain rfl := Option.some.inj (Option.some.inj at_home)
  rw [anchors] at given
  obtain rfl := Option.some.inj given
  obtain ⟨mine, its, line, kept, _, _, present, _, link⟩ := found 5 {} final other (faithful_empty _) again
  rw [lines] at line
  obtain rfl := Option.some.inj line
  rw [ids] at kept
  obtain rfl := Option.some.inj kept
  have address : pageUrl "a.ss" ++ "#" ++ "A1" = "/a.html#A1" := by decide +kernel
  exact ⟨rfl, document, other, last, final, run, again, anchors, ids, address ▸ link rfl, present⟩

/-- The second heading of the page links to an id that the page of its file does not have. -/
theorem headings_mislinked : ∃ document other last final,
    outcome (Sample.clash.compile "main.ss") {} = (.ok document, last) ∧
    outcome (Sample.clash.compile "a.ss") {} = (.ok other, final) ∧
    Sample.drawnView document = (some ("<h1 id=\"A\"><a href=\"/main.html#A\">A</a></h1>" ++
      "<h1 id=\"A1\"><a href=\"/a.html#A1\">A</a></h1>"), ["A", "A1"]) ∧
    Sample.drawnView other = (some "<h1 id=\"A\"><a href=\"/a.html#A\">A</a></h1>", ["A"]) := by
  obtain ⟨document, last, run, seen⟩ := Sample.ok_of_view
    (show (outcome (Sample.clash.compile "main.ss") {}).1.toOption.map Sample.drawnView =
      some (some ("<h1 id=\"A\"><a href=\"/main.html#A\">A</a></h1>" ++
        "<h1 id=\"A1\"><a href=\"/a.html#A1\">A</a></h1>"), ["A", "A1"]) by decide +kernel)
  obtain ⟨other, final, again, alone⟩ := Sample.ok_of_view
    (show (outcome (Sample.clash.compile "a.ss") {}).1.toOption.map Sample.drawnView =
      some (some "<h1 id=\"A\"><a href=\"/a.html#A\">A</a></h1>", ["A"]) by decide +kernel)
  exact ⟨document, other, last, final, run, again, seen, alone⟩

end Compiler

end Manuscript
