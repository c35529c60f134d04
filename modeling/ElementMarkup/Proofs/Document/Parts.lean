import Mathlib.Logic.Relation
import ElementMarkup.Document.Cursor
import ElementMarkup.Proofs.Document.Earliest
import ElementMarkup.Proofs.Html

/-!
What an element is made of. Of its body only the children in their order and the last block of each
category matter, and nothing inside the children is seen outside them. So blocks may move past
children and past blocks of other categories, a block that is replaced later may be dropped, and the
colon after a keyword may stand or not, at any depth: the element is the same but for its positions,
and so is its HTML.
-/

namespace ElementMarkup

def Element.unplaced (e : Element) : Element := e.move fun _ => 0

theorem Element.unplaced_eq_iff {e f : Element} :
    e.unplaced = f.unplaced ↔ e.tag = f.tag ∧ e.attributes = f.attributes ∧ e.closed = f.closed ∧
      e.children.map Element.unplaced = f.children.map Element.unplaced := by
  simp only [Element.unplaced, Element.move_eq, Element.mk.injEq, and_true]
  rfl

theorem Element.html_eq_of_unplaced {e f : Element} (same : e.unplaced = f.unplaced)
    (components : Components) : e.html components = f.html components := by
  rw [← e.html_move components fun _ => 0, ← f.html_move components fun _ => 0]
  exact congrArg (Element.html components) same

namespace Document

open Grammar

section

variable {s next last : State} {index : Int} {t : Token} {tokens : List Token}

theorem readUntil_step {α : Type} {asked : State → Option α} (unfinished : asked s = none)
    (stepped : step s index t = .ok next) (rest : List Token) :
    readUntil asked s index (t :: rest) = readUntil asked next (index + 1) rest := by
  conv_lhs => unfold readUntil
  simp only [unfinished, stepped]

theorem readUntil_finished {α : Type} {asked : State → Option α} {value : α}
    (finished : asked s = some value) (index : Int) (tokens : List Token) :
    readUntil asked s index tokens = (.ok value, index) := by
  unfold readUntil
  simp only [finished]

theorem takes_of_offEnd (off : (read s index tokens).stop = some .offEnd) :
    Takes s index tokens (read s index tokens).state := by
  obtain ⟨before, after, last, stop, rfl, takes, halts, run⟩ := takes_of_read s index tokens
  rw [run] at off ⊢
  cases halts with
  | offEnd => simpa using takes
  | done | refused => cases off

theorem step_elements (stepped : step s index t = .ok next) (empty : next.document.elements = []) :
    s.document.elements = [] := by
  obtain ⟨document, phase⟩ := s
  cases phase with
  | between =>
    simp only [step] at stepped
    split at stepped
    · split at stepped
      · cases stepped
        exact empty
      · cases stepped
    · cases stepped
      exact empty
    · unfold enter at stepped
      split at stepped
      · cases stepped
        exact empty
      · cases stepped
  | inside inner outer due =>
    cases due with
    | item =>
      simp only [step] at stepped
      split at stepped
      · cases stepped
        cases outer with
        | nil => simp [State.finish] at empty
        | cons parent outer => exact empty
      · rename_i tag
        simp only [enter, tag, if_true, Except.map] at stepped
        cases stepped
        exact empty
      · cases stepped
        exact empty
      · cases stepped
    | _ =>
      simp only [step] at stepped
      split at stepped
      all_goals cases stepped
      all_goals exact empty
  | _ =>
    simp only [step] at stepped
    split at stepped
    · cases stepped
      exact empty
    · cases stepped

theorem Takes.no_elements (takes : Takes s index tokens last) (empty : last.document.elements = []) :
    s.document.elements = [] := by
  induction takes with
  | nil => exact empty
  | cons stepped _ ih => exact step_elements stepped (ih empty)

/-- While no element is finished, reading up to the first one goes on. -/
theorem Takes.readUntil (takes : Takes s index tokens last) (empty : last.document.elements = [])
    (rest : List Token) :
    Document.readUntil (fun s => s.document.elements.head?) s index (tokens ++ rest) =
      Document.readUntil (fun s => s.document.elements.head?) last (index + tokens.length) rest := by
  induction takes with
  | nil s index => simp
  | @cons s next last index t tokens stepped later ih =>
    have unfinished : s.document.elements.head? = none := by
      rw [step_elements stepped (later.no_elements empty), List.head?_nil]
    rw [List.cons_append, readUntil_step unfinished stepped, ih empty]
    congr 1
    simp only [List.length_cons]
    omega

end

theorem takes_body (body : BodyTree) (document : Document) (inner : Element) (outer : List Element)
    (index : Int) :
    Takes ⟨document, .inside inner outer .item⟩ index body.tokens
      ⟨document, .inside (body.grow inner) outer .item⟩ := by
  have run : read ⟨document, .inside inner outer .item⟩ index body.tokens =
      ⟨⟨document, .inside (body.grow inner) outer .item⟩, index + body.tokens.length, some .offEnd⟩ := by
    rw [← List.append_nil body.tokens, read_body, read, List.append_nil]
  have off := congrArg Run.stop run
  have takes := takes_of_offEnd off
  rwa [run] at takes

/-- Where a derivation comes next, its meaning is read, and the cursor stands behind it. -/
theorem Cursor.element_of_tree (tree : ElementTree) {c : Cursor} {rest : List Token}
    (ahead : c.upcoming = tree.tokens ++ rest) :
    c.element.outcome = .ok tree.meaning ∧
      c.element.cursor = c.seek (c.index + tree.tokens.length) := by
  obtain ⟨tag, colon, body, close⟩ := tree
  have entered : enter [] c.index tag.val = .ok (.inside (opened tag) [] .colon) := by
    simp [enter, tag.property, opened]
  have inside : Takes ⟨{}, .inside (opened tag) [] .colon⟩ (c.index + 1) (colon.val :: body.tokens)
      ⟨{}, .inside (body.grow (opened tag)) [] .item⟩ :=
    .cons (step_colon colon) (takes_body body {} (opened tag) [] _)
  have tokens : c.upcoming = tag.val :: (colon.val :: body.tokens ++ close.val :: rest) := by
    rw [ahead]
    simp [ElementTree.tokens]
  have result : readUntil (fun s => s.document.elements.head?) ⟨{}, .inside (opened tag) [] .colon⟩
      (c.index + 1) (colon.val :: body.tokens ++ close.val :: rest) =
        (.ok (ElementTree.node tag colon body close).meaning,
          c.index + (ElementTree.node tag colon body close).tokens.length) := by
    rw [inside.readUntil rfl, readUntil_step rfl (step_close close), State.finish,
      grow_opened tag colon body close]
    refine (readUntil_finished (by rfl) _ _).trans ?_
    congr 1
    simp only [ElementTree.tokens, List.length_cons, List.length_append, List.length_nil]
    omega
  simp only [Cursor.element, Cursor.piece, tokens, entered, Except.map, result, and_self]

end Document

namespace Grammar

open Document

/-! ### Bodies that do the same to an element -/

/-- Whatever has been read before them, the bodies make the same of it, but for positions. -/
def BodyTree.Alike (body other : BodyTree) : Prop :=
  ∀ inner : Element, (body.grow inner).unplaced = (other.grow inner).unplaced

section

variable {body other rest : BodyTree} {inner inner' : Element}

theorem BodyTree.grow_unplaced (body : BodyTree) (same : inner.unplaced = inner'.unplaced) :
    (body.grow inner).unplaced = (body.grow inner').unplaced := by
  obtain ⟨tag, attributes, closed, children⟩ := Element.unplaced_eq_iff.mp same
  refine Element.unplaced_eq_iff.mpr ⟨tag, ?_, closed, ?_⟩
  · simp only [BodyTree.grow, attributes]
  · simp only [BodyTree.grow, List.map_append, children]

theorem BodyTree.grow_child (child : ElementTree) (rest : BodyTree) (inner : Element) :
    (BodyTree.child child rest).grow inner =
      rest.grow { inner with children := inner.children ++ [child.meaning] } := by
  simp [BodyTree.grow, BodyTree.blocks, BodyTree.children]

theorem BodyTree.grow_block (block : BlockTree) (rest : BodyTree) (inner : Element) :
    (BodyTree.block block rest).grow inner =
      rest.grow { inner with attributes := inner.attributes.set block.category block.block.val.value } :=
  rfl

theorem set_comm (attributes : Attributes) {first second : Category} (different : first ≠ second)
    (text more : String) :
    (attributes.set first text).set second more = (attributes.set second more).set first text := by
  cases first <;> cases second <;> first | rfl | exact absurd rfl different

theorem set_again (attributes : Attributes) (category : Category) (text more : String) :
    (attributes.set category text).set category more = attributes.set category more := by
  cases category <;> rfl

/-- A block does nothing if a later one has its category. -/
theorem foldl_set_overridden {blocks : List (Category × String)} {category : Category}
    (later : category ∈ blocks.map Prod.fst) (attributes : Attributes) (text : String) :
    blocks.foldl (fun set block => set.set block.1 block.2) (attributes.set category text) =
      blocks.foldl (fun set block => set.set block.1 block.2) attributes := by
  induction blocks generalizing attributes with
  | nil => cases later
  | cons block blocks ih =>
    rw [List.foldl_cons, List.foldl_cons]
    by_cases same : category = block.1
    · rw [same, set_again]
    · rw [set_comm attributes same, ih]
      simpa [same] using later

/-- Bodies with the same tokens in other places are read alike, since the reader does not look at
positions. -/
theorem BodyTree.alike_of_tokens
    (same : body.tokens.map (·.move fun _ => 0) = other.tokens.map (·.move fun _ => 0)) :
    body.Alike other := by
  intro inner
  have moved : ∀ tree : BodyTree, Document.read (State.move (fun _ => 0) ⟨{}, .inside inner [] .item⟩) 0
      (tree.tokens.map (·.move fun _ => 0)) =
        ⟨⟨{}, .inside (tree.grow inner).unplaced [] .item⟩, tree.tokens.length, some .offEnd⟩ := by
    intro tree
    have run := (takes_body tree {} inner [] 0).read []
    rw [List.append_nil] at run
    rw [read_move, run, Document.read, Int.zero_add]
    rfl
  have states := (moved body).symm.trans ((congrArg _ same).trans (moved other))
  have phases := congrArg (fun run => run.state.phase) states
  exact (Phase.inside.inj phases).1

/-- One change to a body, or to a body anywhere inside it. -/
inductive Rearranged : BodyTree → BodyTree → Prop where
  /-- A block moves past a child. -/
  | pastChild (block : BlockTree) (child : ElementTree) (rest : BodyTree) :
      Rearranged (.block block (.child child rest)) (.child child (.block block rest))
  /-- A block moves past a block of another category. -/
  | pastBlock {first second : BlockTree} (different : first.category ≠ second.category)
      (rest : BodyTree) :
      Rearranged (.block first (.block second rest)) (.block second (.block first rest))
  /-- A block is dropped that a later one replaces. -/
  | overridden {block : BlockTree} {rest : BodyTree}
      (later : block.category ∈ rest.blocks.map Prod.fst) : Rearranged (.block block rest) rest
  /-- The colon after a keyword is put in or left out. -/
  | colon {category : Category} (keyword : Terminal (.keyword category))
      (colon other : Option (Terminal .colon)) (block : Terminal .block) (rest : BodyTree) :
      Rearranged (.block ⟨category, keyword, colon, block⟩ rest)
        (.block ⟨category, keyword, other, block⟩ rest)
  /-- The same tokens stand elsewhere. -/
  | placed {body other : BodyTree}
      (same : body.tokens.map (·.move fun _ => 0) = other.tokens.map (·.move fun _ => 0)) :
      Rearranged body other
  | afterChild {rest other : BodyTree} (child : ElementTree) (later : Rearranged rest other) :
      Rearranged (.child child rest) (.child child other)
  | afterBlock {rest other : BodyTree} (block : BlockTree) (later : Rearranged rest other) :
      Rearranged (.block block rest) (.block block other)
  | inside {body other : BodyTree} (tag : Terminal .tag) (colon : Terminal .colon)
      (close : Terminal .semicolon) (within : Rearranged body other) (rest : BodyTree) :
      Rearranged (.child (.node tag colon body close) rest) (.child (.node tag colon other close) rest)

theorem BodyTree.Alike.meaning {tag tag' : Terminal .tag} (colon colon' : Terminal .colon)
    (close close' : Terminal .semicolon) (alike : body.Alike other)
    (same : tag.val.value = tag'.val.value) :
    (ElementTree.node tag colon body close).meaning.unplaced =
      (ElementTree.node tag' colon' other close').meaning.unplaced := by
  have start : (opened tag).unplaced = (opened tag').unplaced :=
    Element.unplaced_eq_iff.mpr ⟨same, rfl, rfl, rfl⟩
  have grown := (alike (opened tag)).trans (other.grow_unplaced start)
  obtain ⟨tags, attributes, -, children⟩ := Element.unplaced_eq_iff.mp grown
  rw [← grow_opened tag colon body close, ← grow_opened tag' colon' other close']
  exact Element.unplaced_eq_iff.mpr ⟨tags, attributes, rfl, children⟩

theorem Rearranged.alike (change : Rearranged body other) : body.Alike other := by
  induction change with
  | pastChild block child rest =>
    intro inner
    rw [BodyTree.grow_block, BodyTree.grow_child, BodyTree.grow_child, BodyTree.grow_block]
  | pastBlock different rest =>
    intro inner
    rw [BodyTree.grow_block, BodyTree.grow_block, BodyTree.grow_block, BodyTree.grow_block,
      set_comm _ different]
  | overridden later =>
    intro inner
    rw [BodyTree.grow_block, BodyTree.grow, foldl_set_overridden later]
    rfl
  | colon => exact fun inner => rfl
  | placed same => exact BodyTree.alike_of_tokens same
  | afterChild child _ ih =>
    intro inner
    rw [BodyTree.grow_child, BodyTree.grow_child]
    exact ih _
  | afterBlock block _ ih =>
    intro inner
    -- the rest goes on from what the block has made of the element, not from where the body started
    rw [BodyTree.grow_block, BodyTree.grow_block]
    exact ih _
  | @inside body other tag colon close _ rest ih =>
    intro inner
    rw [BodyTree.grow_child, BodyTree.grow_child]
    refine rest.grow_unplaced (Element.unplaced_eq_iff.mpr ⟨rfl, rfl, rfl, ?_⟩)
    rw [List.map_append, List.map_append, List.map_singleton, List.map_singleton,
      ih.meaning colon colon close close rfl]

theorem alike_of_rearrangements (changes : Relation.EqvGen Rearranged body other) :
    body.Alike other := by
  induction changes with
  | rel body other change => exact change.alike
  | refl body => exact fun inner => rfl
  | symm body other _ ih => exact fun inner => (ih inner).symm
  | trans body middle other _ _ first second => exact fun inner => (first inner).trans (second inner)

end

/-! ### Bodies with the same parts -/

def BodyTree.childTrees : BodyTree → List ElementTree
  | .nil => []
  | .child first rest => first :: rest.childTrees
  | .block _ rest => rest.childTrees

theorem BodyTree.children_eq : ∀ body : BodyTree,
    body.children = body.childTrees.map ElementTree.meaning
  | .nil => rfl
  | .child first rest => by
    rw [BodyTree.children, BodyTree.childTrees, List.map_cons, BodyTree.children_eq rest]
  | .block _ rest => BodyTree.children_eq rest

end Grammar

namespace Document

open Grammar

def firstElement? (tokens : List Token) : Option Element :=
  ({ tokens } : Cursor).element.outcome.toOption

theorem firstElement?_tree (tree : ElementTree) : firstElement? tree.tokens = some tree.meaning := by
  have ahead : ({ tokens := tree.tokens } : Cursor).upcoming = tree.tokens ++ [] := by
    simp [Cursor.upcoming, Offset.upcoming?]
  rw [firstElement?, (Cursor.element_of_tree tree ahead).1]
  rfl

/-- The children are read to the same elements, and the last blocks of each category have the same
text. -/
structure SameParts (body other : BodyTree) : Prop where
  children : body.childTrees.map (fun child => (firstElement? child.tokens).map Element.unplaced) =
    other.childTrees.map fun child => (firstElement? child.tokens).map Element.unplaced
  blocks : ∀ category, lastBlock body.blocks category = lastBlock other.blocks category

/-- Wherever they come next, both are read, to the same but for positions and to the same HTML. -/
def ReadAlike (one two : ElementTree) : Prop :=
  ∀ (c d : Cursor) (rest more : List Token), c.upcoming = one.tokens ++ rest →
    d.upcoming = two.tokens ++ more →
    ∃ e f, c.element.outcome = .ok e ∧ d.element.outcome = .ok f ∧ e.unplaced = f.unplaced ∧
      ∀ components, e.html components = f.html components

section

variable {body other : BodyTree} {tag tag' : Terminal .tag}

theorem readAlike_of_meaning {one two : ElementTree} (same : one.meaning.unplaced = two.meaning.unplaced) :
    ReadAlike one two := by
  intro c d rest more ahead aheadToo
  exact ⟨_, _, (Cursor.element_of_tree one ahead).1, (Cursor.element_of_tree two aheadToo).1, same,
    Element.html_eq_of_unplaced same⟩

theorem SameParts.children_unplaced (parts : SameParts body other) :
    body.children.map Element.unplaced = other.children.map Element.unplaced := by
  have each : ∀ tree : BodyTree,
      tree.childTrees.map (fun child => (firstElement? child.tokens).map Element.unplaced) =
        (tree.children.map Element.unplaced).map some := by
    intro tree
    rw [tree.children_eq, List.map_map, List.map_map]
    apply List.map_congr_left
    intro child _
    rw [firstElement?_tree]
    rfl
  have same := parts.children
  rw [each, each] at same
  exact List.map_injective_iff.mpr (fun _ _ => Option.some.inj) same

theorem SameParts.meaning (parts : SameParts body other) (colon colon' : Terminal .colon)
    (close close' : Terminal .semicolon) (same : tag.val.value = tag'.val.value) :
    (ElementTree.node tag colon body close).meaning.unplaced =
      (ElementTree.node tag' colon' other close').meaning.unplaced := by
  refine Element.unplaced_eq_iff.mpr ⟨same, ?_, rfl, parts.children_unplaced⟩
  exact congrArg attributes (funext parts.blocks)

end

/-- An element is determined by its tag, its children in order and the last block of each category.
-/
theorem element_depends_on_parts (tag tag' : Terminal .tag) (colon colon' : Terminal .colon)
    (body other : BodyTree) (close close' : Terminal .semicolon)
    (same : tag.val.value = tag'.val.value) :
    (SameParts body other →
      ReadAlike (.node tag colon body close) (.node tag' colon' other close')) ∧
    (Relation.EqvGen Rearranged body other →
      ReadAlike (.node tag colon body close) (.node tag' colon' other close')) := by
  constructor
  · intro parts
    exact readAlike_of_meaning (parts.meaning colon colon' close close' same)
  · intro changes
    have alike := alike_of_rearrangements changes
    exact readAlike_of_meaning (alike.meaning colon colon' close close' same)

/-! A body that has a block of identifiers, a child, a block of classes and another block of
identifiers, and the body that is left when the first block is dropped and the others stand in front. -/

def childAt (position : Int) : ElementTree :=
  .node ⟨⟨.tag, "N", position⟩, rfl⟩ ⟨⟨.colon, ":", position + 1⟩, rfl⟩ .nil
    ⟨⟨.semicolon, ";", position + 2⟩, rfl⟩

def classesAt (position : Int) : BlockTree :=
  ⟨.classes, ⟨⟨.keyword .classes, "classes", position⟩, rfl⟩, none, ⟨⟨.block, "k", position + 7⟩, rfl⟩⟩

def idsAt (position : Int) (colon : Option (Terminal .colon)) (text : String) : BlockTree :=
  ⟨.ids, ⟨⟨.keyword .ids, "ids", position⟩, rfl⟩, colon, ⟨⟨.block, text, position + 4⟩, rfl⟩⟩

def laterIds : BlockTree := idsAt 22 (some ⟨⟨.colon, ":", 25⟩, rfl⟩) "b, \"c\""

def spread : BodyTree :=
  .block (idsAt 2 none "a") (.child (childAt 9) (.block (classesAt 12) (.block laterIds .nil)))

def gathered : BodyTree :=
  .block (idsAt 2 none "b, \"c\"") (.block (classesAt 14) (.child (childAt 24) .nil))

theorem spread_gathered_read_alike :
    SameParts spread gathered ∧ Relation.EqvGen Rearranged spread gathered ∧
      ReadAlike (.node ⟨⟨.tag, "p", 0⟩, rfl⟩ ⟨⟨.colon, ":", 1⟩, rfl⟩ spread ⟨⟨.semicolon, ";", 36⟩, rfl⟩)
        (.node ⟨⟨.tag, "p", 0⟩, rfl⟩ ⟨⟨.colon, ":", 1⟩, rfl⟩ gathered ⟨⟨.semicolon, ";", 27⟩, rfl⟩) := by
  have parts : SameParts spread gathered := by
    refine ⟨rfl, ?_⟩
    intro category
    cases category <;> rfl
  have changes : Relation.EqvGen Rearranged spread gathered := by
    have dropped : Rearranged spread (.child (childAt 9) (.block (classesAt 12) (.block laterIds .nil))) :=
      .overridden (by decide)
    have swapped : Rearranged (.child (childAt 9) (.block (classesAt 12) (.block laterIds .nil)))
        (.child (childAt 9) (.block laterIds (.block (classesAt 12) .nil))) :=
      .afterChild _ (.pastBlock (by decide) .nil)
    have fronted : Rearranged (.block laterIds (.child (childAt 9) (.block (classesAt 12) .nil)))
        (.child (childAt 9) (.block laterIds (.block (classesAt 12) .nil))) :=
      .pastChild laterIds (childAt 9) _
    have both : Rearranged (.block laterIds (.block (classesAt 12) (.child (childAt 9) .nil)))
        (.block laterIds (.child (childAt 9) (.block (classesAt 12) .nil))) :=
      .afterBlock laterIds (.pastChild (classesAt 12) (childAt 9) .nil)
    have uncoloned : Rearranged (.block laterIds (.block (classesAt 12) (.child (childAt 9) .nil)))
        (.block (idsAt 22 none "b, \"c\"") (.block (classesAt 12) (.child (childAt 9) .nil))) :=
      .colon _ _ none _ _
    have moved : Rearranged (.block (idsAt 22 none "b, \"c\"") (.block (classesAt 12)
        (.child (childAt 9) .nil))) gathered :=
      .placed rfl
    exact .trans _ _ _ (.rel _ _ dropped) (.trans _ _ _ (.rel _ _ swapped)
      (.trans _ _ _ (.symm _ _ (.rel _ _ fronted)) (.trans _ _ _ (.symm _ _ (.rel _ _ both))
        (.trans _ _ _ (.rel _ _ uncoloned) (.rel _ _ moved)))))
  obtain ⟨fromParts, -⟩ := element_depends_on_parts ⟨⟨.tag, "p", 0⟩, rfl⟩ ⟨⟨.tag, "p", 0⟩, rfl⟩
    ⟨⟨.colon, ":", 1⟩, rfl⟩ ⟨⟨.colon, ":", 1⟩, rfl⟩ spread gathered ⟨⟨.semicolon, ";", 36⟩, rfl⟩
    ⟨⟨.semicolon, ";", 27⟩, rfl⟩ rfl
  exact ⟨parts, changes, fromParts parts⟩

end Document

end ElementMarkup
