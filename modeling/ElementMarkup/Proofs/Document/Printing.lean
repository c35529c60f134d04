import ElementMarkup.Compile
import ElementMarkup.Proofs.Attribute
import ElementMarkup.Proofs.Document.Grammar
import ElementMarkup.Proofs.Document.Placement
import ElementMarkup.Proofs.Token.Printing

/-!
Documents in print. Every document whose names are words, whose elements are all closed and whose
attributes can stand in blocks has a source: reading what is printed gives the document back, up to
its positions. The printed source writes the tokens of a derivation, wherever it is put, and that
derivation means the document.
-/

namespace ElementMarkup

open Grammar

def Category.word : Category → String
  | .props => "props"
  | .dataset => "dataset"
  | .styles => "styles"
  | .classes => "classes"
  | .ids => "ids"
  | .content => "content"

def Category.all : List Category := [.props, .dataset, .styles, .classes, .ids, .content]

namespace Attributes

/-- Empty lists and absent content have no block, but empty content has an empty one. -/
def block? (attributes : Attributes) : Category → Option String
  | .props => unlessEmpty Attribute.printPairs attributes.props
  | .dataset => unlessEmpty Attribute.printPairs attributes.dataset
  | .styles => unlessEmpty Attribute.printPairs attributes.styles
  | .classes => unlessEmpty Attribute.printList attributes.classes
  | .ids => unlessEmpty Attribute.printList attributes.ids
  | .content => attributes.content.map Attribute.printContent
where
  unlessEmpty {α : Type} (print : List α → String) (items : List α) : Option String :=
    if items.isEmpty then none else some (print items)

def blocks (attributes : Attributes) : List (Category × String) :=
  Category.all.filterMap fun category => (attributes.block? category).map (category, ·)

end Attributes

def printBlock (block : Category × String) : List Char :=
  block.1.word.toList ++ ':' :: (Token.Enclosure.braces.print block.2 ++ [' '])

namespace Element

mutual

def print : Element → List Char
  | ⟨tag, attributes, _, children, _⟩ =>
    tag.toList ++ ':' :: ' ' :: (attributes.blocks.flatMap printBlock ++ (printAll children ++ [';']))

def printAll : List Element → List Char
  | [] => []
  | child :: rest => child.print ++ ' ' :: printAll rest

end

end Element

def Import.print (i : Import) : List Char :=
  "import".toList ++ ' ' :: (i.name.toList ++ ' ' :: ("from".toList ++
    ' ' :: (Token.Enclosure.quotes.print i.path ++ [';'])))

def Document.print (d : Document) : String :=
  String.ofList (d.imports.flatMap (fun i => i.print ++ ['\n']) ++
    d.elements.flatMap fun element => element.print ++ ['\n'])

/-- A word of ASCII letters and digits that is no keyword. -/
structure IsName (word : String) : Prop where
  nonempty : word ≠ ""
  plain : word.toList.all Char.isAlphanum = true
  tag : Token.Kind.ofWord word = .tag

/-- The pairs are those of some block, and no class or identifier holds a quote. -/
structure Attributes.Writable (attributes : Attributes) : Prop where
  props : ∃ text, Attribute.pairs text = attributes.props
  dataset : ∃ text, Attribute.pairs text = attributes.dataset
  styles : ∃ text, Attribute.pairs text = attributes.styles
  classes : ∀ entry ∈ attributes.classes, '"' ∉ entry.toList
  ids : ∀ entry ∈ attributes.ids, '"' ∉ entry.toList

inductive Element.Writable : Element → Prop where
  | element {tag : String} {attributes : Attributes} {children : List Element} {position : Int}
      (name : IsName tag) (blocks : attributes.Writable)
      (inside : ∀ child ∈ children, child.Writable) :
      Writable ⟨tag, attributes, true, children, position⟩

structure Document.Writable (d : Document) : Prop where
  imports : ∀ i ∈ d.imports, IsName i.name
  elements : ∀ element ∈ d.elements, element.Writable

def terminal (kind : Token.Kind) (value : String) : Terminal kind := ⟨⟨kind, value, 0⟩, rfl⟩

def blockTree (block : Category × String) : BlockTree :=
  ⟨block.1, terminal _ block.1.word, some (terminal .colon ":"), terminal .block block.2⟩

def bodyTree (blocks : List (Category × String)) (children : BodyTree) : BodyTree :=
  blocks.foldr (fun block rest => .block (blockTree block) rest) children

namespace Element

mutual

def tree : Element → ElementTree
  | ⟨tag, attributes, _, children, _⟩ =>
    .node (terminal .tag tag) (terminal .colon ":") (bodyTree attributes.blocks (trees children))
      (terminal .semicolon ";")

def trees : List Element → BodyTree
  | [] => .nil
  | child :: rest => .child child.tree (trees rest)

end

end Element

def Import.tree (i : Import) : ImportTree :=
  ⟨terminal .importing "import", terminal .tag i.name, terminal .origin "from",
    terminal .quoted i.path, terminal .semicolon ";"⟩

def Document.tree (d : Document) : ProgramTree :=
  ⟨d.imports.map fun i => .inr i.tree, d.elements.map fun element => .inr element.tree,
    terminal .finish "EOF"⟩

theorem Attributes.lookup_blocks (attributes : Attributes) (categories : List Category)
    (category : Category) :
    (categories.filterMap fun other => (attributes.block? other).map (other, ·)).lookup category =
      if category ∈ categories then attributes.block? category else none := by
  induction categories with
  | nil => rfl
  | cons first rest ih =>
    by_cases same : category = first
    · subst same
      cases found : attributes.block? category with
      | none => simp [found, ih]
      | some text => simp [found]
    · have different : (category == first) = false := by simpa using same
      cases found : attributes.block? first with
      | none => simp [found, ih, same]
      | some text => simp [found, ih, same, List.lookup_cons, different]

theorem Attributes.lastBlock_blocks (attributes : Attributes) :
    lastBlock attributes.blocks = attributes.block? := by
  funext category
  have listed : category ∈ Category.all.reverse := by cases category <;> decide
  rw [lastBlock, blocks, ← List.filterMap_reverse, lookup_blocks, if_pos listed]

theorem Attributes.block_elim {α : Type} {print : List α → String} {read : String → List α}
    {items : List α} (back : items ≠ [] → read (print items) = items) :
    (block?.unlessEmpty print items).elim [] read = items := by
  cases items with
  | nil => rfl
  | cons first rest => exact back (List.cons_ne_nil _ _)

theorem Attributes.Writable.read {attributes : Attributes} (writable : attributes.Writable) :
    Grammar.attributes attributes.block? = attributes := by
  have pairs : ∀ {items : List (String × String)}, (∃ text, Attribute.pairs text = items) →
      items ≠ [] → Attribute.pairs (Attribute.printPairs items) = items := by
    rintro items ⟨text, rfl⟩
    exact Attribute.pairs_printPairs text
  obtain ⟨props, dataset, styles, classes, ids, content⟩ := attributes
  have text : (content.map Attribute.printContent).map Attribute.content = content := by
    cases content with
    | none => rfl
    | some text => rw [Option.map_some, Option.map_some, Attribute.content_printContent]
  simp only [Grammar.attributes, block?, block_elim (pairs writable.props),
    block_elim (pairs writable.dataset), block_elim (pairs writable.styles),
    block_elim (Attribute.list_printList writable.classes),
    block_elim (Attribute.list_printList writable.ids), text]

theorem bodyTree_blocks (blocks : List (Category × String)) (children : BodyTree) :
    (bodyTree blocks children).blocks = blocks ++ children.blocks := by
  induction blocks with
  | nil => rfl
  | cons block rest ih => exact congrArg (block :: ·) ih

theorem bodyTree_children (blocks : List (Category × String)) (children : BodyTree) :
    (bodyTree blocks children).children = children.children := by
  induction blocks with
  | nil => rfl
  | cons block rest ih => exact ih

theorem bodyTree_tokens (blocks : List (Category × String)) (children : BodyTree) :
    (bodyTree blocks children).tokens =
      blocks.flatMap (fun block => (blockTree block).tokens) ++ children.tokens := by
  induction blocks with
  | nil => rfl
  | cons block rest ih =>
    rw [List.flatMap_cons, List.append_assoc, ← ih]
    rfl

namespace Element

theorem trees_blocks (elements : List Element) : (trees elements).blocks = [] := by
  induction elements with
  | nil => rfl
  | cons child rest ih => exact ih

theorem trees_children (elements : List Element) :
    (trees elements).children = elements.map fun element => element.tree.meaning := by
  induction elements with
  | nil => rfl
  | cons child rest ih => rw [trees, BodyTree.children, ih, List.map_cons]

theorem Writable.meaning {element : Element} (writable : element.Writable) :
    element.tree.meaning = element.move fun _ => 0 := by
  induction writable with
  | element name blocks inside ih =>
    rw [tree, ElementTree.meaning, bodyTree_blocks, trees_blocks, List.append_nil,
      Attributes.lastBlock_blocks, blocks.read, bodyTree_children, trees_children,
      List.map_congr_left ih, move_eq]
    rfl

end Element

theorem Document.Writable.meaning {d : Document} (writable : d.Writable) :
    d.tree.meaning = d.unplaced := by
  have imports : Strewn.trees (d.imports.map fun i => .inr i.tree) = d.imports.map Import.tree := by
    simp [Strewn.trees, List.filterMap_map, Function.comp_def]
  have elements : Strewn.trees (d.elements.map fun element => .inr element.tree) =
      d.elements.map Element.tree := by
    simp [Strewn.trees, List.filterMap_map, Function.comp_def]
  rw [Document.tree, ProgramTree.meaning, imports, elements, List.map_map, List.map_map,
    Document.unplaced, Document.move]
  congr 1
  exact List.map_congr_left fun element member => (writable.elements element member).meaning

/-! ### What a text writes -/

namespace Token

variable {wide : Bool} {text more value : List Char} {kind : Kind} {tokens others : List Token}

/-- Wherever a text stands, it divides into these tokens, up to their positions. -/
def Writes (wide : Bool) (text : List Char) (tokens : List Token) : Prop :=
  ∀ before after, ∃ spans, Split wide after before text spans ∧
    spans.map (fun span => span.token.move fun _ => 0) = tokens

theorem Writes.nil : Writes wide [] [] := fun before _ => ⟨[], .nil before, rfl⟩

theorem Writes.append (first : Writes wide text tokens) (second : Writes wide more others) :
    Writes wide (text ++ more) (tokens ++ others) := by
  intro before after
  obtain ⟨spans, split, rfl⟩ := first before (more ++ after)
  obtain ⟨next, rest, rfl⟩ := second (before ++ text) after
  exact ⟨spans ++ next, split.append rest, List.map_append⟩

theorem Writes.flatMap {α : Type} {items : List α} {print : α → List Char} {yield : α → List Token}
    (each : ∀ item ∈ items, Writes wide (print item) (yield item)) :
    Writes wide (items.flatMap print) (items.flatMap yield) := by
  induction items with
  | nil => exact .nil
  | cons item rest ih =>
    obtain ⟨first, later⟩ := List.forall_mem_cons.mp each
    rw [List.flatMap_cons, List.flatMap_cons]
    exact first.append (ih later)

theorem writes_space {c : Char} (blank : isSpace c = true) : Writes wide [c] [] := by
  intro before after
  exact ⟨[], .gap (.space blank) (.nil _), rfl⟩

theorem writes_token (spells : ∀ rest, Spells wide rest text kind value) :
    Writes wide text [⟨kind, String.ofList value, 0⟩] := by
  intro before after
  have split : Split wide after before (text ++ []) [⟨before.length, text, kind, value⟩] :=
    .token (spells _) (.nil _)
  rw [List.append_nil] at split
  exact ⟨_, split, rfl⟩

theorem writes_colon : Writes wide [':'] [⟨.colon, ":", 0⟩] := writes_token fun _ => .colon

theorem writes_semicolon : Writes wide [';'] [⟨.semicolon, ";", 0⟩] :=
  writes_token fun _ => .semicolon

/-- A word ends where something that cannot continue it follows. -/
theorem writes_word (word : String) (nonempty : word ≠ "")
    (plain : word.toList.all Char.isAlphanum = true) {stop : Char}
    (stops : isIdentifier wide stop = false) (rest : Writes wide (stop :: more) tokens) :
    Writes wide (word.toList ++ stop :: more) (⟨.ofWord word, word, 0⟩ :: tokens) := by
  intro before after
  obtain ⟨spans, split, rfl⟩ := rest (before ++ word.toList) after
  have spells : Spells wide (stop :: more ++ after) word.toList (.ofWord word) word.toList :=
    spells_word word nonempty plain (by simpa using stops)
  refine ⟨_, .token spells split, ?_⟩
  simp [Span.token, Token.move]

namespace Enclosure

theorem writes_print (e : Enclosure) (text : String) :
    Writes wide (e.print text) [⟨e.kind, text, 0⟩] := by
  have writes : Writes wide (e.print text) _ :=
    writes_token fun _ => .enclosed e (e.body_escape text.toList)
  rwa [String.ofList_toList] at writes

end Enclosure

end Token

section

open Token

variable {wide : Bool}

theorem Category.word_spec (category : Category) :
    category.word ≠ "" ∧ category.word.toList.all Char.isAlphanum = true ∧
      Kind.ofWord category.word = .keyword category := by
  cases category <;> decide

theorem writes_block (block : Category × String) :
    Writes wide (printBlock block) (blockTree block).tokens := by
  obtain ⟨nonempty, plain, keyword⟩ := block.1.word_spec
  have stops := isIdentifier_delimiter wide ':' (by decide)
  have written := writes_word block.1.word nonempty plain stops
    (writes_colon.append ((Enclosure.braces.writes_print block.2).append (writes_space (c := ' ') rfl)))
  rw [keyword] at written
  exact written

namespace Element

theorem writes_printAll {elements : List Element}
    (each : ∀ element ∈ elements, Writes wide element.print element.tree.tokens) :
    Writes wide (printAll elements) (trees elements).tokens := by
  induction elements with
  | nil => exact .nil
  | cons child rest ih =>
    obtain ⟨first, later⟩ := List.forall_mem_cons.mp each
    rw [printAll, trees, BodyTree.tokens]
    exact first.append ((writes_space (c := ' ') rfl).append (ih later))

theorem Writable.writes {element : Element} (writable : element.Writable) :
    Writes wide element.print element.tree.tokens := by
  induction writable with
  | @element tag attributes children position name blocks inside ih =>
    have body : Writes wide (attributes.blocks.flatMap printBlock ++ (printAll children ++ [';']))
        ((bodyTree attributes.blocks (trees children)).tokens ++ [⟨.semicolon, ";", 0⟩]) := by
      rw [bodyTree_tokens, List.append_assoc]
      exact (Writes.flatMap fun block _ => writes_block block).append
        ((writes_printAll ih).append writes_semicolon)
    have stops := isIdentifier_delimiter wide ':' (by decide)
    have written := writes_word tag name.nonempty name.plain stops
      (writes_colon.append ((writes_space (c := ' ') rfl).append body))
    rw [name.tag] at written
    exact written

end Element

theorem Import.writes {i : Import} (name : IsName i.name) : Writes wide i.print i.tree.tokens := by
  have stops := isIdentifier_delimiter wide ' ' (by decide)
  have space : Writes wide [' '] [] := writes_space rfl
  have path := space.append ((Enclosure.quotes.writes_print i.path).append writes_semicolon)
  have origin := writes_word "from" (by decide) (by decide) stops path
  have named := writes_word i.name name.nonempty name.plain stops (space.append origin)
  rw [name.tag] at named
  exact writes_word "import" (by decide) (by decide) stops (space.append named)

theorem Document.Writable.writes {d : Document} (writable : d.Writable) (wide : Bool) :
    Writes wide d.print.toList (Strewn.tokens ImportTree.tokens d.tree.imports ++
      Strewn.tokens ElementTree.tokens d.tree.elements) := by
  have line : Writes wide ['\n'] [] := writes_space rfl
  rw [Document.print, String.toList_ofList, Document.tree, Strewn.tokens, Strewn.tokens,
    List.flatMap_map, List.flatMap_map]
  refine (Writes.flatMap fun i member => ?_).append (Writes.flatMap fun element member => ?_)
  · simpa using (Import.writes (writable.imports i member)).append line
  · simpa using (writable.elements element member).writes.append line

end

namespace Compile

theorem document_print (wide : Bool) (width : Int) (d : Document) (writable : d.Writable)
    (nonempty : d.print ≠ "") :
    ∃ read, (document wide width d.print).1 = .ok read ∧ read.unplaced = d.unplaced := by
  obtain ⟨spans, split, written⟩ := writable.writes wide [] []
  have scanned := split.tokens nonempty
  have placed : (spans.map Token.Span.token ++ [Token.close d.print]).map (·.move fun _ => 0) =
      d.tree.tokens := by
    rw [List.map_append, List.map_map, ProgramTree.tokens, ← List.append_assoc, ← written]
    rfl
  have derived := Document.ofTokens_program d.tree []
  rw [List.append_nil, ← placed] at derived
  obtain ⟨read, parsed, same⟩ := Document.ofTokens_of_move _ derived
  refine ⟨read, ?_, same.trans writable.meaning⟩
  simp only [document, scanned, parsed]

/-- Commas, quotes, braces and backslashes where each of them would end or divide something. -/
def thorny : Document where
  imports := [⟨"Card", "a\\\"b\x7b,\\", 0⟩]
  elements :=
    [⟨"p",
      { props := [("k", "\"a,b\""), ("x\"y", "")]
        classes := ["", " ", "a,b"]
        ids := ["\x7b\\\x7d"]
        content := some "\\,\x7b--\x7d,\\" },
      true, [⟨"b", { content := some "" }, true, [], 3⟩], 0⟩]

theorem thorny_writable : thorny.Writable := by
  have empty : ∃ text, Attribute.pairs text = [] := ⟨"", by decide +kernel⟩
  have child : Element.Writable ⟨"b", { content := some "" }, true, [], 3⟩ :=
    .element ⟨by decide, by decide, by decide⟩ ⟨empty, empty, empty, by simp, by simp⟩ (by simp)
  refine ⟨?_, ?_⟩
  · rintro i member
    cases List.mem_singleton.mp member
    exact ⟨by decide, by decide, by decide⟩
  · rintro element member
    cases List.mem_singleton.mp member
    refine .element ⟨by decide, by decide, by decide⟩ ⟨⟨"k: \"a,b\" ,x\"y", ?_⟩, empty, empty, ?_, ?_⟩ ?_
    · decide +kernel
    · decide
    · decide
    · rintro inner inside
      cases List.mem_singleton.mp inside
      exact child

theorem thorny_printed :
    thorny.Writable ∧ thorny.print ≠ "" ∧
      ∃ read, (document true 40 thorny.print).1 = .ok read ∧ read.unplaced = thorny.unplaced := by
  have present : thorny.print ≠ "" := by decide +kernel
  exact ⟨thorny_writable, present, document_print true 40 thorny thorny_writable present⟩

end Compile

end ElementMarkup
