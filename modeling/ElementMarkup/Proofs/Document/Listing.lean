import ElementMarkup.Offset
import ElementMarkup.Proofs.Document.Concatenation

/-!
What a document keeps of its source. Its elements at every depth, each in front of those inside it,
are the tags of the source in their order, without those that name an import. Its imports are those
that the source states. So nothing is lost, doubled or put elsewhere, and each element says where in
the source its tag stands.
-/

namespace ElementMarkup

namespace Element

mutual

/-- An element and all the elements inside it, each in front of those inside it. -/
def listing : Element → List Element
  | ⟨tag, attributes, closed, children, position⟩ =>
    ⟨tag, attributes, closed, children, position⟩ :: listingAll children

def listingAll : List Element → List Element
  | [] => []
  | child :: rest => child.listing ++ listingAll rest

end

def label (e : Element) : String × Int := (e.tag, e.position)

end Element

namespace Token

def label (t : Token) : String × Int := (t.value, t.position)

/-- The tags that do not follow the word `import`; `named` says whether the first token follows it.
-/
def elementTags (named : Bool) : List Token → List Token
  | [] => []
  | t :: rest =>
    let later := elementTags (t.kind = .importing) rest
    if t.kind = .tag ∧ named = false then t :: later else later

def fromImports : List Token → List (List Token)
  | [] => []
  | t :: rest => if t.kind = .importing then (t :: rest) :: fromImports rest else fromImports rest

end Token

/-- The tokens start with a statement of the import, whose keyword gives the position. -/
def Import.StatedBy (i : Import) (tokens : List Token) : Prop :=
  ∃ keyword name origin path close rest, tokens = keyword :: name :: origin :: path :: close :: rest ∧
    keyword.kind = .importing ∧ name.kind = .tag ∧ origin.kind = .origin ∧ path.kind = .quoted ∧
    close.kind = .semicolon ∧ i = ⟨name.value, path.value, keyword.position⟩

namespace Token

variable {named : Bool} {t : Token} {rest : List Token}

theorem elementTags_import (importing : t.kind = .importing) :
    elementTags named (t :: rest) = elementTags true rest := by
  simp [elementTags, importing]

theorem elementTags_name (tag : t.kind = .tag) :
    elementTags true (t :: rest) = elementTags false rest := by
  simp [elementTags, tag]

theorem elementTags_tag (tag : t.kind = .tag) :
    elementTags false (t :: rest) = t :: elementTags false rest := by
  simp [elementTags, tag]

theorem elementTags_other {kind : Kind} (is : t.kind = kind) (other : kind ≠ .tag := by simp)
    (plain : kind ≠ .importing := by simp) :
    elementTags named (t :: rest) = elementTags false rest := by
  simp [elementTags, is, other, plain]

theorem mem_of_elementTags {ts : List Token} (member : t ∈ elementTags named ts) :
    t ∈ ts ∧ t.kind = .tag := by
  induction ts generalizing named with
  | nil => cases member
  | cons first rest ih =>
    rw [elementTags] at member
    split at member
    · rename_i taken
      rcases List.mem_cons.mp member with rfl | later
      · exact ⟨List.mem_cons_self .., taken.1⟩
      · exact ⟨List.mem_cons_of_mem _ (ih later).1, (ih later).2⟩
    · exact ⟨List.mem_cons_of_mem _ (ih member).1, (ih member).2⟩

theorem fromImports_eq_nil {ts : List Token} (none : ∀ t ∈ ts, t.kind ≠ .importing) :
    fromImports ts = [] := by
  induction ts with
  | nil => rfl
  | cons t rest ih =>
    obtain ⟨other, later⟩ := List.forall_mem_cons.mp none
    rw [fromImports, if_neg other, ih later]

end Token

namespace Grammar

open Token

theorem BlockTree.elementTags (tree : BlockTree) (rest : List Token) :
    Token.elementTags false (tree.tokens ++ rest) = Token.elementTags false rest := by
  obtain ⟨category, ⟨keyword, word⟩, colon, ⟨block, enclosed⟩⟩ := tree
  have ends : Token.elementTags false (block :: rest) = Token.elementTags false rest :=
    elementTags_other enclosed
  rw [BlockTree.tokens, List.cons_append, elementTags_other word]
  cases colon with
  | none => exact ends
  | some colon =>
    obtain ⟨colon, parts⟩ := colon
    exact (elementTags_other parts).trans ends

mutual

theorem ElementTree.listing : ∀ (tree : ElementTree) (rest : List Token),
    (elementTags false (tree.tokens ++ rest)).map label =
      tree.meaning.listing.map Element.label ++ (elementTags false rest).map label
  | .node ⟨tag, word⟩ ⟨colon, parts⟩ body ⟨close, ends⟩, rest => by
    rw [ElementTree.tokens, List.cons_append, List.cons_append, List.append_assoc, elementTags_tag word,
      elementTags_other parts, List.map_cons, BodyTree.listing body, List.singleton_append,
      elementTags_other ends]
    rfl

theorem BodyTree.listing : ∀ (body : BodyTree) (rest : List Token),
    (elementTags false (body.tokens ++ rest)).map label =
      (Element.listingAll body.children).map Element.label ++ (elementTags false rest).map label
  | .nil, rest => rfl
  | .child first body, rest => by
    rw [BodyTree.tokens, List.append_assoc, ElementTree.listing first, BodyTree.listing body,
      BodyTree.children, Element.listingAll, List.map_append, List.append_assoc]
  | .block first body, rest => by
    rw [BodyTree.tokens, List.append_assoc, BlockTree.elementTags, BodyTree.listing body,
      BodyTree.children]

end

mutual

theorem ElementTree.all_closed : ∀ (tree : ElementTree), ∀ e ∈ tree.meaning.listing, e.closed = true
  | .node tag colon body close => by
    rw [ElementTree.meaning, Element.listing]
    exact List.forall_mem_cons.mpr ⟨rfl, BodyTree.all_closed body⟩

theorem BodyTree.all_closed : ∀ (body : BodyTree), ∀ e ∈ Element.listingAll body.children, e.closed = true
  | .nil => by simp [BodyTree.children, Element.listingAll]
  | .child first body => by
    rw [BodyTree.children, Element.listingAll]
    exact List.forall_mem_append.mpr ⟨ElementTree.all_closed first, BodyTree.all_closed body⟩
  | .block first body => BodyTree.all_closed body

end

mutual

theorem ElementTree.no_import : ∀ (tree : ElementTree), ∀ t ∈ tree.tokens, t.kind ≠ .importing
  | .node ⟨tag, word⟩ ⟨colon, parts⟩ body ⟨close, ends⟩ => by
    have inside := BodyTree.no_import body
    rw [ElementTree.tokens]
    refine List.forall_mem_cons.mpr ⟨by simp [word], List.forall_mem_cons.mpr ⟨by simp [parts], ?_⟩⟩
    exact List.forall_mem_append.mpr ⟨inside, by simp [ends]⟩

theorem BodyTree.no_import : ∀ (body : BodyTree), ∀ t ∈ body.tokens, t.kind ≠ .importing
  | .nil => by simp [BodyTree.tokens]
  | .child first body => by
    rw [BodyTree.tokens]
    exact List.forall_mem_append.mpr ⟨ElementTree.no_import first, BodyTree.no_import body⟩
  | .block ⟨category, ⟨keyword, word⟩, colon, ⟨block, enclosed⟩⟩ body => by
    have inside := BodyTree.no_import body
    rw [BodyTree.tokens, BlockTree.tokens]
    refine List.forall_mem_append.mpr ⟨List.forall_mem_cons.mpr ⟨by simp [word], ?_⟩, inside⟩
    refine List.forall_mem_append.mpr ⟨?_, by simp [enclosed]⟩
    intro t member
    obtain ⟨parting, -, rfl⟩ := List.mem_map.mp member
    simp [parting.property]

end

theorem strewn_elements_listing (items : Strewn ElementTree) (rest : List Token) :
    (elementTags false (Strewn.tokens ElementTree.tokens items ++ rest)).map label =
      (Element.listingAll ((Strewn.trees items).map ElementTree.meaning)).map Element.label ++
        (elementTags false rest).map label := by
  induction items with
  | nil => rfl
  | cons item items ih =>
    cases item with
    | inl stray =>
      rw [Strewn.tokens_stray, List.cons_append, Strewn.trees_stray, ← ih,
        elementTags_other stray.property]
    | inr tree =>
      rw [Strewn.tokens_tree, List.append_assoc, tree.listing, ih, Strewn.trees_tree, List.map_cons,
        Element.listingAll, List.map_append, List.append_assoc]

theorem strewn_elements_closed (items : Strewn ElementTree) :
    ∀ e ∈ Element.listingAll ((Strewn.trees items).map ElementTree.meaning), e.closed = true := by
  induction Strewn.trees items with
  | nil => simp [Element.listingAll]
  | cons tree trees ih =>
    rw [List.map_cons, Element.listingAll]
    exact List.forall_mem_append.mpr ⟨tree.all_closed, ih⟩

theorem strewn_elements_no_import (items : Strewn ElementTree) :
    ∀ t ∈ Strewn.tokens ElementTree.tokens items, t.kind ≠ .importing := by
  intro t member
  obtain ⟨item, -, inside⟩ := List.mem_flatMap.mp member
  cases item with
  | inl stray =>
    obtain rfl := List.mem_singleton.mp inside
    simp [stray.property]
  | inr tree => exact tree.no_import t inside

/-- The one tag of an import statement follows its keyword. -/
theorem ImportTree.elementTags (tree : ImportTree) (named : Bool) (rest : List Token) :
    Token.elementTags named (tree.tokens ++ rest) = Token.elementTags false rest := by
  obtain ⟨⟨keyword, importing⟩, ⟨name, tag⟩, ⟨origin, word⟩, ⟨path, quoted⟩, ⟨close, ends⟩⟩ := tree
  simp only [ImportTree.tokens, List.cons_append, List.nil_append]
  rw [elementTags_import importing, elementTags_name tag, elementTags_other word,
    elementTags_other quoted, elementTags_other ends]

theorem strewn_imports_elementTags (items : Strewn ImportTree) (rest : List Token) :
    elementTags false (Strewn.tokens ImportTree.tokens items ++ rest) = elementTags false rest := by
  induction items with
  | nil => rfl
  | cons item items ih =>
    cases item with
    | inl stray =>
      rw [Strewn.tokens_stray, List.cons_append, ← ih, elementTags_other stray.property]
    | inr tree => rw [Strewn.tokens_tree, List.append_assoc, tree.elementTags, ih]

theorem ImportTree.fromImports (tree : ImportTree) (rest : List Token) :
    Token.fromImports (tree.tokens ++ rest) = (tree.tokens ++ rest) :: Token.fromImports rest := by
  obtain ⟨⟨keyword, importing⟩, ⟨name, tag⟩, ⟨origin, word⟩, ⟨path, quoted⟩, ⟨close, ends⟩⟩ := tree
  simp [ImportTree.tokens, Token.fromImports, importing, tag, word, quoted, ends]

theorem ImportTree.stated (tree : ImportTree) (rest : List Token) :
    tree.meaning.StatedBy (tree.tokens ++ rest) :=
  ⟨_, _, _, _, _, rest, rfl, tree.keyword.property, tree.name.property, tree.origin.property,
    tree.path.property, tree.close.property, rfl⟩

theorem strewn_imports_stated (items : Strewn ImportTree) {rest : List Token}
    (none : fromImports rest = []) :
    List.Forall₂ Import.StatedBy ((Strewn.trees items).map ImportTree.meaning)
      (fromImports (Strewn.tokens ImportTree.tokens items ++ rest)) := by
  induction items with
  | nil =>
    rw [Strewn.tokens_nil, List.nil_append, none]
    exact .nil
  | cons item items ih =>
    cases item with
    | inl stray =>
      have other : stray.val.kind ≠ .importing := by simp [stray.property]
      rw [Strewn.tokens_stray, List.cons_append, fromImports, if_neg other]
      exact ih
    | inr tree =>
      rw [Strewn.tokens_tree, List.append_assoc, tree.fromImports, Strewn.trees_tree, List.map_cons]
      exact .cons (tree.stated _) ih

end Grammar

/-! ### Where tags stand -/

namespace Token

theorem Split.spelled {wide : Bool} {after before text : List Char} {spans : List Span}
    (split : Split wide after before text spans) :
    ∀ span ∈ spans, ∃ front back, before ++ text = front ++ span.text ++ back ∧
      span.start = front.length ∧ Spells wide (back ++ after) span.text span.kind span.value := by
  induction split with
  | nil => simp
  | gap blank tail ih => simpa using ih
  | @token before lexeme text value kind spans spells tail ih =>
    refine List.forall_mem_cons.mpr ⟨⟨before, text, by simp, rfl, spells⟩, ?_⟩
    simpa using ih

theorem Spells.tag {wide : Bool} {rest text value : List Char} {kind : Kind}
    (spells : Spells wide rest text kind value) (tag : kind = .tag) :
    text = value ∧ value ≠ [] ∧ Kind.ofWord (String.ofList value) = .tag := by
  cases spells with
  | word nonempty inside stops => exact ⟨rfl, nonempty, tag⟩
  | enclosed e => cases e <;> cases tag
  | _ => cases tag

/-- The value of a tag is the word that stands at its position. -/
theorem tag_stands {wide : Bool} {source : String} {ts : List Token} {t : Token}
    (scanned : tokens wide source = .ok ts) (member : t ∈ ts) (tag : t.kind = .tag) :
    t.value ≠ "" ∧ Kind.ofWord t.value = .tag ∧
      ∃ front back, source.toList = front ++ t.value.toList ++ back ∧ t.position = front.length := by
  obtain ⟨-, spans, split, rfl⟩ := split_of_tokens scanned
  rcases List.mem_append.mp member with inside | last
  · obtain ⟨span, listed, rfl⟩ := List.mem_map.mp inside
    obtain ⟨front, back, parts, start, spells⟩ := split.spelled span listed
    obtain ⟨same, nonempty, word⟩ := spells.tag tag
    refine ⟨by simpa [Span.token] using nonempty, word, front, back, ?_, congrArg Nat.cast start⟩
    rw [same] at parts
    simpa [Span.token] using parts
  · obtain rfl := List.mem_singleton.mp last
    cases tag

end Token

theorem Offset.cut_middle {α : Type} (front middle back : List α) :
    Offset.cut (front ++ middle ++ back) front.length (front.length + middle.length) = middle := by
  rw [← Int.natCast_add, Offset.cut_natCast, ← List.length_append, List.take_left, List.drop_left]

/-- What the elements and imports of a document are among the tokens of its source. -/
structure Document.Keeps (source : String) (ts : List Token) (d : Document) : Prop where
  elements : (Element.listingAll d.elements).map Element.label =
    (Token.elementTags false ts).map Token.label
  imports : List.Forall₂ Import.StatedBy d.imports (Token.fromImports ts)
  closed : ∀ e ∈ Element.listingAll d.elements, e.closed = true
  tags : ∀ e ∈ Element.listingAll d.elements, e.tag ≠ "" ∧ Token.Kind.ofWord e.tag = .tag ∧
    0 ≤ e.position ∧ Offset.cut source.toList e.position (e.position + e.tag.length) = e.tag.toList
  early : ∀ i ∈ d.imports, ∀ e ∈ Element.listingAll d.elements, i.position < e.position

namespace Document

open Grammar

theorem tags_stand {wide : Bool} {source : String} {ts : List Token} {elements : List Element}
    (scanned : Token.tokens wide source = .ok ts)
    (listed : (Element.listingAll elements).map Element.label =
      (Token.elementTags false ts).map Token.label) :
    ∀ e ∈ Element.listingAll elements, e.tag ≠ "" ∧ Token.Kind.ofWord e.tag = .tag ∧
      0 ≤ e.position ∧
      Offset.cut source.toList e.position (e.position + e.tag.length) = e.tag.toList := by
  intro e member
  have labelled : e.label ∈ (Token.elementTags false ts).map Token.label :=
    listed ▸ List.mem_map_of_mem member
  obtain ⟨t, taken, same⟩ := List.mem_map.mp labelled
  obtain ⟨value, position⟩ := Prod.mk.inj same
  obtain ⟨inside, tag⟩ := Token.mem_of_elementTags taken
  obtain ⟨nonempty, word, front, back, parts, start⟩ := Token.tag_stands scanned inside tag
  rw [← value, ← position]
  refine ⟨nonempty, word, by omega, ?_⟩
  rw [parts, start, ← String.length_toList]
  exact Offset.cut_middle front t.value.toList back

/-- The keywords of the imports stand in front of the tags of the elements. -/
theorem imports_early {tree : ProgramTree}
    (ordered : (tree.tokens.map Token.position).Pairwise (· < ·)) :
    ∀ i ∈ tree.meaning.imports, ∀ e ∈ Element.listingAll tree.meaning.elements,
      i.position < e.position := by
  obtain ⟨imports, elements, finish⟩ := tree
  rw [ProgramTree.tokens, List.map_append, List.pairwise_append] at ordered
  obtain ⟨-, -, across⟩ := ordered
  intro i stated e member
  obtain ⟨statement, listed, rfl⟩ := List.mem_map.mp stated
  obtain ⟨item, among, found⟩ := List.mem_filterMap.mp listed
  obtain rfl := Sum.getRight?_eq_some_iff.mp found
  have keyword : statement.keyword.val ∈ Strewn.tokens ImportTree.tokens imports :=
    List.mem_flatMap.mpr ⟨_, among, List.mem_cons_self ..⟩
  have labelled : e.label ∈ (Token.elementTags false
      (Strewn.tokens ElementTree.tokens elements ++ [finish.val])).map Token.label := by
    rw [strewn_elements_listing]
    exact List.mem_append_left _ (List.mem_map_of_mem member)
  obtain ⟨t, taken, same⟩ := List.mem_map.mp labelled
  obtain ⟨-, position⟩ := Prod.mk.inj same
  rw [← position]
  exact across _ (List.mem_map_of_mem keyword) _
    (List.mem_map_of_mem (Token.mem_of_elementTags taken).1)

end Document

/-- A source that is read whole is kept: its elements are its tags, and its imports its statements,
in order and in place. -/
theorem Compile.document_keeps_source (wide : Bool) (width : Int) (source : String) (d : Document)
    (read : (document wide width source).1 = .ok d) :
    ∃ ts, Token.tokens wide source = .ok ts ∧ d.Keeps source ts := by
  obtain ⟨ts, scanned, parsed⟩ := document_eq_ok read
  refine ⟨ts, scanned, ?_⟩
  obtain ⟨tree, rest, rfl⟩ := Document.derivation_of_ofTokens parsed
  obtain rfl := (Token.tokens_ended scanned).rest_eq_nil
  rw [Document.ofTokens_program] at parsed
  obtain rfl := Except.ok.inj parsed
  rw [List.append_nil] at scanned ⊢
  obtain ⟨imports, elements, finish⟩ := tree
  have nothing : Token.elementTags false [finish.val] = [] := by
    rw [Token.elementTags_other finish.property]
    rfl
  have listed := Grammar.strewn_elements_listing elements [finish.val]
  rw [nothing, List.map_nil, List.append_nil, ← Grammar.strewn_imports_elementTags imports] at listed
  have stateless : Token.fromImports
      (Grammar.Strewn.tokens Grammar.ElementTree.tokens elements ++ [finish.val]) = [] := by
    refine Token.fromImports_eq_nil (List.forall_mem_append.mpr ⟨?_, by simp [finish.property]⟩)
    exact Grammar.strewn_elements_no_import elements
  exact {
    elements := listed.symm
    imports := Grammar.strewn_imports_stated imports stateless
    closed := Grammar.strewn_elements_closed elements
    tags := Document.tags_stand scanned listed.symm
    early := Document.imports_early (Token.positions_increase scanned) }

/-- Children between two blocks of one category, and an import's name as a tag at two depths. -/
def nestedSource : String := ";import N from \"n\";p:ids\x7ba\x7d N:; b: N:;; ids:\x7bb\x7d;"

def nestedDocument : Document where
  imports := [⟨"N", "n", 1⟩]
  elements := [⟨"p", { ids := ["b"] }, true,
    [⟨"N", {}, true, [], 28⟩, ⟨"b", {}, true, [⟨"N", {}, true, [], 35⟩], 32⟩], 19⟩]

theorem Compile.nested_document_kept :
    (document false 40 nestedSource).1 = .ok nestedDocument ∧
      ∃ ts, Token.tokens false nestedSource = .ok ts ∧ nestedDocument.Keeps nestedSource ts := by
  have scanned : Token.tokens false nestedSource =
      .ok [⟨.semicolon, ";", 0⟩, ⟨.importing, "import", 1⟩, ⟨.tag, "N", 8⟩, ⟨.origin, "from", 10⟩,
        ⟨.quoted, "n", 15⟩, ⟨.semicolon, ";", 18⟩, ⟨.tag, "p", 19⟩, ⟨.colon, ":", 20⟩,
        ⟨.keyword .ids, "ids", 21⟩, ⟨.block, "a", 24⟩, ⟨.tag, "N", 28⟩, ⟨.colon, ":", 29⟩,
        ⟨.semicolon, ";", 30⟩, ⟨.tag, "b", 32⟩, ⟨.colon, ":", 33⟩, ⟨.tag, "N", 35⟩, ⟨.colon, ":", 36⟩,
        ⟨.semicolon, ";", 37⟩, ⟨.semicolon, ";", 38⟩, ⟨.keyword .ids, "ids", 40⟩, ⟨.colon, ":", 43⟩,
        ⟨.block, "b", 44⟩, ⟨.semicolon, ";", 47⟩, ⟨.finish, "EOF", 48⟩] := by
    decide +kernel
  have read : (document false 40 nestedSource).1 = .ok nestedDocument := by
    rw [document, scanned]
    rfl
  exact ⟨read, document_keeps_source false 40 nestedSource nestedDocument read⟩

end ElementMarkup
