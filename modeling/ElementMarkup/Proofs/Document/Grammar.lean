import ElementMarkup.Document.Reader

/-!
The grammar of documents, apart from the reader. A derivation is a tree over tokens of the right
kinds; it yields a token list and means a document. The reader accepts exactly the lists that
derivations yield, and answers what they mean.
-/

namespace ElementMarkup

namespace Grammar

abbrev Terminal (kind : Token.Kind) := { t : Token // t.kind = kind }

structure BlockTree where
  category : Category
  keyword : Terminal (.keyword category)
  colon : Option (Terminal .colon)
  block : Terminal .block

mutual

inductive ElementTree where
  | node (tag : Terminal .tag) (colon : Terminal .colon) (body : BodyTree)
      (close : Terminal .semicolon)

/-- Elements and attribute blocks in any order. -/
inductive BodyTree where
  | nil
  | child (first : ElementTree) (rest : BodyTree)
  | block (first : BlockTree) (rest : BodyTree)

end

structure ImportTree where
  keyword : Terminal .importing
  name : Terminal .tag
  origin : Terminal .origin
  path : Terminal .quoted
  close : Terminal .semicolon

/-- Trees with stray semicolons among them. -/
abbrev Strewn (α : Type) := List (Terminal .semicolon ⊕ α)

/-- Imports and then elements, up to the end of the source. -/
structure ProgramTree where
  imports : Strewn ImportTree
  elements : Strewn ElementTree
  finish : Terminal .finish

def BlockTree.tokens (tree : BlockTree) : List Token :=
  tree.keyword.val :: (tree.colon.toList.map Subtype.val ++ [tree.block.val])

mutual

def ElementTree.tokens : ElementTree → List Token
  | .node tag colon body close => tag.val :: colon.val :: (body.tokens ++ [close.val])

def BodyTree.tokens : BodyTree → List Token
  | .nil => []
  | .child first rest => first.tokens ++ rest.tokens
  | .block first rest => first.tokens ++ rest.tokens

end

def ImportTree.tokens (tree : ImportTree) : List Token :=
  [tree.keyword.val, tree.name.val, tree.origin.val, tree.path.val, tree.close.val]

def Strewn.tokens {α : Type} (yield : α → List Token) (items : Strewn α) : List Token :=
  items.flatMap (Sum.elim (fun stray => [stray.val]) yield)

def ProgramTree.tokens (tree : ProgramTree) : List Token :=
  Strewn.tokens ImportTree.tokens tree.imports ++
    (Strewn.tokens ElementTree.tokens tree.elements ++ [tree.finish.val])

def attributes (last : Category → Option String) : Attributes where
  props := (last .props).elim [] Attribute.pairs
  dataset := (last .dataset).elim [] Attribute.pairs
  styles := (last .styles).elim [] Attribute.pairs
  classes := (last .classes).elim [] Attribute.list
  ids := (last .ids).elim [] Attribute.list
  content := (last .content).map Attribute.content

/-- The blocks of a body itself, in order; those of its children are not among them. -/
def BodyTree.blocks : BodyTree → List (Category × String)
  | .nil => []
  | .child _ rest => rest.blocks
  | .block first rest => (first.category, first.block.val.value) :: rest.blocks

def lastBlock (blocks : List (Category × String)) (category : Category) : Option String :=
  blocks.reverse.lookup category

mutual

def ElementTree.meaning : ElementTree → Element
  | .node tag _ body _ =>
    { tag := tag.val.value
      attributes := attributes (lastBlock body.blocks)
      closed := true
      children := body.children
      position := tag.val.position }

def BodyTree.children : BodyTree → List Element
  | .nil => []
  | .child first rest => first.meaning :: rest.children
  | .block _ rest => rest.children

end

def BodyTree.grow (body : BodyTree) (element : Element) : Element :=
  { element with
    attributes := body.blocks.foldl (fun set block => set.set block.1 block.2) element.attributes
    children := element.children ++ body.children }

def ImportTree.meaning (tree : ImportTree) : Import :=
  ⟨tree.name.val.value, tree.path.val.value, tree.keyword.val.position⟩

def Strewn.trees {α : Type} (items : Strewn α) : List α := items.filterMap Sum.getRight?

def ProgramTree.meaning (tree : ProgramTree) : Document where
  imports := (Strewn.trees tree.imports).map ImportTree.meaning
  elements := (Strewn.trees tree.elements).map ElementTree.meaning

namespace Strewn

variable {α : Type} {yield : α → List Token}

@[simp] theorem tokens_nil : tokens yield [] = [] := rfl

@[simp] theorem tokens_stray (stray : Terminal .semicolon) (items : Strewn α) :
    tokens yield (.inl stray :: items) = stray.val :: tokens yield items := rfl

@[simp] theorem tokens_tree (tree : α) (items : Strewn α) :
    tokens yield (.inr tree :: items) = yield tree ++ tokens yield items := rfl

@[simp] theorem trees_nil : trees ([] : Strewn α) = [] := rfl

@[simp] theorem trees_stray (stray : Terminal .semicolon) (items : Strewn α) :
    trees (.inl stray :: items) = trees items := rfl

@[simp] theorem trees_tree (tree : α) (items : Strewn α) :
    trees (.inr tree :: items) = tree :: trees items := rfl

end Strewn

theorem attributes_set (last : Category → Option String) (category : Category) (text : String) :
    (attributes last).set category text =
      attributes fun other => if other = category then some text else last other := by
  cases category <;> rfl

theorem lastBlock_cons (category : Category) (text : String) (rest : List (Category × String))
    (other : Category) :
    lastBlock ((category, text) :: rest) other =
      (lastBlock rest other).or (if other = category then some text else none) := by
  rw [lastBlock, lastBlock, List.reverse_cons, List.lookup_append]
  by_cases same : other = category
  · simp [same]
  · have different : (other == category) = false := by simpa using same
    simp [List.lookup_cons, same, different]

/-- Setting blocks one after the other leaves the last of each category. -/
theorem foldl_set (blocks : List (Category × String)) (last : Category → Option String) :
    blocks.foldl (fun set block => set.set block.1 block.2) (attributes last) =
      attributes fun category => (lastBlock blocks category).or (last category) := by
  induction blocks generalizing last with
  | nil => rfl
  | cons block rest ih =>
    rw [List.foldl_cons, attributes_set, ih]
    congr 1
    funext other
    rw [lastBlock_cons, Option.or_assoc]
    by_cases same : other = block.1 <;> simp [same]

theorem BodyTree.nil_grow (element : Element) : BodyTree.nil.grow element = element := by
  obtain ⟨tag, set, closed, children, position⟩ := element
  simp [BodyTree.grow, BodyTree.blocks, BodyTree.children]

theorem foldl_set_blocks (blocks : List (Category × String)) :
    blocks.foldl (fun set block => set.set block.1 block.2) {} = attributes (lastBlock blocks) := by
  have none : attributes (fun _ => none) = {} := rfl
  rw [← none, foldl_set]
  simp only [Option.or_none]

end Grammar

namespace Document

open Grammar

variable {s next : State} {document : Document} {phase : Phase} {inner : Element}
  {outer : List Element} {index : Int} {t : Token} {tokens rest : List Token}

theorem step_ne_finish (stepped : step s index t = .ok next) : t.kind ≠ .finish := by
  intro ends
  obtain ⟨document, phase⟩ := s
  cases phase with
  | inside inner outer due => cases due <;> simp [step, ends] at stepped
  | between => simp [step, enter, ends, Except.map] at stepped
  | _ => simp [step, ends] at stepped

theorem read_step (stepped : step s index t = .ok next) (rest : List Token) :
    read s index (t :: rest) = read next (index + 1) rest := by
  have goesOn : ¬ (s.atTop = true ∧ t.kind = .finish) := fun ends => step_ne_finish stepped ends.2
  rw [read, if_neg goesOn, stepped]

theorem read_accepts (inside : s.atTop = false) (accepted : (read s index tokens).stop = none) :
    ∃ t rest next, tokens = t :: rest ∧ step s index t = .ok next ∧
      (read next (index + 1) rest).stop = none := by
  cases tokens with
  | nil => cases accepted
  | cons t rest =>
    cases stepped : step s index t with
    | error fault => simp [read, inside, stepped] at accepted
    | ok next =>
      rw [read_step stepped] at accepted
      exact ⟨t, rest, next, rfl, stepped, accepted⟩

def Phase.room : Phase → Option (List Element)
  | .between => some []
  | .inside inner outer .item => some (inner :: outer)
  | _ => none

def opened (tag : Terminal .tag) : Element := { tag := tag.val.value, position := tag.val.position }

theorem step_tag (room : phase.room = some outer) (tag : Terminal .tag) :
    step ⟨document, phase⟩ index tag.val = .ok ⟨document, .inside (opened tag) outer .colon⟩ := by
  obtain ⟨t, kind⟩ := tag
  cases phase with
  | between =>
    cases room
    simp [step, enter, kind, Except.map, opened]
  | inside inner around due =>
    cases due with
    | item =>
      cases room
      simp [step, enter, kind, Except.map, opened]
    | _ => cases room
  | _ => cases room

theorem step_colon (colon : Terminal .colon) :
    step ⟨document, .inside inner outer .colon⟩ index colon.val =
      .ok ⟨document, .inside inner outer .item⟩ := by
  simp [step, colon.property]

theorem step_close (close : Terminal .semicolon) :
    step ⟨document, .inside inner outer .item⟩ index close.val =
      .ok (State.finish ⟨document, .inside inner outer .item⟩ { inner with closed := true } outer) := by
  simp [step, close.property]

theorem step_keyword {category : Category} (keyword : Terminal (.keyword category)) :
    step ⟨document, .inside inner outer .item⟩ index keyword.val =
      .ok ⟨document, .inside inner outer (.blockOrColon category)⟩ := by
  simp [step, keyword.property]

theorem step_stray (stray : Terminal .semicolon) :
    step ⟨document, .between⟩ index stray.val = .ok ⟨document, .between⟩ := by
  simp [step, stray.property]

/-! ### Derivations are read to their meanings -/

theorem read_block (tree : BlockTree) (rest : List Token) :
    read ⟨document, .inside inner outer .item⟩ index (tree.tokens ++ rest) =
      read ⟨document, .inside
          { inner with attributes := inner.attributes.set tree.category tree.block.val.value } outer .item⟩
        (index + tree.tokens.length) rest := by
  obtain ⟨category, keyword, colon, block⟩ := tree
  rw [BlockTree.tokens, List.cons_append, read_step (step_keyword keyword)]
  cases colon with
  | none =>
    have taken : step ⟨document, .inside inner outer (.blockOrColon category)⟩ (index + 1) block.val =
        .ok ⟨document, .inside
          { inner with attributes := inner.attributes.set category block.val.value } outer .item⟩ := by
      simp [step, block.property]
    simp only [Option.toList_none, List.map_nil, List.nil_append, List.cons_append]
    rw [read_step taken]
    congr 1
    simp
    omega
  | some colon =>
    have parted : step ⟨document, .inside inner outer (.blockOrColon category)⟩ (index + 1) colon.val =
        .ok ⟨document, .inside inner outer (.block category)⟩ := by
      simp [step, colon.property]
    have taken : step ⟨document, .inside inner outer (.block category)⟩ (index + 1 + 1) block.val =
        .ok ⟨document, .inside
          { inner with attributes := inner.attributes.set category block.val.value } outer .item⟩ := by
      simp [step, block.property]
    simp only [Option.toList_some, List.map_cons, List.map_nil, List.cons_append, List.nil_append]
    rw [read_step parted, read_step taken]
    congr 1
    simp
    omega

/-- The meaning of an element is what it has grown to when its body ends. -/
theorem grow_opened (tag : Terminal .tag) (colon : Terminal .colon) (body : BodyTree)
    (close : Terminal .semicolon) :
    ({ body.grow (opened tag) with closed := true } : Element) =
      (ElementTree.node tag colon body close).meaning := by
  simp [BodyTree.grow, opened, ElementTree.meaning, foldl_set_blocks]

mutual

theorem read_element : ∀ (tree : ElementTree) {document : Document} {phase : Phase}
    {outer : List Element} {index : Int} (_ : phase.room = some outer) (rest : List Token),
    read ⟨document, phase⟩ index (tree.tokens ++ rest) =
      read (State.finish ⟨document, phase⟩ tree.meaning outer) (index + tree.tokens.length) rest
  | .node tag colon body close, document, phase, outer, index, room, rest => by
    rw [ElementTree.tokens, List.cons_append, List.cons_append, read_step (step_tag room tag),
      read_step (step_colon colon), List.append_assoc, read_body body, List.singleton_append,
      read_step (step_close close), grow_opened tag colon body close]
    congr 1
    simp
    omega

theorem read_body : ∀ (body : BodyTree) {document : Document} {inner : Element}
    {outer : List Element} {index : Int} (rest : List Token),
    read ⟨document, .inside inner outer .item⟩ index (body.tokens ++ rest) =
      read ⟨document, .inside (body.grow inner) outer .item⟩ (index + body.tokens.length) rest
  | .nil, document, inner, outer, index, rest => by simp [BodyTree.tokens, BodyTree.nil_grow]
  | .child first body, document, inner, outer, index, rest => by
    rw [BodyTree.tokens, List.append_assoc, read_element first rfl, State.finish, read_body body]
    congr 1
    · simp [BodyTree.grow, BodyTree.blocks, BodyTree.children]
    · simp
      omega
  | .block first body, document, inner, outer, index, rest => by
    rw [BodyTree.tokens, List.append_assoc, read_block first, read_body body]
    congr 1
    simp
    omega

end

theorem read_import (empty : document.elements = []) (tree : ImportTree) (rest : List Token) :
    read ⟨document, .between⟩ index (tree.tokens ++ rest) =
      read ⟨{ document with imports := document.imports ++ [tree.meaning] }, .between⟩
        (index + tree.tokens.length) rest := by
  obtain ⟨⟨keyword, importing⟩, ⟨name, tag⟩, ⟨origin, word⟩, ⟨path, quoted⟩, ⟨close, semicolon⟩⟩ := tree
  have begins : step ⟨document, .between⟩ index keyword =
      .ok ⟨document, .importName keyword.position⟩ := by
    simp [step, importing, empty]
  have named : step ⟨document, .importName keyword.position⟩ (index + 1) name =
      .ok ⟨document, .importOrigin keyword.position name.value⟩ := by
    simp [step, tag]
  have parted : step ⟨document, .importOrigin keyword.position name.value⟩ (index + 1 + 1) origin =
      .ok ⟨document, .importPath keyword.position name.value⟩ := by
    simp [step, word]
  have located : step ⟨document, .importPath keyword.position name.value⟩ (index + 1 + 1 + 1) path =
      .ok ⟨document, .importEnd keyword.position name.value path.value⟩ := by
    simp [step, quoted]
  have closed : step ⟨document, .importEnd keyword.position name.value path.value⟩
      (index + 1 + 1 + 1 + 1) close =
      .ok ⟨{ document with
        imports := document.imports ++ [⟨name.value, path.value, keyword.position⟩] }, .between⟩ := by
    simp [step, semicolon, State.addImport]
  simp only [ImportTree.tokens, ImportTree.meaning, List.cons_append, List.nil_append]
  rw [read_step begins, read_step named, read_step parted, read_step located, read_step closed]
  congr 1
  simp
  omega

/-- Trees that are each read are read one after the other, past the stray semicolons. -/
theorem read_strewn {α : Type} {yield : α → List Token} (add : Document → α → Document)
    (ready : Document → Prop) (kept : ∀ document tree, ready document → ready (add document tree))
    (one : ∀ {document : Document} {index : Int} (tree : α) (rest : List Token), ready document →
      read ⟨document, .between⟩ index (yield tree ++ rest) =
        read ⟨add document tree, .between⟩ (index + (yield tree).length) rest)
    (items : Strewn α) (start : ready document) (rest : List Token) :
    read ⟨document, .between⟩ index (Strewn.tokens yield items ++ rest) =
      read ⟨(Strewn.trees items).foldl add document, .between⟩
        (index + (Strewn.tokens yield items).length) rest := by
  induction items generalizing document index with
  | nil => simp
  | cons first items ih =>
    cases first with
    | inl stray =>
      rw [Strewn.tokens_stray, List.cons_append, read_step (step_stray stray), ih start,
        Strewn.trees_stray]
      congr 1
      simp
      omega
    | inr tree =>
      rw [Strewn.tokens_tree, List.append_assoc, one tree _ start, ih (kept document tree start),
        Strewn.trees_tree, List.foldl_cons]
      congr 1
      simp
      omega

def withImport (document : Document) (tree : ImportTree) : Document :=
  { document with imports := document.imports ++ [tree.meaning] }

def withElement (document : Document) (tree : ElementTree) : Document :=
  { document with elements := document.elements ++ [tree.meaning] }

theorem foldl_withImport (trees : List ImportTree) (document : Document) :
    trees.foldl withImport document =
      { document with imports := document.imports ++ trees.map ImportTree.meaning } := by
  induction trees generalizing document with
  | nil => simp
  | cons tree trees ih => simp [ih, withImport]

theorem foldl_withElement (trees : List ElementTree) (document : Document) :
    trees.foldl withElement document =
      { document with elements := document.elements ++ trees.map ElementTree.meaning } := by
  induction trees generalizing document with
  | nil => simp
  | cons tree trees ih => simp [ih, withElement]

theorem read_imports (imports : Strewn ImportTree) (empty : document.elements = [])
    (rest : List Token) :
    read ⟨document, .between⟩ index (Strewn.tokens ImportTree.tokens imports ++ rest) =
      read ⟨{ document with
          imports := document.imports ++ (Strewn.trees imports).map ImportTree.meaning }, .between⟩
        (index + (Strewn.tokens ImportTree.tokens imports).length) rest := by
  rw [← foldl_withImport]
  exact read_strewn withImport (fun d => d.elements = []) (fun _ _ still => still)
    (fun tree rest still => read_import still tree rest) imports empty rest

theorem read_elements (elements : Strewn ElementTree) (rest : List Token) :
    read ⟨document, .between⟩ index (Strewn.tokens ElementTree.tokens elements ++ rest) =
      read ⟨{ document with
          elements := document.elements ++ (Strewn.trees elements).map ElementTree.meaning }, .between⟩
        (index + (Strewn.tokens ElementTree.tokens elements).length) rest := by
  rw [← foldl_withElement]
  exact read_strewn withElement (fun _ => True) (fun _ _ still => still)
    (fun tree rest _ => by rw [read_element tree rfl, State.finish, withElement]) elements trivial rest

theorem ofTokens_program (tree : ProgramTree) (rest : List Token) :
    ofTokens (tree.tokens ++ rest) = .ok tree.meaning := by
  obtain ⟨imports, elements, finish⟩ := tree
  have empty : ({} : Document).elements = [] := rfl
  rw [ofTokens, ProgramTree.tokens, List.append_assoc, List.append_assoc, List.singleton_append,
    read_imports imports empty, read_elements elements, read, if_pos ⟨rfl, finish.property⟩]
  rfl

/-! ### What is read has a derivation -/

/-- Where one kind of token is due, a list that is read starts with a token of that kind. -/
theorem terminal_of_read {kind : Token.Kind} {after : Token → State} {fault : Token → Fault}
    (inside : s.atTop = false)
    (due : ∀ t, step s index t = if t.kind = kind then .ok (after t) else .error (fault t))
    (accepted : (read s index tokens).stop = none) :
    ∃ (t : Terminal kind) (rest : List Token), tokens = t.val :: rest ∧
      (read (after t.val) (index + 1) rest).stop = none := by
  obtain ⟨t, rest, next, rfl, stepped, more⟩ := read_accepts inside accepted
  rw [due] at stepped
  split at stepped
  · rename_i same
    cases stepped
    exact ⟨⟨t, same⟩, rest, rfl, more⟩
  · cases stepped

theorem block_of_read {category : Category}
    (accepted : (read ⟨document, .inside inner outer (.blockOrColon category)⟩ index tokens).stop = none) :
    ∃ (colon : Option (Terminal .colon)) (block : Terminal .block) (rest : List Token),
      tokens = colon.toList.map Subtype.val ++ [block.val] ++ rest := by
  obtain ⟨t, rest, next, rfl, stepped, after⟩ := read_accepts rfl accepted
  simp only [step] at stepped
  split at stepped
  · rename_i colon
    cases stepped
    obtain ⟨block, rest, rfl, -⟩ := terminal_of_read rfl (fun _ => rfl) after
    exact ⟨some ⟨t, colon⟩, block, rest, rfl⟩
  · rename_i kind
    exact ⟨none, ⟨t, kind⟩, rest, rfl⟩
  · cases stepped

/-- After each item the phase is the same with less to read: the induction is on the number of
tokens. -/
theorem body_of_read (accepted : (read ⟨document, .inside inner outer .item⟩ index tokens).stop = none) :
    ∃ (body : BodyTree) (close : Terminal .semicolon) (rest : List Token),
      tokens = body.tokens ++ close.val :: rest := by
  induction size : tokens.length using Nat.strongRecOn generalizing tokens document inner outer index with
  | ind size ih =>
    subst size
    obtain ⟨t, rest, next, rfl, stepped, after⟩ := read_accepts rfl accepted
    simp only [step] at stepped
    split at stepped
    · rename_i kind
      exact ⟨.nil, ⟨t, kind⟩, rest, rfl⟩
    · rename_i kind
      simp only [enter, kind, if_true, Except.map] at stepped
      cases stepped
      obtain ⟨colon, rest, rfl, inside⟩ := terminal_of_read rfl (fun _ => rfl) after
      obtain ⟨body, close, rest, rfl⟩ := ih rest.length (by simp only [List.length_cons]; omega) inside rfl
      let child := ElementTree.node ⟨t, kind⟩ colon body close
      have whole : t :: colon.val :: (body.tokens ++ close.val :: rest) = child.tokens ++ rest := by
        simp [child, ElementTree.tokens]
      rw [whole, read_element child rfl] at accepted
      obtain ⟨others, last, rest, rfl⟩ :=
        ih rest.length (by simp only [List.length_append, List.length_cons]; omega) accepted rfl
      exact ⟨.child child others, last, rest, by rw [whole, BodyTree.tokens, List.append_assoc]⟩
    · rename_i category kind
      cases stepped
      obtain ⟨colon, block, rest, rfl⟩ := block_of_read after
      let first : BlockTree := ⟨category, ⟨t, kind⟩, colon, block⟩
      have whole : t :: (colon.toList.map Subtype.val ++ [block.val] ++ rest) = first.tokens ++ rest := by
        simp [first, BlockTree.tokens]
      rw [whole, read_block first] at accepted
      obtain ⟨others, last, rest, rfl⟩ :=
        ih rest.length (by simp only [List.length_append, List.length_cons]; omega) accepted rfl
      exact ⟨.block first others, last, rest, by rw [whole, BodyTree.tokens, List.append_assoc]⟩
    · cases stepped

theorem element_of_read (tag : Terminal .tag)
    (accepted : (read ⟨document, .inside (opened tag) outer .colon⟩ index tokens).stop = none) :
    ∃ (tree : ElementTree) (rest : List Token), tag.val :: tokens = tree.tokens ++ rest := by
  obtain ⟨colon, rest, rfl, inside⟩ := terminal_of_read rfl (fun _ => rfl) accepted
  obtain ⟨body, close, rest, rfl⟩ := body_of_read inside
  exact ⟨.node tag colon body close, rest, by simp [ElementTree.tokens]⟩

theorem import_of_read (keyword : Terminal .importing)
    (accepted : (read ⟨document, .importName keyword.val.position⟩ index tokens).stop = none) :
    ∃ (tree : ImportTree) (rest : List Token), keyword.val :: tokens = tree.tokens ++ rest := by
  obtain ⟨name, rest, rfl, named⟩ := terminal_of_read rfl (fun _ => rfl) accepted
  obtain ⟨origin, rest, rfl, parted⟩ := terminal_of_read rfl (fun _ => rfl) named
  obtain ⟨path, rest, rfl, located⟩ := terminal_of_read rfl (fun _ => rfl) parted
  obtain ⟨close, rest, rfl, -⟩ := terminal_of_read rfl (fun _ => rfl) located
  exact ⟨⟨keyword, name, origin, path, close⟩, rest, rfl⟩

inductive TopHead (document : Document) : List Token → Prop where
  | finish (finish : Terminal .finish) (rest : List Token) : TopHead document (finish.val :: rest)
  | stray (stray : Terminal .semicolon) (rest : List Token) : TopHead document (stray.val :: rest)
  | importing (empty : document.elements = []) (tree : ImportTree) (rest : List Token) :
      TopHead document (tree.tokens ++ rest)
  | element (tree : ElementTree) (rest : List Token) : TopHead document (tree.tokens ++ rest)

theorem topHead_of_read (accepted : (read ⟨document, .between⟩ index tokens).stop = none) :
    TopHead document tokens := by
  cases tokens with
  | nil => cases accepted
  | cons t rest =>
    by_cases ends : t.kind = .finish
    · exact .finish ⟨t, ends⟩ rest
    cases stepped : step ⟨document, .between⟩ index t with
    | error fault => simp [read, ends, stepped] at accepted
    | ok next =>
      rw [read_step stepped] at accepted
      simp only [step] at stepped
      split at stepped
      · rename_i importing
        split at stepped
        · rename_i empty
          cases stepped
          obtain ⟨tree, rest, same⟩ := import_of_read ⟨t, importing⟩ accepted
          exact same ▸ .importing (List.isEmpty_iff.mp empty) tree rest
        · cases stepped
      · rename_i semicolon
        exact .stray ⟨t, semicolon⟩ rest
      · unfold enter at stepped
        split at stepped
        · rename_i tag
          cases stepped
          obtain ⟨tree, rest, same⟩ := element_of_read ⟨t, tag⟩ accepted
          exact same ▸ .element tree rest
        · cases stepped

theorem elements_of_read (started : document.elements ≠ [])
    (accepted : (read ⟨document, .between⟩ index tokens).stop = none) :
    ∃ (elements : Strewn ElementTree) (finish : Terminal .finish) (rest : List Token),
      tokens = Strewn.tokens ElementTree.tokens elements ++ finish.val :: rest := by
  induction size : tokens.length using Nat.strongRecOn generalizing tokens document index with
  | ind size ih =>
    subst size
    cases topHead_of_read accepted with
    | finish finish rest => exact ⟨[], finish, rest, rfl⟩
    | stray stray rest =>
      rw [read_step (step_stray stray)] at accepted
      obtain ⟨elements, finish, rest, rfl⟩ := ih rest.length (by simp) started accepted rfl
      exact ⟨.inl stray :: elements, finish, rest, rfl⟩
    | importing empty tree rest => exact absurd empty started
    | element tree rest =>
      have shorter : rest.length < (tree.tokens ++ rest).length := by
        cases tree
        simp [ElementTree.tokens]
        omega
      rw [read_element tree rfl] at accepted
      obtain ⟨elements, finish, rest, rfl⟩ := ih rest.length shorter (by simp) accepted rfl
      exact ⟨.inr tree :: elements, finish, rest, by simp⟩

theorem program_of_read (empty : document.elements = [])
    (accepted : (read ⟨document, .between⟩ index tokens).stop = none) :
    ∃ (tree : ProgramTree) (rest : List Token), tokens = tree.tokens ++ rest := by
  induction size : tokens.length using Nat.strongRecOn generalizing tokens document index with
  | ind size ih =>
    subst size
    cases topHead_of_read accepted with
    | finish finish rest => exact ⟨⟨[], [], finish⟩, rest, rfl⟩
    | stray stray rest =>
      rw [read_step (step_stray stray)] at accepted
      obtain ⟨⟨imports, elements, finish⟩, rest, rfl⟩ := ih rest.length (by simp) empty accepted rfl
      exact ⟨⟨.inl stray :: imports, elements, finish⟩, rest, rfl⟩
    | importing _ tree rest =>
      rw [read_import empty] at accepted
      obtain ⟨⟨imports, elements, finish⟩, rest, rfl⟩ :=
        ih rest.length (by simp [ImportTree.tokens]; omega) (by exact empty) accepted rfl
      exact ⟨⟨.inr tree :: imports, elements, finish⟩, rest, by simp [ProgramTree.tokens]⟩
    | element tree rest =>
      rw [read_element tree rfl] at accepted
      obtain ⟨elements, finish, rest, rfl⟩ := elements_of_read (by simp) accepted
      exact ⟨⟨[], .inr tree :: elements, finish⟩, rest, by simp [ProgramTree.tokens]⟩

theorem derivation_of_ofTokens {d : Document} (accepted : ofTokens tokens = .ok d) :
    ∃ (tree : ProgramTree) (rest : List Token), tokens = tree.tokens ++ rest := by
  have stopped : (read {} 0 tokens).stop = none := by
    rw [ofTokens] at accepted
    split at accepted
    · assumption
    · cases accepted
  exact program_of_read rfl stopped

/-- The end of the source stands last in a token list and nowhere else. -/
structure Ended (tokens : List Token) : Prop where
  last : ∃ t, tokens.getLast? = some t ∧ t.kind = .finish
  only : ∀ t ∈ tokens.dropLast, t.kind ≠ .finish

theorem Ended.rest_eq_nil {tree : ProgramTree} (ended : Ended (tree.tokens ++ rest)) : rest = [] := by
  cases rest with
  | nil => rfl
  | cons t rest =>
    have inside : tree.finish.val ∈ (tree.tokens ++ t :: rest).dropLast := by
      rw [List.dropLast_append_of_ne_nil (List.cons_ne_nil _ _), List.mem_append]
      exact Or.inl (by simp [ProgramTree.tokens])
    exact absurd tree.finish.property (ended.only _ inside)

/-- Exactly the token lists with a derivation are read, to what it means; all their derivations mean
the same. -/
theorem ofTokens_eq_ok_iff_derivation (tokens : List Token) (ended : Ended tokens) :
    (∀ d, ofTokens tokens = .ok d ↔
      ∃ tree : ProgramTree, tree.tokens = tokens ∧ tree.meaning = d) ∧
    ∀ tree other : ProgramTree, tree.tokens = tokens → other.tokens = tokens →
      tree.meaning = other.meaning := by
  have read : ∀ tree : ProgramTree, tree.tokens = tokens → ofTokens tokens = .ok tree.meaning := by
    rintro tree rfl
    simpa using ofTokens_program tree []
  refine ⟨fun d => ⟨fun accepted => ?_, ?_⟩, ?_⟩
  · obtain ⟨tree, rest, rfl⟩ := derivation_of_ofTokens accepted
    obtain rfl := ended.rest_eq_nil
    rw [List.append_nil] at accepted read ⊢
    refine ⟨tree, rfl, ?_⟩
    rw [read tree rfl] at accepted
    exact Except.ok.inj accepted
  · rintro ⟨tree, same, rfl⟩
    exact read tree same
  · intro tree other same alike
    have meanings := (read tree same).symm.trans (read other alike)
    exact Except.ok.inj meanings

/-- Stray semicolons around an import, and an element with two blocks of one category. -/
def strewn : List Token :=
  [⟨.semicolon, ";", 0⟩, ⟨.importing, "import", 1⟩, ⟨.tag, "N", 8⟩, ⟨.origin, "from", 10⟩,
   ⟨.quoted, "n", 15⟩, ⟨.semicolon, ";", 18⟩, ⟨.semicolon, ";", 19⟩, ⟨.tag, "p", 20⟩, ⟨.colon, ":", 21⟩,
   ⟨.keyword .ids, "ids", 22⟩, ⟨.block, "a", 25⟩, ⟨.tag, "N", 28⟩, ⟨.colon, ":", 29⟩,
   ⟨.semicolon, ";", 30⟩, ⟨.keyword .ids, "ids", 31⟩, ⟨.colon, ":", 34⟩, ⟨.block, "b, \"c\"", 35⟩,
   ⟨.semicolon, ";", 43⟩, ⟨.finish, "EOF", 44⟩]

def strewnDocument : Document where
  imports := [⟨"N", "n", 1⟩]
  elements := [⟨"p", { ids := ["b", "c"] }, true, [⟨"N", {}, true, [], 28⟩], 20⟩]

theorem strewn_derived :
    Ended strewn ∧ ∃ tree : ProgramTree, tree.tokens = strewn ∧ tree.meaning = strewnDocument := by
  have ended : Ended strewn := ⟨⟨_, rfl, rfl⟩, by decide⟩
  exact ⟨ended, ((ofTokens_eq_ok_iff_derivation strewn ended).1 strewnDocument).mp rfl⟩

end Document

end ElementMarkup
