import ElementMarkup.Proofs.Alphabet
import ElementMarkup.Proofs.Html

/-!
The tags of rendered HTML. Where tags are words and no text holds a `<` or a `>`, a scan of the HTML for
tags finds those of the trees, in their order and nothing else. They nest: every closing tag belongs to
an opening one of its name, and an opening tag stands alone only for a closed leaf that is empty.
-/

namespace ElementMarkup

namespace Html

inductive Event where
  | opening (tag : String)
  | closing (tag : String)
  deriving DecidableEq, Repr

def isBracket (c : Char) : Bool := c = '<' || c = '>'

/-- What stands between a `<` and a `>` that have no other bracket between them. -/
def groups : List Char → List (List Char)
  | [] => []
  | c :: rest =>
    if c = '<' ∧ (rest.dropWhile (!isBracket ·)).head? = some '>' then
      rest.takeWhile (!isBracket ·) :: groups rest
    else groups rest

def Event.ofGroup (group : List Char) : Event :=
  if group.head? = some '/' then .closing (String.ofList group.tail)
  else .opening (String.ofList (group.takeWhile Char.isAlphanum))

def events (text : List Char) : List Event := (groups text).map Event.ofGroup

theorem groups_append {text : List Char} (unopened : '<' ∉ text) (rest : List Char) :
    groups (text ++ rest) = groups rest := by
  induction text with
  | nil => rfl
  | cons c text ih =>
    obtain ⟨other, later⟩ := List.ne_and_not_mem_of_not_mem_cons unopened
    rw [List.cons_append, groups, if_neg fun opens => other opens.1.symm, ih later]

theorem groups_tag {inner : List Char} (plain : ∀ c ∈ inner, isBracket c = false) (rest : List Char) :
    groups ('<' :: inner ++ '>' :: rest) = inner :: groups rest := by
  obtain ⟨taken, dropped⟩ : (inner ++ '>' :: rest).takeWhile (!isBracket ·) = inner ∧
      (inner ++ '>' :: rest).dropWhile (!isBracket ·) = '>' :: rest := by
    apply Token.takeWhile_append_stop
    · intro c member
      simp [plain c member]
    · simp [isBracket]
  have unopened : '<' ∉ inner ++ ['>'] := by
    intro member
    rcases List.mem_append.mp member with inside | last
    · exact absurd (plain '<' inside) (by decide)
    · exact absurd last (by decide)
  have passed : groups (inner ++ '>' :: rest) = groups rest := by
    rw [← groups_append unopened rest, List.append_assoc, List.singleton_append]
  rw [List.cons_append, groups, dropped, taken, if_pos ⟨rfl, rfl⟩, passed]

theorem events_append {text : List Char} (unopened : '<' ∉ text) (rest : List Char) :
    events (text ++ rest) = events rest := by
  rw [events, events, groups_append unopened]

theorem events_tag {inner : List Char} (plain : ∀ c ∈ inner, isBracket c = false) (rest : List Char) :
    events ('<' :: inner ++ '>' :: rest) = Event.ofGroup inner :: events rest := by
  rw [events, events, groups_tag plain, List.map_cons]

/-- Every closing tag ends what an opening tag of its name began; with the numbers of those that
nothing ends. -/
inductive Nested : Nat → List Event → List Nat → Prop where
  | nil (start : Nat) : Nested start [] []
  | lone {start : Nat} {rest : List Event} {alone : List Nat} (tag : String)
      (later : Nested (start + 1) rest alone) :
      Nested start (.opening tag :: rest) (start :: alone)
  | pair {start : Nat} {inside rest : List Event} {alone others : List Nat} (tag : String)
      (inner : Nested (start + 1) inside alone)
      (later : Nested (start + inside.length + 2) rest others) :
      Nested start (.opening tag :: inside ++ .closing tag :: rest) (alone ++ others)

theorem Nested.append {start : Nat} {front back : List Event} {alone others : List Nat}
    (first : Nested start front alone) (second : Nested (start + front.length) back others) :
    Nested start (front ++ back) (alone ++ others) := by
  induction first with
  | nil start => simpa using second
  | @lone start rest alone tag _ ih =>
    apply Nested.lone
    apply ih
    rwa [List.length_cons, Nat.add_comm rest.length, ← Nat.add_assoc] at second
  | @pair start inside rest alone more tag inner _ _ ih =>
    rw [List.append_assoc, List.append_assoc, List.cons_append]
    apply Nested.pair tag inner
    apply ih
    simp only [List.length_append, List.length_cons] at second
    rwa [show start + inside.length + 2 + rest.length =
      start + (inside.length + 1 + (rest.length + 1)) by omega]

end Html

open Html

namespace Element

def isEmptyLeaf (closed : Bool) (attributes : Attributes) (children : List Element) : Bool :=
  closed && children.isEmpty && attributes.content.all (· = "")

mutual

def events : Element → List Event
  | ⟨tag, attributes, closed, children, _⟩ =>
    .opening tag :: childrenEvents children ++
      if isEmptyLeaf closed attributes children then [] else [.closing tag]

def childrenEvents : List Element → List Event
  | [] => []
  | child :: rest => child.events ++ childrenEvents rest

end

mutual

/-- The numbers of the opening tags of empty closed leaves, counted from `start`. -/
def emptyLeaves (start : Nat) : Element → List Nat
  | ⟨_, attributes, closed, children, _⟩ =>
    if isEmptyLeaf closed attributes children then [start] else childrenEmptyLeaves (start + 1) children

def childrenEmptyLeaves (start : Nat) : List Element → List Nat
  | [] => []
  | child :: rest =>
    child.emptyLeaves start ++ childrenEmptyLeaves (start + child.events.length) rest

end

theorem childrenEvents_of_isEmptyLeaf {closed : Bool} {attributes : Attributes} {children : List Element}
    (leaf : isEmptyLeaf closed attributes children = true) : childrenEvents children = [] := by
  cases children with
  | nil => rfl
  | cons child rest => simp [isEmptyLeaf] at leaf

mutual

theorem events_nested (start : Nat) : ∀ element : Element,
    Nested start element.events (element.emptyLeaves start)
  | ⟨tag, attributes, closed, children, position⟩ => by
    rw [events, emptyLeaves]
    split
    · rename_i leaf
      rw [childrenEvents_of_isEmptyLeaf leaf]
      exact .lone tag (.nil _)
    · simpa using Nested.pair tag (childrenEvents_nested (start + 1) children) (.nil _)

theorem childrenEvents_nested (start : Nat) : ∀ children : List Element,
    Nested start (childrenEvents children) (childrenEmptyLeaves start children)
  | [] => .nil start
  | child :: rest => by
    rw [childrenEvents, childrenEmptyLeaves]
    exact (events_nested start child).append (childrenEvents_nested _ rest)

end

end Element

/-! ### Inside a tag -/

namespace Alphabet

def unbracketed : Alphabet := fun c => isBracket c = false

theorem unbracketed_marks : unbracketed.HasMarks := by
  intro c _ _ left right
  simp [unbracketed, isBracket, left, right]

theorem Covers.unopened {text : String} (covers : unbracketed.Covers text) : '<' ∉ text.toList := by
  intro member
  have plain : isBracket '<' = false := covers '<' member
  exact absurd plain (by decide)

theorem covers_word {tag : String} (word : tag.toList.all Char.isAlphanum = true) :
    unbracketed.Covers tag := by
  intro c member
  have letter := List.all_eq_true.mp word c member
  cases bracket : isBracket c with
  | false => exact bracket
  | true =>
    have either : c = '<' ∨ c = '>' := by simpa [isBracket] using bracket
    rcases either with rfl | rfl
    · exact absurd letter (by decide)
    · exact absurd letter (by decide)

end Alphabet

namespace Attributes

def Spaced (text : String) : Prop := ∀ c ∈ text.toList.head?, c = ' '

theorem Spaced.append {front back : String} (first : Spaced front) (second : Spaced back) :
    Spaced (front ++ back) := by
  intro c head
  rw [String.toList_append, List.head?_append] at head
  cases leading : front.toList.head? with
  | none =>
    rw [leading] at head
    exact second c head
  | some d =>
    rw [leading] at head
    exact first c (leading.trans head)

theorem spaced_empty : Spaced "" := by simp [Spaced]

theorem written_spaced (name value : String) : Spaced (written name value) := by
  simp [Spaced, written]

theorem stylesHtml_spaced (styles : List (String × String)) : Spaced (stylesHtml styles) := by
  unfold stylesHtml
  split
  · exact spaced_empty
  · exact written_spaced _ _

theorem namesHtml_spaced (name : String) (names : List String) : Spaced (namesHtml name names) := by
  unfold namesHtml
  split
  · exact spaced_empty
  · exact written_spaced _ _

theorem pairsHtml_spaced (head : String) (pairs : List (String × String)) :
    Spaced (pairsHtml head pairs) := by
  induction pairs with
  | nil => exact spaced_empty
  | cons pair rest ih =>
    rw [pairsHtml, List.map_cons, String.join_cons]
    exact (written_spaced _ _).append ih

theorem html_spaced (attributes : Attributes) : Spaced attributes.html := by
  unfold html
  apply Spaced.append _ (pairsHtml_spaced _ _)
  apply Spaced.append _ (namesHtml_spaced _ _)
  apply Spaced.append _ (namesHtml_spaced _ _)
  exact (stylesHtml_spaced _).append (pairsHtml_spaced _ _)

end Attributes

theorem Html.Event.ofGroup_opening {tag more : String} (word : tag.toList.all Char.isAlphanum = true)
    (spaced : Attributes.Spaced more) : Event.ofGroup (tag.toList ++ more.toList) = .opening tag := by
  have letters := List.all_eq_true.mp word
  have slash : (tag.toList ++ more.toList).head? ≠ some '/' := by
    intro head
    rw [List.head?_append] at head
    cases leading : tag.toList.head? with
    | none =>
      rw [leading] at head
      exact absurd (spaced '/' head) (by decide)
    | some c =>
      rw [leading] at head
      obtain rfl : c = '/' := Option.some.inj head
      exact absurd (letters '/' (List.mem_of_mem_head? leading)) (by decide)
  have stops : ∀ c ∈ more.toList.head?, c.isAlphanum = false := by
    intro c head
    rw [spaced c head]
    decide
  rw [ofGroup, if_neg slash, (Token.takeWhile_append_stop letters stops).1, String.ofList_toList]

theorem Html.Event.ofGroup_closing (tag : String) :
    Event.ofGroup ('/' :: tag.toList) = .closing tag := by
  rw [ofGroup, List.head?_cons, if_pos rfl, List.tail_cons, String.ofList_toList]

namespace Element

/-- At any depth, tags are words of ASCII and no text has a bracket in it. -/
inductive Bare : Element → Prop where
  | intro {tag : String} {attributes : Attributes} {closed : Bool} {children : List Element}
      {position : Int} (word : tag.toList.all Char.isAlphanum = true)
      (texts : attributes.Covered Alphabet.unbracketed) (inside : ∀ child ∈ children, child.Bare) :
      Bare ⟨tag, attributes, closed, children, position⟩

theorem isVoid_eq_isEmptyLeaf (closed : Bool) (attributes : Attributes) (children : List Element) :
    isVoid closed attributes children = isEmptyLeaf closed attributes children := by
  unfold isVoid isEmptyLeaf Attributes.text
  congr 1
  cases attributes.content with
  | none => rfl
  | some text => rw [Bool.eq_iff_iff]; simp

theorem events_opening {tag : String} {attributes : Attributes}
    (word : tag.toList.all Char.isAlphanum = true) (texts : attributes.Covered Alphabet.unbracketed)
    (rest : List Char) :
    Html.events ('<' :: (tag.toList ++ attributes.html.toList) ++ '>' :: rest) =
      .opening tag :: Html.events rest := by
  have plain : ∀ c ∈ tag.toList ++ attributes.html.toList, isBracket c = false := by
    intro c member
    rcases List.mem_append.mp member with inside | inside
    · exact Alphabet.covers_word word c inside
    · exact texts.html Alphabet.unbracketed_marks c inside
  rw [events_tag plain, Event.ofGroup_opening word attributes.html_spaced]

theorem events_closing {tag : String} (word : tag.toList.all Char.isAlphanum = true) (rest : List Char) :
    Html.events (("</" ++ tag ++ ">").toList ++ rest) = .closing tag :: Html.events rest := by
  have plain : ∀ c ∈ '/' :: tag.toList, isBracket c = false := by
    intro c member
    rcases List.mem_cons.mp member with rfl | inside
    · decide
    · exact Alphabet.covers_word word c inside
  have written : ("</" ++ tag ++ ">").toList ++ rest = '<' :: ('/' :: tag.toList) ++ '>' :: rest := by
    simp
  rw [written, events_tag plain, Event.ofGroup_closing]

mutual

theorem events_html : ∀ {element : Element}, element.Bare → ∀ rest : List Char,
    Html.events ((element.html []).toList ++ rest) = element.events ++ Html.events rest
  | ⟨tag, attributes, closed, children, position⟩, .intro word texts inside, rest => by
    have ending : Html.events
        ((if isVoid closed attributes children then "" else "</" ++ tag ++ ">").toList ++ rest) =
        (if isEmptyLeaf closed attributes children then [] else [.closing tag]) ++ Html.events rest := by
      rw [isVoid_eq_isEmptyLeaf]
      split
      · rfl
      · exact events_closing word rest
    have written : ∀ last : String,
        ("<" ++ tag ++ attributes.html ++ ">" ++ attributes.text ++ childrenHtml [] children ++ last).toList ++
          rest =
        '<' :: (tag.toList ++ attributes.html.toList) ++ '>' :: (attributes.text.toList ++
          ((childrenHtml [] children).toList ++ (last.toList ++ rest))) := by
      intro last
      simp
    rw [html, Table.find?_nil, written, events_opening word texts,
      events_append (texts.text Alphabet.unbracketed_marks).unopened, events_childrenHtml inside, ending,
      events]
    simp

theorem events_childrenHtml : ∀ {children : List Element}, (∀ child ∈ children, child.Bare) →
    ∀ rest : List Char, Html.events ((childrenHtml [] children).toList ++ rest) =
      childrenEvents children ++ Html.events rest
  | [], _, rest => by simp [childrenHtml, childrenEvents]
  | child :: others, bare, rest => by
    obtain ⟨first, later⟩ := List.forall_mem_cons.mp bare
    rw [childrenHtml, childrenEvents, String.toList_append, List.append_assoc, events_html first,
      events_childrenHtml later, List.append_assoc]

end

end Element

namespace Html

theorem events_render {elements : List Element} (bare : ∀ element ∈ elements, element.Bare) :
    events (render [] elements).toList = Element.childrenEvents elements := by
  induction elements with
  | nil => rfl
  | cons element rest ih =>
    obtain ⟨first, later⟩ := List.forall_mem_cons.mp bare
    cases rest with
    | nil =>
      have alone := Element.events_html first []
      rw [List.append_nil] at alone
      rw [render, List.map_singleton, String.intercalate_singleton, alone]
      rfl
    | cons next more =>
      have joined : (render [] (element :: next :: more)).toList =
          (element.html []).toList ++ (['\n'] ++ (render [] (next :: more)).toList) := by
        simp [render]
      rw [joined, Element.events_html first, events_append (by decide), ih later]
      rfl

theorem render_tags_nest (elements : List Element) (bare : ∀ element ∈ elements, element.Bare) :
    events (render [] elements).toList = Element.childrenEvents elements ∧
      Nested 0 (events (render [] elements).toList) (Element.childrenEmptyLeaves 0 elements) := by
  have scanned := events_render bare
  refine ⟨scanned, ?_⟩
  rw [scanned]
  exact Element.childrenEvents_nested 0 elements

/-- A leaf inside an element of its own name, texts that look like tags, and empty content. -/
def orchard : List Element :=
  [⟨"ul", { classes := ["a/b", "c d"], styles := [("color", "red")] }, true,
      [⟨"ul", {}, true, [], 0⟩, ⟨"li", { content := some "x = \"/ul\"" }, true, [], 0⟩], 0⟩,
    ⟨"br", { content := some "" }, true, [], 0⟩,
    ⟨"p", { props := [("", "p/")] }, false, [], 0⟩]

theorem orchard_bare : ∀ element ∈ orchard, element.Bare := by
  have leaf : ∀ {tag : String} {attributes : Attributes} {closed : Bool},
      tag.toList.all Char.isAlphanum = true → attributes.Covered Alphabet.unbracketed →
      Element.Bare ⟨tag, attributes, closed, [], 0⟩ := fun word texts => .intro word texts (List.forall_mem_nil _)
  have list : Attributes.Covered Alphabet.unbracketed
      { classes := ["a/b", "c d"], styles := [("color", "red")] } := by
    constructor <;> simp [Alphabet.Covers, Alphabet.unbracketed, isBracket]
  have entry : Attributes.Covered Alphabet.unbracketed { content := some "x = \"/ul\"" } := by
    constructor <;> simp [Alphabet.Covers, Alphabet.unbracketed, isBracket]
  have blank : Attributes.Covered Alphabet.unbracketed { content := some "" } := by
    constructor <;> simp [Alphabet.Covers]
  have props : Attributes.Covered Alphabet.unbracketed { props := [("", "p/")] } := by
    constructor <;> simp [Alphabet.Covers, Alphabet.unbracketed, isBracket]
  simp only [orchard, List.forall_mem_cons]
  refine ⟨.intro (by decide) list ?_, leaf (by decide) blank, leaf (by decide) props, List.forall_mem_nil _⟩
  simp only [List.forall_mem_cons]
  exact ⟨leaf (by decide) Attributes.covered_empty, leaf (by decide) entry, List.forall_mem_nil _⟩

theorem orchard_tags_nest :
    (∀ element ∈ orchard, element.Bare) ∧
      events (render [] orchard).toList =
        [.opening "ul", .opening "ul", .opening "li", .closing "li", .closing "ul", .opening "br",
          .opening "p", .closing "p"] ∧
      Nested 0 (events (render [] orchard).toList) [1, 5] :=
  ⟨orchard_bare, render_tags_nest orchard orchard_bare⟩

end Html

end ElementMarkup
