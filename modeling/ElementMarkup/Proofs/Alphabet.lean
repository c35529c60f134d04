import ElementMarkup.Document.Reader
import ElementMarkup.Html
import ElementMarkup.Proofs.Attribute
import ElementMarkup.Proofs.Table
import ElementMarkup.Proofs.Token.Split

/-!
Where the characters of HTML come from. Scanning, reading and rendering drop characters and add a few
of ASCII, no carriage return among them. So an alphabet that has these and covers a source covers its
tokens, its elements and their HTML.
-/

namespace ElementMarkup

abbrev Alphabet := Char → Prop

namespace Alphabet

def Covers (alphabet : Alphabet) (text : String) : Prop := ∀ c ∈ text.toList, alphabet c

/-- ASCII without the carriage return: what is added is written with it. -/
def HasPlainAscii (alphabet : Alphabet) : Prop := ∀ c : Char, c.toNat < 128 → c ≠ '\r' → alphabet c

def HasMarks (alphabet : Alphabet) : Prop :=
  ∀ c : Char, c.toNat < 128 → c ≠ '\r' → c ≠ '<' → c ≠ '>' → alphabet c

variable {alphabet : Alphabet}

@[simp] theorem covers_append {front back : String} :
    alphabet.Covers (front ++ back) ↔ alphabet.Covers front ∧ alphabet.Covers back := by
  simp [Covers, or_imp, forall_and]

@[simp] theorem covers_ofList {chars : List Char} :
    alphabet.Covers (String.ofList chars) ↔ ∀ c ∈ chars, alphabet c := by
  simp [Covers]

theorem Covers.part {text : String} {chars : List Char} (covers : alphabet.Covers text)
    (inside : chars ⊆ text.toList) : alphabet.Covers (String.ofList chars) :=
  covers_ofList.mpr fun c member => covers c (inside member)

theorem covers_join {texts : List String} (each : ∀ text ∈ texts, alphabet.Covers text) :
    alphabet.Covers (String.join texts) := by
  intro c member
  rw [String.toList_join] at member
  obtain ⟨text, listed, inside⟩ := List.mem_flatMap.mp member
  exact each text listed c inside

theorem covers_intercalate {separator : String} {texts : List String}
    (between : alphabet.Covers separator) (each : ∀ text ∈ texts, alphabet.Covers text) :
    alphabet.Covers (separator.intercalate texts) := by
  induction texts with
  | nil => simp [Covers]
  | cons text rest ih =>
    obtain ⟨first, others⟩ := List.forall_mem_cons.mp each
    cases rest with
    | nil => simpa using first
    | cons next rest =>
      rw [String.intercalate_cons_cons, covers_append, covers_append]
      exact ⟨⟨first, between⟩, ih others⟩

theorem HasPlainAscii.covers (ascii : alphabet.HasPlainAscii) {text : String}
    (plain : text.toList.all (fun c => c.toNat < 128 ∧ c ≠ '\r') = true) : alphabet.Covers text := by
  intro c member
  obtain ⟨small, other⟩ : c.toNat < 128 ∧ c ≠ '\r' := by simpa using List.all_eq_true.mp plain c member
  exact ascii c small other

theorem HasPlainAscii.marks (ascii : alphabet.HasPlainAscii) : alphabet.HasMarks :=
  fun c small other _ _ => ascii c small other

theorem HasMarks.covers (marks : alphabet.HasMarks) {text : String}
    (plain : text.toList.all (fun c => c.toNat < 128 ∧ c ≠ '\r' ∧ c ≠ '<' ∧ c ≠ '>') = true) :
    alphabet.Covers text := by
  intro c member
  obtain ⟨small, other, left, right⟩ : c.toNat < 128 ∧ c ≠ '\r' ∧ c ≠ '<' ∧ c ≠ '>' := by
    simpa using List.all_eq_true.mp plain c member
  exact marks c small other left right

end Alphabet

/-! ### From sources to elements -/

namespace Attribute

theorem split_subset {quoted : Bool} {text segment : List Char} (member : segment ∈ split quoted text) :
    segment ⊆ text := by
  induction text generalizing quoted segment with
  | nil =>
    obtain rfl := List.mem_singleton.mp member
    simp
  | cons c rest ih =>
    unfold split at member
    split at member
    · rcases List.mem_cons.mp member with rfl | member
      · simp
      · exact List.subset_cons_of_subset c (ih member)
    · cases later : split (quoted != (c == '"')) rest with
      | nil =>
        rw [later] at member
        obtain rfl := List.mem_singleton.mp member
        simp
      | cons first others =>
        rw [later] at member
        rcases List.mem_cons.mp member with rfl | member
        · exact List.cons_subset_cons c (ih (later ▸ List.mem_cons_self ..))
        · exact List.subset_cons_of_subset c (ih (later ▸ List.mem_cons_of_mem _ member))

theorem entries_subset {text segment : List Char} (member : segment ∈ entries text) : segment ⊆ text :=
  split_subset (List.mem_filter.mp member).1

theorem unquote_subset (text : List Char) : unquote text ⊆ text := by
  unfold unquote
  split
  · exact List.Subset.trans (List.dropLast_subset _) (List.tail_sublist _).subset
  · exact List.Subset.refl text

theorem unescape_subset (text : List Char) : unescape text ⊆ text := by
  fun_induction unescape text with
  | case1 => simp
  | case2 c => simp
  | case3 c d rest escaped ih =>
    obtain ⟨rfl, rfl⟩ := escaped
    exact List.subset_cons_of_subset _ (List.cons_subset_cons _ ih)
  | case4 c d rest plain ih => exact List.cons_subset_cons c ih

variable {alphabet : Alphabet} {text : String}

theorem pairs_covered (covers : alphabet.Covers text) :
    ∀ pair ∈ pairs text, alphabet.Covers pair.1 ∧ alphabet.Covers pair.2 := by
  intro pair member
  obtain ⟨segment, listed, rfl⟩ := List.mem_map.mp member
  have inside := entries_subset listed
  have key := List.Subset.trans (Text.strip_subset _) (List.takeWhile_sublist (· != ':') (l := segment)).subset
  have value := List.Subset.trans (Text.strip_subset _)
    ((List.tail_sublist _).trans (List.dropWhile_sublist (· != ':') (l := segment))).subset
  exact ⟨covers.part (List.Subset.trans key inside), covers.part (List.Subset.trans value inside)⟩

theorem list_covered (covers : alphabet.Covers text) :
    ∀ entry ∈ list text, alphabet.Covers entry := by
  intro entry member
  obtain ⟨segment, listed, rfl⟩ := List.mem_map.mp member
  have inside := entries_subset listed
  have stripped := List.Subset.trans (Text.strip_subset segment) inside
  exact covers.part (List.Subset.trans (unquote_subset _) stripped)

theorem content_covered (covers : alphabet.Covers text) : alphabet.Covers (content text) :=
  covers.part (unescape_subset text.toList)

end Attribute

section

variable {alphabet : Alphabet}

structure Attributes.Covered (alphabet : Alphabet) (attributes : Attributes) : Prop where
  props : ∀ pair ∈ attributes.props, alphabet.Covers pair.1 ∧ alphabet.Covers pair.2
  dataset : ∀ pair ∈ attributes.dataset, alphabet.Covers pair.1 ∧ alphabet.Covers pair.2
  styles : ∀ pair ∈ attributes.styles, alphabet.Covers pair.1 ∧ alphabet.Covers pair.2
  classes : ∀ name ∈ attributes.classes, alphabet.Covers name
  ids : ∀ name ∈ attributes.ids, alphabet.Covers name
  content : ∀ text ∈ attributes.content, alphabet.Covers text

theorem Attributes.covered_empty : Attributes.Covered alphabet {} := by
  constructor <;> simp

theorem Attributes.Covered.set {attributes : Attributes} (covered : attributes.Covered alphabet)
    (category : Category) {text : String} (covers : alphabet.Covers text) :
    (attributes.set category text).Covered alphabet := by
  obtain ⟨props, dataset, styles, classes, ids, content⟩ := covered
  have pairs := Attribute.pairs_covered covers
  have list := Attribute.list_covered covers
  cases category with
  | props => exact ⟨pairs, dataset, styles, classes, ids, content⟩
  | dataset => exact ⟨props, pairs, styles, classes, ids, content⟩
  | styles => exact ⟨props, dataset, pairs, classes, ids, content⟩
  | classes => exact ⟨props, dataset, styles, list, ids, content⟩
  | ids => exact ⟨props, dataset, styles, classes, list, content⟩
  | content =>
    refine ⟨props, dataset, styles, classes, ids, ?_⟩
    rintro text ⟨⟩
    exact Attribute.content_covered covers

inductive Element.Covered (alphabet : Alphabet) : Element → Prop where
  | intro {element : Element} (tag : alphabet.Covers element.tag)
      (attributes : element.attributes.Covered alphabet)
      (children : ∀ child ∈ element.children, Covered alphabet child) : Covered alphabet element

theorem Token.Enclosure.Body.value_subset {e : Token.Enclosure} {text value : List Char}
    (body : e.Body text value) : value ⊆ text := by
  induction body with
  | nil => simp
  | escape escapable tail ih => exact List.subset_cons_of_subset _ (List.cons_subset_cons _ ih)
  | plain inside literal tail ih => exact List.cons_subset_cons _ ih

theorem Token.Spells.value_subset {wide : Bool} {rest text value : List Char} {kind : Token.Kind}
    (spells : Token.Spells wide rest text kind value) : value ⊆ text := by
  cases spells with
  | enclosed e body =>
    apply List.Subset.trans body.value_subset
    simp
  | _ => exact List.Subset.refl _

theorem Token.scan_subset {wide : Bool} {stop : Int} {text : List Char} :
    ∀ t ∈ (Token.scan wide stop text).tokens, t.value.toList ⊆ text := by
  fun_induction Token.scan wide stop text with
  | case2 c rest start kind value left read shorter ih =>
    obtain ⟨lexeme, source, spells⟩ := Token.lexeme_spells read
    rw [source]
    intro t member
    rcases List.mem_cons.mp member with rfl | later
    · rw [String.toList_ofList]
      exact List.subset_append_of_subset_left left spells.value_subset
    · exact List.subset_append_of_subset_right lexeme (ih t later)
  | case3 c rest left read shorter ih =>
    obtain ⟨gap, source, blank⟩ := Token.lexeme_gap read
    rw [source]
    intro t member
    exact List.subset_append_of_subset_right gap (ih t member)
  | _ => simp

theorem Token.tokens_covered (ascii : alphabet.HasPlainAscii) {wide : Bool} {source : String}
    {tokens : List Token} (scanned : Token.tokens wide source = .ok tokens)
    (covers : alphabet.Covers source) : ∀ t ∈ tokens, alphabet.Covers t.value := by
  rw [Token.tokens] at scanned
  split at scanned
  · cases scanned
  simp only at scanned
  split at scanned
  · cases scanned
  cases scanned
  intro t member
  rcases List.mem_append.mp member with inside | last
  · exact fun c occurs => covers c (Token.scan_subset t inside occurs)
  · obtain rfl := List.mem_singleton.mp last
    have ending : alphabet.Covers "EOF" := ascii.covers (by decide)
    exact ending

namespace Document

def Phase.Covered (alphabet : Alphabet) : Phase → Prop
  | .inside inner outer _ => inner.Covered alphabet ∧ ∀ element ∈ outer, element.Covered alphabet
  | _ => True

structure State.Covered (alphabet : Alphabet) (s : State) : Prop where
  elements : ∀ element ∈ s.document.elements, element.Covered alphabet
  phase : s.phase.Covered alphabet

variable {s next : State} {t : Token} {index : Int}

theorem State.finish_covered {element : Element} {outer : List Element}
    (elements : ∀ element ∈ s.document.elements, element.Covered alphabet)
    (covered : element.Covered alphabet) (around : ∀ element ∈ outer, element.Covered alphabet) :
    (s.finish element outer).Covered alphabet := by
  cases outer with
  | nil =>
    refine ⟨?_, trivial⟩
    intro other member
    rcases List.mem_append.mp member with before | last
    · exact elements other before
    · obtain rfl := List.mem_singleton.mp last
      exact covered
  | cons parent outer =>
    obtain ⟨⟨tag, attributes, children⟩, outside⟩ := List.forall_mem_cons.mp around
    refine ⟨elements, .intro tag attributes ?_, outside⟩
    intro child member
    rcases List.mem_append.mp member with before | last
    · exact children child before
    · obtain rfl := List.mem_singleton.mp last
      exact covered

theorem enter_covered {document : Document} {outer : List Element}
    (elements : ∀ element ∈ document.elements, element.Covered alphabet)
    (around : ∀ element ∈ outer, element.Covered alphabet) (covers : alphabet.Covers t.value)
    (entered : ((enter outer index t).map fun phase => (⟨document, phase⟩ : State)) = .ok next) :
    next.Covered alphabet := by
  unfold enter at entered
  split at entered
  · cases entered
    exact ⟨elements, .intro covers Attributes.covered_empty (by simp), around⟩
  · cases entered

theorem step_covered (covered : s.Covered alphabet) (covers : alphabet.Covers t.value)
    (stepped : step s index t = .ok next) : next.Covered alphabet := by
  obtain ⟨document, phase⟩ := s
  obtain ⟨elements, open_⟩ := covered
  cases phase with
  | between =>
    simp only [step] at stepped
    split at stepped
    · split at stepped
      · cases stepped
        exact ⟨elements, trivial⟩
      · cases stepped
    · cases stepped
      exact ⟨elements, trivial⟩
    · exact enter_covered elements (by simp) covers stepped
  | inside inner outer due =>
    obtain ⟨⟨tag, attributes, children⟩, around⟩ := open_
    cases due with
    | colon =>
      simp only [step] at stepped
      split at stepped
      · cases stepped
        exact ⟨elements, .intro tag attributes children, around⟩
      · cases stepped
    | item =>
      simp only [step] at stepped
      split at stepped
      · cases stepped
        exact State.finish_covered elements (.intro tag attributes children) around
      · exact enter_covered elements
          (List.forall_mem_cons.mpr ⟨.intro tag attributes children, around⟩) covers stepped
      · cases stepped
        exact ⟨elements, .intro tag attributes children, around⟩
      · cases stepped
    | blockOrColon category =>
      simp only [step] at stepped
      split at stepped
      · cases stepped
        exact ⟨elements, .intro tag attributes children, around⟩
      · cases stepped
        exact ⟨elements, .intro tag (attributes.set category covers) children, around⟩
      · cases stepped
    | block category =>
      simp only [step] at stepped
      split at stepped
      · cases stepped
        exact ⟨elements, .intro tag (attributes.set category covers) children, around⟩
      · cases stepped
  | _ =>
    simp only [step] at stepped
    split at stepped
    · cases stepped
      exact ⟨elements, trivial⟩
    · cases stepped

theorem read_covered {tokens : List Token} (covered : s.Covered alphabet)
    (covers : ∀ t ∈ tokens, alphabet.Covers t.value) : (read s index tokens).state.Covered alphabet := by
  induction tokens generalizing s index with
  | nil => exact covered
  | cons t rest ih =>
    obtain ⟨first, later⟩ := List.forall_mem_cons.mp covers
    unfold read
    split
    · exact covered
    · cases stepped : step s index t with
      | error fault => exact covered
      | ok next => exact ih (step_covered covered first stepped) later

theorem ofTokens_covered {tokens : List Token} {d : Document} (read : ofTokens tokens = .ok d)
    (covers : ∀ t ∈ tokens, alphabet.Covers t.value) :
    ∀ element ∈ d.elements, element.Covered alphabet := by
  have start : State.Covered alphabet {} := ⟨by simp, trivial⟩
  rw [ofTokens] at read
  split at read
  · cases read
    exact (read_covered start covers).elements
  · cases read

end Document

/-! ### Rendering -/

namespace Attributes

variable (marks : alphabet.HasMarks)

include marks

theorem written_covered {name value : String} (named : alphabet.Covers name)
    (valued : alphabet.Covers value) : alphabet.Covers (written name value) := by
  have space : alphabet.Covers " " := marks.covers (by decide)
  have opens : alphabet.Covers "=\"" := marks.covers (by decide)
  have closes : alphabet.Covers "\"" := marks.covers (by decide)
  simp [written, space, opens, closes, named, valued]

theorem stylesHtml_covered {styles : List (String × String)}
    (covered : ∀ pair ∈ styles, alphabet.Covers pair.1 ∧ alphabet.Covers pair.2) :
    alphabet.Covers (stylesHtml styles) := by
  unfold stylesHtml
  split
  · exact marks.covers (by decide)
  · apply written_covered marks (marks.covers (by decide))
    apply Alphabet.covers_intercalate (marks.covers (by decide))
    intro text member
    obtain ⟨pair, listed, rfl⟩ := List.mem_map.mp member
    have colon : alphabet.Covers ":" := marks.covers (by decide)
    simp [covered pair listed, colon]

theorem namesHtml_covered {name : String} {names : List String} (named : alphabet.Covers name)
    (covered : ∀ entry ∈ names, alphabet.Covers entry) : alphabet.Covers (namesHtml name names) := by
  unfold namesHtml
  split
  · exact marks.covers (by decide)
  · exact written_covered marks named (Alphabet.covers_intercalate (marks.covers (by decide)) covered)

theorem pairsHtml_covered {head : String} {pairs : List (String × String)} (headed : alphabet.Covers head)
    (covered : ∀ pair ∈ pairs, alphabet.Covers pair.1 ∧ alphabet.Covers pair.2) :
    alphabet.Covers (pairsHtml head pairs) := by
  apply Alphabet.covers_join
  intro text member
  obtain ⟨pair, listed, rfl⟩ := List.mem_map.mp member
  obtain ⟨key, value⟩ := covered pair listed
  exact written_covered marks (Alphabet.covers_append.mpr ⟨headed, key⟩) value

theorem Covered.html {attributes : Attributes} (covered : attributes.Covered alphabet) :
    alphabet.Covers attributes.html := by
  simp only [Attributes.html, Alphabet.covers_append]
  exact ⟨⟨⟨⟨stylesHtml_covered marks covered.styles,
    pairsHtml_covered marks (marks.covers (by decide)) covered.dataset⟩,
    namesHtml_covered marks (marks.covers (by decide)) covered.ids⟩,
    namesHtml_covered marks (marks.covers (by decide)) covered.classes⟩,
    pairsHtml_covered marks (marks.covers (by decide)) covered.props⟩

theorem Covered.text {attributes : Attributes} (covered : attributes.Covered alphabet) :
    alphabet.Covers attributes.text := by
  unfold Attributes.text
  cases content : attributes.content with
  | none => exact marks.covers (by decide)
  | some text => exact covered.content text content

end Attributes

def Components.Covered (alphabet : Alphabet) (components : Components) : Prop :=
  ∀ name html, Table.find? components name = some html → alphabet.Covers html

variable {components : Components}

theorem Components.Covered.store {name html : String}
    (stored : Components.Covered alphabet components) (covers : alphabet.Covers html) :
    Components.Covered alphabet (Table.store components name html) := by
  intro other found
  rw [Table.find?_store]
  split
  · rintro ⟨⟩
    exact covers
  · exact stored other found

namespace Element

mutual

theorem html_covered (ascii : alphabet.HasPlainAscii) (finished : Components.Covered alphabet components) :
    ∀ {element : Element}, element.Covered alphabet → alphabet.Covers (element.html components)
  | ⟨tag, attributes, closed, children, position⟩, .intro named covered inside => by
    rw [html]
    split
    · rename_i component found
      exact finished tag component found
    · have opens : alphabet.Covers "<" := ascii.covers (by decide)
      have ends : alphabet.Covers ">" := ascii.covers (by decide)
      have closes : alphabet.Covers "</" := ascii.covers (by decide)
      have closing : alphabet.Covers
          (if isVoid closed attributes children then "" else "</" ++ tag ++ ">") := by
        split
        · exact ascii.covers (by decide)
        · simp [closes, ends, show alphabet.Covers tag from named]
      simp [opens, ends, closing, show alphabet.Covers tag from named, covered.html ascii.marks,
        covered.text ascii.marks, childrenHtml_covered ascii finished inside]

theorem childrenHtml_covered (ascii : alphabet.HasPlainAscii)
    (finished : Components.Covered alphabet components) :
    ∀ {children : List Element}, (∀ child ∈ children, child.Covered alphabet) →
      alphabet.Covers (childrenHtml components children)
  | [], _ => by
    rw [childrenHtml]
    exact ascii.covers (by decide)
  | child :: rest, covered => by
    obtain ⟨first, later⟩ := List.forall_mem_cons.mp covered
    rw [childrenHtml, Alphabet.covers_append]
    exact ⟨html_covered ascii finished first, childrenHtml_covered ascii finished later⟩

end

end Element

theorem Html.render_covered (ascii : alphabet.HasPlainAscii) (finished : Components.Covered alphabet components)
    {elements : List Element} (covered : ∀ element ∈ elements, element.Covered alphabet) :
    alphabet.Covers (Html.render components elements) := by
  apply Alphabet.covers_intercalate (ascii.covers (by decide))
  intro text member
  obtain ⟨element, listed, rfl⟩ := List.mem_map.mp member
  exact Element.html_covered ascii finished (covered element listed)

end

end ElementMarkup
