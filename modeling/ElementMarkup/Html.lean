import ElementMarkup.Component
import ElementMarkup.Element
import ElementMarkup.Journal

/-!
Elements as HTML. An element whose tag names a component is replaced by the component; any other is
written with its attributes in a fixed order, its content, its children and, unless it is a closed
leaf without content, a closing tag.
-/

namespace ElementMarkup

namespace Attributes

def written (name value : String) : String := " " ++ name ++ "=\"" ++ value ++ "\""

def declarations (styles : List (String × String)) : String :=
  ";".intercalate (styles.map fun (key, value) => key ++ ":" ++ value)

def stylesHtml (styles : List (String × String)) : String :=
  if styles.isEmpty then "" else written "style" (declarations styles)

def namesHtml (name : String) (names : List String) : String :=
  if names.isEmpty then "" else written name (" ".intercalate names)

def pairsHtml (head : String) (pairs : List (String × String)) : String :=
  String.join (pairs.map fun (key, value) => written (head ++ key) value)

/-- What the opening tag says after its name. -/
def html (attributes : Attributes) : String :=
  stylesHtml attributes.styles ++ pairsHtml "data-" attributes.dataset ++
    namesHtml "id" attributes.ids ++ namesHtml "class" attributes.classes ++
    pairsHtml "" attributes.props

/-- The text of an element before its children. -/
def text (attributes : Attributes) : String := attributes.content.getD ""

end Attributes

namespace Element

/-- Whether an element is written without a closing tag. -/
def isVoid (closed : Bool) (attributes : Attributes) (children : List Element) : Bool :=
  closed && children.isEmpty && attributes.text.isEmpty

mutual

def html (components : Components) : Element → String
  | ⟨tag, attributes, closed, children, _⟩ =>
    match Table.find? components tag with
    | some component => component
    | none =>
      "<" ++ tag ++ attributes.html ++ ">" ++ attributes.text ++ childrenHtml components children ++
        (if isVoid closed attributes children then "" else "</" ++ tag ++ ">")

def childrenHtml (components : Components) : List Element → String
  | [] => ""
  | child :: rest => child.html components ++ childrenHtml components rest

end

mutual

/-- The tags that stand for components, in the order in which they are replaced. -/
def substituted (components : Components) : Element → List String
  | ⟨tag, _, _, children, _⟩ =>
    if Table.has components tag then [tag] else childrenSubstituted components children

def childrenSubstituted (components : Components) : List Element → List String
  | [] => []
  | child :: rest => child.substituted components ++ childrenSubstituted components rest

end

end Element

namespace Html

/-- The HTML of a forest, one line to each root. -/
def render (components : Components) (elements : List Element) : String :=
  "\n".intercalate (elements.map (·.html components))

def records (components : Components) (elements : List Element) : List Record :=
  (Element.childrenSubstituted components elements).map
      (fun tag => ⟨3, "Substituting component '" ++ tag ++ "'"⟩) ++
    [⟨3, "Rendered " ++ toString elements.length ++ " top-level elements"⟩]

end Html

end ElementMarkup
