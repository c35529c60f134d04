import ElementMarkup.Html
import ElementMarkup.Proofs.Document.Placement
import ElementMarkup.Proofs.Table

/-!
What the HTML of elements depends on: of the components, only those that the elements' own tags name,
and nothing of where the elements stood in their source.
-/

namespace ElementMarkup

namespace Element

mutual

def tags : Element → List String
  | ⟨tag, _, _, children, _⟩ => tag :: childrenTags children

def childrenTags : List Element → List String
  | [] => []
  | child :: rest => child.tags ++ childrenTags rest

end

variable {components others : Components}

mutual

theorem html_congr : ∀ (element : Element),
    (∀ tag ∈ element.tags, Table.find? components tag = Table.find? others tag) →
    element.html components = element.html others
  | ⟨tag, attributes, closed, children, position⟩, same => by
    have own : Table.find? components tag = Table.find? others tag := same tag (by simp [tags])
    have inside : childrenHtml components children = childrenHtml others children :=
      childrenHtml_congr children fun tag member => same tag (by simp [tags, member])
    rw [html, html, own, inside]

theorem childrenHtml_congr : ∀ (children : List Element),
    (∀ tag ∈ childrenTags children, Table.find? components tag = Table.find? others tag) →
    childrenHtml components children = childrenHtml others children
  | [], _ => rfl
  | child :: rest, same => by
    have first := html_congr child fun tag member => same tag (by simp [childrenTags, member])
    have later := childrenHtml_congr rest fun tag member => same tag (by simp [childrenTags, member])
    rw [childrenHtml, childrenHtml, first, later]

end

end Element

theorem Html.render_congr {components others : Components} (elements : List Element)
    (same : ∀ tag ∈ Element.childrenTags elements,
      Table.find? components tag = Table.find? others tag) :
    Html.render components elements = Html.render others elements := by
  have each : elements.map (·.html components) = elements.map (·.html others) := by
    induction elements with
    | nil => rfl
    | cons element rest ih =>
      have first := element.html_congr fun tag member => same tag (by simp [Element.childrenTags, member])
      have later := ih fun tag member => same tag (by simp [Element.childrenTags, member])
      rw [List.map_cons, List.map_cons, first, later]
  rw [Html.render, Html.render, each]

namespace Element

variable (components : Components) (place : Int → Int)

theorem isVoid_moveAll (closed : Bool) (attributes : Attributes) (children : List Element) :
    isVoid closed attributes (moveAll place children) = isVoid closed attributes children := by
  rw [moveAll_eq_map, isVoid, isVoid, List.isEmpty_map]

mutual

theorem html_move : ∀ (element : Element), (element.move place).html components = element.html components
  | ⟨tag, attributes, closed, children, position⟩ => by
    rw [move, html, html, childrenHtml_moveAll children, isVoid_moveAll]

theorem childrenHtml_moveAll : ∀ (children : List Element),
    childrenHtml components (moveAll place children) = childrenHtml components children
  | [] => rfl
  | child :: rest => by
    rw [moveAll, childrenHtml, childrenHtml, html_move child, childrenHtml_moveAll rest]

end

end Element

theorem Html.render_move (components : Components) (place : Int → Int) (elements : List Element) :
    Html.render components (elements.map (·.move place)) = Html.render components elements := by
  rw [Html.render, Html.render, List.map_map]
  congr 1
  apply List.map_congr_left
  intro element _
  exact element.html_move components place

theorem Html.render_append (components : Components) {elements others : List Element}
    (nonempty : elements ≠ []) (more : others ≠ []) :
    Html.render components (elements ++ others) =
      Html.render components elements ++ "\n" ++ Html.render components others := by
  rw [Html.render, List.map_append]
  apply String.intercalate_append_of_ne_nil
  · simpa using nonempty
  · simpa using more

end ElementMarkup
