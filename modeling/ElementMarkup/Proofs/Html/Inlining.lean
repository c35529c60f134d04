import ElementMarkup.Html
import ElementMarkup.Proofs.Table

/-!
Components and inlining. To use a component that is one rendered element is to write that element in
every place where the component is named.
-/

namespace ElementMarkup

namespace Element

mutual

/-- An element with `body` in place of every element of a name. `body` itself is not looked into. -/
def inline (name : String) (body : Element) : Element → Element
  | ⟨tag, attributes, closed, children, position⟩ =>
    if tag = name then body
    else ⟨tag, attributes, closed, inlineAll name body children, position⟩

def inlineAll (name : String) (body : Element) : List Element → List Element
  | [] => []
  | child :: rest => inline name body child :: inlineAll name body rest

end

variable (components : Components) (name : String) (body : Element)

theorem inlineAll_eq_map (elements : List Element) :
    inlineAll name body elements = elements.map (inline name body) := by
  induction elements with
  | nil => rfl
  | cons child rest ih => rw [inlineAll, ih, List.map_cons]

/-- A parent has children before inlining exactly if it has some after it. -/
theorem isVoid_inlineAll (closed : Bool) (attributes : Attributes) (children : List Element) :
    isVoid closed attributes (inlineAll name body children) = isVoid closed attributes children := by
  rw [inlineAll_eq_map, isVoid, isVoid, List.isEmpty_map]

mutual

theorem html_inline : ∀ (element : Element),
    (inline name body element).html components =
      element.html (Table.store components name (body.html components))
  | ⟨tag, attributes, closed, children, position⟩ => by
    rw [inline]
    by_cases named : tag = name
    · rw [if_pos named, html, named, Table.find?_store_same]
    · rw [if_neg named, html, html, Table.find?_store_other components _ named,
        isVoid_inlineAll, childrenHtml_inlineAll children]

theorem childrenHtml_inlineAll : ∀ (children : List Element),
    childrenHtml components (inlineAll name body children) =
      childrenHtml (Table.store components name (body.html components)) children
  | [] => rfl
  | child :: rest => by
    rw [inlineAll, childrenHtml, childrenHtml, html_inline child, childrenHtml_inlineAll rest]

end

end Element

namespace Html

theorem render_singleton (components : Components) (element : Element) :
    render components [element] = element.html components := by
  rw [render, List.map_singleton, String.intercalate_singleton]

/-- Rendering with one more component is rendering with its body inlined. -/
theorem render_component_eq_render_inlined (components : Components) (name : String) (body : Element)
    (elements : List Element) :
    render (Table.store components name (render components [body])) elements =
      render components (Element.inlineAll name body elements) := by
  rw [render_singleton, Element.inlineAll_eq_map, render, render, List.map_map]
  congr 1
  apply List.map_congr_left
  intro element _
  exact (Element.html_inline components name body element).symm

end Html

end ElementMarkup
