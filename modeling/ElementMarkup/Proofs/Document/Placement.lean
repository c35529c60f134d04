import ElementMarkup.Document.Reader

/-!
Positions in documents. `move` puts every position elsewhere. The reader passes positions on and
never looks at them, so that moving its tokens moves the document it reads, or the fault it finds,
and changes nothing else.
-/

namespace ElementMarkup

def Token.move (place : Int → Int) (t : Token) : Token := { t with position := place t.position }

theorem Token.move_kind (place : Int → Int) (t : Token) : (t.move place).kind = t.kind := rfl

namespace Element

mutual

def move (place : Int → Int) : Element → Element
  | ⟨tag, attributes, closed, children, position⟩ =>
    ⟨tag, attributes, closed, moveAll place children, place position⟩

def moveAll (place : Int → Int) : List Element → List Element
  | [] => []
  | child :: rest => child.move place :: moveAll place rest

end

theorem moveAll_eq_map (place : Int → Int) (elements : List Element) :
    moveAll place elements = elements.map (move place) := by
  induction elements with
  | nil => rfl
  | cons child rest ih => rw [moveAll, ih, List.map_cons]

theorem move_eq (place : Int → Int) (element : Element) :
    element.move place =
      { element with
        children := element.children.map (move place)
        position := place element.position } := by
  obtain ⟨tag, attributes, closed, children, position⟩ := element
  rw [move, moveAll_eq_map]

end Element

def Import.move (place : Int → Int) (i : Import) : Import := { i with position := place i.position }

namespace Document

def move (place : Int → Int) (d : Document) : Document :=
  ⟨d.imports.map (·.move place), d.elements.map (·.move place)⟩

def unplaced (d : Document) : Document := d.move fun _ => 0

def Phase.move (place : Int → Int) : Phase → Phase
  | .between => .between
  | .importName position => .importName (place position)
  | .importOrigin position name => .importOrigin (place position) name
  | .importPath position name => .importPath (place position) name
  | .importEnd position name path => .importEnd (place position) name path
  | .inside inner outer due => .inside (inner.move place) (outer.map (·.move place)) due

def State.move (place : Int → Int) (s : State) : State := ⟨s.document.move place, s.phase.move place⟩

def Fault.move (place : Int → Int) : Fault → Fault
  | .expected kind index found => .expected kind index (found.move place)
  | .stray tag index found => .stray tag index (found.move place)
  | .lateImport index found => .lateImport index (found.move place)
  | .noKeyword found => .noKeyword (found.move place)

def Stop.move (place : Int → Int) : Stop → Stop
  | .fault cause => .fault (cause.move place)
  | .offEnd => .offEnd

def Run.move (place : Int → Int) (run : Run) : Run :=
  ⟨run.state.move place, run.index, run.stop.map (Stop.move place)⟩

def moved {ε α : Type} (fault : ε → ε) (value : α → α) : Except ε α → Except ε α
  | .error e => .error (fault e)
  | .ok a => .ok (value a)

variable (place : Int → Int)

theorem State.move_addImport (s : State) (i : Import) :
    (s.addImport i).move place = (s.move place).addImport (i.move place) := by
  simp [State.addImport, State.move, Document.move, Phase.move]

theorem State.move_finish (s : State) (element : Element) (outer : List Element) :
    (s.finish element outer).move place =
      (s.move place).finish (element.move place) (outer.map (·.move place)) := by
  cases outer with
  | nil => simp [State.finish, State.move, Document.move, Phase.move]
  | cons parent outer => simp [State.finish, State.move, Phase.move, Element.move_eq]

theorem enter_move (outer : List Element) (index : Int) (t : Token) :
    enter (outer.map (·.move place)) index (t.move place) =
      moved (Fault.move place) (Phase.move place) (enter outer index t) := by
  by_cases tag : t.kind = .tag
  · simp [enter, Token.move, tag, moved, Phase.move, Element.move_eq]
  · simp [enter, Token.move, tag, moved, Fault.move]

theorem enter_move_state (document : Document) (outer : List Element) (index : Int) (t : Token) :
    ((enter (outer.map (·.move place)) index (t.move place)).map fun phase =>
        (⟨document.move place, phase⟩ : State)) =
      moved (Fault.move place) (State.move place)
        ((enter outer index t).map fun phase => ⟨document, phase⟩) := by
  rw [enter_move]
  cases enter outer index t <;> rfl

theorem step_move (s : State) (index : Int) (t : Token) :
    step (s.move place) index (t.move place) =
      moved (Fault.move place) (State.move place) (step s index t) := by
  obtain ⟨document, phase⟩ := s
  have kind : (t.move place).kind = t.kind := t.move_kind place
  have entered := enter_move_state place document
  cases phase with
  | between =>
    have top : (document.move place).elements.isEmpty = document.elements.isEmpty :=
      List.isEmpty_map
    simp only [step, State.move, Phase.move, kind, top]
    split
    · split <;> rfl
    · rfl
    · exact entered [] index t
  | inside inner outer due =>
    cases due with
    | item =>
      simp only [step, State.move, Phase.move, kind]
      split
      · rw [moved, State.move_finish, Element.move_eq, Element.move_eq]
        rfl
      · exact entered (inner :: outer) index t
      · rfl
      · rw [moved, Element.move_eq]
        rfl
    | _ =>
      simp only [step, State.move, Phase.move, kind]
      obtain ⟨tag, attributes, closed, children, position⟩ := inner
      split <;> rfl
  | importEnd position name path =>
    simp only [step, State.move, Phase.move, kind]
    split
    · rw [moved, State.move_addImport]
      rfl
    · rfl
  | _ =>
    simp only [step, State.move, Phase.move, kind]
    split <;> rfl

theorem State.atTop_move (s : State) : (s.move place).atTop = s.atTop := by
  obtain ⟨document, phase⟩ := s
  cases phase <;> rfl

theorem read_move (s : State) (index : Int) (tokens : List Token) :
    read (s.move place) index (tokens.map (·.move place)) = (read s index tokens).move place := by
  induction tokens generalizing s index with
  | nil => rfl
  | cons t rest ih =>
    rw [List.map_cons, read, read, State.atTop_move, step_move, Token.move_kind]
    by_cases ends : s.atTop = true ∧ t.kind = .finish
    · rw [if_pos ends, if_pos ends]
      rfl
    · rw [if_neg ends, if_neg ends]
      cases step s index t with
      | error fault => rfl
      | ok next => exact ih next (index + 1)

theorem ofTokens_move (tokens : List Token) :
    ofTokens (tokens.map (·.move place)) =
      moved (Stop.move place) (Document.move place) (ofTokens tokens) := by
  have start : read {} 0 (tokens.map (·.move place)) = (read {} 0 tokens).move place :=
    read_move place {} 0 tokens
  rw [ofTokens, start, ofTokens]
  cases stop : (read {} 0 tokens).stop with
  | none => simp [Run.move, stop, moved, State.move]
  | some stop' => simp [Run.move, stop, moved]

/-- What is read from tokens up to positions is read from the tokens, up to positions. -/
theorem ofTokens_of_move {tokens : List Token} {d : Document}
    (read : ofTokens (tokens.map (·.move place)) = .ok d) :
    ∃ e, ofTokens tokens = .ok e ∧ e.move place = d := by
  rw [ofTokens_move] at read
  cases own : ofTokens tokens with
  | error stop =>
    rw [own] at read
    cases read
  | ok e =>
    rw [own] at read
    cases read
    exact ⟨e, rfl, rfl⟩

end Document

end ElementMarkup
