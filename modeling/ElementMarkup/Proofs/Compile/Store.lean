import Mathlib.Data.List.Induction
import ElementMarkup.Proofs.Compile.Nesting

/-!
The store of components along a compile. The store at any moment is the one at the start with the
events up to that moment replayed. Entries are never lost, and a name is stored a second time only
by an import during which, further inside, the same name was stored already: it was not there when
the import began, and nobody asks again when it ends.
-/

namespace ElementMarkup.Compile

def Event.apply (components : Components) : Event → Components
  | .entered _ _ _ => components
  | .stored name html => Table.store components name html

def replay (components : Components) (events : List Event) : Components :=
  events.foldl Event.apply components

def storedNames (events : List Event) : List String :=
  events.filterMap fun
    | .entered _ _ _ => none
    | .stored name _ => some name

section

variable (components : Components) (events more : List Event) (name target html : String) (inner : Scope)

@[simp] theorem replay_nil : replay components [] = components := rfl

@[simp] theorem replay_entered :
    replay components (.entered name target inner :: events) = replay components events := rfl

@[simp] theorem replay_stored :
    replay components (.stored name html :: events) =
      replay (Table.store components name html) events := rfl

@[simp] theorem replay_append :
    replay components (events ++ more) = replay (replay components events) more :=
  List.foldl_append

@[simp] theorem storedNames_nil : storedNames [] = [] := rfl

@[simp] theorem storedNames_entered :
    storedNames (.entered name target inner :: events) = storedNames events := rfl

@[simp] theorem storedNames_stored :
    storedNames (.stored name html :: events) = name :: storedNames events := rfl

@[simp] theorem storedNames_append :
    storedNames (events ++ more) = storedNames events ++ storedNames more :=
  List.filterMap_append

/-- Events find the same under a name whatever was stored before, unless they do not store it. -/
theorem find?_replay :
    Table.find? (replay components events) name =
      (Table.find? (replay [] events) name).or (Table.find? components name) := by
  induction events using List.reverseRecOn with
  | nil => simp
  | append_singleton events event ih =>
    cases event with
    | entered other target inner => simpa using ih
    | stored other html =>
      by_cases same : name = other
      · simp [same]
      · simpa [Table.find?_store_other _ _ same] using ih

theorem has_replay :
    Table.has (replay components events) name = true ↔
      name ∈ storedNames events ∨ Table.has components name = true := by
  induction events generalizing components with
  | nil => simp
  | cons event events ih =>
    cases event with
    | entered other target inner => simpa using ih components
    | stored other html =>
      rw [replay_stored, ih, Table.has_store, storedNames_stored, List.mem_cons, Bool.or_eq_true,
        decide_eq_true_eq, or_left_comm, or_assoc]

end

section

variable {context : Context} {fuel : Nat} {scope : Scope} {d : Document} {p : Progress}
  {events : List Event} {outcome : Outcome String} {html : String}

theorem Refusal.components {i : Import} {fault : Fault} {after : Progress}
    (refusal : Refusal context scope i p fault after) : after.components = p.components := by
  cases refusal <;> rfl

theorem Run.replay_eq (run : Run context fuel scope d p events outcome) :
    outcome.2.components = replay p.components events := by
  induction run with
  | rendered | cut | unread => rfl
  | reused present tail ih => exact ih
  | refused absent refusal => exact refusal.components
  | failed absent opens read inner ih => exact ih
  | stored absent opens read inner tail ihInner ihTail =>
    simp only [Progress.note_components, Progress.enter_components] at ihInner
    rw [ihTail, Progress.store_components, ihInner]
    simp

theorem Run.keeps_names {name : String} (run : Run context fuel scope d p events outcome)
    (present : Table.has p.components name = true) :
    Table.has outcome.2.components name = true := by
  rw [run.replay_eq, has_replay]
  exact Or.inr present

theorem Run.imports_stored (run : Run context fuel scope d p events outcome)
    (succeeds : outcome.1 = .ok html) :
    ∀ i ∈ d.imports, Table.has outcome.2.components i.name = true := by
  induction run with
  | rendered => simp
  | refused | cut | unread | failed => cases succeeds
  | reused present tail ih =>
    intro i member
    rcases List.mem_cons.mp member with rfl | member
    · exact tail.keeps_names present
    · exact ih succeeds i member
  | stored absent opens read inner tail ihInner ihTail =>
    intro i member
    rcases List.mem_cons.mp member with rfl | member
    · exact tail.keeps_names (by simp)
    · exact ihTail succeeds i member

/-- The HTML of a source is rendered with the store that its compile leaves behind. -/
theorem Run.html_eq (run : Run context fuel scope d p events outcome)
    (succeeds : outcome.1 = .ok html) : html = Html.render outcome.2.components d.elements := by
  induction run with
  | rendered => exact (Except.ok.inj succeeds).symm
  | refused | cut | unread | failed => cases succeeds
  | reused present tail ih => exact ih succeeds
  | stored absent opens read inner tail ihInner ihTail => exact ihTail succeeds

/-! ### Whole imports -/

inductive Balanced : List Event → Prop where
  | nil : Balanced []
  | whole {name target html : String} {inner : Scope} {inside rest : List Event}
      (nested : Balanced inside) (later : Balanced rest) :
      Balanced (.entered name target inner :: inside ++ .stored name html :: rest)

theorem Run.balanced (run : Run context fuel scope d p events outcome)
    (succeeds : outcome.1 = .ok html) : Balanced events := by
  induction run generalizing html with
  | rendered => exact .nil
  | refused | cut | unread | failed => cases succeeds
  | reused present tail ih => exact ih succeeds
  | stored absent opens read inner tail ihInner ihTail => exact .whole (ihInner rfl) (ihTail succeeds)

/-- Where a list is split at an element, as seen from another split of it. -/
theorem append_cons_cases {α : Type} {xs ys zs ws : List α} {x y : α}
    (split : xs ++ x :: ys = zs ++ y :: ws) :
    (∃ rest, xs = zs ++ y :: rest) ∨ (zs = xs ∧ x = y ∧ ys = ws) ∨
      ∃ rest, zs = xs ++ x :: rest ∧ ys = rest ++ y :: ws := by
  induction xs generalizing zs with
  | nil =>
    cases zs with
    | nil => simpa using split
    | cons z zs =>
      simp only [List.nil_append, List.cons_append, List.cons.injEq] at split
      obtain ⟨rfl, rfl⟩ := split
      exact Or.inr (Or.inr ⟨zs, rfl, rfl⟩)
  | cons first xs ih =>
    cases zs with
    | nil =>
      simp only [List.nil_append, List.cons_append, List.cons.injEq] at split
      exact Or.inl ⟨xs, by simp [split.1]⟩
    | cons z zs =>
      simp only [List.cons_append, List.cons.injEq] at split
      obtain ⟨rfl, split⟩ := split
      rcases ih split with ⟨rest, rfl⟩ | ⟨rfl, rfl, rfl⟩ | ⟨rest, rfl, rfl⟩
      · exact Or.inl ⟨rest, rfl⟩
      · exact Or.inr (Or.inl ⟨rfl, rfl, rfl⟩)
      · exact Or.inr (Or.inr ⟨rest, rfl, rfl⟩)

/-- Whose imports a run resolves: its own, or those of a file that it has entered. -/
inductive Importer (context : Context) (scope : Scope) (d : Document) (events : List Event) :
    Scope → Document → Prop where
  | self : Importer context scope d events scope d
  | file {name target text : String} {inner : Scope} {e : Document} {records : List Record}
      (entered : .entered name target inner ∈ events)
      (found : Table.find? context.files target = some (.ok text))
      (read : document context.wide context.width text = (.ok e, records)) :
      Importer context scope d events inner e

/-- From `q` on, the file that an import leads to compiles through `inside` to `html`. -/
def Yields (context : Context) (importer : Scope) (i : Import) (q : Progress) (inside : List Event)
    (html : String) : Prop :=
  ∃ text fuel, Table.find? context.files (importer.target i) = some (.ok text) ∧
    (compileWithin context fuel (importer.enter (importer.target i)) text q).1 = .ok html ∧
    historyWithin context fuel (importer.enter (importer.target i)) text q = inside

/-- Events that end with a whole import of a name that was not stored before. -/
inductive Finishes (context : Context) (scope : Scope) (d : Document) (components : Components) :
    List Event → String → String → Prop where
  | whole {front inside : List Event} {inner : Scope} {e : Document} {i : Import} {q : Progress}
      {html : String} (importer : Importer context scope d front inner e) (member : i ∈ e.imports)
      (store : q.components = replay components front)
      (absent : Table.has q.components i.name = false) (balanced : Balanced inside)
      (yields : Yields context inner i q inside html) :
      Finishes context scope d components
        (front ++ .entered i.name (inner.target i) (inner.enter (inner.target i)) :: inside) i.name html

theorem Finishes.enter {i : Import} {text name : String} {e : Document} {records : List Record}
    {components : Components} {before : List Event}
    (finishes : Finishes context (scope.enter (scope.target i)) e components before name html)
    (opens : Opens context scope i text)
    (read : document context.wide context.width text = (.ok e, records)) :
    Finishes context scope d components
      (.entered i.name (scope.target i) (scope.enter (scope.target i)) :: before) name html := by
  obtain ⟨importer, member, store, absent, balanced, yields⟩ := finishes
  rw [← List.cons_append]
  refine .whole ?_ member (by rwa [replay_entered]) absent balanced yields
  cases importer with
  | self => exact .file (List.mem_cons_self ..) opens.found read
  | file entered found read => exact .file (List.mem_cons_of_mem _ entered) found read

theorem Finishes.later {e : Document} {name : String} {components : Components} {before : List Event}
    (earlier : List Event)
    (finishes : Finishes context scope e (replay components earlier) before name html)
    (included : ∀ i ∈ e.imports, i ∈ d.imports) :
    Finishes context scope d components (earlier ++ before) name html := by
  obtain ⟨importer, member, store, absent, balanced, yields⟩ := finishes
  rw [← List.append_assoc]
  have storeToo := store.trans (replay_append ..).symm
  cases importer with
  | self => exact .whole .self (included _ member) storeToo absent balanced yields
  | file entered found read =>
    exact .whole (.file (List.mem_append_right _ entered) found read) member storeToo absent balanced yields

/-- Every store ends an import that began when its name was not there. -/
theorem Run.finishes_import (run : Run context fuel scope d p events outcome)
    {before after : List Event} {name html : String} (split : events = before ++ .stored name html :: after) :
    Finishes context scope d p.components before name html := by
  induction run generalizing before after with
  | rendered | refused => simp at split
  | reused present tail ih => exact (ih split).later [] (by simp +contextual)
  | cut | unread => cases before <;> simp at split
  | failed absent opens read inner ih =>
    cases before with
    | nil => simp at split
    | cons event before =>
      simp only [List.cons_append, List.cons.injEq] at split
      obtain ⟨rfl, split⟩ := split
      exact (ih split).enter opens read
  | @stored fuel scope i rest elements p finished text d records events more stored outcome absent opens
      read inner tail ihInner ihTail =>
    cases before with
    | nil => simp at split
    | cons event before =>
      simp only [List.cons_append, List.cons.injEq] at split
      obtain ⟨rfl, split⟩ := split
      -- the store lies inside this import, ends it, or comes after it
      rcases append_cons_cases split with ⟨later, same⟩ | ⟨rfl, same, -⟩ | ⟨earlier, rfl, same⟩
      · exact (ihInner same).enter opens read
      · obtain ⟨rfl, rfl⟩ := Event.stored.inj same
        obtain ⟨history, compiled⟩ := (run_iff read fuel _ (p.enter i.name (scope.target i)) _ _).mp inner
        have yields : Yields context scope i (p.enter i.name (scope.target i)) before stored :=
          ⟨text, fuel + 1, opens.found, by rw [← compiled], history.symm⟩
        change Finishes context scope _ p.components ([] ++ _ :: before) i.name stored
        exact .whole (q := p.enter i.name (scope.target i)) .self (List.mem_cons_self ..) rfl absent
          (inner.balanced rfl) yields
      · have replayed : (finished.store i.name stored).components = replay p.components
            (.entered i.name (scope.target i) (scope.enter (scope.target i)) :: events ++
              [.stored i.name stored]) := by
          have inside : finished.components = replay p.components events := inner.replay_eq
          simp [inside]
        have finishes := ihTail same
        rw [replayed] at finishes
        simpa using finishes.later _ (by simp +contextual)

theorem Run.store_ends_import (run : Run context fuel scope d p events outcome)
    {before after : List Event} {name html : String} (split : events = before ++ .stored name html :: after) :
    ∃ front target inner inside, before = front ++ .entered name target inner :: inside ∧
      Balanced inside ∧ Table.has (replay p.components front) name = false := by
  obtain ⟨importer, member, store, absent, balanced, yields⟩ := run.finishes_import split
  exact ⟨_, _, _, _, rfl, balanced, by rwa [← store]⟩

theorem historyWithin_store_ends_import {source : String} {before after : List Event}
    {name html : String}
    (split : historyWithin context fuel scope source p = before ++ .stored name html :: after) :
    ∃ front target inner inside, before = front ++ .entered name target inner :: inside ∧
      Balanced inside ∧ Table.has (replay p.components front) name = false := by
  cases fuel with
  | zero => simp [historyWithin] at split
  | succ fuel =>
    rcases read : document context.wide context.width source with ⟨failure | d, records⟩
    · simp [historyWithin_unread read] at split
    · exact (compileWithin_run read fuel scope p).store_ends_import split

theorem compileWithin_replay (context : Context) (fuel : Nat) (scope : Scope) (source : String)
    (p : Progress) :
    replay p.components (historyWithin context fuel scope source p) =
      (compileWithin context fuel scope source p).2.components := by
  cases fuel with
  | zero => rfl
  | succ fuel =>
    rcases read : document context.wide context.width source with ⟨failure | d, records⟩
    · rw [historyWithin_unread read, compileWithin_unread read]
      rfl
    · exact (compileWithin_run read fuel scope p).replay_eq.symm

end

def StoresOnce (components : Components) (events : List Event) : Prop :=
  ∀ before name html after, events = before ++ .stored name html :: after →
    Table.has (replay components before) name = false

/-- A name that is there at one moment has the same HTML at every later one. -/
def KeepsHtml (components : Components) (events : List Event) : Prop :=
  ∀ before middle after name html, events = before ++ middle ++ after →
    Table.find? (replay components before) name = some html →
    Table.find? (replay components (before ++ middle)) name = some html

/-- An import of `name` that ends with `html`, and what happens inside it. -/
def Whole (events : List Event) (name html : String) (inside : List Event) : Prop :=
  ∃ before target inner after, Balanced inside ∧
    events = before ++ .entered name target inner :: inside ++ .stored name html :: after

theorem keepsHtml_iff {components : Components} {events : List Event} :
    KeepsHtml components events ↔ ∀ before name html after, events = before ++ .stored name html :: after →
      ∀ other, Table.find? (replay components before) name = some other → other = html := by
  constructor
  · intro keeps before name html after split other found
    have later := keeps before [.stored name html] after name other (by simp [split]) found
    simpa using later.symm
  · -- HTML that was there changes at a store of its own name or not at all
    intro same before middle
    induction middle using List.reverseRecOn with
    | nil => simp
    | append_singleton middle event ih =>
      intro after name html split found
      have earlier := ih (event :: after) name html (by simp [split]) found
      cases event with
      | entered other target inner => simpa using earlier
      | stored other stored =>
        rw [← List.append_assoc, replay_append]
        by_cases again : name = other
        · subst again
          have equal := same (before ++ middle) name stored after (by simp [split]) html earlier
          simp [equal]
        · simpa [Table.find?_store_other _ _ again] using earlier

/-- The store is written once exactly if no name is stored inside an import of that name. The HTML
never changes exactly if it is stored there the same. -/
theorem stored_once_iff (context : Context) (fuel : Nat) (scope : Scope) (source : String)
    (p : Progress) :
    replay p.components (historyWithin context fuel scope source p) =
      (compileWithin context fuel scope source p).2.components ∧
    (StoresOnce p.components (historyWithin context fuel scope source p) ↔
      ∀ name html inside, Whole (historyWithin context fuel scope source p) name html inside →
        name ∉ storedNames inside) ∧
    (KeepsHtml p.components (historyWithin context fuel scope source p) ↔
      ∀ name html inside, Whole (historyWithin context fuel scope source p) name html inside →
        ∀ other, Table.find? (replay [] inside) name = some other → other = html) := by
  refine ⟨compileWithin_replay context fuel scope source p, ⟨?_, ?_⟩, keepsHtml_iff.trans ⟨?_, ?_⟩⟩
  · rintro once name html inside ⟨before, target, inner, after, -, split⟩ again
    have absent := once (before ++ .entered name target inner :: inside) name html after (by simp [split])
    have present : Table.has (replay p.components (before ++ .entered name target inner :: inside)) name =
        true := (has_replay _ _ _).mpr (Or.inl (by simp [again]))
    rw [present] at absent
    cases absent
  · intro outside before name html after split
    obtain ⟨front, target, inner, inside, rfl, balanced, fresh⟩ :=
      historyWithin_store_ends_import split
    have whole := outside name html inside ⟨front, target, inner, after, balanced, by simpa using split⟩
    rw [← Bool.not_eq_true, replay_append, replay_entered, has_replay]
    simp [whole, fresh]
  · rintro same name html inside ⟨before, target, inner, after, -, split⟩ other found
    refine same (before ++ .entered name target inner :: inside) name html after (by simp [split]) other ?_
    rw [replay_append, replay_entered, find?_replay, found, Option.some_or]
  · intro same before name html after split other found
    obtain ⟨front, target, inner, inside, rfl, balanced, fresh⟩ :=
      historyWithin_store_ends_import split
    refine same name html inside ⟨front, target, inner, after, balanced, by simpa using split⟩ other ?_
    rw [replay_append, replay_entered, find?_replay, Table.has_eq_false_iff.mp fresh,
      Option.or_none] at found
    exact found

/-- A file that imports another by the name that it is itself imported by. -/
def sameNameInside : Context where
  files := [("/a", .ok "import N from \"b\"; p: N:;;"), ("/b", .ok "i: content:{x};")]

/-- The name is stored with the HTML of the inner file first. -/
theorem same_name_inside_changes :
    ¬ KeepsHtml [] (history sameNameInside ⟨"/", []⟩ "import N from \"a\"; N:;" {}) := by
  have events : history sameNameInside ⟨"/", []⟩ "import N from \"a\"; N:;" {} =
      [.entered "N" "/a" ⟨"/", ["/a"]⟩, .entered "N" "/b" ⟨"/", ["/a", "/b"]⟩,
        .stored "N" "<i>x</i>", .stored "N" "<p><i>x</i></p>"] := by
    decide +kernel
  rw [events, keepsHtml_iff]
  intro same
  have equal := same [.entered "N" "/a" ⟨"/", ["/a"]⟩, .entered "N" "/b" ⟨"/", ["/a", "/b"]⟩,
    .stored "N" "<i>x</i>"] "N" "<p><i>x</i></p>" [] rfl "<i>x</i>" (by decide)
  exact absurd equal (by decide)

end ElementMarkup.Compile
