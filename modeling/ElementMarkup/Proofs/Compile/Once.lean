import ElementMarkup.Proofs.Compile.Health
import ElementMarkup.Proofs.Compile.Store

/-!
What a compile enters and reads. In a healthy graph in which every name stands for one file, no name
is entered twice, and a compile that starts with an empty store enters every name that is imported
anywhere below it.
-/

namespace ElementMarkup.Compile

def enteredFiles (events : List Event) : List (String × String) :=
  events.filterMap fun
    | .entered name target _ => some (name, target)
    | .stored _ _ => none

def reads (calls : List Call) : List String :=
  calls.filterMap fun
    | .asked _ => none
    | .opened path => some path

section

variable (events more : List Event) (name target html : String) (inner : Scope)

@[simp] theorem enteredFiles_nil : enteredFiles [] = [] := rfl

@[simp] theorem enteredFiles_entered :
    enteredFiles (.entered name target inner :: events) = (name, target) :: enteredFiles events := rfl

@[simp] theorem enteredFiles_stored :
    enteredFiles (.stored name html :: events) = enteredFiles events := rfl

@[simp] theorem enteredFiles_append :
    enteredFiles (events ++ more) = enteredFiles events ++ enteredFiles more :=
  List.filterMap_append

@[simp] theorem reads_append (calls others : List Call) :
    reads (calls ++ others) = reads calls ++ reads others :=
  List.filterMap_append

@[simp] theorem reads_entering (path : String) : reads [.asked path, .opened path] = [path] := rfl

theorem mem_enteredFiles {events : List Event} {name target : String} :
    (name, target) ∈ enteredFiles events ↔ ∃ inner, .entered name target inner ∈ events := by
  induction events with
  | nil => simp
  | cons event events ih =>
    cases event with
    | entered other path inner =>
      simp only [enteredFiles_entered, List.mem_cons, Prod.mk.injEq, Event.entered.injEq, ih]
      constructor
      · rintro (⟨rfl, rfl⟩ | ⟨deeper, member⟩)
        · exact ⟨inner, Or.inl ⟨rfl, rfl, rfl⟩⟩
        · exact ⟨deeper, Or.inr member⟩
      · rintro ⟨deeper, ⟨rfl, rfl, -⟩ | member⟩
        · exact Or.inl ⟨rfl, rfl⟩
        · exact Or.inr ⟨deeper, member⟩
    | stored other html => simp [ih]

theorem mem_enteredFiles_import {inside after : List Event} {name target other path html : String}
    {inner : Scope} :
    (name, target) ∈ enteredFiles (.entered other path inner :: inside ++ .stored other html :: after) ↔
      (name = other ∧ target = path) ∨ (name, target) ∈ enteredFiles inside ∨
        (name, target) ∈ enteredFiles after := by
  simp

end

section

variable {context : Context} {root path : String} {scope inner : Scope} {d : Document} {fuel : Nat}
  {p : Progress} {events : List Event} {outcome : Outcome String} {html : String}

theorem Run.reads_eq (run : Run context fuel scope d p events outcome) (succeeds : outcome.1 = .ok html) :
    reads outcome.2.calls = reads p.calls ++ (enteredFiles events).map Prod.snd := by
  induction run generalizing html with
  | rendered => simp
  | refused | cut | unread | failed => cases succeeds
  | reused present tail ih => exact ih succeeds
  | stored absent opens read inner tail ihInner ihTail =>
    have before := ihInner rfl
    simp only [Progress.note_calls, Progress.enter_calls, reads_append, reads_entering] at before
    rw [ihTail succeeds, Progress.store_calls, before]
    simp

theorem Run.entered_absent {name target : String} (run : Run context fuel scope d p events outcome)
    (entered : (name, target) ∈ enteredFiles events) : Table.has p.components name = false := by
  induction run with
  | rendered | refused => simp at entered
  | reused present tail ih => exact ih entered
  | cut absent opens | unread absent opens fails =>
    simp only [enteredFiles_entered, enteredFiles_nil, List.mem_singleton, Prod.mk.injEq] at entered
    obtain ⟨rfl, rfl⟩ := entered
    exact absent
  | failed absent opens read inner ih =>
    simp only [enteredFiles_entered, List.mem_cons, Prod.mk.injEq] at entered
    rcases entered with ⟨rfl, rfl⟩ | entered
    · exact absent
    · exact ih entered
  | @stored fuel scope i rest elements p finished text e records events more part outcome absent opens
      read inner tail ihInner ihTail =>
    rcases mem_enteredFiles_import.mp entered with ⟨rfl, rfl⟩ | entered | entered
    · exact absent
    · exact ihInner entered
    · -- a name that was there before is there after
      have later := ihTail entered
      by_contra present
      have kept := inner.keeps_names (by simpa using present)
      simp [kept] at later

theorem Run.entered_stored {name target : String} (run : Run context fuel scope d p events outcome)
    (succeeds : outcome.1 = .ok html) (entered : (name, target) ∈ enteredFiles events) :
    Table.has outcome.2.components name = true := by
  induction run generalizing html with
  | rendered => simp at entered
  | refused | cut | unread | failed => cases succeeds
  | reused present tail ih => exact ih succeeds entered
  | stored absent opens read inner tail ihInner ihTail =>
    rcases mem_enteredFiles_import.mp entered with ⟨rfl, rfl⟩ | entered | entered
    · exact tail.keeps_names (by simp)
    · have kept := ihInner rfl entered
      exact tail.keeps_names (by simp [kept])
    · exact ihTail succeeds entered

theorem Run.stored_entered {name : String} (run : Run context fuel scope d p events outcome)
    (stored : name ∈ storedNames events) : ∃ target, (name, target) ∈ enteredFiles events := by
  obtain ⟨event, member, same⟩ := List.mem_filterMap.mp stored
  cases event with
  | entered other target inner => cases same
  | stored other html =>
    obtain rfl := Option.some.inj same
    obtain ⟨before, after, split⟩ := List.append_of_mem member
    obtain ⟨front, target, inner, inside, rfl, -, -⟩ := run.store_ends_import split
    exact ⟨target, mem_enteredFiles.mpr ⟨inner, by simp [split]⟩⟩

theorem Enters.binds {name target : String} (enters : Enters context scope d name target inner)
    (stands : Stands context root scope d path) :
    Binds context root name target ∧ Relation.TransGen (Leads context) path target := by
  induction enters generalizing path with
  | direct member opens => exact ⟨stands.binds member, .single (stands.leads member)⟩
  | through member opens read deeper ih =>
    obtain ⟨binds, below⟩ := ih (stands.enter member opens read)
    exact ⟨binds, below.head (stands.leads member)⟩

theorem Run.entered_binds {name target : String} (run : Run context fuel scope d p events outcome)
    (stands : Stands context root scope d path) (entered : (name, target) ∈ enteredFiles events) :
    Binds context root name target ∧ Relation.TransGen (Leads context) path target := by
  obtain ⟨inner, member⟩ := mem_enteredFiles.mp entered
  exact (run.enters member).binds stands

/-- A name is not entered inside the file that it stands for. -/
theorem Run.not_entered_inside {name : String} (run : Run context fuel scope d p events outcome)
    (healthy : Healthy context root) (consistent : Consistent context root)
    (stands : Stands context root scope d path) (binds : Binds context root name path) :
    name ∉ (enteredFiles events).map Prod.fst := by
  intro again
  obtain ⟨⟨_, target⟩, entered, rfl⟩ := List.mem_map.mp again
  obtain ⟨bound, below⟩ := run.entered_binds stands entered
  obtain rfl := consistent _ _ _ binds bound
  exact healthy.acyclic path stands.reached below

theorem Run.entered_nodup (run : Run context fuel scope d p events outcome)
    (healthy : Healthy context root) (consistent : Consistent context root)
    (stands : Stands context root scope d path) : ((enteredFiles events).map Prod.fst).Nodup := by
  induction run generalizing path with
  | rendered | refused => simp
  | reused present tail ih => exact ih stands.rest
  | cut | unread => simp
  | failed absent opens read inner ih =>
    have nested := stands.enter (List.mem_cons_self ..) opens read
    have binds := stands.binds (List.mem_cons_self ..)
    exact List.nodup_cons.mpr ⟨inner.not_entered_inside healthy consistent nested binds, ih nested⟩
  | @stored fuel scope i rest elements p finished text e records events more part outcome absent opens
      read inner tail ihInner ihTail =>
    have nested := stands.enter (List.mem_cons_self ..) opens read
    have binds := stands.binds (List.mem_cons_self ..)
    have later : ∀ name ∈ (enteredFiles more).map Prod.fst,
        name ≠ i.name ∧ name ∉ (enteredFiles events).map Prod.fst := by
      intro name member
      obtain ⟨⟨_, target⟩, entered, rfl⟩ := List.mem_map.mp member
      have fresh := tail.entered_absent entered
      simp only [Progress.store_components, Table.has_store, Bool.or_eq_false_iff,
        decide_eq_false_iff_not] at fresh
      refine ⟨fresh.1, fun again => ?_⟩
      obtain ⟨⟨_, other⟩, earlier, same⟩ := List.mem_map.mp again
      have kept := inner.entered_stored rfl earlier
      dsimp only at same kept
      rw [same, fresh.2] at kept
      cases kept
    simp only [List.cons_append, enteredFiles_entered, enteredFiles_append, enteredFiles_stored,
      List.map_cons, List.map_append]
    refine List.nodup_cons.mpr ⟨?_, List.nodup_append.mpr ⟨ihInner nested, ihTail stands.rest, ?_⟩⟩
    · rw [List.mem_append]
      rintro (inside | after)
      · exact inner.not_entered_inside healthy consistent nested binds inside
      · exact (later _ after).1 rfl
    · rintro name inside other after rfl
      exact (later name after).2 inside

/-- The names imported by a file whose own name is stored are stored too. -/
def Complete (context : Context) (root : String) (components : Components) : Prop :=
  ∀ name path, Table.has components name = true → Binds context root name path →
    ∀ i ∈ importsAt context path, Table.has components i.name = true

theorem Run.keeps_complete (run : Run context fuel scope d p events outcome)
    (consistent : Consistent context root) (stands : Stands context root scope d path)
    (complete : Complete context root p.components) : Complete context root outcome.2.components := by
  induction run generalizing path with
  | rendered | cut | unread => exact complete
  | reused present tail ih => exact ih stands.rest complete
  | refused absent refusal =>
    rw [refusal.components]
    exact complete
  | failed absent opens read inner ih =>
    exact ih (stands.enter (List.mem_cons_self ..) opens read) complete
  | @stored fuel scope i rest elements p finished text e records events more part outcome absent opens
      read inner tail ihInner ihTail =>
    have before := ihInner (stands.enter (List.mem_cons_self ..) opens read) complete
    refine ihTail stands.rest ?_
    intro name path present binds j member
    simp only [Progress.store_components, Table.has_store, Bool.or_eq_true, decide_eq_true_eq]
      at present ⊢
    rcases present with rfl | present
    · obtain rfl := consistent _ _ _ binds (stands.binds (List.mem_cons_self ..))
      rw [importsAt_of_document (documentAt_of_text opens.found read)] at member
      exact Or.inr (inner.imports_stored rfl j member)
    · exact Or.inr (before name path present binds j member)

theorem Complete.has_bound {components : Components} (complete : Complete context root components)
    (start : ∀ i ∈ importsAt context root, Table.has components i.name = true) {name target : String}
    (binds : Binds context root name target) : Table.has components name = true := by
  obtain ⟨file, reaches, i, member, rfl, -⟩ := binds
  -- along a path from the root, each file's imports are stored because the file's own name is
  induction reaches generalizing i with
  | refl => exact start i member
  | tail reaches leads ih =>
    obtain ⟨j, within, rfl⟩ := leads
    exact complete j.name _ (ih j within) ⟨_, reaches, j, within, rfl, rfl⟩ i member

/-- From an empty store, exactly the names imported below the root are entered, with their files. -/
theorem Run.entered_iff (run : Run context fuel scope d p events outcome)
    (consistent : Consistent context root) (stands : Stands context root scope d root)
    (whole : d.imports = importsAt context root) (empty : p.components = [])
    (succeeds : outcome.1 = .ok html) (name target : String) :
    (name, target) ∈ enteredFiles events ↔ Binds context root name target := by
  refine ⟨fun entered => (run.entered_binds stands entered).1, fun binds => ?_⟩
  have complete := run.keeps_complete consistent stands (by simp [Complete, empty])
  have present := complete.has_bound (whole ▸ run.imports_stored succeeds) binds
  rw [run.replay_eq, has_replay, empty, Table.has_nil] at present
  have stored : name ∈ storedNames events := by simpa using present
  obtain ⟨other, entered⟩ := run.stored_entered stored
  obtain rfl := consistent _ _ _ binds (run.entered_binds stands entered).1
  exact entered

end

end ElementMarkup.Compile
