import ElementMarkup.Proofs.Compile.Graph

/-!
Which files compile. In a healthy graph no import is refused, because a file being compiled always
leads to the one that is compiled inside it. Conversely a file that compiles is grounded: a name is
stored only when everything below it has been, so a name that is found in the store stands for a
grounded file, if it stands for one file only.
-/

namespace ElementMarkup.Compile

section

variable {context : Context} {root path : String} {scope inner : Scope} {d : Document} {fuel : Nat}
  {p : Progress} {events : List Event} {outcome : Outcome String} {html : String}

theorem Healthy.fresh {i : Import} (healthy : Healthy context root)
    (stands : Stands context root scope d path) (member : i ∈ d.imports) :
    scope.target i ∉ scope.resolving := by
  intro again
  have around : Relation.TransGen (Leads context) (scope.target i) (scope.target i) :=
    Relation.TransGen.tail' (stands.stack _ again) (stands.leads member)
  exact healthy.acyclic _ (stands.target_reached member) around

theorem Healthy.opens {i : Import} (healthy : Healthy context root)
    (stands : Stands context root scope d path) (member : i ∈ d.imports) :
    ∃ text e records, Opens context scope i text ∧
      document context.wide context.width text = (.ok e, records) := by
  obtain ⟨e, read⟩ := healthy.readable _ (stands.target_reached member)
  obtain ⟨text, records, found, parsed⟩ := documentAt_eq_some read
  exact ⟨text, e, records, ⟨fun again => healthy.fresh stands member again.2, found⟩, parsed⟩

theorem Opens.not_refusal {i : Import} {text : String} {fault : Fault} {after : Progress}
    (opens : Opens context scope i text) : ¬ Refusal context scope i p fault after := by
  rintro (⟨detects, again⟩ | ⟨-, missing⟩ | ⟨-, unreadable⟩)
  · exact opens.free ⟨detects, again⟩
  · simp [opens.found] at missing
  · simp [opens.found] at unreadable

theorem Run.succeeds_or_unending (run : Run context fuel scope d p events outcome)
    (healthy : Healthy context root) (stands : Stands context root scope d path) :
    (∃ html, outcome.1 = .ok html) ∨ outcome.1 = .error .unending := by
  induction run generalizing path with
  | rendered => exact Or.inl ⟨_, rfl⟩
  | reused present tail ih => exact ih stands.rest
  | refused absent refusal =>
    obtain ⟨text, e, records, opens, -⟩ := healthy.opens stands (List.mem_cons_self ..)
    exact absurd refusal opens.not_refusal
  | cut => exact Or.inr rfl
  | unread absent opens fails =>
    obtain ⟨text, e, records, again, read⟩ := healthy.opens stands (List.mem_cons_self ..)
    have same : Except.ok text = Except.ok _ := Option.some.inj (again.found.symm.trans opens.found)
    cases same
    rw [fails] at read
    cases read
  | failed absent opens read inner ih =>
    rcases ih (stands.enter (List.mem_cons_self ..) opens read) with ⟨html, impossible⟩ | unending
    · cases impossible
    · obtain rfl := Except.error.inj unending
      exact Or.inr rfl
  | stored absent opens read inner tail ihInner ihTail => exact ihTail stands.rest

theorem Enters.nodup_of_healthy {name target : String} (enters : Enters context scope d name target inner)
    (healthy : Healthy context root) (stands : Stands context root scope d path)
    (distinct : scope.resolving.Nodup) : inner.resolving.Nodup := by
  induction enters generalizing path with
  | direct member opens => exact Scope.enter_nodup distinct (healthy.fresh stands member)
  | through member opens read deeper ih =>
    exact ih (stands.enter member opens read) (Scope.enter_nodup distinct (healthy.fresh stands member))

theorem Healthy.compiles (healthy : Healthy context (Path.canonical path.toList)) (p : Progress) :
    ∃ html, (file context path p).1 = .ok html := by
  obtain ⟨d, read⟩ := healthy.readable _ .refl
  obtain ⟨text, records, found, parsed⟩ := documentAt_eq_some read
  have stands := Stands.start read
  rw [file_of_text found]
  rcases (compile_run parsed).succeeds_or_unending healthy stands with result | unending
  · exact result
  · refine absurd unending (compileWithin_ends (size_lt_depth context text) ?_)
    intro e others name target inner again enters
    -- the document that the compile reads is the file's own
    cases parsed.symm.trans again
    exact enters.nodup_of_healthy healthy stands (List.nodup_singleton _)

/-- Every name that is stored stands for grounded files only. -/
def Vouched (context : Context) (root : String) (components : Components) : Prop :=
  ∀ name path, Table.has components name = true → Binds context root name path → Grounded context path

theorem Vouched.store {name target : String} {components : Components}
    (vouched : Vouched context root components) (consistent : Consistent context root)
    (binds : Binds context root name target) (grounded : Grounded context target) (html : String) :
    Vouched context root (Table.store components name html) := by
  intro other path present bound
  rw [Table.has_store, Bool.or_eq_true, decide_eq_true_eq] at present
  rcases present with rfl | present
  · obtain rfl := consistent other target path binds bound
    exact grounded
  · exact vouched other path present bound

theorem Run.grounds (run : Run context fuel scope d p events outcome)
    (succeeds : outcome.1 = .ok html) (consistent : Consistent context root)
    (stands : Stands context root scope d path) (vouched : Vouched context root p.components) :
    (∀ i ∈ d.imports, Grounded context (scope.target i)) ∧
      Vouched context root outcome.2.components := by
  induction run generalizing path html with
  | rendered => exact ⟨by simp, vouched⟩
  | refused | cut | unread | failed => cases succeeds
  | reused present tail ih =>
    obtain ⟨rest, after⟩ := ih succeeds stands.rest vouched
    refine ⟨?_, after⟩
    intro i member
    rcases List.mem_cons.mp member with rfl | member
    · exact vouched _ _ present (stands.binds (List.mem_cons_self ..))
    · exact rest i member
  | @stored fuel scope i rest elements p finished text e records events more part outcome absent opens
      read inner tail ihInner ihTail =>
    have nested := stands.enter (List.mem_cons_self ..) opens read
    obtain ⟨below, vouchedInner⟩ := ihInner rfl nested vouched
    have grounded : Grounded context (scope.target i) := by
      refine .file (documentAt_of_text opens.found read) fun j member => ?_
      rw [← nested.target_eq]
      exact below j member
    have vouchedHere := vouchedInner.store consistent (stands.binds (List.mem_cons_self ..)) grounded part
    obtain ⟨later, after⟩ := ihTail succeeds stands.rest vouchedHere
    refine ⟨?_, after⟩
    intro j member
    rcases List.mem_cons.mp member with rfl | member
    · exact grounded
    · exact later j member

theorem file_grounded (consistent : Consistent context (Path.canonical path.toList))
    (empty : p.components = []) (succeeds : (file context path p).1 = .ok html) :
    Grounded context (Path.canonical path.toList) := by
  match found : Table.find? context.files (Path.canonical path.toList) with
  | none => simp [file, found] at succeeds
  | some (.error cause) => simp [file, found] at succeeds
  | some (.ok text) =>
    rw [file_of_text found] at succeeds
    rcases parsed : document context.wide context.width text with ⟨failure | d, records⟩
    · rw [(compile_unread parsed).1] at succeeds
      cases succeeds
    · have read := documentAt_of_text found parsed
      have stands := Stands.start read
      have vouched : Vouched context (Path.canonical path.toList) p.components := by
        simp [Vouched, empty]
      obtain ⟨imports, -⟩ := (compile_run parsed).grounds succeeds consistent stands vouched
      refine .file read fun i member => ?_
      rw [← stands.target_eq]
      exact imports i member

end

/-- A file with a healthy graph compiles. The converse needs that every name stands for one file. -/
theorem file_compiles_healthy (context : Context) (path : String) (p : Progress)
    (empty : p.components = []) :
    (Healthy context (Path.canonical path.toList) → ∃ html, (file context path p).1 = .ok html) ∧
    (Consistent context (Path.canonical path.toList) → (∃ html, (file context path p).1 = .ok html) →
      Healthy context (Path.canonical path.toList)) := by
  refine ⟨fun healthy => healthy.compiles p, ?_⟩
  rintro consistent ⟨html, succeeds⟩
  exact (file_grounded consistent empty succeeds).healthy

def diamond : Context where
  files := [("/page", .ok "import A from \"a\"; import B from \"b\"; A:; B:;"),
    ("/a", .ok "import S from \"s\"; div: S:;;"), ("/b", .ok "import S from \"./s\"; S:;"),
    ("/s", .ok "p: content:{x};")]

theorem diamond_consistent : Consistent diamond (Path.canonical "/page".toList) := by
  apply consistent_of_closed ["/page", "/a", "/b", "/s"] <;> decide +kernel

theorem diamond_healthy :
    ({} : Progress).components = [] ∧ Consistent diamond (Path.canonical "/page".toList) ∧
      (∃ html, (file diamond "/page" {}).1 = .ok html) ∧
      Healthy diamond (Path.canonical "/page".toList) := by
  have compiles : (file diamond "/page" {}).1 = .ok "<div><p>x</p></div>\n<p>x</p>" := by decide +kernel
  exact ⟨rfl, diamond_consistent, ⟨_, compiles⟩,
    (file_compiles_healthy diamond "/page" {} rfl).2 diamond_consistent ⟨_, compiles⟩⟩

end ElementMarkup.Compile
