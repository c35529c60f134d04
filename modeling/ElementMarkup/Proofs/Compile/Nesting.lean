import ElementMarkup.Proofs.Compile.Run
import ElementMarkup.Proofs.Document.Ending

/-!
How compiles nest. `Enters` says which files a compile can enter and in which scopes; every file
that a run enters is one of them. A run that does not end has entered files as deep as its fuel
goes. With cycle detection the files being compiled are always different ones, so no compile
nests deeper than there are files, and every compile ends.
-/

namespace ElementMarkup.Compile

/-- Compiling a document in a scope can enter the file at `target`, in the scope `inner`. -/
inductive Enters (context : Context) : Scope → Document → String → String → Scope → Prop where
  | direct {scope : Scope} {d : Document} {i : Import} {text : String} (member : i ∈ d.imports)
      (opens : Opens context scope i text) :
      Enters context scope d i.name (scope.target i) (scope.enter (scope.target i))
  | through {scope inner : Scope} {d e : Document} {i : Import} {name target text : String}
      {records : List Record} (member : i ∈ d.imports) (opens : Opens context scope i text)
      (read : document context.wide context.width text = (.ok e, records))
      (deeper : Enters context (scope.enter (scope.target i)) e name target inner) :
      Enters context scope d name target inner

section

variable {context : Context} {fuel : Nat} {scope inner : Scope} {d : Document} {p : Progress}
  {events : List Event} {outcome : Outcome String} {name target : String}

theorem Enters.more_imports {e : Document} (enters : Enters context scope d name target inner)
    (included : ∀ i ∈ d.imports, i ∈ e.imports) : Enters context scope e name target inner := by
  cases enters with
  | direct member opens => exact .direct (included _ member) opens
  | through member opens read deeper => exact .through (included _ member) opens read deeper

theorem Run.enters (run : Run context fuel scope d p events outcome)
    (entered : .entered name target inner ∈ events) : Enters context scope d name target inner := by
  induction run with
  | rendered | refused => simp at entered
  | reused present tail ih => exact (ih entered).more_imports (by simp +contextual)
  | cut absent opens | unread absent opens fails =>
    simp only [List.mem_singleton, Event.entered.injEq] at entered
    obtain ⟨rfl, rfl, rfl⟩ := entered
    exact .direct (by simp) opens
  | failed absent opens read deeper ih =>
    simp only [List.mem_cons, Event.entered.injEq] at entered
    rcases entered with ⟨rfl, rfl, rfl⟩ | entered
    · exact .direct (by simp) opens
    · exact .through (by simp) opens read (ih entered)
  | stored absent opens read deeper tail ihDeeper ihTail =>
    simp only [List.cons_append, List.mem_cons, Event.entered.injEq, List.mem_append, reduceCtorEq,
      false_or] at entered
    rcases entered with ⟨rfl, rfl, rfl⟩ | entered | entered
    · exact .direct (by simp) opens
    · exact .through (by simp) opens read (ihDeeper entered)
    · exact (ihTail entered).more_imports (by simp +contextual)

theorem Enters.resolving (enters : Enters context scope d name target inner) :
    ∃ added, inner.resolving = scope.resolving ++ added ∧ added.getLast? = some target ∧
      ∀ path ∈ added, Table.has context.files path = true := by
  induction enters with
  | @direct scope d i text member opens =>
    exact ⟨[scope.target i], rfl, rfl, by simpa using Table.has_of_find? opens.found⟩
  | @through scope inner d e i name target text records member opens read deeper ih =>
    obtain ⟨added, same, last, present⟩ := ih
    refine ⟨scope.target i :: added, by simp [same], ?_, ?_⟩
    · rw [List.getLast?_cons, last]
      rfl
    · intro path member
      rcases List.mem_cons.mp member with rfl | member
      · exact Table.has_of_find? opens.found
      · exact present path member

theorem Scope.enter_nodup (distinct : scope.resolving.Nodup) (fresh : target ∉ scope.resolving) :
    (scope.enter target).resolving.Nodup := by
  rw [Scope.enter_resolving, ← List.concat_eq_append]
  exact distinct.concat fresh

theorem Opens.fresh {i : Import} {text : String} (opens : Opens context scope i text)
    (detects : context.detect = true) : scope.target i ∉ scope.resolving :=
  fun again => opens.free ⟨detects, again⟩

/-- With detection the files added are different from each other and from those before. -/
theorem Enters.added_fresh (enters : Enters context scope d name target inner)
    (detects : context.detect = true) {added : List String}
    (same : inner.resolving = scope.resolving ++ added) :
    added.Nodup ∧ ∀ path ∈ added, path ∉ scope.resolving := by
  induction enters generalizing added with
  | @direct scope d i text member opens =>
    obtain rfl : [scope.target i] = added := List.append_cancel_left same
    exact ⟨List.nodup_singleton _, by simpa using opens.fresh detects⟩
  | @through scope inner d e i name target text records member opens read deeper ih =>
    obtain ⟨more, split, -, -⟩ := deeper.resolving
    obtain ⟨distinct, fresh⟩ := ih split
    obtain rfl : scope.target i :: more = added := by
      rw [split, Scope.enter_resolving, List.append_assoc] at same
      exact List.append_cancel_left same
    refine ⟨List.nodup_cons.mpr ⟨fun again => fresh _ again (by simp), distinct⟩, ?_⟩
    intro path inside
    rcases List.mem_cons.mp inside with rfl | inside
    · exact opens.fresh detects
    · exact fun before => fresh path inside (List.mem_append_left _ before)

theorem Enters.nodup (enters : Enters context scope d name target inner)
    (detects : context.detect = true) (distinct : scope.resolving.Nodup) : inner.resolving.Nodup := by
  obtain ⟨added, same, -, -⟩ := enters.resolving
  obtain ⟨nodup, fresh⟩ := enters.added_fresh detects same
  rw [same]
  exact List.nodup_append.mpr ⟨distinct, nodup, fun path before _ inside equal =>
    fresh path (equal ▸ inside) before⟩

theorem Enters.depth_le (enters : Enters context scope d name target inner)
    (distinct : ∀ added, inner.resolving = scope.resolving ++ added → added.Nodup) :
    inner.resolving.length ≤ scope.resolving.length + Table.size context.files := by
  obtain ⟨added, same, -, present⟩ := enters.resolving
  have bound := Table.length_le_size (distinct added same) present
  rw [same, List.length_append]
  omega

theorem Scope.attribute_diagnosed (scope : Scope) (diagnostic : Diagnostic) :
    ∃ named, scope.attribute (.diagnosed diagnostic) = .diagnosed named := by
  rw [Scope.attribute]
  split
  · exact ⟨_, rfl⟩
  · exact ⟨_, rfl⟩

theorem Scope.attribute_eq_unending {scope : Scope} {failure : Failure}
    (unending : scope.attribute failure = .unending) : failure = .unending := by
  cases failure with
  | diagnosed diagnostic =>
    obtain ⟨named, same⟩ := scope.attribute_diagnosed diagnostic
    rw [same] at unending
    cases unending
  | offEnd => cases unending
  | unending => rfl

theorem compileWithin_unread_ends {source : String} {failure : Failure} {records : List Record}
    (fails : document context.wide context.width source = (.error failure, records)) (fuel : Nat)
    (scope : Scope) (p : Progress) :
    (compileWithin context (fuel + 1) scope source p).1 ≠ .error .unending := by
  intro unending
  rw [compileWithin_unread fails] at unending
  obtain ⟨diagnostic, rfl⟩ := document_diagnosed fails
  cases Scope.attribute_eq_unending (Except.error.inj unending)

theorem Run.diagnosed_or_unending {failure : Failure} (run : Run context fuel scope d p events outcome)
    (fails : outcome.1 = .error failure) :
    (∃ diagnostic, failure = .diagnosed diagnostic) ∨ failure = .unending := by
  induction run generalizing failure with
  | rendered => cases fails
  | reused present tail ih => exact ih fails
  | @refused fuel scope i rest elements p after fault absent refusal =>
    cases fails
    exact Or.inl (scope.attribute_diagnosed _)
  | cut absent opens =>
    cases fails
    exact Or.inr rfl
  | @unread fuel scope i rest elements p text failure records absent opens unread =>
    cases fails
    obtain ⟨diagnostic, rfl⟩ := document_diagnosed unread
    obtain ⟨named, same⟩ := (scope.enter (scope.target i)).attribute_diagnosed diagnostic
    rw [same]
    exact Or.inl (scope.attribute_diagnosed _)
  | @failed fuel scope i rest elements p after text d records events failure absent opens read inner ih =>
    cases fails
    rcases ih rfl with ⟨diagnostic, rfl⟩ | rfl
    · exact Or.inl (scope.attribute_diagnosed _)
    · exact Or.inr rfl
  | stored absent opens read inner tail ihInner ihTail => exact ihTail fails

/-! ### Fuel -/

/-- A run that does not end has entered files one deeper than its fuel allows. -/
theorem Run.deep (run : Run context fuel scope d p events outcome)
    (unending : outcome.1 = .error .unending) :
    ∃ name target inner, .entered name target inner ∈ events ∧
      inner.resolving.length = scope.resolving.length + (fuel + 1) := by
  induction run with
  | rendered => cases unending
  | reused present tail ih => exact ih unending
  | @refused fuel scope i rest elements p after fault absent refusal =>
    cases Scope.attribute_eq_unending (Except.error.inj unending)
  | cut absent opens => exact ⟨_, _, _, List.mem_singleton.mpr rfl, by simp⟩
  | unread absent opens unread =>
    have inner := Scope.attribute_eq_unending (Except.error.inj unending)
    obtain ⟨diagnostic, rfl⟩ := document_diagnosed unread
    cases Scope.attribute_eq_unending inner
  | failed absent opens read inner ih =>
    have unendingInner := Scope.attribute_eq_unending (Except.error.inj unending)
    subst unendingInner
    obtain ⟨name, target, deepest, entered, deep⟩ := ih rfl
    refine ⟨name, target, deepest, List.mem_cons_of_mem _ entered, ?_⟩
    rw [deep, Scope.enter_resolving, List.length_append, List.length_singleton]
    omega
  | stored absent opens read inner tail ihInner ihTail =>
    -- the import itself has ended, so it is a later one that does not
    obtain ⟨name, target, deepest, entered, deep⟩ := ihTail unending
    exact ⟨name, target, deepest, by simp [entered], deep⟩

theorem Run.more_fuel {more : Nat} (run : Run context fuel scope d p events outcome)
    (ends : outcome.1 ≠ .error .unending) (enough : fuel ≤ more) :
    Run context more scope d p events outcome := by
  induction run generalizing more with
  | rendered fuel scope elements p => exact .rendered more scope elements p
  | reused present tail ih => exact .reused present (ih ends enough)
  | refused absent refusal => exact .refused absent refusal
  | cut absent opens => exact absurd rfl ends
  | unread absent opens unread =>
    obtain ⟨more, rfl⟩ : ∃ below, more = below + 1 := ⟨more - 1, by omega⟩
    exact .unread absent opens unread
  | failed absent opens read inner ih =>
    obtain ⟨more, rfl⟩ : ∃ below, more = below + 1 := ⟨more - 1, by omega⟩
    refine .failed absent opens read (ih ?_ (by omega))
    intro unending
    cases unending
    exact ends rfl
  | stored absent opens read inner tail ihInner ihTail =>
    obtain ⟨more, rfl⟩ : ∃ below, more = below + 1 := ⟨more - 1, by omega⟩
    exact .stored absent opens read (ihInner (by simp) (by omega)) (ihTail ends enough)

/-- A run that ends needs no more fuel than the files it enters are deep. -/
theorem Run.less_fuel {less : Nat} (run : Run context fuel scope d p events outcome)
    (ends : outcome.1 ≠ .error .unending)
    (shallow : ∀ name target inner, .entered name target inner ∈ events →
      inner.resolving.length ≤ scope.resolving.length + less) :
    Run context less scope d p events outcome := by
  induction run generalizing less with
  | rendered fuel scope elements p => exact .rendered less scope elements p
  | reused present tail ih => exact .reused present (ih ends shallow)
  | refused absent refusal => exact .refused absent refusal
  | cut absent opens => exact absurd rfl ends
  | @unread fuel scope i rest elements p text failure records absent opens unread =>
    have room := shallow i.name (scope.target i) _ (List.mem_singleton.mpr rfl)
    rw [Scope.enter_resolving, List.length_append, List.length_singleton] at room
    obtain ⟨less, rfl⟩ : ∃ below, less = below + 1 := ⟨less - 1, by omega⟩
    exact .unread absent opens unread
  | @failed fuel scope i rest elements p after text d records events failure absent opens read inner ih =>
    have room := shallow i.name (scope.target i) _ (List.mem_cons_self ..)
    rw [Scope.enter_resolving, List.length_append, List.length_singleton] at room
    obtain ⟨less, rfl⟩ : ∃ below, less = below + 1 := ⟨less - 1, by omega⟩
    refine .failed absent opens read (ih ?_ ?_)
    · intro unending
      cases unending
      exact ends rfl
    · intro name target deeper entered
      have bound := shallow name target deeper (List.mem_cons_of_mem _ entered)
      rw [Scope.enter_resolving, List.length_append, List.length_singleton]
      omega
  | @stored fuel scope i rest elements p after text d records events more html outcome absent opens read
      inner tail ihInner ihTail =>
    have room := shallow i.name (scope.target i) _ (List.mem_cons_self ..)
    rw [Scope.enter_resolving, List.length_append, List.length_singleton] at room
    obtain ⟨less, rfl⟩ : ∃ below, less = below + 1 := ⟨less - 1, by omega⟩
    refine .stored absent opens read (ihInner (by simp) ?_) (ihTail ends ?_)
    · intro name target deeper entered
      have bound := shallow name target deeper (by simp [entered])
      rw [Scope.enter_resolving, List.length_append, List.length_singleton]
      omega
    · intro name target deeper entered
      exact shallow name target deeper (by simp [entered])

end

theorem compileWithin_more_fuel {context : Context} {fuel more : Nat} {scope : Scope} {source : String}
    {p : Progress} (ends : (compileWithin context (fuel + 1) scope source p).1 ≠ .error .unending)
    (enough : fuel ≤ more) :
    compileWithin context (more + 1) scope source p = compileWithin context (fuel + 1) scope source p ∧
      historyWithin context (more + 1) scope source p =
        historyWithin context (fuel + 1) scope source p := by
  rcases read : document context.wide context.width source with ⟨failure | d, records⟩
  · rw [compileWithin_unread read, compileWithin_unread read, historyWithin_unread read,
      historyWithin_unread read]
    exact ⟨rfl, rfl⟩
  · have run := (compileWithin_run read fuel scope p).more_fuel ends enough
    have same := (run_iff read more scope p _ _).mp run
    exact ⟨same.2.symm, same.1.symm⟩

theorem compileWithin_stable {context : Context} {fuel more : Nat} {scope : Scope} {source : String}
    {p : Progress} (ends : (compileWithin context fuel scope source p).1 ≠ .error .unending)
    (enough : fuel ≤ more) :
    compileWithin context more scope source p = compileWithin context fuel scope source p := by
  cases fuel with
  | zero => exact absurd rfl ends
  | succ fuel =>
    obtain ⟨more, rfl⟩ : ∃ below, more = below + 1 := ⟨more - 1, by omega⟩
    exact (compileWithin_more_fuel ends (by omega)).1

theorem compileWithin_ended_eq {context : Context} {fuel other : Nat} {scope : Scope} {source : String}
    {p : Progress} (ends : (compileWithin context fuel scope source p).1 ≠ .error .unending)
    (endsToo : (compileWithin context other scope source p).1 ≠ .error .unending) :
    compileWithin context fuel scope source p = compileWithin context other scope source p :=
  (compileWithin_stable ends (Nat.le_max_left fuel other)).symm.trans
    (compileWithin_stable endsToo (Nat.le_max_right fuel other))

/-! ### Files -/

def fileWithin (context : Context) (fuel : Nat) (path : String) (p : Progress) : Outcome String :=
  let target := Path.canonical path.toList
  let asked := p.call (.asked target)
  match Table.find? context.files target with
  | none => (.error (Fault.missing target).failure, asked)
  | some (.error cause) =>
    (.error (Fault.unreadable target cause).failure, asked.call (.opened target))
  | some (.ok text) =>
    compileWithin context fuel ⟨Path.directory target, [target]⟩ text (asked.call (.opened target))

def fileHistory (context : Context) (path : String) (p : Progress) : List Event :=
  let target := Path.canonical path.toList
  match Table.find? context.files target with
  | some (.ok text) =>
    history context ⟨Path.directory target, [target]⟩ text
      ((p.call (.asked target)).call (.opened target))
  | _ => []

def fileDepth (context : Context) (path : String) : Nat :=
  match Table.find? context.files (Path.canonical path.toList) with
  | some (.ok text) => depth context text
  | _ => 0

theorem file_eq_fileWithin (context : Context) (path : String) (p : Progress) :
    file context path p = fileWithin context (fileDepth context path) path p := by
  match found : Table.find? context.files (Path.canonical path.toList) with
  | none => simp [file, fileWithin, found]
  | some (.error cause) => simp [file, fileWithin, found]
  | some (.ok text) => simp [file, fileWithin, fileDepth, found, compile]

theorem fileWithin_of_text {context : Context} {path text : String} (fuel : Nat) (p : Progress)
    (found : Table.find? context.files (Path.canonical path.toList) = some (.ok text)) :
    fileWithin context fuel path p =
      compileWithin context fuel
        ⟨Path.directory (Path.canonical path.toList), [Path.canonical path.toList]⟩ text
        ((p.call (.asked (Path.canonical path.toList))).call (.opened (Path.canonical path.toList))) := by
  simp [fileWithin, found]

theorem file_of_text {context : Context} {path text : String} {p : Progress}
    (found : Table.find? context.files (Path.canonical path.toList) = some (.ok text)) :
    file context path p =
      compile context ⟨Path.directory (Path.canonical path.toList), [Path.canonical path.toList]⟩ text
        ((p.call (.asked (Path.canonical path.toList))).call (.opened (Path.canonical path.toList))) := by
  simp [file, found]

theorem fileHistory_of_text {context : Context} {path text : String} {p : Progress}
    (found : Table.find? context.files (Path.canonical path.toList) = some (.ok text)) :
    fileHistory context path p =
      history context ⟨Path.directory (Path.canonical path.toList), [Path.canonical path.toList]⟩ text
        ((p.call (.asked (Path.canonical path.toList))).call (.opened (Path.canonical path.toList))) := by
  simp [fileHistory, found]

inductive Unopened (context : Context) (root : String) : Fault → Prop where
  | missing (gone : Table.find? context.files root = none) : Unopened context root (.missing root)
  | unreadable {cause : Encoding.Undecodable} (found : Table.find? context.files root = some (.error cause)) :
      Unopened context root (.unreadable root cause)

theorem fileWithin_unopened {context : Context} {path : String}
    (closed : ∀ text, Table.find? context.files (Path.canonical path.toList) ≠ some (.ok text)) :
    ∃ fault, Unopened context (Path.canonical path.toList) fault ∧
      ∀ fuel p, (fileWithin context fuel path p).1 = .error fault.failure := by
  match found : Table.find? context.files (Path.canonical path.toList) with
  | none => exact ⟨_, .missing found, fun fuel p => by simp [fileWithin, found]⟩
  | some (.error cause) => exact ⟨_, .unreadable found, fun fuel p => by simp [fileWithin, found]⟩
  | some (.ok text) => exact absurd found (closed text)

/-- However deep the source's imports nest, the files being compiled are different ones. -/
def NestsDistinct (context : Context) (scope : Scope) (source : String) : Prop :=
  ∀ d records name target inner, document context.wide context.width source = (.ok d, records) →
    Enters context scope d name target inner → inner.resolving.Nodup

theorem size_lt_depth (context : Context) (source : String) :
    Table.size context.files < depth context source := by
  have bound := Table.size_le_length context.files
  rw [depth]
  split
  · omega
  · have rounds : context.files.length ≤ context.files.length * ((storable context source).length + 1) :=
      Nat.le_mul_of_pos_right _ (by omega)
    omega

section

variable {context : Context} {scope : Scope} {source : String} {p : Progress}

theorem compileWithin_ends {fuel : Nat} (enough : Table.size context.files < fuel)
    (distinct : NestsDistinct context scope source) :
    (compileWithin context fuel scope source p).1 ≠ .error .unending := by
  obtain ⟨fuel, rfl⟩ : ∃ below, fuel = below + 1 := ⟨fuel - 1, by omega⟩
  intro unending
  rcases read : document context.wide context.width source with ⟨failure | d, records⟩
  · exact compileWithin_unread_ends read fuel scope p unending
  · have run := compileWithin_run read fuel scope p
    obtain ⟨name, target, inner, entered, deep⟩ := run.deep unending
    have enters := run.enters entered
    have nodup := distinct d records name target inner read enters
    -- `deep` puts more files on the stack than there are
    have bound := enters.depth_le fun added same => (List.nodup_append.mp (same ▸ nodup)).2.1
    omega

theorem compile_eq_compileWithin {fuel : Nat} (enough : Table.size context.files < fuel)
    (distinct : NestsDistinct context scope source) :
    compileWithin context fuel scope source p = compile context scope source p ∧
      historyWithin context fuel scope source p = history context scope source p := by
  have least := compileWithin_ends (p := p) (Nat.lt_succ_self (Table.size context.files)) distinct
  have deep := size_lt_depth context source
  have atFuel := compileWithin_more_fuel least (show Table.size context.files ≤ fuel - 1 by omega)
  have atDepth := compileWithin_more_fuel least
    (show Table.size context.files ≤ depth context source - 1 by omega)
  rw [Nat.sub_add_cancel (by omega)] at atFuel atDepth
  exact ⟨atFuel.1.trans atDepth.1.symm, atFuel.2.trans atDepth.2.symm⟩

theorem compile_run {d : Document} {records : List Record}
    (read : document context.wide context.width source = (.ok d, records)) :
    Run context (depth context source - 1) scope d (p.note records) (history context scope source p)
      (compile context scope source p) := by
  have run := compileWithin_run read (depth context source - 1) scope p
  rwa [Nat.sub_add_cancel (by have := size_lt_depth context source; omega)] at run

theorem compile_unread {failure : Failure} {records : List Record}
    (fails : document context.wide context.width source = (.error failure, records)) :
    compile context scope source p = (.error (scope.attribute failure), p.note records) ∧
      history context scope source p = [] := by
  have deep := size_lt_depth context source
  obtain ⟨fuel, same⟩ : ∃ fuel, depth context source = fuel + 1 :=
    ⟨depth context source - 1, by omega⟩
  rw [compile, history, same, compileWithin_unread fails, historyWithin_unread fails]
  exact ⟨rfl, rfl⟩

theorem compile_diagnosed_or_unending {failure : Failure}
    (fails : (compile context scope source p).1 = .error failure) :
    (∃ diagnostic, failure = .diagnosed diagnostic) ∨ failure = .unending := by
  rcases read : document context.wide context.width source with ⟨cause | d, records⟩
  · rw [(compile_unread read).1] at fails
    cases fails
    obtain ⟨diagnostic, rfl⟩ := document_diagnosed read
    exact Or.inl (scope.attribute_diagnosed diagnostic)
  · exact (compile_run read).diagnosed_or_unending fails

/-- With cycle detection a compile ends in HTML or in a diagnostic. -/
theorem compile_diagnosed {failure : Failure} (detects : context.detect = true)
    (distinct : scope.resolving.Nodup) (fails : (compile context scope source p).1 = .error failure) :
    ∃ diagnostic, failure = .diagnosed diagnostic := by
  rcases compile_diagnosed_or_unending fails with diagnosed | rfl
  · exact diagnosed
  · refine absurd fails (compileWithin_ends (size_lt_depth context source) ?_)
    intro _ _ _ _ _ _ enters
    exact enters.nodup detects distinct

theorem compile_refused {d : Document} {records : List Record} {i : Import} {rest : List Import}
    {fault : Fault} {after : Progress}
    (read : document context.wide context.width source = (.ok d, records))
    (first : d.imports = i :: rest) (absent : Table.has p.components i.name = false)
    (refusal : Refusal context scope i (p.note records) fault after) :
    compile context scope source p = (.error (scope.attribute fault.failure), after) := by
  obtain ⟨fuel, deep⟩ : ∃ fuel, depth context source = fuel + 1 :=
    ⟨depth context source - 1, by have := size_lt_depth context source; omega⟩
  have missing : Table.has (p.note records).components i.name = false := absent
  rw [compile, deep, compileWithin_read read, first, resolveAll, resolve_refused missing refusal,
    Scope.finish_error]

end

/-- A compile that ends, and nests at most one deeper than there are files. -/
structure Ends (context : Context) (scope : Scope) (source : String) (p : Progress) : Prop where
  result : (∃ html, (compile context scope source p).1 = .ok html) ∨
    ∃ diagnostic, (compile context scope source p).1 = .error (.diagnosed diagnostic)
  /-- More room for nesting makes no difference. -/
  stable : ∀ fuel, Table.size context.files < fuel →
    compileWithin context fuel scope source p = compile context scope source p ∧
      historyWithin context fuel scope source p = history context scope source p
  nested : ∀ name target inner, .entered name target inner ∈ history context scope source p →
    inner.resolving.Nodup ∧ ∃ added, inner.resolving = scope.resolving ++ added ∧
      (∀ path ∈ added, Table.has context.files path = true) ∧
      added.length + 1 ≤ Table.size context.files + 1

theorem compile_ends (context : Context) (detects : context.detect = true) (scope : Scope)
    (distinct : scope.resolving.Nodup) (source : String) (p : Progress) :
    Ends context scope source p := by
  have fresh : NestsDistinct context scope source :=
    fun _ _ _ _ _ _ enters => enters.nodup detects distinct
  refine ⟨?_, fun fuel enough => compile_eq_compileWithin enough fresh, ?_⟩
  · rcases result : (compile context scope source p).1 with failure | html
    · rcases compile_diagnosed_or_unending result with ⟨diagnostic, rfl⟩ | rfl
      · exact Or.inr ⟨diagnostic, rfl⟩
      · exact absurd result (compileWithin_ends (size_lt_depth context source) fresh)
    · exact Or.inl ⟨html, rfl⟩
  · intro name target inner entered
    rcases read : document context.wide context.width source with ⟨failure | d, records⟩
    · simp [(compile_unread read).2] at entered
    · have enters := (compile_run read).enters entered
      have nodup := enters.nodup detects distinct
      have bound := enters.depth_le fun added same => (enters.added_fresh detects same).1
      obtain ⟨added, same, -, present⟩ := enters.resolving
      refine ⟨nodup, added, same, present, ?_⟩
      rw [same, List.length_append] at bound
      omega

def mutualImports : Context where
  files := [("/a", .ok "import B from \"b\";"), ("/b", .ok "import A from \"a\";")]

theorem mutual_imports_end :
    mutualImports.detect = true ∧ ["/start"].Nodup ∧
      Ends mutualImports ⟨"/", ["/start"]⟩ "import A from \"a\"; A:;" {} :=
  ⟨rfl, by decide, compile_ends mutualImports rfl ⟨"/", ["/start"]⟩ (by decide) _ {}⟩

end ElementMarkup.Compile
