import ElementMarkup.Proofs.Compile.Nesting
import ElementMarkup.Proofs.Document.OffEnd

/-!
What the journal of a run has to do with the run: nothing. A compile notes the same records whatever
its journal keeps of them, also when it fails inside an imported file, and comes to the same. So does
the reader of a token list, and tracing the tokens that it takes only adds a record for each.
-/

namespace ElementMarkup

/-- Records that are not kept where no verbosity is asked for. -/
def Quiet (records : List Record) : Prop := ∀ r ∈ records, 0 < r.level

theorem Quiet.append {records more : List Record} (first : Quiet records) (second : Quiet more) :
    Quiet (records ++ more) := by
  intro r member
  rcases List.mem_append.mp member with member | member
  · exact first r member
  · exact second r member

theorem quiet_nil : Quiet [] := fun _ member => absurd member List.not_mem_nil

theorem quiet_singleton {level : Int} (positive : 0 < level) (message : String) : Quiet [⟨level, message⟩] := by
  intro r member
  rwa [List.mem_singleton.mp member]

namespace Journal

/-- The journal of a run that a verbosity is connected to, or nothing. -/
def connected (verbosity : Option Int) : Journal := { verbosity := verbosity.getD 0 }

/-- The messages of those records whose level is reached. Without a verbosity there are none. -/
def kept : Option Int → List Record → List String
  | none, _ => []
  | some verbosity, records => (records.filter (·.level ≤ verbosity)).map (·.message)

theorem addAll_append (journal : Journal) (records more : List Record) :
    (journal.addAll records).addAll more = journal.addAll (records ++ more) :=
  List.foldl_append.symm

theorem addAll_eq (journal : Journal) (records : List Record) :
    journal.addAll records = { journal with
      messages := journal.messages ++ (records.filter (·.level ≤ journal.verbosity)).map (·.message) } := by
  unfold addAll
  induction records generalizing journal with
  | nil => simp
  | cons r records ih =>
    rw [List.foldl_cons, ih]
    by_cases reached : r.level ≤ journal.verbosity <;> simp [add, reached]

theorem connected_addAll {records : List Record} (quiet : Quiet records) (verbosity : Option Int) :
    (connected verbosity).addAll records = ⟨verbosity.getD 0, kept verbosity records⟩ := by
  rw [addAll_eq]
  cases verbosity with
  | some verbosity => rfl
  | none =>
    have nothing : records.filter (fun r => r.level ≤ (connected none).verbosity) = [] := by
      apply List.filter_eq_nil_iff.mpr
      intro r member
      have level := quiet r member
      show ¬ decide (r.level ≤ 0) = true
      simp only [decide_eq_true_eq]
      omega
    rw [nothing]
    rfl

end Journal

namespace Compile

def Progress.under (p : Progress) (journal : Journal) : Progress := { p with journal }

section

variable {context : Context} {fuel : Nat} {scope : Scope} {d : Document} {p after : Progress}
  {events : List Event} {outcome : Outcome String} {i : Import} {fault : Fault}

theorem document_quiet {wide : Bool} {width : Int} {source : String} {result : Except Failure Document}
    {records : List Record} (read : document wide width source = (result, records)) : Quiet records := by
  have noted : records = (document wide width source).2 := by rw [read]
  rw [noted]
  unfold document
  split
  · exact quiet_nil
  · split
    · exact quiet_singleton (by omega) _
    · exact (quiet_singleton (by omega) _).append (quiet_singleton (by omega) _)

theorem records_quiet (components : Components) (elements : List Element) :
    Quiet (Html.records components elements) := by
  apply Quiet.append
  · intro r member
    obtain ⟨tag, -, rfl⟩ := List.mem_map.mp member
    show (0 : Int) < 3
    omega
  · exact quiet_singleton (by omega) _

theorem resolving_quiet (name target : String) : Quiet [resolvingImport name target] :=
  quiet_singleton (by omega) _

theorem Refusal.noted (refusal : Refusal context scope i p fault after) :
    ∃ records, Quiet records ∧ ∀ journal,
      Refusal context scope i (p.under journal) fault (after.under (journal.addAll records)) := by
  cases refusal with
  | cyclic detects again => exact ⟨[], quiet_nil, fun _ => .cyclic detects again⟩
  | notFound free missing => exact ⟨[], quiet_nil, fun _ => .notFound free missing⟩
  | unreadable free found => exact ⟨_, resolving_quiet _ _, fun _ => .unreadable free found⟩

/-- In any journal a run notes the same records and comes to the same. -/
theorem Run.noted (run : Run context fuel scope d p events outcome) :
    ∃ records, Quiet records ∧ ∀ journal,
      Run context fuel scope d (p.under journal) events
        (outcome.1, outcome.2.under (journal.addAll records)) := by
  induction run with
  | rendered fuel scope elements p =>
    exact ⟨_, records_quiet p.components elements, fun journal => .rendered fuel scope elements (p.under journal)⟩
  | @reused fuel scope i rest elements p events outcome present tail ih =>
    obtain ⟨records, quiet, again⟩ := ih
    have passed : Quiet [Compile.reused i.name] := quiet_singleton (by omega) _
    refine ⟨_, passed.append quiet, fun journal => ?_⟩
    rw [← Journal.addAll_append]
    exact .reused present (again _)
  | refused absent refusal =>
    obtain ⟨records, quiet, again⟩ := refusal.noted
    exact ⟨records, quiet, fun journal => .refused absent (again journal)⟩
  | cut absent opens => exact ⟨_, resolving_quiet _ _, fun _ => .cut absent opens⟩
  | @unread fuel scope i rest elements p text failure records absent opens fails =>
    refine ⟨_, (resolving_quiet i.name (scope.target i)).append (document_quiet fails), fun journal => ?_⟩
    rw [← Journal.addAll_append]
    exact .unread absent opens fails
  | @failed fuel scope i rest elements p after text e records events failure absent opens read inner ih =>
    obtain ⟨inside, quiet, again⟩ := ih
    have opened := (resolving_quiet i.name (scope.target i)).append (document_quiet read)
    refine ⟨_, opened.append quiet, fun journal => ?_⟩
    rw [← Journal.addAll_append, ← Journal.addAll_append]
    exact .failed absent opens read (again _)
  | @stored fuel scope i rest elements p after text e records events more html outcome absent opens read
      inner tail ihInner ihTail =>
    obtain ⟨inside, quietInside, againInside⟩ := ihInner
    obtain ⟨later, quietLater, againLater⟩ := ihTail
    have opened := (resolving_quiet i.name (scope.target i)).append (document_quiet read)
    refine ⟨_, (opened.append quietInside).append quietLater, fun journal => ?_⟩
    rw [← Journal.addAll_append, ← Journal.addAll_append, ← Journal.addAll_append]
    exact .stored absent opens read (againInside _) (againLater _)

theorem compile_noted (context : Context) (scope : Scope) (source : String) (p : Progress) :
    ∃ records, Quiet records ∧ ∀ journal, compile context scope source (p.under journal) =
      ((compile context scope source p).1,
        (compile context scope source p).2.under (journal.addAll records)) := by
  rcases read : document context.wide context.width source with ⟨failure | d, records⟩
  · refine ⟨records, document_quiet read, fun journal => ?_⟩
    rw [(compile_unread read).1, (compile_unread read).1]
    rfl
  · have run : Run context _ scope d (p.note records) _ (compile context scope source p) := compile_run read
    obtain ⟨later, quiet, again⟩ := run.noted
    refine ⟨records ++ later, (document_quiet read).append quiet, fun journal => ?_⟩
    have own : Run context _ scope d ((p.under journal).note records) _
        (compile context scope source (p.under journal)) := compile_run read
    -- a run is determined by where it starts
    rw [← Journal.addAll_append]
    exact own.computed.2.trans (again (journal.addAll records)).computed.2.symm

end

end Compile

/-! ### Readers -/

namespace Document

theorem trace_eq (index : Int) (tokens : List Token) :
    trace index tokens = tokens.mapIdx fun k t => taken (index + k) t := by
  induction tokens generalizing index with
  | nil => rfl
  | cons t tokens ih =>
    rw [trace, ih, List.mapIdx_cons]
    congr 1
    · simp
    · congr 1
      funext k t
      congr 1
      omega

theorem whole_quiet (tokens : List Token) (source : Option String) (traced : Bool) :
    Quiet ({ tokens, source, traced } : Cursor).whole.records := by
  rw [Cursor.whole_eq, trace_eq]
  apply Quiet.append
  · intro r member
    split at member
    · obtain ⟨k, bound, rfl⟩ := List.mem_mapIdx.mp member
      show (0 : Int) < 3
      omega
    · cases member
  · intro r member
    obtain ⟨d, -, rfl⟩ := List.mem_map.mp member
    show (0 : Int) < 3
    omega

theorem Cursor.take_eq {c : Cursor} {k : Nat} {t : Token} {kind : Option Token.Kind}
    (found : c.tokens[k]? = some t) (goesOn : t.kind ≠ .finish) (due : kind = none ∨ kind = some t.kind) :
    (c.seek k).take kind = ⟨.ok t, c.seek (k + 1), if c.traced then [taken k t] else []⟩ := by
  have upcoming : (c.seek k).upcoming = c.tokens.drop k := by
    simp [Cursor.upcoming, Offset.upcoming?, Cursor.seek]
  have ahead : (c.seek k).current = .ok t := by
    obtain ⟨bound, rfl⟩ := List.getElem?_eq_some_iff.mp found
    rw [Cursor.current, upcoming, List.drop_eq_getElem_cons bound]
  rcases due with rfl | rfl <;> simp only [Cursor.take, ahead, goesOn, if_false, if_true] <;> rfl

/-- Reading a list takes the tokens `eaten`, and only a reader that traces them notes so. -/
structure TracesEaten (tokens : List Token) (source : Option String) (eaten : List Token) : Prop where
  inside : eaten <+: tokens
  takes : ∃ last, Takes {} 0 eaten last
  reached : ({ tokens, source } : Cursor).whole.cursor.index = eaten.length
  outcome : ({ tokens, source, traced := true } : Cursor).whole.outcome =
    ({ tokens, source } : Cursor).whole.outcome
  cursor : ({ tokens, source, traced := true } : Cursor).whole.cursor =
    { ({ tokens, source } : Cursor).whole.cursor with traced := true }
  records : ({ tokens, source, traced := true } : Cursor).whole.records =
    (eaten.mapIdx fun k t => taken k t) ++ ({ tokens, source } : Cursor).whole.records
  eats : ∀ (k : Nat) t, eaten[k]? = some t → (taken k t).level = 3 ∧
    ∀ kind, kind = none ∨ kind = some t.kind →
      (({ tokens, source, traced := true } : Cursor).seek k).take kind =
        ⟨.ok t, ({ tokens, source, traced := true } : Cursor).seek (k + 1), [taken k t]⟩

theorem traces_eaten (tokens : List Token) (source : Option String) :
    ∃ eaten, TracesEaten tokens source eaten := by
  obtain ⟨eaten, after, last, stop, rfl, takes, halts, run⟩ := takes_of_read {} 0 tokens
  have reached : (read {} 0 (eaten ++ after)).index = eaten.length := by
    rw [run, Int.zero_add]
  refine ⟨eaten, List.prefix_append _ _, ⟨last, takes⟩, ?_, ?_, ?_, ?_, ?_⟩
  · rw [Cursor.whole_eq, reached]
  · rw [Cursor.whole_eq, Cursor.whole_eq]
  · rw [Cursor.whole_eq, Cursor.whole_eq]
  · rw [Cursor.whole_eq, Cursor.whole_eq, reached, Int.toNat_natCast, List.take_left' rfl, trace_eq]
    simp
  · intro k t found
    refine ⟨rfl, fun kind due => ?_⟩
    have goesOn : t.kind ≠ .finish := takes.ne_finish t (List.mem_of_getElem? found)
    have within : (eaten ++ after)[k]? = some t := by
      rw [List.getElem?_append_left (List.getElem?_eq_some_iff.mp found).1, found]
    exact Cursor.take_eq within goesOn due

end Document

namespace Compile

/-- A verbosity picks from one list of records, and changes nothing else. So does tracing, which
adds one record to each token taken. -/
theorem verbosity_only_filters (context : Context) (scope : Scope) (source : String) (p : Progress)
    (tokens : List Token) (origin : Option String) :
    (∃ records, ∀ verbosity, compile context scope source (p.under (.connected verbosity)) =
      ((compile context scope source p).1,
        (compile context scope source p).2.under ⟨verbosity.getD 0, Journal.kept verbosity records⟩)) ∧
    (∀ traced verbosity,
      (Journal.connected verbosity).addAll ({ tokens, source := origin, traced } : Document.Cursor).whole.records =
        ⟨verbosity.getD 0,
          Journal.kept verbosity ({ tokens, source := origin, traced } : Document.Cursor).whole.records⟩) ∧
    ∃ eaten, Document.TracesEaten tokens origin eaten := by
  refine ⟨?_, ?_, Document.traces_eaten tokens origin⟩
  · obtain ⟨records, quiet, noted⟩ := compile_noted context scope source p
    refine ⟨records, fun verbosity => ?_⟩
    rw [noted, Journal.connected_addAll quiet]
  · intro traced verbosity
    exact Journal.connected_addAll (Document.whole_quiet tokens origin traced) verbosity

/-- A file that fails to be read has noted by then that it was opened and cut into tokens. -/
example :
    (compile { files := [("/nav", .ok "p;")] } ⟨"/", []⟩ "import N from \"nav\"; N:;"
      { journal := .connected (some 3) }).2.journal.messages =
      ["Tokenized 24 characters into 9 tokens", "Parsed 1 imports and 1 top-level elements",
        "Resolving import 'N' from /nav", "Tokenized 2 characters into 3 tokens"] := by
  decide +kernel

end Compile

end ElementMarkup
