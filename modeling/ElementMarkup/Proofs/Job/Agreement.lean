import ElementMarkup.Proofs.Job.Writing

/-!
The compile stage of a job does what compiling the file at the job's source does, whatever encoding
the files are in. The stage works out the source's path without the disk's help and takes the text that
was read before; from there on the two compiles are alike, in what they come to, in what they store and
in what they ask about. So they also end alike where nothing is there to make a diagnostic of the end.
-/

namespace ElementMarkup

namespace Job

variable {settings : Settings} {decoder : Encoding.Decoder} {job : Job} {disk : Disk}

/-- A compile asked about a path that is too long, or the encoding gave up on a file it opened. -/
inductive Uncaught (decoder : Encoding.Decoder) (disk : Disk) (p : Compile.Progress) : Halt → Prop where
  | longPath (path : String) (last : p.calls.getLast? = some (.asked path))
      (refused : disk.isFile (.ofString path) = .error ⟨.nameTooLong, (Location.ofString path).text⟩) :
      Uncaught decoder disk p (.disk ⟨.nameTooLong, (Location.ofString path).text⟩)
  | givenUp (path : String) (bytes : List UInt8) (name message : String)
      (last : p.calls.getLast? = some (.opened path)) (there : disk.bytes (.ofString path) = .ok bytes)
      (fault : decoder bytes = .error (.other name message)) :
      Uncaught decoder disk p (.encoding name message)

theorem barred_eq_some {p : Compile.Progress} {halt : Halt} (ends : barred decoder disk p = some halt) :
    Uncaught decoder disk p halt := by
  unfold barred at ends
  split at ends
  · rename_i path last
    split at ends
    · rename_i fault refused
      cases ends
      obtain rfl := Disk.isFile_eq_error refused
      exact .longPath path last refused
    · cases ends
  · rename_i path last
    cases there : disk.bytes (.ofString path) with
    | error fault => simp [there, Except.map] at ends
    | ok bytes =>
      simp only [there, Except.map] at ends
      split at ends
      · rename_i name message fault
        cases ends
        exact .givenUp path bytes name message last there (Except.ok.inj fault)
      · cases ends
  · cases ends

/-- A compile does not end at its own source, which has been decoded. -/
theorem barred_source {source : Location} {bytes : List UInt8} {text : String} {p : Compile.Progress}
    (located : source.Proper) (reads : disk.bytes source = .ok bytes) (decoded : decoder bytes = .ok text)
    (last : p.calls.getLast? = some (.opened source.resolved)) : barred decoder disk p = none := by
  have stands := (Disk.bytes_eq_ok reads).1
  cases ends : barred decoder disk p with
  | none => rfl
  | some halt =>
    cases barred_eq_some ends with
    | longPath path asked => cases last.symm.trans asked
    | givenUp path content name message opened there fault =>
      cases last.symm.trans opened
      have same := (Disk.bytes_eq_ok there).1
      rw [located.way_resolved, stands] at same
      cases same
      cases decoded.symm.trans fault

theorem barred_alike {p q after other : Compile.Progress} (alike : Compile.Alike p q after other)
    (mine : barred decoder disk p = none) (yours : barred decoder disk q = none) :
    barred decoder disk other = barred decoder disk after := by
  obtain ⟨calls, made, others⟩ := alike.called
  by_cases nothing : calls = []
  · rw [nothing, List.append_nil] at made others
    rw [barred, others, ← barred, yours, barred, made, ← barred, mine]
  · have last : other.calls.getLast? = after.calls.getLast? := by
      rw [made, others, List.getLast?_append_of_ne_nil _ nothing, List.getLast?_append_of_ne_nil _ nothing]
    rw [barred, last, ← barred]

theorem onDisk_snd (decoder : Encoding.Decoder) (disk : Disk) (outcome : Compile.Outcome String) :
    (onDisk decoder disk outcome).2 = outcome.2 := by
  obtain ⟨failure | html, p⟩ := outcome
  · unfold onDisk
    simp only
    split <;> rfl
  · rfl

theorem onDisk_alike {p q : Compile.Progress} {mine yours : Compile.Outcome String}
    (alike : yours.1 = mine.1 ∧ Compile.Alike p q mine.2 yours.2) (unbarred : barred decoder disk p = none)
    (free : barred decoder disk q = none) :
    (onDisk decoder disk yours).1 = (onDisk decoder disk mine).1 ∧
      (onDisk decoder disk yours).2.components = (onDisk decoder disk mine).2.components := by
  obtain ⟨same, alike⟩ := alike
  have bars := barred_alike alike unbarred free
  rw [onDisk_snd, onDisk_snd]
  refine ⟨?_, alike.stored⟩
  obtain ⟨result, after⟩ := mine
  obtain ⟨_, other⟩ := yours
  cases same
  cases result with
  | error failure =>
    unfold onDisk
    simp only [bars]
    split <;> rfl
  | ok html => rfl

theorem onDisk_eq_error {outcome : Compile.Outcome String} {halt : Halt}
    (fails : (onDisk decoder disk outcome).1 = .error halt) :
    (∃ failure, outcome.1 = .error failure ∧ halt = .compile failure) ∨
      Uncaught decoder disk outcome.2 halt := by
  obtain ⟨failure | html, p⟩ := outcome
  · unfold onDisk at fails
    simp only at fails
    split at fails
    · rename_i ends
      cases fails
      exact Or.inr (barred_eq_some ends)
    · cases fails
      exact Or.inl ⟨failure, rfl, rfl⟩
  · cases fails

/-- How the compile stage, run in a shell, compares to a compile of the file itself. -/
structure Agrees (decoder : Encoding.Decoder) (stage : Outcome Job) (shell : Shell)
    (file : Except Halt String × Compile.Progress) : Prop where
  html : ∀ html (count : Nat),
    (∃ done after, stage = (.ok done, after) ∧ done.html = some html ∧ done.componentCount = count) ↔
      ∃ p, file = (.ok html, p) ∧ p.components.length = count
  failure : (∀ html p, file ≠ (.ok html, p)) →
    (∃ d p after, file = (.error (.compile (.diagnosed d)), p) ∧ stage = (.error (.exit 1), after) ∧
      after.errors = shell.errors ++ (d.headline ++ ": " ++ d.message) ++ "\n") ∨
    ∃ halt p after, file = (.error halt, p) ∧ Uncaught decoder shell.disk p halt ∧
      stage = (.error halt, after) ∧ after.errors = shell.errors

theorem Answers.agrees {shell : Shell} {result file : Except Halt String × Compile.Progress}
    {stage : Outcome Job} (answers : Answers job shell result stage) (same : file.1 = result.1)
    (stored : file.2.components = result.2.components)
    (errors : ∀ halt, file.1 = .error halt →
      (∃ d, halt = .compile (.diagnosed d)) ∨ Uncaught decoder shell.disk file.2 halt) :
    Agrees decoder stage shell file := by
  obtain ⟨_, q⟩ := file
  cases answers with
  | html html p after =>
    cases same
    refine ⟨fun own count => ⟨?_, ?_⟩, fun fails => absurd rfl (fails html q)⟩
    · rintro ⟨done, last, ⟨⟩, ⟨⟩, counted⟩
      exact ⟨q, rfl, by rw [stored]; exact Int.ofNat.inj counted⟩
    · rintro ⟨p', ⟨⟩, rfl⟩
      exact ⟨_, after, rfl, rfl, by rw [stored]⟩
  | diagnosed d p after printed =>
    cases same
    refine ⟨fun own count => ⟨?_, ?_⟩, fun _ => Or.inl ⟨d, q, after, rfl, rfl, printed⟩⟩
    · rintro ⟨done, last, ⟨⟩, -⟩
    · rintro ⟨p', ⟨⟩, -⟩
  | other halt p after undiagnosed silent =>
    cases same
    have uncaught := (errors halt rfl).resolve_left fun ⟨d, named⟩ => undiagnosed d named
    refine ⟨fun own count => ⟨?_, ?_⟩, fun _ => Or.inr ⟨halt, q, after, rfl, uncaught, rfl, silent⟩⟩
    · rintro ⟨done, last, ⟨⟩, -⟩
    · rintro ⟨p', ⟨⟩, -⟩

/-- The source that is read is the file at its resolved path. -/
theorem find?_source {source output : Location} {before made : Disk} {bytes : List UInt8} {text : String}
    (decoded : decoder bytes = .ok text) (located : source.Proper) (proper : before.Proper)
    (short : source.root = "" → source.resolved.utf8ByteSize ≤ Disk.longestPath)
    (makes : Disk.Makes output before made) (reads : made.bytes source = .ok bytes) :
    Table.find? (made.sources decoder) source.resolved = some (.ok text) := by
  obtain ⟨stands, fits, -⟩ := Disk.bytes_eq_ok reads
  have size : source.resolved.utf8ByteSize ≤ Disk.longestPath := by
    by_cases relative : source.root = ""
    · exact short relative
    · exact Nat.le_trans (Location.resolved_size_le relative) fits
  have stood := (makes.onlyMakes.files source.way bytes).mp stands
  rw [makes.sources_eq]
  exact Disk.find?_sources decoded proper located.way_named size stood

/-- What the file at a path of a disk compiles to, from an empty store. -/
def file (settings : Settings) (decoder : Encoding.Decoder) (disk : Disk) (path : String) :
    Except Halt String × Compile.Progress :=
  onDisk decoder disk (Compile.file (context settings disk decoder) path {})

theorem file_alike_compiled {shell : Shell} {bytes : List UInt8} {text : String} (settings : Settings)
    (located : job.source.Proper) (single : job.source.root ≠ "//") (loaded : job.sourceText = some text)
    (reads : shell.disk.bytes job.source = .ok bytes) (decoded : decoder bytes = .ok text)
    (found : Table.find? (shell.disk.sources decoder) job.source.resolved = some (.ok text)) :
    (file settings decoder shell.disk job.source.text).1 = (compiled settings decoder job shell).1 ∧
      (file settings decoder shell.disk job.source.text).2.components =
        (compiled settings decoder job shell).2.components := by
  have canonical := located.canonical_text single
  rw [← canonical] at found
  rw [file, compiled, loaded, Option.getD_some, Compile.file_of_text found, canonical]
  exact onDisk_alike (Compile.compile_alike rfl) rfl (barred_source located reads decoded rfl)

theorem file_eq_error {path text : String} {halt : Halt} (detects : settings.detectCycles = true)
    (found : Table.find? (disk.sources decoder) (Path.canonical path.toList) = some (.ok text))
    (fails : (file settings decoder disk path).1 = .error halt) :
    (∃ d, halt = .compile (.diagnosed d)) ∨
      Uncaught decoder disk (file settings decoder disk path).2 halt := by
  rw [file, onDisk_snd]
  rcases onDisk_eq_error fails with ⟨failure, stops, rfl⟩ | uncaught
  · rw [Compile.file_of_text found] at stops
    obtain ⟨d, rfl⟩ := Compile.compile_diagnosed detects (List.nodup_singleton _) stops
    exact Or.inl ⟨d, rfl⟩
  · exact Or.inr uncaught

def oneFile (text : List Char) : Disk :=
  [(["in"], .directory), (["in", "a.webf"], .file (text.map fun c => UInt8.ofNat c.toNat))]

def oneFileJob : Job :=
  { inputDir := .ofString "/in/../in", outputDir := .ofString "/out", inputFile := some "a.webf" }

def oneFilePlaced : Job :=
  { oneFileJob with
    ready := true, source := .ofString "/in/../in/a.webf", output := .ofString "/out/a.html" }

def oneFileReady (text : List Char) : Job := { oneFilePlaced with sourceText := some (String.ofList text) }

def selfImport : List Char := "import A from \"../in/a.webf\"; A:;".toList

/-- Texts in this encoding start with a mark. -/
def marked : Encoding.Decoder := fun bytes =>
  if bytes.head? = some 0xFF then Encoding.ascii.decoder bytes.tail
  else .error (.other "UnicodeError" "stream does not start with a mark")

def unmarkedImport : List Char := "import B from \"b\"; B:;".toList

def unmarked : Disk := oneFile ('ÿ' :: unmarkedImport) ++ [(["in", "b"], .file [])]

theorem onDisk_long_import {context : Compile.Context} {scope : Compile.Scope} {source : String}
    {p : Compile.Progress} {d : Document} {records : List Record} {i : Import} {rest : List Import}
    {fault : Disk.Fault} (read : Compile.document context.wide context.width source = (.ok d, records))
    (first : d.imports = i :: rest) (absent : Table.has p.components i.name = false)
    (entered : scope.target i ∉ scope.resolving)
    (missing : Table.find? context.files (scope.target i) = none)
    (refused : disk.isFile (.ofString (scope.target i)) = .error fault) :
    (onDisk decoder disk (Compile.compile context scope source p)).1 = .error (.disk fault) := by
  have refusal := Compile.Refusal.notFound (p := p.note records) (fun again => entered again.2) missing
  have barred : barred decoder disk ((p.note records).call (.asked (scope.target i))) = some (.disk fault) := by
    rw [Job.barred, Compile.Progress.call_calls, List.getLast?_concat]
    simp only [refused]
  rw [Compile.compile_refused read first absent refusal, onDisk, barred]

def longName : List Char := List.replicate 256 'n'

def longPath : List Char := "/in/".toList ++ longName

def longImport : List Char := "import N from \"".toList ++ longName ++ "\"; N:;".toList

theorem longPath_refused {disk : Disk} (there : disk.node? ["in"] = some .directory) :
    disk.isFile (.ofString (String.ofList longPath)) = .error ⟨.nameTooLong, String.ofList longPath⟩ := by
  have located : Location.ofString (String.ofList longPath) = ⟨"/", ["in"] ++ [String.ofList longName]⟩ := by
    rw [Location.ofString, String.toList_ofList]
    decide +kernel
  have text : (Location.ofString (String.ofList longPath)).text = String.ofList longPath := by
    rw [located]
    decide +kernel
  have usable : (Location.ofString (String.ofList longPath)).hasNull = false := by
    rw [Location.hasNull, text, String.toList_ofList]
    decide +kernel
  have fits : (Location.ofString (String.ofList longPath)).text.utf8ByteSize ≤ Disk.longestPath := by
    rw [text]
    decide +kernel
  have refused := Disk.isFile_long_name usable fits (by rw [located]) rfl there (by decide +kernel)
  rwa [text] at refused

theorem resolve_longName : Path.resolve "/in" (String.ofList longName) = String.ofList longPath := by
  have chars : (String.ofList longName).toList = longName := String.toList_ofList
  have joined : Path.join "/in".toList longName = longPath := by decide +kernel
  have absolute : Path.isAbsolute longPath = true := by decide +kernel
  have lead : Path.lead longPath = "/" := by decide +kernel
  have followed : Path.followed longPath = ["in", String.ofList longName] := by decide +kernel
  rw [Path.resolve, chars, joined, Path.canonical, if_pos absolute, lead, followed]
  decide +kernel

theorem longImport_refused {disk : Disk} {p : Compile.Progress}
    (there : disk.node? ["in"] = some .directory)
    (missing : Table.find? (disk.sources decoder) (String.ofList longPath) = none)
    (empty : p.components = []) :
    (onDisk decoder disk (Compile.compile (context {} disk decoder) ⟨"/in", ["/in/a.webf"]⟩
      (String.ofList longImport) p)).1 = .error (.disk ⟨.nameTooLong, String.ofList longPath⟩) := by
  obtain ⟨d, records, read, imports⟩ :
      ∃ d records, Compile.document false 40 (String.ofList longImport) = (.ok d, records) ∧
        d.imports = [⟨"N", String.ofList longName, 0⟩] :=
    Compile.document_ofList (by decide) (by decide +kernel) (by decide +kernel)
  have target : Compile.Scope.target ⟨"/in", ["/in/a.webf"]⟩ ⟨"N", String.ofList longName, 0⟩ =
      String.ofList longPath := resolve_longName
  refine onDisk_long_import read imports (by rw [empty]; rfl) ?_ ?_ ?_
  · rw [target]
    decide +kernel
  · rw [target]
    exact missing
  · rw [target]
    exact longPath_refused there

/-- What preparing a job for a file with such an import leaves on the disk. -/
theorem longImport_prepared :
    ∃ made, prepare {} oneFileJob { disk := oneFile longImport } = (.ok oneFilePlaced, made) ∧
      (read Encoding.utf8.decoder oneFilePlaced made).1 = .ok (oneFileReady longImport) ∧
      made.disk.node? ["in"] = some .directory ∧
      Table.find? (made.disk.sources Encoding.utf8.decoder) (String.ofList longPath) = none ∧
      Table.find? (made.disk.sources Encoding.utf8.decoder) "/in/a.webf" =
        some (.ok (String.ofList longImport)) := by
  refine ⟨(prepare {} oneFileJob { disk := oneFile longImport }).2, ?_, ?_, ?_, ?_, ?_⟩
  · exact Prod.ext (by decide +kernel) rfl
  all_goals decide +kernel

end Job

end ElementMarkup
