import ElementMarkup.Job
import ElementMarkup.Proofs.Disk

/-!
What each stage of a job needs to go on, what it hands on and what it does to the disk. Only writing
changes a file; preparing makes directories, and no other stage changes anything.
-/

namespace ElementMarkup

@[simp] theorem Shell.note_disk (shell : Shell) (level : Int) (message : String) :
    (shell.note level message).disk = shell.disk := rfl

namespace Job

variable {settings : Settings} {encoding : Encoding} {job next : Job} {shell after : Shell}

/-- The input file is not there, or none is named. -/
def Missing (job : Job) (disk : Disk) : Prop :=
  ∀ inputFile, job.inputFile = some inputFile → disk.isFile (job.inputDir.join inputFile) ≠ .ok true

theorem refuse_disk {α : Type} (shell : Shell) (what : String) (fault : Disk.Fault) :
    (refuse shell what fault : Outcome α).2.disk = shell.disk := by
  unfold refuse fail
  split <;> rfl

theorem refuse_error {α : Type} (shell : Shell) (what : String) (fault : Disk.Fault) (a : α) :
    (refuse shell what fault).1 ≠ .ok a := by
  unfold refuse fail
  split <;> exact nofun

theorem place_makes (settings : Settings) (job : Job) (inputFile : String) (source : Location)
    (shell : Shell) : Disk.Makes job.outputDir shell.disk (place settings job inputFile source shell).2.disk := by
  have made := Disk.makeDirectories_makes shell.disk job.outputDir
  unfold place
  simp only
  split
  · exact .nothing _
  · split
    · rename_i fails
      rwa [fails] at made
    · rename_i succeeds
      rwa [succeeds] at made

theorem place_eq_ok {inputFile : String} {source : Location}
    (placed : place settings job inputFile source shell = (.ok next, after)) :
    ∃ name, job.outputName settings inputFile = .ok name ∧
      next = { job with source, output := job.outputDir.join name, ready := true } := by
  unfold place at placed
  simp only at placed
  split at placed
  · cases placed
  · rename_i name named
    split at placed
    · cases placed
    · cases placed
      exact ⟨name, named, rfl⟩

theorem prepare_makes (settings : Settings) (job : Job) (shell : Shell) :
    Disk.Makes job.outputDir shell.disk (prepare settings job shell).2.disk := by
  unfold prepare
  simp only
  split
  · exact .nothing _
  · split
    · exact .nothing _
    · exact .nothing _
    · exact place_makes settings job _ _ ((shell.note 2 _).note 2 _)

theorem prepare_missing (settings : Settings) (missing : job.Missing shell.disk) :
    ∃ halt, (prepare settings job shell).1 = .error halt ∧
      (prepare settings job shell).2.disk = shell.disk := by
  unfold prepare
  simp only
  split
  · exact ⟨_, rfl, rfl⟩
  · rename_i inputFile given
    split
    · exact ⟨_, rfl, rfl⟩
    · exact ⟨_, rfl, rfl⟩
    · rename_i there
      exact absurd there (missing inputFile given)

theorem prepare_eq_ok (prepared : prepare settings job shell = (.ok next, after)) :
    ∃ inputFile name, job.inputFile = some inputFile ∧
      shell.disk.isFile (job.inputDir.join inputFile) = .ok true ∧
      job.outputName settings inputFile = .ok name ∧
      next = { job with
        source := job.inputDir.join inputFile, output := job.outputDir.join name, ready := true } := by
  unfold prepare at prepared
  simp only at prepared
  split at prepared
  · cases prepared
  · rename_i inputFile given
    split at prepared
    · cases prepared
    · cases prepared
    · rename_i there
      obtain ⟨name, named, rfl⟩ := place_eq_ok prepared
      exact ⟨inputFile, name, given, there, named, rfl⟩

theorem read_disk (decoder : Encoding.Decoder) (job : Job) (shell : Shell) :
    (read decoder job shell).2.disk = shell.disk := by
  unfold read
  simp only
  split
  · exact refuse_disk _ _ _
  · split <;> rfl

theorem read_eq_ok {decoder : Encoding.Decoder} (loaded : read decoder job shell = (.ok next, after)) :
    ∃ bytes text, shell.disk.bytes job.source = .ok bytes ∧ decoder bytes = .ok text ∧
      next = { job with sourceText := some text } ∧ after.errors = shell.errors := by
  unfold read at loaded
  simp only at loaded
  split at loaded
  · exact absurd (congrArg Prod.fst loaded) (refuse_error _ _ _ _)
  · rename_i bytes there
    split at loaded
    · cases loaded
    · cases loaded
    · rename_i text decoded
      cases loaded
      exact ⟨bytes, text, there, decoded, rfl, rfl⟩

theorem compile_disk (settings : Settings) (decoder : Encoding.Decoder) (job : Job) (shell : Shell) :
    (compile settings decoder job shell).2.disk = shell.disk := by
  unfold compile
  simp only
  split
  · rfl
  · split <;> rfl

inductive Answers (job : Job) (shell : Shell) :
    Except Halt String × Compile.Progress → Outcome Job → Prop where
  | html (html : String) (p : Compile.Progress) (after : Shell) :
      Answers job shell (.ok html, p)
        (.ok { job with html := some html, componentCount := p.components.length }, after)
  | diagnosed (d : Diagnostic) (p : Compile.Progress) (after : Shell)
      (printed : after.errors = shell.errors ++ d.notice ++ "\n") :
      Answers job shell (.error (.compile (.diagnosed d)), p) (.error (.exit 1), after)
  | other (halt : Halt) (p : Compile.Progress) (after : Shell)
      (undiagnosed : ∀ d, halt ≠ .compile (.diagnosed d)) (silent : after.errors = shell.errors) :
      Answers job shell (.error halt, p) (.error halt, after)

theorem Answers.halted {result : Except Halt String × Compile.Progress} {stage : Outcome Job} {halt : Halt}
    (answers : Answers job shell result stage) (fails : result.1 = .error halt)
    (undiagnosed : ∀ d, halt ≠ .compile (.diagnosed d)) : stage.1 = .error halt := by
  cases answers with
  | html => cases fails
  | diagnosed d =>
    cases fails
    exact absurd rfl (undiagnosed d)
  | other =>
    cases fails
    rfl

theorem compile_answers (settings : Settings) (decoder : Encoding.Decoder) (shell : Shell)
    (plain : job.source.hasNull = false) :
    Answers job shell (compiled settings decoder job (shell.note 1 "Compiling source to HTML..."))
      (compile settings decoder job shell) := by
  unfold compile
  simp only [plain]
  rw [if_neg Bool.false_ne_true]
  split
  · rename_i d p result
    rw [result]
    exact .diagnosed d p _ rfl
  · rename_i halt p other result
    rw [result]
    exact .other halt p _ (fun d same => other d (by rw [same])) rfl
  · rename_i html p result
    rw [result]
    exact .html html p _

theorem compile_eq_ok {decoder : Encoding.Decoder}
    (completed : compile settings decoder job shell = (.ok next, after)) :
    ∃ html p, compiled settings decoder job (shell.note 1 "Compiling source to HTML...") = (.ok html, p) ∧
      next = { job with html := some html, componentCount := p.components.length } := by
  cases null : job.source.hasNull with
  | true =>
    simp [compile, null] at completed
  | false =>
    have answers := compile_answers settings decoder shell null
    rw [completed] at answers
    generalize compiled settings decoder job (shell.note 1 "Compiling source to HTML...") = result at answers
    cases answers with
    | html html p => exact ⟨html, p, rfl, rfl⟩

theorem write_eq_ok (written : write encoding job shell = (.ok next, after)) :
    next = job ∧ ∃ html bytes, job.html = some html ∧ encoding.write html = .ok bytes ∧
      shell.disk.write job.output bytes = .ok after.disk := by
  unfold write at written
  split at written
  · cases written
  · rename_i html given
    simp only at written
    split at written
    · exact absurd (congrArg Prod.fst written) (refuse_error _ _ _ _)
    · rename_i disk stored
      split at written
      · cases written
      · rename_i bytes encoded
        cases written
        rw [encoded] at stored
        exact ⟨rfl, html, bytes, given, encoded, stored⟩

/-- A text that can be encoded is written whole or not at all. -/
theorem write_halted {halt : Halt}
    (encodes : ∀ html, job.html = some html → ∃ bytes, encoding.write html = .ok bytes)
    (halted : write encoding job shell = (.error halt, after)) : after.disk = shell.disk := by
  unfold write at halted
  split at halted
  · cases halted
    rfl
  · rename_i html given
    obtain ⟨bytes, encoded⟩ := encodes html given
    simp only [encoded] at halted
    split at halted
    · rename_i fault _
      have kept : (refuse shell "Error writing output file: " fault : Outcome Job).2.disk = shell.disk :=
        refuse_disk _ _ _
      rwa [halted] at kept
    · cases halted

theorem write_unencodable
    (encodes : ∀ html, job.html = some html → ∃ bytes, encoding.write html = .ok bytes)
    (shell : Shell) (cause : Encoding.Unencodable) :
    (write encoding job shell).1 ≠ .error (.unencodable cause) := by
  unfold write
  split
  · exact nofun
  · rename_i html given
    obtain ⟨bytes, encoded⟩ := encodes html given
    simp only [encoded]
    split
    · unfold refuse fail
      split <;> exact nofun
    · exact nofun

/-! ### Stage after stage -/

theorem run_outputDir {stage : Stage} (ran : run settings encoding stage job shell = (.ok next, after)) :
    next.outputDir = job.outputDir := by
  cases stage with
  | prepare =>
    obtain ⟨_, _, _, _, _, rfl⟩ := prepare_eq_ok ran
    rfl
  | read =>
    obtain ⟨_, _, _, _, rfl, _⟩ := read_eq_ok ran
    rfl
  | compile =>
    obtain ⟨_, _, _, rfl⟩ := compile_eq_ok ran
    rfl
  | write => rw [(write_eq_ok ran).1]
  | report =>
    cases ran
    rfl

theorem run_makes {stage : Stage} (spares : stage ≠ .write) (settings : Settings) (encoding : Encoding)
    (job : Job) (shell : Shell) :
    Disk.Makes job.outputDir shell.disk (run settings encoding stage job shell).2.disk := by
  cases stage with
  | prepare => exact prepare_makes settings job shell
  | read =>
    rw [run, read_disk]
    exact .nothing _
  | compile =>
    rw [run, compile_disk]
    exact .nothing _
  | write => exact absurd rfl spares
  | report => exact .nothing _

theorem runAll_makes {stages : List Stage} (spares : .write ∉ stages) (settings : Settings)
    (encoding : Encoding) (job : Job) (shell : Shell) :
    Disk.Makes job.outputDir shell.disk (runAll settings encoding stages job shell).2.disk := by
  induction stages generalizing job shell with
  | nil => exact .nothing _
  | cons stage rest ih =>
    obtain ⟨first, later⟩ := not_or.mp (mt List.mem_cons.mpr spares)
    have made := run_makes (Ne.symm first) settings encoding job shell
    unfold runAll
    split
    · rename_i ran
      rwa [ran] at made
    · rename_i next middle ran
      rw [ran] at made
      have rested := ih later next middle
      rw [run_outputDir ran] at rested
      exact made.trans rested

theorem runAll_append (settings : Settings) (encoding : Encoding) (front rest : List Stage) (job : Job)
    (shell : Shell) :
    runAll settings encoding (front ++ rest) job shell =
      match runAll settings encoding front job shell with
      | (.error halt, shell) => (.error halt, shell)
      | (.ok job, shell) => runAll settings encoding rest job shell := by
  induction front generalizing job shell with
  | nil => rfl
  | cons stage more ih =>
    rw [List.cons_append, runAll, runAll]
    split
    · rfl
    · exact ih _ _

theorem runAll_cons_error {stage : Stage} {rest : List Stage} {halt : Halt}
    (halted : runAll settings encoding (stage :: rest) job shell = (.error halt, after)) :
    run settings encoding stage job shell = (.error halt, after) ∨
      ∃ middle between, run settings encoding stage job shell = (.ok middle, between) ∧
        runAll settings encoding rest middle between = (.error halt, after) := by
  unfold runAll at halted
  split at halted
  · rename_i stopped
    cases halted
    exact Or.inl stopped
  · rename_i middle between ran
    exact Or.inr ⟨middle, between, ran, halted⟩

theorem runAll_cons_ok {stage : Stage} {rest : List Stage}
    (completed : runAll settings encoding (stage :: rest) job shell = (.ok next, after)) :
    ∃ middle between, run settings encoding stage job shell = (.ok middle, between) ∧
      runAll settings encoding rest middle between = (.ok next, after) := by
  unfold runAll at completed
  split at completed
  · cases completed
  · rename_i middle between ran
    exact ⟨middle, between, ran, completed⟩

end Job

end ElementMarkup
