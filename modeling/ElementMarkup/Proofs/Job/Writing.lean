import ElementMarkup.Proofs.Compile.Alphabet
import ElementMarkup.Proofs.Compile.SameStore
import ElementMarkup.Proofs.Encoding
import ElementMarkup.Proofs.Job

/-!
A job writes all or nothing. The HTML of a source can be encoded the way its files were decoded, so
once the output has been opened nothing stops the write, and whatever stops the job earlier leaves
every file as it was. What is written is read back as it was: HTML has no carriage returns where its
sources have none.
-/

namespace ElementMarkup

namespace Job

variable {settings : Settings} {encoding : Encoding} {job next : Job} {shell after : Shell}

/-- A disk's file, read and compiled at its own path, gives some HTML. -/
def CompilesTo (settings : Settings) (encoding : Encoding) (disk : Disk) (source : Location)
    (html : String) : Prop :=
  ∃ bytes text, disk.bytes source = .ok bytes ∧ encoding.read bytes = .ok text ∧
    (Compile.compile (context settings disk encoding.decoder)
      ⟨Path.directory source.resolved, [source.resolved]⟩ text {}).1 = .ok html

theorem onDisk_eq_ok {decoder : Encoding.Decoder} {disk : Disk} {outcome : Compile.Outcome String}
    {html : String} {p : Compile.Progress} (succeeds : onDisk decoder disk outcome = (.ok html, p)) :
    outcome = (.ok html, p) := by
  obtain ⟨failure | other, q⟩ := outcome
  · unfold onDisk at succeeds
    simp only at succeeds
    split at succeeds <;> cases succeeds
  · cases succeeds
    rfl

/-- Every source that a compile can enter was read, so what it compiles to could have been. -/
theorem CompilesTo.covered {disk : Disk} {source : Location} {html : String}
    (compiles : CompilesTo settings encoding disk source html) :
    Alphabet.Covers encoding.readable html := by
  obtain ⟨bytes, text, -, decoded, result⟩ := compiles
  refine Compile.compile_covered (fun c small other => ⟨Encoding.has_of_ascii small, other⟩)
    (Encoding.read_readable decoded) ?_ ?_ result
  · intro name target inner text entered found
    obtain ⟨content, same⟩ := Disk.mem_sources (Table.mem_of_find? found)
    exact Encoding.read_readable (Encoding.decoder_eq_ok.mp same)
  · intro name stored found
    cases found

theorem CompilesTo.encodes {disk : Disk} {source : Location} {html : String}
    (compiles : CompilesTo settings encoding disk source html) :
    ∃ bytes, encoding.write html = .ok bytes :=
  Encoding.write_eq_ok fun c occurs => (compiles.covered c occurs).1

theorem context_of_makes {disk made : Disk} {output : Location} (settings : Settings)
    (decoder : Encoding.Decoder) (makes : Disk.Makes output disk made) :
    context settings made decoder = context settings disk decoder := by
  rw [context, context, makes.sources_eq]

/-- What the stages up to the compile hand on to the write. -/
theorem compiled_of_runAll
    (ready : runAll settings encoding [.prepare, .read, .compile] job shell = (.ok next, after)) :
    ∃ inputFile name html, job.inputFile = some inputFile ∧
      job.outputName settings inputFile = .ok name ∧ next.output = job.outputDir.join name ∧
      next.html = some html ∧ CompilesTo settings encoding shell.disk (job.inputDir.join inputFile) html := by
  obtain ⟨placed, made, prepared, rest⟩ := runAll_cons_ok ready
  obtain ⟨loaded, between, reads, rest⟩ := runAll_cons_ok rest
  obtain ⟨done, last, compiles, rest⟩ := runAll_cons_ok rest
  cases rest
  change prepare settings job shell = _ at prepared
  change read encoding.decoder placed made = _ at reads
  have makes := prepare_makes settings job shell
  have same := read_disk encoding.decoder placed made
  rw [prepared] at makes
  rw [reads] at same
  obtain ⟨inputFile, name, given, there, named, atPlace⟩ := prepare_eq_ok prepared
  obtain ⟨bytes, text, now, decoded, withText, -⟩ := read_eq_ok reads
  obtain ⟨html, p, result, withHtml⟩ := compile_eq_ok compiles
  have source : loaded.source = job.inputDir.join inputFile := by rw [withText, atPlace]
  have output : next.output = job.outputDir.join name := by rw [withHtml, withText, atPlace]
  obtain ⟨old, was⟩ := Disk.isFile_eq_true there
  rw [show placed.source = job.inputDir.join inputFile by rw [atPlace]] at now
  cases makes.bytes_eq was now
  refine ⟨inputFile, name, html, given, named, output, by rw [withHtml], bytes, text, was,
    Encoding.decoder_eq_ok.mp decoded, ?_⟩
  have outcome := congrArg Prod.fst (onDisk_eq_ok result)
  rw [source, withText, Option.getD_some, Shell.note_disk, same, context_of_makes settings _ makes] at outcome
  refine Eq.trans (Compile.compile_alike ?_).1 outcome
  rfl

theorem encodes_of_runAll
    (ready : runAll settings encoding [.prepare, .read, .compile] job shell = (.ok next, after)) :
    ∀ html, next.html = some html → ∃ bytes, encoding.write html = .ok bytes := by
  obtain ⟨inputFile, name, own, -, -, -, given, compiles⟩ := compiled_of_runAll ready
  intro html same
  cases given.symm.trans same
  exact compiles.encodes

theorem stages_eq_append : stages = [.prepare, .read, .compile] ++ [.write, .report] := rfl

/-- A job that halts has made directories at most. -/
theorem runAll_halted {halt : Halt} (halted : runAll settings encoding stages job shell = (.error halt, after)) :
    Disk.Makes job.outputDir shell.disk after.disk := by
  have spares : Stage.write ∉ [.prepare, .read, .compile] := by decide
  have makes := runAll_makes spares settings encoding job shell
  rw [stages_eq_append, runAll_append] at halted
  split at halted
  · rename_i stopped
    cases halted
    rwa [stopped] at makes
  · rename_i next middle ready
    rw [ready] at makes
    rcases runAll_cons_error halted with stopped | ⟨_, _, _, impossible⟩
    · rwa [write_halted (encodes_of_runAll ready) stopped]
    · cases impossible

/-- A job that completes has written its HTML and nothing else. -/
theorem runAll_completed (completed : runAll settings encoding stages job shell = (.ok next, after)) :
    ∃ inputFile name html bytes, job.inputFile = some inputFile ∧
      job.outputName settings inputFile = .ok name ∧ next.output = job.outputDir.join name ∧
      next.html = some html ∧ CompilesTo settings encoding shell.disk (job.inputDir.join inputFile) html ∧
      encoding.write html = .ok bytes ∧
      Disk.Writes job.outputDir next.output bytes shell.disk after.disk := by
  have spares : Stage.write ∉ [.prepare, .read, .compile] := by decide
  have makes := runAll_makes spares settings encoding job shell
  rw [stages_eq_append, runAll_append] at completed
  split at completed
  · cases completed
  · rename_i ready
    rw [ready] at makes
    obtain ⟨inputFile, name, html, given, named, output, own, compiles⟩ := compiled_of_runAll ready
    obtain ⟨done, last, wrote, reported⟩ := runAll_cons_ok completed
    obtain ⟨rfl, again, bytes, same, encoded, stored⟩ := write_eq_ok wrote
    cases own.symm.trans same
    cases reported
    exact ⟨inputFile, name, html, bytes, given, named, output, own, compiles, encoded, makes.writes stored⟩

theorem runAll_missing (settings : Settings) (encoding : Encoding) (missing : job.Missing shell.disk) :
    (runAll settings encoding stages job shell).2.disk = shell.disk := by
  obtain ⟨halt, halts, same⟩ := prepare_missing settings missing
  obtain ⟨stopped, left⟩ : ∃ left, prepare settings job shell = (.error halt, left) :=
    ⟨_, Prod.ext halts rfl⟩
  rw [left] at same
  rw [stages, runAll, show run settings encoding .prepare job shell = _ from left]
  exact same

/-- A job that halts leaves every file as it was. One that completes has set its output to the HTML
of its input, and no other file. -/
theorem runAll_all_or_nothing (settings : Settings) (encoding : Encoding) (job : Job) (shell : Shell) :
    (∀ halt after, runAll settings encoding stages job shell = (.error halt, after) →
      Disk.OnlyMakes job.outputDir shell.disk after.disk ∧
        (job.Missing shell.disk → after.disk = shell.disk)) ∧
    ∀ done after, runAll settings encoding stages job shell = (.ok done, after) →
      ∃ inputFile name html bytes, job.inputFile = some inputFile ∧
        job.outputName settings inputFile = .ok name ∧ done.output = job.outputDir.join name ∧
        done.html = some html ∧ CompilesTo settings encoding shell.disk (job.inputDir.join inputFile) html ∧
        encoding.write html = .ok bytes ∧
        Disk.Writes job.outputDir done.output bytes shell.disk after.disk := by
  refine ⟨fun halt after halted => ⟨(runAll_halted halted).onlyMakes, fun missing => ?_⟩, ?_⟩
  · have same := runAll_missing settings encoding missing
    rwa [halted] at same
  · intro done after completed
    exact runAll_completed completed

/-- One source imports a file that is there, the other one that is not. -/
def twoSources : Disk :=
  [(["in"], .directory), (["in", "a.webf"], ascii "import B from \"b\"; p: B:;;"),
   (["in", "b"], ascii "i: content:\x7bx\x7d;"), (["in", "c.webf"], ascii "import D from \"d\"; D:;")]
where
  ascii (text : String) : Node := .file (text.toList.map fun c => UInt8.ofNat c.toNat)

def twoSourcesJob (inputFile : String) : Job :=
  { inputDir := .ofString "/in", outputDir := .ofString "/out/new", inputFile := some inputFile }

theorem two_sources_all_or_nothing :
    (∃ halt after, runAll {} .utf8 stages (twoSourcesJob "c.webf") { disk := twoSources } = (.error halt, after) ∧
      Disk.OnlyMakes (.ofString "/out/new") twoSources after.disk) ∧
    ∃ done after html bytes,
      runAll {} .utf8 stages (twoSourcesJob "a.webf") { disk := twoSources } = (.ok done, after) ∧
      done.html = some html ∧ CompilesTo {} .utf8 twoSources (.ofString "/in/a.webf") html ∧
      Disk.Writes (.ofString "/out/new") (.ofString "/out/new/a.html") bytes twoSources after.disk := by
  have halts : (runAll {} .utf8 stages (twoSourcesJob "c.webf") { disk := twoSources }).1 =
      .error (.exit 1) := by decide +kernel
  have completes : (runAll {} .utf8 stages (twoSourcesJob "a.webf") { disk := twoSources }).1 =
      .ok { twoSourcesJob "a.webf" with
        ready := true, source := .ofString "/in/a.webf", output := .ofString "/out/new/a.html"
        sourceText := some "import B from \"b\"; p: B:;;", html := some "<p><i>x</i></p>"
        componentCount := 1 } := by decide +kernel
  refine ⟨⟨_, _, Prod.ext halts rfl, ?_⟩, ?_⟩
  · exact ((runAll_all_or_nothing {} .utf8 (twoSourcesJob "c.webf") { disk := twoSources }).1 _ _
      (Prod.ext halts rfl)).1
  · obtain ⟨inputFile, name, html, bytes, given, -, -, own, compiles, -, writes⟩ :=
      (runAll_all_or_nothing {} .utf8 (twoSourcesJob "a.webf") { disk := twoSources }).2 _ _
        (Prod.ext completes rfl)
    cases given
    exact ⟨_, _, html, bytes, Prod.ext completes rfl, own, compiles, writes⟩

/-! ### Reading back -/

/-- What a job with some HTML writes is the HTML, and is read back as that. -/
structure ReadsBack (encoding : Encoding) (job : Job) (shell : Shell) (html : String) : Prop where
  own : job.html = some html
  plain : '\r' ∉ html.toList
  encodes : ∃ bytes, encoding.write html = .ok bytes
  writes : ∀ cause, (write encoding job shell).1 ≠ .error (.unencodable cause)
  reads : ∀ done after, write encoding job shell = (.ok done, after) →
    ∃ bytes, after.disk.bytes job.output = .ok bytes ∧ encoding.read bytes = .ok html

theorem readsBack_of_runAll
    (ready : runAll settings encoding [.prepare, .read, .compile] job shell = (.ok next, after)) :
    ∃ html, ReadsBack encoding next after html := by
  obtain ⟨inputFile, name, html, -, -, -, given, compiles⟩ := compiled_of_runAll ready
  have plain : '\r' ∉ html.toList := fun occurs => (compiles.covered _ occurs).2 rfl
  refine ⟨html, given, plain, compiles.encodes, write_unencodable (encodes_of_runAll ready) after, ?_⟩
  intro done last wrote
  obtain ⟨-, again, bytes, same, encoded, stored⟩ := write_eq_ok wrote
  cases given.symm.trans same
  exact ⟨bytes, (Disk.write_eq_ok stored).1, Encoding.read_write encoded plain⟩

/-- A compile invents no characters but those of ASCII, so its HTML can be encoded as its sources
were, and is read back. -/
theorem html_given_and_read_back :
    (∀ context scope source p html after,
      Compile.compile context scope source p = (.ok html, after) →
        ∃ calls, after.calls = p.calls ++ calls ∧
          ∀ c ∈ html.toList, Compile.Given context p.components source calls c) ∧
    ∀ settings encoding job shell next after,
      runAll settings encoding [.prepare, .read, .compile] job shell = (.ok next, after) →
        ∃ html, ReadsBack encoding next after html := by
  refine ⟨fun context scope source p html after compiles => Compile.compile_given compiles, ?_⟩
  intro settings encoding job shell next after ready
  exact readsBack_of_runAll ready

/-- A carriage return and letters outside ASCII, one of them in an imported file. -/
def accented : Disk :=
  [(["a"], latin1 "import B from \"b\"; p: content:\x7bé\r\n\x7d B:;;"), (["b"], latin1 "i: content:\x7bß\x7d;")]
where
  latin1 (text : String) : Node := .file (text.toList.map fun c => UInt8.ofNat c.toNat)

def accentedJob : Job :=
  { inputDir := .ofString "/", outputDir := .ofString "/", inputFile := some "a" }

def accentedCompiled : Job :=
  { accentedJob with
    ready := true, source := .ofString "/a", output := .ofString "/a.html"
    sourceText := some "import B from \"b\"; p: content:\x7bé\n\x7d B:;;"
    html := some "<p>é\n<i>ß</i></p>", componentCount := 1 }

theorem accented_read_back :
    (∃ after, Compile.compile (context {} accented Encoding.latin1.decoder) ⟨"/", []⟩
        "import B from \"b\"; B:; K:;" { components := [("K", "ü")] } = (.ok "<i>ß</i>\nü", after) ∧
      Compile.Given (context {} accented Encoding.latin1.decoder) [("K", "ü")]
        "import B from \"b\"; B:; K:;" after.calls 'ß') ∧
    ∃ after last bytes,
      runAll {} .latin1 [.prepare, .read, .compile] accentedJob { disk := accented } =
        (.ok accentedCompiled, after) ∧
      write .latin1 accentedCompiled after = (.ok accentedCompiled, last) ∧
      last.disk.bytes (.ofString "/a.html") = .ok bytes ∧
      Encoding.latin1.read bytes = .ok "<p>é\n<i>ß</i></p>" := by
  obtain ⟨given, back⟩ := html_given_and_read_back
  constructor
  · have compiles : (Compile.compile (context {} accented Encoding.latin1.decoder) ⟨"/", []⟩
        "import B from \"b\"; B:; K:;" { components := [("K", "ü")] }).1 = .ok "<i>ß</i>\nü" := by
      decide +kernel
    obtain ⟨calls, made, covered⟩ := given _ _ _ _ _ _ (Prod.ext compiles rfl)
    refine ⟨_, Prod.ext compiles rfl, ?_⟩
    rw [made]
    exact covered 'ß' (by decide)
  · generalize outcome : runAll {} .latin1 [.prepare, .read, .compile] accentedJob
      { disk := accented } = result
    have ready : result.1 = .ok accentedCompiled := by
      rw [← outcome]
      decide +kernel
    have writes : (write .latin1 accentedCompiled result.2).1 = .ok accentedCompiled := by
      rw [← outcome]
      decide +kernel
    obtain ⟨html, readsBack⟩ := back _ .latin1 _ _ _ _ (outcome.trans (Prod.ext ready rfl))
    obtain rfl : "<p>é\n<i>ß</i></p>" = html := Option.some.inj readsBack.own
    obtain ⟨bytes, stored, same⟩ := readsBack.reads _ _ (Prod.ext writes rfl)
    exact ⟨_, _, bytes, Prod.ext ready rfl, Prod.ext writes rfl, stored, same⟩

end Job

end ElementMarkup
