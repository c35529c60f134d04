import ElementMarkup.Compile

/-!
Reading never runs past the end of a source. The token for the end is taken at top level only, and
refused everywhere else, so a list that holds it is never read off its end. What a text fails with is
therefore always a diagnostic, of one of the kinds that texts have and without a file.
-/

namespace ElementMarkup

namespace Document

theorem step_finish {s : State} (index : Int) {t : Token} (inside : s.atTop = false)
    (ends : t.kind = .finish) : ∃ fault, step s index t = .error fault := by
  obtain ⟨document, phase⟩ := s
  cases phase with
  | between => simp [State.atTop] at inside
  | inside inner outer due => cases due <;> simp [step, ends]
  | _ => simp [step, ends]

theorem read_stop_ne_offEnd {tokens : List Token} (ends : ∃ t ∈ tokens, t.kind = .finish) (s : State)
    (index : Int) : (read s index tokens).stop ≠ some .offEnd := by
  induction tokens generalizing s index with
  | nil => simp at ends
  | cons t rest ih =>
    rw [read]
    split
    · simp
    · rename_i goesOn
      cases stepped : step s index t with
      | error fault => simp
      | ok next =>
        have later : ∃ t ∈ rest, t.kind = .finish := by
          obtain ⟨last, member, isFinish⟩ := ends
          rcases List.mem_cons.mp member with rfl | member
          · have inside : s.atTop = false := by simpa [isFinish] using goesOn
            obtain ⟨fault, refused⟩ := step_finish index inside isFinish
            rw [stepped] at refused
            cases refused
          · exact ⟨last, member, isFinish⟩
        exact ih later next (index + 1)

theorem ofTokens_ne_offEnd {tokens : List Token} (ends : ∃ t ∈ tokens, t.kind = .finish) :
    ofTokens tokens ≠ .error .offEnd := by
  have stop := read_stop_ne_offEnd ends {} 0
  intro off
  rw [ofTokens] at off
  split at off
  · cases off
  · rename_i reason stopped
    cases off
    exact stop stopped

end Document

theorem Token.tokens_finish {wide : Bool} {source : String} {tokens : List Token}
    (scanned : Token.tokens wide source = .ok tokens) : ∃ t ∈ tokens, t.kind = .finish := by
  rw [Token.tokens] at scanned
  split at scanned
  · cases scanned
  · simp only at scanned
    split at scanned
    · cases scanned
    · cases scanned
      exact ⟨Token.close source, by simp, rfl⟩

/-- What can be wrong with a text, and not with a file or with an import of one. -/
def Diagnostic.Kind.ofText : Diagnostic.Kind → Bool
  | .emptySource | .unclosedConstruct | .unexpectedCharacter | .unexpectedToken | .invalidSyntax => true
  | .importNotFound | .cyclicImport | .unreadableSource => false

theorem Diagnostic.report_kind (width : Int) (kind : Kind) (message : String) (source : Option String)
    (position : Option Int) (path : Option String) :
    (report width kind message source position path).kind = kind := by
  unfold report
  split
  · rfl
  · rfl

theorem Diagnostic.report_path (width : Int) (kind : Kind) (message : String) (source : Option String)
    (position : Option Int) (path : Option String) :
    (report width kind message source position path).path = path := by
  unfold report
  split
  · rfl
  · rfl

theorem Diagnostic.report_position (width : Int) (kind : Kind) (message : String)
    (source : Option String) (position : Option Int) (path : Option String) :
    (report width kind message source position path).position = position := by
  unfold report
  split
  · rfl
  · rfl

/-- A source that is no document has a diagnostic that says why. It names no file. -/
theorem Compile.document_reported {wide : Bool} {width : Int} {source : String} {failure : Failure}
    {records : List Record} (fails : document wide width source = (.error failure, records)) :
    ∃ diagnostic, failure = .diagnosed diagnostic ∧ diagnostic.path = none ∧
      diagnostic.kind.ofText = true := by
  rw [document] at fails
  split at fails
  · rename_i fault scanned
    cases fails
    refine ⟨_, rfl, Diagnostic.report_path .., ?_⟩
    rw [Token.Fault.diagnostic, Diagnostic.report_kind]
    cases fault <;> rfl
  · rename_i tokens scanned
    simp only at fails
    split at fails
    · rename_i stop stopped
      cases fails
      cases stop with
      | fault cause =>
        refine ⟨_, rfl, Diagnostic.report_path .., ?_⟩
        rw [Document.Fault.diagnostic, Diagnostic.report_kind]
        cases cause <;> rfl
      | offEnd => exact absurd stopped (Document.ofTokens_ne_offEnd (Token.tokens_finish scanned))
    · cases fails

theorem Compile.document_diagnosed {wide : Bool} {width : Int} {source : String} {failure : Failure}
    {records : List Record} (fails : document wide width source = (.error failure, records)) :
    ∃ diagnostic, failure = .diagnosed diagnostic := by
  obtain ⟨diagnostic, same, -, -⟩ := document_reported fails
  exact ⟨diagnostic, same⟩

theorem Compile.document_ofList {wide : Bool} {width : Int} {chars : List Char} {imports : List Import}
    (nonempty : chars ≠ []) (clean : (Token.scan wide chars.length chars).fault = none)
    (parsed : (Document.ofTokens ((Token.scan wide chars.length chars).tokens ++
      [⟨.finish, "EOF", chars.length⟩])).toOption.map (·.imports) = some imports) :
    ∃ d records, document wide width (String.ofList chars) = (.ok d, records) ∧
      d.imports = imports := by
  have tokens : Token.tokens wide (String.ofList chars) =
      .ok ((Token.scan wide chars.length chars).tokens ++ [⟨.finish, "EOF", chars.length⟩]) := by
    rw [Token.tokens, if_neg (by simpa using nonempty), Token.close, String.length_ofList,
      String.toList_ofList]
    simp only [clean]
  rw [document, tokens]
  simp only
  split
  · rename_i stop result
    simp [result, Except.toOption] at parsed
  · rename_i d result
    rw [result] at parsed
    exact ⟨d, _, rfl, Option.some.inj parsed⟩

end ElementMarkup
