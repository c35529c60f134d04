import ElementMarkup.Proofs.Document.Grammar

/-!
Where the reader gives up. Every state that it comes to by taking tokens can be completed to a
document, so a refused token is the first with which no document goes on.
-/

namespace ElementMarkup.Document

open Grammar

section

variable {s next last : State} {index : Int} {t : Token} {tokens more : List Token} {fault : Fault}

/-- From `s` on, all the tokens are taken, and the reader is in `last` then. -/
inductive Takes : State → Int → List Token → State → Prop where
  | nil (s : State) (index : Int) : Takes s index [] s
  | cons {s next last : State} {index : Int} {t : Token} {tokens : List Token}
      (stepped : step s index t = .ok next) (rest : Takes next (index + 1) tokens last) :
      Takes s index (t :: tokens) last

theorem Takes.read (takes : Takes s index tokens last) (rest : List Token) :
    Document.read s index (tokens ++ rest) = Document.read last (index + tokens.length) rest := by
  induction takes with
  | nil s index => simp
  | cons stepped _ ih =>
    rw [List.cons_append, read_step stepped, ih]
    congr 1
    simp only [List.length_cons]
    omega

theorem Takes.append {middle : State} (takes : Takes s index tokens middle)
    (later : Takes middle (index + tokens.length) more last) : Takes s index (tokens ++ more) last := by
  induction takes with
  | nil s index => simpa using later
  | @cons s next middle index t tokens stepped _ ih =>
    have shifted : index + ((t :: tokens).length : Int) = index + 1 + tokens.length := by
      simp only [List.length_cons]
      omega
    rw [shifted] at later
    exact .cons stepped (ih later)

theorem Takes.ne_finish (takes : Takes s index tokens last) : ∀ t ∈ tokens, t.kind ≠ .finish := by
  induction takes with
  | nil => simp
  | cons stepped _ ih => exact List.forall_mem_cons.mpr ⟨step_ne_finish stepped, ih⟩

theorem Takes.ended (takes : Takes s index tokens last) (finish : Terminal .finish) :
    Ended (tokens ++ [finish.val]) := by
  refine ⟨⟨finish.val, by simp, finish.property⟩, ?_⟩
  rw [List.dropLast_concat]
  exact takes.ne_finish

theorem Takes.accepted {document : Document} (takes : Takes {} 0 tokens ⟨document, .between⟩)
    (finish : Terminal .finish) : ofTokens (tokens ++ [finish.val]) = .ok document := by
  rw [ofTokens, takes.read, Document.read, if_pos ⟨rfl, finish.property⟩]

/-- In the state `s`, a run goes no further than to the head of a list. -/
inductive Halts (s : State) (index : Int) : List Token → Option Stop → Prop where
  | offEnd : Halts s index [] (some .offEnd)
  | done {t : Token} {rest : List Token} (top : s.atTop = true) (ends : t.kind = .finish) :
      Halts s index (t :: rest) none
  | refused {t : Token} {rest : List Token} {fault : Fault}
      (goesOn : ¬ (s.atTop = true ∧ t.kind = .finish)) (refused : step s index t = .error fault) :
      Halts s index (t :: rest) (some (.fault fault))

/-- Every run takes the tokens of a prefix, one after the other, and halts behind it. -/
theorem takes_of_read (s : State) (index : Int) (tokens : List Token) :
    ∃ before after last stop, tokens = before ++ after ∧ Takes s index before last ∧
      Halts last (index + before.length) after stop ∧
      read s index tokens = ⟨last, index + before.length, stop⟩ := by
  induction tokens generalizing s index with
  | nil => exact ⟨[], [], s, _, rfl, .nil s index, .offEnd, by simp [read]⟩
  | cons t rest ih =>
    by_cases ends : s.atTop = true ∧ t.kind = .finish
    · exact ⟨[], t :: rest, s, none, rfl, .nil s index, .done ends.1 ends.2, by simp [read, ends]⟩
    · cases stepped : step s index t with
      | error fault =>
        have stays : index + (([] : List Token).length : Int) = index := by simp
        refine ⟨[], t :: rest, s, some (.fault fault), rfl, .nil s index, .refused ends ?_, ?_⟩
        · rw [stays]
          exact stepped
        · rw [read, if_neg ends, stepped, stays]
      | ok next =>
        obtain ⟨before, after, last, stop, rfl, takes, halts, run⟩ := ih next (index + 1)
        have shifted : index + 1 + (before.length : Int) = index + (t :: before).length := by
          rw [List.length_cons]
          omega
        rw [shifted] at halts run
        exact ⟨t :: before, after, last, stop, rfl, .cons stepped takes, halts, by rw [read_step stepped, run]⟩

/-- A run that meets a fault has taken all the tokens before it. -/
theorem takes_of_fault (faulty : (read s index tokens).stop = some (.fault fault)) :
    ∃ before t after last, tokens = before ++ t :: after ∧ Takes s index before last ∧
      ¬ (last.atTop = true ∧ t.kind = .finish) ∧ step last (index + before.length) t = .error fault := by
  obtain ⟨before, after, last, stop, rfl, takes, halts, run⟩ := takes_of_read s index tokens
  rw [run] at faulty
  cases halts with
  | offEnd | done => cases faulty
  | @refused t rest cause goesOn refused =>
    cases faulty
    exact ⟨before, t, rest, last, rfl, takes, goesOn, refused⟩

def separator : Terminal .semicolon := ⟨⟨.semicolon, ";", 0⟩, rfl⟩

def Due.completion : Due → List Token
  | .colon => [⟨.colon, ":", 0⟩]
  | .item => []
  | .blockOrColon _ | .block _ => [⟨.block, "", 0⟩]

def Phase.completion : Phase → List Token
  | .between => []
  | .importName _ => [⟨.tag, "N", 0⟩, ⟨.origin, "from", 0⟩, ⟨.quoted, "", 0⟩, separator.val]
  | .importOrigin _ _ => [⟨.origin, "from", 0⟩, ⟨.quoted, "", 0⟩, separator.val]
  | .importPath _ _ => [⟨.quoted, "", 0⟩, separator.val]
  | .importEnd _ _ _ => [separator.val]
  | .inside _ outer due => due.completion ++ List.replicate (outer.length + 1) separator.val

/-- One semicolon closes the innermost element, so as many as there are elements close them all. -/
theorem takes_closing (document : Document) (inner : Element) (outer : List Element) (index : Int) :
    ∃ after, Takes ⟨document, .inside inner outer .item⟩ index
      (List.replicate (outer.length + 1) separator.val) ⟨after, .between⟩ := by
  induction outer generalizing inner index with
  | nil => exact ⟨_, .cons (step_close separator) (.nil _ _)⟩
  | cons parent outer ih =>
    obtain ⟨after, rest⟩ := ih { parent with children := parent.children ++ [{ inner with closed := true }] }
      (index + 1)
    exact ⟨after, .cons (step_close separator) rest⟩

theorem takes_due (document : Document) (inner : Element) (outer : List Element) (due : Due)
    (index : Int) : ∃ grown, Takes ⟨document, .inside inner outer due⟩ index due.completion
      ⟨document, .inside grown outer .item⟩ := by
  cases due with
  | item => exact ⟨inner, .nil _ _⟩
  | _ => exact ⟨_, .cons rfl (.nil _ _)⟩

theorem takes_completion (s : State) (index : Int) :
    ∃ document, Takes s index s.phase.completion ⟨document, .between⟩ := by
  obtain ⟨document, phase⟩ := s
  cases phase with
  | between => exact ⟨document, .nil _ _⟩
  | inside inner outer due =>
    obtain ⟨grown, filled⟩ := takes_due document inner outer due index
    obtain ⟨after, closed⟩ := takes_closing document grown outer (index + due.completion.length)
    exact ⟨after, filled.append closed⟩
  | importName position =>
    exact ⟨_, .cons rfl (.cons rfl (.cons rfl (.cons rfl (.nil _ _))))⟩
  | importOrigin position name => exact ⟨_, .cons rfl (.cons rfl (.cons rfl (.nil _ _)))⟩
  | importPath position name => exact ⟨_, .cons rfl (.cons rfl (.nil _ _))⟩
  | importEnd position name path => exact ⟨_, .cons rfl (.nil _ _)⟩

/-! ### What a step refuses -/

/-- A token comes too late as an import: at top level, after an element. -/
def State.Late (s : State) (t : Token) : Prop :=
  s.atTop = true ∧ s.document.elements ≠ [] ∧ t.kind = .importing

inductive Refuses (s : State) (index : Int) (t : Token) : Fault → Prop where
  | late (late : s.Late t) : Refuses s index t (.lateImport index t)
  | expected (kind : Token.Kind) (timely : ¬ s.Late t) : Refuses s index t (.expected kind index t)
  | stray (tag : String) (timely : ¬ s.Late t) : Refuses s index t (.stray tag index t)

theorem refuses_of_step (refused : step s index t = .error fault) : Refuses s index t fault := by
  obtain ⟨document, phase⟩ := s
  cases phase with
  | between =>
    simp only [step] at refused
    split at refused
    · rename_i importing
      split at refused
      · cases refused
      · rename_i started
        cases refused
        exact .late ⟨rfl, by simpa using started, importing⟩
    · cases refused
    · rename_i other _
      unfold enter at refused
      split at refused
      · cases refused
      · cases refused
        exact .expected .tag fun late => other late.2.2
  | inside inner outer due =>
    have timely : ¬ State.Late ⟨document, .inside inner outer due⟩ t := fun late => by cases late.1
    cases due with
    | item =>
      simp only [step] at refused
      split at refused
      · cases refused
      · rename_i tag
        simp [enter, tag, Except.map] at refused
      · cases refused
      · cases refused
        exact .stray inner.tag timely
    | _ =>
      simp only [step] at refused
      split at refused
      all_goals cases refused
      exact .expected _ timely
  | _ =>
    simp only [step] at refused
    split at refused
    · cases refused
    · cases refused
      exact .expected _ fun late => by cases late.1

/-- Tokens that are whole imports and whole elements, with at least one element among them. -/
def PastElement (tokens : List Token) : Prop :=
  ∃ (imports : Strewn ImportTree) (elements : Strewn ElementTree), Strewn.trees elements ≠ [] ∧
    tokens = Strewn.tokens ImportTree.tokens imports ++ Strewn.tokens ElementTree.tokens elements

theorem Takes.pastElement {document : Document} (takes : Takes {} 0 tokens ⟨document, .between⟩)
    (started : document.elements ≠ []) : PastElement tokens := by
  let finish : Terminal .finish := ⟨⟨.finish, "EOF", 0⟩, rfl⟩
  have accepted := takes.accepted finish
  obtain ⟨tree, rest, whole⟩ := derivation_of_ofTokens accepted
  obtain rfl : rest = [] := (whole ▸ takes.ended finish).rest_eq_nil
  rw [whole, ofTokens_program] at accepted
  obtain rfl := Except.ok.inj accepted
  rw [List.append_nil, ProgramTree.tokens, ← List.append_assoc] at whole
  refine ⟨tree.imports, tree.elements, ?_, (List.append_inj' whole rfl).1⟩
  intro none
  exact started (by simp [ProgramTree.meaning, none])

theorem Takes.top_of_pastElement (takes : Takes {} 0 tokens last) (past : PastElement tokens) :
    last.atTop = true ∧ last.document.elements ≠ [] := by
  obtain ⟨imports, elements, some, rfl⟩ := past
  have run := takes.read []
  -- the tokens are read to the same state when they are read tree by tree
  rw [List.append_assoc, read_imports imports rfl, read_elements elements] at run
  obtain rfl := (Run.mk.inj run).1
  exact ⟨rfl, by simpa using some⟩

theorem Takes.late_iff (takes : Takes {} 0 tokens last) :
    last.Late t ↔ t.kind = .importing ∧ PastElement tokens := by
  constructor
  · rintro ⟨top, started, importing⟩
    obtain ⟨document, phase⟩ := last
    cases phase with
    | between => exact ⟨importing, takes.pastElement started⟩
    | _ => cases top
  · rintro ⟨importing, past⟩
    obtain ⟨top, started⟩ := takes.top_of_pastElement past
    exact ⟨top, started, importing⟩

structure Fault.Names (fault : Fault) (i : Nat) (t : Token) : Prop where
  position : fault.found.position = t.position
  late : fault.kind = .invalidSyntax → fault.message =
    "Imports must appear before elements (token position " ++ toString i ++ ")"
  unexpected : fault.kind ≠ .invalidSyntax → fault.kind = .unexpectedToken ∧ ∃ detail,
    fault.message = "Unexpected token '" ++ t.value ++ "' of type " ++ t.kind.name ++
      " at token position " ++ toString i ++ detail ∧
    ((∃ kind : Token.Kind, detail = " (expected " ++ kind.name ++ ")") ∨
      ∃ tag, detail = " in body of '" ++ tag ++ "'")

theorem Refuses.names {i : Nat} (refuses : Refuses s i t fault) : fault.Names i t := by
  have behind (front a b c : String) : front ++ a ++ b ++ c = front ++ (a ++ b ++ c) := by
    simp only [String.append_assoc]
  cases refuses with
  | late late => exact ⟨rfl, fun _ => rfl, fun other => absurd rfl other⟩
  | expected kind timely =>
    exact ⟨rfl, (nomatch ·), fun _ =>
      ⟨rfl, _, behind (Fault.unexpected i t) _ _ _, .inl ⟨kind, rfl⟩⟩⟩
  | stray tag timely =>
    exact ⟨rfl, (nomatch ·), fun _ =>
      ⟨rfl, _, behind (Fault.unexpected i t) _ _ _, .inr ⟨tag, rfl⟩⟩⟩

theorem Refuses.kind_iff (refuses : Refuses s index t fault) :
    fault.kind = .invalidSyntax ↔ s.Late t := by
  cases refuses with
  | late late => exact ⟨fun _ => late, fun _ => rfl⟩
  | expected kind timely => exact ⟨nofun, fun late => absurd late timely⟩
  | stray tag timely => exact ⟨nofun, fun late => absurd late timely⟩

theorem Fault.Names.message_ne {i : Nat} (names : fault.Names i t) :
    fault.message ≠ "Invalid attribute set or missing semicolon" := by
  intro same
  have start : fault.message.toList.take 2 = ['I', 'n'] := by rw [same]; rfl
  by_cases kind : fault.kind = .invalidSyntax
  · simp [names.late kind, String.toList_append] at start
  · obtain ⟨-, detail, message, -⟩ := names.unexpected kind
    simp [message, String.toList_append] at start

end

/-- The tokens before index `i` can go on to a document, and with the one there they cannot. -/
structure Earliest (tokens : List Token) (fault : Fault) (i : Nat) (t : Token) : Prop where
  token : tokens[i]? = some t
  names : fault.Names i t
  viable : ∃ rest, Ended (tokens.take i ++ rest) ∧ ∃ d, ofTokens (tokens.take i ++ rest) = .ok d
  hopeless : ∀ rest, ofTokens (tokens.take (i + 1) ++ rest) = .error (.fault fault)
  late : fault.kind = .invalidSyntax ↔ t.kind = .importing ∧ PastElement (tokens.take i)

/-- Reading fails at the earliest token that it can fail at, and is reported there. -/
theorem fault_at_earliest_token (tokens : List Token) (fault : Fault)
    (fails : ofTokens tokens = .error (.fault fault)) (width : Int) :
    (∃ i t, Earliest tokens fault i t) ∧
      (Stop.fault fault).failure width none =
        .diagnosed ⟨fault.kind, fault.message, some fault.found.position, none⟩ ∧
      fault.message ≠ "Invalid attribute set or missing semicolon" := by
  have faulty : (read {} 0 tokens).stop = some (.fault fault) := by
    rw [ofTokens] at fails
    split at fails
    · cases fails
    · rename_i stop stopped
      cases fails
      exact stopped
  obtain ⟨before, t, after, last, rfl, takes, notEnd, refused⟩ := takes_of_fault faulty
  have refuses := refuses_of_step refused
  rw [Int.zero_add] at refuses
  have taken : (before ++ t :: after).take before.length = before := List.take_left' rfl
  refine ⟨⟨before.length, t, by simp, refuses.names, ?_, ?_, ?_⟩, rfl, refuses.names.message_ne⟩
  · obtain ⟨document, completion⟩ := takes_completion last (0 + before.length)
    let finish : Terminal .finish := ⟨⟨.finish, "EOF", 0⟩, rfl⟩
    have whole := takes.append completion
    refine ⟨last.phase.completion ++ [finish.val], ?_, document, ?_⟩
    · rw [taken, ← List.append_assoc]
      exact whole.ended finish
    · rw [taken, ← List.append_assoc]
      exact whole.accepted finish
  · intro rest
    have upTo : (before ++ t :: after).take (before.length + 1) = before ++ [t] :=
      List.take_length_add_append 1
    rw [upTo, List.append_assoc, ofTokens, takes.read, List.singleton_append, read, if_neg notEnd, refused]
  · rw [taken, refuses.kind_iff, takes.late_iff]

def betweenElements : List Token :=
  [⟨.tag, "p", 0⟩, ⟨.colon, ":", 1⟩, ⟨.semicolon, ";", 2⟩, ⟨.importing, "import", 4⟩, ⟨.tag, "N", 11⟩,
   ⟨.origin, "from", 13⟩, ⟨.quoted, "n", 18⟩, ⟨.semicolon, ";", 21⟩, ⟨.tag, "N", 23⟩, ⟨.colon, ":", 24⟩,
   ⟨.semicolon, ";", 25⟩, ⟨.finish, "EOF", 26⟩]

theorem between_elements_earliest :
    ofTokens betweenElements = .error (.fault (.lateImport 3 ⟨.importing, "import", 4⟩)) ∧
      ∃ i t, Earliest betweenElements (.lateImport 3 ⟨.importing, "import", 4⟩) i t := by
  have fails : ofTokens betweenElements = .error (.fault (.lateImport 3 ⟨.importing, "import", 4⟩)) := rfl
  exact ⟨fails, (fault_at_earliest_token betweenElements _ fails 40).1⟩

end ElementMarkup.Document
