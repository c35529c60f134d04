import ElementMarkup.Document.Cursor
import ElementMarkup.Proofs.Diagnostic
import ElementMarkup.Proofs.Document.Earliest
import ElementMarkup.Proofs.Token.Fault
import ElementMarkup.Proofs.Token.Layout
import ElementMarkup.Token.Cursor

/-!
Faults of a source and what their messages point at. A scan finds fault with a character of its source,
and the reader with one of its tokens, whose offsets are those of characters or of the end. So the
diagnostics of both show the place; only an empty source has none to show.
-/

namespace ElementMarkup

namespace Token

variable {wide : Bool} {fault : Fault}

theorem scan_fault_inside {stop : Int} {text : List Char} (before : List Char)
    (whole : stop = before.length + text.length) (faulty : (scan wide stop text).fault = some fault) :
    ∃ offset : Nat, fault.position = some (offset : Int) ∧ offset ≤ (before ++ text).length := by
  obtain ⟨front, back, spans, rfl, -, blocks⟩ := split_of_fault before whole faulty
  refine ⟨(before ++ front).length, ?_, by simp⟩
  cases blocks <;> rfl

inductive Cursor.Raises (c : Cursor) (fault : Fault) : Prop where
  | peek (offset : Int) (raised : c.peek offset = .error (.fault fault))
  | word (raised : c.word.outcome = .error (.fault fault))
  | comment (raised : c.comment.outcome = .error (.fault fault))
  | enclosed (e : Enclosure) (raised : (c.enclosed e).outcome = .error (.fault fault))
  | finish (raised : c.finish.outcome = .error (.fault fault))

/-- A fault of a source that was empty, or lies at an offset of it. -/
def Fault.LiesIn (fault : Fault) (source : String) : Prop :=
  (fault = .empty ∧ source = "") ∨
    ∃ offset : Nat, fault.position = some (offset : Int) ∧ offset ≤ source.length

theorem Cursor.enclosed_fault {c : Cursor} {e : Enclosure}
    (raised : (c.enclosed e).outcome = .error (.fault fault)) : fault = .unclosed e c.position := by
  unfold Cursor.enclosed at raised
  dsimp only at raised
  split at raised
  · cases raised
  split at raised
  · cases raised
    rfl
  · cases raised

theorem Cursor.finish_liesIn {c : Cursor} {offset : Nat} (stands : c.position = offset)
    (raised : c.finish.outcome = .error (.fault fault)) : fault.LiesIn c.source := by
  unfold Cursor.finish at raised
  split at raised
  · rename_i empty
    cases raised
    exact .inl ⟨rfl, by simpa using empty⟩
  rw [stands, Offset.upcoming?_natCast] at raised
  dsimp only at raised
  split at raised
  · rename_i faulty
    cases raised
    have whole : c.length = ((c.text.take offset).length + (c.text.drop offset).length : Int) := by
      rw [Cursor.length, ← String.length_toList, ← Int.natCast_add, ← List.length_append,
        List.take_append_drop, Cursor.text]
    obtain ⟨place, position, within⟩ := scan_fault_inside _ whole faulty
    rw [List.take_append_drop, Cursor.text, String.length_toList] at within
    exact .inr ⟨place, position, within⟩
  · cases raised

theorem Cursor.Raises.liesIn {c : Cursor} (raises : c.Raises fault) (start : 0 ≤ c.position)
    (inside : c.position ≤ c.source.length) : fault.LiesIn c.source := by
  obtain ⟨offset, stands⟩ := Int.eq_ofNat_of_zero_le start
  cases raises with
  | peek ahead raised =>
    unfold Cursor.peek at raised
    split at raised <;> cases raised
  | word raised =>
    unfold Cursor.word at raised
    split at raised <;> cases raised
  | comment raised =>
    unfold Cursor.comment at raised
    split at raised <;> cases raised
  | enclosed e raised =>
    rw [Cursor.enclosed_fault raised, stands]
    exact .inr ⟨offset, rfl, by omega⟩
  | finish raised => exact Cursor.finish_liesIn stands raised

theorem fault_liesIn {source : String} (faulty : tokens wide source = .error fault) :
    fault.LiesIn source := by
  unfold tokens at faulty
  split at faulty
  · rename_i empty
    cases faulty
    exact .inl ⟨rfl, by simpa using empty⟩
  dsimp only at faulty
  split at faulty
  · rename_i found
    cases faulty
    obtain ⟨offset, position, within⟩ := scan_fault_inside [] (by simp [String.length_toList]) found
    rw [List.nil_append, String.length_toList] at within
    exact .inr ⟨offset, position, within⟩
  · cases faulty

theorem position_inside {source : String} {ts : List Token} (scanned : tokens wide source = .ok ts) :
    ∀ t ∈ ts, ∃ offset : Nat, t.position = offset ∧ offset ≤ source.length := by
  obtain ⟨-, spans, split, rfl⟩ := split_of_tokens scanned
  intro t member
  rcases List.mem_append.mp member with listed | last
  · obtain ⟨span, among, rfl⟩ := List.mem_map.mp listed
    have bounds := split.start_bounds span among
    rw [String.length_toList] at bounds
    exact ⟨span.start, rfl, by simp only [List.length_nil] at bounds; omega⟩
  · obtain rfl := List.mem_singleton.mp last
    exact ⟨source.length, rfl, Nat.le_refl _⟩

end Token

/-! ### Faults of the reader -/

namespace Document

variable {s : State} {index : Int} {t : Token} {tokens : List Token} {fault : Fault}

theorem step_found (refused : step s index t = .error fault) : fault.found = t := by
  cases refuses_of_step refused <;> rfl

theorem read_found (faulty : (read s index tokens).stop = some (.fault fault)) : fault.found ∈ tokens := by
  obtain ⟨before, t, after, last, rfl, -, -, refused⟩ := takes_of_fault faulty
  rw [step_found refused]
  simp

theorem readUntil_found {α : Type} {asked : State → Option α}
    (faulty : (readUntil asked s index tokens).1 = .error (.fault fault)) : fault.found ∈ tokens := by
  induction tokens generalizing s index with
  | nil =>
    unfold readUntil at faulty
    split at faulty
    · cases faulty
    · cases faulty
    · rename_i impossible
      cases impossible
  | cons t rest ih =>
    unfold readUntil at faulty
    split at faulty
    · cases faulty
    · rename_i impossible
      cases impossible
    · rename_i same
      cases same
      split at faulty
      · rename_i refused
        cases faulty
        rw [step_found refused]
        exact List.mem_cons_self ..
      · exact List.mem_cons_of_mem t (ih faulty)

inductive Cursor.Raises (c : Cursor) (fault : Fault) : Prop where
  | current (raised : c.current = .error (.fault fault))
  | take (kind : Option Token.Kind) (raised : (c.take kind).outcome = .error (.fault fault))
  | importing (raised : c.importing.outcome = .error (.fault fault))
  | element (raised : c.element.outcome = .error (.fault fault))
  | block (host : Element) (raised : (c.block host).outcome = .error (.fault fault))
  | whole (raised : c.whole.outcome = .error (.fault fault))

variable {c : Cursor}

theorem Cursor.piece_found {α : Type} {start : Int → Token → Except Fault State}
    {asked : State → Option α} (first : ∀ index t fault, start index t = .error fault → fault.found = t)
    (raised : (c.piece start asked).outcome = .error (.fault fault)) : fault.found ∈ c.upcoming := by
  unfold Cursor.piece at raised
  split at raised
  · cases raised
  rename_i t rest ahead
  rw [ahead]
  split at raised
  · rename_i refused
    cases raised
    rw [first _ _ _ refused]
    exact List.mem_cons_self ..
  · exact List.mem_cons_of_mem t (readUntil_found raised)

theorem enter_found {outer : List Element} (refused : enter outer index t = .error fault) :
    fault.found = t := by
  unfold enter at refused
  split at refused
  · cases refused
  · cases refused
    rfl

theorem Cursor.take_found {kind : Option Token.Kind}
    (raised : (c.take kind).outcome = .error (.fault fault)) : fault.found ∈ c.upcoming := by
  unfold Cursor.take Cursor.current at raised
  cases ahead : c.upcoming with
  | nil =>
    rw [ahead] at raised
    cases raised
  | cons t rest =>
    rw [ahead] at raised
    cases kind with
    | none => cases raised
    | some due =>
      dsimp only at raised
      split at raised
      · cases raised
      · cases raised
        exact List.mem_cons_self ..

theorem Cursor.Raises.found_mem (raises : c.Raises fault) : fault.found ∈ c.tokens := by
  apply Offset.upcoming?_subset c.tokens c.index
  show fault.found ∈ c.upcoming
  cases raises with
  | current raised =>
    unfold Cursor.current at raised
    split at raised <;> cases raised
  | take kind raised => exact Cursor.take_found raised
  | importing raised =>
    refine Cursor.piece_found ?_ raised
    intro index t fault refused
    split at refused
    · cases refused
    · cases refused
      rfl
  | element raised =>
    refine Cursor.piece_found ?_ raised
    intro index t fault refused
    cases entered : enter [] index t with
    | ok phase =>
      rw [entered] at refused
      cases refused
    | error cause =>
      rw [entered] at refused
      cases refused
      exact enter_found entered
  | block host raised =>
    refine Cursor.piece_found ?_ raised
    intro index t fault refused
    split at refused
    · cases refused
    · cases refused
      rfl
  | whole raised =>
    unfold Cursor.whole at raised
    dsimp only at raised
    split at raised
    · rename_i stopped
      cases raised
      exact read_found stopped
    · cases raised

end Document

namespace Diagnostic

/-- A fault of a scan points at its offset, except that an empty source has none. -/
structure Tells (width : Nat) (source : String) (fault : Token.Fault) : Prop where
  pointed : fault ≠ .empty →
    ∃ offset, PointsAt width source.toList offset fault.message (fault.diagnostic width source)
  empty : fault = .empty → source = "" ∧ (fault.diagnostic width source).position = none ∧
    (fault.diagnostic width source).message = fault.message

variable {width : Nat} (positive : 0 < width)

include positive

theorem tells_of_liesIn {source : String} {fault : Token.Fault} (lies : fault.LiesIn source) :
    Tells width source fault := by
  rcases lies with ⟨rfl, rfl⟩ | ⟨offset, position, inside⟩
  · exact ⟨fun other => absurd rfl other, fun _ => ⟨rfl, rfl, rfl⟩⟩
  · constructor
    · intro _
      refine ⟨offset, ?_⟩
      rw [Token.Fault.diagnostic, position]
      exact report_pointsAt positive inside _ _ _
    · rintro rfl
      cases position

theorem reader_points {wide : Bool} {source : String} {c : Document.Cursor} {fault : Document.Fault}
    (scanned : Token.tokens wide source = .ok c.tokens) (raises : c.Raises fault) :
    ∃ offset, PointsAt width source.toList offset fault.message (fault.diagnostic width (some source)) := by
  obtain ⟨offset, position, inside⟩ := Token.position_inside scanned _ raises.found_mem
  refine ⟨offset, ?_⟩
  rw [Document.Fault.diagnostic, position]
  exact report_pointsAt positive inside _ _ _

omit positive

/-- Messages point at their offsets, and later offsets have later places. So do those of all faults
of a scan, a scanner or a reader. -/
theorem messages_point_at_fault (width : Nat) (positive : 0 < width) (source : String) :
    (∀ offset ≤ source.length, ∀ kind base path,
      PointsAt width source.toList offset base
        (report width kind base (some source) (some (offset : Int)) path)) ∧
    (∀ p q line column line' column', Place source.toList p line column →
      Place source.toList q line' column' → p < q → line < line' ∨ line = line' ∧ column < column') ∧
    (∀ wide fault, Token.tokens wide source = .error fault → Tells width source fault) ∧
    (∀ c : Token.Cursor, c.source = source → 0 ≤ c.position → c.position ≤ source.length →
      ∀ fault, c.Raises fault → Tells width source fault) ∧
    ∀ wide (c : Document.Cursor), c.source = some source → Token.tokens wide source = .ok c.tokens →
      ∀ fault, c.Raises fault →
        ∃ offset, PointsAt width source.toList offset fault.message (fault.diagnostic width c.source) := by
  refine ⟨?_, ?_, ?_, ?_, ?_⟩
  · intro offset inside kind base path
    exact report_pointsAt positive inside kind base path
  · intro p q line column line' column' place next less
    exact place.increases next less
  · intro wide fault faulty
    exact tells_of_liesIn positive (Token.fault_liesIn faulty)
  · rintro c rfl start inside fault raises
    exact tells_of_liesIn positive (raises.liesIn start inside)
  · intro wide c given scanned fault raises
    rw [given]
    exact reader_points positive scanned raises

/-- A string that is left open in the second line, and an element that the source ends in. -/
theorem open_string_and_element_pointed_at :
    0 < 2 ∧
    Token.tokens false "p:\n\t\"x" = .error (.unclosed .quotes 4) ∧
    Tells 2 "p:\n\t\"x" (.unclosed .quotes 4) ∧
    (Token.Fault.diagnostic 2 "p:\n\t\"x" (.unclosed .quotes 4)).message =
      "Unclosed string opened at position 4\nLine 2, column 2\nContext: ...  \"x...\n              ^" ∧
    Token.tokens false "p:" = .ok [⟨.tag, "p", 0⟩, ⟨.colon, ":", 1⟩, ⟨.finish, "EOF", 2⟩] ∧
    ∃ offset, PointsAt 2 "p:".toList offset
      "Unexpected token 'EOF' of type EOF at token position 2 in body of 'p'"
      (Document.Fault.diagnostic 2 (some "p:") (.stray "p" 2 ⟨.finish, "EOF", 2⟩)) := by
  have string : Token.tokens false "p:\n\t\"x" = .error (.unclosed .quotes 4) := by decide +kernel
  have scanned : Token.tokens false "p:" = .ok [⟨.tag, "p", 0⟩, ⟨.colon, ":", 1⟩, ⟨.finish, "EOF", 2⟩] := by
    decide +kernel
  have raises : Document.Cursor.Raises
      { tokens := [⟨.tag, "p", 0⟩, ⟨.colon, ":", 1⟩, ⟨.finish, "EOF", 2⟩], source := some "p:" }
      (.stray "p" 2 ⟨.finish, "EOF", 2⟩) := .whole rfl
  obtain ⟨-, -, scanner, -⟩ := messages_point_at_fault 2 (by decide) "p:\n\t\"x"
  obtain ⟨-, -, -, -, reader⟩ := messages_point_at_fault 2 (by decide) "p:"
  have told := reader false { tokens := _, source := some "p:" } rfl scanned _ raises
  exact ⟨by decide, string, scanner false _ string, by decide +kernel, scanned, told⟩

end Diagnostic

end ElementMarkup
