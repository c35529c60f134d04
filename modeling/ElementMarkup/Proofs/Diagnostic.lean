import ElementMarkup.Diagnostic
import ElementMarkup.Proofs.Token.Split
import Mathlib.Data.List.Induction

/-!
Where a message points. Line and column are the one way to reach an offset by whole lines and then
characters of a line without a line end; the excerpt is what stands around the offset; and the caret is
under the character at the offset.
-/

namespace ElementMarkup.Diagnostic

def ended (lines : List (List Char)) : List Char := lines.flatMap (· ++ ['\n'])

/-- Whole lines lead to an offset, and then characters of the next line. Both are counted from one.
-/
inductive Place (source : List Char) (offset line column : Nat) : Prop where
  | intro (lines : List (List Char)) (front back : List Char) (parts : source = ended lines ++ front ++ back)
      (whole : ∀ text ∈ lines, '\n' ∉ text) (plain : '\n' ∉ front) (row : line = lines.length + 1)
      (along : column = front.length + 1) (reached : offset = (ended lines).length + front.length)

theorem count_ended {lines : List (List Char)} (whole : ∀ text ∈ lines, '\n' ∉ text) :
    (ended lines).count '\n' = lines.length := by
  induction lines with
  | nil => rfl
  | cons text rest ih =>
    obtain ⟨first, later⟩ := List.forall_mem_cons.mp whole
    have rests := ih later
    unfold ended at rests ⊢
    rw [List.flatMap_cons, List.count_append, List.count_append, List.count_eq_zero.mpr first, rests,
      List.length_cons, List.count_singleton_self]
    omega

theorem ended_concat (lines : List (List Char)) (text : List Char) :
    ended (lines ++ [text]) = ended lines ++ (text ++ ['\n']) := by
  simp [ended]

theorem ended_getLast? (lines : List (List Char)) : ∀ c ∈ (ended lines).getLast?, c = '\n' := by
  rcases List.eq_nil_or_concat lines with rfl | ⟨front, text, rfl⟩
  · simp [ended]
  · rw [List.concat_eq_append, ended_concat]
    simp

theorem before_eq_take (source : List Char) (offset : Nat) : before source offset = source.take offset :=
  (Offset.cut_natCast source 0 offset).trans List.drop_zero

variable {source : List Char} {offset line column : Nat}

theorem Place.take (place : Place source offset line column) :
    ∃ lines front, source.take offset = ended lines ++ front ∧ (∀ text ∈ lines, '\n' ∉ text) ∧
      '\n' ∉ front ∧ line = lines.length + 1 ∧ column = front.length + 1 ∧
      offset = (ended lines).length + front.length := by
  obtain ⟨lines, front, back, rfl, whole, plain, row, along, reached⟩ := place
  refine ⟨lines, front, ?_, whole, plain, row, along, reached⟩
  rw [reached, ← List.length_append, List.take_left]

theorem Place.inside (place : Place source offset line column) : offset ≤ source.length := by
  obtain ⟨lines, front, back, rfl, -, -, -, -, rfl⟩ := place
  simp only [List.length_append]
  omega

theorem Place.line_eq (place : Place source offset line column) :
    line = Diagnostic.line source offset := by
  obtain ⟨lines, front, taken, whole, plain, rfl, -, -⟩ := place.take
  rw [Diagnostic.line, before_eq_take, taken, List.count_append, count_ended whole,
    List.count_eq_zero.mpr plain, Nat.add_zero]

theorem Place.column_eq (place : Place source offset line column) :
    (column : Int) = Diagnostic.column source offset := by
  obtain ⟨lines, front, taken, whole, plain, -, rfl, reached⟩ := place.take
  have last : ((ended lines ++ front).reverse.takeWhile (· != '\n')) = front.reverse := by
    rw [List.reverse_append]
    refine (Token.takeWhile_append_stop ?_ ?_).1
    · intro c member
      have other : c ≠ '\n' := fun same => plain (same ▸ List.mem_reverse.mp member)
      simpa using other
    · intro c head
      rw [List.head?_reverse] at head
      rw [ended_getLast? lines c head]
      decide
  rw [Diagnostic.column, lineStart, before_eq_take, taken, last, List.length_append, List.length_reverse]
  omega

theorem exists_lines (text : List Char) :
    ∃ lines front, text = ended lines ++ front ∧ (∀ line ∈ lines, '\n' ∉ line) ∧ '\n' ∉ front := by
  induction text using List.reverseRecOn with
  | nil => exact ⟨[], [], rfl, by simp, by simp⟩
  | append_singleton text c ih =>
    obtain ⟨lines, front, rfl, whole, plain⟩ := ih
    by_cases ends : c = '\n'
    · subst ends
      refine ⟨lines ++ [front], [], ?_, ?_, by simp⟩
      · rw [ended_concat, List.append_nil, List.append_assoc]
      · intro line member
        rcases List.mem_append.mp member with before | last
        · exact whole line before
        · rwa [List.mem_singleton.mp last]
    · refine ⟨lines, front ++ [c], by rw [List.append_assoc], whole, ?_⟩
      intro member
      rcases List.mem_append.mp member with before | last
      · exact plain before
      · exact ends (List.mem_singleton.mp last).symm

theorem exists_place (inside : offset ≤ source.length) : ∃ line column, Place source offset line column := by
  obtain ⟨lines, front, taken, whole, plain⟩ := exists_lines (source.take offset)
  refine ⟨_, _, ⟨lines, front, source.drop offset, ?_, whole, plain, rfl, rfl, ?_⟩⟩
  · rw [← taken, List.take_append_drop]
  · rw [← List.length_append, ← taken, List.length_take, Nat.min_eq_left inside]

theorem Place.unique {otherLine otherColumn : Nat} (place : Place source offset line column)
    (other : Place source offset otherLine otherColumn) : otherLine = line ∧ otherColumn = column := by
  refine ⟨other.line_eq.trans place.line_eq.symm, ?_⟩
  exact Int.ofNat_inj.mp (other.column_eq.trans place.column_eq.symm)

/-- A later offset lies in a later line, or further on in the same one. -/
theorem Place.increases {later laterLine laterColumn : Nat} (place : Place source offset line column)
    (next : Place source later laterLine laterColumn) (less : offset < later) :
    line < laterLine ∨ line = laterLine ∧ column < laterColumn := by
  obtain ⟨lines, front, taken, whole, plain, rfl, rfl, reached⟩ := place.take
  have parts : source.take later = ended lines ++ front ++ (source.drop offset).take (later - offset) := by
    rw [← taken, ← List.take_add]
    congr 1
    omega
  by_cases breaks : '\n' ∈ (source.drop offset).take (later - offset)
  · -- a line ends between the two
    left
    have counted : 0 < ((source.drop offset).take (later - offset)).count '\n' := List.count_pos_iff.mpr breaks
    rw [next.line_eq, Diagnostic.line, before_eq_take, parts, List.count_append, List.count_append,
      count_ended whole]
    omega
  · right
    have behind : Place source later (lines.length + 1)
        ((front ++ (source.drop offset).take (later - offset)).length + 1) := by
      refine ⟨lines, _, source.drop later, ?_, whole, ?_, rfl, rfl, ?_⟩
      · rw [← List.append_assoc, ← parts, List.take_append_drop]
      · intro member
        rcases List.mem_append.mp member with before | after
        · exact plain before
        · exact breaks after
      · rw [← List.length_append, ← List.append_assoc, ← parts, List.length_take, Nat.min_eq_left next.inside]
    obtain ⟨sameLine, sameColumn⟩ := behind.unique next
    refine ⟨sameLine.symm, ?_⟩
    have inside := next.inside
    rw [sameColumn]
    simp only [List.length_append, List.length_take, List.length_drop]
    omega

/-! ### The excerpt and the caret -/

def window (width : Nat) (source : List Char) (offset : Nat) : List Char :=
  (source.take (min source.length (offset + width))).drop (offset - width)

def placeLine (line column : Nat) : String := "Line " ++ toString line ++ ", column " ++ toString column

def contextLine (width : Nat) (source : List Char) (offset : Nat) : String :=
  "Context: ..." ++ String.ofList ((window width source offset).map flatten) ++ "..."

def caretLine (index : Nat) : String :=
  String.ofList (List.replicate ("Context: ...".length + index) ' ') ++ "^"

theorem excerpt_eq_window (width : Nat) (source : List Char) (offset : Nat) :
    excerpt width source offset = (window width source offset).map flatten := by
  have start : excerptStart width offset = ((offset - width : Nat) : Int) := by
    unfold excerptStart
    omega
  have stop : excerptStop width source offset = ((min source.length (offset + width) : Nat) : Int) := by
    unfold excerptStop
    omega
  rw [excerpt, start, stop, Offset.cut_natCast, window]

theorem context_eq_lines (width : Nat) (source : List Char) (offset : Nat) :
    context width source offset =
      contextLine width source offset ++ "\n" ++ caretLine (offset - (offset - width)) := by
  have indent : 12 + ((offset : Int) - excerptStart width offset).toNat =
      "Context: ...".length + (offset - (offset - width)) := by
    rw [excerptStart, show "Context: ...".length = 12 by decide]
    omega
  rw [context, excerpt_eq_window, indent, contextLine, caretLine,
    show ("...\n" : String) = "..." ++ "\n" by decide]
  simp only [String.append_assoc]

theorem located_eq_lines (width : Nat) (place : Place source offset line column) :
    located width source offset = placeLine line column ++ "\n" ++
      (contextLine width source offset ++ "\n" ++ caretLine (offset - (offset - width))) := by
  have number : toString (column : Int) = toString column := rfl
  rw [located, context_eq_lines, ← place.line_eq, ← place.column_eq, number, placeLine]

theorem toList_getElem?_middle (front back : String) {middle : List Char} {index : Nat}
    (inside : index < middle.length) :
    (front ++ String.ofList middle ++ back).toList[front.length + index]? = middle[index]? := by
  rw [String.toList_append, String.toList_append, String.toList_ofList, ← String.length_toList,
    List.append_assoc, List.getElem?_append_right (by omega), Nat.add_sub_cancel_left,
    List.getElem?_append_left inside]

theorem window_getElem? {width : Nat} (positive : 0 < width) {c : Char} (stands : source[offset]? = some c) :
    (window width source offset)[offset - (offset - width)]? = some c := by
  have inside : offset < source.length := (List.getElem?_eq_some_iff.mp stands).1
  rw [window, List.getElem?_drop, List.getElem?_take, if_pos (by omega), ← stands]
  congr 1
  omega

theorem contextLine_getElem? {width : Nat} (positive : 0 < width) {c : Char}
    (stands : source[offset]? = some c) :
    (contextLine width source offset).toList[("Context: ...".length + (offset - (offset - width)))]? =
      some (flatten c) := by
  have shown := window_getElem? positive stands
  have inside := (List.getElem?_eq_some_iff.mp shown).1
  rw [contextLine, toList_getElem?_middle _ _ (by rwa [List.length_map]), List.getElem?_map, shown,
    Option.map_some]

theorem window_length_end (width : Nat) :
    (window width source source.length).length = source.length - (source.length - width) := by
  rw [window, List.length_drop, List.length_take]
  omega

theorem newline_not_mem_toString (n : Nat) : '\n' ∉ (toString n).toList := by
  intro member
  rw [Nat.toString_eq_repr, Nat.toList_repr] at member
  exact absurd (Nat.isDigit_of_mem_toDigits (by decide) (by decide) member) (by decide)

theorem newline_not_mem_placeLine (line column : Nat) : '\n' ∉ (placeLine line column).toList := by
  simp only [placeLine, String.toList_append, List.mem_append, not_or]
  exact ⟨⟨⟨by decide, newline_not_mem_toString line⟩, by decide⟩, newline_not_mem_toString column⟩

theorem flatten_ne_newline (c : Char) : flatten c ≠ '\n' := by
  unfold flatten
  split
  · decide
  · rename_i other
    exact fun same => other (.inl same)

theorem newline_not_mem_contextLine (width : Nat) (source : List Char) (offset : Nat) :
    '\n' ∉ (contextLine width source offset).toList := by
  simp only [contextLine, String.toList_append, String.toList_ofList, List.mem_append, not_or]
  refine ⟨⟨by decide, ?_⟩, by decide⟩
  intro member
  obtain ⟨c, -, same⟩ := List.mem_map.mp member
  exact flatten_ne_newline c same

theorem newline_not_mem_caretLine (index : Nat) : '\n' ∉ (caretLine index).toList := by
  simp only [caretLine, String.toList_append, String.toList_ofList, List.mem_append, not_or]
  refine ⟨?_, by decide⟩
  intro member
  exact absurd (List.eq_of_mem_replicate member) (by decide)

/-- Under the message `base` stand the place of the offset, the text around it and a caret under its
character. -/
structure PointsAt (width : Nat) (source : List Char) (offset : Nat) (base : String) (d : Diagnostic) :
    Prop where
  inside : offset ≤ source.length
  position : d.position = some (offset : Int)
  message : ∃ line column index : Nat,
    d.message = "\n".intercalate
      [base, placeLine line column, contextLine width source offset, caretLine index] ∧
    (∀ text ∈ [placeLine line column, contextLine width source offset, caretLine index],
      '\n' ∉ text.toList) ∧
    (∀ l c, Place source offset l c ↔ l = line ∧ c = column) ∧
    offset - width + index = offset ∧
    (∀ c, source[offset]? = some c →
      (contextLine width source offset).toList[("Context: ...".length + index)]? = some (flatten c)) ∧
    (offset = source.length → index = (window width source offset).length)

theorem report_pointsAt {width : Nat} (positive : 0 < width) {text : String} (inside : offset ≤ text.length)
    (kind : Kind) (base : String) (path : Option String) :
    PointsAt width text.toList offset base
      (report width kind base (some text) (some (offset : Int)) path) := by
  rw [← String.length_toList] at inside
  obtain ⟨line, column, place⟩ := exists_place inside
  refine ⟨inside, rfl, line, column, offset - (offset - width), ?_, ?_, ?_, by omega, ?_, ?_⟩
  · rw [report, located_eq_lines width place]
    simp [String.append_assoc]
  · simp only [List.forall_mem_cons]
    exact ⟨newline_not_mem_placeLine line column, newline_not_mem_contextLine width text.toList offset,
      newline_not_mem_caretLine _, List.forall_mem_nil _⟩
  · intro l c
    constructor
    · intro other
      exact place.unique other
    · rintro ⟨rfl, rfl⟩
      exact place
  · intro c stands
    exact contextLine_getElem? positive stands
  · intro ends
    rw [ends, window_length_end width]

end ElementMarkup.Diagnostic
