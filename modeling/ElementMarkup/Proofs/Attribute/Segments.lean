import ElementMarkup.Proofs.Attribute
import Mathlib.Algebra.Ring.Parity
import Mathlib.Data.List.Forall2

/-!
The segments of an attribute block, said without a scan: `segments` is the only way to divide a text
at commas so that a segment's own commas all follow an odd number of its quotes and no segment but the
last has an odd number of them. A list has one entry to each segment that is not blank, less at most a
pair of quotes around it.
-/

namespace ElementMarkup.Attribute

structure Splits (text : List Char) (parts : List (List Char)) : Prop where
  nonempty : parts ≠ []
  joined : [','].intercalate parts = text
  balanced : ∀ part ∈ parts.dropLast, Even (part.count '"')
  inside : ∀ part ∈ parts, ∀ front back, part = front ++ ',' :: back → Odd (front.count '"')

/-- Whether the place behind a text lies in quotes. -/
def inQuotes (quoted : Bool) (text : List Char) : Bool := quoted != decide (Odd (text.count '"'))

theorem inQuotes_nil (quoted : Bool) : inQuotes quoted [] = quoted := by simp [inQuotes]

theorem inQuotes_cons (quoted : Bool) (c : Char) (text : List Char) :
    inQuotes quoted (c :: text) = inQuotes (quoted != (c == '"')) text := by
  unfold inQuotes
  by_cases quote : c = '"'
  · subst quote
    rw [List.count_cons_self, beq_self_eq_true]
    by_cases odd : Odd (text.count '"') <;> cases quoted <;> simp [Nat.odd_add_one, odd]
  · have other : (c == '"') = false := by simpa using quote
    rw [List.count_cons_of_ne quote, other, Bool.bne_false]

theorem inQuotes_false_iff (text : List Char) : inQuotes false text = true ↔ Odd (text.count '"') := by
  simp [inQuotes]

variable {quoted ends : Bool} {segment : List Char} {parts : List (List Char)}

theorem ending?_eq_some_iff : ending? quoted segment = some ends ↔
    inQuotes quoted segment = ends ∧
      ∀ front back, segment = front ++ ',' :: back → inQuotes quoted front = true := by
  induction segment generalizing quoted with
  | nil => simp [ending?, inQuotes_nil]
  | cons c rest ih =>
    rw [ending?, inQuotes_cons]
    by_cases outside : c = ',' ∧ quoted = false
    · rw [if_pos outside]
      obtain ⟨rfl, rfl⟩ := outside
      constructor
      · intro impossible
        cases impossible
      · rintro ⟨-, commas⟩
        have first := commas [] rest rfl
        rw [inQuotes_nil] at first
        exact absurd first Bool.false_ne_true
    · rw [if_neg outside, ih]
      apply and_congr_right
      intro _
      constructor
      · intro commas front back same
        cases front with
        | nil =>
          obtain ⟨rfl, -⟩ := List.cons.inj same
          rw [inQuotes_nil]
          simpa using outside
        | cons d front =>
          obtain ⟨rfl, later⟩ := List.cons.inj same
          rw [inQuotes_cons]
          exact commas front back later
      · intro commas front back same
        rw [← inQuotes_cons]
        apply commas (c :: front) back
        rw [same, List.cons_append]

theorem extend_ne_nil (c : Char) (parts : List (List Char)) : extend c parts ≠ [] := by
  cases parts <;> simp [extend]

theorem split_ne_nil (quoted : Bool) (text : List Char) : split quoted text ≠ [] := by
  cases text with
  | nil => simp [split]
  | cons c rest =>
    rw [split]
    split
    · exact List.cons_ne_nil _ _
    · exact extend_ne_nil _ _

theorem intercalate_extend (c : Char) (nonempty : parts ≠ []) :
    [','].intercalate (extend c parts) = c :: [','].intercalate parts := by
  cases parts with
  | nil => exact absurd rfl nonempty
  | cons part rest => cases rest <;> simp [extend]

theorem intercalate_split (quoted : Bool) (text : List Char) :
    [','].intercalate (split quoted text) = text := by
  induction text generalizing quoted with
  | nil => simp [split]
  | cons c rest ih =>
    rw [split]
    split
    · rename_i outside
      rw [List.intercalate_cons_of_ne_nil (split_ne_nil _ _), ih, outside.1]
      rfl
    · rw [intercalate_extend c (split_ne_nil _ _), ih]

theorem divided_iff : Divided parts ↔
    (∀ part ∈ parts.dropLast, Even (part.count '"')) ∧
      ∀ part ∈ parts, ∀ front back, part = front ++ ',' :: back → Odd (front.count '"') := by
  induction parts with
  | nil => simp [Divided]
  | cons part rest ih =>
    simp only [Divided, ih, ending?_eq_some_iff, inQuotes_false_iff, List.forall_mem_cons]
    cases rest with
    | nil => simp
    | cons next more =>
      have even : inQuotes false part = false ↔ Even (part.count '"') := by
        rw [← Bool.not_eq_true, inQuotes_false_iff, Nat.not_odd_iff_even]
      simp only [List.dropLast_cons_cons, List.forall_mem_cons]
      constructor
      · rintro ⟨⟨ends, ⟨same, commas⟩, closed⟩, balanced, inside⟩
        exact ⟨⟨even.mp (same.trans (closed (List.cons_ne_nil _ _))), balanced⟩, commas, inside⟩
      · rintro ⟨⟨first, balanced⟩, commas, inside⟩
        exact ⟨⟨false, ⟨even.mpr first, commas⟩, fun _ => rfl⟩, balanced, inside⟩

theorem splits_segments (text : List Char) : Splits text (segments text) := by
  have parity := divided_iff.mp (segments_divided text)
  exact ⟨split_ne_nil _ _, intercalate_split _ _, parity.1, parity.2⟩

theorem splits_iff_eq_segments (text : List Char) (parts : List (List Char)) :
    Splits text parts ↔ parts = segments text := by
  constructor
  · intro splits
    have divided : Divided parts := divided_iff.mpr ⟨splits.balanced, splits.inside⟩
    rw [← splits.joined, segments, split_intercalate divided splits.nonempty]
  · rintro rfl
    exact splits_segments text

/-- The entry of a stripped segment: the text, less one pair of quotes around it. -/
inductive Unquotes (text : List Char) (entry : String) : Prop where
  | plain (unpaired : ∀ inner, text ≠ printEntry inner) (same : entry.toList = text)
  | paired (same : text = printEntry entry)

theorem unquote_unquotes {text : List Char} (several : text ≠ ['"']) :
    Unquotes text (String.ofList (unquote text)) := by
  unfold unquote
  split
  · rename_i marks
    apply Unquotes.paired
    cases text with
    | nil => simp at marks
    | cons c rest =>
      obtain ⟨first, last⟩ := marks
      obtain rfl : c = '"' := by simpa using first
      -- a second quote ends the text, for the first is not all of it
      have longer : rest ≠ [] := fun empty => several (by rw [empty])
      have closing : '"' ∈ rest.getLast? := by
        rw [List.getLast?_cons_of_ne_nil longer] at last
        exact last
      rw [printEntry, String.toList_ofList, List.tail_cons, List.cons_append,
        List.dropLast_append_getLast? '"' closing]
  · rename_i unmarked
    refine Unquotes.plain ?_ (String.toList_ofList)
    rintro inner rfl
    exact unmarked ⟨printEntry_head? inner, printEntry_getLast? inner⟩

theorem entries_eq_filter (text : List Char) :
    entries text = (segments text).filter fun segment => Text.strip segment ≠ [] := by
  unfold entries
  apply List.filter_congr
  intro segment _
  rw [Bool.eq_iff_iff, decide_eq_true_iff, Ne, Text.strip_eq_nil_iff]
  simp

/-- A segment that is a lone quote is the exception: its entry is empty. -/
theorem list_unquotes (text : String) :
    List.Forall₂
      (fun segment entry =>
        if Text.strip segment = ['"'] then entry = "" else Unquotes (Text.strip segment) entry)
      ((segments text.toList).filter fun segment => Text.strip segment ≠ []) (list text) := by
  rw [list, entries_eq_filter, List.forall₂_map_right_iff, List.forall₂_same]
  intro segment _
  split
  · rename_i lone
    rw [lone]
    rfl
  · rename_i several
    exact unquote_unquotes several

theorem lone_quote_lost :
    ¬ List.Forall₂ (fun segment entry => Unquotes (Text.strip segment) entry)
      ((segments "\"".toList).filter fun segment => Text.strip segment ≠ []) (list "\"") := by
  have kept : ((segments "\"".toList).filter fun segment => Text.strip segment ≠ []) = [['"']] := by
    decide
  have emptied : list "\"" = [""] := by decide
  rw [kept, emptied, List.forall₂_cons]
  rintro ⟨⟨-, same⟩ | same, -⟩
  · exact absurd same (by decide)
  · exact absurd same (by decide)

end ElementMarkup.Attribute
