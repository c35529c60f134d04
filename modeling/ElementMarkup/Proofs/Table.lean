import Mathlib.Data.List.Dedup
import ElementMarkup.Table

/-!
Laws of tables: what a key finds after a store, and which keys a table has.
-/

namespace ElementMarkup.Table

variable {κ α : Type} [DecidableEq κ]

@[simp] theorem find?_nil (key : κ) : find? ([] : Table κ α) key = none := rfl

theorem find?_cons (entry : κ × α) (rest : Table κ α) (key : κ) :
    find? (entry :: rest) key = if entry.1 = key then some entry.2 else find? rest key := by
  obtain ⟨own, value⟩ := entry
  by_cases same : own = key
  · simp [find?, same]
  · have different : (key == own) = false := by simpa using Ne.symm same
    simp [find?, List.lookup_cons, same, different]

@[simp] theorem find?_store_same (table : Table κ α) (key : κ) (value : α) :
    find? (store table key value) key = some value := by
  induction table with
  | nil => simp [store, find?_cons]
  | cons entry rest ih =>
    by_cases same : entry.1 = key
    · simp [store, same, find?_cons]
    · simpa [store, same, find?_cons] using ih

theorem find?_store_other (table : Table κ α) {key other : κ} (value : α) (different : other ≠ key) :
    find? (store table key value) other = find? table other := by
  induction table with
  | nil => simp [store, find?_cons, Ne.symm different]
  | cons entry rest ih =>
    by_cases same : entry.1 = key
    · simp [store, same, find?_cons, Ne.symm different]
    · by_cases hit : entry.1 = other
      · simp [store, find?_cons, hit, different]
      · simpa [store, same, find?_cons, hit] using ih

theorem find?_store (table : Table κ α) (key other : κ) (value : α) :
    find? (store table key value) other = if other = key then some value else find? table other := by
  by_cases same : other = key
  · simp [same]
  · simp [same, find?_store_other table value same]

theorem find?_append_of_ne {front : Table κ α} (rest : Table κ α) {key : κ}
    (other : ∀ entry ∈ front, entry.1 ≠ key) : find? (front ++ rest) key = find? rest key := by
  induction front with
  | nil => rfl
  | cons entry more ih =>
    obtain ⟨different, later⟩ := List.forall_mem_cons.mp other
    rw [List.cons_append, find?_cons, if_neg different, ih later]

theorem store_of_absent {table : Table κ α} {key : κ} (value : α) (absent : find? table key = none) :
    store table key value = table ++ [(key, value)] := by
  induction table with
  | nil => rfl
  | cons entry rest ih =>
    rw [find?_cons] at absent
    split at absent
    · cases absent
    · rename_i different
      rw [store, if_neg different, ih absent, List.cons_append]

theorem has_iff {table : Table κ α} {key : κ} :
    has table key = true ↔ ∃ value, find? table key = some value := by
  simp [has, Option.isSome_iff_exists]

theorem has_eq_false_iff {table : Table κ α} {key : κ} :
    has table key = false ↔ find? table key = none := by
  simp [has]

theorem has_of_find? {table : Table κ α} {key : κ} {value : α} (found : find? table key = some value) :
    has table key = true :=
  has_iff.mpr ⟨value, found⟩

@[simp] theorem has_nil (key : κ) : has ([] : Table κ α) key = false := rfl

@[simp] theorem has_store (table : Table κ α) (key other : κ) (value : α) :
    has (store table key value) other = (decide (other = key) || has table other) := by
  by_cases same : other = key <;> simp [has, find?_store, same]

theorem find?_map {ι : Type} {items : List ι} {keyOf : ι → κ} {valueOf : ι → α} {key : κ} {value : α}
    (found : find? (items.map fun item => (keyOf item, valueOf item)) key = some value) :
    ∃ item ∈ items, keyOf item = key ∧ valueOf item = value := by
  induction items with
  | nil => simp at found
  | cons item rest ih =>
    rw [List.map_cons, find?_cons] at found
    split at found
    · exact ⟨item, List.mem_cons_self .., ‹_›, Option.some.inj found⟩
    · obtain ⟨later, member, same⟩ := ih found
      exact ⟨later, List.mem_cons_of_mem _ member, same⟩

theorem has_map {ι : Type} {items : List ι} (keyOf : ι → κ) (valueOf : ι → α) {item : ι}
    (member : item ∈ items) : has (items.map fun item => (keyOf item, valueOf item)) (keyOf item) = true := by
  induction items with
  | nil => simp at member
  | cons first rest ih =>
    by_cases same : keyOf first = keyOf item
    · simp [has, find?_cons, same]
    · rcases List.mem_cons.mp member with rfl | member
      · exact absurd rfl same
      · simpa [has, find?_cons, same] using ih member

theorem mem_keys_of_has {table : Table κ α} {key : κ} (present : has table key = true) :
    key ∈ table.map Prod.fst := by
  induction table with
  | nil => simp at present
  | cons entry rest ih =>
    by_cases same : entry.1 = key
    · simp [same]
    · have later : has rest key = true := by simpa [has, find?_cons, same] using present
      exact List.mem_cons_of_mem _ (ih later)

theorem mem_of_find? {table : Table κ α} {key : κ} {value : α} (found : find? table key = some value) :
    (key, value) ∈ table := by
  induction table with
  | nil => simp at found
  | cons entry rest ih =>
    rw [find?_cons] at found
    split at found
    · rename_i same
      obtain rfl := Option.some.inj found
      simp [← same]
    · exact List.mem_cons_of_mem _ (ih found)

def size (table : Table κ α) : Nat := (table.map Prod.fst).dedup.length

theorem size_le_length (table : Table κ α) : size table ≤ table.length := by
  simpa [size] using (List.dedup_sublist (table.map Prod.fst)).length_le

theorem length_le_size {table : Table κ α} {keys : List κ} (distinct : keys.Nodup)
    (present : ∀ key ∈ keys, has table key = true) : keys.length ≤ size table := by
  have inside : keys ⊆ (table.map Prod.fst).dedup := by
    intro key member
    exact List.mem_dedup.mpr (mem_keys_of_has (present key member))
  exact List.Nodup.length_le_of_subset distinct inside

end ElementMarkup.Table
