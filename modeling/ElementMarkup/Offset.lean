/-!
Signed offsets into a list. A negative offset counts back from the end, and offsets beyond either
end are drawn in, so every pair of offsets cuts out some part of the list.
-/

namespace ElementMarkup.Offset

variable {α : Type}

/-- The place a signed offset stands for: counted from the end when negative, and never outside
the list. -/
def place (items : List α) (offset : Int) : Nat :=
  if offset < 0 then (offset + items.length).toNat else min offset.toNat items.length

/-- The part of a list from one signed offset up to another; empty when they are out of order. -/
def cut (items : List α) (start stop : Int) : List α :=
  (items.take (place items stop)).drop (place items start)

/-- The items from a signed offset on. From a negative offset the list is read to its end and then
once more from its start; before its first item there is nothing to read. -/
def upcoming? (items : List α) (offset : Int) : Option (List α) :=
  if 0 ≤ offset then some (items.drop offset.toNat)
  else if -items.length ≤ offset then some (items.drop (place items offset) ++ items)
  else none

theorem place_natCast (items : List α) (n : Nat) : place items n = min n items.length := by
  rw [place, if_neg (by omega), Int.toNat_natCast]

theorem cut_natCast (items : List α) (start stop : Nat) :
    cut items start stop = (items.take stop).drop start := by
  rw [cut, place_natCast, place_natCast, ← List.take_eq_take_min]
  rcases Nat.le_total start items.length with inside | past
  · rw [Nat.min_eq_left inside]
  · have short : (items.take stop).length ≤ items.length := List.length_take_le' stop items
    rw [Nat.min_eq_right past, List.drop_eq_nil_of_le short, List.drop_eq_nil_of_le (by omega)]

theorem upcoming?_natCast (items : List α) (n : Nat) : upcoming? items n = some (items.drop n) := by
  rw [upcoming?, if_pos (Int.natCast_nonneg n), Int.toNat_natCast]

theorem upcoming?_subset (items : List α) (offset : Int) : (upcoming? items offset).getD [] ⊆ items := by
  unfold upcoming?
  split
  · exact List.drop_subset _ _
  split
  · exact List.append_subset.mpr ⟨List.drop_subset _ _, List.Subset.refl items⟩
  · exact List.nil_subset items

end ElementMarkup.Offset
