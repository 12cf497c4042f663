/-
# Counting holders

How the number of members with a property changes when one member changes.
-/
import Mathlib.Data.Finset.Card

namespace TurboWasm.Lib

variable [DecidableEq ι] {live : Finset ι} {p q : ι → Bool}

/-- One member changes. -/
theorem card_filter_change (hi : i ∈ live) (h : ∀ j, j ≠ i → p j = q j) :
    (live.filter (q ·)).card + (if p i then 1 else 0) =
      (live.filter (p ·)).card + (if q i then 1 else 0) := by
  have hrest : (live.erase i).filter (q ·) = (live.erase i).filter (p ·) :=
    Finset.filter_congr fun j hj => by rw [h j (Finset.ne_of_mem_erase hj)]
  have hsplit : ∀ r : ι → Bool, (live.filter (r ·)).card =
      ((live.erase i).filter (r ·)).card + if r i then 1 else 0 := by
    intro r
    conv_lhs => rw [← Finset.insert_erase hi, Finset.filter_insert]
    split
    · rw [Finset.card_insert_of_notMem (by simp)]
    · rfl
  rw [hsplit p, hsplit q, hrest]
  omega

/-- A member is added. -/
theorem card_filter_insert (hi : i ∉ live) (h : ∀ j, j ≠ i → p j = q j) :
    ((insert i live).filter (q ·)).card =
      (live.filter (p ·)).card + (if q i then 1 else 0) := by
  have hrest : live.filter (q ·) = live.filter (p ·) :=
    Finset.filter_congr fun j hj => by rw [h j fun heq => hi (heq ▸ hj)]
  rw [Finset.filter_insert]
  split
  · rw [Finset.card_insert_of_notMem (by simp [hi]), hrest]
  · rw [hrest, Nat.add_zero]

end TurboWasm.Lib
