/-
# Replacing one item of a list

How sums, counts and lookups change when one item of a list is replaced.
-/
import Mathlib.Algebra.Order.Ring.Nat

namespace TurboWasm.Lib

open List

theorem sum_map_set {α : Type} (f : α → Nat) : ∀ {l : List α} {i : Nat} {a b : α},
    l[i]? = some a → ((l.set i b).map f).sum + f a = (l.map f).sum + f b
  | [], _, _, _, h => by simp at h
  | x :: l, 0, a, b, h => by
    simp only [getElem?_cons_zero, Option.some.injEq] at h
    subst h
    simp only [set_cons_zero, map_cons, sum_cons]
    omega
  | x :: l, i + 1, a, b, h => by
    have ih := sum_map_set f (b := b) (show l[i]? = some a by simpa using h)
    simp only [set_cons_succ, map_cons, sum_cons]
    omega

theorem countP_set_of {α : Type} (p : α → Bool) {l : List α} {i : Nat} {a b : α}
    (h : l[i]? = some a) : (l.set i b).countP p + (if p a then 1 else 0) =
      l.countP p + (if p b then 1 else 0) := by
  obtain ⟨hi, rfl⟩ := List.getElem?_eq_some_iff.mp h
  have hpos : (if p l[i] then 1 else 0) ≤ l.countP p := by
    split
    · exact countP_pos_iff.mpr ⟨_, getElem_mem hi, ‹_›⟩
    · exact Nat.zero_le _
  rw [countP_set hi]
  omega

theorem getElem?_set_of {α : Type} {l : List α} {i : Nat} {a : α} (h : l[i]? = some a) (b : α)
    (j : Nat) : (l.set i b)[j]? = if j = i then some b else l[j]? := by
  obtain ⟨hi, -⟩ := List.getElem?_eq_some_iff.mp h
  rw [getElem?_set]
  by_cases hij : i = j
  · subst hij
    simp [hi]
  · have hji : ¬ j = i := fun hh => hij hh.symm
    simp [hij, hji]

end TurboWasm.Lib
