/-
# Lists with back links

A member names the list that it is in, and every list holds the members that name it, once each.
-/
import Mathlib.Logic.Function.Basic

namespace TurboWasm.Lib

open Function

variable {ι κ : Type} [DecidableEq ι] [DecidableEq κ] {heads : ι → List κ} {scope : κ → Option ι}
  {c : ι} {k : κ}

structure Roster (heads : ι → List κ) (scope : κ → Option ι) : Prop where
  mem : ∀ c k, k ∈ heads c ↔ scope k = some c
  nodup : ∀ c, (heads c).Nodup

namespace Roster

/-- A member of no list joins one. -/
theorem push (h : Roster heads scope) (hk : scope k = none) (c : ι) :
    Roster (update heads c (k :: heads c)) (update scope k (some c)) := by
  have hno : ∀ c', k ∉ heads c' := fun c' hm => by
    rw [h.mem, hk] at hm
    cases hm
  constructor
  · intro c' j
    by_cases hc : c' = c <;> by_cases hj : j = k
    · simp [hc, hj]
    · simp [hc, hj, h.mem]
    · simp [hc, hj, hno, Ne.symm hc]
    · simp [hc, hj, h.mem]
  · intro c'
    by_cases hc : c' = c
    · subst hc
      simp [hno, h.nodup]
    · simp [hc, h.nodup]

/-- The first member of a list leaves it. -/
theorem pop (h : Roster heads scope) (hh : heads c = k :: ks) :
    Roster (update heads c ks) (update scope k none) := by
  have hnodup := h.nodup c
  have hmem := h.mem c
  simp only [hh, List.nodup_cons, List.mem_cons] at hnodup hmem
  constructor
  · intro c' j
    by_cases hc : c' = c <;> by_cases hj : j = k
    · simp [hc, hj, hnodup.1]
    · simp [hc, hj, ← hmem]
    · simp only [update_of_ne hc, hj, update_self, h.mem, (hmem k).mp (.inl rfl)]
      simp [Ne.symm hc]
    · simp [hc, hj, h.mem]
  · intro c'
    by_cases hc : c' = c
    · subst hc
      simp [hnodup.2]
    · simp [hc, h.nodup]

end Roster

end TurboWasm.Lib
