/-
# Exclusive ownership

Holders take and drop resources one at a time.  Ownership is exclusive when every resource in use
has exactly one holder and nobody holds a resource that is not in use.
-/
import Mathlib.Logic.Function.Basic

namespace TurboWasm.Lib

open Option Function

variable {ι ρ : Type}

/-- Every resource in use has exactly one holder, and only resources in use are held. -/
structure Exclusive (holds : ι → Option ρ) (inUse : ρ → Prop) : Prop where
  used : ∀ {i : ι} {r : ρ}, holds i = some r → inUse r
  inj : ∀ {i j : ι} {r : ρ}, holds i = some r → holds j = some r → i = j
  held : ∀ {r : ρ}, inUse r → ∃ i, holds i = some r

namespace Exclusive

/-- Nothing is in use. -/
theorem empty : Exclusive (fun _ : ι => (none : Option ρ)) (fun _ => False) where
  used h := by cases h
  inj h := by cases h
  held h := h.elim

theorem congr {inUse' : ρ → Prop} (h : Exclusive holds inUse) (hr : ∀ r, inUse' r ↔ inUse r) :
    Exclusive holds inUse' where
  used hi := (hr _).mpr (h.used hi)
  inj := h.inj
  held hu := h.held ((hr _).mp hu)

variable [DecidableEq ι]

/-- A holder of nothing takes a free resource. -/
theorem take (h : Exclusive holds inUse) {i : ι} {r : ρ} (hi : holds i = none) (hr : ¬ inUse r) :
    Exclusive (update holds i (some r)) (fun k => k = r ∨ inUse k) where
  used := by
    intro j k hj
    by_cases hji : j = i
    · subst hji
      rw [update_self] at hj
      exact .inl (some.inj hj).symm
    · rw [update_of_ne hji] at hj
      exact .inr (h.used hj)
  inj := by
    intro j k s hj hk
    by_cases hji : j = i <;> by_cases hki : k = i
    · rw [hji, hki]
    · -- `k` would hold the free resource
      subst hji
      rw [update_self] at hj
      rw [update_of_ne hki] at hk
      exact absurd (some.inj hj ▸ h.used hk) hr
    · subst hki
      rw [update_self] at hk
      rw [update_of_ne hji] at hj
      exact absurd (some.inj hk ▸ h.used hj) hr
    · rw [update_of_ne hji] at hj
      rw [update_of_ne hki] at hk
      exact h.inj hj hk
  held := by
    rintro k (rfl | hk)
    · exact ⟨i, update_self ..⟩
    · obtain ⟨j, hj⟩ := h.held hk
      have hji : j ≠ i := fun heq => by rw [heq, hi] at hj; cases hj
      exact ⟨j, by rw [update_of_ne hji, hj]⟩

/-- A holder drops its resource. -/
theorem drop (h : Exclusive holds inUse) {i : ι} {r : ρ} (hi : holds i = some r) :
    Exclusive (update holds i none) (fun k => k ≠ r ∧ inUse k) where
  used := by
    intro j k hj
    by_cases hji : j = i
    · subst hji
      rw [update_self] at hj
      cases hj
    · rw [update_of_ne hji] at hj
      refine ⟨fun hkr => hji ?_, h.used hj⟩
      subst hkr
      exact h.inj hj hi
  inj := by
    intro j k s hj hk
    by_cases hji : j = i
    · subst hji
      rw [update_self] at hj
      cases hj
    by_cases hki : k = i
    · subst hki
      rw [update_self] at hk
      cases hk
    rw [update_of_ne hji] at hj
    rw [update_of_ne hki] at hk
    exact h.inj hj hk
  held := by
    rintro k ⟨hkr, hk⟩
    obtain ⟨j, hj⟩ := h.held hk
    have hji : j ≠ i := fun heq => by
      rw [heq, hi] at hj
      exact hkr (some.inj hj).symm
    exact ⟨j, by rw [update_of_ne hji, hj]⟩

end Exclusive

end TurboWasm.Lib
