/-
# Evaluations that decide a proposition

A comparison that may run out of fuel, or stop at a bad pointer, answers an `Option Bool`.
`Decides o P` says that it did answer and that the answer is the truth value of `P`.  The rules
below follow the shapes such comparisons are written in: a guard, a conjunction that stops early,
a loop that stops early.
-/
import Mathlib.Data.List.Basic

namespace TurboWasm.Lib

/-- The evaluation ended, and answered whether `P` holds. -/
def Decides (o : Option Bool) (P : Prop) : Prop := ∃ b, o = some b ∧ (b ↔ P)

namespace Decides

theorem congr (h : Decides o P) (hpq : P ↔ Q) : Decides o Q := by
  obtain ⟨b, hb, hP⟩ := h
  exact ⟨b, hb, hP.trans hpq⟩

theorem true_ (h : P) : Decides (some true) P := ⟨true, rfl, by simp [h]⟩

theorem false_ (h : ¬ P) : Decides (some false) P := ⟨false, rfl, by simp [h]⟩

theorem bool (b : Bool) : Decides (some b) (b) := ⟨b, rfl, Iff.rfl⟩

theorem some_iff : Decides (some b) P ↔ (b ↔ P) := by
  simp [Decides]

theorem eq_true_iff (h : Decides o P) : o = some true ↔ P := by
  obtain ⟨b, rfl, hP⟩ := h
  simp [hP]

theorem isSome (h : Decides o P) : o.isSome := by
  obtain ⟨b, rfl, _⟩ := h
  rfl

/-- A guard that answers `false` at once. -/
theorem guard {c : Prop} [Decidable c] (hc : c → ¬ P) (h : ¬ c → Decides o P) :
    Decides (if c then some false else o) P := by
  split
  · rename_i hcc; exact false_ (hc hcc)
  · rename_i hcc; exact h hcc

/-- A guard that answers `true` at once. -/
theorem accept {c : Prop} [Decidable c] (hc : c → P) (h : ¬ c → Decides o P) :
    Decides (if c then some true else o) P := by
  split
  · rename_i hcc; exact true_ (hc hcc)
  · rename_i hcc; exact h hcc

end Decides

end TurboWasm.Lib
