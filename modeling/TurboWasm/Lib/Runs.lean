/-
# Runs of a step relation

A machine is a function from a state and an action to the next state, `none` where the action is
not possible; a run takes any actions one after the other.  A property that every step keeps holds
in every state of every run, and a relation between two states that is reflexive, transitive and
holds across one step holds across every run.
-/
import Mathlib.Logic.Relation

namespace TurboWasm.Lib

open Relation

/-- One step of a machine. -/
def Steps {σ α : Type} (act : σ → α → Option σ) (s t : σ) : Prop := ∃ a, act s a = some t

/-- The run that takes the given actions. -/
theorem run_of_actions {σ α : Type} {act : σ → α → Option σ} : ∀ {as : List α} {s t : σ},
    as.foldlM act s = some t → ReflTransGen (Steps act) s t
  | [], s, t, h => by
    cases h
    exact .refl
  | a :: as, s, t, h => by
    simp only [List.foldlM_cons, Option.bind_eq_bind, Option.bind_eq_some_iff] at h
    obtain ⟨u, hu, h⟩ := h
    exact .head ⟨a, hu⟩ (run_of_actions h)

/-- The invariant rule. -/
theorem invariant_run {P : σ → Prop} (hstep : ∀ s t, step s t → P s → P t) {s t : σ}
    (hrun : ReflTransGen step s t) (hs : P s) : P t := by
  induction hrun with
  | refl => exact hs
  | tail _ hst ih => exact hstep _ _ hst ih

/-- The rule for what a run keeps between its two ends, under an invariant. -/
theorem relation_run {P : σ → Prop} {R : σ → σ → Prop} (hstep : ∀ s t, step s t → P s → P t)
    (hrefl : ∀ s, R s s) (htrans : ∀ s t u, R s t → R t u → R s u)
    (hrel : ∀ s t, P s → step s t → R s t) (hrun : ReflTransGen step s t) (hs : P s) :
    R s t := by
  induction hrun with
  | refl => exact hrefl s
  | tail hpre hst ih => exact htrans _ _ _ ih (hrel _ _ (invariant_run hstep hpre hs) hst)

end TurboWasm.Lib
