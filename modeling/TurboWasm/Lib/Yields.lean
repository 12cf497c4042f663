/-
# What a computation that may fail yields

`Yields P x` says that `P` holds of the answer of `x`, if there is one.  The rules follow a `do`
block from its first step on; the rule for a step says what the rest may know of its answer.
-/
import Mathlib.Logic.Basic

namespace TurboWasm.Lib

variable {ε α : Type} {P : α → Prop} {x : Except ε α}

/-- Whatever the computation answers satisfies `P`. -/
def Yields (P : α → Prop) (x : Except ε α) : Prop := ∀ a, x = .ok a → P a

namespace Yields

theorem ok {a : α} (h : P a) : Yields P (.ok a : Except ε α) := by
  intro b hb
  cases hb
  exact h

theorem pure {a : α} (h : P a) : Yields P (Pure.pure a : Except ε α) := ok h

theorem error (e : ε) : Yields P (.error e) := by
  intro b hb
  cases hb

theorem mono (hx : Yields P x) (h : ∀ a, P a → Q a) : Yields Q x := fun a ha => h a (hx a ha)

/-- A step, with the equation of its answer. -/
theorem check (h : ∀ a, x = .ok a → Yields R (f a)) : Yields R (x >>= f) := by
  intro b hb
  cases x with
  | error e => cases hb
  | ok a => exact h a rfl b hb

/-- A step whose answer satisfies `P`. -/
theorem bind (hx : Yields P x) (h : ∀ a, P a → Yields R (f a)) : Yields R (x >>= f) :=
  check fun a ha => h a (hx a ha)

/-- A step of which nothing is needed. -/
theorem skip (h : ∀ a, Yields R (f a)) : Yields R (x >>= f) := check fun a _ => h a

theorem ite {c : Prop} [Decidable c] (hx : c → Yields P x) (hy : ¬ c → Yields P y) :
    Yields P (if c then x else y) := by
  split
  · exact hx ‹_›
  · exact hy ‹_›

end Yields

end TurboWasm.Lib
