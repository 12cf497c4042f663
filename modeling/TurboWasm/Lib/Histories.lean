/-
# Histories

The events of a component are kept newest first.  A law of a history says of every event what must
have happened before it.
-/
import Mathlib.Data.List.Basic

namespace TurboWasm.Lib

variable {ε : Type}

/-- Every event of the history satisfies the law together with the events before it. -/
def Always (law : List ε → ε → Prop) : List ε → Prop
  | [] => True
  | e :: past => law past e ∧ Always law past

/-- A law read at one event of the history. -/
theorem Always.at {history later past : List ε} {e : ε} (h : Always law history)
    (heq : history = later ++ e :: past) : law past e := by
  subst heq
  induction later with
  | nil => exact h.1
  | cons x later ih => exact ih h.2

end TurboWasm.Lib
