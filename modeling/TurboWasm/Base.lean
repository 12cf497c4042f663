/-
# Status codes and machine constants

Every fallible function of the runtime returns a `turbowasm_status` (`include/turbowasm/status.h`)
and writes its results through out-parameters.  Here such a function returns `Result α`:
`TURBOWASM_OK` is `.ok`, every other status is `.error`.  Where the source's own helper returns a
`bool` and the caller turns `false` into a status, the helper is an `Option` and the caller uses
`orFail`.

The fixed-width integers of the source are natural numbers with explicit bounds; the bounds that
the code tests against are named here.
-/
import Mathlib.Algebra.Order.Ring.Nat

namespace TurboWasm

/-- `turbowasm_status`, without `TURBOWASM_OK`. -/
inductive Status where
  | invalidArgument
  | malformedModule
  | unsupported
  | outOfMemory
  | typeMismatch
  | trapped
  | fuelExhausted
  | interrupted
  | linkError
  | exception
  | yielded
  deriving DecidableEq, Repr

/-- `turbowasm_trap`. -/
inductive Trap where
  | none
  | unreachable
  | callStackExhausted
  | integerDivideByZero
  | integerOverflow
  | memoryOutOfBounds
  | tableOutOfBounds
  | indirectCallNull
  | indirectCallTypeMismatch
  | invalidConversionToInteger
  | nullReference
  | unalignedAtomic
  | expectedSharedMemory
  | tooManyWaiters
  | arrayOutOfBounds
  | castFailure
  deriving DecidableEq, Repr

/-- `UINT32_MAX`. -/
def uint32Max : Nat := 0xffffffff

/-- `UINT64_MAX`. -/
def uint64Max : Nat := 0xffffffffffffffff

/-- What a function that returns a status computes. -/
abbrev Result := Except Status

/-- `if (!helper(...)) return status;` -/
def orFail {α : Type} (st : Status) : Option α → Result α
  | some a => .ok a
  | none => .error st

/-- `if (!helper(...)) return TURBOWASM_MALFORMED_MODULE;` -/
abbrev orMalformed {α : Type} : Option α → Result α := orFail .malformedModule

/-- `if (condition) return status;` -/
def failIf (c : Bool) (st : Status) : Result Unit :=
  if c then .error st else .ok ()

/-- `if (condition) return TURBOWASM_MALFORMED_MODULE;` -/
abbrev malformedIf (c : Bool) : Result Unit := failIf c .malformedModule

@[simp] theorem orFail_eq_ok {α : Type} {st : Status} {o : Option α} {a : α} :
    orFail st o = .ok a ↔ o = some a := by
  cases o <;> simp [orFail]

@[simp] theorem failIf_eq_ok {c : Bool} {st : Status} {u : Unit} :
    failIf c st = .ok u ↔ c = false := by
  cases c <;> simp [failIf]

theorem ok_bind {ε α β : Type} (a : α) (f : α → Except ε β) : (Except.ok a >>= f) = f a := rfl

theorem failIf_pos {c : Bool} {st : Status} (h : c) : failIf c st = .error st := by
  rw [h]
  rfl

theorem failIf_neg (h : c = false) : failIf c st = .ok () := by
  rw [h]
  rfl

theorem lt_of_getElem? {α : Type} {xs : List α} {i : Nat} {x : α} (h : xs[i]? = some x) :
    i < xs.length := (getElem?_eq_some_iff.mp h).1

/-- The branch that a conditional took. -/
theorem ite_cases {α : Type} {c : Prop} [Decidable c] {x y v : α}
    (h : (if c then x else y) = v) : c ∧ x = v ∨ ¬ c ∧ y = v := by
  split at h
  · exact .inl ⟨‹c›, h⟩
  · exact .inr ⟨‹¬ c›, h⟩

/-- A helper that answered has passed its guard. -/
theorem ite_none_pass {α : Type} {c : Prop} [Decidable c] {x : Option α} {a : α}
    (h : (if c then none else x) = some a) : ¬ c ∧ x = some a :=
  Option.ite_none_left_eq_some.mp h

/-- A function that succeeded has passed its guard. -/
theorem ite_error_pass {ε α : Type} {c : Prop} [Decidable c] {e : ε} {x : Except ε α} {a : α}
    (h : (if c then .error e else x) = .ok a) : ¬ c ∧ x = .ok a := by
  rcases ite_cases h with ⟨-, h⟩ | h
  · cases h
  · exact h

/-- A check that found no failure has passed its guard. -/
theorem ite_some_pass {α : Type} {c : Prop} [Decidable c] {x : Option α} {a : α}
    (h : (if c then some a else x) = none) : ¬ c ∧ x = none := by
  rcases ite_cases h with ⟨-, h⟩ | h
  · cases h
  · exact h

/-- Peeling one step off a computation that succeeded. -/
theorem bind_eq_ok {ε α β : Type} {x : Except ε α} {f : α → Except ε β} {b : β} :
    (x >>= f) = .ok b ↔ ∃ a, x = .ok a ∧ f a = .ok b := by
  cases x with
  | error e | ok a => simp [bind, Except.bind]

/-- A computation whose failures are forgotten. -/
theorem toOption_eq_some {ε α : Type} {x : Except ε α} {a : α} :
    x.toOption = some a ↔ x = .ok a := by
  cases x with
  | error e | ok b => simp [Except.toOption]

end TurboWasm
