/-
# Deadline policies

`turbowasm_cflow_deadline_apply` of `src/cflow_adapter.c` puts a policy before the interrupt callback
of an options record; the callback that was there is kept in the policy.  Only the head of this chain
is compared with the policy that is applied.  A policy that comes back after another one is therefore
linked twice, and the chain runs in a circle: unless a deadline in the circle has passed, the callback
of the record does not return.
-/
import TurboWasm.Base
import Mathlib.Logic.Function.Basic

namespace TurboWasm.Deadline

open Function List

/-! ## 1. The policies -/

/-- A callback with its context: one of the host, with what it answers, or the callback of a policy.
`callback none` is the null pointer. -/
inductive Interrupt where
  | callback (answer : Option Bool)
  | deadline (policy : Nat)
  deriving DecidableEq

/-- `turbowasm_cflow_deadline_policy`; the clocks and the policies are numbered. -/
structure Policy where
  clock : Nat
  deadline : Nat
  chained : Interrupt

/-- `turbowasm_cflow_deadline_init_at`, which `init_after` calls with a deadline of its own. -/
def initAt (clock deadline : Nat) : Policy := ⟨clock, deadline, .callback none⟩

/-- The callback of an options record, and the policies. -/
structure Options where
  policies : Nat → Policy
  interrupt : Interrupt

/-- The deadline of a policy has passed. -/
def Policy.passed (now : Nat → Nat) (p : Policy) : Bool := p.deadline ≤ now p.clock

/-- `turbowasm_cflow_deadline_should_interrupt` and the callbacks it calls; `none` is a call that has
not returned yet. -/
def shouldInterrupt (policies : Nat → Policy) (now : Nat → Nat) : Nat → Interrupt → Option Bool
  | _, .callback answer => some (answer.getD false)
  | 0, .deadline _ => none
  | fuel + 1, .deadline p =>
    if (policies p).passed now then some true
    else shouldInterrupt policies now fuel (policies p).chained

/-- `turbowasm_cflow_deadline_apply`. -/
def apply (p : Nat) (o : Options) : Options where
  policies := if o.interrupt = .deadline p then o.policies
    else update o.policies p { o.policies p with chained := o.interrupt }
  interrupt := .deadline p

/-- A sequence of applications, the last one first. -/
def applyAll (applied : List Nat) (o : Options) : Options := applied.foldr apply o

/-- No policy is applied again after another one was applied. -/
def NoReturn : List Nat → Prop
  | [] => True
  | p :: before => (p ∈ before → before.head? = some p) ∧ NoReturn before

/-- The callback of the record returns, and says whether one of the deadlines has passed or the first
callback interrupts. -/
def Composes (applied : List Nat) (policies : Nat → Policy) (answer : Option Bool)
    (now : Nat → Nat) : Prop :=
  let o := applyAll applied ⟨policies, .callback answer⟩
  ∃ fuel, shouldInterrupt o.policies now fuel o.interrupt =
    some (applied.any (fun p => (policies p).passed now) || answer.getD false)

/-! ## 2. One application -/

variable {policies : Nat → Policy} {now : Nat → Nat} {o : Options} {answer : Option Bool}
  {stop : Nat → Prop}

theorem apply_head (h : o.interrupt = .deadline p) : apply p o = o := by
  rw [apply, if_pos h, ← h]

theorem interrupt_applyAll : (applyAll applied ⟨policies, .callback answer⟩).interrupt =
    .deadline p ↔ applied.head? = some p := by
  cases applied <;> simp [applyAll, apply]

/-- The callbacks of a record lead to a policy with `stop`, or from policy to policy for ever. -/
def Leads (stop : Nat → Prop) (o : Options) : Prop :=
  ∃ S : Nat → Prop, (∃ p, S p ∧ o.interrupt = .deadline p) ∧
    ∀ p, S p → stop p ∨ ∃ q, S q ∧ (o.policies p).chained = .deadline q

/-- The policy that is applied leads where the record led; if it led to this policy, then there is a
circle now. -/
theorem Leads.apply (h : Leads stop o) (p : Nat) (hne : o.interrupt ≠ .deadline p) :
    Leads (fun q => stop q ∧ q ≠ p) (apply p o) := by
  obtain ⟨S, ⟨q, hq, hi⟩, hnext⟩ := h
  refine ⟨fun r => S r ∨ r = p, ⟨p, .inr rfl, rfl⟩, fun r hr => ?_⟩
  rw [Deadline.apply, if_neg hne]
  by_cases hrp : r = p
  · subst hrp
    exact .inr ⟨q, .inl hq, by simpa using hi⟩
  · rcases hnext r (hr.resolve_right hrp) with hstop | ⟨x, hx, hc⟩
    · exact .inl ⟨hstop, hrp⟩
    · exact .inr ⟨x, .inl hx, by simpa [update_of_ne hrp] using hc⟩

theorem Leads.mono {stop' : Nat → Prop} (h : Leads stop o) (himp : ∀ p, stop p → stop' p) :
    Leads stop' o := by
  obtain ⟨S, hhead, hnext⟩ := h
  exact ⟨S, hhead, fun p hp => (hnext p hp).imp_left (himp p)⟩

/-- In a circle without a deadline that has passed no call returns. -/
theorem Leads.runs (h : Leads (fun _ => False) o) (hno : ∀ p, (o.policies p).passed now = false)
    (fuel : Nat) : shouldInterrupt o.policies now fuel o.interrupt = none := by
  obtain ⟨S, ⟨p, hp, hi⟩, hnext⟩ := h
  rw [hi]
  clear hi
  induction fuel generalizing p with
  | zero => rfl
  | succ fuel ih =>
    obtain ⟨q, hq, hc⟩ := (hnext p hp).resolve_left id
    rw [shouldInterrupt, hno, hc]
    exact ih q hq

/-! ## 3. Sequences of applications -/

/-- Nothing but the chaining of a policy changes. -/
theorem passed_applyAll (applied : List Nat) (o : Options) (p : Nat) :
    ((applyAll applied o).policies p).passed now = (o.policies p).passed now := by
  induction applied with
  | nil => rfl
  | cons q applied ih =>
    rw [← ih, applyAll, foldr_cons, ← applyAll, apply]
    split
    · rfl
    by_cases hq : p = q
    · simp [hq, Policy.passed]
    · simp [update_of_ne hq]

/-- The callbacks of the record lead to every policy that was applied. -/
theorem leads_of_mem (hp : p ∈ applied) :
    Leads (· = p) (applyAll applied ⟨policies, .callback answer⟩) := by
  induction applied with
  | nil => cases hp
  | cons q before ih =>
    rcases mem_cons.mp hp with rfl | hp
    · exact ⟨(· = p), ⟨p, rfl, rfl⟩, fun r hr => .inl hr⟩
    rw [applyAll, foldr_cons, ← applyAll]
    by_cases hq : (applyAll before ⟨policies, .callback answer⟩).interrupt = .deadline q
    · rw [apply_head hq]
      exact ih hp
    · exact ((ih hp).apply q hq).mono fun r hr => hr.1

/-- A policy that has come back closes a circle, and nothing opens it again. -/
theorem circle_of_return (h : ¬ NoReturn applied) :
    Leads (fun _ => False) (applyAll applied ⟨policies, .callback answer⟩) := by
  induction applied with
  | nil => exact absurd trivial h
  | cons p before ih =>
    rw [applyAll, foldr_cons, ← applyAll]
    by_cases hi : (applyAll before ⟨policies, .callback answer⟩).interrupt = .deadline p
    · rw [apply_head hi]
      exact ih fun hno => h ⟨fun _ => interrupt_applyAll.mp hi, hno⟩
    by_cases hno : NoReturn before
    · have hp : p ∈ before := by
        by_contra hp
        exact h ⟨fun hm => absurd hm hp, hno⟩
      exact ((leads_of_mem hp).apply p hi).mono fun r hr => hr.2 hr.1
    · exact ((ih hno).apply p hi).mono fun r hr => hr.1

/-- Without a return the policies are called one after the other, and then the first callback.  What
is not applied may have changed since. -/
theorem shouldInterrupt_applyAll {policies' : Nat → Policy} (h : NoReturn applied)
    (hsame : ∀ p ∈ applied,
      policies' p = (applyAll applied ⟨policies, .callback answer⟩).policies p)
    (hfuel : applied.length ≤ fuel) : shouldInterrupt policies' now fuel
      (applyAll applied ⟨policies, .callback answer⟩).interrupt =
    some (applied.any (fun p => (policies p).passed now) || answer.getD false) := by
  induction applied generalizing fuel with
  | nil =>
    cases fuel <;> rfl
  | cons p before ih =>
    simp only [applyAll, foldr_cons] at hsame ⊢
    rw [← applyAll] at hsame ⊢
    obtain ⟨hp, hno⟩ := h
    rw [length_cons] at hfuel
    by_cases hi : (applyAll before ⟨policies, .callback answer⟩).interrupt = .deadline p
    · rw [apply_head hi] at hsame ⊢
      have hmem := mem_of_mem_head? (interrupt_applyAll.mp hi)
      rw [ih hno (fun q hq => hsame q (mem_cons_of_mem _ hq)) (by omega), any_cons]
      cases hpass : (policies p).passed now with
      | false => rfl
      | true =>
        rw [any_eq_true.mpr ⟨p, hmem, hpass⟩]
        rfl
    have hnot : p ∉ before := fun hm => hi (interrupt_applyAll.mpr (hp hm))
    obtain ⟨n, rfl⟩ : ∃ n, fuel = n + 1 := ⟨fuel - 1, by omega⟩
    simp only [apply, if_neg hi] at hsame ⊢
    have hself := hsame p mem_cons_self
    rw [update_self] at hself
    have hpass : (policies' p).passed now = (policies p).passed now := by
      rw [hself, ← passed_applyAll before ⟨policies, .callback answer⟩]
      rfl
    rw [shouldInterrupt, hpass, any_cons, hself]
    split
    · simp [*]
    · rw [ih hno (fun q hq => ?_) (by omega)]
      · simp [*]
      · have hq' : q ≠ p := fun heq => hnot (heq ▸ hq)
        rw [hsame q (mem_cons_of_mem _ hq), update_of_ne hq']

/-- **Deadlines compose as long as no policy comes back** after another one was applied, and only
then. -/
theorem deadlines_compose (applied : List Nat) :
    (∀ policies answer now, Composes applied policies answer now) ↔ NoReturn applied := by
  constructor
  · intro h
    by_contra hno
    obtain ⟨fuel, hfuel⟩ := h (fun _ => initAt 0 1) none (fun _ => 0)
    rw [(circle_of_return hno).runs fun p => passed_applyAll applied _ p] at hfuel
    cases hfuel
  · intro h policies answer now
    exact ⟨_, shouldInterrupt_applyAll h (fun _ _ => rfl) le_rfl⟩

/-- Two policies, the first of which is applied again: the callback never returns. -/
theorem deadlines_circle :
    let o := applyAll [0, 1, 0] ⟨fun _ => initAt 0 1, .callback none⟩
    ∀ fuel, shouldInterrupt o.policies (fun _ => 0) fuel o.interrupt = none := by
  have hreturn : ¬ NoReturn [0, 1, 0] := fun h => absurd (h.1 (by decide)) (by decide)
  exact (circle_of_return hreturn).runs fun p => passed_applyAll _ _ p

end TurboWasm.Deadline
