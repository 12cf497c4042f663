/-
# Interrupting the threads that wait on a shared memory

A thread that publishes an exit first makes the interrupt predicate of the waits true, for good,
and then runs `turbowasm_instance_interrupt_waiters`, which signals the condition of each slot in
use (`instance_state.c`, `wasi_threads.c`).  The predicate is stored without the waiter mutex.  A
locked step of a wait asks it once, so a store that falls inside such a step is a store before the
step, when the step reads it, and a store after the step, when it does not: `raise` is a step of
its own between the locked steps of `Memory/Wait.lean`, and the pass over a memory, which holds the
mutex, is another.

No thread sleeps through the pass.  One that has read the predicate as false holds the mutex until
it sleeps, in a slot of its own that is in use, so the signal for that slot is for it; one that
would sleep after the predicate is true ends interrupted instead.
-/
import TurboWasm.Memory.WaitRun

namespace TurboWasm

open Option Function

/-! ## 1. The interrupting thread -/

/-- How far the interrupting thread is: before its store, after it, after its pass over the
memory. -/
inductive InterruptPhase where
  | quiet
  | raised
  | finished
  deriving DecidableEq, Repr

structure InterruptWorld where
  wait : WaitWorld
  phase : InterruptPhase
  /-- The threads that a signal was sent to since the predicate became true, and since they
  blocked. -/
  signalled : Nat → Prop

def InterruptWorld.start (memory : Memory) (scMutex : Bool) : InterruptWorld :=
  ⟨.start memory scMutex, .quiet, fun _ => False⟩

/-- The thread whose wait takes the step. -/
def WaitEvent.waiter : WaitEvent → Option Nat
  | .enter t _ _ _ => some t
  | .resume t _ _ => some t
  | .notify _ _ _ => none
  | .mutate _ => none

/-- What the interrupt predicate answers to a wait that asks it in this step: from the store on it
is true, and before it anything. -/
def WaitEvent.Asks (raised : Bool) : WaitEvent → Prop
  | .enter _ _ _ o => raised → o.interrupt
  | .resume _ _ o => raised → o.interrupt
  | .notify _ _ _ => True
  | .mutate _ => True

/-- The body of `turbowasm_instance_interrupt_waiters` for one memory: the slots whose condition it
signals. -/
def interruptWaiters (w : WaitWorld) : List Nat :=
  if !w.memory.shared || !w.waiterMutex then []
  else (List.range w.waiters.length).filter fun i =>
    ((w.waiters[i]?).map MemoryWaiter.active).getD false

/-- `woken i` is the thread that a signal on the condition of slot `i` wakes: one of the threads
blocked on it, and none only if there is none. -/
def WaitWorld.Wakes (w : WaitWorld) (woken : Nat → Option Nat) : Prop :=
  ∀ i, (∀ t, woken i = some t → ∃ z, w.sleepers t = some z ∧ z.slot = i) ∧
    (woken i = none → ∀ t z, w.sleepers t = some z → z.slot ≠ i)

/-- A step of a waiting, a notifying or the interrupting thread. -/
inductive InterruptStep (P : Platform) (w : InterruptWorld) : InterruptWorld → Prop where
  | locked {e : WaitEvent} {answer : Option WaitAnswer} {w' : WaitWorld} :
      e.Asks (decide (w.phase ≠ .quiet)) → e.apply P w.wait = some (answer, w') →
      InterruptStep P w { w with
        wait := w'
        signalled := fun t => w.signalled t ∧ e.waiter ≠ some t }
  | raise : w.phase = .quiet → InterruptStep P w { w with phase := .raised }
  | interrupt {woken : Nat → Option Nat} : w.phase ≠ .quiet → w.wait.Wakes woken →
      InterruptStep P w { w with
        phase := .finished
        signalled := fun t => w.signalled t ∨ ∃ i ∈ interruptWaiters w.wait, woken i = some t }

/-! ## 2. What a locked step leaves -/

section Turn

variable {P : Platform} {w w' : WaitWorld} {t : Nat} {z : Sleeper}

/-- What a turn leaves alone, and who sleeps after it. -/
theorem Turn.frame {o : Outside} {failed : Bool} (h : Turn w t z x o failed w') :
    w'.waiterMutex = w.waiterMutex ∧ (o.interrupt → w'.sleepers = update w.sleepers t none) := by
  rcases h with ⟨-, hint, rfl⟩ | ⟨status, interrupted, rfl, -⟩
  · refine ⟨rfl, fun hi => ?_⟩
    rw [hint] at hi
    cases hi
  · exact ⟨rfl, fun _ => rfl⟩

/-- Once the predicate is true, a locked step puts no thread to sleep, and a wait that takes one
does not sleep after it. -/
theorem LockedChange.frame {e : WaitEvent} (h : LockedChange P w e w') :
    w'.waiterMutex = w.waiterMutex ∧
    (e.Asks true → ∀ t z, w'.sleepers t = some z → w.sleepers t = some z ∧ e.waiter ≠ some t) := by
  have herase : ∀ {t t' : Nat} {z : Sleeper}, update w.sleepers t none t' = some z →
      w.sleepers t' = some z ∧ some t ≠ some t' := by
    intro t t' z hz
    by_cases ht : t' = t
    · subst ht
      simp at hz
    · rw [update_of_ne ht] at hz
      exact ⟨hz, fun heq => ht (some.inj heq).symm⟩
  cases h with
  | refused hnone =>
    refine ⟨rfl, fun _ t' z hz => herase ?_⟩
    rwa [← hnone, update_eq_self]
  | entered hnone hx hfree hsc hsh hturn =>
    refine ⟨hturn.frame.1, fun hask t' z hz => herase ?_⟩
    rwa [hturn.frame.2 (hask rfl), WaitWorld.registered, update_idem] at hz
  | resumed hz hx hturn =>
    refine ⟨hturn.frame.1, fun hask t' z' hz' => herase ?_⟩
    rwa [hturn.frame.2 (hask rfl)] at hz'
  | @notified address offset count =>
    rcases memoryNotify_cases P w address offset count with ⟨answer, heq, -⟩ | heq <;> rw [heq] <;>
      exact ⟨rfl, fun _ t z hz => ⟨hz, (some_ne_none t).symm⟩⟩
  | mutated => exact ⟨rfl, fun _ t z hz => ⟨hz, (some_ne_none t).symm⟩⟩

/-! ## 3. Waits that have ended -/

/-- The ticket of a wait that has ended is no waiter's, and a wait that ended interrupted was not
counted. -/
def EndedApart (w : WaitWorld) : Prop :=
  ∀ k answer, (k, answer) ∈ w.ended → k < w.tickets ∧
    (∀ (i : Nat) (y : MemoryWaiter), w.waiters[i]? = some y → y.active → y.ticket ≠ k) ∧
    (answer = .failed .interrupted → k ∉ w.counted)

theorem waitAnswer_interrupted
    (h : waitAnswer scMutex notified status interrupted = .failed .interrupted) : interrupted := by
  cases interrupted with
  | true => rfl
  | false =>
    revert h
    cases scMutex <;> cases notified <;> cases status <;> decide

theorem Turn.endedApart (hok : WaitOk w) (hz : w.sleepers t = some z)
    (hx : w.waiters[z.slot]? = some x) (h : EndedApart w) (hturn : Turn w t z x o failed w') :
    EndedApart w' := by
  rcases hturn with ⟨-, -, rfl⟩ | ⟨status, interrupted, rfl, -, hint, -⟩
  · exact h
  have hactive : x.active := by
    obtain ⟨x', hx', ha⟩ := hok.sleeping t z hz
    rw [hx] at hx'
    cases hx'
    exact ha
  -- a slot in use after the turn was in use before it, and is not the one given back
  have hold : ∀ i y, (w.waiters.set z.slot
      { x with active := false, notified := false, address := 0 })[i]? = some y →
      y.active → i ≠ z.slot ∧ w.waiters[i]? = some y := by
    intro i y hy ha
    rw [Lib.getElem?_set_of hx] at hy
    split at hy
    · cases hy
      cases ha
    · exact ⟨by assumption, hy⟩
  intro k answer hmem
  rcases List.mem_cons.mp hmem with heq | hmem
  · simp only [Prod.mk.injEq] at heq
    obtain ⟨rfl, rfl⟩ := heq
    refine ⟨hok.ticketLt _ _ hx hactive, fun i y hy ha heq => ?_, fun hans hcounted => ?_⟩
    · obtain ⟨hne, hy⟩ := hold i y hy ha
      exact hne (hok.ticketInj i _ y x hy hx ha hactive heq)
    · have hno := hint (waitAnswer_interrupted hans)
      rw [(hok.countedIff _ _ hx hactive).mp hcounted] at hno
      cases hno
  · obtain ⟨hlt, hne, hcount⟩ := h k answer hmem
    exact ⟨hlt, fun i y hy ha => hne i y (hold i y hy ha).2 ha, hcount⟩

theorem LockedChange.endedApart (hok : WaitOk w)
    (hb : w.Balance lost) (h : EndedApart w) (hc : LockedChange P w e w') : EndedApart w' := by
  cases hc with
  | refused => exact h
  | entered hnone hx hfree hsc hsh hturn =>
    obtain ⟨hok', -⟩ := register_ok hok hnone _ _ hx hfree hsc hsh hb
    refine hturn.endedApart hok' (by simp [WaitWorld.registered])
      (by simp [WaitWorld.registered, Lib.getElem?_set_of hx]) ?_
    -- the new ticket is larger than that of any wait that has ended
    intro k answer hmem
    obtain ⟨hlt, hne, hcount⟩ := h k answer hmem
    refine ⟨Nat.lt_succ_of_lt hlt, fun i y hy ha => ?_, hcount⟩
    simp only [WaitWorld.registered, Lib.getElem?_set_of hx] at hy
    split at hy
    · cases hy
      exact hlt.ne'
    · exact hne i y hy ha
  | resumed hz hx hturn => exact hturn.endedApart hok hz hx h
  | @notified address offset count =>
    rcases memoryNotify_cases P w address offset count with ⟨answer, heq, -⟩ | heq <;> rw [heq]
    · exact h
    intro k answer hmem
    obtain ⟨hlt, hne, hcount⟩ := h k answer hmem
    refine ⟨hlt, fun i y hy ha => ?_, fun hans hcounted => ?_⟩
    · obtain ⟨x, hx, hxa, hxt, -⟩ := notifyLoop_back _ _ hok.distinct hy
      rw [hxt]
      exact hne i x hx (hxa ▸ ha)
    · rcases List.mem_append.mp hcounted with hnew | hcounted
      · obtain ⟨i, x, hx, ha, -, heq⟩ := notifyLoop_counted _ _ (List.mem_reverse.mp hnew)
        exact hne i x hx ha heq
      · exact hcount hans hcounted
  | mutated => exact h

end Turn

/-! ## 4. Runs -/

/-- What holds between any two steps, for waits that started with `memory`. -/
structure InterruptOk (P : Platform) (memory : Memory) (scMutex : Bool) (w : InterruptWorld) :
    Prop where
  run : ∃ lost, WaitRun P (.start memory scMutex) lost w.wait
  mutex : w.wait.waiterMutex
  apart : EndedApart w.wait
  reached : w.phase = .finished → ∀ t z, w.wait.sleepers t = some z → w.signalled t

section Runs

variable {P : Platform} {memory : Memory} {scMutex : Bool} {w : InterruptWorld}

theorem InterruptOk.start : InterruptOk P memory scMutex (.start memory scMutex) :=
  ⟨⟨0, .refl⟩, rfl, fun _ _ hmem => (nomatch hmem), fun hphase => (nomatch hphase)⟩

/-- The pass signals the slot of each thread that sleeps, and the thread has it to itself. -/
theorem InterruptOk.signals (h : InterruptOk P memory scMutex w) {woken : Nat → Option Nat}
    (hwoken : w.wait.Wakes woken) (hz : w.wait.sleepers t = some z) :
    ∃ i ∈ interruptWaiters w.wait, woken i = some t := by
  obtain ⟨lost, hrun⟩ := h.run
  have hok := hrun.ok.1
  obtain ⟨x, hx, ha⟩ := hok.sleeping t z hz
  refine ⟨z.slot, ?_, ?_⟩
  · obtain ⟨hlt, hxe⟩ := getElem?_eq_some_iff.mp hx
    simp [interruptWaiters, (hok.locks _ _ hx ha).2, h.mutex, hlt, hxe, ha]
  obtain ⟨hblocked, hnone⟩ := hwoken z.slot
  cases hw : woken z.slot with
  | none => exact absurd rfl (hnone hw t z hz)
  | some t' =>
    obtain ⟨z', hz', hslot⟩ := hblocked t' hw
    rw [hok.slotInj t' t z' z hz' hz hslot]

theorem InterruptStep.ok (h : InterruptOk P memory scMutex w) (hs : InterruptStep P w w') :
    InterruptOk P memory scMutex w' := by
  cases hs with
  | locked hask he =>
    obtain ⟨lost, hrun⟩ := h.run
    obtain ⟨hmutex, hsleep⟩ := (WaitEvent.apply_change he).frame
    refine ⟨⟨_, hrun.step he⟩, hmutex.trans h.mutex,
      (WaitEvent.apply_change he).endedApart hrun.ok.1 hrun.ok.2 h.apart, ?_⟩
    intro hphase t z hz
    rw [hphase] at hask
    obtain ⟨hz, hne⟩ := hsleep hask t z hz
    exact ⟨h.reached hphase t z hz, hne⟩
  | raise hphase => exact ⟨h.run, h.mutex, h.apart, fun hfin => nomatch hfin⟩
  | interrupt hphase hwoken =>
    exact ⟨h.run, h.mutex, h.apart, fun _ t z hz => .inr (h.signals hwoken hz)⟩

/-- **No interrupt is lost by a sleeping waiter.**  In every run, once the pass over the memory is
over, a signal was sent to every thread that sleeps on one of its conditions since the predicate
became true.  A wait that ended interrupted is counted by no notify, before or after. -/
theorem interrupt_reaches_sleepers {P : Platform} {memory : Memory} {scMutex : Bool}
    {w : InterruptWorld}
    (hrun : Relation.ReflTransGen (InterruptStep P) (.start memory scMutex) w) :
    (w.phase = .finished → ∀ t z, w.wait.sleepers t = some z → w.signalled t) ∧
    ∀ k, (k, .failed .interrupted) ∈ w.wait.ended → k ∉ w.wait.counted := by
  have hok : InterruptOk P memory scMutex w := by
    induction hrun with
    | refl => exact .start
    | tail _ hs ih => exact hs.ok ih
  exact ⟨hok.reached, fun k hmem => (hok.apart k _ hmem).2.2 rfl⟩

/-- A thread sleeps without a deadline. -/
def sleepingWorld : WaitWorld :=
  WaitEvent.next (.start sharedWord true) (.enter 0 ⟨0, 0, false, 0, -1⟩ 0 ⟨0, false⟩)

/-- The predicate becomes true while a thread sleeps, and the pass signals its condition. -/
theorem interrupt_reaches_sleepers_one : ∃ w : InterruptWorld, w.phase = .finished ∧
    w.wait.sleepers 0 = some ⟨0, none⟩ ∧ w.signalled 0 := by
  have hblocked : ∀ t z, sleepingWorld.sleepers t = some z → z.slot = 0 := by
    intro t z hz
    by_cases ht : t = 0
    · subst ht
      cases hz
      rfl
    · rw [show sleepingWorld.sleepers t = none from update_of_ne ht _ _] at hz
      cases hz
  have hwoken : sleepingWorld.Wakes fun i => if i = 0 then some 0 else none := by
    intro i
    by_cases hi : i = 0
    · subst hi
      exact ⟨fun t ht => ⟨⟨0, none⟩, by cases ht; rfl, rfl⟩, fun hno => nomatch hno⟩
    · refine ⟨fun t ht => ?_, fun _ t z hz heq => hi (heq.symm.trans (hblocked t z hz))⟩
      simp [hi] at ht
  have hsleep : WaitEvent.apply sharedPlatform (.start sharedWord true)
      (.enter 0 ⟨0, 0, false, 0, -1⟩ 0 ⟨0, false⟩) = some (none, sleepingWorld) := rfl
  have hrun := ((Relation.ReflTransGen.refl.tail
    (InterruptStep.locked (w := .start sharedWord true) (by intro h; cases h) hsleep)).tail
      (.raise rfl)).tail (.interrupt (fun hphase => nomatch hphase) hwoken)
  exact ⟨_, rfl, rfl, (interrupt_reaches_sleepers hrun).1 rfl 0 ⟨0, none⟩ rfl⟩

end Runs

end TurboWasm
