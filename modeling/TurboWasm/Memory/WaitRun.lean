/-
# Every interleaving of wait and notify

The invariant (`WaitOk`) ties the slot flags to the counters and to the threads that sleep, and the
balance (`WaitWorld.Balance`) says where the counts that notifies returned have gone: to waits that
ended with result 0, to waiters that are notified and have not run yet, and to waits that were lost.

A wait is lost when its timed condition wait returns with an error after the waiter has been
notified: the notify has counted it, and the call returns `TURBOWASM_UNSUPPORTED`.  Nothing else is
ever lost, so the conservation law holds exactly in the runs without such a step.
-/
import Mathlib.Data.List.Nodup
import TurboWasm.Lib.Lists
import TurboWasm.Memory.Wait

namespace TurboWasm

open Lib List Option Function WaitWorld WaitEvent

/-! ## 1. The invariant -/

/-- Waiters that a notify has counted and that have not run since. -/
def WaitWorld.inFlight (w : WaitWorld) : Nat :=
  w.waiters.countP fun x => x.active && x.notified

/-- Waits that ended with result 0. -/
def WaitWorld.wokenEnds (w : WaitWorld) : Nat := w.ended.countP fun e => e.2 == .result 0

/-- Where the returned counts have gone, when `lost` of them were lost. -/
def WaitWorld.Balance (w : WaitWorld) (lost : Nat) : Prop :=
  w.returned = w.wokenEnds + w.inFlight + lost

/-- What holds between any two locked steps. -/
structure WaitOk (w : WaitWorld) : Prop where
  length : w.waiters.length = memoryWaiterCapacity
  count : w.waiterCount = w.waiters.countP fun x => x.active
  /-- A thread that sleeps has a slot of its own, and a slot in use has such a thread. -/
  sleeping : ∀ t z, w.sleepers t = some z → ∃ x, w.waiters[z.slot]? = some x ∧ x.active
  slotInj : ∀ t t' z z', w.sleepers t = some z → w.sleepers t' = some z' → z.slot = z'.slot → t = t'
  owned : ∀ (i : Nat) (x : MemoryWaiter), w.waiters[i]? = some x → x.active →
    ∃ t z, w.sleepers t = some z ∧ z.slot = i
  locks : ∀ (i : Nat) (x : MemoryWaiter), w.waiters[i]? = some x → x.active →
    w.scMutex ∧ w.memory.shared
  ticketLt : ∀ (i : Nat) (x : MemoryWaiter), w.waiters[i]? = some x → x.active →
    x.ticket < w.tickets
  ticketInj : ∀ (i j : Nat) (x y : MemoryWaiter), w.waiters[i]? = some x → w.waiters[j]? = some y →
    x.active → y.active → x.ticket = y.ticket → i = j
  countedLt : ∀ k ∈ w.counted, k < w.tickets
  countedNodup : w.counted.Nodup
  countedIff : ∀ (i : Nat) (x : MemoryWaiter), w.waiters[i]? = some x → x.active →
    (x.ticket ∈ w.counted ↔ x.notified)
  returned : w.returned = w.counted.length
  ended : ∀ e ∈ w.ended, e.2 ≠ .result 1

theorem WaitOk.start (memory : Memory) (scMutex : Bool) : WaitOk (.start memory scMutex) := by
  have hoff : ∀ (i : Nat) x,
      (WaitWorld.start memory scMutex).waiters[i]? = some x → ¬ x.active := by
    intro i x hx
    have hmem := mem_of_getElem? hx
    rw [eq_of_mem_replicate hmem]
    simp
  refine ⟨by simp [WaitWorld.start], ?_, ?_, ?_, fun i x hx ha => absurd ha (hoff i x hx),
    fun i x hx ha => absurd ha (hoff i x hx), fun i x hx ha => absurd ha (hoff i x hx),
    fun i j x y hx _ ha => absurd ha (hoff i x hx), ?_, nodup_nil,
    fun i x hx ha => absurd ha (hoff i x hx), rfl, ?_⟩
  · simp [WaitWorld.start, countP_replicate]
  · intro t z hz
    cases hz
  · intro t t' z z' hz
    cases hz
  · intro k hk
    cases hk
  · intro e he
    cases he

theorem start_balance (memory : Memory) (scMutex : Bool) : (start memory scMutex).Balance 0 := by
  simp [WaitWorld.Balance, start, wokenEnds, inFlight, countP_replicate]

/-! ## 2. Leaving -/

section Finish

variable {w : WaitWorld} {t : Nat} {z : Sleeper} {x : MemoryWaiter}

theorem waitAnswer_ne_one (scMutex notified : Bool) (status : CondStatus) (interrupted : Bool) :
    waitAnswer scMutex notified status interrupted ≠ .result 1 := by
  cases scMutex <;> cases notified <;> cases status <;> cases interrupted <;> decide

/-- Which waits end with result 0: those that were notified, but for a failed condition wait. -/
theorem waitAnswer_woken {notified : Bool} {status : CondStatus} {interrupted : Bool}
    (hint : interrupted → notified = false)
    (hleave : notified = false → interrupted ∨ status ≠ .success) :
    waitAnswer true notified status interrupted = .result 0 ↔ notified ∧ status ≠ .error := by
  cases notified <;> cases status <;> cases interrupted <;> simp_all [waitAnswer]

/-- The end of a wait. -/
theorem waitFinish_ok (h : WaitOk w) (hz : w.sleepers t = some z)
    (hx : w.waiters[z.slot]? = some x) (status : CondStatus) (interrupted : Bool) :
    WaitOk (waitFinish w t z.slot x status interrupted).2 := by
  obtain ⟨x', hx', hact⟩ := h.sleeping t z hz
  rw [hx] at hx'
  cases hx'
  generalize hy : ({ x with active := false, notified := false, address := 0 } : MemoryWaiter) = y
  have hya : y.active = false := by rw [← hy]
  have hget := getElem?_set_of hx y
  have hcnt := countP_set_of (fun x : MemoryWaiter => x.active) (b := y) hx
  simp only [hact, hya, ↓reduceIte, Bool.false_eq_true] at hcnt
  -- a slot in use afterwards is another slot, and was in use before
  have hother : ∀ i (v : MemoryWaiter), (w.waiters.set z.slot y)[i]? = some v →
      v.active → i ≠ z.slot ∧ w.waiters[i]? = some v := by
    intro i v hv ha
    rw [hget] at hv
    split at hv
    · cases hv
      rw [hya] at ha
      cases ha
    · exact ⟨‹_›, hv⟩
  simp only [waitFinish, hy]
  refine ⟨by simpa using h.length, ?_, ?_, ?_, ?_, ?_, ?_, ?_, h.countedLt, h.countedNodup, ?_,
    h.returned, ?_⟩
  · have hc := h.count
    simp only
    split <;> omega
  · intro t' z' hz'
    simp only [update_apply] at hz'
    split at hz'
    · cases hz'
    · rename_i hne
      obtain ⟨v, hv, hva⟩ := h.sleeping t' z' hz'
      have hslot : z'.slot ≠ z.slot := fun heq => hne (h.slotInj t' t z' z hz' hz heq)
      exact ⟨v, by simp only [hget, if_neg hslot, hv], hva⟩
  · intro t1 t2 z1 z2 h1 h2 heq
    simp only [update_apply] at h1 h2
    split at h1
    · cases h1
    · split at h2
      · cases h2
      · exact h.slotInj t1 t2 z1 z2 h1 h2 heq
  · intro i v hv ha
    obtain ⟨hi, hv'⟩ := hother i v hv ha
    obtain ⟨t', z', hz', hslot⟩ := h.owned i v hv' ha
    have hne : t' ≠ t := by
      rintro rfl
      rw [hz] at hz'
      cases hz'
      exact hi hslot.symm
    exact ⟨t', z', by simp only [update_of_ne hne, hz'], hslot⟩
  · intro i v hv ha
    exact h.locks i v (hother i v hv ha).2 ha
  · intro i v hv ha
    exact h.ticketLt i v (hother i v hv ha).2 ha
  · intro i j v v' hv hv' ha ha'
    exact h.ticketInj i j v v' (hother i v hv ha).2 (hother j v' hv' ha').2 ha ha'
  · intro i v hv ha
    exact h.countedIff i v (hother i v hv ha).2 ha
  · intro e he
    rcases mem_cons.mp he with rfl | he
    · exact waitAnswer_ne_one _ _ _ _
    · exact h.ended e he

/-- A wait that ends takes its count along, unless it was notified and its condition wait failed. -/
theorem waitFinish_balance (h : WaitOk w) (hz : w.sleepers t = some z)
    (hx : w.waiters[z.slot]? = some x) {status : CondStatus} {interrupted : Bool}
    (hint : interrupted → x.notified = false)
    (hleave : x.notified = false → interrupted ∨ status ≠ .success) {lost : Nat}
    (hb : w.Balance lost) : (waitFinish w t z.slot x status interrupted).2.Balance
      (if x.notified ∧ status = .error then lost + 1 else lost) := by
  obtain ⟨x', hx', hact⟩ := h.sleeping t z hz
  rw [hx] at hx'
  cases hx'
  have hsc := (h.locks z.slot x hx hact).1
  have hcnt := countP_set_of (fun x : MemoryWaiter => x.active && x.notified)
    (b := { x with active := false, notified := false, address := 0 }) hx
  simp only [hact, Bool.true_and, Bool.and_self, Bool.false_eq_true]
    at hcnt
  simp only [WaitWorld.Balance, wokenEnds, inFlight] at hb
  have hans := waitAnswer_woken hint hleave
  simp only [WaitWorld.Balance, wokenEnds, inFlight, waitFinish, countP_cons, hsc, beq_iff_eq, hans]
  cases hn : x.notified with
  | true =>
    simp only [hn, ↓reduceIte, true_and] at hcnt ⊢
    by_cases hs : status = .error
    · simp only [hs, ne_eq, not_true_eq_false, ↓reduceIte]
      omega
    · simp only [hs, ne_eq, not_false_eq_true, ↓reduceIte]
      omega
  | false =>
    simp only [hn, Bool.false_eq_true, ↓reduceIte, false_and] at hcnt ⊢
    omega

end Finish

/-! ## 3. Sleeping and entering -/

section Enter

variable {w w' : WaitWorld} {t : Nat} {z : Sleeper} {x : MemoryWaiter} {lost : Nat}

/-- A turn of the loop: the thread sleeps, the predicate having been false, or it leaves; `failed`
says that it was notified and its condition wait failed. -/
def Turn (w : WaitWorld) (t : Nat) (z : Sleeper) (x : MemoryWaiter) (o : Outside) (failed : Bool)
    (w' : WaitWorld) : Prop :=
  (failed = false ∧ o.interrupt = false ∧
      w' = { w with sleepers := update w.sleepers t (some z) }) ∨
    ∃ status interrupted, w' = (waitFinish w t z.slot x status interrupted).2 ∧
      (failed ↔ x.notified ∧ status = .error) ∧
      (interrupted → x.notified = false) ∧
      (x.notified = false → interrupted ∨ status ≠ .success)

theorem waitHead_turn (w : WaitWorld) (t : Nat) (z : Sleeper) (x : MemoryWaiter) (o : Outside) :
    Turn w t z x o false (waitHead w t z x o).2 := by
  unfold waitHead
  split
  · rename_i hn
    exact .inr ⟨.success, false, rfl, by simp, by simp, fun hno => by simp [hn] at hno⟩
  rename_i hn
  split
  · exact .inr ⟨.success, true, rfl, by simp, fun _ => by simpa using hn, fun _ => .inl rfl⟩
  rename_i hint
  have hint : o.interrupt = false := by simpa using hint
  split
  · exact .inl ⟨rfl, hint, rfl⟩
  split
  · exact .inr ⟨.timedOut, false, rfl, by simp, by simp, fun _ => .inr (by decide)⟩
  · exact .inl ⟨rfl, hint, rfl⟩

/-- **A turn of the loop** keeps the invariant and the balance. -/
theorem Turn.ok {o : Outside} {failed : Bool} (h : WaitOk w) (hz : w.sleepers t = some z)
    (hx : w.waiters[z.slot]? = some x) (hb : w.Balance lost) (hturn : Turn w t z x o failed w') :
    WaitOk w' ∧ w'.Balance (if failed then lost + 1 else lost) := by
  rcases hturn with ⟨rfl, -, rfl⟩ | ⟨status, interrupted, rfl, hfailed, hint, hleave⟩
  · rw [← hz, update_eq_self]
    exact ⟨h, hb⟩
  · simp only [hfailed]
    exact ⟨waitFinish_ok h hz hx status interrupted, waitFinish_balance h hz hx hint hleave hb⟩

/-- `w` with a waiter published in `slot` for thread `t`. -/
def WaitWorld.registered (w : WaitWorld) (t slot effective : Nat) (deadline : Option Nat) :
    WaitWorld :=
  { w with
    waiters := w.waiters.set slot ⟨effective, true, false, w.tickets⟩
    waiterCount := w.waiterCount + 1
    tickets := w.tickets + 1
    sleepers := update w.sleepers t (some ⟨slot, deadline⟩) }

/-- Publishing a waiter in a free slot. -/
theorem register_ok (h : WaitOk w) (hnone : w.sleepers t = none) (effective : Nat)
    (deadline : Option Nat) (hslot : w.waiters[slot]? = some x) (hfree : x.active = false)
    (hsc : w.scMutex) (hshared : w.memory.shared) (hb : w.Balance lost) :
    WaitOk (w.registered t slot effective deadline) ∧
      (w.registered t slot effective deadline).Balance lost := by
  unfold registered
  generalize hy : (⟨effective, true, false, w.tickets⟩ : MemoryWaiter) = y
  have hya : y.active := by rw [← hy]
  have hyn : y.notified = false := by rw [← hy]
  have hyt : y.ticket = w.tickets := by rw [← hy]
  have hget := getElem?_set_of hslot y
  have hcnt := countP_set_of (fun x : MemoryWaiter => x.active) (b := y) hslot
  have hcnt' := countP_set_of (fun x : MemoryWaiter => x.active && x.notified) (b := y) hslot
  simp only [hfree, hya, hyn, ↓reduceIte, Bool.false_eq_true, Bool.false_and,
    Bool.and_false] at hcnt hcnt'
  have hcases : ∀ i v, (w.waiters.set slot y)[i]? = some v →
      (i = slot ∧ v = y) ∨ (i ≠ slot ∧ w.waiters[i]? = some v) := by
    intro i v hv
    rw [hget] at hv
    split at hv
    · exact .inl ⟨‹_›, (some.inj hv).symm⟩
    · exact .inr ⟨‹_›, hv⟩
  -- no thread sleeps in the slot yet
  have hfresh : ∀ t' z', w.sleepers t' = some z' → z'.slot ≠ slot := by
    intro t' z' hz' heq
    obtain ⟨v, hv, hva⟩ := h.sleeping t' z' hz'
    rw [heq, hslot] at hv
    cases hv
    rw [hfree] at hva
    cases hva
  refine ⟨⟨by simpa using h.length, ?_, ?_, ?_, ?_, ?_, ?_, ?_, ?_, h.countedNodup, ?_, h.returned,
    h.ended⟩, ?_⟩
  · have := h.count
    simp only
    omega
  · intro t' z' hz'
    simp only [update_apply] at hz'
    split at hz'
    · cases hz'
      exact ⟨y, by simp only [hget, ↓reduceIte], hya⟩
    · obtain ⟨v, hv, hva⟩ := h.sleeping t' z' hz'
      exact ⟨v, by simp only [hget, if_neg (hfresh t' z' hz'), hv], hva⟩
  · intro t1 t2 z1 z2 h1 h2 heq
    simp only [update_apply] at h1 h2
    split at h1
    · split at h2
      · subst_vars
        rfl
      · cases h1
        exact absurd heq.symm (hfresh t2 z2 h2)
    · split at h2
      · cases h2
        exact absurd heq (hfresh t1 z1 h1)
      · exact h.slotInj t1 t2 z1 z2 h1 h2 heq
  · intro i v hv ha
    rcases hcases i v hv with ⟨rfl, -⟩ | ⟨-, hv'⟩
    · exact ⟨t, ⟨i, deadline⟩, by simp, rfl⟩
    obtain ⟨t', z', hz', hslot'⟩ := h.owned i v hv' ha
    have hne : t' ≠ t := by
      rintro rfl
      rw [hnone] at hz'
      cases hz'
    exact ⟨t', z', by simp only [update_of_ne hne, hz'], hslot'⟩
  · intro i v hv ha
    exact ⟨hsc, hshared⟩
  · intro i v hv ha
    rcases hcases i v hv with ⟨-, rfl⟩ | ⟨-, hv'⟩
    · simp only [hyt]
      omega
    · exact Nat.lt_succ_of_lt (h.ticketLt i v hv' ha)
  · intro i j v v' hv hv' ha ha' heq
    rcases hcases i v hv with ⟨hi, rfl⟩ | ⟨-, hv1⟩ <;>
      rcases hcases j v' hv' with ⟨hj, rfl⟩ | ⟨-, hv2⟩
    · rw [hi, hj]
    · have := h.ticketLt j v' hv2 ha'
      omega
    · have := h.ticketLt i v hv1 ha
      omega
    · exact h.ticketInj i j v v' hv1 hv2 ha ha' heq
  · intro k hk
    exact Nat.lt_succ_of_lt (h.countedLt k hk)
  · intro i v hv ha
    rcases hcases i v hv with ⟨-, rfl⟩ | ⟨-, hv'⟩
    · rw [hyn, hyt]
      refine ⟨fun hmem => ?_, fun hno => nomatch hno⟩
      have := h.countedLt _ hmem
      omega
    · exact h.countedIff i v hv' ha
  · simp only [WaitWorld.Balance, wokenEnds, inFlight] at hb ⊢
    omega

theorem acquireSlot_free {waiters : List MemoryWaiter} {slot : Nat}
    (h : acquireSlot waiters = some slot) : ∃ x, waiters[slot]? = some x ∧ x.active = false := by
  obtain ⟨hlt, hp, -⟩ := findIdx?_eq_some_iff_getElem.mp h
  exact ⟨waiters[slot], getElem?_eq_getElem hlt, by simpa using hp⟩

/-- What a wait can do before its first condition wait: return at once and change nothing, or
register. -/
theorem waitEnter_cases (P : Platform) (w : WaitWorld) (t : Nat) (a : WaitArgs) (start : Nat)
    (o : Outside) : (∃ answer, waitEnter P w t a start o = (some answer, w)) ∨
      ∃ slot x, w.waiters[slot]? = some x ∧ x.active = false ∧ w.scMutex ∧
        w.memory.shared ∧ waitEnter P w t a start o =
          waitRegister w t slot ((a.address + a.offset) % 2 ^ 64) a.timeout start o := by
  unfold waitEnter
  dsimp only
  split
  · exact .inl ⟨_, rfl⟩
  split
  · exact .inl ⟨_, rfl⟩
  rename_i hshared
  split
  · exact .inl ⟨_, rfl⟩
  split
  · exact .inl ⟨_, rfl⟩
  rename_i hsc
  split
  · exact .inl ⟨_, rfl⟩
  · exact .inl ⟨_, rfl⟩
  split
  · exact .inl ⟨_, rfl⟩
  split
  · exact .inl ⟨_, rfl⟩
  split
  · exact .inl ⟨_, rfl⟩
  · rename_i slot hslot
    obtain ⟨x, hx, hfree⟩ := acquireSlot_free hslot
    exact .inr ⟨slot, x, hx, hfree, by simpa using hsc, by simpa using hshared, rfl⟩

/-- The head of the loop does not look at the thread's own entry. -/
theorem waitHead_update (o : Outside) : waitHead w t z x o =
    waitHead { w with sleepers := update w.sleepers t (some z) } t z x o := by
  simp [waitHead, waitFinish]

end Enter

/-! ## 4. Waking -/

/-- The return of a condition wait. -/
theorem waitResume_turn {w : WaitWorld} (hr : waitResume w t status o = some (answer, w')) :
    ∃ z x, w.sleepers t = some z ∧ w.waiters[z.slot]? = some x ∧
      Turn w t z x o ((resume t status o).failedWake w) w' := by
  simp only [waitResume, Option.bind_eq_bind, Option.bind_eq_some_iff] at hr
  obtain ⟨⟨slot, deadline⟩, hz, x, hx, hr⟩ := hr
  refine ⟨⟨slot, deadline⟩, x, hz, hx, ?_⟩
  have hhead : some (waitHead w t ⟨slot, deadline⟩ x o) = some (answer, w') →
      (resume t status o).failedWake w = false →
      Turn w t ⟨slot, deadline⟩ x o ((resume t status o).failedWake w) w' := by
    intro heq hno
    have hturn := waitHead_turn w t ⟨slot, deadline⟩ x o
    rwa [some.inj heq, ← hno] at hturn
  cases deadline with
  | none => exact hhead hr (by cases status <;> simp [failedWake, hz])
  | some d =>
    have hfailed : (resume t status o).failedWake w ↔
        x.notified ∧ status = .error := by
      cases status <;> simp [failedWake, hz, hx]
    by_cases hleave : x.notified ∨ status ≠ .success
    · simp only [if_pos hleave] at hr
      obtain ⟨-, rfl⟩ := hr
      refine .inr ⟨status, false, rfl, hfailed, by simp, fun hno => .inr ?_⟩
      exact hleave.resolve_left (by simp [hno])
    · simp only [if_neg hleave] at hr
      simp only [not_or] at hleave
      exact hhead hr (Bool.eq_false_iff.mpr fun hc => by simp [hleave.1, hc] at hfailed)

/-! ## 5. Notifying -/

section Notify

variable (address count : Nat)

/-- The loop wakes the first waiters that it may, up to its count. -/
theorem notifyLoop_tickets : ∀ (xs : List MemoryWaiter) (woken : Nat),
    (notifyLoop address count woken xs).2.2 =
        ((xs.filter fun x => x.wakes address).take (count - woken)).map MemoryWaiter.ticket ∧
      (notifyLoop address count woken xs).2.1 =
        woken + min (count - woken) (xs.countP fun x => x.wakes address)
  | [], woken => by simp [notifyLoop]
  | x :: rest, woken => by
    unfold notifyLoop
    by_cases hfull : count ≤ woken
    · have hzero : count - woken = 0 := by omega
      simp [hfull]
    rw [if_neg hfull]
    by_cases hw : x.wakes address
    · obtain ⟨ht, hk⟩ := notifyLoop_tickets rest (woken + 1)
      obtain ⟨m, hm⟩ : ∃ m, count - woken = m + 1 := ⟨count - woken - 1, by omega⟩
      have hm' : count - (woken + 1) = m := by omega
      simp only [ht, hk, hm, hm', filter_cons, hw, ↓reduceIte, take_succ_cons,
        map_cons, countP_cons, true_and]
      omega
    · obtain ⟨ht, hk⟩ := notifyLoop_tickets rest woken
      simp [ht, hk, hw]

/-- Tickets of waiters in use are distinct. -/
def DistinctTickets (xs : List MemoryWaiter) : Prop :=
  xs.Pairwise fun x y => x.active → y.active → x.ticket ≠ y.ticket

/-- What the loop does to each waiter: the ones it counts become notified, nothing else changes. -/
theorem notifyLoop_get : ∀ (xs : List MemoryWaiter) (woken : Nat), DistinctTickets xs →
    (notifyLoop address count woken xs).1.length = xs.length ∧
    ∀ (i : Nat) (x : MemoryWaiter), xs[i]? = some x →
      ∃ y, (notifyLoop address count woken xs).1[i]? = some y ∧ y.active = x.active ∧
        y.ticket = x.ticket ∧ (x.active → (y.notified ↔
          x.notified ∨ x.ticket ∈ (notifyLoop address count woken xs).2.2))
  | [], woken, _ => by simp [notifyLoop]
  | x0 :: rest, woken, hd => by
    obtain ⟨hhead, hrest⟩ := pairwise_cons.mp hd
    -- a ticket the rest of the loop counts belongs to a waiter in use further on
    have hlater : ∀ k, x0.active →
        x0.ticket ∉ (notifyLoop address count k rest).2.2 := by
      intro k ha hmem
      rw [(notifyLoop_tickets address count rest k).1] at hmem
      obtain ⟨y, hy, heq⟩ := mem_map.mp hmem
      obtain ⟨hy, hwakes⟩ := mem_filter.mp (mem_of_mem_take hy)
      simp only [MemoryWaiter.wakes, Bool.and_eq_true] at hwakes
      exact hhead y hy ha hwakes.1.1 heq.symm
    unfold notifyLoop
    by_cases hfull : count ≤ woken
    · rw [if_pos hfull]
      exact ⟨rfl, fun i x hx => ⟨x, hx, rfl, rfl, by simp⟩⟩
    rw [if_neg hfull]
    by_cases hw : x0.wakes address
    · obtain ⟨hlen, hget⟩ := notifyLoop_get rest (woken + 1) hrest
      rw [if_pos hw]
      refine ⟨by simp [hlen], fun i x hx => ?_⟩
      cases i with
      | zero =>
        cases hx
        exact ⟨_, rfl, rfl, rfl, by simp⟩
      | succ i =>
        obtain ⟨y, hy, hya, hyt, hyn⟩ := hget i x (by simpa using hx)
        refine ⟨y, by simpa using hy, hya, hyt, fun ha => ?_⟩
        have hne : x.ticket ≠ x0.ticket := by
          simp only [MemoryWaiter.wakes, Bool.and_eq_true] at hw
          exact (hhead x (mem_of_getElem? (by simpa using hx)) hw.1.1 ha).symm
        simp [hyn ha, hne]
    · obtain ⟨hlen, hget⟩ := notifyLoop_get rest woken hrest
      rw [if_neg hw]
      refine ⟨by simp [hlen], fun i x hx => ?_⟩
      cases i with
      | zero =>
        cases hx
        refine ⟨x0, rfl, rfl, rfl, fun ha => ?_⟩
        simp [hlater woken ha]
      | succ i =>
        obtain ⟨y, hy, hya, hyt, hyn⟩ := hget i x (by simpa using hx)
        exact ⟨y, by simpa using hy, hya, hyt, hyn⟩

/-- The loop turns as many waiters to notified as it reports. -/
theorem notifyLoop_inFlight : ∀ (xs : List MemoryWaiter) (woken : Nat),
    ((notifyLoop address count woken xs).1.countP fun x => x.active && x.notified) + woken =
        (xs.countP fun x => x.active && x.notified) + (notifyLoop address count woken xs).2.1 ∧
      ((notifyLoop address count woken xs).1.countP fun x => x.active) =
        xs.countP fun x => x.active
  | [], woken => by simp [notifyLoop]
  | x :: rest, woken => by
    unfold notifyLoop
    by_cases hfull : count ≤ woken
    · simp [hfull]
    rw [if_neg hfull]
    by_cases hw : x.wakes address
    · obtain ⟨h1, h2⟩ := notifyLoop_inFlight rest (woken + 1)
      rw [if_pos hw]
      generalize notifyLoop address count (woken + 1) rest = out at h1 h2 ⊢
      obtain ⟨ys, k, ts⟩ := out
      simp only at h1 h2
      simp only [MemoryWaiter.wakes, Bool.and_eq_true, Bool.not_eq_true'] at hw
      simp only [countP_cons, hw.1.1, hw.1.2, Bool.and_self, Bool.and_false, Bool.false_eq_true,
        ↓reduceIte]
      omega
    · obtain ⟨h1, h2⟩ := notifyLoop_inFlight rest woken
      rw [if_neg hw]
      generalize notifyLoop address count woken rest = out at h1 h2 ⊢
      obtain ⟨ys, k, ts⟩ := out
      simp only at h1 h2
      simp only [countP_cons]
      omega

variable {w : WaitWorld}

theorem WaitOk.distinct (h : WaitOk w) : DistinctTickets w.waiters := by
  refine pairwise_iff_getElem.mpr fun i j hi hj hij ha ha' heq => ?_
  have := h.ticketInj i j _ _ (getElem?_eq_getElem hi) (getElem?_eq_getElem hj) ha ha' heq
  omega

/-- Each waiter that the loop leaves comes from the one at its place. -/
theorem notifyLoop_back (address count : Nat) {xs : List MemoryWaiter} (hd : DistinctTickets xs)
    {i : Nat} {y : MemoryWaiter} (hy : (notifyLoop address count 0 xs).1[i]? = some y) :
    ∃ x, xs[i]? = some x ∧ y.active = x.active ∧ y.ticket = x.ticket ∧ (x.active → (y.notified ↔
        x.notified ∨ x.ticket ∈ (notifyLoop address count 0 xs).2.2)) := by
  obtain ⟨hlen, hget⟩ := notifyLoop_get address count xs 0 hd
  have hlt : i < xs.length := by
    rw [← hlen]
    exact lt_of_getElem? hy
  obtain ⟨y', hy', hfacts⟩ := hget i _ (getElem?_eq_getElem hlt)
  rw [hy] at hy'
  cases hy'
  exact ⟨_, getElem?_eq_getElem hlt, hfacts⟩

/-- Each ticket that the loop counts is that of a waiter in use. -/
theorem notifyLoop_counted (address count : Nat)
    (hmem : k ∈ (notifyLoop address count 0 xs).2.2) : ∃ (i : Nat) (x : MemoryWaiter),
      xs[i]? = some x ∧ x.active ∧ x.notified = false ∧ x.ticket = k := by
  rw [(notifyLoop_tickets address count xs 0).1] at hmem
  obtain ⟨x, hx, hxk⟩ := mem_map.mp hmem
  obtain ⟨hx, hwakes⟩ := mem_filter.mp (mem_of_mem_take hx)
  simp only [MemoryWaiter.wakes, Bool.and_eq_true, Bool.not_eq_true'] at hwakes
  obtain ⟨i, hi⟩ := getElem?_of_mem hx
  exact ⟨i, x, hi, hwakes.1.1, hwakes.1.2, hxk⟩

/-- A notify returns without a change, or runs its loop. -/
theorem memoryNotify_cases (P : Platform) (w : WaitWorld) (address offset count : Nat) :
    (∃ answer, memoryNotify P w address offset count = (answer, w) ∧
      ∀ k, answer = .result k → k = 0 ∧ w.memory.shared = false) ∨
    memoryNotify P w address offset count =
      (.result (notifyLoop ((address + offset) % 2 ^ 64) count 0 w.waiters).2.1, { w with
        waiters := (notifyLoop ((address + offset) % 2 ^ 64) count 0 w.waiters).1
        counted := (notifyLoop ((address + offset) % 2 ^ 64) count 0 w.waiters).2.2.reverse ++
          w.counted
        returned := w.returned +
          (notifyLoop ((address + offset) % 2 ^ 64) count 0 w.waiters).2.1 }) := by
  unfold memoryNotify
  dsimp only
  split
  · exact .inl ⟨_, rfl, fun k hk => nomatch hk⟩
  split
  · exact .inl ⟨_, rfl, fun k hk => nomatch hk⟩
  split
  · exact .inl ⟨_, rfl, fun k hk => nomatch hk⟩
  · exact .inl ⟨_, rfl, fun k hk => nomatch hk⟩
  split
  · rename_i hsh
    refine .inl ⟨_, rfl, fun k hk => ?_⟩
    cases hk
    exact ⟨rfl, by simpa using hsh⟩
  split
  · exact .inl ⟨_, rfl, fun k hk => nomatch hk⟩
  · exact .inr rfl

/-- **A notify** keeps the invariant, and its count goes to the waiters it flags. -/
theorem memoryNotify_ok (P : Platform) (h : WaitOk w) (address offset count : Nat) {lost : Nat}
    (hb : w.Balance lost) : WaitOk (memoryNotify P w address offset count).2 ∧
      (memoryNotify P w address offset count).2.Balance lost := by
  rcases memoryNotify_cases P w address offset count with ⟨answer, heq, -⟩ | heq
  · rw [heq]
    exact ⟨h, hb⟩
  rw [heq]
  generalize (address + offset) % 2 ^ 64 = effective
  obtain ⟨ht, hk⟩ := notifyLoop_tickets effective count w.waiters 0
  obtain ⟨hlen, hget⟩ := notifyLoop_get effective count w.waiters 0 h.distinct
  obtain ⟨hflight, hact⟩ := notifyLoop_inFlight effective count w.waiters 0
  generalize hout : notifyLoop effective count 0 w.waiters = out at ht hk hlen hget hflight hact
  obtain ⟨ys, woken, tickets⟩ := out
  simp only at ht hk hlen hget hflight hact ⊢
  have hback : ∀ (i : Nat) y, ys[i]? = some y → ∃ x, w.waiters[i]? = some x ∧
      y.active = x.active ∧ y.ticket = x.ticket ∧ (x.active →
        (y.notified ↔ x.notified ∨ x.ticket ∈ tickets)) := by
    intro i y hy
    have hb := notifyLoop_back effective count h.distinct (i := i) (y := y)
    rw [hout] at hb
    exact hb hy
  have hfrom : ∀ k ∈ tickets, ∃ (i : Nat) (x : MemoryWaiter), w.waiters[i]? = some x ∧
      x.active ∧ x.notified = false ∧ x.ticket = k := by
    intro k hmem
    refine notifyLoop_counted effective count ?_
    rwa [hout]
  have hnew : ∀ k ∈ tickets, k ∉ w.counted := by
    intro k hmem hcounted
    obtain ⟨i, x, hi, ha, hn, rfl⟩ := hfrom k hmem
    rw [(h.countedIff i x hi ha).mp hcounted] at hn
    cases hn
  have hnodup : tickets.Nodup := by
    rw [ht]
    refine .sublist ((take_sublist _ _).map _) ?_
    rw [List.Nodup, pairwise_map]
    refine .imp_of_mem ?_ (h.distinct.filter _)
    intro x y hx hy hne
    have hxw := (mem_filter.mp hx).2
    have hyw := (mem_filter.mp hy).2
    simp only [MemoryWaiter.wakes, Bool.and_eq_true] at hxw hyw
    exact hne hxw.1.1 hyw.1.1
  have hwoken : tickets.length = woken := by
    rw [ht, hk, length_map, length_take, ← countP_eq_length_filter]
    omega
  refine ⟨⟨hlen.trans h.length, ?_, ?_, h.slotInj, ?_, ?_, ?_, ?_, ?_, ?_, ?_, ?_, h.ended⟩, ?_⟩
  · rw [hact]
    exact h.count
  · intro t z hz
    obtain ⟨x, hx, hxa⟩ := h.sleeping t z hz
    obtain ⟨y, hy, hya, -⟩ := hget _ x hx
    exact ⟨y, hy, hya.trans hxa⟩
  · intro i y hy ha
    obtain ⟨x, hx, hxa, -⟩ := hback i y hy
    exact h.owned i x hx (hxa ▸ ha)
  · intro i y hy ha
    obtain ⟨x, hx, hxa, -⟩ := hback i y hy
    exact h.locks i x hx (hxa ▸ ha)
  · intro i y hy ha
    obtain ⟨x, hx, hxa, hxt, -⟩ := hback i y hy
    rw [hxt]
    exact h.ticketLt i x hx (hxa ▸ ha)
  · intro i j y y' hy hy' ha ha' heq
    obtain ⟨x, hx, hxa, hxt, -⟩ := hback i y hy
    obtain ⟨x', hx', hxa', hxt', -⟩ := hback j y' hy'
    exact h.ticketInj i j x x' hx hx' (hxa ▸ ha) (hxa' ▸ ha') (by rw [← hxt, ← hxt', heq])
  · intro k hmem
    rcases mem_append.mp hmem with hmem | hmem
    · obtain ⟨i, x, hi, ha, -, rfl⟩ := hfrom k (mem_reverse.mp hmem)
      exact h.ticketLt i x hi ha
    · exact h.countedLt k hmem
  · refine nodup_append.mpr ⟨nodup_reverse.mpr hnodup, h.countedNodup, ?_⟩
    rintro k hmem _ hmem' rfl
    exact hnew k (mem_reverse.mp hmem) hmem'
  · intro i y hy ha
    obtain ⟨x, hx, hxa, hxt, hxn⟩ := hback i y hy
    have hxact : x.active := hxa ▸ ha
    rw [hxn hxact, hxt, mem_append, mem_reverse, h.countedIff i x hx hxact]
    exact or_comm
  · simp only [length_append, length_reverse, h.returned]
    omega
  · simp only [WaitWorld.Balance, wokenEnds, inFlight] at hb hflight ⊢
    omega

end Notify

/-! ## 6. Runs -/

variable {P : Platform} {w w' : WaitWorld}

/-- A run from `w₀` to `w` in which `lost` steps were the failed wake of a notified waiter. -/
inductive WaitRun (P : Platform) (w₀ : WaitWorld) : Nat → WaitWorld → Prop where
  | refl : WaitRun P w₀ 0 w₀
  | step {lost : Nat} {w w' : WaitWorld} {e : WaitEvent} {answer : Option WaitAnswer} :
      WaitRun P w₀ lost w → e.apply P w = some (answer, w') →
      WaitRun P w₀ (if e.failedWake w then lost + 1 else lost) w'

/-- All that a locked step can do. -/
inductive LockedChange (P : Platform) (w : WaitWorld) : WaitEvent → WaitWorld → Prop where
  | refused {t : Nat} {a : WaitArgs} {start : Nat} {o : Outside} : w.sleepers t = none →
      LockedChange P w (.enter t a start o) w
  | entered {t : Nat} {a : WaitArgs} {start : Nat} {o : Outside} {slot effective : Nat}
      {deadline : Option Nat} {x : MemoryWaiter} {w' : WaitWorld} : w.sleepers t = none →
      w.waiters[slot]? = some x → x.active = false → w.scMutex → w.memory.shared →
      Turn (w.registered t slot effective deadline) t ⟨slot, deadline⟩
        ⟨effective, true, false, w.tickets⟩ o false w' → LockedChange P w (.enter t a start o) w'
  | resumed {t : Nat} {status : CondStatus} {o : Outside} {z : Sleeper} {x : MemoryWaiter}
      {w' : WaitWorld} : w.sleepers t = some z → w.waiters[z.slot]? = some x →
      Turn w t z x o ((resume t status o).failedWake w) w' →
      LockedChange P w (.resume t status o) w'
  | notified {address offset count : Nat} :
      LockedChange P w (.notify address offset count) (memoryNotify P w address offset count).2
  | mutated {memory : Memory} : memory.shared = w.memory.shared →
      LockedChange P w (.mutate memory) { w with memory := memory }

/-- **Every locked step** is one of these changes. -/
theorem WaitEvent.apply_change {e : WaitEvent}
    (he : e.apply P w = some (answer, w')) : LockedChange P w e w' := by
  cases e with
  | enter t a start o =>
    simp only [apply] at he
    split at he
    case isFalse => cases he
    rename_i hnone
    rcases waitEnter_cases P w t a start o with ⟨answer', heq⟩ | ⟨slot, x, hx, hfree, hsc, hsh, heq⟩
    · rw [heq] at he
      cases he
      exact .refused hnone
    rw [heq, waitRegister, waitHead_update] at he
    have hturn := waitHead_turn (w.registered t slot ((a.address + a.offset) % 2 ^ 64)
      (waitDeadline start a.timeout)) t ⟨slot, waitDeadline start a.timeout⟩
      ⟨(a.address + a.offset) % 2 ^ 64, true, false, w.tickets⟩ o
    rw [registered, some.inj he] at hturn
    exact .entered hnone hx hfree hsc hsh hturn
  | resume t status o =>
    obtain ⟨z, x, hz, hx, hturn⟩ := waitResume_turn he
    exact .resumed hz hx hturn
  | notify address offset count =>
    cases he
    exact .notified
  | mutate memory =>
    simp only [apply] at he
    split at he
    · cases he
      exact .mutated ‹_›
    · cases he

/-- One step. -/
theorem WaitEvent.apply_ok {e : WaitEvent} (h : WaitOk w)
    (he : e.apply P w = some (answer, w')) (hb : w.Balance lost) :
    WaitOk w' ∧ w'.Balance (if e.failedWake w then lost + 1 else lost) := by
  cases apply_change he with
  | refused => exact ⟨h, hb⟩
  | entered hnone hx hfree hsc hsh hturn =>
    obtain ⟨hok, hbal⟩ := register_ok h hnone _ _ hx hfree hsc hsh hb
    exact hturn.ok hok (by simp [registered])
      (by simp [registered, getElem?_set_of hx]) hbal
  | resumed hz hx hturn => exact hturn.ok h hz hx hb
  | notified => exact memoryNotify_ok P h _ _ _ hb
  | mutated hsh =>
    exact ⟨{ h with locks := fun i x hx ha => (h.locks i x hx ha).imp_right hsh.trans }, hb⟩

/-- A whole run. -/
theorem WaitRun.ok {memory : Memory} {scMutex : Bool} {lost : Nat}
    (hrun : WaitRun P (.start memory scMutex) lost w) : WaitOk w ∧ w.Balance lost := by
  induction hrun with
  | refl => exact ⟨.start memory scMutex, start_balance memory scMutex⟩
  | step _ he ih => exact apply_ok ih.1 he ih.2

theorem WaitOk.noFlight (h : WaitOk w) (hnone : ∀ t, w.sleepers t = none) : w.inFlight = 0 := by
  rw [inFlight, countP_eq_zero]
  intro x hx
  obtain ⟨i, hi⟩ := getElem?_of_mem hx
  simp only [Bool.and_eq_true, not_and]
  intro ha
  obtain ⟨t, z, hz, -⟩ := h.owned i x hi ha
  rw [hnone t] at hz
  cases hz

/-- An unshared memory has no waiters. -/
theorem WaitOk.unshared (h : WaitOk w) (hsh : w.memory.shared = false) (address : Nat) :
    (w.waiters.filter fun x => x.wakes address) = [] := by
  refine filter_eq_nil_iff.mpr fun x hx hwakes => ?_
  obtain ⟨i, hi⟩ := getElem?_of_mem hx
  simp only [MemoryWaiter.wakes, Bool.and_eq_true] at hwakes
  rw [(h.locks i x hi hwakes.1.1).2] at hsh
  cases hsh

/-- How many a notify wakes. -/
theorem WaitOk.notify_count (h : WaitOk w) {address offset count k : Nat}
    (hn : memoryNotify P w address offset count = (.result k, w')) :
    k = min count (w.waiters.countP fun x => x.wakes ((address + offset) % 2 ^ 64)) := by
  rcases memoryNotify_cases P w address offset count with ⟨answer, heq, hzero⟩ | heq
  · rw [heq] at hn
    cases hn
    obtain ⟨rfl, hsh⟩ := hzero k rfl
    rw [countP_eq_length_filter, h.unshared hsh]
    exact count.min_zero.symm
  · rw [heq] at hn
    simp only [Prod.mk.injEq, WaitAnswer.result.injEq] at hn
    rw [← hn.1, (notifyLoop_tickets _ _ _ 0).2]
    simp

/-- Which waiters a notify flags: the first ones at its address that were not flagged before. -/
theorem WaitOk.notify_flags (h : WaitOk w) {address offset count k : Nat}
    (hn : memoryNotify P w address offset count = (.result k, w')) {i : Nat} {x : MemoryWaiter}
    (hx : w.waiters[i]? = some x) (ha : x.active) : ∃ y, w'.waiters[i]? = some y ∧
      (y.notified ↔ x.notified ∨ x.ticket ∈ ((w.waiters.filter fun x =>
        x.wakes ((address + offset) % 2 ^ 64)).take count).map MemoryWaiter.ticket) := by
  rcases memoryNotify_cases P w address offset count with ⟨answer, heq, hzero⟩ | heq
  · rw [heq] at hn
    cases hn
    exact ⟨x, hx, by simp [h.unshared (hzero k rfl).2]⟩
  · rw [heq] at hn
    obtain ⟨-, rfl⟩ := Prod.mk.inj hn
    obtain ⟨y, hy, -, -, hflag⟩ := (notifyLoop_get _ count _ 0 h.distinct).2 i x hx
    refine ⟨y, hy, (hflag ha).trans ?_⟩
    rw [(notifyLoop_tickets _ _ _ 0).1, Nat.sub_zero]

/-- A registered wait never returns 1. -/
theorem waitEnter_notEqual {t : Nat} {a : WaitArgs} {start : Nat}
    {o : Outside} (he : waitEnter P w t a start o = (some (.result 1), w')) : w' = w := by
  rcases waitEnter_cases P w t a start o with ⟨answer, heq⟩ | ⟨slot, x, -, -, -, -, heq⟩
  · rw [heq] at he
    cases he
    rfl
  rw [heq] at he
  simp only [waitRegister, waitHead, waitFinish] at he
  have hno := waitAnswer_ne_one
  split at he
  · exact absurd (some.inj (Prod.mk.inj he).1) (hno _ _ _ _)
  split at he
  · exact absurd (some.inj (Prod.mk.inj he).1) (hno _ _ _ _)
  split at he
  · cases he
  split at he
  · exact absurd (some.inj (Prod.mk.inj he).1) (hno _ _ _ _)
  · cases he

/-- **Wait and notify over every interleaving.**  No waiter is counted twice; a notify wakes as many
waiters as its count and its address allow, and flags these and no others; `1` is only ever returned
without registering; the slots in use are counted and bounded.  The counts that notifies returned
are the waits that ended with result 0, together with the notified waiters that have not run yet,
exactly when no timed condition wait of a notified waiter returned with an error that is no
timeout. -/
theorem waitNotify_protocol {P : Platform} {memory : Memory} {scMutex : Bool} {lost : Nat}
    {w : WaitWorld} (hrun : WaitRun P (.start memory scMutex) lost w) :
    w.counted.Nodup ∧ w.returned = w.counted.length ∧ (∀ e ∈ w.ended, e.2 ≠ .result 1) ∧
    (∀ t a start o w', waitEnter P w t a start o = (some (.result 1), w') → w' = w) ∧
    (∀ address offset count k w', memoryNotify P w address offset count = (.result k, w') →
      k = min count (w.waiters.countP fun x => x.wakes ((address + offset) % 2 ^ 64)) ∧
      ∀ (i : Nat) (x : MemoryWaiter), w.waiters[i]? = some x → x.active →
        ∃ y, w'.waiters[i]? = some y ∧ (y.notified ↔ x.notified ∨ x.ticket ∈
          ((w.waiters.filter fun x => x.wakes ((address + offset) % 2 ^ 64)).take count).map
            MemoryWaiter.ticket)) ∧
    (w.waiters.countP fun x => x.active) = w.waiterCount ∧ w.waiterCount ≤ memoryWaiterCapacity ∧
    ((∀ t, w.sleepers t = none) → w.inFlight = 0) ∧
    (w.returned = w.wokenEnds + w.inFlight ↔ lost = 0) := by
  obtain ⟨h, hb⟩ := hrun.ok
  refine ⟨h.countedNodup, h.returned, h.ended, fun t a start o w' he => waitEnter_notEqual he,
    fun address offset count k w' hn =>
      ⟨h.notify_count hn, fun i x hx ha => h.notify_flags hn hx ha⟩, h.count.symm, ?_, h.noFlight, ?_⟩
  · rw [h.count, ← h.length]
    exact countP_le_length
  · rw [WaitWorld.Balance] at hb
    omega

/-- A shared memory of four one-byte pages. -/
def sharedWord : Memory := ⟨[0, 0, 0, 0], 4, 4, 1, 0, true, true, false, true⟩

def sharedPlatform : Platform := ⟨uint64Max, Nat.le_refl _⟩

/-- The state after an event that can happen. -/
def WaitEvent.next (w : WaitWorld) (e : WaitEvent) : WaitWorld :=
  ((e.apply sharedPlatform w).map Prod.snd).getD w

/-- A thread waits, and another one notifies it. -/
def notifiedWorld : WaitWorld :=
  next (next (.start sharedWord true)
    (.enter 0 ⟨0, 0, false, 0, 5⟩ 0 ⟨0, false⟩)) (.notify 0 0 1)

/-- Its condition wait returns with `status`. -/
def wakeWorld (status : CondStatus) : WaitWorld :=
  next notifiedWorld (.resume 0 status ⟨1, false⟩)

theorem notifiedWorld_run : WaitRun sharedPlatform (.start sharedWord true) 0 notifiedWorld := by
  have h : WaitRun sharedPlatform (.start sharedWord true) 0 (next
      (.start sharedWord true) (.enter 0 ⟨0, 0, false, 0, 5⟩ 0 ⟨0, false⟩)) :=
    .step (e := .enter 0 ⟨0, 0, false, 0, 5⟩ 0 ⟨0, false⟩) .refl rfl
  exact .step (e := .notify 0 0 1) h rfl

theorem wakeWorld_run (status : CondStatus) : WaitRun sharedPlatform (.start sharedWord true)
    (if status = .error then 1 else 0) (wakeWorld status) := by
  cases status with
  | success => exact .step (e := .resume 0 .success ⟨1, false⟩) notifiedWorld_run rfl
  | timedOut => exact .step (e := .resume 0 .timedOut ⟨1, false⟩) notifiedWorld_run rfl
  | error => exact .step (e := .resume 0 .error ⟨1, false⟩) notifiedWorld_run rfl

/-- A wait that is woken. -/
theorem waitNotify_protocol_wake :
    (wakeWorld .success).returned = (wakeWorld .success).wokenEnds + (wakeWorld .success).inFlight ∧
    (wakeWorld .success).returned = 1 ∧ (wakeWorld .success).ended = [(0, .result 0)] :=
  ⟨(waitNotify_protocol (wakeWorld_run .success)).2.2.2.2.2.2.2.2.mpr rfl, rfl, rfl⟩

/-- A notify that counts a waiter whose wait does not end with result 0: the timed condition wait
returns with an error, and so does the call. -/
theorem waitNotify_lostWake : ∃ w, WaitRun sharedPlatform (.start sharedWord true) 1 w ∧
    (∀ t, w.sleepers t = none) ∧ w.returned = 1 ∧ w.wokenEnds = 0 ∧
    w.ended = [(0, .failed .unsupported)] := by
  refine ⟨wakeWorld .error, wakeWorld_run .error, fun t => ?_, rfl, rfl, rfl⟩
  show update (update (fun _ => none) 0 _) 0 none t = none
  simp only [update_apply]
  split <;> rfl

end TurboWasm
