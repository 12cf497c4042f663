/-
# Wait and notify

`memory.atomic.wait` and `memory.atomic.notify` on one shared memory.  The waiter mutex cuts a wait
into locked steps: `waitEnter` runs from the call to the first condition wait or to the return, and
`waitResume` from the return of a condition wait to the next one or to the return of the call.  A
notify is one locked step.  Between the steps of one thread any steps of other threads may happen.

A condition wait may return at any time, with any status.  The clock and the interrupt callback are
read anew at every step, so their answers are arguments of the steps.

Some fields of the state are history and nothing computes with them: each registration of a waiter
gets a ticket, and the state remembers the tickets that notifies have counted, the counts they
returned, and the answers of the registered waits that have ended.
-/
import TurboWasm.Memory.Model

namespace TurboWasm

open Lib

/-! ## 1. State -/

/-- `TURBOWASM_MEMORY_WAITER_CAPACITY`. -/
def memoryWaiterCapacity : Nat := 64

/-- `turbowasm_memory_waiter`; `ticket` is history. -/
structure MemoryWaiter where
  address : Nat
  active : Bool
  notified : Bool
  ticket : Nat
  deriving DecidableEq, Repr

/-- A thread inside a condition wait: its slot, and the deadline of a timed wait. -/
structure Sleeper where
  slot : Nat
  deadline : Option Nat
  deriving DecidableEq, Repr

/-- The traps of the two instructions. -/
inductive WaitTrap where
  | unalignedAtomic
  | expectedSharedMemory
  | memoryOutOfBounds
  | tooManyWaiters
  deriving DecidableEq, Repr

/-- How a call returns: `TURBOWASM_OK` with a result, a trap, or another status. -/
inductive WaitAnswer where
  | result (value : Nat)
  | trapped (trap : WaitTrap)
  | failed (status : Status)
  deriving DecidableEq, Repr

/-- One shared memory with its waiters, the threads that sleep on it, and the history. -/
structure WaitWorld where
  memory : Memory
  waiters : List MemoryWaiter
  waiterCount : Nat
  /-- `waiter_mutex_initialized`. -/
  waiterMutex : Bool
  /-- Whether the mutex of `turbowasm_sc_lock` exists. -/
  scMutex : Bool
  sleepers : Nat → Option Sleeper
  tickets : Nat
  counted : List Nat
  returned : Nat
  ended : List (Nat × WaitAnswer)

variable (P : Platform) (w : WaitWorld) (t : Nat)

/-- What `turbowasm_instance_memory_storage_init` leaves for a shared memory. -/
def WaitWorld.start (memory : Memory) (scMutex : Bool) : WaitWorld where
  memory := memory
  waiters := List.replicate memoryWaiterCapacity ⟨0, false, false, 0⟩
  waiterCount := 0
  waiterMutex := true
  scMutex := scMutex
  sleepers := fun _ => none
  tickets := 0
  counted := []
  returned := 0
  ended := []

/-! ## 2. Waiting -/

/-- `cmeta_cond_timedwait`: `0`, `-ETIMEDOUT`, or another error. -/
inductive CondStatus where
  | success
  | timedOut
  | error
  deriving DecidableEq, Repr

/-- `turbowasm_atomic_load_le`. -/
def atomicLoadLe : List UInt8 → Nat
  | [] => 0
  | b :: rest => b.toNat + 256 * atomicLoadLe rest

/-- The operands of a wait. -/
structure WaitArgs where
  address : Nat
  offset : Nat
  /-- `4` or `8`. -/
  wide : Bool
  expected : Nat
  timeout : Int

def WaitArgs.width (a : WaitArgs) : Nat := if a.wide then 8 else 4

/-- What a locked step reads from outside: the clock and the interrupt callback. -/
structure Outside where
  now : Nat
  interrupt : Bool

/-- What the call returns after its loop: `*out_result`, and the checks that follow it. -/
def waitAnswer (scMutex notified : Bool) (waitStatus : CondStatus) (interrupted : Bool) :
    WaitAnswer :=
  let outResult := if notified then 0 else if waitStatus = .timedOut then 2 else 0
  if interrupted then .failed .interrupted
  else if waitStatus = .error then .failed .unsupported
  else if outResult = 0 then
    -- `turbowasm_threads_sc_fence`
    if scMutex then .result 0 else .failed .outOfMemory
  else .result outResult

/-- The tail of the call: the slot is given back. -/
def waitFinish (slot : Nat) (waiter : MemoryWaiter) (waitStatus : CondStatus) (interrupted : Bool) :
    WaitAnswer × WaitWorld :=
  let answer := waitAnswer w.scMutex waiter.notified waitStatus interrupted
  (answer, { w with
    waiters := w.waiters.set slot { waiter with active := false, notified := false, address := 0 }
    waiterCount := if w.waiterCount ≠ 0 then w.waiterCount - 1 else 0
    sleepers := Function.update w.sleepers t none
    ended := (waiter.ticket, answer) :: w.ended })

/-- The head of the loop, with the lock held; no answer means that the thread sleeps. -/
def waitHead (sleeper : Sleeper) (waiter : MemoryWaiter) (o : Outside) :
    Option WaitAnswer × WaitWorld :=
  let finish (status : CondStatus) (interrupted : Bool) : Option WaitAnswer × WaitWorld :=
    let (answer, w) := waitFinish w t sleeper.slot waiter status interrupted
    (some answer, w)
  let sleep : Option WaitAnswer × WaitWorld :=
    (none, { w with sleepers := Function.update w.sleepers t (some sleeper) })
  if waiter.notified then finish .success false
  else if o.interrupt then finish .success true
  else
    match sleeper.deadline with
    | none => sleep
    | some deadline => if deadline ≤ o.now then finish .timedOut false else sleep

/-- A condition wait of thread `t` returns with `status`. -/
def waitResume (status : CondStatus) (o : Outside) : Option (Option WaitAnswer × WaitWorld) := do
  let sleeper ← w.sleepers t
  let waiter ← w.waiters[sleeper.slot]?
  match sleeper.deadline with
  -- `cmeta_cond_wait` has no status that the loop looks at
  | none => return waitHead w t sleeper waiter o
  | some _ =>
    if waiter.notified ∨ status ≠ .success then
      let (answer, w) := waitFinish w t sleeper.slot waiter status false
      return (some answer, w)
    else return waitHead w t sleeper waiter o

/-- `turbowasm_memory_waiter_acquire_slot`. -/
def acquireSlot (waiters : List MemoryWaiter) : Option Nat := waiters.findIdx? fun x => !x.active

/-- The deadline of a timed wait that starts at `now`. -/
def waitDeadline (now : Nat) (timeout : Int) : Option Nat :=
  if timeout < 0 then none
  else if uint64Max - now < timeout.toNat then some uint64Max
  else some (now + timeout.toNat)

/-- Publish a waiter in `slot`, and run on to the first condition wait. -/
def waitRegister (slot effective : Nat) (timeout : Int) (start : Nat) (o : Outside) :
    Option WaitAnswer × WaitWorld :=
  let waiter : MemoryWaiter := ⟨effective, true, false, w.tickets⟩
  waitHead { w with
    waiters := w.waiters.set slot waiter
    waiterCount := w.waiterCount + 1
    tickets := w.tickets + 1 } t ⟨slot, waitDeadline start timeout⟩ waiter o

/-- `turbowasm_instance_memory_wait_internal`, up to its first condition wait; `start` is the clock
when the deadline is set. -/
def waitEnter (a : WaitArgs) (start : Nat) (o : Outside) : Option WaitAnswer × WaitWorld :=
  let effective := (a.address + a.offset) % 2 ^ 64
  if effective % a.width ≠ 0 then (some (.trapped .unalignedAtomic), w)
  else if !w.memory.shared then (some (.trapped .expectedSharedMemory), w)
  else if !w.waiterMutex then (some (.failed .unsupported), w)
  else if !w.scMutex then (some (.failed .outOfMemory), w)
  else
    match storageRange P w.memory a.address a.offset a.width with
    | .error .trapped => (some (.trapped .memoryOutOfBounds), w)
    | .error status => (some (.failed status), w)
    | .ok position =>
      let observed := atomicLoadLe (slice w.memory.data position a.width)
      if observed ≠ a.expected % 2 ^ (8 * a.width) then (some (.result 1), w)
      else if a.timeout = 0 then (some (.result 2), w)
      else
        match acquireSlot w.waiters with
        | none => (some (.trapped .tooManyWaiters), w)
        | some slot => waitRegister w t slot effective a.timeout start o

/-! ## 3. Notifying -/

/-- A waiter that a notify at `address` may wake. -/
def MemoryWaiter.wakes (x : MemoryWaiter) (address : Nat) : Bool :=
  x.active && !x.notified && x.address == address

/-- The loop of `turbowasm_instance_memory_notify`, with `woken` waiters woken so far: the waiters
it leaves, the final `woken`, and the tickets of those that it woke. -/
def notifyLoop (address count : Nat) : Nat → List MemoryWaiter → List MemoryWaiter × Nat × List Nat
  | woken, [] => ([], woken, [])
  | woken, x :: rest =>
    if count ≤ woken then (x :: rest, woken, [])
    else if x.wakes address then
      let (rest, woken, tickets) := notifyLoop address count (woken + 1) rest
      ({ x with notified := true } :: rest, woken, x.ticket :: tickets)
    else
      let (rest, woken, tickets) := notifyLoop address count woken rest
      (x :: rest, woken, tickets)

/-- `turbowasm_instance_memory_notify`. -/
def memoryNotify (address offset count : Nat) : WaitAnswer × WaitWorld :=
  let effective := (address + offset) % 2 ^ 64
  if effective % 4 ≠ 0 then (.trapped .unalignedAtomic, w)
  else if !w.scMutex then (.failed .outOfMemory, w)
  else
    match storageRange P w.memory address offset 4 with
    | .error .trapped => (.trapped .memoryOutOfBounds, w)
    | .error status => (.failed status, w)
    | .ok _ =>
      if !w.memory.shared then (.result 0, w)
      else if !w.waiterMutex then (.failed .unsupported, w)
      else
        let (waiters, woken, tickets) := notifyLoop effective count 0 w.waiters
        (.result woken, { w with
          waiters := waiters
          counted := tickets.reverse ++ w.counted
          returned := w.returned + woken })

/-! ## 4. Interleavings -/

/-- A locked step. -/
inductive WaitEvent where
  | enter (thread : Nat) (args : WaitArgs) (start : Nat) (o : Outside)
  | resume (thread : Nat) (status : CondStatus) (o : Outside)
  | notify (address offset count : Nat)
  /-- Any other access to the memory; none of them changes whether it is shared. -/
  | mutate (memory : Memory)

/-- The answer of the call, if it returns, and the state after the step; `none` when the thread is
not at such a step. -/
def WaitEvent.apply : WaitEvent → Option (Option WaitAnswer × WaitWorld)
  | .enter t a start o => if w.sleepers t = none then some (waitEnter P w t a start o) else none
  | .resume t status o => waitResume w t status o
  | .notify address offset count =>
    let (answer, w) := memoryNotify P w address offset count
    some (some answer, w)
  | .mutate memory =>
    if memory.shared = w.memory.shared then some (none, { w with memory := memory }) else none

/-- The timed wait of a thread that has been notified returns with an error that is no timeout. -/
def WaitEvent.failedWake : WaitEvent → Bool
  | .resume t .error _ =>
    match w.sleepers t with
    | some ⟨slot, some _⟩ => ((w.waiters[slot]?).map MemoryWaiter.notified).getD false
    | _ => false
  | _ => false

end TurboWasm
