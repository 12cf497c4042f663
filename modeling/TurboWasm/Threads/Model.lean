/-
# The WASI thread group

`wasi_threads.c`: a group has a fixed array of slots, one for each live child.  The host function
`thread-spawn` binds the group to a module, reserves a slot and a thread id, creates the child
instance and posts a task for it; the executor later runs or cancels the task and finalizes it.
The mutex of the group cuts a spawn and a task into locked sections, and what a thread does between
two of them touches only the slot it holds.  So a spawn and a task are sequences of program points,
and a step takes one call from a point to the next.

What the group does not decide is an argument of the step: whether the child could be created,
whether the executor admits the task, whether it runs or cancels it, and how the child's start
function ends.  The executor calls one of `run` and `cancel`, then `finalize` once, for a task it
accepted, and nothing for a task it refused.

Waking the waiters of the group's shared memories is left out; so is the choice of the executor.
The list of events is history and no step reads it.
-/
import TurboWasm.Lib.Runs
import TurboWasm.Validate.Context
import TurboWasm.Value

namespace TurboWasm

/-! ## 1. The group and its locked sections -/

/-- `TURBOWASM_WASI_THREADS_TID_LIMIT`. -/
def tidLimit : Nat := 2 ^ 29

/-- The negative answers of `thread-spawn`. -/
inductive SpawnError where
  | badModule
  | capacity
  | instantiate
  | executor
  | tidExhausted
  | groupTerminated
  deriving DecidableEq, Repr

/-- `TURBOWASM_WASI_THREADS_SPAWN_*`. -/
def SpawnError.code : SpawnError → Int
  | .badModule => -1
  | .capacity => -2
  | .instantiate => -3
  | .executor => -4
  | .tidExhausted => -5
  | .groupTerminated => -6

/-- `turbowasm_wasi_thread_slot`; `child` tells whether the slot holds an instance. -/
structure ThreadSlot where
  child : Bool
  startFunctionIndex : Nat
  startArg : BitVec 32
  tid : Nat
  active : Bool
  deriving DecidableEq, Repr

/-- `turbowasm_wasi_threads_impl`.  A module is the address of its object; a `fatal_status` of
`TURBOWASM_OK` is `none`. -/
structure ThreadGroup where
  slots : List ThreadSlot
  capacity : Nat
  active : Nat
  nextTid : Nat
  module : Option Nat
  startFunctionIndex : Nat
  fatal : Bool
  exitRequested : Bool
  fatalStatus : Option Status
  fatalTrap : Trap
  exitCode : BitVec 32
  deriving DecidableEq, Repr

namespace ThreadGroup

variable (g : ThreadGroup) (index : Nat)

/-- The group that `turbowasm_wasi_threads_init` sets up. -/
def init (capacity : Nat) : ThreadGroup where
  slots := List.replicate capacity ⟨false, 0, 0, 0, false⟩
  capacity := capacity
  active := 0
  nextTid := 1
  module := none
  startFunctionIndex := 0
  fatal := false
  exitRequested := false
  fatalStatus := none
  fatalTrap := .none
  exitCode := 0

/-- `turbowasm_wasi_threads_should_interrupt`: an outcome has been published. -/
def terminated : Bool := g.fatal || g.exitRequested

/-- The locked section of `turbowasm_wasi_threads_publish_fatal`. -/
def publishFatal (status : Status) (trap : Trap) : ThreadGroup :=
  if g.terminated then g
  else { g with fatalStatus := some status, fatalTrap := trap, fatal := true }

/-- The locked section of `turbowasm_wasi_threads_publish_exit`. -/
def publishExit (code : BitVec 32) : ThreadGroup :=
  if g.terminated then g else { g with exitCode := code, exitRequested := true }

/-- The first locked section of `turbowasm_wasi_threads_spawn`; `none` is the branch to `done` with
`SPAWN_BAD_MODULE`. -/
def bindModule (module start : Nat) : Option ThreadGroup :=
  match g.module with
  | none => some { g with module := some module, startFunctionIndex := start }
  | some m => if m ≠ module ∨ g.startFunctionIndex ≠ start then none else some g

/-- `impl->slots[index] = f(impl->slots[index])`. -/
def updateSlot (f : ThreadSlot → ThreadSlot) : ThreadGroup :=
  { g with slots := g.slots.modify index f }

/-- `turbowasm_wasi_threads_reserve`: the thread id, the slot and the group after it. -/
def reserve : Except SpawnError (Nat × Nat × ThreadGroup) :=
  if g.terminated then .error .groupTerminated
  else if g.capacity ≤ g.active then .error .capacity
  else if tidLimit ≤ g.nextTid then .error .tidExhausted
  else
    match g.slots.findIdx? fun s => !s.active with
    | none => .error .capacity
    | some index =>
      let g' := g.updateSlot index fun s => { s with active := true, tid := g.nextTid }
      .ok (g.nextTid, index, { g' with nextTid := g.nextTid + 1, active := g.active + 1 })

/-- `slot->active`, for the slot at `index`. -/
def slotActive : Bool :=
  match g.slots[index]? with
  | some s => s.active
  | none => false

/-- `turbowasm_wasi_threads_rollback`: a slot that is no longer active is not counted again. -/
def rollback : ThreadGroup :=
  let g' := g.updateSlot index fun s => { s with
    child := false, active := false, startArg := 0, tid := 0 }
  if g.slotActive index then { g' with active := g.active - 1 } else g'

/-- `turbowasm_wasi_threads_release_slot`. -/
def releaseSlot : ThreadGroup :=
  let g' := g.updateSlot index fun s => { s with
    child := false, active := false, startArg := 0, tid := 0 }
  { g' with active := g.active - 1 }

end ThreadGroup

/-! ## 2. The module of a spawn -/

/-- `"wasi_thread_start"`. -/
def wasiThreadStart : List UInt8 :=
  [119, 97, 115, 105, 95, 116, 104, 114, 101, 97, 100, 95, 115, 116, 97, 114, 116]

/-- The signature test of `turbowasm_wasi_threads_validate_module`: two `i32` parameters. -/
def threadStartType (ctx : ValidationContext) (functionIndex : Nat) : Bool :=
  match ctx.functionType functionIndex with
  | none => false
  | some type => type.defined && type.results.length == 0 &&
      (type.params.map ValueType.carrier) == [0x7f, 0x7f]

/-- `turbowasm_wasi_threads_validate_module`: the start function of the first export with the right
name, when no shared memory is the module's own. -/
def validateThreadModule (ctx : ValidationContext) : Option Nat :=
  if ctx.memories.any fun m => m.type.shared && !m.imported then none
  else
    match ctx.exports.find? fun e => e.kind == .function && e.name.bytes == wasiThreadStart with
    | none => none
    | some e => if threadStartType ctx e.itemIndex then some e.itemIndex else none

/-! ## 3. Program points -/

/-- Where a call of `turbowasm_wasi_threads_spawn` is. -/
inductive SpawnPoint where
  | bindModule (module start : Nat) (arg : BitVec 32)
  | reserve (start : Nat) (arg : BitVec 32)
  | create (slot tid start : Nat) (arg : BitVec 32)
  | post (slot tid : Nat)
  | rollback (slot : Nat) (error : SpawnError)
  | done (result : Int)
  | returned (answer : Result Int)
  deriving DecidableEq, Repr

/-- Where the executor is with the task of a call; `none` when it has none. -/
inductive TaskPoint where
  | none
  | queued (slot : Nat)
  | publish (slot : Nat) (status : Status) (trap : Trap)
  | finalize (slot : Nat)
  | finished
  deriving DecidableEq, Repr

/-- A call of `thread-spawn` with the task it posted. -/
structure SpawnCall where
  point : SpawnPoint
  task : TaskPoint
  deriving DecidableEq, Repr

/-- What happens to one call. -/
inductive SpawnEvent where
  | reserved (slot tid : Nat)
  | rolledBack (slot : Nat)
  | answered (result : Int)
  | released (slot : Nat)
  deriving DecidableEq, Repr

/-- The outcome of a group. -/
inductive Outcome where
  | fatal (status : Option Status) (trap : Trap)
  | exit (code : BitVec 32)
  deriving DecidableEq, Repr

/-- An event of the group: of the call with the given number, or the publication of an outcome. -/
inductive ThreadEvent where
  | call (call : Nat) (event : SpawnEvent)
  | outcome (outcome : Outcome)
  deriving DecidableEq, Repr

/-- `cflow_admission_status`, as the spawn distinguishes it. -/
inductive Admission where
  | accepted
  | full
  | refused
  deriving DecidableEq, Repr

/-- What the executor does with a task that waits: it cancels it, or runs it, and then the
invocation succeeds (`none`) or fails with a status and a trap. -/
inductive Dispatch where
  | cancel
  | run (failure : Option (Status × Trap))
  deriving DecidableEq, Repr

/-- The arguments of a host call: the caller's module, if there is one, the argument vector and the
capacity of the result vector. -/
structure SpawnArguments where
  module : Option Nat
  arguments : List Value
  resultCapacity : Nat
  deriving DecidableEq, Repr

/-- `turbowasm_wasi_threads_spawn` up to its first locked section. -/
def spawnEnter (modules : Nat → ValidationContext) (call : SpawnArguments) : SpawnPoint :=
  match call.arguments with
  | [.i32 arg] =>
    if call.resultCapacity < 1 then .returned (.error .invalidArgument)
    else
      match call.module with
      | none => .done SpawnError.badModule.code
      | some m =>
        match validateThreadModule (modules m) with
        | none => .done SpawnError.badModule.code
        | some start => .bindModule m start arg
  | _ => .returned (.error .invalidArgument)

/-- One step of a spawn: the group and the call after it, and what happened. -/
def spawnStep (created : Bool) (admission : Admission) (g : ThreadGroup) (c : SpawnCall) :
    Option (ThreadGroup × SpawnCall × List SpawnEvent) :=
  match c.point with
  | .bindModule module start arg =>
    match g.bindModule module start with
    | none => some (g, { c with point := .done SpawnError.badModule.code }, [])
    | some g => some (g, { c with point := .reserve start arg }, [])
  | .reserve start arg =>
    match g.reserve with
    | .error e => some (g, { c with point := .done e.code }, [])
    | .ok (tid, slot, g) =>
      some (g, { c with point := .create slot tid start arg }, [.reserved slot tid])
  | .create slot tid start arg =>
    let g := g.updateSlot slot fun s => { s with
      startFunctionIndex := start, startArg := arg, child := created }
    some (g, { c with point := if created then .post slot tid else .rollback slot .instantiate },
      [])
  | .post slot tid =>
    match admission with
    | .accepted => some (g, ⟨.done tid, .queued slot⟩, [])
    | .full => some (g, { c with point := .rollback slot .capacity }, [])
    | .refused => some (g, { c with point := .rollback slot .executor }, [])
  | .rollback slot e => some (g.rollback slot, { c with point := .done e.code }, [.rolledBack slot])
  | .done result => some (g, { c with point := .returned (.ok result) }, [.answered result])
  | .returned _ => none

/-- `turbowasm_wasi_threads_run` and `turbowasm_wasi_threads_cancel` up to the locked section of
the publication, if there is one. -/
def dispatchTask (g : ThreadGroup) (slot : Nat) (d : Dispatch) : TaskPoint :=
  if !g.slotActive slot then .finalize slot
  else
    match d with
    | .cancel => .publish slot .interrupted .none
    | .run none => .finalize slot
    | .run (some (status, trap)) => .publish slot status trap

/-- One step of a task. -/
def taskStep (d : Dispatch) (g : ThreadGroup) (c : SpawnCall) :
    Option (ThreadGroup × SpawnCall × List SpawnEvent) :=
  match c.task with
  | .none => none
  | .queued slot => some (g, { c with task := dispatchTask g slot d }, [])
  | .publish slot status trap =>
    some (g.publishFatal status trap, { c with task := .finalize slot }, [])
  | .finalize slot => some (g.releaseSlot slot, { c with task := .finished }, [.released slot])
  | .finished => none

/-! ## 4. Interleavings -/

/-- The outcome that a group has published. -/
def ThreadGroup.outcome (g : ThreadGroup) : Option Outcome :=
  if g.fatal then some (.fatal g.fatalStatus g.fatalTrap)
  else if g.exitRequested then some (.exit g.exitCode)
  else none

/-- The publication that took a group from `g` to `g'`, if there was one. -/
def newOutcome (g g' : ThreadGroup) : List ThreadEvent :=
  if g.terminated then [] else (g'.outcome.map ThreadEvent.outcome).toList

/-- A group with all calls of `thread-spawn` so far, by number, and its history, oldest first. -/
structure ThreadWorld where
  group : ThreadGroup
  calls : List SpawnCall
  log : List ThreadEvent
  deriving DecidableEq, Repr

namespace ThreadWorld

/-- A new group. -/
def start (capacity : Nat) : ThreadWorld := ⟨.init capacity, [], []⟩

/-- Call `i` has taken a step to `c`. -/
def advance (w : ThreadWorld) (i : Nat) (r : ThreadGroup × SpawnCall × List SpawnEvent) :
    ThreadWorld where
  group := r.1
  calls := w.calls.set i r.2.1
  log := w.log ++ newOutcome w.group r.1 ++ r.2.2.map (ThreadEvent.call i)

/-- `turbowasm_wasi_threads_proc_exit`. -/
def procExit (w : ThreadWorld) (code : BitVec 32) : ThreadWorld where
  group := w.group.publishExit code
  calls := w.calls
  log := w.log ++ newOutcome w.group (w.group.publishExit code)

end ThreadWorld

/-- What may happen next: a new spawn, the next section of the spawn or of the task of a call, or an
exit. -/
inductive ThreadAction where
  | call (args : SpawnArguments)
  | spawn (call : Nat) (created : Bool) (admission : Admission)
  | task (call : Nat) (dispatch : Dispatch)
  | exit (code : BitVec 32)
  deriving DecidableEq, Repr

/-- One step of some thread. -/
def ThreadWorld.act (modules : Nat → ValidationContext) (w : ThreadWorld) :
    ThreadAction → Option ThreadWorld
  | .call args => some { w with calls := w.calls ++ [⟨spawnEnter modules args, .none⟩] }
  | .spawn i created admission =>
    w.calls[i]?.bind fun c => (spawnStep created admission w.group c).map (w.advance i)
  | .task i dispatch => w.calls[i]?.bind fun c => (taskStep dispatch w.group c).map (w.advance i)
  | .exit code => some (w.procExit code)

/-- Any interleaving of any number of calls. -/
abbrev ThreadRun (modules : Nat → ValidationContext) : ThreadWorld → ThreadWorld → Prop :=
  Relation.ReflTransGen (Lib.Steps (ThreadWorld.act modules))

end TurboWasm
