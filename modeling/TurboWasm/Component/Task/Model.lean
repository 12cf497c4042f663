/-
# Tasks of a component instance

`src/component_task.c`, with the waitable sets of `src/component_waitable.c` and the waits of
`src/component_task_builtin.c`.  A domain admits a bounded number of tasks, runs them one quantum at a
time and settles the caller of each: `resolve` hands the result over, `abandon` gives the call up.

A quantum, an unwinding, the abortion of a task's children and the destruction of its result all
run foreign code in the middle.  Each is cut at these points.  What is still to come is a frame of the
call stack (`TaskFrame`, innermost first), and only the innermost one can continue; in between any
operation may happen.  The coroutine of a task is not on that stack while it is suspended: a `resolve`
hook that has not come back yet is kept as the flag `resolving` of its task, a wait of a builtin as a
pin in `waits`.  They continue while the coroutine runs, or while it is unwound.

Tasks and sets are named by their addresses; a task is in the domain while `task` has a record for its
address.  The borrow counter of a task is the counter of its address in the handle table.  Outcomes of
the environment are arguments: what Core returned, whether a hook succeeded, whether an event was
ready, and what a failed allocation or a check of types says (`refused`).  An operation that is refused
without a change is `none`.  Traps, fuel and the context words of a task are left out; so is the
temporary task record with which a destructor runs outside of any task, which is never admitted.
-/
import TurboWasm.Component.Borrows
import TurboWasm.Lib.Runs

namespace TurboWasm

open Function

/-! ## 1. Records -/

/-- `turbowasm_component_task_phase`. -/
inductive TaskPhase where
  | initial
  | started
  | returned
  | cancelled
  deriving DecidableEq, Repr

/-- `resolved`. -/
def TaskPhase.resolved : TaskPhase → Bool
  | initial => false
  | started => false
  | returned => true
  | cancelled => true

/-- `turbowasm_execution_state`. -/
inductive ExecutionState where
  | ready
  | running
  | yielded
  | completed
  | trapped
  | exception
  | failed
  deriving DecidableEq, Repr

/-- `state >= TURBOWASM_EXECUTION_COMPLETED`. -/
def ExecutionState.ended : ExecutionState → Bool
  | ready => false
  | running => false
  | yielded => false
  | completed => true
  | trapped => true
  | exception => true
  | failed => true

/-- The state that `finish` leaves for a status that is not `TURBOWASM_OK`. -/
def ExecutionState.ofStatus : Status → ExecutionState
  | .trapped => .trapped
  | .exception => .exception
  | _ => .failed

/-- `builtin_wait`. -/
inductive BuiltinWait where
  | yield
  | set
  | subtask
  | endpoint
  deriving DecidableEq, Repr

/-- What happens to a task. -/
inductive TaskEvent where
  /-- The entry began, under this exclusive task and this backpressure. -/
  | started (exclusive : Option Nat) (backpressure : Nat)
  /-- The callback was entered, under this exclusive task. -/
  | reentered (exclusive : Option Nat)
  | requested
  | delivered
  /-- The `resolve` hook was called. -/
  | called (cancelled : Bool)
  | refused (cancelled : Bool)
  | accepted (cancelled : Bool)
  /-- The phase became `RETURNED` or `CANCELLED`. -/
  | resolved (cancelled : Bool)
  /-- The `abandon` hook was called, with this many borrows of the task alive. -/
  | abandoned (borrows : Nat)
  deriving DecidableEq, Repr

/-- `turbowasm_component_task`: `callback` is `callback_instance != NULL`, `hooks` is
`resolve != NULL`, `core` is `core.impl != NULL`, `result` says that a value is held.  `hooked` says
that the task was created with hooks. -/
structure ComponentTask where
  callback : Bool
  hostImport : Bool
  hooked : Bool
  hooks : Bool
  generation : Nat
  coreGeneration : Nat := 0
  phase : TaskPhase := .initial
  state : ExecutionState := .ready
  status : Option Status := none
  core : Bool := false
  result : Bool := false
  waitingSet : Nat := 0
  builtinWait : Option BuiltinWait := none
  betweenCallbacks : Bool := false
  cancellationRequested : Bool := false
  cancellationDelivered : Bool := false
  destroying : Bool := false
  resolving : Bool := false
  history : List TaskEvent := []
  deriving DecidableEq, Repr

namespace ComponentTask

variable (t : ComponentTask)

/-- One more event. -/
def log (event : TaskEvent) : ComponentTask := { t with history := event :: t.history }

/-- A cancellation that was requested and can be delivered. -/
def cancelPending : Bool := !t.phase.resolved && t.cancellationRequested && !t.cancellationDelivered

/-- A cancellation is delivered. -/
def deliver : ComponentTask := { t with cancellationDelivered := true }.log .delivered

/-- `abandon_caller`. -/
def abandon (borrows : Nat) : ComponentTask :=
  if t.hooks then { t with hooks := false }.log (.abandoned borrows) else t

/-- The phase after the caller was resolved. -/
def settle (cancelled : Bool) : ComponentTask :=
  { t with phase := if cancelled then .cancelled else .returned }.log (.resolved cancelled)

/-- `resolve_caller` from the return of the hook, and the phase that follows. -/
def answered (cancelled : Bool) : Option Status → ComponentTask
  | none => ({ t with resolving := false, hooks := false }.log (.accepted cancelled)).settle cancelled
  | some _ => { t with resolving := false }.log (.refused cancelled)

end ComponentTask

/-- `turbowasm_component_waitable_set`; `table` is not `NULL` while the handle is not zero. -/
structure WaitSet where
  handle : Nat := 0
  waitCount : Nat := 0
  deriving DecidableEq, Repr

/-- The call that tears a task down: `finish`, to go back to the active task `previous` if a quantum
called it, or `turbowasm_component_task_destroy`. -/
inductive Teardown where
  | finish (status : Status) (previous : Option (Option Nat))
  | destroy
  deriving DecidableEq, Repr

/-- A call on the domain that is in progress. -/
inductive TaskFrame where
  /-- `turbowasm_execution_resume` in `resume_active`. -/
  | resume (task : Nat) (previous : Option Nat)
  /-- `turbowasm_execution_destroy`. -/
  | unwinding (task : Nat) (after : Teardown)
  /-- `turbowasm_component_subtask_abort_children` in `clear_borrow_scope`. -/
  | clearing (task : Nat) (saved : Option Nat) (after : Teardown)
  /-- The destruction of the result in `turbowasm_component_task_destroy`. -/
  | disposing (task : Nat)
  deriving DecidableEq, Repr

/-- The task of a frame. -/
def TaskFrame.task : TaskFrame → Nat
  | resume task _ => task
  | unwinding task _ => task
  | clearing task _ _ => task
  | disposing task => task

/-- `turbowasm_component_task_domain` with its table, sets and tasks, and the calls in progress.
`waits` are the sets pinned by builtins, with their tasks; `destroyed` are the tasks that have left
(not in the source). -/
structure TaskDomain where
  table : Table
  limit : Nat
  sets : Nat → WaitSet := fun _ => {}
  mayLeave : Bool := true
  active : Option Nat := none
  exclusive : Option Nat := none
  auxiliary : Option Nat := none
  count : Nat := 0
  backpressure : Nat := 0
  synchronousDepth : Nat := 0
  nextGeneration : Nat := 0
  task : Nat → Option ComponentTask := fun _ => none
  frames : List TaskFrame := []
  waits : List (Nat × Nat) := []
  destroyed : List ComponentTask := []

namespace TaskDomain

variable (d : TaskDomain) (i : Nat) (t : ComponentTask) (handle : Nat)

/-- Replace one task. -/
def put : TaskDomain := { d with task := update d.task i (some t) }

/-! ## 2. Waitable sets -/

/-- `get_set`. -/
def getSet : Option Nat :=
  match d.table.handleObject handle .waitableSet with
  | none => none
  | some s => if (d.sets s).handle = handle then some s else none

/-- `turbowasm_component_waitable_set_wait_acquire`. -/
def waitAcquire : Option TaskDomain :=
  match d.getSet handle with
  | none => none
  | some s =>
    let set := d.sets s
    if set.waitCount = uint32Max then none
    else some { d with
      sets := update d.sets s { set with waitCount := set.waitCount + 1 } }

/-- `turbowasm_component_waitable_set_wait_release`. -/
def waitRelease : Option TaskDomain :=
  match d.getSet handle with
  | none => none
  | some s =>
    let set := d.sets s
    if set.waitCount = 0 then none
    else some { d with
      sets := update d.sets s { set with waitCount := set.waitCount - 1 } }

/-- `release_wait` for the pin of a task. -/
def releasePin : Option Status × TaskDomain :=
  if handle = 0 then (none, d)
  else
    match d.waitRelease handle with
    | none => (some .trapped, d)
    | some d => (none, d)

/-- `turbowasm_component_task_set_new`, and the registration of a set that the host owns. -/
def setNew (s : Nat) (allocated : Bool) : Option TaskDomain :=
  if d.sets s ≠ {} then none
  else
    match d.table.handleInsert .waitableSet s allocated with
    | .error _ => none
    | .ok (handle, table) =>
      some { d with table, sets := update d.sets s { handle } }

/-- `turbowasm_component_task_set_drop`; `joined` says that a waitable is in the set. -/
def setDrop (joined : Bool) : Option TaskDomain :=
  match d.getSet handle with
  | none => none
  | some s =>
    if (d.sets s).waitCount ≠ 0 ∨ joined then none
    else
      match d.table.handleRemove handle .waitableSet with
      | .error _ => none
      | .ok (_, table) => some { d with table, sets := update d.sets s {} }

/-! ## 3. Admission and teardown -/

/-- `turbowasm_component_task_create`. -/
def create (callback hostImport hooked refused : Bool) : Option TaskDomain :=
  if (d.task i).isSome ∨ refused ∨ (hostImport ∧ callback) ∨ d.count = d.limit ∨
      d.nextGeneration = uint64Max then none
  else
    let generation := d.nextGeneration + 1
    some { d.put i { callback, hostImport, hooked, hooks := hooked, generation } with
      nextGeneration := generation
      count := d.count + 1
      table := { d.table with scopes := update d.table.scopes i 0 } }

/-- The end of a call: `active` is what it was before a quantum. -/
def back (previous : Option (Option Nat)) : TaskDomain :=
  { d with active := previous.getD d.active }

/-- `finish` up to the unwinding of the coroutine. -/
def finish (d : TaskDomain) (i : Nat) (t : ComponentTask) (status : Option Status)
    (previous : Option (Option Nat)) : TaskDomain :=
  let released := d.releasePin t.waitingSet
  let d := { released.2 with
    exclusive := if released.2.exclusive = some i then none else released.2.exclusive }
  let status := status.or released.1
  let t := { t with waitingSet := 0, betweenCallbacks := false, status }
  match status with
  | none => (d.put i { t with state := .completed }).back previous
  | some failure => { d.put i { t with destroying := true } with
      frames := .unwinding i (.finish failure previous) :: d.frames }

/-- The rest of a teardown once `clear_borrow_scope` has answered. -/
def torn (after : Teardown) (cleared : Bool) : TaskDomain :=
  match after with
  | .finish status previous =>
    let t := if cleared then t.abandon (d.table.claims i) else t
    (d.put i { t with destroying := false, state := .ofStatus status }).back previous
  | .destroy =>
    if cleared then
      { d.put i (t.abandon (d.table.claims i)) with frames := .disposing i :: d.frames }
    else { d.put i { t with
        destroying := false
        state := .failed
        status := some .interrupted } with active := none }

/-- `clear_borrow_scope` up to the abortion of the children. -/
def clearBorrows (after : Teardown) : TaskDomain :=
  if d.table.scopes i = 0 then d.torn i t after true
  else { d with active := none, frames := .clearing i d.active after :: d.frames }

/-- The coroutine of the task has no call in progress. -/
def idle : Bool := !t.resolving && !d.waits.any fun p => p.1 == i

/-- The end of an unwinding. -/
def unwound : Option TaskDomain :=
  match d.frames with
  | .unwinding i after :: rest =>
    match d.task i with
    | none => none
    | some t =>
      if d.idle i t = false then none
      else
        let d := { d with frames := rest }
        let t := { t with core := false, builtinWait := none }
        match after with
        | .finish _ _ => some ((d.put i t).clearBorrows i t after)
        | .destroy =>
          let d := (d.releasePin t.waitingSet).2
          let t := { t with waitingSet := 0 }
          some ((d.put i t).clearBorrows i t after)
  | _ => none

/-- The end of `turbowasm_component_subtask_abort_children`; `left` says that a child is left. -/
def childrenAborted (left : Bool) : Option TaskDomain :=
  match d.frames with
  | .clearing i saved after :: rest =>
    match d.task i with
    | none => none
    | some t =>
      let d := { d with active := saved, frames := rest }
      if left then some (d.torn i t after false)
      else
        match d.table.scopeClear i with
        | .error _ => some (d.torn i t after false)
        | .ok table => some ({ d with table }.torn i t after true)
  | _ => none

/-- The task leaves the domain; its storage is zeroed. -/
def vacate : TaskDomain :=
  { d with
    count := d.count - 1
    task := update d.task i none
    table := { d.table with scopes := update d.table.scopes i 0 }
    destroyed := t :: d.destroyed }

/-- The end of `turbowasm_component_task_destroy`. -/
def disposed : Option TaskDomain :=
  match d.frames with
  | .disposing i :: rest =>
    match d.task i with
    | none => none
    | some t =>
      let d := { d with
        frames := rest
        active := none
        exclusive := if d.exclusive = some i then none else d.exclusive }
      some (d.vacate i t)
  | _ => none

/-- An exited task that needs no cleanup, which may leave while another task is active. -/
def retirable : Bool :=
  d.active.isSome && d.active != some i && t.state.ended && !t.core && !t.hooks && !t.result &&
    d.table.scopes i == 0 && t.waitingSet == 0 && t.builtinWait.isNone && !t.destroying &&
    !t.resolving && d.exclusive != some i && d.auxiliary != some i

/-- `turbowasm_component_task_destroy` up to the unwinding.  `canUnwind` is what the builtin wait of
an endpoint says.  Inside a `clear_borrow_scope` no task is active, and a running one may be destroyed
too: its quantum would go on in freed memory, so neither that call nor those below it end any more. -/
def destroy (d : TaskDomain) (i : Nat) (canUnwind : Bool) : Option TaskDomain :=
  match d.task i with
  | none => none
  | some t =>
    if d.retirable i t then some (d.vacate i t)
    else if d.active.isSome ∨ t.destroying ∨ (t.resolving ∧ t.state ≠ .yielded) ∨
        (t.builtinWait = some .endpoint ∧ canUnwind = false) then none
    else some { d.put i { t with destroying := true } with
      active := some i
      frames := .unwinding i .destroy :: d.frames.takeWhile (·.task != i) }

/-! ## 4. Quanta -/

/-- `can_start`. -/
def canStart : Bool := (t.hostImport || d.backpressure == 0) && (!t.callback || d.exclusive.isNone)

/-- The task runs. -/
def enter (previous : Option Nat) : TaskDomain :=
  { d.put i t with frames := .resume i previous :: d.frames }

/-- The quantum ends with `TURBOWASM_YIELDED`. -/
def rest (previous : Option Nat) : TaskDomain :=
  { d.put i { t with state := .yielded } with active := previous }

/-- `start_core`; the first thing that the coroutine does is `prepare_core`. -/
def startCore (launch : Option Status) (previous : Option Nat) : TaskDomain :=
  let entered := if t.callback then { d with exclusive := some i } else d
  if t.coreGeneration = uint64Max then entered.finish i t (some .outOfMemory) (some previous)
  else
    match launch with
    | some status => entered.finish i t (some status) (some previous)
    | none => entered.enter i ({ t with
        phase := .started
        core := true
        coreGeneration := t.coreGeneration + 1 }.log
          (.started d.exclusive d.backpressure)) previous

/-- `start_callback` from the release of the pin. -/
def startCallback (launch : Option Status) (previous : Option Nat) : TaskDomain :=
  let released := d.releasePin t.waitingSet
  let t := { t with waitingSet := 0 }
  match released.1.or launch with
  | some status => released.2.finish i t (some status) (some previous)
  | none => { released.2 with exclusive := some i }.enter i ({ t with
      core := true
      betweenCallbacks := false
      coreGeneration := t.coreGeneration + 1 }.log (.reentered d.exclusive)) previous

/-- `resume_active` up to `turbowasm_execution_resume`.  `ready` is what the poll of the set or of the
builtin wait says, `launch` the failure to start or to continue Core. -/
def resumeActive (ready : Result Bool) (launch : Option Status) (previous : Option Nat) :
    TaskDomain :=
  if t.phase = .initial then
    if d.canStart t then d.startCore i t launch previous else d.rest i t previous
  else if t.betweenCallbacks then
    if d.exclusive.isSome then d.rest i t previous
    else if t.coreGeneration = uint64Max then d.finish i t (some .outOfMemory) (some previous)
    else if t.cancelPending then d.startCallback i t.deliver launch previous
    else if t.waitingSet = 0 then d.startCallback i t launch previous
    else
      match ready with
      | .error status => d.finish i t (some status) (some previous)
      | .ok false => d.rest i t previous
      | .ok true => d.startCallback i t launch previous
  else
    match if t.builtinWait = none ∨ t.builtinWait = some .yield then .ok true else ready with
    | .error status => d.finish i t (some status) (some previous)
    | .ok false => d.rest i t previous
    | .ok true =>
      match launch with
      | some status => d.finish i t (some status) (some previous)
      | none => d.enter i { t with builtinWait := none } previous

/-- `resume_task`; `host` says that a host call drives it (`resume_from_host`). -/
def resume (host : Bool) (ready : Result Bool) (launch : Option Status) :
    Option TaskDomain :=
  match d.task i with
  | none => none
  | some t =>
    if (d.active.isSome ∧ host = false) ∨ t.state = .running ∨ t.destroying ∨ t.state.ended ∨
        (host ∧ t.phase ≠ .initial ∧ t.betweenCallbacks = false) then none
    else if d.auxiliary.isSome ∧ d.auxiliary ≠ some i then
      some (d.put i { t with state := .yielded })
    else some ({ d with active := some i }.resumeActive i { t with state := .running } ready launch
      d.active)

/-- The coroutine suspends, in a builtin or for the host. -/
def suspend (wait : Option BuiltinWait) : Option TaskDomain :=
  match d.frames with
  | .resume i previous :: frames =>
    match d.task i with
    | none => none
    | some t =>
      if wait.isSome ∧ (d.synchronousDepth ≠ 0 ∨ t.builtinWait.isSome) then none
      else some ({ d with frames }.rest i { t with builtinWait := wait.or t.builtinWait } previous)
  | _ => none

/-- A callback returned `YIELD` or `WAIT`. -/
def park (previous : Option Nat) : TaskDomain :=
  { d.rest i { t with betweenCallbacks := true } previous with exclusive := none }

/-- The coroutine has ended: the rest of `resume_active`. -/
def complete (outcome : Result Nat) : Option TaskDomain :=
  match d.frames with
  | .resume i previous :: frames =>
    match d.task i with
    | none => none
    | some t =>
      if d.idle i t = false then none
      else
        let d := { d with frames }
        match outcome with
        | .error status =>
          some (d.finish i t (some (if status = .exception then .trapped else status))
            (some previous))
        | .ok result =>
          let packed := if t.callback then result else 0
          let code := packed % 16
          let t := { t with core := false }
          if 2 < code then some (d.finish i t (some .trapped) (some previous))
          else if code = 0 then
            some (d.finish i t (if t.phase.resolved ∧ d.table.scopes i = 0 then none
              else some .trapped) (some previous))
          else if code = 2 ∧ t.cancelPending = false then
            match d.waitAcquire (packed / 16) with
            | none => some (d.finish i t (some .trapped) (some previous))
            | some d => some (d.park i { t with waitingSet := packed / 16 } previous)
          else some (d.park i t previous)
  | _ => none

/-! ## 5. Settling the caller -/

/-- `turbowasm_component_task_request_cancel`; `status` is what the `resolve` hook returns.  A
cancellation has no result to lower, so the hook runs no foreign code. -/
def requestCancel (status : Option Status) : Option TaskDomain :=
  match d.task i with
  | none => none
  | some t =>
    if t.destroying ∨ t.resolving ∨ t.phase.resolved ∨ t.cancellationRequested ∨
        t.state.ended then none
    else
      let t := { t with cancellationRequested := true }.log .requested
      if t.phase = .initial then
        if t.hooks then
          some (d.finish i ((t.log (.called true)).answered true status) status none)
        else some (d.finish i (t.settle true) none none)
      else some (d.put i t)

/-- `turbowasm_component_task_deliver_cancel`. -/
def deliverCancel : Option TaskDomain :=
  match d.active with
  | none => none
  | some i =>
    match d.task i with
    | none => none
    | some t =>
      if t.destroying ∨ t.cancelPending = false then none else some (d.put i t.deliver)

/-- `returning_task`. -/
def returningTask : Option (Nat × ComponentTask) :=
  if d.mayLeave = false ∨ d.synchronousDepth ≠ 0 then none
  else
    match d.active with
    | none => none
    | some i =>
      match d.task i with
      | none => none
      | some t =>
        if t.destroying ∨ t.resolving ∨ t.phase ≠ .started ∨ d.table.scopes i ≠ 0 then none
        else some (i, t)

/-- `turbowasm_component_task_cancel`. -/
def cancel (status : Option Status) : Option TaskDomain :=
  match d.returningTask with
  | none => none
  | some (i, t) =>
    if t.cancellationDelivered = false then none
    else if t.hooks then some (d.put i ((t.log (.called true)).answered true status))
    else some (d.put i (t.settle true))

/-- `turbowasm_component_task_return` up to the `resolve` hook; `value` says that there is a result
to keep. -/
def return_ (value refused : Bool) : Option TaskDomain :=
  match d.returningTask with
  | none => none
  | some (i, t) =>
    if refused then none
    else if t.hooks then some (d.put i ({ t with resolving := true }.log (.called false)))
    else some (d.put i ({ t with result := value }.settle false))

/-- The task whose coroutine is running or unwinding. -/
def coroutine : Option Nat :=
  match d.frames with
  | .resume i _ :: _ => some i
  | .unwinding i _ :: _ => some i
  | _ => none

/-- `turbowasm_component_task_return` from the return of the `resolve` hook. -/
def answer (status : Option Status) : Option TaskDomain :=
  match d.coroutine with
  | none => none
  | some i =>
    match d.task i with
    | none => none
    | some t => if t.resolving then some (d.put i (t.answered false status)) else none

/-- `turbowasm_component_task_take_result`; a second call would find no value. -/
def takeResult : Option TaskDomain :=
  match d.task i with
  | none => none
  | some t =>
    if d.active.isSome ∨ (t.state.ended ∧ t.status.isSome) ∨ t.phase ≠ .returned then none
    else some (d.put i { t with result := false })

/-! ## 6. Builtins and the environment -/

/-- `set_event` up to the wait: the set is pinned. -/
def pin : Option TaskDomain :=
  match d.frames with
  | .resume i _ :: _ =>
    match d.waitAcquire handle with
    | none => none
    | some d => some { d with waits := (i, handle) :: d.waits }
  | _ => none

/-- `set_event` from the end of the wait, also of one that is interrupted. -/
def unpin : Option TaskDomain :=
  match d.coroutine with
  | none => none
  | some i =>
    if (i, handle) ∈ d.waits then
      some (releasePin { d with waits := d.waits.erase (i, handle) } handle).2
    else none

/-- `turbowasm_component_task_backpressure`. -/
def setBackpressure (increment : Bool) : Option TaskDomain :=
  if increment then
    if d.backpressure = 65535 then none else some { d with backpressure := d.backpressure + 1 }
  else
    if d.backpressure = 0 then none else some { d with backpressure := d.backpressure - 1 }

end TaskDomain

/-- What guests, hosts and codecs do to the handle table besides. -/
inductive TableAction where
  | insert (kind : HandleKind) (object : Nat) (allocated : Bool)
  | remove (handle : Nat) (kind : HandleKind)
  | resourceNew (identity : Nat) (rep : Value) (owned allocated : Bool)
  | publish (handle reservation identity : Nat) (rep : Value)
  /-- A borrowed argument of the task that is being prepared. -/
  | publishBorrowed (handle reservation identity : Nat) (rep : Value)
  | lendAcquire (handle identity : Nat)
  | lendRelease (handle identity : Nat)
  | takeOwned (handle identity : Nat)
  | resourceDrop (handle identity : Nat)

/-- One operation on the table; `scope` is the counter for borrows. -/
def Table.act (t : Table) (scope : Option Nat) : TableAction → Option Table
  | .insert kind object allocated =>
    if kind = .waitableSet then none
    else (t.handleInsert kind object allocated).toOption.map (·.2)
  | .remove handle kind =>
    if kind = .waitableSet then none else (t.handleRemove handle kind).toOption.map (·.2)
  | .resourceNew identity rep owned allocated =>
    (t.resourceNew identity rep owned allocated).toOption.map (·.2)
  | .publish handle reservation identity rep =>
    (t.publish handle reservation identity rep).toOption
  | .publishBorrowed handle reservation identity rep =>
    scope.bind fun s => (t.publishBorrowed handle reservation identity rep s).toOption
  | .lendAcquire handle identity => (t.lendAcquire handle identity).toOption
  | .lendRelease handle identity => (t.lendRelease handle identity).toOption
  | .takeOwned handle identity => (t.takeOwned handle identity).toOption.map (·.2)
  | .resourceDrop handle identity => (t.resourceDrop handle identity).toOption.map (·.2)

/-- The operations, with the arguments of the environment. -/
inductive TaskAction where
  | create (i : Nat) (callback hostImport hooked refused : Bool)
  | destroy (i : Nat) (canUnwind : Bool)
  | unwound
  | childrenAborted (left : Bool)
  | disposed
  | resume (i : Nat) (host : Bool) (ready : Result Bool) (launch : Option Status)
  | suspend (wait : Option BuiltinWait)
  | complete (outcome : Result Nat)
  | requestCancel (i : Nat) (status : Option Status)
  | deliverCancel
  | cancel (status : Option Status)
  | return_ (value refused : Bool)
  | answer (status : Option Status)
  | takeResult (i : Nat)
  | setNew (s : Nat) (allocated : Bool)
  | setDrop (handle : Nat) (joined : Bool)
  | pin (handle : Nat)
  | unpin (handle : Nat)
  | backpressure (increment : Bool)
  | table (action : TableAction)
  /-- Calls around this domain set and reset these three. -/
  | surround (mayLeave : Bool) (synchronousDepth : Nat) (auxiliary : Option Nat)

namespace TaskDomain

/-- The counter for the borrowed arguments of the task that runs. -/
def borrowScope (d : TaskDomain) : Option Nat :=
  match d.frames with
  | .resume i _ :: _ => (d.task i).bind fun t => if t.phase = .started then some i else none
  | _ => none

/-- One operation. -/
def act (d : TaskDomain) : TaskAction → Option TaskDomain
  | .create i callback hostImport hooked refused => d.create i callback hostImport hooked refused
  | .destroy i canUnwind => d.destroy i canUnwind
  | .unwound => d.unwound
  | .childrenAborted left => d.childrenAborted left
  | .disposed => d.disposed
  | .resume i host ready launch => d.resume i host ready launch
  | .suspend wait => d.suspend wait
  | .complete outcome => d.complete outcome
  | .requestCancel i status => d.requestCancel i status
  | .deliverCancel => d.deliverCancel
  | .cancel status => d.cancel status
  | .return_ value refused => d.return_ value refused
  | .answer status => d.answer status
  | .takeResult i => d.takeResult i
  | .setNew s allocated => d.setNew s allocated
  | .setDrop handle joined => d.setDrop handle joined
  | .pin handle => d.pin handle
  | .unpin handle => d.unpin handle
  | .backpressure increment => d.setBackpressure increment
  | .table action => (d.table.act d.borrowScope action).map fun table => { d with table }
  | .surround mayLeave synchronousDepth auxiliary =>
    some { d with mayLeave, synchronousDepth, auxiliary }

/-- `turbowasm_component_task_domain_init` with an empty table. -/
def start (maxEntries limit : Nat) : Option TaskDomain :=
  if limit = 0 then none
  else (Table.init maxEntries fun _ => 0).map fun table => { table, limit }

end TaskDomain

/-- A run of the operations, in any order. -/
def TaskRun : TaskDomain → TaskDomain → Prop :=
  Relation.ReflTransGen (Lib.Steps TaskDomain.act)

end TurboWasm
