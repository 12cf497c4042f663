/-
# Subtasks

`src/component_subtask.c` with the waitable it embeds (`src/component_waitable.c`).  A subtask is
the caller's side of a call: it is published as a handle, its callee starts and settles it through
the hooks `prepare_callee`, `resolve_callee` and `abandon_callee`, its terminal event releases the
loans of the call, and its storage is given back at the end.

Three calls run foreign code in the middle: a resolution runs the `lower` hook, a terminal delivery,
an eager publication and a destruction run the `release` hook, a cancellation runs the callee.  Such
a call is cut in two at that point, and the frame of the half that is still to come is kept in the
subtask (`lowering`, `releasing`, `cancelling`).  Between the halves every other operation may
happen, on this subtask or on another, so all the nestings of the source are among the runs.

The statuses that hooks return, the outcome of an allocation and what the callee's task says of
itself are arguments of the operations.  An operation that the source refuses without a change is
`none`.  The order in which a set looks for a ready member is not modelled: any ready member may be
the one whose event is delivered.
-/
import TurboWasm.Component.AsyncState
import TurboWasm.Component.Table
import TurboWasm.Lib.Runs

namespace TurboWasm

/-! ## 1. The record -/

/-- What happens to a subtask, as its caller and the owner of its loans see it. -/
inductive SubtaskEvent where
  /-- An event was taken out of the state. -/
  | delivered (phase : SubtaskPhase)
  /-- The release hook was called. -/
  | released
  /-- The destruction of a failed subtask began. -/
  | tornDown
  /-- The handle was dropped. -/
  | dropped
  /-- Publication answered a word; `handle` is the handle it registered. -/
  | published (phase : SubtaskPhase) (handle : Option Nat) (word : BitVec 32)
  deriving DecidableEq, Repr

/-- The call that waits for the release hook. -/
inductive ReleaseSite where
  /-- `take_event`, from `wait_end` if `synchronous`. -/
  | take (synchronous : Bool)
  | publish
  | destroy
  deriving DecidableEq, Repr

/-- `turbowasm_component_subtask`; `attached` is `callee != NULL`, `prepare` says that the callee's
`prepare` hook still points here, `child` is `parent != NULL`. -/
structure Subtask where
  hasLower : Bool
  attached : Bool := true
  prepare : Bool := true
  child : Bool := false
  published : Bool := false
  released : Bool := false
  destroyed : Bool := false
  handle : Option Nat := none
  setHandle : Option Nat := none
  syncWaiter : Bool := false
  delivering : Bool := false
  failure : Option Status := none
  state : SubtaskState := {}
  lowering : Option SubtaskState := none
  releasing : Option ReleaseSite := none
  cancelling : Bool := false
  history : List SubtaskEvent := []
  deriving DecidableEq, Repr

namespace Subtask

variable (s : Subtask) (t : Table)

/-- `resolved`. -/
def resolved : Bool := !s.state.phase.live

/-- One more event. -/
def log (e : SubtaskEvent) : Subtask := { s with history := e :: s.history }

/-- `failure == TURBOWASM_OK ? status : failure`. -/
def fail (status : Status) : Subtask := { s with failure := some (s.failure.getD status) }

/-- `turbowasm_component_subtask_attach`. -/
def attach : Option Subtask := if s.destroyed then none else some { s with child := true }

/-! ## 2. The callee's hooks -/

/-- `prepare_callee`. -/
def start (s : Subtask) : Option Subtask :=
  if s.prepare = false then none
  else s.state.start.map fun state => { s with state, prepare := false }

/-- The end of `resolve_callee`: the state computed before the lowering is written back. -/
def commit (next : SubtaskState) : Subtask :=
  { s with
    state := next
    prepare := if s.prepare ∧ s.state.phase = .starting then false else s.prepare
    attached := false
    lowering := none }

/-- `resolve_callee` up to the lowering. -/
def resolve (s : Subtask) (cancelled : Bool) : Option Subtask :=
  if s.attached = false ∨ s.lowering.isSome ∨ s.failure.isSome then none
  else
    match s.state.resolve cancelled with
    | none => none
    | some next =>
      if cancelled = false ∧ s.hasLower then some { s with lowering := some next }
      else some (s.commit next)

/-- `resolve_callee` from the return of the `lower` hook; `consumed` says that the hook cleared the
result. -/
def lowered (status : Option Status) (consumed : Bool) : Option Subtask :=
  match s.lowering with
  | none => none
  | some next =>
    match status with
    | some failure => some { s with failure := some failure, lowering := none }
    | none =>
      if consumed then some (s.commit next)
      else some { s with failure := some .trapped, lowering := none }

/-- `abandon_callee`. -/
def abandon (status : Status) : Option Subtask :=
  if s.attached = false ∨ s.lowering.isSome then none
  else some { s.fail status with prepare := false, attached := false }

/-! ## 3. Loans -/

/-- `release_loans` up to the `release` hook. -/
def releaseLoans (site : ReleaseSite) : Option Subtask :=
  if s.released then none
  else some ({ s with child := false, released := true, releasing := some site }.log .released)

/-- `release_loans` from the return of the `release` hook to the end of the call that ran it. -/
def releaseEnd (status : Option Status) : Option Subtask :=
  match s.releasing with
  | none => none
  | some site =>
    let s := { s with releasing := none, failure := status.or s.failure }
    match site with
    | .take synchronous =>
      let ends := synchronous && status != some .yielded
      some { s with delivering := false, syncWaiter := s.syncWaiter && !ends }
    | .publish =>
      let s := { s with delivering := false }
      match status with
      | some _ => some s
      | none => some (s.log (.published s.state.phase none (BitVec.ofNat 32 SubtaskPhase.returned.code)))
    | .destroy => some { s with destroyed := true }

/-! ## 4. Publication and delivery -/

/-- `turbowasm_component_subtask_publish`; `me` is the address of the subtask. -/
def publish (s : Subtask) (t : Table) (me : Nat) (allocated : Bool) : Option (Subtask × Table) :=
  if s.destroyed ∨ s.published ∨ s.delivering ∨ s.failure.isSome then none
  else if s.resolved then
    match s.state.takeEvent with
    | none => none
    | some (phase, state) =>
      let s := { s with state, published := true }.log (.delivered phase)
      match { s with delivering := true }.releaseLoans .publish with
      | none => some (s, t)
      | some s => some (s, t)
  else if s.handle.isSome ∨ s.setHandle.isSome ∨ s.syncWaiter then none
  else
    match t.handleInsert .subtask me allocated with
    | .error _ => none
    | .ok (handle, t) =>
      let word := BitVec.ofNat 32 s.state.phase.code ||| BitVec.ofNat 32 handle <<< 4
      some ({ s with
        handle := some handle
        published := true
        state := { s.state with pendingEvent := false } }.log
          (.published s.state.phase (some handle) word), t)

/-- `take_event` for a subtask, called from `wait_end` if `synchronous`: every answer but
`TURBOWASM_YIELDED` then ends the wait, also the failure of the owner and a trap. -/
def takeEvent (s : Subtask) (synchronous : Bool) : Option Subtask :=
  let done (s : Subtask) : Subtask := { s with syncWaiter := s.syncWaiter && !synchronous }
  if s.failure.isSome then some (done s)
  else if s.state.pendingEvent = false then none
  else
    match s.state.takeEvent with
    | none => some (done s)
    | some (phase, state) =>
      let s := { s with state }.log (.delivered phase)
      if state.resolveDelivered then
        match { s with delivering := true }.releaseLoans (.take synchronous) with
        | none => some (done s)
        | some s => some s
      else some (done s)

/-- `turbowasm_component_waitable_take`. -/
def take : Option Subtask := if s.syncWaiter ∨ s.delivering then none else s.takeEvent false

/-- `turbowasm_component_waitable_set_poll` delivering the event of this member. -/
def poll (set : Nat) : Option Subtask :=
  if s.setHandle ≠ some set ∨ s.delivering ∨ s.syncWaiter ∨
      (s.failure = none ∧ s.state.pendingEvent = false) then none
  else s.takeEvent false

/-- `turbowasm_component_waitable_join`; `known` says that the set is in the table. -/
def join (set : Option Nat) (known : Bool) : Option Subtask :=
  if s.syncWaiter ∨ s.delivering ∨ (set.isSome ∧ known = false) then none
  else some { s with setHandle := set }

/-- `turbowasm_component_waitable_wait_cancel`. -/
def waitCancel : Option Subtask :=
  if s.syncWaiter = false ∨ s.delivering then none else some { s with syncWaiter := false }

/-! ## 5. Cancellation -/

/-- `turbowasm_component_subtask_cancel_begin` up to the call of the callee.  `busy` is the part of
its test that reads the callee: destroying, cancelled already, or finished. -/
def cancelBegin (busy : Bool) : Option Subtask :=
  if s.state.resolveDelivered ∨ s.state.cancellationRequested ∨ s.failure.isSome ∨
      (s.resolved = false ∧ (s.attached = false ∨ s.lowering.isSome ∨ busy)) ∨
      s.setHandle.isSome ∨ s.syncWaiter ∨ s.delivering then none
  else if s.resolved then some { s with syncWaiter := true }
  else s.state.requestCancel.map fun state =>
    { s with state, syncWaiter := true, cancelling := true }

/-- `turbowasm_component_subtask_cancel_begin` from the return of the callee: an error gives up the
wait. -/
def cancelEnd (failed : Bool) : Option Subtask :=
  if s.cancelling = false then none
  else some { s with
    cancelling := false
    syncWaiter := if failed ∧ s.delivering = false then false else s.syncWaiter }

/-- `turbowasm_component_subtask_cancel_poll`. -/
def cancelPoll : Option Subtask :=
  if s.syncWaiter = false ∨ s.delivering ∨ (s.resolved = false ∧ s.failure = none) then none
  else s.takeEvent true

/-! ## 6. The end -/

/-- `turbowasm_component_subtask_drop`. -/
def drop : Option (Subtask × Table) :=
  if s.syncWaiter ∨ s.delivering ∨ s.state.resolveDelivered = false then none
  else
    match s.handle with
    | none => none
    | some handle =>
      match t.handleRemove handle .subtask with
      | .error _ => none
      | .ok (_, t) => some ({ s with setHandle := none, handle := none }.log .dropped, t)

/-- The mark that `turbowasm_component_subtask_abort_children` puts on a child. -/
def abort : Option Subtask :=
  if s.child = false ∨ s.syncWaiter ∨ s.delivering then none else some (s.fail .interrupted)

/-- `turbowasm_component_subtask_destroy` after the handle is gone. -/
def destroyBody : Option Subtask :=
  let s := if s.failure.isSome then s.log .tornDown else s
  let s := { s with delivering := true }
  if s.released then some { s with destroyed := true } else s.releaseLoans .destroy

/-- `turbowasm_component_subtask_destroy`, up to the `release` hook if it has to run. -/
def destroy : Option (Subtask × Table) :=
  if s.destroyed ∨ s.attached ∨ s.syncWaiter ∨ s.delivering ∨
      (s.failure = none ∧ s.state.resolveDelivered = false) then none
  else
    match s.handle with
    | none => s.destroyBody.map (·, t)
    | some handle =>
      match t.handleRemove handle .subtask with
      | .error _ => none
      | .ok (_, t) => s.destroyBody.map (·, t)

end Subtask

/-! ## 7. The subtasks of a table -/

/-- A handle table and the subtasks whose caller owns it. -/
structure SubtaskWorld where
  table : Table
  subtasks : List Subtask

/-- The operations, with the arguments of the environment.  The subtask is named by its address
where the source has its pointer, by a handle where the source looks it up. -/
inductive SubtaskAction where
  | create (hasLower : Bool)
  | attach (i : Nat)
  | start (i : Nat)
  | resolve (i : Nat) (cancelled : Bool)
  | lowered (i : Nat) (status : Option Status) (consumed : Bool)
  | abandon (i : Nat) (status : Status)
  | releaseEnd (i : Nat) (status : Option Status)
  | publish (i : Nat) (allocated : Bool)
  | take (handle : Nat)
  | poll (handle set : Nat)
  | join (handle : Nat) (set : Option Nat)
  | waitCancel (handle : Nat)
  | cancelBegin (handle : Nat) (busy : Bool)
  | cancelEnd (i : Nat) (failed : Bool)
  | cancelPoll (handle : Nat)
  | drop (handle : Nat)
  | abort (i : Nat)
  | destroy (i : Nat)
  /-- The other users of the table. -/
  | insertOther (kind : HandleKind) (object : Nat) (allocated : Bool)
  | removeOther (handle : Nat)
  deriving DecidableEq, Repr

namespace SubtaskWorld

variable (w : SubtaskWorld) (i : Nat)

/-- `get_subtask`: the address of the subtask of a handle. -/
def lookup (handle : Nat) : Option Nat :=
  match w.table.handleObject handle .subtask with
  | none => none
  | some i => if (w.subtasks[i]?).bind (·.handle) = some handle then some i else none

/-- An operation on one subtask. -/
def on (f : Subtask → Option Subtask) : Option SubtaskWorld := do
  let s ← w.subtasks[i]?
  let s ← f s
  some { w with subtasks := w.subtasks.set i s }

/-- An operation on one subtask and the table. -/
def onBoth (f : Subtask → Table → Option (Subtask × Table)) : Option SubtaskWorld := do
  let s ← w.subtasks[i]?
  let (s, table) ← f s w.table
  some { table, subtasks := w.subtasks.set i s }

/-- An operation on the subtask of a handle. -/
def onHandle (handle : Nat) (f : Subtask → Option Subtask) : Option SubtaskWorld := do
  let i ← w.lookup handle
  w.on i f

/-- One operation. -/
def act : SubtaskAction → Option SubtaskWorld
  | .create hasLower => some { w with subtasks := w.subtasks ++ [{ hasLower }] }
  | .attach i => w.on i Subtask.attach
  | .start i => w.on i Subtask.start
  | .resolve i cancelled => w.on i (·.resolve cancelled)
  | .lowered i status consumed => w.on i (·.lowered status consumed)
  | .abandon i status => w.on i (·.abandon status)
  | .releaseEnd i status => w.on i (·.releaseEnd status)
  | .publish i allocated => w.onBoth i fun s t => s.publish t i allocated
  | .take handle => w.onHandle handle Subtask.take
  | .poll handle set => w.onHandle handle (·.poll set)
  | .join handle set => w.onHandle handle
      (·.join set ((set.bind (w.table.handleObject · .waitableSet)).isSome))
  | .waitCancel handle => w.onHandle handle Subtask.waitCancel
  | .cancelBegin handle busy => w.onHandle handle (·.cancelBegin busy)
  | .cancelEnd i failed => w.on i (·.cancelEnd failed)
  | .cancelPoll handle => w.onHandle handle Subtask.cancelPoll
  | .drop handle => do
    let i ← w.lookup handle
    w.onBoth i Subtask.drop
  | .abort i => w.on i Subtask.abort
  | .destroy i => w.onBoth i Subtask.destroy
  | .insertOther kind object allocated =>
    if kind = .subtask then none
    else
      match w.table.handleInsert kind object allocated with
      | .error _ => none
      | .ok (_, table) => some { w with table }
  | .removeOther handle =>
    if w.table.kindGet handle = some .subtask then none
    else some { w with table := w.table.remove handle }

end SubtaskWorld

/-- A run of the operations, in any order and nesting. -/
def SubtaskRun : SubtaskWorld → SubtaskWorld → Prop :=
  Relation.ReflTransGen (Lib.Steps SubtaskWorld.act)

/-- A fresh table and no subtasks. -/
def SubtaskWorld.start (table : Table) : SubtaskWorld := { table, subtasks := [] }

end TurboWasm
