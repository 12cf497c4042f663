/-
# Stream and future ends

`src/component_endpoint.c` and the copy engine of `src/component_buffer.c`.  A stream or a future is
a pair of ends.  A read or a write lends a buffer to its end until the event of the operation is
taken; when both ends have a buffer, elements move from one to the other, as many as both allow.
Forwarding consumes two ends in the middle and joins the outer ones.

Ends and buffers are named by their addresses.  A buffer has one cell per element.  A cell holds an
element of the payload type, whatever the representation on either side is; a unit payload has no
memory in the source, its cells hold the unit here.  `offered` is the content of the cells when the
operation was admitted; it is not in the source.

A copy may call guest code.  It is cut in two at that point: both ends are guarded (`delivering` in
the source, the `transfer` record here) until the copy comes back, and every other operation may
happen in between.  The release hook of a guest buffer runs no guest code and is not cut.

Outcomes of the environment are arguments: the status of a copy and what a failed copy left of the
buffers, the status of a release hook, and `refused` for the checks of types, ranges and tables that
come before an admission.  An operation that is refused without a change is `none`.
-/
import Mathlib.Data.List.ReduceOption
import TurboWasm.Component.AsyncState
import TurboWasm.Lib.Bytes
import TurboWasm.Lib.Runs

namespace TurboWasm

open Lib Function

/-! ## 1. Buffers -/

/-- The address of a buffer: a descriptor of the host, or the `guest_buffer` of an end. -/
inductive BufferRef where
  | host (k : Nat)
  | guest (i : Nat)
  deriving DecidableEq, Repr

/-- `turbowasm_component_buffer_kind`. -/
inductive BufferKind where
  | host
  | guest
  deriving DecidableEq, Repr

/-- `turbowasm_component_buffer`; the length is the number of cells. -/
structure Buffer (V : Type) where
  kind : BufferKind := .host
  cells : List (Option V) := []
  progress : Nat := 0
  leased : Bool := false
  offered : List (Option V) := []

namespace Buffer

variable {V : Type} (b : Buffer V) (count : Nat)

/-- Elements that were not copied yet. -/
def remaining : Nat := b.cells.length - b.progress

/-- The loan to an end. -/
def lend : Buffer V := { b with progress := 0, leased := true, offered := b.cells }

/-- The source side of `copy_values`: the host's values are moved out, guest memory stays. -/
def consume : Buffer V :=
  { b with
    progress := b.progress + count
    cells := match b.kind with
      | .host => patch b.cells b.progress (List.replicate count none)
      | .guest => b.cells }

/-- The destination side of `copy_values`. -/
def receive (batch : List (Option V)) : Buffer V :=
  { b with progress := b.progress + batch.length, cells := patch b.cells b.progress batch }

/-- The elements that a copy takes. -/
def batch : List (Option V) := slice b.cells b.progress count

end Buffer

/-! ## 2. Ends -/

/-- The type of a stream or a future. -/
structure EndpointType where
  future : Bool
  payload : Nat
  deriving DecidableEq, Repr

/-- Who holds an end: the host, a handle table, or a component value. -/
inductive Place where
  | host
  | table
  | value
  deriving DecidableEq, Repr

/-- The rest of a copy in progress: what becomes of this end when the copy comes back. -/
structure Transfer where
  count : Nat
  next : EndpointState
  finished : Bool
  deriving DecidableEq, Repr

/-- What happens to an end. -/
inductive EndpointEvent (V : Type) where
  /-- A guest buffer was taken over with its release hook. -/
  | admitted
  /-- The release hook ran. -/
  | released
  /-- An event was delivered, with the elements that its operation moved. -/
  | delivered (word : BitVec 32) (elements : List V)
  /-- An error was delivered instead. -/
  | failed (status : Status) (elements : List V)

/-- `turbowasm_component_endpoint` with its waitable; `reserved` is `lower_scope != NULL`. -/
structure Endpoint (V : Type) where
  initialized : Bool := false
  closed : Bool := false
  readable : Bool := false
  type : EndpointType := ⟨false, 0⟩
  place : Place := .host
  reserved : Bool := false
  joined : Option Nat := none
  syncWaiter : Bool := false
  transfer : Option Transfer := none
  peer : Option Nat := none
  available : Option BufferRef := none
  operation : Option BufferRef := none
  failure : Option Status := none
  state : EndpointState := {}
  history : List (EndpointEvent V) := []

namespace Endpoint

variable {V : Type} (e : Endpoint V)

/-- `waitable.delivering`. -/
def delivering : Bool := e.transfer.isSome

/-- `live`. -/
def live : Bool := e.initialized && !e.closed && e.place != .value

/-- `movable_idle`. -/
def movableIdle : Bool :=
  e.live && e.failure.isNone && e.operation.isNone && e.available.isNone && !e.delivering &&
    !e.syncWaiter && e.joined.isNone && e.state.phase == .idle

/-- The tests of `submit` on the end itself. -/
def ready (pinned : Bool) : Bool :=
  e.failure.isNone && e.live && e.operation.isNone && !e.delivering && (!e.syncWaiter || pinned) &&
    e.state.phase == .idle

/-- `validate_buffer`: the destinations of the host start empty, sources are full. -/
def accepts (b : Buffer V) : Bool :=
  !b.leased && b.cells.length ≤ copyMaxLength && (!e.state.future || b.cells.length == 1) &&
    if e.readable then b.kind == .guest || b.cells.all (·.isNone) else b.cells.all (·.isSome)

/-- One more event. -/
def log (event : EndpointEvent V) : Endpoint V := { e with history := event :: e.history }

/-- An end that `close` or `forward` consumed. -/
def consumed : Endpoint V := { e with peer := none, closed := true, place := .host, joined := none }

end Endpoint

/-- Elements moved from a writing end to a reading end. -/
structure Move (V : Type) where
  writer : Nat
  reader : Nat
  elements : List V

/-- All ends and buffers, and the moves so far (not in the source). -/
structure EndpointWorld (V : Type) where
  endpoint : Nat → Endpoint V
  buffer : BufferRef → Buffer V
  moves : List (Move V) := []

/-- What a failed copy left of the two buffers. -/
structure FailedCopy (V : Type) where
  status : Status
  source : List (Option V)
  sourceMoved : Bool
  destination : List (Option V)
  destinationMoved : Bool

namespace EndpointWorld

variable {V : Type} (w : EndpointWorld V) (i : Nat) (e : Endpoint V) (r : BufferRef)

/-- Replace one end. -/
def put : EndpointWorld V := { w with endpoint := update w.endpoint i e }

/-- Replace one buffer. -/
def store (b : Buffer V) : EndpointWorld V := { w with buffer := update w.buffer r b }

/-- An end whose operation with the buffer `r` is admitted; a guest buffer comes with its release
hook. -/
def admitted (e : Endpoint V) (r : BufferRef) (available : Bool) (state : EndpointState)
    (transfer : Option Transfer) : Endpoint V :=
  { e with
    operation := some r
    available := if available then some r else none
    state
    transfer
    history := match r with
      | .host _ => e.history
      | .guest _ => .admitted :: e.history }

/-- The operation of end `i` with the buffer `r` is admitted. -/
def lendTo (available : Bool) (state : EndpointState) (transfer : Option Transfer) :
    EndpointWorld V :=
  (w.store r (w.buffer r).lend).put i (admitted (w.endpoint i) r available state transfer)

/-! ## 3. Opening and submitting -/

/-- The record that `initialize_endpoint` makes of a zeroed one. -/
def initial (type : EndpointType) (readable : Bool) (peer : Nat) (inTable : Bool) : Endpoint V :=
  { initialized := true
    readable
    type
    place := if inTable then .table else .host
    peer := some peer
    state := { future := type.future } }

/-- `turbowasm_component_endpoint_pair_open`; a failed registration leaves both ends empty. -/
def openPair (reader writer : Nat) (type : EndpointType) (readerTable writerTable : Bool) :
    Option (EndpointWorld V) :=
  if reader = writer ∨ (w.endpoint reader).initialized ∨ (w.endpoint writer).initialized then none
  else some ((w.put reader (initial type true writer readerTable)).put writer
    (initial type false reader writerTable))

/-- The rendezvous of `submit` with the available buffer `o` of the peer `j`. -/
def submitMeet (next : EndpointState) (j : Nat) (o : BufferRef) : Option (EndpointWorld V) :=
  let e := w.endpoint i
  let p := w.endpoint j
  let other := w.buffer o
  let length := (w.buffer r).cells.length
  if other.cells.length < other.progress ∨ other.leased = false then none
  else if length ≠ 0 ∧ other.remaining ≠ 0 then
    let count := min length other.remaining
    match next.notify count, p.state.notify (other.progress + count) with
    | some self, some peer =>
      some ((w.lendTo i r false { e.state with phase := .copying } (some ⟨count, self, true⟩)).put j
        { p with transfer := some ⟨count, peer, count == other.remaining⟩ })
    | _, _ => none
  else if length ≠ 0 ∨ (e.readable ∧ other.remaining = 0) then
    match p.state.notify 0 with
    | none => none
    | some peer => some ((w.lendTo i r true next none).put j { p with available := none, state := peer })
  else
    match next.notify 0 with
    | none => none
    | some self => some (w.lendTo i r false self none)

/-- `submit`. -/
def submit (pinned refused : Bool) : Option (EndpointWorld V) :=
  let e := w.endpoint i
  if e.ready pinned = false ∨ e.accepts (w.buffer r) = false ∨ refused then none
  else
    match e.state.beginCopy with
    | none => none
    | some next =>
      match e.peer with
      | none =>
        if next.peerDropped = false ∨ next.pendingEvent = false then none
        else some (w.lendTo i r false next none)
      | some j =>
        match (w.endpoint j).available with
        | none => some (w.lendTo i r true next none)
        | some o => w.submitMeet i r next j o

/-- `turbowasm_component_waitable_wait_begin` on an end. -/
def canPin : Bool := e.place == .table && e.joined.isNone && !e.syncWaiter && !e.delivering

/-- `turbowasm_component_endpoint_submit_guest`: the descriptor is copied into the end.  A failed
admission zeroes it again and gives up the pin. -/
def submitGuest (cells : List (Option V)) (synchronous refused : Bool) : Option (EndpointWorld V) :=
  let e := w.endpoint i
  if e.live = false ∨ e.operation.isSome ∨ (w.buffer (.guest i)).leased ∨
      (synchronous ∧ canPin e = false) then none
  else
    let w := (w.store (.guest i) { kind := .guest, cells }).put i
      { e with syncWaiter := synchronous || e.syncWaiter }
    w.submit i (.guest i) synchronous refused

/-! ## 4. The end of a copy -/

/-- An end whose copy succeeded. -/
def settle (t : Transfer) : Endpoint V :=
  { e with
    transfer := none
    state := t.next
    available := if t.finished then none else e.available }

/-- An end whose copy failed. -/
def poison (status : Status) (state : EndpointState) : Endpoint V :=
  { e with transfer := none, failure := some status, available := none, state }

/-- `transfer_buffers` from the return of a copy that succeeded, at the reading end `i`. -/
def transferred (j : Nat) (t u : Transfer) (rb qb : BufferRef) : EndpointWorld V :=
  let batch := (w.buffer qb).batch t.count
  { endpoint := update (update w.endpoint i (settle (w.endpoint i) t)) j
      (settle (w.endpoint j) u)
    buffer := update (update w.buffer rb ((w.buffer rb).receive batch)) qb
      ((w.buffer qb).consume t.count)
    moves := w.moves ++ [⟨j, i, batch.reduceOption⟩] }

/-- `transfer_buffers` from the return of a copy that failed: both operations are cancelled. -/
def spoiled (j : Nat) (t : Transfer) (rb qb : BufferRef) (f : FailedCopy V) : EndpointWorld V :=
  let r := w.endpoint i
  let q := w.endpoint j
  let source := w.buffer qb
  let destination := w.buffer rb
  let read := r.state.requestCancel false
  let write := if read.isSome then q.state.requestCancel false else none
  { w with
    endpoint := update (update w.endpoint i
      (poison r f.status (read.getD r.state))) j (poison q f.status (write.getD q.state))
    buffer := update (update w.buffer rb { destination with
        cells := f.destination
        progress := if f.destinationMoved then destination.progress + t.count
          else destination.progress }) qb { source with
        cells := f.source
        progress := if f.sourceMoved then source.progress + t.count else source.progress } }

/-- The copy of the reading end `i` comes back.  `copy_values` refuses a count that one of the
buffers has no room for, so no such copy succeeds. -/
def copied (failure : Option (FailedCopy V)) : Option (EndpointWorld V) :=
  let r := w.endpoint i
  match r.transfer, r.peer, r.operation with
  | some t, some j, some rb =>
    let q := w.endpoint j
    match q.transfer, q.operation with
    | some u, some qb =>
      if r.readable = false then none
      else
        match failure with
        | none =>
          if (w.buffer rb).remaining < t.count ∨ (w.buffer qb).remaining < t.count then none
          else some (w.transferred i j t u rb qb)
        | some f =>
          if f.source.length ≠ (w.buffer qb).cells.length ∨
              f.destination.length ≠ (w.buffer rb).cells.length then none
          else some (w.spoiled i j t rb qb f)
    | _, _ => none
  | _, _, _ => none

/-! ## 5. Events -/

/-- The elements that the operation in progress has moved: what a reader finds in its buffer, what a
writer has given away. -/
def moved : List V :=
  let e := w.endpoint i
  match e.operation with
  | none => []
  | some r =>
    let b := w.buffer r
    ((if e.readable then b.cells else b.offered).take b.progress).reduceOption

/-- The buffers after `release_buffer`. -/
def unlend : EndpointWorld V :=
  match (w.endpoint i).operation with
  | none => w
  | some (.host k) => w.store (.host k) { w.buffer (.host k) with leased := false }
  | some (.guest k) => w.store (.guest k) {}

/-- The answer of `release_buffer`; `cleanup` is what the release hook returns. -/
def releaseAnswer (cleanup : Option Status) : Option Status :=
  let e := w.endpoint i
  e.failure.or (if e.operation == some (.guest i) then cleanup else none)

/-- The delivery of an event: `turbowasm_component_endpoint_take_event` and `release_buffer`. -/
def deliver (cleanup : Option Status) : Option (EndpointWorld V) :=
  let e := w.endpoint i
  match e.state.takeEvent with
  | none => none
  | some (word, state) =>
    let guest := e.operation == some (.guest i)
    let released := if guest then e.log .released else e
    let event : EndpointEvent V :=
      match w.releaseAnswer i cleanup with
      | some status => .failed status (w.moved i)
      | none => .delivered word (w.moved i)
    some ((w.unlend i).put i
      ({ released with operation := none, available := none, state }.log event))

/-- `turbowasm_component_endpoint_take`. -/
def take (cleanup : Option Status) : Option (EndpointWorld V) :=
  let e := w.endpoint i
  if e.live = false ∨ e.delivering ∨ e.syncWaiter then none else w.deliver i cleanup

/-- `turbowasm_component_waitable_set_poll` delivering the event of this member. -/
def poll (set : Nat) (cleanup : Option Status) : Option (EndpointWorld V) :=
  let e := w.endpoint i
  if e.live = false ∨ e.place ≠ .table ∨ e.joined ≠ some set ∨ e.delivering ∨ e.syncWaiter then none
  else w.deliver i cleanup

/-- `turbowasm_component_waitable_wait_end`: every answer but `TURBOWASM_YIELDED` ends the wait. -/
def waitEnd (cleanup : Option Status) : Option (EndpointWorld V) :=
  let e := w.endpoint i
  if e.live = false ∨ e.place ≠ .table ∨ e.syncWaiter = false ∨ e.delivering ∨
      e.state.pendingEvent = false then none
  else
    let waits := w.releaseAnswer i cleanup == some .yielded
    match (w.put i { e with syncWaiter := waits }).deliver i cleanup with
    | none => some (w.put i { e with syncWaiter := false })
    | some w => some w

/-- `turbowasm_component_waitable_wait_cancel`. -/
def waitCancel : Option (EndpointWorld V) :=
  let e := w.endpoint i
  if e.live = false ∨ e.place ≠ .table ∨ e.syncWaiter = false ∨ e.delivering then none
  else some (w.put i { e with syncWaiter := false })

/-- `turbowasm_component_waitable_join`. -/
def join (set : Option Nat) : Option (EndpointWorld V) :=
  let e := w.endpoint i
  if e.live = false ∨ e.place ≠ .table ∨ e.syncWaiter ∨ e.delivering then none
  else some (w.put i { e with joined := set })

/-- `turbowasm_component_endpoint_cancel`. -/
def cancel : Option (EndpointWorld V) :=
  let e := w.endpoint i
  if e.live = false ∨ e.delivering ∨ e.syncWaiter then none
  else
    match e.state.requestCancel false with
    | none => none
    | some state => some (w.put i { e with state, available := none })

/-! ## 6. Closing and forwarding -/

/-- `turbowasm_component_endpoint_close`. -/
def close : Option (EndpointWorld V) :=
  let e := w.endpoint i
  if e.live = false ∨ e.operation.isSome ∨ e.syncWaiter ∨ e.delivering ∨
      (e.state.phase ≠ .idle ∧ e.state.phase ≠ .done) then none
  else
    match e.peer with
    | none => some (w.put i e.consumed)
    | some j =>
      let p := w.endpoint j
      if p.peer ≠ some i then none
      else
        match p.state.dropPeer with
        | none => none
        | some state =>
          some ((w.put i e.consumed).put j { p with peer := none, available := none, state })

/-- `forwardable`. -/
def forwardable : Bool :=
  let e := w.endpoint i
  e.movableIdle && !e.reserved &&
    match e.peer with
    | none => true
    | some j => (w.endpoint j).peer == some i && !(w.endpoint j).closed && !(w.endpoint j).delivering

/-- The commit of `forward`: the ends in the middle are consumed and the outer ones joined. -/
def link (s d r q : Nat) (reader writer : Endpoint V) : EndpointWorld V :=
  (((w.put s (w.endpoint s).consumed).put d (w.endpoint d).consumed).put r
    { reader with peer := some q }).put q { writer with peer := some r }

/-- The rendezvous of `forward` with the available buffers of the outer ends. -/
def forwardMeet (s d r q : Nat) (rb qb : BufferRef) (refused : Bool) : Option (EndpointWorld V) :=
  let reader := w.endpoint r
  let writer := w.endpoint q
  let read := w.buffer rb
  let write := w.buffer qb
  if reader.operation ≠ some rb ∨ writer.operation ≠ some qb ∨ read.leased = false ∨
      write.leased = false ∨ read.cells.length < read.progress ∨
      write.cells.length < write.progress ∨ reader.state.phase ≠ .copying ∨
      writer.state.phase ≠ .copying then none
  else if read.remaining ≠ 0 ∧ write.remaining ≠ 0 then
    if refused then none
    else
      let count := min read.remaining write.remaining
      match reader.state.notify (read.progress + count),
          writer.state.notify (write.progress + count) with
      | some nextRead, some nextWrite =>
        some (w.link s d r q
          { reader with transfer := some ⟨count, nextRead, count == read.remaining⟩ }
          { writer with transfer := some ⟨count, nextWrite, count == write.remaining⟩ })
      | _, _ => none
  else if write.remaining = 0 then
    match writer.state.notify 0 with
    | none => none
    | some state => some (w.link s d r q reader { writer with state, available := none })
  else
    match reader.state.notify 0 with
    | none => none
    | some state => some (w.link s d r q { reader with state, available := none } writer)

/-- `turbowasm_component_endpoint_forward_from_task`, from the readable end `s` to the writable end
`d`. -/
def forward (s d : Nat) (refused : Bool) : Option (EndpointWorld V) :=
  let source := w.endpoint s
  let destination := w.endpoint d
  if w.forwardable s = false ∨ w.forwardable d = false ∨ source.readable = false ∨
      destination.readable ∨ source.type ≠ destination.type then none
  else
    match source.peer, destination.peer with
    | some q, some r =>
      if q = d then (w.close s).bind (·.close d)
      else
        match (w.endpoint r).available, (w.endpoint q).available with
        | some rb, some qb => w.forwardMeet s d r q rb qb refused
        | _, _ => some (w.link s d r q (w.endpoint r) (w.endpoint q))
    | _, _ => (w.close s).bind (·.close d)

/-! ## 7. Moves through values -/

/-- `movable_readable`. -/
def movableReadable : Bool := e.movableIdle && e.readable

/-- `turbowasm_component_endpoint_into_value` and `turbowasm_component_endpoint_codec_lift`: an idle
readable end goes into a value. -/
def intoValue : Option (EndpointWorld V) :=
  let e := w.endpoint i
  if movableReadable e = false then none else some (w.put i { e with place := .value })

/-- `turbowasm_component_endpoint_attach_readable`. -/
def attachReadable : Option (EndpointWorld V) :=
  let e := w.endpoint i
  if movableReadable e = false ∨ e.place ≠ .host then none
  else some (w.put i { e with place := .table })

/-- A live value that holds the end. -/
def heldByValue : Bool := e.initialized && !e.closed && e.place == .value

/-- `turbowasm_component_endpoint_take_value`. -/
def takeValue : Option (EndpointWorld V) :=
  let e := w.endpoint i
  if heldByValue e = false ∨ e.reserved then none else some (w.put i { e with place := .host })

/-- `release_endpoint_value`; `transferred` says that the value had been handed over. -/
def releaseValue (transferred : Bool) : Option (EndpointWorld V) :=
  let e := w.endpoint i
  if heldByValue e = false ∨ e.reserved then none
  else
    let w := w.put i { e with place := .host }
    if transferred then some ((w.close i).getD w) else some w

/-- `turbowasm_component_endpoint_codec_lower`. -/
def lower : Option (EndpointWorld V) :=
  let e := w.endpoint i
  if heldByValue e = false ∨ e.reserved then none else some (w.put i { e with reserved := true })

/-- `finish_codec` for one reservation. -/
def finishLower (commit : Bool) : Option (EndpointWorld V) :=
  let e := w.endpoint i
  if heldByValue e = false ∨ e.reserved = false then none
  else some (w.put i { e with
    reserved := false
    place := if commit then .table else .value })

/-- The host prepares a buffer that is not lent. -/
def fill (k : Nat) (kind : BufferKind) (cells : List (Option V)) : Option (EndpointWorld V) :=
  if (w.buffer (.host k)).leased then none else some (w.store (.host k) { kind, cells })

end EndpointWorld

/-- The operations, with the arguments of the environment. -/
inductive EndpointAction (V : Type) where
  | openPair (reader writer : Nat) (type : EndpointType) (readerTable writerTable : Bool)
  | fill (k : Nat) (kind : BufferKind) (cells : List (Option V))
  | submit (i k : Nat) (refused : Bool)
  | submitGuest (i : Nat) (cells : List (Option V)) (synchronous refused : Bool)
  | copied (i : Nat) (failure : Option (FailedCopy V))
  | take (i : Nat) (cleanup : Option Status)
  | poll (i set : Nat) (cleanup : Option Status)
  | waitEnd (i : Nat) (cleanup : Option Status)
  | waitCancel (i : Nat)
  | join (i : Nat) (set : Option Nat)
  | cancel (i : Nat)
  | close (i : Nat)
  | forward (s d : Nat) (refused : Bool)
  | intoValue (i : Nat)
  | attachReadable (i : Nat)
  | takeValue (i : Nat)
  | releaseValue (i : Nat) (transferred : Bool)
  | lower (i : Nat)
  | finishLower (i : Nat) (commit : Bool)

namespace EndpointWorld

variable {V : Type}

/-- One operation. -/
def act (w : EndpointWorld V) : EndpointAction V → Option (EndpointWorld V)
  | .openPair reader writer type readerTable writerTable =>
    w.openPair reader writer type readerTable writerTable
  | .fill k kind cells => w.fill k kind cells
  | .submit i k refused => w.submit i (.host k) false refused
  | .submitGuest i cells synchronous refused => w.submitGuest i cells synchronous refused
  | .copied i failure => w.copied i failure
  | .take i cleanup => w.take i cleanup
  | .poll i set cleanup => w.poll i set cleanup
  | .waitEnd i cleanup => w.waitEnd i cleanup
  | .waitCancel i => w.waitCancel i
  | .join i set => w.join i set
  | .cancel i => w.cancel i
  | .close i => w.close i
  | .forward s d refused => w.forward s d refused
  | .intoValue i => w.intoValue i
  | .attachReadable i => w.attachReadable i
  | .takeValue i => w.takeValue i
  | .releaseValue i transferred => w.releaseValue i transferred
  | .lower i => w.lower i
  | .finishLower i commit => w.finishLower i commit

/-- Zeroed storage. -/
def start : EndpointWorld V := { endpoint := fun _ => {}, buffer := fun _ => {} }

end EndpointWorld

/-- A run of the operations, in any order. -/
def EndpointRun {V : Type} : EndpointWorld V → EndpointWorld V → Prop :=
  Relation.ReflTransGen (Lib.Steps EndpointWorld.act)

end TurboWasm
