/-
# Lowering handles into a table

`turbowasm_component_endpoint_codec_*` of `src/component_endpoint.c`,
`turbowasm_component_exec_resource_codec_*` of `src/component_exec_async_resource.c` and
`commit_buffer`, `rollback_buffer` of `src/component_exec_async.c`.  A batch of values is lowered in
two steps: each handle is reserved first, and the reservations are published or undone together.  A
reserved resource is an entry of a kind of its own; a reserved end has an entry of its kind, but its
waitable does not name the table.

Values are named by the addresses of their owner records, waitables by theirs, and codecs by a number;
several transactions may be open on one table.  The host callbacks of a commit do not come back to the
table and are left out, like the checks of types (`typed`), the allocator (`allocated`) and the owners
that keep an instance alive.
-/
import TurboWasm.Component.Borrows
import TurboWasm.Lib.Runs

namespace TurboWasm

open Lib Function

/-! ## 1. Records -/

/-- `turbowasm_component_async_resource_owner`: the owner of a lifted resource.  `local_` says that
its lender is a handle of this table; `admitted` is `*host_admitted`. -/
structure ResourceOwner where
  identity : Nat
  rep : Value
  borrowed : Bool
  lender : Nat := 0
  local_ : Bool := true
  admitted : Option Bool := none
  committed : Bool := false
  scope : Option Nat := none
  reserved : Nat := 0
  reservedIdentity : Nat := 0
  deriving DecidableEq, Repr

/-- `waitable_kind`. -/
def HandleKind.waitable : HandleKind → Bool
  | .subtask => true
  | .streamRead => true
  | .streamWrite => true
  | .futureRead => true
  | .futureWrite => true
  | .resource => false
  | .waitableSet => false
  | .reservation => false

/-- A waitable with what the codec reads of an end: `table` and `handle` are those of the waitable,
`valued` says that a component value owns the end (`value_owner`), `admitted` is `*host_admitted` of
that owner, `scope` and `lowerHandle` are `lower_scope` and `lower_handle`. -/
structure CodecEnd where
  kind : HandleKind
  waitable : kind.waitable
  table : Option Nat := none
  handle : Nat := 0
  joined : Nat := 0
  valued : Bool := false
  closed : Bool := false
  admitted : Option Bool := none
  scope : Option Nat := none
  lowerHandle : Nat := 0

/-- `readable`. -/
def CodecEnd.readable (e : CodecEnd) : Bool := e.kind == .streamRead || e.kind == .futureRead

/-- The table `address` with the owners and ends whose handles are lowered into it.  `borrowScope` is
the task of a codec, whose counter the borrows claim. -/
structure CodecWorld where
  table : Table
  address : Nat
  owners : Nat → Option ResourceOwner := fun _ => none
  ends : Nat → CodecEnd
  resourceHead : Nat → List Nat := fun _ => []
  endpointHead : Nat → List Nat := fun _ => []
  borrowScope : Nat → Option Nat := fun _ => none
  destroying : Nat → Bool := fun _ => false

namespace CodecWorld

variable (w : CodecWorld) (c k handle : Nat)

def putOwner (o : ResourceOwner) : CodecWorld := { w with owners := update w.owners k (some o) }

def putEnd (e : CodecEnd) : CodecWorld := { w with ends := update w.ends k e }

/-! ## 2. Lowering -/

/-- The task of the codec can take borrows. -/
def scopeUsable : Bool :=
  match w.borrowScope c with
  | none => false
  | some s => !w.destroying s

/-- `lower_resource`: the word for the guest.  A borrow that goes back to the instance that defines
the resource (`provided` is false) is its representation, not a handle. -/
def lowerResource (identity : Nat) (provided typed allocated : Bool) :
    Result (Nat × CodecWorld) :=
  match w.owners k with
  | none => .error .typeMismatch
  | some o =>
    if typed = false ∨ o.committed ∨ o.scope.isSome then .error .typeMismatch
    else if o.admitted = some false then .error .invalidArgument
    else if o.borrowed ∧ provided = false then
      match o.rep with
      | .i32 bits => .ok (bits.toNat, w)
      | _ => .error .typeMismatch
    else if o.borrowed ∧ w.scopeUsable c = false then .error .trapped
    else do
      let (handle, table) ← w.table.handleInsert .reservation k allocated
      let o := { o with reserved := handle, reservedIdentity := identity, scope := some c }
      .ok (handle, { w.putOwner k o with
        table
        resourceHead := update w.resourceHead c (k :: w.resourceHead c) })

/-- `turbowasm_component_endpoint_codec_lower`. -/
def lowerEndpoint (typed allocated : Bool) : Result (Nat × CodecWorld) :=
  let e := w.ends k
  if typed = false ∨ e.valued = false ∨ e.closed ∨ e.readable = false then .error .typeMismatch
  else if e.scope.isSome ∨ e.table.isSome then .error .trapped
  else do
    let (handle, table) ← w.table.handleInsert e.kind k allocated
    .ok (handle, { w.putEnd k { e with scope := some c, lowerHandle := handle } with
      table
      endpointHead := update w.endpointHead c (k :: w.endpointHead c) })

/-! ## 3. Commit and rollback -/

/-- The loop of `turbowasm_component_exec_resource_codec_preflight`; `none` is `TURBOWASM_OK`. -/
def preflightOwners (w : CodecWorld) (c : Nat) : List Nat → Nat → Option Status
  | [], _ => none
  | k :: ks, borrows =>
    match w.owners k with
    | none => some .trapped
    | some o =>
      if o.scope ≠ some c ∨ o.committed ∨ o.reservedIdentity = 0 ∨ Table.validRep o.rep = false ∨
          w.table.handleObject o.reserved .reservation ≠ some k then some .trapped
      else if o.borrowed then
        match w.borrowScope c with
        | none => some .trapped
        | some s =>
          if w.destroying s then some .trapped
          else if borrows = uint32Max - w.table.scopes s then some .outOfMemory
          else w.preflightOwners c ks (borrows + 1)
      else w.preflightOwners c ks borrows

/-- `turbowasm_component_exec_resource_codec_preflight`. -/
def preflightResources : Option Status := w.preflightOwners c (w.resourceHead c) 0

/-- The owner record after its handle was published. -/
def ResourceOwner.handOver (o : ResourceOwner) : ResourceOwner :=
  { o with scope := none, reserved := 0, committed := true }

/-- The owner record after its reservation was undone. -/
def ResourceOwner.takeBack (o : ResourceOwner) : ResourceOwner :=
  { o with scope := none, reserved := 0 }

/-- The publication of one handle. -/
def publishOwner (o : ResourceOwner) : Result Table :=
  if o.borrowed then
    match w.borrowScope c with
    | none => .error .trapped
    | some s => w.table.publishBorrowed o.reserved k o.reservedIdentity o.rep s
  else w.table.publish o.reserved k o.reservedIdentity o.rep

/-- The loop of `turbowasm_component_exec_resource_codec_commit`. -/
def commitOwners (w : CodecWorld) (c : Nat) : List Nat → Option Status × CodecWorld
  | [] => (none, w)
  | k :: ks =>
    match w.owners k with
    | none => (some .trapped, w)
    | some o =>
      match w.publishOwner c k o with
      | .error status => (some status, w)
      | .ok table =>
        commitOwners { w.putOwner k (ResourceOwner.handOver o) with
          table
          resourceHead := update w.resourceHead c ks } c ks

/-- `turbowasm_component_exec_resource_codec_commit`. -/
def commitResources : Option Status × CodecWorld :=
  match w.preflightResources c with
  | some status => (some status, w)
  | none => w.commitOwners c (w.resourceHead c)

/-- The loop of `turbowasm_component_exec_resource_codec_rollback`. -/
def rollbackOwners (w : CodecWorld) (c : Nat) : List Nat → Option Status × CodecWorld
  | [] => (none, w)
  | k :: ks =>
    match w.owners k with
    | none => (some .trapped, w)
    | some o =>
      let removed := w.table.handleRemove o.reserved .reservation
      let cleanup : Option Status :=
        match removed with
        | .error status => some status
        | .ok (object, _) => if object = some k then none else some .trapped
      let table := match removed with
        | .error _ => w.table
        | .ok (_, table) => table
      let rest := rollbackOwners { w.putOwner k (ResourceOwner.takeBack o) with
        table
        resourceHead := update w.resourceHead c ks } c ks
      (cleanup.or rest.1, rest.2)

/-- `preflight_codec` for one end. -/
def endReady (commit : Bool) (k : Nat) : Bool :=
  let e := w.ends k
  e.scope == some c && e.valued && e.table.isNone && (!commit || e.admitted != some false) &&
    w.table.handleObject e.lowerHandle e.kind == some k

/-- The end after its handle was published. -/
def publishedEnd (e : CodecEnd) : CodecEnd :=
  { e with
    table := some w.address
    handle := e.lowerHandle
    valued := false
    admitted := none
    scope := none
    lowerHandle := 0 }

/-- The loop of `finish_codec` for a commit. -/
def commitEnds (w : CodecWorld) (c : Nat) : List Nat → CodecWorld
  | [] => w
  | k :: ks =>
    commitEnds { w.putEnd k (w.publishedEnd (w.ends k)) with
      endpointHead := update w.endpointHead c ks } c ks

/-- `turbowasm_component_endpoint_codec_commit`. -/
def commitEndpoints : Option Status × CodecWorld :=
  if (w.endpointHead c).all (w.endReady c true) then (none, w.commitEnds c (w.endpointHead c))
  else (some .trapped, w)

/-- The loop of `finish_codec` for a rollback. -/
def rollbackEnds (w : CodecWorld) (c : Nat) : List Nat → Option Status × CodecWorld
  | [] => (none, w)
  | k :: ks =>
    let e := w.ends k
    match w.table.handleRemove e.lowerHandle e.kind with
    | .error status => (some status, w)
    | .ok (_, table) =>
      rollbackEnds { w.putEnd k { e with scope := none, lowerHandle := 0 } with
        table
        endpointHead := update w.endpointHead c ks } c ks

/-- `turbowasm_component_endpoint_codec_rollback`. -/
def rollbackEndpoints : Option Status × CodecWorld :=
  if (w.endpointHead c).all (w.endReady c false) then w.rollbackEnds c (w.endpointHead c)
  else (some .trapped, w)

/-- `commit_buffer`. -/
def commitBuffer : Option Status × CodecWorld :=
  match w.preflightResources c with
  | some status => (some status, w)
  | none =>
    match w.commitEndpoints c with
    | (some status, w) => (some status, w)
    | (none, w) => w.commitResources c

/-- `rollback_buffer`. -/
def rollbackBuffer : Option Status × CodecWorld :=
  let ends := w.rollbackEndpoints c
  let resources := ends.2.rollbackOwners c (ends.2.resourceHead c)
  (ends.1.or resources.1, resources.2)

/-! ## 4. What guests and hosts do with handles -/

/-- `get_waitable`. -/
def getWaitable : Option Nat :=
  match w.table.kindGet handle with
  | none => none
  | some kind =>
    if kind.waitable = false then none
    else
      match w.table.handleObject handle kind with
      | none => none
      | some k =>
        if (w.ends k).table = some w.address ∧ (w.ends k).handle = handle then some k else none

/-- `turbowasm_component_endpoint_get`. -/
def endpointGet (kind : HandleKind) : Option Nat :=
  if kind.waitable = false ∨ kind = .subtask then none
  else
    match w.table.handleObject handle kind with
    | none => none
    | some k =>
      let e := w.ends k
      if e.table = some w.address ∧ e.handle = handle ∧ e.closed = false ∧ e.valued = false ∧
          e.kind = kind then some k
      else none

/-- `turbowasm_component_waitable_join`; `known` says that the set exists. -/
def join (set : Nat) (known : Bool) : Option CodecWorld :=
  match w.getWaitable handle with
  | none => none
  | some k => if known then some (w.putEnd k { w.ends k with joined := set }) else none

/-- `turbowasm_component_waitable_drop`; `idle` says that nothing is in progress. -/
def waitableDrop (idle : Bool) : Option CodecWorld :=
  match w.getWaitable handle with
  | none => none
  | some k =>
    match w.table.kindGet handle with
    | none => none
    | some kind =>
      if idle = false then none
      else
        match w.table.handleRemove handle kind with
        | .error _ => none
        | .ok (_, table) =>
          some { w.putEnd k { w.ends k with table := none, handle := 0, joined := 0 } with table }

/-- `turbowasm_component_endpoint_codec_lift`; `movable` is the rest of `movable_readable`. -/
def liftEndpoint (future typed movable allocated : Bool) : Option CodecWorld :=
  match w.table.handleObject handle (if future then .futureRead else .streamRead) with
  | none => none
  | some k =>
    let e := w.ends k
    if e.table ≠ some w.address ∨ e.handle ≠ handle ∨ e.closed ∨ e.valued ∨ e.joined ≠ 0 ∨
        movable = false ∨ typed = false ∨ allocated = false then none
    else
      (w.waitableDrop handle true).map fun w =>
        w.putEnd k { w.ends k with valued := true, admitted := none }

/-- `turbowasm_component_waitable_register`, for a new waitable or an end of the host. -/
def register (allocated : Bool) : Option CodecWorld :=
  let e := w.ends k
  if e.table.isSome ∨ e.handle ≠ 0 ∨ e.joined ≠ 0 ∨ e.valued then none
  else
    match w.table.handleInsert e.kind k allocated with
    | .error _ => none
    | .ok (handle, table) =>
      some { w.putEnd k { e with table := some w.address, handle } with table }

/-- `lift_resource` into a new owner record. -/
def liftResource (identity : Nat) (borrow allocated : Bool) : Option CodecWorld :=
  if (w.owners k).isSome ∨ allocated = false then none
  else
    match w.table.resourceRep handle identity with
    | .error _ => none
    | .ok rep =>
      let o : ResourceOwner := { identity, rep, borrowed := borrow, lender := handle }
      if borrow then
        match w.table.lendAcquire handle identity with
        | .error _ => none
        | .ok table => some { w.putOwner k o with table }
      else
        match w.table.takeOwned handle identity with
        | .error _ => none
        | .ok (_, table) => some { w.putOwner k o with table }

/-- `release_resource`: the owner record goes; the destructor of an owned representation runs
elsewhere. -/
def releaseResource : Option CodecWorld :=
  match w.owners k with
  | none => none
  | some o =>
    if o.scope.isSome then none
    else
      let table :=
        if o.borrowed ∧ o.local_ ∧ o.admitted = none then
          match w.table.lendRelease o.lender o.identity with
          | .error _ => w.table
          | .ok table => table
        else w.table
      some { w with table, owners := update w.owners k none }

/-- `release_endpoint_value`. -/
def releaseEndpoint : Option CodecWorld :=
  let e := w.ends k
  if e.valued = false ∨ e.scope.isSome then none
  else some (w.putEnd k { e with
    valued := false
    closed := e.closed || e.admitted != some false
    admitted := none })

/-- `turbowasm_component_endpoint_take_value`. -/
def takeEndpoint : Option CodecWorld :=
  let e := w.ends k
  if e.valued = false ∨ e.scope.isSome ∨ e.admitted = some false then none
  else some (w.putEnd k { e with valued := false, admitted := none })

/-- `turbowasm_component_endpoint_into_value`. -/
def intoValue : Option CodecWorld :=
  let e := w.ends k
  if e.valued ∨ e.closed ∨ e.table.isSome ∨ e.joined ≠ 0 then none
  else some (w.putEnd k { e with valued := true, admitted := none })

end CodecWorld

/-- The operations. -/
inductive CodecAction where
  | lowerResource (c k identity : Nat) (provided typed allocated : Bool)
  | lowerEndpoint (c k : Nat) (typed allocated : Bool)
  | commit (c : Nat)
  | rollback (c : Nat)
  | resourceNew (identity : Nat) (rep : Value) (owned allocated : Bool)
  | lendAcquire (handle identity : Nat)
  | lendRelease (handle identity : Nat)
  | resourceDrop (handle identity : Nat)
  | scopeClear (scope : Nat)
  | liftResource (k handle identity : Nat) (borrow allocated : Bool)
  | releaseResource (k : Nat)
  /-- The host adopts a representation (`turbowasm_component_exec_resource_adopt`). -/
  | adoptResource (k : Nat) (o : ResourceOwner)
  | register (k : Nat) (allocated : Bool)
  | join (handle set : Nat) (known : Bool)
  | waitableDrop (handle : Nat) (idle : Bool)
  | liftEndpoint (handle : Nat) (future typed movable allocated : Bool)
  | intoValue (k : Nat)
  | takeEndpoint (k : Nat)
  | releaseEndpoint (k : Nat)
  /-- The host adopts a value, and admits it later. -/
  | endAdmitted (k : Nat) (admitted : Option Bool)
  /-- The tasks of codecs come and go. -/
  | surround (borrowScope : Nat → Option Nat) (destroying : Nat → Bool)

namespace CodecWorld

/-- One operation. -/
def act (w : CodecWorld) : CodecAction → Option CodecWorld
  | .lowerResource c k identity provided typed allocated =>
    (w.lowerResource c k identity provided typed allocated).toOption.map (·.2)
  | .lowerEndpoint c k typed allocated => (w.lowerEndpoint c k typed allocated).toOption.map (·.2)
  | .commit c => some (w.commitBuffer c).2
  | .rollback c => some (w.rollbackBuffer c).2
  | .resourceNew identity rep owned allocated =>
    (w.table.resourceNew identity rep owned allocated).toOption.map fun p => { w with table := p.2 }
  | .lendAcquire handle identity =>
    (w.table.lendAcquire handle identity).toOption.map fun table => { w with table }
  | .lendRelease handle identity =>
    (w.table.lendRelease handle identity).toOption.map fun table => { w with table }
  | .resourceDrop handle identity =>
    (w.table.resourceDrop handle identity).toOption.map fun p => { w with table := p.2 }
  | .scopeClear scope => (w.table.scopeClear scope).toOption.map fun table => { w with table }
  | .liftResource k handle identity borrow allocated =>
    w.liftResource k handle identity borrow allocated
  | .releaseResource k => w.releaseResource k
  | .adoptResource k o =>
    if (w.owners k).isSome ∨ o.scope.isSome ∨ o.committed then none else some (w.putOwner k o)
  | .register k allocated => w.register k allocated
  | .join handle set known => w.join handle set known
  | .waitableDrop handle idle => w.waitableDrop handle idle
  | .liftEndpoint handle future typed movable allocated =>
    w.liftEndpoint handle future typed movable allocated
  | .intoValue k => w.intoValue k
  | .takeEndpoint k => w.takeEndpoint k
  | .releaseEndpoint k => w.releaseEndpoint k
  | .endAdmitted k admitted => some (w.putEnd k { w.ends k with admitted })
  | .surround borrowScope destroying => some { w with borrowScope, destroying }

/-- An empty table, and ends of the given kinds that are not registered. -/
def start (maxEntries address : Nat) (kinds : Nat → { kind : HandleKind // kind.waitable }) :
    Option CodecWorld :=
  (Table.init maxEntries fun _ => 0).map fun table =>
    { table, address, ends := fun k => { kind := (kinds k).1, waitable := (kinds k).2 } }

end CodecWorld

/-- A run of the operations, in any order. -/
def CodecRun : CodecWorld → CodecWorld → Prop := Relation.ReflTransGen (Steps CodecWorld.act)

end TurboWasm
