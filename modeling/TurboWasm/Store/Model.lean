/-
# The managed store

`store.c`: a fixed array of generation-checked slots threaded by an intrusive free list, a list of
retained roots, a list of frame sources, the attached instances, and a mark-and-sweep collector with
a preallocated worklist.

Two kinds of failure are kept apart.  A `turbowasm_status` is an answer of the source, `.error`.
`none` is what the source must never meet: a write past the end of the worklist, a pop of a slot
without an object, a counter that would wrap below zero.  That no reachable store ever leads to
`none` is proved in `Store/Run.lean`.

The sizes that the byte accounting uses are a parameter (`Layout`).  An object carries a `serial`,
the number of allocations made before it; the source has no such field and nothing computes with
it: it names the object so that one can say "the same object".
-/
import TurboWasm.Value
import TurboWasm.Types.Value

namespace TurboWasm

/-! ## 1. Records -/

/-- The sizes of the records that a store pays for. -/
structure Layout where
  impl : Nat
  slot : Nat
  word : Nat
  /-- `sizeof(turbowasm_gc_object)`, rounded up to the alignment of a value. -/
  object : Nat
  value : Nat
  root : Nat
  source : Nat
  entry : Nat
  funcType : Nat
  valueType : Nat
  field : Nat
  sizeMax : Nat

/-- `turbowasm_gc_object`; `count` is the length of `values`. -/
structure Object where
  serial : Nat
  type : Option TypePtr
  bytes : Nat
  values : List Value
  deriving DecidableEq, Repr

/-- `tw_gc_slot`. -/
structure Slot where
  object : Option Object
  generation : Nat
  nextFree : Nat
  marked : Bool
  deriving DecidableEq, Repr

/-- `turbowasm_store_config`, with its 32-bit fields in range. -/
structure StoreConfig where
  maxBytes : Nat
  maxObjects : Nat
  maxRoots : Nat
  maxObjects_le : maxObjects ≤ uint32Max

/-- `turbowasm_store_stats`. -/
structure StoreStats where
  bytes : Nat
  objects : Nat
  roots : Nat
  collections : Nat
  deriving DecidableEq, Repr

/-- `tw_root`, by its address. -/
structure Root where
  id : Nat
  value : Value
  deriving DecidableEq, Repr

/-- `turbowasm_gc_source`, by its address. -/
structure Source where
  id : Nat
  owner : Nat
  deriving DecidableEq, Repr

/-- `turbowasm_store_impl`.  `types` are the addresses of the retained type arrays and `instances`
those of the attached instances, newest first. -/
structure Store where
  id : Nat
  config : StoreConfig
  stats : StoreStats
  ownerThread : Nat
  slots : List Slot
  freeHead : Nat
  roots : List Root
  types : List Nat
  instances : List Nat
  sources : List Source
  sourceCount : Nat
  /-- Allocations so far, for the serials. -/
  allocations : Nat

/-- What the collector reads of an attached instance. -/
structure InstanceRoots where
  globals : List Value
  tables : List (Option (List Value))
  exceptions : List (List Value)
  elementValues : Option (List (Option (List Value)))

/-- The values that live outside the store: what each source traces, and each instance. -/
structure Env where
  frames : Nat → List Value
  instances : Nat → InstanceRoots

variable (L : Layout) (s : Store) (env : Env) (thread : Nat)

/-! ## 2. Creation -/

/-- `TW_STORE_DEFAULT_OBJECTS`, `TW_STORE_DEFAULT_ROOTS`, `TW_STORE_DEFAULT_BYTES`. -/
def storeDefaultObjects : Nat := 65536
def storeDefaultRoots : Nat := 4096
def storeDefaultBytes : Nat := 64 * 1024 * 1024

/-- The defaults that `turbowasm_store_create` puts in place of zeros. -/
def StoreConfig.settings (config : StoreConfig) : StoreConfig where
  maxBytes := if config.maxBytes = 0 then storeDefaultBytes else config.maxBytes
  maxObjects := if config.maxObjects = 0 then storeDefaultObjects else config.maxObjects
  maxRoots := if config.maxRoots = 0 then storeDefaultRoots else config.maxRoots
  maxObjects_le := by
    split
    · decide
    · exact config.maxObjects_le

/-- The slots of a new store: one free list through all of them. -/
def initialSlots (n : Nat) : List Slot :=
  (List.range n).map fun i => ⟨none, 1, if i + 1 = n then uint32Max else i + 1, false⟩

/-- `turbowasm_store_create`; `allocated` says whether its three allocations succeed. -/
def storeCreate (config : StoreConfig) (id thread : Nat) (allocated : Bool) : Result Store :=
  let settings := config.settings
  let overhead := L.impl + settings.maxObjects * (L.slot + L.word)
  if overhead > settings.maxBytes ∨ overhead > L.sizeMax ∨ settings.maxObjects = uint32Max then
    .error .outOfMemory
  else if !allocated then .error .outOfMemory
  else .ok {
    id := id
    config := settings
    stats := ⟨overhead, 0, 0, 0⟩
    ownerThread := thread
    slots := initialSlots settings.maxObjects
    freeHead := 0
    roots := []
    types := []
    instances := []
    sources := []
    sourceCount := 0
    allocations := 0 }

/-- `turbowasm_store_is_owner`. -/
def Store.isOwner : Bool := s.ownerThread == thread

/-! ## 3. Handles -/

/-- `((uint64_t)generation << 32) | (index + 1)`. -/
def gcHandle (generation index : Nat) : Nat := generation * 2 ^ 32 + (index + 1)

/-- The slot a handle names, from its low 32 bits; `0` names none. -/
def GcRef.index (ref : GcRef) : Nat := ref.handle % 2 ^ 32

/-- The generation a handle was given out with, its high 32 bits. -/
def GcRef.generation (ref : GcRef) : Nat := ref.handle / 2 ^ 32 % 2 ^ 32

/-- `turbowasm_gc_resolve`. -/
def Store.resolve (ref : GcRef) : Option Object :=
  if ref.store ≠ some s.id ∨ ref.index = 0 ∨ s.config.maxObjects < ref.index ∨ ref.isI31 then none
  else
    match s.slots[ref.index - 1]? with
    | none => none
    | some slot => if slot.generation = ref.generation then slot.object else none

/-- `turbowasm_gc_value_valid`. -/
def Store.valueValid (value : Value) : Bool :=
  match value.managed with
  | none => true
  | some ref =>
    ref.handle == 0 ||
    (ref.isI31 && ref.store == none && ref.handle == 2 ^ 63 ||| (ref.handle &&& gcGenerationMax)) ||
    (s.resolve ref).isSome

/-! ## 4. The collector -/

/-- One round of `turbowasm_gc_mark_values`.  The worklist is a stack; `none` is a push past its
`max_objects` entries. -/
def markValue (work : List Nat) (value : Value) : Option (Store × List Nat) :=
  match value.managed with
  | none => some (s, work)
  | some ref =>
    match s.resolve ref with
    | none => some (s, work)
    | some _ =>
      let index := ref.index - 1
      match s.slots[index]? with
      | none => none
      | some slot =>
        if slot.marked then some (s, work)
        else if s.config.maxObjects ≤ work.length then none
        else some ({ s with slots := s.slots.set index { slot with marked := true } }, index :: work)

/-- `turbowasm_gc_mark_values`. -/
def markValues : Store → List Nat → List Value → Option (Store × List Nat)
  | s, work, [] => some (s, work)
  | s, work, v :: vs =>
    match markValue s work v with
    | none => none
    | some (s, work) => markValues s work vs

/-- The values an attached instance keeps alive, in the order the collector visits them. -/
def InstanceRoots.values (inst : InstanceRoots) : List Value :=
  inst.globals ++ (inst.tables.flatMap fun t => t.getD []) ++ inst.exceptions.flatten ++
    (inst.elementValues.getD []).flatMap fun e => e.getD []

/-- The values the collector starts from: roots, sources, instances. -/
def Store.rootValues : List Value :=
  s.roots.map Root.value ++ (s.sources.flatMap fun src => env.frames src.id) ++
    s.instances.flatMap fun i => (env.instances i).values

/-- `while (store->work_count != 0)`; `none` when a popped slot has no object, or after more rounds
than `fuel`. -/
def drain : Nat → Store → List Nat → Option Store
  | _, s, [] => some s
  | 0, _, _ :: _ => none
  | fuel + 1, s, index :: work =>
    match s.slots[index]?.bind Slot.object with
    | none => none
    | some object =>
      match markValues s work object.values with
      | none => none
      | some (s, work) => drain fuel s work

/-- `a - b` on an unsigned counter; `none` when it would wrap. -/
def checkedSub (a b : Nat) : Option Nat := if b ≤ a then some (a - b) else none

/-- Free the object of slot `i`: one round of the sweep on an unmarked object. -/
def freeSlot (i : Nat) (slot : Slot) (object : Object) : Option Store := do
  let bytes ← checkedSub s.stats.bytes object.bytes
  let objects ← checkedSub s.stats.objects 1
  let s := { s with stats := { s.stats with bytes := bytes, objects := objects } }
  if slot.generation < gcGenerationMax then
    return { s with
      slots := s.slots.set i ⟨none, slot.generation + 1, s.freeHead, false⟩, freeHead := i }
  else return { s with slots := s.slots.set i { slot with object := none, marked := false } }

/-- One round of the sweep. -/
def sweepSlot (i : Nat) : Option Store :=
  match s.slots[i]? with
  | none => none
  | some slot =>
    match slot.object with
    | some object =>
      if slot.marked then some { s with slots := s.slots.set i { slot with marked := false } }
      else freeSlot s i slot object
    | none => some { s with slots := s.slots.set i { slot with marked := false } }

/-- The sweep, with `left` slots to go from slot `i` on. -/
def sweep : Nat → Nat → Store → Option Store
  | 0, _, s => some s
  | left + 1, i, s =>
    match sweepSlot s i with
    | none => none
    | some s => sweep left (i + 1) s

/-- `collect`. -/
def collect : Option Store := do
  let (s, work) ← markValues s [] (s.rootValues env)
  let s ← drain s.config.maxObjects s work
  let s ← sweep s.config.maxObjects 0 s
  return { s with stats := { s.stats with collections := s.stats.collections + 1 } }

/-! ## 5. Operations

Each answers a status together with the store it leaves, since an operation that fails may have
collected. -/

/-- `turbowasm_store_collect`. -/
def storeCollect : Option (Result Unit × Store) :=
  if !s.isOwner thread then some (.error .invalidArgument, s)
  else (collect s env).map fun s => (.ok (), s)

/-- `max_bytes - stats.bytes`. -/
def Store.bytesLeft : Option Nat := checkedSub s.config.maxBytes s.stats.bytes

/-- The test of `turbowasm_gc_allocate` for room: a free slot and enough bytes. -/
def Store.full (bytes : Nat) : Option Bool :=
  s.bytesLeft.map fun left => s.freeHead == uint32Max || left < bytes

/-- Take the first free slot for a new object. -/
def takeSlot (type : Option TypePtr) (count bytes : Nat) : Option (Value × Store) :=
  match s.slots[s.freeHead]? with
  | none => none
  | some slot =>
    let object : Object := ⟨s.allocations, type, bytes, List.replicate count .zero⟩
    some (.gcref ⟨some s.id, gcHandle slot.generation s.freeHead⟩,
      { s with
        slots := s.slots.set s.freeHead { slot with object := some object }
        freeHead := slot.nextFree
        stats := { s.stats with bytes := s.stats.bytes + bytes, objects := s.stats.objects + 1 }
        allocations := s.allocations + 1 })

/-- Collect when there is no room for `bytes` more. -/
def makeRoom (bytes : Nat) : Option Store :=
  match s.full bytes with
  | none => none
  | some true => collect s env
  | some false => some s

/-- `turbowasm_gc_allocate`; `allocated` says whether its `calloc` succeeds. -/
def gcAllocate (type : Option TypePtr) (count : Nat) (allocated : Bool) :
    Option (Result Value × Store) := do
  let bytes := L.object + count * L.value
  if !s.isOwner thread then return (.error .invalidArgument, s)
  else if s.config.maxBytes < bytes ∨ L.sizeMax < bytes then return (.error .outOfMemory, s)
  else
    let s ← makeRoom s env bytes
    if ← s.full bytes then return (.error .outOfMemory, s)
    else if !allocated then return (.error .outOfMemory, s)
    else
      let (value, s) ← takeSlot s type count bytes
      return (.ok value, s)

/-- `turbowasm_root_retain`, for a root handle that is empty; `id` is the address of the new
record. -/
def rootRetain (value : Value) (id : Nat) (allocated : Bool) :
    Option (Result Unit × Store) := do
  if !s.isOwner thread then return (.error .invalidArgument, s)
  else if !s.valueValid value then return (.error .typeMismatch, s)
  else
    let rootsLeft ← checkedSub s.config.maxRoots s.sourceCount
    let bytesLeft ← s.bytesLeft
    if rootsLeft ≤ s.stats.roots ∨ bytesLeft < L.root then return (.error .outOfMemory, s)
    else if !allocated then return (.error .outOfMemory, s)
    else return (.ok (), { s with
      roots := ⟨id, value⟩ :: s.roots
      stats := { s.stats with roots := s.stats.roots + 1, bytes := s.stats.bytes + L.root } })

/-- `turbowasm_root_release`. -/
def rootRelease (id : Nat) : Option (Result Unit × Store) := do
  if !s.isOwner thread then return (.error .invalidArgument, s)
  else if s.roots.any (fun r => r.id == id) then
    let roots ← checkedSub s.stats.roots 1
    let bytes ← checkedSub s.stats.bytes L.root
    return (.ok (), { s with
      roots := s.roots.eraseP (fun r => r.id == id)
      stats := { s.stats with roots := roots, bytes := bytes } })
  else return (.error .invalidArgument, s)

/-- `turbowasm_gc_source_add`. -/
def gcSourceAdd (source : Source) : Option (Result Unit × Store) := do
  if !s.isOwner thread then return (.error .invalidArgument, s)
  else
    let rootsLeft ← checkedSub s.config.maxRoots s.stats.roots
    let bytesLeft ← s.bytesLeft
    if rootsLeft ≤ s.sourceCount ∨ bytesLeft < L.source then return (.error .outOfMemory, s)
    else return (.ok (), { s with
      sources := source :: s.sources
      sourceCount := s.sourceCount + 1
      stats := { s.stats with bytes := s.stats.bytes + L.source } })

/-- Unlink one source: `sources` are the ones that stay linked. -/
def unlinkSource (sources : List Source) : Option Store := do
  let sourceCount ← checkedSub s.sourceCount 1
  let bytes ← checkedSub s.stats.bytes L.source
  return { s with
    sources := sources
    sourceCount := sourceCount
    stats := { s.stats with bytes := bytes } }

/-- `turbowasm_gc_source_remove`. -/
def gcSourceRemove (id : Nat) : Option Store :=
  if s.sources.any (fun x => x.id == id) then
    unlinkSource L s (s.sources.eraseP (fun x => x.id == id))
  else some s

/-- The loop of `turbowasm_gc_sources_remove_owner`: `kept` are the sources passed over, last
first. -/
def removeOwnerLoop (L : Layout) (owner : Nat) :
    List Source → List Source → Store → Option Store
  | _, [], s => some s
  | kept, x :: rest, s =>
    if x.owner = owner then
      match unlinkSource L s (kept.reverse ++ rest) with
      | none => none
      | some s => removeOwnerLoop L owner kept rest s
    else removeOwnerLoop L owner (x :: kept) rest s

/-- `turbowasm_gc_sources_remove_owner`. -/
def gcSourcesRemoveOwner (owner : Nat) : Option Store := removeOwnerLoop L owner [] s.sources s

/-- A write to `object->values[i]`, as the struct and array instructions make it. -/
def writeValue (index i : Nat) (value : Value) : Option Store :=
  match s.slots[index]? with
  | none => none
  | some slot =>
    match slot.object with
    | none => none
    | some object =>
      if object.values.length ≤ i then none
      else
        let object := { object with values := object.values.set i value }
        some { s with slots := s.slots.set index { slot with object := some object } }

end TurboWasm
