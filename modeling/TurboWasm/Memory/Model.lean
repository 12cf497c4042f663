/-
# Linear memories

The memory part of `instance_state.c` and `link.c`.  An instance is named by its position in the
list of instances, in the order of their creation; an imported memory is a link to a memory of an
earlier instance, and a chain of links ends at the instance that owns the bytes.

64-bit arithmetic is spelled out: a sum or a product is taken modulo `2 ^ 64`.  `SIZE_MAX` is a
parameter, since `size_t` may be narrower than the 64-bit operands.  Locks are not modelled: the
operations here are the ones a lock makes indivisible.
-/
import TurboWasm.Lib.Bytes
import TurboWasm.Validate.Limits

namespace TurboWasm

open Lib

/-! ## 1. Records -/

/-- `SIZE_MAX`. -/
structure Platform where
  sizeMax : Nat
  sizeMax_le : sizeMax ≤ uint64Max

/-- `turbowasm_instance_memory`. -/
structure Memory where
  data : List UInt8
  pages : Nat
  maximumPages : Nat
  pageSize : Nat
  resourceMaxBytes : Nat
  hasMaximum : Bool
  shared : Bool
  memory64 : Bool
  storageInitialized : Bool
  deriving DecidableEq, Repr

/-- A record from `calloc`, as it stands at the index of an imported memory. -/
def Memory.unused : Memory := ⟨[], 0, 0, 0, 0, false, false, false, false⟩

/-- Where a memory is: the instance that owns it and its index there. -/
structure MemoryPtr where
  inst : Nat
  index : Nat
  deriving DecidableEq, Repr

/-- What an instance has to do with memories.  `decls`, `segments` and `maxLinearMemoryBytes` are
its module's. -/
structure MemInstance where
  decls : List ValidationMemory
  segments : List (List UInt8)
  maxLinearMemoryBytes : Nat
  memories : List Memory
  linkedMemories : List (Option MemoryPtr)
  segmentDropped : List Bool

/-- The instances, oldest first. -/
abbrev MemWorld := List MemInstance

variable (P : Platform) (w : MemWorld) (p : MemoryPtr)

/-! ## 2. Finding a memory -/

/-- `turbowasm_instance_memory_resolve`, through at most `fuel` instances. -/
def resolveMemory (w : MemWorld) : Nat → MemoryPtr → Option MemoryPtr
  | 0, _ => none
  | fuel + 1, p =>
    match w[p.inst]? with
    | none => none
    | some inst =>
      if inst.memories.length ≤ p.index then none
      else
        match inst.decls[p.index]? with
        | none => none
        | some decl =>
          if !decl.imported then some p
          else
            match inst.linkedMemories[p.index]? with
            | some (some binding) => resolveMemory w fuel binding
            | _ => none

/-- The memory behind `memory_index` of an instance. -/
def MemWorld.resolve : Option MemoryPtr := resolveMemory w w.length p

/-- The record at a place. -/
def MemWorld.memoryAt : Option Memory := w[p.inst]?.bind fun inst => inst.memories[p.index]?

/-- Put a record at a place. -/
def MemWorld.setMemory (m : Memory) : MemWorld :=
  w.modify p.inst fun inst => { inst with memories := inst.memories.set p.index m }

/-- `memory_index >= instance->memory_count`, the check at the head of every operation. -/
def MemWorld.checkIndex : Result Unit := do
  let inst ← orFail .invalidArgument w[p.inst]?
  failIf (inst.memories.length ≤ p.index) .invalidArgument

/-- The memory that an operation works on. -/
def MemWorld.find : Result (MemoryPtr × Memory) := do
  let loc ← orFail .unsupported (w.resolve p)
  let memory ← orFail .unsupported (w.memoryAt loc)
  return (loc, memory)

/-- The head of an operation on one memory. -/
def MemWorld.lookup : Result (MemoryPtr × Memory) := do
  w.checkIndex p
  w.find p

/-! ## 3. Accesses -/

/-- `turbowasm_instance_memory_storage_range`. -/
def storageRange (memory : Memory) (address offset width : Nat) : Result Nat :=
  if !memory.storageInitialized ∨ memory.pageSize = 0 then .error .invalidArgument
  else if uint64Max - offset < address then .error .trapped
  else
    let effective := (address + offset) % 2 ^ 64
    if uint64Max / memory.pageSize < memory.pages then .error .trapped
    else
      let size := memory.pages * memory.pageSize % 2 ^ 64
      if size < effective ∨ size - effective < width ∨ P.sizeMax < effective ∨ P.sizeMax < width then
        .error .trapped
      else .ok effective

/-- `turbowasm_instance_memory_read_bytes`. -/
def memoryReadBytes (address offset width : Nat) : Result (List UInt8) := do
  let (_, memory) ← w.lookup p
  let effective ← storageRange P memory address offset width
  return slice memory.data effective width

/-- `turbowasm_instance_memory_write_bytes`. -/
def memoryWriteBytes (address offset : Nat) (source : List UInt8) : Result MemWorld := do
  let (loc, memory) ← w.lookup p
  let effective ← storageRange P memory address offset source.length
  return w.setMemory loc { memory with data := patch memory.data effective source }

/-- `turbowasm_instance_memory_fill_bytes`. -/
def memoryFillBytes (destination : Nat) (value : UInt8) (length : Nat) :
    Result MemWorld := do
  let (loc, memory) ← w.lookup p
  let effective ← storageRange P memory destination 0 length
  return w.setMemory loc
    { memory with data := patch memory.data effective (List.replicate length value) }

/-- `turbowasm_instance_memory_copy_bytes`.  Both ranges are checked before a byte moves, and the
source is read before the destination is written. -/
def memoryCopyBytes (dst src : MemoryPtr) (destination source length : Nat) :
    Result MemWorld := do
  w.checkIndex dst
  w.checkIndex src
  let (dstLoc, dstMemory) ← w.find dst
  let (_, srcMemory) ← w.find src
  let destinationEffective ← storageRange P dstMemory destination 0 length
  let sourceEffective ← storageRange P srcMemory source 0 length
  return w.setMemory dstLoc { dstMemory with
    data := patch dstMemory.data destinationEffective
      (slice srcMemory.data sourceEffective length) }

/-- `turbowasm_range_fits`. -/
def rangeFits (offset length size : Nat) : Bool := offset ≤ size && length ≤ size - offset

/-- `turbowasm_instance_memory_init`. -/
def memoryInit (inst dataIndex memoryIndex destination source length : Nat) :
    Result MemWorld := do
  let impl ← orFail .invalidArgument w[inst]?
  let segment ← orFail .invalidArgument impl.segments[dataIndex]?
  let dropped ← orFail .invalidArgument impl.segmentDropped[dataIndex]?
  let sourceSize := if dropped then 0 else segment.length
  failIf (!rangeFits source length sourceSize) .trapped
  memoryWriteBytes P w ⟨inst, memoryIndex⟩ destination 0 (slice segment source length)

/-- `turbowasm_instance_data_drop`. -/
def dataDrop (inst dataIndex : Nat) : Result MemWorld := do
  let impl ← orFail .invalidArgument w[inst]?
  failIf (impl.segmentDropped.length ≤ dataIndex) .invalidArgument
  return w.modify inst fun impl =>
    { impl with segmentDropped := impl.segmentDropped.set dataIndex true }

/-- `turbowasm_instance_memory_bounds`: where in the owner's bytes a borrowed pointer points. -/
def memoryBounds (address offset width : Nat) : Result (MemoryPtr × Memory × Nat) := do
  let (loc, memory) ← w.lookup p
  failIf memory.shared .unsupported
  failIf (uint64Max - offset < address) .trapped
  let effective := (address + offset) % 2 ^ 64
  failIf (memory.pageSize = 0 ∨ uint64Max / memory.pageSize < memory.pages) .trapped
  let size := memory.pages * memory.pageSize % 2 ^ 64
  failIf (size < effective ∨ size - effective < width ∨ P.sizeMax < effective) .trapped
  return (loc, memory, effective)

/-- A load of `width` bytes through a borrowed pointer. -/
def borrowedRead (address offset width : Nat) : Result (List UInt8) := do
  let (_, memory, effective) ← memoryBounds P w p address offset width
  return slice memory.data effective width

/-- A store of `source` through a borrowed pointer. -/
def borrowedWrite (address offset : Nat) (source : List UInt8) : Result MemWorld := do
  let (loc, memory, effective) ← memoryBounds P w p address offset source.length
  return w.setMemory loc { memory with data := patch memory.data effective source }

/-! ## 4. Growth -/

/-- The part of `turbowasm_instance_memory_grow64` between the locks; `none` is the answer
`UINT64_MAX`.  `allocated` says whether `realloc` succeeds. -/
def growMemory (memory : Memory) (delta : Nat) (allocated : Bool) : Option (Nat × Memory) :=
  if memory.pageSize = 0 ∨ uint64Max - delta < memory.pages then none
  else
    let nextPages := (memory.pages + delta) % 2 ^ 64
    if maximumPages memory.memory64 memory.pageSize < nextPages ∨
        memory.hasMaximum ∧ memory.maximumPages < nextPages ∨
        P.sizeMax / memory.pageSize < nextPages then none
    else
      let nextBytes := nextPages * memory.pageSize % 2 ^ 64
      let previousBytes := memory.pages * memory.pageSize % 2 ^ 64
      if memory.resourceMaxBytes ≠ 0 ∧ memory.resourceMaxBytes < nextBytes then none
      else if nextBytes = 0 then some (memory.pages, { memory with pages := nextPages })
      else if !allocated then none
      else
        -- `realloc` keeps the old bytes; `memset` clears those from `previous_bytes` on
        some (memory.pages, { memory with
          data := memory.data.take previousBytes ++ List.replicate (nextBytes - previousBytes) 0
          pages := nextPages })

/-- `turbowasm_instance_memory_grow64`: `out_previous_pages` and the world it leaves. -/
def memoryGrow64 (delta : Nat) (allocated : Bool) : Result (Nat × MemWorld) := do
  let (loc, memory) ← w.lookup p
  match growMemory P memory delta allocated with
  | none => return (uint64Max, w)
  | some (previous, memory) => return (previous, w.setMemory loc memory)

/-! ## 5. Instantiation -/

/-- `turbowasm_link_memory_limits_match`; `actual` is what `turbowasm_instance_memory_limits`
reports. -/
def memoryLimitsMatch (expected : MemoryLimits) (actual : Memory) : Bool :=
  expected.minimum ≤ actual.pages &&
    (!expected.hasMaximum || actual.hasMaximum && actual.maximumPages ≤ expected.maximum)

/-- What `turbowasm_linker_bind_instance` does for one imported memory: `binding` is the export that
it found. -/
def bindMemory (expected : ValidationMemory) (binding : MemoryPtr) : Result Unit := do
  let provider ← orFail .linkError w[binding.inst]?
  let actual ← orMalformed provider.decls[binding.index]?
  failIf (actual.imported && (provider.linkedMemories[binding.index]?).join == none) .linkError
  let (_, memory) ← orFail .linkError (w.lookup binding).toOption
  failIf (expected.type.memory64 != actual.type.memory64 ||
    expected.type.shared != actual.type.shared ||
    expected.type.pageSize != actual.type.pageSize ||
    !memoryLimitsMatch expected.type.limits memory) .typeMismatch

/-- The import loop of `turbowasm_linker_bind_instance`, for memories: the imported memories are the
first declarations. -/
def bindMemories (w : MemWorld) : List ValidationMemory → List MemoryPtr → Result Unit
  | _, [] => .ok ()
  | [], _ :: _ => .error .malformedModule
  | decl :: decls, binding :: bindings => do
    bindMemory w decl binding
    bindMemories w decls bindings

/-- One round of `turbowasm_allocate_memories`; `allocated` says whether the storage can be set
up. -/
def allocateMemory (resourceMaxBytes : Nat) (linked : Option MemoryPtr) (source : ValidationMemory)
    (allocated : Bool) : Result Memory :=
  let t := source.type
  if source.imported then
    if linked = none then .error .unsupported else .ok .unused
  else if t.pageSize = 0 ∨ P.sizeMax / t.pageSize < t.limits.minimum then .error .outOfMemory
  else
    let bytes := t.limits.minimum * t.pageSize
    if resourceMaxBytes ≠ 0 ∧ resourceMaxBytes < bytes then .error .outOfMemory
    else if !allocated then .error .outOfMemory
    else .ok {
      data := List.replicate bytes 0
      pages := t.limits.minimum
      maximumPages := t.limits.maximum
      pageSize := t.pageSize
      resourceMaxBytes := resourceMaxBytes
      hasMaximum := t.limits.hasMaximum
      shared := t.shared
      memory64 := t.memory64
      storageInitialized := true }

/-- `turbowasm_allocate_memories`, from declaration `index` on. -/
def allocateMemories (P : Platform) (resourceMaxBytes : Nat) (linked : List (Option MemoryPtr))
    (allocated : Nat → Bool) : Nat → List ValidationMemory → Result (List Memory)
  | _, [] => .ok []
  | index, source :: rest => do
    let memory ← allocateMemory P resourceMaxBytes (linked[index]?).join source (allocated index)
    let memories ← allocateMemories P resourceMaxBytes linked allocated (index + 1) rest
    return memory :: memories

/-- The memories of a new instance: links, then storage.  `dropped` are the segments that are not
passive. -/
def createInstance (decls : List ValidationMemory) (segments : List (List UInt8))
    (dropped : List Bool) (maxLinearMemoryBytes : Nat) (bindings : List MemoryPtr)
    (allocated : Nat → Bool) : Result MemWorld := do
  bindMemories w decls bindings
  let linked := bindings.map some
  let memories ← allocateMemories P maxLinearMemoryBytes linked allocated 0 decls
  return w ++ [{
    decls := decls
    segments := segments
    maxLinearMemoryBytes := maxLinearMemoryBytes
    memories := memories
    linkedMemories := linked
    segmentDropped := dropped }]

end TurboWasm
