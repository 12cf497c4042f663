/-
# Validating the operators that only touch the operand stack

The middle part of `validate_instr.c`: calls, garbage-collected objects, memory accesses, the
`0xfc`, `0xfd` and `0xfe` families.  Each function reads the immediates of its instruction and
pops and pushes types; none of them touches a control frame.
-/
import TurboWasm.Validate.Stack

namespace TurboWasm

open TypeStack

/-- The type of an address: `i64` for a 64-bit memory or table, `i32` otherwise. -/
def addressType (wide : Bool) : UInt8 := if wide then 0x7e else 0x7f

/-- Pop the types that belong to some carriers, in the order given. -/
def popCarriers (m : Matcher) (s : TypeStack) (carriers : List UInt8) : Result TypeStack :=
  popRev m (carriers.map valueTypeLegacy) s

/-- What an instruction answers: the operands it leaves, and the reader behind its immediates. -/
abbrev Checked := Result (TypeStack × Reader)

section Operators

variable (H : TypeHeap) (ctx : ValidationContext)
  (c : ControlStack) (op : Nat) (s : TypeStack) (r : Reader)

/-! ## 1. Calls -/

/-- `context->types[i]`, when it is a defined function type. -/
def functionTypeAt (i : Nat) : Result FuncType := do
  let type ← orMalformed ctx.types[i]?
  malformedIf (!type.defined || type.kind != .function)
  return type

/-- `turbowasm_validate_call`. -/
def validateCall : Checked := do
  let (functionIndex, r) ← orMalformed r.uleb32
  let type ← orMalformed (ctx.functionType functionIndex)
  let s ← s.popTypes (ctx.typeMatches H) type.params
  let s ← s.pushTypes type.results
  return (s, r)

/-- The table of an indirect call: one of function references. -/
def callTable (tableIndex : Nat) : Result ValidationTable := do
  let table ← orMalformed ctx.tables[tableIndex]?
  malformedIf (table.semanticType.carrier != 0x70)
  return table

/-- `turbowasm_validate_call_indirect`. -/
def validateCallIndirect : Checked := do
  let (typeIndex, r) ← orMalformed r.uleb32
  let (tableIndex, r) ← orMalformed r.uleb32
  let table ← callTable ctx tableIndex
  let type ← functionTypeAt ctx typeIndex
  let s ← s.popCarrier (ctx.typeMatches H) (addressType table.limits.table64)
  let s ← s.popTypes (ctx.typeMatches H) type.params
  let s ← s.pushTypes type.results
  return (s, r)

/-- `turbowasm_tail_results_match`. -/
def tailResultsMatch (callee current : FuncType) : Bool :=
  callee.defined && current.defined && callee.results.length == current.results.length &&
    (callee.results.zip current.results).all fun p => ctx.typeMatches H p.1 p.2

/-- `turbowasm_validate_return_call`; the caller marks the rest unreachable. -/
def validateReturnCall (current : FuncType) (s : TypeStack) (r : Reader) :
    Checked := do
  let (functionIndex, r) ← orMalformed r.uleb32
  let type ← orMalformed (ctx.functionType functionIndex)
  malformedIf (!tailResultsMatch H ctx type current)
  let s ← s.popTypes (ctx.typeMatches H) type.params
  return (s.markUnreachable, r)

/-- `turbowasm_validate_return_call_indirect`. -/
def validateReturnCallIndirect (current : FuncType) (s : TypeStack) (r : Reader) :
    Checked := do
  let (typeIndex, r) ← orMalformed r.uleb32
  let (tableIndex, r) ← orMalformed r.uleb32
  let table ← callTable ctx tableIndex
  let type ← functionTypeAt ctx typeIndex
  malformedIf (!tailResultsMatch H ctx type current)
  let s ← s.popCarrier (ctx.typeMatches H) (addressType table.limits.table64)
  let s ← s.popTypes (ctx.typeMatches H) type.params
  return (s.markUnreachable, r)

/-- The operand of a call through a reference: a nullable reference to the type. -/
def callReference (typeIndex : Nat) : ValueType :=
  { valueTypeLegacy 0x70 with
    heapKind := .typeIndex, typeIndex := typeIndex, definition := some (ctx.typePtr typeIndex) }

/-- `turbowasm_validate_call_ref`; `tail` is the function's own type for `return_call_ref`. -/
def validateCallRef (tail : Option FuncType) (s : TypeStack) (r : Reader) :
    Checked := do
  let (typeIndex, r) ← orMalformed r.uleb32
  let type ← functionTypeAt ctx typeIndex
  malformedIf (tail.any fun current => !tailResultsMatch H ctx type current)
  let s ← s.pop (ctx.typeMatches H) (callReference ctx typeIndex)
  let s ← s.popTypes (ctx.typeMatches H) type.params
  if tail.isSome then return (s.markUnreachable, r)
  else
    let s ← s.pushTypes type.results
    return (s, r)

/-! ## 2. References -/

/-- `turbowasm_validate_ref_branch`: `br_on_null` and `br_on_non_null`. -/
def validateRefBranch (onNonNull : Bool) (s : TypeStack) (r : Reader) :
    Checked := do
  let (depth, r) ← orMalformed r.uleb32
  let target ← orMalformed (c.target depth)
  let (reference, s) ← s.popAny
  malformedIf (reference.carrier != 0xff && !reference.isReference)
  let reference := { reference with nullable := false }
  if !onNonNull then
    let s ← controlBranch (ctx.typeMatches H) s c depth true
    let s ← s.push reference
    return (s, r)
  else
    let labels := target.labelTypes
    malformedIf (!labels.getLast?.any ValueType.isReference)
    let s ← s.push reference
    let s ← s.popTypes (ctx.typeMatches H) labels
    let s ← s.pushTypes labels.dropLast
    return (s, r)

/-! ## 3. Garbage-collected objects -/

/-- `turbowasm_gc_type`. -/
def gcType (kind : HeapKind) (nullable : Bool) : ValueType :=
  { valueTypeLegacy 0x6e with heapKind := kind, nullable := nullable }

/-- A nullable reference to the struct or array type `index`. -/
def gcReference (index : Nat) : ValueType :=
  { gcType .typeIndex true with definition := some (ctx.typePtr index), typeIndex := index }

/-- The type immediate of the struct and array instructions, with the nullable reference to it. -/
def readGcType : Result ((FuncType × ValueType) × Reader) := do
  let (index, r) ← orMalformed r.uleb32
  let type ← orMalformed ctx.types[index]?
  malformedIf (type.kind != if op ≤ 5 then .struct else .array)
  return ((type, gcReference ctx index), r)

/-- The field an instruction is about: given by an immediate for a struct, the only one of an
array. -/
def readGcField (type : FuncType) (op : Nat) (r : Reader) : Result (Field × Reader) :=
  if op ≤ 5 then do
    let (extra, r) ← orMalformed r.uleb32
    let field ← orMalformed type.fields[extra]?
    return (field, r)
  else do
    let field ← orMalformed type.fields[0]?
    return (field, r)

/-- A field of this type has no default value. -/
def noDefault (t : ValueType) : Bool := t.isReference && !t.nullable

/-- `struct.new` and `struct.new_default`. -/
def validateStructNew : Checked := do
  let ((type, reference), r) ← readGcType ctx op r
  malformedIf (op = 1 && type.fields.any fun f => noDefault f.type)
  let s ← s.popTypes (ctx.typeMatches H) (if op = 0 then type.fields.map Field.type else [])
  let s ← s.push { reference with nullable := false }
  return (s, r)

/-- `struct.get`, `array.get` and their packed forms. -/
def validateGcGet : Checked := do
  let ((type, reference), r) ← readGcType ctx op r
  let (field, r) ← readGcField type op r
  malformedIf ((field.packedBits != 0) != (op != 2 && op != 11))
  let s ← popCarriers (ctx.typeMatches H) s (if 11 ≤ op then [0x7f] else [])
  let s ← s.pop (ctx.typeMatches H) reference
  let s ← s.push field.type
  return (s, r)

/-- `struct.set`, `array.set` and `array.fill`. -/
def validateGcSet : Checked := do
  let ((type, reference), r) ← readGcType ctx op r
  let (field, r) ← readGcField type op r
  malformedIf (!field.mutableValue)
  let s ← popCarriers (ctx.typeMatches H) s (if op = 16 then [0x7f] else [])
  let s ← s.pop (ctx.typeMatches H) field.type
  let s ← popCarriers (ctx.typeMatches H) s (if op ≠ 5 then [0x7f] else [])
  let s ← s.pop (ctx.typeMatches H) reference
  return (s, r)

/-- The number of operands of `array.new_fixed`.  Below an unreachable point missing operands are
not counted. -/
def fixedCount (extra : Nat) : Result Nat :=
  if s.values.length - s.floor < extra then
    if s.unreachable then .ok (s.values.length - s.floor) else .error .malformedModule
  else .ok extra

/-- `array.new`, `array.new_default`. -/
def validateArrayNew : Checked := do
  let ((type, reference), r) ← readGcType ctx op r
  let (field, r) ← readGcField type op r
  let s ← s.popCarrier (ctx.typeMatches H) 0x7f
  malformedIf (op = 7 && noDefault field.type)
  let s ← s.popTypes (ctx.typeMatches H) (if op = 6 then [field.type] else [])
  let s ← s.push { reference with nullable := false }
  return (s, r)

/-- `array.new_fixed`. -/
def validateArrayNewFixed : Checked := do
  let ((type, reference), r) ← readGcType ctx 8 r
  let (field, r) ← readGcField type 8 r
  let (extra, r) ← orMalformed r.uleb32
  let count ← fixedCount s extra
  let s ← s.popTypes (ctx.typeMatches H) (List.replicate count field.type)
  let s ← s.push { reference with nullable := false }
  return (s, r)

/-- The data or element segment that an array is filled from. -/
def checkGcSegment (field : Field) (extra : Nat) : Result Unit :=
  if op = 9 ∨ op = 18 then
    malformedIf (!ctx.hasDataCount || ctx.dataCount ≤ extra || field.type.isReference)
  else do
    let segment ← orMalformed ctx.elementSegments[extra]?
    malformedIf (!ctx.typeMatches H segment.semanticType field.type)

/-- `array.new_data`, `array.new_elem`, `array.init_data` and `array.init_elem`. -/
def validateGcSegment : Checked := do
  let ((type, reference), r) ← readGcType ctx op r
  let (field, r) ← readGcField type op r
  let (extra, r) ← orMalformed r.uleb32
  checkGcSegment H ctx op field extra
  let s ← popCarriers (ctx.typeMatches H) s [0x7f, 0x7f]
  if 18 ≤ op then
    malformedIf (!field.mutableValue)
    let s ← s.popCarrier (ctx.typeMatches H) 0x7f
    let s ← s.pop (ctx.typeMatches H) reference
    return (s, r)
  else
    let s ← s.push { reference with nullable := false }
    return (s, r)

/-- `array.copy`. -/
def validateArrayCopy : Checked := do
  let ((type, reference), r) ← readGcType ctx 17 r
  let (field, r) ← readGcField type 17 r
  let (extra, r) ← orMalformed r.uleb32
  let source ← orMalformed ctx.types[extra]?
  malformedIf (source.kind != .array || !field.mutableValue)
  let sourceField ← orMalformed source.fields[0]?
  failIf (field.packedBits != sourceField.packedBits ||
    !ctx.typeMatches H sourceField.type field.type) .malformedModule
  let s ← popCarriers (ctx.typeMatches H) s [0x7f, 0x7f]
  let s ← s.pop (ctx.typeMatches H) (gcReference ctx extra)
  let s ← s.popCarrier (ctx.typeMatches H) 0x7f
  let s ← s.pop (ctx.typeMatches H) reference
  return (s, r)

/-- `ref.test` (20, 21) and `ref.cast` (22, 23). -/
def validateRefCast : Checked := do
  let (reference, r) ← readHeaptype r (some ctx.typeCtx)
  let s ← s.popCarrier (ctx.typeMatches H) reference.carrier
  let s ← s.push (if op ≤ 21 then valueTypeLegacy 0x7f
    else { reference with nullable := op % 2 = 1 })
  return (s, r)

/-- `br_on_cast` (24) and `br_on_cast_fail` (25). -/
def validateBranchOnCast : Checked := do
  let (flags, r) ← orMalformed r.u8
  malformedIf (flags > 3)
  let (depth, r) ← orMalformed r.uleb32
  let (reference, r) ← readHeaptype r (some ctx.typeCtx)
  let (other, r) ← readHeaptype r (some ctx.typeCtx)
  let reference := { reference with nullable := flags &&& 1 != 0 }
  let other := { other with nullable := flags &&& 2 != 0 }
  malformedIf (!ctx.typeMatches H other reference)
  let target ← orMalformed (c.target depth)
  let labels := target.labelTypes
  let difference := { reference with nullable := reference.nullable && !other.nullable }
  let branch := if op = 24 then other else difference
  malformedIf (!labels.getLast?.any (ctx.typeMatches H branch))
  let s ← s.pop (ctx.typeMatches H) reference
  let s ← s.popTypes (ctx.typeMatches H) labels.dropLast
  let s ← s.pushTypes labels.dropLast
  let s ← s.push (if op = 24 then difference else other)
  return (s, r)

/-- `any.convert_extern` (26) and `extern.convert_any` (27). -/
def validateConvert : Result TypeStack := do
  let (reference, s) ← s.popActual (ctx.typeMatches H)
    (valueTypeLegacy (if op = 26 then 0x6f else 0x6e))
  s.push { valueTypeLegacy (if op = 26 then 0x6e else 0x6f) with
    nullable := if reference.carrier = 0xff then false else reference.nullable }

/-- `turbowasm_validate_gc`, after the sub-opcode. -/
def validateGcOp : Checked :=
  if op ≤ 1 then validateStructNew H ctx op s r
  else if op ≤ 4 then validateGcGet H ctx op s r
  else if op = 5 then validateGcSet H ctx op s r
  else if op ≤ 7 then validateArrayNew H ctx op s r
  else if op = 8 then validateArrayNewFixed H ctx s r
  else if op ≤ 10 then validateGcSegment H ctx op s r
  else if op ≤ 13 then validateGcGet H ctx op s r
  else if op = 14 then validateGcSet H ctx op s r
  else if op = 15 then do
    let s ← s.pop (ctx.typeMatches H) (gcType .array true)
    let s ← s.pushCarrier 0x7f
    return (s, r)
  else if op = 16 then validateGcSet H ctx op s r
  else if op = 17 then validateArrayCopy H ctx s r
  else if op ≤ 19 then validateGcSegment H ctx op s r
  else if op ≤ 23 then validateRefCast H ctx op s r
  else if op ≤ 25 then validateBranchOnCast H ctx c op s r
  else if op ≤ 27 then do
    let s ← validateConvert H ctx op s
    return (s, r)
  else if op = 28 then do
    let s ← s.popCarrier (ctx.typeMatches H) 0x7f
    let s ← s.push (gcType .i31 false)
    return (s, r)
  else do
    let s ← s.pop (ctx.typeMatches H) (gcType .i31 true)
    let s ← s.pushCarrier 0x7f
    return (s, r)

/-- `turbowasm_validate_gc`. -/
def validateGc : Checked := do
  let (op, r) ← orMalformed r.uleb32
  malformedIf (30 < op)
  validateGcOp H ctx c op s r

/-- `turbowasm_validate_gc_constant`: the instructions of this family that a constant expression
may use. -/
def validateGcConstant : Checked := do
  let (op, _) ← orMalformed r.uleb32
  malformedIf (!(op ≤ 1 || (6 ≤ op && op ≤ 8) || (26 ≤ op && op ≤ 28)))
  validateGc H ctx ⟨[], [], []⟩ s r

/-! ## 4. Linear memory -/

/-- The memory index of a memory access, when the flags announce one. -/
def readMemoryIndex (present : Bool) (r : Reader) : Result (Nat × Reader) :=
  if present then orMalformed r.uleb32 else .ok (0, r)

/-- `turbowasm_validate_indexed_memarg`: the carrier of the address. -/
def validateIndexedMemarg (maximumAlignment : Nat) (r : Reader) :
    Result (UInt8 × Reader) := do
  let (flags, r) ← orMalformed r.uleb32
  malformedIf (0x80 ≤ flags)
  let (memoryIndex, r) ← readMemoryIndex (flags &&& 0x40 != 0) r
  let memory ← orMalformed ctx.memories[memoryIndex]?
  let (_, r) ← readBound memory.type.memory64 r
  malformedIf (maximumAlignment < flags &&& 0x3f)
  return (addressType memory.type.memory64, r)

/-- `turbowasm_validate_load`. -/
def validateLoad (resultType : UInt8) (maximumAlignment : Nat) (s : TypeStack) (r : Reader) :
    Checked := do
  let (address, r) ← validateIndexedMemarg ctx maximumAlignment r
  let s ← s.unary (ctx.typeMatches H) address resultType
  return (s, r)

/-- `turbowasm_validate_store`. -/
def validateStore (valueType : UInt8) (maximumAlignment : Nat) (s : TypeStack) (r : Reader) :
    Checked := do
  let (address, r) ← validateIndexedMemarg ctx maximumAlignment r
  let s ← popCarriers (ctx.typeMatches H) s [valueType, address]
  return (s, r)

/-- The memory that an immediate names. -/
def readMemory : Result (ValidationMemory × Reader) := do
  let (index, r) ← orMalformed r.uleb32
  let memory ← orMalformed ctx.memories[index]?
  return (memory, r)

/-- The carrier of an address in a memory. -/
def ValidationMemory.address (memory : ValidationMemory) : UInt8 := addressType memory.type.memory64

/-- The carrier of an index into a table. -/
def ValidationTable.address (table : ValidationTable) : UInt8 := addressType table.limits.table64

/-- `turbowasm_validate_memory_size_or_grow`. -/
def validateMemorySizeOrGrow (grow : Bool) (s : TypeStack) (r : Reader) :
    Checked := do
  let (memory, r) ← readMemory ctx r
  let s ← popCarriers (ctx.typeMatches H) s (if grow then [memory.address] else [])
  let s ← s.pushCarrier memory.address
  return (s, r)

/-! ## 5. The `0xfc` family -/

/-- The table that an immediate names. -/
def readTable : Result (ValidationTable × Reader) := do
  let (index, r) ← orMalformed r.uleb32
  let table ← orMalformed ctx.tables[index]?
  return (table, r)

/-- The data segment index of `memory.init` and `data.drop`. -/
def readDataIndex : Result (Nat × Reader) := do
  let (index, r) ← orMalformed r.uleb32
  malformedIf (!ctx.hasDataCount || ctx.dataCount ≤ index)
  return (index, r)

/-- The element segment of `table.init` and `elem.drop`. -/
def readElement : Result (ElementSegment × Reader) := do
  let (index, r) ← orMalformed r.uleb32
  let segment ← orMalformed ctx.elementSegments[index]?
  return (segment, r)

/-- The type of a length that must fit both sides of a copy. -/
def lengthType (wide wide' : Bool) : UInt8 := addressType (wide && wide')

/-- The saturating truncations: operand and result. -/
def truncSat (subopcode : Nat) : UInt8 × UInt8 :=
  (if subopcode / 2 % 2 = 0 then 0x7d else 0x7c, if subopcode < 4 then 0x7f else 0x7e)

/-- `turbowasm_validate_fc`. -/
def validateFc : Checked := do
  let (subopcode, r) ← orMalformed r.uleb32
  if subopcode ≤ 7 then
    let s ← s.unary (ctx.typeMatches H) (truncSat subopcode).1 (truncSat subopcode).2
    return (s, r)
  else if subopcode = 8 then -- memory.init
    let (_, r) ← readDataIndex ctx r
    let (memory, r) ← readMemory ctx r
    let s ← popCarriers (ctx.typeMatches H) s [0x7f, 0x7f, memory.address]
    return (s, r)
  else if subopcode = 9 then -- data.drop
    let (_, r) ← readDataIndex ctx r
    return (s, r)
  else if subopcode = 10 then -- memory.copy
    let (destination, r) ← readMemory ctx r
    let (source, r) ← readMemory ctx r
    let s ← popCarriers (ctx.typeMatches H) s
      [lengthType destination.type.memory64 source.type.memory64, source.address,
        destination.address]
    return (s, r)
  else if subopcode = 11 then -- memory.fill
    let (memory, r) ← readMemory ctx r
    let s ← popCarriers (ctx.typeMatches H) s [memory.address, 0x7f, memory.address]
    return (s, r)
  else if subopcode = 12 then -- table.init
    let (segment, r) ← readElement ctx r
    let (table, r) ← readTable ctx r
    malformedIf (!ctx.typeMatches H segment.semanticType table.semanticType)
    let s ← popCarriers (ctx.typeMatches H) s [0x7f, 0x7f, table.address]
    return (s, r)
  else if subopcode = 13 then -- elem.drop
    let (_, r) ← readElement ctx r
    return (s, r)
  else if subopcode = 14 then -- table.copy
    let (destination, r) ← readTable ctx r
    let (source, r) ← readTable ctx r
    malformedIf (!ctx.typeMatches H source.semanticType destination.semanticType)
    let s ← popCarriers (ctx.typeMatches H) s
      [lengthType source.limits.table64 destination.limits.table64, source.address,
        destination.address]
    return (s, r)
  else if subopcode = 15 then -- table.grow
    let (table, r) ← readTable ctx r
    let s ← s.popCarrier (ctx.typeMatches H) table.address
    let s ← s.pop (ctx.typeMatches H) table.semanticType
    let s ← s.pushCarrier table.address
    return (s, r)
  else if subopcode = 16 then -- table.size
    let (table, r) ← readTable ctx r
    let s ← s.pushCarrier table.address
    return (s, r)
  else if subopcode = 17 then -- table.fill
    let (table, r) ← readTable ctx r
    let s ← s.popCarrier (ctx.typeMatches H) table.address
    let s ← s.pop (ctx.typeMatches H) table.semanticType
    let s ← s.popCarrier (ctx.typeMatches H) table.address
    return (s, r)
  else .error .unsupported

/-! ## 6. Atomic instructions -/

/-- `turbowasm_atomic_kind`. -/
inductive AtomicKind where
  | load | store | rmw | cmpxchg
  deriving DecidableEq, Repr

/-- What the validator uses of a `turbowasm_atomic_descriptor`. -/
structure AtomicDescriptor where
  kind : AtomicKind
  valueType : UInt8
  alignmentLog2 : Nat
  deriving DecidableEq, Repr

/-- The seven widths of each atomic instruction, in the order of their sub-opcodes. -/
def atomicWidths : List (UInt8 × Nat) :=
  [(0x7f, 2), (0x7e, 3), (0x7f, 0), (0x7f, 1), (0x7e, 0), (0x7e, 1), (0x7e, 2)]

/-- `turbowasm_atomic_descriptor_find`: the table covers `0x10` to `0x4e` in groups of seven, the
loads, the stores, six read-modify-write operations and the compare-exchanges. -/
def atomicDescriptorFind (subopcode : Nat) : Option AtomicDescriptor :=
  if subopcode < 0x10 ∨ 0x4e < subopcode then none
  else
    match atomicWidths[(subopcode - 0x10) % 7]? with
    | none => none
    | some (valueType, alignment) =>
      let kind := if subopcode < 0x17 then .load else if subopcode < 0x1e then .store
        else if subopcode < 0x48 then .rmw else .cmpxchg
      some ⟨kind, valueType, alignment⟩

/-- `turbowasm_validate_atomic_memarg_alignment`. -/
def validateAtomicMemarg (requiredAlignment : Nat) (r : Reader) :
    Result (UInt8 × Reader) := do
  let (flags, _) ← orMalformed r.uleb32
  malformedIf (flags &&& 0x3f != requiredAlignment)
  validateIndexedMemarg ctx requiredAlignment r

/-- An atomic access: pop the operands, then the address; push the results. -/
def validateAtomicAccess (alignment : Nat) (operands results : List UInt8) (s : TypeStack)
    (r : Reader) : Checked := do
  let (address, r) ← validateAtomicMemarg ctx alignment r
  let s ← popCarriers (ctx.typeMatches H) s (operands ++ [address])
  let s ← s.pushTypes (results.map valueTypeLegacy)
  return (s, r)

/-- `turbowasm_validate_atomic`. -/
def validateAtomic : Checked := do
  let (subopcode, r) ← orMalformed r.uleb32
  if subopcode = 0 then -- memory.atomic.notify
    validateAtomicAccess H ctx 2 [0x7f] [0x7f] s r
  else if subopcode = 1 then -- memory.atomic.wait32
    validateAtomicAccess H ctx 2 [0x7e, 0x7f] [0x7f] s r
  else if subopcode = 2 then -- memory.atomic.wait64
    validateAtomicAccess H ctx 3 [0x7e, 0x7e] [0x7f] s r
  else if subopcode = 3 then -- atomic.fence
    let (reserved, r) ← orMalformed r.u8
    malformedIf (reserved != 0)
    return (s, r)
  else
    let d ← orFail .unsupported (atomicDescriptorFind subopcode)
    match d.kind with
    | .load => validateAtomicAccess H ctx d.alignmentLog2 [] [d.valueType] s r
    | .store => validateAtomicAccess H ctx d.alignmentLog2 [d.valueType] [] s r
    | .rmw => validateAtomicAccess H ctx d.alignmentLog2 [d.valueType] [d.valueType] s r
    | .cmpxchg =>
      validateAtomicAccess H ctx d.alignmentLog2 [d.valueType, d.valueType] [d.valueType] s r

end Operators

/-! ## 7. Vector instructions -/

/-- `turbowasm_simd_stack_form`, with the fields of the descriptor that the form uses: the scalar
type, the number of lanes, the largest alignment. -/
inductive SimdForm where
  | constV128
  | shuffle
  | v128Unary
  | v128Binary
  | v128Ternary
  | v128TestI32
  | scalarSplat (scalarType : UInt8)
  | laneExtract (scalarType : UInt8) (laneCount : Nat)
  | laneReplace (scalarType : UInt8) (laneCount : Nat)
  | v128Shift
  | memoryLoad (alignment : Nat)
  | memoryStore (alignment : Nat)
  | memoryLoadLane (alignment laneCount : Nat)
  | memoryStoreLane (alignment laneCount : Nat)
  deriving DecidableEq, Repr

/-- The table of `validate_simd_table.c`, with runs of equal descriptors as ranges. -/
def simdDescriptors : List (Nat × Nat × SimdForm) :=
  [(0x00, 0x00, .memoryLoad 4), (0x01, 0x06, .memoryLoad 3), (0x07, 0x07, .memoryLoad 0),
   (0x08, 0x08, .memoryLoad 1), (0x09, 0x09, .memoryLoad 2), (0x0a, 0x0a, .memoryLoad 3),
   (0x0b, 0x0b, .memoryStore 4), (0x0c, 0x0c, .constV128), (0x0d, 0x0d, .shuffle),
   (0x0e, 0x0e, .v128Binary), (0x0f, 0x11, .scalarSplat 0x7f), (0x12, 0x12, .scalarSplat 0x7e),
   (0x13, 0x13, .scalarSplat 0x7d), (0x14, 0x14, .scalarSplat 0x7c),
   (0x15, 0x16, .laneExtract 0x7f 16), (0x17, 0x17, .laneReplace 0x7f 16),
   (0x18, 0x19, .laneExtract 0x7f 8), (0x1a, 0x1a, .laneReplace 0x7f 8),
   (0x1b, 0x1b, .laneExtract 0x7f 4), (0x1c, 0x1c, .laneReplace 0x7f 4),
   (0x1d, 0x1d, .laneExtract 0x7e 2), (0x1e, 0x1e, .laneReplace 0x7e 2),
   (0x1f, 0x1f, .laneExtract 0x7d 4), (0x20, 0x20, .laneReplace 0x7d 4),
   (0x21, 0x21, .laneExtract 0x7c 2), (0x22, 0x22, .laneReplace 0x7c 2), (0x23, 0x4c, .v128Binary),
   (0x4d, 0x4d, .v128Unary), (0x4e, 0x51, .v128Binary), (0x52, 0x52, .v128Ternary),
   (0x53, 0x53, .v128TestI32), (0x54, 0x54, .memoryLoadLane 0 16),
   (0x55, 0x55, .memoryLoadLane 1 8), (0x56, 0x56, .memoryLoadLane 2 4),
   (0x57, 0x57, .memoryLoadLane 3 2), (0x58, 0x58, .memoryStoreLane 0 16),
   (0x59, 0x59, .memoryStoreLane 1 8), (0x5a, 0x5a, .memoryStoreLane 2 4),
   (0x5b, 0x5b, .memoryStoreLane 3 2), (0x5c, 0x5c, .memoryLoad 2), (0x5d, 0x5d, .memoryLoad 3),
   (0x5e, 0x62, .v128Unary), (0x63, 0x64, .v128TestI32), (0x65, 0x66, .v128Binary),
   (0x67, 0x6a, .v128Unary), (0x6b, 0x6d, .v128Shift), (0x6e, 0x73, .v128Binary),
   (0x74, 0x75, .v128Unary), (0x76, 0x79, .v128Binary), (0x7a, 0x7a, .v128Unary),
   (0x7b, 0x7b, .v128Binary), (0x7c, 0x81, .v128Unary), (0x82, 0x82, .v128Binary),
   (0x83, 0x84, .v128TestI32), (0x85, 0x86, .v128Binary), (0x87, 0x8a, .v128Unary),
   (0x8b, 0x8d, .v128Shift), (0x8e, 0x93, .v128Binary), (0x94, 0x94, .v128Unary),
   (0x95, 0x99, .v128Binary), (0x9b, 0x9f, .v128Binary), (0xa0, 0xa1, .v128Unary),
   (0xa3, 0xa4, .v128TestI32), (0xa7, 0xaa, .v128Unary), (0xab, 0xad, .v128Shift),
   (0xae, 0xae, .v128Binary), (0xb1, 0xb1, .v128Binary), (0xb5, 0xba, .v128Binary),
   (0xbc, 0xbf, .v128Binary), (0xc0, 0xc1, .v128Unary), (0xc3, 0xc4, .v128TestI32),
   (0xc7, 0xca, .v128Unary), (0xcb, 0xcd, .v128Shift), (0xce, 0xce, .v128Binary),
   (0xd1, 0xd1, .v128Binary), (0xd5, 0xdf, .v128Binary), (0xe0, 0xe1, .v128Unary),
   (0xe3, 0xe3, .v128Unary), (0xe4, 0xeb, .v128Binary), (0xec, 0xed, .v128Unary),
   (0xef, 0xef, .v128Unary), (0xf0, 0xf7, .v128Binary), (0xf8, 0xff, .v128Unary),
   (0x100, 0x100, .v128Binary), (0x101, 0x104, .v128Unary), (0x105, 0x10c, .v128Ternary),
   (0x10d, 0x112, .v128Binary), (0x113, 0x113, .v128Ternary)]

/-- `turbowasm_simd_descriptor_find`. -/
def simdDescriptorFind (opcode : Nat) : Option SimdForm :=
  (simdDescriptors.find? fun d => d.1 ≤ opcode && opcode ≤ d.2.1).map fun d => d.2.2

/-- A lane immediate. -/
def readLane (laneCount : Nat) (r : Reader) : Result (UInt8 × Reader) := do
  let (lane, r) ← orMalformed r.u8
  malformedIf (laneCount ≤ lane.toNat)
  return (lane, r)

/-- The lane immediates of `i8x16.shuffle`, `n` of them to go. -/
def readShuffle : Nat → Reader → Result (Unit × Reader)
  | 0, r => .ok ((), r)
  | n + 1, r => do
    let (_, r) ← readLane 32 r
    readShuffle n r

section Simd

variable (H : TypeHeap) (ctx : ValidationContext) (s : TypeStack) (r : Reader)

/-- `turbowasm_validate_simd_descriptor`. -/
def validateSimdForm : SimdForm → Checked
  | .constV128 => do
    let (_, r) ← orMalformed (r.slice 16)
    let s ← s.pushCarrier 0x7b
    return (s, r)
  | .shuffle => do
    let (_, r) ← readShuffle 16 r
    let s ← s.binary (ctx.typeMatches H) 0x7b 0x7b
    return (s, r)
  | .v128Unary => do
    let s ← s.unary (ctx.typeMatches H) 0x7b 0x7b
    return (s, r)
  | .v128Binary => do
    let s ← s.binary (ctx.typeMatches H) 0x7b 0x7b
    return (s, r)
  | .v128Ternary => do
    let s ← popCarriers (ctx.typeMatches H) s [0x7b, 0x7b, 0x7b]
    let s ← s.pushCarrier 0x7b
    return (s, r)
  | .v128TestI32 => do
    let s ← s.unary (ctx.typeMatches H) 0x7b 0x7f
    return (s, r)
  | .scalarSplat scalarType => do
    let s ← s.unary (ctx.typeMatches H) scalarType 0x7b
    return (s, r)
  | .laneExtract scalarType laneCount => do
    let (_, r) ← readLane laneCount r
    let s ← s.unary (ctx.typeMatches H) 0x7b scalarType
    return (s, r)
  | .laneReplace scalarType laneCount => do
    let (_, r) ← readLane laneCount r
    let s ← popCarriers (ctx.typeMatches H) s [scalarType, 0x7b]
    let s ← s.pushCarrier 0x7b
    return (s, r)
  | .v128Shift => do
    let s ← popCarriers (ctx.typeMatches H) s [0x7f, 0x7b]
    let s ← s.pushCarrier 0x7b
    return (s, r)
  | .memoryLoad alignment => validateLoad H ctx 0x7b alignment s r
  | .memoryStore alignment => validateStore H ctx 0x7b alignment s r
  | .memoryLoadLane alignment laneCount => do
    let (address, r) ← validateIndexedMemarg ctx alignment r
    let (_, r) ← readLane laneCount r
    let s ← popCarriers (ctx.typeMatches H) s [0x7b, address]
    let s ← s.pushCarrier 0x7b
    return (s, r)
  | .memoryStoreLane alignment laneCount => do
    let (address, r) ← validateIndexedMemarg ctx alignment r
    let (_, r) ← readLane laneCount r
    let s ← popCarriers (ctx.typeMatches H) s [0x7b, address]
    return (s, r)

/-- `turbowasm_validate_simd`. -/
def validateSimd : Checked := do
  let (subopcode, r) ← orMalformed r.uleb32
  let form ← orFail .unsupported (simdDescriptorFind subopcode)
  validateSimdForm H ctx s r form

end Simd

end TurboWasm
