/-
# Reading the type section

`validate_type.c` reads value types, `validate_composite.c` reads the type section: a vector of
recursion groups, each one type or `0x4e` and a vector of types.  The section is read twice, first
with a `NULL` context to count the types, then into the allocated array; afterwards
`turbowasm_validation_types_finalize` binds every type index to its record and checks the groups.

A context is the address of its type array together with the array as filled so far (`TypeCtx`);
the first reading has none.  Allocations are taken to succeed: a failed one ends the validation with
`TURBOWASM_OUT_OF_MEMORY` and nothing here speaks of a validation that did not succeed.
-/
import TurboWasm.Reader
import TurboWasm.Types.Equal

namespace TurboWasm

/-- The part of a `turbowasm_validation_context` that reading a type uses. -/
structure TypeCtx where
  addr : Nat
  types : List FuncType
  deriving DecidableEq, Repr

/-- `&context->types[i]`. -/
def TypeCtx.ptr (ctx : TypeCtx) (i : Nat) : TypePtr := ⟨ctx.addr, i⟩

/-- An abstract heap type with its carrier. -/
def abstractHeap (carrier : UInt8) (kind : HeapKind) : ValueType :=
  ⟨carrier, true, false, kind, uint32Max, none⟩

/-- The negative codes of `turbowasm_validation_read_heaptype`. -/
def heapOfCode (heap : Int) : Option ValueType :=
  if heap = -18 then some (abstractHeap 0x6e .any)
  else if heap = -19 then some (abstractHeap 0x6e .eq)
  else if heap = -20 then some (abstractHeap 0x6e .i31)
  else if heap = -21 then some (abstractHeap 0x6e .struct)
  else if heap = -22 then some (abstractHeap 0x6e .array)
  else if heap = -15 then some (abstractHeap 0x6e .bottom)
  else if heap = -13 then some (abstractHeap 0x70 .nofunc)
  else if heap = -14 then some (abstractHeap 0x6f .noexternal)
  else if heap = -16 then some (abstractHeap 0x70 .func)
  else if heap = -17 then some (abstractHeap 0x6f .external)
  else if heap = -23 then some (abstractHeap 0x69 .exn)
  else if heap = -12 then some (abstractHeap 0x69 .noexn)
  else none

/-- A reference to the type `index`, as `turbowasm_validation_read_heaptype` fills it in.  With a
context the carrier already follows the kind of a record that has been read. -/
def heapOfIndex (ctx : Option TypeCtx) (index : Nat) : Result ValueType :=
  match ctx with
  | none => .ok ⟨0x70, true, false, .typeIndex, index, none⟩
  | some ctx =>
    match ctx.types[index]? with
    | none => .error .malformedModule
    | some d =>
      .ok ⟨if d.defined && d.kind != .function then 0x6e else 0x70, true, false, .typeIndex, index,
        some (ctx.ptr index)⟩

variable (r : Reader) (ctx : Option TypeCtx) (limit : Nat)

/-- `turbowasm_validation_read_heaptype`.  The function leaves `nullable` to its callers; here it
is `false` until they set it. -/
def readHeaptype : Result (ValueType × Reader) := do
  let (heap, r) ← orMalformed r.s33
  if 0 ≤ heap then
    malformedIf (heap > uint32Max)
    let t ← heapOfIndex ctx heap.toNat
    return (t, r)
  else
    let t ← orMalformed (heapOfCode heap)
    return (t, r)

/-- `turbowasm_validation_read_reftype`. -/
def readReftype : Result (ValueType × Reader) := do
  let (first, r') ← orMalformed r.u8
  if first = 0x70 ∨ first = 0x6f ∨ first = 0x69 then
    return (valueTypeLegacy first, r')
  else if (0x6a ≤ first ∧ first ≤ 0x6e) ∨ (0x71 ≤ first ∧ first ≤ 0x74) then
    -- `--reader->cursor`: the shorthand is the heap type itself
    let (t, r'') ← readHeaptype r ctx
    return ({ t with nullable := true }, r'')
  else if first ≠ 0x63 ∧ first ≠ 0x64 then
    .error .malformedModule
  else
    let (t, r'') ← readHeaptype r' ctx
    return ({ t with nullable := first = 0x63 }, r'')

/-- `turbowasm_validation_read_valtype`. -/
def readValtype : Result (ValueType × Reader) := do
  let first ← orMalformed r.peek
  if first = 0x7f ∨ first = 0x7e ∨ first = 0x7d ∨ first = 0x7c ∨ first = 0x7b then
    let (first, r) ← orMalformed r.u8
    return (valueTypeLegacy first, r)
  else readReftype r ctx

/-- `read_value`. -/
def readValue : Result (ValueType × Reader) := do
  let (type, r) ← readValtype r ctx
  malformedIf (type.heapKind = .typeIndex ∧ limit ≤ type.typeIndex)
  return (type, r)

/-- The loop of `read_vector`. -/
def readValues (ctx : Option TypeCtx) (limit : Nat) :
    Nat → Reader → Result (List ValueType × Reader)
  | 0, r => .ok ([], r)
  | n + 1, r => do
    let (t, r) ← readValue r ctx limit
    let (ts, r) ← readValues ctx limit n r
    return (t :: ts, r)

/-- `read_vector`. -/
def readVector : Result (List ValueType × Reader) := do
  let (size, r) ← orMalformed r.uleb32
  malformedIf (r.remaining < size)
  readValues ctx limit size r

/-- The storage type of a field: a packed integer, kept as an `i32` with its width, or a value
type. -/
def readStorage : Result ((ValueType × Nat) × Reader) := do
  let first ← orMalformed r.peek
  if first = 0x78 ∨ first = 0x77 then
    let (first, r) ← orMalformed r.u8
    return ((valueTypeLegacy 0x7f, if first = 0x78 then 8 else 16), r)
  else
    let (t, r) ← readValue r ctx limit
    return ((t, 0), r)

/-- One round of the field loop of `read_definition`. -/
def readField : Result (Field × Reader) := do
  let ((type, packedBits), r) ← readStorage r ctx limit
  let (mutability, r) ← orMalformed r.u8
  malformedIf (mutability > 1)
  return (⟨type, packedBits, mutability ≠ 0⟩, r)

/-- The field loop of `read_definition`. -/
def readFields (ctx : Option TypeCtx) (limit : Nat) :
    Nat → Reader → Result (List Field × Reader)
  | 0, r => .ok ([], r)
  | n + 1, r => do
    let (f, r) ← readField r ctx limit
    let (fs, r) ← readFields ctx limit n r
    return (f :: fs, r)

/-- The supertype of a `sub` form: at most one, declared before the type. -/
def readSuper (index : Nat) : Result (Nat × Reader) := do
  let (superCount, r) ← orMalformed r.uleb32
  malformedIf (superCount > 1)
  if superCount ≠ 0 then
    let (superIndex, r) ← orMalformed r.uleb32
    malformedIf (index ≤ superIndex)
    return (superIndex, r)
  else return (uint32Max, r)

/-- The optional `sub` form of `read_definition`: finality, supertype index and the form byte. -/
def readSub (index : Nat) : Result ((Bool × Nat × UInt8) × Reader) := do
  let (form, r) ← orMalformed r.u8
  if form = 0x4f ∨ form = 0x50 then
    let (superIndex, r) ← readSuper r index
    let (form', r) ← orMalformed r.u8
    return ((form = 0x4f, superIndex, form'), r)
  else return ((true, uint32Max, form), r)

/-- The number of fields: a struct has a vector of them, an array one. -/
def readFieldCount (form : UInt8) : Result (Nat × Reader) :=
  if form = 0x5f then orMalformed r.uleb32 else .ok (1, r)

/-- The composite type that follows the form byte in `read_definition`. -/
def readComposite (form : UInt8) :
    Result ((TypeKind × List ValueType × List ValueType × List Field) × Reader) := do
  if form = 0x60 then
    let (params, r) ← readVector r ctx limit
    let (results, r) ← readVector r ctx limit
    return ((.function, params, results, []), r)
  else if form = 0x5f ∨ form = 0x5e then
    let (count, r) ← readFieldCount r form
    malformedIf (r.remaining / 2 < count)
    let (fields, r) ← readFields ctx limit count r
    return ((if form = 0x5f then .struct else .array, [], [], fields), r)
  else .error .malformedModule

/-- `read_definition`. -/
def readDefinition (index groupStart groupCount : Nat) : Result (FuncType × Reader) := do
  let ((finalType, superIndex, form), r) ← readSub r index
  let ((kind, params, results, fields), r) ← readComposite r ctx (groupStart + groupCount) form
  return ({ FuncType.zero with
      defined := true, params := params, results := results, kind := kind, fields := fields,
      finalType := finalType, superIndex := superIndex,
      group := ctx.map (fun c => c.ptr groupStart),
      groupCount := groupCount, groupOffset := index - groupStart,
      canonical := ctx.map (fun c => c.ptr index),
      super := if superIndex = uint32Max then none else ctx.map (fun c => c.ptr superIndex) }, r)

/-- `context->types[index] = type`. -/
def TypeCtx.set (ctx : TypeCtx) (index : Nat) (type : FuncType) : TypeCtx :=
  { ctx with types := ctx.types.set index type }

/-- The member loop of `read_groups`: `left` members to go, the next at index `i` of the section. -/
def readMembers (groupStart groupCount : Nat) :
    Nat → Nat → Reader → Option TypeCtx → Result (Option TypeCtx × Reader)
  | 0, _, r, ctx => .ok (ctx, r)
  | left + 1, i, r, ctx => do
    let (type, r) ← readDefinition r ctx i groupStart groupCount
    readMembers groupStart groupCount left (i + 1) r (ctx.map (fun c => c.set i type))

/-- The size of the next group: `0x4e` and a count, or a single type. -/
def readGroupCount : Result (Nat × Reader) := do
  let first ← orMalformed r.peek
  if first = 0x4e then
    let (_, r) ← orMalformed r.u8
    orMalformed r.uleb32
  else return (1, r)

/-- The group loop of `read_groups`: `left` groups to go, `total` types read before them. -/
def readGroupLoop : Nat → Nat → Reader → Option TypeCtx →
    Result (Nat × Option TypeCtx × Reader)
  | 0, total, r, ctx => .ok (total, ctx, r)
  | left + 1, total, r, ctx => do
    let (count, r) ← readGroupCount r
    malformedIf (uint32Max - total < count ∨ r.remaining < count)
    let (ctx, r) ← readMembers total count count total r ctx
    readGroupLoop left (total + count) r ctx

/-- `read_groups`. -/
def readGroups : Result (Nat × Option TypeCtx × Reader) := do
  let (groups, r) ← orMalformed r.uleb32
  let (total, ctx, r) ← readGroupLoop groups 0 r ctx
  malformedIf (r.remaining ≠ 0)
  return (total, ctx, r)

/-! ## Finalizing -/

/-- `TURBOWASM_TYPE_DEPENDENCY_LIMIT`. -/
def typeDependencyLimit : Nat := 256

variable (H : TypeHeap) (ctx : TypeCtx) (types : List FuncType)

/-- `turbowasm_validation_bind_value`. -/
def bindValue (value : ValueType) : Option ValueType :=
  if value.heapKind = .typeIndex then
    if !value.isReference then none
    else match ctx.types[value.typeIndex]? with
      | none => none
      | some d => some { value with
          definition := some (ctx.ptr value.typeIndex),
          carrier := if d.kind = .function then 0x70 else 0x6e }
  else some { value with definition := none }

/-- The field case of the first loop of `turbowasm_validation_types_finalize`. -/
def bindField (f : Field) : Option Field :=
  (bindValue ctx f.type).map (fun t => { f with type := t })

/-- One round of the first loop of `turbowasm_validation_types_finalize`. -/
def bindType (i : Nat) (type : FuncType) : Option FuncType :=
  if i < type.groupOffset ∨ type.groupCount ≤ type.groupOffset ∨
      ctx.types.length - (i - type.groupOffset) < type.groupCount then none
  else do
    let params ← type.params.mapM (bindValue ctx)
    let results ← type.results.mapM (bindValue ctx)
    let fields ← type.fields.mapM (bindField ctx)
    return { type with params := params, results := results, fields := fields }

/-- The first loop of `turbowasm_validation_types_finalize`, from the type `i` on.  It never
changes the kind of a record, so binding against the context it started from is the same. -/
def bindTypes (ctx : TypeCtx) : Nat → List FuncType → Option (List FuncType)
  | _, [] => some []
  | i, t :: ts => do
    let t ← bindType ctx i t
    let ts ← bindTypes ctx (i + 1) ts
    return t :: ts

/-- The value types of a record, in the order the second loop visits them. -/
def FuncType.values (type : FuncType) : List ValueType :=
  type.params ++ type.results ++ type.fields.map Field.type

/-- `depth`, raised over the dependency depth of the record at `p`. -/
def raiseDepth (index depth : Nat) : Nat :=
  match types[index]? with
  | some d => if depth ≤ d.dependencyDepth then d.dependencyDepth + 1 else depth
  | none => depth

/-- The value loop of the second loop of `turbowasm_validation_types_finalize`. -/
def valuesDepth (types : List FuncType) (start count : Nat) :
    Nat → List ValueType → Option Nat
  | depth, [] => some depth
  | depth, v :: vs =>
    if v.definition.isSome ∧ start + count ≤ v.typeIndex then none
    else
      let depth := if v.definition.isSome ∧ v.typeIndex < start
        then raiseDepth types v.typeIndex depth else depth
      valuesDepth types start count depth vs

/-- `depth`, raised over the supertype of a member of the group at `start`. -/
def superDepth (start : Nat) (type : FuncType) (depth : Nat) : Nat :=
  if type.super.isSome ∧ type.superIndex < start then raiseDepth types type.superIndex depth
  else depth

/-- The member loop of the second loop: the depth of the group at `start`, or `none` when a member
does not belong to it or refers past it. -/
def groupDepth (ctx : TypeCtx) (start count : Nat) : Nat → List FuncType → Nat → Option Nat
  | _, [], depth => some depth
  | j, type :: rest, depth =>
    if type.group ≠ some (ctx.ptr start) ∨ type.groupOffset ≠ j ∨ type.groupCount ≠ count then none
    else
      match valuesDepth ctx.types start count (superDepth ctx.types start type depth)
          type.values with
      | none => none
      | some depth => groupDepth ctx start count (j + 1) rest depth

/-- One round of the field loop of `subtype_body`: a mutable field is invariant. -/
def fieldMatches (fuel : Nat) (a b : Field) : Option Bool :=
  if a.mutableValue ≠ b.mutableValue ∨ a.packedBits ≠ b.packedBits then some false
  else if a.mutableValue then valueTypeEqual H fuel a.type b.type
  else valueTypeMatches H fuel a.type b.type

/-- `subtype_body`. -/
def subtypeBody (fuel : Nat) (type : FuncType) : Option Bool :=
  match type.super with
  | none => some true
  | some p =>
    match H.get p with
    | none => none
    | some parent =>
      if parent.finalType ∨ type.kind ≠ parent.kind ∨
          type.params.length ≠ parent.params.length ∨
          type.results.length ≠ parent.results.length ∨
          type.fields.length < parent.fields.length then some false
      else
        andShort (allShort (fun p => valueTypeMatches H fuel p.2 p.1)
          (type.params.zip parent.params)) <|
        andShort (allShort (fun p => valueTypeMatches H fuel p.1 p.2)
          (type.results.zip parent.results)) <|
        allShort (fun p => fieldMatches H fuel p.1 p.2) (type.fields.zip parent.fields)

/-- Set the dependency depth of the `count` records from `start` on. -/
def setDepth (start count depth : Nat) : List FuncType :=
  types.mapIdx fun k t =>
    if start ≤ k ∧ k < start + count then { t with dependencyDepth := depth } else t

/-- The second loop of `turbowasm_validation_types_finalize`, from the group at `i` on.  Every
round passes at least one record, so the number of records bounds the rounds. -/
def finalizeGroups (H : TypeHeap) : Nat → Nat → TypeCtx → Result TypeCtx
  | 0, i, ctx => if i < ctx.types.length then .error .malformedModule else .ok ctx
  | rounds + 1, i, ctx =>
    match ctx.types[i]? with
    | none => .ok ctx
    | some head => do
      let count := head.groupCount
      malformedIf (count = 0 ∨ ctx.types.length - i < count)
      let depth ← orMalformed
        (groupDepth ctx i count 0 ((ctx.types.drop i).take count) 1)
      failIf (depth > typeDependencyLimit) .outOfMemory
      let ctx := { ctx with types := setDepth ctx.types i count depth }
      let ok ← orMalformed <|
        allShort (subtypeBody (H.put ctx.addr ctx.types) (ctx.types.length + 1))
          ((ctx.types.drop i).take count)
      malformedIf (!ok)
      finalizeGroups H rounds (i + count) ctx

/-- `turbowasm_validation_types_finalize`. -/
def typesFinalize : Result TypeCtx := do
  let types ← orMalformed (bindTypes ctx 0 ctx.types)
  finalizeGroups H types.length 0 { ctx with types := types }

/-- `context->requires_store`, as the first loop sets it. -/
def typesRequireStore : Bool := types.any (fun t => t.kind != .function)

/-- `turbowasm_validate_composite_types`, for a context at address `addr`. -/
def validateCompositeTypes (addr : Nat) (r : Reader) : Result (TypeCtx × Reader) := do
  let (count, _, _) ← readGroups r none
  let (_, ctx, r) ← readGroups r (some ⟨addr, List.replicate count FuncType.zero⟩)
  let ctx ← orFail .invalidArgument ctx
  let ctx ← typesFinalize H ctx
  return (ctx, r)

end TurboWasm
