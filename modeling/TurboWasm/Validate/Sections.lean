/-
# Validating a module section by section

`validate.c` walks the sections of a module; `validate_linkage.c`, `validate_element.c` and
`validate_data.c` validate their payloads.  Every section fills its part of the validation context
and sets its counts in the module summary.
-/
import TurboWasm.Validate.Body

namespace TurboWasm

/-! ## 1. Names -/

/-- `turbowasm_utf8_cont`. -/
def utf8Cont (b : UInt8) : Bool := 0x80 ≤ b && b ≤ 0xbf

/-- `turbowasm_utf8_valid`. -/
def utf8Valid : List UInt8 → Bool
  | [] => true
  | a :: rest =>
    if a ≤ 0x7f then utf8Valid rest
    else if 0xc2 ≤ a ∧ a ≤ 0xdf then
      match rest with
      | b :: rest => utf8Cont b && utf8Valid rest
      | _ => false
    else if a = 0xe0 then
      match rest with
      | b :: c :: rest => 0xa0 ≤ b && b ≤ 0xbf && utf8Cont c && utf8Valid rest
      | _ => false
    else if (0xe1 ≤ a ∧ a ≤ 0xec) ∨ (0xee ≤ a ∧ a ≤ 0xef) then
      match rest with
      | b :: c :: rest => utf8Cont b && utf8Cont c && utf8Valid rest
      | _ => false
    else if a = 0xed then
      match rest with
      | b :: c :: rest => 0x80 ≤ b && b ≤ 0x9f && utf8Cont c && utf8Valid rest
      | _ => false
    else if a = 0xf0 then
      match rest with
      | b :: c :: d :: rest =>
        0x90 ≤ b && b ≤ 0xbf && utf8Cont c && utf8Cont d && utf8Valid rest
      | _ => false
    else if 0xf1 ≤ a ∧ a ≤ 0xf3 then
      match rest with
      | b :: c :: d :: rest => utf8Cont b && utf8Cont c && utf8Cont d && utf8Valid rest
      | _ => false
    else if a = 0xf4 then
      match rest with
      | b :: c :: d :: rest =>
        0x80 ≤ b && b ≤ 0x8f && utf8Cont c && utf8Cont d && utf8Valid rest
      | _ => false
    else false

/-- `turbowasm_read_name`. -/
def readName (r : Reader) : Result (Name × Reader) := do
  let (size, r) ← orMalformed r.uleb32
  let (bytes, r) ← orMalformed (r.slice size)
  malformedIf (!utf8Valid bytes.rest)
  return (⟨some bytes.cursor, bytes.rest⟩, r)

/-! ## 2. Constant expressions -/

section Const

variable (H : TypeHeap) (ctx : ValidationContext) (stack : List ValueType) (r : Reader)

/-- `turbowasm_const_type_stack_push`, the top of the stack first. -/
def constPush (type : ValueType) : Result (List ValueType) := do
  failIf (stack.length = uint32Max) .outOfMemory
  return type :: stack

/-- `turbowasm_const_type_stack_pop`. -/
def constPop (carrier : UInt8) : Result (List ValueType) :=
  match stack with
  | [] => .error .malformedModule
  | type :: stack => do
    malformedIf (!ctx.typeMatches H type (valueTypeLegacy carrier))
    return stack

/-- The integer additions, subtractions and multiplications of a constant expression. -/
def constBinary (carrier : UInt8) : Result (List ValueType) := do
  let stack ← constPop H ctx stack carrier
  let stack ← constPop H ctx stack carrier
  constPush stack (valueTypeLegacy carrier)

/-- `ref.func` of a constant expression, which declares the function as referenced. -/
def constRefFunc : Result (ValidationContext × List ValueType × Reader) := do
  let (functionIndex, r) ← orMalformed r.uleb32
  let function ← orMalformed ctx.functions[functionIndex]?
  let ctx ← orFail .outOfMemory (ctx.declareFunctionRef functionIndex)
  let stack ← constPush stack (funcReference ctx function.typeIndex)
  return (ctx, stack, r)

/-- One round of the loop of `turbowasm_validate_const_expr_semantic`, after the opcode. -/
def constInstruction (opcode : UInt8) :
    Result (ValidationContext × List ValueType × Reader) := do
  if opcode = 0x41 then
    let (_, r) ← orMalformed r.sleb32
    let stack ← constPush stack (valueTypeLegacy 0x7f)
    return (ctx, stack, r)
  else if opcode = 0x42 then
    let (_, r) ← orMalformed r.sleb64
    let stack ← constPush stack (valueTypeLegacy 0x7e)
    return (ctx, stack, r)
  else if opcode = 0x43 then
    let (_, r) ← orMalformed (r.slice 4)
    let stack ← constPush stack (valueTypeLegacy 0x7d)
    return (ctx, stack, r)
  else if opcode = 0x44 then
    let (_, r) ← orMalformed (r.slice 8)
    let stack ← constPush stack (valueTypeLegacy 0x7c)
    return (ctx, stack, r)
  else if opcode = 0x6a ∨ opcode = 0x6b ∨ opcode = 0x6c then
    let stack ← constBinary H ctx stack 0x7f
    return (ctx, stack, r)
  else if opcode = 0x7c ∨ opcode = 0x7d ∨ opcode = 0x7e then
    let stack ← constBinary H ctx stack 0x7e
    return (ctx, stack, r)
  else if opcode = 0xd0 then
    let (type, r) ← readHeaptype r (some ctx.typeCtx)
    malformedIf (type.heapKind = .typeIndex && ctx.types.length ≤ type.typeIndex)
    let stack ← constPush stack { type with nullable := true }
    return (ctx, stack, r)
  else if opcode = 0xd2 then constRefFunc ctx stack r
  else if opcode = 0xfd then
    let (subopcode, r) ← orMalformed r.uleb32
    malformedIf (subopcode != 0x0c)
    let (_, r) ← orMalformed (r.slice 16)
    let stack ← constPush stack (valueTypeLegacy 0x7b)
    return (ctx, stack, r)
  else if opcode = 0xfb then
    let (s, r) ← validateGcConstant H ctx ⟨stack, 0, false⟩ r
    return ({ ctx with requiresStore := true }, s.values, r)
  else if opcode = 0x23 then
    let (globalIndex, r) ← orMalformed r.uleb32
    let global ← orMalformed ctx.globals[globalIndex]?
    malformedIf global.mutableValue
    let stack ← constPush stack global.semanticType
    return (ctx, stack, r)
  else .error .malformedModule

/-- The loop of `turbowasm_validate_const_expr_semantic`; every round reads an opcode. -/
def constLoop : Nat → ValidationContext → List ValueType → Reader →
    Result (ValueType × ValidationContext × Reader)
  | 0, _, _, _ => .error .malformedModule
  | fuel + 1, ctx, stack, r => do
    let (opcode, r) ← orMalformed r.u8
    if opcode = 0x0b then
      match stack with
      | [type] => return (type, ctx, r)
      | _ => .error .malformedModule
    else
      let (ctx, stack, r) ← constInstruction H ctx stack r opcode
      constLoop fuel ctx stack r

/-- `turbowasm_validate_const_expr_semantic`, and the bytes it read.  A section has at most
`UINT32_MAX` bytes, so the tests of that size against `UINT32_MAX` cannot fail. -/
def validateConstExpr : Result ((ValueType × Span) × ValidationContext × Reader) := do
  let (type, ctx, r') ← constLoop H r.remaining ctx [] r
  return ((type, ⟨some r.cursor, r'.cursor - r.cursor⟩), ctx, r')

end Const

/-! ## 3. The sections -/

/-- What the validation of a module fills. -/
structure ValidationState where
  summary : ModuleSummary
  context : ValidationContext
  deriving DecidableEq, Repr

/-- `turbowasm_reader_remaining(section) != 0u`, tested after the items of a section. -/
def expectEnd (r : Reader) : Result Unit := malformedIf (r.remaining != 0)

/-- `for (index = 0u; index < count; ++index)` over the items of a section. -/
def repeatItem {σ : Type} (item : σ → Reader → Result (σ × Reader)) :
    Nat → σ → Reader → Result (σ × Reader)
  | 0, s, r => .ok (s, r)
  | n + 1, s, r => do
    let (s, r) ← item s r
    repeatItem item n s r

/-- A section that is a vector of items: their number and the state after the last. -/
def validateItems {σ : Type} (item : σ → Reader → Result (σ × Reader)) (s : σ)
    (r : Reader) : Result (Nat × σ) := do
  let (count, r) ← orMalformed r.uleb32
  let (s, r) ← repeatItem item count s r
  expectEnd r
  return (count, s)

section Sections

variable (H : TypeHeap) (v : ValidationState) (s : ModuleSummary) (ctx : ValidationContext)
  (flags : Nat) (r : Reader)

/-- The count that the second reading of the type section leaves in the summary. -/
def compositeTypeCount (addr : Nat) (r : Reader) : Result Nat := do
  let (count, _, _) ← readGroups r none
  let (count, _, _) ← readGroups r (some ⟨addr, List.replicate count FuncType.zero⟩)
  return count

/-- `turbowasm_validate_composite_types` with its summary. -/
def validateTypeSection : Result ValidationState := do
  let (types, _) ← validateCompositeTypes H v.context.addr r
  let count ← compositeTypeCount v.context.addr r
  return ⟨{ v.summary with typeCount := count }, { v.context with
    types := types.types
    requiresStore := v.context.requiresStore || typesRequireStore types.types }⟩

/-- The type index of a function import or of a function. -/
def readFunctionType : Result (Nat × Reader) := do
  let (typeIndex, r) ← orMalformed r.uleb32
  malformedIf (v.summary.typeCount ≤ typeIndex)
  let type ← orMalformed v.context.types[typeIndex]?
  malformedIf (type.kind != .function)
  return (typeIndex, r)

/-- `turbowasm_read_table_type`. -/
def readTableType : Result ((ValueType × TableLimits) × Reader) := do
  let (type, r) ← readReftype r (some ctx.typeCtx)
  malformedIf (type.heapKind = .typeIndex && ctx.types.length ≤ type.typeIndex)
  let (limits, r) ← readLimits r
  return ((type, limits), r)

/-- `turbowasm_validation_read_globaltype`. -/
def readGlobaltype : Result ((ValueType × Bool) × Reader) := do
  let (type, r) ← readValtype r (some ctx.typeCtx)
  malformedIf (type.heapKind = .typeIndex && ctx.types.length ≤ type.typeIndex)
  let (mutability, r) ← orMalformed r.u8
  malformedIf (mutability > 1)
  return ((type, mutability ≠ 0), r)

/-- `turbowasm_read_tag_type`. -/
def readTagType : Result (Nat × Reader) := do
  let (attr, r) ← orMalformed r.u8
  let (typeIndex, r) ← orMalformed r.uleb32
  malformedIf (attr != 0)
  let type ← functionTypeAt ctx typeIndex
  malformedIf (type.results.length != 0)
  return (typeIndex, r)

/-- The description of an import: the state with the imported item, its index and its type. -/
def importItem : ExternalKind → Result ((ValidationState × Nat × Nat) × Reader)
  | .function => do
    let (typeIndex, r) ← readFunctionType v r
    let ctx ← orFail .outOfMemory (v.context.appendFunction typeIndex true)
    let n := v.summary.importedFunctionCount
    return ((⟨{ v.summary with importedFunctionCount := n + 1 }, ctx⟩, n, typeIndex), r)
  | .table => do
    let ((type, limits), r) ← readTableType v.context r
    let ctx ← orFail .outOfMemory (v.context.appendTable type limits true .zero)
    let n := v.summary.importedTableCount
    return ((⟨{ v.summary with importedTableCount := n + 1 }, ctx⟩, n, uint32Max), r)
  | .memory => do
    let (type, r) ← readMemoryType r
    let ctx ← orFail .outOfMemory (v.context.appendMemory type true)
    let n := v.summary.importedMemoryCount
    return ((⟨{ v.summary with importedMemoryCount := n + 1 }, ctx⟩, n, uint32Max), r)
  | .global => do
    let ((type, mutableValue), r) ← readGlobaltype v.context r
    let ctx ← orFail .outOfMemory (v.context.appendGlobal type mutableValue true .zero)
    let n := v.summary.importedGlobalCount
    return ((⟨{ v.summary with importedGlobalCount := n + 1 }, ctx⟩, n, uint32Max), r)
  | .tag => do
    let (typeIndex, r) ← readTagType v.context r
    let ctx ← orFail .outOfMemory (v.context.appendTag typeIndex true)
    let n := v.summary.importedTagCount
    return ((⟨{ v.summary with importedTagCount := n + 1 }, ctx⟩, n, typeIndex), r)

/-- One import. -/
def validateImport : Result (ValidationState × Reader) := do
  let (moduleName, r) ← readName r
  let (name, r) ← readName r
  let (byte, r) ← orMalformed r.u8
  let kind ← orMalformed (ExternalKind.ofByte byte)
  let ((v, itemIndex, typeIndex), r) ← importItem v r kind
  let ctx ← orFail .outOfMemory
    (v.context.appendImport ⟨moduleName, name, kind, itemIndex, typeIndex⟩)
  return ({ v with context := ctx }, r)

/-- `turbowasm_validate_import_section`. -/
def validateImportSection : Result ValidationState := do
  let (_, v) ← validateItems validateImport v r
  return v

/-- One function of the function section. -/
def validateFunction : Result (ValidationState × Reader) := do
  let (typeIndex, r) ← readFunctionType v r
  let ctx ← orFail .outOfMemory (v.context.appendFunction typeIndex false)
  return ({ v with context := ctx }, r)

/-- `turbowasm_validate_function_section`. -/
def validateFunctionSection : Result ValidationState := do
  let (count, v) ← validateItems validateFunction v r
  return { v with summary := { v.summary with functionCount := count } }

/-- A table with an explicit initializer, after its marker. -/
def validateInitializedTable : Result (ValidationContext × Reader) := do
  let (_, r) ← orMalformed r.u8
  let (zero, r) ← orMalformed r.u8
  malformedIf (zero != 0)
  let ((type, limits), r) ← readTableType ctx r
  let ((initializerType, initializer), ctx, r) ← validateConstExpr H ctx r
  malformedIf (!ctx.typeMatches H initializerType type)
  malformedIf (initializer.size = 0)
  let ctx ← orFail .outOfMemory (ctx.appendTable type limits false initializer)
  return (ctx, r)

/-- One table.  Without an initializer its type must have a null. -/
def validateTable : Result (ValidationContext × Reader) :=
  if r.peek = some 0x40 then validateInitializedTable H ctx r
  else do
    let ((type, limits), r) ← readTableType ctx r
    malformedIf (type.isReference && !type.nullable)
    let ctx ← orFail .outOfMemory (ctx.appendTable type limits false .zero)
    return (ctx, r)

/-- `turbowasm_validate_table_section`. -/
def validateTableSection : Result ValidationState := do
  let (count, ctx) ← validateItems (validateTable H) v.context r
  return ⟨{ v.summary with tableCount := count }, ctx⟩

/-- One memory. -/
def validateMemory : Result (ValidationContext × Reader) := do
  let (type, r) ← readMemoryType r
  let ctx ← orFail .outOfMemory (ctx.appendMemory type false)
  return (ctx, r)

/-- `turbowasm_validate_memory_section`. -/
def validateMemorySection : Result ValidationState := do
  let (count, ctx) ← validateItems validateMemory v.context r
  return ⟨{ v.summary with memoryCount := count }, ctx⟩

/-- One tag. -/
def validateTag : Result (ValidationContext × Reader) := do
  let (typeIndex, r) ← readTagType ctx r
  let ctx ← orFail .outOfMemory (ctx.appendTag typeIndex false)
  return (ctx, r)

/-- `turbowasm_validate_tag_section`. -/
def validateTagSection : Result ValidationState := do
  let (count, ctx) ← validateItems validateTag v.context r
  return ⟨{ v.summary with tagCount := count }, ctx⟩

/-- One global. -/
def validateGlobal : Result (ValidationContext × Reader) := do
  let ((type, mutableValue), r) ← readGlobaltype ctx r
  let ((expressionType, initializer), ctx, r) ← validateConstExpr H ctx r
  malformedIf (!ctx.typeMatches H expressionType type)
  let ctx ← orFail .outOfMemory (ctx.appendGlobal type mutableValue false initializer)
  return (ctx, r)

/-- `turbowasm_validate_global_section`. -/
def validateGlobalSection : Result ValidationState := do
  let (count, ctx) ← validateItems (validateGlobal H) v.context r
  return ⟨{ v.summary with globalCount := count }, ctx⟩

/-- `turbowasm_index_in_total`. -/
def indexInTotal (index imported defined : Nat) : Bool := index < imported + defined

/-- `turbowasm_export_index_valid`. -/
def exportIndexValid (index : Nat) : ExternalKind → Bool
  | .function => indexInTotal index s.importedFunctionCount s.functionCount
  | .table => indexInTotal index s.importedTableCount s.tableCount
  | .memory => indexInTotal index s.importedMemoryCount s.memoryCount
  | .global => indexInTotal index s.importedGlobalCount s.globalCount
  | .tag => indexInTotal index s.importedTagCount s.tagCount

/-- An exported function counts as referenced. -/
def declareExport (kind : ExternalKind) (itemIndex : Nat) : Result ValidationContext :=
  if kind = .function then orFail .outOfMemory (ctx.declareFunctionRef itemIndex) else .ok ctx

/-- One export. -/
def validateExport : Result (ValidationContext × Reader) := do
  let (name, r) ← readName r
  malformedIf (ctx.exports.any fun retained => retained.name.bytes == name.bytes)
  let (byte, r) ← orMalformed r.u8
  let (itemIndex, r) ← orMalformed r.uleb32
  let kind ← orMalformed (ExternalKind.ofByte byte)
  malformedIf (!exportIndexValid s itemIndex kind)
  let ctx ← orFail .outOfMemory (ctx.appendExport ⟨name, kind, itemIndex⟩)
  let ctx ← declareExport ctx kind itemIndex
  return (ctx, r)

/-- `turbowasm_validate_export_section`. -/
def validateExportSection : Result ValidationState := do
  let (count, ctx) ← validateItems (validateExport v.summary) v.context r
  return ⟨{ v.summary with exportCount := count }, ctx⟩

/-- `turbowasm_validate_start_section`. -/
def validateStartSection : Result ValidationState := do
  let (functionIndex, r) ← orMalformed r.uleb32
  expectEnd r
  let type ← orMalformed (v.context.functionType functionIndex)
  malformedIf (type.params.length != 0 || type.results.length != 0)
  return { v with summary := { v.summary with
    hasStart := true, startFunctionIndex := functionIndex } }

/-- `turbowasm_element_read_elemkind`. -/
def readElemkind : Result (ValueType × Reader) := do
  let (kind, r) ← orMalformed r.u8
  malformedIf (kind != 0)
  return ({ valueTypeLegacy 0x70 with nullable := false }, r)

/-- `turbowasm_element_read_reftype`. -/
def readElemReftype : Result (ValueType × Reader) := do
  let (type, r) ← readReftype r (some ctx.typeCtx)
  malformedIf (type.heapKind = .typeIndex && ctx.types.length ≤ type.typeIndex)
  return (type, r)

/-- The type of an element segment: fixed by the flags, or given by an element kind or a type. -/
def readElementType : Result (ValueType × Reader) :=
  if flags = 0 then .ok ({ valueTypeLegacy 0x70 with nullable := false }, r)
  else if flags ≤ 3 then readElemkind r
  else if flags = 4 then .ok (valueTypeLegacy 0x70, r)
  else readElemReftype ctx r

/-- The flags that announce an active segment. -/
def elementActive : Bool := flags == 0 || flags == 2 || flags == 4 || flags == 6

/-- The mode that the flags announce. -/
def elementMode : SegmentMode :=
  if elementActive flags then .active
  else if flags = 3 ∨ flags = 7 then .declarative
  else .passive

/-- The table of an element segment; without an immediate it is table 0. -/
def readTableIndex : Result (Nat × Reader) :=
  if flags = 2 ∨ flags = 6 then orMalformed r.uleb32 else .ok (0, r)

/-- `turbowasm_element_validate_offset`, when the segment is active. -/
def readElementOffset (tableIndex : Nat) (r : Reader) :
    Result (ExprSpan × ValidationContext × Reader) :=
  if elementActive flags then do
    let ((type, span), ctx, r) ← validateConstExpr H ctx r
    let table ← orMalformed ctx.tables[tableIndex]?
    malformedIf (type.carrier != table.address)
    return (⟨span, type.carrier⟩, ctx, r)
  else .ok (.zero, ctx, r)

/-- `turbowasm_element_validate_table`, when the segment is active. -/
def checkElementTable (tableIndex : Nat) (type : ValueType) : Result Unit :=
  if elementActive flags then do
    let table ← orMalformed ctx.tables[tableIndex]?
    malformedIf (!ctx.typeMatches H type table.semanticType)
  else .ok ()

/-- `turbowasm_element_validate_funcidx_vector`, `n` items to go. -/
def readFuncidxItems : Nat → ValidationContext → Reader →
    Result (List ElementItem × ValidationContext × Reader)
  | 0, ctx, r => .ok ([], ctx, r)
  | n + 1, ctx, r => do
    let (functionIndex, r) ← orMalformed r.uleb32
    malformedIf (ctx.functions.length ≤ functionIndex)
    let ctx ← orFail .outOfMemory (ctx.declareFunctionRef functionIndex)
    let (items, ctx, r) ← readFuncidxItems n ctx r
    return (⟨.functionIndex, functionIndex, .zero⟩ :: items, ctx, r)

/-- `turbowasm_element_validate_expr_vector`, `n` items to go. -/
def readExprItems (type : ValueType) : Nat → ValidationContext → Reader →
    Result (List ElementItem × ValidationContext × Reader)
  | 0, ctx, r => .ok ([], ctx, r)
  | n + 1, ctx, r => do
    let ((itemType, span), ctx, r) ← validateConstExpr H ctx r
    malformedIf (!ctx.typeMatches H itemType type)
    let (items, ctx, r) ← readExprItems type n ctx r
    return (⟨.constExpr, 0, ⟨span, itemType.carrier⟩⟩ :: items, ctx, r)

/-- The items of an element segment. -/
def readElementItems (type : ValueType) (r : Reader) :
    Result (List ElementItem × ValidationContext × Reader) := do
  let (count, r) ← orMalformed r.uleb32
  if 4 ≤ flags then readExprItems H type count ctx r else readFuncidxItems count ctx r

/-- One element segment. -/
def validateElement : Result (ValidationContext × Reader) := do
  let (flags, r) ← orMalformed r.uleb32
  malformedIf (7 < flags)
  let (tableIndex, r) ← readTableIndex flags r
  let (offset, ctx, r) ← readElementOffset H ctx flags tableIndex r
  let (type, r) ← readElementType ctx flags r
  checkElementTable H ctx flags tableIndex type
  let (items, ctx, r) ← readElementItems H ctx flags type r
  let ctx ← orFail .outOfMemory
    (ctx.appendElementSegment ⟨elementMode flags, tableIndex, type, offset, items⟩)
  return (ctx, r)

/-- `turbowasm_validate_element_section`. -/
def validateElementSection : Result ValidationState := do
  let (count, ctx) ← validateItems (validateElement H) v.context r
  return ⟨{ v.summary with elementCount := count }, ctx⟩

/-- `turbowasm_validate_data_count_section`. -/
def validateDataCountSection : Result ValidationState := do
  let (count, r) ← orMalformed r.uleb32
  expectEnd r
  return ⟨{ v.summary with hasDataCount := true, dataCount := count },
    { v.context with hasDataCount := true, dataCount := count }⟩

/-- The bodies of the code section: `n` to go, the next for the function `functionIndex`. -/
def validateBodies : Nat → Nat → ValidationContext → Reader →
    Result (ValidationContext × Reader)
  | 0, _, ctx, r => .ok (ctx, r)
  | n + 1, functionIndex, ctx, r => do
    let (bodySize, r) ← orMalformed r.uleb32
    let (body, r) ← orMalformed (r.slice bodySize)
    let ctx ← validateFunctionBody H ctx functionIndex body
    validateBodies n (functionIndex + 1) ctx r

/-- `turbowasm_validate_code_section`. -/
def validateCodeSection : Result ValidationState := do
  let (count, r) ← orMalformed r.uleb32
  malformedIf (count != v.summary.functionCount)
  let (ctx, r) ← validateBodies H count v.summary.importedFunctionCount v.context r
  expectEnd r
  return ⟨{ v.summary with codeCount := count }, ctx⟩

/-- `turbowasm_read_memory_offset_expr`. -/
def readMemoryOffset (memoryIndex : Nat) (r : Reader) :
    Result (ExprSpan × ValidationContext × Reader) := do
  malformedIf (ctx.memories.length ≤ memoryIndex)
  let ((type, span), ctx, r) ← validateConstExpr H ctx r
  let memory ← orMalformed ctx.memories[memoryIndex]?
  malformedIf (type.carrier != memory.address)
  return (⟨span, type.carrier⟩, ctx, r)

/-- The mode of a data segment, with its memory and offset when it is active. -/
def readDataMode (mode : Nat) (r : Reader) :
    Result ((SegmentMode × Nat × ExprSpan) × ValidationContext × Reader) := do
  if mode = 0 then
    let (offset, ctx, r) ← readMemoryOffset H ctx 0 r
    return ((.active, 0, offset), ctx, r)
  else if mode = 1 then return ((.passive, 0, .zero), ctx, r)
  else if mode = 2 then
    let (memoryIndex, r) ← orMalformed r.uleb32
    let (offset, ctx, r) ← readMemoryOffset H ctx memoryIndex r
    return ((.active, memoryIndex, offset), ctx, r)
  else .error .malformedModule

/-- One data segment. -/
def validateData : Result (ValidationContext × Reader) := do
  let (mode, r) ← orMalformed r.uleb32
  let ((mode, memoryIndex, offset), ctx, r) ← readDataMode H ctx mode r
  let (size, r) ← orMalformed r.uleb32
  let (bytes, r) ← orMalformed (r.slice size)
  let ctx ← orFail .outOfMemory
    (ctx.appendDataSegment ⟨mode, memoryIndex, offset, ⟨some bytes.cursor, size⟩⟩)
  return (ctx, r)

/-- `turbowasm_validate_data_section`. -/
def validateDataSection : Result ValidationState := do
  let (count, ctx) ← validateItems (validateData H) v.context r
  malformedIf (v.summary.hasDataCount && v.summary.dataCount != count)
  return ⟨{ v.summary with dataSegmentCount := count }, ctx⟩

/-- `turbowasm_section_rank`; 0 for an identifier that is not a section's. -/
def sectionRank (id : UInt8) : Nat :=
  if id = 1 then 1
  else if id = 2 then 2
  else if id = 3 then 3
  else if id = 4 then 4
  else if id = 5 then 5
  else if id = 13 then 6
  else if id = 6 then 7
  else if id = 7 then 8
  else if id = 8 then 9
  else if id = 9 then 10
  else if id = 12 then 11
  else if id = 10 then 12
  else if id = 11 then 13
  else 0

/-- `turbowasm_validate_section_payload`. -/
def validateSectionPayload (id : UInt8) (v : ValidationState) (r : Reader) :
    Result ValidationState :=
  if id = 1 then validateTypeSection H v r
  else if id = 2 then validateImportSection v r
  else if id = 3 then validateFunctionSection v r
  else if id = 4 then validateTableSection H v r
  else if id = 5 then validateMemorySection v r
  else if id = 13 then validateTagSection v r
  else if id = 6 then validateGlobalSection H v r
  else if id = 7 then validateExportSection v r
  else if id = 8 then validateStartSection v r
  else if id = 9 then validateElementSection H v r
  else if id = 12 then validateDataCountSection v r
  else if id = 10 then validateCodeSection H v r
  else if id = 11 then validateDataSection H v r
  else .error .unsupported

/-- The bookkeeping of a section that is not a custom one: its rank and the sections seen. -/
def enterSection (id : UInt8) (lastRank : Nat) (v : ValidationState) :
    Result ValidationState := do
  malformedIf (sectionRank id = 0)
  malformedIf (sectionRank id < lastRank)
  malformedIf (v.summary.standardSectionMask &&& (1 <<< id.toNat) != 0)
  return { v with summary := { v.summary with
    standardSectionMask := v.summary.standardSectionMask ||| (1 <<< id.toNat) } }

/-- One section: identifier, size and payload. -/
def readSection : Option ((UInt8 × Reader) × Reader) :=
  match r.u8 with
  | none => none
  | some (id, r) =>
    match r.uleb32 with
    | none => none
    | some (size, r) =>
      match r.slice size with
      | none => none
      | some (payload, r) => some ((id, payload), r)

/-- The loop of `turbowasm_validate_sections`; every round reads an identifier. -/
def validateSectionLoop : Nat → Nat → ValidationState → Reader → Result ValidationState
  | 0, _, v, r => if r.remaining = 0 then .ok v else .error .malformedModule
  | fuel + 1, lastRank, v, r =>
    if r.remaining = 0 then .ok v
    else do
      let ((id, payload), r) ← orMalformed (readSection r)
      if id = 0 then
        let _ ← readName payload
        validateSectionLoop fuel lastRank { v with summary := { v.summary with
          customSectionCount := v.summary.customSectionCount + 1 } } r
      else
        let v ← enterSection id lastRank v
        let v ← validateSectionPayload H id v payload
        validateSectionLoop fuel (sectionRank id) v r

/-- `turbowasm_validate_sections`, into a zeroed summary and context whose types are to be at the
address `addr`. -/
def validateSections (addr : Nat) (r : Reader) : Result ValidationState := do
  let v ← validateSectionLoop H r.remaining 0 ⟨.zero, .zero addr⟩ r
  malformedIf (v.summary.codeCount != v.summary.functionCount)
  failIf (v.summary.hasDataCount && v.summary.dataCount != v.summary.dataSegmentCount)
    .malformedModule
  return v

end Sections

end TurboWasm
