/-
# The validation context

`validation_context.h`: what the validator keeps of a module.  A pointer into the module's bytes is
the offset there (`none` is `NULL`); the arrays are lists, and an array's count is the length of
its list.  The `append` functions of `validation_context.c` answer `false` when an array is full
(`UINT32_MAX` items); their allocations are taken to succeed.

Where the source keeps a value type twice, as `semantic_type` and as the byte `value_type`,
`reference_type` or `local_types`, the byte is the `carrier` of the former and is not kept again.
-/
import TurboWasm.Types.Read
import TurboWasm.Validate.Limits

namespace TurboWasm

/-! ## 1. Records -/

/-- A pointer into the module's bytes with a size. -/
structure Span where
  start : Option Nat
  size : Nat
  deriving DecidableEq, Repr

/-- `NULL` with size 0. -/
def Span.zero : Span := ⟨none, 0⟩

/-- `turbowasm_name`, with the bytes it points at. -/
structure Name where
  start : Option Nat
  bytes : List UInt8
  deriving DecidableEq, Repr

/-- `turbowasm_external_kind`. -/
inductive ExternalKind where
  | function | table | memory | global | tag
  deriving DecidableEq, Repr

/-- The kind byte of an import or export. -/
def ExternalKind.ofByte (b : UInt8) : Option ExternalKind :=
  if b = 0x00 then some .function
  else if b = 0x01 then some .table
  else if b = 0x02 then some .memory
  else if b = 0x03 then some .global
  else if b = 0x04 then some .tag
  else none

/-- `turbowasm_import_desc`. -/
structure ImportDesc where
  moduleName : Name
  name : Name
  kind : ExternalKind
  itemIndex : Nat
  typeIndex : Nat
  deriving DecidableEq, Repr

/-- `turbowasm_export_desc`. -/
structure ExportDesc where
  name : Name
  kind : ExternalKind
  itemIndex : Nat
  deriving DecidableEq, Repr

/-- `turbowasm_validation_control_kind`. -/
inductive AnnotationKind where
  | block | loop | ifThen | tryTable
  deriving DecidableEq, Repr

/-- `turbowasm_validation_catch_kind`. -/
inductive CatchKind where
  | catchTag | catchRef | catchAll | catchAllRef
  deriving DecidableEq, Repr

/-- `turbowasm_validation_catch`. -/
structure Catch where
  kind : CatchKind
  tagIndex : Nat
  labelDepth : Nat
  deriving DecidableEq, Repr

/-- `turbowasm_validation_control`: the retained record of a structured instruction. -/
structure Annotation where
  kind : AnnotationKind
  opcodeOffset : Nat
  bodyOffset : Nat
  elseOffset : Nat
  endOffset : Nat
  typeIndex : Nat
  inlineResultType : UInt8
  catches : List Catch
  deriving DecidableEq, Repr

/-- `turbowasm_validation_function`. -/
structure ValidationFunction where
  typeIndex : Nat
  imported : Bool
  locals : List ValueType
  code : Span
  annotations : List Annotation
  deriving DecidableEq, Repr

/-- `turbowasm_validation_global`. -/
structure ValidationGlobal where
  semanticType : ValueType
  mutableValue : Bool
  imported : Bool
  initializer : Span
  deriving DecidableEq, Repr

/-- `turbowasm_validation_table`. -/
structure ValidationTable where
  semanticType : ValueType
  imported : Bool
  limits : TableLimits
  initializer : Span
  deriving DecidableEq, Repr

/-- `turbowasm_validation_tag`. -/
structure ValidationTag where
  typeIndex : Nat
  imported : Bool
  deriving DecidableEq, Repr

/-- `turbowasm_validation_segment_mode`. -/
inductive SegmentMode where
  | active | passive | declarative
  deriving DecidableEq, Repr

/-- `turbowasm_validation_expr_span`. -/
structure ExprSpan where
  span : Span
  resultType : UInt8
  deriving DecidableEq, Repr

/-- A zeroed expression span. -/
def ExprSpan.zero : ExprSpan := ⟨.zero, 0⟩

/-- `turbowasm_validation_data_segment`. -/
structure DataSegment where
  mode : SegmentMode
  memoryIndex : Nat
  offset : ExprSpan
  data : Span
  deriving DecidableEq, Repr

/-- `turbowasm_validation_element_item_kind`. -/
inductive ItemKind where
  | functionIndex | constExpr
  deriving DecidableEq, Repr

/-- `turbowasm_validation_element_item`. -/
structure ElementItem where
  kind : ItemKind
  functionIndex : Nat
  expression : ExprSpan
  deriving DecidableEq, Repr

/-- `turbowasm_validation_element_segment`. -/
structure ElementSegment where
  mode : SegmentMode
  tableIndex : Nat
  semanticType : ValueType
  offset : ExprSpan
  items : List ElementItem
  deriving DecidableEq, Repr

/-- `turbowasm_validation_context`.  `addr` is the address of the array `types`; `declaredRefs` is
empty while the array is not allocated. -/
structure ValidationContext where
  addr : Nat
  requiresStore : Bool
  imports : List ImportDesc
  exports : List ExportDesc
  types : List FuncType
  functions : List ValidationFunction
  globals : List ValidationGlobal
  tables : List ValidationTable
  memories : List ValidationMemory
  tags : List ValidationTag
  dataSegments : List DataSegment
  elementSegments : List ElementSegment
  declaredRefs : List Bool
  hasDataCount : Bool
  dataCount : Nat
  deriving DecidableEq, Repr

/-- The zeroed context that a module is validated into. -/
def ValidationContext.zero (addr : Nat) : ValidationContext where
  addr := addr
  requiresStore := false
  imports := []
  exports := []
  types := []
  functions := []
  globals := []
  tables := []
  memories := []
  tags := []
  dataSegments := []
  elementSegments := []
  declaredRefs := []
  hasDataCount := false
  dataCount := 0

/-- `turbowasm_module_summary`. -/
structure ModuleSummary where
  standardSectionMask : Nat
  customSectionCount : Nat
  typeCount : Nat
  importedFunctionCount : Nat
  importedTableCount : Nat
  importedMemoryCount : Nat
  importedGlobalCount : Nat
  importedTagCount : Nat
  functionCount : Nat
  tableCount : Nat
  memoryCount : Nat
  globalCount : Nat
  tagCount : Nat
  codeCount : Nat
  exportCount : Nat
  elementCount : Nat
  hasStart : Bool
  startFunctionIndex : Nat
  hasDataCount : Bool
  dataCount : Nat
  dataSegmentCount : Nat
  deriving DecidableEq, Repr

/-- The zeroed summary. -/
def ModuleSummary.zero : ModuleSummary :=
  ⟨0, 0, 0, 0, 0, 0, 0, 0, 0, 0, 0, 0, 0, 0, 0, 0, false, 0, false, 0, 0⟩

/-! ## 2. Reading and appending -/

namespace ValidationContext

variable (ctx : ValidationContext) (H : TypeHeap)

/-- What reading a type uses of the context. -/
def typeCtx : TypeCtx := ⟨ctx.addr, ctx.types⟩

/-- `&context->types[i]`. -/
def typePtr (i : Nat) : TypePtr := ⟨ctx.addr, i⟩

/-- Memory with the context's types in it. -/
def heap : TypeHeap := H.put ctx.addr ctx.types

/-- `turbowasm_validation_value_type_matches`, called by the validator.  The fuel is enough for
every value type of the context (`valueTypeMatches_decides`). -/
def typeMatches (actual expected : ValueType) : Bool :=
  valueTypeMatches (ctx.heap H) (ctx.types.length + 1) actual expected == some true

/-- `turbowasm_validation_value_type_equal`, called by the validator. -/
def typeEqual (left right : ValueType) : Bool :=
  valueTypeEqual (ctx.heap H) (ctx.types.length + 1) left right == some true

/-- `turbowasm_validation_context_function_type`. -/
def functionType (functionIndex : Nat) : Option FuncType :=
  match ctx.functions[functionIndex]? with
  | none => none
  | some f => ctx.types[f.typeIndex]?

/-- `turbowasm_validation_context_append_import`. -/
def appendImport (d : ImportDesc) : Option ValidationContext :=
  if ctx.imports.length = uint32Max then none
  else some { ctx with imports := ctx.imports ++ [d] }

/-- `turbowasm_validation_context_append_export`. -/
def appendExport (d : ExportDesc) : Option ValidationContext :=
  if ctx.exports.length = uint32Max then none
  else some { ctx with exports := ctx.exports ++ [d] }

/-- `turbowasm_validation_context_append_function`. -/
def appendFunction (typeIndex : Nat) (imported : Bool) : Option ValidationContext :=
  if ctx.types.length ≤ typeIndex ∨ ctx.functions.length = uint32Max then none
  else some { ctx with functions := ctx.functions ++ [⟨typeIndex, imported, [], .zero, []⟩] }

/-- `turbowasm_validation_context_append_global_semantic`. -/
def appendGlobal (type : ValueType) (mutableValue imported : Bool) (initializer : Span) :
    Option ValidationContext :=
  if ctx.globals.length = uint32Max then none
  else if (initializer.start == none) != (initializer.size == 0) then none
  else if imported ∧ initializer.start.isSome then none
  else some { ctx with globals := ctx.globals ++ [⟨type, mutableValue, imported, initializer⟩] }

/-- `turbowasm_validation_context_append_table_full`. -/
def appendTable (type : ValueType) (limits : TableLimits) (imported : Bool) (initializer : Span) :
    Option ValidationContext :=
  if ctx.tables.length = uint32Max ∨ ¬ type.isReference then none
  else if imported ∧ (initializer.start.isSome ∨ initializer.size ≠ 0) then none
  else if (initializer.start == none) != (initializer.size == 0) then none
  else some { ctx with tables := ctx.tables ++ [⟨type, imported, limits, initializer⟩] }

/-- `turbowasm_validation_context_append_memory`. -/
def appendMemory (type : MemoryType) (imported : Bool) : Option ValidationContext :=
  if ctx.memories.length = uint32Max then none
  else some { ctx with memories := ctx.memories ++ [⟨imported, type⟩] }

/-- `turbowasm_validation_context_append_tag`. -/
def appendTag (typeIndex : Nat) (imported : Bool) : Option ValidationContext :=
  if ctx.tags.length = uint32Max then none
  else
    match ctx.types[typeIndex]? with
    | none => none
    | some type =>
      if !type.defined ∨ type.results.length ≠ 0 then none
      else some { ctx with tags := ctx.tags ++ [⟨typeIndex, imported⟩] }

/-- `turbowasm_validation_context_append_data_segment`. -/
def appendDataSegment (s : DataSegment) : Option ValidationContext :=
  if ctx.dataSegments.length = uint32Max then none
  else some { ctx with dataSegments := ctx.dataSegments ++ [s] }

/-- `turbowasm_validation_context_append_element_segment`. -/
def appendElementSegment (s : ElementSegment) : Option ValidationContext :=
  if ctx.elementSegments.length = uint32Max then none
  else some { ctx with elementSegments := ctx.elementSegments ++ [s] }

/-- `context->declared_refs`, allocated for the functions known by then. -/
def declaredBitmap : List Bool :=
  if ctx.declaredRefs = [] then List.replicate ctx.functions.length false else ctx.declaredRefs

/-- `turbowasm_validation_context_declare_function_ref`. -/
def declareFunctionRef (functionIndex : Nat) : Option ValidationContext :=
  if ctx.functions.length ≤ functionIndex then none
  else if ctx.declaredBitmap.length ≤ functionIndex then none
  else some { ctx with declaredRefs := ctx.declaredBitmap.set functionIndex true }

/-- `turbowasm_validation_context_has_function_ref`. -/
def hasFunctionRef (functionIndex : Nat) : Bool := ctx.declaredRefs[functionIndex]? == some true

end ValidationContext

end TurboWasm
