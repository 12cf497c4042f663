/-
# Validating a function body

`turbowasm_validate_function_body` (`validate_instr.c`): one pass over the code of a function with
the operand and control stacks of `Validate/Stack.lean`.  The pass also leaves a record for every
structured instruction (`Annotation`), from which the interpreter finds the ends and the handlers.

The `switch` on the opcode is a table (`opcodeTable`) and a function on what it distinguishes
(`Opcode`).
-/
import TurboWasm.Validate.Operators

namespace TurboWasm

open TypeStack

/-! ## 1. Opcodes -/

/-- What the `switch` of `turbowasm_validate_function_body` distinguishes. -/
inductive Opcode where
  | unreachable | nop
  | structured (kind : AnnotationKind)
  | elseOp | throwTag | throwRef | endOp
  | br | brIf | brTable | returnOp
  | call | callIndirect | returnCall | returnCallIndirect | callRef | returnCallRef
  | drop | select | selectTyped | tryTable
  | localGet | localSet | localTee | globalGet | globalSet | tableGet | tableSet
  | load (resultType : UInt8) (alignment : Nat)
  | store (valueType : UInt8) (alignment : Nat)
  | memorySize | memoryGrow
  | i32Const | i64Const | f32Const | f64Const
  | unary (input output : UInt8)
  | binary (input output : UInt8)
  | refNull | refIsNull | refFunc | refEq | refAsNonNull | brOnNull | brOnNonNull
  | gc | fc | simd | atomic
  | unknown
  deriving DecidableEq, Repr

/-- The cases of the `switch`: first and last opcode, and what they are. -/
def opcodeTable : List (UInt8 × UInt8 × Opcode) :=
  [(0x00, 0x00, .unreachable), (0x01, 0x01, .nop), (0x02, 0x02, .structured .block),
   (0x03, 0x03, .structured .loop), (0x04, 0x04, .structured .ifThen), (0x05, 0x05, .elseOp),
   (0x08, 0x08, .throwTag), (0x0a, 0x0a, .throwRef), (0x0b, 0x0b, .endOp), (0x0c, 0x0c, .br),
   (0x0d, 0x0d, .brIf), (0x0e, 0x0e, .brTable), (0x0f, 0x0f, .returnOp), (0x10, 0x10, .call),
   (0x11, 0x11, .callIndirect), (0x12, 0x12, .returnCall), (0x13, 0x13, .returnCallIndirect),
   (0x14, 0x14, .callRef), (0x15, 0x15, .returnCallRef), (0x1a, 0x1a, .drop),
   (0x1b, 0x1b, .select), (0x1c, 0x1c, .selectTyped), (0x1f, 0x1f, .tryTable),
   (0x20, 0x20, .localGet), (0x21, 0x21, .localSet), (0x22, 0x22, .localTee),
   (0x23, 0x23, .globalGet), (0x24, 0x24, .globalSet), (0x25, 0x25, .tableGet),
   (0x26, 0x26, .tableSet),
   (0x28, 0x28, .load 0x7f 2), (0x29, 0x29, .load 0x7e 3), (0x2a, 0x2a, .load 0x7d 2),
   (0x2b, 0x2b, .load 0x7c 3), (0x2c, 0x2d, .load 0x7f 0), (0x2e, 0x2f, .load 0x7f 1),
   (0x30, 0x31, .load 0x7e 0), (0x32, 0x33, .load 0x7e 1), (0x34, 0x35, .load 0x7e 2),
   (0x36, 0x36, .store 0x7f 2), (0x37, 0x37, .store 0x7e 3), (0x38, 0x38, .store 0x7d 2),
   (0x39, 0x39, .store 0x7c 3), (0x3a, 0x3a, .store 0x7f 0), (0x3b, 0x3b, .store 0x7f 1),
   (0x3c, 0x3c, .store 0x7e 0), (0x3d, 0x3d, .store 0x7e 1), (0x3e, 0x3e, .store 0x7e 2),
   (0x3f, 0x3f, .memorySize), (0x40, 0x40, .memoryGrow),
   (0x41, 0x41, .i32Const), (0x42, 0x42, .i64Const), (0x43, 0x43, .f32Const),
   (0x44, 0x44, .f64Const),
   (0x45, 0x45, .unary 0x7f 0x7f), (0x46, 0x4f, .binary 0x7f 0x7f),
   (0x50, 0x50, .unary 0x7e 0x7f), (0x51, 0x5a, .binary 0x7e 0x7f),
   (0x5b, 0x60, .binary 0x7d 0x7f), (0x61, 0x66, .binary 0x7c 0x7f),
   (0x67, 0x69, .unary 0x7f 0x7f), (0x6a, 0x78, .binary 0x7f 0x7f),
   (0x79, 0x7b, .unary 0x7e 0x7e), (0x7c, 0x8a, .binary 0x7e 0x7e),
   (0x8b, 0x91, .unary 0x7d 0x7d), (0x92, 0x98, .binary 0x7d 0x7d),
   (0x99, 0x9f, .unary 0x7c 0x7c), (0xa0, 0xa6, .binary 0x7c 0x7c),
   (0xa7, 0xa7, .unary 0x7e 0x7f), (0xa8, 0xa9, .unary 0x7d 0x7f),
   (0xaa, 0xab, .unary 0x7c 0x7f), (0xac, 0xad, .unary 0x7f 0x7e),
   (0xae, 0xaf, .unary 0x7d 0x7e), (0xb0, 0xb1, .unary 0x7c 0x7e),
   (0xb2, 0xb3, .unary 0x7f 0x7d), (0xb4, 0xb5, .unary 0x7e 0x7d),
   (0xb6, 0xb6, .unary 0x7c 0x7d), (0xb7, 0xb8, .unary 0x7f 0x7c),
   (0xb9, 0xba, .unary 0x7e 0x7c), (0xbb, 0xbb, .unary 0x7d 0x7c),
   (0xbc, 0xbc, .unary 0x7d 0x7f), (0xbd, 0xbd, .unary 0x7c 0x7e),
   (0xbe, 0xbe, .unary 0x7f 0x7d), (0xbf, 0xbf, .unary 0x7e 0x7c),
   (0xc0, 0xc1, .unary 0x7f 0x7f), (0xc2, 0xc4, .unary 0x7e 0x7e),
   (0xd0, 0xd0, .refNull), (0xd1, 0xd1, .refIsNull), (0xd2, 0xd2, .refFunc), (0xd3, 0xd3, .refEq),
   (0xd4, 0xd4, .refAsNonNull), (0xd5, 0xd5, .brOnNull), (0xd6, 0xd6, .brOnNonNull),
   (0xfb, 0xfb, .gc), (0xfc, 0xfc, .fc), (0xfd, 0xfd, .simd), (0xfe, 0xfe, .atomic)]

/-- The case of the `switch` that an opcode takes. -/
def opcodeOf (b : UInt8) : Opcode :=
  match opcodeTable.find? fun e => e.1 ≤ b && b ≤ e.2.1 with
  | some e => e.2.2
  | none => .unknown

/-! ## 2. Immediates -/

/-- A value type that is all zeros. -/
def ValueType.unset : ValueType := ⟨0, false, false, .none, 0, none⟩

/-- `turbowasm_block_signature`. -/
structure BlockSignature where
  startTypes : List ValueType
  endTypes : List ValueType
  typeIndex : Nat
  inlineEnd : ValueType
  deriving DecidableEq, Repr

/-- The type index of a block, read as a signed number that must not be negative; `byte` is the
last byte read and `left` the number of bytes it may still have. -/
def readBlockIndex : Nat → Nat → Nat → UInt8 → Reader → Option (Nat × Reader)
  | 0, value, _, byte, r =>
    if byte &&& 0x80 ≠ 0 then none
    else if byte &&& 0x70 ≠ 0 then none
    else if uint32Max < value then none
    else some (value, r)
  | left + 1, value, shift, byte, r =>
    if byte &&& 0x80 ≠ 0 then
      match r.u8 with
      | none => none
      | some (byte, r) =>
        readBlockIndex left (value ||| ((byte &&& 0x7f).toNat <<< shift)) (shift + 7) byte r
    else if byte &&& 0x40 ≠ 0 then none
    else if uint32Max < value then none
    else some (value, r)

/-- `turbowasm_read_block_signature`. -/
def readBlockSignature (ctx : ValidationContext) (r : Reader) :
    Result (BlockSignature × Reader) := do
  let first ← orMalformed r.peek
  if first = 0x40 then
    let (_, r) ← orMalformed r.u8
    return (⟨[], [], uint32Max, .unset⟩, r)
  else if instrValtype first ∨ (0x6a ≤ first ∧ first ≤ 0x74) ∨ first = 0x63 ∨ first = 0x64 then
    let (type, r) ← readValtype r (some ctx.typeCtx)
    malformedIf (type.heapKind = .typeIndex && ctx.types.length ≤ type.typeIndex)
    return (⟨[], [type], uint32Max, type⟩, r)
  else
    let (first, r) ← orMalformed r.u8
    let (index, r) ← orMalformed
      (readBlockIndex 4 (first &&& 0x7f).toNat 7 first r)
    let type ← functionTypeAt ctx index
    return (⟨type.params, type.results, index, .unset⟩, r)

/-- The group loop of `turbowasm_read_locals`: `n` groups to go, `total` locals so far. -/
def readLocalGroups (ctx : ValidationContext) :
    Nat → Nat → Reader → Result (List (Nat × ValueType) × Reader)
  | 0, _, r => .ok ([], r)
  | n + 1, total, r => do
    let (count, r) ← orMalformed r.uleb32
    let (type, r) ← readValtype r (some ctx.typeCtx)
    malformedIf (type.heapKind = .typeIndex && ctx.types.length ≤ type.typeIndex)
    malformedIf (uint32Max < total + count)
    let (groups, r) ← readLocalGroups ctx n (total + count) r
    return ((count, type) :: groups, r)

/-- `turbowasm_read_locals`: the parameters, then the declared locals. -/
def readLocals (ctx : ValidationContext) (functionType : FuncType) (r : Reader) :
    Result (List ValueType × Reader) := do
  let (groupCount, r) ← orMalformed r.uleb32
  let (groups, r) ← readLocalGroups ctx groupCount functionType.params.length r
  return (functionType.params ++ groups.flatMap (fun g => List.replicate g.1 g.2), r)

/-- `turbowasm_exnref_type`. -/
def exnrefType (nullable : Bool) : ValueType := { valueTypeLegacy 0x69 with nullable := nullable }

/-- `turbowasm_catch_payload_matches_label`: the types a handler delivers, against the label. -/
def catchPayloadMatchesLabel (H : TypeHeap) (ctx : ValidationContext) (target : ControlFrame)
    (kind : CatchKind) (tagIndex : Nat) : Bool :=
  let withRef := kind = .catchRef || kind = .catchAllRef
  let payload : Option (List ValueType) :=
    if kind = .catchTag || kind = .catchRef then
      match ctx.tags[tagIndex]? with
      | none => none
      | some tag =>
        match ctx.types[tag.typeIndex]? with
        | none => none
        | some type => if !type.defined || type.results.length != 0 then none else some type.params
    else some []
  match payload with
  | none => false
  | some params =>
    let delivered := params ++ (if withRef then [exnrefType false] else [])
    target.labelTypes.length == delivered.length &&
      (delivered.zip target.labelTypes).all fun p => ctx.typeMatches H p.1 p.2

/-- The kind byte of a handler. -/
def CatchKind.ofByte (b : UInt8) : Option CatchKind :=
  if b = 0 then some .catchTag
  else if b = 1 then some .catchRef
  else if b = 2 then some .catchAll
  else if b = 3 then some .catchAllRef
  else none

/-- The tag of a handler; a handler for every tag has none. -/
def readCatchTag (kind : CatchKind) (r : Reader) : Result (Nat × Reader) :=
  if kind = .catchTag ∨ kind = .catchRef then orMalformed r.uleb32
  else .ok (uint32Max, r)

/-- The loop of `turbowasm_read_try_catches`: `n` handlers to go. -/
def readCatches (H : TypeHeap) (ctx : ValidationContext) (c : ControlStack) :
    Nat → Reader → Result (List Catch × Reader)
  | 0, r => .ok ([], r)
  | n + 1, r => do
    let (byte, r) ← orMalformed r.u8
    let kind ← orMalformed (CatchKind.ofByte byte)
    let (tagIndex, r) ← readCatchTag kind r
    let (labelDepth, r) ← orMalformed r.uleb32
    let target ← orMalformed (c.target labelDepth)
    malformedIf (!catchPayloadMatchesLabel H ctx target kind tagIndex)
    let (catches, r) ← readCatches H ctx c n r
    return (⟨kind, tagIndex, labelDepth⟩ :: catches, r)

/-- `turbowasm_read_try_catches`. -/
def readTryCatches (H : TypeHeap) (ctx : ValidationContext) (c : ControlStack) (r : Reader) :
    Result (List Catch × Reader) := do
  let (count, r) ← orMalformed r.uleb32
  readCatches H ctx c count r

/-- The label indices of `br_table`, `n` of them to go. -/
def readDepths : Nat → Reader → Result (List Nat × Reader)
  | 0, r => .ok ([], r)
  | n + 1, r => do
    let (depth, r) ← orMalformed r.uleb32
    let (depths, r) ← readDepths n r
    return (depth :: depths, r)

/-! ## 3. Instructions -/

/-- What stays the same over a body: the function's type, its locals, where its code starts. -/
structure BodyEnv where
  functionType : FuncType
  locals : List ValueType
  codeStart : Nat
  deriving DecidableEq, Repr

/-- What the pass over the code changes. -/
structure BodyState where
  stack : TypeStack
  controls : ControlStack
  annotations : List Annotation
  requiresStore : Bool
  deriving DecidableEq, Repr

section Instructions

variable (H : TypeHeap) (ctx : ValidationContext) (env : BodyEnv)
  (c : ControlStack) (st : BodyState) (s : TypeStack) (r : Reader)

/-- The loop of `turbowasm_validate_br_table` over the labels before the default one: the operands
are popped with the types of each label, and pushed back as they were. -/
def brTableLabels (c : ControlStack) (arity : Nat) :
    List Nat → TypeStack → Result TypeStack
  | [], s => .ok s
  | depth :: depths, s => do
    let target ← orMalformed (c.target depth)
    malformedIf (target.labelTypes.length != arity)
    let (actual, s) ← s.popTypesActual (ctx.typeMatches H) target.labelTypes
    let s ← s.pushTypes actual
    brTableLabels c arity depths s

/-- `turbowasm_validate_br_table`. -/
def validateBrTable : Checked := do
  let (count, r) ← orMalformed r.uleb32
  let (depths, r) ← readDepths count r
  let (defaultDepth, r) ← orMalformed r.uleb32
  let target ← orMalformed (c.target defaultDepth)
  let s ← s.popCarrier (ctx.typeMatches H) 0x7f
  let s ← brTableLabels H ctx c target.labelTypes.length depths s
  let s ← s.popTypes (ctx.typeMatches H) target.labelTypes
  return (s.markUnreachable, r)

/-- `turbowasm_validate_throw`. -/
def validateThrow : Checked := do
  let (tagIndex, r) ← orMalformed r.uleb32
  let tag ← orMalformed ctx.tags[tagIndex]?
  let type ← functionTypeAt ctx tag.typeIndex
  malformedIf (type.results.length != 0)
  let s ← s.popTypes (ctx.typeMatches H) type.params
  return (s.markUnreachable, r)

/-- The result of an untyped `select`: the common type of the operands, which is not a
reference. -/
def selectResult (left right : UInt8) : Result UInt8 :=
  if left ≠ 0xff ∧ right ≠ 0xff ∧ left ≠ right then .error .malformedModule
  else if left = 0xff ∧ right = 0xff then .ok 0xff
  else
    let type := if left = 0xff then right else left
    if type = 0x70 ∨ type = 0x6f ∨ type = 0x69 ∨ type = 0x6e then .error .malformedModule
    else .ok type

/-- The untyped `select`. -/
def validateSelect : Result TypeStack := do
  let s ← s.popCarrier (ctx.typeMatches H) 0x7f
  let (right, s) ← s.popAny
  let (left, s) ← s.popAny
  let type ← selectResult left.carrier right.carrier
  s.pushCarrier type

/-- The typed `select`. -/
def validateSelectTyped : Checked := do
  let (typeCount, r) ← orMalformed r.uleb32
  malformedIf (typeCount != 1)
  let (type, r) ← readValtype r (some ctx.typeCtx)
  malformedIf (type.heapKind = .typeIndex && ctx.types.length ≤ type.typeIndex)
  let s ← s.popCarrier (ctx.typeMatches H) 0x7f
  let s ← s.pop (ctx.typeMatches H) type
  let s ← s.pop (ctx.typeMatches H) type
  let s ← s.push type
  return (s, r)

/-- A reference operand, whatever its type. -/
def popReference : Result (ValueType × TypeStack) := do
  let (type, s) ← s.popAny
  malformedIf (type.carrier != 0xff && !type.isReference)
  return (type, s)

/-- The type of `ref.func`. -/
def funcReference (typeIndex : Nat) : ValueType :=
  ⟨0x70, true, false, .typeIndex, typeIndex, some (ctx.typePtr typeIndex)⟩

/-- The instructions that leave the control stack alone. -/
def validatePlain : Opcode → Checked
  | .unreachable => .ok (s.markUnreachable, r)
  | .nop => .ok (s, r)
  | .throwTag => validateThrow H ctx s r
  | .throwRef => do
    let s ← s.pop (ctx.typeMatches H) (exnrefType true)
    return (s.markUnreachable, r)
  | .br => do
    let (depth, r) ← orMalformed r.uleb32
    let s ← controlBranch (ctx.typeMatches H) s c depth false
    return (s, r)
  | .brIf => do
    let (depth, r) ← orMalformed r.uleb32
    let s ← s.popCarrier (ctx.typeMatches H) 0x7f
    let s ← controlBranch (ctx.typeMatches H) s c depth true
    return (s, r)
  | .brTable => validateBrTable H ctx c s r
  | .returnOp => do
    let s ← s.popTypes (ctx.typeMatches H) env.functionType.results
    return (s.markUnreachable, r)
  | .call => validateCall H ctx s r
  | .callIndirect => validateCallIndirect H ctx s r
  | .returnCall => validateReturnCall H ctx env.functionType s r
  | .returnCallIndirect => validateReturnCallIndirect H ctx env.functionType s r
  | .callRef => validateCallRef H ctx none s r
  | .returnCallRef => validateCallRef H ctx (some env.functionType) s r
  | .drop => do
    let (_, s) ← s.popAny
    return (s, r)
  | .select => do
    let s ← validateSelect H ctx s
    return (s, r)
  | .selectTyped => validateSelectTyped H ctx s r
  | .localGet => do
    let (localIndex, r) ← orMalformed r.uleb32
    let type ← orMalformed env.locals[localIndex]?
    malformedIf (c.localsInitialized[localIndex]? != some true)
    let s ← s.push type
    return (s, r)
  | .globalGet => do
    let (globalIndex, r) ← orMalformed r.uleb32
    let global ← orMalformed ctx.globals[globalIndex]?
    let s ← s.push global.semanticType
    return (s, r)
  | .globalSet => do
    let (globalIndex, r) ← orMalformed r.uleb32
    let global ← orMalformed ctx.globals[globalIndex]?
    malformedIf (!global.mutableValue)
    let s ← s.pop (ctx.typeMatches H) global.semanticType
    return (s, r)
  | .tableGet => do
    let (table, r) ← readTable ctx r
    let s ← s.popCarrier (ctx.typeMatches H) table.address
    let s ← s.push table.semanticType
    return (s, r)
  | .tableSet => do
    let (table, r) ← readTable ctx r
    let s ← s.pop (ctx.typeMatches H) table.semanticType
    let s ← s.popCarrier (ctx.typeMatches H) table.address
    return (s, r)
  | .load resultType alignment => validateLoad H ctx resultType alignment s r
  | .store valueType alignment => validateStore H ctx valueType alignment s r
  | .memorySize => validateMemorySizeOrGrow H ctx false s r
  | .memoryGrow => validateMemorySizeOrGrow H ctx true s r
  | .i32Const => do
    let (_, r) ← orMalformed r.sleb32
    let s ← s.pushCarrier 0x7f
    return (s, r)
  | .i64Const => do
    let (_, r) ← orMalformed r.sleb64
    let s ← s.pushCarrier 0x7e
    return (s, r)
  | .f32Const => do
    let (_, r) ← orMalformed (r.slice 4)
    let s ← s.pushCarrier 0x7d
    return (s, r)
  | .f64Const => do
    let (_, r) ← orMalformed (r.slice 8)
    let s ← s.pushCarrier 0x7c
    return (s, r)
  | .unary input output => do
    let s ← s.unary (ctx.typeMatches H) input output
    return (s, r)
  | .binary input output => do
    let s ← s.binary (ctx.typeMatches H) input output
    return (s, r)
  | .refNull => do
    let (type, r) ← readHeaptype r (some ctx.typeCtx)
    malformedIf (type.heapKind = .typeIndex && ctx.types.length ≤ type.typeIndex)
    let s ← s.push { type with nullable := true }
    return (s, r)
  | .refIsNull => do
    let (_, s) ← popReference s
    let s ← s.pushCarrier 0x7f
    return (s, r)
  | .refFunc => do
    let (refIndex, r) ← orMalformed r.uleb32
    let function ← orMalformed ctx.functions[refIndex]?
    malformedIf (!ctx.hasFunctionRef refIndex)
    let s ← s.push (funcReference ctx function.typeIndex)
    return (s, r)
  | .refEq => do
    let s ← s.pop (ctx.typeMatches H) (gcType .eq true)
    let s ← s.pop (ctx.typeMatches H) (gcType .eq true)
    let s ← s.pushCarrier 0x7f
    return (s, r)
  | .refAsNonNull => do
    let (type, s) ← popReference s
    let s ← s.push { type with nullable := false }
    return (s, r)
  | .brOnNull => validateRefBranch H ctx c false s r
  | .brOnNonNull => validateRefBranch H ctx c true s r
  | .gc => validateGc H ctx c s r
  | .fc => validateFc H ctx s r
  | .simd => validateSimd H ctx s r
  | .atomic => validateAtomic H ctx s r
  | _ => .error .malformedModule

/-- The frame kind of a structured instruction. -/
def AnnotationKind.control : AnnotationKind → ControlKind
  | .block => .block
  | .loop => .loop
  | .ifThen => .ifThen
  | .tryTable => .tryTable

/-- `block`, `loop`, `if` and `try_table`, once their immediates are read: a new record and a new
frame. -/
def enterBlock (kind : AnnotationKind) (opcodeOffset : Nat) (signature : BlockSignature)
    (catches : List Catch) (r : Reader) : Result (BodyState × Reader) := do
  failIf (uint32Max < r.cursor - env.codeStart) .outOfMemory
  failIf (st.annotations.length = uint32Max) .outOfMemory
  let control : Annotation := {
    kind := kind, opcodeOffset := opcodeOffset, bodyOffset := r.cursor - env.codeStart,
    elseOffset := uint32Max, endOffset := uint32Max, typeIndex := signature.typeIndex,
    inlineResultType := signature.inlineEnd.carrier, catches := catches }
  let (stack, controls) ← controlPush (ctx.typeMatches H) st.stack st.controls kind.control
    signature.startTypes signature.endTypes st.annotations.length
  return ({ st with
    stack := stack, controls := controls, annotations := st.annotations ++ [control] }, r)

/-- The offset in the code of the opcode just read. -/
def opcodeOffset : Result Nat := do
  malformedIf (uint32Max < r.cursor - env.codeStart - 1)
  return r.cursor - env.codeStart - 1

/-- `block`, `loop` and `if`. -/
def validateStructured (kind : AnnotationKind) (st : BodyState) (r : Reader) :
    Result (BodyState × Reader) := do
  let offset ← opcodeOffset env r
  let stack ← popCarriers (ctx.typeMatches H) st.stack (if kind = .ifThen then [0x7f] else [])
  let (signature, r) ← readBlockSignature ctx r
  enterBlock H ctx env { st with stack := stack } kind offset signature [] r

/-- `try_table`. -/
def validateTryTable : Result (BodyState × Reader) := do
  let offset ← opcodeOffset env r
  let (signature, r) ← readBlockSignature ctx r
  let (catches, r) ← readTryCatches H ctx st.controls r
  enterBlock H ctx env st .tryTable offset signature catches r

/-- The record of the innermost frame; the frame of the function has none. -/
def topAnnotation : Result Nat :=
  match c.frames with
  | [] => .error .malformedModule
  | frame :: _ =>
    if frame.annotationIndex = uint32Max then .error .malformedModule
    else .ok frame.annotationIndex

/-- `else`. -/
def validateElse : Result (BodyState × Reader) := do
  let index ← topAnnotation st.controls
  let (stack, controls) ← controlElse (ctx.typeMatches H) st.stack st.controls
  let control ← orMalformed st.annotations[index]?
  malformedIf (control.elseOffset != uint32Max)
  let offset ← opcodeOffset env r
  let control := { control with elseOffset := offset }
  return ({ st with
    stack := stack, controls := controls, annotations := st.annotations.set index control }, r)

/-- `end`, except the one that ends the function. -/
def validateEnd : Result (BodyState × Reader) := do
  let index ← topAnnotation st.controls
  let (stack, controls) ← controlEnd (ctx.typeMatches H) (ctx.typeEqual H) st.stack st.controls
  let control ← orMalformed st.annotations[index]?
  malformedIf (control.endOffset != uint32Max)
  let offset ← opcodeOffset env r
  let control := { control with endOffset := offset }
  return ({ st with
    stack := stack, controls := controls, annotations := st.annotations.set index control }, r)

/-- `local.set` and `local.tee`. -/
def validateLocalSet (tee : Bool) (st : BodyState) (r : Reader) :
    Result (BodyState × Reader) := do
  let (localIndex, r) ← orMalformed r.uleb32
  let type ← orMalformed env.locals[localIndex]?
  let stack ← st.stack.pop (ctx.typeMatches H) type
  let stack ← stack.pushTypes (if tee then [type] else [])
  return ({ st with stack := stack, controls := st.controls.initLocal localIndex }, r)

/-- The end of the function: nothing may follow, and the results are on the stack. -/
def validateFunctionEnd : Result Unit := do
  malformedIf (r.remaining != 0)
  let stack ← st.stack.popTypes (ctx.typeMatches H) env.functionType.results
  malformedIf (stack.values.length != 0)

/-- One instruction after its opcode; `none` for the end of the function. -/
def validateInstruction (op : Opcode) : Result (Option (BodyState × Reader)) :=
  match op with
  | .structured kind => some <$> validateStructured H ctx env kind st r
  | .tryTable => some <$> validateTryTable H ctx env st r
  | .elseOp => some <$> validateElse H ctx env st r
  | .endOp =>
    if st.controls.frames.length = 1 then do
      validateFunctionEnd H ctx env st r
      return none
    else some <$> validateEnd H ctx env st r
  | .localSet => some <$> validateLocalSet H ctx env false st r
  | .localTee => some <$> validateLocalSet H ctx env true st r
  | op => do
    let (stack, r) ← validatePlain H ctx env st.controls st.stack r op
    return some ({ st with
      stack := stack, requiresStore := st.requiresStore || op == .gc }, r)

/-- The loop of `turbowasm_validate_function_body`.  Every round reads an opcode, so the number of
bytes bounds the rounds. -/
def validateLoop : Nat → BodyState → Reader → Result BodyState
  | 0, _, _ => .error .malformedModule
  | fuel + 1, st, r => do
    let (byte, r) ← orMalformed r.u8
    match ← validateInstruction H ctx env st r (opcodeOf byte) with
    | none => return st
    | some (st, r) => validateLoop fuel st r

end Instructions

/-! ## 4. The body -/

/-- Whether a local has a value at the start of the code. -/
def initialLocals (functionType : FuncType) (locals : List ValueType) : List Bool :=
  locals.mapIdx fun i t => i < functionType.params.length || !t.isReference || t.nullable

/-- `turbowasm_validate_function_body`. -/
def validateFunctionBody (H : TypeHeap) (ctx : ValidationContext) (functionIndex : Nat)
    (body : Reader) : Result ValidationContext := do
  let functionType ← orMalformed (ctx.functionType functionIndex)
  let function ← orMalformed ctx.functions[functionIndex]?
  malformedIf (!functionType.defined || function.imported)
  let (locals, code) ← readLocals ctx functionType body
  failIf (uint32Max < code.remaining) .outOfMemory
  let (stack, controls) ← controlPush (ctx.typeMatches H) ⟨[], 0, false⟩
    ⟨[], initialLocals functionType locals, []⟩ .function [] functionType.results uint32Max
  let st ← validateLoop H ctx ⟨functionType, locals, code.cursor⟩ code.remaining
    ⟨stack, controls, function.annotations, ctx.requiresStore⟩ code
  malformedIf (function.locals != [] || function.code.start.isSome)
  return { ctx with
    requiresStore := st.requiresStore
    functions := ctx.functions.set functionIndex { function with
      locals := locals, code := ⟨some code.cursor, code.remaining⟩,
      annotations := st.annotations } }

end TurboWasm
