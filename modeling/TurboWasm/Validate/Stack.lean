/-
# The operand and control stacks of the body validator

The first part of `validate_instr.c`: a stack of value types with the floor of the innermost frame,
and the stack of control frames.  Both are lists with the top first, so `stack->size` is the length
of the list.  Whether one value type matches another is a parameter here (`Matcher`): the validator
passes `turbowasm_validation_value_type_matches` over its context.
-/
import TurboWasm.Validate.Context

namespace TurboWasm

/-- A comparison of value types. -/
abbrev Matcher := ValueType → ValueType → Bool

/-- `TW_ANY`: the type of an operand popped from below the floor of unreachable code. -/
def typeAny : ValueType := valueTypeLegacy 0xff

/-- `turbowasm_instr_valtype`. -/
def instrValtype (carrier : UInt8) : Bool :=
  carrier = 0x7f || carrier = 0x7e || carrier = 0x7d || carrier = 0x7c || carrier = 0x7b ||
  carrier = 0x70 || carrier = 0x6f || carrier = 0x69 || carrier = 0x6e

/-! ## 1. Operands -/

/-- `turbowasm_type_stack`, the top of the stack first. -/
structure TypeStack where
  values : List ValueType
  floor : Nat
  unreachable : Bool
  deriving DecidableEq, Repr

namespace TypeStack

variable (s : TypeStack)

/-- `turbowasm_stack_push_semantic`. -/
def push (type : ValueType) : Result TypeStack := do
  failIf (type.carrier != 0xff && !instrValtype type.carrier) .invalidArgument
  failIf (s.values.length = uint32Max) .outOfMemory
  return { s with values := type :: s.values }

/-- `turbowasm_stack_push`. -/
def pushCarrier (carrier : UInt8) : Result TypeStack := s.push (valueTypeLegacy carrier)

/-- `turbowasm_stack_pop_any_semantic`. -/
def popAny : Result (ValueType × TypeStack) :=
  if s.values.length < s.floor then .error .malformedModule
  else if s.values.length = s.floor then
    if s.unreachable then .ok (typeAny, s) else .error .malformedModule
  else
    match s.values with
    | [] => .error .malformedModule
    | type :: values => .ok (type, { s with values := values })

/-- `turbowasm_control_mark_unreachable`. -/
def markUnreachable : TypeStack :=
  { s with values := s.values.drop (s.values.length - s.floor), unreachable := true }

variable (m : Matcher) (s : TypeStack)

/-- `turbowasm_stack_pop_semantic_actual`. -/
def popActual (expected : ValueType) : Result (ValueType × TypeStack) := do
  let (actual, s) ← s.popAny
  malformedIf (actual.carrier != 0xff && !m actual expected)
  return (actual, s)

/-- `turbowasm_stack_pop_semantic`. -/
def pop (expected : ValueType) : Result TypeStack := do
  let (_, s) ← s.popActual m expected
  return s

/-- `turbowasm_stack_pop`. -/
def popCarrier (carrier : UInt8) : Result TypeStack := s.pop m (valueTypeLegacy carrier)

/-- `turbowasm_stack_unary`. -/
def unary (input output : UInt8) : Result TypeStack := do
  let s ← s.popCarrier m input
  s.pushCarrier output

/-- `turbowasm_stack_binary`. -/
def binary (input output : UInt8) : Result TypeStack := do
  let s ← s.popCarrier m input
  let s ← s.popCarrier m input
  s.pushCarrier output

/-- The loop of the functions that pop a list of types: the last type first, so the list is given
in reverse. -/
def popRev : List ValueType → TypeStack → Result TypeStack
  | [], s => .ok s
  | t :: ts, s => do
    let s ← s.pop m t
    popRev ts s

/-- `turbowasm_stack_pop_types`, `turbowasm_stack_pop_params` and `turbowasm_pop_results`. -/
def popTypes (types : List ValueType) : Result TypeStack := popRev m types.reverse s

/-- The loop of `turbowasm_stack_pop_types_actual`; the actual types come out in the order of the
expected ones. -/
def popActualRev : List ValueType → TypeStack → List ValueType →
    Result (List ValueType × TypeStack)
  | [], s, actual => .ok (actual, s)
  | t :: ts, s, actual => do
    let (a, s) ← s.popActual m t
    popActualRev ts s (a :: actual)

/-- `turbowasm_stack_pop_types_actual`. -/
def popTypesActual (types : List ValueType) : Result (List ValueType × TypeStack) :=
  popActualRev m types.reverse s []

/-- `turbowasm_stack_push_types` and `turbowasm_stack_push_results`. -/
def pushTypes : TypeStack → List ValueType → Result TypeStack
  | s, [] => .ok s
  | s, t :: ts => do
    let s ← s.push t
    pushTypes s ts

end TypeStack

/-! ## 2. Control frames -/

/-- `turbowasm_control_kind`. -/
inductive ControlKind where
  | function | block | loop | ifThen | tryTable
  deriving DecidableEq, Repr

/-- `turbowasm_control_frame`. -/
structure ControlFrame where
  kind : ControlKind
  height : Nat
  parentFloor : Nat
  parentUnreachable : Bool
  elseSeen : Bool
  startTypes : List ValueType
  endTypes : List ValueType
  annotationIndex : Nat
  initHeight : Nat
  deriving DecidableEq, Repr

/-- `turbowasm_control_label_types`. -/
def ControlFrame.labelTypes (f : ControlFrame) : List ValueType :=
  if f.kind = .loop then f.startTypes else f.endTypes

/-- `turbowasm_control_stack`, the innermost frame first and the newest initialized local first. -/
structure ControlStack where
  frames : List ControlFrame
  localsInitialized : List Bool
  initializedLocals : List Nat
  deriving DecidableEq, Repr

/-- `turbowasm_control_target`. -/
def ControlStack.target (c : ControlStack) (depth : Nat) : Option ControlFrame := c.frames[depth]?

/-- `turbowasm_control_reset_locals`. -/
def ControlStack.resetLocals (c : ControlStack) (height : Nat) : ControlStack :=
  let extra := c.initializedLocals.length - height
  { c with
    localsInitialized := (c.initializedLocals.take extra).foldl (fun l i => l.set i false)
      c.localsInitialized
    initializedLocals := c.initializedLocals.drop extra }

/-- The journal of `local.set`: a local is recorded at its first initialization. -/
def ControlStack.initLocal (c : ControlStack) (localIndex : Nat) : ControlStack :=
  if c.localsInitialized[localIndex]? = some false then
    { c with
      localsInitialized := c.localsInitialized.set localIndex true
      initializedLocals := localIndex :: c.initializedLocals }
  else c

section Matching

variable (m : Matcher) (s : TypeStack) (c : ControlStack)

/-- `turbowasm_control_push`. -/
def controlPush (kind : ControlKind) (startTypes endTypes : List ValueType)
    (annotationIndex : Nat) : Result (TypeStack × ControlStack) := do
  failIf (c.frames.length = uint32Max) .outOfMemory
  let s ← s.popTypes m startTypes
  let frame : ControlFrame := {
    kind := kind, height := s.values.length, parentFloor := s.floor,
    parentUnreachable := s.unreachable, elseSeen := false, startTypes := startTypes,
    endTypes := endTypes, annotationIndex := annotationIndex,
    initHeight := c.initializedLocals.length }
  let s ← TypeStack.pushTypes { s with floor := frame.height, unreachable := false } startTypes
  return (s, { c with frames := frame :: c.frames })

/-- `turbowasm_control_validate_end`. -/
def controlValidateEnd (frame : ControlFrame) : Result TypeStack := do
  let s ← s.popTypes m frame.endTypes
  malformedIf (s.values.length != frame.height)
  return s

/-- `turbowasm_control_else`. -/
def controlElse : Result (TypeStack × ControlStack) :=
  match c.frames with
  | [] => .error .malformedModule
  | frame :: frames => do
    malformedIf (frame.kind != .ifThen || frame.elseSeen)
    let s ← controlValidateEnd m s frame
    let s ← TypeStack.pushTypes
      { values := s.values, floor := frame.height, unreachable := false } frame.startTypes
    return (s, { c with frames := { frame with elseSeen := true } :: frames }.resetLocals
      frame.initHeight)

/-- `turbowasm_types_equal`, over the comparison `equal` of two value types. -/
def typesEqual (equal : Matcher) : List ValueType → List ValueType → Bool
  | [], [] => true
  | l :: ls, r :: rs => equal l r && typesEqual equal ls rs
  | _, _ => false

/-- `turbowasm_control_end`. -/
def controlEnd (equal : Matcher) (s : TypeStack) (c : ControlStack) :
    Result (TypeStack × ControlStack) :=
  match c.frames with
  | [] => .error .malformedModule
  | frame :: frames => do
    malformedIf (frame.kind = .function)
    failIf (frame.kind = .ifThen && !frame.elseSeen &&
      !typesEqual equal frame.startTypes frame.endTypes) .malformedModule
    let s ← controlValidateEnd m s frame
    let s ← TypeStack.pushTypes
      { values := s.values, floor := frame.parentFloor, unreachable := frame.parentUnreachable }
      frame.endTypes
    return (s, { c.resetLocals frame.initHeight with frames := frames })

/-- `turbowasm_control_branch`. -/
def controlBranch (depth : Nat) (conditional : Bool) : Result TypeStack := do
  let target ← orMalformed (c.target depth)
  let s ← s.popTypes m target.labelTypes
  if conditional then s.pushTypes target.labelTypes
  else return s.markUnreachable

end Matching

end TurboWasm
