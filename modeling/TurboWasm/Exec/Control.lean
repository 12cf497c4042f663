/-
# The control flow of the interpreter

The part of `turbowasm_exec_function` (`instance.c`) that decides where the code goes on: the control
frames, branches, exceptions, and the locals.  Every other instruction reads its immediates and has an
outcome, which is an argument of the step (`ExecOutcome`): it stops the run with a status, leaves an
operand stack, or raises an exception.  So do calls; a tail call ends the activation.

An instruction first says what it asks for (`Effect`): to go on, to branch to a label, to raise, to
finish.  The branch itself is `turbowasm_exec_branch` for all of them.  Pushes and allocations are
taken to succeed; fuel and interruption end a run at any step and need no case of their own.  The
list `written` is not in the source: it records what parameters, `local.set` and `local.tee` wrote to
the locals, the last one first.
-/
import TurboWasm.Exec.Immediates
import TurboWasm.Value

namespace TurboWasm

/-! ## 1. The operand stack -/

/-- `turbowasm_kind_from_valtype` answers a kind. -/
def knownValtype (type : UInt8) : Bool :=
  type = 0x7f || type = 0x7e || type = 0x7d || type = 0x7c || type = 0x7b || type = 0x70 ||
  type = 0x6f || type = 0x6e || type = 0x69

namespace Value

/-- The value type whose kind a value has; a managed external reference counts as an external one. -/
def valtype : Value → Option UInt8
  | .zero => none
  | .i32 _ => some 0x7f
  | .i64 _ => some 0x7e
  | .f32 _ => some 0x7d
  | .f64 _ => some 0x7c
  | .v128 _ => some 0x7b
  | .funcref _ _ _ => some 0x70
  | .externref _ _ => some 0x6f
  | .gcref _ => some 0x6e
  | .exnref _ _ => some 0x69
  | .managedExternref _ => some 0x6f

/-- `turbowasm_value_matches_type`. -/
def matchesType (v : Value) (type : UInt8) : Bool := v.valtype == some type

/-- `turbowasm_reference_is_null`. -/
def isNullReference : Value → Result Bool
  | .funcref isNull _ _ => .ok isNull
  | .externref isNull _ => .ok isNull
  | .exnref isNull _ => .ok isNull
  | .gcref ref => .ok (ref.handle = 0)
  | .managedExternref ref => .ok (ref.handle = 0)
  | _ => .error .typeMismatch

/-- Two values of the same `kind`. -/
def sameKind : Value → Value → Bool
  | .managedExternref _, .managedExternref _ => true
  | .managedExternref _, _ => false
  | _, .managedExternref _ => false
  | v, v' => v.valtype == v'.valtype

/-- `turbowasm_zero_value`. -/
def zeroOf (type : UInt8) : Option Value :=
  if type = 0x7f then some (.i32 0)
  else if type = 0x7e then some (.i64 0)
  else if type = 0x7d then some (.f32 0)
  else if type = 0x7c then some (.f64 0)
  else if type = 0x7b then some (.v128 0)
  else if type = 0x70 then some (.funcref true uint32Max none)
  else if type = 0x6f then some (.externref true 0)
  else if type = 0x6e then some (.gcref ⟨none, 0⟩)
  else if type = 0x69 then some (.exnref true none)
  else none

end Value

/-- `turbowasm_stack_pop`; the top of the stack is the head of the list. -/
def stackPop : List Value → Result (Value × List Value)
  | [] => .error .malformedModule
  | v :: stack => .ok (v, stack)

/-- `turbowasm_stack_pop_kind` for `i32`. -/
def stackPopI32 (stack : List Value) : Result (BitVec 32 × List Value) := do
  match ← stackPop stack with
  | (.i32 bits, stack) => return (bits, stack)
  | _ => .error .typeMismatch

/-- `turbowasm_exec_stack_check_top`. -/
def stackCheckTop (stack : List Value) (types : List UInt8) : Result Unit := do
  malformedIf (stack.length < types.length)
  match ((stack.take types.length).reverse.zip types).find? fun p => !p.1.matchesType p.2 with
  | none => return ()
  | some (_, type) => .error (if knownValtype type then .typeMismatch else .unsupported)

/-- `turbowasm_exec_stack_rebase`: the label's values on top of the first `height` ones. -/
def stackRebase (stack : List Value) (height : Nat) (types : List UInt8) :
    Result (List Value) := do
  malformedIf (stack.length < height)
  stackCheckTop stack types
  malformedIf (stack.length - types.length < height)
  return stack.take types.length ++ stack.drop (stack.length - height)

/-! ## 2. Frames -/

/-- `turbowasm_exec_control_frame`. -/
structure ExecFrame where
  kind : ControlKind
  height : Nat
  record : Option Annotation
  signature : ExecSignature
  deriving DecidableEq, Repr

/-- The types of the label that a frame carries. -/
def ExecFrame.labelTypes (f : ExecFrame) : List UInt8 :=
  if f.kind = .loop then f.signature.startTypes else f.signature.endTypes

/-- What stays the same over an activation. -/
structure ExecEnv where
  ctx : CodeCtx
  owner : Nat
  functionCount : Nat
  params : List UInt8
  results : List UInt8
  localTypes : List UInt8
  code : Reader
  annotations : List Annotation
  tagIdentity : Nat → Result (Nat × Nat)

/-- An exception: its address, its tag identity and its payload. -/
structure Thrown where
  address : Nat
  tag : Nat × Nat
  payload : List Value
  deriving DecidableEq, Repr

/-- The state of an activation, the innermost control frame first. -/
structure ExecState where
  reader : Reader
  stack : List Value
  controls : List ExecFrame
  locals : List Value
  written : List (Nat × Value)
  deriving DecidableEq, Repr

/-- What an instruction does that is not control flow. -/
inductive ExecOutcome where
  | stops (status : Status)
  | leaves (stack : List Value) (branches : Bool)
  | raises (exception : Thrown) (stack : List Value)
  deriving DecidableEq, Repr

/-- What an instruction asks for. -/
inductive Effect where
  | goes (s : ExecState)
  | branch (s : ExecState) (depth : Nat)
  | throws (s : ExecState) (exception : Thrown)
  | finish (s : ExecState)
  | tail
  deriving DecidableEq, Repr

/-- How a step ends. -/
inductive ExecResult where
  | running (s : ExecState)
  | finished (returned : Bool) (stack : List Value)
  | tailCall
  deriving DecidableEq, Repr

section Machine

variable (env : ExecEnv) (s : ExecState)

/-- The offset of the opcode just read. -/
def execOffset (r : Reader) : Result Nat := do
  malformedIf (r.cursor ≤ env.code.cursor)
  malformedIf (uint32Max < r.cursor - env.code.cursor - 1)
  return r.cursor - env.code.cursor - 1

/-- `turbowasm_validation_function_control_at`, with the test that the record is complete. -/
def controlAt (offset : Nat) : Result Annotation := do
  let record ← orMalformed (env.annotations.find? (·.opcodeOffset = offset))
  malformedIf (record.endOffset = uint32Max)
  return record

/-- `turbowasm_exec_jump`. -/
def execJump (offset : Nat) : Result Reader := do
  malformedIf (env.code.remaining < offset)
  return ⟨env.code.cursor + offset, env.code.rest.drop offset⟩

/-- `turbowasm_exec_control_push`. -/
def execControlPush (controls : List ExecFrame) (stack : List Value) (kind : ControlKind)
    (record : Annotation) (signature : ExecSignature) : Result (List ExecFrame) := do
  failIf (controls.length = uint32Max) .outOfMemory
  stackCheckTop stack signature.startTypes
  return ⟨kind, stack.length - signature.startTypes.length, some record, signature⟩ :: controls

/-! ## 3. Branches and exceptions -/

/-- `turbowasm_exec_branch`. -/
def execBranch (depth : Nat) : Result ExecResult := do
  let target ← orMalformed s.controls[depth]?
  let stack ← stackRebase s.stack target.height target.labelTypes
  if target.kind = .function then return .finished true stack
  else
    let record ← orMalformed target.record
    malformedIf (record.endOffset = uint32Max)
    if target.kind = .loop then
      let r ← execJump env record.bodyOffset
      return .running { s with reader := r, stack := stack, controls := s.controls.drop depth }
    else
      let r ← execJump env (record.endOffset + 1)
      return .running { s with
        reader := r, stack := stack, controls := s.controls.drop (depth + 1) }

/-- Whether a handler is for the tag of an exception. -/
def clauseMatches (e : Thrown) (clause : Catch) : Result Bool :=
  if clause.kind = .catchAll ∨ clause.kind = .catchAllRef then .ok true
  else do
    let tag ← env.tagIdentity clause.tagIndex
    return tag = e.tag

/-- The first handler of a list that matches. -/
def findClause (e : Thrown) : List Catch → Result (Option Catch)
  | [] => .ok none
  | clause :: catches => do
    if ← clauseMatches env e clause then return some clause
    else findClause e catches

/-- The handlers of a frame. -/
def ExecFrame.catches (f : ExecFrame) : List Catch :=
  match f.kind, f.record with
  | .tryTable, some record => record.catches
  | _, _ => []

/-- The search of `turbowasm_exec_handle_exception` from the innermost frame outwards, without the
frame of the function: the position of the frame, the frame, the handler. -/
def findHandler (e : Thrown) : List ExecFrame → Result (Option (Nat × ExecFrame × Catch))
  | [] => .ok none
  | frame :: frames =>
    if frames = [] then .ok none
    else do
      match ← findClause env e frame.catches with
      | some clause => return some (0, frame, clause)
      | none =>
        let found ← findHandler e frames
        return found.map fun p => (p.1 + 1, p.2)

/-- The values that a handler delivers, in the order they are pushed.  A handler for every tag also
gets the payload; the branch to its label cuts it off again. -/
def handlerValues (e : Thrown) (clause : Catch) : List Value :=
  e.payload ++
    (if clause.kind = .catchRef ∨ clause.kind = .catchAllRef then [.exnref false (some e.address)]
     else [])

/-- The label that a caught exception branches to, and the state in which it does. -/
def handlerLabel (e : Thrown) : Result (ExecState × Nat) := do
  match ← findHandler env e s.controls with
  | none => .error .exception
  | some (position, frame, clause) =>
    malformedIf (s.controls.length - 1 - position ≤ clause.labelDepth)
    malformedIf (s.stack.length < frame.height)
    return ({ s with
      stack := (handlerValues e clause).reverse ++ s.stack.drop (s.stack.length - frame.height) },
      position + 1 + clause.labelDepth)

/-! ## 4. Instructions -/

/-- The condition that `if` pops; the others count as entered. -/
def popCondition (kind : AnnotationKind) (stack : List Value) :
    Result (BitVec 32 × List Value) :=
  if kind = .ifThen then stackPopI32 stack else .ok (1, stack)

/-- `block`, `loop` and `if`. -/
def execBlock (kind : AnnotationKind) (s : ExecState) : Result Effect := do
  let offset ← execOffset env s.reader
  let record ← controlAt env offset
  let (signature, r) ← execReadBlockSignature env.ctx.types s.reader
  malformedIf (r.cursor - env.code.cursor ≠ record.bodyOffset)
  let (condition, stack) ← popCondition kind s.stack
  let controls ← execControlPush s.controls stack kind.control record signature
  if kind = .ifThen ∧ condition = 0 then
    let r ← execJump env (if record.elseOffset ≠ uint32Max then record.elseOffset + 1
      else record.endOffset)
    return .goes { s with reader := r, stack := stack, controls := controls }
  else return .goes { s with reader := r, stack := stack, controls := controls }

/-- `try_table`: the handlers are skipped by going to the body. -/
def execTryTable : Result Effect := do
  let offset ← execOffset env s.reader
  let record ← controlAt env offset
  malformedIf (record.kind ≠ .tryTable)
  let (signature, r) ← execReadBlockSignature env.ctx.types s.reader
  malformedIf (record.bodyOffset < r.cursor - env.code.cursor)
  let r ← execJump env record.bodyOffset
  let controls ← execControlPush s.controls s.stack .tryTable record signature
  return .goes { s with reader := r, controls := controls }

/-- The innermost frame, which must not be the function's. -/
def innerFrame : Result (ExecFrame × Annotation) :=
  match s.controls with
  | frame :: _ :: _ =>
    match frame.record with
    | some record => .ok (frame, record)
    | none => .error .malformedModule
  | _ => .error .malformedModule

/-- `else`, reached at the end of the first arm. -/
def execElse : Result Effect := do
  let offset ← execOffset env s.reader
  let (frame, record) ← innerFrame s
  failIf (frame.kind ≠ .ifThen ∨ record.elseOffset ≠ offset ∨ record.endOffset = uint32Max)
    .malformedModule
  let r ← execJump env record.endOffset
  return .goes { s with reader := r }

/-- `end`. -/
def execEnd : Result Effect :=
  if s.controls.length = 1 then do
    malformedIf (s.reader.remaining ≠ 0)
    return .finish s
  else do
    let offset ← execOffset env s.reader
    let (frame, record) ← innerFrame s
    malformedIf (record.endOffset ≠ offset)
    let stack ← stackRebase s.stack frame.height frame.signature.endTypes
    return .goes { s with stack := stack, controls := s.controls.tail }

/-- The label of `br_table` for a selector. -/
def selectDepth (depths : List Nat) (defaultDepth : Nat) (selector : BitVec 32) : Nat :=
  (depths[selector.toNat]?).getD defaultDepth

/-- `br_on_null` and `br_on_non_null`. -/
def execRefBranch (onNonNull : Bool) (s : ExecState) : Result Effect := do
  let (depth, r) ← orMalformed s.reader.uleb32
  let (reference, stack) ← stackPop s.stack
  let isNull ← reference.isNullReference
  let s := { s with reader := r, stack := if isNull then stack else reference :: stack }
  if isNull = onNonNull then return .goes s else return .branch s depth

/-- `local.get`. -/
def execLocalGet : Result Effect := do
  let (index, r) ← orMalformed s.reader.uleb32
  let value ← orMalformed s.locals[index]?
  return .goes { s with reader := r, stack := value :: s.stack }

/-- `local.set` and `local.tee`. -/
def execLocalSet (tee : Bool) (s : ExecState) : Result Effect := do
  let (index, r) ← orMalformed s.reader.uleb32
  let old ← orMalformed s.locals[index]?
  let (value, stack) ← stackPop s.stack
  failIf (!value.sameKind old) .typeMismatch
  return .goes { s with
    reader := r, stack := if tee then value :: stack else stack,
    locals := s.locals.set index value, written := (index, value) :: s.written }

/-- The instructions that can raise an exception. -/
def Opcode.mayRaise : Opcode → Bool
  | .throwTag | .throwRef | .call | .callIndirect | .callRef => true
  | _ => false

/-- The instructions after which the activation is replaced. -/
def Opcode.isTailCall : Opcode → Bool
  | .returnCall | .returnCallIndirect | .returnCallRef => true
  | _ => false

/-- The instructions that never leave a stack. -/
def Opcode.neverLeaves : Opcode → Bool
  | .unreachable | .throwTag | .throwRef => true
  | _ => false

/-- An instruction that is not control flow, or a call. -/
def execOther (o : ExecOutcome) (s : ExecState) (op : Opcode) : Result Effect := do
  let r ← immediates env.ctx s.reader op
  match o with
  | .stops status => .error status
  | .leaves stack _ =>
    if op.isTailCall then return .tail
    else if op.neverLeaves then .error .trapped
    else return .goes { s with reader := r, stack := stack }
  | .raises e stack =>
    if op.mayRaise then return .throws { s with reader := r, stack := stack } e
    else .error .trapped

/-- What an instruction asks for, with the reader after its opcode. -/
def execEffect (o : ExecOutcome) (s : ExecState) (op : Opcode) : Result Effect :=
  match op with
  | .structured kind => execBlock env kind s
  | .tryTable => execTryTable env s
  | .elseOp => execElse env s
  | .endOp => execEnd env s
  | .br => do
    let (depth, r) ← orMalformed s.reader.uleb32
    return .branch { s with reader := r } depth
  | .brIf => do
    let (depth, r) ← orMalformed s.reader.uleb32
    let (condition, stack) ← stackPopI32 s.stack
    let s := { s with reader := r, stack := stack }
    if condition = 0 then return .goes s else return .branch s depth
  | .brTable => do
    let _ ← orMalformed s.reader.uleb32
    let (selector, stack) ← stackPopI32 s.stack
    let ((depths, defaultDepth), r) ← readBrTable s.reader
    return .branch { s with reader := r, stack := stack } (selectDepth depths defaultDepth selector)
  | .returnOp => .ok (.branch s (s.controls.length - 1))
  | .brOnNull => execRefBranch false s
  | .brOnNonNull => execRefBranch true s
  | .localGet => execLocalGet s
  | .localSet => execLocalSet false s
  | .localTee => execLocalSet true s
  | .gc => do
    let (label, r) ← gcImmediates env.ctx.types s.reader
    match o with
    | .stops status => .error status
    | .raises _ _ => .error .trapped
    | .leaves stack branches =>
      match label, branches with
      | some depth, true => return .branch { s with reader := r, stack := stack } depth
      | _, _ => return .goes { s with reader := r, stack := stack }
  | op => execOther env o s op

/-- What the loop of `turbowasm_exec_function` does with the effect of an instruction. -/
def execApply : Effect → Result ExecResult
  | .goes s => .ok (.running s)
  | .branch s depth => execBranch env s depth
  | .throws s e => do
    let (s, depth) ← handlerLabel env s e
    execBranch env s depth
  | .finish s => .ok (.finished false s.stack)
  | .tail => .ok .tailCall

/-- One round of the loop of `turbowasm_exec_function`. -/
def execStep (o : ExecOutcome) (s : ExecState) : Result ExecResult := do
  let (byte, r) ← orMalformed s.reader.u8
  execApply env (← execEffect env o { s with reader := r } (opcodeOf byte))

/-- The owner of a function reference that the host passed without one. -/
def normalizeArgument : Value → Result Value
  | .funcref false functionIndex none =>
    if env.functionCount ≤ functionIndex then .error .invalidArgument
    else .ok (.funcref false functionIndex (some env.owner))
  | v => .ok v

/-- The start of an activation: the locals with their default values, then the parameters over them,
and the frame of the function. -/
def execStart (arguments : List Value) : Result ExecState := do
  failIf (arguments.length ≠ env.params.length) .invalidArgument
  let zeros ← env.localTypes.mapM fun t => orFail .unsupported (Value.zeroOf t)
  let arguments ← arguments.mapM (normalizeArgument env)
  return {
    reader := env.code, stack := [],
    controls := [⟨.function, 0, none, ⟨[], env.results⟩⟩],
    locals := arguments ++ zeros.drop arguments.length,
    written := (List.range arguments.length).zip arguments }

/-- A step that stays in the activation. -/
def execAct (o : ExecOutcome) : Option ExecState :=
  match execStep env o s with
  | .ok (.running s') => some s'
  | _ => none

end Machine

end TurboWasm
