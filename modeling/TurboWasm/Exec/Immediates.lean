/-
# What the interpreter reads after an opcode

The interpreter (`instance.c`, `gc_exec.c`) decodes the code again while it runs it: each `case` of
`turbowasm_exec_function` reads the immediates of its instruction with its own statements.  Here is
what those statements read (`immediates`), with the labels that an instruction names (`labelsOf`);
an instruction ends after it starts (`immediates_adv`).

The checks that follow a read and can only end the run (an index out of range, an operand of the
wrong kind) are kept where the read depends on them and left to the outcome of the instruction
otherwise.
-/
import TurboWasm.Validate.Advance

namespace TurboWasm

open Reader

/-- What of a module the interpreter uses to read its code. -/
structure CodeCtx where
  types : TypeCtx
  memories : List ValidationMemory
  deriving DecidableEq, Repr

/-- The part of a context that reading code uses. -/
def ValidationContext.codeCtx (ctx : ValidationContext) : CodeCtx := ⟨ctx.typeCtx, ctx.memories⟩

/-! ## 1. Immediates -/

section Immediates

variable (c : TypeCtx) (r : Reader)

/-- A `turbowasm_reader_uleb32` whose value the caller keeps to itself. -/
def skipUleb32 : Result Reader := do
  let (_, r) ← orMalformed r.uleb32
  return r

/-- `turbowasm_exec_valtype`. -/
def execValtype (type : UInt8) : Bool :=
  type = 0x7f || type = 0x7e || type = 0x7d || type = 0x7c || type = 0x7b || type = 0x70 ||
  type = 0x6f || type = 0x69

/-- `turbowasm_exec_block_signature`, as the carriers of the types that a frame answers for it
(`turbowasm_exec_frame_start_types` and `turbowasm_exec_frame_end_types`). -/
structure ExecSignature where
  startTypes : List UInt8
  endTypes : List UInt8
  deriving DecidableEq, Repr

/-- `turbowasm_exec_read_block_signature`.  The loop that reads a type index is the one of the
validator, statement by statement. -/
def execReadBlockSignature : Result (ExecSignature × Reader) := do
  let first ← orMalformed r.peek
  if first = 0x40 then
    let (_, r) ← orMalformed r.u8
    return (⟨[], []⟩, r)
  else if execValtype first ∨ (0x6a ≤ first ∧ first ≤ 0x74) ∨ first = 0x63 ∨ first = 0x64 then
    let (type, r) ← readValtype r (some c)
    malformedIf (type.heapKind = .typeIndex && c.types.length ≤ type.typeIndex)
    return (⟨[], [type.carrier]⟩, r)
  else
    let (first, r) ← orMalformed r.u8
    let (index, r) ← orMalformed
      (readBlockIndex 4 (first &&& 0x7f).toNat 7 first r)
    let type ← orMalformed c.types[index]?
    malformedIf (!type.defined)
    return (⟨type.params.map ValueType.carrier, type.results.map ValueType.carrier⟩, r)

/-- The handlers of a `try_table`, `n` of them to go.  The interpreter does not read them: it takes
them from the record of the instruction and jumps to its body. -/
def readHandlers : Nat → Reader → Result (List Catch × Reader)
  | 0, r => .ok ([], r)
  | n + 1, r => do
    let (byte, r) ← orMalformed r.u8
    let kind ← orMalformed (CatchKind.ofByte byte)
    let (tagIndex, r) ← readCatchTag kind r
    let (labelDepth, r) ← orMalformed r.uleb32
    let (catches, r) ← readHandlers n r
    return (⟨kind, tagIndex, labelDepth⟩ :: catches, r)

/-- The signature and the handlers of a `try_table`. -/
def readTryTable : Result ((ExecSignature × List Catch) × Reader) := do
  let (signature, r) ← execReadBlockSignature c r
  let (count, r) ← orMalformed r.uleb32
  let (catches, r) ← readHandlers count r
  return ((signature, catches), r)

/-- The labels of `br_table` and the default one. -/
def readBrTable : Result ((List Nat × Nat) × Reader) := do
  let (count, r) ← orMalformed r.uleb32
  let (depths, r) ← readDepths count r
  let (defaultDepth, r) ← orMalformed r.uleb32
  return ((depths, defaultDepth), r)

/-- `turbowasm_exec_read_indexed_memarg`. -/
def execReadIndexedMemarg (c : CodeCtx) (r : Reader) : Result Reader := do
  let (flags, r) ← orMalformed r.uleb32
  malformedIf (0x80 ≤ flags)
  let (memoryIndex, r) ← readMemoryIndex (flags &&& 0x40 != 0) r
  let memory ← orMalformed c.memories[memoryIndex]?
  let (_, r) ← readBound memory.type.memory64 r
  return r

/-- `turbowasm_exec_atomic_memarg_alignment`. -/
def execAtomicMemarg (c : CodeCtx) (requiredAlignment : Nat) (r : Reader) :
    Result Reader := do
  let (flags, _) ← orMalformed r.uleb32
  malformedIf (flags &&& 0x3f != requiredAlignment)
  execReadIndexedMemarg c r

/-- The typed `select`. -/
def execSelectType : Result Reader := do
  let (typeCount, r) ← orMalformed r.uleb32
  malformedIf (typeCount != 1)
  let (type, r) ← readValtype r (some c)
  malformedIf (type.heapKind = .typeIndex && c.types.length ≤ type.typeIndex)
  return r

/-- `ref.null`. -/
def execRefNullType : Result Reader := do
  let (type, r) ← readHeaptype r (some c)
  malformedIf (type.heapKind = .typeIndex && c.types.length ≤ type.typeIndex)
  return r

/-- The immediate after the type index of `turbowasm_gc_execute`: a field or a number. -/
def gcFieldImmediates (type : FuncType) (op : Nat) (r : Reader) : Result Reader :=
  if 2 ≤ op ∧ op ≤ 5 then do
    let (extra, r) ← orMalformed r.uleb32
    let _ ← orMalformed type.fields[extra]?
    return r
  else if op ∈ [8, 9, 10, 17, 18, 19] then skipUleb32 r
  else .ok r

/-- The type and field immediates of `turbowasm_gc_execute`, for the sub-opcodes up to 19. -/
def gcTypeImmediates (op : Nat) (r : Reader) : Result Reader := do
  let (index, r) ← orMalformed r.uleb32
  let type ← orMalformed c.types[index]?
  gcFieldImmediates type op r

/-- The immediates after the sub-opcode, with the label of the branches on a cast. -/
def gcOpImmediates (op : Nat) (r : Reader) : Result (Option Nat × Reader) :=
  if op ≤ 19 ∧ op ≠ 15 then do
    let r ← gcTypeImmediates c op r
    return (none, r)
  else if 20 ≤ op ∧ op ≤ 23 then do
    let (_, r) ← readHeaptype r (some c)
    return (none, r)
  else if 24 ≤ op ∧ op ≤ 25 then do
    let (flags, r) ← orMalformed r.u8
    malformedIf (flags > 3)
    let (label, r) ← orMalformed r.uleb32
    let (_, r) ← readHeaptype r (some c)
    let (_, r) ← readHeaptype r (some c)
    return (some label, r)
  else .ok (none, r)

/-- The immediates of `turbowasm_gc_execute`. -/
def gcImmediates : Result (Option Nat × Reader) := do
  let (op, r) ← orMalformed r.uleb32
  malformedIf (30 < op)
  gcOpImmediates c op r

/-- The immediates of `turbowasm_exec_fc`. -/
def fcImmediates : Result Reader := do
  let (subopcode, r) ← orMalformed r.uleb32
  if subopcode ≤ 7 then return r
  else if subopcode ∈ [8, 10, 12, 14] then
    let r ← skipUleb32 r
    skipUleb32 r
  else if subopcode ≤ 17 then skipUleb32 r
  else .error .unsupported

/-- What the descriptors of `simd_exec_table.c` and the direct cases of `turbowasm_exec_simd` read. -/
inductive SimdImmediate where
  | memory
  | memoryLane (laneCount : Nat)
  | constant
  | shuffle
  | lane (laneCount : Nat)
  deriving DecidableEq, Repr

/-- The vector instructions that have immediates: first and last sub-opcode. -/
def simdImmediateTable : List (Nat × Nat × SimdImmediate) :=
  [(0x00, 0x0b, .memory), (0x0c, 0x0c, .constant), (0x0d, 0x0d, .shuffle), (0x15, 0x17, .lane 16),
   (0x18, 0x1a, .lane 8), (0x1b, 0x1c, .lane 4), (0x1d, 0x1e, .lane 2), (0x1f, 0x20, .lane 4),
   (0x21, 0x22, .lane 2), (0x54, 0x54, .memoryLane 16), (0x55, 0x55, .memoryLane 8),
   (0x56, 0x56, .memoryLane 4), (0x57, 0x57, .memoryLane 2), (0x58, 0x58, .memoryLane 16),
   (0x59, 0x59, .memoryLane 8), (0x5a, 0x5a, .memoryLane 4), (0x5b, 0x5b, .memoryLane 2),
   (0x5c, 0x5d, .memory)]

/-- The immediates of a sub-opcode, `none` if it has none. -/
def simdImmediate (subopcode : Nat) : Option SimdImmediate :=
  (simdImmediateTable.find? fun e => e.1 ≤ subopcode && subopcode ≤ e.2.1).map fun e => e.2.2

variable (c : CodeCtx) (r : Reader)

/-- The immediates of `turbowasm_exec_simd`. -/
def simdImmediates : Result Reader := do
  let (subopcode, r) ← orMalformed r.uleb32
  match simdImmediate subopcode with
  | some .memory => execReadIndexedMemarg c r
  | some (.memoryLane laneCount) => do
    let r ← execReadIndexedMemarg c r
    let (_, r) ← readLane laneCount r
    return r
  | some .constant => do
    let (_, r) ← orMalformed (r.slice 16)
    return r
  | some .shuffle => do
    let (_, r) ← readShuffle 16 r
    return r
  | some (.lane laneCount) => do
    let (_, r) ← readLane laneCount r
    return r
  | none => return r

/-- The immediates of `turbowasm_exec_atomic`. -/
def atomicImmediates : Result Reader := do
  let (subopcode, r) ← orMalformed r.uleb32
  if subopcode = 0 then execAtomicMemarg c 2 r
  else if subopcode = 1 then execAtomicMemarg c 2 r
  else if subopcode = 2 then execAtomicMemarg c 3 r
  else if subopcode = 3 then
    let (reserved, r) ← orMalformed r.u8
    malformedIf (reserved != 0)
    return r
  else
    let d ← orFail .unsupported (atomicDescriptorFind subopcode)
    execAtomicMemarg c d.alignmentLog2 r

/-- Where an instruction ends, given the reader after its opcode. -/
def immediates : Opcode → Result Reader
  | .structured _ => do
    let (_, r) ← execReadBlockSignature c.types r
    return r
  | .tryTable => do
    let (_, r) ← readTryTable c.types r
    return r
  | .brTable => do
    let (_, r) ← readBrTable r
    return r
  | .throwTag => skipUleb32 r
  | .br => skipUleb32 r
  | .brIf => skipUleb32 r
  | .call => skipUleb32 r
  | .returnCall => skipUleb32 r
  | .callRef => skipUleb32 r
  | .returnCallRef => skipUleb32 r
  | .callIndirect => do
    let r ← skipUleb32 r
    skipUleb32 r
  | .returnCallIndirect => do
    let r ← skipUleb32 r
    skipUleb32 r
  | .selectTyped => execSelectType c.types r
  | .localGet => skipUleb32 r
  | .localSet => skipUleb32 r
  | .localTee => skipUleb32 r
  | .globalGet => skipUleb32 r
  | .globalSet => skipUleb32 r
  | .tableGet => skipUleb32 r
  | .tableSet => skipUleb32 r
  | .load _ _ => execReadIndexedMemarg c r
  | .store _ _ => execReadIndexedMemarg c r
  | .memorySize => skipUleb32 r
  | .memoryGrow => skipUleb32 r
  | .i32Const => do
    let (_, r) ← orMalformed r.sleb32
    return r
  | .i64Const => do
    let (_, r) ← orMalformed r.sleb64
    return r
  | .f32Const => do
    let (_, r) ← orMalformed (r.slice 4)
    return r
  | .f64Const => do
    let (_, r) ← orMalformed (r.slice 8)
    return r
  | .refNull => execRefNullType c.types r
  | .refFunc => skipUleb32 r
  | .brOnNull => skipUleb32 r
  | .brOnNonNull => skipUleb32 r
  | .gc => do
    let (_, r) ← gcImmediates c.types r
    return r
  | .fc => fcImmediates r
  | .simd => simdImmediates c r
  | .atomic => atomicImmediates c r
  | .unknown => .error .unsupported
  | _ => .ok r

/-- The labels that an instruction names. -/
def labelsOf : Opcode → List Nat
  | .br | .brIf | .brOnNull | .brOnNonNull =>
    match r.uleb32 with
    | some (depth, _) => [depth]
    | none => []
  | .brTable =>
    match readBrTable r with
    | .ok ((depths, defaultDepth), _) => defaultDepth :: depths
    | .error _ => []
  | .gc =>
    match gcImmediates c.types r with
    | .ok (some label, _) => [label]
    | _ => []
  | _ => []

end Immediates

/-! ## 2. Reading moves forward -/

/-- Whatever reader the computation answers is `r` after some bytes. -/
def AdvTo (r : Reader) (x : Result Reader) : Prop := ∀ s, x = .ok s → r.Advances s

namespace AdvTo

variable {r : Reader}

theorem ok (h : r.Advances s) : AdvTo r (.ok s) := by
  intro t ht
  cases ht
  exact h

theorem read {x : Result (α × Reader)} {f : α × Reader → Result Reader}
    (hx : Adv r x) (hf : ∀ a s, r.Advances s → AdvTo r (f (a, s))) : AdvTo r (x >>= f) := by
  intro t ht
  obtain ⟨⟨a, s⟩, hs, ht⟩ := bind_eq_ok.mp ht
  exact hf a s (hx a s hs) t ht

theorem sub {f : Reader → Result Reader} (hx : AdvTo r x)
    (hf : ∀ s, r.Advances s → AdvTo r (f s)) : AdvTo r (x >>= f) := by
  intro t ht
  obtain ⟨s, hs, ht⟩ := bind_eq_ok.mp ht
  exact hf s (hx s hs) t ht

theorem skip {x : Result α} {f : α → Result Reader} (hf : ∀ a, AdvTo r (f a)) :
    AdvTo r (x >>= f) := by
  intro t ht
  obtain ⟨a, -, ht⟩ := bind_eq_ok.mp ht
  exact hf a t ht

theorem ite {c : Prop} [Decidable c] {x y : Result Reader} (hx : AdvTo r x)
    (hy : AdvTo r y) : AdvTo r (if c then x else y) := by
  split
  · exact hx
  · exact hy

theorem error (e : Status) : AdvTo r (.error e) := by
  intro t ht
  cases ht

end AdvTo

section Forward

variable {r₀ : Reader} (h : r₀.Advances r)

include h

theorem skipUleb32_adv : AdvTo r₀ (skipUleb32 r) :=
  .read (.orFail (uleb32_adv r) h _) fun _ _ hs => .ok hs

omit h in
theorem readBlockIndex_adv : ∀ (left value shift : Nat) (byte : UInt8) (r : Reader),
    AdvOpt r (readBlockIndex left value shift byte r)
  | 0, _, _, _, r => .ite (.none r) (.ite (.none r) (.ite (.none r) (.here r _)))
  | left + 1, _, _, _, r =>
    .ite (.round fun byte s => readBlockIndex_adv left _ _ byte s)
      (.ite (.none r) (.ite (.none r) (.here r _)))

theorem execReadBlockSignature_adv (c : TypeCtx) : Adv r₀ (execReadBlockSignature c r) := by
  refine .skip fun first => .ite ?_ (.ite ?_ ?_)
  · exact .read (.orFail (u8_adv r) h _) fun _ _ hs => .pure hs _
  · exact .read (readValtype_adv h _) fun _ _ hs => .skip fun _ => .pure hs _
  · refine .read (.orFail (u8_adv r) h _) fun _ _ hs => ?_
    exact .read (.orFail (readBlockIndex_adv _ _ _ _ _) hs _) fun _ _ hs =>
      .skip fun _ => .skip fun _ => .pure hs _

omit h in
theorem readHandlers_adv : ∀ {n : Nat} {r : Reader}, r₀.Advances r → Adv r₀ (readHandlers n r)
  | 0, _, h => .ok h _
  | _ + 1, r, h => by
    refine .read (.orFail (u8_adv r) h _) fun _ s hs => .skip fun kind => ?_
    have htag : Adv r₀ (readCatchTag kind s) :=
      .ite (.orFail (uleb32_adv _) hs _) (.ok hs _)
    refine .read htag fun _ _ hs => .read (.orFail (uleb32_adv _) hs _) fun _ _ hs => ?_
    exact .read (readHandlers_adv hs) fun _ _ hs => .pure hs _

theorem readTryTable_adv (c : TypeCtx) : Adv r₀ (readTryTable c r) := by
  refine .read (execReadBlockSignature_adv h c) fun _ _ hs => ?_
  refine .read (.orFail (uleb32_adv _) hs _) fun _ _ hs => ?_
  exact .read (readHandlers_adv hs) fun _ _ hs => .pure hs _

omit h in
theorem readDepths_adv : ∀ {n : Nat} {r : Reader}, r₀.Advances r → Adv r₀ (readDepths n r)
  | 0, _, h => .ok h _
  | _ + 1, r, h => .read (.orFail (uleb32_adv r) h _) fun _ _ hs =>
      .read (readDepths_adv hs) fun _ _ hs => .pure hs _

theorem readBrTable_adv : Adv r₀ (readBrTable r) :=
  .read (.orFail (uleb32_adv r) h _) fun _ _ hs => .read (readDepths_adv hs) fun _ _ hs =>
    .read (.orFail (uleb32_adv _) hs _) fun _ _ hs => .pure hs _

theorem execReadIndexedMemarg_adv : AdvTo r₀ (execReadIndexedMemarg c r) := by
  refine .read (.orFail (uleb32_adv r) h _) fun flags s hs => .skip fun _ => ?_
  have hindex : Adv r₀ (readMemoryIndex (flags &&& 0x40 != 0) s) :=
    .ite (.orFail (uleb32_adv _) hs _) (.ok hs _)
  exact .read hindex fun _ _ hs => .skip fun _ => .read (readBound_adv hs _) fun _ _ hs => .ok hs

theorem execAtomicMemarg_adv (alignment : Nat) : AdvTo r₀ (execAtomicMemarg c alignment r) :=
  .skip fun _ => .skip fun _ => execReadIndexedMemarg_adv h

theorem gcImmediates_adv (c : TypeCtx) : Adv r₀ (gcImmediates c r) := by
  refine .read (.orFail (uleb32_adv r) h _) fun op s hs => .skip fun _ =>
    .ite ?_ (.ite ?_ (.ite ?_ (.ok hs _)))
  · have htype : AdvTo r₀ (gcTypeImmediates c op s) := by
      refine .read (.orFail (uleb32_adv s) hs _) fun _ s hs => .skip fun type => .ite ?_
        (.ite (skipUleb32_adv hs) (.ok hs))
      exact .read (.orFail (uleb32_adv s) hs _) fun _ _ hs => .skip fun _ => .ok hs
    intro a t ht
    obtain ⟨s', hs', hpure⟩ := bind_eq_ok.mp ht
    cases hpure
    exact htype t hs'
  · exact .read (readHeaptype_adv hs _) fun _ _ hs => .pure hs _
  · refine .read (.orFail (u8_adv s) hs _) fun _ _ hs => .skip fun _ => ?_
    refine .read (.orFail (uleb32_adv _) hs _) fun _ _ hs => ?_
    exact .read (readHeaptype_adv hs _) fun _ _ hs => .read (readHeaptype_adv hs _) fun _ _ hs =>
      .pure hs _

theorem fcImmediates_adv : AdvTo r₀ (fcImmediates r) := by
  refine .read (.orFail (uleb32_adv r) h _) fun _ _ hs => .ite (.ok hs) (.ite ?_ (.ite ?_ ?_))
  · exact .sub (skipUleb32_adv hs) fun _ hs => skipUleb32_adv hs
  · exact skipUleb32_adv hs
  · exact .error _

theorem readLane_adv (n : Nat) : Adv r₀ (readLane n r) :=
  .read (.orFail (u8_adv r) h _) fun _ _ hs => .skip fun _ => .pure hs _

omit h in
theorem readShuffle_adv : ∀ {n : Nat} {r : Reader}, r₀.Advances r → Adv r₀ (readShuffle n r)
  | 0, _, h => .ok h _
  | _ + 1, _, h => .read (readLane_adv h 32) fun _ _ hs => readShuffle_adv hs

theorem simdImmediates_adv : AdvTo r₀ (simdImmediates c r) := by
  refine .read (.orFail (uleb32_adv r) h _) fun subopcode s hs => ?_
  dsimp only
  cases simdImmediate subopcode with
  | none => exact .ok hs
  | some imm =>
    cases imm with
    | memory => exact execReadIndexedMemarg_adv hs
    | memoryLane n =>
      exact .sub (execReadIndexedMemarg_adv hs) fun _ hs => .read (readLane_adv hs n) fun _ _ hs =>
        .ok hs
    | constant => exact .read (.orFail (slice_adv s 16) hs _) fun _ _ hs => .ok hs
    | shuffle => exact .read (readShuffle_adv hs) fun _ _ hs => .ok hs
    | lane n => exact .read (readLane_adv hs n) fun _ _ hs => .ok hs

theorem atomicImmediates_adv : AdvTo r₀ (atomicImmediates c r) := by
  refine .read (.orFail (uleb32_adv r) h _) fun _ s hs =>
    .ite (execAtomicMemarg_adv hs 2) (.ite (execAtomicMemarg_adv hs 2)
      (.ite (execAtomicMemarg_adv hs 3) (.ite ?_ (.skip fun _ => execAtomicMemarg_adv hs _))))
  exact .read (.orFail (u8_adv s) hs _) fun _ _ hs => .skip fun _ => .ok hs

/-- **An instruction ends after it starts.** -/
theorem immediates_adv (op : Opcode) : AdvTo r₀ (immediates c r op) := by
  have hnumber := skipUleb32_adv h
  have htwo : AdvTo r₀ (skipUleb32 r >>= skipUleb32) :=
    .sub hnumber fun _ hs => skipUleb32_adv hs
  cases op with
  | structured kind => exact .read (execReadBlockSignature_adv h _) fun _ _ hs => .ok hs
  | tryTable => exact .read (readTryTable_adv h _) fun _ _ hs => .ok hs
  | brTable => exact .read (readBrTable_adv h) fun _ _ hs => .ok hs
  | callIndirect | returnCallIndirect => exact htwo
  | selectTyped =>
    exact .read (.orFail (uleb32_adv r) h _) fun _ _ hs => .skip fun _ =>
      .read (readValtype_adv hs _) fun _ _ hs => .skip fun _ => .ok hs
  | load resultType alignment | store valueType alignment => exact execReadIndexedMemarg_adv h
  | i32Const => exact .read (.orFail (sleb32_adv r) h _) fun _ _ hs => .ok hs
  | i64Const => exact .read (.orFail (sleb64_adv r) h _) fun _ _ hs => .ok hs
  | f32Const => exact .read (.orFail (slice_adv r 4) h _) fun _ _ hs => .ok hs
  | f64Const => exact .read (.orFail (slice_adv r 8) h _) fun _ _ hs => .ok hs
  | refNull => exact .read (readHeaptype_adv h _) fun _ _ hs => .skip fun _ => .ok hs
  | gc => exact .read (gcImmediates_adv h _) fun _ _ hs => .ok hs
  | fc => exact fcImmediates_adv h
  | simd => exact simdImmediates_adv h
  | atomic => exact atomicImmediates_adv h
  | unknown => exact .error _
  | _ => first | exact hnumber | exact .ok h

end Forward

end TurboWasm
