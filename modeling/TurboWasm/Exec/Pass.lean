/-
# The control records of a validated body

A body is a sequence of instructions (`instructions`); its structured instructions are brackets with
`else` as the middle and `end` as the closer, and the last `end` is the one of the function.  The
validator goes over the sequence once (`validateCode`) with a stack of frames and a list of records.

The invariant of the pass (`PassInv`) says that the frames are the open brackets and that there is
one record for every bracket opened so far, whose `else` and `end` offsets are filled in when their
instruction has come.  At the end of the body this gives `validateFunctionBody_accepted`.
-/
import TurboWasm.Exec.Agreement
import TurboWasm.Lib.Brackets

namespace TurboWasm

open Lib

/-! ## 1. The instructions of a body -/

/-- An instruction with the readers before its opcode, after its opcode and after its immediates. -/
structure Instr where
  start : Reader
  op : Opcode
  args : Reader
  next : Reader
  deriving DecidableEq, Repr

/-- The instructions from a reader on. -/
def decodeCode (c : CodeCtx) : Nat → Reader → Option (List Instr)
  | 0, _ => none
  | fuel + 1, r =>
    match r.u8 with
    | none => some []
    | some (byte, args) =>
      match immediates c args (opcodeOf byte) with
      | .error _ => none
      | .ok next => (decodeCode c fuel next).map (⟨r, opcodeOf byte, args, next⟩ :: ·)

/-- The instructions of a body. -/
def instructions (c : CodeCtx) (code : Reader) : Option (List Instr) :=
  decodeCode c (code.remaining + 1) code

/-- The record kind of a structured instruction. -/
def Opcode.annotationKind : Opcode → Option AnnotationKind
  | .structured kind => some kind
  | .tryTable => some .tryTable
  | _ => none

/-- The part of an instruction in the nesting of blocks. -/
def Opcode.bracket : Opcode → Bracket
  | .structured _ => .opener
  | .tryTable => .opener
  | .elseOp => .middle
  | .endOp => .closer
  | _ => .other

/-- The instructions that write a local. -/
def Opcode.setsLocal : Opcode → Bool
  | .localSet | .localTee => true
  | _ => false

theorem not_sets {op : Opcode} (h : op.setsLocal = false) : op ≠ .localSet ∧ op ≠ .localTee := by
  constructor
  · rintro rfl
    cases h
  · rintro rfl
    cases h

/-- The nesting of a sequence of instructions. -/
def word (is : List Instr) (i : Nat) : Bracket :=
  match is[i]? with
  | some x => x.op.bracket
  | none => .other

/-- The handlers written in an instruction. -/
def Instr.handlers (c : CodeCtx) (x : Instr) : List Catch :=
  match x.op with
  | .tryTable =>
    match readTryTable c.types x.args with
    | .ok ((_, catches), _) => catches
    | .error _ => []
  | _ => []

/-- The offset of an instruction in the code; `UINT32_MAX` where there is none. -/
def offsetOf (code : Reader) (is : List Instr) : Option Nat → Nat
  | none => uint32Max
  | some k =>
    match is[k]? with
    | some x => x.start.cursor - code.cursor
    | none => uint32Max

/-- **The record of the structured instruction `j`**, as far as it is known before position `i`: it
is keyed by the offset of the opcode, its body starts after the immediates, and its `else` and `end`
are those that belong to it. -/
structure RecordOf (c : CodeCtx) (code : Reader) (is : List Instr) (i j : Nat) (a : Annotation) :
    Prop where
  instr : ∃ x, is[j]? = some x ∧ x.op.annotationKind = some a.kind ∧
    a.opcodeOffset = x.start.cursor - code.cursor ∧
    a.bodyOffset = x.next.cursor - code.cursor ∧ a.catches = x.handlers c
  elseOffset : a.elseOffset = offsetOf code is (partner (word is) .middle j i)
  endOffset : a.endOffset = offsetOf code is (partner (word is) .closer j i)

/-! ## 2. Decoding -/

/-- The instructions stand at the reader, one after the other. -/
def Decoded (c : CodeCtx) : Reader → List Instr → Prop
  | _, [] => True
  | r, x :: is => x.start = r ∧ (∃ byte, r.u8 = some (byte, x.args) ∧ x.op = opcodeOf byte) ∧
      immediates c x.args x.op = .ok x.next ∧ Decoded c x.next is

section Decoding

variable {c : CodeCtx} {r : Reader} {is : List Instr} {x : Instr}

theorem decoded_of : ∀ {fuel : Nat} {r : Reader} {is : List Instr},
    decodeCode c fuel r = some is → Decoded c r is
  | fuel + 1, r, is, h => by
    rw [decodeCode] at h
    cases hb : r.u8 with
    | none =>
      rw [hb] at h
      cases h
      trivial
    | some p =>
      rw [hb] at h
      dsimp only at h
      cases hn : immediates c p.2 (opcodeOf p.1) with
      | error e =>
        rw [hn] at h
        cases h
      | ok next =>
        rw [hn] at h
        obtain ⟨rest, hrest, rfl⟩ := Option.map_eq_some_iff.mp h
        exact ⟨rfl, ⟨p.1, hb, rfl⟩, hn, decoded_of hrest⟩

theorem Decoded.instr : ∀ {is : List Instr} {r : Reader} {i : Nat}, Decoded c r is →
    is[i]? = some x → (∃ byte, x.start.u8 = some (byte, x.args) ∧ x.op = opcodeOf byte) ∧
      immediates c x.args x.op = .ok x.next
  | y :: is, r, 0, h, hx => by
    cases hx
    obtain ⟨hstart, hop, himm, -⟩ := h
    rw [hstart]
    exact ⟨hop, himm⟩
  | y :: is, r, i + 1, h, hx => h.2.2.2.instr hx

theorem Decoded.start : ∀ {is : List Instr} {r : Reader}, Decoded c r is → is[0]? = some x →
    x.start = r
  | y :: is, r, h, hx => by
    cases hx
    exact h.1

theorem Decoded.next : ∀ {is : List Instr} {r : Reader} {i : Nat}, Decoded c r is →
    is[i]? = some x → is[i + 1]? = some y → y.start = x.next
  | z :: is, r, 0, h, hx, hy => by
    cases hx
    exact h.2.2.2.start hy
  | z :: is, r, i + 1, h, hx, hy => h.2.2.2.next hx hy

theorem Decoded.advances : ∀ {is : List Instr} {r : Reader} {i : Nat}, Decoded c r is →
    is[i]? = some x → r.Advances x.start
  | y :: is, r, 0, h, hx => by
    rw [h.start hx]
    exact .refl r
  | y :: is, r, i + 1, h, hx => by
    obtain ⟨-, ⟨byte, hbyte, -⟩, himm, hrest⟩ := h
    have hargs := r.u8_adv byte y.args hbyte
    exact (immediates_adv hargs y.op y.next himm).trans (hrest.advances hx)

theorem word_eq (h : is[i]? = some x) : word is i = x.op.bracket := by
  simp [word, h]

theorem word_opener (h : word is i = .opener) :
    ∃ x kind, is[i]? = some x ∧ x.op.annotationKind = some kind := by
  cases hx : is[i]? with
  | none => simp [word, hx] at h
  | some x =>
    rw [word_eq hx] at h
    cases hop : x.op <;> rw [hop] at h <;> simp only [Opcode.bracket, reduceCtorEq] at h
    · exact ⟨x, _, rfl, by rw [hop]; rfl⟩
    · exact ⟨x, _, rfl, by rw [hop]; rfl⟩

end Decoding

/-! ## 3. One instruction of the pass -/

section Pass

variable (H : TypeHeap) (ctx : ValidationContext) (env : BodyEnv)

/-- The pass over a sequence of instructions that does not hold the end of the function. -/
def validateCode : List Instr → BodyState → Result BodyState
  | [], st => .ok st
  | x :: is, st => do
    match ← validateInstruction H ctx env st x.args x.op with
    | none => .error .malformedModule
    | some (st, _) => validateCode is st

/-- A structured instruction pushes its frame and appends its record. -/
structure Opens (x : Instr) (st st' : BodyState) (kind : AnnotationKind) (frame : ControlFrame)
    (control : Annotation) : Prop where
  op : x.op.annotationKind = some kind
  pushed : frame.kind = kind.control ∧ frame.elseSeen = false ∧
    frame.annotationIndex = st.annotations.length ∧
    frame.initHeight = st.controls.initializedLocals.length
  record : control.kind = kind ∧ control.opcodeOffset = x.start.cursor - env.codeStart ∧
    control.bodyOffset = x.next.cursor - env.codeStart ∧ control.elseOffset = uint32Max ∧
    control.endOffset = uint32Max ∧ control.catches = x.handlers ctx.codeCtx
  labels : ∀ clause ∈ control.catches, clause.labelDepth < st.controls.frames.length
  room : st.annotations.length ≠ uint32Max
  controls : st'.controls = { st.controls with frames := frame :: st.controls.frames }
  records : st'.annotations = st.annotations ++ [control]

/-- An `else` closes the first arm of the innermost `if` and notes where it stands. -/
structure Splits (x : Instr) (st st' : BodyState) (frame : ControlFrame)
    (frames : List ControlFrame) (control : Annotation) : Prop where
  op : x.op = .elseOp
  top : st.controls.frames = frame :: frames
  arm : frame.kind = .ifThen ∧ frame.elseSeen = false
  record : st.annotations[frame.annotationIndex]? = some control
  controls : st'.controls = ({ st.controls with
    frames := { frame with elseSeen := true } :: frames } : ControlStack).resetLocals
      frame.initHeight
  records : st'.annotations = st.annotations.set frame.annotationIndex
    { control with elseOffset := x.start.cursor - env.codeStart }

/-- An `end` drops the innermost frame and notes where it stands. -/
structure Closes (x : Instr) (st st' : BodyState) (frame : ControlFrame)
    (frames : List ControlFrame) (control : Annotation) : Prop where
  op : x.op = .endOp
  top : st.controls.frames = frame :: frames
  inner : frames ≠ []
  record : st.annotations[frame.annotationIndex]? = some control
  controls : st'.controls = { st.controls.resetLocals frame.initHeight with frames := frames }
  records : st'.annotations = st.annotations.set frame.annotationIndex
    { control with endOffset := x.start.cursor - env.codeStart }

/-- **What an instruction does to the frames, the records and the initialized locals.** -/
inductive PassStep (x : Instr) (st st' : BodyState) : Prop
  | opens (kind : AnnotationKind) (frame : ControlFrame) (control : Annotation)
      (h : Opens ctx env x st st' kind frame control)
  | splits (frame : ControlFrame) (frames : List ControlFrame) (control : Annotation)
      (h : Splits env x st st' frame frames control)
  | closes (frame : ControlFrame) (frames : List ControlFrame) (control : Annotation)
      (h : Closes env x st st' frame frames control)
  | sets (index : Nat) (hop : x.op = .localSet ∨ x.op = .localTee)
      (hindex : x.args.uleb32 = some (index, x.next)) (hlocal : index < env.locals.length)
      (hcontrols : st'.controls = st.controls.initLocal index)
      (hrecords : st'.annotations = st.annotations)
  | plain (stack : TypeStack) (hop : x.op.bracket = .other)
      (hset : x.op ≠ .localSet ∧ x.op ≠ .localTee)
      (hvalid : validatePlain H ctx env st.controls st.stack x.args x.op = .ok (stack, x.next))
      (hcontrols : st'.controls = st.controls) (hrecords : st'.annotations = st.annotations)

variable {H ctx env} {x : Instr}

theorem u8_succ {r r' : Reader} (h : r.u8 = some (b, r')) :
    r'.cursor = r.cursor + 1 ∧ r'.rest = r.rest.tail := by
  unfold Reader.u8 at h
  split at h
  · cases h
  · rename_i hr
    cases h
    exact ⟨rfl, by rw [hr]; rfl⟩

theorem opcodeOffset_eq {start args : Reader} (hbyte : start.u8 = some (byte, args))
    (h : opcodeOffset env args = .ok offset) : offset = start.cursor - env.codeStart := by
  obtain ⟨u, -, hpure⟩ := bind_eq_ok.mp h
  have hcursor := (u8_succ hbyte).1
  cases hpure
  omega

theorem topAnnotation_eq {frame : ControlFrame}
    {controls : ControlStack} (hframes : controls.frames = frame :: frames)
    (h : topAnnotation controls = .ok i) : i = frame.annotationIndex := by
  unfold topAnnotation at h
  rw [hframes] at h
  obtain ⟨-, h⟩ := ite_error_pass h
  cases h
  rfl

theorem controlPush_frame {s s' : TypeStack} {c : ControlStack}
    (h : controlPush m s c kind startTypes endTypes index = .ok (s', c')) :
    ∃ frame : ControlFrame, frame.kind = kind ∧ frame.elseSeen = false ∧
      frame.annotationIndex = index ∧ frame.initHeight = c.initializedLocals.length ∧
      c' = { c with frames := frame :: c.frames } := by
  simp only [controlPush, bind_eq_ok] at h
  obtain ⟨u, -, s₁, -, s₂, -, hpure⟩ := h
  cases hpure
  exact ⟨_, rfl, rfl, rfl, rfl, rfl⟩

/-- A block is entered with a new record and a new frame. -/
theorem enterBlock_step {st₀ : BodyState}
    (hbyte : x.start.u8 = some (byte, x.args)) (hoffset : opcodeOffset env x.args = .ok offset)
    (hkind : x.op.annotationKind = some kind) (hhandlers : x.handlers ctx.codeCtx = catches)
    (hlabels : ∀ clause ∈ catches, clause.labelDepth < st.controls.frames.length)
    (hnext : x.next = r)
    (h : enterBlock H ctx env st₀ kind offset signature catches r = .ok (st', r'))
    (hcontrols : st₀.controls = st.controls) (hrecords : st₀.annotations = st.annotations) :
    PassStep H ctx env x st st' := by
  simp only [enterBlock, bind_eq_ok] at h
  obtain ⟨u, -, v, hfull, ⟨stack, controls⟩, hpush, hpure⟩ := h
  obtain ⟨frame, h₁, h₂, h₃, h₄, hframe⟩ := controlPush_frame hpush
  cases hpure
  rw [hcontrols] at h₄ hframe
  rw [hrecords] at h₃
  subst hnext
  refine .opens kind frame ⟨kind, offset, x.next.cursor - env.codeStart, uint32Max, uint32Max,
      signature.typeIndex, signature.inlineEnd.carrier, catches⟩ ⟨hkind, ⟨h₁, h₂, h₃, h₄⟩,
    ⟨rfl, opcodeOffset_eq hbyte hoffset, rfl, rfl, rfl, hhandlers.symm⟩, hlabels, ?_, hframe, ?_⟩
  · rw [← hrecords]
    simpa using hfull
  · rw [← hrecords]

/-- **An accepted instruction makes a step of the pass.** -/
theorem passStep_of (hbyte : x.start.u8 = some (byte, x.args))
    (himm : immediates ctx.codeCtx x.args x.op = .ok x.next)
    (h : validateInstruction H ctx env st x.args x.op = .ok (some (st', r))) :
    PassStep H ctx env x st st' := by
  have hr := immediates_of_validated h
  rw [himm] at hr
  cases hr
  obtain ⟨start, op, args, next⟩ := x
  dsimp only at hbyte himm h
  cases op with
  | structured kind =>
    simp only [validateInstruction, map_some_eq_ok, validateStructured, bind_eq_ok] at h
    obtain ⟨offset, hoffset, stack, -, ⟨signature, r₁⟩, hsig, h⟩ := h
    have hread := structured_ends signature r₁ hsig
    have hnext : next = r₁ := Except.ok.inj (himm.symm.trans hread)
    exact enterBlock_step hbyte hoffset rfl (by rfl) (by simp) hnext h rfl rfl
  | tryTable =>
    simp only [validateInstruction, map_some_eq_ok, validateTryTable, bind_eq_ok] at h
    obtain ⟨offset, hoffset, ⟨signature, r₁⟩, hsig, ⟨catches, r₂⟩, hcatches, h⟩ := h
    obtain ⟨hread, hlabels⟩ := readTryTable_of hsig hcatches
    have hnext : next = r₂ := by
      simp only [immediates, ValidationContext.codeCtx, hread] at himm
      exact (Except.ok.inj himm).symm
    exact enterBlock_step hbyte hoffset rfl
      (by simp [Instr.handlers, ValidationContext.codeCtx, hread]) hlabels hnext h rfl rfl
  | elseOp =>
    simp only [validateInstruction, map_some_eq_ok, validateElse, bind_eq_ok] at h
    obtain ⟨i, hi, ⟨stack, controls⟩, helse, control, hcontrol, u, -, offset, hoffset, hpure⟩ := h
    unfold controlElse at helse
    split at helse
    · cases helse
    rename_i frame frames hframes
    simp only [bind_eq_ok] at helse
    obtain ⟨v, hif, s₁, -, s₂, -, helse⟩ := helse
    have hi := topAnnotation_eq hframes hi
    have hoffset := opcodeOffset_eq hbyte hoffset
    rw [failIf_eq_ok, Bool.or_eq_false_iff, bne_eq_false_iff_eq] at hif
    subst hi hoffset
    obtain ⟨rfl, -⟩ := Prod.mk.inj (Except.ok.inj hpure)
    cases helse
    exact .splits frame frames control ⟨rfl, hframes, hif, orFail_eq_ok.mp hcontrol, rfl, rfl⟩
  | endOp =>
    rw [validateInstruction] at h
    rcases ite_cases h with ⟨-, h⟩ | ⟨hinner, h⟩
    · obtain ⟨u, -, hpure⟩ := bind_eq_ok.mp h
      cases hpure
    simp only [map_some_eq_ok, validateEnd, bind_eq_ok] at h
    obtain ⟨i, hi, ⟨stack, controls⟩, hend, control, hcontrol, u, -, offset, hoffset, hpure⟩ := h
    unfold controlEnd at hend
    split at hend
    · cases hend
    rename_i frame frames hframes
    simp only [bind_eq_ok] at hend
    obtain ⟨v, -, w, -, s₁, -, s₂, -, hend⟩ := hend
    have hi := topAnnotation_eq hframes hi
    have hoffset := opcodeOffset_eq hbyte hoffset
    subst hi hoffset
    obtain ⟨rfl, -⟩ := Prod.mk.inj (Except.ok.inj hpure)
    cases hend
    refine .closes frame frames control ⟨rfl, hframes, ?_, orFail_eq_ok.mp hcontrol, rfl, rfl⟩
    rintro rfl
    exact hinner (by rw [hframes]; rfl)
  | localSet | localTee =>
    simp only [validateInstruction, map_some_eq_ok, validateLocalSet, bind_eq_ok] at h
    obtain ⟨⟨index, r₁⟩, hindex, type, htype, stack, -, stack', -, hpure⟩ := h
    cases hpure
    exact .sets index (by simp) (orFail_eq_ok.mp hindex)
      (getElem?_eq_some_iff.mp (orFail_eq_ok.mp htype)).1 rfl rfl
  | _ =>
    obtain ⟨⟨stack, r₁⟩, hvalid, hpure⟩ := bind_eq_ok.mp h
    cases hpure
    exact .plain stack rfl (not_sets rfl) hvalid rfl rfl

end Pass

end TurboWasm
