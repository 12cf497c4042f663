/-
# The nest of a position

The interpreter jumps by the offsets in the control records.  `At i s` says that a state stands at
instruction `i` of the body and that its control frames are, from the innermost outwards, those of
the structured instructions around `i`, over the frame of the function.

A branch is an equation (`branchesTo`): for a label of the instruction, the code goes on at the start
of the loop or just past the `end` of the block that the label names, with the operands cut to the
height of its frame and the values of the label, and it fails exactly if these values are not there.
-/
import TurboWasm.Exec.Control
import TurboWasm.Exec.Records

namespace TurboWasm

open Lib List

/-! ## 1. Positions and offsets -/

section Offsets

variable {c : CodeCtx} {code r : Reader} {is : List Instr} {records : List Annotation} {i j : Nat}
  {x y : Instr}

theorem Decoded.drop : ∀ {is : List Instr} {r : Reader} {i : Nat}, Decoded c r is →
    is[i]? = some x → Decoded c x.next (is.drop (i + 1))
  | y :: is, r, 0, h, hx => by
    cases hx
    exact h.2.2.2
  | y :: is, r, i + 1, h, hx => by
    exact h.2.2.2.drop hx

theorem Decoded.args_advances (h : Decoded c r is) (hx : is[i]? = some x) : r.Advances x.args := by
  obtain ⟨⟨byte, hbyte, -⟩, -⟩ := h.instr hx
  exact (h.advances hx).trans (Reader.u8_adv _ _ _ hbyte)

theorem Decoded.next_advances (h : Decoded c r is) (hx : is[i]? = some x) : r.Advances x.next :=
  immediates_adv (h.args_advances hx) x.op x.next (h.instr hx).2

theorem Decoded.args_cursor (h : Decoded c r is) (hx : is[i]? = some x) :
    x.args.cursor = x.start.cursor + 1 := by
  obtain ⟨⟨byte, hbyte, -⟩, -⟩ := h.instr hx
  exact (u8_succ hbyte).1

/-- Later instructions stand at larger offsets. -/
theorem Decoded.cursor_lt (h : Decoded c r is) (hx : is[i]? = some x) (hy : is[j]? = some y)
    (hij : i < j) : x.start.cursor < y.start.cursor := by
  have hdrop : (is.drop (i + 1))[j - (i + 1)]? = some y := by
    rw [getElem?_drop, Nat.add_sub_cancel' hij, hy]
  obtain ⟨k, -, hk⟩ := (immediates_adv (.refl x.args) x.op x.next (h.instr hx).2).trans
    ((h.drop hx).advances hdrop)
  have hargs := h.args_cursor hx
  rw [hk]
  show x.start.cursor < x.args.cursor + k
  omega

/-- The offset of an instruction in the code. -/
theorem Decoded.offset (h : Decoded c code is) (hx : is[i]? = some x) :
    code.cursor ≤ x.start.cursor ∧ x.start.cursor - code.cursor < code.remaining := by
  obtain ⟨k, hk, hs⟩ := h.advances hx
  obtain ⟨⟨byte, hbyte, -⟩, -⟩ := h.instr hx
  have hne : x.start.rest ≠ [] := by
    intro hnil
    rw [Reader.u8, hnil] at hbyte
    cases hbyte
  rw [hs] at hne ⊢
  have hlt : k < code.rest.length := by
    rcases k.lt_or_ge code.rest.length with hlt | hge
    · exact hlt
    · exact absurd (drop_eq_nil_of_le hge) hne
  refine ⟨Nat.le_add_right _ _, ?_⟩
  show code.cursor + k - code.cursor < code.rest.length
  omega

/-- The record that belongs to a member, found by a test that only its record passes. -/
theorem forall₂_find {α β : Type} {R : α → β → Prop} {p : β → Bool} {l : List α} {m : List β} {a : α}
    (h : Forall₂ R l m) (ha : a ∈ l) (hp : ∀ x y, x ∈ l → R x y → (p y ↔ x = a)) :
    ∃ b, m.find? p = some b ∧ R a b := by
  induction h with
  | nil => cases ha
  | @cons x y l m hxy hrest ih =>
    by_cases hx : x = a
    · subst hx
      exact ⟨y, find?_cons_of_pos ((hp x y mem_cons_self hxy).mpr rfl), hxy⟩
    · have hfalse : ¬ p y := fun hy => hx ((hp x y mem_cons_self hxy).mp hy)
      rcases mem_cons.mp ha with rfl | ha
      · exact absurd rfl hx
      · rw [find?_cons_of_neg hfalse]
        exact ih ha fun x y hx => hp x y (mem_cons_of_mem _ hx)

namespace BodyFacts

variable (h : BodyFacts c code is records)

include h

/-- An instruction other than the end of the function has one after it. -/
theorem succ (hx : is[i]? = some x) (hne : x.op = .endOp → opens (word is) i ≠ []) :
    ∃ y, is[i + 1]? = some y ∧ y.start = x.next := by
  obtain ⟨n, z, hlength, hz, hop, hopens⟩ := h.last
  have hi := lt_of_getElem? hx
  have hin : i ≠ n := by
    rintro rfl
    rw [hx] at hz
    cases hz
    exact hne hop hopens
  have hy : is[i + 1]? = some (is.get ⟨i + 1, by omega⟩) := getElem?_eq_getElem _
  exact ⟨_, hy, h.decoded.next hx hy⟩

/-- The `end` of a structured instruction. -/
theorem closer (hj : word is j = .opener) : ∃ k y z, partner (word is) .closer j is.length = some k ∧
    is[k]? = some y ∧ y.op = .endOp ∧ opens (word is) k = j :: opens (word is) j ∧
    is[k + 1]? = some z ∧ z.start = y.args := by
  obtain ⟨k, hk⟩ := h.closed hj
  obtain ⟨hlt, hw, hopens⟩ := partner_some hk
  have hy : is[k]? = some (is.get ⟨k, hlt⟩) := getElem?_eq_getElem _
  have hop : (is.get ⟨k, hlt⟩).op = .endOp := by
    rw [word_eq hy] at hw
    cases hop : (is.get ⟨k, hlt⟩).op <;> rw [hop] at hw <;> first | rfl | cases hw
  obtain ⟨z, hz, hstart⟩ := h.succ hy fun _ => by rw [hopens]; exact cons_ne_nil _ _
  have himm := (h.decoded.instr hy).2
  rw [hop] at himm
  exact ⟨k, _, z, hk, hy, hop, hopens, hz, hstart.trans (Except.ok.inj himm).symm⟩

/-- The `else` of an `if`. -/
theorem middle (hm : partner (word is) .middle j is.length = some m) : ∃ y z,
    is[m]? = some y ∧ opens (word is) (m + 1) = j :: opens (word is) j ∧
    is[m + 1]? = some z ∧ z.start = y.args := by
  obtain ⟨hlt, hw, hopens⟩ := partner_some hm
  have hy : is[m]? = some (is.get ⟨m, hlt⟩) := getElem?_eq_getElem _
  have hop : (is.get ⟨m, hlt⟩).op = .elseOp := by
    rw [word_eq hy] at hw
    cases hop : (is.get ⟨m, hlt⟩).op <;> rw [hop] at hw <;> first | rfl | cases hw
  obtain ⟨z, hz, hstart⟩ := h.succ hy fun hend => by rw [hop] at hend; cases hend
  have himm := (h.decoded.instr hy).2
  rw [hop] at himm
  exact ⟨_, z, hy, by rw [opens_middle hw, hopens], hz, hstart.trans (Except.ok.inj himm).symm⟩

theorem offset_lt (hx : is[i]? = some x) : x.start.cursor - code.cursor < uint32Max :=
  lt_of_lt_of_le (h.decoded.offset hx).2 h.small

/-- The record found at the offset of a structured instruction is its own. -/
theorem record (hx : is[j]? = some x) (hj : word is j = .opener) :
    ∃ a, records.find? (·.opcodeOffset = x.start.cursor - code.cursor) = some a ∧
      RecordOf c code is is.length j a := by
  have hlt := lt_of_getElem? hx
  refine forall₂_find h.records (mem_openers.mpr ⟨hlt, hj⟩) ?_
  intro k a hk ha
  obtain ⟨y, hy, -, hoffset, -⟩ := ha.instr
  rw [decide_eq_true_iff, hoffset]
  have hxo := (h.decoded.offset hx).1
  have hyo := (h.decoded.offset hy).1
  constructor
  · intro heq
    rcases k.lt_trichotomy j with hkj | rfl | hkj
    · have := h.decoded.cursor_lt hy hx hkj
      omega
    · rfl
    · have := h.decoded.cursor_lt hx hy hkj
      omega
  · rintro rfl
    rw [hx] at hy
    cases hy
    rfl

end BodyFacts

end Offsets

/-! ## 2. The nest of a position -/

section Nest

variable (env : ExecEnv) (is : List Instr)

/-- **The run-time frame of the structured instruction `j`**: its kind, the signature read after its
opcode, and its record. -/
structure ExecFrameOf (j : Nat) (f : ExecFrame) : Prop where
  instr : ∃ x kind r, is[j]? = some x ∧ x.op.annotationKind = some kind ∧ f.kind = kind.control ∧
    execReadBlockSignature env.ctx.types x.args = .ok (f.signature, r)
  record : ∃ a, f.record = some a ∧ RecordOf env.ctx env.code is is.length j a

/-- The frame of the function. -/
def functionFrame : ExecFrame := ⟨.function, 0, none, ⟨[], env.results⟩⟩

/-- The frames of a nest of structured instructions over the frame of the function. -/
def Nest (js : List Nat) (controls : List ExecFrame) : Prop :=
  ∃ blocks, controls = blocks ++ [functionFrame env] ∧ Forall₂ (ExecFrameOf env is) js blocks

/-- **The state stands at instruction `i`**, and its frames are those of the structured instructions
around it. -/
structure At (i : Nat) (s : ExecState) : Prop where
  reader : ∃ x, is[i]? = some x ∧ s.reader = x.start
  nest : Nest env is (opens (word is) i) s.controls

/-- Where a label of the structured instruction `j` leads: to the start of a loop, or just past the
`end` of another block. -/
def LabelLeads (j t : Nat) : Prop :=
  ∃ x, is[j]? = some x ∧
    if x.op = .structured .loop then t = j + 1
    else ∃ k, partner (word is) .closer j is.length = some k ∧ t = k + 1

/-- **Which instruction can come after instruction `i`.** -/
inductive Flow (i : Nat) : Nat → Prop
  /-- The next one, but not from `else` into the second arm. -/
  | next (hw : word is i ≠ .middle) : Flow i (i + 1)
  /-- From `if` into the second arm. -/
  | arm (m : Nat) (hw : word is i = .opener) (hm : partner (word is) .middle i is.length = some m) :
      Flow i (m + 1)
  /-- From an `if` without a second arm to its `end`. -/
  | skip (k : Nat) (hw : word is i = .opener) (hk : partner (word is) .closer i is.length = some k) :
      Flow i k
  /-- From the end of the first arm to the `end`. -/
  | join (j k : Nat) (hw : word is i = .middle) (hopens : opens (word is) i = j :: opens (word is) j)
      (hk : partner (word is) .closer j is.length = some k) : Flow i k
  /-- To the target of a label. -/
  | label (d j t : Nat) (hw : word is i = .other) (hd : (opens (word is) i)[d]? = some j)
      (ht : LabelLeads is j t) : Flow i t

/-- What a step does to the locals. -/
inductive Writes (x : Instr) (s s' : ExecState) : Prop
  | keeps (hop : x.op ≠ .localSet ∧ x.op ≠ .localTee) (hwritten : s'.written = s.written)
      (hlocals : s'.locals = s.locals)
  | sets (index : Nat) (value : Value) (r : Reader) (hop : x.op = .localSet ∨ x.op = .localTee)
      (hindex : x.args.uleb32 = some (index, r)) (hlt : index < s.locals.length)
      (hwritten : s'.written = (index, value) :: s.written)
      (hlocals : s'.locals = s.locals.set index value)
      (htee : x.op = .localTee → s'.stack.head? = some value)

/-- The parts of a state that only control flow and `local.set` change. -/
structure SameFrame (s s' : ExecState) : Prop where
  controls : s'.controls = s.controls
  written : s'.written = s.written
  locals : s'.locals = s.locals

/-- **A branch to the label `d` at instruction `i`**, as an equation for what it answers. -/
def BranchesTo (i : Nat) (s : ExecState) (d : Nat) : Prop :=
  ∃ frame, s.controls[d]? = some frame ∧
    ((d = (opens (word is) i).length ∧ frame = functionFrame env ∧
        execBranch env s d =
          (stackRebase s.stack frame.height frame.labelTypes).map (.finished true)) ∨
      ∃ j t y, (opens (word is) i)[d]? = some j ∧ ExecFrameOf env is j frame ∧ LabelLeads is j t ∧
        is[t]? = some y ∧ Nest env is (opens (word is) t)
          (s.controls.drop (if frame.kind = .loop then d else d + 1)) ∧
        execBranch env s d = (stackRebase s.stack frame.height frame.labelTypes).map fun stack =>
          .running { s with
            reader := y.start, stack := stack,
            controls := s.controls.drop (if frame.kind = .loop then d else d + 1) })

/-- **The label that an instruction takes** on the operands `stack`, and the operands it leaves: the
label it names, the entry of a table at the selector or its default, or the function's.  Whether a
cast branches is up to its outcome. -/
inductive Takes (i : Nat) (x : Instr) (stack : List Value) : Nat → List Value → Prop
  | br (d : Nat) (r : Reader) (hop : x.op = .br) (hd : x.args.uleb32 = some (d, r)) :
      Takes i x stack d stack
  | brIf (d : Nat) (r : Reader) (condition : BitVec 32) (rest : List Value) (hop : x.op = .brIf)
      (hd : x.args.uleb32 = some (d, r)) (hstack : stack = .i32 condition :: rest)
      (htrue : condition ≠ 0) : Takes i x stack d rest
  | brTable (depths : List Nat) (defaultDepth : Nat) (r : Reader) (selector : BitVec 32)
      (rest : List Value) (hop : x.op = .brTable)
      (hread : readBrTable x.args = .ok ((depths, defaultDepth), r))
      (hstack : stack = .i32 selector :: rest) :
      Takes i x stack (if hlt : selector.toNat < depths.length then depths.get ⟨_, hlt⟩
        else defaultDepth) rest
  | returns (hop : x.op = .returnOp) : Takes i x stack (opens (word is) i).length stack
  | onNull (d : Nat) (r : Reader) (reference : Value) (rest : List Value) (hop : x.op = .brOnNull)
      (hd : x.args.uleb32 = some (d, r)) (hstack : stack = reference :: rest)
      (hnull : reference.isNullReference = .ok true) : Takes i x stack d rest
  | onNonNull (d : Nat) (r : Reader) (reference : Value) (rest : List Value)
      (hop : x.op = .brOnNonNull) (hd : x.args.uleb32 = some (d, r))
      (hstack : stack = reference :: rest) (hnull : reference.isNullReference = .ok false) :
      Takes i x stack d stack
  | cast (d : Nat) (r : Reader) (left : List Value) (hop : x.op = .gc)
      (hd : gcImmediates env.ctx.types x.args = .ok (some d, r)) : Takes i x stack d left

/-- **The handler for an exception** thrown at instruction `i`: the first one that matches of the
innermost `try_table` with such a handler, which is `p` structured instructions further out. -/
def Handles (i : Nat) (e : Thrown) (p : Nat) (clause : Catch) : Prop :=
  (∃ j x, (opens (word is) i)[p]? = some j ∧ is[j]? = some x ∧ x.op = .tryTable ∧
    findClause env e (x.handlers env.ctx) = .ok (some clause)) ∧
  ∀ q j x, q < p → (opens (word is) i)[q]? = some j → is[j]? = some x →
    findClause env e (x.handlers env.ctx) = .ok none

/-- The state in which a handler of `frame` branches. -/
def caught (s : ExecState) (frame : ExecFrame) (e : Thrown) (clause : Catch) : ExecState :=
  { s with
    stack := (handlerValues e clause).reverse ++ s.stack.drop (s.stack.length - frame.height) }

/-- **An exception is caught by a handler**, as an equation: the values of the handler are put on the
operands below its `try_table`, and its label is counted from the `try_table` outwards. -/
def CaughtBy (i : Nat) (s : ExecState) (e : Thrown) (p : Nat) (clause : Catch) : Prop :=
  ∃ j frame, (opens (word is) i)[p]? = some j ∧ s.controls[p]? = some frame ∧
    ExecFrameOf env is j frame ∧
    (opens (word is) i)[p + 1 + clause.labelDepth]? = (opens (word is) j)[clause.labelDepth]? ∧
    handlerLabel env s e = (if s.stack.length < frame.height then .error .malformedModule
      else .ok (caught s frame e clause, p + 1 + clause.labelDepth)) ∧
    BranchesTo env is i (caught s frame e clause) (p + 1 + clause.labelDepth)

variable {env is} {i j d : Nat} {frame : ExecFrame}
  {x : Instr} {s s' : ExecState} {o : ExecOutcome}

theorem Nest.length (h : Nest env is js controls) : controls.length = js.length + 1 := by
  obtain ⟨blocks, rfl, hblocks⟩ := h
  rw [length_append, hblocks.length_eq]
  rfl

theorem Nest.bottom (h : Nest env is js controls) : controls[js.length]? = some (functionFrame env) := by
  obtain ⟨blocks, rfl, hblocks⟩ := h
  rw [hblocks.length_eq, getElem?_append_right (le_rfl), Nat.sub_self]
  rfl

theorem Nest.push (h : Nest env is js controls) (hframe : ExecFrameOf env is j frame) :
    Nest env is (j :: js) (frame :: controls) := by
  obtain ⟨blocks, rfl, hblocks⟩ := h
  exact ⟨frame :: blocks, rfl, .cons hframe hblocks⟩

theorem Nest.pop (h : Nest env is (j :: js) controls) : ∃ frame outer, controls = frame :: outer ∧
    ExecFrameOf env is j frame ∧ Nest env is js outer := by
  obtain ⟨blocks, rfl, hblocks⟩ := h
  obtain ⟨frame, outer, hframe, houter, rfl⟩ := forall₂_cons_left_iff.mp hblocks
  exact ⟨frame, outer ++ [functionFrame env], rfl, hframe, outer, rfl, houter⟩

/-- The frame of the structured instruction at depth `d`, and the frames outside it. -/
theorem Nest.get : ∀ {d : Nat} {js : List Nat} {controls : List ExecFrame},
    Nest env is js controls → js[d]? = some j → ∃ frame, controls[d]? = some frame ∧
      ExecFrameOf env is j frame ∧ Nest env is (js.drop d) (controls.drop d) ∧
      Nest env is (js.drop (d + 1)) (controls.drop (d + 1))
  | 0, k :: js, controls, h, hj => by
    cases hj
    obtain ⟨frame, outer, rfl, hframe, houter⟩ := h.pop
    exact ⟨frame, rfl, hframe, h, houter⟩
  | d + 1, k :: js, controls, h, hj => by
    obtain ⟨frame, outer, rfl, -, houter⟩ := h.pop
    exact Nest.get (d := d) houter (by simpa using hj)

/-- The frame of a function is not the one of a structured instruction. -/
theorem ExecFrameOf.kind_ne (h : ExecFrameOf env is j frame) : frame.kind ≠ .function := by
  obtain ⟨x, kind, r, -, -, hkind, -⟩ := h.instr
  rw [hkind]
  cases kind <;> decide

theorem ExecFrameOf.opener (h : ExecFrameOf env is j frame) : word is j = .opener := by
  obtain ⟨x, kind, r, hx, hkind, -⟩ := h.instr
  rw [word_eq hx]
  cases hop : x.op <;> rw [hop] at hkind <;> first | rfl | cases hkind

/-- The handlers in the record of a frame are those written in its instruction; only a `try_table`
has any. -/
theorem ExecFrameOf.catches_eq (h : ExecFrameOf env is j frame) (hx : is[j]? = some x) :
    frame.catches = x.handlers env.ctx := by
  obtain ⟨y, kind, r, hy, hkind, hcontrol, -⟩ := h.instr
  obtain ⟨a, hrecord, ha⟩ := h.record
  obtain ⟨z, hz, -, -, -, hcatches⟩ := ha.instr
  rw [hx] at hy hz
  cases hy
  cases hz
  cases hop : x.op with
  | structured k =>
    rw [hop] at hkind
    cases hkind
    cases kind <;> simp [ExecFrame.catches, hcontrol, hrecord, hcatches, AnnotationKind.control,
      Instr.handlers, hop]
  | tryTable =>
    rw [hop] at hkind
    cases hkind
    simp [ExecFrame.catches, hcontrol, hrecord, hcatches, AnnotationKind.control]
  | _ =>
    rw [hop] at hkind
    cases hkind

/-- A label that an instruction takes is one that it names, or the function's. -/
theorem Takes.label {stack left : List Value} (h : Takes env is i x stack d left) :
    d ∈ labelsOf env.ctx x.args x.op ∨ x.op = .returnOp ∧ d = (opens (word is) i).length := by
  cases h with
  | br _ r hop hd | brIf _ r _ _ hop hd | onNull _ r _ _ hop hd | onNonNull _ r _ _ hop hd
  | cast _ r _ hop hd => exact .inl (by simp [labelsOf, hop, hd])
  | brTable depths defaultDepth r selector _ hop hread =>
    left
    simp only [labelsOf, hop, hread, mem_cons]
    split
    · exact .inr (get_mem ..)
    · exact .inl rfl
  | returns hop => exact .inr ⟨hop, rfl⟩

end Nest

/-! ## 3. Jumps and branches -/

section Steps

variable {env : ExecEnv} {is : List Instr} {i d : Nat}

theorem execJump_to {r : Reader} (h : env.code.Advances r) :
    execJump env (r.cursor - env.code.cursor) = .ok r := by
  obtain ⟨k, hk, rfl⟩ := h
  have hsub : env.code.cursor + k - env.code.cursor = k := by omega
  have hle : env.code.remaining < k ↔ False := iff_false_intro (not_lt.mpr hk)
  simp only [execJump, hsub, hle]
  rfl

variable (h : BodyFacts env.ctx env.code is env.annotations)

include h

theorem execJump_start (hx : is[i]? = some x) :
    execJump env (x.start.cursor - env.code.cursor) = .ok x.start :=
  execJump_to (h.decoded.advances hx)

/-- A jump just past an opcode. -/
theorem execJump_past (hx : is[i]? = some x) :
    execJump env (x.start.cursor - env.code.cursor + 1) = .ok x.args := by
  have hle := (h.decoded.offset hx).1
  have heq : x.start.cursor - env.code.cursor + 1 = x.args.cursor - env.code.cursor := by
    rw [h.decoded.args_cursor hx]
    omega
  rw [heq]
  exact execJump_to (h.decoded.args_advances hx)

theorem execOffset_eq (hx : is[i]? = some x) :
    execOffset env x.args = .ok (x.start.cursor - env.code.cursor) := by
  have hle := (h.decoded.offset hx).1
  have hlt := h.offset_lt hx
  have hargs := h.decoded.args_cursor hx
  unfold execOffset malformedIf
  rw [failIf_neg (decide_eq_false (by omega)), ok_bind,
    failIf_neg (decide_eq_false (by omega)), ok_bind]
  refine congrArg Except.ok ?_
  omega

/-- The `end` in the record of a structured instruction, and the jumps to it and past it. -/
theorem endOffset_spec (ha : RecordOf env.ctx env.code is is.length j a)
    (hj : word is j = .opener) : ∃ k y z, partner (word is) .closer j is.length = some k ∧
    is[k]? = some y ∧ opens (word is) k = j :: opens (word is) j ∧ is[k + 1]? = some z ∧
    opens (word is) (k + 1) = opens (word is) j ∧
    a.endOffset = y.start.cursor - env.code.cursor ∧ a.endOffset ≠ uint32Max ∧
    execJump env a.endOffset = .ok y.start ∧ execJump env (a.endOffset + 1) = .ok z.start := by
  obtain ⟨k, y, z, hk, hy, hop, hopens, hz, hstart⟩ := h.closer hj
  have hend : a.endOffset = y.start.cursor - env.code.cursor := by
    rw [ha.endOffset, hk]
    simp [offsetOf, hy]
  have hlt := h.offset_lt hy
  refine ⟨k, y, z, hk, hy, hopens, hz, ?_, hend, by omega, ?_, ?_⟩
  · exact opens_closed (by rw [word_eq hy, hop]; rfl) hopens
  · rw [hend]
    exact execJump_start h hy
  · rw [hend, hstart]
    exact execJump_past h hy

/-- The body in the record of a structured instruction. -/
theorem bodyOffset_spec (ha : RecordOf env.ctx env.code is is.length j a) (hx : is[j]? = some x)
    (hj : word is j = .opener) : ∃ y, is[j + 1]? = some y ∧ y.start = x.next ∧
    a.bodyOffset = x.next.cursor - env.code.cursor ∧ execJump env a.bodyOffset = .ok y.start := by
  have hne : x.op = .endOp → opens (word is) j ≠ [] := by
    intro hop
    rw [word_eq hx, hop] at hj
    cases hj
  obtain ⟨y, hy, hstart⟩ := h.succ hx hne
  obtain ⟨z, hz, -, -, hbody, -⟩ := ha.instr
  rw [hx] at hz
  cases hz
  refine ⟨y, hy, hstart, hbody, ?_⟩
  rw [hbody, hstart]
  exact execJump_to (h.decoded.next_advances hx)

/-- **A branch goes where its label says.** -/
theorem branchesTo (hnest : Nest env is (opens (word is) i) s.controls)
    (hd : d ≤ (opens (word is) i).length) : BranchesTo env is i s d := by
  rcases eq_or_lt_of_le hd with rfl | hlt
  · -- the outermost label returns
    refine ⟨_, hnest.bottom, .inl ⟨rfl, rfl, ?_⟩⟩
    simp only [execBranch, hnest.bottom, orFail, ok_bind]
    cases stackRebase s.stack (functionFrame env).height (functionFrame env).labelTypes <;> rfl
  have hj : (opens (word is) i)[d]? = some ((opens (word is) i).get ⟨d, hlt⟩) :=
    getElem?_eq_getElem _
  generalize (opens (word is) i).get ⟨d, hlt⟩ = j at hj
  obtain ⟨frame, hframe, hof, hhere, houter⟩ := hnest.get hj
  obtain ⟨a, hrecord, ha⟩ := hof.record
  obtain ⟨x, kind, r, hx, hkind, hcontrol, -⟩ := hof.instr
  obtain ⟨k, y, z, hk, -, -, hz, hclosed, -, hsome, -, hpast⟩ := endOffset_spec h ha hof.opener
  obtain ⟨b, hb, -, -, hbody⟩ := bodyOffset_spec h ha hx hof.opener
  rw [opens_drop hj] at hhere
  rw [opens_drop_succ hj] at houter
  have hbranch : execBranch env s d = (stackRebase s.stack frame.height frame.labelTypes >>=
      fun stack => if frame.kind = .loop then
          pure (.running { s with reader := b.start, stack := stack, controls := s.controls.drop d })
        else pure (.running { s with
          reader := z.start, stack := stack, controls := s.controls.drop (d + 1) })) := by
    simp only [execBranch, hframe, hrecord, orFail, ok_bind, if_neg hof.kind_ne,
      failIf_neg (decide_eq_false hsome), hbody, hpast]
  have hloop : frame.kind = .loop ↔ x.op = .structured .loop := by
    rw [hcontrol]
    cases hop : x.op with
    | structured k =>
      rw [hop] at hkind
      cases hkind
      cases kind <;> simp [AnnotationKind.control]
    | tryTable =>
      rw [hop] at hkind
      cases hkind
      simp [AnnotationKind.control]
    | _ =>
      rw [hop] at hkind
      cases hkind
  refine ⟨frame, hframe, .inr ?_⟩
  by_cases hl : frame.kind = .loop
  · refine ⟨j, j + 1, b, hj, hof, ⟨x, hx, ?_⟩, hb, ?_, ?_⟩
    · rw [if_pos (hloop.mp hl)]
    · rwa [if_pos hl, opens_opener hof.opener]
    · rw [hbranch]
      simp only [if_pos hl]
      cases stackRebase s.stack frame.height frame.labelTypes <;> rfl
  refine ⟨j, k + 1, z, hj, hof, ⟨x, hx, ?_⟩, hz, ?_, ?_⟩
  · rw [if_neg fun hop => hl (hloop.mpr hop)]
    exact ⟨k, hk, rfl⟩
  · rwa [if_neg hl, hclosed]
  · rw [hbranch]
    simp only [if_neg hl]
    cases stackRebase s.stack frame.height frame.labelTypes <;> rfl

end Steps

end TurboWasm
