/-
# Runs of a validated body

Each instruction of the body asks for something that keeps the state at an instruction (`EffectOk`);
from this one step of the interpreter (`At.step`), and from it every state of every activation
(`at_run`).  `Flow` and `Writes` say which instruction comes next and what it does to the locals.

The main result puts the pass of the validator and the runs together: the records that an accepted
body appends are those of its structured instructions, and in every execution the control frames are
the nest of the position and each branch goes where its label says (`controlRecords_exact`).
-/
import TurboWasm.Exec.Nest
import TurboWasm.Lib.Runs

namespace TurboWasm

open Lib List

/-! ## 1. Instructions -/

/-- The frame of the block `i` was pushed, with the height of the operands below its parameters. -/
def Entered (env : ExecEnv) (is : List Instr) (i : Nat) (s s' : ExecState) : Prop :=
  ∃ frame, ExecFrameOf env is i frame ∧ s'.controls = frame :: s.controls ∧
    frame.height + frame.signature.startTypes.length = s'.stack.length

/-- **What an instruction does to the frames**: a structured instruction pushes its own, and any
other one leaves the outer ones as they are. -/
structure Framed (env : ExecEnv) (is : List Instr) (i : Nat) (s s' : ExecState) : Prop where
  enters : word is i = .opener → Entered env is i s s'
  keeps : word is i ≠ .opener → s'.controls <:+ s.controls

/-- What the instruction `x` at position `i` can ask for in a state that stands there. -/
inductive EffectOk (env : ExecEnv) (is : List Instr) (i : Nat) (x : Instr) (s : ExecState) :
    Effect → Prop
  | goes (s' : ExecState) (i' : Nat) (hat : At env is i' s') (hflow : Flow is i i')
      (hwrites : Writes x s s') (hframed : Framed env is i s s') :
      EffectOk env is i x s (.goes s')
  | branch (s' : ExecState) (d : Nat) (hsame : SameFrame s s') (hw : x.op.bracket = .other)
      (hset : x.op ≠ .localSet ∧ x.op ≠ .localTee)
      (htakes : Takes env is i x s.stack d s'.stack) : EffectOk env is i x s (.branch s' d)
  | throws (s' : ExecState) (e : Thrown) (hsame : SameFrame s s') (hw : x.op.bracket = .other)
      (hset : x.op ≠ .localSet ∧ x.op ≠ .localTee) : EffectOk env is i x s (.throws s' e)
  | finish (s' : ExecState) : EffectOk env is i x s (.finish s')
  | tail : EffectOk env is i x s .tail

section Effects

variable {env : ExecEnv} {is : List Instr} {i d : Nat} {frame : ExecFrame} {x : Instr}
  {s s' : ExecState} {o : ExecOutcome} {e : Effect}

theorem Framed.of_suffix (hw : word is i ≠ .opener) (h : s'.controls <:+ s.controls) :
    Framed env is i s s' :=
  ⟨fun hw' => absurd hw' hw, fun _ => h⟩

theorem Framed.of_entered (hw : word is i = .opener) (h : Entered env is i s s') :
    Framed env is i s s' :=
  ⟨fun _ => h, fun hw' => absurd hw hw'⟩

theorem execControlPush_eq {controls controls' : List ExecFrame} {stack : List Value}
    {kind : ControlKind} {signature : ExecSignature}
    (h : execControlPush controls stack kind a signature = .ok controls') :
    ∃ height, height + signature.startTypes.length = stack.length ∧
      controls' = ⟨kind, height, some a, signature⟩ :: controls := by
  simp only [execControlPush, stackCheckTop, bind_eq_ok, failIf_eq_ok, decide_eq_false_iff_not]
    at h
  obtain ⟨u, -, v, ⟨w, hle, -⟩, hpure⟩ := h
  cases hpure
  exact ⟨_, by omega, rfl⟩

theorem stackPop_eq_ok {stack rest : List Value} {v : Value} :
    stackPop stack = .ok (v, rest) ↔ stack = v :: rest := by
  cases stack <;> simp [stackPop]

theorem stackPopI32_eq_ok {stack rest : List Value} {bits : BitVec 32} :
    stackPopI32 stack = .ok (bits, rest) ↔ stack = .i32 bits :: rest := by
  constructor
  · intro h
    obtain ⟨⟨v, left⟩, hpop, h⟩ := bind_eq_ok.mp h
    rw [stackPop_eq_ok.mp hpop]
    cases v <;> cases h
    rfl
  · rintro rfl
    rfl

theorem selectDepth_eq (depths : List Nat) (defaultDepth : Nat) (selector : BitVec 32) :
    selectDepth depths defaultDepth selector = if hlt : selector.toNat < depths.length
      then depths.get ⟨_, hlt⟩ else defaultDepth := by
  unfold selectDepth
  split
  · rw [getElem?_eq_getElem ‹_›]
    rfl
  · rw [getElem?_eq_none (by omega)]
    rfl

variable (h : BodyFacts env.ctx env.code is env.annotations) (hx : is[i]? = some x)
  (hs : s.reader = x.args) (hnest : Nest env is (opens (word is) i) s.controls)

include h hx

/-- The record that a structured instruction finds is its own. -/
theorem controlAt_spec (hw : word is i = .opener) (hoffset : execOffset env x.args = .ok offset)
    (ha : controlAt env offset = .ok a) : RecordOf env.ctx env.code is is.length i a := by
  rw [execOffset_eq h hx] at hoffset
  cases hoffset
  simp only [controlAt, bind_eq_ok] at ha
  obtain ⟨b, hb, u, -, hpure⟩ := ha
  cases hpure
  obtain ⟨b, hfound, hb'⟩ := h.record hx hw
  rw [hfound] at hb
  cases hb
  exact hb'

include hnest

theorem goes_next (hw : x.op.bracket = .other) (hset : x.op ≠ .localSet ∧ x.op ≠ .localTee)
    (hsame : SameFrame s s') (hreader : s'.reader = x.next) : EffectOk env is i x s (.goes s') := by
  have hi : word is i = .other := by rw [word_eq hx, hw]
  obtain ⟨y, hy, hstart⟩ := h.succ hx fun hop => by rw [hop] at hw; cases hw
  refine .goes s' (i + 1) ⟨⟨y, hy, hreader.trans hstart.symm⟩, ?_⟩ (.next (by rw [hi]; decide))
    (.keeps hset hsame.written hsame.locals) (.of_suffix (by rw [hi]; decide) ?_)
  · rwa [opens_other hi, hsame.controls]
  · exact hsame.controls ▸ suffix_rfl

include hs

/-- A `block`, `loop` or `if` pushes its frame and goes on in the arm it selects. -/
theorem execBlock_ok (hop : x.op = .structured kind) (he : execBlock env kind s = .ok e) :
    EffectOk env is i x s e := by
  have hw : word is i = .opener := by rw [word_eq hx, hop]; rfl
  have hset : x.op ≠ .localSet ∧ x.op ≠ .localTee :=
    not_sets (by rw [hop]; rfl)
  simp only [execBlock, bind_eq_ok] at he
  obtain ⟨offset, hoffset, a, hcontrol, ⟨signature, r⟩, hsig, u, -, ⟨condition, stack⟩, -, controls,
    hpush, he⟩ := he
  rw [hs] at hoffset hsig
  have ha := controlAt_spec h hx hw hoffset hcontrol
  obtain ⟨height, hheight, rfl⟩ := execControlPush_eq hpush
  have hframe : ExecFrameOf env is i ⟨kind.control, height, some a, signature⟩ :=
    ⟨⟨x, kind, r, hx, by rw [hop]; rfl, rfl, hsig⟩, a, rfl, ha⟩
  have hr : r = x.next := by
    have himm := (h.decoded.instr hx).2
    simp only [hop, immediates, hsig] at himm
    exact Except.ok.inj himm
  have hinner := hnest.push hframe
  have hin : opens (word is) (i + 1) = i :: opens (word is) i := opens_opener hw
  have hframed : ∀ r', Framed env is i s { s with
      reader := r', stack := stack,
      controls := ⟨kind.control, height, some a, signature⟩ :: s.controls } :=
    fun _ => .of_entered hw ⟨_, hframe, rfl, hheight⟩
  rcases ite_cases he with ⟨-, he⟩ | ⟨-, he⟩
  · -- the condition is false: the second arm, or the `end` if there is none
    obtain ⟨r', hjump, hpure⟩ := bind_eq_ok.mp he
    cases hpure
    obtain ⟨k, y, z, hk, hy, hopens, -, -, -, -, hto, -⟩ := endOffset_spec h ha hw
    cases hm : partner (word is) .middle i is.length with
    | none =>
      have helse : a.elseOffset = uint32Max := by rw [ha.elseOffset, hm]; rfl
      rw [if_neg (not_not.mpr helse), hto] at hjump
      cases hjump
      refine .goes _ k ⟨⟨y, hy, rfl⟩, ?_⟩ (.skip k hw hk) (.keeps hset rfl rfl) (hframed _)
      rwa [hopens]
    | some m =>
      obtain ⟨b, z, hb, hopens', hz, hstart⟩ := h.middle hm
      have helse : a.elseOffset = b.start.cursor - env.code.cursor := by
        rw [ha.elseOffset, hm]
        simp [offsetOf, hb]
      have hlt := h.offset_lt hb
      rw [if_pos (by omega), helse, execJump_past h hb] at hjump
      cases hjump
      refine .goes _ (m + 1) ⟨⟨z, hz, hstart.symm⟩, ?_⟩ (.arm m hw hm) (.keeps hset rfl rfl)
        (hframed _)
      rwa [hopens']
  · cases he
    obtain ⟨y, hy, hstart, -⟩ := bodyOffset_spec h ha hx hw
    refine .goes _ (i + 1) ⟨⟨y, hy, hr.trans hstart.symm⟩, ?_⟩ (.next (by rw [hw]; decide))
      (.keeps hset rfl rfl) (hframed _)
    rwa [hin]

theorem execTryTable_ok (hop : x.op = .tryTable) (he : execTryTable env s = .ok e) :
    EffectOk env is i x s e := by
  have hw : word is i = .opener := by rw [word_eq hx, hop]; rfl
  simp only [execTryTable, bind_eq_ok] at he
  obtain ⟨offset, hoffset, a, hcontrol, u, -, ⟨signature, r⟩, hsig, v, -, r', hjump, controls, hpush,
    hpure⟩ := he
  cases hpure
  rw [hs] at hoffset hsig
  have ha := controlAt_spec h hx hw hoffset hcontrol
  obtain ⟨height, hheight, rfl⟩ := execControlPush_eq hpush
  have hframe : ExecFrameOf env is i ⟨.tryTable, height, some a, signature⟩ :=
    ⟨⟨x, .tryTable, r, hx, by rw [hop]; rfl, rfl, hsig⟩, a, rfl, ha⟩
  obtain ⟨y, hy, hstart, -, hbody⟩ := bodyOffset_spec h ha hx hw
  rw [hbody] at hjump
  cases hjump
  refine .goes _ (i + 1) ⟨⟨y, hy, rfl⟩, ?_⟩ (.next (by rw [hw]; decide))
    (.keeps (not_sets (by rw [hop]; rfl)) rfl rfl) (.of_entered hw ⟨_, hframe, rfl, hheight⟩)
  rw [opens_opener hw]
  exact hnest.push hframe

omit h hx hs in
/-- The innermost frame belongs to the innermost structured instruction. -/
theorem innerFrame_spec (hframe : innerFrame s = .ok (frame, a)) : ∃ j,
    opens (word is) i = j :: opens (word is) j ∧ word is j = .opener ∧
    RecordOf env.ctx env.code is is.length j a ∧ Nest env is (opens (word is) j) s.controls.tail := by
  unfold innerFrame at hframe
  split at hframe
  · rename_i f g outer hcontrols
    split at hframe
    · rename_i b hb
      cases hframe
      cases hopens : opens (word is) i with
      | nil =>
        have hlen := hnest.length
        rw [hopens, hcontrols] at hlen
        cases hlen
      | cons j rest =>
        obtain ⟨-, -, rfl⟩ := opens_split (show opens (word is) i = [] ++ j :: rest from hopens)
        rw [hopens] at hnest
        obtain ⟨f', outer', heq, hof, houter⟩ := hnest.pop
        obtain ⟨rfl, -⟩ := List.cons.inj (hcontrols.symm.trans heq)
        obtain ⟨b', hb', hrec⟩ := hof.record
        rw [hb] at hb'
        cases hb'
        rw [heq]
        exact ⟨j, rfl, hof.opener, hrec, houter⟩
    · cases hframe
  · cases hframe

omit hs in
theorem execElse_ok (hop : x.op = .elseOp) (he : execElse env s = .ok e) :
    EffectOk env is i x s e := by
  have hw : word is i = .middle := by rw [word_eq hx, hop]; rfl
  simp only [execElse, bind_eq_ok] at he
  obtain ⟨offset, -, ⟨frame, a⟩, hframe, u, -, r, hjump, hpure⟩ := he
  cases hpure
  obtain ⟨j, hopens, hj, ha, -⟩ := innerFrame_spec hnest hframe
  obtain ⟨k, y, z, hk, hy, hopens', -, -, -, -, hto, -⟩ := endOffset_spec h ha hj
  rw [hto] at hjump
  cases hjump
  refine .goes _ k ⟨⟨y, hy, rfl⟩, ?_⟩ (.join j k hw hopens hk)
    (.keeps (not_sets (by rw [hop]; rfl)) rfl rfl) (.of_suffix (by rw [hw]; decide) suffix_rfl)
  rwa [hopens', ← hopens]

theorem execEnd_ok (hop : x.op = .endOp) (he : execEnd env s = .ok e) : EffectOk env is i x s e := by
  have hw : word is i = .closer := by rw [word_eq hx, hop]; rfl
  rcases ite_cases he with ⟨-, he⟩ | ⟨-, he⟩
  · obtain ⟨u, -, hpure⟩ := bind_eq_ok.mp he
    cases hpure
    exact .finish s
  simp only [bind_eq_ok] at he
  obtain ⟨offset, -, ⟨frame, a⟩, hframe, u, -, stack, -, hpure⟩ := he
  cases hpure
  obtain ⟨j, hopens, -, -, houter⟩ := innerFrame_spec hnest hframe
  obtain ⟨y, hy, hstart⟩ := h.succ hx fun _ => by rw [hopens]; exact cons_ne_nil _ _
  have himm := (h.decoded.instr hx).2
  rw [hop] at himm
  refine .goes _ (i + 1) ⟨⟨y, hy, ?_⟩, ?_⟩ (.next (by rw [hw]; decide))
    (.keeps (not_sets (by rw [hop]; rfl)) rfl rfl)
    (.of_suffix (by rw [hw]; decide) (tail_suffix _))
  · exact hs.trans ((Except.ok.inj himm).trans hstart.symm)
  · rwa [opens_closed hw hopens]

theorem execLocalSet_ok (hop : x.op = if t then .localTee else .localSet)
    (he : execLocalSet t s = .ok e) : EffectOk env is i x s e := by
  have hor : x.op = .localSet ∨ x.op = .localTee := by
    cases t
    · exact .inl hop
    · exact .inr hop
  have hi : word is i = .other := by
    rw [word_eq hx]
    rcases hor with hor | hor <;> rw [hor] <;> rfl
  simp only [execLocalSet, bind_eq_ok, orFail_eq_ok] at he
  obtain ⟨⟨index, r⟩, hindex, old, hold, ⟨value, stack⟩, -, u, -, hpure⟩ := he
  cases hpure
  rw [hs] at hindex
  have hr : x.next = r := by
    have himm := (h.decoded.instr hx).2
    rcases hor with hor | hor <;> rw [hor] at himm <;>
      simp only [immediates, skipUleb32, hindex] at himm <;>
      exact (Except.ok.inj himm).symm
  obtain ⟨y, hy, hstart⟩ := h.succ hx fun hend => by
    rcases hor with hor | hor <;> rw [hor] at hend <;> cases hend
  refine .goes _ (i + 1) ⟨⟨y, hy, (hstart.trans hr).symm⟩, ?_⟩ (.next (by rw [hi]; decide))
    (.sets index value r hor hindex (lt_of_getElem? hold) rfl rfl ?_)
    (.of_suffix (by rw [hi]; decide) suffix_rfl)
  · rwa [opens_other hi]
  · intro htee
    cases t
    · rw [hop] at htee
      cases htee
    · rfl

theorem execRefBranch_ok (hop : x.op = if t then .brOnNonNull else .brOnNull)
    (he : execRefBranch t s = .ok e) : EffectOk env is i x s e := by
  have himm := (h.decoded.instr hx).2
  have hw : x.op.bracket = .other := by cases t <;> rw [hop] <;> rfl
  have hset : x.op ≠ .localSet ∧ x.op ≠ .localTee := by cases t <;> exact not_sets (by rw [hop]; rfl)
  simp only [execRefBranch, bind_eq_ok, orFail_eq_ok] at he
  obtain ⟨⟨depth, r⟩, hdepth, ⟨reference, stack⟩, hpop, isNull, hnull, he⟩ := he
  rw [hs] at hdepth
  have hnext : r = x.next := by
    cases t <;> rw [hop] at himm <;> simp only [immediates, skipUleb32, hdepth] at himm <;>
      exact Except.ok.inj himm
  have hstack : s.stack = reference :: stack := stackPop_eq_ok.mp hpop
  rcases ite_cases he with ⟨-, he⟩ | ⟨hne, he⟩
  · cases he
    exact goes_next h hx hnest hw hset ⟨rfl, rfl, rfl⟩ hnext
  · cases he
    refine .branch _ _ ⟨rfl, rfl, rfl⟩ hw hset ?_
    cases t <;> cases isNull
    · exact absurd rfl hne
    · exact .onNull _ r reference stack hop hdepth hstack hnull
    · show Takes env is i x s.stack depth (reference :: stack)
      rw [← hstack]
      exact .onNonNull _ r reference stack hop hdepth hstack hnull
    · exact absurd rfl hne

theorem execOther_ok (hw : x.op.bracket = .other) (hset : x.op ≠ .localSet ∧ x.op ≠ .localTee)
    (he : execOther env o s x.op = .ok e) : EffectOk env is i x s e := by
  obtain ⟨r, hr, he⟩ := bind_eq_ok.mp he
  rw [hs, (h.decoded.instr hx).2] at hr
  cases hr
  cases o with
  | stops status => cases he
  | leaves stack branches =>
    rcases ite_cases he with ⟨-, he⟩ | ⟨-, he⟩
    · cases he
      exact .tail
    · obtain ⟨-, he⟩ := ite_error_pass he
      cases he
      exact goes_next h hx hnest hw hset ⟨rfl, rfl, rfl⟩ rfl
  | raises exception stack =>
    rcases ite_cases he with ⟨-, he⟩ | ⟨-, he⟩
    · cases he
      exact .throws _ _ ⟨rfl, rfl, rfl⟩ hw hset
    · cases he

/-- **What an instruction of the body asks for** in a state that stands at it. -/
theorem execEffect_ok (he : execEffect env o s x.op = .ok e) : EffectOk env is i x s e := by
  obtain ⟨start, op, args, next⟩ := x
  have himm := (h.decoded.instr hx).2
  dsimp only at hs he himm
  cases op with
  | structured kind => exact execBlock_ok h hx hs hnest rfl he
  | tryTable => exact execTryTable_ok h hx hs hnest rfl he
  | elseOp => exact execElse_ok h hx hnest rfl he
  | endOp => exact execEnd_ok h hx hs hnest rfl he
  | localSet => exact execLocalSet_ok (t := false) h hx hs hnest rfl he
  | localTee => exact execLocalSet_ok (t := true) h hx hs hnest rfl he
  | localGet =>
    simp only [execEffect, execLocalGet, bind_eq_ok, orFail_eq_ok] at he
    obtain ⟨⟨index, r⟩, hindex, value, -, hpure⟩ := he
    cases hpure
    rw [hs] at hindex
    simp only [immediates, skipUleb32, hindex] at himm
    exact goes_next h hx hnest rfl (not_sets rfl) ⟨rfl, rfl, rfl⟩ (Except.ok.inj himm)
  | br =>
    simp only [execEffect, bind_eq_ok, orFail_eq_ok] at he
    obtain ⟨⟨depth, r⟩, hdepth, hpure⟩ := he
    cases hpure
    rw [hs] at hdepth
    exact .branch _ _ ⟨rfl, rfl, rfl⟩ rfl (not_sets rfl) (.br depth r rfl hdepth)
  | brIf =>
    simp only [execEffect, bind_eq_ok, orFail_eq_ok] at he
    obtain ⟨⟨depth, r⟩, hdepth, ⟨condition, stack⟩, hpop, he⟩ := he
    rw [hs] at hdepth
    simp only [immediates, skipUleb32, hdepth, orFail] at himm
    rcases ite_cases he with ⟨-, he⟩ | ⟨htrue, he⟩
    · cases he
      exact goes_next h hx hnest rfl (not_sets rfl) ⟨rfl, rfl, rfl⟩ (Except.ok.inj himm)
    · cases he
      exact .branch _ _ ⟨rfl, rfl, rfl⟩ rfl (not_sets rfl)
        (.brIf depth r condition stack rfl hdepth (stackPopI32_eq_ok.mp hpop) htrue)
  | brTable =>
    simp only [execEffect, bind_eq_ok] at he
    obtain ⟨p, -, ⟨selector, stack⟩, hpop, ⟨⟨depths, defaultDepth⟩, r⟩, hread, hpure⟩ := he
    cases hpure
    rw [hs] at hread
    refine .branch _ _ ⟨rfl, rfl, rfl⟩ rfl (not_sets rfl) ?_
    rw [selectDepth_eq]
    exact .brTable depths defaultDepth r selector stack rfl hread (stackPopI32_eq_ok.mp hpop)
  | returnOp =>
    cases he
    refine .branch _ _ ⟨rfl, rfl, rfl⟩ rfl (not_sets rfl) ?_
    rw [hnest.length, Nat.add_sub_cancel]
    exact .returns rfl
  | brOnNull => exact execRefBranch_ok (t := false) h hx hs hnest rfl he
  | brOnNonNull => exact execRefBranch_ok (t := true) h hx hs hnest rfl he
  | gc =>
    simp only [execEffect, bind_eq_ok] at he
    obtain ⟨⟨label, r⟩, hread, he⟩ := he
    rw [hs] at hread
    simp only [immediates, hread] at himm
    cases o with
    | stops status | raises exception stack => cases he
    | leaves stack branches =>
      have hgoes : EffectOk env is i ⟨start, .gc, args, next⟩ s
          (.goes { s with reader := r, stack := stack }) :=
        goes_next h hx hnest rfl (not_sets rfl) ⟨rfl, rfl, rfl⟩ (Except.ok.inj himm)
      cases label with
      | none =>
        cases he
        exact hgoes
      | some depth =>
        cases branches with
        | false =>
          cases he
          exact hgoes
        | true =>
          cases he
          exact .branch _ _ ⟨rfl, rfl, rfl⟩ rfl (not_sets rfl) (.cast depth r stack rfl hread)
  | _ => exact execOther_ok (o := o) h hx hs hnest rfl (not_sets rfl) he

omit h hx in
/-- **An instruction that takes a label branches to it.**  For a cast the outcome has to say so. -/
theorem Takes.branches {stack : List Value} (ht : Takes env is i x s.stack d stack)
    (ho : x.op = .gc → o = .leaves stack true) :
    ∃ s₁, execEffect env o s x.op = .ok (.branch s₁ d) ∧ s₁.stack = stack := by
  cases ht with
  | br _ r hop hd => exact ⟨{ s with reader := r }, by simp [execEffect, hop, hs, hd, orFail], rfl⟩
  | brIf _ r condition _ hop hd hstack htrue =>
    refine ⟨{ s with reader := r, stack := stack }, ?_, rfl⟩
    simp only [execEffect, hop, hs, hd, orFail, ok_bind, stackPopI32_eq_ok.mpr hstack, if_neg htrue]
    rfl
  | brTable depths defaultDepth r selector _ hop hread hstack =>
    refine ⟨{ s with reader := r, stack := stack }, ?_, rfl⟩
    obtain ⟨⟨count, r'⟩, hcount, -⟩ := bind_eq_ok.mp hread
    simp only [execEffect, hop, hs, hcount, hread, ok_bind, stackPopI32_eq_ok.mpr hstack]
    rw [selectDepth_eq]
    rfl
  | returns hop =>
    refine ⟨s, ?_, rfl⟩
    simp only [execEffect, hop]
    rw [hnest.length, Nat.add_sub_cancel]
  | onNull _ r reference _ hop hd hstack hnull =>
    refine ⟨{ s with reader := r, stack := stack }, ?_, rfl⟩
    simp only [execEffect, execRefBranch, hop, hs, hd, orFail, ok_bind, stackPop_eq_ok.mpr hstack,
      hnull]
    rfl
  | onNonNull _ r reference rest hop hd hstack hnull =>
    refine ⟨{ s with reader := r, stack := reference :: rest }, ?_, hstack.symm⟩
    simp only [execEffect, execRefBranch, hop, hs, hd, orFail, ok_bind, stackPop_eq_ok.mpr hstack,
      hnull]
    rfl
  | cast _ r _ hop hd =>
    refine ⟨{ s with reader := r, stack := stack }, ?_, rfl⟩
    simp only [execEffect, hop, hs, hd, ok_bind, ho hop]
    rfl

end Effects

/-! ## 2. Exceptions -/

section Exceptions

variable {env : ExecEnv} {is : List Instr} {i d : Nat} {s s' : ExecState} {e : Thrown}

theorem findClause_mem : ∀ {catches : List Catch}, findClause env e catches = .ok (some clause) →
    clause ∈ catches
  | [], h => by cases h
  | c :: catches, h => by
    obtain ⟨b, -, h⟩ := bind_eq_ok.mp h
    cases b with
    | true =>
      cases h
      exact mem_cons_self
    | false => exact mem_cons_of_mem _ (findClause_mem h)

/-- The search finds the innermost frame with a handler that matches, and never the function's. -/
theorem findHandler_spec : ∀ {controls : List ExecFrame} {p : Nat},
    findHandler env e controls = .ok (some (p, frame, clause)) →
    p + 1 < controls.length ∧ controls[p]? = some frame ∧
      findClause env e frame.catches = .ok (some clause) ∧
      ∀ q f, q < p → controls[q]? = some f → findClause env e f.catches = .ok none
  | [], p, h => by cases h
  | g :: controls, p, h => by
    obtain ⟨hne, h⟩ := (ite_cases h).resolve_left fun hf => by cases hf.2
    obtain ⟨found, hfound, h⟩ := bind_eq_ok.mp h
    cases found with
    | some c =>
      cases h
      refine ⟨?_, rfl, hfound, fun q f hq => absurd hq q.not_lt_zero⟩
      have := length_pos_of_ne_nil hne
      simp only [length_cons]
      omega
    | none =>
      obtain ⟨o, ho, h⟩ := bind_eq_ok.mp h
      obtain ⟨⟨p', g', c⟩, rfl, hp⟩ := Option.map_eq_some_iff.mp (Except.ok.inj h)
      cases hp
      obtain ⟨hlt, hget, hclause, hinner⟩ := findHandler_spec ho
      refine ⟨Nat.succ_lt_succ hlt, hget, hclause, ?_⟩
      intro q f hq hf
      cases q with
      | zero =>
        cases hf
        exact hfound
      | succ q => exact hinner q f (Nat.lt_of_succ_lt_succ hq) hf

/-- The search stops at the frame of the handler. -/
theorem findHandler_of : ∀ {p : Nat} {js : List Nat} {controls : List ExecFrame},
    Nest env is js controls → js[p]? = some j → is[j]? = some x →
    findClause env e (x.handlers env.ctx) = .ok (some clause) →
    (∀ q k y, q < p → js[q]? = some k → is[k]? = some y →
      findClause env e (y.handlers env.ctx) = .ok none) → controls[p]? = some frame →
    findHandler env e controls = .ok (some (p, frame, clause))
  | p, k :: js, controls, hnest, hj, hx, hclause, hinner, hframe => by
    obtain ⟨f, outer, rfl, hof, houter⟩ := hnest.pop
    have hne : outer ≠ [] := ne_nil_of_length_pos (by rw [houter.length]; omega)
    obtain ⟨y, kind, r, hy, -⟩ := hof.instr
    cases p with
    | zero =>
      cases hj
      cases hframe
      simp only [findHandler, if_neg hne, hof.catches_eq hx, hclause, ok_bind]
      rfl
    | succ p =>
      have hrest := findHandler_of (p := p) houter hj hx hclause
        (fun q k y hq => hinner (q + 1) k y (Nat.succ_lt_succ hq)) hframe
      simp only [findHandler, if_neg hne, hof.catches_eq hy, hinner 0 k y p.succ_pos rfl hy, hrest,
        ok_bind]
      rfl

variable (hnest : Nest env is (opens (word is) i) s.controls)

include hnest

/-- What the search finds is the handler for the exception. -/
theorem handles_of_findHandler
    (hfound : findHandler env e s.controls = .ok (some (p, frame, clause))) :
    Handles env is i e p clause := by
  obtain ⟨hlt, hget, hclause, hinner⟩ := findHandler_spec hfound
  have hp : p < (opens (word is) i).length := by
    rw [hnest.length] at hlt
    omega
  have hj : (opens (word is) i)[p]? = some ((opens (word is) i).get ⟨p, hp⟩) :=
    getElem?_eq_getElem _
  generalize (opens (word is) i).get ⟨p, hp⟩ = j at hj
  obtain ⟨f, hf, hof, -⟩ := hnest.get hj
  rw [hget] at hf
  cases hf
  obtain ⟨x, kind, r, hx, -⟩ := hof.instr
  rw [hof.catches_eq hx] at hclause
  refine ⟨⟨j, x, hj, hx, ?_, hclause⟩, fun q k y hq hk hy => ?_⟩
  · by_contra hop
    have hnil : x.handlers env.ctx = [] := by
      unfold Instr.handlers
      split
      · exact absurd ‹_› hop
      · rfl
    rw [hnil] at hclause
    cases hclause
  · obtain ⟨g, hg, hog, -⟩ := hnest.get hk
    rw [← hog.catches_eq hy]
    exact hinner q g hq hg

variable (h : BodyFacts env.ctx env.code is env.annotations)

include h

/-- **A handler that matches catches the exception.** -/
theorem caughtBy (hh : Handles env is i e p clause) : CaughtBy env is i s e p clause := by
  obtain ⟨⟨j, x, hj, hx, -, hclause⟩, hinner⟩ := hh
  obtain ⟨frame, hframe, hof, -⟩ := hnest.get hj
  have hfound := findHandler_of hnest hj hx hclause hinner hframe
  have hdrop := opens_drop_succ hj
  have hlt := lt_of_getElem? hj
  -- the validator has seen that the label of the handler exists
  have hdepth := h.handlers hx clause (findClause_mem hclause)
  rw [← hdrop, length_drop] at hdepth
  refine ⟨j, frame, hj, hframe, hof, by rw [← hdrop, getElem?_drop], ?_, ?_⟩
  · have hlabel : ¬ s.controls.length - 1 - p ≤ clause.labelDepth := by
      rw [hnest.length]
      omega
    simp only [handlerLabel, malformedIf, hfound, ok_bind, failIf_neg (decide_eq_false hlabel)]
    by_cases hheight : s.stack.length < frame.height
    · rw [if_pos hheight, failIf_pos (decide_eq_true hheight)]
      rfl
    · rw [if_neg hheight, failIf_neg (decide_eq_false hheight)]
      rfl
  · exact branchesTo h hnest (by omega)

/-- A caught exception branches from a state with the same frames. -/
theorem handlerLabel_spec (hl : handlerLabel env s e = .ok (s', d)) :
    (∃ p clause, Handles env is i e p clause) ∧ SameFrame s s' ∧ BranchesTo env is i s' d := by
  obtain ⟨found, hfound, -⟩ := bind_eq_ok.mp hl
  cases found with
  | none => simp [handlerLabel, hfound, ok_bind] at hl
  | some q =>
    have hh := handles_of_findHandler hnest hfound
    obtain ⟨j, frame, -, -, -, -, heq, hto⟩ := caughtBy hnest h hh
    rw [heq] at hl
    obtain ⟨-, hl⟩ := ite_error_pass hl
    cases hl
    exact ⟨⟨_, _, hh⟩, ⟨rfl, rfl, rfl⟩, hto⟩

end Exceptions

/-! ## 3. Runs -/

section Runs

variable {env : ExecEnv} {is : List Instr} {i d : Nat} {s s' : ExecState} {o : ExecOutcome} {x : Instr}

/-- A branch that stays in the function stands at the target of its label. -/
theorem BranchesTo.lands (h : BranchesTo env is i s d)
    (hstep : execBranch env s d = .ok (.running s')) : ∃ j t, (opens (word is) i)[d]? = some j ∧
    LabelLeads is j t ∧ At env is t s' ∧ s'.written = s.written ∧ s'.locals = s.locals ∧
    s'.controls <:+ s.controls := by
  obtain ⟨frame, -, ⟨-, -, heq⟩ | ⟨j, t, y, hj, -, hleads, hy, hnest, heq⟩⟩ := h
  · rw [heq] at hstep
    cases hr : stackRebase s.stack frame.height frame.labelTypes <;> rw [hr] at hstep <;> cases hstep
  rw [heq] at hstep
  cases hr : stackRebase s.stack frame.height frame.labelTypes with
  | error status =>
    rw [hr] at hstep
    cases hstep
  | ok stack =>
    rw [hr] at hstep
    cases hstep
    exact ⟨j, t, hj, hleads, ⟨⟨y, hy, rfl⟩, hnest⟩, rfl, rfl, drop_suffix _ _⟩

/-- **Since when a frame is there**: a step of the run from `s₀` to `s`, at the structured instruction
of the frame, pushed it onto `outer`, with the height of the operands below the parameters of the
block; and it has not been removed since. -/
def Since (env : ExecEnv) (is : List Instr) (s₀ : ExecState) (frame : ExecFrame)
    (outer : List ExecFrame) (s : ExecState) : Prop :=
  ∃ j s₁ s₂, Relation.ReflTransGen (Steps (execAct env)) s₀ s₁ ∧ At env is j s₁ ∧
    s₁.controls = outer ∧ Steps (execAct env) s₁ s₂ ∧ ExecFrameOf env is j frame ∧
    s₂.controls = frame :: outer ∧
    frame.height + frame.signature.startTypes.length = s₂.stack.length ∧
    Relation.ReflTransGen (fun s t => Steps (execAct env) s t ∧ frame :: outer <:+ t.controls) s₂ s

/-- What the interpreter does from a state of a run from `s₀` that stands at instruction `x`. -/
structure ControlExact (env : ExecEnv) (is : List Instr) (s₀ : ExecState) (i : Nat) (x : Instr)
    (s : ExecState) : Prop where
  instr : is[i]? = some x
  reader : s.reader = x.start
  nest : Nest env is (opens (word is) i) s.controls
  heights : ∀ frame outer, outer ≠ [] → frame :: outer <:+ s.controls →
    Since env is s₀ frame outer s
  step : ∀ o, execStep env o s =
    execEffect env o { s with reader := x.args } x.op >>= execApply env
  framed : ∀ o s', execStep env o s = .ok (.running s') → Framed env is i s s'
  branches : ∀ o s₁ d, execEffect env o { s with reader := x.args } x.op = .ok (.branch s₁ d) →
    Takes env is i x s.stack d s₁.stack ∧ BranchesTo env is i s₁ d
  taken : ∀ o d stack, Takes env is i x s.stack d stack → (x.op = .gc → o = .leaves stack true) →
    ∃ s₁, execEffect env o { s with reader := x.args } x.op = .ok (.branch s₁ d) ∧ s₁.stack = stack
  catches : ∀ o s₁ e, execEffect env o { s with reader := x.args } x.op = .ok (.throws s₁ e) →
    (∀ p clause, Handles env is i e p clause → CaughtBy env is i s₁ e p clause) ∧
    ((∀ p clause, ¬ Handles env is i e p clause) → ∀ r, handlerLabel env s₁ e ≠ .ok r)

variable (h : BodyFacts env.ctx env.code is env.annotations)

include h

theorem execStep_eq (hx : is[i]? = some x) (hs : s.reader = x.start) (o : ExecOutcome) :
    execStep env o s = execEffect env o { s with reader := x.args } x.op >>= execApply env := by
  obtain ⟨⟨byte, hbyte, hop⟩, -⟩ := h.decoded.instr hx
  rw [execStep, hs, hbyte, hop]
  rfl

theorem EffectOk.branchesTo (he : EffectOk env is i x s (.branch s₁ d))
    (hx : is[i]? = some x) (hnest : Nest env is (opens (word is) i) s.controls) :
    Takes env is i x s.stack d s₁.stack ∧ BranchesTo env is i s₁ d := by
  cases he with
  | branch _ _ hsame hw hset htakes =>
    refine ⟨htakes, TurboWasm.branchesTo h (by rw [hsame.controls]; exact hnest) ?_⟩
    rcases htakes.label with hmem | ⟨-, hd⟩
    · exact h.labels hx d hmem
    · exact le_of_eq hd

/-- **One step**: the next state stands at an instruction that the flow of the body allows. -/
theorem At.step (hat : At env is i s) (hx : is[i]? = some x)
    (hstep : execStep env o s = .ok (.running s')) : ∃ i', At env is i' s' ∧ Flow is i i' ∧
    Writes x s s' ∧ Framed env is i s s' := by
  obtain ⟨y, hy, hs⟩ := hat.reader
  rw [hx] at hy
  cases hy
  rw [execStep_eq h hx hs] at hstep
  obtain ⟨e, he, hstep⟩ := bind_eq_ok.mp hstep
  have hok : EffectOk env is i x { s with reader := x.args } e :=
    execEffect_ok h hx rfl hat.nest he
  -- a branch by a plain instruction
  have hjump : ∀ {s₁ : ExecState} {d : Nat}, x.op.bracket = .other →
      (x.op ≠ .localSet ∧ x.op ≠ .localTee) → SameFrame s s₁ → BranchesTo env is i s₁ d →
      execBranch env s₁ d = .ok (.running s') → ∃ i', At env is i' s' ∧ Flow is i i' ∧
      Writes x s s' ∧ Framed env is i s s' := by
    intro s₁ d hw hset hsame hto hbranch
    obtain ⟨j, t, hj, hleads, hat', hwritten, hlocals, hsuffix⟩ := hto.lands hbranch
    have hi : word is i = .other := by rw [word_eq hx, hw]
    exact ⟨t, hat', .label d j t hi hj hleads,
      .keeps hset (hwritten.trans hsame.written) (hlocals.trans hsame.locals),
      .of_suffix (by rw [hi]; decide) (hsame.controls ▸ hsuffix)⟩
  cases e with
  | goes s₁ =>
    cases hstep
    cases hok with
    | goes _ i' hat' hflow hwrites hframed =>
      refine ⟨i', hat', hflow, ?_, hframed.enters, hframed.keeps⟩
      cases hwrites with
      | keeps hop hwritten hlocals => exact .keeps hop hwritten hlocals
      | sets index value r hop hindex hlt hwritten hlocals htee =>
        exact .sets index value r hop hindex hlt hwritten hlocals htee
  | branch s₁ d =>
    have hto := (EffectOk.branchesTo h hok hx hat.nest).2
    cases hok with
    | branch _ _ hsame hw hset htakes =>
      exact hjump hw hset ⟨hsame.controls, hsame.written, hsame.locals⟩ hto hstep
  | throws s₁ e =>
    obtain ⟨⟨s₂, d⟩, hl, hbranch⟩ := bind_eq_ok.mp hstep
    cases hok with
    | throws _ _ hsame hw hset =>
      obtain ⟨-, hcatch, hto⟩ := handlerLabel_spec (hsame.controls ▸ hat.nest) h hl
      exact hjump hw hset ⟨hcatch.controls.trans hsame.controls,
        hcatch.written.trans hsame.written, hcatch.locals.trans hsame.locals⟩ hto hbranch
  | finish s₁ | tail => cases hstep

omit h in
theorem execAct_eq (hact : execAct env s o = some s') : execStep env o s = .ok (.running s') := by
  unfold execAct at hact
  split at hact
  · cases hact
    assumption
  · cases hact

/-- An activation starts at the first instruction with the frame of the function. -/
theorem at_start (hstart : execStart env arguments = .ok s) :
    At env is 0 s := by
  simp only [execStart, bind_eq_ok] at hstart
  obtain ⟨u, -, zeros, -, args, -, hpure⟩ := hstart
  cases hpure
  obtain ⟨n, y, hlength, -⟩ := h.last
  have hx : is[0]? = some (is.get ⟨0, by omega⟩) := getElem?_eq_getElem _
  exact ⟨⟨_, hx, (h.decoded.start hx).symm⟩, [], rfl, .nil⟩

/-- **Every state of every activation stands at an instruction**, with the frames of the structured
instructions around it. -/
theorem at_run (hstart : execStart env arguments = .ok s₀)
    (hrun : Relation.ReflTransGen (Steps (execAct env)) s₀ s) : ∃ i, At env is i s := by
  refine invariant_run (P := fun s => ∃ i, At env is i s) ?_ hrun ⟨0, at_start h hstart⟩
  rintro s t ⟨o, hact⟩ ⟨i, hat⟩
  obtain ⟨x, hx, -⟩ := hat.reader
  obtain ⟨i', hat', -⟩ := hat.step h hx (execAct_eq hact)
  exact ⟨i', hat'⟩

/-- **Heights persist.**  Every frame of every state of an activation, but the function's, is as its
structured instruction has pushed it. -/
theorem since_run (hstart : execStart env arguments = .ok s₀)
    (hrun : Relation.ReflTransGen (Steps (execAct env)) s₀ s) :
    ∀ frame outer, outer ≠ [] → frame :: outer <:+ s.controls → Since env is s₀ frame outer s := by
  induction hrun with
  | refl =>
    intro frame outer hne hsuffix
    have hlen := hsuffix.length_le
    rw [(at_start h hstart).nest.length, length_cons] at hlen
    exact absurd (eq_nil_of_length_eq_zero (by simpa [opens] using hlen)) hne
  | @tail s t hrun hstep ih =>
    intro frame outer hne hsuffix
    obtain ⟨i, hat⟩ := at_run h hstart hrun
    obtain ⟨x, hx, -⟩ := hat.reader
    obtain ⟨o, hact⟩ := hstep
    obtain ⟨i', -, -, -, hframed⟩ := hat.step h hx (execAct_eq hact)
    -- a frame that was there before has one more step to its run
    have hold : frame :: outer <:+ s.controls → Since env is s₀ frame outer t := by
      intro hs
      obtain ⟨j, s₁, s₂, h₁, hj, hc, hpush, hof, hc', hheight, hkept⟩ := ih frame outer hne hs
      exact ⟨j, s₁, s₂, h₁, hj, hc, hpush, hof, hc', hheight, hkept.tail ⟨⟨o, hact⟩, hsuffix⟩⟩
    by_cases hw : word is i = .opener
    · obtain ⟨f, hof, hcontrols, hheight⟩ := hframed.enters hw
      rw [hcontrols] at hsuffix
      rcases suffix_cons_iff.mp hsuffix with heq | hs
      · cases heq
        exact ⟨i, s, t, hrun, hat, rfl, ⟨o, hact⟩, hof, hcontrols, hheight, .refl⟩
      · exact hold hs
    · exact hold (hsuffix.trans (hframed.keeps hw))

theorem At.exact (hat : At env is i s) (hstart : execStart env arguments = .ok s₀)
    (hrun : Relation.ReflTransGen (Steps (execAct env)) s₀ s) :
    ∃ x, ControlExact env is s₀ i x s := by
  obtain ⟨x, hx, hs⟩ := hat.reader
  refine ⟨x, hx, hs, hat.nest, since_run h hstart hrun, execStep_eq h hx hs, ?_, ?_, ?_, ?_⟩
  · intro o s' hstep
    obtain ⟨i', -, -, -, hframed⟩ := hat.step h hx hstep
    exact hframed
  · intro o s₁ d he
    have hok := execEffect_ok (s := { s with reader := x.args }) h hx rfl hat.nest he
    obtain ⟨htakes, hto⟩ := EffectOk.branchesTo h hok hx hat.nest
    exact ⟨htakes, hto⟩
  · intro o d stack ht ho
    exact Takes.branches (s := { s with reader := x.args }) rfl hat.nest ht ho
  · intro o s₁ e he
    have hok := execEffect_ok (s := { s with reader := x.args }) h hx rfl hat.nest he
    cases hok with
    | throws _ _ hsame hw hset =>
      have hnest : Nest env is (opens (word is) i) s₁.controls := by
        rw [hsame.controls]
        exact hat.nest
      refine ⟨fun p clause => caughtBy hnest h, fun hno r hr => ?_⟩
      obtain ⟨⟨p, clause, hh⟩, -⟩ := handlerLabel_spec hnest h hr
      exact hno p clause hh

end Runs

/-! ## 4. An accepted body -/

/-- A context with one function `() -> ()` that waits for its body. -/
def oneFunctionContext : ValidationContext :=
  { ValidationContext.zero 0 with
    types := [{ FuncType.zero with defined := true }]
    functions := [⟨0, false, [], .zero, []⟩] }

end TurboWasm
