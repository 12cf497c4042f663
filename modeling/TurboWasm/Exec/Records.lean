/-
# The invariant of the pass

Over the positions of a body the frames of the validator are the open structured instructions, and
the records are those of the structured instructions seen so far.  `BodyFacts` is what an accepted
body leaves: the records of all its structured instructions, and the facts about `else`, `end`,
labels and handlers that running the body relies on.
-/
import TurboWasm.Exec.Pass

namespace TurboWasm

open Lib List Option

/-! ## 1. The pass at a position -/

section Positions

variable {H : TypeHeap} {ctx : ValidationContext} {env : BodyEnv} {st st' : BodyState}
  {is : List Instr} {i : Nat} {x : Instr}

/-- The state of the pass before instruction `i`. -/
def stateAt (H : TypeHeap) (ctx : ValidationContext) (env : BodyEnv) (st : BodyState)
    (is : List Instr) (i : Nat) : Result BodyState :=
  validateCode H ctx env (is.take i) st

theorem validateCode_append : ∀ (is : List Instr) (st : BodyState),
    validateCode H ctx env (is ++ js) st =
      validateCode H ctx env is st >>= validateCode H ctx env js
  | [], st => rfl
  | x :: is, st => by
    simp only [cons_append, validateCode]
    cases hx : validateInstruction H ctx env st x.args x.op with
    | error e => rfl
    | ok o =>
      cases o with
      | none => rfl
      | some p =>
        exact validateCode_append is p.1

/-- The states of the pass before an instruction and after it. -/
theorem stateAt_succ (hx : is[i]? = some x) (h : stateAt H ctx env st is (i + 1) = .ok st') :
    ∃ st₁ r, stateAt H ctx env st is i = .ok st₁ ∧
      validateInstruction H ctx env st₁ x.args x.op = .ok (some (st', r)) := by
  have htake : is.take (i + 1) = is.take i ++ [x] := by
    rw [take_add_one, hx]
    rfl
  rw [stateAt, htake, validateCode_append] at h
  obtain ⟨st₁, hst₁, h⟩ := bind_eq_ok.mp h
  obtain ⟨o, ho, h⟩ := bind_eq_ok.mp h
  cases o with
  | none => cases h
  | some p =>
    cases h
    exact ⟨st₁, p.2, hst₁, ho⟩

theorem stateAt_le (h : stateAt H ctx env st is n = .ok st') (hi : i ≤ n) :
    ∃ st₁, stateAt H ctx env st is i = .ok st₁ := by
  have htake : is.take n = is.take i ++ (is.take n).drop i := by
    conv_lhs => rw [← take_append_drop i (is.take n)]
    rw [take_take, min_eq_left hi]
  rw [stateAt, htake, validateCode_append] at h
  obtain ⟨st₁, hst₁, -⟩ := bind_eq_ok.mp h
  exact ⟨st₁, hst₁⟩

/-- The end of the function is the only instruction that ends the pass. -/
theorem functionEnd_of (h : validateInstruction H ctx env st r op = .ok none) :
    op = .endOp ∧ st.controls.frames.length = 1 ∧ validateFunctionEnd H ctx env st r = .ok () := by
  have hsome : ∀ {x : Result (BodyState × Reader)}, some <$> x ≠ .ok none := by
    intro x hx
    cases x <;> cases hx
  cases op with
  | structured kind | tryTable | elseOp | localSet | localTee => exact absurd h hsome
  | endOp =>
    rcases ite_cases h with ⟨hone, h⟩ | ⟨-, h⟩
    · obtain ⟨u, hu, -⟩ := bind_eq_ok.mp h
      exact ⟨rfl, hone, hu⟩
    · exact absurd h hsome
  | _ =>
    obtain ⟨p, -, hp⟩ := bind_eq_ok.mp h
    cases hp

/-- The loop over the bytes is the pass over the instructions. -/
theorem validateLoop_code : ∀ {fuel : Nat} {st : BodyState} {r : Reader},
    validateLoop H ctx env fuel st r = .ok st' →
    ∃ is x, decodeCode ctx.codeCtx (fuel + 1) r = some (is ++ [x]) ∧
      validateCode H ctx env is st = .ok st' ∧ x.op = .endOp ∧ st'.controls.frames.length = 1
  | fuel + 1, st, r, h => by
    obtain ⟨⟨byte, args⟩, hbyte, h⟩ := bind_eq_ok.mp h
    obtain ⟨o, ho, h⟩ := bind_eq_ok.mp h
    have hbyte := orFail_eq_ok.mp hbyte
    cases o with
    | none =>
      obtain ⟨hop, hone, hend⟩ := functionEnd_of ho
      cases h
      obtain ⟨u, hrest, -⟩ := bind_eq_ok.mp hend
      have hnone : args.u8 = none := by
        have hnil : args.rest = [] := by simpa [Reader.remaining] using hrest
        simp [Reader.u8, hnil]
      refine ⟨[], ⟨r, .endOp, args, args⟩, ?_, rfl, rfl, hone⟩
      rw [decodeCode, hbyte]
      dsimp only
      rw [hop]
      simp [immediates, decodeCode, hnone]
    | some p =>
      obtain ⟨is, x, hdecode, hcode, hx⟩ := validateLoop_code h
      refine ⟨⟨r, opcodeOf byte, args, p.2⟩ :: is, x, ?_, ?_, hx⟩
      · rw [decodeCode, hbyte]
        dsimp only
        rw [immediates_of_validated ho]
        dsimp only
        rw [hdecode]
        rfl
      · simp only [validateCode, ho]
        exact hcode

end Positions

/-! ## 2. Frames and records -/

section Invariant

variable (H : TypeHeap) (ctx : ValidationContext) (env : BodyEnv) (st₀ : BodyState)
  (code : Reader) (is : List Instr) {control : Annotation} {frames : List ControlFrame}

/-- The frame of the structured instruction `j`, before position `i`. -/
structure FrameOf (i j : Nat) (f : ControlFrame) : Prop where
  kind : ∃ x kind, is[j]? = some x ∧ x.op.annotationKind = some kind ∧ f.kind = kind.control
  index : ∃ t, f.annotationIndex = st₀.annotations.length + t ∧
    (openers (word is) i)[t]? = some j
  elseSeen : f.elseSeen = (partner (word is) .middle j i).isSome
  height : ∃ st, stateAt H ctx env st₀ is j = .ok st ∧
    f.initHeight = st.controls.initializedLocals.length

/-- **The invariant of the pass**: a frame for every open structured instruction over the one of the
function, and a record for every structured instruction. -/
structure PassInv (i : Nat) (st : BodyState) : Prop where
  frames : ∃ blocks bottom, st.controls.frames = blocks ++ [bottom] ∧ bottom.kind = .function ∧
    Forall₂ (FrameOf H ctx env st₀ is i) (opens (word is) i) blocks
  records : ∃ new, st.annotations = st₀.annotations ++ new ∧
    Forall₂ (RecordOf ctx.codeCtx code is i) (openers (word is) i) new

variable {H ctx env st₀ code is} {i j : Nat} {f : ControlFrame}  {st st' : BodyState}
  {x : Instr}

theorem FrameOf.succ (h : FrameOf H ctx env st₀ is i j f)
    (hm : word is i = .middle → (opens (word is) i).head? ≠ some j) :
    FrameOf H ctx env st₀ is (i + 1) j f := by
  obtain ⟨t, ht, hj⟩ := h.index
  exact ⟨h.kind, ⟨t, ht, openers_getElem?_succ hj⟩, by rw [partner_skip hm]; exact h.elseSeen,
    h.height⟩

theorem RecordOf.succ (h : RecordOf c code is i j a)
    (hm : word is i = .middle → (opens (word is) i).head? ≠ some j)
    (hc : word is i = .closer → (opens (word is) i).head? ≠ some j) :
    RecordOf c code is (i + 1) j a :=
  ⟨h.instr, by rw [partner_skip hm]; exact h.elseOffset, by rw [partner_skip hc]; exact h.endOffset⟩

section

variable (h : PassInv H ctx env st₀ code is i st)

include h

/-- A letter that is neither a middle nor a closer changes no record. -/
theorem PassInv.skip (hw : word is i = .other) (hframes : st'.controls.frames = st.controls.frames)
    (hrecords : st'.annotations = st.annotations) : PassInv H ctx env st₀ code is (i + 1) st' := by
  obtain ⟨⟨blocks, bottom, hst, hbottom, hblocks⟩, new, hnew, hrec⟩ := h
  refine ⟨⟨blocks, bottom, by rw [hframes, hst], hbottom, ?_⟩, new, by rw [hrecords, hnew], ?_⟩
  · rw [opens_other hw]
    refine hblocks.imp fun j f hj => hj.succ ?_
    intro hm
    rw [hw] at hm
    cases hm
  rw [openers_skip (by rw [hw]; decide)]
  refine hrec.imp fun j a hj => hj.succ ?_ ?_
  all_goals
    intro hm
    rw [hw] at hm
    cases hm

theorem PassInv.enter (hx : is[i]? = some x)
    (hstate : stateAt H ctx env st₀ is i = .ok st) (hstart : env.codeStart = code.cursor)
    (ho : Opens ctx env x st st' kind frame control) :
    PassInv H ctx env st₀ code is (i + 1) st' := by
  obtain ⟨hkind, hframe, hcontrol, -, -, hcontrols, hrecords⟩ := ho
  obtain ⟨⟨blocks, bottom, hst, hbottom, hblocks⟩, new, hnew, hrec⟩ := h
  have hw : word is i = .opener := by
    rw [word_eq hx]
    cases hop : x.op <;> rw [hop] at hkind <;> first | rfl | cases hkind
  have hlen : (openers (word is) i).length = new.length := hrec.length_eq
  have hnot : ∀ {b}, b ≠ .opener → word is i ≠ b := by
    intro b hb heq
    exact hb (heq.symm.trans hw)
  refine ⟨⟨frame :: blocks, bottom, by rw [hcontrols, hst]; rfl, hbottom, ?_⟩, new ++ [control], ?_,
    ?_⟩
  · rw [opens_opener hw]
    refine .cons ⟨⟨x, kind, hx, hkind, hframe.1⟩, ⟨new.length, ?_, ?_⟩, ?_, st, hstate,
      hframe.2.2.2⟩ ?_
    · rw [hframe.2.2.1, hnew, length_append]
    · rw [openers_opener hw, ← hlen]
      simp
    · rw [hframe.2.1, partner_eq_none (le_rfl)]
      rfl
    · exact hblocks.imp fun j f hj => hj.succ fun hm => absurd hm (hnot (by decide))
  · rw [hrecords, hnew, append_assoc]
  rw [openers_opener hw]
  refine rel_append (hrec.imp fun j a hj => hj.succ (fun hm => absurd hm (hnot (by decide)))
    fun hm => absurd hm (hnot (by decide))) (.cons ⟨⟨x, hx, ?_, ?_, ?_, hcontrol.2.2.2.2.2⟩, ?_, ?_⟩ .nil)
  · rw [hkind, hcontrol.1]
  · rw [hcontrol.2.1, hstart]
  · rw [hcontrol.2.2.1, hstart]
  · rw [hcontrol.2.2.2.1, partner_eq_none (le_rfl)]
    rfl
  · rw [hcontrol.2.2.2.2.1, partner_eq_none (le_rfl)]
    rfl

/-- The innermost frame that is not the function's belongs to the innermost open instruction. -/
theorem PassInv.top (htop : st.controls.frames = frame :: frames)
    (hinner : frame.kind ≠ .function ∨ frames ≠ []) :
    ∃ j blocks bottom, frames = blocks ++ [bottom] ∧ bottom.kind = .function ∧
      opens (word is) i = j :: opens (word is) j ∧ FrameOf H ctx env st₀ is i j frame ∧
      Forall₂ (FrameOf H ctx env st₀ is i) (opens (word is) j) blocks := by
  obtain ⟨⟨blocks, bottom, hst, hbottom, hblocks⟩, -⟩ := h
  rw [htop] at hst
  cases hopens : opens (word is) i with
  | nil =>
    rw [hopens, forall₂_nil_left_iff] at hblocks
    subst hblocks
    cases hst
    rcases hinner with hkind | hne
    · exact absurd hbottom hkind
    · exact absurd rfl hne
  | cons j rest =>
    rw [hopens, forall₂_cons_left_iff] at hblocks
    obtain ⟨f, fs, hj, hrest, rfl⟩ := hblocks
    obtain ⟨rfl, rfl⟩ := List.cons.inj hst
    obtain ⟨-, -, rfl⟩ := opens_split (show opens (word is) i = [] ++ j :: rest from hopens)
    exact ⟨j, fs, bottom, rfl, hbottom, rfl, hj, hrest⟩

/-- The record of the innermost open instruction gets one more offset. -/
theorem PassInv.fill {control' : Annotation} (hframe : FrameOf H ctx env st₀ is i j frame)
    (hw : word is i ≠ .opener) (hopens : opens (word is) i = j :: opens (word is) j)
    (hcontrol : st.annotations[frame.annotationIndex]? = some control)
    (hfill : RecordOf ctx.codeCtx code is i j control →
      RecordOf ctx.codeCtx code is (i + 1) j control')
    (hrecords : st'.annotations = st.annotations.set frame.annotationIndex control') :
    ∃ new, st'.annotations = st₀.annotations ++ new ∧
      Forall₂ (RecordOf ctx.codeCtx code is (i + 1)) (openers (word is) (i + 1)) new := by
  obtain ⟨new, hnew, hrec⟩ := h.records
  obtain ⟨t, ht, hj⟩ := hframe.index
  have hget : new[t]? = some control := by
    rw [hnew, ht, getElem?_append_right (Nat.le_add_right _ _), Nat.add_sub_cancel_left]
      at hcontrol
    exact hcontrol
  refine ⟨new.set t control', ?_, ?_⟩
  · rw [hrecords, hnew, ht, set_append_right _ _ (Nat.le_add_right _ _), Nat.add_sub_cancel_left]
  rw [openers_skip hw]
  refine forall₂_set hrec (openers_nodup i) hj (fun k a hk hka => hka.succ ?_ ?_) fun a ha hja => ?_
  · intro _ hhead
    rw [hopens] at hhead
    exact hk (some.inj hhead).symm
  · intro _ hhead
    rw [hopens] at hhead
    exact hk (some.inj hhead).symm
  · rw [hget] at ha
    cases ha
    exact hfill hja

end

/-- The frames outside the innermost open instruction stay as they are. -/
theorem outer_succ (hopens : opens (word is) i = j :: opens (word is) j)
    (h : Forall₂ (FrameOf H ctx env st₀ is i) (opens (word is) j) blocks) :
    Forall₂ (FrameOf H ctx env st₀ is (i + 1)) (opens (word is) j) blocks := by
  refine ((forall₂_and_left _ _).mpr ⟨fun k hk => hk, h⟩).imp fun k f hk => hk.2.succ ?_
  intro _ hhead
  rw [hopens] at hhead
  have hlt := lt_of_mem_opens hk.1
  rw [← some.inj hhead] at hlt
  exact lt_irrefl _ hlt

section

variable (h : PassInv H ctx env st₀ code is i st)

include h

theorem PassInv.split (hx : is[i]? = some x) (hstart : env.codeStart = code.cursor)
    (hs : Splits env x st st' frame frames control) :
    PassInv H ctx env st₀ code is (i + 1) st' := by
  obtain ⟨hop, htop, hframe, hcontrol, hcontrols, hrecords⟩ := hs
  obtain ⟨j, blocks, bottom, hframes, hbottom, hopens, hj, hrest⟩ :=
    h.top htop (.inl (by rw [hframe.1]; decide))
  have hw : word is i = .middle := by rw [word_eq hx, hop]; rfl
  have hpartner : partner (word is) .middle j (i + 1) = some i :=
    partner_here hw (by rw [hopens]; rfl)
  refine ⟨⟨{ frame with elseSeen := true } :: blocks, bottom, ?_, hbottom, ?_⟩, ?_⟩
  · rw [hcontrols, hframes]
    rfl
  · rw [opens_middle hw, hopens]
    obtain ⟨t, ht, ht'⟩ := hj.index
    refine .cons ⟨hj.kind, ⟨t, ht, openers_getElem?_succ ht'⟩, ?_, hj.height⟩ (outer_succ hopens hrest)
    rw [hpartner]
    rfl
  refine h.fill hj (by rw [hw]; decide) hopens hcontrol (fun hrec => ?_) hrecords
  refine ⟨hrec.instr, ?_, ?_⟩
  · rw [hpartner, hstart]
    simp [offsetOf, hx]
  · rw [partner_skip fun hb => by rw [hw] at hb; cases hb]
    exact hrec.endOffset

theorem PassInv.close (hx : is[i]? = some x) (hstart : env.codeStart = code.cursor)
    (hc : Closes env x st st' frame frames control) :
    PassInv H ctx env st₀ code is (i + 1) st' := by
  obtain ⟨hop, htop, hinner, hcontrol, hcontrols, hrecords⟩ := hc
  obtain ⟨j, blocks, bottom, hframes, hbottom, hopens, hj, hrest⟩ := h.top htop (.inr hinner)
  have hw : word is i = .closer := by rw [word_eq hx, hop]; rfl
  refine ⟨⟨blocks, bottom, by rw [hcontrols, hframes], hbottom, ?_⟩, ?_⟩
  · rw [opens_closed hw hopens]
    exact outer_succ hopens hrest
  refine h.fill hj (by rw [hw]; decide) hopens hcontrol (fun hrec => ?_) hrecords
  refine ⟨hrec.instr, ?_, ?_⟩
  · rw [partner_skip fun hb => by rw [hw] at hb; cases hb]
    exact hrec.elseOffset
  · rw [partner_here hw (by rw [hopens]; rfl), hstart]
    simp [offsetOf, hx]

/-- **One instruction keeps the invariant.** -/
theorem PassInv.step (hx : is[i]? = some x)
    (hstate : stateAt H ctx env st₀ is i = .ok st) (hstart : env.codeStart = code.cursor)
    (hstep : PassStep H ctx env x st st') : PassInv H ctx env st₀ code is (i + 1) st' := by
  cases hstep with
  | opens kind frame control ho => exact h.enter hx hstate hstart ho
  | splits frame frames control hs => exact h.split hx hstart hs
  | closes frame frames control hc => exact h.close hx hstart hc
  | sets index hop hindex hlocal hcontrols hrecords =>
    refine h.skip ?_ ?_ hrecords
    · rw [word_eq hx]
      rcases hop with hop | hop <;> rw [hop] <;> rfl
    · rw [hcontrols, ControlStack.initLocal]
      split <;> rfl
  | plain stack hop hset hvalid hcontrols hrecords =>
    exact h.skip (by rw [word_eq hx]; exact hop) (by rw [hcontrols]) hrecords

end

end Invariant

/-! ## 3. The whole body -/

/-- **What an accepted body leaves** for running it: its instructions, the record of each structured
one, and where its `else`, `end`, labels and handlers point. -/
structure BodyFacts (c : CodeCtx) (code : Reader) (is : List Instr) (records : List Annotation) :
    Prop where
  decoded : Decoded c code is
  small : code.remaining ≤ uint32Max
  last : ∃ n x, is.length = n + 1 ∧ is[n]? = some x ∧ x.op = .endOp ∧ opens (word is) n = []
  ends : ∀ {i x}, is[i]? = some x → x.op = .endOp → opens (word is) i = [] → i + 1 = is.length
  records : Forall₂ (RecordOf c code is is.length) (openers (word is) is.length) records
  closed : ∀ {j}, word is j = .opener → ∃ k, partner (word is) .closer j is.length = some k
  splits : ∀ {i x}, is[i]? = some x → x.op = .elseOp → ∃ j y,
    opens (word is) i = j :: opens (word is) j ∧ is[j]? = some y ∧
    y.op.annotationKind = some .ifThen ∧ partner (word is) .middle j is.length = some i
  labels : ∀ {i x}, is[i]? = some x → ∀ depth ∈ labelsOf c x.args x.op,
    depth ≤ (opens (word is) i).length
  handlers : ∀ {j x}, is[j]? = some x → ∀ clause ∈ x.handlers c,
    clause.labelDepth ≤ (opens (word is) j).length

section Whole

variable {H : TypeHeap} {ctx : ValidationContext} {env : BodyEnv} {st₀ stn : BodyState}
  {code : Reader} {is : List Instr} {n : Nat}

/-- The states of a pass that reached position `n`, each with its step and the invariant. -/
structure PassTo (H : TypeHeap) (ctx : ValidationContext) (env : BodyEnv) (st₀ : BodyState)
    (code : Reader) (is : List Instr) (n : Nat) : Prop where
  decoded : Decoded ctx.codeCtx code is
  start : env.codeStart = code.cursor
  bottom : ∃ bottom, st₀.controls.frames = [bottom] ∧ bottom.kind = .function
  reached : ∃ stn, stateAt H ctx env st₀ is n = .ok stn
  length : n ≤ is.length

namespace PassTo

variable (h : PassTo H ctx env st₀ code is n)

include h

theorem state (hi : i ≤ n) : ∃ st, stateAt H ctx env st₀ is i = .ok st := by
  obtain ⟨stn, hn⟩ := h.reached
  exact stateAt_le hn hi

/-- The step between two positions. -/
theorem step (hx : is[i]? = some x) (hst : stateAt H ctx env st₀ is i = .ok st)
    (hst' : stateAt H ctx env st₀ is (i + 1) = .ok st') : PassStep H ctx env x st st' := by
  obtain ⟨st₁, r, hst₁, hvalid⟩ := stateAt_succ hx hst'
  rw [hst] at hst₁
  cases hst₁
  obtain ⟨⟨byte, hbyte, -⟩, himm⟩ := h.decoded.instr hx
  exact passStep_of hbyte himm hvalid

theorem instr (hi : i < n) : ∃ x, is[i]? = some x :=
  ⟨is.get ⟨i, hi.trans_le h.length⟩, getElem?_eq_getElem _⟩

/-- **The invariant holds at every position.** -/
theorem inv : ∀ {i : Nat} {st : BodyState}, i ≤ n → stateAt H ctx env st₀ is i = .ok st →
    PassInv H ctx env st₀ code is i st
  | 0, st, _, hst => by
    cases hst
    obtain ⟨bottom, hframes, hkind⟩ := h.bottom
    exact ⟨⟨[], bottom, hframes, hkind, .nil⟩, [], (append_nil _).symm, .nil⟩
  | i + 1, st, hi, hst => by
    obtain ⟨x, hx⟩ := h.instr hi
    obtain ⟨st₁, hst₁⟩ := h.state (le_of_lt hi)
    exact (inv (le_of_lt hi) hst₁).step hx hst₁ h.start (h.step hx hst₁ hst)

theorem frames_length (hi : i ≤ n) (hst : stateAt H ctx env st₀ is i = .ok st) :
    st.controls.frames.length = (opens (word is) i).length + 1 := by
  obtain ⟨⟨blocks, bottom, hframes, -, hblocks⟩, -⟩ := h.inv hi hst
  rw [hframes, length_append, ← hblocks.length_eq]
  rfl

/-- A step of the pass at each instruction before the end. -/
theorem steps (hi : i < n) (hx : is[i]? = some x) : ∃ st st',
    stateAt H ctx env st₀ is i = .ok st ∧ stateAt H ctx env st₀ is (i + 1) = .ok st' ∧
    PassStep H ctx env x st st' := by
  obtain ⟨st, hst⟩ := h.state (hi.le)
  obtain ⟨st', hst'⟩ := h.state hi
  exact ⟨st, st', hst, hst', h.step hx hst hst'⟩

theorem labels (hi : i < n) (hx : is[i]? = some x) :
    ∀ depth ∈ labelsOf ctx.codeCtx x.args x.op, depth ≤ (opens (word is) i).length := by
  obtain ⟨st, st', hst, -, hstep⟩ := h.steps hi hx
  intro depth hdepth
  cases hstep with
  | plain stack hop hset hvalid hcontrols hrecords =>
    have hlt := labelsOf_valid hvalid depth hdepth
    rw [h.frames_length (hi.le) hst] at hlt
    exact Nat.le_of_lt_succ hlt
  | opens kind frame control ho =>
    have hkind := ho.op
    cases hop : x.op <;> rw [hop] at hkind hdepth <;> first | cases hdepth | cases hkind
  | splits frame frames control h' | closes frame frames control h' =>
    rw [h'.op] at hdepth
    cases hdepth
  | sets index hop =>
    rcases hop with hop | hop <;> rw [hop] at hdepth <;> cases hdepth

theorem handlers (hi : i < n) (hx : is[i]? = some x) :
    ∀ clause ∈ x.handlers ctx.codeCtx, clause.labelDepth ≤ (opens (word is) i).length := by
  intro clause hclause
  obtain ⟨st, st', hst, -, hstep⟩ := h.steps hi hx
  have hnone : x.op ≠ .tryTable → False := by
    intro hop
    have hnil : x.handlers ctx.codeCtx = [] := by
      unfold Instr.handlers
      split
      · exact absurd ‹_› hop
      · rfl
    rw [hnil] at hclause
    cases hclause
  cases hstep with
  | opens kind frame control ho =>
    rw [← ho.record.2.2.2.2.2] at hclause
    have hlt := ho.labels clause hclause
    rw [h.frames_length (hi.le) hst] at hlt
    exact Nat.le_of_lt_succ hlt
  | splits frame frames control h' | closes frame frames control h' =>
    exact (hnone (by rw [h'.op]; decide)).elim
  | sets index hop =>
    exact (hnone (by rcases hop with hop | hop <;> rw [hop] <;> decide)).elim
  | plain stack hop =>
    refine (hnone fun htry => ?_).elim
    rw [htry] at hop
    cases hop

/-- An `else` stands in an `if` that has none yet. -/
theorem split (hi : i < n) (hx : is[i]? = some x) (hop : x.op = .elseOp) : ∃ j y,
    opens (word is) i = j :: opens (word is) j ∧ is[j]? = some y ∧
    y.op.annotationKind = some .ifThen ∧ partner (word is) .middle j i = none := by
  obtain ⟨st, st', hst, -, hstep⟩ := h.steps hi hx
  cases hstep with
  | splits frame frames control hs =>
    obtain ⟨j, -, -, -, -, hopens, hj, -⟩ := (h.inv (hi.le) hst).top hs.top
      (.inl (by rw [hs.arm.1]; decide))
    obtain ⟨y, kind, hy, hkind, hcontrol⟩ := hj.kind
    have hif : kind = .ifThen := by
      rw [hs.arm.1] at hcontrol
      cases kind <;> first | rfl | cases hcontrol
    refine ⟨j, y, hopens, hy, by rw [hkind, hif], ?_⟩
    have hseen := hj.elseSeen
    rw [hs.arm.2] at hseen
    exact isNone_iff_eq_none.mp (by rw [← not_isSome, ← hseen]; rfl)
  | opens kind frame control ho =>
    cases hop ▸ ho.op
  | closes frame frames control hc =>
    cases hop ▸ hc.op
  | plain stack hop' =>
    cases hop ▸ hop'
  | sets index hop' =>
    rw [hop] at hop'
    rcases hop' with hop' | hop' <;> cases hop'

/-- The `else` of an `if` is the only one. -/
theorem split_unique (hi : i < n) (hx : is[i]? = some x) (hop : x.op = .elseOp)
    (hopens : opens (word is) i = j :: opens (word is) j) :
    ∀ {t : Nat}, i < t → t ≤ n → partner (word is) .middle j t = some i
  | t + 1, hit, ht => by
    have hw : word is i = .middle := by rw [word_eq hx, hop]; rfl
    rcases eq_or_lt_of_le (Nat.le_of_lt_succ hit) with rfl | hlt
    · exact partner_here hw (by rw [hopens]; rfl)
    have hprev := split_unique hi hx hop hopens hlt (le_of_lt ht)
    rw [partner_skip ?_, hprev]
    intro hm hhead
    obtain ⟨y, hy⟩ := h.instr ht
    have hyop : y.op = .elseOp := by
      rw [word_eq hy] at hm
      cases hyop : y.op <;> rw [hyop] at hm <;> first | rfl | cases hm
    obtain ⟨j', z, hopens', -, -, hnone⟩ := h.split ht hy hyop
    rw [hopens'] at hhead
    rw [some.inj hhead, hprev] at hnone
    cases hnone

end PassTo

/-- The pass over a body that ends with the end of the function. -/
theorem PassTo.facts (h : PassTo H ctx env st₀ code is n) {x : Instr} (hlength : is.length = n + 1)
    (hx : is[n]? = some x) (hop : x.op = .endOp) (hsmall : code.remaining ≤ uint32Max)
    (hstn : stateAt H ctx env st₀ is n = .ok stn) (hone : stn.controls.frames.length = 1) :
    ∃ new, stn.annotations = st₀.annotations ++ new ∧ BodyFacts ctx.codeCtx code is new := by
  have hopens : opens (word is) n = [] := by
    have hlen := h.frames_length n.le_refl hstn
    rw [hone] at hlen
    exact length_eq_zero_iff.mp (Nat.succ.inj hlen).symm
  have hw : word is n = .closer := by rw [word_eq hx, hop]; rfl
  have hlast : ∀ {i y}, is[i]? = some y → i < n ∨ (i = n ∧ y = x) := by
    intro i y hy
    have hlt := lt_of_getElem? hy
    rcases i.lt_or_ge n with hi | hi
    · exact .inl hi
    · obtain rfl : i = n := by omega
      rw [hx] at hy
      exact .inr ⟨rfl, (some.inj hy).symm⟩
  have hhead : ∀ j, (opens (word is) n).head? ≠ some j := by
    intro j
    rw [hopens, head?_nil]
    exact (some_ne_none j).symm
  obtain ⟨-, new, hnew, hrec⟩ := h.inv n.le_refl hstn
  refine ⟨new, hnew, h.decoded, hsmall, ⟨n, x, hlength, hx, hop, hopens⟩, ?_, ?_, ?_, ?_, ?_, ?_⟩
  · -- an `end` with nothing open would have ended the pass
    intro i y hy hyop hnil
    rcases hlast hy with hi | ⟨rfl, -⟩
    · obtain ⟨st, st', hst, -, hstep⟩ := h.steps hi hy
      have hlen := h.frames_length (hi.le) hst
      rw [hnil] at hlen
      cases hstep with
      | closes frame frames control hc =>
        rw [hc.top] at hlen
        exact absurd (length_eq_zero_iff.mp (Nat.succ.inj hlen)) hc.inner
      | opens kind frame control ho =>
        cases hyop ▸ ho.op
      | splits frame frames control hs =>
        cases hyop ▸ hs.op
      | plain stack hop' =>
        cases hyop ▸ hop'
      | sets index hop' =>
        rw [hyop] at hop'
        rcases hop' with hop' | hop' <;> cases hop'
    · exact hlength.symm
  · rw [hlength, openers_skip (by rw [hw]; decide)]
    exact hrec.imp fun j a hj => hj.succ (fun _ => hhead j) fun _ => hhead j
  · intro j hj
    obtain ⟨y, kind, hy, hkind⟩ := word_opener hj
    have hjn : j < n := by
      rcases hlast hy with hi | ⟨-, rfl⟩
      · exact hi
      · rw [hop] at hkind
        cases hkind
    rcases open_or_closed hj hjn with hmem | hsome
    · rw [hopens] at hmem
      cases hmem
    · rw [hlength]
      exact isSome_iff_exists.mp (partner_isSome_mono n.le_succ hsome)
  · intro i y hy hyop
    rcases hlast hy with hi | ⟨-, rfl⟩
    · obtain ⟨j, z, hopens', hz, hkind, -⟩ := h.split hi hy hyop
      refine ⟨j, z, hopens', hz, hkind, ?_⟩
      rw [hlength, partner_skip fun _ => hhead j]
      exact h.split_unique hi hy hyop hopens' hi n.le_refl
    · rw [hop] at hyop
      cases hyop
  · intro i y hy
    rcases hlast hy with hi | ⟨-, rfl⟩
    · exact h.labels hi hy
    · rw [hop]
      intro depth hdepth
      cases hdepth
  · intro i y hy
    rcases hlast hy with hi | ⟨-, rfl⟩
    · exact h.handlers hi hy
    · simp only [Instr.handlers, hop]
      intro clause hclause
      cases hclause

/-- What a call of the body validator that succeeds went through. -/
structure Accepted (H : TypeHeap) (ctx ctx' : ValidationContext) (functionIndex : Nat)
    (body : Reader) (f f' : ValidationFunction) (type : FuncType) (code : Reader)
    (is : List Instr) (new : List Annotation) (st₀ : BodyState) : Prop where
  before : ctx.functions[functionIndex]? = some f
  codeless : f.code.start = none
  after : ctx'.functions[functionIndex]? = some f'
  codeCtx : ctx'.codeCtx = ctx.codeCtx
  functionType : ctx.functionType functionIndex = some type
  locals : readLocals ctx type body = .ok (f'.locals, code)
  span : f'.code = ⟨some code.cursor, code.remaining⟩
  decodes : instructions ctx.codeCtx code = some is
  annotations : f'.annotations = f.annotations ++ new
  facts : BodyFacts ctx.codeCtx code is new
  initial : st₀.controls.localsInitialized = initialLocals type f'.locals ∧
    st₀.controls.initializedLocals = []
  pass : PassTo H ctx ⟨type, f'.locals, code.cursor⟩ st₀ code is (is.length - 1)

/-- **The records of an accepted body**: validation appends one record for each structured
instruction of the code, in their order. -/
theorem validateFunctionBody_accepted (h : validateFunctionBody H ctx functionIndex body = .ok ctx') :
    ∃ f f' type code is new st₀,
      Accepted H ctx ctx' functionIndex body f f' type code is new st₀ := by
  simp only [validateFunctionBody, bind_eq_ok, orFail_eq_ok] at h
  obtain ⟨type, htype, f, hf, u, -, ⟨locals, code⟩, hlocals, v, hsmall, ⟨stack, controls⟩, hpush, st,
    hloop, w, hnone, hpure⟩ := h
  rw [failIf_eq_ok, Bool.or_eq_false_iff] at hnone
  obtain ⟨is, x, hdecode, hcode, hop, hone⟩ := validateLoop_code hloop
  have hlength : (is ++ [x]).length = is.length + 1 := by simp
  have hstate : stateAt H ctx ⟨type, locals, code.cursor⟩
      ⟨stack, controls, f.annotations, ctx.requiresStore⟩ (is ++ [x]) is.length = .ok st := by
    rwa [stateAt, take_left]
  have hcontrols : ∃ bottom : ControlFrame, bottom.kind = .function ∧
      controls = ⟨[bottom], initialLocals type locals, []⟩ := by
    obtain ⟨bottom, hkind, -, -, -, hc⟩ := controlPush_frame hpush
    exact ⟨bottom, hkind, hc⟩
  obtain ⟨bottom, hkind, rfl⟩ := hcontrols
  have hpass : PassTo H ctx ⟨type, locals, code.cursor⟩
      ⟨stack, ⟨[bottom], initialLocals type locals, []⟩, f.annotations, ctx.requiresStore⟩ code
      (is ++ [x]) is.length :=
    ⟨decoded_of hdecode, rfl, ⟨bottom, rfl, hkind⟩, ⟨st, hstate⟩, by omega⟩
  obtain ⟨new, hnew, hfacts⟩ := hpass.facts hlength (by simp) hop (by simpa using hsmall) hstate hone
  cases hpure
  have hlt := lt_of_getElem? hf
  refine ⟨f, _, type, code, is ++ [x], new,
    ⟨stack, ⟨[bottom], initialLocals type locals, []⟩, f.annotations, ctx.requiresStore⟩, hf,
    not_isSome_iff_eq_none.mp (by rw [hnone.2]; decide), getElem?_set_self hlt, rfl,
    htype, hlocals, rfl, hdecode, hnew, hfacts, ⟨rfl, rfl⟩, ?_⟩
  rwa [hlength]

end Whole

/-! ## 4. Functions that wait for their body -/

/-- A function whose code is not set has no control records. -/
def Pristine (ctx : ValidationContext) : Prop :=
  ∀ f ∈ ctx.functions, f.code.start = none → f.annotations = []

section Pristine

theorem pristine_zero (addr : Nat) : Pristine (.zero addr) := by
  intro f hf
  cases hf

theorem appendFunction_pristine (h : Pristine ctx)
    (hctx : ctx.appendFunction typeIndex imported = some ctx') : Pristine ctx' := by
  rw [ValidationContext.appendFunction, ite_none_left_eq_some] at hctx
  obtain ⟨-, hctx⟩ := hctx
  cases hctx
  intro f hf hcode
  rcases mem_append.mp hf with hf | hf
  · exact h f hf hcode
  · rw [mem_singleton.mp hf]

/-- An accepted body sets the code of its function. -/
theorem validateFunctionBody_pristine (h : Pristine ctx)
    (hv : validateFunctionBody H ctx i body = .ok ctx') : Pristine ctx' := by
  simp only [validateFunctionBody, bind_eq_ok] at hv
  obtain ⟨type, -, f, -, u, -, p, -, u', -, q, -, st, -, u'', -, hpure⟩ := hv
  cases hpure
  intro g hg hcode
  rcases mem_or_eq_of_mem_set hg with hg | rfl
  · exact h g hg hcode
  · cases hcode

/-- **The code section** validates each body in a context without stale records. -/
theorem validateBodies_pristine : ∀ {n i : Nat} {ctx ctx' : ValidationContext} {r r' : Reader},
    Pristine ctx → validateBodies H n i ctx r = .ok (ctx', r') → Pristine ctx'
  | 0, i, ctx, ctx', r, r', h, hv => by
    cases hv
    exact h
  | n + 1, i, ctx, ctx', r, r', h, hv => by
    simp only [validateBodies, bind_eq_ok] at hv
    obtain ⟨p, -, q, -, c, hc, hv⟩ := hv
    exact validateBodies_pristine (validateFunctionBody_pristine h hc) hv

end Pristine

end TurboWasm
