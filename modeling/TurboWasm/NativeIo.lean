/-
# The Native-IO bridge

`src/native_io_adapter.c`: a host call submits an operation to a backend and suspends its execution
until the completion of the request comes back.  Between the two, a slot of the bridge routes the
request to the suspended call.  The slot's address is the user data that the backend sees and the
token of the host wait (`src/execution.c`), so a completion finds its slot by its user data and is
checked against the request.

A call that ends early, because its execution is destroyed, abandons its slot, and the completion
releases it later.  If the completion was there first, nothing releases the slot any more:
`bridge_conservation` says that these slots, and no others, are missing once everything is over.
-/
import Mathlib.Data.List.Perm.Subperm
import TurboWasm.Base
import TurboWasm.Lib.Lists
import TurboWasm.Lib.Runs

namespace TurboWasm.NativeIo

open List Option Function

/-! ## 1. Slots and executions -/

/-- The `SALTS_` codes of the bridge; `refused` is what the backend answers to a submission that it
does not accept. -/
inductive Code where
  | ok | enotsup | enobufs | enomem | einval | eproto | enoent | ealready | ebusy
  | refused (status : Nat)
  deriving DecidableEq, Repr

/-- `native_io_request`. -/
structure Request where
  slot : Nat
  generation : Nat
  deriving DecidableEq, Repr

/-- `native_io_completion`; `outcome` stands for its kind and status. -/
structure Completion where
  request : Request
  userData : Nat
  outcome : Nat
  deriving DecidableEq, Repr

/-- `turbowasm_host_wait`. -/
structure HostWait where
  generation : Nat := 0
  operationToken : Nat := 0
  deriving DecidableEq, Repr

/-- `turbowasm_native_io_slot`.  A suspended execution is in one host call, so the call and the
storage for its completion are named by the execution. -/
structure Slot where
  active : Bool := false
  terminal : Bool := false
  abandoned : Bool := false
  call : Option Nat := none
  wait : HostWait := {}
  request : Request := ⟨0, 0⟩
  outCompletion : Option Nat := none
  originalUserData : Nat := 0
  deriving DecidableEq, Repr

/-- Where the slots are in memory. -/
structure SlotArray where
  base : Nat
  size : Nat
  base_pos : 0 < base
  size_pos : 0 < size

/-- The address of slot `i`. -/
def SlotArray.token (L : SlotArray) (i : Nat) : Nat := L.base + i * L.size

/-- A suspended `turbowasm_native_io_await`: its slot, the user data of its operation, and which
await it is. -/
structure Frame where
  slot : Nat
  userData : Nat
  await : Nat
  deriving DecidableEq, Repr

/-- What `turbowasm_execution_impl` has for host waits, and the frame that waits. -/
structure Execution where
  destroying : Bool := false
  hostWaitActive : Bool := false
  hostWaitCompleted : Bool := false
  hostWaitStatus : Code := .ok
  hostWait : HostWait := {}
  nextHostWaitGeneration : Nat := 0
  frame : Option Frame := none
  deriving DecidableEq, Repr

/-- A request that the backend has accepted, with the user data it saw. -/
structure Submitted where
  request : Request
  userData : Nat
  await : Nat
  deriving DecidableEq, Repr

/-- The bridge, its executions and its backend.  The last four fields are a record of the run: the
awaits so far, the completions that the backend made of them, what the awaits that returned
`SALTS_OK` were given, and how many executions were destroyed with a completion delivered. -/
structure World where
  slots : List Slot
  freeIndices : List Nat
  executions : Nat → Execution
  /-- `*out_completion`, by execution. -/
  stored : Nat → Option Completion
  outstanding : List Submitted
  awaits : Nat
  completed : List (Nat × Completion)
  returned : List (Nat × Nat × Option Completion)
  stranded : Nat

variable (L : SlotArray) (w : World) (i : Nat)

/-- `turbowasm_native_io_bridge_init`; the first free index is the top of the stack. -/
def bridgeInit (capacity : Nat) : World where
  slots := List.replicate capacity {}
  freeIndices := List.range capacity
  executions := fun _ => {}
  stored := fun _ => none
  outstanding := []
  awaits := 0
  completed := []
  returned := []
  stranded := 0

/-- `turbowasm_native_io_bridge_destroy`. -/
def bridgeDestroy : Code := if w.freeIndices.length ≠ w.slots.length then .ebusy else .ok

/-! ## 2. The bridge -/

/-- `turbowasm_native_io_reserve`. -/
def reserve : Option (Nat × World) :=
  match w.freeIndices with
  | [] => none
  | i :: rest => some (i, { w with
      freeIndices := rest
      slots := w.slots.set i { active := true } })

/-- `turbowasm_native_io_release`. -/
def release : World :=
  match w.slots[i]? with
  | none => w
  | some s =>
    if !s.active then w
    else { w with
      slots := w.slots.set i {}
      freeIndices := i :: w.freeIndices }

/-- `turbowasm_native_io_slot_from_token`. -/
def slotFromToken (capacity token : Nat) : Option Nat :=
  if capacity = 0 ∨ token = 0 then none
  else if token < L.base then none
  else if (token - L.base) % L.size ≠ 0 then none
  else if capacity ≤ (token - L.base) / L.size then none
  else some ((token - L.base) / L.size)

/-- `turbowasm_native_io_map_runtime_status`, of a failure. -/
def mapRuntimeStatus : Status → Code
  | .unsupported => .enotsup
  | .outOfMemory => .enomem
  | .invalidArgument => .einval
  | _ => .eproto

/-- `turbowasm_execution_host_wait`, until it suspends. -/
def hostWait (x : Execution) (token : Nat) : Result Execution :=
  if x.hostWaitActive then .error .invalidArgument
  else if x.destroying then .error .interrupted
  else
    let next := (x.nextHostWaitGeneration + 1) % 2 ^ 64
    let generation := if next = 0 then 1 else next
    .ok { x with
      nextHostWaitGeneration := generation
      hostWait := ⟨generation, token⟩
      hostWaitActive := true
      hostWaitCompleted := false
      hostWaitStatus := .ok }

/-- The rest of `turbowasm_execution_host_wait`. -/
def hostWaitReturn (x : Execution) : Result Code × Execution :=
  if x.destroying then (.error .interrupted, { x with hostWaitActive := false })
  else if !x.hostWaitActive || !x.hostWaitCompleted then (.error .invalidArgument, x)
  else (.ok x.hostWaitStatus, { x with
    hostWaitActive := false
    hostWaitCompleted := false
    hostWait := {}
    hostWaitStatus := .ok })

/-- `turbowasm_execution_host_wait_complete`, with `SALTS_OK`. -/
def hostWaitComplete (x : Execution) (wait : HostWait) : Result Execution :=
  if !x.hostWaitActive || x.hostWaitCompleted || wait.generation = 0 || wait ≠ x.hostWait then
    .error .invalidArgument
  else .ok { x with hostWaitStatus := .ok, hostWaitCompleted := true }

/-- The slot stays, for a request whose call is gone. -/
def abandon : World :=
  match w.slots[i]? with
  | none => w
  | some s => { w with
      slots := w.slots.set i { s with call := none, outCompletion := none, abandoned := true } }

/-- `turbowasm_native_io_await`, until its host wait suspends; `submit` is the backend's answer. -/
def awaitBegin (e : Nat) (canWait : Bool) (userData : Nat) (submit : Except Nat Request) :
    Option Code × World :=
  if !canWait then (some .enotsup, w)
  else match reserve w with
  | none => (some .enobufs, w)
  | some (i, w) =>
    let slot : Slot := {
      active := true
      call := some e
      outCompletion := some e
      originalUserData := userData }
    let w := { w with
      slots := w.slots.set i slot
      stored := update w.stored e none
      awaits := w.awaits + 1 }
    match submit with
    | .error status => (some (.refused status), release w i)
    | .ok request =>
      let w := { w with
        slots := w.slots.set i { slot with request := request }
        outstanding := ⟨request, L.token i, w.awaits⟩ :: w.outstanding }
      match hostWait (w.executions e) (L.token i) with
      | .error status => (some (mapRuntimeStatus status), abandon w i)
      | .ok x => (none, { w with
          slots := w.slots.set i { slot with request := request, wait := x.hostWait }
          executions := update w.executions e
            { x with frame := some ⟨i, userData, w.awaits⟩ } })

/-- The rest of `turbowasm_native_io_await`, with what its host wait returned. -/
def awaitEnd : Result Code → Code × World
  | .error status => (mapRuntimeStatus status, abandon w i)
  | .ok bridgeStatus =>
    if ((w.slots[i]?).map Slot.terminal).getD false = false ∨ bridgeStatus ≠ .ok then
      (.eproto, abandon w i)
    else (.ok, release w i)

/-- `turbowasm_native_io_bridge_complete`. -/
def bridgeComplete (c : Completion) : Code × World :=
  match slotFromToken L w.slots.length c.userData with
  | none => (.enoent, w)
  | some i =>
    match w.slots[i]? with
    | none => (.enoent, w)
    | some s =>
      if !s.active then (.enoent, w)
      else if s.terminal then (.ealready, w)
      else if s.request ≠ c.request then (.enoent, w)
      else if s.abandoned then
        (.ok, release { w with slots := w.slots.set i { s with terminal := true } } i)
      else match s.call, s.outCompletion with
      | some e, some out =>
        if s.wait.generation = 0 then (.eproto, w)
        else
          let w := { w with
            stored := update w.stored out
              (some { c with userData := s.originalUserData })
            slots := w.slots.set i { s with terminal := true } }
          match hostWaitComplete (w.executions e) s.wait with
          | .error status => (mapRuntimeStatus status, w)
          | .ok x => (.ok, { w with executions := update w.executions e x })
      | _, _ => (.eproto, w)

/-! ## 3. Runs -/

/-- The completion is that of the request. -/
def Submitted.matches (c : Completion) (o : Submitted) : Bool :=
  o.request == c.request && o.userData == c.userData

/-- The backend's part of a completion: a request that it matches is not outstanding any more. -/
def settle (c : Completion) : World :=
  { w with
    outstanding := w.outstanding.filter fun o => !o.matches c
    completed := (w.outstanding.filter (·.matches c)).map (fun o => (o.await, c)) ++ w.completed }

/-- The suspended await of an execution goes on. -/
def wake (e : Nat) (f : Frame) : World :=
  let (result, x) := hostWaitReturn (w.executions e)
  let (code, w) := awaitEnd { w with
    executions := update w.executions e { x with frame := none } } f.slot result
  { w with returned :=
      if code = .ok then (f.await, f.userData, w.stored e) :: w.returned else w.returned }

/-- `turbowasm_execution_destroy`: an await that is suspended goes on, and is told so. -/
def executionDestroy (e : Nat) : World :=
  let x := w.executions e
  let w := { w with executions := update w.executions e { x with destroying := true } }
  match x.frame with
  | none => w
  | some f => { wake w e f with stranded := w.stranded + x.hostWaitCompleted.toNat }

inductive Event where
  | await (execution : Nat) (canWait : Bool) (userData : Nat) (submit : Except Nat Request)
  /-- Any completion, whether the backend made it or not. -/
  | complete (c : Completion)
  /-- `turbowasm_execution_resume` of an execution that is suspended in an await. -/
  | resume (execution : Nat)
  | destroy (execution : Nat)

/-- The world after an event; `none` if the execution is not where the event needs it. -/
def act : Event → Option World
  | .await e canWait userData submit =>
    if (w.executions e).frame = none then some (awaitBegin L w e canWait userData submit).2
    else none
  | .complete c => some (settle (bridgeComplete L w c).2 c)
  | .resume e =>
    match (w.executions e).frame with
    | none => none
    | some f =>
      let x := w.executions e
      if x.hostWaitActive && !x.hostWaitCompleted then some w else some (wake w e f)
  | .destroy e => some (executionDestroy w e)

/-! ## 4. What holds of every slot -/

section Slots

variable {L : SlotArray} {w w' : World} {i : Nat} {s t : Slot}

theorem SlotArray.token_inj (h : L.token i = L.token j) : i = j :=
  Nat.eq_of_mul_eq_mul_right L.size_pos (add_left_cancel h)

theorem slotFromToken_eq_some :
    slotFromToken L capacity token = some i ↔ i < capacity ∧ token = L.token i := by
  have hsize := L.size_pos
  constructor
  · intro h
    obtain ⟨-, h⟩ := ite_none_pass h
    obtain ⟨hbase, h⟩ := ite_none_pass h
    obtain ⟨hmod, h⟩ := ite_none_pass h
    obtain ⟨hlt, h⟩ := ite_none_pass h
    cases h
    rw [SlotArray.token, Nat.div_mul_cancel (Nat.dvd_of_mod_eq_zero (not_not.mp hmod))]
    omega
  rintro ⟨hlt, rfl⟩
  have hbase := L.base_pos
  have hsub : L.token i - L.base = i * L.size := Nat.add_sub_cancel_left _ _
  have hne : ¬ (capacity = 0 ∨ L.token i = 0) := by
    simp only [SlotArray.token]
    omega
  have hle : L.base ≤ L.token i := Nat.le_add_right _ _
  rw [slotFromToken, if_neg hne, if_neg (not_lt.mpr hle), hsub, Nat.mul_mod_left,
    Nat.mul_div_cancel _ hsize]
  simp [hlt]

/-- The outstanding requests with the user data of slot `i`. -/
def World.asked (L : SlotArray) (w : World) (i : Nat) : List Submitted :=
  w.outstanding.filter (·.userData == L.token i)

/-- What holds of slot `i`: the request of an active slot is outstanding until it is terminal, and
one that is not abandoned has an await. -/
structure SlotOk (L : SlotArray) (w : World) (i : Nat) (s : Slot) : Prop where
  clear : s.active = false → s.terminal = false
  asked : if s.active && !s.terminal then ∃ o, w.asked L i = [o] ∧ o.request = s.request
    else w.asked L i = []
  held : s.active → s.abandoned = false →
    ∃ e f, (w.executions e).frame = some f ∧ f.slot = i

/-- What holds of an await that is suspended: it has its slot, and once that is terminal its
completion. -/
structure FrameOk (L : SlotArray) (w : World) (e : Nat) (f : Frame) (s : Slot) : Prop where
  slot : w.slots[f.slot]? = some s
  active : s.active
  kept : s.abandoned = false
  call : s.call = some e
  out : s.outCompletion = some e
  user : s.originalUserData = f.userData
  wait : s.wait = (w.executions e).hostWait
  issued : s.wait.generation ≠ 0
  live : (w.executions e).destroying = false
  waiting : (w.executions e).hostWaitActive
  status : (w.executions e).hostWaitStatus = .ok
  completed : (w.executions e).hostWaitCompleted = s.terminal
  await : ∀ o ∈ w.asked L f.slot, o.await = f.await
  stored : s.terminal → ∃ c, (f.await, c) ∈ w.completed ∧
    w.stored e = some { c with userData := f.userData }

/-- What holds between any two events. -/
structure BridgeOk (L : SlotArray) (w : World) : Prop where
  slot : ∀ (i : Nat) (s : Slot), w.slots[i]? = some s → SlotOk L w i s
  frame : ∀ e f, (w.executions e).frame = some f → ∃ s, FrameOk L w e f s
  nodup : w.freeIndices.Nodup
  free : ∀ i, i ∈ w.freeIndices ↔ ∃ s, w.slots[i]? = some s ∧ s.active = false
  tokens : ∀ o ∈ w.outstanding, ∃ i < w.slots.length, o.userData = L.token i
  stranded : w.stranded = w.slots.countP fun s => s.terminal && s.abandoned
  returned : ∀ r ∈ w.returned, ∃ c, (r.1, c) ∈ w.completed ∧
    r.2.2 = some { c with userData := r.2.1 }

/-- One slot changes, with the await that has it. -/
theorem BridgeOk.update (h : BridgeOk L w) (hs : w.slots[i]? = some s)
    (hslots : w'.slots = w.slots.set i t) (hnodup : w'.freeIndices.Nodup)
    (hfree : ∀ j, j ∈ w'.freeIndices ↔ if j = i then t.active = false else j ∈ w.freeIndices)
    (hslot : SlotOk L w' i t)
    (hstranded : w'.stranded + (s.terminal && s.abandoned).toNat =
      w.stranded + (t.terminal && t.abandoned).toNat)
    (hexec : ∀ e, w'.executions e = w.executions e ∧ w'.stored e = w.stored e ∨
      ∀ f, (w.executions e).frame = some f ∨ (w'.executions e).frame = some f → f.slot = i)
    (hframe : ∀ e f, (w'.executions e).frame = some f → f.slot = i → FrameOk L w' e f t)
    (hasked : ∀ j, j ≠ i → w'.asked L j = w.asked L j := by exact fun _ _ => rfl)
    (htokens : ∀ o ∈ w'.outstanding, o ∈ w.outstanding ∨ o.userData = L.token i := by
      exact fun _ ho => .inl ho)
    (hcompleted : ∀ p ∈ w.completed, p ∈ w'.completed := by exact fun _ hp => hp)
    (hreturned : ∀ r ∈ w'.returned, r ∈ w.returned ∨ ∃ c, (r.1, c) ∈ w'.completed ∧
      r.2.2 = some { c with userData := r.2.1 } := by exact fun _ hr => .inl hr) :
    BridgeOk L w' := by
  have hget : ∀ j, w'.slots[j]? = if j = i then some t else w.slots[j]? := fun j => by
    rw [hslots, Lib.getElem?_set_of hs]
  refine ⟨fun j u ht => ?_, fun e f hf => ?_, hnodup, fun j => ?_, fun o ho => ?_, ?_,
    fun r hr => ?_⟩
  · rw [hget] at ht
    by_cases hji : j = i
    · rw [if_pos hji] at ht
      cases ht
      exact hji ▸ hslot
    rw [if_neg hji] at ht
    obtain ⟨hclear, hq, hheld⟩ := h.slot j u ht
    refine ⟨hclear, by rwa [hasked j hji], fun ha hb => ?_⟩
    obtain ⟨e, f, hf, hj⟩ := hheld ha hb
    rcases hexec e with ⟨heq, -⟩ | hat
    · exact ⟨e, f, heq ▸ hf, hj⟩
    · exact absurd (hj.symm.trans (hat f (.inl hf))) hji
  · by_cases hi : f.slot = i
    · exact ⟨t, hframe e f hf hi⟩
    rcases hexec e with ⟨heq, hst⟩ | hat
    · obtain ⟨u, ht⟩ := h.frame e f (heq ▸ hf)
      exact ⟨u, { ht with
        slot := by rw [hget, if_neg hi, ht.slot]
        wait := heq ▸ ht.wait
        live := heq ▸ ht.live
        waiting := heq ▸ ht.waiting
        status := heq ▸ ht.status
        completed := heq ▸ ht.completed
        await := by rw [hasked _ hi]; exact ht.await
        stored := fun hterm => by
          obtain ⟨c, hc, heq⟩ := ht.stored hterm
          exact ⟨c, hcompleted _ hc, hst.trans heq⟩ }⟩
    · exact absurd (hat f (.inr hf)) hi
  · rw [hfree, hget]
    split
    · simp
    · exact h.free j
  · rw [hslots, length_set]
    rcases htokens o ho with ho | ho
    · exact h.tokens o ho
    · exact ⟨i, (lt_of_getElem? hs), ho⟩
  · have hcount := Lib.countP_set_of (fun s : Slot => s.terminal && s.abandoned) (b := t) hs
    have hnat : ∀ b : Bool, (if b then 1 else 0) = b.toNat := fun b => by cases b <;> rfl
    have hold := h.stranded
    simp only [hnat] at hcount
    rw [hslots]
    omega
  · rcases hreturned r hr with hr | hr
    · obtain ⟨c, hc, heq⟩ := h.returned r hr
      exact ⟨c, hcompleted _ hc, heq⟩
    · exact hr

/-- A slot in use is not free. -/
theorem BridgeOk.not_free (h : BridgeOk L w) (hs : w.slots[i]? = some s) (ha : s.active) :
    i ∉ w.freeIndices := by
  rw [h.free, hs]
  rintro ⟨t, ht, hno⟩
  cases ht
  exact absurd hno (by simp [ha])

/-- The await with a slot is that of its call. -/
theorem BridgeOk.holder (h : BridgeOk L w) {f : Frame} (hs : w.slots[f.slot]? = some s)
    (hf : (w.executions e).frame = some f) : FrameOk L w e f s := by
  obtain ⟨t, ht⟩ := h.frame e f hf
  cases hs.symm.trans ht.slot
  exact ht

section Executions

variable {e : Nat} (hx : w'.executions = update w.executions e x)

include hx

/-- One execution changes, whose await is with slot `i`. -/
theorem exec_update (hstored : ∀ e', e' ≠ e → w'.stored e' = w.stored e')
    (hold : ∀ f, (w.executions e).frame = some f ∨ x.frame = some f → f.slot = i) (e' : Nat) :
    w'.executions e' = w.executions e' ∧ w'.stored e' = w.stored e' ∨
      ∀ f, (w.executions e').frame = some f ∨ (w'.executions e').frame = some f → f.slot = i := by
  by_cases he : e' = e
  · subst he
    rw [hx, update_self]
    exact .inr hold
  · exact .inl ⟨by rw [hx, update_of_ne he], hstored e' he⟩

/-- No other execution has an await with the slot. -/
theorem frame_update (h : BridgeOk L w) (hs : w.slots[i]? = some s)
    (hcall : s.active → s.abandoned = false → s.call = some e)
    (hnew : ∀ f, x.frame = some f → f.slot = i → FrameOk L w' e f t) (e' : Nat) (f : Frame)
    (hf : (w'.executions e').frame = some f) (hi : f.slot = i) : FrameOk L w' e' f t := by
  by_cases he : e' = e
  · subst he
    rw [hx, update_self] at hf
    exact hnew f hf hi
  · rw [hx, update_of_ne he] at hf
    have ht := h.holder (hi ▸ hs) hf
    exact absurd (some.inj (ht.call.symm.trans (hcall ht.active ht.kept))) he

end Executions

/-! ## 5. Completions -/

theorem settle_unmatched (hno : ∀ o ∈ w.outstanding, o.matches c = false) :
    settle w c = w := by
  have hkeep : w.outstanding.filter (fun o => !o.matches c) = w.outstanding :=
    filter_eq_self.mpr fun o ho => by simp [hno o ho]
  have hnone : w.outstanding.filter (·.matches c) = [] :=
    filter_eq_nil_iff.mpr fun o ho => by simp [hno o ho]
  rw [settle, hkeep, hnone]
  rfl

/-- The completion of the only request of slot `i`. -/
theorem asked_settle {c : Completion} {o : Submitted} (huser : c.userData = L.token i)
    (hq : w.asked L i = [o]) (hm : o.matches c) (j : Nat) :
    (settle w c).asked L j = if j = i then [] else w.asked L j := by
  have hfilter : (settle w c).asked L j = (w.asked L j).filter fun o => !o.matches c := by
    simp [World.asked, settle, Bool.and_comm]
  rw [hfilter]
  split
  · next hji => simp [hji, hq, hm]
  · next hji =>
    refine List.filter_eq_self.mpr fun o ho => ?_
    have hne : L.token j ≠ L.token i := fun heq => hji (SlotArray.token_inj heq)
    simp [Submitted.matches, beq_iff_eq.mp (mem_filter.mp ho).2, huser, hne]

/-- The completion of an outstanding request frees its slot if the call is gone, and otherwise is
stored for the call. -/
theorem hit_ok (h : BridgeOk L w) {c : Completion} {o : Submitted} (hs : w.slots[i]? = some s)
    (ha : s.active) (ht : s.terminal = false) (huser : c.userData = L.token i)
    (hreq : s.request = c.request) (hq : w.asked L i = [o]) (hm : o.matches c) :
    BridgeOk L (settle (bridgeComplete L w c).2 c) := by
  have hlt := lt_of_getElem? hs
  have htok := slotFromToken_eq_some.mpr ⟨hlt, huser⟩
  have hout : o ∈ w.outstanding :=
    (mem_filter.mp (show o ∈ w.asked L i by rw [hq]; exact mem_singleton_self o)).1
  have hasked := asked_settle huser hq hm
  have htokens : ∀ o ∈ (settle w c).outstanding, o ∈ w.outstanding ∨ o.userData = L.token i :=
    fun o ho => .inl (mem_filter.mp ho).1
  cases hb : s.abandoned with
  | true =>
    have heq : (bridgeComplete L w c).2 = { w with
        slots := w.slots.set i {}
        freeIndices := i :: w.freeIndices } := by
      simp [bridgeComplete, htok, hs, ha, ht, hb, hreq, release, getElem?_set_self hlt]
    rw [heq]
    refine h.update hs rfl (nodup_cons.mpr ⟨h.not_free hs ha, h.nodup⟩) (fun j => ?_)
      ⟨fun _ => rfl, (hasked i).trans (if_pos rfl), nofun⟩ (by simp [settle, ht])
      (fun _ => .inl ⟨rfl, rfl⟩) (fun e f hf hi => ?_) (fun j hji => (hasked j).trans (if_neg hji))
      htokens (fun p hp => mem_append_right _ hp)
    · by_cases hji : j = i <;> simp [settle, hji]
    · exact absurd hb (by simp [(h.holder (hi ▸ hs) hf).kept])
  | false =>
    obtain ⟨e, f, hf, rfl⟩ := (h.slot i s hs).held ha hb
    have hw := h.holder hs hf
    have hwait : hostWaitComplete (w.executions e) s.wait =
        .ok { w.executions e with hostWaitCompleted := true } := by
      have hdone := hw.completed.trans ht
      have hissued := hw.issued
      rw [hw.wait] at hissued ⊢
      simp [hostWaitComplete, hw.waiting, hdone, hissued, ← hw.status]
    have heq : (bridgeComplete L w c).2 = { w with
        slots := w.slots.set f.slot { s with terminal := true }
        stored := update w.stored e (some { c with userData := f.userData })
        executions := update w.executions e
          { w.executions e with hostWaitCompleted := true } } := by
      simp [bridgeComplete, htok, hs, ha, ht, hb, hreq, hw.call, hw.out, hw.issued, hwait, hw.user]
    rw [heq]
    have hasked' := (hasked f.slot).trans (if_pos rfl)
    refine h.update (t := { s with terminal := true }) hs rfl h.nodup (fun j => ?_)
      ⟨fun hno => absurd ha (by simp [show s.active = false from hno]), ?_,
        fun _ _ => ⟨e, f, by simp [settle, hf], rfl⟩⟩ (by simp [settle, hb])
      (exec_update rfl (fun _ he => update_of_ne he _ _) fun f' hf' => ?_)
      (frame_update rfl h hs (fun _ _ => hw.call) fun f' hf' _ => ?_)
      (fun j hji => (hasked j).trans (if_neg hji)) htokens fun p hp => mem_append_right _ hp
    · by_cases hji : j = f.slot
      · simp [hji, settle, ha, h.not_free hs ha]
      · simp [settle, hji]
    · rwa [if_neg (by simp)]
    · rw [← some.inj (hf.symm.trans (hf'.elim id id))]
    cases hf.symm.trans hf'
    refine ⟨by simp [settle, hlt], ha, hb, hw.call, hw.out, hw.user, by simp [settle, hw.wait],
      hw.issued, by simp [settle, hw.live], by simp [settle, hw.waiting],
      by simp [settle, hw.status], by simp [settle], fun o' ho' => ?_, fun _ => ⟨c, ?_, ?_⟩⟩
    · have : o' ∈ ([] : List Submitted) := hasked' ▸ ho'
      cases this
    · refine mem_append_left _ (mem_map.mpr ⟨o, mem_filter.mpr ⟨hout, hm⟩, ?_⟩)
      rw [hw.await o (by rw [hq]; exact mem_singleton_self o)]
    · simp [settle]

/-- A completion that matches no outstanding request changes nothing; any other finds the slot of
its request. -/
theorem complete_spec (h : BridgeOk L w) (c : Completion) :
    BridgeOk L (settle (bridgeComplete L w c).2 c) ∧
      ((∀ o ∈ w.outstanding, o.matches c = false) → settle (bridgeComplete L w c).2 c = w) := by
  by_cases hno : ∀ o ∈ w.outstanding, o.matches c = false
  · have heq : (bridgeComplete L w c).2 = w := by
      cases htok : slotFromToken L w.slots.length c.userData with
      | none => rw [bridgeComplete, htok]
      | some i =>
        obtain ⟨hi, huser⟩ := slotFromToken_eq_some.mp htok
        have hs := getElem?_eq_getElem hi
        generalize w.slots[i] = s at hs
        have hq := (h.slot i s hs).asked
        by_cases hlive : s.active ∧ s.terminal = false ∧ s.request = c.request
        · rw [if_pos (by simp [hlive.1, hlive.2.1])] at hq
          obtain ⟨o, hq, hr⟩ := hq
          obtain ⟨ho, hu⟩ := mem_filter.mp (show o ∈ w.asked L i by simp [hq])
          refine absurd (hno o ho) ?_
          simp [Submitted.matches, hr, hlive.2.2, beq_iff_eq.mp hu, huser]
        · simp only [bridgeComplete]
          cases ha : s.active <;> cases ht : s.terminal <;> simp_all
    rw [heq, settle_unmatched hno]
    exact ⟨h, fun _ => rfl⟩
  · simp only [not_forall, Bool.not_eq_false] at hno
    obtain ⟨o, ho, hm⟩ := hno
    refine ⟨?_, fun hno => absurd hm (by simp [hno o ho])⟩
    obtain ⟨i, hi, hu⟩ := h.tokens o ho
    have hs := getElem?_eq_getElem hi
    have hmem : o ∈ w.asked L i := mem_filter.mpr ⟨ho, beq_iff_eq.mpr hu⟩
    have hq := (h.slot i _ hs).asked
    split at hq
    · next hlive =>
      obtain ⟨o', hq, hr⟩ := hq
      obtain rfl := mem_singleton.mp (hq ▸ hmem)
      obtain ⟨ha, ht⟩ := Bool.and_eq_true_iff.mp hlive
      have hm' := hm
      simp only [Submitted.matches, Bool.and_eq_true, beq_iff_eq] at hm'
      exact hit_ok h hs ha (by simpa using ht) (hm'.2.symm.trans hu) (hr.symm.trans hm'.1) hq hm
    · rw [hq] at hmem
      cases hmem

/-! ## 6. Awaits -/

theorem hostWait_ok {x' : Execution} (h : hostWait x token = .ok x') :
    x'.destroying = false ∧ x'.hostWait.generation ≠ 0 ∧ x'.hostWaitActive ∧
      x'.hostWaitStatus = .ok ∧ x'.hostWaitCompleted = false := by
  obtain ⟨-, h⟩ := ite_error_pass h
  obtain ⟨hlive, h⟩ := ite_error_pass h
  cases h
  refine ⟨by simpa using hlive, ?_, rfl, rfl, rfl⟩
  dsimp only
  split
  · decide
  · assumption

section Await

variable {e : Nat} (h : BridgeOk L w)

include h

/-- An await whose completion was delivered returns it, and its slot is free. -/
theorem resume_ok (hf : (w.executions e).frame = some f)
    (hdone : (w.executions e).hostWaitCompleted) : BridgeOk L (wake w e f) := by
  obtain ⟨s, hw⟩ := h.frame e f hf
  have ht : s.terminal := hw.completed.symm.trans hdone
  obtain ⟨x, hxf, heq⟩ : ∃ x : Execution, x.frame = none ∧ wake w e f = { w with
      executions := update w.executions e x
      slots := w.slots.set f.slot {}
      freeIndices := f.slot :: w.freeIndices
      returned := (f.await, f.userData, w.stored e) :: w.returned } := by
    refine ⟨{ (hostWaitReturn (w.executions e)).2 with frame := none }, rfl, ?_⟩
    simp [wake, hostWaitReturn, hw.live, hw.waiting, hdone, hw.status, awaitEnd, hw.slot, ht,
      release, hw.active]
  rw [heq]
  have hq := (h.slot _ s hw.slot).asked
  rw [if_neg (by simp [ht])] at hq
  refine h.update (t := {}) hw.slot rfl
    (nodup_cons.mpr ⟨h.not_free hw.slot hw.active, h.nodup⟩) (fun j => ?_)
    ⟨fun _ => rfl, hq, nofun⟩ (by simp [hw.kept])
    (exec_update rfl (fun _ _ => rfl) fun f' hf' => ?_)
    (frame_update rfl h hw.slot (fun _ _ => hw.call) fun f' hf' => ?_) (fun _ _ => rfl)
    (fun _ ho => .inl ho) (fun _ hp => hp) fun r hr => ?_
  · by_cases hji : j = f.slot <;> simp [hji]
  · simp only [hf, hxf, some.injEq, reduceCtorEq, or_false] at hf'
    rw [hf']
  · simp [hxf] at hf'
  · rcases mem_cons.mp hr with rfl | hr
    · exact .inr (hw.stored ht)
    · exact .inl hr

/-- An await whose execution is destroyed abandons its slot. -/
theorem destroy_ok (e : Nat) : BridgeOk L (executionDestroy w e) := by
  cases hf : (w.executions e).frame with
  | none =>
    have heq : executionDestroy w e = { w with
        executions := update w.executions e
          { w.executions e with destroying := true } } := by
      simp [executionDestroy, hf]
    rw [heq]
    refine ⟨fun i s hs => ⟨(h.slot i s hs).clear, (h.slot i s hs).asked, fun ha hb => ?_⟩,
      fun e' f hf' => ?_, h.nodup, h.free, h.tokens, h.stranded, h.returned⟩
    · obtain ⟨e', f, hf', hi⟩ := (h.slot i s hs).held ha hb
      have he : e' ≠ e := by
        rintro rfl
        simp [hf] at hf'
      exact ⟨e', f, by simpa [he] using hf', hi⟩
    have he : e' ≠ e := by
      rintro rfl
      simp [hf] at hf'
    simp only [update_of_ne he] at hf'
    obtain ⟨s, hw⟩ := h.frame e' f hf'
    exact ⟨s, { hw with
      wait := by simp [he, hw.wait]
      live := by simp [he, hw.live]
      waiting := by simp [he, hw.waiting]
      status := by simp [he, hw.status]
      completed := by simp [he, hw.completed] }⟩
  | some f =>
    obtain ⟨s, hw⟩ := h.frame e f hf
    have heq : executionDestroy w e = { w with
        executions := update w.executions e
          { w.executions e with destroying := true, hostWaitActive := false, frame := none }
        slots := w.slots.set f.slot
          { s with call := none, outCompletion := none, abandoned := true }
        stranded := w.stranded + s.terminal.toNat } := by
      simp [executionDestroy, hf, wake, hostWaitReturn, awaitEnd, hw.slot, abandon,
        mapRuntimeStatus, hw.completed]
    rw [heq]
    refine h.update hw.slot rfl h.nodup (fun j => ?_)
      ⟨(h.slot _ s hw.slot).clear, (h.slot _ s hw.slot).asked, nofun⟩ (by simp [hw.kept])
      (exec_update rfl (fun _ _ => rfl) fun f' hf' => ?_)
      (frame_update rfl h hw.slot (fun _ _ => hw.call) fun f' hf' => nomatch hf')
    · by_cases hji : j = f.slot
      · simp [hji, hw.active, h.not_free hw.slot hw.active]
      · simp [hji]
    · simp only [hf, some.injEq, reduceCtorEq, or_false] at hf'
      rw [hf']

/-- An await that is refused leaves its slot free; one that is accepted waits, or has abandoned its
slot if its execution is being destroyed. -/
theorem await_ok (hf : (w.executions e).frame = none) (canWait : Bool) (userData : Nat)
    (submit : Except Nat Request) : BridgeOk L (awaitBegin L w e canWait userData submit).2 := by
  cases canWait with
  | false => exact h
  | true =>
  cases hfree : w.freeIndices with
  | nil =>
    simp only [awaitBegin, reserve, hfree]
    exact h
  | cons i rest =>
    obtain ⟨s, hs, ha⟩ := (h.free i).mp (by simp [hfree])
    have hi := lt_of_getElem? hs
    obtain ⟨hlast, hrest⟩ := nodup_cons.mp (hfree ▸ h.nodup)
    have ht := (h.slot i s hs).clear ha
    have hq := (h.slot i s hs).asked
    rw [if_neg (by simp [ha])] at hq
    have hcall : s.active → s.abandoned = false → s.call = some e := by simp [ha]
    have hidle : ∀ f, (w.executions e).frame = some f ∨ (w.executions e).frame = some f →
        f.slot = i := by simp [hf]
    have hself : w.executions = update w.executions e (w.executions e) :=
      (update_eq_self e w.executions).symm
    have hstored : ∀ e', e' ≠ e → update w.stored e none e' = w.stored e' :=
      fun e' he => update_of_ne he _ _
    have hfree' : ∀ j, j ∈ rest ↔ if j = i then true = false else j ∈ w.freeIndices := fun j => by
      by_cases hji : j = i
      · simp [hji, hlast]
      · simp [hji, hfree]
    cases submit with
    | error status =>
      simp only [awaitBegin, reserve, hfree, release, Bool.not_true, set_set,
        getElem?_set_self hi]
      refine h.update hs rfl (hfree ▸ h.nodup) (fun j => ?_) ⟨fun _ => rfl, hq, nofun⟩
        (by simp [ht]) (exec_update hself hstored hidle)
        (frame_update hself h hs hcall fun f hf' => by simp [hf] at hf')
      by_cases hji : j = i <;> simp [hji, hfree]
    | ok request =>
      have hasked : ∀ j, World.asked L { w with
          outstanding := ⟨request, L.token i, w.awaits + 1⟩ :: w.outstanding } j =
          if j = i then [⟨request, L.token i, w.awaits + 1⟩] else w.asked L j := by
        intro j
        simp only [World.asked] at hq ⊢
        split
        · next hji => simp [hji, hq]
        · next hji =>
          exact filter_cons_of_neg (by simpa using fun heq => hji (SlotArray.token_inj heq).symm)
      have htokens : ∀ o ∈ (⟨request, L.token i, w.awaits + 1⟩ :: w.outstanding : List Submitted),
          o ∈ w.outstanding ∨ o.userData = L.token i := by
        intro o ho
        rcases mem_cons.mp ho with rfl | ho
        · exact .inr rfl
        · exact .inl ho
      simp only [awaitBegin, reserve, hfree, set_set]
      cases hwait : hostWait (w.executions e) (L.token i) with
      | error status =>
        simp only [abandon, getElem?_set_self hi, set_set]
        exact h.update hs rfl hrest hfree'
          ⟨nofun, ⟨_, (hasked i).trans (if_pos rfl), rfl⟩, nofun⟩ (by simp [ht])
          (exec_update hself hstored hidle)
          (frame_update hself h hs hcall fun f hf' => by simp [hf] at hf')
          (fun j hji => (hasked j).trans (if_neg hji)) htokens
      | ok x =>
        obtain ⟨hlive, hissued, hactive, hstatus, hdone⟩ := hostWait_ok hwait
        refine h.update hs rfl hrest hfree'
          ⟨nofun, ⟨_, (hasked i).trans (if_pos rfl), rfl⟩,
            fun _ _ => ⟨e, ⟨i, userData, w.awaits + 1⟩, by simp, rfl⟩⟩
          (by simp [ht]) (exec_update rfl hstored fun f hf' => ?_)
          (frame_update rfl h hs hcall fun f hf' _ => ?_)
          (fun j hji => (hasked j).trans (if_neg hji)) htokens
        · simp only [hf, reduceCtorEq, some.injEq, false_or] at hf'
          rw [← hf']
        · cases hf'
          refine ⟨by simp [hi], rfl, rfl, rfl, rfl, rfl, by simp, hissued, by simpa, by simpa,
            by simpa, by simpa, fun o ho => ?_, nofun⟩
          have hone := Eq.mp (congrArg (o ∈ ·) ((hasked i).trans (if_pos rfl))) ho
          rw [mem_singleton.mp hone]

/-- **One event.** -/
theorem BridgeOk.act {ev : Event} (hev : act L w ev = some w') : BridgeOk L w' := by
  cases ev with
  | await e canWait userData submit =>
    rcases ite_cases hev with ⟨hf, hev⟩ | ⟨-, hev⟩ <;> cases hev
    exact await_ok h hf canWait userData submit
  | complete c =>
    cases hev
    exact (complete_spec h c).1
  | resume e =>
    simp only [NativeIo.act] at hev
    split at hev
    · cases hev
    · next f hf =>
      rcases ite_cases hev with ⟨-, hev⟩ | ⟨hdone, hev⟩ <;> cases hev
      · exact h
      · obtain ⟨s, hw⟩ := h.frame e f hf
        exact resume_ok h hf (by simpa [hw.waiting] using hdone)
  | destroy e =>
    cases hev
    exact destroy_ok h e

end Await

/-! ## 7. Conservation -/

theorem bridgeOk_init (L : SlotArray) (capacity : Nat) : BridgeOk L (bridgeInit capacity) := by
  refine ⟨fun i s hs => ?_, by simp [bridgeInit], nodup_range, fun i => ?_,
    by simp [bridgeInit], by simp [bridgeInit, countP_replicate], by simp [bridgeInit]⟩
  · rw [eq_of_mem_replicate (mem_of_getElem? hs)]
    exact ⟨fun _ => rfl, rfl, nofun⟩
  · simp [bridgeInit, getElem?_replicate]

theorem bridgeOk_run
    (hrun : Relation.ReflTransGen (Lib.Steps (act L)) (bridgeInit capacity) w) : BridgeOk L w := by
  refine Lib.invariant_run (P := BridgeOk L) ?_ hrun (bridgeOk_init L capacity)
  rintro v v' ⟨ev, hev⟩ hok
  exact hok.act hev

/-- Every slot is free exactly when the free list is full. -/
theorem BridgeOk.all_free (h : BridgeOk L w) :
    w.freeIndices.length = w.slots.length ↔ ∀ s ∈ w.slots, s.active = false := by
  have hsub : w.freeIndices ⊆ .range w.slots.length := fun i hi => by
    obtain ⟨s, hs, -⟩ := (h.free i).mp hi
    exact mem_range.mpr (lt_of_getElem? hs)
  constructor
  · intro hlen s hs
    obtain ⟨i, hi⟩ := getElem?_of_mem hs
    have hperm := (h.nodup.subperm hsub).perm_of_length_le (by simp [hlen])
    obtain ⟨t, ht, ha⟩ := (h.free i).mp
      (hperm.mem_iff.mpr (mem_range.mpr (lt_of_getElem? hi)))
    cases hi.symm.trans ht
    exact ha
  · intro hall
    have hperm := (perm_ext_iff_of_nodup h.nodup nodup_range).mpr fun i =>
      ⟨fun hi => hsub hi, fun hi => (h.free i).mpr ⟨_, getElem?_eq_getElem
        (mem_range.mp hi), hall _ (getElem_mem _)⟩⟩
    simpa using hperm.length_eq

/-- When nothing is going on, the slots in use are the stranded ones. -/
theorem BridgeOk.idle (h : BridgeOk L w) (hout : w.outstanding = [])
    (hframes : ∀ e, (w.executions e).frame = none) :
    (∀ s ∈ w.slots, s.active = false) ↔ w.stranded = 0 := by
  rw [h.stranded, countP_eq_zero]
  refine forall₂_congr fun s hs => ?_
  obtain ⟨i, hi⟩ := getElem?_of_mem hs
  obtain ⟨hclear, hq, hheld⟩ := h.slot i s hi
  cases ha : s.active with
  | false => simp [hclear ha]
  | true =>
    simp only [World.asked] at hq hheld
    simp_all

end Slots

/-- **Conservation of the bridge.**  Over every run, the free list holds the slots that are not
active, each once; an await that returned `SALTS_OK` was given the completion of its own request,
with the user data of its own operation; and a completion that matches no outstanding request
changes nothing.  Once every request is completed and every await has returned, the slots are free
and the bridge can be destroyed, exactly if no execution was destroyed between the delivery of its
completion and its resume. -/
theorem bridge_conservation (L : SlotArray) (capacity : Nat) (w : World)
    (hrun : Relation.ReflTransGen (Lib.Steps (act L)) (bridgeInit capacity) w) :
    w.freeIndices.Nodup ∧ (∀ i, i ∈ w.freeIndices ↔ ∃ s, w.slots[i]? = some s ∧ s.active = false) ∧
    (∀ await userData stored, (await, userData, stored) ∈ w.returned →
      ∃ c, (await, c) ∈ w.completed ∧ stored = some { c with userData := userData }) ∧
    (∀ c, (∀ o ∈ w.outstanding, o.matches c = false) → act L w (.complete c) = some w) ∧
    (w.outstanding = [] → (∀ e, (w.executions e).frame = none) →
      ((∀ s ∈ w.slots, s.active = false) ↔ w.stranded = 0) ∧
      (bridgeDestroy w = .ok ↔ w.stranded = 0)) := by
  have h := bridgeOk_run hrun
  refine ⟨h.nodup, h.free, fun await userData stored hr => h.returned _ hr,
    fun c hno => congrArg some ((complete_spec h c).2 hno), fun hout hframes => ?_⟩
  have hidle := h.idle hout hframes
  rw [← hidle, ← h.all_free]
  simp [bridgeDestroy]

/-- Slots at address 8. -/
def oneSlotArray : SlotArray := ⟨8, 64, by decide, by decide⟩

/-- One await with user data 7, completed and resumed. -/
theorem bridge_conservation_one : ∃ w,
    Relation.ReflTransGen (Lib.Steps (act oneSlotArray)) (bridgeInit 1) w ∧
    w.returned = [(1, 7, some ⟨⟨2, 3⟩, 7, 0⟩)] ∧ w.stranded = 0 ∧ bridgeDestroy w = .ok := by
  obtain ⟨w, hw, hret, hout, hframes, hstranded⟩ :
      ∃ w, [.await 0 true 7 (.ok ⟨2, 3⟩), .complete ⟨⟨2, 3⟩, 8, 0⟩, .resume 0].foldlM
        (act oneSlotArray) (bridgeInit 1) = some w ∧ w.returned = [(1, 7, some ⟨⟨2, 3⟩, 7, 0⟩)] ∧
        w.outstanding = [] ∧ (∀ e, (w.executions e).frame = none) ∧ w.stranded = 0 := by
    refine ⟨_, rfl, rfl, rfl, fun e => ?_, rfl⟩
    cases e <;> rfl
  have hrun := Lib.run_of_actions hw
  exact ⟨w, hrun, hret, hstranded,
    ((bridge_conservation _ 1 w hrun).2.2.2.2 hout hframes).2.mpr hstranded⟩

/-- One await, whose execution is destroyed after its completion was delivered and before it
resumed: its slot is never released. -/
theorem bridge_stranded : ¬ ∀ (L : SlotArray) (capacity : Nat) (w : World),
    Relation.ReflTransGen (Lib.Steps (act L)) (bridgeInit capacity) w → w.outstanding = [] →
    (∀ e, (w.executions e).frame = none) →
    (∀ s ∈ w.slots, s.active = false) ∧ bridgeDestroy w = .ok := by
  intro h
  obtain ⟨w, hw, hout, hframes, hbusy⟩ :
      ∃ w, [.await 0 true 7 (.ok ⟨2, 3⟩), .complete ⟨⟨2, 3⟩, 8, 0⟩, .destroy 0].foldlM
        (act oneSlotArray) (bridgeInit 1) = some w ∧ w.outstanding = [] ∧
        (∀ e, (w.executions e).frame = none) ∧ bridgeDestroy w = .ebusy := by
    refine ⟨_, rfl, rfl, fun e => ?_, rfl⟩
    cases e <;> rfl
  have hok := (h _ 1 w (Lib.run_of_actions hw) hout hframes).2
  rw [hbusy] at hok
  cases hok

end TurboWasm.NativeIo
