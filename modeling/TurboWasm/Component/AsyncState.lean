/-
# Notification states of subtasks and endpoints

`src/component_async_state.c`: the allocation-free state machines that a subtask and a stream or
future end embed.  A transition that the source refuses with `false` leaves the state alone and is
`none` here.
-/
import TurboWasm.Base

namespace TurboWasm

open Option

/-! ## 1. Subtasks -/

/-- `turbowasm_component_subtask_phase`. -/
inductive SubtaskPhase where
  | starting
  | started
  | returned
  | cancelledBeforeStarted
  | cancelledBeforeReturned
  deriving DecidableEq, Repr

namespace SubtaskPhase

/-- The number of the phase in the Canonical ABI. -/
def code : SubtaskPhase → Nat
  | starting => 0
  | started => 1
  | returned => 2
  | cancelledBeforeStarted => 3
  | cancelledBeforeReturned => 4

/-- `subtask_live`. -/
def live : SubtaskPhase → Bool
  | starting => true
  | started => true
  | _ => false

/-- The moves that the lifecycle allows. -/
inductive Moves : SubtaskPhase → SubtaskPhase → Prop where
  | start : Moves starting started
  | finish : Moves started returned
  | cancelEarly : Moves starting cancelledBeforeStarted
  | cancelLate : Moves started cancelledBeforeReturned

theorem code_lt (p : SubtaskPhase) : p.code < 16 := by
  cases p <;> decide

theorem Moves.live {p q : SubtaskPhase} (h : Moves p q) : p.live := by
  cases h <;> rfl

end SubtaskPhase

/-- `turbowasm_component_subtask_state`. -/
structure SubtaskState where
  phase : SubtaskPhase := .starting
  cancellationRequested : Bool := false
  pendingEvent : Bool := false
  resolveDelivered : Bool := false
  deriving DecidableEq, Repr

namespace SubtaskState

variable (s : SubtaskState)

/-- `turbowasm_component_subtask_start`. -/
def start : Option SubtaskState :=
  if s.phase ≠ .starting then none else some { s with phase := .started, pendingEvent := true }

/-- `turbowasm_component_subtask_request_cancel`. -/
def requestCancel : Option SubtaskState :=
  if s.resolveDelivered ∨ s.cancellationRequested then none
  else some (if s.phase.live then { s with cancellationRequested := true } else s)

/-- `turbowasm_component_subtask_resolve`. -/
def resolve (cancelled : Bool) : Option SubtaskState :=
  if s.phase.live = false ∨ (cancelled ∧ s.cancellationRequested = false) ∨
      (cancelled = false ∧ s.phase ≠ .started) then none
  else
    let phase : SubtaskPhase :=
      if cancelled then
        if s.phase = .starting then .cancelledBeforeStarted else .cancelledBeforeReturned
      else .returned
    some { s with phase, pendingEvent := true }

/-- `turbowasm_component_subtask_take_event`. -/
def takeEvent : Option (SubtaskPhase × SubtaskState) :=
  if s.pendingEvent = false ∨ s.resolveDelivered ∨ s.phase = .starting then none
  else some (s.phase, { s with
    pendingEvent := false
    resolveDelivered := if s.phase.live then s.resolveDelivered else true })

variable {s s' : SubtaskState}

theorem start_spec (h : s.start = some s') :
    s.phase = .starting ∧ s' = { s with phase := .started, pendingEvent := true } := by
  obtain ⟨hp, h⟩ := ite_none_pass h
  exact ⟨not_not.mp hp, (some.inj h).symm⟩

theorem requestCancel_spec (h : s.requestCancel = some s') :
    s.resolveDelivered = false ∧ s.cancellationRequested = false ∧
      s' = { s with cancellationRequested := s.phase.live } := by
  obtain ⟨hp, h⟩ := ite_none_pass h
  have hr : s.resolveDelivered = false := by simpa using fun hh => hp (.inl hh)
  have hc : s.cancellationRequested = false := by simpa using fun hh => hp (.inr hh)
  refine ⟨hr, hc, ?_⟩
  rw [← some.inj h]
  cases hl : s.phase.live with
  | true => simp
  | false => simp [← hc]

/-- A resolution is one of the moves into a terminal phase. -/
theorem resolve_spec {cancelled : Bool} (h : s.resolve cancelled = some s') :
    ∃ phase, SubtaskPhase.Moves s.phase phase ∧ phase.live = false ∧
      (cancelled → s.cancellationRequested) ∧
      (cancelled = false → phase = .returned) ∧ s' = { s with phase, pendingEvent := true } := by
  obtain ⟨hp, h⟩ := ite_none_pass h
  obtain rfl := (some.inj h).symm
  refine ⟨_, ?_, ?_, ?_, ?_, rfl⟩
  · cases cancelled with
    | true =>
      cases hph : s.phase <;> simp [hph, SubtaskPhase.live] at hp ⊢
      · exact .cancelEarly
      · exact .cancelLate
    | false =>
      cases hph : s.phase <;> simp [hph] at hp ⊢
      exact .finish
  · cases cancelled with
    | true =>
      rw [if_pos rfl]
      split <;> rfl
    | false => rfl
  · rintro rfl
    exact Bool.eq_true_of_not_eq_false fun hh => hp (.inr (.inl ⟨rfl, hh⟩))
  · rintro rfl
    rfl

theorem takeEvent_spec {phase : SubtaskPhase} (h : s.takeEvent = some (phase, s')) :
    s.pendingEvent ∧ s.resolveDelivered = false ∧ phase = s.phase ∧ phase ≠ .starting ∧
      s' = { s with pendingEvent := false, resolveDelivered := !phase.live } := by
  obtain ⟨hp, h⟩ := ite_none_pass h
  obtain ⟨rfl, rfl⟩ := h
  have hd : s.resolveDelivered = false := by simpa using fun hh => hp (.inr (.inl hh))
  refine ⟨by simpa using fun hh => hp (.inl hh), hd, rfl, fun hh => hp (.inr (.inr hh)), ?_⟩
  cases hl : s.phase.live <;> simp [hd]

end SubtaskState

/-! ## 2. Stream and future ends -/

/-- `turbowasm_component_endpoint_phase`. -/
inductive EndpointPhase where
  | idle
  | copying
  | cancelling
  | done
  deriving DecidableEq, Repr

/-- `TURBOWASM_COMPONENT_COPY_MAX_LENGTH`. -/
def copyMaxLength : Nat := 0x0fffffff

/-- The codes `TURBOWASM_COMPONENT_COPY_*` of a delivered event. -/
inductive CopyResult where
  | completed
  | dropped
  | cancelled
  deriving DecidableEq, Repr

/-- The number of the result in the Canonical ABI. -/
def CopyResult.code : CopyResult → Nat
  | completed => 0
  | dropped => 1
  | cancelled => 2

/-- `turbowasm_component_endpoint_state`. -/
structure EndpointState where
  phase : EndpointPhase := .idle
  progress : Nat := 0
  future : Bool := false
  peerDropped : Bool := false
  pendingEvent : Bool := false
  deriving DecidableEq, Repr

namespace EndpointState

variable (s : EndpointState)

/-- `turbowasm_component_endpoint_begin_copy`. -/
def beginCopy : Option EndpointState :=
  if s.phase ≠ .idle ∨ (s.pendingEvent ∧ s.peerDropped = false) then none
  else some { s with phase := .copying, progress := 0 }

/-- `turbowasm_component_endpoint_notify`. -/
def notify (progress : Nat) : Option EndpointState :=
  if (s.phase ≠ .copying ∧ s.phase ≠ .cancelling ∧ ¬ (s.phase = .idle ∧ s.peerDropped)) ∨
      copyMaxLength < progress ∨ (s.phase = .idle ∧ progress ≠ 0) ∨
      (s.future ∧ (1 < progress ∨
        (progress = 0 ∧ s.peerDropped = false ∧ s.phase ≠ .cancelling))) ∨
      (s.pendingEvent ∧ progress < s.progress) then none
  else some { s with progress, pendingEvent := true }

/-- `turbowasm_component_endpoint_request_cancel`. -/
def requestCancel (deferAck : Bool) : Option EndpointState :=
  if s.phase ≠ .copying then none
  else
    let s := { s with phase := .cancelling }
    some (if s.pendingEvent = false ∧ deferAck = false then
      { s with progress := 0, pendingEvent := true } else s)

/-- `turbowasm_component_endpoint_peer_dropped`. -/
def dropPeer : Option EndpointState :=
  if s.peerDropped then none
  else
    let s := { s with peerDropped := true }
    some (if s.phase ≠ .done ∧ s.pendingEvent = false then
      { s with progress := 0, pendingEvent := true } else s)

/-- The precedence of the results in `turbowasm_component_endpoint_take_event`, with the phase that
follows. -/
def outcome : Option (CopyResult × EndpointPhase) :=
  if s.future ∧ s.progress = 1 then some (.completed, .done)
  else if s.peerDropped then some (.dropped, .done)
  else if s.phase = .cancelling then some (.cancelled, .idle)
  else if s.future = false ∧ s.phase = .copying then some (.completed, .idle)
  else none

/-- `turbowasm_component_endpoint_take_event`: the result word and the next state. -/
def takeEvent : Option (BitVec 32 × EndpointState) :=
  if s.pendingEvent = false ∨ s.phase = .done then none
  else
    match s.outcome with
    | none => none
    | some (result, phase) =>
      let word := BitVec.ofNat 32 result.code
      some (if s.future then word else word ||| BitVec.ofNat 32 s.progress <<< 4,
        { s with phase, pendingEvent := false })

/-- A pending event belongs to an operation or says that the peer is gone; a future that is still
copying has its element or has lost its peer. -/
def Sound : Prop :=
  s.pendingEvent →
    (s.phase = .copying ∧ (s.future → s.progress = 1 ∨ s.peerDropped)) ∨
      s.phase = .cancelling ∨ (s.phase = .idle ∧ s.peerDropped)

variable {s : EndpointState}

theorem beginCopy_spec (h : s.beginCopy = some s') :
    s.phase = .idle ∧ (s.pendingEvent → s.peerDropped) ∧
      s' = { s with phase := .copying, progress := 0 } := by
  obtain ⟨hn, h⟩ := ite_none_pass h
  refine ⟨not_not.mp fun hh => hn (.inl hh), fun hp => ?_, (some.inj h).symm⟩
  exact Bool.eq_true_of_not_eq_false fun hd => hn (.inr ⟨hp, hd⟩)

theorem notify_spec {progress : Nat} (h : s.notify progress = some s') :
    (s.phase = .copying ∨ s.phase = .cancelling ∨ (s.phase = .idle ∧ s.peerDropped)) ∧
      progress ≤ copyMaxLength ∧ (s.phase = .idle → progress = 0) ∧ (s.future → progress ≤ 1 ∧
        (progress = 0 → s.peerDropped ∨ s.phase = .cancelling)) ∧
      (s.pendingEvent → s.progress ≤ progress) ∧
      s' = { s with progress, pendingEvent := true } := by
  obtain ⟨hn, h⟩ := ite_none_pass h
  simp only [not_or, not_and, not_not, not_lt] at hn
  obtain ⟨hphase, hmax, hidle, hfut, hmono⟩ := hn
  refine ⟨?_, hmax, hidle, fun hf => ?_, hmono, (some.inj h).symm⟩
  · by_cases hc : s.phase = .copying
    · exact .inl hc
    by_cases hk : s.phase = .cancelling
    · exact .inr (.inl hk)
    exact .inr (.inr (not_not.mp fun hh => hphase hc hk fun hi hd => hh ⟨hi, hd⟩))
  · obtain ⟨hle, hzero⟩ := hfut hf
    refine ⟨hle, fun h0 => ?_⟩
    cases hd : s.peerDropped with
    | true => exact .inl rfl
    | false => exact .inr (hzero h0 hd)

theorem requestCancel_spec {deferAck : Bool} (h : s.requestCancel deferAck = some s') :
    s.phase = .copying ∧ s'.phase = .cancelling ∧ s'.future = s.future ∧
      s'.peerDropped = s.peerDropped ∧
      (s.pendingEvent → s'.progress = s.progress ∧ s'.pendingEvent) ∧
      (s.pendingEvent = false → deferAck = false → s'.progress = 0 ∧ s'.pendingEvent) := by
  obtain ⟨hp, h⟩ := ite_none_pass h
  cases h
  refine ⟨not_not.mp hp, ?_, ?_, ?_, fun hpend => ?_, fun hpend hd => ?_⟩
  · simp only
    split <;> rfl
  · simp only
    split <;> rfl
  · simp only
    split <;> rfl
  · simp [hpend]
  · simp [hpend, hd]

theorem dropPeer_spec (h : s.dropPeer = some s') :
    s.peerDropped = false ∧ s'.phase = s.phase ∧ s'.future = s.future ∧ s'.peerDropped ∧
      (s.pendingEvent → s'.progress = s.progress ∧ s'.pendingEvent) ∧
      (s.pendingEvent = false → s.phase ≠ .done → s'.progress = 0 ∧ s'.pendingEvent) ∧
      (s.pendingEvent = false → s.phase = .done → s' = { s with peerDropped := true }) := by
  obtain ⟨hp, h⟩ := ite_none_pass h
  cases h
  refine ⟨by simpa using hp, ?_, ?_, ?_, fun hpend => ?_, fun hpend hd => ?_, fun hpend hd => ?_⟩
  · simp only
    split <;> rfl
  · simp only
    split <;> rfl
  · simp only
    split <;> rfl
  · simp [hpend]
  · simp [hpend, hd]
  · simp [hd]

theorem takeEvent_spec {word : BitVec 32} (h : s.takeEvent = some (word, s')) :
    s.pendingEvent ∧ ∃ result phase, s.outcome = some (result, phase) ∧
      word = (if s.future then BitVec.ofNat 32 result.code
        else BitVec.ofNat 32 result.code ||| BitVec.ofNat 32 s.progress <<< 4) ∧
      s' = { s with phase, pendingEvent := false } := by
  obtain ⟨hn, h⟩ := ite_none_pass h
  split at h
  · cases h
  rename_i result phase hout
  simp only [some.injEq, Prod.mk.injEq] at h
  refine ⟨by simpa using fun hh => hn (.inl hh), result, phase, hout, h.1.symm, h.2.symm⟩

/-- The elements that the pending event will report. -/
def counted (s : EndpointState) : Nat := if s.pendingEvent then s.progress else 0

theorem notify_counted {progress : Nat} (h : s.notify progress = some s') :
    s'.counted = progress ∧ s.counted ≤ progress := by
  obtain ⟨-, -, -, -, hmono, rfl⟩ := notify_spec h
  refine ⟨rfl, ?_⟩
  unfold counted
  split
  · rename_i hp
    exact hmono hp
  · exact Nat.zero_le _

theorem requestCancel_counted (h : s.requestCancel false = some s') : s'.counted = s.counted := by
  obtain ⟨-, -, -, -, hkeep, hnew⟩ := requestCancel_spec h
  unfold counted
  cases hp : s.pendingEvent with
  | true => simp [hkeep hp]
  | false => simp [hnew hp rfl]

theorem dropPeer_counted (h : s.dropPeer = some s') : s'.counted = s.counted := by
  obtain ⟨-, -, -, -, hkeep, hnew, hdone⟩ := dropPeer_spec h
  unfold counted
  cases hp : s.pendingEvent with
  | true => simp [hkeep hp]
  | false =>
    by_cases hd : s.phase = .done
    · simp [hdone hp hd, hp]
    · simp [hnew hp hd]

/-- The word of a stream event is the result with the number of elements above it. -/
theorem takeEvent_stream {word : BitVec 32} (h : s.takeEvent = some (word, s'))
    (hf : s.future = false) (hmax : s.counted ≤ copyMaxLength) : word.toNat / 16 = s.counted := by
  obtain ⟨hp, result, phase, -, rfl, -⟩ := takeEvent_spec h
  have hc : s.counted = s.progress := by simp [counted, hp]
  rw [hc] at hmax ⊢
  unfold copyMaxLength at hmax
  have hcode : result.code < 16 := by cases result <;> decide
  have hlow : (BitVec.ofNat 32 result.code).toNat >>> 4 = 0 := by
    rw [BitVec.toNat_ofNat, Nat.mod_eq_of_lt (by omega), Nat.shiftRight_eq_div_pow]
    exact Nat.div_eq_of_lt hcode
  have hhigh : (BitVec.ofNat 32 s.progress <<< 4).toNat >>> 4 = s.progress := by
    rw [BitVec.toNat_shiftLeft, BitVec.toNat_ofNat, Nat.mod_eq_of_lt (a := s.progress) (by omega),
      Nat.shiftLeft_eq, Nat.mod_eq_of_lt (by omega), Nat.shiftRight_eq_div_pow]
    omega
  simp only [hf, Bool.false_eq_true, if_false]
  rw [BitVec.toNat_or, ← Nat.shiftRight_eq_div_pow _ 4, Nat.shiftRight_or_distrib, hlow, hhigh,
    Nat.zero_or]

/-- A future's event is the completion exactly when the element was moved, and it is the last. -/
theorem takeEvent_future (h : s.takeEvent = some (word, s')) (hf : s.future) :
    (s.counted = 1 → word = 0 ∧ s'.phase = .done) ∧ (s.counted ≠ 1 → word ≠ 0) := by
  obtain ⟨hp, result, phase, hout, rfl, rfl⟩ := takeEvent_spec h
  have hc : s.counted = s.progress := by simp [counted, hp]
  rw [hc]
  unfold outcome at hout
  simp only [hf, true_and, if_true] at hout ⊢
  refine ⟨fun h1 => ?_, fun h1 => ?_⟩
  · rw [if_pos h1] at hout
    cases hout
    exact ⟨rfl, rfl⟩
  rw [if_neg h1] at hout
  split at hout
  · cases hout
    decide
  split at hout
  · cases hout
    decide
  · rw [if_neg (by simp)] at hout
    cases hout

/-- What follows a delivery is the idle or the final phase. -/
theorem outcome_phase {result : CopyResult} {phase : EndpointPhase}
    (h : s.outcome = some (result, phase)) : phase = .idle ∨ phase = .done := by
  unfold outcome at h
  split at h
  · cases h
    exact .inr rfl
  split at h
  · cases h
    exact .inr rfl
  split at h
  · cases h
    exact .inl rfl
  split at h
  · cases h
    exact .inl rfl
  · cases h

namespace Sound

theorem notify {progress : Nat} (h : s.notify progress = some s') : s'.Sound := by
  obtain ⟨hphase, -, -, hfut, -, rfl⟩ := notify_spec h
  intro _
  rcases hphase with hc | hc | hc
  · refine .inl ⟨hc, fun hf => ?_⟩
    obtain ⟨hle, hzero⟩ := hfut hf
    rcases progress.lt_or_ge 1 with hlt | hge
    · rcases hzero (by omega) with hd | hk
      · exact .inr hd
      · rw [hc] at hk
        cases hk
    · exact .inl (hle.antisymm hge)
  · exact .inr (.inl hc)
  · exact .inr (.inr hc)

theorem requestCancel {deferAck : Bool} (h : s.requestCancel deferAck = some s') : s'.Sound := by
  obtain ⟨-, hc, -⟩ := requestCancel_spec h
  exact fun _ => .inr (.inl hc)

theorem dropPeer (hs : s.Sound) (h : s.dropPeer = some s') : s'.Sound := by
  obtain ⟨-, hphase, -, hd, hkeep, -, hdone⟩ := dropPeer_spec h
  intro hp
  rw [hphase, hd]
  cases hph : s.phase with
  | copying => exact .inl ⟨rfl, fun _ => .inr rfl⟩
  | cancelling => exact .inr (.inl rfl)
  | idle => exact .inr (.inr ⟨rfl, rfl⟩)
  | done =>
    -- nothing is pending after the end
    cases hpend : s.pendingEvent with
    | false =>
      rw [hdone hpend hph] at hp
      rw [show ({ s with peerDropped := true } : EndpointState).pendingEvent = s.pendingEvent from rfl,
        hpend] at hp
      cases hp
    | true =>
      rcases hs hpend with hh | hh | hh
      · rw [hph] at hh
        cases hh.1
      · rw [hph] at hh
        cases hh
      · rw [hph] at hh
        cases hh.1

theorem takeEvent {word : BitVec 32} (h : s.takeEvent = some (word, s')) : s'.Sound := by
  obtain ⟨-, result, phase, -, -, rfl⟩ := takeEvent_spec h
  intro hp
  cases hp

/-- **A pending event can be taken.** -/
theorem deliverable (hs : s.Sound) (hp : s.pendingEvent) : s.takeEvent.isSome := by
  have hout : s.outcome.isSome ∧ s.phase ≠ .done := by
    unfold outcome
    rcases hs hp with ⟨hc, hf⟩ | hc | ⟨hc, hd⟩
    · refine ⟨?_, by simp [hc]⟩
      cases hfut : s.future with
      | false => cases hd : s.peerDropped <;> simp [hc]
      | true =>
        rcases hf hfut with h1 | hd
        · simp [h1]
        · by_cases h1 : s.progress = 1 <;> simp [h1, hd]
    · refine ⟨?_, by simp [hc]⟩
      by_cases h1 : s.future ∧ s.progress = 1 <;> cases hd : s.peerDropped <;> simp [h1, hc]
    · refine ⟨?_, by simp [hc]⟩
      by_cases h1 : s.future ∧ s.progress = 1 <;> simp [h1, hd]
  obtain ⟨result, hres⟩ := isSome_iff_exists.mp hout.1
  unfold EndpointState.takeEvent
  rw [if_neg (by simp [hp, hout.2])]
  simp [hres]

end Sound

end EndpointState

end TurboWasm
