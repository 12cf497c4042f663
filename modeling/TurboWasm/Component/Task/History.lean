/-
# The history of a task

The laws of a task are laws of its history (`TaskEvent.Lawful`): a hook is called only while the
caller is not settled, a cancellation is handed over only after it was requested, and the caller is
given up only when no borrow is left.  `ComponentTask.Ok` ties the record to the history, and
`ComponentTask.Keeps` says that an operation kept it and only added to the history.
-/
import TurboWasm.Component.Task.Model
import TurboWasm.Lib.Histories

namespace TurboWasm

open Lib List ComponentTask TaskEvent

/-! ## 1. The laws -/

/-- A successful call of `resolve`. -/
def TaskEvent.isAccepted : TaskEvent → Bool
  | accepted _ => true
  | _ => false

/-- A call of `abandon`. -/
def TaskEvent.isAbandoned : TaskEvent → Bool
  | abandoned _ => true
  | _ => false

/-- The event settles the caller. -/
def TaskEvent.settles (e : TaskEvent) : Bool := e.isAccepted || e.isAbandoned

/-- The caller has been settled. -/
def callerSettled (past : List TaskEvent) : Bool := past.any TaskEvent.settles

/-- What must have happened before an event of a task of this kind. -/
def TaskEvent.Lawful (callback hostImport : Bool) (past : List TaskEvent) : TaskEvent → Prop
  | started exclusive backpressure =>
    (callback → exclusive = none) ∧ (hostImport = false → backpressure = 0)
  | reentered exclusive => exclusive = none
  | requested => requested ∉ past
  | delivered => delivered ∉ past ∧ requested ∈ past ∧ ∀ c, resolved c ∉ past
  | called cancelled => callerSettled past = false ∧ (cancelled → requested ∈ past)
  | refused cancelled => callerSettled past = false ∧ called cancelled ∈ past
  | accepted cancelled => callerSettled past = false ∧ called cancelled ∈ past
  | resolved _ => ∀ c, resolved c ∉ past
  | abandoned borrows => callerSettled past = false ∧ borrows = 0

theorem countP_settles {callback hostImport : Bool} {past : List TaskEvent}
    (h : Always (TaskEvent.Lawful callback hostImport) past) :
    past.countP settles = if callerSettled past then 1 else 0 := by
  induction past with
  | nil => rfl
  | cons e past ih =>
    have ih := ih h.2
    have hl := h.1
    rw [countP_cons, ih]
    cases e with
    | accepted c =>
      simp [callerSettled, show past.any _ = false from hl.1]
    | abandoned n =>
      simp [callerSettled, show past.any _ = false from hl.1]
    | started | reentered | requested | delivered | called | refused | resolved =>
      simp [settles, isAccepted, isAbandoned, callerSettled]

/-- The two ways to settle exclude each other. -/
theorem countP_accepted_add_abandoned (past : List TaskEvent) :
    past.countP isAccepted + past.countP isAbandoned = past.countP settles := by
  induction past with
  | nil => rfl
  | cons e past ih =>
    simp only [countP_cons]
    cases e <;> simp [settles, isAccepted, isAbandoned] <;> omega

/-! ## 2. The record and its history -/

namespace ComponentTask

/-- The phase of a resolved task. -/
def settledPhase (cancelled : Bool) : TaskPhase := if cancelled then .cancelled else .returned

/-- The record agrees with the history. -/
structure Ok (t : ComponentTask) : Prop where
  lawful : Always (TaskEvent.Lawful t.callback t.hostImport) t.history
  /-- The hooks are there until the caller is settled. -/
  settled : callerSettled t.history = (t.hooked && !t.hooks)
  hooks : t.hooks → t.hooked
  accepted : ∀ c, .accepted c ∈ t.history → t.phase.resolved
  phase : ∀ c, .resolved c ∈ t.history ↔ t.phase = settledPhase c
  requested : .requested ∈ t.history ↔ t.cancellationRequested
  delivered : .delivered ∈ t.history ↔ t.cancellationDelivered
  /-- The frame of `resolve_caller`. -/
  resolving : t.resolving →
    t.hooks ∧ t.phase = .started ∧ .called false ∈ t.history
  between : t.betweenCallbacks → t.callback ∧ t.phase ≠ .initial
  /-- Only a task between callbacks waits on a set. -/
  waiting : t.waitingSet ≠ 0 → t.betweenCallbacks

/-- `t'` is a later record of the task `t`. -/
structure Continues (t t' : ComponentTask) : Prop where
  generation : t'.generation = t.generation
  hooked : t'.hooked = t.hooked
  callback : t'.callback = t.callback
  hostImport : t'.hostImport = t.hostImport
  history : t.history <:+ t'.history

/-- What every operation on a task keeps. -/
structure Keeps (t t' : ComponentTask) : Prop where
  ok : t'.Ok
  continues : t.Continues t'

variable {t t'' : ComponentTask}

theorem Continues.refl (t : ComponentTask) : t.Continues t :=
  ⟨rfl, rfl, rfl, rfl, suffix_rfl⟩

theorem Continues.trans (h : t.Continues t') (h' : t'.Continues t'') : t.Continues t'' where
  generation := h'.generation.trans h.generation
  hooked := h'.hooked.trans h.hooked
  callback := h'.callback.trans h.callback
  hostImport := h'.hostImport.trans h.hostImport
  history := h.history.trans h'.history

theorem Keeps.refl (ok : t.Ok) : t.Keeps t := ⟨ok, .refl t⟩

/-- A change of fields that the history says nothing about. -/
theorem Keeps.same (ok : t'.Ok) (h : (t'.generation, t'.hooked, t'.callback, t'.hostImport,
    t'.history) = (t.generation, t.hooked, t.callback, t.hostImport, t.history)) : t.Keeps t' := by
  obtain ⟨hg, hh, hc, hi, hs⟩ := by simpa only [Prod.mk.injEq] using h
  exact ⟨ok, hg, hh, hc, hi, hs ▸ suffix_rfl⟩

theorem Keeps.trans (h : t.Keeps t') (h' : t'.Keeps t'') : t.Keeps t'' :=
  ⟨h'.ok, h.continues.trans h'.continues⟩

/-- A resolved task stays in its phase. -/
theorem Keeps.phase_eq (ok : t.Ok) (ok' : t'.Ok) (h : t.Continues t')
    (hr : t.phase.resolved) : t'.phase = t.phase := by
  have hof : ∀ c, t.phase = settledPhase c → t'.phase = t.phase := by
    intro c hc
    rw [hc]
    exact (ok'.phase c).mp (h.history.mem ((ok.phase c).mpr hc))
  cases hp : t.phase with
  | initial | started => rw [hp] at hr; cases hr
  | returned => exact (hof false hp).trans hp
  | cancelled => exact (hof true hp).trans hp

theorem Ok.not_resolved (ok : t.Ok) (h : t.phase.resolved = false) (c : Bool) :
    .resolved c ∉ t.history := by
  intro hm
  rw [(ok.phase c).mp hm] at h
  cases c <;> cases h

/-- While the hooks are there the caller is not settled. -/
theorem Ok.unsettled (ok : t.Ok) (hh : t.hooks) : callerSettled t.history = false := by
  rw [ok.settled, hh, Bool.not_true, Bool.and_false]

theorem Ok.create {callback hostImport hooked : Bool} {generation : Nat} :
    Ok { callback, hostImport, hooked, hooks := hooked, generation } where
  lawful := trivial
  settled := by cases hooked <;> rfl
  hooks h := h
  accepted _ h := by cases h
  phase c := by cases c <;> simp [settledPhase]
  requested := by simp
  delivered := by simp
  resolving h := by cases h
  between h := by cases h
  waiting h := absurd rfl h

theorem Ok.resolving_cons (ok : t.Ok) (hr : t.resolving) :
    t.hooks ∧ t.phase = .started ∧ .called false ∈ e :: t.history := by
  obtain ⟨hh, hp, hc⟩ := ok.resolving hr
  exact ⟨hh, hp, mem_cons_of_mem _ hc⟩

/-! ## 3. The operations -/

/-- The entry begins. -/
theorem Ok.begin (ok : t.Ok) (hp : t.phase = .initial)
    (hl : (t.callback → exclusive = none) ∧ (t.hostImport = false → backpressure = 0))
    (generation : Nat) : t.Keeps ({ t with
      phase := .started, core := true, coreGeneration := generation }.log
        (.started exclusive backpressure)) := by
  have hnot : t.resolving ≠ true := fun hr => by
    have := (ok.resolving hr).2.1
    rw [hp] at this
    cases this
  refine ⟨{ ok with
    lawful := ⟨hl, ok.lawful⟩
    settled := ok.settled
    accepted := fun c hm => ?_
    phase := fun c => ?_
    requested := by simpa [log] using ok.requested
    delivered := by simpa [log] using ok.delivered
    resolving := fun hr => absurd hr hnot
    between := fun hb => ⟨(ok.between hb).1, by simp [log]⟩ },
    ⟨rfl, rfl, rfl, rfl, suffix_cons _ _⟩⟩
  · simp only [log, mem_cons, reduceCtorEq, false_or] at hm
    have := ok.accepted c hm
    rw [hp] at this
    cases this
  · have hno := ok.not_resolved (by rw [hp]; rfl) c
    simp only [log, mem_cons, hno]
    cases c <;> simp [settledPhase]

/-- The callback is entered. -/
theorem Ok.reenter (ok : t.Ok) (hw : t.waitingSet = 0) (generation : Nat) : t.Keeps ({ t with
      core := true, betweenCallbacks := false, coreGeneration := generation }.log
        (.reentered none)) := by
  refine ⟨{ ok with
    lawful := ⟨rfl, ok.lawful⟩
    accepted := fun c hm => ok.accepted c (by simpa [log] using hm)
    phase := fun c => by simpa [log] using ok.phase c
    requested := by simpa [log] using ok.requested
    delivered := by simpa [log] using ok.delivered
    resolving := ok.resolving_cons
    between := nofun
    waiting := fun hne => absurd hw hne }, ⟨rfl, rfl, rfl, rfl, suffix_cons _ _⟩⟩

/-- A cancellation is requested. -/
theorem Ok.request (ok : t.Ok) (hr : t.cancellationRequested = false) :
    t.Keeps ({ t with cancellationRequested := true }.log .requested) := by
  have hno : .requested ∉ t.history := fun hm => by
    rw [ok.requested.mp hm] at hr
    cases hr
  refine ⟨{ ok with
    lawful := ⟨hno, ok.lawful⟩
    accepted := fun c hm => ok.accepted c (by simpa [log] using hm)
    phase := fun c => by simpa [log] using ok.phase c
    requested := by simp [log]
    delivered := by simpa [log] using ok.delivered
    resolving := ok.resolving_cons }, ⟨rfl, rfl, rfl, rfl, suffix_cons _ _⟩⟩

theorem Ok.deliver (ok : t.Ok) (h : t.cancelPending) : t.Keeps t.deliver := by
  simp only [cancelPending, Bool.and_eq_true, Bool.not_eq_true'] at h
  obtain ⟨⟨hp, hreq⟩, hdel⟩ := h
  have hno : .delivered ∉ t.history := fun hm => by
    rw [ok.delivered.mp hm] at hdel
    cases hdel
  refine ⟨{ ok with
    lawful := ⟨⟨hno, ok.requested.mpr hreq, ok.not_resolved hp⟩, ok.lawful⟩
    accepted := fun c hm => ok.accepted c (by simpa [ComponentTask.deliver, log] using hm)
    phase := fun c => by simpa [ComponentTask.deliver, log] using ok.phase c
    requested := by simpa [ComponentTask.deliver, log] using ok.requested
    delivered := by simp [ComponentTask.deliver, log]
    resolving := ok.resolving_cons }, ⟨rfl, rfl, rfl, rfl, suffix_cons _ _⟩⟩

/-- The `resolve` hook is called. -/
theorem Ok.call (ok : t.Ok) (hh : t.hooks) (cancelled : Bool)
    (hc : cancelled → t.cancellationRequested) : t.Keeps (t.log (.called cancelled)) := by
  have hset := ok.unsettled hh
  refine ⟨{ ok with
    lawful := ⟨⟨hset, fun h => ok.requested.mpr (hc h)⟩, ok.lawful⟩
    accepted := fun c hm => ok.accepted c (by simpa [log] using hm)
    phase := fun c => by simpa [log] using ok.phase c
    requested := by simpa [log] using ok.requested
    delivered := by simpa [log] using ok.delivered
    resolving := ok.resolving_cons }, ⟨rfl, rfl, rfl, rfl, suffix_cons _ _⟩⟩

/-- The phase of a task without hooks, or whose hook has just succeeded. -/
theorem settle_ok (cancelled : Bool)
    (hl : Always (TaskEvent.Lawful t.callback t.hostImport) t.history)
    (hset : callerSettled t.history = (t.hooked && !t.hooks))
    (hh : t.hooks → t.hooked) (hno : ∀ c, .resolved c ∉ t.history)
    (hreq : .requested ∈ t.history ↔ t.cancellationRequested)
    (hdel : .delivered ∈ t.history ↔ t.cancellationDelivered)
    (hr : t.resolving = false) (hb : t.betweenCallbacks → t.callback)
    (hw : t.waitingSet ≠ 0 → t.betweenCallbacks) : (t.settle cancelled).Ok where
  lawful := ⟨hno, hl⟩
  settled := hset
  hooks := hh
  accepted _ _ := by cases cancelled <;> rfl
  phase c := by cases c <;> cases cancelled <;> simp [settle, log, settledPhase, hno]
  requested := by simpa [settle, log] using hreq
  delivered := by simpa [settle, log] using hdel
  resolving h := by
    have h : t.resolving := h
    rw [hr] at h
    cases h
  between h := ⟨hb h, by cases cancelled <;> simp [settle, log]⟩
  waiting := hw

/-- A task without hooks is resolved. -/
theorem Ok.settle (ok : t.Ok) (hh : t.hooks = false) (hp : t.phase.resolved = false)
    (cancelled : Bool) : t.Keeps (t.settle cancelled) := by
  refine ⟨settle_ok cancelled ok.lawful ok.settled ok.hooks (ok.not_resolved hp) ok.requested
    ok.delivered ?_ (fun h => (ok.between h).1) ok.waiting,
    ⟨rfl, rfl, rfl, rfl, suffix_cons _ _⟩⟩
  · cases hr : t.resolving with
    | false => rfl
    | true =>
      have := (ok.resolving hr).1
      rw [hh] at this
      cases this

/-- The `resolve` hook comes back. -/
theorem Ok.answered (ok : t.Ok) (hh : t.hooks) (hp : t.phase.resolved = false)
    (cancelled : Bool) (hc : .called cancelled ∈ t.history) (status : Option Status) :
    t.Keeps (t.answered cancelled status) := by
  have hset := ok.unsettled hh
  cases status with
  | none =>
    refine ⟨settle_ok cancelled ⟨⟨hset, hc⟩, ok.lawful⟩ ?_ ?_ ?_ ?_ ?_
      rfl (fun h => (ok.between h).1) ok.waiting, ⟨rfl, rfl, rfl, rfl, ?_⟩⟩
    · show true = (t.hooked && true)
      rw [ok.hooks hh]
      rfl
    · intro h
      cases h
    · intro c hm
      exact ok.not_resolved hp c (by simpa [log] using hm)
    · simpa [log] using ok.requested
    · simpa [log] using ok.delivered
    · exact (suffix_cons _ _).trans (suffix_cons _ _)
  | some s =>
    refine ⟨{ ok with
      lawful := ⟨⟨hset, hc⟩, ok.lawful⟩
      accepted := fun c hm => ok.accepted c (by simpa [ComponentTask.answered, log] using hm)
      phase := fun c => by simpa [ComponentTask.answered, log] using ok.phase c
      requested := by simpa [ComponentTask.answered, log] using ok.requested
      delivered := by simpa [ComponentTask.answered, log] using ok.delivered
      resolving := nofun }, ⟨rfl, rfl, rfl, rfl, suffix_cons _ _⟩⟩

/-- The caller is given up, with no borrow left. -/
theorem Ok.abandon (ok : t.Ok) (hr : t.resolving = false) (hb : borrows = 0) :
    t.Keeps (t.abandon borrows) ∧ (t.abandon borrows).hooks = false := by
  unfold ComponentTask.abandon
  split
  · rename_i hh
    have hset := ok.unsettled hh
    refine ⟨⟨{ ok with
      lawful := ⟨⟨hset, hb⟩, ok.lawful⟩
      settled := ?_
      hooks := nofun
      accepted := fun c hm => ok.accepted c (by simpa [log] using hm)
      phase := fun c => by simpa [log] using ok.phase c
      requested := by simpa [log] using ok.requested
      delivered := by simpa [log] using ok.delivered
      resolving := fun h => ?_ }, ⟨rfl, rfl, rfl, rfl, suffix_cons _ _⟩⟩, rfl⟩
    · show true = (t.hooked && true)
      rw [ok.hooks hh]
      rfl
    · have h : t.resolving := h
      rw [hr] at h
      cases h
  · rename_i hh
    exact ⟨.refl ok, by simpa using hh⟩

end ComponentTask

end TurboWasm
