/-
# The lifecycle of a subtask

The laws of a subtask are laws of its history (`SubtaskEvent.Lawful`): what must have happened
before a delivery, a release of the loans, a drop, and what a publication answers.  `Subtask.Ok` ties
the history to the record; every operation keeps it, also between the halves of a call that is
waiting for a hook, so it holds in every state of every run.
-/
import TurboWasm.Component.Subtask.Model
import TurboWasm.Lib.Histories

namespace TurboWasm

open Lib List Option Subtask SubtaskWorld

/-! ## 1. The laws -/

variable {past : List SubtaskEvent} {e : SubtaskEvent}

/-- A terminal event was delivered. -/
def EndDelivered (past : List SubtaskEvent) : Prop :=
  ∃ phase : SubtaskPhase, .delivered phase ∈ past ∧ phase.live = false

/-- A publication answered. -/
def Announced (past : List SubtaskEvent) : Prop :=
  ∃ phase handle word, SubtaskEvent.published phase handle word ∈ past

/-- What must have happened before an event, and what a publication answers. -/
def SubtaskEvent.Lawful (past : List SubtaskEvent) : SubtaskEvent → Prop
  -- nothing is delivered after the terminal event
  | .delivered _ => ¬ EndDelivered past
  -- the hook runs once, after the terminal delivery or when the failed owner is torn down
  | .released => .released ∉ past ∧ (EndDelivered past ∨ .tornDown ∈ past)
  | .tornDown => True
  | .dropped => EndDelivered past
  -- the callee had resolved: RETURNED, and no handle
  | .published phase none word => ¬ Announced past ∧ phase = .returned ∧ word = 2
  -- otherwise the phase and the handle, in separate bits
  | .published phase (some handle) word =>
    ¬ Announced past ∧ phase.live ∧
      word = BitVec.ofNat 32 phase.code ||| BitVec.ofNat 32 handle <<< 4 ∧
      word.toNat % 16 = phase.code ∧ word.toNat / 16 = handle

theorem EndDelivered.cons_iff : EndDelivered (e :: past) ↔
      (∃ phase : SubtaskPhase, e = .delivered phase ∧ phase.live = false) ∨ EndDelivered past := by
  simp only [EndDelivered, mem_cons, or_and_right, exists_or]
  constructor
  · rintro (⟨p, he, hp⟩ | h)
    · exact .inl ⟨p, he.symm, hp⟩
    · exact .inr h
  · rintro (⟨p, he, hp⟩ | h)
    · exact .inl ⟨p, he.symm, hp⟩
    · exact .inr h

theorem Announced.cons_iff :
    Announced (e :: past) ↔ (∃ phase handle word, e = .published phase handle word) ∨
      Announced past := by
  simp only [Announced, mem_cons, exists_or, eq_comm (a := e)]

/-- A subtask is published once. -/
theorem published_unique (h : Always SubtaskEvent.Lawful past) (hx : .published p x v ∈ past)
    (hy : .published q y w ∈ past) : x = y := by
  have hno : ∀ {older : List SubtaskEvent} {p : SubtaskPhase} {x : Option Nat} {v : BitVec 32},
      SubtaskEvent.Lawful older (.published p x v) → ¬ Announced older := by
    intro older p x v hl
    cases x with
    | none | some _ => exact hl.1
  induction past with
  | nil => cases hx
  | cons e past ih =>
    rcases mem_cons.mp hx with hx | hx <;> rcases mem_cons.mp hy with hy | hy
    · rw [← hx] at hy
      cases hy
      rfl
    · exact absurd ⟨_, _, _, hy⟩ (hno (hx ▸ h.1))
    · exact absurd ⟨_, _, _, hx⟩ (hno (hy ▸ h.1))
    · exact ih h.2 hx hy

/-- The loans are released once. -/
theorem count_released_le (h : Always SubtaskEvent.Lawful past) : past.count .released ≤ 1 := by
  induction past with
  | nil => simp
  | cons e past ih =>
    by_cases he : e = .released
    · subst he
      rw [count_cons_self, count_eq_zero.mpr h.1.1]
    · rw [count_cons_of_ne he]
      exact ih h.2

/-- The word of a publication: a handle has at most 28 bits, a phase at most four. -/
theorem publish_word (phase : SubtaskPhase) {handle : Nat} (hr : handle ≤ maxHandle) :
    (BitVec.ofNat 32 phase.code ||| BitVec.ofNat 32 handle <<< 4).toNat =
      phase.code + 16 * handle := by
  unfold maxHandle at hr
  have hc := phase.code_lt
  rw [BitVec.toNat_or, BitVec.toNat_shiftLeft, BitVec.toNat_ofNat, BitVec.toNat_ofNat,
    Nat.mod_eq_of_lt (by omega : phase.code < 2 ^ 32), Nat.mod_eq_of_lt (by omega : handle < 2 ^ 32),
    Nat.shiftLeft_eq, Nat.mod_eq_of_lt (by omega : handle * 2 ^ 4 < 2 ^ 32), Nat.or_comm,
    ← Nat.shiftLeft_eq, ← Nat.shiftLeft_add_eq_or_of_lt (by omega : phase.code < 2 ^ 4),
    Nat.shiftLeft_eq]
  omega

/-! ## 2. The invariant of a subtask -/

namespace Subtask

variable {phase : SubtaskPhase} {s : Subtask}

/-- The record agrees with the history. -/
structure Ok (s : Subtask) : Prop where
  lawful : Always SubtaskEvent.Lawful s.history
  settled : EndDelivered s.history ↔ s.state.resolveDelivered
  terminal : s.state.resolveDelivered → s.state.phase.live = false
  released : .released ∈ s.history ↔ s.released
  destroyed : s.destroyed → s.released
  attached : s.attached → s.state.phase.live
  prepare : s.prepare → s.attached ∧ s.state.phase = .starting
  /-- A cancelled phase was asked for. -/
  cancelled : s.state.cancellationRequested = false → s.state.phase.live = false →
    s.state.phase = .returned
  unpublished : s.published = false → s.state.cancellationRequested = false ∧ ¬ Announced s.history
  handle : ∀ {handle : Nat}, s.handle = some handle →
    s.published ∧ ∃ phase word, .published phase (some handle) word ∈ s.history
  /-- The frame of a resolution: what it will write back differs in the phase only. -/
  lowering : ∀ {next : SubtaskState}, s.lowering = some next → s.attached ∧
    s.state.phase = .started ∧ next = { s.state with phase := .returned, pendingEvent := true }
  releasing : s.releasing = some .publish → s.state.phase = .returned ∧ s.published ∧
    ¬ Announced s.history
  unreleased : s.releasing.isSome → s.released

theorem Ok.create (hasLower : Bool) : Ok { hasLower } where
  lawful := trivial
  settled := by simp [EndDelivered]
  terminal h := by cases h
  released := by simp
  destroyed h := by cases h
  attached _ := rfl
  prepare _ := ⟨rfl, rfl⟩
  cancelled _ h := by cases h
  unpublished _ := ⟨rfl, by simp [Announced]⟩
  handle h := by cases h
  lowering h := by cases h
  releasing h := by cases h
  unreleased h := by cases h

/-- An event that is not a publication leaves the publications as they are. -/
theorem Ok.unpublishedCons (ok : s.Ok)
    (hp : ∀ phase handle word, e ≠ .published phase handle word) : (s.published = false →
      s.state.cancellationRequested = false ∧ ¬ Announced (e :: s.history)) ∧
    (∀ {handle : Nat}, s.handle = some handle →
      s.published ∧ ∃ phase word, .published phase (some handle) word ∈ e :: s.history) ∧
    (s.releasing = some .publish → s.state.phase = .returned ∧ s.published ∧
      ¬ Announced (e :: s.history)) := by
  have hcons : Announced (e :: s.history) ↔ Announced s.history := by
    simp [Announced.cons_iff, hp]
  rw [hcons]
  refine ⟨ok.unpublished, fun hh => ?_, ok.releasing⟩
  obtain ⟨hpub, p, w, hm⟩ := ok.handle hh
  exact ⟨hpub, p, w, mem_cons_of_mem _ hm⟩

/-- Events that are neither deliveries, releases nor publications only have to be lawful. -/
theorem Ok.log (ok : s.Ok) (hd : ∀ phase, e ≠ .delivered phase)
    (hr : e ≠ .released) (hp : ∀ phase handle word, e ≠ .published phase handle word)
    (hl : e.Lawful s.history) : (s.log e).Ok :=
  { ok with
    lawful := ⟨hl, ok.lawful⟩
    unpublished := (ok.unpublishedCons hp).1
    handle := (ok.unpublishedCons hp).2.1
    releasing := (ok.unpublishedCons hp).2.2
    settled := by
      show EndDelivered (e :: s.history) ↔ s.state.resolveDelivered
      simpa [EndDelivered.cons_iff, hd] using ok.settled
    released := by
      show .released ∈ e :: s.history ↔ s.released
      simpa [hr.symm] using ok.released }

/-- A resolved phase is not undone, and the phases before it move forward. -/
def PhaseStep (s s' : Subtask) : Prop :=
  s'.state.phase = s.state.phase ∨ SubtaskPhase.Moves s.state.phase s'.state.phase

variable {s s' : Subtask}

/-- What every operation keeps. -/
structure Keeps (s s' : Subtask) : Prop where
  ok : s'.Ok
  phase : PhaseStep s s'

theorem Keeps.of_phase {r : Subtask} (h : Keeps r s') (hp : r.state.phase = s.state.phase) :
    Keeps s s' := by
  refine ⟨h.ok, ?_⟩
  rw [PhaseStep, ← hp]
  exact h.phase

/-- An operation that checks and then writes what neither the phase nor the laws depend on. -/
theorem Keeps.checked {c : Prop} [Decidable c] {r : Subtask}
    (h : (if c then none else some r) = some s') (hr : r.Ok)
    (hp : r.state.phase = s.state.phase) : Keeps s s' := by
  obtain ⟨_, h⟩ := ite_none_pass h
  cases h
  exact ⟨hr, .inl hp⟩

theorem Ok.start (ok : s.Ok) (h : s.start = some s') : Keeps s s' := by
  obtain ⟨hp, h⟩ := ite_none_pass h
  obtain ⟨state, hst, rfl⟩ := map_eq_some_iff.mp h
  obtain ⟨hphase, rfl⟩ := SubtaskState.start_spec hst
  refine ⟨{ ok with
    terminal := fun hd => ?_
    attached := fun _ => rfl
    prepare := nofun
    cancelled := fun _ hh => by cases hh
    lowering := fun hl => ?_
    releasing := fun hr => ?_ }, .inr ?_⟩
  · have := ok.terminal hd
    rw [hphase] at this
    cases this
  · have := (ok.lowering hl).2.1
    rw [hphase] at this
    cases this
  · have := (ok.releasing hr).1
    rw [hphase] at this
    cases this
  · rw [hphase]
    exact .start

/-- The write of a resolution that was found possible. -/
theorem Ok.commit (ok : s.Ok)
    (hmove : SubtaskPhase.Moves s.state.phase phase) (hlive : phase.live = false)
    (hcan : s.state.cancellationRequested = false → phase = .returned) :
    Keeps s (s.commit { s.state with phase, pendingEvent := true }) := by
  refine ⟨{ ok with
    terminal := fun _ => hlive
    attached := nofun
    prepare := fun hh => ?_
    cancelled := fun hc _ => hcan hc
    lowering := nofun
    releasing := fun hr => ?_ }, .inr hmove⟩
  · -- the hook of a callee that has not started is detached here
    obtain ⟨hn, hh⟩ := (ite_cases hh).resolve_left fun hf => by cases hf.2
    exact absurd ⟨hh, (ok.prepare hh).2⟩ hn
  · have hret := (ok.releasing hr).1
    have := hmove.live
    rw [hret] at this
    cases this

theorem Ok.resolve (ok : s.Ok) {cancelled : Bool} (h : s.resolve cancelled = some s') :
    Keeps s s' := by
  obtain ⟨hn, h⟩ := ite_none_pass h
  have hatt : s.attached := by simpa using fun hh => hn (.inl hh)
  split at h
  · cases h
  rename_i next hres
  obtain ⟨phase, hmove, hlive, hreq, hret, rfl⟩ := SubtaskState.resolve_spec hres
  rcases ite_cases h with ⟨⟨hc, _⟩, h⟩ | ⟨_, h⟩
  · -- the lowering runs first
    cases h
    obtain rfl := hret hc
    refine ⟨{ ok with lowering := fun hl => ?_ }, .inl rfl⟩
    cases hl
    refine ⟨hatt, ?_, rfl⟩
    cases hp : s.state.phase <;> rw [hp] at hmove <;> first | rfl | cases hmove
  · cases h
    refine ok.commit hmove hlive fun hno => ?_
    cases cancelled with
    | false => exact hret rfl
    | true =>
      rw [hreq rfl] at hno
      cases hno

theorem Ok.lowered (ok : s.Ok) (h : s.lowered status consumed = some s') : Keeps s s' := by
  unfold Subtask.lowered at h
  split at h
  · cases h
  rename_i next hl
  obtain ⟨hatt, hphase, rfl⟩ := ok.lowering hl
  split at h
  · cases h
    exact ⟨{ ok with lowering := nofun }, .inl rfl⟩
  rcases ite_cases h with ⟨_, h⟩ | ⟨_, h⟩
  · cases h
    exact ok.commit (hphase ▸ .finish) rfl fun _ => rfl
  · cases h
    exact ⟨{ ok with lowering := nofun }, .inl rfl⟩

theorem Ok.abandon (ok : s.Ok) (h : s.abandon status = some s') : Keeps s s' := by
  obtain ⟨hn, h⟩ := ite_none_pass h
  cases h
  refine ⟨{ ok with
    attached := nofun
    prepare := nofun
    lowering := fun hl => ?_ }, .inl rfl⟩
  have : s.lowering.isSome := by
    have hl' : s.lowering = some _ := hl
    simp [hl']
  exact absurd (.inr this) hn

/-! ## 3. Loans and deliveries -/

section

variable (ok : s.Ok)

include ok

/-- The release of the loans after the terminal event, or of a failed owner. -/
theorem Ok.releaseLoans (hdue : s.state.resolveDelivered ∨ .tornDown ∈ s.history)
    (hpub : site = .publish → s.state.phase = .returned ∧ s.published ∧ ¬ Announced s.history)
    (h : s.releaseLoans site = some s') : Keeps s s' := by
  obtain ⟨hn, h⟩ := ite_none_pass h
  cases h
  have hno : .released ∉ s.history := fun hm => hn (ok.released.mp hm)
  have hcons : Announced (.released :: s.history) ↔ Announced s.history := by
    simp [Announced.cons_iff]
  obtain ⟨hunp, hhandle, -⟩ := ok.unpublishedCons (e := .released) fun _ _ _ hh => by cases hh
  refine ⟨{ ok with
    lawful := ⟨⟨hno, hdue.imp_left ok.settled.mpr⟩, ok.lawful⟩
    settled := ?_
    released := by simp [Subtask.log]
    destroyed := fun _ => rfl
    unpublished := hunp
    handle := hhandle
    releasing := fun hr => by
      obtain ⟨hret, hp, hnp⟩ := hpub (some.inj hr)
      exact ⟨hret, hp, fun hh => hnp (hcons.mp hh)⟩
    unreleased := fun _ => rfl }, .inl rfl⟩
  show EndDelivered (.released :: s.history) ↔ s.state.resolveDelivered
  simpa [EndDelivered.cons_iff] using ok.settled

/-- The consumption of an event, before anything is released. -/
theorem Ok.deliver {state : SubtaskState} (h : s.state.takeEvent = some (phase, state)) :
    ({ s with state }.log (.delivered phase)).Ok ∧ state.phase = s.state.phase := by
  obtain ⟨hpend, hnd, rfl, hstart, rfl⟩ := SubtaskState.takeEvent_spec h
  have hns : ¬ EndDelivered s.history := fun hs => by
    rw [ok.settled.mp hs] at hnd
    cases hnd
  obtain ⟨hunp, hhandle, hrel⟩ := ok.unpublishedCons (e := .delivered s.state.phase)
    fun _ _ _ hh => by cases hh
  refine ⟨{ ok with
    lawful := ⟨hns, ok.lawful⟩
    settled := ?_
    terminal := fun hd => ?_
    released := by simpa [Subtask.log] using ok.released
    unpublished := hunp
    handle := hhandle
    releasing := hrel
    lowering := fun hl => ?_ }, rfl⟩
  · show EndDelivered (.delivered s.state.phase :: s.history) ↔ (!s.state.phase.live)
    simp [EndDelivered.cons_iff, hns]
  · have hd' : (!s.state.phase.live) := hd
    show s.state.phase.live = false
    simpa using hd'
  · obtain ⟨hatt, hphase, rfl⟩ := ok.lowering hl
    refine ⟨hatt, hphase, ?_⟩
    simp [Subtask.log, hnd, hphase, SubtaskPhase.live]

theorem Ok.takeEvent {synchronous : Bool} (h : s.takeEvent synchronous = some s') : Keeps s s' := by
  unfold Subtask.takeEvent at h
  rcases ite_cases h with ⟨_, h⟩ | ⟨_, h⟩
  · cases h
    exact ⟨{ ok with }, .inl rfl⟩
  obtain ⟨_, h⟩ := ite_none_pass h
  split at h
  · cases h
    exact ⟨{ ok with }, .inl rfl⟩
  rename_i phase state htake
  obtain ⟨ok', hphase⟩ := ok.deliver htake
  rcases ite_cases h with ⟨hd, h⟩ | ⟨_, h⟩
  · split at h
    · cases h
      exact ⟨{ ok' with }, .inl hphase⟩
    · rename_i s'' hrel
      cases h
      have ok'' : { ({ s with state }.log (.delivered phase)) with delivering := true }.Ok :=
        { ok' with }
      exact (ok''.releaseLoans (.inl hd) (fun hh => by cases hh) hrel).of_phase hphase
  · cases h
    exact ⟨{ ok' with }, .inl hphase⟩

/-- The answer of a publication. -/
theorem Ok.publication (hpub : s.published)
    (hrel : s.releasing ≠ some .publish) {handle : Option Nat} {word : BitVec 32}
    (hl : SubtaskEvent.Lawful s.history (.published phase handle word)) :
    (s.log (.published phase handle word)).Ok :=
  { ok with
    lawful := ⟨hl, ok.lawful⟩
    settled := by
      show EndDelivered (.published phase handle word :: s.history) ↔ s.state.resolveDelivered
      simpa [EndDelivered.cons_iff] using ok.settled
    released := by simpa [Subtask.log] using ok.released
    unpublished := fun hh => by
      have hh' : s.published = false := hh
      rw [hpub] at hh'
      cases hh'
    handle := fun hh => by
      obtain ⟨-, p, w, hm⟩ := ok.handle hh
      exact ⟨hpub, p, w, mem_cons_of_mem _ hm⟩
    releasing := fun hh => absurd hh hrel }

/-- The second half of the calls that ran the release hook. -/
theorem Ok.releaseEnd (h : s.releaseEnd status = some s') :
    Keeps s s' := by
  unfold Subtask.releaseEnd at h
  split at h
  · cases h
  rename_i site hsite
  split at h
  · cases h
    exact ⟨{ ok with
      releasing := nofun
      unreleased := nofun }, .inl rfl⟩
  · split at h
    · cases h
      exact ⟨{ ok with
        releasing := nofun
        unreleased := nofun }, .inl rfl⟩
    · cases h
      obtain ⟨hret, hpub, hnp⟩ := ok.releasing hsite
      have ok' : { s with releasing := none, failure := none.or s.failure, delivering := false }.Ok :=
        { ok with
          releasing := nofun
          unreleased := nofun }
      exact ⟨ok'.publication hpub nofun ⟨hnp, hret, rfl⟩, .inl rfl⟩
  · cases h
    exact ⟨{ ok with
      destroyed := fun _ => ok.unreleased (by simp [hsite])
      releasing := nofun
      unreleased := nofun }, .inl rfl⟩

/-- A publication delivers a resolved subtask at once, and registers any other. -/
theorem Ok.publish (tok : t.Ok) {me : Nat} {allocated : Bool}
    (h : s.publish t me allocated = some (s', t')) : Keeps s s' ∧ t'.Ok := by
  obtain ⟨hn, h⟩ := ite_none_pass h
  have hpub : s.published = false := by simpa using fun hh => hn (.inr (.inl hh))
  rcases ite_cases h with ⟨hres, h⟩ | ⟨hres, h⟩
  · -- eager: nothing was cancelled before the publication, so the phase is RETURNED
    split at h
    · cases h
    rename_i phase state htake
    obtain ⟨ok', hphase⟩ := ok.deliver htake
    obtain ⟨hnc, hnp⟩ := ok.unpublished hpub
    have hret : s.state.phase = .returned :=
      ok.cancelled hnc (by simpa [resolved] using hres)
    have okp : { ({ s with state }.log (.delivered phase)) with published := true }.Ok :=
      { ok' with
        unpublished := nofun
        handle := fun hh => ⟨rfl, (ok'.handle hh).2⟩
        releasing := fun hh => ⟨(ok'.releasing hh).1, rfl, (ok'.releasing hh).2.2⟩ }
    have hd : state.resolveDelivered := by
      have := SubtaskState.takeEvent_spec htake
      rw [this.2.2.2.2, this.2.2.1, hret]
      rfl
    simp only at h
    split at h
    · cases h
      exact ⟨⟨okp, .inl hphase⟩, tok⟩
    rename_i s'' hrel
    obtain ⟨rfl, rfl⟩ := h
    have okd : { ({ s with state, published := true }.log (.delivered phase)) with
        delivering := true }.Ok := { okp with }
    have hnp' : ¬ Announced (.delivered phase :: s.history) := by
      simpa [Announced.cons_iff] using hnp
    have hkeeps := okd.releaseLoans (.inl hd) (fun _ => ⟨hphase.trans hret, rfl, hnp'⟩) hrel
    exact ⟨hkeeps.of_phase hphase, tok⟩
  obtain ⟨_, h⟩ := ite_none_pass h
  split at h
  · cases h
  rename_i handle table hins
  obtain ⟨rfl, rfl⟩ := h
  obtain ⟨g, hinserted, tok'⟩ := Table.handleInsert_spec tok hins
  have hword := publish_word s.state.phase hinserted.range.2
  have hc := s.state.phase.code_lt
  obtain ⟨-, hnp⟩ := ok.unpublished hpub
  have hnr : s.releasing ≠ some .publish := fun hh => by
    rw [(ok.releasing hh).2.1] at hpub
    cases hpub
  have ok' : { s with
      handle := none
      published := true
      state := { s.state with pendingEvent := false } }.Ok :=
    { ok with
      unpublished := nofun
      handle := nofun
      releasing := fun hh => absurd hh hnr
      lowering := fun hl => ok.lowering hl }
  have hlaw : SubtaskEvent.Lawful s.history (.published s.state.phase (some handle)
      (.ofNat 32 s.state.phase.code ||| BitVec.ofNat 32 handle <<< 4)) :=
    ⟨hnp, by simpa [resolved] using hres, rfl, by omega, by omega⟩
  have ok'' := ok'.publication rfl hnr hlaw
  refine ⟨⟨{ ok'' with handle := fun hh => ⟨rfl, ?_⟩ }, .inl rfl⟩, tok'⟩
  cases hh
  exact ⟨_, _, mem_cons_self⟩

end

/-! ## 4. Waits, cancellation and the end -/

section

variable (ok : s.Ok)

include ok

/-- A cancellation names a handle, so the subtask was published. -/
theorem Ok.cancelBegin (hhandle : s.handle.isSome)
    (h : s.cancelBegin busy = some s') : Keeps s s' := by
  obtain ⟨hn, h⟩ := ite_none_pass h
  rcases ite_cases h with ⟨_, h⟩ | ⟨hlive, h⟩
  · cases h
    exact ⟨{ ok with }, .inl rfl⟩
  obtain ⟨state, hreq, rfl⟩ := map_eq_some_iff.mp h
  obtain ⟨hnd, hnc, rfl⟩ := SubtaskState.requestCancel_spec hreq
  have hpl : s.state.phase.live := by simpa [resolved] using hlive
  refine ⟨{ ok with
    cancelled := fun _ hl => by
      rw [hpl] at hl
      cases hl
    unpublished := fun hh => ?_
    lowering := fun hl => ?_ }, .inl rfl⟩
  · have hp : s.published = false := hh
    obtain ⟨handle, hhandle⟩ := isSome_iff_exists.mp hhandle
    rw [(ok.handle hhandle).1] at hp
    cases hp
  · -- the test of `callee->resolving`
    have hl' : s.lowering = some _ := hl
    refine absurd (.inr (.inr (.inr (.inl ⟨by simpa using hlive, .inr (.inl ?_)⟩)))) hn
    simp [hl']

theorem Ok.drop (tok : t.Ok) (h : s.drop t = some (s', t')) : Keeps s s' ∧ t'.Ok := by
  obtain ⟨hn, h⟩ := ite_none_pass h
  have hd : s.state.resolveDelivered := by simpa using fun hh => hn (.inr (.inr hh))
  split at h
  · cases h
  split at h
  · cases h
  rename_i handle _ _ t'' hrem
  obtain ⟨rfl, rfl⟩ := h
  obtain ⟨e, -, -, -, -, rfl⟩ := Table.handleRemove_spec hrem
  have ok' : { s with setHandle := none, handle := none }.Ok :=
    { ok with handle := nofun }
  exact ⟨⟨ok'.log (fun _ hh => by cases hh) nofun
    (fun _ _ _ hh => by cases hh) (ok.settled.mpr hd), .inl rfl⟩, tok.remove _⟩

theorem Ok.destroyBody
    (hdue : s.failure = none → s.state.resolveDelivered) (h : s.destroyBody = some s') :
    Keeps s s' := by
  unfold Subtask.destroyBody at h
  generalize hs₁ : (if s.failure.isSome then s.log .tornDown else s) = s₁ at h
  -- a failed owner is torn down, any other has delivered its terminal event
  have hfacts : s₁.Ok ∧ s₁.state.phase = s.state.phase ∧
      (s₁.state.resolveDelivered ∨ .tornDown ∈ s₁.history) := by
    rcases ite_cases hs₁ with ⟨_, rfl⟩ | ⟨hf, rfl⟩
    · exact ⟨ok.log (fun _ hh => by cases hh) nofun
        (fun _ _ _ hh => by cases hh) trivial, rfl, .inr (by simp [Subtask.log])⟩
    · exact ⟨ok, rfl, .inl (hdue (by simpa using hf))⟩
  obtain ⟨ok₁, hphase, hdue₁⟩ := hfacts
  have okd : { s₁ with delivering := true }.Ok := { ok₁ with }
  rcases ite_cases h with ⟨hrel, h⟩ | ⟨_, h⟩
  · cases h
    exact ⟨{ okd with destroyed := fun _ => hrel }, .inl hphase⟩
  · exact (okd.releaseLoans hdue₁ (fun hh => by cases hh) h).of_phase hphase

theorem Ok.destroy (tok : t.Ok) (h : s.destroy t = some (s', t')) : Keeps s s' ∧ t'.Ok := by
  obtain ⟨hn, h⟩ := ite_none_pass h
  have hdue : s.failure = none → s.state.resolveDelivered := fun hf => by
    simpa using fun hh => hn (.inr (.inr (.inr (.inr ⟨hf, hh⟩))))
  split at h
  · obtain ⟨s'', hbody, heq⟩ := map_eq_some_iff.mp h
    cases heq
    exact ⟨ok.destroyBody hdue hbody, tok⟩
  split at h
  · cases h
  rename_i handle _ _ t'' hrem
  obtain ⟨s'', hbody, heq⟩ := map_eq_some_iff.mp h
  cases heq
  obtain ⟨e, -, -, -, -, rfl⟩ := Table.handleRemove_spec hrem
  exact ⟨ok.destroyBody hdue hbody, tok.remove _⟩

end

end Subtask

/-! ## 5. Runs -/

namespace SubtaskWorld

variable {i : Nat} {table : Table} {s : Subtask} {handle : Nat}

/-- What every reachable state satisfies. -/
structure Ok (w : SubtaskWorld) : Prop where
  table : w.table.Ok
  subtasks : ∀ {i : Nat} {s : Subtask}, w.subtasks[i]? = some s → s.Ok

/-- The subtasks of two states of a run: none is forgotten, and their phases move forward. -/
def Follows (w w' : SubtaskWorld) : Prop :=
  ∀ (i : Nat) (s : Subtask), w.subtasks[i]? = some s →
    ∃ s', w'.subtasks[i]? = some s' ∧ s.PhaseStep s'

theorem Ok.start (h : table.Ok) : (SubtaskWorld.start table).Ok where
  table := h
  subtasks h := by simp [SubtaskWorld.start] at h

theorem Follows.refl_of {w w' : SubtaskWorld} (h : w'.subtasks = w.subtasks) : Follows w w' :=
  fun _ s hs => ⟨s, h ▸ hs, .inl rfl⟩

variable {w w' : SubtaskWorld}

theorem Ok.set (ok : w.Ok) {s' : Subtask} (hs : w.subtasks[i]? = some s)
    (hk : s.Keeps s') (tok : table.Ok) : Ok { table, subtasks := w.subtasks.set i s' } ∧
      Follows w { table, subtasks := w.subtasks.set i s' } := by
  refine ⟨⟨tok, ?_⟩, ?_⟩
  · intro j r hj
    simp only [getElem?_set_of hs] at hj
    rcases ite_cases hj with ⟨_, hj⟩ | ⟨_, hj⟩
    · cases hj
      exact hk.ok
    · exact ok.subtasks hj
  intro j r hj
  simp only [getElem?_set_of hs]
  by_cases hji : j = i
  · subst hji
    rw [hs] at hj
    cases hj
    exact ⟨s', if_pos rfl, hk.phase⟩
  · exact ⟨r, by rw [if_neg hji, hj], .inl rfl⟩

theorem Ok.on (ok : w.Ok) (hf : ∀ s s', w.subtasks[i]? = some s → s.Ok → f s = some s' → s.Keeps s')
    (h : w.on i f = some w') : w'.Ok ∧ Follows w w' := by
  simp only [SubtaskWorld.on, bind_eq_bind, bind_eq_some_iff, some.injEq] at h
  obtain ⟨s, hs, s', hs', rfl⟩ := h
  exact ok.set hs (hf s s' hs (ok.subtasks hs) hs') ok.table

theorem Ok.onBoth (ok : w.Ok) {f : Subtask → Table → Option (Subtask × Table)}
    (hf : ∀ s s' t', s.Ok → f s w.table = some (s', t') → s.Keeps s' ∧ t'.Ok)
    (h : w.onBoth i f = some w') : w'.Ok ∧ Follows w w' := by
  simp only [SubtaskWorld.onBoth, bind_eq_bind, bind_eq_some_iff, some.injEq, Prod.exists] at h
  obtain ⟨s, hs, s', t', hs', rfl⟩ := h
  obtain ⟨hk, tok⟩ := hf s s' t' (ok.subtasks hs) hs'
  exact ok.set hs hk tok

/-- The subtask of a handle knows the handle. -/
theorem lookup_spec (h : w.lookup handle = some i)
    (hs : w.subtasks[i]? = some s) : s.handle = some handle := by
  unfold lookup at h
  split at h
  · cases h
  rcases ite_cases h with ⟨hb, h⟩ | ⟨_, h⟩
  · cases h
    simpa [hs] using hb
  · cases h

theorem Ok.onHandle (ok : w.Ok) (hf : ∀ s s', s.handle.isSome → s.Ok → f s = some s' → s.Keeps s')
    (h : w.onHandle handle f = some w') : w'.Ok ∧ Follows w w' := by
  simp only [SubtaskWorld.onHandle, bind_eq_bind, bind_eq_some_iff] at h
  obtain ⟨i, hi, h⟩ := h
  refine ok.on (fun s s' hs oks hs' => hf s s' ?_ oks hs') h
  simp [lookup_spec hi hs]

/-- **One operation** keeps the invariant. -/
theorem Ok.act (ok : w.Ok) {a : SubtaskAction} (h : w.act a = some w') : w'.Ok ∧ Follows w w' := by
  cases a with
  | create hasLower =>
    cases h
    refine ⟨⟨ok.table, ?_⟩, ?_⟩
    · intro i s hs
      rw [getElem?_append] at hs
      rcases ite_cases hs with ⟨_, hs⟩ | ⟨_, hs⟩
      · exact ok.subtasks hs
      · obtain ⟨_, rfl⟩ := List.getElem?_eq_some_iff.mp hs
        simpa using .create hasLower
    · intro i s hs
      have hi := lt_of_getElem? hs
      exact ⟨s, by rw [getElem?_append_left hi, hs], .inl rfl⟩
  | attach i | cancelEnd i failed | abort i =>
    refine ok.on (fun _ _ _ oks hs => ?_) h
    exact .checked hs { oks with } rfl
  | start i => exact ok.on (fun _ _ _ oks => oks.start) h
  | resolve i cancelled => exact ok.on (fun _ _ _ oks => oks.resolve) h
  | lowered i status consumed => exact ok.on (fun _ _ _ oks => oks.lowered) h
  | abandon i status => exact ok.on (fun _ _ _ oks => oks.abandon) h
  | releaseEnd i status => exact ok.on (fun _ _ _ oks => oks.releaseEnd) h
  | publish i allocated =>
    exact ok.onBoth (f := fun s t => s.publish t i allocated)
      (fun _ _ _ oks => oks.publish ok.table) h
  | take handle | poll handle set | cancelPoll handle =>
    exact ok.onHandle (fun _ _ _ oks hs => oks.takeEvent (ite_none_pass hs).2) h
  | join handle set | waitCancel handle =>
    refine ok.onHandle (fun _ _ _ oks hs => ?_) h
    exact .checked hs { oks with } rfl
  | cancelBegin handle busy => exact ok.onHandle (fun _ _ hh oks => oks.cancelBegin hh) h
  | drop handle =>
    simp only [SubtaskWorld.act, bind_eq_bind, bind_eq_some_iff] at h
    obtain ⟨i, -, h⟩ := h
    exact ok.onBoth (fun _ _ _ oks => oks.drop ok.table) h
  | destroy i => exact ok.onBoth (fun _ _ _ oks => oks.destroy ok.table) h
  | insertOther kind object allocated =>
    obtain ⟨_, h⟩ := ite_none_pass h
    split at h
    · cases h
    rename_i handle table hins
    cases h
    obtain ⟨g, -, tok⟩ := Table.handleInsert_spec ok.table hins
    exact ⟨⟨tok, ok.subtasks⟩, .refl_of rfl⟩
  | removeOther handle =>
    obtain ⟨_, h⟩ := ite_none_pass h
    cases h
    exact ⟨⟨ok.table.remove _, ok.subtasks⟩, .refl_of rfl⟩

theorem Ok.run (hrun : SubtaskRun w w') (ok : w.Ok) : w'.Ok :=
  invariant_run (fun _ _ hstep oks => hstep.elim fun _ ha => (oks.act ha).1) hrun ok

end SubtaskWorld

/-- What a run guarantees of every subtask. -/
structure SubtaskLaws (w : SubtaskWorld) : Prop where
  /-- The order of the events: one terminal delivery and nothing delivered after it, loans released
  once and not before, no drop before it, the word of the publication. -/
  history : ∀ s ∈ w.subtasks, Always SubtaskEvent.Lawful s.history
  /-- A destroyed subtask has released its loans, once. -/
  released : ∀ s ∈ w.subtasks, s.destroyed → s.history.count .released = 1
  /-- A subtask that answered without a handle has none. -/
  eager : ∀ s ∈ w.subtasks, ∀ phase word, .published phase none word ∈ s.history → s.handle = none
  /-- The phase of every subtask stays or makes one move of the lifecycle in every next step. -/
  phases : ∀ w', Steps act w w' → w.Follows w'

/-- **The lifecycle of subtasks**, over every sequence and nesting of their operations. -/
theorem subtask_lifecycle (maxEntries : Nat) (scopes : Nat → Nat) (table : Table)
    (htable : Table.init maxEntries scopes = some table) (w : SubtaskWorld)
    (hrun : SubtaskRun (.start table) w) : SubtaskLaws w := by
  have ok := SubtaskWorld.Ok.run hrun (.start (.init htable))
  have oks : ∀ s ∈ w.subtasks, s.Ok := fun s hs => by
    obtain ⟨i, hi⟩ := mem_iff_getElem?.mp hs
    exact ok.subtasks hi
  refine ⟨fun s hs => (oks s hs).lawful, fun s hs hd => ?_, fun s hs p v hm => ?_,
    fun w' hstep => ?_⟩
  · have hmem := (oks s hs).released.mpr ((oks s hs).destroyed hd)
    have hle := count_released_le (oks s hs).lawful
    have hpos := count_pos_iff.mpr hmem
    omega
  · cases hh : s.handle with
    | none => rfl
    | some handle =>
      obtain ⟨-, p', v', hm'⟩ := (oks s hs).handle hh
      exact absurd (published_unique (oks s hs).lawful hm hm') (by simp)
  · obtain ⟨a, ha⟩ := hstep
    exact (ok.act ha).2

/-- A call that is published while it runs, delivers its return, is dropped and destroyed. -/
def returnedCall : List SubtaskAction :=
  [.create true, .start 0, .publish 0 true, .resolve 0 false, .lowered 0 none true, .take 65537,
    .releaseEnd 0 none, .drop 65537, .destroy 0]

theorem subtask_lifecycle_returned : ∃ table w s, Table.init 4 (fun _ => 0) = some table ∧
    SubtaskRun (.start table) w ∧ w.subtasks = [s] ∧ s.destroyed ∧
    s.history = [.dropped, .released, .delivered .returned, .published .started (some 65537) 1048593]
    ∧ SubtaskLaws w := by
  have hrun : ∃ w s, returnedCall.foldlM act (.start ⟨[], 0, 4, fun _ => 0⟩) = some w ∧
      w.subtasks = [s] ∧ s.destroyed ∧ s.history = [.dropped, .released,
        .delivered .returned, .published .started (some 65537) 1048593] :=
    ⟨_, _, rfl, rfl, rfl, rfl⟩
  obtain ⟨w, s, hw, hs, hd, hh⟩ := hrun
  exact ⟨_, w, s, rfl, run_of_actions hw, hs, hd, hh,
    subtask_lifecycle 4 (fun _ => 0) _ rfl w (run_of_actions hw)⟩

end TurboWasm
