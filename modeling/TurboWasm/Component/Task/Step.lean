/-
# What each operation on a task domain does

Every operation of `TaskDomain.act` reaches a domain that satisfies the invariant again (`Reaches`).
A quantum works on a copy of the record and stores it where it ends, so its lemmas speak of the domain
with that copy stored.
-/
import Mathlib.Data.List.TakeWhile
import TurboWasm.Component.Task.Invariant

namespace TurboWasm

open Lib List Option

namespace TaskDomain

variable {d : TaskDomain} {live : Finset Nat} {i : Nat} {t : ComponentTask}

/-! ## 1. Ends of a quantum -/

theorem releasePin_put (handle : Nat) : (d.put i t).releasePin handle =
    ((d.releasePin handle).1, (d.releasePin handle).2.put i t) := by
  have hget : (d.put i t).getSet handle = d.getSet handle := rfl
  unfold releasePin waitRelease
  rw [hget]
  by_cases hz : handle = 0
  · simp [hz]
  rw [if_neg hz, if_neg hz]
  cases d.getSet handle with
  | none => rfl
  | some s =>
    by_cases hc : (d.sets s).waitCount = 0
    · simp [TaskDomain.put, hc]
    · simp [TaskDomain.put, hc]

theorem finish_put (status : Option Status) (previous : Option (Option Nat)) :
    (d.put i t').finish i t status previous = d.finish i t status previous := by
  unfold finish
  rw [releasePin_put]
  cases status.or (d.releasePin t.waitingSet).1 with
  | none =>
    simp only [TaskDomain.put, Function.update_idem]
    rfl
  | some failure =>
    simp only [TaskDomain.put, Function.update_idem]
    rfl

/-- `finish` on the record that the quantum works on. -/
theorem Ok.finishWith (ok : (d.put i t).Ok live) (hf : i ∉ d.frames.map TaskFrame.task)
    (status : Option Status) (previous : Option (Option Nat)) :
    (d.finish i t status previous).Ok live ∧ (d.put i t).Lives (d.finish i t status previous) ∧
      ((∀ j, d.exclusive = some j → j ≠ i → d.MayExclude j) →
        (d.finish i t status previous).ExclusiveLaw) := by
  have okt := ok.tasks (put_task_self d i t)
  obtain ⟨h, hl, hx⟩ := ok.finish (put_task_self d i t) (.refl okt) rfl hf status previous
  rw [finish_put] at h hl hx
  refine ⟨h, hl, fun hm => hx fun j hj hne => ?_⟩
  obtain ⟨u, hu, hp⟩ := hm j hj hne
  exact ⟨u, (put_task_of_ne hne).trans hu, hp⟩

/-- The task runs. -/
theorem Ok.enterWith (ok : (d.put i t).Ok live) (hf : i ∉ d.frames.map TaskFrame.task)
    (hst : t.state = .running) (hd : t.destroying = false) (hp : t.phase ≠ .initial)
    (hb : t.betweenCallbacks = false) (previous : Option Nat) :
    (d.enter i t previous).Ok live ∧ (d.put i t).Lives (d.enter i t previous) ∧
      ((∀ j, d.exclusive = some j → j ≠ i → d.MayExclude j) →
        (d.exclusive = some i → t.callback) → (d.enter i t previous).ExclusiveLaw) := by
  refine ⟨ok.push hf ⟨t, put_task_self .., hst, hd, hp, hb⟩,
    ⟨le_rfl, rfl, fun h => .inl ⟨_, h, .refl _⟩⟩, fun hx hc => ?_⟩
  refine .put hx rfl fun hj => ⟨hc hj, hp, hb, ?_⟩
  rw [hst]
  rfl

/-- The quantum is over and the task stays. -/
theorem Ok.restWith (ok : (d.put i t).Ok live) (hf : i ∉ d.frames.map TaskFrame.task)
    (previous : Option Nat) :
    (d.rest i t previous).Ok live ∧ (d.put i t).Lives (d.rest i t previous) ∧
      ((∀ j, d.exclusive = some j → j ≠ i → d.MayExclude j) →
        (d.exclusive = some i → t.callback ∧ t.phase ≠ .initial ∧
          t.betweenCallbacks = false) → (d.rest i t previous).ExclusiveLaw) := by
  have okt := ok.tasks (put_task_self d i t)
  let t' : ComponentTask := { t with state := .yielded }
  have hk : t.Keeps t' := .same { okt with } rfl
  have ok' := ok.put (put_task_self d i t) hk rfl hf
  rw [put_put] at ok'
  refine ⟨ok'.control fun _ _ => id,
    .put (put_task_self d i t) hk.continues ?_ rfl rfl, fun hx hc => ?_⟩
  · rw [put_put]
    rfl
  · refine .put hx rfl fun hj => ?_
    obtain ⟨h₁, h₂, h₃⟩ := hc hj
    exact ⟨h₁, h₂, h₃, rfl⟩

/-- A callback-style task without a call in progress becomes exclusive. -/
theorem Ok.exclude (ok : d.Ok live) (hf : i ∉ d.frames.map TaskFrame.task) :
    { d with exclusive := some i }.Ok live :=
  ok.control fun f hm hj => absurd (mem_map.mpr ⟨f, hm, (some.inj hj).symm⟩) hf

/-! ## 2. Quanta -/

/-- What is known of a task that `resume_active` works on. -/
structure Working (d : TaskDomain) (live : Finset Nat) (i : Nat) (t₀ t : ComponentTask) : Prop where
  ok : d.Ok live
  task : d.task i = some t₀
  keeps : t₀.Keeps t
  waiting : t.waitingSet = t₀.waitingSet
  free : i ∉ d.frames.map TaskFrame.task
  running : t.state = .running
  destroying : t.destroying = false
  phase : t.phase = t₀.phase
  between : t.betweenCallbacks = t₀.betweenCallbacks
  live : t₀.state.ended = false

variable {t₀ : ComponentTask}

section

variable (w : d.Working live i t₀ t)

include w

theorem Working.stored : (d.put i t).Ok live :=
  w.ok.put w.task w.keeps w.waiting w.free

theorem Working.lives : d.Lives (d.put i t) :=
  .put w.task w.keeps.continues rfl rfl rfl

theorem Working.finish (status : Option Status)
    (previous : Option (Option Nat)) : d.Reaches live True (d.finish i t status previous) := by
  obtain ⟨ok, hl, hx⟩ := w.stored.finishWith w.free status previous
  exact .smooth ok (w.lives.trans hl) fun h => hx fun j hj _ => h j hj

theorem Working.rest (previous : Option Nat) : d.Reaches live True (d.rest i t previous) := by
  obtain ⟨ok, hl, hx⟩ := w.stored.restWith w.free previous
  refine .smooth ok (w.lives.trans hl) fun h => ?_
  refine hx (fun j hj _ => h j hj) fun hi => ?_
  obtain ⟨hc, hp, hb, -⟩ := h.at hi w.task
  exact ⟨w.keeps.continues.callback.trans hc, w.phase ▸ hp, w.between.trans hb⟩

/-- The coroutine goes on. -/
theorem Working.enter (hp : t.phase ≠ .initial)
    (hb : t.betweenCallbacks = false) (previous : Option Nat) :
    d.Reaches live True (d.enter i t previous) := by
  obtain ⟨ok, hl, hx⟩ := w.stored.enterWith w.free w.running w.destroying hp hb previous
  refine .smooth ok (w.lives.trans hl) fun h => ?_
  refine hx (fun j hj _ => h j hj) fun hi => ?_
  exact w.keeps.continues.callback.trans (h.at hi w.task).1

end

variable {sets : Nat → WaitSet} {table : Table}

/-- The first entry of a task, which makes a callback-style one exclusive. -/
theorem Working.startCore (w : d.Working live i t₀ t) (hp : t.phase = .initial)
    (hcan : d.canStart t) (launch : Option Status) (previous : Option Nat) :
    d.Reaches live True (d.startCore i t launch previous) := by
  simp only [canStart, Bool.and_eq_true, Bool.or_eq_true, beq_iff_eq, isNone_iff_eq_none] at hcan
  -- a task that has not started is not exclusive
  have hnot : d.ExclusiveLaw → d.exclusive ≠ some i := fun h hi =>
    (h.at hi w.task).2.1 (w.phase ▸ hp)
  have hb : t.betweenCallbacks = false := by
    cases hb : t.betweenCallbacks with
    | false => rfl
    | true => exact absurd hp (w.keeps.ok.between hb).2
  have hlaw : (t.callback → d.exclusive = none) ∧
      (t.hostImport = false → d.backpressure = 0) :=
    ⟨fun h => hcan.2.resolve_left (by rw [h]; simp),
      fun h => hcan.1.resolve_left (by rw [h]; simp)⟩
  let u : ComponentTask := { t with
    phase := .started
    core := true
    coreGeneration := t.coreGeneration + 1 }.log (.started d.exclusive d.backpressure)
  have hu : t.Keeps u := w.keeps.ok.begin hp hlaw (t.coreGeneration + 1)
  have hup : u.phase ≠ .initial := by simp [u, ComponentTask.log]
  have okb : (d.put i u).Ok live := w.ok.put w.task (w.keeps.trans hu) w.waiting
    w.free
  have hlb : d.Lives (d.put i u) := .put w.task (w.keeps.trans hu).continues rfl rfl rfl
  -- the failures, whether the task became exclusive or not
  have hfail : ∀ status : Option Status,
      d.Reaches live True ((if t.callback then { d with exclusive := some i } else d).finish i t status
        (some previous)) := by
    intro status
    split
    · have okx : (TaskDomain.put { d with exclusive := some i } i t).Ok live :=
        w.stored.exclude w.free
      obtain ⟨ok, hl, hx⟩ := okx.finishWith w.free status (some previous)
      refine .smooth ok (w.lives.trans ⟨hl.next, hl.limit, hl.task⟩) fun _ => ?_
      exact hx fun j hj hne => absurd (some.inj hj).symm hne
    · exact w.finish status (some previous)
  unfold TaskDomain.startCore
  simp only
  split
  · exact hfail _
  cases launch with
  | some status => exact hfail _
  | none =>
    simp only
    split
    · rename_i hc
      have okx : (TaskDomain.put { d with exclusive := some i } i u).Ok live := okb.exclude w.free
      obtain ⟨ok, hl, hx⟩ := okx.enterWith w.free w.running w.destroying hup hb previous
      refine .smooth ok (hlb.trans ⟨hl.next, hl.limit, hl.task⟩) fun _ => ?_
      exact hx (fun j hj hne => absurd (some.inj hj).symm hne) fun _ => hc
    · obtain ⟨ok, hl, hx⟩ := okb.enterWith w.free w.running w.destroying hup hb previous
      refine .smooth ok (hlb.trans hl) fun h => ?_
      exact hx (fun j hj _ => h j hj) fun hi => absurd hi (hnot h)

/-- The callback of a task is entered again while no task is exclusive. -/
theorem Working.startCallback (w : d.Working live i t₀ t) (hb : t.betweenCallbacks)
    (hx : d.exclusive = none) (launch : Option Status) (previous : Option Nat) :
    d.Reaches live True (d.startCallback i t launch previous) := by
  obtain ⟨hc, hp⟩ := w.keeps.ok.between hb
  let u : ComponentTask := { t with waitingSet := 0 }
  have hu : t.Keeps u := .same { w.keeps.ok with waiting := fun h => absurd rfl h } rfl
  obtain ⟨sets, hrel, ok⟩ := w.ok.release w.task (w.keeps.trans hu) rfl
    w.free
  have hlu : d.Lives ({ d with sets }.put i u) :=
    .put w.task (w.keeps.trans hu).continues rfl rfl rfl
  unfold TaskDomain.startCallback
  simp only [w.waiting, hrel]
  cases launch with
  | some status =>
    obtain ⟨ok', hl, hlaw⟩ := ok.finishWith w.free (some status) (some previous)
    exact .smooth ok' (hlu.trans hl) fun h => hlaw fun j hj _ => h j hj
  | none =>
    let v : ComponentTask := { u with
      core := true
      betweenCallbacks := false
      coreGeneration := t.coreGeneration + 1 }.log (.reentered none)
    have hv : u.Keeps v := hu.ok.reenter rfl (t.coreGeneration + 1)
    have ok₁ := ok.put (put_task_self ..) hv rfl w.free
    rw [put_put] at ok₁
    have hl₁ : d.Lives ({ d with sets }.put i v) :=
      .put w.task ((w.keeps.trans hu).trans hv).continues rfl rfl rfl
    have okx : (TaskDomain.put { d with sets, exclusive := some i } i v).Ok live :=
      ok₁.exclude w.free
    obtain ⟨ok', hl, hlaw⟩ := okx.enterWith w.free w.running w.destroying hp rfl previous
    simp only [hx]
    refine .smooth ok' (hl₁.trans ⟨hl.next, hl.limit, hl.task⟩) fun _ => ?_
    exact hlaw (fun j hj hne => absurd (some.inj hj).symm hne) fun _ => hc

/-- A quantum enters the task, delivers its event or finds it not ready. -/
theorem Working.resumeActive (w : d.Working live i t₀ t) (ready : Result Bool)
    (launch : Option Status) (previous : Option Nat) :
    d.Reaches live True (d.resumeActive i t ready launch previous) := by
  unfold TaskDomain.resumeActive
  split
  · -- the entry
    rename_i hp
    split
    · rename_i hcan
      exact w.startCore hp hcan launch previous
    · exact w.rest previous
  rename_i hp
  split
  · -- the callback
    rename_i hb
    split
    · exact w.rest previous
    rename_i hx
    have hx : d.exclusive = none := by simpa using hx
    split
    · exact w.finish _ _
    split
    · rename_i hpend
      have hk := w.keeps.ok.deliver hpend
      have w' : d.Working live i t₀ t.deliver := { w with keeps := w.keeps.trans hk }
      exact w'.startCallback hb hx launch previous
    split
    · exact w.startCallback hb hx launch previous
    cases ready with
    | error status => exact w.finish _ _
    | ok b =>
      cases b with
      | false => exact w.rest previous
      | true => exact w.startCallback hb hx launch previous
  · -- the coroutine goes on
    rename_i hb
    have hb : t.betweenCallbacks = false := by simpa using hb
    split
    · exact w.finish _ _
    · exact w.rest previous
    cases launch with
    | some status => exact w.finish _ _
    | none =>
      have hk : t.Keeps { t with builtinWait := none } :=
        .same { w.keeps.ok with } rfl
      have w' : d.Working live i t₀ { t with builtinWait := none } :=
        { w with keeps := w.keeps.trans hk }
      exact w'.enter hp hb previous

theorem Ok.resume (ok : d.Ok live) (h : d.resume i host ready launch = some d') :
    d.Reaches live True d' := by
  unfold TaskDomain.resume at h
  split at h
  · cases h
  rename_i t hi
  obtain ⟨hn, h⟩ := ite_none_pass h
  simp only [not_or] at hn
  obtain ⟨-, hrun, hdest, hend, -⟩ := hn
  have hdest : t.destroying = false := by simpa using hdest
  have hend : t.state.ended = false := by simpa using hend
  have hfree := ok.no_frame hi hdest (.inl hrun)
  have okt := ok.tasks hi
  rcases ite_cases h with ⟨_, h⟩ | ⟨_, h⟩
  · -- a builtin of another task is in the way
    cases h
    have hk : t.Keeps { t with state := .yielded } :=
      .same { okt with } rfl
    refine .smooth (ok.put hi hk rfl hfree) (.put hi hk.continues rfl rfl rfl) fun hx => ?_
    refine .put (fun j hj _ => hx j hj) rfl fun hj => ?_
    obtain ⟨hc, hp, hb, -⟩ := hx.at hj hi
    exact ⟨hc, hp, hb, rfl⟩
  · cases h
    have hsame : d.Reaches live True { d with active := some i } :=
      .of_same (ok.control fun _ _ => id) rfl rfl rfl rfl
    have hk : t.Keeps { t with state := .running } :=
      .same { okt with } rfl
    have w : Working { d with active := some i } live i t { t with state := .running } :=
      ⟨hsame.ok, hi, hk, rfl, hfree, rfl, hdest, rfl, rfl, hend⟩
    exact hsame.trans (w.resumeActive ready launch d.active)

/-- The top frame is a quantum: what is left when it is taken off. -/
theorem Ok.quantum (ok : d.Ok live) {rest : List TaskFrame}
    (h : d.frames = .resume i previous :: rest) (hi : d.task i = some t) :
    Working { d with frames := rest } live i t t ∧ t.phase ≠ .initial ∧
      t.betweenCallbacks = false := by
  obtain ⟨ok', hfree, u, hu, hst, hd, hp, hb⟩ := ok.pop h
  obtain rfl : u = t := some.inj (hu.symm.trans hi)
  refine ⟨⟨ok', hi, .refl (ok.tasks hi), rfl, hfree, hst, hd, rfl, rfl, ?_⟩, hp, hb⟩
  rw [hst]
  rfl

theorem Ok.suspend (ok : d.Ok live) (h : d.suspend wait = some d') :
    d.Reaches live True d' := by
  unfold TaskDomain.suspend at h
  split at h
  rotate_left
  · cases h
  rename_i i previous rest hframes
  split at h
  · cases h
  rename_i t hi
  obtain ⟨_, h⟩ := ite_none_pass h
  cases h
  obtain ⟨w, -, -⟩ := ok.quantum hframes hi
  have hk : t.Keeps { t with builtinWait := wait.or t.builtinWait } :=
    .same { w.keeps.ok with } rfl
  have w' : Working { d with frames := rest } live i t
      { t with builtinWait := wait.or t.builtinWait } := { w with keeps := hk }
  have h := w'.rest previous
  exact ⟨h.ok, ⟨h.lives.next, h.lives.limit, h.lives.task⟩, h.exclusive⟩

/-- A callback returned `YIELD` or `WAIT`; nobody is exclusive. -/
theorem Working.park (w : d.Working live i t₀ t) (hk : t.Keeps t')
    (hp : PinsOk d.table sets ((d.put i t').pins live)) (hc : t.callback)
    (hph : t'.phase ≠ .initial) (previous : Option Nat) :
    d.Reaches live True (park { d with sets } i t' previous) := by
  let u : ComponentTask := { t' with betweenCallbacks := true, state := .yielded }
  have hu : t'.Keeps u := .same { hk.ok with
    between := fun _ => ⟨hk.continues.callback.trans hc, hph⟩
    waiting := fun _ => rfl } rfl
  have hku := (w.keeps.trans hk).trans hu
  have hpins : (d.put i u).pins live = (d.put i t').pins live := by
    funext handle
    have h₁ := w.ok.pins_put w.task u handle
    have h₂ := w.ok.pins_put w.task t' handle
    have : u.waitingSet = t'.waitingSet := rfl
    rw [this] at h₁
    omega
  have ok := w.ok.replace w.task hku (hpins ▸ hp) (not_frame w.free)
  exact .smooth (ok.control fun _ _ h => by cases h) (.put w.task hku.continues rfl rfl rfl)
    fun _ j hj => by cases hj

/-- The end of a quantum: the task waits, goes on later, or is finished. -/
theorem Ok.complete (ok : d.Ok live)
    (h : d.complete outcome = some d') : d.Reaches live True d' := by
  unfold TaskDomain.complete at h
  split at h
  rotate_left
  · cases h
  rename_i i previous rest hframes
  split at h
  · cases h
  rename_i t hi
  obtain ⟨_, h⟩ := ite_none_pass h
  obtain ⟨w, hp, hb⟩ := ok.quantum hframes hi
  have hpop : d.Reaches live True { d with frames := rest } := .of_same w.ok rfl rfl rfl rfl
  refine hpop.trans ?_
  cases outcome with
  | error status =>
    cases h
    exact w.finish _ _
  | ok result =>
    have hk : t.Keeps { t with core := false } :=
      .same { w.keeps.ok with } rfl
    have w' : Working { d with frames := rest } live i t { t with core := false } :=
      { w with keeps := hk }
    rcases ite_cases h with ⟨_, h⟩ | ⟨_, h⟩
    · cases h
      exact w'.finish _ _
    rcases ite_cases h with ⟨_, h⟩ | ⟨hcode, h⟩
    · cases h
      exact w'.finish _ _
    -- only a callback has a code
    have hc : t.callback := by
      by_contra hc
      simp [hc] at hcode
    rcases ite_cases h with ⟨_, h⟩ | ⟨_, h⟩
    · split at h
      · cases h
        exact w'.finish _ _
      · rename_i d₁ hacq
        cases h
        generalize hpk : (if t.callback then result else 0) / 16 = handle at hacq ⊢
        -- a running task waits on nothing
        have hzero : t.waitingSet = 0 := by
          by_contra hne
          have := w.keeps.ok.waiting hne
          rw [hb] at this
          cases this
        have hw : t.Keeps { t with core := false, waitingSet := handle, betweenCallbacks := true } :=
          .same { w.keeps.ok with
            between := fun _ => ⟨hc, hp⟩
            waiting := fun _ => rfl } rfl
        have hcount := w.ok.pins_put hi { t with
          core := false, waitingSet := handle, betweenCallbacks := true }
        rw [hzero] at hcount
        obtain ⟨-, hd₁, hpins⟩ := w.ok.pins.acquire hacq
          ((TaskDomain.put { d with frames := rest } i { t with
            core := false, waitingSet := handle, betweenCallbacks := true }).pins live)
          (fun hne => by
            have := hcount handle
            rw [if_neg hne.symm, if_pos rfl] at this
            exact this)
          (fun h hne hother => by
            have := hcount h
            rw [if_neg hne.symm, if_neg hother.symm] at this
            exact this)
        rw [hd₁]
        exact w.park hw hpins hc hp previous
    · cases h
      have hpins : PinsOk d.table d.sets
          ((TaskDomain.put { d with frames := rest } i { t with core := false }).pins live) := by
        refine w.ok.pins.congr fun handle _ => ?_
        exact add_right_cancel (w.ok.pins_put hi { t with core := false } handle)
      exact w.park hk hpins hc hp previous

/-! ## 3. Teardown -/

/-- A teardown begins.  The calls of a running task and those below it end no more. -/
theorem Ok.destroy (ok : d.Ok live) (h : d.destroy i canUnwind = some d') :
    ∃ live', d.Reaches live' True d' := by
  unfold TaskDomain.destroy at h
  split at h
  · cases h
  rename_i t hi
  rcases ite_cases h with ⟨hret, h⟩ | ⟨_, h⟩
  · -- an exited task without anything to clean up
    cases h
    simp only [retirable, Bool.and_eq_true, Bool.not_eq_true', beq_iff_eq, bne_iff_ne] at hret
    obtain ⟨⟨⟨⟨⟨⟨⟨⟨⟨⟨⟨⟨_, _⟩, hend⟩, _⟩, hh⟩, _⟩, hs⟩, hw⟩, _⟩, hd⟩, _⟩, hx⟩, _⟩ := hret
    have hrun : t.state ≠ .running := fun heq => by
      rw [heq] at hend
      cases hend
    exact ⟨_, ok.vacate hi hh hw hs (ok.no_frame hi hd (.inl hrun)) hx⟩
  obtain ⟨-, h⟩ := ite_none_pass h
  cases h
  -- the calls above the quantum of the task, if it has one
  have okw : { d with frames := d.frames.takeWhile (·.task != i) }.Ok live := { ok with
    frames := fun f hm => (ok.frames f ((takeWhile_sublist _).subset hm)).congr rfl id id
    stack := ok.stack.sublist ((takeWhile_sublist _).map _) }
  have hfree : i ∉ (d.frames.takeWhile (·.task != i)).map TaskFrame.task := by
    intro hm
    obtain ⟨f, hf, heq⟩ := mem_map.mp hm
    simpa [heq] using mem_takeWhile_imp hf
  let t' : ComponentTask := { t with destroying := true }
  have hk : t.Keeps t' :=
    .same { ok.tasks hi with } rfl
  have ok' := (okw.put hi hk rfl hfree).push (f := .unwinding i .destroy) hfree
    ⟨t', put_task_self .., rfl, absurd rfl⟩
  refine ⟨live, .smooth (ok'.control fun _ _ => id) (.put hi hk.continues rfl rfl rfl)
    fun hx => ?_⟩
  exact .put (fun j hj _ => hx j hj) rfl fun hj => (hx.at hj hi :)

theorem Ok.unwound (ok : d.Ok live) (h : d.unwound = some d') : d.Reaches live True d' := by
  unfold TaskDomain.unwound at h
  split at h
  rotate_left
  · cases h
  rename_i i after rest hframes
  split at h
  · cases h
  rename_i t hi
  obtain ⟨hidle, h⟩ := ite_none_pass h
  have hres : t.resolving = false := by
    simp only [idle, Bool.and_eq_true, Bool.not_eq_true', Bool.not_eq_false] at hidle
    exact hidle.1
  obtain ⟨ok', hfree, u, hu, hd, ha⟩ := ok.pop hframes
  obtain rfl : u = t := some.inj (hu.symm.trans hi)
  have hpop : d.Reaches live True { d with frames := rest } := .of_same ok' rfl rfl rfl rfl
  refine hpop.trans ?_
  let v : ComponentTask := { u with core := false, builtinWait := none, waitingSet := 0 }
  have hv : u.Keeps v := .same { ok.tasks hi with waiting := fun h => absurd rfl h } rfl
  -- giving the pin back, which `finish` has done already
  have hstep : ∀ after : Teardown, (after ≠ .destroy → d.exclusive ≠ some i) →
      { d with frames := rest }.Reaches live True (.clearBorrows
        (((releasePin { d with frames := rest } u.waitingSet).2).put i v) i v after) := by
    intro after ha
    obtain ⟨sets, hrel, ok₁⟩ := ok'.release hi hv rfl hfree
    rw [hrel]
    have h₁ : { d with frames := rest }.Reaches live True
        (.put { ({ d with frames := rest } : TaskDomain) with sets } i v) := by
      refine .smooth ok₁ (.put hi hv.continues rfl rfl rfl) fun hx => ?_
      refine .put (fun j hj _ => hx j hj) rfl fun hj => ?_
      exact (hx.at hj hi :)
    exact h₁.trans (ok₁.clearBorrows (put_task_self ..) hfree hd rfl hres ha)
  cases after with
  | destroy =>
    cases h
    exact hstep .destroy fun hne => absurd rfl hne
  | finish status previous =>
    cases h
    have hx := ha (by simp)
    have hrun := hstep (.finish status previous) fun _ => hx.1
    have hsame : v = { u with core := false, builtinWait := none } := by
      show ({ u with core := false, builtinWait := none, waitingSet := 0 } : ComponentTask) = _
      rw [← hx.2]
    rwa [hx.2, hsame] at hrun

theorem Ok.retable (ok : d.Ok live)
    (hp : PinsOk table sets (d.pins live)) (hok : table.Ok) (hc : table.Counted)
    (hs : ∀ j, d.task j = none ∨ .disposing j ∈ d.frames → d.table.scopes j = 0 →
      table.scopes j = 0) : { d with table, sets }.Ok live :=
  { ok with
    table := hok
    counted := hc
    unscoped := fun j hj => hs j (.inl hj) (ok.unscoped j hj)
    pins := hp
    frames := fun f hm => (ok.frames f hm).retable fun j heq => hs j (.inr (heq ▸ hm)) }

/-- A teardown past the children.  Only the destroy of an exclusive task that stops here is not
smooth. -/
theorem Ok.childrenAborted (ok : d.Ok live) (h : d.childrenAborted left = some d') :
    ∃ i saved after rest, d.frames = .clearing i saved after :: rest ∧
      d.Reaches live (¬ (after = .destroy ∧ d.exclusive = some i ∧
        (left ∨ ∃ e, d.table.scopeClear i = .error e))) d' := by
  unfold TaskDomain.childrenAborted at h
  split at h
  rotate_left
  · cases h
  rename_i i saved after rest hframes
  split at h
  · cases h
  rename_i t hi
  refine ⟨i, saved, after, rest, hframes, ?_⟩
  obtain ⟨ok', hfree, u, hu, hd, hw, hr, ha⟩ := ok.pop hframes
  obtain rfl : u = t := some.inj (hu.symm.trans hi)
  have ok₁ : { d with active := saved, frames := rest }.Ok live := ok'.control fun _ _ => id
  have h₁ : d.Reaches live True { d with active := saved, frames := rest } :=
    .of_same ok₁ rfl rfl rfl rfl
  refine h₁.trans ?_
  -- the scope was not cleared
  have hblocked : (left ∨ ∃ e, d.table.scopeClear i = .error e) →
      Reaches { d with active := saved, frames := rest } live (¬ (after = .destroy ∧
        d.exclusive = some i ∧ (left ∨ ∃ e, d.table.scopeClear i = .error e)))
        (.torn { d with active := saved, frames := rest } i u after false) := by
    intro hb
    have ht := ok₁.torn hi hfree hd hw hr ha false nofun
    refine ⟨ht.ok, ht.lives, fun hx => (ht.exclusive hx).trans (not_congr ?_)⟩
    exact and_congr_right fun _ => ⟨fun h => ⟨h.2, hb⟩, fun h => ⟨rfl, h.1⟩⟩
  rcases ite_cases h with ⟨hleft, h⟩ | ⟨hleft, h⟩
  · cases h
    exact hblocked (.inl hleft)
  split at h
  · rename_i e he
    cases h
    exact hblocked (.inr ⟨e, he⟩)
  rename_i table htab
  cases h
  have hframe : d.table.Frame (· = .waitableSet) none table :=
    .scopeClear ok.table ok.counted (by simp) htab
  have ok₂ := ok₁.retable (ok₁.pins.frame hframe) hframe.ok hframe.counted
    fun j _ => hframe.scopes j (by simp)
  have ht := ok₂.torn hi hfree hd hw hr ha true fun _ =>
    (ok.counted.scopeClear htab).2
  refine ⟨ht.ok, ⟨ht.lives.next, ht.lives.limit, ht.lives.task⟩,
    fun hx => (ht.exclusive hx).trans (not_congr ?_)⟩
  constructor
  · intro h
    cases h.2.1
  · rintro ⟨-, -, hl | ⟨e, he⟩⟩
    · exact absurd hl hleft
    · have htab' : d.table.scopeClear i = .ok table := htab
      rw [he] at htab'
      cases htab'

theorem Ok.disposed (ok : d.Ok live) (h : d.disposed = some d') :
    ∃ live', d.Reaches live' True d' := by
  unfold TaskDomain.disposed at h
  split at h
  rotate_left
  · cases h
  rename_i i rest hframes
  split at h
  · cases h
  rename_i t hi
  cases h
  obtain ⟨ok', hfree, u, hu, -, hw, hh, hs⟩ := ok.pop hframes
  obtain rfl : u = t := some.inj (hu.symm.trans hi)
  have ok₁ : { d with
      frames := rest
      active := none
      exclusive := if d.exclusive = some i then none else d.exclusive }.Ok live :=
    ok'.control fun f _ hj => (ne_of_cleared hj).1
  have h₁ : d.Reaches live True { d with
      frames := rest
      active := none
      exclusive := if d.exclusive = some i then none else d.exclusive } :=
    .smooth ok₁ ⟨le_rfl, rfl, fun h => .inl ⟨_, h, .refl _⟩⟩ fun hx j hj => hx j (ne_of_cleared hj).1
  exact ⟨_, h₁.trans (ok₁.vacate hi hh hw hs hfree fun hj => (ne_of_cleared hj).2 rfl)⟩

/-! ## 4. Settling the caller -/

/-- A cancellation of a task that has not started settles its caller at once. -/
theorem Ok.requestCancel (ok : d.Ok live)
    (h : d.requestCancel i status = some d') : d.Reaches live True d' := by
  unfold TaskDomain.requestCancel at h
  split at h
  · cases h
  rename_i t hi
  obtain ⟨hn, h⟩ := ite_none_pass h
  simp only [not_or, Bool.not_eq_true] at hn
  obtain ⟨hd, hres, hphase, hreq, hend⟩ := hn
  have okt := ok.tasks hi
  have hk := okt.request hreq
  rcases ite_cases h with ⟨hp, h⟩ | ⟨_, h⟩
  · have hp : t.phase = .initial := hp
    have hfree := ok.no_frame hi hd (.inr hp)
    -- both ways end in `finish`
    have hfin : ∀ {u : ComponentTask}, t.Keeps u → u.waitingSet = t.waitingSet →
        d.Reaches live True (d.finish i u status none) ∧
          d.Reaches live True (d.finish i u none none) := by
      intro u hu hw
      have hone : ∀ status, d.Reaches live True (d.finish i u status none) := by
        intro status
        obtain ⟨ok', hl, hx⟩ := ok.finish hi hu hw hfree status none
        exact .smooth ok' hl fun h => hx fun j hj _ => h j hj
      exact ⟨hone status, hone none⟩
    rcases ite_cases h with ⟨hh, h⟩ | ⟨hh, h⟩
    · cases h
      have hcall := hk.ok.call hh true fun _ => rfl
      have hans := hcall.ok.answered hh hphase true mem_cons_self status
      refine (hfin ((hk.trans hcall).trans hans) ?_).1
      cases status <;> rfl
    · cases h
      have hset := hk.ok.settle (by simpa using hh) hphase true
      exact (hfin (hk.trans hset) rfl).2
  · cases h
    exact ok.touch hi hk ⟨rfl, rfl, rfl, rfl, id, id, .inr⟩

theorem Ok.deliverCancel (ok : d.Ok live) (h : d.deliverCancel = some d') :
    d.Reaches live True d' := by
  unfold TaskDomain.deliverCancel at h
  split at h
  · cases h
  split at h
  · cases h
  rename_i t hi
  obtain ⟨hn, h⟩ := ite_none_pass h
  cases h
  simp only [not_or, Bool.not_eq_false] at hn
  exact ok.touch hi ((ok.tasks hi).deliver hn.2) ⟨rfl, rfl, rfl, rfl, id, id, .inr⟩

theorem returningTask_spec (h : d.returningTask = some (i, t)) :
    d.task i = some t ∧ t.destroying = false ∧ t.resolving = false ∧ t.phase = .started := by
  obtain ⟨_, h⟩ := ite_none_pass h
  split at h
  · cases h
  split at h
  · cases h
  rename_i u hu
  obtain ⟨hn, h⟩ := ite_none_pass h
  cases h
  simp only [not_or, Bool.not_eq_true, not_not] at hn
  exact ⟨hu, hn.1, hn.2.1, hn.2.2.1⟩

theorem Ok.cancel (ok : d.Ok live) (h : d.cancel status = some d') : d.Reaches live True d' := by
  unfold TaskDomain.cancel at h
  split at h
  · cases h
  rename_i i t hret
  obtain ⟨hi, hd, hr, hp⟩ := returningTask_spec hret
  have okt := ok.tasks hi
  have hun : t.phase.resolved = false := by rw [hp]; rfl
  obtain ⟨hdel, h⟩ := ite_none_pass h
  rcases ite_cases h with ⟨hh, h⟩ | ⟨hh, h⟩
  · cases h
    have hreq : t.cancellationRequested := by
      have hdel : .delivered ∈ t.history := okt.delivered.mpr (by simpa using hdel)
      obtain ⟨past, later, heq⟩ := append_of_mem hdel
      have := okt.lawful.at heq
      exact okt.requested.mp (heq ▸ mem_append_right _ (mem_cons_of_mem _ this.2.1))
    have hcall := okt.call hh true fun _ => hreq
    have hans := hcall.ok.answered hh hun true mem_cons_self status
    exact ok.touch hi (hcall.trans hans) ((Touches.log _).trans (.answered true status))
  · cases h
    exact ok.touch hi (okt.settle (by simpa using hh) hun true) (.settle true)

theorem Ok.return_ (ok : d.Ok live)
    (h : d.return_ value refused = some d') : d.Reaches live True d' := by
  unfold TaskDomain.return_ at h
  split at h
  · cases h
  rename_i i t hret
  obtain ⟨hi, hd, hr, hp⟩ := returningTask_spec hret
  have okt := ok.tasks hi
  obtain ⟨_, h⟩ := ite_none_pass h
  rcases ite_cases h with ⟨hh, h⟩ | ⟨hh, h⟩
  · cases h
    have hcall := okt.call hh false nofun
    have hk : t.Keeps ({ t with resolving := true }.log (.called false)) :=
      hcall.trans (.same { hcall.ok with resolving := fun _ => ⟨hh, hp, mem_cons_self⟩ } rfl)
    exact ok.touch hi hk ⟨rfl, rfl, rfl, rfl, id, id, fun _ => .inl hd⟩
  cases h
  have hv : t.Keeps { t with result := value } :=
    .same { okt with } rfl
  have hset := hv.ok.settle (by simpa using hh)
    (by show t.phase.resolved = false; rw [hp]; rfl) false
  have hval : Touches t { t with result := value } := ⟨rfl, rfl, rfl, rfl, id, id, .inr⟩
  exact ok.touch hi (hv.trans hset) (hval.trans (.settle false))

theorem Ok.answer (ok : d.Ok live) (h : d.answer status = some d') : d.Reaches live True d' := by
  unfold TaskDomain.answer at h
  split at h
  · cases h
  split at h
  · cases h
  rename_i t hi
  rcases ite_cases h with ⟨hr, h⟩ | ⟨_, h⟩
  · cases h
    obtain ⟨hh, hp, hc⟩ := (ok.tasks hi).resolving hr
    exact ok.touch hi ((ok.tasks hi).answered hh (by rw [hp]; rfl) false hc status)
      (.answered false status)
  · cases h

theorem Ok.takeResult (ok : d.Ok live) (h : d.takeResult i = some d') : d.Reaches live True d' := by
  unfold TaskDomain.takeResult at h
  split at h
  · cases h
  rename_i t hi
  obtain ⟨_, h⟩ := ite_none_pass h
  cases h
  have hk : t.Keeps { t with result := false } :=
    .same { ok.tasks hi with } rfl
  exact ok.touch hi hk ⟨rfl, rfl, rfl, rfl, id, id, .inr⟩

/-! ## 5. Sets, waits and the table -/

section

variable (ok : d.Ok live)

include ok

theorem Ok.setNew (h : d.setNew s allocated = some d') : d.Reaches live True d' := by
  obtain ⟨table, sets, rfl, hp, hok, hc, hs⟩ := ok.pins.setNew ok.table ok.counted h
  exact .of_same (ok.retable hp hok hc fun j _ hz => by rw [hs, hz]) rfl rfl rfl rfl

theorem Ok.setDrop (h : d.setDrop handle joined = some d') : d.Reaches live True d' := by
  obtain ⟨table, sets, rfl, hp, hok, hc, hs⟩ := ok.pins.setDrop ok.table ok.counted h
  exact .of_same (ok.retable hp hok hc fun j _ => hs j) rfl rfl rfl rfl

theorem Ok.pin (h : d.pin handle = some d') : d.Reaches live True d' := by
  unfold TaskDomain.pin at h
  split at h
  rotate_left
  · cases h
  rename_i i previous rest hframes
  split at h
  · cases h
  rename_i d₁ hacq
  cases h
  obtain ⟨-, hd₁, hp⟩ := ok.pins.acquire hacq
    (TaskDomain.pins { d with waits := (i, handle) :: d.waits } live)
    (fun _ => by
      show _ + List.countP _ (_ :: _) = _ + _ + 1
      rw [countP_cons_of_pos (by simp)]
      exact (add_assoc ..).symm)
    (fun h _ hother => by
      show _ + List.countP _ (_ :: _) = _ + _
      rw [countP_cons_of_neg (by simpa using hother.symm)]
      rfl)
  rw [hd₁]
  exact .of_same { ok with
    pins := hp
    frames := fun f hm => (ok.frames f hm).congr rfl id id } rfl rfl rfl rfl

theorem Ok.unpin (h : d.unpin handle = some d') : d.Reaches live True d' := by
  unfold TaskDomain.unpin at h
  split at h
  · cases h
  rename_i i _
  rcases ite_cases h with ⟨hm, h⟩ | ⟨_, h⟩
  · cases h
    have hcount : ∀ x, d.waits.countP (fun p => p.2 == x) =
        (d.waits.erase (i, handle)).countP (fun p => p.2 == x) + if handle = x then 1 else 0 := by
      intro x
      have hperm := perm_cons_erase hm
      rw [hperm.countP_eq, countP_cons]
      simp
    obtain ⟨sets, hrel, hp⟩ := PinsOk.releasePin
      (d := { d with waits := d.waits.erase (i, handle) }) ok.pins handle
      (TaskDomain.pins { d with waits := d.waits.erase (i, handle) } live)
      (fun _ => by
        show _ + _ = _ + _ + 1
        rw [hcount handle, if_pos rfl]
        rfl)
      (fun x _ hother => by
        show _ + _ = _ + _
        rw [hcount x, if_neg hother.symm]
        rfl)
    rw [hrel]
    exact .of_same { ok with
      pins := hp
      frames := fun f hm => (ok.frames f hm).congr rfl id id } rfl rfl rfl rfl
  · cases h

theorem Ok.setBackpressure
    (h : d.setBackpressure increment = some d') : d.Reaches live True d' := by
  have hany : ∀ n, d.Reaches live True { d with backpressure := n } := fun n =>
    .of_same (ok.control fun _ _ => id) rfl rfl rfl rfl
  rcases ite_cases h with ⟨_, h⟩ | ⟨_, h⟩ <;> rcases ite_cases h with ⟨_, h⟩ | ⟨_, h⟩
  · cases h
  · cases h
    exact hany _
  · cases h
  · cases h
    exact hany _

/-- The borrows of the task that is being prepared are the only ones that grow. -/
theorem Ok.tableAct
    (h : d.table.act d.borrowScope a = some table) : d.Reaches live True { d with table } := by
  have hframe := Table.Frame.act ok.table ok.counted h
  refine .of_same (ok.retable (ok.pins.frame hframe) hframe.ok hframe.counted ?_) rfl rfl rfl rfl
  intro j hj hz
  refine hframe.scopes j (fun hscope => ?_) hz
  -- its quantum is in progress, so it has a record and is not torn down
  unfold borrowScope at hscope
  split at hscope
  · rename_i i previous rest hframes
    obtain ⟨u, hu, hscope⟩ := bind_eq_some_iff.mp hscope
    rcases ite_cases hscope with ⟨_, hscope⟩ | ⟨_, hscope⟩
    · cases hscope
      obtain ⟨v, hv, -, hd, -⟩ := ok.frames _ (hframes ▸ mem_cons_self)
      rcases hj with hj | hj
      · rw [hj] at hu
        cases hu
      · obtain ⟨x, hx, hdest, -⟩ := ok.frames _ hj
        obtain rfl : x = v := some.inj (hx.symm.trans hv)
        rw [hd] at hdest
        cases hdest
    · cases hscope
  · cases hscope

end

end TaskDomain

end TurboWasm
