/-
# The invariant of a task domain

`TaskDomain.Ok` is what holds of a domain whatever was done to it: it counts its tasks, every task and
every task that has left agrees with its history, borrow counters and pins are exact, and each call in
progress finds its task in the state in which it left it.  The exclusive task (`ExclusiveLaw`) is kept
apart: one operation can break it.

`Reaches` is the statement about one operation.  This file has the pieces that operations are made
of: replacing a task, finishing and tearing it down, admitting it and letting it leave.
-/
import TurboWasm.Component.Task.History
import TurboWasm.Component.Task.Pins
import TurboWasm.Lib.Counting

namespace TurboWasm

open Lib List Option Function TaskDomain ComponentTask TaskFrame

namespace TaskDomain

variable {d d' : TaskDomain} {live : Finset Nat} {i : Nat} {t t' : ComponentTask}
  {f : TaskFrame} {sets : Nat → WaitSet} {after : Teardown}

/-! ## 1. The invariant -/

/-- The task pins the set. -/
def waitsOn (d : TaskDomain) (handle i : Nat) : Bool :=
  (d.task i).any fun t => t.waitingSet == handle

/-- The number of tasks and builtin waits that pin a set. -/
def pins (d : TaskDomain) (live : Finset Nat) (handle : Nat) : Nat :=
  (live.filter (d.waitsOn handle ·)).card + d.waits.countP fun p => p.2 == handle

/-- What a call in progress finds. -/
def FrameOk (d : TaskDomain) : TaskFrame → Prop
  | .resume i _ => ∃ t, d.task i = some t ∧ t.state = .running ∧ t.destroying = false ∧
      t.phase ≠ .initial ∧ t.betweenCallbacks = false
  | .unwinding i after => ∃ t, d.task i = some t ∧ t.destroying ∧
      (after ≠ .destroy → d.exclusive ≠ some i ∧ t.waitingSet = 0)
  | .clearing i _ after => ∃ t, d.task i = some t ∧ t.destroying ∧ t.waitingSet = 0 ∧
      t.resolving = false ∧ (after ≠ .destroy → d.exclusive ≠ some i)
  | .disposing i => ∃ t, d.task i = some t ∧ t.destroying ∧ t.waitingSet = 0 ∧
      t.hooks = false ∧ d.table.scopes i = 0

/-- The invariant; `live` are the tasks of the domain. -/
structure Ok (d : TaskDomain) (live : Finset Nat) : Prop where
  members : ∀ i, i ∈ live ↔ (d.task i).isSome
  count : d.count = live.card
  limit : live.card ≤ d.limit
  tasks : ∀ {i : Nat} {t : ComponentTask}, d.task i = some t → t.Ok
  gone : ∀ t ∈ d.destroyed, t.Ok ∧ t.hooks = false
  generation : ∀ {i : Nat} {t : ComponentTask}, d.task i = some t →
    t.generation ≤ d.nextGeneration
  table : d.table.Ok
  counted : d.table.Counted
  unscoped : ∀ i, d.task i = none → d.table.scopes i = 0
  pins : PinsOk d.table d.sets (d.pins live)
  frames : ∀ f ∈ d.frames, d.FrameOk f
  /-- A task has one call in progress at most. -/
  stack : (d.frames.map TaskFrame.task).Nodup

/-- A callback-style task that has started, is not between callbacks and has not finished. -/
def MayExclude (d : TaskDomain) (i : Nat) : Prop :=
  ∃ t, d.task i = some t ∧ t.callback ∧ t.phase ≠ .initial ∧
    t.betweenCallbacks = false ∧ t.state.ended = false

/-- `exclusive` is `NULL` or such a task. -/
def ExclusiveLaw (d : TaskDomain) : Prop := ∀ i, d.exclusive = some i → d.MayExclude i

/-- `d'` is a later state: its tasks are later records of tasks of `d`, or younger. -/
structure Lives (d d' : TaskDomain) : Prop where
  next : d.nextGeneration ≤ d'.nextGeneration
  limit : d'.limit = d.limit
  task : ∀ {i : Nat} {t' : ComponentTask}, d'.task i = some t' →
    (∃ t, d.task i = some t ∧ t.Continues t') ∨ d.nextGeneration < t'.generation

theorem Lives.refl (d : TaskDomain) : d.Lives d :=
  ⟨le_rfl, rfl, fun ht => .inl ⟨_, ht, .refl _⟩⟩

theorem Lives.trans (h : d.Lives d') (h' : d'.Lives d'') : d.Lives d'' where
  next := h.next.trans h'.next
  limit := h'.limit.trans h.limit
  task := by
    intro i t'' ht''
    rcases h'.task ht'' with ⟨t', ht', hc'⟩ | hnew
    · rcases h.task ht' with ⟨t, ht, hc⟩ | hnew
      · exact .inl ⟨t, ht, hc.trans hc'⟩
      · exact .inr (hc'.generation ▸ hnew)
    · exact .inr (h.next.trans_lt hnew)

/-- What one operation does; it keeps the law of the exclusive task exactly if it is smooth. -/
structure Reaches (d : TaskDomain) (live : Finset Nat) (smooth : Prop) (d' : TaskDomain) : Prop where
  ok : d'.Ok live
  lives : d.Lives d'
  exclusive : d.ExclusiveLaw → (d'.ExclusiveLaw ↔ smooth)

theorem Reaches.smooth (ok : d'.Ok live) (lives : d.Lives d')
    (hx : d.ExclusiveLaw → d'.ExclusiveLaw) : d.Reaches live True d' :=
  ⟨ok, lives, fun h => ⟨fun _ => trivial, fun _ => hx h⟩⟩

theorem Reaches.trans {smooth : Prop} (h : d.Reaches live True d')
    (h' : d'.Reaches live' smooth d'') : d.Reaches live' smooth d'' where
  ok := h'.ok
  lives := h.lives.trans h'.lives
  exclusive hx := h'.exclusive ((h.exclusive hx).mpr trivial)

/-- An operation that changes neither tasks, frames nor the exclusive task. -/
theorem Reaches.of_same (ok : d'.Ok live) (ht : d'.task = d.task)
    (hn : d'.nextGeneration = d.nextGeneration) (hl : d'.limit = d.limit)
    (hx : d'.exclusive = d.exclusive) : d.Reaches live True d' where
  ok := ok
  lives := by
    refine ⟨le_of_eq hn.symm, hl, fun h => .inl ⟨_, ?_, .refl _⟩⟩
    rwa [← ht]
  exclusive h := by
    refine ⟨fun _ => trivial, fun _ j hj => ?_⟩
    unfold MayExclude
    rw [ht]
    exact h j (hx ▸ hj)

/-! ## 2. Replacing a task -/

@[simp] theorem put_task_self (d : TaskDomain) (i : Nat) (t : ComponentTask) :
    (d.put i t).task i = some t := update_self ..

theorem put_task_of_ne (h : j ≠ i) : (d.put i t).task j = d.task j :=
  update_of_ne h ..

theorem put_task_some (h : (d.put i t).task j = some u) : j = i ∧ u = t ∨ d.task j = some u := by
  by_cases hj : j = i
  · subst hj
    exact .inl ⟨rfl, some.inj (h.symm.trans (put_task_self ..))⟩
  · exact .inr ((put_task_of_ne hj).symm.trans h)

theorem put_put : (d.put i t).put i t' = d.put i t' := by
  unfold put
  rw [update_idem]

theorem FrameOk.congr (h : d.FrameOk f) (ht : d'.task f.task = d.task f.task)
    (hx : d'.exclusive = some f.task → d.exclusive = some f.task)
    (hs : d.table.scopes f.task = 0 → d'.table.scopes f.task = 0) : d'.FrameOk f := by
  cases f with
  | resume i previous =>
    obtain ⟨t, hi, h⟩ := h
    exact ⟨t, ht.trans hi, h⟩
  | unwinding i after =>
    obtain ⟨t, hi, hd, h⟩ := h
    exact ⟨t, ht.trans hi, hd, fun ha => ⟨fun heq => (h ha).1 (hx heq), (h ha).2⟩⟩
  | clearing i saved after =>
    obtain ⟨t, hi, hd, hw, hr, h⟩ := h
    exact ⟨t, ht.trans hi, hd, hw, hr, fun ha heq => h ha (hx heq)⟩
  | disposing i =>
    obtain ⟨t, hi, hd, hw, hh, hz⟩ := h
    exact ⟨t, ht.trans hi, hd, hw, hh, hs hz⟩

/-- The fields that only say who runs; the calls in progress look at the exclusive task. -/
theorem Ok.control (ok : d.Ok live) {active exclusive : Option Nat} {backpressure : Nat}
    (hx : ∀ f ∈ d.frames, exclusive = some f.task → d.exclusive = some f.task) :
    { d with active, exclusive, backpressure }.Ok live :=
  { ok with
    frames := fun f hm => (ok.frames f hm).congr rfl (hx f hm) id }

/-- Only the destruction of a result looks at the table. -/
theorem FrameOk.retable {table : Table} (h : d.FrameOk f)
    (hs : ∀ j, f = .disposing j → d.table.scopes j = 0 → table.scopes j = 0) :
    { d with table, sets }.FrameOk f := by
  cases f with
  | resume i previous | unwinding i after | clearing i saved after => exact h
  | disposing i =>
    obtain ⟨t, hi, hd, hw, hh, hz⟩ := h
    exact ⟨t, hi, hd, hw, hh, hs i rfl hz⟩

theorem FrameOk.isSome (h : d.FrameOk f) : ∃ t, d.task f.task = some t := by
  cases f with
  | resume i previous | unwinding i after | clearing i saved after | disposing i =>
    exact ⟨_, h.choose_spec.1⟩

/-- Only the calls of a task see that it is replaced. -/
theorem FrameOk.put (h : d.FrameOk f) (hf : f.task ≠ i) : (d.put i t).FrameOk f :=
  h.congr (put_task_of_ne hf) id id

/-- A task that neither runs nor is torn down has no call in progress. -/
theorem Ok.no_frame (ok : d.Ok live) (hi : d.task i = some t) (hd : t.destroying = false)
    (hr : t.state ≠ .running ∨ t.phase = .initial) : i ∉ d.frames.map TaskFrame.task := by
  intro hm
  obtain ⟨f, hf, rfl⟩ := mem_map.mp hm
  have h := ok.frames f hf
  cases f with
  | resume j previous =>
    obtain ⟨u, hu, hst, -, hp, -⟩ := h
    obtain rfl : u = t := some.inj (hu.symm.trans hi)
    rcases hr with hr | hr
    · exact hr hst
    · exact hp hr
  | unwinding j after | clearing j saved after | disposing j =>
    obtain ⟨u, hu, hdest, -⟩ := h
    obtain rfl : u = t := some.inj (hu.symm.trans hi)
    rw [hd] at hdest
    cases hdest

/-- The pins after a task is replaced. -/
theorem Ok.pins_put (ok : d.Ok live) (hi : d.task i = some t) (t' : ComponentTask) (handle : Nat) :
    (d.put i t').pins live handle + (if t.waitingSet = handle then 1 else 0) =
      d.pins live handle + (if t'.waitingSet = handle then 1 else 0) := by
  have hmem : i ∈ live := (ok.members i).mpr (by rw [hi]; rfl)
  have hcard := card_filter_change (p := d.waitsOn handle) (q := (d.put i t').waitsOn handle) hmem
    fun j hj => by simp only [waitsOn, put_task_of_ne hj]
  have hold : d.waitsOn handle i = (t.waitingSet == handle) := by simp [waitsOn, hi]
  have hnew : (d.put i t').waitsOn handle i = (t'.waitingSet == handle) := by simp [waitsOn]
  rw [hold, hnew] at hcard
  simp only [beq_iff_eq] at hcard
  show _ + d.waits.countP _ + _ = _ + d.waits.countP _ + _
  omega

/-- A task is replaced, with new counters of the sets. -/
theorem Ok.replace (ok : d.Ok live) (hi : d.task i = some t) (hk : t.Keeps t')
    (hp : PinsOk d.table sets ((d.put i t').pins live))
    (hf : ∀ f ∈ d.frames, f.task = i → (d.put i t').FrameOk f) :
    ({ d with sets }.put i t').Ok live where
  members j := by
    by_cases hj : j = i
    · subst hj
      rw [put_task_self, ok.members, hi]
      simp
    · rw [put_task_of_ne hj]
      exact ok.members j
  count := ok.count
  limit := ok.limit
  tasks := by
    intro j u hu
    rcases put_task_some hu with ⟨-, rfl⟩ | hu
    · exact hk.ok
    · exact ok.tasks hu
  gone := ok.gone
  generation := by
    intro j u hu
    rcases put_task_some hu with ⟨-, rfl⟩ | hu
    · exact hk.continues.generation ▸ ok.generation hi
    · exact ok.generation hu
  table := ok.table
  counted := ok.counted
  unscoped := by
    intro j hj
    by_cases hji : j = i
    · subst hji
      rw [put_task_self] at hj
      cases hj
    · rw [put_task_of_ne hji] at hj
      exact ok.unscoped j hj
  pins := hp
  frames := by
    intro f hm
    by_cases hfi : f.task = i
    · exact (hf f hm hfi).congr rfl id id
    · exact ((ok.frames f hm).put hfi).congr rfl id id
  stack := ok.stack

/-- The pins stay when the task pins what it pinned. -/
theorem Ok.pins_same (ok : d.Ok live) (hi : d.task i = some t)
    (hw : t'.waitingSet = t.waitingSet) : PinsOk d.table d.sets ((d.put i t').pins live) := by
  refine ok.pins.congr fun handle _ => ?_
  have := ok.pins_put hi t' handle
  rw [hw] at this
  exact add_right_cancel this

/-- No call of the task is in progress. -/
theorem not_frame {P : TaskFrame → Prop} (h : i ∉ d.frames.map TaskFrame.task) (f : TaskFrame)
    (hf : f ∈ d.frames) (heq : f.task = i) : P f :=
  absurd (mem_map.mpr ⟨f, hf, heq⟩) h

/-- A task without a call in progress is replaced and pins what it pinned. -/
theorem Ok.put (ok : d.Ok live) (hi : d.task i = some t) (hk : t.Keeps t')
    (hw : t'.waitingSet = t.waitingSet) (hf : i ∉ d.frames.map TaskFrame.task) :
    (d.put i t').Ok live :=
  ok.replace hi hk (ok.pins_same hi hw) (not_frame hf)

theorem Lives.put (hi : d.task i = some t) (hc : t.Continues t')
    (ht : d'.task = (d.put i t').task) (hn : d'.nextGeneration = d.nextGeneration)
    (hl : d'.limit = d.limit) : d.Lives d' where
  next := le_of_eq hn.symm
  limit := hl
  task := by
    intro j u hu
    rw [ht] at hu
    rcases put_task_some hu with ⟨rfl, rfl⟩ | hu
    · exact .inl ⟨t, hi, hc⟩
    · exact .inl ⟨u, hu, .refl u⟩

/-- The pin of a task is given back; nothing fails. -/
theorem Ok.release (ok : d.Ok live) (hi : d.task i = some t) (hk : t.Keeps t')
    (hw : t'.waitingSet = 0) (hf : i ∉ d.frames.map TaskFrame.task) :
    ∃ sets, d.releasePin t.waitingSet = (none, { d with sets }) ∧
      ({ d with sets }.put i t').Ok live := by
  have hcount := ok.pins_put hi t'
  rw [hw] at hcount
  obtain ⟨sets, hrel, hp⟩ := ok.pins.releasePin t.waitingSet ((d.put i t').pins live)
    (fun hne => by
      have := hcount t.waitingSet
      rw [if_pos rfl, if_neg hne.symm] at this
      omega)
    (fun h hne hother => by
      have := hcount h
      rw [if_neg hother.symm, if_neg hne.symm] at this
      exact this)
  exact ⟨sets, hrel, ok.replace hi hk hp (not_frame hf)⟩

/-- A change that calls in progress and the exclusive task do not see. -/
structure Touches (t t' : ComponentTask) : Prop where
  state : t'.state = t.state
  destroying : t'.destroying = t.destroying
  between : t'.betweenCallbacks = t.betweenCallbacks
  waiting : t'.waitingSet = t.waitingSet
  phase : t.phase ≠ .initial → t'.phase ≠ .initial
  hooks : t'.hooks → t.hooks
  resolving : t'.resolving → t.destroying = false ∨ t.resolving

theorem Touches.log (e : TaskEvent) : Touches t (t.log e) :=
  ⟨rfl, rfl, rfl, rfl, id, id, .inr⟩

theorem Touches.settle (cancelled : Bool) : Touches t (t.settle cancelled) := by
  refine ⟨rfl, rfl, rfl, rfl, fun _ => ?_, id, .inr⟩
  cases cancelled <;> simp [ComponentTask.settle, ComponentTask.log]

theorem Touches.answered (cancelled : Bool) (status : Option Status) :
    Touches t (t.answered cancelled status) := by
  cases status with
  | none =>
    refine ⟨rfl, rfl, rfl, rfl, fun _ => ?_, fun h => ?_, fun h => ?_⟩
    · cases cancelled <;> simp [ComponentTask.answered, ComponentTask.settle, ComponentTask.log]
    · cases h
    · cases h
  | some s =>
    refine ⟨rfl, rfl, rfl, rfl, id, id, fun h => ?_⟩
    cases h

theorem Touches.trans (h : Touches t t') (h' : Touches t' u) : Touches t u where
  state := h'.state.trans h.state
  destroying := h'.destroying.trans h.destroying
  between := h'.between.trans h.between
  waiting := h'.waiting.trans h.waiting
  phase := h'.phase ∘ h.phase
  hooks := h.hooks ∘ h'.hooks
  resolving hr := by
    rcases h'.resolving hr with hd | hr
    · exact .inl (h.destroying ▸ hd)
    · exact h.resolving hr

theorem FrameOk.touch (h : d.FrameOk f) (hi : d.task f.task = some t)
    (ht : Touches t t') : (d.put f.task t').FrameOk f := by
  cases f with
  | resume i previous =>
    obtain ⟨u, hu, hst, hd, hp, hb⟩ := h
    obtain rfl : u = t := some.inj (hu.symm.trans hi)
    exact ⟨t', put_task_self .., ht.state.trans hst, ht.destroying.trans hd, ht.phase hp,
      ht.between.trans hb⟩
  | unwinding i after =>
    obtain ⟨u, hu, hd, ha⟩ := h
    obtain rfl : u = t := some.inj (hu.symm.trans hi)
    exact ⟨t', put_task_self .., ht.destroying.trans hd,
      fun h => ⟨(ha h).1, ht.waiting.trans (ha h).2⟩⟩
  | clearing i saved after =>
    obtain ⟨u, hu, hd, hw, hr, ha⟩ := h
    obtain rfl : u = t := some.inj (hu.symm.trans hi)
    refine ⟨t', put_task_self .., ht.destroying.trans hd, ht.waiting.trans hw, ?_, ha⟩
    cases hr' : t'.resolving with
    | false => rfl
    | true =>
      rcases ht.resolving hr' with h | h
      · rw [hd] at h
        cases h
      · rw [hr] at h
        cases h
  | disposing i =>
    obtain ⟨u, hu, hd, hw, hh, hz⟩ := h
    obtain rfl : u = t := some.inj (hu.symm.trans hi)
    refine ⟨t', put_task_self .., ht.destroying.trans hd, ht.waiting.trans hw, ?_, hz⟩
    cases hh' : t'.hooks with
    | false => rfl
    | true =>
      rw [ht.hooks hh'] at hh
      cases hh

/-- The exclusive task after one task is replaced. -/
theorem ExclusiveLaw.put (h : ∀ j, d'.exclusive = some j → j ≠ i → d.MayExclude j)
    (ht : d'.task = (d.put i t').task) (hi : d'.exclusive = some i → t'.callback ∧
      t'.phase ≠ .initial ∧ t'.betweenCallbacks = false ∧ t'.state.ended = false) :
    d'.ExclusiveLaw := by
  intro j hj
  unfold MayExclude
  rw [ht]
  by_cases hji : j = i
  · subst hji
    exact ⟨t', put_task_self .., hi hj⟩
  · obtain ⟨u, hu, hm⟩ := h j hj hji
    exact ⟨u, (put_task_of_ne hji).trans hu, hm⟩

/-- What the law says of a task that is exclusive. -/
theorem ExclusiveLaw.at (h : d.ExclusiveLaw) (hx : d.exclusive = some i) (hi : d.task i = some t) :
    t.callback ∧ t.phase ≠ .initial ∧ t.betweenCallbacks = false ∧ t.state.ended = false := by
  obtain ⟨u, hu, hm⟩ := h i hx
  exact some.inj (hu.symm.trans hi) ▸ hm

theorem Ok.touch (ok : d.Ok live) (hi : d.task i = some t) (hk : t.Keeps t')
    (ht : Touches t t') : d.Reaches live True (d.put i t') where
  ok := ok.replace hi hk (ok.pins_same hi ht.waiting) fun f hf heq => by
    subst heq
    exact (ok.frames f hf).touch hi ht
  lives := .put hi hk.continues rfl rfl rfl
  exclusive hx := by
    refine ⟨fun _ => trivial, fun _ => .put (fun j hj _ => hx j hj) rfl fun hj => ?_⟩
    obtain ⟨hc, hp, hb, he⟩ := hx.at hj hi
    exact ⟨hk.continues.callback.trans hc, ht.phase hp, ht.between.trans hb, ht.state ▸ he⟩

/-- A call that is over is taken off the stack. -/
theorem Ok.pop (ok : d.Ok live) {rest : List TaskFrame} (h : d.frames = f :: rest) :
    { d with frames := rest }.Ok live ∧ f.task ∉ rest.map TaskFrame.task ∧ d.FrameOk f := by
  have hstack := ok.stack
  rw [h, map_cons, nodup_cons] at hstack
  refine ⟨{ ok with
    frames := fun g hg => ?_
    stack := hstack.2 }, hstack.1, ok.frames f (by rw [h]; exact mem_cons_self)⟩
  exact (ok.frames g (by rw [h]; exact mem_cons_of_mem _ hg)).congr rfl id id

/-- A call of a task without one starts. -/
theorem Ok.push (ok : d.Ok live) (hf : f.task ∉ d.frames.map TaskFrame.task) (h : d.FrameOk f) :
    { d with frames := f :: d.frames }.Ok live :=
  { ok with
    frames := fun g hm => by
      rcases mem_cons.mp hm with rfl | hm
      · exact h.congr rfl id id
      · exact (ok.frames g hm).congr rfl id id
    stack := nodup_cons.mpr ⟨hf, ok.stack⟩ }

/-! ## 3. Finishing a task -/

theorem ne_of_cleared (hj : (if d.exclusive = some i then none else d.exclusive) = some j) :
    d.exclusive = some j ∧ j ≠ i := by
  obtain ⟨hne, hj⟩ := ite_none_pass hj
  exact ⟨hj, fun heq => hne (heq ▸ hj)⟩

/-- **`finish` never fails to give a pin back**, and its task is no longer exclusive.  `t` is the
record that the quantum works on, `t₀` the one before. -/
theorem Ok.finish (ok : d.Ok live) (hi : d.task i = some t₀) (hk : t₀.Keeps t)
    (hw : t.waitingSet = t₀.waitingSet) (hf : i ∉ d.frames.map TaskFrame.task)
    (status : Option Status) (previous : Option (Option Nat)) :
    (d.finish i t status previous).Ok live ∧ d.Lives (d.finish i t status previous) ∧
      ((∀ j, d.exclusive = some j → j ≠ i → d.MayExclude j) →
        (d.finish i t status previous).ExclusiveLaw) := by
  cases status with
  | none =>
    let t' : ComponentTask := { t with
      waitingSet := 0, betweenCallbacks := false, status := none, state := .completed }
    have hk' : t₀.Keeps t' := hk.trans (.same { hk.ok with
      between := nofun
      waiting := fun h => absurd rfl h } rfl)
    obtain ⟨sets, hrel, ok'⟩ := ok.release hi hk' rfl hf
    have heq : d.finish i t none previous = { ({ d with sets }.put i t') with
        exclusive := if d.exclusive = some i then none else d.exclusive
        active := previous.getD d.active } := by
      unfold TaskDomain.finish
      simp only [hw, hrel]
      rfl
    rw [heq]
    refine ⟨ok'.control fun f _ hj => (ne_of_cleared hj).1,
      .put hi hk'.continues rfl rfl rfl, fun hx => ?_⟩
    refine .put (fun j hj hne => hx j (ne_of_cleared hj).1 hne) rfl fun hj => ?_
    exact absurd rfl (ne_of_cleared hj).2
  | some failure =>
    let t' : ComponentTask := { t with
      waitingSet := 0, betweenCallbacks := false, status := some failure, destroying := true }
    have hk' : t₀.Keeps t' := hk.trans (.same { hk.ok with
      between := nofun
      waiting := fun h => absurd rfl h } rfl)
    obtain ⟨sets, hrel, ok'⟩ := ok.release hi hk' rfl hf
    have heq : d.finish i t (some failure) previous = { ({ d with sets }.put i t') with
        exclusive := if d.exclusive = some i then none else d.exclusive
        frames := .unwinding i (.finish failure previous) :: d.frames } := by
      unfold TaskDomain.finish
      simp only [hw, hrel]
      rfl
    rw [heq]
    have ok'' : { ({ d with sets }.put i t') with
        exclusive := if d.exclusive = some i then none else d.exclusive }.Ok live :=
      ok'.control fun f _ hj => (ne_of_cleared hj).1
    refine ⟨ok''.push hf ⟨t', put_task_self .., rfl,
      fun _ => ⟨fun hj => (ne_of_cleared hj).2 rfl, rfl⟩⟩,
      .put hi hk'.continues rfl rfl rfl, fun hx => ?_⟩
    refine .put (fun j hj hne => hx j (ne_of_cleared hj).1 hne) rfl fun hj => ?_
    exact absurd rfl (ne_of_cleared hj).2

/-- The rest of a teardown.  A `destroy` that could not clear the borrows of the exclusive task
leaves it exclusive and finished. -/
theorem Ok.torn (ok : d.Ok live) (hi : d.task i = some t) (hf : i ∉ d.frames.map TaskFrame.task)
    (hd : t.destroying) (hw : t.waitingSet = 0) (hr : t.resolving = false)
    (ha : after ≠ .destroy → d.exclusive ≠ some i) (cleared : Bool)
    (hc : cleared → d.table.scopes i = 0) :
    d.Reaches live (¬ (after = .destroy ∧ cleared = false ∧ d.exclusive = some i))
      (d.torn i t after cleared) := by
  have okt := ok.tasks hi
  have hzero : cleared → d.table.claims i = 0 := fun h =>
    (ok.counted.count i).symm.trans (hc h)
  cases after with
  | finish status previous =>
    let u := if cleared then t.abandon (d.table.claims i) else t
    have hu : t.Keeps u ∧ u.waitingSet = 0 := by
      cases cleared with
      | true =>
        refine ⟨(okt.abandon hr (hzero rfl)).1, ?_⟩
        show (t.abandon _).waitingSet = 0
        unfold abandon
        split <;> exact hw
      | false => exact ⟨.refl okt, hw⟩
    let t' : ComponentTask := { u with destroying := false, state := .ofStatus status }
    have hk : t.Keeps t' := hu.1.trans (.same { hu.1.ok with } rfl)
    have ok' : (d.put i t').Ok live :=
      ok.put hi hk (hu.2.trans hw.symm) hf
    refine ⟨ok'.control fun _ _ => id,
      .put hi hk.continues rfl rfl rfl, fun hx => ⟨fun _ h => ?_, fun _ => ?_⟩⟩
    · cases h.1
    · refine .put (fun j hj _ => hx j hj) rfl fun hj => ?_
      exact absurd hj (ha (by simp))
  | destroy =>
    cases cleared with
    | true =>
      obtain ⟨hk, hh⟩ := okt.abandon hr (hzero rfl)
      have hsame : (t.abandon (d.table.claims i)).waitingSet = 0 ∧
          (t.abandon (d.table.claims i)).destroying ∧
          (t.abandon (d.table.claims i)).phase = t.phase ∧
          (t.abandon (d.table.claims i)).betweenCallbacks = t.betweenCallbacks ∧
          (t.abandon (d.table.claims i)).state = t.state := by
        unfold abandon
        split <;> exact ⟨hw, hd, rfl, rfl, rfl⟩
      obtain ⟨hw', hd', hp', hb', hs'⟩ := hsame
      have ok' := ok.put hi hk (hw'.trans hw.symm) hf
      refine ⟨ok'.push hf ⟨_, put_task_self .., hd', hw', hh, hc rfl⟩,
        .put hi hk.continues rfl rfl rfl, fun hx => ⟨fun _ h => ?_, fun _ => ?_⟩⟩
      · cases h.2.1
      · refine .put (fun j hj _ => hx j hj) rfl fun hj => ?_
        obtain ⟨hcb, hp, hb, he⟩ := hx.at hj hi
        exact ⟨hk.continues.callback.trans hcb, hp' ▸ hp, hb'.trans hb, hs' ▸ he⟩
    | false =>
      let t' : ComponentTask := { t with
        destroying := false, state := .failed, status := some .interrupted }
      have hk : t.Keeps t' := .same { okt with } rfl
      have ok' : (d.put i t').Ok live :=
        ok.put hi hk rfl hf
      refine ⟨ok'.control fun _ _ => id,
        .put hi hk.continues rfl rfl rfl, fun hx => ⟨fun hx' h => ?_, fun h => ?_⟩⟩
      · -- the task is finished and still exclusive
        obtain ⟨u, hu, -, -, -, he⟩ := hx' i h.2.2
        have hu' : (d.put i t').task i = some u := hu
        rw [put_task_self] at hu'
        cases hu'
        cases he
      · refine .put (fun j hj _ => hx j hj) rfl fun hj => ?_
        exact absurd ⟨rfl, rfl, hj⟩ h

theorem Ok.clearBorrows (ok : d.Ok live) (hi : d.task i = some t)
    (hf : i ∉ d.frames.map TaskFrame.task) (hd : t.destroying) (hw : t.waitingSet = 0)
    (hr : t.resolving = false) (ha : after ≠ .destroy → d.exclusive ≠ some i) :
    d.Reaches live True (d.clearBorrows i t after) := by
  unfold TaskDomain.clearBorrows
  split
  · rename_i hz
    have h := ok.torn hi hf hd hw hr ha true fun _ => hz
    exact ⟨h.ok, h.lives, fun hx => (h.exclusive hx).trans (by simp)⟩
  · have ok' := ok.push (f := .clearing i d.active after) hf ⟨t, hi, hd, hw, hr, ha⟩
    exact .of_same (ok'.control fun _ _ => id) rfl rfl rfl rfl

/-! ## 4. Admission and departure -/

/-- A task is admitted under an address that is not in use. -/
theorem Ok.create (ok : d.Ok live) {callback hostImport hooked refused : Bool}
    (h : d.create i callback hostImport hooked refused = some d') :
    d.Reaches (insert i live) True d' := by
  obtain ⟨hn, h⟩ := ite_none_pass h
  simp only [not_or] at hn
  obtain ⟨hnone, -, -, hlim, -⟩ := hn
  have hnone : d.task i = none := by simpa using hnone
  have hmem : i ∉ live := by
    rw [ok.members, hnone]
    simp
  have htable : ({ d.table with scopes := update d.table.scopes i 0 } : Table) = d.table := by
    rw [← ok.unscoped i hnone, update_eq_self]
  simp only [htable] at h
  cases h
  have hne : ∀ f ∈ d.frames, f.task ≠ i := by
    intro f hf heq
    obtain ⟨u, hu⟩ := (ok.frames f hf).isSome
    rw [heq, hnone] at hu
    cases hu
  refine ⟨⟨fun j => ?_, ?_, ?_, fun {j u} hu => ?_, ok.gone, fun {j u} hu => ?_, ok.table, ok.counted,
    fun j hj => ?_, ?_, fun f hf => ?_, ok.stack⟩, ⟨Nat.le_succ _, rfl, fun {j u} hu => ?_⟩,
    fun hx => ⟨fun _ => trivial, fun _ j hj => ?_⟩⟩
  · by_cases hj : j = i
    · subst hj
      simp
    · rw [Finset.mem_insert, ok.members]
      simp [TaskDomain.put, hj]
  · show d.count + 1 = _
    rw [Finset.card_insert_of_notMem hmem, ok.count]
  · have := ok.limit
    have := ok.count
    rw [Finset.card_insert_of_notMem hmem]
    show live.card + 1 ≤ d.limit
    omega
  · rcases put_task_some hu with ⟨-, rfl⟩ | hu
    · exact .create
    · exact ok.tasks hu
  · rcases put_task_some hu with ⟨-, rfl⟩ | hu
    · exact le_rfl
    · exact (ok.generation hu).trans (Nat.le_succ _)
  · by_cases hji : j = i
    · subst hji
      cases (put_task_self ..).symm.trans hj
    · exact ok.unscoped j ((put_task_of_ne hji).symm.trans hj)
  · -- a new task pins nothing
    refine ok.pins.congr fun handle hh => ?_
    let new : ComponentTask :=
      { callback, hostImport, hooked, hooks := hooked, generation := d.nextGeneration + 1 }
    have hcard := card_filter_insert (p := d.waitsOn handle) (q := (d.put i new).waitsOn handle)
      hmem fun j hj => by simp only [waitsOn, put_task_of_ne hj]
    have hno : (d.put i new).waitsOn handle i = false := by simp [waitsOn, new, hh.symm]
    rw [hno] at hcard
    exact congrArg (· + _) hcard
  · exact ((ok.frames f hf).put (hne f hf)).congr rfl id id
  · rcases put_task_some hu with ⟨-, rfl⟩ | hu
    · exact .inr (Nat.lt_succ_self _)
    · exact .inl ⟨u, hu, .refl u⟩
  · obtain ⟨u, hu, hm⟩ := hx j hj
    have hji : j ≠ i := fun heq => by
      rw [heq, hnone] at hu
      cases hu
    exact ⟨u, (put_task_of_ne hji).trans hu, hm⟩

/-- A settled task without borrows, pins and calls leaves. -/
theorem Ok.vacate (ok : d.Ok live) (hi : d.task i = some t) (hh : t.hooks = false)
    (hw : t.waitingSet = 0) (hs : d.table.scopes i = 0) (hf : i ∉ d.frames.map TaskFrame.task)
    (hx : d.exclusive ≠ some i) : d.Reaches (live.erase i) True (d.vacate i t) := by
  have hmem : i ∈ live := (ok.members i).mpr (by rw [hi]; rfl)
  have htable : ({ d.table with scopes := update d.table.scopes i 0 } : Table) = d.table := by
    rw [← hs, update_eq_self]
  have hsome : ∀ {j : Nat} {u : ComponentTask}, update d.task i none j = some u →
      d.task j = some u := by
    intro j u hu
    by_cases hj : j = i
    · rw [hj, update_self] at hu
      cases hu
    · rwa [update_of_ne hj] at hu
  have hother : ∀ {j : Nat}, j ≠ i → update d.task i none j = d.task j :=
    fun hj => update_of_ne hj ..
  unfold TaskDomain.vacate
  rw [htable]
  refine ⟨⟨fun j => ?_, ?_, ?_, fun hu => ok.tasks (hsome hu), fun u hu => ?_,
    fun hu => ok.generation (hsome hu), ok.table, ok.counted, fun j hj => ?_, ?_, fun f hm => ?_,
    ok.stack⟩, ⟨le_rfl, rfl, fun {j u} hu => .inl ⟨u, hsome hu, .refl u⟩⟩,
    fun hlaw => ⟨fun _ => trivial, fun _ j hj => ?_⟩⟩
  · by_cases hj : j = i
    · subst hj
      simp
    · rw [Finset.mem_erase, ok.members]
      simp [hj]
  · show d.count - 1 = _
    rw [Finset.card_erase_of_mem hmem, ok.count]
  · exact (Finset.card_erase_le).trans ok.limit
  · rcases mem_cons.mp hu with rfl | hu
    · exact ⟨ok.tasks hi, hh⟩
    · exact ok.gone u hu
  · by_cases hji : j = i
    · exact hji ▸ hs
    · exact ok.unscoped j ((hother hji).symm.trans hj)
  · refine ok.pins.congr fun handle hne => ?_
    have hcard := card_filter_insert
      (p := fun j => (update d.task i none j).any fun t => t.waitingSet == handle)
      (q := d.waitsOn handle) (Finset.notMem_erase i live) fun j hj => by
        simp [waitsOn, hother hj]
    have hno : d.waitsOn handle i = false := by simp [waitsOn, hi, hw, hne.symm]
    rw [Finset.insert_erase hmem, hno] at hcard
    exact congrArg (· + _) hcard.symm
  · have hne : f.task ≠ i := not_frame (P := fun _ => False) hf f hm
    exact (ok.frames f hm).congr (hother hne) id id
  · obtain ⟨u, hu, hm⟩ := hlaw j hj
    have hji : j ≠ i := fun heq => hx (heq ▸ hj)
    exact ⟨u, (hother hji).trans hu, hm⟩

end TaskDomain

end TurboWasm
