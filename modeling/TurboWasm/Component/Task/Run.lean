/-
# Runs of a task domain

Two results about every run, from an empty domain.

**The caller of a task is settled exactly once** (`task_settles_once`): a task that was created with
hooks and has left saw one successful `resolve` or one `abandon`, and no hook after it.

**The domain is consistent** (`task_domain_consistent`): counts, pins, starts and deliveries obey their
laws in every state.  One law does not hold without a condition.  A `destroy` that cannot clear the
borrow scope leaves its task finished, and `exclusive` if it was; `task_domain_consistent` says that
these steps are the only ones that break the law, and `blocked_destroy_keeps_exclusive` is a run with
such a step.
-/
import TurboWasm.Component.Task.Step

namespace TurboWasm

open Lib Relation Option TaskDomain

namespace TaskDomain

variable {d d' : TaskDomain} {live : Finset Nat}

/-! ## 1. Every operation -/

/-- The action ends a `destroy` of the exclusive task whose borrow scope could not be cleared. -/
def BlocksExclusive (d : TaskDomain) : TaskAction → Prop
  | .childrenAborted left => ∃ i saved rest, d.frames = .clearing i saved .destroy :: rest ∧
      d.exclusive = some i ∧ (left ∨ ∃ e, d.table.scopeClear i = .error e)
  | _ => False

/-- **What one operation does.** -/
theorem Ok.act (ok : d.Ok live) {a : TaskAction} (h : d.act a = some d') :
    ∃ live', d.Reaches live' (¬ d.BlocksExclusive a) d' := by
  -- all operations but one keep the law of the exclusive task
  have hkeep : ∀ {live' : Finset Nat}, d.Reaches live' True d' → ¬ d.BlocksExclusive a →
      ∃ live', d.Reaches live' (¬ d.BlocksExclusive a) d' := by
    intro live' hr hn
    exact ⟨live', hr.ok, hr.lives, fun hx => (hr.exclusive hx).trans (iff_of_true trivial hn)⟩
  have hany : (∃ live', d.Reaches live' True d') → ¬ d.BlocksExclusive a →
      ∃ live', d.Reaches live' (¬ d.BlocksExclusive a) d' := by
    rintro ⟨live', hr⟩ hn
    exact hkeep hr hn
  cases a with
  | create i callback hostImport hooked refused => exact hkeep (ok.create h) id
  | destroy i canUnwind => exact hany (ok.destroy h) id
  | unwound => exact hkeep (ok.unwound h) id
  | childrenAborted left =>
    obtain ⟨i, saved, after, rest, hframes, hr⟩ := ok.childrenAborted h
    refine ⟨live, hr.ok, hr.lives, fun hx => (hr.exclusive hx).trans (not_congr ?_)⟩
    constructor
    · rintro ⟨rfl, hx, hb⟩
      exact ⟨i, saved, rest, hframes, hx, hb⟩
    · rintro ⟨j, saved', rest', hframes', hx, hb⟩
      rw [hframes] at hframes'
      cases hframes'
      exact ⟨rfl, hx, hb⟩
  | disposed => exact hany (ok.disposed h) id
  | resume i host ready launch => exact hkeep (ok.resume h) id
  | suspend wait => exact hkeep (ok.suspend h) id
  | complete outcome => exact hkeep (ok.complete h) id
  | requestCancel i status => exact hkeep (ok.requestCancel h) id
  | deliverCancel => exact hkeep (ok.deliverCancel h) id
  | cancel status => exact hkeep (ok.cancel h) id
  | return_ value refused => exact hkeep (ok.return_ h) id
  | answer status => exact hkeep (ok.answer h) id
  | takeResult i => exact hkeep (ok.takeResult h) id
  | setNew s allocated => exact hkeep (ok.setNew h) id
  | setDrop handle joined => exact hkeep (ok.setDrop h) id
  | pin handle => exact hkeep (ok.pin h) id
  | unpin handle => exact hkeep (ok.unpin h) id
  | backpressure increment => exact hkeep (ok.setBackpressure h) id
  | table action =>
    obtain ⟨table, ht, rfl⟩ := map_eq_some_iff.mp h
    exact hkeep (ok.tableAct ht) id
  | surround mayLeave synchronousDepth auxiliary =>
    cases h
    exact hkeep (.of_same { ok with
      frames := fun f hm => (ok.frames f hm).congr rfl id id } rfl rfl rfl rfl) id

theorem Ok.start {maxEntries limit : Nat} (h : TaskDomain.start maxEntries limit = some d) :
    d.Ok ∅ ∧ d.ExclusiveLaw ∧ d.limit = limit := by
  obtain ⟨_, h⟩ := ite_none_pass h
  obtain ⟨table, ht, rfl⟩ := map_eq_some_iff.mp h
  obtain ⟨hentries, hscopes⟩ := Table.init_spec ht
  have hnone : ∀ handle, table.entry handle = none := by
    intro handle
    unfold Table.entry
    rw [hentries]
    split <;> rfl
  have hpins : PinsOk table (fun _ => {}) (TaskDomain.pins { table, limit } ∅) := by
    refine ⟨fun {h e} he _ => ?_, absurd rfl, fun _ => rfl, fun _ hp => absurd rfl hp⟩
    cases (hnone h).symm.trans he
  refine ⟨⟨by simp, rfl, Nat.zero_le _, ?_, ?_, ?_, .init ht, .init ht, fun i _ => ?_, hpins,
    by simp, by simp⟩, ?_, rfl⟩
  · intro i t hi
    cases hi
  · intro t ht
    cases ht
  · intro i t hi
    cases hi
  · simp [hscopes]
  · intro i hi
    cases hi

/-! ## 2. Every run -/

/-- The invariant holds in every state of a run. -/
theorem Ok.run (hrun : TaskRun d d') (ok : ∃ live, d.Ok live) : ∃ live, d'.Ok live := by
  refine invariant_run (P := fun d => ∃ live, d.Ok live) ?_ hrun ok
  rintro s t ⟨a, h⟩ ⟨live, ok⟩
  obtain ⟨live', hr⟩ := ok.act h
  exact ⟨live', hr.ok⟩

/-- The tasks of a later state are later records of the tasks of an earlier one, or younger. -/
theorem Lives.run (hrun : TaskRun d d') (ok : ∃ live, d.Ok live) : d.Lives d' := by
  refine relation_run (P := fun d => ∃ live, d.Ok live) (R := Lives) ?_ .refl
    (fun _ _ _ h h' => h.trans h') ?_ hrun ok
  · rintro s t ⟨a, h⟩ ⟨live, ok⟩
    obtain ⟨live', hr⟩ := ok.act h
    exact ⟨live', hr.ok⟩
  · rintro s t ⟨live, ok⟩ ⟨a, h⟩
    obtain ⟨live', hr⟩ := ok.act h
    exact hr.lives

/-- A run without a blocked `destroy` of the exclusive task. -/
def SmoothRun : TaskDomain → TaskDomain → Prop :=
  ReflTransGen fun d d' => ∃ a, d.act a = some d' ∧ ¬ d.BlocksExclusive a

theorem ExclusiveLaw.run (hrun : SmoothRun d d') (ok : ∃ live, d.Ok live) (hx : d.ExclusiveLaw) :
    d'.ExclusiveLaw := by
  refine (invariant_run (P := fun d => (∃ live, d.Ok live) ∧ d.ExclusiveLaw) ?_ hrun ⟨ok, hx⟩).2
  rintro s t ⟨a, h, hn⟩ ⟨⟨live, ok⟩, hx⟩
  obtain ⟨live', hr⟩ := ok.act h
  exact ⟨⟨live', hr.ok⟩, (hr.exclusive hx).mpr hn⟩

/-! ## 3. Settling -/

/-- The records of the tasks of the domain and of those that have left. -/
def Record (d : TaskDomain) (t : ComponentTask) : Prop :=
  (∃ i, d.task i = some t) ∨ t ∈ d.destroyed

theorem Ok.record (ok : d.Ok live) {t : ComponentTask} (h : d.Record t) : t.Ok := by
  rcases h with ⟨i, hi⟩ | hm
  · exact ok.tasks hi
  · exact (ok.gone t hm).1

/-- **A task settles its caller exactly once.**  The hooks of a task are called lawfully (never after
the caller is settled, `cancelled` only after a request, `abandon` only without borrows); a task that
was created with hooks and has left had one successful `resolve` or one `abandon`; and once a `resolve`
succeeded the phase is final, in this state and in every later one. -/
theorem task_settles_once {maxEntries limit : Nat} {d₀ : TaskDomain}
    (h₀ : start maxEntries limit = some d₀) (hrun : TaskRun d₀ d) (hlater : TaskRun d d') :
    (∀ t, d.Record t → Always (TaskEvent.Lawful t.callback t.hostImport) t.history) ∧
    (∀ t ∈ d.destroyed, t.hooked →
      t.history.countP TaskEvent.isAccepted + t.history.countP TaskEvent.isAbandoned = 1) ∧
    (∀ t, d.Record t → ∀ c, .accepted c ∈ t.history → t.phase = .returned ∨ t.phase = .cancelled) ∧
    (∀ i t t', d.task i = some t → d'.task i = some t' → t'.generation = t.generation →
      ∀ c, .accepted c ∈ t.history → t'.phase = t.phase) := by
  obtain ⟨live, ok⟩ := Ok.run hrun ⟨∅, (Ok.start h₀).1⟩
  obtain ⟨live', ok'⟩ := Ok.run hlater ⟨live, ok⟩
  refine ⟨fun t ht => (ok.record ht).lawful, fun t hm hh => ?_, fun t ht c hc => ?_, ?_⟩
  · obtain ⟨okt, hno⟩ := ok.gone t hm
    rw [countP_accepted_add_abandoned, countP_settles okt.lawful, okt.settled, hh, hno]
    rfl
  · have hr := (ok.record ht).accepted c hc
    cases hp : t.phase with
    | initial | started => rw [hp] at hr; cases hr
    | returned => exact .inl rfl
    | cancelled => exact .inr rfl
  intro i t t' hi hi' hg c hc
  rcases (Lives.run hlater ⟨live, ok⟩).task hi' with ⟨u, hu, hcont⟩ | hnew
  · obtain rfl : u = t := some.inj (hu.symm.trans hi)
    exact ComponentTask.Keeps.phase_eq (ok.tasks hi) (ok'.tasks hi') hcont
      ((ok.tasks hi).accepted c hc)
  · -- a task of another generation
    have := ok.generation hi
    omega

/-- A callback-style task with hooks: it starts, a cancellation is requested and delivered by the
callback, the guest acknowledges it, and the task exits and is destroyed. -/
def cancelledTask : List TaskAction :=
  [.create 1 true false true false, .resume 1 false (.ok true) none, .complete (.ok 1),
    .requestCancel 1 none, .resume 1 false (.ok true) none, .cancel none, .complete (.ok 0),
    .destroy 1 true, .unwound, .disposed]

theorem task_settles_once_cancelled : ∃ d₀ d, TaskDomain.start 16 4 = some d₀ ∧ TaskRun d₀ d ∧
    d.destroyed.any (fun t => t.hooked && t.history.contains (.accepted true)) ∧
    ∀ t ∈ d.destroyed, t.hooked →
      t.history.countP TaskEvent.isAccepted + t.history.countP TaskEvent.isAbandoned = 1 := by
  have hrun : ∃ d₀ d, start 16 4 = some d₀ ∧ cancelledTask.foldlM act d₀ = some d ∧
      d.destroyed.any (fun t => t.hooked && t.history.contains (.accepted true)) :=
    ⟨_, _, rfl, rfl, rfl⟩
  obtain ⟨d₀, d, h₀, hd, hacc⟩ := hrun
  exact ⟨d₀, d, h₀, run_of_actions hd, hacc,
    (task_settles_once h₀ (run_of_actions hd) .refl).2.1⟩

/-! ## 4. Consistency -/

/-- **The domain is consistent.**  In every state of every run: `count` is the number of tasks and at
most the limit; a callback-style task starts and re-enters while no task is exclusive, and a task that
is not a host import starts without backpressure; a cancellation is delivered at most once and not
after the task resolved; the counter of every registered set is the number of tasks and builtin waits
that pin it, every pin can be given back, and a pinned set is not dropped.

The exclusive task is a callback-style task that has started, is not between callbacks and has not
finished, in every state of every run without a blocked `destroy` of it; and a step from a state with
that property keeps it exactly if it is not such a `destroy`. -/
theorem task_domain_consistent {maxEntries limit : Nat} {d₀ : TaskDomain}
    (h₀ : start maxEntries limit = some d₀) (hrun : TaskRun d₀ d) :
    (∃ live : Finset Nat, (∀ i, i ∈ live ↔ (d.task i).isSome) ∧ d.count = live.card ∧
      d.count ≤ limit ∧ (∀ s, (d.sets s).handle ≠ 0 → (d.sets s).waitCount =
        (live.filter fun i => (d.task i).any fun t => t.waitingSet == (d.sets s).handle).card +
          d.waits.countP fun p => p.2 == (d.sets s).handle)) ∧
    (∀ t, d.Record t → Always (TaskEvent.Lawful t.callback t.hostImport) t.history) ∧
    (∀ handle, handle ≠ 0 → ((∃ i t, d.task i = some t ∧ t.waitingSet = handle) ∨
        ∃ i, (i, handle) ∈ d.waits) →
      (d.waitRelease handle).isSome ∧ ∀ joined, d.setDrop handle joined = none) ∧
    (SmoothRun d₀ d → d.ExclusiveLaw) ∧
    (d.ExclusiveLaw → ∀ a d', d.act a = some d' → (d'.ExclusiveLaw ↔ ¬ d.BlocksExclusive a)) := by
  obtain ⟨ok₀, hx₀, hlimit⟩ := Ok.start h₀
  obtain ⟨live, ok⟩ := Ok.run hrun ⟨∅, ok₀⟩
  refine ⟨⟨live, ok.members, ok.count, ?_, fun s hs => ok.pins.waitCount_eq hs⟩,
    fun t ht => (ok.record ht).lawful, fun handle hne hpin => ?_,
    fun hs => .run hs ⟨∅, ok₀⟩ hx₀, fun hx a d' ha => ?_⟩
  · rw [ok.count, ← hlimit, ← (Lives.run hrun ⟨∅, ok₀⟩).limit]
    exact ok.limit
  · have hpos : d.pins live handle ≠ 0 := by
      unfold pins
      rcases hpin with ⟨i, t, hi, hw⟩ | ⟨i, hm⟩
      · have hmem : i ∈ live.filter (d.waitsOn handle ·) := by
          rw [Finset.mem_filter, ok.members, hi]
          simp [waitsOn, hi, hw]
        have := Finset.card_pos.mpr ⟨i, hmem⟩
        omega
      · have hpos : 0 < d.waits.countP fun p => p.2 == handle :=
          List.countP_pos_iff.mpr ⟨_, hm, by simp⟩
        omega
    refine ⟨?_, ok.pins.setDrop_eq_none hne hpos⟩
    -- forget one pin
    obtain ⟨sets, heq, -⟩ := ok.pins.release hne
      (fun h => if h = handle then d.pins live handle - 1 else d.pins live h)
      (by simp only [if_true]; omega) (fun h _ hother => if_neg hother)
    rw [heq]
    rfl
  · obtain ⟨live', hr⟩ := ok.act ha
    exact hr.exclusive hx

/-- A callback-style task waits on a set between its callbacks. -/
def waitingTask : List TaskAction :=
  [.setNew 7 true, .create 1 true false true false, .resume 1 false (.ok true) none,
    .complete (.ok (2 + 16 * handleEncode 0 1))]

theorem task_domain_consistent_waiting : ∃ d₀ d, TaskDomain.start 16 4 = some d₀ ∧ TaskRun d₀ d ∧
    (d.sets 7).waitCount = 1 ∧ (d.waitRelease (handleEncode 0 1)).isSome ∧
    ∀ joined, d.setDrop (handleEncode 0 1) joined = none := by
  have hrun : ∃ d₀ d t, start 16 4 = some d₀ ∧ waitingTask.foldlM act d₀ = some d ∧
      (d.sets 7).waitCount = 1 ∧ d.task 1 = some t ∧ t.waitingSet = handleEncode 0 1 :=
    ⟨_, _, _, rfl, rfl, rfl, rfl, rfl⟩
  obtain ⟨d₀, d, t, h₀, hd, hcount, ht, hw⟩ := hrun
  exact ⟨d₀, d, h₀, run_of_actions hd, hcount, (task_domain_consistent h₀ (run_of_actions hd)).2.2.1
    (handleEncode 0 1) (by decide) (.inl ⟨1, t, ht, hw⟩)⟩

/-- A callback-style task starts, is given a borrow that is lent on, and is destroyed while it is
suspended: the borrow cannot be cleared. -/
def blockedDestroy : List TaskAction :=
  [.create 1 true false true false, .resume 1 false (.ok true) none,
    .table (.insert .reservation 9 true),
    .table (.publishBorrowed (handleEncode 0 1) 9 5 (.i32 0)),
    .table (.lendAcquire (handleEncode 0 1) 5), .suspend none, .destroy 1 true, .unwound,
    .childrenAborted false]

/-- **After a blocked `destroy` the exclusive task is one that has finished.** -/
theorem blocked_destroy_keeps_exclusive : ∃ d₀ d, TaskDomain.start 16 4 = some d₀ ∧ TaskRun d₀ d ∧
    d.exclusive = some 1 ∧ (∃ t, d.task 1 = some t ∧ t.state = .failed) ∧ ¬ d.ExclusiveLaw := by
  have hrun : ∃ d₀ d t, start 16 4 = some d₀ ∧ blockedDestroy.foldlM act d₀ = some d ∧
      d.exclusive = some 1 ∧ d.task 1 = some t ∧ t.state = .failed :=
    ⟨_, _, _, rfl, rfl, rfl, rfl, rfl⟩
  obtain ⟨d₀, d, t, h₀, hd, hx, ht, hst⟩ := hrun
  refine ⟨d₀, d, h₀, run_of_actions hd, hx, ⟨t, ht, hst⟩, fun hlaw => ?_⟩
  obtain ⟨u, hu, -, -, -, he⟩ := hlaw 1 hx
  obtain rfl : u = t := some.inj (hu.symm.trans ht)
  rw [hst] at he
  cases he

end TaskDomain

end TurboWasm
