/-
# Every interleaving of a thread group

Three facts about one step carry the laws of a group.  Its slots are owned exclusively: a slot is
active exactly while one call is between the reservation and the release of it (`SlotChange`).  The
history of one call is one of a few stories (`Story`), fixed by its two program points.  And the
locked sections of a publication test both flags, so the first outcome stays.
-/
import Mathlib.Data.List.Nodup
import TurboWasm.Lib.Lists
import TurboWasm.Lib.Ownership
import TurboWasm.Threads.Model

namespace TurboWasm

open Lib List Option Function ThreadWorld ThreadGroup ThreadEvent

/-! ## 1. Slots -/

namespace ThreadGroup

variable {g : ThreadGroup} {slot : Nat}
/-- The counter agrees with the slots. -/
structure Counted (g : ThreadGroup) : Prop where
  length : g.slots.length = g.capacity
  active : g.active = g.slots.countP fun s => s.active

theorem Counted.init (capacity : Nat) : (ThreadGroup.init capacity).Counted where
  length := length_replicate
  active := by simp [ThreadGroup.init, countP_replicate]

theorem Counted.le (h : g.Counted) : g.active ≤ g.capacity := by
  rw [h.active, ← h.length]
  exact countP_le_length

theorem slotActive_eq_true : g.slotActive k ↔ ∃ s, g.slots[k]? = some s ∧ s.active := by
  unfold slotActive
  cases h : g.slots[k]? with
  | none | some s => simp

theorem slotActive_updateSlot (g : ThreadGroup) (i : Nat) (f : ThreadSlot → ThreadSlot) (k : Nat) :
    (g.updateSlot i f).slotActive k =
      if k = i then (match g.slots[k]? with | some s => (f s).active | none => false)
      else g.slotActive k := by
  simp only [slotActive, updateSlot, getElem?_modify]
  by_cases hk : i = k
  · subst hk
    cases g.slots[i]? <;> simp
  · simp only [if_neg hk, if_neg (Ne.symm hk)]
    cases g.slots[k]? <;> simp

/-- A change that leaves the flag of the slot alone. -/
theorem slotActive_updateSlot_keep (g : ThreadGroup) (i : Nat)
    (hf : ∀ s, (f s).active = s.active) (k : Nat) :
    (g.updateSlot i f).slotActive k = g.slotActive k := by
  rw [slotActive_updateSlot]
  split
  · unfold slotActive
    cases g.slots[k]? <;> simp [hf]
  · rfl

theorem countP_updateSlot (g : ThreadGroup) {s : ThreadSlot} (hs : g.slots[i]? = some s)
    (f : ThreadSlot → ThreadSlot) :
    (g.updateSlot i f).slots.countP (fun s => s.active) + (if s.active then 1 else 0) =
      g.slots.countP (fun s => s.active) + (if (f s).active then 1 else 0) := by
  have hset : (g.updateSlot i f).slots = g.slots.set i (f s) := by
    simp [updateSlot, modify_eq_set_getElem?, hs]
  rw [hset]
  exact countP_set_of _ hs

theorem Counted.updateSlot_keep (h : g.Counted) (i : Nat) (hf : ∀ s, (f s).active = s.active) :
    (g.updateSlot i f).Counted := by
  refine ⟨by simpa [updateSlot] using h.length, ?_⟩
  cases hs : g.slots[i]? with
  | none =>
    have hsame : g.slots.modify i f = g.slots := by
      simp [modify_eq_set_getElem?, hs]
    simp only [updateSlot, hsame]
    exact h.active
  | some s =>
    have := countP_updateSlot g hs f
    rw [hf] at this
    have hact : (g.updateSlot i f).active = g.active := rfl
    have := h.active
    omega

/-- **What `turbowasm_wasi_threads_reserve` does** when it answers a thread id. -/
theorem reserve_spec {g' : ThreadGroup} (h : g.reserve = .ok (tid, slot, g')) :
    g.terminated = false ∧ g.nextTid < tidLimit ∧ tid = g.nextTid ∧ g'.nextTid = g.nextTid + 1 ∧
      g.slotActive slot = false ∧ (∀ k, g'.slotActive k ↔ k = slot ∨ g.slotActive k) ∧
      (g.Counted → g'.Counted) ∧ g'.capacity = g.capacity ∧ g'.outcome = g.outcome ∧
      g'.terminated = g.terminated := by
  obtain ⟨hterm, h⟩ := ite_error_pass h
  obtain ⟨_, h⟩ := ite_error_pass h
  obtain ⟨htid, h⟩ := ite_error_pass h
  split at h
  · cases h
  rename_i index hfind
  simp only [Except.ok.injEq, Prod.mk.injEq] at h
  obtain ⟨rfl, rfl, rfl⟩ := h
  -- the loop stops at the first slot that is not active
  obtain ⟨hi, hoff, -⟩ := findIdx?_eq_some_iff_getElem.mp hfind
  have hs : g.slots[index]? = some g.slots[index] := getElem?_eq_getElem hi
  have hoff : g.slots[index].active = false := by simpa using hoff
  refine ⟨by simpa using hterm, Nat.lt_of_not_le htid, rfl, rfl, ?_, fun k => ?_, fun hc => ?_, rfl,
    rfl, rfl⟩
  · simp [slotActive, hs, hoff]
  · have hk := slotActive_updateSlot g index
    show (g.updateSlot index _).slotActive k ↔ _
    rw [hk]
    by_cases hki : k = index
    · subst hki
      simp [hs]
    · simp [hki]
  · refine ⟨by simpa [updateSlot] using hc.length, ?_⟩
    have hcount := countP_updateSlot g hs fun s => { s with active := true, tid := g.nextTid }
    rw [hoff] at hcount
    show g.active + 1 = (g.updateSlot index _).slots.countP _
    have := hc.active
    simp only [Bool.false_eq_true, if_false, if_true] at hcount
    omega

/-- **What `turbowasm_wasi_threads_release_slot` does** to an active slot. -/
theorem releaseSlot_spec (h : g.slotActive slot) :
    (∀ k, (g.releaseSlot slot).slotActive k ↔ k ≠ slot ∧ g.slotActive k) ∧
      (g.Counted → (g.releaseSlot slot).Counted) := by
  obtain ⟨s, hs, hact⟩ := slotActive_eq_true.mp h
  refine ⟨fun k => ?_, fun hc => ⟨by simpa [releaseSlot, updateSlot] using hc.length, ?_⟩⟩
  · have hk := slotActive_updateSlot g slot
    show (g.updateSlot slot _).slotActive k ↔ _
    rw [hk]
    by_cases hki : k = slot
    · subst hki
      simp [hs]
    · simp [hki]
  · have hcount := countP_updateSlot g hs fun s =>
      { s with child := false, active := false, startArg := 0, tid := 0 }
    rw [hact] at hcount
    show g.active - 1 = (g.updateSlot slot _).slots.countP _
    have := hc.active
    simp only [Bool.false_eq_true, if_false, if_true] at hcount
    omega

/-- On an active slot the two ways to give it back are the same. -/
theorem rollback_eq (h : g.slotActive slot) : g.rollback slot = g.releaseSlot slot := by
  simp [rollback, releaseSlot, h]

end ThreadGroup

/-! ## 2. One step -/

variable {g : ThreadGroup} {c : SpawnCall} {h : List SpawnEvent}
  {r : ThreadGroup × SpawnCall × List SpawnEvent}

/-- The slot that a spawn holds. -/
def SpawnPoint.slot : SpawnPoint → Option Nat
  | .create slot _ _ _ => some slot
  | .post slot _ => some slot
  | .rollback slot _ => some slot
  | _ => none

/-- The slot that a task holds. -/
def TaskPoint.slot : TaskPoint → Option Nat
  | .queued slot => some slot
  | .publish slot _ _ => some slot
  | .finalize slot => some slot
  | .none => Option.none
  | .finished => Option.none

/-- The slot that a call holds: its spawn up to the post, then its task. -/
def SpawnCall.slot (c : SpawnCall) : Option Nat := c.point.slot.or c.task.slot

/-- What a step may do to the slots, when its call held `o` before and holds `o'` afterwards. -/
inductive SlotChange (g g' : ThreadGroup) (o o' : Option Nat) : Prop where
  | keep (ho : o' = o) (hact : ∀ k, g'.slotActive k ↔ g.slotActive k)
      (hcount : g.Counted → g'.Counted)
  | take (slot : Nat) (ho : o = none) (ho' : o' = some slot) (hfree : g.slotActive slot = false)
      (hact : ∀ k, g'.slotActive k ↔ k = slot ∨ g.slotActive k)
      (hcount : g.Counted → g'.Counted)
  | drop (slot : Nat) (ho : o = some slot) (ho' : o' = none)
      (hact : ∀ k, g'.slotActive k ↔ k ≠ slot ∧ g.slotActive k)
      (hcount : g.Counted → g'.Counted)

/-- The history of a call, by its two program points. -/
inductive Story : SpawnPoint → TaskPoint → List SpawnEvent → Prop where
  | bindModule (module start : Nat) (arg : BitVec 32) :
      Story (.bindModule module start arg) .none []
  | reserve (start : Nat) (arg : BitVec 32) : Story (.reserve start arg) .none []
  | create {slot tid : Nat} (start : Nat) (arg : BitVec 32) (ht : 0 < tid) :
      Story (.create slot tid start arg) .none [.reserved slot tid]
  | post {slot tid : Nat} (ht : 0 < tid) : Story (.post slot tid) .none [.reserved slot tid]
  | rollback (slot tid : Nat) (e : SpawnError) :
      Story (.rollback slot e) .none [.reserved slot tid]
  | refused (e : SpawnError) : Story (.done e.code) .none []
  | undone (slot tid : Nat) (e : SpawnError) :
      Story (.done e.code) .none [.reserved slot tid, .rolledBack slot]
  | posted {slot tid : Nat} {t : TaskPoint} (ht : 0 < tid) (hs : t.slot = some slot) :
      Story (.done tid) t [.reserved slot tid]
  | finished {slot tid : Nat} (ht : 0 < tid) :
      Story (.done tid) .finished [.reserved slot tid, .released slot]
  | invalid (status : Status) : Story (.returned (.error status)) .none []
  | refusedAnswer (e : SpawnError) : Story (.returned (.ok e.code)) .none [.answered e.code]
  | undoneAnswer (slot tid : Nat) (e : SpawnError) : Story (.returned (.ok e.code)) .none
      [.reserved slot tid, .rolledBack slot, .answered e.code]
  | postedAnswer {slot tid : Nat} {t : TaskPoint} (ht : 0 < tid) (hs : t.slot = some slot) :
      Story (.returned (.ok (tid : Int))) t [.reserved slot tid, .answered tid]
  | answerFirst {slot tid : Nat} (ht : 0 < tid) : Story (.returned (.ok (tid : Int))) .finished
      [.reserved slot tid, .answered tid, .released slot]
  | releaseFirst {slot tid : Nat} (ht : 0 < tid) : Story (.returned (.ok (tid : Int))) .finished
      [.reserved slot tid, .released slot, .answered tid]

theorem spawnEnter_story (modules : Nat → ValidationContext) (args : SpawnArguments) :
    Story (spawnEnter modules args) .none [] ∧ (spawnEnter modules args).slot = none := by
  unfold spawnEnter
  split
  · split
    · exact ⟨.invalid _, rfl⟩
    · split
      · exact ⟨.refused _, rfl⟩
      · split
        · exact ⟨.refused _, rfl⟩
        · exact ⟨.bindModule _ _ _, rfl⟩
  · exact ⟨.invalid _, rfl⟩

/-- The thread ids among the events of one call. -/
def SpawnEvent.tid : SpawnEvent → Option Nat
  | .reserved _ tid => some tid
  | _ => none

/-- The thread ids that a step hands out: none, or the next one of a group that is not terminated. -/
inductive TidChange (g g' : ThreadGroup) (tids : List Nat) : Prop where
  | keep (ht : tids = []) (hn : g'.nextTid = g.nextTid)
  | next (ht : tids = [g.nextTid]) (hn : g'.nextTid = g.nextTid + 1) (hlt : g.nextTid < tidLimit)
      (hopen : g.terminated = false)

/-- What one step of a call does. -/
structure CallStep (g : ThreadGroup) (c : SpawnCall) (h : List SpawnEvent)
    (r : ThreadGroup × SpawnCall × List SpawnEvent) : Prop where
  slots : SlotChange g r.1 c.slot r.2.1.slot
  story : Story r.2.1.point r.2.1.task (h ++ r.2.2)
  tids : TidChange g r.1 (r.2.2.filterMap SpawnEvent.tid)
  capacity : r.1.capacity = g.capacity
  outcome : g.terminated → r.1.outcome = g.outcome ∧ r.1.terminated

theorem bindModule_spec {g' : ThreadGroup} {m start : Nat} (h : g.bindModule m start = some g') :
    (∀ k, g'.slotActive k ↔ g.slotActive k) ∧ (g.Counted → g'.Counted) ∧
      g'.nextTid = g.nextTid ∧ g'.capacity = g.capacity ∧ g'.outcome = g.outcome ∧
      g'.terminated = g.terminated := by
  unfold bindModule at h
  split at h
  · cases h
    exact ⟨fun _ => .rfl, fun hc => ⟨hc.length, hc.active⟩, rfl, rfl, rfl, rfl⟩
  · obtain ⟨-, h⟩ := ite_none_pass h
    cases h
    exact ⟨fun _ => .rfl, id, rfl, rfl, rfl, rfl⟩

/-- A step that leaves the group alone and holds on to its slot. -/
theorem CallStep.local {c' : SpawnCall} {evs : List SpawnEvent}
    (hslot : c'.slot = c.slot) (hstory : Story c'.point c'.task (h ++ evs))
    (htids : evs.filterMap SpawnEvent.tid = []) : CallStep g c h (g, c', evs) where
  slots := .keep hslot (fun _ => .rfl) id
  story := hstory
  tids := .keep htids rfl
  capacity := rfl
  outcome ht := ⟨rfl, ht⟩

/-- **One step of a spawn.** -/
theorem spawnStep_spec (hstory : Story c.point c.task h) (hpos : 0 < g.nextTid)
    (hheld : ∀ s, c.slot = some s → g.slotActive s)
    (hr : spawnStep created admission g c = some r) : CallStep g c h r := by
  obtain ⟨point, task⟩ := c
  cases hstory with
  | bindModule m start arg =>
    simp only [spawnStep] at hr
    split at hr
    · cases hr
      exact .local rfl (.refused _) rfl
    · rename_i g' hb
      cases hr
      obtain ⟨hact, hcount, hn, hcap, ho, ht⟩ := bindModule_spec hb
      exact ⟨.keep rfl hact hcount, .reserve _ _, .keep rfl hn, hcap, fun h => ⟨ho, ht.trans h⟩⟩
  | reserve start arg =>
    simp only [spawnStep] at hr
    split at hr
    · cases hr
      exact .local rfl (.refused _) rfl
    rename_i tid slot g' hres
    cases hr
    obtain ⟨hopen, hlt, rfl, hn, hfree, hact, hcount, hcap, ho, ht⟩ :=
      reserve_spec hres
    exact ⟨.take slot rfl rfl hfree hact hcount, .create _ _ hpos, .next rfl hn hlt hopen, hcap,
      fun h => ⟨ho, ht.trans h⟩⟩
  | @create slot tid start arg htid =>
    cases hr
    have hkeep := slotActive_updateSlot_keep g slot
      (f := fun s => { s with startFunctionIndex := start, startArg := arg, child := created })
      (fun _ => rfl)
    refine ⟨.keep ?_ (fun k => by rw [hkeep k]) (fun hc => hc.updateSlot_keep _ fun _ => rfl), ?_,
      .keep rfl rfl, rfl, fun h => ⟨rfl, h⟩⟩
    · cases created <;> rfl
    · cases created
      · exact .rollback _ _ _
      · exact .post htid
  | @post slot tid htid =>
    cases admission with
    | accepted =>
      cases hr
      exact .local rfl (.posted htid rfl) rfl
    | full | refused =>
      cases hr
      exact .local rfl (.rollback _ _ _) rfl
  | rollback slot tid e =>
    cases hr
    have hactive := hheld slot rfl
    obtain ⟨hact, hcount⟩ := releaseSlot_spec hactive
    rw [rollback_eq hactive]
    exact ⟨.drop slot rfl rfl hact hcount, .undone _ _ _, .keep rfl rfl, rfl, fun h => ⟨rfl, h⟩⟩
  | refused e =>
    cases hr
    exact .local rfl (.refusedAnswer e) rfl
  | undone slot tid e =>
    cases hr
    exact .local rfl (.undoneAnswer slot tid e) rfl
  | posted htid hs =>
    cases hr
    exact .local rfl (.postedAnswer htid hs) rfl
  | finished htid =>
    cases hr
    exact .local rfl (.releaseFirst htid) rfl
  | invalid status | refusedAnswer e | undoneAnswer slot tid e | postedAnswer htid hs
  | answerFirst htid | releaseFirst htid => cases hr

theorem publishFatal_spec (g : ThreadGroup) (status : Status) (trap : Trap) :
    (∀ k, (g.publishFatal status trap).slotActive k = g.slotActive k) ∧
      (g.Counted → (g.publishFatal status trap).Counted) ∧
      (g.publishFatal status trap).nextTid = g.nextTid ∧
      (g.publishFatal status trap).capacity = g.capacity ∧
      (g.terminated → g.publishFatal status trap = g) := by
  unfold publishFatal
  split
  · exact ⟨fun _ => rfl, id, rfl, rfl, fun _ => rfl⟩
  · exact ⟨fun _ => rfl, fun hc => ⟨hc.length, hc.active⟩, rfl, rfl, fun h => absurd h ‹_›⟩

theorem dispatchTask_slot (g : ThreadGroup) (slot : Nat) (d : Dispatch) :
    (dispatchTask g slot d).slot = some slot := by
  unfold dispatchTask
  split
  · rfl
  · split <;> rfl

/-- A call whose task is on its way holds the slot of the task; the task moves on and keeps it, or
gives it back and is finished. -/
theorem Story.task_cases {p : SpawnPoint} {t : TaskPoint}
    (hs : Story p t h) (ht : t.slot = some slot) : p.slot = none ∧
      (∀ t', t'.slot = some slot → Story p t' h) ∧ Story p .finished (h ++ [.released slot]) := by
  cases hs with
  | posted htid hslot =>
    cases hslot.symm.trans ht
    exact ⟨rfl, fun t' ht' => .posted htid ht', .finished htid⟩
  | postedAnswer htid hslot =>
    cases hslot.symm.trans ht
    exact ⟨rfl, fun t' ht' => .postedAnswer htid ht', .answerFirst htid⟩
  | _ => cases ht

/-- **One step of a task.** -/
theorem taskStep_spec (hstory : Story c.point c.task h)
    (hheld : ∀ s, c.slot = some s → g.slotActive s) (hr : taskStep d g c = some r) :
    CallStep g c h r := by
  obtain ⟨point, task⟩ := c
  cases task with
  | none | finished => cases hr
  | queued slot =>
    cases hr
    obtain ⟨hp, hmove, -⟩ := hstory.task_cases rfl
    refine .local ?_ ?_ rfl
    · simp only [SpawnCall.slot, dispatchTask_slot]
      rfl
    · rw [append_nil]
      exact hmove _ (dispatchTask_slot g slot d)
  | publish slot status trap =>
    cases hr
    obtain ⟨hp, hmove, -⟩ := hstory.task_cases rfl
    obtain ⟨hact, hcount, hn, hcap, hsame⟩ := publishFatal_spec g status trap
    refine ⟨.keep ?_ (fun k => by rw [hact k]) hcount, ?_, .keep rfl hn, hcap, fun ht => ?_⟩
    · simp [SpawnCall.slot, TaskPoint.slot]
    · rw [append_nil]
      exact hmove _ rfl
    · rw [hsame ht]
      exact ⟨rfl, ht⟩
  | finalize slot =>
    cases hr
    obtain ⟨hp, -, hover⟩ := hstory.task_cases rfl
    have hslot : (SpawnCall.mk point (.finalize slot)).slot = some slot := by
      simp [SpawnCall.slot, hp, TaskPoint.slot]
    obtain ⟨hact, hcount⟩ := releaseSlot_spec (hheld slot hslot)
    refine ⟨.drop slot hslot ?_ hact hcount, hover, .keep rfl rfl, rfl, fun h => ⟨rfl, h⟩⟩
    simp [SpawnCall.slot, hp, TaskPoint.slot]

/-! ## 3. The whole group -/

/-- The event as one of call `i`. -/
def ThreadEvent.ofCall (i : Nat) : ThreadEvent → Option SpawnEvent
  | .call j e => if j = i then some e else none
  | .outcome _ => none

/-- The thread id that the event hands out. -/
def ThreadEvent.tid : ThreadEvent → Option Nat
  | .call _ e => e.tid
  | .outcome _ => none

/-- The outcome that the event publishes. -/
def ThreadEvent.published : ThreadEvent → Option Outcome
  | .call _ _ => none
  | .outcome o => some o

namespace ThreadWorld

/-- The slot that call `i` holds. -/
def holder (w : ThreadWorld) (i : Nat) : Option Nat := w.calls[i]?.bind SpawnCall.slot

/-- What has happened to call `i`. -/
def history (w : ThreadWorld) (i : Nat) : List SpawnEvent := w.log.filterMap (ThreadEvent.ofCall i)

/-- The thread ids handed out. -/
def tids (w : ThreadWorld) : List Nat := w.log.filterMap ThreadEvent.tid

/-- The outcomes published. -/
def outcomes (w : ThreadWorld) : List Outcome := w.log.filterMap ThreadEvent.published

/-- The invariant of a group of `capacity` slots. -/
structure Ok (capacity : Nat) (w : ThreadWorld) : Prop where
  counted : w.group.Counted
  capacity : w.group.capacity = capacity
  owned : Exclusive w.holder fun s => w.group.slotActive s
  stories : ∀ (i : Nat) (c : SpawnCall), w.calls[i]? = some c → Story c.point c.task (w.history i)
  noCall : ∀ i, w.calls.length ≤ i → w.history i = []
  tidPos : 0 < w.group.nextTid
  tidLe : w.group.nextTid ≤ tidLimit
  tidRange : ∀ t ∈ w.tids, 1 ≤ t ∧ t < w.group.nextTid
  tidNodup : w.tids.Nodup
  outcomes : w.outcomes = w.group.outcome.toList

theorem Ok.start (capacity : Nat) : (ThreadWorld.start capacity).Ok capacity where
  counted := .init capacity
  capacity := rfl
  owned := by
    refine Exclusive.empty.congr fun s => ?_
    simp only [iff_false, slotActive_eq_true]
    rintro ⟨x, hx, hact⟩
    have hmem := mem_of_getElem? hx
    simp only [ThreadWorld.start, ThreadGroup.init, mem_replicate] at hmem
    rw [hmem.2] at hact
    cases hact
  stories i c hc := by simp [ThreadWorld.start] at hc
  noCall _ _ := rfl
  tidPos := one_pos
  tidLe := show 1 ≤ tidLimit by decide
  tidRange t ht := by simp [ThreadWorld.start, tids] at ht
  tidNodup := nodup_nil
  outcomes := rfl

/-! ### The history after a step -/

section Advance

variable (w : ThreadWorld) (i : Nat) (r : ThreadGroup × SpawnCall × List SpawnEvent)

theorem newOutcome_filterMap {α : Type} (g g' : ThreadGroup) {f : ThreadEvent → Option α}
    (hf : ∀ o, f (.outcome o) = none) : (newOutcome g g').filterMap f = [] := by
  unfold newOutcome
  split
  · rfl
  · cases g'.outcome with
    | none => rfl
    | some o => simp [hf]

theorem newOutcome_published (g g' : ThreadGroup) :
    (newOutcome g g').filterMap published =
      if g.terminated then [] else g'.outcome.toList := by
  unfold newOutcome
  split
  · rfl
  · cases g'.outcome <;> rfl

theorem history_advance (j : Nat) :
    (w.advance i r).history j = w.history j ++ if j = i then r.2.2 else [] := by
  have hnew := newOutcome_filterMap w.group r.1 (f := ofCall j) fun _ => rfl
  simp only [history, advance, filterMap_append, hnew, append_nil, filterMap_map]
  by_cases hji : j = i
  · subst hji
    have : (ofCall j ∘ call j) = some := by
      funext e
      simp [ofCall]
    rw [this, if_pos rfl, filterMap_some]
  · have : (ofCall j ∘ call i) = fun _ => none := by
      funext e
      simp [ofCall, Ne.symm hji]
    rw [this, if_neg hji]
    simp

theorem tids_advance : (w.advance i r).tids = w.tids ++ r.2.2.filterMap SpawnEvent.tid := by
  have hnew := newOutcome_filterMap w.group r.1 (f := tid) fun _ => rfl
  simp only [tids, advance, filterMap_append, hnew, append_nil, filterMap_map]
  rfl

theorem outcomes_advance : (w.advance i r).outcomes =
    w.outcomes ++ if w.group.terminated then [] else r.1.outcome.toList := by
  simp only [outcomes, advance, filterMap_append, newOutcome_published, filterMap_map]
  have hnone : r.2.2.filterMap (published ∘ call i) = [] :=
    filterMap_eq_nil_iff.mpr fun _ _ => rfl
  rw [hnone, append_nil]

theorem holder_advance (hc : w.calls[i]? = some c) :
    (w.advance i r).holder = update w.holder i r.2.1.slot := by
  funext j
  simp only [holder, advance, getElem?_set_of hc]
  by_cases hji : j = i
  · subst hji
    simp
  · rw [if_neg hji, update_of_ne hji]
    rfl

end Advance

variable {capacity : Nat} {w : ThreadWorld} {c : SpawnCall}

/-- A group without an outcome has both flags down. -/
theorem outcome_eq_none : g.outcome = none ↔ g.terminated = false := by
  cases hf : g.fatal <;> cases he : g.exitRequested <;>
    simp [ThreadGroup.outcome, ThreadGroup.terminated, hf]

/-- The outcomes after a step that respects a published one. -/
theorem outcomes_step {g' : ThreadGroup} (hos : os = g.outcome.toList)
    (hkeep : g.terminated → g'.outcome = g.outcome) :
    os ++ (if g.terminated then [] else g'.outcome.toList) = g'.outcome.toList := by
  cases ht : g.terminated with
  | true => simp [hos, hkeep ht]
  | false => simp [hos, outcome_eq_none.mpr ht]

/-- **One step of one call keeps the invariant.** -/
theorem Ok.advance (h : w.Ok capacity) (hc : w.calls[i]? = some c)
    (hs : CallStep w.group c (w.history i) r) : (w.advance i r).Ok capacity := by
  have hlt : i < w.calls.length := lt_of_getElem? hc
  have hholder : w.holder i = c.slot := by simp [holder, hc]
  refine
    { counted := ?_, capacity := hs.capacity.trans h.capacity, owned := ?_, stories := ?_,
      noCall := ?_, tidPos := ?_, tidLe := ?_, tidRange := ?_, tidNodup := ?_, outcomes := ?_ }
  · cases hs.slots with
    | keep _ _ hcount | take _ _ _ _ _ hcount | drop _ _ _ _ hcount => exact hcount h.counted
  · rw [w.holder_advance i r hc]
    cases hs.slots with
    | keep ho hact _ =>
      rw [ho, ← hholder, update_eq_self]
      exact h.owned.congr hact
    | take slot ho ho' hfree hact _ =>
      rw [ho']
      exact (h.owned.take (hholder.trans ho) (by simp [hfree])).congr hact
    | drop slot ho ho' hact _ =>
      rw [ho']
      exact (h.owned.drop (hholder.trans ho)).congr hact
  · intro j d hd
    rw [w.history_advance i r]
    simp only [ThreadWorld.advance, getElem?_set_of hc] at hd
    by_cases hji : j = i
    · subst hji
      rw [if_pos rfl] at hd ⊢
      cases hd
      exact hs.story
    · rw [if_neg hji] at hd ⊢
      rw [append_nil]
      exact h.stories j d hd
  · intro j hj
    have hj : w.calls.length ≤ j := by simpa [ThreadWorld.advance] using hj
    rw [w.history_advance i r, if_neg (by omega), h.noCall j hj, append_nil]
  · cases hs.tids with
    | keep _ hn => exact hn ▸ h.tidPos
    | next _ hn _ _ => exact hn ▸ Nat.succ_pos _
  · cases hs.tids with
    | keep _ hn => exact hn ▸ h.tidLe
    | next _ hn hlt _ => exact hn ▸ hlt
  · intro t ht
    rw [w.tids_advance i r, mem_append] at ht
    cases hs.tids with
    | keep htids hn =>
      rw [htids] at ht
      have := h.tidRange t (ht.resolve_right not_mem_nil)
      exact hn ▸ this
    | next htids hn _ _ =>
      rw [htids, mem_singleton] at ht
      have hnext : (w.advance i r).group.nextTid = w.group.nextTid + 1 := hn
      rcases ht with ht | rfl
      · have := h.tidRange t ht
        omega
      · have := h.tidPos
        omega
  · rw [w.tids_advance i r]
    cases hs.tids with
    | keep htids _ =>
      rw [htids, append_nil]
      exact h.tidNodup
    | next htids _ _ _ =>
      -- the next id is above every id handed out
      rw [htids]
      refine nodup_append.mpr ⟨h.tidNodup, nodup_singleton _, ?_⟩
      intro t ht u hu
      rw [mem_singleton] at hu
      have := h.tidRange t ht
      omega
  · rw [w.outcomes_advance i r]
    exact outcomes_step h.outcomes fun ht => (hs.outcome ht).1

/-- A new call holds nothing and has no history. -/
theorem Ok.call (h : w.Ok capacity) (hslot : c.slot = none) (hstory : Story c.point c.task []) :
    Ok capacity { w with calls := w.calls ++ [c] } := by
  have hholder : holder { w with calls := w.calls ++ [c] } = w.holder := by
    funext j
    simp only [holder]
    rcases j.lt_trichotomy w.calls.length with hj | rfl | hj
    · rw [getElem?_append_left hj]
    · simp [hslot]
    · rw [getElem?_eq_none (by simp; omega), getElem?_eq_none (by omega)]
  exact { h with
    owned := by
      rw [hholder]
      exact h.owned
    stories := by
      intro j d hd
      rcases j.lt_or_ge w.calls.length with hj | hj
      · rw [getElem?_append_left hj] at hd
        exact h.stories j d hd
      · rw [getElem?_append_right hj, getElem?_singleton] at hd
        split at hd
        · cases hd
          exact (h.noCall j hj).symm ▸ hstory
        · cases hd
    noCall := fun j hj => h.noCall j (by simp at hj; omega) }

/-- An exit changes the outcome at most. -/
theorem Ok.procExit (h : w.Ok capacity) (code : BitVec 32) : (w.procExit code).Ok capacity := by
  have hgroup : (w.group.publishExit code).slots = w.group.slots ∧
      (w.group.publishExit code).capacity = w.group.capacity ∧
      (w.group.publishExit code).active = w.group.active ∧
      (w.group.publishExit code).nextTid = w.group.nextTid := by
    unfold publishExit
    split <;> exact ⟨rfl, rfl, rfl, rfl⟩
  obtain ⟨hslots, hcap, hactive, htid⟩ := hgroup
  have hact : ∀ k, (w.group.publishExit code).slotActive k = w.group.slotActive k := by
    intro k
    simp [slotActive, hslots]
  have hlog {α : Type} {f : ThreadEvent → Option α} (hf : ∀ o, f (.outcome o) = none) :
      (w.procExit code).log.filterMap f = w.log.filterMap f := by
    simp [ThreadWorld.procExit, newOutcome_filterMap _ _ hf]
  have hhistory : ∀ i, (w.procExit code).history i = w.history i := fun i => hlog fun _ => rfl
  have htids : (w.procExit code).tids = w.tids := hlog fun _ => rfl
  refine
    { counted := ⟨?_, ?_⟩, capacity := hcap.trans h.capacity, owned := ?_, stories := ?_,
      noCall := ?_, tidPos := ?_, tidLe := ?_, tidRange := ?_, tidNodup := ?_, outcomes := ?_ }
  · simpa [ThreadWorld.procExit, hslots, hcap] using h.counted.length
  · simpa [ThreadWorld.procExit, hslots, hactive] using h.counted.active
  · exact h.owned.congr fun k => by simp only [ThreadWorld.procExit, hact]
  · intro i c hc
    rw [hhistory]
    exact h.stories i c hc
  · intro i hi
    rw [hhistory]
    exact h.noCall i hi
  · exact htid ▸ h.tidPos
  · exact htid ▸ h.tidLe
  · rw [htids]
    exact fun t ht => htid ▸ h.tidRange t ht
  · rw [htids]
    exact h.tidNodup
  have hout : (w.procExit code).outcomes = w.outcomes ++
      if w.group.terminated then [] else (w.group.publishExit code).outcome.toList := by
    simp only [ThreadWorld.outcomes, ThreadWorld.procExit, filterMap_append, newOutcome_published]
  rw [hout]
  refine outcomes_step h.outcomes fun ht => ?_
  simp [publishExit, ht]

end ThreadWorld

variable {modules : Nat → ValidationContext} {capacity : Nat} {w w' : ThreadWorld}

/-- What a step of the group is: a new call, a step of a call as `CallStep` describes it, or an
exit. -/
theorem ThreadWorld.Ok.act_cases (h : w.Ok capacity) (ha : w.act modules a = some w') :
    (∃ c, c.slot = none ∧ Story c.point c.task [] ∧ w' = { w with calls := w.calls ++ [c] }) ∨
    (∃ i c r, w.calls[i]? = some c ∧ CallStep w.group c (w.history i) r ∧ w' = w.advance i r) ∨
    ∃ code, w' = w.procExit code := by
  have hheld : ∀ {i : Nat} {c : SpawnCall}, w.calls[i]? = some c → ∀ s, c.slot = some s →
      w.group.slotActive s := by
    intro i c hc s hs
    exact h.owned.used (i := i) (by simpa [holder, hc] using hs)
  cases a with
  | call args =>
    cases ha
    obtain ⟨hstory, hslot⟩ := spawnEnter_story modules args
    exact .inl ⟨⟨spawnEnter modules args, .none⟩, by simp [SpawnCall.slot, hslot, TaskPoint.slot],
      hstory, rfl⟩
  | spawn i created admission =>
    simp only [act, bind_eq_some_iff, map_eq_some_iff] at ha
    obtain ⟨c, hc, r, hr, rfl⟩ := ha
    exact .inr (.inl ⟨i, c, r, hc, spawnStep_spec (h.stories _ _ hc) h.tidPos (hheld hc) hr, rfl⟩)
  | task i dispatch =>
    simp only [act, bind_eq_some_iff, map_eq_some_iff] at ha
    obtain ⟨c, hc, r, hr, rfl⟩ := ha
    exact .inr (.inl ⟨i, c, r, hc, taskStep_spec (h.stories _ _ hc) (hheld hc) hr, rfl⟩)
  | exit code =>
    cases ha
    exact .inr (.inr ⟨code, rfl⟩)

theorem ThreadWorld.Ok.act (h : w.Ok capacity) (ha : w.act modules a = some w') :
    w'.Ok capacity := by
  rcases h.act_cases ha with ⟨c, hslot, hstory, rfl⟩ | ⟨i, c, r, hc, hs, rfl⟩ | ⟨code, rfl⟩
  · exact h.call hslot hstory
  · exact h.advance hc hs
  · exact h.procExit code

theorem ThreadRun.ok (hrun : ThreadRun modules (.start capacity) w) : w.Ok capacity :=
  invariant_run (fun _ _ ⟨_, ha⟩ h => h.act ha) hrun (.start capacity)

/-! ## 4. The laws -/

/-- An outcome stays, and no slot is reserved after it. -/
def Settled (w w' : ThreadWorld) : Prop :=
  ∀ o, w.group.outcome = some o → w'.group.outcome = some o ∧ w'.tids = w.tids

theorem ThreadWorld.Ok.settled (h : w.Ok capacity) (ha : w.act modules a = some w') :
    Settled w w' := by
  intro o ho
  have hterm : w.group.terminated := by
    by_contra hopen
    rw [Bool.not_eq_true, ← outcome_eq_none, ho] at hopen
    cases hopen
  rcases h.act_cases ha with ⟨c, -, -, rfl⟩ | ⟨i, c, r, -, hs, rfl⟩ | ⟨code, rfl⟩
  · exact ⟨ho, rfl⟩
  · refine ⟨(hs.outcome hterm).1.trans ho, ?_⟩
    rw [w.tids_advance i r]
    cases hs.tids with
    | keep htids _ => rw [htids, append_nil]
    | next _ _ _ hopen => exact absurd (hterm.symm.trans hopen) (by decide)
  · have hsame : w.group.publishExit code = w.group := by simp [ThreadGroup.publishExit, hterm]
    refine ⟨by simpa [ThreadWorld.procExit, hsame] using ho, ?_⟩
    simp [ThreadWorld.tids, ThreadWorld.procExit, newOutcome, hterm]

/-- Call `i` has reserved the slot and has not given it back. -/
def ThreadWorld.Holds (w : ThreadWorld) (i slot : Nat) : Prop :=
  (∃ tid, .reserved slot tid ∈ w.history i) ∧ .rolledBack slot ∉ w.history i ∧
    .released slot ∉ w.history i

theorem SpawnError.code_neg (e : SpawnError) : e.code < 0 := by
  cases e <;> decide

/-- How a history with an answer in it looks. -/
theorem Story.answered (hs : Story p t h) (hmem : .answered result ∈ h) :
    (result < 0 ∧ (h = [.answered result] ∨ ∃ slot tid : Nat,
      h = [.reserved slot tid, .rolledBack slot, .answered result])) ∨
    ∃ slot tid : Nat, 0 < tid ∧ result = tid ∧
      if t = .finished then
        h = [.reserved slot tid, .answered result, .released slot] ∨
          h = [.reserved slot tid, .released slot, .answered result]
      else h = [.reserved slot tid, .answered result] := by
  cases hs with
  | refusedAnswer e =>
    cases mem_singleton.mp hmem
    exact .inl ⟨e.code_neg, .inl rfl⟩
  | undoneAnswer slot tid e =>
    simp only [mem_cons, reduceCtorEq, false_or, SpawnEvent.answered.injEq,
      not_mem_nil, or_false] at hmem
    subst hmem
    exact .inl ⟨e.code_neg, .inr ⟨slot, tid, rfl⟩⟩
  | @postedAnswer slot tid t htid hslot =>
    simp only [mem_cons, reduceCtorEq, false_or, SpawnEvent.answered.injEq,
      not_mem_nil, or_false] at hmem
    subst hmem
    have hne : t ≠ .finished := fun heq => by
      rw [heq] at hslot
      cases hslot
    exact .inr ⟨slot, tid, htid, rfl, by rw [if_neg hne]⟩
  | @answerFirst slot tid htid =>
    simp only [mem_cons, reduceCtorEq, false_or, SpawnEvent.answered.injEq,
      not_mem_nil, or_false] at hmem
    subst hmem
    exact .inr ⟨slot, tid, htid, rfl, by rw [if_pos rfl]; exact .inl rfl⟩
  | @releaseFirst slot tid htid =>
    simp only [mem_cons, reduceCtorEq, false_or, SpawnEvent.answered.injEq,
      not_mem_nil, or_false] at hmem
    subst hmem
    exact .inr ⟨slot, tid, htid, rfl, by rw [if_pos rfl]; exact .inr rfl⟩
  | _ => simp at hmem

end TurboWasm
