/-
# Runs of the stores

A world holds any number of stores, the loaded modules' types in memory, and the values outside the
stores that keep objects alive.  A step is one store operation, the load of a module, or a change of
those outside values.  Every operation that its callers may make answers (`StoreOp.apply_spec`):
nothing underflows and the worklist is never overrun.  By induction over runs the store invariant
holds in every world that is reached, and the two main results are read off it: a collection frees
exactly the unreachable objects, and handles are safe for ever.
-/
import TurboWasm.Store.Handles
import TurboWasm.Store.Canonical

namespace TurboWasm

open Relation List Option Store

/-! ## 1. Worlds and operations -/

variable {n i id thread : Nat} {L : Layout} {config : StoreConfig} {allocated : Bool} {s : Store}

/-- The stores, the types in memory, and the values outside the stores. -/
structure World extends TypeWorld where
  env : Env

def World.setStore (w : World) (k : Nat) (s : Store) : World :=
  { w with stores := Function.update w.stores k s }

/-- The operations of `store.h` and `store_internal.h` that change a store. -/
inductive StoreOp where
  | allocate (thread : Nat) (type : Option TypePtr) (count : Nat) (allocated : Bool)
  | write (index i : Nat) (value : Value)
  | retain (thread : Nat) (value : Value) (id : Nat) (allocated : Bool)
  | release (thread id : Nat)
  | sourceAdd (thread : Nat) (source : Source)
  | sourceRemove (id : Nat)
  | sourcesRemoveOwner (owner : Nat)
  | attach (thread inst source fresh : Nat) (allocated : Bool)
  | detach (inst : Nat)
  | collect (thread : Nat)

/-- The status of an operation, and the reference that an allocation returns. -/
abbrev Answer := Result (Option Value)

/-- An operation on store `k`. -/
def StoreOp.apply (L : Layout) (w : World) (k : Nat) : StoreOp → Option (Answer × World)
  | .allocate thread type count allocated =>
    (gcAllocate L (w.stores k) w.env thread type count allocated).map fun (res, s) =>
      (res.map some, w.setStore k s)
  | .write index i value =>
    (writeValue (w.stores k) index i value).map fun s => (.ok none, w.setStore k s)
  | .retain thread value id allocated =>
    (rootRetain L (w.stores k) thread value id allocated).map fun (res, s) =>
      (res.map fun _ => none, w.setStore k s)
  | .release thread id =>
    (rootRelease L (w.stores k) thread id).map fun (res, s) =>
      (res.map fun _ => none, w.setStore k s)
  | .sourceAdd thread source =>
    (gcSourceAdd L (w.stores k) thread source).map fun (res, s) =>
      (res.map fun _ => none, w.setStore k s)
  | .sourceRemove id =>
    (gcSourceRemove L (w.stores k) id).map fun s => (.ok none, w.setStore k s)
  | .sourcesRemoveOwner owner =>
    (gcSourcesRemoveOwner L (w.stores k) owner).map fun s => (.ok none, w.setStore k s)
  | .attach thread inst source fresh allocated =>
    (storeAttach L w.mem (w.stores k) thread inst source fresh allocated).map
      fun (res, s, mem) => (res.map fun _ => none, { w.setStore k s with mem := mem })
  | .detach inst => some (.ok none, w.setStore k (storeDetach (w.stores k) inst))
  | .collect thread =>
    (storeCollect (w.stores k) w.env thread).map fun (res, s) =>
      (res.map fun _ => none, w.setStore k s)

/-- What callers see to: a write is to a value of an object; an attached instance is one of a
loaded module, and memory for new types is not in use. -/
def StoreOp.Allowed (w : World) (k : Nat) : StoreOp → Prop
  | .write index i _ => ∃ o, (w.stores k).objectAt index = some o ∧ i < o.values.length
  | .attach _ _ source fresh _ => source ∈ w.modules ∧ ¬ w.Known fresh
  | _ => True

/-- One step of the world. -/
inductive StoreStep (L : Layout) : World → World → Prop where
  | op {w w' : World} {k : Nat} {op : StoreOp} {answer : Answer} : op.Allowed w k →
      op.apply L w k = some (answer, w') → StoreStep L w w'
  | load {w : World} {ctx ctx' : TypeCtx} : ¬ w.Known ctx.addr → RawArray ctx →
      typesFinalize w.mem ctx = .ok ctx' →
      StoreStep L w { w with
        mem := w.mem.put ctx.addr ctx'.types, modules := ctx.addr :: w.modules }
  | outside {w : World} {env' : Env} : StoreStep L w { w with env := env' }

abbrev StoreRun (L : Layout) : World → World → Prop := ReflTransGen (StoreStep L)

/-- A world of new stores, with nothing loaded. -/
structure World.Initial (L : Layout) (w : World) : Prop where
  modules : w.modules = []
  stores : ∀ k, ∃ config id thread, storeCreate L config id thread true = .ok (w.stores k)

/-- The invariant of a world. -/
structure World.Ok (L : Layout) (w : World) : Prop where
  stores : ∀ k, StoreOk L (w.stores k)
  types : TypesOk w.mem w.Known

/-! ## 2. New stores -/

theorem initialSlots_get (hi : i < n) : (initialSlots n)[i]? =
    some ⟨none, 1, if i + 1 = n then uint32Max else i + 1, false⟩ := by
  simp [initialSlots, hi]

theorem initialSlots_mem (h : (initialSlots n)[i]? = some slot) :
    i < n ∧ slot = ⟨none, 1, if i + 1 = n then uint32Max else i + 1, false⟩ := by
  have hi : i < n := by simpa [initialSlots] using (lt_of_getElem? h)
  rw [initialSlots_get hi] at h
  exact ⟨hi, (some.inj h).symm⟩

/-- From slot `i` on, the list runs through the `m` slots that are left. -/
theorem initialSlots_chain : ∀ (m i : Nat), i + (m + 1) = n →
    FreeChain (initialSlots n) i (List.range' i (m + 1))
  | 0, i, h => by
    refine .cons (initialSlots_get (by omega)) ?_
    simp only [if_pos h]
    exact .nil
  | m + 1, i, h => by
    refine .cons (initialSlots_get (by omega)) ?_
    simp only [if_neg (show ¬ i + 1 = n by omega)]
    exact initialSlots_chain m (i + 1) (by omega)

theorem initialSlots_objectAt (s : Store) (hs : s.slots = initialSlots n) (i : Nat) :
    s.objectAt i = none := by
  simp only [objectAt, hs]
  cases h : (initialSlots n)[i]? with
  | none => rfl
  | some slot =>
    rw [(initialSlots_mem h).2]
    rfl

/-- `turbowasm_store_create`. -/
theorem storeCreate_ok (h : storeCreate L config id thread allocated = .ok s) : StoreOk L s := by
  unfold storeCreate at h
  simp only at h
  split at h
  · cases h
  split at h
  · cases h
  rename_i hfits _
  simp only [not_or, not_lt] at hfits
  simp only [Except.ok.injEq] at h
  have hslots : s.slots = initialSlots config.settings.maxObjects := by rw [← h]
  have hnone := initialSlots_objectAt s hslots
  have hpos : 0 < config.settings.maxObjects := by
    simp only [StoreConfig.settings]
    split
    · decide
    · omega
  have hle := config.settings.maxObjects_le
  have hcfg : s.config = config.settings := by rw [← h]
  obtain ⟨m, hm⟩ : ∃ m, config.settings.maxObjects = m + 1 := ⟨_, (Nat.succ_pred_eq_of_pos hpos).symm⟩
  have hcount : s.objectCount = 0 := by
    simp [objectCount, hslots, initialSlots]
  have hbytes : s.objectBytes = 0 := by
    simp [objectBytes, hslots, initialSlots, Function.comp_def, Slot.bytes]
  have hfree : FreeOk s.slots s.freeHead (.range' 0 (m + 1)) := by
    refine ⟨?_, nodup_range', fun i hi => ?_, fun i slot hi _ hno => ?_⟩
    · have hhead : s.freeHead = 0 := by rw [← h]
      rw [hhead, hslots]
      exact initialSlots_chain m 0 (by omega)
    · have hi : i < config.settings.maxObjects := by
        simp only [mem_range'_1] at hi
        omega
      rw [hslots]
      exact ⟨_, initialSlots_get hi, rfl⟩
    · rw [hslots] at hi
      refine absurd ?_ hno
      have := (initialSlots_mem hi).1
      simp only [mem_range'_1]
      omega
  exact {
    length := by simp [hslots, hcfg, initialSlots]
    small := by rw [hcfg]; omega
    generation := fun i slot hi => by
      rw [hslots] at hi
      rw [(initialSlots_mem hi).2]
      exact ⟨le_refl 1, show 1 ≤ gcGenerationMax by decide⟩
    free := ⟨_, hfree⟩
    objects := by rw [hcount, ← h]
    bytes := ⟨s.stats.bytes, by rw [hbytes, ← h]; simp⟩
    bytesLe := by rw [← h]; exact hfits.1
    roots := by rw [← h]; rfl
    sources := by rw [← h]; rfl
    rootsLe := by rw [← h]; exact Nat.zero_le _
    serialLt := fun i o ho => by simp [hnone] at ho
    serialInj := fun i j o o' ho => by simp [hnone] at ho
    clear := by
      rintro i ⟨slot, hi, hm⟩
      rw [hslots] at hi
      rw [(initialSlots_mem hi).2] at hm
      cases hm }

theorem storeCreate_types
    (h : storeCreate L config id thread allocated = .ok s) : s.types = [] := by
  unfold storeCreate at h
  simp only at h
  split at h
  · cases h
  split at h
  · cases h
  · cases h
    rfl

theorem World.Initial.ok {w : World} (h : w.Initial L) : w.Ok L where
  stores k := by
    obtain ⟨config, id, thread, hk⟩ := h.stores k
    exact storeCreate_ok hk
  types := by
    have hfresh : w.Fresh := ⟨h.modules, fun k => by
      obtain ⟨config, id, thread, hk⟩ := h.stores k
      exact storeCreate_types hk⟩
    exact hfresh.ok

/-! ## 3. Steps and runs -/

section Steps

variable {L : Layout} {w : World} {k : Nat} {s : Store} {w' : World}

@[simp] theorem World.setStore_self (s : Store) : (w.setStore k s).stores k = s := by
  simp [World.setStore]

@[simp] theorem World.setStore_ne (hj : j ≠ k) (s : Store) :
    (w.setStore k s).stores j = w.stores j := by
  simp [World.setStore, hj]

/-- An operation that leaves the types alone. -/
theorem World.Ok.setStore (h : w.Ok L) (hs : Settles L (w.stores k) s) :
    (w.setStore k s).Ok L ∧ ∀ j, Path L (w.stores j) ((w.setStore k s).stores j) := by
  have hother : TypeStep L w.toTypeWorld (w.setStore k s).toTypeWorld := by
    refine .other fun j => ?_
    by_cases hj : j = k
    · subst hj
      simp [hs.types]
    · simp [hj]
  refine ⟨⟨fun j => ?_, (hother.ok h.types).1⟩, fun j => ?_⟩
  · by_cases hj : j = k
    · subst hj
      simpa using hs.ok
    · simpa [hj] using h.stores j
  · by_cases hj : j = k
    · subst hj
      simpa using hs.path
    · rw [World.setStore_ne hj]

/-- `turbowasm_store_attach`. -/
theorem World.Ok.attach (h : w.Ok L) (allocated : Bool)
    (k thread inst : Nat) (hsource : source ∈ w.modules) (hfresh : ¬ w.Known fresh) : ∃ res s mem,
      storeAttach L w.mem (w.stores k) thread inst source fresh allocated = some (res, s, mem) ∧
      ({ w.setStore k s with mem := mem } : World).Ok L ∧
      ∀ j, Path L (w.stores j) ((w.setStore k s).stores j) := by
  have hk := h.stores k
  obtain ⟨⟨res, s, mem⟩, hout⟩ := storeAttach_answers (L := L) h.types hk.bytesLe
    (fun c hc => .inr ⟨k, hc⟩) (.inl hsource) hfresh thread inst allocated
  have hok : StoreOk L s ∧ Path L (w.stores k) s := by
    obtain ⟨-, -, rfl, -⟩ | ⟨-, -, rfl, -⟩ | ⟨bytes, -, -, hle, rfl, -⟩ := storeAttach_cases hout
    · exact ⟨hk, .refl⟩
    · have hlink : StoreOk L (linkInstance (w.stores k) inst) :=
        hk.frame (e := 0) rfl rfl rfl rfl rfl rfl hk.bytesLe hk.roots hk.sources hk.rootsLe
      exact ⟨hlink, .single ⟨hk, .of_same rfl rfl rfl rfl rfl, hlink⟩⟩
    have hlink : StoreOk L (linkInstance { w.stores k with
        types := fresh :: (w.stores k).types
        stats := { (w.stores k).stats with bytes := (w.stores k).stats.bytes + bytes } } inst) :=
      hk.frame (e := bytes) rfl rfl rfl rfl rfl (by simp only [linkInstance]; omega) hle hk.roots
        hk.sources hk.rootsLe
    exact ⟨hlink, .single ⟨hk, .of_same rfl rfl rfl rfl rfl, hlink⟩⟩
  have hstep : TypeStep L w.toTypeWorld
      ({ w.setStore k s with mem := mem } : World).toTypeWorld := .attach hsource hfresh hout
  refine ⟨res, s, mem, hout, ⟨fun j => ?_, (hstep.ok h.types).1⟩, fun j => ?_⟩
  · show StoreOk L ((w.setStore k s).stores j)
    by_cases hj : j = k
    · subst hj
      simpa using hok.1
    · simpa [hj] using h.stores j
  · by_cases hj : j = k
    · subst hj
      simpa using hok.2
    · rw [World.setStore_ne hj]

/-- `turbowasm_store_detach`. -/
theorem storeDetach_settles (h : StoreOk L s) (inst : Nat) : Settles L s (storeDetach s inst) :=
  .of_evolves h (h.frame (e := 0) rfl rfl rfl rfl rfl rfl h.bytesLe h.roots h.sources h.rootsLe)
    (.of_same rfl rfl rfl rfl rfl) rfl

/-- Every operation that callers may make answers, keeps the invariant and moves the slots of each
store along; an allocation that succeeds returns the handle of its object. -/
theorem StoreOp.apply_spec (h : w.Ok L) (op : StoreOp) (ha : op.Allowed w k) : ∃ answer w',
    op.apply L w k = some (answer, w') ∧ w'.Ok L ∧ (∀ j, Path L (w.stores j) (w'.stores j)) ∧
    ∀ v, answer = .ok (some v) → Issued (w'.stores k) v (w.stores k).allocations := by
  have hk := h.stores k
  -- an operation that answers no reference
  have hquiet : ∀ {answer : Answer} {s : Store}, Settles L (w.stores k) s →
      (∀ v, answer ≠ .ok (some v)) → op.apply L w k = some (answer, w.setStore k s) →
      ∃ answer w', op.apply L w k = some (answer, w') ∧ w'.Ok L ∧
        (∀ j, Path L (w.stores j) (w'.stores j)) ∧
        ∀ v, answer = .ok (some v) → Issued (w'.stores k) v (w.stores k).allocations := by
    intro answer s hs hv happly
    exact ⟨answer, _, happly, (h.setStore hs).1, (h.setStore hs).2, fun v hav => absurd hav (hv v)⟩
  have hnone : ∀ v : Value, (.ok none : Answer) ≠ .ok (some v) := by simp
  have hunit : ∀ {α : Type} (res : Result α) v,
      (res.map fun _ => (none : Option Value)) ≠ .ok (some v) := by
    intro α res v
    cases res <;> simp [Except.map]
  cases op with
  | allocate thread type count allocated =>
    obtain ⟨res, s, hs, hset, hissued⟩ := gcAllocate_spec hk w.env thread type count allocated
    obtain ⟨hok, hpath⟩ := h.setStore hset
    refine ⟨_, _, by simp only [StoreOp.apply, hs]; rfl, hok, hpath, fun v hv => ?_⟩
    rw [World.setStore_self]
    refine hissued v ?_
    cases res with
    | error e => cases hv
    | ok x =>
      simp only [Except.map, Except.ok.injEq, some.injEq] at hv
      rw [hv]
  | write index i value =>
    obtain ⟨o, ho, hi⟩ := ha
    obtain ⟨s, hs, hset⟩ := writeValue_spec hk ho hi value
    exact hquiet hset hnone (by simp [StoreOp.apply, hs])
  | retain thread value id allocated =>
    obtain ⟨res, s, hs, hset⟩ := rootRetain_spec hk thread value id allocated
    exact hquiet hset (hunit res) (by simp [StoreOp.apply, hs])
  | release thread id =>
    obtain ⟨res, s, hs, hset⟩ := rootRelease_spec hk thread id
    exact hquiet hset (hunit res) (by simp [StoreOp.apply, hs])
  | sourceAdd thread source =>
    obtain ⟨res, s, hs, hset⟩ := gcSourceAdd_spec hk thread source
    exact hquiet hset (hunit res) (by simp [StoreOp.apply, hs])
  | sourceRemove id =>
    obtain ⟨s, hs, hset⟩ := gcSourceRemove_spec hk id
    exact hquiet hset hnone (by simp only [StoreOp.apply, hs, map_some])
  | sourcesRemoveOwner owner =>
    obtain ⟨s, hs, hset⟩ := gcSourcesRemoveOwner_spec hk owner
    exact hquiet hset hnone (by simp [StoreOp.apply, hs])
  | attach thread inst source fresh allocated =>
    obtain ⟨res, s, mem, hs, hok, hpath⟩ := h.attach allocated k thread inst ha.1 ha.2
    exact ⟨_, _, by simp only [StoreOp.apply, hs, map_some], hok, hpath,
      fun v hv => absurd hv (hunit res v)⟩
  | detach inst => exact hquiet (storeDetach_settles hk inst) hnone rfl
  | collect thread =>
    obtain ⟨res, s, hs, hset⟩ := storeCollect_spec hk w.env thread
    exact hquiet hset (hunit res) (by simp [StoreOp.apply, hs])

/-- One step. -/
theorem StoreStep.ok (hstep : StoreStep L w w') (h : w.Ok L) :
    w'.Ok L ∧ ∀ j, Path L (w.stores j) (w'.stores j) := by
  cases hstep with
  | @op _ k op answer ha happly =>
    obtain ⟨answer', w'', hout, hok, hpath, -⟩ := op.apply_spec h ha
    rw [happly] at hout
    cases hout
    exact ⟨hok, hpath⟩
  | @load ctx ctx' hfresh hraw hfin =>
    have hstep : TypeStep L w.toTypeWorld _ := .load hfresh hraw hfin
    exact ⟨⟨h.stores, (hstep.ok h.types).1⟩, fun j => .refl⟩
  | outside => exact ⟨⟨h.stores, h.types⟩, fun j => .refl⟩

/-- A whole run. -/
theorem StoreRun.ok (hrun : StoreRun L w w') (h : w.Ok L) :
    w'.Ok L ∧ ∀ j, Path L (w.stores j) (w'.stores j) := by
  induction hrun with
  | refl => exact ⟨h, fun j => .refl⟩
  | tail _ hstep ih =>
    obtain ⟨hok, hpath⟩ := ih
    obtain ⟨hok', hpath'⟩ := hstep.ok hok
    exact ⟨hok', fun j => (hpath j).trans (hpath' j)⟩

end Steps

/-! ## 4. Collections -/

variable {L : Layout} {w : World} {k : Nat}

/-- **A collection is exact, in every reachable world.**  The collector answers: its worklist never
needs more entries than the store has slots.  The objects that can be reached from the roots, the
sources and the attached instances stay as they are, and every other object is freed. -/
theorem collect_exact {L : Layout} {w₀ w : World} (h₀ : w₀.Initial L) (hrun : StoreRun L w₀ w)
    (k : Nat) : ∃ s', collect (w.stores k) w.env = some s' ∧
      (∀ i o, (w.stores k).objectAt i = some o →
        ((w.stores k).Reachable w.env i → s'.objectAt i = some o) ∧
        (¬ (w.stores k).Reachable w.env i → s'.objectAt i = none)) ∧
      (∀ i, (w.stores k).Reachable w.env i → s'.slots[i]? = (w.stores k).slots[i]?) ∧
      ∀ i o, s'.objectAt i = some o → (w.stores k).objectAt i = some o := by
  have hk := (hrun.ok h₀.ok).1.stores k
  obtain ⟨s', hs', hok, hcol⟩ := collect_spec hk w.env
  have hkept : ∀ i, (w.stores k).Reachable w.env i → s'.slots[i]? = (w.stores k).slots[i]? := by
    intro i hr
    obtain ⟨o, ho⟩ := reachable_object hr
    obtain ⟨slot, hslot, -⟩ := bind_eq_some_iff.mp ho
    obtain ⟨slot', hslot', hsame, -⟩ := hcol.slot i slot hslot
    rw [hslot', hsame (.inl hr), hslot]
  refine ⟨s', hs', fun i o ho => ⟨fun hr => ?_, fun hr => ?_⟩, hkept, fun i o ho => ?_⟩
  · rwa [objectAt, hkept i hr]
  · obtain ⟨slot, hslot, hobj⟩ := bind_eq_some_iff.mp ho
    obtain ⟨slot', hslot', -, hfreed⟩ := hcol.slot i slot hslot
    simp [objectAt, hslot', (hfreed hr (by simp [hobj])).1]
  -- a slot that holds an object afterwards was kept as it is
  obtain ⟨slot', hslot', hobj'⟩ := bind_eq_some_iff.mp ho
  have hlt : i < (w.stores k).slots.length := by
    rw [hk.length, ← hcol.evolves.config, ← hok.length]
    exact lt_of_getElem? hslot'
  obtain ⟨x, hx, hsame, hfreed⟩ := hcol.slot i _ (getElem?_eq_getElem hlt)
  rw [hslot'] at hx
  cases hx
  by_cases hr : (w.stores k).Reachable w.env i
  · rwa [objectAt, ← hkept i hr, hslot']
  cases hobj : (w.stores k).slots[i].object with
  | none =>
    rw [hsame (.inr hobj), hobj] at hobj'
    cases hobj'
  | some y =>
    rw [(hfreed hr (by simp [hobj])).1] at hobj'
    cases hobj'

/-- Stores with room for one object each, and nothing outside them. -/
def smallWorld : World where
  mem := fun _ => []
  modules := []
  stores := fun _ => smallStore
  env := ⟨fun _ => [], fun _ => ⟨[], [], [], none⟩⟩

theorem smallWorld_initial : smallWorld.Initial smallLayout where
  modules := rfl
  stores _ := ⟨⟨1000, 1, 1, by decide⟩, 0, 0, rfl⟩

/-- `smallStore` after an allocation. -/
def smallStoreTaken : Store :=
  { smallStore with
    slots := [⟨some ⟨0, none, 1, []⟩, 1, uint32Max, false⟩]
    freeHead := uint32Max
    stats := ⟨4, 1, 0, 0⟩
    allocations := 1 }

theorem smallWorld_allocate : (StoreOp.allocate 0 none 0 true).apply smallLayout smallWorld 0 =
    some (.ok (some (.gcref ⟨some 0, gcHandle 1 0⟩)), smallWorld.setStore 0 smallStoreTaken) := rfl

theorem smallWorld_allowed : (StoreOp.allocate 0 none 0 true).Allowed smallWorld 0 := trivial

theorem smallWorld_run : StoreRun smallLayout smallWorld (smallWorld.setStore 0 smallStoreTaken) :=
  .single (.op smallWorld_allowed smallWorld_allocate)

/-- The object of a root and of a source's frame stays with the one its field leads to; one that
only points at itself is freed. -/
theorem collect_exact_ring : ∃ w₀ w s', w₀.Initial smallLayout ∧ StoreRun smallLayout w₀ w ∧
    (w.stores 0).slots.map (·.object.isSome) = [true, true, true] ∧
    collect (w.stores 0) w.env = some s' ∧
    (s'.objectAt 0).isSome ∧ (s'.objectAt 1).isSome ∧ s'.objectAt 2 = none := by
  let ref (i : Nat) : Value := .gcref ⟨some 0, gcHandle 1 i⟩
  let fresh : Store := { smallStore with
    config := ⟨1000, 3, 2, by decide⟩, stats := ⟨7, 0, 0, 0⟩, slots := initialSlots 3 }
  let w₀ : World := { smallWorld with
    stores := fun _ => fresh, env := ⟨fun _ => [ref 0], smallWorld.env.instances⟩ }
  have hinit : w₀.Initial smallLayout := ⟨rfl, fun _ => ⟨⟨1000, 3, 2, by decide⟩, 0, 0, rfl⟩⟩
  have h₁ := ReflTransGen.single
    (@StoreStep.op smallLayout w₀ _ 0 (.allocate 0 none 1 true) _ trivial rfl)
  have h₂ := h₁.tail (@.op smallLayout _ _ 0 (.allocate 0 none 1 true) _ trivial rfl)
  have h₃ := h₂.tail (@.op smallLayout _ _ 0 (.allocate 0 none 1 true) _ trivial rfl)
  have h₄ := h₃.tail (@.op smallLayout _ _ 0 (.write 0 0 (ref 1)) _ ⟨_, rfl, by decide⟩ rfl)
  have h₅ := h₄.tail (@.op smallLayout _ _ 0 (.write 2 0 (ref 2)) _ ⟨_, rfl, by decide⟩ rfl)
  have h₆ := h₅.tail (@.op smallLayout _ _ 0 (.retain 0 (ref 0) 0 true) _ trivial rfl)
  have h₇ := h₆.tail (@.op smallLayout _ _ 0 (.sourceAdd 0 ⟨0, 0⟩) _ trivial rfl)
  obtain ⟨s', hs', hexact, -⟩ := collect_exact hinit h₇ 0
  refine ⟨w₀, _, s', hinit, h₇, rfl, hs', ?_, ?_, (hexact 2 _ rfl).2 fun hr => ?_⟩
  · rw [(hexact 0 _ rfl).1 (.root (show 0 ∈ [0, 0] by decide))]
    rfl
  · rw [(hexact 1 _ rfl).1 (.step (.root (show 0 ∈ [0, 0] by decide))
      ⟨_, rfl, show 1 ∈ [1] by decide⟩)]
    rfl
  · suffices hne : ∀ {k}, Store.Reachable _ _ k → k ≠ 2 from hne hr rfl
    intro k hk
    induction hk with
    | root hk => exact ne_of_mem_of_not_mem hk (show 2 ∉ [0, 0] by decide)
    | @step x _ _ he ih =>
      obtain ⟨o, ho, hj⟩ := he
      rcases x with _ | _ | _ | x
      · cases ho
        exact ne_of_mem_of_not_mem hj (show 2 ∉ [1] by decide)
      · cases ho
        exact absurd hj not_mem_nil
      · exact absurd rfl ih
      · cases ho

/-! ## 5. Handles and accounting -/

/-- The free list, the occupied slots and the retired slots share out the slot array, and the
counters count what they should and stay within the limits. -/
structure Accounted (s : Store) : Prop where
  slots : ∃ free, FreeChain s.slots s.freeHead free ∧ free.Nodup ∧
    (∀ i ∈ free, i < s.slots.length) ∧ ∀ i < s.slots.length,
      (i ∈ free ∧ s.objectAt i = none ∧ ¬ s.Retired i) ∨
      (i ∉ free ∧ (s.objectAt i).isSome ∧ ¬ s.Retired i) ∨
      (i ∉ free ∧ s.objectAt i = none ∧ s.Retired i)
  length : s.slots.length = s.config.maxObjects
  objects : s.stats.objects = s.slots.countP fun slot => slot.object.isSome
  objectsLe : s.stats.objects ≤ s.config.maxObjects
  bytesLe : s.stats.bytes ≤ s.config.maxBytes
  roots : s.stats.roots = s.roots.length
  sources : s.sourceCount = s.sources.length
  rootsLe : s.stats.roots + s.sourceCount ≤ s.config.maxRoots

/-- The accounts of a store that is in order. -/
theorem StoreOk.accounted (h : StoreOk L s) : Accounted s where
  slots := by
    obtain ⟨free, hfree⟩ := h.free
    have hlen : s.slots.length ≤ uint32Max := by
      rw [h.length]
      exact h.small.le
    have hon : ∀ i, s.OnFree i ↔ i ∈ free := by
      intro i
      constructor
      · rintro ⟨free', hchain, hi⟩
        rwa [hchain.unique hlen hfree.chain] at hi
      · intro hi
        exact ⟨free, hfree.chain, hi⟩
    refine ⟨free, hfree.chain, hfree.nodup, fun i hi => ?_, fun i hi => ?_⟩
    · obtain ⟨slot, hslot, -⟩ := hfree.empty i hi
      exact lt_of_getElem? hslot
    have hslot := getElem?_eq_getElem hi
    have hat : s.objectAt i = s.slots[i].object := by simp [objectAt, hslot]
    rw [hat]
    cases hobj : s.slots[i].object with
    | some o =>
      refine .inr (.inl ⟨fun hmem => h.not_onFree hslot hobj ((hon i).mpr hmem), rfl, ?_⟩)
      rintro ⟨x, hx, hnone, -⟩
      rw [hslot] at hx
      cases hx
      simp [hobj] at hnone
    | none =>
      by_cases hmem : i ∈ free
      · refine .inl ⟨hmem, rfl, ?_⟩
        rintro ⟨-, -, -, -, hno⟩
        exact hno ((hon i).mpr hmem)
      · exact .inr (.inr ⟨hmem, rfl, _, hslot, hobj, hfree.retired i _ hslot hobj hmem,
          fun hfr => hmem ((hon i).mp hfr)⟩)
  length := h.length
  objects := h.objects
  objectsLe := by
    rw [h.objects, ← h.length]
    exact countP_le_length
  bytesLe := h.bytesLe
  roots := h.roots
  sources := h.sources
  rootsLe := h.rootsLe

/-- The handle of an allocated object resolves to the object as long as the store holds it, and to
nothing from then on. -/
def SafeHandle (L : Layout) (w : World) (k : Nat) (ref : GcRef) (serial : Nat) : Prop :=
  ∀ w₁, StoreRun L w w₁ →
    ((w₁.stores k).Holds serial → ∃ o, (w₁.stores k).resolve ref = some o ∧ o.serial = serial) ∧
    (¬ (w₁.stores k).Holds serial → ∀ w₂, StoreRun L w₁ w₂ → (w₂.stores k).resolve ref = none)

theorem Issued.safe (h : w.Ok L) (hv : Issued (w.stores k) v serial) :
    ∃ ref, v = .gcref ref ∧ (w.stores k).Holds serial ∧ SafeHandle L w k ref serial := by
  obtain ⟨i, slot, o, rfl, hslot, ho, rfl⟩ := hv
  have hgen := ((h.stores k).generation i slot hslot).2
  have hlive : HandleLive (w.stores k) slot.generation i o.serial := ⟨slot, o, hslot, rfl, ho, rfl⟩
  refine ⟨_, rfl, hlive.holds, fun w₁ hrun₁ => ?_⟩
  obtain ⟨hok₁, hpath₁⟩ := hrun₁.ok h
  have hlater := (hpath₁ k).live hlive
  refine ⟨fun hholds => ?_, fun hgone w₂ hrun₂ => ?_⟩
  · rcases hlater with hl | hd
    · rw [← (hpath₁ k).id]
      exact hl.resolve (hok₁.stores k)
    · exact absurd hholds hd.2.1
  · obtain ⟨hok₂, hpath₂⟩ := hrun₂.ok hok₁
    rcases hlater with hl | hd
    · exact absurd hl.holds hgone
    · rw [← (hpath₁ k).id, ← (hpath₂ k).id]
      exact ((hpath₂ k).dead hd).resolve (hok₂.stores k) hgen

/-- A slot in use at the last generation: no other object ever gets it. -/
theorem World.Ok.last_generation {w₁ : World} (h : w.Ok L)
    (hrun : StoreRun L w w₁) {slot : Slot} {o : Object}
    (hslot : (w.stores k).slots[i]? = some slot) (ho : slot.object = some o)
    (hgen : slot.generation = gcGenerationMax) :
    (∃ o', (w₁.stores k).objectAt i = some o' ∧ o'.serial = o.serial) ∨
      (w₁.stores k).Retired i := by
  obtain ⟨hok₁, hpath⟩ := hrun.ok h
  rcases (hpath k).live ⟨slot, o, hslot, hgen, ho, rfl⟩ with
    ⟨slot', o', hslot', -, ho', hserial⟩ | ⟨-, -, slot', hslot', hlt | hret⟩
  · exact .inl ⟨o', by simp [objectAt, hslot', ho'], hserial⟩
  · have := ((hok₁.stores k).generation i slot' hslot').2
    omega
  · exact .inr hret

/-- **Handles are safe and the accounts are right, in every reachable world.**  Every operation
answers, so that no limit subtraction underflows; the handle of an allocation is that of an object
the store did not have before, good as long as the object is in the store and never again; and a
slot at the last generation is never used for another object. -/
theorem store_handles_safe {L : Layout} {w₀ w : World} (h₀ : w₀.Initial L)
    (hrun : StoreRun L w₀ w) (k : Nat) : Accounted (w.stores k) ∧
    (∀ op : StoreOp, op.Allowed w k → ∃ answer w', op.apply L w k = some (answer, w')) ∧
    (∀ (op : StoreOp) (v : Value) (w' : World), op.Allowed w k →
      op.apply L w k = some (.ok (some v), w') →
      ∃ ref serial, v = .gcref ref ∧ ¬ (w.stores k).Holds serial ∧ (w'.stores k).Holds serial ∧
        SafeHandle L w' k ref serial) ∧
    (∀ i slot o, (w.stores k).slots[i]? = some slot → slot.object = some o →
      slot.generation = gcGenerationMax → ∀ w₁, StoreRun L w w₁ →
        (∃ o', (w₁.stores k).objectAt i = some o' ∧ o'.serial = o.serial) ∨
          (w₁.stores k).Retired i) ∧
    (∀ i, (w.stores k).Retired i → ∀ w₁, StoreRun L w w₁ → (w₁.stores k).Retired i) := by
  have hok := (hrun.ok h₀.ok).1
  refine ⟨(hok.stores k).accounted, fun op ha => ?_, fun op v w' ha happly => ?_,
    fun i slot o hslot ho hgen w₁ hrun₁ => hok.last_generation hrun₁ hslot ho hgen,
    fun i hret w₁ hrun₁ => ((hrun₁.ok hok).2 k).retired hret⟩
  · obtain ⟨answer, w', hout, -⟩ := op.apply_spec hok ha
    exact ⟨answer, w', hout⟩
  obtain ⟨answer, w'', hout, hok', -, hissued⟩ := op.apply_spec hok ha
  rw [happly] at hout
  cases hout
  obtain ⟨ref, hv, hholds, hsafe⟩ := (hissued v rfl).safe hok'
  refine ⟨ref, _, hv, ?_, hholds, hsafe⟩
  rintro ⟨i, o, ho, heq⟩
  exact absurd heq ((hok.stores k).serialLt i o ho).ne

/-- An object of a small store is collected and its slot used again: the old handle resolves to
nothing. -/
theorem store_handles_safe_small : ∃ w, StoreRun smallLayout smallWorld w ∧
    Accounted (w.stores 0) ∧ (w.stores 0).slots = [⟨some ⟨1, none, 1, []⟩, 2, uint32Max, false⟩] ∧
    (w.stores 0).resolve ⟨some 0, gcHandle 1 0⟩ = none := by
  obtain ⟨w₂, w₃, h₂, h₃, hempty, hslots⟩ : ∃ w₂ w₃, (StoreOp.collect 0).apply smallLayout
        (smallWorld.setStore 0 smallStoreTaken) 0 = some (.ok none, w₂) ∧
      (StoreOp.allocate 0 none 0 true).apply smallLayout w₂ 0 =
        some (.ok (some (.gcref ⟨some 0, gcHandle 2 0⟩)), w₃) ∧
      (w₂.stores 0).slots = [⟨none, 2, uint32Max, false⟩] ∧
      (w₃.stores 0).slots = [⟨some ⟨1, none, 1, []⟩, 2, uint32Max, false⟩] :=
    ⟨_, _, rfl, rfl, rfl, rfl⟩
  have hstep : StoreStep smallLayout _ w₂ := .op (by trivial) h₂
  have hreuse : StoreRun smallLayout w₂ w₃ := .single (.op (by trivial) h₃)
  have hrun := (smallWorld_run.tail hstep).trans hreuse
  obtain ⟨-, -, hsafe, -⟩ := store_handles_safe smallWorld_initial .refl 0
  obtain ⟨ref, serial, hv, -, -, hs⟩ := hsafe _ _ _ smallWorld_allowed smallWorld_allocate
  cases hv
  refine ⟨w₃, hrun, (store_handles_safe smallWorld_initial hrun 0).1, hslots,
    (hs w₂ (.single hstep)).2 ?_ w₃ hreuse⟩
  rintro ⟨i, o, ho, -⟩
  rw [objectAt, hempty] at ho
  cases i <;> cases ho

end TurboWasm
