/-
# Operations and handles

Every operation of the store moves each slot along one of four fates (`SlotFate`): it stays empty,
it keeps its object, its object is freed, or it is taken from the free list for a new object.  One
lemma per operation says that it answers, keeps the store invariant and moves the slots that way
(`Evolves`).

A handle given out for an object stays good along these moves (`HandleOk`): either the slot it names
still has its generation and the object, or the object is gone and the slot has left that generation
for ever, because the generation moved on or because the slot is retired.
-/
import TurboWasm.Store.Sweep

namespace TurboWasm

open TurboWasm.Lib List Option Store

/-! ## 1. How slots evolve -/

variable {s s' : Store} {L : Layout}

/-- What one operation can do to slot `i`. -/
inductive SlotFate (s : Store) (i : Nat) (slot slot' : Slot) : Prop where
  | idle : slot'.generation = slot.generation → slot.object = none → slot'.object = none →
      SlotFate s i slot slot'
  | kept (o o' : Object) : slot'.generation = slot.generation → slot.object = some o →
      slot'.object = some o' → o'.serial = o.serial → SlotFate s i slot slot'
  | freed (o : Object) : slot.object = some o → slot'.object = none →
      (slot.generation < gcGenerationMax → slot'.generation = slot.generation + 1) →
      (¬ slot.generation < gcGenerationMax → slot'.generation = slot.generation) →
      SlotFate s i slot slot'
  | taken (o' : Object) : slot'.generation = slot.generation → slot.object = none → s.OnFree i →
      slot'.object = some o' → s.allocations ≤ o'.serial → SlotFate s i slot slot'

/-- The slots of `s` evolve into those of `s'`. -/
structure Evolves (s s' : Store) : Prop where
  id : s'.id = s.id
  config : s'.config = s.config
  allocations : s.allocations ≤ s'.allocations
  slot : ∀ (i : Nat) (slot : Slot), s.slots[i]? = some slot →
    ∃ slot', s'.slots[i]? = some slot' ∧ SlotFate s i slot slot'
  free : ∀ i, s'.OnFree i → s.OnFree i ∨ ∃ slot, s.slots[i]? = some slot ∧ slot.object.isSome ∧
    slot.generation < gcGenerationMax

theorem SlotFate.refl (s : Store) (i : Nat) (slot : Slot) : SlotFate s i slot slot := by
  cases ho : slot.object with
  | none => exact .idle rfl ho ho
  | some o => exact .kept o o rfl ho ho rfl

/-- An operation that leaves the slots alone. -/
theorem Evolves.of_same (hid : s'.id = s.id) (hcfg : s'.config = s.config)
    (halloc : s'.allocations = s.allocations) (hslots : s'.slots = s.slots)
    (hhead : s'.freeHead = s.freeHead) : Evolves s s' where
  id := hid
  config := hcfg
  allocations := le_of_eq halloc.symm
  slot i slot hi := ⟨slot, by rw [hslots, hi], .refl s i slot⟩
  free i hi := .inl (by rwa [Store.OnFree, hslots, hhead] at hi)

/-- A collection. -/
theorem Collected.evolves (h : Collected s s' env) : Evolves s s' := by
  refine ⟨by rw [h.frame], by rw [h.frame], le_of_eq (by rw [h.frame]), fun i slot hi => ?_,
    h.free⟩
  obtain ⟨slot', hslot', hkept, hfreed⟩ := h.slot i slot hi
  refine ⟨slot', hslot', ?_⟩
  cases ho : slot.object with
  | none =>
    rw [hkept (.inr ho)]
    exact .refl s i slot
  | some o =>
    by_cases hr : s.Reachable env i
    · rw [hkept (.inl hr)]
      exact .refl s i slot
    · obtain ⟨hobj, hlt, hge⟩ := hfreed hr (by simp [ho])
      exact .freed o ho hobj hlt hge

/-- One move between stores that satisfy the invariant. -/
def Moves (L : Layout) (s s' : Store) : Prop := StoreOk L s ∧ Evolves s s' ∧ StoreOk L s'

/-- The slots move along: an operation makes at most a few moves. -/
abbrev Path (L : Layout) : Store → Store → Prop := Relation.ReflTransGen (Moves L)

/-- What every operation but an attach does to a store. -/
structure Settles (L : Layout) (s s' : Store) : Prop where
  ok : StoreOk L s'
  path : Path L s s'
  types : s'.types = s.types

theorem Settles.refl (h : StoreOk L s) : Settles L s s := ⟨h, .refl, rfl⟩

theorem Settles.of_evolves (h : StoreOk L s) (hok : StoreOk L s')
    (hev : Evolves s s') (ht : s'.types = s.types) : Settles L s s' :=
  ⟨hok, .single ⟨h, hev, hok⟩, ht⟩

theorem Settles.trans {s'' : Store} (h : Settles L s s')
    (h' : Settles L s' s'') : Settles L s s'' :=
  ⟨h'.ok, h.path.trans h'.path, h'.types.trans h.types⟩

/-! ## 2. The operations -/

section Ops

variable {L : Layout} {s : Store} {s' : Store} {i : Nat}

/-- The invariant of a store whose slots are those of `s`; `e` bytes are charged for good. -/
theorem StoreOk.frame (h : StoreOk L s) {e : Nat} (hcfg : s'.config = s.config)
    (hslots : s'.slots = s.slots) (hhead : s'.freeHead = s.freeHead)
    (halloc : s'.allocations = s.allocations) (hobjects : s'.stats.objects = s.stats.objects)
    (hbytes : s'.stats.bytes + s.roots.length * L.root + s.sources.length * L.source =
      s.stats.bytes + s'.roots.length * L.root + s'.sources.length * L.source + e)
    (hle : s'.stats.bytes ≤ s.config.maxBytes) (hroots : s'.stats.roots = s'.roots.length)
    (hsources : s'.sourceCount = s'.sources.length)
    (hrootsLe : s'.stats.roots + s'.sourceCount ≤ s.config.maxRoots) : StoreOk L s' := by
  have hat : s'.objectAt = s.objectAt := by
    funext i
    simp [objectAt, hslots]
  refine ⟨⟨?_, ?_, ?_, ?_, ?_, ?_, ?_, hroots, hsources, ?_, ?_, ?_⟩, ?_⟩
  · rw [hslots, hcfg, h.length]
  · rw [hcfg]
    exact h.small
  · rw [hslots]
    exact h.generation
  · rw [hslots, hhead]
    exact h.free
  · rw [hobjects, h.objects, objectCount, objectCount, hslots]
  · obtain ⟨fixed, hfixed⟩ := h.bytes
    refine ⟨fixed + e, ?_⟩
    have hob : s'.objectBytes = s.objectBytes := by simp only [objectBytes, hslots]
    omega
  · rwa [hcfg]
  · rwa [hcfg]
  · rw [hat, halloc]
    exact h.serialLt
  · rw [hat]
    exact h.serialInj
  · intro i
    simp only [Store.Marked, hslots]
    exact h.clear i

theorem checkedSub_of_le (h : b ≤ a) : checkedSub a b = some (a - b) := by
  simp [checkedSub, h]

section

variable (h : StoreOk L s)

include h

theorem StoreOk.bytesLeft : s.bytesLeft = some (s.config.maxBytes - s.stats.bytes) :=
  checkedSub_of_le h.bytesLe

/-- A store that differs from `s` in slot `i`, its counters and a shorter free list. -/
theorem StoreOk.settles_put {slot : Slot}
    (hi : s.slots[i]? = some slot) (slot' : Slot) (hslots : s'.slots = s.slots.set i slot')
    (hframe : s' = { s with
      slots := s'.slots, freeHead := s'.freeHead, allocations := s'.allocations, stats := s'.stats })
    (hcore : StoreCore L s') (hmark : slot'.marked = slot.marked)
    (hfate : SlotFate s i slot slot') (halloc : s.allocations ≤ s'.allocations)
    (hfree : ∀ j, s'.OnFree j → s.OnFree j) : Settles L s s' := by
  have hget := getElem?_set_of hi slot'
  refine .of_evolves h ⟨hcore, ?_⟩ ⟨by rw [hframe], by rw [hframe], halloc, fun j x hx => ?_,
    fun j hj => .inl (hfree j hj)⟩ (by rw [hframe])
  · rintro j ⟨x, hx, hm⟩
    rw [hslots, hget] at hx
    split at hx
    · cases hx
      exact h.clear i ⟨slot, hi, hmark ▸ hm⟩
    · exact h.clear j ⟨x, hx, hm⟩
  rw [hslots, hget]
  by_cases hj : j = i
  · subst hj
    rw [hi] at hx
    cases hx
    exact ⟨slot', if_pos rfl, hfate⟩
  · exact ⟨x, by rw [if_neg hj, hx], .refl s j x⟩

/-- Taking the head of the free list. -/
theorem takeSlot_spec (hhead : s.freeHead ≠ uint32Max)
    (hroom : bytes ≤ s.config.maxBytes - s.stats.bytes) (type : Option TypePtr) (count : Nat) :
    ∃ (slot : Slot) (s' : Store), s.slots[s.freeHead]? = some slot ∧ takeSlot s type count bytes =
        some (.gcref ⟨some s.id, gcHandle slot.generation s.freeHead⟩, s') ∧
      Settles L s s' ∧ s'.id = s.id ∧ s'.slots[s.freeHead]? =
        some { slot with object := some ⟨s.allocations, type, bytes, .replicate count .zero⟩ } := by
  obtain ⟨free, hfree⟩ := h.free
  have hchain := hfree.chain
  generalize hh : s.freeHead = head at hchain
  cases hchain with
  | nil => exact absurd hh hhead
  | @cons _ slot rest hslot hrest =>
    obtain ⟨slot₀, hslot₀, ho⟩ := hfree.empty head (mem_cons_self ..)
    rw [hslot] at hslot₀
    cases hslot₀
    obtain ⟨hnot, hnd⟩ := nodup_cons.mp hfree.nodup
    generalize hobj : (⟨s.allocations, type, bytes, .replicate count .zero⟩ : Object) = obj
    have hserial : obj.serial = s.allocations := by rw [← hobj]
    have hob : obj.bytes = bytes := by rw [← hobj]
    have hbytesLe := h.bytesLe
    -- the free list is now the rest of it
    have hfree' : FreeOk (s.slots.set head { slot with object := some obj }) slot.nextFree rest :=
      hfree.put hslot (hrest.set hnot _) hnd (fun j hj => by simp [hj]) (fun hm => absurd hm hnot)
        (fun _ hnone => by cases hnone)
    have hcore := h.toStoreCore.put hslot hfree' (s.stats.bytes + bytes) (s.stats.objects + 1)
      (s.allocations + 1) (h.generation head slot hslot) (by simp [ho])
      (by simp [Slot.bytes, ho, hob]) (by omega) (Nat.le_succ _) fun o' ho' => by
        cases ho'
        refine ⟨by omega, fun j x _ hx => ?_⟩
        have := h.serialLt j x hx
        omega
    refine ⟨slot, _, hslot, ?_, h.settles_put hslot { slot with object := some obj } rfl
      rfl hcore rfl (.taken obj rfl ho ⟨_, hfree.chain, mem_cons_self ..⟩ rfl hserial.ge) (Nat.le_succ _)
      fun j hj => ⟨_, hfree.chain, mem_cons_of_mem _ ?_⟩, rfl, ?_⟩
    · simp [takeSlot, hh, hslot, hobj]
    · exact h.toStoreCore.onFree_put hfree' hj rfl rfl
    · exact getElem?_set_self (lt_of_getElem? hslot)

theorem collect_settles (env : Env) : ∃ s', collect s env = some s' ∧ Settles L s s' ∧
    s'.allocations = s.allocations := by
  obtain ⟨s', hs', hok, hcol⟩ := collect_spec h env
  exact ⟨s', hs', .of_evolves h hok hcol.evolves (by rw [hcol.frame]), by rw [hcol.frame]⟩

/-- `turbowasm_store_collect`. -/
theorem storeCollect_spec (env : Env) (thread : Nat) : ∃ res s',
    storeCollect s env thread = some (res, s') ∧ Settles L s s' := by
  unfold storeCollect
  split
  · exact ⟨_, s, rfl, .refl h⟩
  · obtain ⟨s', hs', hset, -⟩ := collect_settles h env
    exact ⟨_, s', by rw [hs']; rfl, hset⟩

/-- Making room: nothing, or a collection. -/
theorem makeRoom_spec (env : Env) (bytes : Nat) :
    ∃ s', makeRoom s env bytes = some s' ∧ Settles L s s' ∧ s'.allocations = s.allocations := by
  have hfull : ∃ b, s.full bytes = some b := by simp [full, h.bytesLeft]
  obtain ⟨b, hb⟩ := hfull
  cases b with
  | true =>
    obtain ⟨s', hs', hset⟩ := collect_settles h env
    exact ⟨s', by simp only [makeRoom, hb, hs'], hset⟩
  | false => exact ⟨s, by simp only [makeRoom, hb], .refl h, rfl⟩

end

/-- A value is the handle of an object that its slot holds. -/
def Issued (s : Store) (v : Value) (serial : Nat) : Prop :=
  ∃ i slot o, v = .gcref ⟨some s.id, gcHandle slot.generation i⟩ ∧ s.slots[i]? = some slot ∧
    slot.object = some o ∧ o.serial = serial

section

variable (h : StoreOk L s)

include h

/-- `turbowasm_gc_allocate`. -/
theorem gcAllocate_spec (env : Env) (thread : Nat) (type : Option TypePtr)
    (count : Nat) (allocated : Bool) : ∃ res s',
      gcAllocate L s env thread type count allocated = some (res, s') ∧ Settles L s s' ∧
      ∀ v, res = .ok v → Issued s' v s.allocations := by
  unfold gcAllocate
  dsimp only
  split
  · exact ⟨.error _, s, rfl, .refl h, fun _ hv => nomatch hv⟩
  split
  · exact ⟨.error _, s, rfl, .refl h, fun _ hv => nomatch hv⟩
  obtain ⟨s1, h1, hset1, hserial⟩ := makeRoom_spec h env (L.object + count * L.value)
  have hok1 := hset1.ok
  simp only [h1, Option.bind_eq_bind, Option.bind_some, full, hok1.bytesLeft, map_some]
  split
  · exact ⟨.error _, s1, rfl, hset1, fun _ hv => nomatch hv⟩
  rename_i hroom
  simp only [Bool.or_eq_true, beq_iff_eq, decide_eq_true_eq, not_or, Nat.not_lt] at hroom
  split
  · exact ⟨.error _, s1, rfl, hset1, fun _ hv => nomatch hv⟩
  obtain ⟨slot, s2, hslot, h2, hset2, hid, hnew⟩ := takeSlot_spec hok1 hroom.1 hroom.2 type count
  simp only [h2]
  refine ⟨_, s2, rfl, hset1.trans hset2, fun v hv => ?_⟩
  cases hv
  exact ⟨s1.freeHead, _, _, by rw [hid], hnew, rfl, hserial⟩

/-- `turbowasm_root_retain`. -/
theorem rootRetain_spec (thread : Nat) (value : Value) (id : Nat)
    (allocated : Bool) : ∃ res s', rootRetain L s thread value id allocated = some (res, s') ∧
      Settles L s s' := by
  have hrootsLe := h.rootsLe
  have hbytesLe := h.bytesLe
  have hsub : checkedSub s.config.maxRoots s.sourceCount =
      some (s.config.maxRoots - s.sourceCount) := checkedSub_of_le (by omega)
  unfold rootRetain
  split
  · exact ⟨_, s, rfl, .refl h⟩
  split
  · exact ⟨_, s, rfl, .refl h⟩
  simp only [hsub, h.bytesLeft, Option.bind_eq_bind, Option.bind_some]
  split
  · exact ⟨_, s, rfl, .refl h⟩
  split
  · exact ⟨_, s, rfl, .refl h⟩
  refine ⟨_, _, rfl, .of_evolves h ?_ (.of_same rfl rfl rfl rfl rfl) rfl⟩
  refine h.frame (e := 0) rfl rfl rfl rfl rfl ?_ ?_ ?_ h.sources ?_
  · simp only [length_cons, add_mul]
    omega
  · simp only
    omega
  · simp [h.roots]
  · simp only
    omega

/-- `turbowasm_root_release`. -/
theorem rootRelease_spec (thread id : Nat) : ∃ res s',
    rootRelease L s thread id = some (res, s') ∧ Settles L s s' := by
  unfold rootRelease
  split
  · exact ⟨_, s, rfl, .refl h⟩
  split
  · rename_i hany
    obtain ⟨r, hr, hid⟩ := any_eq_true.mp hany
    have hlen : (s.roots.eraseP fun r => r.id == id).length = s.roots.length - 1 :=
      length_eraseP_of_mem hr hid
    have hpos := length_pos_of_mem hr
    obtain ⟨fixed, hfixed⟩ := h.bytes
    have hrootsLe := h.rootsLe
    have hbytesLe := h.bytesLe
    have hroots := h.roots
    obtain ⟨n, hn⟩ : ∃ n, s.roots.length = n + 1 := ⟨s.roots.length - 1, by omega⟩
    have hone : L.root ≤ s.roots.length * L.root := Nat.le_mul_of_pos_left _ hpos
    simp only [checkedSub_of_le (show 1 ≤ s.stats.roots by omega),
      checkedSub_of_le (show L.root ≤ s.stats.bytes by omega)]
    refine ⟨_, _, rfl, .of_evolves h ?_ (.of_same rfl rfl rfl rfl rfl) rfl⟩
    refine h.frame (e := 0) rfl rfl rfl rfl rfl ?_ ?_ ?_ h.sources ?_
    · simp only [hlen, hn, add_mul, Nat.add_sub_cancel]
      omega
    · simp only
      omega
    · simp [hlen, hroots]
    · simp only
      omega
  · exact ⟨_, s, rfl, .refl h⟩

/-- `turbowasm_gc_source_add`. -/
theorem gcSourceAdd_spec (thread : Nat) (source : Source) : ∃ res s',
    gcSourceAdd L s thread source = some (res, s') ∧ Settles L s s' := by
  have hrootsLe := h.rootsLe
  have hbytesLe := h.bytesLe
  have hsub : checkedSub s.config.maxRoots s.stats.roots =
      some (s.config.maxRoots - s.stats.roots) := checkedSub_of_le (by omega)
  unfold gcSourceAdd
  split
  · exact ⟨_, s, rfl, .refl h⟩
  simp only [hsub, h.bytesLeft, Option.bind_eq_bind, Option.bind_some]
  split
  · exact ⟨_, s, rfl, .refl h⟩
  refine ⟨_, _, rfl, .of_evolves h ?_ (.of_same rfl rfl rfl rfl rfl) rfl⟩
  refine h.frame (e := 0) rfl rfl rfl rfl rfl ?_ ?_ h.roots ?_ ?_
  · simp only [length_cons, add_mul]
    omega
  · simp only
    omega
  · simp [h.sources]
  · simp only
    omega

theorem unlinkSource_spec {sources : List Source}
    (hlen : s.sources.length = sources.length + 1) : ∃ s', unlinkSource L s sources = some s' ∧
      s'.sources = sources ∧ Settles L s s' := by
  obtain ⟨fixed, hfixed⟩ := h.bytes
  have hrootsLe := h.rootsLe
  have hbytesLe := h.bytesLe
  have hsources := h.sources
  rw [hlen, add_mul] at hfixed
  simp only [unlinkSource, checkedSub_of_le (show 1 ≤ s.sourceCount by omega),
    checkedSub_of_le (show L.source ≤ s.stats.bytes by omega)]
  refine ⟨_, rfl, rfl, .of_evolves h ?_ (.of_same rfl rfl rfl rfl rfl) rfl⟩
  refine h.frame (e := 0) rfl rfl rfl rfl rfl ?_ ?_ h.roots ?_ ?_
  · simp only [hlen, add_mul]
    omega
  · simp only
    omega
  · simp only
    omega
  · simp only
    omega

/-- `turbowasm_gc_source_remove`. -/
theorem gcSourceRemove_spec (id : Nat) : ∃ s', gcSourceRemove L s id = some s' ∧
    Settles L s s' := by
  unfold gcSourceRemove
  split
  · rename_i hany
    obtain ⟨r, hr, hid⟩ := any_eq_true.mp hany
    have hlen : (s.sources.eraseP fun x => x.id == id).length = s.sources.length - 1 :=
      length_eraseP_of_mem hr hid
    have hpos := length_pos_of_mem hr
    obtain ⟨s', hs', -, hset⟩ := unlinkSource_spec h
      (show s.sources.length = (s.sources.eraseP fun x => x.id == id).length + 1 by omega)
    exact ⟨s', hs', hset⟩
  · exact ⟨s, rfl, .refl h⟩

end

theorem removeOwnerLoop_spec (owner : Nat) : ∀ (rest kept : List Source) (s : Store), StoreOk L s →
    s.sources = kept.reverse ++ rest → ∃ s', removeOwnerLoop L owner kept rest s = some s' ∧
      Settles L s s'
  | [], _, s, h, _ => ⟨s, rfl, .refl h⟩
  | x :: rest, kept, s, h, hsources => by
    unfold removeOwnerLoop
    split
    · -- unlinked: the list is shorter by `x`
      obtain ⟨s1, hs1, hsrc, hset1⟩ := unlinkSource_spec h
        (show s.sources.length = (kept.reverse ++ rest).length + 1 by simp [hsources]; omega)
      obtain ⟨s', hs', hset⟩ := removeOwnerLoop_spec owner rest kept s1 hset1.ok hsrc
      exact ⟨s', by simp only [hs1, hs'], hset1.trans hset⟩
    · exact removeOwnerLoop_spec owner rest (x :: kept) s h (by simp [hsources])

/-- `turbowasm_gc_sources_remove_owner`. -/
theorem gcSourcesRemoveOwner_spec (h : StoreOk L s) (owner : Nat) : ∃ s',
    gcSourcesRemoveOwner L s owner = some s' ∧ Settles L s s' :=
  removeOwnerLoop_spec owner s.sources [] s h rfl

/-- A store that differs from `s` in one object's values. -/
theorem writeValue_spec (h : StoreOk L s) {o : Object}
    (ho : s.objectAt index = some o) (hi : i < o.values.length) (value : Value) : ∃ s',
    writeValue s index i value = some s' ∧ Settles L s s' := by
  obtain ⟨slot, hslot, hobj⟩ : ∃ slot, s.slots[index]? = some slot ∧ slot.object = some o :=
    bind_eq_some_iff.mp ho
  generalize hobj' : ({ o with values := o.values.set i value } : Object) = o'
  have hserial : o'.serial = o.serial := by rw [← hobj']
  have hob : o'.bytes = o.bytes := by rw [← hobj']
  obtain ⟨free, hfree⟩ := h.free
  have hnot := hfree.not_mem hslot hobj
  have hfree' : FreeOk (s.slots.set index { slot with object := some o' }) s.freeHead free :=
    hfree.put hslot (hfree.chain.set hnot _) hfree.nodup (fun _ _ => .rfl)
      (fun hm => absurd hm hnot) (fun _ hnone => by cases hnone)
  have hcore := h.toStoreCore.put hslot hfree' s.stats.bytes s.stats.objects s.allocations
    (h.generation index slot hslot) (by simp [hobj]) (by simp [Slot.bytes, hobj, hob])
    h.bytesLe le_rfl fun x hx => by
      cases hx
      refine ⟨hserial ▸ h.serialLt index o ho, fun j y hj hy heq => hj ?_⟩
      exact h.serialInj j index y o hy ho (heq.trans hserial)
  refine ⟨{ s with slots := s.slots.set index { slot with object := some o' } }, ?_,
    h.settles_put hslot { slot with object := some o' } rfl rfl hcore rfl
      (.kept o o' rfl hobj rfl hserial) le_rfl fun j hj =>
        ⟨free, hfree.chain, h.toStoreCore.onFree_put hfree' hj rfl rfl⟩⟩
  simp [writeValue, hslot, hobj, if_neg (not_le.mpr hi), hobj']

end Ops

/-! ## 3. Handles -/

/-- Slot `i` is out of use: empty, at the last generation, and not on the free list. -/
def Store.Retired (s : Store) (i : Nat) : Prop :=
  ∃ slot, s.slots[i]? = some slot ∧ slot.object = none ∧ slot.generation = gcGenerationMax ∧
    ¬ s.OnFree i

/-- The object with serial `k` is in the store. -/
def Store.Holds (s : Store) (k : Nat) : Prop := ∃ i o, s.objectAt i = some o ∧ o.serial = k

/-- The slot that a handle names still has the object `k` the handle was given out for. -/
def HandleLive (s : Store) (generation i k : Nat) : Prop :=
  ∃ slot o, s.slots[i]? = some slot ∧ slot.generation = generation ∧ slot.object = some o ∧
    o.serial = k

/-- The object `k` is gone, and the slot has left the handle's generation for ever. -/
def HandleDead (s : Store) (generation i k : Nat) : Prop :=
  k < s.allocations ∧ ¬ s.Holds k ∧
    ∃ slot, s.slots[i]? = some slot ∧ (generation < slot.generation ∨ s.Retired i)

section Fate

variable {L : Layout} {s s' : Store}

theorem StoreOk.not_onFree (h : StoreOk L s) {slot : Slot}
    (hi : s.slots[i]? = some slot) (ho : slot.object = some o) : ¬ s.OnFree i := by
  rintro ⟨free, hchain, hmem⟩
  obtain ⟨free', hfree⟩ := h.free
  have hlen : s.slots.length ≤ uint32Max := by
    rw [h.length]
    exact h.small.le
  rw [hchain.unique hlen hfree.chain] at hmem
  exact hfree.not_mem hi ho hmem

section

variable (h : Moves L s s')

include h

/-- An object of the later store was there before at the same place, or it is new. -/
theorem Moves.object_back {o' : Object} (ho' : s'.objectAt i = some o') :
    (∃ o, s.objectAt i = some o ∧ o.serial = o'.serial) ∨ s.allocations ≤ o'.serial := by
  obtain ⟨slot', hslot', hobj'⟩ := bind_eq_some_iff.mp ho'
  have hlt : i < s.slots.length := by
    rw [h.1.length, ← h.2.1.config, ← h.2.2.length]
    exact lt_of_getElem? hslot'
  obtain ⟨slot'', hslot'', hfate⟩ := h.2.1.slot i _ (getElem?_eq_getElem hlt)
  rw [hslot'] at hslot''
  cases hslot''
  cases hfate with
  | idle _ _ hnone | freed _ _ hnone => simp [hnone] at hobj'
  | kept o x _ ho hx hserial =>
    rw [hobj'] at hx
    cases hx
    refine .inl ⟨o, ?_, hserial.symm⟩
    simp [objectAt, getElem?_eq_getElem hlt, ho]
  | taken x _ _ _ hx hserial =>
    rw [hobj'] at hx
    cases hx
    exact .inr hserial

/-- A retired slot stays retired. -/
theorem Moves.retired (hr : s.Retired i) : s'.Retired i := by
  obtain ⟨slot, hslot, hobj, hgen, hfree⟩ := hr
  obtain ⟨slot', hslot', hfate⟩ := h.2.1.slot i slot hslot
  have hfree' : ¬ s'.OnFree i := fun hon => by
    rcases h.2.1.free i hon with hon | ⟨x, hx, hsome, -⟩
    · exact hfree hon
    · rw [hslot] at hx
      cases hx
      simp [hobj] at hsome
  cases hfate with
  | idle hg _ hnone => exact ⟨slot', hslot', hnone, hg.trans hgen, hfree'⟩
  | kept _ _ _ ho | freed _ ho => simp [hobj] at ho
  | taken _ _ _ hon => exact absurd hon hfree

/-- An object that is gone does not come back. -/
theorem Moves.not_holds (hk : k < s.allocations) (hno : ¬ s.Holds k) : ¬ s'.Holds k := by
  rintro ⟨i, o', ho', rfl⟩
  rcases h.object_back ho' with ⟨o, ho, heq⟩ | hge
  · exact hno ⟨i, o, ho, heq⟩
  · omega

/-- A live handle stays live, or dies with its object. -/
theorem Moves.live (hl : HandleLive s generation i k) :
    HandleLive s' generation i k ∨ HandleDead s' generation i k := by
  obtain ⟨slot, o, hslot, hgen, hobj, rfl⟩ := hl
  have hat : s.objectAt i = some o := by simp [objectAt, hslot, hobj]
  obtain ⟨slot', hslot', hfate⟩ := h.2.1.slot i slot hslot
  cases hfate with
  | idle _ hnone | taken _ _ hnone => simp [hnone] at hobj
  | kept x o' hg hx ho' hserial =>
    rw [hobj] at hx
    cases hx
    exact .inl ⟨slot', o', hslot', hg.trans hgen, ho', hserial⟩
  | freed x hx hnone hlt hge =>
    have hk := h.1.serialLt i o hat
    refine .inr ⟨hk.trans_le h.2.1.allocations, ?_, slot', hslot', ?_⟩
    · -- another object with the serial would have had it before the move, in another slot
      rintro ⟨j, o', ho', heq⟩
      rcases h.object_back ho' with ⟨y, hy, hys⟩ | hnew
      · have hij := h.1.serialInj j i y o hy hat (hys.trans heq)
        subst hij
        simp [objectAt, hslot', hnone] at ho'
      · omega
    by_cases hmax : slot.generation < gcGenerationMax
    · left
      omega
    right
    have hle := (h.1.generation i slot hslot).2
    refine ⟨slot', hslot', hnone, by rw [hge hmax]; omega, fun hon => ?_⟩
    rcases h.2.1.free i hon with hon | ⟨y, hy, -, hylt⟩
    · exact h.1.not_onFree hslot hobj hon
    · rw [hslot] at hy
      cases hy
      exact hmax hylt

/-- A dead handle stays dead. -/
theorem Moves.dead (hd : HandleDead s generation i k) : HandleDead s' generation i k := by
  obtain ⟨hk, hno, slot, hslot, hgone⟩ := hd
  obtain ⟨slot', hslot', hfate⟩ := h.2.1.slot i slot hslot
  refine ⟨hk.trans_le h.2.1.allocations, h.not_holds hk hno, slot', hslot', ?_⟩
  rcases hgone with hgen | hret
  · left
    -- no fate lowers a generation
    cases hfate with
    | idle hg | kept _ _ hg | taken _ hg => omega
    | freed _ _ _ hlt hge =>
      by_cases hmax : slot.generation < gcGenerationMax
      · have := hlt hmax
        omega
      · have := hge hmax
        omega
  · exact .inr (h.retired hret)

end

theorem Path.retired (h : Path L s s') (hr : s.Retired i) : s'.Retired i := by
  induction h with
  | refl => exact hr
  | tail _ hm ih => exact hm.retired ih

theorem Path.dead (h : Path L s s') (hd : HandleDead s generation i k) :
    HandleDead s' generation i k := by
  induction h with
  | refl => exact hd
  | tail _ hm ih => exact hm.dead ih

theorem Path.live (h : Path L s s') (hl : HandleLive s generation i k) :
    HandleLive s' generation i k ∨ HandleDead s' generation i k := by
  induction h with
  | refl => exact .inl hl
  | tail _ hm ih =>
    rcases ih with ih | ih
    · exact hm.live ih
    · exact .inr (hm.dead ih)

theorem Path.id (h : Path L s s') : s'.id = s.id := by
  induction h with
  | refl => rfl
  | tail _ hm ih => rw [hm.2.1.id, ih]

theorem HandleLive.holds (h : HandleLive s generation i k) : s.Holds k := by
  obtain ⟨slot, o, hslot, -, ho, hk⟩ := h
  exact ⟨i, o, by simp [objectAt, hslot, ho], hk⟩

end Fate

/-! ## 4. What a handle resolves to -/

section Resolve

theorem gcHandle_index (hi : i < uint32Max) (store : Option Nat) :
    (GcRef.mk store (gcHandle generation i)).index = i + 1 := by
  simp only [GcRef.index, gcHandle, uint32Max] at hi ⊢
  omega

theorem gcHandle_generation (hi : i < uint32Max) (hg : generation ≤ gcGenerationMax)
    (store : Option Nat) : (GcRef.mk store (gcHandle generation i)).generation = generation := by
  simp only [GcRef.generation, gcHandle, uint32Max, gcGenerationMax] at hi hg ⊢
  omega

theorem gcHandle_not_i31 (hi : i < uint32Max) (hg : generation ≤ gcGenerationMax)
    (store : Option Nat) : (GcRef.mk store (gcHandle generation i)).isI31 = false := by
  have hlt : gcHandle generation i < 2 ^ 63 := by
    simp only [gcHandle, uint32Max, gcGenerationMax] at hi hg ⊢
    omega
  exact Nat.testBit_lt_two_pow hlt

/-- What a handle into slot `i` resolves to. -/
theorem resolve_gcHandle (h : StoreOk L s) {slot : Slot} (hi : s.slots[i]? = some slot)
    (hg : generation ≤ gcGenerationMax) :
    s.resolve ⟨some s.id, gcHandle generation i⟩ =
      if slot.generation = generation then slot.object else none := by
  have hlt : i < s.config.maxObjects := by
    rw [← h.length]
    exact lt_of_getElem? hi
  have hsmall : i < uint32Max := hlt.trans h.small
  have hle : ¬ s.config.maxObjects < i + 1 := by omega
  simp only [Store.resolve, gcHandle_index hsmall, gcHandle_generation hsmall hg,
    gcHandle_not_i31 hsmall hg, Nat.add_sub_cancel, hi]
  simp [hle]

theorem HandleLive.resolve (h : StoreOk L s) (hl : HandleLive s generation i k) :
    ∃ o, s.resolve ⟨some s.id, gcHandle generation i⟩ = some o ∧ o.serial = k := by
  obtain ⟨slot, o, hslot, hgen, ho, hk⟩ := hl
  have hle := (h.generation i slot hslot).2
  exact ⟨o, by rw [resolve_gcHandle h hslot (hgen ▸ hle), if_pos hgen, ho], hk⟩

theorem HandleDead.resolve (h : StoreOk L s) (hg : generation ≤ gcGenerationMax)
    (hd : HandleDead s generation i k) : s.resolve ⟨some s.id, gcHandle generation i⟩ = none := by
  obtain ⟨-, -, slot, hslot, hgone⟩ := hd
  rw [resolve_gcHandle h hslot hg]
  rcases hgone with hlt | ⟨x, hx, hnone, -⟩
  · rw [if_neg (by omega)]
  · rw [hslot] at hx
    cases hx
    rw [hnone]
    exact ite_self _

end Resolve

end TurboWasm
