/-
# The store invariant and the sweep

`StoreCore` is what holds of a store between any two rounds of any of its loops: the free list is a
path without repetitions through empty slots, an empty slot outside it is retired, and the counters
are what they count.  `StoreOk` adds that no mark bit is set, which holds between operations.

The sweep visits every slot once.  `sweepSlot_spec` says what one round does, `sweep_spec` what all
of them do, and `collect_spec` puts the two phases together.
-/
import TurboWasm.Lib.Lists
import TurboWasm.Store.Mark

namespace TurboWasm

open TurboWasm.Lib List Option

/-! ## 1. The invariant -/

variable {slots : List Slot} {head : Nat} {free : List Nat} {s s' : Store} {L : Layout}

/-- `slots` threads the indices `free` from `head` on to the end mark. -/
inductive FreeChain (slots : List Slot) : Nat → List Nat → Prop where
  | nil : FreeChain slots uint32Max []
  | cons {i : Nat} {slot : Slot} {rest : List Nat} : slots[i]? = some slot →
      FreeChain slots slot.nextFree rest → FreeChain slots i (i :: rest)

/-- The free list: a path through empty slots.  Empty slots outside it are retired. -/
structure FreeOk (slots : List Slot) (head : Nat) (free : List Nat) : Prop where
  chain : FreeChain slots head free
  nodup : free.Nodup
  empty : ∀ i ∈ free, ∃ slot, slots[i]? = some slot ∧ slot.object = none
  retired : ∀ (i : Nat) (slot : Slot), slots[i]? = some slot → slot.object = none → i ∉ free →
    slot.generation = gcGenerationMax

/-- The bytes a slot's object was charged with. -/
def Slot.bytes (slot : Slot) : Nat := (slot.object.map Object.bytes).getD 0

def Store.objectBytes (s : Store) : Nat := (s.slots.map Slot.bytes).sum

def Store.objectCount (s : Store) : Nat := s.slots.countP fun x => x.object.isSome

/-- What holds of a store at every point. -/
structure StoreCore (L : Layout) (s : Store) : Prop where
  length : s.slots.length = s.config.maxObjects
  small : s.config.maxObjects < uint32Max
  generation : ∀ (i : Nat) (slot : Slot), s.slots[i]? = some slot →
    1 ≤ slot.generation ∧ slot.generation ≤ gcGenerationMax
  free : ∃ free, FreeOk s.slots s.freeHead free
  objects : s.stats.objects = s.objectCount
  bytes : ∃ fixed, s.stats.bytes =
    fixed + s.objectBytes + s.roots.length * L.root + s.sources.length * L.source
  bytesLe : s.stats.bytes ≤ s.config.maxBytes
  roots : s.stats.roots = s.roots.length
  sources : s.sourceCount = s.sources.length
  rootsLe : s.stats.roots + s.sourceCount ≤ s.config.maxRoots
  serialLt : ∀ (i : Nat) (o : Object), s.objectAt i = some o → o.serial < s.allocations
  serialInj : ∀ (i j : Nat) (o o' : Object), s.objectAt i = some o → s.objectAt j = some o' →
    o.serial = o'.serial → i = j

/-- What holds of a store between operations. -/
structure StoreOk (L : Layout) (s : Store) : Prop extends StoreCore L s where
  clear : ∀ i, ¬ s.Marked i

/-- Slot `i` is on the free list. -/
def Store.OnFree (s : Store) (i : Nat) : Prop :=
  ∃ free, FreeChain s.slots s.freeHead free ∧ i ∈ free

/-- The free list is determined by the slots: the end mark is no slot. -/
theorem FreeChain.unique (hlen : slots.length ≤ uint32Max) (h : FreeChain slots head free)
    (h' : FreeChain slots head free') : free = free' := by
  induction h generalizing free' with
  | nil =>
    cases h' with
    | nil => rfl
    | cons hi _ =>
      have := lt_of_getElem? hi
      omega
  | cons hi _ ih =>
    cases h' with
    | nil =>
      have := lt_of_getElem? hi
      omega
    | cons hi' hrest =>
      rw [hi] at hi'
      cases hi'
      rw [ih hrest]

theorem FreeChain.head_mem (h : FreeChain slots head free) : head = uint32Max ∨ head ∈ free := by
  cases h with
  | nil => exact .inl rfl
  | cons => exact .inr (mem_cons_self ..)

/-! ## 2. Changing one slot -/

/-- A path only depends on the links of the slots it visits. -/
theorem FreeChain.congr {slots' : List Slot}
    (h : FreeChain slots head free) (hs : ∀ i ∈ free, ∀ slot, slots[i]? = some slot →
      ∃ slot', slots'[i]? = some slot' ∧ slot'.nextFree = slot.nextFree) :
    FreeChain slots' head free := by
  induction h with
  | nil => exact .nil
  | @cons i slot rest hi _ ih =>
    obtain ⟨slot', hslot', hnext⟩ := hs i (by simp) slot hi
    refine .cons hslot' ?_
    rw [hnext]
    exact ih fun j hj => hs j (by simp [hj])

section Put

variable {i : Nat} {slot slot' : Slot}

/-- A path does not see a slot outside it. -/
theorem FreeChain.set (h : FreeChain slots head free) (hi : i ∉ free) (slot' : Slot) :
    FreeChain (slots.set i slot') head free := by
  refine h.congr fun j hj x hx => ⟨x, ?_, rfl⟩
  rw [getElem?_set_ne (ne_of_mem_of_not_mem hj hi).symm, hx]

/-- An occupied slot is not on the free list. -/
theorem FreeOk.not_mem (h : FreeOk slots head free) (hi : slots[i]? = some slot)
    (ho : slot.object = some o) : i ∉ free := by
  intro hmem
  obtain ⟨x, hx, hxo⟩ := h.empty i hmem
  rw [hi] at hx
  cases hx
  rw [ho] at hxo
  cases hxo

/-- The free list after slot `i` was replaced: only `i` has joined or left it. -/
theorem FreeOk.put (h : FreeOk slots head free) (hi : slots[i]? = some slot)
    (hchain : FreeChain (slots.set i slot') head' free') (hnd : free'.Nodup)
    (hsame : ∀ j, j ≠ i → (j ∈ free' ↔ j ∈ free)) (hin : i ∈ free' → slot'.object = none)
    (hout : i ∉ free' → slot'.object = none → slot'.generation = gcGenerationMax) :
    FreeOk (slots.set i slot') head' free' := by
  have hget := getElem?_set_of hi slot'
  refine ⟨hchain, hnd, fun j hj => ?_, fun j x hx hxo hj => ?_⟩
  · by_cases hji : j = i
    · subst hji
      exact ⟨slot', by rw [hget, if_pos rfl], hin hj⟩
    · obtain ⟨x, hx, hxo⟩ := h.empty j ((hsame j hji).mp hj)
      exact ⟨x, by rw [hget, if_neg hji, hx], hxo⟩
  rw [hget] at hx
  split at hx
  · subst_vars
    cases hx
    exact hout hj hxo
  · rename_i hji
    exact h.retired j x hx hxo fun hm => hj ((hsame j hji).mpr hm)

/-- The free list after a slot was replaced is the one that the slots say. -/
theorem StoreCore.onFree_put (h : StoreCore L s)
    (hfree : FreeOk (s.slots.set i slot') head free') {s' : Store} (hj : s'.OnFree j)
    (hslots : s'.slots = s.slots.set i slot') (hhead : s'.freeHead = head) : j ∈ free' := by
  obtain ⟨l, hl, hj⟩ := hj
  rw [hslots, hhead] at hl
  have hlen : (s.slots.set i slot').length ≤ uint32Max := by
    rw [length_set, h.length]
    exact h.small.le
  rwa [hl.unique hlen hfree.chain] at hj

/-- **Replacing one slot** keeps the invariant when the free list and the counters follow, and the
serial of an object put in place is no other object's. -/
theorem StoreCore.put (h : StoreCore L s) (hi : s.slots[i]? = some slot)
    (hfree : FreeOk (s.slots.set i slot') head free') (bytes objects allocations : Nat)
    (hgen : 1 ≤ slot'.generation ∧ slot'.generation ≤ gcGenerationMax)
    (hobjects : objects + (if slot.object.isSome then 1 else 0) =
      s.stats.objects + if slot'.object.isSome then 1 else 0)
    (hbytes : bytes + slot.bytes = s.stats.bytes + slot'.bytes) (hle : bytes ≤ s.config.maxBytes)
    (halloc : s.allocations ≤ allocations)
    (hserial : ∀ o', slot'.object = some o' → o'.serial < allocations ∧
      ∀ j o, j ≠ i → s.objectAt j = some o → o.serial ≠ o'.serial) :
    StoreCore L { s with
      slots := s.slots.set i slot', freeHead := head, allocations,
      stats := { s.stats with bytes, objects } } := by
  have hget := getElem?_set_of hi slot'
  have hsum := sum_map_set Slot.bytes (b := slot') hi
  have hcnt := countP_set_of (fun x : Slot => x.object.isSome) (b := slot') hi
  -- an object is the one put in place, or was there before
  have hat : ∀ {s₁ : Store} {j : Nat} {x : Object}, s₁.slots = s.slots.set i slot' →
      s₁.objectAt j = some x →
        (j = i ∧ slot'.object = some x) ∨ (j ≠ i ∧ s.objectAt j = some x) := by
    intro s₁ j x hs hx
    simp only [Store.objectAt, hs, hget] at hx ⊢
    by_cases hj : j = i
    · exact .inl ⟨hj, by simpa [hj] using hx⟩
    · exact .inr ⟨hj, by simpa [hj] using hx⟩
  refine ⟨by simpa using h.length, h.small, fun j x hx => ?_, ⟨free', hfree⟩, ?_, ?_, hle, h.roots,
    h.sources, h.rootsLe, fun j x hx => ?_, fun j k x y hx hy hxy => ?_⟩
  · simp only [hget] at hx
    split at hx
    · cases hx
      exact hgen
    · exact h.generation j x hx
  · have := h.objects
    simp only [Store.objectCount] at this ⊢
    omega
  · obtain ⟨fixed, hfixed⟩ := h.bytes
    refine ⟨fixed, ?_⟩
    simp only [Store.objectBytes] at hfixed ⊢
    omega
  · rcases hat rfl hx with ⟨-, hx⟩ | ⟨-, hx⟩
    · exact (hserial x hx).1
    · exact (h.serialLt j x hx).trans_le halloc
  · rcases hat rfl hx with ⟨hj, hx⟩ | ⟨hj, hx⟩ <;> rcases hat rfl hy with ⟨hk, hy⟩ | ⟨hk, hy⟩
    · rw [hj, hk]
    · exact absurd hxy.symm ((hserial x hx).2 k y hk hy)
    · exact absurd hxy ((hserial y hy).2 j x hj hx)
    · exact h.serialInj j k x y hx hy hxy

end Put

theorem MarkOnly.symm (h : MarkOnly s s') : MarkOnly s' s :=
  ⟨by rw [h.eq], h.slots.symm⟩

theorem MarkOnly.onFree (h : MarkOnly s s') (i : Nat) : s'.OnFree i ↔ s.OnFree i := by
  have half : ∀ {s s' : Store}, MarkOnly s s' → s.OnFree i → s'.OnFree i := by
    rintro s s' h ⟨free, hchain, hi⟩
    refine ⟨free, ?_, hi⟩
    have hhead : s'.freeHead = s.freeHead := by rw [h.eq]
    rw [hhead]
    refine hchain.congr fun j _ slot hslot => ?_
    obtain ⟨b, hb⟩ := h.get hslot
    exact ⟨_, hb, rfl⟩
  exact ⟨half h.symm, half h⟩

/-- Setting mark bits changes nothing that the invariant speaks of. -/
theorem StoreCore.markOnly (h : StoreCore L s) (hm : MarkOnly s s') : StoreCore L s' := by
  have hback : ∀ {i : Nat} {slot' : Slot}, s'.slots[i]? = some slot' →
      ∃ slot b, s.slots[i]? = some slot ∧ slot' = { slot with marked := b } := by
    intro i slot' hi
    cases hs : s.slots[i]? with
    | none => rw [hm.get_none hs] at hi; cases hi
    | some slot =>
      obtain ⟨b, hb⟩ := hm.get hs
      rw [hb] at hi
      exact ⟨slot, b, rfl, (some.inj hi).symm⟩
  have hmap : ∀ {β : Type} (f : Slot → β), (∀ x : Slot, f { x with marked := false } = f x) →
      s'.slots.map f = s.slots.map f := by
    intro β f hf
    have := congrArg (List.map f) hm.slots
    simpa only [List.map_map, Function.comp_def, hf] using this
  have hcount : s'.objectCount = s.objectCount := by
    have hc := congrArg (List.countP id) (hmap (fun x => x.object.isSome) fun _ => rfl)
    rwa [countP_map, countP_map] at hc
  have hbytes : s'.objectBytes = s.objectBytes := by
    simp only [Store.objectBytes]
    rw [hmap Slot.bytes fun _ => rfl]
  have hrest : s'.config = s.config ∧ s'.stats = s.stats ∧ s'.freeHead = s.freeHead ∧
      s'.roots = s.roots ∧ s'.sources = s.sources ∧ s'.sourceCount = s.sourceCount ∧
      s'.allocations = s.allocations := by
    rw [hm.eq]
    exact ⟨rfl, rfl, rfl, rfl, rfl, rfl, rfl⟩
  obtain ⟨hcfg, hstats, hhead, hroots, hsources, hsc, halloc⟩ := hrest
  refine ⟨by rw [hm.length, hcfg, h.length], by rw [hcfg]; exact h.small, ?_, ?_, ?_, ?_, ?_, ?_,
    ?_, ?_, ?_, ?_⟩
  · intro i slot' hi
    obtain ⟨slot, b, hslot, rfl⟩ := hback hi
    exact h.generation i slot hslot
  · obtain ⟨free, hfree⟩ := h.free
    refine ⟨free, ?_, hfree.nodup, fun i hi => ?_, fun i slot' hi hobj hnot => ?_⟩
    · rw [hhead]
      refine hfree.chain.congr fun i _ slot hslot => ?_
      obtain ⟨b, hb⟩ := hm.get hslot
      exact ⟨_, hb, rfl⟩
    · obtain ⟨slot, hslot, hobj⟩ := hfree.empty i hi
      obtain ⟨b, hb⟩ := hm.get hslot
      exact ⟨_, hb, hobj⟩
    · obtain ⟨slot, b, hslot, rfl⟩ := hback hi
      exact hfree.retired i slot hslot hobj hnot
  · rw [hstats, hcount, h.objects]
  · obtain ⟨fixed, hfixed⟩ := h.bytes
    exact ⟨fixed, by rw [hstats, hbytes, hroots, hsources, hfixed]⟩
  · rw [hstats, hcfg]
    exact h.bytesLe
  · rw [hstats, hroots, h.roots]
  · rw [hsc, hsources, h.sources]
  · rw [hstats, hsc, hcfg]
    exact h.rootsLe
  · intro i o ho
    rw [hm.objectAt] at ho
    rw [halloc]
    exact h.serialLt i o ho
  · intro i j o o' ho ho'
    rw [hm.objectAt] at ho ho'
    exact h.serialInj i j o o' ho ho'

/-! ## 3. One round of the sweep -/

/-- What the sweep makes of a slot: marks are cleared, an unmarked object is freed and the slot's
generation moves on until it is used up. -/
structure SweptSlot (slot slot' : Slot) : Prop where
  kept : slot.marked ∨ slot.object = none → slot' = { slot with marked := false }
  freed : slot.marked = false → slot.object.isSome → slot'.object = none ∧ slot'.marked = false ∧
    (slot.generation < gcGenerationMax → slot'.generation = slot.generation + 1) ∧
    (¬ slot.generation < gcGenerationMax → slot'.generation = slot.generation)

/-- What the sweep may change of a store apart from the slots. -/
def SweepFrame (s s' : Store) : Prop :=
  s' = { s with slots := s'.slots, freeHead := s'.freeHead, stats :=
    { s.stats with bytes := s'.stats.bytes, objects := s'.stats.objects } }

theorem SweepFrame.refl (s : Store) : SweepFrame s s := rfl

theorem SweepFrame.trans {s'' : Store} (h : SweepFrame s s') (h' : SweepFrame s' s'') :
    SweepFrame s s'' := by
  unfold SweepFrame at h h' ⊢
  rw [h', h]

/-- Putting an empty slot that was occupied in place keeps the invariant, when the slot joins the
free list or is retired. -/
theorem StoreCore.free_slot (h : StoreCore L s)
    {slot slot' : Slot} {o : Object} (hi : s.slots[i]? = some slot) (ho : slot.object = some o)
    (ho' : slot'.object = none) (hgen : 1 ≤ slot'.generation ∧ slot'.generation ≤ gcGenerationMax)
    (hhead : (head = i ∧ slot'.nextFree = s.freeHead) ∨
      (head = s.freeHead ∧ slot'.generation = gcGenerationMax)) :
    o.bytes ≤ s.stats.bytes ∧ 1 ≤ s.stats.objects ∧ StoreCore L { s with
      slots := s.slots.set i slot', freeHead := head, stats :=
        { s.stats with bytes := s.stats.bytes - o.bytes, objects := s.stats.objects - 1 } } ∧
    ∀ j, Store.OnFree { s with slots := s.slots.set i slot', freeHead := head } j →
      s.OnFree j ∨ (j = i ∧ s.freeHead ≠ head) := by
  obtain ⟨free, hfree⟩ := h.free
  have hnot := hfree.not_mem hi ho
  have hchain := hfree.chain.set hnot slot'
  -- the counters hold what the slot's object was charged with
  have hsum := sum_map_set Slot.bytes (b := slot') hi
  have hcnt := countP_set_of (fun x : Slot => x.object.isSome) (b := slot') hi
  have hobjects := h.objects
  obtain ⟨fixed, hfixed⟩ := h.bytes
  have hbytesLe := h.bytesLe
  simp only [Slot.bytes, ho, ho', map_some, getD_some, map_none, getD_none, isSome_some,
    isSome_none, ↓reduceIte, Bool.false_eq_true] at hsum hcnt
  simp only [Store.objectBytes, Store.objectCount] at hfixed hobjects
  obtain ⟨free', hfree', hfrom⟩ : ∃ free', FreeOk (s.slots.set i slot') head free' ∧
      ∀ j ∈ free', j ∈ free ∨ (j = i ∧ s.freeHead ≠ head) := by
    rcases hhead with ⟨rfl, hnext⟩ | ⟨rfl, hmax⟩
    · have hlt := lt_of_getElem? hi
      have hlen := h.length
      have hsmall := h.small
      have hself : (s.slots.set head slot')[head]? = some slot' := getElem?_set_self hlt
      have hhead : s.freeHead ≠ head := by
        intro hh
        rcases hfree.chain.head_mem with heq | hmem
        · omega
        · exact hnot (hh ▸ hmem)
      refine ⟨head :: free, hfree.put hi (.cons hself (by rwa [hnext]))
        (nodup_cons.mpr ⟨hnot, hfree.nodup⟩) (fun j hj => by simp [hj]) (fun _ => ho')
        (fun hn => absurd (mem_cons_self ..) hn), fun j hj => ?_⟩
      exact (mem_cons.mp hj).symm.imp_right fun hj => ⟨hj, hhead⟩
    · exact ⟨free, hfree.put hi hchain hfree.nodup (fun _ _ => .rfl) (fun hm => absurd hm hnot)
        (fun _ _ => hmax), fun j hj => .inl hj⟩
  refine ⟨by omega, by omega, ?_, fun j hj => ?_⟩
  · refine h.put hi hfree' _ _ _ hgen ?_ ?_ (by omega) le_rfl fun o' hsome => ?_
    · simp only [ho, ho', isSome_some, isSome_none, ↓reduceIte, Bool.false_eq_true]
      omega
    · simp only [Slot.bytes, ho, ho', map_some, getD_some, map_none, getD_none]
      omega
    · rw [ho'] at hsome
      cases hsome
  · exact (hfrom j (h.onFree_put hfree' hj rfl rfl)).imp_left fun hj => ⟨free, hfree.chain, hj⟩

/-- **One round of the sweep** never underflows a counter, and keeps the invariant. -/
theorem sweepSlot_spec (h : StoreCore L s) {slot : Slot}
    (hi : s.slots[i]? = some slot) : ∃ s' slot', sweepSlot s i = some s' ∧ StoreCore L s' ∧
      SweepFrame s s' ∧ s'.slots = s.slots.set i slot' ∧ SweptSlot slot slot' ∧
      ∀ j, s'.OnFree j → s.OnFree j ∨
        (j = i ∧ slot.object.isSome ∧ slot.generation < gcGenerationMax) := by
  have honly : MarkOnly s { s with slots := s.slots.set i { slot with marked := false } } := by
    refine ⟨rfl, ?_⟩
    apply ext_getElem?
    intro j
    simp only [getElem?_map, getElem?_set_of hi]
    split
    · subst_vars
      simp [hi]
    · rfl
  have hclear := h.markOnly honly
  have hsame := fun j => (honly.onFree j).mp
  have hkeep : slot.marked ∨ slot.object = none →
      SweptSlot slot { slot with marked := false } := by
    intro hor
    refine ⟨fun _ => rfl, fun hm hsome => ?_⟩
    rcases hor with hm' | ho
    · rw [hm] at hm'
      cases hm'
    · rw [ho] at hsome
      cases hsome
  have hrange := h.generation i slot hi
  unfold sweepSlot
  rw [hi]
  rcases slot with ⟨_ | o, generation, nextFree, marked⟩
  · exact ⟨_, _, rfl, hclear, rfl, rfl, hkeep (.inr rfl), fun j hj => .inl (hsame j hj)⟩
  simp only
  split
  · rename_i hm
    exact ⟨_, _, rfl, hclear, rfl, rfl, hkeep (.inl hm), fun j hj => .inl (hsame j hj)⟩
  rename_i hm
  have hm' : marked = false := by simpa using hm
  by_cases hgen : generation < gcGenerationMax
  · -- the slot joins the free list with its next generation
    obtain ⟨hb, hn, hcore, hon⟩ := h.free_slot hi rfl
      (show (Slot.mk none (generation + 1) s.freeHead false).object = none from rfl)
      ⟨by simp, hgen⟩ (.inl ⟨rfl, rfl⟩)
    refine ⟨_, _, ?_, hcore, rfl, rfl, ?_, fun j hj => ?_⟩
    · simp [freeSlot, checkedSub, hb, hn, hgen]
    · exact ⟨fun hor => by simp [hm'] at hor,
        fun _ _ => ⟨rfl, rfl, fun _ => rfl, absurd hgen⟩⟩
    · exact (hon j hj).imp id fun hj => ⟨hj.1, rfl, hgen⟩
  -- the slot is retired
  obtain ⟨hb, hn, hcore, hon⟩ := h.free_slot hi rfl
    (show (Slot.mk none generation nextFree false).object = none from rfl) hrange
    (.inr ⟨rfl, show generation = gcGenerationMax by simp only at hrange; omega⟩)
  refine ⟨_, _, ?_, hcore, rfl, rfl, ?_, fun j hj => .inl ?_⟩
  · simp [freeSlot, checkedSub, hb, hn, hgen]
  · exact ⟨fun hor => by simp [hm'] at hor,
      fun _ _ => ⟨rfl, rfl, fun hn => absurd hn hgen, fun _ => rfl⟩⟩
  · obtain hj | ⟨rfl, hhead⟩ := hon j hj
    · exact hj
    · exact absurd rfl hhead

/-! ## 4. The whole sweep, and a collection -/

/-- **The sweep** visits every slot from `i` on and leaves the ones before alone. -/
theorem sweep_spec : ∀ (left i : Nat) {s : Store}, StoreCore L s →
    i + left = s.slots.length → ∃ s', sweep left i s = some s' ∧ StoreCore L s' ∧
      SweepFrame s s' ∧ (∀ j < i, s'.slots[j]? = s.slots[j]?) ∧
      (∀ (j : Nat) (slot : Slot), i ≤ j → s.slots[j]? = some slot →
        ∃ slot', s'.slots[j]? = some slot' ∧ SweptSlot slot slot') ∧
      ∀ j, s'.OnFree j → s.OnFree j ∨ ∃ slot, s.slots[j]? = some slot ∧ slot.object.isSome ∧
        slot.generation < gcGenerationMax
  | 0, i, s, h, hlen => by
    refine ⟨s, rfl, h, .refl s, fun _ _ => rfl, fun j slot hj hslot => ?_, fun j hj => .inl hj⟩
    have := lt_of_getElem? hslot
    omega
  | left + 1, i, s, h, hlen => by
    have hi : s.slots[i]? = some s.slots[i] := getElem?_eq_getElem (by omega)
    obtain ⟨s1, slot1, h1, hcore1, hframe1, hslots1, hswept, hfree1⟩ := sweepSlot_spec h hi
    have hget := getElem?_set_of hi slot1
    obtain ⟨s2, h2, hcore2, hframe2, hbefore, hafter, hfree2⟩ := sweep_spec left (i + 1) hcore1
      (by rw [hslots1, length_set]; omega)
    refine ⟨s2, by simp only [sweep, h1, h2], hcore2, hframe1.trans hframe2, fun j hj => ?_,
      fun j slot hj hslot => ?_, fun j hj => ?_⟩
    · rw [hbefore j (by omega), hslots1, hget, if_neg (by omega)]
    · by_cases hji : j = i
      · subst hji
        rw [hi] at hslot
        cases hslot
        exact ⟨slot1, by rw [hbefore j (by omega), hslots1, hget, if_pos rfl], hswept⟩
      · exact hafter j slot (by omega) (by rw [hslots1, hget, if_neg hji, hslot])
    rcases hfree2 j hj with hj | ⟨slot, hslot, hsome, hgen⟩
    · rcases hfree1 j hj with hj | ⟨rfl, hsome, hgen⟩
      · exact .inl hj
      · exact .inr ⟨_, hi, hsome, hgen⟩
    rw [hslots1, hget] at hslot
    split at hslot
    · -- the slot of this round still has its object, so it was kept
      subst_vars
      cases hslot
      refine .inr ⟨_, hi, ?_⟩
      have hkept := hswept.kept (by
        by_contra hno
        simp only [not_or, Bool.not_eq_true] at hno
        have := (hswept.freed hno.1 (isSome_iff_ne_none.mpr hno.2)).1
        rw [this] at hsome
        cases hsome)
      rw [hkept] at hsome hgen
      exact ⟨hsome, hgen⟩
    · exact .inr ⟨slot, hslot, hsome, hgen⟩

/-- What a collection makes of a store. -/
structure Collected (s s' : Store) (env : Env) : Prop where
  frame : s' = { s with slots := s'.slots, freeHead := s'.freeHead, stats := s'.stats }
  roots : s'.stats.roots = s.stats.roots
  slot : ∀ (i : Nat) (slot : Slot), s.slots[i]? = some slot → ∃ slot', s'.slots[i]? = some slot' ∧
    (s.Reachable env i ∨ slot.object = none → slot' = slot) ∧
    (¬ s.Reachable env i → slot.object.isSome → slot'.object = none ∧
      (slot.generation < gcGenerationMax → slot'.generation = slot.generation + 1) ∧
      (¬ slot.generation < gcGenerationMax → slot'.generation = slot.generation))
  free : ∀ i, s'.OnFree i → s.OnFree i ∨ ∃ slot, s.slots[i]? = some slot ∧ slot.object.isSome ∧
    slot.generation < gcGenerationMax

/-- **A collection never fails, keeps the invariant and is exact.** -/
theorem collect_spec (h : StoreOk L s) (env : Env) :
    ∃ s', collect s env = some s' ∧ StoreOk L s' ∧ Collected s s' env := by
  obtain ⟨s1, work, s2, h1, h2, honly, hreach⟩ := mark_spec env h.length h.clear
  have hcore2 := h.toStoreCore.markOnly honly
  obtain ⟨s3, h3, hcore3, hframe, -, hswept, hfree⟩ := sweep_spec s2.config.maxObjects 0 hcore2
    (by rw [zero_add, hcore2.length])
  -- the fate of one slot across both phases
  have hslot : ∀ i slot, s.slots[i]? = some slot → ∃ slot',
      s3.slots[i]? = some slot' ∧ slot'.marked = false ∧
      (s.Reachable env i ∨ slot.object = none → slot' = slot) ∧
      (¬ s.Reachable env i → slot.object.isSome → slot'.object = none ∧
        (slot.generation < gcGenerationMax → slot'.generation = slot.generation + 1) ∧
        (¬ slot.generation < gcGenerationMax → slot'.generation = slot.generation)) := by
    intro i slot hi
    obtain ⟨b, hb⟩ := honly.get hi
    obtain ⟨slot', hslot', hsw⟩ := hswept i _ i.zero_le hb
    have hclear : slot.marked = false := by
      have := h.clear i
      simp only [Store.Marked, hi] at this
      simpa using this
    have hmark : b ↔ s.Reachable env i := by
      rw [← hreach i]
      simp [Store.Marked, hb]
    have hsame : { slot with marked := false } = slot := by rw [← hclear]
    refine ⟨slot', hslot', ?_, fun hor => ?_, fun hno hsome => ?_⟩
    · cases hb' : b with
      | true => rw [hsw.kept (.inl hb')]
      | false =>
        cases ho : slot.object with
        | none => rw [hsw.kept (.inr ho)]
        | some o => exact (hsw.freed hb' (by simp [ho])).2.1
    · rwa [hsw.kept (hor.imp hmark.mpr id)]
    · have hb' : b = false := by
        cases hbb : b with
        | false => rfl
        | true => exact absurd (hmark.mp hbb) hno
      obtain ⟨hobj, -, hgen⟩ := hsw.freed hb' hsome
      exact ⟨hobj, hgen⟩
  have hlen3 : s3.slots.length = s.slots.length := by
    rw [hcore3.length, ← honly.length, hcore2.length, hframe]
  refine ⟨{ s3 with stats := { s3.stats with collections := s3.stats.collections + 1 } },
    ?_, ⟨?_, ?_⟩, ⟨?_, ?_, ?_, ?_⟩⟩
  · simp only [collect, bind_eq_bind, h1, bind_some, h2, h3]
    rfl
  · -- the collection counter is not part of the invariant
    exact ⟨hcore3.length, hcore3.small, hcore3.generation, hcore3.free, hcore3.objects,
      hcore3.bytes, hcore3.bytesLe, hcore3.roots, hcore3.sources, hcore3.rootsLe,
      hcore3.serialLt, hcore3.serialInj⟩
  · rintro i ⟨slot', hslot', hm⟩
    have hi : i < s.slots.length := by
      rw [← hlen3]
      exact lt_of_getElem? hslot'
    obtain ⟨slot'', hslot'', hclear, -⟩ := hslot i _ (getElem?_eq_getElem hi)
    have heq : slot' = slot'' := some.inj (hslot'.symm.trans hslot'')
    rw [heq, hclear] at hm
    cases hm
  · rw [hframe, honly.eq]
  · show s3.stats.roots = s.stats.roots
    rw [hframe, honly.eq]
  · intro i slot hi
    obtain ⟨slot', hslot', -, hrest⟩ := hslot i slot hi
    exact ⟨slot', hslot', hrest⟩
  · intro i hi
    rcases hfree i hi with hi | ⟨slot, hslot, hsome, hgen⟩
    · exact .inl ((honly.onFree i).mp hi)
    · obtain ⟨b, hb⟩ := honly.symm.get hslot
      exact .inr ⟨_, hb, hsome, hgen⟩

end TurboWasm
