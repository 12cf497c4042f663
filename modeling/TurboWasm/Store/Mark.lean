/-
# The mark phase

The collector marks from the roots with a worklist of `max_objects` entries.  Nodes are slot
indices: a value leads to the slot its handle resolves to (`Store.target`), and an object to the
slots its values lead to (`Store.Edge`).  The marker's invariant is that of `Lib/Marking.lean`.

Two counting facts make the phase total.  A slot is pushed only when it turns from unmarked to
marked, so the worklist has no duplicates and never outgrows the slot array; and the number of
unmarked slots plus the length of the worklist drops with every pop, so `max_objects` pops are
enough.
-/
import Mathlib.Data.List.Perm.Subperm
import TurboWasm.Lib.Marking
import TurboWasm.Store.Model

namespace TurboWasm

open TurboWasm.Lib List Option Store

/-! ## 1. The object graph -/

variable {s : Store} {i : Nat}

/-- The object in slot `i`. -/
def Store.objectAt (s : Store) (i : Nat) : Option Object := s.slots[i]?.bind Slot.object

/-- The slot that a value leads to. -/
def Store.target (s : Store) (v : Value) : Option Nat :=
  v.managed.bind fun ref => (s.resolve ref).map fun _ => ref.index - 1

/-- The object in slot `i` has a value that leads to slot `j`. -/
def Store.Edge (s : Store) (i j : Nat) : Prop :=
  ∃ o, s.objectAt i = some o ∧ j ∈ o.values.filterMap s.target

/-- A retained root, a frame of a source or an attached instance leads to slot `i`. -/
def Store.Rooted (s : Store) (env : Env) (i : Nat) : Prop :=
  i ∈ (s.rootValues env).filterMap s.target

/-- Reachable from the roots through fields and elements of any depth. -/
def Store.Reachable (s : Store) (env : Env) : Nat → Prop := Reach (s.Rooted env) s.Edge

/-- The mark bit of slot `i` is set. -/
def Store.Marked (s : Store) (i : Nat) : Prop :=
  ∃ slot, s.slots[i]? = some slot ∧ slot.marked

theorem Store.resolve_slot {ref : GcRef} (h : s.resolve ref = some o) :
    ∃ slot, s.slots[ref.index - 1]? = some slot ∧ slot.generation = ref.generation ∧
      slot.object = some o := by
  unfold resolve at h
  split at h
  · cases h
  split at h
  · cases h
  · rename_i slot hslot
    split at h
    · exact ⟨slot, hslot, ‹_›, h⟩
    · cases h

theorem Store.target_object (h : s.target v = some i) : ∃ o, s.objectAt i = some o := by
  simp only [target, bind_eq_some_iff, map_eq_some_iff] at h
  obtain ⟨ref, -, o, ho, rfl⟩ := h
  obtain ⟨slot, hslot, -, hobj⟩ := resolve_slot ho
  exact ⟨o, by simp [objectAt, hslot, hobj]⟩

theorem Store.reachable_object (h : s.Reachable env i) :
    ∃ o, s.objectAt i = some o := by
  cases h with
  | root hr =>
    obtain ⟨v, -, hv⟩ := mem_filterMap.mp hr
    exact target_object hv
  | step _ he =>
    obtain ⟨o, -, hj⟩ := he
    obtain ⟨v, -, hv⟩ := mem_filterMap.mp hj
    exact target_object hv

/-! ## 2. Stores that differ in mark bits only -/

/-- `s'` is `s` with other mark bits. -/
structure MarkOnly (s s' : Store) : Prop where
  eq : s' = { s with slots := s'.slots }
  slots : s'.slots.map (fun x => { x with marked := false }) =
    s.slots.map (fun x => { x with marked := false })

namespace MarkOnly

variable {s s' : Store} {i : Nat}

theorem refl (s : Store) : MarkOnly s s := ⟨rfl, rfl⟩

section

variable (h : MarkOnly s s')

include h

theorem trans (h' : MarkOnly s' s'') : MarkOnly s s'' := by
  refine ⟨?_, h'.slots.trans h.slots⟩
  rw [h'.eq, h.eq]

theorem length : s'.slots.length = s.slots.length := by
  simpa using congrArg List.length h.slots

theorem get {slot : Slot} (hi : s.slots[i]? = some slot) :
    ∃ b, s'.slots[i]? = some { slot with marked := b } := by
  have hm := congrArg (fun l => l[i]?) h.slots
  simp only [getElem?_map, hi] at hm
  obtain ⟨slot', hslot', heq⟩ := map_eq_some_iff.mp hm
  cases slot'
  simp_all

theorem get_none (hi : s.slots[i]? = none) : s'.slots[i]? = none := by
  rw [getElem?_eq_none_iff] at hi ⊢
  rwa [h.length]

theorem resolve (ref : GcRef) : s'.resolve ref = s.resolve ref := by
  have hid : s'.id = s.id := by rw [h.eq]
  have hcfg : s'.config = s.config := by rw [h.eq]
  unfold Store.resolve
  rw [hid, hcfg]
  split
  · rfl
  · cases hi : s.slots[ref.index - 1]? with
    | none => rw [h.get_none hi]
    | some slot =>
      obtain ⟨b, hb⟩ := h.get hi
      rw [hb]

end

theorem objectAt (h : MarkOnly s s') (i : Nat) : s'.objectAt i = s.objectAt i := by
  unfold Store.objectAt
  cases hi : s.slots[i]? with
  | none => rw [h.get_none hi]
  | some slot =>
    obtain ⟨b, hb⟩ := h.get hi
    rw [hb]
    rfl

theorem target (h : MarkOnly s s') : s'.target = s.target := by
  funext v
  simp [Store.target, h.resolve]

theorem config (h : MarkOnly s s') : s'.config = s.config := by rw [h.eq]

end MarkOnly

/-! ## 3. Marking values -/

variable {s : Store} {i : Nat} {work : List Nat}

/-- Slots whose mark bit is clear. -/
def Store.unmarkedCount (s : Store) : Nat := s.slots.countP fun x => !x.marked

/-- A worklist as the marker keeps it: marked slots, no duplicates. -/
structure WorkOk (s : Store) (work : List Nat) : Prop where
  marked : ∀ i ∈ work, s.Marked i
  nodup : work.Nodup

theorem Store.Marked.lt (h : s.Marked i) : i < s.slots.length := by
  obtain ⟨slot, hslot, -⟩ := h
  exact lt_of_getElem? hslot

/-- Indices without duplicates below `n` are at most `n`. -/
theorem nodup_length_le {l : List Nat} (hnd : l.Nodup) (h : ∀ i ∈ l, i < n) :
    l.length ≤ n := by
  have hsub : l ⊆ .range n := fun i hi => mem_range.mpr (h i hi)
  simpa using (hnd.subperm hsub).length_le

/-- Setting one mark bit. -/
theorem set_marked {slot : Slot} (hi : s.slots[i]? = some slot) (hm : slot.marked = false) :
    MarkOnly s { s with slots := s.slots.set i { slot with marked := true } } ∧
    (∀ j, Store.Marked { s with slots := s.slots.set i { slot with marked := true } } j ↔
      s.Marked j ∨ j = i) ∧
    unmarkedCount { s with slots := s.slots.set i { slot with marked := true } } + 1 =
      s.unmarkedCount := by
  obtain ⟨hlt, rfl⟩ := List.getElem?_eq_some_iff.mp hi
  refine ⟨⟨rfl, ?_⟩, fun j => ?_, ?_⟩
  · apply ext_getElem?
    intro j
    simp only [getElem?_map, List.getElem?_set]
    split
    · subst_vars
      simp [hlt]
    · rfl
  · simp only [Store.Marked]
    by_cases hij : i = j
    · subst hij
      simp [hlt]
    · have hji : ¬ j = i := fun h => hij h.symm
      simp [hij, hji]
  · simp only [unmarkedCount]
    have hpos : 0 < s.slots.countP fun x => !x.marked :=
      countP_pos_iff.mpr ⟨_, getElem_mem hlt, by simp [hm]⟩
    rw [countP_set hlt]
    simp only [hm, Bool.not_false, ↓reduceIte, Bool.not_true, Bool.false_eq_true]
    omega

/-- Marking one value. -/
theorem markValue_spec (hlen : s.slots.length = s.config.maxObjects)
    (hw : WorkOk s work) (v : Value) : ∃ s' work', markValue s work v = some (s', work') ∧
      MarkOnly s s' ∧ Marks (s.target v).toList s.Marked work s'.Marked work' ∧
      s'.unmarkedCount + work'.length = s.unmarkedCount + work.length := by
  unfold markValue target
  cases v.managed with
  | none => exact ⟨s, work, rfl, .refl s, .nil _ _, rfl⟩
  | some ref =>
    simp only [bind_some]
    cases hres : s.resolve ref with
    | none => exact ⟨s, work, rfl, .refl s, .nil _ _, rfl⟩
    | some o =>
      obtain ⟨slot, hslot, -, -⟩ := resolve_slot hres
      simp only [hslot]
      by_cases hm : slot.marked
      · rw [if_pos hm]
        exact ⟨s, work, rfl, .refl s, .old ⟨slot, hslot, hm⟩, rfl⟩
      rw [if_neg hm]
      have hm' : slot.marked = false := by simpa using hm
      have hnot : ¬ s.Marked (ref.index - 1) := by
        rintro ⟨slot', hslot', hm'⟩
        rw [hslot] at hslot'
        cases hslot'
        exact hm hm'
      -- the slot is not on the worklist yet, so the worklist has room
      have hroom : ¬ s.config.maxObjects ≤ work.length := by
        have hnd : ((ref.index - 1) :: work).Nodup :=
          nodup_cons.mpr ⟨fun hmem => hnot (hw.marked _ hmem), hw.nodup⟩
        have hle := nodup_length_le hnd (n := s.slots.length) (by
          intro i hi
          rcases mem_cons.mp hi with rfl | hi
          · exact lt_of_getElem? hslot
          · exact (hw.marked i hi).lt)
        rw [length_cons] at hle
        omega
      rw [if_neg hroom]
      obtain ⟨honly, hmarked, hcount⟩ := set_marked hslot hm'
      refine ⟨_, _, rfl, honly, .new hnot hmarked, ?_⟩
      rw [length_cons]
      omega

theorem WorkOk.marks {s' : Store} (hw : WorkOk s work)
    (h : Marks ys s.Marked work s'.Marked work') : WorkOk s' work' := by
  obtain ⟨hmarked, hnd⟩ := h.work hw.marked hw.nodup
  exact ⟨hmarked, hnd⟩

/-- **Marking a list of values**: never past the end of the worklist, and exactly the slots the
values lead to. -/
theorem markValues_spec : ∀ (vs : List Value) {s : Store} {work : List Nat},
    s.slots.length = s.config.maxObjects → WorkOk s work →
    ∃ s' work', markValues s work vs = some (s', work') ∧ MarkOnly s s' ∧
      Marks (vs.filterMap s.target) s.Marked work s'.Marked work' ∧
      s'.unmarkedCount + work'.length = s.unmarkedCount + work.length
  | [], s, work, _, _ => ⟨s, work, rfl, .refl s, .nil _ _, rfl⟩
  | v :: vs, s, work, hlen, hw => by
    obtain ⟨s1, w1, h1, honly1, hmarks1, hcount1⟩ := markValue_spec hlen hw v
    have hlen1 : s1.slots.length = s1.config.maxObjects := by
      rw [honly1.length, honly1.config, hlen]
    obtain ⟨s2, w2, h2, honly2, hmarks2, hcount2⟩ := markValues_spec vs hlen1 (hw.marks hmarks1)
    refine ⟨s2, w2, ?_, honly1.trans honly2, ?_, hcount2.trans hcount1⟩
    · simp [markValues, h1, h2]
    rw [honly1.target] at hmarks2
    have happ := hmarks1.append hmarks2
    have hcons : (v :: vs).filterMap s.target = (s.target v).toList ++ vs.filterMap s.target := by
      rw [filterMap_cons]
      cases s.target v <;> rfl
    rwa [hcons]

/-! ## 4. Draining the worklist -/

/-- Draining ends within as many pops as there are unmarked slots and worklist entries, and leaves
exactly the reachable slots marked. -/
theorem drain_spec {s₀ : Store} : ∀ (fuel : Nat) {s : Store} {work : List Nat},
    MarkOnly s₀ s → s.slots.length = s.config.maxObjects →
    Marking (s₀.Rooted env) s₀.Edge s.Marked work → s.unmarkedCount + work.length ≤ fuel →
    ∃ s', drain fuel s work = some s' ∧ MarkOnly s₀ s' ∧
      ∀ i, s'.Marked i ↔ s₀.Reachable env i
  | fuel, s, [], honly, _, hinv, _ => by
    refine ⟨s, ?_, honly, hinv.done⟩
    cases fuel <;> rfl
  | 0, _, _ :: _, _, _, _, hfuel => by simp at hfuel
  | fuel + 1, s, index :: work, honly, hlen, hinv, hfuel => by
    -- a slot on the worklist is reachable, so it holds an object
    obtain ⟨o, ho⟩ := reachable_object (hinv.sound index (hinv.grey index (by simp)))
    have hobj : s.slots[index]?.bind Slot.object = some o := (honly.objectAt index).trans ho
    have hw : WorkOk s work :=
      ⟨fun i hi => hinv.grey i (by simp [hi]), (nodup_cons.mp hinv.nodup).2⟩
    obtain ⟨s1, w1, h1, honly1, hmarks, hcount⟩ := markValues_spec o.values hlen hw
    have hlen1 : s1.slots.length = s1.config.maxObjects := by
      rw [honly1.length, honly1.config, hlen]
    rw [honly.target] at hmarks
    have hinv1 := hinv.scan hmarks fun j => by
      simp [Store.Edge, ho]
    rw [length_cons] at hfuel
    simp only [drain, hobj, h1]
    exact drain_spec fuel (honly.trans honly1) hlen1 hinv1 (by omega)

/-- **The mark phase** succeeds on every store whose mark bits are clear, and marks exactly the
reachable slots. -/
theorem mark_spec (env : Env) (hlen : s.slots.length = s.config.maxObjects)
    (hclear : ∀ i, ¬ s.Marked i) : ∃ s₁ work s₂,
      markValues s [] (s.rootValues env) = some (s₁, work) ∧
      drain s₁.config.maxObjects s₁ work = some s₂ ∧ MarkOnly s s₂ ∧
      ∀ i, s₂.Marked i ↔ s.Reachable env i := by
  obtain ⟨s1, w1, h1, honly1, hmarks, hcount⟩ := markValues_spec (s.rootValues env) hlen
    (⟨by simp, nodup_nil⟩ : WorkOk s [])
  have hlen1 : s1.slots.length = s1.config.maxObjects := by
    rw [honly1.length, honly1.config, hlen]
  have hinv : Marking (s.Rooted env) s.Edge s1.Marked w1 :=
    .init hmarks hclear fun j => .rfl
  have hfuel : s1.unmarkedCount + w1.length ≤ s1.config.maxObjects := by
    rw [hcount, length_nil, add_zero, honly1.config, ← hlen]
    exact countP_le_length
  obtain ⟨s2, h2, honly2, hreach⟩ := drain_spec _ honly1 hlen1 hinv hfuel
  exact ⟨s1, w1, s2, h1, h2, honly2, hreach⟩

end TurboWasm
