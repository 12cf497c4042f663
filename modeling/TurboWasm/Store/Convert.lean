/-
# Conversions between external and internal references

`any.convert_extern` and `extern.convert_any` (operations 26 and 27 of `gc_exec.c`) re-tag the
references of the store, turn the null of one hierarchy into the null of the other, and box a host
reference in an object without a type.  There and back again is the identity:

* from outside (`convert_extern_back`): the value that comes back is the one that went in, however
  many collections run while the converted value is rooted;
* from inside (`convert_any_back`): the reference that comes back is `ref.eq` to the first one as
  long as that one is still alive.

The second result asks for more than a root for the value in between.  A box leaves the store as
the host reference inside it, which keeps nothing alive: when a collection takes the box, the new
box is equal to no reference that is left (`conversions_lost`).  A program that still holds the
first reference roots it, so it does not see this.
-/
import TurboWasm.Store.Run

namespace TurboWasm

open Relation List Option Store

/-! ## 1. The two operations -/

/-- `any.convert_extern`; `allocated` says whether the `calloc` of a box succeeds. -/
def anyConvertExtern (L : Layout) (s : Store) (env : Env) (thread : Nat) (allocated : Bool) :
    Value → Option (Result Value × Store)
  | .managedExternref ref => some (.ok (.gcref ref), s)
  | .externref true _ => some (.ok (.gcref ⟨none, 0⟩), s)
  | .externref false token =>
    match gcAllocate L s env thread none 1 allocated with
    | some (.ok (.gcref ref), s) =>
      (s.resolve ref).bind fun _ =>
        (writeValue s (ref.index - 1) 0 (.externref false token)).map fun s => (.ok (.gcref ref), s)
    | some (.error e, s) => some (.error e, s)
    | _ => none
  | _ => none

/-- `extern.convert_any`.  The token of the null is the union's view of the handle. -/
def externConvertAny (s : Store) : Value → Option Value
  | .gcref ref =>
    if ref.handle = 0 then some (.externref true ref.handle)
    else
      match s.resolve ref with
      | some object =>
        if object.type = none then object.values[0]? else some (.managedExternref ref)
      | none => some (.managedExternref ref)
  | _ => none

/-- The token of a box. -/
def Object.token (o : Object) : Option Nat :=
  match o.type, o.values with
  | none, [.externref _ token] => some token
  | _, _ => none

/-- `turbowasm_gc_equal`. -/
def gcEqual (s : Store) (left right : GcRef) : Bool :=
  if left.handle = right.handle ∧ left.store = right.store then true
  else if left.handle = 0 ∧ right.handle = 0 then true
  else
    match s.resolve left, s.resolve right with
    | some a, some b => a.token.isSome && a.token = b.token
    | _, _ => false

/-! ## 2. Handles across a collection -/

section Collections

variable {L : Layout} {s s' : Store} {env : Env} {ref : GcRef} {o : Object}

theorem Store.resolve_congr (hid : s'.id = s.id) (hcfg : s'.config = s.config)
    (hslot : s'.slots[ref.index - 1]? = s.slots[ref.index - 1]?) :
    s'.resolve ref = s.resolve ref := by
  simp only [resolve, hid, hcfg, hslot]

theorem Store.resolve_ne_zero (h : s.resolve ref = some o) : ref.handle ≠ 0 := by
  intro h0
  simp [resolve, GcRef.index, h0] at h

/-- A collection makes no handle resolve. -/
theorem Collected.resolve_back (h : Collected s s' env) (hok : StoreOk L s) (hok' : StoreOk L s')
    (ho : s'.resolve ref = some o) : s.resolve ref = some o := by
  obtain ⟨slot', hslot', -, hobj⟩ := resolve_slot ho
  have hid : s'.id = s.id := by rw [h.frame]
  have hcfg : s'.config = s.config := by rw [h.frame]
  have hlt : ref.index - 1 < s.slots.length := by
    rw [hok.length, ← hcfg, ← hok'.length]
    exact lt_of_getElem? hslot'
  obtain ⟨x, hx, hkept, hfreed⟩ := h.slot _ _ (getElem?_eq_getElem hlt)
  obtain rfl : slot' = x := some.inj (hslot'.symm.trans hx)
  by_cases hk : s.Reachable env (ref.index - 1) ∨ s.slots[ref.index - 1].object = none
  · rw [← resolve_congr hid hcfg (by rw [hx, hkept hk, getElem?_eq_getElem hlt]), ho]
  · rw [not_or] at hk
    rw [(hfreed hk.1 (isSome_iff_ne_none.mpr hk.2)).1] at hobj
    cases hobj

/-- A collection keeps what a root resolves to. -/
theorem Collected.resolve_root (h : Collected s s' env) {v : Value} (hv : v ∈ s.rootValues env)
    (href : v.managed = some ref) (ho : s.resolve ref = some o) : s'.resolve ref = some o := by
  obtain ⟨slot, hslot, -, -⟩ := resolve_slot ho
  have hreach : s.Reachable env (ref.index - 1) := by
    refine .root (mem_filterMap.mpr ⟨v, hv, ?_⟩)
    simp [target, href, ho]
  obtain ⟨x, hx, hkept, -⟩ := h.slot _ _ hslot
  obtain rfl := hkept (.inl hreach)
  have hid : s'.id = s.id := by rw [h.frame]
  have hcfg : s'.config = s.config := by rw [h.frame]
  rw [resolve_congr hid hcfg (hx.trans hslot.symm), ho]

/-- Collections that all find `v` among the roots. -/
def Collections (v : Value) : Store → Store → Prop :=
  ReflTransGen fun s s' => ∃ env, v ∈ s.rootValues env ∧ collect s env = some s'

theorem Collections.spec {v : Value} (h : Collections v s s') (hok : StoreOk L s) :
    StoreOk L s' ∧ (∀ ref o, s'.resolve ref = some o → s.resolve ref = some o) ∧
      ∀ ref o, v.managed = some ref → s.resolve ref = some o → s'.resolve ref = some o := by
  induction h with
  | refl => exact ⟨hok, fun _ _ ho => ho, fun _ _ _ ho => ho⟩
  | tail _ hstep ih =>
    obtain ⟨hok1, hback, hroot⟩ := ih
    obtain ⟨env, hv, hcol⟩ := hstep
    obtain ⟨t, ht, hok2, hcollected⟩ := collect_spec hok1 env
    obtain rfl := some.inj (hcol.symm.trans ht)
    exact ⟨hok2, fun ref o ho => hback ref o (hcollected.resolve_back hok1 hok2 ho),
      fun ref o hm ho => hcollected.resolve_root hv hm (hroot ref o hm ho)⟩

end Collections

/-! ## 3. Boxes -/

section Boxes

variable {L : Layout} {s : Store} {env : Env} {thread : Nat} {allocated : Bool} {y : Value}

/-- An allocation that succeeds takes the first free slot, of the store or of what a collection
left of it. -/
theorem gcAllocate_inv {type : Option TypePtr} {count : Nat} (hok : StoreOk L s)
    (h : gcAllocate L s env thread type count allocated = some (.ok y, s')) :
    ∃ s₁, StoreOk L s₁ ∧ (∀ ref o, s₁.resolve ref = some o → s.resolve ref = some o) ∧
      takeSlot s₁ type count (L.object + count * L.value) = some (y, s') := by
  unfold gcAllocate at h
  dsimp only at h
  split at h
  · cases h
  split at h
  · cases h
  obtain ⟨s₁, h₁, hset, -⟩ := makeRoom_spec hok env (L.object + count * L.value)
  simp only [h₁, bind_eq_bind, bind_some, bind_eq_some_iff] at h
  obtain ⟨full, -, h⟩ := h
  split at h
  · cases h
  split at h
  · cases h
  obtain ⟨⟨v, t⟩, htake, h⟩ := bind_eq_some_iff.mp h
  cases h
  refine ⟨s₁, hset.ok, fun ref o ho => ?_, htake⟩
  -- making room is nothing, or a collection
  unfold makeRoom at h₁
  split at h₁
  · cases h₁
  · obtain ⟨t, ht, hokt, hcollected⟩ := collect_spec hok env
    obtain rfl := some.inj (h₁.symm.trans ht)
    exact hcollected.resolve_back hok hset.ok ho
  · cases h₁
    exact ho

/-- The new object, and the store with its field written. -/
theorem writeValue_takeSlot {t : Store} (v : Value) (hok : StoreOk L s)
    (htake : takeSlot s none 1 bytes = some (y, t)) : ∃ slot o s',
      y = .gcref ⟨some s.id, gcHandle slot.generation s.freeHead⟩ ∧
      s.slots[s.freeHead]? = some slot ∧ t.id = s.id ∧
      t.slots[s.freeHead]? = some { slot with object := some o } ∧
      writeValue t ((GcRef.mk (some s.id) (gcHandle slot.generation s.freeHead)).index - 1) 0 v =
        some s' ∧ s'.id = s.id ∧ s'.config = s.config ∧ s'.slots = s.slots.set s.freeHead
          { slot with object := some ⟨s.allocations, none, bytes, [v]⟩ } := by
  unfold takeSlot at htake
  split at htake
  · cases htake
  rename_i slot hslot
  have hlt := lt_of_getElem? hslot
  have hsmall : s.freeHead < uint32Max := (hok.length ▸ hlt).trans hok.small
  obtain ⟨hy, ht⟩ := Prod.mk.inj (some.inj htake)
  have hslots : t.slots = s.slots.set s.freeHead
      { slot with object := some ⟨s.allocations, none, bytes, [.zero]⟩ } := by rw [← ht]; rfl
  have hnew x : (s.slots.set s.freeHead x)[s.freeHead]? = some x :=
    getElem?_set_self hlt
  refine ⟨slot, _, { t with slots := s.slots.set s.freeHead _ }, hy.symm, hslot, by rw [← ht],
    by rw [hslots, hnew], ?_, by rw [← ht], by rw [← ht], rfl⟩
  rw [gcHandle_index hsmall, Nat.add_sub_cancel, writeValue, hslots, hnew]
  simp only [set_set]
  exact if_neg (by decide)

theorem writeValue_ok (hok : StoreOk L s)
    (h : writeValue s index i v = some s') : StoreOk L s' := by
  have h' := h
  unfold writeValue at h'
  split at h'
  · cases h'
  rename_i slot hslot
  split at h'
  · cases h'
  rename_i o ho
  obtain ⟨hi, -⟩ := ite_none_pass h'
  have hat : s.objectAt index = some o := by simp [objectAt, hslot, ho]
  obtain ⟨t, ht, hset⟩ := writeValue_spec hok hat (not_le.mp hi) v
  obtain rfl := some.inj (h.symm.trans ht)
  exact hset.ok

/-- **A host reference is boxed**: the box is new, and every other handle resolves as before, or
no longer. -/
theorem anyConvertExtern_host (hok : StoreOk L s)
    (h : anyConvertExtern L s env thread allocated (.externref false token) = some (.ok y, s')) :
    ∃ ref o, y = .gcref ref ∧ s'.resolve ref = some o ∧ o.type = none ∧
      o.values = [.externref false token] ∧ StoreOk L s' ∧
      ∀ r p, s'.resolve r = some p → p = o ∨ s.resolve r = some p := by
  obtain ⟨res, t, halloc, hset, -⟩ := gcAllocate_spec hok env thread none 1 allocated
  simp only [anyConvertExtern, halloc] at h
  split at h
  · rename_i ref t' heq
    cases heq
    simp only [bind_eq_some_iff, map_eq_some_iff] at h
    obtain ⟨p, hp, s₂, hwrite, rfl, rfl⟩ := h
    obtain ⟨s₁, hok₁, hback, htake⟩ := gcAllocate_inv hok halloc
    have hok₂ := writeValue_ok hset.ok hwrite
    obtain ⟨slot, -, t', href, hslot, -, -, hwrite', hid, hcfg, hslots⟩ :=
      writeValue_takeSlot (.externref false token) hok₁ htake
    cases href
    obtain rfl := some.inj (hwrite'.symm.trans hwrite)
    have hlt := lt_of_getElem? hslot
    have hnew := hslots ▸ getElem?_set_self hlt
    have hle := (hok₁.generation _ _ hslot).2
    refine ⟨_, ⟨s₁.allocations, none, L.object + 1 * L.value, [.externref false token]⟩, rfl, ?_,
      rfl, rfl, hok₂, ?_⟩
    · rw [← hid, resolve_gcHandle hok₂ hnew hle, if_pos rfl]
    intro r q hq
    by_cases hr : r.index - 1 = s₁.freeHead
    · obtain ⟨x, hx, -, hxo⟩ := resolve_slot hq
      rw [hr, hnew] at hx
      cases hx
      exact .inl (some.inj hxo).symm
    · refine .inr (hback r q ?_)
      rw [← hq, resolve_congr hid hcfg]
      rw [hslots, getElem?_set_ne (.symm hr)]
  · rename_i heq
    cases h
  · cases h

/-- `any.convert_extern` of a host reference answers: the new box is there to be written. -/
theorem anyConvertExtern_answers (hok : StoreOk L s) (token : Nat) : ∃ res s',
    anyConvertExtern L s env thread allocated (.externref false token) = some (res, s') := by
  obtain ⟨res, t, halloc, hset, -⟩ := gcAllocate_spec hok env thread none 1 allocated
  cases res with
  | error e => exact ⟨.error e, t, by simp [anyConvertExtern, halloc]⟩
  | ok y =>
    obtain ⟨s₁, hok₁, -, htake⟩ := gcAllocate_inv hok halloc
    obtain ⟨slot, o, s', rfl, hslot, hid, hnew, hwrite, -⟩ :=
      writeValue_takeSlot (.externref false token) hok₁ htake
    have ho : t.resolve ⟨some s₁.id, gcHandle slot.generation s₁.freeHead⟩ = some o := by
      rw [← hid, resolve_gcHandle hset.ok hnew (hok₁.generation _ _ hslot).2, if_pos rfl]
    exact ⟨_, s', by simp only [anyConvertExtern, halloc, ho, hwrite]; rfl⟩

end Boxes

/-! ## 4. There and back -/

/-- An external reference: a host reference or the null, or a managed reference.  No managed one is
the null or leads to a box, since `extern.convert_any` makes a host value of either. -/
def Store.External (s : Store) : Value → Prop
  | .externref _ _ => True
  | .managedExternref ref => ref.handle ≠ 0 ∧ ∀ o, s.resolve ref = some o → o.type ≠ none
  | _ => False

/-- An internal reference: the null, an i31, an object, or a box of a host reference. -/
def Store.Internal (s : Store) (ref : GcRef) : Prop :=
  ∀ o, s.resolve ref = some o → o.type = none → ∃ token, o.values = [.externref false token]

/-- The same external reference: nulls are told apart by nothing. -/
def SameExtern (x x' : Value) : Prop :=
  x' = x ∨ ∃ token token', x = .externref true token ∧ x' = .externref true token'

section Back

variable {L : Layout} {s s₁ s₂ : Store} {env : Env} {thread : Nat} {allocated : Bool}
  {x y : Value} {ref : GcRef}

theorem convert_extern_back (hok : StoreOk L s) (hx : s.External x)
    (hy : anyConvertExtern L s env thread allocated x = some (.ok y, s₁))
    (hcol : Collections y s₁ s₂) : ∃ x', externConvertAny s₂ y = some x' ∧ SameExtern x x' := by
  cases x with
  | managedExternref ref =>
    cases hy
    obtain ⟨-, hback, -⟩ := hcol.spec hok
    refine ⟨.managedExternref ref, ?_, .inl rfl⟩
    simp only [externConvertAny, if_neg hx.1]
    split
    · rename_i o ho
      rw [if_neg (hx.2 o (hback ref o ho))]
    · rfl
  | externref null token =>
    cases null with
    | true =>
      cases hy
      exact ⟨_, rfl, .inr ⟨_, _, rfl, rfl⟩⟩
    | false =>
      obtain ⟨ref, o, rfl, ho, htype, hvalues, hok₁, -⟩ := anyConvertExtern_host hok hy
      obtain ⟨-, -, hroot⟩ := hcol.spec hok₁
      have ho₂ := hroot ref o rfl ho
      refine ⟨.externref false token, ?_, .inl rfl⟩
      simp only [externConvertAny, if_neg (resolve_ne_zero ho₂), ho₂, htype, hvalues]
      rfl
  | _ => cases hx

theorem gcEqual_self (s : Store) (ref : GcRef) : gcEqual s ref ref := if_pos ⟨rfl, rfl⟩

/-- Two boxes are equal when their tokens are, and a box is equal to nothing that is gone. -/
theorem gcEqual_box {right : GcRef} {o : Object} (hl : s.resolve left = some o)
    (ho : o.token = some token) (hr : right.handle ≠ 0)
    (hsame : ∀ p, s.resolve right = some p → p.token = some token) :
    gcEqual s left right ↔ ∃ p, s.resolve right = some p := by
  unfold gcEqual
  split
  · rename_i heq
    obtain rfl : left = right := by
      cases left; cases right; simp_all
    simp [hl]
  · rw [if_neg (fun h => hr h.2), hl]
    cases hp : s.resolve right with
    | none => simp
    | some p => simp [ho, hsame p hp]

theorem convert_any_back (hok : StoreOk L s) (href : s.Internal ref) :
    ∃ x, externConvertAny s (.gcref ref) = some x ∧ s.External x ∧ ∀ s₁ y s₂,
      Collections x s s₁ → anyConvertExtern L s₁ env thread allocated x = some (.ok y, s₂) →
        ∃ ref', y = .gcref ref' ∧ (gcEqual s₂ ref' ref ↔
          ((∃ o, s.resolve ref = some o ∧ o.type = none) → ∃ o, s₂.resolve ref = some o)) := by
  by_cases h0 : ref.handle = 0
  · refine ⟨.externref true ref.handle, if_pos h0, trivial, fun s₁ y s₂ _ hy => ?_⟩
    cases hy
    refine ⟨⟨none, 0⟩, rfl, iff_of_true (by simp [gcEqual, h0]) fun ⟨o, ho, _⟩ => ?_⟩
    exact absurd h0 (resolve_ne_zero ho)
  by_cases hbox : ∃ o, s.resolve ref = some o ∧ o.type = none
  · -- a box: the host reference inside goes out, and comes back in a new box
    obtain ⟨o, ho, htype⟩ := hbox
    obtain ⟨token, hvalues⟩ := href o ho htype
    have htoken : o.token = some token := by simp [Object.token, htype, hvalues]
    refine ⟨.externref false token, ?_, trivial, fun s₁ y s₂ hcol hy => ?_⟩
    · simp [externConvertAny, h0, ho, htype, hvalues]
    obtain ⟨hok₁, hback, -⟩ := hcol.spec hok
    obtain ⟨ref', o', rfl, ho', htype', hvalues', -, hold⟩ := anyConvertExtern_host hok₁ hy
    have htoken' : o'.token = some token := by simp [Object.token, htype', hvalues']
    refine ⟨ref', rfl, ?_⟩
    rw [gcEqual_box ho' htoken' h0 fun p hp => ?_]
    · exact ⟨fun h _ => h, fun h => h ⟨o, ho, htype⟩⟩
    · rcases hold ref p hp with rfl | hp
      · exact htoken'
      · obtain rfl := some.inj ((hback ref p hp).symm.trans ho)
        exact htoken
  · -- everything else is re-tagged, and comes back as it was
    have hout : externConvertAny s (.gcref ref) = some (.managedExternref ref) := by
      simp only [externConvertAny, if_neg h0]
      split
      · rename_i o ho
        exact if_neg fun htype => hbox ⟨o, ho, htype⟩
      · rfl
    refine ⟨.managedExternref ref, hout, ⟨h0, fun o ho htype => hbox ⟨o, ho, htype⟩⟩,
      fun s₁ y s₂ _ hy => ?_⟩
    cases hy
    exact ⟨ref, rfl, iff_of_true (gcEqual_self _ ref) fun h => absurd h hbox⟩

end Back

/-- **The conversions are inverse, in every reachable world.**  An external reference comes back as
itself across any collections that find the converted value among the roots; an internal one comes
back `ref.eq` to itself, for a box exactly when the collections have left it alive; the nulls are
converted to each other.  The conversions answer, and only an allocation can fail. -/
theorem conversions_inverse {L : Layout} {w₀ w : World} (h₀ : w₀.Initial L)
    (hrun : StoreRun L w₀ w) (k : Nat) (env : Env) (thread : Nat) (allocated : Bool) :
    (∀ x, (w.stores k).External x →
      (∃ res s, anyConvertExtern L (w.stores k) env thread allocated x = some (res, s)) ∧
      ∀ y s₁ s₂, anyConvertExtern L (w.stores k) env thread allocated x = some (.ok y, s₁) →
        Collections y s₁ s₂ → ∃ x', externConvertAny s₂ y = some x' ∧ SameExtern x x') ∧
    (∀ ref, (w.stores k).Internal ref →
      ∃ x, externConvertAny (w.stores k) (.gcref ref) = some x ∧ (w.stores k).External x ∧
        ∀ s₁ y s₂, Collections x (w.stores k) s₁ →
          anyConvertExtern L s₁ env thread allocated x = some (.ok y, s₂) →
          ∃ ref', y = .gcref ref' ∧ (gcEqual s₂ ref' ref ↔
            ((∃ o, (w.stores k).resolve ref = some o ∧ o.type = none) →
              ∃ o, s₂.resolve ref = some o))) ∧
    (∀ store, externConvertAny (w.stores k) (.gcref ⟨store, 0⟩) = some (.externref true 0)) ∧
    ∀ token, anyConvertExtern L (w.stores k) env thread allocated (.externref true token) =
      some (.ok (.gcref ⟨none, 0⟩), w.stores k) := by
  have hok := (hrun.ok h₀.ok).1.stores k
  refine ⟨fun x hx => ⟨?_, fun y s₁ s₂ => convert_extern_back hok hx⟩,
    fun ref href => convert_any_back hok href, fun store => rfl, fun token => rfl⟩
  cases x with
  | externref null token =>
    cases null with
    | true => exact ⟨_, _, rfl⟩
    | false => exact anyConvertExtern_answers hok token
  | managedExternref ref => exact ⟨_, _, rfl⟩
  | _ => cases hx

/-- A host reference, to the store and back. -/
theorem conversions_inverse_host : ∃ y s x,
    anyConvertExtern smallLayout smallStore smallWorld.env 0 true (.externref false 7) =
      some (.ok y, s) ∧ externConvertAny s y = some x ∧ SameExtern (.externref false 7) x := by
  obtain ⟨hhost, -⟩ := conversions_inverse smallWorld_initial .refl 0 smallWorld.env 0 true
  obtain ⟨-, hback⟩ := hhost (.externref false 7) trivial
  obtain ⟨x, hx, hsame⟩ := hback _ _ _ rfl .refl
  exact ⟨_, _, x, rfl, hx, hsame⟩

/-- The small store with a box in it, and a root for the host reference but none for the box. -/
def boxedStore : Store :=
  { smallStore with
    slots := [⟨some ⟨0, none, 2, [.externref false 7]⟩, 1, uint32Max, false⟩]
    freeHead := uint32Max
    roots := [⟨0, .externref false 7⟩]
    stats := ⟨6, 1, 1, 0⟩
    allocations := 1 }

theorem boxedStore_run : ∃ w, StoreRun smallLayout smallWorld w ∧ w.stores 0 = boxedStore := by
  have h₁ := ReflTransGen.single
    (@StoreStep.op smallLayout smallWorld _ 0 (.allocate 0 none 1 true) _ trivial rfl)
  have h₂ := h₁.tail (@.op smallLayout _ _ 0 (.write 0 0 (.externref false 7)) _
    ⟨⟨0, none, 2, [.zero]⟩, rfl, by decide⟩ rfl)
  exact ⟨_, h₂.tail
    (@.op smallLayout _ _ 0 (.retain 0 (.externref false 7) 0 true) _ trivial rfl), rfl⟩

/-- A root for the converted value does not keep a box: after a collection the new box is equal to
nothing that is left. -/
theorem conversions_lost : ¬ ∀ {L : Layout} {w₀ w : World}, w₀.Initial L → StoreRun L w₀ w →
    ∀ (k : Nat) (env : Env) (thread : Nat) (allocated : Bool) (ref : GcRef),
      (w.stores k).Internal ref → ∀ x s₁ ref' s₂,
        externConvertAny (w.stores k) (.gcref ref) = some x → Collections x (w.stores k) s₁ →
        anyConvertExtern L s₁ env thread allocated x = some (.ok (.gcref ref'), s₂) →
        gcEqual s₂ ref' ref := by
  intro h
  obtain ⟨w, hrun, hw⟩ := boxedStore_run
  have hlost := h smallWorld_initial hrun 0 smallWorld.env 0 true ⟨some 0, gcHandle 1 0⟩
  rw [hw] at hlost
  have hbox : boxedStore.Internal ⟨some 0, gcHandle 1 0⟩ := by
    intro o ho _
    cases ho
    exact ⟨7, rfl⟩
  have hcol : Collections (.externref false 7) boxedStore _ :=
    .single ⟨smallWorld.env, by simp [rootValues, boxedStore], rfl⟩
  cases hlost hbox _ _ _ _ rfl hcol rfl

end TurboWasm
