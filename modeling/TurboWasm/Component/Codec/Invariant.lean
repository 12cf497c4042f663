/-
# Open reservations

`CodecWorld.Ok` says what a reservation is: each owner and end that is being lowered has its own entry
in the table, which names it, and the lists of the codecs are exactly these.  Every operation on the
table keeps it, because none of them finds a reserved handle (`Untouchable`).
-/
import TurboWasm.Component.Codec.Model
import TurboWasm.Lib.Rosters

namespace TurboWasm

open Lib Option Function Table CodecWorld

namespace CodecWorld

variable {w : CodecWorld} {c k handle identity : Nat} {o : ResourceOwner}
  {table : Table} {allocated typed : Bool} {word : Nat}

/-! ## 1. The invariant -/

/-- The entry of a reserved resource. -/
def reservation (generation k : Nat) : TableEntry :=
  { fresh generation with kind := .reservation, object := some k }

/-- The reservations of all codecs. -/
structure Ok (w : CodecWorld) : Prop where
  table : w.table.Ok
  counted : w.table.Counted
  resources : ∀ c k, k ∈ w.resourceHead c ↔ ∃ o, w.owners k = some o ∧ o.scope = some c
  nodup : ∀ c, (w.resourceHead c).Nodup
  /-- The entry of a reserved resource names its owner. -/
  reserved : ∀ {k c : Nat} {o : ResourceOwner}, w.owners k = some o → o.scope = some c →
    o.committed = false ∧ ∃ g, w.table.entry o.reserved = some (reservation g k)
  endpoints : ∀ c k, k ∈ w.endpointHead c ↔ (w.ends k).scope = some c
  nodupEnds : ∀ c, (w.endpointHead c).Nodup
  /-- The entry of a reserved end names its waitable, which does not name the table. -/
  reservedEnd : ∀ {k c : Nat}, (w.ends k).scope = some c → (w.ends k).valued ∧
    (w.ends k).table = none ∧ (w.ends k).closed = false ∧ (w.ends k).readable ∧
    ∃ e, w.table.entry (w.ends k).lowerHandle = some e ∧ e.kind = (w.ends k).kind ∧
      e.object = some k

theorem Ok.roster (ok : w.Ok) :
    Roster w.resourceHead fun k => (w.owners k).bind ResourceOwner.scope :=
  ⟨fun c k => (ok.resources c k).trans bind_eq_some_iff.symm, ok.nodup⟩

theorem Ok.rosterEnds (ok : w.Ok) : Roster w.endpointHead fun k => (w.ends k).scope :=
  ⟨ok.endpoints, ok.nodupEnds⟩

theorem scope_putOwner (w : CodecWorld) (k : Nat) (o : ResourceOwner) :
    (fun j => ((w.putOwner k o).owners j).bind ResourceOwner.scope) =
      update (fun j => (w.owners j).bind ResourceOwner.scope) k o.scope :=
  Function.comp_update (Option.bind · ResourceOwner.scope) ..

theorem scope_putEnd (w : CodecWorld) (k : Nat) (e : CodecEnd) :
    (fun j => ((w.putEnd k e).ends j).scope) = update (fun j => (w.ends j).scope) k e.scope :=
  Function.comp_update CodecEnd.scope ..

/-- A handle that the codec `c` has reserved. -/
def ReservedBy (w : CodecWorld) (c handle : Nat) : Prop :=
  (∃ k o, w.owners k = some o ∧ o.scope = some c ∧ o.reserved = handle) ∨
    ∃ k, (w.ends k).scope = some c ∧ (w.ends k).lowerHandle = handle

/-- A handle that is reserved. -/
def Reserved (w : CodecWorld) (handle : Nat) : Prop := ∃ c, w.ReservedBy c handle

/-- The entry of a reserved handle. -/
theorem Ok.entry (ok : w.Ok) (h : w.Reserved handle) : ∃ e, w.table.entry handle = some e ∧
    (e.kind = .reservation ∨ ∃ k, e.object = some k ∧ e.kind = (w.ends k).kind ∧
      (w.ends k).valued ∧ (w.ends k).table = none ∧ (w.ends k).readable) := by
  obtain ⟨c, ⟨k, o, ho, hs, rfl⟩ | ⟨k, hs, rfl⟩⟩ := h
  · obtain ⟨-, g, he⟩ := ok.reserved ho hs
    exact ⟨_, he, .inl rfl⟩
  · obtain ⟨hv, ht, -, hr, e, he, hk, hobj⟩ := ok.reservedEnd hs
    exact ⟨e, he, .inr ⟨k, hobj, hk, hv, ht, hr⟩⟩

theorem readable_kind {e : CodecEnd} (h : e.readable) :
    e.kind = .streamRead ∨ e.kind = .futureRead := by
  simpa [CodecEnd.readable] using h

/-- The entry of a reserved handle is not a resource, a set or a subtask. -/
theorem Ok.reserved_kind (ok : w.Ok) (h : w.Reserved handle) {e : TableEntry}
    (he : w.table.entry handle = some e) :
    e.kind = .reservation ∨ e.kind = .streamRead ∨ e.kind = .futureRead := by
  obtain ⟨e', he', hk⟩ := ok.entry h
  cases he.symm.trans he'
  rcases hk with hk | ⟨k, -, hk, -, -, hr⟩
  · exact .inl hk
  · rw [hk]
    exact .inr (readable_kind hr)

/-! ## 2. No operation finds a reserved handle -/

/-- Nothing that a guest can do with a handle succeeds. -/
structure Untouchable (w : CodecWorld) (handle : Nat) : Prop where
  rep : ∀ identity, ∃ e, w.table.resourceRep handle identity = .error e
  lendAcquire : ∀ identity, ∃ e, w.table.lendAcquire handle identity = .error e
  lendRelease : ∀ identity, ∃ e, w.table.lendRelease handle identity = .error e
  takeOwned : ∀ identity, ∃ e, w.table.takeOwned handle identity = .error e
  drop : ∀ identity, ∃ e, w.table.resourceDrop handle identity = .error e
  liftResource : ∀ k identity borrow allocated,
    w.liftResource k handle identity borrow allocated = none
  waitable : w.getWaitable handle = none
  join : ∀ set known, w.join handle set known = none
  waitableDrop : ∀ idle, w.waitableDrop handle idle = none
  endpoint : ∀ kind, w.endpointGet handle kind = none
  liftEndpoint : ∀ future typed movable allocated,
    w.liftEndpoint handle future typed movable allocated = none
  /-- It is no waitable set and no subtask. -/
  other : w.table.handleObject handle .waitableSet = none ∧
    w.table.handleObject handle .subtask = none

/-- **A reserved handle cannot be used.** -/
theorem Ok.untouchable (ok : w.Ok) (h : w.Reserved handle) : w.Untouchable handle := by
  obtain ⟨e, he, hk⟩ := ok.entry h
  have hkind := ok.reserved_kind h he
  have hnres : e.kind ≠ .resource := by
    rcases hkind with hk | hk | hk <;> rw [hk] <;> simp
  -- the lookup of a resource fails
  have hres : ∀ identity, ∃ status, w.table.resource handle identity = .error status := by
    intro identity
    unfold resource
    split
    · exact ⟨_, rfl⟩
    · simp only [he]
      exact ⟨_, if_pos (.inl hnres)⟩
  have hbind : ∀ {α : Type} identity (f : TableEntry → Result α),
      ∃ status, (w.table.resource handle identity >>= f) = .error status := by
    intro α identity f
    obtain ⟨status, hs⟩ := hres identity
    exact ⟨status, by rw [hs]; rfl⟩
  -- the waitable of a reserved end does not name the table
  have hobj : ∀ {kind : HandleKind} {k : Nat}, w.table.handleObject handle kind = some k →
      kind.waitable → (w.ends k).table = none := by
    intro kind k hobj hw
    obtain ⟨e', he', hkind', -, ho⟩ := handleObject_eq_some.mp hobj
    cases he.symm.trans he'
    rcases hk with hk | ⟨k', ho', -, -, ht, -⟩
    · rw [← hkind', hk] at hw
      cases hw
    · cases ho.symm.trans ho'
      exact ht
  have hget : w.getWaitable handle = none := by
    unfold getWaitable
    split
    · rfl
    split
    · rfl
    rename_i hw
    split
    · rfl
    rename_i k hk'
    rw [if_neg]
    intro hh
    rw [hobj hk' (by simpa using hw)] at hh
    cases hh.1
  refine ⟨fun identity => hbind identity _, fun identity => hbind identity _,
    fun identity => hbind identity _, fun identity => hbind identity _,
    fun identity => hbind identity _, ?_, hget, ?_, ?_, ?_, ?_, ?_⟩
  · intro k identity borrow allocated
    unfold liftResource
    split
    · rfl
    obtain ⟨status, hs⟩ : ∃ e, w.table.resourceRep handle identity = .error e := hbind identity _
    rw [hs]
  · intro set known
    simp [join, hget]
  · intro idle
    simp [waitableDrop, hget]
  · intro kind
    unfold endpointGet
    split
    · rfl
    rename_i hw
    split
    · rfl
    rename_i k hk'
    simp only [not_or, Bool.not_eq_false] at hw
    simp only
    rw [if_neg]
    intro hh
    rw [hobj hk' hw.1] at hh
    cases hh.1
  · intro future typed movable allocated
    unfold liftEndpoint
    split
    · rfl
    rename_i k hk'
    simp only
    rw [if_pos]
    left
    rw [hobj hk' (by cases future <;> rfl)]
    simp
  · constructor
    · simp only [handleObject, he]
      rcases hkind with hk | hk | hk <;> rw [hk] <;> simp
    · simp only [handleObject, he]
      rcases hkind with hk | hk | hk <;> rw [hk] <;> simp

/-! ## 3. Operations that leave the reservations alone -/

/-- The table changes under the reservations. -/
theorem Ok.retable (ok : w.Ok) (hok : table.Ok) (hc : table.Counted)
    (hsame : ∀ h e, w.Reserved h → w.table.entry h = some e → table.entry h = some e) :
    { w with table }.Ok :=
  { ok with
    table := hok
    counted := hc
    reserved := fun {k c o} ho hs => by
      obtain ⟨hcm, g, he⟩ := ok.reserved ho hs
      exact ⟨hcm, g, hsame _ _ ⟨c, .inl ⟨k, o, ho, hs, rfl⟩⟩ he⟩
    reservedEnd := fun {k c} hs => by
      obtain ⟨hv, ht, hcl, hr, e, he, hk⟩ := ok.reservedEnd hs
      exact ⟨hv, ht, hcl, hr, e, hsame _ e ⟨c, .inr ⟨k, hs, rfl⟩⟩ he, hk⟩ }

/-- Resources change under the reservations. -/
theorem Ok.frame {except : Option Nat} (ok : w.Ok)
    (h : w.table.Frame (· ≠ .resource) except table) : { w with table }.Ok := by
  refine ok.retable h.ok h.counted fun handle e hr he => (h.same ?_).mpr he
  rcases ok.reserved_kind hr he with hk | hk | hk <;> rw [hk] <;> simp

/-- An owner that is not being lowered is replaced, or goes. -/
theorem Ok.setOwner (ok : w.Ok) {new : Option ResourceOwner}
    (hold : ∀ o, w.owners k = some o → o.scope = none) (hnew : ∀ o, new = some o → o.scope = none) :
    { w with owners := update w.owners k new }.Ok := by
  have hne : ∀ {j : Nat} {o : ResourceOwner} {c : Nat}, update w.owners k new j = some o →
      o.scope = some c → j ≠ k := by
    intro j o c ho hs heq
    subst heq
    rw [update_self] at ho
    rw [hnew o ho] at hs
    cases hs
  refine { ok with resources := fun c j => ?_, reserved := fun {j c o} ho hs => ?_ }
  · refine (ok.resources c j).trans ⟨?_, ?_⟩
    · rintro ⟨o, ho, hs⟩
      have hj : j ≠ k := by
        rintro rfl
        rw [hold o ho] at hs
        cases hs
      exact ⟨o, (update_of_ne hj ..).trans ho, hs⟩
    · rintro ⟨o, ho, hs⟩
      exact ⟨o, (update_of_ne (hne ho hs) ..).symm.trans ho, hs⟩
  · have ho' : w.owners j = some o := by
      rw [← ho]
      exact (update_of_ne (hne ho hs) ..).symm
    exact ok.reserved ho' hs

/-- An end is replaced by one with the same reservation. -/
theorem Ok.setEnd (ok : w.Ok) {e : CodecEnd} (hscope : e.scope = (w.ends k).scope)
    (hsame : ∀ c, (w.ends k).scope = some c → e.valued = (w.ends k).valued ∧
      e.table = (w.ends k).table ∧ e.closed = (w.ends k).closed ∧ e.kind = (w.ends k).kind ∧
      e.lowerHandle = (w.ends k).lowerHandle) : (w.putEnd k e).Ok := by
  refine { ok with endpoints := fun c j => ?_, reservedEnd := fun {j c} hs => ?_ }
  · refine (ok.endpoints c j).trans ?_
    by_cases hj : j = k
    · subst hj
      simp [putEnd, hscope]
    · simp [putEnd, update_of_ne hj]
  by_cases hj : j = k
  · subst hj
    simp only [putEnd, update_self] at hs ⊢
    rw [hscope] at hs
    obtain ⟨hv, ht, hcl, hk, hl⟩ := hsame c hs
    obtain ⟨hv', ht', hcl', hr', x, hx, hxk, hxo⟩ := ok.reservedEnd hs
    refine ⟨hv.trans hv', ht.trans ht', hcl.trans hcl', ?_, x, hl ▸ hx, hxk.trans hk.symm, hxo⟩
    rw [← hr']
    simp only [CodecEnd.readable, hk]
  · simp only [putEnd, update_of_ne hj] at hs ⊢
    exact ok.reservedEnd hs

/-- A handle is inserted next to the reservations. -/
theorem Ok.inserted {new : TableEntry} (ok : w.Ok)
    (hins : w.table.Inserted handle new table) (hok : table.Ok) (hc : table.Counted) :
    { w with table }.Ok := by
  refine ok.retable hok hc fun h e _ he => ?_
  rw [hins.entry, if_neg fun heq => ?_, he]
  rw [heq, hins.free] at he
  cases he

theorem handleInsert_counted {t : Table}
    (ok : t.Ok) (hc : t.Counted) (h : t.handleInsert kind object allocated = .ok (handle, t')) :
    ∃ g, t.Inserted handle { fresh g with kind, object := some object } t' ∧ t'.Ok ∧
      t'.Counted := by
  obtain ⟨g, hins, hok⟩ := handleInsert_spec ok h
  obtain ⟨_, h⟩ := ite_error_pass h
  exact ⟨g, hins, hok, hc.allocate ok (fun _ => rfl) h⟩

section

variable (ok : w.Ok)

include ok

theorem Ok.register (h : w.register k allocated = some w') : w'.Ok := by
  obtain ⟨hn, h⟩ := ite_none_pass h
  split at h
  · cases h
  rename_i handle table hins
  cases h
  simp only [not_or] at hn
  have hscope : ∀ c, (w.ends k).scope = some c → False := by
    intro c hs
    exact hn.2.2.2 (ok.reservedEnd hs).1
  obtain ⟨g, spec, hok, hc⟩ := handleInsert_counted ok.table ok.counted hins
  have ok₁ := ok.inserted spec hok hc
  exact ok₁.setEnd (k := k) rfl fun c hs => (hscope c hs).elim

/-- The entry of a waitable that names the table is removed. -/
theorem Ok.waitableDrop {idle : Bool} (h : w.waitableDrop handle idle = some w') : w'.Ok := by
  have huse : ¬ w.Reserved handle := by
    intro hr
    rw [(ok.untouchable hr).waitableDrop] at h
    cases h
  unfold CodecWorld.waitableDrop at h
  split at h
  · cases h
  rename_i k hget
  split at h
  · cases h
  obtain ⟨_, h⟩ := ite_none_pass h
  split at h
  · cases h
  rename_i object table hrem
  cases h
  obtain ⟨e, he, -, -, -, rfl⟩ := handleRemove_spec hrem
  have ok₁ : { w with table := w.table.remove handle }.Ok := by
    refine ok.retable (ok.table.remove handle) (ok.counted.remove ok.table handle)
      fun h x hr hx => ?_
    rw [entry_remove he, if_neg, hx]
    rintro rfl
    exact huse hr
  -- its end has no reservation, since it names the table
  have hreg : (w.ends k).table = some w.address := by
    unfold getWaitable at hget
    split at hget
    · cases hget
    obtain ⟨_, hget⟩ := ite_none_pass hget
    split at hget
    · cases hget
    rcases ite_cases hget with ⟨hh, hget⟩ | ⟨_, hget⟩
    · cases hget
      exact hh.1
    · cases hget
  refine ok₁.setEnd (k := k) rfl fun c hs => ?_
  have := (ok.reservedEnd hs).2.1
  rw [hreg] at this
  cases this

theorem Ok.liftEndpoint {future movable : Bool}
    (h : w.liftEndpoint handle future typed movable allocated = some w') : w'.Ok := by
  unfold CodecWorld.liftEndpoint at h
  split at h
  · cases h
  rename_i k hk
  obtain ⟨hn, h⟩ := ite_none_pass h
  obtain ⟨w₁, hdrop, rfl⟩ := map_eq_some_iff.mp h
  have ok₁ := ok.waitableDrop hdrop
  refine ok₁.setEnd rfl fun c hs => ?_
  -- the drop leaves the ends as they are, apart from the one that it drops
  have hval : (w₁.ends k).valued = (w.ends k).valued := by
    unfold CodecWorld.waitableDrop at hdrop
    split at hdrop
    · cases hdrop
    rename_i j _
    split at hdrop
    · cases hdrop
    obtain ⟨_, hdrop⟩ := ite_none_pass hdrop
    split at hdrop
    · cases hdrop
    cases hdrop
    simp only [putEnd]
    by_cases hj : k = j
    · subst hj
      rw [update_self]
    · rw [update_of_ne hj]
  simp only [not_or] at hn
  have hv := (ok₁.reservedEnd hs).1
  rw [hval] at hv
  exact absurd hv hn.2.2.2.1

/-- A lend is taken. -/
theorem Ok.lendAcquire
    (h : w.table.lendAcquire handle identity = .ok table) : { w with table }.Ok := by
  obtain ⟨e, he, hk, rfl⟩ := lendAcquire_spec h
  have hocc := entry_occupied he
  have hf : w.table.Frame (· ≠ .resource) none (w.table.update handle fun e =>
      { e with lendCount := e.lendCount + 1 }) :=
    .update ok.table ok.counted he (by simp [hk]) (by simp [hk]) hocc rfl rfl rfl (fun _ => hk) none
  exact ok.frame hf

/-- A lend is given back. -/
theorem Ok.lendRelease
    (h : w.table.lendRelease handle identity = .ok table) : { w with table }.Ok := by
  obtain ⟨e, he, hk, rfl⟩ := lendRelease_spec h
  have hocc := entry_occupied he
  have hf : w.table.Frame (· ≠ .resource) none (w.table.update handle fun e =>
      { e with lendCount := e.lendCount - 1 }) :=
    .update ok.table ok.counted he (by simp [hk]) (by simp [hk]) hocc rfl rfl rfl (fun _ => hk) none
  exact ok.frame hf

theorem Ok.liftResource {borrow : Bool}
    (h : w.liftResource k handle identity borrow allocated = some w') : w'.Ok := by
  obtain ⟨hn, h⟩ := ite_none_pass h
  simp only [not_or] at hn
  have hnone : w.owners k = none := by simpa using hn.1
  have hset : ∀ {table : Table} {o : ResourceOwner}, { w with table }.Ok → o.scope = none →
      { w.putOwner k o with table }.Ok := by
    intro table o ok₁ hs
    refine ok₁.setOwner (fun x hx => ?_) fun x hx => ?_
    · rw [hnone] at hx
      cases hx
    · cases hx
      exact hs
  split at h
  · cases h
  rcases ite_cases h with ⟨_, h⟩ | ⟨_, h⟩
  · split at h
    · cases h
    rename_i table hl
    cases h
    exact hset (ok.lendAcquire hl) rfl
  split at h
  · cases h
  rename_i rep' table hl
  cases h
  obtain ⟨e, he, hk, -, -, -, rfl⟩ := takeOwned_spec hl
  have hf : w.table.Frame (· ≠ .resource) none (w.table.remove handle) :=
    .remove ok.table ok.counted he (by simp [hk]) none
  exact hset (ok.frame hf) rfl

theorem Ok.releaseResource (h : w.releaseResource k = some w') : w'.Ok := by
  unfold CodecWorld.releaseResource at h
  split at h
  · cases h
  rename_i o ho
  obtain ⟨hs, h⟩ := ite_none_pass h
  have hs : o.scope = none := by simpa using hs
  simp only [some.injEq] at h
  subst h
  have hset : ∀ {table : Table}, { w with table }.Ok →
      { w with table, owners := update w.owners k none }.Ok := by
    intro table ok₁
    refine ok₁.setOwner (fun x hx => ?_) fun x hx => ?_
    · have hx : w.owners k = some x := hx
      rw [ho] at hx
      cases hx
      exact hs
    · cases hx
  split
  · split
    · exact hset ok
    · rename_i table hl
      exact hset (ok.lendRelease hl)
  · exact hset ok

end

/-! ## 4. Lowering -/

theorem lowerResource_spec
    (h : w.lowerResource c k identity provided typed allocated = .ok (word, w')) :
    w' = w ∨ ∃ o table, w.owners k = some o ∧ o.scope = none ∧ o.committed = false ∧
      w.table.handleInsert .reservation k allocated = .ok (word, table) ∧
      w' = { w.putOwner k { o with
          reserved := word, reservedIdentity := identity, scope := some c } with
        table
        resourceHead := update w.resourceHead c (k :: w.resourceHead c) } := by
  unfold lowerResource at h
  split at h
  · cases h
  rename_i o ho
  obtain ⟨hn, h⟩ := ite_error_pass h
  obtain ⟨_, h⟩ := ite_error_pass h
  rcases ite_cases h with ⟨_, h⟩ | ⟨_, h⟩
  · split at h
    · cases h
      exact .inl rfl
    · cases h
  obtain ⟨_, h⟩ := ite_error_pass h
  obtain ⟨⟨handle, table⟩, hins, h⟩ := bind_eq_ok.mp h
  cases h
  simp only [not_or] at hn
  exact .inr ⟨o, table, ho, by simpa using hn.2.2, by simpa using hn.2.1, hins, rfl⟩

theorem lowerEndpoint_spec (h : w.lowerEndpoint c k typed allocated = .ok (word, w')) :
    ∃ table, (w.ends k).scope = none ∧ (w.ends k).valued ∧ (w.ends k).table = none ∧
      (w.ends k).closed = false ∧ (w.ends k).readable ∧
      w.table.handleInsert (w.ends k).kind k allocated = .ok (word, table) ∧
      w' = { w.putEnd k { w.ends k with scope := some c, lowerHandle := word } with
        table
        endpointHead := update w.endpointHead c (k :: w.endpointHead c) } := by
  obtain ⟨hn, h⟩ := ite_error_pass h
  rcases ite_cases h with ⟨_, h⟩ | ⟨hn', h⟩
  · cases h
  obtain ⟨⟨handle, table⟩, hins, h⟩ := bind_eq_ok.mp h
  cases h
  simp only [not_or] at hn hn'
  exact ⟨table, by simpa using hn'.1, by simpa using hn.2.1, by simpa using hn'.2,
    by simpa using hn.2.2.1, by simpa using hn.2.2.2, hins, rfl⟩

theorem Ok.lowerResource (ok : w.Ok) {provided : Bool}
    (h : w.lowerResource c k identity provided typed allocated = .ok (word, w')) : w'.Ok := by
  rcases lowerResource_spec h with rfl | ⟨o, table, ho, hs, hcm, hins, rfl⟩
  · exact ok
  obtain ⟨g, spec, hok, hc⟩ := handleInsert_counted ok.table ok.counted hins
  have ok₁ := ok.inserted spec hok hc
  have hr := ok.roster.push (k := k) (by simp [ho, hs]) c
  rw [← scope_putOwner w k { o with reserved := word, reservedIdentity := identity, scope := some c }]
    at hr
  refine { ok₁ with
    resources := fun c' j => (hr.mem c' j).trans bind_eq_some_iff
    nodup := hr.nodup
    reserved := fun {j c' o'} ho' hs' => ?_ }
  by_cases hj : j = k
  · subst hj
    simp only [putOwner, update_self, some.injEq] at ho'
    subst ho'
    exact ⟨hcm, g, by rw [spec.entry, if_pos rfl]; rfl⟩
  · simp only [putOwner, update_of_ne hj] at ho'
    exact ok₁.reserved ho' hs'

theorem Ok.lowerEndpoint (ok : w.Ok)
    (h : w.lowerEndpoint c k typed allocated = .ok (word, w')) : w'.Ok := by
  obtain ⟨table, hs, hv, ht, hcl, hr, hins, rfl⟩ := lowerEndpoint_spec h
  obtain ⟨g, spec, hok, hc⟩ := handleInsert_counted ok.table ok.counted hins
  have ok₁ := ok.inserted spec hok hc
  have hroster := ok.rosterEnds.push (k := k) hs c
  rw [← scope_putEnd w k { w.ends k with scope := some c, lowerHandle := word }] at hroster
  refine { ok₁ with
    endpoints := hroster.mem
    nodupEnds := hroster.nodup
    reservedEnd := fun {j c'} hs' => ?_ }
  by_cases hj : j = k
  · subst hj
    simp only [putEnd, update_self] at hs' ⊢
    exact ⟨hv, ht, hcl, hr, _, by rw [spec.entry, if_pos rfl], rfl, rfl⟩
  · simp only [putEnd, update_of_ne hj] at hs' ⊢
    exact ok₁.reservedEnd hs'

end CodecWorld

end TurboWasm
