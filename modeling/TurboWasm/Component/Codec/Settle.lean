/-
# Settling reservations

The loops of a commit and of a rollback walk the list of a codec and settle one reservation at a time.
`OwnersSettled` and `EndsSettled` say what a whole loop does, in terms of what it does to one record
and to the entry of its handle; both loops are instances of them by the same induction.
-/
import TurboWasm.Component.Codec.Invariant

namespace TurboWasm

open Lib List Option Function Table ResourceOwner

namespace CodecWorld

variable {w w' : CodecWorld} {c k : Nat} {ks : List Nat} {o : ResourceOwner} {table : Table}
  {claim : ResourceOwner → Bool}

/-! ## 1. Reservations have handles of their own -/

theorem Ok.reserved_ne (ok : w.Ok) (ho : w.owners k = some o)
    (hs : o.scope = some c) (ho' : w.owners j = some o') (hs' : o'.scope = some c') (hj : j ≠ k) :
    o'.reserved ≠ o.reserved := by
  intro heq
  obtain ⟨-, g, he⟩ := ok.reserved ho hs
  obtain ⟨-, g', he'⟩ := ok.reserved ho' hs'
  rw [heq, he] at he'
  have hobj := congrArg TableEntry.object (some.inj he')
  exact hj (some.inj hobj).symm

theorem Ok.lowerHandle_ne_reserved (ok : w.Ok) (ho : w.owners k = some o)
    (hs : o.scope = some c) (hs' : (w.ends j).scope = some c') :
    (w.ends j).lowerHandle ≠ o.reserved := by
  intro heq
  obtain ⟨-, g, he⟩ := ok.reserved ho hs
  obtain ⟨-, -, -, hr, e, he', hk, -⟩ := ok.reservedEnd hs'
  rw [heq, he] at he'
  cases he'
  rcases readable_kind hr with h | h <;> rw [h] at hk <;> cases hk

theorem Ok.lowerHandle_ne (ok : w.Ok) (hs : (w.ends k).scope = some c)
    (hs' : (w.ends j).scope = some c') (hj : j ≠ k) :
    (w.ends j).lowerHandle ≠ (w.ends k).lowerHandle := by
  intro heq
  obtain ⟨-, -, -, -, e, he, -, ho⟩ := ok.reservedEnd hs
  obtain ⟨-, -, -, -, e', he', -, ho'⟩ := ok.reservedEnd hs'
  rw [heq, he] at he'
  cases he'
  exact hj (some.inj (ho'.symm.trans ho))

/-! ## 2. One reservation -/

/-- The first resource of a codec is settled. -/
def settleOwner (w : CodecWorld) (c k : Nat) (ks : List Nat) (o : ResourceOwner) (table : Table) :
    CodecWorld :=
  { w.putOwner k o with table, resourceHead := update w.resourceHead c ks }

/-- The first end of a codec is settled. -/
def settleEnd (w : CodecWorld) (c k : Nat) (ks : List Nat) (e : CodecEnd) (table : Table) :
    CodecWorld :=
  { w.putEnd k e with table, endpointHead := update w.endpointHead c ks }

/-- The owner at the head of a list. -/
theorem Ok.head_owner (ok : w.Ok) (hh : w.resourceHead c = k :: ks) :
    ∃ o, w.owners k = some o ∧ o.scope = some c :=
  (ok.resources c k).mp (by rw [hh]; exact mem_cons_self ..)

theorem Ok.head_end (ok : w.Ok) (hh : w.endpointHead c = k :: ks) : (w.ends k).scope = some c :=
  (ok.endpoints c k).mp (by rw [hh]; exact mem_cons_self ..)

theorem Ok.settleOwner (ok : w.Ok) (hh : w.resourceHead c = k :: ks) (ho : w.owners k = some o)
    (hnew : o'.scope = none) (hok : table.Ok) (hc : table.Counted)
    (hent : ∀ h, h ≠ o.reserved → table.entry h = w.table.entry h) :
    (w.settleOwner c k ks o' table).Ok := by
  obtain ⟨x, hx, hs⟩ := ok.head_owner hh
  cases ho.symm.trans hx
  have hroster := ok.roster.pop hh
  rw [← hnew, ← scope_putOwner] at hroster
  have hupd : ∀ {j : Nat}, j ≠ k → (w.settleOwner c k ks o' table).owners j = w.owners j :=
    fun hj => update_of_ne hj ..
  refine { ok with
    table := hok
    counted := hc
    resources := fun c' j => (hroster.mem c' j).trans bind_eq_some_iff
    nodup := hroster.nodup
    reserved := fun {j c' x} hx hxs => ?_
    reservedEnd := fun {j c'} hs' => ?_ }
  · have hj : j ≠ k := by
      rintro rfl
      have hx : update w.owners j (some o') j = some x := hx
      rw [update_self] at hx
      cases hx
      rw [hnew] at hxs
      cases hxs
    rw [hupd hj] at hx
    obtain ⟨hcm, g, he⟩ := ok.reserved hx hxs
    exact ⟨hcm, g, (hent _ (ok.reserved_ne ho hs hx hxs hj)).trans he⟩
  · obtain ⟨hv, ht, hcl, hr, e, he, hk⟩ := ok.reservedEnd hs'
    exact ⟨hv, ht, hcl, hr, e, (hent _ (ok.lowerHandle_ne_reserved ho hs hs')).trans he, hk⟩

theorem Ok.settleEnd (ok : w.Ok) (hh : w.endpointHead c = k :: ks) {e : CodecEnd}
    (hnew : e.scope = none) (hok : table.Ok) (hc : table.Counted)
    (hent : ∀ h, h ≠ (w.ends k).lowerHandle → table.entry h = w.table.entry h) :
    (w.settleEnd c k ks e table).Ok := by
  have hs := ok.head_end hh
  have hroster := ok.rosterEnds.pop hh
  rw [← hnew, ← scope_putEnd] at hroster
  have hself : (w.settleEnd c k ks e table).ends k = e := update_self ..
  have hupd : ∀ {j : Nat}, j ≠ k → (w.settleEnd c k ks e table).ends j = w.ends j :=
    fun hj => update_of_ne hj ..
  refine { ok with
    table := hok
    counted := hc
    reserved := fun {j c' x} hx hxs => ?_
    endpoints := hroster.mem
    nodupEnds := hroster.nodup
    reservedEnd := fun {j c'} hs' => ?_ }
  · obtain ⟨hcm, g, he⟩ := ok.reserved hx hxs
    exact ⟨hcm, g, (hent _ (ok.lowerHandle_ne_reserved hx hxs hs).symm).trans he⟩
  have hj : j ≠ k := by
    rintro rfl
    rw [hself, hnew] at hs'
    cases hs'
  rw [hupd hj] at hs' ⊢
  obtain ⟨hv, ht, hcl, hr, x, hx, hk⟩ := ok.reservedEnd hs'
  exact ⟨hv, ht, hcl, hr, x, (hent _ (ok.lowerHandle_ne hs hs' hj)).trans hx, hk⟩

/-! ## 3. Whole lists -/

/-- The number of resources in a list that claim a counter when they are settled. -/
def claiming (w : CodecWorld) (claim : ResourceOwner → Bool) (ks : List Nat) : Nat :=
  ks.countP fun k => (w.owners k).any claim

theorem claiming_cons (ho : w.owners k = some o) :
    w.claiming claim (k :: ks) = w.claiming claim ks + if claim o then 1 else 0 := by
  simp [claiming, countP_cons, ho]

theorem claiming_congr (h : ∀ j ∈ ks, w'.owners j = w.owners j) :
    w'.claiming claim ks = w.claiming claim ks := by
  refine countP_congr fun j hj => ?_
  rw [h j hj]

/-- Every reserved resource of `c` was settled: its record became `after` of it, the entry of its
handle is as `new` says, and a `claim` counts for the task of the codec. -/
structure OwnersSettled (after : ResourceOwner → ResourceOwner) (claim : ResourceOwner → Bool)
    (new : ResourceOwner → Option TableEntry → Prop) (w : CodecWorld) (c : Nat) (w' : CodecWorld) :
    Prop where
  ok : w'.Ok
  owners : ∀ k, w'.owners k =
    if k ∈ w.resourceHead c then (w.owners k).map after else w.owners k
  entry : ∀ k ∈ w.resourceHead c, ∀ o, w.owners k = some o → new o (w'.table.entry o.reserved)
  other : ∀ h, (∀ k ∈ w.resourceHead c, ∀ o, w.owners k = some o → h ≠ o.reserved) →
    w'.table.entry h = w.table.entry h
  scopes : ∀ s, w'.table.scopes s = w.table.scopes s +
    if w.borrowScope c = some s then w.claiming claim (w.resourceHead c) else 0
  resourceHead : w'.resourceHead = update w.resourceHead c []
  rest : w'.ends = w.ends ∧ w'.endpointHead = w.endpointHead ∧ w'.address = w.address ∧
    w'.borrowScope = w.borrowScope ∧ w'.destroying = w.destroying

section OwnersSettled

variable {after : ResourceOwner → ResourceOwner}
  {new : ResourceOwner → Option TableEntry → Prop}

theorem OwnersSettled.nil (ok : w.Ok) (hh : w.resourceHead c = []) :
    OwnersSettled after claim new w c w where
  ok := ok
  owners k := by rw [hh, if_neg (not_mem_nil)]
  entry k hk := by
    rw [hh] at hk
    cases hk
  other h _ := rfl
  scopes s := by simp [hh, claiming]
  resourceHead := by rw [← hh, update_eq_self]
  rest := ⟨rfl, rfl, rfl, rfl, rfl⟩

theorem OwnersSettled.cons (ok : w.Ok) (hh : w.resourceHead c = k :: ks) (ho : w.owners k = some o)
    (hent : ∀ h, table.entry h = if h = o.reserved then x else w.table.entry h) (hx : new o x)
    (hscopes : ∀ s, table.scopes s = w.table.scopes s +
      if w.borrowScope c = some s ∧ claim o then 1 else 0)
    (hrest : OwnersSettled after claim new (w.settleOwner c k ks (after o) table) c w') :
    OwnersSettled after claim new w c w' := by
  have hhead : (w.settleOwner c k ks (after o) table).resourceHead c = ks :=
    update_self ..
  have hnot : k ∉ ks := (nodup_cons.mp (hh ▸ ok.nodup c)).1
  have hupd : ∀ {j : Nat}, j ≠ k → (w.settleOwner c k ks (after o) table).owners j = w.owners j :=
    fun hj => update_of_ne hj ..
  have hne : ∀ {j : Nat}, j ∈ ks → j ≠ k := fun hm heq => hnot (heq ▸ hm)
  obtain ⟨o₁, ho₁, hs⟩ := ok.head_owner hh
  cases ho.symm.trans ho₁
  -- the handles of the other reservations are other handles
  have hapart : ∀ j ∈ ks, ∀ o', w.owners j = some o' → o.reserved ≠ o'.reserved := by
    intro j hj o' ho'
    obtain ⟨y, hy, hys⟩ := (ok.resources c j).mp (by rw [hh]; exact mem_cons_of_mem _ hj)
    cases ho'.symm.trans hy
    exact (ok.reserved_ne ho hs ho' hys (hne hj)).symm
  refine ⟨hrest.ok, fun j => ?_, fun j hj o' ho' => ?_, fun h hnone => ?_, fun s => ?_, ?_,
    hrest.rest⟩
  · rw [hrest.owners j, hhead, hh]
    by_cases hj : j = k
    · subst hj
      rw [if_neg hnot, if_pos (mem_cons_self ..), ho]
      exact update_self ..
    · rw [hupd hj]
      by_cases hm : j ∈ ks
      · rw [if_pos hm, if_pos (mem_cons_of_mem _ hm)]
      · rw [if_neg hm, if_neg (by simp [hj, hm])]
  · rw [hh] at hj
    rcases mem_cons.mp hj with rfl | hj
    · cases ho.symm.trans ho'
      rw [hrest.other o.reserved, show (w.settleOwner c j ks (after o) table).table = table from rfl,
        hent, if_pos rfl]
      · exact hx
      · intro i hi oi hoi
        rw [hhead] at hi
        rw [hupd (hne hi)] at hoi
        exact hapart i hi oi hoi
    · refine hrest.entry j (by rw [hhead]; exact hj) o' ?_
      rwa [hupd (hne hj)]
  · rw [hrest.other h fun j hj o' ho' => ?_]
    · exact (hent h).trans (if_neg (hnone k (by rw [hh]; exact mem_cons_self ..) o ho))
    · rw [hhead] at hj
      rw [hupd (hne hj)] at ho'
      exact hnone j (by rw [hh]; exact mem_cons_of_mem _ hj) o' ho'
  · rw [hrest.scopes s, hhead, claiming_congr fun j hj => hupd (hne hj), hh, claiming_cons ho]
    have := hscopes s
    simp only [settleOwner, putOwner] at this ⊢
    rw [this]
    by_cases hb : w.borrowScope c = some s
    · simp only [hb, true_and, if_true]
      omega
    · simp [hb]
  · rw [hrest.resourceHead]
    simp [settleOwner]

end OwnersSettled

/-- Every reserved end of `c` was settled: its record became `after` of it, and the entry of its
handle `new` of it. -/
structure EndsSettled (after : CodecEnd → CodecEnd)
    (new : Option TableEntry → Option TableEntry) (w : CodecWorld) (c : Nat) (w' : CodecWorld) :
    Prop where
  ok : w'.Ok
  ends : ∀ k, w'.ends k = if k ∈ w.endpointHead c then after (w.ends k) else w.ends k
  entry : ∀ k ∈ w.endpointHead c, w'.table.entry (w.ends k).lowerHandle =
    new (w.table.entry (w.ends k).lowerHandle)
  other : ∀ h, (∀ k ∈ w.endpointHead c, h ≠ (w.ends k).lowerHandle) →
    w'.table.entry h = w.table.entry h
  scopes : w'.table.scopes = w.table.scopes
  endpointHead : w'.endpointHead = update w.endpointHead c []
  rest : w'.owners = w.owners ∧ w'.resourceHead = w.resourceHead ∧ w'.address = w.address ∧
    w'.borrowScope = w.borrowScope ∧ w'.destroying = w.destroying

section EndsSettled

variable {after : CodecEnd → CodecEnd}

theorem EndsSettled.nil (ok : w.Ok) (hh : w.endpointHead c = []) :
    EndsSettled after new w c w where
  ok := ok
  ends k := by rw [hh, if_neg (not_mem_nil)]
  entry k hk := by
    rw [hh] at hk
    cases hk
  other h _ := rfl
  scopes := rfl
  endpointHead := by rw [← hh, update_eq_self]
  rest := ⟨rfl, rfl, rfl, rfl, rfl⟩

theorem EndsSettled.cons (ok : w.Ok) (hh : w.endpointHead c = k :: ks)
    (hent : ∀ h, table.entry h =
      if h = (w.ends k).lowerHandle then new (w.table.entry h) else w.table.entry h)
    (hscopes : table.scopes = w.table.scopes)
    (hrest : EndsSettled after new (w.settleEnd c k ks (after (w.ends k)) table) c w') :
    EndsSettled after new w c w' := by
  have hhead : (w.settleEnd c k ks (after (w.ends k)) table).endpointHead c = ks :=
    update_self ..
  have hnot : k ∉ ks := (nodup_cons.mp (hh ▸ ok.nodupEnds c)).1
  have hupd : ∀ {j : Nat}, j ≠ k →
      (w.settleEnd c k ks (after (w.ends k)) table).ends j = w.ends j :=
    fun hj => update_of_ne hj ..
  have hne : ∀ {j : Nat}, j ∈ ks → j ≠ k := fun hm heq => hnot (heq ▸ hm)
  have hs := ok.head_end hh
  have hapart : ∀ j ∈ ks, (w.ends j).lowerHandle ≠ (w.ends k).lowerHandle := by
    intro j hj
    have hsj := (ok.endpoints c j).mp (by rw [hh]; exact mem_cons_of_mem _ hj)
    exact ok.lowerHandle_ne hs hsj (hne hj)
  have htab : (w.settleEnd c k ks (after (w.ends k)) table).table = table := rfl
  refine ⟨hrest.ok, fun j => ?_, fun j hj => ?_, fun h hnone => ?_, hrest.scopes.trans hscopes, ?_,
    hrest.rest⟩
  · rw [hrest.ends j, hhead, hh]
    by_cases hj : j = k
    · subst hj
      rw [if_neg hnot, if_pos (mem_cons_self ..)]
      exact update_self ..
    · rw [hupd hj]
      by_cases hm : j ∈ ks
      · rw [if_pos hm, if_pos (mem_cons_of_mem _ hm)]
      · rw [if_neg hm, if_neg (by simp [hj, hm])]
  · rw [hh] at hj
    rcases mem_cons.mp hj with rfl | hj
    · rw [hrest.other, htab, hent, if_pos rfl]
      intro i hi
      rw [hhead] at hi
      rw [hupd (hne hi)]
      exact (hapart i hi).symm
    · have := hrest.entry j (by rw [hhead]; exact hj)
      rwa [hupd (hne hj), htab, hent, if_neg (hapart j hj)] at this
  · rw [hrest.other h fun j hj => ?_]
    · exact (hent h).trans (if_neg (hnone k (by rw [hh]; exact mem_cons_self ..)))
    · rw [hhead] at hj
      rw [hupd (hne hj)]
      exact hnone j (by rw [hh]; exact mem_cons_of_mem _ hj)
  · rw [hrest.endpointHead]
    simp [settleEnd]

end EndsSettled

/-! ## 4. The loops of a rollback -/

/-- The entry of a reservation claims no counter. -/
theorem scopes_remove {t : Table} {e : TableEntry} (hc : t.Counted)
    (he : t.entry handle = some e) (hk : e.kind ≠ .resource) :
    (t.remove handle).scopes = t.scopes := by
  have hnone : e.scope = none := by
    cases hs : e.scope with
    | none => rfl
    | some s => exact absurd (hc.kinds e (mem_of_entry he) (by simp [hs])) hk
  unfold remove
  rw [he]
  simp only [hnone]
  rfl

/-- The reserved handle of an owner is removed. -/
def OwnersUndone : CodecWorld → Nat → CodecWorld → Prop :=
  OwnersSettled ResourceOwner.takeBack (fun _ => false) fun _ e => e = none

theorem rollbackOwners_spec : ∀ {ks : List Nat} {w : CodecWorld}, w.Ok → w.resourceHead c = ks →
    ∃ w', w.rollbackOwners c ks = (none, w') ∧ OwnersUndone w c w' := by
  intro ks
  induction ks with
  | nil =>
    intro w ok hh
    exact ⟨w, rfl, .nil ok hh⟩
  | cons k ks ih =>
    intro w ok hh
    obtain ⟨o, ho, hs⟩ := ok.head_owner hh
    obtain ⟨-, g, he⟩ := ok.reserved ho hs
    have hrem : w.table.handleRemove o.reserved .reservation =
        .ok (some k, w.table.remove o.reserved) := by
      simp [handleRemove, he, reservation]
    have ok₁ : (w.settleOwner c k ks (ResourceOwner.takeBack o) (w.table.remove o.reserved)).Ok :=
      ok.settleOwner hh ho rfl (ok.table.remove _) (ok.counted.remove ok.table _)
        fun h hne => by rw [entry_remove he, if_neg hne]
    obtain ⟨w', hw', hrest⟩ := ih ok₁ (update_self ..)
    refine ⟨w', ?_, .cons ok hh ho (x := none) (entry_remove he) rfl (fun s => ?_)
      hrest⟩
    · simp only [rollbackOwners, ho, hrem]
      simp only [settleOwner] at hw'
      rw [hw']
      rfl
    · rw [scopes_remove ok.counted he (by simp [reservation])]
      simp

/-- The end after its reservation was undone. -/
def CodecEnd.takeBack (e : CodecEnd) : CodecEnd := { e with scope := none, lowerHandle := 0 }

/-- The reserved handle of an end is removed. -/
def EndsUndone : CodecWorld → Nat → CodecWorld → Prop := EndsSettled CodecEnd.takeBack fun _ => none

theorem rollbackEnds_spec : ∀ {ks : List Nat} {w : CodecWorld}, w.Ok → w.endpointHead c = ks →
    ∃ w', w.rollbackEnds c ks = (none, w') ∧ EndsUndone w c w' := by
  intro ks
  induction ks with
  | nil =>
    intro w ok hh
    exact ⟨w, rfl, .nil ok hh⟩
  | cons k ks ih =>
    intro w ok hh
    have hs := ok.head_end hh
    obtain ⟨-, -, -, hr, e, he, hk, hobj⟩ := ok.reservedEnd hs
    have hne : (w.ends k).kind ≠ .resource := by
      rcases readable_kind hr with h | h <;> rw [h] <;> simp
    have hrem : w.table.handleRemove (w.ends k).lowerHandle (w.ends k).kind =
        .ok (some k, w.table.remove (w.ends k).lowerHandle) := by
      simp [handleRemove, he, hne, hk, hobj]
    have ok₁ : (w.settleEnd c k ks (CodecEnd.takeBack (w.ends k))
        (w.table.remove (w.ends k).lowerHandle)).Ok :=
      ok.settleEnd hh rfl (ok.table.remove _) (ok.counted.remove ok.table _)
        fun h hne => by rw [entry_remove he, if_neg hne]
    obtain ⟨w', hw', hrest⟩ := ih ok₁ (update_self ..)
    refine ⟨w', ?_, .cons ok hh (entry_remove he)
      (scopes_remove ok.counted he (hk ▸ hne)) hrest⟩
    simp only [rollbackEnds, hrem]
    exact hw'

/-- The ends that a rollback finds are ready. -/
theorem Ok.endReady (ok : w.Ok) (hk : k ∈ w.endpointHead c) : w.endReady c false k := by
  have hs := (ok.endpoints c k).mp hk
  obtain ⟨hv, ht, -, hr, e, he, hkind, hobj⟩ := ok.reservedEnd hs
  have hne : (w.ends k).kind ≠ .resource := by
    rcases readable_kind hr with h | h <;> rw [h] <;> simp
  have hobj' : w.table.handleObject (w.ends k).lowerHandle (w.ends k).kind = some k :=
    handleObject_eq_some.mpr ⟨e, he, hkind, hne, hobj⟩
  simp [CodecWorld.endReady, hs, hv, ht, hobj']

/-! ## 5. The loops of a commit -/

/-- The entry of a resource that was published. -/
structure PublishedEntry (scope : Option Nat) (o : ResourceOwner) (x : TableEntry) : Prop where
  kind : x.kind = .resource
  identity : x.identity = o.reservedIdentity
  rep : x.rep = o.rep
  owned : x.owned = !o.borrowed
  scope : x.scope = if o.borrowed then scope else none
  lendCount : x.lendCount = 0

/-- The reserved handle of an owner is published. -/
def OwnersPublished (w : CodecWorld) (c : Nat) : CodecWorld → Prop :=
  OwnersSettled ResourceOwner.handOver (·.borrowed)
    (fun o e => ∃ x, e = some x ∧ PublishedEntry (w.borrowScope c) o x) w c

/-- What the preflight has seen of one owner. -/
structure Ready (w : CodecWorld) (c : Nat) (o : ResourceOwner) : Prop where
  identity : o.reservedIdentity ≠ 0
  rep : validRep o.rep
  scope : o.borrowed → ∃ s, w.borrowScope c = some s

theorem preflightOwners_spec : ∀ {ks : List Nat} {n : Nat}, w.preflightOwners c ks n = none →
    (∀ k ∈ ks, ∀ o, w.owners k = some o → w.Ready c o) ∧
    ∀ s, w.borrowScope c = some s → n + w.table.scopes s ≤ uint32Max →
      n + w.claiming (·.borrowed) ks + w.table.scopes s ≤ uint32Max := by
  intro ks
  induction ks with
  | nil =>
    intro n _
    simp [claiming]
  | cons k ks ih =>
    intro n h
    simp only [preflightOwners] at h
    split at h
    · cases h
    rename_i o ho
    obtain ⟨hn, h⟩ := ite_some_pass h
    simp only [not_or] at hn
    obtain ⟨-, -, hid, hrep, -⟩ := hn
    have hrep : validRep o.rep := by simpa using hrep
    rcases ite_cases h with ⟨hb, h⟩ | ⟨hb, h⟩
    · -- a borrow claims the counter
      split at h
      · cases h
      rename_i s hsc
      obtain ⟨_, h⟩ := ite_some_pass h
      obtain ⟨hmax, h⟩ := ite_some_pass h
      obtain ⟨hready, hcount⟩ := ih h
      refine ⟨fun j hj o' ho' => ?_, fun s' hs' hle => ?_⟩
      · rcases mem_cons.mp hj with rfl | hj
        · cases ho.symm.trans ho'
          exact ⟨hid, hrep, fun _ => ⟨s, hsc⟩⟩
        · exact hready j hj o' ho'
      · cases hsc.symm.trans hs'
        have := hcount s hsc (by omega)
        rw [claiming_cons ho, if_pos hb]
        omega
    · obtain ⟨hready, hcount⟩ := ih h
      refine ⟨fun j hj o' ho' => ?_, fun s' hs' hle => ?_⟩
      · rcases mem_cons.mp hj with rfl | hj
        · cases ho.symm.trans ho'
          exact ⟨hid, hrep, fun hb' => absurd hb' hb⟩
        · exact hready j hj o' ho'
      · rw [claiming_cons ho, if_neg hb]
        exact hcount s' hs' hle

/-- A reservation that is ready is published. -/
theorem Ok.publishOwner (ok : w.Ok) (ho : w.owners k = some o) (hs : o.scope = some c)
    (hr : w.Ready c o)
    (hroom : ∀ s, o.borrowed → w.borrowScope c = some s → w.table.scopes s < uint32Max) :
    ∃ table x, w.publishOwner c k o = .ok table ∧ table.Ok ∧ table.Counted ∧
      (∀ h, table.entry h = if h = o.reserved then some x else w.table.entry h) ∧
      PublishedEntry (w.borrowScope c) o x ∧
      ∀ s, table.scopes s = w.table.scopes s +
        if w.borrowScope c = some s ∧ o.borrowed then 1 else 0 := by
  obtain ⟨-, g, he⟩ := ok.reserved ho hs
  obtain ⟨t₁, hpub⟩ : ∃ t₁, w.table.publish o.reserved k o.reservedIdentity o.rep = .ok t₁ := by
    simp [publish, hr.identity, hr.rep, he, reservation]
  by_cases hb : o.borrowed
  · obtain ⟨s, hsc⟩ := hr.scope hb
    obtain ⟨t₂, hpub₂⟩ :
        ∃ t₂, w.table.publishBorrowed o.reserved k o.reservedIdentity o.rep s = .ok t₂ := by
      simp [publishBorrowed, hpub, (hroom s hb hsc).ne, bind, Except.bind]
    obtain ⟨e, he', -, -, hok, hscopes, hent⟩ := publishBorrowed_entry ok.table hpub₂
    cases he.symm.trans he'
    refine ⟨t₂, _, ?_, hok, ok.counted.publishBorrowed hpub₂, hent, ?_, fun s' => ?_⟩
    · simp only [CodecWorld.publishOwner, hb, hsc]
      exact hpub₂
    · exact ⟨rfl, rfl, rfl, by simp [Table.borrowed, hb], by simp [Table.borrowed, hb, hsc], rfl⟩
    · rw [hscopes, hsc]
      by_cases hss : s' = s
      · subst hss
        simp [hb]
      · simp [hss, Ne.symm hss]
  · obtain ⟨e, he', -, -, hok, hscopes, hent⟩ := publish_entry ok.table hpub
    cases he.symm.trans he'
    refine ⟨t₁, _, ?_, hok, ok.counted.publish hpub, hent, ?_, fun s' => ?_⟩
    · simp only [CodecWorld.publishOwner, hb]
      exact hpub
    · exact ⟨rfl, rfl, rfl, by simp [hb], by simp [hb, reservation, fresh], rfl⟩
    · rw [hscopes]
      simp [hb]

theorem commitOwners_spec : ∀ {ks : List Nat} {w : CodecWorld}, w.Ok → w.resourceHead c = ks →
    (∀ k ∈ ks, ∀ o, w.owners k = some o → w.Ready c o) → (∀ s, w.borrowScope c = some s →
      w.claiming (·.borrowed) ks + w.table.scopes s ≤ uint32Max) →
    ∃ w', w.commitOwners c ks = (none, w') ∧ w.OwnersPublished c w' := by
  intro ks
  induction ks with
  | nil =>
    intro w ok hh _ _
    exact ⟨w, rfl, .nil ok hh⟩
  | cons k ks ih =>
    intro w ok hh hready hcount
    obtain ⟨o, ho, hs⟩ := ok.head_owner hh
    obtain ⟨table, x, hpub, hok, hc, hent, hx, hscopes⟩ :=
      ok.publishOwner ho hs (hready k (mem_cons_self ..) o ho) fun s hb hsc => by
        have := hcount s hsc
        rw [claiming_cons ho, if_pos hb] at this
        omega
    have ok₁ : (w.settleOwner c k ks (ResourceOwner.handOver o) table).Ok :=
      ok.settleOwner hh ho rfl hok hc fun h hne => by rw [hent, if_neg hne]
    have hnot : k ∉ ks := (nodup_cons.mp (hh ▸ ok.nodup c)).1
    have hupd : ∀ j ∈ ks,
        (w.settleOwner c k ks (ResourceOwner.handOver o) table).owners j = w.owners j :=
      fun j hj => update_of_ne (ne_of_mem_of_not_mem hj hnot) ..
    -- what the preflight has seen holds for the rest of the list
    obtain ⟨w', hw', hrest⟩ := ih ok₁ (update_self ..)
      (fun j hj o' ho' => by
        rw [hupd j hj] at ho'
        have := hready j (mem_cons_of_mem _ hj) o' ho'
        exact ⟨this.identity, this.rep, this.scope⟩)
      (fun s hsc => by
        have hle := hcount s hsc
        have hsc' : w.borrowScope c = some s := hsc
        have hts := hscopes s
        rw [claiming_cons ho] at hle
        rw [claiming_congr hupd]
        show _ + table.scopes s ≤ _
        rw [hts]
        by_cases hb : o.borrowed
        · rw [if_pos hb] at hle
          rw [if_pos ⟨hsc', hb⟩]
          omega
        · rw [if_neg hb] at hle
          rw [if_neg (by simp [hb])]
          omega)
    refine ⟨w', ?_, .cons ok hh ho hent ⟨x, rfl, hx⟩ hscopes hrest⟩
    simp only [commitOwners, ho, hpub]
    exact hw'

theorem commitEnds_spec : ∀ {ks : List Nat} {w : CodecWorld}, w.Ok → w.endpointHead c = ks →
    EndsSettled w.publishedEnd id w c (w.commitEnds c ks) := by
  intro ks
  induction ks with
  | nil =>
    intro w ok hh
    exact .nil ok hh
  | cons k ks ih =>
    intro w ok hh
    have ok₁ : (w.settleEnd c k ks (w.publishedEnd (w.ends k)) w.table).Ok :=
      ok.settleEnd hh rfl ok.table ok.counted fun h _ => rfl
    refine .cons ok hh (fun h => by split <;> rfl) rfl ?_
    exact ih ok₁ (update_self ..)

end CodecWorld

end TurboWasm
