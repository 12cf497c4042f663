/-
# The transaction

In every run the reservations of a codec are isolated, a commit publishes all of them or none, and a
rollback removes them and nothing else.  So a batch that fails after any number of lowerings leaves
the handles, the counters and the owners as they were before its first lowering.
-/
import TurboWasm.Component.Codec.Settle

namespace TurboWasm

open Lib Relation List Function ResourceOwner CodecWorld CodecEnd

namespace CodecWorld

variable {w w' w₁ w₂ : CodecWorld} {c k : Nat} {o : ResourceOwner}

/-! ## 1. What a commit and a rollback do -/

/-- What both leave alone: the handles and owners that are not reserved by the codec. -/
structure Outside (w : CodecWorld) (c : Nat) (w' : CodecWorld) : Prop where
  entry : ∀ h, ¬ w.ReservedBy c h → w'.table.entry h = w.table.entry h
  owner : ∀ k, (∀ o, w.owners k = some o → o.scope ≠ some c) → w'.owners k = w.owners k
  ends : ∀ k, (w.ends k).scope ≠ some c → w'.ends k = w.ends k
  heads : w'.resourceHead = update w.resourceHead c [] ∧
    w'.endpointHead = update w.endpointHead c []

/-- **A commit that succeeds**: every reserved handle is live, and its value has left its owner. -/
structure Published (w : CodecWorld) (c : Nat) (w' : CodecWorld) : Prop where
  /-- The owner has given the representation away (`committed`), and the handle finds it. -/
  resource : ∀ k o, w.owners k = some o → o.scope = some c →
    w'.owners k = some (ResourceOwner.handOver o) ∧
    w'.table.resourceRep o.reserved o.reservedIdentity = .ok o.rep ∧
    ∃ x, w'.table.entry o.reserved = some x ∧ PublishedEntry (w.borrowScope c) o x
  /-- The end is no value any more, and the handle finds it. -/
  endpoint : ∀ k, (w.ends k).scope = some c → w'.ends k = w.publishedEnd (w.ends k) ∧
    w'.endpointGet (w.ends k).lowerHandle (w.ends k).kind = some k
  /-- No two values share a handle. -/
  distinct : (∀ k j o o', w.owners k = some o → w.owners j = some o' → o.scope = some c →
      o'.scope = some c → o'.reserved = o.reserved → j = k) ∧
    ∀ k j, (w.ends k).scope = some c → (w.ends j).scope = some c →
      (w.ends j).lowerHandle = (w.ends k).lowerHandle → j = k
  /-- The task counts its borrows. -/
  scopes : ∀ s, w'.table.scopes s = w.table.scopes s +
    if w.borrowScope c = some s then w.claiming (·.borrowed) (w.resourceHead c) else 0
  outside : w.Outside c w'

/-- **A rollback**: the reserved handles are free and the values are with their owners. -/
structure Undone (w : CodecWorld) (c : Nat) (w' : CodecWorld) : Prop where
  resource : ∀ k o, w.owners k = some o → o.scope = some c →
    w'.owners k = some (ResourceOwner.takeBack o)
  endpoint : ∀ k, (w.ends k).scope = some c → w'.ends k = takeBack (w.ends k)
  released : ∀ h, w.ReservedBy c h → w'.table.entry h = none
  scopes : w'.table.scopes = w.table.scopes
  outside : w.Outside c w'

section Settled

variable {after : CodecEnd → CodecEnd}

/-- Both loops settle the reservations of the codec and no others. -/
theorem Outside.of_settled (ok : w.Ok) (he : EndsSettled after new w c w₁)
    (ho : OwnersSettled afterOwner claim newOwner w₁ c w') : w.Outside c w' := by
  obtain ⟨howners, hhead, -, -, -⟩ := he.rest
  obtain ⟨hends, hehead, -, -, -⟩ := ho.rest
  refine ⟨fun h hn => ?_, fun k hk => ?_, fun k hk => ?_, ?_, ?_⟩
  · rw [ho.other h, he.other h]
    · rintro k hm rfl
      exact hn (.inr ⟨k, (ok.endpoints c k).mp hm, rfl⟩)
    · rintro k hm o hk rfl
      rw [hhead] at hm
      rw [howners] at hk
      obtain ⟨o', ho', hs⟩ := (ok.resources c k).mp hm
      cases hk.symm.trans ho'
      exact hn (.inl ⟨k, o, hk, hs, rfl⟩)
  · rw [ho.owners, hhead, howners, if_neg]
    intro hm
    obtain ⟨o, ho', hs⟩ := (ok.resources c k).mp hm
    exact hk o ho' hs
  · rw [hends, he.ends, if_neg]
    intro hm
    exact hk ((ok.endpoints c k).mp hm)
  · rw [ho.resourceHead, hhead]
  · rw [hehead, he.endpointHead]

/-- The record of a reserved resource. -/
theorem OwnersSettled.resource (ok : w.Ok) (he : EndsSettled after new w c w₁)
    (ho : OwnersSettled afterOwner claim newOwner w₁ c w') (hk : w.owners k = some o)
    (hs : o.scope = some c) :
    w'.owners k = some (afterOwner o) ∧ newOwner o (w'.table.entry o.reserved) := by
  obtain ⟨howners, hhead, -, -, -⟩ := he.rest
  have hm : k ∈ w₁.resourceHead c := by
    rw [hhead]
    exact (ok.resources c k).mpr ⟨o, hk, hs⟩
  rw [← howners] at hk
  refine ⟨?_, ho.entry k hm o hk⟩
  rw [ho.owners, if_pos hm, hk]
  rfl

/-- The record of a reserved end. -/
theorem OwnersSettled.endpoint (ok : w.Ok) (he : EndsSettled after new w c w₁)
    (ho : OwnersSettled afterOwner claim newOwner w₁ c w') (hs : (w.ends k).scope = some c) :
    w'.ends k = after (w.ends k) ∧ w'.table.entry (w.ends k).lowerHandle =
      new (w.table.entry (w.ends k).lowerHandle) := by
  obtain ⟨howners, hhead, -, -, -⟩ := he.rest
  have hm : k ∈ w.endpointHead c := (ok.endpoints c k).mpr hs
  refine ⟨?_, ?_⟩
  · rw [ho.rest.1, he.ends, if_pos hm]
  rw [ho.other, he.entry k hm]
  intro j hj o hoj
  rw [hhead] at hj
  rw [howners] at hoj
  obtain ⟨o', ho', hs'⟩ := (ok.resources c j).mp hj
  cases hoj.symm.trans ho'
  exact ok.lowerHandle_ne_reserved hoj hs' hs

end Settled

/-- **A rollback always succeeds.** -/
theorem Ok.rollbackBuffer (ok : w.Ok) (c : Nat) :
    ∃ w', w.rollbackBuffer c = (none, w') ∧ w'.Ok ∧ w.Undone c w' := by
  obtain ⟨w₁, hends, he⟩ := rollbackEnds_spec (c := c) ok rfl
  obtain ⟨w', howners, ho⟩ := rollbackOwners_spec (c := c) he.ok rfl
  have hall : w.rollbackEndpoints c = (none, w₁) := by
    unfold rollbackEndpoints
    rwa [if_pos (all_eq_true.mpr fun k hk => ok.endReady hk)]
  refine ⟨w', ?_, ho.ok, ⟨fun k o hk hs => (ho.resource ok he hk hs).1,
    fun k hs => (ho.endpoint ok he hs).1, ?_, ?_, .of_settled ok he ho⟩⟩
  · simp only [CodecWorld.rollbackBuffer, hall, howners]
    rfl
  · rintro h (⟨k, o, hk, hs, rfl⟩ | ⟨k, hs, rfl⟩)
    · exact (ho.resource ok he hk hs).2
    · exact (ho.endpoint ok he hs).2
  · funext s
    rw [ho.scopes, he.scopes]
    simp [claiming]

/-- A commit of ends leaves the table and the owners alone. -/
theorem commitEnds_table : (w.commitEnds c ks).table = w.table := by
  induction ks generalizing w with
  | nil => rfl
  | cons k ks ih => exact ih

theorem preflightOwners_congr (howners : w'.owners = w.owners) (htable : w'.table = w.table)
    (hscope : w'.borrowScope = w.borrowScope) (hdes : w'.destroying = w.destroying) :
    ∀ {ks : List Nat} {n : Nat}, w'.preflightOwners c ks n = w.preflightOwners c ks n := by
  intro ks
  induction ks with
  | nil =>
    intro n
    rfl
  | cons k ks ih =>
    intro n
    simp only [preflightOwners, howners, htable, hscope, hdes, ih]

/-- The preflight sees nothing that the commit of the ends changes. -/
theorem EndsSettled.preflight (he : EndsSettled w.publishedEnd id w c (w.commitEnds c ks)) :
    (w.commitEnds c ks).preflightResources c = w.preflightResources c := by
  obtain ⟨howners, hhead, -, hscope, hdes⟩ := he.rest
  unfold preflightResources
  rw [hhead]
  exact preflightOwners_congr howners commitEnds_table hscope hdes

/-- The handle of a published end finds it. -/
theorem endpointGet_published {e : TableEntry} (hs : w'.ends k = w.publishedEnd (w.ends k))
    (haddr : w'.address = w.address) (hr : (w.ends k).readable) (hcl : (w.ends k).closed = false)
    (he : w'.table.entry (w.ends k).lowerHandle = some e) (hk : e.kind = (w.ends k).kind)
    (hobj : e.object = some k) :
    w'.endpointGet (w.ends k).lowerHandle (w.ends k).kind = some k := by
  have hkind := readable_kind hr
  have hne : (w.ends k).kind ≠ .resource := by
    rcases hkind with h | h <;> rw [h] <;> simp
  have hget : w'.table.handleObject (w.ends k).lowerHandle (w.ends k).kind = some k :=
    Table.handleObject_eq_some.mpr ⟨e, he, hk, hne, hobj⟩
  unfold endpointGet
  rw [if_neg, hget]
  · simp [hs, publishedEnd, haddr, hcl]
  · rcases hkind with h | h <;> rw [h] <;> simp [HandleKind.waitable]

/-- **A commit publishes every reservation of its codec, or changes nothing.** -/
theorem Ok.commitBuffer (ok : w.Ok) (c : Nat) : (∃ status, w.commitBuffer c = (some status, w)) ∨
    ∃ w', w.commitBuffer c = (none, w') ∧ w'.Ok ∧ w.Published c w' := by
  unfold CodecWorld.commitBuffer
  cases hpre : w.preflightResources c with
  | some status => exact .inl ⟨status, rfl⟩
  | none =>
    by_cases hall : (w.endpointHead c).all (w.endReady c true)
    case neg =>
      simp [commitEndpoints, hall]
    have he := commitEnds_spec (c := c) ok rfl
    obtain ⟨howners, hhead, haddr, hscope, -⟩ := he.rest
    -- the commit of the ends cannot make the commit of the resources fail
    have hpre₁ := he.preflight.trans hpre
    obtain ⟨hready, hroom⟩ := preflightOwners_spec hpre₁
    obtain ⟨w', hw', ho⟩ := commitOwners_spec he.ok rfl hready fun s hs => by
      have hle := Table.claims_le he.ok.table s
      rw [← he.ok.counted.count] at hle
      have hmax : maxSlots ≤ uint32Max := by decide
      have := hroom s hs (by omega)
      omega
    refine .inr ⟨w', ?_, ho.ok, ?_⟩
    · simp only [commitEndpoints, hall, if_true, commitResources, hpre₁]
      exact hw'
    refine ⟨fun k o hk hs => ?_, fun k hs => ?_, ⟨fun k j o o' hk hj hs hs' heq => ?_,
      fun k j hs hs' heq => ?_⟩, fun s => ?_, .of_settled ok he ho⟩
    · obtain ⟨hrec, x, hx, hpub⟩ := ho.resource ok he hk hs
      rw [hscope] at hpub
      have hid : o.reservedIdentity ≠ 0 := by
        refine (hready k ?_ o (by rw [howners]; exact hk)).identity
        rw [hhead]
        exact (ok.resources c k).mpr ⟨o, hk, hs⟩
      refine ⟨hrec, ?_, x, hx, hpub⟩
      simp [Table.resourceRep, Table.resource, hid, hx, hpub.kind, hpub.identity,
        not_true_eq_false, or_self, bind, Except.bind, hpub.rep]
    · obtain ⟨hrec, hent⟩ := ho.endpoint ok he hs
      obtain ⟨-, -, hcl, hr, e, hx, hkind, hobj⟩ := ok.reservedEnd hs
      exact ⟨hrec, endpointGet_published hrec (ho.rest.2.2.1.trans haddr) hr hcl (hent.trans hx)
        hkind hobj⟩
    · by_contra hne
      exact ok.reserved_ne hk hs hj hs' hne heq
    · by_contra hne
      exact ok.lowerHandle_ne hs hs' hne heq
    · rw [ho.scopes, he.scopes, hscope, hhead]
      have : (w.commitEnds c (w.endpointHead c)).claiming (·.borrowed) (w.resourceHead c) =
          w.claiming (·.borrowed) (w.resourceHead c) := by
        unfold claiming
        rw [howners]
      rw [this]

/-! ## 2. Runs -/

theorem Ok.start {maxEntries address : Nat} {kinds : Nat → { kind : HandleKind // kind.waitable }}
    (h : start maxEntries address kinds = some w) : w.Ok := by
  obtain ⟨table, ht, rfl⟩ := Option.map_eq_some_iff.mp h
  exact ⟨.init ht, .init ht, by simp, by simp, by simp, by simp, by simp, by simp⟩

/-- **Every operation keeps the reservations.** -/
theorem Ok.act (ok : w.Ok) {a : CodecAction} (h : w.act a = some w') : w'.Ok := by
  cases a with
  | lowerResource c k identity provided typed allocated =>
    obtain ⟨⟨word, w₁⟩, hl, rfl⟩ := Option.map_eq_some_iff.mp h
    exact ok.lowerResource (toOption_eq_some.mp hl)
  | lowerEndpoint c k typed allocated =>
    obtain ⟨⟨word, w₁⟩, hl, rfl⟩ := Option.map_eq_some_iff.mp h
    exact ok.lowerEndpoint (toOption_eq_some.mp hl)
  | commit c =>
    cases h
    rcases ok.commitBuffer c with ⟨status, hc⟩ | ⟨w₁, hc, ok₁, -⟩
    · rwa [hc]
    · rwa [hc]
  | rollback c =>
    cases h
    obtain ⟨w₁, hr, ok₁, -⟩ := ok.rollbackBuffer c
    rwa [hr]
  | resourceNew identity rep owned allocated =>
    obtain ⟨⟨handle, table⟩, hn, rfl⟩ := Option.map_eq_some_iff.mp h
    obtain ⟨g, spec, hok⟩ := Table.resourceNew_spec ok.table (toOption_eq_some.mp hn)
    have hn := toOption_eq_some.mp hn
    obtain ⟨_, hn⟩ := ite_error_pass hn
    exact ok.inserted spec hok (ok.counted.allocate ok.table (fun _ => rfl) hn)
  | lendAcquire handle identity =>
    obtain ⟨table, hl, rfl⟩ := Option.map_eq_some_iff.mp h
    exact ok.lendAcquire (toOption_eq_some.mp hl)
  | lendRelease handle identity =>
    obtain ⟨table, hl, rfl⟩ := Option.map_eq_some_iff.mp h
    exact ok.lendRelease (toOption_eq_some.mp hl)
  | resourceDrop handle identity =>
    obtain ⟨⟨rep, table⟩, hd, rfl⟩ := Option.map_eq_some_iff.mp h
    obtain ⟨e, he, hk, -, -, rfl⟩ := Table.resourceDrop_spec (toOption_eq_some.mp hd)
    have hf : w.table.Frame (· ≠ .resource) none (w.table.remove handle) :=
      .remove ok.table ok.counted he (by simp [hk]) none
    exact ok.frame hf
  | scopeClear scope =>
    obtain ⟨table, hc, rfl⟩ := Option.map_eq_some_iff.mp h
    have hf : w.table.Frame (· ≠ .resource) none table :=
      .scopeClear ok.table ok.counted (by simp) (toOption_eq_some.mp hc)
    exact ok.frame hf
  | liftResource k handle identity borrow allocated => exact ok.liftResource h
  | releaseResource k => exact ok.releaseResource h
  | adoptResource k o =>
    obtain ⟨hn, h⟩ := ite_none_pass h
    cases h
    simp only [not_or] at hn
    refine ok.setOwner (fun x hx => ?_) fun x hx => ?_
    · rw [hx] at hn
      exact absurd rfl hn.1
    · cases hx
      simpa using hn.2.1
  | register k allocated => exact ok.register h
  | join handle set known =>
    simp only [CodecWorld.act, CodecWorld.join] at h
    split at h
    · cases h
    rcases ite_cases h with ⟨_, h⟩ | ⟨_, h⟩
    · cases h
      exact ok.setEnd rfl fun _ _ => ⟨rfl, rfl, rfl, rfl, rfl⟩
    · cases h
  | waitableDrop handle idle => exact ok.waitableDrop h
  | liftEndpoint handle future typed movable allocated => exact ok.liftEndpoint h
  | intoValue k =>
    obtain ⟨hn, h⟩ := ite_none_pass h
    cases h
    simp only [not_or] at hn
    exact ok.setEnd rfl fun c hs => absurd (ok.reservedEnd hs).1 hn.1
  | takeEndpoint k =>
    obtain ⟨hn, h⟩ := ite_none_pass h
    cases h
    simp only [not_or] at hn
    exact ok.setEnd rfl fun c hs => absurd (by simp [hs]) hn.2.1
  | releaseEndpoint k =>
    obtain ⟨hn, h⟩ := ite_none_pass h
    cases h
    simp only [not_or] at hn
    exact ok.setEnd rfl fun c hs => absurd (by simp [hs]) hn.2
  | endAdmitted k admitted =>
    cases h
    exact ok.setEnd rfl fun _ _ => ⟨rfl, rfl, rfl, rfl, rfl⟩
  | surround borrowScope destroying =>
    cases h
    exact { ok with }

theorem Ok.run (ok : w.Ok) (hrun : CodecRun w w') : w'.Ok :=
  invariant_run (P := fun w => w.Ok) (fun _ _ ⟨_, h⟩ ok => ok.act h) hrun ok

/-! ## 3. A batch -/

/-- The lowerings of one codec. -/
def Lowers (c : Nat) (w w' : CodecWorld) : Prop :=
  (∃ k identity provided typed allocated word,
    w.lowerResource c k identity provided typed allocated = .ok (word, w')) ∨
  ∃ k typed allocated word, w.lowerEndpoint c k typed allocated = .ok (word, w')

/-- The ownership that a record describes: all but the words of its last reservation. -/
def ResourceOwner.holding (o : ResourceOwner) : ResourceOwner :=
  { o with reserved := 0, reservedIdentity := 0 }

def CodecEnd.holding (e : CodecEnd) : CodecEnd := { e with lowerHandle := 0 }

/-- The state in the middle of a batch. -/
structure Lowered (c : Nat) (w w' : CodecWorld) : Prop where
  ok : w'.Ok
  entry : ∀ h, ¬ w'.ReservedBy c h → w'.table.entry h = w.table.entry h
  fresh : ∀ h, w'.ReservedBy c h → w.table.entry h = none
  scopes : w'.table.scopes = w.table.scopes
  owner : ∀ k, (∀ o, w'.owners k = some o → o.scope ≠ some c) → w'.owners k = w.owners k
  reserved : ∀ k o, w'.owners k = some o → o.scope = some c →
    (w.owners k).map ResourceOwner.holding =
      some (ResourceOwner.holding (ResourceOwner.takeBack o))
  ends : ∀ k, (w'.ends k).scope ≠ some c → w'.ends k = w.ends k
  reservedEnd : ∀ k, (w'.ends k).scope = some c →
    holding (w.ends k) = holding (takeBack (w'.ends k))
  heads : ∀ c', c' ≠ c → w'.resourceHead c' = w.resourceHead c' ∧
    w'.endpointHead c' = w.endpointHead c'

theorem Lowered.refl (ok : w.Ok) (hnone : ∀ h, ¬ w.ReservedBy c h) : Lowered c w w where
  ok := ok
  entry _ _ := rfl
  fresh h hr := absurd hr (hnone h)
  scopes := rfl
  owner _ _ := rfl
  reserved k o ho hs := absurd (.inl ⟨k, o, ho, hs, rfl⟩) (hnone o.reserved)
  ends _ _ := rfl
  reservedEnd k hs := absurd (.inr ⟨k, hs, rfl⟩) (hnone (w.ends k).lowerHandle)
  heads _ _ := ⟨rfl, rfl⟩

/-- One more reservation keeps what a batch has left alone. -/
theorem Lowered.reserve {handle : Nat} {new : TableEntry} (hl : Lowered c w w₁) (ok₂ : w₂.Ok)
    (hins : w₁.table.Inserted handle new w₂.table)
    (hres : ∀ h, w₂.ReservedBy c h ↔ w₁.ReservedBy c h ∨ h = handle)
    (howner : ∀ k, (∀ o, w₂.owners k = some o → o.scope ≠ some c) → w₂.owners k = w.owners k)
    (hreserved : ∀ k o, w₂.owners k = some o → o.scope = some c →
      (w.owners k).map ResourceOwner.holding =
        some (ResourceOwner.holding (ResourceOwner.takeBack o)))
    (hends : ∀ k, (w₂.ends k).scope ≠ some c → w₂.ends k = w.ends k)
    (hreservedEnd : ∀ k, (w₂.ends k).scope = some c →
      holding (w.ends k) = holding (takeBack (w₂.ends k)))
    (hheads : ∀ c', c' ≠ c → w₂.resourceHead c' = w₁.resourceHead c' ∧
      w₂.endpointHead c' = w₁.endpointHead c') : Lowered c w w₂ := by
  refine ⟨ok₂, fun h hn => ?_, fun h hr => ?_, hins.scopes.trans hl.scopes, howner, hreserved, hends,
    hreservedEnd, fun c' hc => ?_⟩
  · rw [hres, not_or] at hn
    rw [hins.entry, if_neg hn.2]
    exact hl.entry h hn.1
  · rcases (hres h).mp hr with hr | rfl
    · exact hl.fresh h hr
    · -- a free handle was not reserved
      rw [← hl.entry h, hins.free]
      intro hr'
      obtain ⟨e, he, -⟩ := hl.ok.entry ⟨c, hr'⟩
      rw [hins.free] at he
      cases he
  · rw [(hheads c' hc).1, (hheads c' hc).2]
    exact hl.heads c' hc

theorem Lowered.lowerResource {identity word : Nat} {provided typed allocated : Bool}
    (hl : Lowered c w w₁)
    (h : w₁.lowerResource c k identity provided typed allocated = .ok (word, w₂)) :
    Lowered c w w₂ := by
  have ok₂ := hl.ok.lowerResource h
  rcases lowerResource_spec h with rfl | ⟨o, table, ho, hs, -, hins, rfl⟩
  · exact hl
  obtain ⟨g, spec, -⟩ := Table.handleInsert_spec hl.ok.table hins
  generalize ho' : { o with reserved := word, reservedIdentity := identity, scope := some c } = o'
    at ok₂
  have hself : update w₁.owners k (some o') k = some o' := update_self ..
  have hupd : ∀ {j : Nat}, j ≠ k → update w₁.owners k (some o') j = w₁.owners j :=
    fun hj => update_of_ne hj ..
  have hold : w₁.owners k = w.owners k := hl.owner k fun x hx => by
    cases ho.symm.trans hx
    rw [hs]
    simp
  refine hl.reserve ok₂ spec (fun h => ⟨?_, ?_⟩) (fun j hj => ?_) (fun j x hx hxs => ?_) hl.ends
    hl.reservedEnd (fun c' hc => ⟨update_of_ne hc .., rfl⟩)
  · rintro (⟨j, x, hx, hxs, rfl⟩ | ⟨j, hjs, rfl⟩)
    · by_cases hj : j = k
      · subst hj
        cases hself.symm.trans hx
        exact .inr (by rw [← ho'])
      · exact .inl (.inl ⟨j, x, (hupd hj).symm.trans hx, hxs, rfl⟩)
    · exact .inl (.inr ⟨j, hjs, rfl⟩)
  · rintro ((⟨j, x, hx, hxs, rfl⟩ | ⟨j, hjs, rfl⟩) | rfl)
    · have hj : j ≠ k := by
        rintro rfl
        cases ho.symm.trans hx
        rw [hs] at hxs
        cases hxs
      exact .inl ⟨j, x, (hupd hj).trans hx, hxs, rfl⟩
    · exact .inr ⟨j, hjs, rfl⟩
    · exact .inl ⟨k, o', hself, by rw [← ho'], by rw [← ho']⟩
  · have hjk : j ≠ k := by
      rintro rfl
      exact hj o' hself (by rw [← ho'])
    exact (hupd hjk).trans (hl.owner j fun x hx => hj x ((hupd hjk).trans hx))
  · by_cases hjk : j = k
    · subst hjk
      cases hself.symm.trans hx
      rw [← hold, ho, ← ho']
      simp [ResourceOwner.holding, ResourceOwner.takeBack, hs]
    · exact hl.reserved j x ((hupd hjk).symm.trans hx) hxs

theorem Lowered.lowerEndpoint {word : Nat} {typed allocated : Bool} (hl : Lowered c w w₁)
    (h : w₁.lowerEndpoint c k typed allocated = .ok (word, w₂)) : Lowered c w w₂ := by
  have ok₂ := hl.ok.lowerEndpoint h
  obtain ⟨table, hs, -, -, -, -, hins, rfl⟩ := lowerEndpoint_spec h
  obtain ⟨g, spec, -⟩ := Table.handleInsert_spec hl.ok.table hins
  have hold : w₁.ends k = w.ends k := hl.ends k (by rw [hs]; simp)
  generalize he' : { w₁.ends k with scope := some c, lowerHandle := word } = e' at ok₂
  have hscope : e'.scope = some c := by rw [← he']
  have hhandle : e'.lowerHandle = word := by rw [← he']
  have hself : update w₁.ends k e' k = e' := update_self ..
  have hupd : ∀ {j : Nat}, j ≠ k → update w₁.ends k e' j = w₁.ends j :=
    fun hj => update_of_ne hj ..
  refine hl.reserve ok₂ spec (fun h => ?_) hl.owner hl.reserved (fun j hj => ?_) (fun j hjs => ?_)
    (fun c' hc => ⟨rfl, update_of_ne hc ..⟩)
  · simp only [ReservedBy, putEnd]
    constructor
    · rintro (⟨j, x, hx, hxs, rfl⟩ | ⟨j, hjs, rfl⟩)
      · exact .inl (.inl ⟨j, x, hx, hxs, rfl⟩)
      · by_cases hj : j = k
        · subst hj
          rw [hself]
          exact .inr hhandle
        · rw [hupd hj] at hjs ⊢
          exact .inl (.inr ⟨j, hjs, rfl⟩)
    · rintro ((⟨j, x, hx, hxs, rfl⟩ | ⟨j, hjs, rfl⟩) | rfl)
      · exact .inl ⟨j, x, hx, hxs, rfl⟩
      · have hj : j ≠ k := by
          rintro rfl
          rw [hs] at hjs
          cases hjs
        exact .inr ⟨j, by rw [hupd hj]; exact hjs, by rw [hupd hj]⟩
      · exact .inr ⟨k, by rw [hself, hscope], by rw [hself, hhandle]⟩
  · simp only [putEnd] at hj ⊢
    have hjk : j ≠ k := by
      rintro rfl
      rw [hself] at hj
      exact hj hscope
    rw [hupd hjk] at hj ⊢
    exact hl.ends j hj
  · simp only [putEnd] at hjs ⊢
    by_cases hjk : j = k
    · subst hjk
      rw [hself, ← hold, ← he']
      simp only [holding, takeBack]
      rw [← hs]
    · rw [hupd hjk] at hjs ⊢
      exact hl.reservedEnd j hjs

theorem Lowered.run (ok : w.Ok) (hnone : ∀ h, ¬ w.ReservedBy c h)
    (hrun : ReflTransGen (Lowers c) w w₁) : Lowered c w w₁ := by
  induction hrun with
  | refl => exact .refl ok hnone
  | tail _ hstep ih =>
    rcases hstep with ⟨k, identity, provided, typed, allocated, word, h⟩ | ⟨k, typed, allocated, word, h⟩
    · exact ih.lowerResource h
    · exact ih.lowerEndpoint h

end CodecWorld

end TurboWasm
