/-
# The representation invariant of ends

Every operation changes one end and its peer, or the four ends of a forward, and the buffers lent to
them.  `Ok.change` says what is left to prove then: the changed ends on their own (`EndOk`), the
links between them (`Linked`), and the loans, which are owned exclusively (`Lib.Exclusive`): a buffer
is leased exactly while it is the operation of one end.
-/
import TurboWasm.Component.Endpoint.Specs
import TurboWasm.Lib.Histories
import TurboWasm.Lib.Ownership

namespace TurboWasm

open Lib Option Function EndpointState EndpointWorld Buffer

variable {V : Type} {i j : Nat} {e : Endpoint V} {buffer : BufferRef → Buffer V} {b : Buffer V}
  {p : Endpoint V} {state : EndpointState} {r : BufferRef}

/-! ## 1. One end -/

/-- A release hook is waiting for its call. -/
def hookOpen : List (EndpointEvent V) → Bool
  | [] => false
  | .admitted :: _ => true
  | .released :: _ => false
  | .delivered _ _ :: past => hookOpen past
  | .failed _ _ :: past => hookOpen past

/-- A hook runs once for each guest buffer, before the next one is taken over. -/
def EndpointEvent.Lawful (past : List (EndpointEvent V)) : EndpointEvent V → Prop
  | .admitted => hookOpen past = false
  | .released => hookOpen past
  | .delivered _ _ => True
  | .failed _ _ => True

/-- What holds of an end and the buffer it was lent. -/
structure EndOk (i : Nat) (e : Endpoint V) (buffer : BufferRef → Buffer V) : Prop where
  blank : e.initialized = false → e.peer = none ∧ e.operation = none
  sound : e.state.Sound
  operation : e.operation.isSome ↔ e.state.phase = .copying ∨ e.state.phase = .cancelling
  available : ∀ {r}, e.available = some r → e.operation = some r ∧ e.state.phase = .copying
  lent : ∀ {r}, e.operation = some r → (buffer r).progress ≤ (buffer r).cells.length ∧
    (buffer r).cells.length ≤ copyMaxLength ∧
    (e.state.future → (buffer r).cells.length = 1)
  guest : ∀ {k}, e.operation = some (.guest k) → k = i
  closed : e.closed → e.peer = none ∧ e.operation = none
  dropped : e.initialized → e.closed = false → (e.peer = none ↔ e.state.peerDropped)
  type : e.state.future = e.type.future
  transfer : ∀ {t}, e.transfer = some t → e.peer.isSome ∧ e.state.phase = .copying ∧
    t.next.Sound ∧ t.next.phase = .copying ∧ t.next.future = e.state.future ∧
    t.next.peerDropped = e.state.peerDropped ∧
    ∀ {r}, e.operation = some r → t.count ≤ (buffer r).remaining
  lawful : Always EndpointEvent.Lawful e.history
  hook : hookOpen e.history ↔ e.operation = some (.guest i)

theorem EndOk.zero (i : Nat) (buffer : BufferRef → Buffer V) : EndOk i {} buffer where
  blank _ := ⟨rfl, rfl⟩
  sound h := by cases h
  operation := by simp
  available h := by cases h
  lent h := by cases h
  guest h := by cases h
  closed h := by cases h
  dropped h := by cases h
  type := rfl
  transfer h := by cases h
  lawful := trivial
  hook := by simp [hookOpen]

/-- The buffers of other ends do not matter. -/
theorem EndOk.buffers
    (h : EndOk i e buffer) (hb : ∀ r, e.operation = some r → buffer' r = buffer r) :
    EndOk i e buffer' :=
  { h with
    lent := fun hr => by
      rw [hb _ hr]
      exact h.lent hr
    transfer := fun ht => by
      obtain ⟨hp, hc, hs, hn, hf, hd, hroom⟩ := h.transfer ht
      exact ⟨hp, hc, hs, hn, hf, hd, fun hr => by rw [hb _ hr]; exact hroom hr⟩ }

/-- The history after a delivery: the hook of a guest buffer has run. -/
theorem EndOk.reported (h : EndOk i e buffer)
    (he : event = .delivered word elements ∨ ∃ status, event = .failed status elements) :
    Always EndpointEvent.Lawful (event ::
        if e.operation == some (.guest i) then .released :: e.history else e.history) ∧
      hookOpen (event ::
        if e.operation == some (.guest i) then .released :: e.history else e.history) = false := by
  have hrest : Always EndpointEvent.Lawful
        (if e.operation == some (.guest i) then .released :: e.history else e.history) ∧
      hookOpen (if e.operation == some (.guest i) then .released :: e.history
        else e.history) = false := by
    by_cases hg : e.operation = some (.guest i)
    · simp only [hg, beq_self_eq_true]
      exact ⟨⟨h.hook.mpr hg, h.lawful⟩, rfl⟩
    · have hb : (e.operation == some (.guest i)) = false := by simpa using hg
      simp only [hb]
      exact ⟨h.lawful, by simpa [hg] using h.hook⟩
  rcases he with rfl | ⟨status, rfl⟩
  · exact ⟨⟨trivial, hrest.1⟩, hrest.2⟩
  · exact ⟨⟨trivial, hrest.1⟩, hrest.2⟩

/-- Two ends that are each other's peer. -/
structure Linked (i : Nat) (e : Endpoint V) (j : Nat) (p : Endpoint V) : Prop where
  left : e.peer = some j
  right : p.peer = some i
  sides : p.readable = !e.readable
  types : p.type = e.type
  opened : e.initialized ∧ p.initialized
  /-- Not both have a buffer available, unless a copy between them is on its way. -/
  apart : e.available = none ∨ p.available = none ∨
    ∃ t u, e.transfer = some t ∧ p.transfer = some u ∧ (t.finished ∨ u.finished)
  /-- A copy guards both ends. -/
  copying : e.transfer.map (·.count) = p.transfer.map (·.count)

theorem Linked.symm (h : Linked i e j p) : Linked j p i e where
  left := h.right
  right := h.left
  sides := by rw [h.sides, Bool.not_not]
  types := h.types.symm
  opened := h.opened.symm
  apart := by
    rcases h.apart with ha | ha | ⟨t, u, ht, hu, hf⟩
    · exact .inr (.inl ha)
    · exact .inl ha
    · exact .inr (.inr ⟨u, t, hu, ht, hf.symm⟩)
  copying := h.copying.symm

theorem Linked.ne {e : Nat → Endpoint V} (h : Linked i (e i) j (e j)) : j ≠ i := by
  rintro rfl
  have := h.sides
  cases hr : (e j).readable <;> simp at this

theorem Linked.quiet (h : Linked i e j p) (he : e.transfer = none) : p.transfer = none := by
  have := h.copying
  rw [he] at this
  simpa using this.symm

/-- An outer end with its new peer. -/
theorem EndOk.relink
    (h : EndOk i e buffer) (hp : e.peer.isSome) : EndOk i { e with peer := some j } buffer := by
  have hn : e.peer ≠ none := by
    rintro hh
    simp [hh] at hp
  exact
  { h with
    blank := fun hb => absurd (h.blank hb).1 hn
    closed := fun hc => absurd (h.closed hc).1 hn
    dropped := fun hi hc => by
      have := h.dropped hi hc
      show (some j = none) ↔ e.state.peerDropped
      constructor
      · intro hh
        cases hh
      · intro hh
        exact absurd (this.mpr hh) hn
    transfer := fun ht => ⟨rfl, (h.transfer ht).2⟩ }

section

variable (h : b.progress ≤ b.cells.length)

include h

theorem Buffer.length_consume
    (hc : count ≤ b.remaining) : (b.consume count).cells.length = b.cells.length := by
  unfold remaining at hc
  unfold consume
  cases b.kind with
  | guest => rfl
  | host =>
    rw [length_patch]
    simp only [List.length_replicate]
    omega

theorem Buffer.length_batch (hc : count ≤ b.remaining) : (b.batch count).length = count := by
  unfold remaining at hc
  exact length_slice (by omega)

theorem Buffer.length_receive {batch : List (Option V)} (hc : batch.length ≤ b.remaining) :
    (b.receive batch).cells.length = b.cells.length := by
  unfold remaining at hc
  exact length_patch (by omega)

end

/-- An end in another state, with no copy on its way. -/
theorem EndOk.restate (h : EndOk i e buffer) {transfer : Option Transfer}
    (available : Option BufferRef) (hs : state.Sound)
    (hop : e.operation.isSome ↔ state.phase = .copying ∨ state.phase = .cancelling)
    (hf : state.future = e.state.future) (hd : state.peerDropped = e.state.peerDropped)
    (hav : ∀ {r}, available = some r → e.operation = some r ∧ state.phase = .copying)
    (ht : transfer = none) : EndOk i { e with state, available, transfer } buffer :=
  { h with
    sound := hs
    operation := hop
    available := hav
    lent := fun hr => by
      obtain ⟨hprog, hmax, hfut⟩ := h.lent hr
      exact ⟨hprog, hmax, fun hh => hfut (hf ▸ hh)⟩
    dropped := fun hi hcl => by
      show e.peer = none ↔ state.peerDropped
      rw [hd]
      exact h.dropped hi hcl
    type := hf.trans h.type
    transfer := fun ht' => by cases ht.symm.trans ht' }

/-- An end whose buffer has moved on. -/
theorem EndOk.moved (h : EndOk i e buffer) (hr : e.operation = some r)
    (ht : e.transfer = none) (hlen : (buffer' r).cells.length = (buffer r).cells.length)
    (hprog : (buffer' r).progress ≤ (buffer' r).cells.length) : EndOk i e buffer' :=
  { h with
    lent := fun {s} hs => by
      obtain rfl : r = s := some.inj (hr.symm.trans hs)
      obtain ⟨-, hmax, hfut⟩ := h.lent hr
      exact ⟨hprog, hlen ▸ hmax, fun hh => by rw [hlen]; exact hfut hh⟩
    transfer := fun ht' => by cases ht.symm.trans ht' }

/-- An end after a copy that succeeded. -/
theorem EndOk.settle (h : EndOk i e buffer) (ht : e.transfer = some t) (hr : e.operation = some r)
    (hlen : (buffer' r).cells.length = (buffer r).cells.length)
    (hprog : (buffer' r).progress ≤ (buffer' r).cells.length) : EndOk i (settle e t) buffer' := by
  obtain ⟨hp, hcopy, hs, hn, hf, hd, -⟩ := h.transfer ht
  refine (h.restate _ hs (by simp [hr, hn]) hf hd (fun ha => ?_) rfl).moved hr rfl hlen hprog
  obtain ⟨-, ha⟩ := ite_none_pass ha
  exact ⟨(h.available ha).1, hn⟩

/-- An end after a copy that failed. -/
theorem EndOk.poison (h : EndOk i e buffer) (hr : e.operation = some r)
    (hcancel : e.state.requestCancel false = some state)
    (hlen : (buffer' r).cells.length = (buffer r).cells.length)
    (hprog : (buffer' r).progress ≤ (buffer' r).cells.length) :
    EndOk i (poison e status state) buffer' := by
  obtain ⟨-, hphase, hf, hd, -⟩ := requestCancel_spec hcancel
  have hstate := h.restate none (.requestCancel hcancel)
    (by simp [hr, hphase]) hf hd nofun rfl
  exact { hstate.moved hr rfl hlen hprog with }

/-! ## 2. All ends -/

namespace EndpointWorld

variable {i : Nat} {r : BufferRef} {j : Nat} {available : Bool}

/-- The representation invariant. -/
structure Ok (w : EndpointWorld V) : Prop where
  ends : ∀ i, EndOk i (w.endpoint i) w.buffer
  links : ∀ {i j}, (w.endpoint i).peer = some j → Linked i (w.endpoint i) j (w.endpoint j)
  loans : Exclusive (fun i => (w.endpoint i).operation) (fun r => (w.buffer r).leased)

theorem Ok.start : (start : EndpointWorld V).Ok where
  ends i := .zero i _
  links h := by cases h
  loans := Exclusive.empty.congr fun r => by simp [EndpointWorld.start]

/-- The ends in `C` change, with their buffers; peers change together. -/
structure Change (w w' : EndpointWorld V) (C : Nat → Prop) : Prop where
  peers : ∀ {i j}, C i → (w.endpoint i).peer = some j → C j
  same : ∀ {i}, ¬ C i → w'.endpoint i = w.endpoint i
  buffers : ∀ r, w'.buffer r = w.buffer r ∨ (w.buffer r).leased = false ∨
    ∃ k, C k ∧ (w.endpoint k).operation = some r

variable {w w' : EndpointWorld V}

/-- **The frame rule**: only the changed ends have to be looked at. -/
theorem Ok.change (ok : w.Ok) {C : Nat → Prop} (hc : Change w w' C)
    (hends : ∀ i, C i → EndOk i (w'.endpoint i) w'.buffer)
    (hlinks : ∀ i j, C i → (w'.endpoint i).peer = some j →
      Linked i (w'.endpoint i) j (w'.endpoint j))
    (hloans : Exclusive (fun i => (w'.endpoint i).operation)
      (fun r => (w'.buffer r).leased)) : w'.Ok where
  ends i := by
    by_cases hi : C i
    · exact hends i hi
    rw [hc.same hi]
    refine (ok.ends i).buffers fun r hr => ?_
    rcases hc.buffers r with hb | hb | ⟨k, hk, hkr⟩
    · exact hb
    · rw [ok.loans.used hr] at hb
      cases hb
    · -- the buffer of a changed end is lent to that end only
      exact absurd (ok.loans.inj hr hkr ▸ hk) hi
  links := by
    intro i j hij
    by_cases hi : C i
    · exact hlinks i j hi hij
    rw [hc.same hi] at hij ⊢
    have hl := ok.links hij
    have hj : ¬ C j := fun hj => hi (hc.peers hj hl.right)
    rwa [hc.same hj]
  loans := hloans

theorem operation_update (f : Nat → Endpoint V) (i : Nat) (e : Endpoint V) :
    (fun k => (update f i e k).operation) = update (fun k => (f k).operation) i e.operation :=
  Function.comp_update Endpoint.operation ..

/-- Neither the operations nor the loans change. -/
theorem loans_same (ok : w.Ok)
    (ho : (fun k => (w'.endpoint k).operation) = fun k => (w.endpoint k).operation)
    (hb : ∀ r, (w'.buffer r).leased = (w.buffer r).leased) :
    Exclusive (fun i => (w'.endpoint i).operation) (fun r => (w'.buffer r).leased) := by
  rw [ho]
  exact ok.loans.congr fun r => by rw [hb]

theorem Ok.loans_kept (ok : w.Ok) (hop : e.operation = (w.endpoint i).operation) :
    Exclusive (update (fun k => (w.endpoint k).operation) i e.operation)
      (fun r => (w.buffer r).leased) := by
  rw [hop, update_eq_self]
  exact ok.loans

theorem Ok.ne_unlent (ok : w.Ok) (hr : (w.buffer r).leased = false)
    (hs : (w.endpoint i).operation = some s) : s ≠ r := by
  rintro rfl
  have hl : (w.buffer s).leased := ok.loans.used hs
  rw [hr] at hl
  cases hl

/-- A buffer that nobody was lent changes. -/
theorem update_unlent (hr : (w.buffer r).leased = false) (b : Buffer V) {P : Prop}
    (s : BufferRef) : update w.buffer r b s = w.buffer s ∨ (w.buffer s).leased = false ∨ P := by
  by_cases hs : s = r
  · exact .inr (.inl (hs ▸ hr))
  · exact .inl (update_of_ne hs _ _)

/-- The end and its peer. -/
def Around (w : EndpointWorld V) (i k : Nat) : Prop := k = i ∨ (w.endpoint i).peer = some k

theorem Ok.around_peers (ok : w.Ok) (hk : w.Around i k)
    (hl : (w.endpoint k).peer = some l) : w.Around i l := by
  rcases hk with rfl | hk
  · exact .inr hl
  · rw [(ok.links hk).right] at hl
    exact .inl (some.inj hl).symm

/-- One end changes, its peer stays. -/
theorem Ok.single (ok : w.Ok) (he : w'.endpoint = update w.endpoint i e)
    (hbuf : ∀ r, w'.buffer r = w.buffer r ∨ (w.buffer r).leased = false ∨
      (w.endpoint i).operation = some r)
    (hend : EndOk i e w'.buffer) (hpeer : e.peer = (w.endpoint i).peer)
    (hlink : ∀ j, (w.endpoint i).peer = some j → Linked i e j (w.endpoint j))
    (hloans : Exclusive (update (fun k => (w.endpoint k).operation) i e.operation)
      (fun r => (w'.buffer r).leased)) : w'.Ok := by
  have hself : w'.endpoint i = e := by rw [he, update_self]
  have hsame : ∀ {k}, k ≠ i → w'.endpoint k = w.endpoint k := fun hk => by
    rw [he, update_of_ne hk]
  have hne : ∀ {j}, (w.endpoint i).peer = some j → j ≠ i := fun hj => (ok.links hj).ne
  have hbuf' : ∀ r, w'.buffer r = w.buffer r ∨ (w.buffer r).leased = false ∨
      ∃ k, w.Around i k ∧ (w.endpoint k).operation = some r :=
    fun r => (hbuf r).imp_right (.imp_right fun hr => ⟨i, .inl rfl, hr⟩)
  refine ok.change ⟨ok.around_peers, fun hk => hsame fun h => hk (.inl h), hbuf'⟩
    (fun k hk => ?_) (fun k l hk hkl => ?_) (by rw [he, operation_update]; exact hloans)
  · rcases hk with rfl | hk
    · rwa [hself]
    · rw [hsame (hne hk)]
      refine (ok.ends k).buffers fun r hr => ?_
      rcases hbuf r with hb | hb | hb
      · exact hb
      · rw [ok.loans.used hr] at hb
        cases hb
      · exact absurd (ok.loans.inj hr hb) (hne hk)
  · rcases hk with rfl | hk
    · rw [hself, hpeer] at hkl
      rw [hself, hsame (hne hkl)]
      exact hlink l hkl
    · rw [hsame (hne hk), (ok.links hk).right] at hkl
      cases hkl
      rw [hself, hsame (hne hk)]
      exact (hlink k hk).symm

theorem Ok.put (ok : w.Ok) (hend : EndOk i e w.buffer)
    (hpeer : e.peer = (w.endpoint i).peer) (hop : e.operation = (w.endpoint i).operation)
    (hlink : ∀ j, e.peer = some j → Linked i e j (w.endpoint j)) : (w.put i e).Ok :=
  ok.single rfl (fun _ => .inl rfl) hend hpeer (fun j hj => hlink j (hpeer.trans hj))
    (ok.loans_kept hop)

/-- Two peers change; they stay peers or come apart. -/
theorem Ok.pair (ok : w.Ok) (hij : (w.endpoint i).peer = some j)
    (he : w'.endpoint = update (update w.endpoint i e) j p)
    (hbuf : ∀ r, w'.buffer r = w.buffer r ∨ (w.buffer r).leased = false ∨
      (w.endpoint i).operation = some r ∨ (w.endpoint j).operation = some r)
    (hi : EndOk i e w'.buffer) (hj : EndOk j p w'.buffer)
    (hop : p.operation = (w.endpoint j).operation)
    (hlink : Linked i e j p ∨ e.peer = none ∧ p.peer = none)
    (hloans : Exclusive (update (fun k => (w.endpoint k).operation) i e.operation)
      (fun r => (w'.buffer r).leased)) : w'.Ok := by
  have hne := (ok.links hij).ne
  have hself : w'.endpoint i = e := by
    rw [he, update_of_ne hne.symm, update_self]
  have hpeer : w'.endpoint j = p := by rw [he, update_self]
  have hops : (fun k => (w'.endpoint k).operation) =
      update (fun k => (w.endpoint k).operation) i e.operation := by
    rw [he, update_comm hne.symm, operation_update, operation_update, hop, update_eq_self]
  refine ok.change (C := w.Around i) ⟨ok.around_peers, fun {k} hk => ?_,
    fun r => ?_⟩ (fun k hk => ?_) (fun k l hk hkl => ?_) (by rw [hops]; exact hloans)
  · rw [he, update_of_ne fun h => hk (.inr (by rw [h, hij])),
      update_of_ne fun h => hk (.inl h)]
  · rcases hbuf r with hb | hb | hb | hb
    · exact .inl hb
    · exact .inr (.inl hb)
    · exact .inr (.inr ⟨i, .inl rfl, hb⟩)
    · exact .inr (.inr ⟨j, .inr hij, hb⟩)
  · rcases hk with rfl | hk
    · rwa [hself]
    · rw [hij] at hk
      cases hk
      rwa [hpeer]
  rcases hlink with hlink | ⟨hni, hnj⟩
  · rcases hk with rfl | hk
    · rw [hself, hlink.left] at hkl
      cases hkl
      rwa [hself, hpeer]
    · cases hij.symm.trans hk
      rw [hpeer, hlink.right] at hkl
      cases hkl
      rw [hself, hpeer]
      exact hlink.symm
  · rcases hk with rfl | hk
    · rw [hself, hni] at hkl
      cases hkl
    · cases hij.symm.trans hk
      rw [hpeer, hnj] at hkl
      cases hkl

/-! ## 3. Submitting -/

/-- A lent buffer, as its end sees it. -/
theorem Admissible.lent (ha : w.Admissible i r) (s : BufferRef) :
    (update w.buffer r (w.buffer r).lend s).leased ↔ s = r ∨ (w.buffer s).leased := by
  by_cases hs : s = r
  · subst hs
    simp [lend]
  · simp [hs]

/-- The loans after an admission. -/
theorem Ok.loans_lent (ok : w.Ok) (ha : w.Admissible i r) :
    Exclusive (update (fun k => (w.endpoint k).operation) i (some r))
      fun s => (update w.buffer r (w.buffer r).lend s).leased :=
  (ok.loans.take ha.free (by simp [ha.unlent])).congr ha.lent

/-- The end whose operation was admitted. -/
theorem Ok.endOk_admitted (ok : w.Ok) (ha : w.Admissible i r)
    (hg : ∀ k, r = .guest k → k = i) (available : Bool) (hs : state.Sound)
    (hphase : state.phase = .copying) (hfut : state.future = (w.endpoint i).state.future)
    (hdrop : state.peerDropped = (w.endpoint i).state.peerDropped)
    (htr : ∀ {t}, transfer = some t → (w.endpoint i).peer.isSome ∧ t.next.Sound ∧
      t.next.phase = .copying ∧ t.next.future = state.future ∧
      t.next.peerDropped = state.peerDropped ∧ t.count ≤ (w.buffer r).cells.length) :
    EndOk i (admitted (w.endpoint i) r available state transfer)
      (update w.buffer r (w.buffer r).lend) := by
  have hend := ok.ends i
  have hinit : (w.endpoint i).initialized ∧ (w.endpoint i).closed = false := by
    have := ha.live
    simp only [Endpoint.live, Bool.and_eq_true, Bool.not_eq_true'] at this
    exact this.1
  have hclosed : hookOpen (w.endpoint i).history = false := by
    simpa [ha.free] using hend.hook
  exact
  { blank := fun h => by
      have h' : (w.endpoint i).initialized = false := h
      rw [hinit.1] at h'
      cases h'
    sound := hs
    operation := by simp [admitted, hphase]
    available := fun {s} h => by
      cases available
      · cases h
      · cases h
        exact ⟨rfl, hphase⟩
    lent := fun {s} h => by
      cases h
      rw [update_self]
      exact ⟨Nat.zero_le _, ha.length, fun hf => ha.single (hfut ▸ hf)⟩
    guest := fun {k} h => hg k (some.inj h)
    closed := fun h => by
      have h' : (w.endpoint i).closed := h
      rw [hinit.2] at h'
      cases h'
    dropped := fun h h' => by
      show (w.endpoint i).peer = none ↔ state.peerDropped
      rw [hdrop]
      exact hend.dropped h h'
    type := hfut.trans hend.type
    transfer := fun {t} h => by
      obtain ⟨hp, hn, hnp, hnf, hnd, hroom⟩ := htr h
      refine ⟨hp, hphase, hn, hnp, hnf, hnd, fun {s} hs => ?_⟩
      cases hs
      rwa [update_self]
    lawful := by
      cases r with
      | host k => exact hend.lawful
      | guest k => exact ⟨hclosed, hend.lawful⟩
    hook := by
      cases r with
      | host k =>
        show hookOpen (w.endpoint i).history ↔ some (BufferRef.host k) = some (.guest i)
        simp [hclosed]
      | guest k =>
        obtain rfl := hg k rfl
        simp [admitted, hookOpen] }

/-- An admission that leaves the peer alone. -/
theorem Ok.lendTo (ok : w.Ok) (ha : w.Admissible i r) (hg : ∀ k, r = .guest k → k = i)
    (hs : state.Sound) (hphase : state.phase = .copying)
    (hfut : state.future = (w.endpoint i).state.future)
    (hdrop : state.peerDropped = (w.endpoint i).state.peerDropped)
    (hav : available → ∀ j, (w.endpoint i).peer = some j → (w.endpoint j).available = none) :
    (w.lendTo i r available state none).Ok := by
  refine ok.single rfl (fun s => update_unlent ha.unlent _ s)
    (ok.endOk_admitted ha hg available hs hphase hfut hdrop nofun) rfl
    (fun j hj => ?_) (ok.loans_lent ha)
  have hl := ok.links hj
  refine { hl with apart := ?_, copying := ?_ }
  · cases available with
    | false => exact .inl rfl
    | true => exact .inr (.inl (hav rfl j hj))
  · rw [← hl.copying, ha.quiet]
    rfl

/-- An admission that also changes the peer. -/
theorem Ok.lendTo_pair (ok : w.Ok) (ha : w.Admissible i r)
    (hpeer : (w.endpoint i).peer = some j) {p : Endpoint V}
    (hend : EndOk i (admitted (w.endpoint i) r available state transfer)
      (update w.buffer r (w.buffer r).lend))
    (hp : EndOk j p w.buffer) (hop : p.operation = (w.endpoint j).operation)
    (hlink : Linked i (admitted (w.endpoint i) r available state transfer) j p) :
    ((w.lendTo i r available state transfer).put j p).Ok := by
  exact ok.pair hpeer rfl (fun s => update_unlent ha.unlent _ s) hend
    (hp.buffers fun s hs => update_of_ne (ok.ne_unlent ha.unlent (hop ▸ hs)) _ _) hop
    (.inl hlink) (ok.loans_lent ha)

theorem begun_sound (ha : w.Admissible i r) : (w.begun i).Sound :=
  fun hp => .inl ⟨rfl, fun _ => .inr (ha.pending hp)⟩

/-- **Submitting** keeps the invariant. -/
theorem Ok.submit (ok : w.Ok) {pinned refused : Bool}
    (hg : ∀ k, r = .guest k → k = i) (h : w.submit i r pinned refused = some w') : w'.Ok := by
  obtain ⟨ha, hs⟩ := submit_spec h
  cases hs with
  | dropped hpeer hpend hdrop =>
    refine ok.lendTo ha hg (begun_sound ha) rfl rfl rfl fun hh => ?_
    cases hh
  | waiting hpeer hav =>
    refine ok.lendTo ha hg (begun_sound ha) rfl rfl rfl fun _ j hj => ?_
    rw [hpeer] at hj
    cases hj
    exact hav
  | @copying j o self peer count hpeer hav hcount hpos hself hnotify =>
    have hl := ok.links hpeer
    obtain ⟨-, -, -, -, -, rfl⟩ := notify_spec hself
    obtain ⟨-, -, -, -, -, rfl⟩ := notify_spec hnotify
    obtain ⟨-, hcopy⟩ := (ok.ends j).available hav
    have hpn : (w.endpoint i).state.pendingEvent = false := by
      -- an idle end with a peer has nothing pending
      have hd := (ok.ends i).dropped hl.opened.1 (by
        have := ha.live
        simp only [Endpoint.live, Bool.and_eq_true, Bool.not_eq_true'] at this
        exact this.1.2)
      cases hp : (w.endpoint i).state.pendingEvent with
      | false => rfl
      | true =>
        have := hd.mpr (ha.pending hp)
        rw [hpeer] at this
        cases this
    refine ok.lendTo_pair ha hpeer (ok.endOk_admitted ha hg false ?_ rfl rfl rfl fun {t} ht => ?_)
      { ok.ends j with transfer := fun {t} ht => ?_ } rfl ?_
    · intro hp
      rw [hpn] at hp
      cases hp
    · cases ht
      exact ⟨by simp [hpeer], .notify hself, rfl, rfl, rfl, by
        rw [hcount]
        exact min_le_left _ _⟩
    · cases ht
      refine ⟨by simp [hl.right], hcopy, .notify hnotify, hcopy, rfl, rfl,
        fun {s} hs => ?_⟩
      obtain rfl : o = s := some.inj (((ok.ends j).available hav).1.symm.trans hs)
      rw [hcount]
      exact Nat.min_le_right _ _
    · exact { hl with apart := .inl rfl, copying := rfl }
  | @finishing j o peer hpeer hav hrem hnotify =>
    have hl := ok.links hpeer
    obtain ⟨-, -, -, -, -, rfl⟩ := notify_spec hnotify
    have hq := hl.quiet ha.quiet
    refine ok.lendTo_pair ha hpeer (ok.endOk_admitted ha hg true (begun_sound ha) rfl rfl rfl
      fun {t} ht => by cases ht) ((ok.ends j).restate none (.notify hnotify)
        (ok.ends j).operation rfl rfl nofun hq) rfl ?_
    exact { hl with apart := .inr (.inl rfl), copying := by simp [admitted, hq] }
  | @empty j o self hpeer hav hlen hself =>
    obtain ⟨-, -, -, -, -, rfl⟩ := notify_spec hself
    refine ok.lendTo ha hg (.notify hself) rfl rfl rfl fun hh => ?_
    cases hh

/-! ## 4. The end of a copy -/

section Copy

variable {i : Nat}
theorem Copying.count_eq (ok : w.Ok) (hc : w.Copying i j t u rb qb) : u.count = t.count := by
  have := (ok.links hc.peer).copying
  rw [hc.reader, hc.writer] at this
  exact (some.inj this).symm

theorem Copying.buffers_ne (ok : w.Ok) (hc : w.Copying i j t u rb qb) : rb ≠ qb := by
  rintro rfl
  exact (ok.links hc.peer).ne (ok.loans.inj hc.write hc.read)

theorem Copying.room (ok : w.Ok) (hc : w.Copying i j t u rb qb) :
    (w.buffer rb).progress ≤ (w.buffer rb).cells.length ∧ t.count ≤ (w.buffer rb).remaining ∧
      (w.buffer qb).progress ≤ (w.buffer qb).cells.length ∧ t.count ≤ (w.buffer qb).remaining := by
  refine ⟨((ok.ends i).lent hc.read).1, ((ok.ends i).transfer hc.reader).2.2.2.2.2.2 hc.read,
    ((ok.ends j).lent hc.write).1, ?_⟩
  rw [← hc.count_eq ok]
  exact ((ok.ends j).transfer hc.writer).2.2.2.2.2.2 hc.write

/-- The two buffers of a copy, and no other, change. -/
theorem Copying.other_buffers (hc : w.Copying i j t u rb qb) (r : BufferRef) :
    update (update w.buffer rb b) qb b' r = w.buffer r ∨
      (w.buffer r).leased = false ∨ (w.endpoint i).operation = some r ∨
        (w.endpoint j).operation = some r := by
  by_cases hq : r = qb
  · exact .inr (.inr (.inr (hq ▸ hc.write)))
  by_cases hr : r = rb
  · exact .inr (.inr (.inl (hr ▸ hc.read)))
  · exact .inl (by rw [update_of_ne hq, update_of_ne hr])

/-- Two peers and their buffers after a copy. -/
theorem Ok.copyBack (ok : w.Ok) (hc : w.Copying i j t u rb qb) {r q : Endpoint V}
    {moves : List (Move V)} (hb : b.leased = (w.buffer rb).leased)
    (hb' : b'.leased = (w.buffer qb).leased)
    (hr : ∀ buffer : BufferRef → Buffer V, buffer rb = b → EndOk i r buffer)
    (hq : ∀ buffer : BufferRef → Buffer V, buffer qb = b' → EndOk j q buffer)
    (hro : r.operation = some rb) (hqo : q.operation = some qb) (hlink : Linked i r j q) :
    Ok { endpoint := update (update w.endpoint i r) j q
         buffer := update (update w.buffer rb b) qb b'
         moves } := by
  have hbne := hc.buffers_ne ok
  refine ok.pair hc.peer rfl hc.other_buffers
    (hr _ (by simp [update_of_ne hbne]))
    (hq _ (update_self ..)) (hqo.trans hc.write.symm) (.inl hlink)
    ((ok.loans_kept (hro.trans hc.read.symm)).congr fun s => ?_)
  by_cases hsq : s = qb
  · subst hsq
    simp [hb']
  by_cases hsr : s = rb
  · subst hsr
    simp only [update_of_ne hsq, update_self, hb]
  · simp [update_of_ne hsq, update_of_ne hsr]

theorem Ok.transferred (ok : w.Ok) (hc : w.Copying i j t u rb qb) :
    (w.transferred i j t u rb qb).Ok := by
  obtain ⟨hrp, hrc, hqp, hqc⟩ := hc.room ok
  have hl := ok.links hc.peer
  have hbatch := length_batch hqp hqc
  refine ok.copyBack hc rfl rfl (fun buffer hb => ?_) (fun buffer hb => ?_) hc.read hc.write ?_
  · refine (ok.ends i).settle hc.reader hc.read ?_ ?_
    · rw [hb, length_receive hrp (by rw [hbatch]; exact hrc)]
    · rw [hb, length_receive hrp (by rw [hbatch]; exact hrc)]
      simp only [receive]
      unfold remaining at hrc
      omega
  · refine (ok.ends j).settle hc.writer hc.write ?_ ?_
    · rw [hb, length_consume hqp hqc]
    · rw [hb, length_consume hqp hqc]
      simp only [consume]
      unfold remaining at hqc
      omega
  refine { hl with apart := ?_, copying := rfl }
  -- the smaller of the two buffers is finished
  simp only [settle]
  rcases hl.apart with ha | ha | ⟨t', u', ht', hu', hfin⟩
  · exact .inl (by simp [ha])
  · exact .inr (.inl (by simp [ha]))
  rw [hc.reader] at ht'
  rw [hc.writer] at hu'
  cases ht'
  cases hu'
  rcases hfin with hf | hf
  · exact .inl (by simp [hf])
  · exact .inr (.inl (by simp [hf]))

theorem requestCancel_copying {s : EndpointState} (h : s.phase = .copying) :
    ∃ s', s.requestCancel false = some s' := by
  simp [requestCancel, h]

theorem Ok.spoiled (ok : w.Ok) (hc : w.Copying i j t u rb qb) {f : FailedCopy V}
    (hsource : f.source.length = (w.buffer qb).cells.length)
    (hdest : f.destination.length = (w.buffer rb).cells.length) : (w.spoiled i j t rb qb f).Ok := by
  obtain ⟨hrp, hrc, hqp, hqc⟩ := hc.room ok
  have hl := ok.links hc.peer
  unfold remaining at hrc hqc
  obtain ⟨s₁, h₁⟩ := requestCancel_copying ((ok.ends i).transfer hc.reader).2.1
  obtain ⟨s₂, h₂⟩ := requestCancel_copying ((ok.ends j).transfer hc.writer).2.1
  unfold EndpointWorld.spoiled
  simp only [h₁, h₂]
  refine ok.copyBack hc rfl rfl (fun buffer hb => ?_) (fun buffer hb => ?_) hc.read hc.write ?_
  · refine (ok.ends i).poison hc.read h₁ ?_ ?_
    · rwa [hb]
    · rw [hb]
      simp only [hdest]
      split <;> omega
  · refine (ok.ends j).poison hc.write h₂ ?_ ?_
    · rwa [hb]
    · rw [hb]
      simp only [hsource]
      split <;> omega
  · exact { hl with apart := .inl rfl, copying := rfl }

end Copy

theorem Ok.copied (ok : w.Ok) {failure : Option (FailedCopy V)}
    (h : w.copied i failure = some w') : w'.Ok := by
  obtain ⟨j, t, u, rb, qb, hc, ⟨-, rfl⟩ | ⟨f, -, hs, hd, rfl⟩⟩ := copied_spec h
  · exact ok.transferred hc
  · exact ok.spoiled hc hs hd

/-! ## 5. Delivery -/

section

variable (ok : w.Ok)

include ok

theorem Ok.endOk_delivered (hq : (w.endpoint i).transfer = none)
    (htake : (w.endpoint i).state.takeEvent = some (word, state)) (buffer : BufferRef → Buffer V) :
    EndOk i (w.deliveredEnd i word state cleanup) buffer := by
  obtain ⟨-, result, phase, hout, -, rfl⟩ := takeEvent_spec htake
  have hphase := outcome_phase hout
  exact
  { ok.ends i with
    blank := fun hb => ⟨((ok.ends i).blank hb).1, rfl⟩
    sound := .takeEvent htake
    operation := by
      show none.isSome ↔ phase = .copying ∨ phase = .cancelling
      rcases hphase with rfl | rfl <;> simp
    available := nofun
    lent := nofun
    guest := nofun
    closed := fun hh => ⟨((ok.ends i).closed hh).1, rfl⟩
    transfer := fun ht => by cases hq.symm.trans ht
    lawful := ((ok.ends i).reported (w.report_cases i word cleanup)).1
    hook := by
      show hookOpen (_ :: _) ↔ none = some (BufferRef.guest i)
      rw [((ok.ends i).reported (w.report_cases i word cleanup)).2]
      simp }

/-- **A delivery** gives the buffer back. -/
theorem Ok.deliver
    (hq : (w.endpoint i).transfer = none) (h : w.deliver i cleanup = some w') : w'.Ok := by
  obtain ⟨word, state, htake, rfl⟩ := deliver_spec h
  refine ok.single (by rw [put_endpoint, unlend_endpoint]) (fun r => ?_)
    (ok.endOk_delivered hq htake _) rfl (fun j hj => { ok.links hj with apart := .inl rfl }) ?_
  · by_cases hr : (w.endpoint i).operation = some r
    · exact .inr (.inr hr)
    · exact .inl ((unlend_buffer w i r).2 hr)
  cases ho : (w.endpoint i).operation with
  | none =>
    refine (ok.loans_kept ho.symm).congr fun r => ?_
    rw [put_buffer, (unlend_buffer w i r).2 (by simp [ho])]
  | some r =>
    refine (ok.loans.drop ho).congr fun s => ?_
    rw [put_buffer]
    by_cases hs : s = r
    · subst hs
      simp [(unlend_buffer w i s).1 ho]
    · rw [(unlend_buffer w i s).2 (by rw [ho]; exact fun hh => hs (some.inj hh).symm)]
      simp [hs]

/-- Bookkeeping that the invariant does not read. -/
theorem Ok.tweak {e : Endpoint V} (hend : EndOk i e w.buffer)
    (hpeer : e.peer = (w.endpoint i).peer) (hop : e.operation = (w.endpoint i).operation)
    (hlink : ∀ {j} {p : Endpoint V}, Linked i (w.endpoint i) j p → Linked i e j p) :
    (w.put i e).Ok :=
  ok.put hend hpeer hop fun _ hj => hlink (ok.links (hpeer ▸ hj))

theorem Ok.take (h : w.take i cleanup = some w') : w'.Ok := by
  obtain ⟨hn, h⟩ := ite_none_pass h
  exact ok.deliver (delivering_eq_false fun hd => hn (.inr (.inl hd))) h

theorem Ok.poll {set : Nat} (h : w.poll i set cleanup = some w') : w'.Ok := by
  obtain ⟨hn, h⟩ := ite_none_pass h
  exact ok.deliver (delivering_eq_false fun hd => hn (.inr (.inr (.inr (.inl hd))))) h

theorem Ok.waits (waits : Bool) : (w.put i { w.endpoint i with syncWaiter := waits }).Ok :=
  ok.tweak { ok.ends i with } rfl rfl fun hl => { hl with }

theorem Ok.waitEnd (h : w.waitEnd i cleanup = some w') : w'.Ok := by
  obtain ⟨hn, h⟩ := ite_none_pass h
  have hq := delivering_eq_false fun hd => hn (.inr (.inr (.inr (.inl hd))))
  split at h
  · cases h
    exact ok.waits _
  · rename_i hd
    cases h
    exact (ok.waits _).deliver (by simpa using hq) hd

theorem Ok.cancel (h : w.cancel i = some w') : w'.Ok := by
  obtain ⟨hq, state, hc, rfl⟩ := cancel_spec h
  obtain ⟨hcopy, hphase, hf, hd, -⟩ := requestCancel_spec hc
  refine ok.tweak ((ok.ends i).restate none (.requestCancel hc) ?_ hf hd
    nofun hq) rfl rfl fun hl => { hl with apart := .inl rfl }
  rw [(ok.ends i).operation, hcopy, hphase]
  simp

end

/-! ## 6. Closing and forwarding -/

/-- A consumed end. -/
theorem Ok.endOk_consumed (ok : w.Ok) (hop : (w.endpoint i).operation = none)
    (hq : (w.endpoint i).transfer = none) (buffer : BufferRef → Buffer V) :
    EndOk i (w.endpoint i).consumed buffer :=
  { ok.ends i with
    blank := fun _ => ⟨rfl, hop⟩
    lent := fun {r} hr => by
      have hr' : (w.endpoint i).operation = some r := hr
      rw [hop] at hr'
      cases hr'
    closed := fun _ => ⟨rfl, hop⟩
    dropped := fun _ hc => by cases hc
    transfer := fun {t} ht => by
      have ht' : (w.endpoint i).transfer = some t := ht
      rw [hq] at ht'
      cases ht' }

theorem Ok.close (ok : w.Ok) (h : w.close i = some w') : w'.Ok := by
  obtain ⟨hop, hq, -, ⟨hpeer, rfl⟩ | ⟨j, state, hpeer, hdrop, rfl⟩⟩ := close_spec h
  · refine ok.put (ok.endOk_consumed hop hq _) hpeer.symm rfl fun j hj => ?_
    cases hj
  obtain ⟨-, hphase, hf, hd, -⟩ := dropPeer_spec hdrop
  have hqj := (ok.links hpeer).quiet hq
  refine ok.pair hpeer rfl (fun r => .inl rfl) (ok.endOk_consumed hop hq _) ?_ rfl
    (.inr ⟨rfl, rfl⟩) (ok.loans_kept rfl)
  exact
  { ok.ends j with
    blank := fun hb => ⟨rfl, ((ok.ends j).blank hb).2⟩
    sound := (ok.ends j).sound.dropPeer hdrop
    operation := by
      show (w.endpoint j).operation.isSome ↔ state.phase = .copying ∨ state.phase = .cancelling
      rw [hphase]
      exact (ok.ends j).operation
    available := nofun
    lent := fun hr => by
      obtain ⟨hp, hle, hs⟩ := (ok.ends j).lent hr
      exact ⟨hp, hle, fun hh => hs (hf ▸ hh)⟩
    closed := fun hh => ⟨rfl, ((ok.ends j).closed hh).2⟩
    dropped := fun _ _ => by simp [hd]
    type := hf.trans (ok.ends j).type
    transfer := fun ht => by cases hqj.symm.trans ht }

section Forward

variable {d r q : Nat}

/-- The four ends are four. -/
theorem Joint.ne (ok : w.Ok) (hj : w.Joint s d r q) :
    s ≠ d ∧ s ≠ r ∧ s ≠ q ∧ d ≠ r ∧ d ≠ q ∧ r ≠ q := by
  have hls := ok.links hj.source
  have hld := ok.links hj.destination
  have hq : (w.endpoint q).readable = false := by rw [hls.sides, hj.readable, Bool.not_true]
  have hr : (w.endpoint r).readable := by rw [hld.sides, hj.writable, Bool.not_false]
  refine ⟨?_, ?_, hls.ne.symm, hld.ne.symm, fun h => hj.distinct h.symm, ?_⟩
  · rintro rfl
    have := hj.readable
    rw [hj.writable] at this
    cases this
  · rintro rfl
    -- the source would be the reader behind the destination
    have := hj.source
    rw [hld.right] at this
    exact hj.distinct (some.inj this).symm
  · rintro rfl
    rw [hq] at hr
    cases hr

theorem Joint.endpoints (ok : w.Ok) (hj : w.Joint s d r q) (reader writer : Endpoint V) :
    (w.link s d r q reader writer).endpoint s = (w.endpoint s).consumed ∧
      (w.link s d r q reader writer).endpoint d = (w.endpoint d).consumed ∧
      (w.link s d r q reader writer).endpoint r = { reader with peer := some q } ∧
      (w.link s d r q reader writer).endpoint q = { writer with peer := some r } ∧
      ∀ k, k ≠ s → k ≠ d → k ≠ r → k ≠ q →
        (w.link s d r q reader writer).endpoint k = w.endpoint k := by
  obtain ⟨hsd, hsr, hsq, hdr, hdq, hrq⟩ := hj.ne ok
  unfold link
  refine ⟨?_, ?_, ?_, ?_, fun k h1 h2 h3 h4 => ?_⟩
  · simp [update_of_ne hsd, update_of_ne hsr, update_of_ne hsq]
  · simp [update_of_ne hdr, update_of_ne hdq]
  · simp [update_of_ne hrq]
  · simp
  · simp [update_of_ne h1, update_of_ne h2, update_of_ne h3, update_of_ne h4]

/-- The outer ends become peers. -/
theorem Ok.link (ok : w.Ok) (hj : w.Joint s d r q) {reader writer : Endpoint V}
    (hr : EndOk r { reader with peer := some q } w.buffer)
    (hq : EndOk q { writer with peer := some r } w.buffer)
    (hro : reader.operation = (w.endpoint r).operation)
    (hqo : writer.operation = (w.endpoint q).operation)
    (hlink : Linked r { reader with peer := some q } q { writer with peer := some r }) :
    (w.link s d r q reader writer).Ok := by
  obtain ⟨hes, hed, her, heq, hother⟩ := hj.endpoints ok reader writer
  have hls := ok.links hj.source
  have hld := ok.links hj.destination
  refine ok.change (C := fun k => k = s ∨ k = d ∨ k = r ∨ k = q)
    ⟨fun {k l} hk hl => ?_, fun {k} hk => ?_, fun _ => .inl rfl⟩ (fun k hk => ?_)
    (fun k l hk hkl => ?_) (loans_same ok ?_ fun _ => rfl)
  · rcases hk with rfl | rfl | rfl | rfl
    · rw [hj.source] at hl
      exact .inr (.inr (.inr (some.inj hl).symm))
    · rw [hj.destination] at hl
      exact .inr (.inr (.inl (some.inj hl).symm))
    · rw [hld.right] at hl
      exact .inr (.inl (some.inj hl).symm)
    · rw [hls.right] at hl
      exact .inl (some.inj hl).symm
  · simp only [not_or] at hk
    exact hother k hk.1 hk.2.1 hk.2.2.1 hk.2.2.2
  · rcases hk with rfl | rfl | rfl | rfl
    · rw [hes]
      exact ok.endOk_consumed hj.sourceFree hj.sourceQuiet _
    · rw [hed]
      exact ok.endOk_consumed hj.destinationFree hj.destinationQuiet _
    · rwa [her]
    · rwa [heq]
  · rcases hk with rfl | rfl | rfl | rfl
    · rw [hes] at hkl
      cases hkl
    · rw [hed] at hkl
      cases hkl
    · rw [her] at hkl ⊢
      cases hkl
      rwa [heq]
    · rw [heq] at hkl ⊢
      cases hkl
      rw [her]
      exact hlink.symm
  · simp [EndpointWorld.link, operation_update, Endpoint.consumed, hro, hqo]

/-- **Forwarding** keeps the invariant. -/
theorem Ok.forward (ok : w.Ok) {refused : Bool} (h : w.forward s d refused = some w') : w'.Ok := by
  have hjoint : ∀ {r q}, w.Joint s d r q → ((w.endpoint r).transfer = none ∧
      (w.endpoint q).transfer = none) ∧ (w.endpoint r).peer.isSome ∧ (w.endpoint q).peer.isSome ∧
      ((w.endpoint q).readable = !(w.endpoint r).readable) ∧
      (w.endpoint q).type = (w.endpoint r).type ∧
      (w.endpoint r).initialized ∧ (w.endpoint q).initialized := by
    intro r q hj
    have hls := ok.links hj.source
    have hld := ok.links hj.destination
    refine ⟨⟨hld.quiet hj.destinationQuiet, hls.quiet hj.sourceQuiet⟩, by simp [hld.right],
      by simp [hls.right], ?_, ?_, hld.opened.2, hls.opened.2⟩
    · rw [hls.sides, hld.sides, hj.readable, hj.writable]
      rfl
    · rw [hls.types, hld.types, hj.types]
  cases forward_spec h with
  | closed h₁ h₂ => exact (ok.close h₁).close h₂
  | @joined r q hj hav =>
    obtain ⟨⟨htr, htq⟩, hpr, hpq, hside, htype, hinit⟩ := hjoint hj
    refine ok.link hj ((ok.ends r).relink hpr) ((ok.ends q).relink hpq) rfl rfl ?_
    exact ⟨rfl, rfl, hside, htype, hinit, hav.imp_right .inl, by simp [htr, htq]⟩
  | @copying r q rb qb nextRead nextWrite count hj hrb hqb hcount hpos hnr hnw =>
    obtain ⟨-, hpr, hpq, hside, htype, hinit⟩ := hjoint hj
    obtain ⟨-, -, -, -, -, rfl⟩ := notify_spec hnr
    obtain ⟨-, -, -, -, -, rfl⟩ := notify_spec hnw
    obtain ⟨hro, hrc⟩ := (ok.ends r).available hrb
    obtain ⟨hqo, hqc⟩ := (ok.ends q).available hqb
    refine ok.link hj (.relink { ok.ends r with transfer := fun {t} ht => ?_ } hpr)
      (.relink { ok.ends q with transfer := fun {t} ht => ?_ } hpq) rfl rfl
      ⟨rfl, rfl, hside, htype, hinit, ?_, rfl⟩
    · cases ht
      refine ⟨hpr, hrc, .notify hnr, hrc, rfl, rfl, fun {x} hx => ?_⟩
      obtain rfl : rb = x := some.inj (hro.symm.trans hx)
      rw [hcount]
      exact min_le_left _ _
    · cases ht
      refine ⟨hpq, hqc, .notify hnw, hqc, rfl, rfl, fun {x} hx => ?_⟩
      obtain rfl : qb = x := some.inj (hqo.symm.trans hx)
      rw [hcount]
      exact min_le_right _ _
    · -- the count is the remainder of one of the two
      refine .inr (.inr ⟨_, _, rfl, rfl, ?_⟩)
      simp only [beq_iff_eq]
      omega
  | @emptyWrite r q qb state hj hqb hq0 hst =>
    obtain ⟨⟨htr, htq⟩, hpr, hpq, hside, htype, hinit⟩ := hjoint hj
    obtain ⟨-, -, -, -, -, rfl⟩ := notify_spec hst
    have hend := (ok.ends q).restate none (.notify hst)
      (ok.ends q).operation rfl rfl nofun htq
    exact ok.link hj ((ok.ends r).relink hpr) (hend.relink hpq) rfl rfl
      ⟨rfl, rfl, hside, htype, hinit, .inr (.inl rfl), by simp [htr, htq]⟩
  | @emptyRead r q rb state hj hrb hr0 hst =>
    obtain ⟨⟨htr, htq⟩, hpr, hpq, hside, htype, hinit⟩ := hjoint hj
    obtain ⟨-, -, -, -, -, rfl⟩ := notify_spec hst
    have hend := (ok.ends r).restate none (.notify hst)
      (ok.ends r).operation rfl rfl nofun htr
    exact ok.link hj (hend.relink hpr) ((ok.ends q).relink hpq) rfl rfl
      ⟨rfl, rfl, hside, htype, hinit, .inl rfl, by simp [htr, htq]⟩

end Forward

end EndpointWorld

end TurboWasm
