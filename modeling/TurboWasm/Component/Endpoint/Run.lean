/-
# The representation invariant over runs

The operations that only move an end between its holders, and the invariant of every reachable
state.  The last theorem reads it off for the live ends.
-/
import TurboWasm.Component.Endpoint.Invariant

namespace TurboWasm

open Lib Function

variable {V : Type}

namespace EndpointWorld

variable {w : EndpointWorld V} {cells : List (Option V)} {i : Nat} {synchronous : Bool} {r : Nat}

/-! ## 1. Opening, filling and moving -/

/-- The peer of an end whose buffer is lent is what it was. -/
theorem Ok.lendTo_peer {r : BufferRef} (ok : w.Ok) (hj : (w.endpoint i).peer = some j) :
    (w.lendTo i r available state transfer).endpoint j = w.endpoint j := by
  simp [EndpointWorld.lendTo, update_of_ne (ok.links hj).ne]

theorem openPair_spec (h : w.openPair r q type rt qt = some w') :
    r ≠ q ∧ (w.endpoint r).initialized = false ∧ (w.endpoint q).initialized = false ∧
      w'.endpoint r = initial type true q rt ∧ w'.endpoint q = initial type false r qt ∧
      w' = (w.put r (initial type true q rt)).put q (initial type false r qt) := by
  obtain ⟨hn, h⟩ := ite_none_pass h
  cases h
  simp only [not_or, Bool.not_eq_true] at hn
  exact ⟨hn.1, hn.2.1, hn.2.2, by simp [update_of_ne hn.1], by simp, rfl⟩

theorem endOk_initial (i : Nat) (type : EndpointType) (readable : Bool) (peer : Nat)
    (inTable : Bool) (buffer : BufferRef → Buffer V) :
    EndOk i (initial type readable peer inTable) buffer where
  blank h := by cases h
  sound h := by cases h
  operation := by simp [initial]
  available h := by cases h
  lent h := by cases h
  guest h := by cases h
  closed h := by cases h
  dropped _ _ := by simp [initial]
  type := rfl
  transfer h := by cases h
  lawful := trivial
  hook := by simp [initial, hookOpen]

theorem Ok.openPair (ok : w.Ok) (h : w.openPair r q type rt qt = some w') : w'.Ok := by
  obtain ⟨-, hr, hq, her, heq, rfl⟩ := openPair_spec h
  have hlink : Linked (V := V) r (initial type true q rt) q (initial type false r qt) :=
    ⟨rfl, rfl, rfl, rfl, ⟨rfl, rfl⟩, .inl rfl, rfl⟩
  refine ok.change (C := fun k => k = r ∨ k = q) ⟨fun {k l} hk hl => ?_, fun {k} hk => ?_,
    fun _ => .inl rfl⟩ (fun k hk => ?_) (fun k l hk hkl => ?_)
    (loans_same ok ?_ fun _ => rfl)
  · -- empty storage has no peers
    rcases hk with rfl | rfl
    · rw [((ok.ends k).blank hr).1] at hl
      cases hl
    · rw [((ok.ends k).blank hq).1] at hl
      cases hl
  · simp only [not_or] at hk
    simp [update_of_ne hk.1, update_of_ne hk.2]
  · rcases hk with rfl | rfl
    · rw [her]
      exact endOk_initial ..
    · rw [heq]
      exact endOk_initial ..
  · rcases hk with rfl | rfl
    · rw [her] at hkl ⊢
      cases hkl
      rwa [heq]
    · rw [heq] at hkl ⊢
      cases hkl
      rw [her]
      exact hlink.symm
  · have hr' : (initial type true q rt : Endpoint V).operation = (w.endpoint r).operation :=
      ((ok.ends r).blank hr).2.symm
    have hq' : (initial type false r qt : Endpoint V).operation = (w.endpoint q).operation :=
      ((ok.ends q).blank hq).2.symm
    simp [operation_update, hr', hq']

/-- A buffer that nobody was lent may change. -/
theorem Ok.store (ok : w.Ok) {r : BufferRef} {b : Buffer V} (hr : (w.buffer r).leased = false)
    (hb : b.leased = false) : (w.store r b).Ok := by
  refine ok.change (C := fun _ => False)
    ⟨fun h => h.elim, fun _ => rfl, fun s => update_unlent hr b s⟩ (fun _ h => h.elim)
    (fun _ _ h => h.elim) (loans_same ok rfl fun s => ?_)
  by_cases hs : s = r
  · subst hs
    simp [hr, hb]
  · simp [update_of_ne hs]

theorem Ok.fill (ok : w.Ok) {k : Nat} {kind : BufferKind}
    (h : w.fill k kind cells = some w') : w'.Ok := by
  obtain ⟨hn, h⟩ := ite_none_pass h
  cases h
  exact ok.store (by simpa using hn) rfl

/-- An end with its own descriptor set up, pinned for a synchronous operation. -/
def prepared (w : EndpointWorld V) (i : Nat) (cells : List (Option V)) (synchronous : Bool) :
    EndpointWorld V :=
  (w.store (.guest i) { kind := .guest, cells }).put i
    { w.endpoint i with syncWaiter := synchronous || (w.endpoint i).syncWaiter }

theorem submitGuest_spec (h : w.submitGuest i cells synchronous refused = some w') :
    (w.buffer (.guest i)).leased = false ∧
      (w.prepared i cells synchronous).submit i (.guest i) synchronous refused = some w' := by
  obtain ⟨hn, h⟩ := ite_none_pass h
  simp only [not_or] at hn
  exact ⟨by simpa using hn.2.2.1, h⟩

section

variable (ok : w.Ok)

include ok

theorem Ok.prepared
    (hfree : (w.buffer (.guest i)).leased = false) : (w.prepared i cells synchronous).Ok := by
  have ok' := ok.store (b := { kind := .guest, cells }) hfree rfl
  exact ok'.tweak { ok'.ends i with } rfl rfl fun hl => { hl with }

theorem Ok.submitGuest (h : w.submitGuest i cells synchronous refused = some w') : w'.Ok := by
  obtain ⟨hfree, h⟩ := submitGuest_spec h
  exact (ok.prepared hfree).submit (fun k hk => by cases hk; rfl) h

theorem Ok.releaseValue {transferred : Bool}
    (h : w.releaseValue i transferred = some w') : w'.Ok := by
  obtain ⟨_, h⟩ := ite_none_pass h
  have ok' : (w.put i { w.endpoint i with place := .host }).Ok :=
    ok.tweak { ok.ends i with } rfl rfl fun hl => { hl with }
  rcases ite_cases h with ⟨_, h⟩ | ⟨_, h⟩
  · cases h
    cases hc : (w.put i { w.endpoint i with place := .host }).close i with
    | none => exact ok'
    | some w₁ => exact ok'.close hc
  · cases h
    exact ok'

end

/-! ## 2. Runs -/

/-- **One operation** keeps the invariant. -/
theorem Ok.act (ok : w.Ok) {a : EndpointAction V} (h : w.act a = some w') : w'.Ok := by
  cases a with
  | openPair reader writer type readerTable writerTable => exact ok.openPair h
  | fill k kind cells => exact ok.fill h
  | submit i k refused => exact ok.submit (fun _ hk => by cases hk) h
  | submitGuest i cells synchronous refused => exact ok.submitGuest h
  | copied i failure => exact ok.copied h
  | take i cleanup => exact ok.take h
  | poll i set cleanup => exact ok.poll h
  | waitEnd i cleanup => exact ok.waitEnd h
  | cancel i => exact ok.cancel h
  | close i => exact ok.close h
  | forward s d refused => exact ok.forward h
  | releaseValue i transferred => exact ok.releaseValue h
  | waitCancel i | join i set | intoValue i | attachReadable i | takeValue i | lower i
  | finishLower i commit =>
    -- only the bookkeeping of one end changes
    obtain ⟨_, h⟩ := ite_none_pass h
    cases h
    exact ok.tweak { ok.ends i with } rfl rfl fun hl => { hl with }

theorem Ok.run (hrun : EndpointRun w w') (ok : w.Ok) : w'.Ok :=
  invariant_run (fun _ _ hstep oks => hstep.elim fun _ ha => oks.act ha) hrun ok

/-- What holds of every live end. -/
structure LiveLaws (w : EndpointWorld V) (i : Nat) : Prop where
  /-- The peer is symmetric. -/
  symmetric : ∀ j, (w.endpoint i).peer = some j → (w.endpoint j).peer = some i
  /-- There is a peer exactly while it has not been dropped. -/
  dropped : (w.endpoint i).peer = none ↔ (w.endpoint i).state.peerDropped
  operation : (w.endpoint i).operation ≠ none ↔
    (w.endpoint i).state.phase = .copying ∨ (w.endpoint i).state.phase = .cancelling
  available : (w.endpoint i).available = none ∨
    (w.endpoint i).available = (w.endpoint i).operation
  /-- Outside a copy of its own, at most one end of a pair has a buffer available. -/
  apart : (w.endpoint i).delivering = false → ∀ j, (w.endpoint i).peer = some j →
    (w.endpoint i).available = none ∨ (w.endpoint j).available = none
  /-- The lent buffer is leased. -/
  leased : ∀ r, (w.endpoint i).operation = some r → (w.buffer r).leased
  /-- A pending event can be taken. -/
  deliverable : (w.endpoint i).state.pendingEvent →
    (w.endpoint i).state.takeEvent.isSome
  /-- The release hook runs once for each guest buffer that was admitted, and is outstanding exactly
  while that operation is. -/
  hooks : Always EndpointEvent.Lawful (w.endpoint i).history ∧
    (hookOpen (w.endpoint i).history ↔ (w.endpoint i).operation = some (.guest i))

/-- Of two ends with no copy between them, one has no buffer available. -/
theorem Ok.apart (ok : w.Ok) (hj : (w.endpoint i).peer = some j)
    (hd : (w.endpoint i).delivering = false) :
    (w.endpoint i).available = none ∨ (w.endpoint j).available = none := by
  rcases (ok.links hj).apart with ha | ha | ⟨t, u, ht, -⟩
  · exact .inl ha
  · exact .inr ha
  · simp [Endpoint.delivering, ht] at hd

/-- Between copies no pair has a buffer available at both ends. -/
theorem one_available (hrun : EndpointRun .start w) (hidle : ∀ i, (w.endpoint i).delivering = false)
    (hj : (w.endpoint i).peer = some j) :
    (w.endpoint i).available = none ∨ (w.endpoint j).available = none :=
  (Ok.run hrun .start).apart hj (hidle i)

/-- **The representation invariant of ends**, in every state of every run. -/
theorem endpoint_invariant (w : EndpointWorld V) (hrun : EndpointRun .start w) :
    (∀ i, (w.endpoint i).live → w.LiveLaws i) ∧
      ∀ r, (w.buffer r).leased ↔ ∃! i, (w.endpoint i).operation = some r := by
  have ok := Ok.run hrun .start
  refine ⟨fun i hlive => ?_, fun r => ⟨fun hr => ?_, fun ⟨i, hi, _⟩ => ok.loans.used hi⟩⟩
  rotate_left
  · obtain ⟨i, hi⟩ := ok.loans.held hr
    exact ⟨i, hi, fun j hj => ok.loans.inj hj hi⟩
  have hend := ok.ends i
  simp only [Endpoint.live, Bool.and_eq_true, Bool.not_eq_true'] at hlive
  refine
  { symmetric := fun j hj => (ok.links hj).right
    dropped := hend.dropped hlive.1.1 hlive.1.2
    operation := ?_
    available := ?_
    apart := fun hd j hj => ok.apart hj hd
    leased := fun r hr => ok.loans.used hr
    deliverable := hend.sound.deliverable
    hooks := ⟨hend.lawful, hend.hook⟩ }
  · rw [← hend.operation, ← Option.isSome_iff_ne_none]
  · cases ha : (w.endpoint i).available with
    | none => exact .inl rfl
    | some r => exact .inr (hend.available ha).1.symm

/-- A read of three elements meets a write of two; the reader's event is still to be taken. -/
def shortWrite : List (EndpointAction Nat) :=
  [.openPair 0 1 ⟨false, 0⟩ false true, .fill 0 .host [none, none, none], .submit 0 0 false,
    .submitGuest 1 [some 7, some 8] false false, .copied 0 none, .take 1 none]

theorem endpoint_invariant_short_write : ∃ w : EndpointWorld Nat, EndpointRun .start w ∧
    (w.endpoint 0).live ∧ (w.endpoint 0).available = some (.host 0) ∧
    (w.buffer (.host 0)).cells = [some 7, some 8, none] ∧ w.LiveLaws 0 := by
  have hrun : ∃ w, shortWrite.foldlM act start = some w ∧ (w.endpoint 0).live ∧
      (w.endpoint 0).available = some (.host 0) ∧
      (w.buffer (.host 0)).cells = [some 7, some 8, none] := ⟨_, rfl, rfl, rfl, rfl⟩
  obtain ⟨w, hw, hlive, hav, hcells⟩ := hrun
  exact ⟨w, run_of_actions hw, hlive, hav, hcells,
    (endpoint_invariant w (run_of_actions hw)).1 0 hlive⟩

/-- **Connections are typed**, however the ends were forwarded: they join a readable and a writable
end of one type, which copy the same number of elements, and no operation runs past its buffer. -/
theorem endpoint_links_typed (hrun : EndpointRun .start w) :
    (∀ i j, (w.endpoint i).peer = some j → (w.endpoint j).readable = !(w.endpoint i).readable ∧
      (w.endpoint j).type = (w.endpoint i).type ∧
      (w.endpoint i).transfer.map (·.count) = (w.endpoint j).transfer.map (·.count)) ∧
    ∀ i r, (w.endpoint i).operation = some r → (w.buffer r).progress ≤ (w.buffer r).cells.length ∧
      ((w.endpoint i).type.future → (w.buffer r).cells.length = 1) := by
  have ok := Ok.run hrun .start
  constructor
  · intro i j hj
    exact ⟨(ok.links hj).sides, (ok.links hj).types, (ok.links hj).copying⟩
  · intro i r hr
    obtain ⟨hle, -, hone⟩ := (ok.ends i).lent hr
    exact ⟨hle, fun hf => hone ((ok.ends i).type ▸ hf)⟩

theorem endpoint_links_typed_short_write : ∃ w : EndpointWorld Nat, EndpointRun .start w ∧
    (w.endpoint 1).type = (w.endpoint 0).type := by
  obtain ⟨w, hw, hp⟩ : ∃ w, shortWrite.foldlM act start = some w ∧ (w.endpoint 0).peer = some 1 :=
    ⟨_, rfl, rfl⟩
  have hrun := run_of_actions hw
  exact ⟨w, hrun, ((endpoint_links_typed hrun).1 0 1 hp).2.1⟩

end EndpointWorld

end TurboWasm
