/-
# What the operations on ends do

One inversion lemma for each operation: what it has checked when it succeeds, and the state it leaves.
The invariant and the conservation law are proved from these and never look into the operations.
-/
import TurboWasm.Component.Endpoint.Model

namespace TurboWasm

open Lib Option Function

variable {V : Type}

namespace EndpointWorld

variable {w w' : EndpointWorld V}

@[simp] theorem put_endpoint (w : EndpointWorld V) (i : Nat) (e : Endpoint V) :
    (w.put i e).endpoint = update w.endpoint i e := rfl

@[simp] theorem put_buffer (w : EndpointWorld V) (i : Nat) (e : Endpoint V) :
    (w.put i e).buffer = w.buffer := rfl

@[simp] theorem store_endpoint (w : EndpointWorld V) (r : BufferRef) (b : Buffer V) :
    (w.store r b).endpoint = w.endpoint := rfl

@[simp] theorem store_buffer (w : EndpointWorld V) (r : BufferRef) (b : Buffer V) :
    (w.store r b).buffer = update w.buffer r b := rfl

/-! ## 1. Submitting -/

/-- The state of an end whose operation has begun. -/
def begun (w : EndpointWorld V) (i : Nat) : EndpointState :=
  { (w.endpoint i).state with phase := .copying, progress := 0 }

/-- What `submit` has checked. -/
structure Admissible (w : EndpointWorld V) (i : Nat) (r : BufferRef) : Prop where
  live : (w.endpoint i).live
  whole : (w.endpoint i).failure = none
  free : (w.endpoint i).operation = none
  quiet : (w.endpoint i).transfer = none
  idle : (w.endpoint i).state.phase = .idle
  unlent : (w.buffer r).leased = false
  length : (w.buffer r).cells.length ≤ copyMaxLength
  single : (w.endpoint i).state.future → (w.buffer r).cells.length = 1
  full : (w.endpoint i).readable = false → ∀ c ∈ (w.buffer r).cells, c.isSome
  pending : (w.endpoint i).state.pendingEvent → (w.endpoint i).state.peerDropped

/-- The five ways in which an operation is admitted. -/
inductive Submitted (w : EndpointWorld V) (i : Nat) (r : BufferRef) : EndpointWorld V → Prop
  /-- The peer is gone, and the event that says so is pending. -/
  | dropped : (w.endpoint i).peer = none → (w.endpoint i).state.pendingEvent →
      (w.endpoint i).state.peerDropped →
      Submitted w i r (w.lendTo i r false (w.begun i) none)
  /-- The peer has nothing to offer yet. -/
  | waiting {j : Nat} : (w.endpoint i).peer = some j → (w.endpoint j).available = none →
      Submitted w i r (w.lendTo i r true (w.begun i) none)
  /-- Elements are copied. -/
  | copying {j : Nat} {o : BufferRef} {self peer : EndpointState} {count : Nat} :
      (w.endpoint i).peer = some j → (w.endpoint j).available = some o →
      count = min (w.buffer r).cells.length (w.buffer o).remaining → count ≠ 0 →
      (w.begun i).notify count = some self →
      (w.endpoint j).state.notify ((w.buffer o).progress + count) = some peer →
      Submitted w i r ((w.lendTo i r false { (w.endpoint i).state with phase := .copying }
        (some ⟨count, self, true⟩)).put j
        { w.endpoint j with transfer := some ⟨count, peer, count == (w.buffer o).remaining⟩ })
  /-- The peer's operation of length zero is finished, this one waits. -/
  | finishing {j : Nat} {o : BufferRef} {peer : EndpointState} :
      (w.endpoint i).peer = some j → (w.endpoint j).available = some o →
      (w.buffer o).remaining = 0 → (w.endpoint j).state.notify 0 = some peer →
      Submitted w i r ((w.lendTo i r true (w.begun i) none).put j
        { w.endpoint j with available := none, state := peer })
  /-- This operation has length zero and is finished. -/
  | empty {j : Nat} {o : BufferRef} {self : EndpointState} :
      (w.endpoint i).peer = some j → (w.endpoint j).available = some o →
      (w.buffer r).cells.length = 0 → (w.begun i).notify 0 = some self →
      Submitted w i r (w.lendTo i r false self none)

/-- A buffer is admitted, and what is available on the other side is copied. -/
theorem submit_spec
    (h : w.submit i r pinned refused = some w') : w.Admissible i r ∧ w.Submitted i r w' := by
  unfold submit at h
  obtain ⟨hn, h⟩ := ite_none_pass h
  simp only [not_or, Bool.not_eq_false] at hn
  obtain ⟨hready, hacc, -⟩ := hn
  split at h
  · cases h
  rename_i next hbegin
  obtain ⟨hidle, hpend, rfl⟩ := EndpointState.beginCopy_spec hbegin
  simp only [Endpoint.ready, Bool.and_eq_true, isNone_iff_eq_none, Bool.not_eq_true',
    Endpoint.delivering, isSome_eq_false_iff] at hready
  obtain ⟨⟨⟨⟨⟨hfail, hlive⟩, hop⟩, htr⟩, -⟩, -⟩ := hready
  simp only [Endpoint.accepts, Bool.and_eq_true, Bool.not_eq_true', decide_eq_true_eq] at hacc
  obtain ⟨⟨⟨hleased, hlen⟩, hfut⟩, hcells⟩ := hacc
  refine ⟨⟨hlive, hfail, hop, htr, hidle, hleased, hlen, fun hf => ?_, fun hr => ?_, hpend⟩, ?_⟩
  · simpa [hf] using hfut
  · rw [hr] at hcells
    simpa using hcells
  split at h
  · rename_i hpeer
    obtain ⟨hn, h⟩ := ite_none_pass h
    cases h
    simp only [not_or, Bool.not_eq_false] at hn
    exact .dropped hpeer hn.2 hn.1
  rename_i j hpeer
  split at h
  · rename_i hav
    cases h
    exact .waiting hpeer hav
  rename_i o hav
  unfold submitMeet at h
  simp only at h
  obtain ⟨hn, h⟩ := ite_none_pass h
  rcases ite_cases h with ⟨⟨hlen0, hrem0⟩, h⟩ | ⟨hzero, h⟩
  · split at h
    · rename_i self peer hself hpeer'
      cases h
      exact .copying hpeer hav rfl (by omega) hself hpeer'
    · cases h
  rcases ite_cases h with ⟨hcase, h⟩ | ⟨hcase, h⟩
  · split at h
    · cases h
    · rename_i peer hpeer'
      cases h
      refine .finishing hpeer hav ?_ hpeer'
      rcases hcase with hl | ⟨-, hr⟩
      · exact not_not.mp fun hr => hzero ⟨hl, hr⟩
      · exact hr
  · split at h
    · cases h
    · rename_i self hself
      cases h
      exact .empty hpeer hav (not_not.mp fun hl => hcase (.inl hl)) hself

/-! ## 2. The end of a copy -/

/-- The ends and buffers of a copy that comes back. -/
structure Copying (w : EndpointWorld V) (i j : Nat) (t u : Transfer) (rb qb : BufferRef) :
    Prop where
  reader : (w.endpoint i).transfer = some t
  writer : (w.endpoint j).transfer = some u
  peer : (w.endpoint i).peer = some j
  read : (w.endpoint i).operation = some rb
  write : (w.endpoint j).operation = some qb
  side : (w.endpoint i).readable

theorem copied_spec {i : Nat} {failure : Option (FailedCopy V)}
    (h : w.copied i failure = some w') : ∃ j t u rb qb, w.Copying i j t u rb qb ∧
      ((failure = none ∧ w' = w.transferred i j t u rb qb) ∨
        ∃ f, failure = some f ∧ f.source.length = (w.buffer qb).cells.length ∧
          f.destination.length = (w.buffer rb).cells.length ∧ w' = w.spoiled i j t rb qb f) := by
  unfold copied at h
  simp only at h
  split at h
  · rename_i t j rb ht hj hrb
    split at h
    · rename_i u qb hu hqb
      obtain ⟨hside, h⟩ := ite_none_pass h
      refine ⟨j, t, u, rb, qb, ⟨ht, hu, hj, hrb, hqb, by simpa using hside⟩, ?_⟩
      cases failure with
      | none =>
        obtain ⟨_, h⟩ := ite_none_pass h
        cases h
        exact .inl ⟨rfl, rfl⟩
      | some f =>
        obtain ⟨hlen, h⟩ := ite_none_pass h
        cases h
        simp only [not_or, not_not] at hlen
        exact .inr ⟨f, rfl, hlen.1, hlen.2, rfl⟩
    · cases h
  · cases h

/-! ## 3. Delivery and cancellation -/

/-- The event that a delivery reports. -/
def report (w : EndpointWorld V) (i : Nat) (word : BitVec 32) (cleanup : Option Status) :
    EndpointEvent V :=
  match w.releaseAnswer i cleanup with
  | some status => .failed status (w.moved i)
  | none => .delivered word (w.moved i)

theorem report_cases (w : EndpointWorld V) (i : Nat) (word : BitVec 32) (cleanup : Option Status) :
    w.report i word cleanup = .delivered word (w.moved i) ∨
      ∃ status, w.report i word cleanup = .failed status (w.moved i) := by
  unfold report
  split
  · exact .inr ⟨_, rfl⟩
  · exact .inl rfl

/-- The end after a delivery. -/
def deliveredEnd (w : EndpointWorld V) (i : Nat) (word : BitVec 32) (state : EndpointState)
    (cleanup : Option Status) : Endpoint V :=
  { w.endpoint i with
    operation := none
    available := none
    state
    history := w.report i word cleanup ::
      if (w.endpoint i).operation == some (.guest i) then .released :: (w.endpoint i).history
      else (w.endpoint i).history }

theorem deliver_spec (h : w.deliver i cleanup = some w') :
    ∃ word state, (w.endpoint i).state.takeEvent = some (word, state) ∧
      w' = (w.unlend i).put i (w.deliveredEnd i word state cleanup) := by
  unfold deliver at h
  simp only at h
  split at h
  · cases h
  rename_i word state htake
  refine ⟨word, state, htake, ?_⟩
  rw [← some.inj h]
  unfold deliveredEnd report
  cases (w.endpoint i).operation == some (.guest i) <;> rfl

theorem unlend_endpoint (w : EndpointWorld V) (i : Nat) : (w.unlend i).endpoint = w.endpoint := by
  unfold unlend
  split <;> rfl

theorem unlend_buffer (w : EndpointWorld V) (i : Nat) (r : BufferRef) :
    ((w.endpoint i).operation = some r → ((w.unlend i).buffer r).leased = false) ∧
      ((w.endpoint i).operation ≠ some r → (w.unlend i).buffer r = w.buffer r) := by
  unfold unlend
  split
  · rename_i ho
    rw [ho]
    refine ⟨fun h => ?_, fun _ => rfl⟩
    cases h
  · rename_i k ho
    rw [ho]
    refine ⟨fun h => ?_, fun h => ?_⟩
    · cases h
      simp
    · rw [store_buffer, update_of_ne]
      rintro rfl
      exact h rfl
  · rename_i k ho
    rw [ho]
    refine ⟨fun h => ?_, fun h => ?_⟩
    · cases h
      simp
    · rw [store_buffer, update_of_ne]
      rintro rfl
      exact h rfl

theorem delivering_eq_false {e : Endpoint V} (h : ¬ e.delivering) : e.transfer = none := by
  simpa [Endpoint.delivering] using h

theorem cancel_spec (h : w.cancel i = some w') :
    (w.endpoint i).transfer = none ∧ ∃ state, (w.endpoint i).state.requestCancel false = some state ∧
      w' = w.put i { w.endpoint i with state, available := none } := by
  unfold cancel at h
  obtain ⟨hn, h⟩ := ite_none_pass h
  split at h
  · cases h
  rename_i state hc
  cases h
  exact ⟨delivering_eq_false fun hd => hn (.inr (.inl hd)), state, hc, rfl⟩

/-! ## 4. Closing and forwarding -/

theorem close_spec (h : w.close i = some w') :
    (w.endpoint i).operation = none ∧ (w.endpoint i).transfer = none ∧
      ((w.endpoint i).state.phase = .idle ∨ (w.endpoint i).state.phase = .done) ∧
      (((w.endpoint i).peer = none ∧ w' = w.put i (w.endpoint i).consumed) ∨
        ∃ j state, (w.endpoint i).peer = some j ∧ (w.endpoint j).state.dropPeer = some state ∧
          w' = (w.put i (w.endpoint i).consumed).put j
            { w.endpoint j with peer := none, available := none, state }) := by
  unfold close at h
  obtain ⟨hn, h⟩ := ite_none_pass h
  simp only [not_or, not_and, not_not] at hn
  obtain ⟨-, hop, -, hd, hphase⟩ := hn
  refine ⟨by simpa using hop, delivering_eq_false hd, ?_, ?_⟩
  · by_cases hi : (w.endpoint i).state.phase = .idle
    · exact .inl hi
    · exact .inr (hphase hi)
  split at h
  · rename_i hpeer
    cases h
    exact .inl ⟨hpeer, rfl⟩
  rename_i j hpeer
  obtain ⟨_, h⟩ := ite_none_pass h
  split at h
  · cases h
  rename_i state hd
  cases h
  exact .inr ⟨j, state, hpeer, hd, rfl⟩

/-- The ends of a forward from `s` to `d`: the writer `q` behind `s`, the reader `r` behind `d`. -/
structure Joint (w : EndpointWorld V) (s d r q : Nat) : Prop where
  source : (w.endpoint s).peer = some q
  destination : (w.endpoint d).peer = some r
  distinct : q ≠ d
  readable : (w.endpoint s).readable
  writable : (w.endpoint d).readable = false
  types : (w.endpoint s).type = (w.endpoint d).type
  sourceFree : (w.endpoint s).operation = none
  destinationFree : (w.endpoint d).operation = none
  sourceIdle : (w.endpoint s).state.phase = .idle
  destinationIdle : (w.endpoint d).state.phase = .idle
  sourceQuiet : (w.endpoint s).transfer = none
  destinationQuiet : (w.endpoint d).transfer = none

/-- The ways in which a forward ends. -/
inductive Forwarded (w : EndpointWorld V) (s d : Nat) : EndpointWorld V → Prop
  /-- There is nothing behind one of the ends, or they are the ends of one pair. -/
  | closed {w₁ w' : EndpointWorld V} : w.close s = some w₁ → w₁.close d = some w' →
      Forwarded w s d w'
  /-- At most one of the outer ends has a buffer. -/
  | joined {r q : Nat} : w.Joint s d r q →
      (w.endpoint r).available = none ∨ (w.endpoint q).available = none →
      Forwarded w s d (w.link s d r q (w.endpoint r) (w.endpoint q))
  /-- Elements are copied. -/
  | copying {r q : Nat} {rb qb : BufferRef} {nextRead nextWrite : EndpointState} {count : Nat} :
      w.Joint s d r q → (w.endpoint r).available = some rb → (w.endpoint q).available = some qb →
      count = min (w.buffer rb).remaining (w.buffer qb).remaining → count ≠ 0 →
      (w.endpoint r).state.notify ((w.buffer rb).progress + count) = some nextRead →
      (w.endpoint q).state.notify ((w.buffer qb).progress + count) = some nextWrite →
      Forwarded w s d (w.link s d r q
        { w.endpoint r with
          transfer := some ⟨count, nextRead, count == (w.buffer rb).remaining⟩ }
        { w.endpoint q with
          transfer := some ⟨count, nextWrite, count == (w.buffer qb).remaining⟩ })
  /-- The write has length zero and is finished. -/
  | emptyWrite {r q : Nat} {qb : BufferRef} {state : EndpointState} :
      w.Joint s d r q → (w.endpoint q).available = some qb → (w.buffer qb).remaining = 0 →
      (w.endpoint q).state.notify 0 = some state →
      Forwarded w s d (w.link s d r q (w.endpoint r)
        { w.endpoint q with state, available := none })
  /-- The read has length zero and is finished. -/
  | emptyRead {r q : Nat} {rb : BufferRef} {state : EndpointState} :
      w.Joint s d r q → (w.endpoint r).available = some rb → (w.buffer rb).remaining = 0 →
      (w.endpoint r).state.notify 0 = some state →
      Forwarded w s d (w.link s d r q { w.endpoint r with state, available := none }
        (w.endpoint q))

theorem movableIdle_spec {e : Endpoint V} (h : e.movableIdle) :
    e.operation = none ∧ e.transfer = none ∧ e.state.phase = .idle := by
  simp only [Endpoint.movableIdle, Endpoint.delivering, Bool.and_eq_true,
    isNone_iff_eq_none, Bool.not_eq_true', isSome_eq_false_iff, beq_iff_eq] at h
  exact ⟨h.1.1.1.1.1.2, h.1.1.1.2, h.2⟩

/-- A readable end is joined to a writable one: the ends behind them become a pair. -/
theorem forward_spec (h : w.forward s d refused = some w') :
    w.Forwarded s d w' := by
  unfold forward at h
  obtain ⟨hn, h⟩ := ite_none_pass h
  simp only [not_or, Bool.not_eq_false, not_not, Bool.not_eq_true] at hn
  obtain ⟨hfs, hfd, hrs, hrd, htypes⟩ := hn
  have hms : (w.endpoint s).movableIdle := by
    simp only [forwardable, Bool.and_eq_true] at hfs
    exact hfs.1.1
  have hmd : (w.endpoint d).movableIdle := by
    simp only [forwardable, Bool.and_eq_true] at hfd
    exact hfd.1.1
  obtain ⟨hos, hts, his⟩ := movableIdle_spec hms
  obtain ⟨hod, htd, hid⟩ := movableIdle_spec hmd
  split at h
  · rename_i q r hq hr
    rcases ite_cases h with ⟨_, h⟩ | ⟨hne, h⟩
    · obtain ⟨w₁, h₁, h₂⟩ := bind_eq_some_iff.mp h
      exact .closed h₁ h₂
    have hj : w.Joint s d r q :=
      ⟨hq, hr, hne, hrs, hrd, htypes, hos, hod, his, hid, hts, htd⟩
    split at h
    · rename_i rb qb hrb hqb
      unfold forwardMeet at h
      simp only at h
      obtain ⟨_, h⟩ := ite_none_pass h
      rcases ite_cases h with ⟨⟨hr0, hq0⟩, h⟩ | ⟨hzero, h⟩
      · obtain ⟨_, h⟩ := ite_none_pass h
        split at h
        · rename_i nextRead nextWrite hnr hnw
          cases h
          exact .copying hj hrb hqb rfl (by omega) hnr hnw
        · cases h
      rcases ite_cases h with ⟨hq0, h⟩ | ⟨hq0, h⟩
      · split at h
        · cases h
        · rename_i state hst
          cases h
          exact .emptyWrite hj hqb hq0 hst
      · split at h
        · cases h
        · rename_i state hst
          cases h
          exact .emptyRead hj hrb (not_not.mp fun hr0 => hzero ⟨hr0, hq0⟩) hst
    · rename_i hav
      cases h
      refine .joined hj ?_
      cases hr' : (w.endpoint r).available with
      | none => exact .inl rfl
      | some rb =>
        cases hq' : (w.endpoint q).available with
        | none => exact .inr rfl
        | some qb => exact absurd hq' (hav rb qb hr')
  · obtain ⟨w₁, h₁, h₂⟩ := bind_eq_some_iff.mp h
    exact .closed h₁ h₂

end EndpointWorld

end TurboWasm
