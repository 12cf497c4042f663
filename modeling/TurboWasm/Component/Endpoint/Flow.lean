/-
# What passes through an end

The elements that an end has seen are those that its events reported and those that the operation in
progress has moved: a reader finds them in its buffer, a writer has given them away from its own.
The invariant `Flow` says that they are the elements of all moves in which the end took part, and
that every event reports the elements of its operation.  It holds as long as no conversion fails.
-/
import TurboWasm.Component.Endpoint.Run

namespace TurboWasm

open Lib List Option Function EndpointState Buffer

variable {V : Type} {state : EndpointState}

/-! ## 1. Elements of events and moves -/

/-- The elements that an event accounts for. -/
def EndpointEvent.elements : EndpointEvent V → List V
  | .admitted => []
  | .released => []
  | .delivered _ elements => elements
  | .failed _ elements => elements

/-- The elements of a history (newest first), oldest first. -/
def reported : List (EndpointEvent V) → List V
  | [] => []
  | event :: past => reported past ++ event.elements

/-- The elements of the moves in which the end took part. -/
def crossed (moves : List (Move V)) (i : Nat) : List V :=
  moves.flatMap fun m => if m.reader = i ∨ m.writer = i then m.elements else []

theorem crossed_append (ms ms' : List (Move V)) (i : Nat) :
    crossed (ms ++ ms') i = crossed ms i ++ crossed ms' i := flatMap_append

theorem crossed_single (m : Move V) (i : Nat) :
    crossed [m] i = if m.reader = i ∨ m.writer = i then m.elements else [] := by
  simp [crossed]

/-- A stream event counts the elements of its operation; a future's event is the completion exactly
when there is one.  An error can only come from a release hook (`hooks` says that none fails). -/
def EndpointEvent.Faithful (hooks future : Bool) : EndpointEvent V → Prop
  | .admitted => True
  | .released => True
  | .delivered word elements =>
    if future then (elements.length = 1 ∧ word = 0) ∨ (elements = [] ∧ word ≠ 0)
    else word.toNat / 16 = elements.length
  | .failed _ _ => hooks = false

/-! ## 2. One end -/

/-- What holds of an end as long as no conversion fails. -/
structure EndFlow (hooks : Bool) (e : Endpoint V) (buffer : BufferRef → Buffer V) : Prop where
  blank : e.initialized = false → e.history = []
  whole : e.failure = none
  /-- The state counts what the buffer has seen. -/
  counted : ∀ {r}, e.operation = some r → e.state.counted = (buffer r).progress
  idle : e.operation = none → e.state.counted = 0
  /-- A writer's buffer still has what was not copied. -/
  source : ∀ {r}, e.operation = some r → e.readable = false →
    (buffer r).cells.length = (buffer r).offered.length ∧
      (buffer r).cells.drop (buffer r).progress = (buffer r).offered.drop (buffer r).progress ∧
      ∀ c ∈ (buffer r).offered, c.isSome
  /-- A reader's buffer is full as far as it was copied to. -/
  target : ∀ {r}, e.operation = some r → e.readable →
    ∀ c ∈ (buffer r).cells.take (buffer r).progress, c.isSome
  transfer : ∀ {t r}, e.transfer = some t → e.operation = some r →
    t.next.counted = (buffer r).progress + t.count
  events : ∀ event ∈ e.history, event.Faithful hooks e.state.future
  /-- The one element of a future is its last. -/
  single : e.state.future →
    (reported e.history).length ≤ 1 ∧ (e.state.phase ≠ .done → reported e.history = [])

variable {hooks : Bool} {e : Endpoint V} {buffer : BufferRef → Buffer V}

/-- Every end without an operation or events. -/
theorem EndFlow.fresh (hh : e.history = []) (hw : e.failure = none) (ho : e.operation = none)
    (hc : e.state.counted = 0) : EndFlow hooks e buffer where
  blank _ := hh
  whole := hw
  counted h := by simp [ho] at h
  idle _ := hc
  source h := by simp [ho] at h
  target h := by simp [ho] at h
  transfer _ h := by simp [ho] at h
  events event h := by simp [hh] at h
  single _ := by simp [hh, reported]

section

variable (h : EndFlow hooks e buffer)
include h

/-- The buffers of other ends do not matter. -/
theorem EndFlow.buffers
    (hb : ∀ r, e.operation = some r → buffer' r = buffer r) : EndFlow hooks e buffer' :=
  { h with
    counted := fun hr => by
      rw [hb _ hr]
      exact h.counted hr
    source := fun hr => by
      rw [hb _ hr]
      exact h.source hr
    target := fun hr => by
      rw [hb _ hr]
      exact h.target hr
    transfer := fun ht hr => by
      rw [hb _ hr]
      exact h.transfer ht hr }

/-- A change of the state that reports the same count. -/
theorem EndFlow.restate (hc : state.counted = e.state.counted)
    (hf : state.future = e.state.future) (hd : e.state.phase = .done → state.phase = .done) :
    EndFlow hooks { e with state, available } buffer :=
  { h with
    counted := fun hr => hc.trans (h.counted hr)
    idle := fun ho => hc.trans (h.idle ho)
    events := fun event he => by
      show event.Faithful hooks state.future
      rw [hf]
      exact h.events event he
    single := fun hfut => by
      obtain ⟨hle, hnil⟩ := h.single (hf ▸ hfut)
      exact ⟨hle, fun hn => hnil fun hh => hn (hd hh)⟩ }

theorem EndFlow.notifyZero (hn : e.state.notify 0 = some state) :
    EndFlow hooks { e with state, available } buffer := by
  obtain ⟨hc, hle⟩ := notify_counted hn
  obtain ⟨-, -, -, -, -, rfl⟩ := notify_spec hn
  exact h.restate (by omega) rfl id

theorem EndFlow.cancel (hn : e.state.requestCancel false = some state) :
    EndFlow hooks { e with state, available } buffer := by
  obtain ⟨hphase, -, hf, -⟩ := requestCancel_spec hn
  refine h.restate (requestCancel_counted hn) hf fun hd => ?_
  rw [hphase] at hd
  cases hd

theorem EndFlow.dropPeer (hn : e.state.dropPeer = some state) :
    EndFlow hooks { e with state, available } buffer := by
  obtain ⟨-, hphase, hf, -⟩ := dropPeer_spec hn
  exact h.restate (dropPeer_counted hn) hf fun hd => hphase.trans hd

/-- An end with a copy of `count` elements ahead of it. -/
theorem EndFlow.copying
    (ht : ∀ {r}, e.operation = some r → t.next.counted = (buffer r).progress + t.count) :
    EndFlow hooks { e with transfer := some t } buffer :=
  { h with
    transfer := fun ht' hr => by
      cases ht'
      exact ht hr }

/-- An end after a copy that succeeded. -/
theorem EndFlow.settle (ht : e.transfer = some t) (hr : e.operation = some r)
    (hf : t.next.future = e.state.future) (hphase : e.state.phase ≠ .done)
    (hprog : (buffer' r).progress = (buffer r).progress + t.count)
    (hsource : e.readable = false → (buffer' r).cells.length = (buffer' r).offered.length ∧
      (buffer' r).cells.drop (buffer' r).progress = (buffer' r).offered.drop (buffer' r).progress ∧
      ∀ c ∈ (buffer' r).offered, c.isSome) (htarget : e.readable →
      ∀ c ∈ (buffer' r).cells.take (buffer' r).progress, c.isSome) :
    EndFlow hooks (EndpointWorld.settle e t) buffer' where
  blank := h.blank
  whole := h.whole
  counted := fun {s} hs => by
    obtain rfl : r = s := some.inj (hr.symm.trans hs)
    rw [hprog]
    exact h.transfer ht hr
  idle := fun ho => by
    have ho' : e.operation = none := ho
    rw [hr] at ho'
    cases ho'
  source := fun {s} hs => by
    obtain rfl : r = s := some.inj (hr.symm.trans hs)
    exact hsource
  target := fun {s} hs => by
    obtain rfl : r = s := some.inj (hr.symm.trans hs)
    exact htarget
  transfer := nofun
  events := fun event he => by
    show event.Faithful hooks t.next.future
    rw [hf]
    exact h.events event he
  single := fun hfut => by
    obtain ⟨hle, hnil⟩ := h.single (hf ▸ hfut)
    exact ⟨hle, fun _ => hnil hphase⟩

end

/-! ## 3. All ends -/

namespace EndpointWorld

variable {w w' : EndpointWorld V} {i : Nat} {b : Buffer V}
/-- The elements that an end has seen so far, in order. -/
def passed (w : EndpointWorld V) (i : Nat) : List V := reported (w.endpoint i).history ++ w.moved i

/-- Nothing is lost, duplicated or reordered between the events of an end and the moves. -/
structure Flow (hooks : Bool) (w : EndpointWorld V) : Prop where
  ends : ∀ i, EndFlow hooks (w.endpoint i) w.buffer
  total : ∀ i, w.passed i = crossed w.moves i

theorem Flow.start : (start : EndpointWorld V).Flow hooks where
  ends _ := .fresh rfl rfl rfl rfl
  total _ := rfl

theorem moved_none (ho : (w.endpoint i).operation = none) : w.moved i = [] := by
  simp [moved, ho]

theorem moved_reader (ho : (w.endpoint i).operation = some r) (hr : (w.endpoint i).readable) :
    w.moved i = ((w.buffer r).cells.take (w.buffer r).progress).reduceOption := by
  simp [moved, ho, hr]

theorem moved_writer (ho : (w.endpoint i).operation = some r)
    (hr : (w.endpoint i).readable = false) :
    w.moved i = ((w.buffer r).offered.take (w.buffer r).progress).reduceOption := by
  simp [moved, ho, hr]

/-- What has passed an end depends on its history, its operation and the buffer of that. -/
theorem passed_congr (hh : (w'.endpoint i).history = (w.endpoint i).history)
    (ho : (w'.endpoint i).operation = (w.endpoint i).operation)
    (hr : (w'.endpoint i).readable = (w.endpoint i).readable)
    (hb : ∀ r, (w.endpoint i).operation = some r → w'.buffer r = w.buffer r) :
    w'.passed i = w.passed i := by
  unfold passed moved
  simp only [hh, ho, hr]
  cases hop : (w.endpoint i).operation with
  | none => rfl
  | some r => simp only [hb r hop]

/-- One end changes, and no element moves. -/
theorem Flow.change (flow : w.Flow hooks) (he : w'.endpoint = update w.endpoint i e)
    (hm : w'.moves = w.moves) (hb : ∀ k r, k ≠ i → (w.endpoint k).operation = some r →
      w'.buffer r = w.buffer r) (hend : EndFlow hooks e w'.buffer)
    (hp : w'.passed i = w.passed i) : w'.Flow hooks where
  ends k := by
    by_cases hk : k = i
    · subst hk
      rwa [he, update_self]
    · rw [he, update_of_ne hk]
      exact (flow.ends k).buffers fun r => hb k r hk
  total k := by
    rw [hm, ← flow.total k]
    by_cases hk : k = i
    · rw [hk, hp]
    · refine passed_congr ?_ ?_ ?_ fun r => hb k r hk
      all_goals rw [he, update_of_ne hk]

theorem Flow.put (flow : w.Flow hooks)
    (he : EndFlow hooks e w.buffer) (hp : (w.put i e).passed i = w.passed i) :
    (w.put i e).Flow hooks :=
  flow.change rfl rfl (fun _ _ _ _ => rfl) he hp

/-- One end changes, with the same operation and history. -/
theorem Flow.tweak (flow : w.Flow hooks)
    (he : EndFlow hooks e w.buffer) (hh : e.history = (w.endpoint i).history)
    (ho : e.operation = (w.endpoint i).operation) (hr : e.readable = (w.endpoint i).readable) :
    (w.put i e).Flow hooks := by
  refine flow.put he (passed_congr ?_ ?_ ?_ fun _ _ => rfl)
  all_goals
    rw [put_endpoint, update_self]
    assumption

/-- A buffer that nobody was lent may change. -/
theorem Flow.store (flow : w.Flow hooks) (ok : w.Ok)
    (hr : (w.buffer r).leased = false) : (w.store r b).Flow hooks := by
  have hkeep : ∀ k s, (w.endpoint k).operation = some s →
      update w.buffer r b s = w.buffer s :=
    fun k s hs => update_of_ne (ok.ne_unlent hr hs) _ _
  exact
  { ends := fun k => (flow.ends k).buffers (hkeep k)
    total := fun k => by
      have hp : (w.store r b).passed k = w.passed k := passed_congr rfl rfl rfl (hkeep k)
      exact hp.trans (flow.total k) }

/-! ## 4. Submitting -/

/-- An admission: nothing has moved yet. -/
theorem Flow.lendTo (flow : w.Flow hooks) (ok : w.Ok)
    (ha : w.Admissible i r) {available : Bool} {state : EndpointState} {transfer : Option Transfer}
    (hc : state.counted = 0) (hf : state.future = (w.endpoint i).state.future)
    (ht : ∀ {t}, transfer = some t → t.next.counted = t.count) :
    (w.lendTo i r available state transfer).Flow hooks := by
  have hend := flow.ends i
  have hnotDone : (w.endpoint i).state.phase ≠ .done := by
    rw [ha.idle]
    decide
  have hrep : reported (admitted (w.endpoint i) r available state transfer).history =
      reported (w.endpoint i).history := by
    cases r with
    | host k => rfl
    | guest k => exact append_nil _
  have flow' := flow.store (b := (w.buffer r).lend) ok ha.unlent
  refine flow'.put ?_ ?_
  · refine
    { blank := fun hi => ?_
      whole := hend.whole
      counted := fun {s} hs => ?_
      idle := nofun
      source := fun {s} hs hr => ?_
      target := fun {s} hs hr => ?_
      transfer := fun {t s} ht' hs => ?_
      events := fun event he => ?_
      single := fun hfut => ?_ }
    · have hlive := ha.live
      have hi' : (w.endpoint i).initialized = false := hi
      simp [Endpoint.live, hi'] at hlive
    · cases hs
      simp [admitted, hc, lend]
    · cases hs
      simp only [store_buffer, update_self, lend]
      exact ⟨trivial, trivial, ha.full hr⟩
    · cases hs
      simp [lend]
    · cases hs
      simp [lend, ht ht']
    · have hold : event = .admitted ∨ event ∈ (w.endpoint i).history := by
        cases r with
        | host k => exact .inr he
        | guest k => exact mem_cons.mp he
      show event.Faithful hooks state.future
      rcases hold with rfl | hold
      · trivial
      · rw [hf]
        exact hend.events event hold
    · have hnil := (hend.single (hf ▸ hfut)).2 hnotDone
      rw [hrep, hnil]
      simp
  · have hold : w.moved i = [] := moved_none ha.free
    have hnew : (w.lendTo i r available state transfer).moved i = [] := by
      simp [moved, EndpointWorld.lendTo, admitted, lend]
    have hstore : ((w.store r (w.buffer r).lend).passed i) = w.passed i := by
      refine passed_congr rfl rfl rfl fun s hs => ?_
      rw [ha.free] at hs
      cases hs
    rw [hstore]
    show reported ((w.lendTo i r available state transfer).endpoint i).history ++
      (w.lendTo i r available state transfer).moved i = reported (w.endpoint i).history ++ w.moved i
    rw [hold, hnew]
    simp [EndpointWorld.lendTo, hrep]

theorem Flow.submit (flow : w.Flow hooks) (ok : w.Ok)
    {pinned : Bool} (h : w.submit i r pinned refused = some w') : w'.Flow hooks := by
  obtain ⟨ha, hs⟩ := submit_spec h
  have hbegun : (w.begun i).counted = 0 := by
    unfold counted begun
    split <;> rfl
  have hend : ∀ {j : Nat} {available : Bool} {state : EndpointState} {transfer : Option Transfer},
      (w.lendTo i r available state transfer).Flow hooks → (w.endpoint i).peer = some j →
      EndFlow hooks (w.endpoint j) (w.lendTo i r available state transfer).buffer :=
    fun {j _ _ _} hflow hj => by
      have := hflow.ends j
      rwa [ok.lendTo_peer hj] at this
  cases hs with
  | dropped _ _ _ | waiting _ _ => exact flow.lendTo ok ha hbegun rfl nofun
  | @copying j o self peer count hj hav hcount hpos hself hnotify =>
    have hquiet : ({ (w.endpoint i).state with phase := .copying } : EndpointState).counted = 0 :=
      (flow.ends i).idle ha.free
    have flow' : (w.lendTo i r false { (w.endpoint i).state with phase := .copying }
        (some ⟨count, self, true⟩)).Flow hooks :=
      flow.lendTo ok ha hquiet rfl fun ht => by
        cases ht
        exact (notify_counted hself).1
    have hop := ((ok.ends j).available hav).1
    refine flow'.tweak ((hend flow' hj).copying fun {s} hs => ?_) ?_ ?_ ?_
    · obtain rfl : o = s := some.inj (hop.symm.trans hs)
      simp only [EndpointWorld.lendTo, put_buffer, store_buffer,
        update_of_ne (ok.ne_unlent ha.unlent hop)]
      exact (notify_counted hnotify).1
    all_goals rw [ok.lendTo_peer hj]
  | @finishing j o peer hj hav hrem hnotify =>
    have flow' : (w.lendTo i r true (w.begun i) none).Flow hooks :=
      flow.lendTo ok ha hbegun rfl nofun
    refine flow'.tweak ((hend flow' hj).notifyZero hnotify) ?_ ?_ ?_
    all_goals rw [ok.lendTo_peer hj]
  | @empty j o self hj hav hlen hself =>
    refine flow.lendTo ok ha (notify_counted hself).1 ?_ nofun
    obtain ⟨-, -, -, -, -, rfl⟩ := notify_spec hself
    rfl

/-! ## 5. The end of a copy -/

/-- The elements that a copy takes from a writer. -/
theorem batch_offered (hsrc : b.cells.drop b.progress = b.offered.drop b.progress)
    (count : Nat) : b.batch count = slice b.offered b.progress count := slice_congr hsrc count

theorem batch_full (hsrc : b.cells.drop b.progress = b.offered.drop b.progress)
    (hfull : ∀ c ∈ b.offered, c.isSome) (count : Nat) : ∀ c ∈ b.batch count, c.isSome := by
  intro c hc
  rw [batch_offered hsrc] at hc
  exact hfull c (mem_of_mem_drop (mem_of_mem_take hc))

/-- What a writer has left after a copy is what it was offered. -/
theorem consume_drop {count : Nat} (hp : b.progress ≤ b.cells.length)
    (hsrc : b.cells.drop b.progress = b.offered.drop b.progress) :
    (b.consume count).cells.drop (b.consume count).progress =
      (b.consume count).offered.drop (b.consume count).progress := by
  have htail : b.cells.drop (b.progress + count) = b.offered.drop (b.progress + count) := by
    rw [← drop_drop, hsrc, drop_drop]
  cases hk : b.kind with
  | guest => simpa [consume, hk] using htail
  | host =>
    have hdrop : (patch b.cells b.progress (.replicate count none)).drop (b.progress + count) =
        b.cells.drop (b.progress + count) := by
      have := drop_patch hp (.replicate count none)
      rwa [length_replicate] at this
    simpa [consume, hk, hdrop] using htail

/-- **A copy** moves the same elements out of one buffer and into the other. -/
theorem Flow.transferred (flow : w.Flow hooks) (ok : w.Ok) {j : Nat} {t u : Transfer}
    {rb qb : BufferRef} (hc : w.Copying i j t u rb qb) :
    (w.transferred i j t u rb qb).Flow hooks := by
  obtain ⟨hrp, hrc, hqp, hqc⟩ := hc.room ok
  have hl := ok.links hc.peer
  have hne : j ≠ i := hl.ne
  have hbne := hc.buffers_ne ok
  have hbatch := length_batch hqp hqc
  have hside : (w.endpoint j).readable = false := by rw [hl.sides, hc.side, Bool.not_true]
  obtain ⟨hlen, hsrc, hfull⟩ := (flow.ends j).source hc.write hside
  obtain ⟨-, hrphase, -, -, hrf, -⟩ := (ok.ends i).transfer hc.reader
  obtain ⟨-, hqphase, -, -, hqf, -⟩ := (ok.ends j).transfer hc.writer
  generalize hw : w.transferred i j t u rb qb = w'
  have hei : w'.endpoint i = EndpointWorld.settle (w.endpoint i) t := by
    rw [← hw]
    simp [EndpointWorld.transferred, update_of_ne hne.symm]
  have hej : w'.endpoint j = EndpointWorld.settle (w.endpoint j) u := by
    rw [← hw]
    simp [EndpointWorld.transferred]
  have hek : ∀ k, k ≠ i → k ≠ j → w'.endpoint k = w.endpoint k := fun k hki hkj => by
    rw [← hw]
    simp [EndpointWorld.transferred, update_of_ne hki, update_of_ne hkj]
  have hbr : w'.buffer rb = (w.buffer rb).receive ((w.buffer qb).batch t.count) := by
    rw [← hw]
    simp [EndpointWorld.transferred, update_of_ne hbne]
  have hbq : w'.buffer qb = (w.buffer qb).consume t.count := by
    rw [← hw]
    simp [EndpointWorld.transferred]
  have hbk : ∀ k r, k ≠ i → k ≠ j → (w.endpoint k).operation = some r →
      w'.buffer r = w.buffer r := by
    intro k r hki hkj hr
    have h1 : r ≠ rb := by
      rintro rfl
      exact hki (ok.loans.inj hr hc.read)
    have h2 : r ≠ qb := by
      rintro rfl
      exact hkj (ok.loans.inj hr hc.write)
    rw [← hw]
    simp [EndpointWorld.transferred, update_of_ne h1, update_of_ne h2]
  have hmoves : w'.moves = w.moves ++ [⟨j, i, ((w.buffer qb).batch t.count).reduceOption⟩] := by
    rw [← hw]
    rfl
  have htake : (w'.buffer rb).cells.take (w'.buffer rb).progress =
      (w.buffer rb).cells.take (w.buffer rb).progress ++ (w.buffer qb).batch t.count := by
    rw [hbr]
    exact take_patch hrp
  refine ⟨fun k => ?_, fun k => ?_⟩
  · by_cases hkj : k = j
    · subst hkj
      rw [hej]
      refine (flow.ends k).settle hc.writer hc.write hqf (by rw [hqphase]; decide) ?_
        (fun _ => ?_) fun hr => ?_
      · rw [hbq, hc.count_eq ok]
        rfl
      · rw [hbq]
        exact ⟨(length_consume hqp hqc).trans hlen, consume_drop hqp hsrc, hfull⟩
      · rw [hside] at hr
        cases hr
    by_cases hki : k = i
    · subst hki
      rw [hei]
      refine (flow.ends k).settle hc.reader hc.read hrf (by rw [hrphase]; decide) ?_
        (fun hr => ?_) fun _ => ?_
      · rw [hbr]
        simp [receive, hbatch]
      · rw [hc.side] at hr
        cases hr
      · intro c hmem
        rw [htake, mem_append] at hmem
        rcases hmem with hmem | hmem
        · exact (flow.ends k).target hc.read hc.side c hmem
        · exact batch_full hsrc hfull _ c hmem
    · rw [hek k hki hkj]
      exact (flow.ends k).buffers fun r hr => hbk k r hki hkj hr
  · rw [hmoves, crossed_append, crossed_single, ← flow.total k]
    by_cases hkj : k = j
    · subst hkj
      -- the writer gives away what it had offered next
      have hold := moved_writer hc.write hside
      have hnew : w'.moved k =
          ((w.buffer qb).offered.take ((w.buffer qb).progress + t.count)).reduceOption := by
        rw [moved_writer (by rw [hej]; exact hc.write) (by rw [hej]; exact hside), hbq]
        rfl
      simp only [passed, hej, EndpointWorld.settle, or_true, if_true]
      rw [hold, hnew, take_append_slice, reduceOption_append, ← batch_offered hsrc, append_assoc]
    by_cases hki : k = i
    · subst hki
      have hold := moved_reader hc.read hc.side
      have hnew : w'.moved k = ((w'.buffer rb).cells.take (w'.buffer rb).progress).reduceOption :=
        moved_reader (by rw [hei]; exact hc.read) (by rw [hei]; exact hc.side)
      simp only [passed, hei, EndpointWorld.settle, true_or, if_true]
      rw [hold, hnew, htake, reduceOption_append, append_assoc]
    · rw [if_neg (by
        rintro (h | h)
        · exact hki h.symm
        · exact hkj h.symm), append_nil]
      refine passed_congr ?_ ?_ ?_ fun r hr => hbk k r hki hkj hr
      all_goals rw [hek k hki hkj]

/-! ## 6. Delivery -/

theorem length_reduceOption {cells : List (Option V)} (h : ∀ c ∈ cells, c.isSome) :
    cells.reduceOption.length = cells.length := by
  induction cells with
  | nil => rfl
  | cons c cells ih =>
    cases c with
    | none => simpa using h none
    | some v => simp [ih fun c hc => h c (mem_cons_of_mem _ hc)]

/-- The state counts exactly the elements that the operation in progress has moved. -/
theorem Flow.length_moved (flow : w.Flow hooks) (ok : w.Ok) (i : Nat) :
    (w.moved i).length = (w.endpoint i).state.counted := by
  cases hop : (w.endpoint i).operation with
  | none => rw [moved_none hop, (flow.ends i).idle hop, length_nil]
  | some r =>
    have hle := ((ok.ends i).lent hop).1
    rw [(flow.ends i).counted hop]
    cases hr : (w.endpoint i).readable with
    | true =>
      rw [moved_reader hop hr, length_reduceOption ((flow.ends i).target hop hr),
        length_take, min_eq_left hle]
    | false =>
      obtain ⟨hlen, -, hfull⟩ := (flow.ends i).source hop hr
      rw [moved_writer hop hr, length_reduceOption fun c hc => hfull c (mem_of_mem_take hc),
        length_take, Nat.min_eq_left (hlen ▸ hle)]

/-- An operation never moves more than its buffer holds. -/
theorem Flow.counted_le (flow : w.Flow hooks) (ok : w.Ok) (i : Nat) :
    (w.endpoint i).state.counted ≤ copyMaxLength ∧
      ((w.endpoint i).state.future → (w.endpoint i).state.counted ≤ 1) := by
  cases hop : (w.endpoint i).operation with
  | none => simp [(flow.ends i).idle hop]
  | some r =>
    obtain ⟨hle, hmax, hone⟩ := (ok.ends i).lent hop
    rw [(flow.ends i).counted hop]
    exact ⟨hle.trans hmax, fun hf => hle.trans (hone hf).le⟩

/-- The event of a delivery is faithful. -/
theorem Flow.faithful (flow : w.Flow hooks) (ok : w.Ok) (hclean : hooks → cleanup = none)
    (htake : (w.endpoint i).state.takeEvent = some (word, state)) :
    (w.report i word cleanup).Faithful hooks (w.endpoint i).state.future := by
  have hlen := flow.length_moved ok i
  obtain ⟨hmax, hone⟩ := flow.counted_le ok i
  simp only [report, releaseAnswer, (flow.ends i).whole, none_or]
  split
  · -- the release hook failed
    rename_i status herr
    show hooks = false
    cases hooks with
    | false => rfl
    | true =>
      rw [hclean rfl, ite_self] at herr
      cases herr
  cases hf : (w.endpoint i).state.future with
  | false =>
    show word.toNat / 16 = (w.moved i).length
    rw [hlen]
    exact takeEvent_stream htake hf hmax
  | true =>
    show (_ ∧ _) ∨ (_ ∧ _)
    obtain ⟨hdone, hnot⟩ := takeEvent_future htake hf
    by_cases h1 : (w.endpoint i).state.counted = 1
    · exact .inl ⟨hlen.trans h1, (hdone h1).1⟩
    · refine .inr ⟨length_eq_zero_iff.mp ?_, hnot h1⟩
      have := hone hf
      omega

theorem report_elements (w : EndpointWorld V) (i : Nat) (word : BitVec 32)
    (cleanup : Option Status) : (w.report i word cleanup).elements = w.moved i := by
  rcases w.report_cases i word cleanup with h | ⟨status, h⟩
  · rw [h]
    rfl
  · rw [h]
    rfl

section Delivery

theorem reported_delivered :
    reported (w.deliveredEnd i word state cleanup).history = w.passed i := by
  show reported (w.report i word cleanup :: _) = _
  rw [reported, report_elements]
  congr 1
  split
  · exact append_nil _
  · rfl

/-- The end after a delivery. -/
theorem Flow.endFlow_delivered (flow : w.Flow hooks) (ok : w.Ok)
    (hclean : hooks → cleanup = none) (hinit : (w.endpoint i).initialized)
    (hq : (w.endpoint i).transfer = none)
    (htake : (w.endpoint i).state.takeEvent = some (word, state)) (buffer : BufferRef → Buffer V) :
    EndFlow hooks (w.deliveredEnd i word state cleanup) buffer := by
  have hend := flow.ends i
  obtain ⟨-, result, phase, -, -, hstate⟩ := takeEvent_spec htake
  have hfut : state.future = (w.endpoint i).state.future := by rw [hstate]
  have hphase : (w.endpoint i).state.phase ≠ .done := fun hd => by
    simp [takeEvent, hd] at htake
  refine
  { blank := fun hi => by cases hinit.symm.trans hi
    whole := hend.whole
    counted := nofun
    idle := fun _ => ?_
    source := nofun
    target := nofun
    transfer := fun ht => by cases hq.symm.trans ht
    events := fun event he => ?_
    single := fun hf => ?_ }
  · show state.counted = 0
    rw [hstate]
    rfl
  · show event.Faithful hooks state.future
    rw [hfut]
    have hmem : event = w.report i word cleanup ∨ event = .released ∨
        event ∈ (w.endpoint i).history := by
      rcases mem_cons.mp he with he | he
      · exact .inl he
      · split at he
        · exact .inr (mem_cons.mp he)
        · exact .inr (.inr he)
    rcases hmem with rfl | rfl | hmem
    · exact flow.faithful ok hclean htake
    · trivial
    · exact hend.events event hmem
  · have hf' : (w.endpoint i).state.future := by
      rwa [← hfut]
    have hone := (flow.counted_le ok i).2 hf'
    rw [reported_delivered, passed, (hend.single hf').2 hphase, nil_append, flow.length_moved ok i]
    refine ⟨hone, fun hn => length_eq_zero_iff.mp ?_⟩
    have hn1 : (w.endpoint i).state.counted ≠ 1 := fun h1 =>
      hn ((takeEvent_future htake hf').1 h1).2
    rw [flow.length_moved ok i]
    omega

end Delivery

/-- **A delivery** reports the elements of its operation. -/
theorem Flow.deliver (flow : w.Flow hooks) (ok : w.Ok)
    (hclean : hooks → cleanup = none) (hinit : (w.endpoint i).initialized)
    (hq : (w.endpoint i).transfer = none) (h : w.deliver i cleanup = some w') : w'.Flow hooks := by
  obtain ⟨word, state, htake, rfl⟩ := deliver_spec h
  refine flow.change (by rw [put_endpoint, unlend_endpoint]) ?_
    (fun k r hk hr => (unlend_buffer w i r).2 fun hir => hk (ok.loans.inj hr hir))
    (flow.endFlow_delivered ok hclean hinit hq htake _) ?_
  · show (w.unlend i).moves = w.moves
    unfold unlend
    split <;> rfl
  · have hself : ((w.unlend i).put i (w.deliveredEnd i word state cleanup)).endpoint i =
        w.deliveredEnd i word state cleanup := by simp
    rw [passed, moved_none (by rw [hself]; rfl), hself, append_nil, reported_delivered]

theorem live_initialized (h : ¬ e.live = false) : e.initialized := by
  cases hi : e.initialized with
  | true => rfl
  | false => simp [Endpoint.live, hi] at h

theorem Flow.take (flow : w.Flow hooks) (ok : w.Ok)
    (hclean : hooks → cleanup = none) (h : w.take i cleanup = some w') : w'.Flow hooks := by
  obtain ⟨hn, h⟩ := ite_none_pass h
  simp only [not_or] at hn
  exact flow.deliver ok hclean (live_initialized hn.1) (delivering_eq_false hn.2.1) h

theorem Flow.poll (flow : w.Flow hooks) (ok : w.Ok) {set : Nat}
    (hclean : hooks → cleanup = none) (h : w.poll i set cleanup = some w') : w'.Flow hooks := by
  obtain ⟨hn, h⟩ := ite_none_pass h
  simp only [not_or] at hn
  exact flow.deliver ok hclean (live_initialized hn.1) (delivering_eq_false hn.2.2.2.1) h

theorem Flow.waitEnd (flow : w.Flow hooks) (ok : w.Ok)
    (hclean : hooks → cleanup = none) (h : w.waitEnd i cleanup = some w') : w'.Flow hooks := by
  obtain ⟨hn, h⟩ := ite_none_pass h
  simp only [not_or] at hn
  have flow' (waits : Bool) : (w.put i { w.endpoint i with syncWaiter := waits }).Flow hooks :=
    flow.tweak { flow.ends i with } rfl rfl rfl
  split at h
  · cases h
    exact flow' _
  · rename_i hd
    cases h
    refine (flow' _).deliver (ok.waits _) hclean ?_ ?_ hd
    · simpa using live_initialized hn.1
    · simpa using delivering_eq_false hn.2.2.2.1

/-! ## 7. Opening, closing and forwarding -/

theorem Flow.openPair (flow : w.Flow hooks) (ok : w.Ok) {r : Nat} {type : EndpointType}
    {rt qt : Bool} (h : w.openPair r q type rt qt = some w') : w'.Flow hooks := by
  obtain ⟨hne, hr, hq, -, -, rfl⟩ := openPair_spec h
  -- nothing has passed an end that was never opened
  have hold : ∀ k, (w.endpoint k).initialized = false → w.passed k = [] := fun k hk => by
    unfold passed
    rw [(flow.ends k).blank hk, moved_none ((ok.ends k).blank hk).2]
    rfl
  have flow' : (w.put r (initial type true q rt)).Flow hooks := by
    refine flow.put (.fresh rfl rfl rfl rfl) ?_
    rw [hold r hr]
    simp [passed, moved, initial, reported]
  refine flow'.put (.fresh rfl rfl rfl rfl) ?_
  have hq' : (w.put r (initial type true q rt)).passed q = w.passed q := by
    refine passed_congr ?_ ?_ ?_ fun _ _ => rfl
    all_goals rw [put_endpoint, update_of_ne hne.symm]
  rw [hq', hold q hq]
  simp [passed, moved, initial, reported]

theorem Flow.close (flow : w.Flow hooks) (ok : w.Ok) (h : w.close i = some w') : w'.Flow hooks := by
  have flow' : (w.put i (w.endpoint i).consumed).Flow hooks :=
    flow.tweak { flow.ends i with } rfl rfl rfl
  obtain ⟨-, -, -, ⟨-, rfl⟩ | ⟨j, state, hpeer, hdrop, rfl⟩⟩ := close_spec h
  · exact flow'
  have hj : (w.put i (w.endpoint i).consumed).endpoint j = w.endpoint j :=
    update_of_ne (ok.links hpeer).ne _ _
  have hend : EndFlow hooks { w.endpoint j with state, available := none } w.buffer :=
    (flow.ends j).dropPeer hdrop
  refine flow'.tweak { hend with } ?_ ?_ ?_
  all_goals rw [hj]

/-- The outer ends become peers. -/
theorem Flow.link (flow : w.Flow hooks) (ok : w.Ok) {r : Nat} (hj : w.Joint s d r q)
    {reader writer : Endpoint V} (hr : EndFlow hooks reader w.buffer)
    (hq : EndFlow hooks writer w.buffer) (hsame : reader.history = (w.endpoint r).history ∧
      reader.operation = (w.endpoint r).operation ∧ reader.readable = (w.endpoint r).readable)
    (hsame' : writer.history = (w.endpoint q).history ∧
      writer.operation = (w.endpoint q).operation ∧ writer.readable = (w.endpoint q).readable) :
    (w.link s d r q reader writer).Flow hooks := by
  obtain ⟨hsd, hsr, hsq, hdr, hdq, hrq⟩ := hj.ne ok
  have flow₁ : (w.put s (w.endpoint s).consumed).Flow hooks :=
    flow.tweak { flow.ends s with } rfl rfl rfl
  have flow₂ : ((w.put s (w.endpoint s).consumed).put d (w.endpoint d).consumed).Flow hooks := by
    refine flow₁.tweak { flow.ends d with } ?_ ?_ ?_
    all_goals
      rw [put_endpoint, update_of_ne hsd.symm]
      rfl
  have flow₃ : (((w.put s (w.endpoint s).consumed).put d (w.endpoint d).consumed).put r
      { reader with peer := some q }).Flow hooks := by
    obtain ⟨h1, h2, h3⟩ := hsame
    refine flow₂.tweak { hr with } ?_ ?_ ?_
    all_goals
      rw [put_endpoint, put_endpoint, update_of_ne hdr.symm, update_of_ne hsr.symm]
      assumption
  obtain ⟨h1, h2, h3⟩ := hsame'
  refine flow₃.tweak { hq with } ?_ ?_ ?_
  all_goals
    rw [put_endpoint, put_endpoint, put_endpoint, update_of_ne hrq.symm,
      update_of_ne hdq.symm, update_of_ne hsq.symm]
    assumption

/-- **Forwarding** moves nothing by itself. -/
theorem Flow.forward (flow : w.Flow hooks) (ok : w.Ok)
    (h : w.forward s d refused = some w') : w'.Flow hooks := by
  cases forward_spec h with
  | closed h₁ h₂ => exact (flow.close ok h₁).close (ok.close h₁) h₂
  | @joined r q hj _ =>
    exact flow.link ok hj (flow.ends r) (flow.ends q) ⟨rfl, rfl, rfl⟩ ⟨rfl, rfl, rfl⟩
  | @copying r q rb qb nextRead nextWrite count hj hrb hqb _ _ hnr hnw =>
    have hro := ((ok.ends r).available hrb).1
    have hqo := ((ok.ends q).available hqb).1
    refine flow.link ok hj ((flow.ends r).copying fun {x} hx => ?_)
      ((flow.ends q).copying fun {x} hx => ?_) ⟨rfl, rfl, rfl⟩ ⟨rfl, rfl, rfl⟩
    · obtain rfl : rb = x := some.inj (hro.symm.trans hx)
      exact (notify_counted hnr).1
    · obtain rfl : qb = x := some.inj (hqo.symm.trans hx)
      exact (notify_counted hnw).1
  | @emptyWrite r q qb state hj _ _ hst =>
    exact flow.link ok hj (flow.ends r) ((flow.ends q).notifyZero hst) ⟨rfl, rfl, rfl⟩
      ⟨rfl, rfl, rfl⟩
  | @emptyRead r q rb state hj _ _ hst =>
    exact flow.link ok hj ((flow.ends r).notifyZero hst) (flow.ends q) ⟨rfl, rfl, rfl⟩
      ⟨rfl, rfl, rfl⟩

end EndpointWorld

end TurboWasm
