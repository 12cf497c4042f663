/-
# Conservation along connections

While two ends stay connected, whatever one of them sees the other sees too, in the same order.
A connection is only ever undone by consuming one of its ends, so two ends that are connected in two
states of a run were connected all the time between (`Conserves`).  Ends of a future that has moved
its element are never idle again and cannot be forwarded, so a future moves one element at most,
however long its chain.
-/
import TurboWasm.Component.Endpoint.Flow

namespace TurboWasm

open Lib List Option Function EndpointState

variable {V : Type}

/-- Every conversion succeeds, and every release hook too if `hooks` says so. -/
def EndpointAction.smooth (hooks : Bool) : EndpointAction V → Bool
  | .copied _ failure => failure.isNone
  | .take _ cleanup => !hooks || cleanup.isNone
  | .poll _ _ cleanup => !hooks || cleanup.isNone
  | .waitEnd _ cleanup => !hooks || cleanup.isNone
  | _ => true

namespace EndpointWorld

variable {hooks : Bool} {w w' : EndpointWorld V} {i : Nat}
  {r : BufferRef} {j q : Nat} {a : EndpointAction V}

/-- One operation in which no conversion fails. -/
def actSmooth (hooks : Bool) (w : EndpointWorld V) (a : EndpointAction V) :
    Option (EndpointWorld V) :=
  if a.smooth hooks then w.act a else none

/-- A run in which no conversion fails. -/
def SmoothRun (hooks : Bool) : EndpointWorld V → EndpointWorld V → Prop :=
  Relation.ReflTransGen (Lib.Steps (actSmooth hooks))

/-! ## 1. What an operation does to connections -/

/-- The end was opened and consumed. -/
def Gone (w : EndpointWorld V) (i : Nat) : Prop :=
  (w.endpoint i).initialized ∧ (w.endpoint i).closed

/-- Both ends of a future have seen the same. -/
def Futures (w : EndpointWorld V) : Prop :=
  ∀ i j, (w.endpoint i).peer = some j → (w.endpoint i).state.future →
    crossed w.moves i = crossed w.moves j

/-- What holds between two states of a run. -/
structure Conserves (w w' : EndpointWorld V) : Prop where
  gone : ∀ i, w.Gone i → w'.Gone i
  /-- Connections end with one of their ends. -/
  linked : ∀ r q, (w.endpoint r).peer = some q →
    (w'.endpoint r).peer = some q ∨ w'.Gone r ∨ w'.Gone q
  /-- Connected ends see the same moves. -/
  moves : ∃ ms, w'.moves = w.moves ++ ms ∧ ∀ r q, (w.endpoint r).peer = some q → ¬ w'.Gone r →
    ¬ w'.Gone q → crossed ms r = crossed ms q
  futures : w.Futures → w'.Futures

theorem Conserves.refl (w : EndpointWorld V) : Conserves w w where
  gone _ h := h
  linked _ _ h := .inl h
  moves := ⟨[], (append_nil _).symm, fun _ _ _ _ _ => rfl⟩
  futures h := h

theorem Conserves.trans (h : Conserves w w') (h' : Conserves w' w'') : Conserves w w'' where
  gone i hi := h'.gone i (h.gone i hi)
  linked r q hrq := by
    rcases h.linked r q hrq with hl | hl | hl
    · exact h'.linked r q hl
    · exact .inr (.inl (h'.gone r hl))
    · exact .inr (.inr (h'.gone q hl))
  moves := by
    obtain ⟨ms, hms, heq⟩ := h.moves
    obtain ⟨ms', hms', heq'⟩ := h'.moves
    refine ⟨ms ++ ms', by rw [hms', hms, append_assoc], fun r q hrq hr hq => ?_⟩
    have hr' : ¬ w'.Gone r := fun hg => hr (h'.gone r hg)
    have hq' : ¬ w'.Gone q := fun hg => hq (h'.gone q hg)
    have hlink : (w'.endpoint r).peer = some q := by
      rcases h.linked r q hrq with hl | hl | hl
      · exact hl
      · exact absurd hl hr'
      · exact absurd hl hq'
    rw [crossed_append, crossed_append, heq r q hrq hr' hq', heq' r q hlink hr hq]
  futures hf := h'.futures (h.futures hf)

/-- The fields that `Conserves` reads. -/
structure SameLinks (e e' : Endpoint V) : Prop where
  peer : e'.peer = e.peer
  closed : e'.closed = e.closed
  initialized : e'.initialized = e.initialized
  future : e'.state.future = e.state.future

theorem SameLinks.gone (h : SameLinks (w.endpoint i) (w'.endpoint i)) : w'.Gone i ↔ w.Gone i := by
  unfold Gone
  rw [h.initialized, h.closed]

/-- No connection changes, and the moves are between connected ends. -/
theorem Conserves.of_same (hs : ∀ i, SameLinks (w.endpoint i) (w'.endpoint i))
    (hm : w'.moves = w.moves ++ ms)
    (hms : ∀ r q, (w.endpoint r).peer = some q → crossed ms r = crossed ms q) :
    Conserves w w' where
  gone i hi := (hs i).gone.mpr hi
  linked r q hrq := .inl ((hs r).peer.trans hrq)
  moves := ⟨ms, hm, fun r q hrq _ _ => hms r q hrq⟩
  futures hf := by
    intro i j hij hfut
    rw [(hs i).peer] at hij
    rw [(hs i).future] at hfut
    rw [hm, crossed_append, crossed_append, hf i j hij hfut, hms i j hij]

/-- Only the ends in `C` change, and nothing moves. -/
theorem Conserves.change {C : Nat → Prop} (hm : w'.moves = w.moves)
    (hsame : ∀ k, ¬ C k → w'.endpoint k = w.endpoint k)
    (hgone : ∀ k, C k → w.Gone k → w'.Gone k)
    (hlinked : ∀ r q, C r → (w.endpoint r).peer = some q →
      (w'.endpoint r).peer = some q ∨ w'.Gone r ∨ w'.Gone q)
    (hfutures : w.Futures → ∀ i j, C i → (w'.endpoint i).peer = some j →
      (w'.endpoint i).state.future → crossed w.moves i = crossed w.moves j) :
    Conserves w w' where
  gone k hk := by
    by_cases hc : C k
    · exact hgone k hc hk
    · rwa [Gone, hsame k hc]
  linked r q hrq := by
    by_cases hc : C r
    · exact hlinked r q hc hrq
    · rw [hsame r hc]
      exact .inl hrq
  moves := ⟨[], by rw [hm, append_nil], fun _ _ _ _ _ => rfl⟩
  futures hf i j hij hfut := by
    rw [hm]
    by_cases hc : C i
    · exact hfutures hf i j hc hij hfut
    · rw [hsame i hc] at hij hfut
      exact hf i j hij hfut

theorem SameLinks.refl (e : Endpoint V) : SameLinks e e := ⟨rfl, rfl, rfl, rfl⟩

theorem Conserves.put (hs : SameLinks (w.endpoint i) e) :
    Conserves w (w.put i e) := by
  refine .of_same (fun k => ?_) (append_nil _).symm fun _ _ _ => rfl
  by_cases hk : k = i
  · subst hk
    simpa using hs
  · rw [put_endpoint, update_of_ne hk]
    exact .refl _

theorem Conserves.store (w : EndpointWorld V) (r : BufferRef) (b : Buffer V) :
    Conserves w (w.store r b) :=
  .of_same (fun _ => .refl _) (append_nil _).symm fun _ _ _ => rfl

/-! ## 2. The operations -/

theorem Conserves.lendTo {state : EndpointState} (hf : state.future = (w.endpoint i).state.future) :
    Conserves w (w.lendTo i r available state transfer) :=
  (Conserves.store w r _).trans (.put ⟨rfl, rfl, rfl, hf⟩)

theorem Conserves.submit (ok : w.Ok) {pinned : Bool}
    (h : w.submit i r pinned refused = some w') : Conserves w w' := by
  obtain ⟨-, hs⟩ := submit_spec h
  cases hs with
  | dropped _ _ _ | waiting _ _ => exact .lendTo rfl
  | @copying j o self peer count hj _ _ _ _ _ =>
    have hlend : Conserves w (w.lendTo i r false { (w.endpoint i).state with phase := .copying }
        (some ⟨count, self, true⟩)) := .lendTo rfl
    refine hlend.trans (.put ?_)
    rw [ok.lendTo_peer hj]
    exact ⟨rfl, rfl, rfl, rfl⟩
  | finishing hj _ _ hnotify =>
    have hlend : Conserves w (w.lendTo i r true (w.begun i) none) := .lendTo rfl
    refine hlend.trans (.put ?_)
    obtain ⟨-, -, -, -, -, rfl⟩ := notify_spec hnotify
    rw [ok.lendTo_peer hj]
    exact ⟨rfl, rfl, rfl, rfl⟩
  | empty _ _ _ hself =>
    obtain ⟨-, -, -, -, -, rfl⟩ := notify_spec hself
    exact .lendTo rfl

theorem Conserves.transferred (ok : w.Ok) {t u : Transfer} {rb qb : BufferRef}
    (hc : w.Copying i j t u rb qb) : Conserves w (w.transferred i j t u rb qb) := by
  have hl := ok.links hc.peer
  refine .of_same (fun k => ?_) rfl fun r q hrq => ?_
  · by_cases hkj : k = j
    · subst hkj
      obtain ⟨-, -, -, -, hf, -⟩ := (ok.ends k).transfer hc.writer
      simp only [EndpointWorld.transferred, update_self]
      exact ⟨rfl, rfl, rfl, hf⟩
    by_cases hki : k = i
    · subst hki
      obtain ⟨-, -, -, -, hf, -⟩ := (ok.ends k).transfer hc.reader
      simp only [EndpointWorld.transferred, update_of_ne hkj, update_self]
      exact ⟨rfl, rfl, rfl, hf⟩
    · simp only [EndpointWorld.transferred, update_of_ne hkj, update_of_ne hki]
      exact .refl _
  -- one of two connected ends takes part in the copy exactly if the other does
  rw [crossed_single, crossed_single]
  have hback := (ok.links hrq).right
  have hiff : (i = r ∨ j = r) ↔ (i = q ∨ j = q) := by
    constructor
    · rintro (rfl | rfl)
      · rw [hc.peer] at hrq
        exact .inr (some.inj hrq)
      · rw [hl.right] at hrq
        exact .inl (some.inj hrq)
    · rintro (rfl | rfl)
      · rw [hc.peer] at hback
        exact .inr (some.inj hback)
      · rw [hl.right] at hback
        exact .inl (some.inj hback)
  simp [hiff]

theorem Conserves.deliver (h : w.deliver i cleanup = some w') : Conserves w w' := by
  obtain ⟨word, state, htake, rfl⟩ := deliver_spec h
  obtain ⟨-, result, phase, -, -, rfl⟩ := takeEvent_spec htake
  have hun : Conserves w (w.unlend i) := by
    unfold unlend
    split
    · exact .refl _
    · exact .store ..
    · exact .store ..
  refine hun.trans (.put ?_)
  rw [unlend_endpoint]
  exact ⟨rfl, rfl, rfl, rfl⟩

theorem Conserves.waitEnd (h : w.waitEnd i cleanup = some w') : Conserves w w' := by
  obtain ⟨_, h⟩ := ite_none_pass h
  have hput (waits : Bool) : Conserves w (w.put i { w.endpoint i with syncWaiter := waits }) :=
    .put ⟨rfl, rfl, rfl, rfl⟩
  split at h
  · cases h
    exact hput _
  · rename_i hd
    cases h
    exact (hput _).trans (.deliver hd)

theorem Conserves.submitGuest (ok : w.Ok) {cells : List (Option V)}
    {synchronous : Bool} (h : w.submitGuest i cells synchronous refused = some w') :
    Conserves w w' := by
  obtain ⟨hfree, h⟩ := submitGuest_spec h
  have hput : Conserves w (w.prepared i cells synchronous) :=
    (Conserves.store ..).trans (.put ⟨rfl, rfl, rfl, rfl⟩)
  exact hput.trans (.submit (ok.prepared hfree) h)

theorem Conserves.openPair (ok : w.Ok) (flow : w.Flow hooks) {r : Nat} {type : EndpointType}
    {rt qt : Bool} (h : w.openPair r q type rt qt = some w') : Conserves w w' := by
  obtain ⟨-, hr, hq, her, heq, rfl⟩ := openPair_spec h
  -- an end that was never opened is not connected, not consumed and has seen nothing
  have hnew : ∀ k, (w.endpoint k).initialized = false → (w.endpoint k).peer = none ∧
      ¬ w.Gone k ∧ crossed w.moves k = [] := fun k hk => by
    refine ⟨((ok.ends k).blank hk).1, fun hg => ?_, ?_⟩
    · have hi := hg.1
      rw [hk] at hi
      cases hi
    · rw [← flow.total k]
      unfold passed
      rw [(flow.ends k).blank hk, moved_none ((ok.ends k).blank hk).2]
      rfl
  have hfresh : ∀ {k}, k = r ∨ k = q → (w.endpoint k).initialized = false := by
    rintro k (rfl | rfl) <;> assumption
  refine .change (C := fun k => k = r ∨ k = q) rfl (fun k hk => ?_) (fun k hk hg => ?_)
    (fun k l hk hkl => ?_) fun _ k l hk hkl _ => ?_
  · simp only [not_or] at hk
    simp [update_of_ne hk.1, update_of_ne hk.2]
  · exact absurd hg (hnew k (hfresh hk)).2.1
  · rw [(hnew k (hfresh hk)).1] at hkl
    cases hkl
  rcases hk with rfl | rfl
  · rw [her] at hkl
    cases hkl
    rw [(hnew k hr).2.2, (hnew q hq).2.2]
  · rw [heq] at hkl
    cases hkl
    rw [(hnew k hq).2.2, (hnew r hr).2.2]

theorem Conserves.close (ok : w.Ok) (h : w.close i = some w') : Conserves w w' := by
  obtain ⟨-, -, -, ⟨hpeer, rfl⟩ | ⟨j, state, hpeer, hdrop, rfl⟩⟩ := close_spec h
  · have hei : (w.put i (w.endpoint i).consumed).endpoint i = (w.endpoint i).consumed := by simp
    refine .change (C := fun k => k = i) rfl (fun k hk => update_of_ne hk _ _)
      (fun k hk hg => ?_) (fun k l hk hkl => ?_) fun _ k l hk hkl _ => ?_
    · subst hk
      rw [Gone, hei]
      exact ⟨hg.1, rfl⟩
    · rw [hk, hpeer] at hkl
      cases hkl
    · rw [hk, hei] at hkl
      cases hkl
  have hl := ok.links hpeer
  have hne := hl.ne
  generalize hw : (w.put i (w.endpoint i).consumed).put j
    { w.endpoint j with peer := none, available := none, state } = w'
  have hei : w'.endpoint i = (w.endpoint i).consumed := by
    rw [← hw]
    simp [update_of_ne hne.symm]
  have hej : w'.endpoint j = { w.endpoint j with peer := none, available := none, state } := by
    rw [← hw]
    simp
  have hgone : w'.Gone i := by
    rw [Gone, hei]
    exact ⟨hl.opened.1, rfl⟩
  refine .change (C := fun k => k = i ∨ k = j) (by rw [← hw]; rfl) (fun k hk => ?_)
    (fun k hk hg => ?_) (fun k l hk hkl => ?_) fun _ k l hk hkl _ => ?_
  · simp only [not_or] at hk
    rw [← hw]
    simp [update_of_ne hk.1, update_of_ne hk.2]
  · rcases hk with rfl | rfl
    · exact hgone
    · rwa [Gone, hej]
  · rcases hk with rfl | rfl
    · exact .inr (.inl hgone)
    · rw [hl.right] at hkl
      cases hkl
      exact .inr (.inr hgone)
  · rcases hk with rfl | rfl
    · rw [hei] at hkl
      cases hkl
    · rw [hej] at hkl
      cases hkl

/-- An idle end of a future has seen nothing. -/
theorem Flow.idle_future (flow : w.Flow hooks)
    (hop : (w.endpoint i).operation = none) (hidle : (w.endpoint i).state.phase = .idle)
    (hf : (w.endpoint i).state.future) : crossed w.moves i = [] := by
  rw [← flow.total i]
  unfold passed
  rw [moved_none hop, ((flow.ends i).single hf).2 (by rw [hidle]; decide)]
  rfl

/-- Two pairs become one: what crossed the two old connections crossed the new one. -/
theorem Conserves.link (ok : w.Ok) (flow : w.Flow hooks) {r : Nat} (hj : w.Joint s d r q)
    {reader writer : Endpoint V} (hr : SameLinks (w.endpoint r) reader)
    (hq : SameLinks (w.endpoint q) writer) : Conserves w (w.link s d r q reader writer) := by
  obtain ⟨hes, hed, her, heq, hek⟩ := hj.endpoints ok reader writer
  have hls := ok.links hj.source
  have hld := ok.links hj.destination
  have hgs : (w.link s d r q reader writer).Gone s := by
    rw [Gone, hes]
    exact ⟨hls.opened.1, rfl⟩
  have hgd : (w.link s d r q reader writer).Gone d := by
    rw [Gone, hed]
    exact ⟨hld.opened.1, rfl⟩
  -- the four ends have the same type, and the two in the middle are idle
  have hfr : (w.endpoint r).state.future = (w.endpoint d).state.future := by
    rw [(ok.ends r).type, (ok.ends d).type, hld.types]
  have hfq : (w.endpoint q).state.future = (w.endpoint s).state.future := by
    rw [(ok.ends q).type, (ok.ends s).type, hls.types]
  have hfs : (w.endpoint s).state.future = (w.endpoint d).state.future := by
    rw [(ok.ends s).type, (ok.ends d).type, hj.types]
  have hnil : w.Futures → (w.endpoint d).state.future →
      crossed w.moves r = [] ∧ crossed w.moves q = [] := fun hf hfut => by
    constructor
    · rw [hf r d hld.right (hfr.trans hfut)]
      exact flow.idle_future hj.destinationFree hj.destinationIdle hfut
    · rw [hf q s hls.right (hfq.trans (hfs.trans hfut))]
      exact flow.idle_future hj.sourceFree hj.sourceIdle (hfs.trans hfut)
  refine .change (C := fun k => k = s ∨ k = d ∨ k = r ∨ k = q) rfl (fun k hk => ?_)
    (fun k hk hg => ?_) (fun a b ha hab => ?_) fun hf a b ha hab hfut => ?_
  · simp only [not_or] at hk
    exact hek k hk.1 hk.2.1 hk.2.2.1 hk.2.2.2
  · rcases hk with rfl | rfl | rfl | rfl
    · exact hgs
    · exact hgd
    · rw [Gone, her]
      exact ⟨hr.initialized.trans hg.1, hr.closed.trans hg.2⟩
    · rw [Gone, heq]
      exact ⟨hq.initialized.trans hg.1, hq.closed.trans hg.2⟩
  · rcases ha with rfl | rfl | rfl | rfl
    · exact .inr (.inl hgs)
    · exact .inr (.inl hgd)
    · rw [hld.right] at hab
      cases hab
      exact .inr (.inr hgd)
    · rw [hls.right] at hab
      cases hab
      exact .inr (.inr hgs)
  rcases ha with rfl | rfl | rfl | rfl
  · rw [hes] at hab
    cases hab
  · rw [hed] at hab
    cases hab
  · rw [her] at hab hfut
    cases hab
    obtain ⟨h1, h2⟩ := hnil hf (hfr.symm.trans (hr.future.symm.trans hfut))
    rw [h1, h2]
  · rw [heq] at hab hfut
    cases hab
    obtain ⟨h1, h2⟩ := hnil hf
      (hfs.symm.trans (hfq.symm.trans (hq.future.symm.trans hfut)))
    rw [h1, h2]

theorem Conserves.forward (ok : w.Ok) (flow : w.Flow hooks)
    (h : w.forward s d refused = some w') : Conserves w w' := by
  cases forward_spec h with
  | closed h₁ h₂ => exact (Conserves.close ok h₁).trans (.close (ok.close h₁) h₂)
  | joined hj _ => exact .link ok flow hj (.refl _) (.refl _)
  | copying hj _ _ _ _ _ _ => exact .link ok flow hj ⟨rfl, rfl, rfl, rfl⟩ ⟨rfl, rfl, rfl, rfl⟩
  | emptyWrite hj _ _ hst =>
    obtain ⟨-, -, -, -, -, rfl⟩ := notify_spec hst
    exact .link ok flow hj (.refl _) ⟨rfl, rfl, rfl, rfl⟩
  | emptyRead hj _ _ hst =>
    obtain ⟨-, -, -, -, -, rfl⟩ := notify_spec hst
    exact .link ok flow hj ⟨rfl, rfl, rfl, rfl⟩ (.refl _)

/-! ## 3. Runs -/

/-- **One operation** without a failed conversion: the invariant of the flow and what it does to
connections. -/
theorem Flow.act (flow : w.Flow hooks) (ok : w.Ok)
    (h : w.actSmooth hooks a = some w') : w'.Flow hooks ∧ Conserves w w' := by
  rcases ite_cases h with ⟨hsmooth, h⟩ | ⟨_, h⟩
  swap
  · cases h
  have hclean : ∀ {cleanup : Option Status}, (!hooks || cleanup.isNone) → hooks →
      cleanup = none := fun hc hh => by simpa [hh] using hc
  -- the operations that only change the bookkeeping of one end
  have hone : ∀ {i : Nat} {e : Endpoint V}, EndFlow hooks e w.buffer →
      e.history = (w.endpoint i).history → e.operation = (w.endpoint i).operation →
      e.readable = (w.endpoint i).readable → SameLinks (w.endpoint i) e →
      (w.put i e).Flow hooks ∧ Conserves w (w.put i e) :=
    fun he hh ho hr hs => ⟨flow.tweak he hh ho hr, .put hs⟩
  cases a with
  | openPair reader writer type readerTable writerTable =>
    exact ⟨flow.openPair ok h, .openPair ok flow h⟩
  | fill k kind cells =>
    obtain ⟨hn, h⟩ := ite_none_pass h
    cases h
    exact ⟨flow.store ok (by simpa using hn), .store ..⟩
  | submit i k refused => exact ⟨flow.submit ok h, .submit ok h⟩
  | submitGuest i cells synchronous refused =>
    refine ⟨?_, .submitGuest ok h⟩
    obtain ⟨hfree, h⟩ := submitGuest_spec h
    have flow' := flow.store (b := { kind := .guest, cells }) ok hfree
    have flow'' : (w.prepared i cells synchronous).Flow hooks :=
      flow'.tweak { flow'.ends i with } rfl rfl rfl
    exact flow''.submit (ok.prepared hfree) h
  | copied i failure =>
    obtain ⟨j, t, u, rb, qb, hc, ⟨-, rfl⟩ | ⟨f, rfl, -⟩⟩ := copied_spec h
    · exact ⟨flow.transferred ok hc, .transferred ok hc⟩
    · cases hsmooth
  | take i cleanup =>
    refine ⟨flow.take ok (hclean hsmooth) h, ?_⟩
    obtain ⟨_, h⟩ := ite_none_pass h
    exact .deliver h
  | poll i set cleanup =>
    refine ⟨flow.poll ok (hclean hsmooth) h, ?_⟩
    obtain ⟨_, h⟩ := ite_none_pass h
    exact .deliver h
  | waitEnd i cleanup => exact ⟨flow.waitEnd ok (hclean hsmooth) h, .waitEnd h⟩
  | waitCancel i | join i set | intoValue i | attachReadable i | takeValue i | lower i
  | finishLower i commit =>
    obtain ⟨_, h⟩ := ite_none_pass h
    cases h
    exact hone { flow.ends i with } rfl rfl rfl ⟨rfl, rfl, rfl, rfl⟩
  | cancel i =>
    obtain ⟨-, state, hc, rfl⟩ := cancel_spec h
    obtain ⟨-, -, hf, -⟩ := requestCancel_spec hc
    exact hone ((flow.ends i).cancel hc) rfl rfl rfl ⟨rfl, rfl, rfl, hf⟩
  | close i => exact ⟨flow.close ok h, .close ok h⟩
  | forward s d refused => exact ⟨flow.forward ok h, .forward ok flow h⟩
  | releaseValue i transferred =>
    obtain ⟨_, h⟩ := ite_none_pass h
    have ok' : (w.put i { w.endpoint i with place := .host }).Ok :=
      ok.tweak { ok.ends i with } rfl rfl fun hl => { hl with }
    have hput : (w.put i { w.endpoint i with place := .host }).Flow hooks ∧
        Conserves w (w.put i { w.endpoint i with place := .host }) :=
      hone { flow.ends i with } rfl rfl rfl ⟨rfl, rfl, rfl, rfl⟩
    rcases ite_cases h with ⟨_, h⟩ | ⟨_, h⟩
    · cases h
      cases hc : (w.put i { w.endpoint i with place := .host }).close i with
      | none => exact hput
      | some w₁ => exact ⟨hput.1.close ok' hc, hput.2.trans (.close ok' hc)⟩
    · cases h
      exact hput

theorem actSmooth_act (h : w.actSmooth hooks a = some w') : w.act a = some w' := by
  rcases ite_cases h with ⟨_, h⟩ | ⟨_, h⟩
  · exact h
  · cases h

/-- The two invariants together. -/
theorem Flow.step (h : Lib.Steps (actSmooth hooks) w w') (hw : w.Ok ∧ w.Flow hooks) :
    w'.Ok ∧ w'.Flow hooks := by
  obtain ⟨a, ha⟩ := h
  exact ⟨hw.1.act (actSmooth_act ha), (hw.2.act hw.1 ha).1⟩

theorem Flow.run (hrun : SmoothRun hooks w w') (hw : w.Ok ∧ w.Flow hooks) : w'.Ok ∧ w'.Flow hooks :=
  invariant_run (P := fun w => w.Ok ∧ w.Flow hooks) (fun _ _ h hs => Flow.step h hs) hrun hw

theorem Conserves.run (hrun : SmoothRun hooks w w') (hw : w.Ok ∧ w.Flow hooks) :
    Conserves w w' := by
  refine relation_run (P := fun w => w.Ok ∧ w.Flow hooks) (fun _ _ h hs => Flow.step h hs) .refl
    (fun _ _ _ h h' => h.trans h') (fun s t hs hst => ?_) hrun hw
  obtain ⟨a, ha⟩ := hst
  exact (hs.2.act hs.1 ha).2

/-- A connected end has not been consumed. -/
theorem Ok.not_gone (ok : w.Ok) (h : (w.endpoint i).peer = some j) : ¬ w.Gone i := by
  rintro ⟨-, hc⟩
  rw [((ok.ends i).closed hc).1] at h
  cases h

/-- What holds of the one element of a future, seen from one end. -/
structure FutureLaws (hooks : Bool) (w : EndpointWorld V) (i : Nat) : Prop where
  /-- At most one element ever. -/
  single : (w.passed i).length ≤ 1
  /-- Both ends see the same. -/
  both : ∀ j, (w.endpoint i).peer = some j → w.passed j = w.passed i
  /-- It is reported as completed; only a failed release hook can take the place of that event. -/
  completed : w.passed i ≠ [] →
    ((w.endpoint i).state.pendingEvent ∧
      ∃ state, (w.endpoint i).state.takeEvent = some (0, state)) ∨
    .delivered 0 (w.passed i) ∈ (w.endpoint i).history ∨
    (hooks = false ∧ ∃ status, .failed status (w.passed i) ∈ (w.endpoint i).history)

/-- The event of the one element. -/
theorem reported_single {history : List (EndpointEvent V)}
    (hev : ∀ event ∈ history, event.Faithful hooks true) (hne : reported history ≠ [])
    (hle : (reported history).length ≤ 1) : .delivered 0 (reported history) ∈ history ∨
      (hooks = false ∧ ∃ status, .failed status (reported history) ∈ history) := by
  induction history with
  | nil => exact absurd rfl hne
  | cons event past ih =>
    by_cases hp : reported past = []
    · -- this is the event
      have hrep : reported (event :: past) = event.elements := by
        rw [reported, hp, nil_append]
      rw [hrep] at hne ⊢
      have hf := hev event mem_cons_self
      cases event with
      | admitted | released => exact absurd rfl hne
      | delivered word elements =>
        rcases hf with ⟨-, rfl⟩ | ⟨hnil, -⟩
        · exact .inl mem_cons_self
        · exact absurd hnil hne
      | failed status elements => exact .inr ⟨hf, status, mem_cons_self⟩
    · have hlen : (reported past).length + event.elements.length ≤ 1 := by
        simpa [reported] using hle
      have hpos := length_pos_iff.mpr hp
      have hnil : event.elements = [] := length_eq_zero_iff.mp (by omega)
      have hrep : reported (event :: past) = reported past := by
        rw [reported, hnil, append_nil]
      rw [hrep]
      rcases ih (fun e he => hev e (mem_cons_of_mem _ he)) hp (by omega) with h | ⟨h, s, hs⟩
      · exact .inl (mem_cons_of_mem _ h)
      · exact .inr ⟨h, s, mem_cons_of_mem _ hs⟩

theorem Flow.futureLaws (flow : w.Flow hooks) (ok : w.Ok) (hfut : w.Futures)
    (hf : (w.endpoint i).state.future) : w.FutureLaws hooks i := by
  obtain ⟨hle, hnil⟩ := (flow.ends i).single hf
  have hlen := flow.length_moved ok i
  have hone := (flow.counted_le ok i).2 hf
  have hevents : ∀ event ∈ (w.endpoint i).history, event.Faithful hooks true := fun event he => by
    rw [← hf]
    exact (flow.ends i).events event he
  have hboth : ∀ j, (w.endpoint i).peer = some j → w.passed j = w.passed i := fun j hj => by
    rw [flow.total j, flow.total i, hfut i j hj hf]
  -- either the element is still to be reported, or the operation that moved it is over
  by_cases hd : (w.endpoint i).state.phase = .done
  · have hop : (w.endpoint i).operation = none := by
      have hiff := (ok.ends i).operation
      rw [hd] at hiff
      simpa using hiff
    have hp : w.passed i = reported (w.endpoint i).history := by
      unfold passed
      rw [moved_none hop, append_nil]
    refine ⟨by rw [hp]; exact hle, hboth, fun hne => .inr ?_⟩
    rw [hp] at hne ⊢
    exact reported_single hevents hne hle
  have hp : w.passed i = w.moved i := by
    unfold passed
    rw [hnil hd, nil_append]
  refine ⟨by rw [hp, hlen]; exact hone, hboth, fun hne => .inl ?_⟩
  rw [hp] at hne
  have hpos := length_pos_iff.mpr hne
  have h1 : (w.endpoint i).state.counted = 1 := by omega
  have hpend : (w.endpoint i).state.pendingEvent := by
    cases hp : (w.endpoint i).state.pendingEvent with
    | true => rfl
    | false => simp [counted, hp] at h1
  obtain ⟨⟨word, state⟩, htake⟩ :=
    isSome_iff_exists.mp ((ok.ends i).sound.deliverable hpend)
  refine ⟨hpend, state, ?_⟩
  rw [htake, ((takeEvent_future htake hf).1 h1).1]

/-- **Conservation**, in every run without a failed conversion.  While two ends stay connected, what
one sees the other sees, in order; what an end has seen are exactly the elements of the moves it took
part in; a stream event counts the elements of its operation; a future moves at most one element and
reports it as completed to both ends. -/
theorem endpoint_conservation (hooks : Bool) (w₀ w : EndpointWorld V)
    (h₀ : SmoothRun hooks .start w₀) (hrun : SmoothRun hooks w₀ w) :
    (∀ r q, (w₀.endpoint r).peer = some q → (w.endpoint r).peer = some q →
      ∃ elements, w.passed r = w₀.passed r ++ elements ∧ w.passed q = w₀.passed q ++ elements) ∧
    (∀ i, w.passed i = crossed w.moves i) ∧ (∀ i word elements, (w.endpoint i).type.future = false →
      .delivered word elements ∈ (w.endpoint i).history → word.toNat / 16 = elements.length) ∧
    ∀ i, (w.endpoint i).type.future → w.FutureLaws hooks i := by
  have hinit : (start : EndpointWorld V).Ok ∧ (start : EndpointWorld V).Flow hooks :=
    ⟨.start, .start⟩
  obtain ⟨ok₀, flow₀⟩ := Flow.run h₀ hinit
  obtain ⟨ok, flow⟩ := Flow.run hrun ⟨ok₀, flow₀⟩
  have hfutures : w.Futures := by
    refine (Conserves.run (h₀.trans hrun) hinit).futures ?_
    intro i j hij
    cases hij
  refine ⟨fun r q hrq₀ hrq => ?_, flow.total, fun i word elements hf hmem => ?_, fun i hf => ?_⟩
  · obtain ⟨ms, hms, heq⟩ := (Conserves.run hrun ⟨ok₀, flow₀⟩).moves
    have hsame := heq r q hrq₀ (ok.not_gone hrq) (ok.not_gone (ok.links hrq).right)
    refine ⟨crossed ms r, ?_, ?_⟩
    · rw [flow.total, flow₀.total, hms, crossed_append]
    · rw [flow.total, flow₀.total, hms, crossed_append, hsame]
  · have hev := (flow.ends i).events _ hmem
    rwa [(ok.ends i).type, hf] at hev
  · exact flow.futureLaws ok hfutures ((ok.ends i).type.trans hf)

/-- Two streams; a read of three elements waits behind the second while the first has a write of
two.  Forwarding connects them, and the elements arrive. -/
def forwardedRead : List (EndpointAction Nat) :=
  [.openPair 0 1 ⟨false, 0⟩ false false, .openPair 2 3 ⟨false, 0⟩ false false,
    .fill 0 .host [none, none, none], .submit 2 0 false,
    .fill 1 .host [some 7, some 8], .submit 1 1 false, .forward 0 3 false]

theorem endpoint_conservation_forwarded : ∃ w₀ w : EndpointWorld Nat,
    SmoothRun true .start w₀ ∧ SmoothRun true w₀ w ∧ (w₀.endpoint 2).peer = some 1 ∧
    (w.endpoint 2).peer = some 1 ∧ w₀.passed 2 = [] ∧ w.passed 2 = [7, 8] ∧
    w.passed 1 = [7, 8] ∧ ∃ elements, w.passed 2 = w₀.passed 2 ++ elements ∧
      w.passed 1 = w₀.passed 1 ++ elements := by
  have h₀ : ∃ w₀ w, forwardedRead.foldlM (actSmooth true) start = some w₀ ∧
      [.copied 2 none, .take 1 none].foldlM (actSmooth true) w₀ = some w ∧
      (w₀.endpoint 2).peer = some 1 ∧ (w.endpoint 2).peer = some 1 ∧ w₀.passed 2 = [] ∧
      w.passed 2 = [7, 8] ∧ w.passed 1 = [7, 8] :=
    ⟨_, _, rfl, rfl, rfl, rfl, rfl, rfl, rfl⟩
  obtain ⟨w₀, w, hw₀, hw, hp₀, hp, hnil, hr, hq⟩ := h₀
  exact ⟨w₀, w, run_of_actions hw₀, run_of_actions hw, hp₀, hp, hnil, hr, hq,
    (endpoint_conservation true w₀ w (run_of_actions hw₀) (run_of_actions hw)).1 2 1 hp₀ hp⟩

end EndpointWorld

end TurboWasm
