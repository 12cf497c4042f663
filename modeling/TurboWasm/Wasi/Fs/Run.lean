/-
# Every section keeps the descriptor table

Each section of an operation is one of the changes of `Wasi.Fs.Invariant`, or two of them under one
lock.  A section that does not report success is also quiet: the active descriptors, their files and
their rights are as they were.  Since the sections of an operation that fails all report either that
it goes on or that it failed, a failed operation changes nothing of what is seen.

* §1 is what the helpers under the lock find.
* §2 takes the sections one by one, §3 the runs.
-/
import TurboWasm.Wasi.Fs.Invariant
import TurboWasm.Lib.Runs

namespace TurboWasm.Wasi

open Relation List Option Wasi.World FsTable Job FsSlot

/-! ## 1. The helpers -/

section helpers

variable {t : FsTable} {i : Nat} {s : FsSlot}

theorem FsTable.fd_some {n : Nat} (h : t.fd n = some (i, s)) : t.slots[i]? = some s ∧ s.active := by
  simp only [fd, bind_eq_some_iff, map_eq_some_iff] at h
  obtain ⟨k, hk, u, hu, rfl, rfl⟩ := h
  obtain ⟨hlt, htest, -⟩ := findIdx?_eq_some_iff_getElem.mp hk
  obtain ⟨_, hget⟩ := List.getElem?_eq_some_iff.mp hu
  rw [hget, Bool.and_eq_true] at htest
  exact ⟨hu, htest.1⟩

theorem FsTable.identity_some {d : FsDescriptor} (h : t.identity d = some (i, s)) :
    i = d.slot ∧ t.slots[d.slot]? = some s ∧ s.generation = d.generation ∧ d.generation ≠ 0 := by
  simp only [identity, ite_none_left_eq_some, bind_eq_some_iff, ite_none_right_eq_some] at h
  obtain ⟨hne, u, hu, hgen, rfl, rfl⟩ := h
  exact ⟨rfl, hu, hgen, hne⟩

theorem FsTable.find_some (h : t.find target = some (i, s)) :
    t.slots[i]? = some s := by
  cases target with
  | fd n => exact (fd_some h).1
  | identity d =>
    obtain ⟨rfl, hs, -⟩ := identity_some h
    exact hs

/-- At most `capacity` descriptors are occupied, so one of the `capacity + 1` candidates is free. -/
theorem FsTable.nextFdLocked_free : t.fdOccupied t.nextFdLocked = false := by
  rw [nextFdLocked]
  cases hfind : ((List.range (t.capacity + 1)).map (· + 3)).find? fun n => !t.fdOccupied n with
  | some n =>
    have hn := find?_some hfind
    simpa using hn
  | none =>
    set candidates := (List.range (t.capacity + 1)).map (· + 3) with hcandidates
    have hsub : candidates ⊆ t.slots.map (·.guestFd) := by
      intro n hn
      have hocc := find?_eq_none.mp hfind n hn
      simp only [Bool.not_eq_true', Bool.not_eq_false] at hocc
      obtain ⟨s, hs, htest⟩ := any_eq_true.mp hocc
      rw [Bool.and_eq_true, beq_iff_eq] at htest
      exact mem_map.mpr ⟨s, hs, htest.2⟩
    have hnodup : candidates.Nodup :=
      .map (fun a b hab => add_right_cancel hab) nodup_range
    have hlen := (hnodup.subperm hsub).length_le
    simp [hcandidates, capacity] at hlen

theorem FsTable.reserveLocked_some {d : FsDescriptor}
    (h : t.reserveLocked n = some (t', d)) : ∃ s, t.slots[d.slot]? = some s ∧
      reservable s ∧ d.generation = s.generation + 1 ∧ t' = t.put d.slot (reservedSlot s n) := by
  simp only [reserveLocked, bind_eq_some_iff, map_eq_some_iff] at h
  obtain ⟨k, hk, u, hu, rfl, rfl⟩ := h
  obtain ⟨hlt, htest, -⟩ := findIdx?_eq_some_iff_getElem.mp hk
  obtain ⟨_, hget⟩ := List.getElem?_eq_some_iff.mp hu
  rw [hget] at htest
  exact ⟨u, hu, htest, rfl, rfl⟩

theorem pinLocked_ok {found : Option (Nat × FsSlot)} {rights : Rights} {s' : FsSlot}
    (h : pinLocked found rights = .ok (i, s')) : ∃ s, found = some (i, s) ∧ s.active ∧
      s.closing = false ∧ s.rightsBase &&& rights = rights ∧
      s' = { s with pins := s.pins + 1 } := by
  rcases found with _ | ⟨k, s⟩
  · cases h
  rw [pinLocked] at h
  split at h
  · cases h
  split at h
  · cases h
  split at h
  · cases h
  next hactive hbusy hrights =>
    cases h
    simp only [Bool.or_eq_true, not_or, Bool.not_eq_true] at hbusy
    exact ⟨s, rfl, by simpa using hactive, hbusy.1, by simpa using hrights, rfl⟩

end helpers

/-! ## 2. The sections -/

/-- What one section keeps. -/
structure SectionOk (w : World) (r : Reply) (w' : World) : Prop where
  inv : FsInv w'
  later : Later w w'
  quiet : r ≠ .done → Quiet w w'

theorem Keeps.section {w w' : World} {r : Reply} (h : Keeps w w') : SectionOk w r w' :=
  ⟨h.inv, h.later, fun _ => h.quiet⟩

theorem SectionOk.done {w w' : World} (h : FsInv w' ∧ Later w w') : SectionOk w .done w' :=
  ⟨h.1, h.2, absurd rfl⟩

/-- The section keeps the table, whatever it reports. -/
def Sections (w : World) (x : Option (Reply × World)) : Prop :=
  ∀ r w', x = some (r, w') → SectionOk w r w'

namespace Sections

variable {w w' : World} {r : Reply}

theorem absent : Sections w none := fun _ _ h => by cases h

theorem ok (h : SectionOk w r w') : Sections w (some (r, w')) := by
  intro r w' heq
  cases heq
  exact h

theorem keeps (h : Keeps w w') : Sections w (some (r, w')) := ok h.section

/-- A section that changes nothing. -/
theorem stay (h : FsInv w) : Sections w (some (r, w)) := keeps (.refl h)

theorem map {α : Type} {x : Option α} {f : α → Reply × World}
    (h : ∀ a, x = some a → SectionOk w (f a).1 (f a).2) : Sections w (x.map f) := by
  intro r w' heq
  obtain ⟨a, ha, hf⟩ := map_eq_some_iff.mp heq
  have := h a ha
  rwa [hf] at this

end Sections

section sections

variable {w w' : World} {i j : Nat} {s : FsSlot} {job : Job} {r : Reply}
  {claims : BitVec 8} {flags : BitVec 16}

theorem keeps_change {s' : FsSlot} (hs : w.table.slots[i]? = some s) (hview : s'.view = s.view)
    (h : FsInv (w.change i s' j job') ∧ Later w (w.change i s' j job')) :
    Keeps w (w.change i s' j job') :=
  ⟨h.1, h.2, quiet_set hs rfl hview⟩

/-- A section that only moves tokens of one slot, between jobs that hold nothing elsewhere. -/
theorem FsInv.moveTokens (h : FsInv w) (hs : w.table.slots[i]? = some s)
    (hj : w.jobs[j]? = some job) {closing metadataBusy : Bool} {pins leases : Nat}
    (hshape : Shape { s with
      closing := closing
      metadataBusy := metadataBusy
      pins := pins
      leases := leases
      claims := claims
      flags := flags })
    (hheld : ∀ k, held { s with
      closing := closing
      metadataBusy := metadataBusy
      pins := pins
      leases := leases
      claims := claims
      flags := flags } k + (job.holds k i).toNat = s.held k + (job'.holds k i).toNat)
    (hold : ∀ t ∈ job.tokens, t.2.slot = i) (hnew : ∀ t ∈ job'.tokens, t.2.slot = i)
    (hcarry : ∀ t ∈ job'.tokens, w.Carries t) : Keeps w (w.change i { s with
      closing := closing
      metadataBusy := metadataBusy
      pins := pins
      leases := leases
      claims := claims
      flags := flags } j job') := by
  have hoff : ∀ {b : Job}, (∀ t ∈ b.tokens, t.2.slot = i) → ∀ k l, l ≠ i → b.holds k l = false := by
    intro b hb k l hl
    refine any_eq_false.mpr fun t ht hhold => ?_
    exact hl ((of_decide_eq_true hhold).2.symm.trans (hb t ht))
  exact keeps_change hs rfl (h.change hs hj
    ⟨rfl, fun hr => hr, fun _ => rfl, rfl, fun _ => rfl, .refl _, .refl _⟩ hheld
    (fun k l hl => (hoff hnew k l hl).trans (hoff hold k l hl).symm) hshape hcarry)

/-- An active slot that is not closing may count any pins, one that is closing has none. -/
theorem shape_active (ha : s.active) (hr : s.reserved = false)
    (hc : s.closing → s.pins = 0) : Shape s :=
  ⟨fun h => ⟨ha, hc h⟩, fun _ => ha, fun h => absurd h (by simp [hr])⟩

@[simp]
theorem tokens_idle : Job.tokens .idle = [] := rfl

section

variable (h : FsInv w)

include h

/-- A slot is pinned. -/
theorem FsInv.pin (hs : w.table.slots[i]? = some s) (hj : w.jobs[j]? = some .idle)
    (ha : s.active) (hc : s.closing = false) (htok : job'.tokens = [(.pin, ⟨i, s.generation⟩)]) :
    Keeps w (w.change i { s with pins := s.pins + 1 } j job') := by
  refine h.moveTokens hs hj (shape_active ha ((h.slot hs).unreserved ha)
    (by simp [hc])) (fun k => ?_) (by simp) (by simp [htok])
    (by simp only [htok, mem_singleton, forall_eq]; exact h.issued hs ha)
  cases k <;> simp [held, holds, htok]

/-- A pin goes, from a job that held it besides nothing of another slot. -/
theorem FsInv.unpin {v : FsSnapshot} (hj : w.jobs[j]? = some job)
    (htok : job.tokens = [(.pin, v.descriptor)])
    (hw : w.unpinned v j .idle = some w') : Keeps w w' := by
  obtain ⟨s, hs, rfl⟩ := map_eq_some_iff.mp hw
  have hmem : (.pin, v.descriptor) ∈ job.tokens := by rw [htok]; exact mem_singleton_self _
  obtain ⟨hp, ha, hc, hr⟩ := h.token_active hj hmem hs
  refine h.moveTokens hs hj (shape_active ha hr (by simp [hc])) (fun k => ?_)
    (by simp [htok]) (by simp) (by simp)
  cases k <;> simp [held, holds, htok]
  omega

theorem pin_ok : Sections w (w.pin j target rights) := by
  unfold pin
  split
  · next hj =>
    split
    · exact .stay h
    · next i s' hpin =>
      obtain ⟨s, hfound, ha, hc, -, rfl⟩ := pinLocked_ok hpin
      exact .keeps (h.pin (find_some hfound) hj ha hc rfl)
  · exact .absent

theorem preopenPin_ok : Sections w (w.preopenPin j n) := by
  unfold preopenPin
  split
  · exact .stay h
  · split
    · exact pin_ok h
    · exact .stay h

theorem unpin_ok : Sections w (w.unpin j answer) := by
  unfold unpin
  split
  · next v verdict hj =>
    exact .map fun u hu => (h.unpin hj rfl hu).section
  · exact .absent

theorem bind_ok : Sections w (w.bind j a) := by
  unfold World.bind
  split
  · next hj =>
    split
    · exact .stay h
    split
    · exact .stay h
    split
    · exact .stay h
    dsimp only
    generalize a.fd.getD w.table.nextFdLocked = n
    split
    · exact .stay h
    split
    · exact .stay h
    next hfree _ t d hres =>
    obtain ⟨s, hs, hr, hgen, rfl⟩ := reserveLocked_some hres
    refine .map fun u hu => ?_
    -- the slot is reserved and published under one lock
    set w₁ := w.change d.slot (reservedSlot s n) j (.reserved d) with hw₁
    have hkeeps : Keeps w w₁ := h.reserve hs hr (Bool.eq_false_of_not_eq_true hfree) hj
      (by rw [← hgen]; rfl)
    have hug : u.generation = d.generation := by
      rw [put, Lib.getElem?_set_of hs, if_pos rfl] at hu
      cases hu
      exact hgen.symm
    have hj₁ : w₁.jobs[j]? = some (.reserved d) := by
      show (w.jobs.set j _)[j]? = _
      rw [Lib.getElem?_set_of hj, if_pos rfl]
    have hmade : FsInv (w₁.publish d.slot u a.how none j .idle) ∧
        Later w₁ (w₁.publish d.slot u a.how none j .idle) :=
      hkeeps.inv.publish hu hj₁ (by rw [hug]; rfl) (fun p q hq => by cases hq)
    have heq : publish { w with table := w.table.put d.slot (reservedSlot s n) } d.slot u a.how
        none j .idle = w₁.publish d.slot u a.how none j .idle := by
      simp [publish, hw₁, change]
    rw [heq]
    exact .done ⟨hmade.1, hkeeps.later.trans hmade.2⟩
  · exact .absent

/-- A pin stays where it is and its call goes on otherwise. -/
theorem FsInv.rejob {v : FsSnapshot} (hj : w.jobs[j]? = some job)
    (htok : job.tokens = [(.pin, v.descriptor)]) (htok' : job'.tokens = [(.pin, v.descriptor)]) :
    Keeps w { w with jobs := w.jobs.set j job' } := by
  have hcarry := h.jobs job (mem_of_getElem? hj) (.pin, v.descriptor) (by simp [htok])
  obtain ⟨s, hs, -⟩ := hcarry.1
  have hkeeps : Keeps w (w.change v.descriptor.slot s j job') := h.moveTokens hs hj (h.slot hs).toShape
    (fun k => by simp [holds, htok, htok']) (by simp [htok]) (by simp [htok'])
    (by simp only [htok', mem_singleton, forall_eq]; exact hcarry)
  have hset : w.table.slots.set v.descriptor.slot s = w.table.slots := by
    obtain ⟨hlt, hget⟩ := List.getElem?_eq_some_iff.mp hs
    rw [← hget, set_getElem_self]
  rwa [World.change, FsTable.put, hset] at hkeeps

theorem close_ok {target : Handle} : Sections w (w.close j target) := by
  unfold close
  split
  · next hj =>
    split
    · exact .stay h
    next i s hfound =>
    split
    · exact .stay h
    split
    · exact .stay h
    next hactive hbusy =>
    have hs := find_some hfound
    have ha : s.active := by simpa using hactive
    simp only [Bool.or_eq_true, bne_iff_ne, not_or, not_not] at hbusy
    obtain ⟨⟨hc, hp⟩, -⟩ := hbusy
    apply Sections.keeps
    refine h.moveTokens hs hj (shape_active ha ((h.slot hs).unreserved ha) fun _ => hp)
      (fun k => ?_) (by simp) (by simp [tokens]) ?_
    · cases k <;> simp [held, holds, tokens, hc]
    · simp only [tokens, mem_singleton, forall_eq]
      exact h.issued hs ha
  · exact .absent

theorem closeFinish_ok : Sections w (w.closeFinish j answer) := by
  unfold closeFinish
  split
  · next d hj =>
    refine .map fun s hs => ?_
    split
    · -- the provider kept the file
      have hok := h.slot hs
      have hc : s.closing :=
        toNat_ne_zero (h.token hj (k := .closing) (d := d) (by simp [tokens]) hs).1
      have ha := (hok.closing hc).1
      apply Keeps.section
      refine h.moveTokens hs hj (shape_active ha (hok.unreserved ha) fun h' =>
        absurd h' Bool.false_ne_true) (fun k => ?_) (by simp [tokens]) (by simp)
        (by simp)
      cases k <;> simp [held, holds, tokens, hc]
    · exact .done (h.closed hs hj rfl rfl rfl rfl)
  · exact .absent

theorem pathOpen_ok :
    Sections w (w.pathOpen j n base inheriting flags) := by
  unfold pathOpen
  split
  · next hj =>
    split
    · exact .stay h
    · next i s' hpin =>
      obtain ⟨s, hfound, ha, hc, -, rfl⟩ := pinLocked_ok hpin
      exact .keeps (h.pin (fd_some hfound).1 hj ha hc rfl)
  · exact .absent

theorem pathOpenReserve_ok : Sections w (w.pathOpenReserve j) := by
  unfold pathOpenReserve
  split
  · next v base inheriting flags hj =>
    split
    · exact .map fun u hu => (h.unpin hj rfl hu).section
    split
    · exact .map fun u hu => (h.unpin hj rfl hu).section
    split
    · exact .keeps (h.rejob hj rfl rfl)
    next t child hres =>
    obtain ⟨s, hs, hr, hgen, rfl⟩ := reserveLocked_some hres
    apply Sections.keeps
    exact h.reserve hs hr nextFdLocked_free hj (by rw [← hgen]; rfl)
  · exact .absent

/-- A reservation goes. -/
theorem FsInv.unreserve (hj : w.jobs[j]? = some job)
    (htok : job.tokens = job'.tokens ++ [(.reservation, d)])
    (hw : w.unreserved d j job' = some w') : Keeps w w' := by
  obtain ⟨s, hs, rfl⟩ := map_eq_some_iff.mp hw
  have hok := h.slot hs
  have hres : s.reserved :=
    toNat_ne_zero (h.token hj (k := .reservation) (d := d) (by simp [htok]) hs).1
  have ha : s.active = false := by
    by_contra hne
    simp [hok.unreserved (Bool.eq_true_of_not_eq_false hne)] at hres
  refine keeps_change hs (by simp [view, ha]) (h.change hs hj ⟨rfl,
    fun h' => absurd h' Bool.false_ne_true, fun ho => absurd ho (by simp [occupied, ha]), rfl,
    fun _ => rfl, .refl _, .refl _⟩ (fun k => ?_) (fun k l hl => ?_) ⟨hok.closing, hok.pinned,
    fun h' => absurd h' Bool.false_ne_true⟩ (fun t ht => ?_))
  · rw [holds_append_on htok]
    cases k <;> simp [held, hres, add_comm]
  · exact (holds_append_off htok k hl).symm
  · exact h.jobs job (mem_of_getElem? hj) t (by rw [htok]; exact mem_append_left _ ht)

end

theorem jobs_set (hj : w.jobs[j]? = some job) : (w.jobs.set j job')[j]? = some job' := by
  rw [Lib.getElem?_set_of hj, if_pos rfl]

theorem pathOpenFinish_ok (h : FsInv w) {answer : Except Errno FsFile} :
    Sections w (w.pathOpenFinish j answer) := by
  unfold pathOpenFinish
  split
  · next v child base inheriting flags hj =>
    split
    · -- the child's reservation goes, then the parent's pin
      refine .map fun u hu => ?_
      obtain ⟨w₁, hw₁, hu⟩ := bind_eq_some_iff.mp hu
      have hkeeps := h.unreserve hj rfl hw₁
      obtain ⟨s, -, rfl⟩ := map_eq_some_iff.mp hw₁
      exact (hkeeps.trans (hkeeps.inv.unpin (jobs_set hj) rfl hu)).section
    next file _ =>
    intro r w' hw
    simp only [bind_eq_bind, bind_eq_some_iff] at hw
    obtain ⟨parent, hparent, s, hs, u, hu, hpair⟩ := hw
    cases hpair
    have hmem : (.pin, v.descriptor) ∈ tokens (.opened v child base inheriting flags) := by
      simp [tokens]
    have hgen := (h.token hj hmem hparent).2
    obtain ⟨q, hq, hd, -, -, hin⟩ := (h.slot hparent).record (h.token_active hj hmem hparent).2.1
    have hchild := (h.token hj (k := .reservation) (d := child) (by simp [tokens]) hs).2
    -- the rights are cut to what the parent inherits at this moment
    set p : Publication := ⟨file, v.ops, 0, flags, base &&& parent.rightsInheriting,
      inheriting &&& parent.rightsInheriting, false⟩
    have hmade := h.publish hs hj (show tokens (.opened v child base inheriting flags) =
        tokens (.pinned v none) ++ [(.reservation, ⟨child.slot, s.generation⟩)] by
          rw [hchild]; rfl)
      (show w.Derived ⟨⟨child.slot, s.generation⟩, p, some (v.descriptor, parent.rightsInheriting)⟩
        by
          intro p' r' hp'
          cases hp'
          exact ⟨within_and_right _ _, within_and_right _ _, q, hq, by rw [hd, hgen], hin⟩)
    have hkeeps := hmade.1.unpin (jobs_set hj) rfl hu
    exact .done ⟨hkeeps.inv, hmade.2.trans hkeeps.later⟩
  · exact .absent

theorem rename_ok (h : FsInv w) :
    Sections w (w.rename j k source target) := by
  unfold rename
  split
  · next i s _ hj hk hsource _ =>
    split
    · exact .absent
    next hjk =>
    split
    · exact .stay h
    next i' s' hpin =>
    obtain ⟨u, hfound, ha, hc, -, rfl⟩ := pinLocked_ok hpin
    cases hfound
    have hs := (fd_some hsource).1
    dsimp only
    split
    · -- the first pin is left to its unpin
      exact .keeps (h.pin hs hj ha hc rfl)
    next i₂ s₂ hpin₂ =>
    have hkeeps := h.pin hs hj ha hc
      (show tokens (.pinned (snapshot i { s with pins := s.pins + 1 }) none) = _ from rfl)
    obtain ⟨u, hfound, ha₂, hc₂, -, rfl⟩ := pinLocked_ok hpin₂
    refine .keeps (hkeeps.trans (hkeeps.inv.pin (fd_some hfound).1 ?_ ha₂ hc₂ rfl))
    show (w.jobs.set j _)[k]? = _
    rw [Lib.getElem?_set_of hj, if_neg fun heq => hjk heq.symm, hk]
  · exact .stay h
  · exact .absent

theorem acquire_ok (h : FsInv w) : Sections w (w.acquire j) := by
  unfold acquire
  split
  · next v hj =>
    refine .map fun s hs => ?_
    split
    · exact (h.rejob hj rfl rfl).section
    have hmem : (.pin, v.descriptor) ∈ tokens (.pinned v none) := by simp [tokens]
    obtain ⟨-, ha, hc, hr⟩ := h.token_active hj hmem hs
    apply Keeps.section
    refine h.moveTokens hs hj (shape_active ha hr (by simp [hc]))
      (fun k => ?_) (by simp [tokens]) (by simp [tokens]) ?_
    · cases k <;> simp [held, holds, tokens]
    · have hgen := (h.token hj hmem hs).2
      have hissued := fun k : Token => h.issued (k := k) hs ha
      rw [hgen] at hissued
      simp only [tokens, mem_cons, not_mem_nil, or_false, forall_eq_or_imp, forall_eq]
      exact ⟨hissued _, hissued _⟩
  · exact .absent

theorem acquireFinish_ok (h : FsInv w) : Sections w (w.acquireFinish j answer) := by
  unfold acquireFinish
  split
  · next v hj =>
    refine .map fun s hs => ?_
    have hmem : (Token.pin, v.descriptor) ∈ tokens (.retaining v) := by simp [tokens]
    have hmem' : (Token.lease, v.descriptor) ∈ tokens (.retaining v) := by simp [tokens]
    obtain ⟨hp, ha, hc, hr⟩ := h.token_active hj hmem hs
    have hl : s.leases ≠ 0 := (h.token hj hmem' hs).1
    split
    · apply Keeps.section
      refine h.moveTokens hs hj (shape_active ha hr (by simp [hc]))
        (fun k => ?_) (by simp [tokens]) (by simp) (by simp)
      cases k <;> simp [held, holds, tokens] <;> omega
    apply Keeps.section
    refine h.moveTokens hs hj (shape_active ha hr (by simp [hc]))
      (fun k => ?_) (by simp [tokens]) (by simp [tokens]) ?_
    · cases k <;> simp [held, holds, tokens]
      omega
    · simp only [tokens, mem_singleton, forall_eq]
      exact h.jobs _ (mem_of_getElem? hj) _ hmem'
  · exact .absent

theorem claimBits_getLsbD (claim : Option Nat) (he : e < 8) :
    (claimBits claim).getLsbD e = decide (claim = some e) := by
  cases claim with
  | none => exact BitVec.getLsbD_zero
  | some direction =>
    have hone : BitVec.getLsbD (1 : BitVec 8) (e - direction) = decide (e - direction = 0) :=
      by simp
    rw [claimBits, elim_some, BitVec.getLsbD_shiftLeft, hone, Bool.eq_iff_iff]
    simp only [Bool.and_eq_true, decide_eq_true_eq, Bool.not_eq_true', decide_eq_false_iff_not,
      some.injEq]
    omega

theorem claims_set (hlt : direction < 8) (hclear : claims.getLsbD direction = false) (e : Nat) :
    ((claims ||| claimBits (some direction)).getLsbD e).toNat =
      (claims.getLsbD e).toNat + (decide (direction = e)).toNat := by
  rw [BitVec.getLsbD_or]
  by_cases he : e < 8
  · rw [claimBits_getLsbD _ he]
    by_cases heq : direction = e
    · subst heq
      rw [hclear]
      simp
    · simp [heq]
  · have hne : ¬ direction = e := by omega
    rw [BitVec.getLsbD_of_ge _ e (by omega), BitVec.getLsbD_of_ge _ e (by omega)]
    simp [hne]

theorem claims_clear {claim : Option Nat}
    (hset : ∀ direction, claim = some direction → claims.getLsbD direction) (e : Nat) :
    ((claims &&& ~~~claimBits claim).getLsbD e).toNat + (decide (claim = some e)).toNat =
      (claims.getLsbD e).toNat := by
  rw [BitVec.getLsbD_and, BitVec.getLsbD_not]
  cases hbit : claims.getLsbD e with
  | true =>
    have he := BitVec.lt_of_getLsbD hbit
    rw [claimBits_getLsbD _ he, decide_eq_true he]
    by_cases hc : claim = some e <;> simp [hc]
  | false =>
    have hc : ¬ claim = some e := fun hc => by rw [hset e hc] at hbit; cases hbit
    simp [hc]

theorem holds_claim (v : FsSnapshot) (claim : Option Nat) (e : Nat) :
    holds (.claim e) v.descriptor.slot (.lease v claim) = decide (claim = some e) := by
  cases claim <;> simp [holds, tokens]

section

variable (h : FsInv w)

include h

theorem claim_ok {direction : Nat} : Sections w (w.claim j direction) := by
  unfold claim
  split
  · next v claimed hj =>
    split
    · exact .stay h
    split
    · exact .stay h
    next i s hfound =>
    split
    · exact .stay h
    split
    · exact .stay h
    next hactive hbusy =>
    obtain ⟨rfl, hs, hgen, -⟩ := identity_some hfound
    have ha : s.active := by simpa using hactive
    simp only [Bool.or_eq_true, bne_iff_ne, not_or, not_not, Bool.not_eq_true, isSome_eq_false_iff,
      isNone_iff_eq_none] at hbusy
    obtain ⟨⟨hc, rfl⟩, hbit⟩ := hbusy
    have hlt : direction < 8 := by omega
    have hclear : s.claims.getLsbD direction = false := by
      have hget : (s.claims &&& claimBits (some direction)).getLsbD direction = false := by
        rw [hbit]
        exact BitVec.getLsbD_zero
      rwa [BitVec.getLsbD_and, claimBits_getLsbD _ hlt, decide_eq_true rfl, Bool.and_true] at hget
    apply Sections.keeps
    refine h.moveTokens hs hj (shape_active ha ((h.slot hs).unreserved ha)
      (by simp [hc])) (fun k => ?_) (by simp [tokens]) (by simp [tokens])
      ?_
    · cases k with
      | claim e =>
        rw [holds_claim, holds_claim, held, claims_set hlt hclear]
        simp [held]
      | _ => simp [held, holds, tokens]
    · have hcarry := h.jobs _ (mem_of_getElem? hj) (.lease, v.descriptor) (by simp [tokens])
      simp only [tokens, mem_cons, not_mem_nil, or_false, forall_eq_or_imp, forall_eq]
      exact ⟨hcarry, hcarry.1, fun _ => hcarry.2 (by simp)⟩
  · exact .absent

theorem release_ok : Sections w (w.release j) := by
  unfold release
  split
  · next v claimed hj =>
    have hmem : (Token.lease, v.descriptor) ∈ tokens (.lease v claimed) := by
      cases claimed <;> simp [tokens]
    obtain ⟨⟨u, hu, hgen, hne⟩, -⟩ := h.jobs _ (mem_of_getElem? hj) _ hmem
    have hfound : w.table.identity v.descriptor = some (v.descriptor.slot, u) := by
      simp [identity, hne, hu, hgen]
    rw [hfound]
    have hok := h.slot hu
    have hl : u.leases ≠ 0 := (h.token hj hmem hu).1
    refine .ok (.done (h.change hu hj ⟨rfl, fun hr => hr, fun _ => rfl, rfl, fun ha => ?_, .refl _,
      .refl _⟩ (fun k => ?_) (fun k l hl' => ?_) ⟨hok.closing, hok.pinned, fun hr => ?_⟩ (by simp)))
    · simp [ha]
    · cases k with
      | claim e =>
        rw [holds_claim]
        refine claims_clear (fun direction hd => ?_) e
        subst hd
        exact toNat_ne_zero (h.token hj (k := .claim direction) (d := v.descriptor)
          (by simp [tokens]) hu).1
      | lease =>
        cases claimed <;> simp [held, holds, tokens] <;> omega
      | _ => cases claimed <;> simp [held, holds, tokens]
    · cases claimed <;> simp [holds, tokens, hl'.symm]
    · obtain ⟨hp, hl'⟩ := hok.fresh hr
      exact absurd hl' hl
  · exact .absent

theorem setFlags_ok : Sections w (w.setFlags j n flags) := by
  unfold setFlags
  split
  · next hj =>
    split
    · exact .stay h
    next i s' hpin =>
    obtain ⟨s, hfound, ha, hc, -, rfl⟩ := pinLocked_ok hpin
    split
    · exact .stay h
    next hmeta =>
    have hs := (fd_some hfound).1
    have hm : s.metadataBusy = false := by simpa using hmeta
    apply Sections.keeps
    refine h.moveTokens hs hj (shape_active ha ((h.slot hs).unreserved ha)
      (by simp [hc])) (fun k => ?_) (by simp) (by simp [tokens, snapshot]) ?_
    · cases k <;> simp [held, holds, tokens, snapshot, hm]
    · simp only [tokens, mem_cons, not_mem_nil, or_false, forall_eq_or_imp, forall_eq]
      exact ⟨h.issued hs ha, h.issued hs ha⟩
  · exact .absent

theorem setFlagsFinish_ok : Sections w (w.setFlagsFinish j answer) := by
  unfold setFlagsFinish
  split
  · next v flags hj =>
    refine .map fun s hs => ?_
    obtain ⟨hp, ha, hc, hr⟩ := h.token_active hj (d := v.descriptor) (by simp [tokens]) hs
    have hm : s.metadataBusy :=
      toNat_ne_zero (h.token hj (k := .metadata) (d := v.descriptor) (by simp [tokens]) hs).1
    apply Keeps.section
    refine h.moveTokens hs hj (shape_active ha hr (by simp [hc]))
      (fun k => ?_) (by simp [tokens]) (by simp) (by simp)
    cases k <;> simp [held, holds, tokens, hm]
    omega
  · exact .absent

theorem setRights_ok {base inheriting : Rights} :
    Sections w (some (w.setRights n base inheriting)) := by
  unfold setRights
  split
  · exact .stay h
  next i s hfound =>
  split
  · exact .stay h
  split
  · exact .stay h
  next hrights =>
  simp only [not_or, not_not] at hrights
  have hs := (fd_some hfound).1
  have hok := h.slot hs
  have hsame : Same s { s with
      rightsBase := base
      rightsInheriting := inheriting } :=
    ⟨rfl, fun hr => hr, fun _ => rfl, rfl, fun _ => rfl, hrights.1, hrights.2⟩
  exact .ok (.done (h.retoken hs hsame rfl rfl rfl hok.held (fun _ _ _ => rfl)
    ⟨hok.closing, hok.pinned, hok.fresh⟩ h.jobs))

theorem reserve_ok : Sections w (w.reserve j) := by
  unfold reserve
  split
  · next hj =>
    split
    · exact .stay h
    next t d hres =>
    obtain ⟨s, hs, hr, hgen, rfl⟩ := reserveLocked_some hres
    apply Sections.keeps
    exact h.reserve hs hr nextFdLocked_free hj (by rw [← hgen]; rfl)
  · exact .absent

theorem abort_ok : Sections w (w.abort j) := by
  unfold abort
  split
  · next d hj =>
    have hmem : (.reservation, d) ∈ tokens (.reserved d) := mem_singleton_self _
    obtain ⟨⟨s, hs, hgen, hne⟩, -⟩ := h.jobs _ (mem_of_getElem? hj) _ hmem
    have hres : s.reserved := toNat_ne_zero (h.token hj hmem hs).1
    have hfound : (w.table.identity d).any (·.2.reserved) := by
      simp [identity, hne, hs, hgen, hres]
    rw [if_pos hfound]
    exact .map fun u hu => (h.unreserve hj rfl hu).section
  · exact .absent

theorem publishAccepted_ok {k : Nat} {file : FsFile} :
    Sections w (w.publishAccepted j k file flags) := by
  unfold publishAccepted
  split
  · next d v claimed hj hk =>
    intro r w' hw
    simp only [bind_eq_bind, bind_eq_some_iff] at hw
    obtain ⟨⟨i, s⟩, hfound, ⟨_, current⟩, hparent, hpair⟩ := hw
    cases hpair
    obtain ⟨rfl, hs, hgen, -⟩ := identity_some hfound
    obtain ⟨-, hp, hpgen, -⟩ := identity_some hparent
    refine .done (h.publish hs hj (by rw [hgen]; rfl) fun p' r' hp' => ?_)
    cases hp'
    refine ⟨within_and_left _ _, within_zero _, ?_⟩
    cases ha : current.active with
    | true =>
      obtain ⟨q, hq, hd, -, -, hin⟩ := (h.slot hp).record ha
      exact ⟨q, hq, by rw [hd, hpgen], hin⟩
    | false =>
      -- the parent was closed under its lease and inherits nothing any more
      have hmem : (.lease, v.descriptor) ∈ tokens (.lease v claimed) := by
        cases claimed <;> simp [tokens]
      obtain ⟨q, hq, hd⟩ := (h.jobs _ (mem_of_getElem? hk) _ hmem).2 (by simp)
      exact ⟨q, hq, hd, by rw [(h.slot hp).retired ha]; exact within_zero _⟩
  · exact .absent

theorem enter_ok : Keeps w { w with jobs := w.jobs ++ [.idle] } := by
  refine ⟨{ h with
    slot := fun hs => (h.slot hs).frame (fun k => ?_) (fun _ hm => .inl hm) (fun _ hm => hm)
      (fun _ hd => .inl hd)
    jobs := fun job hjob t ht => ?_ }, ⟨(Later.refl w).slot, fun _ hm => hm⟩, fun _ => rfl⟩
  · rw [outstanding, countP_append]
    rfl
  · rcases mem_append.mp hjob with hjob | hjob
    · exact h.jobs job hjob t ht
    · rw [mem_singleton] at hjob
      subst hjob
      simp at ht

/-- **Every section keeps the table.** -/
theorem perform_ok : Sections w (w.perform a) := by
  cases a with
  | enter => exact .keeps (enter_ok h)
  | bind => exact bind_ok h
  | pin => exact pin_ok h
  | preopenPin => exact preopenPin_ok h
  | unpin => exact unpin_ok h
  | close => exact close_ok h
  | closeFinish => exact closeFinish_ok h
  | pathOpen => exact pathOpen_ok h
  | pathOpenReserve => exact pathOpenReserve_ok h
  | pathOpenFinish => exact pathOpenFinish_ok h
  | rename => exact rename_ok h
  | acquire => exact acquire_ok h
  | acquireFinish => exact acquireFinish_ok h
  | release => exact release_ok h
  | claim => exact claim_ok h
  | setFlags => exact setFlags_ok h
  | setFlagsFinish => exact setFlagsFinish_ok h
  | setRights => exact setRights_ok h
  | reserve => exact reserve_ok h
  | abort => exact abort_ok h
  | publish => exact publishAccepted_ok h

end

end sections

/-! ## 3. Runs -/

theorem inv_init {capacity : Nat} {t : FsTable} (h : FsTable.init capacity = some t) :
    FsInv (init t) := by
  obtain ⟨-, heq⟩ := ite_none_left_eq_some.mp h
  cases heq
  have hslot : ∀ {i : Nat} {s : FsSlot}, (List.replicate capacity ({} : FsSlot))[i]? = some s →
      s = {} := fun hs => eq_of_mem_replicate (mem_of_getElem? hs)
  refine
    { slot := ?_
      fds := ?_
      count := ?_
      jobs := fun job hjob => by cases hjob
      made := nodup_nil
      once := nodup_nil
      derived := fun m hm => by cases hm }
  · intro i s hs
    cases hslot hs
    refine
      { held := fun k => by cases k <;> simp [FsSlot.held, World.outstanding, World.init]
        unreserved := fun _ => rfl
        closing := fun h' => absurd h' Bool.false_ne_true
        pinned := fun h' => absurd rfl h'
        fresh := fun _ => ⟨rfl, rfl⟩
        named := fun ho => absurd ho (by simp [occupied])
        retired := fun _ => rfl
        made := fun m hm => by cases hm
        record := fun h' => absurd h' Bool.false_ne_true
        closed := fun d hd => by cases hd }
  · intro i j s u hs hu ho
    cases hslot hs
    exact absurd ho (by simp [occupied])
  · rw [World.init, eq_comm, countP_eq_zero]
    intro s hs
    rw [eq_of_mem_replicate hs]
    exact Bool.false_ne_true

/-- What holds of the table and of everything its callers hold. -/
structure TableSafe (w : World) : Prop where
  /-- `active_count` is the number of active slots. -/
  count : w.table.activeCount = w.table.slots.countP (·.active)
  /-- No two active or reserved slots carry one guest descriptor. -/
  fds : ∀ {i j : Nat} {s t : FsSlot}, w.table.slots[i]? = some s → w.table.slots[j]? = some t →
    s.occupied → t.occupied → s.guestFd = t.guestFd → i = j
  /-- A slot counts the pins and leases that are out. -/
  tokens : ∀ {i : Nat} {s : FsSlot}, w.table.slots[i]? = some s →
    s.pins = w.outstanding .pin i ∧ s.leases = w.outstanding .lease i
  /-- At most one live lease claims a direction. -/
  claims : ∀ {i : Nat} {s : FsSlot}, w.table.slots[i]? = some s → ∀ direction,
    w.outstanding (.claim direction) i ≤ 1
  /-- The provider's close runs once at a time, and with no pin out. -/
  closing : ∀ {i : Nat} {s : FsSlot}, w.table.slots[i]? = some s → w.outstanding .closing i ≤ 1 ∧
    (w.outstanding .closing i ≠ 0 → w.outstanding .pin i = 0)
  /-- It succeeds at most once for a descriptor. -/
  closed : w.closed.Nodup
  /-- A descriptor is published at most once, and resolves to nothing but that publication. -/
  published : (w.made.map (·.descriptor)).Nodup
  occupant : ∀ {d : FsDescriptor} {i : Nat} {s : FsSlot}, w.table.identity d = some (i, s) →
    s.active → ∃ m ∈ w.made, m.descriptor = d ∧ m.how.file = s.file ∧
      Within s.rightsBase m.how.rightsBase ∧ Within s.rightsInheriting m.how.rightsInheriting
  /-- What a caller holds resolves. -/
  resolves : ∀ job ∈ w.jobs, ∀ t ∈ job.tokens, (w.table.identity t.2).isSome
  /-- A descriptor made from another has only rights its parent was inheriting. -/
  derived : ∀ m ∈ w.made, Lineage w.made m

theorem FsInv.safe (h : FsInv w) : TableSafe w where
  count := h.count
  fds := h.fds
  tokens hs := ⟨(h.slot hs).held .pin, (h.slot hs).held .lease⟩
  claims hs direction := by
    rw [← (h.slot hs).held]
    exact Bool.toNat_le _
  closing := by
    intro i s hs
    have hok := h.slot hs
    rw [← hok.held, ← hok.held]
    exact ⟨Bool.toNat_le _, fun hne => (hok.closing (toNat_ne_zero hne)).2⟩
  closed := h.once
  published := h.made
  occupant := by
    intro d i s hfound ha
    obtain ⟨rfl, hs, hgen, -⟩ := identity_some hfound
    obtain ⟨m, hm, hd, hrest⟩ := (h.slot hs).record ha
    exact ⟨m, hm, by rw [hd, hgen], hrest⟩
  resolves job hjob t ht := by
    obtain ⟨⟨s, hs, hgen, hne⟩, -⟩ := h.jobs job hjob t ht
    simp [identity, hne, hs, hgen]
  derived := h.derived

theorem act_inv (hstep : Lib.Steps World.act w w') (h : FsInv w) :
    FsInv w' ∧ Later w w' := by
  obtain ⟨a, ha⟩ := hstep
  obtain ⟨⟨r, u⟩, hp, rfl⟩ := map_eq_some_iff.mp ha
  have hok := perform_ok h _ _ hp
  exact ⟨hok.inv, hok.later⟩

/-- **The descriptor table is safe in every run**, whatever sections of whatever calls follow each
other: the table agrees with what its callers hold, a section that does not report success leaves
every active descriptor with its file and rights, and across any further run a descriptor keeps its
occupant, gains no right, and once it is gone stays gone. -/
theorem descriptorTable_safe {capacity : Nat} {t : FsTable} {w : World}
    (hinit : init capacity = some t) (hrun : ReflTransGen (Lib.Steps act) (init t) w) :
    TableSafe w ∧ (∀ a r w', w.perform a = some (r, w') → r ≠ .done → Quiet w w') ∧
      ∀ w', ReflTransGen (Lib.Steps act) w w' → Later w w' := by
  have hinv := Lib.invariant_run (P := FsInv) (fun _ _ hst h => (act_inv hst h).1) hrun
    (inv_init hinit)
  refine ⟨hinv.safe, fun a r w' hp => (perform_ok hinv _ _ hp).quiet, fun w' hlater => ?_⟩
  exact Lib.relation_run (P := FsInv) (fun _ _ hst h => (act_inv hst h).1) .refl
    (fun _ _ _ => .trans) (fun _ _ h hst => (act_inv hst h).2) hlater hinv

/-- A preopened directory is bound, a file is opened through it, leased and closed under its lease. -/
theorem descriptorTable_safe_opened : ∃ t w, FsTable.init 2 = some t ∧
    ReflTransGen (Lib.Steps act) (init t) w ∧ w.table.activeCount = 1 ∧
    w.made.length = 2 ∧ w.closed = [⟨1, 1⟩] ∧ TableSafe w := by
  have hrun : ∃ t w, init 2 = some t ∧ [.enter, .enter,
      .bind 0 ⟨some 3, some "/", true, false, ⟨⟨7, 1⟩, ⟨true, false, false, false, false⟩, 3, 0,
        .allOnes 64, .allOnes 64, true⟩⟩,
      .pathOpen 0 3 2 0 0, .pathOpenReserve 0, .pathOpenFinish 0 (.ok ⟨8, 1⟩),
      .pin 0 (.fd 4) 2, .acquire 0, .acquireFinish 0 none, .close 1 (.fd 4),
      .closeFinish 1 none].foldlM act (init t) = some w ∧ w.table.activeCount = 1 ∧
      w.made.length = 2 ∧ w.closed = [⟨1, 1⟩] := ⟨_, _, rfl, rfl, rfl, rfl, rfl⟩
  obtain ⟨t, w, ht, hw, hrest⟩ := hrun
  have hr := Lib.run_of_actions hw
  exact ⟨t, w, ht, hr, hrest.1, hrest.2.1, hrest.2.2, (descriptorTable_safe ht hr).1⟩

end TurboWasm.Wasi
