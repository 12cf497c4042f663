/-
# What the descriptor table keeps

Everything a caller can hold on a slot is a token: a pin, a lease, a reservation, a close under way,
the metadata flag, a claim of one direction.  The slot counts its tokens and the jobs carry them, and
the one law behind the others is that the two agree (`SlotOk.held`).

* §1 is containment of rights, §2 the tokens and the invariant.
* §3 is what one section may do to one slot: move tokens (`FsInv.retoken`), reserve (`FsInv.reserve`),
  publish (`FsInv.publish`) and close (`FsInv.closed`).  Every section of `World.perform` is made of
  these.
-/
import TurboWasm.Wasi.Fs.Model
import TurboWasm.Lib.Lists

namespace TurboWasm.Wasi

open List Bool Wasi.World Job FsSlot

/-! ## 1. Rights -/

/-- No right of `a` is missing from `b`, as the code tests it. -/
def Within (a b : Rights) : Prop := a &&& ~~~b = 0

theorem within_iff {a b : Rights} : Within a b ↔ ∀ i, a.getLsbD i → b.getLsbD i := by
  constructor
  · intro h i hi
    have hbit := congrArg (·.getLsbD i) h
    simpa [hi, BitVec.lt_of_getLsbD hi] using hbit
  · intro h
    refine BitVec.eq_of_getLsbD_eq fun i hlt => ?_
    cases hi : a.getLsbD i with
    | false => simp [hi]
    | true => simp [h i hi]

theorem Within.refl (a : Rights) : Within a a := within_iff.mpr fun _ h => h

theorem Within.trans {a b c : Rights} (h : Within a b) (h' : Within b c) : Within a c :=
  within_iff.mpr fun i hi => within_iff.mp h' i (within_iff.mp h i hi)

theorem within_zero (b : Rights) : Within 0 b := by simp [Within]

theorem Within.eq_zero (h : Within a 0) : a = 0 := by
  have hone : ~~~(0 : Rights) = .allOnes 64 := rfl
  rwa [Within, hone, BitVec.and_allOnes] at h

theorem within_and_right (a b : Rights) : Within (a &&& b) b :=
  within_iff.mpr fun i hi => by
    rw [BitVec.getLsbD_and, and_eq_true] at hi
    exact hi.2

theorem within_and_left (a b : Rights) : Within (a &&& b) a :=
  within_iff.mpr fun i hi => by
    rw [BitVec.getLsbD_and, and_eq_true] at hi
    exact hi.1

/-! ## 2. Tokens and the invariant -/

inductive Token where
  | pin
  | lease
  | reservation
  | closing
  | metadata
  | claim (direction : Nat)
deriving DecidableEq

/-- How many tokens of a kind the slot says are out. -/
def FsSlot.held (s : FsSlot) : Token → Nat
  | .pin => s.pins
  | .lease => s.leases
  | .reservation => s.reserved.toNat
  | .closing => s.closing.toNat
  | .metadata => s.metadataBusy.toNat
  | .claim direction => (s.claims.getLsbD direction).toNat

/-- The tokens a job carries, with the descriptor each is on. -/
def Job.tokens : Job → List (Token × FsDescriptor)
  | .idle => []
  | .pinned v _ | .opening v _ _ _ => [(.pin, v.descriptor)]
  | .opened v child _ _ _ => [(.pin, v.descriptor), (.reservation, child)]
  | .retaining v => [(.pin, v.descriptor), (.lease, v.descriptor)]
  | .flagging v _ => [(.pin, v.descriptor), (.metadata, v.descriptor)]
  | .closing d => [(.closing, d)]
  | .reserved d => [(.reservation, d)]
  | .lease v none => [(.lease, v.descriptor)]
  | .lease v (some direction) => [(.lease, v.descriptor), (.claim direction, v.descriptor)]

def Job.holds (k : Token) (i : Nat) (job : Job) : Bool :=
  job.tokens.any fun t => decide (t.1 = k ∧ t.2.slot = i)

/-- How many tokens of a kind on a slot the callers hold. -/
def World.outstanding (w : World) (k : Token) (i : Nat) : Nat := w.jobs.countP (Job.holds k i)

def FsSlot.occupied (s : FsSlot) : Prop := s.active ∨ s.reserved

/-- The descriptor resolves. -/
def World.Known (w : World) (d : FsDescriptor) : Prop :=
  ∃ s, w.table.slots[d.slot]? = some s ∧ s.generation = d.generation ∧ d.generation ≠ 0

/-- The descriptor was published. -/
def World.Issued (w : World) (d : FsDescriptor) : Prop := ∃ m ∈ w.made, m.descriptor = d

/-- A token's descriptor resolves, and was published unless the token is its reservation. -/
def World.Carries (w : World) (t : Token × FsDescriptor) : Prop :=
  w.Known t.2 ∧ (t.1 ≠ .reservation → w.Issued t.2)

/-- Which tokens go with which state of a slot. -/
structure Shape (s : FsSlot) : Prop where
  closing : s.closing → s.active ∧ s.pins = 0
  pinned : s.pins ≠ 0 → s.active
  fresh : s.reserved → s.pins = 0 ∧ s.leases = 0

/-- What holds of one slot. -/
structure SlotOk (w : World) (i : Nat) (s : FsSlot) : Prop extends Shape s where
  held : ∀ k, s.held k = w.outstanding k i
  unreserved : s.active → s.reserved = false
  named : s.occupied → s.generation ≠ 0
  retired : s.active = false → s.rightsInheriting = 0
  made : ∀ m ∈ w.made, m.descriptor.slot = i → m.descriptor.generation ≤ s.generation ∧
    (m.descriptor.generation = s.generation → s.reserved = false)
  record : s.active → ∃ m ∈ w.made, m.descriptor = ⟨i, s.generation⟩ ∧
    m.how.file = s.file ∧ Within s.rightsBase m.how.rightsBase ∧
    Within s.rightsInheriting m.how.rightsInheriting
  closed : ∀ d ∈ w.closed, d.slot = i → d.generation ≤ s.generation ∧
    (d.generation = s.generation → ¬ s.occupied)

/-- **Lineage**: a descriptor was bound by the host, or made from a descriptor with a lineage, and then
it has only rights its parent was inheriting, which are rights the parent was published with. -/
inductive Lineage (made : List Made) : Made → Prop
  | bound {m : Made} : m ∈ made → m.parent = none → Lineage made m
  | derived {m q : Made} {r : Rights} : m ∈ made → m.parent = some (q.descriptor, r) →
      Within m.how.rightsBase r → Within m.how.rightsInheriting r →
      Within r q.how.rightsInheriting → Lineage made q → Lineage made m

theorem Lineage.mono {made made' : List Made} (hsub : ∀ m ∈ made, m ∈ made') {m : Made}
    (h : Lineage made m) : Lineage made' m := by
  induction h with
  | bound hm hp => exact .bound (hsub _ hm) hp
  | derived hm hp hb hi hr _ ih => exact .derived (hsub _ hm) hp hb hi hr ih

/-- What a publication has to show for a lineage. -/
def World.Derived (w : World) (m : Made) : Prop :=
  ∀ p r, m.parent = some (p, r) → Within m.how.rightsBase r ∧ Within m.how.rightsInheriting r ∧
    ∃ q ∈ w.made, q.descriptor = p ∧ Within r q.how.rightsInheriting

/-- The invariant. -/
structure FsInv (w : World) : Prop where
  slot : ∀ {i : Nat} {s : FsSlot}, w.table.slots[i]? = some s → SlotOk w i s
  fds : ∀ {i j : Nat} {s t : FsSlot}, w.table.slots[i]? = some s → w.table.slots[j]? = some t → s.occupied →
    t.occupied → s.guestFd = t.guestFd → i = j
  count : w.table.activeCount = w.table.slots.countP (·.active)
  jobs : ∀ job ∈ w.jobs, ∀ t ∈ job.tokens, w.Carries t
  made : (w.made.map (·.descriptor)).Nodup
  once : w.closed.Nodup
  derived : ∀ m ∈ w.made, Lineage w.made m

/-- What a later world may do to an earlier one: generations grow, and within one generation nothing
becomes reserved, a slot becomes active only from its reservation, and one that stays active keeps
its file and gains no right.  Publications stay. -/
structure Later (w w' : World) : Prop where
  slot : ∀ (i : Nat) (s : FsSlot), w.table.slots[i]? = some s → ∃ s' : FsSlot,
    w'.table.slots[i]? = some s' ∧ s.generation ≤ s'.generation ∧ (s'.generation = s.generation →
      (s'.reserved → s.reserved) ∧
      (s'.active → s.reserved ∨ (s.active ∧ s'.file = s.file ∧
        Within s'.rightsBase s.rightsBase ∧ Within s'.rightsInheriting s.rightsInheriting)))
  made : ∀ m ∈ w.made, m ∈ w'.made

/-- What is seen of an active slot. -/
def FsSlot.view (s : FsSlot) : Option (Nat × Nat × FsFile × Rights × Rights) :=
  if s.active then some (s.guestFd, s.generation, s.file, s.rightsBase, s.rightsInheriting) else none

/-- The same descriptors are active, with the same files and rights. -/
def Quiet (w w' : World) : Prop :=
  ∀ i : Nat, (w'.table.slots[i]?).map view = (w.table.slots[i]?).map view

theorem Later.refl (w : World) : Later w w where
  slot _ s hs := ⟨s, hs, le_rfl, fun _ => ⟨fun h => h, fun h =>
    .inr ⟨h, rfl, .refl _, .refl _⟩⟩⟩
  made _ hm := hm

theorem Later.trans {w₁ w₂ w₃ : World} (h : Later w₁ w₂) (h' : Later w₂ w₃) : Later w₁ w₃ := by
  refine ⟨fun i s hs => ?_, fun m hm => h'.made m (h.made m hm)⟩
  obtain ⟨s₂, hs₂, hle, hsame⟩ := h.slot i s hs
  obtain ⟨s₃, hs₃, hle', hsame'⟩ := h'.slot i s₂ hs₂
  refine ⟨s₃, hs₃, le_trans hle hle', fun hgen => ?_⟩
  have h₂ := hsame (by omega)
  have h₃ := hsame' (by omega)
  refine ⟨fun hr => h₂.1 (h₃.1 hr), fun ha => ?_⟩
  rcases h₃.2 ha with hr | ⟨ha₂, hf, hb, hi⟩
  · exact .inl (h₂.1 hr)
  · rcases h₂.2 ha₂ with hr | ⟨ha₁, hf', hb', hi'⟩
    · exact .inl hr
    · exact .inr ⟨ha₁, hf.trans hf', hb.trans hb', hi.trans hi'⟩

/-- What a section that does not finish an operation keeps. -/
structure Keeps (w w' : World) : Prop where
  inv : FsInv w'
  later : Later w w'
  quiet : Quiet w w'

theorem Keeps.refl (h : FsInv w) : Keeps w w := ⟨h, .refl w, fun _ => rfl⟩

theorem Keeps.trans {w₁ w₂ w₃ : World} (h : Keeps w₁ w₂) (h' : Keeps w₂ w₃) : Keeps w₁ w₃ :=
  ⟨h'.inv, h.later.trans h'.later, fun i => (h'.quiet i).trans (h.quiet i)⟩

/-! ## 3. One slot changes -/

section change

variable {w w' : World} {s s' : FsSlot}

theorem FsInv.issued (h : FsInv w) (hs : w.table.slots[i]? = some s) (ha : s.active) {k : Token} :
    w.Carries (k, ⟨i, s.generation⟩) := by
  obtain ⟨m, hm, hd, -⟩ := (h.slot hs).record ha
  exact ⟨⟨s, hs, rfl, (h.slot hs).named (.inl ha)⟩, fun _ => ⟨m, hm, hd⟩⟩

/-- Only the slot's own tokens, publications and closes matter to it. -/
theorem SlotOk.frame (h : SlotOk w i s) (hout : ∀ k, w'.outstanding k i = w.outstanding k i)
    (hmade : ∀ m ∈ w'.made, m ∈ w.made ∨ m.descriptor.slot ≠ i) (hkeep : ∀ m ∈ w.made, m ∈ w'.made)
    (hclosed : ∀ d ∈ w'.closed, d ∈ w.closed ∨ d.slot ≠ i) : SlotOk w' i s :=
  { h with
    held := fun k => (h.held k).trans (hout k).symm
    made := fun m hm hi => h.made m ((hmade m hm).resolve_right (not_not.mpr hi)) hi
    record := fun ha => by
      obtain ⟨m, hm, hrest⟩ := h.record ha
      exact ⟨m, hkeep m hm, hrest⟩
    closed := fun d hd hi => h.closed d ((hclosed d hd).resolve_right (not_not.mpr hi)) hi }

/-- The rule behind the four changes. -/
theorem FsInv.update (h : FsInv w) (hs : w.table.slots[i]? = some s)
    (hslots : w'.table.slots = w.table.slots.set i s')
    (hother : ∀ k j, j ≠ i → w'.outstanding k j = w.outstanding k j)
    (hmade : ∀ m ∈ w'.made, m ∈ w.made ∨ m.descriptor.slot = i) (hkeep : ∀ m ∈ w.made, m ∈ w'.made)
    (hclosed : ∀ d ∈ w'.closed, d ∈ w.closed ∨ d.slot = i) (hslot : SlotOk w' i s')
    (hfd : s'.occupied → (s.occupied ∧ s'.guestFd = s.guestFd) ∨
      w.table.fdOccupied s'.guestFd = false)
    (hcount : w'.table.activeCount + s.active.toNat = w.table.activeCount + s'.active.toNat)
    (hjobs : ∀ job ∈ w'.jobs, ∀ t ∈ job.tokens, w'.Carries t)
    (hnodup : (w'.made.map (·.descriptor)).Nodup) (honce : w'.closed.Nodup)
    (hderived : ∀ m ∈ w'.made, Lineage w'.made m) : FsInv w' := by
  have hget : ∀ j, w'.table.slots[j]? = if j = i then some s' else w.table.slots[j]? := by
    intro j
    rw [hslots]
    exact Lib.getElem?_set_of hs s' j
  -- a slot with the changed slot's descriptor is the changed slot
  have hclash : ∀ {j : Nat} {t : FsSlot}, j ≠ i → w.table.slots[j]? = some t → s'.occupied → t.occupied →
      s'.guestFd ≠ t.guestFd := by
    intro j t hji ht hs' hto heq
    rcases hfd hs' with ⟨hso, hsame⟩ | hfree
    · exact hji (h.fds ht hs hto hso (heq.symm.trans hsame))
    · rw [FsTable.fdOccupied, any_eq_false] at hfree
      refine hfree t (mem_of_getElem? ht) ?_
      rcases hto with hto | hto <;> simp [hto, heq]
  refine
    { slot := ?_
      fds := ?_
      count := ?_
      jobs := hjobs
      made := hnodup
      once := honce
      derived := hderived }
  · intro j t ht
    rw [hget] at ht
    split at ht
    · next hji =>
      cases ht
      exact hji ▸ hslot
    · next hji =>
      refine (h.slot ht).frame (fun k => hother k j hji) (fun m hm => ?_) hkeep fun d hd => ?_
      · exact (hmade m hm).imp_right fun heq hj => hji (hj.symm.trans heq)
      · exact (hclosed d hd).imp_right fun heq hj => hji (hj.symm.trans heq)
  · intro j k t u ht hu hto huo hfds
    rw [hget] at ht hu
    -- one of the two is the changed slot, or neither
    split at ht <;> split at hu
    · next hji hki => rw [hji, hki]
    · next hji hki =>
      cases ht
      exact absurd hfds (hclash hki hu hto huo)
    · next hji hki =>
      cases hu
      exact absurd hfds.symm (hclash hji ht huo hto)
    · exact h.fds ht hu hto huo hfds
  · have hset := Lib.countP_set_of (·.active) (b := s') hs
    have hnat : ∀ b : Bool, (if b then 1 else 0) = b.toNat := fun b => by cases b <;> rfl
    rw [hnat, hnat] at hset
    rw [hslots]
    have hold := h.count
    omega

/-- A slot that only moves tokens or rights keeps its place. -/
theorem later_set (hs : w.table.slots[i]? = some s)
    (hslots : w'.table.slots = w.table.slots.set i s') (hle : s.generation ≤ s'.generation)
    (hsame : s'.generation = s.generation → (s'.reserved → s.reserved) ∧
      (s'.active → s.reserved ∨ (s.active ∧ s'.file = s.file ∧
        Within s'.rightsBase s.rightsBase ∧ Within s'.rightsInheriting s.rightsInheriting)))
    (hmade : ∀ m ∈ w.made, m ∈ w'.made) : Later w w' := by
  refine ⟨fun j t ht => ?_, hmade⟩
  by_cases hji : j = i
  · subst hji
    cases hs.symm.trans ht
    exact ⟨s', by rw [hslots, Lib.getElem?_set_of hs, if_pos rfl], hle, hsame⟩
  · obtain ⟨t', ht', hrest⟩ := (Later.refl w).slot j t ht
    exact ⟨t', by rw [hslots, Lib.getElem?_set_of hs, if_neg hji, ht'], hrest⟩

theorem quiet_set (hs : w.table.slots[i]? = some s)
    (hslots : w'.table.slots = w.table.slots.set i s') (hview : s'.view = s.view) : Quiet w w' := by
  intro j
  rw [hslots, Lib.getElem?_set_of hs]
  by_cases hji : j = i
  · subst hji
    rw [if_pos rfl, hs, Option.map_some, Option.map_some, hview]
  · rw [if_neg hji]

/-- A slot that keeps its generation keeps the descriptors that name it. -/
theorem carries_set (hs : w.table.slots[i]? = some s)
    (hslots : w'.table.slots = w.table.slots.set i s') (hgen : s'.generation = s.generation)
    (hkeep : ∀ m ∈ w.made, m ∈ w'.made) (ht : w.Carries t) :
    w'.Carries t := by
  obtain ⟨⟨u, hu, hugen, hne⟩, hissued⟩ := ht
  refine ⟨?_, fun hk => ?_⟩
  · by_cases hti : t.2.slot = i
    · subst hti
      cases hs.symm.trans hu
      exact ⟨s', by rw [hslots, Lib.getElem?_set_of hs, if_pos rfl], hgen.trans hugen, hne⟩
    · exact ⟨u, by rw [hslots, Lib.getElem?_set_of hs, if_neg hti, hu], hugen, hne⟩
  · obtain ⟨m, hm, hd⟩ := hissued hk
    exact ⟨m, hkeep m hm, hd⟩

/-- The parts of a slot that no moved token changes. -/
structure Same (s s' : FsSlot) : Prop where
  active : s'.active = s.active
  reserved : s'.reserved → s.reserved
  guestFd : s'.occupied → s'.guestFd = s.guestFd
  generation : s'.generation = s.generation
  file : s.active → s'.file = s.file
  base : Within s'.rightsBase s.rightsBase
  inheriting : Within s'.rightsInheriting s.rightsInheriting

theorem Same.occupied (h : Same s s') : s'.occupied → s.occupied :=
  .imp (fun ha => h.active ▸ ha) h.reserved

/-- **Tokens move**: the slot and the jobs change their counts together. -/
theorem FsInv.retoken (h : FsInv w) (hs : w.table.slots[i]? = some s) (hsame : Same s s')
    (htable : w'.table = w.table.put i s') (hmade : w'.made = w.made)
    (hclosed : w'.closed = w.closed) (hheld : ∀ k, s'.held k = w'.outstanding k i)
    (hother : ∀ k j, j ≠ i → w'.outstanding k j = w.outstanding k j) (hshape : Shape s')
    (hjobs : ∀ job ∈ w'.jobs, ∀ t ∈ job.tokens, w.Carries t) : FsInv w' ∧ Later w w' := by
  have hslots : w'.table.slots = w.table.slots.set i s' := by rw [htable]; rfl
  have hok := h.slot hs
  refine ⟨h.update hs hslots hother (fun m hm => .inl (hmade ▸ hm)) (fun m hm => hmade ▸ hm)
    (fun d hd => .inl (hclosed ▸ hd)) ?_ (fun ho => .inl ⟨hsame.occupied ho, hsame.guestFd ho⟩) ?_
    (fun job hjob t ht => carries_set hs hslots hsame.generation (fun m hm => hmade ▸ hm)
      (hjobs job hjob t ht)) (hmade ▸ h.made) (hclosed ▸ h.once)
    (fun m hm => ?_), later_set hs hslots hsame.generation.ge (fun _ => ⟨hsame.reserved, fun ha =>
      ?_⟩) fun m hm => hmade ▸ hm⟩
  · refine
      { toShape := hshape
        held := hheld
        unreserved := fun ha => ?_
        named := fun ho => hsame.generation ▸ hok.named (hsame.occupied ho)
        retired := fun ha => ?_
        made := fun m hm hi => ?_
        record := fun ha => ?_
        closed := fun d hd hi => ?_ }
    · have hr := hok.unreserved (hsame.active ▸ ha)
      by_contra hne
      exact absurd (hsame.reserved (eq_true_of_not_eq_false hne)) (by simp [hr])
    · have hin := hsame.inheriting
      rw [hok.retired (hsame.active ▸ ha)] at hin
      exact hin.eq_zero
    · obtain ⟨hle, heq⟩ := hok.made m (hmade ▸ hm) hi
      rw [hsame.generation]
      refine ⟨hle, fun hg => ?_⟩
      by_contra hne
      exact absurd (hsame.reserved (eq_true_of_not_eq_false hne)) (by simp [heq hg])
    · have ha' : s.active := hsame.active ▸ ha
      obtain ⟨m, hm, hd, hfile, hb, hi⟩ := hok.record ha'
      rw [hsame.generation, hsame.file ha']
      exact ⟨m, hmade ▸ hm, hd, hfile, hsame.base.trans hb, hsame.inheriting.trans hi⟩
    · obtain ⟨hle, hocc⟩ := hok.closed d (hclosed ▸ hd) hi
      rw [hsame.generation]
      exact ⟨hle, fun hg ho => hocc hg (hsame.occupied ho)⟩
  · rw [htable, hsame.active]
    rfl
  · rw [hmade]
    exact h.derived m (hmade ▸ hm)
  · have ha' : s.active := hsame.active ▸ ha
    exact .inr ⟨ha', hsame.file ha', hsame.base, hsame.inheriting⟩

variable {j : Nat} {job job' : Job}

theorem outstanding_set (hj : w.jobs[j]? = some job) (hjobs : w'.jobs = w.jobs.set j job')
    (k : Token) (l : Nat) : w'.outstanding k l + (job.holds k l).toNat =
      w.outstanding k l + (job'.holds k l).toNat := by
  have hset := Lib.countP_set_of (holds k l) (b := job') hj
  have hnat : ∀ b : Bool, (if b then 1 else 0) = b.toNat := fun b => by cases b <;> rfl
  rw [hnat, hnat] at hset
  rw [outstanding, outstanding, hjobs, hset]

theorem mem_set_jobs {jobs : List Job} (hb : b ∈ jobs.set j job') :
    b ∈ jobs ∨ b = job' := mem_or_eq_of_mem_set hb

/-- Tokens move between one slot and one job. -/
theorem FsInv.change (h : FsInv w) (hs : w.table.slots[i]? = some s) (hj : w.jobs[j]? = some job)
    (hsame : Same s s')
    (hheld : ∀ k, s'.held k + (job.holds k i).toNat = s.held k + (job'.holds k i).toNat)
    (hoff : ∀ k l, l ≠ i → job'.holds k l = job.holds k l) (hshape : Shape s')
    (hnew : ∀ t ∈ job'.tokens, w.Carries t) :
    FsInv (w.change i s' j job') ∧ Later w (w.change i s' j job') := by
  have hset := outstanding_set hj (show (w.change i s' j job').jobs = _ from rfl)
  refine h.retoken hs hsame rfl rfl rfl (fun k => ?_) (fun k l hl => ?_) hshape fun b hb t ht => ?_
  · have hk := hset k i
    have hk' := hheld k
    have hold := (h.slot hs).held k
    omega
  · have hk := hset k l
    rw [hoff k l hl] at hk
    omega
  · rcases mem_set_jobs hb with hb | rfl
    · exact h.jobs b hb t ht
    · exact hnew t ht

/-- A job's token is counted in its slot, which has the token's generation. -/
theorem FsInv.token (h : FsInv w) (hj : w.jobs[j]? = some job) {k : Token} {d : FsDescriptor}
    (ht : (k, d) ∈ job.tokens) (hs : w.table.slots[d.slot]? = some s) :
    s.held k ≠ 0 ∧ s.generation = d.generation := by
  have hmem := mem_of_getElem? hj
  refine ⟨?_, ?_⟩
  · rw [(h.slot hs).held k]
    refine (countP_pos_iff.mpr ⟨job, hmem, ?_⟩).ne'
    exact any_eq_true.mpr ⟨(k, d), ht, by simp⟩
  · obtain ⟨u, hu, hgen, -⟩ := (h.jobs job hmem _ ht).1
    cases hs.symm.trans hu
    exact hgen

/-- A flag that counts a token is set. -/
theorem toNat_ne_zero {b : Bool} (h : b.toNat ≠ 0) : b := by
  cases b
  · exact absurd rfl h
  · rfl

theorem FsInv.token_active (h : FsInv w) (hj : w.jobs[j]? = some job) {d : FsDescriptor}
    (ht : (.pin, d) ∈ job.tokens) (hs : w.table.slots[d.slot]? = some s) :
    s.pins ≠ 0 ∧ s.active ∧ s.closing = false ∧ s.reserved = false := by
  have hpins : s.pins ≠ 0 := (h.token hj ht hs).1
  have hok := h.slot hs
  have ha := hok.pinned hpins
  refine ⟨hpins, ha, ?_, hok.unreserved ha⟩
  by_contra hc
  exact hpins (hok.closing (eq_true_of_not_eq_false hc)).2

/-! A caller that marks metadata has a pin, and one that claims has a lease. -/

theorem Job.holds_pin_of_metadata : job.holds .metadata i → job.holds .pin i := by
  rcases job with _ | _ | _ | _ | _ | _ | _ | _ | ⟨_, _ | _⟩ <;> simp [holds, tokens]

theorem Job.holds_lease_of_claim :
    job.holds (.claim direction) i → job.holds .lease i := by
  rcases job with _ | _ | _ | _ | _ | _ | _ | _ | ⟨_, _ | _⟩ <;> simp [holds, tokens]

theorem FsInv.unclaimed (h : FsInv w) (hs : w.table.slots[i]? = some s) (hl : s.leases = 0)
    (direction : Nat) : w.outstanding (.claim direction) i = 0 := by
  have hle : w.outstanding (.claim direction) i ≤ w.outstanding .lease i :=
    countP_mono_left fun _ _ => holds_lease_of_claim
  have hlease := (h.slot hs).held .lease
  simp only [held] at hlease
  omega

theorem FsInv.unmarked (h : FsInv w) (hs : w.table.slots[i]? = some s) (hp : s.pins = 0) :
    w.outstanding .metadata i = 0 := by
  have hle : w.outstanding .metadata i ≤ w.outstanding .pin i :=
    countP_mono_left fun _ _ => holds_pin_of_metadata
  have hpin := (h.slot hs).held .pin
  simp only [held] at hpin
  omega

/-- Nobody holds anything on a slot that can be reserved. -/
theorem FsInv.free (h : FsInv w) (hs : w.table.slots[i]? = some s)
    (hr : FsTable.reservable s) (k : Token) : w.outstanding k i = 0 := by
  simp only [FsTable.reservable, and_eq_true, not_eq_true', beq_iff_eq] at hr
  obtain ⟨⟨⟨⟨ha, hres⟩, hl⟩, hp⟩, -⟩ := hr
  have hok := h.slot hs
  cases k with
  | pin => exact (hok.held .pin).symm.trans hp
  | lease => exact (hok.held .lease).symm.trans hl
  | reservation =>
    have hheld := hok.held .reservation
    rw [held, hres] at hheld
    exact hheld.symm
  | closing =>
    have hheld := hok.held .closing
    cases hc : s.closing with
    | false =>
      rw [held, hc] at hheld
      exact hheld.symm
    | true => exact absurd (hok.closing hc).1 (by simp [ha])
  | metadata => exact h.unmarked hs hp
  | claim direction => exact h.unclaimed hs hl direction

/-! ### Reservations, publications and closes -/

variable {d : FsDescriptor}

section

variable (htok : job'.tokens = job.tokens ++ [(.reservation, d)])

include htok

/-- A reservation adds one token, and no job carries two. -/
theorem holds_append (k : Token) (l : Nat) : (job'.holds k l).toNat =
      (job.holds k l).toNat + (decide (Token.reservation = k ∧ d.slot = l)).toNat := by
  have hor : job'.holds k l = (job.holds k l || decide (.reservation = k ∧ d.slot = l)) := by
    simp [holds, htok]
  rw [hor]
  by_cases hk : .reservation = k
  · subst hk
    have hlast : job.tokens = job'.tokens.dropLast := by rw [htok, dropLast_concat]
    have hnone : job.holds .reservation l = false := by
      rw [holds, hlast]
      rcases job' with _ | _ | _ | _ | _ | _ | _ | _ | ⟨_, _ | _⟩ <;> simp [tokens]
    simp [hnone]
  · simp [hk]

/-- Off the slot nothing changes. -/
theorem holds_append_off (k : Token) (hl : l ≠ d.slot) : job'.holds k l = job.holds k l := by
  simp [holds, htok, hl.symm]

/-- On the slot a reservation is gained. -/
theorem holds_append_on (k : Token) : (job'.holds k d.slot).toNat =
      (job.holds k d.slot).toNat + (decide (Token.reservation = k)).toNat := by
  rw [holds_append htok]
  simp

end

/-- The slot that `tw_reserve_locked` takes. -/
def reservedSlot (s : FsSlot) (n : Nat) : FsSlot :=
  { s with
    reserved := true
    guestFd := n
    generation := s.generation + 1 }

/-- **A free slot is reserved** under a fresh generation. -/
theorem FsInv.reserve (h : FsInv w) (hs : w.table.slots[i]? = some s)
    (hr : FsTable.reservable s) {n : Nat} (hfree : w.table.fdOccupied n = false)
    (hj : w.jobs[j]? = some job)
    (htok : job'.tokens = job.tokens ++ [(.reservation, ⟨i, s.generation + 1⟩)]) :
    Keeps w (w.change i (reservedSlot s n) j job') := by
  have hnone := h.free hs hr
  simp only [FsTable.reservable, and_eq_true, not_eq_true', beq_iff_eq] at hr
  obtain ⟨⟨⟨⟨ha, hres⟩, hl⟩, hp⟩, -⟩ := hr
  have hok := h.slot hs
  set w' := w.change i (reservedSlot s n) j job' with hw'
  have hslots : w'.table.slots = w.table.slots.set i (reservedSlot s n) := rfl
  have hset := outstanding_set hj (show w'.jobs = _ from rfl)
  -- no job refers to the slot, so none loses its descriptor
  have hunused : ∀ b ∈ w.jobs, ∀ t ∈ b.tokens, t.2.slot ≠ i := by
    intro b hb t ht heq
    have hzero := countP_eq_zero.mp (hnone t.1) b hb
    exact hzero (any_eq_true.mpr ⟨t, ht, by simp [heq]⟩)
  have hcarry : ∀ b ∈ w.jobs, ∀ t ∈ b.tokens, w'.Carries t := by
    intro b hb t ht
    obtain ⟨⟨u, hu, hrest⟩, hissued⟩ := h.jobs b hb t ht
    refine ⟨⟨u, ?_, hrest⟩, hissued⟩
    rw [hslots, Lib.getElem?_set_of hs, if_neg (hunused b hb t ht), hu]
  refine ⟨h.update hs hslots (fun k l hl' => ?_) (fun m hm => .inl hm) (fun m hm => hm)
    (fun d hd => .inl hd) ?_ (fun _ => .inr hfree) rfl (fun b hb t ht => ?_) h.made h.once h.derived,
    later_set hs hslots (Nat.le_succ _) (fun hgen => absurd hgen (Nat.succ_ne_self _))
      (fun _ hm => hm),
    quiet_set hs hslots (by simp [view, reservedSlot, ha])⟩
  · have hk := hset k l
    rw [holds_append_off htok k hl'] at hk
    omega
  · refine
      { held := fun k => ?_
        unreserved := fun h' => absurd h' (by simp [reservedSlot, ha])
        closing := fun hc => absurd (hok.closing hc).1 (by simp [ha])
        pinned := fun h' => absurd hp h'
        fresh := fun _ => ⟨hp, hl⟩
        named := fun _ => Nat.succ_ne_zero _
        retired := fun _ => hok.retired ha
        made := fun m hm hi => ?_
        record := fun h' => absurd h' (by simp [reservedSlot, ha])
        closed := fun d hd hi => ?_ }
    · have hgain : (reservedSlot s n).held k = s.held k +
          (decide (.reservation = k)).toNat := by
        cases k
        case reservation => simp [held, reservedSlot, hres]
        all_goals rfl
      have hk := hset k i
      have hold := hok.held k
      have hon := holds_append_on htok k
      dsimp only at hon
      omega
    · have hle := (hok.made m hm hi).1
      exact ⟨Nat.le_succ_of_le hle, fun heq => absurd heq (by simp [reservedSlot]; omega)⟩
    · have hle := (hok.closed d hd hi).1
      exact ⟨Nat.le_succ_of_le hle, fun heq => absurd heq (by simp [reservedSlot]; omega)⟩
  · rcases mem_set_jobs hb with hb | rfl
    · exact hcarry b hb t ht
    · rw [htok, mem_append, mem_singleton] at ht
      rcases ht with ht | rfl
      · exact hcarry job (mem_of_getElem? hj) t ht
      · refine ⟨⟨reservedSlot s n, ?_, rfl, Nat.succ_ne_zero _⟩, absurd rfl⟩
        rw [hslots, Lib.getElem?_set_of hs, if_pos rfl]

/-- The slot that `tw_publish_locked` leaves. -/
def publishedSlot (s : FsSlot) (p : Publication) : FsSlot :=
  { s with
    file := p.file
    ops := p.ops
    type := p.type
    flags := p.flags
    rightsBase := p.rightsBase
    rightsInheriting := p.rightsInheriting
    preopen := p.preopen
    claims := 0
    metadataBusy := false
    closing := false
    reserved := false
    active := true }

/-- **A reserved slot is published**: its descriptor was never published before. -/
theorem FsInv.publish (h : FsInv w) (hs : w.table.slots[i]? = some s) (hj : w.jobs[j]? = some job)
    (htok : job.tokens = job'.tokens ++ [(.reservation, ⟨i, s.generation⟩)])
    (hderived : w.Derived ⟨⟨i, s.generation⟩, p, parent⟩) :
    FsInv (w.publish i s p parent j job') ∧ Later w (w.publish i s p parent j job') := by
  have hok := h.slot hs
  have htoken : (.reservation, ⟨i, s.generation⟩) ∈ job.tokens := by rw [htok]; simp
  have hres : s.reserved := toNat_ne_zero (h.token hj htoken hs).1
  obtain ⟨hp, hl⟩ := hok.fresh hres
  have ha : s.active = false := by
    by_contra hne
    simp [hok.unreserved (eq_true_of_not_eq_false hne)] at hres
  have hclosing : s.closing = false := by
    by_contra hne
    simp [(hok.closing (eq_true_of_not_eq_false hne)).1] at ha
  set w' := w.publish i s p parent j job' with hw'
  have hslots : w'.table.slots = w.table.slots.set i (publishedSlot s p) := rfl
  have hset := outstanding_set hj (show w'.jobs = _ from rfl)
  have hnew : ∀ m ∈ w'.made, m ∈ w.made ∨ m = ⟨⟨i, s.generation⟩, p, parent⟩ := by
    intro m hm
    rcases mem_append.mp hm with hm | hm
    · exact .inl hm
    · exact .inr (mem_singleton.mp hm)
  have hkeep : ∀ m ∈ w.made, m ∈ w'.made := fun m hm => mem_append_left _ hm
  refine ⟨h.update hs hslots (fun k l hl' => ?_) (fun m hm => ?_) hkeep (fun e he => .inl he) ?_
    (fun _ => .inl ⟨.inr hres, rfl⟩) ?_ (fun b hb t ht => carries_set hs hslots rfl hkeep ?_) ?_ h.once
    (fun m hm => ?_),
    later_set hs hslots (le_rfl) (fun _ =>
      ⟨fun hr => absurd hr false_ne_true, fun _ => .inl hres⟩) hkeep⟩
  · have hk := hset k l
    rw [holds_append_off htok k hl'] at hk
    omega
  · exact (hnew m hm).imp_right fun heq => by rw [heq]
  · refine
      { held := fun k => ?_
        unreserved := fun _ => rfl
        closing := fun hc => absurd hc false_ne_true
        pinned := fun h' => absurd hp h'
        fresh := fun hr => absurd hr false_ne_true
        named := fun _ => hok.named (.inr hres)
        retired := fun h' => absurd h'.symm false_ne_true
        made := fun m hm hi => ?_
        record := fun _ => ⟨_, mem_append_right _ (mem_singleton.mpr rfl), rfl, rfl,
          .refl _, .refl _⟩
        closed := fun e he hi => ?_ }
    · have hlose : (publishedSlot s p).held k + (decide (.reservation = k)).toNat =
          s.held k := by
        -- the fields that publication clears were clear: nobody holds a pin or a lease
        cases k with
        | pin | lease => rfl
        | reservation => simp [held, publishedSlot, hres]
        | closing => simp [held, publishedSlot, hclosing]
        | metadata => rw [hok.held, h.unmarked hs hp]; rfl
        | claim direction =>
          rw [hok.held, h.unclaimed hs hl direction]
          simp [held, publishedSlot]
      have hk := hset k i
      have hold := hok.held k
      have hon := holds_append_on htok k
      dsimp only at hon
      omega
    · refine ⟨?_, fun _ => rfl⟩
      rcases hnew m hm with hm | rfl
      · exact (hok.made m hm hi).1
      · exact le_rfl
    · obtain ⟨hle, hocc⟩ := hok.closed e he hi
      exact ⟨hle, fun heq => absurd (.inr hres) (hocc heq)⟩
  · show w.table.activeCount + 1 + s.active.toNat = w.table.activeCount + 1
    simp [ha]
  · rcases mem_set_jobs hb with hb | rfl
    · exact h.jobs b hb t ht
    · exact h.jobs job (mem_of_getElem? hj) t (by rw [htok]; exact mem_append_left _ ht)
  · show ((w.made ++ [_]).map _).Nodup
    rw [map_append, map_singleton, nodup_append]
    refine ⟨h.made, nodup_singleton _, ?_⟩
    intro e he e' he' heq
    obtain ⟨m, hm, rfl⟩ := mem_map.mp he
    rw [mem_singleton] at he'
    have hm' : m.descriptor = ⟨i, s.generation⟩ := heq.trans he'
    have hnot := (hok.made m hm (by rw [hm'])).2 (by rw [hm'])
    simp [hres] at hnot
  · rcases hnew m hm with hm' | rfl
    · exact (h.derived m hm').mono hkeep
    · cases parent with
      | none => exact .bound hm rfl
      | some pr =>
        obtain ⟨hb, hin, q, hq, hd, hr⟩ := hderived pr.1 pr.2 rfl
        exact .derived hm (by rw [hd]) hb hin hr ((h.derived q hq).mono hkeep)

/-- **A slot under close is closed**: its descriptor was not closed before. -/
theorem FsInv.closed (h : FsInv w) (hs : w.table.slots[d.slot]? = some s)
    (hj : w.jobs[j]? = some (.closing d))
    (htable : w'.table = ⟨w.table.slots.set d.slot (closedSlot s), w.table.activeCount - 1⟩)
    (hjobs : w'.jobs = w.jobs.set j .idle) (hmade : w'.made = w.made)
    (hclosed : w'.closed = w.closed ++ [d]) : FsInv w' ∧ Later w w' := by
  have hok := h.slot hs
  obtain ⟨hheld, hgen⟩ := h.token hj (k := .closing) (d := d) (by simp [tokens]) hs
  have hc : s.closing := toNat_ne_zero hheld
  obtain ⟨ha, hp⟩ := hok.closing hc
  have hres := hok.unreserved ha
  have hslots : w'.table.slots = w.table.slots.set d.slot (closedSlot s) := by rw [htable]
  have hset := outstanding_set hj hjobs
  have hidle : ¬ (closedSlot s).occupied := by simp [occupied, closedSlot, hres]
  have hkeep : ∀ m ∈ w.made, m ∈ w'.made := fun m hm => hmade ▸ hm
  have hnew : ∀ e ∈ w'.closed, e ∈ w.closed ∨ e = d := by
    intro e he
    rwa [hclosed, mem_append, mem_singleton] at he
  refine ⟨h.update hs hslots (fun k l hl => ?_) (fun m hm => .inl (hmade ▸ hm))
    (fun m hm => hmade ▸ hm) (fun e he => (hnew e he).imp_right fun heq => by rw [heq]) ?_
    (fun ho => absurd ho hidle) ?_ (fun b hb t ht => carries_set hs hslots rfl hkeep ?_)
    (hmade ▸ h.made) ?_ (fun m hm => ?_),
    later_set hs hslots (le_rfl) (fun _ => ⟨fun hr => absurd hr (by simp [closedSlot,
      hres]), fun h' => absurd h' false_ne_true⟩) fun m hm => hmade ▸ hm⟩
  · have hk := hset k l
    have hoff : holds k l (.closing d) = false := by simp [holds, tokens, hl.symm]
    rw [hoff] at hk
    simpa [holds, tokens] using hk
  · refine
      { held := fun k => ?_
        unreserved := fun _ => hres
        closing := fun h' => absurd h' false_ne_true
        pinned := fun h' => absurd hp h'
        fresh := fun h' => absurd h' (by simp [closedSlot, hres])
        named := fun ho => absurd ho hidle
        retired := fun _ => rfl
        made := fun m hm hi => ⟨(hok.made m (hmade ▸ hm) hi).1, fun _ => hres⟩
        record := fun h' => absurd h' false_ne_true
        closed := fun e he hi => ⟨?_, fun _ => hidle⟩ }
    · have hk := hset k d.slot
      have hold := hok.held k
      have hlose : (closedSlot s).held k + (holds k d.slot (.closing d)).toNat =
          s.held k := by
        cases k
        case closing => simp [held, closedSlot, holds, tokens, hc]
        all_goals simp [held, closedSlot, holds, tokens]
      have hzero : holds k d.slot .idle = false := rfl
      rw [hzero, toNat_false] at hk
      omega
    · rcases hnew e he with he | rfl
      · exact (hok.closed e he hi).1
      · exact hgen.ge
  · have hpos : 0 < w.table.slots.countP (·.active) :=
      countP_pos_iff.mpr ⟨s, mem_of_getElem? hs, ha⟩
    have hcount := h.count
    rw [htable]
    simp only [closedSlot, ha, toNat_true, toNat_false]
    omega
  · rw [hjobs] at hb
    rcases mem_set_jobs hb with hb | rfl
    · exact h.jobs b hb t ht
    · simp [tokens] at ht
  · rw [hclosed, nodup_append]
    refine ⟨h.once, nodup_singleton _, fun e he e' he' heq => ?_⟩
    rw [mem_singleton] at he'
    subst heq he'
    exact (hok.closed e he rfl).2 hgen.symm (.inl ha)
  · rw [hmade]
    exact h.derived m (hmade ▸ hm)

end change

end TurboWasm.Wasi
