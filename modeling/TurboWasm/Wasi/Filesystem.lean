/-
# WASI 0.2 filesystem calls over the descriptor table

`wasi02_filesystem.c` hands the guest resources that name descriptors of `wasi_fs.c` and turns the
methods of `wasi:filesystem` into operations of the table.  Most methods go through the table's own
checks of rights.  The stream factories do not: they take the file out of the resolved descriptor
and call the stream provider with it.  Neither do the flags of `open-at` that create and truncate:
the adapter asks for any one of the three rights to change a directory.

* §1 is the adapter; every call of a provider is recorded with the descriptor it was made through.
* §2 says when a recorded call is covered by rights along the whole line of descriptors up to the
  one the host bound, and shows it for every method where streams are asked of, and files created
  and truncated through, descriptors that have the right to it.
* §3 is the runs: confinement holds along them (`filesystem_confined`), and fails where a file opened
  for reading is asked for an output stream, or a directory in which files may only be unlinked is
  asked to create and truncate one (`filesystem_not_confined`).

Calls come one after the other.  The values a call returns to the guest besides its resource, the
errors' numbers and the paths are left out.
-/
import TurboWasm.Wasi.Fs.Run

namespace TurboWasm.Wasi

open Relation Option

/-! ## 1. The adapter -/

def fdReadRight : Rights := rightBit 1
def fdWriteRight : Rights := rightBit 6
def fdReaddirRight : Rights := rightBit 14
def pathFilestatGetRight : Rights := rightBit 18
def fdFilestatGetRight : Rights := rightBit 21

inductive Mutation where
  | createDirectory
  | removeDirectory
  | unlinkFile

def Mutation.right : Mutation → Rights
  | .createDirectory => rightBit 9
  | .removeDirectory => rightBit 25
  | .unlinkFile => rightBit 26

/-- The three rights to change a directory. -/
def mutationRights : Rights :=
  Mutation.createDirectory.right ||| Mutation.removeDirectory.right ||| Mutation.unlinkFile.right

inductive StreamKind where
  | read
  | write
  | append

/-- The right that goes with a stream. -/
def StreamKind.right : StreamKind → Rights
  | .read => fdReadRight
  | .write | .append => fdWriteRight

/-- `TW_WASI02_FS_OPEN_CREATE`. -/
def openCreate : BitVec 32 := 1

/-- `TW_WASI02_FS_OPEN_TRUNCATE`. -/
def openTruncate : BitVec 32 := 8

/-- What a provider is asked; to open a file it gets the flags and the rights of the new file. -/
inductive ProviderOp where
  | stat
  | pathStat
  | openAt (flags : BitVec 32) (rights inheriting : Rights)
  | mutate (m : Mutation)
  | stream (kind : StreamKind)

/-- One call of a provider and the descriptor it was made through. -/
structure Event where
  op : ProviderOp
  through : FsDescriptor

/-- What a resource names: a preopen of the host, or a descriptor the guest opened and owns. -/
inductive P2Rep where
  | preopen (d : FsDescriptor)
  | child (d : FsDescriptor)

def P2Rep.descriptor : P2Rep → FsDescriptor
  | .preopen d | .child d => d

/-- `turbowasm_wasi02_filesystem`: whether a stream table is attached, and which factories its
provider has.  The events are read by nobody. -/
structure Filesystem where
  world : World
  streams : Bool
  streamProvider : StreamKind → Bool
  resources : List (Nat × P2Rep)
  events : List Event

inductive P2Result where
  | ok
  | resource (handle : Nat)
  | error (e : FsError)
  | readOnly
  | unsupported
  | trapped
  | outOfMemory

/-- `p2_open_rights`: the descriptor flags read, write and mutate-directory, the open flag
directory. -/
def p2OpenRights (descriptorFlags openFlags : BitVec 32) : Rights :=
  fdFilestatGetRight ||| pathFilestatGetRight ||| pathOpenRight |||
    (if descriptorFlags &&& 1 ≠ 0 then fdReadRight else 0) |||
    (if descriptorFlags &&& 2 ≠ 0 then fdWriteRight else 0) |||
    (if openFlags &&& 2 ≠ 0 then fdReaddirRight else 0) |||
    (if descriptorFlags &&& 32 ≠ 0 then mutationRights else 0)

/-- Sections of one call, until one of them answers. -/
def World.call (w : World) : List Section → Option (Reply × World)
  | [] => some (.running, w)
  | a :: rest => (w.perform a).bind fun p =>
    match p.1 with
    | .running => p.2.call rest
    | r => some (r, p.2)

def P2Result.ofReply : Reply → P2Result
  | .failed e => .error e
  | _ => .ok

namespace Filesystem

variable (f : Filesystem) (handle : Nat)

/-- `turbowasm_wasi02_filesystem_descriptor_resolve`. -/
def resolve : Option (FsDescriptor × FsSlot) :=
  (f.resources.lookup handle).bind fun rep =>
    (f.world.table.identity rep.descriptor).bind fun p =>
      if p.2.active then some (rep.descriptor, p.2) else none

def record (op : ProviderOp) (d : FsDescriptor) : List Event := f.events ++ [⟨op, d⟩]

/-- A table operation that pins the guest descriptor for one provider call. -/
def pinned (d : FsDescriptor) (s : FsSlot) (right : Rights) (op : ProviderOp)
    (answer : Option Errno) : Option (P2Result × Filesystem) :=
  match f.world.pin 0 (.fd s.guestFd) right with
  | some (.running, w) => (w.unpin 0 answer).map fun p =>
    (P2Result.ofReply p.1, { f with
      world := p.2
      events := f.record op d })
  | some (r, w) => some (P2Result.ofReply r, { f with world := w })
  | none => none

/-- `filesystem_call_stat`. -/
def callStat (atPath : Bool) (answer : Option Errno) : Option (P2Result × Filesystem) :=
  match f.resolve handle with
  | none => some (.error (.errno .badf), f)
  | some (d, s) =>
    if atPath then f.pinned d s pathFilestatGetRight .pathStat answer
    else f.pinned d s fdFilestatGetRight .stat answer

/-- `filesystem_call_path_mutation`. -/
def callPathMutation (m : Mutation) (answer : Option Errno) : Option (P2Result × Filesystem) :=
  match f.resolve handle with
  | none => some (.error (.errno .badf), f)
  | some (d, s) => f.pinned d s m.right (.mutate m) answer

/-- `filesystem_call_stream_factory`: the stream provider gets the file, and the new stream gets a
handle or is dropped again. -/
def callStreamFactory (kind : StreamKind) (answer : Except Errno (Option Nat)) :
    Option (P2Result × Filesystem) :=
  if !f.streams then some (.unsupported, f)
  else
    match f.resolve handle with
    | none => some (.error (.errno .badf), f)
    | some (d, _) =>
      if !f.streamProvider kind then some (.unsupported, f)
      else
        let f' := { f with events := f.record (.stream kind) d }
        match answer with
        | .error e => some (.error (.errno e), f')
        | .ok none => some (.outOfMemory, f')
        | .ok (some stream) => some (.resource stream, f')

/-- `open-at` after the checks of the adapter: `path_open`, and the child becomes a resource or is
closed again. -/
def openChild (d : FsDescriptor) (s : FsSlot) (flags : BitVec 32) (rights inheriting : Rights)
    (answer : Except Errno FsFile) (handle : Option Nat) : Option (P2Result × Filesystem) :=
  match f.world.call [.pathOpen 0 s.guestFd rights inheriting 0, .pathOpenReserve 0] with
  | some (.running, w) =>
    match (w.jobs[0]? : Option Job) with
    | some (.opened _ child _ _ _) =>
      (w.pathOpenFinish 0 answer).bind fun p =>
        let f' := { f with
          world := p.2
          events := f.record (.openAt flags rights inheriting) d }
        match p.1, handle with
        | .done, some h =>
          if (f.resources.lookup h).isSome then none
          else some (.resource h, { f' with resources := f.resources ++ [(h, .child child)] })
        | .done, none => (p.2.call [.close 0 (.identity child), .closeFinish 0 none]).map fun q =>
          (.outOfMemory, { f' with world := q.2 })
        | r, _ => some (P2Result.ofReply r, f')
    | _ => (w.unpin 0 none).map fun p => (P2Result.ofReply p.1, { f with world := p.2 })
  | some (r, w) => some (P2Result.ofReply r, { f with world := w })
  | none => none

/-- `filesystem_call_open_at`: the synchronising flags are not supported, and a read-only base
opens nothing for writing, mutating, creating or truncating. -/
def callOpenAt (openFlags descriptorFlags : BitVec 32) (answer : Except Errno FsFile)
    (child : Option Nat) : Option (P2Result × Filesystem) :=
  match f.resolve handle with
  | none => some (.error (.errno .badf), f)
  | some (d, s) =>
    if descriptorFlags &&& 28 ≠ 0 then some (.error (.errno .nosys), f)
    else if (descriptorFlags &&& 34 ≠ 0 ∨ openFlags &&& 9 ≠ 0) ∧
        s.rightsBase &&& mutationRights = 0 then some (.readOnly, f)
    else
      let inheriting :=
        if descriptorFlags &&& 32 = 0 then
          s.rightsInheriting &&& ~~~(fdWriteRight ||| mutationRights)
        else s.rightsInheriting
      f.openChild d s (openFlags &&& 15) (p2OpenRights descriptorFlags openFlags) inheriting
        answer child

/-- The descriptors of the active preopens. -/
def preopens : List FsDescriptor :=
  (f.world.table.slots.zipIdx.filter fun p => p.1.active && p.1.preopen).map fun p =>
    ⟨p.2, p.1.generation⟩

/-- `turbowasm_wasi02_filesystem_get_directories`: a resource for every preopen, or none. -/
def getDirectories (handles : List Nat) : P2Result × Filesystem :=
  if handles.length = f.preopens.length ∧ handles.Nodup ∧
      handles.all fun h => (f.resources.lookup h).isNone then
    (.ok, { f with resources := f.resources ++ handles.zip (f.preopens.map .preopen) })
  else (.outOfMemory, f)

/-- `turbowasm_wasi02_filesystem_descriptor_drop`: a child's descriptor is closed first, and one
that does not close stays. -/
def descriptorDrop (answer : Option Errno) : Option (P2Result × Filesystem) :=
  let rest := f.resources.filter (·.1 ≠ handle)
  match f.resources.lookup handle with
  | none => some (.trapped, f)
  | some (.preopen _) => some (.ok, { f with resources := rest })
  | some (.child d) =>
    (f.world.call [.close 0 (.identity d), .closeFinish 0 answer]).map fun p =>
      match p.1 with
      | .done => (.ok, { f with
        world := p.2
        resources := rest })
      | _ => (.trapped, { f with world := p.2 })

end Filesystem

variable {made : List Made} {right : Rights} {m : Made}
/-- A call of the guest, with what the providers answer and which handle a new resource gets. -/
inductive P2Call where
  | getDirectories (handles : List Nat)
  | stat (handle : Nat) (atPath : Bool) (answer : Option Errno)
  | openAt (handle : Nat) (openFlags descriptorFlags : BitVec 32) (answer : Except Errno FsFile)
      (child : Option Nat)
  | mutate (handle : Nat) (m : Mutation) (answer : Option Errno)
  | stream (handle : Nat) (kind : StreamKind) (answer : Except Errno (Option Nat))
  | drop (handle : Nat) (answer : Option Errno)

/-- `turbowasm_wasi02_filesystem_call`. -/
def Filesystem.call (f : Filesystem) : P2Call → Option (P2Result × Filesystem)
  | .getDirectories handles => some (f.getDirectories handles)
  | .stat handle atPath answer => f.callStat handle atPath answer
  | .openAt handle openFlags descriptorFlags answer child =>
    f.callOpenAt handle openFlags descriptorFlags answer child
  | .mutate handle m answer => f.callPathMutation handle m answer
  | .stream handle kind answer => f.callStreamFactory handle kind answer
  | .drop handle answer => f.descriptorDrop handle answer

def Filesystem.act (f : Filesystem) (c : P2Call) : Option Filesystem := (f.call c).map (·.2)

/-- The adapter over a table in which the host has bound some descriptors. -/
def Filesystem.start (capacity : Nat) (binds : List BindArgs) (streams : Bool)
    (provider : StreamKind → Bool) : Option Filesystem :=
  (FsTable.init capacity).bind fun t =>
    ((Section.enter :: binds.map (.bind 0)).foldlM World.act (World.init t)).map
      (⟨·, streams, provider, [], []⟩)

/-! ## 2. Which provider calls are covered -/

/-- Every descriptor from this one up to the one the host bound inherits the right. -/
inductive Granted (made : List Made) (right : Rights) : Made → Prop
  | bound {m : Made} : m ∈ made → m.parent = none → Within right m.how.rightsInheriting →
      Granted made right m
  | derived {m q : Made} {r : Rights} : m ∈ made → m.parent = some (q.descriptor, r) →
      Within right m.how.rightsInheriting → Granted made right q → Granted made right m

/-- The descriptor has the right, and its ancestors grant it. -/
def Holds (made : List Made) (right : Rights) (m : Made) : Prop :=
  Within right m.how.rightsBase ∧
    ∀ p r, m.parent = some (p, r) → ∃ q, q.descriptor = p ∧ Granted made right q

/-- What has to hold of the descriptor a file is opened through: it has the right to open, and it and
its ancestors grant the rights of the file.  An entry is created with the right to create entries,
and a file truncated where files may be written; both where the directory may be changed. -/
structure OpenNeeds (made : List Made) (m : Made) (flags : BitVec 32) (rights inheriting : Rights) :
    Prop where
  opens : Holds made pathOpenRight m
  granted : ∀ right, Within right rights ∨ Within right inheriting → Granted made right m
  create : flags &&& openCreate ≠ 0 → Holds made Mutation.createDirectory.right m
  truncate : flags &&& openTruncate ≠ 0 → Granted made fdWriteRight m
  mutable : flags &&& (openCreate ||| openTruncate) ≠ 0 →
    ∃ mutation : Mutation, Holds made mutation.right m

/-- What has to hold of the descriptor a provider was called through. -/
def ProviderOp.Needs (made : List Made) (m : Made) : ProviderOp → Prop
  | .stat => Holds made fdFilestatGetRight m
  | .pathStat => Holds made pathFilestatGetRight m
  | .openAt flags rights inheriting => OpenNeeds made m flags rights inheriting
  | .mutate mutation => Holds made mutation.right m
  | .stream kind => Holds made kind.right m

/-- The call was covered by the rights of the descriptor it was made through. -/
def Event.Covered (made : List Made) (e : Event) : Prop :=
  ∃ m ∈ made, m.descriptor = e.through ∧ e.op.Needs made m

theorem Granted.inherits (h : Granted made right m) : Within right m.how.rightsInheriting := by
  cases h <;> assumption

theorem Granted.mono (hsub : ∀ m ∈ made, m ∈ made')
    (h : Granted made right m) : Granted made' right m := by
  induction h with
  | bound hm hp hr => exact .bound (hsub _ hm) hp hr
  | derived hm hp hr _ ih => exact .derived (hsub _ hm) hp hr ih

theorem Holds.mono (hsub : ∀ m ∈ made, m ∈ made')
    (h : Holds made right m) : Holds made' right m := by
  refine ⟨h.1, fun p r hp => ?_⟩
  obtain ⟨q, hq, hg⟩ := h.2 p r hp
  exact ⟨q, hq, hg.mono hsub⟩

theorem Event.Covered.mono (hsub : ∀ m ∈ made, m ∈ made') {e : Event}
    (h : e.Covered made) : e.Covered made' := by
  obtain ⟨m, hm, hd, hneeds⟩ := h
  refine ⟨m, hsub m hm, hd, ?_⟩
  cases hop : e.op with
  | openAt flags rights inheriting =>
    rw [hop] at hneeds
    refine ⟨hneeds.opens.mono hsub, fun right hr => (hneeds.granted right hr).mono hsub,
      fun hc => (hneeds.create hc).mono hsub, fun ht => (hneeds.truncate ht).mono hsub,
      fun hm => ?_⟩
    obtain ⟨mutation, hm⟩ := hneeds.mutable hm
    exact ⟨mutation, hm.mono hsub⟩
  | stat | pathStat | mutate | stream =>
    rw [hop] at hneeds
    exact .mono hsub hneeds

/-- **Rights are granted down the whole line**, because no descriptor was made with more than its
parent inherits. -/
theorem Lineage.granted (h : Lineage made m)
    (hr : Within right m.how.rightsInheriting) : Granted made right m := by
  induction h with
  | bound hm hp => exact .bound hm hp hr
  | derived hm hp _ hi hq _ ih => exact .derived hm hp hr (ih ((hr.trans hi).trans hq))

theorem Lineage.holds (h : Lineage made m)
    (hr : Within right m.how.rightsBase) : Holds made right m := by
  refine ⟨hr, fun p r hp => ?_⟩
  cases h with
  | bound hm hnone => rw [hnone] at hp; cases hp
  | derived hm hsome hb hi hq hline =>
    rw [hsome] at hp
    cases hp
    exact ⟨_, rfl, hline.granted ((hr.trans hb).trans hq)⟩

theorem within_of_and_eq (h : a &&& b = b) : Within b a := by
  rw [← h]
  exact within_and_left a b

theorem getLsbD_rightBit (h : (rightBit n).getLsbD i) : i = n := by
  rw [rightBit, BitVec.getLsbD_shiftLeft] at h
  simp only [Bool.and_eq_true, Bool.not_eq_true', decide_eq_false_iff_not] at h
  have hzero : i - n = 0 := by simpa using h.2
  omega

theorem within_rightBit (h : a &&& rightBit n ≠ 0) : Within (rightBit n) a := by
  rw [within_iff]
  intro i hi
  by_contra hne
  -- the only bit of the right is not in `a`
  refine h (BitVec.eq_of_getLsbD_eq fun k _ => ?_)
  rw [BitVec.getLsbD_and]
  refine (Bool.and_eq_false_iff.mpr ?_).trans BitVec.getLsbD_zero.symm
  by_cases hk : (rightBit n).getLsbD k
  · rw [getLsbD_rightBit hk, ← getLsbD_rightBit hi]
    exact .inl (Bool.eq_false_of_not_eq_true hne)
  · exact .inr (Bool.eq_false_of_not_eq_true hk)

/-- A base that may change its directory at all has one of the three rights. -/
theorem exists_mutation (h : a &&& mutationRights ≠ 0) :
    ∃ mutation : Mutation, Within mutation.right a := by
  by_contra hnone
  refine h ?_
  have hzero : ∀ mutation : Mutation, a &&& mutation.right = 0 := by
    intro mutation
    by_contra hne
    refine hnone ⟨mutation, ?_⟩
    cases mutation <;> exact within_rightBit hne
  have hdist : a &&& mutationRights = (a &&& Mutation.createDirectory.right) |||
      (a &&& Mutation.removeDirectory.right) ||| (a &&& Mutation.unlinkFile.right) := by
    simp only [mutationRights]
    refine BitVec.eq_of_getLsbD_eq fun i _ => ?_
    simp only [BitVec.getLsbD_and, BitVec.getLsbD_or, Bool.and_or_distrib_left]
  rw [hdist, hzero, hzero, hzero]
  rfl

section confinement

variable {f f' : Filesystem} {i handle : Nat} {s : FsSlot} {d : FsDescriptor} {r : P2Result}
theorem call_ok : ∀ {as : List Section} {w w' : World} {r : Reply}, FsInv w →
    w.call as = some (r, w') → FsInv w' ∧ Later w w'
  | [], w, w', r, h, hw => by
    cases hw
    exact ⟨h, .refl w⟩
  | a :: as, w, w', r, h, hw => by
    obtain ⟨⟨r₁, w₁⟩, hp, hrest⟩ := bind_eq_some_iff.mp hw
    have hok := perform_ok h _ _ hp
    cases r₁ with
    | running =>
      obtain ⟨hinv, hlater⟩ := call_ok hok.inv hrest
      exact ⟨hinv, hok.later.trans hlater⟩
    | done | failed =>
      cases hrest
      exact ⟨hok.inv, hok.later⟩

/-- The guest descriptor of an active slot finds that slot. -/
theorem FsInv.fd (h : FsInv w) (hs : w.table.slots[i]? = some s)
    (ha : s.active) : w.table.fd s.guestFd = some (i, s) := by
  rw [FsTable.fd]
  cases hfind : w.table.slots.findIdx? fun t => t.active && t.guestFd == s.guestFd with
  | none =>
    rw [List.findIdx?_eq_none_iff] at hfind
    exact absurd (hfind s (List.mem_of_getElem? hs)) (by simp [ha])
  | some k =>
    obtain ⟨hlt, htest, -⟩ := List.findIdx?_eq_some_iff_getElem.mp hfind
    rw [Bool.and_eq_true, beq_iff_eq] at htest
    have hk : w.table.slots[k]? = some w.table.slots[k] := List.getElem?_eq_getElem hlt
    cases h.fds hk hs (.inl htest.1) (.inl ha) htest.2
    rw [bind_some, hs]
    rfl

/-- The table is sound and every provider call so far was covered. -/
structure Confined (f : Filesystem) : Prop where
  inv : FsInv f.world
  covered : ∀ e ∈ f.events, e.Covered f.world.made

/-- The table goes on and the events stay. -/
theorem Confined.later (h : Confined f) (hw : FsInv w' ∧ Later f.world w')
    (hevents : f'.events = f.events) (hworld : f'.world = w') : Confined f' := by
  refine ⟨hworld ▸ hw.1, fun e he => ?_⟩
  rw [hevents] at he
  rw [hworld]
  exact (h.covered e he).mono hw.2.made

/-- One more call of a provider, covered by what the table held when it was made. -/
theorem Confined.event (h : Confined f) (hw : FsInv w' ∧ Later f.world w')
    (hevents : f'.events = f.record op d) (hworld : f'.world = w')
    (hop : Event.Covered f.world.made ⟨op, d⟩) : Confined f' := by
  refine ⟨hworld ▸ hw.1, fun e he => ?_⟩
  rw [hevents, Filesystem.record, List.mem_append, List.mem_singleton] at he
  rw [hworld]
  rcases he with he | rfl
  · exact (h.covered e he).mono hw.2.made
  · exact hop.mono hw.2.made

/-- A resource resolves to an active slot whose rights its publication had, on a lineage. -/
theorem Confined.resolve (h : Confined f)
    (hres : f.resolve handle = some (d, s)) : f.world.table.slots[d.slot]? = some s ∧
      s.active ∧ ∃ m ∈ f.world.made, m.descriptor = d ∧ Lineage f.world.made m ∧
        Within s.rightsBase m.how.rightsBase ∧
        Within s.rightsInheriting m.how.rightsInheriting := by
  obtain ⟨rep, -, hrep⟩ := bind_eq_some_iff.mp hres
  obtain ⟨⟨i, u⟩, hfound, hif⟩ := bind_eq_some_iff.mp hrep
  obtain ⟨ha, heq⟩ := ite_none_right_eq_some.mp hif
  cases heq
  obtain ⟨rfl, hs, -⟩ := FsTable.identity_some hfound
  obtain ⟨m, hm, hd, -, hb, hi⟩ := h.inv.safe.occupant hfound ha
  exact ⟨hs, ha, m, hm, hd, h.inv.derived m hm, hb, hi⟩

/-- What a pin through the guest descriptor of an active slot has checked. -/
theorem pin_rights (h : FsInv w) (hs : w.table.slots[i]? = some s) (ha : s.active)
    (hw : w.pin 0 (.fd s.guestFd) right = some (.running, w')) : Within right s.rightsBase := by
  rw [World.pin] at hw
  split at hw
  · split at hw
    · cases hw
    · next i' s' hpin =>
      obtain ⟨u, hfound, -, -, hr, -⟩ := pinLocked_ok hpin
      cases (h.fd hs ha).symm.trans hfound
      exact within_of_and_eq hr
  · cases hw

theorem pinned_confined (h : Confined f)
    (hres : f.resolve handle = some (d, s)) (hf : f.pinned d s right op answer = some (r, f'))
    (hop : ∀ m, Holds f.world.made right m → op.Needs f.world.made m) : Confined f' := by
  obtain ⟨hs, ha, m, hm, hd, hline, hb, -⟩ := h.resolve hres
  rw [Filesystem.pinned] at hf
  split at hf
  · next w₁ hpin =>
    obtain ⟨⟨r', w₂⟩, hunpin, heq⟩ := map_eq_some_iff.mp hf
    cases heq
    have hok := pin_ok h.inv _ _ hpin
    have hok' := unpin_ok hok.inv _ _ hunpin
    refine h.event ⟨hok'.inv, hok.later.trans hok'.later⟩ rfl rfl ⟨m, hm, hd, hop m ?_⟩
    exact hline.holds ((pin_rights h.inv hs ha hpin).trans hb)
  · next hpin =>
    cases hf
    have hok := pin_ok h.inv _ _ hpin
    exact h.later ⟨hok.inv, hok.later⟩ rfl rfl
  · cases hf

/-- What `path_open` has checked before the provider is called. -/
theorem pathOpen_rights (h : FsInv w) (hs : w.table.slots[i]? = some s) (ha : s.active)
    (hw : w.call [.pathOpen 0 s.guestFd base inheriting flags, .pathOpenReserve 0] =
      some (.running, w')) :
    Within pathOpenRight s.rightsBase ∧ Within base s.rightsInheriting ∧
      Within inheriting s.rightsInheriting := by
  obtain ⟨⟨r₁, w₁⟩, hp, hrest⟩ := bind_eq_some_iff.mp hw
  replace hp : w.pathOpen 0 s.guestFd base inheriting flags = some (r₁, w₁) := hp
  rw [World.pathOpen] at hp
  split at hp
  · next hj =>
    split at hp
    · cases hp
      cases hrest
    next i' s' hpin =>
    obtain ⟨u, hfound, -, -, hr, rfl⟩ := pinLocked_ok hpin
    cases (h.fd hs ha).symm.trans hfound
    cases hp
    refine ⟨within_of_and_eq hr, ?_⟩
    -- the reservation is only reached with rights inside the snapshot's
    obtain ⟨⟨r₂, w₂⟩, hp₂, hrest₂⟩ := bind_eq_some_iff.mp hrest
    replace hp₂ : World.pathOpenReserve _ 0 = some (r₂, w₂) := hp₂
    rw [World.pathOpenReserve, show (World.change _ _ _ _ _).jobs[0]? = _ from jobs_set hj] at hp₂
    dsimp only at hp₂
    split at hp₂
    · obtain ⟨u, -, heq⟩ := map_eq_some_iff.mp hp₂
      cases heq
      cases hrest₂
    · next hrights =>
      simp only [not_or, not_not] at hrights
      exact hrights
  · cases hp

/-- The flags of `open-at` are asked of a slot with the rights to them. -/
structure FlagsAllowed (s : FsSlot) (flags : BitVec 32) : Prop where
  create : flags &&& openCreate ≠ 0 → Within Mutation.createDirectory.right s.rightsBase
  truncate : flags &&& openTruncate ≠ 0 → Within fdWriteRight s.rightsInheriting

/-- An open keeps confinement if the flags it passes on are covered. -/
theorem openChild_confined (h : Confined f) (hres : f.resolve handle = some (d, s))
    {flags : BitVec 32} {rights : Rights} (hflags : FlagsAllowed s flags)
    (hmutate : flags &&& (openCreate ||| openTruncate) ≠ 0 → s.rightsBase &&& mutationRights ≠ 0)
    {answer : Except Errno FsFile}
    (hf : f.openChild d s flags rights inheriting answer child = some (r, f')) : Confined f' := by
  obtain ⟨hs, ha, m, hm, hd, hline, hb, hi⟩ := h.resolve hres
  rw [Filesystem.openChild] at hf
  split at hf
  · next w₁ hcall =>
    have hok := call_ok h.inv hcall
    split at hf
    · obtain ⟨⟨r', w₂⟩, hfinish, hrest⟩ := bind_eq_some_iff.mp hf
      have hok' := pathOpenFinish_ok hok.1 _ _ hfinish
      have hstep : FsInv w₂ ∧ Later f.world w₂ := ⟨hok'.inv, hok.2.trans hok'.later⟩
      obtain ⟨hopen, hbase, hinherit⟩ := pathOpen_rights h.inv hs ha hcall
      have hcovered : Event.Covered f.world.made ⟨.openAt flags rights inheriting, d⟩ := by
        refine ⟨m, hm, hd, hline.holds (hopen.trans hb), ?_, fun hc => ?_, fun ht => ?_, fun hc => ?_⟩
        · rintro right (hr | hr)
          · exact hline.granted ((hr.trans hbase).trans hi)
          · exact hline.granted ((hr.trans hinherit).trans hi)
        · exact hline.holds ((hflags.create hc).trans hb)
        · exact hline.granted ((hflags.truncate ht).trans hi)
        · obtain ⟨mutation, hmut⟩ := exists_mutation (hmutate hc)
          exact ⟨mutation, hline.holds (hmut.trans hb)⟩
      split at hrest
      · split at hrest
        · cases hrest
        · cases hrest
          exact h.event hstep rfl rfl hcovered
      · obtain ⟨⟨r'', w₃⟩, hclose, heq⟩ := map_eq_some_iff.mp hrest
        cases heq
        have hok'' := call_ok hstep.1 hclose
        exact h.event ⟨hok''.1, hstep.2.trans hok''.2⟩ rfl rfl hcovered
      · cases hrest
        exact h.event hstep rfl rfl hcovered
    · obtain ⟨⟨r', w₂⟩, hunpin, heq⟩ := map_eq_some_iff.mp hf
      cases heq
      have hok' := unpin_ok hok.1 _ _ hunpin
      exact h.later ⟨hok'.inv, hok.2.trans hok'.later⟩ rfl rfl
  · next hcall =>
    cases hf
    exact h.later (call_ok h.inv hcall) rfl rfl
  · cases hf

/-- The flags that `path_open` gets. -/
theorem and_openFlags (flags : BitVec 32) {mask : BitVec 32} (h : 15 &&& mask = mask) :
    flags &&& 15 &&& mask = flags &&& mask := by
  rw [BitVec.and_assoc, h]

theorem openAt_confined (h : Confined f) {openFlags descriptorFlags : BitVec 32}
    {answer : Except Errno FsFile}
    (hc : ∀ d s, f.resolve handle = some (d, s) → FlagsAllowed s openFlags)
    (hf : f.callOpenAt handle openFlags descriptorFlags answer child = some (r, f')) :
    Confined f' := by
  rw [Filesystem.callOpenAt] at hf
  split at hf
  · cases hf
    exact h
  next d s hres =>
  split at hf
  · cases hf
    exact h
  split at hf
  · cases hf
    exact h
  next hmutate =>
  have hflags := hc d s hres
  refine openChild_confined h hres ⟨?_, ?_⟩ (fun hm hzero => hmutate ⟨.inr ?_, hzero⟩) hf
  · rw [and_openFlags openFlags (by decide)]
    exact hflags.create
  · rw [and_openFlags openFlags (by decide)]
    exact hflags.truncate
  · rwa [and_openFlags openFlags (by decide)] at hm

theorem drop_confined (h : Confined f)
    (hf : f.descriptorDrop handle answer = some (r, f')) : Confined f' := by
  rw [Filesystem.descriptorDrop] at hf
  split at hf
  · cases hf
    exact h
  · cases hf
    exact ⟨h.inv, h.covered⟩
  · obtain ⟨⟨r', w₁⟩, hcall, heq⟩ := map_eq_some_iff.mp hf
    have hok := call_ok h.inv hcall
    split at heq <;> cases heq <;> exact h.later hok rfl rfl

/-- A stream is asked of a descriptor that has the right to it, and a file is created or truncated
through one that has the right to that. -/
def P2Call.Entitled (f : Filesystem) : P2Call → Prop
  | .stream handle kind _ => ∀ d s, f.resolve handle = some (d, s) → Within kind.right s.rightsBase
  | .openAt handle openFlags _ _ _ =>
    ∀ d s, f.resolve handle = some (d, s) → FlagsAllowed s openFlags
  | _ => True

/-- **Every entitled call keeps confinement.** -/
theorem call_confined (h : Confined f) {c : P2Call} (hc : c.Entitled f) (hf : f.call c = some
    (r, f')) : Confined f' := by
  cases c with
  | getDirectories handles =>
    have hf' : f.getDirectories handles = (r, f') := some.inj hf
    rw [Filesystem.getDirectories] at hf'
    split at hf' <;> cases hf'
    · exact ⟨h.inv, h.covered⟩
    · exact h
  | stat handle atPath answer =>
    replace hf : f.callStat handle atPath answer = some (r, f') := hf
    rw [Filesystem.callStat] at hf
    split at hf
    · cases hf
      exact h
    · next d s hres =>
      split at hf
      · exact pinned_confined h hres hf fun _ hm => hm
      · exact pinned_confined h hres hf fun _ hm => hm
  | openAt => exact openAt_confined h hc hf
  | mutate handle m answer =>
    replace hf : f.callPathMutation handle m answer = some (r, f') := hf
    rw [Filesystem.callPathMutation] at hf
    split at hf
    · cases hf
      exact h
    · next d s hres => exact pinned_confined h hres hf fun _ hm => hm
  | stream handle kind answer =>
    replace hf : f.callStreamFactory handle kind answer = some (r, f') := hf
    rw [Filesystem.callStreamFactory] at hf
    split at hf
    · cases hf
      exact h
    split at hf
    · cases hf
      exact h
    next d s hres =>
    split at hf
    · cases hf
      exact h
    obtain ⟨-, -, m, hm, hd, hline, hb, -⟩ := h.resolve hres
    have hcovered : Event.Covered f.world.made ⟨.stream kind, d⟩ :=
      ⟨m, hm, hd, hline.holds ((hc d s hres).trans hb)⟩
    dsimp only at hf
    split at hf <;> cases hf <;> exact h.event ⟨h.inv, .refl _⟩ rfl rfl hcovered
  | drop => exact drop_confined h hf

end confinement

/-! ## 3. Runs -/

theorem start_confined (h : Filesystem.start capacity binds streams provider = some f) :
    Confined f := by
  obtain ⟨t, ht, hf⟩ := bind_eq_some_iff.mp h
  obtain ⟨w, hw, rfl⟩ := map_eq_some_iff.mp hf
  refine ⟨?_, fun e he => by cases he⟩
  exact Lib.invariant_run (P := FsInv) (fun _ _ hst h => (act_inv hst h).1)
    (Lib.run_of_actions hw) (inv_init ht)

/-- A call that is entitled to what it asks for. -/
def EntitledStep (f f' : Filesystem) : Prop := ∃ c : P2Call, c.Entitled f ∧ f.act c = some f'

/-- **Confinement.**  Whatever the host bound, in every run of entitled calls every provider call was
made through a descriptor that holds the right to it, granted by every descriptor up to the one the
host bound. -/
theorem filesystem_confined {capacity : Nat} {binds : List BindArgs} {streams : Bool}
    {provider : StreamKind → Bool} {f f' : Filesystem}
    (hstart : Filesystem.start capacity binds streams provider = some f)
    (hrun : ReflTransGen EntitledStep f f') : ∀ e ∈ f'.events, e.Covered f'.world.made := by
  refine (Lib.invariant_run (P := Confined) (fun g g' hst hg => ?_) hrun
    (start_confined hstart)).covered
  obtain ⟨c, hc, hact⟩ := hst
  obtain ⟨⟨r, u⟩, hcall, rfl⟩ := map_eq_some_iff.mp hact
  exact call_confined hg hc hcall

/-- A preopened directory. -/
def rootBind (rightsBase rightsInheriting : Rights) : BindArgs where
  fd := some 3
  path := some "/"
  copied := true
  foreign := false
  how := ⟨⟨7, 1⟩, ⟨true, false, false, false, false⟩, 3, 0, rightsBase, rightsInheriting, true⟩

/-- Two files are opened, one for reading, which is asked for an input stream, and a new one. -/
theorem filesystem_confined_read : ∃ f f',
    Filesystem.start 3 [rootBind (BitVec.allOnes 64) (BitVec.allOnes 64)] true (fun _ => true) =
      some f ∧
    ReflTransGen EntitledStep f f' ∧ f'.events.length = 3 ∧
    ∀ e ∈ f'.events, e.Covered f'.world.made := by
  have hrun : ∃ f f₁ f₂ f₃ f₄,
      Filesystem.start 3 [rootBind (BitVec.allOnes 64) (BitVec.allOnes 64)] true (fun _ => true) =
        some f ∧
      f.act (.getDirectories [1]) = some f₁ ∧
      f₁.act (.openAt 1 0 1 (.ok ⟨8, 1⟩) (some 2)) = some f₂ ∧
      f₂.act (.stream 2 .read (.ok (some 5))) = some f₃ ∧
      f₃.act (.openAt 1 9 2 (.ok ⟨9, 1⟩) (some 3)) = some f₄ ∧ f₄.events.length = 3 ∧
      P2Call.Entitled f₁ (.openAt 1 0 1 (.ok ⟨8, 1⟩) (some 2)) ∧
      P2Call.Entitled f₂ (.stream 2 .read (.ok (some 5))) ∧
      P2Call.Entitled f₃ (.openAt 1 9 2 (.ok ⟨9, 1⟩) (some 3)) := by
    refine ⟨_, _, _, _, _, rfl, rfl, rfl, rfl, rfl, rfl, fun d s hres => ?_, fun d s hres => ?_,
      fun d s hres => ?_⟩
    · exact ⟨fun h => absurd rfl h, fun h => absurd rfl h⟩
    · cases hres
      exact within_of_and_eq (by decide)
    · cases hres
      exact ⟨fun _ => within_of_and_eq (by decide), fun _ => within_of_and_eq (by decide)⟩
  obtain ⟨f, f₁, f₂, f₃, f₄, hstart, h₁, h₂, h₃, h₄, hlen, he₂, he₃, he₄⟩ := hrun
  have hr : ReflTransGen EntitledStep f f₄ :=
    .tail (.tail (.tail (.single ⟨.getDirectories [1], trivial, h₁⟩) ⟨_, he₂, h₂⟩) ⟨_, he₃, h₃⟩)
      ⟨_, he₄, h₄⟩
  exact ⟨f, f₄, hstart, hr, hlen, filesystem_confined hstart hr⟩

/-- **A file opened for reading yields an output stream**: nothing in `write-via-stream` looks at
the rights of its descriptor.  **A directory in which files may only be unlinked** creates a file
and truncates it, though neither it nor its files have the right to be written. -/
theorem filesystem_not_confined :
    (∃ f f', Filesystem.start 2 [rootBind (BitVec.allOnes 64) (BitVec.allOnes 64)] true
        (fun _ => true) = some f ∧
      [P2Call.getDirectories [1], .openAt 1 0 1 (.ok ⟨8, 1⟩) (some 2),
        .stream 2 .write (.ok (some 5))].foldlM Filesystem.act f = some f' ∧
      ∃ e ∈ f'.events, ¬ e.Covered f'.world.made) ∧
    ∃ f f', Filesystem.start 2 [rootBind (pathOpenRight ||| Mutation.unlinkFile.right)
        (p2OpenRights 1 0)] false (fun _ => false) = some f ∧
      [P2Call.getDirectories [1], .openAt 1 9 1 (.ok ⟨8, 1⟩) (some 2)].foldlM Filesystem.act f =
        some f' ∧
      ∃ e ∈ f'.events, e.op = .openAt 9 (p2OpenRights 1 0) (p2OpenRights 1 0) ∧
        (∀ m ∈ f'.world.made, m.descriptor = e.through →
          ¬ Holds f'.world.made Mutation.createDirectory.right m ∧
          ¬ Granted f'.world.made fdWriteRight m) ∧ ¬ e.Covered f'.world.made := by
  constructor
  · refine ⟨_, _, rfl, rfl, ⟨.stream .write, ⟨1, 1⟩⟩, .tail _ (.head _), ?_⟩
    rintro ⟨m, hm, hd, hown, -⟩
    rcases hm with _ | ⟨_, _ | ⟨_, hm⟩⟩
    · cases hd
    · exact absurd hown (by unfold Within; decide)
    · cases hm
  · refine ⟨_, _, rfl, rfl, ⟨.openAt 9 _ _, ⟨0, 1⟩⟩, .head _, rfl, ?_⟩
    refine (and_iff_left_of_imp fun hno => ?_).mpr ?_
    · rintro ⟨m, hm, hd, hneeds⟩
      exact (hno m hm hd).1 (hneeds.create (by decide))
    intro m hm hd
    rcases hm with _ | ⟨_, _ | ⟨_, hm⟩⟩
    · exact ⟨fun h => absurd h.1 (by unfold Within; decide),
        fun h => absurd h.inherits (by unfold Within; decide)⟩
    · cases hd
    · cases hm

end TurboWasm.Wasi
