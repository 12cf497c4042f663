/-
# The WASI descriptor table

`wasi_fs.c` keeps guest descriptors in a fixed array of slots behind one mutex.  A call takes the
mutex for short sections and leaves it while the provider runs: a slot is pinned for one provider
call, leased for longer work, reserved for a descriptor that is still being made, and marked while
it closes.

* §1 is the table and the helpers that run under the mutex.
* §2 is what a caller holds between its sections (`Job`), and the sections of every operation, one
  function each.  Any number of calls are under way, and a step is one section of any of them.
* The world also records what was published and what the provider closed; no section reads it.

The threads' dispatch attachment and the guest paths' storage are left out, and so is everything a
provider does besides answering.
-/
import Mathlib.Data.BitVec

namespace TurboWasm.Wasi

/-! ## 1. The table -/

abbrev Rights := BitVec 64

def uint32Max : Nat := 2 ^ 32 - 1

inductive Errno where
  | badf | busy | notcapable | nosys | mfile | io | inval | notsup
  /-- What a provider answers besides success. -/
  | provider (code : Nat)
deriving DecidableEq

/-- `turbowasm_wasi_fs_file`. -/
structure FsFile where
  object : Nat
  generation : Nat
deriving DecidableEq

/-- `turbowasm_wasi_fs_descriptor`. -/
structure FsDescriptor where
  slot : Nat
  generation : Nat
deriving DecidableEq

/-- Which of a descriptor's optional operations the provider has. -/
structure DescriptorOps where
  pathOpen : Bool
  stat : Bool
  setFlags : Bool
  retain : Bool
  recv : Bool
deriving DecidableEq

/-- `turbowasm_wasi_fs_slot`, as `calloc` leaves it. -/
structure FsSlot where
  active : Bool := false
  reserved : Bool := false
  closing : Bool := false
  metadataBusy : Bool := false
  pins : Nat := 0
  leases : Nat := 0
  claims : BitVec 8 := 0
  type : Nat := 0
  flags : BitVec 16 := 0
  ops : DescriptorOps := ⟨false, false, false, false, false⟩
  preopen : Bool := false
  generation : Nat := 0
  guestFd : Nat := 0
  file : FsFile := ⟨0, 0⟩
  rightsBase : Rights := 0
  rightsInheriting : Rights := 0

/-- `turbowasm_wasi_fs_impl`. -/
structure FsTable where
  slots : List FsSlot
  activeCount : Nat

/-- `turbowasm_wasi_fs_init`. -/
def FsTable.init (capacity : Nat) : Option FsTable :=
  if capacity = 0 ∨ uint32Max - 3 < capacity then none
  else some ⟨List.replicate capacity {}, 0⟩

namespace FsTable

variable (t : FsTable)

def capacity : Nat := t.slots.length

def put (i : Nat) (s : FsSlot) : FsTable := { t with slots := t.slots.set i s }

/-- `tw_fd`. -/
def fd (n : Nat) : Option (Nat × FsSlot) :=
  (t.slots.findIdx? fun s => s.active && s.guestFd == n).bind fun i => (t.slots[i]?).map (i, ·)

/-- `tw_identity`. -/
def identity (d : FsDescriptor) : Option (Nat × FsSlot) :=
  if d.generation = 0 then none
  else (t.slots[d.slot]?).bind fun s =>
    if s.generation = d.generation then some (d.slot, s) else none

/-- `tw_fd_occupied`. -/
def fdOccupied (n : Nat) : Bool :=
  t.slots.any fun s => (s.active || s.reserved) && s.guestFd == n

/-- `tw_next_fd_locked`. -/
def nextFdLocked : Nat :=
  (((List.range (t.capacity + 1)).map (· + 3)).find? fun n => !t.fdOccupied n).getD 0

/-- The test of `tw_reserve_locked`. -/
def reservable (s : FsSlot) : Bool :=
  !s.active && !s.reserved && s.leases == 0 && s.pins == 0 && s.generation != uint32Max

/-- `tw_reserve_locked`. -/
def reserveLocked (n : Nat) : Option (FsTable × FsDescriptor) :=
  (t.slots.findIdx? reservable).bind fun i => (t.slots[i]?).map fun s =>
    (t.put i { s with
      reserved := true
      guestFd := n
      generation := s.generation + 1 }, ⟨i, s.generation + 1⟩)

end FsTable

/-- How a descriptor is published. -/
structure Publication where
  file : FsFile
  ops : DescriptorOps
  type : Nat
  flags : BitVec 16
  rightsBase : Rights
  rightsInheriting : Rights
  preopen : Bool

/-- `tw_publish_locked`. -/
def FsTable.publishLocked (t : FsTable) (i : Nat) (s : FsSlot) (p : Publication) : FsTable where
  slots := t.slots.set i { s with
    file := p.file
    ops := p.ops
    type := p.type
    flags := p.flags
    rightsBase := p.rightsBase
    rightsInheriting := p.rightsInheriting
    preopen := p.preopen
    claims := 0
    metadataBusy := false
    closing := false
    reserved := false
    active := true }
  activeCount := t.activeCount + 1

/-- What `tw_snapshot` copies of a slot. -/
structure FsSnapshot where
  descriptor : FsDescriptor
  ops : DescriptorOps
  rightsBase : Rights
  rightsInheriting : Rights
  flags : BitVec 16
  type : Nat

/-- `tw_snapshot`. -/
def snapshot (i : Nat) (s : FsSlot) : FsSnapshot :=
  ⟨⟨i, s.generation⟩, s.ops, s.rightsBase, s.rightsInheriting, s.flags, s.type⟩

/-- The slot that `tw_pin_locked` leaves, or its error. -/
def pinLocked (found : Option (Nat × FsSlot)) (rights : Rights) : Except Errno (Nat × FsSlot) :=
  match found with
  | none => .error .badf
  | some (i, s) =>
    if !s.active then .error .badf
    else if s.closing || s.pins == uint32Max then .error .busy
    else if s.rightsBase &&& rights != rights then .error .notcapable
    else .ok (i, { s with pins := s.pins + 1 })

/-! ## 2. The sections of the operations -/

/-- What a caller holds between two sections. -/
inductive Job where
  | idle
  /-- A pin under a provider call; the verdict is set where the call is already lost. -/
  | pinned (v : FsSnapshot) (verdict : Option Errno)
  /-- `path_open` before it reserves the child. -/
  | opening (v : FsSnapshot) (base inheriting : Rights) (flags : BitVec 16)
  /-- `path_open` during the provider's `path_open`. -/
  | opened (v : FsSnapshot) (child : FsDescriptor) (base inheriting : Rights) (flags : BitVec 16)
  /-- `acquire` during the provider's `stat` and `retain`. -/
  | retaining (v : FsSnapshot)
  /-- `set_flags` during the provider's `set_flags`. -/
  | flagging (v : FsSnapshot) (flags : BitVec 16)
  /-- `close` during the provider's `close`. -/
  | closing (d : FsDescriptor)
  | reserved (d : FsDescriptor)
  /-- A lease and the direction it claims. -/
  | lease (v : FsSnapshot) (claim : Option Nat)

/-- A descriptor that was published, how, and for one made from another descriptor that descriptor
and the rights it was inheriting then. -/
structure Made where
  descriptor : FsDescriptor
  how : Publication
  parent : Option (FsDescriptor × Rights)

structure World where
  table : FsTable
  jobs : List Job
  made : List Made
  closed : List FsDescriptor

def World.init (t : FsTable) : World := ⟨t, [], [], []⟩

inductive FsError where
  | invalidArgument
  | outOfMemory
  | errno (e : Errno)

/-- What a section tells the guest or the host: the operation goes on, it is done, or it failed. -/
inductive Reply where
  | running
  | done
  | failed (e : FsError)

def Reply.ofErrno : Option Errno → Reply
  | none => .done
  | some e => .failed (.errno e)

inductive Handle where
  | fd (n : Nat)
  | identity (d : FsDescriptor)

def FsTable.find (t : FsTable) : Handle → Option (Nat × FsSlot)
  | .fd n => t.fd n
  | .identity d => t.identity d

/-- The arguments of `tw_bind`; no `fd` asks for the next one. -/
structure BindArgs where
  fd : Option Nat
  path : Option String
  /-- The path was copied. -/
  copied : Bool
  /-- A socket is bound away from its dispatch's owner. -/
  foreign : Bool
  how : Publication

/-- The first check of `tw_bind`. -/
def BindArgs.valid (a : BindArgs) : Bool :=
  a.how.file.generation != 0 && (if a.how.preopen then a.path.any (· != "") else a.path.isNone)

def rightBit (n : Nat) : Rights := (1 : Rights) <<< n

def pathOpenRight : Rights := rightBit 13
def renameSourceRight : Rights := rightBit 16
def renameTargetRight : Rights := rightBit 17
def setFlagsRight : Rights := rightBit 3
/-- What an accepted socket may do at most. -/
def acceptRights : Rights :=
  rightBit 1 ||| rightBit 6 ||| rightBit 3 ||| rightBit 21 ||| rightBit 27 ||| rightBit 28

def fileTypeSocketStream : Nat := 6
def fdflagNonblock : BitVec 16 := 4

namespace World

variable (w : World) (j n : Nat)

/-- One slot and one job change. -/
def change (i : Nat) (s : FsSlot) (j : Nat) (job : Job) : World :=
  { w with
    table := w.table.put i s
    jobs := w.jobs.set j job }

/-- The slot is published, and the job is what its maker goes on with. -/
def publish (i : Nat) (s : FsSlot) (p : Publication) (parent : Option (FsDescriptor × Rights))
    (j : Nat) (job : Job) : World :=
  { w with
    table := w.table.publishLocked i s p
    jobs := w.jobs.set j job
    made := w.made ++ [⟨⟨i, s.generation⟩, p, parent⟩] }

/-- `tw_bind`. -/
def bind (a : BindArgs) : Option (Reply × World) :=
  match w.jobs[j]? with
  | some .idle =>
    if !a.valid then some (.failed .invalidArgument, w)
    else if !a.copied then some (.failed .outOfMemory, w)
    else if a.foreign then some (.failed .invalidArgument, w)
    else
      let n := a.fd.getD w.table.nextFdLocked
      if w.table.fdOccupied n then some (.failed .invalidArgument, w)
      else match w.table.reserveLocked n with
        | none => some (.failed .outOfMemory, w)
        | some (t, d) => (t.slots[d.slot]?).map fun s =>
          (.done, { w with table := t }.publish d.slot s a.how none j .idle)
  | _ => none

/-- `tw_pin_fd` and the identity pin of `tw_wasi_fd_ready`: the first section of the operations that
call the provider on one descriptor. -/
def pin (target : Handle) (rights : Rights) : Option (Reply × World) :=
  match w.jobs[j]? with
  | some .idle =>
    match pinLocked (w.table.find target) rights with
    | .error e => some (.failed (.errno e), w)
    | .ok (i, s) => some (.running, w.change i s j (.pinned (snapshot i s) none))
  | _ => none

/-- `tw_wasi_fd_preopen_pin`. -/
def preopenPin : Option (Reply × World) :=
  match w.table.fd n with
  | none => some (.failed (.errno .badf), w)
  | some (_, s) => if s.preopen then w.pin j (.fd n) 0 else some (.failed (.errno .notcapable), w)

/-- A pin goes, `tw_unpin`. -/
def unpinned (v : FsSnapshot) (j : Nat) (job : Job) : Option World :=
  (w.table.slots[v.descriptor.slot]?).map fun s =>
    w.change v.descriptor.slot { s with pins := s.pins - 1 } j job

/-- `tw_unpin` after the provider's answer, and `tw_wasi_fd_preopen_unpin`. -/
def unpin (answer : Option Errno) : Option (Reply × World) :=
  match w.jobs[j]? with
  | some (.pinned v verdict) =>
    (w.unpinned v j .idle).map fun w' => (Reply.ofErrno (verdict <|> answer), w')
  | _ => none

/-- The first section of `tw_close`. -/
def close (target : Handle) : Option (Reply × World) :=
  match w.jobs[j]? with
  | some .idle =>
    match w.table.find target with
    | none => some (.failed (.errno .badf), w)
    | some (i, s) =>
      if !s.active then some (.failed (.errno .badf), w)
      else if s.closing || s.pins != 0 || s.metadataBusy then some (.failed (.errno .busy), w)
      else some (.running, w.change i { s with closing := true } j (.closing ⟨i, s.generation⟩))
  | _ => none

/-- The slot after the provider closed its file. -/
def closedSlot (s : FsSlot) : FsSlot :=
  { s with
    closing := false
    active := false
    preopen := false
    guestFd := 0
    rightsBase := 0
    rightsInheriting := 0
    file := if s.leases = 0 then ⟨0, 0⟩ else s.file }

/-- The last section of `tw_close`. -/
def closeFinish (answer : Option Errno) : Option (Reply × World) :=
  match w.jobs[j]? with
  | some (.closing d) => (w.table.slots[d.slot]?).map fun s =>
    match answer with
    | some e => (.failed (.errno e), w.change d.slot { s with closing := false } j .idle)
    | none => (.done,
      { w with
        table := ⟨w.table.slots.set d.slot (closedSlot s), w.table.activeCount - 1⟩
        jobs := w.jobs.set j .idle
        closed := w.closed ++ [d] })
  | _ => none

/-- The first section of `path_open`. -/
def pathOpen (base inheriting : Rights) (flags : BitVec 16) : Option (Reply × World) :=
  match w.jobs[j]? with
  | some .idle =>
    match pinLocked (w.table.fd n) pathOpenRight with
    | .error e => some (.failed (.errno e), w)
    | .ok (i, s) => some (.running, w.change i s j (.opening (snapshot i s) base inheriting flags))
  | _ => none

/-- `path_open` before the provider: the rights are compared with the snapshot, then a child is
reserved. -/
def pathOpenReserve : Option (Reply × World) :=
  match w.jobs[j]? with
  | some (.opening v base inheriting flags) =>
    if base &&& ~~~v.rightsInheriting ≠ 0 ∨ inheriting &&& ~~~v.rightsInheriting ≠ 0 then
      (w.unpinned v j .idle).map fun w' => (.failed (.errno .notcapable), w')
    else if !v.ops.pathOpen then
      (w.unpinned v j .idle).map fun w' => (.failed (.errno .nosys), w')
    else match w.table.reserveLocked w.table.nextFdLocked with
      | none => some (.running, { w with jobs := w.jobs.set j (.pinned v (some .mfile)) })
      | some (t, child) =>
        some (.running, { w with
          table := t
          jobs := w.jobs.set j (.opened v child base inheriting flags) })
  | _ => none

/-- A reservation goes. -/
def unreserved (d : FsDescriptor) (j : Nat) (job : Job) : Option World :=
  (w.table.slots[d.slot]?).map fun s =>
    w.change d.slot { s with
      reserved := false
      guestFd := 0 } j job

/-- The last section of `path_open`: a zero generation from the provider is an error. -/
def pathOpenFinish (answer : Except Errno FsFile) : Option (Reply × World) :=
  match w.jobs[j]? with
  | some (.opened v child base inheriting flags) =>
    match answer.bind fun f => if f.generation = 0 then .error .io else .ok f with
    | .error e =>
      ((w.unreserved child j (.pinned v none)).bind fun w' => w'.unpinned v j .idle).map
        fun w' => (.failed (.errno e), w')
    | .ok file => do
      let parent ← w.table.slots[v.descriptor.slot]?
      let s ← w.table.slots[child.slot]?
      let current := parent.rightsInheriting
      let w' ← (w.publish child.slot s ⟨file, v.ops, 0, flags, base &&& current,
        inheriting &&& current, false⟩ (some (v.descriptor, current)) j (.pinned v none)).unpinned
          v j .idle
      some (.done, w')
  | _ => none

/-- The first section of `path_rename`: both pins under one lock, and where the second fails the
first is left to its unpin. -/
def rename (k source target : Nat) : Option (Reply × World) :=
  match w.jobs[j]?, w.jobs[k]?, w.table.fd source, w.table.fd target with
  | some .idle, some .idle, some (i, s), some _ =>
    if j = k then none
    else match pinLocked (some (i, s)) renameSourceRight with
    | .error e => some (.failed (.errno e), w)
    | .ok (i, s) =>
      let w' := w.change i s j (.pinned (snapshot i s) none)
      match pinLocked (w'.table.fd target) renameTargetRight with
      | .error e => some (.running, w.change i s j (.pinned (snapshot i s) (some e)))
      | .ok (i, s) => some (.running, w'.change i s k (.pinned (snapshot i s) none))
  | some .idle, some .idle, _, _ => some (.failed (.errno .badf), w)
  | _, _, _, _ => none

/-- The second section of `tw_wasi_fd_acquire`. -/
def acquire : Option (Reply × World) :=
  match w.jobs[j]? with
  | some (.pinned v none) => (w.table.slots[v.descriptor.slot]?).map fun s =>
    if s.leases = uint32Max then
      (.running, { w with jobs := w.jobs.set j (.pinned v (some .busy)) })
    else (.running, w.change v.descriptor.slot { s with leases := s.leases + 1 } j (.retaining v))
  | _ => none

/-- The last section of `tw_wasi_fd_acquire`: without a `stat` or `retain` to call there is no
provider error. -/
def acquireFinish (answer : Option Errno) : Option (Reply × World) :=
  match w.jobs[j]? with
  | some (.retaining v) => (w.table.slots[v.descriptor.slot]?).map fun s =>
    match if (v.type == 0 && v.ops.stat) || v.ops.retain then answer else none with
    | some e => (.failed (.errno e), w.change v.descriptor.slot { s with
        leases := s.leases - 1
        pins := s.pins - 1 } j .idle)
    | none =>
      (.done, w.change v.descriptor.slot { s with pins := s.pins - 1 } j (.lease v none))
  | _ => none

/-- The bit of a claim, none without one. -/
def claimBits (claim : Option Nat) : BitVec 8 :=
  claim.elim 0 fun direction => (1 : BitVec 8) <<< direction

/-- `tw_wasi_fd_release`. -/
def release : Option (Reply × World) :=
  match w.jobs[j]? with
  | some (.lease v claim) =>
    match w.table.identity v.descriptor with
    | none => some (.done, { w with jobs := w.jobs.set j .idle })
    | some (i, s) => some (.done, w.change i { s with
        claims := s.claims &&& ~~~claimBits claim
        leases := s.leases - 1
        file := if s.active = false ∧ s.leases - 1 = 0 then ⟨0, 0⟩ else s.file } j .idle)
  | _ => none

/-- `tw_wasi_fd_claim`. -/
def claim (direction : Nat) : Option (Reply × World) :=
  match w.jobs[j]? with
  | some (.lease v claimed) =>
    if 2 < direction then some (.failed (.errno .inval), w)
    else match w.table.identity v.descriptor with
      | none => some (.failed (.errno .badf), w)
      | some (i, s) =>
        if !s.active then some (.failed (.errno .badf), w)
        else if s.closing || claimed.isSome || s.claims &&& claimBits (some direction) != 0 then
          some (.failed (.errno .busy), w)
        else some (.done, w.change i { s with claims := s.claims ||| claimBits (some direction) } j
          (.lease v (some direction)))
  | _ => none

/-- The first section of `tw_wasi_fd_set_flags`. -/
def setFlags (flags : BitVec 16) : Option (Reply × World) :=
  match w.jobs[j]? with
  | some .idle =>
    match pinLocked (w.table.fd n) setFlagsRight with
    | .error e => some (.failed (.errno e), w)
    | .ok (i, s) =>
      if s.metadataBusy then some (.failed (.errno .busy), w)
      else some (.running, w.change i { s with metadataBusy := true } j
        (.flagging (snapshot i s) flags))
  | _ => none

/-- The last section of `tw_wasi_fd_set_flags`. -/
def setFlagsFinish (answer : Option Errno) : Option (Reply × World) :=
  match w.jobs[j]? with
  | some (.flagging v flags) => (w.table.slots[v.descriptor.slot]?).map fun s =>
    let error :=
      if v.ops.recv then if flags &&& ~~~fdflagNonblock ≠ 0 then some .notsup else none
      else if v.ops.setFlags then answer
      else if flags ≠ v.flags then some .notsup else none
    (Reply.ofErrno error, w.change v.descriptor.slot { s with
      flags := if error = none then flags else s.flags
      metadataBusy := false
      pins := s.pins - 1 } j .idle)
  | _ => none

/-- `tw_wasi_fd_set_rights`. -/
def setRights (base inheriting : Rights) : Reply × World :=
  match w.table.fd n with
  | none => (.failed (.errno .badf), w)
  | some (i, s) =>
    if s.closing then (.failed (.errno .busy), w)
    else if base &&& ~~~s.rightsBase ≠ 0 ∨ inheriting &&& ~~~s.rightsInheriting ≠ 0 then
      (.failed (.errno .notcapable), w)
    else (.done, { w with table := w.table.put i { s with
      rightsBase := base
      rightsInheriting := inheriting } })

/-- `tw_wasi_fd_reserve`. -/
def reserve : Option (Reply × World) :=
  match w.jobs[j]? with
  | some .idle =>
    match w.table.reserveLocked w.table.nextFdLocked with
    | none => some (.failed (.errno .mfile), w)
    | some (t, d) => some (.done, { w with
        table := t
        jobs := w.jobs.set j (.reserved d) })
  | _ => none

/-- `tw_wasi_fd_abort` of the caller's reservation. -/
def abort : Option (Reply × World) :=
  match w.jobs[j]? with
  | some (.reserved d) =>
    if (w.table.identity d).any (·.2.reserved) then
      (w.unreserved d j .idle).map fun w' => (.done, w')
    else some (.done, { w with jobs := w.jobs.set j .idle })
  | _ => none

/-- `tw_wasi_fd_publish`: the caller holds the reservation `j` and the parent's lease `k`. -/
def publishAccepted (k : Nat) (file : FsFile) (flags : BitVec 16) : Option (Reply × World) :=
  match w.jobs[j]?, w.jobs[k]? with
  | some (.reserved d), some (.lease v _) => do
    let (i, s) ← w.table.identity d
    let (_, current) ← w.table.identity v.descriptor
    let rights := current.rightsInheriting
    some (.done, w.publish i s ⟨file, v.ops, fileTypeSocketStream, flags, rights &&& acceptRights, 0,
      false⟩ (some (v.descriptor, rights)) j .idle)
  | _, _ => none

end World

/-- One section of one operation; `enter` is a new caller. -/
inductive Section where
  | enter
  | bind (j : Nat) (a : BindArgs)
  | pin (j : Nat) (target : Handle) (rights : Rights)
  | preopenPin (j n : Nat)
  | unpin (j : Nat) (answer : Option Errno)
  | close (j : Nat) (target : Handle)
  | closeFinish (j : Nat) (answer : Option Errno)
  | pathOpen (j n : Nat) (base inheriting : Rights) (flags : BitVec 16)
  | pathOpenReserve (j : Nat)
  | pathOpenFinish (j : Nat) (answer : Except Errno FsFile)
  | rename (j k source target : Nat)
  | acquire (j : Nat)
  | acquireFinish (j : Nat) (answer : Option Errno)
  | release (j : Nat)
  | claim (j direction : Nat)
  | setFlags (j n : Nat) (flags : BitVec 16)
  | setFlagsFinish (j : Nat) (answer : Option Errno)
  | setRights (n : Nat) (base inheriting : Rights)
  | reserve (j : Nat)
  | abort (j : Nat)
  | publish (j k : Nat) (file : FsFile) (flags : BitVec 16)

/-- What a section does and answers; `none` where the caller is not at that section. -/
def World.perform (w : World) : Section → Option (Reply × World)
  | .enter => some (.done, { w with jobs := w.jobs ++ [.idle] })
  | .bind j a => w.bind j a
  | .pin j target rights => w.pin j target rights
  | .preopenPin j n => w.preopenPin j n
  | .unpin j answer => w.unpin j answer
  | .close j target => w.close j target
  | .closeFinish j answer => w.closeFinish j answer
  | .pathOpen j n base inheriting flags => w.pathOpen j n base inheriting flags
  | .pathOpenReserve j => w.pathOpenReserve j
  | .pathOpenFinish j answer => w.pathOpenFinish j answer
  | .rename j k source target => w.rename j k source target
  | .acquire j => w.acquire j
  | .acquireFinish j answer => w.acquireFinish j answer
  | .release j => w.release j
  | .claim j direction => w.claim j direction
  | .setFlags j n flags => w.setFlags j n flags
  | .setFlagsFinish j answer => w.setFlagsFinish j answer
  | .setRights n base inheriting => some (w.setRights n base inheriting)
  | .reserve j => w.reserve j
  | .abort j => w.abort j
  | .publish j k file flags => w.publishAccepted j k file flags

def World.act (w : World) (a : Section) : Option World := (w.perform a).map (·.2)

end TurboWasm.Wasi
