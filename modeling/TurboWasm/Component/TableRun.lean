/-
# Runs of the handle table

`src/component_resource.c` over its whole life: any sequence of the operations that change a table,
with any arguments, as programs whose errors leave what was written before them (`TableM`).  They
compute what the functions of `Component/Table.lean` do.  The proofs rest on one number per slot, its
`rank`:

* a slot of generation `g` has rank `3 g` while it is free, `3 g + 1` while it is occupied and
  `3 g + 2` once it is retired;
* no operation lowers a rank (`Change.rank_mono`), and an allocation raises the rank of its slot to
  that of an occupied one (`Writes`);
* a handle of generation `g` is live exactly while the rank of its slot is `3 g + 1`
  (`entry_isSome_iff`).

So a handle that was given out once is never given out again and, once it is gone, never comes back
(`table_handles_unique`).
-/
import TurboWasm.Component.Borrows
import TurboWasm.Lib.Runs

namespace TurboWasm

open Lib List Option Table

/-! ## 1. Operations -/

/-- The operations that change a table.  A pointer that may be `NULL` is an `Option`, and so is a
kind that may be `TURBOWASM_COMPONENT_HANDLE_INVALID`.  `destructor` is what the destructor reports,
`none` when there is no destructor. -/
inductive TableOp where
  | insert (kind : Option HandleKind) (object : Option Nat) (allocated : Bool)
  | newOwned (identity : Nat) (rep : Value) (allocated : Bool)
  | newBorrowed (identity : Nat) (rep : Value) (allocated : Bool)
  | publish (handle : Nat) (reservation : Option Nat) (identity : Nat) (rep : Value)
  | publishBorrowed (handle : Nat) (reservation : Option Nat) (identity : Nat) (rep : Value)
      (scope : Option Nat)
  | lendAcquire (handle identity : Nat)
  | lendRelease (handle identity : Nat)
  | remove (handle : Nat) (kind : Option HandleKind)
  | takeOwned (handle identity : Nat)
  | drop (handle identity : Nat) (destructor : Option (Result Unit))
  | scopeClear (scope : Option Nat)

/-- The handle that an operation takes away when it succeeds. -/
def TableOp.removes : TableOp → Option Nat
  | .remove handle _ | .takeOwned handle _ | .drop handle .. => some handle
  | _ => none

/-- The handle that an operation is given. -/
def TableOp.handle : TableOp → Option Nat
  | .publish handle .. | .publishBorrowed handle .. => some handle
  | .lendAcquire handle _ | .lendRelease handle _ => some handle
  | op => op.removes

/-! ## 2. The operations as programs

In the source an operation that fails may have written before it does.  A program passes the table
on through its errors; the functions of `Component/Table.lean` have no table to answer with an
error, and the lemmas of the next section say that nothing is lost by that. -/

/-- A program on a table: an error leaves what was written before it. -/
abbrev TableM := ExceptT Status (StateM Table)

namespace TableM

/-- A test that writes nothing. -/
def check (result : Result α) : TableM α := ExceptT.mk (pure result)

/-- `entry_allocate` from `found:` on; a handle that cannot be encoded gives the slot back. -/
def claim (index : Nat) : TableM Nat := do
  let t ← get
  let e ← check (orFail .outOfMemory t.entries[index]?)
  let generation := if e.generation = 0 then 1 else e.generation
  set { t with
    entries := t.entries.set index { e with generation, occupied := true }
    liveCount := t.liveCount + 1 }
  let handle := handleEncode index generation
  if handle = 0 then
    set { t with
      entries := t.entries.set index { e with generation, occupied := false, owned := false } }
    throw .invalidArgument
  return handle

/-- `entry_allocate`. -/
def entryAllocate (allocated : Bool) : TableM Nat := do
  let t ← get
  check (failIf (t.maxEntries = 0) .invalidArgument)
  match t.freeIndex with
  | some index => claim index
  | none =>
    let t ← check (orFail .outOfMemory (t.grow allocated))
    set t
    claim (← check (orFail .outOfMemory t.freeIndex))

/-- `turbowasm_component_handle_insert`. -/
def handleInsert (kind : Option HandleKind) (object : Option Nat) (allocated : Bool) :
    TableM Nat := do
  let kind ← check (orFail .invalidArgument kind)
  check (failIf (kind = .resource || object.isNone) .invalidArgument)
  let handle ← entryAllocate allocated
  modify (·.update handle fun e => { e with kind, object })
  return handle

/-- `resource_new`. -/
def resourceNew (identity : Nat) (rep : Value) (owned allocated : Bool) : TableM Nat := do
  check (failIf (identity = 0) .invalidArgument)
  let handle ← entryAllocate allocated
  modify (·.update handle fun e => { e with kind := .resource, identity, rep, owned })
  return handle

/-- `turbowasm_component_resource_publish`. -/
def publish (handle : Nat) (reservation : Option Nat) (identity : Nat) (rep : Value) :
    TableM Unit := do
  let t ← get
  check (failIf (reservation.isNone || identity = 0 || !validRep rep) .invalidArgument)
  let e ← check (orFail .trapped (t.entry handle))
  check (failIf (e.kind ≠ .reservation || e.object ≠ reservation) .trapped)
  modify (·.update handle fun e =>
    { e with kind := .resource, object := none, identity, rep, owned := true })

/-- `turbowasm_component_resource_publish_borrowed`. -/
def publishBorrowed (handle : Nat) (reservation : Option Nat) (identity : Nat) (rep : Value)
    (scope : Option Nat) : TableM Unit := do
  let scope ← check (orFail .invalidArgument scope)
  check (failIf ((← get).scopes scope = uint32Max) .outOfMemory)
  publish handle reservation identity rep
  modify fun t => { t.update handle (fun e => { e with owned := false, scope := some scope }) with
    scopes := Function.update t.scopes scope (t.scopes scope + 1) }

/-- `turbowasm_component_resource_lend_acquire`. -/
def lendAcquire (handle identity : Nat) : TableM Unit := do
  let e ← check ((← get).resource handle identity)
  check (failIf (e.lendCount = uint32Max) .trapped)
  modify (·.update handle fun e => { e with lendCount := e.lendCount + 1 })

/-- `turbowasm_component_resource_lend_release`. -/
def lendRelease (handle identity : Nat) : TableM Unit := do
  let e ← check ((← get).resource handle identity)
  check (failIf (e.lendCount = 0) .trapped)
  modify (·.update handle fun e => { e with lendCount := e.lendCount - 1 })

/-- `turbowasm_component_handle_remove`. -/
def handleRemove (handle : Nat) (kind : Option HandleKind) : TableM (Option Nat) := do
  let kind ← check (orFail .invalidArgument kind)
  check (failIf (kind = .resource) .invalidArgument)
  let e ← check (orFail .trapped ((← get).entry handle))
  check (failIf (e.kind ≠ kind) .trapped)
  modify (·.remove handle)
  return e.object

/-- `turbowasm_component_resource_take_owned`. -/
def takeOwned (handle identity : Nat) : TableM Value := do
  let e ← check ((← get).resource handle identity)
  check (failIf (!e.owned) .trapped)
  check (failIf (e.lendCount ≠ 0) .trapped)
  modify (·.remove handle)
  return e.rep

/-- `turbowasm_component_resource_drop`: the destructor runs after the entry is gone. -/
def resourceDrop (handle identity : Nat) (destructor : Option (Result Unit)) :
    TableM Unit := do
  let t ← get
  let e ← check (t.resource handle identity)
  check (failIf (e.lendCount ≠ 0) .trapped)
  check (failIf (match e.scope with | some s => t.scopes s = 0 | none => false) .trapped)
  modify (·.remove handle)
  if e.owned then check (destructor.getD (.ok ()))

/-- `turbowasm_component_resource_scope_clear`. -/
def scopeClear (scope : Option Nat) : TableM Unit := do
  let scope ← check (orFail .invalidArgument scope)
  let t ← get
  let claims := t.entries.filter (inScope scope)
  check (failIf (claims.any fun e => e.kind ≠ .resource || e.owned || e.lendCount ≠ 0) .trapped)
  check (failIf (t.scopes scope < claims.length) .trapped)
  set { t with
    entries := t.entries.map fun e => if inScope scope e then cleared e else e
    liveCount := t.liveCount - claims.length
    scopes := Function.update t.scopes scope (t.scopes scope - claims.length) }

/-- An operation: the handle it returns, if any. -/
def ofOp : TableOp → TableM (Option Nat)
  | .insert kind object allocated => some <$> handleInsert kind object allocated
  | .newOwned identity rep allocated => some <$> resourceNew identity rep true allocated
  | .newBorrowed identity rep allocated => some <$> resourceNew identity rep false allocated
  | .publish handle reservation identity rep =>
    Function.const _ none <$> publish handle reservation identity rep
  | .publishBorrowed handle reservation identity rep scope =>
    Function.const _ none <$> publishBorrowed handle reservation identity rep scope
  | .lendAcquire handle identity => Function.const _ none <$> lendAcquire handle identity
  | .lendRelease handle identity => Function.const _ none <$> lendRelease handle identity
  | .remove handle kind => Function.const _ none <$> handleRemove handle kind
  | .takeOwned handle identity => Function.const _ none <$> takeOwned handle identity
  | .drop handle identity destructor =>
    Function.const _ none <$> resourceDrop handle identity destructor
  | .scopeClear scope => Function.const _ none <$> scopeClear scope

end TableM

/-- An operation: the handle it returns, or its status, and the table it leaves. -/
def Table.apply (t : Table) (op : TableOp) : Result (Option Nat) × Table := TableM.ofOp op t

/-- What a function leaves that fails before it writes. -/
def Table.settled (t : Table) {α γ : Type} (result : Result γ) (split : γ → α × Table) :
    Result α × Table :=
  match result with
  | .ok c => (.ok (split c).1, (split c).2)
  | .error status => (.error status, t)

/-! ## 3. What the programs compute -/

namespace TableM

variable {α β γ : Type} {t : Table} {index handle identity reservation scope : Nat} {rep : Value}
  {kind : HandleKind}

theorem get_bind (k : Table → TableM α) : (get >>= k : TableM α) t = k t t := rfl

theorem bind_run (x : TableM α) (k : α → TableM β) : (x >>= k) t = match x t with
    | (.ok a, u) => k a u
    | (.error status, u) => (.error status, u) := by
  change (ExceptT.bindCont k (x t).1) (x t).2 = _
  cases x t with
  | mk answer u => cases answer <;> rfl

theorem map_run (f : α → β) (x : TableM α) : (f <$> x) t = ((x t).1.map f, (x t).2) := by
  rw [map_eq_pure_bind, bind_run]
  cases x t with
  | mk answer u => cases answer <;> rfl

theorem check_bind (result : Result α) (k : α → TableM β) :
    (check result >>= k) t = match result with
      | .ok a => k a t
      | .error status => (.error status, t) := by
  cases result <;> rfl

theorem failIf_bind (c : Bool) (status : Status) (k : Unit → TableM β) :
    (check (failIf c status) >>= k) t = if c then (.error status, t) else k () t := by
  cases c <;> rfl

theorem orFail_bind (o : Option α) (status : Status) (k : α → TableM β) :
    (check (orFail status o) >>= k) t = match o with
      | some a => k a t
      | none => (.error status, t) := by
  cases o <;> rfl

/-- A test that a program and a function both start with. -/
theorem check_settled {f : α → Result γ} {k : α → TableM β} {split : γ → β × Table}
    {result : Result α} (h : ∀ a, k a t = t.settled (f a) split) :
    (check result >>= k) t = t.settled (result >>= f) split := by
  cases result with
  | error status => rfl
  | ok a => exact h a

theorem lendAcquire_run :
    lendAcquire handle identity t = t.settled (t.lendAcquire handle identity) (((), ·)) := by
  unfold lendAcquire Table.lendAcquire
  rw [get_bind]
  exact check_settled fun _ => check_settled fun _ => rfl

theorem lendRelease_run :
    lendRelease handle identity t = t.settled (t.lendRelease handle identity) (((), ·)) := by
  unfold lendRelease Table.lendRelease
  rw [get_bind]
  exact check_settled fun _ => check_settled fun _ => rfl

theorem takeOwned_run :
    takeOwned handle identity t = t.settled (t.takeOwned handle identity) id := by
  unfold takeOwned Table.takeOwned
  rw [get_bind]
  exact check_settled fun _ => check_settled fun _ => check_settled fun _ => rfl

theorem publish_run : publish handle (some reservation) identity rep t =
    t.settled (t.publish handle reservation identity rep) (((), ·)) := by
  unfold publish Table.publish
  rw [get_bind, failIf_bind]
  by_cases h : identity = 0 ∨ validRep rep = false
  · rw [if_pos h, if_pos (by simpa using h)]
    rfl
  rw [if_neg h, if_neg (by simpa using h), orFail_bind]
  cases t.entry handle with
  | none => rfl
  | some e =>
    simp only [failIf_bind]
    by_cases h : e.kind ≠ .reservation ∨ e.object ≠ some reservation
    · rw [if_pos h, if_pos (by simpa using h)]
      rfl
    · rw [if_neg h, if_neg (by simpa using h)]
      rfl

theorem publishBorrowed_run : publishBorrowed handle (some reservation) identity rep (some scope) t =
    t.settled (t.publishBorrowed handle reservation identity rep scope) (((), ·)) := by
  unfold publishBorrowed Table.publishBorrowed
  rw [orFail_bind]
  simp only [get_bind, failIf_bind]
  by_cases h : t.scopes scope = uint32Max
  · rw [if_pos h, if_pos (by simpa using h)]
    rfl
  rw [if_neg h, if_neg (by simpa using h)]
  rw [bind_run, publish_run]
  cases t.publish handle reservation identity rep <;> rfl

theorem publishBorrowed_unreserved (handle identity scope : Nat) (rep : Value) :
    ∃ status, publishBorrowed handle none identity rep (some scope) t = (.error status, t) := by
  unfold publishBorrowed
  rw [orFail_bind]
  simp only [get_bind, failIf_bind]
  split <;> exact ⟨_, rfl⟩

theorem handleRemove_run : handleRemove handle (some kind) t =
    t.settled (t.handleRemove handle kind) id := by
  unfold handleRemove Table.handleRemove
  rw [orFail_bind]
  simp only [get_bind, failIf_bind, orFail_bind, decide_eq_true_eq]
  by_cases h : kind = .resource
  · rw [if_pos h, if_pos h]
    rfl
  rw [if_neg h, if_neg h]
  cases t.entry handle with
  | none => rfl
  | some e =>
    by_cases h : e.kind ≠ kind
    · simp only [if_pos h]
      rfl
    · simp only [if_neg h]
      rfl

theorem resourceDrop_run {destructor : Option (Result Unit)} :
    resourceDrop handle identity destructor t =
      match t.resourceDrop handle identity with
      | .error status => (.error status, t)
      | .ok (rep, u) => (if rep.isSome then destructor.getD (.ok ()) else .ok (), u) := by
  unfold resourceDrop Table.resourceDrop
  rw [get_bind, check_bind]
  cases t.resource handle identity with
  | error status => rfl
  | ok e =>
    simp only [ok_bind, check_bind]
    cases failIf (e.lendCount ≠ 0) .trapped with
    | error status => rfl
    | ok u =>
      simp only [ok_bind]
      cases failIf (match e.scope with | some s => decide (t.scopes s = 0) | none => false) .trapped with
      | error status => rfl
      | ok u =>
        cases e.owned <;> rfl

theorem scopeClear_run : scopeClear (some scope) t = t.settled (t.scopeClear scope) (((), ·)) := by
  unfold scopeClear Table.scopeClear
  rw [orFail_bind]
  simp only [get_bind, failIf_bind, decide_eq_true_eq]
  split
  · rfl
  · split <;> rfl

/-- A free slot can be encoded, so it is not given back. -/
theorem claim_run (ok : t.Ok) (hfree : t.freeIndex = some index) (fill : TableEntry → TableEntry) :
    ∃ p, t.claim index fill = .ok p ∧ (do
      let handle ← claim index
      modify (·.update handle fill)
      return handle : TableM Nat) t = (.ok p.1, p.2) := by
  obtain ⟨e, he, -, -⟩ := freeIndex_eq_some hfree
  have hg := ok.generation e (mem_of_getElem? he)
  have hi := (lt_of_getElem? he).trans_le (ok.size.trans ok.bound)
  generalize hgen : (if e.generation = 0 then 1 else e.generation) = g
  have hne : handleEncode index g ≠ 0 := by
    simp only [handleEncode]
    rw [if_neg (by unfold maxGeneration at *; split at hgen <;> omega)]
    omega
  refine ⟨_, by simp only [Table.claim, he, hgen, if_neg hne]; rfl, ?_⟩
  have htaken : claim index t = (.ok (handleEncode index g), { t with
      entries := t.entries.set index { e with generation := g, occupied := true }
      liveCount := t.liveCount + 1 }) := by
    unfold claim
    rw [get_bind, orFail_bind, he]
    simp only [hgen, if_neg hne]
    rfl
  rw [bind_run, htaken]
  change (Except.ok _, Table.update _ _ _) = (Except.ok _, _)
  rw [update_eq (handleEncode_spec hne) ((getElem?_set_of he _ _).trans (if_pos rfl))]
  simp only [set_set]

theorem set_bind (u : Table) (k : Unit → TableM α) : (set u >>= k : TableM α) t = k () u := rfl

/-- A table that has grown has a free slot. -/
theorem freeIndex_grow {allocated : Bool} {u : Table} (h : t.grow allocated = some u) :
    ∃ index, u.freeIndex = some index := by
  obtain ⟨hlt, h⟩ := ite_none_pass h
  rcases ite_cases h with ⟨_, h⟩ | ⟨_, h⟩
  · cases h
    refine isSome_iff_exists.mp ?_
    simp only [freeIndex, findIdx?_isSome, any_append, any_replicate, Bool.or_eq_true]
    right
    have hroom : ¬ (if t.maxEntries < (if t.entries.length = 0 then 8 else t.entries.length * 2)
        then t.maxEntries else if t.entries.length = 0 then 8 else t.entries.length * 2) ≤
          t.entries.length := by
      split <;> split <;> omega
    rw [if_neg (by omega)]
    rfl
  · cases h

theorem entryAllocate_run (ok : t.Ok) {allocated : Bool} (fill : TableEntry → TableEntry) :
    (do
      let handle ← entryAllocate allocated
      modify (·.update handle fill)
      return handle : TableM Nat) t = t.settled (t.allocate allocated fill) id := by
  have hclaim : ∀ {u index}, u.Ok → u.freeIndex = some index → (do
      let handle ← claim index
      modify (·.update handle fill)
      return handle : TableM Nat) u = t.settled (u.claim index fill) id := by
    intro u index uok hfree
    obtain ⟨p, hp, hrun⟩ := claim_run uok hfree fill
    rw [hrun, hp]
    rfl
  unfold entryAllocate Table.allocate
  rw [bind_run, get_bind, failIf_bind]
  by_cases hmax : t.maxEntries = 0
  · simp only [hmax]
    rfl
  simp only [hmax, decide_false, Bool.false_eq_true, if_false]
  cases hfree : t.freeIndex with
  | some index =>
    simp only
    rw [← bind_run]
    exact hclaim ok hfree
  | none =>
    simp only [orFail_bind]
    cases hgrow : t.grow allocated with
    | none => rfl
    | some u =>
      obtain ⟨index, hfree'⟩ := freeIndex_grow hgrow
      simp only [hfree', set_bind, orFail_bind]
      rw [← bind_run]
      exact hclaim (ok.grow hgrow) hfree'

end TableM

namespace Table

variable {fill : TableEntry → TableEntry} {returned : Option Nat}

variable {t t' : Table} {handle index g : Nat} {e : TableEntry}

/-! ## 4. What an operation changes -/

/-- A change of the table: a handle came into being, one entry was written, one was removed, or the
entries of a scope were. -/
inductive Change (t : Table) : Option Nat → Table → Prop where
  | allocated {room : Bool} {fill : TableEntry → TableEntry} {handle : Nat} {t' : Table} :
      (∀ g, fill (fresh g) = { fill (fresh g) with
        generation := g, occupied := true, retired := false, scope := none, lendCount := 0 }) →
      t.allocate room fill = .ok (handle, t') → Change t (some handle) t'
  | published {handle reservation identity : Nat} {rep : Value} {t' : Table} :
      t.publish handle reservation identity rep = .ok t' → Change t none t'
  | publishedBorrowed {handle reservation identity scope : Nat} {rep : Value} {t' : Table} :
      t.publishBorrowed handle reservation identity rep scope = .ok t' → Change t none t'
  | lent {handle : Nat} {e : TableEntry} (count : TableEntry → Nat) : t.entry handle = some e →
      e.kind = .resource → Change t none (t.update handle fun e => { e with lendCount := count e })
  | removed {handle : Nat} {e : TableEntry} : t.entry handle = some e →
      (e.kind = .resource → e.lendCount = 0) → Change t none (t.remove handle)
  | scopeCleared {scope : Nat} {t' : Table} : t.scopeClear scope = .ok t' → Change t none t'

/-- What an operation answers and leaves: an error and the same table, or a change.  Only a drop
that reports the error of the destructor has changed something and answers an error. -/
inductive Answered (t : Table) (op : TableOp) : Result (Option Nat) × Table → Prop where
  | refused (status : Status) : Answered t op (.error status, t)
  | done {returned : Option Nat} {t' : Table} : t.Change returned t' →
      Answered t op (.ok returned, t')
  | destroyed {handle identity : Nat} {status : Status} {e : TableEntry} :
      op = .drop handle identity (some (.error status)) → t.entry handle = some e →
      e.lendCount = 0 → Answered t op (.error status, t.remove handle)

/-- An operation that does what a function of the table does. -/
theorem Answered.settled {op : TableOp} {α γ : Type} {x : TableM α} {result : Result γ}
    {split : γ → α × Table} {returned : α → Option Nat} (hx : x t = t.settled result split)
    (h : ∀ c, result = .ok c → t.Change (returned (split c).1) (split c).2) :
    t.Answered op ((returned <$> x) t) := by
  rw [TableM.map_run, hx]
  cases result with
  | error status => exact .refused status
  | ok c => exact .done (h c rfl)

/-- An operation whose first test reads its arguments only. -/
theorem Answered.guarded {op : TableOp} {α : Type} {c : Bool} {status : Status} {k : Unit → TableM α}
    {returned : α → Option Nat} (h : c = false → t.Answered op ((returned <$> k ()) t)) :
    t.Answered op ((returned <$> (TableM.check (failIf c status) >>= k)) t) := by
  cases c with
  | true => exact .refused _
  | false => exact h rfl

/-- Every operation leaves the table as it is or makes one change. -/
theorem apply_answered (ok : t.Ok) (op : TableOp) : t.Answered op (t.apply op) := by
  cases op with
  | insert kind object room =>
    cases kind with
    | none => exact .refused _
    | some kind =>
      refine .guarded fun _ => ?_
      exact .settled (TableM.entryAllocate_run ok _) fun p hp => .allocated (fun _ => rfl) hp
  | newOwned identity rep room | newBorrowed identity rep room =>
    refine .guarded fun _ => ?_
    exact .settled (TableM.entryAllocate_run ok _) fun p hp => .allocated (fun _ => rfl) hp
  | publish handle reservation identity rep =>
    cases reservation with
    | none => exact .refused _
    | some reservation => exact .settled TableM.publish_run fun u hu => .published hu
  | publishBorrowed handle reservation identity rep scope =>
    cases scope with
    | none => exact .refused _
    | some scope =>
      cases reservation with
      | none => exact .guarded fun _ => .refused _
      | some reservation =>
        exact .settled TableM.publishBorrowed_run fun u hu => .publishedBorrowed hu
  | lendAcquire handle identity =>
    refine .settled TableM.lendAcquire_run fun u hu => ?_
    obtain ⟨e, he, hk, rfl⟩ := lendAcquire_spec hu
    exact .lent (fun e => e.lendCount + 1) he hk
  | lendRelease handle identity =>
    refine .settled TableM.lendRelease_run fun u hu => ?_
    obtain ⟨e, he, hk, rfl⟩ := lendRelease_spec hu
    exact .lent (fun e => e.lendCount - 1) he hk
  | remove handle kind =>
    cases kind with
    | none => exact .refused _
    | some kind =>
      refine .settled TableM.handleRemove_run fun p hu => ?_
      obtain ⟨e, he, hkind, -, hk, hp⟩ := handleRemove_spec hu
      rw [id, hp]
      exact .removed he fun hres => absurd (hkind.symm.trans hres) hk
  | takeOwned handle identity =>
    refine .settled TableM.takeOwned_run fun p hu => ?_
    obtain ⟨e, he, -, -, hl, -, hp⟩ := takeOwned_spec hu
    rw [id, hp]
    exact .removed he fun _ => hl
  | drop handle identity destructor =>
    simp only [apply, TableM.ofOp, TableM.map_run, TableM.resourceDrop_run]
    cases hd : t.resourceDrop handle identity with
    | error status => exact .refused status
    | ok p =>
      obtain ⟨rep, u⟩ := p
      obtain ⟨e, he, -, hl, -, rfl⟩ := resourceDrop_spec hd
      have hdone : t.Answered (.drop handle identity destructor) (.ok none, t.remove handle) :=
        .done (.removed he fun _ => hl)
      cases rep with
      | none => exact hdone
      | some rep =>
        cases destructor with
        | none => exact hdone
        | some result =>
          cases result with
          | ok _ => exact hdone
          | error status => exact .destroyed rfl he hl
  | scopeClear scope =>
    cases scope with
    | none => exact .refused _
    | some scope => exact .settled TableM.scopeClear_run fun u hu => .scopeCleared hu

/-! ## 5. Ranks -/

/-- The rank of a slot. -/
def slotRank (e : TableEntry) : Nat :=
  3 * e.generation + if e.retired then 2 else if e.occupied then 1 else 0

/-- The rank of the slot at an index; one that is not there yet has rank 0, like a new one. -/
def rank (t : Table) (index : Nat) : Nat := (t.entries[index]?.map slotRank).getD 0

theorem rank_eq (h : t.entries[index]? = some e) : t.rank index = slotRank e := by
  simp [rank, h]

/-- A handle is live exactly while its slot has the rank of its generation, occupied. -/
theorem entry_isSome_iff (ok : t.Ok) (hd : handleDecode handle = some (index, g)) :
    (t.entry handle).isSome ↔ t.rank index = 3 * g + 1 := by
  constructor
  · intro h
    obtain ⟨e, he⟩ := isSome_iff_exists.mp h
    obtain ⟨i, hi, hget, hocc⟩ := entry_eq_some.mp he
    rw [hd] at hi
    obtain ⟨rfl, rfl⟩ := hi
    rw [rank_eq hget, slotRank, ok.inService e (mem_of_getElem? hget) hocc, hocc]
    rfl
  intro h
  cases hget : t.entries[index]? with
  | none => simp [rank, hget] at h
  | some e =>
    have hserve := ok.inService e (mem_of_getElem? hget)
    rw [rank_eq hget, slotRank] at h
    -- of the three phases only the occupied one leaves a remainder of 1
    have hlive : e.occupied ∧ e.generation = g := by
      cases ho : e.occupied <;> cases hr : e.retired <;> simp [ho, hr] at h hserve ⊢ <;> omega
    obtain ⟨hocc, rfl⟩ := hlive
    rw [entry_eq_some.mpr ⟨index, hd, hget, hocc⟩]
    rfl

/-- New slots at the end have rank 0. -/
theorem rank_append (t : Table) (n i : Nat) : t.rank i =
    (((t.entries ++ List.replicate n ({} : TableEntry))[i]?.map slotRank).getD 0) := by
  unfold rank
  by_cases hi : i < t.entries.length
  · rw [getElem?_append_left hi]
  · rw [getElem?_append_right (Nat.le_of_not_lt hi), getElem?_eq_none (Nat.le_of_not_lt hi),
      getElem?_replicate]
    split <;> rfl

/-- The ranks before and after a slot is written. -/
theorem Wrote.rank (h : t.Wrote index old new t') :
    t.rank index = slotRank old ∧ ∀ i, t'.rank i = if i = index then slotRank new else t.rank i := by
  obtain ⟨n, hold, hset⟩ := h
  refine ⟨by rw [rank_append t n, hold]; rfl, fun i => ?_⟩
  rw [rank_append t n, Table.rank, hset, getElem?_set_of hold]
  split <;> rfl

/-- Clearing an occupied slot raises its rank. -/
theorem slotRank_cleared (ho : e.occupied) (hr : e.retired = false) :
    slotRank e ≤ slotRank (cleared e) := by
  unfold slotRank cleared
  simp only [ho, hr, Bool.false_eq_true, if_false, if_true]
  split
  · simp
  · split <;> omega

/-- A write as a change makes it: the rank does not fall, the number of occupied slots is kept up,
and what is not a resource is not lent.  A handle that is returned gets the slot for a generation
that the slot had not reached. -/
structure Writes (t : Table) (returned : Option Nat) (index : Nat) (old new : TableEntry)
    (t' : Table) : Prop where
  wrote : t.Wrote index old new t'
  rank : slotRank old ≤ slotRank new
  live : t'.liveCount =
    t.liveCount + (if new.occupied then 1 else 0) - if old.occupied then 1 else 0
  lends : new.kind ≠ .resource → new.lendCount = 0
  given : ∀ handle, returned = some handle → ∃ g, handleDecode handle = some (index, g) ∧
    slotRank old < 3 * g + 1 ∧ slotRank new = 3 * g + 1

/-- The entry of a handle is written and stays occupied. -/
theorem Writes.update (h : t.entry handle = some e) {f : TableEntry → TableEntry}
    (ho : (f e).occupied = e.occupied) (hr : slotRank (f e) = slotRank e)
    (hk : (f e).kind = .resource) : ∃ index, t.Writes none index e (f e) (t.update handle f) := by
  obtain ⟨index, hw⟩ := Wrote.update h f
  refine ⟨index, hw, le_of_eq hr.symm, ?_, absurd hk, fun _ heq => nomatch heq⟩
  rw [ho, Nat.add_sub_cancel, Table.update]
  split <;> rfl

/-- What a change writes. -/
theorem Change.writes (h : t.Change returned t') (ok : t.Ok) :
    (∃ index old new, t.Writes returned index old new t') ∨
      returned = none ∧ ∃ scope, t.scopeClear scope = .ok t' := by
  cases h with
  | scopeCleared hclear => exact .inr ⟨rfl, _, hclear⟩
  | allocated hfill halloc =>
    obtain ⟨index, old, g, hw, hocc, hret, hg, hd, -, hlive⟩ := Wrote.allocate ok halloc
    have hold : slotRank old < 3 * g + 1 := by
      simp only [slotRank, hocc, hret, Bool.false_eq_true, if_false]
      omega
    refine .inl ⟨index, old, _, hw, ?_, ?_, ?_, ?_⟩ <;> rw [hfill]
    · exact hold.le
    · simp [hocc, hlive]
    · exact fun _ => rfl
    · rintro _ ⟨⟩
      exact ⟨g, hd, hold, rfl⟩
  | published hpub =>
    obtain ⟨e, he, -, -, rfl⟩ := publish_spec hpub
    obtain ⟨index, hw⟩ := Writes.update he (f := fun e => { e with
      kind := .resource, object := none, identity := _, rep := _, owned := true }) rfl rfl rfl
    exact .inl ⟨index, e, _, hw⟩
  | publishedBorrowed hpub =>
    obtain ⟨e, he, -, -, rfl⟩ := publishBorrowed_spec hpub
    obtain ⟨index, hw⟩ := Writes.update he (f := fun e => borrowed _ { e with
      kind := .resource, object := none, identity := _, rep := _, owned := true }) rfl rfl rfl
    exact .inl ⟨index, e, _, { hw with }⟩
  | lent count he hk =>
    obtain ⟨index, hw⟩ := Writes.update he (f := fun e => { e with lendCount := count e }) rfl rfl hk
    exact .inl ⟨index, _, _, hw⟩
  | @removed _ e he hl =>
    have hocc := entry_occupied he
    obtain ⟨index, hw⟩ := Wrote.remove he
    refine .inl ⟨index, e, _, hw, slotRank_cleared hocc (ok.inService e (mem_of_entry he) hocc), ?_,
      fun _ => rfl, fun _ heq => nomatch heq⟩
    simp [remove, he, hocc]

/-- **No change lowers a rank.** -/
theorem Change.rank_mono (h : t.Change returned t') (ok : t.Ok)
    (i : Nat) : t.rank i ≤ t'.rank i := by
  rcases h.writes ok with ⟨index, old, new, hw⟩ | ⟨-, scope, hclear⟩
  · obtain ⟨hold, hnew⟩ := hw.wrote.rank
    rw [hnew]
    split
    · next hi =>
      rw [hi, hold]
      exact hw.rank
    · exact le_rfl
  obtain ⟨-, -, rfl⟩ := scopeClear_spec hclear
  simp only [rank, getElem?_map]
  cases he : t.entries[i]? with
  | none => exact le_rfl
  | some e =>
    simp only [map_some]
    split
    · rename_i hin
      have hocc : e.occupied := (Bool.and_eq_true_iff.mp hin).1
      exact slotRank_cleared hocc (ok.inService e (mem_of_getElem? he) hocc)
    · exact le_rfl

/-! ## 6. The invariant -/

/-- The number of occupied slots. -/
def occupiedCount (t : Table) : Nat := t.entries.countP (·.occupied)

/-- What holds of a table that has returned the handles `issued`. -/
structure Tracked (t : Table) (issued : List Nat) : Prop where
  ok : t.Ok
  counted : t.Counted
  live : t.liveCount = t.occupiedCount
  -- only resources are lent
  lends : ∀ e ∈ t.entries, e.kind ≠ .resource → e.lendCount = 0
  nodup : issued.Nodup
  -- a slot has reached the generation of every handle that was given out for it
  reached : ∀ h ∈ issued, ∃ index g, handleDecode h = some (index, g) ∧ 3 * g + 1 ≤ t.rank index

theorem Tracked.init {maxEntries : Nat} (h : Table.init maxEntries (fun _ => 0) = some t) :
    t.Tracked [] := by
  have hcounted := Counted.init h
  have hok := Ok.init h
  obtain ⟨hentries, -⟩ := init_spec h
  refine ⟨hok, hcounted, ?_, ?_, nodup_nil, ?_⟩
  · unfold Table.init at h
    obtain ⟨_, h⟩ := ite_none_pass h
    cases h
    rfl
  · intro e he
    rw [hentries] at he
    cases he
  · intro h hh
    cases hh

/-- Handles whose slots have been reached stay so. -/
theorem reached_mono {issued : List Nat} (hrank : ∀ i, t.rank i ≤ t'.rank i)
    (h : ∀ x ∈ issued, ∃ index g, handleDecode x = some (index, g) ∧ 3 * g + 1 ≤ t.rank index) :
    ∀ x ∈ issued, ∃ index g, handleDecode x = some (index, g) ∧ 3 * g + 1 ≤ t'.rank index := by
  intro x hx
  obtain ⟨index, g, hd, hle⟩ := h x hx
  exact ⟨index, g, hd, hle.trans (hrank index)⟩

theorem Change.ok (h : t.Change returned t') (ok : t.Ok) : t'.Ok := by
  cases h with
  | allocated hfill halloc =>
    obtain ⟨g, -, hok⟩ := allocate_spec ok (fun g => by rw [hfill]) (fun g => by rw [hfill])
      (fun g => by rw [hfill]) halloc
    exact hok
  | published hpub =>
    obtain ⟨-, -, -, -, hok, -⟩ := publish_entry ok hpub
    exact hok
  | publishedBorrowed hpub =>
    obtain ⟨-, -, -, -, hok, -⟩ := publishBorrowed_entry ok hpub
    exact hok
  | lent count he hk =>
    have hocc := entry_occupied he
    exact ok.update he hocc rfl rfl
  | removed he hl => exact ok.remove _
  | scopeCleared hclear => exact ok.scopeClear hclear

theorem Change.counted (h : t.Change returned t') (ok : t.Ok) (hc : t.Counted) : t'.Counted := by
  cases h with
  | allocated hfill halloc => exact hc.allocate ok (fun g => by rw [hfill]) halloc
  | published hpub => exact hc.publish hpub
  | publishedBorrowed hpub => exact hc.publishBorrowed hpub
  | lent count he hk => exact hc.update he rfl rfl fun _ => hk
  | removed he hl => exact hc.remove ok _
  | scopeCleared hclear => exact (hc.scopeClear hclear).1

/-- What is occupied is in the scope, or still occupied after the scope is cleared. -/
theorem occupied_split (scope : Nat) (l : List TableEntry) : l.countP (·.occupied) =
    (l.filter (inScope scope)).length +
      (l.map fun e => if inScope scope e then cleared e else e).countP (·.occupied) := by
  induction l with
  | nil => rfl
  | cons x l ih =>
    simp only [map_cons, countP_cons, filter_cons]
    by_cases hin : inScope scope x
    · have hocc : x.occupied := (Bool.and_eq_true_iff.mp hin).1
      simp only [hin, hocc, if_true, length_cons, cleared_occupied, Bool.false_eq_true, if_false]
      omega
    · simp only [hin, Bool.false_eq_true, if_false]
      omega

theorem Change.live (h : t.Change returned t') (ok : t.Ok)
    (hl : t.liveCount = t.occupiedCount) : t'.liveCount = t'.occupiedCount := by
  rcases h.writes ok with ⟨index, old, new, hw⟩ | ⟨-, scope, hclear⟩
  · have hcount := hw.wrote.countP (·.occupied) rfl
    have hlive := hw.live
    unfold occupiedCount at hl ⊢
    omega
  · obtain ⟨-, -, rfl⟩ := scopeClear_spec hclear
    have hsplit := occupied_split scope t.entries
    simp only [occupiedCount] at hl ⊢
    rw [hl, hsplit, Nat.add_sub_cancel_left]

theorem Change.lends (h : t.Change returned t') (ok : t.Ok)
    (hl : ∀ e ∈ t.entries, e.kind ≠ .resource → e.lendCount = 0) :
    ∀ e ∈ t'.entries, e.kind ≠ .resource → e.lendCount = 0 := by
  intro x hx hk
  rcases h.writes ok with ⟨index, old, new, hw⟩ | ⟨-, scope, hclear⟩
  · rcases hw.wrote.mem hx with hx | rfl | rfl
    · exact hl x hx hk
    · rfl
    · exact hw.lends hk
  obtain ⟨-, -, rfl⟩ := scopeClear_spec hclear
  obtain ⟨e, he, rfl⟩ := mem_map.mp hx
  split at hk
  · exact absurd rfl hk
  · rename_i hin
    rw [if_neg hin]
    exact hl e he hk

/-- **The invariant is kept**, and a handle that comes into being was never given out before. -/
theorem Change.tracked {issued : List Nat} (h : t.Change returned t')
    (ht : t.Tracked issued) : t'.Tracked (returned.toList ++ issued) := by
  have hmono := reached_mono (h.rank_mono ht.ok) ht.reached
  obtain ⟨hnodup, hreached⟩ : (returned.toList ++ issued).Nodup ∧
      ∀ x ∈ returned.toList ++ issued, ∃ index g, handleDecode x = some (index, g) ∧
        3 * g + 1 ≤ t'.rank index := by
    cases returned with
    | none => exact ⟨ht.nodup, hmono⟩
    | some handle =>
      rcases h.writes ht.ok with ⟨index, old, new, hw⟩ | ⟨hnone, -⟩
      · obtain ⟨g, hd, hlt, heq⟩ := hw.given handle rfl
        obtain ⟨hold, hnew⟩ := hw.wrote.rank
        refine ⟨nodup_cons.mpr ⟨fun hmem => ?_, ht.nodup⟩,
          forall_mem_cons.mpr ⟨⟨index, g, hd, ?_⟩, hmono⟩⟩
        · obtain ⟨i, k, hd', hle⟩ := ht.reached handle hmem
          cases hd.symm.trans hd'
          omega
        · rw [hnew, if_pos rfl, heq]
      · cases hnone
  exact ⟨h.ok ht.ok, h.counted ht.ok ht.counted, h.live ht.ok ht.live, h.lends ht.ok ht.lends,
    hnodup, hreached⟩

/-! ## 7. What one operation does to handles -/

/-- An entry with outstanding lends stays. -/
theorem Change.lent_stays (h : t.Change returned t') (ok : t.Ok)
    (hl : ∀ e ∈ t.entries, e.kind ≠ .resource → e.lendCount = 0)
    (he : t.entry handle = some e) (hlent : e.lendCount ≠ 0) :
    (t'.entry handle).isSome := by
  -- writing an entry takes no handle away
  have hwrite : ∀ {x : TableEntry} {new : Nat} {u : Table},
      (∀ h', u.entry h' = if h' = new then some x else t.entry h') →
      (u.entry handle).isSome := by
    intro x new u hu
    rw [hu]
    split
    · rfl
    · rw [he]
      rfl
  cases h with
  | allocated hfill halloc =>
    obtain ⟨g, hins, -⟩ := allocate_spec ok (fun g => by rw [hfill]) (fun g => by rw [hfill])
      (fun g => by rw [hfill]) halloc
    exact hwrite hins.entry
  | published hpub =>
    obtain ⟨_, -, -, -, -, -, hent⟩ := publish_entry ok hpub
    exact hwrite hent
  | publishedBorrowed hpub =>
    obtain ⟨_, -, -, -, -, -, hent⟩ := publishBorrowed_entry ok hpub
    exact hwrite hent
  | lent count hx hk =>
    have hocc := entry_occupied hx
    exact hwrite (entry_update hx hocc rfl)
  | @removed gone x hx hlend =>
    rw [entry_remove hx]
    by_cases hh : handle = gone
    · -- what is removed is not lent
      subst hh
      rw [he] at hx
      cases hx
      by_cases hk : e.kind = .resource
      · exact absurd (hlend hk) hlent
      · exact absurd (hl e (mem_of_entry he) hk) hlent
    · rw [if_neg hh, he]
      rfl
  | scopeCleared hclear =>
    rw [entry_scopeClear hclear, he, Option.filter]
    obtain ⟨hall, -⟩ := scopeClear_spec hclear
    split
    · rfl
    · rename_i hin
      simp only [Bool.not_eq_true', Bool.not_eq_false] at hin
      exact absurd (hall e (mem_of_entry he) hin).2.2 hlent

/-- An operation that succeeds has found its handle, and takes it away if it is one to do so. -/
theorem apply_found {op : TableOp} (hop : op.handle = some handle)
    (h : (t.apply op).1 = .ok returned) : ∃ e, t.entry handle = some e ∧
      (op.removes = some handle → (t.apply op).2 = t.remove handle) := by
  have hok : ∀ {α γ : Type} {x : TableM α} {result : Result γ} {split : γ → α × Table}
      {f : α → Option Nat}, x t = t.settled result split → ((f <$> x) t).1 = .ok returned →
      ∃ c, result = .ok c ∧ ((f <$> x) t).2 = (split c).2 := by
    intro α γ x result split f hx hans
    rw [TableM.map_run, hx] at hans ⊢
    cases result with
    | error status => cases hans
    | ok c => exact ⟨c, rfl, rfl⟩
  cases op with
  | insert | newOwned | newBorrowed | scopeClear => cases hop
  | publish h' reservation identity rep =>
    cases hop
    cases reservation with
    | none => cases h
    | some reservation =>
      obtain ⟨u, hu, -⟩ := hok TableM.publish_run h
      obtain ⟨e, he, -⟩ := publish_spec hu
      exact ⟨e, he, nofun⟩
  | publishBorrowed h' reservation identity rep scope =>
    cases hop
    cases scope with
    | none => cases h
    | some scope =>
      cases reservation with
      | none =>
        obtain ⟨status, hs⟩ := TableM.publishBorrowed_unreserved (t := t) handle identity scope rep
        simp only [apply, TableM.ofOp, TableM.map_run, hs] at h
        cases h
      | some reservation =>
        obtain ⟨u, hu, -⟩ := hok TableM.publishBorrowed_run h
        obtain ⟨e, he, -⟩ := publishBorrowed_spec hu
        exact ⟨e, he, nofun⟩
  | lendAcquire h' identity =>
    cases hop
    obtain ⟨u, hu, -⟩ := hok TableM.lendAcquire_run h
    obtain ⟨e, he, -⟩ := lendAcquire_spec hu
    exact ⟨e, he, nofun⟩
  | lendRelease h' identity =>
    cases hop
    obtain ⟨u, hu, -⟩ := hok TableM.lendRelease_run h
    obtain ⟨e, he, -⟩ := lendRelease_spec hu
    exact ⟨e, he, nofun⟩
  | remove h' kind =>
    cases hop
    cases kind with
    | none => cases h
    | some kind =>
      obtain ⟨p, hp, htable⟩ := hok TableM.handleRemove_run h
      obtain ⟨e, he, -, -, -, hremove⟩ := handleRemove_spec hp
      exact ⟨e, he, fun _ => htable.trans hremove⟩
  | takeOwned h' identity =>
    cases hop
    obtain ⟨p, hp, htable⟩ := hok TableM.takeOwned_run h
    obtain ⟨e, he, -, -, -, -, hremove⟩ := takeOwned_spec hp
    exact ⟨e, he, fun _ => htable.trans hremove⟩
  | drop h' identity destructor =>
    cases hop
    simp only [apply, TableM.ofOp, TableM.map_run, TableM.resourceDrop_run] at h ⊢
    cases hd : t.resourceDrop handle identity with
    | error status =>
      rw [hd] at h
      cases h
    | ok p =>
      obtain ⟨rep, u⟩ := p
      obtain ⟨e, he, -, -, -, hremove⟩ := resourceDrop_spec hd
      exact ⟨e, he, fun _ => hremove⟩

end Table

/-! ## 8. Runs -/

/-- A table and the handles it has returned so far, newest first. -/
structure TableTrace where
  table : Table
  issued : List Nat

namespace TableTrace

variable {s s' : TableTrace}

/-- One operation. -/
def act (s : TableTrace) (op : TableOp) : Option TableTrace :=
  let (answer, t) := s.table.apply op
  some ⟨t, (match answer with
    | .ok returned => returned.toList
    | .error _ => []) ++ s.issued⟩

abbrev Run : TableTrace → TableTrace → Prop := Relation.ReflTransGen (Steps act)

/-- A step keeps the invariant and lowers no rank. -/
theorem tracked_step (h : Steps act s s') (ht : s.table.Tracked s.issued) :
    s'.table.Tracked s'.issued ∧ ∀ i, s.table.rank i ≤ s'.table.rank i := by
  obtain ⟨op, hop⟩ := h
  have hans := apply_answered ht.ok op
  simp only [act, some.injEq] at hop
  subst hop
  generalize s.table.apply op = p at hans
  cases hans with
  | refused status => exact ⟨ht, fun i => le_rfl⟩
  | done hchange => exact ⟨hchange.tracked ht, hchange.rank_mono ht.ok⟩
  | destroyed _ he hl =>
    have hchange : s.table.Change none (s.table.remove _) := .removed he fun _ => hl
    exact ⟨hchange.tracked ht, hchange.rank_mono ht.ok⟩

theorem tracked_run (hrun : Run s s') (ht : s.table.Tracked s.issued) :
    s'.table.Tracked s'.issued :=
  invariant_run (P := fun s : TableTrace => s.table.Tracked s.issued)
    (fun _ _ hst hs => (tracked_step hst hs).1) hrun ht

theorem rank_run (hrun : Run s s') (ht : s.table.Tracked s.issued) (i : Nat) :
    s.table.rank i ≤ s'.table.rank i := by
  refine relation_run (P := fun s : TableTrace => s.table.Tracked s.issued)
    (R := fun s s' : TableTrace => s.table.rank i ≤ s'.table.rank i)
    (fun _ _ hst hs => (tracked_step hst hs).1) (fun _ => le_rfl)
    (fun _ _ _ => le_trans) ?_ hrun ht
  intro s s' hs hst
  exact (tracked_step hst hs).2 i

/-- A handle that was given out and is not live any more has been passed by its slot. -/
theorem dead_run (hrun : Run s s') (ht : s.table.Tracked s.issued)
    (hissued : h ∈ s.issued) (hdead : s.table.entry h = none) : s'.table.entry h = none := by
  obtain ⟨index, g, hd, hle⟩ := ht.reached h hissued
  have hne : s.table.rank index ≠ 3 * g + 1 := by
    intro heq
    have hlive := (entry_isSome_iff ht.ok hd).mpr heq
    rw [hdead] at hlive
    cases hlive
  have hmono := rank_run hrun ht index
  cases he : s'.table.entry h with
  | none => rfl
  | some e =>
    have hrank := (entry_isSome_iff (tracked_run hrun ht).ok hd).mp (by rw [he]; rfl)
    omega

/-- What holds of a table at any moment of its life. -/
structure Lawful (s : TableTrace) : Prop where
  range : ∀ h ∈ s.issued, h ≠ 0 ∧ h < 2 ^ 28
  nodup : s.issued.Nodup
  live : s.table.liveCount = s.table.occupiedCount ∧ s.table.liveCount ≤ s.table.maxEntries
  scopes : ∀ scope, s.table.scopes scope = s.table.claims scope

/-- What one operation does: its errors change nothing but for a drop that reports the error of the
destructor, lent entries stay, a handle that is taken away is gone and one that is returned is new,
with the others as they were, a scope is cleared as a whole, and a handle that is not live is
refused. -/
structure LawfulOp (t : Table) (op : TableOp) (answer : Result (Option Nat)) (t' : Table) :
    Prop where
  error : ∀ status, answer = .error status → t' = t ∨ ∃ handle identity,
    op = .drop handle identity (some (.error status)) ∧ t' = t.remove handle ∧
      ∀ h', t'.entry h' = if h' = handle then none else t.entry h'
  lent : ∀ h e, t.entry h = some e → e.lendCount ≠ 0 → (t'.entry h).isSome
  removed : ∀ h returned, op.removes = some h → answer = .ok returned →
    ∀ h', t'.entry h' = if h' = h then none else t.entry h'
  allocated : ∀ h, answer = .ok (some h) → t.entry h = none ∧
    ∃ e, ∀ h', t'.entry h' = if h' = h then some e else t.entry h'
  cleared : ∀ scope returned, op = .scopeClear (some scope) → answer = .ok returned →
    ∀ h, t'.entry h = (t.entry h).filter fun e => !inScope scope e
  refused : ∀ h, op.handle = some h → t.entry h = none → ∃ status, answer = .error status

theorem Lawful.of_tracked (ht : s.table.Tracked s.issued) : s.Lawful where
  range h hh := by
    obtain ⟨index, g, hd, -⟩ := ht.reached h hh
    have hdec := handleDecode_eq_some.mp hd
    unfold maxSlots maxGeneration at hdec
    omega
  nodup := ht.nodup
  live := by
    refine ⟨ht.live, ?_⟩
    rw [ht.live]
    exact countP_le_length.trans ht.ok.size
  scopes := ht.counted.count

/-- The laws of one operation, on a table whose handles are tracked. -/
theorem LawfulOp.of_tracked {t : Table} {issued : List Nat} (ht : t.Tracked issued)
    (op : TableOp) : LawfulOp t op (t.apply op).1 (t.apply op).2 where
  error status h := by
    have hans := apply_answered ht.ok op
    generalize t.apply op = p at hans h
    cases hans with
    | refused => exact .inl rfl
    | done => cases h
    | destroyed hop he =>
      cases h
      exact .inr ⟨_, _, hop, rfl, entry_remove he⟩
  lent h e he hlent := by
    have hans := apply_answered ht.ok op
    generalize t.apply op = p at hans
    cases hans with
    | refused =>
      rw [he]
      rfl
    | done hchange => exact hchange.lent_stays ht.ok ht.lends he hlent
    | destroyed _ hx hl =>
      exact (Table.Change.removed hx fun _ => hl).lent_stays ht.ok ht.lends he hlent
  removed h returned hop hans h' := by
    have hhandle : op.handle = some h := by cases op <;> first | exact hop | cases hop
    obtain ⟨e, he, hremove⟩ := apply_found hhandle hans
    rw [hremove hop, entry_remove he]
  allocated h hans := by
    have hout := apply_answered ht.ok op
    generalize t.apply op = p at hout hans
    cases hout with
    | refused => cases hans
    | destroyed => cases hans
    | done hchange =>
      cases hans
      cases hchange with
      | allocated hfill halloc =>
        obtain ⟨g, hins, -⟩ := allocate_spec ht.ok (fun g => by rw [hfill]) (fun g => by rw [hfill])
          (fun g => by rw [hfill]) halloc
        exact ⟨hins.free, _, hins.entry⟩
  cleared scope returned hop hans h := by
    subst hop
    simp only [apply, TableM.ofOp, TableM.map_run, TableM.scopeClear_run] at hans ⊢
    cases hc : t.scopeClear scope with
    | error status =>
      rw [hc] at hans
      cases hans
    | ok t' => exact entry_scopeClear hc h
  refused h hop hdead := by
    cases hans : (t.apply op).1 with
    | error status => exact ⟨status, rfl⟩
    | ok returned =>
      obtain ⟨e, he, -⟩ := apply_found hop hans
      rw [hdead] at he
      cases he

/-- **The handle table over its whole life.**  Handles are in range and never repeat, the counters
count, operations behave as announced, and a handle that was removed stays dead for ever. -/
theorem table_handles_unique {maxEntries : Nat} {t₀ : Table}
    (h₀ : init maxEntries (fun _ => 0) = some t₀) {s : TableTrace} (hrun : Run ⟨t₀, []⟩ s) :
    s.Lawful ∧ (∀ op, LawfulOp s.table op (s.table.apply op).1 (s.table.apply op).2) ∧
    ∀ s', Run s s' → ∀ h ∈ s.issued, s.table.entry h = none → s'.table.entry h = none := by
  have ht : s.table.Tracked s.issued := tracked_run hrun (.init h₀)
  refine ⟨.of_tracked ht, .of_tracked ht, ?_⟩
  intro s' hrun' h hh hdead
  exact dead_run hrun' ht hh hdead

/-- A resource is created, lent and given back, dropped, and its slot is used again. -/
theorem table_handles_unique_reuse : ∃ t₀ s, Table.init 1 (fun _ => 0) = some t₀ ∧
    Run ⟨t₀, []⟩ s ∧ s.issued = [0x20001, 0x10001] ∧ s.Lawful ∧ s.table.entry 0x10001 = none := by
  let ops : List TableOp := [.newOwned 7 (.i32 5) true, .lendAcquire 0x10001 7,
    .drop 0x10001 7 none, .lendRelease 0x10001 7, .drop 0x10001 7 (some (.error .trapped)),
    .newOwned 7 (.i32 6) true]
  have hrun : ∃ t₀ s, init 1 (fun _ => 0) = some t₀ ∧ ops.foldlM act ⟨t₀, []⟩ = some s ∧
      s.issued = [0x20001, 0x10001] ∧ s.table.entry 0x10001 = none :=
    ⟨_, _, rfl, rfl, rfl, rfl⟩
  obtain ⟨t₀, s, h₀, hs, hissued, hdead⟩ := hrun
  exact ⟨t₀, s, h₀, run_of_actions hs, hissued, (table_handles_unique h₀ (run_of_actions hs)).1,
    hdead⟩

end TableTrace

end TurboWasm
