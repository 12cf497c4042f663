/-
# The handle table of a component instance

`src/component_resource.c`.  One table holds the resources, the waitables and the waitable sets of
an instance.  A handle is a slot and the generation of the slot; removing an entry advances the
generation, and a slot whose generation is used up is retired, so a handle never comes back to
life.

The array of entries is a list, `capacity` its length.  An entry that borrows points at a counter
of its borrow scope; the counters live outside the table in the source and are carried along here
(`scopes`), one natural number per scope.  The outcome of an allocation is an argument.

What the later modules use is the view of the table as a map from handles to entries
(`Table.entry`): an insertion adds one handle that was not there, a removal takes one away, an
update changes one entry, and nothing else moves.
-/
import Mathlib.Data.List.Nodup
import TurboWasm.Lib.Lists
import TurboWasm.Value

namespace TurboWasm

open Lib List Function

/-! ## 1. Entries and handles -/

/-- `turbowasm_component_handle_kind`; `TURBOWASM_COMPONENT_HANDLE_INVALID` is the kind of a handle
without an entry. -/
inductive HandleKind where
  | resource
  | waitableSet
  | subtask
  | streamRead
  | streamWrite
  | futureRead
  | futureWrite
  | reservation
  deriving DecidableEq, Repr

/-- `turbowasm_component_resource_entry`; objects and scopes are named by numbers. -/
structure TableEntry where
  kind : HandleKind := .resource
  object : Option Nat := none
  identity : Nat := 0
  rep : Value := .zero
  generation : Nat := 0
  lendCount : Nat := 0
  scope : Option Nat := none
  occupied : Bool := false
  retired : Bool := false
  owned : Bool := false
  deriving DecidableEq, Repr

/-- `turbowasm_component_resource_table`, with the counters that its entries point at. -/
structure Table where
  entries : List TableEntry
  liveCount : Nat
  maxEntries : Nat
  scopes : Nat → Nat

/-- `TURBOWASM_COMPONENT_RESOURCE_MAX_SLOTS`, also `TW_RESOURCE_SLOT_MASK`. -/
def maxSlots : Nat := 65535

/-- `TURBOWASM_COMPONENT_RESOURCE_MAX_GENERATION`. -/
def maxGeneration : Nat := 4095

/-- `TURBOWASM_COMPONENT_RESOURCE_MAX_HANDLE`. -/
def maxHandle : Nat := 0x0fffffff

/-- `handle_decode`: the index and the generation. -/
def handleDecode (handle : Nat) : Option (Nat × Nat) :=
  if handle = 0 ∨ maxHandle < handle then none
  else
    let slot := handle % 2 ^ 16
    let generation := handle / 2 ^ 16
    if slot = 0 ∨ generation = 0 ∨ maxGeneration < generation then none
    else some (slot - 1, generation)

/-- `handle_encode`; the two fields do not overlap, so the bitwise or is a sum. -/
def handleEncode (index generation : Nat) : Nat :=
  let slot := index + 1
  if maxSlots < slot ∨ generation = 0 ∨ maxGeneration < generation then 0
  else generation * 2 ^ 16 + slot

namespace Table

variable (t : Table) (handle identity : Nat)

/-- `turbowasm_component_resource_table_init` on a zeroed table. -/
def init (maxEntries : Nat) (scopes : Nat → Nat) : Option Table :=
  let maxEntries := if maxEntries = 0 then maxSlots else maxEntries
  if maxSlots < maxEntries then none
  else some { entries := [], liveCount := 0, maxEntries, scopes }

/-- `entry_get`. -/
def entry : Option TableEntry :=
  match handleDecode handle with
  | none => none
  | some (index, generation) =>
    match t.entries[index]? with
    | none => none
    | some e => if e.occupied ∧ e.generation = generation then some e else none

/-- `table_grow`: the capacity doubles up to the limit.  With at most `maxSlots` entries neither the
doubling nor the size in bytes can overflow. -/
def grow (allocated : Bool) : Option Table :=
  if t.maxEntries ≤ t.entries.length then none
  else
    let double := if t.entries.length = 0 then 8 else t.entries.length * 2
    let next := if t.maxEntries < double then t.maxEntries else double
    if allocated then
      some { t with entries := t.entries ++ List.replicate (next - t.entries.length) ({} : TableEntry) }
    else none

/-- The scan of `entry_allocate`. -/
def freeIndex : Option Nat := t.entries.findIdx? fun e => !e.occupied && !e.retired

/-- The `found:` part of `entry_allocate`; `fill` is what the caller writes into the entry. -/
def claim (index : Nat) (fill : TableEntry → TableEntry) : Result (Nat × Table) :=
  match t.entries[index]? with
  | none => .error .outOfMemory
  | some e =>
    let generation := if e.generation = 0 then 1 else e.generation
    let handle := handleEncode index generation
    if handle = 0 then .error .invalidArgument
    else .ok (handle, { t with
      entries := t.entries.set index (fill { e with generation, occupied := true })
      liveCount := t.liveCount + 1 })

/-- `entry_allocate` and the writes of its caller.  The scan is repeated after the table grew. -/
def allocate (allocated : Bool) (fill : TableEntry → TableEntry) : Result (Nat × Table) :=
  if t.maxEntries = 0 then .error .invalidArgument
  else
    match t.freeIndex with
    | some index => t.claim index fill
    | none =>
      match t.grow allocated with
      | none => .error .outOfMemory
      | some t' =>
        match t'.freeIndex with
        | some index => t'.claim index fill
        | none => .error .outOfMemory

/-- `turbowasm_component_handle_insert`. -/
def handleInsert (kind : HandleKind) (object : Nat) (allocated : Bool) :
    Result (Nat × Table) :=
  if kind = .resource then .error .invalidArgument
  else t.allocate allocated fun e => { e with kind, object := some object }

/-- `resource_new`. -/
def resourceNew (rep : Value) (owned allocated : Bool) : Result (Nat × Table) :=
  if identity = 0 then .error .invalidArgument
  else t.allocate allocated fun e => { e with kind := .resource, identity, rep, owned }

/-- Writes through the pointer that `entry_get` returned. -/
def update (f : TableEntry → TableEntry) : Table :=
  match handleDecode handle with
  | none => t
  | some (index, _) => { t with entries := t.entries.modify index f }

/-- What `resource_entry_remove` leaves of an entry. -/
def cleared (e : TableEntry) : TableEntry :=
  { generation := if e.generation = maxGeneration then e.generation else e.generation + 1
    retired := if e.generation = maxGeneration then true else e.retired }

/-- `--*scope`, the counter being a `uint32_t`. -/
def releaseScope (scopes : Nat → Nat) : Option Nat → Nat → Nat
  | none => scopes
  | some s => Function.update scopes s ((scopes s + uint32Max) % (uint32Max + 1))

/-- `resource_entry_remove` of the entry of a handle. -/
def remove : Table :=
  match t.entry handle with
  | none => t
  | some e => { t.update handle cleared with
      liveCount := t.liveCount - 1
      scopes := releaseScope t.scopes e.scope }

/-- `turbowasm_component_handle_kind_get`. -/
def kindGet : Option HandleKind := (t.entry handle).map (·.kind)

/-- `turbowasm_component_handle_object`. -/
def handleObject (kind : HandleKind) : Option Nat :=
  match t.entry handle with
  | none => none
  | some e => if e.kind ≠ kind ∨ kind = .resource then none else e.object

/-- `turbowasm_component_handle_remove`: the object and the table without it. -/
def handleRemove (kind : HandleKind) : Result (Option Nat × Table) :=
  if kind = .resource then .error .invalidArgument
  else
    match t.entry handle with
    | none => .error .trapped
    | some e => if e.kind ≠ kind then .error .trapped else .ok (e.object, t.remove handle)

/-! ## 2. The operations on resources -/

/-- `rep.kind` is `TURBOWASM_VALUE_I32` or `TURBOWASM_VALUE_I64`. -/
def validRep : Value → Bool
  | .i32 _ => true
  | .i64 _ => true
  | _ => false

/-- `turbowasm_component_resource_publish`. -/
def publish (reservation identity : Nat) (rep : Value) : Result Table :=
  if identity = 0 ∨ validRep rep = false then .error .invalidArgument
  else
    match t.entry handle with
    | none => .error .trapped
    | some e =>
      if e.kind ≠ .reservation ∨ e.object ≠ some reservation then .error .trapped
      else .ok (t.update handle fun e =>
        { e with kind := .resource, object := none, identity, rep, owned := true })

/-- `turbowasm_component_resource_publish_borrowed`. -/
def publishBorrowed (reservation identity : Nat) (rep : Value) (scope : Nat) :
    Result Table :=
  if t.scopes scope = uint32Max then .error .outOfMemory
  else do
    let t ← t.publish handle reservation identity rep
    .ok { t.update handle (fun e => { e with owned := false, scope := some scope }) with
      scopes := Function.update t.scopes scope (t.scopes scope + 1) }

/-- The entry of a resource of the expected identity, as the operations below look it up. -/
def resource (t : Table) (handle identity : Nat) : Result TableEntry :=
  if identity = 0 then .error .invalidArgument
  else
    match t.entry handle with
    | none => .error .trapped
    | some e =>
      if e.kind ≠ .resource ∨ e.identity ≠ identity then .error .trapped else .ok e

/-- `turbowasm_component_resource_rep`. -/
def resourceRep : Result Value := do
  let e ← t.resource handle identity
  .ok e.rep

/-- `turbowasm_component_resource_lend_acquire`. -/
def lendAcquire : Result Table := do
  let e ← t.resource handle identity
  failIf (e.lendCount = uint32Max) .trapped
  .ok (t.update handle fun e => { e with lendCount := e.lendCount + 1 })

/-- `turbowasm_component_resource_lend_release`. -/
def lendRelease : Result Table := do
  let e ← t.resource handle identity
  failIf (e.lendCount = 0) .trapped
  .ok (t.update handle fun e => { e with lendCount := e.lendCount - 1 })

/-- `turbowasm_component_resource_take_owned`. -/
def takeOwned : Result (Value × Table) := do
  let e ← t.resource handle identity
  failIf (!e.owned) .trapped
  failIf (e.lendCount ≠ 0) .trapped
  .ok (e.rep, t.remove handle)

/-- `turbowasm_component_resource_drop` up to the call of the destructor: the representation that
the destructor receives, `none` for a borrowed handle. -/
def resourceDrop : Result (Option Value × Table) := do
  let e ← t.resource handle identity
  failIf (e.lendCount ≠ 0) .trapped
  failIf (match e.scope with | some s => t.scopes s = 0 | none => false) .trapped
  .ok (if e.owned then some e.rep else none, t.remove handle)

/-- An entry that claims the counter of the scope. -/
def inScope (scope : Nat) (e : TableEntry) : Bool := e.occupied && e.scope == some scope

/-- `turbowasm_component_resource_scope_clear`. -/
def scopeClear (scope : Nat) : Result Table :=
  let claims := t.entries.filter (inScope scope)
  if claims.any fun e => e.kind ≠ .resource || e.owned || e.lendCount ≠ 0 then .error .trapped
  else if t.scopes scope < claims.length then .error .trapped
  else .ok { t with
    entries := t.entries.map fun e => if inScope scope e then cleared e else e
    liveCount := t.liveCount - claims.length
    scopes := Function.update t.scopes scope (t.scopes scope - claims.length) }

/-! ## 3. Tables that the operations build -/

/-- What holds of every table: free entries are clean and generations are in range. -/
structure Ok (t : Table) : Prop where
  size : t.entries.length ≤ t.maxEntries
  bound : t.maxEntries ≤ maxSlots
  generation : ∀ e ∈ t.entries, e.generation ≤ maxGeneration
  started : ∀ e ∈ t.entries, e.occupied → e.generation ≠ 0
  clean : ∀ e ∈ t.entries, e.occupied = false →
    e = { generation := e.generation, retired := e.retired }
  inService : ∀ e ∈ t.entries, e.occupied → e.retired = false

variable {maxEntries : Nat} {scopes : Nat → Nat} {t : Table}

theorem init_spec
    (h : Table.init maxEntries scopes = some t) : t.entries = [] ∧ t.scopes = scopes := by
  unfold Table.init at h
  obtain ⟨_, h⟩ := ite_none_pass h
  cases h
  exact ⟨rfl, rfl⟩

theorem Ok.init (h : Table.init maxEntries scopes = some t) : t.Ok := by
  unfold Table.init at h
  obtain ⟨hle, h⟩ := ite_none_pass h
  cases h
  exact ⟨Nat.zero_le _, Nat.le_of_not_lt hle, by simp, by simp, by simp, by simp⟩

end Table

variable {index generation : Nat}

theorem handleDecode_eq_some : handleDecode handle = some (index, generation) ↔
      handle = generation * 2 ^ 16 + (index + 1) ∧ index < maxSlots ∧ 0 < generation ∧
        generation ≤ maxGeneration := by
  unfold handleDecode maxHandle maxSlots maxGeneration
  constructor
  · intro h
    obtain ⟨hr, h⟩ := ite_none_pass h
    obtain ⟨hs, h⟩ := ite_none_pass h
    simp only [Option.some.injEq, Prod.mk.injEq] at h
    omega
  rintro ⟨rfl, hi, hg, hgm⟩
  have hmod : (generation * 2 ^ 16 + (index + 1)) % 2 ^ 16 = index + 1 := by omega
  have hdiv : (generation * 2 ^ 16 + (index + 1)) / 2 ^ 16 = generation := by omega
  rw [if_neg (by omega)]
  simp only [hmod, hdiv]
  rw [if_neg (by omega)]
  simp

/-- Handles that are decoded are in the range of handles. -/
theorem handleDecode_range (h : handleDecode handle = some (index, generation)) :
    handle ≠ 0 ∧ handle ≤ maxHandle := by
  have := handleDecode_eq_some.mp h
  unfold maxSlots maxGeneration at this
  unfold maxHandle
  omega

/-- A handle that was encoded is decoded. -/
theorem handleEncode_spec (h : handleEncode index generation ≠ 0) :
    handleDecode (handleEncode index generation) = some (index, generation) := by
  unfold handleEncode at h ⊢
  simp only at h ⊢
  split at h
  · exact absurd rfl h
  · rename_i hr
    rw [if_neg hr]
    exact handleDecode_eq_some.mpr ⟨rfl, by omega⟩

namespace Table

variable {t t' : Table} {handle : Nat} {e : TableEntry}
  {g object : Nat} {f fill : TableEntry → TableEntry} {x : TableEntry}

/-- The entry of a handle is the occupied one of its slot and generation. -/
theorem entry_eq_some : t.entry handle = some e ↔
    ∃ index, handleDecode handle = some (index, e.generation) ∧ t.entries[index]? = some e ∧
      e.occupied := by
  unfold entry
  constructor
  · intro h
    split at h
    · cases h
    rename_i index generation hd
    split at h
    · cases h
    rename_i e' he
    rcases ite_cases h with ⟨⟨ho, hg⟩, h⟩ | ⟨_, h⟩
    · cases h
      exact ⟨index, hg ▸ hd, he, ho⟩
    · cases h
  · rintro ⟨index, hd, he, ho⟩
    simp [hd, he, ho]

theorem entry_occupied (h : t.entry handle = some e) : e.occupied :=
  (entry_eq_some.mp h).choose_spec.2.2

/-- Live handles are in the range of handles. -/
theorem entry_range (h : t.entry handle = some e) : handle ≠ 0 ∧ handle ≤ maxHandle := by
  obtain ⟨index, hd, -⟩ := entry_eq_some.mp h
  exact handleDecode_range hd

/-! ## 4. The table as a map of handles -/

/-- Replacing the entry of a slot changes what its handle finds: the handles of the slot's other
generations find nothing before and after. -/
theorem entry_put {old new : TableEntry} (hd : handleDecode handle = some (index, g))
    (hold : t.entries[index]? = some old) (hog : old.occupied → old.generation = g)
    (hng : new.occupied → new.generation = g) {live : Nat} {scopes : Nat → Nat}
    (handle' : Nat) :
    Table.entry { t with entries := t.entries.set index new, liveCount := live, scopes } handle' =
      if handle' = handle then (if new.occupied then some new else none) else t.entry handle' := by
  by_cases hh : handle' = handle
  · subst hh
    simp only [entry, hd, getElem?_set_of hold]
    by_cases ho : new.occupied <;> simp [ho, hng]
  rw [if_neg hh]
  cases hd' : handleDecode handle' with
  | none => simp [entry, hd']
  | some p =>
    obtain ⟨i, g'⟩ := p
    simp only [entry, hd', getElem?_set_of hold]
    by_cases hi : i = index
    · subst hi
      have hne : g ≠ g' := by
        rintro rfl
        apply hh
        rw [(handleDecode_eq_some.mp hd).1, (handleDecode_eq_some.mp hd').1]
      have hnone : ∀ {e : TableEntry}, (e.occupied → e.generation = g) →
          ¬ (e.occupied ∧ e.generation = g') := by
        rintro e he ⟨ho, hg'⟩
        exact hne ((he ho).symm.trans hg')
      simp [hold, hnone hog, hnone hng]
    · simp [hi]

theorem update_eq (hd : handleDecode handle = some (index, g))
    (he : t.entries[index]? = some e) (f : TableEntry → TableEntry) :
    t.update handle f = { t with entries := t.entries.set index (f e) } := by
  simp [update, hd, modify_eq_set_getElem?, he]

/-- An update that keeps the slot occupied and its generation. -/
theorem entry_update (h : t.entry handle = some e)
    (ho : (f e).occupied) (hg : (f e).generation = e.generation) (handle' : Nat) :
    (t.update handle f).entry handle' =
      if handle' = handle then some (f e) else t.entry handle' := by
  obtain ⟨index, hd, he, -⟩ := entry_eq_some.mp h
  rw [update_eq hd he, entry_put hd he (fun _ => rfl) fun _ => hg, if_pos ho]

@[simp] theorem cleared_occupied (e : TableEntry) : (cleared e).occupied = false := rfl

/-- Removing a handle takes that handle away. -/
theorem entry_remove (h : t.entry handle = some e) (handle' : Nat) :
    (t.remove handle).entry handle' = if handle' = handle then none else t.entry handle' := by
  obtain ⟨index, hd, he, -⟩ := entry_eq_some.mp h
  unfold remove
  simp only [h, update_eq hd he]
  exact entry_put hd he (fun _ => rfl) (fun ho => by cases ho) handle'

theorem freeIndex_eq_some (h : t.freeIndex = some index) :
    ∃ e, t.entries[index]? = some e ∧ e.occupied = false ∧ e.retired = false := by
  obtain ⟨hi, hfree, -⟩ := findIdx?_eq_some_iff_getElem.mp h
  exact ⟨t.entries[index], getElem?_eq_getElem hi, by simpa using hfree⟩

/-- Growing adds free entries at the end. -/
theorem grow_spec (h : t.grow allocated = some t') :
    (∃ n, t'.entries = t.entries ++ List.replicate n
    ({} : TableEntry)) ∧ t'.entries.length ≤ t'.maxEntries ∧
      t'.maxEntries = t.maxEntries ∧ t'.scopes = t.scopes ∧ t'.liveCount = t.liveCount := by
  obtain ⟨hlt, h⟩ := ite_none_pass h
  rcases ite_cases h with ⟨_, h⟩ | ⟨_, h⟩
  · cases h
    refine ⟨⟨_, rfl⟩, ?_, rfl, rfl, rfl⟩
    simp only [length_append, length_replicate]
    generalize (if t.entries.length = 0 then 8 else t.entries.length * 2) = double
    split <;> omega
  · cases h

theorem entry_grow (h : t.grow allocated = some t') (handle : Nat) :
    t'.entry handle = t.entry handle := by
  obtain ⟨⟨n, hn⟩, -⟩ := grow_spec h
  unfold entry
  cases hd : handleDecode handle with
  | none => rfl
  | some p =>
    obtain ⟨i, g⟩ := p
    simp only [hn]
    by_cases hi : i < t.entries.length
    · rw [getElem?_append_left hi]
    rw [getElem?_append_right (Nat.le_of_not_lt hi),
      getElem?_eq_none (Nat.le_of_not_lt hi), getElem?_replicate]
    split
    · rfl
    · rename_i e' he'
      rcases ite_cases he' with ⟨_, he'⟩ | ⟨_, he'⟩
      · cases he'
        simp
      · cases he'

/-- What holds of every entry. -/
structure EntryOk (e : TableEntry) : Prop where
  generation : e.generation ≤ maxGeneration
  live : e.occupied → e.generation ≠ 0 ∧ e.retired = false
  clean : e.occupied = false → e = { generation := e.generation, retired := e.retired }

theorem Ok.entryOk (ok : t.Ok) (h : e ∈ t.entries) : EntryOk e :=
  ⟨ok.generation e h, fun ho => ⟨ok.started e h ho, ok.inService e h ho⟩, ok.clean e h⟩

/-- The entries of `t'` are those of `t` and good ones. -/
theorem Ok.of_entries (ok : t.Ok) (hmem : ∀ e ∈ t'.entries, e ∈ t.entries ∨ EntryOk e)
    (hsize : t'.entries.length ≤ t'.maxEntries) (hmax : t'.maxEntries = t.maxEntries) : t'.Ok := by
  have hall : ∀ e ∈ t'.entries, EntryOk e := fun e he => (hmem e he).elim ok.entryOk id
  exact ⟨hsize, hmax ▸ ok.bound, fun e he => (hall e he).generation,
    fun e he ho => ((hall e he).live ho).1, fun e he => (hall e he).clean,
    fun e he ho => ((hall e he).live ho).2⟩

theorem EntryOk.cleared (h : EntryOk e) : EntryOk (cleared e) := by
  refine ⟨?_, fun ho => (by cases ho), fun _ => rfl⟩
  have := h.generation
  unfold Table.cleared
  simp only
  split <;> omega

theorem Ok.grow (ok : t.Ok) (h : t.grow allocated = some t') : t'.Ok := by
  obtain ⟨⟨n, hn⟩, hlen, hmax, -⟩ := grow_spec h
  refine ok.of_entries (fun e he => ?_) hlen hmax
  rw [hn, mem_append, mem_replicate] at he
  refine he.imp_right ?_
  rintro ⟨-, rfl⟩
  exact ⟨Nat.zero_le _, fun ho => (by cases ho), fun _ => rfl⟩

/-- A table with one entry replaced. -/
theorem Ok.put (ok : t.Ok) (hx : EntryOk x) {live : Nat} {scopes : Nat → Nat} :
    Ok { t with entries := t.entries.set index x, liveCount := live, scopes } := by
  refine ok.of_entries (fun e he => ?_) (by simpa using ok.size) rfl
  rcases mem_or_eq_of_mem_set he with he | rfl
  · exact .inl he
  · exact .inr hx

/-- The entry that an insertion makes: the slot's generation and what the caller wrote. -/
def fresh (generation : Nat) : TableEntry := { generation, occupied := true }

/-- **An insertion adds one handle.** -/
structure Inserted (t : Table) (handle : Nat) (e : TableEntry) (t' : Table) : Prop where
  free : t.entry handle = none
  entry : ∀ handle', t'.entry handle' = if handle' = handle then some e else t.entry handle'
  range : handle ≠ 0 ∧ handle ≤ maxHandle
  scopes : t'.scopes = t.scopes
  limit : t'.maxEntries = t.maxEntries

/-- A free entry is clean, so nothing of an earlier use is left in it. -/
theorem claim_spec (ok : t.Ok) (hfree : t.freeIndex = some index)
    (h : t.claim index fill = .ok (handle, t')) :
    ∃ e g, t.entries[index]? = some e ∧ e.occupied = false ∧ e.retired = false ∧
      e.generation ≤ g ∧ handleDecode handle = some (index, g) ∧ t' = { t with
        entries := t.entries.set index (fill (fresh g)), liveCount := t.liveCount + 1 } := by
  obtain ⟨e, he, hocc, hret⟩ := freeIndex_eq_some hfree
  have hclean := ok.clean e (mem_of_getElem? he) hocc
  unfold claim at h
  simp only [he] at h
  obtain ⟨hne, h⟩ := ite_error_pass h
  obtain ⟨rfl, rfl⟩ := h
  refine ⟨e, _, he, hocc, hret, ?_, handleEncode_spec hne, ?_⟩
  · split <;> omega
  · rw [hclean, hret]
    rfl

/-- The slot is free at once, or after the table grew. -/
theorem allocate_cases (h : t.allocate allocated fill = .ok (handle, t')) :
    ∃ u index, (u = t ∨ t.grow allocated = some u) ∧ u.freeIndex = some index ∧
      u.claim index fill = .ok (handle, t') := by
  obtain ⟨_, h⟩ := ite_error_pass h
  split at h
  · exact ⟨t, _, .inl rfl, ‹_›, h⟩
  split at h
  · cases h
  split at h
  · exact ⟨_, _, .inr ‹_›, ‹_›, h⟩
  · cases h

theorem allocate_spec (ok : t.Ok)
    (ho : ∀ g, (fill (fresh g)).occupied) (hg : ∀ g, (fill (fresh g)).generation = g)
    (hr : ∀ g, (fill (fresh g)).retired = false)
    (h : t.allocate allocated fill = .ok (handle, t')) :
    ∃ g, t.Inserted handle (fill (fresh g)) t' ∧ t'.Ok := by
  obtain ⟨u, index, hu, hfree, h⟩ := allocate_cases h
  obtain ⟨uok, hent, hsc, hmax⟩ : u.Ok ∧ (∀ handle, u.entry handle = t.entry handle) ∧
      u.scopes = t.scopes ∧ u.maxEntries = t.maxEntries := by
    rcases hu with rfl | hu
    · exact ⟨ok, fun _ => rfl, rfl, rfl⟩
    · obtain ⟨-, -, hmax, hsc, -⟩ := grow_spec hu
      exact ⟨ok.grow hu, entry_grow hu, hsc, hmax⟩
  obtain ⟨e, g, he, hocc, -, -, hd, rfl⟩ := claim_spec uok hfree h
  obtain ⟨-, -, hpos, hgen⟩ := handleDecode_eq_some.mp hd
  refine ⟨g, ⟨?_, fun handle' => ?_, handleDecode_range hd, hsc, hmax⟩, uok.put ⟨?_, ?_, ?_⟩⟩
  · rw [← hent]
    simp [Table.entry, hd, he, hocc]
  · rw [entry_put hd he (fun h => by rw [hocc] at h; cases h) fun _ => hg g, if_pos (ho g), hent]
  · rwa [hg]
  · rw [hg]
    exact fun _ => ⟨pos_iff_ne_zero.mp hpos, hr g⟩
  · intro hoc
    rw [ho] at hoc
    cases hoc

theorem handleInsert_spec (ok : t.Ok)
    (h : t.handleInsert kind object allocated = .ok (handle, t')) :
    ∃ g, t.Inserted handle { fresh g with kind, object := some object } t' ∧ t'.Ok := by
  obtain ⟨_, h⟩ := ite_error_pass h
  have spec := allocate_spec ok (fun _ => rfl) (fun _ => rfl) (fun _ => rfl) h
  exact spec

theorem Ok.update (ok : t.Ok) (h : t.entry handle = some e)
    (ho : (f e).occupied) (hg : (f e).generation = e.generation)
    (hr : (f e).retired = e.retired) : (t.update handle f).Ok := by
  obtain ⟨index, hd, he, hocc⟩ := entry_eq_some.mp h
  have hold := ok.entryOk (mem_of_getElem? he)
  rw [update_eq hd he]
  refine ok.put ⟨hg ▸ hold.generation, fun _ => ?_, fun hoc => ?_⟩
  · rw [hg, hr]
    exact hold.live hocc
  · rw [ho] at hoc
    cases hoc

theorem Ok.remove (ok : t.Ok) (handle : Nat) : (t.remove handle).Ok := by
  unfold Table.remove
  cases h : t.entry handle with
  | none => exact ok
  | some e =>
    obtain ⟨index, hd, he, -⟩ := entry_eq_some.mp h
    simp only [update_eq hd he]
    exact ok.put (ok.entryOk (mem_of_getElem? he)).cleared

theorem handleRemove_spec {object : Option Nat}
    (h : t.handleRemove handle kind = .ok (object, t')) :
    ∃ e, t.entry handle = some e ∧ e.kind = kind ∧ e.object = object ∧ kind ≠ .resource ∧
      t' = t.remove handle := by
  obtain ⟨hk, h⟩ := ite_error_pass h
  split at h
  · cases h
  rename_i e he
  obtain ⟨hkind, h⟩ := ite_error_pass h
  simp only [Except.ok.injEq, Prod.mk.injEq] at h
  exact ⟨e, he, not_not.mp hkind, h.1, hk, h.2.symm⟩

theorem handleObject_eq_some : t.handleObject handle kind = some object ↔
      ∃ e, t.entry handle = some e ∧ e.kind = kind ∧ kind ≠ .resource ∧ e.object = some object := by
  unfold handleObject
  cases h : t.entry handle with
  | none => simp
  | some e =>
    simp only [Option.some.injEq, exists_eq_left']
    constructor
    · intro h
      obtain ⟨hk, h⟩ := ite_none_pass h
      exact ⟨not_not.mp fun hh => hk (.inl hh), fun hh => hk (.inr hh), h⟩
    · rintro ⟨rfl, hk, h⟩
      simp [hk, h]

end Table

end TurboWasm
