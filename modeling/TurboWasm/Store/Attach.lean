/-
# Attaching an instance

`turbowasm_store_attach` gives an instance type metadata that outlives its module.  It first looks
for a retained type array equal to the module's, record by record; otherwise it clones the module's
array into the store and then, group by group, takes over the canonical pointers of an equal group
that the store already had.

Type equality is the fuelled comparison of `Types/Equal.lean`; `none` is a comparison that did not
end.
-/
import TurboWasm.Store.Model
import TurboWasm.Types.Read

namespace TurboWasm

/-! ## 1. Cloning types -/

/-- The loop of `turbowasm_validation_types_size`. -/
def typesSizeLoop (L : Layout) : Nat → List FuncType → Option Nat
  | total, [] => if L.sizeMax < total then none else some total
  | total, t :: ts =>
    let bytes := (t.params.length + t.results.length) * (L.valueType + 1) +
      t.fields.length * L.field
    if L.sizeMax < bytes ∨ L.sizeMax - bytes < total then none
    else typesSizeLoop L (total + bytes) ts

/-- `turbowasm_validation_types_size`. -/
def typesSize (L : Layout) (types : List FuncType) : Option Nat :=
  typesSizeLoop L (types.length * L.funcType) types

/-- The copy of record `i` in an array at `addr`, before it is finalized. -/
def cloneType (addr i : Nat) (t : FuncType) : FuncType where
  defined := true
  params := t.params
  results := t.results
  kind := t.kind
  fields := t.fields
  finalType := t.finalType
  superIndex := t.superIndex
  super := if t.superIndex = uint32Max then none else some ⟨addr, t.superIndex⟩
  group := some ⟨addr, i - t.groupOffset⟩
  groupCount := t.groupCount
  groupOffset := t.groupOffset
  dependencyDepth := 0
  canonical := some ⟨addr, i⟩

/-- `turbowasm_validation_clone_types`, into an array at `addr`. -/
def cloneTypes (H : TypeHeap) (addr : Nat) (types : List FuncType) : Result TypeCtx :=
  typesFinalize H ⟨addr, types.mapIdx (cloneType addr)⟩

/-! ## 2. Sharing types -/

/-- The array at `entry` has the types of the one at `source`, record by record. -/
def sameTypes (H : TypeHeap) (fuel source entry : Nat) : Option Bool :=
  if (H entry).length ≠ (H source).length then some false
  else allShort (fun i => definedTypeEqual H fuel ⟨source, i⟩ ⟨entry, i⟩)
    (List.range (H source).length)

/-- The first retained array that has the types of `source`. -/
def findEntry (H : TypeHeap) (fuel source : Nat) : List Nat → Option (Option Nat)
  | [] => some none
  | entry :: rest =>
    match sameTypes H fuel source entry with
    | none => none
    | some true => some (some entry)
    | some false => findEntry H fuel source rest

/-- The first group of the array at `prior` that is equal to the group at `p`, from record `j`
on. -/
def findGroup (H : TypeHeap) (fuel : Nat) (p : TypePtr) (prior : Nat) :
    Nat → Nat → Option (Option Nat)
  | 0, _ => some none
  | rounds + 1, j =>
    match (H prior)[j]? with
    | none => some none
    | some t =>
      match definedTypeEqual H fuel p ⟨prior, j⟩ with
      | none => none
      | some true => some (some j)
      | some false => findGroup H fuel p prior rounds (j + t.groupCount)

/-- The first of the arrays `priors` with a group equal to the one at `p`. -/
def findPrior (H : TypeHeap) (fuel : Nat) (p : TypePtr) : List Nat → Option (Option (Nat × Nat))
  | [] => some none
  | prior :: rest =>
    match findGroup H fuel p prior (H prior).length 0 with
    | none => none
    | some (some j) => some (some (prior, j))
    | some none => findPrior H fuel p rest

/-- `entry[i + k].canonical = prior[j + k].canonical`, for all `k < count`. -/
def copyCanonical (H : TypeHeap) (entry i count prior j : Nat) : TypeHeap :=
  H.put entry ((H entry).mapIdx fun k t =>
    if i ≤ k ∧ k < i + count then
      match (H prior)[j + (k - i)]? with
      | some u => { t with canonical := u.canonical }
      | none => t
    else t)

/-- The group loop over the new array. -/
def canonicalize (fuel entry : Nat) (priors : List Nat) : Nat → Nat → TypeHeap → Option TypeHeap
  | 0, _, H => some H
  | rounds + 1, i, H =>
    match (H entry)[i]? with
    | none => some H
    | some t =>
      match findPrior H fuel ⟨entry, i⟩ priors with
      | none => none
      | some none => canonicalize fuel entry priors rounds (i + t.groupCount) H
      | some (some (prior, j)) =>
        canonicalize fuel entry priors rounds (i + t.groupCount)
          (copyCanonical H entry i t.groupCount prior j)

/-! ## 3. The operation -/

/-- The tail of `turbowasm_store_attach`: link the instance. -/
def linkInstance (s : Store) (inst : Nat) : Store := { s with instances := inst :: s.instances }

/-- A new entry for the types of `source`, at the address `fresh`. -/
def newEntry (L : Layout) (H : TypeHeap) (s : Store) (source fresh : Nat) (allocated : Bool) :
    Option (Result Unit × Store × TypeHeap) := do
  let bytesLeft ← s.bytesLeft
  match typesSize L (H source) with
  | none => return (.error .outOfMemory, s, H)
  | some bytes =>
    if L.sizeMax - L.entry < bytes ∨ bytesLeft < bytes + L.entry ∨ !allocated then
      return (.error .outOfMemory, s, H)
    else
      match cloneTypes H fresh (H source) with
      | .error status => return (.error status, s, H)
      | .ok ctx =>
        let mem ← canonicalize ((H source).length + 1) fresh s.types ctx.types.length 0
          (H.put fresh ctx.types)
        return (.ok (), { s with
          types := fresh :: s.types
          stats := { s.stats with bytes := s.stats.bytes + (bytes + L.entry) } }, mem)

/-- `turbowasm_store_attach` for the instance `inst` of the module whose types are at `source`.
`fresh` is where a new entry would be allocated; `allocated` says whether that succeeds.  The answer
is the address of the types that the instance uses. -/
def storeAttach (L : Layout) (H : TypeHeap) (s : Store) (thread inst source fresh : Nat)
    (allocated : Bool) : Option (Result Nat × Store × TypeHeap) := do
  if !s.isOwner thread then return (.error .invalidArgument, s, H)
  else
    match ← findEntry H ((H source).length + 1) source s.types with
    | some entry => return (.ok entry, linkInstance s inst, H)
    | none =>
      match ← newEntry L H s source fresh allocated with
      | (.error status, s, H) => return (.error status, s, H)
      | (.ok (), s, H) => return (.ok fresh, linkInstance s inst, H)

/-- `turbowasm_store_detach`, for an attached instance. -/
def storeDetach (s : Store) (inst : Nat) : Store := { s with instances := s.instances.erase inst }

end TurboWasm
