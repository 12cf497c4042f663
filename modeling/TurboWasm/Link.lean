/-
# Linking

`link.c`: a linker names instances and host functions, and `turbowasm_linker_bind_instance` gives
every import of a module an export of a named instance or a host function.  An import of the
provider that is exported again is followed to the instance that defines it.

Against the matching of external types (`ExternLe`) the links between instances are sound, through
any chain of exports (`bindInstance_sound`).  A host function is compared by the carriers of its
type only, and its type need not match (`hostFunction_mismatch`); `turbowasm_exec_host_function`
checks the values of each call instead.

All allocations are taken to succeed.
-/
import TurboWasm.Validate.Consistent

namespace TurboWasm

open TurboWasm.Lib List Option Bool

/-! ## 1. Instances and linkers -/

/-- An item of an instance. -/
structure ItemPtr where
  inst : Nat
  index : Nat
  deriving DecidableEq, Repr

/-- `turbowasm_linker_host_function`; `function` stands for the function and its context.  A kind is
a byte: the one that is not is refused. -/
structure HostFunction where
  moduleName : List UInt8
  name : List UInt8
  params : List UInt8
  results : List UInt8
  function : Nat
  deriving DecidableEq, Repr

/-- A filled record of `linked_functions`, `linked_tables` and so on. -/
inductive Binding where
  | item (p : ItemPtr)
  | host (f : HostFunction)
  deriving DecidableEq, Repr

/-- The linked records of an instance, by kind and index; a zeroed record, and one past the end, is
`none`. -/
abbrev Links := ExternalKind → Nat → Option Binding

/-- What linking uses of an instance. -/
structure LinkInstance where
  store : Option Nat
  ctx : ValidationContext
  links : Links

/-- The instances, oldest first. -/
abbrev LinkWorld := List LinkInstance

/-- `turbowasm_instance_limits`: the size of a memory or table, and its maximum. -/
structure InstanceLimits where
  minimum : Nat
  maximum : Nat
  hasMaximum : Bool
  deriving DecidableEq, Repr

/-- The sizes of all memories and tables at one moment. -/
abbrev Sizes := ExternalKind → ItemPtr → InstanceLimits

/-- `turbowasm_linker_impl`. -/
structure Linker where
  entries : List (List UInt8 × Nat)
  hosts : List HostFunction

/-- `turbowasm_linker_define_instance`. -/
def Linker.defineInstance (L : Linker) (name : List UInt8) (inst : Nat) :
    Result Linker := do
  failIf (L.entries.any (·.1 == name)) .linkError
  failIf (L.hosts.any (·.moduleName == name)) .linkError
  failIf (L.entries.length == uint32Max) .outOfMemory
  return { L with entries := L.entries ++ [(name, inst)] }

/-- `turbowasm_host_value_kind_valid`. -/
def hostValueKindValid (kind : UInt8) : Bool :=
  kind ∈ numCarriers || kind == 0x70 || kind == 0x6f || kind == 0x69

/-- `turbowasm_linker_define_host_function`. -/
def Linker.defineHostFunction (L : Linker) (f : HostFunction) : Result Linker := do
  failIf (uint32Max < f.params.length || uint32Max < f.results.length) .invalidArgument
  failIf (!f.params.all hostValueKindValid || !f.results.all hostValueKindValid) .invalidArgument
  failIf (L.entries.any (·.1 == f.moduleName)) .linkError
  failIf (L.hosts.any fun g => g.moduleName == f.moduleName && g.name == f.name) .linkError
  failIf (L.hosts.length == uint32Max) .outOfMemory
  return { L with hosts := L.hosts ++ [f] }

/-! ## 2. Following links -/

/-- Where an item is: in the instance that defines it, or in the one that imports it from the
host. -/
inductive Target where
  | item (p : ItemPtr)
  | host (p : ItemPtr) (f : HostFunction)
  deriving DecidableEq, Repr

/-- The instance and index of a target. -/
def Target.place : Target → ItemPtr
  | .item p => p
  | .host p _ => p

/-- `turbowasm_instance_memory_resolve` and `turbowasm_instance_table_resolve`, and what calls and
globals do, through at most `fuel` instances. -/
def resolve (w : LinkWorld) (k : ExternalKind) : Nat → ItemPtr → Option Target
  | 0, _ => none
  | fuel + 1, p =>
    match w[p.inst]? with
    | none => none
    | some x =>
      match (x.ctx.profile.items k)[p.index]?, x.links k p.index with
      | some false, _ => some (.item p)
      | some true, some (.item q) => resolve w k fuel q
      | some true, some (.host f) => some (.host p f)
      | _, _ => none

section Binding

variable (H : TypeHeap) (w : LinkWorld) (sizes : Sizes) (L : Linker) (x : LinkInstance)

/-- `turbowasm_instance_memory_limits` and `turbowasm_instance_table_limits`. -/
def itemLimits (k : ExternalKind) (p : ItemPtr) : Option InstanceLimits :=
  match resolve w k w.length p with
  | some (.item q) => some (sizes k q)
  | _ => none

/-- `turbowasm_instance_tag_identity`. -/
def tagIdentity (p : ItemPtr) : Option ItemPtr :=
  w[p.inst]?.bind fun x =>
    match (x.ctx.profile.items .tag)[p.index]?, x.links .tag p.index with
    | some false, _ => some p
    | some true, some (.item q) =>
      w[q.inst]?.bind fun y =>
        if (y.ctx.profile.items .tag)[q.index]? = some false then some q else none
    | _, _ => none

/-- An import of the provider that is not linked. -/
def LinkInstance.unlinked (k : ExternalKind) (i : Nat) : Bool :=
  (x.ctx.profile.items k)[i]? == some true && (x.links k i).isNone

/-! ## 3. Binding -/

/-- The limits of a memory type. -/
def MemoryType.bounds (t : MemoryType) : InstanceLimits :=
  ⟨t.limits.minimum, t.limits.maximum, t.limits.hasMaximum⟩

/-- The limits of a table type. -/
def TableLimits.bounds (l : TableLimits) : InstanceLimits := ⟨l.minimum, l.maximum, l.hasMaximum⟩

/-- `turbowasm_link_limits_match` and `turbowasm_link_memory_limits_match`. -/
def limitsMatch (expected actual : InstanceLimits) : Bool :=
  expected.minimum ≤ actual.minimum &&
    (!expected.hasMaximum || actual.hasMaximum && actual.maximum ≤ expected.maximum)

/-- `turbowasm_link_host_type_matches`. -/
def hostTypeMatches (expected : Option FuncType) (f : HostFunction) : Bool :=
  match expected with
  | none => false
  | some t => t.defined && t.params.map ValueType.carrier == f.params &&
      t.results.map ValueType.carrier == f.results

namespace ValidationContext

/-- `turbowasm_validation_context_function_type`, as a pointer. -/
def functionPtr (ctx : ValidationContext) (i : Nat) : Option TypePtr :=
  ctx.functions[i]?.bind fun f =>
    if f.typeIndex < ctx.types.length then some (ctx.typePtr f.typeIndex) else none

/-- Enough fuel for a comparison that starts from a type of this module. -/
def fuel (ctx : ValidationContext) (H : TypeHeap) : Nat := (H ctx.addr).length + 2

end ValidationContext

/-- `turbowasm_validation_func_type_equal`. -/
def funcTypeEqual (fuel : Nat) (l r : TypePtr) : Bool :=
  match H.get l, H.get r with
  | some L, some R =>
    if !L.defined || !R.defined || L.params.length != R.params.length ||
        L.results.length != R.results.length then false
    else if L.group.isSome && R.group.isSome then
      L.kind == .function && R.kind == .function && definedTypeEqual H fuel l r == some true
    else (L.params.zip R.params ++ L.results.zip R.results).all fun p =>
      valueTypeEqual H fuel p.1 p.2 == some true
  | _, _ => false

/-- The comparison of an import of kind `k` and index `i` with item `j` of instance `n`, by kind. -/
def bindItem (ctx : ValidationContext) (n : Nat) (y : LinkInstance) (k : ExternalKind) (i j : Nat) :
    Result Binding := do
  malformedIf ((ctx.profile.items k).count true ≤ i)
  match k with
  | .function =>
    let expected ← orFail .typeMismatch (ctx.functionPtr i)
    let actual ← orFail .typeMismatch (y.ctx.functionPtr j)
    let fuel := y.ctx.fuel H
    failIf (definedTypeMatches H fuel fuel (some actual) expected != some true) .typeMismatch
    failIf (y.unlinked .function j) .linkError
    return .item ⟨n, j⟩
  | .memory =>
    let expected ← orMalformed ctx.memories[i]?
    let actual ← orMalformed y.ctx.memories[j]?
    failIf (y.unlinked .memory j) .linkError
    let limits ← orFail .linkError (itemLimits w sizes .memory ⟨n, j⟩)
    failIf (expected.type.memory64 != actual.type.memory64 ||
      expected.type.shared != actual.type.shared ||
      expected.type.pageSize != actual.type.pageSize ||
      !limitsMatch expected.type.bounds limits) .typeMismatch
    return .item ⟨n, j⟩
  | .table =>
    let expected ← orMalformed ctx.tables[i]?
    let actual ← orMalformed y.ctx.tables[j]?
    failIf (expected.limits.table64 != actual.limits.table64) .typeMismatch
    failIf (valueTypeEqual H (ctx.fuel H) expected.semanticType actual.semanticType != some true)
      .typeMismatch
    failIf (y.unlinked .table j) .linkError
    let limits ← orFail .linkError (itemLimits w sizes .table ⟨n, j⟩)
    failIf (!limitsMatch expected.limits.bounds limits) .typeMismatch
    return .item ⟨n, j⟩
  | .global =>
    let expected ← orMalformed ctx.globals[i]?
    let actual ← orMalformed y.ctx.globals[j]?
    let compare := if expected.mutableValue then valueTypeEqual else valueTypeMatches
    failIf (expected.mutableValue != actual.mutableValue ||
      compare H (y.ctx.fuel H) actual.semanticType expected.semanticType != some true)
      .typeMismatch
    failIf (y.unlinked .global j) .linkError
    return .item ⟨n, j⟩
  | .tag =>
    let expected ← orMalformed ctx.tags[i]?
    let actual ← orMalformed y.ctx.tags[j]?
    failIf (!funcTypeEqual H (ctx.fuel H) (ctx.typePtr expected.typeIndex)
      (y.ctx.typePtr actual.typeIndex)) .typeMismatch
    let owner ← orFail .linkError (tagIdentity w ⟨n, j⟩)
    return .item owner

/-- One import in the loop of `turbowasm_linker_bind_instance`. -/
def bindImport (d : ImportDesc) : Result Binding := do
  match L.entries.find? (·.1 == d.moduleName.bytes),
      L.hosts.find? fun f => f.moduleName == d.moduleName.bytes && f.name == d.name.bytes with
  | none, some f =>
    failIf (d.kind != .function) .linkError
    malformedIf ((x.ctx.profile.items .function).count true ≤ d.itemIndex)
    failIf (!hostTypeMatches (x.ctx.functionType d.itemIndex) f) .typeMismatch
    return .host f
  | none, none => .error .linkError
  | some (_, n), _ =>
    let y ← orFail .linkError w[n]?
    failIf (x.store != y.store) .typeMismatch
    let e ← orFail .linkError (y.ctx.exports.find? (·.name.bytes == d.name.bytes))
    failIf (e.kind != d.kind) .typeMismatch
    bindItem H w sizes x.ctx n y d.kind d.itemIndex e.itemIndex

/-- The loop of `turbowasm_linker_bind_instance`. -/
def bindImports (H : TypeHeap) (w : LinkWorld) (sizes : Sizes) (L : Linker) (x : LinkInstance) :
    List ImportDesc → Links → Result Links
  | [], links => .ok links
  | d :: rest, links => do
    let b ← bindImport H w sizes L x d
    bindImports H w sizes L x rest fun k i =>
      if k = d.kind ∧ i = d.itemIndex then some b else links k i

/-- `turbowasm_linker_bind_instance`: the status, and the instance it leaves. -/
def bindInstance : Result Unit × LinkInstance :=
  match bindImports H w sizes L x x.ctx.imports fun _ _ => none with
  | .ok links => (.ok (), { x with links := links })
  | .error s => (.error s, x)

end Binding

/-! ## 4. Matching of external types -/

/-- The type of an item, without its size. -/
inductive ExternType where
  | func (p : TypePtr)
  | table (element : ValueType) (table64 : Bool)
  | memory (memory64 shared : Bool) (pageSize : Nat)
  | global (type : ValueType) (mutableValue : Bool)
  | tag (p : TypePtr)

/-- The declared type of an item. -/
def ValidationContext.externType (ctx : ValidationContext) (k : ExternalKind) (i : Nat) :
    Option ExternType :=
  match k with
  | .function => ctx.functions[i]?.map fun f => .func (ctx.typePtr f.typeIndex)
  | .table => ctx.tables[i]?.map fun t => .table t.semanticType t.limits.table64
  | .memory => ctx.memories[i]?.map fun m => .memory m.type.memory64 m.type.shared m.type.pageSize
  | .global => ctx.globals[i]?.map fun g => .global g.semanticType g.mutableValue
  | .tag => ctx.tags[i]?.map fun t => .tag (ctx.typePtr t.typeIndex)

/-- The declared limits of a memory or table. -/
def ValidationContext.declaredLimits (ctx : ValidationContext) (k : ExternalKind) (i : Nat) :
    Option InstanceLimits :=
  match k with
  | .memory => ctx.memories[i]?.map fun m => m.type.bounds
  | .table => ctx.tables[i]?.map fun t => t.limits.bounds
  | _ => none

/-- Matching of external types: functions by declared subtyping, tables and mutable globals
invariant, immutable globals covariant, equal tags. -/
def ExternLe (H : TypeHeap) : ExternType → ExternType → Prop
  | .func p, .func q => DefLe H p q
  | .table a s, .table b t => isoValueType H a = isoValueType H b ∧ s = t
  | .memory m s p, .memory n t q => m = n ∧ s = t ∧ p = q
  | .global a m, .global b n =>
    m = n ∧ if m then isoValueType H a = isoValueType H b else ValueLe H a b
  | .tag p, .tag q => isoTerm H p = isoTerm H q
  | _, _ => False

/-- Matching of limits. -/
def LimitsLe (actual expected : InstanceLimits) : Prop :=
  expected.minimum ≤ actual.minimum ∧
    (expected.hasMaximum → actual.hasMaximum ∧ actual.maximum ≤ expected.maximum)

/-- The types that an external type refers to are live. -/
def ExternType.RefLive (H : TypeHeap) : ExternType → Prop
  | .func p | .tag p => Live H p
  | .table a _ | .global a _ => TurboWasm.RefLive H a
  | .memory .. => True

theorem ExternLe.trans {H : TypeHeap} {a b c : ExternType} (ha : a.RefLive H) (hb : b.RefLive H)
    (hc : c.RefLive H) (h : ExternLe H a b) (h' : ExternLe H b c) : ExternLe H a c := by
  cases a <;> cases b <;> try exact h.elim
  all_goals cases c <;> try exact h'.elim
  case func => exact DefLe.trans ha hb h h'
  case table => exact ⟨h.1.trans h'.1, h.2.trans h'.2⟩
  case memory => exact ⟨h.1.trans h'.1, h.2.1.trans h'.2.1, h.2.2.trans h'.2.2⟩
  case tag => exact Eq.trans h h'
  case global =>
    obtain ⟨rfl, h⟩ := h
    obtain ⟨rfl, h'⟩ := h'
    refine ⟨rfl, ?_⟩
    split at h
    · rw [if_pos ‹_›] at h' ⊢
      exact h.trans h'
    · rw [if_neg ‹_›] at h' ⊢
      exact .trans ha hb hc h h'

/-! ## 5. Modules -/

/-- A module that validation accepted, with its types in memory.  Each import has an item of its
own. -/
structure ModuleOk (H : TypeHeap) (ctx : ValidationContext) : Prop where
  valid : ∃ src, ContextOk src ctx
  heap : H ctx.addr = ctx.types

namespace ModuleOk

variable {H : TypeHeap} {ctx : ValidationContext}

section

variable (h : ModuleOk H ctx) {i : Nat}

include h

theorem final : FinalTypes ctx.addr (H ctx.addr) := by
  obtain ⟨src, hv⟩ := h.valid
  exact h.heap ▸ hv.types

/-- A module's types are their own representatives. -/
theorem canonSound (h' : ModuleOk H ctx') : CanonSound H ctx.addr ctx'.addr := by
  obtain ⟨⟨src, hv⟩, ⟨src', hv'⟩⟩ := h.valid, h'.valid
  intro i j P Q hP hQ _ heq
  rw [h.heap] at hP
  rw [h'.heap] at hQ
  rw [hv.canonical i P hP, hv'.canonical j Q hQ] at heq
  rw [some.inj heq]

theorem live (hi : i < ctx.types.length) : Live H (ctx.typePtr i) :=
  ⟨h.final, h.heap ▸ hi⟩

theorem wf (hv : ValueOk ctx.shape v) : WfValue ctx.addr (H ctx.addr) v :=
  h.heap ▸ hv.wf

theorem function {f : ValidationFunction}
    (hf : ctx.functions[i]? = some f) : f.typeIndex < ctx.types.length := by
  obtain ⟨src, hv⟩ := h.valid
  exact (hv.records.functions f (mem_of_getElem? hf)).type

theorem table {t : ValidationTable} (ht : ctx.tables[i]? = some t) :
    WfValue ctx.addr (H ctx.addr) t.semanticType := by
  obtain ⟨src, hv⟩ := h.valid
  exact h.wf (hv.records.tables t (mem_of_getElem? ht)).type

theorem global {g : ValidationGlobal}
    (hg : ctx.globals[i]? = some g) : WfValue ctx.addr (H ctx.addr) g.semanticType := by
  obtain ⟨src, hv⟩ := h.valid
  exact h.wf (hv.records.globals g (mem_of_getElem? hg)).type

theorem tag {t : ValidationTag} (ht : ctx.tags[i]? = some t) : t.typeIndex < ctx.types.length := by
  obtain ⟨src, hv⟩ := h.valid
  obtain ⟨d, hd, -⟩ := (hv.records.tags t (mem_of_getElem? ht)).type
  exact lt_of_getElem? hd

/-- The declared types of a module's items are live. -/
theorem externType_live {a : ExternType} (ha : ctx.externType k i = some a) : a.RefLive H := by
  cases k <;> obtain ⟨x, hx, rfl⟩ := map_eq_some_iff.mp ha
  · exact h.live (h.function hx)
  · exact (h.table hx).refLive h.final
  · trivial
  · exact (h.global hx).refLive h.final
  · exact h.live (h.tag hx)

end

end ModuleOk

theorem ExternLe.refl (H : TypeHeap) (a : ExternType) : ExternLe H a a := by
  cases a with
  | func p => exact .of_eq rfl
  | table => exact ⟨rfl, rfl⟩
  | memory => exact ⟨rfl, rfl, rfl⟩
  | global a m =>
    refine ⟨rfl, ?_⟩
    split
    · rfl
    · exact .refl H a
  | tag => rfl

/-- An item with a type has a flag. -/
theorem ValidationContext.externType_flag {ctx : ValidationContext} (h : ctx.externType k i = some a) :
    ∃ flag, (ctx.profile.items k)[i]? = some flag := by
  cases k <;> obtain ⟨x, hx, -⟩ := map_eq_some_iff.mp h <;>
    exact ⟨x.imported, by simp [profile, Profile.items, hx]⟩

/-! ## 6. Linked instances -/

/-- A host function for a function of a declared type: the carriers agree. -/
def HostFits (f : HostFunction) (declared : Option FuncType) : Prop :=
  ∃ t, declared = some t ∧ f.params = t.params.map ValueType.carrier ∧
    f.results = t.results.map ValueType.carrier

/-- What holds of a linked record of instance `n`. -/
def LinkOk (H : TypeHeap) (w : LinkWorld) (n : Nat) (x : LinkInstance) (k : ExternalKind)
    (i : Nat) : Binding → Prop
  | .item q => q.inst < n ∧ ∃ y a c, w[q.inst]? = some y ∧ y.ctx.externType k q.index = some a ∧
      x.ctx.externType k i = some c ∧ ExternLe H a c ∧ y.unlinked k q.index = false
  | .host f => k = .function ∧ HostFits f (x.ctx.functionType i)

/-- The invariant of linking. -/
structure LinkWorld.Ok (H : TypeHeap) (w : LinkWorld) : Prop where
  modules : ∀ {n : Nat} {x : LinkInstance}, w[n]? = some x → ModuleOk H x.ctx
  links : ∀ {n : Nat} {x : LinkInstance}, w[n]? = some x → ∀ {k : ExternalKind} {i : Nat}
    {b : Binding}, x.links k i = some b → LinkOk H w n x k i b

/-- A target that may stand for an item of type `c`. -/
def TargetOk (H : TypeHeap) (w : LinkWorld) (k : ExternalKind) (t : Target) (c : ExternType) :
    Prop :=
  ∃ y a, w[t.place.inst]? = some y ∧ y.ctx.externType k t.place.index = some a ∧
    ExternLe H a c ∧ ∀ p f, t = .host p f → k = .function ∧ HostFits f (y.ctx.functionType p.index)

section Sound

variable {H : TypeHeap} {w : LinkWorld} {k : ExternalKind} {b : Binding}

theorem TargetOk.le {b c : ExternType} (h : TargetOk H w k t b) (hw : w.Ok H)
    (hb : b.RefLive H) (hc : c.RefLive H) (hle : ExternLe H b c) : TargetOk H w k t c := by
  obtain ⟨y, a, hy, ha, hab, hhost⟩ := h
  exact ⟨y, a, hy, ha, hab.trans ((hw.modules hy).externType_live ha) hb hc hle, hhost⟩

/-- **Following links** from an item that is defined or linked ends, at an item whose type
matches. -/
theorem resolve_ok (hw : w.Ok H) : ∀ {fuel : Nat} {p : ItemPtr} {x : LinkInstance} {c : ExternType},
    p.inst < fuel → w[p.inst]? = some x → x.ctx.externType k p.index = some c →
      x.unlinked k p.index = false → ∃ t, resolve w k fuel p = some t ∧ TargetOk H w k t c := by
  intro fuel
  induction fuel with
  | zero => intro p x c hlt; exact absurd hlt (Nat.not_lt_zero _)
  | succ fuel ih =>
    intro p x c hlt hx hc hun
    obtain ⟨flag, hflag⟩ := ValidationContext.externType_flag hc
    simp only [resolve, hx, hflag]
    cases flag with
    | false => exact ⟨_, rfl, x, c, hx, hc, .refl H c, by simp⟩
    | true =>
      obtain ⟨b, hb⟩ : ∃ b, x.links k p.index = some b := by
        simpa [LinkInstance.unlinked, hflag, isSome_iff_exists] using hun
      have hlink := hw.links hx hb
      rw [hb]
      cases b with
      | host f =>
        exact ⟨_, rfl, x, c, hx, hc, .refl H c, fun p' f' h => by cases h; exact hlink⟩
      | item q =>
        obtain ⟨hq, y, a, c', hy, ha, hc', hle, hyun⟩ := hlink
        obtain rfl : c = c' := some.inj (hc.symm.trans hc')
        obtain ⟨t, ht, htype⟩ := ih (by omega) hy ha hyun
        exact ⟨t, ht, htype.le hw ((hw.modules hy).externType_live ha)
          ((hw.modules hx).externType_live hc) hle⟩

/-- The identity of a tag is where its links lead. -/
theorem tagIdentity_resolve (hw : w.Ok H) {p q : ItemPtr} (h : tagIdentity w p = some q) :
    resolve w .tag w.length p = some (.item q) ∧ ∃ x y, w[p.inst]? = some x ∧
      x.unlinked .tag p.index = false ∧ w[q.inst]? = some y ∧ y.unlinked .tag q.index = false := by
  obtain ⟨x, hx, h⟩ := bind_eq_some_iff.mp h
  have hlt := lt_of_getElem? hx
  obtain ⟨m, hm⟩ : ∃ m, w.length = m + 1 := ⟨w.length - 1, by omega⟩
  split at h
  · next hflag =>
    cases h
    have hun : x.unlinked .tag p.index = false := by simp [LinkInstance.unlinked, hflag]
    exact ⟨by simp [hm, resolve, hx, hflag], x, x, hx, hun, hx, hun⟩
  · next q' hflag hlink =>
    obtain ⟨y, hy, h⟩ := bind_eq_some_iff.mp h
    split at h
    · next hq =>
      cases h
      have hqp := (hw.links hx hlink).1
      obtain ⟨m', rfl⟩ : ∃ m', m = m' + 1 := ⟨m - 1, by omega⟩
      exact ⟨by simp [hm, resolve, hx, hflag, hlink, hy, hq], x, y, hx,
        by simp [LinkInstance.unlinked, hlink], hy, by simp [LinkInstance.unlinked, hq]⟩
    · cases h
  · cases h

theorem limitsMatch_le (h : limitsMatch expected actual) :
    LimitsLe actual expected := by
  simp only [limitsMatch, and_eq_true, or_eq_true, decide_eq_true_eq] at h
  exact ⟨h.1, fun hm => h.2.resolve_left (by simp [hm])⟩

/-- Comparing function types of two modules. -/
theorem funcTypeEqual_iso {l r : TypePtr} (hcanon : CanonSound H l.ctx r.ctx)
    (hl : Live H l) (hr : Live H r) (hfuel : l.index < fuel) (h : funcTypeEqual H fuel l r) :
    isoTerm H l = isoTerm H r := by
  obtain ⟨⟨L, hL⟩, ⟨R, hR⟩⟩ := hl.get, hr.get
  have hgroup : (L.group.isSome && R.group.isSome) := by
    rw [hl.1.group hL, hr.1.group hR]
    rfl
  simp only [funcTypeEqual, hL, hR] at h
  split at h
  · cases h
  · simp only [and_eq_true, beq_iff_eq] at h
    exact (definedTypeEqual_decides fuel l r hcanon hl hr hfuel).eq_true_iff.mp h.2

/-- The comparison of an import with an item of instance `n`. -/
theorem bindItem_ok {ctx : ValidationContext} {y : LinkInstance}
    (hw : w.Ok H) (hx : ModuleOk H ctx) (hn : w[n]? = some y)
    (h : bindItem H w sizes ctx n y k i j = .ok b) :
    ∃ p a c, b = .item p ∧ y.ctx.externType k j = some a ∧ ctx.externType k i = some c ∧
      ExternLe H a c ∧ y.unlinked k j = false ∧
      (p = ⟨n, j⟩ ∨ k = .tag ∧ tagIdentity w ⟨n, j⟩ = some p) ∧
      ∀ l, ctx.declaredLimits k i = some l →
        ∃ q, resolve w k w.length ⟨n, j⟩ = some (.item q) ∧ LimitsLe (sizes k q) l := by
  have hy := hw.modules hn
  have hsize : ∀ {limits : InstanceLimits}, itemLimits w sizes k ⟨n, j⟩ = some limits →
      ∃ q, resolve w k w.length ⟨n, j⟩ = some (.item q) ∧ sizes k q = limits := by
    intro limits hl
    unfold itemLimits at hl
    split at hl
    · exact ⟨_, ‹_›, some.inj hl⟩
    · cases hl
  cases k with
  | function =>
    simp only [bindItem, bind_eq_ok, orFail_eq_ok, failIf_eq_ok, bne_eq_false_iff_eq] at h
    obtain ⟨-, -, e, he, a, ha, -, hle, -, hun, hb⟩ := h
    cases hb
    obtain ⟨f, hf, he⟩ := bind_eq_some_iff.mp he
    obtain ⟨g, hg, ha⟩ := bind_eq_some_iff.mp ha
    have hf' := hx.function hf
    have hg' := hy.function hg
    rw [if_pos hf'] at he
    rw [if_pos hg'] at ha
    cases he
    cases ha
    have hlt : g.typeIndex < (H y.ctx.addr).length := hy.heap ▸ hg'
    refine ⟨⟨n, j⟩, _, _, rfl, congrArg (Option.map _) hg,
      congrArg (Option.map _) hf, ?_, hun, .inl rfl, fun l hl => by cases hl⟩
    refine (definedTypeMatches_decides _ _ _ (hy.canonSound hx) (hy.live hg') (hx.live hf')
      ?_ ?_).eq_true_iff.mp hle
    · exact Nat.lt_add_right 2 hlt
    · exact add_lt_add_of_lt_of_le hlt (by decide)
  | table =>
    simp only [bindItem, bind_eq_ok, orFail_eq_ok, failIf_eq_ok, bne_eq_false_iff_eq,
      not_eq_false'] at h
    obtain ⟨-, -, e, he, a, ha, -, hwide, -, heq, -, hun, limits, hl, -, hfit, hb⟩ := h
    cases hb
    obtain ⟨q, hq, rfl⟩ := hsize hl
    refine ⟨⟨n, j⟩, _, _, rfl, congrArg (Option.map _) ha,
      congrArg (Option.map _) he, ⟨?_, hwide.symm⟩, hun, .inl rfl, fun l hl => ?_⟩
    · exact ((valueTypeEqual_decides hx.final hy.final (hx.canonSound hy) (Nat.lt_add_of_pos_right
        (by decide)) (hx.table he) (hy.table ha)).eq_true_iff.mp heq).symm
    · simp only [ValidationContext.declaredLimits, he, map_some, some.injEq] at hl
      exact ⟨q, hq, hl ▸ limitsMatch_le hfit⟩
  | memory =>
    simp only [bindItem, bind_eq_ok, orFail_eq_ok, failIf_eq_ok, or_eq_false_iff,
      bne_eq_false_iff_eq, not_eq_false'] at h
    obtain ⟨-, -, e, he, a, ha, -, hun, limits, hl, -, ⟨⟨⟨h64, hshared⟩, hpage⟩, hfit⟩, hb⟩ := h
    cases hb
    obtain ⟨q, hq, rfl⟩ := hsize hl
    refine ⟨⟨n, j⟩, _, _, rfl, congrArg (Option.map _) ha,
      congrArg (Option.map _) he, ⟨h64.symm, hshared.symm, hpage.symm⟩, hun,
      .inl rfl, fun l hl => ?_⟩
    simp only [ValidationContext.declaredLimits, he, map_some, some.injEq] at hl
    exact ⟨q, hq, hl ▸ limitsMatch_le hfit⟩
  | global =>
    simp only [bindItem, bind_eq_ok, orFail_eq_ok, failIf_eq_ok, or_eq_false_iff,
      bne_eq_false_iff_eq] at h
    obtain ⟨-, -, e, he, a, ha, -, ⟨hmut, hle⟩, -, hun, hb⟩ := h
    cases hb
    refine ⟨⟨n, j⟩, _, _, rfl, congrArg (Option.map _) ha,
      congrArg (Option.map _) he, ⟨hmut.symm, ?_⟩, hun, .inl rfl,
      fun l hl => by cases hl⟩
    rw [← hmut]
    split at hle
    · rw [if_pos ‹_›]
      exact (valueTypeEqual_decides hy.final hx.final (hy.canonSound hx) (Nat.lt_add_of_pos_right
        (by decide)) (hy.global ha) (hx.global he)).eq_true_iff.mp hle
    · rw [if_neg ‹_›]
      exact (valueTypeMatches_decides hy.final hx.final (hy.canonSound hx) (Nat.lt_add_of_pos_right
        (by decide)) (hy.global ha) (hx.global he)).eq_true_iff.mp hle
  | tag =>
    simp only [bindItem, bind_eq_ok, orFail_eq_ok, failIf_eq_ok, not_eq_false'] at h
    obtain ⟨-, -, e, he, a, ha, -, heq, q, hq, hb⟩ := h
    cases hb
    obtain ⟨-, x, -, hx', hun, -⟩ := tagIdentity_resolve hw hq
    cases hn.symm.trans hx'
    have he' := hx.tag he
    refine ⟨q, _, _, rfl, congrArg (Option.map _) ha,
      congrArg (Option.map _) he, ?_, hun, .inr ⟨rfl, hq⟩, fun l hl => by cases hl⟩
    exact (funcTypeEqual_iso (hx.canonSound hy) (hx.live he') (hy.live (hy.tag ha))
      (Nat.lt_add_right 2 (hx.heap.symm ▸ he')) heq).symm

/-- What an import may be bound to: a host function of its names with the same carriers, or an
export of its names that leads to an item of a matching type and, if it has one, a matching size. -/
inductive BoundTo (H : TypeHeap) (w : LinkWorld) (sizes : Sizes) (L : Linker) (x : LinkInstance)
    (d : ImportDesc) : Binding → Prop where
  | host {f : HostFunction} (defined : f ∈ L.hosts) (moduleName : f.moduleName = d.moduleName.bytes)
      (name : f.name = d.name.bytes) (kind : d.kind = .function)
      (fits : HostFits f (x.ctx.functionType d.itemIndex)) : BoundTo H w sizes L x d (.host f)
  | item {n : Nat} {y : LinkInstance} {e : ExportDesc} {c : ExternType} {t : Target} {p : ItemPtr}
      (defined : (d.moduleName.bytes, n) ∈ L.entries) (provider : w[n]? = some y)
      (store : x.store = y.store) (exported : e ∈ y.ctx.exports)
      (name : e.name.bytes = d.name.bytes) (kind : e.kind = d.kind)
      (declared : x.ctx.externType d.kind d.itemIndex = some c)
      (resolved : resolve w d.kind w.length ⟨n, e.itemIndex⟩ = some t)
      (type : TargetOk H w d.kind t c)
      (limits : ∀ l, x.ctx.declaredLimits d.kind d.itemIndex = some l →
        ∃ q, t = .item q ∧ LimitsLe (sizes d.kind q) l)
      (place : p = ⟨n, e.itemIndex⟩ ∨ d.kind = .tag ∧ t = .item p) :
      BoundTo H w sizes L x d (.item p)

variable {sizes : Sizes} {L : Linker} {x : LinkInstance}

/-- One import: the item that is found has the type the import declares. -/
theorem bindImport_ok {d : ImportDesc} (hw : w.Ok H) (hx : ModuleOk H x.ctx)
    (h : bindImport H w sizes L x d = .ok b) :
    BoundTo H w sizes L x d b ∧ LinkOk H w w.length x d.kind d.itemIndex b := by
  unfold bindImport at h
  split at h
  · next f _ hfind =>
    simp only [bind_eq_ok, failIf_eq_ok, bne_eq_false_iff_eq, not_eq_false'] at h
    obtain ⟨-, hkind, -, -, -, hmatch, hb⟩ := h
    cases hb
    have hnames := find?_some hfind
    simp only [and_eq_true, beq_iff_eq] at hnames
    have hfits : HostFits f (x.ctx.functionType d.itemIndex) := by
      unfold hostTypeMatches at hmatch
      split at hmatch
      · cases hmatch
      · next t ht =>
        simp only [and_eq_true, beq_iff_eq] at hmatch
        exact ⟨t, ht, hmatch.1.2.symm, hmatch.2.symm⟩
    exact ⟨.host (mem_of_find?_eq_some hfind) hnames.1 hnames.2 hkind hfits, hkind, hfits⟩
  · cases h
  next name n hfind =>
  simp only [bind_eq_ok, orFail_eq_ok, failIf_eq_ok, bne_eq_false_iff_eq] at h
  obtain ⟨y, hy, -, hstore, e, he, -, hkind, hitem⟩ := h
  obtain ⟨p, a, c, rfl, ha, hc, hle, hun, hplace, hlimits⟩ := bindItem_ok hw hx hy hitem
  have hn := lt_of_getElem? hy
  obtain ⟨t, ht, htype⟩ := resolve_ok hw (p := ⟨n, e.itemIndex⟩) hn hy ha hun
  have htype := htype.le hw ((hw.modules hy).externType_live ha) (hx.externType_live hc) hle
  have hname := find?_some hfind
  have hplace' : p = ⟨n, e.itemIndex⟩ ∨ d.kind = .tag ∧ t = .item p := by
    refine hplace.imp_right fun h => ⟨h.1, ?_⟩
    rw [h.1] at ht
    exact some.inj (ht.symm.trans (tagIdentity_resolve hw h.2).1)
  refine ⟨.item (beq_iff_eq.mp hname ▸ mem_of_find?_eq_some hfind) hy hstore
    (mem_of_find?_eq_some he) (by simpa using find?_some he) hkind hc ht htype
    (fun l hl => ?_) hplace', ?_⟩
  · obtain ⟨q, hq, hfit⟩ := hlimits l hl
    exact ⟨q, some.inj (ht.symm.trans hq), hfit⟩
  rcases hplace with rfl | ⟨hk, hid⟩
  · exact ⟨hn, y, a, c, hy, ha, hc, hle, hun⟩
  obtain ⟨hres, -, z, -, -, hz, hzun⟩ := tagIdentity_resolve hw hid
  rw [hk] at ht htype hc ⊢
  cases ht.symm.trans hres
  obtain ⟨z', a', hz', ha', hle', -⟩ := htype
  cases hz.symm.trans hz'
  exact ⟨(lt_of_getElem? hz), z, a', c, hz, ha', hc, hle', hzun⟩

/-- The loop fills the record of each import, and no other. -/
theorem bindImports_ok : ∀ {ds : List ImportDesc} {links out : Links},
    bindImports H w sizes L x ds links = .ok out → (ds.map fun d => (d.kind, d.itemIndex)).Nodup →
      (∀ d ∈ ds, ∃ b, bindImport H w sizes L x d = .ok b ∧ out d.kind d.itemIndex = some b) ∧
      ∀ k i, (∀ d ∈ ds, d.kind = k → d.itemIndex ≠ i) → out k i = links k i := by
  intro ds
  induction ds with
  | nil =>
    intro links out h _
    cases h
    exact ⟨by simp, fun k i _ => rfl⟩
  | cons d ds ih =>
    intro links out h hnd
    obtain ⟨b, hb, h⟩ := bind_eq_ok.mp h
    rw [map_cons, nodup_cons] at hnd
    obtain ⟨hmem, hrest⟩ := ih h hnd.2
    refine ⟨forall_mem_cons.mpr ⟨⟨b, hb, ?_⟩, hmem⟩, fun k i hk => ?_⟩
    · rw [hrest _ _ fun e he hk hi => hnd.1 (mem_map.mpr ⟨e, he, Prod.ext hk hi⟩),
        if_pos ⟨rfl, rfl⟩]
    · rw [forall_mem_cons] at hk
      rw [hrest _ _ hk.2, if_neg fun h => hk.1 h.1.symm h.2.symm]

theorem bindInstance_ok {x' : LinkInstance} (hw : w.Ok H) (hx : ModuleOk H x.ctx)
    (h : bindInstance H w sizes L x = (.ok (), x')) : x'.ctx = x.ctx ∧
    (∀ d ∈ x.ctx.imports, ∃ b, x'.links d.kind d.itemIndex = some b ∧ BoundTo H w sizes L x d b) ∧
    ∀ {k : ExternalKind} {i : Nat} {b : Binding}, x'.links k i = some b →
      LinkOk H w w.length x k i b := by
  unfold bindInstance at h
  split at h
  · next links hlinks =>
    cases h
    obtain ⟨_, hv⟩ := hx.valid
    obtain ⟨hmem, hrest⟩ := bindImports_ok hlinks hv.importItems
    refine ⟨rfl, fun d hd => ?_, fun {k i b} hb => ?_⟩
    · obtain ⟨b, hb, hout⟩ := hmem d hd
      exact ⟨b, hout, (bindImport_ok hw hx hb).1⟩
    by_cases hk : ∃ d ∈ x.ctx.imports, d.kind = k ∧ d.itemIndex = i
    · obtain ⟨d, hd, rfl, rfl⟩ := hk
      obtain ⟨b', hb', hout⟩ := hmem d hd
      cases hb.symm.trans hout
      exact (bindImport_ok hw hx hb').2
    · have hnone := hrest k i fun d hd hdk hdi => hk ⟨d, hd, hdk, hdi⟩
      cases hb.symm.trans hnone
  · cases h

end Sound

/-! ## 7. Every history -/

variable {H : TypeHeap} {w : LinkWorld}

/-- The worlds that instantiation leads to, with a linker or without one. -/
inductive LinkWorld.Built (H : TypeHeap) : LinkWorld → Prop where
  | nil : Built H []
  | unlinked {w : LinkWorld} {x : LinkInstance} : Built H w → ModuleOk H x.ctx →
      (∀ k i, x.links k i = none) → Built H (w ++ [x])
  | linked {w : LinkWorld} {sizes : Sizes} {L : Linker} {x x' : LinkInstance} : Built H w →
      ModuleOk H x.ctx → bindInstance H w sizes L x = (.ok (), x') → Built H (w ++ [x'])

theorem LinkWorld.Ok.append {x : LinkInstance} (hw : w.Ok H)
    (hx : ModuleOk H x.ctx) (hlinks : ∀ {k : ExternalKind} {i : Nat} {b : Binding},
      x.links k i = some b → LinkOk H w w.length x k i b) : LinkWorld.Ok H (w ++ [x]) := by
  -- links point at older instances, which stay where they are
  have hmono : ∀ {n : Nat} {z : LinkInstance} {k : ExternalKind} {i : Nat} {b : Binding},
      n ≤ w.length → LinkOk H w n z k i b → LinkOk H (w ++ [x]) n z k i b := by
    intro n z k i b hn h
    cases b with
    | host f => exact h
    | item q =>
      obtain ⟨hq, y, a, c, hy, h⟩ := h
      exact ⟨hq, y, a, c, by rw [getElem?_append_left (hq.trans_le hn)]; exact hy, h⟩
  have hcases : ∀ {n : Nat} {z : LinkInstance}, (w ++ [x])[n]? = some z →
      w[n]? = some z ∧ n ≤ w.length ∨ z = x ∧ n = w.length := by
    intro n z hz
    rw [getElem?_append] at hz
    split at hz
    · next hlt => exact .inl ⟨hz, hlt.le⟩
    · obtain ⟨hi, hz⟩ := List.getElem?_eq_some_iff.mp hz
      simp only [length_singleton, Nat.lt_one_iff] at hi
      simp only [hi] at hz
      exact .inr ⟨hz.symm, by omega⟩
  refine ⟨fun hz => ?_, fun hz _ _ _ hb => ?_⟩
  · rcases hcases hz with ⟨hz, -⟩ | ⟨rfl, -⟩
    · exact hw.modules hz
    · exact hx
  · rcases hcases hz with ⟨hz, hn⟩ | ⟨rfl, rfl⟩
    · exact hmono hn (hw.links hz hb)
    · exact hmono le_rfl (hlinks hb)

/-- Every world that instantiation leads to is soundly linked. -/
theorem LinkWorld.Built.ok (h : w.Built H) : w.Ok H := by
  induction h with
  | nil => exact ⟨by simp, by simp⟩
  | unlinked _ hx hnone ih => exact ih.append hx fun hb => by simp [hnone] at hb
  | linked _ hx hbind ih =>
    obtain ⟨hctx, -, hlinks⟩ := bindInstance_ok ih hx hbind
    refine ih.append (hctx ▸ hx) fun {k i b} hb => ?_
    have hl := hlinks hb
    unfold LinkOk at hl ⊢
    rwa [hctx]

/-- **Binding is sound**: from any world and linker, at any sizes, an instance that is bound has
every import bound to what it names, and a failed call installs nothing. -/
theorem bindInstance_sound {H : TypeHeap} {w : LinkWorld} (hw : w.Built H) {x : LinkInstance}
    (hx : ModuleOk H x.ctx) (sizes : Sizes) (L : Linker) {status : Result Unit}
    {x' : LinkInstance} (h : bindInstance H w sizes L x = (status, x')) :
    (status = .ok () → ∀ d ∈ x.ctx.imports, ∃ b, x'.links d.kind d.itemIndex = some b ∧
      BoundTo H w sizes L x d b) ∧ (status ≠ .ok () → x' = x) := by
  refine ⟨fun hok => ?_, fun hne => ?_⟩
  · subst hok
    exact (bindInstance_ok hw.ok hx h).2.1
  unfold bindInstance at h
  split at h
  · cases h
    exact absurd rfl hne
  · cases h
    rfl

/-- A module that imports `m.f` of type `() -> (ref extern)`. -/
def externModule : Reader :=
  ⟨8, [1, 6, 1, 0x60, 0, 1, 0x64, 0x6f, 2, 7, 1, 1, 0x6d, 1, 0x66, 0, 0]⟩

/-- The host function `m.f` of type `() -> externref`, and the linker that has it. -/
def externHost : HostFunction := ⟨[0x6d], [0x66], [], [0x6f], 0⟩

def externLinker : Linker := ⟨[], [externHost]⟩

/-- The module is validated, and its instance bound by that linker. -/
structure ExternRun (v : ValidationState) (x x' : LinkInstance) : Prop where
  valid : validateSections (fun _ => []) 0 externModule = .ok v
  fresh : x = ⟨none, v.context, fun _ _ => none⟩
  bound : bindInstance (v.context.heap fun _ => []) [] (fun _ _ => ⟨0, 0, false⟩) externLinker x =
    (.ok (), x')

/-- A host function's type matches a declared one. -/
def HostLe (H : TypeHeap) (f : HostFunction) (t : FuncType) : Prop :=
  List.Forall₂ (ValueLe H) t.params (f.params.map valueTypeLegacy) ∧
    List.Forall₂ (ValueLe H) (f.results.map valueTypeLegacy) t.results

/-- A nullable result of the host is accepted where the module declares one that is not. -/
theorem hostFunction_mismatch : ∃ v x x' t, ExternRun v x x' ∧
    Linker.defineHostFunction ⟨[], []⟩ externHost = .ok externLinker ∧
    x'.links .function 0 = some (.host externHost) ∧ v.context.functionType 0 = some t ∧
    ¬ HostLe (v.context.heap fun _ => []) externHost t := by
  refine ⟨_, _, _, _, ⟨rfl, rfl, rfl⟩, rfl, rfl, rfl, ?_⟩
  rintro ⟨-, h⟩
  rcases h with _ | ⟨hle, -⟩
  simp [ValueLe, valueTypeLegacy, abstractHeap] at hle

/-- A module that exports a memory, its own or one that it imports from `name`. -/
def memoryModule : Option UInt8 → Reader
  | none => ⟨8, [5, 3, 1, 0, 1, 7, 5, 1, 1, 0x6d, 2, 0]⟩
  | some name => ⟨8, [2, 8, 1, 1, name, 1, 0x6d, 2, 0, 1, 7, 5, 1, 1, 0x6d, 2, 0]⟩

/-- Names for an instance and for one that exports the memory of the first again. -/
def chainLinker : Result Linker := do
  let L ← Linker.defineInstance ⟨[], []⟩ [0x61] 0
  L.defineInstance [0x62] 1

/-- The memory imported from the second instance is that of the first. -/
theorem bindInstance_sound_chain : ∃ L w x x', LinkWorld.Built (fun _ => []) w ∧
    chainLinker = .ok L ∧
    bindInstance (fun _ => []) w (fun _ _ => ⟨1, 0, false⟩) L x = (.ok (), x') ∧
    (∀ d ∈ x.ctx.imports, ∃ b, x'.links d.kind d.itemIndex = some b ∧
      BoundTo (fun _ => []) w (fun _ _ => ⟨1, 0, false⟩) L x d b) ∧
    resolve (w ++ [x']) .memory 3 ⟨2, 0⟩ = some (.item ⟨0, 0⟩) := by
  let H : TypeHeap := fun _ => []
  let sizes : Sizes := fun _ _ => ⟨1, 0, false⟩
  let fresh (v : ValidationState) : LinkInstance := ⟨none, v.context, fun _ _ => none⟩
  have hok (name v) : validateSections H 0 (memoryModule name) = .ok v ∧ v.context.types = [] →
      ModuleOk H (fresh v).ctx := fun ⟨hv, htypes⟩ => by
    have hr : (memoryModule name).Reads (.replicate 8 0 ++ (memoryModule name).rest) := by
      cases name <;> exact ⟨by simp [memoryModule], rfl⟩
    obtain ⟨_, _, -, hpass, -⟩ := validateSections_pass hr hv
    exact ⟨⟨_, hpass.state.context⟩, htypes.symm⟩
  obtain ⟨a, b, c, L, y, x', ha, hb, hc, hL, hy, hx, hres⟩ : ∃ a b c L y x',
      ModuleOk H (fresh a).ctx ∧ ModuleOk H (fresh b).ctx ∧ ModuleOk H (fresh c).ctx ∧
      chainLinker = .ok L ∧ bindInstance H [fresh a] sizes L (fresh b) = (.ok (), y) ∧
      bindInstance H [fresh a, y] sizes L (fresh c) = (.ok (), x') ∧
      resolve [fresh a, y, x'] .memory 3 ⟨2, 0⟩ = some (.item ⟨0, 0⟩) :=
    ⟨_, _, _, _, _, _, hok none _ ⟨rfl, rfl⟩, hok (some 0x61) _ ⟨rfl, rfl⟩,
      hok (some 0x62) _ ⟨rfl, rfl⟩, rfl, rfl, rfl, rfl⟩
  have hbuilt := (LinkWorld.Built.nil.unlinked ha fun _ _ => rfl).linked hb hy
  exact ⟨L, _, fresh c, x', hbuilt, hL, hx, (bindInstance_sound hbuilt hc _ _ hx).1 rfl, hres⟩

end TurboWasm
