/-
# What the type section reader guarantees

The facts collected in `FinalTypes` are established by three passes of the source: `read_groups`
fills the records, the first loop of `turbowasm_validation_types_finalize` binds the type indices,
and its second loop checks the recursion groups.  Each pass gets one lemma about what a success
means (`readGroups_filled`, `bindTypes_get`, `finalizeGroups_facts`); together they give
`validateCompositeTypes_final`.

The second loop only writes `dependency_depth`, which nothing here reads, so its effect on the
array is equality up to that field (`SameButDepth`).
-/
import TurboWasm.Lib.Yields
import TurboWasm.Reader.Integers
import TurboWasm.Types.Subtype

namespace TurboWasm

open Lib List Option FuncType

/-! ## 1. Value types -/

variable {t : ValueType} {ctx : Option TypeCtx} {i addr : Nat} {r r' : Reader}
  {start count : Nat} {v : ValueType}

/-- A value type as the reader leaves it: a type index is not bound yet. -/
inductive RawValue : ValueType → Prop where
  | num (carrier : UInt8) (index : Nat) : carrier ∈ numCarriers →
      RawValue ⟨carrier, false, false, .none, index, none⟩
  | heap (nullable : Bool) (kind : HeapKind) (carrier : UInt8) (index : Nat) :
      abstractCarrier kind = some carrier → RawValue ⟨carrier, true, nullable, kind, index, none⟩
  | index (carrier : UInt8) (nullable : Bool) (i : Nat) (d : Option TypePtr) :
      RawValue ⟨carrier, true, nullable, .typeIndex, i, d⟩

/-- A value type that is read without a type index. -/
inductive PlainValue : ValueType → Prop where
  | num (carrier : UInt8) : carrier ∈ numCarriers →
      PlainValue ⟨carrier, false, false, .none, uint32Max, none⟩
  | heap (nullable : Bool) (kind : HeapKind) (carrier : UInt8) :
      abstractCarrier kind = some carrier →
      PlainValue ⟨carrier, true, nullable, kind, uint32Max, none⟩

theorem ite_some_cases {α : Type} {p : Prop} [Decidable p] {a t : α} {o : Option α}
    (h : (if p then some a else o) = some t) : a = t ∨ o = some t := by
  split at h
  · exact .inl (some.inj h)
  · exact .inr h

theorem heapOfCode_plain {heap : Int} (h : heapOfCode heap = some t) (n : Bool) :
    PlainValue { t with nullable := n } := by
  repeat
    rcases ite_some_cases h with rfl | h
    · exact .heap _ _ _ rfl
  cases h

theorem valueTypeLegacy_ref (h : first = 0x70 ∨ first = 0x6f ∨ first = 0x69) :
    PlainValue (valueTypeLegacy first) := by
  rcases h with rfl | rfl | rfl <;> exact .heap _ _ _ rfl

theorem valueTypeLegacy_num (h : first = 0x7f ∨ first = 0x7e ∨ first = 0x7d ∨
    first = 0x7c ∨ first = 0x7b) : PlainValue (valueTypeLegacy first) := by
  rcases h with rfl | rfl | rfl | rfl | rfl <;> exact .num _ (by decide)

/-- Every value type that a reading against `ctx` may answer is a `V`. -/
structure Covers (ctx : Option TypeCtx) (V : ValueType → Prop) : Prop where
  plain : ∀ {v}, PlainValue v → V v
  index : ∀ {i t}, i ≤ uint32Max → heapOfIndex ctx i = .ok t → ∀ n, V { t with nullable := n }

section

variable {V : ValueType → Prop} (hV : Covers ctx V)

include hV

theorem readHeaptype_covers :
    Yields (fun p => ∀ n, V { p.1 with nullable := n }) (readHeaptype r ctx) := by
  refine .skip fun p => .ite (fun _ => .check fun _ hle => .check fun t ht => .pure fun n => ?_)
    fun _ => .check fun t ht => .pure fun n => hV.plain (heapOfCode_plain (orFail_eq_ok.mp ht) n)
  simp only [failIf_eq_ok, decide_eq_false_iff_not] at hle
  exact hV.index (by omega) ht n

theorem readReftype_covers : Yields (fun p => V p.1) (readReftype r ctx) :=
  .skip fun _ => .ite (fun hf => .pure (hV.plain (valueTypeLegacy_ref hf))) fun _ =>
    .ite (fun _ => .bind (readHeaptype_covers hV) fun _ h => .pure (h true)) fun _ =>
    .ite (fun _ => .error _) fun _ => .bind (readHeaptype_covers hV) fun _ h => .pure (h _)

theorem readValtype_covers : Yields (fun p => V p.1) (readValtype r ctx) := by
  refine .check fun first hpeek => .ite (fun hf => .check fun p hu8 => .pure ?_)
    fun _ => readReftype_covers hV
  rw [orFail_eq_ok, Reader.u8_peek (orFail_eq_ok.mp hu8)] at hpeek
  cases hpeek
  exact hV.plain (valueTypeLegacy_num hf)

end

/-! ## 2. Records -/

/-- A value type as the reader leaves it, with an index that fits 32 bits. -/
def ReadValue (v : ValueType) : Prop := RawValue v ∧ v.typeIndex ≤ uint32Max

theorem readValue_covers (ctx : Option TypeCtx) : Covers ctx ReadValue := by
  refine ⟨fun h => ?_, fun {i t} hi h n => ?_⟩
  · cases h with
    | num _ hc => exact ⟨.num _ _ hc, le_rfl⟩
    | heap _ _ _ hk => exact ⟨.heap _ _ _ _ hk, le_rfl⟩
  unfold heapOfIndex at h
  split at h
  · cases h
    exact ⟨.index _ _ _ _, hi⟩
  · split at h <;> cases h
    exact ⟨.index _ _ _ _, hi⟩

theorem readValue_read : Yields (fun p => ReadValue p.1) (readValue r ctx limit) :=
  .bind (readValtype_covers (readValue_covers ctx)) fun _ h => .skip fun _ => .pure h

theorem readValues_read : ∀ (n : Nat) (r : Reader),
    Yields (fun p => p.1.length = n ∧ ∀ t ∈ p.1, ReadValue t) (readValues ctx limit n r)
  | 0, _ => .ok ⟨rfl, by simp⟩
  | n + 1, _ => .bind readValue_read fun _ h => .bind (readValues_read n _) fun _ hs =>
      .pure ⟨congrArg (· + 1) hs.1, forall_mem_cons.mpr ⟨h, hs.2⟩⟩

theorem readVector_read :
    Yields (fun p => p.1.length ≤ uint32Max ∧ ∀ t ∈ p.1, ReadValue t) (readVector r ctx limit) :=
  .check fun _ hn => .skip fun _ => (readValues_read _ _).mono fun _ h =>
    ⟨h.1.trans_le (Reader.uleb32_le (orFail_eq_ok.mp hn)), h.2⟩

/-- A field as the reader leaves it. -/
def ReadField (f : Field) : Prop :=
  ReadValue f.type ∧ (f.packedBits = 0 ∨ f.packedBits = 8 ∨ f.packedBits = 16)

theorem readStorage_read :
    Yields (fun p => ReadField ⟨p.1.1, p.1.2, false⟩) (readStorage r ctx limit) := by
  refine .skip fun _ => .ite (fun _ => .skip fun _ => .pure ⟨?_, ?_⟩)
    fun _ => .bind readValue_read fun _ h => .pure ⟨h, .inl rfl⟩
  · exact (readValue_covers ctx).plain (valueTypeLegacy_num (.inl rfl))
  · dsimp only
    split <;> simp

theorem readFields_read : ∀ (n : Nat) (r : Reader),
    Yields (fun p => p.1.length = n ∧ ∀ f ∈ p.1, ReadField f) (readFields ctx limit n r)
  | 0, _ => .ok ⟨rfl, by simp⟩
  | n + 1, _ => by
    refine .bind (P := fun p => ReadField p.1)
      (.bind readStorage_read fun _ h => .skip fun _ => .skip fun _ => .pure h) fun _ h => ?_
    exact .bind (readFields_read n _) fun _ hs =>
      .pure ⟨congrArg (· + 1) hs.1, forall_mem_cons.mpr ⟨h, hs.2⟩⟩

theorem readFieldCount_read :
    Yields (fun p => p.1 ≤ uint32Max ∧ (form ≠ 0x5f → p.1 = 1)) (readFieldCount r form) :=
  .ite (fun hform _ hn => ⟨Reader.uleb32_le (orFail_eq_ok.mp hn), absurd hform⟩)
    fun _ => .ok ⟨show 1 ≤ uint32Max by decide, fun _ => rfl⟩

/-- A record that the reader fills: counts and indices fit 32 bits, and only a function type has
parameters and results, only a struct or an array type has fields. -/
structure TypeOk (t : FuncType) : Prop where
  paramCount : t.params.length ≤ uint32Max
  resultCount : t.results.length ≤ uint32Max
  fieldCount : t.fields.length ≤ uint32Max
  index : ∀ v ∈ t.values, v.typeIndex ≤ uint32Max
  function : t.kind = .function → t.fields = []
  array : t.kind = .array → t.fields.length = 1
  composite : t.kind ≠ .function → t.params = [] ∧ t.results = []
  packed : ∀ f ∈ t.fields, f.packedBits = 0 ∨ f.packedBits = 8 ∨ f.packedBits = 16
  superIndex : t.superIndex ≤ uint32Max

theorem TypeOk.zero : TypeOk FuncType.zero :=
  ⟨by decide, by decide, by decide, by simp [FuncType.values, FuncType.zero], fun _ => rfl,
    by decide, by decide, by simp [FuncType.zero], by decide⟩

/-- What the composite type of a record may have. -/
theorem readComposite_read : Yields (fun p => ∀ t : FuncType, t.superIndex ≤ uint32Max →
    TypeOk { t with kind := p.1.1, params := p.1.2.1, results := p.1.2.2.1, fields := p.1.2.2.2 } ∧
    ∀ v ∈ p.1.2.1 ++ p.1.2.2.1 ++ p.1.2.2.2.map Field.type, RawValue v)
    (readComposite r ctx limit form) := by
  refine .ite (fun _ => .bind readVector_read fun ps hps => .bind readVector_read fun rs hrs =>
    .pure fun t ht => ?_) fun _ => .ite (fun _ => .bind readFieldCount_read fun n hn =>
    .skip fun _ => .bind (readFields_read _ _) fun fs hfs => .pure fun t ht => ?_) fun _ => .error _
  · have hall : ∀ v ∈ ps.1 ++ rs.1 ++ .map Field.type [], ReadValue v := fun v hv => by
      rcases mem_append.mp (append_nil _ ▸ hv) with h | h
      · exact hps.2 v h
      · exact hrs.2 v h
    exact ⟨⟨hps.1, hrs.1, Nat.zero_le _, fun v hv => (hall v hv).2, fun _ => rfl, nofun,
      absurd rfl, by simp, ht⟩, fun v hv => (hall v hv).1⟩
  have hall : ∀ v ∈ fs.1.map Field.type, ReadValue v := by
    simpa using fun f hf => (hfs.2 f hf).1
  refine ⟨⟨Nat.zero_le _, Nat.zero_le _, hfs.1.trans_le hn.1, fun v hv => (hall v hv).2,
    fun hk => ?_, fun hk => ?_, fun _ => ⟨rfl, rfl⟩, fun f hf => (hfs.2 f hf).2, ht⟩,
    fun v hv => (hall v hv).1⟩
  · have hk' : (if form = 0x5f then TypeKind.struct else .array) = .function := hk
    split at hk' <;> cases hk'
  · have hk' : (if form = 0x5f then TypeKind.struct else .array) = .array := hk
    split at hk'
    · cases hk'
    · exact hfs.1.trans (hn.2 ‹_›)

/-- The supertype of the type `index`: none, or one before it. -/
def SuperOk (index superIndex : Nat) : Prop :=
  superIndex ≤ uint32Max ∧ (superIndex = uint32Max ∨ superIndex < index)

theorem readSuper_read : Yields (fun p => SuperOk i p.1) (readSuper r i) := by
  refine .skip fun _ => .skip fun _ => .ite (fun _ => .check fun s hs => .check fun _ hlt =>
    .pure ⟨Reader.uleb32_le (orFail_eq_ok.mp hs), .inr ?_⟩)
    fun _ => .pure ⟨le_rfl, .inl rfl⟩
  simpa using hlt

theorem readSub_read : Yields (fun p => SuperOk i p.1.2.1) (readSub r i) :=
  .skip fun _ => .ite (fun _ => .bind readSuper_read fun _ h => .skip fun _ => .pure h)
    fun _ => .pure ⟨le_rfl, .inl rfl⟩

/-- A record as the reader leaves it at index `i` of the array at `c`. -/
structure RawType (c i : Nat) (t : FuncType) : Prop where
  defined : t.defined
  offset : t.groupOffset ≤ i
  group : t.group = some ⟨c, i - t.groupOffset⟩
  superIndex : t.superIndex = uint32Max ∨ t.superIndex < i
  super : t.super = if t.superIndex = uint32Max then none else some ⟨c, t.superIndex⟩
  canonical : t.canonical = some ⟨c, i⟩
  value : ∀ v ∈ t.values, RawValue v

theorem readDefinition_read {ctx : TypeCtx} (hi : start ≤ i) :
    Yields (fun p => RawType ctx.addr i p.1 ∧ TypeOk p.1)
      (readDefinition r (some ctx) i start count) := by
  refine .bind readSub_read fun s hs => .bind readComposite_read fun c hc => .pure ?_
  obtain ⟨hok, hraw⟩ := hc { zero with superIndex := s.1.2.1 } hs.1
  refine ⟨⟨rfl, Nat.sub_le .., ?_, hs.2, rfl, rfl, hraw⟩, { hok with }⟩
  simp only [map_some]
  congr 2
  omega

/-- The array while it is filled: a record is still zero, or has been read. -/
def RawArray (ctx : TypeCtx) : Prop :=
  ∀ i t, ctx.types[i]? = some t → t = zero ∨ RawType ctx.addr i t

/-- A reading into an array of `n` records: each is still zero, or has been read. -/
def FilledCtx (addr n : Nat) (o : Option TypeCtx) : Prop :=
  ∃ ctx, o = some ctx ∧ ctx.addr = addr ∧ ctx.types.length = n ∧
    ∀ i t, ctx.types[i]? = some t → t = zero ∨ RawType addr i t ∧ TypeOk t

section

variable {size : Nat}

theorem readMembers_filled : ∀ {left i : Nat} {r : Reader} {o : Option TypeCtx}, start ≤ i →
    FilledCtx addr size o →
    Yields (fun p => FilledCtx addr size p.1) (readMembers start count left i r o)
  | 0, _, _, _, _, ho => .ok ho
  | left + 1, i, _, _, hi, ⟨ctx, rfl, haddr, hlen, hall⟩ => by
    refine .bind (readDefinition_read hi) fun p hp => readMembers_filled (Nat.le_succ_of_le hi)
      ⟨ctx.set i p.1, rfl, haddr, by rw [TypeCtx.set, length_set, hlen], fun j u hu => ?_⟩
    simp only [TypeCtx.set, getElem?_set] at hu
    split at hu
    · split at hu <;> cases hu
      subst_vars
      exact .inr hp
    · exact hall j u hu

theorem readGroupLoop_filled : ∀ {left total : Nat} {r : Reader} {o : Option TypeCtx},
    FilledCtx addr size o →
    Yields (fun p => FilledCtx addr size p.2.1) (readGroupLoop left total r o)
  | 0, _, _, _, ho => .ok ho
  | _ + 1, _, _, _, ho => .skip fun _ => .skip fun _ =>
      .bind (readMembers_filled (le_rfl) ho) fun _ hm => readGroupLoop_filled hm

theorem readGroups_filled (ho : FilledCtx addr size o) :
    Yields (fun p => FilledCtx addr size p.2.1) (readGroups r o) :=
  .skip fun _ => .bind (readGroupLoop_filled ho) fun _ h => .skip fun _ => .pure h

end

/-! ## 3. Binding -/

theorem mapM_some_mem {α β : Type} {f : α → Option β} : ∀ {xs : List α} {ys : List β},
    xs.mapM f = some ys → ∀ y ∈ ys, ∃ x ∈ xs, f x = some y
  | [], ys, h => by
    simp only [List.mapM_nil, Option.pure_def, Option.some.injEq] at h
    simp [← h]
  | x :: xs, ys, h => by
    simp only [List.mapM_cons, Option.pure_def, Option.bind_eq_bind, Option.bind_eq_some_iff,
      Option.some.injEq] at h
    obtain ⟨y, hy, ys', hys, rfl⟩ := h
    refine List.forall_mem_cons.mpr ⟨⟨x, by simp, hy⟩, fun z hz => ?_⟩
    obtain ⟨w, hw, hwz⟩ := mapM_some_mem hys z hz
    exact ⟨w, by simp [hw], hwz⟩

theorem bindValue_wf {ctx : TypeCtx} (hv : RawValue v)
    (h : bindValue ctx v = some v') : WfValue ctx.addr ctx.types v' := by
  unfold bindValue at h
  cases hv with
  | num carrier index hc =>
    simp only [reduceCtorEq, ↓reduceIte, some.injEq] at h
    subst h
    exact .num _ _ hc
  | heap nullable kind carrier index hk =>
    rw [if_neg (abstractCarrier_ne hk)] at h
    cases h
    exact .heap _ _ _ _ hk
  | index carrier nullable i d =>
    simp only [↓reduceIte, Bool.not_true, Bool.false_eq_true] at h
    split at h
    · cases h
    · rename_i e he
      cases h
      exact .index nullable i e he

/-- What the first loop of `turbowasm_validation_types_finalize` leaves of a record. -/
structure BoundType (ctx : TypeCtx) (i : Nat) (t t' : FuncType) : Prop where
  groupPos : t.groupOffset < t.groupCount
  eq : t' = { t with params := t'.params, results := t'.results, fields := t'.fields }
  params : t.params.mapM (bindValue ctx) = some t'.params
  results : t.results.mapM (bindValue ctx) = some t'.results
  fields : t.fields.mapM (bindField ctx) = some t'.fields
  value : ∀ v' ∈ t'.values, ∃ v ∈ t.values, bindValue ctx v = some v'

theorem bindType_bound {ctx : TypeCtx} {t t' : FuncType}
    (h : bindType ctx i t = some t') : BoundType ctx i t t' := by
  unfold bindType at h
  split at h
  · cases h
  simp only [Option.pure_def, Option.bind_eq_bind, Option.bind_eq_some_iff, some.injEq] at h
  obtain ⟨ps, hps, rs, hrs, fs, hfs, rfl⟩ := h
  refine ⟨by omega, rfl, hps, hrs, hfs, fun v' hv' => ?_⟩
  rcases mem_values.mp hv' with h | h | ⟨f', hf', rfl⟩
  · obtain ⟨v, hv, hb⟩ := mapM_some_mem hps v' h
    exact ⟨v, mem_values.mpr (.inl hv), hb⟩
  · obtain ⟨v, hv, hb⟩ := mapM_some_mem hrs v' h
    exact ⟨v, mem_values.mpr (.inr (.inl hv)), hb⟩
  · obtain ⟨f, hf, hb⟩ := mapM_some_mem hfs f' hf'
    simp only [bindField, map_eq_some_iff] at hb
    obtain ⟨v, hv, rfl⟩ := hb
    exact ⟨f.type, mem_values.mpr (.inr (.inr ⟨f, hf, rfl⟩)), hv⟩

theorem bindTypes_get {ctx : TypeCtx} : ∀ {i : Nat} {ts ts' : List FuncType},
    bindTypes ctx i ts = some ts' → ts'.length = ts.length ∧ ∀ k t', ts'[k]? = some t' →
      ∃ t, ts[k]? = some t ∧ BoundType ctx (i + k) t t'
  | _, [], _, h => by
    cases h
    simp
  | i, t :: ts, ts', h => by
    simp only [bindTypes, Option.pure_def, Option.bind_eq_bind, Option.bind_eq_some_iff,
      some.injEq] at h
    obtain ⟨u, hu, us, hus, rfl⟩ := h
    obtain ⟨hlen, hget⟩ := bindTypes_get hus
    refine ⟨by simp [hlen], fun k t' hk => ?_⟩
    cases k with
    | zero =>
      simp only [getElem?_cons_zero, Option.some.injEq] at hk
      subst hk
      exact ⟨t, by simp, bindType_bound hu⟩
    | succ k =>
      obtain ⟨t0, ht0, hb⟩ := hget k t' (by simpa using hk)
      exact ⟨t0, by simpa using ht0, by rwa [show i + (k + 1) = i + 1 + k by omega]⟩

/-- The array between the two loops: bound, its groups not checked yet. -/
structure BoundArray (c : Nat) (types : List FuncType) : Prop where
  raw : ∀ {i : Nat} {t : FuncType}, types[i]? = some t → t.defined ∧
    t.canonical = some ⟨c, i⟩ ∧ t.group = some ⟨c, i - t.groupOffset⟩ ∧
    (t.superIndex = uint32Max ∨ t.superIndex < i) ∧
    t.super = if t.superIndex = uint32Max then none else some ⟨c, t.superIndex⟩
  value : ∀ {i : Nat} {t : FuncType} {v : ValueType}, types[i]? = some t → v ∈ t.values →
    WfValue c types v

/-- A value type stays well-formed in an array with the same kinds. -/
theorem WfValue.mono {c : Nat} {types types' : List FuncType}
    (h : WfValue c types v) (hk : ∀ (i : Nat) (t : FuncType), types[i]? = some t →
      ∃ t' : FuncType, types'[i]? = some t' ∧ t'.kind = t.kind) : WfValue c types' v := by
  cases h with
  | num _ _ hc => exact .num _ _ hc
  | heap _ _ _ _ hk' => exact .heap _ _ _ _ hk'
  | index nullable i d hd =>
    obtain ⟨d', hd', hkind⟩ := hk i d hd
    rw [← hkind]
    exact .index nullable i d' hd'

theorem bindTypes_bound {ctx : TypeCtx} {types : List FuncType} (hraw : RawArray ctx)
    (h : bindTypes ctx 0 ctx.types = some types) : BoundArray ctx.addr types := by
  obtain ⟨hlen, hget⟩ := bindTypes_get h
  -- a zero record has an empty group, which the loop refuses
  have hread : ∀ {i t'}, types[i]? = some t' → ∃ t, ctx.types[i]? = some t ∧
      RawType ctx.addr i t ∧ BoundType ctx (0 + i) t t' := by
    intro i t' ht'
    obtain ⟨t, ht, hb⟩ := hget i t' ht'
    rcases hraw i t ht with rfl | hr
    · exact absurd hb.groupPos (by simp [zero])
    · exact ⟨t, ht, hr, hb⟩
  refine ⟨fun {i t'} ht' => ?_, fun {i t' v'} ht' hv' => ?_⟩
  · obtain ⟨t, -, hr, hb⟩ := hread ht'
    rw [hb.eq]
    exact ⟨hr.defined, hr.canonical, hr.group, hr.superIndex, hr.super⟩
  obtain ⟨t, -, hr, hb⟩ := hread ht'
  obtain ⟨v, hv, hbind⟩ := hb.value v' hv'
  refine (bindValue_wf (hr.value v hv) hbind).mono fun j u hu => ?_
  have hj := lt_of_getElem? hu
  have hj' : j < types.length := by omega
  have hget' : types[j]? = some types[j] := getElem?_eq_getElem hj'
  obtain ⟨u', hu', -, hb'⟩ := hread hget'
  rw [hu] at hu'
  cases hu'
  exact ⟨_, hget', by rw [hb'.eq]⟩

/-! ## 4. Checking the groups -/

/-- Two arrays that differ in dependency depths only. -/
def SameButDepth (types types' : List FuncType) : Prop :=
  types.map (fun t => { t with dependencyDepth := 0 }) =
    types'.map (fun t => { t with dependencyDepth := 0 })

namespace SameButDepth

variable {types types' : List FuncType}

section

variable (h : SameButDepth types types')

include h

theorem symm : SameButDepth types' types := Eq.symm h

theorem trans (h' : SameButDepth types' types'') :
    SameButDepth types types'' := Eq.trans h h'

theorem length : types.length = types'.length := by
  simpa using congrArg List.length h

theorem get {i : Nat} {t : FuncType} (ht : types[i]? = some t) :
    ∃ d, types'[i]? = some { t with dependencyDepth := d } := by
  have hi := congrArg (fun l => l[i]?) h
  simp only [getElem?_map, ht] at hi
  obtain ⟨t', ht', heq⟩ := map_eq_some_iff.mp hi.symm
  cases t'
  simp_all

end

end SameButDepth

variable {types types' : List FuncType} {count fuel i c : Nat} {ctx : TypeCtx} {H : TypeHeap}
  {r r' : Reader} {t : ValueType} {start : Nat} {v : ValueType}

theorem setDepth_same (types : List FuncType) (start count depth : Nat) :
    SameButDepth (setDepth types start count depth) types := by
  unfold SameButDepth setDepth
  apply ext_getElem?
  intro i
  simp only [getElem?_map, getElem?_mapIdx, Option.map_map]
  congr 1
  funext t
  split <;> rfl

theorem valuesDepth_bound :
    ∀ {vs : List ValueType} {depth d : Nat}, valuesDepth types start count depth vs = some d →
      ∀ v ∈ vs, v.definition.isSome → v.typeIndex < start + count
  | [], _, _, _ => by simp
  | v :: vs, depth, d, h => by
    unfold valuesDepth at h
    split at h
    · cases h
    · rename_i hv
      refine forall_mem_cons.mpr ⟨fun hsome => ?_, valuesDepth_bound h⟩
      by_contra hge
      exact hv ⟨hsome, by omega⟩

/-- What the member loop checks of the member at position `k` of the group at `start`. -/
structure MemberOk (c start count k : Nat) (t : FuncType) : Prop where
  group : t.group = some ⟨c, start⟩
  offset : t.groupOffset = k
  size : t.groupCount = count
  bound : ∀ v ∈ t.values, v.definition.isSome → v.typeIndex < start + count

theorem groupDepth_member :
    ∀ {ms : List FuncType} {j depth d : Nat}, groupDepth ctx start count j ms depth = some d →
      ∀ (k : Nat) (t : FuncType), ms[k]? = some t → MemberOk ctx.addr start count (j + k) t
  | [], _, _, _, _ => by simp
  | m :: ms, j, depth, d, h => by
    intro k t hk
    unfold groupDepth at h
    split at h
    · cases h
    rename_i hm
    simp only [not_or, not_not] at hm
    split at h
    · cases h
    rename_i d' hd'
    cases k with
    | zero =>
      simp only [getElem?_cons_zero, some.injEq] at hk
      subst hk
      exact ⟨hm.1, hm.2.1, hm.2.2, valuesDepth_bound hd'⟩
    | succ k =>
      have := groupDepth_member h k t (by simpa using hk)
      rwa [show j + (k + 1) = j + 1 + k by omega]

theorem allShort_true {α : Type} {f : α → Option Bool} : ∀ {xs : List α},
    allShort f xs = some true → ∀ x ∈ xs, f x = some true
  | [], _ => by simp
  | x :: xs, h => by
    unfold allShort at h
    split at h
    · rename_i hx
      exact forall_mem_cons.mpr ⟨hx, allShort_true h⟩
    · rename_i hne
      exact absurd h hne

theorem subtypeBody_kind {t u : FuncType} {p : TypePtr}
    (h : subtypeBody H fuel t = some true) (hp : t.super = some p) (hu : H.get p = some u) :
    u.kind = t.kind := by
  simp only [subtypeBody, hp, hu] at h
  split at h
  · cases h
  · rename_i hne
    simp only [not_or, not_not] at hne
    exact hne.2.1.symm

/-- What the second loop establishes of the record at `k`. -/
structure GroupFacts (types : List FuncType) (k : Nat) (t : FuncType) : Prop where
  offset : t.groupOffset ≤ k ∧ t.groupOffset < t.groupCount
  member : ∀ j < t.groupCount, ∃ u, types[k - t.groupOffset + j]? = some u ∧ u.groupOffset = j ∧
    u.groupCount = t.groupCount
  bound : ∀ v ∈ t.values, v.definition.isSome → v.typeIndex < k - t.groupOffset + t.groupCount
  superKind : ∀ (p : TypePtr) (u : FuncType), t.super = some p → types[p.index]? = some u →
    u.kind = t.kind

/-- One round: the group at `i`.  The array of the loop is `types` up to dependency depths. -/
theorem group_facts {d : Nat}
    (hbound : BoundArray ctx.addr types) (hsame : SameButDepth types ctx.types)
    (hcount : i + count ≤ types.length)
    (hdepth : groupDepth ctx i count 0 ((ctx.types.drop i).take count) 1 = some d)
    (hsame' : SameButDepth types types') (hsub : allShort (subtypeBody (H.put ctx.addr types') fuel)
      ((types'.drop i).take count) = some true) :
    ∀ (k : Nat) (t : FuncType), i ≤ k → k < i + count → types[k]? = some t →
      GroupFacts types k t := by
  have slice : ∀ (l : List FuncType) j, j < count → ((l.drop i).take count)[j]? = l[i + j]? := by
    intro l j hj
    rw [getElem?_take, if_pos hj, getElem?_drop]
  have hmember : ∀ j (t : FuncType), j < count → types[i + j]? = some t →
      MemberOk ctx.addr i count j t := by
    intro j t hj ht
    obtain ⟨e, he⟩ := hsame.get ht
    have := groupDepth_member hdepth j _ ((slice ctx.types j hj).trans he)
    rw [zero_add] at this
    exact ⟨this.group, this.offset, this.size, this.bound⟩
  intro k t hik hk ht
  obtain ⟨j, rfl⟩ := Nat.exists_eq_add_of_le hik
  have hj : j < count := by omega
  have hok := hmember j t hj ht
  have hstart : i + j - t.groupOffset = i := by rw [hok.offset]; omega
  refine ⟨by rw [hok.offset, hok.size]; omega, ?_, ?_, ?_⟩
  · intro j' hj'
    rw [hok.size] at hj'
    have hlt : i + j' < types.length := by omega
    have hu := hmember j' types[i + j'] hj' (getElem?_eq_getElem hlt)
    rw [hstart, hok.size]
    exact ⟨_, getElem?_eq_getElem hlt, hu.offset, hu.size⟩
  · rw [hstart, hok.size]
    exact hok.bound
  intro p u hp hu
  obtain ⟨e, he⟩ := hsame'.get ht
  obtain ⟨e', he'⟩ := hsame'.get hu
  have hbody := allShort_true hsub _
    (mem_of_getElem? ((slice types' j hj).trans he))
  obtain ⟨-, -, -, -, hsup⟩ := hbound.raw ht
  have hpc : p.ctx = ctx.addr := by
    rw [hp] at hsup
    split at hsup
    · cases hsup
    · cases hsup
      rfl
  refine subtypeBody_kind (u := { u with dependencyDepth := e' }) hbody hp ?_
  rwa [TypeHeap.get, hpc, TypeHeap.put_self]

/-- **The second loop establishes the facts of every record** and changes dependency depths
only. -/
theorem finalizeGroups_facts : ∀ {rounds i : Nat}
    {ctx ctx' : TypeCtx}, finalizeGroups H rounds i ctx = .ok ctx' → BoundArray ctx.addr types →
    SameButDepth types ctx.types →
    (∀ (k : Nat) (t : FuncType), k < i → types[k]? = some t → GroupFacts types k t) →
    ctx'.addr = ctx.addr ∧ SameButDepth types ctx'.types ∧
      ∀ (k : Nat) (t : FuncType), types[k]? = some t → GroupFacts types k t
  | 0, i, ctx, ctx', h, _, hsame, hdone => by
    unfold finalizeGroups at h
    split at h
    · cases h
    cases h
    refine ⟨rfl, hsame, fun k t ht => hdone k t ?_ ht⟩
    have := lt_of_getElem? ht
    have := hsame.length
    omega
  | rounds + 1, i, ctx, ctx', h, hbound, hsame, hdone => by
    unfold finalizeGroups at h
    split at h
    · rename_i hi
      cases h
      refine ⟨rfl, hsame, fun k t ht => hdone k t ?_ ht⟩
      have := lt_of_getElem? ht
      have := hsame.length
      have := getElem?_eq_none_iff.mp hi
      omega
    rename_i head hhead
    simp only [bind_eq_ok, orFail_eq_ok, failIf_eq_ok, decide_eq_false_iff_not, Bool.not_eq_false',
      exists_const] at h
    obtain ⟨hcount, d, hdepth, -, ok, hsub, hok, h⟩ := h
    subst hok
    have hlen := hsame.length
    have hsame' := hsame.trans (setDepth_same ctx.types i head.groupCount d).symm
    have hgroup := group_facts hbound hsame (by omega) hdepth hsame' hsub
    have hdone' : ∀ k t, k < i + head.groupCount → types[k]? = some t →
        GroupFacts types k t := by
      intro k t hk ht
      rcases k.lt_or_ge i with hlt | hge
      · exact hdone k t hlt ht
      · exact hgroup k t hge hk ht
    have hrec := finalizeGroups_facts h hbound hsame' hdone'
    exact hrec

/-! ## 5. Finalized arrays -/

theorem WfValue.definition_isSome
    (h : WfValue c types v) (hk : v.heapKind = .typeIndex) : v.definition.isSome := by
  cases h with
  | num => cases hk
  | heap _ _ _ _ ha => exact absurd hk (abstractCarrier_ne ha)
  | index => rfl

theorem BoundArray.final (hb : BoundArray c types)
    (hg : ∀ (k : Nat) (t : FuncType), types[k]? = some t → GroupFacts types k t) :
    FinalTypes c types where
  defined ht := (hb.raw ht).1
  offset ht := (hg _ _ ht).offset
  group ht := (hb.raw ht).2.2.1
  member ht := (hg _ _ ht).member
  value ht hv := hb.value ht hv
  bound ht hv hk := (hg _ _ ht).bound _ hv ((hb.value ht hv).definition_isSome hk)
  superIndex ht := (hb.raw ht).2.2.2
  superKind ht hp hu := (hg _ _ ht).superKind _ _ hp hu

/-- Two arrays that differ in dependency depths and canonical pointers only. -/
def SameCore (types types' : List FuncType) : Prop :=
  types.map (fun t => { t with dependencyDepth := 0, canonical := none }) =
    types'.map (fun t => { t with dependencyDepth := 0, canonical := none })

section

variable (h : SameCore types types')

include h

theorem SameCore.symm :
    SameCore types' types := Eq.symm h

theorem SameCore.trans {types'' : List FuncType}
    (h' : SameCore types' types'') : SameCore types types'' := Eq.trans h h'

theorem SameCore.length : types.length = types'.length := by
  simpa using congrArg List.length h

theorem SameCore.get {t : FuncType} (ht : types[i]? = some t) :
    ∃ d q, types'[i]? = some { t with dependencyDepth := d, canonical := q } := by
  have hi := congrArg (fun l => l[i]?) h
  simp only [getElem?_map, ht] at hi
  obtain ⟨t', ht', heq⟩ := map_eq_some_iff.mp hi.symm
  cases t'
  simp_all

end

theorem SameButDepth.core (h : SameButDepth types types') : SameCore types types' := by
  have := congrArg (List.map fun t : FuncType => { t with canonical := none }) h
  simpa [SameCore, Function.comp_def] using this

/-- Dependency depths and canonical pointers play no part. -/
theorem FinalTypes.same (h : FinalTypes c types)
    (hs : SameCore types types') : FinalTypes c types' := by
  have back : ∀ {i : Nat} {t' : FuncType}, types'[i]? = some t' →
      ∃ t d q, types[i]? = some t ∧ t' = { t with dependencyDepth := d, canonical := q } := by
    intro i t' ht'
    obtain ⟨d, q, hd⟩ := hs.symm.get ht'
    exact ⟨_, t'.dependencyDepth, t'.canonical, hd, rfl⟩
  refine ⟨?_, ?_, ?_, ?_, ?_, ?_, ?_, ?_⟩
  · intro i t' ht'
    obtain ⟨t, d, q, ht, rfl⟩ := back ht'
    have fact := h.defined ht
    exact fact
  · intro i t' ht'
    obtain ⟨t, d, q, ht, rfl⟩ := back ht'
    have fact := h.offset ht
    exact fact
  · intro i t' ht'
    obtain ⟨t, d, q, ht, rfl⟩ := back ht'
    have fact := h.group ht
    exact fact
  · intro i t' ht' j hj
    obtain ⟨t, d, q, ht, rfl⟩ := back ht'
    obtain ⟨u, hu, ho, hc⟩ := h.member ht j hj
    obtain ⟨e, q', he⟩ := hs.get hu
    exact ⟨_, he, ho, hc⟩
  · intro i t' v ht' hv
    obtain ⟨t, d, q, ht, rfl⟩ := back ht'
    refine (h.value ht hv).mono fun j u hu => ?_
    obtain ⟨e, q', he⟩ := hs.get hu
    exact ⟨_, he, rfl⟩
  · intro i t' v ht' hv
    obtain ⟨t, d, q, ht, rfl⟩ := back ht'
    have fact := h.bound ht hv
    exact fact
  · intro i t' ht'
    obtain ⟨t, d, q, ht, rfl⟩ := back ht'
    have fact := h.superIndex ht
    exact fact
  · intro i t' p u' ht' hp hu'
    obtain ⟨t, d, q, ht, rfl⟩ := back ht'
    obtain ⟨u, e, q', hu, rfl⟩ := back hu'
    have fact := h.superKind ht hp hu
    exact fact

/-- `turbowasm_validation_types_finalize` on a freshly filled array. -/
theorem typesFinalize_final {ctx' : TypeCtx} (hraw : RawArray ctx)
    (h : typesFinalize H ctx = .ok ctx') : ctx'.addr = ctx.addr ∧ FinalTypes ctx.addr ctx'.types ∧
      ∀ (i : Nat) (t : FuncType), ctx'.types[i]? = some t → t.canonical = some ⟨ctx.addr, i⟩ := by
  simp only [typesFinalize, bind_eq_ok, orFail_eq_ok] at h
  obtain ⟨types, hbind, h⟩ := h
  have hbound := bindTypes_bound hraw hbind
  obtain ⟨haddr, hsame, hfacts⟩ := finalizeGroups_facts h hbound rfl
    (fun k _ hk => absurd hk (Nat.not_lt_zero _))
  refine ⟨haddr, (hbound.final hfacts).same hsame.core, fun i t ht => ?_⟩
  obtain ⟨d, hd⟩ := hsame.symm.get ht
  exact (hbound.raw hd).2.1

/-- Validation fills as many records as it counted and finalizes them. -/
theorem validateCompositeTypes_read {addr : Nat}
    (h : validateCompositeTypes H addr r = .ok (ctx, r')) : ∃ (n : Nat) (o : Option TypeCtx)
      (s : Reader) (ctx₀ : TypeCtx), readGroups r none = .ok (n, o, s) ∧
      FilledCtx addr n (some ctx₀) ∧ typesFinalize H ctx₀ = .ok ctx := by
  simp only [validateCompositeTypes, bind_eq_ok, orFail_eq_ok, Prod.exists] at h
  obtain ⟨count, o, s, hcount, total, _, r1, hread, ctx1, rfl, ctx2, hfin, heq⟩ := h
  cases heq
  refine ⟨count, o, s, ctx1, hcount, readGroups_filled ?_ _ hread, hfin⟩
  refine ⟨_, rfl, rfl, length_replicate, fun i t ht => .inl ?_⟩
  exact (mem_replicate.mp (mem_of_getElem? ht)).2

theorem validateCompositeTypes_raw {addr : Nat}
    (h : validateCompositeTypes H addr r = .ok (ctx, r')) :
    ∃ ctx₀ : TypeCtx, ctx₀.addr = addr ∧ RawArray ctx₀ ∧ typesFinalize H ctx₀ = .ok ctx := by
  obtain ⟨_, _, _, ctx₀, -, ⟨_, heq, rfl, -, hall⟩, hfin⟩ := validateCompositeTypes_read h
  cases heq
  exact ⟨ctx₀, rfl, fun i t ht => (hall i t ht).imp_right And.left, hfin⟩

/-- **A type section that validation accepts leaves a finalized type array**, every record of
which is its own canonical representative. -/
theorem validateCompositeTypes_final {addr : Nat}
    (h : validateCompositeTypes H addr r = .ok (ctx, r')) : ctx.addr = addr ∧
      FinalTypes addr ctx.types ∧
      ∀ (i : Nat) (t : FuncType), ctx.types[i]? = some t → t.canonical = some ⟨addr, i⟩ := by
  obtain ⟨ctx₀, rfl, hraw, hfin⟩ := validateCompositeTypes_raw h
  exact typesFinalize_final hraw hfin

/-! ## 6. Matching on a validated type section -/

/-- Every value type that is read against a finalized array is well formed. -/
theorem FinalTypes.covers (hf : FinalTypes ctx.addr ctx.types) :
    Covers (some ctx) (WfValue ctx.addr ctx.types) := by
  refine ⟨fun h => ?_, fun {i t} _ h n => ?_⟩
  · cases h with
    | num _ hc => exact .num _ _ hc
    | heap _ _ _ hk => exact .heap _ _ _ _ hk
  simp only [heapOfIndex] at h
  split at h
  · cases h
  rename_i d hd
  cases h
  have hcarrier : (if d.defined && d.kind != .function then 0x6e else 0x70) =
      kindCarrier d.kind := by
    rw [hf.defined hd]
    cases d.kind <;> rfl
  rw [hcarrier]
  exact .index n i d hd

/-- A freshly read array is its own canonical representative. -/
theorem canonSound_self
    (h : ∀ (i : Nat) (t : FuncType), (H c)[i]? = some t → t.canonical = some ⟨c, i⟩) :
    CanonSound H c c := by
  intro i j P Q hP hQ _ heq
  rw [h i P hP, h j Q hQ] at heq
  cases heq
  rfl

/-- The laws of matching and equality on a set of value types. -/
structure MatchLaws (H : TypeHeap) (fuel : Nat) (V : ValueType → Prop) : Prop where
  answers : ∀ a b, V a → V b →
    (valueTypeMatches H fuel a b).isSome ∧ (valueTypeEqual H fuel a b).isSome
  refl : ∀ a, V a → valueTypeMatches H fuel a a = some true
  trans : ∀ a b d, V a → V b → V d → valueTypeMatches H fuel a b = some true →
    valueTypeMatches H fuel b d = some true → valueTypeMatches H fuel a d = some true
  equal : ∀ a b, V a → V b →
    ((valueTypeMatches H fuel a b = some true ∧ valueTypeMatches H fuel b a = some true) ↔
      valueTypeEqual H fuel a b = some true)

theorem matchLaws (hf : FinalTypes c (H c))
    (hcanon : CanonSound H c c) (hfuel : (H c).length < fuel) :
    MatchLaws H fuel (WfValue c (H c)) := by
  have hle : ∀ {a b}, WfValue c (H c) a → WfValue c (H c) b →
      (valueTypeMatches H fuel a b = some true ↔ ValueLe H a b) := fun ha hb =>
    (valueTypeMatches_decides hf hf hcanon hfuel ha hb).eq_true_iff
  refine ⟨fun a b ha hb => ?_, fun a ha => ?_, fun a b d ha hb hd hab hbd => ?_,
    fun a b ha hb => ?_⟩
  · exact ⟨(valueTypeMatches_decides hf hf hcanon hfuel ha hb).isSome,
      (valueTypeEqual_decides hf hf hcanon hfuel ha hb).isSome⟩
  · exact (hle ha ha).mpr (.refl H a)
  · exact (hle ha hd).mpr (((hle ha hb).mp hab).trans (ha.refLive hf) (hb.refLive hf) (hd.refLive hf)
      ((hle hb hd).mp hbd))
  · rw [hle ha hb, hle hb ha, (valueTypeEqual_decides hf hf hcanon hfuel ha hb).eq_true_iff]
    exact ValueLe.antisymm_iff hf ha hb

/-- **Matching on a validated type section is a preorder whose equivalence is type equality.**
The value types of the section's records, and those read against it later, are well formed; on
well-formed value types matching and equality always answer, matching is reflexive and transitive,
and two value types match each other exactly when they are equal. -/
theorem valueTypeMatches_preorder {H : TypeHeap} {addr : Nat} {r r' : Reader} {ctx : TypeCtx}
    (h : validateCompositeTypes H addr r = .ok (ctx, r')) :
    (∀ t ∈ ctx.types, ∀ v ∈ t.values, WfValue addr ctx.types v) ∧
    (∀ b b' v, readValtype b (some ctx) = .ok (v, b') → WfValue addr ctx.types v) ∧
    ∀ fuel, ctx.types.length < fuel →
      MatchLaws (H.put addr ctx.types) fuel (WfValue addr ctx.types) := by
  obtain ⟨rfl, hfinal, hcanon⟩ := validateCompositeTypes_final h
  have hput : H.put ctx.addr ctx.types ctx.addr = ctx.types := TypeHeap.put_self ..
  refine ⟨fun t ht v hv => ?_, fun b b' v hv => readValtype_covers hfinal.covers _ hv, fun fuel hfuel => ?_⟩
  · obtain ⟨i, hi⟩ := getElem?_of_mem ht
    exact hfinal.value hi hv
  · have hc : CanonSound (H.put ctx.addr ctx.types) ctx.addr ctx.addr :=
      canonSound_self (by rwa [hput])
    have hlaws := matchLaws (H := H.put ctx.addr ctx.types) (by rwa [hput]) hc (by rwa [hput])
    rwa [hput] at hlaws

/-- A type section with one recursion group: a struct that refers to itself, and a subtype of it
that narrows the reference to itself. -/
def narrowingSection : Reader :=
  ⟨0, [0x01, 0x4e, 0x02,
       0x50, 0x00, 0x5f, 0x01, 0x63, 0x00, 0x00,
       0x50, 0x01, 0x00, 0x5f, 0x01, 0x63, 0x01, 0x00]⟩

theorem valueTypeMatches_preorder_narrowing : ∃ ctx r',
    validateCompositeTypes (fun _ => []) 0 narrowingSection = .ok (ctx, r') ∧
    ctx.types.length = 2 ∧ MatchLaws (TypeHeap.put (fun _ => []) 0 ctx.types) 3
      (WfValue 0 ctx.types) :=
  ⟨_, _, rfl, rfl, (valueTypeMatches_preorder
    (show validateCompositeTypes (fun _ => []) 0 narrowingSection = .ok _ from rfl)).2.2 3
      (by decide)⟩

end TurboWasm
