/-
# Canonical pointers across attaches

Attaching writes canonical pointers, and the comparison of types trusts them.  The invariant
`TypesOk` says what they may be: every record's canonical pointer points at a record of the SAME
closed type.  It is kept by loading a module and by attaching an instance, whatever the order and
however many stores there are, so the comparison keeps deciding iso-recursive equality, and since
neither step changes the closed type of an existing record, its answers never change.

`Moved` describes a clone: the same records, with their pointers moved to another array.
-/
import TurboWasm.Store.Attach
import TurboWasm.Types.Final

namespace TurboWasm

open TurboWasm.Lib List Function ValueType FuncType TypeHeap TypePtr

/-! ## 1. Moved arrays have the same terms -/

variable {c : Nat} {types : List FuncType} {H : TypeHeap} {i : Nat} {ctx : TypeCtx} {v : ValueType}

/-- The record that corresponds to `p` in the array at `c`. -/
def TypePtr.moveTo (c : Nat) (p : TypePtr) : TypePtr := ⟨c, p.index⟩

/-- `types'` are the records of `types`, pointing into the array at `c`. -/
structure Moved (c : Nat) (types types' : List FuncType) : Prop where
  length : types'.length = types.length
  get : ∀ {i : Nat} {t : FuncType}, types[i]? = some t → ∃ t', types'[i]? = some t' ∧
    t'.shape = t.shape ∧ t'.refs = t.refs.map (Option.map (moveTo c)) ∧
    t'.groupCount = t.groupCount ∧ t'.groupOffset = t.groupOffset

theorem isoTerm_moved {H' : TypeHeap} (hf : FinalTypes c (H c))
    (hf' : FinalTypes c' (H' c')) (hm : Moved c' (H c) (H' c'))
    (hi : i < (H c).length) : isoTerm H' ⟨c', i⟩ = isoTerm H ⟨c, i⟩ := by
  have hget : ∀ n : TypePtr, n.ctx = c ∧ Live H n → ∃ t t', H.get n = some t ∧
      H'.get (n.moveTo c') = some t' ∧ t'.groupCount = t.groupCount ∧
      t'.groupOffset = t.groupOffset := by
    rintro ⟨_, k⟩ ⟨rfl, hl⟩
    obtain ⟨t, ht⟩ := hl.get
    obtain ⟨t', ht', -, -, hc, ho⟩ := hm.get ht
    exact ⟨t, t', ht, ht', hc, ho⟩
  refine RefGraph.unroll_map (V := fun n => n.ctx = c ∧ Live H n) (φ := moveTo c')
    ?_ ?_ ?_ ?_ (i + 1) ⟨c, i⟩ ⟨rfl, hf, hi⟩
  · rintro n ⟨hc, hl⟩ m hmem k hk
    have href : RefOf H n (some k) := ⟨m, hmem, hk⟩
    obtain ⟨hkl, hkc⟩ := href.live hl
    exact ⟨hkc.trans hc, hkl⟩
  · rintro n ⟨hc, hl⟩
    obtain ⟨t, t', ht, ht', hcount, hoff⟩ := hget n ⟨hc, hl⟩
    simp only [typeGraph, ht, ht', hcount, hoff, map_map]
    apply map_congr_left
    intro j hj
    obtain ⟨u, hu, -, -, -⟩ := hl.1.member_group ht (mem_range.mp hj)
    subst hc
    obtain ⟨u', hu', hshape, hrefs, -, -⟩ := hm.get hu
    have h1 : H.get ⟨n.ctx, n.index - t.groupOffset + j⟩ = some u := hu
    have h2 : H'.get ⟨c', n.index - t.groupOffset + j⟩ = some u' := hu'
    simp [moveTo, h1, h2, hshape, hrefs]
  · intro n hn
    obtain ⟨t, t', ht, ht', -, hoff⟩ := hget n hn
    simp [typeGraph, ht, ht', hoff]
  · rintro n k ⟨hnc, hnl⟩ ⟨hkc, hkl⟩
    obtain ⟨t, t', ht, ht', -, hoff⟩ := hget n ⟨hnc, hnl⟩
    obtain ⟨u, u', hu, hu', -, hoff'⟩ := hget k ⟨hkc, hkl⟩
    -- two records share a group when they count back to the same first member
    have hsame : u'.group = t'.group ↔ u.group = t.group := by
      rw [hf'.group hu', hf'.group ht', hnl.1.group ht, hkl.1.group hu, hoff, hoff', hnc, hkc]
      simp [moveTo]
    simp only [typeGraph, ht, ht', hu, hu', hoff', hsame]

/-- Changing canonical pointers moves nothing. -/
theorem SameCore.moved (hf : FinalTypes c types)
    (h : SameCore types types') : Moved c types types' where
  length := h.length.symm
  get := by
    intro i t ht
    obtain ⟨d, q, hd⟩ := h.get ht
    refine ⟨_, hd, rfl, ?_, rfl, rfl⟩
    have hid : t.refs.map (.map (moveTo c)) = t.refs := by
      conv_rhs => rw [← map_id t.refs]
      apply map_congr_left
      intro o ho
      cases o with
      | none => rfl
      | some p =>
        obtain ⟨hc, -, -⟩ := hf.ref_lt ht ho
        simp [moveTo, ← hc]
    rw [hid]
    rfl

/-! ## 2. A clone is the moved array -/

/-- A value type with its definition in the array at `c`. -/
def ValueType.moveTo (c : Nat) (v : ValueType) : ValueType :=
  { v with definition := v.definition.map (TypePtr.moveTo c) }

def Field.moveTo (c : Nat) (f : Field) : Field := { f with type := f.type.moveTo c }

theorem ValueType.moveTo_ref (c : Nat) (v : ValueType) :
    (v.moveTo c).ref = v.ref.map (TypePtr.moveTo c) := by
  unfold ref moveTo
  split <;> simp

theorem mapM_eq_map {α β : Type} {f : α → Option β} {g : α → β} : ∀ {xs : List α},
    (∀ x ∈ xs, f x = some (g x)) → xs.mapM f = some (xs.map g)
  | [], _ => by simp
  | x :: xs, h => by
    rw [mapM_cons, h x (by simp), mapM_eq_map fun y hy => h y (by simp [hy])]
    rfl

/-- Binding a bound value type against a copy of its array moves its definition. -/
theorem bindValue_moved
    (hv : WfValue c types v) (hk : ∀ (i : Nat) (t : FuncType), types[i]? = some t →
      ∃ t' : FuncType, ctx.types[i]? = some t' ∧ t'.kind = t.kind) :
    bindValue ctx v = some (v.moveTo ctx.addr) := by
  unfold bindValue
  cases hv with
  | num => simp [ValueType.moveTo]
  | heap _ _ _ _ ha => simp [ValueType.moveTo, abstractCarrier_ne ha]
  | index nullable i d hd =>
    obtain ⟨d', hd', hkind⟩ := hk i d hd
    simp [ValueType.moveTo, hd', hkind, kindCarrier, TypeCtx.ptr, TypePtr.moveTo]

theorem RawValue.of_wf (h : WfValue c types v) : RawValue v := by
  cases h with
  | num _ _ hc => exact .num _ _ hc
  | heap _ _ _ _ ha => exact .heap _ _ _ _ ha
  | index => exact .index _ _ _ _

theorem cloneType_raw
    (hf : FinalTypes c types) (ht : types[i]? = some t) : RawType addr i (cloneType addr i t) where
  defined := rfl
  offset := (hf.offset ht).1
  group := rfl
  superIndex := (hf.superIndex ht).1
  super := rfl
  canonical := rfl
  value _ hv := .of_wf (hf.value ht hv)

/-- **A clone is finalized, and is the original moved to its own address.** -/
theorem cloneTypes_moved
    (hf : FinalTypes c types) (h : cloneTypes H addr types = .ok ctx) : ctx.addr = addr ∧
      FinalTypes addr ctx.types ∧ Moved addr types ctx.types ∧
      ∀ (i : Nat) (t : FuncType), ctx.types[i]? = some t → t.canonical = some ⟨addr, i⟩ := by
  unfold cloneTypes at h
  have hraw : RawArray ⟨addr, types.mapIdx (cloneType addr)⟩ := by
    intro i t ht
    simp only [getElem?_mapIdx, Option.map_eq_some_iff] at ht
    obtain ⟨t0, ht0, rfl⟩ := ht
    exact .inr (cloneType_raw hf ht0)
  obtain ⟨haddr, hfinal, hcanon⟩ := typesFinalize_final hraw h
  refine ⟨haddr, hfinal, ?_, hcanon⟩
  simp only [typesFinalize, bind_eq_ok, orFail_eq_ok] at h
  obtain ⟨bound, hbind, h⟩ := h
  have hbound := bindTypes_bound hraw hbind
  obtain ⟨-, hsame, -⟩ := finalizeGroups_facts h hbound rfl
    (fun k _ hk => absurd hk (Nat.not_lt_zero _))
  obtain ⟨hlen, hget⟩ := bindTypes_get hbind
  refine ⟨by simpa [hlen] using hsame.length.symm, fun {i t} ht => ?_⟩
  have hclone : (types.mapIdx (cloneType addr))[i]? = some (cloneType addr i t) := by
    simp [ht]
  have hi : i < bound.length := by
    rw [hlen]
    exact lt_of_getElem? hclone
  obtain ⟨t0, ht0, hb⟩ := hget i bound[i] (getElem?_eq_getElem hi)
  rw [hclone] at ht0
  cases ht0
  obtain ⟨d, hd⟩ := hsame.get (List.getElem?_eq_getElem hi)
  refine ⟨_, hd, ?_⟩
  -- every value type of the copy is the original's, moved
  have hkinds : ∀ (j : Nat) u, types[j]? = some u → ∃ u' : FuncType,
      (types.mapIdx (cloneType addr))[j]? = some u' ∧ u'.kind = u.kind := by
    intro j u hu
    exact ⟨cloneType addr j u, by simp [hu], rfl⟩
  have hvalue : ∀ v ∈ t.values, bindValue ⟨addr, types.mapIdx (cloneType addr)⟩ v =
      some (v.moveTo addr) := fun v hv => bindValue_moved (hf.value ht hv) hkinds
  have hparams : bound[i].params = t.params.map (.moveTo addr) := by
    have := mapM_eq_map fun v hv => hvalue v (mem_values.mpr (.inl hv))
    exact Option.some.inj (hb.params.symm.trans this)
  have hresults : bound[i].results = t.results.map (.moveTo addr) := by
    have := mapM_eq_map fun v hv => hvalue v (mem_values.mpr (.inr (.inl hv)))
    exact Option.some.inj (hb.results.symm.trans this)
  have hfields : bound[i].fields = t.fields.map (.moveTo addr) := by
    have hfield : ∀ f ∈ t.fields, bindField ⟨addr, types.mapIdx (cloneType addr)⟩ f =
        some (f.moveTo addr) := fun f hfld => by
      simp [bindField, hvalue f.type (mem_values.mpr (.inr (.inr ⟨f, hfld, rfl⟩))), Field.moveTo]
    exact Option.some.inj (hb.fields.symm.trans (mapM_eq_map hfield))
  have hrest : bound[i].kind = t.kind ∧ bound[i].finalType = t.finalType ∧
      bound[i].super = (if t.superIndex = uint32Max then none else some ⟨addr, t.superIndex⟩) ∧
      bound[i].groupCount = t.groupCount ∧ bound[i].groupOffset = t.groupOffset := by
    rw [hb.eq]
    exact ⟨rfl, rfl, rfl, rfl, rfl⟩
  obtain ⟨hkind, hfin, hsuper, hcount, hoff⟩ := hrest
  refine ⟨?_, ?_, hcount, hoff⟩
  · simp only [FuncType.shape, hkind, hfin, hparams, hresults, hfields, map_map]
    rfl
  have hsuper' : bound[i].super = t.super.map (.moveTo addr) := by
    rw [hsuper, (hf.superIndex ht).2]
    split <;> rfl
  have hvalues : bound[i].values = t.values.map (.moveTo addr) := by
    simp only [values, hparams, hresults, hfields, map_append, map_map]
    rfl
  show bound[i].super :: bound[i].values.map ref = _
  simp only [FuncType.refs, hvalues, map_cons, map_map]
  congr 1
  apply map_congr_left
  intro v _
  exact v.moveTo_ref addr

/-! ## 3. The invariant of canonical pointers -/

/-- The arrays at the addresses in `K` are finalized, and every canonical pointer in them leads to a
record of the same closed type. -/
structure TypesOk (H : TypeHeap) (K : Nat → Prop) : Prop where
  final : ∀ {c : Nat}, K c → FinalTypes c (H c)
  canon : ∀ {c i : Nat} {t : FuncType}, K c → (H c)[i]? = some t → ∃ q, t.canonical = some q ∧
    K q.ctx ∧ q.index < (H q.ctx).length ∧ isoTerm H ⟨c, i⟩ = isoTerm H q

namespace TypesOk

variable {H H' : TypeHeap} {K : Nat → Prop} {p : TypePtr}

section

variable (h : TypesOk H K)

include h

theorem canonSound (hc : K c) (hd : K d) : CanonSound H c d := by
  intro i j P Q hP hQ _ heq
  obtain ⟨q, hq, -, -, hterm⟩ := h.canon hc hP
  obtain ⟨q', hq', -, -, hterm'⟩ := h.canon hd hQ
  rw [hq, hq'] at heq
  cases heq
  rw [hterm, hterm']

theorem live (hp : K p.ctx) (hi : p.index < (H p.ctx).length) :
    Live H p := ⟨h.final hp, hi⟩

/-- The comparison decides equality of closed types. -/
theorem decides {l r : TypePtr} (hl : K l.ctx) (hr : K r.ctx)
    (hli : l.index < (H l.ctx).length) (hri : r.index < (H r.ctx).length)
    (hfuel : l.index < fuel) : Decides (definedTypeEqual H fuel l r) (isoTerm H l = isoTerm H r) :=
  definedTypeEqual_decides fuel l r (h.canonSound hl hr) (h.live hl hli) (h.live hr hri) hfuel

/-- Memory that keeps the arrays of `K`, up to canonical pointers and depths, keeps their closed
types. -/
theorem isoTerm_same (hs : ∀ {c}, K c → SameCore (H c) (H' c))
    (hp : K p.ctx) (hi : p.index < (H p.ctx).length) : isoTerm H' p = isoTerm H p :=
  isoTerm_moved (h.final hp) ((h.final hp).same (hs hp)) ((hs hp).moved (h.final hp)) hi

/-- A new array joins, every record of it its own representative. -/
theorem put (ha : ¬ K a) (hf : FinalTypes a types)
    (hcanon : ∀ (i : Nat) (t : FuncType), types[i]? = some t → t.canonical = some ⟨a, i⟩) :
    TypesOk (H.put a types) (fun c => K c ∨ c = a) := by
  have hkeep : ∀ {c}, K c → H.put a types c = H c := fun hc =>
    put_ne H types (fun heq => ha (heq ▸ hc))
  have hterm : ∀ {p : TypePtr}, K p.ctx → p.index < (H p.ctx).length →
      isoTerm (H.put a types) p = isoTerm H p := fun hp hi =>
    h.isoTerm_same (fun hc => by rw [hkeep hc]; rfl) hp hi
  refine ⟨?_, ?_⟩
  · rintro c (hc | rfl)
    · rw [hkeep hc]
      exact h.final hc
    · rwa [put_self]
  rintro c i t (hc | rfl) ht
  · rw [hkeep hc] at ht
    obtain ⟨q, hq, hqk, hqi, heq⟩ := h.canon hc ht
    refine ⟨q, hq, .inl hqk, by rwa [hkeep hqk], ?_⟩
    rw [hterm (p := ⟨c, i⟩) hc (lt_of_getElem? ht), hterm hqk hqi, heq]
  · rw [put_self] at ht
    refine ⟨⟨c, i⟩, hcanon i t ht, .inr rfl, ?_, rfl⟩
    rw [put_self]
    exact lt_of_getElem? ht

end

end TypesOk

/-- After a group comes the first member of the next one. -/
theorem FinalTypes.next_start (hf : FinalTypes c types)
    {t u : FuncType} (ht : types[i]? = some t) (hoff : t.groupOffset = 0)
    (hu : types[i + t.groupCount]? = some u) : u.groupOffset = 0 := by
  by_contra hne
  have hto := hf.offset ht
  have huo := hf.offset hu
  -- the record before `u` belongs to both groups
  obtain ⟨v, hv, -, hvc, hvg⟩ := hf.member_group ht (show t.groupCount - 1 < t.groupCount by omega)
  obtain ⟨w, hw, -, hwc, hwg⟩ := hf.member_group hu
    (show u.groupOffset - 1 < u.groupCount by omega)
  rw [show i - t.groupOffset + (t.groupCount - 1) = i + t.groupCount - 1 by omega] at hv
  rw [show i + t.groupCount - u.groupOffset + (u.groupOffset - 1) = i + t.groupCount - 1 by omega,
    hv] at hw
  cases hw
  have hg := hvg.symm.trans hwg
  rw [hf.group ht, hf.group hu, Option.some.injEq, TypePtr.mk.injEq] at hg
  omega

section Copy

variable {H : TypeHeap} {K : Nat → Prop} {i j : Nat} {t : FuncType}

theorem copyCanonical_same (H : TypeHeap) (entry i count prior j c : Nat) :
    SameCore (H c) (copyCanonical H entry i count prior j c) := by
  unfold copyCanonical
  by_cases hc : c = entry
  · subst hc
    rw [put_self]
    apply ext_getElem?
    intro k
    simp only [getElem?_map, getElem?_mapIdx, Option.map_map]
    congr 1
    funext t
    split
    · split <;> rfl
    · rfl
  · rw [put_ne H _ hc]
    rfl

/-- The record at position `k` of a group that starts at `i`. -/
theorem group_get (hf : FinalTypes c (H c)) (ht : (H c)[i]? = some t)
    (hoff : t.groupOffset = 0) (hk : k < t.groupCount) : ∃ u, (H c)[i + k]? = some u ∧
      isoTerm H ⟨c, i + k⟩ = .mk (isoTerm H ⟨c, i⟩).members k := by
  obtain ⟨u, hu, huo, -, hug⟩ := hf.member_group ht hk
  rw [hoff, Nat.sub_zero] at hu
  refine ⟨u, hu, ?_⟩
  have hi : Live H ⟨c, i⟩ := .of_get hf ht
  have hik : Live H ⟨c, i + k⟩ := .of_get hf hu
  rw [isoTerm_sameGroup hi hik rfl ht hu hug, huo]

/-- Taking over the canonical pointers of an equal group keeps the invariant. -/
theorem TypesOk.copy (h : TypesOk H K) (he : K entry) (hp : K prior)
    (ht : (H entry)[i]? = some t) (hoff : t.groupOffset = 0) {u : FuncType}
    (hu : (H prior)[j]? = some u) (heq : isoTerm H ⟨entry, i⟩ = isoTerm H ⟨prior, j⟩) :
    TypesOk (copyCanonical H entry i t.groupCount prior j) K := by
  have hsame := fun {c : Nat} (_ : K c) => copyCanonical_same H entry i t.groupCount prior j c
  have hterm : ∀ {p : TypePtr}, K p.ctx → p.index < (H p.ctx).length →
      isoTerm (copyCanonical H entry i t.groupCount prior j) p = isoTerm H p := fun hp hi =>
    h.isoTerm_same hsame hp hi
  have hlen : ∀ c, (copyCanonical H entry i t.groupCount prior j c).length = (H c).length :=
    fun c => (copyCanonical_same H entry i t.groupCount prior j c).length.symm
  -- what the invariant needs of a record whose canonical pointer led to `q` before
  have hback : ∀ {c k : Nat} {q : TypePtr}, K c → k < (H c).length → K q.ctx →
      q.index < (H q.ctx).length → isoTerm H ⟨c, k⟩ = isoTerm H q →
      K q.ctx ∧ q.index < (copyCanonical H entry i t.groupCount prior j q.ctx).length ∧
        isoTerm (copyCanonical H entry i t.groupCount prior j) ⟨c, k⟩ =
          isoTerm (copyCanonical H entry i t.groupCount prior j) q := by
    intro c k q hc hk hqk hqi hq
    refine ⟨hqk, by rwa [hlen], ?_⟩
    rw [hterm (p := ⟨c, k⟩) hc hk, hterm hqk hqi, hq]
  obtain ⟨hoffu, -⟩ := isoTerm_member (.of_get (h.final he) ht) (.of_get (h.final hp) hu) ht hu heq
  have hcount : t.groupCount = u.groupCount := by
    have hl := heq
    rw [isoTerm_get (.of_get (h.final he) ht) ht, isoTerm_get (.of_get (h.final hp) hu) hu,
      IsoType.mk.injEq] at hl
    simpa using congrArg List.length hl.1
  refine ⟨fun hc => (h.final hc).same (hsame hc), fun {c k v} hc hv => ?_⟩
  have hk : k < (H c).length := by
    rw [← hlen c]
    exact lt_of_getElem? hv
  by_cases hce : c = entry
  · subst hce
    simp only [copyCanonical, put_self, getElem?_mapIdx, Option.map_eq_some_iff] at hv
    obtain ⟨v0, hv0, rfl⟩ := hv
    split
    · -- a record of the group
      rename_i hin
      obtain ⟨m, rfl⟩ := Nat.exists_eq_add_of_le hin.1
      obtain ⟨x, hx, hxt⟩ := group_get (h.final hp) hu (hoffu ▸ hoff) (k := m) (by omega)
      obtain ⟨y, hy, hyt⟩ := group_get (h.final hc) ht hoff (k := m) (by omega)
      rw [show i + m - i = m by omega, hx]
      obtain ⟨q, hq, hqk, hqi, hqt⟩ := h.canon hp hx
      refine ⟨q, hq, hback hc hk hqk hqi ?_⟩
      rw [hyt, heq, ← hxt, hqt]
    · obtain ⟨q, hq, hqk, hqi, hqt⟩ := h.canon hc hv0
      exact ⟨q, hq, hback hc hk hqk hqi hqt⟩
  · simp only [copyCanonical, put_ne H _ hce] at hv
    obtain ⟨q, hq, hqk, hqi, hqt⟩ := h.canon hc hv
    exact ⟨q, hq, hback hc hk hqk hqi hqt⟩

end Copy

/-! ## 4. The loops of an attach -/

section Loops

variable {H : TypeHeap} {fuel : Nat} {p : TypePtr} {source : Nat}

theorem findGroup_spec (h : TypesOk H K) (hp : K p.ctx)
    (hi : p.index < (H p.ctx).length) (hprior : K prior) (hfuel : p.index < fuel) :
    ∀ (rounds j : Nat), ∃ o, findGroup H fuel p prior rounds j = some o ∧
      ∀ k, o = some k → ∃ u, (H prior)[k]? = some u ∧ isoTerm H p = isoTerm H ⟨prior, k⟩
  | 0, _ => ⟨none, rfl, by simp⟩
  | rounds + 1, j => by
    unfold findGroup
    cases hj : (H prior)[j]? with
    | none => exact ⟨none, rfl, by simp⟩
    | some u =>
      obtain ⟨b, hb, hiff⟩ := h.decides (r := ⟨prior, j⟩) hp hprior hi
        (lt_of_getElem? hj) hfuel
      simp only [hb]
      cases b with
      | true =>
        refine ⟨some j, rfl, fun k hk => ?_⟩
        cases hk
        exact ⟨u, hj, hiff.mp rfl⟩
      | false => exact findGroup_spec h hp hi hprior hfuel rounds _

theorem findPrior_spec (h : TypesOk H K) (hp : K p.ctx)
    (hi : p.index < (H p.ctx).length) (hfuel : p.index < fuel) : ∀ (priors : List Nat),
    (∀ c ∈ priors, K c) → ∃ o, findPrior H fuel p priors = some o ∧
      ∀ prior k, o = some (prior, k) → K prior ∧ ∃ u, (H prior)[k]? = some u ∧
        isoTerm H p = isoTerm H ⟨prior, k⟩
  | [], _ => ⟨none, rfl, by simp⟩
  | prior :: rest, hK => by
    obtain ⟨o, ho, hspec⟩ := findGroup_spec h hp hi (hK prior (by simp)) hfuel (H prior).length 0
    unfold findPrior
    simp only [ho]
    cases o with
    | some j =>
      refine ⟨_, rfl, fun c k hck => ?_⟩
      cases hck
      exact ⟨hK prior (by simp), hspec j rfl⟩
    | none => exact findPrior_spec h hp hi hfuel rest (fun c hc => hK c (by simp [hc]))

/-- The group loop ends, keeps the invariant and changes canonical pointers only. -/
theorem canonicalize_spec (he : K entry)
    (hK : ∀ c ∈ priors, K c) : ∀ (rounds i : Nat) (H : TypeHeap), TypesOk H K →
    (H entry).length < fuel → (∀ t, (H entry)[i]? = some t → t.groupOffset = 0) →
    ∃ H', canonicalize fuel entry priors rounds i H = some H' ∧ TypesOk H' K ∧
      ∀ c, SameCore (H c) (H' c)
  | 0, _, H, h, _, _ => ⟨H, rfl, h, fun _ => rfl⟩
  | rounds + 1, i, H, h, hfuel, hstart => by
    unfold canonicalize
    cases ht : (H entry)[i]? with
    | none => exact ⟨H, rfl, h, fun _ => rfl⟩
    | some t =>
      have hoff := hstart t ht
      have hi : i < (H entry).length := lt_of_getElem? ht
      have hnext : ∀ u, (H entry)[i + t.groupCount]? = some u → u.groupOffset = 0 :=
        fun u hu => (h.final he).next_start ht hoff hu
      have hif : (mk entry i).index < fuel := hi.trans hfuel
      obtain ⟨o, ho, hspec⟩ := findPrior_spec h he hi hif priors hK
      simp only [ho]
      cases o with
      | none => exact canonicalize_spec he hK rounds _ H h hfuel hnext
      | some found =>
        obtain ⟨prior, j⟩ := found
        obtain ⟨hp, u, hu, heq⟩ := hspec prior j rfl
        have hsame := copyCanonical_same H entry i t.groupCount prior j
        have hnext' : ∀ u, (copyCanonical H entry i t.groupCount prior j entry)[i + t.groupCount]?
            = some u → u.groupOffset = 0 := by
          intro v hv
          obtain ⟨d, q, hd⟩ := (hsame entry).symm.get hv
          have fact := hnext _ hd
          exact fact
        obtain ⟨H', hH', hok, hcore⟩ := canonicalize_spec he hK rounds (i + t.groupCount) _
          (h.copy he hp ht hoff hu heq) (by rwa [← (hsame entry).length]) hnext'
        exact ⟨H', hH', hok, fun c => (hsame c).trans (hcore c)⟩

theorem findEntry_spec (h : TypesOk H K) (hs : K source)
    (hfuel : (H source).length < fuel) : ∀ (entries : List Nat), (∀ c ∈ entries, K c) →
    ∃ o, findEntry H fuel source entries = some o ∧ ∀ e, o = some e → e ∈ entries
  | [], _ => ⟨none, rfl, by simp⟩
  | entry :: rest, hK => by
    have hsame : ∃ b, sameTypes H fuel source entry = some b := by
      unfold sameTypes
      split
      · exact ⟨false, rfl⟩
      have heach : ∀ i ∈ List.range (H source).length,
          Decides (definedTypeEqual H fuel ⟨source, i⟩ ⟨entry, i⟩)
            (isoTerm H ⟨source, i⟩ = isoTerm H ⟨entry, i⟩) := fun i hi => by
        have hi := mem_range.mp hi
        exact h.decides (l := ⟨source, i⟩) (r := ⟨entry, i⟩) hs (hK entry (by simp)) hi
          (by simp only; omega) (by simp only; omega)
      obtain ⟨b, hb, -⟩ := allShort_decides heach
      exact ⟨b, hb⟩
    obtain ⟨b, hb⟩ := hsame
    unfold findEntry
    simp only [hb]
    cases b with
    | true => exact ⟨some entry, rfl, by simp⟩
    | false =>
      obtain ⟨o, ho, hmem⟩ := findEntry_spec h hs hfuel rest (fun c hc => hK c (by simp [hc]))
      exact ⟨o, ho, fun e he => mem_cons_of_mem _ (hmem e he)⟩

/-- A clone of known types at a new address, canonicalized. -/
theorem canonicalize_clone (h : TypesOk H K) (hsource : K source)
    (hfresh : ¬ K fresh) (hpriors : ∀ c ∈ priors, K c) {ctx : TypeCtx}
    (hclone : cloneTypes H fresh (H source) = .ok ctx) :
    ∃ H', canonicalize ((H source).length + 1) fresh priors ctx.types.length 0
        (H.put fresh ctx.types) = some H' ∧ TypesOk H' (fun c => K c ∨ c = fresh) ∧
      ∀ c, SameCore (H.put fresh ctx.types c) (H' c) := by
  obtain ⟨-, hf, hmoved, hcanon⟩ := cloneTypes_moved (h.final hsource) hclone
  have hput := h.put hfresh hf hcanon
  have hlen : (H.put fresh ctx.types fresh).length < (H source).length + 1 := by
    rw [put_self, hmoved.length]
    exact Nat.lt_succ_self _
  have hstart : ∀ t, (H.put fresh ctx.types fresh)[0]? = some t → t.groupOffset = 0 := by
    intro t ht
    rw [put_self] at ht
    exact Nat.le_zero.mp (hf.offset ht).1
  exact canonicalize_spec (.inr rfl) (fun c hc => .inl (hpriors c hc)) ctx.types.length 0 _ hput
    hlen hstart

end Loops

variable {L : Layout} {H : TypeHeap} {source fresh : Nat} {s' : Store} {allocated : Bool}

/-- What a new entry amounts to. -/
theorem newEntry_cases (h : newEntry L H s source fresh allocated = some (res, s', H')) :
    (∃ e, res = .error e ∧ s' = s ∧ H' = H) ∨
    (∃ bytes ctx, res = .ok () ∧ s.stats.bytes + bytes ≤ s.config.maxBytes ∧ s' = { s with
        types := fresh :: s.types, stats := { s.stats with bytes := s.stats.bytes + bytes } } ∧
      cloneTypes H fresh (H source) = .ok ctx ∧
      canonicalize ((H source).length + 1) fresh s.types ctx.types.length 0
        (H.put fresh ctx.types) = some H') := by
  simp only [newEntry, Option.bind_eq_bind, Option.bind_eq_some_iff] at h
  obtain ⟨left, hleft, h⟩ := h
  have hle : s.stats.bytes ≤ s.config.maxBytes ∧ left = s.config.maxBytes - s.stats.bytes := by
    simp only [Store.bytesLeft, checkedSub] at hleft
    split at hleft
    · cases hleft
      exact ⟨‹_›, rfl⟩
    · cases hleft
  split at h
  · cases h
    exact .inl ⟨_, rfl, rfl, rfl⟩
  rename_i bytes _
  split at h
  · cases h
    exact .inl ⟨_, rfl, rfl, rfl⟩
  rename_i hfits
  split at h
  · cases h
    exact .inl ⟨_, rfl, rfl, rfl⟩
  · rename_i ctx hctx
    simp only [Option.bind_eq_some_iff] at h
    obtain ⟨mem, hmem, rfl, rfl, rfl⟩ := h
    exact .inr ⟨bytes + L.entry, ctx, rfl, by omega, rfl, hctx, hmem⟩

/-- What an attach that answers can have done. -/
theorem storeAttach_cases
    (h : storeAttach L H s thread inst source fresh allocated = some (res, s', H')) :
    (∃ e, res = .error e ∧ s' = s ∧ H' = H) ∨
    (∃ entry, res = .ok entry ∧ s' = linkInstance s inst ∧ H' = H ∧
      findEntry H ((H source).length + 1) source s.types = some (some entry)) ∨
    (∃ bytes ctx, res = .ok fresh ∧ s.stats.bytes + bytes ≤ s.config.maxBytes ∧
      s' = linkInstance { s with
        types := fresh :: s.types
        stats := { s.stats with bytes := s.stats.bytes + bytes } } inst ∧
      cloneTypes H fresh (H source) = .ok ctx ∧
      canonicalize ((H source).length + 1) fresh s.types ctx.types.length 0
        (H.put fresh ctx.types) = some H') := by
  unfold storeAttach at h
  split at h
  · cases h
    exact .inl ⟨_, rfl, rfl, rfl⟩
  simp only [Option.bind_eq_bind, Option.bind_eq_some_iff] at h
  obtain ⟨found, hfound, h⟩ := h
  split at h
  · cases h
    exact .inr (.inl ⟨_, rfl, rfl, rfl, hfound⟩)
  simp only [Option.bind_eq_some_iff] at h
  obtain ⟨out, hout, h⟩ := h
  split at h
  · obtain ⟨e, he, rfl, rfl⟩ | ⟨_, _, he, -⟩ := newEntry_cases hout
    · cases h
      exact .inl ⟨_, rfl, rfl, rfl⟩
    · cases he
  · obtain ⟨e, he, -⟩ | ⟨bytes, ctx, -, hle, rfl, hctx, hmem⟩ := newEntry_cases hout
    · cases he
    · cases h
      exact .inr (.inr ⟨bytes, ctx, rfl, hle, rfl, hctx, hmem⟩)

/-- An attach always answers. -/
theorem storeAttach_answers {K : Nat → Prop}
    (h : TypesOk H K) (hbytes : s.stats.bytes ≤ s.config.maxBytes) (htypes : ∀ c ∈ s.types, K c)
    (hsource : K source) (hfresh : ¬ K fresh) (thread inst : Nat)
    (allocated : Bool) : ∃ out, storeAttach L H s thread inst source fresh allocated = some out := by
  unfold storeAttach
  split
  · exact ⟨_, rfl⟩
  obtain ⟨found, hfound, -⟩ := findEntry_spec h hsource (Nat.lt_succ_self _) s.types htypes
  simp only [Option.bind_eq_bind, hfound]
  have hnew : ∃ out, newEntry L H s source fresh allocated = some out := by
    simp only [newEntry, Store.bytesLeft, checkedSub, if_pos hbytes, Option.bind_eq_bind,
      Option.bind_some]
    split
    · exact ⟨_, rfl⟩
    split
    · exact ⟨_, rfl⟩
    split
    · exact ⟨_, rfl⟩
    · rename_i ctx hclone
      obtain ⟨H', hH', -⟩ := canonicalize_clone h hsource hfresh htypes hclone
      exact ⟨_, by rw [hH']; rfl⟩
  obtain ⟨out, hout⟩ := hnew
  cases found with
  | some entry => exact ⟨_, rfl⟩
  | none =>
    simp only [hout, Option.bind_some]
    split
    · exact ⟨_, rfl⟩
    · exact ⟨_, rfl⟩

/-! ## 5. Iso-recursive equality, spelled out -/

section Spec

/- The comparison of types outside the two groups. -/
variable (H : TypeHeap) (outside : TypePtr → TypePtr → Prop) (l r : TypePtr)

/-- Two references of the groups of `l` and `r`: inside the groups by position, outside by the
comparison `outside`. -/
def RefEqual (a b : Option TypePtr) : Prop :=
  match a, b with
  | none, none => True
  | some p, some q =>
    match (typeGraph H).inGroup l p, (typeGraph H).inGroup r q with
    | some i, some j => i = j
    | none, none => outside p q
    | _, _ => False
  | _, _ => False

/-- Two members of the groups of `l` and `r`: equal apart from references, and equal references. -/
def MemberEqual (t u : FuncType) : Prop :=
  t.shape = u.shape ∧ ∀ x ∈ t.refs.zip u.refs, RefEqual H outside l r x.1 x.2

/-- `l` and `r` sit at the same position of groups of equal size with equal members. -/
def GroupEqual : Prop :=
  ∃ L R, H.get l = some L ∧ H.get r = some R ∧ L.groupOffset = R.groupOffset ∧
    L.groupCount = R.groupCount ∧ ∀ j < L.groupCount,
      MemberEqual H outside l r (groupMember H l L j) (groupMember H r R j)

end Spec

variable {L : Layout} {w : TypeWorld} {t u : FuncType} {l r : TypePtr} {w' : TypeWorld}

theorem shape_refs_length (h : t.shape = u.shape) : t.refs.length = u.refs.length := by
  simp only [FuncType.shape, MemberShape.mk.injEq] at h
  obtain ⟨-, -, hp, hr, hf⟩ := h
  have hp := congrArg List.length hp
  have hr := congrArg List.length hr
  have hf := congrArg List.length hf
  simp only [length_map] at hp hr hf
  simp [refs, values, hp, hr, hf]

theorem memberEqual_iff (hout : ∀ p q, some p ∈ t.refs → some q ∈ u.refs →
      (outside p q ↔ isoTerm H p = isoTerm H q)) :
    MemberEqual H outside l r t u ↔ isoMember H l t = isoMember H r u := by
  have href : ∀ a ∈ t.refs, ∀ b ∈ u.refs,
      (RefEqual H outside l r a b ↔ a.map (isoRef H l) = b.map (isoRef H r)) := by
    intro a ha b hb
    cases a with
    | none => cases b <;> simp [RefEqual]
    | some p =>
      cases b with
      | none => simp [RefEqual]
      | some q =>
        simp only [RefEqual, isoRef, RefGraph.refTerm, Option.map_some]
        cases (typeGraph H).inGroup l p <;> cases (typeGraph H).inGroup r q <;>
          simp [hout p q ha hb]
  simp only [isoMember, Prod.mk.injEq]
  refine and_congr_right fun hshape => ?_
  rw [← zip_forall_iff _ _ _ _ (shape_refs_length hshape)]
  refine forall₂_congr fun x hx => ?_
  exact href x.1 (of_mem_zip hx).1 x.2 (of_mem_zip hx).2

theorem groupEqual_iff (hl : Live H l) (hr : Live H r)
    (hout : ∀ p q, Live H p → Live H q → p.ctx = l.ctx → q.ctx = r.ctx →
      (outside p q ↔ isoTerm H p = isoTerm H q)) :
    GroupEqual H outside l r ↔ isoTerm H l = isoTerm H r := by
  obtain ⟨L, hL⟩ := hl.get
  obtain ⟨R, hR⟩ := hr.get
  have hmember : L.groupCount = R.groupCount → ∀ j < L.groupCount,
      (MemberEqual H outside l r (groupMember H l L j) (groupMember H r R j) ↔
        isoMember H l (groupMember H l L j) = isoMember H r (groupMember H r R j)) := by
    intro hcount j hj
    refine memberEqual_iff fun p q hp hq => ?_
    obtain ⟨hpl, hpc⟩ := ((groupMember_get hl hL hj).2 _ hp).live hl
    obtain ⟨hql, hqc⟩ := ((groupMember_get hr hR (hcount ▸ hj)).2 _ hq).live hr
    exact hout p q hpl hql hpc hqc
  rw [isoTerm_get hl hL, isoTerm_get hr hR, IsoType.mk.injEq]
  constructor
  · rintro ⟨L', R', hL', hR', hoff, hcount, hall⟩
    rw [hL] at hL'
    rw [hR] at hR'
    cases hL'
    cases hR'
    refine ⟨?_, hoff⟩
    rw [← hcount, map_inj_left]
    exact fun j hj => (hmember hcount j (mem_range.mp hj)).mp
      (hall j (mem_range.mp hj))
  · rintro ⟨hms, hoff⟩
    have hcount : L.groupCount = R.groupCount := by simpa using congrArg List.length hms
    rw [← hcount, map_inj_left] at hms
    exact ⟨L, R, hL, hR, hoff, hcount, fun j hj =>
      (hmember hcount j hj).mpr (hms j (mem_range.mpr hj))⟩

/-! ## 6. Runs -/

/-- Memory, the loaded modules' type arrays, and the stores. -/
structure TypeWorld where
  mem : TypeHeap
  modules : List Nat
  stores : Nat → Store

/-- `c` is the address of a module's types or of types that a store retains. -/
def TypeWorld.Known (w : TypeWorld) (c : Nat) : Prop :=
  c ∈ w.modules ∨ ∃ k, c ∈ (w.stores k).types

/-- `p` points at a record of a known array. -/
def TypeWorld.Points (w : TypeWorld) (p : TypePtr) : Prop :=
  w.Known p.ctx ∧ p.index < (w.mem p.ctx).length

/-- One step: a type array is filled and finalized at a new address; an instance is attached to a
store; or the stores do anything that leaves their retained types alone. -/
inductive TypeStep (L : Layout) : TypeWorld → TypeWorld → Prop where
  | load {w : TypeWorld} {ctx ctx' : TypeCtx} : ¬ w.Known ctx.addr → RawArray ctx →
      typesFinalize w.mem ctx = .ok ctx' →
      TypeStep L w { w with
        mem := w.mem.put ctx.addr ctx'.types, modules := ctx.addr :: w.modules }
  | attach {w : TypeWorld} {k thread inst source fresh : Nat} {allocated : Bool}
      {res : Result Nat} {s' : Store} {mem' : TypeHeap} : source ∈ w.modules →
      ¬ w.Known fresh →
      storeAttach L w.mem (w.stores k) thread inst source fresh allocated = some (res, s', mem') →
      TypeStep L w { w with mem := mem', stores := update w.stores k s' }
  | other {w : TypeWorld} {stores' : Nat → Store} :
      (∀ k, (stores' k).types = (w.stores k).types) → TypeStep L w { w with stores := stores' }

theorem TypesOk.congr {K K' : Nat → Prop} (h : TypesOk H K)
    (hk : ∀ c, K' c ↔ K c) : TypesOk H K' := by
  have : K' = K := funext fun c => propext (hk c)
  rwa [this]

/-- `w'` keeps what `w` knows: its arrays, up to canonical pointers and depths. -/
def TypeWorld.Keeps (w w' : TypeWorld) : Prop :=
  ∀ c, w.Known c → w'.Known c ∧ SameCore (w.mem c) (w'.mem c)

/-- A store that retains the types of `N` besides makes those known. -/
theorem TypeWorld.known_update (w : TypeWorld) {s' : Store} {mem' : TypeHeap}
    {N : Nat → Prop} (h : ∀ c, c ∈ s'.types ↔ c ∈ (w.stores k).types ∨ N c) (c : Nat) :
    TypeWorld.Known { w with mem := mem', stores := update w.stores k s' } c ↔ w.Known c ∨ N c := by
  have hstore : ∀ k', c ∈ (update w.stores k s' k').types ↔
      c ∈ (w.stores k').types ∨ k' = k ∧ N c := by
    intro k'
    by_cases hk : k' = k
    · subst hk
      simp [h]
    · simp [hk]
  simp [TypeWorld.Known, hstore, exists_or, or_assoc]

/-- One step keeps the invariant and the known arrays. -/
theorem TypeStep.ok (hstep : TypeStep L w w')
    (h : TypesOk w.mem w.Known) : TypesOk w'.mem w'.Known ∧ w.Keeps w' := by
  cases hstep with
  | @load ctx ctx' hfresh hraw hfin =>
    obtain ⟨-, hf, hcanon⟩ := typesFinalize_final hraw hfin
    refine ⟨(h.put hfresh hf hcanon).congr fun c => ?_, fun c hc => ⟨?_, ?_⟩⟩
    · simp only [TypeWorld.Known, mem_cons]
      tauto
    · rcases hc with hc | hc
      · exact .inl (mem_cons_of_mem _ hc)
      · exact .inr hc
    · have hne : c ≠ ctx.addr := fun heq => hfresh (heq ▸ hc)
      simp only [put_ne _ _ hne]
      rfl
  | @attach k thread inst source fresh allocated res s' mem' hsource hfresh hattach =>
    -- it is enough to say what the store retains besides
    suffices hjoin : ∃ N : Nat → Prop, (∀ c, c ∈ s'.types ↔ c ∈ (w.stores k).types ∨ N c) ∧
        TypesOk mem' (fun c => w.Known c ∨ N c) ∧
        ∀ c, w.Known c → SameCore (w.mem c) (mem' c) by
      obtain ⟨N, hN, hok, hsame⟩ := hjoin
      exact ⟨hok.congr (w.known_update hN),
        fun c hc => ⟨(w.known_update hN c).mpr (.inl hc), hsame c hc⟩⟩
    obtain ⟨e, -, rfl, rfl⟩ | ⟨entry, -, rfl, rfl, -⟩ | ⟨bytes, ctx, -, -, rfl, hclone, hcan⟩ :=
      storeAttach_cases hattach
    · exact ⟨fun _ => False, by simp, by simpa using h, fun _ _ => rfl⟩
    · exact ⟨fun _ => False, by simp [linkInstance], by simpa using h, fun _ _ => rfl⟩
    -- a new entry
    obtain ⟨mem'', hmem'', hok, hcore⟩ := canonicalize_clone h (.inl hsource) hfresh
      (fun c hc => .inr ⟨k, hc⟩) hclone
    rw [hcan] at hmem''
    cases hmem''
    refine ⟨(· = fresh), fun c => mem_cons.trans or_comm, hok, fun c hc => ?_⟩
    have hne : c ≠ fresh := fun heq => hfresh (heq ▸ hc)
    have hsame := hcore c
    rwa [put_ne _ _ hne] at hsame
  | @other stores' htypes =>
    have hknown : ∀ c, TypeWorld.Known { w with stores := stores' } c ↔ w.Known c := by
      intro c
      exact or_congr_right (exists_congr fun k => by rw [htypes k])
    exact ⟨h.congr hknown, fun c hc => ⟨(hknown c).mpr hc, rfl⟩⟩

/-- Any number of steps. -/
abbrev TypeRun (L : Layout) : TypeWorld → TypeWorld → Prop := Relation.ReflTransGen (TypeStep L)

/-- A whole run keeps the invariant and the known arrays. -/
theorem TypeRun.ok (hrun : TypeRun L w w')
    (h : TypesOk w.mem w.Known) : TypesOk w'.mem w'.Known ∧ w.Keeps w' := by
  induction hrun with
  | refl => exact ⟨h, fun c hc => ⟨hc, rfl⟩⟩
  | tail _ hstep ih =>
    obtain ⟨hok, hkeeps⟩ := ih
    obtain ⟨hok', hkeeps'⟩ := hstep.ok hok
    refine ⟨hok', fun c hc => ?_⟩
    obtain ⟨hc1, hs1⟩ := hkeeps c hc
    obtain ⟨hc2, hs2⟩ := hkeeps' c hc1
    exact ⟨hc2, hs1.trans hs2⟩

/-- A world in which nothing has been loaded or retained. -/
def TypeWorld.Fresh (w : TypeWorld) : Prop := w.modules = [] ∧ ∀ k, (w.stores k).types = []

theorem TypeWorld.Fresh.ok (h : w.Fresh) : TypesOk w.mem w.Known := by
  have hno : ∀ c, ¬ w.Known c := by
    rintro c (hc | ⟨k, hc⟩)
    · simp [h.1] at hc
    · simp [h.2 k] at hc
  exact ⟨fun hc => absurd hc (hno _), fun hc => absurd hc (hno _)⟩

/-- Validating a type section is a load. -/
theorem TypeStep.of_validate {addr : Nat} {r r' : Reader} {ctx : TypeCtx} (hfresh : ¬ w.Known addr)
    (h : validateCompositeTypes w.mem addr r = .ok (ctx, r')) :
    TypeStep L w { w with mem := w.mem.put addr ctx.types, modules := addr :: w.modules } := by
  obtain ⟨ctx0, rfl, hraw, hfin⟩ := validateCompositeTypes_raw h
  exact .load hfresh hraw hfin

/-- **Type equality is iso-recursive equality, in every reachable world and for ever.**  The
comparison of two known types ends; it answers `true` exactly when they sit at the same position of
groups of equal size whose members agree, in-group references compared by position and the others
recursively; it is an equivalence relation; and no later step, attaches among them, changes an
answer. -/
theorem definedTypeEqual_isoRecursive {L : Layout} {w₀ w : TypeWorld} (h₀ : w₀.Fresh)
    (hrun : TypeRun L w₀ w) : (∀ l r, w.Points l → w.Points r → ∀ fuel, l.index < fuel →
      (definedTypeEqual w.mem fuel l r).isSome ∧
      (definedTypeEqual w.mem fuel l r = some true ↔ GroupEqual w.mem
        (fun p q => definedTypeEqual w.mem (p.index + 1) p q = some true) l r)) ∧
    (∀ p, w.Points p → definedTypeEqual w.mem (p.index + 1) p p = some true) ∧
    (∀ p q, w.Points p → w.Points q → definedTypeEqual w.mem (p.index + 1) p q = some true →
      definedTypeEqual w.mem (q.index + 1) q p = some true) ∧
    (∀ p q r, w.Points p → w.Points q → w.Points r →
      definedTypeEqual w.mem (p.index + 1) p q = some true →
      definedTypeEqual w.mem (q.index + 1) q r = some true →
      definedTypeEqual w.mem (p.index + 1) p r = some true) ∧
    (∀ w', TypeRun L w w' → ∀ l r, w.Points l → w.Points r → ∀ fuel fuel', l.index < fuel →
      l.index < fuel' → definedTypeEqual w'.mem fuel' l r = definedTypeEqual w.mem fuel l r) := by
  have hok := (hrun.ok h₀.ok).1
  have heq : ∀ {l r : TypePtr}, w.Points l → w.Points r → ∀ {fuel : Nat}, l.index < fuel →
      (definedTypeEqual w.mem fuel l r = some true ↔ isoTerm w.mem l = isoTerm w.mem r) :=
    fun hl hr _ hfuel => (hok.decides hl.1 hr.1 hl.2 hr.2 hfuel).eq_true_iff
  have hself : ∀ p : TypePtr, p.index < p.index + 1 := fun p => Nat.lt_succ_self _
  refine ⟨fun l r hl hr fuel hfuel => ⟨?_, ?_⟩, fun p hp => ?_, fun p q hp hq h => ?_,
    fun p q r hp hq hr h h' => ?_, fun w' hrun' l r hl hr fuel fuel' hfuel hfuel' => ?_⟩
  · exact (hok.decides hl.1 hr.1 hl.2 hr.2 hfuel).isSome
  · rw [heq hl hr hfuel, groupEqual_iff (hok.live hl.1 hl.2) (hok.live hr.1 hr.2)]
    intro p q hp hq hpc hqc
    exact heq ⟨hpc ▸ hl.1, hp.2⟩ ⟨hqc ▸ hr.1, hq.2⟩ (hself p)
  · exact (heq hp hp (hself p)).mpr rfl
  · exact (heq hq hp (hself q)).mpr ((heq hp hq (hself p)).mp h).symm
  · exact (heq hp hr (hself p)).mpr
      (((heq hp hq (hself p)).mp h).trans ((heq hq hr (hself q)).mp h'))
  -- the closed types have not changed, and both comparisons decide their equality
  obtain ⟨hok', hkeeps⟩ := hrun'.ok hok
  have hlen : ∀ {p : TypePtr}, w.Points p → p.index < (w'.mem p.ctx).length := fun hp => by
    rw [← (hkeeps _ hp.1).2.length]
    exact hp.2
  have hterm : ∀ {p : TypePtr}, w.Points p → isoTerm w'.mem p = isoTerm w.mem p := fun hp =>
    hok.isoTerm_same (fun hc => (hkeeps _ hc).2) hp.1 hp.2
  obtain ⟨b, hb, hbt⟩ := hok.decides hl.1 hr.1 hl.2 hr.2 hfuel
  obtain ⟨b', hb', hbt'⟩ := hok'.decides (hkeeps _ hl.1).1 (hkeeps _ hr.1).1 (hlen hl) (hlen hr)
    hfuel'
  rw [hterm hl, hterm hr] at hbt'
  rw [hb, hb', Option.some.injEq]
  exact Bool.eq_iff_iff.mpr (hbt'.trans hbt.symm)

/-- A layout for small examples. -/
def smallLayout : Layout := ⟨1, 1, 1, 1, 1, 1, 1, 1, 1, 1, 1, 1000⟩

/-- A store with room for one object. -/
def smallStore : Store where
  id := 0
  config := ⟨1000, 1, 1, by decide⟩
  stats := ⟨3, 0, 0, 0⟩
  ownerThread := 0
  slots := initialSlots 1
  freeHead := 0
  roots := []
  types := []
  instances := []
  sources := []
  sourceCount := 0
  allocations := 0

/-- The finalized records of `narrowingSection`, in an array at `c`. -/
def narrowingTypes (c : Nat) : List FuncType :=
  let struct (i superIndex : Nat) (super : Option TypePtr) : FuncType :=
    { zero with
      defined := true
      kind := .struct
      fields := [⟨⟨0x6e, true, true, .typeIndex, i, some ⟨c, i⟩⟩, 0, false⟩]
      superIndex := superIndex
      super := super
      group := some ⟨c, 0⟩
      groupCount := 2
      groupOffset := i
      dependencyDepth := 1
      canonical := some ⟨c, i⟩ }
  [struct 0 uint32Max none, struct 1 0 (some ⟨c, 0⟩)]

/-- A module with the narrowing struct types is loaded and an instance of it attached. -/
theorem definedTypeEqual_isoRecursive_narrowing : ∃ w,
    TypeRun smallLayout ⟨fun _ => [], [], fun _ => smallStore⟩ w ∧
    w.Points ⟨0, 1⟩ ∧ w.Points ⟨1, 1⟩ ∧ (definedTypeEqual w.mem 2 ⟨0, 1⟩ ⟨1, 1⟩).isSome := by
  have hno : ¬ TypeWorld.Known ⟨fun _ => [], [], fun _ => smallStore⟩ 0 := by
    simp [TypeWorld.Known, smallStore]
  have hvalid : validateCompositeTypes (fun _ => []) 0 narrowingSection =
      .ok (⟨0, narrowingTypes 0⟩, ⟨18, []⟩) := rfl
  have hload : TypeStep smallLayout ⟨fun _ => [], [], fun _ => smallStore⟩
      ⟨put (fun _ => []) 0 (narrowingTypes 0), [0], fun _ => smallStore⟩ :=
    .of_validate hno hvalid
  have hattach : TypeStep smallLayout
      ⟨put (fun _ => []) 0 (narrowingTypes 0), [0], fun _ => smallStore⟩ _ :=
    .attach (k := 0) (mem_cons_self ..) (show ¬ TypeWorld.Known _ 1 by
      simp [TypeWorld.Known, smallStore])
      (show storeAttach smallLayout (put (fun _ => []) 0 (narrowingTypes 0)) smallStore
        0 7 0 1 true = some (.ok 1, { smallStore with
          types := [1], instances := [7], stats := ⟨8, 0, 0, 0⟩ },
          put (put (fun _ => []) 0 (narrowingTypes 0)) 1 (narrowingTypes 1))
        from rfl)
  have hrun := (Relation.ReflTransGen.single hload).tail hattach
  refine ⟨_, hrun, ⟨.inl (by simp), by decide⟩, ⟨.inr ⟨0, by simp⟩, by decide⟩, ?_⟩
  exact ((definedTypeEqual_isoRecursive ⟨rfl, fun _ => rfl⟩ hrun).1 ⟨0, 1⟩ ⟨1, 1⟩
    ⟨.inl (by simp), by decide⟩ ⟨.inr ⟨0, by simp⟩, by decide⟩ 2 (by decide)).1

end TurboWasm
