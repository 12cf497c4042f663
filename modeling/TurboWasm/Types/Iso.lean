/-
# Type equality is iso-recursive equality

`turbowasm_validation_defined_type_equal` recurses without a counter.  What bounds it is the order
in which a type section declares its groups: a reference that leaves a group points at an EARLIER
group.  `FinalTypes` says what a finalized type array guarantees, the order among it, and this
module proves that on such arrays

- the comparison ends (`definedTypeEqual_decides`: fuel above the left index is enough), and
- it answers whether the two types have the same closed term (`isoTerm`), that is, whether they sit
  at the same position of groups of equal size whose members agree after in-group references are
  replaced by positions and other references by their own closed terms.

The shortcut through `canonical` is harmless as long as equal canonical pointers mean equal terms
(`CanonSound`).
-/
import TurboWasm.Lib.Decides
import TurboWasm.Lib.IsoRec
import TurboWasm.Types.Read

namespace TurboWasm

open TurboWasm.Lib List Option ValueType FuncType

/-! ## 1. What a finalized type array guarantees -/

variable {c i : Nat} {t : FuncType} {p : TypePtr} {H : TypeHeap}

/-- The carrier of an abstract heap type; a type index has the carrier of its definition. -/
def abstractCarrier : HeapKind → Option UInt8
  | .func | .nofunc => some 0x70
  | .external | .noexternal => some 0x6f
  | .exn | .noexn => some 0x69
  | .any | .eq | .i31 | .struct | .array | .bottom => some 0x6e
  | .none | .typeIndex => none

/-- The carrier of a reference to a type of kind `k`. -/
def kindCarrier (k : TypeKind) : UInt8 := if k = .function then 0x70 else 0x6e

/-- The carriers of the numeric and vector types. -/
def numCarriers : List UInt8 := [0x7f, 0x7e, 0x7d, 0x7c, 0x7b]

/-- The value types that occur in a module whose type array `types` is at address `c`. -/
inductive WfValue (c : Nat) (types : List FuncType) : ValueType → Prop where
  | num (carrier : UInt8) (index : Nat) : carrier ∈ numCarriers →
      WfValue c types ⟨carrier, false, false, .none, index, none⟩
  | heap (nullable : Bool) (kind : HeapKind) (carrier : UInt8) (index : Nat) :
      abstractCarrier kind = some carrier →
      WfValue c types ⟨carrier, true, nullable, kind, index, none⟩
  | index (nullable : Bool) (i : Nat) (d : FuncType) : types[i]? = some d →
      WfValue c types ⟨kindCarrier d.kind, true, nullable, .typeIndex, i, some ⟨c, i⟩⟩

/-- A finalized type array at address `c`. -/
structure FinalTypes (c : Nat) (types : List FuncType) : Prop where
  defined : ∀ {i : Nat} {t : FuncType}, types[i]? = some t → t.defined
  offset : ∀ {i : Nat} {t : FuncType}, types[i]? = some t →
    t.groupOffset ≤ i ∧ t.groupOffset < t.groupCount
  group : ∀ {i : Nat} {t : FuncType}, types[i]? = some t → t.group = some ⟨c, i - t.groupOffset⟩
  member : ∀ {i : Nat} {t : FuncType}, types[i]? = some t → ∀ j < t.groupCount, ∃ u,
    types[i - t.groupOffset + j]? = some u ∧ u.groupOffset = j ∧ u.groupCount = t.groupCount
  value : ∀ {i : Nat} {t : FuncType} {v : ValueType}, types[i]? = some t → v ∈ t.values →
    WfValue c types v
  -- a reference never points past the group it stands in
  bound : ∀ {i : Nat} {t : FuncType} {v : ValueType}, types[i]? = some t → v ∈ t.values →
    v.heapKind = .typeIndex → v.typeIndex < i - t.groupOffset + t.groupCount
  superIndex : ∀ {i : Nat} {t : FuncType}, types[i]? = some t →
    (t.superIndex = uint32Max ∨ t.superIndex < i) ∧
    t.super = if t.superIndex = uint32Max then none else some ⟨c, t.superIndex⟩
  superKind : ∀ {i : Nat} {t : FuncType} {p : TypePtr} {u : FuncType}, types[i]? = some t →
    t.super = some p → types[p.index]? = some u → u.kind = t.kind

theorem FinalTypes.super {types : List FuncType} (hf : FinalTypes c types)
    (ht : types[i]? = some t) (hp : t.super = some p) : p.ctx = c ∧ p.index < i := by
  obtain ⟨hlt, hsup⟩ := hf.superIndex ht
  rw [hp] at hsup
  split at hsup
  · cases hsup
  · cases hsup
    exact ⟨rfl, hlt.resolve_left ‹_›⟩

/-- `p` points at a record of a finalized array. -/
def Live (H : TypeHeap) (p : TypePtr) : Prop :=
  FinalTypes p.ctx (H p.ctx) ∧ p.index < (H p.ctx).length

theorem Live.get (h : Live H p) : ∃ t, H.get p = some t :=
  ⟨_, getElem?_eq_getElem h.2⟩

theorem Live.of_get (hf : FinalTypes c (H c)) (h : (H c)[i]? = some t) : Live H ⟨c, i⟩ := by
  obtain ⟨hi, _⟩ := List.getElem?_eq_some_iff.mp h
  exact ⟨hf, hi⟩

/-! ## 2. The closed term of a record -/

/-- What `group_value_equal` compares of a value type apart from its reference. -/
structure ValueShape where
  carrier : UInt8
  isReference : Bool
  nullable : Bool
  heapKind : HeapKind
  deriving DecidableEq

/-- What the member loop compares of a record apart from its references. -/
structure MemberShape where
  kind : TypeKind
  finalType : Bool
  params : List ValueShape
  results : List ValueShape
  fields : List (ValueShape × Nat × Bool)
  deriving DecidableEq

def ValueType.shape (v : ValueType) : ValueShape :=
  ⟨v.carrier, v.isReference, v.nullable, v.heapKind⟩

/-- The record a value type refers to. -/
def ValueType.ref (v : ValueType) : Option TypePtr :=
  if v.heapKind = .typeIndex then v.definition else none

def Field.shape (f : Field) : ValueShape × Nat × Bool := (f.type.shape, f.packedBits, f.mutableValue)

def FuncType.shape (t : FuncType) : MemberShape :=
  ⟨t.kind, t.finalType, t.params.map ValueType.shape, t.results.map ValueType.shape,
    t.fields.map Field.shape⟩

/-- The records a record refers to: its supertype, then its value types in order. -/
def FuncType.refs (t : FuncType) : List (Option TypePtr) := t.super :: t.values.map ValueType.ref

/-- The records of memory as a graph of recursion groups. -/
def typeGraph (H : TypeHeap) : RefGraph TypePtr MemberShape where
  members p :=
    match H.get p with
    | some t => (List.range t.groupCount).map fun j =>
        let u := (H.get ⟨p.ctx, p.index - t.groupOffset + j⟩).getD zero
        (u.shape, u.refs)
    | none => []
  pos p := ((H.get p).map groupOffset).getD 0
  inGroup p q :=
    match H.get p, H.get q with
    | some t, some u => if u.group = t.group then some u.groupOffset else none
    | _, _ => none
  rank p := p.index

/-- The closed iso-recursive type of a record. -/
def isoTerm (H : TypeHeap) (p : TypePtr) : IsoType MemberShape := (typeGraph H).term p

/-- Between the arrays at `c` and `d`, equal canonical pointers mean equal types. -/
def CanonSound (H : TypeHeap) (c d : Nat) : Prop := ∀ i j P Q, (H c)[i]? = some P →
  (H d)[j]? = some Q → P.canonical.isSome → P.canonical = Q.canonical →
  isoTerm H ⟨c, i⟩ = isoTerm H ⟨d, j⟩

section Facts

variable {H : TypeHeap} {p : TypePtr} {t : FuncType} {j : Nat} {n : TypePtr} {P : FuncType}

/-- The reference of a value type of a finalized array. -/
theorem FinalTypes.ref_index {v : ValueType} (h : WfValue c types v) (hp : v.ref = some p) :
    v.heapKind = .typeIndex ∧ p = ⟨c, v.typeIndex⟩ ∧ p.index < types.length := by
  cases h with
  | num => simp [ref] at hp
  | heap _ kind => cases kind <;> simp [ref] at hp
  | index _ i d hd =>
    simp only [ref, ↓reduceIte, some.injEq] at hp
    subst hp
    exact ⟨rfl, rfl, (lt_of_getElem? hd)⟩

/-- A reference of a record stays below the end of the record's group. -/
theorem FinalTypes.ref_lt (hf : FinalTypes c types) (ht : types[i]? = some t)
    (hp : some p ∈ t.refs) :
    p.ctx = c ∧ p.index < types.length ∧ p.index < i - t.groupOffset + t.groupCount := by
  rcases mem_cons.mp hp with hs | hv
  · obtain ⟨hc, hlt⟩ := hf.super ht hs.symm
    have hi := lt_of_getElem? ht
    have := hf.offset ht
    exact ⟨hc, by omega, by omega⟩
  · obtain ⟨v, hv, hvp⟩ := mem_map.mp hv
    obtain ⟨hk, hpe, hlt⟩ := FinalTypes.ref_index (hf.value ht hv) hvp
    have hb := hf.bound ht hv hk
    rw [hpe] at hlt ⊢
    exact ⟨rfl, hlt, hb⟩

/-- The `j`-th member of a record's group, with its position. -/
theorem FinalTypes.member_group (hf : FinalTypes c types) (ht : types[i]? = some t)
    (hj : j < t.groupCount) : ∃ u,
    types[i - t.groupOffset + j]? = some u ∧ u.groupOffset = j ∧ u.groupCount = t.groupCount ∧
      u.group = t.group := by
  obtain ⟨u, hu, ho, hc⟩ := hf.member ht j hj
  refine ⟨u, hu, ho, hc, ?_⟩
  rw [hf.group hu, hf.group ht, ho]
  simp

/-- A reference that leaves the group of a record points before the group. -/
theorem FinalTypes.ref_outside (hf : FinalTypes c types) {u v : FuncType} (ht : types[i]? = some t)
    (hu : types[i - t.groupOffset + j]? = some u) (hj : u.groupOffset = j)
    (hcount : u.groupCount = t.groupCount) (hp : some p ∈ u.refs)
    (hv : types[p.index]? = some v) (hne : v.group ≠ t.group) : p.index < i - t.groupOffset := by
  obtain ⟨-, -, hlt⟩ := hf.ref_lt hu hp
  by_contra hge
  -- otherwise it points at a member of the group
  obtain ⟨w, hw, -, -, hg⟩ := hf.member_group ht
    (show p.index - (i - t.groupOffset) < t.groupCount by omega)
  rw [show i - t.groupOffset + (p.index - (i - t.groupOffset)) = p.index by omega, hv] at hw
  cases hw
  exact hne hg

/-- The members of the graph's group of `p`, as records. -/
theorem typeGraph_members (hp : Live H p)
    (hm : m ∈ (typeGraph H).members p) : ∃ t u, H.get p = some t ∧
      H.get ⟨p.ctx, p.index - t.groupOffset + u.groupOffset⟩ = some u ∧
      u.groupCount = t.groupCount ∧ u.group = t.group ∧ m = (u.shape, u.refs) := by
  obtain ⟨t, ht⟩ := hp.get
  simp only [typeGraph, ht, List.mem_map, List.mem_range] at hm
  obtain ⟨j, hj, rfl⟩ := hm
  obtain ⟨u, hu, rfl, hc, hg⟩ := hp.1.member_group ht hj
  refine ⟨t, u, ht, hu, hc, hg, ?_⟩
  have hu' : H.get ⟨p.ctx, p.index - t.groupOffset + u.groupOffset⟩ = some u := hu
  simp [hu']

/-- References that leave a group lead to a smaller index. -/
theorem typeGraph_ranked : (typeGraph H).Ranked (Live H) where
  closed n hn m hm k hk := by
    obtain ⟨t, u, -, hu, -, -, rfl⟩ := typeGraph_members hn hm
    obtain ⟨hc, hlt, -⟩ := hn.1.ref_lt hu hk
    unfold Live
    rw [hc]
    exact ⟨hn.1, hlt⟩
  descends n hn m hm k hk hout := by
    obtain ⟨t, u, ht, hu, hcount, -, rfl⟩ := typeGraph_members hn hm
    obtain ⟨hc, hlt, -⟩ := hn.1.ref_lt hu hk
    have hk' : (H n.ctx)[k.index]? = some (H n.ctx)[k.index] := getElem?_eq_getElem hlt
    have hkget : H.get k = some (H n.ctx)[k.index] := by rw [TypeHeap.get, hc]; exact hk'
    have hne : ((H n.ctx)[k.index]).group ≠ t.group := by
      intro hg
      simp [typeGraph, ht, hkget, hg] at hout
    have := hn.1.ref_outside ht hu rfl hcount hk hk' hne
    show k.index < n.index
    omega

/-- One reference of the group of `n`: a position, or the term of a type outside. -/
def isoRef (H : TypeHeap) (n p : TypePtr) : Nat ⊕ IsoType MemberShape :=
  (typeGraph H).refTerm (isoTerm H) n p

/-- The closed term of a record, one level down. -/
theorem isoTerm_eq (hp : Live H p) : isoTerm H p = .mk (((typeGraph H).members p).map fun m =>
      (m.1, m.2.map (Option.map (isoRef H p)))) ((typeGraph H).pos p) :=
  RefGraph.term_eq typeGraph_ranked hp

theorem isoRef_inside (hn : H.get n = some N)
    (hp : H.get p = some P) (hg : P.group = N.group) : isoRef H n p = .inl P.groupOffset := by
  simp [isoRef, RefGraph.refTerm, typeGraph, hn, hp, hg]

theorem isoRef_outside (hn : H.get n = some N)
    (hp : H.get p = some P) (hg : P.group ≠ N.group) : isoRef H n p = .inr (isoTerm H p) := by
  simp [isoRef, RefGraph.refTerm, typeGraph, hn, hp, hg]

end Facts

/-! ## 3. The comparison decides equality of terms -/

theorem allShort_decides {α : Type} {f : α → Option Bool} {P : α → Prop} : ∀ {xs : List α},
    (∀ x ∈ xs, Decides (f x) (P x)) → Decides (allShort f xs) (∀ x ∈ xs, P x)
  | [], _ => .true_ (by simp)
  | x :: xs, h => by
    obtain ⟨b, hb, hP⟩ := h x (by simp)
    have ih : Decides (allShort f xs) (∀ y ∈ xs, P y) :=
      allShort_decides (fun y hy => h y (by simp [hy]))
    unfold allShort
    rw [hb]
    cases b with
    | false => exact .false_ (fun hall => by simpa using hP.mpr (hall x (by simp)))
    | true => exact ih.congr (by simp [hP.mp rfl])

theorem andShort_decides {P Q : Prop} (hx : Decides x P) (hy : Decides y Q) :
    Decides (andShort x y) (P ∧ Q) := by
  obtain ⟨b, rfl, hP⟩ := hx
  cases b with
  | false => exact .false_ (fun h => by simpa using hP.mpr h.1)
  | true => exact hy.congr (by simp [hP.mp rfl])

/-- Comparing two lists of one length position by position. -/
theorem zip_forall_iff {α β γ : Type} (f : α → γ) (g : β → γ) : ∀ (a : List α) (b : List β),
    a.length = b.length → ((∀ p ∈ a.zip b, f p.1 = g p.2) ↔ a.map f = b.map g)
  | [], [], _ => by simp
  | [], _ :: _, h => by simp at h
  | _ :: _, [], h => by simp at h
  | x :: a, y :: b, h => by
    have ih := zip_forall_iff f g a b (by simpa using h)
    simp only [zip_cons_cons, forall_mem_cons, map_cons, List.cons.injEq, ih]

/-- A loop over two lists of one length. -/
theorem zipShort_decides {α γ : Type} {f : α → α → Option Bool} {c d : α → γ} {as bs : List α}
    (hlen : as.length = bs.length) (hf : ∀ a ∈ as, ∀ b ∈ bs, Decides (f a b) (c a = d b)) :
    Decides (allShort (fun p => f p.1 p.2) (as.zip bs)) (as.map c = bs.map d) := by
  refine (allShort_decides (P := fun p => c p.1 = d p.2) ?_).congr (zip_forall_iff c d as bs hlen)
  intro p hp
  exact hf p.1 (of_mem_zip hp).1 p.2 (of_mem_zip hp).2

/-- A value type inside the group of `n`: its shape and its reference. -/
def isoValue (H : TypeHeap) (n : TypePtr) (v : ValueType) :
    ValueShape × Option (Nat ⊕ IsoType MemberShape) :=
  (v.shape, v.ref.map (isoRef H n))

def isoField (H : TypeHeap) (n : TypePtr) (f : Field) :
    (ValueShape × Option (Nat ⊕ IsoType MemberShape)) × Nat × Bool :=
  (isoValue H n f.type, f.packedBits, f.mutableValue)

/-- `o` is a reference of the group of `n`. -/
def RefOf (H : TypeHeap) (n : TypePtr) (o : Option TypePtr) : Prop :=
  ∃ m ∈ (typeGraph H).members n, o ∈ m.2

theorem RefOf.live {H : TypeHeap} {n p : TypePtr} (hn : Live H n) (h : RefOf H n (some p)) :
    Live H p ∧ p.ctx = n.ctx := by
  obtain ⟨m, hm, hp⟩ := h
  obtain ⟨t, u, -, hu, -, -, rfl⟩ := typeGraph_members hn hm
  exact ⟨typeGraph_ranked.closed n hn _ hm p hp, (hn.1.ref_lt hu hp).1⟩

/-- The setting of the member loop for the groups of `l` and `r`: the recursive call is right
wherever it is made, that is, at references that leave the group on the left. -/
structure Comparing (recEq : TypePtr → TypePtr → Option Bool) (H : TypeHeap) (l r : TypePtr)
    (L R : FuncType) (lg rg : TypePtr) : Prop where
  left : Live H l ∧ H.get l = some L ∧ L.group = some lg
  right : Live H r ∧ H.get r = some R ∧ R.group = some rg
  outside : ∀ p q P, RefOf H l (some p) → RefOf H r (some q) → H.get p = some P →
    P.group ≠ L.group → Decides (recEq p q) (isoTerm H p = isoTerm H q)

namespace Comparing

variable {recEq : TypePtr → TypePtr → Option Bool} {H : TypeHeap} {l r lg rg : TypePtr}
  {L R : FuncType} (h : Comparing recEq H l r L R lg rg)

include h

/-- References are compared by position inside the groups and by term outside. -/
theorem reference {a b : Option TypePtr} (ha : RefOf H l a) (hb : RefOf H r b) :
    Decides (groupReferenceEqual recEq H lg rg a b) (a.map (isoRef H l) = b.map (isoRef H r)) := by
  cases a with
  | none =>
    cases b with
    | none => exact .true_ rfl
    | some q => exact .false_ (by simp)
  | some p =>
    cases b with
    | none => exact .false_ (by simp)
    | some q =>
      obtain ⟨hlive, hL, hlg⟩ := h.left
      obtain ⟨hrive, hR, hrg⟩ := h.right
      obtain ⟨P, hP⟩ := (ha.live hlive).1.get
      obtain ⟨Q, hQ⟩ := (hb.live hrive).1.get
      simp only [groupReferenceEqual, hP, hQ, map_some]
      by_cases hp : P.group = L.group <;> by_cases hq : Q.group = R.group
      · -- both inside
        rw [isoRef_inside hL hP hp, isoRef_inside hR hQ hq]
        simp only [hp, hq, hlg, hrg, beq_self_eq_true]
        exact (Decides.bool _).congr (by simp)
      · rw [isoRef_inside hL hP hp, isoRef_outside hR hQ hq]
        rw [hrg] at hq
        simp only [hp, hlg, beq_self_eq_true]
        exact (Decides.bool _).congr (by simp [hq])
      · rw [isoRef_outside hL hP hp, isoRef_inside hR hQ hq]
        rw [hlg] at hp
        simp only [hq, hrg, beq_self_eq_true, Bool.or_true]
        exact (Decides.bool _).congr (by simp [hp])
      -- both outside
      have hrec := h.outside p q P ha hb hP hp
      rw [isoRef_outside hL hP hp, isoRef_outside hR hQ hq]
      rw [hlg] at hp
      rw [hrg] at hq
      simp only [beq_eq_false_iff_ne.mpr hp, beq_eq_false_iff_ne.mpr hq]
      exact hrec.congr (by simp)

theorem value {v w : ValueType} (hv : RefOf H l v.ref) (hw : RefOf H r w.ref) :
    Decides (groupValueEqual recEq H lg rg v w) (isoValue H l v = isoValue H r w) := by
  refine .guard ?_ fun hshape => ?_
  · rintro hne heq
    simp only [isoValue, ValueType.shape, Prod.mk.injEq, ValueShape.mk.injEq] at heq
    obtain ⟨⟨h1, h2, h3, h4⟩, -⟩ := heq
    rcases hne with h | h | h | h
    · exact h h1
    · exact h h2
    · exact h h3
    · exact h h4
  simp only [not_or, not_not] at hshape
  obtain ⟨h1, h2, h3, h4⟩ := hshape
  have hs : v.shape = w.shape := by simp [ValueType.shape, h1, h2, h3, h4]
  refine .accept ?_ fun hk => ?_
  · intro hk
    simp [isoValue, hs, ValueType.ref, hk, ← h4]
  · simp only [not_not] at hk
    have href := h.reference hv hw
    simp only [ref, hk, ← h4] at href
    exact href.congr (by simp [isoValue, hs, ref, hk, ← h4])

theorem field {a b : Field} (ha : RefOf H l a.type.ref) (hb : RefOf H r b.type.ref) :
    Decides (groupFieldEqual recEq H lg rg a b) (isoField H l a = isoField H r b) := by
  refine .guard ?_ fun hne => ?_
  · rintro hne heq
    simp only [isoField, Prod.mk.injEq] at heq
    rcases hne with h | h
    · exact h heq.2.1
    · exact h heq.2.2
  · simp only [not_or, not_not] at hne
    exact (h.value ha hb).congr (by simp [isoField, hne.1, hne.2])

end Comparing

variable {t : FuncType}

theorem map_pair_eq_iff {α β γ δ : Type} {a : α → γ} {b : α → δ} {c : β → γ} {d : β → δ} :
    ∀ {xs : List α} {ys : List β}, xs.map (fun x => (a x, b x)) = ys.map (fun y => (c y, d y)) ↔
      xs.map a = ys.map c ∧ xs.map b = ys.map d
  | [], [] => by simp
  | [], _ :: _ => by simp
  | _ :: _, [] => by simp
  | x :: xs, y :: ys => by
    have ih : _ ↔ xs.map a = ys.map c ∧ xs.map b = ys.map d := map_pair_eq_iff
    simp only [map_cons, List.cons.injEq, Prod.mk.injEq, ih]
    exact and_and_and_comm

/-- A member of the group of `n`: its shape and its references. -/
def isoMember (H : TypeHeap) (n : TypePtr) (t : FuncType) :
    MemberShape × List (Option (Nat ⊕ IsoType MemberShape)) :=
  (t.shape, t.refs.map (Option.map (isoRef H n)))

theorem isoMember_eq_iff {H : TypeHeap} {l r : TypePtr} {u : FuncType} :
    isoMember H l t = isoMember H r u ↔ (t.kind = u.kind ∧ t.finalType = u.finalType) ∧
      t.super.map (isoRef H l) = u.super.map (isoRef H r) ∧
      t.params.map (isoValue H l) = u.params.map (isoValue H r) ∧
      t.results.map (isoValue H l) = u.results.map (isoValue H r) ∧
      t.fields.map (isoField H l) = u.fields.map (isoField H r) := by
  have hvalue : ∀ {xs ys : List ValueType},
      xs.map (isoValue H l) = ys.map (isoValue H r) ↔ xs.map ValueType.shape = ys.map ValueType.shape
        ∧ xs.map (fun v => v.ref.map (isoRef H l)) = ys.map (fun v => v.ref.map (isoRef H r)) :=
    map_pair_eq_iff
  have hfield : t.fields.map (isoField H l) = u.fields.map (isoField H r) ↔
      t.fields.map Field.shape = u.fields.map Field.shape ∧
      t.fields.map (fun f => f.type.ref.map (isoRef H l)) =
        u.fields.map (fun f => f.type.ref.map (isoRef H r)) := by
    rw [show isoField H l = fun f => (isoValue H l f.type, f.packedBits, f.mutableValue) from rfl,
      show isoField H r = fun f => (isoValue H r f.type, f.packedBits, f.mutableValue) from rfl,
      show Field.shape = fun f => (f.type.shape, f.packedBits, f.mutableValue) from rfl,
      map_pair_eq_iff, map_pair_eq_iff]
    simp only [map_pair_eq_iff]
    tauto
  simp only [isoMember, FuncType.shape, FuncType.refs, FuncType.values, Prod.mk.injEq,
    MemberShape.mk.injEq, List.map_cons, List.cons.injEq, List.map_append, List.map_map,
    hvalue, hfield]
  constructor
  · rintro ⟨⟨hk, hf, hp, hr, hfs⟩, hs, hrefs⟩
    have hpl := congrArg List.length hp
    have hrl := congrArg List.length hr
    simp only [length_map] at hpl hrl
    obtain ⟨h12, h3⟩ := append_inj hrefs (by simp [hpl, hrl])
    obtain ⟨h1, h2⟩ := append_inj h12 (by simp [hpl])
    exact ⟨⟨hk, hf⟩, hs, ⟨hp, h1⟩, ⟨hr, h2⟩, hfs, h3⟩
  rintro ⟨⟨hk, hf⟩, hs, ⟨hp, h1⟩, ⟨hr, h2⟩, hfs, h3⟩
  refine ⟨⟨hk, hf, hp, hr, hfs⟩, hs, ?_⟩
  have e1 : t.params.map (Option.map (isoRef H l) ∘ ValueType.ref) =
      u.params.map (Option.map (isoRef H r) ∘ ValueType.ref) := h1
  have e2 : t.results.map (.map (isoRef H l) ∘ ref) =
      u.results.map (Option.map (isoRef H r) ∘ ref) := h2
  have e3 : t.fields.map (Option.map (isoRef H l) ∘ ref ∘ Field.type) =
      u.fields.map (.map (isoRef H r) ∘ ref ∘ Field.type) := h3
  rw [e1, e2, e3]

theorem FuncType.mem_values :
    v ∈ t.values ↔ v ∈ t.params ∨ v ∈ t.results ∨ ∃ f ∈ t.fields, f.type = v := by
  simp [values]

namespace Comparing

variable {H : TypeHeap}
   (h : Comparing recEq H l r L R lg rg)

include h

theorem member {t u : FuncType} (ht : ∀ o ∈ t.refs, RefOf H l o) (hu : ∀ o ∈ u.refs, RefOf H r o) :
    Decides (groupMemberEqual recEq H lg rg t u) (isoMember H l t = isoMember H r u) := by
  have htv : ∀ v ∈ t.values, RefOf H l v.ref := fun v hv =>
    ht _ (mem_cons_of_mem _ (mem_map_of_mem hv))
  have huv : ∀ v ∈ u.values, RefOf H r v.ref := fun v hv =>
    hu _ (mem_cons_of_mem _ (mem_map_of_mem hv))
  refine .guard ?_ fun hne => ?_
  · intro hne heq
    obtain ⟨⟨hk, hf⟩, -, hp, hr, hfs⟩ := isoMember_eq_iff.mp heq
    have hpl := congrArg List.length hp
    have hrl := congrArg List.length hr
    have hfl := congrArg List.length hfs
    simp only [length_map] at hpl hrl hfl
    rcases hne with h | h | h | h | h <;> contradiction
  simp only [not_or, not_not] at hne
  obtain ⟨hk, hf, hpl, hrl, hfl⟩ := hne
  have hs := h.reference (ht _ (mem_cons_self ..)) (hu _ (mem_cons_self ..))
  have hvs : ∀ {xs ys : List ValueType}, xs.length = ys.length → (∀ v ∈ xs, v ∈ t.values) →
      (∀ v ∈ ys, v ∈ u.values) →
      Decides (allShort (fun p => groupValueEqual recEq H lg rg p.1 p.2) (xs.zip ys))
        (xs.map (isoValue H l) = ys.map (isoValue H r)) := fun hlen hxs hys =>
    zipShort_decides hlen fun v hv w hw => h.value (htv v (hxs v hv)) (huv w (hys w hw))
  have hp := hvs hpl (fun v hv => mem_values.mpr (.inl hv))
    (fun v hv => mem_values.mpr (.inl hv))
  have hr := hvs hrl (fun v hv => mem_values.mpr (.inr (.inl hv)))
    (fun v hv => mem_values.mpr (.inr (.inl hv)))
  have hfs : Decides (allShort (fun p => groupFieldEqual recEq H lg rg p.1 p.2)
      (t.fields.zip u.fields)) (t.fields.map (isoField H l) = u.fields.map (isoField H r)) :=
    zipShort_decides hfl fun a ha b hb =>
      h.field (htv _ (mem_values.mpr (.inr (.inr ⟨a, ha, rfl⟩))))
        (huv _ (mem_values.mpr (.inr (.inr ⟨b, hb, rfl⟩))))
  refine (andShort_decides hs (andShort_decides hp (andShort_decides hr hfs))).congr ?_
  rw [isoMember_eq_iff]
  exact ⟨fun hall => ⟨⟨hk, hf⟩, hall⟩, fun hall => hall.2⟩

end Comparing

variable {H : TypeHeap} {p : TypePtr} {t : FuncType}

/-- The `j`-th member of the group of the record `t` at `p`. -/
def groupMember (H : TypeHeap) (p : TypePtr) (t : FuncType) (j : Nat) : FuncType :=
  (H.get ⟨p.ctx, p.index - t.groupOffset + j⟩).getD zero

theorem isoTerm_get (hp : Live H p) (ht : H.get p = some t) : isoTerm H p =
      .mk ((List.range t.groupCount).map fun j => isoMember H p (groupMember H p t j))
        t.groupOffset := by
  rw [isoTerm_eq hp]
  simp only [typeGraph, ht, List.map_map]
  rfl

theorem groupMember_get (hp : Live H p) (ht : H.get p = some t) (hj : j < t.groupCount) :
    H.get ⟨p.ctx, p.index - t.groupOffset + j⟩ = some (groupMember H p t j) ∧
      ∀ o ∈ (groupMember H p t j).refs, RefOf H p o := by
  obtain ⟨u, hu, -, -, -⟩ := hp.1.member_group ht hj
  have hu' : H.get ⟨p.ctx, p.index - t.groupOffset + j⟩ = some u := hu
  refine ⟨by simp [groupMember, hu'], fun o ho => ?_⟩
  refine ⟨((groupMember H p t j).shape, (groupMember H p t j).refs), ?_, ho⟩
  simp only [typeGraph, ht, List.mem_map, List.mem_range]
  exact ⟨j, hj, rfl⟩

/-- **The comparison ends and decides iso-recursive equality**: fuel above the index of the left
type is enough. -/
theorem definedTypeEqual_decides : ∀ (fuel : Nat) (l r : TypePtr),
    CanonSound H l.ctx r.ctx → Live H l → Live H r → l.index < fuel →
      Decides (definedTypeEqual H fuel l r) (isoTerm H l = isoTerm H r)
  | 0, _, _, _, _, _, h => absurd h (Nat.not_lt_zero _)
  | fuel + 1, l, r, hcanon, hl, hr, hfuel => by
    obtain ⟨L, hL⟩ := hl.get
    obtain ⟨R, hR⟩ := hr.get
    simp only [definedTypeEqual, hL, hR, hl.1.defined hL, hr.1.defined hR]
    refine .accept ?_ fun _ => .guard ?_ fun hne => ?_
    · rintro (rfl | ⟨hsome, heq⟩)
      · rfl
      · exact hcanon l.index r.index L R hL hR hsome heq
    · -- positions or sizes differ
      intro hne heq
      rw [isoTerm_get hl hL, isoTerm_get hr hR, IsoType.mk.injEq] at heq
      have hlen := congrArg List.length heq.1
      simp only [length_map, length_range] at hlen
      rcases hne with h | h
      · exact h heq.2
      · exact h hlen
    simp only [not_or, not_not] at hne
    obtain ⟨hoff, hcount⟩ := hne
    have hlg := hl.1.group hL
    have hrg := hr.1.group hR
    have hcmp : Comparing (definedTypeEqual H fuel) H l r L R
        ⟨l.ctx, l.index - L.groupOffset⟩ ⟨r.ctx, r.index - R.groupOffset⟩ := by
      refine ⟨⟨hl, hL, hlg⟩, ⟨hr, hR, hrg⟩, fun p q P hp hq hP hout => ?_⟩
      -- a reference that leaves the group has a smaller index
      have hlt : p.index < l.index := by
        obtain ⟨m, hm, hpm⟩ := hp
        refine typeGraph_ranked.descends l hl m hm p hpm ?_
        simp [typeGraph, hL, hP, hout]
      obtain ⟨hpl, hpc⟩ := hp.live hl
      obtain ⟨hql, hqc⟩ := hq.live hr
      exact definedTypeEqual_decides fuel p q (hpc ▸ hqc ▸ hcanon) hpl hql (by omega)
    simp only [hlg, hrg]
    refine (allShort_decides (P := fun j =>
      isoMember H l (groupMember H l L j) = isoMember H r (groupMember H r R j)) ?_).congr ?_
    · intro j hj
      have hj := mem_range.mp hj
      obtain ⟨hlj, hlrefs⟩ := groupMember_get hl hL hj
      obtain ⟨hrj, hrrefs⟩ := groupMember_get hr hR (hcount ▸ hj)
      simp only [TypePtr.add, hlj, hrj]
      exact hcmp.member hlrefs hrrefs
    · rw [isoTerm_get hl hL, isoTerm_get hr hR, IsoType.mk.injEq, ← hcount,
        and_iff_left hoff, map_inj_left]

end TurboWasm
