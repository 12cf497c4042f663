/-
# The type section, read twice

`turbowasm_validate_composite_types` reads the section first to count the types and then to fill
the array.  Both readings stop at the same byte with the same count (`readGroups_same`), so the
count in the summary is the size of the array.  Every record that the second reading fills has
counts and indices that fit 32 bits, and the parts that its kind allows (`TypeOk`); finalizing
keeps that.
-/
import TurboWasm.Types.Final

namespace TurboWasm

open Lib List Option

/-! ## 1. Two readings -/

/-- Two computations that, when both answer, leave the same reader. -/
def SameReader {α β : Type} (x : Result (α × Reader)) (y : Result (β × Reader)) :
    Prop :=
  ∀ a b s t, x = .ok (a, s) → y = .ok (b, t) → s = t

namespace SameReader

variable {α β γ : Type} {x : Result (α × Reader)} {f : α → Result (γ × Reader)}

theorem pure (a : α) (b : β) (s : Reader) :
    SameReader (Pure.pure (a, s) : Result _) (Pure.pure (b, s)) := by
  intro a b s t hx hy
  cases hx
  cases hy
  rfl

theorem bind
    {f : α × Reader → Result (γ × Reader)} {g : β × Reader → Result (δ × Reader)}
    (hxy : SameReader x y) (hfg : ∀ a b s, SameReader (f (a, s)) (g (b, s))) :
    SameReader (x >>= f) (y >>= g) := by
  intro c d s t hx hy
  obtain ⟨⟨a, s1⟩, ha, hx⟩ := bind_eq_ok.mp hx
  obtain ⟨⟨b, t1⟩, hb, hy⟩ := bind_eq_ok.mp hy
  obtain rfl := hxy a b s1 t1 ha hb
  exact hfg a b s1 c d s t hx hy

/-- A step that is the same in both. -/
theorem read {x : Result α}
    {g : α → Result (δ × Reader)} (hfg : ∀ a, SameReader (f a) (g a)) :
    SameReader (x >>= f) (x >>= g) := by
  intro c d s t hx hy
  obtain ⟨a, ha, hx⟩ := bind_eq_ok.mp hx
  obtain ⟨b, hb, hy⟩ := bind_eq_ok.mp hy
  rw [ha] at hb
  cases hb
  exact hfg a c d s t hx hy

/-- Steps that do not touch the reader. -/
theorem skip {x : Result α} {y : Result β}
    {g : β → Result (δ × Reader)} (hfg : ∀ a b, SameReader (f a) (g b)) :
    SameReader (x >>= f) (y >>= g) := by
  intro c d s t hx hy
  obtain ⟨a, -, hx⟩ := bind_eq_ok.mp hx
  obtain ⟨b, -, hy⟩ := bind_eq_ok.mp hy
  exact hfg a b c d s t hx hy

theorem ite {c : Prop} [Decidable c] {x' : Result (α × Reader)}
    {y' : Result (β × Reader)} (h : SameReader x y) (h' : SameReader x' y') :
    SameReader (if c then x else x') (if c then y else y') := by
  split
  · exact h
  · exact h'

theorem error (e : Status) : SameReader (.error e : Result (α × Reader)) y := by
  intro a b s t hx
  cases hx

end SameReader

section TwoReadings

variable (o o' : Option TypeCtx)

theorem readHeaptype_same (r : Reader) : SameReader (readHeaptype r o) (readHeaptype r o') :=
  .read fun _ => .ite (.skip fun _ _ => .skip fun _ _ => .pure _ _ _) (.skip fun _ _ => .pure _ _ _)

theorem readReftype_same (r : Reader) : SameReader (readReftype r o) (readReftype r o') :=
  .read fun _ => .ite (.pure _ _ _) (.ite (.bind (readHeaptype_same _ _ _) fun _ _ _ => .pure _ _ _)
    (.ite (.error _) (.bind (readHeaptype_same _ _ _) fun _ _ _ => .pure _ _ _)))

theorem readValtype_same (r : Reader) : SameReader (readValtype r o) (readValtype r o') :=
  .read fun _ => .ite (.read fun _ => .pure _ _ _) (readReftype_same _ _ _)

theorem readValue_same (r : Reader) (limit : Nat) :
    SameReader (readValue r o limit) (readValue r o' limit) :=
  .bind (readValtype_same _ _ _) fun _ _ _ => .skip fun _ _ => .pure _ _ _

theorem readValues_same (limit : Nat) : ∀ (n : Nat) (r : Reader),
    SameReader (readValues o limit n r) (readValues o' limit n r)
  | 0, r => .pure [] [] r
  | n + 1, _ => .bind (readValue_same _ _ _ _) fun _ _ _ =>
      .bind (readValues_same limit n _) fun _ _ _ => .pure _ _ _

theorem readVector_same (r : Reader) (limit : Nat) :
    SameReader (readVector r o limit) (readVector r o' limit) :=
  .read fun _ => .skip fun _ _ => readValues_same _ _ _ _ _

theorem readStorage_same (r : Reader) (limit : Nat) :
    SameReader (readStorage r o limit) (readStorage r o' limit) :=
  .read fun _ => .ite (.read fun _ => .pure _ _ _)
    (.bind (readValue_same _ _ _ _) fun _ _ _ => .pure _ _ _)

theorem readField_same (r : Reader) (limit : Nat) :
    SameReader (readField r o limit) (readField r o' limit) :=
  .bind (readStorage_same _ _ _ _) fun _ _ _ => .read fun _ => .skip fun _ _ => .pure _ _ _

theorem readFields_same (limit : Nat) : ∀ (n : Nat) (r : Reader),
    SameReader (readFields o limit n r) (readFields o' limit n r)
  | 0, r => .pure [] [] r
  | n + 1, _ => .bind (readField_same _ _ _ _) fun _ _ _ =>
      .bind (readFields_same limit n _) fun _ _ _ => .pure _ _ _

theorem readComposite_same (r : Reader) (limit : Nat) (form : UInt8) :
    SameReader (readComposite r o limit form) (readComposite r o' limit form) := by
  refine .ite ?_ (.ite ?_ (.error _))
  · exact .bind (readVector_same _ _ _ _) fun _ _ _ =>
      .bind (readVector_same _ _ _ _) fun _ _ _ => .pure _ _ _
  · exact .read fun _ => .skip fun _ _ => .bind (readFields_same _ _ _ _ _) fun _ _ _ => .pure _ _ _

theorem readDefinition_same (r : Reader) (index start count : Nat) :
    SameReader (readDefinition r o index start count) (readDefinition r o' index start count) :=
  .read fun _ => .bind (readComposite_same _ _ _ _ _) fun _ _ _ => .pure _ _ _

end TwoReadings

theorem readMembers_same (start count : Nat) : ∀ (left i : Nat) (r : Reader)
    (o o' : Option TypeCtx),
    SameReader (readMembers start count left i r o) (readMembers start count left i r o')
  | 0, _, r, o, o' => .pure o o' r
  | left + 1, i, _, _, _ => .bind (readDefinition_same _ _ _ _ _ _) fun _ _ _ =>
      readMembers_same start count left (i + 1) _ _ _

theorem readGroupLoop_same : ∀ {left total n m : Nat} {r s t : Reader}
    {o o' q q' : Option TypeCtx}, readGroupLoop left total r o = .ok (n, q, s) →
    readGroupLoop left total r o' = .ok (m, q', t) → n = m
  | 0, _, _, _, _, _, _, _, _, _, _, h, h' => by
    cases h
    cases h'
    rfl
  | left + 1, total, n, m, r, s, t, o, o', q, q', h, h' => by
    simp only [readGroupLoop, bind_eq_ok, Prod.exists] at h h'
    obtain ⟨count, r1, hcount, -, -, o1, r2, hm, h⟩ := h
    obtain ⟨count', r1', hcount', -, -, o1', r2', hm', h'⟩ := h'
    rw [hcount] at hcount'
    cases hcount'
    obtain rfl := readMembers_same total count count total r1 o o' _ _ _ _ hm hm'
    exact readGroupLoop_same h h'

/-- **Both readings count the same types.** -/
theorem readGroups_same
    (h : readGroups r o = .ok (n, q, s)) (h' : readGroups r o' = .ok (m, q', t)) : n = m := by
  simp only [readGroups, bind_eq_ok, Prod.exists] at h h'
  obtain ⟨groups, r1, hg, n', q1, s1, hloop, -, -, hout⟩ := h
  obtain ⟨groups', r1', hg', m', q1', t1, hloop', -, -, hout'⟩ := h'
  cases hout
  cases hout'
  rw [hg] at hg'
  cases hg'
  exact readGroupLoop_same hloop hloop'

/-! ## 2. The array -/

theorem readGroupLoop_le : ∀ {left total : Nat} {r : Reader} {o : Option TypeCtx},
    total ≤ uint32Max → Yields (fun p => p.1 ≤ uint32Max) (readGroupLoop left total r o)
  | 0, _, _, _, ht => .ok ht
  | _ + 1, _, _, _, ht => by
    refine .skip fun _ => .check fun _ hroom => .skip fun _ => readGroupLoop_le ?_
    simp only [failIf_eq_ok, decide_eq_false_iff_not] at hroom
    omega

theorem readGroups_le :
    Yields (fun p => p.1 ≤ uint32Max) (readGroups r o) :=
  .skip fun _ => .bind (readGroupLoop_le (Nat.zero_le _)) fun _ h => .skip fun _ => .pure h

theorem length_mapM {α β : Type} {f : α → Option β} : ∀ {xs : List α} {ys : List β},
    xs.mapM f = some ys → ys.length = xs.length
  | [], ys, h => by
    simp only [List.mapM_nil, Option.pure_def, Option.some.injEq] at h
    subst h
    rfl
  | x :: xs, ys, h => by
    simp only [List.mapM_cons, Option.pure_def, Option.bind_eq_bind, Option.bind_eq_some_iff,
      Option.some.injEq] at h
    obtain ⟨y, -, ys', hys, rfl⟩ := h
    rw [List.length_cons, List.length_cons, length_mapM hys]

theorem bindValue_index {v v' : ValueType} (h : bindValue ctx v = some v') :
    v'.typeIndex = v.typeIndex := by
  unfold bindValue at h
  split at h
  · split at h
    · cases h
    · split at h <;> cases h
      rfl
  · cases h
    rfl

/-- Binding keeps a record as it should be. -/
theorem BoundType.typeOk (hb : BoundType ctx i t t') (ht : TypeOk t) : TypeOk t' := by
  have hp := length_mapM hb.params
  have hr := length_mapM hb.results
  have hf := length_mapM hb.fields
  have hkind : t'.kind = t.kind := by rw [hb.eq]
  have hsup : t'.superIndex = t.superIndex := by rw [hb.eq]
  refine ⟨hp ▸ ht.paramCount, hr ▸ ht.resultCount, hf ▸ ht.fieldCount, fun v' hv' => ?_,
    fun hk => ?_, fun hk => hf.trans (ht.array (hkind ▸ hk)), fun hk => ?_, fun f' hf' => ?_,
    hsup ▸ ht.superIndex⟩
  · obtain ⟨v, hv, hbind⟩ := hb.value v' hv'
    exact bindValue_index hbind ▸ ht.index v hv
  · rw [ht.function (hkind ▸ hk)] at hf
    exact eq_nil_of_length_eq_zero hf
  · obtain ⟨hps, hrs⟩ := ht.composite (hkind ▸ hk)
    rw [hps] at hp
    rw [hrs] at hr
    exact ⟨eq_nil_of_length_eq_zero hp, eq_nil_of_length_eq_zero hr⟩
  · obtain ⟨f, hfmem, hbind⟩ := mapM_some_mem hb.fields f' hf'
    obtain ⟨v, -, rfl⟩ := map_eq_some_iff.mp hbind
    exact ht.packed f hfmem

theorem finalizeGroups_same : ∀ {rounds i : Nat} {ctx ctx' : TypeCtx},
    finalizeGroups H rounds i ctx = .ok ctx' → SameButDepth ctx.types ctx'.types
  | 0, i, ctx, ctx', h => by
    rcases ite_cases h with ⟨-, h⟩ | ⟨-, h⟩ <;> cases h
    rfl
  | rounds + 1, i, ctx, ctx', h => by
    unfold finalizeGroups at h
    split at h
    · cases h
      rfl
    · simp only [bind_eq_ok] at h
      obtain ⟨-, -, d, -, -, -, ok, -, -, -, h⟩ := h
      exact (setDepth_same ctx.types i _ d).symm.trans (finalizeGroups_same h)

/-- Finalizing keeps the number of records, and each as it should be. -/
theorem typesFinalize_filled {ctx' : TypeCtx}
    (hall : ∀ t ∈ ctx.types, TypeOk t) (h : typesFinalize H ctx = .ok ctx') :
    ctx'.types.length = ctx.types.length ∧ ∀ t ∈ ctx'.types, TypeOk t := by
  simp only [typesFinalize, bind_eq_ok, orFail_eq_ok] at h
  obtain ⟨types, hbind, h⟩ := h
  obtain ⟨hlen, hget⟩ := bindTypes_get hbind
  have hsame : SameButDepth types ctx'.types := finalizeGroups_same h
  refine ⟨hsame.length.symm.trans hlen, fun t ht => ?_⟩
  obtain ⟨i, hi⟩ := getElem?_of_mem ht
  obtain ⟨d, hd⟩ := hsame.symm.get hi
  obtain ⟨u, hu, hb⟩ := hget i _ hd
  exact { hb.typeOk (hall u (mem_of_getElem? hu)) with }

/-- **The type section**: the array has as many records as both readings counted, at most
`UINT32_MAX`, and each is as it should be. -/
theorem validateCompositeTypes_filled
    (h : validateCompositeTypes H addr r = .ok (ctx, r')) (hn : readGroups r none = .ok (n, o, s)) :
    ctx.types.length = n ∧ n ≤ uint32Max ∧ ∀ t ∈ ctx.types, TypeOk t := by
  obtain ⟨_, _, _, ctx₀, hcount, ⟨_, heq, -, hlen, hall⟩, hfin⟩ := validateCompositeTypes_read h
  cases heq
  rw [hcount] at hn
  cases hn
  have hok : ∀ t ∈ ctx₀.types, TypeOk t := fun t ht => by
    obtain ⟨i, hi⟩ := getElem?_of_mem ht
    rcases hall i t hi with rfl | h
    · exact .zero
    · exact h.2
  obtain ⟨hlen', hall'⟩ := typesFinalize_filled hok hfin
  exact ⟨hlen'.trans hlen, readGroups_le _ hcount, hall'⟩

end TurboWasm
