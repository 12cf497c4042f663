/-
# Matching is a partial order up to type equality

`turbowasm_validation_value_type_matches` mixes three things: a hand-written lattice of abstract
heap types, the kind of a definition where a type index meets an abstract heap type, and a walk up
the declared supertypes where two type indices meet.  `ValueLe` states the order they implement,
and `valueTypeMatches_decides` proves that the function decides it on a finalized type array.

The order is then studied on its own.  Its two non-trivial facts are about declared supertypes:

- equal types have equal supertypes (`isoTerm_super`), so that walking up from either of them meets
  the same types, which is transitivity;
- the number of declared supertypes is the same for equal types (`superHeight_unique`), so that no
  type is a proper supertype of itself, which is antisymmetry.
-/
import TurboWasm.Types.Iso

namespace TurboWasm

open TurboWasm.Lib List ValueType

/-! ## 1. Declared supertypes and type equality -/

/-- `b` is reached from `a` by walking up `n` declared supertypes. -/
inductive SuperChain (H : TypeHeap) : Nat → TypePtr → TypePtr → Prop where
  | refl (a : TypePtr) : SuperChain H 0 a a
  | step {n : Nat} {a s b : TypePtr} {A : FuncType} : H.get a = some A → A.super = some s →
      SuperChain H n s b → SuperChain H (n + 1) a b

/-- `a` has exactly `n` declared supertypes above it. -/
inductive SuperHeight (H : TypeHeap) : TypePtr → Nat → Prop where
  | top {a : TypePtr} {A : FuncType} : H.get a = some A → A.super = none → SuperHeight H a 0
  | step {n : Nat} {a s : TypePtr} {A : FuncType} : H.get a = some A → A.super = some s →
      SuperHeight H s n → SuperHeight H a (n + 1)

section Super

variable {H : TypeHeap} {a b : TypePtr} {n : Nat}

section

variable (ha : Live H a)

include ha

theorem Live.super (hA : H.get a = some A)
    (hs : A.super = some s) : Live H s ∧ s.ctx = a.ctx ∧ s.index < a.index := by
  obtain ⟨hc, hlt⟩ := ha.1.super hA hs
  refine ⟨?_, hc, hlt⟩
  unfold Live
  rw [hc]
  exact ⟨ha.1, by have := ha.2; omega⟩

theorem Live.super_kind {S : FuncType} (hA : H.get a = some A)
    (hs : A.super = some s) (hS : H.get s = some S) : S.kind = A.kind := by
  obtain ⟨-, hc, -⟩ := ha.super hA hs
  rw [TypeHeap.get, hc] at hS
  exact ha.1.superKind hA hs hS

/-- Equal terms are equal in the member that the two pointers denote. -/
theorem isoTerm_member (hb : Live H b)
    (hA : H.get a = some A) (hB : H.get b = some B) (h : isoTerm H a = isoTerm H b) :
    A.groupOffset = B.groupOffset ∧ isoMember H a A = isoMember H b B := by
  have self : ∀ {p : TypePtr} {P : FuncType}, Live H p → H.get p = some P →
      groupMember H p P P.groupOffset = P := by
    intro p P hp hP
    have := hp.1.offset hP
    rw [groupMember, show p.index - P.groupOffset + P.groupOffset = p.index by omega, hP]
    rfl
  rw [isoTerm_get ha hA, isoTerm_get hb hB, IsoType.mk.injEq] at h
  obtain ⟨hms, hoff⟩ := h
  refine ⟨hoff, ?_⟩
  have hcount := congrArg List.length hms
  simp only [length_map, length_range] at hcount
  rw [← hcount, map_inj_left] at hms
  have := hms A.groupOffset (mem_range.mpr (ha.1.offset hA).2)
  rw [self ha hA] at this
  rwa [hoff, self hb hB] at this

theorem isoTerm_kind (hb : Live H b)
    (hA : H.get a = some A) (hB : H.get b = some B) (h : isoTerm H a = isoTerm H b) :
    A.kind = B.kind :=
  (isoMember_eq_iff.mp (isoTerm_member ha hb hA hB h).2).1.1

/-- Two records of one group have the same members in their terms. -/
theorem isoTerm_sameGroup {S : FuncType} (hs : Live H s)
    (hc : s.ctx = a.ctx) (hA : H.get a = some A) (hS : H.get s = some S) (hg : S.group = A.group) :
    isoTerm H s = .mk (isoTerm H a).members S.groupOffset := by
  have hstart : s.index - S.groupOffset = a.index - A.groupOffset := by
    have := (hs.1.group hS).symm.trans (hg.trans (ha.1.group hA))
    simpa using (TypePtr.mk.injEq .. ▸ Option.some.inj this : _ ∧ _).2
  -- the first member of the group knows the size of the group
  have hcount : S.groupCount = A.groupCount := by
    obtain ⟨u, hu, -, hcu⟩ := hs.1.member hS 0 (by have := hs.1.offset hS; omega)
    obtain ⟨v, hv, -, hcv⟩ := ha.1.member hA 0 (by have := ha.1.offset hA; omega)
    rw [hc, hstart] at hu
    rw [hu] at hv
    cases hv
    rw [← hcu, hcv]
  have hin : ∀ p, isoRef H s p = isoRef H a p := by
    intro p
    simp only [isoRef, RefGraph.refTerm, typeGraph, hA, hS]
    cases H.get p with
    | none => rfl
    | some u => simp only [hg]
  rw [isoTerm_get hs hS, isoTerm_get ha hA, IsoType.members, hcount]
  congr 1
  apply map_congr_left
  intro j _
  simp only [groupMember, hc, hstart, isoMember]
  congr 2
  funext o
  cases o with
  | none => rfl
  | some p => simp [hin p]

/-- **Equal types have equal supertypes.** -/
theorem isoTerm_super (hb : Live H b)
    (hA : H.get a = some A) (hB : H.get b = some B) (h : isoTerm H a = isoTerm H b)
    (hs : A.super = some s) : ∃ t, B.super = some t ∧ isoTerm H s = isoTerm H t := by
  obtain ⟨-, hsup, -⟩ := isoMember_eq_iff.mp (isoTerm_member ha hb hA hB h).2
  rw [hs] at hsup
  cases ht : B.super with
  | none => simp [ht] at hsup
  | some t =>
    refine ⟨t, rfl, ?_⟩
    obtain ⟨hsl, hsc, -⟩ := ha.super hA hs
    obtain ⟨htl, htc, -⟩ := hb.super hB ht
    obtain ⟨S, hS⟩ := hsl.get
    obtain ⟨T, hT⟩ := htl.get
    simp only [ht, Option.map_some, Option.some.injEq] at hsup
    by_cases hgs : S.group = A.group <;> by_cases hgt : T.group = B.group
    · -- both inside: the same position of the same members
      rw [isoRef_inside hA hS hgs, isoRef_inside hB hT hgt, Sum.inl.injEq] at hsup
      rw [isoTerm_sameGroup ha hsl hsc hA hS hgs, isoTerm_sameGroup hb htl htc hB hT hgt, h, hsup]
    · rw [isoRef_inside hA hS hgs, isoRef_outside hB hT hgt] at hsup
      exact absurd hsup (by simp)
    · rw [isoRef_outside hA hS hgs, isoRef_inside hB hT hgt] at hsup
      exact absurd hsup (by simp)
    · -- both outside
      rwa [isoRef_outside hA hS hgs, isoRef_outside hB hT hgt, Sum.inr.injEq] at hsup

theorem isoTerm_super_none (hb : Live H b)
    (hA : H.get a = some A) (hB : H.get b = some B) (h : isoTerm H a = isoTerm H b)
    (hs : A.super = none) : B.super = none := by
  cases ht : B.super with
  | none => rfl
  | some t =>
    obtain ⟨s, hs', -⟩ := isoTerm_super hb ha hB hA h.symm ht
    rw [hs] at hs'
    cases hs'

end

/-- Walking up stays in the array and keeps the kind. -/
theorem SuperChain.live (h : SuperChain H n a b) (ha : Live H a) : Live H b ∧ b.ctx = a.ctx := by
  induction h with
  | refl a => exact ⟨ha, rfl⟩
  | step hA hs _ ih =>
    obtain ⟨hl, hc, -⟩ := ha.super hA hs
    obtain ⟨hb, hbc⟩ := ih hl
    exact ⟨hb, hbc.trans hc⟩

theorem SuperChain.kind (h : SuperChain H n a b) (ha : Live H a) (hA : H.get a = some A)
    (hB : H.get b = some B) : A.kind = B.kind := by
  induction h generalizing A with
  | refl a =>
    rw [hA] at hB
    cases hB
    rfl
  | step hA' hs _ ih =>
    rw [hA'] at hA
    cases hA
    obtain ⟨hl, -, -⟩ := ha.super hA' hs
    obtain ⟨S, hS⟩ := hl.get
    exact (ha.super_kind hA' hs hS).symm.trans (ih hl hS hB)

theorem SuperChain.trans {c : TypePtr} (h : SuperChain H m a b)
    (h' : SuperChain H n b c) : SuperChain H (m + n) a c := by
  induction h with
  | refl a => rwa [zero_add]
  | step hA hs _ ih =>
    rw [Nat.succ_add]
    exact .step hA hs (ih h')

/-- Walking up from an equal type meets equal types. -/
theorem SuperChain.congr {a' : TypePtr} (h : SuperChain H n a b) (ha : Live H a)
    (ha' : Live H a') (heq : isoTerm H a = isoTerm H a') :
    ∃ b', SuperChain H n a' b' ∧ isoTerm H b = isoTerm H b' := by
  induction h generalizing a' with
  | refl a => exact ⟨a', .refl a', heq⟩
  | step hA hs _ ih =>
    obtain ⟨A', hA'⟩ := ha'.get
    obtain ⟨s', hs', hss⟩ := isoTerm_super ha ha' hA hA' heq hs
    obtain ⟨b', hb', hbb⟩ := ih (ha.super hA hs).1 (ha'.super hA' hs').1 hss
    exact ⟨b', .step hA' hs' hb', hbb⟩

/-- Supertypes are declared before their subtypes, so every record has a height. -/
theorem superHeight_exists : ∀ (k : Nat) (a : TypePtr), Live H a → a.index < k →
    ∃ n, SuperHeight H a n
  | 0, _, _, h => absurd h (Nat.not_lt_zero _)
  | k + 1, a, ha, hk => by
    obtain ⟨A, hA⟩ := ha.get
    cases hs : A.super with
    | none => exact ⟨0, .top hA hs⟩
    | some s =>
      obtain ⟨hl, -, hlt⟩ := ha.super hA hs
      obtain ⟨n, hn⟩ := superHeight_exists k s hl (by omega)
      exact ⟨n + 1, .step hA hs hn⟩

/-- **Equal types have one height.** -/
theorem superHeight_unique (ha : SuperHeight H a m)
    (hb : SuperHeight H b n) (hla : Live H a) (hlb : Live H b)
    (heq : isoTerm H a = isoTerm H b) : m = n := by
  induction ha generalizing b n with
  | top hA hs =>
    cases hb with
    | top _ _ => rfl
    | step hB ht _ => exact absurd (isoTerm_super_none hla hlb hA hB heq hs) (by simp [ht])
  | step hA hs _ ih =>
    cases hb with
    | top hB ht =>
      exact absurd (isoTerm_super_none hlb hla hB hA heq.symm ht) (by simp [hs])
    | step hB ht hn =>
      obtain ⟨t, ht', hst⟩ := isoTerm_super hla hlb hA hB heq hs
      rw [ht] at ht'
      cases ht'
      rw [ih hn (hla.super hA hs).1 (hlb.super hB ht).1 hst]

/-- Walking up `n` supertypes lowers the height by `n`. -/
theorem SuperChain.height (h : SuperChain H n a b) (ha : Live H a)
    (hm : SuperHeight H a m) (hk : SuperHeight H b k) : m = n + k := by
  induction h generalizing m with
  | refl a => rw [superHeight_unique hm hk ha ha rfl, zero_add]
  | step hA hs _ ih =>
    cases hm with
    | top hA' hs' =>
      rw [hA] at hA'
      cases hA'
      exact absurd hs' (by simp [hs])
    | step hA' hs' hn =>
      rw [hA] at hA'
      cases hA'
      rw [hs] at hs'
      cases hs'
      rw [ih (ha.super hA hs).1 hn hk]
      omega

/-! ## 2. The order on defined types -/

/-- `a` is `b`, or a declared subtype of `b`, up to type equality. -/
def DefLe (H : TypeHeap) (a b : TypePtr) : Prop :=
  ∃ n c, SuperChain H n a c ∧ isoTerm H c = isoTerm H b

theorem DefLe.of_eq (h : isoTerm H a = isoTerm H b) : DefLe H a b :=
  ⟨0, a, .refl a, h⟩

theorem DefLe.trans {c : TypePtr} (ha : Live H a) (hb : Live H b) (h : DefLe H a b)
    (h' : DefLe H b c) : DefLe H a c := by
  obtain ⟨m, x, hx, hxb⟩ := h
  obtain ⟨n, y, hy, hyc⟩ := h'
  obtain ⟨y', hy', hyy⟩ := hy.congr hb (hx.live ha).1 hxb.symm
  exact ⟨m + n, y', hx.trans hy', hyy.symm.trans hyc⟩

theorem DefLe.antisymm (ha : Live H a) (hb : Live H b) (h : DefLe H a b)
    (h' : DefLe H b a) : isoTerm H a = isoTerm H b := by
  obtain ⟨m, x, hx, hxb⟩ := h
  obtain ⟨n, y, hy, hya⟩ := h'
  obtain ⟨p, hp⟩ := superHeight_exists _ a ha (Nat.lt_succ_self _)
  obtain ⟨q, hq⟩ := superHeight_exists _ b hb (Nat.lt_succ_self _)
  obtain ⟨p', hp'⟩ := superHeight_exists _ y (hy.live hb).1 (Nat.lt_succ_self _)
  obtain ⟨q', hq'⟩ := superHeight_exists _ x (hx.live ha).1 (Nat.lt_succ_self _)
  have h1 := hx.height ha hp hq'
  have h2 := hy.height hb hq hp'
  have h3 := superHeight_unique hq' hq (hx.live ha).1 hb hxb
  have h4 := superHeight_unique hp' hp (hy.live hb).1 ha hya
  -- the two walks together climb nothing
  obtain rfl : m = 0 := by omega
  cases hx
  exact hxb

theorem DefLe.kind (ha : Live H a) (hb : Live H b)
    (hA : H.get a = some A) (hB : H.get b = some B) (h : DefLe H a b) : A.kind = B.kind := by
  obtain ⟨n, c, hc, heq⟩ := h
  obtain ⟨hcl, -⟩ := hc.live ha
  obtain ⟨C, hC⟩ := hcl.get
  exact (hc.kind ha hA hC).trans (isoTerm_kind hcl hb hC hB heq)

/-- `turbowasm_validation_defined_type_matches` decides the order. -/
theorem definedTypeMatches_decides : ∀ (steps : Nat) (a b : TypePtr),
    CanonSound H a.ctx b.ctx → Live H a → Live H b → a.index < fuel → a.index + 1 < steps →
      Decides (definedTypeMatches H fuel steps (some a) b) (DefLe H a b)
  | 0, _, _, _, _, _, _, h => absurd h (Nat.not_lt_zero _)
  | steps + 1, a, b, hcanon, ha, hb, hfuel, hsteps => by
    obtain ⟨e, he, hiff⟩ := definedTypeEqual_decides fuel a b hcanon ha hb hfuel
    unfold definedTypeMatches
    rw [he]
    cases e with
    | true => exact .true_ (.of_eq (hiff.mp rfl))
    | false =>
      have hne : isoTerm H a ≠ isoTerm H b := by simpa using hiff.mpr
      obtain ⟨A, hA⟩ := ha.get
      -- a walk that is not over has to pass the declared supertype
      have hwalk : DefLe H a b ↔ ∃ s, A.super = some s ∧ DefLe H s b := by
        constructor
        · rintro ⟨n, c, hc, heq⟩
          cases hc with
          | refl => exact absurd heq hne
          | step hA' hs hc =>
            rw [hA] at hA'
            cases hA'
            exact ⟨_, hs, _, c, hc, heq⟩
        · rintro ⟨s, hs, n, c, hc, heq⟩
          exact ⟨n + 1, c, .step hA hs hc, heq⟩
      simp only [hA]
      cases hs : A.super with
      | none =>
        obtain ⟨k, rfl⟩ : ∃ k, steps = k + 1 := ⟨steps - 1, by omega⟩
        exact .false_ (fun h => by simpa [hs] using hwalk.mp h)
      | some s =>
        obtain ⟨hsl, hsc, hlt⟩ := ha.super hA hs
        refine (definedTypeMatches_decides steps s b (hsc ▸ hcanon) hsl hb (by omega)
          (by omega)).congr ?_
        rw [hwalk]
        simp [hs]

end Super

/-! ## 3. The order on value types -/

variable {k : HeapKind} {t : TypeKind} {c : UInt8}

/-- The proper subtypings between abstract heap types. -/
def absPairs : List (HeapKind × HeapKind) :=
  [(.nofunc, .func), (.noexternal, .external), (.noexn, .exn),
   (.bottom, .i31), (.bottom, .struct), (.bottom, .array), (.bottom, .eq), (.bottom, .any),
   (.i31, .eq), (.struct, .eq), (.array, .eq),
   (.i31, .any), (.struct, .any), (.array, .any), (.eq, .any)]

/-- The lattice of abstract heap types. -/
def AbsLe (k k' : HeapKind) : Prop := k = k' ∨ (k, k') ∈ absPairs

/-- The abstract heap types above a definition of a kind. -/
def kindAbove : TypeKind → List HeapKind
  | .function => [.func]
  | .struct => [.struct, .eq, .any]
  | .array => [.array, .eq, .any]

/-- The abstract heap type below every definition of a kind. -/
def kindBelow : TypeKind → HeapKind
  | .function => .nofunc
  | .struct | .array => .bottom

/-- The order on the heap types of two reference types. -/
def HeapLe (H : TypeHeap) (a b : ValueType) : Prop :=
  match a.ref, b.ref with
  | none, none => AbsLe a.heapKind b.heapKind
  | some p, none => ∃ d, H.get p = some d ∧ b.heapKind ∈ kindAbove d.kind
  | none, some q => ∃ d, H.get q = some d ∧ a.heapKind = kindBelow d.kind
  | some p, some q => DefLe H p q

/-- The order on value types: what it means for `a` to match `b`. -/
def ValueLe (H : TypeHeap) (a b : ValueType) : Prop :=
  if a.isReference && b.isReference then (a.nullable → b.nullable) ∧ HeapLe H a b
  else a.isReference = b.isReference ∧ a.carrier = b.carrier

/-- A value type with its reference closed. -/
def isoValueType (H : TypeHeap) (v : ValueType) : ValueShape × Option (IsoType MemberShape) :=
  (v.shape, v.ref.map (isoTerm H))

theorem AbsLe.trans {a b c : HeapKind} (h : AbsLe a b) (h' : AbsLe b c) : AbsLe a c := by
  have hpairs : ∀ x ∈ absPairs, ∀ y ∈ absPairs, x.2 = y.1 → (x.1, y.2) ∈ absPairs := by decide
  rcases h with rfl | h
  · exact h'
  · rcases h' with rfl | h'
    · exact .inr h
    · exact .inr (hpairs _ h _ h' rfl)

theorem AbsLe.antisymm (h : AbsLe a b) (h' : AbsLe b a) : a = b := by
  have hpairs : ∀ x ∈ absPairs, (x.2, x.1) ∉ absPairs := by decide
  rcases h with rfl | h
  · rfl
  · rcases h' with rfl | h'
    · rfl
    · exact absurd h' (hpairs _ h)

theorem AbsLe.kindAbove (h : AbsLe k k') (hk : k ∈ kindAbove t) :
    k' ∈ TurboWasm.kindAbove t := by
  have hpairs : ∀ x ∈ absPairs, ∀ t ∈ [.function, .struct, .array],
      x.1 ∈ TurboWasm.kindAbove t → x.2 ∈ TurboWasm.kindAbove t := by decide
  rcases h with rfl | h
  · exact hk
  · exact hpairs _ h t (by cases t <;> decide) hk

theorem AbsLe.eq_kindBelow (h : AbsLe k (kindBelow t)) : k = kindBelow t := by
  have hpairs : ∀ x ∈ absPairs, ∀ t ∈ [.function, .struct, .array],
      x.2 ≠ kindBelow t := by decide
  rcases h with rfl | h
  · rfl
  · exact absurd rfl (hpairs _ h t (by cases t <;> decide))

theorem kindBelow_le_kindAbove (h : k ∈ kindAbove t) : AbsLe (kindBelow t) k := by
  have hall : ∀ t ∈ [.function, .struct, .array], ∀ k ∈ kindAbove t,
      (kindBelow t, k) ∈ absPairs := by decide
  exact .inr (hall t (by cases t <;> decide) k h)

theorem kindBelow_notMem_kindAbove (t u : TypeKind) : kindBelow t ∉ kindAbove u := by
  cases t <;> cases u <;> decide

/-- The abstract heap types with their carriers. -/
def abstractHeaps : List (HeapKind × UInt8) :=
  [(.func, 0x70), (.nofunc, 0x70), (.external, 0x6f), (.noexternal, 0x6f), (.exn, 0x69),
   (.noexn, 0x69), (.any, 0x6e), (.eq, 0x6e), (.i31, 0x6e), (.struct, 0x6e), (.array, 0x6e),
   (.bottom, 0x6e)]

theorem mem_abstractHeaps (h : abstractCarrier k = some c) : (k, c) ∈ abstractHeaps := by
  cases k <;> simp_all [abstractCarrier, abstractHeaps]

/-- The tests of `turbowasm_validation_value_type_matches` on two abstract heap types. -/
theorem absMatches_iff (hc : abstractCarrier k = some c) (hc' : abstractCarrier k' = some c') :
    (c = c' ∧ (k = k' ∨ if c = 0x6e
      then k = .bottom ∨ k' = .any ∨ (k' = .eq ∧ (k = .i31 ∨ k = .struct ∨ k = .array))
      else (k = .nofunc ∧ k' = .func) ∨ (k = .noexternal ∧ k' = .external) ∨
        (k = .noexn ∧ k' = .exn))) ↔ AbsLe k k' := by
  have hall : ∀ x ∈ abstractHeaps, ∀ y ∈ abstractHeaps,
      (x.2 = y.2 ∧ (x.1 = y.1 ∨ if x.2 = 0x6e
        then x.1 = .bottom ∨ y.1 = .any ∨ (y.1 = .eq ∧ (x.1 = .i31 ∨ x.1 = .struct ∨ x.1 = .array))
        else (x.1 = .nofunc ∧ y.1 = .func) ∨ (x.1 = .noexternal ∧ y.1 = .external) ∨
          (x.1 = .noexn ∧ y.1 = .exn))) ↔ x.1 = y.1 ∨ (x.1, y.1) ∈ absPairs := by decide
  exact hall _ (mem_abstractHeaps hc) _ (mem_abstractHeaps hc')

/-- The tests on an abstract heap type against a definition. -/
theorem belowMatches_iff (hc : abstractCarrier k = some c) :
    (c = kindCarrier t ∧ if c = 0x6e then k = .bottom else k = .nofunc) ↔ k = kindBelow t := by
  have hall : ∀ x ∈ abstractHeaps, ∀ t ∈ [.function, .struct, .array],
      (x.2 = kindCarrier t ∧ if x.2 = 0x6e then x.1 = .bottom else x.1 = .nofunc) ↔
        x.1 = kindBelow t := by decide
  exact hall _ (mem_abstractHeaps hc) t (by cases t <;> decide)

/-- The abstract heap type that stands for a definition of a kind among the `0x6e` carriers. -/
def gcKind (t : TypeKind) : HeapKind := if t = .struct then .struct else .array

/-- The tests on a definition against an abstract heap type. -/
theorem aboveMatches_iff (hc : abstractCarrier k = some c) :
    (kindCarrier t = c ∧ (k = .func ∨ if kindCarrier t = 0x6e
      then k = .any ∨ gcKind t = k ∨
        (k = .eq ∧ (gcKind t = .i31 ∨ gcKind t = .struct ∨ gcKind t = .array))
      else False)) ↔ k ∈ kindAbove t := by
  have hall : ∀ x ∈ abstractHeaps, ∀ t ∈ [.function, .struct, .array],
      (kindCarrier t = x.2 ∧ (x.1 = .func ∨ if kindCarrier t = 0x6e
        then x.1 = .any ∨ gcKind t = x.1 ∨
          (x.1 = .eq ∧ (gcKind t = .i31 ∨ gcKind t = .struct ∨ gcKind t = .array))
        else False)) ↔ x.1 ∈ kindAbove t := by decide
  exact hall _ (mem_abstractHeaps hc) t (by cases t <;> decide)

section Values

variable {H : TypeHeap} {c : Nat} {a : ValueType} {t : UInt8} {d : FuncType}

theorem abstractCarrier_ne {carrier : UInt8} (h : abstractCarrier k = some carrier) :
    k ≠ .typeIndex := by
  rintro rfl
  exact absurd h (by simp [abstractCarrier])

/-- Two abstract heap types. -/
theorem matches_heap_heap {k' : HeapKind} {t' : UInt8} {i' : Nat}
    (hk : abstractCarrier k = some t) (hk' : abstractCarrier k' = some t') :
    Decides (valueTypeMatches H fuel ⟨t, true, n, k, i, none⟩ ⟨t', true, n', k', i', none⟩)
      ((n → n') ∧ AbsLe k k') := by
  have hne := abstractCarrier_ne hk
  have hne' := abstractCarrier_ne hk'
  rw [← absMatches_iff hk hk']
  simp only [valueTypeMatches, gcHeapKind, hne, hne', false_and, or_false, Option.bind_none]
  refine .guard (fun h => by tauto) fun h1 => .guard (fun h => by tauto) fun h2 => ?_
  have hn : n → n' := by tauto
  refine .accept (fun h => ⟨hn, by tauto⟩) fun h3 => ?_
  simp only [and_iff_right hn, and_iff_right (not_not.mp h1), h3, false_or]
  by_cases h4 : t = 0x6e
  · simp only [h4, ↓reduceIte]
    refine .accept (fun h => by tauto) fun h5 => Decides.some_iff.mpr ?_
    simp only [not_or] at h5
    simp [h3, h5.1, h5.2, or_assoc]
  · simp only [h4, ↓reduceIte]
    refine .accept (fun h => by tauto) fun h5 => .accept (fun h => by tauto) fun h6 => ?_
    refine Decides.some_iff.mpr ?_
    simp only [h5, h6, false_or, Bool.and_eq_true, beq_iff_eq]

/-- An abstract heap type against a type index. -/
theorem matches_heap_index (hk : abstractCarrier k = some t) :
    Decides (valueTypeMatches H fuel ⟨t, true, n, k, i, none⟩
        ⟨kindCarrier d.kind, true, n', .typeIndex, j, some ⟨c, j⟩⟩)
      ((n → n') ∧ k = kindBelow d.kind) := by
  have hne := abstractCarrier_ne hk
  rw [← belowMatches_iff hk]
  simp only [valueTypeMatches, gcHeapKind, hne, reduceCtorEq, or_false, or_true, and_true,
    and_false]
  refine .guard (fun h => by tauto) fun h1 => .guard (fun h => by tauto) fun h2 => ?_
  have hn : n → n' := by tauto
  simp only [and_iff_right hn, and_iff_right (not_not.mp h1)]
  by_cases h4 : t = 0x6e
  · simp only [h4, ↓reduceIte]
    exact .accept (fun h => h) fun h5 => Decides.some_iff.mpr (by simp [hne, h5])
  · simp only [h4, ↓reduceIte]
    exact .accept (fun h => h) fun h5 => Decides.some_iff.mpr (by simp [h5])

/-- A type index against an abstract heap type. -/
theorem matches_index_heap (hk : abstractCarrier k = some t) (hd : H.get ⟨c, j⟩ = some d) :
    Decides (valueTypeMatches H fuel ⟨kindCarrier d.kind, true, n, .typeIndex, j, some ⟨c, j⟩⟩
        ⟨t, true, n', k, i, none⟩) ((n → n') ∧ k ∈ kindAbove d.kind) := by
  have hne : .typeIndex ≠ k := (abstractCarrier_ne hk).symm
  rw [← aboveMatches_iff hk]
  simp only [valueTypeMatches, gcHeapKind, hne, reduceCtorEq, true_and, Option.bind_some, hd]
  refine .guard (fun h => by tauto) fun h1 => .guard (fun h => by tauto) fun h2 => ?_
  have hn : n → n' := by tauto
  simp only [and_iff_right hn, and_iff_right (not_not.mp h1)]
  refine .accept .inl fun h3 => ?_
  simp only [h3, false_or]
  by_cases h4 : kindCarrier d.kind = 0x6e
  · simp only [h4, ↓reduceIte]
    refine .accept .inl fun h5 => Decides.some_iff.mpr ?_
    simp [h5, gcKind, or_assoc]
  · simp only [h4]
    exact Decides.some_iff.mpr (by simp)

/-- Two type indices, of two arrays. -/
theorem matches_index_index {e : FuncType}
    (hf : FinalTypes c (H c)) (hf' : FinalTypes c' (H c')) (hcanon : CanonSound H c c')
    (hfuel : (H c).length < fuel) (hd : (H c)[i]? = some d) (he : (H c')[j]? = some e) :
    Decides (valueTypeMatches H fuel ⟨kindCarrier d.kind, true, n, .typeIndex, i, some ⟨c, i⟩⟩
        ⟨kindCarrier e.kind, true, n', .typeIndex, j, some ⟨c', j⟩⟩)
      ((n → n') ∧ DefLe H ⟨c, i⟩ ⟨c', j⟩) := by
  have hi : Live H ⟨c, i⟩ := .of_get hf hd
  have hj : Live H ⟨c', j⟩ := .of_get hf' he
  refine .guard ?_ fun h1 => .guard (fun h => by tauto) fun h2 => ?_
  · rintro hne ⟨-, hle⟩
    exact hne (congrArg kindCarrier (hle.kind hi hj hd he))
  · have hlt := hi.2
    refine (definedTypeMatches_decides fuel ⟨c, i⟩ ⟨c', j⟩ hcanon hi hj ?_ ?_).congr ?_
    · exact hlt.trans hfuel
    · exact Nat.lt_of_le_of_lt hlt hfuel
    · exact ⟨fun h => ⟨by tauto, h⟩, fun h => h.2⟩

/-- **Matching decides the order** on the value types of two finalized type arrays. -/
theorem valueTypeMatches_decides (hf : FinalTypes c (H c))
    (hf' : FinalTypes c' (H c')) (hcanon : CanonSound H c c') (hfuel : (H c).length < fuel)
    (ha : WfValue c (H c) a) (hb : WfValue c' (H c') b) :
    Decides (valueTypeMatches H fuel a b) (ValueLe H a b) := by
  have numeric : ∀ {x y : ValueType}, x.isReference = false ∨ y.isReference = false →
      Decides (valueTypeMatches H fuel x y) (ValueLe H x y) := by
    intro x y hxy
    have hand : (x.isReference && y.isReference) = false := by
      rcases hxy with h | h <;> simp [h]
    have hor : (!x.isReference || !y.isReference) := by
      rcases hxy with h | h <;> simp [h]
    simp only [valueTypeMatches, hor, ↓reduceIte, ValueLe, hand, Bool.false_eq_true, valueTypeEqual]
    refine .guard (fun h => by tauto) fun h1 => ?_
    have hx : x.isReference = false := by
      rcases hxy with h | h
      · exact h
      · simp only [not_or, not_not] at h1
        rw [h1.2, h]
    simp only [hx]
    exact .true_ ⟨by rw [← hx]; tauto, by tauto⟩
  cases ha with
  | num => exact numeric (.inl rfl)
  | heap n k t i hk =>
    cases hb with
    | num => exact numeric (.inr rfl)
    | heap n' k' t' i' hk' =>
      refine (matches_heap_heap hk hk').congr ?_
      simp [ValueLe, HeapLe, ref]
    | index n' j e he =>
      refine (matches_heap_index hk).congr ?_
      have he' : H.get ⟨c', j⟩ = some e := he
      simp [ValueLe, HeapLe, ref, he']
  | index n i d hd =>
    cases hb with
    | num => exact numeric (.inr rfl)
    | heap n' k' t' i' hk' =>
      refine (matches_index_heap hk' hd).congr ?_
      have hd' : H.get ⟨c, i⟩ = some d := hd
      simp [ValueLe, HeapLe, ref, hd']
    | index n' j e he =>
      refine (matches_index_index hf hf' hcanon hfuel hd he).congr ?_
      simp [ValueLe, HeapLe, ref]

/-- Equality of value types is equality of their closed forms. -/
theorem valueTypeEqual_decides (hf : FinalTypes c (H c))
    (hf' : FinalTypes c' (H c')) (hcanon : CanonSound H c c') (hfuel : (H c).length < fuel)
    (ha : WfValue c (H c) a) (hb : WfValue c' (H c') b) :
    Decides (valueTypeEqual H fuel a b) (isoValueType H a = isoValueType H b) := by
  refine .guard ?_ fun h1 => ?_
  · rintro hne heq
    simp only [isoValueType, shape, Prod.mk.injEq, ValueShape.mk.injEq] at heq
    tauto
  simp only [not_or, not_not] at h1
  refine .accept ?_ fun hr => .guard ?_ fun h2 => ?_
  · intro hr
    cases ha with
    | num =>
      cases hb with
      | num => simp_all [isoValueType, shape, ref]
      | heap | index => simp at h1
    | heap | index => simp at hr
  · rintro hne heq
    simp only [isoValueType, shape, Prod.mk.injEq, ValueShape.mk.injEq] at heq
    tauto
  simp only [not_or, not_not] at h2
  have hs : a.shape = b.shape := by simp [shape, h1, h2]
  split
  · -- two type indices
    rename_i hk
    have hk' := h2.2 ▸ hk
    cases ha with
    | num => simp at hk
    | heap _ _ _ _ h => exact absurd hk (abstractCarrier_ne h)
    | index n i d hd =>
      cases hb with
      | num => simp at hk'
      | heap _ _ _ _ h => exact absurd hk' (abstractCarrier_ne h)
      | index n' j e he =>
        have hi : Live H ⟨c, i⟩ := .of_get hf hd
        refine (definedTypeEqual_decides fuel ⟨c, i⟩ ⟨c', j⟩ hcanon hi (.of_get hf' he)
          (hi.2.trans hfuel)).congr ?_
        simp [isoValueType, hs, ref]
  · rename_i hk
    have hk' : b.heapKind ≠ .typeIndex := h2.2 ▸ hk
    exact .true_ (by simp [isoValueType, hs, ref, hk, hk'])

/-! ## 4. The order laws -/

theorem ValueLe.refl (H : TypeHeap) (a : ValueType) : ValueLe H a a := by
  unfold ValueLe HeapLe
  split
  · refine ⟨id, ?_⟩
    cases a.ref with
    | none => exact .inl rfl
    | some p => exact .of_eq rfl
  · exact ⟨rfl, rfl⟩

/-- The record a well-formed value type refers to. -/
theorem WfValue.ref_live (hf : FinalTypes c (H c)) (ha : WfValue c (H c) a) {p : TypePtr}
    (hp : a.ref = some p) : Live H p := by
  obtain ⟨-, rfl, hlt⟩ := FinalTypes.ref_index ha hp
  exact ⟨hf, hlt⟩

/-- The record that a value type refers to, if it refers to one. -/
def RefLive (H : TypeHeap) (a : ValueType) : Prop := ∀ p, a.ref = some p → Live H p

theorem WfValue.refLive (hf : FinalTypes c (H c)) (ha : WfValue c (H c) a) : RefLive H a :=
  fun _ hp => ha.ref_live hf hp

theorem HeapLe.trans {d : ValueType} (ha : RefLive H a) (hb : RefLive H b) (hd : RefLive H d)
    (h : HeapLe H a b) (h' : HeapLe H b d) : HeapLe H a d := by
  unfold HeapLe at h h' ⊢
  have hal := fun {p} => ha p
  have hbl := fun {p} => hb p
  have hdl := fun {p} => hd p
  -- which of the three are type indices
  cases hra : a.ref <;> cases hrb : b.ref <;> cases hrd : d.ref <;>
    simp only [hra, hrb, hrd] at h h' ⊢
  · exact h.trans h'
  · obtain ⟨e, he, heq⟩ := h'
    rw [heq] at h
    exact ⟨e, he, h.eq_kindBelow⟩
  · obtain ⟨e, he, heq⟩ := h
    obtain ⟨e', he', hmem⟩ := h'
    rw [he] at he'
    cases he'
    rw [heq]
    exact kindBelow_le_kindAbove hmem
  · obtain ⟨e, he, heq⟩ := h
    obtain ⟨e', he'⟩ := (hdl hrd).get
    exact ⟨e', he', by rw [heq, h'.kind (hbl hrb) (hdl hrd) he he']⟩
  · obtain ⟨e, he, hmem⟩ := h
    exact ⟨e, he, h'.kindAbove hmem⟩
  · obtain ⟨e, he, hmem⟩ := h
    obtain ⟨e', he', heq⟩ := h'
    rw [heq] at hmem
    exact absurd hmem (kindBelow_notMem_kindAbove _ _)
  · obtain ⟨e', he', hmem⟩ := h'
    obtain ⟨e, he⟩ := (hal hra).get
    exact ⟨e, he, by rw [h.kind (hal hra) (hbl hrb) he he']; exact hmem⟩
  · exact h.trans (hal hra) (hbl hrb) h'

theorem ValueLe.trans {d : ValueType} (ha : RefLive H a) (hb : RefLive H b) (hd : RefLive H d)
    (h : ValueLe H a b) (h' : ValueLe H b d) : ValueLe H a d := by
  unfold ValueLe at h h' ⊢
  cases hra : a.isReference <;> cases hrb : b.isReference <;> cases hrd : d.isReference <;>
    simp [hra, hrb, hrd] at h h' ⊢
  · exact h.trans h'
  · exact ⟨fun hn => h'.1 (h.1 hn), h.2.trans ha hb hd h'.2⟩

theorem HeapLe.antisymm (hf : FinalTypes c (H c)) (ha : WfValue c (H c) a)
    (hb : WfValue c (H c) b) (h : HeapLe H a b) (h' : HeapLe H b a) :
    a.ref.map (isoTerm H) = b.ref.map (isoTerm H) ∧
      (a.ref = none → b.ref = none → a.heapKind = b.heapKind) := by
  unfold HeapLe at h h'
  cases hra : a.ref <;> cases hrb : b.ref <;> simp only [hra, hrb] at h h' ⊢
  · exact ⟨trivial, fun _ _ => h.antisymm h'⟩
  · obtain ⟨d, hd, heq⟩ := h
    obtain ⟨d', hd', hmem⟩ := h'
    rw [heq] at hmem
    exact absurd hmem (kindBelow_notMem_kindAbove _ _)
  · obtain ⟨d, hd, hmem⟩ := h
    obtain ⟨d', hd', heq⟩ := h'
    rw [heq] at hmem
    exact absurd hmem (kindBelow_notMem_kindAbove _ _)
  · refine ⟨?_, by simp⟩
    simp only [Option.map_some]
    rw [h.antisymm (ha.ref_live hf hra) (hb.ref_live hf hrb) h']

/-- **Matching in both directions is equality.** -/
theorem ValueLe.antisymm_iff (hf : FinalTypes c (H c)) (ha : WfValue c (H c) a)
    (hb : WfValue c (H c) b) :
    ValueLe H a b ∧ ValueLe H b a ↔ isoValueType H a = isoValueType H b := by
  constructor
  · rintro ⟨h, h'⟩
    have hanti := fun hl hl' => HeapLe.antisymm hf ha hb hl hl'
    unfold ValueLe at h h'
    cases ha with
    | num =>
      cases hb with
      | num => simp_all [isoValueType, shape, ref]
      | heap | index => simp at h
    | heap n k t i hk =>
      cases hb with
      | num => simp at h
      | heap n' k' t' i' hk' =>
        have hkk : k = k' := (hanti h.2 h'.2).2 (by simp [ref]) (by simp [ref])
        subst hkk
        have hn : n = n' := Bool.eq_iff_iff.mpr ⟨h.1, h'.1⟩
        simp_all [isoValueType, shape]
      | index n' j e he =>
        exact absurd (hanti h.2 h'.2).1 (by simp [ref])
    | index n i d hd =>
      cases hb with
      | num => simp at h
      | heap n' k' t' i' hk' =>
        exact absurd (hanti h.2 h'.2).1 (by simp [ref])
      | index n' j e he =>
        have hterm := (hanti h.2 h'.2).1
        have hn : n = n' := Bool.eq_iff_iff.mpr ⟨h.1, h'.1⟩
        have hkind : d.kind = e.kind := by
          refine isoTerm_kind (.of_get hf hd) (.of_get hf he) hd he ?_
          simpa [ref] using hterm
        unfold isoValueType
        rw [hterm]
        simp [shape, hn, hkind]
  · intro heq
    simp only [isoValueType, shape, Prod.mk.injEq, ValueShape.mk.injEq] at heq
    obtain ⟨⟨hc, hr, hn, hk⟩, href⟩ := heq
    have half : ∀ {x y : ValueType}, x.carrier = y.carrier → x.isReference = y.isReference →
        x.nullable = y.nullable → x.heapKind = y.heapKind →
        x.ref.map (isoTerm H) = y.ref.map (isoTerm H) → ValueLe H x y := by
      intro x y hc hr hn hk href
      unfold ValueLe HeapLe
      split
      · refine ⟨fun h => hn ▸ h, ?_⟩
        cases hx : x.ref <;> cases hy : y.ref <;> simp [hx, hy] at href
        · exact .inl hk
        · exact .of_eq href
      · exact ⟨hr, hc⟩
    exact ⟨half hc hr hn hk href, half hc.symm hr.symm hn.symm hk.symm href.symm⟩

end Values

end TurboWasm
