/-
# The interpreter reads what the validator read

An instruction that the validator accepted is read to the same place by the interpreter
(`immediates_of_validated`), with the same block signature (`execReadBlockSignature_of`, and
`execReadBlockSignature_iff` for what the interpreter would accept beyond it) and the same
handlers (`readTryTable_of`), and the labels it names have a frame (`labelsOf_valid`).

`Ends k x` says of a computation `x` of the validator that, whenever it answers, the interpreter's
`k` answers the same reader; the rules follow the two `do` blocks, a step that both make (`Ends.both`)
and one that only the validator makes (`Ends.skip`).
-/
import TurboWasm.Exec.Immediates
import TurboWasm.Validate.Items

namespace TurboWasm

open List ValueType ValidationContext

/-! ## 1. The rules -/

/-- Whenever `x` answers, the reader it leaves is the one `k` answers. -/
def Ends {α : Type} (k : Result Reader) (x : Result (α × Reader)) : Prop :=
  ∀ a s, x = .ok (a, s) → k = .ok s

namespace Ends

variable {α β : Type} {x : Result β}

theorem pure (a : α) (s : Reader) : Ends (.ok s) (Pure.pure (a, s)) := by
  intro b t h
  cases h
  rfl

/-- A step that only the validator makes, with what it answers. -/
theorem check (h : ∀ b, x = .ok b → Ends k (f b)) : Ends k (x >>= f) := by
  intro a s hs
  obtain ⟨b, hx, hb⟩ := bind_eq_ok.mp hs
  exact h b hx a s hb

theorem skip (h : ∀ b, Ends k (f b)) : Ends k (x >>= f) :=
  check fun b _ => h b

/-- Checks at the end, with no read among them. -/
theorem checks1 {a : β → α} : Ends (.ok s) (x >>= fun b => Pure.pure (a b, s)) :=
  skip fun _ => pure _ _

theorem checks2 {γ : Type} {y : β → Result γ} {a : β → γ → α} :
    Ends (.ok s) (x >>= fun b => y b >>= fun c => Pure.pure (a b c, s)) :=
  skip fun _ => checks1

theorem checks3 {γ δ : Type} {y : β → Result γ} {z : β → γ → Result δ} {a : β → γ → δ → α} :
    Ends (.ok s) (x >>= fun b => y b >>= fun c => z b c >>= fun d => Pure.pure (a b c d, s)) :=
  skip fun _ => checks2

theorem checks4 {γ δ ε : Type} {y : β → Result γ} {z : β → γ → Result δ}
    {t : β → γ → δ → Result ε} {a : β → γ → δ → ε → α} :
    Ends (.ok s) (x >>= fun b => y b >>= fun c => z b c >>= fun d =>
      t b c d >>= fun e => Pure.pure (a b c d e, s)) :=
  skip fun _ => checks3

/-- A step that both make. -/
theorem both
    {g : β → Result Reader} (h : ∀ b, Ends (g b) (f b)) : Ends (x >>= g) (x >>= f) := by
  intro a s hs
  obtain ⟨b, hx, hb⟩ := bind_eq_ok.mp hs
  rw [hx]
  exact h b a s hb

/-- A read that the validator makes in a function of its own. -/
theorem sub {x : Result (β × Reader)} {f : β × Reader → Result (α × Reader)}
    {y : Result Reader} {g : Reader → Result Reader} (hx : Ends y x)
    (h : ∀ b s, Ends (g s) (f (b, s))) : Ends (y >>= g) (x >>= f) := by
  intro a s hs
  obtain ⟨⟨b, t⟩, ht, hb⟩ := bind_eq_ok.mp hs
  rw [hx b t ht]
  exact h b t a s hb

/-- The last read of the interpreter, made by the validator in a function of its own. -/
theorem last {x : Result (β × Reader)} {f : β × Reader → Result (α × Reader)}
    (hx : Ends k x) (h : ∀ b s, Ends (.ok s) (f (b, s))) : Ends k (x >>= f) := by
  intro a s hs
  obtain ⟨⟨b, t⟩, ht, hb⟩ := bind_eq_ok.mp hs
  rw [hx b t ht]
  exact h b t a s hb

theorem ite {c : Prop} [Decidable c] {x y : Result (α × Reader)} (hx : c → Ends k x)
    (hy : ¬ c → Ends k y) : Ends k (if c then x else y) := by
  split
  · exact hx ‹c›
  · exact hy ‹¬ c›

theorem number {r : Reader} : Ends (skipUleb32 r) (orMalformed r.uleb32) := by
  intro a s h
  rw [skipUleb32, h]
  rfl

theorem uleb32 {r : Reader} {f : Nat × Reader → Result (α × Reader)}
    (h : ∀ n s, Ends (.ok s) (f (n, s))) :
    Ends (skipUleb32 r) (orMalformed r.uleb32 >>= f) :=
  both fun p => h p.1 p.2

end Ends

/-! ## 2. Instructions -/

section Agreement

variable {ctx : ValidationContext}
  {s : TypeStack} {r r' : Reader} {signature : BlockSignature} {index : Nat} {type : FuncType}

/-- The two lists of value types are the same: `0x6e` is in the range that both test next. -/
theorem execValtype_or (first : UInt8) :
    (execValtype first ∨ (0x6a ≤ first ∧ first ≤ 0x74) ∨ first = 0x63 ∨ first = 0x64) ↔
      (instrValtype first ∨ (0x6a ≤ first ∧ first ≤ 0x74) ∨ first = 0x63 ∨ first = 0x64) := by
  by_cases h : first = 0x6e
  · subst h
    decide
  · simp [execValtype, instrValtype, h]

/-- **The interpreter reads the signature that the validator read.** -/
theorem execReadBlockSignature_of (h : readBlockSignature ctx r = .ok (signature, r')) :
    execReadBlockSignature ctx.typeCtx r = .ok (⟨signature.startTypes.map carrier,
        signature.endTypes.map carrier⟩, r') := by
  unfold execReadBlockSignature
  obtain ⟨first, hfirst, h⟩ := bind_eq_ok.mp h
  rw [hfirst, ok_bind]
  rcases ite_cases h with ⟨h40, h⟩ | ⟨h40, h⟩
  · rw [if_pos h40]
    obtain ⟨⟨b, s⟩, hb, h⟩ := bind_eq_ok.mp h
    rw [hb]
    cases h
    rfl
  rw [if_neg h40]
  rcases ite_cases h with ⟨hval, h⟩ | ⟨hval, h⟩
  · rw [if_pos ((execValtype_or first).mpr hval)]
    obtain ⟨⟨type, s⟩, htype, h⟩ := bind_eq_ok.mp h
    obtain ⟨u, hu, h⟩ := bind_eq_ok.mp h
    have hu' : failIf (type.heapKind = .typeIndex &&
        ctx.typeCtx.types.length ≤ type.typeIndex) .malformedModule = .ok u := hu
    cases h
    simp only [htype, ok_bind, hu']
    rfl
  rw [if_neg fun hh => hval ((execValtype_or first).mp hh)]
  obtain ⟨⟨b, s⟩, hb, h⟩ := bind_eq_ok.mp h
  obtain ⟨⟨index, t⟩, hindex, h⟩ := bind_eq_ok.mp h
  obtain ⟨type, htype, h⟩ := bind_eq_ok.mp h
  simp only [functionTypeAt, bind_eq_ok, orFail_eq_ok, failIf_eq_ok] at htype
  obtain ⟨type', htype', u, hdefined, hpure⟩ := htype
  cases hpure
  have hlookup : orMalformed ctx.typeCtx.types[index]? = .ok type := by
    rwa [orFail_eq_ok]
  have hnot : (!type.defined) = false := (Bool.or_eq_false_iff.mp hdefined).1
  cases h
  simp only [hb, ok_bind, hindex, hlookup, failIf_neg hnot]
  rfl

/-- The block names a type by its index: it is neither empty nor does it start a value type. -/
def BlockNames (r : Reader) (index : Nat) (r' : Reader) : Prop :=
  ∃ first s, r.u8 = some (first, s) ∧ first ≠ 0x40 ∧
    ¬ (instrValtype first ∨ (0x6a ≤ first ∧ first ≤ 0x74) ∨ first = 0x63 ∨ first = 0x64) ∧
    readBlockIndex 4 (first &&& 0x7f).toNat 7 first s = some (index, r')

/-- The interpreter's decoder asks the type at an index only to be defined. -/
theorem execReadBlockSignature_names
    (h : BlockNames r index r') (htype : ctx.types[index]? = some type)
    (hdefined : type.defined) : execReadBlockSignature ctx.typeCtx r =
      .ok (⟨type.params.map carrier, type.results.map carrier⟩, r') := by
  obtain ⟨first, s, hu, h40, hval, hindex⟩ := h
  have hlookup : ctx.typeCtx.types[index]? = some type := htype
  rw [execReadBlockSignature, Reader.u8_peek hu]
  simp only [orFail, ok_bind, if_neg h40, if_neg fun hh => hval ((execValtype_or first).mp hh), hu,
    hindex, hlookup, hdefined]
  rfl

/-- The validator's decoder also asks it to be a function type. -/
theorem readBlockSignature_names (h : BlockNames r index r') (htype : ctx.types[index]? = some type)
    (hkind : type.kind ≠ .function) : readBlockSignature ctx r = .error .malformedModule := by
  obtain ⟨first, s, hu, h40, hval, hindex⟩ := h
  rw [readBlockSignature, Reader.u8_peek hu]
  simp only [orFail, ok_bind, if_neg h40, if_neg hval, hu, hindex, functionTypeAt, htype,
    failIf_pos (by simp [hkind] : (!type.defined || type.kind != .function))]
  rfl

/-- **The two decoders of block signatures**: the interpreter's accepts what the validator's does,
with the same bytes and the same types, and beyond that only the index of a defined type that is
no function type. -/
theorem execReadBlockSignature_iff (ctx : ValidationContext) (r r' : Reader)
    (signature : ExecSignature) : execReadBlockSignature ctx.typeCtx r = .ok (signature, r') ↔
      (∃ validated, readBlockSignature ctx r = .ok (validated, r') ∧
        signature = ⟨validated.startTypes.map carrier, validated.endTypes.map carrier⟩) ∨
      (∃ index type, BlockNames r index r' ∧ ctx.types[index]? = some type ∧
        type.defined ∧ type.kind ≠ .function ∧ readBlockSignature ctx r = .error .malformedModule ∧
        signature = ⟨type.params.map carrier, type.results.map carrier⟩) := by
  constructor
  · intro h
    obtain ⟨first, hfirst, h⟩ := bind_eq_ok.mp h
    rcases ite_cases h with ⟨h40, h⟩ | ⟨h40, h⟩
    · obtain ⟨⟨b, s⟩, hb, h⟩ := bind_eq_ok.mp h
      cases h
      refine .inl ⟨⟨[], [], uint32Max, .unset⟩, ?_, rfl⟩
      rw [readBlockSignature, hfirst, ok_bind, if_pos h40, hb]
      rfl
    rcases ite_cases h with ⟨hval, h⟩ | ⟨hval, h⟩
    · obtain ⟨⟨type, s⟩, htype, h⟩ := bind_eq_ok.mp h
      obtain ⟨u, hu, h⟩ := bind_eq_ok.mp h
      have hu' : failIf (type.heapKind = .typeIndex && ctx.types.length ≤ type.typeIndex)
        .malformedModule = .ok u := hu
      cases h
      refine .inl ⟨⟨[], [type], uint32Max, type⟩, ?_, rfl⟩
      rw [readBlockSignature, hfirst, ok_bind, if_neg h40, if_pos ((execValtype_or first).mp hval)]
      simp only [htype, ok_bind, hu']
      rfl
    obtain ⟨⟨b, s⟩, hb, h⟩ := bind_eq_ok.mp h
    obtain ⟨⟨index, t⟩, hindex, h⟩ := bind_eq_ok.mp h
    obtain ⟨type, htype, h⟩ := bind_eq_ok.mp h
    obtain ⟨u, hdefined, h⟩ := bind_eq_ok.mp h
    cases h
    rw [orFail_eq_ok] at hfirst hb hindex htype
    rw [failIf_eq_ok, Bool.not_eq_false'] at hdefined
    obtain rfl : first = b := Option.some.inj (hfirst.symm.trans (Reader.u8_peek hb))
    have hnot := fun hh => hval ((execValtype_or first).mpr hh)
    by_cases hkind : type.kind = .function
    · refine .inl ⟨⟨type.params, type.results, index, .unset⟩, ?_, rfl⟩
      have hlookup : ctx.types[index]? = some type := htype
      rw [readBlockSignature, hfirst]
      simp only [orFail, ok_bind, if_neg h40, if_neg hnot, hb, hindex, functionTypeAt, hlookup,
        hdefined, hkind]
      rfl
    · have hnames : BlockNames r index r' := ⟨first, s, hb, h40, hnot, hindex⟩
      exact .inr ⟨index, type, hnames, htype, hdefined, hkind,
        readBlockSignature_names hnames htype hkind, rfl⟩
  · rintro (⟨validated, h, rfl⟩ | ⟨index, type, hnames, htype, hdefined, -, -, rfl⟩)
    · exact execReadBlockSignature_of h
    · exact execReadBlockSignature_names hnames htype hdefined

/-- A context whose only type is a structure, and the block that names it. -/
theorem blockSignatures_differ : ¬ ∀ (ctx : ValidationContext) (r : Reader),
    (∃ x, readBlockSignature ctx r = .ok x) ↔
      ∃ x, execReadBlockSignature ctx.typeCtx r = .ok x := by
  intro h
  have hexec : ∃ x, execReadBlockSignature (typeCtx
      { zero 0 with
        types := [{ FuncType.zero with
          defined := true
          kind := .struct }] }) ⟨0, [0x00]⟩ = .ok x := ⟨_, rfl⟩
  obtain ⟨x, hx⟩ := (h _ _).mpr hexec
  cases hx

theorem structured_ends : Ends (do
      let (_, r) ← execReadBlockSignature ctx.typeCtx r
      return r) (readBlockSignature ctx r) := by
  intro signature s h
  rw [execReadBlockSignature_of h]
  rfl

/-- The handlers that the validator keeps are those in the code, and their labels have a frame. -/
theorem readHandlers_of : ∀ {n : Nat} {r r' : Reader} {catches : List Catch},
    readCatches H ctx c n r = .ok (catches, r') → readHandlers n r = .ok (catches, r') ∧
      ∀ clause ∈ catches, clause.labelDepth < c.frames.length
  | 0, r, r', catches, h => by
    cases h
    exact ⟨rfl, fun _ hc => by cases hc⟩
  | n + 1, r, r', catches, h => by
    simp only [readCatches, bind_eq_ok, orFail_eq_ok] at h
    obtain ⟨⟨byte, r₁⟩, hbyte, kind, hkind, ⟨tag, r₂⟩, htag, ⟨depth, r₃⟩, hdepth, target, htarget,
      u, -, ⟨rest, r₄⟩, hrest, hpure⟩ := h
    cases hpure
    obtain ⟨hread, hlabels⟩ := readHandlers_of hrest
    refine ⟨?_, ?_⟩
    · simp only [readHandlers, hbyte, hkind, orFail, ok_bind, htag, hdepth, hread]
      rfl
    · intro clause hclause
      rcases mem_cons.mp hclause with rfl | hmem
      · exact lt_of_getElem? htarget
      · exact hlabels clause hmem

/-- **The interpreter reads a `try_table` as the validator did.** -/
theorem readTryTable_of (hsig : readBlockSignature ctx r = .ok (signature, r₁))
    (hcatches : readTryCatches H ctx c r₁ = .ok (catches, r')) :
    readTryTable ctx.typeCtx r = .ok ((⟨signature.startTypes.map carrier,
        signature.endTypes.map carrier⟩, catches), r') ∧
      ∀ clause ∈ catches, clause.labelDepth < c.frames.length := by
  obtain ⟨⟨count, r₂⟩, hcount, h⟩ := bind_eq_ok.mp hcatches
  obtain ⟨hread, hlabels⟩ := readHandlers_of h
  refine ⟨?_, hlabels⟩
  simp only [readTryTable, execReadBlockSignature_of hsig, ok_bind, hcount, hread]
  rfl

theorem memarg_ends (maximumAlignment : Nat) :
    Ends (execReadIndexedMemarg ctx.codeCtx r) (validateIndexedMemarg ctx maximumAlignment r) :=
  .both fun _ => .both fun _ => .both fun _ => .both fun _ => .both fun _ => .checks1

theorem load_ends (resultType : UInt8) (alignment : Nat) :
    Ends (execReadIndexedMemarg ctx.codeCtx r) (validateLoad H ctx resultType alignment s r) :=
  .last (memarg_ends alignment) fun _ _ => .checks1

theorem store_ends (valueType : UInt8) (alignment : Nat) :
    Ends (execReadIndexedMemarg ctx.codeCtx r) (validateStore H ctx valueType alignment s r) :=
  .last (memarg_ends alignment) fun _ _ => .checks1

theorem readMemory_ends : Ends (skipUleb32 r) (readMemory ctx r) :=
  .uleb32 fun _ _ => .checks1

theorem readTable_ends : Ends (skipUleb32 r) (readTable ctx r) :=
  .uleb32 fun _ _ => .checks1

theorem readDataIndex_ends : Ends (skipUleb32 r) (readDataIndex ctx r) :=
  .uleb32 fun _ _ => .checks1

theorem readElement_ends : Ends (skipUleb32 r) (readElement ctx r) :=
  .uleb32 fun _ _ => .checks1

theorem fc_ends : Ends (fcImmediates r) (validateFc H ctx s r) := by
  refine .both fun p => .ite (fun h => ?_) fun h7 => ?_
  · dsimp only
    rw [if_pos h]
    exact .checks1
  dsimp only
  rw [if_neg h7]
  have hone : ∀ n, n = p.1 → n ∉ [8, 10, 12, 14] → n ≤ 17 →
      (if p.1 ∈ [8, 10, 12, 14] then do
        let r ← skipUleb32 p.2
        skipUleb32 r
      else if p.1 ≤ 17 then skipUleb32 p.2 else .error .unsupported) = skipUleb32 p.2 := by
    rintro n rfl hn hle
    rw [if_neg hn, if_pos hle]
  refine .ite (fun h => ?_) fun h8 => .ite (fun h => ?_) fun h9 => .ite (fun h => ?_) fun h10 =>
    .ite (fun h => ?_) fun h11 => .ite (fun h => ?_) fun h12 => .ite (fun h => ?_) fun h13 =>
    .ite (fun h => ?_) fun h14 => .ite (fun h => ?_) fun h15 => .ite (fun h => ?_) fun h16 =>
    .ite (fun h => ?_) fun h17 => ?_
  · rw [if_pos (by simp [h])]
    exact .sub readDataIndex_ends fun _ _ => .last readMemory_ends fun _ _ =>
      .checks1
  · rw [hone 9 h.symm (by decide) (by decide)]
    exact .last readDataIndex_ends fun _ _ => .pure _ _
  · rw [if_pos (by simp [h])]
    exact .sub readMemory_ends fun _ _ => .last readMemory_ends fun _ _ =>
      .checks1
  · rw [hone 11 h.symm (by decide) (by decide)]
    exact .last readMemory_ends fun _ _ => .checks1
  · rw [if_pos (by simp [h])]
    exact .sub readElement_ends fun _ _ => .last readTable_ends fun _ _ =>
      .checks2
  · rw [hone 13 h.symm (by decide) (by decide)]
    exact .last readElement_ends fun _ _ => .pure _ _
  · rw [if_pos (by simp [h])]
    exact .sub readTable_ends fun _ _ => .last readTable_ends fun _ _ =>
      .checks2
  · rw [hone 15 h.symm (by decide) (by decide)]
    exact .last readTable_ends fun _ _ => .checks3
  · rw [hone 16 h.symm (by decide) (by decide)]
    exact .last readTable_ends fun _ _ => .checks1
  · rw [hone 17 h.symm (by decide) (by decide)]
    exact .last readTable_ends fun _ _ => .checks3
  · intro a s h
    cases h

theorem lane_ends {α : Type} {f : UInt8 × Reader → Result (α × Reader)}
    (h : ∀ b s, Ends (.ok s) (f (b, s))) : Ends (do
      let (_, r) ← readLane n r
      return r) (readLane n r >>= f) :=
  .both fun p => h p.1 p.2

/-- What a descriptor of the validator reads. -/
def SimdForm.immediate : SimdForm → Option SimdImmediate
  | .constV128 => some .constant
  | .shuffle => some .shuffle
  | .laneExtract _ laneCount => some (.lane laneCount)
  | .laneReplace _ laneCount => some (.lane laneCount)
  | .memoryLoad _ => some .memory
  | .memoryStore _ => some .memory
  | .memoryLoadLane _ laneCount => some (.memoryLane laneCount)
  | .memoryStoreLane _ laneCount => some (.memoryLane laneCount)
  | _ => none

/-- **The tables of the validator and the interpreter agree** on what a vector instruction reads. -/
theorem simdImmediate_of {form : SimdForm}
    (h : simdDescriptorFind subopcode = some form) : simdImmediate subopcode = form.immediate := by
  -- row by row of the validator's table
  have htable : ∀ d ∈ simdDescriptors, ∀ n ∈ List.range' d.1 (d.2.1 + 1 - d.1),
      simdImmediate n = d.2.2.immediate := by
    decide +kernel
  obtain ⟨d, hd, rfl⟩ := Option.map_eq_some_iff.mp h
  have hrange := find?_some hd
  rw [Bool.and_eq_true, decide_eq_true_eq, decide_eq_true_eq] at hrange
  refine htable d (mem_of_find?_eq_some hd) subopcode ?_
  rw [mem_range'_1]
  omega

theorem simd_ends : Ends (simdImmediates ctx.codeCtx r) (validateSimd H ctx s r) := by
  refine .both fun p => .check fun form hform => ?_
  dsimp only
  rw [simdImmediate_of (orFail_eq_ok.mp hform)]
  cases form with
  | constV128 | shuffle => exact .both fun _ => .checks1
  | v128Unary | v128Binary | v128TestI32 | scalarSplat scalarType => exact .checks1
  | v128Ternary | v128Shift => exact .checks2
  | laneExtract scalarType n => exact lane_ends fun _ _ => .checks1
  | laneReplace scalarType n => exact lane_ends fun _ _ => .checks2
  | memoryLoad alignment => exact load_ends _ alignment
  | memoryStore alignment => exact store_ends _ alignment
  | memoryLoadLane alignment n =>
    exact .sub (memarg_ends alignment) fun _ _ =>
      lane_ends fun _ _ => .checks2
  | memoryStoreLane alignment n =>
    exact .sub (memarg_ends alignment) fun _ _ => lane_ends fun _ _ => .checks1

theorem atomicAccess_ends (alignment : Nat) (operands results : List UInt8) :
    Ends (execAtomicMemarg ctx.codeCtx alignment r)
      (validateAtomicAccess H ctx alignment operands results s r) :=
  .last (.both fun _ => .both fun _ => memarg_ends alignment) fun _ _ =>
    .checks2

theorem atomic_ends : Ends (atomicImmediates ctx.codeCtx r) (validateAtomic H ctx s r) := by
  refine .both fun p => .ite (fun h => ?_) fun h0 => .ite (fun h => ?_) fun h1 =>
    .ite (fun h => ?_) fun h2 => .ite (fun h => ?_) fun h3 => ?_
  · dsimp only
    rw [if_pos h]
    exact atomicAccess_ends 2 _ _
  · dsimp only
    rw [if_neg h0, if_pos h]
    exact atomicAccess_ends 2 _ _
  · dsimp only
    rw [if_neg h0, if_neg h1, if_pos h]
    exact atomicAccess_ends 3 _ _
  · dsimp only
    rw [if_neg h0, if_neg h1, if_neg h2, if_pos h]
    exact .both fun _ => .both fun _ => .pure _ _
  · dsimp only
    rw [if_neg h0, if_neg h1, if_neg h2, if_neg h3]
    refine .both fun d => ?_
    cases d.kind with
    | load | store | rmw | cmpxchg => exact atomicAccess_ends _ _ _

theorem gcType_ends {α : Type} {f : (FuncType × ValueType) × Reader → Result (α × Reader)}
    (hf : ∀ p s, Ends (gcFieldImmediates p.1 op s) (f (p, s))) :
    Ends (gcTypeImmediates ctx.typeCtx op r) (readGcType ctx op r >>= f) := by
  intro a t h
  obtain ⟨⟨⟨type, reference⟩, s⟩, hread, h⟩ := bind_eq_ok.mp h
  simp only [readGcType, bind_eq_ok, orFail_eq_ok] at hread
  obtain ⟨⟨index, s'⟩, hindex, type', htype, u, -, hpure⟩ := hread
  cases hpure
  have htype' : ctx.typeCtx.types[index]? = some type := htype
  simp only [gcTypeImmediates, hindex, orFail, ok_bind, htype']
  exact hf _ _ a t h

theorem structField_ends {α : Type} {f : Field × Reader →
    Result (α × Reader)} (hop : 2 ≤ op ∧ op ≤ 5) (hf : ∀ field s, Ends (.ok s) (f
    (field, s))) : Ends (gcFieldImmediates type op r) (readGcField type op r >>= f) := by
  intro a t h
  obtain ⟨⟨field, s⟩, hread, h⟩ := bind_eq_ok.mp h
  rw [readGcField, if_pos hop.2] at hread
  simp only [bind_eq_ok, orFail_eq_ok] at hread
  obtain ⟨⟨extra, s'⟩, hextra, field', hfield, hpure⟩ := hread
  cases hpure
  simp only [gcFieldImmediates, if_pos hop, hextra, orFail, ok_bind, hfield]
  exact hf _ _ a t h

theorem arrayField_ends {α : Type} {f : Field × Reader → Result (α × Reader)} (hop : 5 < op)
    (hf : ∀ field, Ends k (f (field, r))) : Ends k (readGcField type op r >>= f) := by
  intro a t h
  obtain ⟨⟨field, s⟩, hread, h⟩ := bind_eq_ok.mp h
  rw [readGcField, if_neg (not_le.mpr hop)] at hread
  obtain ⟨field', -, hpure⟩ := bind_eq_ok.mp hread
  cases hpure
  exact hf _ a t h

theorem gcField_none (h : ¬ (2 ≤ op ∧ op ≤ 5))
    (h' : op ∉ [8, 9, 10, 17, 18, 19]) : gcFieldImmediates type op r = .ok r := by
  rw [gcFieldImmediates, if_neg h, if_neg h']

theorem gcField_number (h : op ∈ [8, 9, 10, 17, 18, 19]) :
    gcFieldImmediates type op r = skipUleb32 r := by
  have hop : ¬ (2 ≤ op ∧ op ≤ 5) := by
    simp only [mem_cons, not_mem_nil, or_false] at h
    omega
  rw [gcFieldImmediates, if_neg hop, if_pos h]

theorem gcGet_ends (hop : (2 ≤ op ∧ op ≤ 5) ∨ (11 ≤ op ∧ op ≤ 13)) :
    Ends (gcTypeImmediates ctx.typeCtx op r) (validateGcGet H ctx op s r) := by
  refine gcType_ends fun p t => ?_
  rcases hop with hop | hop
  · exact structField_ends hop fun _ _ =>
      .checks4
  · rw [gcField_none (by omega) (by simp; omega)]
    exact arrayField_ends (by omega) fun _ =>
      .checks4

theorem gcSet_ends (hop : op = 5 ∨ op = 14 ∨ op = 16) :
    Ends (gcTypeImmediates ctx.typeCtx op r) (validateGcSet H ctx op s r) := by
  refine gcType_ends fun p t => ?_
  rcases hop with rfl | hop
  · exact structField_ends (by decide) fun _ _ => .skip fun _ => .checks4
  · rw [gcField_none (by omega) (by simp; omega)]
    exact arrayField_ends (by omega) fun _ => .skip fun _ => .checks4

theorem gcSegment_ends (hop : op = 9 ∨ op = 10 ∨ op = 18 ∨ op = 19) :
    Ends (gcTypeImmediates ctx.typeCtx op r) (validateGcSegment H ctx op s r) := by
  refine gcType_ends fun p t => ?_
  rw [gcField_number (by simp; omega)]
  refine arrayField_ends (by omega) fun _ => .uleb32 fun _ _ => .skip fun _ => .skip fun _ =>
    .ite (fun _ => ?_) fun _ => ?_
  · exact .checks3
  · exact .checks1

/-- The instructions on objects that name a type. -/
theorem gcType_op_ends (hop : op ≤ 19 ∧ op ≠ 15) :
    Ends (gcTypeImmediates ctx.typeCtx op r) (validateGcOp H ctx c op s r) := by
  refine .ite (fun h1 => ?_) fun h1 => .ite (fun h4 => ?_) fun h4 => .ite (fun h5 => ?_) fun h5 =>
    .ite (fun h7 => ?_) fun h7 => .ite (fun h8 => ?_) fun h8 => .ite (fun h10 => ?_) fun h10 =>
    .ite (fun h13 => ?_) fun h13 => .ite (fun h14 => ?_) fun h14 => .ite (fun h15 => ?_) fun h15 =>
    .ite (fun h16 => ?_) fun h16 => .ite (fun h17 => ?_) fun h17 => .ite (fun h19 => ?_) fun h19 => ?_
  · refine gcType_ends fun p t => ?_
    rw [gcField_none (by omega) (by simp; omega)]
    exact .checks3
  · exact gcGet_ends (by omega)
  · exact gcSet_ends (by omega)
  · refine gcType_ends fun p t => ?_
    rw [gcField_none (by omega) (by simp; omega)]
    exact arrayField_ends (by omega) fun _ =>
      .checks4
  · subst h8
    refine gcType_ends fun p t => ?_
    rw [gcField_number (by decide)]
    exact arrayField_ends (by decide) fun _ =>
      .uleb32 fun _ _ => .checks3
  · exact gcSegment_ends (by omega)
  · exact gcGet_ends (by omega)
  · exact gcSet_ends (by omega)
  · omega
  · exact gcSet_ends (by omega)
  · subst h17
    refine gcType_ends fun p t => ?_
    rw [gcField_number (by decide)]
    exact arrayField_ends (by decide) fun _ => .uleb32 fun _ _ => .skip fun _ => .skip fun _ =>
      .skip fun _ => .skip fun _ => .checks4
  · exact gcSegment_ends (by omega)
  · omega

theorem validateGcOp_cast (h : 20 ≤ op ∧ op ≤ 23) :
    validateGcOp H ctx c op s r = validateRefCast H ctx op s r := by
  simp (disch := omega) only [validateGcOp, if_neg, if_pos]

theorem validateGcOp_branch (h : 24 ≤ op ∧ op ≤ 25) :
    validateGcOp H ctx c op s r = validateBranchOnCast H ctx c op s r := by
  simp (disch := omega) only [validateGcOp, if_neg, if_pos]

theorem branchOnCast_of (hop : 24 ≤ op ∧ op ≤ 25)
    (h : validateBranchOnCast H ctx c op s r = .ok (s', r')) :
    ∃ label, gcOpImmediates ctx.typeCtx op r = .ok (some label, r') ∧ label < c.frames.length := by
  simp only [validateBranchOnCast, bind_eq_ok, orFail_eq_ok] at h
  obtain ⟨⟨flags, r₁⟩, hflags, u, hle, ⟨depth, r₂⟩, hdepth, ⟨t₁, r₃⟩, ht₁, ⟨t₂, r₄⟩, ht₂, v, -,
    target, htarget, w, -, s₁, -, s₂, -, s₃, -, s₄, -, hpure⟩ := h
  cases hpure
  refine ⟨depth, ?_, (lt_of_getElem? htarget)⟩
  rw [gcOpImmediates, if_neg (by omega), if_neg (by omega), if_pos hop]
  simp only [hflags, orFail, ok_bind, hle, hdepth, ht₁, ht₂]
  rfl

/-- **The interpreter reads an instruction on objects as the validator did**, and the label of a
branch on a cast has a frame. -/
theorem gc_of (h : validateGc H ctx c s r = .ok (s', r')) :
    ∃ label, gcImmediates ctx.typeCtx r = .ok (label, r') ∧
      ∀ l, label = some l → l < c.frames.length := by
  simp only [validateGc, bind_eq_ok, orFail_eq_ok] at h
  obtain ⟨⟨op, r₁⟩, hop, u, hle, h⟩ := h
  simp only [gcImmediates, hop, orFail, ok_bind, hle]
  have hop30 : op ≤ 30 := by simpa using hle
  by_cases htype : op ≤ 19 ∧ op ≠ 15
  · refine ⟨none, ?_, fun l hl => by cases hl⟩
    rw [gcOpImmediates, if_pos htype, gcType_op_ends htype s' r' h]
    rfl
  by_cases hcast : 20 ≤ op ∧ op ≤ 23
  · rw [validateGcOp_cast hcast] at h
    simp only [validateRefCast, bind_eq_ok] at h
    obtain ⟨⟨t, r₂⟩, ht, s₁, -, s₂, -, hpure⟩ := h
    cases hpure
    refine ⟨none, ?_, fun l hl => by cases hl⟩
    rw [gcOpImmediates, if_neg htype, if_pos hcast, ht]
    rfl
  by_cases hbranch : 24 ≤ op ∧ op ≤ 25
  · rw [validateGcOp_branch hbranch] at h
    obtain ⟨label, himm, hlabel⟩ := branchOnCast_of hbranch h
    exact ⟨some label, himm, fun l hl => by cases hl; exact hlabel⟩
  -- `array.len`, the conversions and the `i31` instructions have no immediates
  refine ⟨none, ?_, fun l hl => by cases hl⟩
  rw [gcOpImmediates, if_neg htype, if_neg hcast, if_neg hbranch]
  have hends : Ends (.ok r₁) (validateGcOp H ctx c op s r₁) := by
    have hcases : op = 15 ∨ op = 26 ∨ op = 27 ∨ op = 28 ∨ op = 29 ∨ op = 30 := by omega
    rcases hcases with rfl | rfl | rfl | rfl | rfl | rfl
    · exact .checks2
    · exact .checks1
    · exact .checks1
    · exact .checks2
    · exact .checks2
    · exact .checks2
  have hr := hends s' r' h
  cases hr
  rfl

theorem brTable_ends : Ends (do
      let (_, r) ← readBrTable r
      return r) (validateBrTable H ctx c s r) := by
  intro a t h
  simp only [validateBrTable, bind_eq_ok, orFail_eq_ok] at h
  obtain ⟨⟨count, r₁⟩, hcount, ⟨depths, r₂⟩, hdepths, ⟨default, r₃⟩, hdefault, target, -, s₁, -, s₂,
    -, s₃, -, hpure⟩ := h
  cases hpure
  simp only [readBrTable, hcount, orFail, ok_bind, hdepths, hdefault]
  rfl

/-- **The interpreter reads an instruction to where the validator did.** -/
theorem plain_ends (op : Opcode) :
    Ends (immediates ctx.codeCtx r op) (validatePlain H ctx env c s r op) := by
  have herror : ∀ k, Ends k (.error .malformedModule : Checked) := by
    intro k a t h
    cases h
  cases op with
  | structured kind | tryTable | elseOp | endOp | localSet | localTee | unknown => exact herror _
  | unreachable | nop => exact .pure _ _
  | throwTag =>
    exact .uleb32 fun _ _ => .checks4
  | throwRef | returnOp | drop | select | unary input output | binary input output => exact .checks1
  | br => exact .uleb32 fun _ _ => .checks1
  | brIf | globalGet => exact .uleb32 fun _ _ => .checks2
  | brTable => exact brTable_ends
  | call | returnCall | localGet | globalSet | refFunc => exact .uleb32 fun _ _ => .checks3
  | callIndirect | returnCallIndirect =>
    exact .sub .number fun _ _ => .uleb32 fun _ _ => .skip fun _ => .checks4
  | callRef | returnCallRef =>
    exact .uleb32 fun _ _ => .skip fun _ => .skip fun _ => .skip fun _ => .skip fun _ =>
      .ite (fun _ => .pure _ _) fun _ => .checks1
  | selectTyped =>
    exact .both fun _ => .both fun _ => .both fun _ => .both fun _ => .checks4
  | tableGet | tableSet => exact .last readTable_ends fun _ _ => .checks2
  | load resultType alignment => exact load_ends resultType alignment
  | store valueType alignment => exact store_ends valueType alignment
  | memorySize | memoryGrow => exact .last readMemory_ends fun _ _ => .checks2
  | i32Const | i64Const | f32Const | f64Const => exact .both fun _ => .checks1
  | refNull => exact .both fun _ => .both fun _ => .checks1
  | refIsNull | refAsNonNull => exact .checks2
  | refEq => exact .checks3
  | brOnNull | brOnNonNull =>
    exact .uleb32 fun _ _ => .skip fun _ => .skip fun _ => .skip fun _ =>
      .ite (fun _ => .checks2) fun _ => .checks4
  | gc =>
    intro a t h
    obtain ⟨label, himm, -⟩ := gc_of h
    simp only [immediates, codeCtx, himm]
    rfl
  | fc => exact fc_ends
  | simd => exact simd_ends
  | atomic => exact atomic_ends

theorem controlBranch_target {s : TypeStack}
    (h : controlBranch m s c depth conditional = .ok s') : depth < c.frames.length := by
  obtain ⟨target, htarget, -⟩ := bind_eq_ok.mp h
  exact (List.getElem?_eq_some_iff.mp (orFail_eq_ok.mp htarget)).1

theorem brTableLabels_target : ∀ {depths : List Nat} {s s' : TypeStack},
    brTableLabels H ctx c arity depths s = .ok s' → ∀ depth ∈ depths, depth < c.frames.length
  | [], _, _, _, _, h => by cases h
  | d :: depths, s, s', h, depth, hmem => by
    simp only [brTableLabels, bind_eq_ok, orFail_eq_ok] at h
    obtain ⟨target, htarget, u, -, p, -, s₁, -, h⟩ := h
    rcases mem_cons.mp hmem with rfl | hmem
    · exact lt_of_getElem? htarget
    · exact brTableLabels_target h depth hmem

theorem brTable_labels (h : validateBrTable H ctx c s r = .ok (s', r')) :
    ∃ depths default, readBrTable r = .ok ((depths, default), r') ∧
      ∀ depth ∈ default :: depths, depth < c.frames.length := by
  simp only [validateBrTable, bind_eq_ok, orFail_eq_ok] at h
  obtain ⟨⟨count, r₁⟩, hcount, ⟨depths, r₂⟩, hdepths, ⟨default, r₃⟩, hdefault, target, htarget, s₁,
    -, s₂, hlabels, s₃, -, hpure⟩ := h
  cases hpure
  refine ⟨depths, default, ?_, ?_⟩
  · simp only [readBrTable, hcount, orFail, ok_bind, hdepths, hdefault]
    rfl
  · intro depth hmem
    rcases mem_cons.mp hmem with rfl | hmem
    · exact lt_of_getElem? htarget
    · exact brTableLabels_target hlabels depth hmem

theorem refBranch_target (h : validateRefBranch H ctx c onNonNull s r = .ok (s', r')) :
    ∃ depth, r.uleb32 = some (depth, r') ∧ depth < c.frames.length := by
  have hends : Ends (skipUleb32 r) (validateRefBranch H ctx c onNonNull s r) :=
    .uleb32 fun _ _ => .skip fun _ => .skip fun _ => .skip fun _ =>
      .ite (fun _ => .checks2) fun _ => .checks4
  have hr := hends s' r' h
  simp only [validateRefBranch, bind_eq_ok, orFail_eq_ok] at h
  obtain ⟨⟨depth, r₁⟩, hdepth, target, htarget, -⟩ := h
  simp only [skipUleb32, hdepth] at hr
  cases hr
  exact ⟨depth, hdepth, (lt_of_getElem? htarget)⟩

/-- **The labels of an accepted instruction have a frame.** -/
theorem labelsOf_valid {op : Opcode} (h : validatePlain H ctx env c s r op = .ok (s', r')) :
    ∀ depth ∈ labelsOf ctx.codeCtx r op, depth < c.frames.length := by
  intro depth hmem
  cases op with
  | br =>
    obtain ⟨⟨d, r₁⟩, hd, h⟩ := bind_eq_ok.mp h
    obtain ⟨s₁, hbranch, -⟩ := bind_eq_ok.mp h
    simp only [labelsOf, orFail_eq_ok.mp hd, mem_singleton] at hmem
    rw [hmem]
    exact controlBranch_target hbranch
  | brIf =>
    obtain ⟨⟨d, r₁⟩, hd, h⟩ := bind_eq_ok.mp h
    obtain ⟨s₁, -, h⟩ := bind_eq_ok.mp h
    obtain ⟨s₂, hbranch, -⟩ := bind_eq_ok.mp h
    simp only [labelsOf, orFail_eq_ok.mp hd, mem_singleton] at hmem
    rw [hmem]
    exact controlBranch_target hbranch
  | brTable =>
    obtain ⟨depths, default, hread, hlabels⟩ := brTable_labels h
    simp only [labelsOf, hread] at hmem
    exact hlabels depth hmem
  | brOnNull | brOnNonNull =>
    obtain ⟨d, hd, hlt⟩ := refBranch_target h
    simp only [labelsOf, hd, mem_singleton] at hmem
    rwa [hmem]
  | gc =>
    obtain ⟨label, himm, hlabel⟩ := gc_of h
    simp only [labelsOf, codeCtx, himm] at hmem
    cases label with
    | none => cases hmem
    | some l =>
      rw [mem_singleton] at hmem
      rw [hmem]
      exact hlabel l rfl
  | _ => cases hmem

/-- **An accepted instruction ends where the interpreter stops reading it.** -/
theorem immediates_of_validated {st st' : BodyState} {op : Opcode}
    (h : validateInstruction H ctx env st r op = .ok (some (st', r'))) :
    immediates ctx.codeCtx r op = .ok r' := by
  have hplain : (validatePlain H ctx env st.controls st.stack r op >>= fun p =>
      pure (some ({ st with stack := p.1, requiresStore := st.requiresStore || op == .gc },
        p.2))) = .ok (some (st', r')) → immediates ctx.codeCtx r op = .ok r' := by
    intro hp
    obtain ⟨⟨stack, s⟩, hs, hp⟩ := bind_eq_ok.mp hp
    have hread := plain_ends op stack s hs
    cases hp
    exact hread
  cases op with
  | structured kind =>
    simp only [validateInstruction, map_some_eq_ok, validateStructured, bind_eq_ok] at h
    obtain ⟨offset, -, stack, -, ⟨signature, r₁⟩, hsig, h⟩ := h
    simp only [enterBlock, bind_eq_ok] at h
    obtain ⟨u, -, v, -, ⟨stack', controls⟩, -, hpure⟩ := h
    have hread := structured_ends signature r₁ hsig
    cases hpure
    exact hread
  | tryTable =>
    simp only [validateInstruction, map_some_eq_ok, validateTryTable, bind_eq_ok] at h
    obtain ⟨offset, -, ⟨signature, r₁⟩, hsig, ⟨catches, r₂⟩, hcatches, h⟩ := h
    simp only [enterBlock, bind_eq_ok] at h
    obtain ⟨u, -, v, -, ⟨stack', controls⟩, -, hpure⟩ := h
    cases hpure
    simp only [immediates, codeCtx, (readTryTable_of hsig hcatches).1]
    rfl
  | elseOp =>
    simp only [validateInstruction, map_some_eq_ok, validateElse, bind_eq_ok] at h
    obtain ⟨i, -, p, -, control, -, u, -, offset, -, hpure⟩ := h
    cases hpure
    rfl
  | endOp =>
    rcases ite_cases h with ⟨-, h⟩ | ⟨-, h⟩
    · obtain ⟨u, -, hpure⟩ := bind_eq_ok.mp h
      cases hpure
    · simp only [map_some_eq_ok, validateEnd, bind_eq_ok] at h
      obtain ⟨i, -, p, -, control, -, u, -, offset, -, hpure⟩ := h
      cases hpure
      rfl
  | localSet | localTee =>
    simp only [validateInstruction, map_some_eq_ok, validateLocalSet, bind_eq_ok] at h
    obtain ⟨⟨x, r₁⟩, hx, type, -, stack, -, stack', -, hpure⟩ := h
    have hread := Ends.number x r₁ hx
    cases hpure
    exact hread
  | _ => exact hplain h

end Agreement

end TurboWasm
