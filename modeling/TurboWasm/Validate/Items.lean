/-
# The items of the sections

Each item a section appends is well formed (`Validate/Wf.lean`), and the rest of the context stays
as it was.  What a section does to the counts is said by the `Profile` of the context: how many
records each array has, and which of them are imported.  Constant expressions and function bodies
leave the profile alone; every other item extends it by one entry.
-/
import TurboWasm.Validate.Wf

namespace TurboWasm

open List Reader ValidationContext

/-! ## 1. Function bodies -/

theorem forall_mem_set {α : Type} {P : α → Prop} {xs : List α} {x : α}
    (h : ∀ y ∈ xs, P y) (hx : P x) : ∀ y ∈ xs.set i x, P y := by
  intro y hy
  rcases mem_or_eq_of_mem_set hy with hy | rfl
  · exact h y hy
  · exact hx

/-- The records that a body has left so far. -/
def AnnotationsOk (z : Shape) (as : List Annotation) : Prop :=
  as.length ≤ uint32Max ∧ ∀ a ∈ as, AnnotationOk z a

theorem AnnotationsOk.set {z : Shape} {as : List Annotation} {i : Nat} {a : Annotation}
    (h : AnnotationsOk z as) (ha : AnnotationOk z a) : AnnotationsOk z (as.set i a) :=
  ⟨by rw [length_set]; exact h.1, forall_mem_set h.2 ha⟩

section Body

variable {H : TypeHeap} {ctx : ValidationContext} {env : BodyEnv} {r r' : Reader}
  {st st' : BodyState} {sig : BlockSignature} {c : ControlStack} {catches : List Catch}

theorem functionTypeAt_lt (h : functionTypeAt ctx i = .ok type) :
    ctx.types[i]? = some type := by
  simp only [functionTypeAt, bind_eq_ok, orFail_eq_ok] at h
  obtain ⟨type', htype, -, -, hout⟩ := h
  cases hout
  exact htype

theorem readBlockSignature_type (h : readBlockSignature ctx r = .ok (sig, r')) :
    sig.typeIndex = uint32Max ∨ sig.typeIndex < ctx.types.length := by
  obtain ⟨first, -, h⟩ := bind_eq_ok.mp h
  rcases ite_cases h with ⟨-, h⟩ | ⟨-, h⟩
  · obtain ⟨p, -, hout⟩ := bind_eq_ok.mp h
    cases hout
    exact .inl rfl
  rcases ite_cases h with ⟨-, h⟩ | ⟨-, h⟩
  · obtain ⟨p, -, h⟩ := bind_eq_ok.mp h
    obtain ⟨-, -, hout⟩ := bind_eq_ok.mp h
    cases hout
    exact .inl rfl
  · simp only [bind_eq_ok, Prod.exists] at h
    obtain ⟨_, _, -, index, _, -, type, htype, hout⟩ := h
    cases hout
    exact .inr (lt_of_getElem? (functionTypeAt_lt htype))

theorem catchPayload_tag (h : catchPayloadMatchesLabel H ctx target kind tagIndex)
    (hk : kind = .catchTag ∨ kind = .catchRef) : tagIndex < ctx.tags.length := by
  rcases tagIndex.lt_or_ge ctx.tags.length with hlt | hge
  · exact hlt
  · have hno : ctx.tags[tagIndex]? = none := getElem?_eq_none hge
    have hk' : (kind = .catchTag || kind = .catchRef : Bool) := by simpa using hk
    simp [catchPayloadMatchesLabel, hno, hk'] at h

theorem readCatches_ok : ∀ {n : Nat} {r : Reader} {catches : List Catch},
    readCatches H ctx c n r = .ok (catches, r') →
    catches.length = n ∧ ∀ k ∈ catches, CatchOk ctx.shape k
  | 0, _, _, h => by
    cases h
    exact ⟨rfl, by simp⟩
  | n + 1, r, catches, h => by
    simp only [readCatches, bind_eq_ok, orFail_eq_ok, failIf_eq_ok, Bool.not_eq_false',
      Prod.exists] at h
    obtain ⟨byte, r1, -, kind, -, tagIndex, r2, htag, depth, r3, hdepth, target, -, -, hlabel,
      rest, r4, hrest, hout⟩ := h
    cases hout
    obtain ⟨hlen, hok⟩ := readCatches_ok hrest
    refine ⟨by rw [length_cons, hlen], forall_mem_cons.mpr ⟨?_, hok⟩⟩
    rcases ite_cases htag with ⟨hk, htag⟩ | ⟨hk, htag⟩
    · have htag := uleb32_le (orFail_eq_ok.mp htag)
      refine ⟨?_, htag, uleb32_le hdepth⟩
      rw [IndexOk, if_pos hk]
      exact catchPayload_tag hlabel hk
    · cases htag
      refine ⟨?_, le_rfl, uleb32_le hdepth⟩
      rw [IndexOk, if_neg hk]

theorem readTryCatches_ok (h : readTryCatches H ctx c r = .ok (catches, r')) :
    catches.length ≤ uint32Max ∧ ∀ k ∈ catches, CatchOk ctx.shape k := by
  simp only [readTryCatches, bind_eq_ok, orFail_eq_ok, Prod.exists] at h
  obtain ⟨count, s, hcount, h⟩ := h
  obtain ⟨hlen, hok⟩ := readCatches_ok h
  exact ⟨hlen ▸ uleb32_le hcount, hok⟩

theorem opcodeOffset_le (h : opcodeOffset env r = .ok offset) :
    offset ≤ uint32Max := by
  simp only [opcodeOffset, bind_eq_ok, failIf_eq_ok, decide_eq_false_iff_not, not_lt] at h
  obtain ⟨-, hle, hout⟩ := h
  cases hout
  exact hle

theorem enterBlock_ok (has : AnnotationsOk ctx.shape st.annotations) (hoff : offset ≤ uint32Max)
    (hsig : sig.typeIndex = uint32Max ∨ sig.typeIndex < ctx.types.length)
    (hc : catches.length ≤ uint32Max ∧ ∀ k ∈ catches, CatchOk ctx.shape k)
    (h : enterBlock H ctx env st kind offset sig catches r = .ok (st', r')) :
    AnnotationsOk ctx.shape st'.annotations := by
  simp only [enterBlock, bind_eq_ok, failIf_eq_ok, decide_eq_false_iff_not, Prod.exists] at h
  obtain ⟨-, hbody, -, hroom, stack, controls, -, hout⟩ := h
  cases hout
  refine ⟨?_, forall_mem_append.mpr ⟨has.2, forall_mem_singleton.mpr ?_⟩⟩
  · have := has.1
    simp only [length_append, length_singleton]
    omega
  · exact ⟨hoff, not_lt.mp hbody, le_rfl, le_rfl, hsig, hc.1, hc.2⟩

theorem map_some_eq_ok {α : Type} {x : Result α} {a : α} :
    some <$> x = .ok (some a) ↔ x = .ok a := by
  cases x <;> simp

theorem validateElse_ok (has : AnnotationsOk ctx.shape st.annotations)
    (h : validateElse H ctx env st r = .ok (st', r')) :
    AnnotationsOk ctx.shape st'.annotations := by
  simp only [validateElse, bind_eq_ok, orFail_eq_ok, Prod.exists] at h
  obtain ⟨index, -, stack, controls, -, a, ha, -, -, offset, hoff, hout⟩ := h
  cases hout
  have hold := has.2 a (mem_of_getElem? ha)
  exact has.set { hold with elseOffset := opcodeOffset_le hoff }

theorem validateEnd_ok (has : AnnotationsOk ctx.shape st.annotations)
    (h : validateEnd H ctx env st r = .ok (st', r')) : AnnotationsOk ctx.shape st'.annotations := by
  simp only [validateEnd, bind_eq_ok, orFail_eq_ok, Prod.exists] at h
  obtain ⟨index, -, stack, controls, -, a, ha, -, -, offset, hoff, hout⟩ := h
  cases hout
  have hold := has.2 a (mem_of_getElem? ha)
  exact has.set { hold with endOffset := opcodeOffset_le hoff }

theorem validateLocalSet_annotations (h : validateLocalSet H ctx env tee st r = .ok (st', r')) :
    st'.annotations = st.annotations := by
  simp only [validateLocalSet, bind_eq_ok, Prod.exists] at h
  obtain ⟨_, _, -, _, -, _, -, _, -, hout⟩ := h
  cases hout
  rfl

/-- One instruction keeps the records well formed. -/
theorem validateInstruction_ok {op : Opcode} (has : AnnotationsOk ctx.shape st.annotations)
    (h : validateInstruction H ctx env st r op = .ok (some (st', r'))) :
    AnnotationsOk ctx.shape st'.annotations := by
  unfold validateInstruction at h
  split at h
  · -- `block`, `loop`, `if`
    simp only [map_some_eq_ok, validateStructured, bind_eq_ok, Prod.exists] at h
    obtain ⟨offset, hoff, stack, -, sig, s, hsig, h⟩ := h
    have has' : AnnotationsOk ctx.shape { st with stack := stack }.annotations := has
    exact enterBlock_ok has' (opcodeOffset_le hoff) (readBlockSignature_type hsig)
      ⟨Nat.zero_le _, by simp⟩ h
  · -- `try_table`
    simp only [map_some_eq_ok, validateTryTable, bind_eq_ok, Prod.exists] at h
    obtain ⟨offset, hoff, sig, s, hsig, catches, s', hc, h⟩ := h
    exact enterBlock_ok has (opcodeOffset_le hoff) (readBlockSignature_type hsig)
      (readTryCatches_ok hc) h
  · exact validateElse_ok has (map_some_eq_ok.mp h)
  · rcases ite_cases h with ⟨-, h⟩ | ⟨-, h⟩
    · obtain ⟨_, -, hout⟩ := bind_eq_ok.mp h
      cases hout
    · exact validateEnd_ok has (map_some_eq_ok.mp h)
  · rwa [validateLocalSet_annotations (map_some_eq_ok.mp h)]
  · rwa [validateLocalSet_annotations (map_some_eq_ok.mp h)]
  · obtain ⟨p, -, hout⟩ := bind_eq_ok.mp h
    cases hout
    exact has

theorem validateLoop_ok : ∀ {fuel : Nat} {st st' : BodyState} {r : Reader},
    AnnotationsOk ctx.shape st.annotations → validateLoop H ctx env fuel st r = .ok st' →
    AnnotationsOk ctx.shape st'.annotations
  | 0, _, _, _, _, h => by cases h
  | fuel + 1, st, st', r, has, h => by
    simp only [validateLoop, bind_eq_ok, Prod.exists] at h
    obtain ⟨byte, s, -, out, hinst, h⟩ := h
    split at h
    · cases h
      exact has
    · exact validateLoop_ok (validateInstruction_ok has hinst) h

theorem readLocalGroups_ok (hok : ContextOk src ctx) :
    ∀ {n total : Nat} {r : Reader} {groups : List (Nat × ValueType)}, total ≤ uint32Max →
    readLocalGroups ctx n total r = .ok (groups, r') →
    (∀ g ∈ groups, ValueOk ctx.shape g.2) ∧
      total + (groups.map Prod.fst).sum ≤ uint32Max ∧ r.Advances r'
  | 0, total, r, groups, ht, h => by
    cases h
    exact ⟨by simp, by simpa using ht, .refl _⟩
  | n + 1, total, r, groups, ht, h => by
    simp only [readLocalGroups, bind_eq_ok, orFail_eq_ok, failIf_eq_ok, decide_eq_false_iff_not,
      not_lt, Prod.exists] at h
    obtain ⟨count, r1, hcount, type, r2, htype, -, -, -, hle, rest, r3, hrest, hout⟩ := h
    cases hout
    obtain ⟨hvals, hsum, hadv⟩ := readLocalGroups_ok hok hle hrest
    refine ⟨forall_mem_cons.mpr ⟨readValtype_ok hok htype, hvals⟩, ?_, ?_⟩
    · simp only [map_cons, sum_cons]
      omega
    · exact ((uleb32_adv r count r1 hcount).trans
        (readValtype_adv (.refl r1) _ type r2 htype)).trans hadv

/-- The locals of a body: the parameters, then the declared ones. -/
theorem readLocals_ok (hok : ContextOk src ctx) {type : FuncType}
    (hparams : type.params.length ≤ uint32Max ∧ ∀ v ∈ type.params, ValueOk ctx.shape v)
    {locals : List ValueType} (h : readLocals ctx type r = .ok (locals, r')) :
    locals.length ≤ uint32Max ∧ (∀ v ∈ locals, ValueOk ctx.shape v) ∧ r.Advances r' := by
  simp only [readLocals, bind_eq_ok, orFail_eq_ok, Prod.exists] at h
  obtain ⟨n, s, hn, groups, s', hgroups, hout⟩ := h
  cases hout
  obtain ⟨hvals, hsum, hadv⟩ := readLocalGroups_ok hok hparams.1 hgroups
  refine ⟨?_, forall_mem_append.mpr ⟨hparams.2, ?_⟩, (uleb32_adv r n s hn).trans hadv⟩
  · simpa using hsum
  · intro v hv
    obtain ⟨g, hg, hv⟩ := mem_flatMap.mp hv
    rw [(mem_replicate.mp hv).2]
    exact hvals g hg

end Body

/-! ## 2. Appending -/

/-- What the summary counts: the sizes of the arrays, and which items are imported. -/
structure Profile where
  types : Nat
  imports : Nat
  exports : Nat
  functions : List Bool
  tables : List Bool
  memories : List Bool
  globals : List Bool
  tags : List Bool
  dataSegments : Nat
  elementSegments : Nat
  hasDataCount : Bool
  dataCount : Nat
  deriving DecidableEq, Repr

/-- The profile of a context. -/
def ValidationContext.profile (ctx : ValidationContext) : Profile where
  types := ctx.types.length
  imports := ctx.imports.length
  exports := ctx.exports.length
  functions := ctx.functions.map ValidationFunction.imported
  tables := ctx.tables.map ValidationTable.imported
  memories := ctx.memories.map ValidationMemory.imported
  globals := ctx.globals.map ValidationGlobal.imported
  tags := ctx.tags.map ValidationTag.imported
  dataSegments := ctx.dataSegments.length
  elementSegments := ctx.elementSegments.length
  hasDataCount := ctx.hasDataCount
  dataCount := ctx.dataCount

/-- The items of a kind, by whether they are imported. -/
def Profile.items (p : Profile) : ExternalKind → List Bool
  | .function => p.functions
  | .table => p.tables
  | .memory => p.memories
  | .global => p.globals
  | .tag => p.tags

/-- More items of a kind. -/
def Profile.addItems (p : Profile) (k : ExternalKind) (flags : List Bool) : Profile :=
  match k with
  | .function => { p with functions := p.functions ++ flags }
  | .table => { p with tables := p.tables ++ flags }
  | .memory => { p with memories := p.memories ++ flags }
  | .global => { p with globals := p.globals ++ flags }
  | .tag => { p with tags := p.tags ++ flags }

@[simp] theorem Profile.addItems_nil (p : Profile) (k : ExternalKind) : p.addItems k [] = p := by
  cases k <;> simp [addItems]

theorem Profile.addItems_addItems (p : Profile) (k : ExternalKind) (xs ys : List Bool) :
    (p.addItems k xs).addItems k ys = p.addItems k (xs ++ ys) := by
  cases k <;> simp [addItems]

theorem Profile.items_addItems (p : Profile) (k j : ExternalKind) (flags : List Bool) :
    (p.addItems k flags).items j = if j = k then p.items j ++ flags else p.items j := by
  cases k <;> cases j <;> rfl

theorem ValidationContext.count_shape (ctx : ValidationContext) (k : ExternalKind) :
    ctx.shape.count k = (ctx.profile.items k).length := by
  cases k <;> simp [shape, profile, Shape.count, Profile.items]

/-- More items of one kind, and the same types. -/
theorem Shape.Le.of_profile {ctx ctx' : ValidationContext}
    (hp : ctx'.profile = ctx.profile.addItems k flags) (ha : ctx'.addr = ctx.addr)
    (ht : ctx'.types = ctx.types) : ctx.shape.Le ctx'.shape := by
  refine ⟨ha, ht, fun j => ?_⟩
  rw [ctx.count_shape, ctx'.count_shape, hp, Profile.items_addItems]
  split <;> simp

theorem OnlyRefs.profile {ctx ctx' : ValidationContext} (h : OnlyRefs ctx ctx') :
    ctx'.profile = ctx.profile := by
  rw [h.eq]
  rfl

theorem forall_mem_snoc {α : Type} {P : α → Prop} {xs : List α} {x : α} (h : ∀ y ∈ xs, P y)
    (hx : P x) : ∀ y ∈ xs ++ [x], P y :=
  forall_mem_append.mpr ⟨h, forall_mem_singleton.mpr hx⟩

theorem length_snoc_le {α : Type} {xs : List α} {x : α} {n : Nat} (h : xs.length ≤ n)
    (hne : xs.length ≠ n) : (xs ++ [x]).length ≤ n := by
  rw [length_append, length_singleton]
  omega

theorem span_empty_iff {s : Span} (h : ¬ ((s.start == none) != (s.size == 0))) :
    s.start = none ↔ s.size = 0 := by
  simp only [bne_iff_ne, Decidable.not_not] at h
  rw [← beq_iff_eq, h, beq_iff_eq]

/-- One more item of the kind `k`. -/
structure Adds (src : List UInt8) (k : ExternalKind) (imported : Bool)
    (ctx ctx' : ValidationContext) : Prop where
  ok : ContextOk src ctx'
  profile : ctx'.profile = ctx.profile.addItems k [imported]
  refs : ctx'.declaredRefs = ctx.declaredRefs
  imports : ctx'.imports = ctx.imports

section Append

variable {src : List UInt8} {ctx ctx' : ValidationContext} (hok : ContextOk src ctx)
  {imported : Bool} {typeIndex : Nat} {initializer : Span}

include hok

theorem appendImport_ok {d : ImportDesc} (hd : ImportOk src ctx.shape d)
    (hnew : (d.kind, d.itemIndex) ∉ ctx.imports.map fun d => (d.kind, d.itemIndex))
    (h : ctx.appendImport d = some ctx') : ContextOk src ctx' ∧
      ctx'.profile = { ctx.profile with imports := ctx.profile.imports + 1 } ∧
      ctx'.declaredRefs = ctx.declaredRefs := by
  obtain ⟨hroom, h⟩ := ite_none_pass h
  cases h
  refine ⟨{ hok with
    records := { hok.records with
      imports := forall_mem_snoc hok.records.imports hd
      importCount := length_snoc_le hok.records.importCount hroom }
    importItems := ?_ }, ?_, rfl⟩
  · rw [map_append]
    exact nodup_append.mpr ⟨hok.importItems, by simp, fun _ ha _ hb =>
      mem_singleton.mp hb ▸ ne_of_mem_of_not_mem ha hnew⟩
  · simp [profile]

theorem appendExport_ok {d : ExportDesc} (hd : ExportOk src ctx.shape d)
    (hnew : (ctx.exports.any fun e => e.name.bytes == d.name.bytes) = false)
    (h : ctx.appendExport d = some ctx') : ContextOk src ctx' ∧
      ctx'.profile = { ctx.profile with exports := ctx.profile.exports + 1 } ∧
      ctx'.declaredRefs = ctx.declaredRefs := by
  obtain ⟨hroom, h⟩ := ite_none_pass h
  cases h
  refine ⟨{ hok with
    records := { hok.records with
      exports := forall_mem_snoc hok.records.exports hd
      exportCount := length_snoc_le hok.records.exportCount hroom }
    exportNames := ?_ }, ?_, rfl⟩
  · simp only [any_eq_false, beq_iff_eq] at hnew
    simp only [map_append]
    refine nodup_append.mpr ⟨hok.exportNames, by simp, ?_⟩
    intro a ha b hb
    obtain ⟨e, he, rfl⟩ := mem_map.mp ha
    rw [mem_singleton.mp hb]
    exact hnew e he
  · simp [profile]

/-- An item is added when the records are well formed and nothing else has changed. -/
theorem Adds.of_records {c : ValidationContext}
    (hr : ctx.shape.Le c.shape → RecordsOk src c.shape c)
    (hd : c.declaredRefs = [] ∨ c.declaredRefs.length = c.functions.length)
    (hp : c.profile = ctx.profile.addItems k [imported] := by simp [profile, Profile.addItems])
    (hc : c = { ctx with
      functions := c.functions, tables := c.tables, memories := c.memories, globals := c.globals,
      tags := c.tags } := by rfl) : Adds src k imported ctx c := by
  have hz : ctx.shape.Le c.shape := .of_profile hp (by rw [hc]) (by rw [hc])
  have hrec := hr hz
  rw [hc] at hp hrec hd ⊢
  exact ⟨{ hok with records := hrec, declaredRefs := hd }, hp, rfl, rfl⟩

theorem appendFunction_ok (hnone : ctx.declaredRefs = [])
    (h : ctx.appendFunction typeIndex imported = some ctx') :
    Adds src .function imported ctx ctx' := by
  obtain ⟨hroom, h⟩ := ite_none_pass h
  cases h
  obtain ⟨htype, hroom⟩ := not_or.mp hroom
  have hf : FunctionOk src ctx.shape ⟨typeIndex, imported, [], .zero, []⟩ :=
    ⟨not_le.mp htype, by simp, by simp, ⟨fun _ => rfl, nofun, Nat.zero_le _⟩, by simp,
      by simp, fun _ => rfl⟩
  refine .of_records hok (fun hz => { hok.records.mono hz with
      functions := forall_mem_snoc (hok.records.mono hz).functions (hf.mono hz)
      functionCount := length_snoc_le hok.records.functionCount hroom }) (.inl hnone)

theorem appendGlobal_ok {type : ValueType} {mutableValue : Bool}
    (htype : ValueOk ctx.shape type) (hinit : SpanOk src initializer)
    (h : ctx.appendGlobal type mutableValue imported initializer = some ctx') :
    Adds src .global imported ctx ctx' := by
  obtain ⟨hroom, h⟩ := ite_none_pass h
  obtain ⟨hempty, h⟩ := ite_none_pass h
  obtain ⟨himp, h⟩ := ite_none_pass h
  cases h
  have hg : GlobalOk src ctx.shape ⟨type, mutableValue, imported, initializer⟩ := by
    refine ⟨htype, hinit, span_empty_iff hempty, fun hi => ?_⟩
    simpa [show imported from hi] using himp
  refine .of_records hok (fun hz => { hok.records.mono hz with
      globals := forall_mem_snoc (hok.records.mono hz).globals (hg.mono hz)
      globalCount := length_snoc_le hok.records.globalCount hroom }) hok.declaredRefs

theorem appendTable_ok {type : ValueType} {limits : TableLimits} (htype : ValueOk ctx.shape type)
    (hlim : LimitsOk limits) (hinit : SpanOk src initializer)
    (h : ctx.appendTable type limits imported initializer = some ctx') :
    Adds src .table imported ctx ctx' := by
  obtain ⟨hroom, h⟩ := ite_none_pass h
  obtain ⟨himp, h⟩ := ite_none_pass h
  obtain ⟨hempty, h⟩ := ite_none_pass h
  cases h
  obtain ⟨hroom, href⟩ := not_or.mp hroom
  have ht : TableOk src ctx.shape ⟨type, imported, limits, initializer⟩ := by
    refine ⟨htype, not_not.mp href, hlim, hinit, span_empty_iff hempty, fun hi => ?_⟩
    simp only [show imported from hi, true_and, not_or, Option.not_isSome_iff_eq_none]
      at himp
    exact himp.1
  refine .of_records hok (fun hz => { hok.records.mono hz with
      tables := forall_mem_snoc (hok.records.mono hz).tables (ht.mono hz)
      tableCount := length_snoc_le hok.records.tableCount hroom }) hok.declaredRefs

theorem appendMemory_ok {type : MemoryType} (hm : MemoryItemOk ⟨imported, type⟩)
    (h : ctx.appendMemory type imported = some ctx') : Adds src .memory imported ctx ctx' := by
  obtain ⟨hroom, h⟩ := ite_none_pass h
  cases h
  refine .of_records hok (fun hz => { hok.records.mono hz with
      memories := forall_mem_snoc hok.records.memories hm
      memoryCount := length_snoc_le hok.records.memoryCount hroom }) hok.declaredRefs

theorem appendTag_ok (h : ctx.appendTag typeIndex imported = some ctx') :
    Adds src .tag imported ctx ctx' := by
  obtain ⟨hroom, h⟩ := ite_none_pass h
  split at h
  · cases h
  rename_i type htype
  obtain ⟨hres, h⟩ := ite_none_pass h
  cases h
  have ht : TagOk ctx.shape ⟨typeIndex, imported⟩ :=
    ⟨type, htype, eq_nil_of_length_eq_zero (not_not.mp (not_or.mp hres).2)⟩
  refine .of_records hok (fun hz => { hok.records.mono hz with
      tags := forall_mem_snoc (hok.records.mono hz).tags (ht.mono hz)
      tagCount := length_snoc_le hok.records.tagCount hroom }) hok.declaredRefs

theorem appendDataSegment_ok {s : DataSegment} (hs : DataOk src ctx.shape s)
    (h : ctx.appendDataSegment s = some ctx') : ContextOk src ctx' ∧
      ctx'.profile = { ctx.profile with dataSegments := ctx.profile.dataSegments + 1 } := by
  obtain ⟨hroom, h⟩ := ite_none_pass h
  cases h
  refine ⟨{ hok with records := { hok.records with
    dataSegments := forall_mem_snoc hok.records.dataSegments hs
    dataSegmentCount := length_snoc_le hok.records.dataSegmentCount hroom } }, ?_⟩
  simp [profile]

theorem appendElementSegment_ok {s : ElementSegment} (hs : ElementOk src ctx.shape s)
    (h : ctx.appendElementSegment s = some ctx') : ContextOk src ctx' ∧
      ctx'.profile = { ctx.profile with elementSegments := ctx.profile.elementSegments + 1 } := by
  obtain ⟨hroom, h⟩ := ite_none_pass h
  cases h
  refine ⟨{ hok with records := { hok.records with
    elementSegments := forall_mem_snoc hok.records.elementSegments hs
    elementSegmentCount := length_snoc_le hok.records.elementSegmentCount hroom } }, ?_⟩
  simp [profile]

end Append

/-! ## 3. Items -/

section Items

variable {src : List UInt8} {H : TypeHeap} {ctx ctx' : ValidationContext} {r r' : Reader}
  {type : ValueType} {i flags : Nat} {offset : ExprSpan}

theorem readTableType_spec (hok : ContextOk src ctx)
    (h : readTableType ctx r = .ok ((type, limits), r')) :
    ValueOk ctx.shape type ∧ LimitsOk limits ∧ r.Advances r' := by
  simp only [readTableType, bind_eq_ok, Prod.exists] at h
  obtain ⟨t, s, ht, -, -, l, s', hl, hout⟩ := h
  cases hout
  have hadv := readReftype_adv (.refl r) _ _ s ht
  exact ⟨readReftype_ok hok ht, readLimits_ok hl, readLimits_adv hadv _ _ hl⟩

theorem readGlobaltype_spec (hok : ContextOk src ctx)
    (h : readGlobaltype ctx r = .ok ((type, mutableValue), r')) :
    ValueOk ctx.shape type ∧ r.Advances r' := by
  simp only [readGlobaltype, bind_eq_ok, orFail_eq_ok, Prod.exists] at h
  obtain ⟨t, s, ht, -, -, m, s', hm, -, -, hout⟩ := h
  cases hout
  exact ⟨readValtype_ok hok ht,
    (readValtype_adv (.refl r) _ _ s ht).trans (u8_adv s m _ hm)⟩

theorem readTagType_adv (ctx : ValidationContext) (r : Reader) : Adv r (readTagType ctx r) := by
  refine .read (.orFail (u8_adv r) (.refl r) _) fun _ s hs => ?_
  refine .read (.orFail (uleb32_adv s) hs _) fun _ s hs => ?_
  exact .skip fun _ => .skip fun _ => .skip fun _ => .pure hs _

theorem readFunctionType_adv (v : ValidationState) (r : Reader) : Adv r (readFunctionType v r) := by
  refine .read (.orFail (uleb32_adv r) (.refl r) _) fun _ s hs => ?_
  exact .skip fun _ => .skip fun _ => .skip fun _ => .pure hs _

theorem spanOk_zero : SpanOk src Span.zero := ⟨fun _ => rfl, nofun, Nat.zero_le _⟩

theorem validateFunction_spec {v v' : ValidationState} (hok : ContextOk src v.context)
    (hnone : v.context.declaredRefs = []) (h : validateFunction v r = .ok (v', r')) :
    ContextOk src v'.context ∧ v'.context.declaredRefs = [] ∧ v'.summary = v.summary ∧
      v'.context.profile = v.context.profile.addItems .function [false] ∧ r.Advances r' := by
  simp only [validateFunction, bind_eq_ok, orFail_eq_ok, Prod.exists] at h
  obtain ⟨typeIndex, s, htype, c, hc, hout⟩ := h
  cases hout
  have hadd := appendFunction_ok hok hnone hc
  exact ⟨hadd.ok, hadd.refs.trans hnone, rfl, hadd.profile, readFunctionType_adv v r _ _ htype⟩

/-- An item of the section that defines the items of the kind `k`. -/
structure Defines (src : List UInt8) (k : ExternalKind) (ctx ctx' : ValidationContext)
    (r r' : Reader) : Prop where
  ok : ContextOk src ctx'
  profile : ctx'.profile = ctx.profile.addItems k [false]
  advances : r.Advances r'

section

variable (hok : ContextOk src ctx)

include hok

theorem validateInitializedTable_spec (hr : r.Within src)
    (h : validateInitializedTable H ctx r = .ok (ctx', r')) : Defines src .table ctx ctx' r r' := by
  simp only [validateInitializedTable, bind_eq_ok, orFail_eq_ok, Prod.exists] at h
  obtain ⟨_, r1, h1, _, r2, h2, -, -, type, limits, r3, htype, t, span, c, r4, hconst, -, -, -, -,
    c', hc', hout⟩ := h
  cases hout
  obtain ⟨hval, hlim, hadv⟩ := readTableType_spec hok htype
  have hadv3 := ((u8_adv r _ r1 h1).trans (u8_adv r1 _ r2 h2)).trans hadv
  obtain ⟨hrefs, hadv4, hspan, -⟩ := validateConstExpr_spec (hr.of_advances hadv3) hconst
  have hadd := appendTable_ok (hrefs.contextOk hok) (hrefs.shape ▸ hval) hlim hspan hc'
  exact ⟨hadd.ok, hrefs.profile ▸ hadd.profile, hadv3.trans hadv4⟩

theorem validateTable_spec (hr : r.Within src)
    (h : validateTable H ctx r = .ok (ctx', r')) : Defines src .table ctx ctx' r r' := by
  rcases ite_cases h with ⟨-, h⟩ | ⟨-, h⟩
  · exact validateInitializedTable_spec hok hr h
  simp only [bind_eq_ok, orFail_eq_ok, Prod.exists] at h
  obtain ⟨type, limits, r1, htype, -, -, c, hc, hout⟩ := h
  cases hout
  obtain ⟨hval, hlim, hadv⟩ := readTableType_spec hok htype
  have hadd := appendTable_ok hok hval hlim spanOk_zero hc
  exact ⟨hadd.ok, hadd.profile, hadv⟩

theorem validateMemory_spec
    (h : validateMemory ctx r = .ok (ctx', r')) : Defines src .memory ctx ctx' r r' := by
  simp only [validateMemory, bind_eq_ok, orFail_eq_ok, Prod.exists] at h
  obtain ⟨type, r1, htype, c, hc, hout⟩ := h
  cases hout
  have hadd := appendMemory_ok hok (readMemoryType_ok htype false) hc
  exact ⟨hadd.ok, hadd.profile, readMemoryType_adv (.refl r) _ _ htype⟩

theorem validateTag_spec (h : validateTag ctx r = .ok (ctx', r')) :
    Defines src .tag ctx ctx' r r' := by
  simp only [validateTag, bind_eq_ok, orFail_eq_ok, Prod.exists] at h
  obtain ⟨type, r1, htype, c, hc, hout⟩ := h
  cases hout
  have hadd := appendTag_ok hok hc
  exact ⟨hadd.ok, hadd.profile, readTagType_adv ctx r _ _ htype⟩

theorem validateGlobal_spec (hr : r.Within src)
    (h : validateGlobal H ctx r = .ok (ctx', r')) : Defines src .global ctx ctx' r r' := by
  simp only [validateGlobal, bind_eq_ok, orFail_eq_ok, Prod.exists] at h
  obtain ⟨type, m, r1, htype, t, span, c, r2, hconst, -, -, c', hc', hout⟩ := h
  cases hout
  obtain ⟨hval, hadv⟩ := readGlobaltype_spec hok htype
  obtain ⟨hrefs, hadv', hspan, -⟩ := validateConstExpr_spec (hr.of_advances hadv) hconst
  have hadd := appendGlobal_ok (hrefs.contextOk hok) (hrefs.shape ▸ hval) hspan hc'
  exact ⟨hadd.ok, hrefs.profile ▸ hadd.profile, hadv.trans hadv'⟩

end

variable {n : Nat} {items : List ElementItem}

theorem declareExport_onlyRefs (h : declareExport ctx kind i = .ok ctx') : OnlyRefs ctx ctx' := by
  rcases ite_cases h with ⟨-, h⟩ | ⟨-, h⟩
  · exact declareFunctionRef_onlyRefs (orFail_eq_ok.mp h)
  · cases h
    exact .refl _

/-- The export of an item that the summary counts. -/
theorem validateExport_spec (hok : ContextOk src ctx) (hr : r.Within src)
    (hcount : ∀ k i, exportIndexValid s i k → i < ctx.shape.count k)
    (h : validateExport s ctx r = .ok (ctx', r')) : ContextOk src ctx' ∧
      ctx'.profile = { ctx.profile with exports := ctx.profile.exports + 1 } ∧ r.Advances r' := by
  simp only [validateExport, bind_eq_ok, orFail_eq_ok, failIf_eq_ok, Bool.not_eq_false',
    Prod.exists] at h
  obtain ⟨name, r1, hname, -, hnew, byte, r2, hbyte, i, r3, hi, kind, -, -, hvalid, c, hc, c', hc',
    hout⟩ := h
  cases hout
  have hadv := readName_adv (r := r) name r1 hname
  have hd : ExportOk src ctx.shape ⟨name, kind, i⟩ :=
    ⟨readName_ok hr.1 hname, hcount kind i hvalid⟩
  obtain ⟨hok', hprof, -⟩ := appendExport_ok hok hd hnew hc
  have hrefs := declareExport_onlyRefs hc'
  exact ⟨hrefs.contextOk hok', hrefs.profile ▸ hprof,
    (hadv.trans (u8_adv r1 byte r2 hbyte)).trans (uleb32_adv r2 i _ hi)⟩

/-! ### Element segments -/

theorem readTableIndex_spec (h : readTableIndex flags r = .ok (i, r')) :
    i ≤ uint32Max ∧ (¬ (flags = 2 ∨ flags = 6) → i = 0) ∧ r.Advances r' := by
  rcases ite_cases h with ⟨hf, h⟩ | ⟨-, h⟩
  · have h := orFail_eq_ok.mp h
    exact ⟨uleb32_le h, absurd hf, uleb32_adv r i _ h⟩
  · cases h
    exact ⟨Nat.zero_le _, fun _ => rfl, .refl _⟩

theorem readElementOffset_spec (hr : r.Within src)
    (h : readElementOffset H ctx flags tableIndex r = .ok (offset, ctx', r')) :
    OnlyRefs ctx ctx' ∧ SpanOk src offset.span ∧ r.Advances r' ∧
      (elementActive flags → tableIndex < ctx.tables.length) := by
  rcases ite_cases h with ⟨-, h⟩ | ⟨hno, h⟩
  · simp only [bind_eq_ok, orFail_eq_ok, Prod.exists] at h
    obtain ⟨type, span, c, r1, hconst, table, htable, -, -, hout⟩ := h
    cases hout
    obtain ⟨hrefs, hadv, hspan, -⟩ := validateConstExpr_spec hr hconst
    rw [hrefs.eq] at htable
    exact ⟨hrefs, hspan, hadv, fun _ => lt_of_getElem? htable⟩
  · cases h
    exact ⟨.refl _, spanOk_zero, .refl _, fun ha => absurd ha hno⟩

theorem valueTypeLegacy_func_ok (n : Bool) (z : Shape) :
    ValueOk z { valueTypeLegacy 0x70 with nullable := n } :=
  ⟨.heap n .func 0x70 uint32Max rfl, le_rfl⟩

theorem readElementType_spec (hok : ContextOk src ctx)
    (h : readElementType ctx flags r = .ok (type, r')) :
    ValueOk ctx.shape type ∧ r.Advances r' := by
  rcases ite_cases h with ⟨-, h⟩ | ⟨-, h⟩
  · cases h
    exact ⟨valueTypeLegacy_func_ok false _, .refl _⟩
  rcases ite_cases h with ⟨-, h⟩ | ⟨-, h⟩
  · simp only [readElemkind, bind_eq_ok, orFail_eq_ok, Prod.exists] at h
    obtain ⟨b, s, hb, -, -, hout⟩ := h
    cases hout
    exact ⟨valueTypeLegacy_func_ok false _, u8_adv r b _ hb⟩
  rcases ite_cases h with ⟨-, h⟩ | ⟨-, h⟩
  · cases h
    exact ⟨valueTypeLegacy_func_ok true _, .refl _⟩
  · simp only [readElemReftype, bind_eq_ok, Prod.exists] at h
    obtain ⟨t, s, ht, -, -, hout⟩ := h
    cases hout
    exact ⟨readReftype_ok hok ht, readReftype_adv (.refl r) _ _ _ ht⟩

/-- The items of an element segment, and how many they are. -/
structure ItemsOk (src : List UInt8) (n : Nat) (items : List ElementItem)
    (ctx ctx' : ValidationContext) (r r' : Reader) : Prop where
  refs : OnlyRefs ctx ctx'
  length : items.length = n
  items : ∀ i ∈ items, ItemOk src ctx.shape i
  advances : r.Advances r'

theorem ItemsOk.nil (ctx : ValidationContext) (r : Reader) : ItemsOk src 0 [] ctx ctx r r :=
  ⟨.refl ctx, rfl, by simp, .refl r⟩

theorem ItemsOk.cons (hc : OnlyRefs ctx c) (hs : r.Advances s)
    (hitem : ItemOk src ctx.shape item) (h : ItemsOk src n items c ctx' s r') :
    ItemsOk src (n + 1) (item :: items) ctx ctx' r r' :=
  ⟨hc.trans h.refs, by rw [length_cons, h.length],
    forall_mem_cons.mpr ⟨hitem, hc.shape ▸ h.items⟩, hs.trans h.advances⟩

theorem readFuncidxItems_spec : ∀ {n : Nat} {ctx : ValidationContext} {r : Reader}
    {items : List ElementItem}, readFuncidxItems n ctx r = .ok (items, ctx', r') →
    ItemsOk src n items ctx ctx' r r'
  | 0, _, _, _, h => by
    cases h
    exact .nil _ _
  | n + 1, ctx, r, items, h => by
    simp only [readFuncidxItems, bind_eq_ok, orFail_eq_ok, failIf_eq_ok,
      decide_eq_false_iff_not, not_le, Prod.exists] at h
    obtain ⟨i, r1, hi, -, hlt, c, hc, rest, c', r2, hrest, hout⟩ := h
    cases hout
    refine .cons (declareFunctionRef_onlyRefs hc) (uleb32_adv r i r1 hi) ?_
      (readFuncidxItems_spec hrest)
    exact ⟨by rw [IndexOk, if_pos rfl]; exact hlt, uleb32_le hi, spanOk_zero⟩

theorem readExprItems_spec : ∀ {n : Nat} {ctx : ValidationContext}
    {r : Reader} {items : List ElementItem}, r.Within src →
    readExprItems H type n ctx r = .ok (items, ctx', r') → ItemsOk src n items ctx ctx' r r'
  | 0, _, _, _, _, h => by
    cases h
    exact .nil _ _
  | n + 1, ctx, r, items, hr, h => by
    simp only [readExprItems, bind_eq_ok, Prod.exists] at h
    obtain ⟨t, span, c, r1, hconst, -, -, rest, c', r2, hrest, hout⟩ := h
    cases hout
    obtain ⟨hrefs, hadv, hspan, -⟩ := validateConstExpr_spec hr hconst
    refine .cons hrefs hadv ?_ (readExprItems_spec (hr.of_advances hadv) hrest)
    exact ⟨by rw [IndexOk, if_neg nofun], Nat.zero_le _, hspan⟩

theorem readElementItems_spec
    (hr : r.Within src) (h : readElementItems H ctx flags type r = .ok (items, ctx', r')) :
    ∃ n ≤ uint32Max, ItemsOk src n items ctx ctx' r r' := by
  simp only [readElementItems, bind_eq_ok, orFail_eq_ok, Prod.exists] at h
  obtain ⟨n, s, hn, h⟩ := h
  have hadv := uleb32_adv r n s hn
  have hitems : ItemsOk src n items ctx ctx' s r' := by
    rcases ite_cases h with ⟨-, h⟩ | ⟨-, h⟩
    · exact readExprItems_spec (hr.of_advances hadv) h
    · exact readFuncidxItems_spec h
  exact ⟨n, uleb32_le hn, { hitems with advances := hadv.trans hitems.advances }⟩

theorem elementMode_table (hzero : ¬ (flags = 2 ∨ flags = 6) → i = 0)
    (hactive : elementActive flags → i < n) : IndexOk (elementMode flags = .active) i n 0 := by
  unfold IndexOk elementMode
  by_cases ha : elementActive flags
  · rw [if_pos (by rw [if_pos ha])]
    exact hactive ha
  have hmode : ¬ (if elementActive flags then SegmentMode.active
      else if flags = 3 ∨ flags = 7 then .declarative else .passive) = .active := by
    rw [if_neg ha]
    split <;> nofun
  rw [if_neg hmode]
  refine hzero fun hf => ha ?_
  rcases hf with rfl | rfl <;> rfl

theorem validateElement_spec (hok : ContextOk src ctx) (hr : r.Within src)
    (h : validateElement H ctx r = .ok (ctx', r')) : ContextOk src ctx' ∧
      ctx'.profile = { ctx.profile with elementSegments := ctx.profile.elementSegments + 1 } ∧
      r.Advances r' := by
  simp only [validateElement, bind_eq_ok, orFail_eq_ok, Prod.exists] at h
  obtain ⟨flags, r1, hflags, -, -, tableIndex, r2, htable, offset, c1, r3, hoff, type, r4, htype,
    -, -, items, c2, r5, hitems, c3, hc3, hout⟩ := h
  cases hout
  obtain ⟨hbound, hzero, hadv2⟩ := readTableIndex_spec htable
  have hadv2 := (uleb32_adv r flags r1 hflags).trans hadv2
  obtain ⟨hrefs, hspan, hadv3, hactive⟩ := readElementOffset_spec (hr.of_advances hadv2) hoff
  have hadv3 := hadv2.trans hadv3
  have hok1 := hrefs.contextOk hok
  obtain ⟨hval, hadv4⟩ := readElementType_spec hok1 htype
  have hadv4 := hadv3.trans hadv4
  obtain ⟨n, hn, hi⟩ := readElementItems_spec (hr.of_advances hadv4) hitems
  have hshape : c2.shape = ctx.shape := hi.refs.shape.trans hrefs.shape
  have hseg : ElementOk src c2.shape ⟨elementMode flags, tableIndex, type, offset, items⟩ :=
    ⟨hshape ▸ elementMode_table hzero hactive, hbound, hi.refs.shape ▸ hval, hspan,
      hi.length ▸ hn, hi.refs.shape ▸ hi.items⟩
  obtain ⟨hok', hprof⟩ := appendElementSegment_ok (hi.refs.contextOk hok1) hseg hc3
  rw [hi.refs.profile, hrefs.profile] at hprof
  exact ⟨hok', hprof, hadv4.trans hi.advances⟩

/-! ### Data segments -/

theorem readMemoryOffset_spec (hr : r.Within src)
    (h : readMemoryOffset H ctx i r = .ok (offset, ctx', r')) :
    OnlyRefs ctx ctx' ∧ SpanOk src offset.span ∧ r.Advances r' ∧ i < ctx.memories.length := by
  simp only [readMemoryOffset, bind_eq_ok, failIf_eq_ok, decide_eq_false_iff_not, not_le,
    Prod.exists] at h
  obtain ⟨-, hlt, type, span, c, r1, hconst, memory, -, -, -, hout⟩ := h
  cases hout
  obtain ⟨hrefs, hadv, hspan, -⟩ := validateConstExpr_spec hr hconst
  exact ⟨hrefs, hspan, hadv, hlt⟩

theorem readDataMode_spec (hr : r.Within src)
    (h : readDataMode H ctx flag r = .ok ((mode, i, offset), ctx', r')) :
    OnlyRefs ctx ctx' ∧ SpanOk src offset.span ∧ r.Advances r' ∧ i ≤ uint32Max ∧
      IndexOk (mode = .active) i ctx.memories.length 0 := by
  rcases ite_cases h with ⟨-, h⟩ | ⟨-, h⟩
  · simp only [bind_eq_ok, Prod.exists] at h
    obtain ⟨o, c, s, ho, hout⟩ := h
    cases hout
    obtain ⟨hrefs, hspan, hadv, hlt⟩ := readMemoryOffset_spec hr ho
    exact ⟨hrefs, hspan, hadv, Nat.zero_le _, by rw [IndexOk, if_pos rfl]; exact hlt⟩
  rcases ite_cases h with ⟨-, h⟩ | ⟨-, h⟩
  · cases h
    exact ⟨.refl _, spanOk_zero, .refl _, Nat.zero_le _, by rw [IndexOk, if_neg nofun]⟩
  rcases ite_cases h with ⟨-, h⟩ | ⟨-, h⟩
  · simp only [bind_eq_ok, orFail_eq_ok, Prod.exists] at h
    obtain ⟨j, s, hj, o, c, s', ho, hout⟩ := h
    cases hout
    have hadv := uleb32_adv r _ s hj
    obtain ⟨hrefs, hspan, hadv', hlt⟩ := readMemoryOffset_spec (hr.of_advances hadv) ho
    exact ⟨hrefs, hspan, hadv.trans hadv', uleb32_le hj,
      by rw [IndexOk, if_pos rfl]; exact hlt⟩
  · cases h

theorem validateData_spec (hok : ContextOk src ctx) (hr : r.Within src)
    (h : validateData H ctx r = .ok (ctx', r')) :
    ContextOk src ctx' ∧ ctx'.functions = ctx.functions ∧
      ctx'.profile = { ctx.profile with dataSegments := ctx.profile.dataSegments + 1 } ∧
      r.Advances r' := by
  simp only [validateData, bind_eq_ok, orFail_eq_ok, Prod.exists] at h
  obtain ⟨flag, r1, hflag, mode, i, offset, c, r2, hmode, size, r3, hsize, bytes, r4, hbytes, c',
    hc', hout⟩ := h
  cases hout
  have hadv1 := uleb32_adv r flag r1 hflag
  obtain ⟨hrefs, hspan, hadv2, hle, hindex⟩ := readDataMode_spec (hr.of_advances hadv1) hmode
  have hadv3 := (hadv1.trans hadv2).trans (uleb32_adv r2 size r3 hsize)
  obtain ⟨-, hlen, ⟨hend, -⟩, -⟩ := (hr.of_advances hadv3).1.of_slice hbytes
  have hdata : SpanOk src ⟨some bytes.cursor, size⟩ :=
    spanOk_some (hlen ▸ hend) (uleb32_le hsize)
  have hseg : DataOk src c.shape ⟨mode, i, offset, ⟨some bytes.cursor, size⟩⟩ :=
    ⟨hrefs.shape ▸ hindex, hle, hspan, hdata⟩
  obtain ⟨hok', hprof⟩ := appendDataSegment_ok (hrefs.contextOk hok) hseg hc'
  refine ⟨hok', ?_, hrefs.profile ▸ hprof, hadv3.trans (slice_adv r3 size bytes _ hbytes)⟩
  rcases ite_cases hc' with ⟨-, hc'⟩ | ⟨-, hc'⟩ <;> cases hc'
  show c.functions = ctx.functions
  rw [hrefs.eq]

/-! ### Bodies -/

theorem ContextOk.params (hok : ContextOk src ctx) {type : FuncType}
    (h : ctx.types[i]? = some type) :
    type.params.length ≤ uint32Max ∧ ∀ v ∈ type.params, ValueOk ctx.shape v := by
  have ht := hok.typeRecords type (mem_of_getElem? h)
  refine ⟨ht.paramCount, fun v hv => ?_⟩
  have hmem : v ∈ type.values := FuncType.mem_values.mpr (.inl hv)
  exact ⟨hok.types.value h hmem, ht.index v hmem⟩

/-- **A body that the validator accepts** becomes the code of its function, which had none. -/
theorem validateFunctionBody_spec {body : Reader} (hok : ContextOk src ctx)
    (hr : body.Within src) (h : validateFunctionBody H ctx i body = .ok ctx') :
    ContextOk src ctx' ∧ ctx'.profile = ctx.profile ∧ i < ctx.functions.length ∧ ∃ f,
      ctx'.functions = ctx.functions.set i f ∧ f.code.start.isSome := by
  simp only [validateFunctionBody, bind_eq_ok, orFail_eq_ok, failIf_eq_ok, Prod.exists] at h
  obtain ⟨type, htype, f, hf, -, himp, locals, code, hlocals, -, hsize, stack, controls, -, st,
    hloop, -, -, hout⟩ := h
  cases hout
  have hfok := hok.records.functions f (mem_of_getElem? hf)
  have htype' : ctx.types[f.typeIndex]? = some type := by
    simpa [functionType, hf] using htype
  obtain ⟨hlen, hvals, hadv⟩ := readLocals_ok hok (hok.params htype') hlocals
  have hcode := hr.of_advances hadv
  have hanns : AnnotationsOk ctx.shape f.annotations := ⟨hfok.controlCount, hfok.controls⟩
  have hanns : AnnotationsOk ctx.shape st.annotations := validateLoop_ok hanns hloop
  have himp' : f.imported = false := by simpa using (Bool.or_eq_false_iff.mp himp).2
  let g : ValidationFunction := { f with
    locals, code := ⟨some code.cursor, code.remaining⟩, annotations := st.annotations }
  have hnew : FunctionOk src ctx.shape g := by
    refine ⟨hfok.type, hvals, hlen, spanOk_some hcode.1.1 hcode.2, hanns.1, hanns.2,
      fun hi => ?_⟩
    rw [himp'] at hi
    cases hi
  have hz : ctx.shape.Le ({ ctx with functions := ctx.functions.set i g } : ValidationContext).shape :=
    ⟨rfl, rfl, fun k => by cases k <;> simp [Shape.count, shape]⟩
  refine ⟨{ hok with
    records := { hok.records.mono hz with
      functions := forall_mem_set (hok.records.mono hz).functions (hnew.mono hz)
      functionCount := by rw [length_set]; exact hok.records.functionCount }
    declaredRefs := by rw [length_set]; exact hok.declaredRefs }, ?_, lt_of_getElem? hf, _,
    rfl, rfl⟩
  have hflags : (ctx.functions.set i g).map ValidationFunction.imported =
      ctx.functions.map ValidationFunction.imported := by
    have hget : (ctx.functions.map ValidationFunction.imported)[i]? = some g.imported := by simp [hf, g]
    obtain ⟨hi, heq⟩ := List.getElem?_eq_some_iff.mp hget
    rw [map_set, ← heq, set_getElem_self]
  simp only [profile, g, hflags]

/-- The function has a body. -/
def HasCode (ctx : ValidationContext) (i : Nat) : Prop :=
  ∃ f, ctx.functions[i]? = some f ∧ f.code.start.isSome

theorem HasCode.set {j : Nat} {f : ValidationFunction} (hj : HasCode ctx j)
    (hf : f.code.start.isSome) (h : ctx'.functions = ctx.functions.set i f) : HasCode ctx' j := by
  obtain ⟨g, hg, hcode⟩ := hj
  by_cases hij : i = j
  · subst hij
    refine ⟨f, ?_, hf⟩
    rw [h, getElem?_set_self (lt_of_getElem? hg)]
  · refine ⟨g, ?_, hcode⟩
    rwa [h, getElem?_set_ne hij]

theorem validateBodies_spec : ∀ {n i : Nat} {ctx : ValidationContext} {r : Reader},
    ContextOk src ctx → r.Within src → validateBodies H n i ctx r = .ok (ctx', r') →
    ContextOk src ctx' ∧ ctx'.profile = ctx.profile ∧ (∀ j, HasCode ctx j → HasCode ctx' j) ∧
      ∀ j, i ≤ j → j < i + n → HasCode ctx' j
  | 0, i, ctx, r, hok, _, h => by
    cases h
    exact ⟨hok, rfl, fun _ hj => hj, fun j hle hlt => absurd hlt (not_lt.mpr hle)⟩
  | n + 1, i, ctx, r, hok, hr, h => by
    simp only [validateBodies, bind_eq_ok, orFail_eq_ok, Prod.exists] at h
    obtain ⟨size, r1, hsize, body, r2, hbody, c, hc, h⟩ := h
    obtain ⟨hsub, hr2⟩ := (hr.of_advances (uleb32_adv r size r1 hsize)).of_slice hbody
    obtain ⟨hok1, hprof, hlt, f, hset, hcode⟩ := validateFunctionBody_spec hok hsub hc
    obtain ⟨hok', hprof', hkeep, hnew⟩ := validateBodies_spec hok1 hr2 h
    refine ⟨hok', hprof'.trans hprof, fun j hj => hkeep j (hj.set hcode hset), fun j hle hlt' => ?_⟩
    rcases Nat.eq_or_lt_of_le hle with rfl | hgt
    · refine hkeep i ⟨f, ?_, hcode⟩
      rw [hset, getElem?_set_self hlt]
    · exact hnew j hgt (by omega)

end Items

/-! ## 4. Imports -/

namespace ModuleSummary

/-- The number of imported items of a kind. -/
def imported (s : ModuleSummary) : ExternalKind → Nat
  | .function => s.importedFunctionCount
  | .table => s.importedTableCount
  | .memory => s.importedMemoryCount
  | .global => s.importedGlobalCount
  | .tag => s.importedTagCount

/-- The number of items of a kind that the module defines itself. -/
def defined (s : ModuleSummary) : ExternalKind → Nat
  | .function => s.functionCount
  | .table => s.tableCount
  | .memory => s.memoryCount
  | .global => s.globalCount
  | .tag => s.tagCount

/-- One more imported item. -/
def addImport (s : ModuleSummary) : ExternalKind → ModuleSummary
  | .function => { s with importedFunctionCount := s.importedFunctionCount + 1 }
  | .table => { s with importedTableCount := s.importedTableCount + 1 }
  | .memory => { s with importedMemoryCount := s.importedMemoryCount + 1 }
  | .global => { s with importedGlobalCount := s.importedGlobalCount + 1 }
  | .tag => { s with importedTagCount := s.importedTagCount + 1 }

/-- The number of defined items, once their section is read. -/
def setDefined (s : ModuleSummary) (k : ExternalKind) (n : Nat) : ModuleSummary :=
  match k with
  | .function => { s with functionCount := n }
  | .table => { s with tableCount := n }
  | .memory => { s with memoryCount := n }
  | .global => { s with globalCount := n }
  | .tag => { s with tagCount := n }

theorem defined_addImport (s : ModuleSummary) (k j : ExternalKind) :
    (s.addImport k).defined j = s.defined j := by
  cases k <;> cases j <;> rfl

end ModuleSummary

section Imports

variable {src : List UInt8} {v v' : ValidationState} {r r' : Reader}

/-- What the description of an import does. -/
structure ImportsItem (src : List UInt8) (v v' : ValidationState) (kind : ExternalKind)
    (item typeIndex : Nat) (r r' : Reader) : Prop where
  ok : ContextOk src v'.context
  noRefs : v'.context.declaredRefs = []
  summary : v'.summary = v.summary.addImport kind
  profile : v'.context.profile = v.context.profile.addItems kind [true]
  imports : v'.context.imports = v.context.imports
  item : item = v.summary.imported kind
  type : IndexOk (kind = .function ∨ kind = .tag) typeIndex v.context.types.length uint32Max
  advances : r.Advances r'

theorem ImportsItem.of_adds
    (hnone : v.context.declaredRefs = []) (h : Adds src kind true v.context c)
    (htype : IndexOk (kind = .function ∨ kind = .tag) typeIndex v.context.types.length uint32Max)
    (hadv : r.Advances r') : ImportsItem src v ⟨v.summary.addImport kind, c⟩ kind
      (v.summary.imported kind) typeIndex r r' :=
  ⟨h.ok, h.refs.trans hnone, rfl, h.profile, h.imports, rfl, htype, hadv⟩

theorem importItem_spec (hok : ContextOk src v.context) (hnone : v.context.declaredRefs = []) :
    ∀ {kind : ExternalKind}, importItem v r kind = .ok ((v', item, typeIndex), r') →
    ImportsItem src v v' kind item typeIndex r r'
  | .function, h => by
    simp only [importItem, bind_eq_ok, orFail_eq_ok, Prod.exists] at h
    obtain ⟨i, s, hi, c, hc, hout⟩ := h
    cases hout
    refine .of_adds hnone (appendFunction_ok hok hnone hc) ?_ (readFunctionType_adv v r _ _ hi)
    rcases ite_cases hc with ⟨-, hc⟩ | ⟨hlt, -⟩
    · cases hc
    · exact not_le.mp (not_or.mp hlt).1
  | .table, h => by
    simp only [importItem, bind_eq_ok, orFail_eq_ok, Prod.exists] at h
    obtain ⟨type, limits, s, htype, c, hc, hout⟩ := h
    cases hout
    obtain ⟨hval, hlim, hadv⟩ := readTableType_spec hok htype
    exact .of_adds hnone (appendTable_ok hok hval hlim spanOk_zero hc) rfl hadv
  | .memory, h => by
    simp only [importItem, bind_eq_ok, orFail_eq_ok, Prod.exists] at h
    obtain ⟨type, s, htype, c, hc, hout⟩ := h
    cases hout
    exact .of_adds hnone (appendMemory_ok hok (readMemoryType_ok htype true) hc) rfl
      (readMemoryType_adv (.refl r) _ _ htype)
  | .global, h => by
    simp only [importItem, bind_eq_ok, orFail_eq_ok, Prod.exists] at h
    obtain ⟨type, m, s, htype, c, hc, hout⟩ := h
    cases hout
    obtain ⟨hval, hadv⟩ := readGlobaltype_spec hok htype
    exact .of_adds hnone (appendGlobal_ok hok hval spanOk_zero hc) rfl hadv
  | .tag, h => by
    simp only [importItem, bind_eq_ok, orFail_eq_ok, Prod.exists] at h
    obtain ⟨i, s, hi, c, hc, hout⟩ := h
    cases hout
    refine .of_adds hnone (appendTag_ok hok hc) ?_ (readTagType_adv _ r _ _ hi)
    simp only [readTagType, bind_eq_ok, Prod.exists] at hi
    obtain ⟨_, _, -, j, _, -, -, -, type, htype, -, -, hout⟩ := hi
    cases hout
    exact lt_of_getElem? (functionTypeAt_lt htype)

theorem Profile.types_addItems (p : Profile) (k : ExternalKind) (flags : List Bool) :
    (p.addItems k flags).types = p.types := by
  cases k <;> rfl

/-- **One import**: its item is the next of its kind. -/
theorem validateImport_spec (hok : ContextOk src v.context) (hr : r.Within src)
    (hnone : v.context.declaredRefs = [])
    (hitems : ∀ k, v.context.profile.items k = List.replicate (v.summary.imported k) true)
    (h : validateImport v r = .ok (v', r')) : ∃ kind,
    ContextOk src v'.context ∧ v'.context.declaredRefs = [] ∧
      v'.summary = v.summary.addImport kind ∧
      v'.context.profile = { v.context.profile.addItems kind [true] with
        imports := (v.context.profile.addItems kind [true]).imports + 1 } ∧ r.Advances r' := by
  simp only [validateImport, bind_eq_ok, orFail_eq_ok, Prod.exists] at h
  obtain ⟨moduleName, r1, hm, name, r2, hn, byte, r3, hb, kind, -, v1, item, typeIndex, r4, hi, c,
    hc, hout⟩ := h
  cases hout
  have hadv1 := readName_adv (r := r) moduleName r1 hm
  have hadv2 := hadv1.trans (readName_adv (r := r1) name r2 hn)
  have himp := importItem_spec hok hnone hi
  have hcount : item < v1.context.shape.count kind := by
    rw [count_shape, himp.profile, Profile.items_addItems, if_pos rfl, hitems,
      himp.item, length_append, length_replicate]
    exact Nat.lt_succ_self _
  have htypes : v1.context.types.length = v.context.types.length := by
    have := congrArg Profile.types himp.profile
    rwa [Profile.types_addItems] at this
  have hd : ImportOk src v1.context.shape ⟨moduleName, name, kind, item, typeIndex⟩ :=
    ⟨readName_ok hr.1 hm, readName_ok (hr.of_advances hadv1).1 hn, hcount, htypes ▸ himp.type⟩
  have hnew : (kind, item) ∉ v1.context.imports.map fun d => (d.kind, d.itemIndex) := fun hm => by
    obtain ⟨e, he, heq⟩ := mem_map.mp (himp.imports ▸ hm)
    obtain ⟨rfl, rfl⟩ := Prod.mk.inj heq
    have hlt := (hok.records.imports e he).item
    rw [count_shape, hitems, length_replicate, ← himp.item] at hlt
    exact lt_irrefl _ hlt
  obtain ⟨hok', hprof, hsame⟩ := appendImport_ok himp.ok hd hnew hc
  refine ⟨kind, hok', hsame.trans himp.noRefs, himp.summary, ?_,
    (hadv2.trans (u8_adv r2 byte r3 hb)).trans himp.advances⟩
  rw [hprof, himp.profile]

end Imports

end TurboWasm
