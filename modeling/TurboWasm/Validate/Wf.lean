/-
# Well-formed contexts

What the validator guarantees about every record it keeps (`ContextOk`): value types are bound to
the context's own types, spans lie in the bytes of the module, indices are below the counts they
index, and what has to fit 32 or 64 bits does.  Each item that a section appends is such a record
(sections 4 to 6).
-/
import TurboWasm.Types.Section
import TurboWasm.Validate.Advance

namespace TurboWasm

open List Prod Reader

namespace Reader

/-! ## 1. Where a reader is in the module -/

variable {src : List UInt8} {r s : Reader} {n : Nat}

/-- The bytes ahead of the reader are those of the module at its cursor. -/
def Reads (src : List UInt8) (r : Reader) : Prop :=
  r.cursor + r.rest.length ≤ src.length ∧ r.rest = (src.drop r.cursor).take r.rest.length

theorem Reads.of_advances (h : r.Reads src) (hs : r.Advances s) : s.Reads src := by
  obtain ⟨k, hk, rfl⟩ := hs
  obtain ⟨hlen, hrest⟩ := h
  refine ⟨by simp only [length_drop]; omega, ?_⟩
  show r.rest.drop k = (src.drop (r.cursor + k)).take (r.rest.drop k).length
  rw [length_drop, ← drop_drop, ← drop_take, ← hrest]

/-- A sub-reader is in the module too. -/
theorem Reads.of_slice (h : r.Reads src) (hs : r.slice n = some (sub, s)) :
    sub.cursor = r.cursor ∧ sub.rest.length = n ∧ sub.Reads src ∧ s.Reads src := by
  have hs' : s.Reads src := h.of_advances (slice_adv r n sub s hs)
  obtain ⟨hlen, hrest⟩ := h
  unfold slice remaining at hs
  split at hs
  · cases hs
  cases hs
  refine ⟨rfl, by simp only [length_take]; omega, ⟨?_, ?_⟩, hs'⟩
  · simp only [length_take]
    omega
  · show r.rest.take n = (src.drop r.cursor).take (r.rest.take n).length
    conv_lhs => rw [hrest]
    rw [take_take, length_take]

/-- A reader in a section, which has at most `UINT32_MAX` bytes. -/
def Within (src : List UInt8) (r : Reader) : Prop := r.Reads src ∧ r.remaining ≤ uint32Max

theorem Within.of_advances (h : r.Within src) (hs : r.Advances s) : s.Within src :=
  ⟨h.1.of_advances hs, hs.remaining.trans h.2⟩

theorem Within.of_slice (h : r.Within src)
    (hs : r.slice n = some (sub, s)) : sub.Within src ∧ s.Within src := by
  obtain ⟨-, hlen, hsub, -⟩ := h.1.of_slice hs
  refine ⟨⟨hsub, ?_⟩, h.of_advances (slice_adv r n sub s hs)⟩
  unfold slice at hs
  split at hs
  · cases hs
  · have := h.2
    unfold remaining at *
    omega

end Reader

/-! ## 2. The records of a context -/

/-- What the records of a context are checked against: its types and its counts. -/
structure Shape where
  addr : Nat
  types : List FuncType
  functions : Nat
  tables : Nat
  memories : Nat
  globals : Nat
  tags : Nat

/-- The number of items of a kind. -/
def Shape.count (z : Shape) : ExternalKind → Nat
  | .function => z.functions
  | .table => z.tables
  | .memory => z.memories
  | .global => z.globals
  | .tag => z.tags

/-- The same types, and no fewer items. -/
structure Shape.Le (z z' : Shape) : Prop where
  addr : z'.addr = z.addr
  types : z'.types = z.types
  count : ∀ k, z.count k ≤ z'.count k

/-- The shape of a context. -/
def ValidationContext.shape (ctx : ValidationContext) : Shape where
  addr := ctx.addr
  types := ctx.types
  functions := ctx.functions.length
  tables := ctx.tables.length
  memories := ctx.memories.length
  globals := ctx.globals.length
  tags := ctx.tags.length

/-- An index that is used only sometimes: then it is below the count, otherwise it is `unused`. -/
def IndexOk (used : Prop) [Decidable used] (index count unused : Nat) : Prop :=
  if used then index < count else index = unused

theorem IndexOk.mono {used : Prop} [Decidable used] {index count count' unused : Nat}
    (h : IndexOk used index count unused) (hc : count ≤ count') :
    IndexOk used index count' unused := by
  unfold IndexOk at h ⊢
  split
  · rw [if_pos ‹used›] at h
    exact h.trans_le hc
  · rwa [if_neg ‹¬ used›] at h

section Records

variable (src : List UInt8) (z : Shape)

/-- A value type of the context, with an index that fits 32 bits even where it is not one. -/
structure ValueOk (v : ValueType) : Prop where
  wf : WfValue z.addr z.types v
  index : v.typeIndex ≤ uint32Max

/-- A span in the module's bytes, or `NULL` with size 0. -/
def SpanOk (s : Span) : Prop :=
  (s.start = none → s.size = 0) ∧ (∀ o, s.start = some o → o + s.size ≤ src.length) ∧
    s.size ≤ uint32Max

theorem spanOk_some {src : List UInt8} (h : start + size ≤ src.length)
    (hs : size ≤ uint32Max) : SpanOk src ⟨some start, size⟩ := by
  refine ⟨fun hno => ?_, fun o ho => ?_, hs⟩
  · cases hno
  · cases ho
    exact h

/-- A name is a slice of the module's bytes. -/
def NameOk (n : Name) : Prop :=
  ∃ o, n.start = some o ∧ o + n.bytes.length ≤ src.length ∧
    n.bytes = (src.drop o).take n.bytes.length ∧ n.bytes.length ≤ uint32Max

/-- An import names an item that exists; only functions and tags have a type index. -/
structure ImportOk (d : ImportDesc) : Prop where
  moduleName : NameOk src d.moduleName
  name : NameOk src d.name
  item : d.itemIndex < z.count d.kind
  type : IndexOk (d.kind = .function ∨ d.kind = .tag) d.typeIndex z.types.length uint32Max

/-- An export names an item that exists. -/
structure ExportOk (d : ExportDesc) : Prop where
  name : NameOk src d.name
  item : d.itemIndex < z.count d.kind

/-- A handler for a tag names one that exists; a handler for all tags has no index. -/
structure CatchOk (c : Catch) : Prop where
  tag : IndexOk (c.kind = .catchTag ∨ c.kind = .catchRef) c.tagIndex z.tags uint32Max
  tagBound : c.tagIndex ≤ uint32Max
  label : c.labelDepth ≤ uint32Max

/-- The record of a structured instruction. -/
structure AnnotationOk (a : Annotation) : Prop where
  opcodeOffset : a.opcodeOffset ≤ uint32Max
  bodyOffset : a.bodyOffset ≤ uint32Max
  elseOffset : a.elseOffset ≤ uint32Max
  endOffset : a.endOffset ≤ uint32Max
  type : a.typeIndex = uint32Max ∨ a.typeIndex < z.types.length
  catchCount : a.catches.length ≤ uint32Max
  catches : ∀ c ∈ a.catches, CatchOk z c

/-- A function; an imported one has no body. -/
structure FunctionOk (f : ValidationFunction) : Prop where
  type : f.typeIndex < z.types.length
  locals : ∀ v ∈ f.locals, ValueOk z v
  localCount : f.locals.length ≤ uint32Max
  code : SpanOk src f.code
  controlCount : f.annotations.length ≤ uint32Max
  controls : ∀ a ∈ f.annotations, AnnotationOk z a
  imported : f.imported → f.code.start = none

/-- A global; an imported one has no initializer, the others have one. -/
structure GlobalOk (g : ValidationGlobal) : Prop where
  type : ValueOk z g.semanticType
  initializer : SpanOk src g.initializer
  empty : g.initializer.start = none ↔ g.initializer.size = 0
  imported : g.imported → g.initializer.start = none

/-- The limits of a table. -/
structure LimitsOk (l : TableLimits) : Prop where
  minimum : l.minimum ≤ if l.table64 then uint64Max else uint32Max
  maximum : l.maximum ≤ if l.table64 then uint64Max else uint32Max
  ordered : l.hasMaximum → l.minimum ≤ l.maximum

/-- A table of references. -/
structure TableOk (t : ValidationTable) : Prop where
  type : ValueOk z t.semanticType
  reference : t.semanticType.isReference
  limits : LimitsOk t.limits
  initializer : SpanOk src t.initializer
  empty : t.initializer.start = none ↔ t.initializer.size = 0
  imported : t.imported → t.initializer.start = none

/-- A memory. -/
structure MemoryItemOk (m : ValidationMemory) : Prop where
  type : m.type.Valid
  shared : m.type.shared → m.type.limits.hasMaximum
  maximum : m.type.limits.maximum ≤ uint64Max

/-- A tag has a type without results. -/
structure TagOk (t : ValidationTag) : Prop where
  type : ∃ d, z.types[t.typeIndex]? = some d ∧ d.results = []

/-- A data segment; only an active one is for a memory. -/
structure DataOk (s : DataSegment) : Prop where
  memory : IndexOk (s.mode = .active) s.memoryIndex z.memories 0
  memoryBound : s.memoryIndex ≤ uint32Max
  offset : SpanOk src s.offset.span
  data : SpanOk src s.data

/-- An item of an element segment: a function, or an expression. -/
structure ItemOk (i : ElementItem) : Prop where
  function : IndexOk (i.kind = .functionIndex) i.functionIndex z.functions 0
  functionBound : i.functionIndex ≤ uint32Max
  expression : SpanOk src i.expression.span

/-- An element segment; only an active one is for a table. -/
structure ElementOk (s : ElementSegment) : Prop where
  table : IndexOk (s.mode = .active) s.tableIndex z.tables 0
  tableBound : s.tableIndex ≤ uint32Max
  type : ValueOk z s.semanticType
  offset : SpanOk src s.offset.span
  itemCount : s.items.length ≤ uint32Max
  items : ∀ i ∈ s.items, ItemOk src z i

/-- Every record of the context is as it should be for the types and counts `z`, and no array has
more than `UINT32_MAX` of them. -/
structure RecordsOk (ctx : ValidationContext) : Prop where
  imports : ∀ d ∈ ctx.imports, ImportOk src z d
  importCount : ctx.imports.length ≤ uint32Max
  exports : ∀ d ∈ ctx.exports, ExportOk src z d
  exportCount : ctx.exports.length ≤ uint32Max
  functions : ∀ f ∈ ctx.functions, FunctionOk src z f
  functionCount : ctx.functions.length ≤ uint32Max
  globals : ∀ g ∈ ctx.globals, GlobalOk src z g
  globalCount : ctx.globals.length ≤ uint32Max
  tables : ∀ t ∈ ctx.tables, TableOk src z t
  tableCount : ctx.tables.length ≤ uint32Max
  memories : ∀ m ∈ ctx.memories, MemoryItemOk m
  memoryCount : ctx.memories.length ≤ uint32Max
  tags : ∀ t ∈ ctx.tags, TagOk z t
  tagCount : ctx.tags.length ≤ uint32Max
  dataSegments : ∀ s ∈ ctx.dataSegments, DataOk src z s
  dataSegmentCount : ctx.dataSegments.length ≤ uint32Max
  elementSegments : ∀ s ∈ ctx.elementSegments, ElementOk src z s
  elementSegmentCount : ctx.elementSegments.length ≤ uint32Max

/-- **A well-formed context** of the module `src`. -/
structure ContextOk (ctx : ValidationContext) : Prop where
  types : FinalTypes ctx.addr ctx.types
  typeCount : ctx.types.length ≤ uint32Max
  typeRecords : ∀ t ∈ ctx.types, TypeOk t
  canonical : ∀ (i : Nat) (t : FuncType), ctx.types[i]? = some t →
    t.canonical = some ⟨ctx.addr, i⟩
  records : RecordsOk src ctx.shape ctx
  importItems : (ctx.imports.map fun d => (d.kind, d.itemIndex)).Nodup
  exportNames : (ctx.exports.map fun d => d.name.bytes).Nodup
  declaredRefs : ctx.declaredRefs = [] ∨ ctx.declaredRefs.length = ctx.functions.length

end Records

/-! ### More items change nothing -/

section Mono

variable {src : List UInt8} {z : Shape} (hz : z.Le z')

include hz

theorem ValueOk.mono {v : ValueType} (h : ValueOk z v) : ValueOk z' v :=
  ⟨hz.addr ▸ hz.types ▸ h.wf, h.index⟩

theorem ImportOk.mono {d : ImportDesc} (h : ImportOk src z d) : ImportOk src z' d :=
  { h with item := h.item.trans_le (hz.count _), type := hz.types ▸ h.type }

theorem ExportOk.mono {d : ExportDesc} (h : ExportOk src z d) : ExportOk src z' d :=
  { h with item := h.item.trans_le (hz.count _) }

theorem CatchOk.mono {c : Catch} (h : CatchOk z c) : CatchOk z' c :=
  { h with tag := h.tag.mono (hz.count .tag) }

theorem AnnotationOk.mono {a : Annotation} (h : AnnotationOk z a) : AnnotationOk z' a :=
  { h with type := hz.types ▸ h.type, catches := fun c hc => (h.catches c hc).mono hz }

theorem FunctionOk.mono {f : ValidationFunction} (h : FunctionOk src z f) : FunctionOk src z' f :=
  { h with
    type := hz.types ▸ h.type
    locals := fun v hv => (h.locals v hv).mono hz
    controls := fun a ha => (h.controls a ha).mono hz }

theorem GlobalOk.mono {g : ValidationGlobal} (h : GlobalOk src z g) : GlobalOk src z' g :=
  { h with type := h.type.mono hz }

theorem TableOk.mono {t : ValidationTable} (h : TableOk src z t) : TableOk src z' t :=
  { h with type := h.type.mono hz }

theorem TagOk.mono {t : ValidationTag} (h : TagOk z t) : TagOk z' t :=
  ⟨hz.types ▸ h.type⟩

theorem DataOk.mono {s : DataSegment} (h : DataOk src z s) : DataOk src z' s :=
  { h with memory := h.memory.mono (hz.count .memory) }

theorem ItemOk.mono {i : ElementItem} (h : ItemOk src z i) : ItemOk src z' i :=
  { h with function := h.function.mono (hz.count .function) }

theorem ElementOk.mono {s : ElementSegment} (h : ElementOk src z s) : ElementOk src z' s :=
  { h with
    table := h.table.mono (hz.count .table)
    type := h.type.mono hz
    items := fun i hi => (h.items i hi).mono hz }

theorem RecordsOk.mono {ctx : ValidationContext} (h : RecordsOk src z ctx) : RecordsOk src z' ctx :=
  { h with
    imports := fun d hd => (h.imports d hd).mono hz
    exports := fun d hd => (h.exports d hd).mono hz
    functions := fun f hf => (h.functions f hf).mono hz
    globals := fun g hg => (h.globals g hg).mono hz
    tables := fun t ht => (h.tables t ht).mono hz
    tags := fun t ht => (h.tags t ht).mono hz
    dataSegments := fun s hs => (h.dataSegments s hs).mono hz
    elementSegments := fun s hs => (h.elementSegments s hs).mono hz }

end Mono

/-! ## 3. What the readers of the sections answer -/

section Readers

variable {src : List UInt8} {r r' : Reader}
theorem readName_adv : Adv r (readName r) := by
  refine .read (.orFail (uleb32_adv r) (.refl r) _) fun size s hs => ?_
  exact .read (.orFail (slice_adv s size) hs _) fun bytes s hs => .skip fun _ => .pure hs _

theorem readName_ok {n : Name} (hr : r.Reads src) (h : readName r = .ok (n, r')) :
    NameOk src n := by
  simp only [readName, bind_eq_ok, orFail_eq_ok, Prod.exists] at h
  obtain ⟨size, s, hsize, bytes, t, hslice, -, -, hout⟩ := h
  cases hout
  obtain ⟨-, hlen, ⟨hle, heq⟩, -⟩ :=
    (hr.of_advances (uleb32_adv r size s hsize)).of_slice hslice
  exact ⟨bytes.cursor, rfl, hle, heq, hlen ▸ uleb32_le hsize⟩

variable {ctx : ValidationContext}

theorem readValtype_ok (hok : ContextOk src ctx)
    (h : readValtype r (some ctx.typeCtx) = .ok (t, r')) : ValueOk ctx.shape t :=
  ⟨readValtype_covers hok.types.covers _ h, (readValtype_covers (readValue_covers _) _ h).2⟩

theorem readReftype_ok (hok : ContextOk src ctx)
    (h : readReftype r (some ctx.typeCtx) = .ok (t, r')) : ValueOk ctx.shape t :=
  ⟨readReftype_covers hok.types.covers _ h, (readReftype_covers (readValue_covers _) _ h).2⟩

theorem readBound_le (h : readBound wide r = .ok (n, r')) :
    n ≤ if wide then uint64Max else uint32Max := by
  cases wide with
  | false => exact uleb32_le (orFail_eq_ok.mp h)
  | true => exact uleb64_le (orFail_eq_ok.mp h)

theorem readMaximum_bound {minimum : Nat} (h : readMaximum present wide minimum r = .ok (n, r')) :
    n ≤ if wide then uint64Max else uint32Max := by
  unfold readMaximum at h
  split at h
  · obtain ⟨⟨m, s⟩, hm, h⟩ := bind_eq_ok.mp h
    obtain ⟨-, -, hout⟩ := bind_eq_ok.mp h
    cases hout
    exact readBound_le hm
  · cases h
    exact Nat.zero_le _

theorem readLimits_ok (h : readLimits r = .ok (l, r')) : LimitsOk l := by
  simp only [readLimits, bind_eq_ok, Prod.exists] at h
  obtain ⟨flags, s, -, -, -, minimum, s', hmin, maximum, s'', hmax, hout⟩ := h
  cases hout
  exact ⟨readBound_le hmin, readMaximum_bound hmax, readMaximum_le hmax⟩

theorem readMemoryType_ok {t : MemoryType} (h : readMemoryType r = .ok (t, r'))
    (imported : Bool) : MemoryItemOk ⟨imported, t⟩ := by
  refine ⟨readMemoryType_valid h, ?_, ?_⟩ <;>
    simp only [readMemoryType, bind_eq_ok, failIf_eq_ok, Prod.exists] at h <;>
    obtain ⟨flags, s, -, -, -, -, hshared, minimum, s', -, maximum, s'', hmax, -, -, -, -, -,
      rfl, -⟩ := h
  · intro hsh
    have hsh' : (flags &&& 2 != 0) := hsh
    rw [hsh'] at hshared
    simpa using hshared
  · refine (readMaximum_bound hmax).trans ?_
    split <;> decide

end Readers

/-! ## 4. Constant expressions

A constant expression declares the functions it refers to and may ask for a store; nothing else of
the context changes. -/

/-- The contexts differ in the declared references and in `requires_store` at most. -/
structure OnlyRefs (ctx ctx' : ValidationContext) : Prop where
  eq : ctx' = { ctx with
    declaredRefs := ctx'.declaredRefs, requiresStore := ctx'.requiresStore }
  refs : ctx.declaredRefs = [] ∨ ctx.declaredRefs.length = ctx.functions.length →
    ctx'.declaredRefs = [] ∨ ctx'.declaredRefs.length = ctx'.functions.length

namespace OnlyRefs

variable {src : List UInt8} {ctx ctx' : ValidationContext}

theorem refl (ctx : ValidationContext) : OnlyRefs ctx ctx := ⟨rfl, id⟩

theorem trans (h : OnlyRefs ctx ctx') (h' : OnlyRefs ctx' ctx'') : OnlyRefs ctx ctx'' := by
  refine ⟨?_, fun hd => h'.refs (h.refs hd)⟩
  rw [h'.eq, h.eq]

theorem contextOk (h : OnlyRefs ctx ctx') (hok : ContextOk src ctx) : ContextOk src ctx' := by
  have hrefs := h.refs hok.declaredRefs
  rw [h.eq] at hrefs ⊢
  exact { hok with
    records := { hok.records with }
    declaredRefs := hrefs }

theorem shape (h : OnlyRefs ctx ctx') : ctx'.shape = ctx.shape := by
  rw [h.eq]
  rfl

end OnlyRefs

theorem declareFunctionRef_onlyRefs {ctx : ValidationContext}
    (h : ctx.declareFunctionRef i = some ctx') : OnlyRefs ctx ctx' := by
  unfold ValidationContext.declareFunctionRef at h
  split at h
  · cases h
  split at h
  · cases h
  cases h
  refine ⟨rfl, fun hd => .inr ?_⟩
  show (ctx.declaredBitmap.set i true).length = ctx.functions.length
  rw [length_set]
  unfold ValidationContext.declaredBitmap
  split
  · exact length_replicate
  · exact hd.resolve_left ‹_›

section Const

variable {r : Reader}
/-- The operators that only read an immediate and push. -/
theorem constRead_spec {α : Type} {x : Option (α × Reader)} (hx : AdvOpt r x) (h : (do
      let (_, r) ← orMalformed x
      let stack ← constPush stack type
      return (ctx, stack, r)) = .ok (ctx', stack', r')) :
    OnlyRefs ctx ctx' ∧ r.Advances r' := by
  simp only [bind_eq_ok, orFail_eq_ok, Prod.exists] at h
  obtain ⟨a, s, ha, st, -, hout⟩ := h
  cases hout
  exact ⟨.refl ctx, hx a _ ha⟩

theorem constBinary_spec {carrier : UInt8}
    (h : (do
      let stack ← constBinary H ctx stack carrier
      return (ctx, stack, r)) = .ok (ctx', stack', r')) :
    OnlyRefs ctx ctx' ∧ r.Advances r' := by
  obtain ⟨st, -, hout⟩ := bind_eq_ok.mp h
  cases hout
  exact ⟨.refl ctx, .refl r⟩

theorem constRefFunc_spec (h : constRefFunc ctx stack r = .ok (ctx', stack', r')) :
    OnlyRefs ctx ctx' ∧ r.Advances r' := by
  simp only [constRefFunc, bind_eq_ok, orFail_eq_ok, Prod.exists] at h
  obtain ⟨i, s, hi, f, -, c, hc, st, -, hout⟩ := h
  cases hout
  exact ⟨declareFunctionRef_onlyRefs hc, uleb32_adv r i _ hi⟩

theorem constInstruction_spec (h : constInstruction H ctx stack r opcode = .ok (ctx', stack', r')) :
    OnlyRefs ctx ctx' ∧ r.Advances r' := by
  rcases ite_cases h with ⟨-, h⟩ | ⟨-, h⟩
  · exact constRead_spec r.sleb32_adv h
  rcases ite_cases h with ⟨-, h⟩ | ⟨-, h⟩
  · exact constRead_spec r.sleb64_adv h
  rcases ite_cases h with ⟨-, h⟩ | ⟨-, h⟩
  · exact constRead_spec (Reader.slice_adv r 4) h
  rcases ite_cases h with ⟨-, h⟩ | ⟨-, h⟩
  · exact constRead_spec (r.slice_adv 8) h
  rcases ite_cases h with ⟨-, h⟩ | ⟨-, h⟩
  · exact constBinary_spec h
  rcases ite_cases h with ⟨-, h⟩ | ⟨-, h⟩
  · exact constBinary_spec h
  rcases ite_cases h with ⟨-, h⟩ | ⟨-, h⟩
  · -- `ref.null`
    simp only [bind_eq_ok, Prod.exists] at h
    obtain ⟨type, s, htype, -, -, st, -, hout⟩ := h
    cases hout
    exact ⟨.refl ctx, readHeaptype_adv (.refl r) _ type _ htype⟩
  rcases ite_cases h with ⟨-, h⟩ | ⟨-, h⟩
  · exact constRefFunc_spec h
  rcases ite_cases h with ⟨-, h⟩ | ⟨-, h⟩
  · -- `v128.const`
    simp only [bind_eq_ok, orFail_eq_ok, Prod.exists] at h
    obtain ⟨sub, s, hsub, -, -, bytes, s', hbytes, st, -, hout⟩ := h
    cases hout
    exact ⟨.refl ctx, (uleb32_adv r sub s hsub).trans (slice_adv s 16 bytes _ hbytes)⟩
  rcases ite_cases h with ⟨-, h⟩ | ⟨-, h⟩
  · -- the operators of the GC proposal
    simp only [bind_eq_ok, Prod.exists] at h
    obtain ⟨st, s, hgc, hout⟩ := h
    cases hout
    exact ⟨⟨rfl, id⟩, validateGcConstant_adv (.refl r) st _ hgc⟩
  rcases ite_cases h with ⟨-, h⟩ | ⟨-, h⟩
  · -- `global.get`
    simp only [bind_eq_ok, orFail_eq_ok, Prod.exists] at h
    obtain ⟨i, s, hi, g, -, -, -, st, -, hout⟩ := h
    cases hout
    exact ⟨.refl ctx, uleb32_adv r i _ hi⟩
  · cases h

theorem u8_cursor (h : r.u8 = some (b, r')) : r.Advances r' ∧ r.cursor < r'.cursor := by
  refine ⟨u8_adv r b r' h, ?_⟩
  unfold u8 at h
  split at h
  · cases h
  · cases h
    exact Nat.lt_succ_self _

theorem Reader.Advances.cursor_le {r s : Reader} (h : r.Advances s) : r.cursor ≤ s.cursor := by
  obtain ⟨k, -, rfl⟩ := h
  exact Nat.le_add_right _ _

/-- The loop reads at least the opcode that ends the expression. -/
theorem constLoop_spec : ∀ {fuel : Nat} {ctx : ValidationContext} {stack : List ValueType}
    {r : Reader} {type : ValueType}, constLoop H fuel ctx stack r = .ok (type, ctx', r') →
    OnlyRefs ctx ctx' ∧ r.Advances r' ∧ r.cursor < r'.cursor
  | 0, _, _, _, _, h => by cases h
  | fuel + 1, ctx, stack, r, type, h => by
    simp only [constLoop, bind_eq_ok, orFail_eq_ok, Prod.exists] at h
    obtain ⟨opcode, s, hop, h⟩ := h
    obtain ⟨hadv, hlt⟩ := u8_cursor hop
    split at h
    · split at h
      · cases h
        exact ⟨.refl _, hadv, hlt⟩
      · cases h
    simp only [bind_eq_ok, Prod.exists] at h
    obtain ⟨ctx1, stack1, r1, hinst, h⟩ := h
    obtain ⟨hrefs, hadv1⟩ := constInstruction_spec hinst
    obtain ⟨hrefs', hadv', -⟩ := constLoop_spec h
    have hadv2 := hadv1.trans hadv'
    exact ⟨hrefs.trans hrefs', hadv.trans hadv2, hlt.trans_le hadv2.cursor_le⟩

/-- **A constant expression** reads a span of the section that is not empty. -/
theorem validateConstExpr_spec {span : Span} (hr : r.Within src)
    (h : validateConstExpr H ctx r = .ok ((type, span), ctx', r')) :
    OnlyRefs ctx ctx' ∧ r.Advances r' ∧ SpanOk src span ∧ span.start.isSome ∧ span.size ≠ 0 := by
  simp only [validateConstExpr, bind_eq_ok, Prod.exists] at h
  obtain ⟨type', ctx1, r1, hloop, hout⟩ := h
  cases hout
  obtain ⟨hrefs, hadv, hlt⟩ := constLoop_spec hloop
  refine ⟨hrefs, hadv, spanOk_some ?_ ?_, rfl, Nat.sub_ne_zero_of_lt hlt⟩
  · have hend := (hr.of_advances hadv).1.1
    omega
  · have hcur := hadv.cursor
    have hle := hr.2
    omega

end Const

end TurboWasm
