/-
# An accepted module is consistent

`turbowasm_validate_sections` reads a module in one pass; the counts and indices of one section are
checked against what earlier sections left.  The invariant of the pass (`StateOk`) says, for the
rank of the last section, that the context is well formed, that the summary counts what the context
holds (`Counted`), and that the sections still to come have left nothing yet (`Pending`).  At the end
of the pass this gives `validateSections_consistent`.

An index that is not in use is not below any count: a handler for all tags, a block without a type
index and an import without a type have `UINT32_MAX`, and a segment that is not active has the table
or memory index 0 even in a module that has none (`validateSections_passive`).
-/
import TurboWasm.Validate.Items

namespace TurboWasm

open List Option Prod ValidationContext

/-! ## 1. The sections of a module -/

variable {p : Profile}

/-- The sections of a module: identifiers and payloads. -/
def moduleSections : Nat → Reader → Option (List (UInt8 × Reader))
  | 0, r => if r.remaining = 0 then some [] else none
  | fuel + 1, r =>
    if r.remaining = 0 then some []
    else
      match readSection r with
      | none => none
      | some (s, r) => (moduleSections fuel r).map (s :: ·)

/-- The order of the known sections. -/
def standardOrder : List UInt8 := [1, 2, 3, 4, 5, 13, 6, 7, 8, 9, 12, 10, 11]

/-- The identifiers of the sections that are not custom ones. -/
def knownIds (sections : List (UInt8 × Reader)) : List UInt8 :=
  (sections.map fst).filter (· ≠ 0)

/-- The number at the start of a payload: how many items it has. -/
def vectorLength (payload : Reader) : Nat :=
  match payload.uleb32 with
  | some (n, _) => n
  | none => 0

/-- How many items the sections with an identifier have. -/
def announced (sections : List (UInt8 × Reader)) (id : UInt8) : Nat :=
  ((sections.filter (·.1 = id)).map fun s => vectorLength s.2).sum

/-! ## 2. The summary and the context -/

/-- Imported items come before the others. -/
def itemFlags (imported defined : Nat) : List Bool :=
  List.replicate imported true ++ List.replicate defined false

/-- **The summary counts what the context holds**, imported and defined items apart. -/
structure Counted (s : ModuleSummary) (p : Profile) : Prop where
  types : p.types = s.typeCount
  items : ∀ k, p.items k = itemFlags (s.imported k) (s.defined k)
  imports : p.imports = s.importedFunctionCount + s.importedTableCount + s.importedMemoryCount +
    s.importedGlobalCount + s.importedTagCount
  exports : p.exports = s.exportCount
  elementSegments : p.elementSegments = s.elementCount
  dataSegments : p.dataSegments = s.dataSegmentCount
  hasDataCount : p.hasDataCount = s.hasDataCount
  dataCount : p.dataCount = s.dataCount

/-- The rank of the section that defines items of a kind. -/
def definedRank : ExternalKind → Nat
  | .function => 3
  | .table => 4
  | .memory => 5
  | .tag => 6
  | .global => 7

/-- Sections of a rank above `rank` have left nothing. -/
structure Pending (rank : Nat) (s : ModuleSummary) : Prop where
  types : rank < 1 → s.typeCount = 0
  imported : rank < 2 → ∀ k, s.imported k = 0
  defined : ∀ k, rank < definedRank k → s.defined k = 0
  exports : rank < 8 → s.exportCount = 0
  start : rank < 9 → s.hasStart = false
  elements : rank < 10 → s.elementCount = 0
  dataCount : rank < 11 → s.hasDataCount = false ∧ s.dataCount = 0
  code : rank < 12 → s.codeCount = 0
  data : rank < 13 → s.dataSegmentCount = 0

/-- What a section leaves in the summary besides its own counts. -/
structure Announces (id : UInt8) (payload : Reader) (s s' : ModuleSummary) : Prop where
  functions : s'.functionCount = if id = 3 then vectorLength payload else s.functionCount
  code : s'.codeCount = if id = 10 then vectorLength payload else s.codeCount
  data : s'.dataSegmentCount = if id = 11 then vectorLength payload else s.dataSegmentCount
  dataCount : s'.dataCount = if id = 12 then vectorLength payload else s.dataCount
  hasDataCount : s'.hasDataCount = if id = 12 then true else s.hasDataCount
  mask : s'.standardSectionMask = s.standardSectionMask

/-- The state after a section of rank `rank`. -/
structure StateOk (src : List UInt8) (rank : Nat) (v : ValidationState) : Prop where
  context : ContextOk src v.context
  counted : Counted v.summary v.context.profile
  pending : Pending rank v.summary
  noRefs : rank < 4 → v.context.declaredRefs = []
  bodies : v.summary.codeCount = 0 ∨
    ∀ j, v.summary.importedFunctionCount ≤ j →
      j < v.summary.importedFunctionCount + v.summary.functionCount → HasCode v.context j
  started : v.summary.hasStart →
    v.summary.startFunctionIndex < v.context.profile.functions.length

theorem itemFlags_length (imported defined : Nat) :
    (itemFlags imported defined).length = imported + defined := by
  simp [itemFlags]

theorem itemFlags_zero (imported : Nat) : itemFlags imported 0 = List.replicate imported true := by
  simp [itemFlags]

theorem Counted.define {s : ModuleSummary} (h : Counted s p) (hk : s.defined k = 0) (n : Nat) :
    Counted (s.setDefined k n) (p.addItems k (List.replicate n false)) := by
  have hitems : ∀ j, (p.addItems k (.replicate n false)).items j =
      itemFlags ((s.setDefined k n).imported j) ((s.setDefined k n).defined j) := by
    intro j
    rw [Profile.items_addItems, h.items]
    split
    · subst_vars
      rw [hk]
      cases j <;> simp [itemFlags, ModuleSummary.setDefined, ModuleSummary.imported,
        ModuleSummary.defined]
    · rename_i hjk
      cases j <;> cases k <;> first | rfl | exact absurd rfl hjk
  cases k <;> exact { h with items := hitems }

theorem Profile.items_imports (p : Profile) (n : Nat) (k : ExternalKind) :
    { p with imports := n }.items k = p.items k := by
  cases k <;> rfl

theorem Counted.addImport {s : ModuleSummary} (h : Counted s p)
    (hk : s.defined k = 0) : Counted (s.addImport k) { p.addItems k [true] with
      imports := (p.addItems k [true]).imports + 1 } := by
  have hitems : ∀ j, (p.addItems k [true]).items j =
      itemFlags ((s.addImport k).imported j) ((s.addImport k).defined j) := by
    intro j
    rw [Profile.items_addItems, h.items]
    split
    · subst_vars
      have hi : (s.addImport j).imported j = s.imported j + 1 := by cases j <;> rfl
      rw [s.defined_addImport, hk, hi, itemFlags_zero, itemFlags_zero, replicate_succ']
    · rename_i hjk
      cases j <;> cases k <;> first | rfl | exact absurd rfl hjk
  have himports : (p.addItems k [true]).imports + 1 = (s.addImport k).importedFunctionCount +
      (s.addImport k).importedTableCount + (s.addImport k).importedMemoryCount +
      (s.addImport k).importedGlobalCount + (s.addImport k).importedTagCount := by
    have := h.imports
    cases k <;> simp only [Profile.addItems, ModuleSummary.addImport] <;> omega
  have hitems' := fun j =>
    (Profile.items_imports (p.addItems k [true]) ((p.addItems k [true]).imports + 1) j).trans
      (hitems j)
  cases k <;> exact { h with items := hitems', imports := himports }

/-! ## 3. Sections -/

section Sections

variable {src : List UInt8} {H : TypeHeap} {rank : Nat} {v v' : ValidationState} {r : Reader}
  {ctx : ValidationContext} {s : ModuleSummary}

/-- The items of a section, one after the other: `P n s` after `n` of them. -/
theorem repeatItem_inv {σ : Type} {item : σ → Reader → Result (σ × Reader)}
    {P : Nat → σ → Prop}
    (hstep : ∀ {k : Nat} {s s' : σ} {r r' : Reader}, r.Within src → P k s →
      item s r = .ok (s', r') → P (k + 1) s' ∧ r.Advances r') :
    ∀ {n k : Nat} {s s' : σ} {r r' : Reader}, r.Within src → P k s →
      repeatItem item n s r = .ok (s', r') → P (k + n) s'
  | 0, _, _, _, _, _, _, hk, h => by
    cases h
    exact hk
  | n + 1, k, s, s', r, r', hr, hk, h => by
    simp only [repeatItem, bind_eq_ok, Prod.exists] at h
    obtain ⟨s1, r1, hitem, h⟩ := h
    obtain ⟨hk1, hadv⟩ := hstep hr hk hitem
    have := repeatItem_inv hstep (hr.of_advances hadv) hk1 h
    rwa [add_right_comm] at this

theorem validateItems_inv {σ : Type} {item : σ → Reader → Result (σ × Reader)}
    {P : Nat → σ → Prop} (hstep : ∀ {k : Nat} {s s' : σ} {r r' : Reader}, r.Within src → P k s →
      item s r = .ok (s', r') → P (k + 1) s' ∧ r.Advances r') {s s' : σ} (hr : r.Within src)
    (h0 : P 0 s) (h : validateItems item s r = .ok (n, s')) : P n s' ∧ vectorLength r = n := by
  simp only [validateItems, bind_eq_ok, orFail_eq_ok, Prod.exists] at h
  obtain ⟨count, r1, hcount, s1, r2, hrep, -, -, hout⟩ := h
  cases hout
  have hP := repeatItem_inv hstep (hr.of_advances (r.uleb32_adv _ r1 hcount)) h0 hrep
  rw [zero_add] at hP
  exact ⟨hP, by rw [vectorLength, hcount]⟩

theorem Pending.weaken (h : Pending rank s) (hle : rank ≤ rank') : Pending rank' s where
  types hr := h.types (hle.trans_lt hr)
  imported hr := h.imported (hle.trans_lt hr)
  defined k hr := h.defined k (hle.trans_lt hr)
  exports hr := h.exports (hle.trans_lt hr)
  start hr := h.start (hle.trans_lt hr)
  elements hr := h.elements (hle.trans_lt hr)
  dataCount hr := h.dataCount (hle.trans_lt hr)
  code hr := h.code (hle.trans_lt hr)
  data hr := h.data (hle.trans_lt hr)

/-- Nothing of the sections to come is changed by the section of the items of the kind `k`. -/
theorem Pending.define (h : Pending rank s)
    (hlt : rank < definedRank k) (n : Nat) : Pending (definedRank k) (s.setDefined k n) := by
  have hw := h.weaken hlt.le
  have hdef : ∀ j, definedRank k < definedRank j → (s.setDefined k n).defined j = 0 := by
    intro j hj
    have := hw.defined j hj
    cases k <;> cases j <;> first | exact this | exact absurd hj (by decide)
  cases k <;> exact { hw with defined := hdef }

section

variable (h : StateOk src rank v)

include h

theorem StateOk.define (hlt : rank < definedRank k) (hok : ContextOk src ctx)
    (hprof : ctx.profile = v.context.profile.addItems k (List.replicate n false))
    (hrefs : definedRank k < 4 → ctx.declaredRefs = []) :
    StateOk src (definedRank k) ⟨v.summary.setDefined k n, ctx⟩ := by
  have h12 : definedRank k < 12 := by cases k <;> decide
  have h9 : definedRank k < 9 := by cases k <;> decide
  have hpend := h.pending.define hlt n
  refine ⟨hok, ?_, hpend, hrefs, .inl (hpend.code h12), fun hs => ?_⟩
  · rw [hprof]
    exact h.counted.define (h.pending.defined k hlt) n
  · rw [hpend.start h9] at hs
    cases hs

/-- The section that defines the items of a kind other than functions. -/
theorem StateOk.items {item : ValidationContext → Reader →
      Result (ValidationContext × Reader)}
    (hitem : ∀ {ctx ctx' : ValidationContext} {r r' : Reader}, ContextOk src ctx →
      r.Within src → item ctx r = .ok (ctx', r') → Defines src k ctx ctx' r r')
    (hk : ¬ definedRank k < 4) (hlt : rank < definedRank k) (hr : r.Within src)
    (hs : validateItems item v.context r = .ok (n, ctx)) :
    StateOk src (definedRank k) ⟨v.summary.setDefined k n, ctx⟩ := by
  obtain ⟨⟨hok, hprof⟩, -⟩ := validateItems_inv
    (P := fun n c => ContextOk src c ∧
      c.profile = v.context.profile.addItems k (.replicate n false))
    (fun {j c c' r r'} hr hP hi => by
      have hd := hitem hP.1 hr hi
      refine ⟨⟨hd.ok, ?_⟩, hd.advances⟩
      rw [hd.profile, hP.2, Profile.addItems_addItems, replicate_succ'])
    hr ⟨h.context, by simp⟩ hs
  exact h.define hlt hok hprof fun hr => absurd hr hk

theorem validateTableSection_spec (hlt : rank < 4) (hr : r.Within src)
    (hs : validateTableSection H v r = .ok v') :
    StateOk src 4 v' ∧ Announces 4 r v.summary v'.summary := by
  obtain ⟨_, hitems, ⟨⟩⟩ := bind_eq_ok.mp hs
  exact ⟨h.items (k := .table) validateTable_spec (by decide) hlt hr hitems,
    rfl, rfl, rfl, rfl, rfl, rfl⟩

theorem validateMemorySection_spec (hlt : rank < 5) (hr : r.Within src)
    (hs : validateMemorySection v r = .ok v') :
    StateOk src 5 v' ∧ Announces 5 r v.summary v'.summary := by
  obtain ⟨_, hitems, ⟨⟩⟩ := bind_eq_ok.mp hs
  exact ⟨h.items (k := .memory) (fun hok _ => validateMemory_spec hok) (by decide) hlt hr hitems,
    rfl, rfl, rfl, rfl, rfl, rfl⟩

theorem validateTagSection_spec (hlt : rank < 6) (hr : r.Within src)
    (hs : validateTagSection v r = .ok v') :
    StateOk src 6 v' ∧ Announces 13 r v.summary v'.summary := by
  obtain ⟨_, hitems, ⟨⟩⟩ := bind_eq_ok.mp hs
  exact ⟨h.items (k := .tag) (fun hok _ => validateTag_spec hok) (by decide) hlt hr hitems,
    rfl, rfl, rfl, rfl, rfl, rfl⟩

theorem validateGlobalSection_spec (hlt : rank < 7) (hr : r.Within src)
    (hs : validateGlobalSection H v r = .ok v') :
    StateOk src 7 v' ∧ Announces 6 r v.summary v'.summary := by
  obtain ⟨_, hitems, ⟨⟩⟩ := bind_eq_ok.mp hs
  exact ⟨h.items (k := .global) validateGlobal_spec (by decide) hlt hr hitems,
    rfl, rfl, rfl, rfl, rfl, rfl⟩

theorem validateFunctionSection_spec (hlt : rank < 3)
    (hr : r.Within src) (hs : validateFunctionSection v r = .ok v') :
    StateOk src 3 v' ∧ Announces 3 r v.summary v'.summary := by
  obtain ⟨_, hitems, ⟨⟩⟩ := bind_eq_ok.mp hs
  obtain ⟨⟨hok, hnone, hsum, hprof⟩, hlen⟩ := validateItems_inv
    (P := fun n w => ContextOk src w.context ∧ w.context.declaredRefs = [] ∧
      w.summary = v.summary ∧
      w.context.profile = v.context.profile.addItems .function (.replicate n false))
    (fun {j w w' r r'} _ hP hi => by
      obtain ⟨hok, hnone, hsum, hprof⟩ := hP
      obtain ⟨hok', hnone', hsum', hprof', hadv⟩ := validateFunction_spec hok hnone hi
      refine ⟨⟨hok', hnone', hsum'.trans hsum, ?_⟩, hadv⟩
      rw [hprof', hprof, Profile.addItems_addItems, replicate_succ'])
    hr ⟨h.context, h.noRefs (by omega), rfl, by simp⟩ hitems
  have hst := h.define (k := .function) hlt hok hprof (fun _ => hnone)
  rw [hsum]
  exact ⟨hst, hlen.symm, rfl, rfl, rfl, rfl, rfl⟩

end

/-! ### Types and imports -/

variable {i : Nat}

theorem StateOk.weaken (h : StateOk src rank v) (hle : rank ≤ rank') : StateOk src rank' v :=
  { h with pending := h.pending.weaken hle, noRefs := fun hr => h.noRefs (hle.trans_lt hr) }

/-- Before the type section there are no records. -/
theorem StateOk.records_nil (h : StateOk src rank v) (hlt : rank < 1) :
    v.context.imports = [] ∧ v.context.exports = [] ∧ v.context.functions = [] ∧
      v.context.globals = [] ∧ v.context.tables = [] ∧ v.context.memories = [] ∧
      v.context.tags = [] ∧ v.context.dataSegments = [] ∧ v.context.elementSegments = [] := by
  have hitems : ∀ k, v.context.profile.items k = [] := by
    intro k
    have hd : rank < definedRank k := hlt.trans (by cases k <;> decide)
    rw [h.counted.items, h.pending.imported (by omega), h.pending.defined k hd]
    rfl
  have hsum : v.context.imports.length = 0 := by
    have h0 := h.pending.imported (by omega)
    have hf : v.summary.importedFunctionCount = 0 := h0 .function
    have ht : v.summary.importedTableCount = 0 := h0 .table
    have hm : v.summary.importedMemoryCount = 0 := h0 .memory
    have hg : v.summary.importedGlobalCount = 0 := h0 .global
    have hx : v.summary.importedTagCount = 0 := h0 .tag
    have := h.counted.imports
    simp only [hf, ht, hm, hg, hx] at this
    exact this
  have hexp : v.context.exports.length = 0 :=
    h.counted.exports.trans (h.pending.exports (by omega))
  have hdata : v.context.dataSegments.length = 0 :=
    h.counted.dataSegments.trans (h.pending.data (by omega))
  have helem : v.context.elementSegments.length = 0 :=
    h.counted.elementSegments.trans (h.pending.elements (by omega))
  exact ⟨eq_nil_of_length_eq_zero hsum, eq_nil_of_length_eq_zero hexp,
    map_eq_nil_iff.mp (hitems .function), map_eq_nil_iff.mp (hitems .global),
    map_eq_nil_iff.mp (hitems .table), map_eq_nil_iff.mp (hitems .memory),
    map_eq_nil_iff.mp (hitems .tag), eq_nil_of_length_eq_zero hdata,
    eq_nil_of_length_eq_zero helem⟩

theorem validateTypeSection_spec (h : StateOk src rank v) (hlt : rank < 1)
    (hs : validateTypeSection H v r = .ok v') :
    StateOk src 1 v' ∧ Announces 1 r v.summary v'.summary := by
  simp only [validateTypeSection, compositeTypeCount, bind_eq_ok, Prod.exists] at hs
  obtain ⟨types, r1, htypes, count, ⟨n, o, s, hn, m, o', s', hm, hcount⟩, hout⟩ := hs
  cases hcount
  cases hout
  obtain ⟨haddr, hfinal, hcanon⟩ := validateCompositeTypes_final htypes
  obtain ⟨hlen, hle, hall⟩ := validateCompositeTypes_filled htypes hn
  obtain rfl := readGroups_same hn hm
  obtain ⟨hi, he, hf, hg, ht, hme, hta, hd, hel⟩ := h.records_nil hlt
  have hctx : ContextOk src { v.context with
      types := types.types
      requiresStore := v.context.requiresStore || typesRequireStore types.types } := by
    refine ⟨hfinal, hlen ▸ hle, hall, hcanon, ?_, h.context.importItems, h.context.exportNames,
      h.context.declaredRefs⟩
    constructor <;> simp [hi, he, hf, hg, ht, hme, hta, hd, hel]
  have hw := h.weaken (le_of_lt hlt)
  refine ⟨⟨hctx, { hw.counted with types := hlen }, { hw.pending with types := ?_ }, hw.noRefs,
    hw.bodies, hw.started⟩, rfl, rfl, rfl, rfl, rfl, rfl⟩
  exact fun hr => absurd hr (lt_irrefl _)

theorem StateOk.import {r : Reader} (h : StateOk src 2 v) (hr : r.Within src)
    (hi : validateImport v r = .ok (v', r')) :
    StateOk src 2 v' ∧ r.Advances r' ∧ ∃ k, v'.summary = v.summary.addImport k := by
  have hdef : ∀ k, v.summary.defined k = 0 := fun k =>
    h.pending.defined k (by cases k <;> decide)
  obtain ⟨k, hok, hnone, hsum, hprof, hadv⟩ := validateImport_spec h.context hr
    (h.noRefs (by decide)) (fun k => by rw [h.counted.items, hdef, itemFlags_zero]) hi
  have hpend : Pending 2 (v.summary.addImport k) := by
    have hp := h.pending
    cases k <;> exact { hp with
      imported := fun hr => absurd hr (lt_irrefl _)
      defined := fun j _ => (v.summary.defined_addImport _ j).trans (hdef j) }
  refine ⟨⟨hok, ?_, hsum ▸ hpend, fun _ => hnone, .inl ?_, fun hs => ?_⟩, hadv, k, hsum⟩
  · rw [hsum, hprof]
    exact h.counted.addImport (hdef k)
  · rw [hsum]
    exact hpend.code (by decide)
  · rw [hsum, hpend.start (by decide)] at hs
    cases hs

theorem validateImportSection_spec (h : StateOk src rank v) (hlt : rank < 2)
    (hr : r.Within src) (hs : validateImportSection v r = .ok v') :
    StateOk src 2 v' ∧ Announces 2 r v.summary v'.summary := by
  obtain ⟨_, hitems, ⟨⟩⟩ := bind_eq_ok.mp hs
  exact (validateItems_inv
    (P := fun _ w => StateOk src 2 w ∧ Announces 2 r v.summary w.summary)
    (fun {j w w' r r'} hr hP hi => by
      obtain ⟨hst, hadv, k, hsum⟩ := hP.1.import hr hi
      have hann := hP.2
      refine ⟨⟨hst, ?_⟩, hadv⟩
      rw [hsum]
      cases k <;> exact { hann with })
    hr ⟨h.weaken (hlt.le), rfl, rfl, rfl, rfl, rfl, rfl⟩ hitems).1

/-! ### Exports, start, segments and code -/

theorem exportIndexValid_iff : exportIndexValid s i k ↔ i < s.imported k + s.defined k := by
  cases k <;> exact decide_eq_true_iff

theorem validateExportSection_spec (h : StateOk src rank v) (hlt : rank < 8)
    (hr : r.Within src) (hs : validateExportSection v r = .ok v') :
    StateOk src 8 v' ∧ Announces 7 r v.summary v'.summary := by
  obtain ⟨⟨n, ctx⟩, hitems, ⟨⟩⟩ := bind_eq_ok.mp hs
  have hzero : v.context.profile.exports = 0 := h.counted.exports.trans (h.pending.exports hlt)
  obtain ⟨⟨hok, hprof⟩, -⟩ := validateItems_inv
    (P := fun n c => ContextOk src c ∧ c.profile = { v.context.profile with exports := n })
    (fun {j c c' r r'} hr hP hi => by
      have hcount : ∀ k i, exportIndexValid v.summary i k → i < c.shape.count k := by
        intro k i hvalid
        have hitems : c.profile.items k = v.context.profile.items k := by
          rw [hP.2]
          cases k <;> rfl
        rw [c.count_shape, hitems, h.counted.items, itemFlags_length]
        exact exportIndexValid_iff.mp hvalid
      obtain ⟨hok', hprof', hadv⟩ := validateExport_spec hP.1 hr hcount hi
      refine ⟨⟨hok', ?_⟩, hadv⟩
      rw [hprof', hP.2])
    hr ⟨h.context, by rw [← hzero]⟩ hitems
  have hw := h.weaken (hlt.le)
  have hitems : ∀ k, ctx.profile.items k = v.context.profile.items k := by
    intro k
    rw [hprof]
    cases k <;> rfl
  refine ⟨⟨hok, ?_, ?_, fun hr => absurd hr (by decide), .inl (hw.pending.code (by decide)), ?_⟩,
    rfl, rfl, rfl, rfl, rfl, rfl⟩
  · have hc := hw.counted
    rw [hprof] at hitems ⊢
    exact { hc with items := fun k => (hitems k).trans (hc.items k), exports := rfl }
  · exact { hw.pending with exports := fun hr => absurd hr (lt_irrefl _) }
  · rw [hprof]
    exact hw.started

theorem functionType_lt
    (h : ctx.functionType i = some type) : i < ctx.profile.functions.length := by
  unfold functionType at h
  split at h
  · cases h
  · rename_i f hf
    simpa [profile] using lt_of_getElem? hf

section

variable (h : StateOk src rank v)

include h

theorem validateStartSection_spec (hlt : rank < 9) (hs : validateStartSection v r = .ok v') :
    StateOk src 9 v' ∧ Announces 8 r v.summary v'.summary := by
  simp only [validateStartSection, bind_eq_ok, orFail_eq_ok, Prod.exists] at hs
  obtain ⟨i, r1, -, -, -, type, htype, -, -, hout⟩ := hs
  cases hout
  have hw := h.weaken (hlt.le)
  have hi := functionType_lt htype
  refine ⟨⟨hw.context, { hw.counted with }, { hw.pending with defined := ?_, start := ?_ },
    hw.noRefs, hw.bodies, fun _ => hi⟩, rfl, rfl, rfl, rfl, rfl, rfl⟩
  · exact fun k hk => absurd hk (by cases k <;> decide)
  · exact fun hr => absurd hr (lt_irrefl _)

theorem validateElementSection_spec (hlt : rank < 10)
    (hr : r.Within src) (hs : validateElementSection H v r = .ok v') :
    StateOk src 10 v' ∧ Announces 9 r v.summary v'.summary := by
  obtain ⟨⟨n, ctx⟩, hitems, ⟨⟩⟩ := bind_eq_ok.mp hs
  have hzero : v.context.profile.elementSegments = 0 :=
    h.counted.elementSegments.trans (h.pending.elements hlt)
  obtain ⟨⟨hok, hprof⟩, -⟩ := validateItems_inv
    (P := fun n c => ContextOk src c ∧
      c.profile = { v.context.profile with elementSegments := n })
    (fun {j c c' r r'} hr hP hi => by
      obtain ⟨hok', hprof', hadv⟩ := validateElement_spec hP.1 hr hi
      refine ⟨⟨hok', ?_⟩, hadv⟩
      rw [hprof', hP.2])
    hr ⟨h.context, by rw [← hzero]⟩ hitems
  have hw := h.weaken (hlt.le)
  refine ⟨⟨hok, ?_, { hw.pending with defined := ?_, elements := ?_ },
    fun hr => absurd hr (by decide), .inl (hw.pending.code (by decide)), ?_⟩,
    rfl, rfl, rfl, rfl, rfl, rfl⟩
  · rw [hprof]
    exact { hw.counted with elementSegments := rfl }
  · exact fun k hk => absurd hk (by cases k <;> decide)
  · exact fun hr => absurd hr (lt_irrefl _)
  · rw [hprof]
    exact hw.started

theorem validateDataCountSection_spec (hlt : rank < 11)
    (hs : validateDataCountSection v r = .ok v') :
    StateOk src 11 v' ∧ Announces 12 r v.summary v'.summary := by
  simp only [validateDataCountSection, bind_eq_ok, orFail_eq_ok, Prod.exists] at hs
  obtain ⟨n, r1, hn, -, -, hout⟩ := hs
  cases hout
  have hw := h.weaken (hlt.le)
  have hctx : ContextOk src { v.context with hasDataCount := true, dataCount := n } :=
    { hw.context with records := { hw.context.records with } }
  have hlen : vectorLength r = n := by rw [vectorLength, hn]
  refine ⟨⟨hctx, { hw.counted with hasDataCount := rfl, dataCount := rfl },
    { hw.pending with defined := ?_, dataCount := ?_ }, hw.noRefs,
    .inl (hw.pending.code (by decide)), hw.started⟩,
    rfl, rfl, rfl, hlen.symm, rfl, rfl⟩
  · exact fun k hk => absurd hk (by cases k <;> decide)
  · exact fun hr => absurd hr (lt_irrefl _)

theorem validateCodeSection_spec (hlt : rank < 12)
    (hr : r.Within src) (hs : validateCodeSection H v r = .ok v') :
    StateOk src 12 v' ∧ Announces 10 r v.summary v'.summary := by
  simp only [validateCodeSection, bind_eq_ok, orFail_eq_ok, failIf_eq_ok, bne_eq_false_iff_eq,
    Prod.exists] at hs
  obtain ⟨n, r1, hn, -, hcount, ctx, r2, hbodies, -, -, hout⟩ := hs
  cases hout
  have hr1 := hr.of_advances (r.uleb32_adv n r1 hn)
  obtain ⟨hok, hprof, -, hnew⟩ := validateBodies_spec h.context hr1 hbodies
  have hw := h.weaken (hlt.le)
  have hlen : vectorLength r = n := by rw [vectorLength, hn]
  refine ⟨⟨hok, ?_, { hw.pending with defined := ?_, code := ?_ },
    fun hr => absurd hr (by decide), .inr ?_, ?_⟩,
    rfl, hlen.symm, rfl, rfl, rfl, rfl⟩
  · rw [hprof]
    exact { hw.counted with }
  · exact fun k hk => absurd hk (by cases k <;> decide)
  · exact fun hr => absurd hr (lt_irrefl _)
  · intro j hle hlt'
    exact hnew j hle (hcount ▸ hlt')
  · rw [hprof]
    exact hw.started

theorem validateDataSection_spec (hlt : rank < 13)
    (hr : r.Within src) (hs : validateDataSection H v r = .ok v') :
    StateOk src 13 v' ∧ Announces 11 r v.summary v'.summary := by
  simp only [validateDataSection, bind_eq_ok, Prod.exists] at hs
  obtain ⟨n, ctx, hitems, -, -, hout⟩ := hs
  cases hout
  have hzero : v.context.profile.dataSegments = 0 :=
    h.counted.dataSegments.trans (h.pending.data hlt)
  obtain ⟨⟨hok, hfun, hprof⟩, hlen⟩ := validateItems_inv
    (P := fun n c => ContextOk src c ∧ c.functions = v.context.functions ∧
      c.profile = { v.context.profile with dataSegments := n })
    (fun {j c c' r r'} hr hP hi => by
      obtain ⟨hok, hfun, hprof⟩ := hP
      obtain ⟨hok', hfun', hprof', hadv⟩ := validateData_spec hok hr hi
      refine ⟨⟨hok', hfun'.trans hfun, ?_⟩, hadv⟩
      rw [hprof', hprof])
    hr ⟨h.context, rfl, by rw [← hzero]⟩ hitems
  have hw := h.weaken (hlt.le)
  refine ⟨⟨hok, ?_, { hw.pending with defined := ?_, data := ?_ },
    fun hr => absurd hr (by decide), ?_, ?_⟩,
    rfl, rfl, hlen.symm, rfl, rfl, rfl⟩
  · rw [hprof]
    exact { hw.counted with dataSegments := rfl }
  · exact fun k hk => absurd hk (by cases k <;> decide)
  · exact fun hr => absurd hr (lt_irrefl _)
  · refine hw.bodies.imp id fun hall j hle hlt' => ?_
    obtain ⟨f, hf, hcode⟩ := hall j hle hlt'
    exact ⟨f, hfun ▸ hf, hcode⟩
  · rw [hprof]
    exact hw.started

theorem validateSectionPayload_spec {id : UInt8} (hlt : rank < sectionRank id) (hr : r.Within src)
    (hs : validateSectionPayload H id v r = .ok v') :
    StateOk src (sectionRank id) v' ∧ Announces id r v.summary v'.summary := by
  rcases ite_cases hs with ⟨rfl, hs⟩ | ⟨-, hs⟩
  · exact validateTypeSection_spec h hlt hs
  rcases ite_cases hs with ⟨rfl, hs⟩ | ⟨-, hs⟩
  · exact validateImportSection_spec h hlt hr hs
  rcases ite_cases hs with ⟨rfl, hs⟩ | ⟨-, hs⟩
  · exact validateFunctionSection_spec h hlt hr hs
  rcases ite_cases hs with ⟨rfl, hs⟩ | ⟨-, hs⟩
  · exact validateTableSection_spec h hlt hr hs
  rcases ite_cases hs with ⟨rfl, hs⟩ | ⟨-, hs⟩
  · exact validateMemorySection_spec h hlt hr hs
  rcases ite_cases hs with ⟨rfl, hs⟩ | ⟨-, hs⟩
  · exact validateTagSection_spec h hlt hr hs
  rcases ite_cases hs with ⟨rfl, hs⟩ | ⟨-, hs⟩
  · exact validateGlobalSection_spec h hlt hr hs
  rcases ite_cases hs with ⟨rfl, hs⟩ | ⟨-, hs⟩
  · exact validateExportSection_spec h hlt hr hs
  rcases ite_cases hs with ⟨rfl, hs⟩ | ⟨-, hs⟩
  · exact validateStartSection_spec h hlt hs
  rcases ite_cases hs with ⟨rfl, hs⟩ | ⟨-, hs⟩
  · exact validateElementSection_spec h hlt hr hs
  rcases ite_cases hs with ⟨rfl, hs⟩ | ⟨-, hs⟩
  · exact validateDataCountSection_spec h hlt hs
  rcases ite_cases hs with ⟨rfl, hs⟩ | ⟨-, hs⟩
  · exact validateCodeSection_spec h hlt hr hs
  rcases ite_cases hs with ⟨rfl, hs⟩ | ⟨-, hs⟩
  · exact validateDataSection_spec h hlt hr hs
  · cases hs

end

end Sections

/-! ## 4. The pass -/

section Pass

variable {src : List UInt8} {H : TypeHeap} {rank : Nat} {v : ValidationState} {r : Reader}
  {done : List (UInt8 × Reader)} {id : UInt8}

/-- The sections seen and the custom sections are not part of the state's invariant. -/
theorem StateOk.marks (h : StateOk src rank v) (mask custom : Nat) :
    StateOk src rank { v with summary := { v.summary with
      standardSectionMask := mask, customSectionCount := custom } } := by
  exact { h with counted := { h.counted with }, pending := { h.pending with } }

theorem rank_cases (h : sectionRank id ≠ 0) : id ∈ standardOrder := by
  by_contra hno
  simp only [standardOrder, mem_cons, not_or] at hno
  exact h (by simp [sectionRank, hno])

theorem standardOrder_take : ∀ id ∈ standardOrder,
    standardOrder.take (sectionRank id) = standardOrder.take (sectionRank id - 1) ++ [id] := by
  decide +kernel

theorem sectionRank_injective : ∀ id ∈ standardOrder, ∀ id' ∈ standardOrder,
    sectionRank id = sectionRank id' → id = id' := by
  decide +kernel

theorem standardOrder_ne_zero : ∀ id ∈ standardOrder, id ≠ 0 := by
  decide +kernel

theorem testBit_of_seen {mask : Nat} (h : (mask &&& (1 <<< n) != 0) = false) :
    mask.testBit n = false := by
  have h0 : mask &&& (1 <<< n) = 0 := by simpa using h
  have := congrArg (fun m => m.testBit n) h0
  simpa using this

/-- The invariant of the loop over the sections, when those in `done` are read. -/
structure PassOk (src : List UInt8) (done : List (UInt8 × Reader)) (rank : Nat)
    (v : ValidationState) : Prop where
  state : StateOk src rank v
  order : (knownIds done).Sublist (standardOrder.take rank)
  last : rank = 0 ∨ ∃ id ∈ standardOrder, sectionRank id = rank ∧
    v.summary.standardSectionMask.testBit id.toNat
  functions : announced done 3 = v.summary.functionCount
  code : announced done 10 = v.summary.codeCount
  data : announced done 11 = v.summary.dataSegmentCount
  dataCount : announced done 12 = v.summary.dataCount
  hasDataCount : v.summary.hasDataCount ↔ 12 ∈ knownIds done

theorem knownIds_snoc (done : List (UInt8 × Reader)) (id : UInt8) (payload : Reader) :
    knownIds (done ++ [(id, payload)]) = knownIds done ++ if id = 0 then [] else [id] := by
  by_cases h : id = 0 <;> simp [knownIds, h]

theorem announced_snoc (done : List (UInt8 × Reader)) (id j : UInt8) (payload : Reader) :
    announced (done ++ [(id, payload)]) j =
      announced done j + if id = j then vectorLength payload else 0 := by
  by_cases h : id = j <;> simp [announced, h]

theorem PassOk.skip (h : PassOk src done rank v) (payload : Reader) :
    PassOk src (done ++ [(0, payload)]) rank { v with summary := { v.summary with
      customSectionCount := v.summary.customSectionCount + 1 } } := by
  have hann : ∀ {j : UInt8}, j ≠ 0 →
      announced (done ++ [(0, payload)]) j = announced done j := by
    intro j hj
    rw [announced_snoc, if_neg hj.symm, add_zero]
  have hids : knownIds (done ++ [(0, payload)]) = knownIds done := by
    rw [knownIds_snoc, if_pos rfl, append_nil]
  refine ⟨h.state.marks _ _, hids ▸ h.order, h.last, ?_, ?_, ?_, ?_, ?_⟩
  · exact (hann (by decide)).trans h.functions
  · exact (hann (by decide)).trans h.code
  · exact (hann (by decide)).trans h.data
  · exact (hann (by decide)).trans h.dataCount
  · exact hids ▸ h.hasDataCount

/-- A known section comes after the last one, because that one has been marked as seen. -/
theorem PassOk.rank_lt (h : PassOk src done rank v) (hrank : sectionRank id ≠ 0)
    (hle : ¬ sectionRank id < rank)
    (hseen : (v.summary.standardSectionMask &&& (1 <<< id.toNat) != 0) = false) :
    rank < sectionRank id := by
  rcases lt_or_eq_of_le (not_lt.mp hle) with hlt | heq
  · exact hlt
  · rcases h.last with h0 | ⟨id', hid', hrank', hbit⟩
    · exact absurd (heq ▸ h0) hrank
    · obtain rfl := sectionRank_injective id' hid' id (rank_cases hrank) (hrank'.trans heq)
      rw [testBit_of_seen hseen] at hbit
      cases hbit

/-- The count of a vector section: what has been announced before, and what is now. -/
theorem announced_step (hold : announced done j = old) (hzero : id = j → old = 0)
    (hnew : new = if id = j then vectorLength payload else old) :
    announced (done ++ [(id, payload)]) j = new := by
  rw [announced_snoc, hold, hnew]
  split
  · rw [hzero ‹_›, zero_add]
  · rw [add_zero]

theorem PassOk.section {v1 : ValidationState}
    (h : PassOk src done rank v) (hp : payload.Within src) (he : enterSection id rank v = .ok v1)
    (hs : validateSectionPayload H id v1 payload = .ok v') :
    PassOk src (done ++ [(id, payload)]) (sectionRank id) v' := by
  simp only [enterSection, bind_eq_ok, failIf_eq_ok, decide_eq_false_iff_not] at he
  obtain ⟨-, hrank, -, hle, -, hseen, hout⟩ := he
  cases hout
  have hmem := rank_cases hrank
  have hid := standardOrder_ne_zero id hmem
  have hlt := h.rank_lt hrank hle hseen
  obtain ⟨hst, hann⟩ := validateSectionPayload_spec (h.state.marks _ _) hlt hp hs
  have hids : knownIds (done ++ [(id, payload)]) = knownIds done ++ [id] := by
    rw [knownIds_snoc, if_neg hid]
  have hpend := h.state.pending
  refine ⟨hst, ?_, .inr ⟨id, hmem, rfl, ?_⟩, ?_, ?_, ?_, ?_, ?_⟩
  · rw [hids, standardOrder_take id hmem]
    refine (h.order.trans ?_).append_right [id]
    exact (take_prefix_take_left (by omega)).sublist
  · rw [hann.mask]
    simp
  · exact announced_step h.functions
      (fun he => hpend.defined .function (by subst he; exact hlt)) hann.functions
  · exact announced_step h.code (fun he => hpend.code (by subst he; exact hlt)) hann.code
  · exact announced_step h.data (fun he => hpend.data (by subst he; exact hlt)) hann.data
  · exact announced_step h.dataCount (fun he => (hpend.dataCount (by subst he; exact hlt)).2)
      hann.dataCount
  rw [hann.hasDataCount, hids, mem_append, mem_singleton]
  split
  · simp [*]
  · rename_i hne
    rw [← h.hasDataCount]
    simp [Ne.symm hne]

theorem readSection_spec (hr : r.Reads src)
    (h : readSection r = some ((id, payload), r')) : payload.Within src ∧ r'.Reads src := by
  unfold readSection at h
  split at h
  · cases h
  rename_i b r1 hu
  split at h
  · cases h
  rename_i size r2 hsize
  split at h
  · cases h
  rename_i sub r3 hslice
  cases h
  have hr2 := (hr.of_advances (r.u8_adv _ r1 hu)).of_advances
    (r1.uleb32_adv size r2 hsize)
  obtain ⟨-, hlen, hsub, hrest⟩ := hr2.of_slice hslice
  exact ⟨⟨hsub, (hlen ▸ Reader.uleb32_le hsize : payload.rest.length ≤ uint32Max)⟩, hrest⟩

/-- **The pass over the sections** keeps its invariant. -/
theorem validateSectionLoop_spec : ∀ {fuel rank : Nat} {v v' : ValidationState} {r : Reader}
    {done : List (UInt8 × Reader)}, r.Reads src → PassOk src done rank v →
    validateSectionLoop H fuel rank v r = .ok v' →
    ∃ secs rank', moduleSections fuel r = some secs ∧ PassOk src (done ++ secs) rank' v'
  | 0, rank, v, v', r, done, _, hpass, h => by
    rcases ite_cases h with ⟨hend, h⟩ | ⟨-, h⟩ <;> cases h
    refine ⟨[], rank, if_pos hend, ?_⟩
    rwa [append_nil]
  | fuel + 1, rank, v, v', r, done, hr, hpass, h => by
    rcases ite_cases h with ⟨hend, h⟩ | ⟨hmore, h⟩
    · cases h
      refine ⟨[], rank, if_pos hend, ?_⟩
      rwa [append_nil]
    simp only [bind_eq_ok, orFail_eq_ok, Prod.exists] at h
    obtain ⟨id, payload, r1, hsec, h⟩ := h
    obtain ⟨hp, hr1⟩ := readSection_spec hr hsec
    -- the rest of the pass, from a state in which this section is done
    have hrest : ∀ {rank1 : Nat} {v1 : ValidationState},
        PassOk src (done ++ [(id, payload)]) rank1 v1 →
        validateSectionLoop H fuel rank1 v1 r1 = .ok v' →
        ∃ secs rank', moduleSections (fuel + 1) r = some secs ∧
          PassOk src (done ++ secs) rank' v' := by
      intro rank1 v1 hpass1 h1
      obtain ⟨secs, rank', hsecs, hpass'⟩ := validateSectionLoop_spec hr1 hpass1 h1
      refine ⟨(id, payload) :: secs, rank', ?_, ?_⟩
      · simp [moduleSections, hsec, if_neg hmore, hsecs]
      · rwa [append_assoc] at hpass'
    rcases ite_cases h with ⟨rfl, h⟩ | ⟨-, h⟩
    · obtain ⟨_, -, h⟩ := bind_eq_ok.mp h
      exact hrest (hpass.skip payload) h
    · simp only [bind_eq_ok] at h
      obtain ⟨v1, henter, v2, hsection, h⟩ := h
      exact hrest (hpass.section hp henter hsection) h

theorem contextOk_zero (addr : Nat) : ContextOk src (ValidationContext.zero addr) where
  types := by constructor <;> simp [zero]
  typeCount := Nat.zero_le _
  typeRecords := by simp [zero]
  canonical := by simp [zero]
  records := by constructor <;> simp [zero]
  importItems := by simp [zero]
  exportNames := by simp [zero]
  declaredRefs := .inl rfl

theorem PassOk.init (addr : Nat) : PassOk src [] 0 ⟨.zero, .zero addr⟩ where
  state := by
    refine ⟨contextOk_zero addr, ?_, ?_, fun _ => rfl, .inl rfl, nofun⟩
    · exact ⟨rfl, fun k => by cases k <;> rfl, rfl, rfl, rfl, rfl, rfl, rfl⟩
    · exact ⟨fun _ => rfl, fun _ k => by cases k <;> rfl, fun k _ => by cases k <;> rfl,
        fun _ => rfl, fun _ => rfl, fun _ => rfl, fun _ => ⟨rfl, rfl⟩, fun _ => rfl,
        fun _ => rfl⟩
  order := nil_sublist _
  last := .inl rfl
  functions := rfl
  code := rfl
  data := rfl
  dataCount := rfl
  hasDataCount := by simp [ModuleSummary.zero, knownIds]

/-- **What the pass leaves**: the invariant, and the two checks after the last section. -/
theorem validateSections_pass {addr : Nat} (hr : r.Reads src)
    (h : validateSections H addr r = .ok v) :
    ∃ secs rank, moduleSections r.remaining r = some secs ∧ PassOk src secs rank v ∧
      v.summary.codeCount = v.summary.functionCount ∧
      (v.summary.hasDataCount → v.summary.dataCount = v.summary.dataSegmentCount) := by
  simp only [validateSections, bind_eq_ok, failIf_eq_ok, bne_eq_false_iff_eq] at h
  obtain ⟨v1, hloop, -, hcode, -, hdata, hout⟩ := h
  cases hout
  obtain ⟨secs, rank, hsecs, hpass⟩ := validateSectionLoop_spec hr (.init addr) hloop
  refine ⟨secs, rank, hsecs, hpass, hcode, fun hd => ?_⟩
  rwa [hd, Bool.true_and, bne_eq_false_iff_eq] at hdata

end Pass

/-! ## 5. Consistency -/

/-- A reference to a defined type names a type of the context. -/
def TypeInRange (ctx : ValidationContext) (v : ValueType) : Prop :=
  v.heapKind = .typeIndex → v.typeIndex < ctx.types.length

/-- Every index in use is below the count of what it indexes; an index not in use has its fixed
value. -/
structure IndicesInRange (s : ModuleSummary) (ctx : ValidationContext) : Prop where
  typeValues : ∀ t ∈ ctx.types, ∀ v ∈ t.values, TypeInRange ctx v
  supertypes : ∀ t ∈ ctx.types, t.superIndex = uint32Max ∨ t.superIndex < ctx.types.length
  functionTypes : ∀ f ∈ ctx.functions, f.typeIndex < ctx.types.length
  locals : ∀ f ∈ ctx.functions, ∀ v ∈ f.locals, TypeInRange ctx v
  blockTypes : ∀ f ∈ ctx.functions, ∀ a ∈ f.annotations,
    a.typeIndex = uint32Max ∨ a.typeIndex < ctx.types.length
  catchTags : ∀ f ∈ ctx.functions, ∀ a ∈ f.annotations, ∀ c ∈ a.catches,
    IndexOk (c.kind = .catchTag ∨ c.kind = .catchRef) c.tagIndex ctx.tags.length uint32Max
  tagTypes : ∀ t ∈ ctx.tags, t.typeIndex < ctx.types.length
  globalTypes : ∀ g ∈ ctx.globals, TypeInRange ctx g.semanticType
  tableTypes : ∀ t ∈ ctx.tables, TypeInRange ctx t.semanticType
  importItems : ∀ d ∈ ctx.imports, d.itemIndex < ctx.shape.count d.kind
  importTypes : ∀ d ∈ ctx.imports,
    IndexOk (d.kind = .function ∨ d.kind = .tag) d.typeIndex ctx.types.length uint32Max
  exportItems : ∀ d ∈ ctx.exports, d.itemIndex < ctx.shape.count d.kind
  dataMemories : ∀ d ∈ ctx.dataSegments,
    IndexOk (d.mode = .active) d.memoryIndex ctx.memories.length 0
  elementTables : ∀ e ∈ ctx.elementSegments,
    IndexOk (e.mode = .active) e.tableIndex ctx.tables.length 0
  elementTypes : ∀ e ∈ ctx.elementSegments, TypeInRange ctx e.semanticType
  elementItems : ∀ e ∈ ctx.elementSegments, ∀ i ∈ e.items,
    IndexOk (i.kind = .functionIndex) i.functionIndex ctx.functions.length 0
  start : s.hasStart → s.startFunctionIndex < ctx.functions.length

/-- What holds of an accepted module with the sections `secs`. -/
structure Consistent (secs : List (UInt8 × Reader)) (v : ValidationState) : Prop where
  order : (knownIds secs).Sublist standardOrder
  bodyCount : announced secs 10 = announced secs 3
  bodies : ∀ f ∈ v.context.functions, f.code.start.isSome = !f.imported
  dataCount : 12 ∈ knownIds secs → announced secs 12 = v.context.dataSegments.length
  dataSegments : announced secs 11 = v.context.dataSegments.length
  exportNames : (v.context.exports.map fun d => d.name.bytes).Nodup
  indices : IndicesInRange v.summary v.context
  counts : Counted v.summary v.context.profile

section Consistency

theorem ValueOk.inRange (h : ValueOk ctx.shape v) : TypeInRange ctx v := by
  intro hk
  cases h.wf with
  | num => cases hk
  | heap _ _ _ _ ha => exact absurd hk (abstractCarrier_ne ha)
  | index _ i d hd => exact lt_of_getElem? hd

theorem ContextOk.indices (hok : ContextOk src ctx) {s : ModuleSummary}
    (hstart : s.hasStart → s.startFunctionIndex < ctx.functions.length) :
    IndicesInRange s ctx where
  typeValues t ht v hv := by
    obtain ⟨i, hi⟩ := getElem?_of_mem ht
    have hval : ValueOk ctx.shape v := ⟨hok.types.value hi hv, (hok.typeRecords t ht).index v hv⟩
    exact hval.inRange
  supertypes t ht := by
    obtain ⟨i, hi⟩ := getElem?_of_mem ht
    exact (hok.types.superIndex hi).1.imp id fun hlt => hlt.trans (lt_of_getElem? hi)
  functionTypes f hf := (hok.records.functions f hf).type
  locals f hf v hv := ((hok.records.functions f hf).locals v hv).inRange
  blockTypes f hf a ha := ((hok.records.functions f hf).controls a ha).type
  catchTags f hf a ha c hc := (((hok.records.functions f hf).controls a ha).catches c hc).tag
  tagTypes t ht := by
    obtain ⟨d, hd, -⟩ := (hok.records.tags t ht).type
    exact lt_of_getElem? hd
  globalTypes g hg := (hok.records.globals g hg).type.inRange
  tableTypes t ht := (hok.records.tables t ht).type.inRange
  importItems d hd := (hok.records.imports d hd).item
  importTypes d hd := (hok.records.imports d hd).type
  exportItems d hd := (hok.records.exports d hd).item
  dataMemories d hd := (hok.records.dataSegments d hd).memory
  elementTables e he := (hok.records.elementSegments e he).table
  elementTypes e he := (hok.records.elementSegments e he).type.inRange
  elementItems e he i hi := ((hok.records.elementSegments e he).items i hi).function
  start := hstart

/-- The functions that are not imported come after the others, and all have their code. -/
theorem StateOk.bodies_all {v : ValidationState} (h : StateOk src rank v)
    (hcode : v.summary.codeCount = v.summary.functionCount) :
    ∀ f ∈ v.context.functions, f.code.start.isSome = !f.imported := by
  intro f hf
  obtain ⟨j, hj⟩ := getElem?_of_mem hf
  have hflags : v.context.functions.map ValidationFunction.imported =
      itemFlags v.summary.importedFunctionCount v.summary.functionCount :=
    h.counted.items .function
  have hlen := congrArg List.length hflags
  rw [length_map, itemFlags_length] at hlen
  have hget := congrArg (fun l => l[j]?) hflags
  simp only [getElem?_map, hj] at hget
  have hjlt := lt_of_getElem? hj
  rcases j.lt_or_ge v.summary.importedFunctionCount with hlt | hge
  · -- an imported function
    rw [itemFlags, getElem?_append_left (by simpa using hlt),
      getElem?_replicate_of_lt hlt] at hget
    have himp : f.imported := some.inj hget
    rw [himp, (h.context.records.functions f hf).imported himp]
    rfl
  -- a function of the function section; then there is a code section
  rw [itemFlags, getElem?_append_right (by simpa using hge), length_replicate,
    getElem?_replicate_of_lt (by omega)] at hget
  have himp : f.imported = false := some.inj hget
  rcases h.bodies with hzero | hall
  · omega
  · obtain ⟨g, hg, hcode⟩ := hall j hge (by omega)
    rw [hj] at hg
    cases hg
    rw [himp, hcode]
    rfl

end Consistency

/-- **Every module that validation accepts is consistent.** -/
theorem validateSections_consistent {H : TypeHeap} {addr : Nat} {r : Reader} {v : ValidationState}
    (h : validateSections H addr r = .ok v) :
    ∃ secs, moduleSections r.remaining r = some secs ∧ Consistent secs v := by
  -- the bytes before the reader play no part
  have hr : r.Reads (.replicate r.cursor 0 ++ r.rest) := by
    refine ⟨by simp, ?_⟩
    simp
  obtain ⟨secs, rank, hsecs, hpass, hcode, hdata⟩ := validateSections_pass hr h
  have hst := hpass.state
  refine ⟨secs, hsecs, hpass.order.trans (take_sublist _ _), ?_, hst.bodies_all hcode,
    fun h12 => ?_, hpass.data.trans hst.counted.dataSegments.symm, hst.context.exportNames,
    hst.context.indices ?_, hst.counted⟩
  · rw [hpass.code, hpass.functions, hcode]
  · rw [hpass.dataCount, hdata (hpass.hasDataCount.mpr h12)]
    exact hst.counted.dataSegments.symm
  · intro hs
    have := hst.started hs
    rwa [profile, length_map] at this

/-- A module with one function, `() -> ()`, and an export of it. -/
def oneFunctionModule : Reader :=
  ⟨8, [1, 4, 1, 0x60, 0, 0, 3, 2, 1, 0, 7, 5, 1, 1, 0x66, 0, 0, 10, 4, 1, 2, 0, 0x0b]⟩

theorem validateSections_consistent_one : ∃ v,
    validateSections (fun _ => []) 0 oneFunctionModule = .ok v ∧ v.context.functions.length = 1 ∧
    ∃ secs, moduleSections oneFunctionModule.remaining oneFunctionModule = some secs ∧
      Consistent secs v :=
  ⟨_, rfl, rfl, validateSections_consistent
    (show validateSections (fun _ => []) 0 oneFunctionModule = .ok _ from rfl)⟩

/-- A module with a passive data segment and no memory: the segment's memory index, which is not in
use, is not below the number of memories. -/
theorem validateSections_passive : ∃ v,
    validateSections (fun _ => []) 0 ⟨8, [11, 4, 1, 1, 1, 0x61]⟩ = .ok v ∧
    ∃ d ∈ v.context.dataSegments, ¬ d.memoryIndex < v.context.memories.length :=
  ⟨_, rfl, _, mem_singleton.mpr rfl, by decide⟩

end TurboWasm
