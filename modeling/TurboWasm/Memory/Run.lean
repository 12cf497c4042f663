/-
# Runs over linear memories

Instances are created and their memories written, filled, copied, initialized and grown in any
order, through any chain of imports.  The invariant (`MemWorld.Ok`) says of every memory index of
every instance that it leads to a memory whose length is its pages times its page size, within every
limit.  Every operation is then equal to what it should be in terms of the bytes alone
(`MemoryBehaves`): it is carried out exactly when its range fits, in unbounded arithmetic.
-/
import TurboWasm.Memory.Model

namespace TurboWasm

open Lib Relation List Option MemWorld

/-! ## 1. The invariant -/

variable {w : MemWorld} {loc p : MemoryPtr}

/-- What holds of a memory with storage. -/
structure MemoryOk (P : Platform) (m : Memory) : Prop where
  storage : m.storageInitialized
  pageSize : m.pageSize = 1 ∨ m.pageSize = 65536
  length : m.data.length = m.pages * m.pageSize
  sizeMax : m.data.length ≤ P.sizeMax
  implementation : m.pages ≤ maximumPages m.memory64 m.pageSize
  declared : m.hasMaximum → m.pages ≤ m.maximumPages
  resource : m.resourceMaxBytes ≠ 0 → m.data.length ≤ m.resourceMaxBytes

/-- A memory is of a declared type, as far as its owner may promise. -/
structure MemoryOf (t : MemoryType) (m : Memory) : Prop where
  pageSize : m.pageSize = t.pageSize
  memory64 : m.memory64 = t.memory64
  shared : m.shared = t.shared
  maximum : t.limits.hasMaximum →
    m.hasMaximum ∧ m.maximumPages ≤ t.limits.maximum

/-- `p` leads to `loc`: it is the place itself, or a link to an earlier instance that leads there. -/
inductive Leads (w : MemWorld) (loc : MemoryPtr) : MemoryPtr → Prop where
  | here {inst : MemInstance} {decl : ValidationMemory} : w[loc.inst]? = some inst →
      inst.decls[loc.index]? = some decl → loc.index < inst.memories.length →
      decl.imported = false → Leads w loc loc
  | link {p binding : MemoryPtr} {inst : MemInstance} {decl : ValidationMemory} :
      w[p.inst]? = some inst → inst.decls[p.index]? = some decl →
      p.index < inst.memories.length → decl.imported →
      inst.linkedMemories[p.index]? = some (some binding) → binding.inst < p.inst →
      Leads w loc binding → Leads w loc p

/-- The invariant. -/
structure MemWorld.Ok (P : Platform) (w : MemWorld) : Prop where
  count : ∀ (k : Nat) (inst : MemInstance), w[k]? = some inst →
    inst.memories.length = inst.decls.length
  leads : ∀ (p : MemoryPtr) (inst : MemInstance) (decl : ValidationMemory),
    w[p.inst]? = some inst → inst.decls[p.index]? = some decl →
    ∃ loc m, Leads w loc p ∧ w.memoryAt loc = some m ∧ MemoryOk P m ∧ MemoryOf decl.type m

/-- The recursion finds the place, with fuel for the instances up to `p`. -/
theorem Leads.resolve (h : Leads w loc p) :
    ∀ fuel, p.inst < fuel → resolveMemory w fuel p = some loc := by
  induction h with
  | here hinst hdecl hlt himp =>
    intro fuel hfuel
    cases fuel with
    | zero => omega
    | succ fuel =>
      unfold resolveMemory
      simp [hinst, hdecl, himp, not_le.mpr hlt]
  | link hinst hdecl hlt himp hlink hearlier _ ih =>
    intro fuel hfuel
    cases fuel with
    | zero => omega
    | succ fuel =>
      unfold resolveMemory
      simp [hinst, hdecl, himp, not_le.mpr hlt, hlink]
      exact ih fuel (by omega)

theorem Leads.index_lt (h : Leads w loc p) :
    ∃ inst, w[p.inst]? = some inst ∧ p.index < inst.memories.length := by
  cases h with
  | here hinst _ hlt | link hinst _ hlt => exact ⟨_, hinst, hlt⟩

theorem Leads.lookup {m : Memory} (h : Leads w loc p)
    (hm : w.memoryAt loc = some m) : w.checkIndex p = .ok () ∧ w.find p = .ok (loc, m) ∧
      w.lookup p = .ok (loc, m) := by
  obtain ⟨inst, hinst, hlt⟩ := h.index_lt
  have hres : w.resolve p = some loc := h.resolve _ (lt_of_getElem? hinst)
  have hcheck : w.checkIndex p = .ok () := by
    simp [checkIndex, hinst, orFail, bind, Except.bind, not_le.mpr hlt]
  have hfind : w.find p = .ok (loc, m) := by
    simp [find, hres, hm, orFail, bind, Except.bind, pure, Except.pure]
  simp [MemWorld.lookup, hcheck, hfind, bind, Except.bind]

/-- `w'` has the instances of `w`, with their declarations, links and numbers of memories. -/
def KeepsLinks (w w' : MemWorld) : Prop :=
  ∀ (k : Nat) (inst : MemInstance), w[k]? = some inst → ∃ inst', w'[k]? = some inst' ∧
    inst'.decls = inst.decls ∧ inst'.linkedMemories = inst.linkedMemories ∧
    inst'.memories.length = inst.memories.length

theorem Leads.keeps {w' : MemWorld} (hk : KeepsLinks w w')
    (h : Leads w loc p) : Leads w' loc p := by
  induction h with
  | here hinst hdecl hlt himp =>
    obtain ⟨inst', hinst', hdecls, -, hlen⟩ := hk _ _ hinst
    exact .here hinst' (by rwa [hdecls]) (by rwa [hlen]) himp
  | link hinst hdecl hlt himp hlink hearlier _ ih =>
    obtain ⟨inst', hinst', hdecls, hlinks, hlen⟩ := hk _ _ hinst
    exact .link hinst' (by rwa [hdecls]) (by rwa [hlen]) himp (by rwa [hlinks]) hearlier ih

/-! ## 2. Changing one memory -/

section SetMemory

variable {w : MemWorld} {q : MemoryPtr} {n : Memory} {m : Memory}

theorem modify_get (f : MemInstance → MemInstance) (i k : Nat) :
    (w.modify i f)[k]? = w[k]?.map fun inst => if k = i then f inst else inst := by
  simp only [getElem?_modify, eq_comm]
  rfl

/-- A change of one instance leaves its declarations, links and number of memories. -/
theorem modify_keeps {f : MemInstance → MemInstance} (hf : ∀ inst : MemInstance,
    (f inst).decls = inst.decls ∧ (f inst).linkedMemories = inst.linkedMemories ∧
      (f inst).memories.length = inst.memories.length) : KeepsLinks w (w.modify i f) := by
  intro k inst h
  rw [modify_get, h, map_some]
  refine ⟨_, rfl, ?_⟩
  split
  · exact hf inst
  · exact ⟨rfl, rfl, rfl⟩

theorem memoryAt_setMemory (hq : w.memoryAt q = some m) (loc : MemoryPtr) :
    (w.setMemory q n).memoryAt loc = if loc = q then some n else w.memoryAt loc := by
  obtain ⟨inst, hinst, hget⟩ := bind_eq_some_iff.mp hq
  have hlt := lt_of_getElem? hget
  obtain ⟨i, j⟩ := q
  obtain ⟨k, l⟩ := loc
  simp only [memoryAt, setMemory, modify_get] at hinst hlt ⊢
  by_cases hk : k = i
  · subst hk
    by_cases hl : j = l
    · simp [hinst, ← hl, hlt]
    · simp [hinst, hl, Ne.symm hl]
  · simp [hk]

/-- The declared part of a memory never changes. -/
def SameShape (m n : Memory) : Prop :=
  n.pageSize = m.pageSize ∧ n.memory64 = m.memory64 ∧ n.shared = m.shared ∧
    n.hasMaximum = m.hasMaximum ∧ n.maximumPages = m.maximumPages

theorem MemoryOf.same {t : MemoryType} (h : MemoryOf t m) (hs : SameShape m n) : MemoryOf t n := by
  obtain ⟨hps, h64, hsh, hhm, hmp⟩ := hs
  refine ⟨hps.trans h.pageSize, h64.trans h.memory64, hsh.trans h.shared, fun hmax => ?_⟩
  rw [hhm, hmp]
  exact h.maximum hmax

/-- A change of one instance that leaves every good memory good and of its shape. -/
theorem MemWorld.Ok.modify (h : w.Ok P) {f : MemInstance → MemInstance}
    (hf : ∀ inst : MemInstance, (f inst).decls = inst.decls ∧
      (f inst).linkedMemories = inst.linkedMemories ∧
      (f inst).memories.length = inst.memories.length)
    (hm : ∀ {loc : MemoryPtr} {m : Memory}, w.memoryAt loc = some m → MemoryOk P m →
      ∃ n, memoryAt (w.modify i f) loc = some n ∧ MemoryOk P n ∧ SameShape m n) :
    MemWorld.Ok P (w.modify i f) := by
  have hback : ∀ {k : Nat} {inst' : MemInstance}, (w.modify i f)[k]? = some inst' →
      ∃ inst, w[k]? = some inst ∧ inst'.decls = inst.decls ∧
        inst'.memories.length = inst.memories.length := by
    intro k inst' h'
    rw [modify_get, map_eq_some_iff] at h'
    obtain ⟨inst, hinst, rfl⟩ := h'
    refine ⟨inst, hinst, ?_⟩
    split
    · exact ⟨(hf inst).1, (hf inst).2.2⟩
    · exact ⟨rfl, rfl⟩
  refine ⟨fun k inst' hinst' => ?_, fun p inst' decl hinst' hdecl => ?_⟩
  · obtain ⟨inst, hinst, hdecls, hlen⟩ := hback hinst'
    rw [hdecls, hlen, h.count k inst hinst]
  · obtain ⟨inst, hinst, hdecls, -⟩ := hback hinst'
    obtain ⟨loc, m, hleads, hget, hok, hof⟩ := h.leads p inst decl hinst (hdecls ▸ hdecl)
    obtain ⟨n, hget', hok', hs⟩ := hm hget hok
    exact ⟨loc, n, hleads.keeps (modify_keeps hf), hget', hok', hof.same hs⟩

/-- Replacing a memory by a good one of the same shape. -/
theorem MemWorld.Ok.setMemory {P : Platform} (h : w.Ok P)
    (hq : w.memoryAt q = some m) (hok : MemoryOk P n) (hs : SameShape m n) :
    (w.setMemory q n).Ok P := by
  refine h.modify (fun _ => ⟨rfl, rfl, length_set⟩) fun {loc m'} hm' hok' => ?_
  by_cases hloc : loc = q
  · subst hloc
    cases hq.symm.trans hm'
    exact ⟨n, (memoryAt_setMemory hq loc).trans (if_pos rfl), hok, hs⟩
  · exact ⟨m', ((memoryAt_setMemory hq loc).trans (if_neg hloc)).trans hm', hok', rfl, rfl, rfl, rfl, rfl⟩

end SetMemory

/-! ## 3. What the operations amount to -/

section Ops

variable {P : Platform} {m : Memory} {address offset width : Nat}

theorem MemoryOk.pageSize_pos (h : MemoryOk P m) : 0 < m.pageSize := by
  rcases h.pageSize with hp | hp <;> omega

/-- The product of pages and page size does not wrap. -/
theorem MemoryOk.size (h : MemoryOk P m) : m.pages ≤ uint64Max / m.pageSize ∧
    m.pages * m.pageSize % 2 ^ 64 = m.data.length := by
  have hle : m.pages * m.pageSize ≤ uint64Max := by
    rw [← h.length]
    exact h.sizeMax.trans P.sizeMax_le
  refine ⟨(Nat.le_div_iff_mul_le h.pageSize_pos).mpr hle, ?_⟩
  rw [h.length]
  simp only [uint64Max] at hle
  omega

/-- The range test, in unbounded arithmetic. -/
theorem storageRange_eq (h : MemoryOk P m) (ho : offset ≤ uint64Max) :
    storageRange P m address offset width =
      if address + offset + width ≤ m.data.length then .ok (address + offset)
      else .error .trapped := by
  obtain ⟨hpages, hsize⟩ := h.size
  have hmax := h.sizeMax
  have hle := P.sizeMax_le
  have hpos := h.pageSize_pos
  unfold storageRange
  rw [if_neg (by simp [h.storage]; omega)]
  by_cases hwrap : uint64Max - offset < address
  · rw [if_pos hwrap, if_neg (by omega)]
  rw [if_neg hwrap]
  have heff : (address + offset) % 2 ^ 64 = address + offset := by
    simp only [uint64Max] at hwrap ho
    omega
  simp only [heff, if_neg (not_lt.mpr hpages)]
  by_cases hfits : address + offset + width ≤ m.data.length
  · rw [if_pos hfits, if_neg (by omega)]
  · rw [if_neg hfits, if_pos (by omega)]

/-- New contents of the same length. -/
theorem MemoryOk.setData (h : MemoryOk P m) {data : List UInt8}
    (hlen : data.length = m.data.length) : MemoryOk P { m with data := data } :=
  ⟨h.storage, h.pageSize, hlen.trans h.length, hlen ▸ h.sizeMax, h.implementation, h.declared,
    fun hr => hlen ▸ h.resource hr⟩

/-- The conditions under which a memory grows. -/
structure CanGrow (P : Platform) (m : Memory) (delta : Nat) (allocated : Bool) : Prop where
  implementation : m.pages + delta ≤ maximumPages m.memory64 m.pageSize
  declared : m.hasMaximum → m.pages + delta ≤ m.maximumPages
  sizeMax : (m.pages + delta) * m.pageSize ≤ P.sizeMax
  resource : m.resourceMaxBytes ≠ 0 → (m.pages + delta) * m.pageSize ≤ m.resourceMaxBytes
  allocated : m.pages + delta = 0 ∨ allocated

/-- The memory after a growth by `delta` pages. -/
def Memory.grown (m : Memory) (delta : Nat) : Memory :=
  { m with pages := m.pages + delta, data := m.data ++ List.replicate (delta * m.pageSize) 0 }

theorem maximumPages_le (memory64 : Bool) (pageSize : Nat) :
    maximumPages memory64 pageSize ≤ uint64Max := by
  unfold maximumPages
  split <;> split <;> decide

/-- Growth, in unbounded arithmetic: it happens exactly under the conditions. -/
theorem growMemory_eq (h : MemoryOk P m) (delta : Nat) (hd : delta ≤ uint64Max) (allocated : Bool) :
    (CanGrow P m delta allocated → growMemory P m delta allocated = some (m.pages, m.grown delta)) ∧
    (¬ CanGrow P m delta allocated → growMemory P m delta allocated = none) := by
  have hpos := h.pageSize_pos
  have hmaxp := maximumPages_le m.memory64 m.pageSize
  have hsize := h.size.2
  have hle := P.sizeMax_le
  unfold growMemory
  by_cases hwrap : uint64Max - delta < m.pages
  · refine ⟨fun hg => ?_, fun _ => by rw [if_pos (.inr hwrap)]⟩
    have := hg.implementation
    omega
  rw [if_neg (by omega)]
  have hnext : (m.pages + delta) % 2 ^ 64 = m.pages + delta := by
    simp only [uint64Max] at hwrap hd
    omega
  simp only [hnext, hsize]
  by_cases hlim : maximumPages m.memory64 m.pageSize < m.pages + delta ∨
      m.hasMaximum ∧ m.maximumPages < m.pages + delta ∨ P.sizeMax / m.pageSize < m.pages + delta
  · refine ⟨fun hg => ?_, fun _ => by rw [if_pos hlim]⟩
    rcases hlim with hl | ⟨hm, hl⟩ | hl
    · have := hg.implementation
      omega
    · have := hg.declared hm
      omega
    · have := (Nat.le_div_iff_mul_le hpos).mpr hg.sizeMax
      omega
  rw [if_neg hlim]
  simp only [not_or, not_lt, not_and] at hlim
  have hbytes : (m.pages + delta) * m.pageSize ≤ P.sizeMax :=
    (Nat.le_div_iff_mul_le hpos).mp hlim.2.2
  have hnb : (m.pages + delta) * m.pageSize % 2 ^ 64 = (m.pages + delta) * m.pageSize := by
    simp only [uint64Max] at hle
    omega
  rw [hnb]
  by_cases hres : m.resourceMaxBytes ≠ 0 ∧ m.resourceMaxBytes < (m.pages + delta) * m.pageSize
  · refine ⟨fun hg => ?_, fun _ => by rw [if_pos hres]⟩
    have := hg.resource hres.1
    omega
  rw [if_neg hres]
  have hresLe : m.resourceMaxBytes ≠ 0 → (m.pages + delta) * m.pageSize ≤ m.resourceMaxBytes :=
    fun hr => not_lt.mp fun hlt => hres ⟨hr, hlt⟩
  have hcan : (m.pages + delta = 0 ∨ allocated) → CanGrow P m delta allocated :=
    fun ha => ⟨hlim.1, hlim.2.1, hbytes, hresLe, ha⟩
  by_cases hzero : (m.pages + delta) * m.pageSize = 0
  · have hpages : m.pages + delta = 0 := by
      rcases mul_eq_zero.mp hzero with hz | hz <;> omega
    rw [if_pos hzero]
    refine ⟨fun _ => ?_, fun hno => absurd (hcan (.inl hpages)) hno⟩
    have hdelta : delta = 0 := by omega
    subst hdelta
    simp [Memory.grown]
  rw [if_neg hzero]
  have hne : m.pages + delta ≠ 0 := fun hz => hzero (by rw [hz, zero_mul])
  cases allocated with
  | false =>
    refine ⟨fun hg => ?_, fun _ => rfl⟩
    rcases hg.allocated with hz | hz
    · exact absurd hz hne
    · cases hz
  | true =>
    refine ⟨fun _ => ?_, fun hno => absurd (hcan (.inr rfl)) hno⟩
    have hnew : (m.pages + delta) * m.pageSize - m.data.length = delta * m.pageSize := by
      rw [h.length, add_mul]
      omega
    simp [Memory.grown, hnew]

theorem MemoryOk.grown (h : MemoryOk P m) {delta : Nat} {allocated : Bool}
    (hg : CanGrow P m delta allocated) : MemoryOk P (m.grown delta) := by
  have hlen : (m.grown delta).data.length = (m.pages + delta) * m.pageSize := by
    simp [Memory.grown, h.length, add_mul]
  exact ⟨h.storage, h.pageSize, hlen, hlen ▸ hg.sizeMax, hg.implementation, hg.declared,
    fun hr => hlen ▸ hg.resource hr⟩

end Ops

/-! ## 4. New instances -/

section Create

variable {P : Platform} {w : MemWorld}
  {allocated : Nat → Bool} {decl : ValidationMemory} {m : Memory}

theorem bindMemories_get : ∀ {decls : List ValidationMemory} {bindings : List MemoryPtr},
    bindMemories w decls bindings = .ok () → ∀ {j : Nat} {binding : MemoryPtr}
      {decl : ValidationMemory}, bindings[j]? = some binding → decls[j]? = some decl →
      bindMemory w decl binding = .ok ()
  | _, [], _, j, _, _, hb, _ => by simp at hb
  | [], _ :: _, _, _, _, _, _, hd => by simp at hd
  | d :: decls, b :: bindings, h, j, binding, decl, hb, hd => by
    simp only [bindMemories, bind_eq_ok] at h
    obtain ⟨⟨⟩, hhead, htail⟩ := h
    cases j with
    | zero =>
      cases hb
      cases hd
      exact hhead
    | succ j => exact bindMemories_get htail (by simpa using hb) (by simpa using hd)

theorem allocateMemories_get : ∀
    {decls : List ValidationMemory} {index : Nat}
      {memories : List Memory}, allocateMemories P resource linked allocated index decls =
        .ok memories → memories.length = decls.length ∧ ∀ {j : Nat} {decl : ValidationMemory},
          decls[j]? = some decl → ∃ m, memories[j]? = some m ∧
            allocateMemory P resource (linked[index + j]?).join decl (allocated (index + j)) = .ok m
  | [], _, _, h => by
    cases h
    exact ⟨rfl, fun hd => by simp at hd⟩
  | d :: decls, index, _, h => by
    simp only [allocateMemories, bind_eq_ok] at h
    obtain ⟨m, hm, memories, hrest, hout⟩ := h
    cases hout
    obtain ⟨hlen, hget⟩ := allocateMemories_get hrest
    refine ⟨by simp [hlen], fun {j decl} hd => ?_⟩
    cases j with
    | zero =>
      cases hd
      exact ⟨m, rfl, hm⟩
    | succ j =>
      obtain ⟨m', hm', hal⟩ := hget (j := j) (by simpa using hd)
      refine ⟨m', by simpa using hm', ?_⟩
      rwa [show index + (j + 1) = index + 1 + j by omega]

/-- Fresh storage. -/
theorem allocateMemory_local {linked : Option MemoryPtr}
    {allocated : Bool} (h : allocateMemory P resource linked decl allocated = .ok m)
    (himp : decl.imported = false) (hvalid : decl.type.Valid) :
    MemoryOk P m ∧ MemoryOf decl.type m := by
  have hpos : 0 < decl.type.pageSize := by
    rcases hvalid.pageSize with hp | hp <;> omega
  simp only [allocateMemory, himp, Bool.false_eq_true, ↓reduceIte] at h
  split at h
  · cases h
  rename_i hsize
  split at h
  · cases h
  rename_i hres
  split at h
  · cases h
  simp only [not_or, not_lt] at hsize
  have hbytes := (Nat.le_div_iff_mul_le hpos).mp hsize.2
  cases h
  refine ⟨⟨rfl, hvalid.pageSize, by simp, by simpa using hbytes, hvalid.minimum,
    fun hmax => (hvalid.maximum hmax).1, fun hr => ?_⟩, rfl, rfl, rfl, fun hmax => ⟨hmax, le_rfl⟩⟩
  simpa using not_lt.mp fun hlt => hres ⟨hr, hlt⟩

/-- A binding that the linker accepts leads to a memory of the expected type. -/
theorem bindMemory_leads (h : w.Ok P) {binding : MemoryPtr}
    (hb : bindMemory w decl binding = .ok ()) : binding.inst < w.length ∧
      ∃ loc m, Leads w loc binding ∧ w.memoryAt loc = some m ∧ MemoryOk P m ∧
        MemoryOf decl.type m := by
  simp only [bindMemory, bind_eq_ok, orFail_eq_ok, failIf_eq_ok] at hb
  obtain ⟨provider, hprov, actual, hact, -, -, ⟨loc', m'⟩, hlook, hmatch⟩ := hb
  obtain ⟨loc, m, hleads, hm, hok, hof⟩ := h.leads binding provider actual hprov hact
  rw [(hleads.lookup hm).2.2] at hlook
  cases hlook
  simp only [Bool.or_eq_false_iff, bne_eq_false_iff_eq, Bool.not_eq_false', memoryLimitsMatch,
    Bool.and_eq_true, Bool.or_eq_true, decide_eq_true_eq] at hmatch
  obtain ⟨⟨⟨h64, hsh⟩, hps⟩, -, hmax⟩ := hmatch
  refine ⟨(lt_of_getElem? hprov), loc', m', hleads, hm, hok,
    hof.pageSize.trans hps.symm, hof.memory64.trans h64.symm, hof.shared.trans hsh.symm,
    fun hhas => ?_⟩
  rcases hmax with hno | hmax
  · rw [hhas] at hno
    cases hno
  · exact hmax

theorem append_keeps (inst : MemInstance) : KeepsLinks w (w ++ [inst]) := by
  intro k x hx
  exact ⟨x, by rw [getElem?_append_left (lt_of_getElem? hx), hx], rfl, rfl, rfl⟩

theorem memoryAt_append (h : w.memoryAt loc = some m)
    (inst : MemInstance) : memoryAt (w ++ [inst]) loc = some m := by
  obtain ⟨x, hx, hm⟩ := bind_eq_some_iff.mp h
  rwa [memoryAt, getElem?_append_left (lt_of_getElem? hx), hx]

/-- A new instance. -/
theorem MemWorld.Ok.create (h : w.Ok P) {w' : MemWorld} (hvalid : ∀ d ∈ decls, d.type.Valid)
    (hc : createInstance P w decls segments dropped resource bindings allocated = .ok w') :
    w'.Ok P := by
  simp only [createInstance, bind_eq_ok] at hc
  obtain ⟨⟨⟩, hbind, memories, halloc, hout⟩ := hc
  cases hout
  obtain ⟨hlen, hget⟩ := allocateMemories_get halloc
  refine ⟨fun k inst hinst => ?_, fun p inst decl hinst hdecl => ?_⟩
  · rw [getElem?_append] at hinst
    split at hinst
    · exact h.count k inst hinst
    · rw [getElem?_singleton] at hinst
      split at hinst
      · cases hinst
        exact hlen
      · cases hinst
  by_cases hp : p.inst < w.length
  · -- an earlier instance
    rw [getElem?_append_left hp] at hinst
    obtain ⟨loc, m, hleads, hm, hok, hof⟩ := h.leads p inst decl hinst hdecl
    exact ⟨loc, m, hleads.keeps (append_keeps _), memoryAt_append hm _, hok, hof⟩
  -- the new one
  have hnew := hinst
  rw [getElem?_append_right (by omega), getElem?_singleton] at hnew
  split at hnew
  · cases hnew
    obtain ⟨m, hm, hal⟩ := hget hdecl
    have hlt : p.index < memories.length := lt_of_getElem? hm
    cases himp : decl.imported with
    | false =>
      obtain ⟨hok, hof⟩ := allocateMemory_local hal himp (hvalid decl (mem_of_getElem? hdecl))
      refine ⟨p, m, .here hinst hdecl hlt himp, ?_, hok, hof⟩
      rwa [memoryAt, hinst]
    | true =>
      cases hb : bindings[p.index]? with
      | none => simp [allocateMemory, himp, hb] at hal
      | some binding =>
        obtain ⟨hearlier, loc, m', hleads, hm', hok, hof⟩ :=
          bindMemory_leads h (bindMemories_get hbind hb hdecl)
        refine ⟨loc, m', .link hinst hdecl hlt himp ?_ (by omega) (hleads.keeps (append_keeps _)),
          memoryAt_append hm' _, hok, hof⟩
        simp [hb]
  · cases hnew

end Create

/-! ## 5. Operations through links -/

section Behaviour

variable {P : Platform} {w : MemWorld} {m : Memory} {width : Nat}
  {address offset : Nat} {p loc : MemoryPtr}

/-- A range that fits is worked on; one that does not traps. -/
def access {α : Type} (m : Memory) (start width : Nat) (result : α) : Result α :=
  if start + width ≤ m.data.length then .ok result else .error .trapped

theorem access_ok {α : Type} {start : Nat} {result out : α}
    (h : access m start width result = .ok out) : start + width ≤ m.data.length ∧ result = out := by
  unfold access at h
  split at h
  · cases h
    exact ⟨‹_›, rfl⟩
  · cases h

/-- What the index `p`, which leads to the memory `m` at `loc`, is good for. -/
structure MemoryBehaves (P : Platform) (w : MemWorld) (p loc : MemoryPtr) (m : Memory) : Prop where
  read : ∀ address offset width, offset ≤ uint64Max →
    memoryReadBytes P w p address offset width =
      access m (address + offset) width (slice m.data (address + offset) width)
  write : ∀ address offset source, offset ≤ uint64Max →
    memoryWriteBytes P w p address offset source = access m (address + offset) source.length
      (w.setMemory loc { m with data := patch m.data (address + offset) source })
  fill : ∀ destination value length,
    memoryFillBytes P w p destination value length = access m destination length
      (w.setMemory loc { m with data := patch m.data destination (List.replicate length value) })
  borrowedRead : ∀ address offset width, offset ≤ uint64Max →
    borrowedRead P w p address offset width =
      if m.shared then .error .unsupported
      else access m (address + offset) width (slice m.data (address + offset) width)
  borrowedWrite : ∀ address offset source, offset ≤ uint64Max →
    borrowedWrite P w p address offset source =
      if m.shared then .error .unsupported
      else access m (address + offset) source.length
        (w.setMemory loc { m with data := patch m.data (address + offset) source })
  init : ∀ inst segment dropped dataIndex destination source length, w[p.inst]? = some inst →
    inst.segments[dataIndex]? = some segment → inst.segmentDropped[dataIndex]? = some dropped →
    memoryInit P w p.inst dataIndex p.index destination source length =
      if source + length ≤ (if dropped then 0 else segment.length) then
        access m destination length
          (w.setMemory loc { m with data := patch m.data destination (slice segment source length) })
      else .error .trapped
  grow : ∀ delta allocated, delta ≤ uint64Max →
    (CanGrow P m delta allocated → memoryGrow64 P w p delta allocated =
      .ok (m.pages, w.setMemory loc (m.grown delta))) ∧
    (¬ CanGrow P m delta allocated → memoryGrow64 P w p delta allocated = .ok (uint64Max, w))

theorem storageRange_bind (h : MemoryOk P m)
    (ho : offset ≤ uint64Max) {α : Type} (f : Nat → Result α) (result : α)
    (hf : f (address + offset) = .ok result) :
    (storageRange P m address offset width >>= f) = access m (address + offset) width result := by
  rw [storageRange_eq h ho, access]
  split
  · exact hf
  · rfl

theorem memoryBounds_bind (hl : Leads w loc p) (hm : w.memoryAt loc = some m) (h : MemoryOk P m)
    (ho : offset ≤ uint64Max) {α : Type} (f : MemoryPtr × Memory × Nat → Result α)
    (result : α) (hf : f (loc, m, address + offset) = .ok result) :
    (memoryBounds P w p address offset width >>= f) =
      if m.shared then .error .unsupported else access m (address + offset) width result := by
  obtain ⟨hpages, hsize⟩ := h.size
  have hmax := h.sizeMax
  have hle := P.sizeMax_le
  have hpos := h.pageSize_pos
  simp only [memoryBounds, (hl.lookup hm).2.2, ok_bind]
  cases m.shared with
  | true => rfl
  | false =>
    simp only [failIf_neg, Bool.false_eq_true, ↓reduceIte, access]
    by_cases hwrap : uint64Max - offset < address
    · rw [failIf_pos (by simpa using hwrap), if_neg (by omega)]
      rfl
    have heff : (address + offset) % 2 ^ 64 = address + offset := by
      simp only [uint64Max] at hwrap ho
      omega
    have hps : ¬ (m.pageSize = 0 ∨ uint64Max / m.pageSize < m.pages) := by omega
    rw [failIf_neg (by simpa using hwrap), ok_bind, failIf_neg (by simpa using hps), ok_bind]
    simp only [heff]
    by_cases hfits : address + offset + width ≤ m.data.length
    · rwa [if_pos hfits, failIf_neg (by simp; omega)]
    · rw [if_neg hfits, failIf_pos (by simp; omega)]
      rfl

/-- The operations on an index that leads to a good memory. -/
theorem Leads.behaves (hl : Leads w loc p)
    (hm : w.memoryAt loc = some m) (h : MemoryOk P m) : MemoryBehaves P w p loc m := by
  have hlook := (hl.lookup hm).2.2
  have hwrite : ∀ address offset source, offset ≤ uint64Max →
      memoryWriteBytes P w p address offset source = access m (address + offset) source.length
        (w.setMemory loc { m with data := patch m.data (address + offset) source }) := by
    intro address offset source ho
    simp only [memoryWriteBytes, hlook]
    exact storageRange_bind h ho _ _ rfl
  refine ⟨fun address offset width ho => ?_, hwrite, fun destination value length => ?_,
    fun address offset width ho => ?_, fun address offset source ho => ?_,
    fun inst segment dropped dataIndex destination source length hinst hseg hdrop => ?_,
    fun delta allocated hd => ?_⟩
  · simp only [memoryReadBytes, hlook]
    exact storageRange_bind h ho _ _ rfl
  · simp only [memoryFillBytes, hlook]
    have hzero : 0 ≤ uint64Max := Nat.zero_le _
    exact storageRange_bind h hzero _ _ rfl
  · exact memoryBounds_bind hl hm h ho _ _ rfl
  · exact memoryBounds_bind hl hm h ho _ _ rfl
  · simp only [memoryInit, hinst, hseg, hdrop, orFail, ok_bind]
    have hiff : rangeFits source length (if dropped then 0 else segment.length) ↔
        source + length ≤ (if dropped then 0 else segment.length) := by
      simp only [rangeFits, Bool.and_eq_true, decide_eq_true_eq]
      omega
    by_cases hfits : source + length ≤ (if dropped then 0 else segment.length)
    · have hlen : (slice segment source length).length = length := by
        refine length_slice ?_
        split at hfits <;> omega
      rw [failIf_neg (by simp [hiff.mpr hfits]), if_pos hfits, ok_bind,
        hwrite destination 0 _ (Nat.zero_le _), hlen]
      rfl
    · have hno : rangeFits source length (if dropped then 0 else segment.length) = false :=
        Bool.eq_false_iff.mpr fun hr => hfits (hiff.mp hr)
      rw [failIf_pos (by rw [hno]; rfl), if_neg hfits]
      rfl
  · obtain ⟨hyes, hno⟩ := growMemory_eq h delta hd allocated
    simp only [memoryGrow64, hlook, ok_bind]
    refine ⟨fun hg => ?_, fun hg => ?_⟩
    · simp only [hyes hg]
      rfl
    · simp only [hno hg]
      rfl

end Behaviour

/-! ## 6. Runs -/

/-- The operations that change a world. -/
inductive MemOp where
  | create (decls : List ValidationMemory) (segments : List (List UInt8)) (dropped : List Bool)
      (maxLinearMemoryBytes : Nat) (bindings : List MemoryPtr) (allocated : Nat → Bool)
  | write (p : MemoryPtr) (address offset : Nat) (source : List UInt8)
  | fill (p : MemoryPtr) (destination : Nat) (value : UInt8) (length : Nat)
  | copy (dst src : MemoryPtr) (destination source length : Nat)
  | init (inst dataIndex memoryIndex destination source length : Nat)
  | drop (inst dataIndex : Nat)
  | store (p : MemoryPtr) (address offset : Nat) (source : List UInt8)
  | grow (p : MemoryPtr) (delta : Nat) (allocated : Bool)

def MemOp.apply (P : Platform) (w : MemWorld) : MemOp → Result MemWorld
  | .create decls segments dropped maxBytes bindings allocated =>
    createInstance P w decls segments dropped maxBytes bindings allocated
  | .write p address offset source => memoryWriteBytes P w p address offset source
  | .fill p destination value length => memoryFillBytes P w p destination value length
  | .copy dst src destination source length => memoryCopyBytes P w dst src destination source length
  | .init inst dataIndex memoryIndex destination source length =>
    memoryInit P w inst dataIndex memoryIndex destination source length
  | .drop inst dataIndex => dataDrop w inst dataIndex
  | .store p address offset source => borrowedWrite P w p address offset source
  | .grow p delta allocated => (memoryGrow64 P w p delta allocated).map Prod.snd

/-- The declarations of a new instance come from a validated module, and the static offset of an
access and the operand of a growth are 64-bit. -/
def MemOp.Allowed : MemOp → Prop
  | .create decls _ _ _ _ _ => ∀ d ∈ decls, ∃ r r', readMemoryType r = .ok (d.type, r')
  | .write _ _ offset _ => offset ≤ uint64Max
  | .store _ _ offset _ => offset ≤ uint64Max
  | .grow _ delta _ => delta ≤ uint64Max
  | _ => True

/-- One operation, carried out or rejected. -/
inductive MemStep (P : Platform) : MemWorld → MemWorld → Prop where
  | done {w w' : MemWorld} {op : MemOp} : op.Allowed → op.apply P w = .ok w' → MemStep P w w'
  | rejected {w : MemWorld} {op : MemOp} {status : Status} : op.apply P w = .error status →
      MemStep P w w

abbrev MemRun (P : Platform) : MemWorld → MemWorld → Prop := ReflTransGen (MemStep P)

section Runs

variable {P : Platform} {w : MemWorld} {p : MemoryPtr}
  {destination length : Nat} {source : List UInt8}

/-- A checked index leads to a good memory. -/
theorem MemWorld.Ok.of_checkIndex (h : w.Ok P) (hc : w.checkIndex p = .ok ()) :
    ∃ loc m, Leads w loc p ∧ w.memoryAt loc = some m ∧ MemoryOk P m := by
  simp only [checkIndex, bind_eq_ok, orFail_eq_ok, failIf_eq_ok,
    decide_eq_false_iff_not, not_le] at hc
  obtain ⟨inst, hinst, hlt⟩ := hc
  rw [h.count _ inst hinst] at hlt
  obtain ⟨loc, m, hl, hm, hok, -⟩ := h.leads p inst _ hinst (getElem?_eq_getElem hlt)
  exact ⟨loc, m, hl, hm, hok⟩

theorem MemWorld.Ok.of_lookup (h : w.Ok P) {found : MemoryPtr × Memory}
    (hl : w.lookup p = .ok found) :
    ∃ loc m, w.memoryAt loc = some m ∧ MemoryOk P m ∧ MemoryBehaves P w p loc m := by
  obtain ⟨⟨⟩, hc, -⟩ := bind_eq_ok.mp hl
  obtain ⟨loc, m, hl, hm, hok⟩ := h.of_checkIndex hc
  exact ⟨loc, m, hm, hok, hl.behaves hm hok⟩

/-- Overwriting a range of a memory. -/
theorem MemWorld.Ok.patch (h : w.Ok P) {loc : MemoryPtr} {m : Memory}
    (hm : w.memoryAt loc = some m) (hok : MemoryOk P m) {pos : Nat} {bytes : List UInt8}
    (hfits : pos + bytes.length ≤ m.data.length) :
    (w.setMemory loc { m with data := Lib.patch m.data pos bytes }).Ok P :=
  h.setMemory hm (hok.setData (length_patch hfits)) ⟨rfl, rfl, rfl, rfl, rfl⟩

theorem memoryWriteBytes_ok (h : w.Ok P) (ho : offset ≤ uint64Max)
    (hw : memoryWriteBytes P w p address offset source = .ok w') : w'.Ok P := by
  obtain ⟨_, hl, -⟩ := bind_eq_ok.mp hw
  obtain ⟨loc, m, hm, hok, hb⟩ := h.of_lookup hl
  rw [hb.write address offset source ho] at hw
  obtain ⟨hfits, rfl⟩ := access_ok hw
  exact h.patch hm hok hfits

theorem memoryFillBytes_ok (h : w.Ok P) {value : UInt8}
    (hw : memoryFillBytes P w p destination value length = .ok w') : w'.Ok P := by
  obtain ⟨_, hl, -⟩ := bind_eq_ok.mp hw
  obtain ⟨loc, m, hm, hok, hb⟩ := h.of_lookup hl
  rw [hb.fill] at hw
  obtain ⟨hfits, rfl⟩ := access_ok hw
  exact h.patch hm hok (by simpa using hfits)

theorem borrowedWrite_ok (h : w.Ok P) (ho : offset ≤ uint64Max)
    (hw : borrowedWrite P w p address offset source = .ok w') : w'.Ok P := by
  obtain ⟨_, hbounds, -⟩ := bind_eq_ok.mp hw
  obtain ⟨_, hl, -⟩ := bind_eq_ok.mp hbounds
  obtain ⟨loc, m, hm, hok, hb⟩ := h.of_lookup hl
  rw [hb.borrowedWrite address offset source ho] at hw
  split at hw
  · cases hw
  obtain ⟨hfits, rfl⟩ := access_ok hw
  exact h.patch hm hok hfits

theorem memoryGrow64_ok (h : w.Ok P) {delta : Nat} {allocated : Bool}
    (hd : delta ≤ uint64Max) {previous : Nat}
    (hw : memoryGrow64 P w p delta allocated = .ok (previous, w')) : w'.Ok P := by
  obtain ⟨_, hl, -⟩ := bind_eq_ok.mp hw
  obtain ⟨loc, m, hm, hok, hb⟩ := h.of_lookup hl
  obtain ⟨hyes, hno⟩ := hb.grow delta allocated hd
  by_cases hg : CanGrow P m delta allocated
  · rw [hyes hg] at hw
    cases hw
    exact h.setMemory hm (hok.grown hg) ⟨rfl, rfl, rfl, rfl, rfl⟩
  · rw [hno hg] at hw
    cases hw
    exact h

/-- A copy between any two memories, or within one. -/
theorem memoryCopyBytes_eq {dstLoc srcLoc : MemoryPtr} {dm sm : Memory}
    (hd : Leads w dstLoc dst) (hdm : w.memoryAt dstLoc = some dm) (hdok : MemoryOk P dm)
    (hs : Leads w srcLoc src) (hsm : w.memoryAt srcLoc = some sm) (hsok : MemoryOk P sm)
    (destination source length : Nat) :
    memoryCopyBytes P w dst src destination source length =
      if destination + length ≤ dm.data.length ∧ source + length ≤ sm.data.length then
        .ok (w.setMemory dstLoc
          { dm with data := Lib.patch dm.data destination (slice sm.data source length) })
      else .error .trapped := by
  obtain ⟨hdc, hdf, -⟩ := hd.lookup hdm
  obtain ⟨hsc, hsf, -⟩ := hs.lookup hsm
  simp only [memoryCopyBytes, hdc, hsc, hdf, hsf, ok_bind,
    storageRange_eq hdok (Nat.zero_le _), storageRange_eq hsok (Nat.zero_le _), add_zero]
  by_cases h1 : destination + length ≤ dm.data.length
  · by_cases h2 : source + length ≤ sm.data.length
    · simp only [h1, h2]
      rfl
    · simp only [h1, h2]
      rfl
  · simp only [h1]
    rfl

theorem memoryCopyBytes_ok (h : w.Ok P) {source : Nat}
    (hw : memoryCopyBytes P w dst src destination source length = .ok w') : w'.Ok P := by
  have hc : w.checkIndex dst = .ok () ∧ w.checkIndex src = .ok () := by
    simp only [memoryCopyBytes, bind_eq_ok] at hw
    obtain ⟨⟨⟩, hdc, ⟨⟩, hsc, -⟩ := hw
    exact ⟨hdc, hsc⟩
  obtain ⟨dstLoc, dm, hd, hdm, hdok⟩ := h.of_checkIndex hc.1
  obtain ⟨srcLoc, sm, hs, hsm, hsok⟩ := h.of_checkIndex hc.2
  rw [memoryCopyBytes_eq hd hdm hdok hs hsm hsok] at hw
  split at hw
  · rename_i hfits
    cases hw
    refine h.patch hdm hdok ?_
    rw [length_slice hfits.2]
    exact hfits.1
  · cases hw

/-- Dropping a segment touches no memory. -/
theorem dataDrop_ok (h : w.Ok P) (hw : dataDrop w inst dataIndex = .ok w') :
    w'.Ok P := by
  simp only [dataDrop, bind_eq_ok] at hw
  obtain ⟨-, -, -, -, hout⟩ := hw
  cases hout
  refine h.modify (fun _ => ⟨rfl, rfl, rfl⟩) fun {loc m} hm hok =>
    ⟨m, ?_, hok, rfl, rfl, rfl, rfl, rfl⟩
  obtain ⟨x, hx, hget⟩ := bind_eq_some_iff.mp hm
  rw [memoryAt, modify_get, hx, map_some, bind_some]
  split <;> exact hget

/-- One step keeps the invariant. -/
theorem MemStep.ok (hstep : MemStep P w w') (h : w.Ok P) : w'.Ok P := by
  cases hstep with
  | rejected => exact h
  | @done _ op ha hw =>
    cases op with
    | create decls segments dropped maxBytes bindings allocated =>
      refine h.create (fun d hd => ?_) hw
      obtain ⟨r, r', hr⟩ := ha d hd
      exact readMemoryType_valid hr
    | write p address offset source => exact memoryWriteBytes_ok h ha hw
    | fill p destination value length => exact memoryFillBytes_ok h hw
    | copy dst src destination source length => exact memoryCopyBytes_ok h hw
    | init inst dataIndex memoryIndex destination source length =>
      simp only [MemOp.apply, memoryInit, bind_eq_ok] at hw
      obtain ⟨impl, -, segment, -, dropped, -, ⟨⟩, -, hw⟩ := hw
      exact memoryWriteBytes_ok h (Nat.zero_le _) hw
    | drop inst dataIndex => exact dataDrop_ok h hw
    | store p address offset source => exact borrowedWrite_ok h ha hw
    | grow p delta allocated =>
      simp only [MemOp.apply] at hw
      cases hg : memoryGrow64 P w p delta allocated with
      | error e =>
        rw [hg] at hw
        cases hw
      | ok out =>
        rw [hg] at hw
        cases hw
        exact memoryGrow64_ok h ha hg

/-- A whole run keeps the invariant. -/
theorem MemRun.ok (hrun : MemRun P w w') (h : w.Ok P) : w'.Ok P := by
  induction hrun with
  | refl => exact h
  | tail _ hstep ih => exact hstep.ok ih

end Runs

/-! ## 7. The main result -/

end TurboWasm
