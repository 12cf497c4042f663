/-
# Borrow counters

A handle that borrows claims the counter of a scope, the `borrowed_handles` of a task.  The
operations of `src/component_resource.c` keep every counter equal to the number of its claims, so a
counter at zero means that no borrow of the scope is left (`Counted`).

Before that, what each operation on resources checks and does, in terms of the map from handles to
entries; after it, which entries and counters a change leaves alone (`Frame`).
-/
import TurboWasm.Component.Table

namespace TurboWasm

open Lib List Option Function

namespace Table

variable {t t' : Table} {handle scope : Nat} {e : TableEntry}
/-! ## 1. What the operations do -/

theorem publish_spec (h : t.publish handle reservation identity rep = .ok t') :
    ∃ e, t.entry handle = some e ∧ e.kind = .reservation ∧ e.object = some reservation ∧
      t' = t.update handle fun e =>
        { e with kind := .resource, object := none, identity, rep, owned := true } := by
  obtain ⟨_, h⟩ := ite_error_pass h
  split at h
  · cases h
  rename_i e he
  obtain ⟨hn, h⟩ := ite_error_pass h
  simp only [not_or, not_not] at hn
  exact ⟨e, he, hn.1, hn.2, (Except.ok.inj h).symm⟩

/-- A borrowed handle claims its scope. -/
def borrowed (scope : Nat) (e : TableEntry) : TableEntry :=
  { e with owned := false, scope := some scope }

/-- Publishing a borrow writes its entry once. -/
theorem publishBorrowed_spec
    (h : t.publishBorrowed handle reservation identity rep scope = .ok t') :
    ∃ e, t.entry handle = some e ∧ e.kind = .reservation ∧ e.object = some reservation ∧
      t' = { t.update handle (fun e => borrowed scope { e with
        kind := .resource, object := none, identity, rep, owned := true }) with
          scopes := Function.update t.scopes scope (t.scopes scope + 1) } := by
  obtain ⟨-, h⟩ := ite_error_pass h
  obtain ⟨t₁, h₁, h⟩ := bind_eq_ok.mp h
  obtain ⟨e, he, hk, ho, rfl⟩ := publish_spec h₁
  obtain ⟨index, hd, -⟩ := entry_eq_some.mp he
  refine ⟨e, he, hk, ho, (Except.ok.inj h).symm.trans ?_⟩
  simp only [update, hd, modify_modify_eq]
  rfl

theorem resource_spec (h : t.resource handle identity = .ok e) :
    t.entry handle = some e ∧ e.kind = .resource ∧ e.identity = identity := by
  obtain ⟨_, h⟩ := ite_error_pass h
  split at h
  · cases h
  rename_i e' he
  obtain ⟨hn, h⟩ := ite_error_pass h
  cases h
  simp only [not_or, not_not] at hn
  exact ⟨he, hn⟩

theorem lendAcquire_spec (h : t.lendAcquire handle identity = .ok t') :
    ∃ e, t.entry handle = some e ∧ e.kind = .resource ∧
      t' = t.update handle fun e => { e with lendCount := e.lendCount + 1 } := by
  obtain ⟨e, he, h⟩ := bind_eq_ok.mp h
  obtain ⟨_, -, h⟩ := bind_eq_ok.mp h
  obtain ⟨hent, hk, -⟩ := resource_spec he
  exact ⟨e, hent, hk, (Except.ok.inj h).symm⟩

theorem lendRelease_spec (h : t.lendRelease handle identity = .ok t') :
    ∃ e, t.entry handle = some e ∧ e.kind = .resource ∧
      t' = t.update handle fun e => { e with lendCount := e.lendCount - 1 } := by
  obtain ⟨e, he, h⟩ := bind_eq_ok.mp h
  obtain ⟨_, -, h⟩ := bind_eq_ok.mp h
  obtain ⟨hent, hk, -⟩ := resource_spec he
  exact ⟨e, hent, hk, (Except.ok.inj h).symm⟩

theorem takeOwned_spec (h : t.takeOwned handle identity = .ok (rep, t')) :
    ∃ e, t.entry handle = some e ∧ e.kind = .resource ∧ e.owned ∧ e.lendCount = 0 ∧
      rep = e.rep ∧ t' = t.remove handle := by
  obtain ⟨e, he, h⟩ := bind_eq_ok.mp h
  obtain ⟨_, ho, h⟩ := bind_eq_ok.mp h
  obtain ⟨_, hl, h⟩ := bind_eq_ok.mp h
  obtain ⟨hent, hk, -⟩ := resource_spec he
  simp only [Except.ok.injEq, Prod.mk.injEq] at h
  exact ⟨e, hent, hk, by simpa using ho, by simpa using hl, h.1.symm, h.2.symm⟩

theorem resourceDrop_spec {rep : Option Value}
    (h : t.resourceDrop handle identity = .ok (rep, t')) :
    ∃ e, t.entry handle = some e ∧ e.kind = .resource ∧ e.lendCount = 0 ∧
      rep = (if e.owned then some e.rep else none) ∧ t' = t.remove handle := by
  obtain ⟨e, he, h⟩ := bind_eq_ok.mp h
  obtain ⟨_, hl, h⟩ := bind_eq_ok.mp h
  obtain ⟨_, -, h⟩ := bind_eq_ok.mp h
  obtain ⟨hent, hk, -⟩ := resource_spec he
  simp only [Except.ok.injEq, Prod.mk.injEq] at h
  exact ⟨e, hent, hk, by simpa using hl, h.1.symm, h.2.symm⟩

theorem resourceNew_spec {owned allocated : Bool} (ok : t.Ok)
    (h : t.resourceNew identity rep owned allocated = .ok (handle, t')) :
    ∃ g, t.Inserted handle { fresh g with kind := .resource, identity, rep, owned } t' ∧ t'.Ok := by
  obtain ⟨_, h⟩ := ite_error_pass h
  have spec := allocate_spec ok (fun _ => rfl) (fun _ => rfl) (fun _ => rfl) h
  exact spec

theorem scopeClear_spec (h : t.scopeClear scope = .ok t') :
    (∀ e ∈ t.entries, inScope scope e →
      e.kind = .resource ∧ e.owned = false ∧ e.lendCount = 0) ∧
      (t.entries.filter (inScope scope)).length ≤ t.scopes scope ∧
      t' = { t with
        entries := t.entries.map fun e => if inScope scope e then cleared e else e
        liveCount := t.liveCount - (t.entries.filter (inScope scope)).length
        scopes := Function.update t.scopes scope
          (t.scopes scope - (t.entries.filter (inScope scope)).length) } := by
  obtain ⟨hn, h⟩ := ite_error_pass h
  obtain ⟨hle, h⟩ := ite_error_pass h
  refine ⟨fun e he hs => ?_, Nat.le_of_not_lt hle, (Except.ok.inj h).symm⟩
  simp only [Bool.not_eq_true, List.any_eq_false, List.mem_filter] at hn
  have := hn e ⟨he, hs⟩
  simpa [and_assoc] using this

/-- Clearing a scope takes its handles away and leaves the others. -/
theorem entry_scopeClear (h : t.scopeClear scope = .ok t') (handle : Nat) :
    t'.entry handle = (t.entry handle).filter fun e => !inScope scope e := by
  obtain ⟨-, -, rfl⟩ := scopeClear_spec h
  unfold entry
  cases handleDecode handle with
  | none => rfl
  | some p =>
    obtain ⟨index, g⟩ := p
    simp only [getElem?_map]
    cases t.entries[index]? with
    | none => rfl
    | some e =>
      cases hs : inScope scope e <;> by_cases hg : e.occupied ∧ e.generation = g <;>
        simp [hg, hs, Option.filter]

theorem Ok.scopeClear (ok : t.Ok) (h : t.scopeClear scope = .ok t') : t'.Ok := by
  obtain ⟨-, -, rfl⟩ := scopeClear_spec h
  refine ok.of_entries (fun x hx => ?_) (by simpa using ok.size) rfl
  obtain ⟨e, he, rfl⟩ := mem_map.mp hx
  split
  · exact .inr (ok.entryOk he).cleared
  · exact .inl he

/-! ## 2. Claims -/

/-- The number of live handles that claim the counter of a scope. -/
def claims (t : Table) (scope : Nat) : Nat := t.entries.countP (inScope scope)

/-- Every counter is the number of its claims, and only resources claim one. -/
structure Counted (t : Table) : Prop where
  count : ∀ scope, t.scopes scope = t.claims scope
  kinds : ∀ e ∈ t.entries, e.scope.isSome → e.kind = .resource

/-- An empty table claims nothing. -/
theorem Counted.init {maxEntries : Nat} (h : Table.init maxEntries (fun _ => 0) = some t) :
    t.Counted := by
  obtain ⟨hentries, hscopes⟩ := init_spec h
  refine ⟨fun scope => ?_, fun e he => ?_⟩
  · rw [hscopes]
    simp [claims, hentries]
  · rw [hentries] at he
    cases he

theorem claims_le (ok : t.Ok) (scope : Nat) : t.claims scope ≤ maxSlots :=
  countP_le_length.trans (ok.size.trans ok.bound)

theorem mem_of_entry (h : t.entry handle = some e) : e ∈ t.entries := by
  obtain ⟨index, -, he, -⟩ := entry_eq_some.mp h
  exact mem_of_getElem? he

/-- A slot is written, which may be one that the table grew by. -/
def Wrote (t : Table) (index : Nat) (old new : TableEntry) (t' : Table) : Prop :=
  ∃ n, (t.entries ++ List.replicate n ({} : TableEntry))[index]? = some old ∧
    t'.entries = (t.entries ++ List.replicate n ({} : TableEntry)).set index new

section Wrote

theorem Wrote.countP (h : t.Wrote index old new t') (p : TableEntry → Bool) (hp : p {} = false) :
    t'.entries.countP p + (if p old then 1 else 0) =
      t.entries.countP p + if p new then 1 else 0 := by
  obtain ⟨n, hold, hset⟩ := h
  have hcount := countP_set_of p hold (b := new)
  rw [countP_append, countP_replicate, hp] at hcount
  rwa [hset]

theorem Wrote.mem (h : t.Wrote index old new t') (hx : x ∈ t'.entries) :
    x ∈ t.entries ∨ x = {} ∨ x = new := by
  obtain ⟨n, -, hset⟩ := h
  rw [hset] at hx
  rcases mem_or_eq_of_mem_set hx with hx | rfl
  · rw [mem_append, mem_replicate] at hx
    exact hx.imp_right fun hx => .inl hx.2
  · exact .inr (.inr rfl)

theorem Wrote.update (h : t.entry handle = some e) (f : TableEntry → TableEntry) :
    ∃ index, t.Wrote index e (f e) (t.update handle f) := by
  obtain ⟨index, hd, he, -⟩ := entry_eq_some.mp h
  refine ⟨index, 0, ?_, ?_⟩
  · simpa using he
  · simp [update_eq hd he]

theorem Wrote.remove (h : t.entry handle = some e) :
    ∃ index, t.Wrote index e (cleared e) (t.remove handle) := by
  simp only [Table.remove, h]
  exact Wrote.update h cleared

theorem Wrote.allocate {allocated : Bool} {fill : TableEntry → TableEntry} (ok : t.Ok)
    (h : t.allocate allocated fill = .ok (handle, t')) :
    ∃ index old g, t.Wrote index old (fill (fresh g)) t' ∧ old.occupied = false ∧
      old.retired = false ∧ old.generation ≤ g ∧ handleDecode handle = some (index, g) ∧
      t'.scopes = t.scopes ∧ t'.liveCount = t.liveCount + 1 := by
  obtain ⟨u, index, hu, hfree, h⟩ := allocate_cases h
  obtain ⟨uok, ⟨n, hn⟩, hsc, hlive⟩ : u.Ok ∧
      (∃ n, u.entries = t.entries ++ .replicate n ({} : TableEntry)) ∧ u.scopes = t.scopes ∧
      u.liveCount = t.liveCount := by
    rcases hu with rfl | hu
    · exact ⟨ok, ⟨0, by simp⟩, rfl, rfl⟩
    · obtain ⟨hn, -, -, hsc, hlive⟩ := grow_spec hu
      exact ⟨ok.grow hu, hn, hsc, hlive⟩
  obtain ⟨e, g, he, hocc, hret, hg, hd, rfl⟩ := claim_spec uok hfree h
  rw [hn] at he
  exact ⟨index, e, g, ⟨n, he, by rw [hn]⟩, hocc, hret, hg, hd, hsc, by rw [hlive]⟩

/-- The counters follow the claims of the slot that is written. -/
theorem Counted.wrote (hc : t.Counted) (h : t.Wrote index old new t')
    (hs : ∀ scope, t'.scopes scope + (if inScope scope old then 1 else 0) =
      t.scopes scope + if inScope scope new then 1 else 0)
    (hk : new.scope.isSome → new.kind = .resource) : t'.Counted where
  count scope := by
    have hcount := h.countP (inScope scope) rfl
    have hscope := hs scope
    rw [hc.count scope] at hscope
    unfold claims at hscope ⊢
    omega
  kinds x hx hsome := by
    rcases h.mem hx with hx | rfl | rfl
    · exact hc.kinds x hx hsome
    · cases hsome
    · exact hk hsome

end Wrote

theorem scopes_update (t : Table) (handle : Nat) (f : TableEntry → TableEntry) :
    (t.update handle f).scopes = t.scopes := by
  unfold update
  split <;> rfl

/-- An update that keeps the claim. -/
theorem Counted.update (hc : t.Counted) (h : t.entry handle = some e) (ho :
    (f e).occupied = e.occupied) (hs : (f e).scope = e.scope)
    (hk : (f e).scope.isSome → (f e).kind = .resource) : (t.update handle f).Counted := by
  obtain ⟨index, hw⟩ := Wrote.update h f
  refine hc.wrote hw (fun scope => ?_) hk
  rw [scopes_update, inScope, inScope, ho, hs]

theorem scopes_remove (h : t.entry handle = some e) :
    (t.remove handle).scopes = releaseScope t.scopes e.scope := by
  simp [Table.remove, h]

/-- A counter is at least one while an entry claims it. -/
theorem Counted.release (hc : t.Counted) (ok : t.Ok) (h : t.entry handle = some e) (scope : Nat) :
    releaseScope t.scopes e.scope scope + (if inScope scope e then 1 else 0) = t.scopes scope := by
  have hocc := entry_occupied h
  have hle := claims_le ok scope
  have hcount := hc.count scope
  cases hs : e.scope with
  | none => simp [inScope, hs, releaseScope]
  | some s =>
    by_cases hsc : scope = s
    · subst hsc
      have hin : inScope scope e := by simp [inScope, hs, hocc]
      have hpos : 0 < t.claims scope := countP_pos_iff.mpr ⟨e, mem_of_entry h, hin⟩
      simp only [releaseScope, update_self, hin, if_true, uint32Max]
      unfold maxSlots at hle
      omega
    · simp [inScope, hs, releaseScope, update_of_ne hsc, Ne.symm hsc]

theorem Counted.remove (hc : t.Counted) (ok : t.Ok) (handle : Nat) : (t.remove handle).Counted := by
  cases h : t.entry handle with
  | none =>
    simp only [Table.remove, h]
    exact hc
  | some e =>
    obtain ⟨index, hw⟩ := Wrote.remove h
    refine hc.wrote hw (fun scope => ?_) fun hsome => (by cases hsome)
    rw [scopes_remove h, hc.release ok h]
    simp [inScope]

/-- An insertion without a scope claims nothing. -/
theorem Counted.allocate {allocated : Bool} {fill : TableEntry → TableEntry} (hc : t.Counted)
    (ok : t.Ok) (hs : ∀ g, (fill (fresh g)).scope = none)
    (h : t.allocate allocated fill = .ok (handle, t')) : t'.Counted := by
  obtain ⟨index, old, g, hw, hocc, -, -, -, hsc, -⟩ := Wrote.allocate ok h
  refine hc.wrote hw (fun scope => ?_) fun hsome => ?_
  · simp [hsc, inScope, hocc, hs]
  · rw [hs] at hsome
    cases hsome

theorem Counted.publish (hc : t.Counted)
    (h : t.publish handle reservation identity rep = .ok t') : t'.Counted := by
  obtain ⟨e, he, -, -, rfl⟩ := publish_spec h
  exact hc.update he rfl rfl fun _ => rfl

theorem Counted.publishBorrowed (hc : t.Counted)
    (h : t.publishBorrowed handle reservation identity rep scope = .ok t') : t'.Counted := by
  obtain ⟨e, he, hkind, -, rfl⟩ := publishBorrowed_spec h
  have hnone : e.scope = none := by
    -- a reservation claims nothing
    cases hs : e.scope with
    | none => rfl
    | some s =>
      have := hc.kinds e (mem_of_entry he) (by simp [hs])
      rw [hkind] at this
      cases this
  have hocc := entry_occupied he
  obtain ⟨index, hw⟩ := Wrote.update he fun e => borrowed scope { e with
    kind := .resource, object := none, identity, rep, owned := true }
  refine hc.wrote hw (fun s => ?_) fun _ => rfl
  by_cases hs : s = scope
  · subst hs
    simp [inScope, borrowed, hocc, hnone]
  · simp [inScope, borrowed, hnone, Function.update_of_ne hs, Ne.symm hs]

theorem Counted.scopeClear (hc : t.Counted) (h : t.scopeClear scope = .ok t') :
    t'.Counted ∧ t'.scopes scope = 0 := by
  obtain ⟨-, -, rfl⟩ := scopeClear_spec h
  have hlen : (t.entries.filter (inScope scope)).length = t.claims scope :=
    List.countP_eq_length_filter.symm
  have hzero : t.scopes scope - (t.entries.filter (inScope scope)).length = 0 := by
    rw [hlen, hc.count scope, Nat.sub_self]
  refine ⟨⟨fun s => ?_, fun x hx hsome => ?_⟩, ?_⟩
  · simp only [claims, countP_map]
    by_cases hs : s = scope
    · subst hs
      rw [Function.update_self, hzero]
      symm
      rw [countP_eq_zero]
      intro e _
      simp only [Function.comp_apply]
      by_cases hin : inScope s e
      · rw [if_pos hin]
        simp [inScope]
      · rwa [if_neg hin]
    · -- the handles of the other scopes stay
      rw [update_of_ne hs, hc.count s]
      refine countP_congr fun e _ => ?_
      simp only [Function.comp_apply]
      by_cases hin : inScope scope e
      · rw [if_pos hin]
        simp only [inScope, Bool.and_eq_true, beq_iff_eq] at hin ⊢
        simp [hin.2, Ne.symm hs]
      · rw [if_neg hin]
  · obtain ⟨e, he, rfl⟩ := mem_map.mp hx
    by_cases hin : inScope scope e
    · rw [if_pos hin] at hsome
      cases hsome
    · rw [if_neg hin] at hsome ⊢
      exact hc.kinds e he hsome
  · simp [hzero]

/-! ## 3. What a change leaves alone -/

variable {kept : HandleKind → Prop}

/-- A change of the table that leaves the entries of some kinds alone and claims no counter that is
at zero, except one. -/
structure Frame (kept : HandleKind → Prop) (t : Table) (except : Option Nat) (t' : Table) : Prop where
  ok : t'.Ok
  counted : t'.Counted
  same : ∀ {handle : Nat} {e : TableEntry}, kept e.kind →
    (t'.entry handle = some e ↔ t.entry handle = some e)
  scopes : ∀ i, except ≠ some i → t.scopes i = 0 → t'.scopes i = 0

/-- A change of one entry that is not kept. -/
theorem Frame.replaced (new : Option TableEntry)
    (hold : ∀ x, t.entry handle = some x → ¬ kept x.kind) (ok : t'.Ok) (hc : t'.Counted)
    (hentry : ∀ h', t'.entry h' = if h' = handle then new else t.entry h')
    (hnew : ∀ x, new = some x → ¬ kept x.kind)
    (hscopes : ∀ i, except ≠ some i → t.scopes i = 0 → t'.scopes i = 0) :
    t.Frame kept except t' where
  ok := ok
  counted := hc
  same := by
    intro h' x hx
    rw [hentry]
    by_cases hh : h' = handle
    · subst hh
      rw [if_pos rfl]
      exact iff_of_false (fun heq => hnew x heq hx) fun heq => hold x heq hx
    · rw [if_neg hh]
  scopes := hscopes

theorem Frame.inserted {new : TableEntry} (hins : t.Inserted handle new t') (ok : t'.Ok)
    (hc : t'.Counted) (hk : ¬ kept new.kind) (except : Option Nat) : t.Frame kept except t' := by
  refine .replaced (some new) ?_ ok hc hins.entry ?_ fun i _ hi => by rw [hins.scopes, hi]
  · intro x hx
    rw [hins.free] at hx
    cases hx
  · intro x hx
    exact some.inj hx ▸ hk

theorem not_kept (h : t.entry handle = some e) (hset : ¬ kept e.kind) :
    ∀ x, t.entry handle = some x → ¬ kept x.kind := by
  intro x hx
  cases h.symm.trans hx
  exact hset

theorem Frame.update (ok : t.Ok) (hc : t.Counted)
    (h : t.entry handle = some e) (hset : ¬ kept e.kind)
    (hk : ¬ kept (f e).kind) (ho : (f e).occupied)
    (hg : (f e).generation = e.generation) (hr : (f e).retired = e.retired)
    (hs : (f e).scope = e.scope) (hres : (f e).scope.isSome → (f e).kind = .resource)
    (except : Option Nat) : t.Frame kept except (t.update handle f) := by
  refine .replaced (some (f e)) (not_kept h hset) (ok.update h ho hg hr)
    (hc.update h (ho.trans (entry_occupied h).symm) hs hres) (entry_update h ho hg) ?_ ?_
  · intro x hx
    exact some.inj hx ▸ hk
  · intro i _ hi
    rw [scopes_update, hi]

theorem Frame.remove (ok : t.Ok) (hc : t.Counted) (h : t.entry handle = some e)
    (hset : ¬ kept e.kind) (except : Option Nat) : t.Frame kept except (t.remove handle) := by
  refine .replaced none (not_kept h hset) (ok.remove handle) (hc.remove ok handle)
    (entry_remove h) ?_ ?_
  · intro x hx
    cases hx
  · intro i _ hi
    have hrelease := hc.release ok h i
    rw [scopes_remove h]
    omega

/-- A reservation becomes an owned resource. -/
theorem publish_entry (ok : t.Ok) (h : t.publish handle reservation identity rep = .ok t') :
    ∃ e, t.entry handle = some e ∧ e.kind = .reservation ∧ e.object = some reservation ∧ t'.Ok ∧
      t'.scopes = t.scopes ∧ ∀ h', t'.entry h' = if h' = handle then
        some { e with kind := .resource, object := none, identity, rep, owned := true }
        else t.entry h' := by
  obtain ⟨e, he, hk, ho, rfl⟩ := publish_spec h
  have hocc := entry_occupied he
  refine ⟨e, he, hk, ho, ok.update he hocc rfl rfl, scopes_update .., fun h' => ?_⟩
  rw [entry_update he hocc rfl]

/-- A reservation becomes a borrow that claims its scope. -/
theorem publishBorrowed_entry (ok : t.Ok)
    (h : t.publishBorrowed handle reservation identity rep scope = .ok t') :
    ∃ e, t.entry handle = some e ∧ e.kind = .reservation ∧ e.object = some reservation ∧ t'.Ok ∧
      t'.scopes = Function.update t.scopes scope (t.scopes scope + 1) ∧
      ∀ h', t'.entry h' = if h' = handle then some (borrowed scope { e with
        kind := .resource, object := none, identity, rep, owned := true }) else t.entry h' := by
  obtain ⟨e, he, hk, ho, rfl⟩ := publishBorrowed_spec h
  have hocc := entry_occupied he
  refine ⟨e, he, hk, ho, { ok.update he hocc rfl rfl with }, rfl, fun h' => ?_⟩
  exact entry_update he hocc rfl h'

/-- A borrow that is published claims the counter of its scope only. -/
theorem Frame.publishBorrowed (ok : t.Ok) (hc : t.Counted)
    (hv : ¬ kept .reservation) (hr : ¬ kept .resource)
    (h : t.publishBorrowed handle reservation identity rep scope = .ok t') :
    t.Frame kept (some scope) t' := by
  have hc' := hc.publishBorrowed h
  obtain ⟨e, he, hk, -, ok', hs, hent⟩ := publishBorrowed_entry ok h
  refine .replaced _ (not_kept he (hk ▸ hv)) ok' hc' hent (fun x hx => ?_) (fun i hi hzero => ?_)
  · cases hx
    exact hr
  · have hne : i ≠ scope := fun heq => hi (by rw [heq])
    rw [hs, update_of_ne hne, hzero]

theorem Frame.scopeClear (ok : t.Ok) (hc : t.Counted) (hr : ¬ kept .resource)
    (h : t.scopeClear scope = .ok t') : t.Frame kept none t' where
  ok := ok.scopeClear h
  counted := (hc.scopeClear h).1
  same := by
    intro handle e he
    rw [entry_scopeClear h, filter_eq_some_iff]
    constructor
    · rintro ⟨heq, -⟩
      exact heq
    intro heq
    refine ⟨heq, ?_⟩
    -- only resources claim a counter
    cases hs : e.scope with
    | none => simp [inScope, hs]
    | some s => exact absurd (hc.kinds e (mem_of_entry heq) (by simp [hs]) ▸ he) hr
  scopes i _ hi := by
    have hzero := (hc.scopeClear h).2
    obtain ⟨-, -, rfl⟩ := scopeClear_spec h
    show Function.update _ scope _ i = 0
    by_cases his : i = scope
    · subst his
      exact hzero
    · rw [update_of_ne his, hi]

end Table

end TurboWasm
