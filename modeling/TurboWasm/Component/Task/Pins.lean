/-
# Pins of waitable sets

A task that waits between callbacks and a builtin that waits both pin their set.  `PinsOk` says that
the wait counter of every registered set is the number of its pins and that every pinned handle is a
registered set; so a pin can always be given back, and a pinned set is not dropped.

The handle table changes under the sets; `Table.Frame` says that they are left alone.
-/
import TurboWasm.Component.Task.Model

namespace TurboWasm

open Lib Option Function Table TaskDomain

/-! ## 1. Changes of the table -/

namespace Table

variable {t : Table} {handle : Nat} {e : TableEntry}

/-- Every operation on the table leaves the sets alone. -/
theorem Frame.act (ok : t.Ok) (hc : t.Counted) {except : Option Nat} {a : TableAction}
    (h : t.act except a = some t') : t.Frame (· = .waitableSet) except t' := by
  -- an operation on a resource that keeps its claim
  have hres : ∀ {handle : Nat} {e : TableEntry} (_ : t.entry handle = some e)
      (_ : e.kind = .resource) {f : TableEntry → TableEntry}, (f e).kind = .resource →
      (f e).occupied = e.occupied → (f e).generation = e.generation →
      (f e).retired = e.retired → (f e).scope = e.scope →
      t.Frame (· = .waitableSet) except (t.update handle f) := by
    intro handle e he hk f hfk ho hg hr hs
    exact .update ok hc he (by rw [hk]; simp) (by rw [hfk]; simp) (ho.trans (entry_occupied he)) hg hr
      hs (fun _ => hfk) except
  cases a with
  | insert kind object allocated =>
    obtain ⟨hk, h⟩ := ite_none_pass h
    obtain ⟨⟨handle, t''⟩, hi, rfl⟩ := map_eq_some_iff.mp h
    rw [toOption_eq_some] at hi
    obtain ⟨g, hins, ok'⟩ := handleInsert_spec ok hi
    rcases ite_cases hi with ⟨_, h⟩ | ⟨_, h⟩
    · cases h
    · exact .inserted hins ok' (hc.allocate ok (fun _ => rfl) h) hk except
  | remove handle kind =>
    obtain ⟨hk, h⟩ := ite_none_pass h
    obtain ⟨⟨object, t''⟩, hr, rfl⟩ := map_eq_some_iff.mp h
    rw [toOption_eq_some] at hr
    obtain ⟨e, he, rfl, -, -, rfl⟩ := handleRemove_spec hr
    exact .remove ok hc he hk except
  | resourceNew identity rep owned allocated =>
    simp only [Table.act, map_eq_some_iff, toOption_eq_some] at h
    obtain ⟨⟨handle, t''⟩, h, rfl⟩ := h
    obtain ⟨g, hins, ok'⟩ := resourceNew_spec ok h
    obtain ⟨_, h⟩ := ite_error_pass h
    exact .inserted hins ok' (hc.allocate ok (fun _ => rfl) h) (by simp) except
  | publish handle reservation identity rep =>
    simp only [Table.act, toOption_eq_some] at h
    obtain ⟨e, he, hk, -, rfl⟩ := publish_spec h
    have hocc := entry_occupied he
    exact .update ok hc he (by rw [hk]; simp) (by simp) hocc rfl rfl rfl (fun _ => rfl) except
  | publishBorrowed handle reservation identity rep =>
    simp only [Table.act, bind_eq_some_iff, toOption_eq_some] at h
    obtain ⟨s, rfl, h⟩ := h
    exact .publishBorrowed ok hc (by simp) (by simp) h
  | lendAcquire handle identity =>
    simp only [Table.act, toOption_eq_some] at h
    obtain ⟨e, he, hk, rfl⟩ := lendAcquire_spec h
    exact hres he hk hk rfl rfl rfl rfl
  | lendRelease handle identity =>
    simp only [Table.act, toOption_eq_some] at h
    obtain ⟨e, he, hk, rfl⟩ := lendRelease_spec h
    exact hres he hk hk rfl rfl rfl rfl
  | takeOwned handle identity =>
    simp only [Table.act, map_eq_some_iff, toOption_eq_some] at h
    obtain ⟨⟨rep, t''⟩, h, rfl⟩ := h
    obtain ⟨e, he, hk, -, -, -, rfl⟩ := takeOwned_spec h
    exact .remove ok hc he (by rw [hk]; simp) except
  | resourceDrop handle identity =>
    simp only [Table.act, map_eq_some_iff, toOption_eq_some] at h
    obtain ⟨⟨rep, t''⟩, h, rfl⟩ := h
    obtain ⟨e, he, hk, -, -, rfl⟩ := resourceDrop_spec h
    exact .remove ok hc he (by rw [hk]; simp) except

end Table

/-! ## 2. Pins -/

/-- Every registered set counts its pins, and only registered sets are pinned. -/
structure PinsOk (table : Table) (sets : Nat → WaitSet) (pins : Nat → Nat) : Prop where
  registered : ∀ {handle : Nat} {e : TableEntry}, table.entry handle = some e →
    e.kind = .waitableSet →
    ∃ s, e.object = some s ∧ (sets s).handle = handle ∧ (sets s).waitCount = pins handle
  known : ∀ {s : Nat}, (sets s).handle ≠ 0 →
    ∃ e, table.entry (sets s).handle = some e ∧ e.kind = .waitableSet ∧ e.object = some s
  blank : ∀ {s : Nat}, (sets s).handle = 0 → sets s = {}
  pinned : ∀ {handle : Nat}, handle ≠ 0 → pins handle ≠ 0 →
    ∃ e, table.entry handle = some e ∧ e.kind = .waitableSet

namespace PinsOk

variable {table : Table} {sets : Nat → WaitSet} {pins : Nat → Nat} {d : TaskDomain}

/-- The handle zero is no pin. -/
theorem congr (ok : PinsOk table sets pins) (h : ∀ handle, handle ≠ 0 → pins' handle = pins handle) :
    PinsOk table sets pins' where
  registered he hk := by
    rw [h _ (entry_range he).1]
    exact ok.registered he hk
  known := ok.known
  blank := ok.blank
  pinned hne hp := ok.pinned hne (h _ hne ▸ hp)

theorem frame {table' : Table} {except : Option Nat} (ok : PinsOk table sets pins)
    (h : table.Frame (· = .waitableSet) except table') : PinsOk table' sets pins where
  registered he hk := ok.registered ((h.same hk).mp he) hk
  known hs := by
    obtain ⟨e, he, hk, ho⟩ := ok.known hs
    exact ⟨e, (h.same hk).mpr he, hk, ho⟩
  blank := ok.blank
  pinned hne hp := by
    obtain ⟨e, he, hk⟩ := ok.pinned hne hp
    exact ⟨e, (h.same hk).mpr he, hk⟩

/-- A set is found by its handle. -/
theorem getSet_eq_some (ok : PinsOk d.table d.sets pins) : d.getSet handle = some s ↔
    handle ≠ 0 ∧ (d.sets s).handle = handle := by
  unfold getSet
  constructor
  · intro h
    split at h
    · cases h
    rename_i s' ho
    rcases ite_cases h with ⟨heq, h⟩ | ⟨_, h⟩
    · cases h
      obtain ⟨e, he, -⟩ := handleObject_eq_some.mp ho
      exact ⟨(entry_range he).1, heq⟩
    · cases h
  · rintro ⟨hne, rfl⟩
    obtain ⟨e, he, hk, ho⟩ := ok.known hne
    have : d.table.handleObject (d.sets s).handle .waitableSet = some s :=
      handleObject_eq_some.mpr ⟨e, he, hk, by simp, ho⟩
    simp [this]

/-- The handle of a set is not the handle of another. -/
theorem handle_inj (ok : PinsOk table sets pins) (hne : (sets s).handle ≠ 0)
    (heq : (sets s').handle = (sets s).handle) : s' = s := by
  obtain ⟨e, he, -, ho⟩ := ok.known hne
  obtain ⟨e', he', -, ho'⟩ := ok.known (s := s') (heq ▸ hne)
  rw [heq, he] at he'
  cases he'
  rw [ho] at ho'
  exact (some.inj ho').symm

/-- The counter of a set is the number of its pins. -/
theorem waitCount_eq (ok : PinsOk table sets pins) (hne : (sets s).handle ≠ 0) :
    (sets s).waitCount = pins (sets s).handle := by
  obtain ⟨e, he, hk, ho⟩ := ok.known hne
  obtain ⟨s', ho', -, hc⟩ := ok.registered he hk
  rw [ho] at ho'
  rw [some.inj ho', hc]
  rw [some.inj ho']

/-- The counter of one set changes with its pins. -/
theorem recount (ok : PinsOk table sets pins) (hne : (sets s).handle ≠ 0) {count : Nat}
    (hcount : pins' (sets s).handle = count)
    (hrest : ∀ h, h ≠ 0 → h ≠ (sets s).handle → pins' h = pins h) :
    PinsOk table (update sets s { sets s with waitCount := count }) pins' where
  registered := by
    intro h e he hk
    obtain ⟨s', ho, hh, hc⟩ := ok.registered he hk
    refine ⟨s', ho, ?_⟩
    by_cases hs : s' = s
    · subst hs
      rw [update_self]
      exact ⟨hh, hcount.symm.trans (hh ▸ rfl)⟩
    · rw [update_of_ne hs]
      refine ⟨hh, hc.trans (hrest h (entry_range he).1 fun heq => ?_).symm⟩
      exact hs (ok.handle_inj hne (hh.trans heq))
  known := by
    intro s' hs'
    by_cases hs : s' = s
    · subst hs
      rw [update_self] at hs' ⊢
      exact ok.known hne
    · rw [update_of_ne hs] at hs' ⊢
      exact ok.known hs'
  blank := by
    intro s' hs'
    by_cases hs : s' = s
    · subst hs
      rw [update_self] at hs'
      exact absurd hs' hne
    · rw [update_of_ne hs] at hs' ⊢
      exact ok.blank hs'
  pinned := by
    intro h hh hp
    by_cases heq : h = (sets s).handle
    · obtain ⟨e, he, hk, -⟩ := ok.known hne
      exact ⟨e, heq ▸ he, hk⟩
    · exact ok.pinned hh (hrest h hh heq ▸ hp)

section

variable (ok : PinsOk d.table d.sets pins)

include ok

/-- One more pin. -/
theorem acquire (h : d.waitAcquire handle = some d') (pins' : Nat → Nat)
    (hself : handle ≠ 0 → pins' handle = pins handle + 1)
    (hrest : ∀ h, h ≠ 0 → h ≠ handle → pins' h = pins h) :
    handle ≠ 0 ∧ d' = { d with sets := d'.sets } ∧ PinsOk d.table d'.sets pins' := by
  unfold waitAcquire at h
  split at h
  · cases h
  rename_i s hs
  obtain ⟨hne, rfl⟩ := ok.getSet_eq_some.mp hs
  obtain ⟨_, h⟩ := ite_none_pass h
  cases h
  exact ⟨hne, rfl, ok.recount hne (by rw [hself hne, ok.waitCount_eq hne]) hrest⟩

/-- A pin is given back. -/
theorem release (hne : handle ≠ 0) (pins' : Nat → Nat) (hself : pins handle = pins' handle + 1)
    (hrest : ∀ h, h ≠ 0 → h ≠ handle → pins' h = pins h) :
    ∃ sets, d.waitRelease handle = some { d with sets } ∧ PinsOk d.table sets pins' := by
  obtain ⟨e, he, hk⟩ := ok.pinned hne (by omega)
  obtain ⟨s, -, rfl, hc⟩ := ok.registered he hk
  have hget : d.getSet (d.sets s).handle = some s := ok.getSet_eq_some.mpr ⟨hne, rfl⟩
  unfold waitRelease
  simp only [hget]
  rw [if_neg (by omega)]
  exact ⟨_, rfl, ok.recount hne (by omega) hrest⟩

/-- A pin is given back, as a task does it. -/
theorem releasePin (handle : Nat) (pins' : Nat → Nat)
    (hself : handle ≠ 0 → pins handle = pins' handle + 1)
    (hrest : ∀ h, h ≠ 0 → h ≠ handle → pins' h = pins h) :
    ∃ sets, d.releasePin handle = (none, { d with sets }) ∧ PinsOk d.table sets pins' := by
  unfold TaskDomain.releasePin
  by_cases hz : handle = 0
  · rw [if_pos hz]
    exact ⟨d.sets, rfl, ok.congr fun h hh => hrest h hh fun heq => hh (heq.trans hz)⟩
  · rw [if_neg hz]
    obtain ⟨sets, heq, hok⟩ := ok.release hz pins' (hself hz) hrest
    exact ⟨sets, by rw [heq], hok⟩

/-- A pinned set is not dropped. -/
theorem setDrop_eq_none (hne : handle ≠ 0)
    (hp : pins handle ≠ 0) (joined : Bool) : d.setDrop handle joined = none := by
  obtain ⟨e, he, hk⟩ := ok.pinned hne hp
  obtain ⟨s, -, rfl, hc⟩ := ok.registered he hk
  have hget : d.getSet (d.sets s).handle = some s := ok.getSet_eq_some.mpr ⟨hne, rfl⟩
  unfold setDrop
  simp only [hget]
  rw [if_pos (.inl (by omega))]

theorem setNew (tok : d.table.Ok) (hc : d.table.Counted) (h : d.setNew s allocated = some d') :
    ∃ table sets, d' = { d with table, sets } ∧ PinsOk table sets pins ∧ table.Ok ∧
      table.Counted ∧ table.scopes = d.table.scopes := by
  obtain ⟨hblank, h⟩ := ite_none_pass h
  split at h
  · cases h
  rename_i handle table hins
  cases h
  have hblank : d.sets s = {} := not_not.mp hblank
  have hcount := hc.allocate tok (fun _ => rfl) (show _ from hins)
  obtain ⟨g, spec, tok'⟩ := handleInsert_spec tok hins
  refine ⟨table, _, rfl, ?_, tok', hcount, spec.scopes⟩
  have hfree : pins handle = 0 := by
    by_contra hp
    obtain ⟨e, he, -⟩ := ok.pinned spec.range.1 hp
    rw [spec.free] at he
    cases he
  constructor
  · intro h e he hk
    rw [spec.entry] at he
    by_cases hh : h = handle
    · subst hh
      rw [if_pos rfl] at he
      refine ⟨s, some.inj he ▸ rfl, ?_⟩
      rw [update_self]
      exact ⟨rfl, hfree.symm⟩
    rw [if_neg hh] at he
    obtain ⟨s', ho, hh', hc'⟩ := ok.registered he hk
    have hs : s' ≠ s := fun heq => by
      rw [heq, hblank] at hh'
      exact (entry_range he).1 hh'.symm
    exact ⟨s', ho, by rw [update_of_ne hs]; exact ⟨hh', hc'⟩⟩
  · intro s' hs'
    by_cases hs : s' = s
    · subst hs
      rw [update_self] at hs' ⊢
      exact ⟨_, by rw [spec.entry, if_pos rfl], rfl, rfl⟩
    rw [update_of_ne hs] at hs' ⊢
    obtain ⟨e, he, hk, ho⟩ := ok.known hs'
    refine ⟨e, ?_, hk, ho⟩
    rw [spec.entry, if_neg fun heq => ?_, he]
    rw [heq, spec.free] at he
    cases he
  · intro s' hs'
    by_cases hs : s' = s
    · subst hs
      rw [update_self] at hs'
      exact absurd hs' spec.range.1
    · rw [update_of_ne hs] at hs' ⊢
      exact ok.blank hs'
  · intro h hh hp
    obtain ⟨e, he, hk⟩ := ok.pinned hh hp
    refine ⟨e, ?_, hk⟩
    rw [spec.entry, if_neg fun heq => ?_, he]
    rw [heq] at hp
    exact hp hfree

theorem setDrop (tok : d.table.Ok) (hc : d.table.Counted) (h : d.setDrop handle joined = some d') :
    ∃ table sets, d' = { d with table, sets } ∧ PinsOk table sets pins ∧ table.Ok ∧
      table.Counted ∧ ∀ i, d.table.scopes i = 0 → table.scopes i = 0 := by
  have hfree : handle ≠ 0 → pins handle = 0 := fun hne => by
    by_contra hp
    rw [ok.setDrop_eq_none hne hp] at h
    cases h
  unfold TaskDomain.setDrop at h
  split at h
  · cases h
  rename_i s hs
  obtain ⟨hne, rfl⟩ := ok.getSet_eq_some.mp hs
  obtain ⟨_, h⟩ := ite_none_pass h
  split at h
  · cases h
  rename_i object table hrem
  cases h
  obtain ⟨e, he, hk, -, -, rfl⟩ := handleRemove_spec hrem
  have hnone : e.scope = none := by
    cases hs : e.scope with
    | none => rfl
    | some s =>
      have := hc.kinds e (mem_of_entry he) (by simp [hs])
      rw [hk] at this
      cases this
  refine ⟨_, _, rfl, ?_, tok.remove _, hc.remove tok _, ?_⟩
  · constructor
    · intro h' x hx hxk
      rw [entry_remove he] at hx
      obtain ⟨hh, hx⟩ := ite_none_pass hx
      obtain ⟨s', ho, hh', hc'⟩ := ok.registered hx hxk
      have hs : s' ≠ s := fun heq => hh (by rw [← hh', heq])
      exact ⟨s', ho, by rw [update_of_ne hs]; exact ⟨hh', hc'⟩⟩
    · intro s' hs'
      by_cases hs : s' = s
      · subst hs
        rw [update_self] at hs'
        exact absurd rfl hs'
      · rw [update_of_ne hs] at hs' ⊢
        obtain ⟨x, hx, hxk, ho⟩ := ok.known hs'
        refine ⟨x, ?_, hxk, ho⟩
        rw [entry_remove he, if_neg fun heq => hs (ok.handle_inj hne heq), hx]
    · intro s' hs'
      by_cases hs : s' = s
      · subst hs
        rw [update_self]
      · rw [update_of_ne hs] at hs' ⊢
        exact ok.blank hs'
    · intro h' hh hp
      obtain ⟨x, hx, hxk⟩ := ok.pinned hh hp
      refine ⟨x, ?_, hxk⟩
      rw [entry_remove he, if_neg fun heq => ?_, hx]
      rw [heq] at hp
      exact hp (hfree hne)
  · intro i hi
    unfold remove
    rw [he]
    show releaseScope _ e.scope i = 0
    rwa [hnone]

end

end PinsOk

end TurboWasm
