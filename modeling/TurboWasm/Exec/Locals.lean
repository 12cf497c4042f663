/-
# Definite assignment

The validator marks a local as initialized at its first `local.set` or `local.tee` and keeps a journal
of these marks, which it rolls back at `else` and `end` (`turbowasm_control_reset_locals`).  The flags
are the initial ones together with the journal (`JournalOk`), and the journal at an open structured
instruction is a suffix of the current one (`journalAt_suffix`), so rolling back restores it exactly.

At run time a position can be reached along many paths.  `needed i` is the journal that every one of
them guarantees: at `else` and `end` the one at the opener, elsewhere the current one.  The flow of
the body keeps it below the locals that were written (`needed_flow`), so a `local.get` that the
validator accepted reads a local that was written.  In the other direction a mark stays while its
block is open and its arm lasts (`journalAt_stays`).
-/
import TurboWasm.Exec.ControlRun

namespace TurboWasm

open Lib List Option

/-! ## 1. The journal -/

/-- The flags are the initial ones and the marks of the journal, which holds each local once. -/
structure JournalOk (initial : List Bool) (c : ControlStack) : Prop where
  flags : ∀ x : Nat, c.localsInitialized[x]? =
    (initial[x]?).map fun b => b || decide (x ∈ c.initializedLocals)
  nodup : c.initializedLocals.Nodup
  fresh : ∀ x ∈ c.initializedLocals, initial[x]? = some false

section Journal

variable {c : ControlStack} {x : Nat}

theorem JournalOk.of_eq (h : JournalOk initial c) (hflags : c'.localsInitialized = c.localsInitialized)
    (hjournal : c'.initializedLocals = c.initializedLocals) : JournalOk initial c' := by
  obtain ⟨h₁, h₂, h₃⟩ := h
  rw [← hflags, ← hjournal] at h₁
  rw [← hjournal] at h₂ h₃
  exact ⟨h₁, h₂, h₃⟩

theorem initLocal_journal : (c.initLocal x).initializedLocals = c.initializedLocals ∨
    (c.initLocal x).initializedLocals = x :: c.initializedLocals := by
  unfold ControlStack.initLocal
  split
  · exact .inr rfl
  · exact .inl rfl

theorem JournalOk.init (h : JournalOk initial c) : JournalOk initial (c.initLocal x) := by
  unfold ControlStack.initLocal
  split
  · rename_i hfalse
    obtain ⟨b, hb, hor⟩ := map_eq_some_iff.mp ((h.flags x).symm.trans hfalse)
    obtain ⟨rfl, hnot⟩ := Bool.or_eq_false_iff.mp hor
    have hx : x ∉ c.initializedLocals := of_decide_eq_false hnot
    refine ⟨fun y => ?_, nodup_cons.mpr ⟨hx, h.nodup⟩, fun y hy => ?_⟩
    · rw [getElem?_set, h.flags y]
      by_cases hxy : x = y
      · subst hxy
        have hlt := lt_of_getElem? hfalse
        simp [hb, hlt]
      · simp [hxy, Ne.symm hxy]
    · rcases mem_cons.mp hy with rfl | hy
      · exact hb
      · exact h.fresh y hy
  · exact h

/-- A set marks its local. -/
theorem JournalOk.marked (h : JournalOk initial c) (hx : x < initial.length) :
    initial[x]? = some true ∨ x ∈ (c.initLocal x).initializedLocals := by
  have hget : initial[x]? = some (initial.get ⟨x, hx⟩) := getElem?_eq_getElem _
  cases hb : initial.get ⟨x, hx⟩ with
  | true => exact .inl (hget.trans (congrArg some hb))
  | false =>
    right
    have hflag := h.flags x
    rw [hget, hb, map_some, Bool.false_or] at hflag
    by_cases hmem : x ∈ c.initializedLocals
    · rcases initLocal_journal (c := c) (x := x) with heq | heq <;> rw [heq]
      · exact hmem
      · exact mem_cons_self
    · rw [decide_eq_false hmem] at hflag
      rw [ControlStack.initLocal, if_pos hflag]
      exact mem_cons_self

theorem getElem?_unset : ∀ {l : List Nat} {flags : List Bool},
    (l.foldl (fun l i => l.set i false) flags)[x]? =
      if x ∈ l then (flags[x]?).map fun _ => false else flags[x]?
  | [], flags => by simp
  | y :: l, flags => by
    rw [foldl_cons, getElem?_unset, getElem?_set]
    by_cases hxy : y = x
    · subst hxy
      by_cases hlt : y < flags.length
      · simp [hlt]
      · simp [hlt]
    · simp [hxy, Ne.symm hxy]

/-- Rolling back takes the last marks away. -/
theorem JournalOk.reset (h : JournalOk initial c) (height : Nat) :
    JournalOk initial (c.resetLocals height) := by
  have hsplit := take_append_drop (c.initializedLocals.length - height) c.initializedLocals
  have hnodup := h.nodup
  rw [← hsplit] at hnodup
  obtain ⟨-, hrest, hdisjoint⟩ := nodup_append.mp hnodup
  refine ⟨fun x => ?_, hrest, fun x hx => h.fresh x (mem_of_mem_drop hx)⟩
  show (List.foldl _ c.localsInitialized _)[x]? = _
  rw [getElem?_unset, h.flags x]
  have hmem : x ∈ c.initializedLocals ↔
      x ∈ c.initializedLocals.take (c.initializedLocals.length - height) ∨
      x ∈ c.initializedLocals.drop (c.initializedLocals.length - height) := by
    rw [← mem_append, hsplit]
  by_cases htake : x ∈ c.initializedLocals.take (c.initializedLocals.length - height)
  · have hnot : x ∉ c.initializedLocals.drop (c.initializedLocals.length - height) :=
      fun hdrop => hdisjoint x htake x hdrop rfl
    rw [if_pos htake, h.fresh x (hmem.mpr (.inl htake))]
    simp [ControlStack.resetLocals, hnot]
  · rw [if_neg htake]
    rw [decide_eq_decide.mpr (hmem.trans (or_iff_right htake))]
    rfl

theorem resetLocals_journal {l : List Nat} (h : l <:+ c.initializedLocals) :
    (c.resetLocals l.length).initializedLocals = l :=
  (suffix_iff_eq_drop.mp h).symm

end Journal

/-! ## 2. The journal over the body -/

section Inside

variable {p m i j : Nat}

/-- While the nest of a position stays open, what is closed was opened after the position. -/
theorem closes_inside (hp : w p = .other) (hblock : opens w p <:+ opens w i) (hw : w m = .closer)
    (hopens : opens w m = j :: opens w j) (hpm : p < m) (hmi : m < i) : p < j := by
  have hj : j ∈ opens w m := by rw [hopens]; exact mem_cons_self
  rcases p.lt_trichotomy j with hlt | rfl | hgt
  · exact hlt
  · have := opener_of_mem_opens hj
    rw [hp] at this
    cases this
  · -- an opener before the position is open at it, so it cannot be closed
    have hjp : j ∈ opens w p := mem_opens_between hj hgt (hpm.le)
    have hmem : j ∈ opens w (m + 1) := mem_opens_between (hblock.subset hjp) (by omega) hmi
    rw [opens_closed hw hopens] at hmem
    exact absurd (lt_of_mem_opens hmem) j.lt_irrefl

theorem splits_inside (hp : w p = .other) (hblock : opens w p <:+ opens w i)
    (hopens : opens w m = j :: opens w j) (hpm : p < m) (hmi : m ≤ i) (hne : opens w m ≠ opens w p) :
    p < j := by
  have hj : j ∈ opens w m := by rw [hopens]; exact mem_cons_self
  rcases p.lt_trichotomy j with hlt | rfl | hgt
  · exact hlt
  · have := opener_of_mem_opens hj
    rw [hp] at this
    cases this
  -- otherwise it is the innermost one at the position as well
  exfalso
  have hjp : j ∈ opens w p := mem_opens_between hj hgt (hpm.le)
  cases hhead : opens w p with
  | nil =>
    rw [hhead] at hjp
    cases hjp
  | cons k rest =>
    have hk : opens w p = k :: opens w k := opens_head (by rw [hhead]; rfl)
    have hkp : k ∈ opens w p := by rw [hk]; exact mem_cons_self
    have hkm : k ∈ opens w m :=
      mem_opens_between (hblock.subset hkp) ((lt_of_mem_opens hkp).trans hpm) hmi
    rw [hopens] at hkm hne
    rw [hk] at hjp hne
    rcases mem_cons.mp hkm with rfl | hkj
    · exact hne rfl
    · rcases mem_cons.mp hjp with rfl | hjk
      · exact lt_irrefl _ (lt_of_mem_opens hkj)
      · exact lt_asymm (lt_of_mem_opens hkj) (lt_of_mem_opens hjk)

end Inside

section Positions

variable {H : TypeHeap} {ctx : ValidationContext} {env : BodyEnv} {st₀ : BodyState}
  {code : Reader} {is : List Instr} {n i j : Nat} {x : Instr} {st : BodyState}

/-- The journal before instruction `i`. -/
def journalAt (H : TypeHeap) (ctx : ValidationContext) (env : BodyEnv) (st₀ : BodyState)
    (is : List Instr) (i : Nat) : List Nat :=
  match stateAt H ctx env st₀ is i with
  | .ok st => st.controls.initializedLocals
  | .error _ => []

theorem journalAt_eq (h : stateAt H ctx env st₀ is i = .ok st) :
    journalAt H ctx env st₀ is i = st.controls.initializedLocals := by
  rw [journalAt, h]

/-- What an instruction does to the journal: it is rolled back, or it grows by at most one local. -/
def JournalStep (is : List Instr) (i : Nat) (x : Instr) (journal : Nat → List Nat) : Prop :=
  (∃ j, opens (word is) i = j :: opens (word is) j ∧ (word is i = .closer ∨ word is i = .middle) ∧
      journal (i + 1) = journal j) ∨
    (word is i = .opener ∨ word is i = .other) ∧ (journal (i + 1) = journal i ∨
      ∃ index, (x.op = .localSet ∨ x.op = .localTee) ∧ x.args.uleb32 = some (index, x.next) ∧
        journal (i + 1) = index :: journal i)

namespace PassTo

variable (h : PassTo H ctx env st₀ code is n)

include h

/-- What an instruction does to the journal, given that rolling back at it is exact. -/
theorem journal_step (hi : i < n) (hx : is[i]? = some x)
    (hsuffix : ∀ {j}, opens (word is) i = j :: opens (word is) j →
      journalAt H ctx env st₀ is j <:+ journalAt H ctx env st₀ is i) :
    JournalStep is i x (journalAt H ctx env st₀ is) := by
  obtain ⟨st, st', hst, hst', hstep⟩ := h.steps hi hx
  have hinv := h.inv (hi.le) hst
  rw [journalAt_eq hst] at hsuffix
  -- rolling back to the height of the innermost frame restores the journal at its opener
  have hroll : ∀ {j : Nat} {frame : ControlFrame} {c : ControlStack},
      opens (word is) i = j :: opens (word is) j → FrameOf H ctx env st₀ is i j frame →
      c.initializedLocals = st.controls.initializedLocals →
      (c.resetLocals frame.initHeight).initializedLocals = journalAt H ctx env st₀ is j := by
    intro j frame c hopens hj hc
    obtain ⟨stj, hstj, hheight⟩ := hj.height
    have hl := hsuffix hopens
    rw [journalAt_eq hstj] at hl ⊢
    rw [hheight]
    exact resetLocals_journal (by rw [hc]; exact hl)
  rw [JournalStep, journalAt_eq hst, journalAt_eq hst', word_eq hx]
  cases hstep with
  | opens kind frame control ho =>
    refine .inr ⟨.inl ?_, .inl (by rw [ho.controls])⟩
    have hkind := ho.op
    cases hop : x.op <;> rw [hop] at hkind <;> first | rfl | cases hkind
  | splits frame frames control hs =>
    obtain ⟨j, -, -, -, -, hopens, hj, -⟩ := hinv.top hs.top (.inl (by rw [hs.arm.1]; decide))
    refine .inl ⟨j, hopens, .inr (by rw [hs.op]; rfl), ?_⟩
    rw [hs.controls]
    exact hroll hopens hj rfl
  | closes frame frames control hc =>
    obtain ⟨j, -, -, -, -, hopens, hj, -⟩ := hinv.top hc.top (.inr hc.inner)
    refine .inl ⟨j, hopens, .inl (by rw [hc.op]; rfl), ?_⟩
    rw [hc.controls]
    exact hroll hopens hj rfl
  | sets index hop hindex hlocal hcontrols hrecords =>
    refine .inr ⟨.inr (by rcases hop with hop | hop <;> rw [hop] <;> rfl), ?_⟩
    rw [hcontrols]
    rcases initLocal_journal (c := st.controls) (x := index) with heq | heq
    · exact .inl heq
    · exact .inr ⟨index, hop, hindex, heq⟩
  | plain stack hop hset hvalid hcontrols hrecords =>
    exact .inr ⟨.inr hop, .inl (by rw [hcontrols])⟩

/-- **The journal at an open structured instruction is a suffix of the current one.** -/
theorem journalAt_suffix : ∀ {i : Nat}, i ≤ n → j ∈ opens (word is) i →
    journalAt H ctx env st₀ is j <:+ journalAt H ctx env st₀ is i := by
  intro i
  induction i using Nat.strong_induction_on generalizing j with
  | _ i ih =>
    intro hi hj
    cases i with
    | zero => cases hj
    | succ i =>
      obtain ⟨x, hx⟩ := h.instr hi
      have hsuffix : ∀ {j}, opens (word is) i = j :: opens (word is) j →
          journalAt H ctx env st₀ is j <:+ journalAt H ctx env st₀ is i := by
        intro k hk
        exact ih i i.lt_succ_self (le_of_lt hi) (by rw [hk]; exact mem_cons_self)
      rcases h.journal_step hi hx hsuffix with ⟨k, hopens, hw, heq⟩ | ⟨hw, hjournal⟩
      · -- the nest is the one at `k`, with `k` itself after `else`
        rw [heq]
        have hk : k < i := lt_of_mem_opens (by rw [hopens]; exact mem_cons_self)
        have hmem : j = k ∨ j ∈ opens (word is) k := by
          rcases hw with hw | hw
          · rw [opens_closed hw hopens] at hj
            exact .inr hj
          · rw [opens_middle hw, hopens] at hj
            exact mem_cons.mp hj
        rcases hmem with rfl | hmem
        · exact suffix_rfl
        · exact ih k (by omega) (by omega) hmem
      have hgrows : journalAt H ctx env st₀ is i <:+ journalAt H ctx env st₀ is (i + 1) := by
        rcases hjournal with heq | ⟨index, -, -, heq⟩
        · exact ⟨[], heq.symm⟩
        · rw [heq]
          exact suffix_cons _ _
      have hmem : j = i ∨ j ∈ opens (word is) i := by
        rcases hw with hw | hw
        · rw [opens_opener hw] at hj
          exact mem_cons.mp hj
        · rw [opens_other hw] at hj
          exact .inr hj
      rcases hmem with rfl | hmem
      · exact hgrows
      · exact (ih i i.lt_succ_self (le_of_lt hi) hmem).trans hgrows

/-- What an instruction does to the journal. -/
theorem journalAt_succ (hi : i < n) (hx : is[i]? = some x) :
    JournalStep is i x (journalAt H ctx env st₀ is) :=
  h.journal_step hi hx fun hopens =>
    h.journalAt_suffix (hi.le) (by rw [hopens]; exact mem_cons_self)

/-- After an opener the journal is the same, and after the `else` or `end` that belongs to it as
well. -/
theorem journalAt_restored (hi : i < n) (hw : word is i = .closer ∨ word is i = .middle)
    (hopens : opens (word is) i = j :: opens (word is) j) :
    journalAt H ctx env st₀ is (i + 1) = journalAt H ctx env st₀ is j := by
  obtain ⟨x, hx⟩ := h.instr hi
  rcases h.journalAt_succ hi hx with ⟨k, hk, -, heq⟩ | ⟨hw', -⟩
  · rw [hopens] at hk
    rw [heq, (List.cons.inj hk).1]
  · rcases hw with hw | hw <;> rw [hw] at hw' <;> rcases hw' with hw' | hw' <;> cases hw'

theorem journalAt_entered (hi : i < n) (hw : word is i = .opener) :
    journalAt H ctx env st₀ is (i + 1) = journalAt H ctx env st₀ is i := by
  obtain ⟨x, hx⟩ := h.instr hi
  rcases h.journalAt_succ hi hx with ⟨k, -, hw', -⟩ | ⟨-, heq | ⟨index, hop, -⟩⟩
  · rcases hw' with hw' | hw' <;> rw [hw] at hw' <;> cases hw'
  · exact heq
  · rw [word_eq hx] at hw
    rcases hop with hop | hop <;> rw [hop] at hw <;> cases hw

/-- The flags at a position. -/
theorem journalOk (hinit : JournalOk initial st₀.controls) :
    ∀ {i : Nat} {st : BodyState}, i ≤ n → stateAt H ctx env st₀ is i = .ok st →
      JournalOk initial st.controls
  | 0, st, _, hst => by
    cases hst
    exact hinit
  | i + 1, st', hi, hst' => by
    obtain ⟨x, hx⟩ := h.instr hi
    obtain ⟨st, hst⟩ := h.state (le_of_lt hi)
    have hok := journalOk hinit (le_of_lt hi) hst
    cases h.step hx hst hst' with
    | opens kind frame control ho =>
      exact hok.of_eq (by rw [ho.controls]) (by rw [ho.controls])
    | splits frame frames control hs =>
      rw [hs.controls]
      refine .reset ?_ _
      exact hok.of_eq rfl rfl
    | closes frame frames control hc =>
      refine (hok.reset frame.initHeight).of_eq ?_ ?_
      · rw [hc.controls]
      · rw [hc.controls]
    | sets index hop hindex hlocal hcontrols hrecords =>
      rw [hcontrols]
      exact hok.init
    | plain stack hop hset hvalid hcontrols hrecords =>
      rwa [hcontrols]

/-- **A mark stays** while the block that holds the set is open and its arm lasts. -/
theorem journalAt_stays (hi : i ≤ n) (hp : word is p = .other)
    (hblock : opens (word is) p <:+ opens (word is) i)
    (harm : ∀ m, p < m → m < i → word is m = .middle → opens (word is) m ≠ opens (word is) p)
    (hset : index ∈ journalAt H ctx env st₀ is (p + 1)) :
    ∀ {t : Nat}, p < t → t ≤ i → index ∈ journalAt H ctx env st₀ is t := by
  intro t
  induction t using Nat.strong_induction_on with
  | _ t ih =>
    intro hpt hti
    rcases eq_or_lt_of_le (Nat.succ_le_of_lt hpt) with heq | hlt
    · rwa [← heq]
    obtain ⟨m, rfl⟩ := Nat.exists_eq_succ_of_ne_zero (ne_zero_of_lt hpt)
    have hpm : p < m := Nat.lt_of_succ_lt_succ hlt
    have hm : m < n := m.lt_succ_self.trans_le (hti.trans hi)
    have hprev := ih m m.lt_succ_self hpm (Nat.le_of_succ_le hti)
    obtain ⟨x, hx⟩ := h.instr hm
    rcases h.journalAt_succ hm hx with ⟨j, hopens, hw, heq⟩ | ⟨-, heq | ⟨k, -, -, heq⟩⟩
    · -- what is rolled back here was entered after the set
      rw [heq]
      have hjm : j < m := lt_of_mem_opens (by rw [hopens]; exact mem_cons_self)
      refine ih j (by omega) ?_ (by omega)
      rcases hw with hw | hw
      · exact closes_inside hp hblock hw hopens hpm hti
      · exact splits_inside hp hblock hopens hpm (Nat.le_of_succ_le hti)
          (harm m hpm hti hw)
    · rwa [heq]
    · rw [heq]
      exact mem_cons_of_mem _ hprev

end PassTo

/-! ## 3. What every path has written -/

/-- The journal that every path to position `i` guarantees. -/
def needed (H : TypeHeap) (ctx : ValidationContext) (env : BodyEnv) (st₀ : BodyState)
    (is : List Instr) (i : Nat) : List Nat :=
  match word is i, opens (word is) i with
  | .closer, j :: _ => journalAt H ctx env st₀ is j
  | .middle, j :: _ => journalAt H ctx env st₀ is j
  | _, _ => journalAt H ctx env st₀ is i

theorem needed_inner (hw : word is i = .closer ∨ word is i = .middle)
    (hopens : opens (word is) i = j :: opens (word is) j) :
    needed H ctx env st₀ is i = journalAt H ctx env st₀ is j := by
  rcases hw with hw | hw <;> simp only [needed, hw, hopens]

theorem needed_here (hw : word is i = .opener ∨ word is i = .other) :
    needed H ctx env st₀ is i = journalAt H ctx env st₀ is i := by
  rcases hw with hw | hw <;> simp only [needed, hw]

namespace PassTo

variable (h : PassTo H ctx env st₀ code is n)

include h

theorem needed_subset (hi : i ≤ n) : needed H ctx env st₀ is i ⊆ journalAt H ctx env st₀ is i := by
  have hhead : ∀ {j rest}, opens (word is) i = j :: rest →
      journalAt H ctx env st₀ is j ⊆ journalAt H ctx env st₀ is i := by
    intro j rest hopens
    exact (h.journalAt_suffix hi (by rw [hopens]; exact mem_cons_self)).subset
  unfold needed
  split
  · rename_i hopens
    exact hhead hopens
  · rename_i hopens
    exact hhead hopens
  · exact .refl _

/-- **The flow of the body** asks for nothing that the step did not write. -/
theorem needed_flow (hflow : Flow is i i') (hx : is[i]? = some x) (hin : i ≤ n)
    (hi' : i' ≤ n) : ∀ y ∈ needed H ctx env st₀ is i', y ∈ needed H ctx env st₀ is i ∨
      (x.op = .localSet ∨ x.op = .localTee) ∧ x.args.uleb32 = some (y, x.next) := by
  -- a target whose journal is the one at an open or just entered opener
  have hat : ∀ {j t : Nat}, t ≤ n → journalAt H ctx env st₀ is t = journalAt H ctx env st₀ is j →
      journalAt H ctx env st₀ is j ⊆ needed H ctx env st₀ is i →
      ∀ y ∈ needed H ctx env st₀ is t, y ∈ needed H ctx env st₀ is i := by
    intro j t ht heq hsub y hy
    have := h.needed_subset ht hy
    rw [heq] at this
    exact hsub this
  intro y hy
  cases hflow with
  | next hw =>
    have hi : i < n := hi'
    rcases h.journalAt_succ hi hx with ⟨j, hopens, hw', heq⟩ | ⟨hw', heq | ⟨index, hop, hindex, heq⟩⟩
    · refine .inl (hat hi' heq ?_ y hy)
      rw [needed_inner hw' hopens]
      exact .refl _
    · refine .inl (hat hi' heq ?_ y hy)
      rw [needed_here hw']
      exact .refl _
    have hmem := h.needed_subset hi' hy
    rw [heq] at hmem
    rcases mem_cons.mp hmem with rfl | hmem
    · exact .inr ⟨hop, hindex⟩
    · rw [needed_here hw']
      exact .inl hmem
  | arm m hw hm =>
    obtain ⟨-, hmw, hopens⟩ := partner_some hm
    refine .inl (hat hi' (h.journalAt_restored hi' (.inr hmw) hopens) ?_ y hy)
    rw [needed_here (.inl hw)]
    exact .refl _
  | skip _ hw hk =>
    obtain ⟨-, hkw, hopens⟩ := partner_some hk
    rw [needed_inner (.inl hkw) hopens, ← needed_here (.inl hw)] at hy
    exact .inl hy
  | join j _ hw hopens hk =>
    obtain ⟨-, hkw, hopens'⟩ := partner_some hk
    rw [needed_inner (.inl hkw) hopens', ← needed_inner (.inr hw) hopens] at hy
    exact .inl hy
  | label d j _ hw hd hleads =>
    have hmem : j ∈ opens (word is) i := mem_of_getElem? hd
    have hsub : journalAt H ctx env st₀ is j ⊆ needed H ctx env st₀ is i := by
      rw [needed_here (.inr hw)]
      exact (h.journalAt_suffix hin hmem).subset
    obtain ⟨z, hz, hleads⟩ := hleads
    split at hleads
    · subst hleads
      exact .inl (hat hi' (h.journalAt_entered hi' (opener_of_mem_opens hmem)) hsub y hy)
    · obtain ⟨k, hk, rfl⟩ := hleads
      obtain ⟨-, hkw, hopens⟩ := partner_some hk
      exact .inl (hat hi' (h.journalAt_restored hi' (.inl hkw) hopens) hsub y hy)

end PassTo

end Positions

/-! ## 4. Runs -/

section Runs

variable {H : TypeHeap} {ctx : ValidationContext} {benv : BodyEnv} {st₀ : BodyState} {env : ExecEnv}
  {is : List Instr} {n i : Nat} {s s' : ExecState} {x : Instr}
  {y index : Nat} {o : ExecOutcome} {arguments : List Value} {t : ValueType}
   {r : Reader}

/-- A state at position `i` in which every local that the position needs was written, and the locals
hold what was written last. -/
structure Assigned (H : TypeHeap) (ctx : ValidationContext) (benv : BodyEnv) (st₀ : BodyState)
    (env : ExecEnv) (is : List Instr) (i : Nat) (s : ExecState) : Prop where
  stands : At env is i s
  holds : ∀ y v, s.written.lookup y = some v → s.locals[y]? = some v
  params : ∀ y < benv.functionType.params.length, (s.written.lookup y).isSome
  journal : ∀ y ∈ needed H ctx benv st₀ is i, (s.written.lookup y).isSome

theorem lookup_write {ws : List (Nat × Value)}
    (h : y = index ∨ (ws.lookup y).isSome) : (((index, value) :: ws).lookup y).isSome := by
  rw [lookup_cons]
  by_cases heq : y = index
  · simp [heq]
  · simp only [beq_eq_false_iff_ne.mpr heq]
    exact h.resolve_left heq

/-- **One step.** -/
theorem Assigned.step (h : BodyFacts env.ctx env.code is env.annotations)
    (hpass : PassTo H ctx benv st₀ env.code is n) (hlength : is.length = n + 1)
    (ha : Assigned H ctx benv st₀ env is i s) (hstep : execStep env o s = .ok (.running s')) :
    ∃ i', Assigned H ctx benv st₀ env is i' s' := by
  obtain ⟨x, hx, -⟩ := ha.stands.reader
  obtain ⟨i', hat', hflow, hwrites, -⟩ := ha.stands.step h hx hstep
  have hi : i ≤ n := by
    have := lt_of_getElem? hx
    omega
  have hi' : i' ≤ n := by
    obtain ⟨x', hx', -⟩ := hat'.reader
    have := lt_of_getElem? hx'
    omega
  have hneeded := hpass.needed_flow hflow hx hi hi'
  cases hwrites with
  | keeps hop hwritten hlocals =>
    refine ⟨i', hat', ?_, ?_, ?_⟩
    · rw [hwritten, hlocals]
      exact ha.holds
    · rw [hwritten]
      exact ha.params
    intro y hy
    rw [hwritten]
    rcases hneeded y hy with hmem | ⟨hset, -⟩
    · exact ha.journal y hmem
    · rcases hset with hset | hset
      · exact absurd hset hop.1
      · exact absurd hset hop.2
  | sets index value r hop hindex hlt hwritten hlocals htee =>
    refine ⟨i', hat', ?_, ?_, ?_⟩
    · intro y v hv
      rw [hwritten, lookup_cons] at hv
      rw [hlocals, getElem?_set]
      by_cases heq : y = index
      · subst heq
        simp only [beq_self_eq_true] at hv
        cases hv
        rw [if_pos rfl, if_pos hlt]
      · simp only [beq_eq_false_iff_ne.mpr heq] at hv
        rw [if_neg (Ne.symm heq)]
        exact ha.holds y v hv
    · intro y hy
      rw [hwritten]
      exact lookup_write (.inr (ha.params y hy))
    · intro y hy
      rw [hwritten]
      rcases hneeded y hy with hmem | ⟨-, hy⟩
      · exact lookup_write (.inr (ha.journal y hmem))
      · rw [hindex] at hy
        cases hy
        exact lookup_write (.inl rfl)

theorem lookup_zip_range' : ∀ {l : List Value} {k y : Nat},
    ((List.range' k l.length).zip l).lookup y = if y < k then none else l[y - k]?
  | [], k, y => by simp
  | v :: l, k, y => by
    rw [length_cons, List.range'_succ, zip_cons_cons, lookup_cons, lookup_zip_range']
    rcases y.lt_trichotomy k with hlt | rfl | hgt
    · have hne : (y == k) = false := beq_eq_false_iff_ne.mpr (hlt.ne)
      simp [hne, hlt, Nat.lt_succ_of_lt hlt]
    · simp
    · have hne : (y == k) = false := beq_eq_false_iff_ne.mpr (hgt.ne')
      have hsub : y - k = (y - (k + 1)) + 1 := by omega
      simp [hne, not_lt.mpr (hgt.le), Nat.not_lt.mpr hgt, hsub]

theorem mapM_length {α β : Type} {f : α → Result β} : ∀ {l : List α} {m : List β},
    l.mapM f = .ok m → m.length = l.length
  | [], m, h => by
    cases h
    rfl
  | a :: l, m, h => by
    simp only [mapM_cons, bind_eq_ok] at h
    obtain ⟨b, -, bs, hbs, hpure⟩ := h
    cases hpure
    rw [length_cons, mapM_length hbs, length_cons]

/-- **The start**: the parameters are written. -/
theorem assigned_start (h : BodyFacts env.ctx env.code is env.annotations)
    (hparams : env.params.length = benv.functionType.params.length)
    (hinit : st₀.controls.initializedLocals = [])
    (hstart : execStart env arguments = .ok s) : Assigned H ctx benv st₀ env is 0 s := by
  have hat := at_start h hstart
  simp only [execStart, bind_eq_ok, failIf_eq_ok, decide_eq_false_iff_not] at hstart
  obtain ⟨u, hlen, zeros, -, args, hargs, hpure⟩ := hstart
  have hargs := mapM_length hargs
  cases hpure
  have hlookup : ∀ y, ((List.range args.length).zip args).lookup y = args[y]? := by
    intro y
    rw [range_eq_range', lookup_zip_range', if_neg y.not_lt_zero, Nat.sub_zero]
  refine ⟨hat, fun y v hv => ?_, fun y hy => ?_, fun y hy => ?_⟩
  · rw [hlookup] at hv
    rwa [getElem?_append_left (lt_of_getElem? hv)]
  · rw [hlookup, getElem?_eq_getElem (show y < args.length by omega)]
    rfl
  have hnil : journalAt H ctx benv st₀ is 0 = [] := by
    have hst : stateAt H ctx benv st₀ is 0 = .ok st₀ := rfl
    rw [journalAt_eq hst, hinit]
  have hneeded : needed H ctx benv st₀ is 0 = journalAt H ctx benv st₀ is 0 := by
    simp only [needed]
    split <;> first | rfl | (rename_i hcons; cases hcons)
  rw [hneeded, hnil] at hy
  cases hy

/-- **In every state of every activation** the locals that its position needs were written. -/
theorem assigned_run (h : BodyFacts env.ctx env.code is env.annotations)
    (hpass : PassTo H ctx benv st₀ env.code is n) (hlength : is.length = n + 1)
    (hparams : env.params.length = benv.functionType.params.length)
    (hinit : st₀.controls.initializedLocals = []) (hstart : execStart env arguments = .ok s₀)
    (hrun : Relation.ReflTransGen (Steps (execAct env)) s₀ s) :
    ∃ i, Assigned H ctx benv st₀ env is i s := by
  refine invariant_run (P := fun s => ∃ i, Assigned H ctx benv st₀ env is i s) ?_ hrun
    ⟨0, assigned_start h hparams hinit hstart⟩
  rintro s t ⟨o, hact⟩ ⟨i, ha⟩
  exact ha.step h hpass hlength (execAct_eq hact)

/-- The initial flag of a local. -/
theorem initialLocals_get (type : FuncType)
    (ht : locals[y]? = some t) : (initialLocals type locals)[y]? =
      some (decide (y < type.params.length) || !t.isReference || t.nullable) := by
  rw [initialLocals, getElem?_mapIdx, ht]
  rfl

theorem journalOk_initial
    (hflags : c.localsInitialized = initial) (hjournal : c.initializedLocals = []) :
    JournalOk initial c := by
  refine ⟨fun y => ?_, ?_, ?_⟩
  · rw [hflags, hjournal]
    simp
  · rw [hjournal]
    exact nodup_nil
  · rw [hjournal]
    intro y hy
    cases hy

/-- What the validator checks of a `local.get`. -/
theorem validatePlain_localGet {stack : TypeStack} (hindex : r.uleb32 = some
    (index, r')) (ht : benv.locals[index]? = some t) :
    validatePlain H ctx benv c stack r .localGet = (do
      malformedIf (c.localsInitialized[index]? != some true)
      let stack ← stack.push t
      return (stack, r')) := by
  show (orMalformed r.uleb32 >>= fun p => orMalformed benv.locals[p.1]? >>=
    fun type => _) = _
  rw [hindex]
  show (orMalformed benv.locals[index]? >>= fun type => _) = _
  rw [ht]
  rfl

/-- **A `local.get` that the validator accepted** reads a local that was written, unless its type
has a default. -/
theorem Assigned.reads
    (ha : Assigned H ctx benv st₀ env is i s) (hpass : PassTo H ctx benv st₀ env.code is n)
    (hinit : JournalOk (initialLocals benv.functionType benv.locals) st₀.controls)
    (hi : i < n) (hx : is[i]? = some x) (hop : x.op = .localGet)
    (hindex : x.args.uleb32 = some (index, r)) (ht : benv.locals[index]? = some t)
    (hreference : t.isReference) (hnull : t.nullable = false) :
    ∃ v, s.written.lookup index = some v ∧ s.locals[index]? = some v := by
  have hsome : (s.written.lookup index).isSome := by
    obtain ⟨st, st', hst, -, hstep⟩ := hpass.steps hi hx
    have hflag : st.controls.localsInitialized[index]? = some true := by
      cases hstep with
      | plain stack hw hset hvalid hcontrols hrecords =>
        rw [hop, validatePlain_localGet hindex ht] at hvalid
        obtain ⟨u, hu, -⟩ := bind_eq_ok.mp hvalid
        rwa [failIf_eq_ok, bne_eq_false_iff_eq] at hu
      | opens kind frame control ho =>
        cases hop ▸ ho.op
      | splits frame frames control h' | closes frame frames control h' =>
        cases hop ▸ h'.op
      | sets index hop' =>
        rw [hop] at hop'
        rcases hop' with hop' | hop' <;> cases hop'
    have hok := hpass.journalOk hinit (hi.le) hst
    rw [hok.flags index, initialLocals_get _ ht, hreference, hnull, map_some] at hflag
    rcases index.lt_or_ge benv.functionType.params.length with hlt | hge
    · exact ha.params index hlt
    · have hmem : index ∈ st.controls.initializedLocals := by
        simpa [not_lt.mpr hge] using hflag
      refine ha.journal index ?_
      rw [needed_here (.inr (by rw [word_eq hx, hop]; rfl)), journalAt_eq hst]
      exact hmem
  obtain ⟨v, hv⟩ := isSome_iff_exists.mp hsome
  exact ⟨v, hv, ha.holds index v hv⟩

/-- `local.tee` leaves on the stack what it wrote. -/
theorem At.tee (h : BodyFacts env.ctx env.code is env.annotations)
    (hat : At env is i s) (hx : is[i]? = some x) (hop : x.op = .localTee)
    (hstep : execStep env o s = .ok (.running s')) : ∃ index r v,
    x.args.uleb32 = some (index, r) ∧ s'.written.lookup index = some v ∧
      s'.locals[index]? = some v ∧ s'.stack.head? = some v := by
  obtain ⟨i', -, -, hwrites, -⟩ := hat.step h hx hstep
  cases hwrites with
  | keeps hop' => exact absurd hop hop'.2
  | sets index value r hop' hindex hlt hwritten hlocals htee =>
    refine ⟨index, r, value, hindex, ?_, ?_, htee hop⟩
    · rw [hwritten, lookup_cons, beq_self_eq_true]
    · rw [hlocals, getElem?_set_self hlt]

end Runs

/-! ## 5. Definite assignment -/

/-- The reads of an instruction from locals whose type has no default find a value that was written,
and `local.tee` keeps the value that it wrote. -/
def ReadsAssigned (locals : List ValueType) (env : ExecEnv) (x : Instr) (s : ExecState) : Prop :=
  (∀ index r t, x.op = .localGet → x.args.uleb32 = some (index, r) → locals[index]? = some t →
    t.isReference → t.nullable = false →
    ∃ v, s.written.lookup index = some v ∧ s.locals[index]? = some v) ∧
  ∀ o s', x.op = .localTee → execStep env o s = .ok (.running s') → ∃ index r v,
    x.args.uleb32 = some (index, r) ∧ s'.written.lookup index = some v ∧
      s'.locals[index]? = some v ∧ s'.stack.head? = some v

/-- The `local.get` at `i` follows the set of the same local at `p`: in the block of the set or in a
block inside it, and in the same arm. -/
structure FollowsSet (is : List Instr) (p i index : Nat) (r : Reader) : Prop where
  before : p < i
  get : ∃ x, is[i]? = some x ∧ x.op = .localGet ∧ x.args.uleb32 = some (index, r)
  set : ∃ y r', is[p]? = some y ∧ (y.op = .localSet ∨ y.op = .localTee) ∧
    y.args.uleb32 = some (index, r')
  block : opens (word is) p <:+ opens (word is) i
  arm : ∀ m, p < m → m < i → word is m = .middle → opens (word is) m ≠ opens (word is) p

/-- **The validator accepts a `local.get` that follows a set**: all that is left is to push the type
of the local. -/
theorem FollowsSet.accepted {H : TypeHeap} {benv : BodyEnv} {st₀ st : BodyState}
    (hf : FollowsSet is p i index r) (hpass : PassTo H ctx benv st₀ code is i)
    (hinit : JournalOk (initialLocals benv.functionType benv.locals) st₀.controls)
    (hst : stateAt H ctx benv st₀ is i = .ok st) (ht : benv.locals[index]? = some t) :
    ∃ x, is[i]? = some x ∧ validateInstruction H ctx benv st x.args x.op =
      (st.stack.push t).map fun stack => some ({ st with stack := stack }, r) := by
  obtain ⟨x, hx, hop, hindex⟩ := hf.get
  obtain ⟨y, r', hy, hset, hyindex⟩ := hf.set
  refine ⟨x, hx, ?_⟩
  have hinitial := initialLocals_get benv.functionType ht
  have hother : word is p = .other := by
    rw [word_eq hy]
    rcases hset with hset | hset <;> rw [hset] <;> rfl
  -- the set marks the local, and the mark is still there
  have hmark : (initialLocals benv.functionType benv.locals)[index]? = some true ∨
      index ∈ journalAt H ctx benv st₀ is i := by
    obtain ⟨stp, stp', hstp, hstp', hstep⟩ := hpass.steps hf.before hy
    have hok := hpass.journalOk hinit (hf.before.le) hstp
    cases hstep with
    | sets k hop' hk hlocal hcontrols hrecords =>
      rw [hyindex] at hk
      cases hk
      rcases hok.marked (lt_of_getElem? hinitial) with htrue | hmem
      · exact .inl htrue
      · rw [← hcontrols, ← journalAt_eq hstp'] at hmem
        exact .inr (hpass.journalAt_stays i.le_refl hother hf.block hf.arm hmem hf.before
          i.le_refl)
    | plain stack hw hset' =>
      rcases hset with hset | hset
      · exact absurd hset hset'.1
      · exact absurd hset hset'.2
    | opens kind frame control ho =>
      rcases hset with hset | hset <;> cases hset ▸ ho.op
    | splits frame frames control h' | closes frame frames control h' =>
      rcases hset with hset | hset <;> cases hset ▸ h'.op
  have hflag : st.controls.localsInitialized[index]? = some true := by
    rw [(hpass.journalOk hinit i.le_refl hst).flags index]
    rcases hmark with htrue | hmem
    · rw [htrue]
      rfl
    · rw [journalAt_eq hst] at hmem
      rw [hinitial, map_some, decide_eq_true hmem, Bool.or_true]
  have hplain : validatePlain H ctx benv st.controls st.stack x.args .localGet =
      (st.stack.push t).map fun stack => (stack, r) := by
    rw [validatePlain_localGet hindex ht, hflag, malformedIf,
      failIf_neg (bne_self_eq_false (some true)), ok_bind]
    cases st.stack.push t <;> rfl
  have hstore : (st.requiresStore || .localGet == Opcode.gc) = st.requiresStore :=
    Bool.or_false _
  rw [hop]
  show (validatePlain H ctx benv st.controls st.stack x.args .localGet >>= fun p =>
    pure (some ({ st with
      stack := p.1, requiresStore := st.requiresStore || Opcode.localGet == Opcode.gc }, p.2))) = _
  rw [hplain, hstore]
  cases st.stack.push t <;> rfl

/-- **Definite assignment.**  In every execution of a body that the validator accepted, a `local.get`
of a local whose type is a reference without null reads what a parameter, `local.set` or `local.tee`
has written, and `local.tee` keeps what it wrote; so the null that the locals start with is never seen.
Conversely, wherever validation has come to a `local.get` that follows a set of the local in the same
block or an enclosing one, it goes on with the type of the local. -/
theorem locals_definitely_assigned :
    (∀ (H : TypeHeap) (ctx ctx' : ValidationContext) (functionIndex : Nat) (body : Reader),
      Pristine ctx → validateFunctionBody H ctx functionIndex body = .ok ctx' →
      ∃ f' type code is, ctx'.functions[functionIndex]? = some f' ∧
        ctx.functionType functionIndex = some type ∧
        readLocals ctx type body = .ok (f'.locals, code) ∧
        instructions ctx'.codeCtx code = some is ∧
        ∀ env : ExecEnv, env.ctx = ctx'.codeCtx → env.code = code →
          env.annotations = f'.annotations → env.params.length = type.params.length →
          ∀ arguments s₀ s, execStart env arguments = .ok s₀ →
          Relation.ReflTransGen (Steps (execAct env)) s₀ s →
          ∃ (i : Nat) (x : Instr), is[i]? = some x ∧ s.reader = x.start ∧
            ReadsAssigned f'.locals env x s) ∧
    ∀ (H : TypeHeap) (ctx : ValidationContext) (benv : BodyEnv) (st₀ st : BodyState)
      (bottom : ControlFrame) (code r : Reader) (is : List Instr) (p i index : Nat) (t : ValueType),
      Decoded ctx.codeCtx code is → benv.codeStart = code.cursor → bottom.kind = .function →
      st₀.controls = ⟨[bottom], initialLocals benv.functionType benv.locals, []⟩ →
      stateAt H ctx benv st₀ is i = .ok st → benv.locals[index]? = some t →
      FollowsSet is p i index r →
      ∃ x, is[i]? = some x ∧ validateInstruction H ctx benv st x.args x.op =
        (st.stack.push t).map fun stack => some ({ st with stack := stack }, r) := by
  constructor
  · intro H ctx ctx' functionIndex body hctx hv
    obtain ⟨f, f', type, code, is, new, st₀, hacc⟩ := validateFunctionBody_accepted hv
    have hnew : f'.annotations = new := by
      rw [hacc.annotations, hctx f (mem_of_getElem? hacc.before) hacc.codeless, nil_append]
    refine ⟨f', type, code, is, hacc.after, hacc.functionType, hacc.locals, ?_, ?_⟩
    · rw [hacc.codeCtx]
      exact hacc.decodes
    intro env henv hcode hann hparams arguments s₀ s hstart hrun
    have hbody : BodyFacts env.ctx env.code is env.annotations := by
      rw [henv, hcode, hann, hnew, hacc.codeCtx]
      exact hacc.facts
    have hpass := hacc.pass
    rw [← hcode] at hpass
    obtain ⟨n, z, hlength, hz, hzop, -⟩ := hacc.facts.last
    have hn : is.length - 1 = n := by omega
    rw [hn] at hpass
    obtain ⟨i, ha⟩ := assigned_run hbody hpass hlength hparams hacc.initial.2 hstart hrun
    obtain ⟨x, hx, hs⟩ := ha.stands.reader
    refine ⟨i, x, hx, hs, ?_, ?_⟩
    · intro index r t hop hindex ht hreference hnull
      have hi : i < n := by
        have hlt := lt_of_getElem? hx
        rcases i.lt_or_ge n with hi | hi
        · exact hi
        · obtain rfl : i = n := by omega
          rw [hx] at hz
          cases hz
          rw [hop] at hzop
          cases hzop
      exact ha.reads hpass (journalOk_initial hacc.initial.1 hacc.initial.2) hi hx hop hindex ht
        hreference hnull
    · intro o s' hop hstep
      exact ha.stands.tee hbody hx hop hstep
  · intro H ctx benv st₀ st bottom code r is p i index t hdecoded hstart hbottom hst₀ hst ht hf
    obtain ⟨x, hx, -⟩ := hf.get
    have hlt := lt_of_getElem? hx
    refine hf.accepted ⟨hdecoded, hstart, ⟨bottom, by rw [hst₀], hbottom⟩, ⟨st, hst⟩,
      hlt.le⟩ (journalOk_initial ?_ ?_) hst ht
    · rw [hst₀]
    · rw [hst₀]

/-- The function refers to itself, so `ref.func 0` may stand in its body. -/
def refFunctionContext : ValidationContext := { oneFunctionContext with declaredRefs := [true] }

/-- The body `ref.func 0, local.set 0, local.get 0, drop, end` with a local of type `(ref func)`. -/
def refBody : Reader := ⟨0, [1, 1, 0x64, 0x70, 0xd2, 0, 0x21, 0, 0x20, 0, 0x1a, 0x0b]⟩

def refCode : Reader := ⟨4, [0xd2, 0, 0x21, 0, 0x20, 0, 0x1a, 0x0b]⟩

/-- The pass over the code stands at the `local.get`. -/
theorem refCode_follows : ∃ is benv st₀ st bottom t r,
    Decoded refFunctionContext.codeCtx refCode is ∧
    benv.codeStart = refCode.cursor ∧ bottom.kind = .function ∧
    st₀.controls = ⟨[bottom], initialLocals benv.functionType benv.locals, []⟩ ∧
    stateAt (fun _ => []) refFunctionContext benv st₀ is 2 = .ok st ∧
    benv.locals[0]? = some t ∧ FollowsSet is 1 2 0 r := by
  obtain ⟨is, type, locals, st, r, his, -, hst, hlocals, hf⟩ : ∃ is type locals st r,
      instructions refFunctionContext.codeCtx refCode = some is ∧
      readLocals refFunctionContext type refBody = .ok (locals, refCode) ∧
      stateAt (fun _ => []) refFunctionContext ⟨type, locals, 4⟩ ⟨⟨[], 0, false⟩,
        ⟨[⟨.function, 0, 0, false, false, [], [], uint32Max, 0⟩], initialLocals type locals, []⟩,
        [], false⟩ is 2 = .ok st ∧ locals ≠ [] ∧ FollowsSet is 1 2 0 r :=
    ⟨_, { FuncType.zero with defined := true }, _, _, _, rfl, rfl, rfl, by decide, by decide,
      ⟨_, rfl, rfl, rfl⟩, ⟨_, _, rfl, .inl rfl, rfl⟩, suffix_rfl, fun m hm hm' => by omega⟩
  obtain ⟨t, ts, rfl⟩ := exists_cons_of_ne_nil hlocals
  exact ⟨is, _, _, st, _, t, r, decoded_of his, rfl, rfl, rfl, hst, rfl, hf⟩

/-- The execution to the `local.get`, and the pass over it. -/
theorem locals_definitely_assigned_get : ∃ ctx' code is env s₀ s, Pristine refFunctionContext ∧
    validateFunctionBody (fun _ => []) refFunctionContext 0 refBody = .ok ctx' ∧
    instructions ctx'.codeCtx code = some is ∧ execStart env [] = .ok s₀ ∧
    Relation.ReflTransGen (Steps (execAct env)) s₀ s ∧
    s.locals = [.funcref false 0 (some 0)] ∧ s.reader.rest = [0x20, 0, 0x1a, 0x0b] ∧
    (∃ (i : Nat) (x : Instr) (f : ValidationFunction), ctx'.functions[0]? = some f ∧
      is[i]? = some x ∧ s.reader = x.start ∧ ReadsAssigned f.locals env x s) ∧
    ∃ is benv st₀ st x t r, stateAt (fun _ => []) refFunctionContext benv st₀ is 2 = .ok st ∧
      FollowsSet is 1 2 0 r ∧ is[2]? = some x ∧
      validateInstruction (fun _ => []) refFunctionContext benv st x.args x.op =
        (st.stack.push t).map fun stack => some ({ st with stack := stack }, r) := by
  have hctx : Pristine refFunctionContext := by
    intro f hf _
    rw [mem_singleton.mp hf]
  obtain ⟨ctx', hv, env, s₀, s, henv, hann, hcode, hparams, hstart, hrun, hlocals, hrest⟩ :
      ∃ ctx' : ValidationContext,
      validateFunctionBody (fun _ => []) refFunctionContext 0 refBody = .ok ctx' ∧
      ∃ (env : ExecEnv) (s₀ s : ExecState), env.ctx = ctx'.codeCtx ∧
      (∃ f', ctx'.functions[0]? = some f' ∧ env.annotations = f'.annotations) ∧
      env.code = refCode ∧ env.params.length = 0 ∧ execStart env [] = .ok s₀ ∧
      [.leaves [.funcref false 0 (some 0)] false, .leaves [] false].foldlM (execAct env) s₀ =
        some s ∧ s.locals = [.funcref false 0 (some 0)] ∧ s.reader.rest = [0x20, 0, 0x1a, 0x0b] :=
    ⟨_, rfl, ⟨_, 0, 1, [], [], [0x70], refCode, _, fun _ => .error .malformedModule⟩, _, _, rfl,
      ⟨_, rfl, rfl⟩, rfl, rfl, rfl, rfl, rfl, rfl⟩
  obtain ⟨g, hg, hann⟩ := hann
  obtain ⟨f', type, code, is, hf', htype, hread, his, hexec⟩ :=
    locals_definitely_assigned.1 _ _ _ _ _ hctx hv
  rw [hg] at hf'
  cases hf'
  cases htype
  have heq : code = refCode := (Prod.mk.inj (Except.ok.inj hread)).2.symm
  obtain ⟨i, x, hx, hs, hassigned⟩ := hexec env henv (hcode.trans heq.symm) hann hparams [] s₀ s
    hstart (run_of_actions hrun)
  refine ⟨ctx', code, is, env, s₀, s, hctx, hv, his, hstart, run_of_actions hrun, hlocals, hrest,
    ⟨i, x, _, hg, hx, hs, hassigned⟩, ?_⟩
  obtain ⟨is, benv, st₀, st, bottom, t, r, hdecoded, hcursor, hbottom, hst₀, hst, ht, hf⟩ :=
    refCode_follows
  obtain ⟨x, hx, hinstr⟩ := locals_definitely_assigned.2 _ _ _ _ _ _ _ _ _ _ _ _ _ hdecoded hcursor
    hbottom hst₀ hst ht hf
  exact ⟨is, benv, st₀, st, x, t, r, hst, hf, hx, hinstr⟩

end TurboWasm
