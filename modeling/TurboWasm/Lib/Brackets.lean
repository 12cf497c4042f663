/-
# Nested brackets

A word of openers, closers, middles and other letters, given by the letter at each position.  The
nest of a position is the list of the openers that are still open before it, the innermost first
(`opens`); a closer or a middle belongs to the innermost of them (`partner`).

The nest behaves like a stack that never forgets: the openers around an open one are those that were
open where it stands (`opens_split`), an opener once closed is not opened again, and after a closer
the nest is the one before its opener.
-/
import Mathlib.Data.List.Nodup

namespace TurboWasm.Lib

open List

/-- The letters of a word. -/
inductive Bracket where
  | opener | middle | closer | other
  deriving DecidableEq, Repr

/-- The openers before a position that are still open there, the innermost first. -/
def opens (w : Nat → Bracket) : Nat → List Nat
  | 0 => []
  | i + 1 =>
    match w i with
    | .opener => i :: opens w i
    | .closer => (opens w i).tail
    | _ => opens w i

/-- The last letter `b` before position `i` that belongs to the opener `j`. -/
def partner (w : Nat → Bracket) (b : Bracket) (j : Nat) : Nat → Option Nat
  | 0 => none
  | i + 1 => if w i = b ∧ (opens w i).head? = some j then some i else partner w b j i

/-- All openers before a position, the first one first. -/
def openers (w : Nat → Bracket) : Nat → List Nat
  | 0 => []
  | i + 1 => if w i = .opener then openers w i ++ [i] else openers w i

/-! ## 1. One letter -/

theorem opens_opener (h : w i = .opener) : opens w (i + 1) = i :: opens w i := by
  simp only [opens, h]

theorem opens_closer (h : w i = .closer) : opens w (i + 1) = (opens w i).tail := by
  simp only [opens, h]

theorem opens_middle (h : w i = .middle) : opens w (i + 1) = opens w i := by
  simp only [opens, h]

theorem opens_other (h : w i = .other) : opens w (i + 1) = opens w i := by
  simp only [opens, h]

theorem partner_here (h : w i = b) (hj : (opens w i).head? = some j) :
    partner w b j (i + 1) = some i := by
  rw [partner, if_pos ⟨h, hj⟩]

theorem partner_skip (h : w i = b → (opens w i).head? ≠ some j) :
    partner w b j (i + 1) = partner w b j i := by
  rw [partner, if_neg fun hh => h hh.1 hh.2]

theorem openers_opener (h : w i = .opener) : openers w (i + 1) = openers w i ++ [i] := by
  rw [openers, if_pos h]

theorem openers_skip (h : w i ≠ .opener) : openers w (i + 1) = openers w i := by
  rw [openers, if_neg h]

/-! ## 2. The nest -/

/-- **The openers around an open one** are those that were open where it stands. -/
theorem opens_split : ∀ {i j : Nat} {inner outer : List Nat},
    opens w i = inner ++ j :: outer → j < i ∧ w j = .opener ∧ opens w j = outer
  | 0, _, inner, _, h => by
    cases inner <;> cases h
  | i + 1, j, inner, outer, h => by
    cases hw : w i with
    | opener =>
      rw [opens_opener hw] at h
      cases inner with
      | nil =>
        cases h
        exact ⟨Nat.lt_succ_self i, hw, rfl⟩
      | cons a inner =>
        obtain ⟨-, h⟩ := List.cons.inj h
        obtain ⟨hlt, hj⟩ := opens_split h
        exact ⟨Nat.lt_succ_of_lt hlt, hj⟩
    | closer =>
      rw [opens_closer hw] at h
      cases hi : opens w i with
      | nil =>
        rw [hi] at h
        cases inner <;> cases h
      | cons a rest =>
        rw [hi, tail_cons] at h
        have hcons : opens w i = (a :: inner) ++ j :: outer := by
          rw [hi, h]
          rfl
        obtain ⟨hlt, hj⟩ := opens_split hcons
        exact ⟨Nat.lt_succ_of_lt hlt, hj⟩
    | middle =>
      rw [opens_middle hw] at h
      obtain ⟨hlt, hj⟩ := opens_split h
      exact ⟨Nat.lt_succ_of_lt hlt, hj⟩
    | other =>
      rw [opens_other hw] at h
      obtain ⟨hlt, hj⟩ := opens_split h
      exact ⟨Nat.lt_succ_of_lt hlt, hj⟩

theorem lt_of_mem_opens (h : j ∈ opens w i) : j < i := by
  obtain ⟨inner, outer, hi⟩ := append_of_mem h
  exact (opens_split hi).1

theorem opener_of_mem_opens (h : j ∈ opens w i) : w j = .opener := by
  obtain ⟨inner, outer, hi⟩ := append_of_mem h
  exact (opens_split hi).2.1

/-- The nest from an open opener outwards. -/
theorem opens_drop (h : (opens w i)[d]? = some j) :
    (opens w i).drop d = j :: opens w j := by
  obtain ⟨hd, hj⟩ := List.getElem?_eq_some_iff.mp h
  have hdrop : (opens w i).drop d = j :: (opens w i).drop (d + 1) := by
    rw [drop_eq_getElem_cons hd, hj]
  have hsplit : opens w i = (opens w i).take d ++ j :: (opens w i).drop (d + 1) := by
    rw [← hdrop, take_append_drop]
  rw [hdrop, (opens_split hsplit).2.2]

theorem opens_head (h : (opens w i).head? = some j) : opens w i = j :: opens w j := by
  rw [head?_eq_getElem?] at h
  exact opens_drop h

theorem opens_drop_succ (h : (opens w i)[d]? = some j) :
    (opens w i).drop (d + 1) = opens w j := by
  rw [← drop_drop, opens_drop h]
  rfl

/-- An opener that is open at a position was open all the time since it. -/
theorem mem_opens_between : ∀ {t : Nat}, j ∈ opens w t → j < i → i ≤ t → j ∈ opens w i
  | 0, h, _, _ => by cases h
  | t + 1, h, hj, hi => by
    rcases Nat.lt_or_ge t i with hlt | hge
    · rwa [Nat.le_antisymm hi hlt]
    refine mem_opens_between (t := t) ?_ hj hge
    cases hw : w t with
    | opener =>
      rw [opens_opener hw] at h
      rcases mem_cons.mp h with rfl | h
      · omega
      · exact h
    | closer =>
      rw [opens_closer hw] at h
      exact mem_of_mem_tail h
    | middle => rwa [opens_middle hw] at h
    | other => rwa [opens_other hw] at h

/-! ## 3. Closers and middles -/

theorem partner_some : ∀ {i : Nat}, partner w b j i = some k →
    k < i ∧ w k = b ∧ opens w k = j :: opens w j
  | 0, h => by cases h
  | i + 1, h => by
    rw [partner] at h
    split at h
    · rename_i hi
      cases h
      exact ⟨Nat.lt_succ_self _, hi.1, opens_head hi.2⟩
    · obtain ⟨hlt, hk⟩ := partner_some h
      exact ⟨Nat.lt_succ_of_lt hlt, hk⟩

/-- Nothing belongs to an opener before it stands. -/
theorem partner_eq_none (h : i ≤ j + 1) : partner w b j i = none := by
  cases hp : partner w b j i with
  | none => rfl
  | some k =>
    obtain ⟨hk, -, hopens⟩ := partner_some hp
    have hj : j < k := lt_of_mem_opens (by rw [hopens]; exact mem_cons_self)
    omega

/-- What is found before a position is found before a later one. -/
theorem partner_isSome_mono : ∀ {t : Nat}, i ≤ t → (partner w b j i).isSome →
    (partner w b j t).isSome
  | 0, hi, h => by rwa [Nat.le_zero.mp hi] at h
  | t + 1, hi, h => by
    rcases Nat.lt_or_ge t i with hlt | hge
    · rwa [Nat.le_antisymm hi hlt] at h
    · rw [partner]
      split
      · rfl
      · exact partner_isSome_mono hge h

/-- After a closer the nest is the one before its opener. -/
theorem opens_closed (h : w k = .closer) (hk : opens w k = j :: opens w j) :
    opens w (k + 1) = opens w j := by
  rw [opens_closer h, hk]
  rfl

/-- An opener is still open or its closer has come. -/
theorem open_or_closed (hj : w j = .opener) : ∀ {i : Nat}, j < i →
    j ∈ opens w i ∨ (partner w .closer j i).isSome
  | i + 1, hi => by
    rcases Nat.eq_or_lt_of_le (Nat.le_of_lt_succ hi) with rfl | hlt
    · exact .inl (by rw [opens_opener hj]; exact mem_cons_self)
    rcases open_or_closed hj hlt with hopen | hclosed
    · cases hw : w i with
      | opener => exact .inl (by rw [opens_opener hw]; exact mem_cons_of_mem _ hopen)
      | closer =>
        cases hopens : opens w i with
        | nil =>
          rw [hopens] at hopen
          cases hopen
        | cons a rest =>
          rw [hopens] at hopen
          rcases mem_cons.mp hopen with rfl | hmem
          · exact .inr (by rw [partner_here hw (by rw [hopens]; rfl)]; rfl)
          · exact .inl (by rw [opens_closer hw, hopens]; exact hmem)
      | middle => exact .inl (by rwa [opens_middle hw])
      | other => exact .inl (by rwa [opens_other hw])
    · exact .inr (partner_isSome_mono (Nat.le_succ i) hclosed)

/-! ## 4. The list of all openers -/

theorem mem_openers : ∀ {i : Nat}, j ∈ openers w i ↔ j < i ∧ w j = .opener
  | 0 => by simp [openers]
  | i + 1 => by
    rw [openers]
    split
    · rename_i hw
      rw [mem_append, mem_openers, mem_singleton]
      constructor
      · rintro (⟨hlt, hj⟩ | rfl)
        · exact ⟨Nat.lt_succ_of_lt hlt, hj⟩
        · exact ⟨Nat.lt_succ_self _, hw⟩
      · rintro ⟨hlt, hj⟩
        rcases Nat.eq_or_lt_of_le (Nat.le_of_lt_succ hlt) with rfl | hlt
        · exact .inr rfl
        · exact .inl ⟨hlt, hj⟩
    · rename_i hw
      rw [mem_openers]
      constructor
      · rintro ⟨hlt, hj⟩
        exact ⟨Nat.lt_succ_of_lt hlt, hj⟩
      · rintro ⟨hlt, hj⟩
        rcases Nat.eq_or_lt_of_le (Nat.le_of_lt_succ hlt) with rfl | hlt
        · exact absurd hj hw
        · exact ⟨hlt, hj⟩

theorem openers_nodup : ∀ i : Nat, (openers w i).Nodup
  | 0 => nodup_nil
  | i + 1 => by
    rw [openers]
    split
    · refine nodup_append.mpr ⟨openers_nodup i, by simp, ?_⟩
      intro a ha b hb
      have hlt := (mem_openers.mp ha).1
      rw [mem_singleton] at hb
      omega
    · exact openers_nodup i

theorem openers_getElem?_succ {n : Nat} (h : (openers w i)[n]? = some j) :
    (openers w (i + 1))[n]? = some j := by
  rw [openers]
  split
  · rwa [getElem?_append_left (List.getElem?_eq_some_iff.mp h).1]
  · exact h

/-- Replacing the partner of one member of a list without repetitions. -/
theorem forall₂_set {α β : Type} {R R' : α → β → Prop} {l : List α} {m : List β} {n : Nat} {a : α}
    {b : β} (h : List.Forall₂ R l m) (hl : l.Nodup) (hn : l[n]? = some a)
    (hother : ∀ x y, x ≠ a → R x y → R' x y) (hhere : ∀ y, m[n]? = some y → R a y → R' a b) :
    List.Forall₂ R' l (m.set n b) := by
  induction h generalizing n with
  | nil => cases hn
  | @cons x y l m hxy hrest ih =>
    obtain ⟨hx, hl⟩ := nodup_cons.mp hl
    cases n with
    | zero =>
      cases hn
      refine .cons (hhere y rfl hxy) ?_
      have hmem := (forall₂_and_left l m).mpr ⟨fun z hz => hz, hrest⟩
      refine hmem.imp fun z w hz => hother z w ?_ hz.2
      rintro rfl
      exact hx hz.1
    | succ n =>
      have ha : a ∈ l := mem_of_getElem? hn
      refine .cons (hother x y ?_ hxy) (ih hl hn hhere)
      rintro rfl
      exact hx ha

end TurboWasm.Lib
