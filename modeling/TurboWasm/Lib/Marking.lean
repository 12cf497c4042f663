/-
# Worklist marking

Reachability in a directed graph, and the invariant of a marker that keeps a set of marked nodes and
a worklist of those whose successors have not been scanned yet.  A scan of a list of nodes marks
those that are not marked and pushes them (`Marks`); scanning the roots establishes the invariant,
popping a node and scanning its successors keeps it, and an empty worklist means that the marked
nodes are the reachable ones.
-/
import Mathlib.Data.List.Basic

namespace TurboWasm.Lib

open List

section

variable {ν : Type} (root : ν → Prop) (edge : ν → ν → Prop)

/-- Reachable from a root along edges. -/
inductive Reach : ν → Prop where
  | root {x : ν} : root x → Reach x
  | step {x y : ν} : Reach x → edge x y → Reach y

/-- The marker's invariant. -/
structure Marking (marked : ν → Prop) (work : List ν) : Prop where
  sound : ∀ x, marked x → Reach root edge x
  roots : ∀ x, root x → marked x
  grey : ∀ x ∈ work, marked x
  nodup : work.Nodup
  black : ∀ x, marked x → x ∉ work → ∀ y, edge x y → marked y

end

/-- Scanning `ys` from the marked set `m` and the worklist `w` leads to `m'` and `w'`: exactly the
nodes of `ys` are marked in addition, and the newly marked ones are pushed. -/
structure Marks {ν : Type} (ys : List ν) (m : ν → Prop) (w : List ν) (m' : ν → Prop)
    (w' : List ν) : Prop where
  marked : ∀ x, m' x ↔ m x ∨ x ∈ ys
  pushed : ∃ new, w' = new ++ w ∧ new.Nodup ∧ ∀ x, x ∈ new ↔ m' x ∧ ¬ m x

namespace Marks

variable {ν : Type} {ys : List ν} {m : ν → Prop} {w : List ν}

theorem nil (m : ν → Prop) (w : List ν) : Marks [] m w m w where
  marked x := by simp
  pushed := ⟨[], by simp⟩

/-- A node that is marked already. -/
theorem old (h : m y) : Marks [y] m w m w where
  marked x := by
    simp only [mem_singleton]
    exact ⟨.inl, fun hx => hx.elim id (fun he => he ▸ h)⟩
  pushed := ⟨[], by simp⟩

/-- A node that is not. -/
theorem new (h : ¬ m y) (hm : ∀ x, m₁ x ↔ m x ∨ x = y) : Marks [y] m w m₁ (y :: w) where
  marked x := by simp [hm]
  pushed := by
    refine ⟨[y], rfl, by simp, fun x => ?_⟩
    rw [mem_singleton, hm]
    constructor
    · rintro rfl
      exact ⟨.inr rfl, h⟩
    · rintro ⟨hx | hx, hn⟩
      · exact absurd hx hn
      · exact hx

/-- One scan after another. -/
theorem append (h : Marks ys m w m₁ w₁) (h' : Marks zs m₁ w₁ m₂ w₂) :
    Marks (ys ++ zs) m w m₂ w₂ where
  marked x := by rw [h'.marked, h.marked, mem_append, or_assoc]
  pushed := by
    obtain ⟨new, rfl, hnd, hmem⟩ := h.pushed
    obtain ⟨new', rfl, hnd', hmem'⟩ := h'.pushed
    refine ⟨new' ++ new, by simp, ?_, fun x => ?_⟩
    · refine nodup_append.mpr ⟨hnd', hnd, fun a ha b hb hab => ?_⟩
      subst hab
      exact ((hmem' a).mp ha).2 ((hmem a).mp hb).1
    · have hmono : m x → m₁ x := fun hx => (h.marked x).mpr (.inl hx)
      rw [mem_append, hmem, hmem', h'.marked]
      tauto

theorem mono (h : Marks ys m w m₁ w₁) {x : ν} (hx : m x) : m₁ x := (h.marked x).mpr (.inl hx)

/-- A worklist of marked nodes stays one, without duplicates. -/
theorem work (h : Marks ys m w m₁ w₁) (hw : ∀ x ∈ w, m x) (hnd : w.Nodup) :
    (∀ x ∈ w₁, m₁ x) ∧ w₁.Nodup := by
  obtain ⟨new, rfl, hnew, hmem⟩ := h.pushed
  refine ⟨fun x hx => ?_, nodup_append.mpr ⟨hnew, hnd, fun a ha b hb hab => ?_⟩⟩
  · rcases mem_append.mp hx with hx | hx
    · exact ((hmem x).mp hx).1
    · exact h.mono (hw x hx)
  · subst hab
    exact ((hmem a).mp ha).2 (hw a hb)

end Marks

namespace Marking

variable {ν : Type}

/-- Scanning the roots. -/
theorem init (h : Marks ys m [] m' w) (hno : ∀ x, ¬ m x) (hroot : ∀ y, root y ↔ y ∈ ys) :
    Marking root edge m' w := by
  have hmarked : ∀ x, m' x ↔ root x := fun x => by simp [h.marked, hno, hroot]
  obtain ⟨hgrey, hnd⟩ := h.work (by simp) nodup_nil
  refine ⟨fun x hx => .root ((hmarked x).mp hx), fun x hx => (hmarked x).mpr hx, hgrey, hnd, ?_⟩
  -- everything marked is still on the worklist
  obtain ⟨new, rfl, -, hmem⟩ := h.pushed
  intro x hx hw
  exact absurd (mem_append_left _ ((hmem x).mpr ⟨hx, hno x⟩)) hw

/-- Popping a node and scanning its successors. -/
theorem scan (h : Marking root edge m (x :: w)) (hs : Marks ys m w m' w')
    (hedge : ∀ y, edge x y ↔ y ∈ ys) : Marking root edge m' w' := by
  have hx : m x := h.grey x (by simp)
  have hw : w.Nodup := (nodup_cons.mp h.nodup).2
  obtain ⟨hgrey, hnd⟩ := hs.work (fun y hy => h.grey y (by simp [hy])) hw
  refine ⟨fun y hy => ?_, fun y hy => hs.mono (h.roots y hy), hgrey, hnd, fun z hz hzw y hzy => ?_⟩
  · rcases (hs.marked y).mp hy with hy | hy
    · exact h.sound y hy
    · exact .step (h.sound x hx) ((hedge y).mpr hy)
  by_cases hzx : z = x
  · subst hzx
    exact (hs.marked y).mpr (.inr ((hedge y).mp hzy))
  obtain ⟨new, rfl, -, hmem⟩ := hs.pushed
  simp only [mem_append, not_or] at hzw
  -- `z` is not newly marked, so it was black before
  have hmz : m z := by
    by_contra hno
    exact hzw.1 ((hmem z).mpr ⟨hz, hno⟩)
  exact hs.mono (h.black z hmz (by simp [hzx, hzw.2]) y hzy)

/-- **An empty worklist: exactly the reachable nodes are marked.** -/
theorem done (h : Marking root edge m []) (x : ν) : m x ↔ Reach root edge x := by
  refine ⟨h.sound x, fun hx => ?_⟩
  induction hx with
  | root hr => exact h.roots _ hr
  | step _ he ih => exact h.black _ ih (by simp) _ he

end Marking

end TurboWasm.Lib
