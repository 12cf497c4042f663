/-
# Iso-recursive types

A recursion group is a list of members; a member is a shape (everything but its references) and a
list of optional references.  A reference of a group is either to a member of the SAME group, and
then only the position of that member matters, or to a type that was closed before the group was
formed.  `IsoType σ` is the closed term this describes: the whole group with its internal
references replaced by positions, and the position of the one member it denotes.

A `RefGraph` is how a program stores such types: nodes with pointers.  `unroll` reads the closed
term off a graph.  Internal references become positions, so only references that leave the group
are followed, and when these lead to nodes of a smaller rank the term does not depend on the fuel
(`unroll_eq`).
-/
import Mathlib.Data.List.Basic

namespace TurboWasm.Lib

open List Option

/-- A closed iso-recursive type: the members of its group, and its position among them. -/
inductive IsoType (σ : Type) where
  | mk (members : List (σ × List (Option (Nat ⊕ IsoType σ)))) (pos : Nat)

namespace IsoType

variable {σ : Type}

def members : IsoType σ → List (σ × List (Option (Nat ⊕ IsoType σ)))
  | mk ms _ => ms

end IsoType

/-- Types stored as nodes that point at each other. -/
structure RefGraph (ν σ : Type) where
  /-- The group a node belongs to: each member's shape and the nodes it refers to. -/
  members : ν → List (σ × List (Option ν))
  /-- A node's position in its group. -/
  pos : ν → Nat
  /-- The position of the second node in the group of the first, when it belongs to it. -/
  inGroup : ν → ν → Option Nat
  rank : ν → Nat

namespace RefGraph

variable {ν σ : Type} (G : RefGraph ν σ)

/-- One reference of the group of `n`, read with `f` for the references that leave the group. -/
def refTerm (f : ν → IsoType σ) (n m : ν) : Nat ⊕ IsoType σ :=
  match G.inGroup n m with
  | some k => .inl k
  | none => .inr (f m)

/-- The closed term of a node, following at most `fuel` references that leave a group. -/
def unroll : Nat → ν → IsoType σ
  | 0, _ => .mk [] 0
  | fuel + 1, n =>
    .mk ((G.members n).map fun m => (m.1, m.2.map (Option.map (G.refTerm (unroll fuel) n))))
      (G.pos n)

/-- The closed term of a node. -/
def term (n : ν) : IsoType σ := G.unroll (G.rank n + 1) n

/-- Among the nodes in `V`, references that leave a group lead to nodes of smaller rank. -/
structure Ranked (V : ν → Prop) : Prop where
  closed : ∀ n, V n → ∀ m ∈ G.members n, ∀ k, some k ∈ m.2 → V k
  descends : ∀ n, V n → ∀ m ∈ G.members n, ∀ k, some k ∈ m.2 →
    G.inGroup n k = none → G.rank k < G.rank n

variable {G} {V : ν → Prop}

/-- Fuel above the rank of a node does not change its term. -/
theorem unroll_eq (hG : G.Ranked V) : ∀ (a b : Nat) (n : ν), V n → G.rank n < a → G.rank n < b →
    G.unroll a n = G.unroll b n
  | 0, _, _, _, ha, _ => absurd ha (Nat.not_lt_zero _)
  | _ + 1, 0, _, _, _, hb => absurd hb (Nat.not_lt_zero _)
  | a + 1, b + 1, n, hn, ha, hb => by
    simp only [unroll, IsoType.mk.injEq, and_true]
    apply map_congr_left
    intro m hm
    simp only [Prod.mk.injEq, true_and]
    apply map_congr_left
    intro o ho
    cases o with
    | none => rfl
    | some k =>
      simp only [map_some, some.injEq, refTerm]
      cases hk : G.inGroup n k with
      | some p => rfl
      | none =>
        have hlt := hG.descends n hn m hm k ho hk
        have hV := hG.closed n hn m hm k ho
        exact congrArg Sum.inr (unroll_eq hG a b k hV (by omega) (by omega))

theorem unroll_eq_term (hG : G.Ranked V) (hn : V n) (ha : G.rank n < a) :
    G.unroll a n = G.term n :=
  unroll_eq hG a _ n hn ha (Nat.lt_succ_self _)

/-- The term of a node, one level down. -/
theorem term_eq (hG : G.Ranked V) (hn : V n) : G.term n = .mk ((G.members n).map fun m =>
      (m.1, m.2.map (Option.map (G.refTerm G.term n)))) (G.pos n) := by
  simp only [term, unroll, IsoType.mk.injEq, and_true]
  apply map_congr_left
  intro m hm
  simp only [Prod.mk.injEq, true_and]
  apply map_congr_left
  intro o ho
  cases o with
  | none => rfl
  | some k =>
    simp only [map_some, some.injEq, refTerm]
    cases hk : G.inGroup n k with
    | some p => rfl
    | none =>
      exact congrArg Sum.inr
        (unroll_eq_term hG (hG.closed n hn m hm k ho) (hG.descends n hn m hm k ho hk))

/-- A map of graphs that keeps groups, positions and references keeps terms. -/
theorem unroll_map {ν' : Type} {G' : RefGraph ν' σ} {φ : ν → ν'}
    (hclosed : ∀ n, V n → ∀ m ∈ G.members n, ∀ k, some k ∈ m.2 → V k)
    (hmembers : ∀ n, V n →
      G'.members (φ n) = (G.members n).map fun m => (m.1, m.2.map (Option.map φ)))
    (hpos : ∀ n, V n → G'.pos (φ n) = G.pos n)
    (hin : ∀ n k, V n → V k → G'.inGroup (φ n) (φ k) = G.inGroup n k) :
    ∀ (fuel : Nat) (n : ν), V n → G'.unroll fuel (φ n) = G.unroll fuel n
  | 0, _, _ => rfl
  | fuel + 1, n, hn => by
    simp only [unroll, hmembers n hn, hpos n hn, List.map_map, IsoType.mk.injEq, and_true]
    apply List.map_congr_left
    intro m hm
    simp only [Function.comp_apply, List.map_map, Prod.mk.injEq, true_and]
    apply List.map_congr_left
    intro o ho
    cases o with
    | none => rfl
    | some k =>
      have hk := hclosed n hn m hm k ho
      simp only [Function.comp_apply, map_some, refTerm, hin n k hn hk,
        unroll_map hclosed hmembers hpos hin fuel k hk]

end RefGraph

end TurboWasm.Lib
