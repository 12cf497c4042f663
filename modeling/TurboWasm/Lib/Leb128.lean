/-
# LEB128 integers

The integer productions of the WebAssembly binary format.  An encoding of an `N`-bit integer is a
run of bytes with the top bit set, seven bits of the integer in each and lowest first, and a last
byte without it.  Each continued byte leaves seven bits less for the rest, so the last byte is
judged by the bits that are left there.  The unsigned and the signed format differ in the last
byte only, and that is the parameter of the grammar:

* `unsignedLast`: the byte is the value and has to fit in the bits left;
* `signedLast`: bit 6 is the sign, and the bits beyond those left have to repeat it.

The grammar mentions no decoder.  It bounds the length of an encoding (`Encodes.length_lt`) and
the value (`Encodes.unsigned_range`, `Encodes.signed_range`), and has an encoding for each integer
in range (`exists_unsigned`, `exists_signed`).
-/
import Mathlib.Tactic.Ring
import Mathlib.Tactic.Linarith

namespace TurboWasm.Lib

open Option

variable {N n : Nat} {bs : List UInt8} {v : Int}

/-- The value of the last byte of an unsigned integer with `N` bits left. -/
def unsignedLast (N n : Nat) : Option Int :=
  if n < 2 ^ N then some n else none

/-- The value of the last byte of a signed integer with `N` bits left. -/
def signedLast (N n : Nat) : Option Int :=
  if n < 2 ^ 6 ∧ n < 2 ^ (N - 1) then some n
  else if 2 ^ 6 ≤ n ∧ 2 ^ 7 ≤ n + 2 ^ (N - 1) then some (n - 2 ^ 7)
  else none

/-- `bytes` is an encoding of `v` in `N` bits. -/
inductive Encodes (last : Nat → Nat → Option Int) : Nat → List UInt8 → Int → Prop
  | last {N : Nat} {b : UInt8} {v : Int} :
      b.toNat < 2 ^ 7 → last N b.toNat = some v → Encodes last N [b] v
  | more {N : Nat} {b : UInt8} {bs : List UInt8} {m : Int} :
      2 ^ 7 ≤ b.toNat → 7 < N → Encodes last (N - 7) bs m →
      Encodes last N (b :: bs) (2 ^ 7 * m + (b.toNat - 2 ^ 7))

/-- At most `⌈N / 7⌉` bytes. -/
theorem Encodes.length_lt {last : Nat → Nat → Option Int}
    (hN : 0 < N) (h : Encodes last N bs v) : 7 * bs.length < N + 7 := by
  induction h with
  | last => simpa using hN
  | more _ hwide _ ih =>
    have := ih (by omega)
    rw [List.length_cons]
    omega

/-- A byte of the lowest seven bits of an integer. -/
theorem toNat_ofNat_byte (h : n < 256) : (UInt8.ofNat n).toNat = n := by
  rw [UInt8.toNat_ofNat']
  exact Nat.mod_eq_of_lt h

/-- `2 ^ N` in terms of the bits left behind a continued byte. -/
theorem two_pow_split (h : 7 ≤ N) : (2 : Int) ^ N = 2 ^ 7 * 2 ^ (N - 7) := by
  rw [← pow_add]
  congr 1
  omega

/-- The lowest seven bits of an integer, before an encoding of the others. -/
theorem Encodes.continued {last : Nat → Nat → Option Int}
    (hN : 7 < N) (h : Encodes last (N - 7) bs (v / 2 ^ 7)) :
    Encodes last N (UInt8.ofNat ((v % 2 ^ 7).toNat + 2 ^ 7) :: bs) v := by
  have hb : (UInt8.ofNat ((v % 2 ^ 7).toNat + 2 ^ 7)).toNat = (v % 2 ^ 7).toNat + 2 ^ 7 :=
    toNat_ofNat_byte (by omega)
  have hv : 2 ^ 7 * (v / 2 ^ 7) + (((v % 2 ^ 7).toNat + 2 ^ 7 : Nat) - 2 ^ 7) = v := by omega
  have henc := Encodes.more (by omega) hN h (b := UInt8.ofNat ((v % 2 ^ 7).toNat + 2 ^ 7))
  rwa [hb, hv] at henc

/-! ## 1. Unsigned integers -/

theorem unsignedLast_eq_some : unsignedLast N n = some v ↔ n < 2 ^ N ∧ v = n := by
  rw [unsignedLast, ite_none_right_eq_some, some.injEq, eq_comm]

theorem Encodes.unsigned_range (h : Encodes unsignedLast N bs v) : 0 ≤ v ∧ v < 2 ^ N := by
  induction h with
  | last _ h =>
    obtain ⟨hn, rfl⟩ := unsignedLast_eq_some.mp h
    exact ⟨by omega, by exact_mod_cast hn⟩
  | @more N b bs m hb hN _ ih =>
    have hlt := b.toNat_lt
    rw [two_pow_split hN.le]
    omega

theorem exists_unsigned (N : Nat) (v : Int) (h0 : 0 ≤ v) (hv : v < 2 ^ N) :
    ∃ bs, Encodes unsignedLast N bs v := by
  induction N using Nat.strongRecOn generalizing v with
  | ind N ih =>
    by_cases hsmall : v < 2 ^ 7
    · -- the integer fits in one byte
      have hb : (UInt8.ofNat v.toNat).toNat = v.toNat := toNat_ofNat_byte (by omega)
      refine ⟨[UInt8.ofNat v.toNat], .last (by omega) (unsignedLast_eq_some.mpr ?_)⟩
      rw [hb]
      zify
      omega
    have hN : 7 < N := by
      by_contra hle
      have := pow_le_pow_right₀ (a := (2 : Int)) (by decide) (not_lt.mp hle)
      omega
    rw [two_pow_split hN.le] at hv
    obtain ⟨bs, hbs⟩ := ih (N - 7) (by omega) (v / 2 ^ 7) (by omega) (by omega)
    exact ⟨_, hbs.continued hN⟩

/-! ## 2. Signed integers -/

theorem signedLast_eq_some : signedLast N n = some v ↔ (n < 2 ^ 6 ∧ n < 2 ^ (N - 1) ∧ v = n) ∨
        (2 ^ 6 ≤ n ∧ 2 ^ 7 ≤ n + 2 ^ (N - 1) ∧ v = n - 2 ^ 7) := by
  unfold signedLast
  split
  · simp only [some.injEq]
    omega
  · split
    · simp only [some.injEq]
      omega
    · simp only [reduceCtorEq, false_iff]
      omega

theorem Encodes.signed_range
    (h : Encodes signedLast N bs v) : -2 ^ (N - 1) ≤ v ∧ v < 2 ^ (N - 1) := by
  induction h with
  | @last N b v _ h =>
    have h2 : ((2 ^ (N - 1) : Nat) : Int) = 2 ^ (N - 1) := by norm_cast
    rcases signedLast_eq_some.mp h with ⟨_, hn, rfl⟩ | ⟨_, hn, rfl⟩
    · omega
    · omega
  | @more N b bs m hb hN _ ih =>
    have hlt := b.toNat_lt
    rw [two_pow_split (by omega : 7 ≤ N - 1), show N - 1 - 7 = N - 7 - 1 by omega]
    omega

theorem exists_signed (N : Nat) (v : Int) (hN : 0 < N) (h0 : -2 ^ (N - 1) ≤ v)
    (hv : v < 2 ^ (N - 1)) : ∃ bs, Encodes signedLast N bs v := by
  induction N using Nat.strongRecOn generalizing v with
  | ind N ih =>
    have h2 : ((2 ^ (N - 1) : Nat) : Int) = 2 ^ (N - 1) := by norm_cast
    by_cases hsmall : -2 ^ 6 ≤ v ∧ v < 2 ^ 6
    · have hb : (UInt8.ofNat (v % 2 ^ 7).toNat).toNat = (v % 2 ^ 7).toNat :=
        toNat_ofNat_byte (by omega)
      refine ⟨[UInt8.ofNat (v % 2 ^ 7).toNat], .last (by omega) (signedLast_eq_some.mpr ?_)⟩
      omega
    have h7 : 7 < N := by
      by_contra hle
      have := pow_le_pow_right₀ (a := 2) (by decide) (by omega : N - 1 ≤ 6)
      omega
    rw [two_pow_split (by omega : 7 ≤ N - 1), show N - 1 - 7 = N - 7 - 1 by omega] at h0 hv
    obtain ⟨bs, hbs⟩ := ih (N - 7) (by omega) (v / 2 ^ 7) (by omega) (by omega) (by omega)
    exact ⟨_, hbs.continued h7⟩

end TurboWasm.Lib
