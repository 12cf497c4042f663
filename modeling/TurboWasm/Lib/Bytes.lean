/-
# Ranges of a list

Reading and overwriting a range of a list, as `memmove` and `memset` do it.
-/
import Mathlib.Data.List.Basic

namespace TurboWasm.Lib

open List

variable {α : Type} {xs ys : List α} {pos : Nat}

/-- The `n` items from `pos` on. -/
def slice (xs : List α) (pos n : Nat) : List α := (xs.drop pos).take n

/-- `xs` with `ys` written over it from `pos` on. -/
def patch (xs : List α) (pos : Nat) (ys : List α) : List α :=
  xs.take pos ++ ys ++ xs.drop (pos + ys.length)

theorem length_slice (h : pos + n ≤ xs.length) : (slice xs pos n).length = n := by
  simp only [slice, length_take, length_drop]
  omega

theorem length_patch (h : pos + ys.length ≤ xs.length) : (patch xs pos ys).length = xs.length := by
  simp only [patch, length_append, length_take, length_drop]
  omega

/-- The list up to the end of the range. -/
theorem take_patch (h : pos ≤ xs.length) :
    (patch xs pos ys).take (pos + ys.length) = xs.take pos ++ ys := by
  refine take_left' ?_
  rw [length_append, length_take, Nat.min_eq_left h]

/-- The list behind the range. -/
theorem drop_patch (h : pos ≤ xs.length) (ys : List α) :
    (patch xs pos ys).drop (pos + ys.length) = xs.drop (pos + ys.length) := by
  refine drop_left' ?_
  rw [length_append, length_take, Nat.min_eq_left h]

theorem patch_nil (xs : List α) (pos : Nat) : patch xs pos [] = xs := by
  simp [patch]

/-- Two ranges, one behind the other, are written as one. -/
theorem patch_append (h : pos + ys.length ≤ xs.length) (zs : List α) :
    patch (patch xs pos ys) (pos + ys.length) zs = patch xs pos (ys ++ zs) := by
  have hpos : pos ≤ xs.length := by omega
  rw [patch, take_patch hpos, ← drop_drop, drop_patch hpos, drop_drop, patch, length_append]
  simp only [append_assoc, Nat.add_assoc]

/-- What lies outside the range stays. -/
theorem getElem?_patch (h : pos + ys.length ≤ xs.length)
    (hi : i < pos ∨ pos + ys.length ≤ i) : (patch xs pos ys)[i]? = xs[i]? := by
  unfold patch
  rcases hi with hi | hi
  · rw [append_assoc, getElem?_append_left (by simp; omega), getElem?_take_of_lt hi]
  · rw [getElem?_append_right (by simp; omega), getElem?_drop]
    congr 1
    simp
    omega

theorem slice_patch (h : pos + ys.length ≤ xs.length) : slice (patch xs pos ys) pos ys.length = ys := by
  rw [slice, patch, append_assoc, drop_left' (by simp; omega), take_left]

/-- A range apart from the written one stays. -/
theorem slice_patch_apart {start n : Nat} (h : pos + ys.length ≤ xs.length)
    (hapart : start + n ≤ pos ∨ pos + ys.length ≤ start) :
    slice (patch xs pos ys) start n = slice xs start n := by
  refine ext_getElem? fun i => ?_
  simp only [slice, getElem?_take, getElem?_drop]
  split
  · exact getElem?_patch h (by omega)
  · rfl

theorem take_append_slice (xs : List α) (pos n : Nat) :
    xs.take (pos + n) = xs.take pos ++ slice xs pos n := take_add

theorem slice_congr (h : xs.drop pos = ys.drop pos) (n : Nat) :
    slice xs pos n = slice ys pos n := by
  simp only [slice, h]

end TurboWasm.Lib
