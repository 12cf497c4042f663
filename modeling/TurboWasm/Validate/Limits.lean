/-
# Limits of memories and tables

The memory and table types of `validate_linkage.c`.  A memory type that is accepted has one of two
page sizes, and its limits are in order and below what the implementation can address
(`readMemoryType_valid`).
-/
import TurboWasm.Reader

namespace TurboWasm

/-- `turbowasm_validation_memory_limits`. -/
structure MemoryLimits where
  minimum : Nat
  maximum : Nat
  hasMaximum : Bool
  deriving DecidableEq, Repr

/-- What `turbowasm_read_memory_type` reads. -/
structure MemoryType where
  limits : MemoryLimits
  pageSize : Nat
  shared : Bool
  memory64 : Bool
  deriving DecidableEq, Repr

/-- `turbowasm_validation_memory`. -/
structure ValidationMemory where
  imported : Bool
  type : MemoryType
  deriving DecidableEq, Repr

/-- `maximum_pages`, in `turbowasm_read_memory_type` and `turbowasm_instance_memory_grow64`. -/
def maximumPages (memory64 : Bool) (pageSize : Nat) : Nat :=
  if memory64 then (if pageSize = 1 then uint64Max else 2 ^ 48)
  else (if pageSize = 1 then uint32Max else 65536)

/-- A bound of a memory or table type, 64-bit or 32-bit. -/
def readBound (wide : Bool) (r : Reader) : Result (Nat × Reader) :=
  orMalformed (if wide then r.uleb64 else r.uleb32)

/-- The maximum, when the flags announce one. -/
def readMaximum (present wide : Bool) (minimum : Nat) (r : Reader) :
    Result (Nat × Reader) := do
  if present then
    let (maximum, r) ← readBound wide r
    malformedIf (maximum < minimum)
    return (maximum, r)
  else return (0, r)

/-- The page exponent, when the flags announce one. -/
def readPageExponent (present : Bool) (r : Reader) : Result (Nat × Reader) := do
  if present then
    let (exponent, r) ← orMalformed r.uleb32
    malformedIf (exponent != 0 && exponent != 16)
    return (exponent, r)
  else return (16, r)

/-- `turbowasm_read_memory_type`. -/
def readMemoryType (r : Reader) : Result (MemoryType × Reader) := do
  let (flags, r) ← orMalformed r.u8
  malformedIf (flags &&& 0xf0 != 0)
  let hasMaximum := flags &&& 0x01 != 0
  let shared := flags &&& 0x02 != 0
  let memory64 := flags &&& 0x04 != 0
  malformedIf (shared && !hasMaximum)
  let (minimum, r) ← readBound memory64 r
  let (maximum, r) ← readMaximum hasMaximum memory64 minimum r
  let (exponent, r) ← readPageExponent (flags &&& 0x08 != 0) r
  let pageSize := if exponent = 0 then 1 else 65536
  let bound := maximumPages memory64 pageSize
  malformedIf (bound < minimum || hasMaximum && bound < maximum)
  return (⟨⟨minimum, maximum, hasMaximum⟩, pageSize, shared, memory64⟩, r)

/-- `turbowasm_validation_limits`. -/
structure TableLimits where
  minimum : Nat
  maximum : Nat
  hasMaximum : Bool
  table64 : Bool
  deriving DecidableEq, Repr

/-- `turbowasm_read_limits`, whose one caller passes `UINT32_MAX` for `maximum_bound`: no bound. -/
def readLimits (r : Reader) : Result (TableLimits × Reader) := do
  let (flags, r) ← orMalformed r.u8
  malformedIf (flags &&& 0xfa != 0)
  let hasMaximum := flags &&& 0x01 != 0
  let table64 := flags &&& 0x04 != 0
  let (minimum, r) ← readBound table64 r
  let (maximum, r) ← readMaximum hasMaximum table64 minimum r
  return (⟨minimum, maximum, hasMaximum, table64⟩, r)

/-- What holds of an accepted memory type. -/
structure MemoryType.Valid (t : MemoryType) : Prop where
  pageSize : t.pageSize = 1 ∨ t.pageSize = 65536
  minimum : t.limits.minimum ≤ maximumPages t.memory64 t.pageSize
  maximum : t.limits.hasMaximum → t.limits.minimum ≤ t.limits.maximum ∧
    t.limits.maximum ≤ maximumPages t.memory64 t.pageSize

theorem readMaximum_le (h : readMaximum present wide minimum r = .ok (maximum, r')) (hp : present) :
    minimum ≤ maximum := by
  simp only [readMaximum, hp, ↓reduceIte, bind_eq_ok, failIf_eq_ok, decide_eq_false_iff_not,
    not_lt] at h
  obtain ⟨⟨m, r1⟩, -, -, hle, hout⟩ := h
  cases hout
  exact hle

/-- Every memory type that `turbowasm_read_memory_type` accepts is valid. -/
theorem readMemoryType_valid {t : MemoryType} (h : readMemoryType r = .ok (t, r')) : t.Valid := by
  simp only [readMemoryType, bind_eq_ok, failIf_eq_ok] at h
  obtain ⟨⟨flags, r1⟩, -, -, -, -, -, ⟨minimum, r2⟩, -, ⟨maximum, r3⟩, hmax, ⟨exponent, r4⟩, -, -,
    hbound, hout⟩ := h
  cases hout
  simp only [Bool.or_eq_false_iff, decide_eq_false_iff_not, not_lt, Bool.and_eq_false_iff]
    at hbound
  refine ⟨?_, hbound.1, fun hp => ⟨readMaximum_le hmax hp, ?_⟩⟩
  · show (if exponent = 0 then 1 else 65536) = 1 ∨ (if exponent = 0 then 1 else 65536) = 65536
    split
    · exact .inl rfl
    · exact .inr rfl
  · rcases hbound.2 with hno | hle
    · rw [show (flags &&& 1 != 0) from hp] at hno
      cases hno
    · exact hle

end TurboWasm
