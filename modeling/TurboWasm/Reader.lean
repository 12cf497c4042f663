/-
# The bounded byte reader

`reader.c` walks a borrowed byte range with two pointers, `cursor` and `end`.  The model keeps the
offset of the cursor in the loaded module, because the validator stores such offsets (code start,
control annotations, initializer spans), together with the bytes still ahead of it.  Every
operation either consumes a prefix of those bytes or fails and leaves no reader behind, as the
callers of the source return at once when an operation answers `false`.
-/
import TurboWasm.Base

namespace TurboWasm

/-- `turbowasm_reader`: the cursor's offset in the module and the bytes up to `end`. -/
structure Reader where
  cursor : Nat
  rest : List UInt8
  deriving DecidableEq, Repr

namespace Reader

variable (r : Reader)

/-- `turbowasm_reader_remaining`. -/
def remaining : Nat := r.rest.length

/-- `*reader->cursor`, read by the callers that test for a leading byte. -/
def peek : Option UInt8 := r.rest.head?

/-- `turbowasm_reader_u8`. -/
def u8 : Option (UInt8 × Reader) :=
  match r.rest with
  | [] => none
  | b :: t => some (b, ⟨r.cursor + 1, t⟩)

theorem u8_peek {r r' : Reader} {b : UInt8} (h : r.u8 = some (b, r')) : r.peek = some b := by
  unfold u8 at h
  split at h
  · cases h
  · rename_i hr
    cases h
    simp [peek, hr]

/-- `turbowasm_reader_slice`: the sub-reader over the next `size` bytes, and the rest. -/
def slice (size : Nat) : Option (Reader × Reader) :=
  if r.remaining < size then none
  else some (⟨r.cursor, r.rest.take size⟩, ⟨r.cursor + size, r.rest.drop size⟩)

/-- The loop of `turbowasm_reader_uleb32`, with `5 - count` bytes left to read. -/
def uleb32From (value shift : Nat) : Nat → Reader → Option (Nat × Reader)
  | 0, _ => none
  | left + 1, r =>
    match r.u8 with
    | none => none
    | some (byte, r) =>
      if shift = 28 ∧ byte &&& 0xf0 ≠ 0 then none
      else
        let value := value ||| ((byte &&& 0x7f).toNat <<< shift)
        if byte &&& 0x80 ≠ 0 then uleb32From value (shift + 7) left r else some (value, r)

/-- `turbowasm_reader_uleb32`. -/
def uleb32 : Option (Nat × Reader) := uleb32From 0 0 5 r

/-- The loop of `turbowasm_reader_uleb64`, with `10 - count` bytes left to read. -/
def uleb64From (value shift : Nat) : Nat → Reader → Option (Nat × Reader)
  | 0, _ => none
  | left + 1, r =>
    match r.u8 with
    | none => none
    | some (byte, r) =>
      if left = 0 ∧ byte &&& 0xfe ≠ 0 then none
      else
        let value := value ||| ((byte &&& 0x7f).toNat <<< shift)
        if byte &&& 0x80 ≠ 0 then uleb64From value (shift + 7) left r else some (value, r)

/-- `turbowasm_reader_uleb64`. -/
def uleb64 : Option (Nat × Reader) := uleb64From 0 0 10 r

/-- `value |= (~0) << shift` for a `width`-bit value, when `signed` bits were shifted in and the
sign bit of the last payload is set; then the two's complement reading. -/
def signExtend (width value shift : Nat) (negative : Bool) : Int :=
  let value := if shift < width ∧ negative then value + (2 ^ width - 2 ^ shift) else value
  if value < 2 ^ (width - 1) then (value : Int) else (value : Int) - 2 ^ width

/-- The loop of `turbowasm_reader_sleb32`, with `5 - count` bytes left to read. -/
def sleb32From (value shift : Nat) : Nat → Reader → Option (Int × Reader)
  | 0, _ => none
  | left + 1, r =>
    match r.u8 with
    | none => none
    | some (byte, r) =>
      let payload := byte &&& 0x7f
      let negative := payload &&& 0x08 ≠ 0
      let unused := payload &&& 0x70
      if left = 0 ∧ ((¬ negative ∧ unused ≠ 0) ∨ (negative ∧ unused ≠ 0x70)) then none
      else
        let value := (value ||| (payload.toNat <<< shift)) % 2 ^ 32
        if byte &&& 0x80 ≠ 0 then sleb32From value (shift + 7) left r
        else some (signExtend 32 value (shift + 7) (byte &&& 0x40 ≠ 0), r)

/-- `turbowasm_reader_sleb32`. -/
def sleb32 : Option (Int × Reader) := sleb32From 0 0 5 r

/-- The loop of `turbowasm_reader_sleb64`, with `10 - count` bytes left to read. -/
def sleb64From (value shift : Nat) : Nat → Reader → Option (Int × Reader)
  | 0, _ => none
  | left + 1, r =>
    match r.u8 with
    | none => none
    | some (byte, r) =>
      let payload := byte &&& 0x7f
      let negative := payload &&& 0x01 ≠ 0
      let unused := payload &&& 0x7e
      if left = 0 ∧ ((¬ negative ∧ unused ≠ 0) ∨ (negative ∧ unused ≠ 0x7e)) then none
      else
        let value := (value ||| (payload.toNat <<< shift)) % 2 ^ 64
        if byte &&& 0x80 ≠ 0 then sleb64From value (shift + 7) left r
        else some (signExtend 64 value (shift + 7) (byte &&& 0x40 ≠ 0), r)

/-- `turbowasm_reader_sleb64`. -/
def sleb64 : Option (Int × Reader) := sleb64From 0 0 10 r

/-- The loop of `turbowasm_validation_read_s33` (`validate_type.c`), with `5 - count` bytes left
to read.  The fifth byte sign-extends from bit 33, an earlier last byte from its own width. -/
def s33From (value shift : Nat) : Nat → Reader → Option (Int × Reader)
  | 0, _ => none
  | left + 1, r =>
    match r.u8 with
    | none => none
    | some (byte, r) =>
      let payload := byte &&& 0x7f
      let negative := payload &&& 0x10 ≠ 0
      let unused := payload &&& 0x60
      if left = 0 ∧ ((¬ negative ∧ unused ≠ 0) ∨ (negative ∧ unused ≠ 0x60)) then none
      else
        let value := value ||| (payload.toNat <<< shift)
        if byte &&& 0x80 ≠ 0 then s33From value (shift + 7) left r
        else if left = 0 then
          some (if byte &&& 0x10 ≠ 0 then
            signExtend 64 (value % 2 ^ 33) 33 true else signExtend 64 value 64 false, r)
        else some (signExtend 64 value (shift + 7) (byte &&& 0x40 ≠ 0), r)

/-- `turbowasm_validation_read_s33`. -/
def s33 : Option (Int × Reader) := s33From 0 0 5 r

end Reader

end TurboWasm
