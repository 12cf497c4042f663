/-
# Run-time values

`turbowasm_value` is a kind and a union; a value of a kind only ever uses the union's member of
that kind, so the model is one inductive type with a constructor per kind.  `zero` is what `calloc`
and `memset` leave behind, a value whose kind is none of the enumeration's.  The lane shape of a
vector is a hint for the back ends and is left out.
-/
import TurboWasm.Base

namespace TurboWasm

/-- `turbowasm_gcref`: the store it belongs to and its handle. -/
structure GcRef where
  store : Option Nat
  handle : Nat
  deriving DecidableEq, Repr

/-- `turbowasm_value`. -/
inductive Value where
  | zero
  | i32 (bits : BitVec 32)
  | i64 (bits : BitVec 64)
  | f32 (bits : BitVec 32)
  | f64 (bits : BitVec 64)
  | v128 (bits : BitVec 128)
  | funcref (isNull : Bool) (functionIndex : Nat) (owner : Option Nat)
  | externref (isNull : Bool) (token : Nat)
  | gcref (ref : GcRef)
  | exnref (isNull : Bool) (exception : Option Nat)
  | managedExternref (ref : GcRef)
  deriving DecidableEq, Repr

/-- The `gcref` member of the two kinds that use it. -/
def Value.managed : Value → Option GcRef
  | .gcref ref => some ref
  | .managedExternref ref => some ref
  | _ => none

/-- `turbowasm_gc_is_i31`. -/
def GcRef.isI31 (ref : GcRef) : Bool := ref.handle.testBit 63

/-- `TW_GC_GENERATION_MAX`. -/
def gcGenerationMax : Nat := 0x7fffffff

end TurboWasm
