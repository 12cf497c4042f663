/-
# The retained type records

`validation_context.h` keeps every declared type of a module as one
`turbowasm_validation_func_type` in the array `context->types`, and every value type as a
`turbowasm_validation_value_type`.  The records point at each other: a value type at its
`definition`, a type at its `super`, at the first member of its recursion `group` and at its
`canonical` representative.

A pointer is modelled by the array it points into and the index in it (`TypePtr`), and memory by a
map from array addresses to arrays (`TypeHeap`).  So `&lg[i]` is pointer arithmetic, `left == right`
is equality of pointers, and a store's clone of a module's types is another array of the same heap.

The byte arrays `params` and `results` of the source mirror the `carrier` fields of
`param_semantics` and `result_semantics` (`turbowasm_validation_types_finalize` copies them), and
are not kept a second time.
-/
import TurboWasm.Base

namespace TurboWasm

/-- `turbowasm_validation_heap_kind`. -/
inductive HeapKind where
  | none | func | external | exn | noexn | typeIndex | nofunc | noexternal
  | any | eq | i31 | struct | array | bottom
  deriving DecidableEq, Repr

/-- `const turbowasm_validation_func_type *`, when it is not `NULL`. -/
structure TypePtr where
  ctx : Nat
  index : Nat
  deriving DecidableEq, Repr

/-- `&p[i]`. -/
def TypePtr.add (p : TypePtr) (i : Nat) : TypePtr := ⟨p.ctx, p.index + i⟩

/-- `turbowasm_validation_value_type`. -/
structure ValueType where
  carrier : UInt8
  isReference : Bool
  nullable : Bool
  heapKind : HeapKind
  typeIndex : Nat
  definition : Option TypePtr
  deriving DecidableEq, Repr

/-- `turbowasm_validation_type_kind`. -/
inductive TypeKind where
  | function | struct | array
  deriving DecidableEq, Repr

/-- `turbowasm_validation_field`. -/
structure Field where
  type : ValueType
  packedBits : Nat
  mutableValue : Bool
  deriving DecidableEq, Repr

/-- `turbowasm_validation_func_type`. -/
structure FuncType where
  defined : Bool
  params : List ValueType
  results : List ValueType
  kind : TypeKind
  fields : List Field
  finalType : Bool
  superIndex : Nat
  super : Option TypePtr
  group : Option TypePtr
  groupCount : Nat
  groupOffset : Nat
  dependencyDepth : Nat
  canonical : Option TypePtr
  deriving DecidableEq, Repr

/-- A record of a freshly allocated (zeroed) array. -/
def FuncType.zero : FuncType where
  defined := false
  params := []
  results := []
  kind := .function
  fields := []
  finalType := false
  superIndex := 0
  super := none
  group := none
  groupCount := 0
  groupOffset := 0
  dependencyDepth := 0
  canonical := none

/-- The type arrays in memory, by address.  Address without an array: the empty array. -/
abbrev TypeHeap := Nat → List FuncType

/-- `*p`; `none` when `p` does not point into an array. -/
def TypeHeap.get (H : TypeHeap) (p : TypePtr) : Option FuncType := (H p.ctx)[p.index]?

/-- Memory with the array `types` at address `c`. -/
def TypeHeap.put (H : TypeHeap) (c : Nat) (types : List FuncType) : TypeHeap :=
  fun k => if k = c then types else H k

@[simp] theorem TypeHeap.put_self (H : TypeHeap) (c : Nat) (types : List FuncType) :
    H.put c types c = types := by simp [put]

theorem TypeHeap.put_ne (H : TypeHeap) (types : List FuncType) (h : k ≠ c) :
    H.put c types k = H k := by simp [put, h]

/-- `turbowasm_validation_value_type_legacy`. -/
def valueTypeLegacy (carrier : UInt8) : ValueType :=
  if carrier = 0x70 then ⟨carrier, true, true, .func, uint32Max, none⟩
  else if carrier = 0x6f then ⟨carrier, true, true, .external, uint32Max, none⟩
  else if carrier = 0x69 then ⟨carrier, true, true, .exn, uint32Max, none⟩
  else if carrier = 0x6e then ⟨carrier, true, true, .any, uint32Max, none⟩
  else ⟨carrier, false, false, .none, uint32Max, none⟩

end TurboWasm
