/-
# Type equality and matching, as `validate_composite.c` and `validation_context.c` compute them

`turbowasm_validation_defined_type_equal` compares two recursion groups member by member: a
reference into the group under comparison is compared by its position in the group, every other
reference by a recursive call.  Nothing in the function counts the recursion, so the model carries
fuel and answers `none` when it runs out, or when a pointer does not point into an array.
`Types/Iso.lean` proves how much fuel is enough.

The loops of the source return at the first member that differs; `allShort` keeps that order.
-/
import TurboWasm.Types.Value

namespace TurboWasm

/-- `for (...) if (!f(x)) return false; return true;` -/
def allShort {α : Type} (f : α → Option Bool) : List α → Option Bool
  | [] => some true
  | a :: t =>
    match f a with
    | some true => allShort f t
    | other => other

/-- `x && y`, where `y` is evaluated only when `x` is true. -/
def andShort (x : Option Bool) (y : Option Bool) : Option Bool :=
  match x with
  | some true => y
  | other => other

section Group

/- The recursive call of the comparison, and the two groups under comparison. -/
variable (recEq : TypePtr → TypePtr → Option Bool) (H : TypeHeap) (leftGroup rightGroup : TypePtr)

/-- `group_reference_equal`. -/
def groupReferenceEqual (left right : Option TypePtr) : Option Bool :=
  match left, right with
  | some l, some r =>
    match H.get l, H.get r with
    | some L, some R =>
      let leftLocal := L.group == some leftGroup
      let rightLocal := R.group == some rightGroup
      if leftLocal || rightLocal then
        some (leftLocal && rightLocal && L.groupOffset == R.groupOffset)
      else recEq l r
    | _, _ => none
  | none, none => some true
  | _, _ => some false

/-- `group_value_equal`. -/
def groupValueEqual (left right : ValueType) : Option Bool :=
  if left.carrier ≠ right.carrier ∨ left.isReference ≠ right.isReference ∨
      left.nullable ≠ right.nullable ∨ left.heapKind ≠ right.heapKind then some false
  else if left.heapKind ≠ .typeIndex then some true
  else groupReferenceEqual recEq H leftGroup rightGroup left.definition right.definition

/-- One round of the field loop. -/
def groupFieldEqual (a b : Field) : Option Bool :=
  if a.packedBits ≠ b.packedBits ∨ a.mutableValue ≠ b.mutableValue then some false
  else groupValueEqual recEq H leftGroup rightGroup a.type b.type

/-- One round of the member loop of `turbowasm_validation_defined_type_equal`. -/
def groupMemberEqual (a b : FuncType) : Option Bool :=
  if a.kind ≠ b.kind ∨ a.finalType ≠ b.finalType ∨ a.params.length ≠ b.params.length ∨
      a.results.length ≠ b.results.length ∨ a.fields.length ≠ b.fields.length then some false
  else
    andShort (groupReferenceEqual recEq H leftGroup rightGroup a.super b.super) <|
    andShort (allShort (fun p => groupValueEqual recEq H leftGroup rightGroup p.1 p.2)
      (a.params.zip b.params)) <|
    andShort (allShort (fun p => groupValueEqual recEq H leftGroup rightGroup p.1 p.2)
      (a.results.zip b.results)) <|
    allShort (fun p => groupFieldEqual recEq H leftGroup rightGroup p.1 p.2) (a.fields.zip b.fields)

/-- The member loop of `turbowasm_validation_defined_type_equal`. -/
def groupEqual (count : Nat) : Option Bool :=
  allShort (fun i =>
    match H.get (leftGroup.add i), H.get (rightGroup.add i) with
    | some a, some b => groupMemberEqual recEq H leftGroup rightGroup a b
    | _, _ => none) (List.range count)

end Group

/-- `turbowasm_validation_defined_type_equal` of two pointers that are not `NULL`. -/
def definedTypeEqual (H : TypeHeap) : Nat → TypePtr → TypePtr → Option Bool
  | 0, _, _ => none
  | fuel + 1, left, right =>
    match H.get left, H.get right with
    | some L, some R =>
      if !L.defined || !R.defined then some false
      else if left = right ∨ (L.canonical.isSome ∧ L.canonical = R.canonical) then some true
      else if L.groupOffset ≠ R.groupOffset ∨ L.groupCount ≠ R.groupCount then some false
      else
        match L.group, R.group with
        | some lg, some rg => groupEqual (definedTypeEqual H fuel) H lg rg L.groupCount
        | _, _ => some false
    | _, _ => none

/-- `turbowasm_validation_defined_type_matches`: walk the declared supertypes of `actual`. -/
def definedTypeMatches (H : TypeHeap) (fuel : Nat) : Nat → Option TypePtr → TypePtr → Option Bool
  | 0, _, _ => none
  | _ + 1, none, _ => some false
  | steps + 1, some actual, expected =>
    match definedTypeEqual H fuel actual expected with
    | some false =>
      match H.get actual with
      | some A => definedTypeMatches H fuel steps A.super expected
      | none => none
    | other => other

/-- `turbowasm_validation_value_type_equal`. -/
def valueTypeEqual (H : TypeHeap) (fuel : Nat) (left right : ValueType) : Option Bool :=
  if left.carrier ≠ right.carrier ∨ left.isReference ≠ right.isReference then some false
  else if !left.isReference then some true
  else if left.nullable ≠ right.nullable ∨ left.heapKind ≠ right.heapKind then some false
  else if left.heapKind = .typeIndex then
    match left.definition, right.definition with
    | some l, some r => definedTypeEqual H fuel l r
    | l, r => some (l == r && left.typeIndex == right.typeIndex)
  else some true

/-- The heap kind that `turbowasm_validation_value_type_matches` uses for a type with the `0x6e`
carrier: a type index stands for the kind of its definition. -/
def gcHeapKind (H : TypeHeap) (t : ValueType) : HeapKind :=
  match t.heapKind, t.definition.bind H.get with
  | .typeIndex, some d => if d.kind = .struct then .struct else .array
  | k, _ => k

/-- `turbowasm_validation_value_type_matches`. -/
def valueTypeMatches (H : TypeHeap) (fuel : Nat) (actual expected : ValueType) : Option Bool :=
  if !actual.isReference || !expected.isReference then valueTypeEqual H fuel actual expected
  else if actual.carrier ≠ expected.carrier then some false
  else if actual.nullable ∧ ¬ expected.nullable then some false
  else if actual.heapKind = expected.heapKind then
    if actual.heapKind = .typeIndex then
      match actual.definition, expected.definition with
      | some a, some e => definedTypeMatches H fuel fuel (some a) e
      | a, e => some (a == e && actual.typeIndex == expected.typeIndex)
    else some true
  else if actual.heapKind = .typeIndex ∧ expected.heapKind = .func then some true
  else if actual.carrier = 0x6e then
    if actual.heapKind = .bottom ∨ expected.heapKind = .any then some true
    else
      let kind := gcHeapKind H actual
      some (kind == expected.heapKind ||
        (expected.heapKind == .eq && (kind == .i31 || kind == .struct || kind == .array)))
  else if actual.heapKind = .nofunc ∧
      (expected.heapKind = .func ∨ expected.heapKind = .typeIndex) then some true
  else if actual.heapKind = .noexternal ∧ expected.heapKind = .external then some true
  else some (actual.heapKind == .noexn && expected.heapKind == .exn)

end TurboWasm
