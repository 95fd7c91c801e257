import Mathlib

set_option relaxedAutoImplicit false
set_option autoImplicit false

/-!
# The IR type system

The value types of `src/Include/WAVM/IR/Types.h`, with the subtype relation the validator
checks (`isSubtype`), and the limits of tables and memories. The runtime's tables and memories
(`Wavm.Runtime.Table`, `Wavm.Runtime.Memory`) and the module's disassembly names
(`Wavm.IR.DisassemblyNames`) read their types from here.

`ValueType.none` is the bottom type that the validator pops from the empty operand stack of
unreachable code, and `ValueType.any` the top type that `drop` and untyped `select` expect.

## Main definitions

* `Wavm.IR.ValueType`, `Wavm.IR.ReferenceType` — the two enumerations of `Types.h`.
* `Wavm.IR.isSubtype` — the subtype test of `Types.h`, on value types and on type tuples.
* `Wavm.IR.SizeConstraints`, `Wavm.IR.TableType`, `Wavm.IR.MemoryType`,
  `Wavm.IR.GlobalType`, `Wavm.IR.FunctionType`.

## Main results

* `Wavm.IR.isSubtype_refl`, `Wavm.IR.isSubtype_trans` — `isSubtype` is a preorder.
* `Wavm.IR.isSubtype_none` — `none` is below every type.
-/

namespace Wavm.IR

/-! ## Value types -/

/-- `enum class ValueType` of `Types.h`. -/
inductive ValueType
  | none
  | any
  | i32
  | i64
  | f32
  | f64
  | v128
  | anyref
  | funcref
  | nullref
  deriving DecidableEq, Repr, Inhabited

/-- `enum class ReferenceType`: the reference subset of `ValueType`. -/
inductive ReferenceType
  | none
  | anyref
  | funcref
  deriving DecidableEq, Repr, Inhabited

/-- `asValueType`: the two enumerations share their encodings. -/
def asValueType : ReferenceType → ValueType
  | .none => .none
  | .anyref => .anyref
  | .funcref => .funcref

/-- `isNumericType`. -/
def isNumericType (type : ValueType) : Bool :=
  type == .i32 || type == .i64 || type == .f32 || type == .f64 || type == .v128

/-- `isReferenceType`. -/
def isReferenceType (type : ValueType) : Bool :=
  type == .anyref || type == .funcref || type == .nullref

/-- `isSubtype(ValueType, ValueType)`: equal types, the bottom type `none` below everything,
`any` above everything, and `nullref <: funcref <: anyref`. -/
def isSubtype (subtype supertype : ValueType) : Bool :=
  if subtype == supertype || subtype == .none then true
  else
    match supertype with
    | .any => true
    | .anyref => subtype == .funcref || subtype == .nullref
    | .funcref => subtype == .nullref
    | _ => false

/-- `isSubtype(TypeTuple, TypeTuple)`: equal lengths and elementwise subtypes. -/
def isSubtypeTuple : List ValueType → List ValueType → Bool
  | [], [] => true
  | a :: as, b :: bs => isSubtype a b && isSubtypeTuple as bs
  | _, _ => false

/-- `isSubtype(ReferenceType, ReferenceType)`. -/
def isSubtypeRef (subtype supertype : ReferenceType) : Bool :=
  if subtype == supertype then true
  else
    match supertype with
    | .anyref => subtype == .funcref
    | .funcref => subtype == .funcref
    | .none => false

@[simp] theorem isSubtype_refl (type : ValueType) : isSubtype type type = true := by
  simp [isSubtype]

@[simp] theorem isSubtype_none (type : ValueType) : isSubtype .none type = true := by
  simp [isSubtype]

@[simp] theorem isSubtype_any (type : ValueType) : isSubtype type .any = true := by
  cases type <;> rfl

/-- Only `none` is below `none`. -/
theorem eq_none_of_isSubtype_none {type : ValueType} (h : isSubtype type .none = true) :
    type = .none := by
  cases type <;> simp_all [isSubtype]

/-- `isSubtype` is transitive: a case analysis over the ten types. -/
theorem isSubtype_trans {a b c : ValueType} (hab : isSubtype a b = true)
    (hbc : isSubtype b c = true) : isSubtype a c = true := by
  cases a <;> cases b <;> cases c <;> simp_all [isSubtype]

/-! ## Limits, tables, memories and functions -/

/-- `SizeConstraints`: the `min` and `max` of a table or memory; `max = UINT64_MAX` means
unbounded. -/
structure SizeConstraints where
  min : UInt64
  max : UInt64
  deriving DecidableEq, Repr

/-- `TableType`. -/
structure TableType where
  elementType : ReferenceType
  isShared : Bool
  size : SizeConstraints
  deriving DecidableEq, Repr

/-- `MemoryType`. -/
structure MemoryType where
  isShared : Bool
  size : SizeConstraints
  deriving DecidableEq, Repr

/-- `GlobalType`. -/
structure GlobalType where
  valueType : ValueType
  isMutable : Bool
  deriving DecidableEq, Repr

/-- `FunctionType`: its parameter and result tuples. -/
structure FunctionType where
  params : List ValueType
  results : List ValueType
  deriving DecidableEq, Repr

/-- `IR::maxMemoryPages` of `IR.h`. -/
def maxMemoryPages : UInt64 := 65536

/-- `IR::maxTableElems` of `IR.h`: `U64(INT32_MAX)`. -/
def maxTableElems : UInt64 := 2147483647

/-- `IR::numBytesPerPage` of `IR.h`. -/
def numBytesPerPage : Nat := 65536

end Wavm.IR
