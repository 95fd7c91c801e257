import Wavm.IR.Types
import Wavm.Runtime.Basic

set_option relaxedAutoImplicit false
set_option autoImplicit false

/-!
# Tables

`src/Lib/Runtime/Table.cpp`: a table reserves address space for `2^32` elements, of which the
first `numElements` are in bounds. No access compares an index with `numElements`. A slot
past it holds the out-of-bounds sentinel, the biased value `0` that a freshly committed page
reads as, and every read and write checks the slot for the sentinel. `setTableElementNonNull`
reads the old value first and refuses to overwrite a sentinel. This file models the table
functions and proves that they keep the sentinel exactly on the slots past `numElements`
(`Table.Valid`). From that, an access throws exactly when its index is out of bounds.

## Main definitions

* `Wavm.Runtime.TableElement`, `Wavm.Runtime.Table` — a slot, and the fields of `struct Table`
  that the modelled functions read.
* `Wavm.Runtime.growTableImpl`, `createTable`, `cloneTable`, `deleteTable`, `growTable`,
  `tableGrow`.
* `Wavm.Runtime.setTableElementNonNull`, `getTableElementNonNull`, `setTableElement`,
  `getTableElement`, and the loops of the `table.fill`, `table.init` and `table.copy`
  intrinsics.
* `Wavm.Runtime.Table.Valid` — the sentinel invariant.

## Main results

* `Wavm.Runtime.setTableElementNonNull_of_lt`, `setTableElementNonNull_of_le` — on a valid
  table, a write succeeds below `numElements` and throws, changing nothing, at or past it.
* `Wavm.Runtime.rewritten_setTableElementNonNull` and the loop lemmas after it — element
  writes keep a table valid.
* `Wavm.Runtime.growTableImpl_cases` — a grow fails and changes nothing, or stays within the
  type's maximum and `IR::maxTableElems` and initializes exactly the new slots.
* `Wavm.Runtime.createTable_cases`, `cloneTable_cases` — what creation charges and builds.

## Implementation notes

The slots are a function from indices to `TableElement`. A slot of a page that is not
committed reads as the sentinel. Reading such a slot faults, and `unwindSignalsAsExceptions`
turns the fault into the `outOfBoundsTableAccess` that the sentinel check throws, so the model
need not tell committed slots from uncommitted ones. Objects are a type parameter `Object`.
The host cannot name the sentinels, because `getOutOfBoundsElement` is private to the runtime,
so an `Object` is never one of them.
-/

namespace Wavm.Runtime

open Wavm.IR

/-- A table slot as `Table::Element::biasedValue` encodes it: the out-of-bounds sentinel (the
biased value `0`), the uninitialized sentinel, or a pointer to an object, null included. -/
inductive TableElement (Object : Type)
  | outOfBounds
  | uninitialized
  | ref (object : Option Object)
  deriving DecidableEq, Repr

namespace TableElement

variable {Object : Type}

/-- An `Object*` argument as stored: null becomes the uninitialized sentinel
(`if(!newValue) { newValue = getUninitializedElement(); }`). -/
def ofObject : Option Object → TableElement Object
  | none => .uninitialized
  | some object => .ref (some object)

/-- A slot read back as an `Object*`: the uninitialized sentinel reads as null
(`object == getUninitializedElement() ? nullptr : object`). The out-of-bounds sentinel never
gets here, since the reads throw on it first. -/
def toObject : TableElement Object → Option Object
  | .ref object => object
  | _ => none

/-- Whether a slot holds the out-of-bounds sentinel, the pointer comparison
`biasedTableElementValueToObject(biasedValue) == getOutOfBoundsElement()`. -/
def isOutOfBounds : TableElement Object → Bool
  | .outOfBounds => true
  | _ => false

theorem isOutOfBounds_iff (element : TableElement Object) :
    element.isOutOfBounds = true ↔ element = .outOfBounds := by
  cases element <;> simp [isOutOfBounds]

instance (element : TableElement Object) : Decidable (element = .outOfBounds) :=
  decidable_of_iff _ (isOutOfBounds_iff element)

@[simp] theorem ofObject_ne_outOfBounds (object : Option Object) : ofObject object ≠ .outOfBounds := by
  cases object <;> simp [ofObject]

end TableElement

/-- The fields of `Runtime::Table` that the modelled functions read. `resourceQuota` is the
identity of its `ResourceQuota` (`none` for a null `ResourceQuotaRef`) and `id` its index in the
compartment (`UINTPTR_MAX` until it is added). -/
structure Table (QuotaId Object : Type) where
  id : Uptr
  type : TableType
  numReservedElements : Uptr
  numElements : Uptr
  elements : ℕ → TableElement Object
  resourceQuota : Option QuotaId

/-- `tableMaxElements` of `createTableImpl`: `Uptr(1) << 32`, the elements it reserves. -/
def tableMaxElements : Uptr := (1 : Uptr) <<< 32

/-- `sizeof(Table::Element)`, one atomic `Uptr`. -/
def tableElementBytes : Uptr := 8

/-- `getNumPlatformPages`: bytes rounded up to platform pages of `2^pageSizeLog2` bytes. -/
def getNumPlatformPages (pageSizeLog2 numBytes : Uptr) : Uptr :=
  (numBytes + ((1 : Uptr) <<< pageSizeLog2) - 1) >>> pageSizeLog2

section Elements

variable {Object : Type}

/-- The initialization loop of `growTableImpl`,
`for(elementIndex = oldNumElements; elementIndex < newNumElements; ++elementIndex)`, storing
`value` at `count` slots from `elementIndex`. -/
def storeElements (value : TableElement Object) :
    (ℕ → TableElement Object) → ℕ → ℕ → (ℕ → TableElement Object)
  | elements, _, 0 => elements
  | elements, elementIndex, count + 1 =>
    storeElements value (Function.update elements elementIndex value) (elementIndex + 1) count

/-- The copy loop of `cloneTable`, `for(elementIndex = 0; elementIndex < numElements; ...)`. -/
def copyElements (source : ℕ → TableElement Object) :
    (ℕ → TableElement Object) → ℕ → (ℕ → TableElement Object)
  | elements, 0 => elements
  | elements, numElements + 1 =>
    Function.update (copyElements source elements numElements) numElements (source numElements)

theorem storeElements_apply (value : TableElement Object) (elements : ℕ → TableElement Object)
    (elementIndex count i : ℕ) :
    storeElements value elements elementIndex count i =
      if elementIndex ≤ i ∧ i < elementIndex + count then value else elements i := by
  induction count generalizing elements elementIndex with
  | zero =>
    rw [storeElements, if_neg (by omega)]
  | succ count ih =>
    rw [storeElements, ih]
    by_cases hi : i = elementIndex
    · subst hi
      simp
    · rw [Function.update_of_ne hi]
      congr 1
      apply propext
      omega

theorem copyElements_apply (source elements : ℕ → TableElement Object) (numElements i : ℕ) :
    copyElements source elements numElements i = if i < numElements then source i else elements i := by
  induction numElements with
  | zero => simp [copyElements]
  | succ numElements ih =>
    rw [copyElements]
    by_cases hi : i = numElements
    · subst hi
      simp
    · rw [Function.update_of_ne hi, ih]
      congr 1
      apply propext
      omega

end Elements

variable {QuotaId Object : Type}

/-! ## The sentinel invariant -/

/-- **The invariant of a live table**: its reservation is `tableMaxElements`, its size is within
its type's maximum and `IR::maxTableElems`, and a reserved slot holds the out-of-bounds sentinel
exactly when it is past `numElements`. -/
structure Table.Valid (table : Table QuotaId Object) : Prop where
  numReservedElements_eq : table.numReservedElements = tableMaxElements
  numElements_le_max : table.numElements.toNat ≤ table.type.size.max.toNat
  numElements_le_maxTableElems : table.numElements.toNat ≤ maxTableElems.toNat
  outOfBounds_iff : ∀ i < table.numReservedElements.toNat,
    table.elements i = .outOfBounds ↔ table.numElements.toNat ≤ i

theorem toNat_tableMaxElements : tableMaxElements.toNat = 2 ^ 32 := rfl

theorem toNat_maxTableElems : maxTableElems.toNat = 2 ^ 31 - 1 := rfl

/-- A valid table's size is below its reservation. -/
theorem Table.Valid.numElements_lt {table : Table QuotaId Object} (hv : table.Valid) :
    table.numElements.toNat < table.numReservedElements.toNat := by
  have h := hv.numElements_le_maxTableElems
  rw [hv.numReservedElements_eq, toNat_tableMaxElements]
  rw [toNat_maxTableElems] at h
  omega

/-- `table'` is a valid table that differs from `table` only in its elements: what a sequence of
element writes leaves. -/
structure Table.Rewritten (table table' : Table QuotaId Object) : Prop where
  valid : table'.Valid
  eq_with : table' = { table with elements := table'.elements }

theorem Table.Rewritten.refl {table : Table QuotaId Object} (hv : table.Valid) :
    table.Rewritten table :=
  ⟨hv, rfl⟩

theorem Table.Rewritten.trans {table₁ table₂ table₃ : Table QuotaId Object}
    (h₁ : table₁.Rewritten table₂) (h₂ : table₂.Rewritten table₃) : table₁.Rewritten table₃ := by
  refine ⟨h₂.valid, ?_⟩
  rw [h₂.eq_with, h₁.eq_with]

theorem Table.Rewritten.numElements_eq {table table' : Table QuotaId Object}
    (h : table.Rewritten table') : table'.numElements = table.numElements := by
  rw [h.eq_with]

/-! ## Element access -/

/-- `setTableElementNonNull`: throw `outOfBoundsTableAccess` past the reservation; else, at the
saturated index, replace the slot unless it holds the out-of-bounds sentinel, and return the old
value. The compare-exchange loop succeeds at its first try in a sequential run. The table is
returned on every exit, as it stands when the exception is thrown. -/
def setTableElementNonNull (table : Table QuotaId Object) (index : Uptr) (object : TableElement Object) :
    Table QuotaId Object × Except ExceptionType (TableElement Object) :=
  if index ≥ table.numReservedElements then (table, .error .outOfBoundsTableAccess)
  else
    let saturatedIndex := min index (table.numReservedElements - 1)
    let oldBiasedValue := table.elements saturatedIndex.toNat
    if oldBiasedValue = .outOfBounds then (table, .error .outOfBoundsTableAccess)
    else
      ({ table with elements := Function.update table.elements saturatedIndex.toNat object },
        .ok oldBiasedValue)

/-- `getTableElementNonNull`: throw `outOfBoundsTableAccess` past the reservation or on the
out-of-bounds sentinel. -/
def getTableElementNonNull (table : Table QuotaId Object) (index : Uptr) :
    Except ExceptionType (TableElement Object) :=
  if index ≥ table.numReservedElements then .error .outOfBoundsTableAccess
  else
    let saturatedIndex := min index (table.numReservedElements - 1)
    let object := table.elements saturatedIndex.toNat
    if object = .outOfBounds then .error .outOfBoundsTableAccess else .ok object

/-- `Runtime::setTableElement`: null is stored as the uninitialized sentinel, and the old value
is returned as an `Object*`. -/
def setTableElement (table : Table QuotaId Object) (index : Uptr) (newValue : Option Object) :
    Table QuotaId Object × Except ExceptionType (Option Object) :=
  let written := setTableElementNonNull table index (TableElement.ofObject newValue)
  (written.1, written.2.map TableElement.toObject)

/-- `Runtime::getTableElement`. -/
def getTableElement (table : Table QuotaId Object) (index : Uptr) : Except ExceptionType (Option Object) :=
  (getTableElementNonNull table index).map TableElement.toObject

/-- The `table.get` intrinsic. -/
def tableGet (table : Table QuotaId Object) (index : UInt32) : Except ExceptionType (Option Object) :=
  getTableElement table index.toUInt64

/-- The `table.set` intrinsic. -/
def tableSet (table : Table QuotaId Object) (index : UInt32) (value : Option Object) :
    Table QuotaId Object × Except ExceptionType (Option Object) :=
  setTableElement table index.toUInt64 value

/-- An index below `numElements` of a valid table is not saturated. -/
theorem min_saturated_eq {table : Table QuotaId Object} (hv : table.Valid) {index : Uptr}
    (h : index.toNat < table.numReservedElements.toNat) :
    (min index (table.numReservedElements - 1)).toNat = index.toNat := by
  have hle : index ≤ table.numReservedElements - 1 := by
    rw [UInt64.le_iff_toNat_le, UInt64.toNat_sub_of_le _ _ (by
      rw [hv.numReservedElements_eq]; decide)]
    rw [hv.numReservedElements_eq] at h ⊢
    rw [toNat_tableMaxElements] at h
    simp only [toNat_tableMaxElements, UInt64.toNat_one]
    omega
  rw [UInt64.min_def, if_pos hle]

/-- **A write below `numElements`** of a valid table succeeds: it replaces the slot and returns
the old value. -/
theorem setTableElementNonNull_of_lt {table : Table QuotaId Object} (hv : table.Valid)
    {index : Uptr} (h : index.toNat < table.numElements.toNat) (object : TableElement Object) :
    setTableElementNonNull table index object =
      ({ table with elements := Function.update table.elements index.toNat object },
        .ok (table.elements index.toNat)) := by
  have hr : index.toNat < table.numReservedElements.toNat := Nat.lt_trans h hv.numElements_lt
  have hne : table.elements index.toNat ≠ .outOfBounds := fun he =>
    absurd ((hv.outOfBounds_iff _ hr).1 he) (by omega)
  unfold setTableElementNonNull
  rw [if_neg (by rw [ge_iff_le, UInt64.le_iff_toNat_le]; omega)]
  dsimp only
  rw [min_saturated_eq hv hr, if_neg hne]

/-- **A write at or past `numElements`** of a valid table throws `outOfBoundsTableAccess` and
changes nothing. -/
theorem setTableElementNonNull_of_le {table : Table QuotaId Object} (hv : table.Valid)
    {index : Uptr} (h : table.numElements.toNat ≤ index.toNat) (object : TableElement Object) :
    setTableElementNonNull table index object = (table, .error .outOfBoundsTableAccess) := by
  unfold setTableElementNonNull
  by_cases hr : index ≥ table.numReservedElements
  · rw [if_pos hr]
  · -- a reserved slot past `numElements` holds the sentinel
    have hr' : index.toNat < table.numReservedElements.toNat := by
      rw [ge_iff_le, UInt64.le_iff_toNat_le] at hr
      omega
    rw [if_neg hr]
    dsimp only
    rw [min_saturated_eq hv hr', if_pos ((hv.outOfBounds_iff _ hr').2 h)]

theorem getTableElementNonNull_of_lt {table : Table QuotaId Object} (hv : table.Valid)
    {index : Uptr} (h : index.toNat < table.numElements.toNat) :
    getTableElementNonNull table index = .ok (table.elements index.toNat) := by
  have hr : index.toNat < table.numReservedElements.toNat := Nat.lt_trans h hv.numElements_lt
  have hne : table.elements index.toNat ≠ .outOfBounds := fun he =>
    absurd ((hv.outOfBounds_iff _ hr).1 he) (by omega)
  unfold getTableElementNonNull
  rw [if_neg (by rw [ge_iff_le, UInt64.le_iff_toNat_le]; omega)]
  dsimp only
  rw [min_saturated_eq hv hr, if_neg hne]

theorem getTableElementNonNull_of_le {table : Table QuotaId Object} (hv : table.Valid)
    {index : Uptr} (h : table.numElements.toNat ≤ index.toNat) :
    getTableElementNonNull table index = .error .outOfBoundsTableAccess := by
  unfold getTableElementNonNull
  by_cases hr : index ≥ table.numReservedElements
  · rw [if_pos hr]
  · have hr' : index.toNat < table.numReservedElements.toNat := by
      rw [ge_iff_le, UInt64.le_iff_toNat_le] at hr
      omega
    rw [if_neg hr]
    dsimp only
    rw [min_saturated_eq hv hr', if_pos ((hv.outOfBounds_iff _ hr').2 h)]

/-- A read that succeeds never returns the out-of-bounds sentinel. -/
theorem ne_outOfBounds_of_getTableElementNonNull {table : Table QuotaId Object} {index : Uptr}
    {object : TableElement Object} (h : getTableElementNonNull table index = .ok object) :
    object ≠ .outOfBounds := by
  unfold getTableElementNonNull at h
  by_cases hr : index ≥ table.numReservedElements
  · rw [if_pos hr] at h
    cases h
  · rw [if_neg hr] at h
    dsimp only at h
    by_cases ho : table.elements (min index (table.numReservedElements - 1)).toNat = .outOfBounds
    · rw [if_pos ho] at h
      cases h
    · rw [if_neg ho] at h
      cases h
      exact ho

/-- **Element writes keep a table valid**, when they do not store the out-of-bounds sentinel. -/
theorem rewritten_setTableElementNonNull {table : Table QuotaId Object} (hv : table.Valid)
    (index : Uptr) {object : TableElement Object} (hobject : object ≠ .outOfBounds) :
    table.Rewritten (setTableElementNonNull table index object).1 := by
  by_cases h : index.toNat < table.numElements.toNat
  · rw [setTableElementNonNull_of_lt hv h]
    refine ⟨⟨hv.numReservedElements_eq, hv.numElements_le_max, hv.numElements_le_maxTableElems,
      fun i hi => ?_⟩, rfl⟩
    by_cases hi' : i = index.toNat
    · subst hi'
      simp only [Function.update_self]
      exact ⟨fun he => absurd he hobject, fun hle => absurd hle (by omega)⟩
    · simp only [Function.update_of_ne hi']
      exact hv.outOfBounds_iff i hi
  · rw [setTableElementNonNull_of_le hv (by omega)]
    exact Table.Rewritten.refl hv

/-- **`Runtime::getTableElement` on a valid table** throws `outOfBoundsTableAccess` exactly at
an index at or past `numElements`, and else returns the element. -/
theorem getTableElement_eq {table : Table QuotaId Object} (hv : table.Valid) (index : Uptr) :
    getTableElement table index =
      if table.numElements.toNat ≤ index.toNat then .error .outOfBoundsTableAccess
      else .ok (table.elements index.toNat).toObject := by
  unfold getTableElement
  split_ifs with h
  · rw [getTableElementNonNull_of_le hv h]
    rfl
  · rw [getTableElementNonNull_of_lt hv (by omega)]
    rfl

/-- **`Runtime::setTableElement` on a valid table** throws `outOfBoundsTableAccess` exactly at an
index at or past `numElements`, leaving the table as it was, and else replaces the element and
returns the old one. -/
theorem setTableElement_eq {table : Table QuotaId Object} (hv : table.Valid) (index : Uptr)
    (newValue : Option Object) :
    setTableElement table index newValue =
      if table.numElements.toNat ≤ index.toNat then (table, .error .outOfBoundsTableAccess)
      else ({ table with
          elements := Function.update table.elements index.toNat (TableElement.ofObject newValue) },
        .ok (table.elements index.toNat).toObject) := by
  unfold setTableElement
  split_ifs with h
  · rw [setTableElementNonNull_of_le hv h]
    rfl
  · rw [setTableElementNonNull_of_lt hv (by omega)]
    rfl

theorem rewritten_setTableElement {table : Table QuotaId Object} (hv : table.Valid) (index : Uptr)
    (newValue : Option Object) : table.Rewritten (setTableElement table index newValue).1 :=
  rewritten_setTableElementNonNull hv index (TableElement.ofObject_ne_outOfBounds newValue)

/-! ## The loops of the bulk intrinsics -/

/-- The loop of the `table.fill` intrinsic: `setTableElementNonNull(destTable, destIndex, value)`
at `numElements` successive indices. An exception ends it, and the writes before it stay. -/
def fillTableElements (value : TableElement Object) :
    Table QuotaId Object → Uptr → ℕ → Table QuotaId Object × Except ExceptionType Unit
  | table, _, 0 => (table, .ok ())
  | table, destIndex, numElements + 1 =>
    match setTableElementNonNull table destIndex value with
    | (table', .error e) => (table', .error e)
    | (table', .ok _) => fillTableElements value table' (destIndex + 1) numElements

/-- The `table.fill` intrinsic; null fills with the uninitialized sentinel. -/
def tableFill (table : Table QuotaId Object) (destOffset : UInt32) (value : Option Object)
    (numElements : UInt32) : Table QuotaId Object × Except ExceptionType Unit :=
  fillTableElements (TableElement.ofObject value) table destOffset.toUInt64 numElements.toNat

/-- The loop of `Runtime::initElemSegment` from `index`: throw `outOfBoundsElemSegmentAccess` at
a source index past the segment (or one that wrapped), else `setTableElement` the segment's
element. The segment holds its elements as objects: `ref.null` as null, `ref.func` as the
instance's function. -/
def initElemSegmentFrom (elemVector : List (Option Object)) (destOffset sourceOffset : Uptr) :
    Table QuotaId Object → Uptr → ℕ → Table QuotaId Object × Except ExceptionType Unit
  | table, _, 0 => (table, .ok ())
  | table, index, numElems + 1 =>
    let sourceIndex := sourceOffset + index
    let destIndex := destOffset + index
    if sourceIndex.toNat ≥ elemVector.length ∨ sourceIndex < sourceOffset then
      (table, .error .outOfBoundsElemSegmentAccess)
    else
      match setTableElement table destIndex (elemVector.getD sourceIndex.toNat none) with
      | (table', .error e) => (table', .error e)
      | (table', .ok _) =>
        initElemSegmentFrom elemVector destOffset sourceOffset table' (index + 1) numElems

/-- `Runtime::initElemSegment`. -/
def initElemSegment (table : Table QuotaId Object) (elemVector : List (Option Object))
    (destOffset sourceOffset : Uptr) (numElems : ℕ) : Table QuotaId Object × Except ExceptionType Unit :=
  initElemSegmentFrom elemVector destOffset sourceOffset table 0 numElems

/-- The `table.init` intrinsic; a dropped segment (`none`) throws `invalidArgument`. -/
def tableInit (table : Table QuotaId Object) (elemSegment : Option (List (Option Object)))
    (destIndex sourceIndex numElems : UInt32) : Table QuotaId Object × Except ExceptionType Unit :=
  match elemSegment with
  | none => (table, .error .invalidArgument)
  | some elemVector =>
    initElemSegment table elemVector destIndex.toUInt64 sourceIndex.toUInt64 numElems.toNat

/-- The `(sourceIndex, destIndex)` pairs the `table.copy` intrinsic visits, in order: descending
when copying to higher indices, so that a source element is read before it is overwritten. -/
def tableCopyIndices (destOffset sourceOffset numElements : UInt32) : List (Uptr × Uptr) :=
  if sourceOffset < destOffset then
    (List.range numElements.toNat).map fun index =>
      (sourceOffset.toUInt64 + (numElements.toUInt64 - UInt64.ofNat index - 1),
        destOffset.toUInt64 + (numElements.toUInt64 - UInt64.ofNat index - 1))
  else
    (List.range numElements.toNat).map fun index =>
      (sourceOffset.toUInt64 + UInt64.ofNat index, destOffset.toUInt64 + UInt64.ofNat index)

/-- The loop of the `table.copy` intrinsic over a state `σ` holding its tables (one table when
both ids name it): `setTableElementNonNull(destTable, destIndex,
getTableElementNonNull(sourceTable, sourceIndex))` at each pair. An exception ends it. -/
def copyTableElements {σ : Type} (read : σ → Uptr → Except ExceptionType (TableElement Object))
    (write : σ → Uptr → TableElement Object → σ × Except ExceptionType (TableElement Object)) :
    σ → List (Uptr × Uptr) → σ × Except ExceptionType Unit
  | s, [] => (s, .ok ())
  | s, (sourceIndex, destIndex) :: rest =>
    match read s sourceIndex with
    | .error e => (s, .error e)
    | .ok element =>
      match write s destIndex element with
      | (s', .error e) => (s', .error e)
      | (s', .ok _) => copyTableElements read write s' rest

theorem rewritten_fillTableElements {value : TableElement Object} (hvalue : value ≠ .outOfBounds)
    (numElements : ℕ) :
    ∀ (table : Table QuotaId Object) (destIndex : Uptr), table.Valid →
      table.Rewritten (fillTableElements value table destIndex numElements).1 := by
  -- one write per iteration, each keeping the table valid
  induction numElements with
  | zero => exact fun table _ hv => Table.Rewritten.refl hv
  | succ numElements ih =>
    intro table destIndex hv
    have hw := rewritten_setTableElementNonNull hv destIndex hvalue
    rw [fillTableElements]
    rcases hs : setTableElementNonNull table destIndex value with ⟨table', _ | _⟩ <;> rw [hs] at hw
    · exact hw
    · exact hw.trans (ih table' (destIndex + 1) hw.valid)

theorem rewritten_initElemSegmentFrom (elemVector : List (Option Object)) (destOffset sourceOffset : Uptr)
    (numElems : ℕ) :
    ∀ (table : Table QuotaId Object) (index : Uptr), table.Valid →
      table.Rewritten (initElemSegmentFrom elemVector destOffset sourceOffset table index numElems).1 := by
  induction numElems with
  | zero => exact fun table _ hv => Table.Rewritten.refl hv
  | succ numElems ih =>
    intro table index hv
    rw [initElemSegmentFrom]
    split_ifs
    · exact Table.Rewritten.refl hv
    · have hw := rewritten_setTableElementNonNull hv (destOffset + index)
        (TableElement.ofObject_ne_outOfBounds (elemVector.getD (sourceOffset + index).toNat none))
      unfold setTableElement
      rcases hs : setTableElementNonNull table (destOffset + index)
          (TableElement.ofObject (elemVector.getD (sourceOffset + index).toNat none)) with
        ⟨table', _ | _⟩ <;> rw [hs] at hw <;> dsimp only
      · exact hw
      · exact hw.trans (ih table' (index + 1) hw.valid)

theorem rewritten_tableInit {table : Table QuotaId Object} (hv : table.Valid)
    (elemSegment : Option (List (Option Object))) (destIndex sourceIndex numElems : UInt32) :
    table.Rewritten (tableInit table elemSegment destIndex sourceIndex numElems).1 := by
  cases elemSegment with
  | none => exact Table.Rewritten.refl hv
  | some elemVector => exact rewritten_initElemSegmentFrom _ _ _ _ table 0 hv

/-- **The invariant rule of the `table.copy` loop**: a property of the state that every write of
a value other than the sentinel keeps holds after the loop, since every value it writes was
returned by a read. -/
theorem copyTableElements_invariant {σ : Type} (P : σ → Prop)
    {read : σ → Uptr → Except ExceptionType (TableElement Object)}
    {write : σ → Uptr → TableElement Object → σ × Except ExceptionType (TableElement Object)}
    (hread : ∀ s index element, read s index = .ok element → element ≠ .outOfBounds)
    (hwrite : ∀ s index element, P s → element ≠ .outOfBounds → P (write s index element).1)
    (indices : List (Uptr × Uptr)) : ∀ s, P s → P (copyTableElements read write s indices).1 := by
  induction indices with
  | nil => exact fun s hs => hs
  | cons pair rest ih =>
    intro s hs
    obtain ⟨sourceIndex, destIndex⟩ := pair
    rw [copyTableElements]
    cases hr : read s sourceIndex with
    | error e => exact hs
    | ok element =>
      dsimp only
      have hw := hwrite s destIndex element hs (hread s sourceIndex element hr)
      rcases hs' : write s destIndex element with ⟨s', _ | _⟩ <;> rw [hs'] at hw
      · exact hw
      · exact ih s' hw

/-! ## Growth -/

/-- `growTableImpl`: the growth protocol with the table's elements charged to `tableElems`, the
size test against the type's maximum and `IR::maxTableElems`, and a commit of platform pages
only when the rounded size in pages changes (`commitSucceeds` is what
`Platform::commitVirtualPages` answers). When `initializeNewElements` is set, the new slots are
written with `initializeToElement`; `cloneTable` leaves them for its own copy loop. -/
def growTableImpl (quotas : QuotaId → ResourceQuota) (table : Table QuotaId Object)
    (numElementsToGrow : Uptr) (initializeNewElements : Bool) (initializeToElement : TableElement Object)
    (pageSizeLog2 : Uptr) (commitSucceeds : Bool) [DecidableEq QuotaId] :
    (QuotaId → ResourceQuota) × Table QuotaId Object × Option Uptr :=
  let oldNumElements := table.numElements
  let newNumElements := oldNumElements + numElementsToGrow
  let previousNumPlatformPages := getNumPlatformPages pageSizeLog2 (oldNumElements * tableElementBytes)
  let newNumPlatformPages := getNumPlatformPages pageSizeLog2 (newNumElements * tableElementBytes)
  growWithQuota quotas table.resourceQuota .tableElems table oldNumElements numElementsToGrow
    (decide (numElementsToGrow > table.type.size.max ∨
      oldNumElements > table.type.size.max - numElementsToGrow ∨
      numElementsToGrow > maxTableElems ∨ oldNumElements > maxTableElems - numElementsToGrow))
    (decide (newNumPlatformPages ≠ previousNumPlatformPages) && !commitSucceeds)
    { table with
      numElements := newNumElements
      elements :=
        if initializeNewElements then
          storeElements initializeToElement table.elements oldNumElements.toNat numElementsToGrow.toNat
        else table.elements }

section Lifecycle

variable [DecidableEq QuotaId]

/-- What a table charges to the counter `c` of the quota `q`: its elements, to the `tableElems`
of its own quota. -/
def Table.charge (table : Table QuotaId Object) (q : QuotaId) (c : QuotaCounter) : ℕ :=
  chargeOf table.resourceQuota .tableElems table.numElements.toNat q c

/-- The table `growTableImpl` leaves on success: the new size, and the new slots initialized when
asked. -/
def Table.grown (table : Table QuotaId Object) (numElementsToGrow : Uptr) (initializeNewElements : Bool)
    (initializeToElement : TableElement Object) : Table QuotaId Object :=
  { table with
    numElements := table.numElements + numElementsToGrow
    elements :=
      if initializeNewElements then
        storeElements initializeToElement table.elements table.numElements.toNat numElementsToGrow.toNat
      else table.elements }

/-- **What `growTableImpl` can do**: fail and change nothing, grow by nothing, or grow by a
nonzero delta that was charged to the quota, within the type's maximum and `IR::maxTableElems`. -/
theorem growTableImpl_cases (quotas : QuotaId → ResourceQuota) (table : Table QuotaId Object)
    (numElementsToGrow : Uptr) (initializeNewElements : Bool) (initializeToElement : TableElement Object)
    (pageSizeLog2 : Uptr) (commitSucceeds : Bool) :
    growTableImpl quotas table numElementsToGrow initializeNewElements initializeToElement pageSizeLog2
        commitSucceeds = (quotas, table, none) ∨
      (numElementsToGrow = 0 ∧
        growTableImpl quotas table numElementsToGrow initializeNewElements initializeToElement pageSizeLog2
          commitSucceeds = (quotas, table, some table.numElements)) ∨
      (numElementsToGrow ≠ 0 ∧
        table.numElements.toNat + numElementsToGrow.toNat ≤ table.type.size.max.toNat ∧
        table.numElements.toNat + numElementsToGrow.toNat ≤ maxTableElems.toNat ∧ ∃ quotas',
        allocateQuota quotas table.resourceQuota .tableElems numElementsToGrow = some quotas' ∧
        growTableImpl quotas table numElementsToGrow initializeNewElements initializeToElement pageSizeLog2
          commitSucceeds =
          (quotas', table.grown numElementsToGrow initializeNewElements initializeToElement,
            some table.numElements)) := by
  dsimp only [growTableImpl]
  rcases growWithQuota_cases quotas table.resourceQuota .tableElems table table.numElements
      numElementsToGrow
      (decide (numElementsToGrow > table.type.size.max ∨
        table.numElements > table.type.size.max - numElementsToGrow ∨
        numElementsToGrow > maxTableElems ∨ table.numElements > maxTableElems - numElementsToGrow))
      (decide (getNumPlatformPages pageSizeLog2 ((table.numElements + numElementsToGrow) * tableElementBytes) ≠
        getNumPlatformPages pageSizeLog2 (table.numElements * tableElementBytes)) && !commitSucceeds)
      (table.grown numElementsToGrow initializeNewElements initializeToElement) with
    h | h | ⟨h0, hx, -, quotas', ha, h⟩
  · exact Or.inl h
  · exact Or.inr (Or.inl h)
  · obtain ⟨h₁, h₂⟩ := not_exceeds (of_decide_eq_false hx)
    exact Or.inr (Or.inr ⟨h0, h₁, h₂, quotas', ha, h⟩)

/-- A grow within `IR::maxTableElems` does not wrap the element count. -/
theorem toNat_numElements_add {numElements delta : Uptr}
    (h : numElements.toNat + delta.toNat ≤ maxTableElems.toNat) :
    (numElements + delta).toNat = numElements.toNat + delta.toNat := by
  rw [UInt64.toNat_add]
  exact Nat.mod_eq_of_lt (Nat.lt_of_le_of_lt h (by decide))

/-- **`growTableImpl` keeps the accounts**: the quota counters move by exactly the change of the
table's charge, on every exit. -/
theorem growTableImpl_recharged (quotas : QuotaId → ResourceQuota) (table : Table QuotaId Object)
    (numElementsToGrow : Uptr) (initializeNewElements : Bool) (initializeToElement : TableElement Object)
    (pageSizeLog2 : Uptr) (commitSucceeds : Bool) :
    Recharged quotas
      (growTableImpl quotas table numElementsToGrow initializeNewElements initializeToElement pageSizeLog2
        commitSucceeds).1 table.charge
      (growTableImpl quotas table numElementsToGrow initializeNewElements initializeToElement pageSizeLog2
        commitSucceeds).2.1.charge := by
  dsimp only [growTableImpl]
  apply growWithQuota_recharged
  intro hx q c
  have hb := (not_exceeds (of_decide_eq_false hx)).2
  simp only [Table.charge, toNat_numElements_add hb, chargeOf_add]

theorem growTableImpl_withinMax {quotas : QuotaId → ResourceQuota} (hw : WithinMax quotas)
    (table : Table QuotaId Object) (numElementsToGrow : Uptr) (initializeNewElements : Bool)
    (initializeToElement : TableElement Object) (pageSizeLog2 : Uptr) (commitSucceeds : Bool) :
    WithinMax (growTableImpl quotas table numElementsToGrow initializeNewElements initializeToElement
      pageSizeLog2 commitSucceeds).1 :=
  growWithQuota_withinMax _ _ _ _ _ _ _ _ _ hw

/-- A grow that succeeds had room for the delta under the quota's maximum. -/
theorem growTableImpl_headroom {quotas : QuotaId → ResourceQuota} (hw : WithinMax quotas)
    {table : Table QuotaId Object} {numElementsToGrow : Uptr} {initializeNewElements : Bool}
    {initializeToElement : TableElement Object} {pageSizeLog2 : Uptr} {commitSucceeds : Bool} {old : Uptr}
    (h : (growTableImpl quotas table numElementsToGrow initializeNewElements initializeToElement
      pageSizeLog2 commitSucceeds).2.2 = some old) (q : QuotaId) (hq : table.resourceQuota = some q) :
    inUse quotas q .tableElems + numElementsToGrow.toNat ≤ (quotas q).tableElems.max.toNat :=
  growWithQuota_headroom _ _ _ _ _ _ _ _ _ hw h q hq

/-- A failed grow changes nothing. -/
theorem growTableImpl_of_eq_none {quotas : QuotaId → ResourceQuota} {table : Table QuotaId Object}
    {numElementsToGrow : Uptr} {initializeNewElements : Bool} {initializeToElement : TableElement Object}
    {pageSizeLog2 : Uptr} {commitSucceeds : Bool}
    (h : (growTableImpl quotas table numElementsToGrow initializeNewElements initializeToElement
      pageSizeLog2 commitSucceeds).2.2 = none) :
    growTableImpl quotas table numElementsToGrow initializeNewElements initializeToElement pageSizeLog2
      commitSucceeds = (quotas, table, none) := by
  rcases growTableImpl_cases quotas table numElementsToGrow initializeNewElements initializeToElement
      pageSizeLog2 commitSucceeds with h' | ⟨-, h'⟩ | ⟨-, -, -, quotas', -, h'⟩
  · exact h'
  · rw [h'] at h
    cases h
  · rw [h'] at h
    cases h

/-- **A grow that succeeds** returns the old size, stays within the type's maximum and
`IR::maxTableElems`, and leaves the table grown, a zero delta included. -/
theorem growTableImpl_of_eq_some {table : Table QuotaId Object} (hv : table.Valid)
    {quotas : QuotaId → ResourceQuota} {numElementsToGrow : Uptr} {initializeNewElements : Bool}
    {initializeToElement : TableElement Object} {pageSizeLog2 : Uptr} {commitSucceeds : Bool} {old : Uptr}
    (h : (growTableImpl quotas table numElementsToGrow initializeNewElements initializeToElement
      pageSizeLog2 commitSucceeds).2.2 = some old) :
    old = table.numElements ∧
      table.numElements.toNat + numElementsToGrow.toNat ≤ table.type.size.max.toNat ∧
      table.numElements.toNat + numElementsToGrow.toNat ≤ maxTableElems.toNat ∧
      (numElementsToGrow = 0 ∧
          (growTableImpl quotas table numElementsToGrow initializeNewElements initializeToElement
            pageSizeLog2 commitSucceeds).2.1 = table ∨
        (growTableImpl quotas table numElementsToGrow initializeNewElements initializeToElement
          pageSizeLog2 commitSucceeds).2.1 =
          table.grown numElementsToGrow initializeNewElements initializeToElement) := by
  rcases growTableImpl_cases quotas table numElementsToGrow initializeNewElements initializeToElement
      pageSizeLog2 commitSucceeds with h' | ⟨h0, h'⟩ | ⟨-, h₁, h₂, quotas', -, h'⟩ <;> rw [h'] at h ⊢
  · cases h
  · cases h
    rw [h0, UInt64.toNat_zero, Nat.add_zero]
    exact ⟨rfl, hv.numElements_le_max, hv.numElements_le_maxTableElems, Or.inl ⟨rfl, rfl⟩⟩
  · cases h
    exact ⟨rfl, h₁, h₂, Or.inr rfl⟩

omit [DecidableEq QuotaId] in
/-- **A grown table is valid** when the new slots are initialized with something other than the
out-of-bounds sentinel: exactly the slots past the new size hold it. -/
theorem Table.Valid.grown {table : Table QuotaId Object} (hv : table.Valid) {numElementsToGrow : Uptr}
    (h₁ : table.numElements.toNat + numElementsToGrow.toNat ≤ table.type.size.max.toNat)
    (h₂ : table.numElements.toNat + numElementsToGrow.toNat ≤ maxTableElems.toNat)
    {initializeToElement : TableElement Object} (hinit : initializeToElement ≠ .outOfBounds) :
    (table.grown numElementsToGrow true initializeToElement).Valid := by
  have hsum := toNat_numElements_add h₂
  refine ⟨hv.numReservedElements_eq, ?_, ?_, fun i hi => ?_⟩
  · simp only [Table.grown, hsum]
    exact h₁
  · simp only [Table.grown, hsum]
    exact h₂
  · simp only [Table.grown, hsum, if_true, storeElements_apply]
    split_ifs with hnew
    · exact ⟨fun he => absurd he hinit, fun hle => absurd hle (by omega)⟩
    · rw [hv.outOfBounds_iff i hi]
      omega

/-- `growTableImpl` keeps a table valid when it initializes the new slots with something other
than the out-of-bounds sentinel. -/
theorem growTableImpl_valid {table : Table QuotaId Object} (hv : table.Valid)
    (quotas : QuotaId → ResourceQuota) (numElementsToGrow : Uptr) {initializeToElement : TableElement Object}
    (hinit : initializeToElement ≠ .outOfBounds) (pageSizeLog2 : Uptr) (commitSucceeds : Bool) :
    (growTableImpl quotas table numElementsToGrow true initializeToElement pageSizeLog2
      commitSucceeds).2.1.Valid := by
  rcases growTableImpl_cases quotas table numElementsToGrow true initializeToElement pageSizeLog2
      commitSucceeds with h | ⟨-, h⟩ | ⟨-, h₁, h₂, quotas', -, h⟩ <;> rw [h]
  · exact hv
  · exact hv
  · exact hv.grown h₁ h₂ hinit

omit [DecidableEq QuotaId] in
theorem Table.Rewritten.charge_eq [DecidableEq QuotaId] {table table' : Table QuotaId Object}
    (h : table.Rewritten table') : table'.charge = table.charge := by
  rw [h.eq_with]
  rfl

/-- No grow shrinks a valid table. -/
theorem growTableImpl_numElements_le (table : Table QuotaId Object) (quotas : QuotaId → ResourceQuota) (numElementsToGrow : Uptr) (initializeNewElements : Bool)
    (initializeToElement : TableElement Object) (pageSizeLog2 : Uptr) (commitSucceeds : Bool) :
    table.numElements.toNat ≤ (growTableImpl quotas table numElementsToGrow initializeNewElements
      initializeToElement pageSizeLog2 commitSucceeds).2.1.numElements.toNat := by
  rcases growTableImpl_cases quotas table numElementsToGrow initializeNewElements initializeToElement
      pageSizeLog2 commitSucceeds with h | ⟨-, h⟩ | ⟨-, -, h₂, quotas', -, h⟩
  · exact Nat.le_of_eq (by rw [h])
  · exact Nat.le_of_eq (by rw [h])
  · rw [h]
    simp only [Table.grown, toNat_numElements_add h₂]
    omega

/-- `Runtime::growTable`: the new slots are initialized with `initialElement`, the pointer the
caller passes (the host's null pointer included; the `table.grow` intrinsic passes the
uninitialized sentinel for null). -/
def growTable (quotas : QuotaId → ResourceQuota) (table : Table QuotaId Object) (numElementsToGrow : Uptr)
    (initialElement : TableElement Object) (pageSizeLog2 : Uptr) (commitSucceeds : Bool) :
    (QuotaId → ResourceQuota) × Table QuotaId Object × Option Uptr :=
  growTableImpl quotas table numElementsToGrow true initialElement pageSizeLog2 commitSucceeds

/-- **A `growTable` that succeeds** on a valid table returns the old size, stayed within the
type's maximum and `IR::maxTableElems`, and leaves a table of the new size whose new slots, and
only those, hold the initial element. -/
theorem growTable_of_eq_some {table : Table QuotaId Object} (hv : table.Valid)
    {quotas : QuotaId → ResourceQuota} {numElementsToGrow : Uptr} {initialElement : TableElement Object}
    {pageSizeLog2 : Uptr} {commitSucceeds : Bool} {old : Uptr}
    (h : (growTable quotas table numElementsToGrow initialElement pageSizeLog2 commitSucceeds).2.2 = some old) :
    old = table.numElements ∧
      table.numElements.toNat + numElementsToGrow.toNat ≤ min table.type.size.max.toNat maxTableElems.toNat ∧
      (growTable quotas table numElementsToGrow initialElement pageSizeLog2 commitSucceeds).2.1.numElements.toNat =
        old.toNat + numElementsToGrow.toNat ∧
      ∀ i, (growTable quotas table numElementsToGrow initialElement pageSizeLog2 commitSucceeds).2.1.elements i =
        if old.toNat ≤ i ∧ i < old.toNat + numElementsToGrow.toNat then initialElement else table.elements i := by
  unfold growTable at h ⊢
  obtain ⟨rfl, h₁, h₂, hgrown⟩ := growTableImpl_of_eq_some hv h
  refine ⟨rfl, Nat.le_min.2 ⟨h₁, h₂⟩, ?_, fun i => ?_⟩ <;> rcases hgrown with ⟨h0, heq⟩ | heq <;> rw [heq]
  · simp [h0]
  · simp only [Table.grown, toNat_numElements_add h₂]
  · rw [if_neg (by rw [h0, UInt64.toNat_zero]; omega)]
  · simp only [Table.grown, if_true, storeElements_apply]

/-- The `table.grow` intrinsic: the old size as an `I32`, or `-1`. -/
def tableGrow (quotas : QuotaId → ResourceQuota) (table : Table QuotaId Object) (initialValue : Option Object)
    (deltaNumElements : UInt32) (pageSizeLog2 : Uptr) (commitSucceeds : Bool) :
    (QuotaId → ResourceQuota) × Table QuotaId Object × Int32 :=
  match growTable quotas table deltaNumElements.toUInt64 (TableElement.ofObject initialValue) pageSizeLog2
      commitSucceeds with
  | (quotas', table', none) => (quotas', table', -1)
  | (quotas', table', some oldNumElements) => (quotas', table', oldNumElements.toUInt32.toInt32)

/-- The `table.grow` intrinsic is `growTable` of the zero-extended delta, with the old size as an
`I32` or `-1`. -/
theorem tableGrow_eq (quotas : QuotaId → ResourceQuota) (table : Table QuotaId Object)
    (initialValue : Option Object) (deltaNumElements : UInt32) (pageSizeLog2 : Uptr) (commitSucceeds : Bool) :
    tableGrow quotas table initialValue deltaNumElements pageSizeLog2 commitSucceeds =
      ((growTable quotas table deltaNumElements.toUInt64 (TableElement.ofObject initialValue) pageSizeLog2
          commitSucceeds).1,
        (growTable quotas table deltaNumElements.toUInt64 (TableElement.ofObject initialValue) pageSizeLog2
          commitSucceeds).2.1,
        ((growTable quotas table deltaNumElements.toUInt64 (TableElement.ofObject initialValue) pageSizeLog2
          commitSucceeds).2.2.map fun oldNumElements => oldNumElements.toUInt32.toInt32).getD (-1)) := by
  unfold tableGrow
  rcases growTable quotas table deltaNumElements.toUInt64 (TableElement.ofObject initialValue) pageSizeLog2
      commitSucceeds with ⟨quotas', table', _ | old⟩ <;> rfl

/-- The `table.grow` intrinsic returns `-1` exactly when the grow failed: an old size is at most
`IR::maxTableElems`, never `-1` as an `I32`. -/
theorem tableGrow_eq_neg_one_iff {table : Table QuotaId Object} (hv : table.Valid)
    (quotas : QuotaId → ResourceQuota) (initialValue : Option Object) (deltaNumElements : UInt32)
    (pageSizeLog2 : Uptr) (commitSucceeds : Bool) :
    (tableGrow quotas table initialValue deltaNumElements pageSizeLog2 commitSucceeds).2.2 = -1 ↔
      (growTable quotas table deltaNumElements.toUInt64 (TableElement.ofObject initialValue) pageSizeLog2
        commitSucceeds).2.2 = none := by
  rw [tableGrow_eq]
  cases h : (growTable quotas table deltaNumElements.toUInt64 (TableElement.ofObject initialValue)
      pageSizeLog2 commitSucceeds).2.2 with
  | none => simp
  | some old =>
    obtain ⟨rfl, -⟩ := growTableImpl_of_eq_some hv h
    have hlt : table.numElements.toNat < 2 ^ 32 - 1 := by
      have := hv.numElements_le_maxTableElems
      rw [toNat_maxTableElems] at this
      omega
    simp [toInt32_ne_neg_one hlt]

/-! ## Creation, cloning and deletion -/

/-- The `Table` constructor: no elements, no reservation, and no id until the compartment adds
it. -/
def Table.new (type : TableType) (resourceQuota : Option QuotaId) : Table QuotaId Object :=
  { id := uintptrMax, type, numReservedElements := 0, numElements := 0, elements := fun _ => .outOfBounds,
    resourceQuota }

/-- The quota release of `Table::~Table`:
`if(resourceQuota) { resourceQuota->tableElems.free(numElements); }`. The rest of the destructor
(the compartment's `IndexMap`, the global list, the address space) is not modelled. -/
def deleteTable (quotas : QuotaId → ResourceQuota) (table : Table QuotaId Object) :
    QuotaId → ResourceQuota :=
  freeQuota quotas table.resourceQuota .tableElems table.numElements

/-- `createTableImpl`: reserve the address space of `tableMaxElements` elements;
`reserveSucceeds` is what `Platform::allocateVirtualPages` answers. On failure the table is
deleted. -/
def createTableImpl (quotas : QuotaId → ResourceQuota) (type : TableType) (resourceQuota : Option QuotaId)
    (reserveSucceeds : Bool) : (QuotaId → ResourceQuota) × Option (Table QuotaId Object) :=
  let table : Table QuotaId Object :=
    { Table.new type resourceQuota with numReservedElements := tableMaxElements }
  if !reserveSucceeds then (deleteTable quotas table, none) else (quotas, some table)

/-- `Runtime::createTable`: a table of the type's minimum size with every element set to
`element` (the uninitialized sentinel for null), added to the compartment. `tableIndex` is what
`compartment->tables.add(UINTPTR_MAX, table)` answers; on `UINTPTR_MAX` the table is deleted.
The check of the element's type against the table's aborts the process and is not modelled. -/
def createTable (quotas : QuotaId → ResourceQuota) (type : TableType) (element : Option Object)
    (resourceQuota : Option QuotaId) (reserveSucceeds commitSucceeds : Bool) (pageSizeLog2 tableIndex : Uptr) :
    (QuotaId → ResourceQuota) × Option (Table QuotaId Object) :=
  match createTableImpl quotas type resourceQuota reserveSucceeds with
  | (quotas', none) => (quotas', none)
  | (quotas', some table) =>
    match growTableImpl quotas' table type.size.min true (TableElement.ofObject element) pageSizeLog2
        commitSucceeds with
    | (quotas'', table', none) => (deleteTable quotas'' table', none)
    | (quotas'', table', some _) =>
      let table' := { table' with id := tableIndex }
      if table'.id = uintptrMax then (deleteTable quotas'' table', none) else (quotas'', some table')

/-- `Runtime::cloneTable`: a table of the same type and quota (charged again), grown to the same
size without initialization, then given a copy of the source's elements, under the same id in the
new compartment. -/
def cloneTable (quotas : QuotaId → ResourceQuota) (table : Table QuotaId Object)
    (reserveSucceeds commitSucceeds : Bool) (pageSizeLog2 : Uptr) :
    (QuotaId → ResourceQuota) × Option (Table QuotaId Object) :=
  let numElements := table.numElements
  match createTableImpl quotas table.type table.resourceQuota reserveSucceeds with
  | (quotas', none) => (quotas', none)
  | (quotas', some newTable) =>
    match growTableImpl quotas' newTable numElements false .uninitialized pageSizeLog2 commitSucceeds with
    | (quotas'', newTable', none) => (deleteTable quotas'' newTable', none)
    | (quotas'', newTable', some _) =>
      (quotas'', some { newTable' with
        elements := copyElements table.elements newTable'.elements numElements.toNat
        id := table.id })

/-- The destructor refunds the table's charge, which the counters hold. -/
theorem deleteTable_recharged {quotas : QuotaId → ResourceQuota} {table : Table QuotaId Object}
    (h : ∀ q, table.resourceQuota = some q → table.numElements.toNat ≤ inUse quotas q .tableElems) :
    Recharged quotas (deleteTable quotas table) table.charge (fun _ _ => 0) :=
  recharged_freeQuota h

theorem deleteTable_withinMax {quotas : QuotaId → ResourceQuota} {table : Table QuotaId Object}
    (hw : WithinMax quotas)
    (h : ∀ q, table.resourceQuota = some q → table.numElements.toNat ≤ inUse quotas q .tableElems) :
    WithinMax (deleteTable quotas table) :=
  hw.freeQuota h

/-- What a successful creation leaves: the quotas charged with exactly the new table's charge,
within their maxima if they were, and a valid table. -/
structure Table.Created (quotas quotas' : QuotaId → ResourceQuota) (table : Table QuotaId Object) :
    Prop where
  recharged : Recharged quotas quotas' (fun _ _ => 0) table.charge
  withinMax : WithinMax quotas → WithinMax quotas'
  valid : table.Valid

omit [DecidableEq QuotaId] in
/-- The id of a table is not part of its validity. -/
theorem Table.Valid.with_id {table : Table QuotaId Object} (hv : table.Valid) (id : Uptr) :
    ({ table with id } : Table QuotaId Object).Valid :=
  ⟨hv.1, hv.2, hv.3, hv.4⟩

/-- The table `createTableImpl` builds, before it grows. -/
def Table.reserved (type : TableType) (resourceQuota : Option QuotaId) : Table QuotaId Object :=
  { Table.new type resourceQuota with numReservedElements := tableMaxElements }

omit [DecidableEq QuotaId] in
/-- A reserved table of no elements is valid: every slot holds the sentinel. -/
theorem valid_reserved (type : TableType) (resourceQuota : Option QuotaId) :
    (Table.reserved type resourceQuota : Table QuotaId Object).Valid := by
  refine ⟨rfl, ?_, ?_, fun i _ => ?_⟩ <;> simp [Table.reserved, Table.new]

theorem createTableImpl_eq (quotas : QuotaId → ResourceQuota) (type : TableType)
    (resourceQuota : Option QuotaId) (reserveSucceeds : Bool) :
    (createTableImpl quotas type resourceQuota reserveSucceeds : _ × Option (Table QuotaId Object)) =
      (quotas, if reserveSucceeds then some (Table.reserved type resourceQuota) else none) := by
  unfold createTableImpl
  cases reserveSucceeds
  · simp [deleteTable, Table.new]
  · rfl

/-- **What the growth of a reserved table leaves**, whatever it is initialized with: the quotas as
they were on failure, and on success a table of `numElementsToGrow` elements charged to its quota,
whose deletion would refund exactly that charge. -/
theorem growTableImpl_reserved_cases (quotas : QuotaId → ResourceQuota) (type : TableType)
    (resourceQuota : Option QuotaId) (numElementsToGrow : Uptr) (initializeNewElements : Bool)
    (initializeToElement : TableElement Object) (pageSizeLog2 : Uptr) (commitSucceeds : Bool) :
    growTableImpl quotas (Table.reserved type resourceQuota) numElementsToGrow initializeNewElements
        initializeToElement pageSizeLog2 commitSucceeds = (quotas, Table.reserved type resourceQuota, none) ∨
      ∃ quotas',
        (growTableImpl quotas (Table.reserved type resourceQuota) numElementsToGrow initializeNewElements
          initializeToElement pageSizeLog2 commitSucceeds).1 = quotas' ∧
        (growTableImpl quotas (Table.reserved type resourceQuota) numElementsToGrow initializeNewElements
          initializeToElement pageSizeLog2 commitSucceeds).2.2.isSome ∧
        (growTableImpl quotas (Table.reserved type resourceQuota) numElementsToGrow initializeNewElements
          initializeToElement pageSizeLog2 commitSucceeds).2.1.numElements = numElementsToGrow ∧
        numElementsToGrow.toNat ≤ type.size.max.toNat ∧ numElementsToGrow.toNat ≤ maxTableElems.toNat ∧
        Recharged quotas quotas' (fun _ _ => 0)
          (growTableImpl quotas (Table.reserved type resourceQuota) numElementsToGrow initializeNewElements
            initializeToElement pageSizeLog2 commitSucceeds).2.1.charge ∧
        (WithinMax quotas → WithinMax quotas') ∧
        deleteTable quotas' (growTableImpl quotas (Table.reserved type resourceQuota) numElementsToGrow
          initializeNewElements initializeToElement pageSizeLog2 commitSucceeds).2.1 = quotas := by
  rcases growTableImpl_cases quotas (Table.reserved type resourceQuota) numElementsToGrow
      initializeNewElements initializeToElement pageSizeLog2 commitSucceeds with
    h | ⟨h0, h⟩ | ⟨-, h₁, h₂, quotas', ha, h⟩
  · exact Or.inl h
  · -- a table of no elements charges nothing
    subst h0
    refine Or.inr ⟨quotas, by rw [h], by rw [h]; rfl, by rw [h]; rfl, by simp, by simp, ?_, id, ?_⟩
    · rw [h]
      intro q c
      simp [Table.charge, Table.reserved, Table.new, chargeOf_zero]
    · rw [h]
      simp [deleteTable, Table.reserved, Table.new]
  · simp only [Table.reserved, Table.new, UInt64.toNat_zero, Nat.zero_add] at h₁ h₂
    have hsum : (Table.reserved type resourceQuota : Table QuotaId Object).numElements + numElementsToGrow =
        numElementsToGrow := by
      simp [Table.reserved, Table.new]
    refine Or.inr ⟨quotas', by rw [h], by rw [h]; rfl, by rw [h]; exact hsum, h₁, h₂, ?_,
      fun hw => hw.allocateQuota ha, ?_⟩
    · rw [h]
      intro q c
      have hq := recharged_allocateQuota ha q c
      simp only [Table.charge, Table.grown, hsum]
      exact hq
    · rw [h, deleteTable]
      simp only [Table.grown, hsum]
      exact freeQuota_of_allocateQuota ha

/-- **What `createTable` can do**: fail and leave the quotas as they were, or create a valid
table of the type's minimum size charged to its quota. -/
theorem createTable_cases (quotas : QuotaId → ResourceQuota) (type : TableType) (element : Option Object)
    (resourceQuota : Option QuotaId) (reserveSucceeds commitSucceeds : Bool) (pageSizeLog2 tableIndex : Uptr) :
    createTable quotas type element resourceQuota reserveSucceeds commitSucceeds pageSizeLog2 tableIndex =
        (quotas, none) ∨
      ∃ quotas' table,
        createTable quotas type element resourceQuota reserveSucceeds commitSucceeds pageSizeLog2 tableIndex =
          (quotas', some table) ∧ Table.Created quotas quotas' table := by
  unfold createTable
  rw [createTableImpl_eq]
  cases reserveSucceeds with
  | false => exact Or.inl rfl
  | true =>
    rw [if_pos rfl]
    dsimp only
    have hvalid := growTableImpl_valid (valid_reserved type resourceQuota) quotas type.size.min
      (TableElement.ofObject_ne_outOfBounds element) pageSizeLog2 commitSucceeds
    rcases growTableImpl_reserved_cases quotas type resourceQuota type.size.min true
        (TableElement.ofObject element) pageSizeLog2 commitSucceeds with
      h | ⟨quotas', hq, hsome, -, -, -, hrc, hw, hdel⟩
    · rw [h]
      exact Or.inl (by simp [deleteTable, Table.reserved, Table.new])
    · rcases hr : growTableImpl quotas (Table.reserved type resourceQuota) type.size.min true
          (TableElement.ofObject element) pageSizeLog2 commitSucceeds with ⟨quotas'', table', _ | old⟩
      · rw [hr] at hsome
        cases hsome
      · rw [hr] at hq hrc hdel hvalid
        dsimp only at hq hrc hdel hvalid ⊢
        subst hq
        split_ifs
        · exact Or.inl (congrArg (fun quotas => (quotas, none)) hdel)
        · exact Or.inr ⟨quotas'', _, rfl, ⟨hrc, hw, hvalid.with_id tableIndex⟩⟩

/-- **What `cloneTable` can do**: fail and leave the quotas as they were, or create a table of the
source's size, charged again to the source's quota, with the source's elements. -/
theorem cloneTable_cases {table : Table QuotaId Object} (hv : table.Valid) (quotas : QuotaId → ResourceQuota)
    (reserveSucceeds commitSucceeds : Bool) (pageSizeLog2 : Uptr) :
    cloneTable quotas table reserveSucceeds commitSucceeds pageSizeLog2 = (quotas, none) ∨
      ∃ quotas' newTable,
        cloneTable quotas table reserveSucceeds commitSucceeds pageSizeLog2 = (quotas', some newTable) ∧
        Table.Created quotas quotas' newTable ∧ newTable.numElements = table.numElements ∧
        newTable.resourceQuota = table.resourceQuota ∧
        ∀ i < newTable.numElements.toNat, newTable.elements i = table.elements i := by
  unfold cloneTable
  rw [createTableImpl_eq]
  cases reserveSucceeds with
  | false => exact Or.inl rfl
  | true =>
    rw [if_pos rfl]
    dsimp only
    rcases growTableImpl_reserved_cases quotas table.type table.resourceQuota table.numElements false
        .uninitialized pageSizeLog2 commitSucceeds with
      h | ⟨quotas', hq, hsome, hnum, -, -, hrc, hw, -⟩
    · rw [h]
      exact Or.inl (by simp [deleteTable, Table.reserved, Table.new])
    · rcases hr : growTableImpl quotas (Table.reserved table.type table.resourceQuota) table.numElements false
          .uninitialized pageSizeLog2 commitSucceeds with ⟨quotas'', newTable, _ | old⟩
      · rw [hr] at hsome
        cases hsome
      · rw [hr] at hq hrc hnum
        dsimp only at hq hrc hnum ⊢
        subst hq
        -- the grow without initialization left the reserved table's fields but the size
        have hshape : newTable = { Table.reserved table.type table.resourceQuota with
            numElements := table.numElements } := by
          rcases growTableImpl_cases quotas (Table.reserved table.type table.resourceQuota) table.numElements
              false .uninitialized pageSizeLog2 commitSucceeds with
              h | ⟨h0, h⟩ | ⟨-, -, -, quotas₀, -, h⟩ <;>
            rw [hr] at h <;> simp only [Prod.mk.injEq, reduceCtorEq, and_false, Option.some.injEq] at h
          · obtain ⟨-, rfl, -⟩ := h
            simp [Table.reserved, Table.new, h0]
          · obtain ⟨-, rfl, -⟩ := h
            simp [Table.grown, Table.reserved, Table.new]
        subst hshape
        refine Or.inr ⟨quotas'', _, rfl, ⟨hrc, hw, ?_⟩, rfl, rfl, fun i hi => ?_⟩
        · refine ⟨rfl, hv.numElements_le_max, hv.numElements_le_maxTableElems, fun i hi => ?_⟩
          simp only [copyElements_apply, Table.reserved, Table.new]
          split_ifs with hlt
          · rw [hv.outOfBounds_iff i (by rw [hv.numReservedElements_eq]; exact hi)]
          · simp only [true_iff]
            omega
        · simp only [copyElements_apply] at hi ⊢
          rw [if_pos hi]

end Lifecycle

end Wavm.Runtime
