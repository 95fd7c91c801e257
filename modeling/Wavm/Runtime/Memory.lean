import Wavm.IR.Types
import Wavm.Runtime.Basic

set_option relaxedAutoImplicit false
set_option autoImplicit false

/-!
# Linear memories

`src/Lib/Runtime/Memory.cpp`: a memory is a reservation of 8 GiB of address space of which
the first `numPages` WebAssembly pages are committed. Accesses from the runtime go through
`getValidatedMemoryOffsetRange`, which checks a byte range against the committed size and
returns the offset of the range from the memory's base address.

## Main definitions

* `Wavm.Runtime.Memory` — the fields of `struct Memory` that the modelled functions read.
* `Wavm.Runtime.getValidatedMemoryOffsetRangeImpl`, `getValidatedMemoryOffsetRange`,
  `memoryRef`.

## Main results

* `Wavm.Runtime.getValidatedMemoryOffsetRangeImpl_eq_ok_iff` — the check accepts exactly the
  ranges that end within the memory, and then returns the address itself.
-/

namespace Wavm.Runtime

open Wavm.IR

/-- The fields of `Runtime::Memory` that the modelled functions read: the type, the number of
committed pages, the identity of its `ResourceQuota` (`none` for a null `ResourceQuotaRef`),
and `id`, its index in the compartment (`UINTPTR_MAX` until it is added). -/
structure Memory (QuotaId : Type) where
  id : Uptr
  type : MemoryType
  numPages : Uptr
  resourceQuota : Option QuotaId
  deriving DecidableEq, Repr

/-- `getValidatedMemoryOffsetRangeImpl`: throw `outOfBoundsMemoryAccess` unless
`[address, address + numBytes)` lies within `memoryNumBytes` without wrapping, and return the
offset `min(address, memoryNumBytes - min(numBytes, memoryNumBytes))` from the base, the
branchless clamp the source uses against speculation. -/
def getValidatedMemoryOffsetRangeImpl (memoryNumBytes address numBytes : Uptr) :
    Except ExceptionType Uptr :=
  if address + numBytes > memoryNumBytes || address + numBytes < address then
    .error .outOfBoundsMemoryAccess
  else
    .ok (min address (memoryNumBytes - min numBytes memoryNumBytes))

/-- `Runtime::getValidatedMemoryOffsetRange`: the check against the committed pages. -/
def getValidatedMemoryOffsetRange {QuotaId : Type} (memory : Memory QuotaId)
    (address numBytes : Uptr) : Except ExceptionType Uptr :=
  getValidatedMemoryOffsetRangeImpl (memory.numPages * UInt64.ofNat numBytesPerPage) address
    numBytes

/-- `memoryRef<Value>`: the validated offset of one `Value` of `sizeOfValue` bytes. -/
def memoryRef {QuotaId : Type} (memory : Memory QuotaId) (sizeOfValue : Uptr)
    (offset : Uptr) : Except ExceptionType Uptr :=
  getValidatedMemoryOffsetRange memory offset sizeOfValue

/-- **The offset range check**: it succeeds exactly when the range ends within the memory
over the naturals (the wrap test rules out the sums that pass `2^64`), and the offset it
returns is the address. -/
theorem getValidatedMemoryOffsetRangeImpl_eq_ok_iff {memoryNumBytes address numBytes r : Uptr} :
    getValidatedMemoryOffsetRangeImpl memoryNumBytes address numBytes = .ok r ↔
      address.toNat + numBytes.toNat ≤ memoryNumBytes.toNat ∧ r = address := by
  have hwrap := CurrentAndMax.add_lt_self_iff address numBytes
  have hm := memoryNumBytes.toNat_lt
  unfold getValidatedMemoryOffsetRangeImpl
  by_cases hfit : address.toNat + numBytes.toNat ≤ memoryNumBytes.toNat
  · have hsum : (address + numBytes).toNat = address.toNat + numBytes.toNat := by
      rw [UInt64.toNat_add]; exact Nat.mod_eq_of_lt (by omega)
    have hgt : ¬ memoryNumBytes < address + numBytes := by
      rw [UInt64.lt_iff_toNat_lt, hsum]; omega
    have hlt : ¬ address + numBytes < address := fun h => by have := hwrap.1 h; omega
    have hmin : min address (memoryNumBytes - min numBytes memoryNumBytes) = address := by
      apply UInt64.toNat_inj.1
      rw [UInt64.toNat_min, UInt64.toNat_sub_of_le, UInt64.toNat_min]
      · omega
      · rw [UInt64.le_iff_toNat_le, UInt64.toNat_min]; omega
    simp only [hgt, hlt, decide_false, Bool.or_false, Bool.false_eq_true, if_false, hmin,
      Except.ok.injEq]
    exact ⟨fun h => ⟨hfit, h.symm⟩, fun h => h.2.symm⟩
  · have hout : (memoryNumBytes < address + numBytes || address + numBytes < address) = true := by
      by_cases hw : 2 ^ 64 ≤ address.toNat + numBytes.toNat
      · simp [hwrap.2 hw]
      · have hsum : (address + numBytes).toNat = address.toNat + numBytes.toNat := by
          rw [UInt64.toNat_add]; exact Nat.mod_eq_of_lt (by omega)
        have : memoryNumBytes < address + numBytes := by
          rw [UInt64.lt_iff_toNat_lt, hsum]; omega
        simp [this]
    simp only [hout, if_true, reduceCtorEq, false_iff]
    exact fun h => hfit h.1

/-- The range check fails exactly on the ranges that pass the end of the memory. -/
theorem getValidatedMemoryOffsetRangeImpl_eq_error_iff {memoryNumBytes address numBytes : Uptr} :
    getValidatedMemoryOffsetRangeImpl memoryNumBytes address numBytes =
        .error .outOfBoundsMemoryAccess ↔
      memoryNumBytes.toNat < address.toNat + numBytes.toNat := by
  constructor
  · intro h
    by_contra hle
    have hok := getValidatedMemoryOffsetRangeImpl_eq_ok_iff.2 ⟨Nat.le_of_not_lt hle, rfl⟩
    rw [h] at hok
    cases hok
  · intro h
    unfold getValidatedMemoryOffsetRangeImpl
    by_cases hw : 2 ^ 64 ≤ address.toNat + numBytes.toNat
    · simp [(CurrentAndMax.add_lt_self_iff address numBytes).2 hw]
    · have hsum : (address + numBytes).toNat = address.toNat + numBytes.toNat := by
        rw [UInt64.toNat_add]; exact Nat.mod_eq_of_lt (by omega)
      have : memoryNumBytes < address + numBytes := by
        rw [UInt64.lt_iff_toNat_lt, hsum]; omega
      simp [this]

/-! ## Growing a memory -/

section Lifecycle

variable {QuotaId : Type} [DecidableEq QuotaId]

/-- `Runtime::growMemory`: the growth protocol with the memory's pages charged to
`memoryPages`, the size test against the type's maximum and `IR::maxMemoryPages`, and
`commitSucceeds` for what `Platform::commitVirtualPages` answers. -/
def growMemory (quotas : QuotaId → ResourceQuota) (memory : Memory QuotaId) (numPagesToGrow : Uptr)
    (commitSucceeds : Bool) : (QuotaId → ResourceQuota) × Memory QuotaId × Option Uptr :=
  let oldNumPages := memory.numPages
  growWithQuota quotas memory.resourceQuota .memoryPages memory oldNumPages numPagesToGrow
    (decide (numPagesToGrow > memory.type.size.max ∨ oldNumPages > memory.type.size.max - numPagesToGrow ∨
      numPagesToGrow > maxMemoryPages ∨ oldNumPages > maxMemoryPages - numPagesToGrow))
    (!commitSucceeds)
    { memory with numPages := oldNumPages + numPagesToGrow }

/-- What a memory charges to the counter `c` of the quota `q`: its pages, to the
`memoryPages` of its own quota. -/
def Memory.charge (memory : Memory QuotaId) (q : QuotaId) (c : QuotaCounter) : ℕ :=
  chargeOf memory.resourceQuota .memoryPages memory.numPages.toNat q c

/-- **What `growMemory` can do**: fail and change nothing, grow by nothing, or grow by a
nonzero delta that was charged to the quota, within the type's maximum and
`IR::maxMemoryPages`. -/
theorem growMemory_cases (quotas : QuotaId → ResourceQuota) (memory : Memory QuotaId)
    (numPagesToGrow : Uptr) (commitSucceeds : Bool) :
    growMemory quotas memory numPagesToGrow commitSucceeds = (quotas, memory, none) ∨
      (numPagesToGrow = 0 ∧
        growMemory quotas memory numPagesToGrow commitSucceeds =
          (quotas, memory, some memory.numPages)) ∨
      (numPagesToGrow ≠ 0 ∧
        memory.numPages.toNat + numPagesToGrow.toNat ≤ memory.type.size.max.toNat ∧
        memory.numPages.toNat + numPagesToGrow.toNat ≤ maxMemoryPages.toNat ∧ ∃ quotas',
        allocateQuota quotas memory.resourceQuota .memoryPages numPagesToGrow = some quotas' ∧
        growMemory quotas memory numPagesToGrow commitSucceeds =
          (quotas', { memory with numPages := memory.numPages + numPagesToGrow },
            some memory.numPages)) := by
  dsimp only [growMemory]
  rcases growWithQuota_cases quotas memory.resourceQuota .memoryPages memory memory.numPages
      numPagesToGrow
      (decide (numPagesToGrow > memory.type.size.max ∨
        memory.numPages > memory.type.size.max - numPagesToGrow ∨
        numPagesToGrow > maxMemoryPages ∨ memory.numPages > maxMemoryPages - numPagesToGrow))
      (!commitSucceeds) { memory with numPages := memory.numPages + numPagesToGrow } with
    h | h | ⟨h0, hx, -, quotas', ha, h⟩
  · exact Or.inl h
  · exact Or.inr (Or.inl h)
  · obtain ⟨h₁, h₂⟩ := not_exceeds (of_decide_eq_false hx)
    exact Or.inr (Or.inr ⟨h0, h₁, h₂, quotas', ha, h⟩)

/-- A grow within `IR::maxMemoryPages` does not wrap the page count. -/
theorem toNat_numPages_add {numPages delta : Uptr}
    (h : numPages.toNat + delta.toNat ≤ maxMemoryPages.toNat) :
    (numPages + delta).toNat = numPages.toNat + delta.toNat := by
  rw [UInt64.toNat_add]
  exact Nat.mod_eq_of_lt (Nat.lt_of_le_of_lt h (by decide))

/-- **`growMemory` keeps the accounts**: the quota counters move by exactly the change of the
memory's charge, on every exit. -/
theorem growMemory_recharged (quotas : QuotaId → ResourceQuota) (memory : Memory QuotaId)
    (numPagesToGrow : Uptr) (commitSucceeds : Bool) :
    Recharged quotas (growMemory quotas memory numPagesToGrow commitSucceeds).1 memory.charge
      (growMemory quotas memory numPagesToGrow commitSucceeds).2.1.charge := by
  dsimp only [growMemory]
  apply growWithQuota_recharged
  intro hx q c
  have hb := (not_exceeds (of_decide_eq_false hx)).2
  simp only [Memory.charge, toNat_numPages_add hb, chargeOf_add]

theorem growMemory_withinMax {quotas : QuotaId → ResourceQuota} (hw : WithinMax quotas)
    (memory : Memory QuotaId) (numPagesToGrow : Uptr) (commitSucceeds : Bool) :
    WithinMax (growMemory quotas memory numPagesToGrow commitSucceeds).1 :=
  growWithQuota_withinMax _ _ _ _ _ _ _ _ _ hw

/-- The invariant of a live memory: its size is within its type's maximum and
`IR::maxMemoryPages`. -/
structure Memory.Valid (memory : Memory QuotaId) : Prop where
  numPages_le_max : memory.numPages.toNat ≤ memory.type.size.max.toNat
  numPages_le_maxMemoryPages : memory.numPages.toNat ≤ maxMemoryPages.toNat

/-- `growMemory` keeps a memory valid, and changes nothing of it but its size. -/
theorem growMemory_valid {memory : Memory QuotaId} (hv : memory.Valid)
    (quotas : QuotaId → ResourceQuota) (numPagesToGrow : Uptr) (commitSucceeds : Bool) :
    (growMemory quotas memory numPagesToGrow commitSucceeds).2.1.Valid ∧
      (growMemory quotas memory numPagesToGrow commitSucceeds).2.1 =
        { memory with numPages := (growMemory quotas memory numPagesToGrow commitSucceeds).2.1.numPages } := by
  rcases growMemory_cases quotas memory numPagesToGrow commitSucceeds with
    h | ⟨-, h⟩ | ⟨-, h₁, h₂, quotas', -, h⟩ <;> rw [h]
  · exact ⟨hv, rfl⟩
  · exact ⟨hv, rfl⟩
  · rw [← toNat_numPages_add h₂] at h₁ h₂
    exact ⟨⟨h₁, h₂⟩, rfl⟩

/-- A failed `growMemory` changes nothing. -/
theorem growMemory_of_eq_none {quotas : QuotaId → ResourceQuota} {memory : Memory QuotaId}
    {numPagesToGrow : Uptr} {commitSucceeds : Bool}
    (h : (growMemory quotas memory numPagesToGrow commitSucceeds).2.2 = none) :
    growMemory quotas memory numPagesToGrow commitSucceeds = (quotas, memory, none) := by
  rcases growMemory_cases quotas memory numPagesToGrow commitSucceeds with
    h' | ⟨-, h'⟩ | ⟨-, -, -, quotas', -, h'⟩
  · exact h'
  · rw [h'] at h
    cases h
  · rw [h'] at h
    cases h

/-- **A `growMemory` that succeeds** returns the old size and stays within the type's maximum
and `IR::maxMemoryPages`, a zero delta included. -/
theorem growMemory_bounds {memory : Memory QuotaId} (hv : memory.Valid)
    {quotas : QuotaId → ResourceQuota} {numPagesToGrow : Uptr} {commitSucceeds : Bool} {old : Uptr}
    (h : (growMemory quotas memory numPagesToGrow commitSucceeds).2.2 = some old) :
    old = memory.numPages ∧ memory.numPages.toNat + numPagesToGrow.toNat ≤ memory.type.size.max.toNat ∧
      memory.numPages.toNat + numPagesToGrow.toNat ≤ maxMemoryPages.toNat := by
  rcases growMemory_cases quotas memory numPagesToGrow commitSucceeds with
    h' | ⟨h0, h'⟩ | ⟨-, h₁, h₂, quotas', -, h'⟩ <;> rw [h'] at h
  · cases h
  · cases h
    rw [h0, UInt64.toNat_zero, Nat.add_zero]
    exact ⟨rfl, hv.numPages_le_max, hv.numPages_le_maxMemoryPages⟩
  · cases h
    exact ⟨rfl, h₁, h₂⟩

/-- A `growMemory` that succeeds had room for the delta under the quota's maximum. -/
theorem growMemory_headroom {quotas : QuotaId → ResourceQuota} (hw : WithinMax quotas)
    {memory : Memory QuotaId} {numPagesToGrow : Uptr} {commitSucceeds : Bool} {old : Uptr}
    (h : (growMemory quotas memory numPagesToGrow commitSucceeds).2.2 = some old) (q : QuotaId)
    (hq : memory.resourceQuota = some q) :
    inUse quotas q .memoryPages + numPagesToGrow.toNat ≤ (quotas q).memoryPages.max.toNat :=
  growWithQuota_headroom _ _ _ _ _ _ _ _ _ hw h q hq

/-- The `Memory` constructor: no pages, and no id until the compartment adds it. -/
def Memory.new (type : MemoryType) (resourceQuota : Option QuotaId) : Memory QuotaId :=
  { id := uintptrMax, type, numPages := 0, resourceQuota }

/-- The quota release of `Memory::~Memory`:
`if(resourceQuota) { resourceQuota->memoryPages.free(numPages); }`. The rest of the
destructor (the compartment's `IndexMap`, the global list, the address space) is not
modelled. -/
def deleteMemory (quotas : QuotaId → ResourceQuota) (memory : Memory QuotaId) :
    QuotaId → ResourceQuota :=
  freeQuota quotas memory.resourceQuota .memoryPages memory.numPages

/-- `createMemoryImpl`: reserve the address space, then grow the new memory to `numPages`;
on either failure the half-built memory is deleted. `reserveSucceeds` is what
`Platform::allocateVirtualPages` answers. -/
def createMemoryImpl (quotas : QuotaId → ResourceQuota) (type : MemoryType) (numPages : Uptr)
    (resourceQuota : Option QuotaId) (reserveSucceeds commitSucceeds : Bool) :
    (QuotaId → ResourceQuota) × Option (Memory QuotaId) :=
  let memory := Memory.new type resourceQuota
  if !reserveSucceeds then (deleteMemory quotas memory, none)
  else
    match growMemory quotas memory numPages commitSucceeds with
    | (quotas', memory', none) => (deleteMemory quotas' memory', none)
    | (quotas', memory', some _) => (quotas', some memory')

/-- `Runtime::createMemory`: a memory of the type's minimum size, added to the compartment.
`memoryIndex` is what `compartment->memories.add(UINTPTR_MAX, memory)` answers; on
`UINTPTR_MAX` the memory is deleted. -/
def createMemory (quotas : QuotaId → ResourceQuota) (type : MemoryType)
    (resourceQuota : Option QuotaId) (reserveSucceeds commitSucceeds : Bool) (memoryIndex : Uptr) :
    (QuotaId → ResourceQuota) × Option (Memory QuotaId) :=
  match createMemoryImpl quotas type type.size.min resourceQuota reserveSucceeds commitSucceeds with
  | (quotas', none) => (quotas', none)
  | (quotas', some memory) =>
    let memory := { memory with id := memoryIndex }
    if memory.id = uintptrMax then (deleteMemory quotas' memory, none) else (quotas', some memory)

/-- `Runtime::cloneMemory`: a memory of the same type, size and quota (charged again), under
the same id in the new compartment. The copy of the contents is not modelled. -/
def cloneMemory (quotas : QuotaId → ResourceQuota) (memory : Memory QuotaId)
    (reserveSucceeds commitSucceeds : Bool) : (QuotaId → ResourceQuota) × Option (Memory QuotaId) :=
  match createMemoryImpl quotas memory.type memory.numPages memory.resourceQuota reserveSucceeds
      commitSucceeds with
  | (quotas', none) => (quotas', none)
  | (quotas', some newMemory) => (quotas', some { newMemory with id := memory.id })

/-- The `memory.grow` intrinsic: the old size as an `I32`, or `-1`. -/
def memoryGrow (quotas : QuotaId → ResourceQuota) (memory : Memory QuotaId) (deltaPages : UInt32)
    (commitSucceeds : Bool) : (QuotaId → ResourceQuota) × Memory QuotaId × Int32 :=
  match growMemory quotas memory deltaPages.toUInt64 commitSucceeds with
  | (quotas', memory', none) => (quotas', memory', -1)
  | (quotas', memory', some oldNumPages) => (quotas', memory', oldNumPages.toUInt32.toInt32)

omit [DecidableEq QuotaId] in
theorem valid_new (type : MemoryType) (resourceQuota : Option QuotaId) :
    (Memory.new type resourceQuota).Valid := by
  constructor <;> simp [Memory.new]

@[simp] theorem deleteMemory_new (quotas : QuotaId → ResourceQuota) (type : MemoryType)
    (resourceQuota : Option QuotaId) : deleteMemory quotas (Memory.new type resourceQuota) = quotas :=
  freeQuota_zero _ _ _

/-- The destructor refunds the memory's charge, which the counters hold. -/
theorem deleteMemory_recharged {quotas : QuotaId → ResourceQuota} {memory : Memory QuotaId}
    (h : ∀ q, memory.resourceQuota = some q → memory.numPages.toNat ≤ inUse quotas q .memoryPages) :
    Recharged quotas (deleteMemory quotas memory) memory.charge (fun _ _ => 0) :=
  recharged_freeQuota h

theorem deleteMemory_withinMax {quotas : QuotaId → ResourceQuota} {memory : Memory QuotaId}
    (hw : WithinMax quotas)
    (h : ∀ q, memory.resourceQuota = some q → memory.numPages.toNat ≤ inUse quotas q .memoryPages) :
    WithinMax (deleteMemory quotas memory) :=
  hw.freeQuota h

/-- What a successful creation leaves: the quotas charged with exactly the new memory's
charge, within their maxima if they were, and a valid memory. -/
structure Memory.Created (quotas quotas' : QuotaId → ResourceQuota) (memory : Memory QuotaId) :
    Prop where
  recharged : Recharged quotas quotas' (fun _ _ => 0) memory.charge
  withinMax : WithinMax quotas → WithinMax quotas'
  valid : memory.Valid

/-- The id of a memory is not part of its accounts. -/
theorem Memory.Created.with_id {quotas quotas' : QuotaId → ResourceQuota} {memory : Memory QuotaId}
    (hc : Memory.Created quotas quotas' memory) (id : Uptr) :
    Memory.Created quotas quotas' { memory with id } :=
  ⟨hc.recharged, hc.withinMax, ⟨hc.valid.1, hc.valid.2⟩⟩

/-- **What `createMemoryImpl` can do**: fail and leave the quotas as they were, or create a
valid memory of `numPages` pages charged to its quota, whose deletion would refund exactly
that charge. -/
theorem createMemoryImpl_cases (quotas : QuotaId → ResourceQuota) (type : MemoryType)
    (numPages : Uptr) (resourceQuota : Option QuotaId) (reserveSucceeds commitSucceeds : Bool) :
    createMemoryImpl quotas type numPages resourceQuota reserveSucceeds commitSucceeds = (quotas, none) ∨
      ∃ quotas', createMemoryImpl quotas type numPages resourceQuota reserveSucceeds commitSucceeds =
          (quotas', some { Memory.new type resourceQuota with numPages }) ∧
        Memory.Created quotas quotas' { Memory.new type resourceQuota with numPages } ∧
        deleteMemory quotas' { Memory.new type resourceQuota with numPages } = quotas := by
  unfold createMemoryImpl
  cases reserveSucceeds with
  | false => exact Or.inl (by simp)
  | true =>
    simp only [Bool.not_true, Bool.false_eq_true, ↓reduceIte]
    rcases growMemory_cases quotas (Memory.new type resourceQuota) numPages commitSucceeds with
      h | ⟨h0, h⟩ | ⟨-, h₁, h₂, quotas', ha, h⟩ <;> rw [h]
    · exact Or.inl (by simp)
    · -- a memory of no pages charges nothing
      subst h0
      refine Or.inr ⟨quotas, rfl, ⟨fun q c => ?_, id, valid_new type resourceQuota⟩, freeQuota_zero _ _ _⟩
      simp [Memory.charge, Memory.new, chargeOf_zero]
    · have hsum : (Memory.new type resourceQuota).numPages + numPages = numPages := by
        simp [Memory.new]
      simp only [Memory.new, UInt64.toNat_zero, Nat.zero_add] at h₁ h₂
      refine Or.inr ⟨quotas', by rw [hsum], ⟨?_, fun hw => hw.allocateQuota ha, ⟨h₁, h₂⟩⟩,
        freeQuota_of_allocateQuota ha⟩
      exact recharged_allocateQuota ha

/-- **What `createMemory` can do**: fail and leave the quotas as they were, or create a memory
as `createMemoryImpl` does. A failure to add it to the compartment deletes it and refunds its
charge. -/
theorem createMemory_cases (quotas : QuotaId → ResourceQuota) (type : MemoryType)
    (resourceQuota : Option QuotaId) (reserveSucceeds commitSucceeds : Bool) (memoryIndex : Uptr) :
    createMemory quotas type resourceQuota reserveSucceeds commitSucceeds memoryIndex = (quotas, none) ∨
      ∃ quotas' memory,
        createMemory quotas type resourceQuota reserveSucceeds commitSucceeds memoryIndex =
          (quotas', some memory) ∧ Memory.Created quotas quotas' memory := by
  unfold createMemory
  rcases createMemoryImpl_cases quotas type type.size.min resourceQuota reserveSucceeds commitSucceeds with
    h | ⟨quotas', h, hc, hdel⟩ <;> rw [h]
  · exact Or.inl rfl
  · dsimp only
    split_ifs
    · exact Or.inl (by rw [← hdel]; rfl)
    · exact Or.inr ⟨quotas', _, rfl, hc.with_id memoryIndex⟩

/-- **What `cloneMemory` can do**: fail and leave the quotas as they were, or create a memory of
the source's size, charged again to the source's quota. -/
theorem cloneMemory_cases (quotas : QuotaId → ResourceQuota) (memory : Memory QuotaId)
    (reserveSucceeds commitSucceeds : Bool) :
    cloneMemory quotas memory reserveSucceeds commitSucceeds = (quotas, none) ∨
      ∃ quotas' newMemory,
        cloneMemory quotas memory reserveSucceeds commitSucceeds = (quotas', some newMemory) ∧
        Memory.Created quotas quotas' newMemory ∧ newMemory.numPages = memory.numPages ∧
        newMemory.resourceQuota = memory.resourceQuota := by
  unfold cloneMemory
  rcases createMemoryImpl_cases quotas memory.type memory.numPages memory.resourceQuota reserveSucceeds
      commitSucceeds with h | ⟨quotas', h, hc, -⟩ <;> rw [h]
  · exact Or.inl rfl
  · exact Or.inr ⟨quotas', _, rfl, hc.with_id memory.id, rfl, rfl⟩

/-- The `memory.grow` intrinsic is `growMemory` of the zero-extended delta, with the old size
as an `I32` or `-1`. -/
theorem memoryGrow_eq (quotas : QuotaId → ResourceQuota) (memory : Memory QuotaId)
    (deltaPages : UInt32) (commitSucceeds : Bool) :
    memoryGrow quotas memory deltaPages commitSucceeds =
      ((growMemory quotas memory deltaPages.toUInt64 commitSucceeds).1,
        (growMemory quotas memory deltaPages.toUInt64 commitSucceeds).2.1,
        ((growMemory quotas memory deltaPages.toUInt64 commitSucceeds).2.2.map
          fun oldNumPages => oldNumPages.toUInt32.toInt32).getD (-1)) := by
  unfold memoryGrow
  rcases growMemory quotas memory deltaPages.toUInt64 commitSucceeds with ⟨quotas', memory', _ | old⟩ <;>
    rfl

/-- The `memory.grow` intrinsic returns `-1` exactly when the grow failed: an old size is at
most `IR::maxMemoryPages`, never `-1` as an `I32`. -/
theorem memoryGrow_eq_neg_one_iff {memory : Memory QuotaId} (hv : memory.Valid)
    (quotas : QuotaId → ResourceQuota) (deltaPages : UInt32) (commitSucceeds : Bool) :
    (memoryGrow quotas memory deltaPages commitSucceeds).2.2 = -1 ↔
      (growMemory quotas memory deltaPages.toUInt64 commitSucceeds).2.2 = none := by
  rw [memoryGrow_eq]
  cases h : (growMemory quotas memory deltaPages.toUInt64 commitSucceeds).2.2 with
  | none => simp
  | some old =>
    obtain ⟨rfl, -, hle⟩ := growMemory_bounds hv h
    have hlt : memory.numPages.toNat < 2 ^ 32 - 1 := by
      have : maxMemoryPages.toNat = 65536 := rfl
      omega
    simp [toInt32_ne_neg_one hlt]

end Lifecycle

end Wavm.Runtime
