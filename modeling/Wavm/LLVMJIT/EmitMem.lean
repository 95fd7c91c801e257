import Wavm.Runtime.Memory

set_option relaxedAutoImplicit false
set_option autoImplicit false

/-!
# The JIT's atomic memory operators

`src/Lib/LLVMJIT/EmitMem.cpp` emits every atomic memory operator in the same way: zero-extend
the `i32` address, add the memarg offset (`getOffsetAndBoundedAddress`), trap if the sum is
misaligned (`trapIfMisalignedAtomic`), then access the sum. The three operators that block or
wake threads are different: after the same address computation and alignment check they call
a runtime intrinsic of `src/Lib/Runtime/Atomics.cpp`, and what they pass to it is the raw
address operand, not the sum. The intrinsics then check bounds on that raw address:
`atomic_notify` against `U64(address) + 4`, `atomic_wait_i32` and `atomic_wait_i64` through
`memoryRef`, the last after converting its `I32` parameter to `Uptr` by sign extension.

Each operator is modelled by what it does to the memory: the byte offset it accesses (the
offset that a notification or wait is keyed on), or the exception it throws. Plain atomic
accesses are not bounds checked by the emitted code; an access beyond the committed pages
faults, and the runtime turns the fault into `outOfBoundsMemoryAccess`, which
`atomicLoadOrStoreAccess` models directly.

## Main definitions

* `Wavm.LLVMJIT.getOffsetAndBoundedAddress`, `Wavm.LLVMJIT.trapIfMisalignedAtomic`.
* `Wavm.Runtime.atomicNotify`, `atomicWaitI32`, `atomicWaitI64` — the intrinsics'
  address handling.
* `Wavm.LLVMJIT.emitAtomicNotify`, `emitI32AtomicWait`, `emitI64AtomicWait`,
  `atomicLoadOrStoreAccess` — the emitted operators.

## Main results

* `Wavm.LLVMJIT.atomicLoadOrStoreAccess_eq` — a plain atomic access reaches `a + o` and
  traps exactly when `a + o + size` passes the end of the memory.
* `Wavm.LLVMJIT.emitAtomicNotify_eq`, `emitI32AtomicWait_eq`, `emitI64AtomicWait_eq` — the
  three waiting operators reach `a` (sign extended, for `i64.atomic.wait`), whatever the
  offset.
* `Wavm.LLVMJIT.emitAtomicNotify_offset_mismatch` — at offset `4` the notification goes to
  another address than the plain access, and escapes its bounds check.
-/

namespace Wavm.Runtime

open Wavm.IR

variable {QuotaId : Type}

/-- The bounds check and address of the `atomic_notify` intrinsic: throw unless
`U64(address) + 4` fits in `U64(numPages) * numBytesPerPage`; else wake the waiters on
`baseAddress + address`, whose offset from the base is returned. -/
def atomicNotify (memory : Memory QuotaId) (address : UInt32) : Except ExceptionType Uptr :=
  let memoryNumBytes : UInt64 := memory.numPages * UInt64.ofNat numBytesPerPage
  if address.toUInt64 + 4 > memoryNumBytes then .error .outOfBoundsMemoryAccess
  else .ok address.toUInt64

/-- The address handling of `atomic_wait_I32`: its `U32 address` goes to `memoryRef<I32>`. -/
def atomicWaitI32 (memory : Memory QuotaId) (address : UInt32) : Except ExceptionType Uptr :=
  memoryRef memory 4 address.toUInt64

/-- The address handling of `atomic_wait_i64`: its parameter is an `I32`, so the `Uptr` that
`memoryRef<I64>` receives is the sign extension of the operand. -/
def atomicWaitI64 (memory : Memory QuotaId) (address : UInt32) : Except ExceptionType Uptr :=
  memoryRef memory 8 (signExtendToUptr address)

end Wavm.Runtime

namespace Wavm.LLVMJIT

open Wavm.IR Wavm.Runtime

variable {QuotaId : Type}

/-- `AtomicLoadOrStoreImm`: the memarg of an atomic operator. -/
structure AtomicLoadOrStoreImm where
  alignmentLog2 : UInt8
  offset : UInt32
  deriving DecidableEq, Repr

/-- `getOffsetAndBoundedAddress`: zero-extend the address to 64 bits and add the offset, also
zero-extended; with a 64-bit address space no bounds check is emitted. -/
def getOffsetAndBoundedAddress (address offset : UInt32) : UInt64 :=
  if offset ≠ 0 then address.toUInt64 + offset.toUInt64 else address.toUInt64

/-- `trapIfMisalignedAtomic`: for a positive alignment, call `misalignedAtomicTrap` when the
low `alignmentLog2` bits of the address are not zero. -/
def trapIfMisalignedAtomic (address : UInt64) (alignmentLog2 : UInt8) :
    Except ExceptionType Unit :=
  if alignmentLog2 > 0 ∧ address &&& (((1 : UInt64) <<< alignmentLog2.toUInt64) - 1) ≠ 0 then
    .error .misalignedAtomicMemoryAccess
  else .ok ()

/-- `EmitFunctionContext::atomic_notify`: the alignment check is on the bounded address, the
intrinsic receives `address`. -/
def emitAtomicNotify (imm : AtomicLoadOrStoreImm) (memory : Memory QuotaId)
    (address : UInt32) : Except ExceptionType Uptr := do
  let boundedAddress := getOffsetAndBoundedAddress address imm.offset
  trapIfMisalignedAtomic boundedAddress imm.alignmentLog2
  atomicNotify memory address

/-- `EmitFunctionContext::i32_atomic_wait`. -/
def emitI32AtomicWait (imm : AtomicLoadOrStoreImm) (memory : Memory QuotaId)
    (address : UInt32) : Except ExceptionType Uptr := do
  let boundedAddress := getOffsetAndBoundedAddress address imm.offset
  trapIfMisalignedAtomic boundedAddress imm.alignmentLog2
  atomicWaitI32 memory address

/-- `EmitFunctionContext::i64_atomic_wait`. -/
def emitI64AtomicWait (imm : AtomicLoadOrStoreImm) (memory : Memory QuotaId)
    (address : UInt32) : Except ExceptionType Uptr := do
  let boundedAddress := getOffsetAndBoundedAddress address imm.offset
  trapIfMisalignedAtomic boundedAddress imm.alignmentLog2
  atomicWaitI64 memory address

/-- `EMIT_ATOMIC_LOAD_OP` and `EMIT_ATOMIC_STORE_OP` (and the read-modify-write operators) on
a value of `numBytes` bytes: the access is at the bounded address, and an access past the
committed pages faults into `outOfBoundsMemoryAccess`. -/
def atomicLoadOrStoreAccess (imm : AtomicLoadOrStoreImm) (memory : Memory QuotaId)
    (numBytes : Nat) (address : UInt32) : Except ExceptionType Uptr := do
  let boundedAddress := getOffsetAndBoundedAddress address imm.offset
  trapIfMisalignedAtomic boundedAddress imm.alignmentLog2
  if boundedAddress.toNat + numBytes > memory.numPages.toNat * numBytesPerPage then
    .error .outOfBoundsMemoryAccess
  else .ok boundedAddress

/-! ## The address each operator reaches -/

/-- The bounded address is the sum `address + offset`, with no wrap in 64 bits. -/
@[simp] theorem toNat_getOffsetAndBoundedAddress (address offset : UInt32) :
    (getOffsetAndBoundedAddress address offset).toNat = address.toNat + offset.toNat := by
  have ha := address.toNat_lt
  have ho := offset.toNat_lt
  unfold getOffsetAndBoundedAddress
  split
  · rw [UInt64.toNat_add, UInt32.toNat_toUInt64, UInt32.toNat_toUInt64]
    exact Nat.mod_eq_of_lt (by omega)
  · rename_i h
    simp only [ne_eq, not_not] at h
    simp [h]

/-- The alignment check, when it passes, leaves the rest of an operator to run. -/
theorem trapIfMisalignedAtomic_bind {α : Type} {address : UInt64} {alignmentLog2 : UInt8}
    (h : trapIfMisalignedAtomic address alignmentLog2 = .ok ())
    (k : Unit → Except ExceptionType α) :
    (trapIfMisalignedAtomic address alignmentLog2 >>= k) = k () := by
  rw [h]
  rfl

/-- The committed size of a memory of at most `2^32` pages, as the intrinsics compute it. -/
theorem toNat_memoryNumBytes (memory : Memory QuotaId)
    (hpages : memory.numPages.toNat ≤ 2 ^ 32) :
    (memory.numPages * UInt64.ofNat numBytesPerPage).toNat =
      memory.numPages.toNat * numBytesPerPage := by
  rw [UInt64.toNat_mul]
  simp only [numBytesPerPage, UInt64.toNat_ofNat']
  exact Nat.mod_eq_of_lt (by omega)

/-- **A plain atomic access** with the alignment check passing reaches `address + offset`,
and traps exactly when that range of `numBytes` passes the end of the memory. -/
theorem atomicLoadOrStoreAccess_eq (imm : AtomicLoadOrStoreImm) (memory : Memory QuotaId)
    (numBytes : Nat) (address : UInt32)
    (halign : trapIfMisalignedAtomic (getOffsetAndBoundedAddress address imm.offset)
      imm.alignmentLog2 = .ok ()) :
    atomicLoadOrStoreAccess imm memory numBytes address =
      if address.toNat + imm.offset.toNat + numBytes > memory.numPages.toNat * numBytesPerPage
      then .error .outOfBoundsMemoryAccess
      else .ok (getOffsetAndBoundedAddress address imm.offset) := by
  simp only [atomicLoadOrStoreAccess]
  rw [trapIfMisalignedAtomic_bind halign, toNat_getOffsetAndBoundedAddress]

/-- **`memory.atomic.notify`** with the alignment check passing: the bounds check and the
woken address are those of `address` alone; the offset plays no part. -/
theorem emitAtomicNotify_eq (imm : AtomicLoadOrStoreImm) (memory : Memory QuotaId)
    (address : UInt32) (hpages : memory.numPages.toNat ≤ 2 ^ 32)
    (halign : trapIfMisalignedAtomic (getOffsetAndBoundedAddress address imm.offset)
      imm.alignmentLog2 = .ok ()) :
    emitAtomicNotify imm memory address =
      if address.toNat + 4 > memory.numPages.toNat * numBytesPerPage
      then .error .outOfBoundsMemoryAccess
      else .ok address.toUInt64 := by
  have hsum : (address.toUInt64 + 4).toNat = address.toNat + 4 := by
    have := address.toNat_lt
    rw [UInt64.toNat_add, UInt32.toNat_toUInt64]
    exact Nat.mod_eq_of_lt (by simp; omega)
  simp only [emitAtomicNotify]
  rw [trapIfMisalignedAtomic_bind halign]
  simp only [atomicNotify, UInt64.lt_iff_toNat_lt, hsum, toNat_memoryNumBytes memory hpages]

/-- The memory lookup of the waiting intrinsics, in arithmetic terms. -/
theorem memoryRef_eq (memory : Memory QuotaId) (sizeOfValue offset : Uptr)
    (hpages : memory.numPages.toNat ≤ 2 ^ 32) :
    memoryRef memory sizeOfValue offset =
      if offset.toNat + sizeOfValue.toNat > memory.numPages.toNat * numBytesPerPage
      then .error .outOfBoundsMemoryAccess
      else .ok offset := by
  unfold memoryRef getValidatedMemoryOffsetRange
  split
  · rename_i h
    apply getValidatedMemoryOffsetRangeImpl_eq_error_iff.2
    rw [toNat_memoryNumBytes memory hpages]
    exact h
  · rename_i h
    apply getValidatedMemoryOffsetRangeImpl_eq_ok_iff.2
    rw [toNat_memoryNumBytes memory hpages]
    exact ⟨Nat.le_of_not_lt h, rfl⟩

/-- **`i32.atomic.wait`** with the alignment check passing waits on `address`, whatever the
offset. -/
theorem emitI32AtomicWait_eq (imm : AtomicLoadOrStoreImm) (memory : Memory QuotaId)
    (address : UInt32) (hpages : memory.numPages.toNat ≤ 2 ^ 32)
    (halign : trapIfMisalignedAtomic (getOffsetAndBoundedAddress address imm.offset)
      imm.alignmentLog2 = .ok ()) :
    emitI32AtomicWait imm memory address =
      if address.toNat + 4 > memory.numPages.toNat * numBytesPerPage
      then .error .outOfBoundsMemoryAccess
      else .ok address.toUInt64 := by
  simp only [emitI32AtomicWait]
  rw [trapIfMisalignedAtomic_bind halign]
  simp only [atomicWaitI32, memoryRef_eq memory _ _ hpages, UInt32.toNat_toUInt64]
  rfl

/-- **`i64.atomic.wait`** with the alignment check passing waits on the sign extension of
`address`, whatever the offset: every address from `2^31` on traps. -/
theorem emitI64AtomicWait_eq (imm : AtomicLoadOrStoreImm) (memory : Memory QuotaId)
    (address : UInt32) (hpages : memory.numPages.toNat ≤ 2 ^ 32)
    (halign : trapIfMisalignedAtomic (getOffsetAndBoundedAddress address imm.offset)
      imm.alignmentLog2 = .ok ()) :
    emitI64AtomicWait imm memory address =
      if (signExtendToUptr address).toNat + 8 > memory.numPages.toNat * numBytesPerPage
      then .error .outOfBoundsMemoryAccess
      else .ok (signExtendToUptr address) := by
  simp only [emitI64AtomicWait]
  rw [trapIfMisalignedAtomic_bind halign]
  simp only [atomicWaitI64, memoryRef_eq memory _ _ hpages]
  rfl

/-- **The offset is dropped**: with memarg offset `4` on a one-page memory, the operand
`65532` notifies the waiters on byte `65532` with no trap, although the range
`[65536, 65540)` that the plain atomic access of the same memarg reaches lies past the end
of the memory and traps. -/
theorem emitAtomicNotify_offset_mismatch :
    let imm : AtomicLoadOrStoreImm := { alignmentLog2 := 2, offset := 4 }
    let memory : Memory Unit :=
      { id := 0, type := { isShared := true, size := { min := 1, max := 1 } }, numPages := 1,
        resourceQuota := none }
    emitAtomicNotify imm memory 65532 = .ok 65532 ∧
      65532 + imm.offset.toNat + 4 > memory.numPages.toNat * numBytesPerPage ∧
      atomicLoadOrStoreAccess imm memory 4 65532 = .error .outOfBoundsMemoryAccess := by
  refine ⟨by decide, by decide, by decide⟩

end Wavm.LLVMJIT
