import Wavm.Runtime.Memory

set_option relaxedAutoImplicit false
set_option autoImplicit false

/-!
# The Emscripten heap

`dynamicAlloc` of `src/Lib/Emscripten/Emscripten.cpp` is the bump allocator behind
`___cxa_allocate_exception`, the `getaddrinfo` family and the program's argument strings. Its
pointer is the word `MutableGlobals::DYNAMICTOP_PTR` in the guest memory, which
`Emscripten::instantiate` sets to `STACK_MAX`. A call computes the end of the allocation as
`(allocationAddress + numBytes + 15) & -16` in 32-bit arithmetic, stores it to the pointer,
grows the memory with `resizeHeap` if the end lies beyond it, and returns the old pointer.

Two things go wrong, both on guest-chosen sizes. The store comes before the checks, so a call
that throws `outOfMemory` still moves the pointer (`dynamicTopPtr_dynamicAlloc`). And the
end wraps: `numBytes = 2^32 - 16` gives the end `allocationAddress - 16`, inside the memory,
so the call succeeds with a region that runs `2^32 - 16` bytes past its start and moves the
pointer back into the stack, where the next call allocates (`dynamicAllocs_wraps_into_stack`).
When the sizes of a run of calls leave the pointer below `2^32`, the allocator is right:
every region it returns lies above `STACK_MAX`, within the memory, and apart from every other
(`allocated_dynamicAllocs_instantiate`).

## Main definitions

* `Wavm.Emscripten.Instance` — the memory and `DYNAMICTOP_PTR`; `Wavm.Emscripten.instantiate`.
* `Wavm.Emscripten.resizeHeap`, `Wavm.Emscripten.dynamicAlloc`.
* `Wavm.Emscripten.dynamicAllocs` — a guest's calls of `dynamicAlloc`, one after another.
* `Wavm.Emscripten.Allocated` — the allocator's invariant over the regions it returned.

## Main results

* `Wavm.Emscripten.dynamicAlloc_spec` — what one call does to the pointer and the memory, and
  where a region it returns ends.
* `Wavm.Emscripten.Allocated.dynamicAlloc`, `Wavm.Emscripten.allocated_dynamicAllocs` — a call
  whose end does not wrap keeps the invariant, and so does a run of them.
* `Wavm.Emscripten.dynamicAlloc_of_wrap`, `Wavm.Emscripten.dynamicAllocs_wraps_into_stack` —
  the wrapped end.

## Implementation notes

The guest memory's bytes other than `DYNAMICTOP_PTR` are not modelled, and the pointer is a
field of the instance that no guest store changes. `commitSucceeds` is what committing new
pages answers inside `Runtime::growMemory`. A region is a start and a length in `ℕ`, so that a
region that runs past `2^32` is seen as such.
-/

namespace Wavm.Emscripten

open Wavm.IR Wavm.Runtime

variable {QuotaId : Type} [DecidableEq QuotaId]

/-- `STACK_MAX`: the end of the aliased stack, at page 128. -/
def stackMax : UInt32 := 128 * 65536

/-- What `dynamicAlloc` reads and writes of an `Emscripten::Instance`: its memory, and the
word `MutableGlobals::DYNAMICTOP_PTR` in that memory. -/
structure Instance (QuotaId : Type) where
  memory : Memory QuotaId
  dynamicTopPtr : UInt32
  deriving DecidableEq

/-- `Emscripten::instantiate`'s store of `STACK_MAX` to `DYNAMICTOP_PTR` of the memory it
created. -/
def instantiate (memory : Memory QuotaId) : Instance QuotaId :=
  { memory, dynamicTopPtr := stackMax }

/-- `resizeHeap`: grow the memory to the pages that `desiredNumBytes` needs, and fail if it
already has more. -/
def resizeHeap (quotas : QuotaId → ResourceQuota) (memory : Memory QuotaId)
    (desiredNumBytes : UInt32) (commitSucceeds : Bool) :
    (QuotaId → ResourceQuota) × Memory QuotaId × Bool :=
  let desiredNumPages : Uptr :=
    (desiredNumBytes.toUInt64 + UInt64.ofNat numBytesPerPage - 1) / UInt64.ofNat numBytesPerPage
  let currentNumPages := memory.numPages
  if desiredNumPages > currentNumPages then
    let grown := growMemory quotas memory (desiredNumPages - currentNumPages) commitSucceeds
    (grown.1, grown.2.1, grown.2.2.isSome)
  else if desiredNumPages < currentNumPages then (quotas, memory, false)
  else (quotas, memory, true)

/-- The `endAddress` of `dynamicAlloc`: the end of the allocation rounded up to 16, in `U32`. -/
def endAddress (allocationAddress numBytes : UInt32) : UInt32 :=
  (allocationAddress + numBytes + 15) &&& -16

/-- `memoryMaxPages` of `dynamicAlloc`: the maximum of the memory's type, or
`IR::maxMemoryPages` where it is `UINT64_MAX`. -/
def memoryMaxPages (memory : Memory QuotaId) : Uptr :=
  if memory.type.size.max = 0xFFFFFFFFFFFFFFFF then maxMemoryPages else memory.type.size.max

/-- `dynamicAlloc`: the quotas and the instance after the call, and the address it returns or
the exception it throws. -/
def dynamicAlloc (quotas : QuotaId → ResourceQuota) (inst : Instance QuotaId) (numBytes : UInt32)
    (commitSucceeds : Bool) :
    (QuotaId → ResourceQuota) × Instance QuotaId × Except ExceptionType UInt32 :=
  let allocationAddress := inst.dynamicTopPtr
  let endAddress := endAddress allocationAddress numBytes
  -- the store to `DYNAMICTOP_PTR` comes before the checks, and a throw does not undo it
  let inst := { inst with dynamicTopPtr := endAddress }
  if endAddress.toUInt64 > inst.memory.numPages * UInt64.ofNat numBytesPerPage then
    if endAddress.toUInt64 > memoryMaxPages inst.memory * UInt64.ofNat numBytesPerPage then
      (quotas, inst, .error .outOfMemory)
    else
      let resized := resizeHeap quotas inst.memory endAddress commitSucceeds
      (resized.1, { inst with memory := resized.2.1 },
        if resized.2.2 then .ok allocationAddress else .error .outOfMemory)
  else (quotas, inst, .ok allocationAddress)

/-- A guest's calls of `dynamicAlloc`, each with its size and what committing pages answers,
made one after another on one instance whether or not the one before threw: the quotas and
the instance after them, and what each returned. -/
def dynamicAllocs : (QuotaId → ResourceQuota) → Instance QuotaId → List (UInt32 × Bool) →
    (QuotaId → ResourceQuota) × Instance QuotaId × List (Except ExceptionType UInt32)
  | quotas, inst, [] => (quotas, inst, [])
  | quotas, inst, (numBytes, commitSucceeds) :: calls =>
    let call := dynamicAlloc quotas inst numBytes commitSucceeds
    let rest := dynamicAllocs call.1 call.2.1 calls
    (rest.1, rest.2.1, call.2.2 :: rest.2.2)

/-! ## Arithmetic -/

/-- `& -16` rounds down to a multiple of 16. -/
theorem toNat_and_neg_sixteen (x : UInt32) : (x &&& -16).toNat = x.toNat / 16 * 16 := by
  have hmask : (-16 : UInt32).toBitVec = BitVec.allOnes 32 <<< 4 := by decide
  rw [← UInt32.toNat_toBitVec, UInt32.toBitVec_and, hmask, ← BitVec.shiftLeft_ushiftRight,
    BitVec.toNat_shiftLeft, BitVec.toNat_ushiftRight, UInt32.toNat_toBitVec,
    Nat.shiftRight_eq_div_pow, Nat.shiftLeft_eq]
  have := x.toNat_lt
  omega

/-- The end of an allocation, wrapped to 32 bits and rounded down to 16. -/
theorem toNat_endAddress (allocationAddress numBytes : UInt32) :
    (endAddress allocationAddress numBytes).toNat =
      (allocationAddress.toNat + numBytes.toNat + 15) % 2 ^ 32 / 16 * 16 := by
  rw [endAddress, toNat_and_neg_sixteen, UInt32.toNat_add, UInt32.toNat_add]
  simp

/-- An end below `2 ^ 32` is the end of the allocation rounded up to 16. -/
theorem toNat_endAddress_of_lt {allocationAddress numBytes : UInt32}
    (h : allocationAddress.toNat + numBytes.toNat + 15 < 2 ^ 32) :
    allocationAddress.toNat + numBytes.toNat ≤ (endAddress allocationAddress numBytes).toNat ∧
      (endAddress allocationAddress numBytes).toNat ≤ allocationAddress.toNat + numBytes.toNat + 15 := by
  rw [toNat_endAddress, Nat.mod_eq_of_lt h]
  omega

/-- The pages `resizeHeap` asks for: enough for `desiredNumBytes`. -/
theorem toNat_desiredNumPages (desiredNumBytes : UInt32) :
    ((desiredNumBytes.toUInt64 + UInt64.ofNat numBytesPerPage - 1) /
        UInt64.ofNat numBytesPerPage).toNat = (desiredNumBytes.toNat + 65535) / 65536 := by
  have := desiredNumBytes.toNat_lt
  rw [UInt64.toNat_div, UInt64.toNat_sub_of_le _ _ (UInt64.le_iff_toNat_le.2 (by simp [numBytesPerPage]; omega)),
    UInt64.toNat_add]
  simp [numBytesPerPage]
  omega

omit [DecidableEq QuotaId] in
/-- The byte size of a valid memory, in `Uptr` as `dynamicAlloc` computes it. -/
theorem toNat_numBytes {memory : Memory QuotaId} (hv : memory.Valid) :
    (memory.numPages * UInt64.ofNat numBytesPerPage).toNat = memory.numPages.toNat * numBytesPerPage := by
  have hle := hv.numPages_le_maxMemoryPages
  have : maxMemoryPages.toNat = 65536 := rfl
  rw [UInt64.toNat_mul]
  simp [numBytesPerPage]
  omega

/-! ## One call -/

/-- The size after `growMemory`: grown by the delta when it succeeds. -/
theorem toNat_numPages_growMemory_of_isSome {memory : Memory QuotaId}
    {quotas : QuotaId → ResourceQuota} {numPagesToGrow : Uptr} {commitSucceeds : Bool}
    (h : (growMemory quotas memory numPagesToGrow commitSucceeds).2.2.isSome = true) :
    (growMemory quotas memory numPagesToGrow commitSucceeds).2.1.numPages.toNat =
      memory.numPages.toNat + numPagesToGrow.toNat := by
  rcases growMemory_cases quotas memory numPagesToGrow commitSucceeds with
    h' | ⟨h0, h'⟩ | ⟨-, -, h₂, quotas', -, h'⟩ <;> rw [h'] at h ⊢
  · cases h
  · rw [h0, UInt64.toNat_zero, Nat.add_zero]
  · exact toNat_numPages_add h₂

/-- **What `resizeHeap` does**: it keeps the memory valid and never shrinks it, and when it
succeeds the memory holds `desiredNumBytes`. -/
theorem resizeHeap_spec {memory : Memory QuotaId} (hv : memory.Valid)
    (quotas : QuotaId → ResourceQuota) (desiredNumBytes : UInt32) (commitSucceeds : Bool) :
    (resizeHeap quotas memory desiredNumBytes commitSucceeds).2.1.Valid ∧
      memory.numPages.toNat ≤ (resizeHeap quotas memory desiredNumBytes commitSucceeds).2.1.numPages.toNat ∧
      ((resizeHeap quotas memory desiredNumBytes commitSucceeds).2.2 = true →
        desiredNumBytes.toNat ≤
          (resizeHeap quotas memory desiredNumBytes commitSucceeds).2.1.numPages.toNat * numBytesPerPage) := by
  have hpages := toNat_desiredNumPages desiredNumBytes
  -- the pages asked for hold the bytes asked for
  have hcover : desiredNumBytes.toNat ≤ (desiredNumBytes.toNat + 65535) / 65536 * numBytesPerPage := by
    simp only [numBytesPerPage]
    omega
  unfold resizeHeap
  dsimp only
  generalize (desiredNumBytes.toUInt64 + UInt64.ofNat numBytesPerPage - 1) /
    UInt64.ofNat numBytesPerPage = desiredNumPages at hpages ⊢
  split_ifs with hgt hlt
  · -- growing by the missing pages
    rw [gt_iff_lt, UInt64.lt_iff_toNat_lt] at hgt
    have hvalid := (growMemory_valid hv quotas (desiredNumPages - memory.numPages) commitSucceeds).1
    refine ⟨hvalid, ?_, fun hsome => ?_⟩
    · cases hsome : (growMemory quotas memory (desiredNumPages - memory.numPages) commitSucceeds).2.2.isSome
      · exact Nat.le_of_eq (by
          rw [growMemory_of_eq_none (Option.not_isSome_iff_eq_none.1 (by simp [hsome]))])
      · rw [toNat_numPages_growMemory_of_isSome hsome]
        omega
    · rw [toNat_numPages_growMemory_of_isSome hsome,
        UInt64.toNat_sub_of_le _ _ (UInt64.le_iff_toNat_le.2 (Nat.le_of_lt hgt))]
      rw [hpages] at hgt ⊢
      rw [Nat.add_sub_cancel' (Nat.le_of_lt hgt)]
      exact hcover
  · exact ⟨hv, Nat.le_refl _, fun h => absurd h (by decide)⟩
  · -- the memory already has exactly the pages asked for
    have heq : (desiredNumBytes.toNat + 65535) / 65536 = memory.numPages.toNat := by
      rw [gt_iff_lt, UInt64.lt_iff_toNat_lt, hpages] at hgt
      rw [UInt64.lt_iff_toNat_lt, hpages] at hlt
      omega
    exact ⟨hv, Nat.le_refl _, fun _ => heq ▸ hcover⟩

/-- **What a call of `dynamicAlloc` does**, on every exit: it moves `DYNAMICTOP_PTR` to the
wrapped, rounded end, keeps the memory valid and never shrinks it, and returns, when it does
not throw, the old pointer with the end inside the memory. -/
theorem dynamicAlloc_spec {inst : Instance QuotaId} (hv : inst.memory.Valid)
    (quotas : QuotaId → ResourceQuota) (numBytes : UInt32) (commitSucceeds : Bool) :
    (dynamicAlloc quotas inst numBytes commitSucceeds).2.1.dynamicTopPtr =
        endAddress inst.dynamicTopPtr numBytes ∧
      (dynamicAlloc quotas inst numBytes commitSucceeds).2.1.memory.Valid ∧
      inst.memory.numPages.toNat ≤ (dynamicAlloc quotas inst numBytes commitSucceeds).2.1.memory.numPages.toNat ∧
      ∀ address, (dynamicAlloc quotas inst numBytes commitSucceeds).2.2 = .ok address →
        address = inst.dynamicTopPtr ∧
          (endAddress inst.dynamicTopPtr numBytes).toNat ≤
            (dynamicAlloc quotas inst numBytes commitSucceeds).2.1.memory.numPages.toNat * numBytesPerPage := by
  unfold dynamicAlloc
  dsimp only
  split_ifs with hbeyond hexceeds hok <;> dsimp only
  · exact ⟨rfl, hv, Nat.le_refl _, fun _ h => by cases h⟩
  · -- the growth branch: what `resizeHeap` gives
    obtain ⟨hvalid, hgrow, hcover⟩ := resizeHeap_spec hv quotas (endAddress inst.dynamicTopPtr numBytes)
      commitSucceeds
    exact ⟨rfl, hvalid, hgrow, fun address h => ⟨(Except.ok.inj h).symm, hcover hok⟩⟩
  · obtain ⟨hvalid, hgrow, -⟩ := resizeHeap_spec hv quotas (endAddress inst.dynamicTopPtr numBytes)
      commitSucceeds
    exact ⟨rfl, hvalid, hgrow, fun _ h => by cases h⟩
  · -- the end lies within the memory as it is
    rw [gt_iff_lt, UInt64.lt_iff_toNat_lt, toNat_numBytes hv, UInt32.toNat_toUInt64] at hbeyond
    exact ⟨rfl, hv, Nat.le_refl _, fun address h => ⟨(Except.ok.inj h).symm, by omega⟩⟩

/-- **The pointer moves even when the call throws**: `DYNAMICTOP_PTR` is the rounded end after
every call. -/
theorem dynamicTopPtr_dynamicAlloc {inst : Instance QuotaId} (hv : inst.memory.Valid)
    (quotas : QuotaId → ResourceQuota) (numBytes : UInt32) (commitSucceeds : Bool) :
    (dynamicAlloc quotas inst numBytes commitSucceeds).2.1.dynamicTopPtr =
      endAddress inst.dynamicTopPtr numBytes :=
  (dynamicAlloc_spec hv quotas numBytes commitSucceeds).1

/- A memory of 128 pages that cannot grow: the call throws, and the pointer has moved. -/
example : (dynamicAlloc Empty.elim (instantiate ⟨0, ⟨false, ⟨128, 128⟩⟩, 128, none⟩) 1 true).2 =
    (⟨⟨0, ⟨false, ⟨128, 128⟩⟩, 128, none⟩, stackMax + 16⟩, .error .outOfMemory) := by
  decide

/-! ## Runs of calls whose ends do not wrap -/

/-- A region returned by `dynamicAlloc`: its start and its size. -/
structure Region where
  address : ℕ
  numBytes : ℕ

/-- Two regions do not overlap. -/
def Region.Apart (r s : Region) : Prop :=
  r.address + r.numBytes ≤ s.address ∨ s.address + s.numBytes ≤ r.address

theorem Region.Apart.symm {r s : Region} (h : r.Apart s) : s.Apart r := Or.symm h

/-- The region of a call's result: the returned address with the size asked for, none for a
throw. -/
def regionOf (numBytes : UInt32) : Except ExceptionType UInt32 → List Region
  | .ok address => [⟨address.toNat, numBytes.toNat⟩]
  | .error _ => []

/-- The regions of a run: those of its calls, in order. -/
def runRegions (calls : List (UInt32 × Bool)) (results : List (Except ExceptionType UInt32)) :
    List Region :=
  (calls.zip results).flatMap fun call => regionOf call.1.1 call.2

/-- **The allocator's invariant** over the regions returned so far: the memory is valid,
`DYNAMICTOP_PTR` is at or above `STACK_MAX`, every region lies from `STACK_MAX` up to the pointer
and inside the memory, and no two regions overlap. -/
structure Allocated (inst : Instance QuotaId) (regions : List Region) : Prop where
  valid : inst.memory.Valid
  stackMax_le : stackMax.toNat ≤ inst.dynamicTopPtr.toNat
  lo : ∀ r ∈ regions, stackMax.toNat ≤ r.address
  hi : ∀ r ∈ regions, r.address + r.numBytes ≤ inst.dynamicTopPtr.toNat
  within : ∀ r ∈ regions, r.address + r.numBytes ≤ inst.memory.numPages.toNat * numBytesPerPage
  apart : regions.Pairwise Region.Apart

omit [DecidableEq QuotaId] in
/-- A fresh instance has returned nothing. -/
theorem allocated_instantiate {memory : Memory QuotaId} (hv : memory.Valid) :
    Allocated (instantiate memory) [] :=
  ⟨hv, Nat.le_refl _, by simp, by simp, by simp, List.Pairwise.nil⟩

/-- **A call whose end does not wrap keeps the invariant**, with the region it returns added
to the others. -/
theorem Allocated.dynamicAlloc {inst : Instance QuotaId} {regions : List Region}
    (hinv : Allocated inst regions) {numBytes : UInt32}
    (hwrap : inst.dynamicTopPtr.toNat + numBytes.toNat + 15 < 2 ^ 32)
    (quotas : QuotaId → ResourceQuota) (commitSucceeds : Bool) :
    Allocated (dynamicAlloc quotas inst numBytes commitSucceeds).2.1
      (regions ++ regionOf numBytes (dynamicAlloc quotas inst numBytes commitSucceeds).2.2) := by
  obtain ⟨hptr, hvalid, hgrow, hok⟩ := dynamicAlloc_spec hinv.valid quotas numBytes commitSucceeds
  obtain ⟨hend, -⟩ := toNat_endAddress_of_lt hwrap
  rw [← hptr] at hend hok
  -- the old regions end below the old pointer, and the memory did not shrink under them
  have hold : ∀ r ∈ regions, r.address + r.numBytes ≤ inst.dynamicTopPtr.toNat := hinv.hi
  have hsize : inst.memory.numPages.toNat * numBytesPerPage ≤
      (Wavm.Emscripten.dynamicAlloc quotas inst numBytes commitSucceeds).2.1.memory.numPages.toNat *
        numBytesPerPage := Nat.mul_le_mul_right _ hgrow
  have hstack := hinv.stackMax_le
  cases hresult : (Wavm.Emscripten.dynamicAlloc quotas inst numBytes commitSucceeds).2.2 with
  | error e =>
    rw [regionOf, List.append_nil]
    exact ⟨hvalid, by omega, hinv.lo, fun r hr => by have := hold r hr; omega,
      fun r hr => Nat.le_trans (hinv.within r hr) hsize, hinv.apart⟩
  | ok address =>
    obtain ⟨rfl, hfit⟩ := hok address hresult
    -- the new region starts at the old pointer, where every old one has ended
    refine ⟨hvalid, by omega, ?_, ?_, ?_, ?_⟩
    · intro r hr
      rcases List.mem_append.1 hr with hr | hr
      · exact hinv.lo r hr
      · rw [regionOf, List.mem_singleton] at hr
        rw [hr]
        exact hstack
    · intro r hr
      rcases List.mem_append.1 hr with hr | hr
      · have := hold r hr
        omega
      · rw [regionOf, List.mem_singleton] at hr
        rw [hr]
        exact hend
    · intro r hr
      rcases List.mem_append.1 hr with hr | hr
      · exact Nat.le_trans (hinv.within r hr) hsize
      · rw [regionOf, List.mem_singleton] at hr
        rw [hr]
        dsimp only
        omega
    · rw [regionOf, List.pairwise_append]
      exact ⟨hinv.apart, List.pairwise_singleton _ _,
        fun r hr s hs => by rw [List.mem_singleton] at hs; rw [hs]; exact Or.inl (hold r hr)⟩

/-- **A run of calls keeps the invariant** while the sizes it asks for, each with its 15 bytes
of rounding, leave the pointer below `2 ^ 32`. -/
theorem allocated_dynamicAllocs (calls : List (UInt32 × Bool)) :
    ∀ (quotas : QuotaId → ResourceQuota) (inst : Instance QuotaId) (regions : List Region),
      Allocated inst regions →
      inst.dynamicTopPtr.toNat + (calls.map fun call => call.1.toNat + 15).sum < 2 ^ 32 →
      Allocated (dynamicAllocs quotas inst calls).2.1
        (regions ++ runRegions calls (dynamicAllocs quotas inst calls).2.2) := by
  induction calls with
  | nil =>
    intro quotas inst regions hinv _
    simpa [dynamicAllocs, runRegions] using hinv
  | cons call calls ih =>
    obtain ⟨numBytes, commitSucceeds⟩ := call
    intro quotas inst regions hinv hsum
    rw [List.map_cons, List.sum_cons] at hsum
    dsimp only at hsum
    -- the first call moves the pointer by at most its size and the rounding
    have hstep := @Allocated.dynamicAlloc _ _ inst regions hinv numBytes (by omega) quotas
      commitSucceeds
    have hptr : (dynamicAlloc quotas inst numBytes commitSucceeds).2.1.dynamicTopPtr.toNat ≤
        inst.dynamicTopPtr.toNat + numBytes.toNat + 15 := by
      rw [dynamicTopPtr_dynamicAlloc hinv.valid]
      exact (toNat_endAddress_of_lt (by omega)).2
    have hrest := ih (dynamicAlloc quotas inst numBytes commitSucceeds).1 _ _ hstep (by omega)
    simpa only [dynamicAllocs, runRegions, List.zip_cons_cons, List.flatMap_cons,
      List.append_assoc] using hrest

/-- **From `Emscripten::instantiate`, the regions are right** while the pointer stays below
`2 ^ 32`: each lies above `STACK_MAX` and inside the memory, and no two overlap. -/
theorem allocated_dynamicAllocs_instantiate {memory : Memory QuotaId} (hv : memory.Valid)
    (quotas : QuotaId → ResourceQuota) (calls : List (UInt32 × Bool))
    (hsum : stackMax.toNat + (calls.map fun call => call.1.toNat + 15).sum < 2 ^ 32) :
    Allocated (dynamicAllocs quotas (instantiate memory) calls).2.1
      (runRegions calls (dynamicAllocs quotas (instantiate memory) calls).2.2) := by
  simpa using allocated_dynamicAllocs calls quotas (instantiate memory) [] (allocated_instantiate hv) hsum

/-! ## Wrapping -/

/-- **A size of `2^32 - 16` wraps the end** to 16 bytes below an aligned pointer that lies
inside the memory: the call succeeds without growing anything, returns the pointer, and moves
it back by 16. -/
theorem dynamicAlloc_of_wrap {inst : Instance QuotaId} (hv : inst.memory.Valid)
    (haligned : 16 ∣ inst.dynamicTopPtr.toNat) (hpos : 16 ≤ inst.dynamicTopPtr.toNat)
    (hinside : inst.dynamicTopPtr.toNat ≤ inst.memory.numPages.toNat * numBytesPerPage)
    (quotas : QuotaId → ResourceQuota) (commitSucceeds : Bool) :
    dynamicAlloc quotas inst (-16) commitSucceeds =
      (quotas, { inst with dynamicTopPtr := inst.dynamicTopPtr - 16 }, .ok inst.dynamicTopPtr) := by
  have hsub : (inst.dynamicTopPtr - 16).toNat = inst.dynamicTopPtr.toNat - 16 :=
    UInt32.toNat_sub_of_le _ _ (UInt32.le_iff_toNat_le.2 (show (16 : UInt32).toNat ≤ _ from hpos))
  have hend : endAddress inst.dynamicTopPtr (-16) = inst.dynamicTopPtr - 16 := by
    have hneg : (-16 : UInt32).toNat = 4294967280 := rfl
    apply UInt32.toNat_inj.1
    rw [toNat_endAddress, hsub, hneg]
    have := inst.dynamicTopPtr.toNat_lt
    omega
  have hfits : ¬ (endAddress inst.dynamicTopPtr (-16)).toUInt64 >
      inst.memory.numPages * UInt64.ofNat numBytesPerPage := by
    rw [gt_iff_lt, UInt64.lt_iff_toNat_lt, toNat_numBytes hv, UInt32.toNat_toUInt64, hend, hsub]
    omega
  unfold dynamicAlloc
  dsimp only
  rw [if_neg hfits, hend]

/-- **Two calls from `Emscripten::instantiate` break the allocator**: `2^32 - 16` bytes are
given `STACK_MAX`, a region that runs past the end of any memory, and the next 16 bytes are
given `STACK_MAX - 16`, inside the stack. -/
theorem dynamicAllocs_wraps_into_stack {memory : Memory QuotaId} (hv : memory.Valid)
    (hmin : 128 ≤ memory.numPages.toNat) (quotas : QuotaId → ResourceQuota)
    (commitSucceeds commitSucceeds' : Bool) :
    dynamicAllocs quotas (instantiate memory) [(-16, commitSucceeds), (16, commitSucceeds')] =
        (quotas, instantiate memory, [.ok stackMax, .ok (stackMax - 16)]) ∧
      memory.numPages.toNat * numBytesPerPage < stackMax.toNat + (-16 : UInt32).toNat ∧
      (stackMax - 16).toNat + 16 ≤ stackMax.toNat := by
  have hstack : stackMax.toNat = 2 ^ 23 := rfl
  have hmax : memory.numPages.toNat ≤ 65536 := hv.numPages_le_maxMemoryPages
  have hinside : stackMax.toNat ≤ memory.numPages.toNat * numBytesPerPage := by
    rw [hstack, numBytesPerPage]
    omega
  -- the first call wraps; the second ends at `STACK_MAX` again, inside the memory
  have hfirst := @dynamicAlloc_of_wrap _ _ (instantiate memory) hv
    (show 16 ∣ stackMax.toNat by decide) (show 16 ≤ stackMax.toNat by decide) hinside quotas
    commitSucceeds
  have hsecond : dynamicAlloc quotas { memory, dynamicTopPtr := stackMax - 16 } 16
      commitSucceeds' = (quotas, { memory, dynamicTopPtr := stackMax }, .ok (stackMax - 16)) := by
    have hend : endAddress (stackMax - 16) 16 = stackMax := by decide
    have hfits : ¬ (endAddress (stackMax - 16) 16).toUInt64 >
        memory.numPages * UInt64.ofNat numBytesPerPage := by
      rw [gt_iff_lt, UInt64.lt_iff_toNat_lt, toNat_numBytes hv, UInt32.toNat_toUInt64, hend]
      omega
    unfold dynamicAlloc
    dsimp only
    rw [if_neg hfits, hend]
  refine ⟨?_, ?_, by decide⟩
  · rw [dynamicAllocs, hfirst]
    dsimp only [instantiate]
    rw [dynamicAllocs, hsecond]
    rfl
  · have : (-16 : UInt32).toNat = 2 ^ 32 - 16 := rfl
    rw [hstack, this, numBytesPerPage]
    omega

/-- The two calls on a memory of 128 pages. -/
theorem dynamicAllocs_wraps_into_stack_128 :
    (⟨0, ⟨false, ⟨128, 128⟩⟩, 128, none⟩ : Memory Empty).Valid ∧
      128 ≤ (⟨0, ⟨false, ⟨128, 128⟩⟩, 128, none⟩ : Memory Empty).numPages.toNat ∧
      dynamicAllocs Empty.elim (instantiate ⟨0, ⟨false, ⟨128, 128⟩⟩, 128, none⟩)
          [(-16, true), (16, true)] =
        (Empty.elim, instantiate ⟨0, ⟨false, ⟨128, 128⟩⟩, 128, none⟩,
          [.ok stackMax, .ok (stackMax - 16)]) ∧
      (⟨0, ⟨false, ⟨128, 128⟩⟩, 128, none⟩ : Memory Empty).numPages.toNat * numBytesPerPage <
        stackMax.toNat + (-16 : UInt32).toNat ∧
      (stackMax - 16).toNat + 16 ≤ stackMax.toNat :=
  have hv : (⟨0, ⟨false, ⟨128, 128⟩⟩, 128, none⟩ : Memory Empty).Valid := ⟨by decide, by decide⟩
  ⟨hv, by decide, dynamicAllocs_wraps_into_stack hv (by decide) Empty.elim true true⟩

end Wavm.Emscripten
