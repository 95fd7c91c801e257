import Mathlib

set_option relaxedAutoImplicit false
set_option autoImplicit false

/-!
# Runtime basics: machine words, exceptions and resource quotas

What the runtime modules share, from `src/Include/WAVM/Runtime/Runtime.h` and
`src/Lib/Runtime/RuntimePrivate.h`: the host word `Uptr` (a 64-bit host), the C++ integral
conversions the intrinsics rely on, the intrinsic exception types, and
`ResourceQuota::CurrentAndMax`, the counter that bounds the pages and table elements a group
of memories and tables may hold.

## Main definitions

* `Wavm.Runtime.Uptr`, `Wavm.Runtime.signExtendToUptr` — `Uptr`, and the conversion of an
  `I32` argument to `Uptr`.
* `Wavm.Runtime.ExceptionType` — `WAVM_ENUM_INTRINSIC_EXCEPTION_TYPES`.
* `Wavm.Runtime.CurrentAndMax`, `CurrentAndMax.allocate`, `CurrentAndMax.free`.

## Main results

* `Wavm.Runtime.toNat_signExtendToUptr` — an `I32` with the sign bit set becomes a value
  above `2^64 - 2^32`.
* `Wavm.Runtime.CurrentAndMax.allocate_eq_some_iff` — `allocate` succeeds exactly when the
  sum fits under `max`, with no wrap of the counter.
-/

namespace Wavm.Runtime

/-- `Uptr` on a 64-bit host. -/
abbrev Uptr := UInt64

/-- `UINTPTR_MAX`. -/
def uintptrMax : Uptr := 0xFFFFFFFFFFFFFFFF

/-- The C++ conversion `Uptr(I32 x)`: the 32-bit pattern read as a signed value and reduced
modulo `2^64`, which is sign extension. -/
def signExtendToUptr (address : UInt32) : Uptr :=
  UInt64.ofBitVec (address.toBitVec.signExtend 64)

/-- Sign extension keeps an address below `2^31` and moves one at or above it by
`2^64 - 2^32`. -/
theorem toNat_signExtendToUptr (address : UInt32) :
    (signExtendToUptr address).toNat =
      if address.toNat < 2 ^ 31 then address.toNat else address.toNat + (2 ^ 64 - 2 ^ 32) := by
  have hlt := address.toNat_lt
  simp only [signExtendToUptr, UInt64.toNat_ofBitVec, BitVec.toNat_signExtend,
    BitVec.toNat_setWidth, BitVec.msb_eq_decide, UInt32.toNat_toBitVec, decide_eq_true_eq]
  rw [Nat.mod_eq_of_lt (by omega)]
  -- the sign bit decides both sides
  split_ifs <;> omega

/-- **The size test of `growMemory` and `growTableImpl`**: the overflow-safe
`delta > max || old > max - delta` holds exactly when `old + delta` passes `max` over the
naturals. -/
theorem exceeds_iff (old delta max : Uptr) :
    (delta > max ∨ old > max - delta) ↔ max.toNat < old.toNat + delta.toNat := by
  simp only [gt_iff_lt, UInt64.lt_iff_toNat_lt]
  by_cases hd : delta.toNat ≤ max.toNat
  · rw [UInt64.toNat_sub_of_le _ _ (UInt64.le_iff_toNat_le.2 hd)]
    omega
  · omega

/-- The full size test of the grow functions, against the type's maximum and the absolute one:
when it passes, the new size is within both over the naturals. -/
theorem not_exceeds {old delta typeMax absoluteMax : Uptr}
    (h : ¬(delta > typeMax ∨ old > typeMax - delta ∨ delta > absoluteMax ∨ old > absoluteMax - delta)) :
    old.toNat + delta.toNat ≤ typeMax.toNat ∧ old.toNat + delta.toNat ≤ absoluteMax.toNat := by
  have h₁ := mt (exceeds_iff old delta typeMax).2 fun h' => h (h'.elim Or.inl (Or.inr ∘ Or.inl))
  have h₂ := mt (exceeds_iff old delta absoluteMax).2 fun h' => h (Or.inr (Or.inr h'))
  omega

/-- `I32(x)` of a size below `2^32 - 1` is not `-1`, the failure result of the grow
intrinsics. -/
theorem toInt32_ne_neg_one {x : Uptr} (h : x.toNat < 2 ^ 32 - 1) : x.toUInt32.toInt32 ≠ -1 := by
  intro heq
  have h₂ := congrArg (fun i : Int32 => i.toUInt32.toNat) heq
  have hm : ((-1 : Int32).toUInt32).toNat = 4294967295 := by decide
  simp only [hm, UInt32.toUInt32_toInt32, UInt64.toNat_toUInt32] at h₂
  omega

/-- The intrinsic exception types of `WAVM_ENUM_INTRINSIC_EXCEPTION_TYPES`. Their arguments
(the memory or table and the faulting index) are not modelled. -/
inductive ExceptionType
  | outOfBoundsMemoryAccess
  | outOfBoundsTableAccess
  | outOfBoundsDataSegmentAccess
  | outOfBoundsElemSegmentAccess
  | stackOverflow
  | integerDivideByZeroOrOverflow
  | invalidFloatOperation
  | invokeSignatureMismatch
  | reachedUnreachable
  | indirectCallSignatureMismatch
  | uninitializedTableElement
  | calledAbort
  | calledUnimplementedIntrinsic
  | outOfMemory
  | misalignedAtomicMemoryAccess
  | invalidArgument
  deriving DecidableEq, Repr

/-! ## Resource quotas -/

/-- `ResourceQuota::CurrentAndMax<Uptr>`: the amount in use and its bound. -/
structure CurrentAndMax where
  current : Uptr
  max : Uptr
  deriving DecidableEq, Repr

namespace CurrentAndMax

/-- `CurrentAndMax::allocate`: refuse a delta that wraps the counter or passes `max`;
`none` is the `false` return, which leaves the counter as it was. -/
def allocate (q : CurrentAndMax) (delta : Uptr) : Option CurrentAndMax :=
  if q.current + delta < q.current then none
  else if q.current + delta > q.max then none
  else some { q with current := q.current + delta }

/-- `CurrentAndMax::free`. -/
def free (q : CurrentAndMax) (delta : Uptr) : CurrentAndMax :=
  { q with current := q.current - delta }

/-- The wrap test of `allocate`: `current + delta < current` holds exactly when the sum does
not fit in 64 bits. -/
theorem add_lt_self_iff (a b : Uptr) : a + b < a ↔ 2 ^ 64 ≤ a.toNat + b.toNat := by
  rw [UInt64.lt_iff_toNat_lt, UInt64.toNat_add]
  have ha := a.toNat_lt
  have hb := b.toNat_lt
  constructor
  · intro h
    by_contra hc
    rw [Nat.mod_eq_of_lt (by omega)] at h
    omega
  · intro h
    rw [Nat.mod_eq_sub_mod h, Nat.mod_eq_of_lt (by omega)]
    omega

/-- **`allocate` in arithmetic terms**: it succeeds exactly when `current + delta ≤ max`
over the naturals, and then the new counter is that sum. -/
theorem allocate_eq_some_iff {q q' : CurrentAndMax} {delta : Uptr} :
    q.allocate delta = some q' ↔
      q.current.toNat + delta.toNat ≤ q.max.toNat ∧ q'.max = q.max ∧
        q'.current.toNat = q.current.toNat + delta.toNat := by
  have hmax := q.max.toNat_lt
  unfold allocate
  by_cases hwrap : q.current + delta < q.current
  · have h := (add_lt_self_iff _ _).1 hwrap
    simp only [hwrap, if_true, reduceCtorEq, false_iff]
    omega
  · have h := mt (add_lt_self_iff _ _).2 hwrap
    have hsum : (q.current + delta).toNat = q.current.toNat + delta.toNat := by
      rw [UInt64.toNat_add]; exact Nat.mod_eq_of_lt (by omega)
    simp only [hwrap, if_false, UInt64.lt_iff_toNat_lt, hsum]
    by_cases hle : q.max.toNat < q.current.toNat + delta.toNat
    · simp only [hle, if_true, reduceCtorEq, false_iff]
      omega
    · simp only [hle, if_false, Option.some.injEq]
      constructor
      · rintro rfl
        exact ⟨by omega, rfl, hsum⟩
      · rintro ⟨-, hm, hc⟩
        cases q'
        simp only at hm hc
        subst hm
        rw [← hsum] at hc
        simp [UInt64.toNat_inj.1 hc]

/-- `allocate` fails exactly when the sum passes `max`. -/
theorem allocate_eq_none_iff {q : CurrentAndMax} {delta : Uptr} :
    q.allocate delta = none ↔ q.max.toNat < q.current.toNat + delta.toNat := by
  constructor
  · intro h
    by_contra hle
    have hsome : q.allocate delta =
        some { q with current := UInt64.ofNat (q.current.toNat + delta.toNat) } := by
      have hmax := q.max.toNat_lt
      apply allocate_eq_some_iff.2
      refine ⟨by omega, rfl, ?_⟩
      simp only [UInt64.toNat_ofNat']
      exact Nat.mod_eq_of_lt (by omega)
    rw [h] at hsome
    cases hsome
  · intro h
    cases hq : q.allocate delta with
    | none => rfl
    | some q' =>
      have := (allocate_eq_some_iff.1 hq).1
      omega

/-- `free` of an amount in use subtracts it, without wrapping. -/
theorem toNat_free {q : CurrentAndMax} {delta : Uptr} (h : delta.toNat ≤ q.current.toNat) :
    (q.free delta).current.toNat = q.current.toNat - delta.toNat := by
  simp only [free, UInt64.toNat_sub_of_le _ _ (UInt64.le_iff_toNat_le.2 h)]

@[simp] theorem free_max (q : CurrentAndMax) (delta : Uptr) : (q.free delta).max = q.max := rfl

end CurrentAndMax

/-- `ResourceQuota`: the memory page and table element counters. -/
structure ResourceQuota where
  memoryPages : CurrentAndMax
  tableElems : CurrentAndMax
  deriving DecidableEq, Repr

/-- The two counters of a `ResourceQuota`: a memory charges its pages to `memoryPages`, a
table its elements to `tableElems`. -/
inductive QuotaCounter
  | memoryPages
  | tableElems
  deriving DecidableEq, Repr

namespace ResourceQuota

/-- One counter of the quota. -/
def counter (quota : ResourceQuota) : QuotaCounter → CurrentAndMax
  | .memoryPages => quota.memoryPages
  | .tableElems => quota.tableElems

/-- The quota with one counter replaced. -/
def setCounter (quota : ResourceQuota) : QuotaCounter → CurrentAndMax → ResourceQuota
  | .memoryPages, c => { quota with memoryPages := c }
  | .tableElems, c => { quota with tableElems := c }

@[simp] theorem counter_setCounter (quota : ResourceQuota) (c : QuotaCounter) (v : CurrentAndMax) :
    (quota.setCounter c v).counter c = v := by
  cases c <;> rfl

@[simp] theorem setCounter_counter (quota : ResourceQuota) (c : QuotaCounter) :
    quota.setCounter c (quota.counter c) = quota := by
  cases c <;> rfl

@[simp] theorem counter_setCounter_of_ne (quota : ResourceQuota) {c c' : QuotaCounter}
    (h : c ≠ c') (v : CurrentAndMax) : (quota.setCounter c v).counter c' = quota.counter c' := by
  cases c <;> cases c' <;> first | rfl | exact absurd rfl h

end ResourceQuota

/-! ## Charging a quota

Memories and tables hold a `ResourceQuotaRef`, a shared pointer to a quota or null; the
quotas are modelled by their identities `QuotaId`, and their state by a function from
identities to `ResourceQuota`. -/

section Charge

variable {QuotaId : Type} [DecidableEq QuotaId]

/-- The quota test of `growMemory` and `growTableImpl`:
`if(resourceQuota && !resourceQuota->counter.allocate(delta)) { return false; }`. -/
def allocateQuota (quotas : QuotaId → ResourceQuota) (resourceQuota : Option QuotaId)
    (c : QuotaCounter) (delta : Uptr) : Option (QuotaId → ResourceQuota) :=
  match resourceQuota with
  | none => some quotas
  | some q =>
    (((quotas q).counter c).allocate delta).map fun counter =>
      Function.update quotas q ((quotas q).setCounter c counter)

/-- `if(resourceQuota) { resourceQuota->counter.free(delta); }`. -/
def freeQuota (quotas : QuotaId → ResourceQuota) (resourceQuota : Option QuotaId)
    (c : QuotaCounter) (delta : Uptr) : QuotaId → ResourceQuota :=
  match resourceQuota with
  | none => quotas
  | some q => Function.update quotas q ((quotas q).setCounter c (((quotas q).counter c).free delta))

/-- What `amount` charged by an object of `resourceQuota` to its counter `c` adds to the
counter `c'` of the quota `q`. -/
def chargeOf (resourceQuota : Option QuotaId) (c : QuotaCounter) (amount : ℕ) (q : QuotaId)
    (c' : QuotaCounter) : ℕ :=
  if resourceQuota = some q ∧ c = c' then amount else 0

@[simp] theorem chargeOf_none (c : QuotaCounter) (amount : ℕ) (q : QuotaId) (c' : QuotaCounter) :
    chargeOf none c amount q c' = 0 := by
  simp [chargeOf]

theorem chargeOf_zero (resourceQuota : Option QuotaId) (c : QuotaCounter) (q : QuotaId)
    (c' : QuotaCounter) : chargeOf resourceQuota c 0 q c' = 0 := by
  simp [chargeOf]

/-- The counter `c'` of `q` after a change of the counter `c` of `q₀` to `v`. -/
theorem counter_update_setCounter (quotas : QuotaId → ResourceQuota) (q₀ : QuotaId)
    (c : QuotaCounter) (v : CurrentAndMax) (q : QuotaId) (c' : QuotaCounter) :
    ((Function.update quotas q₀ ((quotas q₀).setCounter c v)) q).counter c' =
      if q₀ = q ∧ c = c' then v else (quotas q).counter c' := by
  by_cases hq : q = q₀
  · subst hq
    by_cases hc : c = c'
    · subst hc; simp
    · simp [hc]
  · simp [hq, Ne.symm hq]

/-- **A charge that succeeds** adds `delta` to the counter of the object's quota and changes
nothing else. -/
theorem allocateQuota_spec {quotas quotas' : QuotaId → ResourceQuota}
    {resourceQuota : Option QuotaId} {c : QuotaCounter} {delta : Uptr}
    (h : allocateQuota quotas resourceQuota c delta = some quotas') (q : QuotaId)
    (c' : QuotaCounter) :
    ((quotas' q).counter c').current.toNat =
        ((quotas q).counter c').current.toNat + chargeOf resourceQuota c delta.toNat q c' ∧
      ((quotas' q).counter c').max = ((quotas q).counter c').max := by
  cases resourceQuota with
  | none =>
    cases h
    simp
  | some q₀ =>
    simp only [allocateQuota, Option.map_eq_some_iff] at h
    obtain ⟨counter, hcounter, rfl⟩ := h
    obtain ⟨-, hmax, hcur⟩ := CurrentAndMax.allocate_eq_some_iff.1 hcounter
    rw [counter_update_setCounter, chargeOf]
    by_cases hqc : q₀ = q ∧ c = c'
    · obtain ⟨rfl, rfl⟩ := hqc
      simp [hcur, hmax]
    · simp [hqc]

/-- A charge fails exactly when the object has a quota whose counter cannot take `delta`. -/
theorem allocateQuota_eq_none_iff {quotas : QuotaId → ResourceQuota}
    {resourceQuota : Option QuotaId} {c : QuotaCounter} {delta : Uptr} :
    allocateQuota quotas resourceQuota c delta = none ↔
      ∃ q, resourceQuota = some q ∧
        ((quotas q).counter c).max.toNat < ((quotas q).counter c).current.toNat + delta.toNat := by
  cases resourceQuota with
  | none => simp [allocateQuota]
  | some q₀ =>
    simp only [allocateQuota, Option.map_eq_none_iff, CurrentAndMax.allocate_eq_none_iff,
      Option.some.injEq, exists_eq_left']

/-- **A refund** of an amount in use takes it off the counter of the object's quota and
changes nothing else. -/
theorem freeQuota_spec {quotas : QuotaId → ResourceQuota} {resourceQuota : Option QuotaId}
    {c : QuotaCounter} {delta : Uptr}
    (h : ∀ q, resourceQuota = some q → delta.toNat ≤ ((quotas q).counter c).current.toNat)
    (q : QuotaId) (c' : QuotaCounter) :
    ((freeQuota quotas resourceQuota c delta q).counter c').current.toNat +
        chargeOf resourceQuota c delta.toNat q c' = ((quotas q).counter c').current.toNat ∧
      ((freeQuota quotas resourceQuota c delta q).counter c').max = ((quotas q).counter c').max := by
  cases resourceQuota with
  | none => simp [freeQuota]
  | some q₀ =>
    rw [freeQuota, counter_update_setCounter, chargeOf]
    by_cases hqc : q₀ = q ∧ c = c'
    · obtain ⟨rfl, rfl⟩ := hqc
      have hle := h q₀ rfl
      simp only [and_self, if_true, CurrentAndMax.toNat_free hle, CurrentAndMax.free_max]
      exact ⟨Nat.sub_add_cancel hle, trivial⟩
    · simp [hqc]

/-- A refund of what was just charged restores the quotas: the failure exits of the grow
functions leave the counters as they were. -/
theorem freeQuota_of_allocateQuota {quotas quotas' : QuotaId → ResourceQuota}
    {resourceQuota : Option QuotaId} {c : QuotaCounter} {delta : Uptr}
    (h : allocateQuota quotas resourceQuota c delta = some quotas') :
    freeQuota quotas' resourceQuota c delta = quotas := by
  cases resourceQuota with
  | none =>
    cases h
    rfl
  | some q₀ =>
    simp only [allocateQuota, Option.map_eq_some_iff] at h
    obtain ⟨counter, hcounter, rfl⟩ := h
    have hcounter' : counter = { (quotas q₀).counter c with
        current := ((quotas q₀).counter c).current + delta } := by
      unfold CurrentAndMax.allocate at hcounter
      split_ifs at hcounter
      exact (Option.some.inj hcounter).symm
    funext q
    by_cases hq : q = q₀
    · subst hq
      cases c <;>
        simp [freeQuota, ResourceQuota.setCounter, ResourceQuota.counter, hcounter',
          CurrentAndMax.free]
    · simp [freeQuota, hq]

theorem chargeOf_add (resourceQuota : Option QuotaId) (c : QuotaCounter) (a b : ℕ) (q : QuotaId)
    (c' : QuotaCounter) :
    chargeOf resourceQuota c (a + b) q c' = chargeOf resourceQuota c a q c' + chargeOf resourceQuota c b q c' := by
  unfold chargeOf
  split_ifs <;> rfl

/-- A refund of nothing, what the destructor of an object that never grew does. -/
@[simp] theorem freeQuota_zero (quotas : QuotaId → ResourceQuota) (resourceQuota : Option QuotaId)
    (c : QuotaCounter) : freeQuota quotas resourceQuota c 0 = quotas := by
  cases resourceQuota with
  | none => rfl
  | some q₀ =>
    have hfree : ((quotas q₀).counter c).free 0 = (quotas q₀).counter c := by
      simp [CurrentAndMax.free]
    rw [freeQuota, hfree, ResourceQuota.setCounter_counter, Function.update_eq_self]

/-! ## Quota bookkeeping

The runtime keeps each counter in use equal to the sum of what the live objects charge to it.
`Recharged` says how one operation moves the counters: by exactly the change of one object's
charge. -/

/-- The amount in use of the counter `c` of `q`. -/
def inUse (quotas : QuotaId → ResourceQuota) (q : QuotaId) (c : QuotaCounter) : ℕ :=
  ((quotas q).counter c).current.toNat

/-- No counter is over its maximum. -/
def WithinMax (quotas : QuotaId → ResourceQuota) : Prop :=
  ∀ q c, inUse quotas q c ≤ ((quotas q).counter c).max.toNat

/-- `quotas'` is `quotas` after an object's charge changed from `before` to `after`. -/
def Recharged (quotas quotas' : QuotaId → ResourceQuota) (before after : QuotaId → QuotaCounter → ℕ) :
    Prop :=
  ∀ q c, inUse quotas' q c + before q c = inUse quotas q c + after q c

omit [DecidableEq QuotaId] in
theorem Recharged.refl (quotas : QuotaId → ResourceQuota) (charge : QuotaId → QuotaCounter → ℕ) :
    Recharged quotas quotas charge charge := fun _ _ => rfl

omit [DecidableEq QuotaId] in
theorem Recharged.trans {quotas₁ quotas₂ quotas₃ : QuotaId → ResourceQuota}
    {charge₁ charge₂ charge₃ : QuotaId → QuotaCounter → ℕ} (h₁ : Recharged quotas₁ quotas₂ charge₁ charge₂)
    (h₂ : Recharged quotas₂ quotas₃ charge₂ charge₃) : Recharged quotas₁ quotas₃ charge₁ charge₃ := by
  intro q c
  have h₁ := h₁ q c
  have h₂ := h₂ q c
  omega

theorem recharged_allocateQuota {quotas quotas' : QuotaId → ResourceQuota}
    {resourceQuota : Option QuotaId} {c : QuotaCounter} {delta : Uptr}
    (h : allocateQuota quotas resourceQuota c delta = some quotas') :
    Recharged quotas quotas' (fun _ _ => 0) (chargeOf resourceQuota c delta.toNat) := by
  intro q c'
  rw [inUse, inUse, (allocateQuota_spec h q c').1]
  rfl

theorem recharged_freeQuota {quotas : QuotaId → ResourceQuota} {resourceQuota : Option QuotaId}
    {c : QuotaCounter} {delta : Uptr} (h : ∀ q, resourceQuota = some q → delta.toNat ≤ inUse quotas q c) :
    Recharged quotas (freeQuota quotas resourceQuota c delta) (chargeOf resourceQuota c delta.toNat)
      (fun _ _ => 0) := by
  intro q c'
  rw [Nat.add_zero]
  exact (freeQuota_spec h q c').1

/-- A charge that succeeds had room under the maximum. -/
theorem allocateQuota_headroom {quotas quotas' : QuotaId → ResourceQuota}
    {resourceQuota : Option QuotaId} {c : QuotaCounter} {delta : Uptr}
    (h : allocateQuota quotas resourceQuota c delta = some quotas') (q : QuotaId)
    (hq : resourceQuota = some q) : inUse quotas q c + delta.toNat ≤ ((quotas q).counter c).max.toNat := by
  subst hq
  simp only [allocateQuota, Option.map_eq_some_iff] at h
  obtain ⟨counter, hcounter, -⟩ := h
  exact (CurrentAndMax.allocate_eq_some_iff.1 hcounter).1

theorem WithinMax.allocateQuota {quotas quotas' : QuotaId → ResourceQuota}
    {resourceQuota : Option QuotaId} {c : QuotaCounter} {delta : Uptr} (hw : WithinMax quotas)
    (h : allocateQuota quotas resourceQuota c delta = some quotas') : WithinMax quotas' := by
  cases resourceQuota with
  | none =>
    cases h
    exact hw
  | some q₀ =>
    simp only [Wavm.Runtime.allocateQuota, Option.map_eq_some_iff] at h
    obtain ⟨counter, hcounter, rfl⟩ := h
    obtain ⟨hle, hmax, hcur⟩ := CurrentAndMax.allocate_eq_some_iff.1 hcounter
    intro q c'
    simp only [inUse, counter_update_setCounter]
    split_ifs with hqc
    · rw [hcur, hmax]
      exact hle
    · exact hw q c'

theorem WithinMax.freeQuota {quotas : QuotaId → ResourceQuota} {resourceQuota : Option QuotaId}
    {c : QuotaCounter} {delta : Uptr} (hw : WithinMax quotas)
    (h : ∀ q, resourceQuota = some q → delta.toNat ≤ inUse quotas q c) :
    WithinMax (Wavm.Runtime.freeQuota quotas resourceQuota c delta) := by
  intro q c'
  obtain ⟨hcur, hmax⟩ := freeQuota_spec h q c'
  have hle := hw q c'
  simp only [inUse] at hle ⊢
  rw [hmax]
  omega

/-! ## The growth protocol -/

/-- The growth protocol of `growMemory` and `growTableImpl`. A zero `delta` succeeds at once
with the old size. Otherwise the quota is charged first; if the new size passes a maximum
(`exceedsMax`) or the platform cannot commit it (`commitFails`), the charge is refunded and
the object is left as it was; else the object becomes `grown`. The result is the old size, or
`none` for a `false` return. -/
def growWithQuota {σ : Type} (quotas : QuotaId → ResourceQuota) (resourceQuota : Option QuotaId)
    (c : QuotaCounter) (object : σ) (oldSize delta : Uptr) (exceedsMax commitFails : Bool)
    (grown : σ) : (QuotaId → ResourceQuota) × σ × Option Uptr :=
  if delta = 0 then (quotas, object, some oldSize)
  else
    match allocateQuota quotas resourceQuota c delta with
    | none => (quotas, object, none)
    | some quotas' =>
      if exceedsMax then (freeQuota quotas' resourceQuota c delta, object, none)
      else if commitFails then (freeQuota quotas' resourceQuota c delta, object, none)
      else (quotas', grown, some oldSize)

section Grow

variable {σ : Type} (quotas : QuotaId → ResourceQuota) (resourceQuota : Option QuotaId)
  (c : QuotaCounter) (object : σ) (oldSize delta : Uptr) (exceedsMax commitFails : Bool) (grown : σ)

/-- **What a grow can do**: fail and change nothing (every refund restores the quotas), succeed
with a zero delta and change nothing, or charge a nonzero delta that passed both tests. -/
theorem growWithQuota_cases :
    growWithQuota quotas resourceQuota c object oldSize delta exceedsMax commitFails grown =
        (quotas, object, none) ∨
      (delta = 0 ∧ growWithQuota quotas resourceQuota c object oldSize delta exceedsMax commitFails grown =
        (quotas, object, some oldSize)) ∨
      (delta ≠ 0 ∧ exceedsMax = false ∧ commitFails = false ∧ ∃ quotas',
        allocateQuota quotas resourceQuota c delta = some quotas' ∧
        growWithQuota quotas resourceQuota c object oldSize delta exceedsMax commitFails grown =
          (quotas', grown, some oldSize)) := by
  unfold growWithQuota
  by_cases h0 : delta = 0
  · exact Or.inr (Or.inl ⟨h0, by rw [if_pos h0]⟩)
  rw [if_neg h0]
  cases ha : allocateQuota quotas resourceQuota c delta with
  | none => exact Or.inl rfl
  | some quotas' =>
    have hfree := freeQuota_of_allocateQuota ha
    -- the two refund exits give the quotas back
    cases exceedsMax with
    | true => exact Or.inl (by dsimp only; simp only [↓reduceIte, hfree])
    | false =>
      cases commitFails with
      | true => exact Or.inl (by dsimp only; simp only [Bool.false_eq_true, ↓reduceIte, hfree])
      | false => exact Or.inr (Or.inr ⟨h0, rfl, rfl, quotas', rfl, rfl⟩)

/-- A grow moves the counters by exactly the change of the object's charge, when a successful
grow adds `delta` to it. -/
theorem growWithQuota_recharged (charge : σ → QuotaId → QuotaCounter → ℕ)
    (hgrown : exceedsMax = false →
      ∀ q c', charge grown q c' = charge object q c' + chargeOf resourceQuota c delta.toNat q c') :
    Recharged quotas
      (growWithQuota quotas resourceQuota c object oldSize delta exceedsMax commitFails grown).1
      (charge object)
      (charge (growWithQuota quotas resourceQuota c object oldSize delta exceedsMax commitFails grown).2.1) := by
  rcases growWithQuota_cases quotas resourceQuota c object oldSize delta exceedsMax commitFails grown with
    h | ⟨-, h⟩ | ⟨-, hx, -, quotas', ha, h⟩
  · rw [h]
    exact Recharged.refl _ _
  · rw [h]
    exact Recharged.refl _ _
  · rw [h]
    intro q c'
    have hq := recharged_allocateQuota ha q c'
    dsimp only at hq ⊢
    rw [hgrown hx q c']
    omega

theorem growWithQuota_withinMax (hw : WithinMax quotas) :
    WithinMax (growWithQuota quotas resourceQuota c object oldSize delta exceedsMax commitFails grown).1 := by
  rcases growWithQuota_cases quotas resourceQuota c object oldSize delta exceedsMax commitFails grown with
    h | ⟨-, h⟩ | ⟨-, -, -, quotas', ha, h⟩
  · rw [h]
    exact hw
  · rw [h]
    exact hw
  · rw [h]
    exact hw.allocateQuota ha

/-- A grow that succeeds had room for `delta` under the quota's maximum. -/
theorem growWithQuota_headroom (hw : WithinMax quotas) {old : Uptr}
    (h : (growWithQuota quotas resourceQuota c object oldSize delta exceedsMax commitFails grown).2.2 =
      some old) (q : QuotaId) (hq : resourceQuota = some q) :
    inUse quotas q c + delta.toNat ≤ ((quotas q).counter c).max.toNat := by
  rcases growWithQuota_cases quotas resourceQuota c object oldSize delta exceedsMax commitFails grown with
    h' | ⟨h0, -⟩ | ⟨-, -, -, quotas', ha, -⟩
  · rw [h'] at h
    cases h
  · rw [h0, UInt64.toNat_zero, Nat.add_zero]
    exact hw q c
  · exact allocateQuota_headroom ha q hq

end Grow

end Charge

end Wavm.Runtime
