import Mathlib

set_option relaxedAutoImplicit false
set_option autoImplicit false

/-!
# Platform intrinsics

The word intrinsics of `src/Include/WAVM/Platform/Intrinsic.h` that the modelled code uses:
`countLeadingZeroes`, `countTrailingZeroes` and `ceilLogTwo` on `U64`, and
`addAndCheckOverflow` on `U64` and on `I64`.

## Main definitions

* `Wavm.countLeadingZeroes`, `Wavm.countTrailingZeroes`, `Wavm.ceilLogTwo`.
* `Wavm.addAndCheckOverflowU64`, `Wavm.addAndCheckOverflowI64` — the two overloads of
  `addAndCheckOverflow`: the wrapped sum and whether the exact sum leaves the type.

## Main results

* `Wavm.toNat_countLeadingZeroes`, `Wavm.toNat_ceilLogTwo` — the counts as binary logarithms.
* `Wavm.toNat_addAndCheckOverflowU64`, `Wavm.addAndCheckOverflowU64_eq_true_iff`,
  `Wavm.toInt_addAndCheckOverflowI64`, `Wavm.addAndCheckOverflowI64_eq_true_iff` — the sum
  and the flag of each overload.

## Implementation notes

`addAndCheckOverflow` is the GCC and Clang build, `__builtin_add_overflow`, whose flag is
exact. The fallback of other compilers tests the sign of the wrapped sum, which misses the
signed overflow of `INT64_MIN + INT64_MIN`; it is not modelled.
-/

namespace Wavm

/-! ## Counting bits -/

/-- `countLeadingZeroes` on `U64`: `__builtin_clzll`, and `64` for zero. -/
def countLeadingZeroes (value : UInt64) : UInt64 :=
  if value = 0 then 64 else UInt64.ofNat (63 - Nat.log2 value.toNat)

/-- `ceilLogTwo` on `U64`. -/
def ceilLogTwo (value : UInt64) : UInt64 :=
  if value ≤ 1 then 0 else 63 - countLeadingZeroes (value * 2 - 1)

/-- `countLeadingZeroes` of a non-zero value is `63` less its binary logarithm. -/
theorem toNat_countLeadingZeroes {value : UInt64} (hv : value ≠ 0) :
    (countLeadingZeroes value).toNat = 63 - Nat.log2 value.toNat := by
  rw [countLeadingZeroes, if_neg hv, UInt64.toNat_ofNat', Nat.mod_eq_of_lt (by omega)]

/-- `ceilLogTwo` is the binary logarithm of `2 * value - 1`, for values without overflow. -/
theorem toNat_ceilLogTwo {value : UInt64} (h2 : 2 ≤ value.toNat) (hv : value.toNat ≤ 2 ^ 62) :
    (ceilLogTwo value).toNat = Nat.log2 (2 * value.toNat - 1) := by
  have hm : (value * 2 - 1).toNat = 2 * value.toNat - 1 := by
    have h1 : (1 : UInt64) ≤ value * 2 := by
      rw [UInt64.le_iff_toNat_le, UInt64.toNat_mul, UInt64.toNat_one, Nat.mod_eq_of_lt (by simp; omega)]
      simp; omega
    rw [UInt64.toNat_sub_of_le _ _ h1, UInt64.toNat_mul, UInt64.toNat_one, Nat.mod_eq_of_lt (by simp; omega)]
    simp; omega
  have hne : value * 2 - 1 ≠ 0 := by
    intro h; have := congrArg UInt64.toNat h; rw [hm] at this; simp at this; omega
  have hlog : Nat.log2 (2 * value.toNat - 1) < 63 := (Nat.log2_lt (by omega)).2 (by omega)
  have hclz := toNat_countLeadingZeroes hne
  rw [hm] at hclz
  rw [ceilLogTwo, if_neg (by rw [UInt64.le_iff_toNat_le]; simp; omega),
    UInt64.toNat_sub_of_le _ _ (by rw [UInt64.le_iff_toNat_le, hclz]; simp), hclz]
  simp
  omega

/-- `2 ^ ceilLogTwo value` is the least power of two at or above `value`. -/
theorem two_pow_ceilLogTwo {value : UInt64} (h2 : 2 ≤ value.toNat) (hv : value.toNat ≤ 2 ^ 62) :
    value.toNat ≤ 2 ^ (ceilLogTwo value).toNat ∧ 2 ^ (ceilLogTwo value).toNat < 2 * value.toNat := by
  rw [toNat_ceilLogTwo h2 hv]
  have hlt : 2 * value.toNat - 1 < 2 ^ (Nat.log2 (2 * value.toNat - 1) + 1) := Nat.lt_log2_self
  have hle : 2 ^ Nat.log2 (2 * value.toNat - 1) ≤ 2 * value.toNat - 1 := Nat.log2_self_le (by omega)
  rw [Nat.pow_succ] at hlt
  omega

theorem toNat_one_shiftLeft {c : UInt64} (hc : c.toNat < 64) :
    ((1 : UInt64) <<< c).toNat = 2 ^ c.toNat := by
  rw [UInt64.toNat_shiftLeft, Nat.mod_eq_of_lt hc, UInt64.toNat_one, Nat.one_shiftLeft,
    Nat.mod_eq_of_lt (Nat.pow_lt_pow_right (by omega) hc)]

/-- `countTrailingZeroes` on `U64`: `__builtin_ctzll`, the number of low bits that are zero,
and `64` for zero. -/
def countTrailingZeroes (value : UInt64) : UInt64 :=
  UInt64.ofNat ((List.range 64).takeWhile (fun i => !value.toNat.testBit i)).length

/-! ## Adding with an overflow flag -/

/-- `addAndCheckOverflow` on `U64`: the sum modulo `2^64`, and whether it wrapped. -/
def addAndCheckOverflowU64 (a b : UInt64) : UInt64 × Bool :=
  (a + b, decide (2 ^ 64 ≤ a.toNat + b.toNat))

/-- `addAndCheckOverflow` on `I64`: the sum modulo `2^64`, and whether the exact sum leaves
`[INT64_MIN, INT64_MAX]`. -/
def addAndCheckOverflowI64 (a b : Int64) : Int64 × Bool :=
  (a + b, decide (a.toInt + b.toInt < -2 ^ 63 ∨ 2 ^ 63 ≤ a.toInt + b.toInt))

theorem toNat_addAndCheckOverflowU64 (a b : UInt64) :
    (addAndCheckOverflowU64 a b).1.toNat = (a.toNat + b.toNat) % 2 ^ 64 :=
  UInt64.toNat_add a b

@[simp] theorem addAndCheckOverflowU64_eq_true_iff {a b : UInt64} :
    (addAndCheckOverflowU64 a b).2 = true ↔ 2 ^ 64 ≤ a.toNat + b.toNat :=
  decide_eq_true_iff

/-- The sum of `I64`, wrapped into `[INT64_MIN, INT64_MAX]`. -/
theorem toInt_add_int64 (x y : Int64) : (x + y).toInt =
    if x.toInt + y.toInt < -2 ^ 63 then x.toInt + y.toInt + 2 ^ 64
    else if 2 ^ 63 ≤ x.toInt + y.toInt then x.toInt + y.toInt - 2 ^ 64
    else x.toInt + y.toInt := by
  have hx := Int64.le_toInt x
  have hx' := Int64.toInt_lt x
  have hy := Int64.le_toInt y
  have hy' := Int64.toInt_lt y
  rw [Int64.toInt_add, Int.bmod_def]
  split_ifs <;> omega

/-- Without overflow the sum of `I64` is exact. -/
theorem toInt_addAndCheckOverflowI64 {a b : Int64} (h : (addAndCheckOverflowI64 a b).2 = false) :
    (addAndCheckOverflowI64 a b).1.toInt = a.toInt + b.toInt := by
  simp only [addAndCheckOverflowI64, decide_eq_false_iff_not, not_or] at h
  rw [addAndCheckOverflowI64, toInt_add_int64, if_neg h.1, if_neg h.2]

@[simp] theorem addAndCheckOverflowI64_eq_true_iff {a b : Int64} :
    (addAndCheckOverflowI64 a b).2 = true ↔
      a.toInt + b.toInt < -2 ^ 63 ∨ 2 ^ 63 ≤ a.toInt + b.toInt :=
  decide_eq_true_iff

end Wavm
