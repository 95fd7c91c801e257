import Mathlib
import Wavm.Inline.I128

set_option relaxedAutoImplicit false
set_option autoImplicit false

/-!
# What an `I128` stands for

The integer of an `I128` is `highI64 * 2^64 + lowU64` (`Wavm.I128.toInt`), in the range
`(-2^127, 2^127)` for every value but NaN, whose pattern is that of `-2^127`. Against it:

* negation is exact, and NaN propagates through `+`, `-` and `*`;
* `addAndCheckOverflow` flags an overflow of the signed sum of the high words even when the
  carry of the low words brings it back: a sum `highI64 = -2^63 - 1` before the carry is
  flagged, so `a + b` is NaN for sums in `(-2^127, -2^127 + 2^64)` that are in range; every
  other sum is exact in range and NaN out of it;
* `mulAndCheckOverflow` shifts the limb product `a0 * b3` left by 32 within a word, losing its
  high half, so `4 * 2^126` is `0` with no overflow;
* the comparisons read the low words as signed, so `2^63 < 0`;
* `udivmod` returns `n.lowU64 * 2^64` for `n < 2^64 ≤ d`, as the initializer `{0, n.lowU64}`
  selects the constructor `I128(U64 inLow, U64 inHigh)`, and leaves the remainder unset, so
  `5 / 2^64 = 5 * 2^64` and `5 % 2^64 = 0`;
* `operator I32` passes `2^63` and `-2^64`, `asFloat` takes the sign from the comparison
  above, so `F64(2^63)` is negative, and `F32` keeps the bits of the significand that `F64`
  would, below the 23 of its field, so `F32(3) = 2`.

## Main definitions

* `Wavm.I128.toInt` — the integer of an `I128`; `Wavm.I128.InRange` — its range.

## Main results

* `Wavm.I128.isNaN_iff_toInt` — NaN is the pattern of `-2^127`.
* `Wavm.I128.toInt_neg`, `Wavm.I128.add_eq_nan_of_isNaN`, `Wavm.I128.mul_eq_nan_of_isNaN`.
* `Wavm.I128.addAndCheckOverflow_eq_true_iff`, `Wavm.I128.toInt_add`,
  `Wavm.I128.add_eq_nan_of_not_inRange`, `Wavm.I128.add_nan_in_range` — addition is exact in
  range and NaN out of it, but for the sums whose high words overflow before the carry.
* `Wavm.I128.mul_four_two_pow_126` — a product out of range that is not NaN.
* `Wavm.I128.eq_eq_decide`, `Wavm.I128.lt_eq_decide`, `Wavm.I128.lt_zero_of_high_eq_zero` —
  where `<` agrees with the integers, and where it does not.
* `Wavm.I128.udivmod_of_high_eq_zero`, `Wavm.I128.div_rem_of_lt_two_pow_64` — the branch of
  `udivmod` for `n < 2^64 ≤ d`.
* `Wavm.I128.toU32_eq_some_iff`, `Wavm.I128.toU64_eq_some_iff`, `Wavm.I128.toI64_eq_some_iff`,
  `Wavm.I128.toI32_of_high_eq_zero`,
  `Wavm.I128.asFloat_sign_of_high_eq_zero`, `Wavm.I128.toF32_ofU64_of_lt` — the conversions.
-/

namespace Wavm.I128

/-! ## The integer of an `I128` -/

/-- The integer an `I128` stands for. -/
def toInt (a : I128) : ℤ := a.highI64.toInt * 2 ^ 64 + a.lowU64.toNat

/-- The range of the non-NaN values, `(-2^127, 2^127)`. -/
def InRange (z : ℤ) : Prop := -2 ^ 127 < z ∧ z < 2 ^ 127

instance (z : ℤ) : Decidable (InRange z) := inferInstanceAs (Decidable (_ ∧ _))

/-- A word read as signed. -/
theorem toInt_toInt64 (x : UInt64) :
    x.toInt64.toInt = if 2 * x.toNat < 2 ^ 64 then (x.toNat : ℤ) else (x.toNat : ℤ) - 2 ^ 64 := by
  rw [Int64.toInt, UInt64.toBitVec_toInt64, BitVec.toInt_eq_toNat_cond]
  rfl

theorem toInt_highI64 (a : I128) : a.highI64.toInt =
    if 2 * a.highU64.toNat < 2 ^ 64 then (a.highU64.toNat : ℤ) else (a.highU64.toNat : ℤ) - 2 ^ 64 :=
  toInt_toInt64 a.highU64

@[simp] theorem highI64_ofLowHigh (inLow : UInt64) (inHigh : Int64) :
    (ofLowHigh inLow inHigh).highI64 = inHigh := rfl

@[simp] theorem lowU64_ofLowHigh (inLow : UInt64) (inHigh : Int64) :
    (ofLowHigh inLow inHigh).lowU64 = inLow := rfl

theorem toInt_ofLowHigh (inLow : UInt64) (inHigh : Int64) :
    toInt (ofLowHigh inLow inHigh) = inHigh.toInt * 2 ^ 64 + inLow.toNat := rfl

/-- The integer of every pattern lies in `[-2^127, 2^127)`. -/
theorem toInt_bounds (a : I128) : -2 ^ 127 ≤ toInt a ∧ toInt a < 2 ^ 127 := by
  have hh := Int64.le_toInt a.highI64
  have hh' := Int64.toInt_lt a.highI64
  have hl := UInt64.toNat_lt a.lowU64
  simp only [toInt]
  omega

theorem isNaN_eq_true_iff {a : I128} :
    a.isNaN = true ↔ a.highI64.toInt = -2 ^ 63 ∧ a.lowU64.toNat = 0 := by
  rw [isNaN, Bool.and_eq_true, beq_iff_eq, beq_iff_eq, ← Int64.toInt_inj, ← UInt64.toNat_inj]
  rfl

/-- **NaN is the pattern of `-2^127`.** -/
theorem isNaN_iff_toInt {a : I128} : a.isNaN = true ↔ toInt a = -2 ^ 127 := by
  have hh := Int64.le_toInt a.highI64
  have hh' := Int64.toInt_lt a.highI64
  have hl := UInt64.toNat_lt a.lowU64
  rw [isNaN_eq_true_iff, toInt]
  omega

/-- Every value but NaN is in range. -/
theorem inRange_toInt {a : I128} (ha : a.isNaN = false) : InRange (toInt a) := by
  have hnan : toInt a ≠ -2 ^ 127 := fun h => by
    rw [← isNaN_iff_toInt, ha] at h
    cases h
  have := toInt_bounds a
  exact ⟨by omega, this.2⟩

@[simp] theorem isNaN_nan : nan.isNaN = true := by decide

theorem toInt_injective : Function.Injective toInt := by
  intro a b h
  have ha := UInt64.toNat_lt a.lowU64
  have hb := UInt64.toNat_lt b.lowU64
  have hha := Int64.le_toInt a.highI64
  have hhb := Int64.le_toInt b.highI64
  simp only [toInt] at h
  have hlow : a.lowU64.toNat = b.lowU64.toNat := by omega
  have hhigh : a.highI64.toInt = b.highI64.toInt := by omega
  rw [UInt64.toNat_inj] at hlow
  rw [Int64.toInt_inj] at hhigh
  rcases a with ⟨al, ah⟩
  rcases b with ⟨bl, bh⟩
  change al = bl at hlow
  change ah.toInt64 = bh.toInt64 at hhigh
  rw [hlow, show ah = bh from congrArg Int64.toUInt64 hhigh]

/-- The integer of an `I128` from the natural numbers of its words. -/
theorem toInt_eq (a : I128) : toInt a =
    (if 2 * a.highU64.toNat < 2 ^ 64 then (a.highU64.toNat : ℤ) else (a.highU64.toNat : ℤ) - 2 ^ 64) *
      2 ^ 64 + a.lowU64.toNat := by
  rw [toInt, toInt_highI64]

theorem toInt_ofU64 (v : UInt64) : toInt (ofU64 v) = v.toNat := by
  rw [toInt, show (ofU64 v).highI64.toInt = 0 from rfl, Int.zero_mul, Int.zero_add]
  rfl

/-! ## Negation and NaN -/

/-- Negation complements both words and adds one, carrying out of a zero low word. -/
theorem neg_eq (a : I128) :
    neg a = ⟨~~~a.lowU64 + 1, ~~~a.highU64 + if a.lowU64 = 0 then 1 else 0⟩ := by
  have hl := UInt64.toNat_lt a.lowU64
  have hcarry : decide (2 ^ 64 ≤ (~~~a.lowU64).toNat + (1 : UInt64).toNat) = decide (a.lowU64 = 0) := by
    rw [UInt64.toNat_not, UInt64.size, UInt64.toNat_one]
    exact decide_eq_decide.2 (by rw [← UInt64.toNat_inj, UInt64.toNat_zero]; omega)
  simp only [neg, addAndCheckOverflowU64, hcarry, decide_eq_true_eq]

/-- **Negation is exact** on every value but NaN. -/
theorem toInt_neg {a : I128} (ha : a.isNaN = false) : toInt (neg a) = -toInt a := by
  have hrange := inRange_toInt ha
  have hl := UInt64.toNat_lt a.lowU64
  have hh := UInt64.toNat_lt a.highU64
  rw [toInt_eq] at hrange
  simp only [InRange] at hrange
  rw [neg_eq, toInt_eq, toInt_eq]
  -- the carry out of the low word is set exactly when it is zero
  by_cases hzero : a.lowU64 = 0
  · have hzero' : a.lowU64.toNat = 0 := by rw [hzero]; rfl
    simp only [hzero, if_true, UInt64.toNat_add, UInt64.toNat_not, UInt64.size,
      UInt64.toNat_one, UInt64.toNat_zero] at hrange ⊢
    split_ifs <;> omega
  · have hzero' : a.lowU64.toNat ≠ 0 := fun h => hzero (UInt64.toNat_inj.1 h)
    simp only [hzero, if_false, UInt64.toNat_add, UInt64.toNat_not, UInt64.size,
      UInt64.toNat_one, UInt64.toNat_zero] at hrange ⊢
    split_ifs <;> omega

theorem toInt_nan : toInt nan = -2 ^ 127 := by decide

/-- The one pattern that is NaN. -/
theorem eq_nan_of_isNaN {a : I128} (h : a.isNaN = true) : a = nan :=
  toInt_injective (by rw [isNaN_iff_toInt.1 h, toInt_nan])

theorem neg_nan : neg nan = nan := by decide

theorem addAndCheckOverflow_of_isNaN {a b : I128} (h : (a.isNaN || b.isNaN) = true) :
    addAndCheckOverflow a b = (nan, false) := by
  rw [addAndCheckOverflow, if_pos h]

/-- **NaN propagates through `+`.** -/
theorem add_eq_nan_of_isNaN {a b : I128} (h : (a.isNaN || b.isNaN) = true) : add a b = nan := by
  simp only [add, addAndCheckOverflow_of_isNaN h, Bool.false_eq_true, if_false]

/-- **NaN propagates through `-`**, since `-NaN` is NaN. -/
theorem sub_eq_nan_of_isNaN {a b : I128} (h : (a.isNaN || b.isNaN) = true) : sub a b = nan := by
  apply add_eq_nan_of_isNaN
  rcases Bool.or_eq_true_iff.1 h with ha | hb
  · rw [ha, Bool.true_or]
  · rw [eq_nan_of_isNaN hb, neg_nan, isNaN_nan, Bool.or_true]

/-- **NaN propagates through `*`.** -/
theorem mul_eq_nan_of_isNaN {a b : I128} (h : (a.isNaN || b.isNaN) = true) : mul a b = nan := by
  simp only [mul, mulAndCheckOverflow, if_pos h, Bool.false_eq_true, if_false]

/-! ## Addition -/

section Addition

variable {a b : I128}

/-- `addAndCheckOverflow` of two values: the words added, the carry of the low words added to
the high word, and the flags of both signed additions. -/
theorem addAndCheckOverflow_of_not_isNaN (ha : a.isNaN = false) (hb : b.isNaN = false) :
    addAndCheckOverflow a b =
      if 2 ^ 64 ≤ a.lowU64.toNat + b.lowU64.toNat then
        (ofLowHigh (a.lowU64 + b.lowU64) (a.highI64 + b.highI64 + 1),
          (addAndCheckOverflowI64 a.highI64 b.highI64).2 ||
            (addAndCheckOverflowI64 (a.highI64 + b.highI64) 1).2)
      else (ofLowHigh (a.lowU64 + b.lowU64) (a.highI64 + b.highI64),
        (addAndCheckOverflowI64 a.highI64 b.highI64).2) := by
  simp only [addAndCheckOverflow, ha, hb, Bool.or_self, Bool.false_eq_true, if_false,
    addAndCheckOverflowU64, decide_eq_true_eq]
  rfl

/-- **When `addAndCheckOverflow` reports an overflow**: the signed sum of the high words
leaves `I64`, or is `INT64_MAX` and the low words carry. -/
theorem addAndCheckOverflow_eq_true_iff (ha : a.isNaN = false) (hb : b.isNaN = false) :
    (addAndCheckOverflow a b).2 = true ↔
      a.highI64.toInt + b.highI64.toInt < -2 ^ 63 ∨ 2 ^ 63 ≤ a.highI64.toInt + b.highI64.toInt ∨
        (2 ^ 64 ≤ a.lowU64.toNat + b.lowU64.toNat ∧
          a.highI64.toInt + b.highI64.toInt = 2 ^ 63 - 1) := by
  have hone : (1 : Int64).toInt = 1 := rfl
  rw [addAndCheckOverflow_of_not_isNaN ha hb]
  split_ifs with hcarry
  · simp only [Bool.or_eq_true, addAndCheckOverflowI64_eq_true_iff, toInt_add_int64, hone]
    split_ifs <;> omega
  · simp only [addAndCheckOverflowI64_eq_true_iff]
    omega

/-- Without a reported overflow the sum is exact. -/
theorem toInt_addAndCheckOverflow (ha : a.isNaN = false) (hb : b.isNaN = false)
    (h : (addAndCheckOverflow a b).2 = false) :
    toInt (addAndCheckOverflow a b).1 = toInt a + toInt b := by
  have hflag := (addAndCheckOverflow_eq_true_iff ha hb).not.1 (by rw [h]; decide)
  have hone : (1 : Int64).toInt = 1 := rfl
  have hl := UInt64.toNat_lt a.lowU64
  have hl' := UInt64.toNat_lt b.lowU64
  rw [addAndCheckOverflow_of_not_isNaN ha hb]
  split_ifs with hcarry
  · rw [toInt_ofLowHigh, toInt_add_int64, toInt_add_int64, hone, UInt64.toNat_add, toInt, toInt]
    split_ifs <;> omega
  · rw [toInt_ofLowHigh, toInt_add_int64, UInt64.toNat_add, toInt, toInt]
    split_ifs <;> omega

/-- **`a + b` is exact** for two values whose sum is in range, except where the high words
sum to `-2^63 - 1` before the carry. -/
theorem toInt_add (ha : a.isNaN = false) (hb : b.isNaN = false)
    (hrange : InRange (toInt a + toInt b))
    (hne : ¬ (a.highI64.toInt + b.highI64.toInt = -2 ^ 63 - 1 ∧
      2 ^ 64 < a.lowU64.toNat + b.lowU64.toNat)) :
    (add a b).isNaN = false ∧ toInt (add a b) = toInt a + toInt b := by
  have hl := UInt64.toNat_lt a.lowU64
  have hl' := UInt64.toNat_lt b.lowU64
  have hh := Int64.le_toInt a.highI64
  have hh' := Int64.le_toInt b.highI64
  simp only [InRange, toInt] at hrange
  -- the sum in range rules out every overflow the flag reports
  have hflag : (addAndCheckOverflow a b).2 = false := by
    rw [← Bool.not_eq_true, addAndCheckOverflow_eq_true_iff ha hb]
    omega
  have hsum := toInt_addAndCheckOverflow ha hb hflag
  have hadd : add a b = (addAndCheckOverflow a b).1 := by
    simp only [add, hflag, Bool.false_eq_true, if_false]
  refine ⟨?_, by rw [hadd, hsum]⟩
  rw [hadd, ← Bool.not_eq_true, isNaN_iff_toInt, hsum, toInt, toInt]
  omega

/-- **`a + b` is NaN for every sum out of range.** -/
theorem add_eq_nan_of_not_inRange (ha : a.isNaN = false) (hb : b.isNaN = false)
    (h : ¬ InRange (toInt a + toInt b)) : add a b = nan := by
  cases hflag : (addAndCheckOverflow a b).2 with
  | true => simp only [add, hflag, if_true]
  | false =>
    -- without a flag the sum is exact, so it is the one pattern below the range
    have hsum := toInt_addAndCheckOverflow ha hb hflag
    have hbounds := toInt_bounds (addAndCheckOverflow a b).1
    have hadd : add a b = (addAndCheckOverflow a b).1 := by
      simp only [add, hflag, Bool.false_eq_true, if_false]
    rw [hadd]
    apply eq_nan_of_isNaN
    rw [isNaN_iff_toInt, hsum]
    simp only [InRange] at h
    omega

/-- **A sum in range that is NaN**: where the high words sum to `-2^63 - 1` and the low words
carry more than `2^64`, the sum lies in `(-2^127, -2^127 + 2^64)`, yet the signed addition of
the high words overflows and `a + b` is NaN. -/
theorem add_nan_in_range (ha : a.isNaN = false) (hb : b.isNaN = false)
    (hhigh : a.highI64.toInt + b.highI64.toInt = -2 ^ 63 - 1)
    (hlow : 2 ^ 64 < a.lowU64.toNat + b.lowU64.toNat) :
    InRange (toInt a + toInt b) ∧ (addAndCheckOverflow a b).2 = true ∧ add a b = nan := by
  have hl := UInt64.toNat_lt a.lowU64
  have hl' := UInt64.toNat_lt b.lowU64
  have hflag : (addAndCheckOverflow a b).2 = true :=
    (addAndCheckOverflow_eq_true_iff ha hb).2 (Or.inl (by omega))
  refine ⟨?_, hflag, by simp only [add, hflag, if_true]⟩
  simp only [InRange, toInt]
  omega

/-- `(2^64 - 1) - 2^127 + 2 - 2^64 = -2^127 + 1`, the least value, is NaN. -/
theorem add_nan_in_range_min :
    (isNaN ⟨0xFFFFFFFFFFFFFFFF, 0x8000000000000000⟩ = false ∧ isNaN ⟨2, 0xFFFFFFFFFFFFFFFF⟩ = false) ∧
      toInt ⟨0xFFFFFFFFFFFFFFFF, 0x8000000000000000⟩ + toInt ⟨2, 0xFFFFFFFFFFFFFFFF⟩ = toInt min ∧
      add ⟨0xFFFFFFFFFFFFFFFF, 0x8000000000000000⟩ ⟨2, 0xFFFFFFFFFFFFFFFF⟩ = nan :=
  ⟨⟨by decide, by decide⟩, by decide,
    (add_nan_in_range (by decide) (by decide) (by decide) (by decide)).2.2⟩

end Addition

/-! ## Multiplication -/

/-- **A product out of range that is not NaN**: `4 * 2^126 = 2^128`, yet the only limb
product, `a0 * b3 = 2^32`, is shifted out of the word by `m03 << 32`, and no overflow is
reported. -/
theorem mul_four_two_pow_126 :
    toInt (ofI32 4) * toInt ⟨0, 0x4000000000000000⟩ = 2 ^ 128 ∧
      mulAndCheckOverflow (ofI32 4) ⟨0, 0x4000000000000000⟩ = (ofI32 0, false) ∧
      mul (ofI32 4) ⟨0, 0x4000000000000000⟩ = ofI32 0 := by
  decide

/-! ## Comparisons -/

section Comparisons

variable {a b : I128}

/-- `==` compares the patterns. -/
theorem eq_eq_decide (ha : a.isNaN = false) (hb : b.isNaN = false) : eq a b = decide (a = b) := by
  simp only [eq, ha, hb, Bool.or_self, Bool.false_eq_true, if_false]
  rcases a with ⟨al, ah⟩
  rcases b with ⟨bl, bh⟩
  simp only [highI64, I128.mk.injEq]
  by_cases hh : ah = bh
  · by_cases hl : al = bl <;> simp [hh, hl]
  · have : ah.toInt64 ≠ bh.toInt64 := fun h => hh (congrArg Int64.toUInt64 h)
    simp [hh, this]

/-- **`<` agrees with the integers** where the high words differ or the low words have the
same top bit. -/
theorem lt_eq_decide (ha : a.isNaN = false) (hb : b.isNaN = false)
    (h : a.highI64 ≠ b.highI64 ∨ (2 ^ 63 ≤ a.lowU64.toNat ↔ 2 ^ 63 ≤ b.lowU64.toNat)) :
    lt a b = decide (toInt a < toInt b) := by
  have hl := UInt64.toNat_lt a.lowU64
  have hl' := UInt64.toNat_lt b.lowU64
  rw [ne_eq, ← Int64.toInt_inj] at h
  simp only [lt, ha, hb, Bool.or_self, Bool.false_eq_true, if_false]
  rw [Bool.eq_iff_iff, Bool.or_eq_true, Bool.and_eq_true, beq_iff_eq, decide_eq_true_iff,
    decide_eq_true_iff, decide_eq_true_iff, Int64.lt_iff_toInt_lt, Int64.lt_iff_toInt_lt, toInt,
    toInt, lowI64, lowI64, toInt_toInt64, toInt_toInt64, ← Int64.toInt_inj]
  split_ifs <;> omega

/-- **`<` reads the low words as signed**: a value whose high word is zero and whose low word
is at least `2^63` is positive, yet below zero for `<`. -/
theorem lt_zero_of_high_eq_zero (hhigh : a.highU64 = 0) (hlow : 2 ^ 63 ≤ a.lowU64.toNat) :
    0 < toInt a ∧ lt a (ofI32 0) = true := by
  have hh : a.highI64.toInt = 0 := by rw [toInt_highI64, hhigh]; rfl
  have hnan : a.isNaN = false := by
    rw [← Bool.not_eq_true, isNaN_eq_true_iff]
    omega
  have hzero : (ofI32 0).highI64.toInt = 0 ∧ (ofI32 0).lowU64.toNat = 0 := ⟨rfl, rfl⟩
  refine ⟨by rw [toInt, hh]; omega, ?_⟩
  simp only [lt, hnan, Bool.false_or, show (ofI32 0).isNaN = false from rfl,
    Bool.false_eq_true, if_false, Bool.or_eq_true, Bool.and_eq_true, beq_iff_eq,
    decide_eq_true_iff, Int64.lt_iff_toInt_lt, lowI64, toInt_toInt64, ← Int64.toInt_inj, hh,
    hzero.1, hzero.2, lt_self_iff_false, true_and, false_or]
  have hl := UInt64.toNat_lt a.lowU64
  split_ifs <;> omega

end Comparisons

/-! ## Division -/

section Division

variable {a b : I128}

/-- `x >>> 63` on `I64` is the sign of `x`, `-1` or `0`. -/
theorem shiftRight_63 (x : Int64) : x >>> 63 = if x.toInt < 0 then -1 else 0 := by
  have htoInt : (x >>> 63).toInt = x.toInt >>> (63 : ℕ) := by
    rw [Int64.toInt, Int64.toBitVec_shiftRight,
      show ((63 : Int64).toBitVec.smod 64) = 63 from by decide, BitVec.sshiftRight',
      BitVec.toInt_sshiftRight]
    rfl
  rw [← Int64.toInt_inj, htoInt, Int.shiftRight_eq_div_pow]
  have h1 := Int64.toInt_lt x
  have h2 := Int64.le_toInt x
  split_ifs with h
  · rw [show (-1 : Int64).toInt = -1 from rfl]
    omega
  · rw [show (0 : Int64).toInt = 0 from rfl]
    omega

theorem ofI64_zero : ofI64 0 = ⟨0, 0⟩ := by decide

theorem ofLowHighI64_zero : ofLowHighI64 0 0 = ⟨0, 0⟩ := by decide

/-- `abs` leaves a value with a non-negative high word as it is. -/
theorem abs_of_nonneg (h : 0 ≤ a.highI64.toInt) : abs a = a := by
  have hsign : a.highI64 >>> 63 = 0 := by rw [shiftRight_63, if_neg (by omega)]
  have h0 : (0 : Int64).toUInt64 = 0 := rfl
  simp only [abs, hsign, h0, UInt64.xor_zero, UInt64.sub_zero, UInt64.lt_irrefl, if_false,
    UInt64.add_zero]

/-- Xor with zero leaves a value as it is. -/
theorem xor_zero (ha : a.isNaN = false) : xor a ⟨0, 0⟩ = a := by
  have h0 : (I128.mk 0 0).highI64 = 0 := rfl
  simp only [xor, ha, show (I128.mk 0 0).isNaN = false from rfl, Bool.or_self,
    Bool.false_eq_true, if_false, UInt64.xor_zero, h0, Int64.xor_zero]
  rfl

/-- Subtracting zero leaves a value as it is. -/
theorem sub_zero (ha : a.isNaN = false) : sub a ⟨0, 0⟩ = a := by
  have hzero : neg ⟨0, 0⟩ = ⟨0, 0⟩ := by decide
  have hz : (I128.mk 0 0).isNaN = false := rfl
  have htoInt : toInt (I128.mk 0 0) = 0 := rfl
  have hz0 : (I128.mk 0 0).highI64.toInt = 0 ∧ (I128.mk 0 0).lowU64.toNat = 0 := ⟨rfl, rfl⟩
  have hrange := inRange_toInt ha
  have hl := UInt64.toNat_lt a.lowU64
  obtain ⟨-, hadd⟩ := toInt_add ha hz (by rw [htoInt, Int.add_zero]; exact hrange)
    (by rw [hz0.1, hz0.2]; omega)
  rw [sub, hzero]
  exact toInt_injective (by rw [hadd, htoInt, Int.add_zero])

/-- **`udivmod` of a dividend below `2^64` by a divisor from `2^64`**: the initializer
`{0, n.lowU64}` selects `I128(U64 inLow, U64 inHigh)`, so the quotient is `n.lowU64 * 2^64`
where it should be `0`, and the remainder is not set. -/
theorem udivmod_of_high_eq_zero {n d : I128} (outRemainder : I128) (hn : n.highU64 = 0)
    (hd : d.isNaN = false) (hdh : d.highU64 ≠ 0) :
    udivmod n d outRemainder = some (⟨0, n.lowU64⟩, outRemainder) := by
  have hhigh : n.highI64.toInt = 0 := by rw [toInt_highI64, hn]; rfl
  have hnan : n.isNaN = false := by
    rw [← Bool.not_eq_true, isNaN_eq_true_iff, hhigh]
    omega
  simp only [udivmod, hnan, hd, Bool.or_self, Bool.false_eq_true, if_false, hn, if_true, hdh]

/-- **Division of a value below `2^63` by one from `2^64`**: the quotient truncated toward
zero is `0` and the remainder the dividend, yet `/` returns the dividend times `2^64` and `%`
returns `0`. -/
theorem div_rem_of_lt_two_pow_64 (v : UInt64) (hv : v.toNat < 2 ^ 63) (hb : 2 ^ 64 ≤ toInt b) :
    (toInt (ofU64 v)).tdiv (toInt b) = 0 ∧ (toInt (ofU64 v)).tmod (toInt b) = v.toNat ∧
      div (ofU64 v) b = some ⟨0, v⟩ ∧ toInt ⟨0, v⟩ = v.toNat * 2 ^ 64 ∧
      rem (ofU64 v) b = some ⟨0, 0⟩ := by
  have hbounds := toInt_bounds b
  have hl := UInt64.toNat_lt b.lowU64
  have hva : toInt (ofU64 v) = v.toNat := toInt_ofU64 v
  have hbh : 0 < b.highI64.toInt := by rw [toInt] at hb; omega
  have hbh' : b.highU64 ≠ 0 := fun h => by
    rw [toInt_highI64, h] at hbh
    exact absurd hbh (by decide)
  have hb : b.isNaN = false := by
    rw [← Bool.not_eq_true, isNaN_iff_toInt]
    omega
  have hbz : eq b (ofI32 0) = false := by
    rw [eq_eq_decide hb rfl, decide_eq_false_iff_not]
    intro h
    rw [h] at hbh
    exact absurd hbh (by decide)
  have hva' : (ofU64 v).isNaN = false := rfl
  have hq : (I128.mk 0 v).isNaN = false := by
    rw [← Bool.not_eq_true, isNaN_eq_true_iff, toInt_highI64]
    dsimp only
    rw [if_pos (by omega)]
    omega
  have hqv : toInt ⟨0, v⟩ = v.toNat * 2 ^ 64 := by
    rw [toInt_eq]
    dsimp only
    rw [if_pos (by omega), UInt64.toNat_zero, Nat.cast_zero, Int.add_zero]
  -- both operands are non-negative, so `abs` and the sign corrections do nothing
  have habs : abs (ofU64 v) = ofU64 v :=
    abs_of_nonneg (show 0 ≤ (0 : UInt64).toInt64.toInt from by decide)
  have habs' : abs b = b := abs_of_nonneg hbh.le
  have hsign : b.highI64 >>> 63 = 0 := by rw [shiftRight_63, if_neg (by omega)]
  have hsign' : (ofU64 v).highI64 >>> 63 = 0 := show (0 : UInt64).toInt64 >>> 63 = 0 from by decide
  have hudivmod : udivmod (ofU64 v) b ⟨0, 0⟩ = some (⟨0, v⟩, ⟨0, 0⟩) :=
    udivmod_of_high_eq_zero ⟨0, 0⟩ (show (ofU64 v).highU64 = 0 from rfl) hb hbh'
  refine ⟨?_, ?_, ?_, hqv, ?_⟩
  · rw [hva, Int.tdiv_eq_ediv_of_nonneg (by omega), Int.ediv_eq_zero_of_lt (by omega) (by omega)]
  · rw [hva, Int.tmod_eq_emod_of_nonneg (by omega), Int.emod_eq_of_lt (by omega) (by omega)]
  · simp only [div, hva', hb, hbz, Bool.or_self, Bool.false_eq_true, if_false, habs, habs',
      hsign, hsign', Int64.xor_self, ofLowHighI64_zero, hudivmod, Option.map_some,
      xor_zero hq, sub_zero hq]
  · simp only [rem, hva', hb, hbz, Bool.or_self, Bool.false_eq_true, if_false, hsign, hsign',
      ofI64_zero, xor_zero hb, sub_zero hb, xor_zero hva', sub_zero hva', hudivmod,
      Option.map_some, xor_zero (show (I128.mk 0 0).isNaN = false from rfl),
      sub_zero (show (I128.mk 0 0).isNaN = false from rfl)]

/-- `5 / 2^64` is `5 * 2^64` and `5 % 2^64` is `0`. -/
theorem div_rem_five_two_pow_64 :
    div (ofU64 5) ⟨0, 1⟩ = some ⟨0, 5⟩ ∧ rem (ofU64 5) ⟨0, 1⟩ = some ⟨0, 0⟩ := by
  have h := @div_rem_of_lt_two_pow_64 ⟨0, 1⟩ 5 (by decide) (by decide)
  exact ⟨h.2.2.1, h.2.2.2.2⟩

end Division

/-! ## Conversions -/

section Conversions

variable {x : I128}

/-- **`operator U64` is exact**: it returns the value in `[0, 2^64)` and traps on the rest. -/
theorem toU64_eq_some_iff {v : UInt64} : toU64 x = some v ↔ toInt x = v.toNat := by
  have hl := UInt64.toNat_lt x.lowU64
  have hh := Int64.le_toInt x.highI64
  have hh' := Int64.toInt_lt x.highI64
  rw [toU64, toInt]
  split_ifs with h
  · -- a trap: NaN, whose high word is `INT64_MIN`, or a high word that is not zero
    simp only [false_iff]
    rcases h with h | h
    · rw [isNaN_eq_true_iff] at h
      omega
    · rw [ne_eq, ← Int64.toInt_inj] at h
      have : (0 : Int64).toInt = 0 := rfl
      have hv := UInt64.toNat_lt v
      intro hx
      have : x.highI64.toInt = 0 := by omega
      omega
  · rw [not_or, not_not] at h
    rw [h.2, Option.some_inj, show (0 : Int64).toInt = 0 from rfl, Int.zero_mul, Int.zero_add,
      Nat.cast_inj, UInt64.toNat_inj]

/-- **`operator I64` is exact**: it returns the value in `[-2^63, 2^63)` and traps on the
rest. -/
theorem toI64_eq_some_iff {v : Int64} : toI64 x = some v ↔ toInt x = v.toInt := by
  have hl := UInt64.toNat_lt x.lowU64
  have hh := Int64.le_toInt x.highI64
  have hh' := Int64.toInt_lt x.highI64
  have hv := Int64.le_toInt v
  have hv' := Int64.toInt_lt v
  have h0 : (0 : Int64).toInt = 0 := rfl
  have h1 : (-1 : Int64).toInt = -1 := rfl
  have hlow : x.lowI64.toInt = _ := toInt_toInt64 x.lowU64
  rw [toI64, toInt]
  simp only [isNaN_eq_true_iff, gt_iff_lt, ge_iff_le, Int64.lt_iff_toInt_lt,
    Int64.le_iff_toInt_le, ← Int64.toInt_inj, h0, h1]
  -- the low word read as signed, then the tests of the source on it
  split_ifs at hlow ⊢ <;> simp only [false_iff, Option.some_inj, ← Int64.toInt_inj] <;> omega

/-- **`operator U32` is exact**: it returns the value in `[0, 2^32)` and traps on the rest. -/
theorem toU32_eq_some_iff {v : UInt32} : toU32 x = some v ↔ toInt x = v.toNat := by
  have hl := UInt64.toNat_lt x.lowU64
  have hh := Int64.le_toInt x.highI64
  have hh' := Int64.toInt_lt x.highI64
  have hv := UInt32.toNat_lt v
  have h0 : (0 : Int64).toInt = 0 := rfl
  rw [toU32, toInt]
  simp only [isNaN_eq_true_iff, ne_eq, ← Int64.toInt_inj, h0, gt_iff_lt, UInt64.lt_iff_toNat_lt,
    UInt64.reduceToNat]
  split_ifs with h
  · simp only [false_iff]
    omega
  · rw [Option.some_inj, ← UInt32.toNat_inj, UInt64.toNat_toUInt32]
    omega

/-- **`operator I32` does not trap on values from `2^63` to `2^64`**: with the high word zero
it tests only `lowI64 > INT32_MAX`, which the low word read as negative passes. -/
theorem toI32_of_high_eq_zero (hhigh : x.highU64 = 0) (hlow : 2 ^ 63 ≤ x.lowU64.toNat) :
    2 ^ 63 ≤ toInt x ∧ toI32 x = some x.lowI64.toInt32 := by
  have hl := UInt64.toNat_lt x.lowU64
  have hh : x.highI64.toInt = 0 := by rw [toInt_highI64, hhigh]; rfl
  have hnan : x.isNaN = false := by
    rw [← Bool.not_eq_true, isNaN_eq_true_iff]
    omega
  have hlowI64 : x.lowI64.toInt < 0 := by
    rw [lowI64, toInt_toInt64, if_neg (by omega)]
    omega
  refine ⟨by rw [toInt, hh]; omega, ?_⟩
  rw [toI32, if_neg]
  simp only [hnan, Bool.false_eq_true, false_or, gt_iff_lt, Int64.lt_iff_toInt_lt,
    ← Int64.toInt_inj, hh]
  have h0 : (0 : Int64).toInt = 0 := rfl
  have h1 : (-1 : Int64).toInt = -1 := rfl
  have h2 : (2147483647 : Int64).toInt = 2147483647 := rfl
  rw [h0, h1, h2]
  omega

/-- **`asFloat` takes the sign from `<`**, so a value from `2^63` to `2^64` converts to a
negative float in either format. -/
theorem asFloat_sign_of_high_eq_zero (c : FloatComponents) (hhigh : x.highU64 = 0)
    (hlow : 2 ^ 63 ≤ x.lowU64.toNat) : 0 < toInt x ∧ (asFloat c x).sign = 1 := by
  obtain ⟨hpos, hlt⟩ := lt_zero_of_high_eq_zero hhigh hlow
  have hnan : x.isNaN = false := by
    rw [← Bool.not_eq_true, isNaN_iff_toInt]
    omega
  refine ⟨hpos, ?_⟩
  rw [asFloat, if_neg (by rw [hnan]; decide)]
  simp only [hlt, if_true]
  split_ifs <;> rfl

/-- A shift left of a value below `2^64` by `64` to `127` bits moves its low word into the
high word. -/
theorem shiftLeft_ofU64_of_ge_64 (v s : UInt64) (hs : 64 ≤ s.toNat) (hs' : s.toNat < 128) :
    shiftLeft (ofU64 v) (ofU64 s) = ⟨0, v <<< (s - 64)⟩ := by
  have hmask : s &&& 127 = s := by
    rw [← UInt64.toNat_inj, UInt64.toNat_and, show (127 : UInt64).toNat = 2 ^ 7 - 1 from rfl,
      Nat.and_two_pow_sub_one_eq_mod, Nat.mod_eq_of_lt hs']
  have hbit : s &&& 64 ≠ 0 := by
    have hall : ∀ i : Fin 128, 64 ≤ i.val → i.val &&& 64 ≠ 0 := by decide
    rw [ne_eq, ← UInt64.toNat_inj, UInt64.toNat_and]
    exact hall ⟨s.toNat, hs'⟩ hs
  have hne : s ≠ 0 := fun h => by
    rw [h] at hs
    exact absurd hs (by decide)
  simp only [shiftLeft, show (ofU64 v).isNaN = false from rfl,
    show (ofU64 s).isNaN = false from rfl, Bool.or_self, Bool.false_eq_true, if_false]
  simp only [show (ofU64 s).lowU64 = s from rfl, hmask, hne, hbit, if_false, ne_eq,
    not_false_eq_true, if_true]
  rfl

/-- **`F32` keeps the significand bits that `F64` would**, bits `11` to `33` of the magnitude
shifted to the top of a word, so a value from `1` below `2^29` converts to the power of two
at or below it: `F32(3) = 2`. -/
theorem toF32_ofU64_of_lt (v : UInt64) (hv : 1 ≤ v.toNat) (hv' : v.toNat < 2 ^ 29) :
    toF32 (ofU64 v) = ⟨0, 127 + Nat.log2 v.toNat, 0⟩ ∧
      FloatComponents.f32.value (toF32 (ofU64 v)) = some (2 ^ Nat.log2 v.toNat) := by
  have hk : Nat.log2 v.toNat < 29 := (Nat.log2_lt (by omega)).2 hv'
  have hkle : 2 ^ Nat.log2 v.toNat ≤ v.toNat := Nat.log2_self_le (by omega)
  have hklt : v.toNat < 2 ^ (Nat.log2 v.toNat + 1) := Nat.lt_log2_self
  set k := Nat.log2 v.toNat with hkdef
  have hv0 : v ≠ 0 := fun h => by rw [h] at hv; exact absurd hv (by decide)
  -- the sign: the value is below `2^63`, so `<` compares it rightly with zero
  have hlt : lt (ofU64 v) (ofI32 0) = false := by
    rw [lt_eq_decide rfl rfl (Or.inr (by
      rw [show (ofI32 0).lowU64.toNat = 0 from rfl, show (ofU64 v).lowU64 = v from rfl]
      omega)), decide_eq_false_iff_not, not_lt]
    rw [show toInt (ofI32 0) = 0 from rfl, toInt_ofU64]
    exact Int.natCast_nonneg _
  -- the leading zeroes: all of the high word, and `63 - k` of the low word
  set lz := 64 + countLeadingZeroes v with hlz
  have hclz : lz.toNat = 127 - k := by
    rw [hlz, UInt64.toNat_add, toNat_countLeadingZeroes hv0]
    simp only [UInt64.reduceToNat]
    omega
  have hshift := shiftLeft_ofU64_of_ge_64 v lz (by omega) (by omega)
  have hsub : (lz - 64).toNat = 63 - k := by
    rw [UInt64.toNat_sub_of_le _ _ (by rw [UInt64.le_iff_toNat_le]; simp only [UInt64.reduceToNat]; omega),
      hclz]
    simp only [UInt64.reduceToNat]
    omega
  have hhigh : (v <<< (lz - 64)).toNat = v.toNat * 2 ^ (63 - k) := by
    have hfit : v.toNat * 2 ^ (63 - k) < 2 ^ 64 :=
      calc v.toNat * 2 ^ (63 - k) < 2 ^ (k + 1) * 2 ^ (63 - k) :=
            Nat.mul_lt_mul_of_pos_right hklt (Nat.two_pow_pos _)
        _ = 2 ^ 64 := by rw [← Nat.pow_add]; congr 1; omega
    rw [UInt64.toNat_shiftLeft, hsub, Nat.mod_eq_of_lt (show 63 - k < 64 by omega),
      Nat.shiftLeft_eq, Nat.mod_eq_of_lt hfit]
  -- every bit of the magnitude is at `35` or above, so bits `11` to `33` are zero
  have hsignificand : ((v <<< (lz - 64)) >>> 11).toNat % 2 ^ 23 = 0 := by
    rw [UInt64.toNat_shiftRight, hhigh, show (11 : UInt64).toNat % 64 = 11 from rfl,
      Nat.shiftRight_eq_div_pow]
    have hsplit : v.toNat * 2 ^ (63 - k) = 2 ^ 11 * (2 ^ 23 * (2 * v.toNat * 2 ^ (28 - k))) := by
      rw [show 63 - k = 35 + (28 - k) by omega, Nat.pow_add]
      ring
    rw [hsplit, Nat.mul_div_cancel_left _ (Nat.two_pow_pos 11), Nat.mul_mod_right]
  have hexponent : (127 - lz + UInt64.ofNat 127).toNat = k + 127 := by
    rw [UInt64.toNat_add, UInt64.toNat_sub_of_le _ _ (by rw [UInt64.le_iff_toNat_le, hclz]; simp only [UInt64.reduceToNat]; omega), hclz]
    simp only [UInt64.reduceToNat, UInt64.toNat_ofNat']
    omega
  have hnan : (ofU64 v).isNaN = false := rfl
  have hbits : toF32 (ofU64 v) = ⟨0, 127 + k, 0⟩ := by
    rw [toF32, asFloat, if_neg (by rw [hnan]; decide)]
    simp only [hlt, Bool.false_eq_true, if_false, show (0 : ℕ) = 1 ↔ False from by decide,
      show countLeadingZeroes (ofU64 v).highU64 = 64 from rfl, if_true,
      show (ofU64 v).lowU64 = v from rfl, ← hlz]
    rw [if_neg (by rw [← UInt64.toNat_inj, hclz]; simp only [UInt64.reduceToNat]; omega), hshift]
    simp only [FloatComponents.store, FloatComponents.f32, hexponent, hsignificand,
      FloatBits.mk.injEq]
    exact ⟨trivial, by omega, trivial⟩
  refine ⟨hbits, ?_⟩
  rw [hbits, FloatComponents.value_normal _ rfl (by dsimp only; omega)
    (by simp only [FloatComponents.f32]; omega)]
  simp only [FloatComponents.f32, Nat.cast_zero, zero_div, add_zero, one_mul, Option.some_inj]
  rw [show ((127 + k : ℕ) : ℤ) - (127 : ℕ) = (k : ℤ) by push_cast; ring, zpow_natCast]

/-- `F32(3)` is `2`. -/
theorem toF32_three :
    toF32 (ofU64 3) = ⟨0, 128, 0⟩ ∧ FloatComponents.f32.value (toF32 (ofU64 3)) = some 2 := by
  have h := toF32_ofU64_of_lt 3 (by decide) (by decide)
  have hlog : Nat.log2 (3 : UInt64).toNat = 1 := by decide
  rw [hlog, pow_one] at h
  exact h

end Conversions

end Wavm.I128
