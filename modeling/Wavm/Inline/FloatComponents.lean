import Mathlib

set_option relaxedAutoImplicit false
set_option autoImplicit false

/-!
# The fields of a float

`FloatComponents<F32>` and `FloatComponents<F64>` of
`src/Include/WAVM/Inline/FloatComponents.h`: the constants of each format and the bit-fields
`sign`, `exponent` and `significand` of its bits. The number a pattern of fields stands for is
IEEE 754's (`FloatComponents.value`), the meaning the code's users give the bits.

## Main definitions

* `Wavm.FloatComponents`, `Wavm.FloatComponents.f32`, `Wavm.FloatComponents.f64` — the widths
  and constants of a format.
* `Wavm.FloatBits`, `Wavm.FloatComponents.bitcastInt` — the three fields and the word they
  make.
* `Wavm.FloatComponents.value` — the number of a finite float.

## Main results

* `Wavm.FloatComponents.value_normal` — a normal float is `(1 + significand / 2^p) * 2^e`.
-/

namespace Wavm

/-- `FloatComponents<Float>`: the width of the significand and exponent fields, the bias of
the exponent, and the exponent and significand fields of the canonical NaN. -/
structure FloatComponents where
  numSignificandBits : ℕ
  numExponentBits : ℕ
  exponentBias : ℕ
  maxExponentBits : ℕ
  canonicalSignificand : ℕ
  deriving DecidableEq, Repr

/-- The fields of the bits of a float, `components.bits`. -/
structure FloatBits where
  sign : ℕ
  exponent : ℕ
  significand : ℕ
  deriving DecidableEq, Repr

namespace FloatComponents

/-- `FloatComponents<F64>`. -/
def f64 : FloatComponents :=
  { numSignificandBits := 52, numExponentBits := 11, exponentBias := 1023,
    maxExponentBits := 0x7ff, canonicalSignificand := 0x8000000000000 }

/-- `FloatComponents<F32>`. -/
def f32 : FloatComponents :=
  { numSignificandBits := 23, numExponentBits := 8, exponentBias := 127,
    maxExponentBits := 0xff, canonicalSignificand := 0x400000 }

/-- The fields as assigned to the bit-fields of the format: each value is stored modulo the
width of its field. -/
def store (c : FloatComponents) (sign exponent significand : ℕ) : FloatBits :=
  ⟨sign % 2, exponent % 2 ^ c.numExponentBits, significand % 2 ^ c.numSignificandBits⟩

/-- `bitcastInt`: the word of the fields, sign above exponent above significand. -/
def bitcastInt (c : FloatComponents) (bits : FloatBits) : ℕ :=
  (bits.sign * 2 ^ c.numExponentBits + bits.exponent) * 2 ^ c.numSignificandBits +
    bits.significand

/-- The number a float stands for, `none` for the infinities and NaNs: subnormal below the
least exponent, `(1 + significand / 2^p) * 2^(exponent - bias)` else, negated by the sign. -/
def value (c : FloatComponents) (bits : FloatBits) : Option ℚ :=
  if bits.exponent = c.maxExponentBits then none
  else
    let magnitude : ℚ :=
      if bits.exponent = 0 then
        (bits.significand / 2 ^ c.numSignificandBits : ℚ) * 2 ^ (1 - (c.exponentBias : ℤ))
      else
        (1 + bits.significand / 2 ^ c.numSignificandBits : ℚ) *
          2 ^ ((bits.exponent : ℤ) - c.exponentBias)
    some (if bits.sign = 1 then -magnitude else magnitude)

/-- A normal float. -/
theorem value_normal (c : FloatComponents) {bits : FloatBits} (hsign : bits.sign = 0)
    (hpos : bits.exponent ≠ 0) (hmax : bits.exponent ≠ c.maxExponentBits) :
    c.value bits = some ((1 + bits.significand / 2 ^ c.numSignificandBits : ℚ) *
      2 ^ ((bits.exponent : ℤ) - c.exponentBias)) := by
  simp only [value, hmax, hpos, hsign, if_false]
  rfl

end FloatComponents

end Wavm
