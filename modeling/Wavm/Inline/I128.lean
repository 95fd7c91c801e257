import Wavm.Platform.Intrinsic
import Wavm.Inline.FloatComponents

set_option relaxedAutoImplicit false
set_option autoImplicit false

/-!
# The emulated 128-bit integer

`I128` of `src/Include/WAVM/Inline/I128.h` and `Impl/I128Impl.h`: a pair of 64-bit words that
stands for `highI64 * 2^64 + lowU64`, with the range `(-2^127, 2^127)` and one NaN, the pattern
of `-2^127`. The operators detect overflow and return NaN; NaN propagates.

This module is the operators as the source computes them. Their meaning on integers, and
where they depart from it, is in `Wavm.Inline.I128Spec`.

## Main definitions

* `Wavm.I128` — the two words; `Wavm.I128.highI64`, `Wavm.I128.lowI64` — the words read as
  signed.
* `Wavm.I128.ofI32`, `ofU32`, `ofI64`, `ofU64`, `ofLowHigh` — the constructors;
  `Wavm.I128.nan`, `min`, `max`; `Wavm.I128.isNaN`.
* `Wavm.I128.toU32`, `toI32`, `toU64`, `toI64` — the conversion operators, `none` where they
  trap; `Wavm.I128.asFloat` — the conversion to a float, as the fields of its bits.
* `Wavm.I128.neg`, `abs`, `addAndCheckOverflow`, `add`, `sub`, `mulAndCheckOverflow`, `mul`,
  `udivmod`, `div`, `rem`, `shiftLeft`, `shiftRight`, the bitwise operators and the
  comparisons.

## Implementation notes

An out-parameter is part of the result: `addAndCheckOverflow` returns the sum with the flag,
and `udivmod` takes the remainder it was handed and returns it, set or not. Integer literals
of the source are `I128(I32)` conversions (`ofI32`). `WAVM_DEBUG_TRAP` is `none`.
`FloatComponents` is a record of the widths and constants of a format, and a float is the
three fields of its bits, each stored modulo its width as a C++ bit-field is.
-/

namespace Wavm

/-- `I128`: the words `lowU64` and `highU64`. -/
structure I128 where
  lowU64 : UInt64
  highU64 : UInt64
  deriving DecidableEq, Repr

namespace I128

/-- The low word read as signed, `lowI64`. -/
def lowI64 (a : I128) : Int64 := a.lowU64.toInt64

/-- The high word read as signed, `highI64`. -/
def highI64 (a : I128) : Int64 := a.highU64.toInt64

/-! ## Constructors and constants -/

/-- `I128(U64 inLow, I64 inHigh)`. -/
def ofLowHigh (inLow : UInt64) (inHigh : Int64) : I128 := ⟨inLow, inHigh.toUInt64⟩

/-- `I128(I64 inLow, I64 inHigh)`. -/
def ofLowHighI64 (inLow inHigh : Int64) : I128 := ⟨inLow.toUInt64, inHigh.toUInt64⟩

/-- `I128(I64 value)`: the value, with the high word its sign. -/
def ofI64 (value : Int64) : I128 := ⟨value.toUInt64, if value ≥ 0 then 0 else (-1 : Int64).toUInt64⟩

/-- `I128(U64 value)`. -/
def ofU64 (value : UInt64) : I128 := ⟨value, 0⟩

/-- `I128(I32 value)`: `lowI64(value)` sign-extends the value. -/
def ofI32 (value : Int32) : I128 := ofI64 value.toInt64

/-- `I128(U32 value)`. -/
def ofU32 (value : UInt32) : I128 := ofU64 value.toUInt64

/-- `I128::nan()`: `I128(U64(0), INT64_MIN)`. -/
def nan : I128 := ofLowHigh 0 Int64.minValue

/-- `I128::min()`: `I128(U64(1), INT64_MIN)`, that is `-2^127 + 1`. -/
def min : I128 := ofLowHigh 1 Int64.minValue

/-- `I128::max()`: `I128(UINT64_MAX, INT64_MAX)`, that is `2^127 - 1`. -/
def max : I128 := ofLowHigh 0xFFFFFFFFFFFFFFFF Int64.maxValue

/-- `isNaN`. -/
def isNaN (i : I128) : Bool := i.highI64 == Int64.minValue && i.lowU64 == 0

/-! ## Conversions -/

/-- `operator U32`. -/
def toU32 (x : I128) : Option UInt32 :=
  if x.isNaN ∨ x.highI64 ≠ 0 ∨ x.lowU64 > 0xFFFFFFFF then none else some x.lowU64.toUInt32

/-- `operator I32`. -/
def toI32 (x : I128) : Option Int32 :=
  if x.isNaN ∨ x.highI64 > 0 ∨ x.highI64 < -1 ∨ (x.highI64 = -1 ∧ x.lowI64 < -2147483648) ∨
      (x.highI64 = 0 ∧ x.lowI64 > 2147483647) then none
  else some x.lowI64.toInt32

/-- `operator U64`. -/
def toU64 (x : I128) : Option UInt64 :=
  if x.isNaN ∨ x.highI64 ≠ 0 then none else some x.lowU64

/-- `operator I64`. -/
def toI64 (x : I128) : Option Int64 :=
  if x.isNaN ∨ x.highI64 > 0 ∨ x.highI64 < -1 ∨ (x.highI64 = -1 ∧ x.lowI64 ≥ 0) ∨
      (x.highI64 = 0 ∧ x.lowI64 < 0) then none
  else some x.lowI64

/-! ## Negation and addition -/

/-- Unary `operator-`: the complement of both words, plus one with the carry. -/
def neg (a : I128) : I128 :=
  let highU64 := ~~~a.highU64
  let (lowU64, carry) := addAndCheckOverflowU64 (~~~a.lowU64) 1
  ⟨lowU64, highU64 + if carry then 1 else 0⟩

/-- `abs`: both words xor-ed with the sign, less the sign. -/
def abs (a : I128) : I128 :=
  let sign : Int64 := a.highI64 >>> 63
  let lowU64 := a.lowU64 ^^^ sign.toUInt64
  let highU64 := (a.highU64 ^^^ sign.toUInt64) +
    if lowU64 - sign.toUInt64 < lowU64 then 1 else 0
  ⟨lowU64 - sign.toUInt64, highU64⟩

/-- `operator~`. -/
def complement (a : I128) : I128 :=
  if a.isNaN then a else ofLowHigh (~~~a.lowU64) (~~~a.highI64)

/-- `addAndCheckOverflow`: the signed sum of the high words, then the carry of the low words
added to it, with an overflow in either reported. -/
def addAndCheckOverflow (a b : I128) : I128 × Bool :=
  if a.isNaN || b.isNaN then (nan, false)
  else
    let (highI64, overflowed) := addAndCheckOverflowI64 a.highI64 b.highI64
    let (lowU64, carry) := addAndCheckOverflowU64 a.lowU64 b.lowU64
    if carry then
      let (highI64', overflowed') := addAndCheckOverflowI64 highI64 1
      (ofLowHigh lowU64 highI64', overflowed || overflowed')
    else (ofLowHigh lowU64 highI64, overflowed)

/-- `addmod127`. -/
def addmod127 (a b : I128) : I128 :=
  let (result, overflowed) := addAndCheckOverflow a b
  if overflowed then neg result else result

/-- Binary `operator+`. -/
def add (a b : I128) : I128 :=
  let (result, overflowed) := addAndCheckOverflow a b
  if overflowed then nan else result

/-- Binary `operator-`: `a + -b`. -/
def sub (a b : I128) : I128 := add a (neg b)

/-! ## Multiplication -/

/-- The sum of the partial products that land in the high word: each added with
`addAndCheckOverflow`, the flags or-ed. -/
def addPartials (highU64 : UInt64) (overflowed : Bool) : List UInt64 → UInt64 × Bool
  | [] => (highU64, overflowed)
  | m :: ms =>
    let (highU64, carry) := addAndCheckOverflowU64 highU64 m
    addPartials highU64 (carry || overflowed) ms

/-- `mulAndCheckOverflow`: the product of the magnitudes from the sixteen products of their
32-bit limbs, the overflow inferred from the limb products above `2^128`, the carries into
and the sign bit of the high word; then the sign restored. -/
def mulAndCheckOverflow (a b : I128) : I128 × Bool :=
  if a.isNaN || b.isNaN then (nan, false)
  else
    let sign : Int64 := (a.highI64 >>> 63) ^^^ (b.highI64 >>> 63)
    let a := abs a
    let b := abs b
    let a0 := a.lowU64 &&& 0xffffffff
    let a1 := a.lowU64 >>> 32
    let a2 := a.highU64 &&& 0xffffffff
    let a3 := a.highU64 >>> 32
    let b0 := b.lowU64 &&& 0xffffffff
    let b1 := b.lowU64 >>> 32
    let b2 := b.highU64 &&& 0xffffffff
    let b3 := b.highU64 >>> 32
    let m00 := a0 * b0
    let m01 := a0 * b1
    let m02 := a0 * b2
    let m03 := a0 * b3
    let m10 := a1 * b0
    let m11 := a1 * b1
    let m12 := a1 * b2
    let m13 := a1 * b3
    let m20 := a2 * b0
    let m21 := a2 * b1
    let m22 := a2 * b2
    let m23 := a2 * b3
    let m30 := a3 * b0
    let m31 := a3 * b1
    let m32 := a3 * b2
    let m33 := a3 * b3
    let (lowU64, carry0) := addAndCheckOverflowU64 m00 (m01 <<< 32)
    let highU64 : UInt64 := if carry0 then 1 else 0
    let (lowU64, carry1) := addAndCheckOverflowU64 lowU64 (m10 <<< 32)
    let highU64 := highU64 + (if carry1 then 1 else 0)
    let highU64 := highU64 + ((m01 >>> 32) + (m10 >>> 32))
    let (highU64, overflowed) := addPartials highU64 false
      [m02, m11, m20, m03 <<< 32, m12 <<< 32, m21 <<< 32, m30 <<< 32]
    -- the sign bit of the high word
    let overflowed := decide (highU64.toInt64 < 0) || overflowed
    let highU64 := highU64 &&& ~~~((1 : UInt64) <<< 63)
    -- the limb products that are all above `2^128`
    let overflowed := m13 != 0 || m22 != 0 || m31 != 0 || m23 != 0 || m32 != 0 || m33 != 0 ||
      overflowed
    let out := ofLowHigh (lowU64.toInt64 ^^^ sign).toUInt64 (highU64.toInt64 ^^^ sign)
    ((addAndCheckOverflow out (ofI64 (-sign))).1, overflowed)

/-- `mulmod127`. -/
def mulmod127 (a b : I128) : I128 := (mulAndCheckOverflow a b).1

/-- Binary `operator*`. -/
def mul (a b : I128) : I128 :=
  let (result, overflowed) := mulAndCheckOverflow a b
  if overflowed then nan else result

/-! ## Shifts and bitwise operators -/

/-- `operator==`. -/
def eq (a b : I128) : Bool :=
  if a.isNaN || b.isNaN then false else a.highI64 == b.highI64 && a.lowU64 == b.lowU64

/-- `operator!=`. -/
def ne (a b : I128) : Bool :=
  if a.isNaN || b.isNaN then true else a.highI64 != b.highI64 || a.lowU64 != b.lowU64

/-- `operator>>`: arithmetic, by the low seven bits of `b`; NaN for a shift by zero. -/
def shiftRight (a b : I128) : I128 :=
  if a.isNaN || b.isNaN || eq b (ofI32 0) then nan
  else
    let b64 := b.lowU64 &&& 127
    if b64 = 0 then a
    else if b64 &&& 64 ≠ 0 then
      ofLowHigh (a.highI64 >>> (b64 - 64).toInt64).toUInt64 (a.highI64 >>> 63)
    else
      ⟨(a.highI64 <<< (64 - b64).toInt64).toUInt64 ||| (a.lowU64 >>> b64),
        (a.highI64 >>> b64.toInt64).toUInt64⟩

/-- `operator<<`, by the low seven bits of `b`. -/
def shiftLeft (a b : I128) : I128 :=
  if a.isNaN || b.isNaN then nan
  else
    let b64 := b.lowU64 &&& 127
    if b64 = 0 then a
    else if b64 &&& 64 ≠ 0 then ⟨0, a.lowU64 <<< (b64 - 64)⟩
    else ⟨a.lowU64 <<< b64, (a.highU64 <<< b64) ||| (a.lowU64 >>> (64 - b64))⟩

/-- `operator^`. -/
def xor (a b : I128) : I128 :=
  if a.isNaN || b.isNaN then nan else ofLowHigh (a.lowU64 ^^^ b.lowU64) (a.highI64 ^^^ b.highI64)

/-- `operator&`. -/
def and (a b : I128) : I128 :=
  if a.isNaN || b.isNaN then nan else ofLowHigh (a.lowU64 &&& b.lowU64) (a.highI64 &&& b.highI64)

/-- `operator|`. -/
def or (a b : I128) : I128 :=
  if a.isNaN || b.isNaN then nan else ofLowHigh (a.lowU64 ||| b.lowU64) (a.highI64 ||| b.highI64)

/-! ## Comparisons -/

/-- `operator>`: the high words as signed, then the low words as signed. -/
def gt (a b : I128) : Bool :=
  if a.isNaN || b.isNaN then false
  else decide (a.highI64 > b.highI64) || (a.highI64 == b.highI64 && decide (a.lowI64 > b.lowI64))

/-- `operator>=`. -/
def ge (a b : I128) : Bool :=
  if a.isNaN || b.isNaN then false
  else decide (a.highI64 > b.highI64) || (a.highI64 == b.highI64 && decide (a.lowI64 ≥ b.lowI64))

/-- `operator<`. -/
def lt (a b : I128) : Bool :=
  if a.isNaN || b.isNaN then false
  else decide (a.highI64 < b.highI64) || (a.highI64 == b.highI64 && decide (a.lowI64 < b.lowI64))

/-- `operator<=`. -/
def le (a b : I128) : Bool :=
  if a.isNaN || b.isNaN then false
  else decide (a.highI64 < b.highI64) || (a.highI64 == b.highI64 && decide (a.lowI64 ≤ b.lowI64))

/-! ## Division -/

/-- One round of the shift-subtract loop of `udivmod`: `r:q` shifted left by one bit with
`carry` in, then `d` taken from `r` where `r ≥ d`, and `carry` set to whether it was. -/
def udivmodStep (d : I128) (state : I128 × I128 × UInt64) : I128 × I128 × UInt64 :=
  let (q, r, carry) := state
  let r : I128 := ⟨(r.lowU64 <<< 1) ||| (q.highU64 >>> (64 - 1)),
    (r.highU64 <<< 1) ||| (r.lowU64 >>> (64 - 1))⟩
  let q : I128 := ⟨(q.lowU64 <<< 1) ||| carry, (q.highU64 <<< 1) ||| (q.lowU64 >>> (64 - 1))⟩
  let s := ofI64 ((sub (sub d r) (ofI32 1)).highI64 >>> 63)
  (q, sub r (and d s), s.lowU64 &&& 1)

/-- The loop `for(; sr > 0; --sr)` of `udivmod`. -/
def udivmodLoop (d : I128) : ℕ → I128 × I128 × UInt64 → I128 × I128 × UInt64
  | 0, state => state
  | sr + 1, state => udivmodLoop d sr (udivmodStep d state)

/-- The end of `udivmod` after the special cases: the loop from `q = n << (128 - sr)` and
`r = n >> sr`, then the last carry shifted into `q`. -/
def udivmodFinish (d : I128) (sr : UInt64) (q r : I128) : I128 × I128 :=
  let (q, r, carry) := udivmodLoop d sr.toNat (q, r, 0)
  (or (shiftLeft q (ofI32 1)) (ofU64 carry), r)

/-- `I128::udivmod`: the quotient, and the remainder, which is `outRemainder` where the
source does not set it. `none` is the fatal error of `errorUnless(d.highU64 != 0)`. -/
def udivmod (n d outRemainder : I128) : Option (I128 × I128) :=
  if n.isNaN || d.isNaN then some (nan, outRemainder)
  else if n.highU64 = 0 then
    if d.highU64 = 0 then some (ofU64 (n.lowU64 / d.lowU64), ofU64 (n.lowU64 % d.lowU64))
    -- `return {0, n.lowU64}` initializes `I128(U64 inLow, U64 inHigh)`
    else some (⟨0, n.lowU64⟩, outRemainder)
  else if d.lowU64 = 0 then
    if d.highU64 = 0 then none
    else if n.lowU64 = 0 then
      some (ofU64 (n.highU64 / d.highU64), ⟨0, n.highU64 % d.highU64⟩)
    else if d.highU64 &&& (d.highU64 - 1) = 0 then
      some (ofU64 (n.highU64 >>> countTrailingZeroes d.highU64),
        ⟨n.lowU64, n.highU64 &&& (d.highU64 - 1)⟩)
    else
      let sr := countLeadingZeroes d.highU64 - countLeadingZeroes n.highU64
      if sr > 64 - 2 then some (ofI32 0, n)
      else
        let sr := sr + 1
        some (udivmodFinish d sr ⟨0, n.lowU64 <<< (64 - sr)⟩
          ⟨(n.highU64 <<< (64 - sr)) ||| (n.lowU64 >>> sr), n.highU64 >>> sr⟩)
  else if d.highU64 = 0 then
    if d.lowU64 &&& (d.lowU64 - 1) = 0 then
      let r := ofU64 (n.lowU64 &&& (d.lowU64 - 1))
      if d.lowU64 = 1 then some (n, r)
      else
        let sr := countTrailingZeroes d.lowU64
        some (⟨(n.highU64 <<< (64 - sr)) ||| (n.lowU64 >>> sr), n.highU64 >>> sr⟩, r)
    else
      let sr := 1 + 64 + countLeadingZeroes d.lowU64 - countLeadingZeroes n.highU64
      if sr = 64 then some (udivmodFinish d sr ⟨0, n.lowU64⟩ ⟨n.highU64, 0⟩)
      else if sr < 64 then
        some (udivmodFinish d sr ⟨0, n.lowU64 <<< (64 - sr)⟩
          ⟨(n.highU64 <<< (64 - sr)) ||| (n.lowU64 >>> sr), n.highU64 >>> sr⟩)
      else
        some (udivmodFinish d sr
          ⟨n.lowU64 <<< (128 - sr), (n.highU64 <<< (128 - sr)) ||| (n.lowU64 >>> (sr - 64))⟩
          ⟨n.highU64 >>> (sr - 64), 0⟩)
  else
    let sr := countLeadingZeroes d.highU64 - countLeadingZeroes n.highU64
    if sr > 64 - 1 then some (ofI32 0, n)
    else
      let sr := sr + 1
      if sr = 64 then some (udivmodFinish d sr ⟨0, n.lowU64⟩ ⟨n.highU64, 0⟩)
      else
        some (udivmodFinish d sr ⟨0, n.lowU64 <<< (64 - sr)⟩
          ⟨(n.highU64 <<< (64 - sr)) ||| (n.lowU64 >>> sr), n.highU64 >>> sr⟩)

/-- Binary `operator/`: `udivmod` of the magnitudes, negated by xor and subtraction of the
sign when the signs differ. The remainder handed to `udivmod` is `I128()`, zero. -/
def div (a b : I128) : Option I128 :=
  if a.isNaN || b.isNaN || eq b (ofI32 0) then some nan
  else
    let sign : Int64 := (a.highI64 >>> 63) ^^^ (b.highI64 >>> 63)
    (udivmod (abs a) (abs b) ⟨0, 0⟩).map fun (quotient, _) =>
      sub (xor quotient (ofLowHighI64 sign sign)) (ofLowHighI64 sign sign)

/-- Binary `operator%`: the remainder of `udivmod` of the magnitudes, with the sign of `a`. -/
def rem (a b : I128) : Option I128 :=
  if a.isNaN || b.isNaN then some nan
  else if eq b (ofI32 0) then some nan
  else
    let s := ofI64 (b.highI64 >>> 63)
    let b := sub (xor b s) s
    let s := ofI64 (a.highI64 >>> 63)
    let a := sub (xor a s) s
    (udivmod a b ⟨0, 0⟩).map fun (_, remainder) => sub (xor remainder s) s

/-! ## Conversion to a float -/

/-- `asFloat`: the sign from `*this < 0`, the exponent from the leading zeroes of the
magnitude, and the significand from the magnitude shifted to the top of a word and then down
by `11`. -/
def asFloat (c : FloatComponents) (x : I128) : FloatBits :=
  if x.isNaN then c.store 0 c.maxExponentBits c.canonicalSignificand
  else
    let sign := if lt x (ofI32 0) then 1 else 0
    let absoluteI128 := if sign = 1 then neg x else x
    let leadingZeroes := countLeadingZeroes absoluteI128.highU64
    let leadingZeroes :=
      if leadingZeroes = 64 then leadingZeroes + countLeadingZeroes absoluteI128.lowU64
      else leadingZeroes
    if leadingZeroes = 128 then c.store sign 0 0
    else
      let exponent : UInt64 := 127 - leadingZeroes
      let significand64 := (shiftLeft absoluteI128 (ofU64 leadingZeroes)).highU64
      c.store sign (exponent + UInt64.ofNat c.exponentBias).toNat (significand64 >>> 11).toNat

/-- `operator F64`. -/
def toF64 (x : I128) : FloatBits := asFloat FloatComponents.f64 x

/-- `operator F32`. -/
def toF32 (x : I128) : FloatBits := asFloat FloatComponents.f32 x

end I128

end Wavm
