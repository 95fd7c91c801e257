import Mathlib

set_option relaxedAutoImplicit false
set_option autoImplicit false

/-!
# LEB128 integers

`serializeVarInt` of `src/Include/WAVM/Inline/Serialization.h`, the variable-length integers of
the binary format: the `OutputStream` overload writes a value seven bits at a time, low bits
first, with bit `0x80` set on every byte but the last; the `InputStream` overload reads at
most `maxBytes = ⌈maxBits / 7⌉` bytes, checks that the last of them holds no more than
`maxBits` bits of data (zero or sign bits above them), assembles the value and sign-extends
it, and checks its range. The helpers `serializeVarUInt1` … `serializeVarInt64` fix
`maxBits`, `minValue` and `maxValue`.

## Main definitions

* `Wavm.Serialization.IntType` — a type `Value`: its width and signedness; a value is a
  `BitVec` of that width.
* `Wavm.Serialization.VarIntFormat` — the arguments of one helper.
* `Wavm.Serialization.OutputStream.serializeVarInt`,
  `Wavm.Serialization.InputStream.serializeVarInt` — the two overloads, on a list of bytes.

## Implementation notes

An output stream is the list of bytes written, and an input stream the list of bytes still to
read, a `MemoryInputStream` that fails when it runs out. The shifts of a signed `Value` are
arithmetic; the conversions between integer types keep the low bits, as every compiler WAVM
supports does.
-/

namespace Wavm.Serialization

/-- An integer type `Value`: its width in bits, from a byte to 64 bits, and whether it is
signed. -/
structure IntType where
  width : ℕ
  isSigned : Bool
  width_ge : 8 ≤ width
  width_le : width ≤ 64

namespace IntType

/-- `U8`. -/
def U8 : IntType := ⟨8, false, by decide, by decide⟩
/-- `I8`. -/
def I8 : IntType := ⟨8, true, by decide, by decide⟩
/-- `U32`. -/
def U32 : IntType := ⟨32, false, by decide, by decide⟩
/-- `I32`. -/
def I32 : IntType := ⟨32, true, by decide, by decide⟩
/-- `U64`, also `Uptr`. -/
def U64 : IntType := ⟨64, false, by decide, by decide⟩
/-- `I64`, also `Iptr`. -/
def I64 : IntType := ⟨64, true, by decide, by decide⟩

/-- The integer that a value of the type holds. -/
def toInt (t : IntType) (x : BitVec t.width) : ℤ := if t.isSigned then x.toInt else x.toNat

end IntType

/-- The arguments `maxBits`, `minValue` and `maxValue` of a call of `serializeVarInt`. -/
structure VarIntFormat where
  maxBits : ℕ
  minValue : ℤ
  maxValue : ℤ
  deriving DecidableEq, Repr

/-- `serializeVarUInt1`. -/
def serializeVarUInt1 : VarIntFormat := ⟨1, 0, 1⟩
/-- `serializeVarUInt7`. -/
def serializeVarUInt7 : VarIntFormat := ⟨7, 0, 127⟩
/-- `serializeVarUInt8`. -/
def serializeVarUInt8 : VarIntFormat := ⟨8, 0, 255⟩
/-- `serializeVarUInt32`, up to `UINT32_MAX`. -/
def serializeVarUInt32 : VarIntFormat := ⟨32, 0, 4294967295⟩
/-- `serializeVarUInt64`, up to `UINT64_MAX`. -/
def serializeVarUInt64 : VarIntFormat := ⟨64, 0, 18446744073709551615⟩
/-- `serializeVarInt7`. -/
def serializeVarInt7 : VarIntFormat := ⟨7, -64, 63⟩
/-- `serializeVarInt32`, from `INT32_MIN` to `INT32_MAX`. -/
def serializeVarInt32 : VarIntFormat := ⟨32, -2147483648, 2147483647⟩
/-- `serializeVarInt64`, from `INT64_MIN` to `INT64_MAX`. -/
def serializeVarInt64 : VarIntFormat := ⟨64, -9223372036854775808, 9223372036854775807⟩

/-- The helpers as the binary format instantiates them, each with the `Value` types its callers
pass: `U8` flags, opcodes and subsection ids, `U32` and `Uptr` indices, depths and sizes, `I8`
value types, `I32` and `Iptr` block types and `i32.const`, `I64` `i64.const`. -/
def binaryFormatInstantiations : List (IntType × VarIntFormat) :=
  [(.U8, serializeVarUInt1), (.U8, serializeVarUInt7), (.U8, serializeVarUInt8),
    (.U32, serializeVarUInt32), (.U64, serializeVarUInt32), (.U64, serializeVarUInt64),
    (.I8, serializeVarInt7), (.I32, serializeVarInt32), (.I64, serializeVarInt32),
    (.I64, serializeVarInt64)]

/-- The message of the range check of both overloads. -/
def outOfRangeMessage (format : VarIntFormat) (value : ℤ) : String :=
  "out-of-range value: " ++ toString format.minValue ++ "<=" ++ toString value ++ "<=" ++
    toString format.maxValue

/-! ## Writing -/

/-- `value >>= 7`: arithmetic for a signed `Value`, logical for an unsigned one. -/
def shiftRightSeven (t : IntType) (value : BitVec t.width) : BitVec t.width :=
  if t.isSigned then value.sshiftRight 7 else value >>> 7

/-- `more`: whether another byte follows `outputByte`, with `value` the bits still to write. -/
def more (t : IntType) (value : BitVec t.width) (outputByte : UInt8) : Bool :=
  if t.isSigned then
    (value != 0 && value != -1) || (decide (0 ≤ value.toInt) && outputByte &&& 0x40 != 0) ||
      (decide (value.toInt < 0) && outputByte &&& 0x40 == 0)
  else value != 0

/-- The byte `(U8)(value & 127)`. -/
def lowByte (t : IntType) (value : BitVec t.width) : UInt8 := UInt8.ofNat (value &&& 127).toNat

/-- `v` is representable in `n` bits: `0 ≤ v < 2 ^ n` unsigned, `-2 ^ n ≤ 2 * v < 2 ^ n`
signed. -/
def InBits (isSigned : Bool) (n : ℕ) (v : ℤ) : Prop :=
  if isSigned then -2 ^ n ≤ 2 * v ∧ 2 * v < 2 ^ n else 0 ≤ v ∧ v < 2 ^ n

instance (isSigned : Bool) (n : ℕ) (v : ℤ) : Decidable (InBits isSigned n v) :=
  inferInstanceAs
    (Decidable (if isSigned then -2 ^ n ≤ 2 * v ∧ 2 * v < 2 ^ n else 0 ≤ v ∧ v < 2 ^ n))

@[simp] theorem inBits_false {n : ℕ} {v : ℤ} : InBits false n v ↔ 0 ≤ v ∧ v < 2 ^ n := by
  simp [InBits]

@[simp] theorem inBits_true {n : ℕ} {v : ℤ} :
    InBits true n v ↔ -2 ^ n ≤ 2 * v ∧ 2 * v < 2 ^ n := by
  simp [InBits]

namespace IntType

variable (t : IntType)

theorem toInt_of_isSigned (hs : t.isSigned = true) (x : BitVec t.width) :
    t.toInt x = x.toInt := by
  simp [toInt, hs]

theorem toInt_of_not_isSigned (hs : t.isSigned = false) (x : BitVec t.width) :
    t.toInt x = x.toNat := by
  simp [toInt, hs]

theorem toInt_inj {x y : BitVec t.width} : t.toInt x = t.toInt y ↔ x = y := by
  cases hs : t.isSigned
  · rw [toInt_of_not_isSigned t hs, toInt_of_not_isSigned t hs, Int.natCast_inj]
    exact BitVec.toNat_inj
  · rw [toInt_of_isSigned t hs, toInt_of_isSigned t hs]
    exact BitVec.toInt_inj

theorem toInt_neg_one : (-1 : BitVec t.width).toInt = -1 := by
  rw [show (-1 : BitVec t.width) = BitVec.allOnes t.width from BitVec.neg_one_eq_allOnes,
    BitVec.toInt_allOnes, if_pos (Nat.lt_of_lt_of_le (by decide) t.width_ge)]

/-- Every value of the type fits in its width. -/
theorem inBits_toInt (x : BitVec t.width) : InBits t.isSigned t.width (t.toInt x) := by
  unfold InBits
  cases hs : t.isSigned
  · rw [toInt_of_not_isSigned t hs]
    exact ⟨Int.natCast_nonneg _, by exact_mod_cast x.isLt⟩
  · rw [toInt_of_isSigned t hs]
    exact ⟨BitVec.le_two_mul_toInt, BitVec.two_mul_toInt_lt⟩

/-- The low seven bits of a value are those of the integer it holds, since `128` divides
`2 ^ width`. -/
theorem toNat_toInt_emod (x : BitVec t.width) : (t.toInt x % 128).toNat = x.toNat % 128 := by
  have hw : (2 ^ t.width : ℕ) = 2 ^ (t.width - 7) * 128 := by
    rw [show (128 : ℕ) = 2 ^ 7 from rfl, ← Nat.pow_add,
      Nat.sub_add_cancel (Nat.le_trans (by decide) t.width_ge)]
  cases hs : t.isSigned
  · rw [toInt_of_not_isSigned t hs]
    omega
  · rw [toInt_of_isSigned t hs, BitVec.toInt_eq_toNat_cond]
    split <;> omega

end IntType

theorem toInt_shiftRightSeven (t : IntType) (value : BitVec t.width) :
    t.toInt (shiftRightSeven t value) = t.toInt value / 128 := by
  unfold shiftRightSeven
  cases hs : t.isSigned
  · simp only [Bool.false_eq_true, if_false]
    rw [t.toInt_of_not_isSigned hs, t.toInt_of_not_isSigned hs, BitVec.toNat_ushiftRight,
      Nat.shiftRight_eq_div_pow]
    omega
  · simp only [if_true]
    rw [t.toInt_of_isSigned hs, t.toInt_of_isSigned hs, BitVec.toInt_sshiftRight,
      Int.shiftRight_eq_div_pow]
    rfl

theorem lowByte_eq (t : IntType) (value : BitVec t.width) :
    lowByte t value = UInt8.ofNat (t.toInt value % 128).toNat := by
  have h127 : (127 : BitVec t.width).toNat = 2 ^ 7 - 1 :=
    Nat.mod_eq_of_lt (Nat.lt_of_lt_of_le (by decide) (Nat.pow_le_pow_right (by decide) t.width_ge))
  rw [lowByte, IntType.toNat_toInt_emod, BitVec.toNat_and, h127, Nat.and_two_pow_sub_one_eq_mod]

/-- Bit `0x40` of a seven-bit byte. -/
theorem ofNat_and_64_eq_zero_iff (n : ℕ) (h : n < 128) :
    UInt8.ofNat n &&& 0x40 = 0 ↔ n < 64 := by
  obtain ⟨k, rfl⟩ : ∃ k : Fin 128, k.val = n := ⟨⟨n, h⟩, rfl⟩
  revert k
  decide

/-- Another byte follows exactly when the value does not fit in the seven bits of this one:
for a signed `Value`, when the rest is neither `0` nor `-1` or disagrees with bit `0x40`. -/
theorem more_iff (t : IntType) (value : BitVec t.width) :
    more t (shiftRightSeven t value) (lowByte t value) = true ↔
      ¬ InBits t.isSigned 7 (t.toInt value) := by
  have hq := toInt_shiftRightSeven t value
  rw [lowByte_eq]
  have hd : 0 ≤ t.toInt value % 128 ∧ t.toInt value % 128 < 128 := by omega
  have hbit := ofNat_and_64_eq_zero_iff (t.toInt value % 128).toNat (by omega)
  unfold more InBits
  cases hs : t.isSigned
  · rw [t.toInt_of_not_isSigned hs] at hq
    have hz : shiftRightSeven t value ≠ 0 ↔ (shiftRightSeven t value).toNat ≠ 0 := by
      rw [Ne, Ne, ← BitVec.toNat_inj]
      simp
    simp only [Bool.false_eq_true, if_false, bne_iff_ne, hz]
    have := t.toInt_of_not_isSigned hs value
    omega
  · rw [t.toInt_of_isSigned hs] at hq
    have hz : shiftRightSeven t value ≠ 0 ↔ (shiftRightSeven t value).toInt ≠ 0 := by
      rw [Ne, Ne, ← BitVec.toInt_inj]
      simp
    have hm : shiftRightSeven t value ≠ -1 ↔ (shiftRightSeven t value).toInt ≠ -1 := by
      rw [Ne, Ne, ← BitVec.toInt_inj, t.toInt_neg_one]
    simp only [if_true, Bool.or_eq_true, Bool.and_eq_true, bne_iff_ne, ne_eq, hz, hm, hbit,
      decide_eq_true_eq, beq_iff_eq]
    omega

/-- Another byte follows only while the value has not shrunk to `0` or `-1`, so the loop of
the writer ends. -/
theorem natAbs_toInt_lt_of_more {t : IntType} {value : BitVec t.width}
    (h : more t (shiftRightSeven t value) (lowByte t value) = true) :
    (t.toInt (shiftRightSeven t value)).natAbs < (t.toInt value).natAbs := by
  rw [toInt_shiftRightSeven]
  have hv := (more_iff t value).1 h
  unfold InBits at hv
  cases hs : t.isSigned
  · have := t.toInt_of_not_isSigned hs value
    simp only [hs, Bool.false_eq_true, if_false] at hv
    omega
  · simp only [hs, if_true] at hv
    omega

/-- The loop of the `OutputStream` `serializeVarInt`: the bytes of `value`. -/
def writeBytes (t : IntType) (value : BitVec t.width) : List UInt8 :=
  if h : more t (shiftRightSeven t value) (lowByte t value) then
    (lowByte t value ||| 0x80) :: writeBytes t (shiftRightSeven t value)
  else [lowByte t value]
termination_by (t.toInt value).natAbs
decreasing_by exact natAbs_toInt_lt_of_more h

namespace OutputStream

/-- The `OutputStream` overload of `serializeVarInt<Value, maxBits>`: the bytes written. -/
def serializeVarInt (t : IntType) (format : VarIntFormat) (inValue : BitVec t.width) :
    Except String (List UInt8) :=
  if t.toInt inValue < format.minValue ∨ t.toInt inValue > format.maxValue then
    .error (outOfRangeMessage format (t.toInt inValue))
  else .ok (writeBytes t inValue)

end OutputStream

/-! ## Reading -/

/-- `maxBytes = (maxBits + 6) / 7`. -/
def maxBytes (maxBits : ℕ) : ℕ := (maxBits + 6) / 7

/-- The first loop of the `InputStream` `serializeVarInt`: at most `numBytes` bytes, up to
the first one without bit `0x80`, and the rest of the stream. -/
def readBytes : ℕ → List UInt8 → Except String (List UInt8 × List UInt8)
  | 0, stream => .ok ([], stream)
  | _ + 1, [] => .error "expected data but found end of stream"
  | numBytes + 1, byte :: stream =>
    if byte &&& 0x80 = 0 then .ok ([byte], stream)
    else do
      let (bytes, stream) ← readBytes numBytes stream
      pure (byte :: bytes, stream)

/-- `numUsedBitsInLastByte = maxBits - (maxBytes - 1) * 7`. -/
def numUsedBitsInLastByte (maxBits : ℕ) : ℕ := maxBits - (maxBytes maxBits - 1) * 7

/-- The check of the last byte of the buffer, as a function of `numUsedBitsInLastByte`:
unused bits zero for an unsigned `Value`, copies of the last used bit for a signed one. -/
def checkLastByteBits (isSigned : Bool) (numUsedBits : ℕ) (lastByte : UInt8) :
    Except String Unit :=
  let numUnusedBitsInLast := 8 - numUsedBits
  let lastBitUsedMask : UInt8 := UInt8.ofNat (1 <<< (numUsedBits - 1))
  let lastByteUsedMask : UInt8 := UInt8.ofNat (1 <<< numUsedBits) - 1
  let lastByteSignedMask : UInt8 := ~~~lastByteUsedMask &&& ~~~0x80
  if !isSigned then
    if lastByte &&& ~~~lastByteUsedMask ≠ 0 then
      .error "Invalid unsigned LEB encoding: unused bits in final byte must be 0"
    else .ok ()
  else
    let signBit : Int8 :=
      ((lastByte &&& lastBitUsedMask) <<< UInt8.ofNat numUnusedBitsInLast).toInt8
    let signExtendedLastBit : Int8 := signBit >>> Int8.ofNat numUnusedBitsInLast
    if lastByte &&& ~~~lastByteUsedMask ≠ signExtendedLastBit.toUInt8 &&& lastByteSignedMask then
      .error ("Invalid signed LEB encoding: unused bits in final byte must match the " ++
        "most-significant used bit")
    else .ok ()

/-- The check of `bytes[maxBytes - 1]`. -/
def checkLastByte (isSigned : Bool) (maxBits : ℕ) (lastByte : UInt8) : Except String Unit :=
  checkLastByteBits isSigned (numUsedBitsInLastByte maxBits) lastByte

/-- The loop `value |= Value(U64(bytes[byteIndex] & ~0x80) << U64(byteIndex * 7))`, from
`byteIndex` on. -/
def assemble (w : ℕ) : ℕ → List UInt8 → BitVec w → BitVec w
  | _, [], value => value
  | byteIndex, byte :: bytes, value =>
    assemble w (byteIndex + 1) bytes
      (value ||| BitVec.ofNat w ((byte &&& 0x7F).toUInt64 <<< (byteIndex * 7).toUInt64).toNat)

/-- `value = Value(value << signExtendShift) >> signExtendShift` for a signed `Value`, with
`signExtendShift = sizeof(Value) * 8 - 7 * numBytes`, when it is positive. -/
def signExtend (t : IntType) (numBytes : ℕ) (value : BitVec t.width) : BitVec t.width :=
  let signExtendShift : ℤ := t.width - 7 * numBytes
  if t.isSigned ∧ 0 < signExtendShift then
    (value <<< signExtendShift.toNat).sshiftRight signExtendShift.toNat
  else value

namespace InputStream

/-- The `InputStream` overload of `serializeVarInt<Value, maxBits>`: the value read and the
rest of the stream. -/
def serializeVarInt (t : IntType) (format : VarIntFormat) (stream : List UInt8) :
    Except String (BitVec t.width × List UInt8) := do
  let (bytes, stream) ← readBytes (maxBytes format.maxBits) stream
  -- the buffer `U8 bytes[maxBytes] = {0}`: the bytes read, then zeros
  let buffer := bytes ++ List.replicate (maxBytes format.maxBits - bytes.length) 0
  checkLastByte t.isSigned format.maxBits (buffer.getD (maxBytes format.maxBits - 1) 0)
  let value := signExtend t bytes.length (assemble t.width 0 buffer 0)
  if t.toInt value < format.minValue ∨ t.toInt value > format.maxValue then
    .error (outOfRangeMessage format (t.toInt value))
  else pure (value, stream)

end InputStream

end Wavm.Serialization
