import Mathlib

set_option relaxedAutoImplicit false
set_option autoImplicit false

/-!
# UTF-8

The UTF-8 coder of `src/Include/WAVM/Inline/Unicode.h`: `encodeUTF8CodePoint` appends the
bytes of a code point, `decodeUTF8CodePoint` reads one sequence off the front of a buffer, and
`validateUTF8String` decodes until the end or the first failure, which is how the binary
loader checks every name it reads (`throwIfNotValidUTF8`).

Table 3-7 of the Unicode Standard, "Well-Formed UTF-8 Byte Sequences", is the specification.
The encoder produces a well-formed sequence for every scalar value, and the decoder takes
back every one it produces except those with lead byte `0xED`: its test of the second byte
after `0xED` is `< 0xa0 || > 0x9f`, which holds of every byte, so the code points
`U+D000` to `U+D7FF` (the last Hangul syllables among them) never decode, and a module whose
names hold one is rejected. Every other well-formed sequence decodes to the code point it
encodes, and nothing else decodes.

## Main definitions

* `Wavm.Unicode.encodeUTF8CodePoint`, `Wavm.Unicode.decodeUTF8CodePoint`,
  `Wavm.Unicode.validateUTF8String` — the coder; `Wavm.Unicode.throwIfNotValidUTF8` — the
  loader's check of a name.
* `Wavm.Unicode.WellFormed` — a row of Table 3-7; `Wavm.Unicode.codePointOf` — the code
  point a sequence encodes; `Wavm.Unicode.Decodable` — a concatenation of well-formed
  sequences that do not start with `0xED`.

## Main results

* `Wavm.Unicode.wellFormed_encodeUTF8CodePoint`, `Wavm.Unicode.codePointOf_encodeUTF8CodePoint`
  — the encoder produces a well-formed sequence of the code point.
* `Wavm.Unicode.decodeUTF8CodePoint_of_wellFormed`, `Wavm.Unicode.decodeUTF8CodePoint_eq_some`
  — the decoder takes exactly the well-formed sequences that do not start with `0xED`.
* `Wavm.Unicode.decodeUTF8CodePoint_encodeUTF8CodePoint` — decoding undoes encoding outside
  `U+D000` to `U+D7FF`; `Wavm.Unicode.decodeUTF8CodePoint_rejects_ed_block` — and fails inside.
* `Wavm.Unicode.encodeUTF8CodePoint_codePointOf` — each code point has one encoding.
* `Wavm.Unicode.validateUTF8String_eq_length_iff`, `Wavm.Unicode.decodable_iff_eq_flatMap`,
  `Wavm.Unicode.throwIfNotValidUTF8_eq_ok_iff` — `validateUTF8String` reaches the end of
  exactly the concatenations of sequences the decoder takes, which are the encodings of the
  scalar values outside `U+D000` to `U+D7FF`, and the loader accepts exactly those names.

## Implementation notes

A buffer `[nextChar, endChar)` is the list of its bytes; the decoder returns the code point
and the number of bytes it advances `nextChar` by, or `none` where it returns `false`. The
source reads `*nextChar` of an empty buffer, which its callers never pass; the model returns
`none` there. `wavmAssert` is compiled out.
-/

namespace Wavm.Unicode

/-! ## The coder -/

/-- `encodeUTF8CodePoint`: the bytes it appends to `outString`. -/
def encodeUTF8CodePoint (codePoint : UInt32) : List UInt8 :=
  if codePoint < 0x80 then [codePoint.toUInt8]
  else if codePoint < 0x800 then
    [((codePoint >>> 6) &&& 0x1F).toUInt8 ||| 0xC0, (codePoint &&& 0x3F).toUInt8 ||| 0x80]
  else if codePoint < 0x10000 then
    [((codePoint >>> 12) &&& 0x0F).toUInt8 ||| 0xE0,
      ((codePoint >>> 6) &&& 0x3F).toUInt8 ||| 0x80, (codePoint &&& 0x3F).toUInt8 ||| 0x80]
  else
    [((codePoint >>> 18) &&& 0x07).toUInt8 ||| 0xF0,
      ((codePoint >>> 12) &&& 0x3F).toUInt8 ||| 0x80,
      ((codePoint >>> 6) &&& 0x3F).toUInt8 ||| 0x80, (codePoint &&& 0x3F).toUInt8 ||| 0x80]

/-- The test `nextChar + n >= endChar || nextChar[1] < lo || nextChar[1] > hi || ...` after a
lead byte: fewer bytes follow than there are ranges, or one lies outside its range. -/
def continuationInvalid : List UInt8 → List (UInt8 × UInt8) → Bool
  | _, [] => false
  | [], _ :: _ => true
  | b :: bs, (lo, hi) :: ranges => b < lo || b > hi || continuationInvalid bs ranges

/-- `decodeUTF8CodePoint`: the code point at the front of the buffer and the number of bytes
it takes, or `none` where the source returns `false`. -/
def decodeUTF8CodePoint : List UInt8 → Option (UInt32 × ℕ)
  | [] => none
  | b0 :: rest =>
    if b0 < 0x80 then some (b0.toUInt32, 1)
    else if b0 ≥ 0xc2 ∧ b0 ≤ 0xdf then
      if continuationInvalid rest [(0x80, 0xbf)] then none
      else some (((b0 &&& 0x1F).toUInt32 <<< 6) ||| (rest.getD 0 0 &&& 0x3F).toUInt32, 2)
    else if b0 ≥ 0xe0 ∧ b0 ≤ 0xef then
      let invalid :=
        if b0 = 0xe0 then continuationInvalid rest [(0xa0, 0xbf), (0x80, 0xbf)]
        else if b0 = 0xed then continuationInvalid rest [(0xa0, 0x9f), (0x80, 0xbf)]
        else if b0 ≥ 0xe1 ∧ b0 ≤ 0xef then continuationInvalid rest [(0x80, 0xbf), (0x80, 0xbf)]
        else false
      if invalid then none
      else
        some (((b0 &&& 0x0F).toUInt32 <<< 12) ||| ((rest.getD 0 0 &&& 0x3F).toUInt32 <<< 6) |||
          (rest.getD 1 0 &&& 0x3F).toUInt32, 3)
    else if b0 ≥ 0xf0 ∧ b0 ≤ 0xf4 then
      let invalid :=
        if b0 = 0xf0 then continuationInvalid rest [(0x90, 0xbf), (0x80, 0xbf), (0x80, 0xbf)]
        else if b0 ≥ 0xf1 ∧ b0 ≤ 0xf3 then
          continuationInvalid rest [(0x80, 0xbf), (0x80, 0xbf), (0x80, 0xbf)]
        else if b0 = 0xf4 then continuationInvalid rest [(0x80, 0x8f), (0x80, 0xbf), (0x80, 0xbf)]
        else false
      if invalid then none
      else
        some (((b0 &&& 0x07).toUInt32 <<< 18) ||| ((rest.getD 0 0 &&& 0x3F).toUInt32 <<< 12) |||
          ((rest.getD 1 0 &&& 0x3F).toUInt32 <<< 6) ||| (rest.getD 2 0 &&& 0x3F).toUInt32, 4)
    else none

/-- The loop of `validateUTF8String`, given one round per byte: the number of bytes decoded
before the end of the buffer or the first sequence that does not decode. -/
def validateUTF8StringLoop : ℕ → List UInt8 → ℕ
  | 0, _ => 0
  | _ + 1, [] => 0
  | fuel + 1, b :: bs =>
    match decodeUTF8CodePoint (b :: bs) with
    | none => 0
    | some (_, numBytes) => numBytes + validateUTF8StringLoop fuel ((b :: bs).drop numBytes)

/-- `validateUTF8String`: how far `nextChar` gets, as an offset from the start. -/
def validateUTF8String (bytes : List UInt8) : ℕ :=
  validateUTF8StringLoop bytes.length bytes

/-! ## Table 3-7 -/

/-- A continuation byte, `80..BF`. -/
def Tail (b : UInt8) : Prop := 0x80 ≤ b.toNat ∧ b.toNat ≤ 0xBF

/-- The range of the byte after a lead byte of three or four bytes in Table 3-7: `A0..BF`
after `E0`, `80..9F` after `ED`, `90..BF` after `F0`, `80..8F` after `F4`, `80..BF` else. -/
def secondByteRange (lead : UInt8) : ℕ × ℕ :=
  if lead.toNat = 0xE0 then (0xA0, 0xBF)
  else if lead.toNat = 0xED then (0x80, 0x9F)
  else if lead.toNat = 0xF0 then (0x90, 0xBF)
  else if lead.toNat = 0xF4 then (0x80, 0x8F)
  else (0x80, 0xBF)

/-- The range of the second byte lies within `80..BF`. -/
theorem secondByteRange_bounds (lead : UInt8) :
    0x80 ≤ (secondByteRange lead).1 ∧ (secondByteRange lead).2 ≤ 0xBF := by
  unfold secondByteRange
  split_ifs <;> decide

/-- **A well-formed UTF-8 byte sequence**: a row of Table 3-7, the rows of one length in
one case with the second byte's range of `secondByteRange`. -/
inductive WellFormed : List UInt8 → Prop
  | one {a : UInt8} : a.toNat ≤ 0x7F → WellFormed [a]
  | two {a b : UInt8} : 0xC2 ≤ a.toNat → a.toNat ≤ 0xDF → Tail b → WellFormed [a, b]
  | three {a b c : UInt8} : 0xE0 ≤ a.toNat → a.toNat ≤ 0xEF →
      (secondByteRange a).1 ≤ b.toNat → b.toNat ≤ (secondByteRange a).2 → Tail c →
      WellFormed [a, b, c]
  | four {a b c d : UInt8} : 0xF0 ≤ a.toNat → a.toNat ≤ 0xF4 →
      (secondByteRange a).1 ≤ b.toNat → b.toNat ≤ (secondByteRange a).2 → Tail c → Tail d →
      WellFormed [a, b, c, d]

/-- The code point a sequence encodes: the payload bits of its bytes, high to low. -/
def codePointOf : List UInt8 → ℕ
  | [a] => a.toNat
  | [a, b] => a.toNat % 32 * 64 + b.toNat % 64
  | [a, b, c] => a.toNat % 16 * 4096 + b.toNat % 64 * 64 + c.toNat % 64
  | [a, b, c, d] => a.toNat % 8 * 262144 + b.toNat % 64 * 4096 + c.toNat % 64 * 64 + d.toNat % 64
  | _ => 0

/-- A Unicode scalar value: a code point up to `U+10FFFF` that is not a surrogate. -/
def IsScalarValue (codePoint : ℕ) : Prop :=
  codePoint ≤ 0x10FFFF ∧ ¬ (0xD800 ≤ codePoint ∧ codePoint ≤ 0xDFFF)

/-- **What the decoder takes in turn**: well-formed sequences whose lead byte is not `0xED`. -/
inductive Decodable : List UInt8 → Prop
  | nil : Decodable []
  | cons {s rest : List UInt8} : WellFormed s → s.head? ≠ some 0xED → Decodable rest →
      Decodable (s ++ rest)

/-! ## Bits -/

/-- Bits below `2 ^ k` or-ed onto a multiple of `2 ^ k` add to it. -/
theorem or_eq_add_of_dvd {x y k : ℕ} (hx : 2 ^ k ∣ x) (hy : y < 2 ^ k) : x ||| y = x + y := by
  obtain ⟨q, rfl⟩ := hx
  exact (Nat.two_pow_add_eq_or_of_lt hy q).symm

/-- A byte of the encoder: the low `k` bits of `x` under the tag bits `tag`. -/
theorem toNat_tagged {x mask : UInt32} {tag : UInt8} (k : ℕ) (hk : k ≤ 8)
    (hmask : mask.toNat = 2 ^ k - 1) (htag : 2 ^ k ∣ tag.toNat) :
    ((x &&& mask).toUInt8 ||| tag).toNat = tag.toNat + x.toNat % 2 ^ k := by
  have hlt : x.toNat % 2 ^ k < 2 ^ k := Nat.mod_lt _ (Nat.two_pow_pos k)
  have hle : 2 ^ k ≤ 2 ^ 8 := Nat.pow_le_pow_right (by decide) hk
  rw [UInt8.toNat_or, UInt32.toNat_toUInt8, UInt32.toNat_and, hmask,
    Nat.and_two_pow_sub_one_eq_mod, Nat.mod_eq_of_lt (by omega), Nat.or_comm,
    or_eq_add_of_dvd htag hlt]

/-- A shift right of the encoder, as a division. -/
theorem toNat_shiftRight_of_lt (x k : UInt32) (hk : k.toNat < 32) :
    (x >>> k).toNat = x.toNat / 2 ^ k.toNat := by
  rw [UInt32.toNat_shiftRight, Nat.mod_eq_of_lt hk, Nat.shiftRight_eq_div_pow]

/-- The payload bits of a byte of the decoder. -/
theorem toNat_payload {b mask : UInt8} (k : ℕ) (hmask : mask.toNat = 2 ^ k - 1) :
    (b &&& mask).toUInt32.toNat = b.toNat % 2 ^ k := by
  rw [UInt8.toNat_toUInt32, UInt8.toNat_and, hmask, Nat.and_two_pow_sub_one_eq_mod]

/-- A shift left of the decoder that keeps every bit, as a product. -/
theorem toNat_shiftLeft_of_lt {x k : UInt32} (hk : k.toNat < 32)
    (hfit : x.toNat * 2 ^ k.toNat < 2 ^ 32) : (x <<< k).toNat = x.toNat * 2 ^ k.toNat := by
  rw [UInt32.toNat_shiftLeft, Nat.mod_eq_of_lt hk, Nat.shiftLeft_eq, Nat.mod_eq_of_lt hfit]

/-- An or of the decoder onto bits that are clear, as a sum. -/
theorem toNat_or_of_dvd {x y : UInt32} (k : ℕ) (hx : 2 ^ k ∣ x.toNat) (hy : y.toNat < 2 ^ k) :
    (x ||| y).toNat = x.toNat + y.toNat := by
  rw [UInt32.toNat_or, or_eq_add_of_dvd hx hy]

/-! ## The encoder -/

section Encoder

variable {codePoint : UInt32}

/-- A code point below `0x80` is one byte. -/
theorem encodeUTF8CodePoint_of_lt_80 (hhi : codePoint.toNat < 0x80) :
    ∃ a, encodeUTF8CodePoint codePoint = [a] ∧ a.toNat = codePoint.toNat := by
  unfold encodeUTF8CodePoint
  rw [if_pos (UInt32.lt_iff_toNat_lt.2 hhi)]
  refine ⟨_, rfl, ?_⟩
  rw [UInt32.toNat_toUInt8, Nat.mod_eq_of_lt (by omega)]

/-- A code point from `0x80` and below `0x800` is two bytes. -/
theorem encodeUTF8CodePoint_of_lt_800 (hlo : 0x80 ≤ codePoint.toNat)
    (hhi : codePoint.toNat < 0x800) :
    ∃ a b, encodeUTF8CodePoint codePoint = [a, b] ∧
      a.toNat = 0xC0 + codePoint.toNat / 64 % 32 ∧ b.toNat = 0x80 + codePoint.toNat % 64 := by
  unfold encodeUTF8CodePoint
  rw [if_neg (mt UInt32.lt_iff_toNat_lt.1 (by simp; omega)),
    if_pos (UInt32.lt_iff_toNat_lt.2 (by simp; omega))]
  refine ⟨_, _, rfl, ?_, ?_⟩
  · rw [toNat_tagged 5 (by decide) rfl (by decide),
      toNat_shiftRight_of_lt _ _ (by decide)]
    rfl
  · rw [toNat_tagged 6 (by decide) rfl (by decide)]
    rfl

/-- A code point from `0x800` and below `0x10000` is three bytes. -/
theorem encodeUTF8CodePoint_of_lt_10000 (hlo : 0x800 ≤ codePoint.toNat)
    (hhi : codePoint.toNat < 0x10000) :
    ∃ a b c, encodeUTF8CodePoint codePoint = [a, b, c] ∧
      a.toNat = 0xE0 + codePoint.toNat / 4096 % 16 ∧
      b.toNat = 0x80 + codePoint.toNat / 64 % 64 ∧ c.toNat = 0x80 + codePoint.toNat % 64 := by
  unfold encodeUTF8CodePoint
  rw [if_neg (mt UInt32.lt_iff_toNat_lt.1 (by simp; omega)),
    if_neg (mt UInt32.lt_iff_toNat_lt.1 (by simp; omega)),
    if_pos (UInt32.lt_iff_toNat_lt.2 (by simp; omega))]
  refine ⟨_, _, _, rfl, ?_, ?_, ?_⟩
  · rw [toNat_tagged 4 (by decide) rfl (by decide),
      toNat_shiftRight_of_lt _ _ (by decide)]
    rfl
  · rw [toNat_tagged 6 (by decide) rfl (by decide),
      toNat_shiftRight_of_lt _ _ (by decide)]
    rfl
  · rw [toNat_tagged 6 (by decide) rfl (by decide)]
    rfl

/-- A code point from `0x10000` is four bytes. -/
theorem encodeUTF8CodePoint_of_le_10000 (hlo : 0x10000 ≤ codePoint.toNat) :
    ∃ a b c d, encodeUTF8CodePoint codePoint = [a, b, c, d] ∧
      a.toNat = 0xF0 + codePoint.toNat / 262144 % 8 ∧
      b.toNat = 0x80 + codePoint.toNat / 4096 % 64 ∧
      c.toNat = 0x80 + codePoint.toNat / 64 % 64 ∧ d.toNat = 0x80 + codePoint.toNat % 64 := by
  unfold encodeUTF8CodePoint
  rw [if_neg (mt UInt32.lt_iff_toNat_lt.1 (by simp; omega)),
    if_neg (mt UInt32.lt_iff_toNat_lt.1 (by simp; omega)),
    if_neg (mt UInt32.lt_iff_toNat_lt.1 (by simp; omega))]
  refine ⟨_, _, _, _, rfl, ?_, ?_, ?_, ?_⟩
  · rw [toNat_tagged 3 (by decide) rfl (by decide),
      toNat_shiftRight_of_lt _ _ (by decide)]
    rfl
  · rw [toNat_tagged 6 (by decide) rfl (by decide),
      toNat_shiftRight_of_lt _ _ (by decide)]
    rfl
  · rw [toNat_tagged 6 (by decide) rfl (by decide),
      toNat_shiftRight_of_lt _ _ (by decide)]
    rfl
  · rw [toNat_tagged 6 (by decide) rfl (by decide)]
    rfl

/-- **The encoder produces a well-formed sequence** of every scalar value. -/
theorem wellFormed_encodeUTF8CodePoint (hc : IsScalarValue codePoint.toNat) :
    WellFormed (encodeUTF8CodePoint codePoint) := by
  obtain ⟨hmax, hsurrogate⟩ := hc
  rcases Nat.lt_or_ge codePoint.toNat 0x80 with h1 | h1
  · obtain ⟨a, he, ha⟩ := encodeUTF8CodePoint_of_lt_80 h1
    rw [he]
    exact .one (by omega)
  rcases Nat.lt_or_ge codePoint.toNat 0x800 with h2 | h2
  · obtain ⟨a, b, he, ha, hb⟩ := encodeUTF8CodePoint_of_lt_800 h1 h2
    rw [he]
    exact .two (by omega) (by omega) ⟨by omega, by omega⟩
  rcases Nat.lt_or_ge codePoint.toNat 0x10000 with h3 | h3
  · obtain ⟨a, b, c, he, ha, hb, hc⟩ := encodeUTF8CodePoint_of_lt_10000 h2 h3
    rw [he]
    -- the range of the second byte follows the lead byte, which fixes the block of the code point
    refine .three (by omega) (by omega) ?_ ?_ ⟨by omega, by omega⟩ <;>
      unfold secondByteRange <;> split_ifs <;> dsimp only <;> omega
  · obtain ⟨a, b, c, d, he, ha, hb, hc, hd⟩ := encodeUTF8CodePoint_of_le_10000 h3
    rw [he]
    refine .four (by omega) (by omega) ?_ ?_ ⟨by omega, by omega⟩ ⟨by omega, by omega⟩ <;>
      unfold secondByteRange <;> split_ifs <;> dsimp only <;> omega

/-- **The encoder's sequence encodes the code point**, for every code point below `0x110000`. -/
theorem codePointOf_encodeUTF8CodePoint (hmax : codePoint.toNat ≤ 0x10FFFF) :
    codePointOf (encodeUTF8CodePoint codePoint) = codePoint.toNat := by
  rcases Nat.lt_or_ge codePoint.toNat 0x80 with h1 | h1
  · obtain ⟨a, he, ha⟩ := encodeUTF8CodePoint_of_lt_80 h1
    rw [he, codePointOf, ha]
  rcases Nat.lt_or_ge codePoint.toNat 0x800 with h2 | h2
  · obtain ⟨a, b, he, ha, hb⟩ := encodeUTF8CodePoint_of_lt_800 h1 h2
    rw [he, codePointOf, ha, hb]
    omega
  rcases Nat.lt_or_ge codePoint.toNat 0x10000 with h3 | h3
  · obtain ⟨a, b, c, he, ha, hb, hc⟩ := encodeUTF8CodePoint_of_lt_10000 h2 h3
    rw [he, codePointOf, ha, hb, hc]
    omega
  · obtain ⟨a, b, c, d, he, ha, hb, hc, hd⟩ := encodeUTF8CodePoint_of_le_10000 h3
    rw [he, codePointOf, ha, hb, hc, hd]
    omega

/-- The encoder's sequence starts with `0xED` exactly for the code points `U+D000` to
`U+DFFF`. -/
theorem head_encodeUTF8CodePoint_eq_ed_iff (hmax : codePoint.toNat ≤ 0x10FFFF) :
    (encodeUTF8CodePoint codePoint).head? = some 0xED ↔
      0xD000 ≤ codePoint.toNat ∧ codePoint.toNat ≤ 0xDFFF := by
  have hed : ∀ a : UInt8, a = 0xED ↔ a.toNat = 0xED := fun a => UInt8.toNat_inj.symm
  rcases Nat.lt_or_ge codePoint.toNat 0x80 with h1 | h1
  · obtain ⟨a, he, ha⟩ := encodeUTF8CodePoint_of_lt_80 h1
    rw [he, List.head?_cons, Option.some_inj, hed]
    omega
  rcases Nat.lt_or_ge codePoint.toNat 0x800 with h2 | h2
  · obtain ⟨a, b, he, ha, hb⟩ := encodeUTF8CodePoint_of_lt_800 h1 h2
    rw [he, List.head?_cons, Option.some_inj, hed]
    omega
  rcases Nat.lt_or_ge codePoint.toNat 0x10000 with h3 | h3
  · obtain ⟨a, b, c, he, ha, hb, hc⟩ := encodeUTF8CodePoint_of_lt_10000 h2 h3
    rw [he, List.head?_cons, Option.some_inj, hed]
    omega
  · obtain ⟨a, b, c, d, he, ha, hb, hc, hd⟩ := encodeUTF8CodePoint_of_le_10000 h3
    rw [he, List.head?_cons, Option.some_inj, hed]
    omega

end Encoder

/-! ## The decoder -/

/-- The payload bits of a byte of the decoder, shifted into place. -/
theorem toNat_shiftedPayload {b mask : UInt8} {shift : UInt32} (k : ℕ)
    (hmask : mask.toNat = 2 ^ k - 1) (hk : 0 < k) (hfit : k + shift.toNat ≤ 32) :
    ((b &&& mask).toUInt32 <<< shift).toNat = b.toNat % 2 ^ k * 2 ^ shift.toNat := by
  have hlt : b.toNat % 2 ^ k < 2 ^ k := Nat.mod_lt _ (Nat.two_pow_pos k)
  have hbound : b.toNat % 2 ^ k * 2 ^ shift.toNat < 2 ^ 32 :=
    calc b.toNat % 2 ^ k * 2 ^ shift.toNat
        < 2 ^ k * 2 ^ shift.toNat := Nat.mul_lt_mul_of_pos_right hlt (Nat.two_pow_pos _)
      _ = 2 ^ (k + shift.toNat) := (Nat.pow_add 2 k _).symm
      _ ≤ 2 ^ 32 := Nat.pow_le_pow_right (by decide) hfit
  rw [toNat_shiftLeft_of_lt (by omega) (by rw [toNat_payload k hmask]; exact hbound),
    toNat_payload k hmask]

/-- The payload of two bytes, as the decoder packs it. -/
theorem toNat_decodeTwo (a b : UInt8) :
    (((a &&& 0x1F).toUInt32 <<< 6) ||| (b &&& 0x3F).toUInt32).toNat = codePointOf [a, b] := by
  have ha : ((a &&& 0x1F).toUInt32 <<< 6).toNat = a.toNat % 32 * 64 :=
    toNat_shiftedPayload 5 rfl (by decide) (by decide)
  have hb : (b &&& 0x3F).toUInt32.toNat = b.toNat % 64 := toNat_payload 6 rfl
  rw [toNat_or_of_dvd 6 (by rw [ha]; exact Dvd.intro_left _ rfl) (by rw [hb]; omega), ha, hb]
  rfl

/-- The payload of three bytes, as the decoder packs it. -/
theorem toNat_decodeThree (a b c : UInt8) :
    (((a &&& 0x0F).toUInt32 <<< 12) ||| ((b &&& 0x3F).toUInt32 <<< 6) |||
      (c &&& 0x3F).toUInt32).toNat = codePointOf [a, b, c] := by
  have ha : ((a &&& 0x0F).toUInt32 <<< 12).toNat = a.toNat % 16 * 4096 :=
    toNat_shiftedPayload 4 rfl (by decide) (by decide)
  have hb : ((b &&& 0x3F).toUInt32 <<< 6).toNat = b.toNat % 64 * 64 :=
    toNat_shiftedPayload 6 rfl (by decide) (by decide)
  have hc : (c &&& 0x3F).toUInt32.toNat = c.toNat % 64 := toNat_payload 6 rfl
  -- the two shifted bytes first, then the last byte below both
  have hab : (((a &&& 0x0F).toUInt32 <<< 12) ||| ((b &&& 0x3F).toUInt32 <<< 6)).toNat =
      a.toNat % 16 * 4096 + b.toNat % 64 * 64 := by
    rw [toNat_or_of_dvd 12 (by rw [ha]; exact Dvd.intro_left _ rfl) (by rw [hb]; omega), ha, hb]
  rw [toNat_or_of_dvd 6 (by rw [hab]; omega) (by rw [hc]; omega), hab, hc]
  rfl

/-- The payload of four bytes, as the decoder packs it. -/
theorem toNat_decodeFour (a b c d : UInt8) :
    (((a &&& 0x07).toUInt32 <<< 18) ||| ((b &&& 0x3F).toUInt32 <<< 12) |||
      ((c &&& 0x3F).toUInt32 <<< 6) ||| (d &&& 0x3F).toUInt32).toNat = codePointOf [a, b, c, d] := by
  have ha : ((a &&& 0x07).toUInt32 <<< 18).toNat = a.toNat % 8 * 262144 :=
    toNat_shiftedPayload 3 rfl (by decide) (by decide)
  have hb : ((b &&& 0x3F).toUInt32 <<< 12).toNat = b.toNat % 64 * 4096 :=
    toNat_shiftedPayload 6 rfl (by decide) (by decide)
  have hc : ((c &&& 0x3F).toUInt32 <<< 6).toNat = c.toNat % 64 * 64 :=
    toNat_shiftedPayload 6 rfl (by decide) (by decide)
  have hd : (d &&& 0x3F).toUInt32.toNat = d.toNat % 64 := toNat_payload 6 rfl
  -- the shifted bytes from the top down, each or-ed onto bits that are clear
  have hab : (((a &&& 0x07).toUInt32 <<< 18) ||| ((b &&& 0x3F).toUInt32 <<< 12)).toNat =
      a.toNat % 8 * 262144 + b.toNat % 64 * 4096 := by
    rw [toNat_or_of_dvd 18 (by rw [ha]; exact Dvd.intro_left _ rfl) (by rw [hb]; omega), ha, hb]
  have habc : (((a &&& 0x07).toUInt32 <<< 18) ||| ((b &&& 0x3F).toUInt32 <<< 12) |||
      ((c &&& 0x3F).toUInt32 <<< 6)).toNat =
        a.toNat % 8 * 262144 + b.toNat % 64 * 4096 + c.toNat % 64 * 64 := by
    rw [toNat_or_of_dvd 12 (by rw [hab]; omega) (by rw [hc]; omega), hab, hc]
  rw [toNat_or_of_dvd 6 (by rw [habc]; omega) (by rw [hd]; omega), habc, hd]
  rfl

@[simp] theorem continuationInvalid_nil_right (bytes : List UInt8) :
    continuationInvalid bytes [] = false := by
  cases bytes <;> rfl

@[simp] theorem continuationInvalid_nil_cons (range : UInt8 × UInt8)
    (ranges : List (UInt8 × UInt8)) : continuationInvalid [] (range :: ranges) = true := rfl

@[simp] theorem continuationInvalid_cons_cons (b : UInt8) (bs : List UInt8) (lo hi : UInt8)
    (ranges : List (UInt8 × UInt8)) :
    continuationInvalid (b :: bs) ((lo, hi) :: ranges) =
      (decide (b < lo) || decide (b > hi) || continuationInvalid bs ranges) := rfl

/-- A byte within a range passes the test of the decoder. -/
theorem outside_eq_false {b : UInt8} (lo hi : UInt8) (hlo : lo.toNat ≤ b.toNat) (hhi : b.toNat ≤ hi.toNat) :
    (decide (b < lo) || decide (b > hi)) = false := by
  simp only [Bool.or_eq_false_iff, decide_eq_false_iff_not, gt_iff_lt, UInt8.lt_iff_toNat_lt]
  omega

/-- **The test after `0xED` refuses every byte**: no byte is at least `0xa0` and at most
`0x9f`. -/
theorem outside_a0_9f (b : UInt8) : (decide (b < 0xa0) || decide (b > 0x9f)) = true := by
  simp only [Bool.or_eq_true, decide_eq_true_eq, gt_iff_lt, UInt8.lt_iff_toNat_lt]
  change b.toNat < 0xa0 ∨ 0x9f < b.toNat
  omega

/-- **No sequence with lead byte `0xED` decodes.** -/
theorem decodeUTF8CodePoint_ed (rest : List UInt8) : decodeUTF8CodePoint (0xED :: rest) = none := by
  cases rest with
  | nil => rfl
  | cons b rest =>
    simp only [decodeUTF8CodePoint, continuationInvalid_cons_cons, outside_a0_9f, Bool.true_or]
    rfl

/-- The test after `0xED` holds of every buffer. -/
theorem continuationInvalid_a0_9f (rest : List UInt8) :
    continuationInvalid rest [(0xa0, 0x9f), (0x80, 0xbf)] = true := by
  cases rest with
  | nil => rfl
  | cons b rest => rw [continuationInvalid_cons_cons, outside_a0_9f, Bool.true_or]

/-- A sequence starts with `0xED` only if its lead byte is `0xED`. -/
theorem head?_cons_ne_ed_iff {a : UInt8} {rest : List UInt8} :
    (a :: rest).head? ≠ some 0xED ↔ a.toNat ≠ 0xED := by
  rw [List.head?_cons, Ne, Option.some_inj, ← UInt8.toNat_inj]
  rfl

/-- **Every well-formed sequence that does not start with `0xED` decodes**, to the code point
it encodes, taking exactly its bytes. -/
theorem decodeUTF8CodePoint_of_wellFormed {s : List UInt8} (hs : WellFormed s)
    (hed : s.head? ≠ some 0xED) (rest : List UInt8) :
    decodeUTF8CodePoint (s ++ rest) = some (UInt32.ofNat (codePointOf s), s.length) := by
  cases hs with
  | @one a ha =>
    have h1 : a < 0x80 := UInt8.lt_iff_toNat_lt.2 (by change a.toNat < 128; omega)
    have hval : UInt32.ofNat (codePointOf [a]) = a.toUInt32 := by
      rw [codePointOf, ← UInt8.toNat_toUInt32, UInt32.ofNat_toNat]
    simp only [List.cons_append, List.nil_append, decodeUTF8CodePoint, h1, if_true, hval,
      List.length_singleton]
  | @two a b ha ha' hb =>
    have h1 : ¬ a < 0x80 := fun h => by
      have := UInt8.lt_iff_toNat_lt.1 h
      change a.toNat < 128 at this
      omega
    have h2 : a ≥ 0xc2 ∧ a ≤ 0xdf := ⟨UInt8.le_iff_toNat_le.2 ha, UInt8.le_iff_toNat_le.2 ha'⟩
    have hcont : continuationInvalid (b :: rest) [(0x80, 0xbf)] = false := by
      rw [continuationInvalid_cons_cons, outside_eq_false 0x80 0xbf hb.1 hb.2,
        continuationInvalid_nil_right, Bool.false_or]
    simp only [List.cons_append, List.nil_append, decodeUTF8CodePoint, h1, h2, hcont, if_false,
      and_self, if_true, Bool.false_eq_true, List.getD_cons_zero]
    rw [← toNat_decodeTwo a b, UInt32.ofNat_toNat]
    rfl
  | @three a b c ha ha' hb hb' hc =>
    have hne : a.toNat ≠ 0xED := head?_cons_ne_ed_iff.1 hed
    unfold secondByteRange at hb hb'
    unfold Tail at hc
    simp only [List.cons_append, List.nil_append, decodeUTF8CodePoint, continuationInvalid_cons_cons,
      continuationInvalid_nil_right, Bool.or_false, List.getD_cons_zero, List.getD_cons_succ]
    -- the lead byte picks the ranges of the bytes after it; all but one branch contradict it
    simp only [ge_iff_le, gt_iff_lt, UInt8.lt_iff_toNat_lt, UInt8.le_iff_toNat_le,
      ← UInt8.toNat_inj, UInt8.reduceToNat]
    split_ifs at hb hb' ⊢ <;> simp only [Bool.or_eq_true, decide_eq_true_eq] at * <;>
      first | omega | (rw [← toNat_decodeThree a b c, UInt32.ofNat_toNat]; rfl)
  | @four a b c d ha ha' hb hb' hc hd =>
    unfold secondByteRange at hb hb'
    unfold Tail at hc hd
    simp only [List.cons_append, List.nil_append, decodeUTF8CodePoint, continuationInvalid_cons_cons,
      continuationInvalid_nil_right, Bool.or_false, List.getD_cons_zero, List.getD_cons_succ]
    simp only [ge_iff_le, gt_iff_lt, UInt8.lt_iff_toNat_lt, UInt8.le_iff_toNat_le,
      ← UInt8.toNat_inj, UInt8.reduceToNat]
    split_ifs at hb hb' ⊢ <;> simp only [Bool.or_eq_true, decide_eq_true_eq] at * <;>
      first | omega | (rw [← toNat_decodeFour a b c d, UInt32.ofNat_toNat]; rfl)

/-- What the decoder's test of the bytes after a lead byte leaves: the first byte lies in
the first range, and the rest pass the rest of the test. -/
theorem continuationInvalid_eq_false_cons {bytes : List UInt8} {lo hi : UInt8}
    {ranges : List (UInt8 × UInt8)} (h : continuationInvalid bytes ((lo, hi) :: ranges) = false) :
    ∃ b rest, bytes = b :: rest ∧ lo.toNat ≤ b.toNat ∧ b.toNat ≤ hi.toNat ∧
      continuationInvalid rest ranges = false := by
  cases bytes with
  | nil => cases h
  | cons b rest =>
    simp only [continuationInvalid_cons_cons, Bool.or_eq_false_iff, decide_eq_false_iff_not,
      gt_iff_lt, UInt8.lt_iff_toNat_lt] at h
    exact ⟨b, rest, rfl, by omega, by omega, h.2⟩

/-- A lead byte of two bytes and a byte that passes its test begin a well-formed sequence. -/
theorem exists_wellFormed_two {a : UInt8} {rest : List UInt8} (ha : 0xC2 ≤ a.toNat)
    (ha' : a.toNat ≤ 0xDF) (h : continuationInvalid rest [(0x80, 0xbf)] = false) :
    ∃ s rest', a :: rest = s ++ rest' ∧ WellFormed s ∧ s.head? ≠ some 0xED := by
  obtain ⟨b, rest', rfl, hb, hb', -⟩ := continuationInvalid_eq_false_cons h
  exact ⟨[a, b], rest', rfl, .two ha ha' ⟨hb, hb'⟩, head?_cons_ne_ed_iff.2 (by omega)⟩

/-- A lead byte of three bytes other than `0xED` and bytes that pass a test within its
ranges begin a well-formed sequence. -/
theorem exists_wellFormed_three {a lo hi : UInt8} {rest : List UInt8} (ha : 0xE0 ≤ a.toNat)
    (ha' : a.toNat ≤ 0xEF) (hed : a.toNat ≠ 0xED) (hlo : (secondByteRange a).1 ≤ lo.toNat)
    (hhi : hi.toNat ≤ (secondByteRange a).2)
    (h : continuationInvalid rest [(lo, hi), (0x80, 0xbf)] = false) :
    ∃ s rest', a :: rest = s ++ rest' ∧ WellFormed s ∧ s.head? ≠ some 0xED := by
  obtain ⟨b, rest, rfl, hb, hb', h⟩ := continuationInvalid_eq_false_cons h
  obtain ⟨c, rest', rfl, hc, hc', -⟩ := continuationInvalid_eq_false_cons h
  exact ⟨[a, b, c], rest', rfl, .three ha ha' (by omega) (by omega) ⟨hc, hc'⟩,
    head?_cons_ne_ed_iff.2 hed⟩

/-- A lead byte of four bytes and bytes that pass a test within its ranges begin a
well-formed sequence. -/
theorem exists_wellFormed_four {a lo hi : UInt8} {rest : List UInt8} (ha : 0xF0 ≤ a.toNat)
    (ha' : a.toNat ≤ 0xF4) (hlo : (secondByteRange a).1 ≤ lo.toNat)
    (hhi : hi.toNat ≤ (secondByteRange a).2)
    (h : continuationInvalid rest [(lo, hi), (0x80, 0xbf), (0x80, 0xbf)] = false) :
    ∃ s rest', a :: rest = s ++ rest' ∧ WellFormed s ∧ s.head? ≠ some 0xED := by
  obtain ⟨b, rest, rfl, hb, hb', h⟩ := continuationInvalid_eq_false_cons h
  obtain ⟨c, rest, rfl, hc, hc', h⟩ := continuationInvalid_eq_false_cons h
  obtain ⟨d, rest', rfl, hd, hd', -⟩ := continuationInvalid_eq_false_cons h
  exact ⟨[a, b, c, d], rest', rfl, .four ha ha' (by omega) (by omega) ⟨hc, hc'⟩ ⟨hd, hd'⟩,
    head?_cons_ne_ed_iff.2 (by omega)⟩

/-- What decodes starts with a well-formed sequence that does not start with `0xED`. -/
theorem exists_wellFormed_of_decodeUTF8CodePoint_eq_some {bytes : List UInt8}
    {codePoint : UInt32} {numBytes : ℕ} (h : decodeUTF8CodePoint bytes = some (codePoint, numBytes)) :
    ∃ s rest, bytes = s ++ rest ∧ WellFormed s ∧ s.head? ≠ some 0xED := by
  cases bytes with
  | nil => cases h
  | cons a rest =>
    simp only [decodeUTF8CodePoint] at h
    simp only [ge_iff_le, UInt8.lt_iff_toNat_lt, UInt8.le_iff_toNat_le, ← UInt8.toNat_inj,
      UInt8.reduceToNat] at h
    -- one goal for each branch of the source that returns a code point
    split_ifs at h with h1 h2 h3
    · exact ⟨[a], rest, rfl, .one (by omega), head?_cons_ne_ed_iff.2 (by omega)⟩
    · exact exists_wellFormed_two (by omega) (by omega) (Bool.eq_false_iff.2 h3)
    -- the lead byte fixes the ranges of the test; the branch after 0xED and those the tests
    -- of the lead byte exclude are impossible
    all_goals first
      | omega
      | exact absurd (continuationInvalid_a0_9f rest) ‹_›
      | refine exists_wellFormed_three (by omega) (by omega) (by omega) ?_ ?_
          (Bool.eq_false_iff.2 ‹_›) <;>
          unfold secondByteRange <;> split_ifs <;> simp only [UInt8.reduceToNat] <;> omega
      | refine exists_wellFormed_four (by omega) (by omega) ?_ ?_ (Bool.eq_false_iff.2 ‹_›) <;>
          unfold secondByteRange <;> split_ifs <;> simp only [UInt8.reduceToNat] <;> omega

/-- **The decoder takes only well-formed sequences that do not start with `0xED`**, and
returns the code point of the sequence and its length. -/
theorem decodeUTF8CodePoint_eq_some {bytes : List UInt8} {codePoint : UInt32} {numBytes : ℕ}
    (h : decodeUTF8CodePoint bytes = some (codePoint, numBytes)) :
    ∃ s rest, bytes = s ++ rest ∧ WellFormed s ∧ s.head? ≠ some 0xED ∧
      codePoint = UInt32.ofNat (codePointOf s) ∧ numBytes = s.length := by
  obtain ⟨s, rest, rfl, hs, hed⟩ := exists_wellFormed_of_decodeUTF8CodePoint_eq_some h
  rw [decodeUTF8CodePoint_of_wellFormed hs hed rest, Option.some_inj, Prod.mk.injEq] at h
  exact ⟨s, rest, rfl, hs, hed, h.1.symm, h.2.symm⟩

/-! ## Round trip -/

section RoundTrip

variable {codePoint : UInt32}

/-- **Decoding undoes encoding** for every scalar value outside `U+D000` to `U+D7FF`. -/
theorem decodeUTF8CodePoint_encodeUTF8CodePoint (hc : IsScalarValue codePoint.toNat)
    (hed : ¬ (0xD000 ≤ codePoint.toNat ∧ codePoint.toNat ≤ 0xD7FF)) (rest : List UInt8) :
    decodeUTF8CodePoint (encodeUTF8CodePoint codePoint ++ rest) =
      some (codePoint, (encodeUTF8CodePoint codePoint).length) := by
  have hhead : (encodeUTF8CodePoint codePoint).head? ≠ some 0xED := by
    rw [Ne, head_encodeUTF8CodePoint_eq_ed_iff hc.1]
    have := hc.2
    omega
  rw [decodeUTF8CodePoint_of_wellFormed (wellFormed_encodeUTF8CodePoint hc) hhead rest,
    codePointOf_encodeUTF8CodePoint hc.1, UInt32.ofNat_toNat]

/-- **The decoder rejects the code points `U+D000` to `U+D7FF`**: each is a scalar value whose
encoding is a row of Table 3-7 (`ED 80..9F 80..BF`) and encodes it, yet it does not decode,
whatever follows it. -/
theorem decodeUTF8CodePoint_rejects_ed_block (hlo : 0xD000 ≤ codePoint.toNat)
    (hhi : codePoint.toNat ≤ 0xD7FF) (rest : List UInt8) :
    WellFormed (encodeUTF8CodePoint codePoint) ∧
      codePointOf (encodeUTF8CodePoint codePoint) = codePoint.toNat ∧
      decodeUTF8CodePoint (encodeUTF8CodePoint codePoint ++ rest) = none := by
  have hc : IsScalarValue codePoint.toNat := ⟨by omega, by omega⟩
  refine ⟨wellFormed_encodeUTF8CodePoint hc, codePointOf_encodeUTF8CodePoint hc.1, ?_⟩
  obtain ⟨tail, htail⟩ := List.head?_eq_some_iff.1
    ((head_encodeUTF8CodePoint_eq_ed_iff hc.1).2 ⟨hlo, by omega⟩)
  rw [htail, List.cons_append, decodeUTF8CodePoint_ed]

/-- `U+D000`, the first of them, is `ED 80 80`. -/
theorem decodeUTF8CodePoint_rejects_d000 :
    encodeUTF8CodePoint 0xD000 = [0xED, 0x80, 0x80] ∧ WellFormed [0xED, 0x80, 0x80] ∧
      decodeUTF8CodePoint [0xED, 0x80, 0x80] = none := by
  have he : encodeUTF8CodePoint 0xD000 = [0xED, 0x80, 0x80] := by decide
  have h := decodeUTF8CodePoint_rejects_ed_block (by decide : 0xD000 ≤ (0xD000 : UInt32).toNat)
    (by decide) []
  rw [he, List.append_nil] at h
  exact ⟨he, h.1, h.2.2⟩

/-- **UTF-8 has one encoding of each code point**: the encoder gives back every well-formed
sequence from the code point it encodes. -/
theorem encodeUTF8CodePoint_codePointOf {s : List UInt8} (hs : WellFormed s) :
    encodeUTF8CodePoint (UInt32.ofNat (codePointOf s)) = s := by
  have hofNat : ∀ n, n ≤ 0x10FFFF → (UInt32.ofNat n).toNat = n :=
    fun n hn => UInt32.toNat_ofNat_of_lt' (by change n < 2 ^ 32; omega)
  -- in each row the code point lies in the block the encoder gives that many bytes, and the
  -- encoder's bytes are then the row's, byte by byte
  cases hs with
  | @one a ha =>
    have hcp : (UInt32.ofNat (codePointOf [a])).toNat = a.toNat := by
      rw [codePointOf, hofNat _ (by omega)]
    obtain ⟨a', he, ha'⟩ := encodeUTF8CodePoint_of_lt_80 (by rw [hcp]; omega)
    rw [he, UInt8.toNat_inj.1 (ha'.trans hcp)]
  | @two a b ha ha' hb =>
    obtain ⟨hb, hb'⟩ := hb
    have hcp : (UInt32.ofNat (codePointOf [a, b])).toNat = a.toNat % 32 * 64 + b.toNat % 64 := by
      rw [codePointOf, hofNat _ (by omega)]
    obtain ⟨a₁, b₁, he, ha₁, hb₁⟩ :=
      encodeUTF8CodePoint_of_lt_800 (by rw [hcp]; omega) (by rw [hcp]; omega)
    rw [hcp] at ha₁ hb₁
    rw [he, ← UInt8.toNat_inj.1 (show a₁.toNat = a.toNat by omega),
      ← UInt8.toNat_inj.1 (show b₁.toNat = b.toNat by omega)]
  | @three a b c ha ha' hb hb' hc =>
    obtain ⟨hc, hc'⟩ := hc
    have hrange : (0xA0 ≤ b.toNat ∨ 0xE1 ≤ a.toNat) ∧ 0x80 ≤ b.toNat ∧ b.toNat ≤ 0xBF := by
      unfold secondByteRange at hb hb'; split_ifs at hb hb' <;> dsimp only at hb hb' <;> omega
    have hcp : (UInt32.ofNat (codePointOf [a, b, c])).toNat =
        a.toNat % 16 * 4096 + b.toNat % 64 * 64 + c.toNat % 64 := by
      rw [codePointOf, hofNat _ (by omega)]
    obtain ⟨a₁, b₁, c₁, he, ha₁, hb₁, hc₁⟩ :=
      encodeUTF8CodePoint_of_lt_10000 (by rw [hcp]; omega) (by rw [hcp]; omega)
    rw [hcp] at ha₁ hb₁ hc₁
    rw [he, ← UInt8.toNat_inj.1 (show a₁.toNat = a.toNat by omega),
      ← UInt8.toNat_inj.1 (show b₁.toNat = b.toNat by omega),
      ← UInt8.toNat_inj.1 (show c₁.toNat = c.toNat by omega)]
  | @four a b c d ha ha' hb hb' hc hd =>
    obtain ⟨hc, hc'⟩ := hc
    obtain ⟨hd, hd'⟩ := hd
    have hrange : (0x90 ≤ b.toNat ∨ 0xF1 ≤ a.toNat) ∧ (a.toNat = 0xF4 → b.toNat ≤ 0x8F) ∧
        0x80 ≤ b.toNat ∧ b.toNat ≤ 0xBF := by
      unfold secondByteRange at hb hb'; split_ifs at hb hb' <;> dsimp only at hb hb' <;> omega
    have hcp : (UInt32.ofNat (codePointOf [a, b, c, d])).toNat =
        a.toNat % 8 * 262144 + b.toNat % 64 * 4096 + c.toNat % 64 * 64 + d.toNat % 64 := by
      rw [codePointOf, hofNat _ (by omega)]
    obtain ⟨a₁, b₁, c₁, d₁, he, ha₁, hb₁, hc₁, hd₁⟩ :=
      encodeUTF8CodePoint_of_le_10000 (by rw [hcp]; omega)
    rw [hcp] at ha₁ hb₁ hc₁ hd₁
    rw [he, ← UInt8.toNat_inj.1 (show a₁.toNat = a.toNat by omega),
      ← UInt8.toNat_inj.1 (show b₁.toNat = b.toNat by omega),
      ← UInt8.toNat_inj.1 (show c₁.toNat = c.toNat by omega),
      ← UInt8.toNat_inj.1 (show d₁.toNat = d.toNat by omega)]

/-- A well-formed sequence encodes a code point up to `U+10FFFF`. -/
theorem codePointOf_le_10ffff {s : List UInt8} (hs : WellFormed s) : codePointOf s ≤ 0x10FFFF := by
  cases hs with
  | one ha => exact Nat.le_trans ha (by decide)
  | two => simp only [codePointOf]; omega
  | three => simp only [codePointOf]; omega
  | @four a b c d ha ha' hb hb' =>
    -- only after `F4`, whose second byte stops at `8F`, could the code point pass `U+10FFFF`
    have hF4 : a.toNat = 0xF4 → b.toNat ≤ 0x8F := fun h => by
      simp only [secondByteRange, h] at hb'; exact hb'
    have := secondByteRange_bounds a
    simp only [codePointOf]
    omega

/-- **What the decoder takes in turn are the encodings of the scalar values outside
`U+D000` to `U+D7FF`**, one after another. -/
theorem decodable_iff_eq_flatMap {bytes : List UInt8} :
    Decodable bytes ↔ ∃ codePoints : List UInt32,
      (∀ c ∈ codePoints, IsScalarValue c.toNat ∧ ¬ (0xD000 ≤ c.toNat ∧ c.toNat ≤ 0xD7FF)) ∧
        bytes = codePoints.flatMap encodeUTF8CodePoint := by
  constructor
  · intro h
    induction h with
    | nil => exact ⟨[], by simp, rfl⟩
    | @cons s rest hs hed _ ih =>
      obtain ⟨codePoints, hall, rfl⟩ := ih
      have hmax := codePointOf_le_10ffff hs
      have hc : (UInt32.ofNat (codePointOf s)).toNat = codePointOf s :=
        UInt32.toNat_ofNat_of_lt' (by change codePointOf s < 2 ^ 32; omega)
      have he := encodeUTF8CodePoint_codePointOf hs
      -- the lead byte is not `ED`, so the code point is neither a surrogate nor in `D000..D7FF`
      have hblock := (head_encodeUTF8CodePoint_eq_ed_iff (hc ▸ hmax)).not.1 (by rw [he]; exact hed)
      rw [hc] at hblock
      refine ⟨UInt32.ofNat (codePointOf s) :: codePoints, ?_, by rw [List.flatMap_cons, he]⟩
      intro c hmem
      rcases List.mem_cons.1 hmem with rfl | hmem
      · rw [hc]
        exact ⟨⟨hmax, by omega⟩, by omega⟩
      · exact hall c hmem
  · rintro ⟨codePoints, hall, rfl⟩
    induction codePoints with
    | nil => exact .nil
    | cons c codePoints ih =>
      obtain ⟨hc, hblock⟩ := hall c List.mem_cons_self
      rw [List.flatMap_cons]
      refine .cons (wellFormed_encodeUTF8CodePoint hc) ?_
        (ih fun c' hc' => hall c' (List.mem_cons_of_mem c hc'))
      rw [Ne, head_encodeUTF8CodePoint_eq_ed_iff hc.1]
      have := hc.2
      omega

end RoundTrip

/-! ## Validation -/

section Validation

/-- A well-formed sequence has a lead byte. -/
theorem WellFormed.exists_cons {s : List UInt8} (hs : WellFormed s) : ∃ a t, s = a :: t := by
  cases hs <;> exact ⟨_, _, rfl⟩

/-- One round of the loop over a sequence the decoder takes. -/
theorem validateUTF8StringLoop_append {s : List UInt8} (hs : WellFormed s)
    (hed : s.head? ≠ some 0xED) (rest : List UInt8) (fuel : ℕ) :
    validateUTF8StringLoop (fuel + 1) (s ++ rest) = s.length + validateUTF8StringLoop fuel rest := by
  obtain ⟨a, t, rfl⟩ := hs.exists_cons
  rw [List.cons_append, validateUTF8StringLoop, ← List.cons_append,
    decodeUTF8CodePoint_of_wellFormed hs hed]
  dsimp only
  rw [List.drop_left]

/-- With a round for each byte, the loop goes through a buffer the decoder takes in turn. -/
theorem validateUTF8StringLoop_of_decodable {bytes : List UInt8} (h : Decodable bytes) :
    ∀ fuel, bytes.length ≤ fuel → validateUTF8StringLoop fuel bytes = bytes.length := by
  induction h with
  | nil => intro fuel _; cases fuel <;> rfl
  | @cons s rest hs hed _ ih =>
    intro fuel hfuel
    -- the sequence takes at least one byte, so at least one round is left
    have hpos : 0 < s.length := by
      obtain ⟨a, t, rfl⟩ := hs.exists_cons
      exact Nat.succ_pos _
    rw [List.length_append] at hfuel ⊢
    obtain ⟨fuel, rfl⟩ : ∃ f, fuel = f + 1 := ⟨fuel - 1, by omega⟩
    rw [validateUTF8StringLoop_append hs hed, ih fuel (by omega)]

/-- What the loop goes through to the end, the decoder takes in turn. -/
theorem decodable_of_validateUTF8StringLoop {fuel : ℕ} {bytes : List UInt8}
    (h : validateUTF8StringLoop fuel bytes = bytes.length) : Decodable bytes := by
  induction fuel generalizing bytes with
  | zero =>
    rw [validateUTF8StringLoop, eq_comm, List.length_eq_zero_iff] at h
    rw [h]
    exact .nil
  | succ fuel ih =>
    cases bytes with
    | nil => exact .nil
    | cons b bs =>
      rw [validateUTF8StringLoop] at h
      split at h
      · exact absurd h (Nat.succ_ne_zero _).symm
      · rename_i hdecode
        obtain ⟨s, rest, hsplit, hs, hed, -, rfl⟩ := decodeUTF8CodePoint_eq_some hdecode
        rw [hsplit, List.drop_left, List.length_append] at h
        rw [hsplit]
        exact .cons hs hed (ih (by omega))

/-- **validateUTF8String goes to the end of exactly the buffers the decoder takes in turn.** -/
theorem validateUTF8String_eq_length_iff {bytes : List UInt8} :
    validateUTF8String bytes = bytes.length ↔ Decodable bytes :=
  ⟨decodable_of_validateUTF8StringLoop, fun h => validateUTF8StringLoop_of_decodable h _ le_rfl⟩

/-- The loop stops after a prefix the decoder takes in turn. -/
theorem decodable_take_validateUTF8StringLoop (fuel : ℕ) (bytes : List UInt8) :
    Decodable (bytes.take (validateUTF8StringLoop fuel bytes)) := by
  induction fuel generalizing bytes with
  | zero => exact .nil
  | succ fuel ih =>
    cases bytes with
    | nil => exact .nil
    | cons b bs =>
      rw [validateUTF8StringLoop]
      split
      · exact .nil
      · rename_i hdecode
        obtain ⟨s, rest, hsplit, hs, hed, -, rfl⟩ := decodeUTF8CodePoint_eq_some hdecode
        rw [hsplit, List.drop_left, List.take_length_add_append]
        exact .cons hs hed (ih rest)

/-- `throwIfNotValidUTF8` of the binary loader: a name is refused unless
`validateUTF8String` reaches its end. -/
def throwIfNotValidUTF8 (string : List UInt8) : Except String Unit :=
  if validateUTF8String string ≠ string.length then .error "invalid UTF-8 encoding" else .ok ()

/-- **The loader accepts exactly the names that are the encodings of scalar values outside
`U+D000` to `U+D7FF`, one after another.** -/
theorem throwIfNotValidUTF8_eq_ok_iff {string : List UInt8} :
    throwIfNotValidUTF8 string = .ok () ↔ ∃ codePoints : List UInt32,
      (∀ c ∈ codePoints, IsScalarValue c.toNat ∧ ¬ (0xD000 ≤ c.toNat ∧ c.toNat ≤ 0xD7FF)) ∧
        string = codePoints.flatMap encodeUTF8CodePoint := by
  rw [← decodable_iff_eq_flatMap, ← validateUTF8String_eq_length_iff, throwIfNotValidUTF8]
  split_ifs with h
  · exact ⟨fun h' => (by cases h'), fun h' => absurd h' h⟩
  · exact ⟨fun _ => not_not.1 h, fun _ => rfl⟩

end Validation

end Wavm.Unicode
