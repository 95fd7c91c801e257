import Wavm.Inline.Serialization
import Mathlib

set_option relaxedAutoImplicit false
set_option autoImplicit false

/-!
# LEB128 integers: what the two overloads of `serializeVarInt` compute

A group of bytes encodes the number its seven-bit digits spell, least significant first, read
as a two's-complement number of `7 * length` bits for a signed type (`groupValue`). The writer
emits a group that encodes its value, with the continuation bit exactly on the bytes before the
last, and no more bytes than the value needs; the reader takes such a group off the stream and
returns what it encodes, and its final-byte check holds exactly when that value fits in
`maxBits` bits.

## Main results

* `groupValue_writeBytes`, `length_writeBytes_le`: the writer's bytes encode the value, in at
  most `k` bytes when the value fits in `7 * k` bits.
* `checkLastByteBits_eq_ok_iff`: the final-byte check, as a condition on the encoded value.
* `InputStream.serializeVarInt_eq_ok_iff`: what the reader accepts and returns.
* `serializeVarInt_roundTrip`, `InputStream.serializeVarInt_sound`: for a format that fits its
  type, reading back the written bytes gives the value, and every accepted stream starts with a
  group that encodes the value read, which fits in `maxBits` bits.
-/

namespace Wavm.Serialization

/-! ## The value a group of bytes encodes -/

/-- The seven data bits of a byte, `byte & ~0x80`. -/
def dataBits (byte : UInt8) : ℕ := (byte &&& 0x7F).toNat

/-- The number the data bits of the bytes spell, least significant first. -/
def digitValue (bytes : List UInt8) : ℕ := Nat.ofDigits 128 (bytes.map dataBits)

/-- The integer a group of bytes encodes: its digit value, read as a two's-complement number of
`7 * length` bits for a signed type. -/
def groupValue (isSigned : Bool) (bytes : List UInt8) : ℤ :=
  if isSigned then (digitValue bytes : ℤ).bmod (128 ^ bytes.length) else digitValue bytes

theorem dataBits_lt (byte : UInt8) : dataBits byte < 128 := by
  have : (byte &&& 0x7F).toNat ≤ 127 := by
    rw [UInt8.toNat_and]
    exact Nat.and_le_right
  exact Nat.lt_succ_of_le this

@[simp] theorem dataBits_zero : dataBits 0 = 0 := rfl

@[simp] theorem digitValue_nil : digitValue [] = 0 := rfl

theorem digitValue_cons (byte : UInt8) (bytes : List UInt8) :
    digitValue (byte :: bytes) = dataBits byte + 128 * digitValue bytes := by
  rw [digitValue, List.map_cons, Nat.ofDigits_cons, digitValue]

theorem digitValue_singleton (byte : UInt8) : digitValue [byte] = dataBits byte := by
  rw [digitValue, List.map_singleton, Nat.ofDigits_singleton]

theorem digitValue_lt (bytes : List UInt8) : digitValue bytes < 128 ^ bytes.length := by
  have h := Nat.ofDigits_lt_base_pow_length (b := 128) (l := bytes.map dataBits) (by decide)
    (by
      intro d hd
      obtain ⟨byte, -, rfl⟩ := List.mem_map.1 hd
      exact dataBits_lt byte)
  rwa [List.length_map] at h

/-- Zero bytes after a group add nothing to its value: the reader's buffer is padded with them. -/
theorem digitValue_append_replicate_zero (bytes : List UInt8) (k : ℕ) :
    digitValue (bytes ++ List.replicate k 0) = digitValue bytes := by
  rw [digitValue, List.map_append, List.map_replicate, dataBits_zero,
    Nat.ofDigits_append_replicate_zero, digitValue]

/-- A number in `[0, m)` reduced into `[-m/2, m/2)`. -/
theorem bmod_of_nonneg_of_lt {x : ℤ} {m : ℕ} (h0 : 0 ≤ x) (h : x < m) :
    x.bmod m = if 2 * x < m then x else x - m := by
  rw [Int.bmod_def, Int.emod_eq_of_lt h0 h]
  split_ifs <;> omega

theorem groupValue_singleton (isSigned : Bool) (byte : UInt8) :
    groupValue isSigned [byte] =
      if isSigned then if dataBits byte < 64 then (dataBits byte : ℤ) else dataBits byte - 128
      else dataBits byte := by
  have := dataBits_lt byte
  unfold groupValue
  rw [digitValue_singleton]
  cases isSigned
  · rfl
  · simp only [if_true, List.length_singleton, pow_one]
    rw [bmod_of_nonneg_of_lt (by omega) (by push_cast; omega)]
    split_ifs <;> omega

/-- A byte before a non-empty group adds its data bits below the group's value. -/
theorem groupValue_cons (isSigned : Bool) (byte : UInt8) {bytes : List UInt8}
    (h : bytes ≠ []) :
    groupValue isSigned (byte :: bytes) = dataBits byte + 128 * groupValue isSigned bytes := by
  have hd := dataBits_lt byte
  unfold groupValue
  rw [digitValue_cons]
  cases isSigned
  · simp only [Bool.false_eq_true, if_false]
    push_cast
    rfl
  · simp only [if_true]
    obtain ⟨n, hn⟩ : ∃ n, bytes.length = n + 1 :=
      Nat.exists_eq_add_one_of_ne_zero (by simpa using h)
    have hD : (digitValue bytes : ℤ) < 128 ^ n * 128 := by
      have := digitValue_lt bytes
      rw [hn, pow_succ] at this
      exact_mod_cast this
    rw [List.length_cons, hn]
    push_cast
    rw [pow_succ, pow_succ]
    rw [bmod_of_nonneg_of_lt (by omega) (by push_cast; omega),
      bmod_of_nonneg_of_lt (by omega) (by push_cast; omega)]
    push_cast
    split_ifs <;> omega

/-! ## Fitting in a number of bits -/

theorem inBits_mono {isSigned : Bool} {m n : ℕ} {v : ℤ} (hmn : m ≤ n)
    (h : InBits isSigned m v) : InBits isSigned n v := by
  have : (2 : ℤ) ^ m ≤ 2 ^ n := pow_le_pow_right₀ (by norm_num) hmn
  cases isSigned
  · rw [inBits_false] at h ⊢
    omega
  · rw [inBits_true] at h ⊢
    omega

/-- Seven more low bits hold a value exactly when its high part fits in the rest. -/
theorem inBits_add_seven_iff {isSigned : Bool} {n : ℕ} (hn : 0 < n) {d v : ℤ} (hd0 : 0 ≤ d)
    (hd : d < 128) : InBits isSigned (n + 7) (d + 128 * v) ↔ InBits isSigned n v := by
  have h7 : (2 : ℤ) ^ (n + 7) = 2 ^ n * 128 := by
    rw [pow_add]
    norm_num
  -- for a signed value the bound `2 ^ n` must be even
  have hev : (2 : ℤ) ^ n = 2 ^ (n - 1) * 2 := by
    rw [← pow_succ, Nat.sub_add_cancel hn]
  cases isSigned
  · rw [inBits_false, inBits_false, h7]
    omega
  · rw [inBits_true, inBits_true, h7]
    omega

/-- A group of `n` bytes encodes a value of `7 * n` bits. -/
theorem inBits_groupValue (isSigned : Bool) (bytes : List UInt8) :
    InBits isSigned (7 * bytes.length) (groupValue isSigned bytes) := by
  have h128 : (2 : ℤ) ^ (7 * bytes.length) = ((128 ^ bytes.length : ℕ) : ℤ) := by
    push_cast
    rw [pow_mul]
    norm_num
  have hD := digitValue_lt bytes
  cases isSigned
  · rw [inBits_false, groupValue, if_neg Bool.false_ne_true, h128]
    exact ⟨Int.natCast_nonneg _, by exact_mod_cast hD⟩
  · rw [inBits_true, groupValue, if_pos rfl, h128]
    have hpos : 0 < 128 ^ bytes.length := Nat.pow_pos (by decide)
    have hlo := Int.le_bmod (x := digitValue bytes) hpos
    have hhi := Int.bmod_lt (x := digitValue bytes) hpos
    omega

/-- A group fits in `7 * (length - 1) + u` bits exactly when its last byte alone fits in
`u`: the bits of the earlier bytes are all below. -/
theorem inBits_groupValue_iff_getLast {isSigned : Bool} {u : ℕ} (hu : 0 < u) :
    ∀ (bytes : List UInt8) (h : bytes ≠ []),
      InBits isSigned (7 * (bytes.length - 1) + u) (groupValue isSigned bytes) ↔
        InBits isSigned u (groupValue isSigned [bytes.getLast h])
  | [_], _ => by simp
  | byte :: c :: bytes, _ => by
    have hne : c :: bytes ≠ [] := List.cons_ne_nil c bytes
    have ih := @inBits_groupValue_iff_getLast isSigned u hu (c :: bytes) hne
    have hlen : 7 * ((byte :: c :: bytes).length - 1) + u =
        7 * ((c :: bytes).length - 1) + u + 7 := by
      simp only [List.length_cons]
      omega
    rw [groupValue_cons isSigned byte hne, List.getLast_cons hne, hlen,
      inBits_add_seven_iff (by omega) (Int.natCast_nonneg _) (by exact_mod_cast dataBits_lt byte),
      ih]

/-! ## The writer -/

/-- The continuation bit `0x80` is set on every byte but the last. -/
def Terminated : List UInt8 → Prop
  | [] => False
  | [byte] => byte &&& 0x80 = 0
  | byte :: c :: bytes => byte &&& 0x80 ≠ 0 ∧ Terminated (c :: bytes)

theorem terminated_cons (byte : UInt8) {bytes : List UInt8} (h : bytes ≠ []) :
    Terminated (byte :: bytes) ↔ byte &&& 0x80 ≠ 0 ∧ Terminated bytes := by
  cases bytes with
  | nil => exact absurd rfl h
  | cons c bytes => rfl

/-- The last byte of a terminated group has no continuation bit. -/
theorem Terminated.getLast_and :
    ∀ {bytes : List UInt8} (_ : Terminated bytes) (hne : bytes ≠ []),
      bytes.getLast hne &&& 0x80 = 0
  | [_], h, _ => h
  | _ :: c :: bytes, h, _ => by
    rw [List.getLast_cons (List.cons_ne_nil c bytes)]
    exact Terminated.getLast_and h.2 (List.cons_ne_nil c bytes)

theorem dataBits_ofNat (n : ℕ) (h : n < 128) : dataBits (UInt8.ofNat n) = n :=
  (by decide : ∀ k : Fin 128, dataBits (UInt8.ofNat k) = k) ⟨n, h⟩

theorem dataBits_ofNat_or (n : ℕ) (h : n < 128) : dataBits (UInt8.ofNat n ||| 0x80) = n :=
  (by decide : ∀ k : Fin 128, dataBits (UInt8.ofNat k ||| 0x80) = k) ⟨n, h⟩

theorem ofNat_and_0x80 (n : ℕ) (h : n < 128) : UInt8.ofNat n &&& 0x80 = 0 :=
  (by decide : ∀ k : Fin 128, UInt8.ofNat k &&& 0x80 = 0) ⟨n, h⟩

theorem ofNat_or_and_0x80 (n : ℕ) (h : n < 128) : (UInt8.ofNat n ||| 0x80) &&& 0x80 ≠ 0 :=
  (by decide : ∀ k : Fin 128, (UInt8.ofNat k ||| 0x80) &&& 0x80 ≠ 0) ⟨n, h⟩

section Writer

variable {t : IntType} {value : BitVec t.width}

theorem writeBytes_of_not_inBits (h : ¬ InBits t.isSigned 7 (t.toInt value)) :
    writeBytes t value = (lowByte t value ||| 0x80) :: writeBytes t (shiftRightSeven t value) := by
  rw [writeBytes, dif_pos ((more_iff t value).2 h)]

theorem writeBytes_of_inBits (h : InBits t.isSigned 7 (t.toInt value)) :
    writeBytes t value = [lowByte t value] := by
  rw [writeBytes, dif_neg (fun hm => (more_iff t value).1 hm h)]

theorem writeBytes_ne_nil (t : IntType) (value : BitVec t.width) : writeBytes t value ≠ [] := by
  by_cases h : InBits t.isSigned 7 (t.toInt value)
  · rw [writeBytes_of_inBits h]
    exact List.cons_ne_nil _ _
  · rw [writeBytes_of_not_inBits h]
    exact List.cons_ne_nil _ _

theorem terminated_writeBytes (t : IntType) (value : BitVec t.width) :
    Terminated (writeBytes t value) := by
  fun_induction writeBytes t value with
  | case1 value _ ih =>
    rw [terminated_cons _ (writeBytes_ne_nil t _), lowByte_eq]
    exact ⟨ofNat_or_and_0x80 _ (by omega), ih⟩
  | case2 value _ =>
    rw [Terminated, lowByte_eq]
    exact ofNat_and_0x80 _ (by omega)

/-- The writer's bytes encode the value written. -/
theorem groupValue_writeBytes (t : IntType) (value : BitVec t.width) :
    groupValue t.isSigned (writeBytes t value) = t.toInt value := by
  fun_induction writeBytes t value with
  | case1 value _ ih =>
    rw [groupValue_cons _ _ (writeBytes_ne_nil t _), ih, toInt_shiftRightSeven, lowByte_eq,
      dataBits_ofNat_or _ (by omega)]
    omega
  | case2 value h =>
    have hv : InBits t.isSigned 7 (t.toInt value) := of_not_not ((more_iff t value).not.1 h)
    rw [groupValue_singleton, lowByte_eq, dataBits_ofNat _ (by omega)]
    cases hs : t.isSigned
    · rw [hs, inBits_false] at hv
      simp only [Bool.false_eq_true, if_false]
      omega
    · rw [hs, inBits_true] at hv
      simp only [if_true]
      split_ifs <;> omega

/-- The writer emits at most `k` bytes for a value of `7 * k` bits. -/
theorem length_writeBytes_le (t : IntType) (value : BitVec t.width) {k : ℕ} (hk : 0 < k)
    (h : InBits t.isSigned (7 * k) (t.toInt value)) : (writeBytes t value).length ≤ k := by
  fun_induction writeBytes t value generalizing k with
  | case1 value hm ih =>
    have hv := (more_iff t value).1 hm
    -- one byte would have held the value, so `k` is at least two
    obtain ⟨k, rfl⟩ : ∃ k', k = k' + 1 := Nat.exists_eq_add_one_of_ne_zero (by omega)
    have hk' : 0 < k := by
      rcases Nat.eq_zero_or_pos k with rfl | hk'
      · exact absurd h hv
      · exact hk'
    have hsplit : t.toInt value = t.toInt value % 128 + 128 * (t.toInt value / 128) := by omega
    rw [hsplit, show 7 * (k + 1) = 7 * k + 7 by ring,
      inBits_add_seven_iff (by omega) (by omega) (by omega), ← toInt_shiftRightSeven] at h
    rw [List.length_cons]
    have := ih hk' h
    omega
  | case2 value _ =>
    rw [List.length_singleton]
    exact hk

end Writer

/-! ## The reader -/

/-- The first loop takes a terminated group of at most `numBytes` bytes off the stream. -/
theorem readBytes_append (rest : List UInt8) :
    ∀ (numBytes : ℕ) (bytes : List UInt8), Terminated bytes → bytes.length ≤ numBytes →
      readBytes numBytes (bytes ++ rest) = .ok (bytes, rest)
  | _, [], h, _ => h.elim
  | 0, _ :: _, _, hlen => absurd hlen (by simp)
  | _ + 1, [byte], h, _ => by
    rw [List.singleton_append, readBytes, if_pos (show byte &&& 0x80 = 0 from h)]
  | numBytes + 1, byte :: c :: bytes, h, hlen => by
    rw [terminated_cons byte (List.cons_ne_nil c bytes)] at h
    have ih := readBytes_append rest numBytes (c :: bytes) h.2
      (by simp only [List.length_cons] at hlen ⊢; omega)
    rw [List.cons_append, readBytes, if_neg h.1, ih]
    rfl

/-- What the first loop returns: a non-empty prefix of the stream of at most `numBytes` bytes. -/
theorem readBytes_eq_ok :
    ∀ {numBytes : ℕ} {stream bytes rest : List UInt8},
      readBytes numBytes stream = .ok (bytes, rest) →
      stream = bytes ++ rest ∧ bytes.length ≤ numBytes ∧ (0 < numBytes → bytes ≠ [])
  | 0, stream, bytes, rest, h => by
    rw [readBytes, Except.ok.injEq, Prod.mk.injEq] at h
    obtain ⟨rfl, rfl⟩ := h
    exact ⟨rfl, le_refl _, fun h0 => absurd h0 (Nat.lt_irrefl 0)⟩
  | _ + 1, [], _, _, h => by
    rw [readBytes] at h
    cases h
  | numBytes + 1, byte :: stream, bytes, rest, h => by
    rw [readBytes] at h
    split at h
    · rw [Except.ok.injEq, Prod.mk.injEq] at h
      obtain ⟨rfl, rfl⟩ := h
      exact ⟨rfl, by simp, fun _ => List.cons_ne_nil _ _⟩
    · -- the byte continues: the rest of the group comes from the recursive call
      cases hr : readBytes numBytes stream with
      | error e =>
        rw [hr] at h
        cases h
      | ok p =>
        obtain ⟨bytes', rest'⟩ := p
        rw [hr] at h
        obtain ⟨rfl, rfl⟩ : byte :: bytes' = bytes ∧ rest' = rest := by
          simpa using h
        obtain ⟨rfl, hlen, -⟩ := readBytes_eq_ok hr
        exact ⟨rfl, by simp only [List.length_cons]; omega, fun _ => List.cons_ne_nil _ _⟩

/-- One step of the second loop, `U64(byte & ~0x80) << U64(byteIndex * 7)`: the data bits at
`7 * byteIndex`, for an index whose shift stays below 64. -/
theorem ofNat_shiftLeft_dataBits {w : ℕ} (hw : w ≤ 64) (byte : UInt8) {byteIndex : ℕ}
    (hi : byteIndex ≤ 9) :
    BitVec.ofNat w ((byte &&& 0x7F).toUInt64 <<< (byteIndex * 7).toUInt64).toNat =
      BitVec.ofNat w (2 ^ (7 * byteIndex) * dataBits byte) := by
  have hshift : (byteIndex * 7).toUInt64.toNat % 64 = 7 * byteIndex := by
    simp only [Nat.toUInt64_eq, UInt64.toNat_ofNat']
    omega
  rw [UInt64.toNat_shiftLeft, UInt8.toNat_toUInt64, hshift, Nat.shiftLeft_eq, Nat.mul_comm]
  apply BitVec.eq_of_toNat_eq
  rw [BitVec.toNat_ofNat, BitVec.toNat_ofNat,
    Nat.mod_mod_of_dvd _ (Nat.pow_dvd_pow 2 hw)]
  rfl

/-- The second loop ORs each byte's data bits in at `7 * byteIndex`; below the bits already
set, this adds the group's digit value. -/
theorem assemble_eq {w : ℕ} (hw : w ≤ 64) :
    ∀ (byteIndex : ℕ) (bytes : List UInt8) (N : ℕ), N < 2 ^ (7 * byteIndex) →
      byteIndex + bytes.length ≤ 10 →
      assemble w byteIndex bytes (BitVec.ofNat w N) =
        BitVec.ofNat w (N + 2 ^ (7 * byteIndex) * digitValue bytes)
  | _, [], N, _, _ => by simp [assemble]
  | byteIndex, byte :: bytes, N, hN, hlen => by
    simp only [List.length_cons] at hlen
    have hd := dataBits_lt byte
    have hpow : 2 ^ (7 * (byteIndex + 1)) = 2 ^ (7 * byteIndex) * 128 := by
      rw [Nat.mul_add, Nat.pow_add]
    -- the new bits sit above `N`, so OR is addition
    have hor : BitVec.ofNat w N ||| BitVec.ofNat w (2 ^ (7 * byteIndex) * dataBits byte) =
        BitVec.ofNat w (N + 2 ^ (7 * byteIndex) * dataBits byte) := by
      rw [← BitVec.ofNat_or, Nat.or_comm, ← Nat.two_pow_add_eq_or_of_lt hN, Nat.add_comm]
    have hlt : N + 2 ^ (7 * byteIndex) * dataBits byte < 2 ^ (7 * (byteIndex + 1)) := by
      have := Nat.mul_le_mul_left (2 ^ (7 * byteIndex)) (Nat.le_of_lt_succ hd)
      omega
    rw [assemble, ofNat_shiftLeft_dataBits hw byte (by omega), hor,
      assemble_eq hw (byteIndex + 1) bytes _ hlt (by omega), digitValue_cons, hpow]
    congr 1
    ring

/-- Scaling a two's-complement reduction: `(D * c).bmod (m * c) / c = D.bmod m` for `D` in
`[0, m)`. -/
theorem bmod_mul_ediv {D m c : ℕ} (hD : D < m) (hc : 0 < c) :
    ((D * c : ℕ) : ℤ).bmod (m * c) / c = (D : ℤ).bmod m := by
  have hc' : (0 : ℤ) < c := by exact_mod_cast hc
  have hlt : D * c < m * c := Nat.mul_lt_mul_of_pos_right hD hc
  rw [bmod_of_nonneg_of_lt (Int.natCast_nonneg _) (by exact_mod_cast hlt),
    bmod_of_nonneg_of_lt (Int.natCast_nonneg _) (by exact_mod_cast hD)]
  push_cast
  have hiff : 2 * ((D : ℤ) * c) < m * c ↔ 2 * (D : ℤ) < m := by
    rw [← mul_assoc]
    exact mul_lt_mul_iff_of_pos_right hc'
  by_cases h2 : 2 * (D : ℤ) < m
  · rw [if_pos (hiff.2 h2), if_pos h2, Int.mul_ediv_cancel _ hc'.ne']
  · rw [if_neg (mt hiff.1 h2), if_neg h2, ← sub_mul, Int.mul_ediv_cancel _ hc'.ne']

/-- The sign extension, applied to the digit value of a group, gives the integer the group
encodes, provided the type holds it. -/
theorem toInt_signExtend (t : IntType) {bytes : List UInt8}
    (h : InBits t.isSigned t.width (groupValue t.isSigned bytes)) :
    t.toInt (signExtend t bytes.length (BitVec.ofNat t.width (digitValue bytes))) =
      groupValue t.isSigned bytes := by
  have hD := digitValue_lt bytes
  have h128 : 128 ^ bytes.length = 2 ^ (7 * bytes.length) := by
    rw [Nat.pow_mul]
  unfold signExtend
  cases hs : t.isSigned
  · rw [if_neg (by simp), t.toInt_of_not_isSigned hs, BitVec.toNat_ofNat]
    rw [hs, inBits_false, groupValue, if_neg Bool.false_ne_true] at h
    rw [groupValue, if_neg Bool.false_ne_true, Nat.mod_eq_of_lt (by exact_mod_cast h.2)]
  · rw [hs, inBits_true] at h
    rw [t.toInt_of_isSigned hs]
    by_cases hshift : (0 : ℤ) < t.width - 7 * bytes.length
    · -- the group is narrower than the type: shift its top bit to the sign and back
      rw [if_pos ⟨rfl, hshift⟩]
      set c := 2 ^ (t.width - 7 * bytes.length) with hc
      have hw : 2 ^ t.width = 2 ^ (7 * bytes.length) * c := by
        rw [hc, ← Nat.pow_add]
        congr 1
        omega
      have hnat : (BitVec.ofNat t.width (digitValue bytes)).toNat = digitValue bytes := by
        rw [BitVec.toNat_ofNat, Nat.mod_eq_of_lt]
        calc digitValue bytes < 2 ^ (7 * bytes.length) := h128 ▸ hD
          _ ≤ 2 ^ t.width := Nat.pow_le_pow_right (by decide) (by omega)
      have hs' : ((t.width : ℤ) - 7 * bytes.length).toNat = t.width - 7 * bytes.length := by
        omega
      rw [hs', BitVec.toInt_sshiftRight, BitVec.toInt_shiftLeft, hnat, Nat.shiftLeft_eq,
        Int.shiftRight_eq_div_pow, hw, groupValue, if_pos rfl, h128]
      have key := bmod_mul_ediv (h128 ▸ hD) (Nat.pow_pos (n := t.width - 7 * bytes.length)
        (by decide : 0 < 2))
      rw [← hc] at key
      push_cast at key ⊢
      exact key
    · -- the group is as wide as the type: the value is already its low bits
      rw [if_neg (fun h' => hshift h'.2), BitVec.toInt_ofNat']
      have hdvd : 2 ^ t.width ∣ 128 ^ bytes.length :=
        h128 ▸ Nat.pow_dvd_pow 2 (by omega)
      rw [groupValue, if_pos rfl] at h ⊢
      rw [← Int.bmod_bmod_of_dvd hdvd]
      exact Int.bmod_eq_of_le_mul_two (by push_cast; omega) (by push_cast; omega)

/-- The final-byte check with `u` used bits passes exactly when the continuation bit is clear
and the byte's value fits in `u` bits: the unused bits are zero, or copies of the last used
bit for a signed type. -/
theorem checkLastByteBits_eq_ok_iff (isSigned : Bool) {u : ℕ} (hu : 0 < u) (hu7 : u ≤ 7)
    (byte : UInt8) :
    checkLastByteBits isSigned u byte = .ok () ↔
      byte &&& 0x80 = 0 ∧ InBits isSigned u (groupValue isSigned [byte]) := by
  -- every byte and every width, by evaluation
  have key : ∀ s : Bool, ∀ u : Fin 8, 0 < u.val → ∀ b : Fin 256,
      (checkLastByteBits s u.val (UInt8.ofNat b) = .ok () ↔
        UInt8.ofNat b &&& 0x80 = 0 ∧ InBits s u.val (groupValue s [UInt8.ofNat b])) := by
    decide +kernel
  have := key isSigned ⟨u, by omega⟩ hu ⟨byte.toNat, byte.toNat_lt⟩
  rwa [UInt8.ofNat_toNat] at this

/-- The number of bits the last of `maxBytes` bytes holds, between one and seven. -/
theorem maxBits_eq (maxBits : ℕ) (h : 0 < maxBits) :
    0 < numUsedBitsInLastByte maxBits ∧ numUsedBitsInLastByte maxBits ≤ 7 ∧
      maxBits = 7 * (maxBytes maxBits - 1) + numUsedBitsInLastByte maxBits := by
  unfold numUsedBitsInLastByte maxBytes
  omega

/-- The check of the reader's buffer: bytes read, then zeros. When fewer than `maxBytes` bytes
were read it checks a zero byte; otherwise the last byte read. Either way it passes exactly
when the group's value fits in `maxBits` bits, and the continuation bit of a full group's last
byte is clear. -/
theorem checkLastByte_buffer_eq_ok_iff (isSigned : Bool) {maxBits : ℕ} (hM : 0 < maxBits)
    {bytes : List UInt8} (hne : bytes ≠ []) (hlen : bytes.length ≤ maxBytes maxBits) :
    checkLastByte isSigned maxBits
        ((bytes ++ List.replicate (maxBytes maxBits - bytes.length) 0).getD
          (maxBytes maxBits - 1) 0) = .ok () ↔
      (bytes.length = maxBytes maxBits → bytes.getLast hne &&& 0x80 = 0) ∧
        InBits isSigned maxBits (groupValue isSigned bytes) := by
  obtain ⟨hu, hu7, hM'⟩ := maxBits_eq maxBits hM
  have hpos : 0 < bytes.length := List.length_pos_iff.2 hne
  unfold checkLastByte
  rw [checkLastByteBits_eq_ok_iff isSigned hu hu7]
  rcases Nat.lt_or_ge bytes.length (maxBytes maxBits) with hlt | hge
  · -- the last byte of the buffer is padding
    have hzero : (bytes ++ List.replicate (maxBytes maxBits - bytes.length) 0).getD
        (maxBytes maxBits - 1) 0 = 0 := by
      rw [List.getD_eq_getElem?_getD, List.getElem?_append_right (by omega),
        List.getElem?_replicate, if_pos (by omega)]
      rfl
    have hfit : InBits isSigned maxBits (groupValue isSigned bytes) :=
      inBits_mono (by omega) (inBits_groupValue isSigned bytes)
    rw [hzero, groupValue_singleton]
    have h2 : (1 : ℤ) ≤ 2 ^ numUsedBitsInLastByte maxBits := one_le_pow₀ (by norm_num)
    cases isSigned <;> simp [hfit] <;> omega
  · -- the buffer ends with the last byte read
    have heq : bytes.length = maxBytes maxBits := by omega
    have hlast : (bytes ++ List.replicate (maxBytes maxBits - bytes.length) 0).getD
        (maxBytes maxBits - 1) 0 = bytes.getLast hne := by
      rw [List.getD_eq_getElem?_getD, List.getElem?_append_left (by omega),
        List.getLast_eq_getElem, ← heq, List.getElem?_eq_getElem (by omega)]
      rfl
    rw [hlast, ← inBits_groupValue_iff_getLast hu bytes hne, heq, ← hM']
    exact ⟨fun h => ⟨fun _ => h.1, h.2⟩, fun h => ⟨h.1 rfl, h.2⟩⟩

/-- The reader's buffer `U8 bytes[maxBytes] = {0}` after the first loop: the bytes read, then
zeros. -/
def readBuffer (maxBits : ℕ) (bytes : List UInt8) : List UInt8 :=
  bytes ++ List.replicate (maxBytes maxBits - bytes.length) 0

theorem digitValue_readBuffer (maxBits : ℕ) (bytes : List UInt8) :
    digitValue (readBuffer maxBits bytes) = digitValue bytes :=
  digitValue_append_replicate_zero bytes _

theorem length_readBuffer {maxBits : ℕ} {bytes : List UInt8}
    (h : bytes.length ≤ maxBytes maxBits) : (readBuffer maxBits bytes).length = maxBytes maxBits := by
  rw [readBuffer, List.length_append, List.length_replicate]
  omega

namespace InputStream

/-- What the `InputStream` overload does, step by step: read a group, check the buffer's last
byte, assemble and sign-extend, check the range. -/
theorem serializeVarInt_eq_ok_iff {t : IntType} {format : VarIntFormat}
    {stream rest : List UInt8} {x : BitVec t.width} :
    serializeVarInt t format stream = .ok (x, rest) ↔
      ∃ bytes, readBytes (maxBytes format.maxBits) stream = .ok (bytes, rest) ∧
        checkLastByte t.isSigned format.maxBits
          ((readBuffer format.maxBits bytes).getD (maxBytes format.maxBits - 1) 0) = .ok () ∧
        x = signExtend t bytes.length (assemble t.width 0 (readBuffer format.maxBits bytes) 0) ∧
        format.minValue ≤ t.toInt x ∧ t.toInt x ≤ format.maxValue := by
  unfold serializeVarInt readBuffer
  cases hr : readBytes (maxBytes format.maxBits) stream with
  | error e => simp [bind, Except.bind]
  | ok p =>
    obtain ⟨bytes, rest'⟩ := p
    simp only [bind, Except.bind, Except.ok.injEq, Prod.mk.injEq]
    cases hc : checkLastByte t.isSigned format.maxBits
        ((bytes ++ List.replicate (maxBytes format.maxBits - bytes.length) 0).getD
          (maxBytes format.maxBits - 1) 0) with
    | error e =>
      constructor
      · intro h
        cases h
      · rintro ⟨_, ⟨rfl, rfl⟩, hc', -⟩
        rw [hc] at hc'
        cases hc'
    | ok u =>
      cases u
      split_ifs with hrange
      · constructor
        · intro h
          cases h
        · rintro ⟨_, ⟨rfl, rfl⟩, -, rfl, hlo, hhi⟩
          omega
      · simp only [pure, Except.pure, Except.ok.injEq, Prod.mk.injEq]
        constructor
        · rintro ⟨rfl, rfl⟩
          exact ⟨bytes, ⟨rfl, rfl⟩, hc, rfl, by omega, by omega⟩
        · rintro ⟨_, ⟨rfl, rfl⟩, -, rfl, -, -⟩
          exact ⟨rfl, rfl⟩

end InputStream

/-! ## Round trip -/

/-- A format fits a type: it has at least one bit and no more than the type, and its range is
exactly the values of `maxBits` bits of the type's signedness. -/
structure Fits (t : IntType) (format : VarIntFormat) : Prop where
  maxBits_pos : 0 < format.maxBits
  maxBits_le : format.maxBits ≤ t.width
  mem_range_iff : ∀ v, format.minValue ≤ v ∧ v ≤ format.maxValue ↔
    InBits t.isSigned format.maxBits v

section Fits

variable {t : IntType} {format : VarIntFormat}

theorem Fits.maxBytes_le (hf : Fits t format) : maxBytes format.maxBits ≤ 10 := by
  have := hf.maxBits_le
  have := t.width_le
  unfold maxBytes
  omega

theorem Fits.maxBytes_pos (hf : Fits t format) : 0 < maxBytes format.maxBits := by
  have := hf.maxBits_pos
  unfold maxBytes
  omega

/-- For a group of bytes read from a stream, the reader returns the integer the group
encodes, once it fits in the type. -/
theorem toInt_signExtend_assemble (hf : Fits t format) {bytes : List UInt8}
    (hlen : bytes.length ≤ maxBytes format.maxBits)
    (h : InBits t.isSigned t.width (groupValue t.isSigned bytes)) :
    t.toInt (signExtend t bytes.length (assemble t.width 0 (readBuffer format.maxBits bytes) 0)) =
      groupValue t.isSigned bytes := by
  have hasm := assemble_eq t.width_le 0 (readBuffer format.maxBits bytes) 0 (by decide)
    (by have := hf.maxBytes_le; rw [length_readBuffer hlen]; omega)
  rw [Nat.zero_add, Nat.mul_zero, Nat.pow_zero, Nat.one_mul, digitValue_readBuffer] at hasm
  rw [show (0 : BitVec t.width) = BitVec.ofNat t.width 0 from rfl, hasm]
  exact toInt_signExtend t h

/-- Writing a value in the format's range and reading the bytes back, followed by anything,
gives the value and leaves exactly what followed; at most `maxBytes` bytes are written. -/
theorem serializeVarInt_roundTrip (hf : Fits t format) (x : BitVec t.width)
    (hx : format.minValue ≤ t.toInt x ∧ t.toInt x ≤ format.maxValue) :
    OutputStream.serializeVarInt t format x = .ok (writeBytes t x) ∧
      (writeBytes t x).length ≤ maxBytes format.maxBits ∧
      ∀ rest, InputStream.serializeVarInt t format (writeBytes t x ++ rest) = .ok (x, rest) := by
  have hbits := (hf.mem_range_iff _).1 hx
  have hden := groupValue_writeBytes t x
  have hlen : (writeBytes t x).length ≤ maxBytes format.maxBits :=
    length_writeBytes_le t x hf.maxBytes_pos
      (inBits_mono (by unfold maxBytes; omega) hbits)
  refine ⟨?_, hlen, fun rest => ?_⟩
  · rw [OutputStream.serializeVarInt, if_neg (by omega)]
  · have hne := writeBytes_ne_nil t x
    have hcheck := (checkLastByte_buffer_eq_ok_iff t.isSigned hf.maxBits_pos hne hlen).2
      ⟨fun _ => (terminated_writeBytes t x).getLast_and hne, hden ▸ hbits⟩
    have hval := toInt_signExtend_assemble hf hlen (hden ▸ t.inBits_toInt x)
    rw [hden, t.toInt_inj] at hval
    rw [InputStream.serializeVarInt_eq_ok_iff]
    exact ⟨writeBytes t x, readBytes_append rest _ _ (terminated_writeBytes t x) hlen, hcheck,
      hval.symm, hx⟩

/-- Everything the reader accepts: the stream starts with a group of at most `maxBytes` bytes,
the value read is the integer that group encodes, it fits in `maxBits` bits (the final-byte
check), and it lies in the format's range. -/
theorem InputStream.serializeVarInt_sound (hf : Fits t format) {stream rest : List UInt8}
    {x : BitVec t.width} (h : InputStream.serializeVarInt t format stream = .ok (x, rest)) :
    ∃ bytes, stream = bytes ++ rest ∧ bytes ≠ [] ∧ bytes.length ≤ maxBytes format.maxBits ∧
      t.toInt x = groupValue t.isSigned bytes ∧ InBits t.isSigned format.maxBits (t.toInt x) ∧
      format.minValue ≤ t.toInt x ∧ t.toInt x ≤ format.maxValue := by
  obtain ⟨bytes, hr, hcheck, rfl, hrange⟩ := InputStream.serializeVarInt_eq_ok_iff.1 h
  obtain ⟨hstream, hlen, hne⟩ := readBytes_eq_ok hr
  have hne := hne hf.maxBytes_pos
  have hbits := ((checkLastByte_buffer_eq_ok_iff t.isSigned hf.maxBits_pos hne hlen).1 hcheck).2
  have hval := toInt_signExtend_assemble hf hlen (inBits_mono hf.maxBits_le hbits)
  exact ⟨bytes, hstream, hne, hlen, hval, hval ▸ hbits, hrange⟩

/-- The reader takes every terminated group of at most `maxBytes` bytes whose value fits in
`maxBits` bits off the stream, whatever follows it, and returns that value: the group need not
have been written for the reader's own type. -/
theorem InputStream.serializeVarInt_append (hf : Fits t format) {bytes : List UInt8}
    (hterm : Terminated bytes) (hlen : bytes.length ≤ maxBytes format.maxBits)
    (hbits : InBits t.isSigned format.maxBits (groupValue t.isSigned bytes)) (rest : List UInt8) :
    ∃ x, InputStream.serializeVarInt t format (bytes ++ rest) = .ok (x, rest) ∧
      t.toInt x = groupValue t.isSigned bytes := by
  have hne : bytes ≠ [] := by
    rintro rfl
    exact hterm
  have hcheck := (checkLastByte_buffer_eq_ok_iff t.isSigned hf.maxBits_pos hne hlen).2
    ⟨fun _ => hterm.getLast_and hne, hbits⟩
  have hval := toInt_signExtend_assemble hf hlen (inBits_mono hf.maxBits_le hbits)
  have hrange := (hf.mem_range_iff _).2 (hval ▸ hbits)
  exact ⟨_, InputStream.serializeVarInt_eq_ok_iff.2
    ⟨bytes, readBytes_append rest _ _ hterm hlen, hcheck, rfl, hrange⟩, hval⟩

/-- The reader accepts groups longer than needed: `0x80 0x00` is a second encoding of zero. -/
example : InputStream.serializeVarInt .U32 serializeVarUInt32 [0x80, 0x00, 0x2A] =
    .ok (0, [0x2A]) := by decide

example : InputStream.serializeVarInt .I64 serializeVarInt64 [0xC0, 0xBB, 0x78] =
    .ok (-123456, []) := by decide

end Fits

/-- Every instantiation of the binary format fits its type. -/
theorem fits_of_mem_binaryFormatInstantiations {t : IntType} {format : VarIntFormat}
    (h : (t, format) ∈ binaryFormatInstantiations) : Fits t format := by
  simp only [binaryFormatInstantiations, List.mem_cons, Prod.mk.injEq, List.not_mem_nil,
    or_false] at h
  rcases h with ⟨rfl, rfl⟩ | ⟨rfl, rfl⟩ | ⟨rfl, rfl⟩ | ⟨rfl, rfl⟩ | ⟨rfl, rfl⟩ | ⟨rfl, rfl⟩ |
    ⟨rfl, rfl⟩ | ⟨rfl, rfl⟩ | ⟨rfl, rfl⟩ | ⟨rfl, rfl⟩
  all_goals
    refine ⟨by decide, by decide, fun v => ?_⟩
    simp only [IntType.U8, IntType.U32, IntType.U64, IntType.I8, IntType.I32, IntType.I64,
      serializeVarUInt1, serializeVarUInt7, serializeVarUInt8, serializeVarUInt32,
      serializeVarUInt64, serializeVarInt7, serializeVarInt32, serializeVarInt64, inBits_false,
      inBits_true]
    omega

/-- The LEB128 integers of the binary format: for each helper as its callers instantiate it,
every value in range is written in at most `maxBytes` bytes that the reader turns back into
the value, consuming exactly them; and every stream the reader accepts starts with at most
`maxBytes` bytes that encode the value read, which fits in `maxBits` bits and lies in the
range. -/
theorem serializeVarInt_binaryFormat_roundTrip (t : IntType) (format : VarIntFormat)
    (h : (t, format) ∈ binaryFormatInstantiations) :
    (∀ x : BitVec t.width, format.minValue ≤ t.toInt x ∧ t.toInt x ≤ format.maxValue →
      OutputStream.serializeVarInt t format x = .ok (writeBytes t x) ∧
        (writeBytes t x).length ≤ maxBytes format.maxBits ∧
        ∀ rest, InputStream.serializeVarInt t format (writeBytes t x ++ rest) = .ok (x, rest)) ∧
    (∀ (stream rest : List UInt8) (x : BitVec t.width),
      InputStream.serializeVarInt t format stream = .ok (x, rest) →
      ∃ bytes, stream = bytes ++ rest ∧ bytes.length ≤ maxBytes format.maxBits ∧
        t.toInt x = groupValue t.isSigned bytes ∧ InBits t.isSigned format.maxBits (t.toInt x) ∧
        format.minValue ≤ t.toInt x ∧ t.toInt x ≤ format.maxValue) := by
  have hf := fits_of_mem_binaryFormatInstantiations h
  refine ⟨fun x hx => serializeVarInt_roundTrip hf x hx, fun stream rest x hread => ?_⟩
  obtain ⟨bytes, hstream, -, hlen, hval⟩ := InputStream.serializeVarInt_sound hf hread
  exact ⟨bytes, hstream, hlen, hval⟩

/-- `serializeVarUInt32` on a `U32`: `624485` read back from its bytes, whatever follows. -/
theorem serializeVarInt_binaryFormat_roundTrip_u32 :
    (IntType.U32, serializeVarUInt32) ∈ binaryFormatInstantiations ∧
      ∀ rest, InputStream.serializeVarInt .U32 serializeVarUInt32
        (writeBytes .U32 624485 ++ rest) = .ok (624485, rest) :=
  have hmem : (IntType.U32, serializeVarUInt32) ∈ binaryFormatInstantiations := by
    simp [binaryFormatInstantiations]
  ⟨hmem, ((serializeVarInt_binaryFormat_roundTrip _ _ hmem).1 624485 (by decide)).2.2⟩

end Wavm.Serialization
