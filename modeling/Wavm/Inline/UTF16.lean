import Wavm.Inline.Unicode
import Wavm.Lib.WhileLoop

set_option relaxedAutoImplicit false
set_option autoImplicit false

/-!
# UTF-16 and the transcoders

The UTF-16 coder of `src/Include/WAVM/Inline/Unicode.h` and the two transcoders it shares with
the UTF-8 coder of `Wavm.Inline.Unicode`: `transcodeUTF8ToUTF16` decodes UTF-8 and encodes
UTF-16 until the end or the first failure, and `transcodeUTF16ToUTF8` the other way round.

`decodeUTF16CodePoint` is given the buffer `[nextChar16, endChar16)` but never reads
`endChar16`: after a high surrogate it reads `nextChar16[1]` whether or not that unit lies in
the buffer. A buffer that ends in a high surrogate therefore decodes or not according to the
unit after its end, and when that unit is a low surrogate the decoder moves `nextChar16` past
`endChar16`. The loop of `transcodeUTF16ToUTF8` tests `nextChar != endChar`, which then stays
true: it goes on through memory until a unit does not decode, and never stops while every
unit decodes.

Inside the buffer the decoder is right: it takes back every unit sequence the encoder writes
for a scalar value. So every UTF-8 buffer that `transcodeUTF8ToUTF16` goes through comes back
unchanged from `transcodeUTF16ToUTF8`. Those are the buffers `validateUTF8String` accepts,
which leave out the well-formed sequences of `U+D000` to `U+D7FF` (the UTF-8 decoder's test
after `0xED`): such a sequence stops the first transcoder where it stands, and the round trip
drops it and all that follows.

## Main definitions

* `Wavm.Unicode.decodeUTF16CodePoint`, `Wavm.Unicode.encodeUTF16CodePoint` — the coder, over
  a memory of 16-bit units.
* `Wavm.Unicode.transcodeUTF8ToUTF16`, `Wavm.Unicode.transcodeUTF16ToUTF8` — the transcoders.
* `Wavm.Unicode.Stores` — a memory holds a list of units from an address on.

## Main results

* `Wavm.Unicode.decodeUTF16CodePoint_encodeUTF16CodePoint` — decoding undoes encoding for
  every scalar value.
* `Wavm.Unicode.decodeUTF16CodePoint_reads_past_end` — a buffer whose last unit is a high
  surrogate decodes exactly when the unit after its end is a low surrogate, and the decoder
  then moves past the end.
* `Wavm.Unicode.transcodeUTF16ToUTF8_eq_none_of_overrun` — the transcoder then never returns
  while the memory after the buffer decodes.
* `Wavm.Unicode.transcodeUTF16ToUTF8_transcodeUTF8ToUTF16` — the round trip gives back every
  buffer `validateUTF8String` accepts; `Wavm.Unicode.transcodeUTF8ToUTF16_rejects_ed_block`
  — and stops at once on a well-formed sequence of `U+D000` to `U+D7FF`.

## Implementation notes

Memory is a function from addresses, counted in units, to units, and a pointer is an address.
A UTF-8 buffer is the list of its bytes, as in `Wavm.Inline.Unicode`, where the UTF-8 decoder
reads only inside it. Each transcoder returns where its pointer stops with the units or bytes
it appended to an empty `outString`. The first is given one round per byte, as
`validateUTF8StringLoop` is; the second runs with fuel (`WhileLoop.run`), since past the end of
its buffer nothing bounds its rounds, and `none` is a run that the fuel did not end. The source
computes the code point of a surrogate pair in `int`, the model in `UInt32`: every value on the
way lies in `[0, 0x110000)`, where the two agree.
-/

namespace Wavm.Unicode

/-! ## The coder -/

/-- A high (leading) surrogate, `D800..DBFF`. -/
def IsHighSurrogate (unit : UInt16) : Prop := 0xD800 ≤ unit.toNat ∧ unit.toNat ≤ 0xDBFF

/-- A low (trailing) surrogate, `DC00..DFFF`. -/
def IsLowSurrogate (unit : UInt16) : Prop := 0xDC00 ≤ unit.toNat ∧ unit.toNat ≤ 0xDFFF

instance (unit : UInt16) : Decidable (IsHighSurrogate unit) :=
  inferInstanceAs (Decidable (_ ∧ _))

instance (unit : UInt16) : Decidable (IsLowSurrogate unit) :=
  inferInstanceAs (Decidable (_ ∧ _))

/-- `decodeUTF16CodePoint`: the code point at `nextChar16` and where `nextChar16` is moved to,
or `none` where the source returns `false`. As in the source, `endChar16` is not read. -/
def decodeUTF16CodePoint (memory : ℕ → UInt16) (nextChar16 endChar16 : ℕ) :
    Option (UInt32 × ℕ) :=
  if memory nextChar16 < 0xd800 ∨ memory nextChar16 ≥ 0xe000 then
    some ((memory nextChar16).toUInt32, nextChar16 + 1)
  else if memory nextChar16 ≤ 0xdbff then
    if memory (nextChar16 + 1) ≥ 0xdc00 ∧ memory (nextChar16 + 1) ≤ 0xdfff then
      some ((((memory nextChar16).toUInt32 - 0xd800) <<< 10) +
        ((memory (nextChar16 + 1)).toUInt32 - 0xdc00) + 0x10000, nextChar16 + 2)
    else none
  else none

/-- `encodeUTF16CodePoint`: the units it appends to `outString`. -/
def encodeUTF16CodePoint (codePoint : UInt32) : List UInt16 :=
  if codePoint < 0x10000 then [codePoint.toUInt16]
  else
    [(((codePoint - 0x10000) >>> 10) &&& 0x3ff).toUInt16 ||| 0xd800,
      ((codePoint - 0x10000) &&& 0x3ff).toUInt16 ||| 0xdc00]

/-- The loop of `transcodeUTF8ToUTF16`, given one round per byte: the number of bytes it goes
through and the units it appends. -/
def transcodeUTF8ToUTF16Loop : ℕ → List UInt8 → ℕ × List UInt16
  | 0, _ => (0, [])
  | _ + 1, [] => (0, [])
  | fuel + 1, b :: bs =>
    match decodeUTF8CodePoint (b :: bs) with
    | none => (0, [])
    | some (codePoint, numBytes) =>
      Prod.map (numBytes + ·) (encodeUTF16CodePoint codePoint ++ ·)
        (transcodeUTF8ToUTF16Loop fuel ((b :: bs).drop numBytes))

/-- `transcodeUTF8ToUTF16`: how far `nextChar` gets, as an offset from the start, and the
units appended to `outString`. -/
def transcodeUTF8ToUTF16 (bytes : List UInt8) : ℕ × List UInt16 :=
  transcodeUTF8ToUTF16Loop bytes.length bytes

/-- The test of the loop of `transcodeUTF16ToUTF8`,
`nextChar != endChar && decodeUTF16CodePoint(nextChar, endChar, codePoint)`, on the pointer and
the bytes appended so far. -/
def transcodeUTF16ToUTF8Cond (memory : ℕ → UInt16) (endChar : ℕ) (state : ℕ × List UInt8) :
    Bool :=
  state.1 != endChar && (decodeUTF16CodePoint memory state.1 endChar).isSome

/-- A round of the loop of `transcodeUTF16ToUTF8`: the decoder's move of `nextChar` and the
bytes of `encodeUTF8CodePoint` appended. -/
def transcodeUTF16ToUTF8Body (memory : ℕ → UInt16) (endChar : ℕ) (state : ℕ × List UInt8) :
    ℕ × List UInt8 :=
  match decodeUTF16CodePoint memory state.1 endChar with
  | some (codePoint, nextChar) => (nextChar, state.2 ++ encodeUTF8CodePoint codePoint)
  | none => state

/-- `transcodeUTF16ToUTF8`, with at most `fuel` tests of its loop: where `nextChar` stops and
the bytes appended to `outString`. -/
def transcodeUTF16ToUTF8 (memory : ℕ → UInt16) (nextChar endChar fuel : ℕ) :
    Option (ℕ × List UInt8) :=
  WhileLoop.run (transcodeUTF16ToUTF8Cond memory endChar) (transcodeUTF16ToUTF8Body memory endChar)
    fuel (nextChar, [])

/-- A memory holds `units` from `address` on. -/
def Stores (memory : ℕ → UInt16) : ℕ → List UInt16 → Prop
  | _, [] => True
  | address, unit :: units => memory address = unit ∧ Stores memory (address + 1) units

@[simp] theorem stores_nil (memory : ℕ → UInt16) (address : ℕ) : Stores memory address [] :=
  trivial

@[simp] theorem stores_cons {memory : ℕ → UInt16} {address : ℕ} {unit : UInt16}
    {units : List UInt16} :
    Stores memory address (unit :: units) ↔
      memory address = unit ∧ Stores memory (address + 1) units :=
  Iff.rfl

theorem stores_append {memory : ℕ → UInt16} {units units' : List UInt16} :
    ∀ {address : ℕ}, Stores memory address (units ++ units') ↔
      Stores memory address units ∧ Stores memory (address + units.length) units' := by
  induction units with
  | nil => simp
  | cons unit units ih =>
    intro address
    rw [List.cons_append, stores_cons, stores_cons, ih, List.length_cons, Nat.add_right_comm,
      Nat.add_assoc, and_assoc]

/-! ## The decoder -/

section Decoder

variable {memory : ℕ → UInt16} {nextChar16 endChar16 : ℕ}

/-- A unit that is not a surrogate is a code point of its own. -/
theorem decodeUTF16CodePoint_of_isScalarValue (h : IsScalarValue (memory nextChar16).toNat) :
    decodeUTF16CodePoint memory nextChar16 endChar16 =
      some ((memory nextChar16).toUInt32, nextChar16 + 1) := by
  have h' := h.2
  rw [decodeUTF16CodePoint, if_pos]
  rw [UInt16.lt_iff_toNat_lt, ge_iff_le, UInt16.le_iff_toNat_le]
  simp only [UInt16.reduceToNat]
  omega

/-- The code point of a surrogate pair, in `int` as the source computes it. -/
theorem toNat_surrogatePair {high low : UInt16} (hhigh : IsHighSurrogate high)
    (hlow : IsLowSurrogate low) :
    (((high.toUInt32 - 0xd800) <<< 10) + (low.toUInt32 - 0xdc00) + 0x10000).toNat =
      0x10000 + (high.toNat - 0xD800) * 0x400 + (low.toNat - 0xDC00) := by
  obtain ⟨hh, hh'⟩ := hhigh
  obtain ⟨hl, hl'⟩ := hlow
  have hsubHigh : (high.toUInt32 - 0xd800).toNat = high.toNat - 0xD800 := by
    rw [UInt32.toNat_sub_of_le _ _ (UInt32.le_iff_toNat_le.2 (by simp; omega))]
    simp
  have hsubLow : (low.toUInt32 - 0xdc00).toNat = low.toNat - 0xDC00 := by
    rw [UInt32.toNat_sub_of_le _ _ (UInt32.le_iff_toNat_le.2 (by simp; omega))]
    simp
  have hshift : ((high.toUInt32 - 0xd800) <<< 10).toNat = (high.toNat - 0xD800) * 2 ^ 10 := by
    rw [toNat_shiftLeft_of_lt (by decide) (by rw [hsubHigh]; simp; omega), hsubHigh]
    rfl
  rw [UInt32.toNat_add, UInt32.toNat_add, hshift, hsubLow]
  simp
  omega

/-- A high surrogate followed by a low one is a code point from `U+10000`. -/
theorem decodeUTF16CodePoint_of_surrogatePair (hhigh : IsHighSurrogate (memory nextChar16))
    (hlow : IsLowSurrogate (memory (nextChar16 + 1))) :
    ∃ codePoint : UInt32,
      decodeUTF16CodePoint memory nextChar16 endChar16 = some (codePoint, nextChar16 + 2) ∧
        codePoint.toNat = 0x10000 + ((memory nextChar16).toNat - 0xD800) * 0x400 +
          ((memory (nextChar16 + 1)).toNat - 0xDC00) := by
  refine ⟨_, ?_, toNat_surrogatePair hhigh hlow⟩
  obtain ⟨hh, hh'⟩ := hhigh
  obtain ⟨hl, hl'⟩ := hlow
  rw [decodeUTF16CodePoint, if_neg, if_pos, if_pos]
  · rw [ge_iff_le, UInt16.le_iff_toNat_le, UInt16.le_iff_toNat_le]
    simp only [UInt16.reduceToNat]
    omega
  · rw [UInt16.le_iff_toNat_le]
    simp only [UInt16.reduceToNat]
    omega
  · rw [UInt16.lt_iff_toNat_lt, ge_iff_le, UInt16.le_iff_toNat_le]
    simp only [UInt16.reduceToNat]
    omega

/-- A high surrogate followed by anything but a low one does not decode. -/
theorem decodeUTF16CodePoint_of_not_isLowSurrogate (hhigh : IsHighSurrogate (memory nextChar16))
    (hlow : ¬ IsLowSurrogate (memory (nextChar16 + 1))) :
    decodeUTF16CodePoint memory nextChar16 endChar16 = none := by
  obtain ⟨hh, hh'⟩ := hhigh
  rw [IsLowSurrogate] at hlow
  rw [decodeUTF16CodePoint, if_neg, if_pos, if_neg]
  · rw [ge_iff_le, UInt16.le_iff_toNat_le, UInt16.le_iff_toNat_le]
    simp only [UInt16.reduceToNat]
    omega
  · rw [UInt16.le_iff_toNat_le]
    simp only [UInt16.reduceToNat]
    omega
  · rw [UInt16.lt_iff_toNat_lt, ge_iff_le, UInt16.le_iff_toNat_le]
    simp only [UInt16.reduceToNat]
    omega

/-- **The decoder reads past the end of its buffer**: on a buffer whose last unit is a high
surrogate it returns `true` exactly when the unit after the buffer is a low surrogate, and it
then moves `nextChar16` one unit past `endChar16`. -/
theorem decodeUTF16CodePoint_reads_past_end (hhigh : IsHighSurrogate (memory nextChar16)) :
    ((decodeUTF16CodePoint memory nextChar16 (nextChar16 + 1)).isSome ↔
        IsLowSurrogate (memory (nextChar16 + 1))) ∧
      ∀ r ∈ decodeUTF16CodePoint memory nextChar16 (nextChar16 + 1), r.2 = nextChar16 + 2 := by
  by_cases hlow : IsLowSurrogate (memory (nextChar16 + 1))
  · obtain ⟨codePoint, hdecode, -⟩ := decodeUTF16CodePoint_of_surrogatePair hhigh hlow
    rw [hdecode]
    exact ⟨iff_of_true rfl hlow, fun r hr => by rw [Option.mem_def, Option.some.injEq] at hr; rw [← hr]⟩
  · rw [decodeUTF16CodePoint_of_not_isLowSurrogate hhigh hlow]
    exact ⟨iff_of_false (by decide) hlow, fun r hr => absurd hr (by simp)⟩

/-- A buffer of one high surrogate, followed in memory by a low one and by one that is not. -/
theorem decodeUTF16CodePoint_reads_past_end_d800 :
    IsHighSurrogate ((fun i => if i = 0 then 0xD800 else 0xDC00 : ℕ → UInt16) 0) ∧
      ((decodeUTF16CodePoint (fun i => if i = 0 then 0xD800 else 0xDC00) 0 1).isSome ↔
        IsLowSurrogate ((fun i => if i = 0 then 0xD800 else 0xDC00 : ℕ → UInt16) 1)) ∧
      ∀ r ∈ decodeUTF16CodePoint (fun i => if i = 0 then 0xD800 else 0xDC00) 0 1, r.2 = 2 :=
  ⟨by decide, decodeUTF16CodePoint_reads_past_end (by decide)⟩

end Decoder

/-! ## The encoder -/

section Encoder

variable {codePoint : UInt32}

/-- A unit of the encoder: the low `k` bits of `x` under the tag bits `tag`. -/
theorem toNat_taggedUnit {x mask : UInt32} {tag : UInt16} (k : ℕ) (hk : k ≤ 16)
    (hmask : mask.toNat = 2 ^ k - 1) (htag : 2 ^ k ∣ tag.toNat) :
    ((x &&& mask).toUInt16 ||| tag).toNat = tag.toNat + x.toNat % 2 ^ k := by
  have hlt : x.toNat % 2 ^ k < 2 ^ k := Nat.mod_lt _ (Nat.two_pow_pos k)
  have hle : 2 ^ k ≤ 2 ^ 16 := Nat.pow_le_pow_right (by decide) hk
  rw [UInt16.toNat_or, UInt32.toNat_toUInt16, UInt32.toNat_and, hmask,
    Nat.and_two_pow_sub_one_eq_mod, Nat.mod_eq_of_lt (by omega), Nat.or_comm,
    or_eq_add_of_dvd htag hlt]

/-- A code point below `0x10000` is one unit. -/
theorem encodeUTF16CodePoint_of_lt_10000 (hhi : codePoint.toNat < 0x10000) :
    ∃ unit, encodeUTF16CodePoint codePoint = [unit] ∧ unit.toNat = codePoint.toNat := by
  unfold encodeUTF16CodePoint
  rw [if_pos (UInt32.lt_iff_toNat_lt.2 hhi)]
  refine ⟨_, rfl, ?_⟩
  rw [UInt32.toNat_toUInt16, Nat.mod_eq_of_lt hhi]

/-- A code point from `0x10000` to `0x10FFFF` is a high surrogate with its upper ten bits above
`0x10000` and a low surrogate with the lower ten. -/
theorem encodeUTF16CodePoint_of_le_10000 (hlo : 0x10000 ≤ codePoint.toNat)
    (hhi : codePoint.toNat ≤ 0x10FFFF) :
    ∃ high low, encodeUTF16CodePoint codePoint = [high, low] ∧
      high.toNat = 0xD800 + (codePoint.toNat - 0x10000) / 0x400 ∧
      low.toNat = 0xDC00 + (codePoint.toNat - 0x10000) % 0x400 := by
  have hsub : (codePoint - 0x10000).toNat = codePoint.toNat - 0x10000 := by
    rw [UInt32.toNat_sub_of_le _ _ (UInt32.le_iff_toNat_le.2 (by simpa using hlo))]
    simp
  unfold encodeUTF16CodePoint
  rw [if_neg (mt UInt32.lt_iff_toNat_lt.1 (by simp; omega))]
  refine ⟨_, _, rfl, ?_, ?_⟩
  · rw [toNat_taggedUnit 10 (by decide) rfl (by decide), toNat_shiftRight_of_lt _ _ (by decide),
      hsub]
    -- the ten bits above `0x10000` are all there is: the offset is below `2 ^ 20`
    change 0xD800 + (codePoint.toNat - 0x10000) / 2 ^ 10 % 2 ^ 10 = _
    omega
  · rw [toNat_taggedUnit 10 (by decide) rfl (by decide), hsub]
    rfl

theorem length_encodeUTF16CodePoint_pos : 0 < (encodeUTF16CodePoint codePoint).length := by
  unfold encodeUTF16CodePoint
  split <;> simp

/-- **Decoding undoes encoding** for every scalar value, wherever the units are stored. -/
theorem decodeUTF16CodePoint_encodeUTF16CodePoint (hc : IsScalarValue codePoint.toNat)
    {memory : ℕ → UInt16} {nextChar16 : ℕ}
    (hstores : Stores memory nextChar16 (encodeUTF16CodePoint codePoint)) (endChar16 : ℕ) :
    decodeUTF16CodePoint memory nextChar16 endChar16 =
      some (codePoint, nextChar16 + (encodeUTF16CodePoint codePoint).length) := by
  obtain ⟨hmax, hsurrogate⟩ := hc
  by_cases hbmp : codePoint.toNat < 0x10000
  · -- one unit, which is the code point and not a surrogate
    obtain ⟨unit, he, hunit⟩ := encodeUTF16CodePoint_of_lt_10000 hbmp
    rw [he, stores_cons] at hstores
    have hscalar : IsScalarValue (memory nextChar16).toNat := by
      rw [hstores.1, hunit]
      exact ⟨hmax, hsurrogate⟩
    rw [decodeUTF16CodePoint_of_isScalarValue hscalar, he, hstores.1]
    congr
    exact UInt32.toNat_inj.1 (by rw [UInt16.toNat_toUInt32, hunit])
  · -- a surrogate pair, whose ten-bit halves put the code point back together
    obtain ⟨high, low, he, hhigh, hlow⟩ := encodeUTF16CodePoint_of_le_10000 (by omega) hmax
    rw [he, stores_cons, stores_cons] at hstores
    obtain ⟨hfirst, hsecond, -⟩ := hstores
    have hisHigh : IsHighSurrogate (memory nextChar16) := by
      rw [hfirst, IsHighSurrogate, hhigh]
      omega
    have hisLow : IsLowSurrogate (memory (nextChar16 + 1)) := by
      rw [hsecond, IsLowSurrogate, hlow]
      omega
    obtain ⟨codePoint', hdecode, hvalue⟩ :=
      @decodeUTF16CodePoint_of_surrogatePair memory nextChar16 endChar16 hisHigh hisLow
    rw [hfirst, hsecond, hhigh, hlow] at hvalue
    rw [hdecode, he]
    congr
    exact UInt32.toNat_inj.1 (by rw [hvalue]; omega)

end Encoder

/-! ## UTF-8 to UTF-16 -/

section ToUTF16

/-- The first transcoder goes exactly as far as `validateUTF8String`. -/
theorem fst_transcodeUTF8ToUTF16Loop (fuel : ℕ) (bytes : List UInt8) :
    (transcodeUTF8ToUTF16Loop fuel bytes).1 = validateUTF8StringLoop fuel bytes := by
  induction fuel generalizing bytes with
  | zero => rfl
  | succ fuel ih =>
    cases bytes with
    | nil => rfl
    | cons b bs =>
      rw [transcodeUTF8ToUTF16Loop, validateUTF8StringLoop]
      cases decodeUTF8CodePoint (b :: bs) with
      | none => rfl
      | some r =>
        obtain ⟨codePoint, numBytes⟩ := r
        exact congrArg (numBytes + ·) (ih _)

/-- One round of the first transcoder over the encoding of a scalar value outside `U+D000` to
`U+D7FF`. -/
theorem transcodeUTF8ToUTF16Loop_encodeUTF8CodePoint_append {codePoint : UInt32}
    (hc : IsScalarValue codePoint.toNat) (hblock : ¬ (0xD000 ≤ codePoint.toNat ∧ codePoint.toNat ≤ 0xD7FF))
    (rest : List UInt8) (fuel : ℕ) :
    transcodeUTF8ToUTF16Loop (fuel + 1) (encodeUTF8CodePoint codePoint ++ rest) =
      Prod.map ((encodeUTF8CodePoint codePoint).length + ·) (encodeUTF16CodePoint codePoint ++ ·)
        (transcodeUTF8ToUTF16Loop fuel rest) := by
  have hdecode := decodeUTF8CodePoint_encodeUTF8CodePoint hc hblock rest
  obtain ⟨a, t, he⟩ := (wellFormed_encodeUTF8CodePoint hc).exists_cons
  rw [he, List.cons_append] at hdecode ⊢
  rw [transcodeUTF8ToUTF16Loop, hdecode]
  dsimp only
  rw [← List.cons_append, List.drop_left]

/-- With a round for each byte, the first transcoder goes through the UTF-8 encodings of
scalar values outside `U+D000` to `U+D7FF` and appends their UTF-16 encodings. -/
theorem transcodeUTF8ToUTF16Loop_flatMap {codePoints : List UInt32}
    (hall : ∀ c ∈ codePoints, IsScalarValue c.toNat ∧ ¬ (0xD000 ≤ c.toNat ∧ c.toNat ≤ 0xD7FF)) :
    ∀ fuel, (codePoints.flatMap encodeUTF8CodePoint).length ≤ fuel →
      transcodeUTF8ToUTF16Loop fuel (codePoints.flatMap encodeUTF8CodePoint) =
        ((codePoints.flatMap encodeUTF8CodePoint).length,
          codePoints.flatMap encodeUTF16CodePoint) := by
  induction codePoints with
  | nil => intro fuel _; cases fuel <;> rfl
  | cons c codePoints ih =>
    intro fuel hfuel
    obtain ⟨hc, hblock⟩ := hall c List.mem_cons_self
    -- the encoding takes at least one byte, so at least one round is left
    have hpos : 0 < (encodeUTF8CodePoint c).length := by
      obtain ⟨a, t, he⟩ := (wellFormed_encodeUTF8CodePoint hc).exists_cons
      rw [he]
      exact Nat.succ_pos _
    rw [List.flatMap_cons, List.length_append] at hfuel ⊢
    obtain ⟨fuel, rfl⟩ : ∃ f, fuel = f + 1 := ⟨fuel - 1, by omega⟩
    rw [List.flatMap_cons, transcodeUTF8ToUTF16Loop_encodeUTF8CodePoint_append hc hblock,
      ih (fun c' hc' => hall c' (List.mem_cons_of_mem c hc')) fuel (by omega)]
    rfl

/-- **The first transcoder stops at once on a well-formed sequence of `U+D000` to `U+D7FF`**,
whatever follows it, and appends nothing. -/
theorem transcodeUTF8ToUTF16_rejects_ed_block {codePoint : UInt32}
    (hlo : 0xD000 ≤ codePoint.toNat) (hhi : codePoint.toNat ≤ 0xD7FF) (rest : List UInt8) :
    WellFormed (encodeUTF8CodePoint codePoint) ∧
      transcodeUTF8ToUTF16 (encodeUTF8CodePoint codePoint ++ rest) = (0, []) := by
  obtain ⟨hwf, -, hdecode⟩ := decodeUTF8CodePoint_rejects_ed_block hlo hhi rest
  refine ⟨hwf, ?_⟩
  obtain ⟨a, t, he⟩ := hwf.exists_cons
  rw [he, List.cons_append] at hdecode
  rw [transcodeUTF8ToUTF16, he, List.cons_append, List.length_cons, transcodeUTF8ToUTF16Loop,
    hdecode]

end ToUTF16

/-! ## UTF-16 to UTF-8 -/

section ToUTF8

variable {memory : ℕ → UInt16} {endChar : ℕ}

theorem transcodeUTF16ToUTF8Cond_of_decode {state : ℕ × List UInt8} {r : UInt32 × ℕ}
    (hne : state.1 ≠ endChar) (h : decodeUTF16CodePoint memory state.1 endChar = some r) :
    transcodeUTF16ToUTF8Cond memory endChar state = true := by
  simp [transcodeUTF16ToUTF8Cond, hne, h]

theorem transcodeUTF16ToUTF8Body_of_decode {state : ℕ × List UInt8} {codePoint : UInt32}
    {nextChar : ℕ}
    (h : decodeUTF16CodePoint memory state.1 endChar = some (codePoint, nextChar)) :
    transcodeUTF16ToUTF8Body memory endChar state =
      (nextChar, state.2 ++ encodeUTF8CodePoint codePoint) := by
  rw [transcodeUTF16ToUTF8Body, h]

/-- **The run of the second transcoder over the UTF-16 encodings of scalar values**: from a
pointer to them it ends at the end of the buffer, having appended their UTF-8 encodings, given
more tests than there are units. -/
theorem run_transcodeUTF16ToUTF8_flatMap {codePoints : List UInt32}
    (hall : ∀ c ∈ codePoints, IsScalarValue c.toNat) :
    ∀ {nextChar : ℕ} (out : List UInt8) (fuel : ℕ),
      Stores memory nextChar (codePoints.flatMap encodeUTF16CodePoint) →
      endChar = nextChar + (codePoints.flatMap encodeUTF16CodePoint).length →
      (codePoints.flatMap encodeUTF16CodePoint).length < fuel →
      WhileLoop.run (transcodeUTF16ToUTF8Cond memory endChar)
          (transcodeUTF16ToUTF8Body memory endChar) fuel (nextChar, out) =
        some (endChar, out ++ codePoints.flatMap encodeUTF8CodePoint) := by
  induction codePoints with
  | nil =>
    intro nextChar out fuel _ hend hfuel
    obtain ⟨fuel, rfl⟩ := Nat.exists_eq_add_one_of_ne_zero (Nat.pos_iff_ne_zero.1 hfuel)
    -- the pointer is at the end, so the loop stops before its first round
    have hstop : transcodeUTF16ToUTF8Cond memory endChar (nextChar, out) = false := by
      simp [transcodeUTF16ToUTF8Cond, hend]
    rw [WhileLoop.run_succ_of_not_cond hstop, hend]
    simp
  | cons c codePoints ih =>
    intro nextChar out fuel hstores hend hfuel
    have hc := hall c List.mem_cons_self
    rw [List.flatMap_cons, stores_append] at hstores
    rw [List.flatMap_cons, List.length_append] at hend hfuel
    have hdecode := decodeUTF16CodePoint_encodeUTF16CodePoint hc hstores.1 endChar
    have hpos := @length_encodeUTF16CodePoint_pos c
    obtain ⟨fuel, rfl⟩ := Nat.exists_eq_add_one_of_ne_zero (by omega : fuel ≠ 0)
    -- one round decodes `c`, and the rest of the run starts after its units
    rw [WhileLoop.run_succ_of_cond (transcodeUTF16ToUTF8Cond_of_decode (by dsimp only; omega)
      hdecode), transcodeUTF16ToUTF8Body_of_decode hdecode,
      ih (fun c' hc' => hall c' (List.mem_cons_of_mem c hc')) _ fuel hstores.2 (by omega)
        (by omega), List.flatMap_cons, List.append_assoc]

/-- **UTF-8 to UTF-16 and back gives back every buffer `validateUTF8String` accepts**: the first
transcoder goes through the whole buffer, and the second, run over its units wherever they are
stored, ends at their end with the bytes of the buffer. -/
theorem transcodeUTF16ToUTF8_transcodeUTF8ToUTF16 {bytes : List UInt8}
    (hvalid : validateUTF8String bytes = bytes.length) {nextChar : ℕ}
    (hstores : Stores memory nextChar (transcodeUTF8ToUTF16 bytes).2) {fuel : ℕ}
    (hfuel : (transcodeUTF8ToUTF16 bytes).2.length < fuel) :
    (transcodeUTF8ToUTF16 bytes).1 = bytes.length ∧
      transcodeUTF16ToUTF8 memory nextChar (nextChar + (transcodeUTF8ToUTF16 bytes).2.length)
          fuel = some (nextChar + (transcodeUTF8ToUTF16 bytes).2.length, bytes) := by
  obtain ⟨codePoints, hall, rfl⟩ :=
    decodable_iff_eq_flatMap.1 (validateUTF8String_eq_length_iff.1 hvalid)
  have htranscode := transcodeUTF8ToUTF16Loop_flatMap hall _ le_rfl
  unfold transcodeUTF8ToUTF16 at hstores hfuel ⊢
  rw [htranscode] at hstores hfuel ⊢
  refine ⟨rfl, ?_⟩
  rw [transcodeUTF16ToUTF8, run_transcodeUTF16ToUTF8_flatMap (fun c hc => (hall c hc).1) [] fuel
    hstores rfl hfuel, List.nil_append]

/-- **Past the end, the second transcoder runs on**: over a buffer whose last unit is a high
surrogate followed in memory by a low one, it never returns while every unit after them
decodes by itself. -/
theorem transcodeUTF16ToUTF8_eq_none_of_overrun {nextChar : ℕ}
    (hhigh : IsHighSurrogate (memory nextChar)) (hlow : IsLowSurrogate (memory (nextChar + 1)))
    (hafter : ∀ i, nextChar + 2 ≤ i → IsScalarValue (memory i).toNat) (fuel : ℕ) :
    transcodeUTF16ToUTF8 memory nextChar (nextChar + 1) fuel = none := by
  cases fuel with
  | zero => rfl
  | succ fuel =>
    obtain ⟨codePoint, hdecode, -⟩ :=
      @decodeUTF16CodePoint_of_surrogatePair memory nextChar (nextChar + 1) hhigh hlow
    rw [transcodeUTF16ToUTF8, WhileLoop.run_succ_of_cond
      (transcodeUTF16ToUTF8Cond_of_decode (by simp) hdecode), transcodeUTF16ToUTF8Body_of_decode hdecode]
    -- from two units past the start the pointer never meets the end again, and every unit
    -- decodes
    refine WhileLoop.run_eq_none_of_invariant (fun state => nextChar + 2 ≤ state.1) ?_ ?_ fuel _
      (Nat.le_refl _)
    · intro state hstate
      exact transcodeUTF16ToUTF8Cond_of_decode (by omega)
        (decodeUTF16CodePoint_of_isScalarValue (hafter _ hstate))
    · intro state hstate
      rw [transcodeUTF16ToUTF8Body_of_decode (decodeUTF16CodePoint_of_isScalarValue (hafter _ hstate))]
      exact Nat.le_succ_of_le hstate

end ToUTF8

end Wavm.Unicode
