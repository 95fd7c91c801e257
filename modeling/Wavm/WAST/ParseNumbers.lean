import Mathlib

set_option relaxedAutoImplicit false
set_option autoImplicit false

/-!
# Integer literals of the text format

The integer parsers of `src/Lib/WASTParse/ParseNumbers.cpp`. A literal token is
`[+\-]?\d+(_\d+)*` (`t_decimalInt`) or `[+\-]?0[xX][\da-fA-F]+(_[\da-fA-F]+)*` (`t_hexInt`),
followed by a separator. `tryParseInt` parses its sign, then its digits with
`parseDecimalUnsignedInt` or `parseHexUnsignedInt`, which accumulate in `U64` and stop at the
first digit that would take the value past a bound: the bound of a negative literal is
`-minSignedValue`, and that of any other `maxUnsignedValue`. Past the bound the parser records
"int literal is too large" (decimal) or "integer literal is too large" (hex) and returns the
bound. The value is then negated in `U64` for a negative literal and truncated to the width
of the result.

The overflow guard `result > (maxValue - digit) / base` is exact: a literal within its bound
gives its value modulo `2 ^ width` and no error, one outside gives the bound it passed and the
error, and the cursor moves past the token either way. The one exception is a negative literal
for an unsigned parser (`minSignedValue = 0`: `parseU32`, `tryParseU64`, `tryParseUptr`):
it fails and leaves the cursor on the token, `-0` included, and `parseU32` then records
"expected u32 literal". Its bound `-U64(0)` is `0`, and the digit loop records the error of a
literal past it exactly where a `0` digit follows a nonzero one (`parseUnsignedIntLoop_zero_eq`):
`-10` records "int literal is too large" before "expected u32 literal", and `-5` does not.

## Main definitions

* `Wavm.WAST.parseSign`, `Wavm.WAST.tryParseHexit`, `Wavm.WAST.parseDecimalUnsignedInt`,
  `Wavm.WAST.parseHexUnsignedInt`, `Wavm.WAST.tryParseInt`; the two digit parsers are
  `Wavm.WAST.parseUnsignedIntLoop` at their own digits, base, skip and message.
* `Wavm.WAST.parseI8`, `parseI16`, `parseI32`, `parseI64`, `parseU32`, `tryParseU64`,
  `tryParseUptr`.
* `Wavm.WAST.IsIntLiteralBody`, `Wavm.WAST.literalValue` — the characters of a literal and the
  integer they denote.
* `Wavm.WAST.literalDigits`, `Wavm.WAST.zeroAfterNonzero` — a literal's digits, and where the
  bound `0` stops the digit loop.

## Main results

* `Wavm.WAST.parseUnsignedIntLoop_eq`, `parseUnsignedIntLoop_zero_eq` — the digit loop on a
  literal's digits, in and out of range, and with the bound `0`.
* `Wavm.WAST.tryParseInt_intLiteral` — `tryParseInt` on every literal the lexer accepts.
* `Wavm.WAST.parseU32_minus_zero` — `-0` is rejected by the unsigned parsers, and `-10` records
  a spurious error first.

## Implementation notes

The input is the list of its characters; the list's end stands for the NUL that terminates the
string. A cursor holds the input, the recorded error messages (their loci are not modelled),
and the token at `nextToken` followed by the tokens after it, so that advancing drops the
first. A `false` return of `tryParseInt` is `none`; the value it stores on that path is not
read by any caller. `RecoverParseException` is `none` from the `parse` functions. `Uptr` is
`U64`.
-/

namespace Wavm.WAST

/-! ## The model -/

/-- The token types the parsers and the lexer modelled here tell apart; `other` is every other
type. -/
inductive TokenType
  | decimalInt
  | hexInt
  | string
  | name
  | quotedName
  | unterminatedComment
  | unrecognized
  | eof
  | other
  deriving DecidableEq, Repr

/-- A token: its type and the offset of its first character. -/
structure Token where
  type : TokenType
  begin : ℕ
  deriving DecidableEq, Repr

/-- `ParseState`: the input and the messages of the errors recorded so far. -/
structure ParseState where
  string : List Char
  errors : List String
  deriving DecidableEq, Repr

/-- `CursorState`: the parse state, and the token at `nextToken` with those after it. -/
structure CursorState where
  parseState : ParseState
  nextTokens : List Token
  deriving DecidableEq, Repr

/-- `parseErrorf`: records an error. -/
def parseErrorf (parseState : ParseState) (message : String) : ParseState :=
  { parseState with errors := parseState.errors ++ [message] }

/-- `parseSign`: whether a `-` was parsed, and the characters after the sign. -/
def parseSign : List Char → Bool × List Char
  | '-' :: nextChar => (true, nextChar)
  | '+' :: nextChar => (false, nextChar)
  | nextChar => (false, nextChar)

/-- The value `tryParseHexit` gives the character at `nextChar`, or `none` where it returns
`false`. -/
def hexitValue (c : Char) : Option UInt8 :=
  if c ≥ '0' ∧ c ≤ '9' then some (UInt8.ofNat (c.toNat - '0'.toNat))
  else if c ≥ 'a' ∧ c ≤ 'f' then some (UInt8.ofNat (c.toNat - 'a'.toNat + 10))
  else if c ≥ 'A' ∧ c ≤ 'F' then some (UInt8.ofNat (c.toNat - 'A'.toNat + 10))
  else none

/-- `tryParseHexit`: the value of the hexit at `nextChar` and the characters after it; a hexit
is always one character. -/
def tryParseHexit : List Char → Option (UInt8 × List Char)
  | [] => none
  | c :: nextChar => (hexitValue c).map fun hexit => (hexit, nextChar)

/-- The loop `while((*nextChar >= '0' && *nextChar <= '9') || *nextChar == '_') ++nextChar;`. -/
def skipDecimalDigits : List Char → List Char
  | [] => []
  | c :: nextChar =>
    if (c ≥ '0' ∧ c ≤ '9') ∨ c = '_' then skipDecimalDigits nextChar else c :: nextChar

/-- The loop `while(tryParseHexit(nextChar, hexit)) {};`. -/
def skipHexits : List Char → List Char
  | [] => []
  | c :: nextChar =>
    match hexitValue c with
    | some _ => skipHexits nextChar
    | none => c :: nextChar

/-- The loop the two digit parsers share, from `result`: past each `_`, the digit `digitOf`
reads is added in base `base` while the guard `result > (maxValue - digit) / base` fails; where
it holds, the loop records `message`, skips the rest with `skip` and gives `maxValue`. The
value, the characters after the loop and the parse state. -/
def parseUnsignedIntLoop (digitOf : Char → Option UInt8) (base : UInt64)
    (skip : List Char → List Char) (message : String) (parseState : ParseState)
    (maxValue : UInt64) : List Char → UInt64 → UInt64 × List Char × ParseState
  | [], result => (result, [], parseState)
  | c :: nextChar, result =>
    if c = '_' then
      parseUnsignedIntLoop digitOf base skip message parseState maxValue nextChar result
    else
      match digitOf c with
      | none => (result, c :: nextChar, parseState)
      | some digit =>
        if result > (maxValue - digit.toUInt64) / base then
          (maxValue, skip nextChar, parseErrorf parseState message)
        else
          parseUnsignedIntLoop digitOf base skip message parseState maxValue nextChar
            (result * base + digit.toUInt64)

/-- The digit `parseDecimalUnsignedInt` reads: `*nextChar - '0'` unless
`*nextChar < '0' || *nextChar > '9'`. -/
def decimalDigitOf (c : Char) : Option UInt8 :=
  if c < '0' ∨ c > '9' then none else some (UInt8.ofNat (c.toNat - '0'.toNat))

/-- `parseDecimalUnsignedInt`. -/
def parseDecimalUnsignedInt (nextChar : List Char) (parseState : ParseState) (maxValue : UInt64)
    (context : String) : UInt64 × List Char × ParseState :=
  parseUnsignedIntLoop decimalDigitOf 10 skipDecimalDigits (context ++ " is too large")
    parseState maxValue nextChar 0

/-- `parseHexUnsignedInt`: past the `0x`, the loop with `tryParseHexit`. -/
def parseHexUnsignedInt (nextChar : List Char) (parseState : ParseState) (maxValue : UInt64) :
    UInt64 × List Char × ParseState :=
  parseUnsignedIntLoop hexitValue 16 skipHexits "integer literal is too large" parseState
    maxValue (nextChar.drop 2) 0

/-- The `switch` of `tryParseInt`: whether the literal is negative, its magnitude and the parse
state after it, or `none` for a token that is not an integer literal. -/
def parseIntToken (parseState : ParseState) (token : Token) (minSignedValue : Int64)
    (maxUnsignedValue : UInt64) : Option (Bool × UInt64 × ParseState) :=
  let nextChar := parseState.string.drop token.begin
  match token.type with
  | .decimalInt =>
    let (isNegative, nextChar) := parseSign nextChar
    let u64 := parseDecimalUnsignedInt nextChar parseState
      (if isNegative then -minSignedValue.toUInt64 else maxUnsignedValue) "int literal"
    some (isNegative, u64.1, u64.2.2)
  | .hexInt =>
    let (isNegative, nextChar) := parseSign nextChar
    let u64 := parseHexUnsignedInt nextChar parseState
      (if isNegative then -minSignedValue.toUInt64 else maxUnsignedValue)
    some (isNegative, u64.1, u64.2.2)
  | _ => none

/-- `tryParseInt<UnsignedInt>`, with `ofU64` the conversion `UnsignedInt(u64)`: the cursor after
it and the value, or `none` where it returns `false`. -/
def tryParseInt {UnsignedInt : Type} (ofU64 : UInt64 → UnsignedInt) (cursor : CursorState)
    (minSignedValue : Int64) (maxUnsignedValue : UInt64) : CursorState × Option UnsignedInt :=
  match cursor.nextTokens with
  | [] => (cursor, none)
  | token :: tokens =>
    match parseIntToken cursor.parseState token minSignedValue maxUnsignedValue with
    | none => (cursor, none)
    | some (isNegative, u64, parseState) =>
      if minSignedValue = 0 ∧ isNegative then ({ cursor with parseState }, none)
      else
        ({ parseState, nextTokens := tokens },
          some (if isNegative then ofU64 (-u64) else ofU64 u64))

/-- `tryParseU64`. -/
def tryParseU64 (cursor : CursorState) : CursorState × Option UInt64 :=
  tryParseInt id cursor 0 0xFFFFFFFFFFFFFFFF

/-- `tryParseUptr`. -/
def tryParseUptr (cursor : CursorState) : CursorState × Option UInt64 :=
  tryParseInt id cursor 0 0xFFFFFFFFFFFFFFFF

/-- The `parse` functions: `tryParseInt`, or the error `expected ... literal` and
`RecoverParseException`. -/
def parseOrThrow {UnsignedInt : Type} (message : String) :
    CursorState × Option UnsignedInt → CursorState × Option UnsignedInt
  | (cursor, none) => ({ cursor with parseState := parseErrorf cursor.parseState message }, none)
  | (cursor, some result) => (cursor, some result)

/-- `parseU32`. -/
def parseU32 (cursor : CursorState) : CursorState × Option UInt32 :=
  parseOrThrow "expected u32 literal" (tryParseInt UInt64.toUInt32 cursor 0 0xFFFFFFFF)

/-- `parseI8`. -/
def parseI8 (cursor : CursorState) : CursorState × Option Int8 :=
  let r := parseOrThrow "expected i8 literal" (tryParseInt UInt64.toUInt32 cursor (-128) 255)
  (r.1, r.2.map fun result => result.toUInt8.toInt8)

/-- `parseI16`. -/
def parseI16 (cursor : CursorState) : CursorState × Option Int16 :=
  let r := parseOrThrow "expected i16 literal" (tryParseInt UInt64.toUInt32 cursor (-32768) 65535)
  (r.1, r.2.map fun result => result.toUInt16.toInt16)

/-- `parseI32`. -/
def parseI32 (cursor : CursorState) : CursorState × Option Int32 :=
  let r := parseOrThrow "expected i32 literal"
    (tryParseInt UInt64.toUInt32 cursor (-2147483648) 0xFFFFFFFF)
  (r.1, r.2.map fun result => result.toInt32)

/-- `parseI64`. -/
def parseI64 (cursor : CursorState) : CursorState × Option Int64 :=
  let r := parseOrThrow "expected i64 literal"
    (tryParseInt id cursor (-9223372036854775808) 0xFFFFFFFFFFFFFFFF)
  (r.1, r.2.map fun result => result.toInt64)

/-! ## Literals

What a literal token denotes, in the lexer's terms: an optional sign, then for `t_decimalInt`
digits and for `t_hexInt` `0x` or `0X` and hexits, with `_`s among them (the lexer puts one
between two digits; the parsers skip any), and then a separator. -/

/-- A decimal digit. -/
def IsDecimalDigit (c : Char) : Prop := '0' ≤ c ∧ c ≤ '9'

instance (c : Char) : Decidable (IsDecimalDigit c) := inferInstanceAs (Decidable (_ ∧ _))

/-- A hexit: `[\da-fA-F]`. -/
def IsHexit (c : Char) : Prop := IsDecimalDigit c ∨ ('a' ≤ c ∧ c ≤ 'f') ∨ ('A' ≤ c ∧ c ≤ 'F')

instance (c : Char) : Decidable (IsHexit c) := inferInstanceAs (Decidable (_ ∨ _))

/-- The characters the lexer accepts after a literal: those of
`createTokenSeparatorPeekState`, or the end of the input. -/
def IsTokenEnd (after : List Char) : Prop :=
  ∀ c ∈ after.head?, c ∈ [' ', '\t', '\r', '\n', '=', '(', ')', ';', '\x00']

instance : (after : List Char) → Decidable (IsTokenEnd after)
  | [] => isTrue (by simp [IsTokenEnd])
  | c :: _ =>
    decidable_of_iff (c ∈ [' ', '\t', '\r', '\n', '=', '(', ')', ';', '\x00']) (by simp [IsTokenEnd])

/-- The characters of a literal after its sign, for each token type. -/
def IsIntLiteralBody : TokenType → List Char → Prop
  | .decimalInt, body => ∀ c ∈ body, IsDecimalDigit c ∨ c = '_'
  | .hexInt, body => ∃ x hexits, body = '0' :: x :: hexits ∧ (x = 'x' ∨ x = 'X') ∧
      ∀ c ∈ hexits, IsHexit c ∨ c = '_'
  | _, _ => False

instance : (type : TokenType) → (body : List Char) → Decidable (IsIntLiteralBody type body)
  | .decimalInt, body =>
    decidable_of_iff ((body.all fun c => decide (IsDecimalDigit c ∨ c = '_')) = true)
      (by simp [IsIntLiteralBody])
  | .hexInt, c :: x :: hexits =>
    decidable_of_iff
      (c = '0' ∧ (x = 'x' ∨ x = 'X') ∧ (hexits.all fun c => decide (IsHexit c ∨ c = '_')) = true)
      (by simp [IsIntLiteralBody])
  | .hexInt, [] | .hexInt, [_] => isFalse (by simp [IsIntLiteralBody])
  | .string, _ | .name, _ | .quotedName, _ | .unterminatedComment, _ | .unrecognized, _
  | .eof, _ | .other, _ => isFalse id

/-- The value of a digit or a hexit. -/
def digitValue (c : Char) : ℕ :=
  if c ≤ '9' then c.toNat - '0'.toNat
  else if c ≤ 'F' then c.toNat - 'A'.toNat + 10
  else c.toNat - 'a'.toNat + 10

/-- The values of the digits among `cs`, most significant first. -/
def digitValues (cs : List Char) : List ℕ :=
  cs.filterMap fun c => if c = '_' then none else some (digitValue c)

/-- The number a literal's digits denote. -/
def literalMagnitude : TokenType → List Char → ℕ
  | .hexInt, body => Nat.ofDigits 16 (digitValues (body.drop 2)).reverse
  | _, body => Nat.ofDigits 10 (digitValues body).reverse

/-- The integer a literal denotes. -/
def literalValue (sign : List Char) (type : TokenType) (body : List Char) : Int :=
  if sign = ['-'] then -(literalMagnitude type body : Int) else literalMagnitude type body

/-- The error a literal past its bound records. -/
def tooLargeMessage : TokenType → String
  | .hexInt => "integer literal is too large"
  | _ => "int literal is too large"

/-- The values of a literal's digits, most significant first: those after the `0x` of a hex
literal. -/
def literalDigits : TokenType → List Char → List ℕ
  | .hexInt, body => digitValues (body.drop 2)
  | _, body => digitValues body

/-- Whether a `0` digit follows the first nonzero one. -/
def zeroAfterNonzero (digits : List ℕ) : Bool :=
  decide (0 ∈ (digits.dropWhile (· == 0)).drop 1)

@[simp] theorem zeroAfterNonzero_nil : zeroAfterNonzero [] = false := rfl

@[simp] theorem zeroAfterNonzero_zero_cons (digits : List ℕ) :
    zeroAfterNonzero (0 :: digits) = zeroAfterNonzero digits := by
  simp [zeroAfterNonzero]

theorem zeroAfterNonzero_cons {d : ℕ} (hd : d ≠ 0) (digits : List ℕ) :
    zeroAfterNonzero (d :: digits) = decide (0 ∈ digits) := by
  simp [zeroAfterNonzero, hd]

theorem char_le_iff_toNat {c d : Char} : c ≤ d ↔ c.toNat ≤ d.toNat := Iff.rfl
theorem char_lt_iff_toNat {c d : Char} : c < d ↔ c.toNat < d.toNat := Iff.rfl

theorem decimalDigitOf_of_isDecimalDigit {c : Char} (h : IsDecimalDigit c) :
    decimalDigitOf c = some (UInt8.ofNat (digitValue c)) ∧ digitValue c < 10 := by
  simp only [IsDecimalDigit, char_le_iff_toNat, Char.reduceToNat] at h
  simp only [decimalDigitOf, digitValue, gt_iff_lt, char_lt_iff_toNat, char_le_iff_toNat,
    Char.reduceToNat]
  rw [if_neg (by omega), if_pos (by omega)]
  exact ⟨rfl, by omega⟩

theorem hexitValue_of_isHexit {c : Char} (h : IsHexit c) :
    hexitValue c = some (UInt8.ofNat (digitValue c)) ∧ digitValue c < 16 := by
  simp only [IsHexit, IsDecimalDigit, char_le_iff_toNat, Char.reduceToNat] at h
  simp only [hexitValue, digitValue, ge_iff_le, char_le_iff_toNat, Char.reduceToNat]
  rcases h with h | h | h
  · rw [if_pos h, if_pos (by omega)]
    exact ⟨rfl, by omega⟩
  · rw [if_neg (by omega), if_pos h, if_neg (by omega), if_neg (by omega)]
    exact ⟨rfl, by omega⟩
  · rw [if_neg (by omega), if_neg (by omega), if_pos h, if_neg (by omega), if_pos (by omega)]
    exact ⟨rfl, by omega⟩

/-- A separator is neither a digit, an underscore nor a sign. -/
theorem isTokenEnd_head {after : List Char} (h : IsTokenEnd after) :
    ∀ c ∈ after.head?, c ≠ '_' ∧ c ≠ '-' ∧ c ≠ '+' ∧ decimalDigitOf c = none ∧
      hexitValue c = none := by
  intro c hc
  have hc : c ∈ [' ', '\t', '\r', '\n', '=', '(', ')', ';', '\x00'] := h c hc
  simp only [List.mem_cons, List.not_mem_nil, or_false] at hc
  rcases hc with rfl | rfl | rfl | rfl | rfl | rfl | rfl | rfl | rfl <;> decide

theorem toInt_eq_toNat_cond (x : Int64) : x.toInt = if 2 * x.toUInt64.toNat < 2 ^ 64 then
    (x.toUInt64.toNat : Int) else (x.toUInt64.toNat : Int) - 2 ^ 64 := by
  rw [Int64.toInt, BitVec.toInt_eq_toNat_cond]
  rfl

theorem toNat_neg_toUInt64 {x : Int64} (h : x.toInt < 0) :
    ((-x.toUInt64).toNat : Int) = -x.toInt := by
  have hlt := x.toUInt64.toNat_lt
  have hsize : UInt64.size = 2 ^ 64 := rfl
  rw [toInt_eq_toNat_cond] at h ⊢
  split at h
  · omega
  · rename_i hc
    rw [if_neg hc, UInt64.toNat_neg, Nat.mod_eq_of_lt (by omega)]
    omega

theorem ofInt_toInt (x : Int64) : UInt64.ofInt x.toInt = x.toUInt64 := by
  apply UInt64.toNat_inj.1
  have hlt := x.toUInt64.toNat_lt
  rw [UInt64.ofInt, UInt64.toNat_ofNat', toInt_eq_toNat_cond]
  split <;> omega

theorem ofInt_natCast (m : ℕ) : UInt64.ofInt (m : Int) = UInt64.ofNat m := by
  apply UInt64.toNat_inj.1
  rw [UInt64.ofInt, UInt64.toNat_ofNat', UInt64.toNat_ofNat']
  omega

theorem guard_iff (result : UInt64) {maxValue digit base : UInt64} (hbase : 0 < base.toNat)
    (hdigit : digit.toNat ≤ maxValue.toNat) :
    result > (maxValue - digit) / base ↔
      maxValue.toNat < result.toNat * base.toNat + digit.toNat := by
  rw [gt_iff_lt, UInt64.lt_iff_toNat_lt, UInt64.toNat_div,
    UInt64.toNat_sub_of_le _ _ (UInt64.le_iff_toNat_le.2 hdigit), Nat.div_lt_iff_lt_mul hbase]
  omega

/-- The guard with the bound `0`: `0 - digit` wraps for a nonzero digit, so while the next value
fits the guard holds only at a `0` digit after a nonzero value. -/
theorem guard_zero_iff {result digit base : UInt64} (hbase : 0 < base.toNat)
    (hsmall : result.toNat * base.toNat + digit.toNat < 2 ^ 64) :
    result > (0 - digit) / base ↔ digit.toNat = 0 ∧ result.toNat ≠ 0 := by
  by_cases hzero : digit.toNat = 0
  · have hdiv : (0 - digit) / base = 0 := by
      apply UInt64.toNat_inj.1
      rw [UInt64.toNat_div, UInt64.toNat_sub_of_le _ _ (UInt64.le_iff_toNat_le.2 (by simp [hzero])),
        hzero]
      simp
    rw [hdiv, gt_iff_lt, UInt64.lt_iff_toNat_lt, UInt64.toNat_zero]
    omega
  · have hguard : ¬ result > (0 - digit) / base := by
      rw [gt_iff_lt, UInt64.lt_iff_toNat_lt, UInt64.toNat_div, UInt64.toNat_sub, not_lt,
        Nat.le_div_iff_mul_le hbase]
      simp only [UInt64.toNat_zero]
      omega
    exact iff_of_false hguard fun h => hzero h.1

/-- The value after a digit, where it fits. -/
theorem toNat_mul_add_of_lt {result base digit : UInt64}
    (h : result.toNat * base.toNat + digit.toNat < 2 ^ 64) :
    (result * base + digit).toNat = result.toNat * base.toNat + digit.toNat := by
  rw [UInt64.toNat_add, UInt64.toNat_mul, Nat.mod_eq_of_lt (by omega), Nat.mod_eq_of_lt (by omega)]

theorem horner_step (r b d k o : ℕ) :
    r * b ^ (k + 1) + (o + b ^ k * d) = (r * b + d) * b ^ k + o := by
  ring

@[simp] theorem digitValues_nil : digitValues [] = [] := rfl

@[simp] theorem digitValues_underscore (cs : List Char) :
    digitValues ('_' :: cs) = digitValues cs := by
  simp [digitValues]

theorem digitValues_cons {c : Char} (hc : c ≠ '_') (cs : List Char) :
    digitValues (c :: cs) = digitValue c :: digitValues cs := by
  simp [digitValues, hc]

section Loop

variable (digitOf : Char → Option UInt8) (base : UInt64) (skip : List Char → List Char)
  (message : String) (parseState : ParseState) (maxValue : UInt64)

@[simp] theorem parseUnsignedIntLoop_underscore (rest : List Char) (result : UInt64) :
    parseUnsignedIntLoop digitOf base skip message parseState maxValue ('_' :: rest) result =
      parseUnsignedIntLoop digitOf base skip message parseState maxValue rest result := by
  simp [parseUnsignedIntLoop]

/-- One digit of the loop: the guard, else the value times the base plus the digit. -/
theorem parseUnsignedIntLoop_digit {c : Char} {digit : UInt8} (hc : c ≠ '_')
    (hdigit : digitOf c = some digit) (rest : List Char) (result : UInt64) :
    parseUnsignedIntLoop digitOf base skip message parseState maxValue (c :: rest) result =
      if result > (maxValue - digit.toUInt64) / base then
        (maxValue, skip rest, parseErrorf parseState message)
      else parseUnsignedIntLoop digitOf base skip message parseState maxValue rest
        (result * base + digit.toUInt64) := by
  simp [parseUnsignedIntLoop, hc, hdigit]

theorem parseUnsignedIntLoop_of_stop {after : List Char}
    (hafter : ∀ c ∈ after.head?, c ≠ '_' ∧ digitOf c = none) (result : UInt64) :
    (parseUnsignedIntLoop digitOf base skip message parseState maxValue after result).1 = result ∧
      (parseUnsignedIntLoop digitOf base skip message parseState maxValue after result).2.2 =
        parseState := by
  cases after with
  | nil => exact ⟨rfl, rfl⟩
  | cons c after =>
    obtain ⟨hc, hdigit⟩ := hafter c rfl
    simp [parseUnsignedIntLoop, hc, hdigit]

theorem parseUnsignedIntLoop_eq (hbase : 0 < base.toNat) (hbase' : base.toNat ≤ 256)
    (hmax : base.toNat ≤ maxValue.toNat + 1) {body after : List Char}
    (hbody : ∀ c ∈ body, c = '_' ∨
      (digitOf c = some (UInt8.ofNat (digitValue c)) ∧ digitValue c < base.toNat))
    (hafter : ∀ c ∈ after.head?, c ≠ '_' ∧ digitOf c = none)
    (result : UInt64) (hresult : result.toNat ≤ maxValue.toNat) :
    let n := result.toNat * base.toNat ^ (digitValues body).length +
      Nat.ofDigits base.toNat (digitValues body).reverse
    let r := parseUnsignedIntLoop digitOf base skip message parseState maxValue (body ++ after)
      result
    (r.1, r.2.2) = if n ≤ maxValue.toNat then (UInt64.ofNat n, parseState)
      else (maxValue, parseErrorf parseState message) := by
  induction body generalizing result with
  | nil =>
    obtain ⟨h1, h2⟩ :=
      parseUnsignedIntLoop_of_stop digitOf base skip message parseState maxValue hafter result
    simp [h1, h2, hresult]
  | cons c body ih =>
    have hbody' : ∀ c ∈ body, c = '_' ∨
        (digitOf c = some (UInt8.ofNat (digitValue c)) ∧ digitValue c < base.toNat) :=
      fun c hc => hbody c (List.mem_cons_of_mem _ hc)
    by_cases hc : c = '_'
    · subst hc
      simpa using ih hbody' result hresult
    · obtain ⟨hdigit, hlt⟩ := (hbody c List.mem_cons_self).resolve_left hc
      have hv : (UInt8.ofNat (digitValue c)).toUInt64.toNat = digitValue c := by
        simp only [UInt8.toNat_toUInt64, UInt8.toNat_ofNat']
        omega
      have hguard := guard_iff result hbase
        (show (UInt8.ofNat (digitValue c)).toUInt64.toNat ≤ maxValue.toNat by omega)
      rw [hv] at hguard
      have hpow : 0 < base.toNat ^ (digitValues body).length := Nat.pow_pos hbase
      simp only [digitValues_cons hc, List.length_cons, Nat.ofDigits_reverse_cons, horner_step]
      rw [List.cons_append, parseUnsignedIntLoop_digit digitOf base skip message parseState maxValue
        hc hdigit]
      by_cases hg : maxValue.toNat < result.toNat * base.toNat + digitValue c
      · -- the guard stops the loop at this digit: the whole literal is past the bound too
        rw [if_pos (hguard.2 hg), if_neg]
        have := Nat.le_mul_of_pos_right (result.toNat * base.toNat + digitValue c) hpow
        omega
      · have hnext : (result * base + (UInt8.ofNat (digitValue c)).toUInt64).toNat =
            result.toNat * base.toNat + digitValue c := by
          have hlt := maxValue.toNat_lt
          rw [toNat_mul_add_of_lt (by omega), hv]
        rw [if_neg (mt hguard.1 hg)]
        have := ih hbody' (result * base + (UInt8.ofNat (digitValue c)).toUInt64)
          (by rw [hnext]; omega)
        rw [hnext] at this
        exact this

/-- **The digit loop with the bound `0`**, that of a negative literal for an unsigned parser:
`(maxValue - digit) / base` wraps for a nonzero digit, and the guard holds only at a `0` digit
once the value is nonzero. So the loop records its message exactly where a `0` follows a nonzero
digit, counting the value it starts from as the digits before, for a literal below `2 ^ 64`. -/
theorem parseUnsignedIntLoop_zero_eq (hbase : 0 < base.toNat) (hbase' : base.toNat ≤ 256)
    {body after : List Char}
    (hbody : ∀ c ∈ body, c = '_' ∨
      (digitOf c = some (UInt8.ofNat (digitValue c)) ∧ digitValue c < base.toNat))
    (hafter : ∀ c ∈ after.head?, c ≠ '_' ∧ digitOf c = none) (result : UInt64)
    (hsmall : result.toNat * base.toNat ^ (digitValues body).length +
      Nat.ofDigits base.toNat (digitValues body).reverse < 2 ^ 64) :
    (parseUnsignedIntLoop digitOf base skip message parseState 0 (body ++ after) result).2.2 =
      if zeroAfterNonzero (result.toNat :: digitValues body) then parseErrorf parseState message
      else parseState := by
  induction body generalizing result with
  | nil =>
    obtain ⟨-, h2⟩ := parseUnsignedIntLoop_of_stop digitOf base skip message parseState 0 hafter result
    rw [List.nil_append, h2, digitValues_nil]
    by_cases hresult : result.toNat = 0 <;> simp [hresult, zeroAfterNonzero_cons]
  | cons c body ih =>
    have hbody' : ∀ c ∈ body, c = '_' ∨
        (digitOf c = some (UInt8.ofNat (digitValue c)) ∧ digitValue c < base.toNat) :=
      fun c hc => hbody c (List.mem_cons_of_mem _ hc)
    by_cases hc : c = '_'
    · subst hc
      simpa using ih hbody' result hsmall
    obtain ⟨hdigit, hlt⟩ := (hbody c List.mem_cons_self).resolve_left hc
    have hv : (UInt8.ofNat (digitValue c)).toUInt64.toNat = digitValue c := by
      simp only [UInt8.toNat_toUInt64, UInt8.toNat_ofNat']
      omega
    simp only [digitValues_cons hc, List.length_cons, Nat.ofDigits_reverse_cons, horner_step]
      at hsmall ⊢
    rw [List.cons_append, parseUnsignedIntLoop_digit digitOf base skip message parseState 0 hc
      hdigit]
    -- the value after this digit is below the literal, so below `2 ^ 64`
    have hpow : 0 < base.toNat ^ (digitValues body).length := Nat.pow_pos hbase
    have hbound : result.toNat * base.toNat + digitValue c < 2 ^ 64 := by
      have := Nat.le_mul_of_pos_right (result.toNat * base.toNat + digitValue c) hpow
      omega
    have hguard := guard_zero_iff hbase (show result.toNat * base.toNat +
      (UInt8.ofNat (digitValue c)).toUInt64.toNat < 2 ^ 64 by omega)
    have hnext : (result * base + (UInt8.ofNat (digitValue c)).toUInt64).toNat =
        result.toNat * base.toNat + digitValue c := by
      rw [toNat_mul_add_of_lt (by omega), hv]
    rw [hv] at hguard
    by_cases hguarded : digitValue c = 0 ∧ result.toNat ≠ 0
    · -- a `0` digit after a nonzero value: the guard records the message
      rw [if_pos (hguard.2 hguarded), hguarded.1, zeroAfterNonzero_cons hguarded.2]
      simp
    rw [if_neg (mt hguard.1 hguarded), ih hbody' _ (by rw [hnext]; exact hsmall), hnext]
    by_cases hresult : result.toNat = 0
    · -- leading `0`s keep the value `0`
      rw [hresult, zeroAfterNonzero_zero_cons, zero_mul, zero_add]
    · -- a nonzero digit after a nonzero value: the value stays nonzero
      have hzero : digitValue c ≠ 0 := fun h => hguarded ⟨h, hresult⟩
      rw [zeroAfterNonzero_cons hresult, zeroAfterNonzero_cons (by omega)]
      simp [Ne.symm hzero]

end Loop

theorem parseSign_append {sign rest : List Char} (hsign : sign ∈ [[], ['+'], ['-']])
    (hrest : ∀ c ∈ rest.head?, c ≠ '-' ∧ c ≠ '+') :
    parseSign (sign ++ rest) = (decide (sign = ['-']), rest) := by
  simp only [List.mem_cons, List.not_mem_nil, or_false] at hsign
  rcases hsign with rfl | rfl | rfl
  · cases rest with
    | nil => rfl
    | cons c rest =>
      obtain ⟨h1, h2⟩ := hrest c rfl
      simp [parseSign, h1, h2]
  · rfl
  · rfl

theorem head_not_sign {body after : List Char} (hbody : ∀ c ∈ body.head?, c ≠ '-' ∧ c ≠ '+')
    (hafter : IsTokenEnd after) : ∀ c ∈ (body ++ after).head?, c ≠ '-' ∧ c ≠ '+' := by
  intro c hc
  cases body with
  | nil =>
    cases after with
    | nil => simp at hc
    | cons d after =>
      obtain ⟨-, h1, h2, -⟩ := isTokenEnd_head hafter c hc
      exact ⟨h1, h2⟩
  | cons d body => exact hbody c (by simpa using hc)

theorem not_sign_of_isDecimalDigit {c : Char} (h : IsDecimalDigit c ∨ c = '_') :
    c ≠ '-' ∧ c ≠ '+' := by
  rcases h with h | rfl
  · constructor <;> rintro rfl <;> exact absurd h (by decide)
  · decide

theorem parseIntToken_intLiteral (minSignedValue : Int64) (maxUnsignedValue : UInt64)
    {parseState : ParseState} {token : Token} {sign body after : List Char}
    (hstring : parseState.string.drop token.begin = sign ++ body ++ after)
    (hsign : sign ∈ [[], ['+'], ['-']]) (hbody : IsIntLiteralBody token.type body)
    (hafter : IsTokenEnd after) :
    let maxValue := if sign = ['-'] then -minSignedValue.toUInt64 else maxUnsignedValue
    ∃ u64 parseState', parseIntToken parseState token minSignedValue maxUnsignedValue =
        some (decide (sign = ['-']), u64, parseState') ∧
      (15 ≤ maxValue.toNat → (u64, parseState') =
        if literalMagnitude token.type body ≤ maxValue.toNat then
          (UInt64.ofNat (literalMagnitude token.type body), parseState)
        else (maxValue, parseErrorf parseState (tooLargeMessage token.type))) ∧
      (maxValue = 0 → literalMagnitude token.type body < 2 ^ 64 →
        parseState' = if zeroAfterNonzero (literalDigits token.type body) then
          parseErrorf parseState (tooLargeMessage token.type) else parseState) := by
  intro maxValue
  have hM : (if decide (sign = ['-']) = true then -minSignedValue.toUInt64
      else maxUnsignedValue) = maxValue := by
    simp only [decide_eq_true_eq]
    rfl
  obtain ⟨type, tokenBegin⟩ := token
  cases type with
  | decimalInt =>
    have hbody : ∀ c ∈ body, IsDecimalDigit c ∨ c = '_' := hbody
    have hsign' := parseSign_append hsign
      (head_not_sign (fun c hc => not_sign_of_isDecimalDigit (hbody c (List.mem_of_mem_head? hc)))
        hafter)
    have hdigits : ∀ c ∈ body, c = '_' ∨
        (decimalDigitOf c = some (UInt8.ofNat (digitValue c)) ∧ digitValue c < (10 : UInt64).toNat) :=
      fun c hc => (hbody c hc).symm.imp id decimalDigitOf_of_isDecimalDigit
    have hstop : ∀ c ∈ after.head?, c ≠ '_' ∧ decimalDigitOf c = none :=
      fun c hc => ⟨(isTokenEnd_head hafter c hc).1, (isTokenEnd_head hafter c hc).2.2.2.1⟩
    refine ⟨_, _, by simp only [parseIntToken, hstring, List.append_assoc, hsign']; rfl,
      fun hbound => ?_, fun hzero hsmall => ?_⟩
    · have hloop := parseUnsignedIntLoop_eq decimalDigitOf 10 skipDecimalDigits
        ("int literal" ++ " is too large") parseState maxValue (by decide) (by decide)
        (by simp only [UInt64.reduceToNat]; omega) hdigits hstop 0 (Nat.zero_le _)
      simp only [UInt64.reduceToNat, zero_mul, zero_add] at hloop
      rw [hM, parseDecimalUnsignedInt]
      exact hloop
    · -- the bound `-U64(0)` of a negative literal for an unsigned parser
      have hloop := parseUnsignedIntLoop_zero_eq decimalDigitOf 10 skipDecimalDigits
        ("int literal" ++ " is too large") parseState (by decide) (by decide) hdigits hstop 0
        (by simpa [literalMagnitude] using hsmall)
      rw [hM, hzero, parseDecimalUnsignedInt, hloop, UInt64.toNat_zero, zeroAfterNonzero_zero_cons]
      rfl
  | hexInt =>
    obtain ⟨x, hexits, rfl, -, hhexits⟩ := hbody
    have hsign' := parseSign_append hsign
      (head_not_sign (fun c (hc : c ∈ ('0' :: x :: hexits).head?) => by cases hc; decide)
        hafter)
    have hdigits : ∀ c ∈ hexits, c = '_' ∨
        (hexitValue c = some (UInt8.ofNat (digitValue c)) ∧ digitValue c < (16 : UInt64).toNat) :=
      fun c hc => (hhexits c hc).symm.imp id hexitValue_of_isHexit
    have hstop : ∀ c ∈ after.head?, c ≠ '_' ∧ hexitValue c = none :=
      fun c hc => ⟨(isTokenEnd_head hafter c hc).1, (isTokenEnd_head hafter c hc).2.2.2.2⟩
    refine ⟨_, _, by simp only [parseIntToken, hstring, List.append_assoc, hsign']; rfl,
      fun hbound => ?_, fun hzero hsmall => ?_⟩
    · have hloop := parseUnsignedIntLoop_eq hexitValue 16 skipHexits
        "integer literal is too large" parseState maxValue (by decide) (by decide)
        (by simp only [UInt64.reduceToNat]; omega) hdigits hstop 0 (Nat.zero_le _)
      simp only [UInt64.reduceToNat, zero_mul, zero_add] at hloop
      rw [hM, parseHexUnsignedInt]
      exact hloop
    · have hloop := parseUnsignedIntLoop_zero_eq hexitValue 16 skipHexits
        "integer literal is too large" parseState (by decide) (by decide) hdigits hstop 0
        (by simpa [literalMagnitude] using hsmall)
      have hdrop : ('0' :: x :: hexits ++ after).drop 2 = hexits ++ after := rfl
      rw [hM, hzero, parseHexUnsignedInt, hdrop, hloop, UInt64.toNat_zero,
        zeroAfterNonzero_zero_cons]
      rfl
  | string | name | quotedName | unterminatedComment | unrecognized | eof | other =>
    exact hbody.elim

theorem tryParseInt_intLiteral {UnsignedInt : Type} (ofU64 : UInt64 → UnsignedInt)
    {cursor : CursorState} {token : Token} {tokens : List Token} {minSignedValue : Int64}
    {maxUnsignedValue : UInt64} {sign body after : List Char}
    (hmin : minSignedValue = 0 ∨ minSignedValue.toInt ≤ -16)
    (hmax : 15 ≤ maxUnsignedValue.toNat) (hnext : cursor.nextTokens = token :: tokens)
    (hstring : cursor.parseState.string.drop token.begin = sign ++ body ++ after)
    (hsign : sign ∈ [[], ['+'], ['-']]) (hbody : IsIntLiteralBody token.type body)
    (hafter : IsTokenEnd after) :
    let v := literalValue sign token.type body
    let r := tryParseInt ofU64 cursor minSignedValue maxUnsignedValue
    (minSignedValue = 0 ∧ sign = ['-'] → r.1.nextTokens = cursor.nextTokens ∧ r.2 = none ∧
      (literalMagnitude token.type body < 2 ^ 64 →
        r.1.parseState = if zeroAfterNonzero (literalDigits token.type body) then
          parseErrorf cursor.parseState (tooLargeMessage token.type) else cursor.parseState) ∧
      ∀ message, parseOrThrow message r =
        ({ r.1 with parseState := parseErrorf r.1.parseState message }, none)) ∧
    (¬(minSignedValue = 0 ∧ sign = ['-']) →
      r = ({ parseState :=
              if minSignedValue.toInt ≤ v ∧ v ≤ maxUnsignedValue.toNat then cursor.parseState
              else parseErrorf cursor.parseState (tooLargeMessage token.type),
             nextTokens := tokens },
           some (ofU64 (UInt64.ofInt
             (max minSignedValue.toInt (min v maxUnsignedValue.toNat)))))) := by
  intro v r
  obtain ⟨u64, parseState', htoken, hspec⟩ :=
    parseIntToken_intLiteral minSignedValue maxUnsignedValue hstring hsign hbody hafter
  have hr : r = if minSignedValue = 0 ∧ sign = ['-'] then
      ({ cursor with parseState := parseState' }, none)
      else ({ parseState := parseState', nextTokens := tokens },
        some (if sign = ['-'] then ofU64 (-u64) else ofU64 u64)) := by
    simp only [r, tryParseInt, hnext, htoken, decide_eq_true_eq]
  refine ⟨fun hfail => ?_, fun hok => ?_⟩
  · -- the bound of the magnitude is `-U64(0) = 0`, and the cursor stays on the token
    rw [hr, if_pos hfail]
    have hzero : (if sign = ['-'] then -minSignedValue.toUInt64 else maxUnsignedValue) = 0 := by
      rw [if_pos hfail.2, hfail.1]
      rfl
    exact ⟨rfl, rfl, hspec.2 hzero, fun _ => rfl⟩
  rw [hr, if_neg hok]
  have hm : v = if sign = ['-'] then -(literalMagnitude token.type body : Int)
      else literalMagnitude token.type body := rfl
  by_cases hneg : sign = ['-']
  · -- a negative literal: the bound is the magnitude of `minSignedValue`
    have hmin' : minSignedValue.toInt ≤ -16 := hmin.resolve_left fun h0 => hok ⟨h0, hneg⟩
    have hM := toNat_neg_toUInt64 (show minSignedValue.toInt < 0 by omega)
    simp only [if_pos hneg] at hspec hm
    rw [if_pos hneg]
    by_cases hin : literalMagnitude token.type body ≤ (-minSignedValue.toUInt64).toNat
    · obtain ⟨hu, hps⟩ := Prod.mk.inj (hspec.1 (by omega) |>.trans (if_pos hin))
      subst u64 parseState'
      have hclamp : max minSignedValue.toInt (min v maxUnsignedValue.toNat) =
          -(literalMagnitude token.type body : Int) := by omega
      rw [if_pos (by omega), hclamp, UInt64.ofInt_neg, ofInt_natCast]
    · obtain ⟨hu, hps⟩ := Prod.mk.inj (hspec.1 (by omega) |>.trans (if_neg hin))
      subst u64 parseState'
      have hclamp : max minSignedValue.toInt (min v maxUnsignedValue.toNat) =
          minSignedValue.toInt := by omega
      rw [if_neg (by omega), hclamp, UInt64.neg_neg, ofInt_toInt]
  · have hmin' : minSignedValue.toInt ≤ 0 := by
      rcases hmin with rfl | h
      · decide
      · omega
    simp only [if_neg hneg] at hspec hm
    rw [if_neg hneg]
    by_cases hin : literalMagnitude token.type body ≤ maxUnsignedValue.toNat
    · obtain ⟨hu, hps⟩ := Prod.mk.inj (hspec.1 hmax |>.trans (if_pos hin))
      subst u64 parseState'
      have hclamp : max minSignedValue.toInt (min v maxUnsignedValue.toNat) =
          (literalMagnitude token.type body : Int) := by omega
      rw [if_pos (by omega), hclamp, ofInt_natCast]
    · obtain ⟨hu, hps⟩ := Prod.mk.inj (hspec.1 hmax |>.trans (if_neg hin))
      subst u64 parseState'
      have hclamp : max minSignedValue.toInt (min v maxUnsignedValue.toNat) =
          (maxUnsignedValue.toNat : Int) := by omega
      rw [if_neg (by omega), hclamp, ofInt_natCast, UInt64.ofNat_toNat]

theorem tryParseInt_intLiteral_i8 :
    ((-128 : Int64) = 0 ∨ (-128 : Int64).toInt ≤ -16) ∧ 15 ≤ (255 : UInt64).toNat ∧
      tryParseInt UInt64.toUInt32 ⟨⟨['-', '1', '2', '9', ' '], []⟩, [⟨.decimalInt, 0⟩]⟩
          (-128) 255 =
        (⟨⟨['-', '1', '2', '9', ' '], ["int literal is too large"]⟩, []⟩, some 0xFFFFFF80) :=
  have hmin : (-128 : Int64) = 0 ∨ (-128 : Int64).toInt ≤ -16 := Or.inr (by decide)
  have hmax : 15 ≤ (255 : UInt64).toNat := by decide
  have hnext : (⟨⟨['-', '1', '2', '9', ' '], []⟩, [⟨.decimalInt, 0⟩]⟩ : CursorState).nextTokens =
      [⟨.decimalInt, 0⟩] := rfl
  have hstring : ((⟨⟨['-', '1', '2', '9', ' '], []⟩, [⟨.decimalInt, 0⟩]⟩ : CursorState)
      ).parseState.string.drop (⟨.decimalInt, 0⟩ : Token).begin =
        ['-'] ++ ['1', '2', '9'] ++ [' '] := rfl
  have hbody : IsIntLiteralBody .decimalInt ['1', '2', '9'] := by decide
  ⟨hmin, hmax, ((tryParseInt_intLiteral UInt64.toUInt32 hmin hmax hnext hstring (by decide)
    hbody (by decide)).2 (by decide)).trans (by decide)⟩

/-- The unsigned parsers reject `-0`, and `parseU32` records `expected u32 literal`; on `-10` it
first records the `int literal is too large` of the bound `-U64(0)`, at the `0` after the `1`. -/
theorem parseU32_minus_zero :
    parseU32 ⟨⟨['-', '0'], []⟩, [⟨.decimalInt, 0⟩]⟩ =
        (⟨⟨['-', '0'], ["expected u32 literal"]⟩, [⟨.decimalInt, 0⟩]⟩, none) ∧
      tryParseU64 ⟨⟨['-', '0'], []⟩, [⟨.decimalInt, 0⟩]⟩ =
        (⟨⟨['-', '0'], []⟩, [⟨.decimalInt, 0⟩]⟩, none) ∧
      parseU32 ⟨⟨['-', '1', '0'], []⟩, [⟨.decimalInt, 0⟩]⟩ =
        (⟨⟨['-', '1', '0'], ["int literal is too large", "expected u32 literal"]⟩,
          [⟨.decimalInt, 0⟩]⟩, none) := by
  decide

end Wavm.WAST
