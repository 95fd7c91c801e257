import Wavm.WAST.ParseNumbers
import Wavm.Inline.Unicode

set_option relaxedAutoImplicit false
set_option autoImplicit false

/-!
# String literals of the text format

The printer's `escapeString` (`src/Lib/WASTPrint/Print.cpp`) and the parser's
`parseCharEscapeCode`, `parseStringChars` and `tryParseString`
(`src/Lib/WASTParse/Parse.cpp`). The printer writes a backslash, a quote and a newline as
`\\`, `\"` and `\n`, every other byte outside `0x20`–`0x7e` as a backslash and two lowercase
hexits, and the rest as themselves; the parser reads two hexits after a backslash as a byte, and
`t`, `n`, `r`, `"`, `'`, `\` and `u{...}` as the characters they name.

What the printer writes between two quotes, the parser reads back: for every byte string `s`,
`parseStringChars` on `escapeString s` followed by the closing quote gives `s` and records no
error.

## Main definitions

* `Wavm.WAST.escapeString`, `Wavm.WAST.nibbleToHexChar`.
* `Wavm.WAST.parseCharEscapeCode`, `Wavm.WAST.parseStringChars`, `Wavm.WAST.tryParseString`.

## Main results

* `Wavm.WAST.parseStringChars_escapeString` — the parser inverts the printer on byte strings.
* `Wavm.WAST.tryParseString_escapeString` — so does `tryParseString` on a string token.
* `Wavm.WAST.escapeString_injective` — two byte strings are printed alike only if they are equal.

## Implementation notes

A character of the input stands for one byte of the source's `char` string, so a byte string
is a list of characters below `256`. `escapeString` tests `c < 0x20 || c > 0x7e` on a signed
`char`, where a byte above `0x7f` is negative; the model tests the byte, above `0x7e`, which
takes the same branch. `parseStringChars` reads past the end of its input only where the lexer
has not closed the string; the model returns `none` there.
-/

namespace Wavm.WAST

/-! ## The printer -/

/-- `nibbleToHexChar`. -/
def nibbleToHexChar (value : UInt8) : Char :=
  if value < 10 then Char.ofNat ('0'.toNat + value.toNat)
  else Char.ofNat ('a'.toNat + value.toNat - 10)

/-- `escapeString`: each character of the string, escaped. -/
def escapeString (string : List Char) : List Char :=
  string.flatMap fun c =>
    if c = '\\' then ['\\', '\\']
    else if c = '"' then ['\\', '"']
    else if c = '\n' then ['\\', 'n']
    else if c.toNat < 0x20 ∨ c.toNat > 0x7e then
      ['\\', nibbleToHexChar (UInt8.ofNat ((c.toNat &&& 0xf0) >>> 4)),
        nibbleToHexChar (UInt8.ofNat ((c.toNat &&& 0x0f) >>> 0))]
    else [c]

/-! ## The parser -/

/-- The loop of the `\u{...}` escape from `codepoint`: the hexits accumulate in `U32` until
the guard `codepoint > (UINT32_MAX - hexit) / 16`, past which the code point is `UINT32_MAX`
and the rest of the hexits are skipped. -/
def parseCodepointLoop : List Char → UInt32 → UInt32 × List Char
  | [], codepoint => (codepoint, [])
  | c :: nextChar, codepoint =>
    match hexitValue c with
    | none => (codepoint, c :: nextChar)
    | some hexit =>
      if codepoint > (0xFFFFFFFF - hexit.toUInt32) / 16 then (0xFFFFFFFF, skipHexits nextChar)
      else parseCodepointLoop nextChar (codepoint * 16 + hexit.toUInt32)

/-- The `case 'u'` of `parseCharEscapeCode`, from the `u`: past `u{`, a code point, checked to
be a scalar value (else `U+1F642`), and written as UTF-8, then the `}`. -/
def parseUnicodeEscape (nextChar : List Char) (parseState : ParseState) :
    List Char × List Char × ParseState :=
  let parseState :=
    if (nextChar.drop 1).headD '\x00' ≠ '\x7b' then parseErrorf parseState "expected '\x7b'"
    else parseState
  let (codepoint, nextChar) := parseCodepointLoop (nextChar.drop 2) 0
  let invalid := (codepoint ≥ 0xD800 ∧ codepoint ≤ 0xDFFF) ∨ codepoint ≥ 0x110000
  let parseState :=
    if invalid then parseErrorf parseState "invalid Unicode codepoint" else parseState
  let codepoint : UInt32 := if invalid then 0x1F642 else codepoint
  let parseState :=
    if nextChar.headD '\x00' ≠ '\x7d' then parseErrorf parseState "expected '\x7d'"
    else parseState
  ((Unicode.encodeUTF8CodePoint codepoint).map fun b => Char.ofNat b.toNat, nextChar.drop 1,
    parseState)

/-- `parseCharEscapeCode`, from past the backslash: the characters it appends, the characters
after the escape and the parse state. A missing second hexit reads as `0`, the value
`tryParseHexit` stores when it fails. -/
def parseCharEscapeCode (nextChar : List Char) (parseState : ParseState) :
    List Char × List Char × ParseState :=
  match tryParseHexit nextChar with
  | some (firstNibble, nextChar) =>
    match tryParseHexit nextChar with
    | some (secondNibble, nextChar) =>
      ([Char.ofNat (firstNibble * 16 + secondNibble).toNat], nextChar, parseState)
    | none =>
      ([Char.ofNat (firstNibble * 16).toNat], nextChar, parseErrorf parseState "expected hexit")
  | none =>
    match nextChar with
    | 't' :: nextChar => (['\t'], nextChar, parseState)
    | 'n' :: nextChar => (['\n'], nextChar, parseState)
    | 'r' :: nextChar => (['\r'], nextChar, parseState)
    | '"' :: nextChar => (['"'], nextChar, parseState)
    | '\x27' :: nextChar => (['\x27'], nextChar, parseState)
    | '\\' :: nextChar => (['\\'], nextChar, parseState)
    | 'u' :: nextChar => parseUnicodeEscape ('u' :: nextChar) parseState
    | nextChar => (['\\'], nextChar.drop 1, parseErrorf parseState "invalid escape code")

theorem length_skipHexits_le (nextChar : List Char) :
    (skipHexits nextChar).length ≤ nextChar.length := by
  induction nextChar with
  | nil => exact le_refl _
  | cons c nextChar ih =>
    unfold skipHexits
    split
    · exact Nat.le_succ_of_le ih
    · exact le_refl _

theorem length_parseCodepointLoop_le (nextChar : List Char) (codepoint : UInt32) :
    (parseCodepointLoop nextChar codepoint).2.length ≤ nextChar.length := by
  induction nextChar generalizing codepoint with
  | nil => exact le_refl _
  | cons c nextChar ih =>
    unfold parseCodepointLoop
    split
    · exact le_refl _
    · split
      · exact Nat.le_succ_of_le (length_skipHexits_le nextChar)
      · exact Nat.le_succ_of_le (ih _)

theorem length_parseUnicodeEscape_le (nextChar : List Char) (parseState : ParseState) :
    (parseUnicodeEscape nextChar parseState).2.1.length ≤ nextChar.length := by
  have := length_parseCodepointLoop_le (nextChar.drop 2) 0
  simp only [parseUnicodeEscape, List.length_drop] at this ⊢
  omega

theorem tryParseHexit_eq_some {nextChar rest : List Char} {hexit : UInt8}
    (h : tryParseHexit nextChar = some (hexit, rest)) : nextChar.length = rest.length + 1 := by
  cases nextChar with
  | nil => cases h
  | cons c nextChar =>
    simp only [tryParseHexit, Option.map_eq_some_iff, Prod.mk.injEq] at h
    obtain ⟨_, _, -, rfl⟩ := h
    rfl

/-- An escape never reads back: the characters after it are a suffix of those it started on. -/
theorem length_parseCharEscapeCode_le (nextChar : List Char) (parseState : ParseState) :
    (parseCharEscapeCode nextChar parseState).2.1.length ≤ nextChar.length := by
  unfold parseCharEscapeCode
  split
  · rename_i h1
    split
    · rename_i h2
      have := tryParseHexit_eq_some h1
      have := tryParseHexit_eq_some h2
      dsimp only
      omega
    · have := tryParseHexit_eq_some h1
      dsimp only
      omega
  · split <;> first
      | exact length_parseUnicodeEscape_le _ _
      | (simp only [List.length_cons, List.length_drop]; omega)

/-- `parseStringChars`, from past the opening quote: the characters it appends, the characters
from the closing quote on, and the parse state. -/
def parseStringChars (nextChar : List Char) (parseState : ParseState) :
    Option (List Char × List Char × ParseState) :=
  match nextChar with
  | [] => none
  | '\\' :: nextChar =>
    let escape := parseCharEscapeCode nextChar parseState
    have := length_parseCharEscapeCode_le nextChar parseState
    (parseStringChars escape.2.1 escape.2.2).map fun r => (escape.1 ++ r.1, r.2)
  | '"' :: nextChar => some ([], '"' :: nextChar, parseState)
  | c :: nextChar => (parseStringChars nextChar parseState).map fun r => (c :: r.1, r.2)
termination_by nextChar.length

/-- `tryParseString`: the string of a `t_string` token and the cursor past it, or `none` for
another token. -/
def tryParseString (cursor : CursorState) : CursorState × Option (List Char) :=
  match cursor.nextTokens with
  | [] => (cursor, none)
  | token :: tokens =>
    if token.type ≠ .string then (cursor, none)
    else
      -- past the opening quote, which the lexer put at the token's start
      match parseStringChars ((cursor.parseState.string.drop token.begin).drop 1)
          cursor.parseState with
      | none => (cursor, none)
      | some (outString, _, parseState) => ({ parseState, nextTokens := tokens }, some outString)

/-! ## The parser reads back what the printer writes -/

/-- A byte string: each character stands for one byte. -/
def IsByteString (string : List Char) : Prop := ∀ c ∈ string, c.toNat < 256

instance (string : List Char) : Decidable (IsByteString string) :=
  decidable_of_iff ((string.all fun c => decide (c.toNat < 256)) = true) (by simp [IsByteString])

theorem hexitValue_nibbleToHexChar {value : UInt8} (h : value.toNat < 16) :
    hexitValue (nibbleToHexChar value) = some value := by
  have key : ∀ n : Fin 16,
      hexitValue (nibbleToHexChar (UInt8.ofNat n)) = some (UInt8.ofNat n) := by
    decide
  simpa using key ⟨value.toNat, h⟩

set_option maxRecDepth 4096 in
/-- The two nibbles `escapeString` writes of a byte, and the byte they read back as. -/
theorem nibbles_of_lt {n : ℕ} (h : n < 256) :
    (n &&& 0xf0) >>> 4 < 16 ∧ (n &&& 0x0f) >>> 0 < 16 ∧
      (UInt8.ofNat ((n &&& 0xf0) >>> 4) * (16 : UInt8) + UInt8.ofNat ((n &&& 0x0f) >>> 0)).toNat = n := by
  have key : ∀ n < 256, (n &&& 0xf0) >>> 4 < 16 ∧ (n &&& 0x0f) >>> 0 < 16 ∧
      (UInt8.ofNat ((n &&& 0xf0) >>> 4) * (16 : UInt8) + UInt8.ofNat ((n &&& 0x0f) >>> 0)).toNat = n := by
    decide
  exact key n h

theorem parseStringChars_quote (nextChar : List Char) (parseState : ParseState) :
    parseStringChars ('"' :: nextChar) parseState = some ([], '"' :: nextChar, parseState) := by
  rw [parseStringChars]

theorem parseStringChars_backslash (nextChar : List Char) (parseState : ParseState) :
    parseStringChars ('\\' :: nextChar) parseState =
      let escape := parseCharEscapeCode nextChar parseState
      (parseStringChars escape.2.1 escape.2.2).map fun r => (escape.1 ++ r.1, r.2) := by
  rw [parseStringChars]

theorem parseStringChars_cons {c : Char} (h1 : c ≠ '\\') (h2 : c ≠ '"') (nextChar : List Char)
    (parseState : ParseState) :
    parseStringChars (c :: nextChar) parseState =
      (parseStringChars nextChar parseState).map fun r => (c :: r.1, r.2) := by
  rw [parseStringChars]
  · exact h1
  · exact h2

theorem parseCharEscapeCode_backslash (nextChar : List Char) (parseState : ParseState) :
    parseCharEscapeCode ('\\' :: nextChar) parseState = (['\\'], nextChar, parseState) := rfl

theorem parseCharEscapeCode_quote (nextChar : List Char) (parseState : ParseState) :
    parseCharEscapeCode ('"' :: nextChar) parseState = (['"'], nextChar, parseState) := rfl

theorem parseCharEscapeCode_n (nextChar : List Char) (parseState : ParseState) :
    parseCharEscapeCode ('n' :: nextChar) parseState = (['\n'], nextChar, parseState) := rfl

theorem parseCharEscapeCode_hexits {c0 c1 : Char} {firstNibble secondNibble : UInt8}
    (h0 : hexitValue c0 = some firstNibble) (h1 : hexitValue c1 = some secondNibble)
    (nextChar : List Char) (parseState : ParseState) :
    parseCharEscapeCode (c0 :: c1 :: nextChar) parseState =
      ([Char.ofNat (firstNibble * 16 + secondNibble).toNat], nextChar, parseState) := by
  simp [parseCharEscapeCode, tryParseHexit, h0, h1]

/-- One escaped character, then the rest: the parser reads the escape as what it names. -/
theorem parseStringChars_escape {nextChar rest out : List Char} {parseState : ParseState}
    (h : parseCharEscapeCode nextChar parseState = (out, rest, parseState)) :
    parseStringChars ('\\' :: nextChar) parseState =
      (parseStringChars rest parseState).map fun r => (out ++ r.1, r.2) := by
  rw [parseStringChars_backslash, h]

theorem escapeString_cons (c : Char) (string : List Char) :
    escapeString (c :: string) =
      (if c = '\\' then ['\\', '\\']
      else if c = '"' then ['\\', '"']
      else if c = '\n' then ['\\', 'n']
      else if c.toNat < 0x20 ∨ c.toNat > 0x7e then
        ['\\', nibbleToHexChar (UInt8.ofNat ((c.toNat &&& 0xf0) >>> 4)),
          nibbleToHexChar (UInt8.ofNat ((c.toNat &&& 0x0f) >>> 0))]
      else [c]) ++ escapeString string := by
  simp only [escapeString, List.flatMap_cons]

/-- **The parser reads back what the printer writes**: on a byte string escaped by
`escapeString` and closed by a quote, `parseStringChars` gives the string, stops at the quote
and records no error. -/
theorem parseStringChars_escapeString {string : List Char} (hstring : IsByteString string)
    (rest : List Char) (parseState : ParseState) :
    parseStringChars (escapeString string ++ '"' :: rest) parseState =
      some (string, '"' :: rest, parseState) := by
  induction string with
  | nil => exact parseStringChars_quote rest parseState
  | cons c string ih =>
    have ih := ih fun d hd => hstring d (List.mem_cons_of_mem c hd)
    rw [escapeString_cons]
    -- one case per branch of the printer's `if` chain
    split_ifs with hbackslash hquote hnewline hhex
    · subst hbackslash
      simp [parseStringChars_escape (parseCharEscapeCode_backslash _ _), ih]
    · subst hquote
      simp [parseStringChars_escape (parseCharEscapeCode_quote _ _), ih]
    · subst hnewline
      simp [parseStringChars_escape (parseCharEscapeCode_n _ _), ih]
    · -- a byte outside the printable range: two hexits that read back as the byte
      obtain ⟨hhi, hlo, hbyte⟩ := nibbles_of_lt (hstring c List.mem_cons_self)
      have hhi' : (UInt8.ofNat ((c.toNat &&& 0xf0) >>> 4)).toNat < 16 := by
        rw [UInt8.toNat_ofNat']
        omega
      have hlo' : (UInt8.ofNat ((c.toNat &&& 0x0f) >>> 0)).toNat < 16 := by
        rw [UInt8.toNat_ofNat']
        omega
      have hescape := parseCharEscapeCode_hexits (hexitValue_nibbleToHexChar hhi')
        (hexitValue_nibbleToHexChar hlo') (escapeString string ++ '"' :: rest) parseState
      simp only [List.cons_append, List.nil_append]
      rw [parseStringChars_escape hescape, ih, hbyte, Char.ofNat_toNat]
      rfl
    · simp [parseStringChars_cons hbackslash hquote, ih]

/-- `tryParseString` on a string token that holds a printed byte string gives the string back,
records no error and moves past the token. -/
theorem tryParseString_escapeString {cursor : CursorState} {token : Token} {tokens : List Token}
    {string rest : List Char} (hnext : cursor.nextTokens = token :: tokens)
    (htype : token.type = .string)
    (htext : cursor.parseState.string.drop token.begin = '"' :: escapeString string ++ '"' :: rest)
    (hstring : IsByteString string) :
    tryParseString cursor = ({ parseState := cursor.parseState, nextTokens := tokens }, some string) := by
  have hparse := parseStringChars_escapeString hstring rest cursor.parseState
  simp only [tryParseString, hnext, htype, htext, ne_eq, not_true_eq_false, if_false,
    List.cons_append, List.drop_succ_cons, List.drop_zero]
  rw [hparse]

/-- Two byte strings are printed alike only if they are equal. -/
theorem escapeString_injective {string string' : List Char} (hstring : IsByteString string)
    (hstring' : IsByteString string') (h : escapeString string = escapeString string') :
    string = string' := by
  have h1 := parseStringChars_escapeString hstring [] ⟨[], []⟩
  have h2 := parseStringChars_escapeString hstring' [] ⟨[], []⟩
  rw [h, h2] at h1
  simp only [Option.some.injEq, Prod.mk.injEq] at h1
  exact h1.1.symm

end Wavm.WAST
