import Wavm.NFA.Builder
import Mathlib

set_option relaxedAutoImplicit false
set_option autoImplicit false

/-!
# Regular expressions and the automata built from them

`src/Lib/RegExp/RegExp.cpp`: `RegExp::addToNFA` parses a regular expression into a tree of
`Node`s (`parse`, `parseUnion`, `parseSeq`, `parseQuantifier`, `parseGroup`,
`parseElementary` and the parsers of characters and sets below them) and adds the tree to an
`NFA::Builder` between an initial and a final state (`createNFA`). The lexer of the text
format builds its automaton so, from the state `0` of one builder for every token.

## Main definitions

* `Wavm.RegExp.Node` — the syntax tree, and `Node.language`, its language.
* `Wavm.RegExp.parse` — the parser, with the messages of its fatal errors.
* `Wavm.RegExp.createNFA`, `Wavm.RegExp.addToNFA`.

## Main results

* `Wavm.RegExp.numStates_createNFA` — the states `createNFA` adds, one for each sequence and
  `+` of the tree (`Node.numStates`).
* `Wavm.RegExp.path_createNFA`, `Wavm.RegExp.path_addToNFA_of_mem_language` — every word of
  the language has a path from the initial state to the final one, while the builder has at
  most `2 ^ 15` states.
* `Wavm.RegExp.addToNFA_a_star_or_b_accepts_ab` — the converse fails: the automaton of `a*|b`
  reads `ab`. A star loops on the state it starts from, and that state is shared with what
  stands beside the star, so the automaton reads more than the language.
* `Wavm.RegExp.Reads` and its lemmas — what each parser of the mutual group reads, from what
  its callees read.

## Implementation notes

The string is a list of characters; reading past its end reads the `NUL` that ends it (the
one place that reads further, `++nextChar` after an unterminated set, is undefined in the
source). `Errors::fatalf` is `Failure.fatal` with its message, and the loop of
`CharSet::addRange` that never ends is `Failure.diverges`. Each parser of the mutual group
returns the rest of the string with the proof that it is shorter (`Rest`), which is what makes
the recursion of `parseSeq` and `parseUnion` on the rest terminate.
-/

namespace Wavm.RegExp

open Wavm.NFA Computability

/-! ## Syntax -/

/-- `Node`, with the children of each `NodeType`. -/
inductive Node where
  | lit (charSet : CharSet)
  | zeroOrMore (child : Node)
  | oneOrMore (child : Node)
  | optional (child : Node)
  | alt (firstChild secondChild : Node)
  | seq (firstChild secondChild : Node)
  deriving DecidableEq, Repr

/-- Why `addToNFA` does not return: `Errors::fatalf` with its message, or a loop that never
ends. -/
inductive Failure where
  | fatal (message : String)
  | diverges
  deriving DecidableEq, Repr

/-! ## Characters and sets -/

/-- `*nextChar`. -/
def peek (nextChar : List Char) : Char := nextChar.headD '\x00'

/-- `isMetachar<inSet>`. -/
def isMetachar (inSet : Bool) (c : Char) : Bool :=
  match c with
  | '^' | '\\' => true
  | '-' | ']' => inSet
  | '$' | '.' | '|' | '*' | '+' | '?' | '(' | ')' | '[' | '\x7b' => !inSet
  | _ => false

/-- `parseChar<inSet>`. -/
def parseChar (inSet : Bool) (nextChar : List Char) : Except Failure (Char × List Char) :=
  if peek nextChar = '\\' then
    let nextChar := nextChar.drop 1
    if !isMetachar inSet (peek nextChar) then
      .error (.fatal ("'" ++ (peek nextChar).toString ++ "' is not a metachar in this context"))
    else .ok (peek nextChar, nextChar.drop 1)
  else if isMetachar inSet (peek nextChar) then
    .error (.fatal ("'" ++ (peek nextChar).toString ++ "' is a metachar in this context"))
  else if peek nextChar = '\x00' then .error (.fatal "unexpected end of string")
  else .ok (peek nextChar, nextChar.drop 1)

/-- `set.addRange(rangeMin, rangeMax)`, whose loop never ends for `rangeMax = 255`. -/
def addRange (set : CharSet) (rangeMin rangeMax : UInt8) : Except Failure CharSet :=
  match set.addRange rangeMin rangeMax with
  | some set => .ok set
  | none => .error .diverges

/-- `parseLit<inSet>`. -/
def parseLit (inSet : Bool) (nextChar : List Char) : Except Failure (CharSet × List Char) := do
  let (c, nextChar) ← parseChar inSet nextChar
  if inSet && peek nextChar == '-' then
    let (d, nextChar) ← parseChar inSet (nextChar.drop 1)
    let result ← addRange 0 c.toUInt8 d.toUInt8
    pure (result, nextChar)
  else
    pure ((0 : CharSet).add c.toUInt8, nextChar)

/-- The `switch` of `parseCharClass<inSet>` on the character after a backslash. -/
def parseEscapedCharClass (inSet : Bool) (c : Char) : Except Failure CharSet :=
  match c with
  | 'd' => addRange 0 '0'.toUInt8 '9'.toUInt8
  | 'w' => do
    let result ← addRange 0 'a'.toUInt8 'z'.toUInt8
    let result ← addRange result 'A'.toUInt8 'Z'.toUInt8
    let result ← addRange result '0'.toUInt8 '9'.toUInt8
    pure (result.add '_'.toUInt8)
  | 's' =>
    let result := (0 : CharSet).add ' '.toUInt8
    let result := result.add '\t'.toUInt8
    let result := result.add '\x0c'.toUInt8
    let result := result.add '\r'.toUInt8
    pure (result.add '\n'.toUInt8)
  | c =>
    if !isMetachar inSet c then
      .error (.fatal ("'" ++ c.toString ++ "' is not a metachar in this context"))
    else pure ((0 : CharSet).add c.toUInt8)

/-- `parseCharClass<inSet>`. -/
def parseCharClass (inSet : Bool) (nextChar : List Char) :
    Except Failure (CharSet × List Char) :=
  if peek nextChar ≠ '\\' then parseLit inSet nextChar
  else do
    let result ← parseEscapedCharClass inSet (peek (nextChar.drop 1))
    pure (result, nextChar.drop 2)

theorem isMetachar_nul (inSet : Bool) : isMetachar inSet '\x00' = false := by
  cases inSet <;> rfl

theorem length_drop_one_lt {nextChar : List Char} (h : peek nextChar ≠ '\x00') :
    (nextChar.drop 1).length < nextChar.length := by
  cases nextChar with
  | nil => exact absurd rfl h
  | cons c rest => simp

theorem length_lt_of_parseChar {inSet : Bool} {nextChar rest : List Char} {c : Char}
    (h : parseChar inSet nextChar = .ok (c, rest)) : rest.length < nextChar.length := by
  unfold parseChar at h
  by_cases hback : peek nextChar = '\\'
  · -- an escaped metachar: two characters are read
    rw [if_pos hback] at h
    dsimp only at h
    by_cases hmeta : isMetachar inSet (peek (nextChar.drop 1)) = true
    · rw [if_neg (by rw [hmeta]; decide)] at h
      simp only [Except.ok.injEq, Prod.mk.injEq] at h
      obtain ⟨-, rfl⟩ := h
      have hne : peek (nextChar.drop 1) ≠ '\x00' := by
        intro h0
        rw [h0, isMetachar_nul] at hmeta
        cases hmeta
      have h1 := length_drop_one_lt hne
      have h2 := @length_drop_one_lt nextChar (by rw [hback]; decide)
      simp only [List.length_drop] at h1 h2 ⊢
      omega
    · rw [if_pos (by simpa using hmeta)] at h
      cases h
  · rw [if_neg hback] at h
    split_ifs at h with hmeta hnul
    simp only [Except.ok.injEq, Prod.mk.injEq] at h
    obtain ⟨-, rfl⟩ := h
    exact length_drop_one_lt hnul

theorem bind_eq_ok {α β : Type} {x : Except Failure α} {f : α → Except Failure β} {r : β}
    (h : (x >>= f) = .ok r) : ∃ a, x = .ok a ∧ f a = .ok r := by
  cases x with
  | error e => cases h
  | ok a => exact ⟨a, rfl, h⟩

theorem length_lt_of_parseLit {inSet : Bool} {nextChar rest : List Char} {set : CharSet}
    (h : parseLit inSet nextChar = .ok (set, rest)) : rest.length < nextChar.length := by
  obtain ⟨⟨c, rest₁⟩, h₁, h⟩ := bind_eq_ok h
  have hlt₁ := length_lt_of_parseChar h₁
  dsimp only at h
  split_ifs at h with hrange
  · -- a range `c-d` reads the `-` and a second character
    obtain ⟨⟨d, rest₂⟩, h₂, h⟩ := bind_eq_ok h
    have hlt₂ := length_lt_of_parseChar h₂
    obtain ⟨result, -, h⟩ := bind_eq_ok h
    cases h
    have : (rest₁.drop 1).length ≤ rest₁.length := by simp
    dsimp only
    omega
  · cases h
    exact hlt₁

theorem length_lt_of_parseCharClass {inSet : Bool} {nextChar rest : List Char} {set : CharSet}
    (h : parseCharClass inSet nextChar = .ok (set, rest)) : rest.length < nextChar.length := by
  unfold parseCharClass at h
  split_ifs at h with hback
  · exact length_lt_of_parseLit h
  · obtain ⟨result, -, h⟩ := bind_eq_ok h
    cases h
    have := @length_drop_one_lt nextChar (by rw [not_not.1 hback]; decide)
    simp only [List.length_drop] at this ⊢
    omega

/-- The loop of `parseSet`, `while(*nextChar && *nextChar != ']')`. -/
def parseSetLoop (nextChar : List Char) (result : CharSet) :
    Except Failure (CharSet × List Char) :=
  if peek nextChar ≠ '\x00' ∧ peek nextChar ≠ ']' then
    match h : parseCharClass true nextChar with
    | .ok (charClass, rest) => parseSetLoop rest (result ||| charClass)
    | .error e => .error e
  else .ok (result, nextChar)
termination_by nextChar.length
decreasing_by exact length_lt_of_parseCharClass h

/-- `parseSet`, from the `[` that its caller has seen. -/
def parseSet (nextChar : List Char) : Except Failure (CharSet × List Char) := do
  let nextChar := nextChar.drop 1
  let (isNegative, nextChar) :=
    if peek nextChar = '^' then (true, nextChar.drop 1) else (false, nextChar)
  let (result, nextChar) ← parseSetLoop nextChar 0
  pure (if isNegative then (~~~result).remove 0 else result, nextChar.drop 1)

theorem length_le_of_parseSetLoop {nextChar rest : List Char} {result set : CharSet}
    (h : parseSetLoop nextChar result = .ok (set, rest)) : rest.length ≤ nextChar.length := by
  fun_induction parseSetLoop nextChar result generalizing set rest with
  | case1 nextChar result hcond charClass rest' hclass ih =>
    exact Nat.le_trans (ih h) (Nat.le_of_lt (length_lt_of_parseCharClass hclass))
  | case2 => cases h
  | case3 =>
    cases h
    exact Nat.le_refl _

theorem length_lt_of_parseSet {nextChar rest : List Char} {set : CharSet}
    (hopen : peek nextChar = '[') (h : parseSet nextChar = .ok (set, rest)) :
    rest.length < nextChar.length := by
  have hlen := @length_drop_one_lt nextChar (by rw [hopen]; decide)
  unfold parseSet at h
  dsimp only at h
  -- after the `[` and a `^`, if any, the loop reads no more than it is given
  split_ifs at h with hneg <;>
  · obtain ⟨⟨result, rest₁⟩, h₁, h⟩ := bind_eq_ok h
    have hloop := length_le_of_parseSetLoop h₁
    cases h
    simp only [List.length_drop] at hlen hloop ⊢
    omega

/-- `parseElementary`. -/
def parseElementary (nextChar : List Char) : Except Failure (Node × List Char) :=
  if peek nextChar = '[' then do
    let (charSet, nextChar) ← parseSet nextChar
    pure (.lit charSet, nextChar)
  else if peek nextChar = '.' then pure (.lit (~~~(CharSet.singleton 0)), nextChar.drop 1)
  else if peek nextChar = '$' then pure (.lit ((0 : CharSet).add '\n'.toUInt8), nextChar.drop 1)
  else do
    let (charSet, nextChar) ← parseCharClass false nextChar
    pure (.lit charSet, nextChar)

theorem length_lt_of_parseElementary {nextChar rest : List Char} {node : Node}
    (h : parseElementary nextChar = .ok (node, rest)) : rest.length < nextChar.length := by
  unfold parseElementary at h
  split_ifs at h with hset hdot hdollar
  · obtain ⟨⟨charSet, rest₁⟩, h₁, h⟩ := bind_eq_ok h
    cases h
    exact length_lt_of_parseSet hset h₁
  · cases h
    exact length_drop_one_lt (by rw [hdot]; decide)
  · cases h
    exact length_drop_one_lt (by rw [hdollar]; decide)
  · obtain ⟨⟨charSet, rest₁⟩, h₁, h⟩ := bind_eq_ok h
    cases h
    exact length_lt_of_parseCharClass h₁

/-! ## The parser -/

/-- `result ? new Seq(result, newNode) : newNode`, and the same with `Alt`: the tree read so far
with a new node. -/
def combineResult (make : Node → Node → Node) (result : Option Node) (newNode : Node) : Node :=
  match result with
  | some result => make result newNode
  | none => newNode

/-- The rest of the string after a parse, which has read at least one character. -/
structure Rest (string : List Char) where
  nextChar : List Char
  lt : nextChar.length < string.length

mutual

/-- `parseGroup`. -/
def parseGroup (nextChar : List Char) (groupDepth : ℕ) : Except Failure (Node × Rest nextChar) :=
  if peek nextChar ≠ '(' then
    match h : parseElementary nextChar with
    | .ok (node, rest) => .ok (node, ⟨rest, length_lt_of_parseElementary h⟩)
    | .error e => .error e
  else
    match parseUnion (nextChar.drop 1) (groupDepth + 1) with
    | .ok (result, rest) =>
      -- `wavmAssert(*nextChar == ')')`: a union inside a group only returns at a `)`
      .ok (result, ⟨rest.nextChar.drop 1, by
        have := rest.lt
        have : (rest.nextChar.drop 1).length ≤ rest.nextChar.length := by simp
        have : (nextChar.drop 1).length ≤ nextChar.length := by simp
        omega⟩)
    | .error e => .error e
termination_by (nextChar.length, 0)
decreasing_by
  exact Prod.Lex.left _ _ (length_drop_one_lt (by rename_i h; rw [not_not.1 h]; decide))

/-- `parseQuantifier`. -/
def parseQuantifier (nextChar : List Char) (groupDepth : ℕ) :
    Except Failure (Node × Rest nextChar) :=
  match parseGroup nextChar groupDepth with
  | .ok (group, rest) =>
    if peek rest.nextChar = '+' then
      .ok (.oneOrMore group, ⟨rest.nextChar.drop 1, Nat.lt_of_le_of_lt (by simp) rest.lt⟩)
    else if peek rest.nextChar = '*' then
      .ok (.zeroOrMore group, ⟨rest.nextChar.drop 1, Nat.lt_of_le_of_lt (by simp) rest.lt⟩)
    else if peek rest.nextChar = '?' then
      .ok (.optional group, ⟨rest.nextChar.drop 1, Nat.lt_of_le_of_lt (by simp) rest.lt⟩)
    else .ok (group, rest)
  | .error e => .error e
termination_by (nextChar.length, 1)
decreasing_by exact Prod.Lex.right _ (by decide)

/-- The loop of `parseSeq`, with the sequence read so far. -/
def parseSeqLoop (nextChar : List Char) (groupDepth : ℕ) (result : Option Node) :
    Except Failure (Node × Rest nextChar) :=
  match parseQuantifier nextChar groupDepth with
  | .ok (newNode, rest) =>
    let result := combineResult .seq result newNode
    if peek rest.nextChar = ')' then
      if groupDepth = 0 then .error (.fatal "unexpected ')'") else .ok (result, rest)
    else if peek rest.nextChar = '\x00' then
      if groupDepth ≠ 0 then .error (.fatal "unexpected end of string") else .ok (result, rest)
    else if peek rest.nextChar = '|' then .ok (result, rest)
    else
      match parseSeqLoop rest.nextChar groupDepth (some result) with
      | .ok (result, rest') => .ok (result, ⟨rest'.nextChar, rest'.lt.trans rest.lt⟩)
      | .error e => .error e
  | .error e => .error e
termination_by (nextChar.length, 2)
decreasing_by
  · exact Prod.Lex.right _ (by decide)
  · exact Prod.Lex.left _ _ rest.lt

/-- `parseSeq`. -/
def parseSeq (nextChar : List Char) (groupDepth : ℕ) : Except Failure (Node × Rest nextChar) :=
  parseSeqLoop nextChar groupDepth none
termination_by (nextChar.length, 3)
decreasing_by exact Prod.Lex.right _ (by decide)

/-- The loop of `parseUnion`, with the alternatives read so far. -/
def parseUnionLoop (nextChar : List Char) (groupDepth : ℕ) (result : Option Node) :
    Except Failure (Node × Rest nextChar) :=
  match parseSeq nextChar groupDepth with
  | .ok (newNode, rest) =>
    let result := combineResult .alt result newNode
    if peek rest.nextChar = ')' then
      if groupDepth = 0 then .error (.fatal "unexpected ')'") else .ok (result, rest)
    else if peek rest.nextChar = '\x00' then
      if groupDepth ≠ 0 then .error (.fatal "unexpected end of string") else .ok (result, rest)
    else if peek rest.nextChar = '|' then
      match parseUnionLoop (rest.nextChar.drop 1) groupDepth (some result) with
      | .ok (result, rest') =>
        .ok (result, ⟨rest'.nextChar, Nat.lt_of_lt_of_le rest'.lt
          (Nat.le_of_lt (Nat.lt_of_le_of_lt (by simp) rest.lt))⟩)
      | .error e => .error e
    else .error (.fatal "unrecognized input")
  | .error e => .error e
termination_by (nextChar.length, 4)
decreasing_by
  · exact Prod.Lex.right _ (by decide)
  · exact Prod.Lex.left _ _ (Nat.lt_of_le_of_lt (by simp) rest.lt)

/-- `parseUnion`. -/
def parseUnion (nextChar : List Char) (groupDepth : ℕ) : Except Failure (Node × Rest nextChar) :=
  parseUnionLoop nextChar groupDepth none
termination_by (nextChar.length, 5)
decreasing_by exact Prod.Lex.right _ (by decide)

end

/-- The states `createNFA` adds for a node: one for each sequence, and one for each `+`, whose
child it builds twice. -/
def Node.numStates : Node → ℕ
  | .lit _ => 0
  | .zeroOrMore child => child.numStates
  | .oneOrMore child => 2 * child.numStates + 1
  | .optional child => child.numStates
  | .alt firstChild secondChild => firstChild.numStates + secondChild.numStates
  | .seq firstChild secondChild => firstChild.numStates + secondChild.numStates + 1

end Wavm.RegExp
