import Mathlib
import Wavm.Lib.WhileLoop
import Wavm.Lib.BinarySearch
import Wavm.WAST.ParseNumbers

set_option relaxedAutoImplicit false
set_option autoImplicit false

/-!
# The WAST lexer's line starts and the loci read from them

`WAST::lex` and `WAST::calcLocusFromOffset`, from `src/Lib/WASTParse/Lexer.cpp`. Between
tokens the lexer skips whitespace and comments and records the offset where each line starts;
`calcLocusFromOffset` binary-searches those line starts for the line of an offset, and counts
the tabs and the other characters from the start of that line to the offset.

A newline in whitespace or in a `;;` comment records the line start past it,
`nextChar - string + 1`; a newline in a `(; ;)` comment records `nextChar - string`, the offset
of the newline itself. The line after a block comment's newline is then taken to start at that
newline: an offset at the newline is reported on the next line
(`calcLocusFromOffset_blockComment_newline`).

## Main definitions

* `Wavm.WAST.skipLineComment`, `skipBlockComment`, `skipWhitespace` — the whitespace and
  comment loops of `lex`.
* `Wavm.WAST.lexLoop`, `lex` — the lexer, over a token machine given as a function.
* `Wavm.WAST.TextFileLocus`, `countColumns`, `calcLocusFromOffset`.

## Main results

* `Wavm.WAST.skipBlockComment_plain` — a comment body without `;` and `(` is scanned one
  character at a time, with a line start at each of its newlines (`newlineOffsets`).
* `Wavm.WAST.lex_blockComment` — the tokens and line starts of an input that is one block
  comment.
* `Wavm.WAST.calcLocusFromOffset_eq` — over strictly increasing line starts from `0`, the locus
  is on the last line that starts at or before the offset.
* `Wavm.WAST.calcLocusFromOffset_blockComment_newline` — at the newline of a block comment the
  locus counts one newline more than the input has before it.

## Implementation notes

The input is the list of characters before the NUL that `lex` requires at
`string[stringLength - 1]`. The lexer's position is the list of the characters from `nextChar`
on, in which the end of the input is `[]`, with the offset of `nextChar` beside it; a position
past the NUL, where the source reads out of bounds, is read as the end of the input. The NFA
machine is the parameter `feed`: from the characters at `nextChar`, the token type of the
terminal state it reaches (`none` for `unmatchedCharacterTerminal`) and how far it moves
`nextChar`. The assertion `charOffset <= numChars` of `calcLocusFromOffset` is compiled out and
not kept; the `errorUnless` of `getLineOffset` is `none`.
-/

namespace Wavm.WAST

/-! ## The whitespace and comment loops -/

/-- Where the lexer is: the characters from `nextChar` on, the offset of `nextChar`, and the
line starts recorded so far. -/
structure Scan where
  rest : List Char
  nextChar : ℕ
  lineStarts : List ℕ
  deriving DecidableEq, Repr

/-- The loop of a `;;` comment, from past the `;;`: up to a NUL, or past the first newline,
which records the line start after it. -/
def skipLineComment : List Char → ℕ → List ℕ → Scan
  | [], nextChar, lineStarts => ⟨[], nextChar, lineStarts⟩
  | c :: rest, nextChar, lineStarts =>
    if c = '\x00' then ⟨c :: rest, nextChar, lineStarts⟩
    else if c = '\n' then ⟨rest, nextChar + 1, lineStarts ++ [nextChar + 1]⟩
    else skipLineComment rest (nextChar + 1) lineStarts

/-- The loop of a `(; ;)` comment with `commentDepth` comments open: `true` with the scan past
the `;)` that closes the last of them, or `false` at the end of the input, for an unterminated
comment. A newline records a line start at its own offset. -/
def skipBlockComment : ℕ → List Char → ℕ → List ℕ → Bool × Scan
  | 0, rest, nextChar, lineStarts => (true, ⟨rest, nextChar, lineStarts⟩)
  | commentDepth + 1, ';' :: ')' :: rest, nextChar, lineStarts =>
    skipBlockComment commentDepth rest (nextChar + 2) lineStarts
  | commentDepth + 1, '(' :: ';' :: rest, nextChar, lineStarts =>
    skipBlockComment (commentDepth + 2) rest (nextChar + 2) lineStarts
  | _ + 1, [], nextChar, lineStarts => (false, ⟨[], nextChar, lineStarts⟩)
  | commentDepth + 1, c :: rest, nextChar, lineStarts =>
    skipBlockComment (commentDepth + 1) rest (nextChar + 1)
      (if c = '\n' then lineStarts ++ [nextChar] else lineStarts)

theorem length_skipLineComment_le (rest : List Char) (nextChar : ℕ) (lineStarts : List ℕ) :
    (skipLineComment rest nextChar lineStarts).rest.length ≤ rest.length := by
  induction rest generalizing nextChar with
  | nil => simp [skipLineComment]
  | cons c rest ih =>
    simp only [skipLineComment]
    split_ifs
    · exact le_rfl
    · simp
    · have := ih (nextChar + 1)
      simp only [List.length_cons]
      omega

theorem length_skipBlockComment_le (commentDepth : ℕ) (rest : List Char) (nextChar : ℕ)
    (lineStarts : List ℕ) :
    (skipBlockComment commentDepth rest nextChar lineStarts).2.rest.length ≤ rest.length := by
  fun_induction skipBlockComment commentDepth rest nextChar lineStarts with
  | case1 => exact le_rfl
  | case2 _ rest _ _ ih => simp only [List.length_cons]; omega
  | case3 _ rest _ _ ih => simp only [List.length_cons]; omega
  | case4 => exact le_rfl
  | case5 _ _ rest _ _ _ _ ih => simp only [List.length_cons]; omega

/-- The whitespace and comment loop of `lex`, from `nextChar`: `some begin` when it stops on an
unterminated comment that starts at `begin`. -/
def skipWhitespace (rest : List Char) (nextChar : ℕ) (lineStarts : List ℕ) : Option ℕ × Scan :=
  match rest with
  | ';' :: ';' :: comment =>
    let s := skipLineComment comment (nextChar + 2) lineStarts
    skipWhitespace s.rest s.nextChar s.lineStarts
  | '(' :: ';' :: comment =>
    let r := skipBlockComment 1 comment (nextChar + 2) lineStarts
    if r.1 then skipWhitespace r.2.rest r.2.nextChar r.2.lineStarts else (some nextChar, r.2)
  | '\n' :: rest' => skipWhitespace rest' (nextChar + 1) (lineStarts ++ [nextChar + 1])
  | ' ' :: rest' | '\t' :: rest' | '\r' :: rest' | '\x0c' :: rest' =>
    skipWhitespace rest' (nextChar + 1) lineStarts
  | _ => (none, ⟨rest, nextChar, lineStarts⟩)
termination_by rest.length
decreasing_by
  all_goals simp only [List.length_cons]
  · have := length_skipLineComment_le comment (nextChar + 2) lineStarts
    omega
  · have := length_skipBlockComment_le 1 comment (nextChar + 2) lineStarts
    omega
  all_goals omega

/-- `isRecoveryPointChar`: whitespace or a parenthesis. -/
def isRecoveryPointChar (c : Char) : Bool := [' ', '\t', '\r', '\n', '\x0c', '(', ')'].contains c

/-- The recovery loop after an unrecognized token: up to a whitespace or parenthesis character,
or the end of the input. -/
def skipToRecoveryPoint : List Char → ℕ → List Char × ℕ
  | [], nextChar => ([], nextChar)
  | c :: rest, nextChar =>
    if isRecoveryPointChar c then (c :: rest, nextChar)
    else skipToRecoveryPoint rest (nextChar + 1)

/-! ## The lexer -/

/-- What `lex` returns: its tokens, and the line starts of its `LineInfo`. -/
structure LexResult where
  tokens : List Token
  lineStarts : List ℕ
  deriving DecidableEq, Repr

/-- The main loop of `lex`, with at most `fuel` rounds: skip whitespace and comments, then feed
the token machine; a token it does not match is unrecognized, up to a recovery point, unless it
is at the end of the input, where the loop ends with the `t_eof` token and the line start past
the end. -/
def lexLoop (feed : List Char → Option TokenType × ℕ) :
    ℕ → List Char → ℕ → List ℕ → List Token → Option LexResult
  | 0, _, _, _, _ => none
  | fuel + 1, rest, nextChar, lineStarts, tokens =>
    let (unterminated, s) := skipWhitespace rest nextChar lineStarts
    let tokens := tokens ++ (unterminated.map (Token.mk .unterminatedComment)).toList
    -- `nextToken->begin`
    let begin := s.nextChar
    match feed s.rest with
    | (some type, consumed) =>
      lexLoop feed fuel (s.rest.drop consumed) (begin + consumed) s.lineStarts
        (tokens ++ [⟨type, begin⟩])
    | (none, consumed) =>
      -- `nextToken->begin < stringLength - 1`: `begin` is before the NUL
      if s.rest ≠ [] then
        let (rest', nextChar') := skipToRecoveryPoint (s.rest.drop consumed) (begin + consumed)
        lexLoop feed fuel rest' nextChar' s.lineStarts (tokens ++ [⟨.unrecognized, begin⟩])
      else some ⟨tokens ++ [⟨.eof, begin⟩], s.lineStarts ++ [begin + consumed + 1]⟩

/-- `lex`: the loop from the start of the input with the line start `0`, with a round for each
character and one for the end. -/
def lex (feed : List Char → Option TokenType × ℕ) (string : List Char) : Option LexResult :=
  lexLoop feed (string.length + 1) string 0 [0] []

/-! ## Loci -/

/-- `TextFileLocus`: the source line, and the newlines, tabs and other characters before the
offset on it. -/
structure TextFileLocus where
  sourceLine : List Char
  newlines : ℕ
  tabs : ℕ
  characters : ℕ
  deriving DecidableEq, Repr

/-- `string[index]` of the NUL-terminated input. -/
def charAt (string : List Char) (index : ℕ) : Char := string.getD index '\x00'

/-- `getLineOffset`, with its `errorUnless(lineIndex < numLineStarts)`. -/
def getLineOffset (lineStarts : List ℕ) (lineIndex : ℕ) : Option ℕ := lineStarts[lineIndex]?

/-- The column loop of `calcLocusFromOffset`: the tabs and the other characters among
`string[index]` for `index` from `begin` below `charOffset`. -/
def countColumns (string : List Char) (begin charOffset : ℕ) : ℕ × ℕ :=
  (List.range' begin (charOffset - begin)).foldl
    (fun counts index =>
      if charAt string index = '\t' then (counts.1 + 1, counts.2) else (counts.1, counts.2 + 1))
    (0, 0)

/-- `calcLocusFromOffset`: the binary search of the line starts for the last one at or before
`charOffset`, the column loop from it, and the source line up to the next line start. -/
def calcLocusFromOffset (string : List Char) (lineStarts : List ℕ) (charOffset : ℕ) :
    Option TextFileLocus :=
  let lineStart := fun lineIndex => lineStarts.getD lineIndex 0
  match WhileLoop.run BinarySearch.cond (BinarySearch.body lineStart charOffset)
      lineStarts.length (0, lineStarts.length - 1) with
  | none => none
  | some (minLineIndex, _) =>
    let counts := countColumns string (lineStart minLineIndex) charOffset
    match getLineOffset lineStarts minLineIndex, getLineOffset lineStarts (minLineIndex + 1) with
    | some lineStartOffset, some nextLineStart =>
      let lineEndOffset := nextLineStart - 1
      some ⟨(List.range' lineStartOffset (lineEndOffset - lineStartOffset)).map (charAt string),
        minLineIndex, counts.1, counts.2⟩
    | _, _ => none

/-! ## Line starts of block comments -/

/-- The offsets of the newlines of `cs`, read from offset `nextChar` on. -/
def newlineOffsets : ℕ → List Char → List ℕ
  | _, [] => []
  | nextChar, c :: cs =>
    if c = '\n' then nextChar :: newlineOffsets (nextChar + 1) cs
    else newlineOffsets (nextChar + 1) cs

theorem newlineOffsets_append (nextChar : ℕ) (cs ds : List Char) :
    newlineOffsets nextChar (cs ++ ds) =
      newlineOffsets nextChar cs ++ newlineOffsets (nextChar + cs.length) ds := by
  induction cs generalizing nextChar with
  | nil => simp [newlineOffsets]
  | cons c cs ih =>
    have hlen : nextChar + 1 + cs.length = nextChar + (cs.length + 1) := by omega
    by_cases hc : c = '\n' <;> simp [newlineOffsets, hc, ih, hlen]

theorem newlineOffsets_eq_nil {cs : List Char} (h : '\n' ∉ cs) (nextChar : ℕ) :
    newlineOffsets nextChar cs = [] := by
  induction cs generalizing nextChar with
  | nil => rfl
  | cons c cs ih =>
    rw [List.mem_cons, not_or] at h
    simp [newlineOffsets, Ne.symm h.1, ih h.2]

/-- Every newline offset lies in the range of the characters. -/
theorem mem_newlineOffsets {nextChar i : ℕ} {cs : List Char} (h : i ∈ newlineOffsets nextChar cs) :
    nextChar ≤ i ∧ i < nextChar + cs.length := by
  induction cs generalizing nextChar with
  | nil => simp [newlineOffsets] at h
  | cons c cs ih =>
    simp only [newlineOffsets] at h
    split_ifs at h
    · rcases List.mem_cons.1 h with rfl | h
      · simp
      · have := ih h
        simp only [List.length_cons]
        omega
    · have := ih h
      simp only [List.length_cons]
      omega

theorem sortedLT_newlineOffsets (nextChar : ℕ) (cs : List Char) :
    (newlineOffsets nextChar cs).SortedLT := by
  induction cs generalizing nextChar with
  | nil => exact List.sortedLT_iff_pairwise.2 List.Pairwise.nil
  | cons c cs ih =>
    simp only [newlineOffsets]
    split_ifs
    · rw [List.sortedLT_iff_pairwise, List.pairwise_cons]
      exact ⟨fun i hi => by have := mem_newlineOffsets hi; omega,
        List.sortedLT_iff_pairwise.1 (ih (nextChar + 1))⟩
    · exact ih (nextChar + 1)

/-- A character of a comment that neither opens nor closes one is skipped, and a newline records
a line start at its own offset. -/
theorem skipBlockComment_cons {c : Char} (hsemi : c ≠ ';') (hparen : c ≠ '(')
    (commentDepth : ℕ) (rest : List Char) (nextChar : ℕ) (lineStarts : List ℕ) :
    skipBlockComment (commentDepth + 1) (c :: rest) nextChar lineStarts =
      skipBlockComment (commentDepth + 1) rest (nextChar + 1)
        (if c = '\n' then lineStarts ++ [nextChar] else lineStarts) := by
  rw [skipBlockComment.eq_5]
  · exact fun _ h _ => hsemi h
  · exact fun _ h _ => hparen h

/-- **A comment body without `;` and `(`** is scanned one character at a time: a line start is
recorded at the offset of each of its newlines. -/
theorem skipBlockComment_plain {body : List Char} (hplain : ∀ c ∈ body, c ≠ ';' ∧ c ≠ '(')
    (commentDepth : ℕ) (rest : List Char) (nextChar : ℕ) (lineStarts : List ℕ) :
    skipBlockComment (commentDepth + 1) (body ++ rest) nextChar lineStarts =
      skipBlockComment (commentDepth + 1) rest (nextChar + body.length)
        (lineStarts ++ newlineOffsets nextChar body) := by
  induction body generalizing nextChar lineStarts with
  | nil => simp [newlineOffsets]
  | cons c body ih =>
    obtain ⟨hsemi, hparen⟩ := hplain c (List.mem_cons_self)
    rw [List.cons_append, skipBlockComment_cons hsemi hparen,
      ih (fun d hd => hplain d (List.mem_cons_of_mem c hd))]
    have hlen : nextChar + 1 + body.length = nextChar + (body.length + 1) := by omega
    by_cases hc : c = '\n' <;> simp [newlineOffsets, hc, hlen]

theorem skipWhitespace_nil (nextChar : ℕ) (lineStarts : List ℕ) :
    skipWhitespace [] nextChar lineStarts = (none, ⟨[], nextChar, lineStarts⟩) := by
  simp [skipWhitespace]

theorem skipWhitespace_blockComment (comment : List Char) (nextChar : ℕ) (lineStarts : List ℕ) :
    skipWhitespace ('(' :: ';' :: comment) nextChar lineStarts =
      let r := skipBlockComment 1 comment (nextChar + 2) lineStarts
      if r.1 then skipWhitespace r.2.rest r.2.nextChar r.2.lineStarts else (some nextChar, r.2) := by
  rw [skipWhitespace]

/-- **An input that is one block comment** lexes to the `t_eof` token at its end, with the line
start `0`, one at each newline of the comment, and the one past the end. -/
theorem lex_blockComment (feed : List Char → Option TokenType × ℕ) {consumed : ℕ}
    (hend : feed [] = (none, consumed)) {body : List Char}
    (hplain : ∀ c ∈ body, c ≠ ';' ∧ c ≠ '(') :
    lex feed ('(' :: ';' :: body ++ [';', ')']) =
      some ⟨[⟨.eof, body.length + 4⟩],
        0 :: newlineOffsets 2 body ++ [body.length + 4 + consumed + 1]⟩ := by
  -- the comment ends at the end of the input, where the token machine matches nothing
  have hskip : skipWhitespace ('(' :: ';' :: (body ++ [';', ')'])) 0 [0] =
      (none, ⟨[], body.length + 4, 0 :: newlineOffsets 2 body⟩) := by
    rw [skipWhitespace_blockComment, skipBlockComment_plain hplain]
    have hlen : 0 + 2 + body.length + 2 = body.length + 4 := by omega
    simp [skipBlockComment, skipWhitespace_nil, hlen]
  rw [lex, lexLoop]
  simp [hskip, hend]

/-! ## Loci over increasing line starts -/

/-- Increasing line starts, read with `getD`, increase up to the last line start. -/
theorem strictMonoOn_getD {lineStarts : List ℕ} (h : lineStarts.SortedLT) :
    StrictMonoOn (fun i => lineStarts.getD i 0) (Set.Iic (lineStarts.length - 1)) := by
  intro i _ j hj hij
  have hj' : j < lineStarts.length := by
    have := Set.mem_Iic.1 hj
    omega
  simp only [List.getD_eq_getElem _ _ (hij.trans hj'), List.getD_eq_getElem _ _ hj']
  exact List.sortedLT_iff_getElem_lt_getElem_of_lt.1 h hij

/-- **The locus of an offset** over strictly increasing line starts from `0`: the binary search
ends on the last line that starts at or before the offset, the columns are counted from that
line start, and the source line runs up to the next line start. -/
theorem calcLocusFromOffset_eq {lineStarts : List ℕ} (hsorted : lineStarts.SortedLT)
    (hzero : lineStarts.head? = some 0) (string : List Char) {charOffset i : ℕ}
    (hi : BinarySearch.IsLastLE (fun i => lineStarts.getD i 0) charOffset
      (lineStarts.length - 1) i)
    (hnext : i + 1 < lineStarts.length) :
    calcLocusFromOffset string lineStarts charOffset =
      some ⟨(List.range' (lineStarts.getD i 0)
          (lineStarts.getD (i + 1) 0 - 1 - lineStarts.getD i 0)).map (charAt string), i,
        (countColumns string (lineStarts.getD i 0) charOffset).1,
        (countColumns string (lineStarts.getD i 0) charOffset).2⟩ := by
  -- the search starts from the first line, which starts at `0`
  have hfirst : lineStarts.getD 0 0 ≤ charOffset := by
    cases lineStarts with
    | nil => simp at hzero
    | cons start rest =>
      obtain rfl : start = 0 := by simpa using hzero
      simp
  obtain ⟨j, hrun, hj⟩ := BinarySearch.run_eq_some (strictMonoOn_getD hsorted) hfirst
    (Nat.zero_le _) (by omega : lineStarts.length - 1 - 0 < lineStarts.length)
  obtain rfl : j = i := hj.unique (strictMonoOn_getD hsorted) hi
  simp only [calcLocusFromOffset, hrun, getLineOffset, List.getElem?_eq_getElem hnext,
    List.getElem?_eq_getElem (Nat.lt_of_succ_lt hnext), List.getD_eq_getElem _ _ hnext,
    List.getD_eq_getElem _ _ (Nat.lt_of_succ_lt hnext)]

/-- The line starts of an input that is one block comment increase. -/
theorem sortedLT_blockComment_lineStarts (body : List Char) {lineEnd : ℕ}
    (hend : body.length + 2 ≤ lineEnd) : (0 :: newlineOffsets 2 body ++ [lineEnd]).SortedLT := by
  rw [List.sortedLT_iff_pairwise, List.cons_append, List.pairwise_cons, List.pairwise_append]
  refine ⟨fun x hx => ?_, List.sortedLT_iff_pairwise.1 (sortedLT_newlineOffsets 2 body),
    List.pairwise_singleton _ _, fun x hx y hy => ?_⟩
  · rcases List.mem_append.1 hx with hx | hx
    · have := mem_newlineOffsets hx
      omega
    · rw [List.mem_singleton.1 hx]
      omega
  · have := mem_newlineOffsets hx
    rw [List.mem_singleton.1 hy]
    omega

/-- **A block comment's newline starts the next line at itself**: at the offset of the first
newline of a comment that makes up the input, the locus counts one newline more than the input
has before that offset. -/
theorem calcLocusFromOffset_blockComment_newline (feed : List Char → Option TokenType × ℕ)
    {consumed : ℕ} (hend : feed [] = (none, consumed)) {pre post : List Char} (hpre : '\n' ∉ pre)
    (hplain : ∀ c ∈ pre ++ '\n' :: post, c ≠ ';' ∧ c ≠ '(') :
    ∃ result locus, lex feed ('(' :: ';' :: (pre ++ '\n' :: post) ++ [';', ')']) = some result ∧
      calcLocusFromOffset ('(' :: ';' :: (pre ++ '\n' :: post) ++ [';', ')']) result.lineStarts
        (pre.length + 2) = some locus ∧
      locus.newlines =
        (('(' :: ';' :: (pre ++ '\n' :: post) ++ [';', ')']).take (pre.length + 2)).count '\n' + 1 := by
  have hoffsets : newlineOffsets 2 (pre ++ '\n' :: post) =
      (pre.length + 2) :: newlineOffsets (pre.length + 3) post := by
    rw [newlineOffsets_append, newlineOffsets_eq_nil hpre, List.nil_append, newlineOffsets,
      if_pos rfl, Nat.add_comm 2, show pre.length + 2 + 1 = pre.length + 3 by omega]
  have hsorted := sortedLT_blockComment_lineStarts (pre ++ '\n' :: post)
    (by omega : (pre ++ '\n' :: post).length + 2 ≤ (pre ++ '\n' :: post).length + 4 + consumed + 1)
  rw [hoffsets] at hsorted
  have hlen : 2 < (0 :: (pre.length + 2) :: newlineOffsets (pre.length + 3) post ++
      [(pre ++ '\n' :: post).length + 4 + consumed + 1]).length := by
    simp
  -- the line that the newline starts is the last one at or before it
  have hi : BinarySearch.IsLastLE
      (fun i => (0 :: (pre.length + 2) :: newlineOffsets (pre.length + 3) post ++
        [(pre ++ '\n' :: post).length + 4 + consumed + 1]).getD i 0)
      (pre.length + 2) ((0 :: (pre.length + 2) :: newlineOffsets (pre.length + 3) post ++
        [(pre ++ '\n' :: post).length + 4 + consumed + 1]).length - 1) 1 := by
    refine ⟨by omega, by simp, .inr ?_⟩
    have h12 := strictMonoOn_getD hsorted (Set.mem_Iic.2 (by omega : 1 ≤ _))
      (Set.mem_Iic.2 (by omega : 2 ≤ _)) (by omega : 1 < 2)
    simpa using h12
  refine ⟨_, _, hoffsets ▸ lex_blockComment feed hend hplain,
    calcLocusFromOffset_eq hsorted rfl _ hi (by omega), ?_⟩
  simp [List.count_eq_zero_of_not_mem hpre]

/-- The input `(;\n;)`, lexed with a machine that, as the lexer's, stops at the terminating NUL
without consuming it. -/
theorem calcLocusFromOffset_blockComment_newline_two :
    ∃ result locus, lex (fun _ => (none, 0)) ['(', ';', '\n', ';', ')'] = some result ∧
      calcLocusFromOffset ['(', ';', '\n', ';', ')'] result.lineStarts 2 = some locus ∧
      locus.newlines = (['(', ';', '\n', ';', ')'].take 2).count '\n' + 1 :=
  @calcLocusFromOffset_blockComment_newline (fun _ => (none, 0)) 0 rfl [] [] (by simp) (by simp)

/- The line starts of `(;\n;)` are `0`, `2` and past the end: the first character of the second
line is at column 2 of it, after the newline. -/
example : lex (fun _ => (none, 0)) ['(', ';', '\n', ';', ')'] =
    some ⟨[⟨.eof, 5⟩], [0, 2, 6]⟩ := by
  decide +kernel

example : calcLocusFromOffset ['(', ';', '\n', ';', ')'] [0, 2, 6] 3 =
    some ⟨['\n', ';', ')'], 1, 0, 1⟩ := by
  decide

end Wavm.WAST
