import Mathlib
import Wavm.Lib.WhileLoop
import Wavm.NFA.Builder

set_option relaxedAutoImplicit false
set_option autoImplicit false

/-!
# The DFA machine and its character classes

`NFA::Machine`, from `src/Include/WAVM/NFA/NFA.h` and `src/Lib/NFA/NFA.cpp`: the constructor
`Machine(Builder*)` takes the DFA states that `convertToDFA` builds, each a map from the 256
characters to a next state, and compresses them. It transposes the [state][character] map
into one column per character, sorts the columns by `memcmp` of their bytes, numbers the
classes of equal columns, and keeps one column per class in the [class][state] table
`stateAndOffsetToNextStateMap`, with `charToOffsetMap[c]` the offset of the class of `c`.
`feed` then runs the table over the characters at `nextChar`, four characters a round, until a
terminal (negative) state.

## Main definitions

* `Wavm.NFA.DFAState` — `DFAState`, the next state for each character.
* `Wavm.NFA.Machine`, `Machine.ofDFAStates` — the machine and the compression of the
  constructor.
* `Wavm.NFA.Machine.feedLoop`, `Machine.feed` — the unrolled loop of `feed`.
* `Wavm.NFA.feedDFA` — the DFA's own run, one character a round over `nextStateByChar`.

## Main results

* `Wavm.NFA.Machine.feed_eq_run` — the four-character rounds of `feed` return what the
  one-character loop `while(state >= 0)` returns.
* `Wavm.NFA.Machine.feed_ofDFAStates` — the compressed machine runs as the DFA it is built
  from.
* `Wavm.NFA.Machine.charToOffsetMap_ofDFAStates_eq_iff` — two characters share a class exactly
  when every DFA state sends them to the same state: the classes are the fewest there can be.
* `Wavm.NFA.Machine.charToOffsetMap_ofDFAStates_lt` — with at most `2 ^ 15` states, every offset
  fits its `U32`.

## Implementation notes

A `StateIndex` is an `Int`; the `I16` values the source keeps are those of `InStateIndexRange`,
and `(StateIndex)value` is `toStateIndex` (both in `Wavm.NFA.Builder`). The flag `edgeDoesntConsumeInputFlag` is bit 14 of
the two's-complement value, so `state | flag` and `state & ~flag` add and take away `0x4000`
where the bit is clear or set. `memcmp` compares the columns as the bytes of their `I16`s,
low byte first. The model sorts with the stable `List.mergeSort`; `std::sort` may order two
columns with the same bytes either way. The input at `nextChar` is a list of bytes, read as
`0` past its end, and `feed` returns the terminal state with the number of characters it
moved `nextChar` by. An index past the table reads `0`; the source never reads there from a
DFA whose states lead only to its states (`DFAStates.Valid`). The `U32` offsets of
`charToOffsetMap` are natural numbers, below `2 ^ 32` for the DFAs of at most `2 ^ 15` states that
`convertToDFA` returns, so the cast `U32(numStates * characterToClassMap[charIndex])` keeps them.
-/

namespace Wavm.NFA

/-! ## State indices and the flag -/

/-- `edgeDoesntConsumeInputFlag`. -/
def edgeDoesntConsumeInputFlag : ℤ := 0x4000

/-- `unmatchedCharacterTerminal`, `(StateIndex)0x8000`. -/
def unmatchedCharacterTerminal : ℤ := -0x8000

/-- `maximumTerminalStateIndex`, `(StateIndex)0xbfff`. -/
def maximumTerminalStateIndex : ℤ := -0x4001

/-- `state & edgeDoesntConsumeInputFlag`: bit 14 of the two's complement is set. -/
def doesntConsumeInput (state : ℤ) : Bool := decide (state / edgeDoesntConsumeInputFlag % 2 = 1)

/-- `state | edgeDoesntConsumeInputFlag`. -/
def setDoesntConsumeInput (state : ℤ) : ℤ :=
  if doesntConsumeInput state then state else state + edgeDoesntConsumeInputFlag

/-- `state & ~edgeDoesntConsumeInputFlag`. -/
def clearDoesntConsumeInput (state : ℤ) : ℤ :=
  if doesntConsumeInput state then state - edgeDoesntConsumeInputFlag else state

example : setDoesntConsumeInput unmatchedCharacterTerminal = -0x4000 := by decide

example : clearDoesntConsumeInput (setDoesntConsumeInput maximumTerminalStateIndex) =
    maximumTerminalStateIndex := by decide

/-- `state | edgeDoesntConsumeInputFlag` adds the bit only where it is clear, so twice is once. -/
theorem setDoesntConsumeInput_idem (state : ℤ) :
    setDoesntConsumeInput (setDoesntConsumeInput state) = setDoesntConsumeInput state := by
  unfold setDoesntConsumeInput doesntConsumeInput edgeDoesntConsumeInputFlag
  simp only [decide_eq_true_eq]
  split_ifs <;> omega

/-- The flag keeps a terminal state terminal: on a negative `StateIndex`, bit 14 is clear only
below `-0x4000`. -/
theorem setDoesntConsumeInput_neg {state : ℤ} (h : state < 0) : setDoesntConsumeInput state < 0 := by
  unfold setDoesntConsumeInput doesntConsumeInput edgeDoesntConsumeInputFlag
  simp only [decide_eq_true_eq]
  split_ifs <;> omega

/-- `DFAState`: the state each character leads to. -/
structure DFAState where
  nextStateByChar : UInt8 → ℤ

/-- `DFAState()`: every character leads to `unmatchedCharacterTerminal |
edgeDoesntConsumeInputFlag`. -/
def DFAState.new : DFAState := ⟨fun _ => setDoesntConsumeInput unmatchedCharacterTerminal⟩

/-- `dfaStates[state].nextStateByChar[c]`. -/
def nextDFAState (dfaStates : List DFAState) (state : ℤ) (c : UInt8) : ℤ :=
  (dfaStates.getD state.toNat DFAState.new).nextStateByChar c

/-- What `convertToDFA` hands to the constructor: at least the start state `0`, every entry an
`I16`, and every non-terminal entry one of the states. The constructor's
`wavmAssert(dfaStates.size() <= internalMaxStates)` is compiled out and is not part of it: a DFA
of `convertToDFA` has at most `2 ^ 15 = internalMaxStates + 1` states, with which the offsets
still fit their `U32` (`Machine.charToOffsetMap_ofDFAStates_lt`). -/
structure DFAStates.Valid (dfaStates : List DFAState) : Prop where
  ne_nil : dfaStates ≠ []
  inStateIndexRange : ∀ dfaState ∈ dfaStates, ∀ c, InStateIndexRange (dfaState.nextStateByChar c)
  lt_length : ∀ dfaState ∈ dfaStates, ∀ c,
    0 ≤ dfaState.nextStateByChar c → dfaState.nextStateByChar c < dfaStates.length

/-- `NFA::Machine`. -/
structure Machine where
  charToOffsetMap : UInt8 → ℕ
  stateAndOffsetToNextStateMap : List ℤ
  numClasses : ℕ
  numStates : ℕ

namespace Machine

/-- `stateAndOffsetToNextStateMap[state + charToOffsetMap[c]]`. -/
def next (m : Machine) (state : ℤ) (c : UInt8) : ℤ :=
  m.stateAndOffsetToNextStateMap.getD (state.toNat + m.charToOffsetMap c) 0

end Machine

/-! ## The constructor's compression -/

/-- `StateTransitionsByChar`: a character, and the state each DFA state goes to on it. -/
structure StateTransitionsByChar where
  c : UInt8
  nextStateByInitialState : List ℤ

/-- The two bytes of a `StateIndex` as `memcmp` reads them, low byte first. -/
def stateIndexBytes (state : ℤ) : List UInt8 :=
  [UInt8.ofNat (state % 2 ^ 16).toNat, UInt8.ofNat ((state % 2 ^ 16).toNat / 2 ^ 8)]

/-- The bytes of a column of `StateIndex`es. -/
def columnBytes (column : List ℤ) : List UInt8 := column.flatMap stateIndexBytes

namespace StateTransitionsByChar

/-- The bytes `memcmp` compares. -/
def bytes (transitions : StateTransitionsByChar) : List UInt8 :=
  columnBytes transitions.nextStateByInitialState

/-- `operator<`: `memcmp` of the two columns is negative. -/
def lt (left right : StateTransitionsByChar) : Bool := decide (left.bytes < right.bytes)

/-- `operator!=`: `memcmp` of the two columns is not zero. -/
def ne (left right : StateTransitionsByChar) : Bool := left.bytes != right.bytes

end StateTransitionsByChar

/-- The column of a character: the state each DFA state goes to on it. -/
def transitionsByChar (dfaStates : List DFAState) (c : UInt8) : List ℤ :=
  dfaStates.map fun dfaState => dfaState.nextStateByChar c

/-- The loop that transposes the [state][character] map to [character][state]. -/
def transposeDFAStates (dfaStates : List DFAState) : List StateTransitionsByChar :=
  (List.range 256).map fun charIndex =>
    ⟨UInt8.ofNat charIndex, transitionsByChar dfaStates (UInt8.ofNat charIndex)⟩

/-- `std::sort` of the columns by `operator<`. -/
def sortStateTransitions (transitions : List StateTransitionsByChar) :
    List StateTransitionsByChar :=
  transitions.mergeSort fun left right => !right.lt left

/-- The loop over the sorted columns from the second on: a column that differs from the one
before it opens a class with its character as representative, and each character gets the
last class. -/
def classifyLoop (characterToClassMap : UInt8 → ℕ) (representativeCharsByClass : List UInt8)
    (previous : StateTransitionsByChar) :
    List StateTransitionsByChar → (UInt8 → ℕ) × List UInt8
  | [] => (characterToClassMap, representativeCharsByClass)
  | transitions :: rest =>
    let representativeCharsByClass :=
      if transitions.ne previous then representativeCharsByClass ++ [transitions.c]
      else representativeCharsByClass
    classifyLoop
      (Function.update characterToClassMap transitions.c (representativeCharsByClass.length - 1))
      representativeCharsByClass transitions rest

/-- The character classes: the first sorted column opens class `0`, then `classifyLoop`. The
result is `characterToClassMap` and `representativeCharsByClass`, whose length is
`numClasses`. -/
def classify : List StateTransitionsByChar → (UInt8 → ℕ) × List UInt8
  | [] => (fun _ => 0, [])
  | first :: rest => classifyLoop (Function.update (fun _ => 0) first.c 0) [first.c] first rest

/-- `Machine(Builder*)` after `convertToDFA`: the classes of the sorted columns, the
[class][state] table of the representatives' columns, and each character's offset
`numStates * class`. -/
def Machine.ofDFAStates (dfaStates : List DFAState) : Machine :=
  let classes := classify (sortStateTransitions (transposeDFAStates dfaStates))
  { charToOffsetMap := fun c => dfaStates.length * classes.1 c
    stateAndOffsetToNextStateMap := classes.2.flatMap (transitionsByChar dfaStates)
    numClasses := classes.2.length
    numStates := dfaStates.length }

/-! ## `feed` -/

/-- `while(state >= 0)`, on the state and the offset of `nextChar`. -/
def feedCond (state : ℤ × ℕ) : Bool := decide (0 ≤ state.1)

/-- One character: the state it leads to, and `nextChar` past it. -/
def feedBody (next : ℤ → UInt8 → ℤ) (input : List UInt8) (state : ℤ × ℕ) : ℤ × ℕ :=
  (next state.1 (input.getD state.2 0), state.2 + 1)

/-- The end of `feed`: an edge with `edgeDoesntConsumeInputFlag` gives its character back and
drops the flag, and `(StateIndex)state` is returned. -/
def feedResult (result : ℤ × ℕ) : ℤ × ℕ :=
  if doesntConsumeInput result.1 then
    (toStateIndex (clearDoesntConsumeInput result.1), result.2 - 1)
  else (toStateIndex result.1, result.2)

namespace Machine

/-- The `do … while(state >= 0)` loop of `feed`, with at most `fuel` rounds of four characters:
the terminal state it stops at, and the offset of `nextChar` past the character that led
there. -/
def feedLoop (m : Machine) (input : List UInt8) : ℕ → ℤ → ℕ → Option (ℤ × ℕ)
  | 0, _, _ => none
  | fuel + 1, state, nextChar =>
    let state := m.next state (input.getD nextChar 0)
    if state < 0 then some (state, nextChar + 1) else
    let state := m.next state (input.getD (nextChar + 1) 0)
    if state < 0 then some (state, nextChar + 2) else
    let state := m.next state (input.getD (nextChar + 2) 0)
    if state < 0 then some (state, nextChar + 3) else
    let state := m.next state (input.getD (nextChar + 3) 0)
    if state < 0 then some (state, nextChar + 4)
    else feedLoop m input fuel state (nextChar + 4)

/-- `feed(nextChar)`, from the state `0`: the terminal state, and how far `nextChar` moves. -/
def feed (m : Machine) (input : List UInt8) (fuel : ℕ) : Option (ℤ × ℕ) :=
  (m.feedLoop input fuel 0 0).map feedResult

end Machine

/-- The DFA's own run over `input`, one character a round, with the end of `feed`. -/
def feedDFA (dfaStates : List DFAState) (input : List UInt8) (fuel : ℕ) : Option (ℤ × ℕ) :=
  (WhileLoop.run feedCond (feedBody (nextDFAState dfaStates) input) fuel (0, 0)).map feedResult

/-! ## The unrolled loop -/

section Unrolled

variable {next : ℤ → UInt8 → ℤ} {input : List UInt8}

/-- One character of the one-character loop from a non-terminal state: a terminal state ends
it, any other state goes on. -/
theorem run_feedBody {fuel : ℕ} {state : ℤ} (nextChar : ℕ) (hstate : 0 ≤ state) :
    WhileLoop.run feedCond (feedBody next input) (fuel + 2) (state, nextChar) =
      if next state (input.getD nextChar 0) < 0 then
        some (next state (input.getD nextChar 0), nextChar + 1)
      else
        WhileLoop.run feedCond (feedBody next input) (fuel + 1)
          (next state (input.getD nextChar 0), nextChar + 1) := by
  rw [WhileLoop.run_succ_of_cond (by simp [feedCond, hstate]), feedBody]
  split_ifs with h
  · exact WhileLoop.run_succ_of_not_cond (by simp only [feedCond, decide_eq_false_iff_not, not_le]; exact h)
  · rfl

/-- **Four characters a round are one character a round**: each round of `feedLoop` is four
rounds of the one-character loop, and one more test of the condition ends it. -/
theorem Machine.feedLoop_eq_run (m : Machine) (input : List UInt8) :
    ∀ (fuel : ℕ) (state : ℤ) (nextChar : ℕ), 0 ≤ state →
      m.feedLoop input fuel state nextChar =
        WhileLoop.run feedCond (feedBody m.next input) (4 * fuel + 1) (state, nextChar)
  | 0, state, nextChar, hstate => by
    rw [Machine.feedLoop, WhileLoop.run_succ_of_cond (by simp [feedCond, hstate])]
    rfl
  | fuel + 1, state, nextChar, hstate => by
    rw [Machine.feedLoop, show 4 * (fuel + 1) + 1 = 4 * fuel + 3 + 2 by omega,
      run_feedBody nextChar hstate]
    dsimp only
    -- the four characters of the round, each a terminal state or the next character
    split_ifs with h₁ h₂ h₃ h₄
    · rfl
    · rw [run_feedBody _ (by omega)]
      simp only [Nat.add_assoc, Nat.reduceAdd, h₂, if_true]
    · rw [run_feedBody _ (by omega)]
      simp only [Nat.add_assoc, Nat.reduceAdd, h₂, if_false]
      rw [run_feedBody _ (by omega)]
      simp only [Nat.add_assoc, Nat.reduceAdd, h₃, if_true]
    · rw [run_feedBody _ (by omega)]
      simp only [Nat.add_assoc, Nat.reduceAdd, h₂, if_false]
      rw [run_feedBody _ (by omega)]
      simp only [Nat.add_assoc, Nat.reduceAdd, h₃, if_false]
      rw [run_feedBody _ (by omega)]
      simp only [Nat.add_assoc, Nat.reduceAdd, h₄, if_true]
    · rw [run_feedBody _ (by omega)]
      simp only [Nat.add_assoc, Nat.reduceAdd, h₂, if_false]
      rw [run_feedBody _ (by omega)]
      simp only [Nat.add_assoc, Nat.reduceAdd, h₃, if_false]
      rw [run_feedBody _ (by omega)]
      simp only [Nat.add_assoc, Nat.reduceAdd, h₄, if_false]
      exact Machine.feedLoop_eq_run m input fuel _ _ (by omega)

end Unrolled

/-- **`feed` runs one character a round**: the unrolled loop of `feed` returns what the loop
`while(state >= 0)` over one character at a time returns from the state `0`, with four tests
of its condition for each round of `feed` and one more to end. -/
theorem Machine.feed_eq_run (m : Machine) (input : List UInt8) (fuel : ℕ) :
    m.feed input fuel =
      (WhileLoop.run feedCond (feedBody m.next input) (4 * fuel + 1) (0, 0)).map feedResult := by
  rw [Machine.feed, Machine.feedLoop_eq_run m input fuel 0 0 le_rfl]

/-! ## The bytes `memcmp` compares -/

/-- Two `I16`s with the same bytes are equal. -/
theorem stateIndexBytes_inj {a b : ℤ} (ha : InStateIndexRange a) (hb : InStateIndexRange b)
    (h : stateIndexBytes a = stateIndexBytes b) : a = b := by
  simp only [stateIndexBytes, List.cons.injEq, and_true] at h
  have hlow := congrArg UInt8.toNat h.1
  have hhigh := congrArg UInt8.toNat h.2
  simp only [UInt8.toNat_ofNat', Nat.reducePow] at hlow hhigh
  obtain ⟨ha₁, ha₂⟩ := ha
  obtain ⟨hb₁, hb₂⟩ := hb
  omega

/-- Two columns of `I16`s with the same bytes are equal. -/
theorem columnBytes_inj : ∀ {column column' : List ℤ},
    (∀ state ∈ column, InStateIndexRange state) → (∀ state ∈ column', InStateIndexRange state) →
      columnBytes column = columnBytes column' → column = column'
  | [], [], _, _, _ => rfl
  | [], _ :: _, _, _, h => by simp [columnBytes, stateIndexBytes] at h
  | _ :: _, [], _, _, h => by simp [columnBytes, stateIndexBytes] at h
  | a :: column, b :: column', hcolumn, hcolumn', h => by
    simp only [columnBytes, List.flatMap_cons, stateIndexBytes, List.cons_append, List.nil_append,
      List.cons.injEq] at h
    obtain ⟨hlow, hhigh, hrest⟩ := h
    have hab : a = b := stateIndexBytes_inj (hcolumn a List.mem_cons_self)
      (hcolumn' b List.mem_cons_self) (by rw [stateIndexBytes, stateIndexBytes, hlow, hhigh])
    rw [hab, columnBytes_inj (fun state h => hcolumn state (List.mem_cons_of_mem a h))
      (fun state h => hcolumn' state (List.mem_cons_of_mem b h)) hrest]

/-! ## The classes -/

section Classify

variable {key : UInt8 → List UInt8}

/-- What the class loop has built for the characters `seen`, each column given by its bytes
`key`: every character seen has a class whose representative has the same bytes, and no two
representatives have the same bytes. -/
structure Classified (key : UInt8 → List UInt8) (characterToClassMap : UInt8 → ℕ)
    (representativeCharsByClass : List UInt8) (seen : List UInt8) : Prop where
  nodup : (representativeCharsByClass.map key).Nodup
  lt_length : ∀ c ∈ seen, characterToClassMap c < representativeCharsByClass.length
  key_eq : ∀ c ∈ seen, key (representativeCharsByClass.getD (characterToClassMap c) 0) = key c

/-- The class loop's invariant between two columns: what `Classified` says, the last
representative has the bytes of the column before, and no representative has larger bytes. -/
structure ClassifyInv (key : UInt8 → List UInt8) (characterToClassMap : UInt8 → ℕ)
    (representativeCharsByClass : List UInt8) (previous : StateTransitionsByChar)
    (seen : List UInt8) : Prop extends
    Classified key characterToClassMap representativeCharsByClass seen where
  getLast : representativeCharsByClass.getLast?.map key = some previous.bytes
  le_previous : ∀ r ∈ representativeCharsByClass, key r ≤ previous.bytes

/-- One column of the class loop, not below the one before it, keeps the invariant. -/
theorem ClassifyInv.step {characterToClassMap : UInt8 → ℕ} {representativeCharsByClass : List UInt8}
    {previous transitions : StateTransitionsByChar} {seen : List UInt8}
    (hinv : ClassifyInv key characterToClassMap representativeCharsByClass previous seen)
    (hkey : transitions.bytes = key transitions.c) (hle : previous.bytes ≤ transitions.bytes) :
    let representativeCharsByClass' :=
      if transitions.ne previous then representativeCharsByClass ++ [transitions.c]
      else representativeCharsByClass
    ClassifyInv key
      (Function.update characterToClassMap transitions.c (representativeCharsByClass'.length - 1))
      representativeCharsByClass' transitions (seen ++ [transitions.c]) := by
  intro representativeCharsByClass'
  have hne : representativeCharsByClass ≠ [] := by
    intro h
    have := hinv.getLast
    simp [h] at this
  by_cases hsame : transitions.bytes = previous.bytes
  · -- the column is the one before: the character joins the last class
    have hrep : representativeCharsByClass' = representativeCharsByClass := by
      simp [representativeCharsByClass', StateTransitionsByChar.ne, hsame]
    rw [hrep]
    have hlast : representativeCharsByClass.getD (representativeCharsByClass.length - 1) 0 =
        representativeCharsByClass.getLast hne := by
      rw [List.getLast_eq_getElem, List.getD_eq_getElem]
    refine ⟨⟨hinv.nodup, fun c hc => ?_, fun c hc => ?_⟩, ?_, ?_⟩
    · by_cases hc' : c = transitions.c
      · subst hc'
        have := List.length_pos_of_ne_nil hne
        simp only [Function.update_self]
        omega
      · rw [Function.update_of_ne hc']
        exact hinv.lt_length c (by simpa [hc'] using hc)
    · by_cases hc' : c = transitions.c
      · subst hc'
        have h := hinv.getLast
        rw [List.getLast?_eq_some_getLast hne, Option.map_some, Option.some.injEq] at h
        rw [Function.update_self, hlast, h, ← hkey, hsame]
      · rw [Function.update_of_ne hc']
        exact hinv.key_eq c (by simpa [hc'] using hc)
    · rw [hinv.getLast, hsame]
    · intro r hr
      rw [hsame]
      exact hinv.le_previous r hr
  · -- a new column opens a class with its character
    have hrep : representativeCharsByClass' = representativeCharsByClass ++ [transitions.c] := by
      simp [representativeCharsByClass', StateTransitionsByChar.ne, hsame]
    rw [hrep]
    have hlt : previous.bytes < transitions.bytes :=
      (List.le_iff_lt_or_eq.1 hle).resolve_right (Ne.symm hsame)
    refine ⟨⟨?_, fun c hc => ?_, fun c hc => ?_⟩, ?_, ?_⟩
    · rw [List.map_append, List.nodup_append]
      refine ⟨hinv.nodup, List.nodup_singleton _, fun a ha b hb => ?_⟩
      obtain ⟨r, hr, rfl⟩ := List.mem_map.1 ha
      rw [List.map_singleton, List.mem_singleton] at hb
      subst hb
      rw [← hkey]
      exact fun h => List.lt_irrefl _ (h ▸ List.lt_of_le_of_lt (hinv.le_previous r hr) hlt)
    · by_cases hc' : c = transitions.c
      · subst hc'
        simp
      · rw [Function.update_of_ne hc', List.length_append]
        have := hinv.lt_length c (by simpa [hc'] using hc)
        omega
    · by_cases hc' : c = transitions.c
      · subst hc'
        simp
      · rw [Function.update_of_ne hc']
        have hlt' := hinv.lt_length c (by simpa [hc'] using hc)
        rw [List.getD_append _ _ _ _ hlt']
        exact hinv.key_eq c (by simpa [hc'] using hc)
    · simp [hkey]
    · intro r hr
      rw [List.mem_append, List.mem_singleton] at hr
      rcases hr with hr | rfl
      · exact List.le_of_lt (List.lt_of_le_of_lt (hinv.le_previous r hr) hlt)
      · rw [hkey]
        exact List.le_refl _

/-- **The class loop keeps its invariant** over columns in order, each with the bytes of its
character's key; what it returns has a class for every character it has seen. -/
theorem ClassifyInv.classifyLoop : ∀ {rest : List StateTransitionsByChar}
    {characterToClassMap : UInt8 → ℕ} {representativeCharsByClass : List UInt8}
    {previous : StateTransitionsByChar} {seen : List UInt8},
    ClassifyInv key characterToClassMap representativeCharsByClass previous seen →
    (∀ transitions ∈ rest, transitions.bytes = key transitions.c) →
    (previous :: rest).Pairwise (fun left right => left.bytes ≤ right.bytes) →
    Classified key (classifyLoop characterToClassMap representativeCharsByClass previous rest).1
      (classifyLoop characterToClassMap representativeCharsByClass previous rest).2
      (seen ++ rest.map StateTransitionsByChar.c)
  | [], _, _, _, _, hinv, _, _ => by
    rw [List.map_nil, List.append_nil]
    exact hinv.toClassified
  | transitions :: rest, _, _, _, seen, hinv, hkey, hsorted => by
    rw [List.pairwise_cons] at hsorted
    have hstep := hinv.step (hkey transitions List.mem_cons_self)
      (hsorted.1 transitions List.mem_cons_self)
    have hseen : seen ++ (transitions :: rest).map StateTransitionsByChar.c =
        seen ++ [transitions.c] ++ rest.map StateTransitionsByChar.c := by
      simp
    rw [hseen]
    exact hstep.classifyLoop (fun t ht => hkey t (List.mem_cons_of_mem _ ht)) hsorted.2

/-- **The classes of sorted columns**: each character of the columns has a class whose
representative has its bytes, and the representatives' bytes are distinct. -/
theorem classified_classify {sorted : List StateTransitionsByChar}
    (hkey : ∀ transitions ∈ sorted, transitions.bytes = key transitions.c)
    (hsorted : sorted.Pairwise (fun left right => left.bytes ≤ right.bytes)) :
    Classified key (classify sorted).1 (classify sorted).2 (sorted.map StateTransitionsByChar.c) := by
  cases sorted with
  | nil => exact ⟨List.nodup_nil, fun _ h => absurd h List.not_mem_nil,
      fun _ h => absurd h List.not_mem_nil⟩
  | cons first rest =>
    have hfirst := hkey first List.mem_cons_self
    -- the first column opens class `0`
    have hinv : ClassifyInv key (Function.update (fun _ => 0) first.c 0) [first.c] first
        [first.c] := by
      refine ⟨⟨List.nodup_singleton _, fun c hc => ?_, fun c hc => ?_⟩, ?_, ?_⟩
      · rw [List.mem_singleton.1 hc, Function.update_self]
        exact Nat.one_pos
      · rw [List.mem_singleton.1 hc, Function.update_self]
        rfl
      · simp [hfirst]
      · intro r hr
        rw [List.mem_singleton.1 hr, hfirst]
        exact List.le_refl _
    exact hinv.classifyLoop (fun t ht => hkey t (List.mem_cons_of_mem _ ht)) hsorted

end Classify

/-- `std::sort` leaves the columns in the order of their bytes. -/
theorem pairwise_sortStateTransitions (transitions : List StateTransitionsByChar) :
    (sortStateTransitions transitions).Pairwise (fun left right => left.bytes ≤ right.bytes) := by
  have hle : ∀ left right : StateTransitionsByChar,
      (!right.lt left) = true ↔ left.bytes ≤ right.bytes := by
    intro left right
    simp [StateTransitionsByChar.lt, List.not_lt]
  have hsorted := @List.pairwise_mergeSort _ (fun left right => !right.lt left)
    (fun a b c hab hbc => (hle a c).2 (List.le_trans ((hle a b).1 hab) ((hle b c).1 hbc)))
    (fun a b => by
      rcases List.le_total a.bytes b.bytes with h | h
      · rw [(hle a b).2 h, Bool.true_or]
      · rw [(hle b a).2 h, Bool.or_true])
    transitions
  exact hsorted.imp fun h => (hle _ _).1 h

/-- Each sorted column is the column of its character. -/
theorem bytes_of_mem_sortStateTransitions {dfaStates : List DFAState}
    {transitions : StateTransitionsByChar}
    (h : transitions ∈ sortStateTransitions (transposeDFAStates dfaStates)) :
    transitions.bytes = columnBytes (transitionsByChar dfaStates transitions.c) := by
  rw [sortStateTransitions, (List.mergeSort_perm _ _).mem_iff, transposeDFAStates,
    List.mem_map] at h
  obtain ⟨charIndex, -, rfl⟩ := h
  rfl

/-- Every character has a sorted column. -/
theorem mem_map_sortStateTransitions (dfaStates : List DFAState) (c : UInt8) :
    c ∈ (sortStateTransitions (transposeDFAStates dfaStates)).map StateTransitionsByChar.c := by
  rw [sortStateTransitions, ((List.mergeSort_perm _ _).map _).mem_iff, transposeDFAStates,
    List.map_map, List.mem_map]
  exact ⟨c.toNat, List.mem_range.2 c.toNat_lt, UInt8.ofNat_toNat⟩

/-- The classes of the columns of `dfaStates`, sorted as the constructor sorts them. -/
theorem classified_sortStateTransitions (dfaStates : List DFAState) :
    Classified (fun c => columnBytes (transitionsByChar dfaStates c))
      (classify (sortStateTransitions (transposeDFAStates dfaStates))).1
      (classify (sortStateTransitions (transposeDFAStates dfaStates))).2
      ((sortStateTransitions (transposeDFAStates dfaStates)).map StateTransitionsByChar.c) :=
  classified_classify (fun _ h => bytes_of_mem_sortStateTransitions h)
    (pairwise_sortStateTransitions _)

/-- The classes the constructor builds: every character has a class, whose representative has
the same column. -/
theorem transitionsByChar_classify {dfaStates : List DFAState}
    (hrange : ∀ dfaState ∈ dfaStates, ∀ c, InStateIndexRange (dfaState.nextStateByChar c))
    (c : UInt8) :
    (classify (sortStateTransitions (transposeDFAStates dfaStates))).1 c <
        (classify (sortStateTransitions (transposeDFAStates dfaStates))).2.length ∧
      transitionsByChar dfaStates
          ((classify (sortStateTransitions (transposeDFAStates dfaStates))).2.getD
            ((classify (sortStateTransitions (transposeDFAStates dfaStates))).1 c) 0) =
        transitionsByChar dfaStates c := by
  have hclassified := classified_sortStateTransitions dfaStates
  have hmem := mem_map_sortStateTransitions dfaStates c
  have hcolumn : ∀ c', ∀ state ∈ transitionsByChar dfaStates c', InStateIndexRange state := by
    intro c' state hstate
    obtain ⟨dfaState, hdfaState, rfl⟩ := List.mem_map.1 hstate
    exact hrange dfaState hdfaState c'
  exact ⟨hclassified.lt_length c hmem,
    columnBytes_inj (hcolumn _) (hcolumn c) (hclassified.key_eq c hmem)⟩


/-! ## The compressed table -/

/-- A cell of a table of blocks of one length `n`, laid out block after block: the cell
`s + n * k` is cell `s` of block `k`. -/
theorem getD_flatMap_of_length {α β : Type} {f : α → List β} {n : ℕ}
    (hf : ∀ a, (f a).length = n) (d : β) :
    ∀ (l : List α) {k s : ℕ} (hk : k < l.length), s < n →
      (l.flatMap f).getD (s + n * k) d = (f l[k]).getD s d
  | [], _, _, hk, _ => absurd hk (Nat.not_lt_zero _)
  | a :: l, 0, s, _, hs => by
    rw [List.flatMap_cons, Nat.mul_zero, Nat.add_zero, List.getD_append _ _ _ _ (by rw [hf]; exact hs),
      List.getElem_cons_zero]
  | a :: l, k + 1, s, hk, hs => by
    rw [List.flatMap_cons, List.getD_append_right _ _ _ _ (by rw [hf]; nlinarith), hf,
      show s + n * (k + 1) - n = s + n * k by rw [Nat.mul_succ]; omega, List.getElem_cons_succ]
    exact getD_flatMap_of_length hf d l (by simpa using hk) hs

/-- **The table gives every transition of the DFA**: from each of its states, the compressed
machine goes where the DFA goes on every character. -/
theorem Machine.next_ofDFAStates {dfaStates : List DFAState}
    (hrange : ∀ dfaState ∈ dfaStates, ∀ c, InStateIndexRange (dfaState.nextStateByChar c))
    {state : ℤ} (h₀ : 0 ≤ state) (hlt : state < dfaStates.length) (c : UInt8) :
    (Machine.ofDFAStates dfaStates).next state c = nextDFAState dfaStates state c := by
  obtain ⟨hk, hcolumn⟩ := transitionsByChar_classify hrange c
  have hs : state.toNat < dfaStates.length := by omega
  simp only [Machine.next, Machine.ofDFAStates]
  rw [getD_flatMap_of_length (f := transitionsByChar dfaStates) (fun _ => List.length_map _) 0 _ hk hs,
    ← List.getD_eq_getElem _ 0 hk,
    hcolumn, transitionsByChar, List.getD_eq_getElem _ _ (by simpa using hs), List.getElem_map,
    nextDFAState, List.getD_eq_getElem _ _ hs]

/-- The one-character loops of the compressed machine and of the DFA agree from every state of
the DFA. -/
theorem run_ofDFAStates {dfaStates : List DFAState} (hvalid : DFAStates.Valid dfaStates)
    (input : List UInt8) (fuel : ℕ) (state : ℤ × ℕ) (hstate : state.1 < dfaStates.length) :
    WhileLoop.run feedCond (feedBody (Machine.ofDFAStates dfaStates).next input) fuel state =
      WhileLoop.run feedCond (feedBody (nextDFAState dfaStates) input) fuel state := by
  -- the states the DFA's loop steps from are its own, where the tables agree
  refine WhileLoop.run_congr (fun state : ℤ × ℕ => state.1 < dfaStates.length) (fun _ _ => rfl)
    (fun current hlt hcond => ?_) fuel state hstate
  have h₀ : 0 ≤ current.1 := by simpa [feedCond] using hcond
  have hs : current.1.toNat < dfaStates.length := by omega
  refine ⟨?_, ?_⟩
  · simp only [feedBody, Machine.next_ofDFAStates hvalid.inStateIndexRange h₀ hlt]
  · show nextDFAState dfaStates current.1 _ < dfaStates.length
    rw [nextDFAState, List.getD_eq_getElem _ _ hs]
    by_cases hnext : 0 ≤ (dfaStates[current.1.toNat]).nextStateByChar (input.getD current.2 0)
    · exact hvalid.lt_length _ (List.getElem_mem hs) _ hnext
    · omega

/-- **The compressed machine runs as its DFA**: from a DFA whose states lead only to its
states, `feed` of the machine the constructor builds returns what the DFA's own loop returns
over `nextStateByChar`, for every input. -/
theorem Machine.feed_ofDFAStates {dfaStates : List DFAState} (hvalid : DFAStates.Valid dfaStates)
    (input : List UInt8) (fuel : ℕ) :
    (Machine.ofDFAStates dfaStates).feed input fuel = feedDFA dfaStates input (4 * fuel + 1) := by
  have hpos : (0 : ℤ) < dfaStates.length := by
    have := List.length_pos_of_ne_nil hvalid.ne_nil
    omega
  rw [Machine.feed, Machine.feedLoop_eq_run _ _ _ 0 0 le_rfl, feedDFA,
    run_ofDFAStates hvalid input _ (0, 0) hpos]

/-- A DFA for `a+` followed by any other character, which it does not consume: `feed` of its
machine over `aab` reaches the terminal `maximumTerminalStateIndex` after the two `a`s. -/
theorem feed_ofDFAStates_aab :
    let dfaStates : List DFAState :=
      [⟨fun c => if c = 97 then 1 else setDoesntConsumeInput unmatchedCharacterTerminal⟩,
        ⟨fun c => if c = 97 then 1 else setDoesntConsumeInput maximumTerminalStateIndex⟩]
    DFAStates.Valid dfaStates ∧
      (Machine.ofDFAStates dfaStates).feed [97, 97, 98] 1 = some (maximumTerminalStateIndex, 2) := by
  intro dfaStates
  have hvalid : DFAStates.Valid dfaStates := by
    refine ⟨List.cons_ne_nil _ _, fun dfaState hdfaState c => ?_, fun dfaState hdfaState c => ?_⟩
    all_goals
      simp only [dfaStates, List.mem_cons, List.not_mem_nil, or_false] at hdfaState
      rcases hdfaState with rfl | rfl <;> dsimp only <;> split <;> decide
  exact ⟨hvalid, (Machine.feed_ofDFAStates hvalid [97, 97, 98] 1).trans (by decide)⟩

/-- **The classes are the fewest**: two characters have the same offset in the compressed
table exactly when every state of the DFA sends them to the same state. -/
theorem Machine.charToOffsetMap_ofDFAStates_eq_iff {dfaStates : List DFAState}
    (hne : dfaStates ≠ [])
    (hrange : ∀ dfaState ∈ dfaStates, ∀ c, InStateIndexRange (dfaState.nextStateByChar c))
    (c d : UInt8) :
    (Machine.ofDFAStates dfaStates).charToOffsetMap c =
        (Machine.ofDFAStates dfaStates).charToOffsetMap d ↔
      ∀ dfaState ∈ dfaStates, dfaState.nextStateByChar c = dfaState.nextStateByChar d := by
  have hclassified := classified_sortStateTransitions dfaStates
  obtain ⟨hc, hcolumn_c⟩ := transitionsByChar_classify hrange c
  obtain ⟨hd, hcolumn_d⟩ := transitionsByChar_classify hrange d
  simp only [Machine.ofDFAStates]
  rw [Nat.mul_left_cancel_iff (List.length_pos_of_ne_nil hne), ← List.map_inj_left]
  change _ ↔ transitionsByChar dfaStates c = transitionsByChar dfaStates d
  constructor
  · intro hclass
    rw [← hcolumn_c, ← hcolumn_d, hclass]
  · -- the representatives of the two classes have the same bytes, and so are one
    intro hcolumn
    have hkey := congrArg columnBytes ((hcolumn_c.trans hcolumn).trans hcolumn_d.symm)
    rw [List.getD_eq_getElem _ _ hc, List.getD_eq_getElem _ _ hd] at hkey
    have hc' : _ < (List.map (fun c => columnBytes (transitionsByChar dfaStates c))
        (classify (sortStateTransitions (transposeDFAStates dfaStates))).2).length :=
      (List.length_map _).symm ▸ hc
    have hd' : _ < (List.map (fun c => columnBytes (transitionsByChar dfaStates c))
        (classify (sortStateTransitions (transposeDFAStates dfaStates))).2).length :=
      (List.length_map _).symm ▸ hd
    exact (@List.Nodup.getElem_inj_iff _ _ hclassified.nodup _ hc' _ hd').1
      (by simpa only [List.getElem_map] using hkey)

/-- In the DFA for `a+`, `b` and `c` lead alike from both states, and so share one class. -/
theorem charToOffsetMap_ofDFAStates_b_c :
    let dfaStates : List DFAState :=
      [⟨fun c => if c = 97 then 1 else setDoesntConsumeInput unmatchedCharacterTerminal⟩,
        ⟨fun c => if c = 97 then 1 else setDoesntConsumeInput maximumTerminalStateIndex⟩]
    dfaStates ≠ [] ∧
      (∀ dfaState ∈ dfaStates, ∀ c, InStateIndexRange (dfaState.nextStateByChar c)) ∧
      (Machine.ofDFAStates dfaStates).charToOffsetMap 98 =
        (Machine.ofDFAStates dfaStates).charToOffsetMap 99 := by
  intro dfaStates
  have hrange : ∀ dfaState ∈ dfaStates, ∀ c, InStateIndexRange (dfaState.nextStateByChar c) := by
    intro dfaState hdfaState c
    simp only [dfaStates, List.mem_cons, List.not_mem_nil, or_false] at hdfaState
    rcases hdfaState with rfl | rfl <;> dsimp only <;> split <;> decide
  refine ⟨List.cons_ne_nil _ _, hrange,
    (Machine.charToOffsetMap_ofDFAStates_eq_iff (List.cons_ne_nil _ _) hrange 98 99).2 ?_⟩
  intro dfaState hdfaState
  simp only [List.mem_cons, List.not_mem_nil, or_false] at hdfaState
  rcases hdfaState with rfl | rfl <;> rfl

/-- At most one class for each of the `256` characters: the representatives are distinct. -/
theorem Machine.numClasses_ofDFAStates_le (dfaStates : List DFAState) :
    (Machine.ofDFAStates dfaStates).numClasses ≤ 256 := by
  have hclassified := classified_sortStateTransitions dfaStates
  have hnodup := (hclassified.nodup.of_map _).map fun a b hab => UInt8.toNat_inj.1 hab
  have hsub : ((classify (sortStateTransitions (transposeDFAStates dfaStates))).2.map
      UInt8.toNat) ⊆ List.range 256 := fun x hx => by
    obtain ⟨c, -, rfl⟩ := List.mem_map.1 hx
    exact List.mem_range.2 c.toNat_lt
  simpa [Machine.ofDFAStates] using (hnodup.subperm hsub).length_le

/-- **The offsets fit the `U32` of `charToOffsetMap`**: with at most `2 ^ 15` states, the offset
`numStates * class` of every character is below `2 ^ 32`, which `U32(...)` keeps. -/
theorem Machine.charToOffsetMap_ofDFAStates_lt {dfaStates : List DFAState}
    (hlength : dfaStates.length ≤ 2 ^ 15) (c : UInt8) :
    (Machine.ofDFAStates dfaStates).charToOffsetMap c < 2 ^ 32 := by
  have hclassified := classified_sortStateTransitions dfaStates
  have hclass := hclassified.lt_length c (mem_map_sortStateTransitions dfaStates c)
  have hnumClasses := Machine.numClasses_ofDFAStates_le dfaStates
  simp only [Machine.ofDFAStates] at hnumClasses ⊢
  calc dfaStates.length * (classify (sortStateTransitions (transposeDFAStates dfaStates))).1 c
      ≤ 2 ^ 15 * 255 := Nat.mul_le_mul hlength (by omega)
    _ < 2 ^ 32 := by norm_num

end Wavm.NFA
