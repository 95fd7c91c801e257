import Mathlib
import Wavm.Lib.WhileLoop
import Wavm.Lib.ScanClosure
import Wavm.NFA.Builder
import Wavm.NFA.Machine
import Wavm.Inline.DenseStaticIntSet

set_option relaxedAutoImplicit false
set_option autoImplicit false

/-!
# The subset construction `convertToDFA`

`convertToDFA` of `src/Lib/NFA/NFA.cpp`, which `Machine(Builder*)` runs before it compresses
the DFA. Each DFA state stands for a list of NFA states, starting with `{0}`. The loop pops a
pending DFA state and closes its NFA states under ε-edges; it splits the closure into its
non-terminal states and its one terminal state (two are a fatal error); it numbers the states
that the non-terminal ones lead to (the local states) and gathers, for each character, the set
of local states it leads to, or the current terminal state where there are none. Each such set
that is a single terminal state is that terminal; any other is the DFA state of its list of NFA
states, created and queued if it is new. The DFA state's transitions are then filled in.

## Main definitions

* `Wavm.NFA.epsilonClosure`, `splitClosure`, `localStateIndexToStateIndexMap`,
  `charToLocalStateSet`, `nextLocalStateSet`, `uniqueLocalNextStateSets`, `nextStateSetOf`,
  `setDFAStateTransitions` — the steps of one round.
* `Wavm.NFA.ConvertError`, `ConvertState`, `processDFAState` — how the loop stops early, its
  variables, and one round.
* `Wavm.NFA.convertToDFA`, `Machine.ofBuilder` — the loop, and the constructor.

## Implementation notes

The `HashMap`s are association lists: `nfaStateSetToDFAStateMap` keyed by the list of NFA
states, `localStateSetToDFAStateIndexMap` by the local set, and `stateIndexToLocalStateIndexMap`
is the position in `localStateIndexToStateIndexMap`, whose inverse it is. `HashMap::set` is only
called on keys the map does not hold, and appends. The stack `pendingDFAStates` has its back
first. The loop over the characters that fills `charToLocalStateSet` is taken one character at
a time, which adds the same local states to each set in the same order.

A round stops the loop early in two ways (`ConvertError`). A closure with two terminal states
is the fatal error `Errors::fatalf`. A round that reads or writes outside a vector or a
`LocalStateSet` is undefined, since the assertions `numLocalStates <= 64` and
`dfaStates.size() <= internalMaxStates` are compiled out; the model stops there with
`undefined`. That is the case for a closure that holds an index past the builder's states
(`readsPastNFAStates`), for a local index of `64` or more, whose `add` writes past the one word
of a `LocalStateSet`, and for a DFA index that `(StateIndex)` has wrapped to a negative one,
which the next round pops and reads `dfaStateToNFAStateSetMap` before. The defaults of
`Builder.nfaState`, `idxOf` and `getD` are read only where the source does not read (a state
the round has checked, a key the map holds, a member of a local set).

The two inner loops that may not end on their own get fuel that always suffices: the closure
one round for each state it can hold, and the loop over the members of a local set one round
for each of its 64 bits. The outer loop gets one round for each list of NFA states that can be
registered, at most `(n + 1) ^ (n + 1)` for the `n` values of `Builder.stateIndexValues`; the
fuel is a bound, not a count of rounds.
-/

namespace Wavm.NFA

/-- `StateSet`: NFA states, in the order they were found. -/
abbrev StateSet := List ℤ

/-- `LocalStateSet`, `DenseStaticIntSet<StateIndex, 64>`. -/
abbrev LocalStateSet := DenseStaticIntSet 16 64

namespace Builder

/-- `builder->nfaStates[stateIndex]`, for a state of the builder; a round reads it only once it
has checked that it is one (`readsPastNFAStates`). -/
def nfaState (builder : Builder) (stateIndex : ℤ) : NFAState :=
  builder.nfaStates.getD stateIndex.toNat ⟨[], []⟩

/-- The ε-edges the closure loop follows from `scanState`: those of a non-terminal state. -/
def epsilonNextStatesOf (builder : Builder) (scanState : ℤ) : List ℤ :=
  if 0 ≤ scanState then (builder.nfaState scanState).epsilonNextStates else []

/-- The targets of all ε-edges. -/
def epsilonTargets (builder : Builder) : List ℤ :=
  builder.nfaStates.flatMap NFAState.epsilonNextStates

/-- The next states of all edges. -/
def edgeTargets (builder : Builder) : List ℤ :=
  builder.nfaStates.flatMap fun nfaState => nfaState.nextStateToPredicateMap.map Prod.fst

/-- The values a registered state set can hold: `0`, the targets of the edges, and the terminal
states the construction makes of them. -/
def stateIndexValues (builder : Builder) : List ℤ :=
  let values := 0 :: builder.edgeTargets ++ builder.epsilonTargets
  values ++ values.map setDoesntConsumeInput ++ [setDoesntConsumeInput unmatchedCharacterTerminal]

end Builder

/-- `vector[index]` for a `StateIndex`: the entry, or `none` where the index is negative or past
the end, which reads outside the vector. -/
def getAt? {α : Type} (vector : List α) (index : ℤ) : Option α :=
  if 0 ≤ index then vector[index.toNat]? else none

/-! ## One round -/

/-- The ε-closure loop
`for(scanIndex = 0; scanIndex < epsilonClosureCurrentStateSet.size(); ++scanIndex)`, with one
round for each state it can hold. -/
def epsilonClosure (builder : Builder) (currentStateSet : StateSet) : StateSet :=
  (ScanClosure.closure builder.epsilonNextStatesOf
    (currentStateSet.length + builder.epsilonTargets.length + 1) currentStateSet).getD
    currentStateSet

/-- The closure loop reads `builder->nfaStates[scanState]` for each non-terminal state the closure
holds, which is undefined for an index past the states. -/
def readsPastNFAStates (builder : Builder) (epsilonClosureCurrentStateSet : StateSet) : Bool :=
  epsilonClosureCurrentStateSet.any fun scanState =>
    decide (0 ≤ scanState) && decide ((builder.numStates : ℤ) ≤ scanState)

/-- The message of `Errors::fatalf` for a closure with two terminal states. -/
def multipleTerminalStatesMessage : String :=
  "NFA has multiple possible terminal states for the same input"

/-- The loop over the closure that collects `nonTerminalCurrentStateSet` and the terminal state
(`hasCurrentTerminalState`); a second terminal state is the fatal error. -/
def splitClosure : StateSet → StateSet → Option ℤ → Except String (StateSet × Option ℤ)
  | [], nonTerminalCurrentStateSet, terminalState => .ok (nonTerminalCurrentStateSet, terminalState)
  | stateIndex :: rest, nonTerminalCurrentStateSet, terminalState =>
    if 0 ≤ stateIndex then
      splitClosure rest (ScanClosure.addUnique nonTerminalCurrentStateSet stateIndex) terminalState
    else
      match terminalState with
      | some _ => .error multipleTerminalStatesMessage
      | none => splitClosure rest nonTerminalCurrentStateSet (some stateIndex)

/-- `currentTerminalState`: the terminal state of the closure with
`edgeDoesntConsumeInputFlag`, or `unmatchedCharacterTerminal | edgeDoesntConsumeInputFlag`. -/
def currentTerminalStateOf (terminalState : Option ℤ) : ℤ :=
  setDoesntConsumeInput (terminalState.getD unmatchedCharacterTerminal)

/-- `localStateIndexToStateIndexMap`: the next state of each edge of the non-terminal states,
in the order the loops find them, then `currentTerminalState`. -/
def localStateIndexToStateIndexMap (builder : Builder) (nonTerminalCurrentStateSet : StateSet)
    (currentTerminalState : ℤ) : List ℤ :=
  ScanClosure.addUnique
    (nonTerminalCurrentStateSet.foldl (fun localStates stateIndex =>
      (builder.nfaState stateIndex).nextStateToPredicateMap.foldl
        (fun localStates transition => ScanClosure.addUnique localStates transition.1) localStates)
      [])
    currentTerminalState

/-- `stateIndexToLocalStateIndexMap[stateIndex]`: the `(StateIndex)` of the position in
`localStateIndexToStateIndexMap`, as the bits of the `I16`. -/
def localStateIndex (localStates : List ℤ) (stateIndex : ℤ) : BitVec 16 :=
  BitVec.ofNat 16 (localStates.idxOf stateIndex)

/-- The edges of the non-terminal states, in the order the loops of a round visit them. -/
def edgesOf (builder : Builder) (nonTerminalCurrentStateSet : StateSet) : List (ℤ × CharSet) :=
  nonTerminalCurrentStateSet.flatMap fun stateIndex =>
    (builder.nfaState stateIndex).nextStateToPredicateMap

/-- `charToLocalStateSet[c]` after the loop over the edges of the non-terminal states: the local
states of the edges on `c`, or `none` where one of their `add`s fails. -/
def charToLocalStateSet (builder : Builder) (nonTerminalCurrentStateSet : StateSet)
    (localStates : List ℤ) (c : UInt8) : Option LocalStateSet :=
  (edgesOf builder nonTerminalCurrentStateSet).foldlM (fun set transition =>
      if transition.2.contains c then set.add (localStateIndex localStates transition.1)
      else some set)
    DenseStaticIntSet.empty

/-- `charToLocalStateSet[c]` once a character with no edge leads to
`currentTerminalStateLocalSet`, the set of the current terminal state; `none` where an `add` of
either fails. -/
def nextLocalStateSet (builder : Builder) (nonTerminalCurrentStateSet : StateSet)
    (localStates : List ℤ) (currentTerminalState : ℤ) (c : UInt8) : Option LocalStateSet := do
  let set ← charToLocalStateSet builder nonTerminalCurrentStateSet localStates c
  let currentTerminalStateLocalSet ←
    DenseStaticIntSet.singleton (localStateIndex localStates currentTerminalState)
  pure (if set.isEmpty then currentTerminalStateLocalSet else set)

/-- A loop `for(charIndex = 0; charIndex < 256; ++charIndex)` whose rounds may fail: the result
of each character, or `none` where one of them fails. -/
def forEachChar {α : Type} (f : UInt8 → Option α) : Option (UInt8 → α) :=
  if h : ∀ c, (f c).isSome then some fun c => (f c).get (h c) else none

/-- `uniqueLocalNextStateSets`: the non-empty sets of the characters, each once, in the order of
the characters. -/
def uniqueLocalNextStateSets (charToLocalStateSet : UInt8 → LocalStateSet) : List LocalStateSet :=
  (List.range 256).foldl (fun sets charIndex =>
    let localStateSet := charToLocalStateSet (UInt8.ofNat charIndex)
    if !localStateSet.isEmpty then ScanClosure.addUnique sets localStateSet else sets) []

/-- The test of the loop over a local set's members: `getSmallestMember` is a member. -/
def residualCond (state : LocalStateSet × StateSet) : Bool :=
  state.1.getSmallestMember.toNat != 64

/-- One round: the state of the smallest local index, `localStateIndexToStateIndexMap.at`, and
`residualLocalStateSet.remove`. -/
def residualBody (localStates : List ℤ) (state : LocalStateSet × StateSet) :
    LocalStateSet × StateSet :=
  let localStateIndex := state.1.getSmallestMember
  (state.1.remove localStateIndex, state.2 ++ [localStates.getD localStateIndex.toNat 0])

/-- `nextStateSet`: the states of a local set, by the loop over its members, with one round
for each of its bits. -/
def nextStateSetOf (localStates : List ℤ) (localNextStateSet : LocalStateSet) : StateSet :=
  ((WhileLoop.run residualCond (residualBody localStates) 65 (localNextStateSet, [])).map
    Prod.snd).getD []

/-- How the loop of `convertToDFA` stops early: the fatal error of `Errors::fatalf`, with its
message, or a round whose next step is undefined. -/
inductive ConvertError where
  | fatal (message : String)
  | undefined
  deriving DecidableEq, Repr

/-- The variables of the loop of `convertToDFA`, and how it stopped early, if it did. -/
structure ConvertState where
  dfaStates : List DFAState
  nfaStateSetToDFAStateMap : List (StateSet × ℤ)
  dfaStateToNFAStateSetMap : List StateSet
  pendingDFAStates : List ℤ
  failure : Option ConvertError

/-- The loop stops early with `error`; the variables stay as they are. -/
def ConvertState.fail (state : ConvertState) (error : ConvertError) : ConvertState :=
  { state with failure := some error }

/-- One round of the loop over `uniqueLocalNextStateSets`: the DFA state a local set leads to,
its one state if that is terminal, else the DFA state of its state set, created and queued
when there is none yet. -/
def addNextDFAState (localStates : List ℤ) (acc : ConvertState × List (LocalStateSet × ℤ))
    (localNextStateSet : LocalStateSet) : ConvertState × List (LocalStateSet × ℤ) :=
  let nextStateSet := nextStateSetOf localStates localNextStateSet
  if nextStateSet.length = 1 ∧ nextStateSet.headD 0 < 0 then
    (acc.1, acc.2 ++ [(localNextStateSet, nextStateSet.headD 0)])
  else
    match acc.1.nfaStateSetToDFAStateMap.lookup nextStateSet with
    | some nextDFAState => (acc.1, acc.2 ++ [(localNextStateSet, nextDFAState)])
    | none =>
      let nextDFAStateIndex := toStateIndex acc.1.dfaStates.length
      ({ acc.1 with
          dfaStates := acc.1.dfaStates ++ [DFAState.new]
          nfaStateSetToDFAStateMap :=
            acc.1.nfaStateSetToDFAStateMap ++ [(nextStateSet, nextDFAStateIndex)]
          dfaStateToNFAStateSetMap := acc.1.dfaStateToNFAStateSetMap ++ [nextStateSet]
          pendingDFAStates := nextDFAStateIndex :: acc.1.pendingDFAStates },
        acc.2 ++ [(localNextStateSet, nextDFAStateIndex)])

/-- The loop that sets up the DFA transition map: each character whose set is a key of
`localStateSetToDFAStateIndexMap` leads to its DFA state. -/
def setTransitions (charToLocalStateSet : UInt8 → LocalStateSet) (dfaState : DFAState)
    (localStateSetToDFAStateIndexMap : List (LocalStateSet × ℤ)) : DFAState :=
  localStateSetToDFAStateIndexMap.foldl (fun dfaState entry =>
    ⟨fun c => if charToLocalStateSet c = entry.1 then entry.2 else dfaState.nextStateByChar c⟩)
    dfaState

/-- The end of a round: the transitions of
`dfaStates[nfaStateSetToDFAStateMap[currentStateSet]]`, after the fold over the local sets has
given `result`. A key the map lacks, or an index outside `dfaStates`, is undefined. -/
def setDFAStateTransitions (charToLocal : UInt8 → LocalStateSet) (currentStateSet : StateSet)
    (result : ConvertState × List (LocalStateSet × ℤ)) : ConvertState :=
  match result.1.nfaStateSetToDFAStateMap.lookup currentStateSet with
  | none => result.1.fail .undefined
  | some dfaStateIndex =>
    match getAt? result.1.dfaStates dfaStateIndex with
    | none => result.1.fail .undefined
    | some dfaState =>
      { result.1 with
          dfaStates := result.1.dfaStates.set dfaStateIndex.toNat
            (setTransitions charToLocal dfaState result.2) }

/-- One round of the loop of `convertToDFA`, for the DFA state `currentDFAStateIndex` popped
from `pendingDFAStates`. -/
def processDFAState (builder : Builder) (state : ConvertState) (currentDFAStateIndex : ℤ) :
    ConvertState :=
  match getAt? state.dfaStateToNFAStateSetMap currentDFAStateIndex with
  -- an index that `(StateIndex)` wrapped to a negative one
  | none => state.fail .undefined
  | some currentStateSet =>
    let epsilonClosureCurrentStateSet := epsilonClosure builder currentStateSet
    if readsPastNFAStates builder epsilonClosureCurrentStateSet then state.fail .undefined
    else
      match splitClosure epsilonClosureCurrentStateSet [] none with
      | .error message => state.fail (.fatal message)
      | .ok (nonTerminalCurrentStateSet, terminalState) =>
        let currentTerminalState := currentTerminalStateOf terminalState
        let localStates :=
          localStateIndexToStateIndexMap builder nonTerminalCurrentStateSet currentTerminalState
        match forEachChar
            (nextLocalStateSet builder nonTerminalCurrentStateSet localStates currentTerminalState) with
        -- an `add` of a local index past the `64` bits of a `LocalStateSet`
        | none => state.fail .undefined
        | some charToLocal =>
          setDFAStateTransitions charToLocal currentStateSet
            ((uniqueLocalNextStateSets charToLocal).foldl (addNextDFAState localStates) (state, []))

/-! ## The loop -/

/-- `while(pendingDFAStates.size())`, until the loop stops early. -/
def convertCond (state : ConvertState) : Bool :=
  !state.pendingDFAStates.isEmpty && state.failure.isNone

/-- One round: pop the back of `pendingDFAStates` and process it. -/
def convertBody (builder : Builder) (state : ConvertState) : ConvertState :=
  match state.pendingDFAStates with
  | [] => state
  | currentDFAStateIndex :: pendingDFAStates =>
    processDFAState builder { state with pendingDFAStates } currentDFAStateIndex

/-- The variables before the loop: the DFA state `0` for the state set `{0}`, pending. -/
def ConvertState.init : ConvertState := ⟨[DFAState.new], [([0], 0)], [[0]], [0], none⟩

/-- Fuel for the loop: one round for each list of `Builder.stateIndexValues` without repeats,
and one to end. -/
def convertFuel (builder : Builder) : ℕ :=
  (builder.stateIndexValues.length + 1) ^ (builder.stateIndexValues.length + 1) + 1

/-- `convertToDFA`: the DFA states, or how the loop stopped early. -/
def convertToDFA (builder : Builder) : Option (Except ConvertError (List DFAState)) :=
  (WhileLoop.run convertCond (convertBody builder) (convertFuel builder) ConvertState.init).map
    fun state =>
      match state.failure with
      | some error => .error error
      | none => .ok state.dfaStates

/-- `Machine(Builder*)`: `convertToDFA`, then the compression. -/
def Machine.ofBuilder (builder : Builder) : Option (Except ConvertError Machine) :=
  (convertToDFA builder).map fun result => result.map Machine.ofDFAStates

end Wavm.NFA
