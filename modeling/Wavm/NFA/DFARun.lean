import Mathlib
import Wavm.NFA.DFASpec
import Wavm.Lib.FiniteLists

set_option relaxedAutoImplicit false
set_option autoImplicit false

/-!
# The loop of `convertToDFA`: its maps, its rounds, its end

The registry of `convertToDFA` is the list `dfaStateToNFAStateSetMap` of state sets, each once;
`nfaStateSetToDFAStateMap` pairs each with its position, and `dfaStates` has one DFA state for
each. A round registers the state sets its characters lead to that are new, at the end, queues
their DFA states, and sets the transitions of the DFA state it popped.

## Main definitions

* `Wavm.NFA.Registered` — what the loop keeps of its three maps.
* `Wavm.NFA.dfaTarget` — the DFA state a state set leads to, among the registered sets.
* `Wavm.NFA.Registers` — what the fold of `addNextDFAState` over local sets has done.
* `Wavm.NFA.Bounded`, `Wavm.NFA.Outcome` — what the rounds keep, for the loop to end, and for
  how it ends.

## Main results

* `Wavm.NFA.Registered.lookup_eq` — `nfaStateSetToDFAStateMap.get` is the position.
* `Wavm.NFA.Registers.foldl_addNextDFAState` — the fold registers each new state set once, at
  the end, and pairs each local set with the DFA state of its state set.
* `Wavm.NFA.processDFAState_cases` — a round stops early, undefined or with the fatal error, or
  is that fold, then the transitions of its state.
* `Wavm.NFA.convertToDFA_ends` — the loop ends on every builder, with the fatal error, an
  undefined round, or a DFA of at most `2 ^ 15` states.
* `Wavm.NFA.charToOffsetMap_ofBuilder_lt` — so the machine of a builder keeps its offsets in
  `U32`s.

## Design

The loop ends because each round pops a pending state and pushes only the states it registers,
and the registered sets are distinct lists without repeats of `Builder.stateIndexValues`, so at
most `(n + 1) ^ (n + 1)` of them exist (`FiniteLists.length_le_of_nodup`): the measure is the
room left for sets plus the pending states. How it ends is the invariant `Outcome`: a round that
registers the `2 ^ 15`-th set queues a wrapped, negative index, and the queue is a stack, so the
run cannot stop without failing before a round pops it.
-/

namespace Wavm.NFA

/-! ## The registry -/

/-- What the loop keeps of its maps: one DFA state for each registered state set, each set
registered once, and `nfaStateSetToDFAStateMap` pairing each with its `(StateIndex)` position. -/
structure Registered (state : ConvertState) : Prop where
  length_eq : state.dfaStates.length = state.dfaStateToNFAStateSetMap.length
  map_eq : state.nfaStateSetToDFAStateMap =
    state.dfaStateToNFAStateSetMap.zipIdx.map fun entry => (entry.1, toStateIndex entry.2)
  nodup : state.dfaStateToNFAStateSetMap.Nodup

theorem lookup_map_zipIdx {α β : Type} [BEq α] [LawfulBEq α] (f : ℕ → β) (key : α) :
    ∀ (l : List α) (n : ℕ), ((l.zipIdx n).map fun entry => (entry.1, f entry.2)).lookup key =
      if key ∈ l then some (f (n + l.idxOf key)) else none
  | [], _ => rfl
  | a :: l, n => by
    rw [List.zipIdx_cons, List.map_cons, List.lookup_cons, List.idxOf_cons]
    by_cases hkey : key = a
    · subst hkey
      simp
    · have hbeq : (key == a) = false := beq_eq_false_iff_ne.2 hkey
      have hbeq' : (a == key) = false := beq_eq_false_iff_ne.2 (Ne.symm hkey)
      simp only [hbeq, hbeq', lookup_map_zipIdx f key l (n + 1), List.mem_cons, hkey, false_or,
        cond_false]
      split_ifs <;> simp only [Option.some.injEq]
      congr 1
      omega

/-- **`nfaStateSetToDFAStateMap.get`**: the position of a registered set, and nothing for
another. -/
theorem Registered.lookup_eq {state : ConvertState} (h : Registered state) (stateSet : StateSet) :
    state.nfaStateSetToDFAStateMap.lookup stateSet =
      if stateSet ∈ state.dfaStateToNFAStateSetMap then
        some (toStateIndex (state.dfaStateToNFAStateSetMap.idxOf stateSet))
      else none := by
  rw [h.map_eq, lookup_map_zipIdx (fun index => toStateIndex index), Nat.zero_add]

theorem registered_init : Registered ConvertState.init :=
  ⟨rfl, by decide, List.nodup_singleton _⟩

/-- The queue is no part of the registration: popping it keeps `Registered`. -/
theorem Registered.withPending {state : ConvertState} (h : Registered state)
    (pendingDFAStates : List ℤ) : Registered { state with pendingDFAStates } :=
  ⟨h.length_eq, h.map_eq, h.nodup⟩

/-! ## The DFA state of a state set -/

/-- A state set of one terminal state, which a character leads to as that terminal. -/
def TerminalSet (nextStateSet : StateSet) : Prop :=
  nextStateSet.length = 1 ∧ nextStateSet.headD 0 < 0

instance : DecidablePred TerminalSet := fun _ => instDecidableAnd

/-- The DFA state a state set leads to: its one state where that is terminal, else the
`(StateIndex)` position of the set among the registered sets. -/
def dfaTarget (dfaStateToNFAStateSetMap : List StateSet) (nextStateSet : StateSet) : ℤ :=
  if TerminalSet nextStateSet then nextStateSet.headD 0
  else toStateIndex (dfaStateToNFAStateSetMap.idxOf nextStateSet)

theorem dfaTarget_of_terminalSet {nextStateSet : StateSet} (h : TerminalSet nextStateSet)
    (dfaStateToNFAStateSetMap : List StateSet) :
    dfaTarget dfaStateToNFAStateSetMap nextStateSet = nextStateSet.headD 0 := by
  rw [dfaTarget, if_pos h]

theorem dfaTarget_of_not_terminalSet {nextStateSet : StateSet} (h : ¬ TerminalSet nextStateSet)
    (dfaStateToNFAStateSetMap : List StateSet) :
    dfaTarget dfaStateToNFAStateSetMap nextStateSet =
      toStateIndex (dfaStateToNFAStateSetMap.idxOf nextStateSet) := by
  rw [dfaTarget, if_neg h]

/-- Registering more sets leaves the DFA state of a terminal or registered set. -/
theorem dfaTarget_append {dfaStateToNFAStateSetMap : List StateSet} {nextStateSet : StateSet}
    (h : TerminalSet nextStateSet ∨ nextStateSet ∈ dfaStateToNFAStateSetMap) (more : List StateSet) :
    dfaTarget (dfaStateToNFAStateSetMap ++ more) nextStateSet =
      dfaTarget dfaStateToNFAStateSetMap nextStateSet := by
  by_cases hterminal : TerminalSet nextStateSet
  · rw [dfaTarget_of_terminalSet hterminal, dfaTarget_of_terminalSet hterminal]
  · rw [dfaTarget_of_not_terminalSet hterminal, dfaTarget_of_not_terminalSet hterminal,
      List.idxOf_append_of_mem (h.resolve_left hterminal)]

/-! ## The fold over the local sets -/

section Registers

variable (localStates : List ℤ)

/-- What the fold of `addNextDFAState` over the local sets `done` has done from `state`: the
registry kept, the new sets registered at the end with their DFA states queued in order, each
local set paired with the DFA state of its state set, and each new set the state set of one of
them. -/
structure Registers (state : ConvertState) (done : List LocalStateSet)
    (result : ConvertState × List (LocalStateSet × ℤ)) : Prop where
  registered : Registered result.1
  sets_prefix : state.dfaStateToNFAStateSetMap <+: result.1.dfaStateToNFAStateSetMap
  dfaStates_prefix : state.dfaStates <+: result.1.dfaStates
  pending_eq : result.1.pendingDFAStates =
    ((List.range' state.dfaStateToNFAStateSetMap.length
      (result.1.dfaStateToNFAStateSetMap.length - state.dfaStateToNFAStateSetMap.length)).map
        fun index : ℕ => toStateIndex index).reverse ++ state.pendingDFAStates
  failure_eq : result.1.failure = state.failure
  entries_eq : result.2 =
    done.map fun set => (set, dfaTarget result.1.dfaStateToNFAStateSetMap (nextStateSetOf localStates set))
  covered : ∀ set ∈ done, ¬ TerminalSet (nextStateSetOf localStates set) →
    nextStateSetOf localStates set ∈ result.1.dfaStateToNFAStateSetMap
  new : ∀ stateSet ∈ result.1.dfaStateToNFAStateSetMap,
    stateSet ∈ state.dfaStateToNFAStateSetMap ∨
      ∃ set ∈ done, stateSet = nextStateSetOf localStates set ∧
        ¬ TerminalSet (nextStateSetOf localStates set)

variable {localStates}

theorem registers_nil {state : ConvertState} (h : Registered state) :
    Registers localStates state [] (state, []) :=
  ⟨h, List.prefix_refl _, List.prefix_refl _, by simp, rfl, rfl, by simp,
    fun _ hstateSet => Or.inl hstateSet⟩

variable {state : ConvertState} {done : List LocalStateSet}
  {result : ConvertState × List (LocalStateSet × ℤ)}

/-- A local set whose state set is terminal or registered adds its entry and nothing else. -/
theorem Registers.snoc_of_covered (h : Registers localStates state done result)
    {set : LocalStateSet}
    (hcovered : TerminalSet (nextStateSetOf localStates set) ∨
      nextStateSetOf localStates set ∈ result.1.dfaStateToNFAStateSetMap) :
    Registers localStates state (done ++ [set])
      (result.1, result.2 ++
        [(set, dfaTarget result.1.dfaStateToNFAStateSetMap (nextStateSetOf localStates set))]) := by
  refine ⟨h.registered, h.sets_prefix, h.dfaStates_prefix, h.pending_eq, h.failure_eq,
    by rw [h.entries_eq, List.map_append, List.map_singleton], fun set' hset' hterminal => ?_,
    fun stateSet hstateSet => ?_⟩
  · rcases List.mem_append.1 hset' with hset' | hset'
    · exact h.covered set' hset' hterminal
    · rw [List.mem_singleton.1 hset']
      exact hcovered.resolve_left (List.mem_singleton.1 hset' ▸ hterminal)
  · rcases h.new stateSet hstateSet with hold | ⟨set', hset', heq, hterminal⟩
    · exact Or.inl hold
    · exact Or.inr ⟨set', List.mem_append_left _ hset', heq, hterminal⟩

/-- A local set whose state set is new registers it at the end and queues its DFA state. -/
theorem Registers.snoc_of_new (h : Registers localStates state done result) {set : LocalStateSet}
    (hterminal : ¬ TerminalSet (nextStateSetOf localStates set))
    (hnew : nextStateSetOf localStates set ∉ result.1.dfaStateToNFAStateSetMap) :
    Registers localStates state (done ++ [set])
      ({ result.1 with
          dfaStates := result.1.dfaStates ++ [DFAState.new]
          nfaStateSetToDFAStateMap := result.1.nfaStateSetToDFAStateMap ++
            [(nextStateSetOf localStates set, toStateIndex result.1.dfaStates.length)]
          dfaStateToNFAStateSetMap :=
            result.1.dfaStateToNFAStateSetMap ++ [nextStateSetOf localStates set]
          pendingDFAStates :=
            toStateIndex result.1.dfaStates.length :: result.1.pendingDFAStates },
        result.2 ++ [(set, toStateIndex result.1.dfaStates.length)]) := by
  have hreg := h.registered
  have hlength := hreg.length_eq
  have hle := h.sets_prefix.length_le
  -- the sets registered before keep their DFA states, and the new one is at the end
  have htargets : ∀ set' ∈ done,
      dfaTarget (result.1.dfaStateToNFAStateSetMap ++ [nextStateSetOf localStates set])
        (nextStateSetOf localStates set') =
      dfaTarget result.1.dfaStateToNFAStateSetMap (nextStateSetOf localStates set') :=
    fun set' hset' => dfaTarget_append (or_iff_not_imp_left.2 (h.covered set' hset')) _
  have hlast : dfaTarget (result.1.dfaStateToNFAStateSetMap ++ [nextStateSetOf localStates set])
      (nextStateSetOf localStates set) = toStateIndex result.1.dfaStates.length := by
    rw [dfaTarget_of_not_terminalSet hterminal, List.idxOf_append_of_notMem hnew, hlength]
    simp
  refine ⟨⟨by simp [hlength], ?_, hreg.nodup.append (List.nodup_singleton _) (by simpa using hnew)⟩,
    h.sets_prefix.trans (List.prefix_append _ _), h.dfaStates_prefix.trans (List.prefix_append _ _),
    ?_, h.failure_eq, ?_, fun set' hset' hterminal' => ?_, fun stateSet hstateSet => ?_⟩
  · rw [hreg.map_eq, List.zipIdx_append, List.map_append, hlength]
    simp
  · simp only [List.length_append, List.length_singleton, h.pending_eq]
    rw [Nat.sub_add_comm hle, List.range'_concat, List.map_append, List.reverse_append,
      List.map_singleton, List.reverse_singleton, List.singleton_append, List.cons_append,
      Nat.one_mul, Nat.add_sub_cancel' hle, hlength]
  · dsimp only
    rw [h.entries_eq, List.map_append, List.map_singleton, hlast]
    exact congrArg (· ++ _) (List.map_congr_left fun set' hset' => by rw [htargets set' hset'])
  · rcases List.mem_append.1 hset' with hset' | hset'
    · exact List.mem_append_left _ (h.covered set' hset' hterminal')
    · rw [List.mem_singleton.1 hset']
      exact List.mem_append_right _ (List.mem_singleton_self _)
  · rcases List.mem_append.1 hstateSet with hold | hstateSet
    · rcases h.new stateSet hold with hold | ⟨set', hset', heq, hterminal'⟩
      · exact Or.inl hold
      · exact Or.inr ⟨set', List.mem_append_left _ hset', heq, hterminal'⟩
    · exact Or.inr ⟨set, List.mem_append_right _ (List.mem_singleton_self _),
        List.mem_singleton.1 hstateSet, hterminal⟩

/-- **One round of the fold**: a terminal set, a registered set and a new set each keep what the
fold has done. -/
theorem Registers.addNextDFAState (h : Registers localStates state done result)
    (set : LocalStateSet) :
    Registers localStates state (done ++ [set]) (NFA.addNextDFAState localStates result set) := by
  unfold NFA.addNextDFAState
  dsimp only
  -- the three cases of the source: terminal, registered, new
  by_cases hterminal : (nextStateSetOf localStates set).length = 1 ∧
      (nextStateSetOf localStates set).headD 0 < 0
  · rw [if_pos hterminal]
    have := h.snoc_of_covered (Or.inl hterminal)
    rwa [dfaTarget_of_terminalSet hterminal] at this
  · rw [if_neg hterminal, h.registered.lookup_eq]
    split_ifs with hmem
    · have := h.snoc_of_covered (Or.inr hmem)
      rwa [dfaTarget_of_not_terminalSet hterminal] at this
    · exact h.snoc_of_new hterminal hmem

/-- **The fold over the local sets** keeps what it has done, set after set. -/
theorem Registers.foldl_addNextDFAState (h : Registers localStates state done result)
    (sets : List LocalStateSet) :
    Registers localStates state (done ++ sets)
      (sets.foldl (NFA.addNextDFAState localStates) result) := by
  induction sets generalizing done result with
  | nil => simpa using h
  | cons set sets ih =>
    rw [List.foldl_cons, ← List.singleton_append, ← List.append_assoc]
    exact ih (h.addNextDFAState set)

end Registers

/-! ## A round -/

/-- What the end of a round leaves of the variables: the registry, the queue and the number of
DFA states; the transitions of the DFA states and `failure` may change. -/
structure SameRegistry (state state' : ConvertState) : Prop where
  length_eq : state'.dfaStates.length = state.dfaStates.length
  map_eq : state'.nfaStateSetToDFAStateMap = state.nfaStateSetToDFAStateMap
  sets_eq : state'.dfaStateToNFAStateSetMap = state.dfaStateToNFAStateSetMap
  pending_eq : state'.pendingDFAStates = state.pendingDFAStates

theorem sameRegistry_fail (state : ConvertState) (error : ConvertError) :
    SameRegistry state (state.fail error) :=
  ⟨rfl, rfl, rfl, rfl⟩

theorem Registered.of_sameRegistry {state state' : ConvertState} (h : Registered state)
    (hsame : SameRegistry state state') : Registered state' :=
  ⟨by rw [hsame.length_eq, hsame.sets_eq]; exact h.length_eq,
    by rw [hsame.map_eq, hsame.sets_eq]; exact h.map_eq, by rw [hsame.sets_eq]; exact h.nodup⟩

/-- Setting the transitions of the current DFA state leaves the registry. -/
theorem sameRegistry_setDFAStateTransitions (charToLocal : UInt8 → LocalStateSet)
    (currentStateSet : StateSet) (result : ConvertState × List (LocalStateSet × ℤ)) :
    SameRegistry result.1 (setDFAStateTransitions charToLocal currentStateSet result) := by
  unfold setDFAStateTransitions
  split
  · exact sameRegistry_fail _ _
  · split
    · exact sameRegistry_fail _ _
    · exact ⟨List.length_set .., rfl, rfl, rfl⟩

theorem setDFAStateTransitions_failure (charToLocal : UInt8 → LocalStateSet)
    (currentStateSet : StateSet) (result : ConvertState × List (LocalStateSet × ℤ)) :
    (setDFAStateTransitions charToLocal currentStateSet result).failure = result.1.failure ∨
      (setDFAStateTransitions charToLocal currentStateSet result).failure = some .undefined := by
  unfold setDFAStateTransitions
  split
  · exact Or.inr rfl
  · split
    · exact Or.inr rfl
    · exact Or.inl rfl

/-- The end of a round that finds the DFA state of its set sets that state's transitions. -/
theorem setDFAStateTransitions_eq {charToLocal : UInt8 → LocalStateSet} {currentStateSet : StateSet}
    {result : ConvertState × List (LocalStateSet × ℤ)} {dfaStateIndex : ℤ} {dfaState : DFAState}
    (hlookup : result.1.nfaStateSetToDFAStateMap.lookup currentStateSet = some dfaStateIndex)
    (hget : getAt? result.1.dfaStates dfaStateIndex = some dfaState) :
    setDFAStateTransitions charToLocal currentStateSet result =
      { result.1 with
          dfaStates := result.1.dfaStates.set dfaStateIndex.toNat
            (setTransitions charToLocal dfaState result.2) } := by
  simp only [setDFAStateTransitions, hlookup, hget]

section Round

variable {builder : Builder} {state : ConvertState} {currentDFAStateIndex : ℤ}

/-- **A round that goes through** is the fold of `addNextDFAState` over the unique local sets,
then the transitions of the DFA state of the current set. -/
theorem processDFAState_of_ok {currentStateSet nonTerminalCurrentStateSet : StateSet}
    {terminalState : Option ℤ} {charToLocal : UInt8 → LocalStateSet}
    (hget : getAt? state.dfaStateToNFAStateSetMap currentDFAStateIndex = some currentStateSet)
    (hreads : readsPastNFAStates builder (epsilonClosure builder currentStateSet) = false)
    (hsplit : splitClosure (epsilonClosure builder currentStateSet) [] none =
      .ok (nonTerminalCurrentStateSet, terminalState))
    (hchar : forEachChar (nextLocalStateSet builder nonTerminalCurrentStateSet
      (localStateIndexToStateIndexMap builder nonTerminalCurrentStateSet
        (currentTerminalStateOf terminalState))
      (currentTerminalStateOf terminalState)) = some charToLocal) :
    processDFAState builder state currentDFAStateIndex =
      setDFAStateTransitions charToLocal currentStateSet
        ((uniqueLocalNextStateSets charToLocal).foldl
          (addNextDFAState (localStateIndexToStateIndexMap builder nonTerminalCurrentStateSet
            (currentTerminalStateOf terminalState))) (state, [])) := by
  unfold processDFAState
  rw [hget]
  dsimp only
  rw [hreads, if_neg Bool.false_ne_true, hsplit]
  dsimp only
  rw [hchar]

/-- **The two ways a round goes**: it stops before the fold over the local sets, undefined or
with the fatal error of the split of a registered set's closure, or it runs the fold and then
sets the transitions of its DFA state. -/
theorem processDFAState_cases (hreg : Registered state) :
    (∃ error, (error = .undefined ∨ ∃ currentStateSet,
          getAt? state.dfaStateToNFAStateSetMap currentDFAStateIndex = some currentStateSet ∧
          splitClosure (epsilonClosure builder currentStateSet) [] none =
            .error multipleTerminalStatesMessage ∧
          error = .fatal multipleTerminalStatesMessage) ∧
        processDFAState builder state currentDFAStateIndex = state.fail error) ∨
      ∃ (currentStateSet nonTerminalCurrentStateSet : StateSet) (terminalState : Option ℤ)
        (charToLocal : UInt8 → LocalStateSet) (result : ConvertState × List (LocalStateSet × ℤ)),
        getAt? state.dfaStateToNFAStateSetMap currentDFAStateIndex = some currentStateSet ∧
        readsPastNFAStates builder (epsilonClosure builder currentStateSet) = false ∧
        splitClosure (epsilonClosure builder currentStateSet) [] none =
          .ok (nonTerminalCurrentStateSet, terminalState) ∧
        forEachChar (nextLocalStateSet builder nonTerminalCurrentStateSet
          (localStateIndexToStateIndexMap builder nonTerminalCurrentStateSet
            (currentTerminalStateOf terminalState))
          (currentTerminalStateOf terminalState)) = some charToLocal ∧
        Registers (localStateIndexToStateIndexMap builder nonTerminalCurrentStateSet
            (currentTerminalStateOf terminalState)) state (uniqueLocalNextStateSets charToLocal)
          result ∧
        processDFAState builder state currentDFAStateIndex =
          setDFAStateTransitions charToLocal currentStateSet result := by
  unfold processDFAState
  split
  · exact Or.inl ⟨_, Or.inl rfl, rfl⟩
  · rename_i currentStateSet hget
    dsimp only
    split_ifs with hreads
    · exact Or.inl ⟨_, Or.inl rfl, rfl⟩
    · split
      · rename_i message hsplit
        obtain rfl := eq_multipleTerminalStatesMessage_of_splitClosure hsplit
        exact Or.inl ⟨_, Or.inr ⟨currentStateSet, hget, hsplit, rfl⟩, rfl⟩
      · rename_i nonTerminalCurrentStateSet terminalState hsplit
        split
        · exact Or.inl ⟨_, Or.inl rfl, rfl⟩
        · rename_i charToLocal hchar
          have hfold := (@registers_nil (localStateIndexToStateIndexMap builder
            nonTerminalCurrentStateSet (currentTerminalStateOf terminalState)) state
            hreg).foldl_addNextDFAState (uniqueLocalNextStateSets charToLocal)
          rw [List.nil_append] at hfold
          exact Or.inr ⟨currentStateSet, nonTerminalCurrentStateSet, terminalState, charToLocal, _,
            hget, Bool.eq_false_iff.2 hreads, hsplit, hchar, hfold, rfl⟩

/-- A round leaves the sets registered before it, and adds to the queue one DFA state for each
set it registers. -/
theorem processDFAState_sets (hreg : Registered state) :
    Registered (processDFAState builder state currentDFAStateIndex) ∧
      state.dfaStateToNFAStateSetMap <+:
        (processDFAState builder state currentDFAStateIndex).dfaStateToNFAStateSetMap ∧
      (processDFAState builder state currentDFAStateIndex).pendingDFAStates.length +
          state.dfaStateToNFAStateSetMap.length =
        state.pendingDFAStates.length +
          (processDFAState builder state currentDFAStateIndex).dfaStateToNFAStateSetMap.length := by
  rcases processDFAState_cases hreg with
    ⟨error, -, heq⟩ | ⟨currentStateSet, _, _, charToLocal, result, -, -, -, -, hresult, heq⟩
  · rw [heq]
    exact ⟨hreg.of_sameRegistry (sameRegistry_fail _ _), List.prefix_refl _, rfl⟩
  · have hsame := sameRegistry_setDFAStateTransitions charToLocal currentStateSet result
    have hle := hresult.sets_prefix.length_le
    rw [heq, hsame.sets_eq, hsame.pending_eq]
    refine ⟨hresult.registered.of_sameRegistry hsame, hresult.sets_prefix, ?_⟩
    rw [hresult.pending_eq, List.length_append, List.length_reverse, List.length_map,
      List.length_range']
    omega

end Round

/-! ## The end of the loop -/

/-- What every round keeps, for the loop to end: the maps registered, and each registered set a
list without repeats of `Builder.stateIndexValues`. -/
structure Bounded (builder : Builder) (state : ConvertState) : Prop where
  registered : Registered state
  sets : ∀ stateSet ∈ state.dfaStateToNFAStateSetMap,
    stateSet.Nodup ∧ ∀ x ∈ stateSet, x ∈ builder.stateIndexValues

section Bounded

variable {builder : Builder} {state : ConvertState}

/-- The bound on the registered sets, from their being distinct. -/
theorem Bounded.length_le (h : Bounded builder state) :
    state.dfaStateToNFAStateSetMap.length ≤
      (builder.stateIndexValues.length + 1) ^ (builder.stateIndexValues.length + 1) :=
  FiniteLists.length_le_of_nodup h.registered.nodup h.sets

theorem bounded_init (builder : Builder) : Bounded builder ConvertState.init :=
  ⟨registered_init, fun stateSet hstateSet => by
    rw [List.mem_singleton.1 hstateSet]
    exact ⟨List.nodup_singleton _, fun x hx => List.mem_singleton.1 hx ▸
      Builder.zero_mem_stateIndexValues builder⟩⟩

/-- The set a round reads. -/
theorem Bounded.getAt? (h : Bounded builder state) {index : ℤ} {stateSet : StateSet}
    (hget : getAt? state.dfaStateToNFAStateSetMap index = some stateSet) :
    stateSet.Nodup ∧ ∀ x ∈ stateSet, x ∈ builder.stateIndexValues :=
  h.sets stateSet (mem_of_getAt?_eq_some hget)

/-- The local states of a round are values: the next states of edges, and the current terminal
state made of a terminal state of the closure or of `unmatchedCharacterTerminal`. -/
theorem mem_stateIndexValues_of_localStates {currentStateSet nonTerminalCurrentStateSet : StateSet}
    {terminalState : Option ℤ}
    (hcurrent : currentStateSet.Nodup ∧ ∀ x ∈ currentStateSet, x ∈ builder.stateIndexValues)
    (hsplit : splitClosure (epsilonClosure builder currentStateSet) [] none =
      .ok (nonTerminalCurrentStateSet, terminalState))
    {x : ℤ} (hx : x ∈ localStateIndexToStateIndexMap builder nonTerminalCurrentStateSet
      (currentTerminalStateOf terminalState)) :
    x ∈ builder.stateIndexValues := by
  rcases mem_localStateIndexToStateIndexMap.1 hx with ⟨predicate, hedge⟩ | rfl
  · obtain ⟨stateIndex, -, hedge⟩ := List.mem_flatMap.1 hedge
    exact Builder.mem_stateIndexValues_of_edgeTargets (Builder.mem_edgeTargets hedge)
  · unfold currentTerminalStateOf
    cases hterminal : terminalState with
    | none => exact Builder.unmatched_mem_stateIndexValues builder
    | some t =>
      -- the terminal state is in the closure, so a value or the target of an ε-edge
      have hclosure := ((splitClosure_eq_ok hsplit).2.2 t).2 hterminal
      have hreach := ((epsilonClosure_spec builder hcurrent.1).2 t).1 hclosure.1
      have ht := ScanClosure.Reach.mem (U := currentStateSet ++ builder.epsilonTargets)
        (fun y hy => List.mem_append_left _ hy)
        (fun a b hb => by
          unfold Builder.epsilonNextStatesOf at hb
          split_ifs at hb
          · exact List.mem_append_right _ (Builder.mem_epsilonTargets hb)
          · cases hb) hreach
      apply Builder.setDoesntConsumeInput_mem_stateIndexValues
      rcases List.mem_append.1 ht with ht | ht
      · exact hcurrent.2 t ht
      · exact Builder.mem_stateIndexValues_of_epsilonTargets ht

/-- **A round keeps the registered sets bounded**: each new set lists local states, which are
values, each once. -/
theorem Bounded.processDFAState (h : Bounded builder state) (currentDFAStateIndex : ℤ) :
    Bounded builder (processDFAState builder state currentDFAStateIndex) := by
  rcases @processDFAState_cases builder state currentDFAStateIndex h.registered with
    ⟨error, -, heq⟩ | ⟨currentStateSet, nonTerminalCurrentStateSet, terminalState, charToLocal,
      result, hget, -, hsplit, hchar, hresult, heq⟩
  · rw [heq]
    exact ⟨h.registered.of_sameRegistry (sameRegistry_fail _ _), h.sets⟩
  · have hsame := sameRegistry_setDFAStateTransitions charToLocal currentStateSet result
    rw [heq]
    refine ⟨hresult.registered.of_sameRegistry hsame, fun stateSet hstateSet => ?_⟩
    rw [hsame.sets_eq] at hstateSet
    rcases hresult.new stateSet hstateSet with hold | ⟨set, hset, rfl, -⟩
    · exact h.sets stateSet hold
    · obtain ⟨c, rfl, -⟩ := (mem_uniqueLocalNextStateSets _ set).1 hset
      obtain ⟨hnodup, hmem⟩ := nextStateSetOf_localStates (forEachChar_eq_some_iff.1 hchar c)
      exact ⟨hnodup, fun x hx =>
        mem_stateIndexValues_of_localStates (h.getAt? hget) hsplit (hmem x hx)⟩

/-- The measure of the loop: the room left for registered sets, and the pending states. -/
def convertMeasure (builder : Builder) (state : ConvertState) : ℕ :=
  ((builder.stateIndexValues.length + 1) ^ (builder.stateIndexValues.length + 1) -
    state.dfaStateToNFAStateSetMap.length) + state.pendingDFAStates.length

/-- A round of the loop runs on a pending state, the back of the queue. -/
theorem exists_pending_of_convertCond (hcond : convertCond state = true) :
    ∃ current rest, state.pendingDFAStates = current :: rest ∧
      convertBody builder state =
        NFA.processDFAState builder { state with pendingDFAStates := rest } current := by
  cases hp : state.pendingDFAStates with
  | nil => simp [convertCond, hp] at hcond
  | cons current rest => exact ⟨current, rest, rfl, by simp only [NFA.convertBody, hp]⟩

/-- A round of the loop runs only while nothing has failed. -/
theorem failure_eq_none_of_convertCond (hcond : convertCond state = true) :
    state.failure = none := by
  simp only [convertCond, Bool.and_eq_true, Option.isNone_iff_eq_none] at hcond
  exact hcond.2

/-- **A round of the loop keeps the bound and lowers the measure**: it pops one pending state and
pushes one for each set it registers, and the sets never outgrow the bound. -/
theorem Bounded.convertBody (h : Bounded builder state) (hcond : convertCond state = true) :
    Bounded builder (convertBody builder state) ∧
      convertMeasure builder (convertBody builder state) < convertMeasure builder state := by
  obtain ⟨currentDFAStateIndex, pendingDFAStates, hpending, hbody⟩ :=
    @exists_pending_of_convertCond builder state hcond
  have hpopped : Bounded builder { state with pendingDFAStates } :=
    ⟨h.registered.withPending pendingDFAStates, h.sets⟩
  have hbounded := hpopped.processDFAState currentDFAStateIndex
  obtain ⟨-, hprefix, hlength⟩ :=
    @processDFAState_sets builder _ currentDFAStateIndex hpopped.registered
  have hle := hbounded.length_le
  have hle' := hprefix.length_le
  rw [hbody]
  refine ⟨hbounded, ?_⟩
  unfold convertMeasure
  simp only [hpending, List.length_cons] at hlength hle' ⊢
  omega

/-- How the loop can stop, kept by each round: the fatal error has its one message, and while
no round has stopped it, the registry has at most `2 ^ 15` sets or a wrapped index, which is
negative, is pending. -/
structure Outcome (state : ConvertState) : Prop where
  fatal : ∀ message, state.failure = some (.fatal message) → message = multipleTerminalStatesMessage
  wrapped : state.failure = none →
    state.dfaStateToNFAStateSetMap.length ≤ 2 ^ 15 ∨ ∃ index ∈ state.pendingDFAStates, index < 0

theorem outcome_init : Outcome ConvertState.init :=
  ⟨fun _ h => (by cases h), fun _ => Or.inl (by decide)⟩

theorem outcome_fail {state : ConvertState} {error : ConvertError}
    (herror : error = .undefined ∨ error = .fatal multipleTerminalStatesMessage) :
    Outcome (state.fail error) := by
  refine ⟨fun message hmessage => ?_, fun hnone => by cases hnone⟩
  rcases herror with rfl | rfl <;> cases hmessage
  rfl

/-- **A round keeps how the loop can stop**: a round that registers the `2 ^ 15`-th set queues
its index wrapped to `-2 ^ 15`, and a wrapped index stays queued until a round pops it, which
reads outside `dfaStateToNFAStateSetMap`. -/
theorem Outcome.convertBody (hreg : Registered state) (h : Outcome state)
    (hcond : convertCond state = true) : Outcome (convertBody builder state) := by
  obtain ⟨currentDFAStateIndex, pendingDFAStates, hpending, hbody⟩ :=
    @exists_pending_of_convertCond builder state hcond
  have hnone := failure_eq_none_of_convertCond hcond
  have hpopped := hreg.withPending pendingDFAStates
  rw [hbody]
  rcases @processDFAState_cases builder _ currentDFAStateIndex hpopped with
    ⟨error, herror, heq⟩ | ⟨currentStateSet, _, _, charToLocal, result, hget, -, -, -, hresult, heq⟩
  · rw [heq]
    exact outcome_fail (herror.imp_right fun ⟨_, _, _, hfatal⟩ => hfatal)
  · have hsame := sameRegistry_setDFAStateTransitions charToLocal currentStateSet result
    rw [heq]
    rcases setDFAStateTransitions_failure charToLocal currentStateSet result with
      hfailure | hfailure
    · rw [hresult.failure_eq] at hfailure
      refine ⟨fun message hmessage => ?_, fun _ => ?_⟩
      · rw [hfailure] at hmessage
        exact h.fatal message (hnone ▸ hmessage)
      -- the sets registered in this round are queued at the back, under their positions
      rw [hsame.sets_eq, hsame.pending_eq, hresult.pending_eq]
      have hcurrent : 0 ≤ currentDFAStateIndex := nonneg_of_getAt?_eq_some hget
      have hle := hresult.sets_prefix.length_le
      by_cases hlength : result.1.dfaStateToNFAStateSetMap.length ≤ 2 ^ 15
      · exact Or.inl hlength
      · right
        by_cases hbefore : state.dfaStateToNFAStateSetMap.length ≤ 2 ^ 15
        · refine ⟨toStateIndex ((2 ^ 15 : ℕ) : ℤ), List.mem_append_left _ ?_, by decide⟩
          rw [List.mem_reverse]
          exact List.mem_map.2 ⟨2 ^ 15, List.mem_range'_1.2 ⟨hbefore, by
            change state.dfaStateToNFAStateSetMap.length ≤ 2 ^ 15 at hbefore
            omega⟩, rfl⟩
        · obtain ⟨index, hindex, hneg⟩ := (h.wrapped hnone).resolve_left hbefore
          rw [hpending] at hindex
          rcases List.mem_cons.1 hindex with rfl | hindex
          · omega
          · exact ⟨index, List.mem_append_right _ hindex, hneg⟩
    · refine ⟨fun message hmessage => ?_, fun hnone' => ?_⟩
      · rw [hfailure] at hmessage
        cases hmessage
      · rw [hfailure] at hnone'
        cases hnone'

/-- A loop that has stopped without failing has nothing pending, and so at most `2 ^ 15`
registered sets. -/
theorem Outcome.length_le (h : Outcome state) (hcond : convertCond state = false)
    (hnone : state.failure = none) : state.dfaStateToNFAStateSetMap.length ≤ 2 ^ 15 := by
  have hpending : state.pendingDFAStates = [] := by
    simpa [convertCond, hnone] using hcond
  simpa [hpending] using h.wrapped hnone

/-- **The loop ends**, with the fuel `convertToDFA` gives it, in a state with the sets bounded and
how it stopped kept. -/
theorem run_convert_spec (builder : Builder) :
    ∃ state, WhileLoop.run convertCond (convertBody builder) (convertFuel builder)
        ConvertState.init = some state ∧ Bounded builder state ∧ Outcome state ∧
        convertCond state = false := by
  have hpos : 0 < (builder.stateIndexValues.length + 1) ^ (builder.stateIndexValues.length + 1) :=
    Nat.pow_pos (Nat.succ_pos _)
  obtain ⟨state, hrun, ⟨hbounded, houtcome⟩, hcond⟩ :=
    @WhileLoop.run_of_variant _ convertCond (convertBody builder)
      (fun state => Bounded builder state ∧ Outcome state) (convertMeasure builder)
      (fun _ h hcond => ⟨⟨(h.1.convertBody hcond).1, h.2.convertBody h.1.registered hcond⟩,
        (h.1.convertBody hcond).2⟩)
      (convertFuel builder) ConvertState.init ⟨bounded_init builder, outcome_init⟩
      (by simp only [convertMeasure, convertFuel, ConvertState.init, List.length_singleton]; omega)
  exact ⟨state, hrun, hbounded, houtcome, hcond⟩

/-- **A DFA that `convertToDFA` returns has at most `2 ^ 15` states**, so none of its indices
wrapped. -/
theorem length_le_of_convertToDFA_eq_ok {builder : Builder} {dfaStates : List DFAState}
    (h : convertToDFA builder = some (.ok dfaStates)) : dfaStates.length ≤ 2 ^ 15 := by
  obtain ⟨state, hrun, hbounded, houtcome, hcond⟩ := run_convert_spec builder
  rw [convertToDFA, hrun, Option.map_some, Option.some.injEq] at h
  cases hfailure : state.failure with
  | some error => rw [hfailure] at h; cases h
  | none =>
    rw [hfailure] at h
    cases h
    rw [hbounded.registered.length_eq]
    exact houtcome.length_le hcond hfailure

/-- A machine the constructor builds is the compression of a DFA that `convertToDFA` returns. -/
theorem exists_of_ofBuilder_eq_ok {builder : Builder} {m : Machine}
    (h : Machine.ofBuilder builder = some (.ok m)) :
    ∃ dfaStates, convertToDFA builder = some (.ok dfaStates) ∧ m = Machine.ofDFAStates dfaStates := by
  obtain ⟨result, hconvert, hresult⟩ := Option.map_eq_some_iff.1 h
  cases result with
  | error error => cases hresult
  | ok dfaStates => exact ⟨dfaStates, hconvert, (Except.ok.inj hresult).symm⟩

/-- **The machine of a builder keeps its offsets in `U32`s**: its DFA has at most `2 ^ 15`
states. -/
theorem charToOffsetMap_ofBuilder_lt {builder : Builder} {m : Machine}
    (h : Machine.ofBuilder builder = some (.ok m)) (c : UInt8) : m.charToOffsetMap c < 2 ^ 32 := by
  obtain ⟨dfaStates, hconvert, rfl⟩ := exists_of_ofBuilder_eq_ok h
  exact Machine.charToOffsetMap_ofDFAStates_lt (length_le_of_convertToDFA_eq_ok hconvert) c

/-- **`convertToDFA` ends on every builder**, with the fatal error of a closure with two terminal
states, where a round is undefined, or with a DFA of at most `2 ^ 15` states: each round
registers only new lists without repeats of the builder's values, of which there are finitely
many, and a DFA index that wraps is read by the next round. -/
theorem convertToDFA_ends (builder : Builder) :
    ∃ result, convertToDFA builder = some result ∧
      (result = .error (.fatal multipleTerminalStatesMessage) ∨ result = .error .undefined ∨
        ∃ dfaStates, result = .ok dfaStates ∧ dfaStates.length ≤ 2 ^ 15) := by
  obtain ⟨state, hrun, hbounded, houtcome, hcond⟩ := run_convert_spec builder
  rw [convertToDFA, hrun, Option.map_some]
  refine ⟨_, rfl, ?_⟩
  cases hfailure : state.failure with
  | some error =>
    cases error with
    | fatal message =>
      left
      rw [houtcome.fatal message hfailure]
    | undefined => exact Or.inr (Or.inl rfl)
  | none =>
    refine Or.inr (Or.inr ⟨state.dfaStates, rfl, ?_⟩)
    rw [hbounded.registered.length_eq]
    exact houtcome.length_le hcond hfailure

end Bounded

end Wavm.NFA
