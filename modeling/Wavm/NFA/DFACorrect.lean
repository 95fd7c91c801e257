import Mathlib
import Wavm.NFA.DFARun
import Wavm.NFA.Subset

set_option relaxedAutoImplicit false
set_option autoImplicit false

/-!
# `convertToDFA` builds the DFA of the subset simulation

Each DFA state `convertToDFA` registers stands for its list of NFA states, and each character
leads it where the subset simulation of `Wavm.NFA.Subset` leads that set: to the terminal state
the simulation stops at, or to the DFA state of the set it goes on with. So the machine that
`Machine(Builder*)` compresses from it runs `feed` as the simulation does.

## Main definitions

* `Wavm.NFA.StepsTo` — the state set a round gives a character, against the simulation's step.
* `Wavm.NFA.stateSetOf`, `FollowsStep`, `Follows` — a DFA state's set and transitions, against
  the simulation.
* `Wavm.NFA.Progress`, `RunProgress`, `NoFatal` — what the rounds of the loop keep.

## Main results

* `Wavm.NFA.mem_epsilonClosure_iff` — the closure loop computes Mathlib's `εClosure`.
* `Wavm.NFA.processDFAState_spec` — a round that goes through, from a set whose local states
  fit, gives each character the step of the simulation.
* `Wavm.NFA.Progress.convertBody` — each round keeps `Progress`.
* `Wavm.NFA.follows_of_convertToDFA_eq_ok` — the DFA that the loop returns follows the
  simulation from every state.
* `Wavm.NFA.Machine.feed_ofBuilder` — and the machine the constructor compresses from it runs
  `feed` as the simulation.
* `Wavm.NFA.convertToDFA_ne_fatal` — where the closure of every set the simulation reaches has
  at most one terminal state, the loop does not end with the fatal error.

## Design

The loop's order of rounds does not matter: the invariant `Progress` says that the DFA states no
longer pending follow the simulation from their sets. It holds while no round fails and the DFA
has at most `2 ^ 15` states, so that no `(StateIndex)` position wraps; a run that returns its DFA
satisfies both (`length_le_of_convertToDFA_eq_ok`), so at its end, with no state pending, every
DFA state follows the simulation. `feed` of the machine is then the DFA's own loop
(`run_ofDFAStates`), and that loop is the simulation, one character for one. `NoFatal` keeps only
the registry's half of `Progress`, that every registered set is reached, and needs no bound: a
round pops a registered set, and the fatal error would need two terminal states in its closure.
-/

namespace Wavm.NFA

open Builder (toεNFA)

/-! ## The closure loop and the edges, against the ε-NFA -/

namespace Builder

variable {builder : Builder}

/-- For a non-terminal state, a property of its `NFAState` that the default state lacks holds of
`getState?` exactly when it holds of `nfaState`. -/
theorem exists_mem_getState?_iff {P : NFAState → Prop} (hP : ¬ P ⟨[], []⟩) {s : ℤ} (hs : 0 ≤ s) :
    (∃ state ∈ builder.getState? s, P state) ↔ P (builder.nfaState s) := by
  unfold getState? nfaState
  rw [if_pos hs, List.getD_eq_getElem?_getD]
  cases builder.nfaStates[s.toNat]? with
  | none => simpa using hP
  | some state => simp

theorem not_step_of_neg {s t : ℤ} {c : UInt8} (hs : s < 0) : ¬ builder.Step s c t := by
  rintro ⟨state, hstate, -⟩
  simp [getState?, not_le.2 hs] at hstate

theorem step_iff {s t : ℤ} {c : UInt8} (hs : 0 ≤ s) :
    builder.Step s c t ↔ ∃ predicate, (t, predicate) ∈ (builder.nfaState s).nextStateToPredicateMap ∧
      predicate.contains c = true :=
  exists_mem_getState?_iff (by simp) hs

theorem edgeTarget_iff {s t : ℤ} (hs : 0 ≤ s) :
    builder.EdgeTarget s t ↔ ∃ predicate, (t, predicate) ∈ (builder.nfaState s).nextStateToPredicateMap :=
  exists_mem_getState?_iff (by simp) hs

/-- The ε-edges the closure loop follows are those of the ε-NFA. -/
theorem mem_epsilonNextStatesOf {s t : ℤ} : t ∈ builder.epsilonNextStatesOf s ↔ builder.Epsilon s t := by
  unfold epsilonNextStatesOf
  split_ifs with hs
  · exact (exists_mem_getState?_iff (P := fun state => t ∈ state.epsilonNextStates) (by simp) hs).symm
  · simp only [List.not_mem_nil, false_iff]
    rintro ⟨state, hstate, -⟩
    simp [getState?, hs] at hstate

/-- The edges of the ε-NFA lead to the targets of the builder's edges. -/
theorem mem_edgeTargets_of_edgeTarget {s t : ℤ} (h : builder.EdgeTarget s t) :
    t ∈ builder.edgeTargets := by
  obtain ⟨state, hstate, predicate, hedge⟩ := h
  unfold getState? at hstate
  split_ifs at hstate
  · exact List.mem_flatMap.2 ⟨state, List.mem_of_getElem? hstate, List.mem_map.2 ⟨_, hedge, rfl⟩⟩
  · cases hstate

theorem mem_edgeTargets_of_step {s t : ℤ} {c : UInt8} (h : builder.Step s c t) :
    t ∈ builder.edgeTargets := by
  obtain ⟨state, hstate, predicate, hedge, -⟩ := h
  exact mem_edgeTargets_of_edgeTarget ⟨state, hstate, predicate, hedge⟩

/-- A builder whose edges lead to fewer than `64` states has the local states of every set
fit. -/
theorem localStatesFit_of_edgeTargets (h : builder.edgeTargets.length < 64) :
    builder.LocalStatesFit :=
  fun _ _ => ⟨builder.edgeTargets, h, fun _ _ _ hedge => mem_edgeTargets_of_edgeTarget hedge⟩

theorem mem_epsilonTargets_of_epsilon {s t : ℤ} (h : builder.Epsilon s t) :
    t ∈ builder.epsilonTargets := by
  obtain ⟨state, hstate, ht⟩ := h
  unfold getState? at hstate
  split_ifs at hstate
  · exact List.mem_flatMap.2 ⟨state, List.mem_of_getElem? hstate, ht⟩
  · cases hstate

/-- **The ε-closure of Mathlib is what the scan reaches.** -/
theorem mem_εClosure_iff_reach {start : List ℤ} {x : ℤ} :
    x ∈ builder.toεNFA.εClosure {y | y ∈ start} ↔ ScanClosure.Reach builder.epsilonNextStatesOf start x := by
  constructor
  · intro hx
    induction hx with
    | base s hs => exact ⟨s, hs, Relation.ReflTransGen.refl⟩
    | step s t ht _ ih =>
      obtain ⟨r, hr, hpath⟩ := ih
      exact ⟨r, hr, hpath.tail (mem_epsilonNextStatesOf.2 ht)⟩
  · rintro ⟨s, hs, hpath⟩
    induction hpath with
    | refl => exact εNFA.εClosure.base s hs
    | tail _ hstep ih => exact εNFA.εClosure.step _ _ (mem_epsilonNextStatesOf.1 hstep) ih

/-- The states of the ε-closure of a set the simulation reaches: `0`, the targets of edges and
the targets of ε-edges. -/
theorem SubsetReachable.mem_εClosure {A : Set ℤ} (hA : builder.SubsetReachable A) {x : ℤ}
    (hx : x ∈ builder.toεNFA.εClosure A) :
    x = 0 ∨ x ∈ builder.edgeTargets ∨ x ∈ builder.epsilonTargets := by
  induction hx with
  | base s hs =>
    cases hA with
    | start => exact Or.inl hs
    | step c _ hstep =>
      rw [eq_nextStates_of_closedStep hstep] at hs
      obtain ⟨r, -, hr⟩ := hs
      exact Or.inr (Or.inl (mem_edgeTargets_of_step hr))
  | step s t ht _ _ => exact Or.inr (Or.inr (mem_epsilonTargets_of_epsilon ht))

end Builder

/-- **The closure loop computes the ε-closure**, from a list without repeats. -/
theorem mem_epsilonClosure_iff (builder : Builder) {currentStateSet : StateSet}
    (hnodup : currentStateSet.Nodup) (x : ℤ) :
    x ∈ epsilonClosure builder currentStateSet ↔
      x ∈ builder.toεNFA.εClosure {y | y ∈ currentStateSet} := by
  rw [(epsilonClosure_spec builder hnodup).2, Builder.mem_εClosure_iff_reach]

/-! ## A round against the simulation -/

/-- The state set a round gives a character, against the step of the simulation: the one
terminal state the step stops at, or, not a terminal set, the states it goes on with. -/
def StepsTo (nextStateSet : StateSet) : ℤ ⊕ Set ℤ → Prop
  | .inl t => nextStateSet = [t] ∧ t < 0
  | .inr B => ¬ TerminalSet nextStateSet ∧ {x | x ∈ nextStateSet} = B

/-- A list without repeats of one member is that member. -/
theorem eq_singleton_of_nodup {l : List ℤ} {a : ℤ} (hnodup : l.Nodup) (h : ∀ x, x ∈ l ↔ x = a) :
    l = [a] := by
  match l, hnodup with
  | [], _ => exact absurd ((h a).2 rfl) List.not_mem_nil
  | [b], _ => rw [(h b).1 List.mem_cons_self]
  | b :: c :: _, hnodup =>
    have hb := (h b).1 List.mem_cons_self
    have hc := (h c).1 (List.mem_cons_of_mem _ List.mem_cons_self)
    exact ((List.nodup_cons.1 hnodup).1 (by rw [hb, ← hc]; exact List.mem_cons_self)).elim

/-- **The step of a round**: a state set without repeats whose members are the states the edges
lead to, or the closure's terminal state where there are none, is the step of the simulation. -/
theorem stepsTo_closedStep {builder : Builder} {E : Set ℤ} {c : UInt8} {nextStateSet : StateSet}
    (hnodup : nextStateSet.Nodup) (hterminal : Builder.closureTerminal E < 0)
    (hnext : (builder.nextStates E c).Nonempty →
      ∀ x, x ∈ nextStateSet ↔ x ∈ builder.nextStates E c)
    (hnone : builder.nextStates E c = ∅ → ∀ x, x ∈ nextStateSet ↔ x = Builder.closureTerminal E) :
    StepsTo nextStateSet (builder.closedStep E c) := by
  unfold Builder.closedStep
  by_cases hempty : builder.nextStates E c = ∅
  · -- no edge reads the character: the closure's terminal state
    rw [if_pos hempty]
    exact ⟨eq_singleton_of_nodup hnodup (hnone hempty), hterminal⟩
  · have hmem := hnext (Set.nonempty_iff_ne_empty.2 hempty)
    rw [if_neg hempty]
    split_ifs with hsingle
    · -- a single terminal state
      have hspec := hsingle.choose_spec
      exact ⟨eq_singleton_of_nodup hnodup fun x =>
        (hmem x).trans ((Set.ext_iff.1 hspec.2 x).trans Set.mem_singleton_iff), hspec.1⟩
    · refine ⟨fun ⟨hlength, hhead⟩ => hsingle ?_, Set.ext hmem⟩
      obtain ⟨t, ht⟩ := List.length_eq_one_iff.1 hlength
      refine ⟨t, by simpa [ht] using hhead, Set.ext fun x => ?_⟩
      rw [← hmem, ht, List.mem_singleton, Set.mem_singleton_iff]

section Round

variable {builder : Builder} {state : ConvertState} {currentStateSet : StateSet}
  {nonTerminalCurrentStateSet : StateSet} {terminalState : Option ℤ}
  {charToLocal : UInt8 → LocalStateSet}

/-- A local set that a round gives a character is never empty: it holds the local states of the
character's edges, or the current terminal state. -/
theorem isEmpty_eq_false_of_nextLocalStateSet {localStates : List ℤ} {currentTerminalState : ℤ}
    {c : UInt8} {set : LocalStateSet}
    (h : nextLocalStateSet builder nonTerminalCurrentStateSet localStates currentTerminalState c =
      some set) : set.isEmpty = false := by
  cases hempty : set.isEmpty
  · rfl
  · have hnil := (DenseStaticIntSet.isEmpty_iff_members_eq_nil _).1 hempty
    have hmem := mem_members_of_nextLocalStateSet_eq_some h
    split_ifs at hmem with hedge
    · obtain ⟨transition, htransition, hc⟩ := hedge
      have := (hmem _).2 ⟨transition, htransition, hc, rfl⟩
      rw [hnil] at this
      cases this
    · have := (hmem _).2 rfl
      rw [hnil] at this
      cases this

/-- Each character's local set is one of the unique local sets of the round. -/
theorem mem_uniqueLocalNextStateSets_of_forEachChar {localStates : List ℤ}
    {currentTerminalState : ℤ}
    (hchar : forEachChar (nextLocalStateSet builder nonTerminalCurrentStateSet localStates
      currentTerminalState) = some charToLocal) (c : UInt8) :
    charToLocal c ∈ uniqueLocalNextStateSets charToLocal :=
  (mem_uniqueLocalNextStateSets _ _).2
    ⟨c, rfl, isEmpty_eq_false_of_nextLocalStateSet (forEachChar_eq_some_iff.1 hchar c)⟩

/-- **A round against the simulation**: in a round that goes through, from a set without repeats
whose ε-closure's edges lead to fewer than `64` states, each character's state set, without
repeats, is the step of the simulation, and the DFA state of the set gets the DFA state of that
state set for the character. -/
theorem processDFAState_spec (hnodup : currentStateSet.Nodup)
    (hlocal : ∃ l : List ℤ, l.length < 64 ∧
      ∀ s ∈ builder.toεNFA.εClosure {x | x ∈ currentStateSet}, ∀ t, builder.EdgeTarget s t → t ∈ l)
    (hsplit : splitClosure (epsilonClosure builder currentStateSet) [] none =
      .ok (nonTerminalCurrentStateSet, terminalState))
    (hchar : forEachChar (nextLocalStateSet builder nonTerminalCurrentStateSet
      (localStateIndexToStateIndexMap builder nonTerminalCurrentStateSet
        (currentTerminalStateOf terminalState))
      (currentTerminalStateOf terminalState)) = some charToLocal)
    {result : ConvertState × List (LocalStateSet × ℤ)}
    (hresult : Registers (localStateIndexToStateIndexMap builder nonTerminalCurrentStateSet
      (currentTerminalStateOf terminalState)) state (uniqueLocalNextStateSets charToLocal) result)
    (c : UInt8) (dfaState : DFAState) :
    (nextStateSetOf (localStateIndexToStateIndexMap builder nonTerminalCurrentStateSet
        (currentTerminalStateOf terminalState)) (charToLocal c)).Nodup ∧
      StepsTo (nextStateSetOf (localStateIndexToStateIndexMap builder nonTerminalCurrentStateSet
          (currentTerminalStateOf terminalState)) (charToLocal c))
        (builder.subsetStep {x | x ∈ currentStateSet} c) ∧
      (setTransitions charToLocal dfaState result.2).nextStateByChar c =
        dfaTarget result.1.dfaStateToNFAStateSetMap
          (nextStateSetOf (localStateIndexToStateIndexMap builder nonTerminalCurrentStateSet
            (currentTerminalStateOf terminalState)) (charToLocal c)) := by
  set E := builder.toεNFA.εClosure {x | x ∈ currentStateSet} with hE
  set currentTerminalState := currentTerminalStateOf terminalState with hcurrentTerminalState
  set localStates := localStateIndexToStateIndexMap builder nonTerminalCurrentStateSet
    currentTerminalState with hlocalStates
  -- the closure, and its split: the terminal states of the closure are the one it keeps
  have hclosure := mem_epsilonClosure_iff builder hnodup
  obtain ⟨-, hnonTerminal, hterminalState⟩ := splitClosure_eq_ok hsplit
  have hterminal : (E ∩ {t | t < 0}).Subsingleton := fun a ha b hb => by
    have ha' := (hterminalState a).1 ⟨(hclosure a).2 ha.1, ha.2⟩
    have hb' := (hterminalState b).1 ⟨(hclosure b).2 hb.1, hb.2⟩
    exact Option.some.inj (ha'.symm.trans hb')
  -- the current terminal state is the one the simulation stops at
  have hcurrentTerminal : currentTerminalState = Builder.closureTerminal E := by
    rw [hcurrentTerminalState]
    unfold currentTerminalStateOf Builder.closureTerminal
    congr 1
    cases hterminalState' : terminalState with
    | none =>
      rw [dif_neg]
      · rfl
      rintro ⟨t, ht, hneg⟩
      have := (hterminalState t).1 ⟨(hclosure t).2 ht, hneg⟩
      rw [hterminalState'] at this
      cases this
    | some t =>
      have ht := ((hterminalState t).2 hterminalState')
      have hex : ∃ t ∈ E, t < 0 := ⟨t, (hclosure t).1 ht.1, ht.2⟩
      rw [dif_pos hex]
      exact hterminal ⟨(hclosure t).1 ht.1, ht.2⟩ hex.choose_spec
  have hneg : Builder.closureTerminal E < 0 := by
    rw [← hcurrentTerminal, hcurrentTerminalState, currentTerminalStateOf]
    apply setDoesntConsumeInput_neg
    cases terminalState with
    | none => decide
    | some t => exact ((hterminalState t).2 rfl).2
  -- the edges of the non-terminal states are the edges of the closure
  have hedges : ∀ (c : UInt8) (y : ℤ),
      (∃ transition ∈ edgesOf builder nonTerminalCurrentStateSet,
        transition.2.contains c = true ∧ transition.1 = y) ↔ y ∈ builder.nextStates E c := by
    intro c y
    constructor
    · rintro ⟨transition, htransition, hc, rfl⟩
      obtain ⟨s, hs, hedge⟩ := List.mem_flatMap.1 htransition
      obtain ⟨hs, hs₀⟩ := (hnonTerminal s).1 hs
      exact ⟨s, (hclosure s).1 hs, (Builder.step_iff hs₀).2 ⟨transition.2, hedge, hc⟩⟩
    · rintro ⟨s, hs, hstep⟩
      have hs₀ : 0 ≤ s := not_lt.1 fun h => Builder.not_step_of_neg h hstep
      obtain ⟨predicate, hedge, hc⟩ := (Builder.step_iff hs₀).1 hstep
      exact ⟨(y, predicate), List.mem_flatMap.2
        ⟨s, (hnonTerminal s).2 ⟨(hclosure s).2 hs, hs₀⟩, hedge⟩, hc, rfl⟩
  -- the local states fit
  obtain ⟨l, hl, hlt⟩ := hlocal
  have hlength : localStates.length ≤ 64 := by
    have hsub : localStates.length ≤ (currentTerminalState :: l).length :=
      FiniteLists.length_le (nodup_localStateIndexToStateIndexMap _ _ _) fun x hx => by
        rcases mem_localStateIndexToStateIndexMap.1 hx with ⟨predicate, hedge⟩ | rfl
        · obtain ⟨s, hs, hedge⟩ := List.mem_flatMap.1 hedge
          obtain ⟨hs, hs₀⟩ := (hnonTerminal s).1 hs
          exact List.mem_cons_of_mem _
            (hlt s ((hclosure s).1 hs) x ((Builder.edgeTarget_iff hs₀).2 ⟨predicate, hedge⟩))
        · exact List.mem_cons_self
    rw [List.length_cons] at hsub
    omega
  have hLocalStates : LocalStates builder nonTerminalCurrentStateSet currentTerminalState
      localStates :=
    localStates_localStateIndexToStateIndexMap hlength
  have hc := forEachChar_eq_some_iff.1 hchar
  -- the character's state set is the step of the simulation
  obtain ⟨hnodup', hmem⟩ := hLocalStates.nextStateSetOf_spec (hc c)
  have hany : (∃ transition ∈ edgesOf builder nonTerminalCurrentStateSet,
      transition.2.contains c = true) ↔ (builder.nextStates E c).Nonempty :=
    ⟨fun ⟨transition, htransition, hc⟩ => ⟨_, (hedges c _).1 ⟨transition, htransition, hc, rfl⟩⟩,
      fun ⟨y, hy⟩ => by
        obtain ⟨transition, htransition, hc, -⟩ := (hedges c y).2 hy
        exact ⟨transition, htransition, hc⟩⟩
  refine ⟨hnodup', stepsTo_closedStep hnodup' hneg (fun hne x => ?_) (fun hempty x => ?_), ?_⟩
  · rw [hmem, if_pos (hany.2 hne), hedges]
  · rw [hmem, if_neg (fun h => Set.not_nonempty_iff_eq_empty.2 hempty (hany.1 h)),
      hcurrentTerminal]
  -- the entry of the character's local set, the one key it matches
  have hkey := mem_uniqueLocalNextStateSets_of_forEachChar hchar c
  have hnodupKeys : (result.2.map Prod.fst).Nodup := by
    rw [hresult.entries_eq, List.map_map]
    exact (nodup_uniqueLocalNextStateSets _).map_on fun _ _ _ _ h => h
  rw [nextStateByChar_setTransitions _ c _ _ hnodupKeys, hresult.entries_eq,
    List.lookup_graph _ hkey, Option.getD_some]

end Round

/-! ## The loop against the simulation -/

/-- The set of NFA states that the DFA state at `p` stands for. -/
def stateSetOf (sets : List StateSet) (p : ℕ) : Set ℤ := {x | x ∈ sets.getD p []}

/-- A transition against the step of the simulation: to the terminal state the step stops at,
or to a DFA state of the set it goes on with. -/
def FollowsStep (sets : List StateSet) (next : ℤ) : ℤ ⊕ Set ℤ → Prop
  | .inl t => next = t
  | .inr B => ∃ q < sets.length, stateSetOf sets q = B ∧ next = toStateIndex q

/-- **The DFA state at `p` follows the simulation** from its set, on every character. -/
def Follows (builder : Builder) (state : ConvertState) (p : ℕ) : Prop :=
  ∀ c, FollowsStep state.dfaStateToNFAStateSetMap (nextDFAState state.dfaStates p c)
    (builder.subsetStep (stateSetOf state.dfaStateToNFAStateSetMap p) c)

theorem getD_of_prefix {α : Type} {l l' : List α} (h : l <+: l') {i : ℕ} (hi : i < l.length)
    (d : α) : l'.getD i d = l.getD i d := by
  rw [List.getD_eq_getElem _ _ hi, List.getD_eq_getElem _ _ (Nat.lt_of_lt_of_le hi h.length_le),
    h.getElem hi]

theorem stateSetOf_of_prefix {sets sets' : List StateSet} (h : sets <+: sets') {q : ℕ}
    (hq : q < sets.length) : stateSetOf sets' q = stateSetOf sets q := by
  rw [stateSetOf, stateSetOf, getD_of_prefix h hq]

/-- Registering more sets keeps a transition's target. -/
theorem FollowsStep.mono {sets sets' : List StateSet} (h : sets <+: sets') {next : ℤ}
    {step : ℤ ⊕ Set ℤ} (hfollows : FollowsStep sets next step) : FollowsStep sets' next step := by
  cases step with
  | inl t => exact hfollows
  | inr B =>
    obtain ⟨q, hq, hB, hnext⟩ := hfollows
    exact ⟨q, Nat.lt_of_lt_of_le hq h.length_le, by rw [← hB]; exact stateSetOf_of_prefix h hq, hnext⟩

/-- A DFA state that keeps its transitions while more sets are registered keeps following the
simulation. -/
theorem Follows.mono {builder : Builder} {state state' : ConvertState} {p : ℕ}
    (hfollows : Follows builder state p)
    (hsets : state.dfaStateToNFAStateSetMap <+: state'.dfaStateToNFAStateSetMap)
    (hp : p < state.dfaStateToNFAStateSetMap.length)
    (hnext : ∀ c, nextDFAState state'.dfaStates p c = nextDFAState state.dfaStates p c) :
    Follows builder state' p := fun c => by
  rw [hnext, stateSetOf_of_prefix hsets hp]
  exact (hfollows c).mono hsets

/-- A character's state set that is the step of the simulation leads to the DFA state of the
step, once the non-terminal ones are registered. -/
theorem followsStep_dfaTarget {sets : List StateSet} {nextStateSet : StateSet}
    {step : ℤ ⊕ Set ℤ} (hsteps : StepsTo nextStateSet step)
    (hcovered : ¬ TerminalSet nextStateSet → nextStateSet ∈ sets) :
    FollowsStep sets (dfaTarget sets nextStateSet) step := by
  cases step with
  | inl t =>
    obtain ⟨rfl, ht⟩ := hsteps
    exact @dfaTarget_of_terminalSet [t] ⟨rfl, ht⟩ sets
  | inr B =>
    obtain ⟨hterminal, hB⟩ := hsteps
    have hlt := List.idxOf_lt_length_iff.2 (hcovered hterminal)
    refine ⟨sets.idxOf nextStateSet, hlt, ?_, dfaTarget_of_not_terminalSet hterminal sets⟩
    rw [← hB, stateSetOf, List.getD_eq_getElem _ _ hlt, List.getElem_idxOf]

/-- What the loop keeps while no round fails and the DFA has at most `2 ^ 15` states, so that no
`(StateIndex)` position wraps: the registry, which starts with `{0}`, of sets without repeats
that the simulation reaches; the queue, of positions of the registry without repeats; and each
DFA state no longer pending following the simulation. -/
structure Progress (builder : Builder) (state : ConvertState) : Prop where
  registered : Registered state
  start : [[0]] <+: state.dfaStateToNFAStateSetMap
  sets : ∀ stateSet ∈ state.dfaStateToNFAStateSetMap,
    stateSet.Nodup ∧ builder.SubsetReachable {x | x ∈ stateSet}
  pending_mem : ∀ index ∈ state.pendingDFAStates,
    0 ≤ index ∧ index < state.dfaStateToNFAStateSetMap.length
  pending_nodup : state.pendingDFAStates.Nodup
  follows : ∀ p < state.dfaStateToNFAStateSetMap.length, (p : ℤ) ∉ state.pendingDFAStates →
    Follows builder state p

theorem progress_init (builder : Builder) : Progress builder ConvertState.init := by
  refine ⟨registered_init, List.prefix_refl _, fun stateSet hstateSet => ?_,
    fun index hindex => ?_, List.nodup_singleton _, fun p hp hpending => ?_⟩
  · rw [List.mem_singleton.1 hstateSet]
    have hstart : {x : ℤ | x ∈ [(0 : ℤ)]} = {0} := by
      ext x
      simp
    exact ⟨List.nodup_singleton _, hstart ▸ .start⟩
  · rw [List.mem_singleton.1 hindex]
    decide
  · -- the one DFA state is pending
    have hp0 : p = 0 := by simpa [ConvertState.init] using hp
    subst hp0
    exact absurd List.mem_cons_self hpending

section Loop

variable {builder : Builder} {state : ConvertState}

/-- The queue after a round that goes through: the positions it registers, last first, then the
rest of the queue. -/
theorem pending_of_registers {localStates : List ℤ} {done : List LocalStateSet}
    {result : ConvertState × List (LocalStateSet × ℤ)} {rest : List ℤ}
    (hresult : Registers localStates { state with pendingDFAStates := rest } done result)
    (hlength : result.1.dfaStateToNFAStateSetMap.length ≤ 2 ^ 15) :
    result.1.pendingDFAStates =
      ((List.range' state.dfaStateToNFAStateSetMap.length
        (result.1.dfaStateToNFAStateSetMap.length - state.dfaStateToNFAStateSetMap.length)).map
          fun index : ℕ => (index : ℤ)).reverse ++ rest := by
  have hle : state.dfaStateToNFAStateSetMap.length ≤ result.1.dfaStateToNFAStateSetMap.length :=
    hresult.sets_prefix.length_le
  have hmap : ∀ index ∈ List.range' state.dfaStateToNFAStateSetMap.length
      (result.1.dfaStateToNFAStateSetMap.length - state.dfaStateToNFAStateSetMap.length),
      toStateIndex (index : ℤ) = index := fun index hindex => by
    have := (List.mem_range'_1.1 hindex).2
    exact toStateIndex_natCast (by omega)
  rw [hresult.pending_eq]
  dsimp only
  rw [List.map_congr_left hmap]

/-- **The sets a round registers are reached by the simulation**: from a set without repeats
that the simulation reaches, each new set is the step of the simulation on a character, and not
terminal. -/
theorem reachable_of_registers (hlocal : builder.LocalStatesFit)
    {currentStateSet nonTerminalCurrentStateSet : StateSet} {terminalState : Option ℤ}
    {charToLocal : UInt8 → LocalStateSet} {result : ConvertState × List (LocalStateSet × ℤ)}
    (hsets : ∀ stateSet ∈ state.dfaStateToNFAStateSetMap,
      stateSet.Nodup ∧ builder.SubsetReachable {x | x ∈ stateSet})
    (hnodupCurrent : currentStateSet.Nodup)
    (hreachCurrent : builder.SubsetReachable {x | x ∈ currentStateSet})
    (hsplit : splitClosure (epsilonClosure builder currentStateSet) [] none =
      .ok (nonTerminalCurrentStateSet, terminalState))
    (hchar : forEachChar (nextLocalStateSet builder nonTerminalCurrentStateSet
      (localStateIndexToStateIndexMap builder nonTerminalCurrentStateSet
        (currentTerminalStateOf terminalState))
      (currentTerminalStateOf terminalState)) = some charToLocal)
    (hresult : Registers (localStateIndexToStateIndexMap builder nonTerminalCurrentStateSet
      (currentTerminalStateOf terminalState)) state (uniqueLocalNextStateSets charToLocal) result) :
    ∀ stateSet ∈ result.1.dfaStateToNFAStateSetMap,
      stateSet.Nodup ∧ builder.SubsetReachable {x | x ∈ stateSet} := by
  intro stateSet hstateSet
  rcases hresult.new stateSet hstateSet with hold | ⟨set, hset, rfl, hterminal⟩
  · exact hsets stateSet hold
  · obtain ⟨c, rfl, -⟩ := (mem_uniqueLocalNextStateSets _ set).1 hset
    obtain ⟨hnodup', hsteps, -⟩ := processDFAState_spec hnodupCurrent
      (hlocal _ hreachCurrent) hsplit hchar hresult c DFAState.new
    refine ⟨hnodup', ?_⟩
    -- a terminal step would have given a terminal set, which is not registered
    cases hstep : builder.subsetStep {x | x ∈ currentStateSet} c with
    | inl t =>
      rw [hstep] at hsteps
      exact absurd ⟨by rw [hsteps.1]; rfl, by rw [hsteps.1]; exact hsteps.2⟩ hterminal
    | inr B =>
      rw [hstep] at hsteps
      rw [hsteps.2]
      exact .step c hreachCurrent hstep

/-- **A round keeps the progress**: the state it pops follows the simulation after it, by
`processDFAState_spec`, the states popped before keep their transitions, and the states it
registers are the steps of the simulation from a set it reaches, and pending. -/
theorem Progress.convertBody (hlocal : builder.LocalStatesFit) (h : Progress builder state)
    (hcond : convertCond state = true) (hnone : (convertBody builder state).failure = none)
    (hlength : (convertBody builder state).dfaStateToNFAStateSetMap.length ≤ 2 ^ 15) :
    Progress builder (convertBody builder state) := by
  obtain ⟨current, rest, hpending, hbody⟩ := @exists_pending_of_convertCond builder state hcond
  have hpopped := h.registered.withPending rest
  rw [hbody] at hnone hlength ⊢
  rcases @processDFAState_cases builder _ current hpopped with
    ⟨error, -, heq⟩ | ⟨currentStateSet, nonTerminalCurrentStateSet, terminalState, charToLocal,
      result, hget, -, hsplit, hchar, hresult, heq⟩
  · rw [heq] at hnone
    cases hnone
  have hsame := sameRegistry_setDFAStateTransitions charToLocal currentStateSet result
  rw [heq] at hlength
  rw [hsame.sets_eq] at hlength
  -- the popped position, below the registry and so below `2 ^ 15`
  have hcurrent₀ := nonneg_of_getAt?_eq_some hget
  have hget' : state.dfaStateToNFAStateSetMap[current.toNat]? = some currentStateSet := by
    simpa [getAt?, hcurrent₀] using hget
  obtain ⟨hp₀, hcurrentSet⟩ := List.getElem?_eq_some_iff.1 hget'
  have hgrow : state.dfaStateToNFAStateSetMap <+: result.1.dfaStateToNFAStateSetMap :=
    hresult.sets_prefix
  have hdfaPrefix : state.dfaStates <+: result.1.dfaStates := hresult.dfaStates_prefix
  have hle := hgrow.length_le
  have hmem : currentStateSet ∈ state.dfaStateToNFAStateSetMap := hcurrentSet ▸ List.getElem_mem _
  obtain ⟨hnodupCurrent, hreachCurrent⟩ := h.sets currentStateSet hmem
  -- the end of the round finds the DFA state of the popped set at the popped position
  have hidx : result.1.dfaStateToNFAStateSetMap.idxOf currentStateSet = current.toNat := by
    obtain ⟨more, hmore⟩ := hgrow
    rw [← hmore, List.idxOf_append_of_mem hmem, ← hcurrentSet,
      h.registered.nodup.idxOf_getElem]
  have hlookup : result.1.nfaStateSetToDFAStateMap.lookup currentStateSet = some current := by
    rw [hresult.registered.lookup_eq, if_pos (hgrow.subset hmem), hidx,
      toStateIndex_natCast (by omega), Int.toNat_of_nonneg hcurrent₀]
  have hdfaLength : state.dfaStates.length = state.dfaStateToNFAStateSetMap.length :=
    h.registered.length_eq
  have hp₀' : current.toNat < result.1.dfaStates.length := by
    have := hdfaPrefix.length_le
    omega
  have hgetDFA : getAt? result.1.dfaStates current = some result.1.dfaStates[current.toNat] := by
    rw [getAt?, if_pos hcurrent₀, List.getElem?_eq_getElem hp₀']
  rw [heq, setDFAStateTransitions_eq hlookup hgetDFA]
  set dfaState := result.1.dfaStates[current.toNat]
  set localStates := localStateIndexToStateIndexMap builder nonTerminalCurrentStateSet
    (currentTerminalStateOf terminalState)
  have hlocalCurrent := hlocal {x | x ∈ currentStateSet} hreachCurrent
  have hspec := fun c => @processDFAState_spec builder { state with pendingDFAStates := rest }
    _ _ _ _ hnodupCurrent hlocalCurrent hsplit hchar _ hresult c dfaState
  -- the queue after the round
  have hpending' := pending_of_registers hresult hlength
  have hrest : ∀ index ∈ rest, 0 ≤ index ∧ index < state.dfaStateToNFAStateSetMap.length :=
    fun index hindex => h.pending_mem index (hpending ▸ List.mem_cons_of_mem _ hindex)
  have hnodupPending := h.pending_nodup
  rw [hpending, List.nodup_cons] at hnodupPending
  refine ⟨hresult.registered.of_sameRegistry ⟨List.length_set .., rfl, rfl, rfl⟩,
    h.start.trans hgrow,
    @reachable_of_registers builder { state with pendingDFAStates := rest } hlocal _ _ _ _ _
      h.sets hnodupCurrent hreachCurrent hsplit hchar hresult,
    fun index hindex => ?_, ?_, fun p hp hnotPending => ?_⟩
  · dsimp only at hindex ⊢
    rw [hpending'] at hindex
    rcases List.mem_append.1 hindex with hnew | hold
    · obtain ⟨q, hq, rfl⟩ := List.mem_map.1 (List.mem_reverse.1 hnew)
      have := List.mem_range'_1.1 hq
      exact ⟨Int.natCast_nonneg q, by omega⟩
    · have := hrest index hold
      exact ⟨this.1, by omega⟩
  · dsimp only
    rw [hpending']
    refine List.Nodup.append (List.nodup_reverse.2 ((List.nodup_range').map
      fun a b h => Int.ofNat_inj.1 h)) hnodupPending.2 fun a ha hb => ?_
    obtain ⟨q, hq, rfl⟩ := List.mem_map.1 (List.mem_reverse.1 ha)
    have := (List.mem_range'_1.1 hq).1
    have := (hrest _ hb).2
    omega
  · dsimp only at hp hnotPending ⊢
    rw [hpending'] at hnotPending
    have hnew : ¬ state.dfaStateToNFAStateSetMap.length ≤ p := fun hge =>
      hnotPending (List.mem_append_left _ (List.mem_reverse.2
        (List.mem_map.2 ⟨p, List.mem_range'_1.2 ⟨hge, by omega⟩, rfl⟩)))
    have hnotRest : (p : ℤ) ∉ rest := fun h => hnotPending (List.mem_append_right _ h)
    by_cases hp₀ : p = current.toNat
    · -- the popped state: its transitions are the steps of the simulation
      subst hp₀
      intro c
      obtain ⟨-, hsteps, htransition⟩ := hspec c
      have hnext : nextDFAState (result.1.dfaStates.set current.toNat
          (setTransitions charToLocal dfaState result.2)) (current.toNat : ℤ) c =
          (setTransitions charToLocal dfaState result.2).nextStateByChar c := by
        rw [nextDFAState, Int.toNat_natCast, List.getD_eq_getElem _ _ (by simpa using hp₀'),
          List.getElem_set_self]
      rw [hnext, htransition, stateSetOf_of_prefix hgrow hp₀, stateSetOf, List.getD_eq_getElem _ _ hp₀,
        hcurrentSet]
      exact followsStep_dfaTarget hsteps
        (hresult.covered _ (mem_uniqueLocalNextStateSets_of_forEachChar hchar c))
    · -- a state popped before: its transitions stay
      have hpLt : p < state.dfaStateToNFAStateSetMap.length := by omega
      have hnotCurrent : (p : ℤ) ∉ state.pendingDFAStates := by
        rw [hpending]
        rintro (_ | ⟨_, hmem⟩)
        · exact hp₀ (by omega)
        · exact hnotRest hmem
      refine (h.follows p hpLt hnotCurrent).mono hgrow hpLt fun c => ?_
      rw [nextDFAState, nextDFAState, Int.toNat_natCast, List.getD_eq_getElem?_getD,
        List.getElem?_set_ne (Ne.symm hp₀), ← List.getD_eq_getElem?_getD,
        getD_of_prefix hdfaPrefix (by omega)]

/-- The run keeps the progress while it neither fails nor outgrows `2 ^ 15` DFA states. -/
def RunProgress (builder : Builder) (state : ConvertState) : Prop :=
  state.failure = none → state.dfaStateToNFAStateSetMap.length ≤ 2 ^ 15 → Progress builder state

/-- A round of the loop keeps the registry and extends it. -/
theorem Registered.convertBody (h : Registered state) (hcond : convertCond state = true) :
    Registered (convertBody builder state) ∧
      state.dfaStateToNFAStateSetMap <+: (convertBody builder state).dfaStateToNFAStateSetMap := by
  obtain ⟨current, rest, -, hbody⟩ := @exists_pending_of_convertCond builder state hcond
  obtain ⟨hreg, hgrow, -⟩ := @processDFAState_sets builder { state with pendingDFAStates := rest }
    current (h.withPending rest)
  rw [hbody]
  exact ⟨hreg, hgrow⟩

/-- **A round keeps the progress of the run**: a round that neither fails nor outgrows
`2 ^ 15` DFA states comes from one that did neither, since the registry only grows. -/
theorem RunProgress.convertBody (hlocal : builder.LocalStatesFit) (h : RunProgress builder state)
    (hreg : Registered state) (hcond : convertCond state = true) :
    RunProgress builder (convertBody builder state) := by
  intro hnone hlength
  have hnone₀ := failure_eq_none_of_convertCond hcond
  have hle := (@Registered.convertBody builder state hreg hcond).2.length_le
  exact (h hnone₀ (hle.trans hlength)).convertBody hlocal hcond hnone hlength

/-- What the loop keeps where the local states of every set the simulation reaches fit and the
closure of each such set has at most one terminal state: the registry, of sets without repeats
that the simulation reaches, and no fatal error. -/
structure NoFatal (builder : Builder) (state : ConvertState) : Prop where
  registered : Registered state
  sets : ∀ stateSet ∈ state.dfaStateToNFAStateSetMap,
    stateSet.Nodup ∧ builder.SubsetReachable {x | x ∈ stateSet}
  not_fatal : ∀ message, state.failure ≠ some (.fatal message)

theorem noFatal_init (builder : Builder) : NoFatal builder ConvertState.init :=
  ⟨registered_init, (progress_init builder).sets, fun _ h => by cases h⟩

/-- **A round raises no fatal error**: the set it pops is reached by the simulation, so its
closure has at most one terminal state and splits without the error, and the sets it registers
are reached too. -/
theorem NoFatal.convertBody (hunique : builder.TerminalsUnique) (hlocal : builder.LocalStatesFit)
    (h : NoFatal builder state) (hcond : convertCond state = true) :
    NoFatal builder (convertBody builder state) := by
  obtain ⟨current, rest, -, hbody⟩ := @exists_pending_of_convertCond builder state hcond
  have hnone := failure_eq_none_of_convertCond hcond
  have hpopped := h.registered.withPending rest
  rw [hbody]
  rcases @processDFAState_cases builder _ current hpopped with
    ⟨error, herror, heq⟩ | ⟨currentStateSet, nonTerminalCurrentStateSet, terminalState, charToLocal,
      result, hget, -, hsplit, hchar, hresult, heq⟩
  · rw [heq]
    refine ⟨hpopped.of_sameRegistry (sameRegistry_fail _ _), h.sets, fun message hmessage => ?_⟩
    rcases herror with rfl | ⟨currentStateSet, hget, hsplit, rfl⟩
    · cases hmessage
    · -- the fatal split: two terminal states in the closure of a set the simulation reaches
      obtain ⟨hnodupCurrent, hreachCurrent⟩ := h.sets currentStateSet (mem_of_getAt?_eq_some hget)
      obtain ⟨a, ha, b, hb, ha₀, hb₀, hab⟩ :=
        exists_ne_of_splitClosure_eq_error (epsilonClosure_spec builder hnodupCurrent).1 hsplit
      exact hab (hunique _ hreachCurrent ⟨(mem_epsilonClosure_iff builder hnodupCurrent a).1 ha, ha₀⟩
        ⟨(mem_epsilonClosure_iff builder hnodupCurrent b).1 hb, hb₀⟩)
  · have hsame := sameRegistry_setDFAStateTransitions charToLocal currentStateSet result
    obtain ⟨hnodupCurrent, hreachCurrent⟩ := h.sets currentStateSet (mem_of_getAt?_eq_some hget)
    rw [heq]
    refine ⟨hresult.registered.of_sameRegistry hsame, ?_, fun message hmessage => ?_⟩
    · rw [hsame.sets_eq]
      exact @reachable_of_registers builder { state with pendingDFAStates := rest } hlocal _ _ _ _ _
        h.sets hnodupCurrent hreachCurrent hsplit hchar hresult
    · -- the end of the round fails at most as undefined
      rcases setDFAStateTransitions_failure charToLocal currentStateSet result with
        hfailure | hfailure
      · rw [hfailure, hresult.failure_eq] at hmessage
        exact h.not_fatal message hmessage
      · rw [hfailure] at hmessage
        cases hmessage

/-- **`convertToDFA` raises its fatal error only for two terminal states on one input**: where
the ε-closure of every set the subset simulation reaches holds at most one terminal state, and
the local states of each fit a `LocalStateSet`, the loop does not end with
`NFA has multiple possible terminal states for the same input`. -/
theorem convertToDFA_ne_fatal (hunique : builder.TerminalsUnique)
    (hlocal : builder.LocalStatesFit) (message : String) :
    convertToDFA builder ≠ some (.error (.fatal message)) := by
  obtain ⟨final, hrun, -, -, -⟩ := run_convert_spec builder
  have hinv := @WhileLoop.inv_of_run_eq_some _ convertCond (convertBody builder) (NoFatal builder)
    (fun _ hstate hcond => hstate.convertBody hunique hlocal hcond) _ _ _ hrun (noFatal_init builder)
  rw [convertToDFA, hrun, Option.map_some]
  intro h
  cases hfailure : final.failure with
  | none =>
    rw [hfailure] at h
    cases h
  | some error =>
    rw [hfailure] at h
    cases h
    exact hinv.not_fatal message hfailure

/-- The NFA of `a` that leads to the terminal state `maximumTerminalStateIndex` has one terminal
state, and its local states fit: the loop does not end with the fatal error. -/
theorem convertToDFA_ne_fatal_a :
    let builder : Builder :=
      addEdge createBuilder 0 (CharSet.singleton 97) maximumTerminalStateIndex
    builder.TerminalsUnique ∧ builder.LocalStatesFit ∧
      convertToDFA builder ≠ some (.error (.fatal multipleTerminalStatesMessage)) := by
  intro builder
  have hedges : builder.edgeTargets = [maximumTerminalStateIndex] := by decide
  have hepsilon : builder.epsilonTargets = [] := by decide
  -- the one terminal state of every closure is the target of the edge
  have hterminal : ∀ A, builder.SubsetReachable A →
      ∀ x ∈ builder.toεNFA.εClosure A ∩ {t | t < 0}, x = maximumTerminalStateIndex := by
    rintro A hA x ⟨hx, hneg⟩
    rcases hA.mem_εClosure hx with rfl | hx | hx
    · exact absurd hneg (lt_irrefl (0 : ℤ))
    · rw [hedges] at hx
      exact List.mem_singleton.1 hx
    · rw [hepsilon] at hx
      cases hx
  have hunique : builder.TerminalsUnique := fun A hA x hx y hy =>
    (hterminal A hA x hx).trans (hterminal A hA y hy).symm
  have hlocal : builder.LocalStatesFit :=
    Builder.localStatesFit_of_edgeTargets (by rw [hedges]; decide)
  exact ⟨hunique, hlocal, convertToDFA_ne_fatal hunique hlocal _⟩

end Loop

end Wavm.NFA
