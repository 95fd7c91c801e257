import Mathlib
import Wavm.NFA.DFA
import Wavm.Lib.FiniteLists

set_option relaxedAutoImplicit false
set_option autoImplicit false

/-!
# One round of `convertToDFA`

What each step of a round of `convertToDFA` computes, stated without its loops: the closure
holds what the ε-edges reach; the split is the closure's non-terminal states and its one
terminal state; the local states are the next states of the edges and the current terminal
state; and the state set of a character is the next states of the edges on it, or the current
terminal state where there is none. The lemmas are about any state set without repeats, and
are put together in `Wavm.NFA.DFARun`.

## Main results

* `Wavm.NFA.epsilonClosure_spec`, `splitClosure_eq` — the closure and its split.
* `Wavm.NFA.mem_nextStateSetOf_nextLocalStateSet` — the state set each character leads to.
* `Wavm.NFA.mem_uniqueLocalNextStateSets` — each character's local set is one of the unique
  ones.
-/

namespace Wavm.NFA

open ScanClosure (mem_addUnique nodup_addUnique mem_foldl_addUnique nodup_foldl_addUnique)

/-! ## Reads of a vector -/

section GetAt

variable {α : Type} {vector : List α} {index : ℤ} {a : α}

theorem mem_of_getAt?_eq_some (h : getAt? vector index = some a) : a ∈ vector := by
  unfold getAt? at h
  split_ifs at h
  exact List.mem_of_getElem? h

theorem nonneg_of_getAt?_eq_some (h : getAt? vector index = some a) : 0 ≤ index := by
  unfold getAt? at h
  split_ifs at h with hindex
  exact hindex

theorem getAt?_natCast (vector : List α) (n : ℕ) : getAt? vector n = vector[n]? := by
  rw [getAt?, if_pos (Int.natCast_nonneg n), Int.toNat_natCast]

theorem getAt?_of_neg (vector : List α) (h : index < 0) : getAt? vector index = none := by
  rw [getAt?, if_neg (by omega)]

end GetAt

/-! ## The builder's lists -/

namespace Builder

theorem nfaState_eq_or (builder : Builder) (stateIndex : ℤ) :
    builder.nfaState stateIndex ∈ builder.nfaStates ∨ builder.nfaState stateIndex = ⟨[], []⟩ := by
  unfold nfaState
  rw [List.getD_eq_getElem?_getD]
  cases h : builder.nfaStates[stateIndex.toNat]? with
  | none => exact Or.inr rfl
  | some nfaState => exact Or.inl (List.mem_of_getElem? h)

theorem mem_epsilonTargets {builder : Builder} {stateIndex t : ℤ}
    (h : t ∈ (builder.nfaState stateIndex).epsilonNextStates) : t ∈ builder.epsilonTargets := by
  rcases builder.nfaState_eq_or stateIndex with hmem | hnil
  · exact List.mem_flatMap.2 ⟨_, hmem, h⟩
  · rw [hnil] at h
    cases h

theorem mem_edgeTargets {builder : Builder} {stateIndex t : ℤ} {predicate : CharSet}
    (h : (t, predicate) ∈ (builder.nfaState stateIndex).nextStateToPredicateMap) :
    t ∈ builder.edgeTargets := by
  rcases builder.nfaState_eq_or stateIndex with hmem | hnil
  · exact List.mem_flatMap.2 ⟨_, hmem, List.mem_map.2 ⟨_, h, rfl⟩⟩
  · rw [hnil] at h
    cases h

theorem mem_stateIndexValues_of_edgeTargets {builder : Builder} {t : ℤ}
    (h : t ∈ builder.edgeTargets) : t ∈ builder.stateIndexValues := by
  unfold stateIndexValues
  simp [h]

theorem mem_stateIndexValues_of_epsilonTargets {builder : Builder} {t : ℤ}
    (h : t ∈ builder.epsilonTargets) : t ∈ builder.stateIndexValues := by
  unfold stateIndexValues
  simp [h]

theorem zero_mem_stateIndexValues (builder : Builder) : 0 ∈ builder.stateIndexValues := by
  unfold stateIndexValues
  simp

/-- The values are closed under `| edgeDoesntConsumeInputFlag`, which is idempotent. -/
theorem setDoesntConsumeInput_mem_stateIndexValues {builder : Builder} {t : ℤ}
    (h : t ∈ builder.stateIndexValues) : setDoesntConsumeInput t ∈ builder.stateIndexValues := by
  unfold stateIndexValues at *
  simp only [List.mem_append, List.mem_map, List.mem_singleton] at *
  rcases h with (h | ⟨b, hb, rfl⟩) | rfl
  · exact Or.inl (Or.inr ⟨t, h, rfl⟩)
  · exact Or.inl (Or.inr ⟨b, hb, (setDoesntConsumeInput_idem b).symm⟩)
  · exact Or.inr (setDoesntConsumeInput_idem _)

theorem unmatched_mem_stateIndexValues (builder : Builder) :
    setDoesntConsumeInput unmatchedCharacterTerminal ∈ builder.stateIndexValues := by
  unfold stateIndexValues
  simp

end Builder

/-! ## The closure and its split -/

/-- **The closure loop ends**, from a state set without repeats, with what the ε-edges reach from
it, each once. -/
theorem epsilonClosure_spec (builder : Builder) {currentStateSet : StateSet}
    (hnodup : currentStateSet.Nodup) :
    (epsilonClosure builder currentStateSet).Nodup ∧
      ∀ x, x ∈ epsilonClosure builder currentStateSet ↔
        ScanClosure.Reach builder.epsilonNextStatesOf currentStateSet x := by
  obtain ⟨result, hresult, hnodup', hmem⟩ := @ScanClosure.closure_spec _ _
    builder.epsilonNextStatesOf currentStateSet (currentStateSet ++ builder.epsilonTargets) hnodup
    (fun x hx => List.mem_append_left _ hx)
    (fun a b hb => by
      unfold Builder.epsilonNextStatesOf at hb
      split_ifs at hb
      · exact List.mem_append_right _ (Builder.mem_epsilonTargets hb)
      · cases hb)
    (currentStateSet.length + builder.epsilonTargets.length + 1) (by rw [List.length_append]; omega)
  rw [epsilonClosure, hresult, Option.getD_some]
  exact ⟨hnodup', hmem⟩

/-- **The split of the closure**, without its loop: the non-terminal states in order, and the
first terminal state; two terminal states, with the one given first, are the fatal error. -/
theorem splitClosure_eq (closure nonTerminalCurrentStateSet : StateSet)
    (terminalState : Option ℤ) :
    splitClosure closure nonTerminalCurrentStateSet terminalState =
      if 2 ≤ (terminalState.toList ++ closure.filter (fun x => decide (x < 0))).length then
        .error multipleTerminalStatesMessage
      else
        .ok ((closure.filter (fun x => decide (0 ≤ x))).foldl ScanClosure.addUnique
            nonTerminalCurrentStateSet,
          (terminalState.toList ++ closure.filter (fun x => decide (x < 0))).head?) := by
  induction closure generalizing nonTerminalCurrentStateSet terminalState with
  | nil =>
    cases terminalState <;> simp [splitClosure]
  | cons stateIndex rest ih =>
    by_cases hstate : 0 ≤ stateIndex
    · have hneg : ¬ stateIndex < 0 := by omega
      simp only [splitClosure, if_pos hstate, ih, List.filter_cons, decide_eq_true hstate,
        decide_eq_false hneg, if_true, Bool.false_eq_true, if_false, List.foldl_cons]
    · have hneg : stateIndex < 0 := by omega
      cases terminalState with
      | none =>
        simp only [splitClosure, if_neg hstate, ih, List.filter_cons, decide_eq_true hneg,
          decide_eq_false hstate, if_true, Bool.false_eq_true, if_false, Option.toList_none,
          Option.toList_some, List.nil_append, List.singleton_append]
        rfl
      | some terminal =>
        simp only [splitClosure, if_neg hstate, List.filter_cons, decide_eq_true hneg, if_true,
          Option.toList_some, List.singleton_append, List.length_cons]
        rw [if_pos (by omega)]

/-- The fatal error of the split has its one message. -/
theorem eq_multipleTerminalStatesMessage_of_splitClosure {closure : StateSet} {message : String}
    (h : splitClosure closure [] none = .error message) : message = multipleTerminalStatesMessage := by
  rw [splitClosure_eq] at h
  split_ifs at h
  cases h
  rfl

/-- **The fatal error of the split** comes from two terminal states of a closure without
repeats. -/
theorem exists_ne_of_splitClosure_eq_error {closure : StateSet} {message : String}
    (hnodup : closure.Nodup) (h : splitClosure closure [] none = .error message) :
    ∃ a ∈ closure, ∃ b ∈ closure, a < 0 ∧ b < 0 ∧ a ≠ b := by
  rw [splitClosure_eq] at h
  split_ifs at h with hlength
  simp only [Option.toList_none, List.nil_append] at hlength
  have hfilter := hnodup.filter (fun x => decide (x < 0))
  -- the first two terminal states of the closure
  match hterminal : closure.filter (fun x => decide (x < 0)), hlength with
  | a :: b :: _, _ =>
    rw [hterminal] at hfilter
    have ha : a ∈ closure.filter (fun x => decide (x < 0)) := hterminal ▸ List.mem_cons_self
    have hb : b ∈ closure.filter (fun x => decide (x < 0)) :=
      hterminal ▸ List.mem_cons_of_mem _ List.mem_cons_self
    rw [List.mem_filter, decide_eq_true_eq] at ha hb
    exact ⟨a, ha.1, b, hb.1, ha.2, hb.2, fun hab => (List.nodup_cons.1 hfilter).1
      (hab ▸ List.mem_cons_self)⟩

/-- **A split without the fatal error**: the non-terminal states of the closure, each once, and
its terminal state where it has one, which is then its only one. -/
theorem splitClosure_eq_ok {closure nonTerminalCurrentStateSet : StateSet}
    {terminalState : Option ℤ}
    (h : splitClosure closure [] none = .ok (nonTerminalCurrentStateSet, terminalState)) :
    nonTerminalCurrentStateSet.Nodup ∧
      (∀ x, x ∈ nonTerminalCurrentStateSet ↔ x ∈ closure ∧ 0 ≤ x) ∧
      ∀ t, t ∈ closure ∧ t < 0 ↔ terminalState = some t := by
  rw [splitClosure_eq] at h
  split_ifs at h with hlength
  obtain ⟨rfl, rfl⟩ := Prod.mk.inj (Except.ok.inj h)
  refine ⟨nodup_foldl_addUnique _ List.nodup_nil, fun x => by simp [mem_foldl_addUnique], ?_⟩
  intro t
  have hmem : t ∈ closure ∧ t < 0 ↔ t ∈ closure.filter (fun x => decide (x < 0)) := by simp
  rw [hmem]
  simp only [Option.toList_none, List.nil_append] at hlength ⊢
  -- at most one terminal state, which is then the first
  match hterminal : closure.filter (fun x => decide (x < 0)), hlength with
  | [], _ => simp
  | [a], _ => simp [eq_comm]
  | _ :: _ :: _, hlength => simp at hlength

/-! ## The local states -/

theorem localStateIndexToStateIndexMap_eq (builder : Builder)
    (nonTerminalCurrentStateSet : StateSet) (currentTerminalState : ℤ) :
    localStateIndexToStateIndexMap builder nonTerminalCurrentStateSet currentTerminalState =
      ScanClosure.addUnique
        (((edgesOf builder nonTerminalCurrentStateSet).map Prod.fst).foldl ScanClosure.addUnique [])
        currentTerminalState := by
  rw [localStateIndexToStateIndexMap, edgesOf, List.foldl_map, List.foldl_flatMap]

theorem mem_localStateIndexToStateIndexMap {builder : Builder}
    {nonTerminalCurrentStateSet : StateSet} {currentTerminalState x : ℤ} :
    x ∈ localStateIndexToStateIndexMap builder nonTerminalCurrentStateSet currentTerminalState ↔
      (∃ predicate, (x, predicate) ∈ edgesOf builder nonTerminalCurrentStateSet) ∨
        x = currentTerminalState := by
  rw [localStateIndexToStateIndexMap_eq, mem_addUnique, mem_foldl_addUnique, List.mem_map]
  simp

theorem nodup_localStateIndexToStateIndexMap (builder : Builder)
    (nonTerminalCurrentStateSet : StateSet) (currentTerminalState : ℤ) :
    (localStateIndexToStateIndexMap builder nonTerminalCurrentStateSet currentTerminalState).Nodup := by
  rw [localStateIndexToStateIndexMap_eq]
  exact nodup_addUnique (nodup_foldl_addUnique _ List.nodup_nil) _

/-- The position of a local state in `localStateIndexToStateIndexMap`, as a `StateIndex`. -/
theorem toNat_localStateIndex {localStates : List ℤ} (hlength : localStates.length ≤ 64)
    (stateIndex : ℤ) :
    (localStateIndex localStates stateIndex).toNat = localStates.idxOf stateIndex := by
  have := @List.idxOf_le_length _ _ _ localStates stateIndex
  rw [localStateIndex, BitVec.toNat_ofNat, Nat.mod_eq_of_lt (by omega)]

/-- **The loop `for(charIndex …)` of a round** succeeds exactly when each character does, with
what each gives. -/
theorem forEachChar_eq_some_iff {α : Type} {f : UInt8 → Option α} {g : UInt8 → α} :
    forEachChar f = some g ↔ ∀ c, f c = some (g c) := by
  unfold forEachChar
  split_ifs with h
  · rw [Option.some.injEq]
    constructor
    · rintro rfl c
      exact (Option.some_get (h c)).symm
    · intro hg
      funext c
      exact Option.some.inj ((Option.some_get (h c)).trans (hg c))
  · simp only [false_iff]
    intro hg
    exact h fun c => by rw [hg c]; rfl

theorem forEachChar_eq_none_iff {α : Type} {f : UInt8 → Option α} :
    forEachChar f = none ↔ ∃ c, f c = none := by
  unfold forEachChar
  split_ifs with h
  · simp only [false_iff, not_exists]
    intro c hc
    simpa [hc] using h c
  · simp only [true_iff]
    obtain ⟨c, hc⟩ := not_forall.1 h
    exact ⟨c, Option.not_isSome_iff_eq_none.1 hc⟩

section LocalStates

variable {builder : Builder} {nonTerminalCurrentStateSet : StateSet} {currentTerminalState : ℤ}
  {localStates : List ℤ} {c : UInt8} {set : LocalStateSet}

/-- **The local set of a character**, where none of its `add`s fails: the `(StateIndex)`
positions of the next states of its edges. -/
theorem mem_members_of_charToLocalStateSet_eq_some
    (h : charToLocalStateSet builder nonTerminalCurrentStateSet localStates c = some set)
    (i : ℕ) :
    i ∈ set.members ↔ ∃ transition ∈ edgesOf builder nonTerminalCurrentStateSet,
      transition.2.contains c = true ∧ (localStateIndex localStates transition.1).toNat = i := by
  rw [DenseStaticIntSet.mem_members_of_foldlM_add_eq_some
    (fun transition : ℤ × CharSet => transition.2.contains c)
    (fun transition => localStateIndex localStates transition.1) _ h i,
    DenseStaticIntSet.members_empty]
  simp only [List.not_mem_nil, false_or]
  exact exists_congr fun transition => and_congr_right fun _ => and_congr_right fun _ => eq_comm

/-- **The undefined `add`s of a round**: the set of a character fails exactly where one of
its edges leads to a local state whose `(StateIndex)` position is past the `64` bits. -/
theorem charToLocalStateSet_eq_none_iff :
    charToLocalStateSet builder nonTerminalCurrentStateSet localStates c = none ↔
      ∃ transition ∈ edgesOf builder nonTerminalCurrentStateSet,
        transition.2.contains c = true ∧ 64 ≤ (localStateIndex localStates transition.1).toNat :=
  DenseStaticIntSet.foldlM_add_eq_none_iff _ _ _ _

/-- The local set of a character once a character with no edge leads to the current terminal
state: the positions of the next states of its edges, or that of the current terminal state
where there is none. -/
theorem mem_members_of_nextLocalStateSet_eq_some
    (h : nextLocalStateSet builder nonTerminalCurrentStateSet localStates currentTerminalState c =
      some set) (i : ℕ) :
    i ∈ set.members ↔
      if ∃ transition ∈ edgesOf builder nonTerminalCurrentStateSet,
          transition.2.contains c = true then
        ∃ transition ∈ edgesOf builder nonTerminalCurrentStateSet,
          transition.2.contains c = true ∧ (localStateIndex localStates transition.1).toNat = i
      else i = (localStateIndex localStates currentTerminalState).toNat := by
  simp only [nextLocalStateSet, Option.bind_eq_bind, Option.bind_eq_some_iff, Option.pure_def,
    Option.some.injEq] at h
  obtain ⟨edgeSet, hedgeSet, terminalSet, hterminalSet, rfl⟩ := h
  -- the set of the edges is empty exactly when no edge reads the character
  have hempty : edgeSet.isEmpty = true ↔ ¬ ∃ transition ∈ edgesOf builder nonTerminalCurrentStateSet,
      transition.2.contains c = true := by
    rw [DenseStaticIntSet.isEmpty_iff_members_eq_nil, List.eq_nil_iff_forall_not_mem]
    simp only [mem_members_of_charToLocalStateSet_eq_some hedgeSet]
    constructor
    · rintro h ⟨transition, htransition, hc⟩
      exact h _ ⟨transition, htransition, hc, rfl⟩
    · rintro h i ⟨transition, htransition, hc, -⟩
      exact h ⟨transition, htransition, hc⟩
  by_cases hedge : ∃ transition ∈ edgesOf builder nonTerminalCurrentStateSet,
      transition.2.contains c = true
  · rw [if_pos hedge, if_neg (fun h => hempty.1 h hedge),
      mem_members_of_charToLocalStateSet_eq_some hedgeSet]
  · rw [if_neg hedge, if_pos (hempty.2 hedge),
      DenseStaticIntSet.members_of_singleton_eq_some hterminalSet, List.mem_singleton]

/-- With any number of local states, a local set holds only positions of local states. -/
theorem lt_length_of_mem_members_of_nextLocalStateSet_eq_some
    (hedge : ∀ transition ∈ edgesOf builder nonTerminalCurrentStateSet,
      transition.1 ∈ localStates)
    (hterminal : currentTerminalState ∈ localStates)
    (h : nextLocalStateSet builder nonTerminalCurrentStateSet localStates currentTerminalState c =
      some set) {i : ℕ} (hi : i ∈ set.members) :
    i < localStates.length := by
  -- a position is the `idxOf` of a local state cut to 16 bits, so no larger
  have hindex : ∀ x ∈ localStates, (localStateIndex localStates x).toNat < localStates.length :=
    fun x hx => by
      rw [localStateIndex, BitVec.toNat_ofNat]
      exact (Nat.mod_le _ _).trans_lt (List.idxOf_lt_length_iff.2 hx)
  rw [mem_members_of_nextLocalStateSet_eq_some h] at hi
  split_ifs at hi
  · obtain ⟨transition, htransition, -, rfl⟩ := hi
    exact hindex _ (hedge transition htransition)
  · rw [hi]
    exact hindex _ hterminal

/-- What the lemmas of a round use of `localStateIndexToStateIndexMap`: no repeats, at most
`64` local states, among them the next state of each edge and the current terminal state. -/
structure LocalStates (builder : Builder) (nonTerminalCurrentStateSet : StateSet)
    (currentTerminalState : ℤ) (localStates : List ℤ) : Prop where
  nodup : localStates.Nodup
  length_le : localStates.length ≤ 64
  mem_of_edge : ∀ transition ∈ edgesOf builder nonTerminalCurrentStateSet,
    transition.1 ∈ localStates
  mem_terminal : currentTerminalState ∈ localStates

theorem localStates_localStateIndexToStateIndexMap
    (hlength : (localStateIndexToStateIndexMap builder nonTerminalCurrentStateSet
      currentTerminalState).length ≤ 64) :
    LocalStates builder nonTerminalCurrentStateSet currentTerminalState
      (localStateIndexToStateIndexMap builder nonTerminalCurrentStateSet currentTerminalState) :=
  ⟨nodup_localStateIndexToStateIndexMap _ _ _, hlength,
    fun transition htransition =>
      mem_localStateIndexToStateIndexMap.2 (Or.inl ⟨transition.2, htransition⟩),
    mem_localStateIndexToStateIndexMap.2 (Or.inr rfl)⟩

theorem LocalStates.idxOf_lt
    (hlocal : LocalStates builder nonTerminalCurrentStateSet currentTerminalState localStates)
    {stateIndex : ℤ} (h : stateIndex ∈ localStates) : localStates.idxOf stateIndex < 64 :=
  (List.idxOf_lt_length_iff.2 h).trans_le hlocal.length_le

/-- **With at most `64` local states no `add` fails**, so each character has its local set. -/
theorem LocalStates.nextLocalStateSet_isSome
    (hlocal : LocalStates builder nonTerminalCurrentStateSet currentTerminalState localStates)
    (c : UInt8) :
    (nextLocalStateSet builder nonTerminalCurrentStateSet localStates currentTerminalState
      c).isSome := by
  have hedges : (charToLocalStateSet builder nonTerminalCurrentStateSet localStates c).isSome := by
    rw [Option.isSome_iff_ne_none, ne_eq, charToLocalStateSet_eq_none_iff]
    rintro ⟨transition, htransition, -, hge⟩
    rw [toNat_localStateIndex hlocal.length_le] at hge
    exact absurd (hlocal.idxOf_lt (hlocal.mem_of_edge transition htransition)) (by omega)
  have hterminal : (DenseStaticIntSet.singleton (localStateIndex localStates currentTerminalState) :
      Option LocalStateSet).isSome := by
    apply DenseStaticIntSet.isSome_add
    rw [toNat_localStateIndex hlocal.length_le]
    exact hlocal.idxOf_lt hlocal.mem_terminal
  obtain ⟨edgeSet, hedgeSet⟩ := Option.isSome_iff_exists.1 hedges
  obtain ⟨terminalSet, hterminalSet⟩ := Option.isSome_iff_exists.1 hterminal
  simp [nextLocalStateSet, hedgeSet, hterminalSet]

/-- **The local set of a character** with at most `64` local states: the positions of the next
states of its edges, or that of the current terminal state where it has none. -/
theorem LocalStates.mem_members_of_nextLocalStateSet_eq_some
    (hlocal : LocalStates builder nonTerminalCurrentStateSet currentTerminalState localStates)
    (h : nextLocalStateSet builder nonTerminalCurrentStateSet localStates currentTerminalState c =
      some set) (i : ℕ) :
    i ∈ set.members ↔
      if ∃ transition ∈ edgesOf builder nonTerminalCurrentStateSet,
          transition.2.contains c = true then
        ∃ transition ∈ edgesOf builder nonTerminalCurrentStateSet,
          transition.2.contains c = true ∧ localStates.idxOf transition.1 = i
      else i = localStates.idxOf currentTerminalState := by
  simp only [NFA.mem_members_of_nextLocalStateSet_eq_some h, toNat_localStateIndex hlocal.length_le]

end LocalStates

/-! ## The states of a local set -/

/-- `getSmallestMember` is below `64` exactly for a set with members. -/
theorem residualCond_eq_true_iff (state : LocalStateSet × StateSet) :
    residualCond state = true ↔ state.1.members ≠ [] := by
  have hhead : state.1.members.headD 64 ≤ 64 := by
    cases h : state.1.members with
    | nil => simp
    | cons first rest =>
      have := (DenseStaticIntSet.mem_members.1 (h ▸ List.mem_cons_self : first ∈ state.1.members)).1
      simp only [List.headD_cons]
      omega
  rw [residualCond, DenseStaticIntSet.getSmallestMember_eq, BitVec.toNat_ofNat,
    Nat.mod_eq_of_lt (by omega), bne_iff_ne, ne_eq, ne_eq]
  cases h : state.1.members with
  | nil => simp
  | cons first rest =>
    have := (DenseStaticIntSet.mem_members.1 (h ▸ List.mem_cons_self : first ∈ state.1.members)).1
    simp only [List.headD_cons, reduceCtorEq, not_false_eq_true, iff_true]
    omega

/-- **The loop over a local set's members** lists the local states at its members, in
increasing order. -/
theorem nextStateSetOf_eq (localStates : List ℤ) (set : LocalStateSet) :
    nextStateSetOf localStates set = set.members.map (localStates.getD · 0) := by
  -- what is listed and what is left make up the members; each round lists the smallest
  obtain ⟨final, hrun, hinv, hcond⟩ := @WhileLoop.run_of_variant _ residualCond
    (residualBody localStates)
    (fun state : LocalStateSet × StateSet =>
      state.2 ++ state.1.members.map (localStates.getD · 0) = set.members.map (localStates.getD · 0))
    (fun state => state.1.members.length)
    (fun state hinv hcond => by
      obtain ⟨residual, listed⟩ := state
      have hne := (residualCond_eq_true_iff _).1 hcond
      obtain ⟨first, rest, hmembers⟩ := List.exists_cons_of_ne_nil hne
      have hsmallest : residual.getSmallestMember.toNat = first := by
        have := (DenseStaticIntSet.mem_members.1 (hmembers ▸ List.mem_cons_self :
          first ∈ residual.members)).1
        rw [DenseStaticIntSet.getSmallestMember_eq, hmembers, List.headD_cons, BitVec.toNat_ofNat,
          Nat.mod_eq_of_lt (by omega)]
      have hremove := DenseStaticIntSet.members_remove_getSmallestMember (by norm_num) hmembers
      simp only [residualBody, hremove, hsmallest]
      simp only [hmembers, List.map_cons] at hinv
      refine ⟨by rw [← hinv, List.append_assoc, List.singleton_append], ?_⟩
      rw [hmembers, List.length_cons]
      exact Nat.lt_succ_self _)
    65 (set, []) (by simp) (Nat.lt_succ_of_le (List.length_filter_le _ _))
  have hnil : final.1.members = [] := by
    by_contra h
    exact absurd ((residualCond_eq_true_iff _).2 h) (by simp [hcond])
  rw [nextStateSetOf, hrun, Option.map_some, Option.getD_some, ← hinv, hnil, List.map_nil,
    List.append_nil]

section NextStateSet

variable {builder : Builder} {nonTerminalCurrentStateSet : StateSet} {currentTerminalState : ℤ}
  {localStates : List ℤ} {c : UInt8} {set : LocalStateSet}

/-- Positions without repeats in a list without repeats read distinct entries. -/
theorem nodup_map_getD {localStates : List ℤ} (hnodup : localStates.Nodup) {indices : List ℕ}
    (hindices : indices.Nodup) (hlt : ∀ i ∈ indices, i < localStates.length) :
    (indices.map (localStates.getD · 0)).Nodup := by
  refine hindices.map_on fun i hi j hj h => ?_
  rw [List.getD_eq_getElem _ _ (hlt i hi), List.getD_eq_getElem _ _ (hlt j hj)] at h
  exact (hnodup.getElem_inj_iff).1 h

/-- **The state set a character leads to**: the next states of its edges, each once, or the
current terminal state where it has none. -/
theorem LocalStates.nextStateSetOf_spec
    (hlocal : LocalStates builder nonTerminalCurrentStateSet currentTerminalState localStates)
    (h : nextLocalStateSet builder nonTerminalCurrentStateSet localStates currentTerminalState c =
      some set) :
    (nextStateSetOf localStates set).Nodup ∧
      ∀ x, x ∈ nextStateSetOf localStates set ↔
        if ∃ transition ∈ edgesOf builder nonTerminalCurrentStateSet,
            transition.2.contains c = true then
          ∃ transition ∈ edgesOf builder nonTerminalCurrentStateSet,
            transition.2.contains c = true ∧ transition.1 = x
        else x = currentTerminalState := by
  have hgetD : ∀ stateIndex ∈ localStates,
      localStates.getD (localStates.idxOf stateIndex) 0 = stateIndex := fun stateIndex h => by
    rw [List.getD_eq_getElem _ _ (List.idxOf_lt_length_iff.2 h), List.getElem_idxOf]
  have hmem := hlocal.mem_members_of_nextLocalStateSet_eq_some h
  have hlt : ∀ i ∈ set.members, i < localStates.length :=
    fun i hi => lt_length_of_mem_members_of_nextLocalStateSet_eq_some hlocal.mem_of_edge
      hlocal.mem_terminal h hi
  rw [nextStateSetOf_eq]
  refine ⟨nodup_map_getD hlocal.nodup (DenseStaticIntSet.pairwise_members _).nodup hlt,
    fun x => ?_⟩
  rw [List.mem_map]
  simp only [hmem]
  split_ifs with hedge
  · constructor
    · rintro ⟨i, ⟨transition, htransition, hc, rfl⟩, rfl⟩
      exact ⟨transition, htransition, hc, (hgetD _ (hlocal.mem_of_edge transition htransition)).symm⟩
    · rintro ⟨transition, htransition, hc, rfl⟩
      exact ⟨_, ⟨transition, htransition, hc, rfl⟩,
        hgetD _ (hlocal.mem_of_edge transition htransition)⟩
  · simp only [exists_eq_left, hgetD _ hlocal.mem_terminal, eq_comm]

/-- With any number of local states, the state set a character leads to lists local states,
each once. -/
theorem nextStateSetOf_localStates
    (h : nextLocalStateSet builder nonTerminalCurrentStateSet
      (localStateIndexToStateIndexMap builder nonTerminalCurrentStateSet currentTerminalState)
      currentTerminalState c = some set) :
    (nextStateSetOf
        (localStateIndexToStateIndexMap builder nonTerminalCurrentStateSet currentTerminalState)
        set).Nodup ∧
      ∀ x ∈ nextStateSetOf
          (localStateIndexToStateIndexMap builder nonTerminalCurrentStateSet currentTerminalState)
          set,
        x ∈ localStateIndexToStateIndexMap builder nonTerminalCurrentStateSet currentTerminalState := by
  have hlt := fun i => @lt_length_of_mem_members_of_nextLocalStateSet_eq_some builder
    nonTerminalCurrentStateSet currentTerminalState _ c set
    (fun transition htransition =>
      mem_localStateIndexToStateIndexMap.2 (Or.inl ⟨transition.2, htransition⟩))
    (mem_localStateIndexToStateIndexMap.2 (Or.inr rfl)) h i
  rw [nextStateSetOf_eq]
  refine ⟨nodup_map_getD (nodup_localStateIndexToStateIndexMap _ _ _)
    (DenseStaticIntSet.pairwise_members _).nodup hlt, fun x hx => ?_⟩
  obtain ⟨i, hi, rfl⟩ := List.mem_map.1 hx
  rw [List.getD_eq_getElem _ _ (hlt i hi)]
  exact List.getElem_mem _

end NextStateSet

/-! ## The unique local sets -/

section Unique

variable (charToLocal : UInt8 → LocalStateSet)

theorem mem_foldl_uniqueLocalNextStateSets (indices : List ℕ) (sets : List LocalStateSet)
    (set : LocalStateSet) :
    set ∈ indices.foldl (fun sets charIndex =>
        let localStateSet := charToLocal (UInt8.ofNat charIndex)
        if !localStateSet.isEmpty then ScanClosure.addUnique sets localStateSet else sets) sets ↔
      set ∈ sets ∨ ∃ charIndex ∈ indices,
        charToLocal (UInt8.ofNat charIndex) = set ∧ set.isEmpty = false := by
  induction indices generalizing sets with
  | nil => simp
  | cons charIndex indices ih =>
    rw [List.foldl_cons, ih]
    dsimp only
    split_ifs with hempty
    · rw [mem_addUnique]
      simp only [Bool.not_eq_eq_eq_not, Bool.not_true] at hempty
      constructor
      · rintro ((h | rfl) | ⟨i, hi, h⟩)
        · exact Or.inl h
        · exact Or.inr ⟨charIndex, List.mem_cons_self, rfl, hempty⟩
        · exact Or.inr ⟨i, List.mem_cons_of_mem _ hi, h⟩
      · rintro (h | ⟨i, hi, h⟩)
        · exact Or.inl (Or.inl h)
        · rcases List.mem_cons.1 hi with rfl | hi
          · exact Or.inl (Or.inr h.1.symm)
          · exact Or.inr ⟨i, hi, h⟩
    · have hempty' : (charToLocal (UInt8.ofNat charIndex)).isEmpty = true := by
        simpa using hempty
      constructor
      · rintro (h | ⟨i, hi, h⟩)
        · exact Or.inl h
        · exact Or.inr ⟨i, List.mem_cons_of_mem _ hi, h⟩
      · rintro (h | ⟨i, hi, h⟩)
        · exact Or.inl h
        · rcases List.mem_cons.1 hi with rfl | hi
          · rw [h.1, h.2] at hempty'
            cases hempty'
          · exact Or.inr ⟨i, hi, h⟩

/-- **The unique local sets** are the non-empty sets of the characters. -/
theorem mem_uniqueLocalNextStateSets (set : LocalStateSet) :
    set ∈ uniqueLocalNextStateSets charToLocal ↔ ∃ c, charToLocal c = set ∧ set.isEmpty = false := by
  rw [uniqueLocalNextStateSets, mem_foldl_uniqueLocalNextStateSets]
  simp only [List.not_mem_nil, false_or, List.mem_range]
  constructor
  · rintro ⟨charIndex, -, h⟩
    exact ⟨_, h⟩
  · rintro ⟨c, h⟩
    exact ⟨c.toNat, c.toNat_lt, by rw [UInt8.ofNat_toNat]; exact h⟩

theorem nodup_uniqueLocalNextStateSets : (uniqueLocalNextStateSets charToLocal).Nodup := by
  rw [uniqueLocalNextStateSets]
  -- each round appends a set it does not hold, or nothing
  suffices h : ∀ (indices : List ℕ) (sets : List LocalStateSet), sets.Nodup →
      (indices.foldl (fun sets charIndex =>
        let localStateSet := charToLocal (UInt8.ofNat charIndex)
        if !localStateSet.isEmpty then ScanClosure.addUnique sets localStateSet else sets)
        sets).Nodup from h _ _ List.nodup_nil
  intro indices
  induction indices with
  | nil => exact fun _ h => h
  | cons charIndex indices ih =>
    intro sets hsets
    rw [List.foldl_cons]
    apply ih
    dsimp only
    split_ifs
    · exact nodup_addUnique hsets _
    · exact hsets

end Unique

/-! ## The transitions a round sets -/

/-- **The transitions a round sets**: with each local set a key once, a character leads to the
value of its set's entry, and keeps its state where its set is not a key. -/
theorem nextStateByChar_setTransitions (charToLocal : UInt8 → LocalStateSet) (c : UInt8) :
    ∀ (dfaState : DFAState) (localStateSetToDFAStateIndexMap : List (LocalStateSet × ℤ)),
      (localStateSetToDFAStateIndexMap.map Prod.fst).Nodup →
      (setTransitions charToLocal dfaState localStateSetToDFAStateIndexMap).nextStateByChar c =
        (localStateSetToDFAStateIndexMap.lookup (charToLocal c)).getD (dfaState.nextStateByChar c)
  | _, [], _ => rfl
  | dfaState, entry :: rest, hnodup => by
    rw [List.map_cons, List.nodup_cons] at hnodup
    rw [setTransitions, List.foldl_cons, ← setTransitions,
      nextStateByChar_setTransitions charToLocal c _ rest hnodup.2, List.lookup_cons]
    by_cases hkey : charToLocal c = entry.1
    · -- the key is not in the rest of the map
      have hnone : rest.lookup (charToLocal c) = none := by
        rw [List.lookup_eq_none_iff]
        intro p hp
        rw [hkey, bne_iff_ne, ne_eq]
        exact fun h => hnodup.1 (h ▸ List.mem_map_of_mem hp)
      rw [hkey] at hnone
      simp [hkey, hnone]
    · have hbeq : (charToLocal c == entry.1) = false := beq_eq_false_iff_ne.2 hkey
      simp only [hbeq, hkey, if_false]

end Wavm.NFA
