import Mathlib
import Wavm.NFA.Builder
import Wavm.NFA.Machine

set_option relaxedAutoImplicit false
set_option autoImplicit false

/-!
# What the DFA of a builder computes: the subset simulation

The NFA of a `Builder` is an ε-NFA in the sense of Mathlib: its states are state indices, an edge
reads the characters of its predicate and an ε-edge none, and the negative states are terminal.
The DFA that `convertToDFA` builds runs the subset simulation of it: a DFA state stands for a set
of NFA states, and a character takes its ε-closure on along the edges that read it. The run stops
at a terminal state: where no edge reads the character, the one terminal state of the closure
(or `unmatchedCharacterTerminal`) with `edgeDoesntConsumeInputFlag`, since the character is not
part of the match; where the character leads to a single terminal state, that state.

## Main definitions

* `Wavm.NFA.Builder.toεNFA` — the builder as an `εNFA UInt8 ℤ`.
* `Wavm.NFA.Builder.closedStep`, `Builder.subsetStep` — one character of the simulation.
* `Wavm.NFA.Builder.subsetRun`, `Builder.subsetFeed` — the simulation of `Machine::feed`.
* `Wavm.NFA.Builder.SubsetReachable` — the sets of states the simulation reaches.
* `Wavm.NFA.Builder.TerminalsUnique`, `Builder.LocalStatesFit` — the two limits of
  `convertToDFA`, at most one terminal state and fewer than `64` local states, on those sets.

## Main results

* `Wavm.NFA.Builder.εClosure_nextStates` — the closure of what a character leads to is
  Mathlib's `stepSet`.
* `Wavm.NFA.Builder.subsetRun_eq_some_iff` — the simulation stops at the first character where
  the states the ε-NFA reaches on the input read so far (`εNFA.evalFrom`) stop.
* `Wavm.NFA.Builder.SubsetReachable.exists_eval` — the closure of every set the simulation reaches
  is `εNFA.eval` of a word, so terminal states are unique on those sets where no word leads the
  ε-NFA to two (`terminalsUnique_of_eval`).
-/

namespace Wavm.NFA

namespace Builder

variable (builder : Builder)

/-- The builder as an ε-NFA over characters: an edge reads the characters of its predicate, an
ε-edge none; it starts at the state `0` and accepts at the terminal states. -/
def toεNFA : εNFA UInt8 ℤ where
  step s character := match character with
    | some c => {t | builder.Step s c t}
    | none => {t | builder.Epsilon s t}
  start := {0}
  accept := {t | t < 0}

/-- The states the edges that read `c` lead to from the states `E`. -/
def nextStates (E : Set ℤ) (c : UInt8) : Set ℤ := {t | ∃ s ∈ E, builder.Step s c t}

/-- The terminal state a set of states stops at before a character none of its edges reads: its
terminal state, or `unmatchedCharacterTerminal`, with `edgeDoesntConsumeInputFlag`. -/
noncomputable def closureTerminal (E : Set ℤ) : ℤ :=
  open Classical in
  setDoesntConsumeInput (if h : ∃ t ∈ E, t < 0 then h.choose else unmatchedCharacterTerminal)

/-- One character from an ε-closed set `E` of states: the terminal state it stops at, or the
states it goes on with. -/
noncomputable def closedStep (E : Set ℤ) (c : UInt8) : ℤ ⊕ Set ℤ :=
  open Classical in
  if builder.nextStates E c = ∅ then .inl (closureTerminal E)
  else if h : ∃ t < 0, builder.nextStates E c = {t} then .inl h.choose
  else .inr (builder.nextStates E c)

/-- One character from the set of states `A` of a DFA state: the step from its ε-closure. -/
noncomputable def subsetStep (A : Set ℤ) (c : UInt8) : ℤ ⊕ Set ℤ :=
  builder.closedStep (builder.toεNFA.εClosure A) c

/-- The simulation of the loop of `feed` from the set `A` at the character `nextChar`, with at
most `fuel` characters: the terminal state it stops at and the offset past its last character,
reading `0` past the end of the input as `feed` reads the terminating `NUL`. -/
noncomputable def subsetRun (input : List UInt8) : ℕ → Set ℤ → ℕ → Option (ℤ × ℕ)
  | 0, _, _ => none
  | fuel + 1, A, nextChar =>
    match builder.subsetStep A (input.getD nextChar 0) with
    | .inl t => some (t, nextChar + 1)
    | .inr B => subsetRun input fuel B (nextChar + 1)

/-- The sets of states the simulation reaches from `{0}`. -/
inductive SubsetReachable : Set ℤ → Prop
  | start : SubsetReachable {0}
  | step {A B : Set ℤ} (c : UInt8) :
      SubsetReachable A → builder.subsetStep A c = .inr B → SubsetReachable B

/-- An edge from `s` to `t`, whatever characters its predicate holds. -/
def EdgeTarget (s t : ℤ) : Prop :=
  ∃ state ∈ builder.getState? s, ∃ predicate, (t, predicate) ∈ state.nextStateToPredicateMap

/-- `convertToDFA` requires of the NFA that the ε-closure of each set of states it reaches hold
at most one terminal state. -/
def TerminalsUnique : Prop :=
  ∀ A, builder.SubsetReachable A → (builder.toεNFA.εClosure A ∩ {t | t < 0}).Subsingleton

/-- `numLocalStates <= 64`: the edges of the ε-closure of each set of states the simulation
reaches lead to fewer than `64` states, so that they and the terminal state fit a
`LocalStateSet`. -/
def LocalStatesFit : Prop :=
  ∀ A, builder.SubsetReachable A → ∃ l : List ℤ, l.length < 64 ∧
    ∀ s ∈ builder.toεNFA.εClosure A, ∀ t, builder.EdgeTarget s t → t ∈ l

/-! ## The simulation reads what the ε-NFA evaluates -/

variable {builder}

theorem mem_step_some {s t : ℤ} {c : UInt8} :
    t ∈ builder.toεNFA.step s (some c) ↔ builder.Step s c t := Iff.rfl

theorem mem_step_none {s t : ℤ} : t ∈ builder.toεNFA.step s none ↔ builder.Epsilon s t := Iff.rfl

/-- **The closure of what a character leads to** is the `stepSet` of Mathlib. -/
theorem εClosure_nextStates (E : Set ℤ) (c : UInt8) :
    builder.toεNFA.εClosure (builder.nextStates E c) = builder.toεNFA.stepSet E c := by
  ext x
  rw [εNFA.mem_stepSet_iff, εNFA.mem_εClosure_iff_exists]
  constructor
  · rintro ⟨t, ⟨s, hs, hstep⟩, hx⟩
    exact ⟨s, hs, (εNFA.mem_εClosure_iff_exists _).2 ⟨t, hstep, hx⟩⟩
  · rintro ⟨s, hs, hx⟩
    obtain ⟨t, hstep, hx⟩ := (εNFA.mem_εClosure_iff_exists _).1 hx
    exact ⟨t, ⟨s, hs, hstep⟩, hx⟩

/-- A step that goes on goes on with the states the character leads to. -/
theorem eq_nextStates_of_closedStep {E B : Set ℤ} {c : UInt8}
    (h : builder.closedStep E c = .inr B) : B = builder.nextStates E c := by
  unfold closedStep at h
  split_ifs at h
  exact (Sum.inr.inj h).symm

/-- The word the run reads from `nextChar` in `k` characters, `0` past the input's end. -/
def readWord (input : List UInt8) (nextChar k : ℕ) : List UInt8 :=
  (List.range k).map fun i => input.getD (nextChar + i) 0

theorem readWord_succ (input : List UInt8) (nextChar k : ℕ) :
    readWord input nextChar (k + 1) =
      input.getD nextChar 0 :: readWord input (nextChar + 1) k := by
  simp only [readWord, List.range_succ_eq_map, List.map_cons, List.map_map, Nat.add_zero]
  congr 1
  exact List.map_congr_left fun i _ => by simp [Function.comp, Nat.add_assoc, Nat.add_comm 1 i]

/-- What the ε-NFA evaluates from `B` after the character that led `A` to `B`, it evaluates from
`A` with that character first. -/
theorem evalFrom_of_subsetStep {A B : Set ℤ} {c : UInt8} (h : builder.subsetStep A c = .inr B)
    (word : List UInt8) :
    builder.toεNFA.evalFrom B word = builder.toεNFA.evalFrom A (c :: word) := by
  rw [eq_nextStates_of_closedStep h] at *
  rw [εNFA.evalFrom, εNFA.evalFrom, List.foldl_cons, εClosure_nextStates]

/-- **What the simulation reads**: it stops after `k + 1` characters at `t` exactly when the
states the ε-NFA evaluates on each of the first `k` prefixes go on with the next character, and
those on the `k`-character prefix stop at `t`, with `k` below the fuel. -/
theorem subsetRun_eq_some_iff (input : List UInt8) :
    ∀ (fuel : ℕ) (A : Set ℤ) (nextChar : ℕ) (result : ℤ × ℕ),
      builder.subsetRun input fuel A nextChar = some result ↔
        ∃ k < fuel, result.2 = nextChar + k + 1 ∧
          (∀ i < k, ∃ B, builder.closedStep (builder.toεNFA.evalFrom A (readWord input nextChar i))
            (input.getD (nextChar + i) 0) = .inr B) ∧
          builder.closedStep (builder.toεNFA.evalFrom A (readWord input nextChar k))
            (input.getD (nextChar + k) 0) = .inl result.1
  | 0, _, _, _ => by simp [subsetRun]
  | fuel + 1, A, nextChar, result => by
    -- the first character, then the rest of the run from the states it goes on with
    have hfirst : builder.toεNFA.evalFrom A (readWord input nextChar 0) = builder.toεNFA.εClosure A :=
      rfl
    cases hstep : builder.subsetStep A (input.getD nextChar 0) with
    | inl t =>
      simp only [subsetRun, hstep, Option.some.injEq]
      constructor
      · rintro rfl
        exact ⟨0, Nat.succ_pos _, rfl, fun i hi => absurd hi (Nat.not_lt_zero i),
          by rw [hfirst, Nat.add_zero]; exact hstep⟩
      · rintro ⟨k, -, hk, hbefore, hstop⟩
        cases k with
        | zero =>
          rw [hfirst, Nat.add_zero] at hstop
          rw [subsetStep] at hstep
          rw [hstep, Sum.inl.injEq] at hstop
          exact Prod.ext hstop (by rw [hk])
        | succ k =>
          obtain ⟨B, hB⟩ := hbefore 0 (Nat.succ_pos k)
          rw [hfirst, Nat.add_zero] at hB
          rw [subsetStep] at hstep
          rw [hstep] at hB
          cases hB
    | inr B =>
      simp only [subsetRun, hstep]
      rw [subsetRun_eq_some_iff input fuel B (nextChar + 1) result]
      -- the run from `B` is the run from `A` one character later
      have hshift : ∀ i, builder.toεNFA.evalFrom B (readWord input (nextChar + 1) i) =
          builder.toεNFA.evalFrom A (readWord input nextChar (i + 1)) := fun i => by
        rw [readWord_succ, evalFrom_of_subsetStep hstep]
      constructor
      · rintro ⟨k, hk, hresult, hbefore, hstop⟩
        refine ⟨k + 1, by omega, by rw [hresult]; omega, fun i hi => ?_, ?_⟩
        · cases i with
          | zero => exact ⟨B, by rw [hfirst, Nat.add_zero]; exact hstep⟩
          | succ i =>
            obtain ⟨B', hB'⟩ := hbefore i (by omega)
            exact ⟨B', by rw [← hshift, show nextChar + (i + 1) = nextChar + 1 + i by omega]; exact hB'⟩
        · rw [← hshift, show nextChar + (k + 1) = nextChar + 1 + k by omega]
          exact hstop
      · rintro ⟨k, hk, hresult, hbefore, hstop⟩
        cases k with
        | zero =>
          rw [hfirst, Nat.add_zero] at hstop
          rw [subsetStep] at hstep
          rw [hstep] at hstop
          cases hstop
        | succ k =>
          refine ⟨k, by omega, by rw [hresult]; omega, fun i hi => ?_, ?_⟩
          · obtain ⟨B', hB'⟩ := hbefore (i + 1) (by omega)
            exact ⟨B', by rw [hshift, show nextChar + 1 + i = nextChar + (i + 1) by omega]; exact hB'⟩
          · rw [hshift, show nextChar + 1 + k = nextChar + (k + 1) by omega]
            exact hstop

/-- **The closure of every set the simulation reaches is what the ε-NFA evaluates on a word.** -/
theorem SubsetReachable.exists_eval {A : Set ℤ} (h : builder.SubsetReachable A) :
    ∃ word, builder.toεNFA.εClosure A = builder.toεNFA.eval word := by
  induction h with
  | start => exact ⟨[], rfl⟩
  | step c _ hstep ih =>
    obtain ⟨word, hword⟩ := ih
    refine ⟨word ++ [c], ?_⟩
    rw [εNFA.eval, εNFA.evalFrom_append_singleton, ← εNFA.eval, ← hword,
      eq_nextStates_of_closedStep hstep, εClosure_nextStates]

/-- Terminal states are unique on every set the simulation reaches where they are unique on every
set the ε-NFA evaluates. -/
theorem terminalsUnique_of_eval
    (h : ∀ word, (builder.toεNFA.eval word ∩ {t | t < 0}).Subsingleton) :
    builder.TerminalsUnique := fun A hA => by
  obtain ⟨word, hword⟩ := hA.exists_eval
  rw [hword]
  exact h word

end Builder

end Wavm.NFA
