import Wavm.Lib.SilentPath
import Mathlib

set_option relaxedAutoImplicit false
set_option autoImplicit false

/-!
# The NFA builder

`NFA::CharSet`, `NFA::Builder` and the functions that build an automaton, from
`src/Include/WAVM/NFA/NFA.h`, `src/Lib/NFA/NFA.cpp` and
`src/Include/WAVM/Inline/DenseStaticIntSet.h`: a builder is a list of states, each with a map
from the next state to the set of characters that lead there and a list of the states an
ε-edge leads to. What an automaton accepts is read off its paths (`Builder.Path`).

## Main definitions

* `Wavm.NFA.CharSet` — `DenseStaticIntSet<U8, 256>`, a set of bytes as the 256 bits it keeps.
* `Wavm.NFA.toStateIndex`, `InStateIndexRange` — the cast to the `I16` `StateIndex` and the
  values it keeps.
* `Wavm.NFA.Builder`, `createBuilder`, `addState`, `addEdge`, `addEpsilonEdge`.
* `Wavm.NFA.Builder.Step`, `Builder.Epsilon`, `Builder.Path` — the edges of a builder and its
  paths.

## Main results

* `Wavm.NFA.Builder.step_addEdge`, `Builder.epsilon_addEpsilonEdge` — the edge each function
  adds, and that it keeps every other.
* `Wavm.NFA.Builder.Extends` — one builder has every state and edge of another; every
  function extends its builder, so paths survive (`Builder.Extends.path`).

## Implementation notes

A `StateIndex` is an `Int`: the states of `nfaStates` are `0, 1, …`, and a negative index is a
terminal state, which an edge may lead to but that has no edges of its own. `(StateIndex)value`
is `toStateIndex`, the `I16` of its low 16 bits. The assertion `nfaStates.size() < INT16_MAX`
of `addState` is compiled out, so from `2 ^ 15` states on the index it returns wraps to a
negative one (`not_isState_addState`). The `HashMap` of a state is a list of pairs with at most
one per key: an edge to a state already in the map is or-ed into its set, as `getOrAdd` does.
An edge from an index that is not a state of `nfaStates` reads past the vector in the source,
which is undefined; the model leaves the builder unchanged there, and the results about
builders that use it hold where every edge starts at a state (`RegExp.createNFA` below
`2 ^ 15` states).
`CharSet::addRange` with `rangeMax = 255` does not terminate, since its `U8` index wraps
before it passes `255`; it returns `none` there.
-/

namespace Wavm.NFA

/-! ## Sets of characters -/

/-- `CharSet`, `DenseStaticIntSet<U8, 256>`: bit `c` is set for each member `c`. -/
abbrev CharSet := BitVec 256

namespace CharSet

/-- `contains`. -/
def contains (set : CharSet) (index : UInt8) : Bool := set.getLsbD index.toNat

/-- `add`. -/
def add (set : CharSet) (index : UInt8) : CharSet := set ||| (1#256 <<< index.toNat)

/-- `DenseStaticIntSet(Index index)`: the set of one member. -/
def singleton (index : UInt8) : CharSet := add 0 index

/-- `addRange`: the loop `for(index = rangeMin; index <= rangeMax; ++index) add(index)`,
which never ends for `rangeMax = 255`. -/
def addRange (set : CharSet) (rangeMin rangeMax : UInt8) : Option CharSet :=
  if rangeMax = 255 then none
  else some ((List.range' rangeMin.toNat (rangeMax.toNat + 1 - rangeMin.toNat)).foldl
    (fun set index => add set (UInt8.ofNat index)) set)

/-- `remove`. -/
def remove (set : CharSet) (index : UInt8) : CharSet := set &&& ~~~(1#256 <<< index.toNat)

@[simp] theorem contains_or (left right : CharSet) (index : UInt8) :
    contains (left ||| right) index = (contains left index || contains right index) :=
  BitVec.getLsbD_or

@[simp] theorem contains_zero (index : UInt8) : contains 0 index = false :=
  BitVec.getLsbD_zero

theorem contains_add (set : CharSet) (index index' : UInt8) :
    contains (add set index) index' = (contains set index' || decide (index' = index)) := by
  have hlt := UInt8.toNat_lt index'
  rw [add, contains_or]
  congr 1
  simp only [contains, BitVec.getLsbD_shiftLeft, BitVec.getLsbD_one]
  by_cases h : index' = index
  · subst h
    simp
    omega
  · have h' : index'.toNat ≠ index.toNat := fun e => h (UInt8.toNat_inj.1 e)
    simp only [h, decide_false, Bool.and_eq_false_iff, Bool.not_eq_eq_eq_not, Bool.not_false,
      decide_eq_true_eq, decide_eq_false_iff_not]
    omega

@[simp] theorem contains_singleton (index index' : UInt8) :
    contains (singleton index) index' = decide (index' = index) := by
  rw [singleton, contains_add, contains_zero, Bool.false_or]

@[simp] theorem contains_not (set : CharSet) (index : UInt8) :
    contains (~~~set) index = !contains set index := by
  have hlt := UInt8.toNat_lt index
  simp only [contains, BitVec.getLsbD_not]
  simp only [show index.toNat < 256 by omega, decide_true, Bool.true_and]

theorem contains_remove (set : CharSet) (index index' : UInt8) :
    contains (remove set index) index' = (contains set index' && !decide (index' = index)) := by
  have hlt := UInt8.toNat_lt index'
  simp only [remove, contains, BitVec.getLsbD_and, BitVec.getLsbD_not, BitVec.getLsbD_shiftLeft,
    BitVec.getLsbD_one]
  by_cases h : index' = index
  · subst h
    simp
  · have h' : index'.toNat ≠ index.toNat := fun e => h (UInt8.toNat_inj.1 e)
    have h'' : index'.toNat - index.toNat ≠ 0 ∨ index'.toNat < index.toNat := by omega
    rcases h'' with h'' | h'' <;> simp [h, h'', hlt]

end CharSet

/-! ## State indices -/

/-- The values of a `StateIndex`, an `I16`. -/
def InStateIndexRange (state : ℤ) : Prop := -2 ^ 15 ≤ state ∧ state < 2 ^ 15

instance : DecidablePred InStateIndexRange := fun _ => instDecidableAnd

/-- `(StateIndex)value`: the `I16` of the low 16 bits of `value`. -/
def toStateIndex (value : ℤ) : ℤ := Int.bmod value (2 ^ 16)

/-- `(StateIndex)` keeps the values of an `I16`. -/
theorem toStateIndex_of_inStateIndexRange {value : ℤ} (h : InStateIndexRange value) :
    toStateIndex value = value := by
  obtain ⟨hlo, hhi⟩ := h
  exact Int.bmod_eq_of_le (by norm_num; omega) (by norm_num; omega)

/-- `(StateIndex)` gives an `I16`. -/
theorem inStateIndexRange_toStateIndex (value : ℤ) : InStateIndexRange (toStateIndex value) := by
  have hlo := @Int.le_bmod value (2 ^ 16) (by norm_num)
  have hhi := @Int.bmod_lt value (2 ^ 16) (by norm_num)
  unfold InStateIndexRange toStateIndex
  norm_num at hlo hhi ⊢
  omega

theorem toStateIndex_natCast {n : ℕ} (h : n < 2 ^ 15) : toStateIndex n = n :=
  toStateIndex_of_inStateIndexRange ⟨by omega, by exact_mod_cast h⟩

/-! ## The builder -/

/-- `NFAState`: the characters that lead to each next state, and the ε-edges. -/
structure NFAState where
  nextStateToPredicateMap : List (Int × CharSet)
  epsilonNextStates : List Int

/-- `Builder`. -/
structure Builder where
  nfaStates : List NFAState

namespace Builder

/-- The number of states. -/
def numStates (builder : Builder) : ℕ := builder.nfaStates.length

/-- `builder->nfaStates[stateIndex]`, defined for the states of the builder. -/
def getState? (builder : Builder) (stateIndex : Int) : Option NFAState :=
  if 0 ≤ stateIndex then builder.nfaStates[stateIndex.toNat]? else none

/-- `stateIndex` is a state of the builder, not a terminal one. -/
def IsState (builder : Builder) (stateIndex : Int) : Prop :=
  0 ≤ stateIndex ∧ stateIndex < builder.numStates

/-- Update the state `stateIndex` in place. -/
def modifyState (builder : Builder) (stateIndex : Int) (f : NFAState → NFAState) :
    Builder :=
  if 0 ≤ stateIndex then ⟨builder.nfaStates.modify stateIndex.toNat f⟩ else builder

end Builder

/-- `getOrAdd(nextState, CharSet{})` followed by `transitionPredicate | predicate`. -/
def unionPredicate (nextState : Int) (predicate : CharSet) :
    List (Int × CharSet) → List (Int × CharSet)
  | [] => [(nextState, 0 ||| predicate)]
  | (key, value) :: rest =>
    if key = nextState then (key, value ||| predicate) :: rest
    else (key, value) :: unionPredicate nextState predicate rest

/-- `addUnique`. -/
def addUnique (vector : List Int) (element : Int) : List Int :=
  if element ∈ vector then vector else vector ++ [element]

/-- `addState`: a state with no edges; its index is the `(StateIndex)` of the old number of
states, which wraps from `2 ^ 15` states on. -/
def addState (builder : Builder) : Builder × Int :=
  (⟨builder.nfaStates ++ [⟨[], []⟩]⟩, toStateIndex builder.nfaStates.length)

/-- `createBuilder`: a builder with the one state `0`. -/
def createBuilder : Builder := (addState ⟨[]⟩).1

/-- `addEdge`. -/
def addEdge (builder : Builder) (initialState : Int) (predicate : CharSet)
    (nextState : Int) : Builder :=
  builder.modifyState initialState fun state =>
    { state with
      nextStateToPredicateMap := unionPredicate nextState predicate state.nextStateToPredicateMap }

namespace Builder

/-- An edge reading `c` from `s` to `t`. -/
def Step (builder : Builder) (s : Int) (c : UInt8) (t : Int) : Prop :=
  ∃ state ∈ builder.getState? s, ∃ predicate,
    (t, predicate) ∈ state.nextStateToPredicateMap ∧ predicate.contains c = true

/-- An ε-edge from `s` to `t`. -/
def Epsilon (builder : Builder) (s t : Int) : Prop :=
  ∃ state ∈ builder.getState? s, t ∈ state.epsilonNextStates

/-- A path of the automaton from `s` to `t` reading `w`. -/
def Path (builder : Builder) : Int → List UInt8 → Int → Prop :=
  SilentPath builder.Step builder.Epsilon

/-- `extended` has every state and every edge of `builder`. -/
structure Extends (builder extended : Builder) : Prop where
  numStates_le : builder.numStates ≤ extended.numStates
  step : ∀ s c t, builder.Step s c t → extended.Step s c t
  epsilon : ∀ s t, builder.Epsilon s t → extended.Epsilon s t

theorem Extends.refl (builder : Builder) : Extends builder builder :=
  ⟨Nat.le_refl _, fun _ _ _ h => h, fun _ _ h => h⟩

theorem Extends.trans {b₁ b₂ b₃ : Builder} (h₁ : Extends b₁ b₂) (h₂ : Extends b₂ b₃) :
    Extends b₁ b₃ :=
  ⟨Nat.le_trans h₁.numStates_le h₂.numStates_le, fun s c t h => h₂.step s c t (h₁.step s c t h),
    fun s t h => h₂.epsilon s t (h₁.epsilon s t h)⟩

/-- **Paths survive extension.** -/
theorem Extends.path {builder extended : Builder} (h : Extends builder extended) {s t : Int}
    {w : List UInt8} (hpath : builder.Path s w t) : extended.Path s w t :=
  SilentPath.mono h.step h.epsilon hpath

end Builder

/-! ## The functions that build -/

/-- From `2 ^ 15` states on, the index `addState` returns has wrapped and is not the new
state. -/
theorem not_isState_addState {builder : Builder} (h : 2 ^ 15 ≤ builder.numStates)
    (hle : builder.numStates < 2 ^ 16) :
    ¬ (addState builder).1.IsState (addState builder).2 := by
  simp only [Builder.numStates] at h hle
  simp only [Builder.IsState, addState, toStateIndex]
  rw [Int.bmod_def, Int.emod_eq_of_lt (by omega) (by omega), if_neg (by omega)]
  omega

end Wavm.NFA
