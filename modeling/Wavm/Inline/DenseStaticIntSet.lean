import Wavm.Lib.WhileLoop
import Wavm.NFA.Builder

set_option relaxedAutoImplicit false
set_option autoImplicit false

/-!
# `DenseStaticIntSet` and the loop of `addRange`

`DenseStaticIntSet<Index, maxIndexPlusOne>` of `src/Include/WAVM/Inline/DenseStaticIntSet.h`,
for an `Index` of `w` bits, signed or unsigned, taken as its bit pattern: one bit for each index
below `maxIndexPlusOne`. `addRange(rangeMin, rangeMax)` is the loop

    for(Index index = rangeMin; index <= rangeMax; ++index) { add(index); }

whose counter has the type `Index`, so `++index` wraps from the largest `Index` to `0`.

## Main definitions

* `Wavm.DenseStaticIntSet` — the set, as its bits.
* `Wavm.DenseStaticIntSet.add` — `add`, which fails on an index past the bits.
* `Wavm.DenseStaticIntSet.addRange` — the loop, run with fuel.

## Main results

* `DenseStaticIntSet.mem_members_of_add_eq_some` — what an `add` that succeeds adds.
* `DenseStaticIntSet.addRange_eq_none_of_allOnes` — for `rangeMax` the largest `Index`, no
  fuel ends the loop.
* `DenseStaticIntSet.contains_addRange` — for a smaller `rangeMax`, the loop ends after
  `rangeMax - rangeMin + 1` rounds and adds exactly the indices of the range.
* `NFA.CharSet.addRangeLoop_rangeMax_255` — `CharSet::addRange(rangeMin, 255)` never ends.
* `NFA.CharSet.addRange_eq_some_iff` — the model of `CharSet::addRange` in
  `Wavm.NFA.Builder` returns what the loop ends with, and `none` where it never ends.

## Implementation notes

`add(index)` writes the word `index / 64` of the array `elements`, whose words end at
`maxIndexPlusOne` for both instantiations the model uses (`256` and `64`). Its assertion
`index < maxIndexPlusOne` is compiled out, so an index at or past `maxIndexPlusOne` writes past
the array, which is undefined; a negative `StateIndex`, whose bit pattern is `2 ^ 15` or more,
is such an index. `add` returns `none` there. `contains` is used in statements, on indices
below `maxIndexPlusOne`, and `remove` is called only on a member, so both are total.

`addRange` is a member of the template and so is compiled only where it is called: the one
caller is `NFA::CharSet = DenseStaticIntSet<U8, 256>`, in `RegExp.cpp`, where every index is
below `256`. The other two instantiations, `DenseStaticIntSet<StateIndex, 64>` of `NFA.cpp` and
`DenseStaticIntSet<U32, maxMutableGlobals>` of the runtime, never call it.
-/

namespace Wavm

/-- `DenseStaticIntSet<Index, maxIndexPlusOne>` with an `Index` of `w` bits: bit `i` of
`elements` is set for each member `i`. -/
structure DenseStaticIntSet (w maxIndexPlusOne : ℕ) where
  elements : BitVec maxIndexPlusOne

namespace DenseStaticIntSet

variable {w maxIndexPlusOne : ℕ}

/-- `contains`. -/
def contains (set : DenseStaticIntSet w maxIndexPlusOne) (index : BitVec w) : Bool :=
  set.elements.getLsbD index.toNat

/-- `add`: the bit of `index` set, or `none` where `index` is past the bits and the write goes
past the array. -/
def add (set : DenseStaticIntSet w maxIndexPlusOne) (index : BitVec w) :
    Option (DenseStaticIntSet w maxIndexPlusOne) :=
  if index.toNat < maxIndexPlusOne then
    some ⟨set.elements ||| (BitVec.ofNat maxIndexPlusOne 1 <<< index.toNat)⟩
  else none

/-- One round of the loop of `addRange`: `add(index)`, then `++index`, which wraps. The set is
`none` from the first `add` that fails. -/
def addRangeBody (state : Option (DenseStaticIntSet w maxIndexPlusOne) × BitVec w) :
    Option (DenseStaticIntSet w maxIndexPlusOne) × BitVec w :=
  (state.1.bind fun set => set.add state.2, state.2 + 1)

/-- The test `index <= rangeMax` of the loop of `addRange`; an `add` that failed ends the
loop. -/
def addRangeCond (rangeMax : BitVec w)
    (state : Option (DenseStaticIntSet w maxIndexPlusOne) × BitVec w) : Bool :=
  state.1.isSome && decide (state.2 ≤ rangeMax)

/-- `addRange(rangeMin, rangeMax)`, with at most `fuel` tests of the loop condition: the set it
ends with, `none` inside where an `add` fails, or `none` when the fuel runs out. -/
def addRange (set : DenseStaticIntSet w maxIndexPlusOne) (rangeMin rangeMax : BitVec w)
    (fuel : ℕ) : Option (Option (DenseStaticIntSet w maxIndexPlusOne)) :=
  (WhileLoop.run (addRangeCond rangeMax) addRangeBody fuel (some set, rangeMin)).map Prod.fst

theorem add_eq_none_iff {set : DenseStaticIntSet w maxIndexPlusOne} {index : BitVec w} :
    set.add index = none ↔ maxIndexPlusOne ≤ index.toNat := by
  unfold add
  split_ifs with h
  · simp only [false_iff, not_le]
    exact h
  · simp only [true_iff]
    omega

theorem isSome_add {set : DenseStaticIntSet w maxIndexPlusOne} {index : BitVec w}
    (hindex : index.toNat < maxIndexPlusOne) : (set.add index).isSome := by
  rw [add, if_pos hindex]
  rfl

/-- The bit `1 << index` of the masks of `add` and `remove`. -/
theorem getLsbD_one_shiftLeft (index i : ℕ) :
    (BitVec.ofNat maxIndexPlusOne 1 <<< index).getLsbD i = decide (i < maxIndexPlusOne ∧ i = index) := by
  simp only [BitVec.getLsbD_shiftLeft, BitVec.getLsbD_one]
  by_cases h : i < maxIndexPlusOne ∧ i = index
  · obtain ⟨hi, rfl⟩ := h
    have : 0 < maxIndexPlusOne := by omega
    simp [hi, this]
  · rw [decide_eq_false h]
    simp only [Bool.and_eq_false_iff, Bool.not_eq_eq_eq_not, Bool.not_false, decide_eq_true_eq,
      decide_eq_false_iff_not]
    omega

/-- The bits after an `add` that succeeds: those before, and the bit of `index`. -/
theorem getLsbD_of_add_eq_some {set set' : DenseStaticIntSet w maxIndexPlusOne}
    {index : BitVec w} (h : set.add index = some set') (i : ℕ) :
    set'.elements.getLsbD i =
      (set.elements.getLsbD i || decide (i < maxIndexPlusOne ∧ i = index.toNat)) := by
  unfold add at h
  split_ifs at h
  cases h
  rw [BitVec.getLsbD_or, getLsbD_one_shiftLeft]

theorem toNat_lt_of_add_eq_some {set set' : DenseStaticIntSet w maxIndexPlusOne}
    {index : BitVec w} (h : set.add index = some set') : index.toNat < maxIndexPlusOne := by
  by_contra hge
  rw [add_eq_none_iff.2 (Nat.le_of_not_lt hge)] at h
  cases h

theorem contains_of_add_eq_some {set set' : DenseStaticIntSet w maxIndexPlusOne}
    {index : BitVec w} (h : set.add index = some set') (index' : BitVec w) :
    set'.contains index' = (set.contains index' || decide (index' = index)) := by
  have hindex := toNat_lt_of_add_eq_some h
  have hiff : index' = index ↔ index'.toNat = index.toNat :=
    ⟨fun e => e ▸ rfl, fun e => BitVec.eq_of_toNat_eq e⟩
  rw [contains, contains, getLsbD_of_add_eq_some h]
  congr 1
  rw [decide_eq_decide, hiff]
  omega

/-- Sets with the same members are equal, when every bit has an index. -/
theorem ext_contains {set set' : DenseStaticIntSet w maxIndexPlusOne}
    (hmax : maxIndexPlusOne ≤ 2 ^ w) (h : ∀ index, set.contains index = set'.contains index) :
    set = set' := by
  cases set with
  | mk elements =>
  cases set' with
  | mk elements' =>
  congr 1
  apply BitVec.eq_of_getLsbD_eq
  intro i hi
  have := h (BitVec.ofNat w i)
  simpa [contains, Nat.mod_eq_of_lt (Nat.lt_of_lt_of_le hi hmax)] using this

/-! ## The largest `rangeMax`: the loop never ends -/

/-- **With `rangeMax` the largest `Index` the loop never ends**, where every index has a bit:
each `add` succeeds, every index passes `index <= rangeMax`, and `++index` wraps to `0` after
it. -/
theorem addRange_eq_none_of_allOnes (set : DenseStaticIntSet w maxIndexPlusOne)
    (rangeMin : BitVec w) (hmax : 2 ^ w ≤ maxIndexPlusOne) (fuel : ℕ) :
    set.addRange rangeMin (BitVec.allOnes w) fuel = none := by
  have hloop := @WhileLoop.run_eq_none_of_invariant _ (addRangeCond (BitVec.allOnes w))
    addRangeBody (fun state => state.1.isSome)
    (fun state hsome => by
      have := state.2.isLt
      simp only [addRangeCond, hsome, Bool.true_and, decide_eq_true_eq, BitVec.le_def,
        BitVec.toNat_allOnes]
      omega)
    (fun state hsome => by
      obtain ⟨set', hset'⟩ := Option.isSome_iff_exists.1 hsome
      rw [addRangeBody, hset', Option.bind_some]
      exact isSome_add (Nat.lt_of_lt_of_le state.2.isLt hmax))
    fuel (some set, rangeMin) rfl
  rw [addRange, hloop, Option.map_none]

/-! ## A smaller `rangeMax`: the loop adds the range -/

/-- The state after `k` rounds, while the counter has not wrapped: every `add` has succeeded,
the indices from `rangeMin` below `rangeMin + k` are added, and the counter is `rangeMin + k`. -/
theorem addRangeBody_iterate (set : DenseStaticIntSet w maxIndexPlusOne) (rangeMin : BitVec w)
    (k : ℕ) (hk : rangeMin.toNat + k ≤ 2 ^ w) (hmax : rangeMin.toNat + k ≤ maxIndexPlusOne) :
    (addRangeBody^[k] (some set, rangeMin)).2.toNat = (rangeMin.toNat + k) % 2 ^ w ∧
      ∃ set', (addRangeBody^[k] (some set, rangeMin)).1 = some set' ∧
        ∀ index, set'.contains index =
          (set.contains index ||
            decide (rangeMin.toNat ≤ index.toNat ∧ index.toNat < rangeMin.toNat + k)) := by
  induction k with
  | zero =>
    refine ⟨by simp [Nat.mod_eq_of_lt rangeMin.isLt], set, rfl, fun index => ?_⟩
    simp
  | succ k ih =>
    obtain ⟨hindex, set', hset', hcontains⟩ := ih (by omega) (by omega)
    -- the counter has not wrapped yet, so it is the number `rangeMin + k`, which has a bit
    have hk' : rangeMin.toNat + k < 2 ^ w := by omega
    rw [Nat.mod_eq_of_lt hk'] at hindex
    obtain ⟨set'', hadd⟩ := Option.isSome_iff_exists.1 (@isSome_add _ _ set' _
      (by omega : (addRangeBody^[k] (some set, rangeMin)).2.toNat < maxIndexPlusOne))
    rw [Function.iterate_succ_apply']
    refine ⟨?_, set'', by rw [addRangeBody, hset', Option.bind_some, hadd], fun index => ?_⟩
    · rw [addRangeBody, BitVec.toNat_add, hindex, ← Nat.add_assoc]
      simp
    · rw [contains_of_add_eq_some hadd, hcontains]
      have hiff : index = (addRangeBody^[k] (some set, rangeMin)).2 ↔
          index.toNat = rangeMin.toNat + k := by
        rw [← hindex]
        exact ⟨fun h => h ▸ rfl, fun h => BitVec.eq_of_toNat_eq h⟩
      by_cases h : index.toNat = rangeMin.toNat + k
      · rw [decide_eq_true (hiff.2 h), Bool.or_true]
        symm
        simp only [Bool.or_eq_true, decide_eq_true_eq]
        right
        omega
      · have : ¬ index = (addRangeBody^[k] (some set, rangeMin)).2 := fun e => h (hiff.1 e)
        simp only [this, decide_false, Bool.or_false]
        congr 1
        rw [decide_eq_decide]
        omega

/-- **For a `rangeMax` below the largest `Index`, the loop ends** after
`rangeMax - rangeMin + 1` rounds, and the set it ends with has exactly its members and the
indices of the range. -/
theorem contains_addRange (set : DenseStaticIntSet w maxIndexPlusOne) {rangeMin rangeMax : BitVec w}
    (hle : rangeMin ≤ rangeMax) (hmax : rangeMax.toNat + 1 < 2 ^ w)
    (hrange : rangeMax.toNat < maxIndexPlusOne) {fuel : ℕ}
    (hfuel : rangeMax.toNat - rangeMin.toNat + 1 < fuel) :
    ∃ set', set.addRange rangeMin rangeMax fuel = some (some set') ∧
      ∀ index, set'.contains index =
        (set.contains index || decide (rangeMin ≤ index ∧ index ≤ rangeMax)) := by
  have hle' : rangeMin.toNat ≤ rangeMax.toNat := hle
  set n := rangeMax.toNat - rangeMin.toNat + 1 with hn
  have hiter := fun k (hk : k ≤ n) =>
    addRangeBody_iterate set rangeMin k (by omega) (by omega)
  have hloop := @WhileLoop.run_of_iterate _ (addRangeCond rangeMax) addRangeBody n
    (some set, rangeMin)
    (fun k hk => by
      obtain ⟨hindex, set', hset', -⟩ := hiter k (Nat.le_of_lt hk)
      rw [Nat.mod_eq_of_lt (by omega)] at hindex
      simp only [addRangeCond, hset', Option.isSome_some, Bool.true_and, decide_eq_true_eq,
        BitVec.le_def]
      omega)
    (by
      obtain ⟨hindex, set', hset', -⟩ := hiter n (Nat.le_refl n)
      rw [Nat.mod_eq_of_lt (by omega)] at hindex
      simp only [addRangeCond, hset', Option.isSome_some, Bool.true_and, decide_eq_false_iff_not,
        BitVec.le_def]
      omega)
    fuel hfuel
  obtain ⟨-, set', hset', hcontains⟩ := hiter n (Nat.le_refl n)
  refine ⟨set', by rw [addRange, hloop, Option.map_some, hset'], fun index => ?_⟩
  rw [hcontains]
  congr 1
  rw [decide_eq_decide, BitVec.le_def, BitVec.le_def]
  omega

/-- The loop of `addRange` ends with one result, whatever fuel ends it. -/
theorem addRange_eq_some_unique {set : DenseStaticIntSet w maxIndexPlusOne}
    {rangeMin rangeMax : BitVec w} {fuel fuel' : ℕ}
    {result result' : Option (DenseStaticIntSet w maxIndexPlusOne)}
    (h : set.addRange rangeMin rangeMax fuel = some result)
    (h' : set.addRange rangeMin rangeMax fuel' = some result') : result = result' := by
  rw [addRange, Option.map_eq_some_iff] at h h'
  obtain ⟨state, hstate, rfl⟩ := h
  obtain ⟨state', hstate', rfl⟩ := h'
  rw [WhileLoop.run_eq_some_unique hstate hstate']

/-- The loop of `addRange` ends for some fuel exactly when `rangeMax` is not the largest
`Index`, for a range with `rangeMin <= rangeMax < maxIndexPlusOne`. -/
theorem exists_addRange_eq_some_iff (set : DenseStaticIntSet w maxIndexPlusOne)
    {rangeMin rangeMax : BitVec w} (hle : rangeMin ≤ rangeMax)
    (hrange : rangeMax.toNat < maxIndexPlusOne) :
    (∃ fuel set', set.addRange rangeMin rangeMax fuel = some (some set')) ↔
      rangeMax ≠ BitVec.allOnes w := by
  constructor
  · rintro ⟨fuel, set', h⟩ rfl
    -- the largest `Index` has a bit, so every index has one
    rw [BitVec.toNat_allOnes] at hrange
    rw [addRange_eq_none_of_allOnes set rangeMin (by omega)] at h
    cases h
  · intro hne
    have hmax : rangeMax.toNat + 1 < 2 ^ w := by
      have hlt := rangeMax.isLt
      have : rangeMax.toNat ≠ 2 ^ w - 1 := fun h =>
        hne (BitVec.eq_of_toNat_eq (by rw [h, BitVec.toNat_allOnes]))
      omega
    obtain ⟨set', h, -⟩ := set.contains_addRange hle hmax hrange (Nat.lt_succ_self _)
    exact ⟨_, set', h⟩

/-! ## The members `convertToDFA` uses -/

/-- `DenseStaticIntSet()`: no member. -/
def empty : DenseStaticIntSet w maxIndexPlusOne := ⟨0⟩

/-- `DenseStaticIntSet(Index index)`: the one member `index`, by `add`. -/
def singleton (index : BitVec w) : Option (DenseStaticIntSet w maxIndexPlusOne) := empty.add index

/-- `isEmpty`. -/
def isEmpty (set : DenseStaticIntSet w maxIndexPlusOne) : Bool := set.elements == 0

/-- `getSmallestMember`: the lowest set bit, or `maxIndexPlusOne` when there is none. -/
def getSmallestMember (set : DenseStaticIntSet w maxIndexPlusOne) : BitVec w :=
  BitVec.ofNat w (((List.range maxIndexPlusOne).find? fun i => set.elements.getLsbD i).getD
    maxIndexPlusOne)

/-- `remove`, which `convertToDFA` calls only on a member. -/
def remove (set : DenseStaticIntSet w maxIndexPlusOne) (index : BitVec w) :
    DenseStaticIntSet w maxIndexPlusOne :=
  ⟨set.elements &&& ~~~(BitVec.ofNat maxIndexPlusOne 1 <<< index.toNat)⟩

/-- `operator==`: `memcmp` of the bits. -/
instance : DecidableEq (DenseStaticIntSet w maxIndexPlusOne) := fun left right =>
  decidable_of_iff (left.elements = right.elements) (by cases left; cases right; simp)

/-- The members, in increasing order. -/
def members (set : DenseStaticIntSet w maxIndexPlusOne) : List ℕ :=
  (List.range maxIndexPlusOne).filter fun i => set.elements.getLsbD i

@[simp] theorem members_empty : (empty : DenseStaticIntSet w maxIndexPlusOne).members = [] := by
  simp [members, empty]

theorem contains_empty (index : BitVec w) :
    (empty : DenseStaticIntSet w maxIndexPlusOne).contains index = false :=
  BitVec.getLsbD_zero

theorem contains_of_singleton_eq_some {index : BitVec w} {set : DenseStaticIntSet w maxIndexPlusOne}
    (h : singleton index = some set) (index' : BitVec w) :
    set.contains index' = decide (index' = index) := by
  rw [contains_of_add_eq_some h, contains_empty, Bool.false_or]

theorem contains_remove (set : DenseStaticIntSet w maxIndexPlusOne) (index index' : BitVec w) :
    (set.remove index).contains index' = (set.contains index' && !decide (index' = index)) := by
  simp only [contains, remove, BitVec.getLsbD_and, BitVec.getLsbD_not, getLsbD_one_shiftLeft]
  have hiff : index' = index ↔ index'.toNat = index.toNat :=
    ⟨fun e => e ▸ rfl, fun e => BitVec.eq_of_toNat_eq e⟩
  by_cases hlt : index'.toNat < maxIndexPlusOne
  · simp [hlt, hiff]
  · simp [hlt, BitVec.getLsbD_of_ge _ _ (Nat.le_of_not_lt hlt)]

theorem mem_members {set : DenseStaticIntSet w maxIndexPlusOne} {i : ℕ} :
    i ∈ set.members ↔ i < maxIndexPlusOne ∧ set.elements.getLsbD i = true := by
  simp [members]

theorem pairwise_members (set : DenseStaticIntSet w maxIndexPlusOne) :
    set.members.Pairwise (· < ·) :=
  List.pairwise_lt_range.filter _

/-- **The members after an `add` that succeeds**: those before, and the index. -/
theorem mem_members_of_add_eq_some {set set' : DenseStaticIntSet w maxIndexPlusOne}
    {index : BitVec w} (h : set.add index = some set') {i : ℕ} :
    i ∈ set'.members ↔ i ∈ set.members ∨ i = index.toNat := by
  have hindex := toNat_lt_of_add_eq_some h
  simp only [mem_members, getLsbD_of_add_eq_some h, Bool.or_eq_true, decide_eq_true_eq]
  by_cases hi : i = index.toNat
  · simp [hi, hindex]
  · simp [hi]

/-- A set made by `singleton` has its index as its one member. -/
theorem members_of_singleton_eq_some {index : BitVec w} {set : DenseStaticIntSet w maxIndexPlusOne}
    (h : singleton index = some set) : set.members = [index.toNat] := by
  apply List.Pairwise.eq_of_mem_iff (r := (· < ·)) (pairwise_members _)
    (List.pairwise_singleton _ _)
  intro i
  rw [mem_members_of_add_eq_some h, members_empty, List.mem_singleton]
  simp

/-! ## Loops of `add`s -/

section FoldAdd

variable {β : Type} (P : β → Bool) (g : β → BitVec w)

/-- **A loop of conditional `add`s fails** exactly where one of its `add`s is past the bits. -/
theorem foldlM_add_eq_none_iff : ∀ (l : List β) (set : DenseStaticIntSet w maxIndexPlusOne),
    l.foldlM (fun set b => if P b then set.add (g b) else some set) set = none ↔
      ∃ b ∈ l, P b = true ∧ maxIndexPlusOne ≤ (g b).toNat
  | [], set => by simp
  | b :: l, set => by
    rw [List.foldlM_cons, Option.bind_eq_bind]
    -- the first `add`, if there is one, then the rest of the loop
    have hrest : ∀ set' : DenseStaticIntSet w maxIndexPlusOne,
        ¬ (P b = true ∧ maxIndexPlusOne ≤ (g b).toNat) →
        (l.foldlM (fun set b => if P b then set.add (g b) else some set) set' = none ↔
          ∃ b' ∈ b :: l, P b' = true ∧ maxIndexPlusOne ≤ (g b').toNat) := by
      intro set' hb
      rw [foldlM_add_eq_none_iff l set']
      simp only [List.mem_cons, exists_eq_or_imp]
      tauto
    by_cases hP : P b = true
    · rw [if_pos hP]
      cases hadd : set.add (g b) with
      | none =>
        exact iff_of_true rfl ⟨b, List.mem_cons_self, hP, add_eq_none_iff.1 hadd⟩
      | some set' =>
        have := toNat_lt_of_add_eq_some hadd
        rw [Option.bind_some]
        exact hrest set' (by omega)
    · rw [if_neg hP, Option.bind_some]
      exact hrest set (fun h => hP h.1)

/-- **The members after a loop of conditional `add`s that succeeds**: those before, and the
index of each `add`. -/
theorem mem_members_of_foldlM_add_eq_some : ∀ (l : List β) {set set' : DenseStaticIntSet w maxIndexPlusOne},
    l.foldlM (fun set b => if P b then set.add (g b) else some set) set = some set' →
      ∀ i, i ∈ set'.members ↔ i ∈ set.members ∨ ∃ b ∈ l, P b = true ∧ i = (g b).toNat
  | [], set, set', h, i => by
    cases h
    simp
  | b :: l, set, set', h, i => by
    rw [List.foldlM_cons, Option.bind_eq_bind] at h
    by_cases hP : P b = true
    · rw [if_pos hP] at h
      cases hadd : set.add (g b) with
      | none =>
        rw [hadd] at h
        cases h
      | some set'' =>
        rw [hadd, Option.bind_some] at h
        rw [mem_members_of_foldlM_add_eq_some l h i, mem_members_of_add_eq_some hadd]
        simp only [List.mem_cons, exists_eq_or_imp, hP, true_and]
        tauto
    · rw [if_neg hP, Option.bind_some] at h
      rw [mem_members_of_foldlM_add_eq_some l h i]
      simp only [List.mem_cons, exists_eq_or_imp, hP, Bool.false_eq_true, false_and, false_or]

end FoldAdd

theorem isEmpty_iff_members_eq_nil (set : DenseStaticIntSet w maxIndexPlusOne) :
    set.isEmpty = true ↔ set.members = [] := by
  rw [isEmpty, beq_iff_eq, members, List.filter_eq_nil_iff]
  constructor
  · rintro h i -
    simp [h]
  · intro h
    apply BitVec.eq_of_getLsbD_eq
    intro i hi
    simpa using h i (List.mem_range.2 hi)

/-- The smallest member is the first of the members, and `maxIndexPlusOne` where there is
none. -/
theorem getSmallestMember_eq (set : DenseStaticIntSet w maxIndexPlusOne) :
    set.getSmallestMember = BitVec.ofNat w (set.members.headD maxIndexPlusOne) := by
  rw [getSmallestMember, members, List.headD_eq_head?_getD, List.head?_filter]

/-- **Removing the smallest member leaves the other members.** -/
theorem members_remove_getSmallestMember {set : DenseStaticIntSet w maxIndexPlusOne}
    (hmax : maxIndexPlusOne < 2 ^ w) {first : ℕ} {rest : List ℕ} (h : set.members = first :: rest) :
    (set.remove set.getSmallestMember).members = rest := by
  have hfirst : first ∈ set.members := h ▸ List.mem_cons_self
  have hlt : first < maxIndexPlusOne := (mem_members.1 hfirst).1
  have hsmallest : set.getSmallestMember.toNat = first := by
    rw [getSmallestMember_eq, h, List.headD_cons, BitVec.toNat_ofNat, Nat.mod_eq_of_lt (by omega)]
  have hsorted := set.pairwise_members
  rw [h, List.pairwise_cons] at hsorted
  apply List.Pairwise.eq_of_mem_iff (r := (· < ·)) (pairwise_members _) hsorted.2
  intro i
  have hcontains := contains_remove set set.getSmallestMember (BitVec.ofNat w i)
  by_cases hi : i < maxIndexPlusOne
  · have hi' : (BitVec.ofNat w i).toNat = i := by
      rw [BitVec.toNat_ofNat, Nat.mod_eq_of_lt (by omega)]
    simp only [contains, hi'] at hcontains
    have heq : BitVec.ofNat w i = set.getSmallestMember ↔ i = first := by
      constructor
      · intro e
        rw [← hi', ← hsmallest, e]
      · intro e
        apply BitVec.eq_of_toNat_eq
        rw [hi', hsmallest, e]
    rw [mem_members, hcontains]
    constructor
    · rintro ⟨-, hbits⟩
      simp only [Bool.and_eq_true, Bool.not_eq_true', decide_eq_false_iff_not, heq] at hbits
      have hmem : i ∈ first :: rest := h ▸ mem_members.2 ⟨hi, hbits.1⟩
      exact (List.mem_cons.1 hmem).resolve_left hbits.2
    · intro hrest
      have hmem : i ∈ set.members := h ▸ List.mem_cons_of_mem first hrest
      have hne : i ≠ first := fun e => by
        have := hsorted.1 i hrest
        omega
      simp only [Bool.and_eq_true, Bool.not_eq_true', decide_eq_false_iff_not, heq]
      exact ⟨hi, (mem_members.1 hmem).2, hne⟩
  · constructor
    · intro hmem
      exact absurd (mem_members.1 hmem).1 hi
    · intro hrest
      exact absurd (mem_members.1 (h ▸ List.mem_cons_of_mem first hrest)).1 hi

end DenseStaticIntSet

/-! ## `CharSet`, the instantiation `addRange` is called on -/

namespace NFA.CharSet

/-- A `CharSet` as the set `DenseStaticIntSet<U8, 256>` it is. -/
def toDense (set : CharSet) : DenseStaticIntSet 8 256 := ⟨set⟩

theorem contains_toDense (set : CharSet) (index : UInt8) :
    (toDense set).contains index.toBitVec = contains set index := rfl

/-- `CharSet::addRange`, the loop of `DenseStaticIntSet<U8, 256>::addRange` with fuel. -/
def addRangeLoop (set : CharSet) (rangeMin rangeMax : UInt8) (fuel : ℕ) :
    Option (Option (DenseStaticIntSet 8 256)) :=
  (toDense set).addRange rangeMin.toBitVec rangeMax.toBitVec fuel

/-- The fold of `add` over `start, …, start + len - 1` that `CharSet.addRange` computes. -/
theorem contains_foldl_add (start len : ℕ) (hlen : start + len ≤ 256) (set : CharSet)
    (index : UInt8) :
    contains ((List.range' start len).foldl (fun set index => add set (UInt8.ofNat index)) set)
        index =
      (contains set index || decide (start ≤ index.toNat ∧ index.toNat < start + len)) := by
  induction len generalizing start set with
  | zero =>
    rw [List.range'_zero, List.foldl_nil, decide_eq_false (by omega), Bool.or_false]
  | succ len ih =>
    rw [List.range'_succ, List.foldl_cons, ih (start + 1) (by omega), contains_add]
    -- `UInt8.ofNat start` is the index `start`, which is below `256`
    have hiff : index = UInt8.ofNat start ↔ index.toNat = start := by
      constructor
      · rintro rfl
        rw [UInt8.toNat_ofNat', Nat.mod_eq_of_lt (by omega)]
      · intro h
        apply UInt8.toNat_inj.1
        rw [h, UInt8.toNat_ofNat', Nat.mod_eq_of_lt (by omega)]
    rw [Bool.or_assoc]
    congr 1
    by_cases h : index.toNat = start
    · rw [decide_eq_true (hiff.2 h), Bool.true_or]
      symm
      rw [decide_eq_true_iff]
      omega
    · rw [decide_eq_false (fun e => h (hiff.1 e)), Bool.false_or, decide_eq_decide]
      omega

/-- **`CharSet::addRange(rangeMin, 255)` never ends**: the `U8` counter passes `index <= 255`
at every value and wraps from `255` to `0`. -/
theorem addRangeLoop_rangeMax_255 (set : CharSet) (rangeMin : UInt8) (fuel : ℕ) :
    addRangeLoop set rangeMin 255 fuel = none :=
  DenseStaticIntSet.addRange_eq_none_of_allOnes (toDense set) rangeMin.toBitVec (by norm_num) fuel

/-- **The model of `CharSet::addRange` is the loop**: `CharSet.addRange` returns the set the
loop ends with, and `none` exactly where no fuel ends it. -/
theorem addRange_eq_some_iff (set : CharSet) {rangeMin rangeMax : UInt8}
    (hle : rangeMin ≤ rangeMax) (result : CharSet) :
    addRange set rangeMin rangeMax = some result ↔
      ∃ fuel, addRangeLoop set rangeMin rangeMax fuel = some (some (toDense result)) := by
  by_cases h255 : rangeMax = 255
  · subst h255
    simp [addRange, addRangeLoop_rangeMax_255]
  · have hmax : rangeMax.toNat + 1 < 2 ^ 8 := by
      have : rangeMax.toNat ≠ 255 := fun e => h255 (UInt8.toNat_inj.1 e)
      have := rangeMax.toNat_lt
      omega
    have hle' : rangeMin.toNat ≤ rangeMax.toNat := UInt8.le_iff_toNat_le.1 hle
    obtain ⟨set', hloop, hcontains⟩ := (toDense set).contains_addRange
      (show rangeMin.toBitVec ≤ rangeMax.toBitVec from hle) hmax rangeMax.toNat_lt
      (Nat.lt_succ_self _)
    -- the fold and the loop end with the same members
    have heq : toDense ((List.range' rangeMin.toNat (rangeMax.toNat + 1 - rangeMin.toNat)).foldl
        (fun set index => add set (UInt8.ofNat index)) set) = set' := by
      apply DenseStaticIntSet.ext_contains (by decide)
      intro index
      rw [hcontains, show index = (UInt8.ofBitVec index).toBitVec from rfl, contains_toDense,
        contains_toDense, contains_foldl_add _ _ (by omega)]
      congr 1
      rw [decide_eq_decide, BitVec.le_def, BitVec.le_def]
      simp only [UInt8.toNat_toBitVec, UInt8.toNat_ofBitVec]
      omega
    rw [addRange, if_neg h255, Option.some.injEq]
    constructor
    · rintro rfl
      exact ⟨_, heq ▸ hloop⟩
    · rintro ⟨fuel, hfuel⟩
      have := Option.some.inj (DenseStaticIntSet.addRange_eq_some_unique hloop hfuel)
      rw [← heq] at this
      exact congrArg DenseStaticIntSet.elements this

/-- The class `\d` of `parseCharClass`: ten rounds, and the test fails on the eleventh. -/
example : (addRangeLoop 0 48 57 11).isSome = true ∧ addRangeLoop 0 48 57 10 = none := by
  decide

end NFA.CharSet

end Wavm
