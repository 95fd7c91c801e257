import Mathlib
import Wavm.Inline.HashMap
import Wavm.Lib.CyclicProbe

set_option relaxedAutoImplicit false
set_option autoImplicit false

/-!
# IndexMap

`IndexMap` of `src/Include/WAVM/Inline/IndexMap.h`: a `HashMap` from the integers of an
interval `[minIndex, maxIndex]` to elements, which also allocates indices. `add` probes the
indices after the last one it allocated, wrapping from `maxIndex` back to `minIndex`, until
one is free. The map refines a finite map whose keys lie in the interval; every operation
keeps that, and `add` allocates a free index of the interval, and never returns when there
is none.

## Main definitions

* `Wavm.IndexMap` and its operations `init` (the constructor), `add`, `insertOrFail`,
  `removeOrFail`, `contains`, `get`, `size`, `getMinIndex` and `getMaxIndex`; `writeElement`,
  a store through the pointer `get` returns.
* `Wavm.IndexMap.Refines` — the map refines a finite map with its keys in the interval.

## Main results

* `Wavm.IndexMap.refines_init` — the constructor gives the empty map.
* `Wavm.IndexMap.Refines.add_eq_none_iff`, `Wavm.IndexMap.indexMap_add_loops_when_full` —
  `add` loops forever exactly when every index of the interval is allocated: its test
  `map.size() > maxIndex - minIndex + 1` never holds, so it never returns `failIndex`.
* `Wavm.IndexMap.Refines.add_of_eq_some` — otherwise it allocates a free index of the
  interval, and `Wavm.IndexMap.Refines.add_eq_of_first` — the first free one after the last.
* `Wavm.IndexMap.Refines.insertOrFail`, `Refines.removeOrFail`, `Refines.writeElement`,
  `Refines.get_eq`, `Refines.contains_eq` — the other operations, on the finite map.

## Implementation notes

`Index` is any fixed-width unsigned integer type, as the source instantiates it with `U32`
and `Uptr`; `Uptr(x)` of an index is its value. As elsewhere, `wavmAssert` is compiled out.
`add` returns `none` when its probe loop never exits: the loop is run for one round per index
of the interval, after which it would only go round again
(`FixedWidth.probe_cyclicSucc_eq_none_iff`).
-/

namespace Wavm

open Wavm.Runtime (Uptr)
open FixedWidth

/-- `IndexMap<Index, Element>`: the interval of its indices, the last index `add` allocated,
and the `HashMap` of the allocated indices. -/
structure IndexMap (Index Element : Type) where
  lastIndex : Index
  minIndex : Index
  maxIndex : Index
  map : HashMap Index Element

namespace IndexMap

variable {Index Element : Type} [DecidableEq Index] [Add Index] [Sub Index] [One Index]
  [LT Index] [∀ a b : Index, Decidable (a < b)] [FixedWidth Index] (getKeyHash : Index → Uptr)

/-! ## The operations -/

/-- The constructor `IndexMap(inMinIndex, inMaxIndex)`, over a `HashMap` constructed with its
default `reserveNumPairs = 0`. -/
def init (inMinIndex inMaxIndex : Index) : IndexMap Index Element :=
  ⟨inMinIndex - 1, inMinIndex, inMaxIndex, HashMap.init 0⟩

/-- `add(failIndex, args)`: allocates the first free index after `lastIndex` and adds the
element at it; `none` where the probe loop never exits. -/
def add (im : IndexMap Index Element) (failIndex : Index) (element : Element) :
    Option (IndexMap Index Element × Index) :=
  if im.map.size > UInt64.ofNat (toNat (im.maxIndex - im.minIndex + 1)) then some (im, failIndex)
  else
    -- `do { ++lastIndex; if(lastIndex > maxIndex) lastIndex = minIndex; }
    -- while(map.contains(lastIndex));`
    match Probe.probe (cyclicSucc im.minIndex im.maxIndex) (im.map.contains getKeyHash)
        (count im.minIndex im.maxIndex) im.lastIndex with
    | none => none
    | some lastIndex =>
      some (⟨lastIndex, im.minIndex, im.maxIndex, im.map.addOrFail getKeyHash lastIndex element⟩,
        lastIndex)

/-- `insertOrFail(index, args)`. -/
def insertOrFail (im : IndexMap Index Element) (index : Index) (element : Element) :
    IndexMap Index Element :=
  { im with map := im.map.addOrFail getKeyHash index element }

/-- `removeOrFail(index)`. -/
def removeOrFail (im : IndexMap Index Element) (index : Index) : IndexMap Index Element :=
  { im with map := im.map.removeOrFail getKeyHash index }

/-- `contains(index)`. -/
def contains (im : IndexMap Index Element) (index : Index) : Bool :=
  im.map.contains getKeyHash index

/-- `get(index)`: the element, `none` for the null pointer. -/
def get (im : IndexMap Index Element) (index : Index) : Option Element :=
  im.map.get getKeyHash index

/-- A store through the pointer `get(index)` returns. -/
def writeElement (im : IndexMap Index Element) (index : Index) (element : Element) :
    IndexMap Index Element :=
  { im with map := im.map.writeValue getKeyHash index element }

/-- `size()`. -/
def size (im : IndexMap Index Element) : Uptr :=
  im.map.size

/-- `getMinIndex()`. -/
def getMinIndex (im : IndexMap Index Element) : Index :=
  im.minIndex

/-- `getMaxIndex()`. -/
def getMaxIndex (im : IndexMap Index Element) : Index :=
  im.maxIndex

section Fields

omit [DecidableEq Index] [Add Index] [LT Index] [∀ a b : Index, Decidable (a < b)]
  [FixedWidth Index] in
@[simp] theorem lastIndex_init (inMinIndex inMaxIndex : Index) :
    (init inMinIndex inMaxIndex : IndexMap Index Element).lastIndex = inMinIndex - 1 := rfl

omit [DecidableEq Index] [Add Index] [LT Index] [∀ a b : Index, Decidable (a < b)]
  [FixedWidth Index] in
@[simp] theorem minIndex_init (inMinIndex inMaxIndex : Index) :
    (init inMinIndex inMaxIndex : IndexMap Index Element).minIndex = inMinIndex := rfl

omit [DecidableEq Index] [Add Index] [LT Index] [∀ a b : Index, Decidable (a < b)]
  [FixedWidth Index] in
@[simp] theorem maxIndex_init (inMinIndex inMaxIndex : Index) :
    (init inMinIndex inMaxIndex : IndexMap Index Element).maxIndex = inMaxIndex := rfl

omit [Add Index] [Sub Index] [One Index] [LT Index] [∀ a b : Index, Decidable (a < b)]
  [FixedWidth Index]

variable (im : IndexMap Index Element) (index : Index) (element : Element)

@[simp] theorem minIndex_insertOrFail :
    (im.insertOrFail getKeyHash index element).minIndex = im.minIndex := by
  unfold insertOrFail
  dsimp only

@[simp] theorem maxIndex_insertOrFail :
    (im.insertOrFail getKeyHash index element).maxIndex = im.maxIndex := by
  unfold insertOrFail
  dsimp only

@[simp] theorem lastIndex_insertOrFail :
    (im.insertOrFail getKeyHash index element).lastIndex = im.lastIndex := by
  unfold insertOrFail
  dsimp only

/-- `insertOrFail` leaves the buckets `growForAdd` leaves. -/
theorem numBuckets_insertOrFail :
    (im.insertOrFail getKeyHash index element).map.table.numBuckets =
      (im.map.table.growForAdd HashMapPair.key).numBuckets :=
  HashMap.numBuckets_addOrFail ..

@[simp] theorem minIndex_removeOrFail : (im.removeOrFail getKeyHash index).minIndex = im.minIndex := by
  unfold removeOrFail
  dsimp only

@[simp] theorem maxIndex_removeOrFail : (im.removeOrFail getKeyHash index).maxIndex = im.maxIndex := by
  unfold removeOrFail
  dsimp only

@[simp] theorem minIndex_writeElement :
    (im.writeElement getKeyHash index element).minIndex = im.minIndex := by
  unfold writeElement
  dsimp only

@[simp] theorem maxIndex_writeElement :
    (im.writeElement getKeyHash index element).maxIndex = im.maxIndex := by
  unfold writeElement
  dsimp only

end Fields

/-! ## Refinement of a finite map -/

/-- **The index map refines the finite map `a`**: its hash map does, the keys lie in the
interval, which stops short of the top of the type and has fewer indices than a table could
be allocated for, and the last index is one the allocator may hold. -/
structure Refines (im : IndexMap Index Element) (a : AList fun _ : Index => Element) : Prop where
  map : HashMap.Refines getKeyHash im.map a
  minIndex_le : toNat im.minIndex ≤ toNat im.maxIndex
  maxIndex_lt : toNat im.maxIndex + 1 < 2 ^ width Index
  count_lt : count im.minIndex im.maxIndex + 1 < 2 ^ 58
  keys_mem : ∀ index ∈ a, toNat im.minIndex ≤ toNat index ∧ toNat index ≤ toNat im.maxIndex
  lastIndex_mem : InCycle im.minIndex im.maxIndex im.lastIndex

variable {getKeyHash}

section Refines

variable {im : IndexMap Index Element} {a : AList fun _ : Index => Element}

omit [DecidableEq Index] [∀ a b : Index, Decidable (a < b)] in
/-- The keys are distinct indices of the interval, so there are at most as many as indices. -/
theorem Refines.length_keys_le (hr : Refines getKeyHash im a) :
    a.keys.length ≤ count im.minIndex im.maxIndex := by
  have hnodup : (a.keys.map FixedWidth.toNat).Nodup :=
    a.keys_nodup.map fun _ _ h => toNat_inj h
  have hsub : (a.keys.map FixedWidth.toNat).toFinset ⊆
      Finset.Icc (toNat im.minIndex) (toNat im.maxIndex) := by
    intro n hn
    obtain ⟨index, hindex, rfl⟩ := List.mem_map.1 (List.mem_toFinset.1 hn)
    exact Finset.mem_Icc.2 (hr.keys_mem index (AList.mem_keys.1 hindex))
  have hcard := Finset.card_le_card hsub
  rw [List.toFinset_card_of_nodup hnodup, List.length_map, Nat.card_Icc] at hcard
  unfold count
  omega

omit [DecidableEq Index] [∀ a b : Index, Decidable (a < b)] in
/-- **The full-map test of `add` never holds**: `size()` is at most the number of indices. -/
theorem Refines.not_size_gt (hr : Refines getKeyHash im a) :
    ¬ im.map.size > UInt64.ofNat (toNat (im.maxIndex - im.minIndex + 1)) := by
  have hsize := hr.map.size_eq
  have hlen := hr.length_keys_le
  rw [toNat_sub_add_one hr.minIndex_le hr.maxIndex_lt]
  intro hgt
  have hgt' := UInt64.lt_iff_toNat_lt.1 hgt
  have hcount : count im.minIndex im.maxIndex < UInt64.size :=
    lt_of_lt_of_le (Nat.lt_of_succ_lt hr.count_lt) (by decide)
  rw [UInt64.toNat_ofNat_of_lt' hcount] at hgt'
  omega

omit [∀ a b : Index, Decidable (a < b)] in
/-- The probe of `add` tests membership in the finite map. -/
theorem Refines.contains_fun_eq (hr : Refines getKeyHash im a) :
    im.map.contains getKeyHash = fun index => decide (index ∈ a) :=
  funext hr.map.contains_eq

/-- **`add` never returns when every index of the interval is allocated**, and only then: the
source's failure test comes one element too late to stop the probe loop. -/
theorem Refines.add_eq_none_iff (hr : Refines getKeyHash im a) (failIndex : Index)
    (element : Element) :
    im.add getKeyHash failIndex element = none ↔
      ∀ index : Index, toNat im.minIndex ≤ toNat index → toNat index ≤ toNat im.maxIndex →
        index ∈ a := by
  have hprobe : Probe.probe (cyclicSucc im.minIndex im.maxIndex) (fun index => decide (index ∈ a))
      (count im.minIndex im.maxIndex) im.lastIndex = none ↔
        ∀ index : Index, toNat im.minIndex ≤ toNat index →
          toNat index ≤ toNat im.maxIndex → decide (index ∈ a) = true :=
    probe_cyclicSucc_eq_none_iff hr.minIndex_le hr.maxIndex_lt hr.lastIndex_mem
  simp only [decide_eq_true_eq] at hprobe
  unfold add
  rw [if_neg hr.not_size_gt, hr.contains_fun_eq, ← hprobe]
  cases Probe.probe (cyclicSucc im.minIndex im.maxIndex) (fun index => decide (index ∈ a))
    (count im.minIndex im.maxIndex) im.lastIndex <;> simp

/-- **An index `add` allocates** was free and lies in the interval; the map, with the element
at that index and the index as its last, refines the finite map with the element added. -/
theorem Refines.add_of_eq_some (hr : Refines getKeyHash im a) {failIndex : Index}
    {element : Element} {im' : IndexMap Index Element} {index : Index}
    (h : im.add getKeyHash failIndex element = some (im', index)) :
    index ∉ a ∧ toNat im.minIndex ≤ toNat index ∧ toNat index ≤ toNat im.maxIndex ∧
      im'.minIndex = im.minIndex ∧ im'.maxIndex = im.maxIndex ∧
      Refines getKeyHash im' (a.insert index element) := by
  unfold add at h
  rw [if_neg hr.not_size_gt] at h
  rcases hprobe : Probe.probe (cyclicSucc im.minIndex im.maxIndex) (im.map.contains getKeyHash)
      (count im.minIndex im.maxIndex) im.lastIndex with _ | found
  · rw [hprobe] at h
    cases h
  · rw [hprobe] at h
    obtain ⟨rfl, rfl⟩ := Prod.mk.inj (Option.some.inj h).symm
    -- the probe found a free index, some rounds after the last one
    obtain ⟨hfree, k, hk, -, rfl⟩ := Probe.probe_spec hprobe
    rw [hr.map.contains_eq, decide_eq_false_iff_not] at hfree
    obtain ⟨hlo, hhi⟩ := cyclicSucc_iterate_mem hr.minIndex_le hr.maxIndex_lt hr.lastIndex_mem hk
    have hlen : a.keys.length + 1 < 2 ^ 58 := by
      have := hr.length_keys_le
      have := hr.count_lt
      omega
    refine ⟨hfree, hlo, hhi, rfl, rfl, ⟨hr.map.addOrFail hlen _ element, hr.minIndex_le,
      hr.maxIndex_lt, hr.count_lt, fun index hindex => ?_, Or.inr ⟨hlo, hhi⟩⟩⟩
    rcases (AList.mem_insert _).1 hindex with rfl | hindex
    · exact ⟨hlo, hhi⟩
    · exact hr.keys_mem index hindex

/-- **`add` allocates the first free index after the last one.** -/
theorem Refines.add_eq_of_first (hr : Refines getKeyHash im a) (failIndex : Index)
    (element : Element) {k : ℕ} (hk : 1 ≤ k) (hkc : k ≤ count im.minIndex im.maxIndex)
    (hfree : (cyclicSucc im.minIndex im.maxIndex)^[k] im.lastIndex ∉ a)
    (hused : ∀ j, 1 ≤ j → j < k → (cyclicSucc im.minIndex im.maxIndex)^[j] im.lastIndex ∈ a) :
    im.add getKeyHash failIndex element =
      some (⟨(cyclicSucc im.minIndex im.maxIndex)^[k] im.lastIndex, im.minIndex, im.maxIndex,
          im.map.addOrFail getKeyHash ((cyclicSucc im.minIndex im.maxIndex)^[k] im.lastIndex)
            element⟩,
        (cyclicSucc im.minIndex im.maxIndex)^[k] im.lastIndex) := by
  have hprobe : Probe.probe (cyclicSucc im.minIndex im.maxIndex) (im.map.contains getKeyHash)
      (count im.minIndex im.maxIndex) im.lastIndex =
        some ((cyclicSucc im.minIndex im.maxIndex)^[k] im.lastIndex) := by
    refine Probe.probe_eq_of_first hk hkc ?_ fun j hj hjk => ?_
    · rw [hr.map.contains_eq]
      exact decide_eq_false hfree
    · rw [hr.map.contains_eq]
      exact decide_eq_true (hused j hj hjk)
  unfold add
  rw [if_neg hr.not_size_gt, hprobe]

omit [DecidableEq Index] [∀ a b : Index, Decidable (a < b)] in
/-- A map with the same interval and last index refines any finite map its hash map refines
whose keys lie in the interval. -/
theorem Refines.with_map (hr : Refines getKeyHash im a) {m : HashMap Index Element}
    {a' : AList fun _ : Index => Element} (hm : HashMap.Refines getKeyHash m a')
    (hkeys : ∀ index ∈ a', toNat im.minIndex ≤ toNat index ∧ toNat index ≤ toNat im.maxIndex) :
    Refines getKeyHash { im with map := m } a' :=
  ⟨hm, hr.minIndex_le, hr.maxIndex_lt, hr.count_lt, hkeys, hr.lastIndex_mem⟩

omit [∀ a b : Index, Decidable (a < b)] in
/-- `insertOrFail` of an index of the interval adds the element, or replaces that of a
present index. -/
theorem Refines.insertOrFail (hr : Refines getKeyHash im a) {index : Index}
    (hindex : toNat im.minIndex ≤ toNat index ∧ toNat index ≤ toNat im.maxIndex)
    (element : Element) :
    Refines getKeyHash (im.insertOrFail getKeyHash index element) (a.insert index element) := by
  have hlen : a.keys.length + 1 < 2 ^ 58 := by
    have := hr.length_keys_le
    have := hr.count_lt
    omega
  refine hr.with_map (hr.map.addOrFail hlen index element) fun index' hindex' => ?_
  rcases (AList.mem_insert _).1 hindex' with rfl | hindex'
  · exact hindex
  · exact hr.keys_mem index' hindex'

omit [∀ a b : Index, Decidable (a < b)] in
/-- `removeOrFail` removes the index, and does nothing to an absent one. -/
theorem Refines.removeOrFail (hr : Refines getKeyHash im a) (index : Index) :
    Refines getKeyHash (im.removeOrFail getKeyHash index) (a.erase index) := by
  have hlen : a.keys.length < 2 ^ 58 := by
    have := hr.length_keys_le
    have := hr.count_lt
    omega
  exact hr.with_map (hr.map.removeOrFail hlen index)
    fun index' hindex' => hr.keys_mem index' (AList.mem_erase.1 hindex').2

omit [∀ a b : Index, Decidable (a < b)] in
/-- A store through `get`'s pointer replaces the element of a present index. -/
theorem Refines.writeElement (hr : Refines getKeyHash im a) {index : Index} (hindex : index ∈ a)
    (element : Element) :
    Refines getKeyHash (im.writeElement getKeyHash index element) (a.insert index element) := by
  refine hr.with_map (hr.map.writeValue hindex element) fun index' hindex' => ?_
  rcases (AList.mem_insert _).1 hindex' with rfl | hindex'
  · exact hr.keys_mem index' hindex
  · exact hr.keys_mem index' hindex'

omit [∀ a b : Index, Decidable (a < b)] in
theorem Refines.get_eq (hr : Refines getKeyHash im a) (index : Index) :
    im.get getKeyHash index = a.lookup index :=
  hr.map.get_eq index

omit [∀ a b : Index, Decidable (a < b)] in
theorem Refines.contains_eq (hr : Refines getKeyHash im a) (index : Index) :
    im.contains getKeyHash index = decide (index ∈ a) :=
  hr.map.contains_eq index

omit [∀ a b : Index, Decidable (a < b)] in
/-- An insert into a map of `minBuckets` buckets with fewer than six indices keeps the buckets. -/
theorem Refines.numBuckets_insertOrFail_of_minBuckets (hr : Refines getKeyHash im a)
    (h8 : im.map.table.numBuckets = DefaultHashTableAllocPolicy.minBuckets)
    (hlen : a.keys.length < 6) (index : Index) (element : Element) :
    (im.insertOrFail getKeyHash index element).map.table.numBuckets =
      DefaultHashTableAllocPolicy.minBuckets :=
  hr.map.numBuckets_addOrFail_of_minBuckets h8 hlen index element

omit [DecidableEq Index] [∀ a b : Index, Decidable (a < b)] in
theorem Refines.size_eq (hr : Refines getKeyHash im a) : (im.size).toNat = a.keys.length :=
  hr.map.size_eq

end Refines

omit [DecidableEq Index] [∀ a b : Index, Decidable (a < b)] in
/-- **The constructor gives the empty map**, for an interval that stops short of the top of
the type and has fewer indices than a table could be allocated for. -/
theorem refines_init {inMinIndex inMaxIndex : Index} (hle : toNat inMinIndex ≤ toNat inMaxIndex)
    (htop : toNat inMaxIndex + 1 < 2 ^ width Index) (hcount : count inMinIndex inMaxIndex + 1 < 2 ^ 58) :
    Refines getKeyHash (init inMinIndex inMaxIndex : IndexMap Index Element) ∅ :=
  ⟨HashMap.refines_init (by decide), hle, htop, hcount, fun _ h => absurd h (AList.notMem_empty _),
    Or.inl rfl⟩

omit [Add Index] [LT Index] [∀ a b : Index, Decidable (a < b)] [FixedWidth Index] in
/-- The first insert into the map the constructor builds grows its table, which has no
buckets, to `minBuckets`. -/
theorem numBuckets_init_insertOrFail (inMinIndex inMaxIndex index : Index) (element : Element) :
    ((init inMinIndex inMaxIndex : IndexMap Index Element).insertOrFail getKeyHash index
      element).map.table.numBuckets = DefaultHashTableAllocPolicy.minBuckets := by
  have hresize : (HashTable.init 0 : HashTable (HashMapPair Index Element)).ResizesForAdd := by
    unfold HashTable.ResizesForAdd
    rw [HashTable.numBuckets_init_zero, HashTable.numElements_init]
    decide
  rw [numBuckets_insertOrFail, HashTable.numBuckets_growForAdd]
  show (if (HashTable.init 0 : HashTable (HashMapPair Index Element)).ResizesForAdd then
    DefaultHashTableAllocPolicy.getMinDesiredBuckets
      ((HashTable.init 0 : HashTable (HashMapPair Index Element)).numElements + 1) else _) = _
  rw [if_pos hresize, HashTable.numElements_init]
  decide

/-! ## A full map -/

section Full

variable {im : IndexMap Index Element} {a : AList fun _ : Index => Element}

/-- **`add` on a full map loops forever**: when every index of the interval is allocated, the
test `map.size() > maxIndex - minIndex + 1` does not hold, no number of rounds of the probe
loop reaches a free index, and so `add` never returns, `failIndex` or any other. -/
theorem indexMap_add_loops_when_full (hr : Refines getKeyHash im a)
    (hfull : ∀ index : Index, toNat im.minIndex ≤ toNat index → toNat index ≤ toNat im.maxIndex →
      index ∈ a)
    (failIndex : Index) (element : Element) :
    ¬ im.map.size > UInt64.ofNat (toNat (im.maxIndex - im.minIndex + 1)) ∧
      (∀ rounds, Probe.probe (cyclicSucc im.minIndex im.maxIndex) (im.map.contains getKeyHash)
        rounds im.lastIndex = none) ∧
      im.add getKeyHash failIndex element = none := by
  refine ⟨hr.not_size_gt, fun rounds => ?_, (hr.add_eq_none_iff failIndex element).2 hfull⟩
  -- every index the loop steps to lies in the interval, so it is allocated
  refine Probe.probe_eq_none_of_forall_used (fun k hk => ?_) rounds
  obtain ⟨hlo, hhi⟩ := cyclicSucc_iterate_mem hr.minIndex_le hr.maxIndex_lt hr.lastIndex_mem hk
  rw [hr.map.contains_eq]
  exact decide_eq_true (hfull _ hlo hhi)

/-- The map over `[0, 0]` holding `0`, the smallest case of the compartment's memories
`[0, 254]` holding 255 memories: the next `add` never returns. -/
theorem indexMap_add_loops_when_full_single :
    ((init 0 0 : IndexMap Uptr Unit).insertOrFail id 0 ()).add id 0xFFFFFFFFFFFFFFFF () = none := by
  have hr : Refines id ((init 0 0 : IndexMap Uptr Unit).insertOrFail id 0 ())
      ((∅ : AList fun _ : Uptr => Unit).insert 0 ()) :=
    (refines_init (by decide) (by decide) (by decide)).insertOrFail (by decide) ()
  refine (indexMap_add_loops_when_full hr (fun index hlo hhi => ?_) 0xFFFFFFFFFFFFFFFF ()).2.2
  -- the one index of `[0, 0]` is `0`
  have hzero : index = 0 := toNat_inj (Nat.le_antisymm hhi hlo)
  rw [hzero]
  exact (AList.mem_insert _).2 (Or.inl rfl)

end Full

end IndexMap

end Wavm
