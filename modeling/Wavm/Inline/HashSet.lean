import Wavm.Inline.HashMap

set_option relaxedAutoImplicit false
set_option autoImplicit false

/-!
# HashSet

`HashSet` of `src/Include/WAVM/Inline/HashSet.h` and `Impl/HashSetImpl.h`: a `HashTable` of
elements keyed by the element itself. The set implements a finite set, a `Finset`, as
`HashMap` implements an `AList`: a valid table whose elements are those of the `Finset`
refines it, every operation keeps that, and the lookups, the size and the iteration read the
`Finset` off the table. The last section puts the two containers together.

## Main definitions

* `Wavm.HashSet` and its operations `add`, `addOrFail`, `remove`, `removeOrFail`, `clear`,
  `contains`, `get`, `subscript` (the `operator[]`), `size` and `begin`.
* `Wavm.HashSet.Refines` — a valid table holding the elements of a `Finset`.
* `Wavm.HashSetOp`, `Wavm.HashSet.run`, `Wavm.HashSet.specRun`, `Wavm.HashSet.Agrees`.

## Main results

* `Wavm.HashSet.Refines.run` — every run of operations keeps the refinement and returns what
  the same operations on the `Finset` return.
* `Wavm.hashMap_hashSet_run_agrees` — a map and a set built by any sequences of operations
  behave as the finite map and the finite set the same operations build.

## Implementation notes

`HashSet::add` passes the element's hash to `getBucketForAdd` and stores it with the
occupancy bit; the table's `getKey` is the identity. The key equality is that of `Element`,
as in `DefaultHashPolicy`. Assertions are compiled out, as for `HashMap`.
-/

namespace Wavm

open Wavm.Runtime (Uptr)
open LinearProbing FiniteMap

/-- `HashSet`: its one field, the table of elements. -/
structure HashSet (Element : Type) where
  table : HashTable Element

/-- The operations of `HashSet` that change it, with their arguments. -/
inductive HashSetOp (Element : Type) where
  | add (element : Element)
  | addOrFail (element : Element)
  | remove (element : Element)
  | removeOrFail (element : Element)
  | clear
  deriving Repr

/-- What an operation returns: nothing or a `bool`. -/
inductive HashSetResult where
  | unit
  | bool (b : Bool)
  deriving DecidableEq, Repr

namespace HashSet

variable {Element : Type} [DecidableEq Element] (getKeyHash : Element → Uptr)

/-! ## The operations -/

/-- The constructor `HashSet(reserveNumElements)`. -/
def init (reserveNumElements : Uptr) : HashSet Element :=
  ⟨HashTable.init reserveNumElements⟩

/-- `add`: adds an absent element, and says whether it did. -/
def add (s : HashSet Element) (element : Element) : HashSet Element × Bool :=
  let hash := getKeyHash element
  let (table, bucket) := s.table.getBucketForAdd id hash element
  match table.bucketAt bucket with
  | some _ => (⟨table⟩, false)
  | none => (⟨table.setBucket bucket ⟨element, hash ||| isOccupiedMask⟩⟩, true)

/-- `addOrFail`: constructs the element in the bucket for it. -/
def addOrFail (s : HashSet Element) (element : Element) : HashSet Element :=
  let hash := getKeyHash element
  let (table, bucket) := s.table.getBucketForAdd id hash element
  ⟨table.setBucket bucket ⟨element, hash ||| isOccupiedMask⟩⟩

/-- `remove`: removes the element, and says whether it was present. -/
def remove (s : HashSet Element) (element : Element) : HashSet Element × Bool :=
  let (table, removed) := s.table.remove id (getKeyHash element) element
  (⟨table⟩, removed)

/-- `removeOrFail`. -/
def removeOrFail (s : HashSet Element) (element : Element) : HashSet Element :=
  ⟨(s.table.remove id (getKeyHash element) element).1⟩

/-- `operator[]`: the stored element, which the source asserts is present. -/
def subscript (s : HashSet Element) (element : Element) : Option Element :=
  let hash := getKeyHash element
  match s.table.getBucketForRead id hash element with
  | none => none
  | some bucket => (s.table.bucketAt bucket).map HashTableBucket.contents

/-- `contains`. -/
def contains (s : HashSet Element) (element : Element) : Bool :=
  let hash := getKeyHash element
  (s.table.getBucketForRead id hash element).isSome

/-- `get`: the stored element, `none` for the null pointer. -/
def get (s : HashSet Element) (element : Element) : Option Element :=
  let hash := getKeyHash element
  match s.table.getBucketForRead id hash element with
  | none => none
  | some bucket => (s.table.bucketAt bucket).map HashTableBucket.contents

/-- `clear()`. -/
def clear (s : HashSet Element) : HashSet Element :=
  ⟨s.table.clear⟩

/-- `begin()`: a `HashSetIterator` at the first occupied bucket. -/
def begin (s : HashSet Element) : HashTable.BucketRange Element :=
  s.table.iteratorBegin

/-- `size()`. -/
def size (s : HashSet Element) : Uptr :=
  s.table.size

/-- One operation of a sequence, and what it returns. -/
def step (s : HashSet Element) : HashSetOp Element → HashSet Element × HashSetResult
  | .add element =>
    let r := s.add getKeyHash element
    (r.1, .bool r.2)
  | .addOrFail element => (s.addOrFail getKeyHash element, .unit)
  | .remove element =>
    let r := s.remove getKeyHash element
    (r.1, .bool r.2)
  | .removeOrFail element => (s.removeOrFail getKeyHash element, .unit)
  | .clear => (s.clear, .unit)

/-- A sequence of operations, and what each returns. -/
def run : HashSet Element → List (HashSetOp Element) → HashSet Element × List HashSetResult
  | s, [] => (s, [])
  | s, op :: ops =>
    let r := s.step getKeyHash op
    let rest := run r.1 ops
    (rest.1, r.2 :: rest.2)

/-! ## The finite set the operations implement -/

/-- `add` on a finite set: an absent element is added, and the answer says so. -/
def specAdd (f : Finset Element) (element : Element) : Finset Element × Bool :=
  if element ∈ f then (f, false) else (insert element f, true)

/-- An operation on the finite set, and what it returns. -/
def specStep (f : Finset Element) : HashSetOp Element → Finset Element × HashSetResult
  | .add element =>
    let r := specAdd f element
    (r.1, .bool r.2)
  | .addOrFail element => (insert element f, .unit)
  | .remove element => (f.erase element, .bool (decide (element ∈ f)))
  | .removeOrFail element => (f.erase element, .unit)
  | .clear => (∅, .unit)

/-- A sequence of operations on the finite set, and what each returns. -/
def specRun : Finset Element → List (HashSetOp Element) → Finset Element × List HashSetResult
  | f, [] => (f, [])
  | f, op :: ops =>
    let r := specStep f op
    let rest := specRun r.1 ops
    (rest.1, r.2 :: rest.2)

/-- An operation adds at most one element. -/
theorem card_specStep_le (f : Finset Element) (op : HashSetOp Element) :
    (specStep f op).1.card ≤ f.card + 1 := by
  cases op with
  | add element =>
    show (specAdd f element).1.card ≤ _
    unfold specAdd
    split
    · exact Nat.le_succ _
    · exact Finset.card_insert_le _ _
  | addOrFail element => exact Finset.card_insert_le _ _
  | remove element => exact Nat.le_succ_of_le (Finset.card_erase_le)
  | removeOrFail element => exact Nat.le_succ_of_le (Finset.card_erase_le)
  | clear => exact Nat.zero_le _

/-! ## Refinement of a finite set -/

/-- The elements of the set, in bucket order. -/
def elements (s : HashSet Element) : List Element :=
  (occupied s.table.buckets).map HashTableBucket.contents

omit [DecidableEq Element] in
theorem elements_mk (t : HashTable Element) :
    (⟨t⟩ : HashSet Element).elements = (occupied t.buckets).map HashTableBucket.contents := rfl

/-- **The set refines the finite set `f`**: its table is valid, and its elements are those
of `f`. -/
structure Refines (s : HashSet Element) (f : Finset Element) : Prop where
  valid : HashTable.Valid id getKeyHash s.table
  represents : RepresentsSet s.elements f

variable {getKeyHash}

section Refines

variable {s : HashSet Element} {f : Finset Element}

omit [DecidableEq Element] in
theorem Refines.numElements_eq (hr : Refines getKeyHash s f) :
    s.table.numElements.toNat = f.card := by
  rw [hr.valid.numElements_eq, ← hr.represents.length_eq, elements, List.length_map]

omit [DecidableEq Element] in
theorem Refines.mem_iff (hr : Refines getKeyHash s f) {element : Element} :
    element ∈ f ↔ ∃ b ∈ occupied s.table.buckets, b.contents = element := by
  rw [hr.represents.mem_iff, elements, List.mem_map]

omit [DecidableEq Element] in
/-- A stored bucket holds its element with the element's hash. -/
theorem Refines.bucket_eq (hr : Refines getKeyHash s f) {b : HashTableBucket Element}
    (hb : b ∈ occupied s.table.buckets) :
    b = ⟨b.contents, getKeyHash b.contents ||| isOccupiedMask⟩ := by
  have hhash := hr.valid.hashes b hb
  obtain ⟨element, hash⟩ := b
  dsimp only at hhash ⊢
  subst hhash
  rfl

omit [DecidableEq Element] in
theorem Refines.of_perm (hr : Refines getKeyHash s f) {t : HashTable Element}
    (hv : HashTable.Valid id getKeyHash t) (hperm : (occupied t.buckets).Perm (occupied s.table.buckets)) :
    Refines getKeyHash ⟨t⟩ f :=
  ⟨hv, hr.represents.perm (hperm.map HashTableBucket.contents)⟩

/-- **What a lookup finds**: nothing for an absent element, and for a present one a bucket
that holds it. -/
theorem Refines.getBucketForRead_cases (hr : Refines getKeyHash s f) (element : Element) :
    (element ∉ f ∧ s.table.getBucketForRead id (getKeyHash element) element = none) ∨
      (element ∈ f ∧ ∃ i, s.table.getBucketForRead id (getKeyHash element) element = some i ∧
        s.table.bucketAt i = some ⟨element, getKeyHash element ||| isOccupiedMask⟩) := by
  by_cases he : element ∈ f
  · obtain ⟨b, hb, rfl⟩ := hr.mem_iff.1 he
    obtain ⟨y, hys, hy⟩ := mem_occupied.1 hb
    obtain ⟨k, -, hbk⟩ := hr.valid.hasBuckets (by omega)
    refine Or.inr ⟨he, UInt64.ofNat y, HashTable.getBucketForRead_of_mem hr.valid hy rfl rfl, ?_⟩
    rw [hbk.bucketAt_ofNat hy, ← hr.bucket_eq hb]
  · refine Or.inl ⟨he, HashTable.getBucketForRead_of_not_mem (fun b hb hkey => ?_) _⟩
    exact he (hr.mem_iff.2 ⟨b, hb, hkey⟩)

/-- **What `getBucketForAdd` finds**: for an absent element an empty bucket, where the
element gives the set with it added; for a present element its bucket. -/
theorem Refines.getBucketForAdd_cases (hr : Refines getKeyHash s f)
    (hlen : f.card + 1 < 2 ^ 58) {element : Element} {t : HashTable Element} {bucket : Uptr}
    (hadd : s.table.getBucketForAdd id (getKeyHash element) element = (t, bucket)) :
    (element ∉ f ∧ t.bucketAt bucket = none ∧
        Refines getKeyHash ⟨t.setBucket bucket ⟨element, getKeyHash element ||| isOccupiedMask⟩⟩
          (insert element f)) ∨
      (element ∈ f ∧ Refines getKeyHash ⟨t⟩ f ∧
        t.bucketAt bucket = some ⟨element, getKeyHash element ||| isOccupiedMask⟩ ∧
        Refines getKeyHash ⟨t.setBucket bucket ⟨element, getKeyHash element ||| isOccupiedMask⟩⟩
          f) := by
  have hlen' : s.table.numElements.toNat + 1 < 2 ^ 58 := by rw [hr.numElements_eq]; exact hlen
  have hhash : getKeyHash element ||| isOccupiedMask = HashTable.keyHash getKeyHash element := rfl
  by_cases he : element ∈ f
  · -- the element's bucket, in the table grown for the add
    have h := HashTable.getBucketForAdd_of_mem hr.valid hlen' hhash (hr.mem_iff.1 he)
    rw [hadd] at h
    obtain ⟨hv1, hperm1, b, hat, hkey⟩ := h
    have hr1 := hr.of_perm hv1 hperm1
    have hb : b ∈ occupied t.buckets := by
      rw [HashTable.bucketAt_eq] at hat
      exact mem_occupied.2 ⟨_, lt_of_slots_eq_some hat, hat⟩
    have hbeq := hr1.bucket_eq hb
    rw [show b.contents = element from hkey] at hbeq
    rw [hbeq] at hat
    refine Or.inr ⟨he, hr1, hat, ?_⟩
    -- the same element written over itself
    obtain ⟨hv2, hperm2⟩ := HashTable.setBucket_replace hv1 hat
      ⟨element, getKeyHash element ||| isOccupiedMask⟩ rfl rfl
    refine ⟨hv2, hr1.represents.perm ?_⟩
    have h := hperm2.map HashTableBucket.contents
    rw [List.map_append, List.map_append, List.map_singleton] at h
    rw [elements_mk, elements_mk]
    exact (List.perm_append_right_iff _).1 h
  · -- an empty bucket, where the element goes
    have habs : ∀ b ∈ occupied s.table.buckets, id b.contents ≠ id element :=
      fun b hb hkey => he (hr.mem_iff.2 ⟨b, hb, hkey⟩)
    have h := HashTable.getBucketForAdd_of_not_mem (e := element) hr.valid hlen' hhash habs
    simp only [id] at h
    rw [hadd] at h
    obtain ⟨hempty, hv2, hperm2⟩ := h
    refine Or.inl ⟨he, hempty, hv2, hr.represents.insert_of_notMem he ?_⟩
    rw [elements_mk]
    exact hperm2.map HashTableBucket.contents

/-! ### The operations, one lemma each -/

omit [DecidableEq Element] in
/-- The constructor gives the empty set. -/
theorem refines_init {reserveNumElements : Uptr} (h : reserveNumElements.toNat < 2 ^ 58) :
    Refines getKeyHash (init reserveNumElements : HashSet Element) ∅ := by
  have h0 : HashTable.Valid id getKeyHash (HashTable.init reserveNumElements : HashTable Element) ∧
      occupied (HashTable.init reserveNumElements : HashTable Element).buckets = [] :=
    HashTable.init_spec h
  obtain ⟨hv, hocc⟩ := h0
  refine ⟨hv, ?_⟩
  rw [elements, init, hocc, List.map_nil]
  exact representsSet_empty

omit [DecidableEq Element] in
/-- `clear` gives the empty set. -/
theorem refines_clear (s : HashSet Element) : Refines getKeyHash s.clear ∅ := by
  have h0 : HashTable.Valid id getKeyHash s.table.clear ∧ occupied s.table.clear.buckets = [] :=
    HashTable.clear_spec s.table
  obtain ⟨hv, hocc⟩ := h0
  refine ⟨hv, ?_⟩
  rw [elements, clear, hocc, List.map_nil]
  exact representsSet_empty

/-- `add` adds an absent element and answers `true`, and leaves the set for a present one and
answers `false`. -/
theorem Refines.add (hr : Refines getKeyHash s f) (hlen : f.card + 1 < 2 ^ 58)
    (element : Element) :
    Refines getKeyHash (s.add getKeyHash element).1 (specAdd f element).1 ∧
      (s.add getKeyHash element).2 = (specAdd f element).2 := by
  rcases hadd : s.table.getBucketForAdd id (getKeyHash element) element with ⟨t, bucket⟩
  dsimp only [HashSet.add]
  rw [hadd]
  dsimp only
  rcases hr.getBucketForAdd_cases hlen hadd with ⟨he, hempty, hr2⟩ | ⟨he, hr1, hat, -⟩
  · rw [hempty, specAdd, if_neg he]
    exact ⟨hr2, rfl⟩
  · rw [hat, specAdd, if_pos he]
    exact ⟨hr1, rfl⟩

/-- `addOrFail` adds the element, or with the assertion compiled out writes a present one
over itself. -/
theorem Refines.addOrFail (hr : Refines getKeyHash s f) (hlen : f.card + 1 < 2 ^ 58)
    (element : Element) :
    Refines getKeyHash (s.addOrFail getKeyHash element) (insert element f) := by
  rcases hadd : s.table.getBucketForAdd id (getKeyHash element) element with ⟨t, bucket⟩
  dsimp only [HashSet.addOrFail]
  rw [hadd]
  rcases hr.getBucketForAdd_cases hlen hadd with ⟨-, -, hr2⟩ | ⟨he, -, -, hr2⟩
  · exact hr2
  · rw [Finset.insert_eq_of_mem he]
    exact hr2

/-- `remove` removes the element and answers whether it was present. -/
theorem Refines.remove (hr : Refines getKeyHash s f) (hlen : f.card < 2 ^ 58)
    (element : Element) :
    Refines getKeyHash (s.remove getKeyHash element).1 (f.erase element) ∧
      (s.remove getKeyHash element).2 = decide (element ∈ f) := by
  by_cases he : element ∈ f
  · obtain ⟨b, hb, rfl⟩ := hr.mem_iff.1 he
    obtain ⟨y, -, hy⟩ := mem_occupied.1 hb
    have hhash : getKeyHash b.contents ||| isOccupiedMask =
        HashTable.keyHash getKeyHash (id b.contents) := rfl
    obtain ⟨htrue, hv2, hperm2⟩ := HashTable.remove_of_mem hr.valid
      (by rw [hr.numElements_eq]; exact hlen) hy hhash
    dsimp only [id] at htrue
    refine ⟨⟨hv2, hr.represents.erase ?_⟩, ?_⟩
    · have h := hperm2.map HashTableBucket.contents
      rw [List.map_append, List.map_singleton] at h
      rw [elements_mk]
      exact h
    · show (s.table.remove id _ _).2 = _
      rw [htrue, decide_eq_true he]
  · have habs : ∀ b ∈ occupied s.table.buckets, id b.contents ≠ element :=
      fun b hb hkey => he (hr.mem_iff.2 ⟨b, hb, hkey⟩)
    have hdef : s.remove getKeyHash element = (s, false) := by
      simp only [HashSet.remove, HashTable.remove_of_not_mem habs]
    rw [hdef, decide_eq_false he, Finset.erase_eq_of_notMem he]
    exact ⟨hr, rfl⟩

/-- `removeOrFail` removes the element; with the assertion compiled out, an absent element
leaves the set. -/
theorem Refines.removeOrFail (hr : Refines getKeyHash s f) (hlen : f.card < 2 ^ 58)
    (element : Element) : Refines getKeyHash (s.removeOrFail getKeyHash element) (f.erase element) :=
  (hr.remove hlen element).1

/-! ### Queries -/

theorem Refines.contains_eq (hr : Refines getKeyHash s f) (element : Element) :
    s.contains getKeyHash element = decide (element ∈ f) := by
  rcases hr.getBucketForRead_cases element with ⟨he, hnone⟩ | ⟨he, i, hsome, -⟩
  · simp only [HashSet.contains, hnone, Option.isSome_none, decide_eq_false he]
  · simp only [HashSet.contains, hsome, Option.isSome_some, decide_eq_true he]

theorem Refines.get_eq (hr : Refines getKeyHash s f) (element : Element) :
    s.get getKeyHash element = if element ∈ f then some element else none := by
  rcases hr.getBucketForRead_cases element with ⟨he, hnone⟩ | ⟨he, i, hsome, hat⟩
  · simp only [HashSet.get, hnone, if_neg he]
  · simp only [HashSet.get, hsome, hat, Option.map_some, if_pos he]

theorem Refines.subscript_eq (hr : Refines getKeyHash s f) (element : Element) :
    s.subscript getKeyHash element = if element ∈ f then some element else none := by
  rcases hr.getBucketForRead_cases element with ⟨he, hnone⟩ | ⟨he, i, hsome, hat⟩
  · simp only [HashSet.subscript, hnone, if_neg he]
  · simp only [HashSet.subscript, hsome, hat, Option.map_some, if_pos he]

omit [DecidableEq Element] in
theorem Refines.size_eq (hr : Refines getKeyHash s f) : s.size.toNat = f.card :=
  hr.numElements_eq

omit [DecidableEq Element] in
/-- Iteration from `begin()` to `end()` visits the elements of the finite set, each once. -/
theorem Refines.iterate_begin (hr : Refines getKeyHash s f) :
    RepresentsSet (HashTable.iterate s.begin) f := by
  rw [begin, HashTable.iterate_iteratorBegin]
  exact hr.represents

/-! ### Whole runs -/

/-- **One operation** keeps the refinement and returns what the operation on the finite set
returns. -/
theorem Refines.step (hr : Refines getKeyHash s f) (hlen : f.card + 1 < 2 ^ 58)
    (op : HashSetOp Element) :
    Refines getKeyHash (s.step getKeyHash op).1 (specStep f op).1 ∧
      (s.step getKeyHash op).2 = (specStep f op).2 := by
  cases op with
  | add element =>
    obtain ⟨h1, h2⟩ := hr.add hlen element
    simp only [HashSet.step, specStep]
    exact ⟨h1, by rw [h2]⟩
  | addOrFail element =>
    simp only [HashSet.step, specStep]
    exact ⟨hr.addOrFail hlen element, trivial⟩
  | remove element =>
    obtain ⟨h1, h2⟩ := hr.remove (by omega) element
    simp only [HashSet.step, specStep]
    exact ⟨h1, by rw [h2]⟩
  | removeOrFail element =>
    simp only [HashSet.step, specStep]
    exact ⟨hr.removeOrFail (by omega) element, trivial⟩
  | clear =>
    simp only [HashSet.step, specStep]
    exact ⟨refines_clear s, trivial⟩

/-- **A run** of operations keeps the refinement and returns what the same operations on the
finite set return, as long as the set stays below `2 ^ 58` elements. -/
theorem Refines.run {ops : List (HashSetOp Element)} (hr : Refines getKeyHash s f)
    (hlen : f.card + ops.length < 2 ^ 58) :
    Refines getKeyHash (s.run getKeyHash ops).1 (specRun f ops).1 ∧
      (s.run getKeyHash ops).2 = (specRun f ops).2 := by
  induction ops generalizing s f with
  | nil => exact ⟨hr, rfl⟩
  | cons op ops ih =>
    rw [List.length_cons] at hlen
    obtain ⟨hr1, hres⟩ := hr.step (by omega) op
    have hlen1 : (specStep f op).1.card + ops.length < 2 ^ 58 := by
      have := card_specStep_le f op
      omega
    obtain ⟨hr2, hres2⟩ := ih hr1 hlen1
    refine ⟨hr2, ?_⟩
    rw [HashSet.run, specRun]
    exact congrArg₂ List.cons hres hres2

end Refines

/-! ## What a user observes -/

variable (getKeyHash) in
/-- **The set behaves as the finite set `f`**: every lookup, the size and the iteration
agree with `f`. -/
structure Agrees (s : HashSet Element) (f : Finset Element) : Prop where
  contains : ∀ element, s.contains getKeyHash element = decide (element ∈ f)
  get : ∀ element, s.get getKeyHash element = if element ∈ f then some element else none
  subscript : ∀ element,
    s.subscript getKeyHash element = if element ∈ f then some element else none
  size : s.size.toNat = f.card
  iterate : RepresentsSet (HashTable.iterate s.begin) f

theorem Refines.agrees {s : HashSet Element} {f : Finset Element}
    (hr : Refines getKeyHash s f) : Agrees getKeyHash s f :=
  ⟨hr.contains_eq, hr.get_eq, hr.subscript_eq, hr.size_eq, hr.iterate_begin⟩

/-- **A set built by any sequence of operations** from the constructor behaves as the finite
set the same operations build from `∅`, and every operation returns what it returns there. -/
theorem run_init_agrees {reserveNumElements : Uptr} (hreserve : reserveNumElements.toNat < 2 ^ 58)
    {ops : List (HashSetOp Element)} (hops : ops.length < 2 ^ 58) :
    Agrees getKeyHash (run getKeyHash (init reserveNumElements) ops).1 (specRun ∅ ops).1 ∧
      (run getKeyHash (init reserveNumElements) ops).2 = (specRun ∅ ops).2 := by
  have hlen : (∅ : Finset Element).card + ops.length < 2 ^ 58 := by
    rw [Finset.card_empty, Nat.zero_add]
    exact hops
  obtain ⟨hr, hres⟩ := (refines_init hreserve).run hlen
  exact ⟨hr.agrees, hres⟩

end HashSet

/-! ## Maps and sets -/

/-- **Maps and sets implement finite maps and finite sets.** For any key hash policies,
however their hashes collide, a `HashMap` built from the constructor by any sequence of
`add`, `addOrFail`, `set`, `getOrAdd`, `remove`, `removeOrFail` and `clear` answers `get`,
`contains`, `operator[]` and `getPair` for every key, and `size()`, as the `AList` that the
same operations build from `∅`; its iteration from `begin()` to `end()` visits each pair of
that `AList` once; and each operation returns what it returns on the `AList`. The same holds
for a `HashSet` against a `Finset`.

**Proof sketch.** The constructor refines `∅`; each operation keeps the refinement
(`HashMap.Refines.step`, `HashSet.Refines.step`), so a whole run does; a refining container
agrees with what it refines. -/
theorem hashMap_hashSet_run_agrees {Key Value Element : Type} [DecidableEq Key]
    [DecidableEq Element] (getKeyHash : Key → Uptr) (getElementHash : Element → Uptr)
    {reserve : Uptr} (hreserve : reserve.toNat < 2 ^ 58)
    (mapOps : List (HashMapOp Key Value)) (setOps : List (HashSetOp Element))
    (hmap : mapOps.length < 2 ^ 58) (hset : setOps.length < 2 ^ 58) :
    (HashMap.Agrees getKeyHash (HashMap.run getKeyHash (HashMap.init reserve) mapOps).1
        (HashMap.specRun ∅ mapOps).1 ∧
      (HashMap.run getKeyHash (HashMap.init reserve) mapOps).2 = (HashMap.specRun ∅ mapOps).2) ∧
    (HashSet.Agrees getElementHash (HashSet.run getElementHash (HashSet.init reserve) setOps).1
        (HashSet.specRun ∅ setOps).1 ∧
      (HashSet.run getElementHash (HashSet.init reserve) setOps).2 =
        (HashSet.specRun ∅ setOps).2) :=
  ⟨HashMap.run_init_agrees hreserve hmap, HashSet.run_init_agrees hreserve hset⟩

/-- The theorem at keys that all hash to `0`: a map and a set that add, overwrite and remove
colliding keys. -/
theorem hashMap_hashSet_run_agrees_colliding :
    (HashMap.Agrees (fun _ : ℕ => (0 : Uptr))
        (HashMap.run (fun _ => 0) (HashMap.init 0)
          [.add 1 10, .add 2 20, .set 1 11, .remove 2, .getOrAdd 3 30]).1
        (HashMap.specRun ∅ [.add 1 10, .add 2 20, .set 1 11, .remove 2, .getOrAdd 3 30]).1 ∧
      (HashMap.run (fun _ => 0) (HashMap.init 0)
          [.add 1 10, .add 2 20, .set 1 11, .remove 2, .getOrAdd 3 30]).2 =
        (HashMap.specRun ∅ [.add 1 10, .add 2 20, .set 1 11, .remove 2, .getOrAdd 3 30]).2) ∧
    (HashSet.Agrees (fun _ : ℕ => (0 : Uptr))
        (HashSet.run (fun _ => 0) (HashSet.init 0) [.add 1, .add 2, .remove 1, .add 1]).1
        (HashSet.specRun ∅ [.add 1, .add 2, .remove 1, .add 1]).1 ∧
      (HashSet.run (fun _ => 0) (HashSet.init 0) [.add 1, .add 2, .remove 1, .add 1]).2 =
        (HashSet.specRun ∅ [.add 1, .add 2, .remove 1, .add 1]).2) :=
  hashMap_hashSet_run_agrees (fun _ => 0) (fun _ => 0) (by decide) _ _
    (by decide) (by decide)

end Wavm
