import Wavm.Inline.HashTableValid
import Wavm.Lib.FiniteMap

set_option relaxedAutoImplicit false
set_option autoImplicit false

/-!
# HashMap

`HashMap` of `src/Include/WAVM/Inline/HashMap.h` and `Impl/HashMapImpl.h`: a `HashTable` of
`HashMapPair`s, keyed by the pair's key and hashed by a key hash policy. The map implements a
finite map, an `AList` from keys to values: a valid table whose pairs are the entries of the
`AList` refines it, every operation keeps that, and the lookups, the size and the iteration
read the `AList` off the table.

## Main definitions

* `Wavm.HashMapPair`, `Wavm.HashMap` and its operations `add`, `addOrFail`, `set`,
  `getOrAdd`, `remove`, `removeOrFail`, `clear`, `contains`, `get`, `getPair`, `subscript`
  (the `operator[]`), `size` and `begin`; `writeValue`, a store through the pointer `get`
  returns.
* `Wavm.HashMap.Refines` — a valid table holding the entries of an `AList`.
* `Wavm.HashMapOp`, `Wavm.HashMap.run` — a sequence of operations on the map, and
  `Wavm.HashMap.specRun`, the same operations on the `AList`.
* `Wavm.HashMap.Agrees` — what a user observes of the map is the `AList`.

## Main results

* `Refines.getBucketForRead_cases`, `Refines.getBucketForAdd_cases` — what the two lookups
  find, in terms of the `AList`.
* `Refines.agrees` — a refining map answers every query as its `AList` does.
* `step_refines`, `run_refines` — each operation, and so every sequence of them, keeps the
  refinement and returns what the `AList` operation returns.

## Implementation notes

A key hash policy is a function `getKeyHash : Key → Uptr` and the equality of `Key`; nothing
is assumed of the hash, so that every key may collide with every other. A value constructed
from `valueArgs` is the value itself. The operations that return a reference to the value
return the value; `get` and `getPair` return `none` for the null pointer, and so does the
`operator[]` for an absent key, where the source asserts. As in the table, `wavmAssert` is
compiled out: `addOrFail` of a present key overwrites its pair, and `removeOrFail` of an
absent key does nothing. The sizes involved stay below `2 ^ 58` elements, which the buckets of
a table for that many elements could not be allocated beyond.
-/

namespace Wavm

open Wavm.Runtime (Uptr)
open LinearProbing FiniteMap

/-- `HashMapPair`: a key and its value. -/
structure HashMapPair (Key Value : Type) where
  key : Key
  value : Value
  deriving DecidableEq, Repr

/-- A pair as an entry of a finite map. -/
def HashMapPair.toSigma {Key Value : Type} (pair : HashMapPair Key Value) :
    Σ _ : Key, Value :=
  ⟨pair.key, pair.value⟩

/-- `HashMap`: its one field, the table of pairs. -/
structure HashMap (Key Value : Type) where
  table : HashTable (HashMapPair Key Value)

/-- The operations of `HashMap` that change it, with their arguments. -/
inductive HashMapOp (Key Value : Type) where
  | add (key : Key) (value : Value)
  | addOrFail (key : Key) (value : Value)
  | set (key : Key) (value : Value)
  | getOrAdd (key : Key) (value : Value)
  | remove (key : Key)
  | removeOrFail (key : Key)
  | clear
  deriving Repr

/-- What an operation returns: nothing, a `bool`, or (a reference to) a value. -/
inductive HashMapResult (Value : Type) where
  | unit
  | bool (b : Bool)
  | value (v : Value)
  deriving DecidableEq, Repr

namespace HashMap

variable {Key Value : Type} [DecidableEq Key] (getKeyHash : Key → Uptr)

/-! ## The operations -/

/-- The constructor `HashMap(reserveNumPairs)`. -/
def init (reserveNumPairs : Uptr) : HashMap Key Value :=
  ⟨HashTable.init reserveNumPairs⟩

/-- `getOrAdd`: the value of the key, which is added with `value` if absent. -/
def getOrAdd (m : HashMap Key Value) (key : Key) (value : Value) : HashMap Key Value × Value :=
  let hashAndOccupancy := getKeyHash key ||| isOccupiedMask
  let (table, bucket) := m.table.getBucketForAdd HashMapPair.key hashAndOccupancy key
  match table.bucketAt bucket with
  | none => (⟨table.setBucket bucket ⟨⟨key, value⟩, hashAndOccupancy⟩⟩, value)
  | some b => (⟨table⟩, b.contents.value)

/-- `add`: adds the pair if the key is absent, and says whether it did. -/
def add (m : HashMap Key Value) (key : Key) (value : Value) : HashMap Key Value × Bool :=
  let hashAndOccupancy := getKeyHash key ||| isOccupiedMask
  let (table, bucket) := m.table.getBucketForAdd HashMapPair.key hashAndOccupancy key
  match table.bucketAt bucket with
  | none => (⟨table.setBucket bucket ⟨⟨key, value⟩, hashAndOccupancy⟩⟩, true)
  | some _ => (⟨table⟩, false)

/-- `addOrFail`: constructs the pair in the bucket for the key. -/
def addOrFail (m : HashMap Key Value) (key : Key) (value : Value) : HashMap Key Value :=
  let hashAndOccupancy := getKeyHash key ||| isOccupiedMask
  let (table, bucket) := m.table.getBucketForAdd HashMapPair.key hashAndOccupancy key
  ⟨table.setBucket bucket ⟨⟨key, value⟩, hashAndOccupancy⟩⟩

/-- `addOrFail` leaves the buckets `growForAdd` leaves. -/
theorem numBuckets_addOrFail (m : HashMap Key Value) (key : Key) (value : Value) :
    (m.addOrFail getKeyHash key value).table.numBuckets =
      (m.table.growForAdd HashMapPair.key).numBuckets := by
  unfold addOrFail HashTable.numBuckets
  rw [HashTable.setBucket_hashToBucketIndexMask, HashTable.getBucketForAdd_hashToBucketIndexMask]

/-- `set`: adds the pair, or replaces the value of a present key. -/
def set (m : HashMap Key Value) (key : Key) (value : Value) : HashMap Key Value × Value :=
  let hashAndOccupancy := getKeyHash key ||| isOccupiedMask
  let (table, bucket) := m.table.getBucketForAdd HashMapPair.key hashAndOccupancy key
  match table.bucketAt bucket with
  | none => (⟨table.setBucket bucket ⟨⟨key, value⟩, hashAndOccupancy⟩⟩, value)
  | some b => (⟨table.setBucket bucket { b with contents := { b.contents with value } }⟩, value)

/-- `remove`: removes the key, and says whether it was present. -/
def remove (m : HashMap Key Value) (key : Key) : HashMap Key Value × Bool :=
  let (table, removed) := m.table.remove HashMapPair.key (getKeyHash key) key
  (⟨table⟩, removed)

/-- `removeOrFail`. -/
def removeOrFail (m : HashMap Key Value) (key : Key) : HashMap Key Value :=
  ⟨(m.table.remove HashMapPair.key (getKeyHash key) key).1⟩

/-- `contains`. -/
def contains (m : HashMap Key Value) (key : Key) : Bool :=
  let hash := getKeyHash key
  (m.table.getBucketForRead HashMapPair.key hash key).isSome

/-- `get`: the value of the key, `none` for the null pointer. -/
def get (m : HashMap Key Value) (key : Key) : Option Value :=
  let hash := getKeyHash key
  match m.table.getBucketForRead HashMapPair.key hash key with
  | none => none
  | some bucket => (m.table.bucketAt bucket).map fun b => b.contents.value

/-- `getPair`: the pair of the key, `none` for the null pointer. -/
def getPair (m : HashMap Key Value) (key : Key) : Option (HashMapPair Key Value) :=
  let hash := getKeyHash key
  match m.table.getBucketForRead HashMapPair.key hash key with
  | none => none
  | some bucket => (m.table.bucketAt bucket).map HashTableBucket.contents

/-- `operator[]`: the value of the key, which the source asserts is present. -/
def subscript (m : HashMap Key Value) (key : Key) : Option Value :=
  let hash := getKeyHash key
  match m.table.getBucketForRead HashMapPair.key hash key with
  | none => none
  | some bucket => (m.table.bucketAt bucket).map fun b => b.contents.value

/-- A store through the pointer `get` returns: the value in the key's bucket is overwritten,
and nothing happens where `get` returns the null pointer. -/
def writeValue (m : HashMap Key Value) (key : Key) (value : Value) : HashMap Key Value :=
  let hash := getKeyHash key
  match m.table.getBucketForRead HashMapPair.key hash key with
  | none => m
  | some bucket =>
    match m.table.bucketAt bucket with
    | none => m
    | some b => ⟨m.table.setBucket bucket { b with contents := { b.contents with value } }⟩

/-- `clear()`. -/
def clear (m : HashMap Key Value) : HashMap Key Value :=
  ⟨m.table.clear⟩

/-- `size()`. -/
def size (m : HashMap Key Value) : Uptr :=
  m.table.size

/-- `begin()`: a `HashMapIterator` at the first occupied bucket. -/
def begin (m : HashMap Key Value) : HashTable.BucketRange (HashMapPair Key Value) :=
  m.table.iteratorBegin

/-- One operation of a sequence, and what it returns. -/
def step (m : HashMap Key Value) :
    HashMapOp Key Value → HashMap Key Value × HashMapResult Value
  | .add key value =>
    let r := m.add getKeyHash key value
    (r.1, .bool r.2)
  | .addOrFail key value => (m.addOrFail getKeyHash key value, .unit)
  | .set key value =>
    let r := m.set getKeyHash key value
    (r.1, .value r.2)
  | .getOrAdd key value =>
    let r := m.getOrAdd getKeyHash key value
    (r.1, .value r.2)
  | .remove key =>
    let r := m.remove getKeyHash key
    (r.1, .bool r.2)
  | .removeOrFail key => (m.removeOrFail getKeyHash key, .unit)
  | .clear => (m.clear, .unit)

/-- A sequence of operations, and what each returns. -/
def run : HashMap Key Value → List (HashMapOp Key Value) →
    HashMap Key Value × List (HashMapResult Value)
  | m, [] => (m, [])
  | m, op :: ops =>
    let r := m.step getKeyHash op
    let rest := run r.1 ops
    (rest.1, r.2 :: rest.2)

/-! ## The finite map the operations implement

The operations with a result that depends on the contents, on an `AList` from keys to
values. The others are `AList.insert` (`addOrFail`, `set`), `AList.erase` (`removeOrFail`)
and `∅` (`clear`). -/

/-- `getOrAdd` on a finite map: the value of a present key, or the new value added. -/
def specGetOrAdd (a : AList fun _ : Key => Value) (key : Key) (value : Value) :
    (AList fun _ : Key => Value) × Value :=
  match a.lookup key with
  | some value₀ => (a, value₀)
  | none => (a.insert key value, value)

/-- `add` on a finite map: an absent key is added, and the answer says so. -/
def specAdd (a : AList fun _ : Key => Value) (key : Key) (value : Value) :
    (AList fun _ : Key => Value) × Bool :=
  if key ∈ a then (a, false) else (a.insert key value, true)

/-- An operation on the finite map, and what it returns. -/
def specStep (a : AList fun _ : Key => Value) :
    HashMapOp Key Value → (AList fun _ : Key => Value) × HashMapResult Value
  | .add key value =>
    let r := specAdd a key value
    (r.1, .bool r.2)
  | .addOrFail key value => (a.insert key value, .unit)
  | .set key value => (a.insert key value, .value value)
  | .getOrAdd key value =>
    let r := specGetOrAdd a key value
    (r.1, .value r.2)
  | .remove key => (a.erase key, .bool (decide (key ∈ a)))
  | .removeOrFail key => (a.erase key, .unit)
  | .clear => (∅, .unit)

/-- A sequence of operations on the finite map, and what each returns. -/
def specRun : (AList fun _ : Key => Value) → List (HashMapOp Key Value) →
    (AList fun _ : Key => Value) × List (HashMapResult Value)
  | a, [] => (a, [])
  | a, op :: ops =>
    let r := specStep a op
    let rest := specRun r.1 ops
    (rest.1, r.2 :: rest.2)

/-- An operation adds at most one key. -/
theorem length_keys_specStep_le (a : AList fun _ : Key => Value) (op : HashMapOp Key Value) :
    (specStep a op).1.keys.length ≤ a.keys.length + 1 := by
  -- inserting a key keeps the others; erasing keeps at most all
  have hinsert : ∀ (key : Key) (value : Value), (a.insert key value).keys.length ≤ a.keys.length + 1 := by
    intro key value
    rw [AList.keys_insert, List.length_cons]
    exact Nat.succ_le_succ List.length_erase_le
  have herase : ∀ key : Key, (a.erase key).keys.length ≤ a.keys.length + 1 := by
    intro key
    rw [AList.keys_erase]
    exact Nat.le_succ_of_le List.length_erase_le
  cases op with
  | add key value =>
    show (specAdd a key value).1.keys.length ≤ _
    unfold specAdd
    split
    · exact Nat.le_succ _
    · exact hinsert key value
  | addOrFail key value => exact hinsert key value
  | set key value => exact hinsert key value
  | getOrAdd key value =>
    show (specGetOrAdd a key value).1.keys.length ≤ _
    unfold specGetOrAdd
    split
    · exact Nat.le_succ _
    · exact hinsert key value
  | remove key => exact herase key
  | removeOrFail key => exact herase key
  | clear => exact Nat.zero_le _

/-! ## Refinement of a finite map -/

/-- The pair of a stored bucket, as an entry of a finite map. -/
def bucketEntry (b : HashTableBucket (HashMapPair Key Value)) : Σ _ : Key, Value :=
  b.contents.toSigma

/-- The pairs of the map, in bucket order, as entries of a finite map. -/
def entries (m : HashMap Key Value) : List (Σ _ : Key, Value) :=
  (occupied m.table.buckets).map bucketEntry

omit [DecidableEq Key] in
theorem entries_mk (t : HashTable (HashMapPair Key Value)) :
    (⟨t⟩ : HashMap Key Value).entries = (occupied t.buckets).map bucketEntry := rfl

/-- **The map refines the finite map `a`**: its table is valid, and its pairs are the entries
of `a`. -/
structure Refines (m : HashMap Key Value) (a : AList fun _ : Key => Value) : Prop where
  valid : HashTable.Valid HashMapPair.key getKeyHash m.table
  represents : Represents m.entries a

variable {getKeyHash}

section Refines

variable {m : HashMap Key Value} {a : AList fun _ : Key => Value}

omit [DecidableEq Key] in
theorem Refines.numElements_eq (hr : Refines getKeyHash m a) :
    m.table.numElements.toNat = a.keys.length := by
  rw [hr.valid.numElements_eq, ← hr.represents.length_eq, entries, List.length_map]

omit [DecidableEq Key] in
theorem Refines.mem_iff (hr : Refines getKeyHash m a) {key : Key} :
    key ∈ a ↔ ∃ b ∈ occupied m.table.buckets, b.contents.key = key := by
  rw [hr.represents.mem_iff, entries]
  simp only [List.mem_map]
  constructor
  · rintro ⟨_, ⟨b, hb, rfl⟩, hkey⟩
    exact ⟨b, hb, hkey⟩
  · rintro ⟨b, hb, hkey⟩
    exact ⟨_, ⟨b, hb, rfl⟩, hkey⟩

/-- A stored bucket holds a pair of the finite map, with the hash of its key. -/
theorem Refines.bucket_eq (hr : Refines getKeyHash m a) {b : HashTableBucket (HashMapPair Key Value)}
    (hb : b ∈ occupied m.table.buckets) :
    a.lookup b.contents.key = some b.contents.value ∧
      b = ⟨⟨b.contents.key, b.contents.value⟩, getKeyHash b.contents.key ||| isOccupiedMask⟩ := by
  refine ⟨hr.represents.lookup_eq_some (List.mem_map_of_mem (f := bucketEntry) hb), ?_⟩
  have hhash := hr.valid.hashes b hb
  obtain ⟨⟨key, value⟩, hao⟩ := b
  dsimp only at hhash ⊢
  subst hhash
  rfl

/-- **What a lookup finds**: nothing for an absent key, and for a present one a bucket that
holds the key with its value. -/
theorem Refines.getBucketForRead_cases (hr : Refines getKeyHash m a) (key : Key) :
    (key ∉ a ∧ m.table.getBucketForRead HashMapPair.key (getKeyHash key) key = none) ∨
      ∃ i value, a.lookup key = some value ∧
        m.table.getBucketForRead HashMapPair.key (getKeyHash key) key = some i ∧
        m.table.bucketAt i = some ⟨⟨key, value⟩, getKeyHash key ||| isOccupiedMask⟩ := by
  by_cases hk : key ∈ a
  · obtain ⟨b, hb, rfl⟩ := hr.mem_iff.1 hk
    obtain ⟨y, hys, hy⟩ := mem_occupied.1 hb
    obtain ⟨k, -, hbk⟩ := hr.valid.hasBuckets (by omega)
    obtain ⟨hlookup, hbeq⟩ := hr.bucket_eq hb
    refine Or.inr ⟨UInt64.ofNat y, b.contents.value, hlookup,
      HashTable.getBucketForRead_of_mem hr.valid hy rfl rfl, ?_⟩
    rw [hbk.bucketAt_ofNat hy, ← hbeq]
  · refine Or.inl ⟨hk, HashTable.getBucketForRead_of_not_mem (fun b hb hkey => ?_) _⟩
    exact hk (hr.mem_iff.2 ⟨b, hb, hkey⟩)

omit [DecidableEq Key] in
/-- A valid table with the pairs of a refining map, in another order, refines the same finite
map. -/
theorem Refines.of_perm (hr : Refines getKeyHash m a) {t : HashTable (HashMapPair Key Value)}
    (hv : HashTable.Valid HashMapPair.key getKeyHash t)
    (hperm : (occupied t.buckets).Perm (occupied m.table.buckets)) :
    Refines getKeyHash ⟨t⟩ a :=
  ⟨hv, hr.represents.of_perm (hperm.map bucketEntry)⟩

/-- **What `getBucketForAdd` finds**: for an absent key an empty bucket, where any pair of
the key gives the map with the pair added; for a present key its bucket, where a pair of the
key with any value gives the map with the value replaced. -/
theorem Refines.getBucketForAdd_cases (hr : Refines getKeyHash m a)
    (hlen : a.keys.length + 1 < 2 ^ 58) {key : Key} {t : HashTable (HashMapPair Key Value)}
    {bucket : Uptr}
    (hadd : m.table.getBucketForAdd HashMapPair.key (getKeyHash key ||| isOccupiedMask) key =
      (t, bucket)) :
    (key ∉ a ∧ ∀ value, t.bucketAt bucket = none ∧
        Refines getKeyHash ⟨t.setBucket bucket ⟨⟨key, value⟩, getKeyHash key ||| isOccupiedMask⟩⟩
          (a.insert key value)) ∨
      ∃ value₀, a.lookup key = some value₀ ∧ Refines getKeyHash ⟨t⟩ a ∧
        t.bucketAt bucket = some ⟨⟨key, value₀⟩, getKeyHash key ||| isOccupiedMask⟩ ∧
        ∀ value, Refines getKeyHash
          ⟨t.setBucket bucket ⟨⟨key, value⟩, getKeyHash key ||| isOccupiedMask⟩⟩
          (a.insert key value) := by
  have hlen' : m.table.numElements.toNat + 1 < 2 ^ 58 := by rw [hr.numElements_eq]; exact hlen
  have hhash : getKeyHash key ||| isOccupiedMask ||| isOccupiedMask =
      HashTable.keyHash getKeyHash key :=
    HashTable.keyHash_or_isOccupiedMask getKeyHash key
  by_cases hk : key ∈ a
  · -- the key's bucket, in the table grown for the add
    have h := HashTable.getBucketForAdd_of_mem hr.valid hlen' hhash (hr.mem_iff.1 hk)
    rw [hadd] at h
    obtain ⟨hv1, hperm1, b, hat, hkey⟩ := h
    have hr1 := hr.of_perm hv1 hperm1
    have hb : b ∈ occupied t.buckets := by
      rw [HashTable.bucketAt_eq] at hat
      exact mem_occupied.2 ⟨_, lt_of_slots_eq_some hat, hat⟩
    obtain ⟨hlookup, hbeq⟩ := hr1.bucket_eq hb
    -- name the pair found: its key is `key`, its hash that of `key`
    obtain ⟨⟨key₀, value₀⟩, hash₀⟩ := b
    dsimp only at hkey hlookup hbeq
    subst hkey
    rw [hbeq] at hat hb
    refine Or.inr ⟨value₀, hlookup, hr1, hat, fun value => ?_⟩
    obtain ⟨hv2, hperm2⟩ := HashTable.setBucket_replace hv1 hat
      ⟨⟨key₀, value⟩, getKeyHash key₀ ||| isOccupiedMask⟩ rfl rfl
    refine ⟨hv2, hr1.represents.replace (x := ⟨key₀, value₀⟩) (List.mem_map_of_mem (f := bucketEntry) hb) ?_⟩
    have h := hperm2.map bucketEntry
    rw [List.map_append, List.map_append, List.map_singleton, List.map_singleton] at h
    rw [entries_mk, entries_mk]
    exact h
  · -- an empty bucket, where the new pair goes
    have habs : ∀ b ∈ occupied m.table.buckets, b.contents.key ≠ key :=
      fun b hb hkey => hk (hr.mem_iff.2 ⟨b, hb, hkey⟩)
    have hnew : ∀ value : Value, t.bucketAt bucket = none ∧
        HashTable.Valid HashMapPair.key getKeyHash
          (t.setBucket bucket ⟨⟨key, value⟩, getKeyHash key ||| isOccupiedMask⟩) ∧
        (occupied (t.setBucket bucket ⟨⟨key, value⟩, getKeyHash key ||| isOccupiedMask⟩).buckets).Perm
          (⟨⟨key, value⟩, getKeyHash key ||| isOccupiedMask⟩ :: occupied m.table.buckets) := by
      intro value
      have h := HashTable.getBucketForAdd_of_not_mem (e := ⟨key, value⟩) hr.valid hlen' hhash habs
      dsimp only at h
      rw [hadd] at h
      exact h
    refine Or.inl ⟨hk, fun value => ?_⟩
    obtain ⟨hempty, hv2, hperm2⟩ := hnew value
    refine ⟨hempty, hv2, hr.represents.insert_of_notMem hk ?_⟩
    rw [entries_mk]
    exact hperm2.map bucketEntry

/-! ### The operations, one lemma each -/

omit [DecidableEq Key] in
/-- The constructor gives the empty map. -/
theorem refines_init {reserveNumPairs : Uptr} (h : reserveNumPairs.toNat < 2 ^ 58) :
    Refines getKeyHash (init reserveNumPairs : HashMap Key Value) ∅ := by
  have h0 : HashTable.Valid HashMapPair.key getKeyHash
        (HashTable.init reserveNumPairs : HashTable (HashMapPair Key Value)) ∧
      occupied (HashTable.init reserveNumPairs : HashTable (HashMapPair Key Value)).buckets = [] :=
    HashTable.init_spec h
  obtain ⟨hv, hocc⟩ := h0
  refine ⟨hv, ?_⟩
  rw [entries, init, hocc, List.map_nil]
  exact represents_empty

omit [DecidableEq Key] in
/-- `clear` gives the empty map. -/
theorem refines_clear (m : HashMap Key Value) : Refines getKeyHash m.clear ∅ := by
  have h0 : HashTable.Valid HashMapPair.key getKeyHash m.table.clear ∧
      occupied m.table.clear.buckets = [] :=
    HashTable.clear_spec m.table
  obtain ⟨hv, hocc⟩ := h0
  refine ⟨hv, ?_⟩
  rw [entries, clear, hocc, List.map_nil]
  exact represents_empty

/-- `getOrAdd` returns the value of a present key and leaves the map, and adds an absent
key with the new value. -/
theorem Refines.getOrAdd (hr : Refines getKeyHash m a) (hlen : a.keys.length + 1 < 2 ^ 58)
    (key : Key) (value : Value) :
    Refines getKeyHash (m.getOrAdd getKeyHash key value).1 (specGetOrAdd a key value).1 ∧
      (m.getOrAdd getKeyHash key value).2 = (specGetOrAdd a key value).2 := by
  rcases hadd : m.table.getBucketForAdd HashMapPair.key (getKeyHash key ||| isOccupiedMask) key
    with ⟨t, bucket⟩
  dsimp only [HashMap.getOrAdd]
  rw [hadd]
  dsimp only
  rcases hr.getBucketForAdd_cases hlen hadd with ⟨hk, hnew⟩ | ⟨value₀, hlookup, hr1, hat, -⟩
  · obtain ⟨hempty, hr2⟩ := hnew value
    rw [hempty, specGetOrAdd, AList.lookup_eq_none.2 hk]
    exact ⟨hr2, rfl⟩
  · rw [hat, specGetOrAdd, hlookup]
    exact ⟨hr1, rfl⟩

/-- `add` adds an absent key and answers `true`, and leaves the map for a present key and
answers `false`. -/
theorem Refines.add (hr : Refines getKeyHash m a) (hlen : a.keys.length + 1 < 2 ^ 58)
    (key : Key) (value : Value) :
    Refines getKeyHash (m.add getKeyHash key value).1 (specAdd a key value).1 ∧
      (m.add getKeyHash key value).2 = (specAdd a key value).2 := by
  rcases hadd : m.table.getBucketForAdd HashMapPair.key (getKeyHash key ||| isOccupiedMask) key
    with ⟨t, bucket⟩
  dsimp only [HashMap.add]
  rw [hadd]
  dsimp only
  rcases hr.getBucketForAdd_cases hlen hadd with ⟨hk, hnew⟩ | ⟨value₀, hlookup, hr1, hat, -⟩
  · obtain ⟨hempty, hr2⟩ := hnew value
    rw [hempty, specAdd, if_neg hk]
    exact ⟨hr2, rfl⟩
  · have hk : key ∈ a := AList.lookup_isSome.1 (by rw [hlookup]; rfl)
    rw [hat, specAdd, if_pos hk]
    exact ⟨hr1, rfl⟩

/-- An add to a map of `minBuckets` buckets with fewer than six pairs keeps the buckets. -/
theorem Refines.numBuckets_addOrFail_of_minBuckets (hr : Refines getKeyHash m a)
    (h8 : m.table.numBuckets = DefaultHashTableAllocPolicy.minBuckets) (hlen : a.keys.length < 6)
    (key : Key) (value : Value) :
    (m.addOrFail getKeyHash key value).table.numBuckets = DefaultHashTableAllocPolicy.minBuckets := by
  have hno := HashTable.not_resizesForAdd_of_numBuckets_eq_minBuckets h8
    (by rw [hr.numElements_eq]; exact hlen)
  rw [numBuckets_addOrFail, HashTable.growForAdd_of_not_resizesForAdd _ hno]
  exact h8

/-- `addOrFail` adds the pair, or with the assertion compiled out overwrites the pair of a
present key. -/
theorem Refines.addOrFail (hr : Refines getKeyHash m a) (hlen : a.keys.length + 1 < 2 ^ 58)
    (key : Key) (value : Value) :
    Refines getKeyHash (m.addOrFail getKeyHash key value) (a.insert key value) := by
  rcases hadd : m.table.getBucketForAdd HashMapPair.key (getKeyHash key ||| isOccupiedMask) key
    with ⟨t, bucket⟩
  dsimp only [HashMap.addOrFail]
  rw [hadd]
  rcases hr.getBucketForAdd_cases hlen hadd with ⟨-, hnew⟩ | ⟨-, -, -, -, hreplace⟩
  · exact (hnew value).2
  · exact hreplace value

/-- `set` adds the pair, or replaces the value of a present key. -/
theorem Refines.set (hr : Refines getKeyHash m a) (hlen : a.keys.length + 1 < 2 ^ 58)
    (key : Key) (value : Value) :
    Refines getKeyHash (m.set getKeyHash key value).1 (a.insert key value) ∧
      (m.set getKeyHash key value).2 = value := by
  rcases hadd : m.table.getBucketForAdd HashMapPair.key (getKeyHash key ||| isOccupiedMask) key
    with ⟨t, bucket⟩
  dsimp only [HashMap.set]
  rw [hadd]
  dsimp only
  rcases hr.getBucketForAdd_cases hlen hadd with ⟨-, hnew⟩ | ⟨value₀, -, -, hat, hreplace⟩
  · obtain ⟨hempty, hr2⟩ := hnew value
    rw [hempty]
    exact ⟨hr2, rfl⟩
  · -- the value is replaced in the bucket, which keeps its key and hash
    rw [hat]
    exact ⟨hreplace value, rfl⟩

/-- `remove` removes the key and answers whether it was present. -/
theorem Refines.remove (hr : Refines getKeyHash m a) (hlen : a.keys.length < 2 ^ 58)
    (key : Key) :
    Refines getKeyHash (m.remove getKeyHash key).1 (a.erase key) ∧
      (m.remove getKeyHash key).2 = decide (key ∈ a) := by
  by_cases hk : key ∈ a
  · obtain ⟨b, hb, rfl⟩ := hr.mem_iff.1 hk
    obtain ⟨y, -, hy⟩ := mem_occupied.1 hb
    have hhash : getKeyHash b.contents.key ||| isOccupiedMask =
        HashTable.keyHash getKeyHash b.contents.key := rfl
    obtain ⟨htrue, hv2, hperm2⟩ := HashTable.remove_of_mem hr.valid
      (by rw [hr.numElements_eq]; exact hlen) hy hhash
    refine ⟨⟨hv2, hr.represents.erase (x := bucketEntry b) ?_⟩, ?_⟩
    · have h := hperm2.map bucketEntry
      rw [List.map_append, List.map_singleton] at h
      rw [entries_mk]
      exact h
    · show (m.table.remove HashMapPair.key _ _).2 = _
      rw [htrue, decide_eq_true hk]
  · have habs : ∀ b ∈ occupied m.table.buckets, b.contents.key ≠ key :=
      fun b hb hkey => hk (hr.mem_iff.2 ⟨b, hb, hkey⟩)
    have hdef : m.remove getKeyHash key = (m, false) := by
      simp only [HashMap.remove, HashTable.remove_of_not_mem habs]
    rw [hdef, decide_eq_false hk]
    exact ⟨⟨hr.valid, hr.represents.erase_of_notMem hk⟩, rfl⟩

/-- `removeOrFail` removes the key; with the assertion compiled out, an absent key leaves
the map. -/
theorem Refines.removeOrFail (hr : Refines getKeyHash m a) (hlen : a.keys.length < 2 ^ 58)
    (key : Key) : Refines getKeyHash (m.removeOrFail getKeyHash key) (a.erase key) :=
  (hr.remove hlen key).1

/-! ### Queries -/

theorem Refines.get_eq (hr : Refines getKeyHash m a) (key : Key) :
    m.get getKeyHash key = a.lookup key := by
  rcases hr.getBucketForRead_cases key with ⟨hk, hnone⟩ | ⟨i, value, hlookup, hsome, hat⟩
  · simp only [HashMap.get, hnone, AList.lookup_eq_none.2 hk]
  · simp only [HashMap.get, hsome, hat, hlookup, Option.map_some]

theorem Refines.subscript_eq (hr : Refines getKeyHash m a) (key : Key) :
    m.subscript getKeyHash key = a.lookup key := by
  rcases hr.getBucketForRead_cases key with ⟨hk, hnone⟩ | ⟨i, value, hlookup, hsome, hat⟩
  · simp only [HashMap.subscript, hnone, AList.lookup_eq_none.2 hk]
  · simp only [HashMap.subscript, hsome, hat, hlookup, Option.map_some]

theorem Refines.getPair_eq (hr : Refines getKeyHash m a) (key : Key) :
    m.getPair getKeyHash key = (a.lookup key).map (HashMapPair.mk key) := by
  rcases hr.getBucketForRead_cases key with ⟨hk, hnone⟩ | ⟨i, value, hlookup, hsome, hat⟩
  · simp only [HashMap.getPair, hnone, AList.lookup_eq_none.2 hk, Option.map_none]
  · simp only [HashMap.getPair, hsome, hat, hlookup, Option.map_some]

theorem Refines.contains_eq (hr : Refines getKeyHash m a) (key : Key) :
    m.contains getKeyHash key = decide (key ∈ a) := by
  rcases hr.getBucketForRead_cases key with ⟨hk, hnone⟩ | ⟨i, value, hlookup, hsome, -⟩
  · simp only [HashMap.contains, hnone, Option.isSome_none, decide_eq_false hk]
  · have hk : key ∈ a := AList.lookup_isSome.1 (by rw [hlookup]; rfl)
    simp only [HashMap.contains, hsome, Option.isSome_some, decide_eq_true hk]

/-- **A store through `get`'s pointer** replaces the value of a present key, in its bucket. -/
theorem Refines.writeValue (hr : Refines getKeyHash m a) {key : Key} (hk : key ∈ a)
    (value : Value) :
    Refines getKeyHash (m.writeValue getKeyHash key value) (a.insert key value) := by
  rcases hr.getBucketForRead_cases key with ⟨hk', -⟩ | ⟨i, value₀, -, hsome, hat⟩
  · exact absurd hk hk'
  · have hb : (⟨⟨key, value₀⟩, getKeyHash key ||| isOccupiedMask⟩ : HashTableBucket _) ∈
        occupied m.table.buckets := by
      have hat' := hat
      rw [HashTable.bucketAt_eq] at hat'
      exact mem_occupied.2 ⟨_, lt_of_slots_eq_some hat', hat'⟩
    obtain ⟨hv, hperm⟩ := HashTable.setBucket_replace hr.valid hat
      ⟨⟨key, value⟩, getKeyHash key ||| isOccupiedMask⟩ rfl rfl
    simp only [HashMap.writeValue, hsome, hat]
    refine ⟨hv, hr.represents.replace (x := ⟨key, value₀⟩)
      (List.mem_map_of_mem (f := bucketEntry) hb) ?_⟩
    have h := hperm.map bucketEntry
    rw [List.map_append, List.map_append, List.map_singleton, List.map_singleton] at h
    rw [entries_mk]
    exact h

omit [DecidableEq Key] in
theorem Refines.size_eq (hr : Refines getKeyHash m a) : m.size.toNat = a.keys.length :=
  hr.numElements_eq

omit [DecidableEq Key] in
/-- Iteration from `begin()` to `end()` visits the pairs of the finite map, each once. -/
theorem Refines.iterate_begin (hr : Refines getKeyHash m a) :
    Represents ((HashTable.iterate m.begin).map HashMapPair.toSigma) a := by
  rw [begin, HashTable.iterate_iteratorBegin, List.map_map]
  exact hr.represents

/-! ### Whole runs -/

/-- **One operation** keeps the refinement and returns what the operation on the finite map
returns. -/
theorem Refines.step (hr : Refines getKeyHash m a) (hlen : a.keys.length + 1 < 2 ^ 58)
    (op : HashMapOp Key Value) :
    Refines getKeyHash (m.step getKeyHash op).1 (specStep a op).1 ∧
      (m.step getKeyHash op).2 = (specStep a op).2 := by
  cases op with
  | add key value =>
    obtain ⟨h1, h2⟩ := hr.add hlen key value
    simp only [HashMap.step, specStep]
    exact ⟨h1, by rw [h2]⟩
  | addOrFail key value =>
    simp only [HashMap.step, specStep]
    exact ⟨hr.addOrFail hlen key value, trivial⟩
  | set key value =>
    obtain ⟨h1, h2⟩ := hr.set hlen key value
    simp only [HashMap.step, specStep]
    exact ⟨h1, by rw [h2]⟩
  | getOrAdd key value =>
    obtain ⟨h1, h2⟩ := hr.getOrAdd hlen key value
    simp only [HashMap.step, specStep]
    exact ⟨h1, by rw [h2]⟩
  | remove key =>
    obtain ⟨h1, h2⟩ := hr.remove (by omega) key
    simp only [HashMap.step, specStep]
    exact ⟨h1, by rw [h2]⟩
  | removeOrFail key =>
    simp only [HashMap.step, specStep]
    exact ⟨hr.removeOrFail (by omega) key, trivial⟩
  | clear =>
    simp only [HashMap.step, specStep]
    exact ⟨refines_clear m, trivial⟩

/-- **A run** of operations keeps the refinement and returns what the same operations on the
finite map return, as long as the map stays below `2 ^ 58` pairs. -/
theorem Refines.run {ops : List (HashMapOp Key Value)} (hr : Refines getKeyHash m a)
    (hlen : a.keys.length + ops.length < 2 ^ 58) :
    Refines getKeyHash (m.run getKeyHash ops).1 (specRun a ops).1 ∧
      (m.run getKeyHash ops).2 = (specRun a ops).2 := by
  induction ops generalizing m a with
  | nil => exact ⟨hr, rfl⟩
  | cons op ops ih =>
    rw [List.length_cons] at hlen
    obtain ⟨hr1, hres⟩ := hr.step (by omega) op
    have hlen1 : (specStep a op).1.keys.length + ops.length < 2 ^ 58 := by
      have := length_keys_specStep_le a op
      omega
    obtain ⟨hr2, hres2⟩ := ih hr1 hlen1
    refine ⟨hr2, ?_⟩
    rw [HashMap.run, specRun]
    exact congrArg₂ List.cons hres hres2

end Refines

/-! ## What a user observes -/

variable (getKeyHash) in
/-- **The map behaves as the finite map `a`**: every lookup, the size and the iteration agree
with `a`. -/
structure Agrees (m : HashMap Key Value) (a : AList fun _ : Key => Value) : Prop where
  get : ∀ key, m.get getKeyHash key = a.lookup key
  contains : ∀ key, m.contains getKeyHash key = decide (key ∈ a)
  subscript : ∀ key, m.subscript getKeyHash key = a.lookup key
  getPair : ∀ key, m.getPair getKeyHash key = (a.lookup key).map (HashMapPair.mk key)
  size : m.size.toNat = a.keys.length
  iterate : Represents ((HashTable.iterate m.begin).map HashMapPair.toSigma) a

theorem Refines.agrees {m : HashMap Key Value} {a : AList fun _ : Key => Value}
    (hr : Refines getKeyHash m a) : Agrees getKeyHash m a :=
  ⟨hr.get_eq, hr.contains_eq, hr.subscript_eq, hr.getPair_eq, hr.size_eq, hr.iterate_begin⟩

/-- **A map built by any sequence of operations** from the constructor behaves as the finite
map the same operations build from `∅`, and every operation returns what it returns there. -/
theorem run_init_agrees {reserveNumPairs : Uptr} (hreserve : reserveNumPairs.toNat < 2 ^ 58)
    {ops : List (HashMapOp Key Value)} (hops : ops.length < 2 ^ 58) :
    Agrees getKeyHash (run getKeyHash (init reserveNumPairs) ops).1 (specRun ∅ ops).1 ∧
      (run getKeyHash (init reserveNumPairs) ops).2 = (specRun ∅ ops).2 := by
  have hlen : (∅ : AList fun _ : Key => Value).keys.length + ops.length < 2 ^ 58 := by
    rw [AList.keys_empty, List.length_nil, Nat.zero_add]
    exact hops
  obtain ⟨hr, hres⟩ := (refines_init hreserve).run hlen
  exact ⟨hr.agrees, hres⟩

end HashMap

end Wavm
