import Wavm.Inline.HashTableValid

set_option relaxedAutoImplicit false
set_option autoImplicit false

/-!
# Runs of the Robin Hood hash table

The operations `HashMap` and `HashSet` make on their `HashTable`: an add is `getBucketForAdd`
with the key's hash, followed by the caller's write of the element and its `hashAndOccupancy`
into the bucket when it is empty; a removal is `remove`; `resize` is called as the alloc
policy calls it, to a power of two from `minBuckets` up with room for the elements; and
`clear`. Every table such a run reaches from the constructor is `Valid`, so it has the Robin
Hood representation, and its probe loops find what they look for.

## Main definitions

* `Wavm.HashTable.TableOp`, `Wavm.HashTable.step`, `Wavm.HashTable.Allowed`.
* `Wavm.HashTable.Reachable` — the tables a run reaches from the constructor.

## Main results

* `Wavm.HashTable.Invariant.step` — one operation keeps the table valid and below `2 ^ 58`
  elements.
* `Wavm.HashTable.invariant_of_reachable` — every reachable table is valid.
* `Wavm.HashTable.reachable_robinHood` — the representation invariant of a reachable table,
  and what its lookups return.

## Implementation notes

No table holds `2 ^ 58` elements: their buckets would take more than `2 ^ 62` bytes. An add
is allowed below that bound; the policy's arithmetic (`20 n / 16`) is exact there.
-/

namespace Wavm.HashTable

open LinearProbing
open Wavm.Runtime (Uptr)

variable {Key Element : Type} [DecidableEq Key] (getKey : Element → Key) (getKeyHash : Key → Uptr)

/-- The operations of a run: an add of an element, a removal of a key, a resize, `clear`. -/
inductive TableOp (Key Element : Type)
  | add (element : Element)
  | remove (key : Key)
  | resize (newNumBuckets : Uptr)
  | clear

/-- An add as `HashMap::add` and `HashSet::add` make it: `getBucketForAdd` with the key's
hash, then, when the bucket it returns is empty, the caller's write of the element with
`hashAndOccupancy = hash | isOccupiedMask`. -/
def addElement (t : HashTable Element) (element : Element) : HashTable Element :=
  let r := t.getBucketForAdd getKey (getKeyHash (getKey element)) (getKey element)
  if hashAndOccupancyOf (r.1.bucketAt r.2) = 0 then
    r.1.setBucket r.2 ⟨element, getKeyHash (getKey element) ||| isOccupiedMask⟩
  else r.1

/-- One operation of a run. -/
def step (t : HashTable Element) : TableOp Key Element → HashTable Element
  | .add element => addElement getKey getKeyHash t element
  | .remove key => (t.remove getKey (getKeyHash key) key).1
  | .resize newNumBuckets => t.resize getKey newNumBuckets
  | .clear => t.clear

/-- When a run makes an operation: an add below `2 ^ 58` elements, and a resize as the alloc
policy asks for it, to `2 ^ k` buckets with `3 ≤ k ≤ 62` and more buckets than elements. -/
def Allowed (t : HashTable Element) : TableOp Key Element → Prop
  | .add _ => t.numElements.toNat + 1 < 2 ^ 58
  | .remove _ => True
  | .resize newNumBuckets =>
    ∃ k, 3 ≤ k ∧ k ≤ 62 ∧ newNumBuckets.toNat = 2 ^ k ∧ t.numElements.toNat < 2 ^ k
  | .clear => True

/-- The tables a run reaches from the constructor `HashTable(estimatedNumElements)`. -/
inductive Reachable : HashTable Element → Prop
  | init {estimatedNumElements : Uptr} :
      estimatedNumElements.toNat < 2 ^ 58 → Reachable (init estimatedNumElements)
  | step {t : HashTable Element} {op : TableOp Key Element} :
      Reachable t → Allowed t op → Reachable (step getKey getKeyHash t op)

/-- What every reachable table satisfies: it is valid, with fewer than `2 ^ 58` elements. -/
structure Invariant (t : HashTable Element) : Prop where
  valid : Valid getKey getKeyHash t
  numElements_lt : t.numElements.toNat < 2 ^ 58

variable {getKey getKeyHash}

omit [DecidableEq Key] in
theorem Invariant.init {estimatedNumElements : Uptr} (h : estimatedNumElements.toNat < 2 ^ 58) :
    Invariant getKey getKeyHash (HashTable.init estimatedNumElements : HashTable Element) := by
  obtain ⟨hv, hempty⟩ :
      Valid getKey getKeyHash (HashTable.init estimatedNumElements : HashTable Element) ∧
        occupied (HashTable.init estimatedNumElements : HashTable Element).buckets = [] :=
    init_spec h
  refine ⟨hv, ?_⟩
  rw [hv.numElements_eq, hempty]
  exact Nat.two_pow_pos 58

omit [DecidableEq Key] in
/-- A table's count is that of any permutation of its elements. -/
theorem Invariant.of_perm {t t' : HashTable Element} (hv' : Valid getKey getKeyHash t')
    (ht : Invariant getKey getKeyHash t) (extra : List (HashTableBucket Element))
    (hperm : (occupied t'.buckets ++ extra).Perm (occupied t.buckets)) :
    Invariant getKey getKeyHash t' := by
  have hlen := hperm.length_eq
  rw [List.length_append] at hlen
  refine ⟨hv', ?_⟩
  rw [hv'.numElements_eq]
  have := ht.numElements_lt
  rw [ht.valid.numElements_eq] at this
  omega

/-- An add keeps the invariant: a present key leaves the grown table, an absent one is
written into the empty bucket found for it. -/
theorem Invariant.addElement {t : HashTable Element} (ht : Invariant getKey getKeyHash t)
    (hlen : t.numElements.toNat + 1 < 2 ^ 58) (element : Element) :
    Invariant getKey getKeyHash (addElement getKey getKeyHash t element) := by
  have hhash : getKeyHash (getKey element) ||| isOccupiedMask =
      keyHash getKeyHash (getKey element) := rfl
  by_cases hmem : ∃ b ∈ occupied t.buckets, getKey b.contents = getKey element
  · -- the key is present: the bucket is occupied, and the caller writes nothing
    obtain ⟨hv, hperm, b, hb, -⟩ := getBucketForAdd_of_mem ht.valid hlen hhash hmem
    have hne : hashAndOccupancyOf
        ((t.getBucketForAdd getKey (getKeyHash (getKey element)) (getKey element)).1.bucketAt
          (t.getBucketForAdd getKey (getKeyHash (getKey element)) (getKey element)).2) ≠ 0 := by
      rw [hb, hashAndOccupancyOf, hv.hashes b (mem_occupied.2 ⟨_, lt_of_slots_eq_some
        ((bucketAt_eq _ _).symm.trans hb), (bucketAt_eq _ _).symm.trans hb⟩)]
      exact keyHash_ne_zero _
    rw [HashTable.addElement, if_neg hne]
    exact ht.of_perm hv [] (by rwa [List.append_nil])
  · -- the key is absent: the element goes into the empty bucket
    have habs : ∀ b ∈ occupied t.buckets, getKey b.contents ≠ getKey element :=
      fun b hb hkey => hmem ⟨b, hb, hkey⟩
    obtain ⟨hempty, hv, hperm⟩ := getBucketForAdd_of_not_mem ht.valid hlen hhash habs
    rw [HashTable.addElement, if_pos (by rw [hempty]; rfl), hhash]
    refine ⟨hv, ?_⟩
    rw [hv.numElements_eq, hperm.length_eq, List.length_cons, ← ht.valid.numElements_eq]
    exact hlen

/-- A removal keeps the invariant: a present key's element is erased, an absent key changes
nothing. -/
theorem Invariant.remove {t : HashTable Element} (ht : Invariant getKey getKeyHash t)
    (key : Key) : Invariant getKey getKeyHash (t.remove getKey (getKeyHash key) key).1 := by
  by_cases hmem : ∃ b ∈ occupied t.buckets, getKey b.contents = key
  · obtain ⟨b, hb, rfl⟩ := hmem
    obtain ⟨y, -, hy⟩ := mem_occupied.1 hb
    obtain ⟨-, hv, hperm⟩ := remove_of_mem ht.valid ht.numElements_lt hy rfl
    exact ht.of_perm hv [b] hperm
  · rw [remove_of_not_mem (fun b hb hkey => hmem ⟨b, hb, hkey⟩)]
    exact ht

/-- **One operation keeps the invariant**, when the run may make it. -/
theorem Invariant.step {t : HashTable Element} (ht : Invariant getKey getKeyHash t)
    {op : TableOp Key Element} (hop : Allowed t op) :
    Invariant getKey getKeyHash (step getKey getKeyHash t op) := by
  cases op with
  | add element => exact ht.addElement hop element
  | remove key => exact ht.remove key
  | resize newNumBuckets =>
    obtain ⟨k, hk3, hk, hnew, hroom⟩ := hop
    obtain ⟨hv, -, hnum, -⟩ :=
      resize_spec ht.valid hk3 hk hnew (by rw [← ht.valid.numElements_eq]; exact hroom)
    exact ⟨hv, by rw [HashTable.step, hnum]; exact ht.numElements_lt⟩
  | clear =>
    obtain ⟨hv, hempty⟩ : Valid getKey getKeyHash t.clear ∧ occupied t.clear.buckets = [] :=
      clear_spec t
    refine ⟨hv, ?_⟩
    rw [HashTable.step, hv.numElements_eq, hempty]
    exact Nat.two_pow_pos 58

/-- **Every reachable table is valid.** -/
theorem invariant_of_reachable {t : HashTable Element} (h : Reachable getKey getKeyHash t) :
    Invariant getKey getKeyHash t := by
  induction h with
  | init h => exact Invariant.init h
  | step _ hop ih => exact ih.step hop

variable (getKey getKeyHash) in
/-- **The Robin Hood representation** of a table, and what its probe loops do on it: the count
is the number of occupied buckets; a table with buckets has `2 ^ k` of them with the mask
`2 ^ k - 1`, and an empty one; each occupied bucket stores its key's hash with the occupancy
bit; no key is stored twice; an element away from its ideal bucket follows an occupied bucket
whose element is at most one step less displaced. `getBucketForRead` finds the bucket of each
stored key and nothing for an absent key, whose probe meets an empty bucket, where the loop
stops, before its `numBuckets` probes are used up; `getBucketForWrite` of a stored key returns its
bucket and moves nothing, and for an absent key its probe and eviction loops end at an empty
bucket, so that the caller's write adds the element and loses none. -/
structure RobinHoodTable (t : HashTable Element) : Prop where
  numElements_eq : t.numElements.toNat = (occupied t.buckets).length
  shape : 0 < t.buckets.size →
    (∃ k, t.buckets.size = 2 ^ k ∧ t.hashToBucketIndexMask.toNat = 2 ^ k - 1) ∧
      ∃ y < t.buckets.size, slots t.buckets y = none
  hashes : ∀ b ∈ occupied t.buckets,
    b.hashAndOccupancy = getKeyHash (getKey b.contents) ||| isOccupiedMask
  nodupKeys : ((occupied t.buckets).map fun b => getKey b.contents).Nodup
  ordered : Ordered t.buckets.size (idealBucket t.buckets.size) (slots t.buckets)
  read_of_mem : ∀ y b, slots t.buckets y = some b →
    t.getBucketForRead getKey (getKeyHash (getKey b.contents)) (getKey b.contents) =
      some (UInt64.ofNat y)
  read_of_not_mem : ∀ key, (∀ b ∈ occupied t.buckets, getKey b.contents ≠ key) →
    t.getBucketForRead getKey (getKeyHash key) key = none ∧
      (0 < t.buckets.size → ∃ q < t.buckets.size,
        t.bucketAt ((keyHash getKeyHash key + UInt64.ofNat q) &&& t.hashToBucketIndexMask) = none)
  write_of_mem : ∀ y b, slots t.buckets y = some b →
    t.getBucketForWrite getKey (getKeyHash (getKey b.contents)) (getKey b.contents) =
      (t, UInt64.ofNat y)
  write_of_not_mem : ∀ element, 0 < t.buckets.size →
    (∀ b ∈ occupied t.buckets, getKey b.contents ≠ getKey element) →
    (t.getBucketForWrite getKey (getKeyHash (getKey element)) (getKey element)).1.bucketAt
        (t.getBucketForWrite getKey (getKeyHash (getKey element)) (getKey element)).2 = none ∧
      (occupied ((t.getBucketForWrite getKey (getKeyHash (getKey element)) (getKey element)).1.setBucket
          (t.getBucketForWrite getKey (getKeyHash (getKey element)) (getKey element)).2
          ⟨element, getKeyHash (getKey element) ||| isOccupiedMask⟩).buckets).Perm
        (⟨element, getKeyHash (getKey element) ||| isOccupiedMask⟩ :: occupied t.buckets)

/-- **Every reachable table has the Robin Hood representation**, and its probe loops find
what they look for. -/
theorem reachable_robinHood {t : HashTable Element} (h : Reachable getKey getKeyHash t) :
    RobinHoodTable getKey getKeyHash t := by
  have hv := (invariant_of_reachable h).valid
  refine ⟨hv.numElements_eq, fun hpos => ?_, hv.hashes, hv.nodupKeys, hv.ordered,
    fun y b hy => getBucketForRead_of_mem hv hy rfl rfl,
    fun key habs => ⟨getBucketForRead_of_not_mem habs _, fun hpos => hv.exists_probe_free hpos _⟩,
    fun y b hy => ?_,
    fun element hpos habs => ?_⟩
  · obtain ⟨k, -, hk⟩ := hv.hasBuckets hpos
    obtain ⟨y, hy, hfree⟩ := hv.exists_free hk
    exact ⟨⟨k, hk.size_eq, hk.mask_eq⟩, y, hk.size_eq ▸ hy, hfree⟩
  · obtain ⟨k, -, hk⟩ := hv.hasBuckets (Nat.lt_of_le_of_lt (Nat.zero_le y) (lt_of_slots_eq_some hy))
    exact getBucketForWrite_of_mem hk hv.toBucketsValid hy rfl rfl
  · -- the free bucket of a valid table is what the eviction loop ends in
    obtain ⟨k, -, hk⟩ := hv.hasBuckets hpos
    have hb : (⟨element, keyHash getKeyHash (getKey element)⟩ : HashTableBucket Element).hashAndOccupancy =
        keyHash getKeyHash (getKey element) := rfl
    obtain ⟨-, hempty, -, -, hperm⟩ := getBucketForWrite_insert hk hv.toBucketsValid
      (hk.size_eq ▸ hv.free hpos) hb habs rfl
    exact ⟨hempty, hperm⟩

/-- The table a `HashSet<Uptr>` constructs, after one add. -/
theorem reachable_robinHood_add :
    Reachable id id (step id id (HashTable.init 0 : HashTable Uptr) (.add 5)) ∧
      RobinHoodTable id id (step id id (HashTable.init 0 : HashTable Uptr) (.add 5)) :=
  have h : Reachable id id (step id id (HashTable.init 0 : HashTable Uptr) (.add 5)) :=
    .step (.init (by decide)) (show (HashTable.init 0 : HashTable Uptr).numElements.toNat + 1 < 2 ^ 58 by
      decide)
  ⟨h, reachable_robinHood h⟩

end Wavm.HashTable
