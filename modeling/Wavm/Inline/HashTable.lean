import Wavm.Runtime.Basic
import Wavm.Platform.Intrinsic

set_option relaxedAutoImplicit false
set_option autoImplicit false

/-!
# The Robin Hood hash table

`HashTable` of `src/Include/WAVM/Inline/HashTable.h` and `Impl/HashTableImpl.h`, the table
under `HashMap` and `HashSet`, with the sizing policy `DefaultHashTableAllocPolicy` (whose
bit intrinsics are in `Wavm.Platform.Intrinsic`).

The table is an array of buckets whose length is a power of two; an element is looked up from
the bucket its hash selects (its *ideal bucket*) forward. Insertion puts an element in the
first bucket that is empty or holds an element nearer its own ideal bucket, moving the run of
elements from there one bucket right; removal moves the run after the removed element back
one bucket left. The invariants this keeps and the correctness of each operation are in
`Wavm.Inline.HashTableValid`.

## Main definitions

* `Wavm.HashTableBucket`, `Wavm.HashTable`.
* `Wavm.DefaultHashTableAllocPolicy.getMinDesiredBuckets`, `getMaxDesiredBuckets`.
* `Wavm.HashTable.getBucketForRead`, `getBucketForWrite`, `getBucketForAdd`,
  `evictHashBucket`, `eraseHashBucket`, `resize`, `remove`, `clear`.
* `Wavm.HashTable.iteratorBegin`, `iteratorIncrement`, `iterate` — the iterators of `HashMap`
  and `HashSet`.

## Implementation notes

A bucket is `Option (HashTableBucket Element)`: `none` is a bucket whose `hashAndOccupancy`
is `0`, which the table never stores for an element since the occupancy bit is set in every
stored hash. The null bucket pointer is the empty array. A bucket pointer returned by a
lookup is its index. The `while (true)` loops take one probe of fuel per bucket; the proofs
in `Wavm.Inline.HashTableValid` show that a valid table never exhausts it. The policy of keys
is a key function `getKey` and the equality of the key type, as in `DefaultHashPolicy`.
`wavmAssert` is compiled out, as in a release build.
-/

namespace Wavm

open Wavm.Runtime (Uptr uintptrMax)

/-! ## The sizing policy -/

namespace DefaultHashTableAllocPolicy

/-- `minBuckets`. -/
def minBuckets : Uptr := 8

/-- `divideAndRoundUp`, with the wrapping arithmetic of `Uptr`. -/
def divideAndRoundUp (numerator denominator : Uptr) : Uptr :=
  (numerator + denominator - 1) / denominator

/-- The most buckets wanted for a number of elements: the table shrinks above it. -/
def getMaxDesiredBuckets (numDesiredElements : Uptr) : Uptr :=
  let maxDesiredBuckets := (1 : Uptr) <<< ceilLogTwo (divideAndRoundUp (numDesiredElements * 20) 7)
  if maxDesiredBuckets < minBuckets then minBuckets else maxDesiredBuckets

/-- The fewest buckets wanted for a number of elements: the table grows below it. -/
def getMinDesiredBuckets (numDesiredElements : Uptr) : Uptr :=
  if numDesiredElements = 0 then 0
  else
    let minDesiredBuckets :=
      (1 : Uptr) <<< ceilLogTwo (divideAndRoundUp (numDesiredElements * 20) 16)
    if minDesiredBuckets < minBuckets then minBuckets else minDesiredBuckets

theorem toNat_divideAndRoundUp {numerator denominator : Uptr} (hd : 0 < denominator.toNat)
    (h : numerator.toNat + denominator.toNat < 2 ^ 64) :
    (divideAndRoundUp numerator denominator).toNat =
      (numerator.toNat + denominator.toNat - 1) / denominator.toNat := by
  have hadd : (numerator + denominator).toNat = numerator.toNat + denominator.toNat := by
    rw [UInt64.toNat_add, Nat.mod_eq_of_lt h]
  rw [divideAndRoundUp, UInt64.toNat_div,
    UInt64.toNat_sub_of_le _ _ (by rw [UInt64.le_iff_toNat_le, hadd, UInt64.toNat_one]; omega),
    hadd, UInt64.toNat_one]

/-- Both policies round up to a power of two, and to at least `minBuckets`. -/
theorem atLeastMinBuckets_spec (value : UInt64) (h2 : 2 ≤ value.toNat) (hv : value.toNat ≤ 2 ^ 61) :
    ∃ k, 3 ≤ k ∧ k ≤ 62 ∧
      (if (1 : Uptr) <<< ceilLogTwo value < minBuckets then minBuckets
        else (1 : Uptr) <<< ceilLogTwo value).toNat = 2 ^ k ∧ value.toNat ≤ 2 ^ k := by
  obtain ⟨hge, hlt⟩ := two_pow_ceilLogTwo h2 (by omega)
  have hc : (ceilLogTwo value).toNat ≤ 62 := by
    by_contra h
    have : 2 ^ 63 ≤ 2 ^ (ceilLogTwo value).toNat := Nat.pow_le_pow_right (by omega) (by omega)
    omega
  have hshift := toNat_one_shiftLeft (show (ceilLogTwo value).toNat < 64 by omega)
  have hmin : minBuckets.toNat = 2 ^ 3 := rfl
  split
  · rename_i h
    rw [UInt64.lt_iff_toNat_lt, hshift, hmin] at h
    exact ⟨3, Nat.le_refl 3, by omega, hmin, by omega⟩
  · rename_i h
    rw [UInt64.lt_iff_toNat_lt, hshift, hmin, Nat.not_lt] at h
    refine ⟨(ceilLogTwo value).toNat, ?_, hc, hshift, hge⟩
    by_contra h3
    have : 2 ^ (ceilLogTwo value).toNat < 2 ^ 3 := Nat.pow_lt_pow_right (by omega) (by omega)
    omega

/-- Growing asks for a power of two from `minBuckets` on, above the number of elements, for
fewer than `2 ^ 58` elements (where `numDesiredElements * 20` cannot wrap). -/
theorem getMinDesiredBuckets_spec {numDesiredElements : Uptr} (h1 : 1 ≤ numDesiredElements.toNat)
    (h : numDesiredElements.toNat < 2 ^ 58) :
    ∃ k, 3 ≤ k ∧ k ≤ 62 ∧ (getMinDesiredBuckets numDesiredElements).toNat = 2 ^ k ∧
      numDesiredElements.toNat < 2 ^ k := by
  have hmul : (numDesiredElements * 20).toNat = numDesiredElements.toNat * 20 := by
    rw [UInt64.toNat_mul, Nat.mod_eq_of_lt (by simp; omega)]; rfl
  have hv : (divideAndRoundUp (numDesiredElements * 20) 16).toNat =
      (numDesiredElements.toNat * 20 + 16 - 1) / 16 := by
    rw [toNat_divideAndRoundUp (by decide) (by rw [hmul]; simp; omega), hmul]; rfl
  have hne : numDesiredElements ≠ 0 := fun h0 => by rw [h0] at h1; simp at h1
  obtain ⟨k, hk3, hk, hpow, hle⟩ :=
    atLeastMinBuckets_spec (divideAndRoundUp (numDesiredElements * 20) 16) (by rw [hv]; omega) (by rw [hv]; omega)
  refine ⟨k, hk3, hk, ?_, by rw [hv] at hle; omega⟩
  rw [getMinDesiredBuckets, if_neg hne]
  exact hpow

/-- Shrinking asks for a power of two from `minBuckets` on, above the number of elements. -/
theorem getMaxDesiredBuckets_spec {numDesiredElements : Uptr} (h : numDesiredElements.toNat < 2 ^ 58) :
    ∃ k, 3 ≤ k ∧ k ≤ 62 ∧ (getMaxDesiredBuckets numDesiredElements).toNat = 2 ^ k ∧
      numDesiredElements.toNat < 2 ^ k := by
  rcases Nat.eq_zero_or_pos numDesiredElements.toNat with h0 | h1
  · have : numDesiredElements = 0 := UInt64.toNat_inj.1 (by rw [h0]; rfl)
    subst this
    exact ⟨3, Nat.le_refl 3, by omega, by decide, by decide⟩
  have hmul : (numDesiredElements * 20).toNat = numDesiredElements.toNat * 20 := by
    rw [UInt64.toNat_mul, Nat.mod_eq_of_lt (by simp; omega)]; rfl
  have hv : (divideAndRoundUp (numDesiredElements * 20) 7).toNat =
      (numDesiredElements.toNat * 20 + 7 - 1) / 7 := by
    rw [toNat_divideAndRoundUp (by decide) (by rw [hmul]; simp; omega), hmul]; rfl
  obtain ⟨k, hk3, hk, hpow, hle⟩ :=
    atLeastMinBuckets_spec (divideAndRoundUp (numDesiredElements * 20) 7) (by rw [hv]; omega) (by rw [hv]; omega)
  exact ⟨k, hk3, hk, hpow, by rw [hv] at hle; omega⟩

end DefaultHashTableAllocPolicy

open DefaultHashTableAllocPolicy

/-! ## Buckets and tables -/

/-- `HashTableBucket::isOccupiedMask`: the top bit of `hashAndOccupancy`. -/
def isOccupiedMask : Uptr := (1 : Uptr) <<< 63

/-- An occupied `HashTableBucket`: the element and its hash with `isOccupiedMask` set. -/
structure HashTableBucket (Element : Type) where
  contents : Element
  hashAndOccupancy : Uptr
  deriving DecidableEq, Repr

/-- The `hashAndOccupancy` field of a bucket, `0` for an empty one. -/
def hashAndOccupancyOf {Element : Type} : Option (HashTableBucket Element) → Uptr
  | none => 0
  | some bucket => bucket.hashAndOccupancy

/-- The fields of `HashTable`. -/
structure HashTable (Element : Type) where
  buckets : Array (Option (HashTableBucket Element))
  numElements : Uptr
  hashToBucketIndexMask : Uptr
  deriving Repr

namespace HashTable

variable {Key Element : Type} [DecidableEq Key] (getKey : Element → Key)

/-- `numBuckets()`: the mask plus one, which wraps to `0` for the table without buckets. -/
def numBuckets (t : HashTable Element) : Uptr := t.hashToBucketIndexMask + 1

/-- `size()`. -/
def size (t : HashTable Element) : Uptr := t.numElements

/-- `buckets[bucketIndex]`. -/
def bucketAt (t : HashTable Element) (bucketIndex : Uptr) : Option (HashTableBucket Element) :=
  t.buckets.getD bucketIndex.toNat none

/-- Stores an element in a bucket: the caller's `bucket.hashAndOccupancy = ...` and
`bucket.storage.construct(...)`. -/
def setBucket (t : HashTable Element) (bucketIndex : Uptr) (bucket : HashTableBucket Element) :
    HashTable Element :=
  { t with buckets := t.buckets.setIfInBounds bucketIndex.toNat (some bucket) }

theorem setBucket_buckets (t : HashTable Element) (i : Uptr) (b : HashTableBucket Element) :
    (t.setBucket i b).buckets = t.buckets.setIfInBounds i.toNat (some b) := rfl

/-- Counting an element and filling a bucket commute. -/
theorem setBucket_with_numElements (t : HashTable Element) (n i : Uptr)
    (b : HashTableBucket Element) :
    ({ t with numElements := n }).setBucket i b = { t.setBucket i b with numElements := n } := rfl

@[simp] theorem setBucket_numElements (t : HashTable Element) (i : Uptr)
    (b : HashTableBucket Element) : (t.setBucket i b).numElements = t.numElements := rfl

@[simp] theorem setBucket_hashToBucketIndexMask (t : HashTable Element) (i : Uptr)
    (b : HashTableBucket Element) :
    (t.setBucket i b).hashToBucketIndexMask = t.hashToBucketIndexMask := rfl

@[simp] theorem size_setBucket (t : HashTable Element) (i : Uptr) (b : HashTableBucket Element) :
    (t.setBucket i b).buckets.size = t.buckets.size := by
  simp [setBucket]

/-- The constructor `HashTable(estimatedNumElements)`. -/
def init (estimatedNumElements : Uptr) : HashTable Element :=
  let numBuckets := getMinDesiredBuckets estimatedNumElements
  if numBuckets ≠ 0 then
    { buckets := Array.replicate numBuckets.toNat none, numElements := 0,
      hashToBucketIndexMask := numBuckets - 1 }
  else { buckets := #[], numElements := 0, hashToBucketIndexMask := uintptrMax }

@[simp] theorem numElements_init (estimatedNumElements : Uptr) :
    (init estimatedNumElements : HashTable Element).numElements = 0 := by
  simp only [init]
  split <;> rfl

/-- With no elements to expect, the constructor allocates no buckets. -/
@[simp] theorem numBuckets_init_zero : (init 0 : HashTable Element).numBuckets = 0 := by
  have h0 : getMinDesiredBuckets 0 = 0 := if_pos rfl
  simp only [init, h0, ne_eq, not_true_eq_false, if_false, numBuckets]
  decide

/-- `clear()`. -/
def clear (_ : HashTable Element) : HashTable Element :=
  { buckets := #[], numElements := 0, hashToBucketIndexMask := uintptrMax }

/-- `calcProbeCount`: how far the element in a bucket is from its ideal bucket. -/
def calcProbeCount (t : HashTable Element) (bucketIndex : Uptr) : Uptr :=
  let idealBucketIndex := hashAndOccupancyOf (t.bucketAt bucketIndex) &&& t.hashToBucketIndexMask
  if idealBucketIndex ≤ bucketIndex then bucketIndex - idealBucketIndex
  else t.numBuckets - idealBucketIndex + bucketIndex

/-- `getBucketForRead`: the bucket holding the key, if any. -/
def getBucketForRead (t : HashTable Element) (hash : Uptr) (key : Key) : Option Uptr :=
  if t.buckets.size = 0 then none
  else getBucketForRead.loop t (hash ||| isOccupiedMask) key t.buckets.size 0
where
  /-- The probe loop: `probeCount` steps after the ideal bucket. -/
  loop (t : HashTable Element) (hashAndOccupancy : Uptr) (key : Key) :
      ℕ → Uptr → Option Uptr
    | 0, _ => none
    | fuel + 1, probeCount =>
      let bucketIndex := (hashAndOccupancy + probeCount) &&& t.hashToBucketIndexMask
      match t.bucketAt bucketIndex with
      | none => none
      | some bucket =>
        if bucket.hashAndOccupancy = hashAndOccupancy ∧ getKey bucket.contents = key then
          some bucketIndex
        else if probeCount > t.calcProbeCount bucketIndex then none
        else loop t hashAndOccupancy key fuel (probeCount + 1)

/-- `evictHashBucket`: empties a bucket by moving its element and the run of elements after
it one bucket right, into the first empty bucket. -/
def evictHashBucket (t : HashTable Element) (bucketIndex : Uptr) : HashTable Element :=
  match t.bucketAt bucketIndex with
  | none => t
  | some evictedBucket =>
    evictHashBucket.loop { t with buckets := t.buckets.setIfInBounds bucketIndex.toNat none }
      t.buckets.size bucketIndex evictedBucket
where
  /-- The swap loop: the evicted element goes into the next bucket and that bucket's element
  is evicted in turn. -/
  loop (t : HashTable Element) : ℕ → Uptr → HashTableBucket Element → HashTable Element
    | 0, _, _ => t
    | fuel + 1, bucketIndex, evictedBucket =>
      let bucketIndex := (bucketIndex + 1) &&& t.hashToBucketIndexMask
      let t' := t.setBucket bucketIndex evictedBucket
      match t.bucketAt bucketIndex with
      | none => t'
      | some bucket => loop t' fuel bucketIndex bucket

/-- `getBucketForWrite`: the bucket holding the key, or an empty bucket where it belongs,
made empty by evicting a richer element. -/
def getBucketForWrite (t : HashTable Element) (hash : Uptr) (key : Key) :
    HashTable Element × Uptr :=
  getBucketForWrite.loop t (hash ||| isOccupiedMask) key t.buckets.size 0
where
  /-- The probe loop of `getBucketForWrite`. -/
  loop (t : HashTable Element) (hashAndOccupancy : Uptr) (key : Key) :
      ℕ → Uptr → HashTable Element × Uptr
    | 0, _ => (t, 0)
    | fuel + 1, probeCount =>
      let bucketIndex := (hashAndOccupancy + probeCount) &&& t.hashToBucketIndexMask
      match t.bucketAt bucketIndex with
      | none => (t, bucketIndex)
      | some bucket =>
        if bucket.hashAndOccupancy = hashAndOccupancy ∧ getKey bucket.contents = key then
          (t, bucketIndex)
        else if probeCount > t.calcProbeCount bucketIndex then
          (t.evictHashBucket bucketIndex, bucketIndex)
        else loop t hashAndOccupancy key fuel (probeCount + 1)

/-- `eraseHashBucket`: empties a bucket and moves the run of displaced elements after it one
bucket left. -/
def eraseHashBucket (t : HashTable Element) (eraseBucketIndex : Uptr) : HashTable Element :=
  eraseHashBucket.loop t t.buckets.size eraseBucketIndex
where
  /-- The shift loop: the element after the bucket to erase moves into it, unless that
  bucket is empty or its element is in its ideal bucket. -/
  loop (t : HashTable Element) : ℕ → Uptr → HashTable Element
    | 0, _ => t
    | fuel + 1, eraseBucketIndex =>
      let bucketIndex := (eraseBucketIndex + 1) &&& t.hashToBucketIndexMask
      let emptied := { t with buckets := t.buckets.setIfInBounds eraseBucketIndex.toNat none }
      match t.bucketAt bucketIndex with
      | none => emptied
      | some bucket =>
        if t.calcProbeCount bucketIndex = 0 then emptied
        else loop (t.setBucket eraseBucketIndex bucket) fuel bucketIndex

/-- The body of `resize`'s loop: moves an element of the old buckets to the bucket
`getBucketForWrite` finds for it. -/
def reinsertBucket (t : HashTable Element) (oldBucket : HashTableBucket Element) :
    HashTable Element :=
  let (t, newBucket) :=
    t.getBucketForWrite getKey oldBucket.hashAndOccupancy (getKey oldBucket.contents)
  t.setBucket newBucket oldBucket

theorem reinsertBucket_eq (t : HashTable Element) (oldBucket : HashTableBucket Element) :
    t.reinsertBucket getKey oldBucket =
      (t.getBucketForWrite getKey oldBucket.hashAndOccupancy (getKey oldBucket.contents)).1.setBucket
        (t.getBucketForWrite getKey oldBucket.hashAndOccupancy (getKey oldBucket.contents)).2
        oldBucket := rfl

/-- One step of `resize`'s loop over the old buckets. -/
def reinsertStep (t : HashTable Element) : Option (HashTableBucket Element) → HashTable Element
  | none => t
  | some oldBucket => t.reinsertBucket getKey oldBucket

@[simp] theorem reinsertStep_none (t : HashTable Element) : t.reinsertStep getKey none = t := rfl

@[simp] theorem reinsertStep_some (t : HashTable Element) (oldBucket : HashTableBucket Element) :
    t.reinsertStep getKey (some oldBucket) = t.reinsertBucket getKey oldBucket := rfl

/-- `resize`: new empty buckets, and the old elements reinserted in bucket order. -/
def resize (t : HashTable Element) (newNumBuckets : Uptr) : HashTable Element :=
  let oldBuckets := t.buckets
  let t' : HashTable Element :=
    { t with
      buckets := if newNumBuckets = 0 then #[] else Array.replicate newNumBuckets.toNat none
      hashToBucketIndexMask := newNumBuckets - 1 }
  if t.numElements ≠ 0 then oldBuckets.foldl (reinsertStep getKey) t' else t'

/-- `remove`: erases the element with the key, then shrinks the table if it is too sparse. -/
def remove (t : HashTable Element) (hash : Uptr) (key : Key) : HashTable Element × Bool :=
  let hashAndOccupancy := hash ||| isOccupiedMask
  match t.getBucketForRead getKey hashAndOccupancy key with
  | none => (t, false)
  | some bucket =>
    let t := t.eraseHashBucket bucket
    let t := { t with numElements := t.numElements - 1 }
    let maxDesiredBuckets := getMaxDesiredBuckets t.numElements
    (if t.numBuckets > maxDesiredBuckets then t.resize getKey maxDesiredBuckets else t, true)

/-- The first step of `getBucketForAdd`: grows the table to the buckets the policy wants for
one more element. -/
def growForAdd (t : HashTable Element) : HashTable Element :=
  let minDesiredBuckets := getMinDesiredBuckets (t.numElements + 1)
  if t.numBuckets < minDesiredBuckets then t.resize getKey minDesiredBuckets else t

/-- `getBucketForAdd`: grows the table if needed, then finds the bucket for the key, counting
a new element when that bucket is empty. -/
def getBucketForAdd (t : HashTable Element) (hash : Uptr) (key : Key) :
    HashTable Element × Uptr :=
  let (t, bucket) := (t.growForAdd getKey).getBucketForWrite getKey hash key
  if hashAndOccupancyOf (t.bucketAt bucket) = 0 then
    ({ t with numElements := t.numElements + 1 }, bucket)
  else (t, bucket)

theorem getBucketForAdd_eq (t : HashTable Element) (hash : Uptr) (key : Key) :
    t.getBucketForAdd getKey hash key =
      let r := (t.growForAdd getKey).getBucketForWrite getKey hash key
      if hashAndOccupancyOf (r.1.bucketAt r.2) = 0 then
        ({ r.1 with numElements := r.1.numElements + 1 }, r.2)
      else r := rfl

/-! ## The number of buckets

Only `resize` changes the mask, and with it `numBuckets()`: the probe loops move elements
between buckets of the same array. -/

/-- `getBucketForAdd` resizes the table before it finds a bucket: the policy wants more
buckets for one more element than the table has. The resize frees the old buckets, and with
them every reference into the table taken before the add. -/
def ResizesForAdd (t : HashTable Element) : Prop :=
  t.numBuckets < getMinDesiredBuckets (t.numElements + 1)

instance (t : HashTable Element) : Decidable t.ResizesForAdd :=
  inferInstanceAs (Decidable (t.numBuckets < _))

theorem growForAdd_of_resizesForAdd {t : HashTable Element} (h : t.ResizesForAdd) :
    t.growForAdd getKey = t.resize getKey (getMinDesiredBuckets (t.numElements + 1)) :=
  if_pos h

theorem growForAdd_of_not_resizesForAdd {t : HashTable Element} (h : ¬ t.ResizesForAdd) :
    t.growForAdd getKey = t :=
  if_neg h

/-- `minBuckets` buckets hold six elements before the table grows. -/
theorem not_resizesForAdd_of_numBuckets_eq_minBuckets {t : HashTable Element}
    (h : t.numBuckets = minBuckets) (hn : t.numElements.toNat < 6) : ¬ t.ResizesForAdd := by
  unfold ResizesForAdd
  rw [h, ← UInt64.ofNat_toNat (x := t.numElements)]
  generalize t.numElements.toNat = n at hn
  interval_cases n <;> decide

@[simp] theorem evictHashBucket_loop_hashToBucketIndexMask (t : HashTable Element) (fuel : ℕ)
    (bucketIndex : Uptr) (evictedBucket : HashTableBucket Element) :
    (evictHashBucket.loop t fuel bucketIndex evictedBucket).hashToBucketIndexMask =
      t.hashToBucketIndexMask := by
  induction fuel generalizing t bucketIndex evictedBucket with
  | zero => rfl
  | succ fuel ih =>
    rw [evictHashBucket.loop]
    split
    · rfl
    · rw [ih]
      rfl

@[simp] theorem evictHashBucket_hashToBucketIndexMask (t : HashTable Element) (bucketIndex : Uptr) :
    (t.evictHashBucket bucketIndex).hashToBucketIndexMask = t.hashToBucketIndexMask := by
  rw [evictHashBucket]
  split
  · rfl
  · rw [evictHashBucket_loop_hashToBucketIndexMask]

@[simp] theorem getBucketForWrite_loop_hashToBucketIndexMask (t : HashTable Element)
    (hashAndOccupancy : Uptr) (key : Key) (fuel : ℕ) (probeCount : Uptr) :
    (getBucketForWrite.loop getKey t hashAndOccupancy key fuel probeCount).1.hashToBucketIndexMask =
      t.hashToBucketIndexMask := by
  induction fuel generalizing probeCount with
  | zero => rfl
  | succ fuel ih =>
    rw [getBucketForWrite.loop]
    split
    · rfl
    · split_ifs
      · rfl
      · exact evictHashBucket_hashToBucketIndexMask ..
      · exact ih _

@[simp] theorem getBucketForWrite_hashToBucketIndexMask (t : HashTable Element) (hash : Uptr)
    (key : Key) :
    (t.getBucketForWrite getKey hash key).1.hashToBucketIndexMask = t.hashToBucketIndexMask :=
  getBucketForWrite_loop_hashToBucketIndexMask ..

theorem foldl_reinsertStep_hashToBucketIndexMask (oldBuckets : List (Option (HashTableBucket Element)))
    (t : HashTable Element) :
    (oldBuckets.foldl (reinsertStep getKey) t).hashToBucketIndexMask = t.hashToBucketIndexMask := by
  induction oldBuckets generalizing t with
  | nil => rfl
  | cons oldBucket oldBuckets ih =>
    rw [List.foldl_cons, ih]
    cases oldBucket with
    | none => rfl
    | some oldBucket =>
      rw [reinsertStep_some, reinsertBucket_eq, setBucket_hashToBucketIndexMask,
        getBucketForWrite_hashToBucketIndexMask]

/-- `resize` sets the mask for the new number of buckets. -/
theorem resize_hashToBucketIndexMask (t : HashTable Element) (newNumBuckets : Uptr) :
    (t.resize getKey newNumBuckets).hashToBucketIndexMask = newNumBuckets - 1 := by
  rw [resize]
  by_cases h : t.numElements ≠ 0
  · rw [if_pos h, ← Array.foldl_toList, foldl_reinsertStep_hashToBucketIndexMask]
  · rw [if_neg h]

/-- **The buckets after `growForAdd`**: the number the policy wants for one more element when
the table resizes, and the table's own otherwise. -/
theorem numBuckets_growForAdd (t : HashTable Element) :
    (t.growForAdd getKey).numBuckets =
      if t.ResizesForAdd then getMinDesiredBuckets (t.numElements + 1) else t.numBuckets := by
  by_cases h : t.ResizesForAdd
  · rw [if_pos h, growForAdd_of_resizesForAdd getKey h, numBuckets, resize_hashToBucketIndexMask,
      UInt64.sub_add_cancel]
  · rw [if_neg h, growForAdd_of_not_resizesForAdd getKey h]

@[simp] theorem getBucketForAdd_hashToBucketIndexMask (t : HashTable Element) (hash : Uptr)
    (key : Key) :
    (t.getBucketForAdd getKey hash key).1.hashToBucketIndexMask =
      (t.growForAdd getKey).hashToBucketIndexMask := by
  rw [getBucketForAdd_eq]
  dsimp only
  split_ifs <;> exact getBucketForWrite_hashToBucketIndexMask ..

/-! ## Iteration

`HashMapIterator` and `HashSetIterator` are one piece of code over the buckets of the table:
an iterator points at a bucket, `begin()` at the first occupied one, `end()` past the last,
and `operator++` at the next occupied one. An iterator is modelled by the buckets from its
position to the end, so that `end()` is the empty range. -/

/-- The buckets from an iterator's position to `end()`. -/
abbrev BucketRange (Element : Type) := List (Option (HashTableBucket Element))

/-- The loop `while(bucket < endBucket && !bucket->hashAndOccupancy) ++bucket;` of
`begin()` and `operator++`. -/
def skipEmptyBuckets : BucketRange Element → BucketRange Element
  | [] => []
  | none :: rest => skipEmptyBuckets rest
  | some bucket :: rest => some bucket :: rest

/-- `begin()`: the first occupied bucket. -/
def iteratorBegin (t : HashTable Element) : BucketRange Element :=
  skipEmptyBuckets t.buckets.toList

/-- `operator++`: one bucket on, then on to the next occupied one. -/
def iteratorIncrement : BucketRange Element → BucketRange Element
  | [] => []
  | _ :: rest => skipEmptyBuckets rest

/-- `operator*`: the element of the bucket the iterator points at, which the source asserts
is occupied. -/
def iteratorDeref : BucketRange Element → Option Element
  | some bucket :: _ => some bucket.contents
  | _ => none

theorem length_skipEmptyBuckets_le (it : BucketRange Element) :
    (skipEmptyBuckets it).length ≤ it.length := by
  induction it with
  | nil => exact Nat.le_refl _
  | cons b rest ih =>
    cases b with
    | none => exact Nat.le_succ_of_le ih
    | some b => exact Nat.le_refl _

/-- The elements a loop `for(it = begin; it != end; ++it)` visits from `it`. -/
def iterate (it : BucketRange Element) : List Element :=
  if it = [] then [] else (iteratorDeref it).toList ++ iterate (iteratorIncrement it)
termination_by it.length
decreasing_by
  cases it with
  | nil => contradiction
  | cons b rest =>
    exact Nat.lt_succ_of_le (length_skipEmptyBuckets_le rest)

end HashTable

end Wavm
