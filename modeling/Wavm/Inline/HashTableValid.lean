import Wavm.Inline.HashTable
import Wavm.Lib.LinearProbing
import Mathlib

set_option relaxedAutoImplicit false
set_option autoImplicit false

/-!
# The invariant of the Robin Hood hash table

What every operation of `Wavm.Inline.HashTable` keeps, and what each computes. A *valid*
table has no buckets, or `2 ^ k` buckets with the mask `2 ^ k - 1`; it stores for each
element the hash of its key with the occupancy bit; its keys have no repeats; it counts its
elements; it keeps a free bucket; and its buckets are `LinearProbing.Ordered` for the ideal
bucket `hashAndOccupancy % 2 ^ k`.

## Main definitions

* `Wavm.HashTable.HasBuckets` — `2 ^ k` buckets and the mask `2 ^ k - 1`.
* `Wavm.HashTable.BucketsValid`, `Wavm.HashTable.Valid`.

## Main results

* `getBucketForRead_of_mem`, `getBucketForRead_of_not_mem` — the lookup finds the bucket of
  a present key and nothing for an absent one.
* `getBucketForWrite_insert` — inserting at the bucket `getBucketForWrite` returns for an
  absent key keeps the buckets valid and adds exactly that element.
* `eraseHashBucket_spec` — erasing keeps the buckets valid and removes exactly one element.
* `resize_spec` — resizing keeps the elements.
* `getBucketForAdd_of_mem`, `getBucketForAdd_of_not_mem`, `remove_of_mem`,
  `remove_of_not_mem` — the four cases of the mutators, each keeping the table valid.

## Implementation notes

The loops are proved against the closed forms `LinearProbing.shiftInsert` and
`LinearProbing.shiftErase`: each loop lemma carries the slots of its state after `k` steps as
the closed form for `k`, and the elements as a permutation. Bucket indices are `Uptr`; the
proofs move to `ℕ` with `toNat_probe` and `toNat_next`, where the library works.
-/

namespace Wavm.HashTable

open LinearProbing
open Wavm.Runtime (Uptr uintptrMax)
open DefaultHashTableAllocPolicy

variable {Key Element : Type} [DecidableEq Key]

/-! ## Tables of `2 ^ k` buckets -/

/-- The table has `2 ^ k` buckets and the mask `2 ^ k - 1`, with `k ≤ 62` so that the mask
never reaches the occupancy bit. -/
structure HasBuckets (t : HashTable Element) (k : ℕ) : Prop where
  size_eq : t.buckets.size = 2 ^ k
  mask_eq : t.hashToBucketIndexMask.toNat = 2 ^ k - 1
  le : k ≤ 62

/-- The ideal bucket of an element in a table of `n` buckets. -/
def idealBucket (n : ℕ) (bucket : HashTableBucket Element) : ℕ :=
  bucket.hashAndOccupancy.toNat % n

theorem bucketAt_eq (t : HashTable Element) (i : Uptr) :
    t.bucketAt i = slots t.buckets i.toNat := slots_getD _ _

theorem two_pow_le_of_le {k : ℕ} (hk : k ≤ 62) : 2 ^ k ≤ 2 ^ 62 :=
  Nat.pow_le_pow_right (by omega) hk

section HasBuckets

variable {t : HashTable Element} {k : ℕ}

theorem HasBuckets.with_buckets (h : HasBuckets t k) {a : Array (Option (HashTableBucket Element))}
    (ha : a.size = t.buckets.size) : HasBuckets { t with buckets := a } k :=
  ⟨ha.trans h.size_eq, h.mask_eq, h.le⟩

theorem HasBuckets.congr (h : HasBuckets t k) {t' : HashTable Element}
    (hsize : t'.buckets.size = t.buckets.size)
    (hmask : t'.hashToBucketIndexMask = t.hashToBucketIndexMask) : HasBuckets t' k :=
  ⟨hsize.trans h.size_eq, hmask ▸ h.mask_eq, h.le⟩

theorem HasBuckets.setBucket (h : HasBuckets t k) (i : Uptr) (b : HashTableBucket Element) :
    HasBuckets (t.setBucket i b) k :=
  h.with_buckets (by simp)

theorem HasBuckets.pos (h : HasBuckets t k) : 0 < t.buckets.size := by
  rw [h.size_eq]; exact Nat.two_pow_pos k

/-- The mask takes the index modulo the number of buckets. -/
theorem HasBuckets.toNat_and_mask (h : HasBuckets t k) (a : Uptr) :
    (a &&& t.hashToBucketIndexMask).toNat = a.toNat % 2 ^ k := by
  rw [UInt64.toNat_and, h.mask_eq, Nat.and_two_pow_sub_one_eq_mod]

/-- The bucket `probeCount` steps from the ideal bucket of `hashAndOccupancy`. -/
theorem HasBuckets.toNat_probe (h : HasBuckets t k) (hashAndOccupancy probeCount : Uptr) :
    ((hashAndOccupancy + probeCount) &&& t.hashToBucketIndexMask).toNat =
      offset (2 ^ k) (hashAndOccupancy.toNat % 2 ^ k) probeCount.toNat := by
  have hdvd : 2 ^ k ∣ 2 ^ 64 := Nat.pow_dvd_pow 2 (by have := h.le; omega)
  rw [h.toNat_and_mask, UInt64.toNat_add, Nat.mod_mod_of_dvd _ hdvd, offset, Nat.mod_add_mod]

/-- The bucket after `bucketIndex`. -/
theorem HasBuckets.toNat_next (h : HasBuckets t k) (bucketIndex : Uptr) :
    ((bucketIndex + 1) &&& t.hashToBucketIndexMask).toNat = next (2 ^ k) bucketIndex.toNat := by
  have hdvd : 2 ^ k ∣ 2 ^ 64 := Nat.pow_dvd_pow 2 (by have := h.le; omega)
  rw [h.toNat_and_mask, UInt64.toNat_add, Nat.mod_mod_of_dvd _ hdvd, next]
  rfl

theorem HasBuckets.toNat_numBuckets (h : HasBuckets t k) : t.numBuckets.toNat = 2 ^ k := by
  have := two_pow_le_of_le h.le
  have hpos := Nat.two_pow_pos k
  rw [numBuckets, UInt64.toNat_add, h.mask_eq, UInt64.toNat_one, Nat.mod_eq_of_lt (by omega)]
  omega

/-- `calcProbeCount` is the probe distance of `LinearProbing` for the ideal bucket. -/
theorem HasBuckets.toNat_calcProbeCount (h : HasBuckets t k) {bucketIndex : Uptr}
    {bucket : HashTableBucket Element} (hb : t.bucketAt bucketIndex = some bucket)
    (hi : bucketIndex.toNat < 2 ^ k) :
    (t.calcProbeCount bucketIndex).toNat =
      probeDistance (2 ^ k) (idealBucket (2 ^ k)) bucketIndex.toNat bucket := by
  have hn := two_pow_le_of_le h.le
  have hideal : (hashAndOccupancyOf (t.bucketAt bucketIndex) &&& t.hashToBucketIndexMask).toNat =
      idealBucket (2 ^ k) bucket := by
    rw [h.toNat_and_mask, hb]; rfl
  have hlt : idealBucket (2 ^ k) bucket < 2 ^ k := Nat.mod_lt _ (Nat.two_pow_pos k)
  have hnum := h.toNat_numBuckets
  unfold calcProbeCount probeDistance
  rw [dist_eq hlt hi]
  simp only [UInt64.le_iff_toNat_le, hideal]
  split
  · rw [UInt64.toNat_sub_of_le _ _ (by rw [UInt64.le_iff_toNat_le, hideal]; omega), hideal]
  · rw [UInt64.toNat_add, UInt64.toNat_sub_of_le _ _ (by rw [UInt64.le_iff_toNat_le, hideal]; omega),
      hideal, hnum, Nat.mod_eq_of_lt (by omega)]
    omega

theorem toNat_succ_of_lt {q : Uptr} {n : ℕ} (hq : q.toNat + 1 < n) (hn : n ≤ 2 ^ 62) :
    (q + 1).toNat = q.toNat + 1 := by
  rw [UInt64.toNat_add, UInt64.toNat_one, Nat.mod_eq_of_lt (by omega)]

end HasBuckets

/-! ## The invariant -/

variable (getKey : Element → Key) (getKeyHash : Key → Uptr)

/-- The `hashAndOccupancy` stored for a key: its hash with the occupancy bit. -/
def keyHash (key : Key) : Uptr := getKeyHash key ||| isOccupiedMask

omit [DecidableEq Key] in
@[simp] theorem keyHash_or_isOccupiedMask (key : Key) :
    keyHash getKeyHash key ||| isOccupiedMask = keyHash getKeyHash key := by
  rw [keyHash, UInt64.or_assoc, UInt64.or_self]

/-- **The invariant of the buckets**: stored hashes are the hashes of the keys, no key is
stored twice, and the elements are in Robin Hood order. -/
structure BucketsValid (t : HashTable Element) : Prop where
  hashes : ∀ b ∈ occupied t.buckets, b.hashAndOccupancy = keyHash getKeyHash (getKey b.contents)
  nodupKeys : ((occupied t.buckets).map fun b => getKey b.contents).Nodup
  ordered : Ordered t.buckets.size (idealBucket t.buckets.size) (slots t.buckets)

omit [DecidableEq Key] in
variable {getKey getKeyHash} in
/-- Valid buckets are a property of the buckets alone. -/
theorem BucketsValid.congr {t t' : HashTable Element} (h : BucketsValid getKey getKeyHash t)
    (he : t'.buckets = t.buckets) : BucketsValid getKey getKeyHash t' := by
  obtain ⟨h1, h2, h3⟩ := h
  exact ⟨he ▸ h1, he ▸ h2, he ▸ h3⟩

/-- **A valid table**: valid buckets, no buckets or a power of two at least `minBuckets` of
them, the element count, and a free bucket. -/
structure Valid (t : HashTable Element) : Prop extends BucketsValid getKey getKeyHash t where
  shape : (t.buckets.size = 0 ∧ t.hashToBucketIndexMask = uintptrMax) ∨
    ∃ k, 3 ≤ k ∧ HasBuckets t k
  numElements_eq : t.numElements.toNat = (occupied t.buckets).length
  free : 0 < t.buckets.size → (occupied t.buckets).length < t.buckets.size

/-! ## The probe sequence

Both probe loops walk from the ideal bucket of the key. Before the bucket of a present key
they pass occupied buckets whose elements are at least as far from home, with other keys
(`probe_of_le`); an absent key matches no bucket (`probe_not_match`). -/

section Probe

variable {getKey getKeyHash} {t : HashTable Element} {k : ℕ}

omit [DecidableEq Key] in
theorem BucketsValid.ordered_pow (hk : HasBuckets t k) (hv : BucketsValid getKey getKeyHash t) :
    Ordered (2 ^ k) (idealBucket (2 ^ k)) (slots t.buckets) :=
  hk.size_eq ▸ hv.ordered

theorem idealBucket_lt (k : ℕ) (b : HashTableBucket Element) : idealBucket (2 ^ k) b < 2 ^ k :=
  Nat.mod_lt _ (Nat.two_pow_pos k)

omit [DecidableEq Key] in
/-- The probes of a search for the key of an element at `y`, up to `y`: each finds an
element at least as displaced as the probe count, and with the key exactly at `y`. -/
theorem probe_of_le (hk : HasBuckets t k) (hv : BucketsValid getKey getKeyHash t) {y : ℕ}
    {b : HashTableBucket Element} (hy : slots t.buckets y = some b) {q : Uptr}
    (hq : q.toNat ≤ probeDistance (2 ^ k) (idealBucket (2 ^ k)) y b) :
    ∃ b', t.bucketAt ((b.hashAndOccupancy + q) &&& t.hashToBucketIndexMask) = some b' ∧
      q.toNat ≤ (t.calcProbeCount ((b.hashAndOccupancy + q) &&& t.hashToBucketIndexMask)).toNat ∧
      ((b'.hashAndOccupancy = b.hashAndOccupancy ∧ getKey b'.contents = getKey b.contents) ↔
        q.toNat = probeDistance (2 ^ k) (idealBucket (2 ^ k)) y b) := by
  have hys : y < 2 ^ k := hk.size_eq ▸ lt_of_slots_eq_some hy
  have hD := dist_lt (n := 2 ^ k) (Nat.two_pow_pos k) (idealBucket (2 ^ k) b) y
  have hidx := hk.toNat_probe b.hashAndOccupancy q
  have hidxLt := offset_lt (Nat.two_pow_pos k) (b.hashAndOccupancy.toNat % 2 ^ k) q.toNat
  obtain ⟨b', hb', hle⟩ :=
    (hv.ordered_pow hk).chain (idealBucket_lt k) hys hy q.toNat hq
  have hb'' : t.bucketAt ((b.hashAndOccupancy + q) &&& t.hashToBucketIndexMask) = some b' := by
    rw [bucketAt_eq, hidx]; exact hb'
  refine ⟨b', hb'', ?_, ?_⟩
  · rw [hk.toNat_calcProbeCount hb'' (by rw [hidx]; exact hidxLt), hidx]
    exact hle
  · constructor
    · -- a bucket with the key is the bucket `y`, which is `probeDistance` steps from home
      rintro ⟨-, hkey⟩
      have hxy := eq_of_slots_of_nodup (fun b => getKey b.contents) hv.nodupKeys hb' hy hkey
      have := dist_offset (idealBucket_lt k b) (show q.toNat < 2 ^ k by unfold probeDistance at hq; omega)
      unfold probeDistance
      rw [← this]
      exact congrArg _ hxy
    · intro hqD
      have hoff : offset (2 ^ k) (idealBucket (2 ^ k) b) q.toNat = y := by
        rw [hqD]; exact offset_dist (idealBucket_lt k b) hys
      rw [hoff, hy] at hb'
      cases hb'
      exact ⟨rfl, rfl⟩

/-- The probe at the element's own bucket is the bucket `y`. -/
theorem probe_eq_of_eq (hk : HasBuckets t k) {y : ℕ} {b : HashTableBucket Element}
    (hys : y < 2 ^ k) {q : Uptr} (hq : q.toNat = probeDistance (2 ^ k) (idealBucket (2 ^ k)) y b) :
    (b.hashAndOccupancy + q) &&& t.hashToBucketIndexMask = UInt64.ofNat y := by
  have hidx := hk.toNat_probe b.hashAndOccupancy q
  rw [hq] at hidx
  apply UInt64.toNat_inj.1
  rw [hidx, UInt64.toNat_ofNat',
    Nat.mod_eq_of_lt (show y < 2 ^ 64 by have := two_pow_le_of_le hk.le; omega)]
  exact offset_dist (idealBucket_lt k b) hys

omit [DecidableEq Key] in
/-- No bucket matches a key that no element has. -/
theorem probe_not_match {key : Key} (habs : ∀ b ∈ occupied t.buckets, getKey b.contents ≠ key)
    {i : Uptr} {b' : HashTableBucket Element} (hb' : t.bucketAt i = some b') (hao : Uptr) :
    ¬ (b'.hashAndOccupancy = hao ∧ getKey b'.contents = key) := by
  rintro ⟨-, hkey⟩
  rw [bucketAt_eq] at hb'
  exact habs b' (mem_occupied.2 ⟨i.toNat, lt_of_slots_eq_some hb', hb'⟩) hkey

end Probe

/-! ## Lookup -/

section Read

variable {getKey getKeyHash} {t : HashTable Element} {k : ℕ}

/-- The read loop reaches the bucket of a present key, `probeDistance` probes from home. -/
theorem getBucketForRead_loop_of_mem (hk : HasBuckets t k) (hv : BucketsValid getKey getKeyHash t)
    {y : ℕ} {b : HashTableBucket Element} (hy : slots t.buckets y = some b) :
    ∀ (fuel : ℕ) (q : Uptr), q.toNat ≤ probeDistance (2 ^ k) (idealBucket (2 ^ k)) y b →
      probeDistance (2 ^ k) (idealBucket (2 ^ k)) y b - q.toNat < fuel →
      getBucketForRead.loop getKey t b.hashAndOccupancy (getKey b.contents) fuel q =
        some (UInt64.ofNat y) := by
  have hys : y < 2 ^ k := hk.size_eq ▸ lt_of_slots_eq_some hy
  have hD : probeDistance (2 ^ k) (idealBucket (2 ^ k)) y b < 2 ^ k :=
    dist_lt (Nat.two_pow_pos k) _ _
  have hn := two_pow_le_of_le hk.le
  intro fuel
  induction fuel with
  | zero => intro q _ h; omega
  | succ fuel ih =>
    intro q hq hfuel
    obtain ⟨b', hb', hcalc, hmatch⟩ := probe_of_le hk hv hy hq
    rw [getBucketForRead.loop]
    simp only [hb']
    by_cases hqD : q.toNat = probeDistance (2 ^ k) (idealBucket (2 ^ k)) y b
    · rw [if_pos (hmatch.2 hqD), probe_eq_of_eq hk hys hqD]
    · -- an earlier probe: another key, and no richer element, so the loop goes on
      rw [if_neg (fun h => hqD (hmatch.1 h)),
        if_neg (by rw [gt_iff_lt, UInt64.lt_iff_toNat_lt]; omega)]
      have hq1 := toNat_succ_of_lt (show q.toNat + 1 < 2 ^ k by omega) hn
      exact ih (q + 1) (by omega) (by omega)

/-- The read loop never answers for an absent key. -/
theorem getBucketForRead_loop_of_not_mem {key : Key}
    (habs : ∀ b ∈ occupied t.buckets, getKey b.contents ≠ key) (hao : Uptr) :
    ∀ (fuel : ℕ) (q : Uptr), getBucketForRead.loop getKey t hao key fuel q = none := by
  intro fuel
  induction fuel with
  | zero => intro q; rfl
  | succ fuel ih =>
    intro q
    rw [getBucketForRead.loop]
    split
    · rfl
    · rename_i b' hb'
      rw [if_neg (probe_not_match habs hb' hao)]
      split
      · rfl
      · exact ih _

/-- **Lookup of a present key** returns its bucket. -/
theorem getBucketForRead_of_mem (hv : Valid getKey getKeyHash t) {y : ℕ}
    {b : HashTableBucket Element} (hy : slots t.buckets y = some b) {hash : Uptr} {key : Key}
    (hkey : getKey b.contents = key) (hhash : hash ||| isOccupiedMask = keyHash getKeyHash key) :
    t.getBucketForRead getKey hash key = some (UInt64.ofNat y) := by
  have hys := lt_of_slots_eq_some hy
  obtain ⟨hsize, -⟩ | ⟨k, -, hk⟩ := hv.shape
  · omega
  have hb := hv.hashes b (mem_occupied.2 ⟨y, hys, hy⟩)
  rw [getBucketForRead, if_neg (by omega), hhash, ← hkey, ← hb]
  exact getBucketForRead_loop_of_mem hk hv.toBucketsValid hy _ 0 (by simp)
    (by rw [hk.size_eq]; have := dist_lt (n := 2 ^ k) (Nat.two_pow_pos k) (idealBucket (2 ^ k) b) y
        unfold probeDistance; simp; omega)

/-- **Lookup of an absent key** returns nothing. -/
theorem getBucketForRead_of_not_mem {key : Key}
    (habs : ∀ b ∈ occupied t.buckets, getKey b.contents ≠ key) (hash : Uptr) :
    t.getBucketForRead getKey hash key = none := by
  rw [getBucketForRead]
  split
  · rfl
  · exact getBucketForRead_loop_of_not_mem habs _ _ _

end Read

/-! ## Eviction -/

section Evict

variable {t : HashTable Element} {k : ℕ}

/-- The swap loop after `j` swaps: the elements from `p` to `j` steps after it have moved
one bucket right, and the loop carries the element `j` steps after `p`. -/
theorem evictHashBucket_loop_spec (hk : HasBuckets t k) {p : Uptr} (hp : p.toNat < 2 ^ k)
    {m : ℕ} (hm : m < 2 ^ k) (hrun : ∀ s < m, slots t.buckets (offset (2 ^ k) p.toNat s) ≠ none)
    (hfree : slots t.buckets (offset (2 ^ k) p.toNat m) = none) :
    ∀ (fuel j : ℕ) (tj : HashTable Element) (bucketIndex : Uptr) (evicted : HashTableBucket Element),
      j < m → m - j ≤ fuel → tj = { t with buckets := tj.buckets } →
      tj.buckets.size = t.buckets.size →
      slots tj.buckets = shiftInsert (2 ^ k) (slots t.buckets) p.toNat j none →
      bucketIndex.toNat = offset (2 ^ k) p.toNat j →
      slots t.buckets (offset (2 ^ k) p.toNat j) = some evicted →
      (occupied tj.buckets ++ [evicted]).Perm (occupied t.buckets) →
      let r := evictHashBucket.loop tj fuel bucketIndex evicted
      r = { t with buckets := r.buckets } ∧ r.buckets.size = t.buckets.size ∧
        slots r.buckets = shiftInsert (2 ^ k) (slots t.buckets) p.toNat m none ∧
        (occupied r.buckets).Perm (occupied t.buckets) := by
  intro fuel
  induction fuel with
  | zero => intro j _ _ _ _ hjm hfuel; omega
  | succ fuel ih =>
    intro j tj bucketIndex evicted hjm hfuel htj hsize hslots hidx hev hperm
    have hkj : HasBuckets tj k := by rw [htj]; exact hk.with_buckets hsize
    have hmask : tj.hashToBucketIndexMask = t.hashToBucketIndexMask := by rw [htj]
    -- the next bucket is `j + 1` steps after `p`, and still holds its own element
    have hnext : ((bucketIndex + 1) &&& tj.hashToBucketIndexMask).toNat =
        offset (2 ^ k) p.toNat (j + 1) := by
      rw [hkj.toNat_next, hidx, offset_succ]
    have hj1 : j + 1 < 2 ^ k := by omega
    have hcur : tj.bucketAt ((bucketIndex + 1) &&& tj.hashToBucketIndexMask) =
        slots t.buckets (offset (2 ^ k) p.toNat (j + 1)) := by
      rw [bucketAt_eq, hnext, hslots, shiftInsert_of_lt (offset_lt (Nat.two_pow_pos k) _ _),
        dist_offset hp hj1, if_neg (by intro h; have := dist_offset hp hj1; rw [h, dist_self] at this; omega),
        if_neg (by omega)]
    have hnextLt : ((bucketIndex + 1) &&& tj.hashToBucketIndexMask).toNat < tj.buckets.size := by
      rw [hnext, hsize, hk.size_eq]; exact offset_lt (Nat.two_pow_pos k) _ _
    -- writing the carried element there extends the moved run by one
    have hslots' : slots (tj.setBucket ((bucketIndex + 1) &&& tj.hashToBucketIndexMask) evicted).buckets =
        shiftInsert (2 ^ k) (slots t.buckets) p.toNat (j + 1) none := by
      rw [HashTable.setBucket, slots_setIfInBounds hnextLt, hnext, hslots, ← hev,
        update_shiftInsert_succ hp hj1]
    have hperm' := occupied_setIfInBounds hnextLt (some evicted)
    rw [← bucketAt_eq, hcur] at hperm'
    rw [evictHashBucket.loop]
    simp only [hcur]
    rcases Nat.lt_or_ge (j + 1) m with hlt | hge
    · -- the run goes on: swap and continue
      obtain ⟨g, hg⟩ := Option.ne_none_iff_exists'.1 (hrun (j + 1) hlt)
      rw [hg] at hperm' ⊢
      exact ih (j + 1) _ _ g hlt (by omega) (by rw [HashTable.setBucket, htj])
        (by simp [HashTable.setBucket, hsize]) hslots' hnext hg (hperm'.trans hperm)
    · -- the free bucket ends the run
      have hjm' : j + 1 = m := by omega
      rw [hjm'] at hslots'
      rw [hjm', hfree] at hperm' ⊢
      refine ⟨by rw [HashTable.setBucket, htj], by simp [HashTable.setBucket, hsize], hslots', ?_⟩
      have h := hperm'.trans hperm
      rwa [Option.toList_none, List.append_nil] at h

/-- **Eviction** moves the run of elements from an occupied bucket up to the first free
bucket one bucket right, and keeps the elements. -/
theorem evictHashBucket_spec (hk : HasBuckets t k) {p : Uptr} {f : HashTableBucket Element}
    (hp : t.bucketAt p = some f) (hfree : ∃ y < 2 ^ k, slots t.buckets y = none) :
    ∃ m, 0 < m ∧ m < 2 ^ k ∧ (∀ s < m, slots t.buckets (offset (2 ^ k) p.toNat s) ≠ none) ∧
      slots t.buckets (offset (2 ^ k) p.toNat m) = none ∧
      t.evictHashBucket p = { t with buckets := (t.evictHashBucket p).buckets } ∧
      (t.evictHashBucket p).buckets.size = t.buckets.size ∧
      slots (t.evictHashBucket p).buckets =
        shiftInsert (2 ^ k) (slots t.buckets) p.toNat m none ∧
      (occupied (t.evictHashBucket p).buckets).Perm (occupied t.buckets) := by
  classical
  rw [bucketAt_eq] at hp
  have hpLt : p.toNat < t.buckets.size := lt_of_slots_eq_some hp
  have hpn : p.toNat < 2 ^ k := hk.size_eq ▸ hpLt
  obtain ⟨y, hy, hyfree⟩ := hfree
  -- the run ends at the first free bucket after `p`
  have hex : ∃ m, slots t.buckets (offset (2 ^ k) p.toNat m) = none :=
    ⟨dist (2 ^ k) p.toNat y, by rw [offset_dist hpn hy]; exact hyfree⟩
  have hmfree := Nat.find_spec hex
  have hmle : Nat.find hex ≤ dist (2 ^ k) p.toNat y :=
    Nat.find_min' hex (by rw [offset_dist hpn hy]; exact hyfree)
  have hrun : ∀ s < Nat.find hex, slots t.buckets (offset (2 ^ k) p.toNat s) ≠ none :=
    fun s hs => Nat.find_min hex hs
  have hm : Nat.find hex < 2 ^ k := lt_of_le_of_lt hmle (dist_lt (Nat.two_pow_pos k) _ _)
  have hm0 : 0 < Nat.find hex := by
    rcases Nat.eq_zero_or_pos (Nat.find hex) with h | h
    · rw [h, offset_zero hpn, hp] at hmfree; cases hmfree
    · exact h
  refine ⟨Nat.find hex, hm0, hm, hrun, hmfree, ?_⟩
  -- the first step empties `p` and carries its element
  have hslots0 : slots (t.buckets.setIfInBounds p.toNat none) =
      shiftInsert (2 ^ k) (slots t.buckets) p.toNat 0 none := by
    rw [slots_setIfInBounds hpLt, shiftInsert_zero hpn]
  have hperm0 := occupied_setIfInBounds hpLt none
  rw [hp] at hperm0
  have hperm0' : (occupied (t.buckets.setIfInBounds p.toNat none) ++ [f]).Perm (occupied t.buckets) := by
    simpa using hperm0
  rw [evictHashBucket, bucketAt_eq, hp]
  exact evictHashBucket_loop_spec hk hpn hm hrun hmfree t.buckets.size 0 _ p f hm0
    (by rw [hk.size_eq]; omega) rfl (by simp) hslots0 (by rw [offset_zero hpn])
    (by rw [offset_zero hpn]; exact hp) hperm0'

end Evict

/-! ## The write probe -/

section Write

variable {getKey getKeyHash} {t : HashTable Element} {k : ℕ}

/-- The write loop reaches the bucket of a present key and changes nothing. -/
theorem getBucketForWrite_loop_of_mem (hk : HasBuckets t k)
    (hv : BucketsValid getKey getKeyHash t) {y : ℕ} {b : HashTableBucket Element}
    (hy : slots t.buckets y = some b) :
    ∀ (fuel : ℕ) (q : Uptr), q.toNat ≤ probeDistance (2 ^ k) (idealBucket (2 ^ k)) y b →
      probeDistance (2 ^ k) (idealBucket (2 ^ k)) y b - q.toNat < fuel →
      getBucketForWrite.loop getKey t b.hashAndOccupancy (getKey b.contents) fuel q =
        (t, UInt64.ofNat y) := by
  have hys : y < 2 ^ k := hk.size_eq ▸ lt_of_slots_eq_some hy
  have hD : probeDistance (2 ^ k) (idealBucket (2 ^ k)) y b < 2 ^ k :=
    dist_lt (Nat.two_pow_pos k) _ _
  have hn := two_pow_le_of_le hk.le
  intro fuel
  induction fuel with
  | zero => intro q _ h; omega
  | succ fuel ih =>
    intro q hq hfuel
    obtain ⟨b', hb', hcalc, hmatch⟩ := probe_of_le hk hv hy hq
    rw [getBucketForWrite.loop]
    simp only [hb']
    by_cases hqD : q.toNat = probeDistance (2 ^ k) (idealBucket (2 ^ k)) y b
    · rw [if_pos (hmatch.2 hqD), probe_eq_of_eq hk hys hqD]
    · rw [if_neg (fun h => hqD (hmatch.1 h)),
        if_neg (by rw [gt_iff_lt, UInt64.lt_iff_toNat_lt]; omega)]
      have hq1 := toNat_succ_of_lt (show q.toNat + 1 < 2 ^ k by omega) hn
      exact ih (q + 1) (by omega) (by omega)

/-- `getBucketForWrite` of a present key returns its bucket and changes nothing. -/
theorem getBucketForWrite_of_mem (hk : HasBuckets t k) (hv : BucketsValid getKey getKeyHash t)
    {y : ℕ} {b : HashTableBucket Element} (hy : slots t.buckets y = some b) {hash : Uptr}
    {key : Key} (hkey : getKey b.contents = key)
    (hhash : hash ||| isOccupiedMask = keyHash getKeyHash key) :
    t.getBucketForWrite getKey hash key = (t, UInt64.ofNat y) := by
  have hys := lt_of_slots_eq_some hy
  have hb := hv.hashes b (mem_occupied.2 ⟨y, hys, hy⟩)
  rw [getBucketForWrite, hhash, ← hkey, ← hb]
  exact getBucketForWrite_loop_of_mem hk hv hy _ 0 (by simp)
    (by rw [hk.size_eq]; have := dist_lt (n := 2 ^ k) (Nat.two_pow_pos k) (idealBucket (2 ^ k) b) y
        unfold probeDistance; simp; omega)

/-- The write loop for an absent key stops at a Robin Hood insertion point, evicting the run
there. -/
theorem getBucketForWrite_loop_of_not_mem (hk : HasBuckets t k)
    (hv : BucketsValid getKey getKeyHash t) (hfree : ∃ y < 2 ^ k, slots t.buckets y = none)
    {key : Key} (habs : ∀ b ∈ occupied t.buckets, getKey b.contents ≠ key) (hao : Uptr) :
    ∀ (fuel : ℕ) (q : Uptr), q.toNat < 2 ^ k → 2 ^ k - q.toNat ≤ fuel →
      (∀ q' < q.toNat, ∃ e', slots t.buckets (offset (2 ^ k) (hao.toNat % 2 ^ k) q') = some e' ∧
        q' ≤ probeDistance (2 ^ k) (idealBucket (2 ^ k)) (offset (2 ^ k) (hao.toNat % 2 ^ k) q') e') →
      ∃ m, InsertionPoint (2 ^ k) (idealBucket (2 ^ k)) (slots t.buckets) (hao.toNat % 2 ^ k)
          (getBucketForWrite.loop getKey t hao key fuel q).2.toNat m ∧
        (getBucketForWrite.loop getKey t hao key fuel q).1 =
          { t with buckets := (getBucketForWrite.loop getKey t hao key fuel q).1.buckets } ∧
        (getBucketForWrite.loop getKey t hao key fuel q).1.buckets.size = t.buckets.size ∧
        slots (getBucketForWrite.loop getKey t hao key fuel q).1.buckets =
          shiftInsert (2 ^ k) (slots t.buckets) (getBucketForWrite.loop getKey t hao key fuel q).2.toNat
            m none ∧
        (occupied (getBucketForWrite.loop getKey t hao key fuel q).1.buckets).Perm
          (occupied t.buckets) := by
  have hn := two_pow_le_of_le hk.le
  have hh0 : hao.toNat % 2 ^ k < 2 ^ k := Nat.mod_lt _ (Nat.two_pow_pos k)
  intro fuel
  induction fuel with
  | zero => intro q hq hfuel; omega
  | succ fuel ih =>
    intro q hq hfuel hpassed
    have hidx := hk.toNat_probe hao q
    have hxLt := offset_lt (Nat.two_pow_pos k) (hao.toNat % 2 ^ k) q.toNat
    have hdist := dist_offset hh0 hq
    cases hb : t.bucketAt ((hao + q) &&& t.hashToBucketIndexMask) with
    | none =>
      -- an empty bucket: insert here, nothing to move
      have hS : slots t.buckets (offset (2 ^ k) (hao.toNat % 2 ^ k) q.toNat) = none := by
        rw [← hidx, ← bucketAt_eq, hb]
      have hloop : getBucketForWrite.loop getKey t hao key (fuel + 1) q =
          (t, (hao + q) &&& t.hashToBucketIndexMask) := by
        rw [getBucketForWrite.loop]; simp only [hb]
      rw [hloop]
      refine ⟨0, ⟨by rw [hidx]; exact hxLt, Nat.two_pow_pos k, fun _ h => absurd h (by omega),
        by rw [hidx, offset_zero hxLt]; exact hS, by rw [hidx, hdist]; exact hpassed,
        fun f hf => by rw [hidx, hS] at hf; cases hf⟩, rfl, rfl, ?_, List.Perm.refl _⟩
      rw [hidx, shiftInsert_zero hxLt, ← hS, Function.update_eq_self]
    | some b' =>
      have hS : slots t.buckets (offset (2 ^ k) (hao.toNat % 2 ^ k) q.toNat) = some b' := by
        rw [← hidx, ← bucketAt_eq, hb]
      have hcalc := hk.toNat_calcProbeCount hb (by rw [hidx]; exact hxLt)
      have hloop : getBucketForWrite.loop getKey t hao key (fuel + 1) q =
          if q > t.calcProbeCount ((hao + q) &&& t.hashToBucketIndexMask) then
            (t.evictHashBucket ((hao + q) &&& t.hashToBucketIndexMask),
              (hao + q) &&& t.hashToBucketIndexMask)
          else getBucketForWrite.loop getKey t hao key fuel (q + 1) := by
        rw [getBucketForWrite.loop]; simp only [hb, if_neg (probe_not_match habs hb hao)]
      rw [hloop]
      by_cases hgt : q > t.calcProbeCount ((hao + q) &&& t.hashToBucketIndexMask)
      · -- a richer element: evict it and its run
        rw [if_pos hgt]
        obtain ⟨m, -, hm, hrun, hmfree, hr⟩ := evictHashBucket_spec hk hb hfree
        refine ⟨m, ⟨by rw [hidx]; exact hxLt, hm, hrun, hmfree, by rw [hidx, hdist]; exact hpassed,
          fun f hf => ?_⟩, hr⟩
        rw [← bucketAt_eq, hb] at hf
        cases hf
        rw [gt_iff_lt, UInt64.lt_iff_toNat_lt, hcalc, hidx] at hgt
        rw [hidx, hdist]
        exact hgt
      · -- a poorer element: keep probing
        rw [if_neg hgt]
        rw [gt_iff_lt, UInt64.lt_iff_toNat_lt, hcalc, not_lt] at hgt
        obtain ⟨y, hy, hyfree⟩ := hfree
        have hpd := (hv.ordered_pow hk).probeDistance_lt (idealBucket_lt k) hxLt hS hy hyfree
        rw [hidx] at hgt
        have hq1 := toNat_succ_of_lt (show q.toNat + 1 < 2 ^ k by omega) hn
        refine ih (q + 1) (by omega) (by omega) fun q' hq' => ?_
        rcases Nat.lt_or_ge q' q.toNat with hlt | hge
        · exact hpassed q' hlt
        · obtain rfl : q' = q.toNat := by omega
          exact ⟨b', hS, hgt⟩

/-- **Insertion of an absent key**: writing the element into the bucket `getBucketForWrite`
returns keeps the buckets valid and adds exactly that element. -/
theorem getBucketForWrite_insert (hk : HasBuckets t k) (hv : BucketsValid getKey getKeyHash t)
    (hlen : (occupied t.buckets).length < 2 ^ k) {b : HashTableBucket Element}
    (hb : b.hashAndOccupancy = keyHash getKeyHash (getKey b.contents))
    (habs : ∀ b' ∈ occupied t.buckets, getKey b'.contents ≠ getKey b.contents) {hash : Uptr}
    (hhash : hash ||| isOccupiedMask = b.hashAndOccupancy) :
    let r := t.getBucketForWrite getKey hash (getKey b.contents)
    r.1 = { t with buckets := r.1.buckets } ∧ r.1.bucketAt r.2 = none ∧
      HasBuckets (r.1.setBucket r.2 b) k ∧ BucketsValid getKey getKeyHash (r.1.setBucket r.2 b) ∧
      (occupied (r.1.setBucket r.2 b).buckets).Perm (b :: occupied t.buckets) := by
  have hfree : ∃ y < 2 ^ k, slots t.buckets y = none := by
    obtain ⟨y, hy, h⟩ := exists_slots_eq_none (hk.size_eq ▸ hlen)
    exact ⟨y, hk.size_eq ▸ hy, h⟩
  obtain ⟨m, hip, hframe, hsize, hslots, hperm⟩ :=
    getBucketForWrite_loop_of_not_mem hk hv hfree habs b.hashAndOccupancy t.buckets.size 0
      (by rw [UInt64.toNat_zero]; exact Nat.two_pow_pos k) (by rw [hk.size_eq]; omega)
      (fun q' h => by rw [UInt64.toNat_zero] at h; omega)
  rw [getBucketForWrite, hhash]
  set r := getBucketForWrite.loop getKey t b.hashAndOccupancy (getKey b.contents) t.buckets.size 0
  have hrk : HasBuckets r.1 k := by rw [hframe]; exact hk.with_buckets hsize
  have hpLt : r.2.toNat < r.1.buckets.size := by rw [hsize, hk.size_eq]; exact hip.p_lt
  have hempty : r.1.bucketAt r.2 = none := by rw [bucketAt_eq, hslots, shiftInsert, if_pos rfl]
  have hslots' : slots (r.1.setBucket r.2 b).buckets =
      shiftInsert (2 ^ k) (slots t.buckets) r.2.toNat m (some b) := by
    rw [HashTable.setBucket, slots_setIfInBounds hpLt, hslots, update_shiftInsert]
  have hperm' : (occupied (r.1.setBucket r.2 b).buckets).Perm (b :: occupied t.buckets) := by
    have h := occupied_setIfInBounds hpLt (some b)
    rw [← bucketAt_eq, hempty, Option.toList_none, List.append_nil, Option.toList_some] at h
    exact (h.trans ((List.perm_append_right_iff [b]).2 hperm)).trans (List.perm_append_singleton _ _)
  refine ⟨hframe, hempty, hrk.setBucket _ _, ⟨?_, ?_, ?_⟩, hperm'⟩
  · intro b' hb'
    rcases List.mem_cons.1 (hperm'.subset hb') with rfl | hmem
    · exact hb
    · exact hv.hashes b' hmem
  · refine (hperm'.map _).nodup_iff.2 (List.nodup_cons.2 ⟨?_, hv.nodupKeys⟩)
    simpa using habs
  · have hsz : (r.1.setBucket r.2 b).buckets.size = 2 ^ k := (hrk.setBucket _ _).size_eq
    rw [hsz, hslots']
    exact ordered_shiftInsert (hv.ordered_pow hk) (idealBucket_lt k) hip

end Write

/-! ## Erasure -/

section Erase

variable {getKey getKeyHash} {t : HashTable Element} {k : ℕ}

/-- `calcProbeCount` is zero exactly for an element in its ideal bucket. -/
theorem HasBuckets.calcProbeCount_eq_zero_iff (hk : HasBuckets t k) {i : Uptr}
    {b : HashTableBucket Element} (hb : t.bucketAt i = some b) (hi : i.toNat < 2 ^ k) :
    t.calcProbeCount i = 0 ↔ probeDistance (2 ^ k) (idealBucket (2 ^ k)) i.toNat b = 0 := by
  rw [← hk.toNat_calcProbeCount hb hi, ← UInt64.toNat_inj, UInt64.toNat_zero]

/-- The shift loop after `j` shifts: the buckets from `p` up to `j` steps after it hold their
successors' elements, and the bucket `j` steps after `p` is the next to overwrite. -/
theorem eraseHashBucket_loop_spec (hk : HasBuckets t k) {p : Uptr} {m : ℕ} {r : HashTableBucket Element}
    (her : ErasureRun (2 ^ k) (idealBucket (2 ^ k)) (slots t.buckets) p.toNat m) :
    ∀ (fuel j : ℕ) (tj : HashTable Element) (eraseBucketIndex : Uptr) (c : HashTableBucket Element),
      j ≤ m → m - j < fuel → tj = { t with buckets := tj.buckets } →
      tj.buckets.size = t.buckets.size →
      slots tj.buckets = shiftLeft (2 ^ k) (slots t.buckets) p.toNat j →
      eraseBucketIndex.toNat = offset (2 ^ k) p.toNat j →
      slots t.buckets (offset (2 ^ k) p.toNat j) = some c →
      (occupied tj.buckets ++ [r]).Perm (occupied t.buckets ++ [c]) →
      eraseHashBucket.loop tj fuel eraseBucketIndex =
          { t with buckets := (eraseHashBucket.loop tj fuel eraseBucketIndex).buckets } ∧
        (eraseHashBucket.loop tj fuel eraseBucketIndex).buckets.size = t.buckets.size ∧
        slots (eraseHashBucket.loop tj fuel eraseBucketIndex).buckets =
          shiftErase (2 ^ k) (slots t.buckets) p.toNat m ∧
        (occupied (eraseHashBucket.loop tj fuel eraseBucketIndex).buckets ++ [r]).Perm
          (occupied t.buckets) := by
  have hp := her.p_lt
  have hmn := her.m_lt
  intro fuel
  induction fuel with
  | zero => intro j _ _ _ _ hjm hfuel; omega
  | succ fuel ih =>
    intro j tj eraseBucketIndex c hjm hfuel htj hsize hslots hidx hc hperm
    have hkj : HasBuckets tj k := by rw [htj]; exact hk.with_buckets hsize
    have hj1 : j + 1 < 2 ^ k := by omega
    have hnext : ((eraseBucketIndex + 1) &&& tj.hashToBucketIndexMask).toNat =
        offset (2 ^ k) p.toNat (j + 1) := by
      rw [hkj.toNat_next, hidx, offset_succ]
    have hnextLt := offset_lt (Nat.two_pow_pos k) p.toNat (j + 1)
    -- the next bucket has not been touched yet
    have hcur : tj.bucketAt ((eraseBucketIndex + 1) &&& tj.hashToBucketIndexMask) =
        slots t.buckets (offset (2 ^ k) p.toNat (j + 1)) := by
      rw [bucketAt_eq, hnext, hslots, shiftLeft, if_neg (by rw [dist_offset hp hj1]; omega)]
    have hidxLt : eraseBucketIndex.toNat < tj.buckets.size := by
      rw [hidx, hsize, hk.size_eq]; exact offset_lt (Nat.two_pow_pos k) _ _
    have hold : slots tj.buckets eraseBucketIndex.toNat = some c := by
      rw [hslots, hidx, shiftLeft_offset hp (by omega), hc]
    -- emptying the bucket to erase ends the loop in the closed form of `shiftErase`
    have hdone : { tj with buckets := tj.buckets.setIfInBounds eraseBucketIndex.toNat none } =
          { t with buckets := (tj.buckets.setIfInBounds eraseBucketIndex.toNat none) } ∧
        (tj.buckets.setIfInBounds eraseBucketIndex.toNat none).size = t.buckets.size ∧
        slots (tj.buckets.setIfInBounds eraseBucketIndex.toNat none) =
          shiftErase (2 ^ k) (slots t.buckets) p.toNat j ∧
        (occupied (tj.buckets.setIfInBounds eraseBucketIndex.toNat none) ++ [r]).Perm
          (occupied t.buckets) := by
      refine ⟨by rw [htj], by simp [hsize], ?_, ?_⟩
      · rw [slots_setIfInBounds hidxLt, hslots, hidx, update_shiftLeft hp (by omega)]
      · have h := occupied_setIfInBounds hidxLt none
        rw [hold, Option.toList_none, Option.toList_some] at h
        simpa using perm_exchange (g := []) (by simpa using h) hperm
    rw [eraseHashBucket.loop]
    rcases Nat.lt_or_ge j m with hlt | hge
    · -- inside the run: the next element is displaced, so it moves left
      obtain ⟨g, hg, hpos⟩ := her.run (j + 1) (by omega) (by omega)
      have hcur' : tj.bucketAt ((eraseBucketIndex + 1) &&& tj.hashToBucketIndexMask) = some g := by
        rw [hcur, hg]
      have hnz : tj.calcProbeCount ((eraseBucketIndex + 1) &&& tj.hashToBucketIndexMask) ≠ 0 := by
        rw [Ne, hkj.calcProbeCount_eq_zero_iff hcur' (by rw [hnext]; exact hnextLt), hnext]
        omega
      simp only [hcur', if_neg hnz]
      have hset : slots (tj.setBucket eraseBucketIndex g).buckets =
          shiftLeft (2 ^ k) (slots t.buckets) p.toNat (j + 1) := by
        rw [HashTable.setBucket, slots_setIfInBounds hidxLt, hslots, hidx, ← hg,
          update_shiftLeft_succ hp hj1]
      have h := occupied_setIfInBounds hidxLt (some g)
      rw [hold, Option.toList_some, Option.toList_some] at h
      exact ih (j + 1) _ _ g (by omega) (by omega) (by rw [HashTable.setBucket, htj])
        (by simp [HashTable.setBucket, hsize]) hset hnext hg (perm_exchange h hperm)
    · -- the end of the run: the next bucket is free or holds an element at home
      obtain rfl : j = m := by omega
      cases hb : tj.bucketAt ((eraseBucketIndex + 1) &&& tj.hashToBucketIndexMask) with
      | none => simpa only [hb] using hdone
      | some g =>
        have hz : tj.calcProbeCount ((eraseBucketIndex + 1) &&& tj.hashToBucketIndexMask) = 0 := by
          rw [hkj.calcProbeCount_eq_zero_iff hb (by rw [hnext]; exact hnextLt), hnext]
          exact her.stop g (by rw [← hcur, hb])
        simpa only [hb, if_pos hz] using hdone

omit [DecidableEq Key] in
/-- **Erasure** keeps the buckets valid and removes exactly the erased element. -/
theorem eraseHashBucket_spec (hk : HasBuckets t k) (hv : BucketsValid getKey getKeyHash t)
    (hfree : ∃ y < 2 ^ k, slots t.buckets y = none) {p : Uptr} {r : HashTableBucket Element}
    (hp : t.bucketAt p = some r) :
    t.eraseHashBucket p = { t with buckets := (t.eraseHashBucket p).buckets } ∧
      (t.eraseHashBucket p).buckets.size = t.buckets.size ∧
      BucketsValid getKey getKeyHash (t.eraseHashBucket p) ∧
      (occupied (t.eraseHashBucket p).buckets ++ [r]).Perm (occupied t.buckets) := by
  classical
  rw [bucketAt_eq] at hp
  have hpn : p.toNat < 2 ^ k := hk.size_eq ▸ lt_of_slots_eq_some hp
  obtain ⟨y, hy, hyfree⟩ := hfree
  have hyp : y ≠ p.toNat := fun h => by rw [h, hp] at hyfree; cases hyfree
  have hd := dist_pos hpn hy hyp
  have hdn := dist_lt (Nat.two_pow_pos k) p.toNat y
  -- the run ends before the first free bucket or element at home after `p`
  let IsEnd : ℕ → Prop := fun m => slots t.buckets (offset (2 ^ k) p.toNat (m + 1)) = none ∨
    ∃ g, slots t.buckets (offset (2 ^ k) p.toNat (m + 1)) = some g ∧
      probeDistance (2 ^ k) (idealBucket (2 ^ k)) (offset (2 ^ k) p.toNat (m + 1)) g = 0
  have hex : ∃ m, IsEnd m :=
    ⟨dist (2 ^ k) p.toNat y - 1, Or.inl (by rw [Nat.sub_add_cancel hd, offset_dist hpn hy]; exact hyfree)⟩
  have hmle : Nat.find hex ≤ dist (2 ^ k) p.toNat y - 1 :=
    Nat.find_min' hex (Or.inl (by rw [Nat.sub_add_cancel hd, offset_dist hpn hy]; exact hyfree))
  have her : ErasureRun (2 ^ k) (idealBucket (2 ^ k)) (slots t.buckets) p.toNat (Nat.find hex) := by
    refine ⟨hpn, by omega, fun s hs1 hsm => ?_, fun g hg => ?_⟩
    · have hnot := Nat.find_min hex (show s - 1 < Nat.find hex by omega)
      simp only [IsEnd, Nat.sub_add_cancel hs1, not_or, not_exists, not_and] at hnot
      obtain ⟨g, hg⟩ := Option.ne_none_iff_exists'.1 hnot.1
      exact ⟨g, hg, Nat.pos_of_ne_zero (hnot.2 g hg)⟩
    · rcases Nat.find_spec hex with h | ⟨g', hg', h0⟩
      · rw [h] at hg; cases hg
      · rw [hg'] at hg; cases hg; exact h0
  have hperm0 : (occupied t.buckets ++ [r]).Perm (occupied t.buckets ++ [r]) := List.Perm.refl _
  obtain ⟨hframe, hsize, hslots, hperm⟩ :=
    eraseHashBucket_loop_spec hk her t.buckets.size 0 t p r (Nat.zero_le _)
      (by rw [hk.size_eq]; omega) rfl rfl (by rw [shiftLeft_zero]) (by rw [offset_zero hpn])
      (by rw [offset_zero hpn]; exact hp) hperm0
  rw [show t.eraseHashBucket p = eraseHashBucket.loop t t.buckets.size p from rfl]
  have hsub : ∀ b ∈ occupied (eraseHashBucket.loop t t.buckets.size p).buckets,
      b ∈ occupied t.buckets :=
    fun b hb => hperm.subset (List.mem_append_left _ hb)
  refine ⟨hframe, hsize, ⟨fun b hb => hv.hashes b (hsub b hb), ?_, ?_⟩, hperm⟩
  · have := (hperm.map fun b => getKey b.contents).nodup_iff.2 hv.nodupKeys
    rw [List.map_append] at this
    exact (List.nodup_append.1 this).1
  · rw [hslots, hsize, hk.size_eq]
    exact ordered_shiftErase (hv.ordered_pow hk) (idealBucket_lt k) hp her

end Erase

/-! ## Resizing -/

section Resize

variable {getKey getKeyHash} {t : HashTable Element}

/-- **The reinsertion loop** of `resize`: each old element goes in by
`getBucketForWrite_insert`, so the new buckets stay valid and end with the old elements. -/
theorem foldl_reinsertStep {k : ℕ} :
    ∀ (rest : List (Option (HashTableBucket Element))) (tn : HashTable Element),
      HasBuckets tn k → BucketsValid getKey getKeyHash tn →
      ((occupied tn.buckets ++ rest.filterMap id).map fun b => getKey b.contents).Nodup →
      (∀ b ∈ rest.filterMap id, b.hashAndOccupancy = keyHash getKeyHash (getKey b.contents)) →
      (occupied tn.buckets).length + (rest.filterMap id).length < 2 ^ k →
      (rest.foldl (reinsertStep getKey) tn).numElements = tn.numElements ∧
        HasBuckets (rest.foldl (reinsertStep getKey) tn) k ∧
        BucketsValid getKey getKeyHash (rest.foldl (reinsertStep getKey) tn) ∧
        (occupied (rest.foldl (reinsertStep getKey) tn).buckets).Perm
          (occupied tn.buckets ++ rest.filterMap id) := by
  intro rest
  induction rest with
  | nil => intro tn hk hv _ _ _; exact ⟨rfl, hk, hv, by simp⟩
  | cons o rest ih =>
    intro tn hk hv hnd hhash hlen
    cases o with
    | none =>
      have hfm : (none :: rest).filterMap id = rest.filterMap id := rfl
      rw [hfm] at hnd hhash hlen ⊢
      rw [List.foldl_cons, reinsertStep_none]
      exact ih tn hk hv hnd hhash hlen
    | some b =>
      have hfm : (some b :: rest).filterMap id = b :: rest.filterMap id := rfl
      rw [hfm] at hnd hhash hlen ⊢
      rw [List.foldl_cons, reinsertStep_some, reinsertBucket_eq]
      have hb := hhash b (List.mem_cons_self ..)
      -- `b`'s key is not among the elements already moved
      have habs : ∀ b' ∈ occupied tn.buckets, getKey b'.contents ≠ getKey b.contents := by
        intro b' hb' heq
        rw [List.map_append, List.map_cons] at hnd
        exact (List.nodup_append.1 hnd).2.2 _ (List.mem_map_of_mem hb') _ (List.mem_cons_self ..) heq
      obtain ⟨hframe, -, hk', hv', hperm⟩ := getBucketForWrite_insert hk hv
        (by rw [List.length_cons] at hlen; omega) hb habs
        (show b.hashAndOccupancy ||| isOccupiedMask = b.hashAndOccupancy by
          rw [hb, keyHash_or_isOccupiedMask])
      have hperm' : (occupied ((tn.getBucketForWrite getKey b.hashAndOccupancy (getKey b.contents)).1.setBucket
          (tn.getBucketForWrite getKey b.hashAndOccupancy (getKey b.contents)).2 b).buckets ++
            rest.filterMap id).Perm (occupied tn.buckets ++ b :: rest.filterMap id) :=
        ((List.perm_append_right_iff _).2 hperm).trans List.perm_middle.symm
      obtain ⟨hnum, hkr, hvr, hpermr⟩ := ih _ hk' hv'
        ((hperm'.map _).nodup_iff.2 hnd)
        (fun b' hb' => hhash b' (List.mem_cons_of_mem _ hb'))
        (by rw [hperm.length_eq, List.length_cons]; rw [List.length_cons] at hlen; omega)
      refine ⟨?_, hkr, hvr, hpermr.trans hperm'⟩
      rw [hnum, setBucket_numElements, hframe]

/-- **Resizing** to `2 ^ k` buckets, with room for the elements, gives a valid table with the
same elements and count. -/
theorem resize_spec (hv : Valid getKey getKeyHash t) {k : ℕ} (hk3 : 3 ≤ k) (hk : k ≤ 62)
    {newNumBuckets : Uptr} (hnew : newNumBuckets.toNat = 2 ^ k)
    (hlen : (occupied t.buckets).length < 2 ^ k) :
    Valid getKey getKeyHash (t.resize getKey newNumBuckets) ∧
      HasBuckets (t.resize getKey newNumBuckets) k ∧
      (t.resize getKey newNumBuckets).numElements = t.numElements ∧
      (occupied (t.resize getKey newNumBuckets).buckets).Perm (occupied t.buckets) := by
  have hne : newNumBuckets ≠ 0 := fun h => by
    rw [h, UInt64.toNat_zero] at hnew; have := Nat.two_pow_pos k; omega
  -- the empty buckets the elements move into
  set t' : HashTable Element :=
    { t with buckets := Array.replicate (2 ^ k) none, hashToBucketIndexMask := newNumBuckets - 1 }
    with ht'
  have hk' : HasBuckets t' k := ⟨by simp [t'], by
    simp only [t']
    rw [UInt64.toNat_sub_of_le _ _ (by rw [UInt64.le_iff_toNat_le, hnew, UInt64.toNat_one]; exact Nat.one_le_two_pow),
      hnew, UInt64.toNat_one], hk⟩
  have hv' : BucketsValid getKey getKeyHash t' :=
    ⟨by simp [t'], by simp [t'], fun x _ e he _ => by simp [t'] at he⟩
  have hresize : t.resize getKey newNumBuckets =
      if t.numElements ≠ 0 then t.buckets.foldl (reinsertStep getKey) t' else t' := by
    rw [resize, if_neg hne, hnew]
  have hvalid : ∀ r : HashTable Element, HasBuckets r k → BucketsValid getKey getKeyHash r →
      r.numElements = t.numElements → (occupied r.buckets).Perm (occupied t.buckets) →
      Valid getKey getKeyHash r := fun r hkr hvr hnum hperm =>
    ⟨hvr, Or.inr ⟨k, hk3, hkr⟩, by rw [hnum, hv.numElements_eq, hperm.length_eq],
      fun _ => by rw [hperm.length_eq, hkr.size_eq]; exact hlen⟩
  rw [hresize]
  split_ifs with h0
  · -- move every element of the old buckets
    rw [← Array.foldl_toList]
    have hocc' : occupied t'.buckets = [] := occupied_replicate_none _
    have hcomb : occupied t'.buckets ++ t.buckets.toList.filterMap id = occupied t.buckets := by
      rw [hocc', List.nil_append]; rfl
    obtain ⟨hnum, hkr, hvr, hperm⟩ := foldl_reinsertStep t.buckets.toList t' hk' hv'
      (by rw [hcomb]; exact hv.nodupKeys) (fun b hb => hv.hashes b hb)
      (by rw [hocc', List.length_nil, Nat.zero_add]; exact hlen)
    have hperm' : (occupied (t.buckets.toList.foldl (reinsertStep getKey) t').buckets).Perm
        (occupied t.buckets) := by rw [← hcomb]; exact hperm
    exact ⟨hvalid _ hkr hvr hnum hperm', hkr, hnum, hperm'⟩
  · -- no elements: the empty buckets are the table
    have hempty : occupied t.buckets = [] := by
      rw [← List.length_eq_zero_iff, ← hv.numElements_eq, not_not.1 h0, UInt64.toNat_zero]
    have hperm : (occupied t'.buckets).Perm (occupied t.buckets) := by simp [t', hempty]
    exact ⟨hvalid _ hk' hv' rfl hperm, hk', rfl, hperm⟩

end Resize

/-! ## The mutators -/

section Mutators

variable {getKey getKeyHash} {t : HashTable Element}

omit [DecidableEq Key] in
theorem keyHash_ne_zero (key : Key) : keyHash getKeyHash key ≠ 0 := by
  intro h
  have h63 := congrArg (fun y : UInt64 => Nat.testBit y.toNat 63) h
  simp [keyHash, UInt64.toNat_or, Nat.testBit_or, isOccupiedMask] at h63
  exact absurd h63.2 (by decide)

theorem toNat_add_one_of_lt {x : Uptr} (h : x.toNat + 1 < 2 ^ 64) : (x + 1).toNat = x.toNat + 1 := by
  rw [UInt64.toNat_add, UInt64.toNat_one, Nat.mod_eq_of_lt h]

theorem toNat_ofNat_of_lt {y : ℕ} (h : y < 2 ^ 64) : (UInt64.ofNat y).toNat = y := by
  rw [UInt64.toNat_ofNat', Nat.mod_eq_of_lt h]

/-- The bucket index a lookup returns reads back the bucket it was computed from. -/
theorem HasBuckets.bucketAt_ofNat {k : ℕ} (hk : HasBuckets t k) {y : ℕ}
    {b : HashTableBucket Element} (hy : slots t.buckets y = some b) :
    t.bucketAt (UInt64.ofNat y) = some b := by
  have hys := lt_of_slots_eq_some hy
  have := two_pow_le_of_le hk.le
  rw [bucketAt_eq, toNat_ofNat_of_lt (by rw [hk.size_eq] at hys; omega)]
  exact hy

omit [DecidableEq Key] in
/-- A valid table with buckets has `2 ^ k` of them. -/
theorem Valid.hasBuckets (hv : Valid getKey getKeyHash t) (hpos : 0 < t.buckets.size) :
    ∃ k, 3 ≤ k ∧ HasBuckets t k :=
  hv.shape.resolve_left fun ⟨h, _⟩ => by omega

omit [DecidableEq Key] in
/-- A valid table with buckets has a free one. -/
theorem Valid.exists_free (hv : Valid getKey getKeyHash t) {k : ℕ} (hk : HasBuckets t k) :
    ∃ y < 2 ^ k, slots t.buckets y = none := by
  obtain ⟨y, hy, h⟩ := exists_slots_eq_none (hv.free hk.pos)
  exact ⟨y, hk.size_eq ▸ hy, h⟩

omit [DecidableEq Key] in
/-- **Every probe meets an empty bucket within the table**: from any hash, a valid table with
buckets has an empty bucket fewer than `numBuckets` probes on, so a `while(true)` probe loop
stops before it has probed every bucket. -/
theorem Valid.exists_probe_free (hv : Valid getKey getKeyHash t) (hpos : 0 < t.buckets.size)
    (hashAndOccupancy : Uptr) :
    ∃ q < t.buckets.size,
      t.bucketAt ((hashAndOccupancy + UInt64.ofNat q) &&& t.hashToBucketIndexMask) = none := by
  obtain ⟨k, -, hk⟩ := hv.hasBuckets hpos
  obtain ⟨y, hy, hfree⟩ := hv.exists_free hk
  obtain ⟨q, hq, hoffset⟩ := exists_offset_eq (Nat.mod_lt hashAndOccupancy.toNat (Nat.two_pow_pos k)) hy
  have hn := two_pow_le_of_le hk.le
  refine ⟨q, hk.size_eq ▸ hq, ?_⟩
  rw [bucketAt_eq, hk.toNat_probe, toNat_ofNat_of_lt (by omega), hoffset]
  exact hfree

/-- **Growing for an insertion** keeps the table valid, with room for one more element. -/
theorem growForAdd_spec (hv : Valid getKey getKeyHash t) (hlen : t.numElements.toNat + 1 < 2 ^ 58) :
    Valid getKey getKeyHash (t.growForAdd getKey) ∧
      (occupied (t.growForAdd getKey).buckets).Perm (occupied t.buckets) ∧
      (t.growForAdd getKey).numElements = t.numElements ∧
      ∃ k, 3 ≤ k ∧ HasBuckets (t.growForAdd getKey) k ∧ t.numElements.toNat + 1 < 2 ^ k := by
  have hN : (t.numElements + 1).toNat = t.numElements.toNat + 1 := toNat_add_one_of_lt (by omega)
  obtain ⟨k, hk3, hk, hpow, hroom⟩ :=
    getMinDesiredBuckets_spec (by rw [hN]; omega) (by rw [hN]; omega)
  rw [hN] at hroom
  rw [growForAdd]
  split_ifs with hgrow
  · obtain ⟨hv', hk', hnum, hperm⟩ :=
      resize_spec hv hk3 hk hpow (by rw [← hv.numElements_eq]; omega)
    exact ⟨hv', hperm, hnum, k, hk3, hk', hroom⟩
  · -- enough buckets already; the table without buckets has `numBuckets = 0`, too few
    obtain ⟨-, hmask⟩ | ⟨k', hk'3, hk'⟩ := hv.shape
    · exfalso
      apply hgrow
      rw [numBuckets, hmask, show uintptrMax + 1 = 0 by decide, UInt64.lt_iff_toNat_lt, hpow]
      exact Nat.two_pow_pos k
    · rw [UInt64.lt_iff_toNat_lt, hk'.toNat_numBuckets, hpow, Nat.not_lt] at hgrow
      exact ⟨hv, List.Perm.refl _, rfl, k', hk'3, hk', by omega⟩

/-- **`getBucketForAdd` of a present key** returns its bucket in a valid table with the same
elements. -/
theorem getBucketForAdd_of_mem (hv : Valid getKey getKeyHash t)
    (hlen : t.numElements.toNat + 1 < 2 ^ 58) {hash : Uptr} {key : Key}
    (hhash : hash ||| isOccupiedMask = keyHash getKeyHash key)
    (hmem : ∃ b ∈ occupied t.buckets, getKey b.contents = key) :
    Valid getKey getKeyHash (t.getBucketForAdd getKey hash key).1 ∧
      (occupied (t.getBucketForAdd getKey hash key).1.buckets).Perm (occupied t.buckets) ∧
      ∃ b, (t.getBucketForAdd getKey hash key).1.bucketAt (t.getBucketForAdd getKey hash key).2 =
        some b ∧ getKey b.contents = key := by
  obtain ⟨hv1, hperm1, -, k, -, hk1, -⟩ := growForAdd_spec hv hlen
  obtain ⟨b, hb, hkey⟩ := hmem
  obtain ⟨y, hys, hy⟩ := mem_occupied.1 (hperm1.symm.subset hb)
  have hw := getBucketForWrite_of_mem hk1 hv1.toBucketsValid hy hkey hhash
  have hat := hk1.bucketAt_ofNat hy
  have hne : hashAndOccupancyOf (some b) ≠ 0 := by
    rw [hashAndOccupancyOf, hv1.hashes b (mem_occupied.2 ⟨y, hys, hy⟩)]
    exact keyHash_ne_zero _
  rw [getBucketForAdd_eq, hw]
  simp only [hat, if_neg hne]
  exact ⟨hv1, hperm1, b, rfl, hkey⟩

/-- **`getBucketForAdd` of an absent key** returns an empty bucket; writing the new element
there gives a valid table with that element added and counted. -/
theorem getBucketForAdd_of_not_mem (hv : Valid getKey getKeyHash t)
    (hlen : t.numElements.toNat + 1 < 2 ^ 58) {hash : Uptr} {e : Element}
    (hhash : hash ||| isOccupiedMask = keyHash getKeyHash (getKey e))
    (habs : ∀ b ∈ occupied t.buckets, getKey b.contents ≠ getKey e) :
    let r := t.getBucketForAdd getKey hash (getKey e)
    r.1.bucketAt r.2 = none ∧
      Valid getKey getKeyHash (r.1.setBucket r.2 ⟨e, keyHash getKeyHash (getKey e)⟩) ∧
      (occupied (r.1.setBucket r.2 ⟨e, keyHash getKeyHash (getKey e)⟩).buckets).Perm
        (⟨e, keyHash getKeyHash (getKey e)⟩ :: occupied t.buckets) := by
  obtain ⟨hv1, hperm1, hnum1, k, hk3, hk1, hroom⟩ := growForAdd_spec hv hlen
  have hins := getBucketForWrite_insert (b := ⟨e, keyHash getKeyHash (getKey e)⟩) hk1
    hv1.toBucketsValid (by rw [hperm1.length_eq, ← hv.numElements_eq]; omega) rfl
    (fun b' hb' => habs b' (hperm1.subset hb')) hhash
  -- name the write's result, so that the bookkeeping below stays small
  rcases hr : (t.growForAdd getKey).getBucketForWrite getKey hash (getKey e) with ⟨t2, p⟩
  rw [hr] at hins
  obtain ⟨hframe, hempty, hk', hv', hperm⟩ := hins
  dsimp only at hframe hempty hk' hv' hperm
  have hnum2 : t2.numElements = t.numElements := by rw [hframe, hnum1]
  rw [getBucketForAdd_eq, hr]
  simp only [hempty, hashAndOccupancyOf, if_true]
  have hperm' := hperm.trans (hperm1.cons _)
  rw [setBucket_with_numElements]
  refine ⟨hempty, ⟨hv'.congr rfl, Or.inr ⟨k, hk3, hk'.congr rfl rfl⟩, ?_, fun _ => ?_⟩, hperm'⟩
  · -- the count goes up by the one element written
    show (t2.numElements + 1).toNat = (occupied (t2.setBucket p _).buckets).length
    rw [toNat_add_one_of_lt (by rw [hnum2]; omega), hnum2, hperm'.length_eq, List.length_cons,
      hv.numElements_eq]
  · show (occupied (t2.setBucket p _).buckets).length < (t2.setBucket p _).buckets.size
    rw [hperm'.length_eq, List.length_cons, hk'.size_eq, ← hv.numElements_eq]
    exact hroom

/-- **Removal of a present key** erases its element, keeps the table valid, and answers
`true`. -/
theorem remove_of_mem (hv : Valid getKey getKeyHash t) (hlen : t.numElements.toNat < 2 ^ 58)
    {y : ℕ} {b : HashTableBucket Element} (hy : slots t.buckets y = some b) {hash : Uptr}
    (hhash : hash ||| isOccupiedMask = keyHash getKeyHash (getKey b.contents)) :
    (t.remove getKey hash (getKey b.contents)).2 = true ∧
      Valid getKey getKeyHash (t.remove getKey hash (getKey b.contents)).1 ∧
      (occupied (t.remove getKey hash (getKey b.contents)).1.buckets ++ [b]).Perm
        (occupied t.buckets) := by
  have hys := lt_of_slots_eq_some hy
  obtain ⟨k, hk3, hk⟩ := hv.hasBuckets (by omega)
  have hn := two_pow_le_of_le hk.le
  have hread := getBucketForRead_of_mem hv hy rfl
    (show hash ||| isOccupiedMask ||| isOccupiedMask = _ by rw [UInt64.or_assoc, UInt64.or_self, hhash])
  have hat := hk.bucketAt_ofNat hy
  obtain ⟨hframe, hsize, hvb, hperm⟩ :=
    eraseHashBucket_spec hk hv.toBucketsValid (hv.exists_free hk) hat
  -- the table after the erasure, with the count taken down
  obtain ⟨te, hte⟩ : ∃ te, t.eraseHashBucket (UInt64.ofNat y) = te := ⟨_, rfl⟩
  rw [hte] at hframe hsize hvb hperm
  have hlen' : (occupied te.buckets).length + 1 = (occupied t.buckets).length := by
    rw [← hperm.length_eq, List.length_append, List.length_singleton]
  have hnum : te.numElements = t.numElements := by rw [hframe]
  have hpos : 1 ≤ t.numElements.toNat := by rw [hv.numElements_eq]; omega
  have hdec : (te.numElements - 1).toNat = (occupied te.buckets).length := by
    rw [UInt64.toNat_sub_of_le _ _ (by rw [UInt64.le_iff_toNat_le, hnum, UInt64.toNat_one]; omega),
      hnum, UInt64.toNat_one, hv.numElements_eq]
    omega
  have hk2 : HasBuckets { te with numElements := te.numElements - 1 } k :=
    hk.congr hsize (by rw [hframe])
  have hv2 : Valid getKey getKeyHash { te with numElements := te.numElements - 1 } :=
    ⟨hvb.congr rfl, Or.inr ⟨k, hk3, hk2⟩, hdec, fun _ => by
      show (occupied te.buckets).length < te.buckets.size
      have := hv.free hk.pos
      rw [hsize]; omega⟩
  have hb58 : (te.numElements - 1).toNat < 2 ^ 58 := by
    rw [hdec]; have := hv.numElements_eq; omega
  obtain ⟨k', hk'3, hk', hpow, hroom⟩ := getMaxDesiredBuckets_spec hb58
  rw [remove]
  simp only [hread, hte]
  split_ifs
  · -- shrink: the elements fit in the fewer buckets
    obtain ⟨hv3, -, -, hperm3⟩ := resize_spec hv2 hk'3 hk' hpow (by rw [← hdec]; exact hroom)
    exact ⟨trivial, hv3, ((List.perm_append_right_iff _).2 hperm3).trans hperm⟩
  · exact ⟨trivial, hv2, hperm⟩

/-- **Removal of an absent key** changes nothing and answers `false`. -/
theorem remove_of_not_mem {key : Key} (habs : ∀ b ∈ occupied t.buckets, getKey b.contents ≠ key)
    (hash : Uptr) : t.remove getKey hash key = (t, false) := by
  rw [remove]
  simp only [getBucketForRead_of_not_mem habs]

omit [DecidableEq Key] in
/-- The constructor gives a valid empty table. -/
theorem init_spec {estimatedNumElements : Uptr} (h : estimatedNumElements.toNat < 2 ^ 58) :
    Valid getKey getKeyHash (init estimatedNumElements : HashTable Element) ∧
      occupied (init estimatedNumElements : HashTable Element).buckets = [] := by
  rw [init]
  split_ifs with hne
  · have h1 : 1 ≤ estimatedNumElements.toNat := Nat.one_le_iff_ne_zero.2 fun h0 => hne (by
      rw [getMinDesiredBuckets, if_pos (UInt64.toNat_inj.1 (by rw [h0]; rfl))])
    obtain ⟨k, hk3, hk, hpow, -⟩ := getMinDesiredBuckets_spec h1 h
    refine ⟨⟨⟨by simp, by simp, fun x _ e he _ => by simp at he⟩,
      Or.inr ⟨k, hk3, ⟨by simp [hpow], ?_, hk⟩⟩, by simp,
      fun _ => by simp [hpow]⟩, by simp⟩
    show (getMinDesiredBuckets estimatedNumElements - 1).toNat = 2 ^ k - 1
    rw [UInt64.toNat_sub_of_le _ _
        (by rw [UInt64.le_iff_toNat_le, hpow, UInt64.toNat_one]; exact Nat.one_le_two_pow),
      hpow, UInt64.toNat_one]
  · exact ⟨⟨⟨by simp [occupied], by simp [occupied], fun x hx => by simp at hx⟩,
      Or.inl ⟨rfl, rfl⟩, by simp [occupied], fun h => by simp at h⟩, by simp [occupied]⟩

omit [DecidableEq Key] in
/-- `clear` gives the valid table without buckets. -/
theorem clear_spec (t : HashTable Element) :
    Valid getKey getKeyHash t.clear ∧ occupied t.clear.buckets = [] :=
  ⟨⟨⟨by simp [clear, occupied], by simp [clear, occupied], fun x hx => by simp [clear] at hx⟩,
    Or.inl ⟨rfl, rfl⟩, by simp [clear, occupied], fun h => by simp [clear] at h⟩,
    by simp [clear, occupied]⟩

omit [DecidableEq Key] in
/-- **Replacing an element** by one with the same key and the same stored hash keeps the
table valid, and changes its elements by exactly that replacement. -/
theorem setBucket_replace (hv : Valid getKey getKeyHash t) {i : Uptr}
    {b : HashTableBucket Element} (hb : t.bucketAt i = some b) (b' : HashTableBucket Element)
    (hkey : getKey b'.contents = getKey b.contents)
    (hhash : b'.hashAndOccupancy = b.hashAndOccupancy) :
    Valid getKey getKeyHash (t.setBucket i b') ∧
      (occupied (t.setBucket i b').buckets ++ [b]).Perm (occupied t.buckets ++ [b']) := by
  rw [bucketAt_eq] at hb
  have hi := lt_of_slots_eq_some hb
  have hperm : (occupied (t.setBucket i b').buckets ++ [b]).Perm (occupied t.buckets ++ [b']) := by
    have h := occupied_setIfInBounds hi (some b')
    rwa [hb] at h
  have hlen := hperm.length_eq
  simp only [List.length_append, List.length_singleton] at hlen
  -- the keys are those of before, the replaced key standing for itself
  have hkeys : ((occupied (t.setBucket i b').buckets).map fun c => getKey c.contents).Perm
      ((occupied t.buckets).map fun c => getKey c.contents) := by
    have h := hperm.map fun c => getKey c.contents
    rw [List.map_append, List.map_append, List.map_singleton, List.map_singleton, hkey] at h
    exact (List.perm_append_right_iff _).1 h
  refine ⟨⟨⟨fun c hc => ?_, hkeys.nodup_iff.2 hv.nodupKeys, ?_⟩, ?_, ?_, ?_⟩, hperm⟩
  · -- hashes: an element of before, or the new one with the old one's hash
    have hc' := hperm.subset (List.mem_append_left _ hc)
    rw [List.mem_append, List.mem_singleton] at hc'
    rcases hc' with hc' | rfl
    · exact hv.hashes c hc'
    · rw [hkey, hhash]
      exact hv.hashes b (mem_occupied.2 ⟨_, hi, hb⟩)
  · show Ordered _ (idealBucket _) (slots (t.setBucket i b').buckets)
    rw [size_setBucket, setBucket_buckets, slots_setIfInBounds hi]
    have hhome : idealBucket t.buckets.size b' = idealBucket t.buckets.size b := by
      rw [idealBucket, idealBucket, hhash]
    exact hv.ordered.update hi hb hhome
  · rcases hv.shape with ⟨h0, -⟩ | ⟨k, hk3, hk⟩
    · omega
    · exact Or.inr ⟨k, hk3, hk.setBucket i b'⟩
  · show t.numElements.toNat = _
    rw [hv.numElements_eq]
    omega
  · intro hpos
    rw [size_setBucket] at hpos ⊢
    have := hv.free hpos
    omega

end Mutators

/-! ## Iteration -/

omit [DecidableEq Key] in
theorem iterate_skipEmptyBuckets (it : BucketRange Element) :
    iterate (skipEmptyBuckets it) = (it.filterMap id).map HashTableBucket.contents := by
  induction it with
  | nil => rw [skipEmptyBuckets, iterate, if_pos rfl]; rfl
  | cons b rest ih =>
    cases b with
    | none => rw [skipEmptyBuckets, ih]; rfl
    | some b =>
      rw [skipEmptyBuckets, iterate, if_neg (List.cons_ne_nil _ _), iteratorIncrement, ih]
      rfl

omit [DecidableEq Key] in
/-- **Iteration** from `begin()` to `end()` visits the elements of the occupied buckets, in
bucket order. -/
theorem iterate_iteratorBegin (t : HashTable Element) :
    iterate t.iteratorBegin = (occupied t.buckets).map HashTableBucket.contents :=
  iterate_skipEmptyBuckets _

end Wavm.HashTable
