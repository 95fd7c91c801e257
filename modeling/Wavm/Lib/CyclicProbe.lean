import Mathlib

set_option relaxedAutoImplicit false
set_option autoImplicit false

/-!
# Probing a cyclic interval of fixed-width integers

An allocator that hands out indices of an interval `[lo, hi]` tries `last + 1`, `last + 2`,
…, wrapping from `hi` back to `lo`, until it finds one that is not in use. The loop is stated
here for any successor function, with an explicit bound on its rounds. Over the cyclic
successor of an interval of fixed-width integers its rounds visit every index of the interval
within `hi - lo + 1` rounds, so the loop finds a free index exactly when there is one and runs
forever otherwise.

## Main definitions

* `FixedWidth` — an unsigned integer type of `width` bits, known through its value.
* `Probe.probe` — the first of `next b`, `next (next b)`, … that is not `used`, within
  `fuel` rounds.
* `FixedWidth.cyclicSucc` — the successor in the interval `[lo, hi]`, and
  `FixedWidth.count`, the number of its indices.

## Main results

* `Probe.probe_spec` — what the loop returns was probed and is free.
* `Probe.probe_eq_of_first` — the loop returns the first free probe.
* `Probe.probe_eq_none_of_forall_used` — when every probe is in use, no bound ends the loop.
* `FixedWidth.toNat_sub_add_one` — `hi - lo + 1` computed in the type is the number of
  indices.
* `FixedWidth.toNat_cyclicSucc_iterate` — the `k`-th probe of a cyclic interval, as a number.
* `FixedWidth.exists_cyclicSucc_iterate_eq` — every index of the interval is probed within
  `count lo hi` rounds.
* `FixedWidth.probe_cyclicSucc_eq_none_iff` — probing for `count lo hi` rounds fails exactly
  when every index of the interval is in use.

## Implementation notes

The interval must not reach the top of the type (`hi + 1 < 2 ^ width`), so that `hi + 1`
does not wrap. The start may be `lo - 1`, which wraps when `lo = 0`: it is what an allocator
holds before its first round, and its successor is `lo`, as that of `hi` is.
-/

/-- An unsigned integer type of `width` bits: its values are the naturals below
`2 ^ width`, and its addition and subtraction wrap modulo `2 ^ width`. -/
class FixedWidth (α : Type) [Add α] [Sub α] [One α] [LT α] where
  width : ℕ
  toNat : α → ℕ
  toNat_lt (a : α) : toNat a < 2 ^ width
  toNat_inj {a b : α} : toNat a = toNat b → a = b
  toNat_one : toNat 1 = 1
  toNat_add (a b : α) : toNat (a + b) = (toNat a + toNat b) % 2 ^ width
  toNat_sub (a b : α) : toNat (a - b) = (2 ^ width - toNat b + toNat a) % 2 ^ width
  lt_iff_toNat_lt {a b : α} : a < b ↔ toNat a < toNat b

instance : FixedWidth UInt32 where
  width := 32
  toNat := UInt32.toNat
  toNat_lt := UInt32.toNat_lt
  toNat_inj := UInt32.toNat_inj.1
  toNat_one := UInt32.toNat_one
  toNat_add := UInt32.toNat_add
  toNat_sub := UInt32.toNat_sub
  lt_iff_toNat_lt := UInt32.lt_iff_toNat_lt

instance : FixedWidth UInt64 where
  width := 64
  toNat := UInt64.toNat
  toNat_lt := UInt64.toNat_lt
  toNat_inj := UInt64.toNat_inj.1
  toNat_one := UInt64.toNat_one
  toNat_add := UInt64.toNat_add
  toNat_sub := UInt64.toNat_sub
  lt_iff_toNat_lt := UInt64.lt_iff_toNat_lt

/-! ## The probe loop -/

namespace Probe

variable {β : Type} (next : β → β) (used : β → Bool)

/-- Probe `next b`, `next (next b)`, … for a value that is not `used`, for at most `fuel`
rounds; `none` when every round found its probe in use. -/
def probe : ℕ → β → Option β
  | 0, _ => none
  | fuel + 1, b => if used (next b) then probe fuel (next b) else some (next b)

theorem probe_succ (fuel : ℕ) (b : β) :
    probe next used (fuel + 1) b =
      if used (next b) then probe next used fuel (next b) else some (next b) := rfl

variable {next used}

/-- **What the loop returns** is free, and is the probe of a round `k` within the bound. -/
theorem probe_spec {fuel : ℕ} {b c : β} (h : probe next used fuel b = some c) :
    used c = false ∧ ∃ k, 1 ≤ k ∧ k ≤ fuel ∧ c = next^[k] b := by
  induction fuel generalizing b with
  | zero => cases h
  | succ fuel ih =>
    rw [probe_succ] at h
    by_cases hu : used (next b) = true
    · -- the probe is in use: the rest of the loop starts from it
      rw [if_pos hu] at h
      obtain ⟨hc, k, hk, hkf, rfl⟩ := ih h
      exact ⟨hc, k + 1, by omega, by omega, (Function.iterate_succ_apply next k b).symm⟩
    · rw [if_neg hu] at h
      obtain rfl := Option.some.inj h
      exact ⟨by simpa using hu, 1, Nat.le_refl _, by omega, rfl⟩

/-- **The loop returns the first free probe**, when it comes within the bound. -/
theorem probe_eq_of_first {fuel k : ℕ} {b : β} (hk : 1 ≤ k) (hfuel : k ≤ fuel)
    (hfree : used (next^[k] b) = false) (hused : ∀ j, 1 ≤ j → j < k → used (next^[j] b) = true) :
    probe next used fuel b = some (next^[k] b) := by
  induction fuel generalizing b k with
  | zero => omega
  | succ fuel ih =>
    rw [probe_succ]
    obtain rfl | hk2 := Nat.eq_or_lt_of_le hk
    · rw [if_neg (by simpa using hfree)]
      rfl
    · -- the first probe is in use, and the free one comes `k - 1` rounds after it
      have hk' : k = (k - 1) + 1 := by omega
      rw [if_pos (show used (next b) = true from hused 1 (Nat.le_refl 1) hk2)]
      rw [hk', Function.iterate_succ_apply] at hfree ⊢
      refine ih (by omega) (by omega) hfree fun j hj hjk => ?_
      rw [← Function.iterate_succ_apply]
      exact hused (j + 1) (by omega) (by omega)

/-- The loop ends with a free probe when some round within the bound probes a free value. -/
theorem probe_isSome_of_free {fuel k : ℕ} {b : β} (hk : 1 ≤ k) (hfuel : k ≤ fuel)
    (hfree : used (next^[k] b) = false) : (probe next used fuel b).isSome := by
  induction fuel generalizing b k with
  | zero => omega
  | succ fuel ih =>
    rw [probe_succ]
    by_cases hu : used (next b) = true
    · -- round `1` is in use, so the free round is a later one
      have hk2 : 2 ≤ k := by
        by_contra hlt
        obtain rfl : k = 1 := by omega
        simp [hu] at hfree
      have hk' : k = (k - 1) + 1 := by omega
      rw [if_pos hu]
      rw [hk', Function.iterate_succ_apply] at hfree
      exact ih (by omega) (by omega) hfree
    · rw [if_neg hu]
      rfl

/-- **When every probe is in use, no bound ends the loop**: the source's unbounded loop
never exits. -/
theorem probe_eq_none_of_forall_used {b : β} (h : ∀ k, 1 ≤ k → used (next^[k] b) = true)
    (fuel : ℕ) : probe next used fuel b = none := by
  induction fuel generalizing b with
  | zero => rfl
  | succ fuel ih =>
    rw [probe_succ, if_pos (show used (next b) = true from h 1 (Nat.le_refl 1))]
    refine ih fun k hk => ?_
    rw [← Function.iterate_succ_apply]
    exact h (k + 1) (by omega)

end Probe

/-! ## Probing a cyclic interval -/

namespace FixedWidth

variable {α : Type} [Add α] [Sub α] [One α] [LT α] [FixedWidth α]

theorem toNat_add_one {a : α} (h : toNat a + 1 < 2 ^ width α) : toNat (a + 1) = toNat a + 1 := by
  rw [toNat_add, toNat_one, Nat.mod_eq_of_lt h]

/-- `lo - 1 + 1 = lo`, also when `lo - 1` wraps. -/
theorem sub_one_add_one (lo : α) : lo - 1 + 1 = lo := by
  apply toNat_inj
  have hlo := toNat_lt lo
  have hpos : 0 < 2 ^ width α := Nat.two_pow_pos _
  rw [toNat_add, toNat_sub, toNat_one]
  rcases Nat.eq_zero_or_pos (toNat lo) with h0 | hpos'
  · -- `lo = 0`: `lo - 1` is the top of the type, and `+ 1` wraps to `0`
    have hinner : (2 ^ width α - 1 + toNat lo) % 2 ^ width α = 2 ^ width α - 1 := by
      rw [h0]
      exact Nat.mod_eq_of_lt (by omega)
    rw [hinner, Nat.sub_add_cancel hpos, Nat.mod_self, h0]
  · have hinner : (2 ^ width α - 1 + toNat lo) % 2 ^ width α = toNat lo - 1 := by
      have hwrap : 2 ^ width α - 1 + toNat lo = (toNat lo - 1) + 2 ^ width α := by omega
      rw [hwrap, Nat.add_mod_right]
      exact Nat.mod_eq_of_lt (by omega)
    rw [hinner, Nat.sub_add_cancel hpos']
    exact Nat.mod_eq_of_lt hlo

/-- The number of indices of `[lo, hi]`. -/
def count (lo hi : α) : ℕ :=
  toNat hi - toNat lo + 1

theorem count_pos {lo hi : α} : 0 < count lo hi := Nat.succ_pos _

variable [∀ a b : α, Decidable (a < b)]

/-- The successor of `i` in the cyclic interval `[lo, hi]`: `i + 1`, and `lo` past `hi`. -/
def cyclicSucc (lo hi i : α) : α :=
  if i + 1 > hi then lo else i + 1

section Cycle

variable {lo hi : α} (hle : toNat lo ≤ toNat hi) (htop : toNat hi + 1 < 2 ^ width α)
include hle htop

/-- **One round inside the interval**: the successor is the next offset from `lo`, taken
modulo the number of indices. -/
theorem toNat_cyclicSucc {i : α} (hlo : toNat lo ≤ toNat i) (hhi : toNat i ≤ toNat hi) :
    toNat (cyclicSucc lo hi i) = toNat lo + (toNat i - toNat lo + 1) % count lo hi := by
  have hsucc : toNat (i + 1) = toNat i + 1 := toNat_add_one (by omega)
  unfold cyclicSucc count
  by_cases hwrap : i + 1 > hi
  · -- `i = hi`: back to `lo`, the offset `count` being `0` modulo `count`
    have heq : toNat i = toNat hi := by
      have := lt_iff_toNat_lt.1 hwrap
      omega
    rw [if_pos hwrap, heq, Nat.mod_self, Nat.add_zero]
  · have hlt : toNat i + 1 ≤ toNat hi := by
      have := mt lt_iff_toNat_lt.2 hwrap
      omega
    rw [if_neg hwrap, hsucc, Nat.mod_eq_of_lt (by omega)]
    omega

/-- **The `k`-th round from an index of the interval** is at offset `i - lo + k` from `lo`,
modulo the number of indices. -/
theorem toNat_cyclicSucc_iterate {i : α} (hlo : toNat lo ≤ toNat i) (hhi : toNat i ≤ toNat hi)
    (k : ℕ) :
    toNat ((cyclicSucc lo hi)^[k] i) = toNat lo + (toNat i - toNat lo + k) % count lo hi := by
  have hcount : toNat i - toNat lo < count lo hi := by unfold count; omega
  induction k with
  | zero => rw [Function.iterate_zero_apply, Nat.add_zero, Nat.mod_eq_of_lt hcount]; omega
  | succ k ih =>
    -- the `k`-th probe is inside the interval, so one more round moves its offset by one
    have hpos : 0 < count lo hi := count_pos
    have hmod := Nat.mod_lt (toNat i - toNat lo + k) hpos
    have hcount : count lo hi = toNat hi - toNat lo + 1 := rfl
    have hin : toNat ((cyclicSucc lo hi)^[k] i) ≤ toNat hi := by omega
    rw [Function.iterate_succ_apply', toNat_cyclicSucc hle htop (by omega) hin, ih,
      Nat.add_sub_cancel_left, ← Nat.add_assoc, Nat.mod_add_mod]

omit [∀ a b : α, Decidable (a < b)] in
/-- The number of indices, computed in the type as `hi - lo + 1`, does not wrap. -/
theorem toNat_sub_add_one : toNat (hi - lo + 1) = count lo hi := by
  have hsub : toNat (hi - lo) = toNat hi - toNat lo := by
    have hwrap : 2 ^ width α - toNat lo + toNat hi = (toNat hi - toNat lo) + 2 ^ width α := by
      have := toNat_lt lo
      omega
    rw [toNat_sub, hwrap, Nat.add_mod_right, Nat.mod_eq_of_lt (by omega)]
  rw [toNat_add_one (by omega), hsub]
  rfl

omit htop in
/-- The successor of `lo - 1` is `lo`. -/
theorem cyclicSucc_sub_one : cyclicSucc lo hi (lo - 1) = lo := by
  unfold cyclicSucc
  rw [sub_one_add_one, if_neg (mt lt_iff_toNat_lt.1 (by omega))]

/-- The indices an allocator may hold: `lo - 1` before its first round, and then those of
the interval. -/
def InCycle (lo hi i : α) : Prop :=
  i = lo - 1 ∨ (toNat lo ≤ toNat i ∧ toNat i ≤ toNat hi)

/-- **Every round lands in the interval**, from any index an allocator may hold. -/
theorem cyclicSucc_iterate_mem {i : α} (hc : InCycle lo hi i) {k : ℕ} (hk : 1 ≤ k) :
    toNat lo ≤ toNat ((cyclicSucc lo hi)^[k] i) ∧ toNat ((cyclicSucc lo hi)^[k] i) ≤ toNat hi := by
  have hmod : ∀ n, n % count lo hi < count lo hi := fun n => Nat.mod_lt n count_pos
  have hcount : count lo hi = toNat hi - toNat lo + 1 := rfl
  rcases hc with rfl | ⟨hlo, hhi⟩
  · -- the first round reaches `lo`, the others follow from there
    have hk' : k = (k - 1) + 1 := by omega
    rw [hk', Function.iterate_succ_apply, cyclicSucc_sub_one hle,
      toNat_cyclicSucc_iterate hle htop (Nat.le_refl _) hle]
    have := hmod (toNat lo - toNat lo + (k - 1))
    omega
  · rw [toNat_cyclicSucc_iterate hle htop hlo hhi]
    have := hmod (toNat i - toNat lo + k)
    omega

/-- **Every index of the interval is probed** within `count lo hi` rounds, from any index an
allocator may hold. -/
theorem exists_cyclicSucc_iterate_eq {i j : α} (hc : InCycle lo hi i) (hjlo : toNat lo ≤ toNat j)
    (hjhi : toNat j ≤ toNat hi) :
    ∃ k, 1 ≤ k ∧ k ≤ count lo hi ∧ (cyclicSucc lo hi)^[k] i = j := by
  -- from an index of the interval at offset `p`, the offset `d` of `j` comes after
  -- `d - p` rounds, or after `d + count - p` once the cycle wraps
  have hfrom : ∀ {i : α}, toNat lo ≤ toNat i → toNat i ≤ toNat hi →
      ∃ k, 1 ≤ k ∧ k ≤ count lo hi ∧ (cyclicSucc lo hi)^[k] i = j := by
    intro i hlo hhi
    have hcount : count lo hi = toNat hi - toNat lo + 1 := rfl
    by_cases hlt : toNat i < toNat j
    · refine ⟨toNat j - toNat i, by omega, by omega, toNat_inj ?_⟩
      rw [toNat_cyclicSucc_iterate hle htop hlo hhi, Nat.mod_eq_of_lt (by omega)]
      omega
    · refine ⟨toNat j - toNat lo + count lo hi - (toNat i - toNat lo), by omega, by omega,
        toNat_inj ?_⟩
      have hsum : toNat i - toNat lo + (toNat j - toNat lo + count lo hi - (toNat i - toNat lo)) =
          (toNat j - toNat lo) + count lo hi := by omega
      rw [toNat_cyclicSucc_iterate hle htop hlo hhi, hsum, Nat.add_mod_right,
        Nat.mod_eq_of_lt (by omega)]
      omega
  rcases hc with rfl | ⟨hlo, hhi⟩
  · -- from `lo - 1`, the rounds are those from `hi`, whose successor is also `lo`
    obtain ⟨k, hk, hkc, hkj⟩ := hfrom (i := hi) hle (Nat.le_refl _)
    refine ⟨k, hk, hkc, ?_⟩
    have hk' : k = (k - 1) + 1 := by omega
    have hhi : cyclicSucc lo hi hi = lo := by
      unfold cyclicSucc
      rw [if_pos (lt_iff_toNat_lt.2 (by rw [toNat_add_one htop]; omega))]
    rw [hk', Function.iterate_succ_apply] at hkj ⊢
    rw [cyclicSucc_sub_one hle]
    rw [hhi] at hkj
    exact hkj
  · exact hfrom hlo hhi

/-- **Probing an interval for `count lo hi` rounds fails exactly when every index of the
interval is in use**; and then no bound on the rounds ends the loop. -/
theorem probe_cyclicSucc_eq_none_iff {used : α → Bool} {i : α} (hc : InCycle lo hi i) :
    Probe.probe (cyclicSucc lo hi) used (count lo hi) i = none ↔
      ∀ j : α, toNat lo ≤ toNat j → toNat j ≤ toNat hi → used j = true := by
  constructor
  · intro hnone j hjlo hjhi
    by_contra hfree
    obtain ⟨k, hk, hkc, rfl⟩ := exists_cyclicSucc_iterate_eq hle htop hc hjlo hjhi
    have hsome := Probe.probe_isSome_of_free hk hkc (by simpa using hfree)
    rw [hnone] at hsome
    cases hsome
  · intro hall
    refine Probe.probe_eq_none_of_forall_used (fun k hk => ?_) _
    obtain ⟨hklo, hkhi⟩ := cyclicSucc_iterate_mem hle htop hc hk
    exact hall _ hklo hkhi

end Cycle

end FixedWidth
