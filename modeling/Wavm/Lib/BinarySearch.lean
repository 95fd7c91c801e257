import Mathlib
import Wavm.Lib.WhileLoop

set_option relaxedAutoImplicit false
set_option autoImplicit false

/-!
# Binary search for the last value at most a key

`BinarySearch.body f x` is one round of a search of a range `[min, max]` of indices of a
sequence `f`: it compares `x` with the value at the upper median `(min + max + 1) / 2` and keeps
the part of the range below the median, the part from the median on, or the median alone when
its value is `x`. Run by `WhileLoop.run` while the range has more than one index, from
`(lo, top)` with `f lo ≤ x`, over a sequence strictly increasing up to `top`, it ends on the last
index up to `top` whose value is at most `x`.

## Main definitions

* `BinarySearch.cond`, `BinarySearch.body` — the loop's test and its round.
* `BinarySearch.IsLastLE` — `i` is the last index up to `top` whose value is at most `x`.
* `BinarySearch.Inv` — what every round keeps of the range.

## Main results

* `BinarySearch.body_inv`, `BinarySearch.width_body_lt` — a round keeps the invariant and
  narrows the range.
* `BinarySearch.run_eq_some` — the search ends, on the last index whose value is at most `x`.
* `BinarySearch.IsLastLE.unique` — there is one such index.
-/

namespace BinarySearch

variable {α : Type} [LinearOrder α] (f : ℕ → α) (x : α)

/-- The loop's test: the range `[min, max]` has more than one index. -/
def cond (s : ℕ × ℕ) : Bool := decide (s.1 < s.2)

/-- One round: compare `x` with the value at the upper median. -/
def body (s : ℕ × ℕ) : ℕ × ℕ :=
  let median := (s.1 + s.2 + 1) / 2
  if x < f median then (s.1, median - 1)
  else if f median < x then (median, s.2)
  else (median, median)

/-- `i` is the last index up to `top` whose value is at most `x`. -/
def IsLastLE (top i : ℕ) : Prop := i ≤ top ∧ f i ≤ x ∧ (i = top ∨ x < f (i + 1))

/-- What the range keeps: it is not empty, the value at its lower end is at most `x`, and the
value past its upper end, if that is still at most `top`, is above `x`. -/
structure Inv (top : ℕ) (s : ℕ × ℕ) : Prop where
  le : s.1 ≤ s.2
  le_top : s.2 ≤ top
  lower : f s.1 ≤ x
  upper : s.2 = top ∨ x < f (s.2 + 1)

/-- The width of the range, which every round lowers. -/
def width (s : ℕ × ℕ) : ℕ := s.2 - s.1

variable {f x}

theorem cond_eq_true {s : ℕ × ℕ} : cond s = true ↔ s.1 < s.2 := by
  simp [cond]

/-- The upper median of a range of more than one index is past its lower end. -/
theorem median_mem {s : ℕ × ℕ} (h : s.1 < s.2) :
    s.1 < (s.1 + s.2 + 1) / 2 ∧ (s.1 + s.2 + 1) / 2 ≤ s.2 := by
  omega

theorem width_body_lt {s : ℕ × ℕ} (h : s.1 < s.2) : width (body f x s) < width s := by
  have hm := median_mem h
  dsimp only [body, width]
  split_ifs <;> omega

section Increasing

variable {top : ℕ} (hmono : StrictMonoOn f (Set.Iic top))
include hmono

theorem body_inv {s : ℕ × ℕ} (hs : Inv f x top s) (h : s.1 < s.2) : Inv f x top (body f x s) := by
  obtain ⟨hlo, hhi⟩ := median_mem h
  have htop := hs.le_top
  dsimp only [body]
  by_cases hlt : x < f ((s.1 + s.2 + 1) / 2)
  · -- everything from the median on is above `x`
    rw [if_pos hlt]
    refine ⟨by omega, by omega, hs.lower, .inr ?_⟩
    rwa [Nat.sub_add_cancel (by omega)]
  · by_cases hgt : f ((s.1 + s.2 + 1) / 2) < x
    · rw [if_neg hlt, if_pos hgt]
      exact ⟨hhi, hs.le_top, hgt.le, hs.upper⟩
    · -- the median's value is `x`, and the next one is above it
      rw [if_neg hlt, if_neg hgt]
      have heq : f ((s.1 + s.2 + 1) / 2) = x := le_antisymm (not_lt.1 hlt) (not_lt.1 hgt)
      refine ⟨le_rfl, by omega, heq.le, ?_⟩
      rcases Nat.lt_or_ge ((s.1 + s.2 + 1) / 2) top with htop | htop
      · refine .inr (heq ▸ hmono ?_ ?_ (Nat.lt_succ_self _))
        · exact Set.mem_Iic.2 (by omega)
        · exact Set.mem_Iic.2 htop
      · exact .inl (by omega)

/-- **The search ends on the last value at most `x`**, for every fuel above the width of the
range it starts from. -/
theorem run_eq_some {lo : ℕ} (hlo : f lo ≤ x) (hle : lo ≤ top) {fuel : ℕ} (hfuel : top - lo < fuel) :
    ∃ i, WhileLoop.run cond (body f x) fuel (lo, top) = some (i, i) ∧ IsLastLE f x top i := by
  have hstep : ∀ s, Inv f x top s → cond s = true →
      Inv f x top (body f x s) ∧ width (body f x s) < width s := fun s hs hc =>
    ⟨body_inv hmono hs (cond_eq_true.1 hc), width_body_lt (cond_eq_true.1 hc)⟩
  obtain ⟨⟨i, j⟩, hrun, hinv, hstop⟩ :=
    WhileLoop.run_of_variant (Inv f x top) width hstep fuel (lo, top) ⟨hle, le_rfl, hlo, .inl rfl⟩
      hfuel
  -- the loop stops on a range of one index
  have hij : i = j := le_antisymm hinv.le (not_lt.1 (by simpa [cond] using hstop))
  subst hij
  exact ⟨i, hrun, hinv.le_top, hinv.lower, hinv.upper⟩

/-- There is one last index up to `top` whose value is at most `x`. -/
theorem IsLastLE.unique {i j : ℕ} (hi : IsLastLE f x top i) (hj : IsLastLE f x top j) :
    i = j := by
  by_contra hne
  wlog hlt : i < j generalizing i j
  · exact this hj hi (Ne.symm hne) (by omega)
  obtain ⟨-, -, hup⟩ := hi
  rcases hup with rfl | hup
  · exact absurd hj.1 (by omega)
  · -- the value past `i` is above `x`, and the value at `j` is not below it
    have hle : f (i + 1) ≤ f j :=
      hmono.monotoneOn (Set.mem_Iic.2 (by have := hj.1; omega)) (Set.mem_Iic.2 hj.1) hlt
    exact absurd hj.2.1 (not_le.2 (lt_of_lt_of_le hup hle))

end Increasing

end BinarySearch
