import Mathlib

set_option relaxedAutoImplicit false
set_option autoImplicit false

/-!
# While loops with fuel

`WhileLoop.run cond body fuel s` runs `while (cond(s)) s = body(s);` from `s`, testing the
condition at most `fuel` times: it returns the first state where the condition fails, or
`none` when the fuel runs out first. A loop ends when some fuel makes it return; a loop whose
condition an invariant keeps true returns `none` for every fuel, that is, it never ends.

## Main definitions

* `WhileLoop.run` — the loop, with fuel.

## Main results

* `WhileLoop.run_eq_none_of_invariant` — an invariant that implies the condition makes the
  loop run forever.
* `WhileLoop.run_of_iterate` — a loop whose condition first fails after `n` rounds returns
  `body^[n] s` for every fuel above `n`.
* `WhileLoop.run_of_variant` — a loop whose rounds keep an invariant and lower a measure ends
  for every fuel above the measure.
* `WhileLoop.run_map` — a loop that another simulates through a map returns the image of
  what the other returns.
* `WhileLoop.run_congr` — two loops that agree on the states of an invariant return the same.
* `WhileLoop.inv_of_run_eq_some` — what a loop returns keeps the invariants of its rounds.
* `WhileLoop.exists_iterate_of_run_eq_some` — what a loop returns is the first state of its
  rounds where the condition fails, and so the same for every fuel that ends it
  (`WhileLoop.run_eq_some_unique`).
-/

namespace WhileLoop

variable {σ : Type} (cond : σ → Bool) (body : σ → σ)

/-- `while (cond(s)) s = body(s);`, with at most `fuel` tests of the condition. -/
def run : ℕ → σ → Option σ
  | 0, _ => none
  | fuel + 1, s => if cond s then run fuel (body s) else some s

theorem run_succ (fuel : ℕ) (s : σ) :
    run cond body (fuel + 1) s = if cond s then run cond body fuel (body s) else some s := rfl

variable {cond body}

theorem run_succ_of_cond {fuel : ℕ} {s : σ} (h : cond s = true) :
    run cond body (fuel + 1) s = run cond body fuel (body s) := by
  rw [run_succ, if_pos h]

theorem run_succ_of_not_cond {fuel : ℕ} {s : σ} (h : cond s = false) :
    run cond body (fuel + 1) s = some s := by
  rw [run_succ, if_neg (by simp [h])]

/-- **A loop whose condition an invariant keeps true never ends**: no fuel suffices. -/
theorem run_eq_none_of_invariant (Inv : σ → Prop) (hcond : ∀ s, Inv s → cond s = true)
    (hbody : ∀ s, Inv s → Inv (body s)) : ∀ (fuel : ℕ) (s : σ), Inv s → run cond body fuel s = none
  | 0, _, _ => rfl
  | fuel + 1, s, hs => by
    rw [run_succ_of_cond (hcond s hs)]
    exact run_eq_none_of_invariant Inv hcond hbody fuel (body s) (hbody s hs)

/-- **A loop ends after its `n`-th round** when the condition holds before each of the first
`n` rounds and fails after them; any fuel above `n` suffices. -/
theorem run_of_iterate {n : ℕ} {s : σ} (hcond : ∀ k < n, cond (body^[k] s) = true)
    (hstop : cond (body^[n] s) = false) :
    ∀ fuel, n < fuel → run cond body fuel s = some (body^[n] s) := by
  induction n generalizing s with
  | zero =>
    intro fuel hfuel
    obtain ⟨fuel, rfl⟩ := Nat.exists_eq_add_one_of_ne_zero (Nat.pos_iff_ne_zero.1 hfuel)
    exact run_succ_of_not_cond hstop
  | succ n ih =>
    intro fuel hfuel
    obtain ⟨fuel, rfl⟩ := Nat.exists_eq_add_one_of_ne_zero (by omega : fuel ≠ 0)
    -- the first round runs, and the rest of the loop starts from `body s`
    have h0 : cond s = true := hcond 0 (Nat.succ_pos n)
    rw [run_succ_of_cond h0]
    exact ih (fun k hk => hcond (k + 1) (by omega)) hstop fuel (by omega)

/-- **A loop with a variant ends**: when every round that runs from a state of the invariant
keeps the invariant and lowers a measure, any fuel above the measure ends the loop, at a state
of the invariant where the condition fails. -/
theorem run_of_variant (Inv : σ → Prop) (μ : σ → ℕ)
    (hbody : ∀ s, Inv s → cond s = true → Inv (body s) ∧ μ (body s) < μ s) :
    ∀ (fuel : ℕ) (s : σ), Inv s → μ s < fuel →
      ∃ t, run cond body fuel s = some t ∧ Inv t ∧ cond t = false
  | 0, _, _, hfuel => absurd hfuel (Nat.not_lt_zero _)
  | fuel + 1, s, hs, hfuel => by
    cases hc : cond s
    · exact ⟨s, run_succ_of_not_cond hc, hs, hc⟩
    · obtain ⟨hinv, hlt⟩ := hbody s hs hc
      rw [run_succ_of_cond hc]
      exact run_of_variant Inv μ hbody fuel (body s) hinv (by omega)

/-- **A loop simulates another through a map** that sends tests to tests and rounds to rounds:
from the image of a state, it returns the image of what the other returns. -/
theorem run_map {τ : Type} {cond' : τ → Bool} {body' : τ → τ} (f : σ → τ)
    (hcond : ∀ s, cond' (f s) = cond s) (hbody : ∀ s, body' (f s) = f (body s)) :
    ∀ (fuel : ℕ) (s : σ), run cond' body' fuel (f s) = (run cond body fuel s).map f
  | 0, _ => rfl
  | fuel + 1, s => by
    cases hc : cond s
    · rw [run_succ_of_not_cond hc, run_succ_of_not_cond ((hcond s).trans hc), Option.map_some]
    · rw [run_succ_of_cond hc, run_succ_of_cond ((hcond s).trans hc), hbody]
      exact run_map f hcond hbody fuel (body s)

/-- **Loops that agree on an invariant return the same**: two loops with the same tests and
rounds on the states of an invariant that their rounds keep. -/
theorem run_congr {cond' : σ → Bool} {body' : σ → σ} (Inv : σ → Prop)
    (hcond : ∀ s, Inv s → cond' s = cond s)
    (hbody : ∀ s, Inv s → cond s = true → body' s = body s ∧ Inv (body s)) :
    ∀ (fuel : ℕ) (s : σ), Inv s → run cond' body' fuel s = run cond body fuel s
  | 0, _, _ => rfl
  | fuel + 1, s, hs => by
    cases hc : cond s
    · rw [run_succ_of_not_cond hc, run_succ_of_not_cond ((hcond s hs).trans hc)]
    · obtain ⟨heq, hinv⟩ := hbody s hs hc
      rw [run_succ_of_cond hc, run_succ_of_cond ((hcond s hs).trans hc), heq]
      exact run_congr Inv hcond hbody fuel (body s) hinv

/-- **What a loop returns** is reached after some number of rounds below the fuel, before each
of which the condition held, and the condition fails there. -/
theorem exists_iterate_of_run_eq_some {fuel : ℕ} {s t : σ} (h : run cond body fuel s = some t) :
    ∃ n < fuel, t = body^[n] s ∧ (∀ k < n, cond (body^[k] s) = true) ∧ cond t = false := by
  induction fuel generalizing s with
  | zero => cases h
  | succ fuel ih =>
    cases hs : cond s
    · rw [run_succ_of_not_cond hs, Option.some.injEq] at h
      subst h
      exact ⟨0, Nat.succ_pos fuel, rfl, fun k hk => absurd hk (Nat.not_lt_zero k), hs⟩
    · rw [run_succ_of_cond hs] at h
      obtain ⟨n, hn, rfl, hbefore, hstop⟩ := ih h
      refine ⟨n + 1, by omega, rfl, fun k hk => ?_, hstop⟩
      cases k with
      | zero => exact hs
      | succ k => exact hbefore k (by omega)

/-- **What a loop returns keeps an invariant** that holds before it and that every round keeps. -/
theorem inv_of_run_eq_some (Inv : σ → Prop) (hbody : ∀ s, Inv s → cond s = true → Inv (body s)) :
    ∀ {fuel : ℕ} {s t : σ}, run cond body fuel s = some t → Inv s → Inv t
  | 0, _, _, h, _ => by cases h
  | fuel + 1, s, t, h, hs => by
    cases hc : cond s
    · rw [run_succ_of_not_cond hc, Option.some.injEq] at h
      exact h ▸ hs
    · rw [run_succ_of_cond hc] at h
      exact inv_of_run_eq_some Inv hbody h (hbody s hs hc)

/-- A loop ends in one state only: any two fuels that end it give the same result. -/
theorem run_eq_some_unique {fuel fuel' : ℕ} {s t t' : σ} (h : run cond body fuel s = some t)
    (h' : run cond body fuel' s = some t') : t = t' := by
  obtain ⟨n, -, rfl, hbefore, hstop⟩ := exists_iterate_of_run_eq_some h
  obtain ⟨n', -, rfl, hbefore', hstop'⟩ := exists_iterate_of_run_eq_some h'
  -- each loop stops at the first round where the condition fails
  rcases Nat.lt_trichotomy n n' with hlt | rfl | hgt
  · rw [hbefore' n hlt] at hstop
    cases hstop
  · rfl
  · rw [hbefore n' hgt] at hstop'
    cases hstop'

end WhileLoop
