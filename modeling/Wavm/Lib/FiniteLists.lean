import Mathlib

set_option relaxedAutoImplicit false
set_option autoImplicit false

/-!
# How many lists without repeats a finite list allows

A list without repeats whose entries are all in a list `U` is no longer than `U`, and so is
fixed by where in `U` its first `U.length + 1` entries are. A list of distinct such lists has
therefore at most `(U.length + 1) ^ (U.length + 1)` entries: a bound for loops that register
each such list once, as a subset construction registers its state sets.

## Main definitions

* `FiniteLists.code` — the positions in `U` of a list's first `U.length + 1` entries.

## Main results

* `FiniteLists.code_injective` — lists without repeats inside `U` with one code are equal.
* `FiniteLists.length_le_of_nodup` — the bound.
-/

namespace FiniteLists

variable {α : Type} [DecidableEq α]

theorem idxOf_lt_succ_length (U : List α) (x : α) : U.idxOf x < U.length + 1 :=
  Nat.lt_succ_of_le List.idxOf_le_length

/-- The code of a list: at each of the first `U.length + 1` positions, the position in `U` of
the entry there, or `U.length` past the list's end. -/
def code (U l : List α) (i : Fin (U.length + 1)) : Fin (U.length + 1) :=
  match l[i.val]? with
  | some x => ⟨U.idxOf x, idxOf_lt_succ_length U x⟩
  | none => Fin.last U.length

omit [DecidableEq α] in
/-- A list without repeats inside `U` is no longer than `U`. -/
theorem length_le {U l : List α} (hl : l.Nodup) (hsub : ∀ x ∈ l, x ∈ U) : l.length ≤ U.length :=
  (hl.subperm hsub).length_le

/-- **The code fixes the list**, among the lists without repeats inside `U`. -/
theorem code_injective {U l l' : List α} (hl : l.Nodup) (hsub : ∀ x ∈ l, x ∈ U)
    (hl' : l'.Nodup) (hsub' : ∀ x ∈ l', x ∈ U) (h : code U l = code U l') : l = l' := by
  apply List.ext_getElem?
  intro i
  by_cases hi : i < U.length + 1
  · have hcode := congrFun h ⟨i, hi⟩
    simp only [code] at hcode
    -- each entry is a position in `U`, and past the end there is none
    cases hx : l[i]? with
    | none =>
      cases hy : l'[i]? with
      | none => rfl
      | some y =>
        rw [hx, hy] at hcode
        have hy' := List.idxOf_lt_length_iff.2 (hsub' y (List.mem_of_getElem? hy))
        have := congrArg Fin.val hcode
        simp only [Fin.val_last] at this
        omega
    | some x =>
      cases hy : l'[i]? with
      | none =>
        rw [hx, hy] at hcode
        have hx' := List.idxOf_lt_length_iff.2 (hsub x (List.mem_of_getElem? hx))
        have := congrArg Fin.val hcode
        simp only [Fin.val_last] at this
        omega
      | some y =>
        rw [hx, hy, Fin.mk.injEq] at hcode
        rw [(List.idxOf_inj (hsub x (List.mem_of_getElem? hx))).1 hcode]
  · have h₁ := length_le hl hsub
    have h₂ := length_le hl' hsub'
    rw [List.getElem?_eq_none (by omega), List.getElem?_eq_none (by omega)]

/-- **The bound**: distinct lists without repeats inside `U` number at most
`(U.length + 1) ^ (U.length + 1)`. -/
theorem length_le_of_nodup {L : List (List α)} {U : List α} (hL : L.Nodup)
    (hmem : ∀ l ∈ L, l.Nodup ∧ ∀ x ∈ l, x ∈ U) : L.length ≤ (U.length + 1) ^ (U.length + 1) := by
  have hcodes : (L.map (code U)).Nodup := hL.map_on fun l hl l' hl' h =>
    code_injective (hmem l hl).1 (hmem l hl).2 (hmem l' hl').1 (hmem l' hl').2 h
  calc L.length = (L.map (code U)).length := (List.length_map _).symm
    _ ≤ Fintype.card (Fin (U.length + 1) → Fin (U.length + 1)) := hcodes.length_le_card
    _ = (U.length + 1) ^ (U.length + 1) := by rw [Fintype.card_fun, Fintype.card_fin]

end FiniteLists
