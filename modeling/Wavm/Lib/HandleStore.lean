import Mathlib

set_option relaxedAutoImplicit false
set_option autoImplicit false

/-!
# Handle stores

A store of objects addressed by handles: a list of slots, where a slot is `none` once its
object is freed. Allocation appends a slot, so a handle is never reused. Two facts about a
store are tracked through allocation, replacement and freeing: a weight summed over its live
objects (the amount of a resource they hold), and a property that every live object has.

## Main definitions

* `HandleStore.weight` — the sum of a weight over the live objects of a store.
* `HandleStore.AllLive` — every live object satisfies a property.

## Main results

* `HandleStore.weight_push`, `HandleStore.weight_set` — how allocation and replacement (freeing
  included) move the weight.
* `HandleStore.le_weight` — one live object's weight is at most the total.
* `HandleStore.AllLive.push`, `HandleStore.AllLive.set` — the property survives both.
-/

namespace HandleStore

variable {α : Type*}

/-- The weight of a slot: that of its object, `0` once freed. -/
def slotWeight (w : α → ℕ) (slot : Option α) : ℕ :=
  (slot.map w).getD 0

@[simp] theorem slotWeight_none (w : α → ℕ) : slotWeight w none = 0 := rfl

@[simp] theorem slotWeight_some (w : α → ℕ) (a : α) : slotWeight w (some a) = w a := rfl

/-- The sum of `w` over the live objects of the store. -/
def weight (w : α → ℕ) (store : List (Option α)) : ℕ :=
  (store.map (slotWeight w)).sum

@[simp] theorem weight_nil (w : α → ℕ) : weight w [] = 0 := rfl

theorem weight_push (w : α → ℕ) (store : List (Option α)) (slot : Option α) :
    weight w (store ++ [slot]) = weight w store + slotWeight w slot := by
  simp [weight]

/-- **Replacing a slot** moves the weight by the difference of the two slots' weights. -/
theorem weight_set (w : α → ℕ) {store : List (Option α)} {i : ℕ} {slot : Option α}
    (h : store[i]? = some slot) (slot' : Option α) :
    weight w (store.set i slot') + slotWeight w slot = weight w store + slotWeight w slot' := by
  induction store generalizing i with
  | nil => simp at h
  | cons head rest ih =>
    cases i with
    | zero =>
      simp only [List.getElem?_cons_zero, Option.some.injEq] at h
      subst h
      simp only [weight, List.set_cons_zero, List.map_cons, List.sum_cons]
      omega
    | succ i =>
      simp only [List.getElem?_cons_succ] at h
      have := ih h
      simp only [weight, List.set_cons_succ, List.map_cons, List.sum_cons] at this ⊢
      omega

/-- One live object's weight is at most the total. -/
theorem le_weight (w : α → ℕ) {store : List (Option α)} {i : ℕ} {a : α} (h : store[i]? = some (some a)) :
    w a ≤ weight w store :=
  List.le_sum_of_mem (List.mem_map.2 ⟨some a, List.mem_of_getElem? h, rfl⟩)

/-- Every live object of the store satisfies `P`. -/
def AllLive (P : α → Prop) (store : List (Option α)) : Prop :=
  ∀ (i : ℕ) (a : α), store[i]? = some (some a) → P a

theorem allLive_nil (P : α → Prop) : AllLive P [] := by
  intro i a h
  simp at h

theorem AllLive.push {P : α → Prop} {store : List (Option α)} (h : AllLive P store) {slot : Option α}
    (hslot : ∀ a, slot = some a → P a) : AllLive P (store ++ [slot]) := by
  intro i a hi
  rcases Nat.lt_or_ge i store.length with hlt | hge
  · rw [List.getElem?_append_left hlt] at hi
    exact h i a hi
  · rw [List.getElem?_append_right hge] at hi
    obtain ⟨hlt, hslot'⟩ := List.getElem?_eq_some_iff.1 hi
    rw [List.getElem_singleton] at hslot'
    exact hslot a hslot'

theorem AllLive.set {P : α → Prop} {store : List (Option α)} (h : AllLive P store) (i : ℕ)
    {slot : Option α} (hslot : ∀ a, slot = some a → P a) : AllLive P (store.set i slot) := by
  intro j a hj
  rw [List.getElem?_set] at hj
  by_cases hij : i = j
  · rw [if_pos hij] at hj
    by_cases hlt : i < store.length
    · rw [if_pos hlt] at hj
      exact hslot a (Option.some.inj hj)
    · rw [if_neg hlt] at hj
      cases hj
  · rw [if_neg hij] at hj
    exact h j a hj

end HandleStore
