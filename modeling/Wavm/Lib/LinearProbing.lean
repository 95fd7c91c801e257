import Mathlib

set_option relaxedAutoImplicit false
set_option autoImplicit false

/-!
# Robin Hood linear probing

The mathematics of a Robin Hood hash table over a ring of `n` slots, independent of any
implementation. A slot function `slot : ℕ → Option E` gives the element stored at each
position below `n`, and `home e < n` is the slot an element hashes to. The *probe distance*
of an element at `x` is the number of steps from its home forward to `x`.

The table is *ordered* when every element away from its home has an occupied predecessor
whose probe distance is at least one less. From this local condition follows the chain
property behind every search: all slots from an element's home up to the element are
occupied, by elements at least as far from their own homes (`Ordered.chain`). An insertion
that places a new element where a search stops, moving the run of elements after it one
step right (`shiftInsert`), and a deletion that moves the run of displaced elements after
it one step left (`shiftErase`), keep the table ordered (`ordered_shiftInsert`,
`ordered_shiftErase`).

## Main definitions

* `LinearProbing.next`, `prev`, `offset`, `dist` — position arithmetic modulo `n`.
* `LinearProbing.probeDistance`, `LinearProbing.Ordered`.
* `LinearProbing.shiftInsert`, `LinearProbing.shiftErase` — the slots after an insertion
  and after a deletion.

## Main results

* `LinearProbing.Ordered.chain` — the slots between an element's home and its slot are
  occupied by elements at least as displaced.
* `LinearProbing.Ordered.probeDistance_lt` — with a free slot, no element is `n - 1` away.
* `LinearProbing.ordered_shiftInsert`, `LinearProbing.ordered_shiftErase`.
-/

namespace LinearProbing

/-! ## Positions modulo `n` -/

section Ring

variable {n : ℕ}

/-- The slot after `x`. -/
def next (n x : ℕ) : ℕ := (x + 1) % n

/-- The slot before `x`. -/
def prev (n x : ℕ) : ℕ := (x + n - 1) % n

/-- The slot `q` steps after `a`. -/
def offset (n a q : ℕ) : ℕ := (a + q) % n

/-- The number of steps forward from `a` to `b`. -/
def dist (n a b : ℕ) : ℕ := (b + n - a) % n

theorem next_eq {x : ℕ} (hx : x < n) : next n x = if x + 1 < n then x + 1 else 0 := by
  unfold next
  split
  · exact Nat.mod_eq_of_lt ‹_›
  · rw [show x + 1 = n by omega, Nat.mod_self]

theorem prev_eq {x : ℕ} (hx : x < n) : prev n x = if 0 < x then x - 1 else n - 1 := by
  unfold prev
  split
  · rw [show x + n - 1 = x - 1 + n by omega, Nat.add_mod_right]
    exact Nat.mod_eq_of_lt (by omega)
  · obtain rfl : x = 0 := by omega
    rw [Nat.zero_add]
    exact Nat.mod_eq_of_lt (by omega)

theorem offset_eq {a q : ℕ} (ha : a < n) (hq : q < n) :
    offset n a q = if a + q < n then a + q else a + q - n := by
  unfold offset
  split
  · exact Nat.mod_eq_of_lt ‹_›
  · rw [Nat.mod_eq_sub_mod (by omega)]
    exact Nat.mod_eq_of_lt (by omega)

theorem dist_eq {a b : ℕ} (ha : a < n) (hb : b < n) :
    dist n a b = if a ≤ b then b - a else b + n - a := by
  unfold dist
  split
  · rw [show b + n - a = b - a + n by omega, Nat.add_mod_right]
    exact Nat.mod_eq_of_lt (by omega)
  · exact Nat.mod_eq_of_lt (by omega)

theorem next_lt (hn : 0 < n) (x : ℕ) : next n x < n := Nat.mod_lt _ hn

theorem prev_lt (hn : 0 < n) (x : ℕ) : prev n x < n := Nat.mod_lt _ hn

theorem offset_lt (hn : 0 < n) (a q : ℕ) : offset n a q < n := Nat.mod_lt _ hn

theorem dist_lt (hn : 0 < n) (a b : ℕ) : dist n a b < n := Nat.mod_lt _ hn

@[simp] theorem dist_self (a : ℕ) : dist n a a = 0 := by
  simp [dist]

@[simp] theorem offset_zero {a : ℕ} (ha : a < n) : offset n a 0 = a := by
  simp [offset, Nat.mod_eq_of_lt ha]

theorem dist_eq_zero_iff {a b : ℕ} (ha : a < n) (hb : b < n) : dist n a b = 0 ↔ a = b := by
  rw [dist_eq ha hb]; split <;> omega

theorem dist_offset {a q : ℕ} (ha : a < n) (hq : q < n) : dist n a (offset n a q) = q := by
  have hlt := offset_lt (n := n) (by omega) a q
  rw [dist_eq ha hlt, offset_eq ha hq]
  split <;> split <;> omega

theorem offset_dist {a b : ℕ} (ha : a < n) (hb : b < n) : offset n a (dist n a b) = b := by
  have hlt := dist_lt (n := n) (by omega) a b
  rw [offset_eq ha hlt, dist_eq ha hb]
  split <;> split <;> omega

theorem offset_succ (a q : ℕ) : offset n a (q + 1) = next n (offset n a q) := by
  simp only [offset, next, Nat.mod_add_mod, Nat.add_assoc]

theorem prev_next {x : ℕ} (hx : x < n) : prev n (next n x) = x := by
  have hn : 0 < n := by omega
  rw [prev_eq (next_lt hn x), next_eq hx]
  split <;> split <;> omega

theorem next_prev {x : ℕ} (hx : x < n) : next n (prev n x) = x := by
  have hn : 0 < n := by omega
  rw [next_eq (prev_lt hn x), prev_eq hx]
  split <;> split <;> omega

theorem prev_offset {a q : ℕ} (hq : q + 1 < n) :
    prev n (offset n a (q + 1)) = offset n a q := by
  rw [offset_succ, prev_next (offset_lt (by omega) a q)]

/-- One step forward adds one to a distance that does not reach `n`. -/
theorem dist_next {a b : ℕ} (ha : a < n) (hb : b < n) (h : dist n a b + 1 < n) :
    dist n a (next n b) = dist n a b + 1 := by
  have hn : 0 < n := by omega
  rw [dist_eq ha (next_lt hn b), next_eq hb]
  rw [dist_eq ha hb] at h ⊢
  split_ifs at h ⊢ <;> omega

/-- One step back takes one from a positive distance. -/
theorem dist_prev {a b : ℕ} (ha : a < n) (hb : b < n) (h : 0 < dist n a b) :
    dist n a (prev n b) = dist n a b - 1 := by
  have hn : 0 < n := by omega
  rw [dist_eq ha (prev_lt hn b), prev_eq hb]
  rw [dist_eq ha hb] at h ⊢
  split_ifs at h ⊢ <;> omega

/-- Distances from `a` to `x` and from `x` onward add up, below one revolution. -/
theorem dist_add {a b x : ℕ} (ha : a < n) (hb : b < n) (hx : x < n)
    (h : dist n a x ≤ dist n a b) : dist n a b = dist n a x + dist n x b := by
  rw [dist_eq ha hb, dist_eq ha hx] at h ⊢
  rw [dist_eq hx hb]
  split_ifs at h ⊢ <;> omega

/-- The distance back to the slot before `x` is one revolution less one. -/
theorem dist_prev_self {x : ℕ} (hx : x < n) (h1 : 1 < n) : dist n x (prev n x) = n - 1 := by
  rw [dist_eq hx (prev_lt (by omega) x), prev_eq hx]
  split <;> split <;> omega

/-- The slot before `x` is one step less from `a`, when `x` is not `a`. -/
theorem prev_eq_offset {a x : ℕ} (ha : a < n) (hx : x < n) (h : 0 < dist n a x) :
    prev n x = offset n a (dist n a x - 1) := by
  have hd := dist_lt (n := n) (by omega) a x
  calc prev n x = prev n (offset n a (dist n a x - 1 + 1)) := by
        rw [Nat.sub_add_cancel h, offset_dist ha hx]
    _ = offset n a (dist n a x - 1) := prev_offset (by omega)

theorem dist_pos {a x : ℕ} (ha : a < n) (hx : x < n) (h : x ≠ a) : 0 < dist n a x :=
  Nat.pos_of_ne_zero fun h0 => h ((dist_eq_zero_iff ha hx).1 h0).symm

end Ring

/-! ## Ordered tables -/

section Ordered

variable {E : Type} (n : ℕ) (home : E → ℕ)

/-- The probe distance of `e` stored at `x`: the steps from its home to `x`. -/
def probeDistance (x : ℕ) (e : E) : ℕ := dist n (home e) x

/-- **The Robin Hood ordering**: an element away from its home sits right after an occupied
slot whose element is displaced by at least one step less. -/
def Ordered (slot : ℕ → Option E) : Prop :=
  ∀ x < n, ∀ e, slot x = some e → 0 < probeDistance n home x e →
    ∃ e', slot (prev n x) = some e' ∧
      probeDistance n home x e ≤ probeDistance n home (prev n x) e' + 1

variable {n home} {slot : ℕ → Option E}

/-- **The chain property**: every slot from the home of an element at `x` up to `x` holds an
element at least as many steps from its own home as the slot is from that home.

**Proof sketch.** Walk back from `x` one slot at a time: a slot at distance `q > 0` from the
home holds an element displaced by at least `q`, so by `Ordered` its predecessor holds one
displaced by at least `q - 1`. -/
theorem Ordered.chain (hord : Ordered n home slot) (hhome : ∀ e, home e < n) {x : ℕ} {e : E}
    (hx : x < n) (h : slot x = some e) :
    ∀ q ≤ probeDistance n home x e, ∃ e', slot (offset n (home e) q) = some e' ∧
      q ≤ probeDistance n home (offset n (home e) q) e' := by
  set D := probeDistance n home x e with hD
  have hDn : D < n := dist_lt (by omega) _ _
  -- induction on the number of steps back from `x`
  have key : ∀ k ≤ D, ∃ e', slot (offset n (home e) (D - k)) = some e' ∧
      D - k ≤ probeDistance n home (offset n (home e) (D - k)) e' := by
    intro k
    induction k with
    | zero =>
      intro _
      have hoff : offset n (home e) D = x := offset_dist (hhome e) hx
      exact ⟨e, by rw [Nat.sub_zero, hoff, h], by rw [Nat.sub_zero, hoff, hD]⟩
    | succ k ih =>
      intro hk
      obtain ⟨e', he', hle⟩ := ih (by omega)
      have hpos : 0 < probeDistance n home (offset n (home e) (D - k)) e' := by omega
      obtain ⟨e'', he'', hle'⟩ :=
        hord _ (offset_lt (by omega) _ _) e' he' hpos
      have hprev : prev n (offset n (home e) (D - k)) = offset n (home e) (D - (k + 1)) := by
        rw [show D - k = D - (k + 1) + 1 by omega, prev_offset (by omega)]
      rw [hprev] at he'' hle'
      exact ⟨e'', he'', by omega⟩
  intro q hq
  simpa [show D - (D - q) = q by omega] using key (D - q) (by omega)

/-- Every slot before `n` is `q` steps from any home, for some `q < n`. -/
theorem exists_offset_eq {a x : ℕ} (ha : a < n) (hx : x < n) : ∃ q < n, offset n a q = x :=
  ⟨dist n a x, dist_lt (by omega) _ _, offset_dist ha hx⟩

/-- With a free slot, no element is displaced by `n - 1` steps: its chain would fill the
table. -/
theorem Ordered.probeDistance_lt (hord : Ordered n home slot) (hhome : ∀ e, home e < n)
    {x y : ℕ} {e : E} (hx : x < n) (h : slot x = some e) (hy : y < n) (hfree : slot y = none) :
    probeDistance n home x e + 1 < n := by
  by_contra hge
  obtain ⟨q, hq, hqy⟩ := exists_offset_eq (hhome e) hy
  -- the chain from the home of `e` covers every slot, the free one included
  obtain ⟨e', he', -⟩ := hord.chain hhome hx h q (by omega)
  rw [hqy, hfree] at he'
  cases he'

/-- Replacing an element by one with the same home keeps the table ordered. -/
theorem Ordered.update (hord : Ordered n home slot) {x : ℕ} {e e' : E} (hx : x < n)
    (he : slot x = some e) (hh : home e' = home e) :
    Ordered n home (Function.update slot x (some e')) := by
  have hpd : ∀ y, probeDistance n home y e' = probeDistance n home y e := by
    intro y; simp only [probeDistance, hh]
  intro y hy g hg hpos
  -- an element away from its home is not alone in the ring, so `prev n y ≠ y`
  have hprev : prev n y ≠ y := by
    have : 1 < n := by have := dist_lt (n := n) (by omega) (home g) y; unfold probeDistance at hpos; omega
    intro h
    have := dist_prev_self hy this
    rw [h, dist_self] at this
    omega
  by_cases hyx : y = x
  · subst hyx
    rw [Function.update_self] at hg
    cases hg
    obtain ⟨g', hg', hle⟩ := hord y hy e he (by rw [← hpd]; exact hpos)
    exact ⟨g', by rw [Function.update_of_ne hprev]; exact hg', by rw [hpd]; exact hle⟩
  · rw [Function.update_of_ne hyx] at hg
    obtain ⟨g', hg', hle⟩ := hord y hy g hg hpos
    by_cases hpx : prev n y = x
    · rw [hpx, he] at hg'
      cases hg'
      refine ⟨e', by rw [hpx, Function.update_self], ?_⟩
      rw [hpx, hpd]; rw [hpx] at hle; exact hle
    · exact ⟨g', by rw [Function.update_of_ne hpx]; exact hg', hle⟩

end Ordered

/-! ## Insertion

A search for a new element `e` walks from its home and stops at the first slot `p` that is
free or holds an element closer to its own home than `e` would be. Robin Hood insertion puts
`e` at `p` and moves the run of `m` elements from `p` on one slot right, into the first free
slot after them. -/

section Insert

variable {E : Type} {n : ℕ} {home : E → ℕ}

/-- The slots after the `m` elements from `p` on move one slot right and `v` is put at `p`;
with `v = none`, the slots an eviction leaves for the new element. -/
def shiftInsert (n : ℕ) (slot : ℕ → Option E) (p m : ℕ) (v : Option E) (x : ℕ) : Option E :=
  if x = p then v else if x < n ∧ dist n p x ≤ m then slot (prev n x) else slot x

theorem shiftInsert_of_lt {slot : ℕ → Option E} {p m x : ℕ} {v : Option E} (hx : x < n) :
    shiftInsert n slot p m v x =
      if x = p then v else if dist n p x ≤ m then slot (prev n x) else slot x := by
  simp only [shiftInsert, hx, true_and]

/-- Filling the slot an eviction left gives the insertion. -/
theorem update_shiftInsert (slot : ℕ → Option E) (p m : ℕ) (v w : Option E) :
    Function.update (shiftInsert n slot p m v) p w = shiftInsert n slot p m w := by
  funext x
  by_cases hx : x = p
  · subst hx; simp [shiftInsert]
  · simp [shiftInsert, hx]

/-- With no element to move, the eviction changes nothing but the slot `p`. -/
theorem shiftInsert_zero {slot : ℕ → Option E} {p : ℕ} (hp : p < n) (v : Option E) :
    shiftInsert n slot p 0 v = Function.update slot p v := by
  funext x
  by_cases hx : x = p
  · subst hx; simp [shiftInsert]
  · have : ¬ (x < n ∧ dist n p x ≤ 0) := fun ⟨hxn, h⟩ => by
      have := dist_pos hp hxn hx; omega
    simp only [shiftInsert, if_neg hx, if_neg this, Function.update_of_ne hx]

/-- Moving one more element: the slot `m + 1` steps after `p` takes the element `m` steps
after it. -/
theorem update_shiftInsert_succ {slot : ℕ → Option E} {p m : ℕ} (hp : p < n) (hm : m + 1 < n)
    (v : Option E) :
    Function.update (shiftInsert n slot p m v) (offset n p (m + 1)) (slot (offset n p m)) =
      shiftInsert n slot p (m + 1) v := by
  have hn : 0 < n := by omega
  have hy := offset_lt hn p (m + 1)
  have hdy : dist n p (offset n p (m + 1)) = m + 1 := dist_offset hp hm
  have hyp : offset n p (m + 1) ≠ p := fun h => by rw [h, dist_self] at hdy; omega
  funext x
  by_cases hx : x = offset n p (m + 1)
  · subst hx
    rw [Function.update_self, shiftInsert_of_lt hy, if_neg hyp, if_pos (by omega),
      prev_offset hm]
  · rw [Function.update_of_ne hx]
    by_cases hxn : x < n
    · rw [shiftInsert_of_lt hxn, shiftInsert_of_lt hxn]
      by_cases hxp : x = p
      · rw [if_pos hxp, if_pos hxp]
      · have : dist n p x ≠ m + 1 := fun h => hx (by rw [← h, offset_dist hp hxn])
        rw [if_neg hxp, if_neg hxp]
        by_cases hle : dist n p x ≤ m
        · rw [if_pos hle, if_pos (by omega)]
        · rw [if_neg hle, if_neg (by omega)]
    · simp only [shiftInsert, hxn, false_and, if_false]

/-- Where Robin Hood insertion of an element with ideal slot `h` stops: the slot `p` is
free or holds an element nearer its home than the new one would be, every slot the search
passed holds an element at least as far from home, and the run of `m` elements from `p` on
ends before a free slot. -/
structure InsertionPoint (n : ℕ) (home : E → ℕ) (slot : ℕ → Option E) (h p m : ℕ) : Prop where
  p_lt : p < n
  m_lt : m < n
  run : ∀ t < m, slot (offset n p t) ≠ none
  free : slot (offset n p m) = none
  passed : ∀ q < dist n h p, ∃ e', slot (offset n h q) = some e' ∧
    q ≤ probeDistance n home (offset n h q) e'
  stop : ∀ f, slot p = some f → probeDistance n home p f < dist n h p

/-- **Robin Hood insertion keeps the ordering.**

**Proof sketch.** The new element is preceded by the last slot its search passed, whose
element is displaced by at least one step less. Each moved element gains one step of
displacement and keeps its predecessor, or gets the new element, which the search found
richer than it. Outside the run nothing moves, and the slot after the run was free. -/
theorem ordered_shiftInsert {slot : ℕ → Option E} {p m : ℕ} {e : E}
    (hord : Ordered n home slot) (hhome : ∀ e, home e < n)
    (hip : InsertionPoint n home slot (home e) p m) :
    Ordered n home (shiftInsert n slot p m (some e)) := by
  obtain ⟨hp, hm, hrun, hfree, hpassed, hstop⟩ := hip
  have hn : 0 < n := by omega
  have hfreeLt : offset n p m < n := offset_lt hn p m
  -- a moved element gains exactly one step: the free slot keeps it from wrapping around
  have hshift : ∀ y < n, ∀ g, slot y = some g →
      probeDistance n home (next n y) g = probeDistance n home y g + 1 := fun y hy g hg =>
    dist_next (hhome g) hy (hord.probeDistance_lt hhome hy hg hfreeLt hfree)
  intro x hx g hg hpos
  have hpx : prev n x < n := prev_lt hn x
  by_cases hxp : x = p
  · -- the new element, preceded by the last slot of its search
    subst hxp
    rw [shiftInsert, if_pos rfl, Option.some.injEq] at hg
    subst e
    have hq : 0 < dist n (home g) x := hpos
    have hqn := dist_lt (n := n) hn (home g) x
    obtain ⟨e', he', hle⟩ := hpassed (dist n (home g) x - 1) (by omega)
    rw [← prev_eq_offset (hhome g) hx hq] at he' hle
    have h1 : 1 < n := by omega
    have hne : prev n x ≠ x := by
      intro h; have := dist_prev_self hx h1; rw [h, dist_self] at this; omega
    have hout : ¬ dist n x (prev n x) ≤ m := by
      intro hle'
      have hmn : m = n - 1 := by rw [dist_prev_self hx h1] at hle'; omega
      have : offset n x m = prev n x := by rw [hmn, ← dist_prev_self hx h1, offset_dist hx hpx]
      rw [this, he'] at hfree
      cases hfree
    refine ⟨e', by rw [shiftInsert_of_lt hpx, if_neg hne, if_neg hout]; exact he', ?_⟩
    unfold probeDistance at hle ⊢
    omega
  have hd : 0 < dist n p x := dist_pos hp hx hxp
  have hdp : dist n p (prev n x) = dist n p x - 1 := dist_prev hp hx hd
  by_cases hin : dist n p x ≤ m
  · -- a moved element: it came from `prev n x`
    rw [shiftInsert_of_lt hx, if_neg hxp, if_pos hin] at hg
    have hgx := hshift (prev n x) hpx g hg
    rw [next_prev hx] at hgx
    by_cases hpp : prev n x = p
    · -- the element that was at `p` is now preceded by `e`
      refine ⟨e, by rw [shiftInsert, if_pos hpp], ?_⟩
      have := hstop g (hpp ▸ hg)
      rw [hpp] at hgx
      unfold probeDistance at this hgx ⊢
      rw [hpp]
      omega
    · -- both neighbours moved one slot right
      have hdp0 : 0 < dist n p (prev n x) := dist_pos hp hpx hpp
      obtain ⟨g', hg'⟩ := Option.ne_none_iff_exists'.1 (hrun (dist n p x - 2) (by omega))
      rw [show dist n p x - 2 = dist n p (prev n x) - 1 by omega,
        ← prev_eq_offset hp hpx hdp0] at hg'
      refine ⟨g', by
        rw [shiftInsert_of_lt hpx, if_neg hpp, if_pos (show dist n p (prev n x) ≤ m by omega)]
        exact hg', ?_⟩
      have hg'x := hshift (prev n (prev n x)) (prev_lt hn _) g' hg'
      rw [next_prev hpx] at hg'x
      by_cases h0 : probeDistance n home (prev n x) g = 0
      · omega
      · obtain ⟨g'', hg'', hle⟩ := hord (prev n x) hpx g hg (Nat.pos_of_ne_zero h0)
        rw [hg'] at hg''
        cases hg''
        omega
  · -- an element after the run: its predecessor did not move either
    rw [shiftInsert_of_lt hx, if_neg hxp, if_neg hin] at hg
    obtain ⟨g'', hg'', hle⟩ := hord x hx g hg hpos
    by_cases hpp : prev n x = p
    · -- then the run is empty, and `p` was free
      have hm0 : m = 0 := by rw [hpp, dist_self] at hdp; omega
      rw [hm0, offset_zero hp] at hfree
      rw [hpp, hfree] at hg''
      cases hg''
    · have hout : ¬ dist n p (prev n x) ≤ m := by
        intro hle'
        have : prev n x = offset n p m := by
          rw [show m = dist n p (prev n x) by omega, offset_dist hp hpx]
        rw [this, hfree] at hg''
        cases hg''
      exact ⟨g'', by rw [shiftInsert_of_lt hpx, if_neg hpp, if_neg hout]; exact hg'', hle⟩

end Insert

/-! ## Deletion

Robin Hood deletion empties the slot `p` and moves the run of `m` displaced elements after it
one slot left, stopping before a free slot or an element at its home. -/

section Erase

variable {E : Type} {n : ℕ} {home : E → ℕ}

/-- The slots after the element at `p` is deleted and the `m` elements after it move one slot
left. -/
def shiftErase (n : ℕ) (slot : ℕ → Option E) (p m : ℕ) (x : ℕ) : Option E :=
  if x < n ∧ dist n p x < m then slot (next n x)
  else if x < n ∧ dist n p x = m then none else slot x

theorem shiftErase_of_lt {slot : ℕ → Option E} {p m x : ℕ} (hx : x < n) :
    shiftErase n slot p m x =
      if dist n p x < m then slot (next n x) else if dist n p x = m then none else slot x := by
  simp only [shiftErase, hx, true_and]

/-- The slots while the deletion loop runs: the `j` slots from `p` on hold their
successors' elements. -/
def shiftLeft (n : ℕ) (slot : ℕ → Option E) (p j : ℕ) (x : ℕ) : Option E :=
  if x < n ∧ dist n p x < j then slot (next n x) else slot x

@[simp] theorem shiftLeft_zero (slot : ℕ → Option E) (p : ℕ) : shiftLeft n slot p 0 = slot := by
  funext x; simp [shiftLeft]

/-- The slot the loop is about to overwrite still holds its own element. -/
theorem shiftLeft_offset {slot : ℕ → Option E} {p j : ℕ} (hp : p < n) (hj : j < n) :
    shiftLeft n slot p j (offset n p j) = slot (offset n p j) := by
  simp [shiftLeft, dist_offset hp hj]

/-- One more step of the deletion loop. -/
theorem update_shiftLeft_succ {slot : ℕ → Option E} {p j : ℕ} (hp : p < n) (hj : j + 1 < n) :
    Function.update (shiftLeft n slot p j) (offset n p j) (slot (offset n p (j + 1))) =
      shiftLeft n slot p (j + 1) := by
  have hn : 0 < n := by omega
  have hjn := offset_lt hn p j
  funext x
  by_cases hx : x = offset n p j
  · subst hx
    rw [Function.update_self, shiftLeft, if_pos ⟨hjn, by rw [dist_offset hp (by omega)]; omega⟩,
      offset_succ]
  · rw [Function.update_of_ne hx]
    by_cases hxn : x < n
    · have : dist n p x ≠ j := fun h => hx (by rw [← h, offset_dist hp hxn])
      simp only [shiftLeft, hxn, true_and]
      by_cases hlt : dist n p x < j
      · rw [if_pos hlt, if_pos (by omega)]
      · rw [if_neg hlt, if_neg (by omega)]
    · simp [shiftLeft, hxn]

/-- The last step of the deletion loop frees the slot it stopped at. -/
theorem update_shiftLeft {slot : ℕ → Option E} {p m : ℕ} (hp : p < n) (hm : m < n) :
    Function.update (shiftLeft n slot p m) (offset n p m) none = shiftErase n slot p m := by
  have hn : 0 < n := by omega
  funext x
  by_cases hx : x = offset n p m
  · subst hx
    rw [Function.update_self, shiftErase_of_lt (offset_lt hn p m), dist_offset hp hm,
      if_neg (lt_irrefl m), if_pos rfl]
  · rw [Function.update_of_ne hx]
    by_cases hxn : x < n
    · have : dist n p x ≠ m := fun h => hx (by rw [← h, offset_dist hp hxn])
      rw [shiftErase_of_lt hxn, shiftLeft, if_neg this]
      simp only [hxn, true_and]
    · simp [shiftLeft, shiftErase, hxn]

/-- Where the deletion loop started at `p` stops: after `m` displaced elements, before a
free slot or an element at its home. -/
structure ErasureRun (n : ℕ) (home : E → ℕ) (slot : ℕ → Option E) (p m : ℕ) : Prop where
  p_lt : p < n
  m_lt : m + 1 < n
  run : ∀ t, 1 ≤ t → t ≤ m → ∃ g, slot (offset n p t) = some g ∧
    0 < probeDistance n home (offset n p t) g
  stop : ∀ g, slot (offset n p (m + 1)) = some g →
    probeDistance n home (offset n p (m + 1)) g = 0

/-- **Robin Hood deletion keeps the ordering.**

**Proof sketch.** A moved element loses one step of displacement and is preceded by the
element that was before it, or, in the slot `p`, by the element before the deleted one. The
slot after the run holds nothing displaced, so the new free slot needs no successor. -/
theorem ordered_shiftErase {slot : ℕ → Option E} {p m : ℕ} {r : E}
    (hord : Ordered n home slot) (hhome : ∀ e, home e < n) (hr : slot p = some r)
    (her : ErasureRun n home slot p m) :
    Ordered n home (shiftErase n slot p m) := by
  obtain ⟨hp, hm, hrun, hend⟩ := her
  have hn : 0 < n := by omega
  intro x hx g hg hpos
  have hnx : next n x < n := next_lt hn x
  have hpx : prev n x < n := prev_lt hn x
  by_cases hlt : dist n p x < m
  · -- a moved element: it came from `next n x`
    rw [shiftErase_of_lt hx, if_pos hlt] at hg
    have hdn : dist n p (next n x) = dist n p x + 1 := dist_next hp hx (by omega)
    obtain ⟨g1, hg1, hpos1⟩ := hrun (dist n p x + 1) (by omega) (by omega)
    rw [← hdn, offset_dist hp hnx] at hg1 hpos1
    rw [hg] at hg1
    cases hg1
    have hgx : probeDistance n home x g = probeDistance n home (next n x) g - 1 := by
      have := dist_prev (hhome g) hnx hpos1
      rwa [prev_next hx] at this
    obtain ⟨g'', hg'', hle⟩ := hord (next n x) hnx g hg hpos1
    rw [prev_next hx] at hg'' hle
    by_cases hxp : x = p
    · -- the slot `p`: now preceded by the element before the deleted one
      subst hxp
      obtain rfl : r = g'' := Option.some.inj (hr.symm.trans hg'')
      obtain ⟨g', hg', hle'⟩ := hord x hx r hr (by omega)
      have h1 : 1 < n := by omega
      have hout : ¬ dist n x (prev n x) < m ∧ ¬ dist n x (prev n x) = m := by
        rw [dist_prev_self hx h1]; omega
      refine ⟨g', by rw [shiftErase_of_lt hpx, if_neg hout.1, if_neg hout.2]; exact hg', by omega⟩
    · -- both neighbours moved one slot left
      have hd : 0 < dist n p x := dist_pos hp hx hxp
      have hdp : dist n p (prev n x) = dist n p x - 1 := dist_prev hp hx hd
      obtain ⟨g', hg', hpos'⟩ := hrun (dist n p x) hd (by omega)
      rw [offset_dist hp hx] at hg' hpos'
      obtain rfl : g' = g'' := Option.some.inj (hg'.symm.trans hg'')
      refine ⟨g', ?_, ?_⟩
      · rw [shiftErase_of_lt hpx, if_pos (show dist n p (prev n x) < m by omega), next_prev hx]
        exact hg'
      · have := dist_prev (hhome g') hx hpos'
        unfold probeDistance at this hle hgx ⊢
        omega
  · by_cases heq : dist n p x = m
    · rw [shiftErase_of_lt hx, if_neg hlt, if_pos heq] at hg
      cases hg
    · -- an element after the run: it did not move, nor did its predecessor
      rw [shiftErase_of_lt hx, if_neg hlt, if_neg heq] at hg
      obtain ⟨g'', hg'', hle⟩ := hord x hx g hg hpos
      have hnend : dist n p x ≠ m + 1 := by
        intro h
        have := hend g (by rw [← h, offset_dist hp hx]; exact hg)
        rw [← h, offset_dist hp hx] at this
        omega
      have hdp : dist n p (prev n x) = dist n p x - 1 := dist_prev hp hx (by omega)
      have hout : ¬ dist n p (prev n x) < m ∧ ¬ dist n p (prev n x) = m := by omega
      exact ⟨g'', by rw [shiftErase_of_lt hpx, if_neg hout.1, if_neg hout.2]; exact hg'', hle⟩

end Erase

/-! ## Slots held in an array

A table stores its slots in an array of optional elements. Its elements, in slot order, are
`occupied`; writing one slot changes them, as a multiset, by the element removed and the
element written (`occupied_setIfInBounds`). -/

section Slots

variable {E : Type}

/-- The slot function of an array: `none` past its end. -/
def slots (a : Array (Option E)) (x : ℕ) : Option E := (a[x]?).join

/-- The elements of the occupied slots, in slot order. -/
def occupied (a : Array (Option E)) : List E := a.toList.filterMap id

theorem slots_of_le {a : Array (Option E)} {x : ℕ} (hx : a.size ≤ x) : slots a x = none := by
  simp [slots, hx]

theorem lt_of_slots_eq_some {a : Array (Option E)} {x : ℕ} {e : E} (h : slots a x = some e) :
    x < a.size := by
  by_contra hx
  rw [slots_of_le (by omega)] at h
  cases h

theorem slots_getD (a : Array (Option E)) (x : ℕ) : a.getD x none = slots a x := by
  rw [Array.getD_eq_getD_getElem?, slots]
  cases a[x]? <;> rfl

theorem slots_setIfInBounds {a : Array (Option E)} {i : ℕ} (hi : i < a.size) (v : Option E) :
    slots (a.setIfInBounds i v) = Function.update (slots a) i v := by
  funext x
  by_cases hx : i = x
  · subst hx; simp [slots, hi]
  · simp [slots, hx, Function.update_of_ne (Ne.symm hx)]

@[simp] theorem size_setIfInBounds_eq (a : Array (Option E)) (i : ℕ) (v : Option E) :
    (a.setIfInBounds i v).size = a.size := Array.size_setIfInBounds

@[simp] theorem slots_replicate_none (n x : ℕ) : slots (Array.replicate n (none : Option E)) x = none := by
  simp only [slots, Array.getElem?_replicate]
  split <;> rfl

@[simp] theorem occupied_replicate_none (n : ℕ) : occupied (Array.replicate n (none : Option E)) = [] := by
  simp [occupied, Array.toList_replicate]

theorem mem_occupied {a : Array (Option E)} {e : E} :
    e ∈ occupied a ↔ ∃ x < a.size, slots a x = some e := by
  simp only [occupied, List.mem_filterMap, id, slots]
  constructor
  · rintro ⟨o, ho, rfl⟩
    obtain ⟨x, hx, hxo⟩ := List.getElem_of_mem ho
    exact ⟨x, by simpa using hx, by simp [Array.getElem?_eq_getElem (by simpa using hx), ← hxo]⟩
  · rintro ⟨x, hx, hxe⟩
    rw [Array.getElem?_eq_getElem hx] at hxe
    exact ⟨a[x], by simp, by simpa using hxe⟩

private theorem filterMap_set_perm : ∀ (l : List (Option E)) (i : ℕ) (hi : i < l.length)
    (v : Option E), ((l.set i v).filterMap id ++ (l[i]).toList).Perm (l.filterMap id ++ v.toList)
  | [], i, hi, _ => by simp at hi
  | o :: l, 0, _, v => by
    cases o <;> cases v <;> simp only [List.set_cons_zero, List.filterMap_cons_none, id,
      List.getElem_cons_zero, Option.toList_some, Option.toList_none, List.append_nil,
      List.Perm.refl]
    · exact (List.perm_append_singleton _ _).symm
    · exact List.perm_append_singleton _ _
    · exact ((List.perm_append_singleton _ _).cons _).trans
        ((List.Perm.swap _ _ _).trans ((List.perm_append_singleton _ _).symm.cons _))
  | o :: l, i + 1, hi, v => by
    have ih := filterMap_set_perm l i (by simpa using hi) v
    cases o with
    | none => simpa using ih
    | some e => simpa using ih.cons e

/-- **Writing a slot** replaces, in the multiset of elements, the element it held by the one
written. -/
theorem occupied_setIfInBounds {a : Array (Option E)} {i : ℕ} (hi : i < a.size) (v : Option E) :
    (occupied (a.setIfInBounds i v) ++ (slots a i).toList).Perm (occupied a ++ v.toList) := by
  have h := filterMap_set_perm a.toList i (by simpa using hi) v
  rw [occupied, occupied, Array.toList_setIfInBounds]
  rwa [slots, Array.getElem?_eq_getElem hi, Option.join_some, ← Array.getElem_toList]

/-- Exchanging one element through a middle list: the bookkeeping of a loop that moves
elements one at a time. -/
theorem perm_exchange {l₁ l₂ l₃ g : List E} {c r : E} (h₁ : (l₁ ++ [c]).Perm (l₂ ++ g))
    (h₂ : (l₂ ++ [r]).Perm (l₃ ++ [c])) : (l₁ ++ [r]).Perm (l₃ ++ g) := by
  classical
  rw [List.perm_iff_count] at h₁ h₂ ⊢
  intro x
  have e₁ := h₁ x
  have e₂ := h₂ x
  simp only [List.count_append, List.count_singleton] at e₁ e₂ ⊢
  omega

/-- An array with fewer elements than slots has a free slot. -/
theorem exists_slots_eq_none {a : Array (Option E)} (h : (occupied a).length < a.size) :
    ∃ x < a.size, slots a x = none := by
  by_contra hall
  push Not at hall
  have hsome : ∀ o ∈ a.toList, o.isSome := by
    intro o ho
    obtain ⟨x, hx, rfl⟩ := List.getElem_of_mem ho
    have := hall x (by simpa using hx)
    rw [slots, Array.getElem?_eq_getElem (by simpa using hx), Option.join_some] at this
    simpa [Option.isSome_iff_ne_none] using this
  have hlen : (a.toList.filterMap id).length = a.toList.length :=
    List.filterMap_length_eq_length.mpr hsome
  rw [occupied, hlen, Array.length_toList] at h
  exact lt_irrefl _ h

/-- With keys without repeats, two slots holding elements of one key are the same slot. -/
theorem eq_of_slots_of_nodup {K : Type} (key : E → K) {a : Array (Option E)}
    (hnd : ((occupied a).map key).Nodup) {x y : ℕ} {e e' : E} (hx : slots a x = some e)
    (hy : slots a y = some e') (hk : key e = key e') : x = y := by
  by_contra hxy
  have hxs := lt_of_slots_eq_some hx
  have hys := lt_of_slots_eq_some hy
  -- emptying `x` leaves `e'` among the elements, so `occupied a` holds both
  have hperm := occupied_setIfInBounds hxs none
  rw [hx] at hperm
  have hmem : e' ∈ occupied (a.setIfInBounds x none) :=
    mem_occupied.2 ⟨y, by simpa using hys, by
      rw [slots_setIfInBounds hxs, Function.update_of_ne (Ne.symm hxy)]; exact hy⟩
  have hnd' := (hperm.map key).nodup_iff.2 (by simpa using hnd)
  simp only [Option.toList_some, List.map_append, List.map_cons, List.map_nil] at hnd'
  exact (List.nodup_append.1 hnd').2.2 (key e') (List.mem_map_of_mem hmem) (key e) (by simp) hk.symm

end Slots

end LinearProbing
