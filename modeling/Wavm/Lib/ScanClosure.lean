import Mathlib
import Wavm.Lib.WhileLoop

set_option relaxedAutoImplicit false
set_option autoImplicit false

/-!
# Closing a list by scanning it as it grows

The loop

    for(Uptr scanIndex = 0; scanIndex < closure.size(); ++scanIndex)
      for(auto element : next(closure[scanIndex])) { addUnique(closure, element); }

closes a list without repeats under a successor function: each round appends the successors of
the element at the scan index that the list does not hold yet. The list it ends with holds
exactly what a path of successors reaches from the list it started with, each once.

## Main definitions

* `ScanClosure.addUnique` — append an element the list does not hold.
* `ScanClosure.cond`, `ScanClosure.body`, `ScanClosure.closure` — the loop, with fuel.
* `ScanClosure.Reach` — the elements a path of successors reaches from the start.

## Main results

* `ScanClosure.Inv.body` — a round keeps the invariant.
* `ScanClosure.closure_spec` — from a start without repeats, inside a list `U` that holds every
  successor, any fuel above the length of `U` ends the loop, with every reachable element once.
-/

namespace ScanClosure

variable {α : Type} [DecidableEq α]

/-! ## Appending without repeats -/

/-- `addUnique`: append an element the list does not hold. -/
def addUnique (vector : List α) (element : α) : List α :=
  if element ∈ vector then vector else vector ++ [element]

theorem mem_addUnique {vector : List α} {element x : α} :
    x ∈ addUnique vector element ↔ x ∈ vector ∨ x = element := by
  unfold addUnique
  split_ifs with h
  · exact ⟨Or.inl, fun hx => hx.elim id (fun e => e ▸ h)⟩
  · simp

theorem nodup_addUnique {vector : List α} (hnodup : vector.Nodup) (element : α) :
    (addUnique vector element).Nodup := by
  unfold addUnique
  split_ifs with h
  · exact hnodup
  · exact hnodup.append (List.nodup_singleton _) (by simpa using h)

theorem prefix_addUnique (vector : List α) (element : α) : vector <+: addUnique vector element := by
  unfold addUnique
  split_ifs
  · exact List.prefix_refl _
  · exact List.prefix_append _ _

theorem mem_foldl_addUnique {elements : List α} {vector : List α} {x : α} :
    x ∈ elements.foldl addUnique vector ↔ x ∈ vector ∨ x ∈ elements := by
  induction elements generalizing vector with
  | nil => simp
  | cons element elements ih =>
    rw [List.foldl_cons, ih, mem_addUnique, List.mem_cons]
    tauto

theorem nodup_foldl_addUnique (elements : List α) {vector : List α} (hnodup : vector.Nodup) :
    (elements.foldl addUnique vector).Nodup := by
  induction elements generalizing vector with
  | nil => exact hnodup
  | cons element elements ih => exact ih (nodup_addUnique hnodup element)

theorem prefix_foldl_addUnique (elements vector : List α) :
    vector <+: elements.foldl addUnique vector := by
  induction elements generalizing vector with
  | nil => exact List.prefix_refl _
  | cons element elements ih =>
    exact (prefix_addUnique vector element).trans (ih _)

/-! ## The loop -/

variable (next : α → List α)

/-- The loop's test: an element is left to scan. -/
def cond (state : List α × ℕ) : Bool := decide (state.2 < state.1.length)

/-- One round: append the successors of the element at the scan index, and move past it. -/
def body (state : List α × ℕ) : List α × ℕ :=
  match state.1[state.2]? with
  | some element => ((next element).foldl addUnique state.1, state.2 + 1)
  | none => (state.1, state.2 + 1)

/-- The loop from `start` and the scan index `0`, with at most `fuel` tests: the list it ends
with. -/
def closure (fuel : ℕ) (start : List α) : Option (List α) :=
  (WhileLoop.run cond (body next) fuel (start, 0)).map Prod.fst

/-- What a path of successors reaches from an element of `start`. -/
def Reach (start : List α) (x : α) : Prop :=
  ∃ s ∈ start, Relation.ReflTransGen (fun a b => b ∈ next a) s x

/-- What every round keeps: no repeats; every element reachable, the start among them; the
successors of each scanned element present. -/
structure Inv (start : List α) (state : List α × ℕ) : Prop where
  nodup : state.1.Nodup
  reach : ∀ x ∈ state.1, Reach next start x
  start_subset : ∀ x ∈ start, x ∈ state.1
  scanned : ∀ i < state.2, ∀ a, state.1[i]? = some a → ∀ b ∈ next a, b ∈ state.1
  le_length : state.2 ≤ state.1.length

variable {next}

omit [DecidableEq α] in
theorem inv_start {start : List α} (hnodup : start.Nodup) : Inv next start (start, 0) :=
  ⟨hnodup, fun x hx => ⟨x, hx, Relation.ReflTransGen.refl⟩, fun _ hx => hx,
    fun _ hi => absurd hi (Nat.not_lt_zero _), Nat.zero_le _⟩

/-- **A round keeps the invariant**: the successors it appends are reachable, and the element it
scans has all its successors present. -/
theorem Inv.body {start : List α} {state : List α × ℕ} (hinv : Inv next start state)
    (hcond : cond state = true) : Inv next start (body next state) := by
  obtain ⟨closure, scanIndex⟩ := state
  have hlt : scanIndex < closure.length := by simpa [cond] using hcond
  have hget : closure[scanIndex]? = some closure[scanIndex] := List.getElem?_eq_getElem hlt
  simp only [ScanClosure.body, hget]
  have hprefix := prefix_foldl_addUnique (next closure[scanIndex]) closure
  refine ⟨nodup_foldl_addUnique _ hinv.nodup, fun x hx => ?_, fun x hx => ?_, fun i hi a ha => ?_, ?_⟩
  · rcases mem_foldl_addUnique.1 hx with hx | hx
    · exact hinv.reach x hx
    · -- a successor of the scanned element, reached one step further
      obtain ⟨s, hs, hpath⟩ := hinv.reach _ (List.getElem_mem hlt)
      exact ⟨s, hs, hpath.tail hx⟩
  · exact mem_foldl_addUnique.2 (Or.inl (hinv.start_subset x hx))
  · have hi' : i < closure.length := by
      have := hinv.le_length
      omega
    -- the scanned prefix is unchanged by the round
    rw [List.getElem?_eq_getElem (lt_of_lt_of_le hi' hprefix.length_le), ← hprefix.getElem hi',
      Option.some.injEq] at ha
    intro b hb
    rcases Nat.lt_succ_iff_lt_or_eq.1 hi with hi | rfl
    · exact mem_foldl_addUnique.2 (Or.inl (hinv.scanned i hi a
        (by rw [List.getElem?_eq_getElem hi', ha]) b hb))
    · rw [← ha] at hb
      exact mem_foldl_addUnique.2 (Or.inr hb)
  · exact Nat.succ_le_of_lt (hlt.trans_le hprefix.length_le)

omit [DecidableEq α] in
/-- When every element is scanned, the list holds everything reachable. -/
theorem Inv.mem_iff {start : List α} {state : List α × ℕ} (hinv : Inv next start state)
    (hcond : cond state = false) (x : α) : x ∈ state.1 ↔ Reach next start x := by
  have hscanned : ∀ a ∈ state.1, ∀ b ∈ next a, b ∈ state.1 := by
    intro a ha
    obtain ⟨i, hi, rfl⟩ := List.getElem_of_mem ha
    have : ¬ state.2 < state.1.length := by simpa [cond] using hcond
    exact hinv.scanned i (by omega) _ (List.getElem?_eq_getElem hi)
  refine ⟨hinv.reach x, ?_⟩
  rintro ⟨s, hs, hpath⟩
  induction hpath with
  | refl => exact hinv.start_subset s hs
  | tail _ hstep ih => exact hscanned _ ih _ hstep

omit [DecidableEq α] in
/-- What is reachable stays inside a list that holds the start and every successor. -/
theorem Reach.mem {start U : List α} (hstart : ∀ x ∈ start, x ∈ U)
    (hnext : ∀ a, ∀ b ∈ next a, b ∈ U) {x : α} (hx : Reach next start x) : x ∈ U := by
  obtain ⟨s, hs, hpath⟩ := hx
  induction hpath with
  | refl => exact hstart s hs
  | tail _ hstep _ => exact hnext _ _ hstep

/-- **The loop closes the start**: from a start without repeats, inside a list `U` that holds
every successor, any fuel above the length of `U` ends the loop, with a list without repeats
that holds exactly what the start reaches. -/
theorem closure_spec {start U : List α} (hnodup : start.Nodup) (hstart : ∀ x ∈ start, x ∈ U)
    (hnext : ∀ a, ∀ b ∈ next a, b ∈ U) {fuel : ℕ} (hfuel : U.length < fuel) :
    ∃ result, closure next fuel start = some result ∧ result.Nodup ∧
      ∀ x, x ∈ result ↔ Reach next start x := by
  -- each round scans one more element, and the list never outgrows `U`
  have hlength : ∀ state, Inv next start state → state.1.length ≤ U.length := fun state hinv =>
    (hinv.nodup.subperm fun x hx => (hinv.reach x hx).mem hstart hnext).length_le
  obtain ⟨state, hrun, hinv, hcond⟩ := WhileLoop.run_of_variant (Inv next start)
    (fun state => U.length - state.2)
    (fun state hinv hcond => ⟨hinv.body hcond, by
      have := hlength state hinv
      have : state.2 < state.1.length := by simpa [cond] using hcond
      simp only [ScanClosure.body]
      split <;> omega⟩)
    fuel (start, 0) (inv_start hnodup) (by omega)
  exact ⟨state.1, by rw [closure, hrun, Option.map_some], hinv.nodup, hinv.mem_iff hcond⟩

end ScanClosure
