import Mathlib
import Wavm.Lib.WhileLoop

set_option relaxedAutoImplicit false
set_option autoImplicit false

/-!
# Marking what roots reach, with a worklist

A marking loop over a list of objects without repeats: each object is unvisited, pending or
scanned. A round takes the first pending object, records it as scanned, and visits its children:
a child that is still unvisited becomes pending. From a state where the pending objects reach
nothing that is not pending, scanned or reachable, and no root is unvisited, the loop ends; the
objects left unvisited are then exactly those that no path from a root reaches, and no object
is scanned twice.

## Main definitions

* `Worklist.State`, `Worklist.visit`, `Worklist.scan`, `Worklist.cond`, `Worklist.body` — the
  loop.
* `Worklist.Reach` — the objects that a path of children from a root reaches.
* `Worklist.Inv` — what every round keeps.

## Main results

* `Worklist.Inv.body`, `Worklist.size_body` — a round keeps the invariant and scans one
  object.
* `Worklist.not_mem_unvisited_of_reach` — when no object is pending, no reachable one is
  unvisited.
* `Worklist.run_spec` — the loop ends, with the unreachable objects unvisited and the reachable
  ones scanned, each once.
-/

namespace Worklist

variable {α : Type} [DecidableEq α]

/-- The objects of a marking loop: unvisited, pending (the next to scan first) and scanned (the
last scanned first). -/
structure State (α : Type) where
  unvisited : List α
  pending : List α
  scanned : List α

/-- All the objects of a state. -/
def State.all (s : State α) : List α := s.unvisited ++ s.pending ++ s.scanned

/-- The objects not yet scanned. -/
def State.size (s : State α) : ℕ := s.unvisited.length + s.pending.length

/-- Visit a child: an unvisited one becomes pending. -/
def visit (s : State α) (b : α) : State α :=
  if b ∈ s.unvisited then ⟨s.unvisited.erase b, b :: s.pending, s.scanned⟩ else s

variable (children : α → List α)

/-- Scan an object: visit its children in order. -/
def scan (s : State α) (a : α) : State α := (children a).foldl visit s

/-- The loop's test: an object is pending. -/
def cond (s : State α) : Bool := !s.pending.isEmpty

/-- One round: record the first pending object as scanned, and scan it. -/
def body (s : State α) : State α :=
  match s.pending with
  | [] => s
  | a :: pending => scan children ⟨s.unvisited, pending, a :: s.scanned⟩ a

variable (objects : List α) (IsRoot : α → Prop)

/-- The objects that a path of children from a root reaches, through objects of `objects`. -/
inductive Reach : α → Prop
  | root {r : α} : r ∈ objects → IsRoot r → Reach r
  | child {a b : α} : Reach a → b ∈ children a → b ∈ objects → Reach b

/-- What every round keeps: the state holds each object once; the children of a scanned object
are visited; what is pending or scanned is reachable; no root is unvisited. -/
structure Inv (s : State α) : Prop where
  perm : s.all.Perm objects
  closed : ∀ a ∈ s.scanned, ∀ b ∈ children a, b ∈ objects → b ∉ s.unvisited
  reach : ∀ a, a ∈ s.pending ∨ a ∈ s.scanned → Reach children objects IsRoot a
  roots : ∀ r, IsRoot r → r ∉ s.unvisited

variable {children objects IsRoot}

omit [DecidableEq α] in
theorem Reach.mem {a : α} (h : Reach children objects IsRoot a) : a ∈ objects := by
  cases h with
  | root hr _ => exact hr
  | child _ _ hb => exact hb

/-! ## Visits -/

section Visit

variable {s : State α} {b : α}

theorem visit_of_mem (h : b ∈ s.unvisited) :
    visit s b = ⟨s.unvisited.erase b, b :: s.pending, s.scanned⟩ := if_pos h

theorem visit_of_not_mem (h : b ∉ s.unvisited) : visit s b = s := if_neg h

@[simp] theorem scanned_visit : (visit s b).scanned = s.scanned := by
  unfold visit
  split_ifs <;> rfl

theorem all_visit_perm : (visit s b).all.Perm s.all := by
  by_cases h : b ∈ s.unvisited
  · rw [visit_of_mem h]
    -- `b` moves from the unvisited objects to the front of the pending ones
    have hperm := List.perm_cons_erase h
    simp only [State.all, List.append_assoc, List.cons_append]
    exact List.perm_middle.trans (List.Perm.append_right _ hperm.symm)
  · rw [visit_of_not_mem h]

theorem unvisited_visit_subset : (visit s b).unvisited ⊆ s.unvisited := by
  by_cases h : b ∈ s.unvisited
  · rw [visit_of_mem h]
    exact List.erase_subset
  · rw [visit_of_not_mem h]
    exact List.Subset.refl _

theorem not_mem_unvisited_visit (hnodup : s.unvisited.Nodup) : b ∉ (visit s b).unvisited := by
  by_cases h : b ∈ s.unvisited
  · rw [visit_of_mem h]
    exact hnodup.not_mem_erase
  · rwa [visit_of_not_mem h]

theorem mem_pending_visit {x : α} (hx : x ∈ (visit s b).pending) :
    x ∈ s.pending ∨ (x = b ∧ b ∈ s.unvisited) := by
  by_cases h : b ∈ s.unvisited
  · rw [visit_of_mem h] at hx
    rcases List.mem_cons.1 hx with rfl | hx
    · exact .inr ⟨rfl, h⟩
    · exact .inl hx
  · rw [visit_of_not_mem h] at hx
    exact .inl hx

theorem size_visit : (visit s b).size = s.size := by
  by_cases h : b ∈ s.unvisited
  · rw [visit_of_mem h]
    have := List.length_erase_of_mem h
    have hpos := List.length_pos_of_mem h
    simp only [State.size, List.length_cons]
    omega
  · rw [visit_of_not_mem h]

end Visit

/-! ## Scans -/

section Scan

variable (l : List α)

theorem scanned_foldl_visit (s : State α) : (l.foldl visit s).scanned = s.scanned := by
  induction l generalizing s with
  | nil => rfl
  | cons b l ih => rw [List.foldl_cons, ih, scanned_visit]

theorem all_foldl_visit_perm (s : State α) : (l.foldl visit s).all.Perm s.all := by
  induction l generalizing s with
  | nil => exact List.Perm.refl _
  | cons b l ih => exact (ih (visit s b)).trans all_visit_perm

theorem unvisited_foldl_visit_subset (s : State α) :
    (l.foldl visit s).unvisited ⊆ s.unvisited := by
  induction l generalizing s with
  | nil => exact List.Subset.refl _
  | cons b l ih => exact List.Subset.trans (ih (visit s b)) unvisited_visit_subset

theorem size_foldl_visit (s : State α) : (l.foldl visit s).size = s.size := by
  induction l generalizing s with
  | nil => rfl
  | cons b l ih => rw [List.foldl_cons, ih, size_visit]

/-- After the visits, none of the visited objects is unvisited. -/
theorem not_mem_unvisited_foldl_visit {s : State α} (hnodup : s.all.Nodup) {b : α}
    (hb : b ∈ l) : b ∉ (l.foldl visit s).unvisited := by
  induction l generalizing s with
  | nil => cases hb
  | cons c l ih =>
    have hnodup' : (visit s c).all.Nodup := all_visit_perm.nodup_iff.2 hnodup
    rw [List.foldl_cons]
    rcases List.mem_cons.1 hb with rfl | hb
    · -- `b` is not unvisited after its own visit, and later visits only remove objects
      have hu : s.unvisited.Nodup := (List.nodup_append.1 (List.nodup_append.1 hnodup).1).1
      exact fun h => not_mem_unvisited_visit hu (unvisited_foldl_visit_subset l _ h)
    · exact ih hnodup' hb

/-- An object pending after the visits was pending, or is a visited object that was
unvisited. -/
theorem mem_pending_foldl_visit {s : State α} {x : α} (hx : x ∈ (l.foldl visit s).pending) :
    x ∈ s.pending ∨ (x ∈ l ∧ x ∈ s.unvisited) := by
  induction l generalizing s with
  | nil => exact .inl hx
  | cons c l ih =>
    rw [List.foldl_cons] at hx
    rcases ih hx with hx | ⟨hxl, hxu⟩
    · rcases mem_pending_visit hx with hx | ⟨rfl, hc⟩
      · exact .inl hx
      · exact .inr ⟨List.mem_cons_self, hc⟩
    · exact .inr ⟨List.mem_cons_of_mem c hxl, unvisited_visit_subset hxu⟩

end Scan

/-! ## Rounds -/

section Round

variable {s : State α} {a : α} {pending : List α}

theorem body_of_pending (h : s.pending = a :: pending) :
    body children s = scan children ⟨s.unvisited, pending, a :: s.scanned⟩ a := by
  rw [body, h]

theorem size_body (h : s.pending = a :: pending) : (body children s).size + 1 = s.size := by
  rw [body_of_pending h, scan, size_foldl_visit]
  simp only [State.size, h, List.length_cons]
  omega

/-- **A round keeps the invariant.** -/
theorem Inv.body (hs : Inv children objects IsRoot s) (h : s.pending = a :: pending)
    (hnodup : objects.Nodup) : Inv children objects IsRoot (body children s) := by
  -- the state once `a` is recorded as scanned, before its children are visited
  set s₀ : State α := ⟨s.unvisited, pending, a :: s.scanned⟩ with hs₀
  have hperm₀ : s₀.all.Perm s.all := by
    simp only [hs₀, State.all, h, List.append_assoc, List.cons_append]
    exact List.Perm.append_left _ List.perm_middle
  have hnodup₀ : s₀.all.Nodup := (hperm₀.trans hs.perm).nodup_iff.2 hnodup
  have ha : Reach children objects IsRoot a := hs.reach a (.inl (by simp [h]))
  rw [body_of_pending h, scan]
  refine ⟨(all_foldl_visit_perm _ s₀).trans (hperm₀.trans hs.perm), ?_, ?_, ?_⟩
  · intro x hx b hb hbo
    rw [scanned_foldl_visit] at hx
    rcases List.mem_cons.1 hx with rfl | hx
    · exact not_mem_unvisited_foldl_visit _ hnodup₀ hb
    · exact fun hu => hs.closed x hx b hb hbo (unvisited_foldl_visit_subset _ s₀ hu)
  · intro x hx
    rw [scanned_foldl_visit] at hx
    rcases hx with hx | hx
    · rcases mem_pending_foldl_visit _ hx with hx | ⟨hxc, hxu⟩
      · exact hs.reach x (.inl (by simp [h, hx]))
      · -- a newly pending object is a child of `a`, and one of the objects
        have hxo : x ∈ objects := hs.perm.subset (by simp [State.all, hxu])
        exact Reach.child ha hxc hxo
    · rcases List.mem_cons.1 hx with rfl | hx
      · exact ha
      · exact hs.reach x (.inr hx)
  · exact fun r hr hu => hs.roots r hr (unvisited_foldl_visit_subset _ s₀ hu)

end Round

/-! ## Runs -/

omit [DecidableEq α] in
/-- **Completeness**: when no object is pending, no reachable object is unvisited. -/
theorem not_mem_unvisited_of_reach {s : State α} (hs : Inv children objects IsRoot s)
    (hpending : s.pending = []) {a : α} (ha : Reach children objects IsRoot a) :
    a ∉ s.unvisited := by
  induction ha with
  | root _ hr => exact hs.roots _ hr
  | @child a b ha hb hbo ih =>
    -- `a` is scanned, since it is neither unvisited nor pending
    have hmem : a ∈ s.all := hs.perm.symm.subset ha.mem
    have hscanned : a ∈ s.scanned := by
      simpa [State.all, hpending, ih] using hmem
    exact hs.closed a hscanned b hb hbo

/-- **The marking loop ends** for every fuel above the objects not yet scanned: no object is
pending, the unvisited ones are those that no root reaches, the scanned ones those that the
roots reach, and no object is left unvisited or scanned twice. -/
theorem run_spec (hnodup : objects.Nodup) {s : State α} (hs : Inv children objects IsRoot s)
    {fuel : ℕ} (hfuel : s.size < fuel) :
    ∃ t, WhileLoop.run cond (body children) fuel s = some t ∧ t.pending = [] ∧
      (∀ a, a ∈ t.unvisited ↔ a ∈ objects ∧ ¬Reach children objects IsRoot a) ∧
      (∀ a, a ∈ t.scanned ↔ a ∈ objects ∧ Reach children objects IsRoot a) ∧
      t.unvisited.Nodup ∧ t.scanned.Nodup := by
  have hstep : ∀ s, Inv children objects IsRoot s → cond s = true →
      Inv children objects IsRoot (body children s) ∧ (body children s).size < s.size := by
    intro s hs hc
    obtain ⟨a, pending, h⟩ := List.exists_cons_of_ne_nil (by simpa [cond] using hc)
    have hsize : (body children s).size + 1 = s.size := size_body h
    exact ⟨hs.body h hnodup, by omega⟩
  obtain ⟨t, hrun, ht, hstop⟩ :=
    WhileLoop.run_of_variant (Inv children objects IsRoot) State.size hstep fuel s hs hfuel
  have hpending : t.pending = [] := by simpa [cond] using hstop
  have hall : ∀ a, a ∈ objects ↔ a ∈ t.unvisited ∨ a ∈ t.scanned := fun a => by
    rw [← ht.perm.mem_iff]
    simp [State.all, hpending]
  have hdisj : (t.unvisited ++ t.scanned).Nodup := by
    simpa [State.all, hpending] using ht.perm.nodup_iff.2 hnodup
  refine ⟨t, hrun, hpending, fun a => ⟨fun ha => ⟨(hall a).2 (.inl ha), fun hr =>
    not_mem_unvisited_of_reach ht hpending hr ha⟩, fun ⟨ha, hr⟩ => ?_⟩, fun a => ⟨fun ha =>
    ⟨(hall a).2 (.inr ha), ht.reach a (.inr ha)⟩, fun ⟨ha, hr⟩ => ?_⟩,
    (List.nodup_append.1 hdisj).1, (List.nodup_append.1 hdisj).2.1⟩
  · rcases (hall a).1 ha with hu | hsc
    · exact hu
    · exact absurd (ht.reach a (.inr hsc)) hr
  · rcases (hall a).1 ha with hu | hsc
    · exact absurd hu (not_mem_unvisited_of_reach ht hpending hr)
    · exact hsc

end Worklist
