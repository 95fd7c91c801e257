import Mathlib

set_option relaxedAutoImplicit false
set_option autoImplicit false

/-!
# Finite maps and finite sets stored as lists

A container that keeps its pairs, or its elements, in some order of its own, each once,
stores a finite map (`AList`) or a finite set (`Finset`): its list is a permutation of the
map's entries, or its multiset is the set's. The lemmas here turn what a container operation
does to its list (adds a pair, drops one, replaces one) into the operation on the map or the
set that it implements, and read lookups, membership and sizes off the list.

## Main definitions

* `FiniteMap.Represents` — a list holds the entries of a finite map.
* `FiniteMap.RepresentsSet` — a list holds the elements of a finite set.

## Main results

* `Represents.insert_of_notMem`, `Represents.replace`, `Represents.erase` — adding a pair
  with a new key, replacing the pair of a key, and dropping a pair represent `AList.insert`
  and `AList.erase`.
* `Represents.lookup_eq_some`, `Represents.lookup_eq_none` — lookups read off the list.
* `lookup_insert_eq_some`, `erase_insert_self` — looking up and erasing after an insertion.
* `RepresentsSet.insert_of_notMem`, `RepresentsSet.erase` — the same for sets.

## Implementation notes

A change of the list is given as a permutation with the pair that goes in or out appended on
one side, as `(l' ++ [x]).Perm l` for a removal: that is the form in which a container that
moves its elements around states what it did.
-/

namespace FiniteMap

/-! ## Maps -/

section Map

variable {α : Type*} {β : α → Type*}

/-- The list `l` holds the entries of the finite map `a`, each once, in some order. -/
def Represents (l : List (Sigma β)) (a : AList β) : Prop := l.Perm a.entries

variable {l l' : List (Sigma β)} {a : AList β}

theorem represents_empty : Represents ([] : List (Sigma β)) ∅ := by
  rw [Represents, AList.empty_entries]

theorem Represents.nodupKeys (h : Represents l a) : l.NodupKeys :=
  (List.Perm.nodup_iff (h.map Sigma.fst)).2 a.nodupKeys

theorem Represents.length_eq (h : Represents l a) : l.length = a.keys.length := by
  rw [List.Perm.length_eq h, AList.keys, List.keys, List.length_map]

theorem Represents.mem_iff (h : Represents l a) {k : α} : k ∈ a ↔ ∃ x ∈ l, x.1 = k := by
  rw [AList.mem_keys, AList.keys, List.mem_keys]
  constructor
  · rintro ⟨b, hb⟩
    exact ⟨⟨k, b⟩, h.symm.subset hb, rfl⟩
  · rintro ⟨x, hx, rfl⟩
    exact ⟨x.2, h.subset hx⟩

theorem Represents.of_perm (h : Represents l a) (hl' : l'.Perm l) : Represents l' a :=
  hl'.trans h

variable [DecidableEq α]

/-- The value of a key is the one its pair in the list carries. -/
theorem Represents.lookup_eq_some (h : Represents l a) {x : Sigma β} (hx : x ∈ l) :
    a.lookup x.1 = some x.2 :=
  AList.mem_lookup_iff.2 (h.subset hx)

/-- A key no pair of the list carries has no value. -/
theorem Represents.lookup_eq_none (h : Represents l a) {k : α} (hk : ∀ x ∈ l, x.1 ≠ k) :
    a.lookup k = none := by
  rw [AList.lookup_eq_none, h.mem_iff]
  rintro ⟨x, hx, rfl⟩
  exact hk x hx rfl

/-- In a list whose keys do not repeat, a pair and the rest of the list with its key
removed make up the list. -/
theorem perm_cons_kerase (hnd : l.NodupKeys) {x : Sigma β} (hx : x ∈ l) :
    l.Perm (x :: l.kerase x.1) := by
  obtain ⟨b, l₁, l₂, -, hl, he⟩ := List.exists_of_kerase (List.mem_keys_of_mem hx)
  -- the pair found for the key is `x` itself, as the keys do not repeat
  have hb : b = x.2 := by
    have h₁ := List.mem_dlookup hnd (show (⟨x.1, b⟩ : Sigma β) ∈ l by rw [hl]; simp)
    have h₂ := List.mem_dlookup hnd (show (⟨x.1, x.2⟩ : Sigma β) ∈ l from hx)
    rw [Option.mem_def] at h₁ h₂
    exact Option.some.inj (h₁.symm.trans h₂)
  rw [he, hl, hb]
  exact List.perm_middle

/-- Adding a pair with a new key is `AList.insert`. -/
theorem Represents.insert_of_notMem (h : Represents l a) {k : α} {v : β k} (hk : k ∉ a)
    (hl' : l'.Perm (⟨k, v⟩ :: l)) : Represents l' (a.insert k v) := by
  rw [Represents, AList.entries_insert_of_notMem hk]
  exact hl'.trans (h.cons _)

/-- Replacing the pair of a key by one with another value is `AList.insert`. -/
theorem Represents.replace (h : Represents l a) {x : Sigma β} {v : β x.1} (hx : x ∈ l)
    (hl' : (l' ++ [x]).Perm (l ++ [⟨x.1, v⟩])) : Represents l' (a.insert x.1 v) := by
  have hsplit := perm_cons_kerase h.nodupKeys hx
  -- move `x` to the end of both sides and cancel it
  have hswap : ((x :: l.kerase x.1) ++ [(⟨x.1, v⟩ : Sigma β)]).Perm
      ((⟨x.1, v⟩ :: l.kerase x.1) ++ [x]) := by
    simp only [List.cons_append]
    exact (((List.perm_append_singleton _ _).cons x).trans (List.Perm.swap _ _ _)).trans
      ((List.perm_append_singleton _ _).symm.cons _)
  have hmid := (hl'.trans (hsplit.append_right _)).trans hswap
  rw [Represents, AList.entries_insert]
  exact ((List.perm_append_right_iff _).1 hmid).trans ((h.kerase h.nodupKeys).cons _)

/-- Erasing the key just inserted erases what it held before. -/
theorem erase_insert_self (a : AList β) (k : α) (v : β k) : (a.insert k v).erase k = a.erase k := by
  apply AList.ext
  change (a.insert k v).entries.kerase k = a.entries.kerase k
  rw [AList.entries_insert, List.kerase_cons_eq (show k = (⟨k, v⟩ : Sigma β).1 from rfl)]

/-- What a key finds after an insertion into a map whose values have one type: at the key
inserted, the value inserted, and at any other key what it found before. -/
theorem lookup_insert_eq_some {γ : Type*} {a : AList fun _ : α => γ} {k k' : α} {v v' : γ} :
    (a.insert k v).lookup k' = some v' ↔ (k' = k ∧ v = v') ∨ (k' ≠ k ∧ a.lookup k' = some v') := by
  by_cases h : k' = k
  · subst h
    rw [AList.lookup_insert, Option.some_inj]
    simp
  · rw [AList.lookup_insert_ne h]
    simp [h]

/-- Erasing a key without a pair changes nothing. -/
theorem Represents.erase_of_notMem (h : Represents l a) {k : α} (hk : k ∉ a) :
    Represents l (a.erase k) := by
  show l.Perm (a.entries.kerase k)
  rw [List.kerase_of_notMem_keys hk]
  exact h

/-- Dropping the pair of a key is `AList.erase`. -/
theorem Represents.erase (h : Represents l a) {x : Sigma β} (hl' : (l' ++ [x]).Perm l) :
    Represents l' (a.erase x.1) := by
  have hx : x ∈ l := hl'.subset (List.mem_append_right _ (List.mem_singleton_self x))
  have hmid : (l' ++ [x]).Perm (l.kerase x.1 ++ [x]) :=
    hl'.trans ((perm_cons_kerase h.nodupKeys hx).trans (List.perm_append_singleton _ _).symm)
  show l'.Perm (a.entries.kerase x.1)
  exact ((List.perm_append_right_iff _).1 hmid).trans (h.kerase h.nodupKeys)

end Map

/-! ## Sets -/

section Set

variable {α : Type*}

/-- The list `l` holds the elements of the finite set `s`, each once, in some order. -/
def RepresentsSet (l : List α) (s : Finset α) : Prop := (l : Multiset α) = s.val

variable {l l' : List α} {s : Finset α}

theorem representsSet_empty : RepresentsSet ([] : List α) ∅ := rfl

theorem RepresentsSet.nodup (h : RepresentsSet l s) : l.Nodup := by
  have hs := s.nodup
  rw [← h] at hs
  exact Multiset.coe_nodup.1 hs

theorem RepresentsSet.mem_iff (h : RepresentsSet l s) {e : α} : e ∈ s ↔ e ∈ l := by
  rw [← Finset.mem_val, ← h, Multiset.mem_coe]

theorem RepresentsSet.length_eq (h : RepresentsSet l s) : l.length = s.card := by
  rw [Finset.card, ← h, Multiset.coe_card]

theorem RepresentsSet.perm (h : RepresentsSet l s) (hl' : l'.Perm l) : RepresentsSet l' s := by
  rw [RepresentsSet, ← h]
  exact Multiset.coe_eq_coe.2 hl'

variable [DecidableEq α]

/-- Adding a new element is `insert`. -/
theorem RepresentsSet.insert_of_notMem (h : RepresentsSet l s) {e : α} (he : e ∉ s)
    (hl' : l'.Perm (e :: l)) : RepresentsSet l' (insert e s) := by
  rw [RepresentsSet, Finset.insert_val_of_notMem he, ← h, Multiset.coe_eq_coe.2 hl',
    Multiset.cons_coe]

/-- Dropping an element is `Finset.erase`. -/
theorem RepresentsSet.erase (h : RepresentsSet l s) {e : α} (hl' : (l' ++ [e]).Perm l) :
    RepresentsSet l' (s.erase e) := by
  have hmid : (l' ++ [e]).Perm (l.erase e ++ [e]) :=
    hl'.trans ((List.perm_cons_erase (hl'.subset (by simp))).trans
      (List.perm_append_singleton _ _).symm)
  rw [RepresentsSet, Finset.erase_val, ← h, Multiset.coe_erase]
  exact Multiset.coe_eq_coe.2 ((List.perm_append_right_iff _).1 hmid)

end Set

end FiniteMap
