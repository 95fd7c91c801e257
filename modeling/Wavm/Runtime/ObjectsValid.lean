import Wavm.Runtime.Objects

set_option relaxedAutoImplicit false
set_option autoImplicit false

/-!
# The invariants of the runtime's memories and tables

Every state that `Wavm.Runtime.step` reaches from fresh quotas keeps three facts. Each quota
counter in use is the sum of what the live objects charge to it. No counter passes its
maximum. Every live object keeps its own invariant: the size bounds of a memory or a table,
and the sentinel invariant of a table (`Table.Valid`). The step lemma proves that one call
keeps them, one case per call, from the lemmas of `Wavm.Runtime.Memory` and
`Wavm.Runtime.Table` about each function; the run lemma follows by induction on the calls.

## Main definitions

* `Wavm.Runtime.RuntimeState.Invariant` — the three facts.
* `Wavm.Runtime.RuntimeState.QuotaAccounts`, `MemoryGrowsBounded`, `TableGrowsBounded` — the
  accounts of the quotas, and what a grow of a live object can do.
* `Wavm.Runtime.RuntimeState.TablesGuarded` — what the sentinels of a live table guarantee.

## Main results

* `Wavm.Runtime.RuntimeState.Invariant.step`, `Wavm.Runtime.invariant_of_reachable`.
* `Wavm.Runtime.resourceQuota_accounting` — after every run, the quotas account for exactly
  the live objects, and a grow either fails and changes nothing or stays within every bound.
* `Wavm.Runtime.table_sentinel_invariant` — after every run, the sentinels of a live table mark
  exactly its slots past `numElements`, so its accesses throw exactly out of bounds; a grow
  initializes exactly the new slots; and no call shrinks the table.
-/

namespace Wavm.Runtime

open Wavm.IR HandleStore

variable {QuotaId Object : Type}

namespace RuntimeState

/-! ## Reading the store -/

theorem getElem?_of_memoryAt {s : RuntimeState QuotaId Object} {handle : ℕ} {memory : Memory QuotaId}
    (h : s.memoryAt handle = some memory) : s.objects[handle]? = some (some (.memory memory)) := by
  unfold memoryAt at h
  rcases hs : s.objects[handle]? with _ | _ | memory' | table <;> rw [hs] at h <;>
    simp only [Option.bind_none, Option.bind_some, slotMemory, reduceCtorEq, Option.some.injEq] at h
  rw [h]

theorem getElem?_of_tableAt {s : RuntimeState QuotaId Object} {handle : ℕ} {table : Table QuotaId Object}
    (h : s.tableAt handle = some table) : s.objects[handle]? = some (some (.table table)) := by
  unfold tableAt at h
  rcases hs : s.objects[handle]? with _ | _ | memory | table' <;> rw [hs] at h <;>
    simp only [Option.bind_none, Option.bind_some, slotTable, reduceCtorEq, Option.some.injEq] at h
  rw [h]

/-- The table at a handle after its slot is replaced, and at any other handle. -/
theorem tableAt_setObject (s : RuntimeState QuotaId Object) (quotas : QuotaId → ResourceQuota)
    (handle' handle : ℕ) (slot : Option (RuntimeObject QuotaId Object)) :
    (s.setObject quotas handle' slot).tableAt handle =
      if handle' = handle then (if handle' < s.objects.length then slotTable slot else none)
      else s.tableAt handle := by
  unfold tableAt setObject
  rw [List.getElem?_set]
  split_ifs <;> rfl

/-- A new object takes a fresh handle: the tables at the others stay. -/
theorem tableAt_addObject {s : RuntimeState QuotaId Object} {handle : ℕ} {table : Table QuotaId Object}
    (h : s.tableAt handle = some table) (quotas : QuotaId → ResourceQuota)
    (slot : Option (RuntimeObject QuotaId Object)) : (s.addObject quotas slot).1.tableAt handle = some table := by
  have hlt := (List.getElem?_eq_some_iff.1 (getElem?_of_tableAt h)).1
  cases slot with
  | none => exact h
  | some object =>
    rw [← h]
    simp only [addObject, tableAt, List.getElem?_append_left hlt]

/-! ## The invariant -/

variable [DecidableEq QuotaId]

/-- **The invariant of the runtime's state**: each counter in use is what the live objects charge
to it, no counter passes its maximum, and every live object is valid. -/
structure Invariant (s : RuntimeState QuotaId Object) : Prop where
  accounted : ∀ q c, inUse s.quotas q c = weight (RuntimeObject.charge q c) s.objects
  withinMax : WithinMax s.quotas
  valid : AllLive RuntimeObject.Valid s.objects

theorem Invariant.valid_of_memoryAt {s : RuntimeState QuotaId Object} (hinv : s.Invariant) {handle : ℕ}
    {memory : Memory QuotaId} (h : s.memoryAt handle = some memory) : memory.Valid :=
  hinv.valid handle (.memory memory) (getElem?_of_memoryAt h)

theorem Invariant.valid_of_tableAt {s : RuntimeState QuotaId Object} (hinv : s.Invariant) {handle : ℕ}
    {table : Table QuotaId Object} (h : s.tableAt handle = some table) : table.Valid :=
  hinv.valid handle (.table table) (getElem?_of_tableAt h)

/-- A live object's charge is held by the counters. -/
theorem Invariant.charge_le {s : RuntimeState QuotaId Object} (hinv : s.Invariant) {handle : ℕ}
    {object : RuntimeObject QuotaId Object} (h : s.objects[handle]? = some (some object)) (q : QuotaId)
    (c : QuotaCounter) : object.charge q c ≤ inUse s.quotas q c := by
  rw [hinv.accounted]
  exact le_weight _ h

theorem Invariant.numPages_le {s : RuntimeState QuotaId Object} (hinv : s.Invariant) {handle : ℕ}
    {memory : Memory QuotaId} (h : s.memoryAt handle = some memory) (q : QuotaId)
    (hq : memory.resourceQuota = some q) : memory.numPages.toNat ≤ inUse s.quotas q .memoryPages := by
  have hle := hinv.charge_le (getElem?_of_memoryAt h) q .memoryPages
  simpa [RuntimeObject.charge, Memory.charge, chargeOf, hq] using hle

theorem Invariant.numElements_le {s : RuntimeState QuotaId Object} (hinv : s.Invariant) {handle : ℕ}
    {table : Table QuotaId Object} (h : s.tableAt handle = some table) (q : QuotaId)
    (hq : table.resourceQuota = some q) : table.numElements.toNat ≤ inUse s.quotas q .tableElems := by
  have hle := hinv.charge_le (getElem?_of_tableAt h) q .tableElems
  simpa [RuntimeObject.charge, Table.charge, chargeOf, hq] using hle

/-- **Storing a new object** keeps the invariant when the quotas were charged with exactly its
charge. -/
theorem Invariant.addObject {s : RuntimeState QuotaId Object} (hinv : s.Invariant)
    {quotas : QuotaId → ResourceQuota} {object : RuntimeObject QuotaId Object}
    (hr : Recharged s.quotas quotas (fun _ _ => 0) (fun q c => object.charge q c)) (hw : WithinMax quotas)
    (hv : object.Valid) : (s.addObject quotas (some object)).1.Invariant := by
  refine ⟨fun q c => ?_, hw, hinv.valid.push fun o ho => by cases ho; exact hv⟩
  have h₁ := hr q c
  have h₂ := hinv.accounted q c
  dsimp only at h₁
  simp only [RuntimeState.addObject, weight_push, slotWeight_some]
  omega

theorem Invariant.addObject_none {s : RuntimeState QuotaId Object} (hinv : s.Invariant) :
    (s.addObject s.quotas none).1.Invariant :=
  hinv

/-- **Replacing a live object** keeps the invariant when the quotas moved by exactly the change
of its charge. -/
theorem Invariant.setObject {s : RuntimeState QuotaId Object} (hinv : s.Invariant) {handle : ℕ}
    {object : RuntimeObject QuotaId Object} (hat : s.objects[handle]? = some (some object))
    {quotas : QuotaId → ResourceQuota} {slot : Option (RuntimeObject QuotaId Object)}
    (hr : Recharged s.quotas quotas (fun q c => object.charge q c)
      (fun q c => slotWeight (RuntimeObject.charge q c) slot))
    (hw : WithinMax quotas) (hv : ∀ o, slot = some o → o.Valid) : (s.setObject quotas handle slot).Invariant := by
  refine ⟨fun q c => ?_, hw, hinv.valid.set handle hv⟩
  have h₁ := hr q c
  have h₂ := hinv.accounted q c
  have h₃ := weight_set (RuntimeObject.charge q c) hat slot
  dsimp only at h₁
  simp only [RuntimeState.setObject, slotWeight_some] at h₃ ⊢
  omega

theorem Invariant.setMemory {s : RuntimeState QuotaId Object} (hinv : s.Invariant) {handle : ℕ}
    {memory memory' : Memory QuotaId} (hat : s.memoryAt handle = some memory) {quotas : QuotaId → ResourceQuota}
    (hr : Recharged s.quotas quotas memory.charge memory'.charge) (hw : WithinMax quotas) (hv : memory'.Valid) :
    (s.setObject quotas handle (some (.memory memory'))).Invariant :=
  hinv.setObject (getElem?_of_memoryAt hat) hr hw fun o ho => by cases ho; exact hv

theorem Invariant.setTable {s : RuntimeState QuotaId Object} (hinv : s.Invariant) {handle : ℕ}
    {table table' : Table QuotaId Object} (hat : s.tableAt handle = some table) {quotas : QuotaId → ResourceQuota}
    (hr : Recharged s.quotas quotas table.charge table'.charge) (hw : WithinMax quotas) (hv : table'.Valid) :
    (s.setObject quotas handle (some (.table table'))).Invariant :=
  hinv.setObject (getElem?_of_tableAt hat) hr hw fun o ho => by cases ho; exact hv

/-- Element writes to a live table keep the invariant: they change no charge. -/
theorem Invariant.rewriteTable {s : RuntimeState QuotaId Object} (hinv : s.Invariant) {handle : ℕ}
    {table table' : Table QuotaId Object} (hat : s.tableAt handle = some table) (hr : table.Rewritten table') :
    (s.setObject s.quotas handle (some (.table table'))).Invariant :=
  hinv.setTable hat (by rw [hr.charge_eq]; exact Recharged.refl _ _) hinv.withinMax hr.valid

/-- **Destroying a live object** keeps the invariant when the quotas were refunded its charge. -/
theorem Invariant.freeObject {s : RuntimeState QuotaId Object} (hinv : s.Invariant) {handle : ℕ}
    {object : RuntimeObject QuotaId Object} (hat : s.objects[handle]? = some (some object))
    {quotas : QuotaId → ResourceQuota} (hr : Recharged s.quotas quotas (fun q c => object.charge q c) (fun _ _ => 0))
    (hw : WithinMax quotas) : (s.setObject quotas handle none).Invariant :=
  hinv.setObject hat hr hw fun o ho => by cases ho

end RuntimeState

open RuntimeState

variable [DecidableEq QuotaId]

theorem invariant_initialState (memoryPagesMax tableElemsMax : QuotaId → Uptr) :
    (initialState memoryPagesMax tableElemsMax : RuntimeState QuotaId Object).Invariant := by
  refine ⟨fun q c => ?_, fun q c => ?_, allLive_nil _⟩ <;> cases c <;> simp [inUse, initialState, ResourceQuota.counter]

omit [DecidableEq QuotaId] in
/-- The `table.copy` intrinsic keeps the destination valid: every value it writes was read from a
slot in bounds. -/
theorem rewritten_copyTable (sourceTable : Table QuotaId Object) {destTable : Table QuotaId Object}
    (hv : destTable.Valid) (aliased : Bool) (destOffset sourceOffset numElements : UInt32) :
    destTable.Rewritten (copyTable sourceTable destTable aliased destOffset sourceOffset numElements).1 := by
  unfold copyTable
  cases aliased with
  | true =>
    rw [if_pos rfl]
    apply copyTableElements_invariant (fun table => destTable.Rewritten table)
    · exact fun _ _ _ h => ne_outOfBounds_of_getTableElementNonNull h
    · exact fun _ index _ ht he => ht.trans (rewritten_setTableElementNonNull ht.valid index he)
    · exact Table.Rewritten.refl hv
  | false =>
    rw [if_neg Bool.false_ne_true]
    dsimp only
    -- the loop's state is the pair of tables; only the destination is written
    apply copyTableElements_invariant
      (fun tables : Table QuotaId Object × Table QuotaId Object => destTable.Rewritten tables.2)
    · exact fun _ _ _ h => ne_outOfBounds_of_getTableElementNonNull h
    · exact fun _ index _ ht he => ht.trans (rewritten_setTableElementNonNull ht.valid index he)
    · exact Table.Rewritten.refl hv

/-- **The step lemma**: every call keeps the invariant. The cases follow the calls; each one
is closed by the lemma of the function it runs. -/
theorem RuntimeState.Invariant.step {s : RuntimeState QuotaId Object} (hinv : s.Invariant)
    (pageSizeLog2 : Uptr) (op : RuntimeOp QuotaId Object) : (step pageSizeLog2 s op).1.Invariant := by
  cases op with
  | createMemory type resourceQuota reserveSucceeds commitSucceeds memoryIndex =>
    rcases createMemory_cases s.quotas type resourceQuota reserveSucceeds commitSucceeds memoryIndex with
      h | ⟨quotas, memory, h, hc⟩ <;> simp only [Wavm.Runtime.step, h, Option.map_none, Option.map_some]
    · exact hinv.addObject_none
    · exact hinv.addObject hc.recharged (hc.withinMax hinv.withinMax) hc.valid
  | cloneMemory handle reserveSucceeds commitSucceeds =>
    cases hm : s.memoryAt handle with
    | none => simpa only [Wavm.Runtime.step, hm] using hinv
    | some memory =>
      rcases cloneMemory_cases s.quotas memory reserveSucceeds commitSucceeds with
        h | ⟨quotas, newMemory, h, hc, -, -⟩ <;>
        simp only [Wavm.Runtime.step, hm, h, Option.map_none, Option.map_some]
      · exact hinv.addObject_none
      · exact hinv.addObject hc.recharged (hc.withinMax hinv.withinMax) hc.valid
  | growMemory handle numPagesToGrow commitSucceeds =>
    cases hm : s.memoryAt handle with
    | none => simpa only [Wavm.Runtime.step, hm] using hinv
    | some memory =>
      simp only [Wavm.Runtime.step, hm]
      exact hinv.setMemory hm (growMemory_recharged _ _ _ _) (growMemory_withinMax hinv.withinMax _ _ _)
        (growMemory_valid (hinv.valid_of_memoryAt hm) _ _ _).1
  | memoryGrow handle deltaPages commitSucceeds =>
    cases hm : s.memoryAt handle with
    | none => simpa only [Wavm.Runtime.step, hm] using hinv
    | some memory =>
      simp only [Wavm.Runtime.step, hm, memoryGrow_eq]
      exact hinv.setMemory hm (growMemory_recharged _ _ _ _) (growMemory_withinMax hinv.withinMax _ _ _)
        (growMemory_valid (hinv.valid_of_memoryAt hm) _ _ _).1
  | deleteMemory handle =>
    cases hm : s.memoryAt handle with
    | none => simpa only [Wavm.Runtime.step, hm] using hinv
    | some memory =>
      simp only [Wavm.Runtime.step, hm]
      exact hinv.freeObject (getElem?_of_memoryAt hm) (deleteMemory_recharged (hinv.numPages_le hm))
        (deleteMemory_withinMax hinv.withinMax (hinv.numPages_le hm))
  | createTable type element resourceQuota reserveSucceeds commitSucceeds tableIndex =>
    rcases createTable_cases s.quotas type element resourceQuota reserveSucceeds commitSucceeds pageSizeLog2
        tableIndex with h | ⟨quotas, table, h, hc⟩ <;>
      simp only [Wavm.Runtime.step, h, Option.map_none, Option.map_some]
    · exact hinv.addObject_none
    · exact hinv.addObject hc.recharged (hc.withinMax hinv.withinMax) hc.valid
  | cloneTable handle reserveSucceeds commitSucceeds =>
    cases ht : s.tableAt handle with
    | none => simpa only [Wavm.Runtime.step, ht] using hinv
    | some table =>
      rcases cloneTable_cases (hinv.valid_of_tableAt ht) s.quotas reserveSucceeds commitSucceeds pageSizeLog2 with
        h | ⟨quotas, newTable, h, hc, -, -, -⟩ <;>
        simp only [Wavm.Runtime.step, ht, h, Option.map_none, Option.map_some]
      · exact hinv.addObject_none
      · exact hinv.addObject hc.recharged (hc.withinMax hinv.withinMax) hc.valid
  | growTable handle numElementsToGrow initialElement commitSucceeds =>
    cases ht : s.tableAt handle with
    | none => simpa only [Wavm.Runtime.step, ht] using hinv
    | some table =>
      simp only [Wavm.Runtime.step, ht, growTable]
      exact hinv.setTable ht (growTableImpl_recharged _ _ _ _ _ _ _)
        (growTableImpl_withinMax hinv.withinMax _ _ _ _ _ _)
        (growTableImpl_valid (hinv.valid_of_tableAt ht) _ _ (by simp) _ _)
  | tableGrow handle initialValue deltaNumElements commitSucceeds =>
    cases ht : s.tableAt handle with
    | none => simpa only [Wavm.Runtime.step, ht] using hinv
    | some table =>
      simp only [Wavm.Runtime.step, ht, tableGrow_eq, growTable]
      exact hinv.setTable ht (growTableImpl_recharged _ _ _ _ _ _ _)
        (growTableImpl_withinMax hinv.withinMax _ _ _ _ _ _)
        (growTableImpl_valid (hinv.valid_of_tableAt ht) _ _ (TableElement.ofObject_ne_outOfBounds _) _ _)
  | deleteTable handle =>
    cases ht : s.tableAt handle with
    | none => simpa only [Wavm.Runtime.step, ht] using hinv
    | some table =>
      simp only [Wavm.Runtime.step, ht]
      exact hinv.freeObject (getElem?_of_tableAt ht) (deleteTable_recharged (hinv.numElements_le ht))
        (deleteTable_withinMax hinv.withinMax (hinv.numElements_le ht))
  | getTableElement handle index =>
    cases ht : s.tableAt handle <;> simpa only [Wavm.Runtime.step, ht] using hinv
  | setTableElement handle index newValue =>
    cases ht : s.tableAt handle with
    | none => simpa only [Wavm.Runtime.step, ht] using hinv
    | some table =>
      simp only [Wavm.Runtime.step, ht]
      exact hinv.rewriteTable ht (rewritten_setTableElement (hinv.valid_of_tableAt ht) _ _)
  | tableGet handle index =>
    cases ht : s.tableAt handle <;> simpa only [Wavm.Runtime.step, ht] using hinv
  | tableSet handle index value =>
    cases ht : s.tableAt handle with
    | none => simpa only [Wavm.Runtime.step, ht] using hinv
    | some table =>
      simp only [Wavm.Runtime.step, ht]
      exact hinv.rewriteTable ht (rewritten_setTableElement (hinv.valid_of_tableAt ht) _ _)
  | tableFill handle destOffset value numElements =>
    cases ht : s.tableAt handle with
    | none => simpa only [Wavm.Runtime.step, ht] using hinv
    | some table =>
      simp only [Wavm.Runtime.step, ht]
      exact hinv.rewriteTable ht (rewritten_fillTableElements (TableElement.ofObject_ne_outOfBounds _) _ _ _
        (hinv.valid_of_tableAt ht))
  | tableCopy destOffset sourceOffset numElements sourceHandle destHandle =>
    cases hs : s.tableAt sourceHandle with
    | none => simpa only [Wavm.Runtime.step, hs] using hinv
    | some sourceTable =>
      cases hd : s.tableAt destHandle with
      | none => simpa only [Wavm.Runtime.step, hs, hd] using hinv
      | some destTable =>
        simp only [Wavm.Runtime.step, hs, hd]
        exact hinv.rewriteTable hd (rewritten_copyTable _ (hinv.valid_of_tableAt hd) _ _ _ _)
  | tableInit handle destIndex sourceIndex numElems elemSegment =>
    cases ht : s.tableAt handle with
    | none => simpa only [Wavm.Runtime.step, ht] using hinv
    | some table =>
      simp only [Wavm.Runtime.step, ht]
      exact hinv.rewriteTable ht (rewritten_tableInit (hinv.valid_of_tableAt ht) _ _ _ _)

/-- **The run lemma**: every reachable state keeps the invariant. -/
theorem invariant_of_reachable {pageSizeLog2 : Uptr} {s : RuntimeState QuotaId Object}
    (hs : Reachable pageSizeLog2 s) : s.Invariant := by
  induction hs with
  | init memoryPagesMax tableElemsMax => exact invariant_initialState _ _
  | step op _ ih => exact ih.step pageSizeLog2 op

/-! ## No call shrinks a table -/

namespace RuntimeState

omit [DecidableEq QuotaId] in
/-- A table after a slot is replaced is the one before, or what the slot now holds. -/
theorem numElements_le_setObject {s : RuntimeState QuotaId Object} {handle handle' : ℕ}
    {table table' : Table QuotaId Object} (ht : s.tableAt handle = some table) (quotas : QuotaId → ResourceQuota)
    (slot : Option (RuntimeObject QuotaId Object))
    (ht' : (s.setObject quotas handle' slot).tableAt handle = some table')
    (hslot : ∀ t t', s.tableAt handle' = some t → slotTable slot = some t' →
      t.numElements.toNat ≤ t'.numElements.toNat) :
    table.numElements.toNat ≤ table'.numElements.toNat := by
  rw [tableAt_setObject] at ht'
  by_cases hh : handle' = handle
  · -- the replaced slot: it holds what was written, if it was in the store
    subst hh
    rw [if_pos rfl] at ht'
    by_cases hlt : handle' < s.objects.length
    · rw [if_pos hlt] at ht'
      exact hslot table table' ht ht'
    · rw [if_neg hlt] at ht'
      cases ht'
  · rw [if_neg hh] at ht'
    obtain rfl := Option.some.inj (ht.symm.trans ht')
    exact Nat.le_refl _

omit [DecidableEq QuotaId] in
/-- Element writes keep the size of the table they write. -/
theorem numElements_le_rewrite {s : RuntimeState QuotaId Object} {handle handle' : ℕ}
    {table table' t₀ t₁ : Table QuotaId Object} (ht : s.tableAt handle = some table)
    (hat : s.tableAt handle' = some t₀) (hr : t₀.Rewritten t₁) (quotas : QuotaId → ResourceQuota)
    (ht' : (s.setObject quotas handle' (some (.table t₁))).tableAt handle = some table') :
    table.numElements.toNat ≤ table'.numElements.toNat := by
  refine numElements_le_setObject ht quotas _ ht' fun t t' h h' => ?_
  rw [hat] at h
  cases h
  cases h'
  rw [hr.numElements_eq]

omit [DecidableEq QuotaId] in
/-- A slot that holds a memory, or nothing, holds no table. -/
theorem numElements_le_setObject_of_not_table {s : RuntimeState QuotaId Object} {handle handle' : ℕ}
    {table table' : Table QuotaId Object} (ht : s.tableAt handle = some table) (quotas : QuotaId → ResourceQuota)
    {slot : Option (RuntimeObject QuotaId Object)} (hslot : slotTable slot = none)
    (ht' : (s.setObject quotas handle' slot).tableAt handle = some table') :
    table.numElements.toNat ≤ table'.numElements.toNat :=
  numElements_le_setObject ht quotas slot ht' fun _ _ _ h => by rw [hslot] at h; cases h

omit [DecidableEq QuotaId] in
theorem numElements_le_addObject {s : RuntimeState QuotaId Object} {handle : ℕ}
    {table table' : Table QuotaId Object} (ht : s.tableAt handle = some table) (quotas : QuotaId → ResourceQuota)
    (slot : Option (RuntimeObject QuotaId Object)) (ht' : (s.addObject quotas slot).1.tableAt handle = some table') :
    table.numElements.toNat ≤ table'.numElements.toNat := by
  obtain rfl := Option.some.inj ((tableAt_addObject ht quotas slot).symm.trans ht')
  exact Nat.le_refl _

end RuntimeState

/-- **No call shrinks a live table**: a table at a handle before a call that is still a table
after it has at least as many elements. -/
theorem RuntimeState.Invariant.numElements_le_step {s : RuntimeState QuotaId Object} (hinv : s.Invariant)
    (pageSizeLog2 : Uptr)
    (op : RuntimeOp QuotaId Object) {handle : ℕ} {table table' : Table QuotaId Object}
    (ht : s.tableAt handle = some table)
    (ht' : (Wavm.Runtime.step pageSizeLog2 s op).1.tableAt handle = some table') :
    table.numElements.toNat ≤ table'.numElements.toNat := by
  -- a call on a handle that is not live changes nothing
  have hsame : (s.tableAt handle = some table') → table.numElements.toNat ≤ table'.numElements.toNat := by
    intro h
    obtain rfl := Option.some.inj (ht.symm.trans h)
    exact Nat.le_refl _
  cases op with
  | createMemory =>
    exact numElements_le_addObject ht _ _ ht'
  | cloneMemory handle' =>
    cases hm : s.memoryAt handle' <;> simp only [Wavm.Runtime.step, hm] at ht'
    · exact hsame ht'
    · exact numElements_le_addObject ht _ _ ht'
  | growMemory handle' =>
    cases hm : s.memoryAt handle' <;> simp only [Wavm.Runtime.step, hm] at ht'
    · exact hsame ht'
    · exact numElements_le_setObject_of_not_table ht _ rfl ht'
  | memoryGrow handle' =>
    cases hm : s.memoryAt handle' <;> simp only [Wavm.Runtime.step, hm] at ht'
    · exact hsame ht'
    · exact numElements_le_setObject_of_not_table ht _ rfl ht'
  | deleteMemory handle' =>
    cases hm : s.memoryAt handle' <;> simp only [Wavm.Runtime.step, hm] at ht'
    · exact hsame ht'
    · exact numElements_le_setObject_of_not_table ht _ rfl ht'
  | createTable =>
    exact numElements_le_addObject ht _ _ ht'
  | cloneTable handle' =>
    cases ht₀ : s.tableAt handle' <;> simp only [Wavm.Runtime.step, ht₀] at ht'
    · exact hsame ht'
    · exact numElements_le_addObject ht _ _ ht'
  | growTable handle' numElementsToGrow initialElement commitSucceeds =>
    cases ht₀ : s.tableAt handle' <;> simp only [Wavm.Runtime.step, ht₀] at ht'
    · exact hsame ht'
    · refine numElements_le_setObject ht _ _ ht' fun t t' h h' => ?_
      rw [ht₀] at h
      cases h
      cases h'
      exact growTableImpl_numElements_le _ _ _ _ _ _ _
  | tableGrow handle' initialValue deltaNumElements commitSucceeds =>
    cases ht₀ : s.tableAt handle' <;> simp only [Wavm.Runtime.step, ht₀, tableGrow_eq] at ht'
    · exact hsame ht'
    · refine numElements_le_setObject ht _ _ ht' fun t t' h h' => ?_
      rw [ht₀] at h
      cases h
      cases h'
      exact growTableImpl_numElements_le _ _ _ _ _ _ _
  | deleteTable handle' =>
    cases ht₀ : s.tableAt handle' <;> simp only [Wavm.Runtime.step, ht₀] at ht'
    · exact hsame ht'
    · exact numElements_le_setObject_of_not_table ht _ rfl ht'
  | getTableElement handle' =>
    cases ht₀ : s.tableAt handle' <;> simp only [Wavm.Runtime.step, ht₀] at ht' <;> exact hsame ht'
  | setTableElement handle' index newValue =>
    cases ht₀ : s.tableAt handle' <;> simp only [Wavm.Runtime.step, ht₀] at ht'
    · exact hsame ht'
    · rename_i t₀
      exact numElements_le_rewrite ht ht₀ (rewritten_setTableElement (hinv.valid_of_tableAt ht₀) _ _) _ ht'
  | tableGet handle' =>
    cases ht₀ : s.tableAt handle' <;> simp only [Wavm.Runtime.step, ht₀] at ht' <;> exact hsame ht'
  | tableSet handle' index value =>
    cases ht₀ : s.tableAt handle' <;> simp only [Wavm.Runtime.step, ht₀] at ht'
    · exact hsame ht'
    · exact numElements_le_rewrite ht ht₀ (rewritten_setTableElement (hinv.valid_of_tableAt ht₀) _ _) _ ht'
  | tableFill handle' destOffset value numElements =>
    cases ht₀ : s.tableAt handle' <;> simp only [Wavm.Runtime.step, ht₀] at ht'
    · exact hsame ht'
    · exact numElements_le_rewrite ht ht₀ (rewritten_fillTableElements
        (TableElement.ofObject_ne_outOfBounds _) _ _ _ (hinv.valid_of_tableAt ht₀)) _ ht'
  | tableCopy destOffset sourceOffset numElements sourceHandle destHandle =>
    cases hs : s.tableAt sourceHandle with
    | none =>
      simp only [Wavm.Runtime.step, hs] at ht'
      exact hsame ht'
    | some sourceTable =>
      cases hd : s.tableAt destHandle <;> simp only [Wavm.Runtime.step, hs, hd] at ht'
      · exact hsame ht'
      · exact numElements_le_rewrite ht hd (rewritten_copyTable _ (hinv.valid_of_tableAt hd) _ _ _ _) _ ht'
  | tableInit handle' destIndex sourceIndex numElems elemSegment =>
    cases ht₀ : s.tableAt handle' <;> simp only [Wavm.Runtime.step, ht₀] at ht'
    · exact hsame ht'
    · exact numElements_le_rewrite ht ht₀ (rewritten_tableInit (hinv.valid_of_tableAt ht₀) _ _ _ _) _ ht'

/-! ## What the invariant gives the host -/

omit [DecidableEq QuotaId] in
/-- The pages of the live memories charged to a quota. -/
theorem weight_charge_memoryPages [DecidableEq QuotaId] (q : QuotaId)
    (objects : List (Option (RuntimeObject QuotaId Object))) :
    weight (RuntimeObject.charge q .memoryPages) objects =
      (((objects.filterMap slotMemory).filter fun memory => memory.resourceQuota = some q).map
        fun memory => memory.numPages.toNat).sum := by
  induction objects with
  | nil => rfl
  | cons slot rest ih =>
    have hcons : weight (RuntimeObject.charge q .memoryPages) (slot :: rest) =
        slotWeight (RuntimeObject.charge q .memoryPages) slot +
          weight (RuntimeObject.charge q .memoryPages) rest := rfl
    rw [hcons, ih]
    rcases slot with _ | memory | table
    · simp [slotMemory, List.filterMap_cons]
    · by_cases hq : memory.resourceQuota = some q <;>
        simp [slotMemory, RuntimeObject.charge, Memory.charge, chargeOf, hq]
    · simp [slotMemory, List.filterMap_cons, RuntimeObject.charge, Table.charge, chargeOf]

omit [DecidableEq QuotaId] in
/-- The elements of the live tables charged to a quota. -/
theorem weight_charge_tableElems [DecidableEq QuotaId] (q : QuotaId)
    (objects : List (Option (RuntimeObject QuotaId Object))) :
    weight (RuntimeObject.charge q .tableElems) objects =
      (((objects.filterMap slotTable).filter fun table => table.resourceQuota = some q).map
        fun table => table.numElements.toNat).sum := by
  induction objects with
  | nil => rfl
  | cons slot rest ih =>
    have hcons : weight (RuntimeObject.charge q .tableElems) (slot :: rest) =
        slotWeight (RuntimeObject.charge q .tableElems) slot +
          weight (RuntimeObject.charge q .tableElems) rest := rfl
    rw [hcons, ih]
    rcases slot with _ | memory | table
    · simp [slotTable, List.filterMap_cons]
    · simp [slotTable, List.filterMap_cons, RuntimeObject.charge, Memory.charge, chargeOf]
    · by_cases hq : table.resourceQuota = some q <;>
        simp [slotTable, RuntimeObject.charge, Table.charge, chargeOf, hq]

namespace RuntimeState

/-- **The accounts of the quotas**: the memory pages in use of each quota are the pages of the
live memories charged to it, and its table elements in use the elements of the live tables
charged to it. -/
def QuotaAccounts (s : RuntimeState QuotaId Object) : Prop :=
  ∀ q, inUse s.quotas q .memoryPages =
      ((s.liveMemories.filter fun memory => memory.resourceQuota = some q).map
        fun memory => memory.numPages.toNat).sum ∧
    inUse s.quotas q .tableElems =
      ((s.liveTables.filter fun table => table.resourceQuota = some q).map
        fun table => table.numElements.toNat).sum

/-- **The grows of the live memories of `s`**: a `growMemory` that fails leaves the quotas and
the memory as they were; one that succeeds returns the old size, kept the new size within the
type's maximum and `IR::maxMemoryPages`, and had room for the delta under the quota's maximum;
and the `memory.grow` intrinsic does what its `growMemory` does, returning `-1` exactly when that
fails. -/
def MemoryGrowsBounded (s : RuntimeState QuotaId Object) : Prop :=
  ∀ handle memory, s.memoryAt handle = some memory →
    (∀ numPagesToGrow commitSucceeds,
      ((growMemory s.quotas memory numPagesToGrow commitSucceeds).2.2 = none →
          growMemory s.quotas memory numPagesToGrow commitSucceeds = (s.quotas, memory, none)) ∧
      ∀ old, (growMemory s.quotas memory numPagesToGrow commitSucceeds).2.2 = some old →
        old = memory.numPages ∧
        memory.numPages.toNat + numPagesToGrow.toNat ≤
          min memory.type.size.max.toNat maxMemoryPages.toNat ∧
        ∀ q, memory.resourceQuota = some q →
          inUse s.quotas q .memoryPages + numPagesToGrow.toNat ≤ (s.quotas q).memoryPages.max.toNat) ∧
    ∀ deltaPages commitSucceeds,
      (memoryGrow s.quotas memory deltaPages commitSucceeds).1 =
          (growMemory s.quotas memory deltaPages.toUInt64 commitSucceeds).1 ∧
        (memoryGrow s.quotas memory deltaPages commitSucceeds).2.1 =
          (growMemory s.quotas memory deltaPages.toUInt64 commitSucceeds).2.1 ∧
        ((memoryGrow s.quotas memory deltaPages commitSucceeds).2.2 = -1 ↔
          (growMemory s.quotas memory deltaPages.toUInt64 commitSucceeds).2.2 = none)

/-- **The grows of the live tables of `s`**, as for memories: a `growTable` that fails leaves the
quotas and the table as they were; one that succeeds returns the old size, kept the new size
within the type's maximum and `IR::maxTableElems`, and had room for the delta under the quota's
maximum; and the `table.grow` intrinsic does what its `growTable` does, returning `-1` exactly
when that fails. -/
def TableGrowsBounded (s : RuntimeState QuotaId Object) : Prop :=
  ∀ handle table, s.tableAt handle = some table →
    (∀ numElementsToGrow initialElement pageSizeLog2 commitSucceeds,
      ((growTable s.quotas table numElementsToGrow initialElement pageSizeLog2 commitSucceeds).2.2 = none →
          growTable s.quotas table numElementsToGrow initialElement pageSizeLog2 commitSucceeds =
            (s.quotas, table, none)) ∧
      ∀ old, (growTable s.quotas table numElementsToGrow initialElement pageSizeLog2 commitSucceeds).2.2 =
          some old →
        old = table.numElements ∧
        table.numElements.toNat + numElementsToGrow.toNat ≤
          min table.type.size.max.toNat maxTableElems.toNat ∧
        ∀ q, table.resourceQuota = some q →
          inUse s.quotas q .tableElems + numElementsToGrow.toNat ≤ (s.quotas q).tableElems.max.toNat) ∧
    ∀ initialValue deltaNumElements pageSizeLog2 commitSucceeds,
      (tableGrow s.quotas table initialValue deltaNumElements pageSizeLog2 commitSucceeds).1 =
          (growTable s.quotas table deltaNumElements.toUInt64 (TableElement.ofObject initialValue) pageSizeLog2
            commitSucceeds).1 ∧
        (tableGrow s.quotas table initialValue deltaNumElements pageSizeLog2 commitSucceeds).2.1 =
          (growTable s.quotas table deltaNumElements.toUInt64 (TableElement.ofObject initialValue) pageSizeLog2
            commitSucceeds).2.1 ∧
        ((tableGrow s.quotas table initialValue deltaNumElements pageSizeLog2 commitSucceeds).2.2 = -1 ↔
          (growTable s.quotas table deltaNumElements.toUInt64 (TableElement.ofObject initialValue) pageSizeLog2
            commitSucceeds).2.2 = none)

/-- **What the sentinels of the live tables of `s` guarantee**: a reserved slot holds the
out-of-bounds sentinel exactly when it is past `numElements`; so `getTableElement` and
`setTableElement` throw `outOfBoundsTableAccess` exactly at such an index, and a write that
throws leaves the table as it was; a `growTable` that succeeds stayed within the type's maximum
and `IR::maxTableElems` and set exactly the new slots to the initial element; and no call of the
run shrinks the table. -/
def TablesGuarded (pageSizeLog2 : Uptr) (s : RuntimeState QuotaId Object) : Prop :=
  ∀ handle table, s.tableAt handle = some table →
    (∀ i < table.numReservedElements.toNat,
      table.elements i = .outOfBounds ↔ table.numElements.toNat ≤ i) ∧
    (∀ index, getTableElement table index =
      if table.numElements.toNat ≤ index.toNat then .error .outOfBoundsTableAccess
      else .ok (table.elements index.toNat).toObject) ∧
    (∀ index newValue, setTableElement table index newValue =
      if table.numElements.toNat ≤ index.toNat then (table, .error .outOfBoundsTableAccess)
      else ({ table with
          elements := Function.update table.elements index.toNat (TableElement.ofObject newValue) },
        .ok (table.elements index.toNat).toObject)) ∧
    (∀ quotas numElementsToGrow initialElement pageSizeLog2' commitSucceeds old,
      (growTable quotas table numElementsToGrow initialElement pageSizeLog2' commitSucceeds).2.2 = some old →
        old = table.numElements ∧
        table.numElements.toNat + numElementsToGrow.toNat ≤
          min table.type.size.max.toNat maxTableElems.toNat ∧
        (growTable quotas table numElementsToGrow initialElement pageSizeLog2' commitSucceeds).2.1.numElements.toNat =
          old.toNat + numElementsToGrow.toNat ∧
        ∀ i, (growTable quotas table numElementsToGrow initialElement pageSizeLog2' commitSucceeds).2.1.elements i =
          if old.toNat ≤ i ∧ i < old.toNat + numElementsToGrow.toNat then initialElement
          else table.elements i) ∧
    ∀ op table', (step pageSizeLog2 s op).1.tableAt handle = some table' →
      table.numElements.toNat ≤ table'.numElements.toNat

theorem Invariant.quotaAccounts {s : RuntimeState QuotaId Object} (hinv : s.Invariant) : s.QuotaAccounts :=
  fun q => ⟨by rw [hinv.accounted, weight_charge_memoryPages]; rfl,
    by rw [hinv.accounted, weight_charge_tableElems]; rfl⟩

theorem Invariant.memoryGrowsBounded {s : RuntimeState QuotaId Object} (hinv : s.Invariant) :
    s.MemoryGrowsBounded := by
  intro handle memory hm
  have hv := hinv.valid_of_memoryAt hm
  refine ⟨fun numPagesToGrow commitSucceeds => ⟨growMemory_of_eq_none, fun old h => ?_⟩,
    fun deltaPages commitSucceeds => ⟨by rw [memoryGrow_eq], by rw [memoryGrow_eq],
      memoryGrow_eq_neg_one_iff hv _ _ _⟩⟩
  obtain ⟨hold, h₁, h₂⟩ := growMemory_bounds hv h
  exact ⟨hold, Nat.le_min.2 ⟨h₁, h₂⟩, growMemory_headroom hinv.withinMax h⟩

theorem Invariant.tableGrowsBounded {s : RuntimeState QuotaId Object} (hinv : s.Invariant) :
    s.TableGrowsBounded := by
  intro handle table ht
  have hv := hinv.valid_of_tableAt ht
  refine ⟨fun numElementsToGrow initialElement pageSizeLog2 commitSucceeds =>
    ⟨growTableImpl_of_eq_none, fun old h => ?_⟩,
    fun initialValue deltaNumElements pageSizeLog2 commitSucceeds => ⟨by rw [tableGrow_eq], by rw [tableGrow_eq],
      tableGrow_eq_neg_one_iff hv _ _ _ _ _⟩⟩
  obtain ⟨hold, hbound, -⟩ := growTable_of_eq_some hv h
  exact ⟨hold, hbound, growTableImpl_headroom hinv.withinMax h⟩

theorem Invariant.tablesGuarded {s : RuntimeState QuotaId Object} (hinv : s.Invariant) (pageSizeLog2 : Uptr) :
    s.TablesGuarded pageSizeLog2 := by
  intro handle table ht
  have hv := hinv.valid_of_tableAt ht
  exact ⟨hv.outOfBounds_iff, getTableElement_eq hv, setTableElement_eq hv,
    fun _ _ _ _ _ _ h => growTable_of_eq_some hv h,
    fun op _ ht' => hinv.numElements_le_step pageSizeLog2 op ht ht'⟩

end RuntimeState

/-- **The resource quotas keep exact accounts.** After any run of calls from fresh quotas, each
quota's memory pages in use are the pages of the live memories charged to it and its table
elements in use the elements of the live tables charged to it; and from there a grow of a live
memory or table either fails and leaves the quotas and the object as they were, or stays within
the type's maximum, the absolute maximum and the quota's maximum.

**Proof sketch.** Every reachable state keeps `RuntimeState.Invariant`: each function charges
the quota with exactly the change of its object's size, refunds on every failure exit, and the
destructors refund what the object holds. The accounts are the invariant summed by kind. -/
theorem resourceQuota_accounting (pageSizeLog2 : Uptr) (memoryPagesMax tableElemsMax : QuotaId → Uptr)
    (ops : List (RuntimeOp QuotaId Object)) :
    (run pageSizeLog2 (initialState memoryPagesMax tableElemsMax) ops).1.QuotaAccounts ∧
      (run pageSizeLog2 (initialState memoryPagesMax tableElemsMax) ops).1.MemoryGrowsBounded ∧
      (run pageSizeLog2 (initialState memoryPagesMax tableElemsMax) ops).1.TableGrowsBounded := by
  have hs : Reachable pageSizeLog2 (run pageSizeLog2 (initialState memoryPagesMax tableElemsMax) ops).1 :=
    reachable_run ops (Reachable.init memoryPagesMax tableElemsMax)
  have hinv := invariant_of_reachable hs
  exact ⟨hinv.quotaAccounts, hinv.memoryGrowsBounded, hinv.tableGrowsBounded⟩

/-- **The sentinels bound the tables.** After any run of calls from fresh quotas, a live table
holds the out-of-bounds sentinel on exactly its reserved slots past `numElements`, so its
element accesses throw exactly out of bounds and a throwing write changes nothing; a grow
that succeeds initializes exactly the new slots; and no further call shrinks it.

**Proof sketch.** `Table.Valid` is part of the invariant of every reachable state: the grows
initialize the new slots with an element that is never the sentinel, every write is refused on
a sentinel and never stores one, and `cloneTable` copies the slots of a valid table. -/
theorem table_sentinel_invariant (pageSizeLog2 : Uptr) (memoryPagesMax tableElemsMax : QuotaId → Uptr)
    (ops : List (RuntimeOp QuotaId Object)) :
    (run pageSizeLog2 (initialState memoryPagesMax tableElemsMax) ops).1.TablesGuarded pageSizeLog2 := by
  have hs : Reachable pageSizeLog2 (run pageSizeLog2 (initialState memoryPagesMax tableElemsMax) ops).1 :=
    reachable_run ops (Reachable.init memoryPagesMax tableElemsMax)
  exact (invariant_of_reachable hs).tablesGuarded pageSizeLog2

end Wavm.Runtime
