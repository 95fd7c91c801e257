import Mathlib
import Wavm.Lib.WhileLoop
import Wavm.Lib.Worklist

set_option relaxedAutoImplicit false
set_option autoImplicit false

/-!
# The compartment garbage collector

`collectGarbageImpl` and its `GCState`, from `src/Lib/Runtime/ObjectGC.cpp`. The compartment
and the objects of its index maps are first sorted into roots, which are pending, and
unreferenced objects. Each pending object is then scanned: every object it references that is
still unreferenced becomes pending. What is unreferenced at the end is deleted, the compartment
last.

The scanning loop is the worklist marking of `Wavm.Lib.Worklist`, over the objects that
`scanObject` visits (`children`): the collector's state maps onto the worklist's, round for
round (`toState_markBody`), so the collector ends with the unreferenced objects exactly those no
root reaches (`collectGarbageImpl_spec`).

## Main definitions

* `Wavm.Runtime.ObjectGC.Reference`, `GCObject`, `Compartment` — what the collector reads.
* `Wavm.Runtime.ObjectGC.GCState` with `visitReference`, `initGCObject`, `scanObject`.
* `Wavm.Runtime.ObjectGC.initGCState`, `markObjects`, `collectGarbageImpl`.
* `Wavm.Runtime.ObjectGC.IsRoot`, `children`, `Reachable` — the roots and the edges.

## Main results

* `Wavm.Runtime.ObjectGC.toState_markBody` — a round of the collector is a round of the
  worklist.
* `Wavm.Runtime.ObjectGC.inv_initGCState` — the initial state keeps the worklist's invariant.
* `Wavm.Runtime.ObjectGC.collectGarbageImpl_spec` — the collector deletes exactly the
  unreachable objects, each once and the compartment last, and scans no object twice.

## Implementation notes

Objects are of a type `α` of pointers, read through a heap `α → GCObject α`. A function is not
a `GCObject`: a reference to one is redirected to `compartment->moduleInstances[moduleInstanceId]`,
which the model keeps as the function's `moduleInstance`. The `HashSet` of unreferenced objects
is a list without repeats, `add` being `List.insert` and `remove` `List.erase`, and the last loop
reads it in list order; the vector `pendingScanObjects` is a list whose head is its back.
`scannedObjects` is not in the source: it lists the objects scanned so far, the last first, so
that a statement can say that none is scanned twice. The mutexes, the timer and the log are left
out, as are the kinds `scanObject` does not reach (`WAVM_UNREACHABLE`).
-/

namespace Wavm.Runtime.ObjectGC

/-! ## What the collector reads -/

/-- A `Function` as the collector reads it: `mutableData->numRootReferences`, and the module
instance of its `moduleInstanceId`, `none` for `UINTPTR_MAX`. -/
structure Function (α : Type) where
  numRootReferences : ℕ
  moduleInstance : Option α
  deriving DecidableEq, Repr

/-- An `Object*` that `visitReference` is given. -/
inductive Reference (α : Type)
  | null
  | function (function : Function α)
  | object (object : α)
  deriving DecidableEq, Repr

/-- What `scanObject` reads of a `GCObject`, by its kind. -/
inductive Contents (α : Type)
  | table (elements : List (Reference α))
  | global (isReferenceType isMutable : Bool) (mutableGlobalIndex : ℕ) (initialValue : Reference α)
  | moduleInstance (functions : List (Function α))
      (tables memories globals exceptionTypes : List (Reference α))
  | memory
  | exceptionType
  | context
  | compartment
  deriving DecidableEq, Repr

/-- A `GCObject`: its `compartment`, its `numRootReferences`, and what its kind holds. -/
structure GCObject (α : Type) where
  compartment : Option α
  numRootReferences : ℕ
  contents : Contents α
  deriving DecidableEq, Repr

/-- The `Compartment` as `collectGarbageImpl` reads it: its own object, its index maps, and the
mutable globals of the initial context and of each context (`runtimeData->mutableGlobals`).
Every object is in one map, once. -/
structure Compartment (α : Type) where
  self : α
  moduleInstances : List (Option α)
  memories : List α
  tables : List α
  exceptionTypes : List α
  globals : List α
  contexts : List α
  initialContextMutableGlobals : ℕ → Reference α
  contextMutableGlobals : α → ℕ → Reference α
  nodup : (self :: (moduleInstances.filterMap id ++ memories ++ tables ++ exceptionTypes ++
    globals ++ contexts)).Nodup

variable {α : Type} [DecidableEq α]

/-- The objects of the compartment, in the order `collectGarbageImpl` initializes them. -/
def Compartment.registered (c : Compartment α) : List α :=
  c.self :: (c.moduleInstances.filterMap id ++ c.memories ++ c.tables ++ c.exceptionTypes ++
    c.globals ++ c.contexts)

/-! ## The collector -/

/-- `GCState`: the unreferenced objects, the objects pending a scan, and (not in the source) the
objects scanned so far. -/
structure GCState (α : Type) where
  unreferencedObjects : List α
  pendingScanObjects : List α
  scannedObjects : List α

namespace GCState

/-- The branch of `visitReference` for a `GCObject`: one that `unreferencedObjects.remove` finds
is pushed to `pendingScanObjects`. -/
def visitObject (state : GCState α) (object : α) : GCState α :=
  if object ∈ state.unreferencedObjects then
    { state with unreferencedObjects := state.unreferencedObjects.erase object,
                 pendingScanObjects := object :: state.pendingScanObjects }
  else state

/-- `visitReference`: nothing for null, the module instance of a function, or the object. -/
def visitReference (state : GCState α) : Reference α → GCState α
  | .null => state
  | .function function =>
    match function.moduleInstance with
    | some moduleInstance => state.visitObject moduleInstance
    | none => state
  | .object object => state.visitObject object

/-- `initGCObject`: a root is pending, another object unreferenced. -/
def initGCObject (heap : α → GCObject α) (state : GCState α) (object : α) (forceRoot : Bool) :
    GCState α :=
  if forceRoot || decide (0 < (heap object).numRootReferences) then
    { state with pendingScanObjects := object :: state.pendingScanObjects }
  else { state with unreferencedObjects := state.unreferencedObjects.insert object }

end GCState

/-- The references `scanObject` visits, in order: the object's compartment, then the elements of
a table; the reference-typed values of a global, mutable ones in the initial context and in
every context first; the members of a module instance. -/
def scanReferences (c : Compartment α) (object : GCObject α) : List (Reference α) :=
  (match object.compartment with
    | some compartment => Reference.object compartment
    | none => .null) ::
  match object.contents with
  | .table elements => elements
  | .global isReferenceType isMutable mutableGlobalIndex initialValue =>
    if isReferenceType then
      (if isMutable then
        c.initialContextMutableGlobals mutableGlobalIndex ::
          c.contexts.map fun context => c.contextMutableGlobals context mutableGlobalIndex
      else []) ++ [initialValue]
    else []
  | .moduleInstance functions tables memories globals exceptionTypes =>
    functions.map .function ++ tables ++ memories ++ globals ++ exceptionTypes
  | .memory | .exceptionType | .context | .compartment => []

/-- `scanObject`. -/
def GCState.scanObject (c : Compartment α) (heap : α → GCObject α) (state : GCState α)
    (object : α) : GCState α :=
  (scanReferences c (heap object)).foldl GCState.visitReference state

/-- `hasRootFunction`: a function of the module instance has a root reference. -/
def hasRootFunction (object : GCObject α) : Bool :=
  match object.contents with
  | .moduleInstance functions .. => functions.any fun function => function.numRootReferences != 0
  | _ => false

/-- The initialization of `collectGarbageImpl`: the compartment, then each module instance, with
the roots of its functions, then the memories, tables, exception types, globals and contexts. -/
def initGCState (c : Compartment α) (heap : α → GCObject α) : GCState α :=
  let state := (⟨[], [], []⟩ : GCState α).initGCObject heap c.self false
  let state := c.moduleInstances.foldl (fun state moduleInstance =>
    match moduleInstance with
    | some moduleInstance =>
      state.initGCObject heap moduleInstance (hasRootFunction (heap moduleInstance))
    | none => state) state
  let state := c.memories.foldl (fun state memory => state.initGCObject heap memory false) state
  let state := c.tables.foldl (fun state table => state.initGCObject heap table false) state
  let state := c.exceptionTypes.foldl
    (fun state exceptionType => state.initGCObject heap exceptionType false) state
  let state := c.globals.foldl (fun state global => state.initGCObject heap global false) state
  c.contexts.foldl (fun state context => state.initGCObject heap context false) state

/-- The test of the scanning loop. -/
def markCond (state : GCState α) : Bool := !state.pendingScanObjects.isEmpty

/-- A round of the scanning loop: pop the back of `pendingScanObjects` and scan it. -/
def markBody (c : Compartment α) (heap : α → GCObject α) (state : GCState α) : GCState α :=
  match state.pendingScanObjects with
  | [] => state
  | object :: pendingScanObjects =>
    GCState.scanObject c heap
      { state with pendingScanObjects, scannedObjects := object :: state.scannedObjects } object

/-- The initialization and the scanning loop, with a round for each object of the compartment
and one more. -/
def markObjects (c : Compartment α) (heap : α → GCObject α) : Option (GCState α) :=
  WhileLoop.run markCond (markBody c heap) (c.registered.length + 1) (initGCState c heap)

/-- `collectGarbageImpl`: the objects it deletes, in order, and what it returns, whether the
compartment was unreferenced. -/
def collectGarbageImpl (c : Compartment α) (heap : α → GCObject α) : Option (List α × Bool) :=
  (markObjects c heap).map fun state =>
    let wasCompartmentUnreferenced := decide (c.self ∈ state.unreferencedObjects)
    (state.unreferencedObjects.filter (fun object => decide (object ≠ c.self)) ++
      (if wasCompartmentUnreferenced then [c.self] else []), wasCompartmentUnreferenced)

/-! ## Roots and edges -/

/-- A root: an object with a root reference, or a module instance with a rooted function. -/
def IsRoot (c : Compartment α) (heap : α → GCObject α) (object : α) : Prop :=
  0 < (heap object).numRootReferences ∨
    (some object ∈ c.moduleInstances ∧ hasRootFunction (heap object) = true)

/-- The object a reference leads to: a function leads to its module instance. -/
def Reference.target : Reference α → Option α
  | .null => none
  | .function f => f.moduleInstance
  | .object o => some o

/-- The objects `scanObject` visits from an object. -/
def children (c : Compartment α) (heap : α → GCObject α) (object : α) : List α :=
  (scanReferences c (heap object)).filterMap Reference.target

/-- The objects of the compartment that a path of references from a root reaches. -/
def Reachable (c : Compartment α) (heap : α → GCObject α) (object : α) : Prop :=
  Worklist.Reach (children c heap) c.registered (IsRoot c heap) object

/-! ## The collector as a worklist -/

/-- The worklist state of a collector state. -/
def GCState.toState (state : GCState α) : Worklist.State α :=
  ⟨state.unreferencedObjects, state.pendingScanObjects, state.scannedObjects⟩

theorem toState_visitObject (state : GCState α) (object : α) :
    (state.visitObject object).toState = Worklist.visit state.toState object := by
  by_cases h : object ∈ state.unreferencedObjects <;>
    simp [GCState.visitObject, Worklist.visit, GCState.toState, h]

/-- A reference is a visit of the object it leads to, if any. -/
theorem toState_visitReference (state : GCState α) (reference : Reference α) :
    (state.visitReference reference).toState =
      reference.target.toList.foldl Worklist.visit state.toState := by
  cases reference with
  | null => rfl
  | function f =>
    cases h : f.moduleInstance with
    | none => simp [GCState.visitReference, Reference.target, h]
    | some moduleInstance =>
      simp [GCState.visitReference, Reference.target, h, toState_visitObject]
  | object o => simp [GCState.visitReference, Reference.target, toState_visitObject]

theorem toState_foldl_visitReference (references : List (Reference α)) (state : GCState α) :
    (references.foldl GCState.visitReference state).toState =
      (references.filterMap Reference.target).foldl Worklist.visit state.toState := by
  induction references generalizing state with
  | nil => rfl
  | cons reference references ih =>
    rw [List.foldl_cons, ih, toState_visitReference]
    cases h : reference.target <;> simp [h]

/-- **A scan of the collector is a scan of the worklist** over `children`. -/
theorem toState_scanObject (c : Compartment α) (heap : α → GCObject α) (state : GCState α)
    (object : α) :
    (state.scanObject c heap object).toState =
      Worklist.scan (children c heap) state.toState object :=
  toState_foldl_visitReference _ state

/-- **A round of the collector is a round of the worklist.** -/
theorem toState_markBody (c : Compartment α) (heap : α → GCObject α) (state : GCState α) :
    (markBody c heap state).toState = Worklist.body (children c heap) state.toState := by
  unfold markBody
  cases h : state.pendingScanObjects with
  | nil => simp [Worklist.body, GCState.toState, h]
  | cons object pending =>
    rw [toState_scanObject]
    simp [Worklist.body, GCState.toState, h]

/-- The scanning loop, read on worklist states. -/
theorem map_toState_markObjects (c : Compartment α) (heap : α → GCObject α) :
    (markObjects c heap).map GCState.toState =
      WhileLoop.run Worklist.cond (Worklist.body (children c heap)) (c.registered.length + 1)
        (initGCState c heap).toState :=
  (WhileLoop.run_map GCState.toState (fun s => (rfl : Worklist.cond s.toState = markCond s))
    (fun s => (toState_markBody c heap s).symm) _ _).symm

/-! ## The initial state -/

/-- The objects the initialization sorts, in order, each with its `forceRoot`. -/
def initList (c : Compartment α) (heap : α → GCObject α) : List (α × Bool) :=
  (c.self, false) ::
    ((c.moduleInstances.filterMap id).map (fun object => (object, hasRootFunction (heap object))) ++
      (c.memories ++ c.tables ++ c.exceptionTypes ++ c.globals ++ c.contexts).map
        fun object => (object, false))

omit [DecidableEq α] in
theorem map_fst_initList (c : Compartment α) (heap : α → GCObject α) :
    (initList c heap).map Prod.fst = c.registered := by
  simp [initList, Compartment.registered, Function.comp_def]

omit [DecidableEq α] in
/-- An object initialized with `forceRoot` is a module instance with a rooted function. -/
theorem mem_initList_true {c : Compartment α} {heap : α → GCObject α} {object : α}
    (h : (object, true) ∈ initList c heap) :
    some object ∈ c.moduleInstances ∧ hasRootFunction (heap object) = true := by
  simp only [initList, List.mem_cons, List.mem_append, List.mem_map, List.mem_filterMap,
    id_eq] at h
  rcases h with h | ⟨object', ⟨_, hmem, rfl⟩, h⟩ | ⟨_, _, h⟩
  · simp at h
  · obtain ⟨rfl, hroot⟩ := Prod.mk.inj h
    exact ⟨hmem, hroot⟩
  · simp at h

omit [DecidableEq α] in
theorem foldl_match_option {σ : Type} (g : σ → α → σ) (l : List (Option α)) (state : σ) :
    l.foldl (fun state object => match object with
      | some object => g state object
      | none => state) state = (l.filterMap id).foldl g state := by
  induction l generalizing state with
  | nil => rfl
  | cons object l ih => cases object <;> simp [ih]

/-- The initialization is one `initGCObject` for each object of `initList`. -/
theorem initGCState_eq (c : Compartment α) (heap : α → GCObject α) :
    initGCState c heap =
      (initList c heap).foldl (fun state p => state.initGCObject heap p.1 p.2) ⟨[], [], []⟩ := by
  simp only [initGCState, initList, List.foldl_cons, List.foldl_append, List.foldl_map,
    foldl_match_option]

/-- Whether `initGCObject` makes an object pending, given its `forceRoot`. -/
def initRoot (heap : α → GCObject α) (p : α × Bool) : Bool :=
  p.2 || decide (0 < (heap p.1).numRootReferences)

/-- Over objects not yet sorted, each once, the initialization makes the roots pending and the
other objects unreferenced. -/
theorem foldl_initGCObject (heap : α → GCObject α) (ps : List (α × Bool))
    (hnodup : (ps.map Prod.fst).Nodup) (state : GCState α)
    (hfresh : ∀ p ∈ ps, p.1 ∉ state.unreferencedObjects) :
    ps.foldl (fun state p => state.initGCObject heap p.1 p.2) state =
      ⟨((ps.filter fun p => !initRoot heap p).map Prod.fst).reverse ++ state.unreferencedObjects,
        ((ps.filter (initRoot heap)).map Prod.fst).reverse ++ state.pendingScanObjects,
        state.scannedObjects⟩ := by
  induction ps generalizing state with
  | nil => rfl
  | cons p ps ih =>
    rw [List.map_cons, List.nodup_cons] at hnodup
    rw [List.foldl_cons]
    by_cases hroot : (p.2 || decide (0 < (heap p.1).numRootReferences)) = true
    · rw [GCState.initGCObject, if_pos hroot,
        ih hnodup.2 { state with pendingScanObjects := p.1 :: state.pendingScanObjects }
          fun q hq => hfresh q (List.mem_cons_of_mem p hq),
        @List.filter_cons_of_neg _ (fun p => !initRoot heap p) p ps (by simp [initRoot, hroot]),
        List.filter_cons_of_pos (show initRoot heap p = true from hroot)]
      simp
    · -- `p.1` is new, so `insert` puts it in front
      have hnew : p.1 ∉ state.unreferencedObjects := hfresh p List.mem_cons_self
      have hfresh' : ∀ q ∈ ps, q.1 ∉ p.1 :: state.unreferencedObjects := by
        intro q hq hmem
        rcases List.mem_cons.1 hmem with heq | hmem
        · exact hnodup.1 (heq ▸ List.mem_map_of_mem hq)
        · exact hfresh q (List.mem_cons_of_mem p hq) hmem
      rw [GCState.initGCObject, if_neg hroot, List.insert_of_not_mem hnew,
        ih hnodup.2 { state with unreferencedObjects := p.1 :: state.unreferencedObjects } hfresh',
        @List.filter_cons_of_pos _ (fun p => !initRoot heap p) p ps
          (by simpa [initRoot] using hroot),
        List.filter_cons_of_neg (show ¬initRoot heap p = true from hroot)]
      simp

/-- **The initial state keeps the worklist's invariant**: the objects are sorted, the pending
ones are roots, and no root is unreferenced. -/
theorem inv_initGCState (c : Compartment α) (heap : α → GCObject α) :
    Worklist.Inv (children c heap) c.registered (IsRoot c heap) (initGCState c heap).toState := by
  have hkeys : ((initList c heap).map Prod.fst).Nodup := by
    rw [map_fst_initList]
    exact c.nodup
  have hmem : ∀ p ∈ initList c heap, p.1 ∈ c.registered := fun p hp =>
    map_fst_initList c heap ▸ List.mem_map_of_mem hp
  rw [initGCState_eq, foldl_initGCObject heap _ hkeys _ (by simp)]
  refine ⟨?_, by simp [GCState.toState], ?_, ?_⟩
  · -- the two filters of `initList` split it
    rw [← map_fst_initList c heap]
    simp only [GCState.toState, Worklist.State.all, List.append_nil]
    refine ((List.reverse_perm _).append (List.reverse_perm _)).trans ?_
    rw [← List.map_append]
    exact (List.perm_append_comm.trans (List.filter_append_perm _ _)).map _
  · intro x hx
    simp only [GCState.toState, List.append_nil, List.not_mem_nil, or_false, List.mem_reverse,
      List.mem_map, List.mem_filter, initRoot] at hx
    obtain ⟨⟨x, forceRoot⟩, ⟨hp, hroot⟩, rfl⟩ := hx
    refine Worklist.Reach.root (hmem _ hp) ?_
    cases forceRoot
    · exact .inl (by simpa using hroot)
    · exact .inr (mem_initList_true hp)
  · intro r hr hx
    simp only [GCState.toState, List.append_nil, List.mem_reverse, List.mem_map,
      List.mem_filter, initRoot] at hx
    obtain ⟨⟨r, forceRoot⟩, ⟨hp, hroot⟩, rfl⟩ := hx
    simp only [Bool.not_or, Bool.and_eq_true, Bool.not_eq_true', decide_eq_false_iff_not,
      not_lt, Nat.le_zero] at hroot
    rcases hr with hr | ⟨hmod, hfun⟩
    · exact absurd hroot.2 (Nat.pos_iff_ne_zero.1 hr)
    · -- a module instance with a rooted function is sorted with `forceRoot`, once
      have htrue : (r, true) ∈ initList c heap := by
        simp only [initList, List.mem_cons, List.mem_append, List.mem_map, List.mem_filterMap,
          id_eq]
        exact .inr (.inl ⟨r, ⟨some r, hmod, rfl⟩, by rw [hfun]⟩)
      have := List.inj_on_of_nodup_map hkeys hp htrue rfl
      simp [hroot.1] at this

/-! ## What the collector deletes -/

/-- **The collector deletes exactly the objects of the compartment that no root reaches**: each
once, the compartment last, and it returns whether it deleted the compartment. Every reachable
object is scanned, and none twice. -/
theorem collectGarbageImpl_spec (c : Compartment α) (heap : α → GCObject α) :
    ∃ state deleted, markObjects c heap = some state ∧
      collectGarbageImpl c heap = some (deleted, decide (c.self ∈ deleted)) ∧
      (∀ object, object ∈ deleted ↔ object ∈ c.registered ∧ ¬Reachable c heap object) ∧
      deleted.Nodup ∧ (c.self ∈ deleted → deleted.getLast? = some c.self) ∧
      state.scannedObjects.Nodup ∧
      (∀ object, object ∈ state.scannedObjects ↔
        object ∈ c.registered ∧ Reachable c heap object) := by
  have hinv := inv_initGCState c heap
  have hsize : (initGCState c heap).toState.size < c.registered.length + 1 := by
    have := hinv.perm.length_eq
    simp only [Worklist.State.all, List.length_append] at this
    simp only [Worklist.State.size]
    omega
  obtain ⟨t, hrun, -, hunvisited, hscanned, hnodupU, hnodupS⟩ :=
    Worklist.run_spec (c.nodup : c.registered.Nodup) hinv hsize
  rw [← map_toState_markObjects] at hrun
  obtain ⟨state, hmark, rfl⟩ := Option.map_eq_some_iff.1 hrun
  -- the unreferenced objects but the compartment, then the compartment if it is unreferenced
  set deleted := state.unreferencedObjects.filter (fun object => decide (object ≠ c.self)) ++
    (if c.self ∈ state.unreferencedObjects then [c.self] else []) with hdeleted
  have hmem : ∀ object, object ∈ deleted ↔ object ∈ state.unreferencedObjects := by
    intro object
    by_cases hself : object = c.self
    · rw [hself]
      by_cases h : c.self ∈ state.unreferencedObjects <;> simp [hdeleted, h]
    · simp [hdeleted, hself]
  have hfilter : (state.unreferencedObjects.filter fun object => decide (object ≠ c.self)).Nodup :=
    List.Nodup.filter _ hnodupU
  refine ⟨state, deleted, hmark, ?_, fun object => (hmem object).trans (hunvisited object), ?_,
    fun h => ?_, hnodupS, hscanned⟩
  · simp only [collectGarbageImpl, hmark, Option.map_some, Option.some.injEq, Prod.mk.injEq]
    exact ⟨by simp [hdeleted], decide_eq_decide.2 (hmem c.self).symm⟩
  · by_cases h : c.self ∈ state.unreferencedObjects
    · simp only [hdeleted, if_pos h]
      exact List.nodup_append.2 ⟨hfilter, List.nodup_singleton _, by simp⟩
    · simpa [hdeleted, h] using hfilter
  · simp [hdeleted, if_pos ((hmem c.self).1 h)]

/- A compartment `0` with a rooted table `1` that holds the memory `2`, and a memory `3` that
nothing references: only `3` is deleted, and the table's compartment keeps the compartment. -/
example :
    collectGarbageImpl ⟨0, [], [2, 3], [1], [], [], [], fun _ => .null, fun _ _ => .null, by decide⟩
      (fun object => match object with
        | 1 => ⟨some 0, 1, .table [.object 2]⟩
        | 0 => ⟨none, 0, .compartment⟩
        | _ => ⟨some 0, 0, .memory⟩) = some ([3], false) := by
  decide

end Wavm.Runtime.ObjectGC
