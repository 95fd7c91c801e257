import Wavm.Runtime.Memory
import Wavm.Runtime.Table
import Wavm.Lib.HandleStore

set_option relaxedAutoImplicit false
set_option autoImplicit false

/-!
# The runtime's memories and tables

The memories and tables a host creates through `src/Include/WAVM/Runtime/Runtime.h`, with the
resource quotas they charge. The model is a state machine. Its state is the quotas and the
objects the host holds, by handle. One step is one call: `createMemory`, `cloneMemory`,
`growMemory` and the `memory.grow` intrinsic, the destructor `~Memory`, and the same for
tables, plus the element accesses and the `table.get`, `table.set`, `table.fill`, `table.copy`,
`table.init` and `table.grow` intrinsics.

## Main definitions

* `Wavm.Runtime.RuntimeObject`, `Wavm.Runtime.RuntimeState` — the objects and the state.
* `Wavm.Runtime.RuntimeOp`, `Wavm.Runtime.RuntimeResult` — the calls and what they return.
* `Wavm.Runtime.step`, `Wavm.Runtime.run`, `Wavm.Runtime.Reachable`.

## Implementation notes

What the platform and the compartment answer are inputs of the calls: whether
`Platform::allocateVirtualPages` reserves and `Platform::commitVirtualPages` commits, and the
index that the compartment's `IndexMap` hands out (`UINTPTR_MAX` when it is full). Any answer is
allowed, so the model covers every run of the code. A call on a handle that is not live, or not
of the kind the call expects, is a use after free and undefined in the source. The model treats
it as a step that changes nothing (`RuntimeResult.noObject`). The page size of the platform,
`2^pageSizeLog2` bytes, is a parameter of the run.
-/

namespace Wavm.Runtime

open Wavm.IR HandleStore

/-- A `Runtime::Object` of the two kinds that charge a quota. -/
inductive RuntimeObject (QuotaId Object : Type)
  | memory (memory : Memory QuotaId)
  | table (table : Table QuotaId Object)

variable {QuotaId Object : Type}

namespace RuntimeObject

/-- What the object charges to the counter `c` of `q`. -/
def charge [DecidableEq QuotaId] (q : QuotaId) (c : QuotaCounter) : RuntimeObject QuotaId Object → ℕ
  | .memory m => m.charge q c
  | .table t => t.charge q c

/-- The invariant of a live object of its kind. -/
def Valid : RuntimeObject QuotaId Object → Prop
  | .memory m => m.Valid
  | .table t => t.Valid

end RuntimeObject

/-- The state of the runtime: the quotas, and the memories and tables the host holds, by
handle. A handle is an index into `objects`, whose slot is `none` once the object is
destroyed. -/
structure RuntimeState (QuotaId Object : Type) where
  quotas : QuotaId → ResourceQuota
  objects : List (Option (RuntimeObject QuotaId Object))

/-- The memory in a slot, if it holds one. -/
def slotMemory : Option (RuntimeObject QuotaId Object) → Option (Memory QuotaId)
  | none => none
  | some (.memory memory) => some memory
  | some (.table _) => none

/-- The table in a slot, if it holds one. -/
def slotTable : Option (RuntimeObject QuotaId Object) → Option (Table QuotaId Object)
  | none => none
  | some (.memory _) => none
  | some (.table table) => some table

namespace RuntimeState

/-- The live memory at a handle. -/
def memoryAt (s : RuntimeState QuotaId Object) (handle : ℕ) : Option (Memory QuotaId) :=
  s.objects[handle]?.bind slotMemory

/-- The live table at a handle. -/
def tableAt (s : RuntimeState QuotaId Object) (handle : ℕ) : Option (Table QuotaId Object) :=
  s.objects[handle]?.bind slotTable

/-- The live memories. -/
def liveMemories (s : RuntimeState QuotaId Object) : List (Memory QuotaId) :=
  s.objects.filterMap slotMemory

/-- The live tables. -/
def liveTables (s : RuntimeState QuotaId Object) : List (Table QuotaId Object) :=
  s.objects.filterMap slotTable

end RuntimeState

/-- The runtime before any object: quotas just created by `createResourceQuota`, with the maxima
the host set, and nothing in use. -/
def initialState (memoryPagesMax tableElemsMax : QuotaId → Uptr) : RuntimeState QuotaId Object :=
  { quotas := fun q => ⟨⟨0, memoryPagesMax q⟩, ⟨0, tableElemsMax q⟩⟩, objects := [] }

/-- The calls of the model. Memories and tables are named by handle. -/
inductive RuntimeOp (QuotaId Object : Type)
  | createMemory (type : MemoryType) (resourceQuota : Option QuotaId) (reserveSucceeds commitSucceeds : Bool)
      (memoryIndex : Uptr)
  | cloneMemory (memory : ℕ) (reserveSucceeds commitSucceeds : Bool)
  | growMemory (memory : ℕ) (numPagesToGrow : Uptr) (commitSucceeds : Bool)
  | memoryGrow (memory : ℕ) (deltaPages : UInt32) (commitSucceeds : Bool)
  | deleteMemory (memory : ℕ)
  | createTable (type : TableType) (element : Option Object) (resourceQuota : Option QuotaId)
      (reserveSucceeds commitSucceeds : Bool) (tableIndex : Uptr)
  | cloneTable (table : ℕ) (reserveSucceeds commitSucceeds : Bool)
  | growTable (table : ℕ) (numElementsToGrow : Uptr) (initialElement : Option Object) (commitSucceeds : Bool)
  | tableGrow (table : ℕ) (initialValue : Option Object) (deltaNumElements : UInt32) (commitSucceeds : Bool)
  | deleteTable (table : ℕ)
  | getTableElement (table : ℕ) (index : Uptr)
  | setTableElement (table : ℕ) (index : Uptr) (newValue : Option Object)
  | tableGet (table : ℕ) (index : UInt32)
  | tableSet (table : ℕ) (index : UInt32) (value : Option Object)
  | tableFill (table : ℕ) (destOffset : UInt32) (value : Option Object) (numElements : UInt32)
  | tableCopy (destOffset sourceOffset numElements : UInt32) (sourceTable destTable : ℕ)
  | tableInit (table : ℕ) (destIndex sourceIndex numElems : UInt32)
      (elemSegment : Option (List (Option Object)))

/-- What a call returns: the new object's handle (`none` for null), the old size of a grow
(`none` for `false`), the `I32` of a grow intrinsic, an element or the old one, or whether an
exception was thrown. -/
inductive RuntimeResult (Object : Type)
  | created (handle : Option ℕ)
  | grown (oldSize : Option Uptr)
  | grownI32 (result : Int32)
  | element (result : Except ExceptionType (Option Object))
  | done (result : Except ExceptionType Unit)
  | noObject

namespace RuntimeState

/-- Store a new object, if the call created one, and return its handle. -/
def addObject (s : RuntimeState QuotaId Object) (quotas : QuotaId → ResourceQuota) :
    Option (RuntimeObject QuotaId Object) → RuntimeState QuotaId Object × RuntimeResult Object
  | none => ({ s with quotas }, .created none)
  | some object => ({ quotas, objects := s.objects ++ [some object] }, .created (some s.objects.length))

/-- Replace the slot at a handle. -/
def setObject (s : RuntimeState QuotaId Object) (quotas : QuotaId → ResourceQuota) (handle : ℕ)
    (object : Option (RuntimeObject QuotaId Object)) : RuntimeState QuotaId Object :=
  { quotas, objects := s.objects.set handle object }

end RuntimeState

/-- The `table.copy` intrinsic on the tables at two handles. When both name one table the loop
reads that table as its own writes leave it; else it reads the source and writes the
destination. -/
def copyTable (sourceTable destTable : Table QuotaId Object) (aliased : Bool)
    (destOffset sourceOffset numElements : UInt32) : Table QuotaId Object × Except ExceptionType Unit :=
  let indices := tableCopyIndices destOffset sourceOffset numElements
  if aliased then copyTableElements getTableElementNonNull setTableElementNonNull destTable indices
  else
    let copied := copyTableElements
      (fun (tables : Table QuotaId Object × Table QuotaId Object) index => getTableElementNonNull tables.1 index)
      (fun tables index element =>
        let written := setTableElementNonNull tables.2 index element
        ((tables.1, written.1), written.2))
      (sourceTable, destTable) indices
    (copied.1.2, copied.2)

variable [DecidableEq QuotaId]

open RuntimeState in
/-- **One call** from the state `s`. -/
def step (pageSizeLog2 : Uptr) (s : RuntimeState QuotaId Object) :
    RuntimeOp QuotaId Object → RuntimeState QuotaId Object × RuntimeResult Object
  | .createMemory type resourceQuota reserveSucceeds commitSucceeds memoryIndex =>
    let created := createMemory s.quotas type resourceQuota reserveSucceeds commitSucceeds memoryIndex
    s.addObject created.1 (created.2.map .memory)
  | .cloneMemory handle reserveSucceeds commitSucceeds =>
    match s.memoryAt handle with
    | none => (s, .noObject)
    | some memory =>
      let created := cloneMemory s.quotas memory reserveSucceeds commitSucceeds
      s.addObject created.1 (created.2.map .memory)
  | .growMemory handle numPagesToGrow commitSucceeds =>
    match s.memoryAt handle with
    | none => (s, .noObject)
    | some memory =>
      let grown := growMemory s.quotas memory numPagesToGrow commitSucceeds
      (s.setObject grown.1 handle (some (.memory grown.2.1)), .grown grown.2.2)
  | .memoryGrow handle deltaPages commitSucceeds =>
    match s.memoryAt handle with
    | none => (s, .noObject)
    | some memory =>
      let grown := memoryGrow s.quotas memory deltaPages commitSucceeds
      (s.setObject grown.1 handle (some (.memory grown.2.1)), .grownI32 grown.2.2)
  | .deleteMemory handle =>
    match s.memoryAt handle with
    | none => (s, .noObject)
    | some memory => (s.setObject (deleteMemory s.quotas memory) handle none, .done (.ok ()))
  | .createTable type element resourceQuota reserveSucceeds commitSucceeds tableIndex =>
    let created :=
      createTable s.quotas type element resourceQuota reserveSucceeds commitSucceeds pageSizeLog2 tableIndex
    s.addObject created.1 (created.2.map .table)
  | .cloneTable handle reserveSucceeds commitSucceeds =>
    match s.tableAt handle with
    | none => (s, .noObject)
    | some table =>
      let created := cloneTable s.quotas table reserveSucceeds commitSucceeds pageSizeLog2
      s.addObject created.1 (created.2.map .table)
  | .growTable handle numElementsToGrow initialElement commitSucceeds =>
    match s.tableAt handle with
    | none => (s, .noObject)
    | some table =>
      let grown := growTable s.quotas table numElementsToGrow (.ref initialElement) pageSizeLog2 commitSucceeds
      (s.setObject grown.1 handle (some (.table grown.2.1)), .grown grown.2.2)
  | .tableGrow handle initialValue deltaNumElements commitSucceeds =>
    match s.tableAt handle with
    | none => (s, .noObject)
    | some table =>
      let grown := tableGrow s.quotas table initialValue deltaNumElements pageSizeLog2 commitSucceeds
      (s.setObject grown.1 handle (some (.table grown.2.1)), .grownI32 grown.2.2)
  | .deleteTable handle =>
    match s.tableAt handle with
    | none => (s, .noObject)
    | some table => (s.setObject (deleteTable s.quotas table) handle none, .done (.ok ()))
  | .getTableElement handle index =>
    match s.tableAt handle with
    | none => (s, .noObject)
    | some table => (s, .element (getTableElement table index))
  | .setTableElement handle index newValue =>
    match s.tableAt handle with
    | none => (s, .noObject)
    | some table =>
      let written := setTableElement table index newValue
      (s.setObject s.quotas handle (some (.table written.1)), .element written.2)
  | .tableGet handle index =>
    match s.tableAt handle with
    | none => (s, .noObject)
    | some table => (s, .element (tableGet table index))
  | .tableSet handle index value =>
    match s.tableAt handle with
    | none => (s, .noObject)
    | some table =>
      let written := tableSet table index value
      (s.setObject s.quotas handle (some (.table written.1)), .element written.2)
  | .tableFill handle destOffset value numElements =>
    match s.tableAt handle with
    | none => (s, .noObject)
    | some table =>
      let filled := tableFill table destOffset value numElements
      (s.setObject s.quotas handle (some (.table filled.1)), .done filled.2)
  | .tableCopy destOffset sourceOffset numElements sourceHandle destHandle =>
    match s.tableAt sourceHandle, s.tableAt destHandle with
    | some sourceTable, some destTable =>
      let copied :=
        copyTable sourceTable destTable (sourceHandle == destHandle) destOffset sourceOffset numElements
      (s.setObject s.quotas destHandle (some (.table copied.1)), .done copied.2)
    | _, _ => (s, .noObject)
  | .tableInit handle destIndex sourceIndex numElems elemSegment =>
    match s.tableAt handle with
    | none => (s, .noObject)
    | some table =>
      let initialized := tableInit table elemSegment destIndex sourceIndex numElems
      (s.setObject s.quotas handle (some (.table initialized.1)), .done initialized.2)

/-- A sequence of calls, with what each returned. -/
def run (pageSizeLog2 : Uptr) :
    RuntimeState QuotaId Object → List (RuntimeOp QuotaId Object) →
      RuntimeState QuotaId Object × List (RuntimeResult Object)
  | s, [] => (s, [])
  | s, op :: ops =>
    let (s', result) := step pageSizeLog2 s op
    let (s'', results) := run pageSizeLog2 s' ops
    (s'', result :: results)

/-- The states a run reaches from fresh quotas. -/
inductive Reachable (pageSizeLog2 : Uptr) : RuntimeState QuotaId Object → Prop
  | init (memoryPagesMax tableElemsMax : QuotaId → Uptr) :
      Reachable pageSizeLog2 (initialState memoryPagesMax tableElemsMax)
  | step {s : RuntimeState QuotaId Object} (op : RuntimeOp QuotaId Object) :
      Reachable pageSizeLog2 s → Reachable pageSizeLog2 (step pageSizeLog2 s op).1

theorem reachable_run {pageSizeLog2 : Uptr} (ops : List (RuntimeOp QuotaId Object)) :
    ∀ {s : RuntimeState QuotaId Object}, Reachable pageSizeLog2 s →
      Reachable pageSizeLog2 (run pageSizeLog2 s ops).1 := by
  induction ops with
  | nil => exact fun hs => hs
  | cons op ops ih => exact fun hs => ih (hs.step op)

end Wavm.Runtime
