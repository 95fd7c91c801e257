import Mathlib
import Wavm.IR.Types
import Wavm.Inline.Serialization
import Wavm.Inline.SerializationSpec

set_option relaxedAutoImplicit false
set_option autoImplicit false

/-!
# The name section

`IR::setDisassemblyNames` and `IR::getDisassemblyNames`, from `src/Lib/IR/DisassemblyNames.cpp`.
The writer serializes a `DisassemblyNames` into the module's user section `"name"`, one
subsection after another: the module name, the function names, the local names, and with
`extendedNamesSection` the label, type, table, memory, global, element segment, data segment
and exception type names. A name map lists the index and the name of each non-empty name. The
reader starts from a blank name for every entity of the module and reads the subsections back
until the section ends or an exception is thrown; what it read up to the exception stays.

## Main definitions

* `Wavm.IR.Module`, `Wavm.IR.DisassemblyNames` — what the two functions read and write.
* `Wavm.IR.serializeNameMap`, `serializeNameSubsection`, `setDisassemblyNames` — the writer.
* `Wavm.IR.deserializeNameMap`, `deserializeNameSubsection`, `deserializeNameSection`,
  `getDisassemblyNames` — the reader.

## Implementation notes

A `std::string` is the list of its bytes. An output stream is the list of bytes written, and an
exception of the writer is an `Except` error; `setDisassemblyNames` returns the module as the
call leaves it beside the exception, since it adds the section before it writes. A reader returns the value it builds together
with the rest of its stream or the exception it threw: the C++ code updates its output in place
before it throws, and `getDisassemblyNames` keeps what was read when it catches the exception.
An integer read into a `U32` or a `Uptr` is read as that type. An entity count of the module,
`module.tables.size()` and the others, is a number; a type index out of range, undefined in the
source, reads the empty function type.
-/

namespace Wavm.IR

open Wavm.Serialization

/-! ## What the name section reads and writes -/

/-- `FeatureSpec`, with the two fields the name section reads. -/
structure FeatureSpec where
  extendedNamesSection : Bool
  maxLabelsPerFunction : ℕ

/-- A `FunctionDef`: its type index and the types of its locals that are not parameters. -/
structure FunctionDef where
  typeIndex : ℕ
  nonParameterLocalTypes : List ValueType

/-- A `UserSection`. -/
structure UserSection where
  name : String
  data : List UInt8

/-- A `Module`, with what the name section reads: the feature spec, the types, the type index
of each function import, the function definitions, the number of entities of each other kind,
and the user sections. -/
structure Module where
  featureSpec : FeatureSpec
  types : List FunctionType
  functionImports : List ℕ
  functionDefs : List FunctionDef
  numTables : ℕ
  numMemories : ℕ
  numGlobals : ℕ
  numElemSegments : ℕ
  numDataSegments : ℕ
  numExceptionTypes : ℕ
  userSections : List UserSection

/-- `DisassemblyNames::Function`. -/
structure FunctionNames where
  name : List UInt8
  locals : List (List UInt8)
  labels : List (List UInt8)
  deriving DecidableEq, Repr

/-- `DisassemblyNames`. -/
structure DisassemblyNames where
  moduleName : List UInt8
  types : List (List UInt8)
  functions : List FunctionNames
  tables : List (List UInt8)
  memories : List (List UInt8)
  globals : List (List UInt8)
  elemSegments : List (List UInt8)
  dataSegments : List (List UInt8)
  exceptionTypes : List (List UInt8)
  deriving DecidableEq, Repr

/-- `NameSubsectionType`, a `U8`. -/
inductive NameSubsectionType
  | module
  | function
  | «local»
  | label
  | type
  | table
  | memory
  | global
  | elemSegment
  | dataSegment
  | exceptionTypes
  deriving DecidableEq, Repr

/-- The `U8` of a subsection type. -/
def NameSubsectionType.toUInt8 : NameSubsectionType → UInt8
  | .module => 0
  | .function => 1
  | .local => 2
  | .label => 3
  | .type => 4
  | .table => 5
  | .memory => 6
  | .global => 7
  | .elemSegment => 8
  | .dataSegment => 9
  | .exceptionTypes => 10

/-- `(NameSubsectionType)subsectionType`: the type of a `U8`, `none` for `invalid` and every
other value. -/
def NameSubsectionType.ofUInt8 (subsectionType : UInt8) : Option NameSubsectionType :=
  [NameSubsectionType.module, .function, .local, .label, .type, .table, .memory, .global,
    .elemSegment, .dataSegment, .exceptionTypes].find? fun t => t.toUInt8 = subsectionType

/-- `findUserSection`: the index of the first user section of that name. -/
def findUserSection (module : Module) (userSectionName : String) : Option ℕ :=
  module.userSections.findIdx? fun userSection => userSection.name = userSectionName

/-! ## The writer -/

/-- `serializeVarUInt32` of a `Uptr` on an output stream. What the writer passes is the size
of a C++ container or an index into one, below `2^64`; a larger number, which no `Uptr` holds,
fails as out of range too. -/
def writeVarUInt32 (value : ℕ) : Except String (List UInt8) :=
  if value < 2 ^ 64 then
    OutputStream.serializeVarInt .U64 serializeVarUInt32 (BitVec.ofNat _ value)
  else .error (outOfRangeMessage serializeVarUInt32 value)

/-- `serialize` of a `std::string` on an output stream: its size, then its bytes. -/
def writeString (string : List UInt8) : Except String (List UInt8) := do
  let size ← writeVarUInt32 string.length
  pure (size ++ string)

/-- The loop of `serializeNameMap` from `nameIndex` on: the index and the name of each non-empty
name. -/
def serializeNameMapEntries : ℕ → List (List UInt8) → Except String (List UInt8)
  | _, [] => pure []
  | nameIndex, name :: names => do
    let entry ← if name.length ≠ 0 then do
        let index ← writeVarUInt32 nameIndex
        let string ← writeString name
        pure (index ++ string)
      else pure []
    let entries ← serializeNameMapEntries (nameIndex + 1) names
    pure (entry ++ entries)

/-- `serializeNameMap`: the number of non-empty names, then their entries. -/
def serializeNameMap (names : List (List UInt8)) : Except String (List UInt8) := do
  let numNames ← writeVarUInt32 (names.countP fun name => name.length ≠ 0)
  let entries ← serializeNameMapEntries 0 names
  pure (numNames ++ entries)

/-- The loop over `names.functions` of a function subsection from `functionIndex` on: the index
of each function, then what `serializeFunction` writes of it. -/
def serializeFunctionEntries (serializeFunction : FunctionNames → Except String (List UInt8)) :
    ℕ → List FunctionNames → Except String (List UInt8)
  | _, [] => pure []
  | functionIndex, function :: functions => do
    let index ← writeVarUInt32 functionIndex
    let body ← serializeFunction function
    let entries ← serializeFunctionEntries serializeFunction (functionIndex + 1) functions
    pure (index ++ body ++ entries)

/-- The body of a function subsection: the number of functions, then an entry for each. -/
def serializeFunctionSubsection (serializeFunction : FunctionNames → Except String (List UInt8))
    (functions : List FunctionNames) : Except String (List UInt8) := do
  let numFunctionNames ← writeVarUInt32 functions.length
  let entries ← serializeFunctionEntries serializeFunction 0 functions
  pure (numFunctionNames ++ entries)

/-- `serializeNameSubsection`: the type as a raw byte, then the body as a `std::vector<U8>`,
its size and its bytes. -/
def serializeNameSubsection (subsectionType : NameSubsectionType)
    (body : Except String (List UInt8)) : Except String (List UInt8) := do
  let bytes ← body
  let size ← writeVarUInt32 bytes.length
  pure (subsectionType.toUInt8 :: size ++ bytes)

/-- The subsections `setDisassemblyNames` writes, in order, each with the body it serializes. -/
def nameSubsections (module : Module) (names : DisassemblyNames) :
    List (NameSubsectionType × Except String (List UInt8)) :=
  [(.module, writeString names.moduleName),
    (.function, serializeFunctionSubsection (fun function => writeString function.name)
      names.functions),
    (.local, serializeFunctionSubsection (fun function => serializeNameMap function.locals)
      names.functions)] ++
  if module.featureSpec.extendedNamesSection then
    [(.label, serializeFunctionSubsection (fun function => serializeNameMap function.labels)
        names.functions),
      (.type, serializeNameMap names.types),
      (.table, serializeNameMap names.tables),
      (.memory, serializeNameMap names.memories),
      (.global, serializeNameMap names.globals),
      (.elemSegment, serializeNameMap names.elemSegments),
      (.dataSegment, serializeNameMap names.dataSegments),
      (.exceptionTypes, serializeNameMap names.exceptionTypes)]
  else []

/-- The bytes of the subsections from the list on. -/
def serializeNameSubsections :
    List (NameSubsectionType × Except String (List UInt8)) → Except String (List UInt8)
  | [] => pure []
  | (subsectionType, body) :: subsections => do
    let bytes ← serializeNameSubsection subsectionType body
    let rest ← serializeNameSubsections subsections
    pure (bytes ++ rest)

/-- `setDisassemblyNames`: the module after the call, and the exception it threw, if any. The
name section replaces the data of the first user section `"name"`; without one, an empty
section `"name"` is added first, and stays when the writer throws. -/
def setDisassemblyNames (module : Module) (names : DisassemblyNames) :
    Module × Except String Unit :=
  let (module, userSectionIndex) := match findUserSection module "name" with
    | some userSectionIndex => (module, userSectionIndex)
    | none =>
      ({ module with userSections := module.userSections ++ [⟨"name", []⟩] },
        module.userSections.length)
  match serializeNameSubsections (nameSubsections module names) with
  | .error e => (module, .error e)
  | .ok bytes =>
    ({ module with
        userSections := module.userSections.modify userSectionIndex fun userSection =>
          { userSection with data := bytes } },
      .ok ())

/-! ## The reader -/

/-- `serializeVarUInt32` (or another helper of `format`) into a variable of type `t` on an
input stream. -/
def readVarUInt (t : IntType) (format : VarIntFormat) (stream : List UInt8) :
    Except String (ℕ × List UInt8) :=
  (InputStream.serializeVarInt t format stream).map fun result => (result.1.toNat, result.2)

/-- `stream.advance(numBytes)` of a `MemoryInputStream`: the bytes it skips and the rest. -/
def advance (numBytes : ℕ) (stream : List UInt8) : Except String (List UInt8 × List UInt8) :=
  if stream.length < numBytes then .error "expected data but found end of stream"
  else .ok (stream.take numBytes, stream.drop numBytes)

/-- `serialize` of a `std::string` on an input stream: its size as a `Uptr`, then its bytes. -/
def readString (stream : List UInt8) : Except String (List UInt8 × List UInt8) := do
  let (size, stream) ← readVarUInt .U64 serializeVarUInt32 stream
  advance size stream

/-- The loop of `deserializeNameMap` over `numNames` entries: each sets the name at its index,
after growing the names to hold it. -/
def deserializeNameMapEntries (maxNames : ℕ) :
    ℕ → List (List UInt8) → List UInt8 → List (List UInt8) × Except String (List UInt8)
  | 0, outNames, stream => (outNames, .ok stream)
  | numNames + 1, outNames, stream =>
    match readVarUInt .U64 serializeVarUInt32 stream with
    | .error e => (outNames, .error e)
    | .ok (nameIndex, stream) =>
      match readString stream with
      | .error e => (outNames, .error e)
      | .ok (nameString, stream) =>
        if nameIndex ≥ maxNames then (outNames, .error "out-of-bounds name index")
        else
          let outNames := if nameIndex ≥ outNames.length then
              outNames ++ List.replicate (nameIndex + 1 - outNames.length) []
            else outNames
          deserializeNameMapEntries maxNames numNames (outNames.set nameIndex nameString) stream

/-- `deserializeNameMap`: the number of entries, then the entries. -/
def deserializeNameMap (stream : List UInt8) (outNames : List (List UInt8)) (maxNames : ℕ) :
    List (List UInt8) × Except String (List UInt8) :=
  match readVarUInt .U64 serializeVarUInt32 stream with
  | .error e => (outNames, .error e)
  | .ok (numNames, stream) => deserializeNameMapEntries maxNames numNames outNames stream

/-- The loop of the function subsection: each entry names the function at its index, if there
is one. -/
def deserializeFunctionNames :
    ℕ → List FunctionNames → List UInt8 → List FunctionNames × Except String (List UInt8)
  | 0, functions, stream => (functions, .ok stream)
  | numFunctionNames + 1, functions, stream =>
    match readVarUInt .U32 serializeVarUInt32 stream with
    | .error e => (functions, .error e)
    | .ok (functionIndex, stream) =>
      match readString stream with
      | .error e => (functions, .error e)
      | .ok (functionName, stream) =>
        deserializeFunctionNames numFunctionNames
          (functions.modify functionIndex fun function => { function with name := functionName })
          stream

/-- The loop of the local and the label subsections: each entry reads the name map of the
function at its index, into the names `get` reads and `set` writes, with at most `maxNames`
names; an index past the functions ends the loop. -/
def deserializeFunctionNameMaps (get : FunctionNames → List (List UInt8))
    (set : FunctionNames → List (List UInt8) → FunctionNames) (maxNames : FunctionNames → ℕ) :
    ℕ → List FunctionNames → List UInt8 → List FunctionNames × Except String (List UInt8)
  | 0, functions, stream => (functions, .ok stream)
  | numFunctionNameMaps + 1, functions, stream =>
    match readVarUInt .U32 serializeVarUInt32 stream with
    | .error e => (functions, .error e)
    | .ok (functionIndex, stream) =>
      match functions[functionIndex]? with
      | none => (functions, .ok stream)
      | some function =>
        let result := deserializeNameMap stream (get function) (maxNames function)
        let functions := functions.set functionIndex (set function result.1)
        match result.2 with
        | .error e => (functions, .error e)
        | .ok stream =>
          deserializeFunctionNameMaps get set maxNames numFunctionNameMaps functions stream

/-- The error of a subsection that needs `extendedNamesSection`. -/
def requiresExtendedNamesSection (subsection : String) : String :=
  subsection ++ " name subsection requires extendedNamesSection feature"

/-- A subsection of function-indexed name maps (`local`, `label`): its count, then its loop. -/
def deserializeFunctionNameMapSubsection (get : FunctionNames → List (List UInt8))
    (set : FunctionNames → List (List UInt8) → FunctionNames) (maxNames : FunctionNames → ℕ)
    (outNames : DisassemblyNames) (substream : List UInt8) :
    DisassemblyNames × Except String Unit :=
  match readVarUInt .U32 serializeVarUInt32 substream with
  | .error e => (outNames, .error e)
  | .ok (numFunctionNameMaps, substream) =>
    let result := deserializeFunctionNameMaps get set maxNames numFunctionNameMaps
      outNames.functions substream
    ({ outNames with functions := result.1 }, result.2.map fun _ => ())

/-- A subsection of one name map of the extended names section, read into the names `get`
reads and `set` writes, or its error without `extendedNamesSection`. -/
def deserializeNameMapSubsection (module : Module) (subsection : String)
    (get : DisassemblyNames → List (List UInt8))
    (set : DisassemblyNames → List (List UInt8) → DisassemblyNames)
    (outNames : DisassemblyNames) (substream : List UInt8) :
    DisassemblyNames × Except String Unit :=
  if !module.featureSpec.extendedNamesSection then
    (outNames, .error (requiresExtendedNamesSection subsection))
  else
    let result := deserializeNameMap substream (get outNames) (get outNames).length
    (set outNames result.1, result.2.map fun _ => ())

/-- The switch of `deserializeNameSubsection` on the subsection's type, over its bytes. -/
def deserializeNameSubsectionBody (module : Module) (outNames : DisassemblyNames)
    (substream : List UInt8) : Option NameSubsectionType → DisassemblyNames × Except String Unit
  | some .module =>
    match readString substream with
    | .error e => (outNames, .error e)
    | .ok (moduleName, _) => ({ outNames with moduleName }, .ok ())
  | some .function =>
    match readVarUInt .U32 serializeVarUInt32 substream with
    | .error e => (outNames, .error e)
    | .ok (numFunctionNames, substream) =>
      let result := deserializeFunctionNames numFunctionNames outNames.functions substream
      ({ outNames with functions := result.1 }, result.2.map fun _ => ())
  | some .local =>
    deserializeFunctionNameMapSubsection FunctionNames.locals
      (fun function locals => { function with locals }) (fun function => function.locals.length)
      outNames substream
  | some .label =>
    if !module.featureSpec.extendedNamesSection then
      (outNames, .error (requiresExtendedNamesSection "label"))
    else
      deserializeFunctionNameMapSubsection FunctionNames.labels
        (fun function labels => { function with labels })
        (fun _ => module.featureSpec.maxLabelsPerFunction) outNames substream
  | some .type =>
    deserializeNameMapSubsection module "type" DisassemblyNames.types
      (fun outNames types => { outNames with types }) outNames substream
  | some .table =>
    deserializeNameMapSubsection module "table" DisassemblyNames.tables
      (fun outNames tables => { outNames with tables }) outNames substream
  | some .memory =>
    deserializeNameMapSubsection module "memory" DisassemblyNames.memories
      (fun outNames memories => { outNames with memories }) outNames substream
  | some .global =>
    deserializeNameMapSubsection module "global" DisassemblyNames.globals
      (fun outNames globals => { outNames with globals }) outNames substream
  | some .elemSegment =>
    deserializeNameMapSubsection module "elem segment" DisassemblyNames.elemSegments
      (fun outNames elemSegments => { outNames with elemSegments }) outNames substream
  | some .dataSegment =>
    deserializeNameMapSubsection module "data segment" DisassemblyNames.dataSegments
      (fun outNames dataSegments => { outNames with dataSegments }) outNames substream
  | some .exceptionTypes =>
    deserializeNameMapSubsection module "exception type" DisassemblyNames.exceptionTypes
      (fun outNames exceptionTypes => { outNames with exceptionTypes }) outNames substream
  | none => (outNames, .ok ())

/-- `deserializeNameSubsection`: the type as a `varuint7`, the size as a `U32`, then the body
over the substream of that size; the stream continues past it. -/
def deserializeNameSubsection (module : Module) (outNames : DisassemblyNames)
    (stream : List UInt8) : DisassemblyNames × Except String (List UInt8) :=
  match readVarUInt .U8 serializeVarUInt7 stream with
  | .error e => (outNames, .error e)
  | .ok (subsectionType, stream) =>
    match readVarUInt .U32 serializeVarUInt32 stream with
    | .error e => (outNames, .error e)
    | .ok (numSubsectionBytes, stream) =>
      match advance numSubsectionBytes stream with
      | .error e => (outNames, .error e)
      | .ok (substream, stream) =>
        let result := deserializeNameSubsectionBody module outNames substream
          (NameSubsectionType.ofUInt8 (UInt8.ofNat subsectionType))
        (result.1, result.2.map fun _ => stream)

/-- Every value the reader of a varint accepts takes at least one byte off the stream. -/
theorem length_readVarUInt_lt {t : IntType} {format : VarIntFormat}
    (h : (t, format) ∈ binaryFormatInstantiations) {stream rest : List UInt8} {value : ℕ}
    (hread : readVarUInt t format stream = .ok (value, rest)) : rest.length < stream.length := by
  unfold readVarUInt at hread
  cases hs : InputStream.serializeVarInt t format stream with
  | error e => simp [hs, Except.map] at hread
  | ok result =>
    simp only [hs, Except.map, Except.ok.injEq, Prod.mk.injEq] at hread
    obtain ⟨bytes, hstream, hne, -⟩ :=
      InputStream.serializeVarInt_sound (fits_of_mem_binaryFormatInstantiations h)
        (show InputStream.serializeVarInt t format stream = .ok (result.1, result.2) from hs)
    rw [hstream, hread.2, List.length_append]
    have := List.length_pos_iff.2 hne
    omega

/-- A subsection the reader accepts takes at least its type byte off the stream. -/
theorem length_deserializeNameSubsection_lt {module : Module} {outNames : DisassemblyNames}
    {stream rest : List UInt8}
    (h : (deserializeNameSubsection module outNames stream).2 = .ok rest) :
    rest.length < stream.length := by
  unfold deserializeNameSubsection at h
  split at h
  · cases h
  · next subsectionType stream' htype =>
    have h₁ := length_readVarUInt_lt (by simp [binaryFormatInstantiations]) htype
    split at h
    · cases h
    · next numSubsectionBytes stream'' hsize =>
      have h₂ := length_readVarUInt_lt (by simp [binaryFormatInstantiations]) hsize
      split at h
      · cases h
      · next substream stream''' hadvance =>
        unfold advance at hadvance
        split at hadvance
        · cases hadvance
        · simp only [Except.ok.injEq, Prod.mk.injEq] at hadvance
          obtain ⟨-, rfl⟩ := hadvance
          cases hr : (deserializeNameSubsectionBody module outNames substream
            (NameSubsectionType.ofUInt8 (UInt8.ofNat subsectionType))).2 with
          | error e => simp [hr, Except.map] at h
          | ok u =>
            simp only [hr, Except.map, Except.ok.injEq] at h
            rw [← h, List.length_drop]
            omega

/-- The loop of `getDisassemblyNames`: `while(stream.capacity())`, each round a subsection,
until the stream ends or a subsection throws. -/
def deserializeNameSection (module : Module) (outNames : DisassemblyNames) (stream : List UInt8) :
    DisassemblyNames :=
  if stream = [] then outNames
  else
    match h : (deserializeNameSubsection module outNames stream).2 with
    | .error _ => (deserializeNameSubsection module outNames stream).1
    | .ok rest =>
      have := length_deserializeNameSubsection_lt h
      deserializeNameSection module (deserializeNameSubsection module outNames stream).1 rest
termination_by stream.length

/-- The parameters of a function type, `module.types[typeIndex].params()`. -/
def paramCount (module : Module) (typeIndex : ℕ) : ℕ :=
  (module.types.getD typeIndex ⟨[], []⟩).params.length

/-- The blank names `getDisassemblyNames` starts from: a function for each import and each
definition, with a blank local name for each parameter and local, and a blank name for each
type, table, memory, global, segment and exception type. -/
def initialNames (module : Module) : DisassemblyNames where
  moduleName := []
  types := List.replicate module.types.length []
  functions :=
    module.functionImports.map (fun typeIndex =>
      ⟨[], List.replicate (paramCount module typeIndex) [], []⟩) ++
    module.functionDefs.map (fun functionDef =>
      ⟨[], List.replicate (paramCount module functionDef.typeIndex +
        functionDef.nonParameterLocalTypes.length) [], []⟩)
  tables := List.replicate module.numTables []
  memories := List.replicate module.numMemories []
  globals := List.replicate module.numGlobals []
  elemSegments := List.replicate module.numElemSegments []
  dataSegments := List.replicate module.numDataSegments []
  exceptionTypes := List.replicate module.numExceptionTypes []

/-- `getDisassemblyNames`: the blank names, then the name section if there is one. -/
def getDisassemblyNames (module : Module) : DisassemblyNames :=
  match findUserSection module "name" with
  | none => initialNames module
  | some userSectionIndex =>
    deserializeNameSection module (initialNames module)
      (module.userSections.getD userSectionIndex ⟨"", []⟩).data

end Wavm.IR
