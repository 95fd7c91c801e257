import Mathlib
import Wavm.IR.DisassemblyNamesSpec

set_option relaxedAutoImplicit false
set_option autoImplicit false

/-!
# What the reader keeps on every input

`IR::getDisassemblyNames` starts from a blank name for every entity of the module and reads the
name section over it, stopping at the first exception. Whatever the section holds (malformed
integers, truncated strings, out-of-range indices, unknown or repeated subsections), the names
it returns have the module's shape: callers such as the printer index them by the module's own
entity indices.

## Main definitions

* `Wavm.IR.HasShape` — one function for each function of the module, each with one local name
  for each parameter and local and at most `maxLabelsPerFunction` label names, and one name for
  each entity of every other kind.

## Main results

* `Wavm.IR.hasShape_getDisassemblyNames` — the names `getDisassemblyNames` returns have the
  module's shape, for every module and every name section.

## Design

Every loop of the reader is taken apart by one inversion lemma (its round either ends, with the
names as they are, or stores something and goes on), and the shape is carried through each
round. The bounds of a name map follow from the reader's own bound: an index at or past
`maxNames` throws before anything is stored.
-/

namespace Wavm.IR

open Wavm.Serialization

/-! ## Name maps -/

/-- A round of the name map loop either ends, leaving the names as they are, or stores a name
at an index below the bound and goes on. -/
theorem deserializeNameMapEntries_succ (maxNames numNames : ℕ) (outNames : List (List UInt8))
    (stream : List UInt8) :
    (deserializeNameMapEntries maxNames (numNames + 1) outNames stream).1 = outNames ∨
      ∃ nameIndex name stream', nameIndex < maxNames ∧
        deserializeNameMapEntries maxNames (numNames + 1) outNames stream =
          deserializeNameMapEntries maxNames numNames (setName outNames nameIndex name) stream' := by
  rw [deserializeNameMapEntries]
  cases readVarUInt .U64 serializeVarUInt32 stream with
  | error e => exact .inl rfl
  | ok result =>
    obtain ⟨nameIndex, stream⟩ := result
    dsimp only
    cases readString stream with
    | error e => exact .inl rfl
    | ok result =>
      obtain ⟨name, stream'⟩ := result
      dsimp only
      by_cases hmax : nameIndex ≥ maxNames
      · rw [if_pos hmax]
        exact .inl rfl
      · rw [if_neg hmax]
        exact .inr ⟨nameIndex, name, stream', by omega, rfl⟩

/-- The name map loop never shrinks the names, and grows them no further than its bound. -/
theorem length_deserializeNameMapEntries (maxNames : ℕ) :
    ∀ (numNames : ℕ) (outNames : List (List UInt8)) (stream : List UInt8),
      outNames.length ≤ (deserializeNameMapEntries maxNames numNames outNames stream).1.length ∧
        (deserializeNameMapEntries maxNames numNames outNames stream).1.length ≤
          max outNames.length maxNames
  | 0, outNames, stream => ⟨le_refl _, le_max_left _ _⟩
  | numNames + 1, outNames, stream => by
    rcases deserializeNameMapEntries_succ maxNames numNames outNames stream with
      h | ⟨nameIndex, name, stream', hlt, h⟩
    · rw [h]
      exact ⟨le_refl _, le_max_left _ _⟩
    · rw [h]
      have ih := length_deserializeNameMapEntries maxNames numNames
        (setName outNames nameIndex name) stream'
      rw [length_setName] at ih
      omega

/-- The bounds of a name map read on any stream. -/
theorem length_deserializeNameMap (stream : List UInt8) (outNames : List (List UInt8))
    (maxNames : ℕ) :
    outNames.length ≤ (deserializeNameMap stream outNames maxNames).1.length ∧
      (deserializeNameMap stream outNames maxNames).1.length ≤ max outNames.length maxNames := by
  rw [deserializeNameMap]
  split
  · exact ⟨le_refl _, le_max_left _ _⟩
  · exact length_deserializeNameMapEntries maxNames _ outNames _

/-- A name map bounded by the names the reader holds keeps their number. -/
theorem length_deserializeNameMap_self (stream : List UInt8) (outNames : List (List UInt8)) :
    (deserializeNameMap stream outNames outNames.length).1.length = outNames.length := by
  have := length_deserializeNameMap stream outNames outNames.length
  omega

/-! ## Function subsections -/

section Forall₂

variable {α β : Type} {P : α → β → Prop}

/-- Changing one element in a way that keeps its relation to its partner keeps the relation of
the lists. -/
theorem forall₂_modify {f : β → β} (hf : ∀ a b, P a b → P a (f b)) :
    ∀ {as : List α} {bs : List β} (i : ℕ), List.Forall₂ P as bs →
      List.Forall₂ P as (bs.modify i f)
  | _, _, _, .nil => by
    rw [List.modify_nil]
    exact .nil
  | _, _, 0, .cons h hs => by
    rw [List.modify_zero_cons]
    exact .cons (hf _ _ h) hs
  | _, _, i + 1, .cons h hs => by
    rw [List.modify_succ_cons]
    exact .cons h (forall₂_modify hf i hs)

/-- Replacing one element by one related to the same partner keeps the relation of the lists. -/
theorem forall₂_set {b b' : β} (hb : ∀ a, P a b → P a b') :
    ∀ {as : List α} {bs : List β} (i : ℕ), bs[i]? = some b → List.Forall₂ P as bs →
      List.Forall₂ P as (bs.set i b')
  | _, _, _, h, .nil => by simp at h
  | _, _, 0, h, .cons hab hs => by
    obtain rfl : _ = b := by simpa using h
    rw [List.set_cons_zero]
    exact .cons (hb _ hab) hs
  | _, _, i + 1, h, .cons hab hs => by
    rw [List.set_cons_succ]
    exact .cons hab (forall₂_set hb i (by simpa using h) hs)

end Forall₂

/-- A round of the function subsection's loop either ends, leaving the functions as they are,
or names the function at an index, if there is one, and goes on. -/
theorem deserializeFunctionNames_succ (numFunctionNames : ℕ) (functions : List FunctionNames)
    (stream : List UInt8) :
    (deserializeFunctionNames (numFunctionNames + 1) functions stream).1 = functions ∨
      ∃ functionIndex functionName stream',
        deserializeFunctionNames (numFunctionNames + 1) functions stream =
          deserializeFunctionNames numFunctionNames
            (functions.modify functionIndex fun function =>
              { function with name := functionName }) stream' := by
  rw [deserializeFunctionNames]
  cases readVarUInt .U32 serializeVarUInt32 stream with
  | error e => exact .inl rfl
  | ok result =>
    obtain ⟨functionIndex, stream⟩ := result
    dsimp only
    cases readString stream with
    | error e => exact .inl rfl
    | ok result => exact .inr ⟨functionIndex, result.1, result.2, rfl⟩

section Functions

variable {P : FunctionNames → FunctionNames → Prop} {blanks : List FunctionNames}

/-- The function subsection's loop keeps every relation of the functions that naming a function
keeps. -/
theorem forall₂_deserializeFunctionNames
    (hname : ∀ blank function name, P blank function → P blank { function with name }) :
    ∀ (numFunctionNames : ℕ) (functions : List FunctionNames) (stream : List UInt8),
      List.Forall₂ P blanks functions →
      List.Forall₂ P blanks (deserializeFunctionNames numFunctionNames functions stream).1
  | 0, _, _, h => h
  | numFunctionNames + 1, functions, stream, h => by
    rcases deserializeFunctionNames_succ numFunctionNames functions stream with
      heq | ⟨functionIndex, functionName, stream', heq⟩
    · rw [heq]
      exact h
    · rw [heq]
      exact forall₂_deserializeFunctionNames hname numFunctionNames _ stream'
        (forall₂_modify (fun blank function => hname blank function functionName) _ h)

/-- A round of the local and the label subsections' loop either ends with the functions as they
are, or reads a name map into the function at an index and then ends or goes on. -/
theorem deserializeFunctionNameMaps_succ (get : FunctionNames → List (List UInt8))
    (set : FunctionNames → List (List UInt8) → FunctionNames) (maxNames : FunctionNames → ℕ)
    (numFunctionNameMaps : ℕ) (functions : List FunctionNames) (stream : List UInt8) :
    (deserializeFunctionNameMaps get set maxNames (numFunctionNameMaps + 1) functions stream).1 =
        functions ∨
      ∃ functionIndex function substream, functions[functionIndex]? = some function ∧
        ((deserializeFunctionNameMaps get set maxNames (numFunctionNameMaps + 1) functions
            stream).1 =
          functions.set functionIndex
            (set function (deserializeNameMap substream (get function) (maxNames function)).1) ∨
        ∃ stream', deserializeFunctionNameMaps get set maxNames (numFunctionNameMaps + 1)
            functions stream =
          deserializeFunctionNameMaps get set maxNames numFunctionNameMaps
            (functions.set functionIndex
              (set function (deserializeNameMap substream (get function) (maxNames function)).1))
            stream') := by
  rw [deserializeFunctionNameMaps]
  cases readVarUInt .U32 serializeVarUInt32 stream with
  | error e => exact .inl rfl
  | ok result =>
    obtain ⟨functionIndex, stream⟩ := result
    dsimp only
    cases hfunction : functions[functionIndex]? with
    | none => exact .inl rfl
    | some function =>
      dsimp only
      refine .inr ⟨functionIndex, function, stream, hfunction, ?_⟩
      -- the name map ends the loop when it throws
      cases (deserializeNameMap stream (get function) (maxNames function)).2 with
      | error e => exact .inl rfl
      | ok stream' => exact .inr ⟨stream', rfl⟩

/-- The local and the label subsections' loop keeps every relation of the functions that
reading a name map into one keeps. -/
theorem forall₂_deserializeFunctionNameMaps (get : FunctionNames → List (List UInt8))
    (set : FunctionNames → List (List UInt8) → FunctionNames) (maxNames : FunctionNames → ℕ)
    (hstep : ∀ blank function substream, P blank function →
      P blank (set function (deserializeNameMap substream (get function) (maxNames function)).1)) :
    ∀ (numFunctionNameMaps : ℕ) (functions : List FunctionNames) (stream : List UInt8),
      List.Forall₂ P blanks functions →
      List.Forall₂ P blanks
        (deserializeFunctionNameMaps get set maxNames numFunctionNameMaps functions stream).1
  | 0, _, _, h => h
  | numFunctionNameMaps + 1, functions, stream, h => by
    rcases deserializeFunctionNameMaps_succ get set maxNames numFunctionNameMaps functions stream
      with heq | ⟨functionIndex, function, substream, hfunction, heq | ⟨stream', heq⟩⟩
    · rw [heq]
      exact h
    · rw [heq]
      exact forall₂_set (fun blank => hstep blank function substream) _ hfunction h
    · rw [heq]
      exact forall₂_deserializeFunctionNameMaps get set maxNames hstep numFunctionNameMaps _
        stream' (forall₂_set (fun blank => hstep blank function substream) _ hfunction h)

/-- A subsection of function-indexed name maps changes only the functions, and keeps their
relations as each of its rounds does. -/
theorem deserializeFunctionNameMapSubsection_fst (get : FunctionNames → List (List UInt8))
    (set : FunctionNames → List (List UInt8) → FunctionNames) (maxNames : FunctionNames → ℕ)
    (hstep : ∀ blank function substream, P blank function →
      P blank (set function (deserializeNameMap substream (get function) (maxNames function)).1))
    (outNames : DisassemblyNames) (substream : List UInt8)
    (h : List.Forall₂ P blanks outNames.functions) :
    ∃ functions, (deserializeFunctionNameMapSubsection get set maxNames outNames substream).1 =
      { outNames with functions } ∧ List.Forall₂ P blanks functions := by
  rw [deserializeFunctionNameMapSubsection]
  split
  · exact ⟨outNames.functions, rfl, h⟩
  · exact ⟨_, rfl, forall₂_deserializeFunctionNameMaps get set maxNames hstep _ _ _ h⟩

end Functions

/-! ## The shape of the names -/

/-- The shape of the names `getDisassemblyNames` returns for a module: one function for each
function of the module, each with one local name for each parameter and local and at most
`maxLabelsPerFunction` label names, and one name for each entity of every other kind. -/
structure HasShape (module : Module) (outNames : DisassemblyNames) : Prop where
  functions : List.Forall₂ (fun blank function =>
    function.locals.length = blank.locals.length ∧
      function.labels.length ≤ module.featureSpec.maxLabelsPerFunction)
    (initialNames module).functions outNames.functions
  types : outNames.types.length = module.types.length
  tables : outNames.tables.length = module.numTables
  memories : outNames.memories.length = module.numMemories
  globals : outNames.globals.length = module.numGlobals
  elemSegments : outNames.elemSegments.length = module.numElemSegments
  dataSegments : outNames.dataSegments.length = module.numDataSegments
  exceptionTypes : outNames.exceptionTypes.length = module.numExceptionTypes

/-- The blank names have the module's shape. -/
theorem hasShape_initialNames (module : Module) : HasShape module (initialNames module) where
  functions := List.forall₂_same.2 fun blank h => by
    rw [eq_blank_of_mem_initialNames h]
    simp
  types := List.length_replicate
  tables := List.length_replicate
  memories := List.length_replicate
  globals := List.length_replicate
  elemSegments := List.length_replicate
  dataSegments := List.length_replicate
  exceptionTypes := List.length_replicate

/-- A name map subsection of the extended names section keeps the shape when storing names of
the kind it reads, as many as there were, does. -/
theorem HasShape.deserializeNameMapSubsection {module : Module} {outNames : DisassemblyNames}
    {get : DisassemblyNames → List (List UInt8)}
    {set : DisassemblyNames → List (List UInt8) → DisassemblyNames}
    (hshape : HasShape module outNames)
    (hset : ∀ names, names.length = (get outNames).length → HasShape module (set outNames names))
    (subsection : String) (substream : List UInt8) :
    HasShape module (deserializeNameMapSubsection module subsection get set outNames substream).1 := by
  rw [Wavm.IR.deserializeNameMapSubsection]
  split_ifs
  · exact hshape
  · exact hset _ (length_deserializeNameMap_self _ _)

/-- **Every subsection keeps the shape**, whatever its body holds and wherever it throws:
names are stored only at indices the reader bounds by the names it holds, or, for labels, by
`maxLabelsPerFunction`. -/
theorem HasShape.deserializeNameSubsectionBody {module : Module} {outNames : DisassemblyNames}
    (hshape : HasShape module outNames) (substream : List UInt8) :
    ∀ subsectionType : Option NameSubsectionType,
      HasShape module (Wavm.IR.deserializeNameSubsectionBody module outNames substream
        subsectionType).1
  | none => hshape
  | some .module => by
    rw [Wavm.IR.deserializeNameSubsectionBody]
    split
    · exact hshape
    · exact { hshape with }
  | some .function => by
    rw [Wavm.IR.deserializeNameSubsectionBody]
    split
    · exact hshape
    · exact { hshape with
        functions := forall₂_deserializeFunctionNames (fun _ _ _ h => h) _ _ _ hshape.functions }
  | some .local => by
    obtain ⟨functions, heq, hfunctions⟩ := deserializeFunctionNameMapSubsection_fst
      FunctionNames.locals (fun function locals => { function with locals })
      (fun function => function.locals.length)
      (fun _ function substream h =>
        ⟨(length_deserializeNameMap_self substream function.locals).trans h.1, h.2⟩)
      outNames substream hshape.functions
    rw [Wavm.IR.deserializeNameSubsectionBody, heq]
    exact { hshape with functions := hfunctions }
  | some .label => by
    rw [Wavm.IR.deserializeNameSubsectionBody]
    split_ifs
    · exact hshape
    · -- label names grow up to `maxLabelsPerFunction` at most
      obtain ⟨functions, heq, hfunctions⟩ := deserializeFunctionNameMapSubsection_fst
        FunctionNames.labels (fun function labels => { function with labels })
        (fun _ => module.featureSpec.maxLabelsPerFunction)
        (fun _ function substream h =>
          ⟨h.1, (length_deserializeNameMap substream function.labels _).2.trans
            (max_le h.2 le_rfl)⟩)
        outNames substream hshape.functions
      rw [heq]
      exact { hshape with functions := hfunctions }
  | some .type => hshape.deserializeNameMapSubsection
      (fun _ h => { hshape with types := h.trans hshape.types }) _ _
  | some .table => hshape.deserializeNameMapSubsection
      (fun _ h => { hshape with tables := h.trans hshape.tables }) _ _
  | some .memory => hshape.deserializeNameMapSubsection
      (fun _ h => { hshape with memories := h.trans hshape.memories }) _ _
  | some .global => hshape.deserializeNameMapSubsection
      (fun _ h => { hshape with globals := h.trans hshape.globals }) _ _
  | some .elemSegment => hshape.deserializeNameMapSubsection
      (fun _ h => { hshape with elemSegments := h.trans hshape.elemSegments }) _ _
  | some .dataSegment => hshape.deserializeNameMapSubsection
      (fun _ h => { hshape with dataSegments := h.trans hshape.dataSegments }) _ _
  | some .exceptionTypes => hshape.deserializeNameMapSubsection
      (fun _ h => { hshape with exceptionTypes := h.trans hshape.exceptionTypes }) _ _

theorem HasShape.deserializeNameSubsection {module : Module} {outNames : DisassemblyNames}
    (hshape : HasShape module outNames) (stream : List UInt8) :
    HasShape module (Wavm.IR.deserializeNameSubsection module outNames stream).1 := by
  rw [Wavm.IR.deserializeNameSubsection]
  split
  · exact hshape
  · split
    · exact hshape
    · split
      · exact hshape
      · exact hshape.deserializeNameSubsectionBody _ _

/-- The section loop keeps the shape, round after round, up to the end of the stream or the
first exception. -/
theorem HasShape.deserializeNameSection {module : Module} {outNames : DisassemblyNames}
    (hshape : HasShape module outNames) (stream : List UInt8) :
    HasShape module (Wavm.IR.deserializeNameSection module outNames stream) := by
  fun_induction Wavm.IR.deserializeNameSection module outNames stream with
  | case1 => exact hshape
  | case2 outNames stream _ _ _ => exact hshape.deserializeNameSubsection stream
  | case3 outNames stream _ _ _ _ ih => exact ih (hshape.deserializeNameSubsection stream)

/-- **The names the reader returns have the module's shape**, for every module and whatever
its name section holds: one function for each imported and defined function, each with one
local name for each parameter and local and at most `maxLabelsPerFunction` label names, and one
name for each type, table, memory, global, element segment, data segment and exception type. -/
theorem hasShape_getDisassemblyNames (module : Module) :
    HasShape module (getDisassemblyNames module) := by
  rw [getDisassemblyNames]
  split
  · exact hasShape_initialNames module
  · exact (hasShape_initialNames module).deserializeNameSection _

end Wavm.IR
