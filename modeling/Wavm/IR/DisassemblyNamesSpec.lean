import Mathlib
import Wavm.IR.DisassemblyNames

set_option relaxedAutoImplicit false
set_option autoImplicit false

/-!
# The name section read back

What `IR::getDisassemblyNames` reads of what `IR::setDisassemblyNames` wrote.

## Main results

* `Wavm.IR.readVarUInt_writeVarUInt32`, `readString_writeString` — a number or a string written
  is read back, whatever follows it.
* `Wavm.IR.deserializeNameMap_serializeNameMap` — a name map written is read back into the
  names the reader holds as `readBack`: each non-empty name at its index.
* `Wavm.IR.setDisassemblyNames_ok_of_namesSize_lt` — the writer does not throw where the names
  are smaller than `2 ^ 32` bytes, counting five for each count, index and size (`namesSize`).
* `Wavm.IR.getDisassemblyNames_setDisassemblyNames` — the names written are read back.

## Design

Every reader lemma has the form of the writer's success, `writer x = .ok bytes`, giving the
reader on `bytes ++ rest`: the numbers the writer checks against `2^32` are then known to fit,
and the rest is what follows in the stream. The reader's own loops are taken apart by their
count, and the writer's by the list they write.
-/

namespace Wavm.IR

open Wavm.Serialization

theorem except_bind_eq_ok {ε α β : Type} {x : Except ε α} {f : α → Except ε β} {b : β} :
    x >>= f = .ok b ↔ ∃ a, x = .ok a ∧ f a = .ok b := by
  cases x with
  | error e => simp [bind, Except.bind]
  | ok a => simp [bind, Except.bind]

/-! ## Numbers and strings -/

theorem toInt_ofNat_U64 {value : ℕ} (h : value < 2 ^ 64) :
    IntType.U64.toInt (BitVec.ofNat IntType.U64.width value) = value := by
  rw [IntType.toInt_of_not_isSigned _ rfl, BitVec.toNat_ofNat,
    Nat.mod_eq_of_lt (show value < 2 ^ IntType.U64.width from h)]

/-- The writer of a number succeeds exactly on the numbers of 32 bits, with their bytes. -/
theorem writeVarUInt32_eq_ok_iff {value : ℕ} {bytes : List UInt8} :
    writeVarUInt32 value = .ok bytes ↔
      value < 2 ^ 32 ∧ bytes = writeBytes .U64 (BitVec.ofNat IntType.U64.width value) := by
  unfold writeVarUInt32 OutputStream.serializeVarInt
  by_cases h64 : value < 2 ^ 64
  · rw [if_pos h64, toInt_ofNat_U64 h64]
    by_cases hv : value < 2 ^ 32
    · rw [if_neg (by simp only [serializeVarUInt32]; omega)]
      constructor
      · intro h
        exact ⟨hv, (Except.ok.inj h).symm⟩
      · rintro ⟨-, rfl⟩
        rfl
    · rw [if_pos (by simp only [serializeVarUInt32]; omega)]
      simp only [reduceCtorEq, false_iff, not_and]
      intro hlt
      omega
  · rw [if_neg h64]
    simp only [reduceCtorEq, false_iff, not_and]
    intro hlt
    omega

/-- A number below `2 ^ 32` takes at most five bytes. -/
theorem length_writeBytes_U64_le {value : ℕ} (h : value < 2 ^ 32) :
    (writeBytes .U64 (BitVec.ofNat IntType.U64.width value)).length ≤ 5 := by
  refine length_writeBytes_le .U64 _ (by decide) ?_
  rw [show IntType.U64.isSigned = false from rfl, inBits_false, toInt_ofNat_U64 (by omega)]
  omega

/-- What the writer writes of a number, a reader of an unsigned `U32` or `Uptr` reads back. -/
theorem readVarUInt_writeVarUInt32 {t : IntType}
    (ht : (t, serializeVarUInt32) ∈ binaryFormatInstantiations) (hs : t.isSigned = false)
    {value : ℕ} {bytes : List UInt8} (h : writeVarUInt32 value = .ok bytes) (rest : List UInt8) :
    readVarUInt t serializeVarUInt32 (bytes ++ rest) = .ok (value, rest) := by
  obtain ⟨hv, rfl⟩ := writeVarUInt32_eq_ok_iff.1 h
  have hfits := fits_of_mem_binaryFormatInstantiations ht
  -- the bytes of a `Uptr` below `2^32` encode it, in at most five bytes
  have hgroup :
      groupValue t.isSigned (writeBytes .U64 (BitVec.ofNat IntType.U64.width value)) = value := by
    rw [hs, show false = IntType.U64.isSigned from rfl, groupValue_writeBytes,
      toInt_ofNat_U64 (by omega)]
  have hlen : (writeBytes .U64 (BitVec.ofNat IntType.U64.width value)).length ≤
      maxBytes serializeVarUInt32.maxBits :=
    length_writeBytes_U64_le hv
  have hbits : InBits t.isSigned serializeVarUInt32.maxBits
      (groupValue t.isSigned (writeBytes .U64 (BitVec.ofNat IntType.U64.width value))) := by
    rw [hgroup, hs, inBits_false]
    exact ⟨by omega, by exact_mod_cast hv⟩
  obtain ⟨x, hread, hx⟩ := InputStream.serializeVarInt_append hfits (terminated_writeBytes _ _)
    hlen hbits rest
  rw [hgroup, IntType.toInt_of_not_isSigned _ hs] at hx
  rw [readVarUInt, hread]
  simp only [Except.map, Except.ok.injEq, Prod.mk.injEq, and_true]
  exact_mod_cast hx

theorem readVarUInt_U64_writeVarUInt32 {value : ℕ} {bytes : List UInt8}
    (h : writeVarUInt32 value = .ok bytes) (rest : List UInt8) :
    readVarUInt .U64 serializeVarUInt32 (bytes ++ rest) = .ok (value, rest) :=
  readVarUInt_writeVarUInt32 (by simp [binaryFormatInstantiations]) rfl h rest

theorem readVarUInt_U32_writeVarUInt32 {value : ℕ} {bytes : List UInt8}
    (h : writeVarUInt32 value = .ok bytes) (rest : List UInt8) :
    readVarUInt .U32 serializeVarUInt32 (bytes ++ rest) = .ok (value, rest) :=
  readVarUInt_writeVarUInt32 (by simp [binaryFormatInstantiations]) rfl h rest

/-- The raw byte of a subsection's type reads back as a `varuint7`. -/
theorem readVarUInt_toUInt8 (subsectionType : NameSubsectionType) (rest : List UInt8) :
    readVarUInt .U8 serializeVarUInt7 (subsectionType.toUInt8 :: rest) =
      .ok (subsectionType.toUInt8.toNat, rest) := by
  have hbyte : subsectionType.toUInt8 &&& 0x80 = 0 ∧
      dataBits subsectionType.toUInt8 = subsectionType.toUInt8.toNat ∧
      subsectionType.toUInt8.toNat < 128 := by
    cases subsectionType <;> decide
  have hbits : InBits IntType.U8.isSigned serializeVarUInt7.maxBits
      (groupValue IntType.U8.isSigned [subsectionType.toUInt8]) := by
    rw [show IntType.U8.isSigned = false from rfl, groupValue_singleton, if_neg Bool.false_ne_true,
      hbyte.2.1, inBits_false]
    exact ⟨by omega, by exact_mod_cast hbyte.2.2⟩
  obtain ⟨x, hread, hx⟩ := InputStream.serializeVarInt_append
    (fits_of_mem_binaryFormatInstantiations (by simp [binaryFormatInstantiations]))
    (show Terminated [subsectionType.toUInt8] from hbyte.1)
    (by rw [List.length_singleton]; decide) hbits rest
  rw [show IntType.U8.isSigned = false from rfl, groupValue_singleton, if_neg Bool.false_ne_true,
    hbyte.2.1, IntType.toInt_of_not_isSigned _ rfl] at hx
  rw [readVarUInt, ← List.singleton_append, hread]
  simp only [Except.map, Except.ok.injEq, Prod.mk.injEq, and_true]
  exact_mod_cast hx

theorem ofUInt8_toUInt8 (subsectionType : NameSubsectionType) :
    NameSubsectionType.ofUInt8 (UInt8.ofNat subsectionType.toUInt8.toNat) =
      some subsectionType := by
  cases subsectionType <;> rfl

/-- `stream.advance(numBytes)` takes exactly the bytes in front. -/
theorem advance_append (bytes rest : List UInt8) :
    advance bytes.length (bytes ++ rest) = .ok (bytes, rest) := by
  rw [advance, if_neg (by simp)]
  simp

theorem writeString_eq_ok_iff {string bytes : List UInt8} :
    writeString string = .ok bytes ↔
      ∃ size, writeVarUInt32 string.length = .ok size ∧ bytes = size ++ string := by
  rw [writeString, except_bind_eq_ok]
  simp only [pure, Except.pure, Except.ok.injEq, eq_comm]

/-- A string written is read back, whatever follows it. -/
theorem readString_writeString {string bytes : List UInt8} (h : writeString string = .ok bytes)
    (rest : List UInt8) : readString (bytes ++ rest) = .ok (string, rest) := by
  obtain ⟨size, hsize, rfl⟩ := writeString_eq_ok_iff.1 h
  rw [readString, List.append_assoc,
    readVarUInt_U64_writeVarUInt32 hsize]
  exact advance_append string rest

/-! ## Name maps -/

/-- The step of the reader's name map loop: `outNames.resize(nameIndex + 1)` when the index is
past the end, then `outNames[nameIndex] = name`. -/
def setName (outNames : List (List UInt8)) (nameIndex : ℕ) (name : List UInt8) :
    List (List UInt8) :=
  (if nameIndex ≥ outNames.length then
    outNames ++ List.replicate (nameIndex + 1 - outNames.length) []
  else outNames).set nameIndex name

/-- The names the reader holds after the entries the writer made of `names` from `nameIndex`
on: each non-empty name stored at its index, over the names it held before. -/
def readBack (outNames : List (List UInt8)) (nameIndex : ℕ) :
    List (List UInt8) → List (List UInt8)
  | [] => outNames
  | name :: names =>
    readBack (if name.length ≠ 0 then setName outNames nameIndex name else outNames)
      (nameIndex + 1) names

theorem getD_setName (outNames : List (List UInt8)) (nameIndex : ℕ) (name : List UInt8) (i : ℕ) :
    (setName outNames nameIndex name).getD i [] =
      if i = nameIndex then name else outNames.getD i [] := by
  unfold setName
  split_ifs <;> grind

theorem length_setName (outNames : List (List UInt8)) (nameIndex : ℕ) (name : List UInt8) :
    (setName outNames nameIndex name).length = max outNames.length (nameIndex + 1) := by
  unfold setName
  split_ifs <;> grind

/-- One step of `readBack`: only a non-empty name is stored. -/
theorem getD_readBack_step (outNames : List (List UInt8)) (nameIndex : ℕ) (name : List UInt8)
    (i : ℕ) :
    (if name.length ≠ 0 then setName outNames nameIndex name else outNames).getD i [] =
      if i = nameIndex ∧ name ≠ [] then name else outNames.getD i [] := by
  by_cases hname : name = []
  · simp [hname]
  · rw [if_pos (by simpa using hname), getD_setName]
    simp [hname]

/-- Each non-empty name written is read back at its index; every other index keeps what the
reader held. -/
theorem getD_readBack :
    ∀ (outNames : List (List UInt8)) (nameIndex : ℕ) (names : List (List UInt8)) (i : ℕ),
      (readBack outNames nameIndex names).getD i [] =
        if nameIndex ≤ i ∧ names.getD (i - nameIndex) [] ≠ [] then names.getD (i - nameIndex) []
        else outNames.getD i []
  | outNames, nameIndex, [], i => by simp [readBack]
  | outNames, nameIndex, name :: names, i => by
    rw [readBack, getD_readBack, getD_readBack_step]
    -- the name at `nameIndex` is the one this step stores, the others are the rest's
    rcases Nat.lt_trichotomy i nameIndex with hi | rfl | hi
    · rw [if_neg (fun h => absurd h.1 (by omega)), if_neg (fun h => absurd h.1 (by omega)),
        if_neg (fun h => absurd h.1 (by omega))]
    · rw [if_neg (fun h => absurd h.1 (by omega)), Nat.sub_self, List.getD_cons_zero]
      by_cases hname : name = [] <;> simp [hname]
    · obtain ⟨j, rfl⟩ := Nat.exists_eq_add_of_lt hi
      rw [show nameIndex + j + 1 - nameIndex = j + 1 by omega, List.getD_cons_succ,
        show nameIndex + j + 1 - (nameIndex + 1) = j by omega,
        if_neg (show ¬(nameIndex + j + 1 = nameIndex ∧ name ≠ []) from
          fun h => absurd h.1 (by omega))]
      simp only [show nameIndex + 1 ≤ nameIndex + j + 1 by omega,
        show nameIndex ≤ nameIndex + j + 1 by omega, true_and]

/-- Names stored inside the names the reader held leave their number as it was. -/
theorem length_readBack_of_le :
    ∀ (outNames : List (List UInt8)) (nameIndex : ℕ) (names : List (List UInt8)),
      nameIndex + names.length ≤ outNames.length →
      (readBack outNames nameIndex names).length = outNames.length
  | outNames, nameIndex, [], _ => rfl
  | outNames, nameIndex, name :: names, hle => by
    rw [List.length_cons] at hle
    rw [readBack]
    split_ifs
    · rw [length_readBack_of_le _ _ names (by rw [length_setName]; omega), length_setName]
      omega
    · exact length_readBack_of_le _ _ names (by omega)

/-- Names stored past the end of the names the reader held grow them up to the last name
stored, here the last name written. -/
theorem length_readBack_of_getLast :
    ∀ (outNames : List (List UInt8)) (nameIndex : ℕ) (names : List (List UInt8)),
      outNames.length ≤ nameIndex → names ≠ [] → names.getLast? ≠ some [] →
      (readBack outNames nameIndex names).length = nameIndex + names.length
  | _, _, [], _, hne, _ => absurd rfl hne
  | outNames, nameIndex, [name], hle, _, hlast => by
    have hname : name.length ≠ 0 := by simpa using hlast
    rw [readBack, if_pos hname, readBack, length_setName]
    simp only [List.length_singleton]
    omega
  | outNames, nameIndex, name :: name' :: names, hle, _, hlast => by
    rw [List.getLast?_cons_cons] at hlast
    rw [readBack, length_readBack_of_getLast _ _ _ ?_ (List.cons_ne_nil _ _) hlast]
    · simp only [List.length_cons]
      omega
    · split_ifs
      · rw [length_setName]
        omega
      · omega

/-- Every name written into as many blank names is read back. -/
theorem readBack_replicate (names : List (List UInt8)) :
    readBack (List.replicate names.length []) 0 names = names := by
  apply List.ext_getElem (by rw [length_readBack_of_le _ _ _ (by simp), List.length_replicate])
  intro i h₁ h₂
  rw [← List.getD_eq_getElem _ [] h₁, ← List.getD_eq_getElem _ [] h₂, getD_readBack]
  split_ifs with h
  · rfl
  · -- a blank name written reads as the blank name the reader held
    rw [List.getD_replicate _ h₂]
    simpa using h

/-- Names written into none are read back, when the last of them is not blank: the reader has
no way to grow its names over blank names at the end. -/
theorem readBack_nil {names : List (List UInt8)} (hlast : names.getLast? ≠ some []) :
    readBack [] 0 names = names := by
  by_cases hne : names = []
  · rw [hne]
    rfl
  apply List.ext_getElem (by rw [length_readBack_of_getLast _ _ _ (le_refl 0) hne hlast,
    Nat.zero_add])
  intro i h₁ h₂
  rw [← List.getD_eq_getElem _ [] h₁, ← List.getD_eq_getElem _ [] h₂, getD_readBack]
  split_ifs with h
  · rfl
  · simpa using h

/-- The reader's loop over the entries written from `nameIndex` on stores what `readBack` says,
and stops right after them. -/
theorem deserializeNameMapEntries_serializeNameMapEntries {maxNames : ℕ} (rest : List UInt8) :
    ∀ (nameIndex : ℕ) (names : List (List UInt8)) {bytes : List UInt8}
      (outNames : List (List UInt8)),
      serializeNameMapEntries nameIndex names = .ok bytes → nameIndex + names.length ≤ maxNames →
      deserializeNameMapEntries maxNames (names.countP fun name => name.length ≠ 0) outNames
        (bytes ++ rest) = (readBack outNames nameIndex names, .ok rest)
  | _, [], bytes, outNames, h, _ => by
    obtain rfl : [] = bytes := Except.ok.inj h
    rfl
  | nameIndex, name :: names, bytes, outNames, h, hmax => by
    rw [List.length_cons] at hmax
    rw [serializeNameMapEntries] at h
    by_cases hname : name.length ≠ 0
    · -- a non-empty name: its index and the string, then the rest of the entries
      rw [if_pos hname] at h
      simp only [except_bind_eq_ok, pure, Except.pure, Except.ok.injEq] at h
      obtain ⟨index, hindex, string, hstring, _, rfl, entries, hentries, rfl⟩ := h
      rw [List.countP_cons_of_pos (by simpa using hname), deserializeNameMapEntries,
        List.append_assoc, List.append_assoc,
        readVarUInt_U64_writeVarUInt32 hindex]
      dsimp only
      rw [readString_writeString hstring]
      dsimp only
      rw [if_neg (by omega), readBack, if_pos hname]
      exact deserializeNameMapEntries_serializeNameMapEntries rest (nameIndex + 1) names _
        hentries (by omega)
    · -- an empty name is not written
      rw [if_neg hname] at h
      simp only [except_bind_eq_ok, pure, Except.pure, Except.ok.injEq] at h
      obtain ⟨_, rfl, entries, hentries, rfl⟩ := h
      rw [List.countP_cons_of_neg (by simpa using hname), readBack, if_neg hname]
      exact deserializeNameMapEntries_serializeNameMapEntries rest (nameIndex + 1) names
        outNames hentries (by omega)

/-- **A name map written is read back**, whatever follows it, into the names the reader held
as `readBack` says, when the reader's bound admits every index. -/
theorem deserializeNameMap_serializeNameMap {names : List (List UInt8)} {bytes : List UInt8}
    (h : serializeNameMap names = .ok bytes) {maxNames : ℕ} (hmax : names.length ≤ maxNames)
    (outNames : List (List UInt8)) (rest : List UInt8) :
    deserializeNameMap (bytes ++ rest) outNames maxNames = (readBack outNames 0 names, .ok rest) := by
  rw [serializeNameMap, except_bind_eq_ok] at h
  obtain ⟨numNames, hnumNames, h⟩ := h
  rw [except_bind_eq_ok] at h
  obtain ⟨entries, hentries, h⟩ := h
  obtain rfl : numNames ++ entries = bytes := Except.ok.inj h
  rw [deserializeNameMap, List.append_assoc,
    readVarUInt_U64_writeVarUInt32 hnumNames]
  exact deserializeNameMapEntries_serializeNameMapEntries rest 0 names outNames hentries
    (by omega)

/-! ## Function subsections -/

theorem modify_append_length {α : Type} (pre post : List α) (a : α) (f : α → α) :
    (pre ++ a :: post).modify pre.length f = pre ++ f a :: post := by
  rw [List.modify_eq_take_cons_drop (by simp)]
  simp

theorem serializeFunctionEntries_cons_eq_ok
    {serializeFunction : FunctionNames → Except String (List UInt8)} {functionIndex : ℕ}
    {function : FunctionNames} {functions : List FunctionNames} {bytes : List UInt8}
    (h : serializeFunctionEntries serializeFunction functionIndex (function :: functions) =
      .ok bytes) :
    ∃ index body entries, writeVarUInt32 functionIndex = .ok index ∧
      serializeFunction function = .ok body ∧
      serializeFunctionEntries serializeFunction (functionIndex + 1) functions = .ok entries ∧
      bytes = index ++ (body ++ entries) := by
  simp only [serializeFunctionEntries, except_bind_eq_ok, pure, Except.pure,
    Except.ok.injEq] at h
  obtain ⟨index, hindex, body, hbody, entries, hentries, rfl⟩ := h
  exact ⟨index, body, entries, hindex, hbody, hentries, List.append_assoc _ _ _⟩

/-- The function subsection's loop names each function in turn, from `pre.length` on, with the
name written for it. -/
theorem deserializeFunctionNames_serializeFunctionEntries (rest : List UInt8) :
    ∀ (pre post functions : List FunctionNames) {bytes : List UInt8},
      serializeFunctionEntries (fun function => writeString function.name) pre.length functions =
        .ok bytes →
      post.length = functions.length →
      deserializeFunctionNames functions.length (pre ++ post) (bytes ++ rest) =
        (pre ++ List.zipWith (fun outFunction function => { outFunction with name := function.name })
          post functions, .ok rest)
  | pre, post, [], bytes, h, hlen => by
    obtain rfl : [] = bytes := Except.ok.inj h
    obtain rfl : post = [] := List.length_eq_zero_iff.1 hlen
    rfl
  | _, [], _ :: _, _, _, hlen => absurd hlen (by simp)
  | pre, outFunction :: post, function :: functions, bytes, h, hlen => by
    obtain ⟨index, body, entries, hindex, hbody, hentries, rfl⟩ :=
      serializeFunctionEntries_cons_eq_ok h
    rw [List.length_cons, deserializeFunctionNames, List.append_assoc,
      readVarUInt_U32_writeVarUInt32 hindex]
    dsimp only
    rw [List.append_assoc, readString_writeString hbody]
    dsimp only
    rw [modify_append_length, ← List.singleton_append, ← List.append_assoc]
    have ih := deserializeFunctionNames_serializeFunctionEntries rest
      (pre ++ [{ outFunction with name := function.name }]) post functions
      (by simpa using hentries) (by simpa using hlen)
    rw [ih, List.zipWith_cons_cons, List.append_assoc, List.singleton_append]

/-- The local and the label subsections' loop reads each function's name map in turn, from
`pre.length` on, into the names it holds, when each map fits the reader's bound. -/
theorem deserializeFunctionNameMaps_serializeFunctionEntries
    (get : FunctionNames → List (List UInt8))
    (set : FunctionNames → List (List UInt8) → FunctionNames) (maxNames : FunctionNames → ℕ)
    (rest : List UInt8) :
    ∀ (pre post functions : List FunctionNames) {bytes : List UInt8},
      serializeFunctionEntries (fun function => serializeNameMap (get function)) pre.length
        functions = .ok bytes →
      List.Forall₂ (fun outFunction function => (get function).length ≤ maxNames outFunction)
        post functions →
      deserializeFunctionNameMaps get set maxNames functions.length (pre ++ post) (bytes ++ rest) =
        (pre ++ List.zipWith (fun outFunction function =>
          set outFunction (readBack (get outFunction) 0 (get function))) post functions, .ok rest)
  | pre, _, [], bytes, h, .nil => by
    obtain rfl : [] = bytes := Except.ok.inj h
    rfl
  | pre, outFunction :: post, function :: functions, bytes, h, .cons hfits hpost => by
    obtain ⟨index, body, entries, hindex, hbody, hentries, rfl⟩ :=
      serializeFunctionEntries_cons_eq_ok h
    rw [List.length_cons, deserializeFunctionNameMaps, List.append_assoc,
      readVarUInt_U32_writeVarUInt32 hindex]
    dsimp only
    rw [show (pre ++ outFunction :: post)[pre.length]? = some outFunction by simp]
    dsimp only
    rw [List.append_assoc, deserializeNameMap_serializeNameMap hbody hfits]
    dsimp only
    rw [List.set_append_right _ _ (le_refl _), Nat.sub_self, List.set_cons_zero,
      ← List.singleton_append, ← List.append_assoc]
    have ih := deserializeFunctionNameMaps_serializeFunctionEntries get set maxNames rest
      (pre ++ [set outFunction (readBack (get outFunction) 0 (get function))]) post functions
      (by simpa using hentries) hpost
    rw [ih, List.zipWith_cons_cons, List.append_assoc, List.singleton_append]

theorem serializeFunctionSubsection_eq_ok
    {serializeFunction : FunctionNames → Except String (List UInt8)}
    {functions : List FunctionNames} {bytes : List UInt8}
    (h : serializeFunctionSubsection serializeFunction functions = .ok bytes) :
    ∃ numFunctionNames entries, writeVarUInt32 functions.length = .ok numFunctionNames ∧
      serializeFunctionEntries serializeFunction 0 functions = .ok entries ∧
      bytes = numFunctionNames ++ entries := by
  simp only [serializeFunctionSubsection, except_bind_eq_ok, pure, Except.pure,
    Except.ok.injEq] at h
  obtain ⟨numFunctionNames, hnum, entries, hentries, rfl⟩ := h
  exact ⟨numFunctionNames, entries, hnum, hentries, rfl⟩

/-- A function subsection written is read back: every function gets the name written for it. -/
theorem deserializeNameSubsectionBody_function {module : Module} {outNames : DisassemblyNames}
    {functions : List FunctionNames} {bytes : List UInt8}
    (h : serializeFunctionSubsection (fun function => writeString function.name) functions =
      .ok bytes)
    (hlen : outNames.functions.length = functions.length) :
    deserializeNameSubsectionBody module outNames bytes (some .function) =
      ({ outNames with
          functions := List.zipWith (fun outFunction function =>
            { outFunction with name := function.name }) outNames.functions functions },
        .ok ()) := by
  obtain ⟨numFunctionNames, entries, hnum, hentries, rfl⟩ := serializeFunctionSubsection_eq_ok h
  have hloop := deserializeFunctionNames_serializeFunctionEntries [] [] outNames.functions
    functions hentries hlen
  rw [List.nil_append, List.append_nil, List.nil_append] at hloop
  rw [deserializeNameSubsectionBody,
    readVarUInt_U32_writeVarUInt32 hnum]
  dsimp only
  rw [hloop]
  rfl

/-- A subsection of function-indexed name maps written is read back into each function's names,
when each map fits the reader's bound. -/
theorem deserializeFunctionNameMapSubsection_serializeFunctionSubsection
    (get : FunctionNames → List (List UInt8))
    (set : FunctionNames → List (List UInt8) → FunctionNames) (maxNames : FunctionNames → ℕ)
    {outNames : DisassemblyNames} {functions : List FunctionNames} {bytes : List UInt8}
    (h : serializeFunctionSubsection (fun function => serializeNameMap (get function)) functions =
      .ok bytes)
    (hfits : List.Forall₂ (fun outFunction function => (get function).length ≤ maxNames outFunction)
      outNames.functions functions) :
    deserializeFunctionNameMapSubsection get set maxNames outNames bytes =
      ({ outNames with
          functions := List.zipWith (fun outFunction function =>
            set outFunction (readBack (get outFunction) 0 (get function)))
            outNames.functions functions },
        .ok ()) := by
  obtain ⟨numFunctionNames, entries, hnum, hentries, rfl⟩ := serializeFunctionSubsection_eq_ok h
  have hloop := deserializeFunctionNameMaps_serializeFunctionEntries get set maxNames [] []
    outNames.functions functions hentries hfits
  rw [List.nil_append, List.append_nil, List.nil_append] at hloop
  rw [deserializeFunctionNameMapSubsection,
    readVarUInt_U32_writeVarUInt32 hnum]
  dsimp only
  rw [hloop]
  rfl

/-- A name map subsection of the extended names section written is read back. -/
theorem deserializeNameMapSubsection_serializeNameMap {module : Module} {subsection : String}
    {get : DisassemblyNames → List (List UInt8)}
    {set : DisassemblyNames → List (List UInt8) → DisassemblyNames} {outNames : DisassemblyNames}
    {names : List (List UInt8)} {bytes : List UInt8}
    (hext : module.featureSpec.extendedNamesSection = true)
    (h : serializeNameMap names = .ok bytes) (hlen : names.length ≤ (get outNames).length) :
    deserializeNameMapSubsection module subsection get set outNames bytes =
      (set outNames (readBack (get outNames) 0 names), .ok ()) := by
  rw [deserializeNameMapSubsection, if_neg (by simp [hext]), ← List.append_nil bytes,
    deserializeNameMap_serializeNameMap h hlen]
  rfl

/-! ## Subsections -/

/-- What the reader holds after the subsection of a type that the writer made of `names`, over
the names `outNames` it held: that kind of names read back. -/
def readSubsection (names outNames : DisassemblyNames) : NameSubsectionType → DisassemblyNames
  | .module => { outNames with moduleName := names.moduleName }
  | .function =>
    { outNames with
      functions := List.zipWith (fun outFunction function =>
        { outFunction with name := function.name }) outNames.functions names.functions }
  | .local =>
    { outNames with
      functions := List.zipWith (fun outFunction function =>
        { outFunction with locals := readBack outFunction.locals 0 function.locals })
        outNames.functions names.functions }
  | .label =>
    { outNames with
      functions := List.zipWith (fun outFunction function =>
        { outFunction with labels := readBack outFunction.labels 0 function.labels })
        outNames.functions names.functions }
  | .type => { outNames with types := readBack outNames.types 0 names.types }
  | .table => { outNames with tables := readBack outNames.tables 0 names.tables }
  | .memory => { outNames with memories := readBack outNames.memories 0 names.memories }
  | .global => { outNames with globals := readBack outNames.globals 0 names.globals }
  | .elemSegment =>
    { outNames with elemSegments := readBack outNames.elemSegments 0 names.elemSegments }
  | .dataSegment =>
    { outNames with dataSegments := readBack outNames.dataSegments 0 names.dataSegments }
  | .exceptionTypes =>
    { outNames with exceptionTypes := readBack outNames.exceptionTypes 0 names.exceptionTypes }

/-- The reader has room for every name of `names`: as many functions, each with at least as
many local names and at most `maxLabelsPerFunction` label names, and at least as many names of
each other kind. -/
structure HasRoom (maxLabelsPerFunction : ℕ) (names outNames : DisassemblyNames) : Prop where
  functions : List.Forall₂ (fun outFunction function =>
    function.locals.length ≤ outFunction.locals.length ∧
      function.labels.length ≤ maxLabelsPerFunction)
    outNames.functions names.functions
  types : names.types.length ≤ outNames.types.length
  tables : names.tables.length ≤ outNames.tables.length
  memories : names.memories.length ≤ outNames.memories.length
  globals : names.globals.length ≤ outNames.globals.length
  elemSegments : names.elemSegments.length ≤ outNames.elemSegments.length
  dataSegments : names.dataSegments.length ≤ outNames.dataSegments.length
  exceptionTypes : names.exceptionTypes.length ≤ outNames.exceptionTypes.length

/-- **Each subsection the writer makes is read back** as `readSubsection` says, when the reader
has room for the names. -/
theorem deserializeNameSubsectionBody_of_mem {module : Module} {names outNames : DisassemblyNames}
    {subsectionType : NameSubsectionType} {body : Except String (List UInt8)} {bytes : List UInt8}
    (hmem : (subsectionType, body) ∈ nameSubsections module names) (hbody : body = .ok bytes)
    (hroom : HasRoom module.featureSpec.maxLabelsPerFunction names outNames) :
    deserializeNameSubsectionBody module outNames bytes (some subsectionType) =
      (readSubsection names outNames subsectionType, .ok ()) := by
  subst hbody
  have hlocals := hroom.functions.imp fun _ _ h => h.1
  have hlabels := hroom.functions.imp fun _ _ h => h.2
  unfold nameSubsections at hmem
  by_cases hext : module.featureSpec.extendedNamesSection = true
  · simp only [hext, if_true, List.cons_append, List.nil_append, List.mem_cons, Prod.mk.injEq,
      List.not_mem_nil, or_false] at hmem
    -- the three subsections of every name section, then the eight extended ones
    rcases hmem with ⟨rfl, hw⟩ | ⟨rfl, hw⟩ | ⟨rfl, hw⟩ | ⟨rfl, hw⟩ | ⟨rfl, hw⟩ | ⟨rfl, hw⟩ |
      ⟨rfl, hw⟩ | ⟨rfl, hw⟩ | ⟨rfl, hw⟩ | ⟨rfl, hw⟩ | ⟨rfl, hw⟩
    · rw [deserializeNameSubsectionBody, ← List.append_nil bytes, readString_writeString hw.symm]
      rfl
    · exact deserializeNameSubsectionBody_function hw.symm hroom.functions.length_eq
    · exact deserializeFunctionNameMapSubsection_serializeFunctionSubsection _ _ _ hw.symm hlocals
    · rw [deserializeNameSubsectionBody, if_neg (by simp [hext])]
      exact deserializeFunctionNameMapSubsection_serializeFunctionSubsection _ _ _ hw.symm hlabels
    · rw [deserializeNameSubsectionBody]
      exact deserializeNameMapSubsection_serializeNameMap hext hw.symm hroom.types
    · rw [deserializeNameSubsectionBody]
      exact deserializeNameMapSubsection_serializeNameMap hext hw.symm hroom.tables
    · rw [deserializeNameSubsectionBody]
      exact deserializeNameMapSubsection_serializeNameMap hext hw.symm hroom.memories
    · rw [deserializeNameSubsectionBody]
      exact deserializeNameMapSubsection_serializeNameMap hext hw.symm hroom.globals
    · rw [deserializeNameSubsectionBody]
      exact deserializeNameMapSubsection_serializeNameMap hext hw.symm hroom.elemSegments
    · rw [deserializeNameSubsectionBody]
      exact deserializeNameMapSubsection_serializeNameMap hext hw.symm hroom.dataSegments
    · rw [deserializeNameSubsectionBody]
      exact deserializeNameMapSubsection_serializeNameMap hext hw.symm hroom.exceptionTypes
  · simp only [hext, Bool.false_eq_true, if_false, List.append_nil, List.mem_cons,
      Prod.mk.injEq, List.not_mem_nil, or_false] at hmem
    rcases hmem with ⟨rfl, hw⟩ | ⟨rfl, hw⟩ | ⟨rfl, hw⟩
    · rw [deserializeNameSubsectionBody, ← List.append_nil bytes, readString_writeString hw.symm]
      rfl
    · exact deserializeNameSubsectionBody_function hw.symm hroom.functions.length_eq
    · exact deserializeFunctionNameMapSubsection_serializeFunctionSubsection _ _ _ hw.symm hlocals

theorem forall₂_zipWith {α β : Type} {R : α → β → Prop} {f : α → β → α}
    (hf : ∀ a b, R a b → R (f a b) b) :
    ∀ {as : List α} {bs : List β}, List.Forall₂ R as bs → List.Forall₂ R (List.zipWith f as bs) bs
  | _, _, .nil => .nil
  | _, _, .cons h hs => .cons (hf _ _ h) (forall₂_zipWith hf hs)

theorem le_length_readBack {names outNames : List (List UInt8)}
    (h : names.length ≤ outNames.length) : names.length ≤ (readBack outNames 0 names).length := by
  rw [length_readBack_of_le _ _ _ (by omega)]
  exact h

/-- Reading a subsection leaves room for the names of every other one. -/
theorem HasRoom.readSubsection {maxLabelsPerFunction : ℕ} {names outNames : DisassemblyNames}
    (hroom : HasRoom maxLabelsPerFunction names outNames) (subsectionType : NameSubsectionType) :
    HasRoom maxLabelsPerFunction names (readSubsection names outNames subsectionType) := by
  cases subsectionType with
  | module => exact { hroom with }
  | function =>
    exact { hroom with
      functions := forall₂_zipWith (f := fun (outFunction function : FunctionNames) =>
        { outFunction with name := function.name }) (fun _ _ h => h) hroom.functions }
  | «local» =>
    exact { hroom with
      functions := forall₂_zipWith (fun _ _ h => ⟨le_length_readBack h.1, h.2⟩) hroom.functions }
  | label =>
    exact { hroom with
      functions := forall₂_zipWith (f := fun (outFunction function : FunctionNames) =>
        { outFunction with labels := readBack outFunction.labels 0 function.labels })
        (fun _ _ h => h) hroom.functions }
  | type => exact { hroom with types := le_length_readBack hroom.types }
  | table => exact { hroom with tables := le_length_readBack hroom.tables }
  | memory => exact { hroom with memories := le_length_readBack hroom.memories }
  | global => exact { hroom with globals := le_length_readBack hroom.globals }
  | elemSegment => exact { hroom with elemSegments := le_length_readBack hroom.elemSegments }
  | dataSegment => exact { hroom with dataSegments := le_length_readBack hroom.dataSegments }
  | exceptionTypes =>
    exact { hroom with exceptionTypes := le_length_readBack hroom.exceptionTypes }

theorem serializeNameSubsection_eq_ok {subsectionType : NameSubsectionType}
    {body : Except String (List UInt8)} {bytes : List UInt8}
    (h : serializeNameSubsection subsectionType body = .ok bytes) :
    ∃ bodyBytes size, body = .ok bodyBytes ∧ writeVarUInt32 bodyBytes.length = .ok size ∧
      bytes = subsectionType.toUInt8 :: (size ++ bodyBytes) := by
  simp only [serializeNameSubsection, except_bind_eq_ok, pure, Except.pure, Except.ok.injEq] at h
  obtain ⟨bodyBytes, hbody, size, hsize, rfl⟩ := h
  exact ⟨bodyBytes, size, hbody, hsize, rfl⟩

/-- A subsection written is read back, whatever follows it: its type, its size, then its body
over exactly its bytes. -/
theorem deserializeNameSubsection_serializeNameSubsection {subsectionType : NameSubsectionType}
    {body bytes : List UInt8} (h : serializeNameSubsection subsectionType (.ok body) = .ok bytes)
    (module : Module) (outNames : DisassemblyNames) (rest : List UInt8) :
    deserializeNameSubsection module outNames (bytes ++ rest) =
      ((deserializeNameSubsectionBody module outNames body (some subsectionType)).1,
        (deserializeNameSubsectionBody module outNames body (some subsectionType)).2.map
          fun _ => rest) := by
  obtain ⟨bodyBytes, size, hbody, hsize, rfl⟩ := serializeNameSubsection_eq_ok h
  obtain rfl : body = bodyBytes := Except.ok.inj hbody
  rw [deserializeNameSubsection, List.cons_append, readVarUInt_toUInt8]
  dsimp only
  rw [List.append_assoc, readVarUInt_U32_writeVarUInt32 hsize]
  dsimp only
  rw [advance_append]
  dsimp only
  rw [ofUInt8_toUInt8]

theorem deserializeNameSection_nil (module : Module) (outNames : DisassemblyNames) :
    deserializeNameSection module outNames [] = outNames := by
  rw [deserializeNameSection, if_pos rfl]

/-- A round of the section loop: a subsection read, then the loop from where it ended. -/
theorem deserializeNameSection_of_ok {module : Module} {outNames : DisassemblyNames}
    {stream rest : List UInt8} (hne : stream ≠ [])
    (h : (deserializeNameSubsection module outNames stream).2 = .ok rest) :
    deserializeNameSection module outNames stream =
      deserializeNameSection module (deserializeNameSubsection module outNames stream).1 rest := by
  rw [deserializeNameSection, if_neg hne]
  split
  · next e he =>
    rw [h] at he
    cases he
  · next rest' he =>
    rw [h] at he
    cases he
    rfl

/-- **The subsections written are read back one after another**: from names with room for
every name written, the section loop ends with each subsection's names read back in turn. -/
theorem deserializeNameSection_serializeNameSubsections (module : Module)
    (names : DisassemblyNames) :
    ∀ (subsections : List (NameSubsectionType × Except String (List UInt8)))
      (outNames : DisassemblyNames) {bytes : List UInt8},
      (∀ subsection ∈ subsections, subsection ∈ nameSubsections module names) →
      HasRoom module.featureSpec.maxLabelsPerFunction names outNames →
      serializeNameSubsections subsections = .ok bytes →
      deserializeNameSection module outNames bytes =
        (subsections.map Prod.fst).foldl (readSubsection names) outNames
  | [], outNames, bytes, _, _, h => by
    obtain rfl : [] = bytes := Except.ok.inj h
    exact deserializeNameSection_nil module outNames
  | (subsectionType, body) :: subsections, outNames, bytes, hmem, hroom, h => by
    simp only [serializeNameSubsections, except_bind_eq_ok, pure, Except.pure,
      Except.ok.injEq] at h
    obtain ⟨first, hfirst, others, hothers, rfl⟩ := h
    obtain ⟨bodyBytes, size, rfl, -, hne⟩ := serializeNameSubsection_eq_ok hfirst
    have hread := deserializeNameSubsectionBody_of_mem (hmem _ List.mem_cons_self) rfl hroom
    have hsub := deserializeNameSubsection_serializeNameSubsection hfirst module outNames others
    rw [hread] at hsub
    rw [deserializeNameSection_of_ok (by simp [hne]) (by rw [hsub]; rfl), hsub,
      List.map_cons, List.foldl_cons]
    exact deserializeNameSection_serializeNameSubsections module names subsections _
      (fun subsection h => hmem subsection (List.mem_cons_of_mem _ h))
      (hroom.readSubsection subsectionType) hothers

/-! ## The round trip -/

/-- Names of the shape `getDisassemblyNames` gives the module: as many names of each kind as
the module has entities, as many local names for each function as it has parameters and
locals, and label names that fit `maxLabelsPerFunction` and do not end with a blank name. -/
structure FitsModule (module : Module) (names : DisassemblyNames) : Prop where
  functions : List.Forall₂ (fun blank function =>
    function.locals.length = blank.locals.length ∧
      function.labels.length ≤ module.featureSpec.maxLabelsPerFunction ∧
      function.labels.getLast? ≠ some [])
    (initialNames module).functions names.functions
  types : names.types.length = module.types.length
  tables : names.tables.length = module.numTables
  memories : names.memories.length = module.numMemories
  globals : names.globals.length = module.numGlobals
  elemSegments : names.elemSegments.length = module.numElemSegments
  dataSegments : names.dataSegments.length = module.numDataSegments
  exceptionTypes : names.exceptionTypes.length = module.numExceptionTypes

/-- Every function the reader starts from is blank. -/
theorem eq_blank_of_mem_initialNames {module : Module} {blank : FunctionNames}
    (h : blank ∈ (initialNames module).functions) :
    blank = ⟨[], List.replicate blank.locals.length [], []⟩ := by
  simp only [initialNames, List.mem_append, List.mem_map] at h
  rcases h with ⟨_, _, rfl⟩ | ⟨_, _, rfl⟩ <;> simp

theorem FitsModule.hasRoom {module : Module} {names : DisassemblyNames}
    (hfits : FitsModule module names) :
    HasRoom module.featureSpec.maxLabelsPerFunction names (initialNames module) where
  functions := hfits.functions.imp fun _ _ h => ⟨h.1.le, h.2.1⟩
  types := by simp [initialNames, hfits.types]
  tables := by simp [initialNames, hfits.tables]
  memories := by simp [initialNames, hfits.memories]
  globals := by simp [initialNames, hfits.globals]
  elemSegments := by simp [initialNames, hfits.elemSegments]
  dataSegments := by simp [initialNames, hfits.dataSegments]
  exceptionTypes := by simp [initialNames, hfits.exceptionTypes]

/-- The function and the local subsections name blank functions as the names do, with no
labels. -/
theorem zipWith_locals_zipWith_name :
    ∀ {blanks functions : List FunctionNames},
      List.Forall₂ (fun blank function =>
        blank = ⟨[], List.replicate function.locals.length [], []⟩) blanks functions →
      List.zipWith (fun outFunction function =>
          { outFunction with locals := readBack outFunction.locals 0 function.locals })
        (List.zipWith (fun outFunction function => { outFunction with name := function.name })
          blanks functions) functions =
        functions.map fun function => { function with labels := [] }
  | _, _, .nil => rfl
  | _, _, .cons rfl hs => by
    rw [List.zipWith_cons_cons, List.zipWith_cons_cons, zipWith_locals_zipWith_name hs,
      List.map_cons, readBack_replicate]

/-- The label subsection gives functions without labels the labels of the names. -/
theorem zipWith_labels_map :
    ∀ {blanks functions : List FunctionNames},
      List.Forall₂ (fun _ function => function.labels.getLast? ≠ some []) blanks functions →
      List.zipWith (fun outFunction function =>
          { outFunction with labels := readBack outFunction.labels 0 function.labels })
        (functions.map fun function => { function with labels := [] }) functions = functions
  | _, _, .nil => rfl
  | _, _, .cons hlast hs => by
    rw [List.map_cons, List.zipWith_cons_cons, zipWith_labels_map hs, readBack_nil hlast]

/-- Reading the module, function and local subsections into the blank names. -/
theorem foldl_readSubsection_base {module : Module} {names : DisassemblyNames}
    (hfits : FitsModule module names) :
    [NameSubsectionType.module, .function, .local].foldl (readSubsection names)
        (initialNames module) =
      { initialNames module with
        moduleName := names.moduleName
        functions := names.functions.map fun function => { function with labels := [] } } := by
  have hblank : List.Forall₂ (fun blank function =>
      blank = ⟨[], List.replicate function.locals.length [], []⟩)
      (initialNames module).functions names.functions := by
    refine (List.forall₂_and_left _ _).2 ⟨fun blank h => eq_blank_of_mem_initialNames h,
      hfits.functions⟩ |>.imp fun blank function h => ?_
    rw [h.1, h.2.1]
  simp only [List.foldl_cons, List.foldl_nil, readSubsection]
  rw [zipWith_locals_zipWith_name hblank]

/-- Reading the extended subsections after the three others gives every name. -/
theorem foldl_readSubsection_extended {module : Module} {names : DisassemblyNames}
    (hfits : FitsModule module names) :
    [NameSubsectionType.label, .type, .table, .memory, .global, .elemSegment, .dataSegment,
        .exceptionTypes].foldl (readSubsection names)
      { initialNames module with
        moduleName := names.moduleName
        functions := names.functions.map fun function => { function with labels := [] } } =
      names := by
  simp only [List.foldl_cons, List.foldl_nil, readSubsection, initialNames]
  rw [zipWith_labels_map (hfits.functions.imp fun _ _ h => h.2.2), ← hfits.types, ← hfits.tables, ← hfits.memories,
    ← hfits.globals, ← hfits.elemSegments, ← hfits.dataSegments, ← hfits.exceptionTypes]
  simp only [readBack_replicate]

/-! ## The name section of a module -/

@[simp] theorem nameSubsections_userSections (module : Module) (userSections : List UserSection)
    (names : DisassemblyNames) :
    nameSubsections { module with userSections } names = nameSubsections module names := rfl

@[simp] theorem initialNames_userSections (module : Module) (userSections : List UserSection) :
    initialNames { module with userSections } = initialNames module := rfl

theorem findIdx?_modify {α : Type} {p : α → Bool} {f : α → α} (hf : ∀ a, p (f a) = p a) :
    ∀ (l : List α) (i : ℕ), (l.modify i f).findIdx? p = l.findIdx? p
  | [], i => by simp
  | a :: l, 0 => by rw [List.modify_zero_cons, List.findIdx?_cons, List.findIdx?_cons, hf]
  | a :: l, i + 1 => by
    rw [List.modify_succ_cons, List.findIdx?_cons, List.findIdx?_cons, findIdx?_modify hf l i]

/-- `setDisassemblyNames` succeeds exactly when the writer does. -/
theorem serializeNameSubsections_of_setDisassemblyNames {module : Module}
    {names : DisassemblyNames} (h : (setDisassemblyNames module names).2 = .ok ()) :
    ∃ bytes, serializeNameSubsections (nameSubsections module names) = .ok bytes := by
  cases hbytes : serializeNameSubsections (nameSubsections module names) with
  | ok bytes => exact ⟨bytes, rfl⟩
  | error e =>
    unfold setDisassemblyNames at h
    cases hfind : findUserSection module "name" <;> simp [hfind, hbytes] at h

/-- When the writer succeeds, the module's first name section, found or added, holds what it
wrote, and nothing but the user sections changes. -/
theorem setDisassemblyNames_of_ok {module : Module} {names : DisassemblyNames}
    {bytes : List UInt8} (h : serializeNameSubsections (nameSubsections module names) = .ok bytes) :
    ∃ userSections userSectionIndex,
      setDisassemblyNames module names = ({ module with userSections }, .ok ()) ∧
      findUserSection { module with userSections } "name" = some userSectionIndex ∧
      (userSections.getD userSectionIndex ⟨"", []⟩).data = bytes := by
  unfold setDisassemblyNames
  cases hfind : findUserSection module "name" with
  | some userSectionIndex =>
    dsimp only
    rw [h]
    have hlt := (List.findIdx?_eq_some_iff_getElem.1 hfind).1
    refine ⟨_, userSectionIndex, rfl, ?_, ?_⟩
    · unfold findUserSection at hfind ⊢
      dsimp only
      rw [findIdx?_modify (p := fun userSection : UserSection => decide (userSection.name = "name"))
        (f := fun userSection : UserSection => { userSection with data := bytes }) (fun _ => rfl),
        hfind]
    · rw [List.getD_eq_getElem _ _ (by simpa using hlt)]
      simp
  | none =>
    dsimp only
    rw [nameSubsections_userSections, h]
    refine ⟨_, module.userSections.length, rfl, ?_, ?_⟩
    · unfold findUserSection at hfind ⊢
      dsimp only
      rw [findIdx?_modify (p := fun userSection : UserSection => decide (userSection.name = "name"))
        (f := fun userSection : UserSection => { userSection with data := bytes }) (fun _ => rfl),
        List.findIdx?_append, hfind]
      simp
    · rw [List.getD_eq_getElem _ _ (by simp)]
      simp

theorem getDisassemblyNames_of_findUserSection {module : Module} {userSectionIndex : ℕ}
    {bytes : List UInt8} (hfind : findUserSection module "name" = some userSectionIndex)
    (hdata : (module.userSections.getD userSectionIndex ⟨"", []⟩).data = bytes) :
    getDisassemblyNames module = deserializeNameSection module (initialNames module) bytes := by
  rw [getDisassemblyNames, hfind]
  dsimp only
  rw [hdata]

/-! ## When the writer succeeds -/

/-- A bound on what `serializeNameMap` writes: five bytes for the count, and for each name five
for its index, five for its size and its bytes. -/
def nameMapSize (names : List (List UInt8)) : ℕ :=
  5 + (names.map fun name => 10 + name.length).sum

/-- A bound on what a function subsection writes where `serializeFunction` writes at most
`size function` of each function: five bytes for the count, and five for each index. -/
def functionSubsectionSize (size : FunctionNames → ℕ) (functions : List FunctionNames) : ℕ :=
  5 + (functions.map fun function => 5 + size function).sum

/-- A bound on the bodies of all the subsections `setDisassemblyNames` writes. -/
def namesSize (names : DisassemblyNames) : ℕ :=
  (5 + names.moduleName.length) +
    functionSubsectionSize (fun function => 5 + function.name.length) names.functions +
    functionSubsectionSize (fun function => nameMapSize function.locals) names.functions +
    functionSubsectionSize (fun function => nameMapSize function.labels) names.functions +
    nameMapSize names.types + nameMapSize names.tables + nameMapSize names.memories +
    nameMapSize names.globals + nameMapSize names.elemSegments + nameMapSize names.dataSegments +
    nameMapSize names.exceptionTypes

/-- A number below `2 ^ 32` is written in at most five bytes. -/
theorem writeVarUInt32_ok {value : ℕ} (h : value < 2 ^ 32) :
    ∃ bytes, writeVarUInt32 value = .ok bytes ∧ bytes.length ≤ 5 :=
  ⟨_, writeVarUInt32_eq_ok_iff.2 ⟨h, rfl⟩, length_writeBytes_U64_le h⟩

theorem writeString_ok {string : List UInt8} (h : string.length < 2 ^ 32) :
    ∃ bytes, writeString string = .ok bytes ∧ bytes.length ≤ 5 + string.length := by
  obtain ⟨size, hsize, hlength⟩ := writeVarUInt32_ok h
  refine ⟨size ++ string, writeString_eq_ok_iff.2 ⟨size, hsize, rfl⟩, ?_⟩
  rw [List.length_append]
  omega

/-- The loop of `serializeNameMap` writes its entries, while the indices stay below `2 ^ 32`. -/
theorem serializeNameMapEntries_ok :
    ∀ (nameIndex : ℕ) (names : List (List UInt8)), nameIndex + names.length ≤ 2 ^ 32 →
      (∀ name ∈ names, name.length < 2 ^ 32) →
      ∃ bytes, serializeNameMapEntries nameIndex names = .ok bytes ∧
        bytes.length ≤ (names.map fun name => 10 + name.length).sum
  | _, [], _, _ => ⟨[], rfl, Nat.zero_le _⟩
  | nameIndex, name :: names, hindex, hnames => by
    rw [List.length_cons] at hindex
    obtain ⟨entries, hentries, hentriesLength⟩ := serializeNameMapEntries_ok (nameIndex + 1) names
      (by omega) fun name hname => hnames name (List.mem_cons_of_mem _ hname)
    by_cases hempty : name.length = 0
    · -- an empty name writes no entry
      refine ⟨entries, ?_, ?_⟩
      · simp only [serializeNameMapEntries, if_neg (not_not.2 hempty), hentries, bind, Except.bind,
          pure, Except.pure, List.nil_append]
      · rw [List.map_cons, List.sum_cons]
        omega
    · obtain ⟨index, hindex', hindexLength⟩ := writeVarUInt32_ok (show nameIndex < 2 ^ 32 by omega)
      obtain ⟨string, hstring, hstringLength⟩ := writeString_ok (hnames name List.mem_cons_self)
      refine ⟨index ++ string ++ entries, ?_, ?_⟩
      · simp only [serializeNameMapEntries, if_pos hempty, hindex', hstring, hentries, bind,
          Except.bind, pure, Except.pure]
      · rw [List.length_append, List.length_append, List.map_cons, List.sum_cons]
        omega

/-- Where five bytes and a sum of per-entry bounds, each of at least one byte, stay below
`2 ^ 32`, so do the number of entries and each entry's bound. -/
theorem lt_of_five_add_sum_lt {α : Type} {entries : List α} {bound : α → ℕ}
    (hone : ∀ entry, 1 ≤ bound entry) (h : 5 + (entries.map bound).sum < 2 ^ 32) :
    entries.length < 2 ^ 32 ∧ ∀ entry ∈ entries, bound entry < 2 ^ 32 := by
  have hlength := List.length_le_sum_of_one_le (entries.map bound) fun i hi => by
    obtain ⟨entry, -, rfl⟩ := List.mem_map.1 hi
    exact hone entry
  rw [List.length_map] at hlength
  refine ⟨by omega, fun entry hentry => ?_⟩
  have := List.le_sum_of_mem (List.mem_map_of_mem (f := bound) hentry)
  omega

/-- Every name of a map is shorter than its bound, and there are fewer names than it. -/
theorem length_lt_of_nameMapSize_lt {names : List (List UInt8)} (h : nameMapSize names < 2 ^ 32) :
    names.length < 2 ^ 32 ∧ ∀ name ∈ names, name.length < 2 ^ 32 := by
  obtain ⟨hlength, hbound⟩ := @lt_of_five_add_sum_lt _ names (fun name => 10 + name.length)
    (fun _ => by omega) h
  exact ⟨hlength, fun name hname => by have := hbound name hname; omega⟩

theorem serializeNameMap_ok {names : List (List UInt8)} (h : nameMapSize names < 2 ^ 32) :
    ∃ bytes, serializeNameMap names = .ok bytes ∧ bytes.length ≤ nameMapSize names := by
  obtain ⟨hlength, hnames⟩ := length_lt_of_nameMapSize_lt h
  obtain ⟨numNames, hnum, hnumLength⟩ := writeVarUInt32_ok
    (Nat.lt_of_le_of_lt (List.countP_le_length) hlength)
  obtain ⟨entries, hentries, hentriesLength⟩ := serializeNameMapEntries_ok 0 names (by omega) hnames
  refine ⟨numNames ++ entries, ?_, ?_⟩
  · rw [serializeNameMap, hnum]
    dsimp only [bind, Except.bind]
    rw [hentries]
    rfl
  · rw [List.length_append, nameMapSize]
    omega

variable {serializeFunction : FunctionNames → Except String (List UInt8)} {size : FunctionNames → ℕ}

/-- The loop of a function subsection writes its entries, while the indices stay below `2 ^ 32`
and each function is written within its bound. -/
theorem serializeFunctionEntries_ok
    (hfunction : ∀ function, size function < 2 ^ 32 →
      ∃ bytes, serializeFunction function = .ok bytes ∧ bytes.length ≤ size function) :
    ∀ (functionIndex : ℕ) (functions : List FunctionNames),
      functionIndex + functions.length ≤ 2 ^ 32 → (∀ function ∈ functions, size function < 2 ^ 32) →
      ∃ bytes, serializeFunctionEntries serializeFunction functionIndex functions = .ok bytes ∧
        bytes.length ≤ (functions.map fun function => 5 + size function).sum
  | _, [], _, _ => ⟨[], rfl, Nat.zero_le _⟩
  | functionIndex, function :: functions, hindex, hsizes => by
    rw [List.length_cons] at hindex
    obtain ⟨index, hindex', hindexLength⟩ := writeVarUInt32_ok (show functionIndex < 2 ^ 32 by omega)
    obtain ⟨body, hbody, hbodyLength⟩ := hfunction function (hsizes function List.mem_cons_self)
    obtain ⟨entries, hentries, hentriesLength⟩ := serializeFunctionEntries_ok hfunction
      (functionIndex + 1) functions (by omega)
      fun function hmem => hsizes function (List.mem_cons_of_mem _ hmem)
    refine ⟨index ++ body ++ entries, ?_, ?_⟩
    · rw [serializeFunctionEntries, hindex']
      dsimp only [bind, Except.bind]
      rw [hbody]
      dsimp only
      rw [hentries]
      rfl
    · rw [List.length_append, List.length_append, List.map_cons, List.sum_cons]
      omega

theorem serializeFunctionSubsection_ok
    (hfunction : ∀ function, size function < 2 ^ 32 →
      ∃ bytes, serializeFunction function = .ok bytes ∧ bytes.length ≤ size function)
    {functions : List FunctionNames} (h : functionSubsectionSize size functions < 2 ^ 32) :
    ∃ bytes, serializeFunctionSubsection serializeFunction functions = .ok bytes ∧
      bytes.length ≤ functionSubsectionSize size functions := by
  -- each function's bound, and their number, are below the subsection's
  obtain ⟨hlength, hbound⟩ := @lt_of_five_add_sum_lt _ functions (fun function => 5 + size function)
    (fun _ => by omega) h
  have hsizes : ∀ function ∈ functions, size function < 2 ^ 32 := fun function hmem => by
    have := hbound function hmem
    omega
  unfold functionSubsectionSize at h ⊢
  obtain ⟨numFunctionNames, hnum, hnumLength⟩ := writeVarUInt32_ok hlength
  obtain ⟨entries, hentries, hentriesLength⟩ :=
    serializeFunctionEntries_ok hfunction 0 functions (by omega) hsizes
  refine ⟨numFunctionNames ++ entries, ?_, ?_⟩
  · rw [serializeFunctionSubsection, hnum]
    dsimp only [bind, Except.bind]
    rw [hentries]
    rfl
  · rw [List.length_append]
    omega

/-- The subsections are written where each body is, in fewer than `2 ^ 32` bytes. -/
theorem serializeNameSubsections_ok :
    ∀ subsections : List (NameSubsectionType × Except String (List UInt8)),
      (∀ subsection ∈ subsections, ∃ bytes, subsection.2 = .ok bytes ∧ bytes.length < 2 ^ 32) →
      ∃ bytes, serializeNameSubsections subsections = .ok bytes
  | [], _ => ⟨[], rfl⟩
  | (subsectionType, body) :: subsections, h => by
    obtain ⟨bodyBytes, hbody, hlength⟩ := h _ List.mem_cons_self
    obtain ⟨size, hsize, -⟩ := writeVarUInt32_ok hlength
    obtain ⟨rest, hrest⟩ := serializeNameSubsections_ok subsections
      fun subsection hmem => h subsection (List.mem_cons_of_mem _ hmem)
    refine ⟨subsectionType.toUInt8 :: size ++ bodyBytes ++ rest, ?_⟩
    dsimp only at hbody
    rw [serializeNameSubsections, serializeNameSubsection, hbody]
    dsimp only [bind, Except.bind]
    rw [hsize]
    dsimp only
    rw [hrest]
    rfl

/-- **`setDisassemblyNames` does not throw on names of fewer than `2 ^ 32` bytes**: every count,
index and size it writes is then below `2 ^ 32`, which `serializeVarUInt32` takes. -/
theorem setDisassemblyNames_ok_of_namesSize_lt (module : Module) {names : DisassemblyNames}
    (h : namesSize names < 2 ^ 32) : (setDisassemblyNames module names).2 = .ok () := by
  -- each body is written within its bound, and each bound is below `namesSize`
  have hmap : ∀ names' : List (List UInt8), nameMapSize names' < 2 ^ 32 →
      ∃ bytes, serializeNameMap names' = .ok bytes ∧ bytes.length < 2 ^ 32 := fun names' hlt => by
    obtain ⟨bytes, hbytes, hlength⟩ := serializeNameMap_ok hlt
    exact ⟨bytes, hbytes, by omega⟩
  have hfunctions : ∀ (serializeFunction : FunctionNames → Except String (List UInt8))
      (size : FunctionNames → ℕ), (∀ function, size function < 2 ^ 32 →
        ∃ bytes, serializeFunction function = .ok bytes ∧ bytes.length ≤ size function) →
      functionSubsectionSize size names.functions < 2 ^ 32 →
      ∃ bytes, serializeFunctionSubsection serializeFunction names.functions = .ok bytes ∧
        bytes.length < 2 ^ 32 := fun _ _ hfunction hlt => by
    obtain ⟨bytes, hbytes, hlength⟩ := serializeFunctionSubsection_ok hfunction hlt
    exact ⟨bytes, hbytes, by omega⟩
  have hname : ∀ function : FunctionNames, 5 + function.name.length < 2 ^ 32 →
      ∃ bytes, writeString function.name = .ok bytes ∧ bytes.length ≤ 5 + function.name.length :=
    fun _ hlt => writeString_ok (by omega)
  unfold namesSize at h
  obtain ⟨bytes, hbytes⟩ := serializeNameSubsections_ok (nameSubsections module names)
    fun subsection hmem => by
      unfold nameSubsections at hmem
      rcases List.mem_append.1 hmem with hbase | hextended
      · simp only [List.mem_cons, List.not_mem_nil, or_false] at hbase
        rcases hbase with rfl | rfl | rfl
        · obtain ⟨bytes, hbytes, hlength⟩ := writeString_ok (show names.moduleName.length < 2 ^ 32 by omega)
          exact ⟨bytes, hbytes, by omega⟩
        · exact hfunctions _ _ hname (by omega)
        · exact hfunctions _ _ (fun _ => serializeNameMap_ok) (by omega)
      · by_cases hflag : module.featureSpec.extendedNamesSection
        · rw [if_pos hflag] at hextended
          simp only [List.mem_cons, List.not_mem_nil, or_false] at hextended
          rcases hextended with rfl | rfl | rfl | rfl | rfl | rfl | rfl | rfl
          · exact hfunctions _ _ (fun _ => serializeNameMap_ok) (by omega)
          all_goals exact hmap _ (by omega)
        · rw [if_neg hflag] at hextended
          exact absurd hextended List.not_mem_nil
  obtain ⟨_, _, hresult, -, -⟩ := setDisassemblyNames_of_ok hbytes
  rw [hresult]

/-- The subsection types `setDisassemblyNames` writes, in order. -/
theorem map_fst_nameSubsections (module : Module) (names : DisassemblyNames) :
    (nameSubsections module names).map Prod.fst =
      [NameSubsectionType.module, .function, .local] ++
        if module.featureSpec.extendedNamesSection then
          [.label, .type, .table, .memory, .global, .elemSegment, .dataSegment, .exceptionTypes]
        else [] := by
  unfold nameSubsections
  split_ifs <;> rfl

/-- **The name section round trip**: for names of the shape `getDisassemblyNames` gives the
module, reading the names back from the module `setDisassemblyNames` leaves gives every name
written; without `extendedNamesSection` only the module, function and local names are written,
and the reader's blank names stand for the rest. The writer succeeds on all such names of
fewer than `2 ^ 32` bytes (`setDisassemblyNames_ok_of_namesSize_lt`). -/
theorem getDisassemblyNames_setDisassemblyNames {module : Module} {names : DisassemblyNames}
    (hfits : FitsModule module names) (hset : (setDisassemblyNames module names).2 = .ok ()) :
    getDisassemblyNames (setDisassemblyNames module names).1 =
      if module.featureSpec.extendedNamesSection then names
      else
        { initialNames module with
          moduleName := names.moduleName
          functions := names.functions.map fun function => { function with labels := [] } } := by
  obtain ⟨bytes, hbytes⟩ := serializeNameSubsections_of_setDisassemblyNames hset
  obtain ⟨userSections, userSectionIndex, hresult, hfind, hdata⟩ := setDisassemblyNames_of_ok hbytes
  rw [hresult, getDisassemblyNames_of_findUserSection hfind hdata, initialNames_userSections,
    deserializeNameSection_serializeNameSubsections { module with userSections } names _ _
      (fun _ h => h) hfits.hasRoom hbytes, map_fst_nameSubsections, List.foldl_append,
    foldl_readSubsection_base hfits]
  split_ifs
  · exact foldl_readSubsection_extended hfits
  · rfl

/-- A module of one function of one parameter and one table, with the extended names section,
whose function, parameter, label, table and module are named. -/
theorem getDisassemblyNames_setDisassemblyNames_one_function :
    let module : Module := ⟨⟨true, 4⟩, [⟨[.i32], []⟩], [], [⟨0, []⟩], 1, 0, 0, 0, 0, 0, []⟩
    let names : DisassemblyNames :=
      ⟨[109], [[]], [⟨[102], [[120]], [[108]]⟩], [[116]], [], [], [], [], []⟩
    FitsModule module names ∧ (setDisassemblyNames module names).2 = .ok () ∧
      getDisassemblyNames (setDisassemblyNames module names).1 = names := by
  intro module names
  have hfits : FitsModule module names :=
    ⟨by simp [module, names, initialNames, paramCount], rfl, rfl, rfl, rfl, rfl, rfl, rfl⟩
  have hset : (setDisassemblyNames module names).2 = .ok () :=
    setDisassemblyNames_ok_of_namesSize_lt module (by decide)
  exact ⟨hfits, hset, by rw [getDisassemblyNames_setDisassemblyNames hfits hset]; rfl⟩

end Wavm.IR
