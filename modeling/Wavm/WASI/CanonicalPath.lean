import Mathlib
import Wavm.Runtime.Memory

set_option relaxedAutoImplicit false
set_option autoImplicit false

/-!
# Canonical paths of the WASI file syscalls

`src/Lib/WASI/WASIFile.cpp`: every path a guest passes to a file syscall is read from its
memory by `readUserString` and joined to the `originalPath` of a directory descriptor by
`getCanonicalPath`. The joiner splits the relative path into components on runs of `'/'`,
drops `"."`, pops the previous component on `".."` and refuses a `".."` that would pop above
the base (`validatePath` then returns `ENOTCAPABLE`). The joined `std::string` goes to the
virtual file system, and from there to the host's `open`, `stat` and `unlink`, which read it
as a NUL-terminated C string (`path.c_str()` in `src/Lib/Platform/POSIX/FilePOSIX.cpp`) and, on
Windows, treat `'\\'` as a separator as well (`SandboxFS` accepts either as the end of its
root path).

A `std::string` is modelled as a list of characters, each standing for one byte.

## Main definitions

* `Wavm.WASI.skipSeparators`, `Wavm.WASI.findFirstOf`, `Wavm.WASI.canonicalLoop`,
  `Wavm.WASI.getCanonicalPath` — the component loop and the joiner, as the source writes
  them.
* `Wavm.WASI.pathComponents`, `Wavm.WASI.resolveComponents` — what the loop computes: the
  maximal runs between separators, resolved left to right with a stack.
* `Wavm.WASI.cString`, `Wavm.WASI.hostComponents` — how the host reads the joined path.

## Main results

* `Wavm.WASI.getCanonicalPath_eq` — the index loop is the split-then-resolve of the
  components.
* `Wavm.WASI.getCanonicalPath_eq_none_iff` — the joiner fails exactly when the resolution
  pops above the base.
* `Wavm.WASI.getCanonicalPath_components` — a joined path is the base followed by non-empty
  components that are neither `"."` nor `".."` and hold no `'/'`.
* `Wavm.WASI.hostComponents_getCanonicalPath` — when the relative path holds no NUL and no
  `'\\'`, the host sees exactly those components.
* `Wavm.WASI.getCanonicalPath_nul_escapes` — a component `"..\x00"` passes the check and the
  host reads it as `".."`.
-/

namespace Wavm.WASI

open Wavm.Runtime

/-! ## Reading a path from guest memory -/

/-- `readUserString`: the `numStringBytes` bytes at `stringAddress` of the guest memory, whose
committed bytes are `bytes`; the `outOfBoundsMemoryAccess` of `memoryArrayPtr` is caught and
reported as `false`, here `none`. -/
def readUserString {QuotaId : Type} (memory : Memory QuotaId) (bytes : Nat → UInt8)
    (stringAddress numStringBytes : UInt32) : Option (List Char) :=
  match getValidatedMemoryOffsetRange memory stringAddress.toUInt64 numStringBytes.toUInt64 with
  | .ok offset =>
    some ((List.range numStringBytes.toNat).map fun index =>
      Char.ofNat (bytes (offset.toNat + index)).toNat)
  | .error _ => none

/-- A string read from guest memory is the bytes of its range, whatever they are: nothing
excludes a NUL or a `'\\'`. -/
theorem readUserString_eq_some {QuotaId : Type} {memory : Memory QuotaId} {bytes : Nat → UInt8}
    {stringAddress numStringBytes : UInt32}
    (h : stringAddress.toNat + numStringBytes.toNat ≤
      (memory.numPages * UInt64.ofNat Wavm.IR.numBytesPerPage).toNat) :
    readUserString memory bytes stringAddress numStringBytes =
      some ((List.range numStringBytes.toNat).map fun index =>
        Char.ofNat (bytes (stringAddress.toNat + index)).toNat) := by
  have hok : getValidatedMemoryOffsetRange memory stringAddress.toUInt64
      numStringBytes.toUInt64 = .ok stringAddress.toUInt64 :=
    getValidatedMemoryOffsetRangeImpl_eq_ok_iff.2 ⟨by simpa using h, rfl⟩
  simp [readUserString, hok]

/-! ## The component loop -/

/-- `while(componentStart < size && relativePath[componentStart] == '/') ++componentStart`,
run over the suffix `relativePath.drop componentStart`. -/
def skipSeparators : List Char → Nat → Nat
  | c :: rest, componentStart =>
    if c = '/' then skipSeparators rest (componentStart + 1) else componentStart
  | [], componentStart => componentStart

/-- `relativePath.find_first_of(c, pos)` over the suffix `relativePath.drop pos`; `none` is
`std::string::npos`. -/
def findFirstOf (c : Char) : List Char → Nat → Option Nat
  | [], _ => none
  | d :: ds, pos => if d = c then some pos else findFirstOf c ds (pos + 1)

/-- The `while(componentStart < relativePath.size())` loop of `getCanonicalPath`, with the
stack `relativePathComponents`; `none` is the `return false` of a `".."` on an empty stack.
The fuel is `relativePath.size() + 1`, more than the loop can use
(`canonicalLoop_eq_resolve`): every pass either consumes a component or ends the loop. -/
def canonicalLoop (relativePath : List Char) :
    Nat → Nat → List (List Char) → Option (List (List Char))
  | 0, _, relativePathComponents => some relativePathComponents
  | fuel + 1, componentStart, relativePathComponents =>
    if componentStart < relativePath.length then
      let componentStart := skipSeparators (relativePath.drop componentStart) componentStart
      let nextPathSeparator :=
        (findFirstOf '/' (relativePath.drop componentStart) componentStart).getD
          relativePath.length
      if nextPathSeparator ≠ componentStart then
        let component :=
          (relativePath.drop componentStart).take (nextPathSeparator - componentStart)
        if component = ['.', '.'] then
          if relativePathComponents = [] then none
          else canonicalLoop relativePath fuel (nextPathSeparator + 1)
            relativePathComponents.dropLast
        else if component ≠ ['.'] then
          canonicalLoop relativePath fuel (nextPathSeparator + 1)
            (relativePathComponents ++ [component])
        else canonicalLoop relativePath fuel (nextPathSeparator + 1) relativePathComponents
      else canonicalLoop relativePath fuel componentStart relativePathComponents
    else some relativePathComponents

/-- `outAbsolutePath = basePath` without its trailing `'/'`. -/
def trimBasePath (basePath : List Char) : List Char :=
  if basePath.getLast? = some '/' then basePath.dropLast else basePath

/-- `for(component : relativePathComponents) { out += '/'; out += component; }`. -/
def joinComponents (absolutePath : List Char) (components : List (List Char)) : List Char :=
  absolutePath ++ components.flatMap fun component => '/' :: component

/-- `getCanonicalPath(basePath, relativePath, outAbsolutePath)`; `none` is `false`. -/
def getCanonicalPath (basePath relativePath : List Char) : Option (List Char) :=
  (canonicalLoop relativePath (relativePath.length + 1) 0 []).map
    (joinComponents (trimBasePath basePath))

/-! ## What the loop computes -/

/-- The maximal runs of characters between separators, with `current` the run read so far. -/
def componentsAux (isSeparator : Char → Bool) : List Char → List Char → List (List Char)
  | [], current => if current = [] then [] else [current]
  | c :: cs, current =>
    if isSeparator c then
      if current = [] then componentsAux isSeparator cs []
      else current :: componentsAux isSeparator cs []
    else componentsAux isSeparator cs (current ++ [c])

/-- The components of a relative path: its maximal runs without `'/'`. -/
def pathComponents (relativePath : List Char) : List (List Char) :=
  componentsAux (· = '/') relativePath []

/-- Resolve components left to right on a stack: `".."` pops, and fails on an empty stack;
`"."` is dropped; anything else is pushed. -/
def resolveComponents : List (List Char) → List (List Char) → Option (List (List Char))
  | stack, [] => some stack
  | stack, component :: components =>
    if component = ['.', '.'] then
      if stack = [] then none else resolveComponents stack.dropLast components
    else if component = ['.'] then resolveComponents stack components
    else resolveComponents (stack ++ [component]) components

/-- A component the joined path may hold: non-empty, neither `"."` nor `".."`, and free of
`'/'`. -/
def IsPlainComponent (component : List Char) : Prop :=
  component ≠ [] ∧ component ≠ ['.'] ∧ component ≠ ['.', '.'] ∧ '/' ∉ component

/-! ### The scans -/

/-- Skipping separators drops a prefix of `'/'`s and stops before anything else. -/
theorem skipSeparators_spec (s : List Char) (i : Nat) :
    ∃ n, skipSeparators s i = i + n ∧ s.take n = List.replicate n '/' ∧
      (s.drop n).head? ≠ some '/' := by
  induction s generalizing i with
  | nil => exact ⟨0, rfl, rfl, by simp⟩
  | cons c cs ih =>
    by_cases hc : c = '/'
    · subst hc
      obtain ⟨n, hn, htake, hhead⟩ := ih (i + 1)
      refine ⟨n + 1, ?_, ?_, hhead⟩
      · simp only [skipSeparators, if_true, hn]; omega
      · simp [htake, List.replicate_succ]
    · exact ⟨0, by simp [skipSeparators, hc], rfl, by simpa using hc⟩

/-- A run of separators contributes no component. -/
theorem componentsAux_replicate_append (isSeparator : Char → Bool) (h : isSeparator '/' = true)
    (n : Nat) (s : List Char) :
    componentsAux isSeparator (List.replicate n '/' ++ s) [] = componentsAux isSeparator s [] := by
  induction n with
  | zero => rfl
  | succ n ih => simp [List.replicate_succ, componentsAux, h, ih]

/-- Characters other than separators extend the current run. -/
theorem componentsAux_append_of_forall (isSeparator : Char → Bool) (comp s current : List Char)
    (hcomp : ∀ c ∈ comp, isSeparator c = false) :
    componentsAux isSeparator (comp ++ s) current = componentsAux isSeparator s (current ++ comp) := by
  induction comp generalizing current with
  | nil => simp
  | cons c cs ih =>
    simp only [List.cons_append, componentsAux, hcomp c (by simp), Bool.false_eq_true, if_false]
    rw [ih _ (fun d hd => hcomp d (by simp [hd]))]
    simp

/-- `findFirstOf` finds the first occurrence, or reports that there is none. -/
theorem findFirstOf_spec (c : Char) (s : List Char) (pos : Nat) :
    (∃ comp rest, s = comp ++ c :: rest ∧ c ∉ comp ∧
        findFirstOf c s pos = some (pos + comp.length)) ∨
      (c ∉ s ∧ findFirstOf c s pos = none) := by
  induction s generalizing pos with
  | nil => exact .inr ⟨by simp, rfl⟩
  | cons d ds ih =>
    by_cases hd : d = c
    · subst hd
      exact .inl ⟨[], ds, rfl, by simp, by simp [findFirstOf]⟩
    · rcases ih (pos + 1) with ⟨comp, rest, hs, hc, hf⟩ | ⟨hc, hf⟩
      · refine .inl ⟨d :: comp, rest, by simp [hs], ?_, ?_⟩
        · simp only [List.mem_cons, not_or]; exact ⟨Ne.symm hd, hc⟩
        · simp only [findFirstOf, hd, if_false, hf, List.length_cons]; congr 1; omega
      · refine .inr ⟨?_, by simp [findFirstOf, hd, hf]⟩
        simp only [List.mem_cons, not_or]; exact ⟨Ne.symm hd, hc⟩

/-- A relative path whose component runs are known: a separator-free run closed by `'/'`. -/
theorem pathComponents_append_sep {comp rest : List Char} (hne : comp ≠ []) (hcomp : '/' ∉ comp) :
    pathComponents (comp ++ '/' :: rest) = comp :: pathComponents rest := by
  unfold pathComponents
  rw [componentsAux_append_of_forall _ _ _ _ (fun c hc => by
    simp only [decide_eq_false_iff_not]; rintro rfl; exact hcomp hc)]
  simp [componentsAux, hne]

/-- A last run with no separator after it is one component. -/
theorem pathComponents_of_forall {comp : List Char} (hne : comp ≠ []) (hcomp : '/' ∉ comp) :
    pathComponents comp = [comp] := by
  have h := componentsAux_append_of_forall (· = '/') comp [] [] (fun c hc => by
    simp only [decide_eq_false_iff_not]; rintro rfl; exact hcomp hc)
  simp only [List.append_nil] at h
  simp [pathComponents, h, componentsAux, hne]

/-- Once the start passes the end of the path, the loop stops with its stack. -/
theorem canonicalLoop_of_length_le {relativePath : List Char} {componentStart : Nat}
    (fuel : Nat) (stack : List (List Char)) (h : relativePath.length ≤ componentStart) :
    canonicalLoop relativePath fuel componentStart stack = some stack := by
  cases fuel with
  | zero => rfl
  | succ fuel => simp [canonicalLoop, Nat.not_lt.2 h]

/-- One step of the resolution, in the branch order of the loop (`".."`, then not `"."`). -/
theorem resolveComponents_cons (stack : List (List Char)) (component : List Char)
    (components : List (List Char)) :
    resolveComponents stack (component :: components) =
      if component = ['.', '.'] then
        if stack = [] then none else resolveComponents stack.dropLast components
      else if component ≠ ['.'] then resolveComponents (stack ++ [component]) components
      else resolveComponents stack components := by
  simp only [resolveComponents, ne_eq, ite_not]

/-- **The component loop computes the resolution** of the components of the rest of the
path, once the fuel exceeds the characters left.

**Proof sketch.** Induction on the fuel. A pass skips a run of `'/'`s, which contributes no
component; then the next separator (or the end) closes a non-empty run, which is the first
component of the rest; the loop's three branches on it are those of `resolveComponents`, and
the rest starts one past the separator, so the fuel still exceeds what is left. -/
theorem canonicalLoop_eq_resolve (relativePath : List Char) (fuel : Nat) :
    ∀ componentStart stack, relativePath.length - componentStart < fuel →
      canonicalLoop relativePath fuel componentStart stack =
        resolveComponents stack (pathComponents (relativePath.drop componentStart)) := by
  induction fuel with
  | zero => intro _ _ h; omega
  | succ fuel ih =>
    intro componentStart stack hfuel
    by_cases hlt : componentStart < relativePath.length
    swap
    · rw [List.drop_eq_nil_of_le (by omega)]
      simp [canonicalLoop, hlt, pathComponents, componentsAux, resolveComponents]
    obtain ⟨n, hskip, htake, hhead⟩ :=
      skipSeparators_spec (relativePath.drop componentStart) componentStart
    -- the separators skipped contribute no component
    have hrest : relativePath.drop componentStart =
        List.replicate n '/' ++ relativePath.drop (componentStart + n) := by
      rw [← htake, ← List.drop_drop, List.take_append_drop]
    have hcomps : pathComponents (relativePath.drop componentStart) =
        pathComponents (relativePath.drop (componentStart + n)) := by
      rw [hrest]; exact componentsAux_replicate_append _ (by simp) n _
    rw [List.drop_drop] at hhead
    rw [hcomps]
    simp only [canonicalLoop, hlt, if_true, hskip]
    set j := componentStart + n with hj
    by_cases hjlt : j < relativePath.length
    swap
    · -- only separators were left: the loop ends with its stack
      have hnil : relativePath.drop j = [] := List.drop_eq_nil_of_le (by omega)
      have hlen : relativePath.length = j := by
        have := List.length_drop (l := relativePath) (i := componentStart)
        have := List.length_replicate (n := n) (a := '/')
        have := congrArg List.length hrest
        simp only [List.length_append, hnil, List.length_nil] at this
        omega
      simp only [hnil, findFirstOf, Option.getD_none, hlen, ne_eq, not_true_eq_false,
        if_false]
      rw [canonicalLoop_of_length_le _ _ (by omega)]
      rfl
    have hne : relativePath.drop j ≠ [] := by
      rw [ne_eq, List.drop_eq_nil_iff]; omega
    rcases findFirstOf_spec '/' (relativePath.drop j) j with
      ⟨comp, rest, hsplit, hnot, hfind⟩ | ⟨hnot, hfind⟩
    · -- a separator closes the component `comp`
      have hcne : comp ≠ [] := by
        rintro rfl; simp [hsplit] at hhead
      have hlen : j + comp.length < relativePath.length := by
        have := congrArg List.length hsplit; simp at this; omega
      have hnext : j + comp.length ≠ j := by
        have := List.length_pos_iff.2 hcne; omega
      have hcomp : (relativePath.drop j).take (j + comp.length - j) = comp := by
        rw [hsplit, Nat.add_sub_cancel_left]; simp
      have hdrop : relativePath.drop (j + comp.length + 1) = rest := by
        rw [show j + comp.length + 1 = j + (comp.length + 1) by omega, ← List.drop_drop,
          hsplit]
        simp
      have hfuel' : relativePath.length - (j + comp.length + 1) < fuel := by omega
      simp only [hfind, Option.getD_some, ne_eq, hnext, not_false_eq_true, if_true, hcomp]
      rw [hsplit, pathComponents_append_sep hcne hnot, resolveComponents_cons, ← hdrop]
      by_cases hdd : comp = ['.', '.']
      · by_cases hs : stack = []
        · simp only [if_pos hdd, if_pos hs]
        · simp only [if_pos hdd, if_neg hs]
          exact ih _ _ hfuel'
      · simp only [if_neg hdd]
        by_cases hd : comp = ['.']
        · rw [if_neg (not_not.2 hd), if_neg (not_not.2 hd)]
          exact ih _ _ hfuel'
        · rw [if_pos hd, if_pos hd]
          exact ih _ _ hfuel'
    · -- the component runs to the end of the path
      have hcomp : (relativePath.drop j).take (relativePath.length - j) =
          relativePath.drop j := List.take_of_length_le (by simp)
      have hend : relativePath.length ≤ relativePath.length + 1 := Nat.le_succ _
      simp only [hfind, Option.getD_none, ne_eq, Nat.ne_of_gt hjlt, not_false_eq_true,
        if_true, hcomp]
      rw [pathComponents_of_forall hne hnot, resolveComponents_cons]
      by_cases hdd : relativePath.drop j = ['.', '.']
      · by_cases hs : stack = []
        · simp only [if_pos hdd, if_pos hs]
        · simp only [if_pos hdd, if_neg hs]
          rw [canonicalLoop_of_length_le _ _ hend]
          rfl
      · simp only [if_neg hdd]
        by_cases hd : relativePath.drop j = ['.']
        · rw [if_neg (not_not.2 hd), if_neg (not_not.2 hd), canonicalLoop_of_length_le _ _ hend]
          rfl
        · rw [if_pos hd, if_pos hd, canonicalLoop_of_length_le _ _ hend]
          rfl

/-- **`getCanonicalPath` is split-then-resolve**: the base without its trailing `'/'`,
joined to the resolution of the relative path's components. -/
theorem getCanonicalPath_eq (basePath relativePath : List Char) :
    getCanonicalPath basePath relativePath =
      (resolveComponents [] (pathComponents relativePath)).map
        (joinComponents (trimBasePath basePath)) := by
  rw [getCanonicalPath, canonicalLoop_eq_resolve relativePath _ 0 [] (by omega), List.drop_zero]

/-- **The joiner fails exactly when the resolution pops above the base.** -/
theorem getCanonicalPath_eq_none_iff (basePath relativePath : List Char) :
    getCanonicalPath basePath relativePath = none ↔
      resolveComponents [] (pathComponents relativePath) = none := by
  rw [getCanonicalPath_eq, Option.map_eq_none_iff]

/-! ## The joined path -/

/-- The runs a split produces are non-empty, free of separators, and made of characters of
the input (or of the run read so far). -/
theorem componentsAux_spec (isSeparator : Char → Bool) (s current : List Char)
    (hcur : ∀ c ∈ current, isSeparator c = false) :
    ∀ comp ∈ componentsAux isSeparator s current,
      comp ≠ [] ∧ ∀ c ∈ comp, isSeparator c = false ∧ (c ∈ s ∨ c ∈ current) := by
  induction s generalizing current with
  | nil =>
    intro comp hcomp
    by_cases hc : current = []
    · simp [componentsAux, hc] at hcomp
    · simp only [componentsAux, hc, if_false, List.mem_singleton] at hcomp
      subst hcomp
      exact ⟨hc, fun c hc' => ⟨hcur c hc', .inr hc'⟩⟩
  | cons d ds ih =>
    intro comp hcomp
    have hcons : ∀ c, (c ∈ ds ∨ c ∈ ([] : List Char)) → (c ∈ d :: ds ∨ c ∈ current) := by
      intro c hc; simp only [List.not_mem_nil, or_false] at hc; exact .inl (.tail _ hc)
    by_cases hd : isSeparator d
    · by_cases hc : current = []
      · simp only [componentsAux, hd, hc, if_true] at hcomp
        obtain ⟨hne, hall⟩ := ih [] (by simp) comp hcomp
        exact ⟨hne, fun c h => ⟨(hall c h).1, hcons c (hall c h).2⟩⟩
      · simp only [componentsAux, hd, hc, if_true, if_false, List.mem_cons] at hcomp
        rcases hcomp with rfl | hcomp
        · exact ⟨hc, fun c hc' => ⟨hcur c hc', .inr hc'⟩⟩
        · obtain ⟨hne, hall⟩ := ih [] (by simp) comp hcomp
          exact ⟨hne, fun c h => ⟨(hall c h).1, hcons c (hall c h).2⟩⟩
    · simp only [componentsAux, hd, Bool.false_eq_true, if_false] at hcomp
      obtain ⟨hne, hall⟩ := ih (current ++ [d]) (by
        intro c hc
        rcases List.mem_append.1 hc with hc | hc
        · exact hcur c hc
        · rw [List.mem_singleton.1 hc]; simpa using hd) comp hcomp
      refine ⟨hne, fun c h => ⟨(hall c h).1, ?_⟩⟩
      rcases (hall c h).2 with hc | hc
      · exact .inl (.tail _ hc)
      · rcases List.mem_append.1 hc with hc | hc
        · exact .inr hc
        · rw [List.mem_singleton.1 hc]; exact .inl (.head _)

/-- A separator flushes the run: the split of `x ++ c :: y` is that of `x` then that of `y`. -/
theorem componentsAux_append_sep (isSeparator : Char → Bool) {c : Char}
    (hc : isSeparator c = true) (x y current : List Char) :
    componentsAux isSeparator (x ++ c :: y) current =
      componentsAux isSeparator x current ++ componentsAux isSeparator y [] := by
  induction x generalizing current with
  | nil =>
    by_cases hcur : current = []
    · simp [componentsAux, hc, hcur]
    · simp [componentsAux, hc, hcur]
  | cons d ds ih =>
    by_cases hd : isSeparator d
    · by_cases hcur : current = []
      · simp only [List.cons_append, componentsAux, hd, hcur, if_true, ih]
      · simp only [List.cons_append, componentsAux, hd, hcur, if_true, if_false, ih,
          List.cons_append]
    · simp only [List.cons_append, componentsAux, hd, Bool.false_eq_true, if_false, ih]

/-- The resolution pushes only the components it is given that are not `"."` or `".."`,
and its result is made of its stack and of those components. -/
theorem resolveComponents_spec {stack components result : List (List Char)}
    (h : resolveComponents stack components = some result) :
    ∀ comp ∈ result, comp ∈ stack ∨
      (comp ∈ components ∧ comp ≠ ['.'] ∧ comp ≠ ['.', '.']) := by
  induction components generalizing stack with
  | nil =>
    simp only [resolveComponents, Option.some.injEq] at h
    subst h
    exact fun comp hc => .inl hc
  | cons c cs ih =>
    rw [resolveComponents_cons] at h
    intro comp hcomp
    by_cases hdd : c = ['.', '.']
    · by_cases hs : stack = []
      · simp [hdd, hs] at h
      · rw [if_pos hdd, if_neg hs] at h
        rcases ih h comp hcomp with hc | ⟨hc, h1, h2⟩
        · exact .inl (List.mem_of_mem_dropLast hc)
        · exact .inr ⟨.tail _ hc, h1, h2⟩
    · rw [if_neg hdd] at h
      by_cases hd : c = ['.']
      · rw [if_neg (not_not.2 hd)] at h
        rcases ih h comp hcomp with hc | ⟨hc, h1, h2⟩
        · exact .inl hc
        · exact .inr ⟨.tail _ hc, h1, h2⟩
      · rw [if_pos hd] at h
        rcases ih h comp hcomp with hc | ⟨hc, h1, h2⟩
        · rcases List.mem_append.1 hc with hc | hc
          · exact .inl hc
          · rw [List.mem_singleton.1 hc]; exact .inr ⟨.head _, hd, hdd⟩
        · exact .inr ⟨.tail _ hc, h1, h2⟩

/-- **A joined path is the base followed by plain components**, each made of characters of
the relative path. -/
theorem getCanonicalPath_components {basePath relativePath out : List Char}
    (h : getCanonicalPath basePath relativePath = some out) :
    ∃ components, out = joinComponents (trimBasePath basePath) components ∧
      ∀ comp ∈ components, IsPlainComponent comp ∧ ∀ c ∈ comp, c ∈ relativePath := by
  rw [getCanonicalPath_eq, Option.map_eq_some_iff] at h
  obtain ⟨components, hres, rfl⟩ := h
  refine ⟨components, rfl, fun comp hcomp => ?_⟩
  rcases resolveComponents_spec hres comp hcomp with hc | ⟨hc, h1, h2⟩
  · simp at hc
  · obtain ⟨hne, hall⟩ := componentsAux_spec (· = '/') relativePath [] (by simp) comp hc
    refine ⟨⟨hne, h1, h2, fun hmem => by simpa using (hall '/' hmem).1⟩, fun c hc' => ?_⟩
    simpa using (hall c hc').2

/-! ## What the host reads -/

/-- The string the host receives from `path.c_str()`: everything before the first NUL. -/
def cString (path : List Char) : List Char :=
  path.takeWhile (· ≠ '\x00')

/-- The components the host sees in a path, for its set of separators. -/
def hostComponents (isSeparator : Char → Bool) (path : List Char) : List (List Char) :=
  componentsAux isSeparator path []

/-- The separators of a POSIX host. -/
def posixSeparator (c : Char) : Bool := c = '/'

/-- The separators of a Windows host, where `getWindowsPath` keeps `'\\'`. -/
def windowsSeparator (c : Char) : Bool := c = '/' || c = '\\'

/-- A path that holds no NUL reaches the host whole. -/
theorem cString_of_not_mem {path : List Char} (h : '\x00' ∉ path) : cString path = path := by
  unfold cString
  rw [List.takeWhile_eq_self_iff]
  intro c hc
  simp only [ne_eq, decide_eq_true_eq]
  rintro rfl
  exact h hc

/-- The host splits a joined path into the base's components and the joined ones, when these
hold no host separator. -/
theorem hostComponents_joinComponents (isSeparator : Char → Bool) (h : isSeparator '/' = true)
    (absolutePath : List Char) (components : List (List Char))
    (hcomps : ∀ comp ∈ components, comp ≠ [] ∧ ∀ c ∈ comp, isSeparator c = false) :
    hostComponents isSeparator (joinComponents absolutePath components) =
      hostComponents isSeparator absolutePath ++ components := by
  induction components generalizing absolutePath with
  | nil => simp [joinComponents]
  | cons comp comps ih =>
    obtain ⟨hne, hsep⟩ := hcomps comp (.head _)
    have ih' := ih comp (fun c hc => hcomps c (.tail _ hc))
    have hsingle : hostComponents isSeparator comp = [comp] := by
      have := componentsAux_append_of_forall isSeparator comp [] [] hsep
      simp only [List.append_nil] at this
      simp [hostComponents, this, componentsAux, hne]
    simp only [joinComponents, List.flatMap_cons, List.cons_append] at ih' ⊢
    rw [hostComponents, componentsAux_append_sep isSeparator h, ← hostComponents,
      ← hostComponents, ih', hsingle]
    rfl

/-- **What is right**: for a relative path with no NUL and no host separator other than
`'/'`, and a base with no NUL, the host sees the base's components followed by plain
components only. -/
theorem hostComponents_getCanonicalPath (isSeparator : Char → Bool) (hsep : isSeparator '/' = true)
    {basePath relativePath out : List Char} (h : getCanonicalPath basePath relativePath = some out)
    (hbase : '\x00' ∉ basePath) (hnul : '\x00' ∉ relativePath)
    (hother : ∀ c ∈ relativePath, isSeparator c = true → c = '/') :
    ∃ components, hostComponents isSeparator (cString out) =
        hostComponents isSeparator (trimBasePath basePath) ++ components ∧
      ∀ comp ∈ components, IsPlainComponent comp := by
  obtain ⟨components, rfl, hcomps⟩ := getCanonicalPath_components h
  have hnotsep : ∀ comp ∈ components, comp ≠ [] ∧ ∀ c ∈ comp, isSeparator c = false := by
    intro comp hcomp
    obtain ⟨⟨hne, -, -, hslash⟩, hchars⟩ := hcomps comp hcomp
    refine ⟨hne, fun c hc => ?_⟩
    cases hs : isSeparator c
    · rfl
    · exact absurd (hother c (hchars c hc) hs ▸ hc) hslash
  have hbase' : '\x00' ∉ trimBasePath basePath := by
    unfold trimBasePath
    split
    · exact fun hm => hbase (List.mem_of_mem_dropLast hm)
    · exact hbase
  have hout : '\x00' ∉ joinComponents (trimBasePath basePath) components := by
    simp only [joinComponents, List.mem_append, List.mem_flatMap, List.mem_cons, not_or,
      not_exists, not_and]
    refine ⟨hbase', fun comp hcomp => ⟨by decide, fun hm => hnul ((hcomps comp hcomp).2 _ hm)⟩⟩
  refine ⟨components, ?_, fun comp hcomp => (hcomps comp hcomp).1⟩
  rw [cString_of_not_mem hout, hostComponents_joinComponents isSeparator hsep _ _ hnotsep]

/-- **The NUL escape**: under the root preopen `"/"`, the relative path `"..\x00"` has the
single component `"..\x00"`, which is not `".."`, so the check passes and returns
`"/..\x00"`; the host reads that as `"/.."`, whose one component is `".."`, and the same
holds under the Windows separators, where `"..\\x"` gives `"..", "x"` as well. -/
theorem getCanonicalPath_nul_escapes :
    getCanonicalPath ['/'] ['.', '.', '\x00'] = some ['/', '.', '.', '\x00'] ∧
      hostComponents posixSeparator (cString ['/', '.', '.', '\x00']) = [['.', '.']] ∧
      getCanonicalPath ['/'] ['.', '.', '\\', 'x'] = some ['/', '.', '.', '\\', 'x'] ∧
      hostComponents windowsSeparator (cString ['/', '.', '.', '\\', 'x']) =
        [['.', '.'], ['x']] := by
  refine ⟨by decide, by decide, by decide, by decide⟩

end Wavm.WASI
