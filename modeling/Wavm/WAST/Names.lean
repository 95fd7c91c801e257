import Wavm.WAST.StringLiteral
import Wavm.Lib.WhileLoop
import Mathlib

set_option relaxedAutoImplicit false
set_option autoImplicit false

/-!
# Names of the text format

The printer gives the elements of each index space names through a `NameScope`
(`src/Lib/WASTPrint/Print.cpp`): `NameScope::map` first makes the name unique among those the
scope has given, with a numeric suffix from a per-name counter, and then makes it printable.
With `quotedNamesInTextFormat`, a name with a character outside `isNameChar`
(`src/Include/WAVM/Inline/IsNameChar.h`) is printed as a quoted string; without it, such
characters are replaced by `escapeName`. The parser reads a name back with `tryParseName`
(`src/Lib/WASTParse/Parse.cpp`).

The names a scope makes unique are pairwise distinct over every run, and with quoted names
so are the printed names, which `tryParseName` reads back as the unique names. Without quoted
names the uniqueness does not survive the printing: `escapeName` is not injective, and the
scope prints both `a b` and `a_b` as `$a_b`.

## Main definitions

* `Wavm.WAST.isNameChar`, `Wavm.WAST.escapeName`, `Wavm.WAST.hasNonNameChars`.
* `Wavm.WAST.NameScope`, `Wavm.WAST.NameScope.map` and its two halves,
  `Wavm.WAST.NameScope.uniqueName` and `Wavm.WAST.printName`; `Wavm.WAST.NameScope.mapAll`
  maps a list of names in turn.
* `Wavm.WAST.tryParseName`.

## Main results

* `Wavm.WAST.NameScope.uniqueName_isSome` — the suffix loop of `map` always ends.
* `Wavm.WAST.NameScope.mapAll_eq_some` — every run gives names made unique: pairwise
  distinct, and apart from those the scope had.
* `Wavm.WAST.NameScope.mapAll_nodup_of_allowQuotedNames` — with quoted names the printed names
  are pairwise distinct, and `tryParseName` reads each back as its unique name
  (`Wavm.WAST.tryParseName_printName`).
* `Wavm.WAST.NameScope.mapAll_escapeName_collides` — without them two names print alike.

## Implementation notes

A name is a byte string, one character per byte. `HashSet<std::string>` is the list of its
elements, and `HashMap<std::string, Uptr>` a function that is `0` where `getOrAdd` would add
the default. The `do`-`while` loop of `map` runs with fuel one above the size of the set,
which `uniqueName_isSome` shows to be enough. `Name` is compared by its characters; its source
offset is not modelled.
-/

namespace Wavm.WAST

/-! ## Characters and escapes -/

/-- `isNameChar`. -/
def isNameChar (c : Char) : Bool :=
  ('a' ≤ c ∧ c ≤ 'z') || ('A' ≤ c ∧ c ≤ 'Z') || ('0' ≤ c ∧ c ≤ '9') || c = '_' || c = '\x27' ||
    c = '+' || c = '-' || c = '*' || c = '/' || c = '\\' || c = '^' || c = '~' || c = '=' ||
    c = '<' || c = '>' || c = '!' || c = '?' || c = '@' || c = '#' || c = '$' || c = '%' ||
    c = '&' || c = '|' || c = ':' || c = '\x60' || c = '.'

/-- `escapeName`: each character of the name, made a name character. -/
def escapeName (name : List Char) : List Char :=
  name.flatMap fun c =>
    if c = '(' then "_lparen_".toList
    else if c = ')' then "_rparen_".toList
    else if c = ' ' then ['_']
    else if !isNameChar c then
      ['_', nibbleToHexChar (UInt8.ofNat ((c.toNat &&& 0xf0) >>> 4)),
        nibbleToHexChar (UInt8.ofNat ((c.toNat &&& 0x0f) >>> 0)), '_']
    else [c]

/-- `hasNonNameChars`. -/
def hasNonNameChars (name : List Char) : Bool :=
  name.any fun c => !isNameChar c

/-! ## Name scopes -/

/-- `NameScope`: the sigil, whether quoted names may be printed, the names given so far and the
counter of each name's duplicates. -/
structure NameScope where
  sigil : Char
  allowQuotedNames : Bool
  nameSet : List (List Char)
  nameToUniqueIndexMap : List Char → ℕ

/-- The constructor `NameScope(sigil, allowQuotedNames, estimatedNumElements)`. -/
def NameScope.init (sigil : Char) (allowQuotedNames : Bool) : NameScope :=
  ⟨sigil, allowQuotedNames, [], fun _ => 0⟩

/-- The test of the `do`-`while` loop of `map`: `!nameSet.add(name)`, the candidate taken. -/
def suffixCond (nameSet : List (List Char)) (state : List Char × ℕ) : Bool :=
  decide (state.1 ∈ nameSet)

/-- The body of the loop: `name = baseName + std::to_string(numPrecedingDuplicates)`, then
`++numPrecedingDuplicates`. -/
def suffixBody (baseName : List Char) (state : List Char × ℕ) : List Char × ℕ :=
  (baseName ++ Nat.toDigits 10 state.2, state.2 + 1)

/-- The first half of `NameScope::map`: the name, or if it is empty or taken the first
suffixed name not taken, added to the set, with the counter after the loop. -/
def NameScope.uniqueName (scope : NameScope) (name : List Char) :
    Option (NameScope × List Char) :=
  let baseName := if name.length ≠ 0 then name ++ ['_'] else name
  if name.length = 0 ∨ name ∈ scope.nameSet then
    -- the body runs once before the first test
    (WhileLoop.run (suffixCond scope.nameSet) (suffixBody baseName) (scope.nameSet.length + 1)
        (suffixBody baseName ([], scope.nameToUniqueIndexMap name))).map fun state =>
      ({ scope with
          nameSet := state.1 :: scope.nameSet
          nameToUniqueIndexMap := Function.update scope.nameToUniqueIndexMap name state.2 },
        state.1)
  else some ({ scope with nameSet := name :: scope.nameSet }, name)

/-- The second half of `NameScope::map`: the unique name escaped, or quoted where it has a
character that is not a name character, after the sigil. -/
def printName (sigil : Char) (allowQuotedNames : Bool) (name : List Char) : List Char :=
  sigil ::
    if !allowQuotedNames then escapeName name
    else if hasNonNameChars name then '"' :: escapeString name ++ ['"']
    else name

/-- `NameScope::map`: the scope after it and the printed name. -/
def NameScope.map (scope : NameScope) (name : List Char) : Option (NameScope × List Char) :=
  (scope.uniqueName name).map fun r =>
    (r.1, printName scope.sigil scope.allowQuotedNames r.2)

/-- `map` on each name of a list in turn. -/
def NameScope.mapAll (scope : NameScope) :
    List (List Char) → Option (NameScope × List (List Char))
  | [] => some (scope, [])
  | name :: names =>
    (scope.map name).bind fun r =>
      (r.1.mapAll names).map fun rest => (rest.1, r.2 :: rest.2)

/-! ## The parser -/

/-- `tryParseName` with the module's `quotedNamesInTextFormat`: the name of a `t_name` or
`t_quotedName` token and the cursor past it, or `none` for another token. An empty quoted
name is recorded as an error and gives the empty name. -/
def tryParseName (quotedNamesInTextFormat : Bool) (cursor : CursorState) :
    CursorState × Option (List Char) :=
  match cursor.nextTokens with
  | [] => (cursor, none)
  | token :: tokens =>
    -- past the `$`
    let nextChar := (cursor.parseState.string.drop token.begin).drop 1
    if token.type = .quotedName then
      let parseState :=
        if !quotedNamesInTextFormat then parseErrorf cursor.parseState "quoted names are disabled"
        else cursor.parseState
      match parseStringChars (nextChar.drop 1) parseState with
      | none => (cursor, none)
      | some (quotedNameChars, _, parseState) =>
        if quotedNameChars.length = 0 then
          ({ parseState := parseErrorf parseState "quoted names must not be empty",
             nextTokens := tokens }, some [])
        else ({ parseState, nextTokens := tokens }, some quotedNameChars)
    else if token.type = .name then
      ({ cursor with nextTokens := tokens }, some (nextChar.takeWhile isNameChar))
    else (cursor, none)

/-! ## The suffix loop ends -/

theorem toDigits_ten_injective : Function.Injective (Nat.toDigits 10) := by
  intro m n h
  have hm := @Nat.ofDigitChars_toDigits 10 m (by decide) (by decide)
  have hn := @Nat.ofDigitChars_toDigits 10 n (by decide) (by decide)
  rw [h] at hm
  exact hm.symm.trans hn

/-- Among the values of an injective function at `0`, ..., `l.length`, one is not in `l`. -/
theorem exists_not_mem_of_injective {α : Type} [DecidableEq α] {f : ℕ → α}
    (hf : Function.Injective f) (l : List α) : ∃ k ≤ l.length, f k ∉ l := by
  by_contra h
  push Not at h
  have hsub : (Finset.range (l.length + 1)).image f ⊆ l.toFinset := by
    intro x hx
    obtain ⟨k, hk, rfl⟩ := Finset.mem_image.1 hx
    exact List.mem_toFinset.2 (h k (Nat.lt_succ_iff.1 (Finset.mem_range.1 hk)))
  have hcard := Finset.card_le_card hsub
  rw [Finset.card_image_of_injective _ hf, Finset.card_range] at hcard
  have := List.toFinset_card_le l
  omega

theorem iterate_suffixBody (baseName : List Char) (state : List Char × ℕ) (k : ℕ) :
    (suffixBody baseName)^[k] (suffixBody baseName state) =
      (baseName ++ Nat.toDigits 10 (state.2 + k), state.2 + k + 1) := by
  induction k with
  | zero => rfl
  | succ k ih =>
    rw [Function.iterate_succ_apply', ih]
    simp only [suffixBody, Nat.add_assoc]

/-- **The suffix loop ends** within its fuel, at the first suffix whose name is not taken. -/
theorem run_suffix (nameSet : List (List Char)) (baseName : List Char) (n : ℕ) :
    ∃ k, WhileLoop.run (suffixCond nameSet) (suffixBody baseName) (nameSet.length + 1)
        (suffixBody baseName ([], n)) = some (baseName ++ Nat.toDigits 10 (n + k), n + k + 1) ∧
      baseName ++ Nat.toDigits 10 (n + k) ∉ nameSet := by
  have hf : Function.Injective fun k => baseName ++ Nat.toDigits 10 (n + k) := by
    intro k k' h
    have := toDigits_ten_injective (List.append_cancel_left h)
    omega
  have hex : ∃ k, baseName ++ Nat.toDigits 10 (n + k) ∉ nameSet := by
    obtain ⟨k, -, hk⟩ := exists_not_mem_of_injective hf nameSet
    exact ⟨k, hk⟩
  obtain ⟨k, hkle, hk⟩ := exists_not_mem_of_injective hf nameSet
  -- the loop stops at the first free suffix, which comes no later than `k`
  have hfind : Nat.find hex ≤ nameSet.length := (Nat.find_min' hex hk).trans hkle
  refine ⟨Nat.find hex, ?_, Nat.find_spec hex⟩
  have hstate := iterate_suffixBody baseName ([], n) (Nat.find hex)
  dsimp only at hstate
  rw [← hstate]
  refine WhileLoop.run_of_iterate (fun j hj => ?_) ?_ _ (by omega)
  · rw [iterate_suffixBody]
    simpa [suffixCond] using Nat.find_min hex hj
  · rw [iterate_suffixBody]
    simpa [suffixCond] using Nat.find_spec hex

/-! ## Every run gives unique names -/

theorem isByteString_toDigits (n : ℕ) : IsByteString (Nat.toDigits 10 n) := by
  intro c hc
  have := Char.isDigit_iff_toNat.1 (Nat.isDigit_of_mem_toDigits (by decide) (by decide) hc)
  simp only [Char.reduceToNat] at this
  omega

theorem isByteString_append {string string' : List Char} (h : IsByteString string)
    (h' : IsByteString string') : IsByteString (string ++ string') := by
  intro c hc
  rcases List.mem_append.1 hc with hc | hc
  · exact h c hc
  · exact h' c hc

namespace NameScope

/-- A name the scope has not given passes unchanged. -/
theorem uniqueName_of_not_mem {scope : NameScope} {name : List Char} (hne : name ≠ [])
    (hfree : name ∉ scope.nameSet) :
    scope.uniqueName name = some ({ scope with nameSet := name :: scope.nameSet }, name) := by
  rw [uniqueName, if_neg]
  rintro (hlen | hmem)
  · exact hne (List.length_eq_zero_iff.1 hlen)
  · exact hfree hmem

/-- **`uniqueName` always returns**, with a name the scope had not given, not empty and a byte
string where the name is one, which it adds to the set. -/
theorem uniqueName_eq_some (scope : NameScope) (name : List Char) :
    ∃ scope' unique, scope.uniqueName name = some (scope', unique) ∧
      unique ∉ scope.nameSet ∧ scope'.nameSet = unique :: scope.nameSet ∧
      scope'.sigil = scope.sigil ∧ scope'.allowQuotedNames = scope.allowQuotedNames ∧
      unique ≠ [] ∧ (IsByteString name → IsByteString unique) := by
  by_cases h : name.length = 0 ∨ name ∈ scope.nameSet
  · -- the suffix loop: it ends at a suffixed name that is not taken
    set baseName := if name.length ≠ 0 then name ++ ['_'] else name with hbase
    obtain ⟨k, hrun, hfree⟩ :=
      run_suffix scope.nameSet baseName (scope.nameToUniqueIndexMap name)
    rw [uniqueName, if_pos h, ← hbase, hrun]
    refine ⟨_, _, rfl, hfree, rfl, rfl, rfl, ?_, fun hname => ?_⟩
    · simp [Nat.toDigits_ne_nil]
    · refine isByteString_append ?_ (isByteString_toDigits _)
      rw [hbase]
      split
      · exact isByteString_append hname (by decide)
      · exact hname
  · have hne : name ≠ [] := fun hnil => h (Or.inl (by simp [hnil]))
    rw [uniqueName_of_not_mem hne fun hmem => h (Or.inr hmem)]
    exact ⟨_, _, rfl, fun hmem => h (Or.inr hmem), rfl, rfl, rfl, hne, id⟩

theorem uniqueName_isSome (scope : NameScope) (name : List Char) :
    (scope.uniqueName name).isSome := by
  obtain ⟨scope', unique, h, -⟩ := uniqueName_eq_some scope name
  rw [h]
  rfl

/-- **Every run gives unique names**: `mapAll` returns, and prints the names `uniques`, which
are pairwise distinct, apart from those the scope had and not empty, and byte strings where
the names are. -/
theorem mapAll_eq_some (scope : NameScope) (names : List (List Char)) :
    ∃ (scope' : NameScope) (uniques : List (List Char)), scope.mapAll names =
        some (scope', uniques.map (printName scope.sigil scope.allowQuotedNames)) ∧
      uniques.Nodup ∧ (∀ unique ∈ uniques, unique ∉ scope.nameSet ∧ unique ≠ []) ∧
      ((∀ name ∈ names, IsByteString name) → ∀ unique ∈ uniques, IsByteString unique) := by
  induction names generalizing scope with
  | nil => exact ⟨scope, [], rfl, List.nodup_nil, by simp, by simp⟩
  | cons name names ih =>
    obtain ⟨scope₁, unique, hunique, hfree, hset, hsigil, hquoted, hne, hbytes⟩ :=
      uniqueName_eq_some scope name
    obtain ⟨scope', uniques, hrest, hnodup, hfresh, hbytes'⟩ := ih scope₁
    -- the names after `unique` are apart from the set that `unique` joined
    have hlater : ∀ u ∈ uniques, u ≠ unique ∧ u ∉ scope.nameSet ∧ u ≠ [] := by
      intro u hu
      obtain ⟨hu₁, hne'⟩ := hfresh u hu
      rw [hset, List.mem_cons, not_or] at hu₁
      exact ⟨hu₁.1, hu₁.2, hne'⟩
    refine ⟨scope', unique :: uniques, ?_, ?_, ?_, ?_⟩
    · simp [mapAll, NameScope.map, hunique, hrest, hsigil, hquoted]
    · exact List.nodup_cons.2 ⟨fun hmem => (hlater unique hmem).1 rfl, hnodup⟩
    · intro u hu
      rcases List.mem_cons.1 hu with rfl | hu
      · exact ⟨hfree, hne⟩
      · exact (hlater u hu).2
    · intro hnames u hu
      rcases List.mem_cons.1 hu with rfl | hu
      · exact hbytes (hnames name List.mem_cons_self)
      · exact hbytes' (fun n hn => hnames n (List.mem_cons_of_mem _ hn)) u hu

end NameScope

/-! ## With quoted names, the printed names are distinct -/

theorem isNameChar_of_hasNonNameChars_eq_false {name : List Char}
    (h : hasNonNameChars name = false) : ∀ c ∈ name, isNameChar c = true := by
  simpa [hasNonNameChars] using h

/-- A name printed as it is holds no quote, so it is printed unlike every quoted name. -/
theorem plain_ne_quoted {name name' : List Char} (h : hasNonNameChars name = false) :
    name ≠ '"' :: escapeString name' ++ ['"'] := by
  intro heq
  have hquote := isNameChar_of_hasNonNameChars_eq_false h '"' (by rw [heq]; exact List.mem_cons_self)
  exact absurd hquote (by decide)

/-- With quoted names, two byte strings are printed alike only if they are equal. -/
theorem printName_injective {sigil : Char} {name name' : List Char} (hname : IsByteString name)
    (hname' : IsByteString name') (h : printName sigil true name = printName sigil true name') :
    name = name' := by
  simp only [printName, Bool.not_true, Bool.false_eq_true, if_false, List.cons.injEq,
    true_and] at h
  cases hq : hasNonNameChars name <;> cases hq' : hasNonNameChars name' <;>
    simp only [hq, hq', Bool.false_eq_true, if_false, if_true] at h
  · exact h
  · exact absurd h (plain_ne_quoted hq)
  · exact absurd h.symm (plain_ne_quoted hq')
  · simp only [List.cons.injEq, true_and, List.append_cancel_right_eq] at h
    exact escapeString_injective hname hname' h

namespace NameScope

/-- **With quoted names, every run prints pairwise distinct names.** -/
theorem mapAll_nodup_of_allowQuotedNames (scope : NameScope) (names : List (List Char))
    (hquoted : scope.allowQuotedNames = true) (hnames : ∀ name ∈ names, IsByteString name) :
    ∃ scope' printed, scope.mapAll names = some (scope', printed) ∧ printed.Nodup := by
  obtain ⟨scope', uniques, hrun, hnodup, -, hbytes⟩ := mapAll_eq_some scope names
  refine ⟨scope', _, hrun, hnodup.map_on fun u hu u' hu' h => ?_⟩
  rw [hquoted] at h
  exact printName_injective (hbytes hnames u hu) (hbytes hnames u' hu') h

end NameScope

/-- **`tryParseName` reads a name printed with quoted names back**, from the token the lexer
makes of it, and records no error. -/
theorem tryParseName_printName {cursor : CursorState} {token : Token} {tokens : List Token}
    {name after : List Char} (hnext : cursor.nextTokens = token :: tokens)
    (htext : cursor.parseState.string.drop token.begin = printName '$' true name ++ after)
    (htype : token.type = if hasNonNameChars name then .quotedName else .name)
    (hname : IsByteString name) (hne : name ≠ [])
    (hafter : ∀ c ∈ after.head?, isNameChar c = false) :
    tryParseName true cursor = ({ cursor with nextTokens := tokens }, some name) := by
  cases hq : hasNonNameChars name
  · -- a plain name: the name characters after the sigil, up to the separator
    have htake : (name ++ after).takeWhile isNameChar = name := by
      rw [List.takeWhile_append_of_pos (isNameChar_of_hasNonNameChars_eq_false hq)]
      cases after with
      | nil => simp
      | cons c after => simp [hafter c rfl]
    rw [hq] at htype
    simp [tryParseName, hnext, htext, htype, printName, hq, htake]
  · -- a quoted name: the string between the quotes
    have hparse := parseStringChars_escapeString hname after cursor.parseState
    rw [hq] at htype
    have hlen : name.length ≠ 0 := fun h => hne (List.length_eq_zero_iff.1 h)
    simp [tryParseName, hnext, htext, htype, printName, hq, hparse, hlen]

/-! ## Without quoted names, two names print alike -/

/-- The name with each space made an underscore. -/
def spacesToUnderscores (name : List Char) : List Char :=
  name.map fun c => if c = ' ' then '_' else c

/-- `escapeName` writes a space as it writes an underscore. -/
theorem escapeName_spacesToUnderscores (name : List Char) :
    escapeName (spacesToUnderscores name) = escapeName name := by
  induction name with
  | nil => rfl
  | cons c name ih =>
    simp only [spacesToUnderscores, escapeName, List.map_cons, List.flatMap_cons] at ih ⊢
    rw [ih]
    by_cases hc : c = ' '
    · subst hc
      rfl
    · rw [if_neg hc]

theorem space_not_mem_spacesToUnderscores (name : List Char) :
    ' ' ∉ spacesToUnderscores name := by
  simp only [spacesToUnderscores, List.mem_map, not_exists, not_and]
  intro c _
  split <;> simp_all

namespace NameScope

/-- **Without quoted names, a scope prints two of its unique names alike**: a name with a space
and the same name with underscores in its place, each new to the scope, both print as the
second. -/
theorem mapAll_escapeName_collides (scope : NameScope) (hquoted : scope.allowQuotedNames = false)
    {name : List Char} (hspace : ' ' ∈ name) (hfree : name ∉ scope.nameSet)
    (hfree' : spacesToUnderscores name ∉ scope.nameSet) :
    name ≠ spacesToUnderscores name ∧ ∃ scope' printed,
      scope.mapAll [name, spacesToUnderscores name] = some (scope', [printed, printed]) := by
  have hne : name ≠ [] := List.ne_nil_of_mem hspace
  have hdiff : name ≠ spacesToUnderscores name := fun h =>
    space_not_mem_spacesToUnderscores name (h ▸ hspace)
  have hne' : spacesToUnderscores name ≠ [] := by simpa [spacesToUnderscores] using hne
  have hfree'' : spacesToUnderscores name ∉ name :: scope.nameSet := by
    rw [List.mem_cons, not_or]
    exact ⟨fun h => hdiff h.symm, hfree'⟩
  -- both names are new, so each passes unchanged
  have hfirst := uniqueName_of_not_mem hne hfree
  have hsecond : ({ scope with nameSet := name :: scope.nameSet } : NameScope).uniqueName
      (spacesToUnderscores name) =
        some ({ scope with nameSet := spacesToUnderscores name :: name :: scope.nameSet },
          spacesToUnderscores name) :=
    uniqueName_of_not_mem hne' hfree''
  refine ⟨hdiff, ?_⟩
  simp only [mapAll, NameScope.map, hfirst, Option.map_some, Option.bind_some]
  rw [hsecond]
  simp only [Option.map_some, Option.bind_some, printName, hquoted,
    escapeName_spacesToUnderscores]
  exact ⟨_, _, rfl⟩

end NameScope

theorem mapAll_escapeName_collides_a_b :
    (NameScope.init '$' false).allowQuotedNames = false ∧ ' ' ∈ ['a', ' ', 'b'] ∧
      ['a', ' ', 'b'] ∉ (NameScope.init '$' false).nameSet ∧
      spacesToUnderscores ['a', ' ', 'b'] ∉ (NameScope.init '$' false).nameSet ∧
      ['a', ' ', 'b'] ≠ spacesToUnderscores ['a', ' ', 'b'] ∧ ∃ scope' printed,
        (NameScope.init '$' false).mapAll [['a', ' ', 'b'], spacesToUnderscores ['a', ' ', 'b']] =
          some (scope', [printed, printed]) :=
  have hspace : ' ' ∈ ['a', ' ', 'b'] := by decide
  have hfree : ['a', ' ', 'b'] ∉ (NameScope.init '$' false).nameSet := List.not_mem_nil
  have hfree' : spacesToUnderscores ['a', ' ', 'b'] ∉ (NameScope.init '$' false).nameSet :=
    List.not_mem_nil
  ⟨rfl, hspace, hfree, hfree',
    NameScope.mapAll_escapeName_collides (NameScope.init '$' false) rfl hspace hfree hfree'⟩

/-- Both print as `$a_b`. -/
example : ((NameScope.init '$' false).mapAll [['a', ' ', 'b'], ['a', '_', 'b']]).map Prod.snd =
    some [['$', 'a', '_', 'b'], ['$', 'a', '_', 'b']] := by
  decide

end Wavm.WAST
