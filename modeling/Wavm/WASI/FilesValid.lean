import Wavm.WASI.Files

set_option relaxedAutoImplicit false
set_option autoImplicit false

/-!
# What the fd syscalls do to the table

The table of a WASI process refines a finite map from fds to descriptors. Over it, every
syscall is one change of the map: `path_open` binds a fresh fd, `fd_close` unbinds one,
`fd_fdstat_set_rights` narrows one, and a failed call changes nothing. The table keeps three
properties along every run: no descriptor holds rights beyond those a directory may pass on,
fd `3` is the only preopened descriptor, and it stays bound. `fd_renumber` is the exception to
the first sentence: it leaves neither of its fds bound, and where its insert resizes the table it
reads a freed descriptor.

## Main definitions

* `Wavm.WASI.FdTable` — the finite map from fds to descriptors.
* `Wavm.WASI.TableValid` — the three properties of the table.
* `Wavm.WASI.initialTable` — the stdio fds and the root directory `WASI::run` binds.
* `Wavm.WASI.Process.Valid` — the process's table refines a finite map that has them.

## Main results

* `Wavm.WASI.valid_initialProcess` — the process `WASI::run` builds is valid over the initial
  table.
* `Wavm.WASI.Process.Valid.validateFD_eq_ok_iff` — `validateFD` finds a bound fd that holds
  the rights asked for.
* `Wavm.WASI.Process.Valid.wasiPathOpen_cases`, `Wavm.WASI.Process.Valid.wasiFdClose_cases`,
  `Wavm.WASI.Process.Valid.wasiFdFdstatSetRights_cases` — each syscall, as a change of the
  map or none.
* `Wavm.WASI.Process.Valid.wasiPathOpen_eq_ok` — a `path_open` that gets through binds the fd
  `IndexMap::add` allocates.
* `Wavm.WASI.Process.Valid.wasiPathOpen_eq_none` — `path_open` hangs only when all the
  `2 ^ 31` fds are bound.
* `Wavm.WASI.Process.Valid.wasiFdRenumber_cases`,
  `Wavm.WASI.Process.Valid.wasiFdRenumber_eq_esuccess_iff` — a successful
  `fd_renumber(from, to)` unbinds both fds, and succeeds whenever both are bound, neither is
  preopened, `to` closes and the insert does not resize the table.
* `Wavm.WASI.Process.Valid.wasiFdRenumber_eq_none_iff` — where the insert resizes the table,
  `fd_renumber` moves from a descriptor the resize freed, and is undefined.
* `Wavm.WASI.valid_of_reachable`, `Wavm.WASI.Reachable.validateFD_root`,
  `Wavm.WASI.Reachable.validateFD_rights` — every reachable process is valid: fd `3` stays,
  and no descriptor gains rights.
* `Wavm.WASI.numBuckets_initialProcess` — the initial table has `minBuckets` buckets.
* `Wavm.WASI.fdRenumber_loses_descriptor` — from the initial table, a `path_open` and an
  `fd_renumber(4, 0)` that returns `ESUCCESS` leave neither fd bound.
-/

namespace Wavm.WASI

open Wavm.Runtime Wavm.VFS BitMask FixedWidth

/-- The descriptors of a process as a finite map from fds. -/
abbrev FdTable (VFD : Type) := AList fun _ : FD => FDE VFD

variable {QuotaId VFD : Type}

/-! ## The properties of the table -/

/-- **The properties a table keeps**: every descriptor's rights, and those it passes on, are
among the rights a directory may pass on; a bound fd is preopened exactly when it is fd `3`;
and with a file system, fd `3` is bound. -/
structure TableValid (hasFileSystem : Bool) (a : FdTable VFD) : Prop where
  rights_covered : ∀ fd fde, a.lookup fd = some fde →
    Covers inheritingDirectoryRights fde.rights ∧
      Covers inheritingDirectoryRights fde.inheritingRights
  preopened_iff : ∀ fd fde, a.lookup fd = some fde → (fde.isPreopened = true ↔ fd = 3)
  root_bound : hasFileSystem = true → ∃ fde, a.lookup 3 = some fde ∧ fde.isPreopened = true

section TableValid

variable {hasFileSystem : Bool} {a a' : FdTable VFD}

/-- A table with fewer descriptors and the same fd `3` keeps the properties. -/
theorem TableValid.of_sub (ht : TableValid hasFileSystem a)
    (hsub : ∀ fd fde, a'.lookup fd = some fde → a.lookup fd = some fde)
    (hroot : a'.lookup 3 = a.lookup 3) : TableValid hasFileSystem a' :=
  ⟨fun fd fde h => ht.rights_covered fd fde (hsub fd fde h),
    fun fd fde h => ht.preopened_iff fd fde (hsub fd fde h),
    fun hfs => by rw [hroot]; exact ht.root_bound hfs⟩

/-- A bound fd that is not preopened is not fd `3`. -/
theorem TableValid.ne_three (ht : TableValid hasFileSystem a) {fd : FD} {fde : FDE VFD}
    (h : a.lookup fd = some fde) (hp : fde.isPreopened = false) : fd ≠ 3 := by
  intro hfd
  have := (ht.preopened_iff fd fde h).2 hfd
  rw [hp] at this
  cases this

/-- **Unbinding a descriptor that is not preopened** keeps the properties. -/
theorem TableValid.erase (ht : TableValid hasFileSystem a) {fd : FD} {fde : FDE VFD}
    (h : a.lookup fd = some fde) (hp : fde.isPreopened = false) :
    TableValid hasFileSystem (a.erase fd) := by
  have hne := ht.ne_three h hp
  refine ht.of_sub (fun fd' fde' h' => ?_) (AList.lookup_erase_ne (Ne.symm hne))
  by_cases hfd : fd' = fd
  · rw [hfd, AList.lookup_erase] at h'
    cases h'
  · rwa [AList.lookup_erase_ne hfd] at h'

/-- **Binding a fresh fd** of a process with a file system to a descriptor that is not
preopened and holds rights a directory may pass on keeps the properties. -/
theorem TableValid.insert_fresh (ht : TableValid hasFileSystem a) (hfs : hasFileSystem = true)
    {fd : FD} (hfd : fd ∉ a) {fde : FDE VFD} (hp : fde.isPreopened = false)
    (hrights : Covers inheritingDirectoryRights fde.rights ∧
      Covers inheritingDirectoryRights fde.inheritingRights) :
    TableValid hasFileSystem (a.insert fd fde) := by
  -- fd `3` is bound, so the fresh fd is another one
  obtain ⟨root, hroot, -⟩ := ht.root_bound hfs
  have hne : fd ≠ 3 := by
    rintro rfl
    exact hfd (AList.lookup_isSome.1 (by rw [hroot]; rfl))
  refine ⟨fun fd' fde' h' => ?_, fun fd' fde' h' => ?_, fun hfs' => ?_⟩
  · by_cases hfd' : fd' = fd
    · rw [hfd', AList.lookup_insert] at h'
      obtain rfl := Option.some.inj h'
      exact hrights
    · rw [AList.lookup_insert_ne hfd'] at h'
      exact ht.rights_covered fd' fde' h'
  · by_cases hfd' : fd' = fd
    · rw [hfd', AList.lookup_insert] at h'
      obtain rfl := Option.some.inj h'
      rw [hp, hfd']
      exact ⟨fun h => (by cases h), fun h => absurd h hne⟩
    · rw [AList.lookup_insert_ne hfd'] at h'
      exact ht.preopened_iff fd' fde' h'
  · rw [AList.lookup_insert_ne (Ne.symm hne)]
    exact ht.root_bound hfs'

/-- **Narrowing the rights of a bound descriptor** keeps the properties. -/
theorem TableValid.narrow (ht : TableValid hasFileSystem a) {fd : FD} {fde : FDE VFD}
    (h : a.lookup fd = some fde) {rights inheritingRights : Rights}
    (hr : Covers fde.rights rights) (hir : Covers fde.inheritingRights inheritingRights) :
    TableValid hasFileSystem (a.insert fd { fde with rights, inheritingRights }) := by
  obtain ⟨hcr, hcir⟩ := ht.rights_covered fd fde h
  refine ⟨fun fd' fde' h' => ?_, fun fd' fde' h' => ?_, fun hfs => ?_⟩
  · by_cases hfd : fd' = fd
    · rw [hfd, AList.lookup_insert] at h'
      obtain rfl := Option.some.inj h'
      exact ⟨hcr.trans hr, hcir.trans hir⟩
    · rw [AList.lookup_insert_ne hfd] at h'
      exact ht.rights_covered fd' fde' h'
  · by_cases hfd : fd' = fd
    · rw [hfd, AList.lookup_insert] at h'
      obtain rfl := Option.some.inj h'
      rw [hfd]
      exact ht.preopened_iff fd fde h
    · rw [AList.lookup_insert_ne hfd] at h'
      exact ht.preopened_iff fd' fde' h'
  · by_cases hfd : (3 : FD) = fd
    · rw [hfd, AList.lookup_insert]
      refine ⟨_, rfl, ?_⟩
      rw [← hfd] at h
      exact (ht.preopened_iff 3 fde h).2 rfl
    · rw [AList.lookup_insert_ne hfd]
      exact ht.root_bound hfs

/-- The table of the three stdio fds `0`, `1` and `2`. -/
def stdioTable (stdIn stdOut stdErr : VFD) : FdTable VFD :=
  (((∅ : FdTable VFD).insert 0 ⟨stdIn, stdioRights, 0, "/dev/stdin".toList, false⟩).insert 1
    ⟨stdOut, stdioRights, 0, "/dev/stdout".toList, false⟩).insert 2
    ⟨stdErr, stdioRights, 0, "/dev/stderr".toList, false⟩

/-- **The table `WASI::run` starts a process with**: the stdio fds and, with a file system, the
preopened root directory at fd `3`. -/
def initialTable (stdIn stdOut stdErr : VFD) : Option VFD → FdTable VFD
  | none => stdioTable stdIn stdOut stdErr
  | some rootFD => (stdioTable stdIn stdOut stdErr).insert 3
      ⟨rootFD, directoryRights, inheritingDirectoryRights, "/".toList, true⟩

/-- A stdio descriptor is one of the fds `0` to `2`, holds the stdio rights, passes none on
and is not preopened. -/
theorem lookup_stdioTable {stdIn stdOut stdErr : VFD} {fd : FD} {fde : FDE VFD}
    (h : (stdioTable stdIn stdOut stdErr).lookup fd = some fde) :
    fd.toNat < 3 ∧ fde.rights = stdioRights ∧ fde.inheritingRights = 0 ∧
      fde.isPreopened = false := by
  simp only [stdioTable, FiniteMap.lookup_insert_eq_some, AList.lookup_empty] at h
  rcases h with ⟨rfl, rfl⟩ | ⟨-, ⟨rfl, rfl⟩ | ⟨-, ⟨rfl, rfl⟩ | ⟨-, h⟩⟩⟩
  · exact ⟨by decide, rfl, rfl, rfl⟩
  · exact ⟨by decide, rfl, rfl, rfl⟩
  · exact ⟨by decide, rfl, rfl, rfl⟩
  · cases h

/-- **The initial table has the properties**. -/
theorem tableValid_initialTable (stdIn stdOut stdErr : VFD) (rootFD : Option VFD) :
    TableValid rootFD.isSome (initialTable stdIn stdOut stdErr rootFD) := by
  -- the stdio rights are among those a directory passes on
  have hstdio : ∀ fd fde, (stdioTable stdIn stdOut stdErr).lookup fd = some fde →
      Covers inheritingDirectoryRights fde.rights ∧
        Covers inheritingDirectoryRights fde.inheritingRights := by
    intro fd fde h
    obtain ⟨-, hr, hir, -⟩ := lookup_stdioTable h
    rw [hr, hir]
    exact ⟨by decide, by decide⟩
  have hne : ∀ fd fde, (stdioTable stdIn stdOut stdErr).lookup fd = some fde → fd ≠ 3 := by
    intro fd fde h hfd
    have := (lookup_stdioTable h).1
    rw [hfd] at this
    exact absurd this (by decide)
  cases rootFD with
  | none =>
    refine ⟨hstdio, fun fd fde h => ?_, fun h => by cases h⟩
    rw [(lookup_stdioTable h).2.2.2]
    exact ⟨fun h => (by cases h), fun hfd => absurd hfd (hne fd fde h)⟩
  | some rootFD =>
    refine ⟨fun fd fde h => ?_, fun fd fde h => ?_, fun _ => ⟨_, AList.lookup_insert _, rfl⟩⟩
    all_goals
      simp only [initialTable, FiniteMap.lookup_insert_eq_some] at h
      rcases h with ⟨rfl, rfl⟩ | ⟨hfd, h⟩
    · exact ⟨covers_or_left _ _, covers_refl _⟩
    · exact hstdio fd fde h
    · exact ⟨fun _ => rfl, fun _ => rfl⟩
    · rw [(lookup_stdioTable h).2.2.2]
      exact ⟨fun h => (by cases h), fun h3 => absurd h3 hfd⟩

end TableValid

/-! ## Valid processes -/

variable (getKeyHash : FD → Uptr)

/-- **A valid process**: its table refines a finite map with the properties, over the fds
`0` to `INT32_MAX`. -/
structure Process.Valid (process : Process VFD) (a : FdTable VFD) : Prop where
  fds : IndexMap.Refines getKeyHash process.fds a
  minIndex_eq : process.fds.minIndex = 0
  maxIndex_eq : process.fds.maxIndex = int32Max
  table : TableValid process.hasFileSystem a

variable {getKeyHash}

section Valid

variable {process : Process VFD} {a : FdTable VFD}

/-- A process with another table over the same fds, refining a finite map with the
properties, is valid. -/
theorem Process.Valid.with_fds {fds : IndexMap FD (FDE VFD)} {a' : FdTable VFD}
    (hfds : IndexMap.Refines getKeyHash fds a') (hmin : fds.minIndex = 0)
    (hmax : fds.maxIndex = int32Max) (ht : TableValid process.hasFileSystem a') :
    Process.Valid getKeyHash { process with fds } a' :=
  ⟨hfds, hmin, hmax, ht⟩

/-- An fd up to `INT32_MAX` is in the range of a table over `[0, INT32_MAX]`. -/
theorem mem_range_of_toNat_le {fds : IndexMap FD (FDE VFD)} (hmin : fds.minIndex = 0)
    (hmax : fds.maxIndex = int32Max) {fd : FD} (hfd : fd.toNat ≤ int32Max.toNat) :
    toNat fds.minIndex ≤ toNat fd ∧ toNat fd ≤ toNat fds.maxIndex := by
  rw [hmin, hmax]
  exact ⟨Nat.zero_le _, hfd⟩

/-- **The process `WASI::run` builds is valid**, over the initial table. -/
theorem valid_initialProcess (stdIn stdOut stdErr : VFD) (rootFD : Option VFD) :
    Process.Valid getKeyHash (initialProcess getKeyHash stdIn stdOut stdErr rootFD)
      (initialTable stdIn stdOut stdErr rootFD) := by
  have h₀ : IndexMap.Refines getKeyHash (IndexMap.init 0 int32Max : IndexMap FD (FDE VFD)) ∅ :=
    IndexMap.refines_init (by decide) (by decide) (by decide)
  have htable := tableValid_initialTable stdIn stdOut stdErr rootFD
  -- the fds `0` to `3` are inserted in turn, each in the range of the table
  cases rootFD with
  | none =>
    refine ⟨?_, by simp [initialProcess], by simp [initialProcess], htable⟩
    refine ((h₀.insertOrFail ?_ _).insertOrFail ?_ _).insertOrFail ?_ _
    all_goals exact mem_range_of_toNat_le (by simp) (by simp) (by decide)
  | some rootFD =>
    refine ⟨?_, by simp [initialProcess], by simp [initialProcess], htable⟩
    refine (((h₀.insertOrFail ?_ _).insertOrFail ?_ _).insertOrFail ?_ _).insertOrFail ?_ _
    all_goals exact mem_range_of_toNat_le (by simp) (by simp) (by decide)

/-- A bound fd is one of `0` to `INT32_MAX`. -/
theorem Process.Valid.toNat_le (hv : Process.Valid getKeyHash process a) {fd : FD} (hfd : fd ∈ a) :
    fd.toNat ≤ int32Max.toNat := by
  have h := (hv.fds.keys_mem fd hfd).2
  rw [hv.maxIndex_eq] at h
  exact h

/-- **`validateFD` finds a bound fd that holds the rights asked for**, and only such a one. -/
theorem Process.Valid.validateFD_eq_ok_iff (hv : Process.Valid getKeyHash process a) {fd : FD}
    {requiredRights requiredInheritingRights : Rights} {fde : FDE VFD} :
    validateFD getKeyHash process fd requiredRights requiredInheritingRights = .ok fde ↔
      a.lookup fd = some fde ∧ Covers fde.rights requiredRights ∧
        Covers fde.inheritingRights requiredInheritingRights := by
  unfold validateFD IndexMap.getMinIndex IndexMap.getMaxIndex
  rw [hv.fds.get_eq, hv.minIndex_eq, hv.maxIndex_eq]
  by_cases hrange : fd < 0 ∨ fd > int32Max
  · -- out of range: no key of the map is there
    rw [if_pos hrange]
    refine ⟨fun h => (by cases h), fun ⟨hlookup, _⟩ => ?_⟩
    have hle := hv.toNat_le (AList.lookup_isSome.1 (by rw [hlookup]; rfl))
    rcases hrange with hlt | hgt
    · exact (UInt32.not_lt_zero hlt).elim
    · exact absurd (UInt32.lt_iff_toNat_lt.1 hgt) (by omega)
  · rw [if_neg hrange]
    cases a.lookup fd with
    | none => exact ⟨fun h => (by cases h), fun ⟨h, _⟩ => by cases h⟩
    | some fde' =>
      dsimp only
      unfold Covers
      by_cases hcheck : (fde'.rights &&& requiredRights) ≠ requiredRights ∨
          (fde'.inheritingRights &&& requiredInheritingRights) ≠ requiredInheritingRights
      · rw [if_pos hcheck]
        refine ⟨fun h => (by cases h), fun ⟨h, hr, hir⟩ => ?_⟩
        obtain rfl := Option.some.inj h
        rcases hcheck with hc | hc
        · exact absurd hr hc
        · exact absurd hir hc
      · rw [if_neg hcheck]
        simp only [ne_eq, not_or, not_not] at hcheck
        exact ⟨fun h => (by cases h; exact ⟨rfl, hcheck⟩), fun ⟨h, _⟩ => by rw [Option.some.inj h]⟩

/-- `validateFD` of an fd that is not bound is `EBADF`. -/
theorem Process.Valid.validateFD_of_lookup_eq_none (hv : Process.Valid getKeyHash process a)
    {fd : FD} (h : a.lookup fd = none) (requiredRights requiredInheritingRights : Rights) :
    validateFD getKeyHash process fd requiredRights requiredInheritingRights = .error .ebadf := by
  unfold validateFD
  rw [hv.fds.get_eq, h]
  split_ifs <;> rfl

/-- `validateFD` fails with `EBADF` or `ENOTCAPABLE`, never with `ESUCCESS`. -/
theorem validateFD_error_ne {process : Process VFD} {fd : FD} {requiredRights requiredInheritingRights : Rights}
    {e : Errno} (h : validateFD getKeyHash process fd requiredRights requiredInheritingRights = .error e) :
    e ≠ .esuccess := by
  unfold validateFD at h
  split_ifs at h
  · cases h
    decide
  · split at h
    · cases h
      decide
    · split_ifs at h
      cases h
      decide

/-! ### `fd_close`, `fd_renumber` and `fd_fdstat_set_rights` -/

/-- An error code of a VFS result other than success is not `ESUCCESS`. -/
theorem asWASIErrNo_ne_esuccess {result : Result} (h : result ≠ .success) :
    asWASIErrNo result ≠ .esuccess :=
  fun he => h ((asWASIErrNo_eq_esuccess_iff result).1 he)

/-- **`fd_close`** either closed the VFD of a bound fd that is not preopened, returned
`ESUCCESS` and unbound exactly that fd, or returned an error and left the process. -/
theorem Process.Valid.wasiFdClose_cases (hv : Process.Valid getKeyHash process a)
    (closeVFD : VFD → Result) (fd : FD) :
    ((wasiFdClose getKeyHash process closeVFD fd).2 = .esuccess ∧
        (∃ fde, a.lookup fd = some fde ∧ fde.isPreopened = false ∧ closeVFD fde.vfd = .success) ∧
        Process.Valid getKeyHash (wasiFdClose getKeyHash process closeVFD fd).1 (a.erase fd)) ∨
      ((wasiFdClose getKeyHash process closeVFD fd).2 ≠ .esuccess ∧
        (wasiFdClose getKeyHash process closeVFD fd).1 = process) := by
  unfold wasiFdClose
  rcases hval : validateFD getKeyHash process fd 0 0 with fdError | fde
  · exact Or.inr ⟨validateFD_error_ne hval, rfl⟩
  · obtain ⟨hlookup, -, -⟩ := hv.validateFD_eq_ok_iff.1 hval
    dsimp only
    by_cases hp : fde.isPreopened = true
    · -- a preopened descriptor is refused
      rw [if_pos hp]
      exact Or.inr ⟨by simp, rfl⟩
    · rw [if_neg hp]
      have hp' : fde.isPreopened = false := by simpa using hp
      by_cases hclose : fde.close closeVFD = .success
      · rw [if_pos hclose]
        refine Or.inl ⟨by rw [hclose]; rfl, ⟨fde, hlookup, hp', hclose⟩, ?_⟩
        exact Process.Valid.with_fds (hv.fds.removeOrFail fd)
          (by rw [IndexMap.minIndex_removeOrFail]; exact hv.minIndex_eq)
          (by rw [IndexMap.maxIndex_removeOrFail]; exact hv.maxIndex_eq) (hv.table.erase hlookup hp')
      · rw [if_neg hclose]
        exact Or.inr ⟨asWASIErrNo_ne_esuccess hclose, rfl⟩

/-- The fds of a table with two fds erased: those of the table but the two. -/
theorem lookup_erase_erase_eq_some {a : FdTable VFD} {fd₁ fd₂ fd : FD} {fde : FDE VFD}
    (h : ((a.erase fd₁).erase fd₂).lookup fd = some fde) :
    fd ≠ fd₁ ∧ fd ≠ fd₂ ∧ a.lookup fd = some fde := by
  by_cases h₂ : fd = fd₂
  · rw [h₂, AList.lookup_erase] at h
    cases h
  · rw [AList.lookup_erase_ne h₂] at h
    by_cases h₁ : fd = fd₁
    · rw [h₁, AList.lookup_erase] at h
      cases h
    · rw [AList.lookup_erase_ne h₁] at h
      exact ⟨h₁, h₂, h⟩

/-- The checks `fd_renumber(fromFD, toFD)` passes before it moves the descriptor: both fds
are bound, neither is preopened, and the VFD at `toFD` closes. -/
def RenumberChecks (a : FdTable VFD) (closeVFD : VFD → Result) (fromFD toFD : FD) : Prop :=
  ∃ fromFDE toFDE, a.lookup fromFD = some fromFDE ∧ a.lookup toFD = some toFDE ∧
    fromFDE.isPreopened = false ∧ toFDE.isPreopened = false ∧ closeVFD toFDE.vfd = .success

/-- After the checks, the descriptor of `fromFD` is inserted at `toFD` and removed from there
again, and then `fromFD` is removed: the table refines the map without both fds. -/
theorem Process.Valid.renumber (hv : Process.Valid getKeyHash process a) {fromFD toFD : FD}
    {fromFDE toFDE : FDE VFD} (hlookupFrom : a.lookup fromFD = some fromFDE)
    (hlookupTo : a.lookup toFD = some toFDE) (hpFrom : fromFDE.isPreopened = false)
    (hpTo : toFDE.isPreopened = false) :
    Process.Valid getKeyHash
      { process with
        fds := ((process.fds.insertOrFail getKeyHash toFD fromFDE).removeOrFail getKeyHash
          toFD).removeOrFail getKeyHash fromFD }
      ((a.erase toFD).erase fromFD) := by
  -- the table refines the three operations in turn; the first two cancel
  have htoRange := hv.fds.keys_mem toFD (AList.lookup_isSome.1 (by rw [hlookupTo]; rfl))
  have hremoveFrom := ((hv.fds.insertOrFail htoRange fromFDE).removeOrFail toFD).removeOrFail fromFD
  rw [FiniteMap.erase_insert_self] at hremoveFrom
  have hne₃From := hv.table.ne_three hlookupFrom hpFrom
  have hne₃To := hv.table.ne_three hlookupTo hpTo
  refine Process.Valid.with_fds hremoveFrom ?_ ?_ ?_
  · simp only [IndexMap.minIndex_removeOrFail, IndexMap.minIndex_insertOrFail]
    exact hv.minIndex_eq
  · simp only [IndexMap.maxIndex_removeOrFail, IndexMap.maxIndex_insertOrFail]
    exact hv.maxIndex_eq
  · refine hv.table.of_sub (fun fd fde h => (lookup_erase_erase_eq_some h).2.2) ?_
    rw [AList.lookup_erase_ne (Ne.symm hne₃From), AList.lookup_erase_ne (Ne.symm hne₃To)]

/-- **What `fd_renumber` does after its checks**: undefined where the insert resizes the table,
and otherwise the three operations and `ESUCCESS`. -/
theorem Process.Valid.wasiFdRenumber_of_checks (hv : Process.Valid getKeyHash process a)
    {closeVFD : VFD → Result} {fromFD toFD : FD} {fromFDE toFDE : FDE VFD}
    (hlookupFrom : a.lookup fromFD = some fromFDE) (hlookupTo : a.lookup toFD = some toFDE)
    (hpFrom : fromFDE.isPreopened = false) (hpTo : toFDE.isPreopened = false)
    (hclose : closeVFD toFDE.vfd = .success) :
    wasiFdRenumber getKeyHash process closeVFD fromFD toFD =
      if process.fds.map.table.ResizesForAdd then none
      else some ({ process with
        fds := ((process.fds.insertOrFail getKeyHash toFD fromFDE).removeOrFail getKeyHash
          toFD).removeOrFail getKeyHash fromFD }, .esuccess) := by
  unfold wasiFdRenumber
  rw [hv.validateFD_eq_ok_iff.2 ⟨hlookupFrom, UInt64.and_zero, UInt64.and_zero⟩]
  dsimp only
  rw [hv.validateFD_eq_ok_iff.2 ⟨hlookupTo, UInt64.and_zero, UInt64.and_zero⟩]
  dsimp only
  rw [if_neg (by simp [hpFrom, hpTo]), if_neg (by simp [FDE.close, hclose])]

/-- **`fd_renumber(fromFD, toFD)`** either passed its checks on a table the insert does not
resize, returned `ESUCCESS` and unbound both fds; or passed them on a table the insert resizes,
and is undefined; or returned an error and left the process. -/
theorem Process.Valid.wasiFdRenumber_cases (hv : Process.Valid getKeyHash process a)
    (closeVFD : VFD → Result) (fromFD toFD : FD) :
    (RenumberChecks a closeVFD fromFD toFD ∧ ¬ process.fds.map.table.ResizesForAdd ∧
        ∃ process', wasiFdRenumber getKeyHash process closeVFD fromFD toFD =
            some (process', .esuccess) ∧
          Process.Valid getKeyHash process' ((a.erase toFD).erase fromFD)) ∨
      (RenumberChecks a closeVFD fromFD toFD ∧ process.fds.map.table.ResizesForAdd ∧
        wasiFdRenumber getKeyHash process closeVFD fromFD toFD = none) ∨
      ∃ e, e ≠ .esuccess ∧ wasiFdRenumber getKeyHash process closeVFD fromFD toFD = some (process, e) := by
  unfold wasiFdRenumber
  rcases hfrom : validateFD getKeyHash process fromFD 0 0 with fdError | fromFDE
  · exact Or.inr (Or.inr ⟨_, validateFD_error_ne hfrom, rfl⟩)
  rcases hto : validateFD getKeyHash process toFD 0 0 with fdError | toFDE
  · exact Or.inr (Or.inr ⟨_, validateFD_error_ne hto, rfl⟩)
  obtain ⟨hlookupFrom, -, -⟩ := hv.validateFD_eq_ok_iff.1 hfrom
  obtain ⟨hlookupTo, -, -⟩ := hv.validateFD_eq_ok_iff.1 hto
  dsimp only
  by_cases hp : fromFDE.isPreopened = true ∨ toFDE.isPreopened = true
  · -- a preopened descriptor is refused
    rw [if_pos hp]
    exact Or.inr (Or.inr ⟨_, by decide, rfl⟩)
  rw [if_neg hp]
  simp only [not_or, Bool.not_eq_true] at hp
  obtain ⟨hpFrom, hpTo⟩ := hp
  by_cases hclose : toFDE.close closeVFD ≠ .success
  · rw [if_pos hclose]
    exact Or.inr (Or.inr ⟨_, asWASIErrNo_ne_esuccess hclose, rfl⟩)
  rw [if_neg hclose]
  simp only [ne_eq, not_not] at hclose
  have hchecks : RenumberChecks a closeVFD fromFD toFD :=
    ⟨fromFDE, toFDE, hlookupFrom, hlookupTo, hpFrom, hpTo, hclose⟩
  by_cases hresize : process.fds.map.table.ResizesForAdd
  · -- the insert frees the buckets `fromFDE` points into
    rw [if_pos hresize]
    exact Or.inr (Or.inl ⟨hchecks, hresize, rfl⟩)
  · rw [if_neg hresize]
    exact Or.inl ⟨hchecks, hresize, _, rfl, hv.renumber hlookupFrom hlookupTo hpFrom hpTo⟩

/-- **`fd_fdstat_set_rights`** either narrowed the rights of a bound fd to ones it held and
returned `ESUCCESS`, or returned an error and left the process. -/
theorem Process.Valid.wasiFdFdstatSetRights_cases (hv : Process.Valid getKeyHash process a)
    (fd : FD) (rights inheritingRights : Rights) :
    ((wasiFdFdstatSetRights getKeyHash process fd rights inheritingRights).2 = .esuccess ∧
        ∃ fde, a.lookup fd = some fde ∧ Covers fde.rights rights ∧
          Covers fde.inheritingRights inheritingRights ∧
          Process.Valid getKeyHash (wasiFdFdstatSetRights getKeyHash process fd rights inheritingRights).1
            (a.insert fd { fde with rights, inheritingRights })) ∨
      ((wasiFdFdstatSetRights getKeyHash process fd rights inheritingRights).2 ≠ .esuccess ∧
        (wasiFdFdstatSetRights getKeyHash process fd rights inheritingRights).1 = process) := by
  unfold wasiFdFdstatSetRights
  rcases hval : validateFD getKeyHash process fd rights inheritingRights with fdError | fde
  · exact Or.inr ⟨validateFD_error_ne hval, rfl⟩
  obtain ⟨hlookup, hr, hir⟩ := hv.validateFD_eq_ok_iff.1 hval
  have hmem : fd ∈ a := AList.lookup_isSome.1 (by rw [hlookup]; rfl)
  refine Or.inl ⟨rfl, fde, hlookup, hr, hir, ?_⟩
  exact Process.Valid.with_fds (hv.fds.writeElement hmem _)
    (by rw [IndexMap.minIndex_writeElement]; exact hv.minIndex_eq)
    (by rw [IndexMap.maxIndex_writeElement]; exact hv.maxIndex_eq) (hv.table.narrow hlookup hr hir)

/-! ### `path_open` -/

/-- The flags of the new VFD only add to the rights they are given. -/
theorem covers_translateWASIVFDFlags (fdFlags : FDFlags) (outRequiredRights : Rights) :
    Covers (translateWASIVFDFlags fdFlags outRequiredRights).2 outRequiredRights := by
  unfold translateWASIVFDFlags
  -- the `DSYNC` flag may add `FD_DATASYNC`, then the `SYNC` flag `FD_SYNC`
  split_ifs <;> dsimp only
  all_goals first
    | exact covers_refl _
    | exact (covers_refl _).mono_or _
    | exact ((covers_refl _).mono_or _).mono_or _

/-- **The rights `path_open` asks the directory to pass on** include the rights and the
inheriting rights of the new descriptor. -/
theorem covers_pathOpenDirInheritingRights (openFlags : OFlags)
    (requestedRights requestedInheritingRights : Rights) (fdFlags : FDFlags) :
    Covers (pathOpenDirInheritingRights openFlags requestedRights requestedInheritingRights fdFlags)
      (requestedRights ||| requestedInheritingRights) := by
  unfold pathOpenDirInheritingRights
  split_ifs
  · exact (covers_translateWASIVFDFlags _ _).mono_or _
  · exact covers_translateWASIVFDFlags _ _

/-- A path passes `validatePath` only in a process with a file system, relative to a
directory that holds the rights asked for. -/
theorem validatePath_eq_ok {process : Process VFD} {memory : Memory QuotaId} {bytes : ℕ → UInt8}
    {dirFD : FD} {requiredDirRights requiredDirInheritingRights : Rights}
    {pathAddress numPathBytes : UInt32} {canonicalPath : List Char}
    (h : validatePath getKeyHash process memory bytes dirFD requiredDirRights
      requiredDirInheritingRights pathAddress numPathBytes = .ok canonicalPath) :
    process.hasFileSystem = true ∧ ∃ dirFDE, validateFD getKeyHash process dirFD
      requiredDirRights requiredDirInheritingRights = .ok dirFDE := by
  unfold validatePath at h
  by_cases hfs : process.hasFileSystem = true
  · rw [if_neg (by simp [hfs])] at h
    refine ⟨hfs, ?_⟩
    rcases hdir : validateFD getKeyHash process dirFD requiredDirRights requiredDirInheritingRights
      with fdError | dirFDE
    · rw [hdir] at h
      cases h
    · exact ⟨dirFDE, rfl⟩
  · rw [if_pos (by simpa using hfs)] at h
    cases h

/-- `validatePath` fails with an error other than `ESUCCESS`. -/
theorem validatePath_error_ne {process : Process VFD} {memory : Memory QuotaId}
    {bytes : ℕ → UInt8} {dirFD : FD} {requiredDirRights requiredDirInheritingRights : Rights}
    {pathAddress numPathBytes : UInt32} {e : Errno}
    (h : validatePath getKeyHash process memory bytes dirFD requiredDirRights
      requiredDirInheritingRights pathAddress numPathBytes = .error e) : e ≠ .esuccess := by
  unfold validatePath at h
  by_cases hfs : process.hasFileSystem = true
  · rw [if_neg (by simp [hfs])] at h
    rcases hdir : validateFD getKeyHash process dirFD requiredDirRights requiredDirInheritingRights
      with fdError | dirFDE
    · rw [hdir] at h
      cases h
      exact validateFD_error_ne hdir
    rw [hdir] at h
    dsimp only at h
    -- the path is out of guest memory, or escapes the directory
    split at h
    · cases h
      simp
    split at h
    · cases h
      simp
    · cases h
  · rw [if_pos (by simpa using hfs)] at h
    cases h
    simp

/-- An fd `IndexMap::add` allocates in a valid process is one of `0` to `INT32_MAX`, so it is
not `UINT32_MAX`, the `failIndex` of `path_open`. -/
theorem Process.Valid.ne_uint32Max_of_add (hv : Process.Valid getKeyHash process a)
    {fde : FDE VFD} {fds : IndexMap FD (FDE VFD)} {fd : FD}
    (hadd : process.fds.add getKeyHash uint32Max fde = some (fds, fd)) : fd ≠ uint32Max := by
  obtain ⟨-, -, hhi, -⟩ := hv.fds.add_of_eq_some hadd
  rw [hv.maxIndex_eq] at hhi
  rintro rfl
  exact absurd hhi (by decide)

/-- **Binding the fd `IndexMap::add` allocates**, in a valid process with a file system, to a
descriptor that is not preopened and holds rights a directory may pass on: the fd was not
bound, and the process is valid over the table with it bound. -/
theorem Process.Valid.add_fresh (hv : Process.Valid getKeyHash process a)
    (hfs : process.hasFileSystem = true) {failIndex : FD} {fde : FDE VFD}
    {fds : IndexMap FD (FDE VFD)} {fd : FD}
    (hadd : process.fds.add getKeyHash failIndex fde = some (fds, fd))
    (hp : fde.isPreopened = false)
    (hrights : Covers inheritingDirectoryRights fde.rights ∧
      Covers inheritingDirectoryRights fde.inheritingRights) :
    fd ∉ a ∧ Process.Valid getKeyHash { process with fds } (a.insert fd fde) := by
  obtain ⟨hfresh, -, -, hmin, hmax, hrefines⟩ := hv.fds.add_of_eq_some hadd
  exact ⟨hfresh, Process.Valid.with_fds hrefines (by rw [hmin]; exact hv.minIndex_eq)
    (by rw [hmax]; exact hv.maxIndex_eq) (hv.table.insert_fresh hfs hfresh hp hrights)⟩

/-- **`path_open`** either returned an error and left the process, or bound an fd that was
not bound before to a new descriptor that is not preopened, whose rights and inheriting
rights the directory passes on; it then returned `ESUCCESS`, or trapped writing the fd to
guest memory. -/
theorem Process.Valid.wasiPathOpen_cases (hv : Process.Valid getKeyHash process a)
    {memory : Memory QuotaId} {bytes : ℕ → UInt8}
    {openFile : List Char → FileAccessMode → FileCreateMode → VFDFlags → Result × VFD}
    {closeVFD : VFD → Result} {dirFD : FD} {pathAddress numPathBytes : UInt32}
    {openFlags : OFlags} {requestedRights requestedInheritingRights : Rights}
    {fdFlags : FDFlags} {fdAddress : UInt32} {process' : Process VFD}
    {result : Except ExceptionType Errno}
    (h : wasiPathOpen getKeyHash process memory bytes openFile closeVFD dirFD pathAddress
      numPathBytes openFlags requestedRights requestedInheritingRights fdFlags fdAddress =
        some (process', result)) :
    (process' = process ∧ ∃ e, result = .ok e ∧ e ≠ .esuccess) ∨
      ∃ dirFDE fd fde, a.lookup dirFD = some dirFDE ∧
        Covers dirFDE.inheritingRights requestedRights ∧
        Covers dirFDE.inheritingRights requestedInheritingRights ∧ fd ∉ a ∧
        fde.rights = requestedRights ∧ fde.inheritingRights = requestedInheritingRights ∧
        fde.isPreopened = false ∧ Process.Valid getKeyHash process' (a.insert fd fde) ∧
        (result = .ok .esuccess ∨ ∃ exception, result = .error exception) := by
  unfold wasiPathOpen at h
  rcases hcm : createModeOf openFlags with _ | createMode
  · -- an undefined combination of open flags
    rw [hcm] at h
    obtain ⟨rfl, rfl⟩ := Prod.mk.inj (Option.some.inj h).symm
    exact Or.inl ⟨rfl, _, rfl, by simp⟩
  rw [hcm] at h
  dsimp only at h
  rcases hpath : validatePath getKeyHash process memory bytes dirFD (pathOpenDirRights openFlags)
      (pathOpenDirInheritingRights openFlags requestedRights requestedInheritingRights fdFlags)
      pathAddress numPathBytes with pathError | canonicalPath
  · rw [hpath] at h
    obtain ⟨rfl, rfl⟩ := Prod.mk.inj (Option.some.inj h).symm
    exact Or.inl ⟨rfl, pathError, rfl, validatePath_error_ne hpath⟩
  rw [hpath] at h
  dsimp only at h
  -- the directory holds every right the new descriptor is given
  obtain ⟨hfs, dirFDE, hdir⟩ := validatePath_eq_ok hpath
  obtain ⟨hlookupDir, -, hcovers⟩ := hv.validateFD_eq_ok_iff.1 hdir
  obtain ⟨hcr, hcir⟩ := (hcovers.trans (covers_pathOpenDirInheritingRights _ _ _ _)).of_or
  obtain ⟨-, hdirInheriting⟩ := hv.table.rights_covered dirFD dirFDE hlookupDir
  split at h
  · next hopen =>
    obtain ⟨rfl, rfl⟩ := Prod.mk.inj (Option.some.inj h).symm
    exact Or.inl ⟨rfl, _, rfl, asWASIErrNo_ne_esuccess hopen⟩
  split at h
  · cases h
  next fds fd hadd =>
  obtain ⟨hfresh, hvalid⟩ :=
    hv.add_fresh hfs hadd rfl ⟨hdirInheriting.trans hcr, hdirInheriting.trans hcir⟩
  rw [if_neg (hv.ne_uint32Max_of_add hadd)] at h
  split at h
  · next exception hmem =>
    obtain ⟨rfl, rfl⟩ := Prod.mk.inj (Option.some.inj h).symm
    exact Or.inr ⟨dirFDE, fd, _, hlookupDir, hcr, hcir, hfresh, rfl, rfl, rfl, hvalid,
      Or.inr ⟨exception, rfl⟩⟩
  · obtain ⟨rfl, rfl⟩ := Prod.mk.inj (Option.some.inj h).symm
    exact Or.inr ⟨dirFDE, fd, _, hlookupDir, hcr, hcir, hfresh, rfl, rfl, rfl, hvalid, Or.inl rfl⟩

/-- **`path_open` fails to return only when every fd is bound**: its allocation loop then runs
forever, as the test `map.size() > maxIndex - minIndex + 1` of `IndexMap::add` does not catch
a full table. -/
theorem Process.Valid.wasiPathOpen_eq_none (hv : Process.Valid getKeyHash process a)
    {memory : Memory QuotaId} {bytes : ℕ → UInt8}
    {openFile : List Char → FileAccessMode → FileCreateMode → VFDFlags → Result × VFD}
    {closeVFD : VFD → Result} {dirFD : FD} {pathAddress numPathBytes : UInt32}
    {openFlags : OFlags} {requestedRights requestedInheritingRights : Rights}
    {fdFlags : FDFlags} {fdAddress : UInt32}
    (h : wasiPathOpen getKeyHash process memory bytes openFile closeVFD dirFD pathAddress
      numPathBytes openFlags requestedRights requestedInheritingRights fdFlags fdAddress = none) :
    ∀ fd : FD, fd.toNat ≤ int32Max.toNat → fd ∈ a := by
  unfold wasiPathOpen at h
  rcases hcm : createModeOf openFlags with _ | createMode
  · rw [hcm] at h
    cases h
  rw [hcm] at h
  dsimp only at h
  rcases hpath : validatePath getKeyHash process memory bytes dirFD (pathOpenDirRights openFlags)
      (pathOpenDirInheritingRights openFlags requestedRights requestedInheritingRights fdFlags)
      pathAddress numPathBytes with pathError | canonicalPath
  · rw [hpath] at h
    cases h
  rw [hpath] at h
  dsimp only at h
  split at h
  · cases h
  split at h
  · next hadd =>
    intro fd hfd
    refine (hv.fds.add_eq_none_iff uint32Max _).1 hadd fd (by rw [hv.minIndex_eq]; exact Nat.zero_le _) ?_
    rw [hv.maxIndex_eq]
    exact hfd
  next fds fd hadd =>
  rw [if_neg (hv.ne_uint32Max_of_add hadd)] at h
  split at h <;> cases h

/-- **A path that gets through `validatePath`**: in a process with a file system, relative to
a directory that holds the rights asked for, a path read from guest memory that stays within
the directory's path. -/
theorem validatePath_eq_ok_of {memory : Memory QuotaId} {bytes : ℕ → UInt8} {dirFD : FD}
    {requiredDirRights requiredDirInheritingRights : Rights} {pathAddress numPathBytes : UInt32}
    {dirFDE : FDE VFD} {relativePath canonicalPath : List Char}
    (hfs : process.hasFileSystem = true)
    (hdir : validateFD getKeyHash process dirFD requiredDirRights requiredDirInheritingRights =
      .ok dirFDE)
    (hread : readUserString memory bytes pathAddress numPathBytes = some relativePath)
    (hcanonical : getCanonicalPath dirFDE.originalPath relativePath = some canonicalPath) :
    validatePath getKeyHash process memory bytes dirFD requiredDirRights
      requiredDirInheritingRights pathAddress numPathBytes = .ok canonicalPath := by
  unfold validatePath
  rw [if_neg (by simp [hfs]), hdir]
  dsimp only
  rw [hread]
  dsimp only
  rw [hcanonical]

/-- **A `path_open` that gets through**: with defined open flags, a path that passes
`validatePath`, a VFD the file system opened, the fd `IndexMap::add` allocated and an fd
address in guest memory, `path_open` takes the table `add` returns and `ESUCCESS`. -/
theorem Process.Valid.wasiPathOpen_eq_ok (hv : Process.Valid getKeyHash process a)
    {memory : Memory QuotaId} {bytes : ℕ → UInt8}
    {openFile : List Char → FileAccessMode → FileCreateMode → VFDFlags → Result × VFD}
    {closeVFD : VFD → Result} {dirFD : FD} {pathAddress numPathBytes : UInt32}
    {openFlags : OFlags} {requestedRights requestedInheritingRights : Rights}
    {fdFlags : FDFlags} {fdAddress : UInt32} {createMode : FileCreateMode}
    {canonicalPath : List Char} {vfd : VFD} {fds : IndexMap FD (FDE VFD)} {fd : FD}
    (hcreate : createModeOf openFlags = some createMode)
    (hpath : validatePath getKeyHash process memory bytes dirFD (pathOpenDirRights openFlags)
      (pathOpenDirInheritingRights openFlags requestedRights requestedInheritingRights fdFlags)
      pathAddress numPathBytes = .ok canonicalPath)
    (hopen : openFile canonicalPath (accessModeOf requestedRights) createMode
      (translateWASIVFDFlags fdFlags (requestedRights ||| requestedInheritingRights)).1 =
        (.success, vfd))
    (hadd : process.fds.add getKeyHash uint32Max
      ⟨vfd, requestedRights, requestedInheritingRights, canonicalPath, false⟩ = some (fds, fd))
    (hmem : ∃ offset, memoryRef memory 4 fdAddress.toUInt64 = .ok offset) :
    wasiPathOpen getKeyHash process memory bytes openFile closeVFD dirFD pathAddress
      numPathBytes openFlags requestedRights requestedInheritingRights fdFlags fdAddress =
        some ({ process with fds }, .ok .esuccess) := by
  obtain ⟨offset, hmem⟩ := hmem
  unfold wasiPathOpen
  rw [hcreate]
  dsimp only
  rw [hpath]
  dsimp only
  rw [hopen]
  dsimp only
  rw [if_neg (by simp), hadd]
  dsimp only
  rw [if_neg (hv.ne_uint32Max_of_add hadd), hmem]

/-- **`fd_renumber` returns `ESUCCESS` exactly when** it passes its checks on a table the
insert does not resize. -/
theorem Process.Valid.wasiFdRenumber_eq_esuccess_iff (hv : Process.Valid getKeyHash process a)
    (closeVFD : VFD → Result) (fromFD toFD : FD) :
    (∃ process', wasiFdRenumber getKeyHash process closeVFD fromFD toFD = some (process', .esuccess)) ↔
      RenumberChecks a closeVFD fromFD toFD ∧ ¬ process.fds.map.table.ResizesForAdd := by
  constructor
  · rintro ⟨process', h⟩
    rcases hv.wasiFdRenumber_cases closeVFD fromFD toFD with
      ⟨hchecks, hresize, -⟩ | ⟨-, -, hnone⟩ | ⟨e, hne, hsome⟩
    · exact ⟨hchecks, hresize⟩
    · rw [hnone] at h
      cases h
    · rw [hsome] at h
      cases h
      exact absurd rfl hne
  · rintro ⟨⟨fromFDE, toFDE, hfrom, hto, hpFrom, hpTo, hclose⟩, hresize⟩
    rw [hv.wasiFdRenumber_of_checks hfrom hto hpFrom hpTo hclose, if_neg hresize]
    exact ⟨_, rfl⟩

/-- **`fd_renumber` is undefined exactly when** it passes its checks on a table the insert
resizes. -/
theorem Process.Valid.wasiFdRenumber_eq_none_iff (hv : Process.Valid getKeyHash process a)
    (closeVFD : VFD → Result) (fromFD toFD : FD) :
    wasiFdRenumber getKeyHash process closeVFD fromFD toFD = none ↔
      RenumberChecks a closeVFD fromFD toFD ∧ process.fds.map.table.ResizesForAdd := by
  constructor
  · intro h
    rcases hv.wasiFdRenumber_cases closeVFD fromFD toFD with
      ⟨-, -, _, hsome, -⟩ | ⟨hchecks, hresize, -⟩ | ⟨_, -, hsome⟩
    · rw [hsome] at h
      cases h
    · exact ⟨hchecks, hresize⟩
    · rw [hsome] at h
      cases h
  · rintro ⟨⟨fromFDE, toFDE, hfrom, hto, hpFrom, hpTo, hclose⟩, hresize⟩
    rw [hv.wasiFdRenumber_of_checks hfrom hto hpFrom hpTo hclose, if_pos hresize]

/-! ### Runs -/

/-- **A syscall keeps a process valid**: after one that returns, the process is valid over
some table. -/
theorem Process.Valid.syscall (hv : Process.Valid getKeyHash process a)
    {call : Syscall QuotaId VFD} {process' : Process VFD} {result : Except ExceptionType Errno}
    (h : syscall getKeyHash process call = some (process', result)) :
    ∃ a' : FdTable VFD, Process.Valid getKeyHash process' a' := by
  cases call with
  | pathOpen memory bytes openFile closeVFD dirFD pathAddress numPathBytes openFlags
      requestedRights requestedInheritingRights fdFlags fdAddress =>
    rcases hv.wasiPathOpen_cases h with ⟨rfl, -⟩ | ⟨_, _, _, -, -, -, -, -, -, -, hvalid, -⟩
    · exact ⟨a, hv⟩
    · exact ⟨_, hvalid⟩
  | fdClose closeVFD fd =>
    obtain ⟨rfl, -⟩ := Prod.mk.inj (Option.some.inj h).symm
    rcases hv.wasiFdClose_cases closeVFD fd with ⟨-, -, hvalid⟩ | ⟨-, hsame⟩
    · exact ⟨_, hvalid⟩
    · rw [hsame]
      exact ⟨a, hv⟩
  | fdRenumber closeVFD fromFD toFD =>
    obtain ⟨renumbered, hrenumber, hresult⟩ := Option.map_eq_some_iff.1 h
    obtain ⟨rfl, -⟩ := Prod.mk.inj hresult
    rcases hv.wasiFdRenumber_cases closeVFD fromFD toFD with
      ⟨-, -, _, hsome, hvalid⟩ | ⟨-, -, hnone⟩ | ⟨_, -, hsome⟩
    · rw [hsome] at hrenumber
      cases hrenumber
      exact ⟨_, hvalid⟩
    · rw [hnone] at hrenumber
      cases hrenumber
    · rw [hsome] at hrenumber
      cases hrenumber
      exact ⟨a, hv⟩
  | fdFdstatSetRights fd rights inheritingRights =>
    obtain ⟨rfl, -⟩ := Prod.mk.inj (Option.some.inj h).symm
    rcases hv.wasiFdFdstatSetRights_cases fd rights inheritingRights with
      ⟨-, _, -, -, -, hvalid⟩ | ⟨-, hsame⟩
    · exact ⟨_, hvalid⟩
    · rw [hsame]
      exact ⟨a, hv⟩

end Valid

/-- **Every reachable process is valid**: its table refines a finite map with the three
properties. -/
theorem valid_of_reachable {process : Process VFD}
    (h : @Reachable QuotaId VFD getKeyHash process) :
    ∃ a : FdTable VFD, Process.Valid getKeyHash process a := by
  induction h with
  | init stdIn stdOut stdErr rootFD => exact ⟨_, valid_initialProcess stdIn stdOut stdErr rootFD⟩
  | step call _ hstep ih =>
    obtain ⟨a, hv⟩ := ih
    exact hv.syscall hstep

/-- **The root directory stays**: in every reachable process with a file system, `validateFD`
finds fd `3`, preopened. -/
theorem Reachable.validateFD_root {process : Process VFD}
    (h : @Reachable QuotaId VFD getKeyHash process) (hfs : process.hasFileSystem = true) :
    ∃ fde, validateFD getKeyHash process 3 0 0 = .ok fde ∧ fde.isPreopened = true := by
  obtain ⟨a, hv⟩ := valid_of_reachable h
  obtain ⟨fde, hlookup, hp⟩ := hv.table.root_bound hfs
  exact ⟨fde, hv.validateFD_eq_ok_iff.2 ⟨hlookup, UInt64.and_zero, UInt64.and_zero⟩, hp⟩

/-- **No descriptor gains rights**: in every reachable process, a descriptor `validateFD`
finds holds rights, and passes on rights, only among those a directory may pass on. -/
theorem Reachable.validateFD_rights {process : Process VFD}
    (h : @Reachable QuotaId VFD getKeyHash process) {fd : FD} {fde : FDE VFD}
    {requiredRights requiredInheritingRights : Rights}
    (hfd : validateFD getKeyHash process fd requiredRights requiredInheritingRights = .ok fde) :
    Covers inheritingDirectoryRights fde.rights ∧
      Covers inheritingDirectoryRights fde.inheritingRights := by
  obtain ⟨a, hv⟩ := valid_of_reachable h
  exact hv.table.rights_covered fd fde (hv.validateFD_eq_ok_iff.1 hfd).1

/-- **The table `WASI::run` builds has `minBuckets` buckets**: the first insert grows the
table, which has none, to them, and the other stdio fds and the root fit. -/
theorem numBuckets_initialProcess (stdIn stdOut stdErr : VFD) (rootFD : Option VFD) :
    (initialProcess getKeyHash stdIn stdOut stdErr rootFD).fds.map.table.numBuckets =
      DefaultHashTableAllocPolicy.minBuckets := by
  have h₀ : IndexMap.Refines getKeyHash (IndexMap.init 0 int32Max : IndexMap FD (FDE VFD)) ∅ :=
    IndexMap.refines_init (by decide) (by decide) (by decide)
  -- each insert after the first is into `minBuckets` buckets holding fewer than six fds
  have hb₂ := IndexMap.Refines.numBuckets_insertOrFail_of_minBuckets (h₀.insertOrFail
      (mem_range_of_toNat_le (by simp) (by simp) (by decide)) _)
    (IndexMap.numBuckets_init_insertOrFail 0 int32Max 0
      ⟨stdIn, stdioRights, 0, "/dev/stdin".toList, false⟩) (by simp) 1
    ⟨stdOut, stdioRights, 0, "/dev/stdout".toList, false⟩
  have hb₃ := IndexMap.Refines.numBuckets_insertOrFail_of_minBuckets ((h₀.insertOrFail
      (mem_range_of_toNat_le (by simp) (by simp) (by decide)) _).insertOrFail
      (mem_range_of_toNat_le (by simp) (by simp) (by decide)) _) hb₂ (by simp) 2
    ⟨stdErr, stdioRights, 0, "/dev/stderr".toList, false⟩
  cases rootFD with
  | none => exact hb₃
  | some rootFD =>
    exact IndexMap.Refines.numBuckets_insertOrFail_of_minBuckets (((h₀.insertOrFail
      (mem_range_of_toNat_le (by simp) (by simp) (by decide)) _).insertOrFail
      (mem_range_of_toNat_le (by simp) (by simp) (by decide)) _).insertOrFail
      (mem_range_of_toNat_le (by simp) (by simp) (by decide)) _) hb₃ (by simp) _ _

/-- **`fd_renumber` loses both descriptors**: from the process `WASI::run` builds over the
root directory, a `path_open` of `"a"` binds the fd `4` to the VFD the file system returns,
and `fd_renumber(4, 0)` then closes stdin, returns `ESUCCESS` and leaves neither fd bound,
where a renumbering would leave `0` bound to the descriptor of `4`. The five fds sit in the
`minBuckets` buckets of the table, which the insert of `fd_renumber` does not resize. -/
theorem fdRenumber_loses_descriptor (getKeyHash : FD → Uptr) :
    let memory : Memory Unit := ⟨0, ⟨false, ⟨1, 1⟩⟩, 1, none⟩
    let bytes : ℕ → UInt8 := fun i => if i = 0 then 97 else 0
    let pathOpen : Syscall Unit ℕ := .pathOpen memory bytes
      (fun _ _ _ _ => (.success, 4)) (fun _ => .success) 3 0 1 0 Right.fdRead 0 0 8
    ∃ process₁ process₂,
      run getKeyHash (initialProcess getKeyHash 0 1 2 (some 3)) [pathOpen] =
        some (process₁, [.ok .esuccess]) ∧
      validateFD getKeyHash process₁ 0 0 0 = .ok ⟨0, stdioRights, 0, "/dev/stdin".toList, false⟩ ∧
      validateFD getKeyHash process₁ 4 0 0 = .ok ⟨4, Right.fdRead, 0, ['/', 'a'], false⟩ ∧
      run getKeyHash process₁ [(.fdRenumber (fun _ => .success) 4 0 : Syscall Unit ℕ)] =
        some (process₂, [.ok .esuccess]) ∧
      validateFD getKeyHash process₂ 0 0 0 = .error .ebadf ∧
      validateFD getKeyHash process₂ 4 0 0 = .error .ebadf := by
  intro memory bytes pathOpen
  -- the process `WASI::run` builds, valid over the stdio fds and the root directory at `3`
  have hv₀ : Process.Valid getKeyHash (initialProcess getKeyHash (0 : ℕ) 1 2 (some 3))
      (initialTable 0 1 2 (some 3)) := valid_initialProcess 0 1 2 (some 3)
  have hlast₀ : (initialProcess getKeyHash (0 : ℕ) 1 2 (some 3)).fds.lastIndex = 0 - 1 := by
    simp [initialProcess]
  -- `path_open` reads `"a"` and opens `"/a"` under the root directory
  have hroot₀ : (initialTable (0 : ℕ) 1 2 (some 3)).lookup 3 =
      some ⟨3, directoryRights, inheritingDirectoryRights, "/".toList, true⟩ :=
    AList.lookup_insert _
  have hpath : validatePath getKeyHash (initialProcess getKeyHash (0 : ℕ) 1 2 (some 3)) memory
      bytes 3 (pathOpenDirRights 0) (pathOpenDirInheritingRights 0 Right.fdRead 0 0) 0 1 =
        .ok ['/', 'a'] :=
    validatePath_eq_ok_of rfl (hv₀.validateFD_eq_ok_iff.2 ⟨hroot₀, by decide, by decide⟩)
      (show readUserString memory bytes 0 1 = some ['a'] by decide) (by decide)
  -- it probes the bound fds `0` to `3` and allocates `4`
  have hiter₀ : ∀ j, (cyclicSucc (initialProcess getKeyHash (0 : ℕ) 1 2 (some 3)).fds.minIndex
      (initialProcess getKeyHash (0 : ℕ) 1 2 (some 3)).fds.maxIndex)^[j]
        (initialProcess getKeyHash (0 : ℕ) 1 2 (some 3)).fds.lastIndex =
          (cyclicSucc (0 : FD) int32Max)^[j] (0 - 1) := by
    intro j
    rw [hv₀.minIndex_eq, hv₀.maxIndex_eq, hlast₀]
  have hmem₀ : ∀ fd : FD, fd ∈ initialTable (0 : ℕ) 1 2 (some 3) ↔
      fd = 3 ∨ fd = 2 ∨ fd = 1 ∨ fd = 0 := by
    intro fd
    simp only [initialTable, stdioTable, AList.mem_insert, AList.notMem_empty, or_false]
  have hadd := hv₀.fds.add_eq_of_first uint32Max
    (⟨4, Right.fdRead, 0, ['/', 'a'], false⟩ : FDE ℕ) (show 1 ≤ 5 by decide)
    (by rw [hv₀.minIndex_eq, hv₀.maxIndex_eq]; decide)
    (by rw [hiter₀, hmem₀]; decide)
    (fun j hj hj5 => by
      rw [hiter₀, hmem₀]
      obtain rfl | rfl | rfl | rfl : j = 1 ∨ j = 2 ∨ j = 3 ∨ j = 4 := by omega
      all_goals decide)
  rw [hiter₀, show (cyclicSucc (0 : FD) int32Max)^[5] (0 - 1) = 4 by decide] at hadd
  -- the fd is written at address `8`, in the page
  have hstep : wasiPathOpen getKeyHash (initialProcess getKeyHash (0 : ℕ) 1 2 (some 3)) memory
      bytes (fun _ _ _ _ => (.success, 4)) (fun _ => .success) 3 0 1 0 Right.fdRead 0 0 8 =
        some (_, .ok .esuccess) :=
    hv₀.wasiPathOpen_eq_ok (show createModeOf 0 = some .openExisting by decide) hpath rfl hadd
      ⟨8, by decide⟩
  obtain ⟨-, hv₁⟩ := hv₀.add_fresh rfl hadd rfl ⟨by decide, by decide⟩
  -- after it, `0` holds stdin and `4` the new VFD
  have hlookup₀ : ((initialTable (0 : ℕ) 1 2 (some 3)).insert 4
      (⟨4, Right.fdRead, 0, ['/', 'a'], false⟩ : FDE ℕ)).lookup 0 =
        some ⟨0, stdioRights, 0, "/dev/stdin".toList, false⟩ := by
    decide
  have hlookup₄ : ((initialTable (0 : ℕ) 1 2 (some 3)).insert 4
      (⟨4, Right.fdRead, 0, ['/', 'a'], false⟩ : FDE ℕ)).lookup 4 =
        some ⟨4, Right.fdRead, 0, ['/', 'a'], false⟩ :=
    AList.lookup_insert _
  -- the five fds stay in the `minBuckets` buckets: the insert of `fd_renumber` does not resize
  have hbuckets := hv₀.fds.map.numBuckets_addOrFail_of_minBuckets
    (numBuckets_initialProcess 0 1 2 (some 3)) (by decide) 4 ⟨4, Right.fdRead, 0, ['/', 'a'], false⟩
  have hresize := HashTable.not_resizesForAdd_of_numBuckets_eq_minBuckets hbuckets
    (by rw [hv₁.fds.map.numElements_eq]; decide)
  -- `fd_renumber(4, 0)` closes stdin and returns `ESUCCESS`, unbinding both
  have hrenumber : wasiFdRenumber getKeyHash _ (fun _ => .success) 4 0 = _ :=
    hv₁.wasiFdRenumber_of_checks hlookup₄ hlookup₀ rfl rfl rfl
  rw [if_neg hresize] at hrenumber
  have hv₂ := hv₁.renumber hlookup₄ hlookup₀ rfl rfl
  refine ⟨_, _, ?_, hv₁.validateFD_eq_ok_iff.2 ⟨hlookup₀, UInt64.and_zero, UInt64.and_zero⟩,
    hv₁.validateFD_eq_ok_iff.2 ⟨hlookup₄, UInt64.and_zero, UInt64.and_zero⟩, ?_,
    hv₂.validateFD_of_lookup_eq_none
      (by rw [AList.lookup_erase_ne (by decide), AList.lookup_erase]) 0 0,
    hv₂.validateFD_of_lookup_eq_none (AList.lookup_erase _ _) 0 0⟩
  · rw [run, syscall, hstep]
    dsimp only
    rw [run]
  · rw [run, syscall, hrenumber, Option.map_some]
    dsimp only
    rw [run]

end Wavm.WASI
