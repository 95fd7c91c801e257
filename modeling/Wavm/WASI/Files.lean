import Wavm.Inline.IndexMap
import Wavm.Lib.BitMask
import Wavm.WASI.CanonicalPath

set_option relaxedAutoImplicit false
set_option autoImplicit false

/-!
# The file descriptor table of a WASI process

`src/Lib/WASI/WASIFile.cpp` and `WASI.cpp`: a WASI process keeps its open files in an
`IndexMap<__wasi_fd_t, FDE>` over the fds `0` to `INT32_MAX`. `WASI::run` binds the stdio fds
`0`, `1`, `2` and, with a file system, the preopened root directory at fd `3`. The syscalls
`path_open`, `fd_close`, `fd_renumber` and `fd_fdstat_set_rights` bind, unbind, move and
narrow descriptors, after `validateFD` checks the fd and the rights it must hold.

## Main definitions

* `Wavm.VFS.Result`, `Wavm.WASI.Errno` and `Wavm.WASI.asWASIErrNo` — the results of the
  virtual file system and the WASI error codes they map to.
* `Wavm.WASI.FDE`, `Wavm.WASI.Process` — a descriptor, and the process's table of them.
* `Wavm.WASI.initialProcess` — the table `WASI::run` builds.
* `Wavm.WASI.validateFD`, `Wavm.WASI.validatePath`, `Wavm.WASI.translateWASIVFDFlags`.
* `Wavm.WASI.createModeOf`, `Wavm.WASI.accessModeOf`, `Wavm.WASI.pathOpenDirRights`,
  `Wavm.WASI.pathOpenDirInheritingRights` — what `path_open` computes from its flags.
* `Wavm.WASI.wasiPathOpen`, `Wavm.WASI.wasiFdClose`, `Wavm.WASI.wasiFdRenumber`,
  `Wavm.WASI.wasiFdFdstatSetRights` — the four syscalls.
* `Wavm.WASI.Syscall`, `Wavm.WASI.syscall`, `Wavm.WASI.run`, `Wavm.WASI.Reachable` — a
  syscall with the answers of the outside world, a sequence of them, and the processes a guest
  can reach.

## Implementation notes

The virtual file system and the guest are outside the model: each syscall carries what they
answer at that call. `path_open` carries the guest memory it reads the path from and writes the
fd to, the file system's `open` and the `close` of the VFD it opened; `fd_close` and
`fd_renumber` carry the `close` of the VFD they close. A VFD is a value of any type.
`FDE::close` returns what `VFD::close` returns; the `DirEntStream` it then closes, and the
`preopenedType` of a descriptor, are not modelled. An error code is its name in `WASITypes.h`,
without its number.

A syscall returns `none` when it never returns to the guest: `path_open` when the allocation
loop of `IndexMap::add` never exits, or when `errorUnless` fails. It also returns `none` where
the source's behaviour is undefined: `fd_renumber` when the insert resizes the table and then
moves from the descriptor the resize freed. A runtime exception thrown by
a guest memory access is `Except.error`. The hash of `U32` (`XXH32_fixed`) is a parameter
`getKeyHash`, as nothing depends on it.
-/

namespace Wavm.VFS

/-- `VFS::Result`: the values of `WAVM_ENUM_VFS_RESULTS`. -/
inductive Result
  | success
  | ioPending
  | ioDeviceError
  | interruptedBySignal
  | interruptedByCancellation
  | wouldBlock
  | inaccessibleBuffer
  | invalidOffset
  | notSeekable
  | notPermitted
  | notAccessible
  | notSynchronizable
  | tooManyBufferBytes
  | notEnoughBufferBytes
  | tooManyBuffers
  | notEnoughBits
  | exceededFileSizeLimit
  | outOfSystemFDs
  | outOfProcessFDs
  | outOfMemory
  | outOfQuota
  | outOfFreeSpace
  | outOfLinksToParentDir
  | invalidNameCharacter
  | nameTooLong
  | tooManyLinksInPath
  | alreadyExists
  | doesNotExist
  | isDirectory
  | isNotDirectory
  | isNotEmpty
  | brokenPipe
  | missingDevice
  | busy
  deriving DecidableEq, Repr

/-- `VFS::FileAccessMode`. -/
inductive FileAccessMode
  | none
  | readOnly
  | writeOnly
  | readWrite
  deriving DecidableEq, Repr

/-- `VFS::FileCreateMode`. -/
inductive FileCreateMode
  | createAlways
  | createNew
  | openAlways
  | openExisting
  | truncateExisting
  deriving DecidableEq, Repr

/-- `VFS::VFDSync`. -/
inductive VFDSync
  | none
  | contentsAfterWrite
  | contentsAndMetadataAfterWrite
  | contentsAfterWriteAndBeforeRead
  | contentsAndMetadataAfterWriteAndBeforeRead
  deriving DecidableEq, Repr

/-- `VFS::VFDFlags`, with its defaults. -/
structure VFDFlags where
  append : Bool := false
  nonBlocking : Bool := false
  syncLevel : VFDSync := .none
  deriving DecidableEq, Repr

end Wavm.VFS

namespace Wavm.WASI

open Wavm.Runtime Wavm.VFS BitMask

/-! ## Types and constants of `WASITypes.h` -/

/-- `__wasi_fd_t`. -/
abbrev FD := UInt32

/-- `__wasi_rights_t`. -/
abbrev Rights := UInt64

/-- `__wasi_oflags_t`. -/
abbrev OFlags := UInt16

/-- `__wasi_fdflags_t`. -/
abbrev FDFlags := UInt16

/-- `__wasi_errno_t`: the codes the modelled syscalls return. -/
inductive Errno
  | esuccess
  | eacces
  | eagain
  | ebadf
  | ebusy
  | edquot
  | eexist
  | efault
  | efbig
  | einprogress
  | eintr
  | einval
  | eio
  | eisdir
  | eloop
  | emfile
  | emlink
  | enametoolong
  | enfile
  | enoent
  | enomem
  | enospc
  | enotdir
  | enotempty
  | enotsup
  | enxio
  | eoverflow
  | eperm
  | epipe
  | espipe
  | enotcapable
  deriving DecidableEq, Repr

/-! The `__WASI_RIGHT_*` bits. -/

namespace Right

def fdDatasync : Rights := 0x0000000000000001
def fdRead : Rights := 0x0000000000000002
def fdSeek : Rights := 0x0000000000000004
def fdFdstatSetFlags : Rights := 0x0000000000000008
def fdSync : Rights := 0x0000000000000010
def fdTell : Rights := 0x0000000000000020
def fdWrite : Rights := 0x0000000000000040
def fdAdvise : Rights := 0x0000000000000080
def fdAllocate : Rights := 0x0000000000000100
def pathCreateDirectory : Rights := 0x0000000000000200
def pathCreateFile : Rights := 0x0000000000000400
def pathLinkSource : Rights := 0x0000000000000800
def pathLinkTarget : Rights := 0x0000000000001000
def pathOpen : Rights := 0x0000000000002000
def fdReaddir : Rights := 0x0000000000004000
def pathReadlink : Rights := 0x0000000000008000
def pathRenameSource : Rights := 0x0000000000010000
def pathRenameTarget : Rights := 0x0000000000020000
def pathFilestatGet : Rights := 0x0000000000040000
def pathFilestatSetSize : Rights := 0x0000000000080000
def pathFilestatSetTimes : Rights := 0x0000000000100000
def fdFilestatGet : Rights := 0x0000000000200000
def fdFilestatSetSize : Rights := 0x0000000000400000
def fdFilestatSetTimes : Rights := 0x0000000000800000
def pathSymlink : Rights := 0x0000000001000000
def pathRemoveDirectory : Rights := 0x0000000002000000
def pathUnlinkFile : Rights := 0x0000000004000000
def pollFdReadwrite : Rights := 0x0000000008000000

end Right

/-! The `__WASI_O_*` flags. -/

namespace OFlag

def creat : OFlags := 0x0001
def excl : OFlags := 0x0004
def trunc : OFlags := 0x0008

end OFlag

/-! The `__WASI_FDFLAG_*` flags. -/

namespace FdFlag

def append : FDFlags := 0x0001
def dsync : FDFlags := 0x0002
def nonblock : FDFlags := 0x0004
def rsync : FDFlags := 0x0008
def sync : FDFlags := 0x0010

end FdFlag

/-- `REGULAR_FILE_RIGHTS`: the operations that apply to regular files. -/
def regularFileRights : Rights :=
  Right.fdDatasync ||| Right.fdRead ||| Right.fdSeek ||| Right.fdFdstatSetFlags ||| Right.fdSync |||
    Right.fdTell ||| Right.fdWrite ||| Right.fdAdvise ||| Right.fdAllocate |||
    Right.fdFilestatGet ||| Right.fdFilestatSetSize ||| Right.fdFilestatSetTimes |||
    Right.pollFdReadwrite

/-- `DIRECTORY_RIGHTS`: the operations that apply to directories. -/
def directoryRights : Rights :=
  Right.fdFdstatSetFlags ||| Right.fdSync ||| Right.fdAdvise ||| Right.pathCreateDirectory |||
    Right.pathCreateFile ||| Right.pathLinkSource ||| Right.pathLinkTarget ||| Right.pathOpen |||
    Right.fdReaddir ||| Right.pathReadlink ||| Right.pathRenameSource |||
    Right.pathRenameTarget ||| Right.pathFilestatGet ||| Right.pathFilestatSetSize |||
    Right.pathFilestatSetTimes ||| Right.fdFilestatGet ||| Right.fdFilestatSetTimes |||
    Right.pathSymlink ||| Right.pathUnlinkFile ||| Right.pathRemoveDirectory |||
    Right.pollFdReadwrite

/-- `INHERITING_DIRECTORY_RIGHTS`: what may be derived from a directory. -/
def inheritingDirectoryRights : Rights :=
  directoryRights ||| regularFileRights

/-- The `stdioRights` of `WASI::run`. -/
def stdioRights : Rights :=
  Right.fdRead ||| Right.fdFdstatSetFlags ||| Right.fdWrite ||| Right.fdFilestatGet |||
    Right.pollFdReadwrite

/-- `INT32_MAX`, the last fd, as a `__wasi_fd_t`. -/
def int32Max : FD := 0x7FFFFFFF

/-- `UINT32_MAX`, the `failIndex` of `path_open`. -/
def uint32Max : FD := 0xFFFFFFFF

/-- `asWASIErrNo`: the error code of a VFS result. -/
def asWASIErrNo : Result → Errno
  | .success => .esuccess
  | .ioPending => .einprogress
  | .ioDeviceError => .eio
  | .interruptedBySignal => .eintr
  | .interruptedByCancellation => .eintr
  | .wouldBlock => .eagain
  | .inaccessibleBuffer => .efault
  | .invalidOffset => .einval
  | .notSeekable => .espipe
  | .notPermitted => .eperm
  | .notAccessible => .eacces
  | .notSynchronizable => .einval
  | .tooManyBufferBytes => .einval
  | .notEnoughBufferBytes => .einval
  | .tooManyBuffers => .einval
  | .notEnoughBits => .eoverflow
  | .exceededFileSizeLimit => .efbig
  | .outOfSystemFDs => .enfile
  | .outOfProcessFDs => .emfile
  | .outOfMemory => .enomem
  | .outOfQuota => .edquot
  | .outOfFreeSpace => .enospc
  | .outOfLinksToParentDir => .emlink
  | .invalidNameCharacter => .eacces
  | .nameTooLong => .enametoolong
  | .tooManyLinksInPath => .eloop
  | .alreadyExists => .eexist
  | .doesNotExist => .enoent
  | .isDirectory => .eisdir
  | .isNotDirectory => .enotdir
  | .isNotEmpty => .enotempty
  | .brokenPipe => .epipe
  | .missingDevice => .enxio
  | .busy => .ebusy

/-- Only success maps to `ESUCCESS`. -/
theorem asWASIErrNo_eq_esuccess_iff (result : Result) :
    asWASIErrNo result = .esuccess ↔ result = .success := by
  cases result <;> decide

/-! ## Descriptors and the process -/

/-- `WASI::FDE`: the VFD, the rights of the descriptor and those it passes on to what is
opened from it, the path it was opened with, and whether it was preopened. -/
structure FDE (VFD : Type) where
  vfd : VFD
  rights : Rights
  inheritingRights : Rights
  originalPath : List Char
  isPreopened : Bool := false
  deriving DecidableEq, Repr

/-- `FDE::close`: the result of closing the VFD. -/
def FDE.close {VFD : Type} (closeVFD : VFD → Result) (fde : FDE VFD) : Result :=
  closeVFD fde.vfd

/-- `WASI::Process`: its table of descriptors, and whether it has a file system. -/
structure Process (VFD : Type) where
  fds : IndexMap FD (FDE VFD)
  hasFileSystem : Bool

variable {QuotaId VFD : Type} (getKeyHash : FD → Uptr)

/-- The table `WASI::run` builds: the stdio fds, and with a file system (the VFD of its root
directory) the preopened root at fd `3`. -/
def initialProcess (stdIn stdOut stdErr : VFD) (rootFD : Option VFD) : Process VFD :=
  let fds : IndexMap FD (FDE VFD) := IndexMap.init 0 int32Max
  let fds := fds.insertOrFail getKeyHash 0 ⟨stdIn, stdioRights, 0, "/dev/stdin".toList, false⟩
  let fds := fds.insertOrFail getKeyHash 1 ⟨stdOut, stdioRights, 0, "/dev/stdout".toList, false⟩
  let fds := fds.insertOrFail getKeyHash 2 ⟨stdErr, stdioRights, 0, "/dev/stderr".toList, false⟩
  match rootFD with
  | none => ⟨fds, false⟩
  | some rootFD =>
    ⟨fds.insertOrFail getKeyHash 3
      ⟨rootFD, directoryRights, inheritingDirectoryRights, "/".toList, true⟩, true⟩

/-! ## Checks -/

/-- `validateFD`: the descriptor of a bound fd that holds the required rights. -/
def validateFD (process : Process VFD) (fd : FD) (requiredRights requiredInheritingRights : Rights) :
    Except Errno (FDE VFD) :=
  if fd < process.fds.getMinIndex ∨ fd > process.fds.getMaxIndex then .error .ebadf
  else
    match process.fds.get getKeyHash fd with
    | none => .error .ebadf
    | some fde =>
      if (fde.rights &&& requiredRights) ≠ requiredRights ∨
          (fde.inheritingRights &&& requiredInheritingRights) ≠ requiredInheritingRights then
        .error .enotcapable
      else .ok fde

/-- `validatePath`: the path read from guest memory, joined to the directory's path. -/
def validatePath (process : Process VFD) (memory : Memory QuotaId) (bytes : ℕ → UInt8)
    (dirFD : FD) (requiredDirRights requiredDirInheritingRights : Rights)
    (pathAddress numPathBytes : UInt32) : Except Errno (List Char) :=
  if !process.hasFileSystem then .error .enotcapable
  else
    match validateFD getKeyHash process dirFD requiredDirRights requiredDirInheritingRights with
    | .error fdError => .error fdError
    | .ok dirFDE =>
      match readUserString memory bytes pathAddress numPathBytes with
      | none => .error .efault
      | some relativePath =>
        match getCanonicalPath dirFDE.originalPath relativePath with
        | none => .error .enotcapable
        | some canonicalPath => .ok canonicalPath

/-- `translateWASIVFDFlags`: the flags of the VFD, and the rights the sync flags add to
`outRequiredRights`. -/
def translateWASIVFDFlags (fdFlags : FDFlags) (outRequiredRights : Rights) : VFDFlags × Rights :=
  let result : VFDFlags := {}
  let dsynced : VFDFlags × Rights :=
    if fdFlags &&& FdFlag.dsync ≠ 0 then
      ({ result with
          syncLevel := if fdFlags &&& FdFlag.rsync ≠ 0 then .contentsAfterWriteAndBeforeRead
            else .contentsAfterWrite },
        outRequiredRights ||| Right.fdDatasync)
    else (result, outRequiredRights)
  let synced : VFDFlags × Rights :=
    if fdFlags &&& FdFlag.sync ≠ 0 then
      ({ dsynced.1 with
          syncLevel := if fdFlags &&& FdFlag.rsync ≠ 0
            then .contentsAndMetadataAfterWriteAndBeforeRead
            else .contentsAndMetadataAfterWrite },
        dsynced.2 ||| Right.fdSync)
    else dsynced
  let nonBlocking := if fdFlags &&& FdFlag.nonblock ≠ 0 then { synced.1 with nonBlocking := true }
    else synced.1
  let appended := if fdFlags &&& FdFlag.append ≠ 0 then { nonBlocking with append := true }
    else nonBlocking
  (appended, synced.2)

/-- The `switch` of `path_open` on `openFlags & (O_CREAT | O_EXCL | O_TRUNC)`; `none` for the
undefined combinations, which return `EINVAL`. -/
def createModeOf (openFlags : OFlags) : Option FileCreateMode :=
  let masked := openFlags &&& (OFlag.creat ||| OFlag.excl ||| OFlag.trunc)
  if masked = OFlag.creat ||| OFlag.excl then some .createNew
  else if masked = OFlag.creat ||| OFlag.trunc then some .createAlways
  else if masked = OFlag.creat then some .openAlways
  else if masked = OFlag.trunc then some .truncateExisting
  else if masked = 0 then some .openExisting
  else none

/-! ## The syscalls -/

/-- The `read` of `path_open`: the requested rights read the file or the directory. -/
def requestsRead (requestedRights : Rights) : Prop :=
  requestedRights &&& (Right.fdRead ||| Right.fdReaddir) ≠ 0

/-- The `write` of `path_open`: the requested rights change the file. -/
def requestsWrite (requestedRights : Rights) : Prop :=
  requestedRights &&&
    (Right.fdDatasync ||| Right.fdWrite ||| Right.fdAllocate ||| Right.fdFilestatSetSize) ≠ 0

instance (requestedRights : Rights) : Decidable (requestsRead requestedRights) :=
  inferInstanceAs (Decidable (_ ≠ _))

instance (requestedRights : Rights) : Decidable (requestsWrite requestedRights) :=
  inferInstanceAs (Decidable (_ ≠ _))

/-- The `accessMode` of `path_open`. -/
def accessModeOf (requestedRights : Rights) : FileAccessMode :=
  if requestsRead requestedRights ∧ requestsWrite requestedRights then .readWrite
  else if requestsRead requestedRights then .readOnly
  else if requestsWrite requestedRights then .writeOnly
  else .none

/-- The `requiredDirRights` of `path_open`: `PATH_OPEN`, with `PATH_CREATE_FILE` for `O_CREAT`
and `PATH_FILESTAT_SET_SIZE` for `O_TRUNC`. -/
def pathOpenDirRights (openFlags : OFlags) : Rights :=
  let requiredDirRights := Right.pathOpen
  let requiredDirRights := if openFlags &&& OFlag.creat ≠ 0 then
    requiredDirRights ||| Right.pathCreateFile else requiredDirRights
  if openFlags &&& OFlag.trunc ≠ 0 then requiredDirRights ||| Right.pathFilestatSetSize
  else requiredDirRights

/-- The `requiredDirInheritingRights` of `path_open`: the requested rights and inheriting
rights, those the sync flags need, and `FD_SEEK` for a write that neither appends nor
truncates. -/
def pathOpenDirInheritingRights (openFlags : OFlags) (requestedRights requestedInheritingRights : Rights)
    (fdFlags : FDFlags) : Rights :=
  let translated := translateWASIVFDFlags fdFlags (requestedRights ||| requestedInheritingRights)
  if requestsWrite requestedRights ∧ fdFlags &&& FdFlag.append = 0 ∧ openFlags &&& OFlag.trunc = 0
  then translated.2 ||| Right.fdSeek else translated.2

/-- `wasi_path_open`: open the path relative to `dirFD` and bind the first free fd to it. The
rights and modes it computes from its flags are `pathOpenDirRights`,
`pathOpenDirInheritingRights`, `accessModeOf` and `createModeOf`. -/
def wasiPathOpen (process : Process VFD) (memory : Memory QuotaId) (bytes : ℕ → UInt8)
    (openFile : List Char → FileAccessMode → FileCreateMode → VFDFlags → Result × VFD)
    (closeVFD : VFD → Result) (dirFD : FD) (pathAddress numPathBytes : UInt32)
    (openFlags : OFlags) (requestedRights requestedInheritingRights : Rights) (fdFlags : FDFlags)
    (fdAddress : UInt32) : Option (Process VFD × Except ExceptionType Errno) :=
  match createModeOf openFlags with
  | none => some (process, .ok .einval)
  | some createMode =>
    match validatePath getKeyHash process memory bytes dirFD (pathOpenDirRights openFlags)
        (pathOpenDirInheritingRights openFlags requestedRights requestedInheritingRights fdFlags)
        pathAddress numPathBytes with
    | .error pathError => some (process, .ok pathError)
    | .ok canonicalPath =>
      let opened := openFile canonicalPath (accessModeOf requestedRights) createMode
        (translateWASIVFDFlags fdFlags (requestedRights ||| requestedInheritingRights)).1
      if opened.1 ≠ .success then some (process, .ok (asWASIErrNo opened.1))
      else
        match process.fds.add getKeyHash uint32Max
            ⟨opened.2, requestedRights, requestedInheritingRights, canonicalPath, false⟩ with
        | none => none
        | some (fds, fd) =>
          if fd = uint32Max then
            -- `errorUnless(openedVFD->close() == VFS::Result::success)`
            if closeVFD opened.2 = .success then some ({ process with fds }, .ok .emfile)
            else none
          else
            -- `memoryRef<__wasi_fd_t>(process->memory, fdAddress) = fd;`
            match memoryRef memory 4 fdAddress.toUInt64 with
            | .error exception => some ({ process with fds }, .error exception)
            | .ok _ => some ({ process with fds }, .ok .esuccess)

/-- `wasi_fd_close`: close the VFD of a bound fd that is not preopened, and unbind the fd if
that succeeded. -/
def wasiFdClose (process : Process VFD) (closeVFD : VFD → Result) (fd : FD) :
    Process VFD × Errno :=
  match validateFD getKeyHash process fd 0 0 with
  | .error fdError => (process, fdError)
  | .ok fde =>
    if fde.isPreopened then (process, .ebadf)
    else
      let result := fde.close closeVFD
      if result = .success then
        ({ process with fds := process.fds.removeOrFail getKeyHash fd }, asWASIErrNo result)
      else (process, asWASIErrNo result)

/-- `wasi_fd_renumber`: close the VFD at `toFD`, then `insertOrFail(toFD, std::move(*fromFDE))`,
`removeOrFail(toFD)` and `removeOrFail(fromFD)`. `fromFDE` points into the buckets of the
table, and `insertOrFail` first resizes the table when the policy wants more buckets for one
more element, which frees those buckets before the move reads `*fromFDE`: the call is then
undefined, and `none`. -/
def wasiFdRenumber (process : Process VFD) (closeVFD : VFD → Result) (fromFD toFD : FD) :
    Option (Process VFD × Errno) :=
  match validateFD getKeyHash process fromFD 0 0 with
  | .error fdError => some (process, fdError)
  | .ok fromFDE =>
    match validateFD getKeyHash process toFD 0 0 with
    | .error fdError => some (process, fdError)
    | .ok toFDE =>
      if fromFDE.isPreopened ∨ toFDE.isPreopened then some (process, .enotsup)
      else
        let result := toFDE.close closeVFD
        if result ≠ .success then some (process, asWASIErrNo result)
        else if process.fds.map.table.ResizesForAdd then none
        else
          let fds := process.fds.insertOrFail getKeyHash toFD fromFDE
          let fds := fds.removeOrFail getKeyHash toFD
          let fds := fds.removeOrFail getKeyHash fromFD
          some ({ process with fds }, .esuccess)

/-- `wasi_fd_fdstat_set_rights`: narrow the rights of a bound fd to ones it holds. -/
def wasiFdFdstatSetRights (process : Process VFD) (fd : FD) (rights inheritingRights : Rights) :
    Process VFD × Errno :=
  match validateFD getKeyHash process fd rights inheritingRights with
  | .error fdError => (process, fdError)
  | .ok fde =>
    ({ process with
        fds := process.fds.writeElement getKeyHash fd { fde with rights, inheritingRights } },
      .esuccess)

/-! ## Runs of syscalls -/

/-- A syscall, with its arguments and what the guest memory, the file system and the VFDs
answer at that call. -/
inductive Syscall (QuotaId VFD : Type)
  | pathOpen (memory : Memory QuotaId) (bytes : ℕ → UInt8)
      (openFile : List Char → FileAccessMode → FileCreateMode → VFDFlags → Result × VFD)
      (closeVFD : VFD → Result) (dirFD : FD) (pathAddress numPathBytes : UInt32)
      (openFlags : OFlags) (requestedRights requestedInheritingRights : Rights)
      (fdFlags : FDFlags) (fdAddress : UInt32)
  | fdClose (closeVFD : VFD → Result) (fd : FD)
  | fdRenumber (closeVFD : VFD → Result) (fromFD toFD : FD)
  | fdFdstatSetRights (fd : FD) (rights inheritingRights : Rights)

/-- One syscall: the process after it and what it returns, `none` when it never returns or is
undefined. -/
def syscall (process : Process VFD) : Syscall QuotaId VFD → Option (Process VFD × Except ExceptionType Errno)
  | .pathOpen memory bytes openFile closeVFD dirFD pathAddress numPathBytes openFlags
      requestedRights requestedInheritingRights fdFlags fdAddress =>
    wasiPathOpen getKeyHash process memory bytes openFile closeVFD dirFD pathAddress numPathBytes
      openFlags requestedRights requestedInheritingRights fdFlags fdAddress
  | .fdClose closeVFD fd =>
    let closed := wasiFdClose getKeyHash process closeVFD fd
    some (closed.1, .ok closed.2)
  | .fdRenumber closeVFD fromFD toFD =>
    (wasiFdRenumber getKeyHash process closeVFD fromFD toFD).map fun renumbered =>
      (renumbered.1, .ok renumbered.2)
  | .fdFdstatSetRights fd rights inheritingRights =>
    let narrowed := wasiFdFdstatSetRights getKeyHash process fd rights inheritingRights
    some (narrowed.1, .ok narrowed.2)

/-- A sequence of syscalls, until one does not return: the process after them, and what each
returned. -/
def run (process : Process VFD) :
    List (Syscall QuotaId VFD) → Option (Process VFD × List (Except ExceptionType Errno))
  | [] => some (process, [])
  | call :: calls =>
    match syscall getKeyHash process call with
    | none => none
    | some (process', result) =>
      match run process' calls with
      | none => none
      | some (process'', results) => some (process'', result :: results)

/-- **The processes a guest can reach**: the one `WASI::run` builds, and whatever a syscall
that returns leaves. -/
inductive Reachable : Process VFD → Prop
  | init (stdIn stdOut stdErr : VFD) (rootFD : Option VFD) :
      Reachable (initialProcess getKeyHash stdIn stdOut stdErr rootFD)
  | step {process process' : Process VFD} {result : Except ExceptionType Errno}
      (call : Syscall QuotaId VFD) :
      Reachable process → syscall getKeyHash process call = some (process', result) →
      Reachable process'

end Wavm.WASI
