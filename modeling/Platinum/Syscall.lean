import Platinum.Sched

/-!
# System calls

`kernel_syscall_entry` dispatches on `rax`; the calls that take user pointers
check them against the running task's layout and address space first.
-/
namespace Platinum
open ByteMemory

/-- What the build fixes: where the trampoline code is linked, and whether the
exec transfer test is compiled in. -/
structure Build where
  archUserProgramEntry : Word
  userTestExecTransferFail : Bool

/-- The registers of the interrupted task that system calls use. -/
structure SyscallFrame where
  rax : Word
  rdi : Word
  rsi : Word
  rdx : Word
  deriving DecidableEq, Repr

def sysPutc : Word := 0#64
def sysYield : Word := 1#64
def sysGetTicks : Word := 2#64
def sysExit : Word := 3#64
def sysRead : Word := 4#64
def sysWrite : Word := 5#64
def sysClose : Word := 6#64
def sysDup : Word := 7#64
def sysOpen : Word := 8#64
def sysExec : Word := 9#64

def sysResultOk : Word := 0#64
def sysResultError : Word := -1#64

/-- `sizeof(path)` in the handlers of open and exec. -/
def syscallPathSize : ℕ := 64

def syscallReturn (frame : SyscallFrame) (result : Word) : SyscallFrame := { frame with rax := result }

/-- `(uint64_t)(int64_t)result`. -/
def syscallResult (result : Int) : Word := BitVec.ofInt 64 result

/-- Give back a prepared program; no page counts as reusable here. -/
def syscallReleaseBootstrap (s : Phys) (bootstrap : UserTaskBootstrap) : Phys :=
  let loadedImage : LoadedUserImage :=
    { loadBegin := 0#64
      loadEnd := 0#64
      loadPhysicalBegin := bootstrap.imagePhysicalBegin
      loadPhysicalEnd := bootstrap.imagePhysicalEnd
      reusablePhysicalBegin := 0#64
      reusablePhysicalEnd := 0#64
      entry := 0#64
      stackPage := bootstrap.userStackPage
      stackTop := bootstrap.userStackTop }
  pagingReleaseUserAddressSpace (elfReleaseUserImage s loadedImage) bootstrap.addressSpace
    bootstrap.layout

namespace KernelState

def setStore (k : KernelState) (store : Store) : KernelState := { k with store := store }

/-- Write back the running task's table. -/
def setFdTable (k : KernelState) (fdTable : FdTable) : KernelState :=
  match k.current with
  | none => k
  | some t => k.setTask t { k.task t with fdTable := fdTable }

end KernelState

/-- The image of the executable at a path. -/
def syscallExecImage (k : Store) (path : List Byte) : Run (Option (Mem × Word) × Store) := do
  let (file, k) ← vfsOpenExecPath k path
  if file = 0#64 then .ok (none, k)
  else
    match vfsFileExecutableImage k file with
    | none => do
      let (_, k) ← vfsFileClose k file
      .ok (none, k)
    | some image => do
      let (result, k) ← vfsFileClose k file
      .ok (if result ≠ 0 then none else some image, k)

/-- The bootstrap that is handed to the scheduler. -/
def Build.transferred (b : Build) (bootstrap : UserTaskBootstrap) : UserTaskBootstrap :=
  if b.userTestExecTransferFail then { bootstrap with trampolineEntry := 0#64 } else bootstrap

/-- Hand a prepared program to the scheduler, or give it back. -/
def syscallExecTransfer (b : Build) (k : KernelState) (bootstrap : UserTaskBootstrap)
    (reusable : Word × Word) : Run (Word × KernelState) := do
  let (nextRsp, k) ← schedExecCurrent k (b.transferred bootstrap) reusable
  if nextRsp = 0#64 then .ok (0#64, k.setPhys (syscallReleaseBootstrap k.phys (b.transferred bootstrap)))
  else .ok (nextRsp, k)

/-- `SYS_EXEC` after the path was copied: the new stack pointer, 0 for an error. -/
def syscallExecPath (b : Build) (k : KernelState) (path : List Byte) (reusable : Word × Word) :
    Run (Word × KernelState) := do
  let (image, store) ← syscallExecImage k.store path
  let k := k.setStore store
  match image, schedCurrentUserBootstrap k with
  | some (image, imageSize), some currentBootstrap => do
    let (bootstrap, s) ← syscallPrepareExecBootstrap b.archUserProgramEntry k.phys image imageSize
      (some currentBootstrap)
    let k := k.setPhys s
    match bootstrap with
    | none => .ok (0#64, k)
    | some bootstrap => syscallExecTransfer b k bootstrap reusable
  | _, _ => .ok (0#64, k)

/-- The stack pointer to resume, the frame and the kernel's state. -/
abbrev SyscallOutcome := Word × SyscallFrame × KernelState

def syscallRead (k : KernelState) (currentRsp : Word) (frame : SyscallFrame) (addressSpace : Word)
    (layout : UserVirtualLayout) : UserAccess SyscallOutcome := do
  let valid ← UserAccess.lift (syscallUserBufferValid k.phys addressSpace layout frame.rsi frame.rdx)
  match schedCurrentFdTable k with
  | none => pure (currentRsp, syscallReturn frame sysResultError, k)
  | some fdTable =>
    if ¬ valid then pure (currentRsp, syscallReturn frame sysResultError, k)
    else
      let (result, store) ← fdTableRead k.store fdTable (toInt32 frame.rdi) frame.rsi frame.rdx
      pure (currentRsp, syscallReturn frame (syscallResult result), k.setStore store)

def syscallWrite (k : KernelState) (currentRsp : Word) (frame : SyscallFrame) (addressSpace : Word)
    (layout : UserVirtualLayout) : UserAccess SyscallOutcome := do
  let valid ← UserAccess.lift (syscallUserBufferValid k.phys addressSpace layout frame.rsi frame.rdx)
  match schedCurrentFdTable k with
  | none => pure (currentRsp, syscallReturn frame sysResultError, k)
  | some fdTable =>
    if ¬ valid then pure (currentRsp, syscallReturn frame sysResultError, k)
    else
      let (result, store) ← fdTableWrite k.store fdTable (toInt32 frame.rdi) frame.rsi frame.rdx
      pure (currentRsp, syscallReturn frame (syscallResult result), k.setStore store)

/-- The part of `SYS_OPEN` after the path was copied. -/
def syscallOpenPath (k : KernelState) (fdTable : FdTable) (path : List Byte) (flags : BitVec 32) :
    Run (Int × KernelState) := do
  let (file, store) ← vfsOpenPath k.store path flags
  if file = 0#64 then .ok (-1, k.setStore store)
  else
    let kind := if (store.node (store.file file).node).kind = .console then FdKind.console
      else .placeholder
    match fdTableInstall fdTable kind file with
    | (fd, fdTable) =>
      if fd < 0 then do
        let (_, store) ← vfsFileClose store file
        .ok (-1, k.setStore store)
      else .ok (fd, (k.setStore store).setFdTable fdTable)

def syscallOpen (k : KernelState) (currentRsp : Word) (frame : SyscallFrame) (addressSpace : Word)
    (layout : UserVirtualLayout) : UserAccess SyscallOutcome :=
  match schedCurrentFdTable k with
  | none => pure (currentRsp, syscallReturn frame sysResultError, k)
  | some fdTable => do
    match ← syscallCopyPath k.phys syscallPathSize frame.rdi addressSpace layout with
    | none => pure (currentRsp, syscallReturn frame sysResultError, k)
    | some path =>
      let (result, k) ← UserAccess.lift (syscallOpenPath k fdTable path (frame.rsi.setWidth 32))
      pure (currentRsp, syscallReturn frame (syscallResult result), k)

def syscallExec (b : Build) (k : KernelState) (currentRsp : Word) (frame : SyscallFrame)
    (addressSpace : Word) (layout : UserVirtualLayout) (reusable : Word × Word) :
    UserAccess SyscallOutcome := do
  match ← syscallCopyPath k.phys syscallPathSize frame.rdi addressSpace layout with
  | none => pure (currentRsp, syscallReturn frame sysResultError, k)
  | some path =>
    let (nextRsp, k) ← UserAccess.lift (syscallExecPath b k path reusable)
    if nextRsp = 0#64 then pure (currentRsp, syscallReturn frame sysResultError, k)
    else pure (nextRsp, frame, k)

/-- The calls that leave user memory alone. -/
def syscallPlain (k : KernelState) (currentRsp : Word) (frame : SyscallFrame)
    (reusable : Word × Word) : Run SyscallOutcome :=
  if frame.rax = sysPutc then
    .ok (currentRsp, syscallReturn frame sysResultOk,
      k.setStore (k.store.serialWrite [frame.rdi.setWidth 8]))
  else if frame.rax = sysYield then do
    let (rsp, k) ← schedTick k currentRsp
    .ok (rsp, syscallReturn frame sysResultOk, k)
  else if frame.rax = sysGetTicks then .ok (currentRsp, syscallReturn frame k.kernelTicks, k)
  else if frame.rax = sysExit then do
    let (rsp, k) ← schedExitCurrent k reusable
    .ok (rsp, syscallReturn frame sysResultOk, k)
  else
    match schedCurrentFdTable k with
    | none => .ok (currentRsp, syscallReturn frame sysResultError, k)
    | some fdTable =>
      if frame.rax = sysClose then do
        let (result, fdTable, store) ← fdTableClose k.store fdTable (toInt32 frame.rdi)
        .ok (currentRsp, syscallReturn frame (syscallResult result),
          (k.setStore store).setFdTable fdTable)
      else if frame.rax = sysDup then do
        let (result, fdTable, store) ← fdTableDup k.store fdTable (toInt32 frame.rdi)
        .ok (currentRsp, syscallReturn frame (syscallResult result),
          (k.setStore store).setFdTable fdTable)
      else .ok (currentRsp, syscallReturn frame sysResultError, k)

/-- `kernel_syscall_entry`. -/
def kernelSyscallEntry (b : Build) (k : KernelState) (currentRsp : Word) (frame : SyscallFrame)
    (reusable : Word × Word) : UserAccess SyscallOutcome :=
  if frame.rax = sysRead ∨ frame.rax = sysWrite ∨ frame.rax = sysOpen ∨ frame.rax = sysExec then
    match schedCurrentUserContext k with
    | none => pure (currentRsp, syscallReturn frame sysResultError, k)
    | some (layout, addressSpace) =>
      if frame.rax = sysRead then syscallRead k currentRsp frame addressSpace layout
      else if frame.rax = sysWrite then syscallWrite k currentRsp frame addressSpace layout
      else if frame.rax = sysOpen then syscallOpen k currentRsp frame addressSpace layout
      else syscallExec b k currentRsp frame addressSpace layout reusable
  else UserAccess.lift (syscallPlain k currentRsp frame reusable)

end Platinum
