import Platinum.Fd
import Platinum.ExecPrepare

/-!
# The two tasks

`sched.c` switches between a kernel task and, when enabled, a user task. Exec
replaces the user task's bootstrap in place; exit gives its pages back.
-/
namespace Platinum
open ByteMemory

inductive TaskState where
  | unused
  | runnable
  | running
  | done
  deriving DecidableEq, Repr

inductive TaskKind where
  | kernel
  | user
  deriving DecidableEq, Repr

structure Task where
  rsp : Word
  cr3 : Word
  state : TaskState
  kind : TaskKind
  id : BitVec 32
  fdTable : FdTable
  userBootstrap : UserTaskBootstrap

/-- Which of the two static tasks. -/
inductive TaskId where
  | task0
  | task1
  deriving DecidableEq, Repr

structure KernelState where
  store : Store
  task : TaskId → Task
  current : Option TaskId
  schedStarted : Bool
  userTaskEnabled : Bool
  userTaskBootstrap : UserTaskBootstrap
  kernelTicks : Word

namespace KernelState

def setTask (k : KernelState) (t : TaskId) (v : Task) : KernelState :=
  { k with task := Function.update k.task t v }

def setPhys (k : KernelState) (s : Phys) : KernelState := { k with store := { k.store with phys := s } }

abbrev phys (k : KernelState) : Phys := k.store.phys

variable (k : KernelState) (t u : TaskId) (v : Task) (s : Phys)

@[simp] lemma setTask_same : (k.setTask t v).task t = v := Function.update_self _ _ _
@[simp] lemma setTask_store : (k.setTask t v).store = k.store := rfl
@[simp] lemma setTask_current : (k.setTask t v).current = k.current := rfl
@[simp] lemma setTask_started : (k.setTask t v).schedStarted = k.schedStarted := rfl
@[simp] lemma setPhys_phys : (k.setPhys s).phys = s := rfl
@[simp] lemma setPhys_task : (k.setPhys s).task = k.task := rfl
@[simp] lemma setPhys_current : (k.setPhys s).current = k.current := rfl
@[simp] lemma setPhys_started : (k.setPhys s).schedStarted = k.schedStarted := rfl

variable {k t u v}

lemma setTask_ne (h : u ≠ t) : (k.setTask t v).task u = k.task u := Function.update_of_ne h _ _

end KernelState

/-- Writes words downwards from the end of a page, the first one on top. -/
def pushWords (m : Mem) (page : Word) (words : List Word) : Mem :=
  words.zipIdx.foldl (fun m (word, i) => store64 m (page.toNat + 4096 - 8 * (i + 1)) word) m

/-- The words of a fresh kernel stack. -/
def kernelFrame (page entry : Word) : List Word :=
  [0x0010#64, page + 4096#64 - 8#64, 0x202#64, 0x0008#64, entry] ++ List.replicate 15 0#64

/-- The words of a fresh user stack: the interrupt frame, then the registers. -/
def userFrame (bootstrap : UserTaskBootstrap) : List Word :=
  [0x001B#64, bootstrap.userStackTop, 0x202#64, 0x0023#64, bootstrap.trampolineEntry] ++
    List.replicate 11 0#64 ++ [bootstrap.userEntry] ++ List.replicate 3 0#64

/-- Returns the stack pointer, 0 when no page is free. -/
def taskBuildKernelStack (s : Phys) (entry : Word) : Word × Phys :=
  match pallocAlloc s with
  | (page, s) =>
    if page = 0#64 then (0#64, s)
    else (page + 4096#64 - 160#64, { s with mem := pushWords s.mem page (kernelFrame page entry) })

def taskBuildUserStack (s : Phys) (bootstrap : UserTaskBootstrap) : Word × Phys :=
  if bootstrap.userStackTop = 0#64 then (0#64, s)
  else if bootstrap.userStackPage = 0#64 then (0#64, s)
  else (bootstrap.userStackPage + 4096#64 - 160#64,
    { s with mem := pushWords s.mem bootstrap.userStackPage (userFrame bootstrap) })

def schedClearUserBootstrap (_bootstrap : UserTaskBootstrap) : UserTaskBootstrap := clearBootstrap

/-- `reusable` stands for the two words of uninitialised stack that
`elf_release_user_image` reads as its reusable range. -/
def schedReleaseUserBootstrap (s : Phys) (bootstrap : UserTaskBootstrap) (reusable : Word × Word) :
    Phys × UserTaskBootstrap :=
  if bootstrap.addressSpace = 0#64 then (s, bootstrap)
  else
    let loadedImage : LoadedUserImage :=
      { loadBegin := 0#64
        loadEnd := 0#64
        loadPhysicalBegin := bootstrap.imagePhysicalBegin
        loadPhysicalEnd := bootstrap.imagePhysicalEnd
        reusablePhysicalBegin := reusable.1
        reusablePhysicalEnd := reusable.2
        entry := 0#64
        stackPage := bootstrap.userStackPage
        stackTop := bootstrap.userStackTop }
    let s := elfReleaseUserImage s loadedImage
    let s := pagingReleaseUserAddressSpace s bootstrap.addressSpace bootstrap.layout
    (s, schedClearUserBootstrap bootstrap)

/-- The guard that `task_create_user` and `sched_exec_current` share. -/
def bootstrapComplete (bootstrap : UserTaskBootstrap) : Bool :=
  bootstrap.addressSpace ≠ 0#64 && bootstrap.trampolineEntry ≠ 0#64 &&
    bootstrap.userEntry ≠ 0#64 && bootstrap.userStackPage ≠ 0#64 && bootstrap.userStackTop ≠ 0#64

def taskCreateKernel (k : KernelState) (t : TaskId) (id : BitVec 32) (entry : Word) :
    Run (Bool × KernelState) :=
  match taskBuildKernelStack k.phys entry with
  | (rsp, s) =>
    let k := k.setPhys s
    if rsp = 0#64 then
      .ok (false, k.setTask t { k.task t with rsp := 0#64, state := .unused })
    else do
      let (seeded, fdTable, store) ← fdTableSeedConsole k.store fdTableInitialize
      let k := { k with store := store }
      .ok (seeded, k.setTask t
        { rsp := rsp
          cr3 := pagingKernelAddressSpace k.phys
          state := .runnable
          kind := .kernel
          id := id
          fdTable := fdTable
          userBootstrap := clearBootstrap })

def taskCreateUser (k : KernelState) (t : TaskId) (id : BitVec 32) (bootstrap : UserTaskBootstrap) :
    Run (Bool × KernelState) :=
  if ¬ bootstrapComplete bootstrap then .ok (false, k)
  else
    match taskBuildUserStack k.phys bootstrap with
    | (rsp, s) =>
      let k := k.setPhys s
      if rsp = 0#64 then
        .ok (false, k.setTask t { k.task t with rsp := 0#64, state := .unused })
      else do
        let (seeded, fdTable, store) ← fdTableSeedConsole k.store fdTableInitialize
        let k := { k with store := store }
        .ok (seeded, k.setTask t
          { rsp := rsp
            cr3 := bootstrap.addressSpace
            state := .runnable
            kind := .user
            id := id
            fdTable := fdTable
            userBootstrap := bootstrap })

def schedEnableUserTask (k : KernelState) (bootstrap : UserTaskBootstrap) : Run KernelState :=
  if bootstrap.layout.trampolineBase = 0#64 ∨ bootstrap.layout.imageBase = 0#64 ∨
      bootstrap.layout.stackTop = 0#64 ∨ ¬ bootstrapComplete bootstrap then .error .schedFail
  else .ok { k with userTaskEnabled := true, userTaskBootstrap := bootstrap }

/-- A task before it is created. -/
def Task.unusedTask (id : BitVec 32) : Task :=
  ⟨0#64, 0#64, .unused, .kernel, id, fdTableInitialize, clearBootstrap⟩

/-- `taskIdle` and `taskWorker` are the addresses of the two kernel task bodies. -/
def schedInitialize (k : KernelState) (taskIdle taskWorker : Word) : Run KernelState := do
  let k := { k with current := none, schedStarted := false }
  let k := (k.setTask .task0 (Task.unusedTask 0)).setTask .task1 (Task.unusedTask 1)
  let (created, k) ← taskCreateKernel k .task0 0 taskIdle
  if ¬ created then .error .halt
  else
    let (created, k) ← if k.userTaskEnabled then taskCreateUser k .task1 1 k.userTaskBootstrap
      else taskCreateKernel k .task1 1 taskWorker
    if ¬ created then .error .halt else .ok k

def schedValidateTask (k : KernelState) (t : TaskId) (expectedState : TaskState) : Bool :=
  (k.task t).state = expectedState && (k.task t).rsp ≠ 0#64 &&
    match (k.task t).kind with
    | .kernel => (k.task t).cr3 = pagingKernelAddressSpace k.phys
    | .user => (k.task t).cr3 ≠ 0#64 && (k.task t).cr3 ≠ pagingKernelAddressSpace k.phys

def schedSelectNext (k : KernelState) (previous : TaskId) : Run TaskId :=
  let other := if previous = .task0 then TaskId.task1 else .task0
  if (k.task other).state = .runnable then .ok other
  else if (k.task previous).state = .runnable then .ok previous
  else if (k.task .task0).state = .runnable then .ok .task0
  else if (k.task .task1).state = .runnable then .ok .task1
  else .error .halt

/-- Validates the next task, loads its address space and marks it running. -/
def schedActivate (k : KernelState) (next : TaskId) : Run KernelState :=
  let k := { k with current := some next }
  if ¬ schedValidateTask k next .runnable then .error .schedFail
  else
    let k := k.setPhys (pagingActivate k.phys (k.task next).cr3)
    .ok (k.setTask next { k.task next with state := .running })

/-- Returns the stack pointer to resume. -/
def schedTick (k : KernelState) (currentRsp : Word) : Run (Word × KernelState) :=
  if ¬ k.schedStarted then do
    let next := if k.userTaskEnabled then TaskId.task1 else .task0
    let k ← schedActivate { k with schedStarted := true } next
    .ok ((k.task next).rsp, k)
  else
    match k.current with
    | none => .error .schedFail
    | some t =>
      if (k.task t).state ≠ .running ∨ (k.task t).rsp = 0#64 then .error .schedFail
      else do
        let k := k.setTask t { k.task t with rsp := currentRsp, state := .runnable }
        let next ← schedSelectNext k t
        let k ← schedActivate k next
        .ok ((k.task next).rsp, k)

def schedExitCurrent (k : KernelState) (reusable : Word × Word) : Run (Word × KernelState) :=
  match k.current with
  | none => .error .schedFail
  | some t =>
    if ¬ k.schedStarted then .error .schedFail
    else do
      let (fdTable, store) ← fdTableCloseAll k.store (k.task t).fdTable
      let finishedBootstrap := (k.task t).userBootstrap
      let k := { k with store := store }.setTask t
        { k.task t with
          fdTable := fdTable
          userBootstrap := clearBootstrap
          rsp := 0#64
          state := .done }
      let next ← schedSelectNext k t
      let k ← schedActivate k next
      let k := k.setPhys (schedReleaseUserBootstrap k.phys finishedBootstrap reusable).1
      .ok ((k.task next).rsp, k)

def schedCurrentFdTable (k : KernelState) : Option FdTable := k.current.map fun t => (k.task t).fdTable

/-- The layout and the address space of a running user task. -/
def schedCurrentUserContext (k : KernelState) : Option (UserVirtualLayout × Word) :=
  match k.current with
  | none => none
  | some t =>
    if (k.task t).kind ≠ .user ∨ (k.task t).state ≠ .running then none
    else if (k.task t).userBootstrap.addressSpace = 0#64 then none
    else some ((k.task t).userBootstrap.layout, (k.task t).userBootstrap.addressSpace)

def schedCurrentUserBootstrap (k : KernelState) : Option UserTaskBootstrap :=
  match k.current with
  | none => none
  | some t =>
    if (k.task t).kind ≠ .user ∨ (k.task t).state ≠ .running then none
    else if (k.task t).userBootstrap.addressSpace = 0#64 then none
    else some (k.task t).userBootstrap

/-- Returns 0 when the transfer fails. -/
def schedExecCurrent (k : KernelState) (bootstrap : UserTaskBootstrap) (reusable : Word × Word) :
    Run (Word × KernelState) :=
  match k.current with
  | none => .ok (0#64, k)
  | some t =>
    if ¬ k.schedStarted ∨ (k.task t).kind ≠ .user ∨ (k.task t).state ≠ .running then .ok (0#64, k)
    else if ¬ bootstrapComplete bootstrap then .ok (0#64, k)
    else
      match taskBuildUserStack k.phys bootstrap with
      | (rsp, s) =>
        let k := k.setPhys s
        if rsp = 0#64 then .ok (0#64, k)
        else do
          let (_, store) ← fdTableCloseAll k.store (k.task t).fdTable
          let (seeded, fdTable, store) ← fdTableSeedConsole store fdTableInitialize
          let k := { k with store := store }.setTask t { k.task t with fdTable := fdTable }
          if ¬ seeded then .ok (0#64, k)
          else
            let previous := (k.task t).userBootstrap
            let previousBootstrap :=
              if previous.imagePhysicalBegin = bootstrap.imagePhysicalBegin ∧
                  previous.imagePhysicalEnd = bootstrap.imagePhysicalEnd then
                { previous with imagePhysicalBegin := 0#64, imagePhysicalEnd := 0#64 }
              else previous
            let k := k.setTask t
              { k.task t with
                rsp := rsp
                cr3 := bootstrap.addressSpace
                userBootstrap := bootstrap }
            let k := k.setPhys (pagingActivate k.phys (k.task t).cr3)
            let k := k.setPhys (schedReleaseUserBootstrap k.phys previousBootstrap reusable).1
            .ok ((k.task t).rsp, k)

end Platinum
