import Platinum.Processor
import Platinum.SchedRun
import Platinum.SerialText
import Platinum.Syscall
import Platinum.TaskStacks

/-!
# The entry stubs

`boot.S` saves the registers of the interrupted program on the stack, calls the
handler with a pointer to them and resumes whatever the handler returns.
-/
namespace Platinum
open ByteMemory Processor

instance : HasMem KernelState where
  mem k := k.phys.mem
  setMem k m := k.setPhys { k.phys with mem := m }
  mem_setMem _ _ := rfl
  setMem_setMem _ _ _ := rfl
  setMem_mem _ := rfl

def schedCurrentTaskId (k : KernelState) : BitVec 32 :=
  match k.current with
  | none => 0
  | some t => (k.task t).id

def schedCurrentTaskKind (k : KernelState) : TaskKind :=
  match k.current with
  | none => .kernel
  | some t => (k.task t).kind

/-- Every hundredth tick of the worker task is reported; `workerCounter` is what
`sched_debug_worker_counter` returns. -/
def kernelTimerTick (workerCounter currentRsp : Word) (k : KernelState) : Run (Word × KernelState) :=
  let k := { k with kernelTicks := k.kernelTicks + 1#64 }
  let k :=
    if k.kernelTicks % 100#64 = 0#64 ∧ schedCurrentTaskKind k = .kernel ∧ schedCurrentTaskId k = 1#32 then
      k.setStore (((k.store.serialWrite (asciiText "worker ")).serialWrite
        (decimalText workerCounter.toNat)).serialWrite (asciiText "\r\n"))
    else k
  schedTick k currentRsp

/-- The registers of `struct syscall_frame` that the dispatch reads. -/
def syscallFrameAt (m : Mem) (currentRsp : Word) : SyscallFrame where
  rax := load64 m (currentRsp.toNat + 112)
  rdi := load64 m (currentRsp.toNat + 64)
  rsi := load64 m (currentRsp.toNat + 72)
  rdx := load64 m (currentRsp.toNat + 88)

/-- `kernel_syscall_entry` on the frame in memory. No call reads the frame after
`syscall_return` has written to it. -/
def kernelSyscallEntryAt (b : Build) (reusable : Word × Word) (currentRsp : Word) (k : KernelState) :
    Run (Word × KernelState) := do
  let frame := syscallFrameAt k.phys.mem currentRsp
  let (next, frame, k) ← (kernelSyscallEntry b k currentRsp frame reusable).result
  .ok (next, k.setPhys { k.phys with mem := store64 k.phys.mem (currentRsp.toNat + 112) frame.rax })

/-- The order in which a stub pushes the registers. -/
def pushOrder : List Reg :=
  [.rax, .rbx, .rcx, .rdx, .rbp, .rsi, .rdi, .r8, .r9, .r10, .r11, .r12, .r13, .r14, .r15]

/-- The order in which it pops them. -/
def popOrder : List Reg :=
  [.r15, .r14, .r13, .r12, .r11, .r10, .r9, .r8, .rdi, .rsi, .rbp, .rdx, .rcx, .rbx, .rax]

/-- `left` is what the called function leaves in the registers besides its result. -/
def entryStub (handler : Word → KernelState → Run (Word × KernelState)) (left : Reg → Word) :
    List (Instr KernelState Stop) :=
  pushOrder.map .push ++
    ([.movFromRsp .rcx, .subRsp 40#64, .call handler left, .addRsp 40#64, .movToRsp .rax] ++
      (popOrder.map .pop ++ [.iretq]))

def archIrq0Entry (workerCounter : Word) (left : Reg → Word) : List (Instr KernelState Stop) :=
  entryStub (kernelTimerTick workerCounter) left

def archSyscallEntry (b : Build) (reusable : Word × Word) (left : Reg → Word) :
    List (Instr KernelState Stop) :=
  entryStub (kernelSyscallEntryAt b reusable) left

/-- What is resumed from the stack pointer `rsp`. -/
def taskContext (m : Mem) (rsp : Word) : Context := frameContext pushOrder m rsp.toNat

lemma mem_pushOrder (r : Reg) : r ∈ pushOrder := by cases r <;> decide

lemma nodup_pushOrder : pushOrder.Nodup := by decide

@[simp] lemma frameSize_pushOrder : frameSize pushOrder = 160 := rfl

/-- A frame is its own 160 bytes. -/
lemma taskContext_congr {m m' : Mem} {rsp : Word}
    (h : ∀ x, rsp.toNat ≤ x → x < rsp.toNat + 160 → m' x = m x) : taskContext m' rsp = taskContext m rsp :=
  frameContext_congr (by decide) h

section Stubs

variable {handler : Word → KernelState → Run (Word × KernelState)} {left : Reg → Word}
  {c : Machine KernelState} {rsp0 selector offset next top : Word} {k : KernelState} {m m' : Mem}

/-- The state in which the handler finds the kernel. -/
def enteredState (rsp0 : Word) (c : Machine KernelState) : KernelState :=
  HasMem.setMem c.state
    (pushes (HasMem.mem c.state) (interruptStack rsp0 c.ctx).toNat (contextWords pushOrder c.ctx))

lemma enteredState_setPhys : enteredState rsp0 c = c.state.setPhys { c.state.phys with
    mem := pushes c.state.phys.mem (interruptStack rsp0 c.ctx).toNat (contextWords pushOrder c.ctx) } := rfl

lemma enteredState_mem : (enteredState rsp0 c).phys.mem =
    pushes c.state.phys.mem (interruptStack rsp0 c.ctx).toNat (contextWords pushOrder c.ctx) :=
  HasMem.mem_setMem c.state _

/-- The frame that the handler is given. -/
def enteredRsp (rsp0 : Word) (c : Machine KernelState) : Word := interruptStack rsp0 c.ctx - 160#64

lemma toNat_enteredRsp (hroom : 160 ≤ (interruptStack rsp0 c.ctx).toNat) :
    (enteredRsp rsp0 c).toNat = (interruptStack rsp0 c.ctx).toNat - 160 := by
  unfold enteredRsp
  have hlt := (interruptStack rsp0 c.ctx).isLt
  bv_omega

/-- Restoring from a stack pointer resumes the context there. -/
lemma restore_run (hroom : c.ctx.rsp.toNat + 160 ≤ 2 ^ 64) :
    run (popOrder.map Instr.pop ++ [Instr.iretq]) c =
      (.ok { c with ctx := taskContext (HasMem.mem c.state) c.ctx.rsp } : Run (Machine KernelState)) :=
  run_exit mem_pushOrder nodup_pushOrder hroom

/-- The call of the handler, and the switch to the stack that it returns. -/
lemma call_run : run [.movFromRsp .rcx, .subRsp 40#64, .call handler left, .addRsp 40#64, .movToRsp .rax] c =
    handler c.ctx.rsp c.state >>= fun r =>
      .ok ⟨r.2, { c.ctx with reg := Function.update left .rax r.1, rsp := r.1 }⟩ := by
  have hrcx : (c.ctx.setReg .rcx c.ctx.rsp).reg .rcx = c.ctx.rsp := Context.setReg_same _ _ _
  simp only [run_cons, exec, ok_bind, hrcx]
  cases handler c.ctx.rsp c.state with
  | error e => rfl
  | ok r => simp [run_cons, exec, Context.setReg]

/-- The handler finds the interrupted context in its frame. -/
lemma entered_context (hroom : 160 ≤ (interruptStack rsp0 c.ctx).toNat) :
    taskContext (enteredState rsp0 c).phys.mem (enteredRsp rsp0 c) = c.ctx := by
  have hframe : frameSize pushOrder ≤ (interruptStack rsp0 c.ctx).toNat := hroom
  have hctx : frameContext pushOrder (pushes c.state.phys.mem (interruptStack rsp0 c.ctx).toNat
      (contextWords pushOrder c.ctx)) ((interruptStack rsp0 c.ctx).toNat - frameSize pushOrder) = c.ctx :=
    frameContext_pushes mem_pushOrder hframe
  unfold taskContext
  rw [toNat_enteredRsp hroom, enteredState_mem]
  rwa [frameSize_pushOrder] at hctx

/-- A stub calls its handler with the interrupted context saved, and resumes the
context at the stack pointer it returns. -/
lemma entryStub_call (hroom : 160 ≤ (interruptStack rsp0 c.ctx).toNat)
    (hnext : ∀ next k, handler (enteredRsp rsp0 c) (enteredState rsp0 c) = .ok (next, k) →
      next.toNat + 160 ≤ 2 ^ 64) :
    taskContext (enteredState rsp0 c).phys.mem (enteredRsp rsp0 c) = c.ctx ∧
    run (entryStub handler left) (deliver rsp0 selector offset c) =
      handler (enteredRsp rsp0 c) (enteredState rsp0 c) >>= fun r =>
        .ok ⟨r.2, taskContext r.2.phys.mem r.1⟩ := by
  have hframe : frameSize pushOrder ≤ (interruptStack rsp0 c.ctx).toNat := hroom
  refine ⟨entered_context hroom, ?_⟩
  unfold entryStub
  rw [run_append, run_entry hframe, ok_bind, run_append, call_run]
  change (handler (enteredRsp rsp0 c) (enteredState rsp0 c) >>= _) >>= _ = _
  generalize hcall : handler (enteredRsp rsp0 c) (enteredState rsp0 c) = x at hnext
  cases x with
  | error e => rfl
  | ok r =>
    obtain ⟨next, k⟩ := r
    rw [ok_bind, ok_bind, restore_run (hnext next k rfl)]
    rfl

/-- A handler that returns is returned from. -/
lemma entryStub_ok (left : Reg → Word) (selector offset : Word)
    (hroom : 160 ≤ (interruptStack rsp0 c.ctx).toNat)
    (hcall : handler (enteredRsp rsp0 c) (enteredState rsp0 c) = .ok (next, k))
    (hnext : next.toNat + 160 ≤ 2 ^ 64) :
    run (entryStub handler left) (deliver rsp0 selector offset c) =
      .ok ⟨k, taskContext k.phys.mem next⟩ := by
  have hrun : run (entryStub handler left) (deliver rsp0 selector offset c) = _ :=
    (entryStub_call hroom fun next' k' hcall' => by
      obtain ⟨rfl, rfl⟩ : next' = next ∧ k' = k := by simpa using hcall'.symm.trans hcall
      exact hnext).2
  rw [hrun, hcall, ok_bind]

/-- A handler that halts is not returned from. -/
lemma entryStub_error {e : Stop} (left : Reg → Word) (selector offset : Word)
    (hroom : 160 ≤ (interruptStack rsp0 c.ctx).toNat)
    (hcall : handler (enteredRsp rsp0 c) (enteredState rsp0 c) = .error e) :
    run (entryStub handler left) (deliver rsp0 selector offset c) = .error e := by
  have hrun : run (entryStub handler left) (deliver rsp0 selector offset c) = _ :=
    (entryStub_call hroom fun next' k' hcall' => by
      rw [hcall] at hcall'
      cases hcall').2
  rw [hrun, hcall]
  rfl

/-- An interrupt resumes what lies in the frame that its handler returns. A handler that returns the
frame it was given, and has left it alone, is not noticed in any register. -/
theorem entryStub_resumes (handler : Word → KernelState → Run (Word × KernelState)) (left : Reg → Word)
    (selector offset : Word) (hroom : 160 ≤ (interruptStack rsp0 c.ctx).toNat)
    (hcall : handler (enteredRsp rsp0 c) (enteredState rsp0 c) = .ok (next, k)) (hnext : next.toNat + 160 ≤ 2 ^ 64) :
    run (entryStub handler left) (deliver rsp0 selector offset c) = .ok ⟨k, taskContext k.phys.mem next⟩ ∧
      (next = enteredRsp rsp0 c →
        (∀ x, next.toNat ≤ x → x < next.toNat + 160 → k.phys.mem x = (enteredState rsp0 c).phys.mem x) →
          taskContext k.phys.mem next = c.ctx) := by
  refine ⟨entryStub_ok left selector offset hroom hcall hnext, fun he hkept => ?_⟩
  rw [taskContext_congr hkept, he]
  exact entered_context hroom

/-- User mode, interrupted by a handler that does nothing. -/
theorem entryStub_resumes_sample : ∃ c : Machine KernelState, privilege c.ctx.cs = 3#64 ∧
    run (entryStub (fun rsp k => .ok (rsp, k)) fun _ => 7#64) (deliver 0x00802000#64 0x0008#64 0#64 c) =
      .ok ⟨enteredState 0x00802000#64 c, c.ctx⟩ := by
  obtain ⟨c, hc⟩ : ∃ c : Machine KernelState,
      ⟨smallKernel, ⟨fun _ => 5#64, 0x40001000#64, 0x0023#64, 0x202#64, 0x40200000#64, 0x001B#64⟩⟩ = c := ⟨_, rfl⟩
  have hring : privilege c.ctx.cs = 3#64 := by
    rw [← hc]
    exact (by decide : privilege 0x0023#64 = 3#64)
  have hstack : interruptStack 0x00802000#64 c.ctx = 0x00802000#64 := by
    rw [interruptStack, if_neg (by rw [hring]; decide)]
    decide
  have hrsp : enteredRsp 0x00802000#64 c = 0x00801F60#64 := by
    rw [enteredRsp, hstack]
    rfl
  obtain ⟨hrun, hctx⟩ := entryStub_resumes (fun rsp k => .ok (rsp, k)) (fun _ => 7#64) 0x0008#64 0#64
    (by rw [hstack]; decide) rfl (by rw [hrsp]; decide)
  refine ⟨c, hring, ?_⟩
  rw [hrun, hctx rfl fun _ _ _ => rfl]

end Stubs

/-- Where a kernel task starts. -/
def kernelContext (page entry : Word) : Context :=
  ⟨fun _ => 0#64, entry, 0x0008#64, 0x202#64, page + 4096#64 - 8#64, 0x0010#64⟩

/-- Where a user task starts: in the trampoline, which calls what `r12` holds. -/
def userContext (bootstrap : UserTaskBootstrap) : Context :=
  ⟨fun r => if r = .r12 then bootstrap.userEntry else 0#64, bootstrap.trampolineEntry, 0x0023#64, 0x202#64,
    bootstrap.userStackTop, 0x001B#64⟩

lemma pushWordsFrom_eq (m : Mem) (page : Word) (words : List Word) (k : ℕ) :
    pushWordsFrom m page words k = pushes m (page.toNat + 4096 - 8 * k) words := by
  induction words generalizing m k with
  | nil => rfl
  | cons word words ih =>
    rw [pushWordsFrom_cons, ih, pushes,
      show page.toNat + 4096 - 8 * k - 8 = page.toNat + 4096 - 8 * (k + 1) by omega]

lemma pushWords_eq (m : Mem) (page : Word) (words : List Word) :
    pushWords m page words = pushes m (page.toNat + 4096) words := pushWordsFrom_eq m page words 0

lemma kernelFrame_words (page entry : Word) :
    kernelFrame page entry = contextWords pushOrder (kernelContext page entry) := rfl

lemma userFrame_words (bootstrap : UserTaskBootstrap) :
    userFrame bootstrap = contextWords pushOrder (userContext bootstrap) := rfl

/-- The frame at the end of a page resumes the context it was made of. -/
lemma taskContext_pushWords {page : Word} (hp : IsPage page) (m : Mem) (ctx : Context) :
    taskContext (pushWords m page (contextWords pushOrder ctx)) (page + 4096#64 - 160#64) = ctx := by
  have hlt := hp.lt
  have hrsp : (page + 4096#64 - 160#64).toNat = page.toNat + 4096 - 160 := by bv_omega
  have hroom : frameSize pushOrder ≤ page.toNat + 4096 := by
    rw [frameSize_pushOrder]
    omega
  have hctx : frameContext pushOrder (pushes m (page.toNat + 4096) (contextWords pushOrder ctx))
      (page.toNat + 4096 - frameSize pushOrder) = ctx := frameContext_pushes mem_pushOrder hroom
  unfold taskContext
  rw [hrsp, pushWords_eq]
  rwa [frameSize_pushOrder] at hctx

end Platinum
