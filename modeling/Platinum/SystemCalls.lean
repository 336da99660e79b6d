import Platinum.ContextSwitch

/-!
# System calls between contexts

A call of the running user task changes `rax` of its registers and nothing else,
unless it is exec or exit. The idle task finds its registers as they were.
-/
namespace Platinum
open ByteMemory Processor

/-- The user task is gone, the idle task runs. -/
structure IdleSystem (K : KernelTables) (reserved : ReservedHeap) (rsp0Page idlePage : Word) (pool lost : Set Word)
    (c : Machine KernelState) : Prop where
  gone : UserGone K reserved [rsp0Page, idlePage] pool lost c.state
  kind : (c.state.task .task0).kind = .kernel
  ready : TaskReady c.state.phys.pagingKernelPml4 (c.state.task .task0)
  context : IdleContext idlePage c.ctx

/-- `bootstrap` is for the program at the path that `rdi` leads to, and its image is in place. -/
def ExecLoads (entry : Word) (c : Machine KernelState) (caller bootstrap : UserTaskBootstrap) (m : Mem) : Prop :=
  ∃ path image imageSize plan a stackPage, ExecPathAt c.state caller (c.ctx.reg .rdi) path ∧
    OffersImage c.state.store path image imageSize ∧ execPlan image imageSize = some plan ∧
    bootstrap = plan.bootstrap entry a stackPage ∧ ProgramMapped m a entry stackPage image plan

/-- A call that the run of the system may make: a read leaves the page of the trampoline alone,
which holds the code at `entry`, and exec names no program of another size than the caller's. -/
structure CallFits (entry : Word) (c : Machine KernelState) : Prop where
  buffer : c.ctx.reg .rax = sysRead → ∀ y, InBuffer (c.ctx.reg .rsi) (c.ctx.reg .rdx) y →
    ∀ t, mmuWalk c.state.phys.mem c.state.phys.cr3 y = some t → t.frame ≠ pageAddress entry
  window : c.ctx.reg .rax = sysExec → ∀ path image imageSize plan,
    ExecPathAt c.state (c.state.task .task1).userBootstrap (c.ctx.reg .rdi) path →
      OffersImage c.state.store path image imageSize → execPlan image imageSize = some plan →
        plan.physicalEnd = (c.state.task .task1).userBootstrap.imagePhysicalEnd

/-- The code at `entry` and the namespace are as they were. -/
structure SystemKeeps (entry : Word) (c c' : Machine KernelState) : Prop where
  code : KeepsPages [pageAddress entry] c.state.phys.mem c'.state.phys.mem
  files : FilesFramed ∅ c.state.store c'.state.store

/-- The ends of a call of the user task. `lost` is what an exit may not free. -/
inductive SystemCallEnd (K : KernelTables) (entry : Word) (reserved : ReservedHeap) (rsp0Page idlePage : Word)
    (pool lost : Set Word) (c : Machine KernelState) (caller : UserTaskBootstrap) : Run (Machine KernelState) → Prop
  | returned {own : Owner} {c' : Machine KernelState} {l files nodes : List Word} (r : Word)
      (hsystem : UserSystem K entry reserved rsp0Page idlePage pool own c' caller l files nodes)
      (huser : contextOf c' .task1 = c.ctx.setReg .rax r) (hidle : contextOf c' .task0 = contextOf c .task0)
      (hanswer : CallAnswer (c.ctx.reg .rax) c.state.kernelTicks r (userReads c'.state.phys.mem caller.addressSpace =
        userReads c.state.phys.mem caller.addressSpace))
      (hturn : c.ctx.reg .rax = sysYield ∧ c'.state.current = some .task0 ∨ c'.state.current = some .task1)
      (hkeeps : SystemKeeps entry c c') : SystemCallEnd K entry reserved rsp0Page idlePage pool lost c caller (.ok c')
  | replaced {own : Owner} {c' : Machine KernelState} {bootstrap : UserTaskBootstrap}
      {l files nodes : List Word} (hrax : c.ctx.reg .rax = sysExec)
      (hsystem : UserSystem K entry reserved rsp0Page idlePage pool own c' bootstrap l files nodes)
      (hcurrent : c'.state.current = some .task1) (huser : c'.ctx = userContext bootstrap)
      (hidle : contextOf c' .task0 = contextOf c .task0)
      (hloaded : ExecLoads entry c caller bootstrap c'.state.phys.mem) (hkeeps : SystemKeeps entry c c') :
      SystemCallEnd K entry reserved rsp0Page idlePage pool lost c caller (.ok c')
  | exited {c' : Machine KernelState} (hrax : c.ctx.reg .rax = sysExit)
      (hgone : IdleSystem K reserved rsp0Page idlePage pool lost c') (hidle : c'.ctx = contextOf c .task0)
      (hkeeps : SystemKeeps entry c c') : SystemCallEnd K entry reserved rsp0Page idlePage pool lost c caller (.ok c')
  | halted (hrax : c.ctx.reg .rax = sysExec)
      (hshort : ∃ path image imageSize l, ExecPathAt c.state caller (c.ctx.reg .rdi) path ∧
        OffersImage c.state.store path image imageSize ∧ FreeList c.state.phys l ∧
        TablesShort caller image imageSize l) :
      SystemCallEnd K entry reserved rsp0Page idlePage pool lost c caller (.error .halt)

section Frames

variable {m m' : Mem} {page rsp r : Word} {k : KernelState} {t : TaskId}

/-- The handler reads the registers of the interrupted context. -/
lemma syscallFrameAt_context (m : Mem) (rsp : Word) : syscallFrameAt m rsp =
    ⟨(taskContext m rsp).reg .rax, (taskContext m rsp).reg .rdi, (taskContext m rsp).reg .rsi,
      (taskContext m rsp).reg .rdx⟩ := rfl

/-- What is stored for `rax` is resumed there. -/
lemma taskContext_return (m : Mem) (rsp r : Word) :
    taskContext (store64 m (rsp.toNat + 112) r) rsp = (taskContext m rsp).setReg .rax r :=
  frameContext_store64 mem_pushOrder .rax r

/-- It stays on the page of the frame. -/
lemma return_changes (hf : FrameOn page rsp) (m : Mem) (r : Word) :
    ChangesOnly {page} m (store64 m (rsp.toNat + 112) r) := by
  intro x hx
  have hno : ¬ OnPage page x := hx page rfl
  unfold OnPage at hno
  unfold FrameOn at hf
  exact store64_outside m r (by omega)

/-- Strings of the user do not change as other pages are written. -/
lemma UserWindow.pathAt {P Q : Set Word} {a src : Word} {layout : UserVirtualLayout} {path : List Byte}
    (h : UserWindow P m a) (hm : ChangesOnly Q m m') (hwalk : ∀ v, mmuWalk m' a v = mmuWalk m a v)
    (hQ : ∀ q ∈ Q, q.toNat % 4096 = 0 ∧ q ∉ P) (hP : ∀ p ∈ P, p.toNat % 4096 = 0)
    (hpath : PathAt m' a layout src path) : PathAt m a layout src path := by
  have hbyte : ∀ i byte, PathByte m' a layout src i byte → PathByte m a layout src i byte := by
    rintro i byte ⟨hlt, ⟨hlower, hupper, t, ht, hu⟩, hbyte⟩
    have ht' : mmuWalk m a (src + BitVec.ofNat 64 i) = some t := (hwalk _).symm.trans ht
    have hframe := h.reach _ t ht' hu
    refine ⟨hlt, ⟨hlower, hupper, t, ht', hu⟩, ?_⟩
    unfold userByte at hbyte ⊢
    rw [ht, Option.map_some] at hbyte
    rw [ht', Option.map_some, ← hbyte]
    exact congrArg some (hm.byte (fun q hq => (hQ q hq).1) (hP _ hframe) (fun hq => (hQ _ hq).2 hframe)
      (onPage_frame _ _)).symm
  exact ⟨fun i hi => hbyte i _ (hpath.bytes i hi), hbyte _ _ hpath.nul, hpath.first, hpath.slash⟩

end Frames

section Calls

variable {K : KernelTables} {reserved : ReservedHeap} {entry rsp0Page idlePage : Word} {pool lost : Set Word}
  {own own' : Owner} {c : Machine KernelState} {caller caller' : UserTaskBootstrap}
  {l l' files files' nodes nodes' : List Word} {k' : KernelState} {m m' : Mem} {ctx : Context} {rsp : Word}
  {b : Build} {reusable : Word × Word}

/-- The user task makes a call. -/
lemma UserSystem.runs (h : UserSystem K entry reserved rsp0Page idlePage pool own c caller l files nodes)
    (ht : c.state.current = some .task1) (hm : ChangesOnly {rsp0Page} c.state.phys.mem m) :
    UserRuns K entry reserved [rsp0Page, idlePage] pool own (c.state.setPhys { c.state.phys with mem := m })
      caller l files nodes := by
  obtain ⟨t, hcurrent, hrun, -, hcr3⟩ := h.turn
  obtain rfl : .task1 = t := Option.some.inj (ht.symm.trans hcurrent)
  have hlife := h.life.setMem (hm.of_page (.inr (by simp [kernelPages])))
  refine ⟨hlife, ht, h.started, hrun, ?_⟩
  have hspace := ((h.ready .task1).user h.life.kind).1
  rw [h.life.bootstrap] at hspace
  exact hcr3.trans hspace

/-- The idle task's frame lies apart from what the call wrote. -/
lemma UserSystem.idle_frame (h : UserSystem K entry reserved rsp0Page idlePage pool own c caller l files nodes)
    (ht : c.state.current = some .task1) (hm : ChangesOnly {rsp0Page} c.state.phys.mem m)
    (hkeeps : KeepsPages [rsp0Page, idlePage] m k'.phys.mem) (hm' : ChangesOnly {rsp0Page} k'.phys.mem m') :
    taskContext m' (c.state.task .task0).rsp = contextOf c .task0 := by
  have hwaits : c.state.current ≠ some .task0 := by simp [ht]
  have hframe : FrameOn idlePage (c.state.task .task0).rsp := h.frames .task0 hwaits
  have hpage : ChangesOnly {interruptPage rsp0Page idlePage .task1} c.state.phys.mem m := hm
  have hother := h.other_frame ht hpage
  rw [TaskId.other] at hother
  have hwritten : KeepsPages [idlePage] k'.phys.mem m' :=
    .of_page hm' (h.pages .task1).2 (h.pages .task0).2 h.apart.symm
  rw [hwritten.context List.mem_cons_self hframe,
    hkeeps.context (List.mem_cons_of_mem _ List.mem_cons_self) hframe, hother]

/-- The user task can be resumed. -/
lemma UserRuns.ready (h : UserRuns K entry reserved [rsp0Page, idlePage] pool own' k' caller' l' files' nodes')
    (hrsp : (k'.task .task1).rsp ≠ 0#64) (hcr3 : (k'.task .task1).cr3 = caller'.addressSpace) :
    TaskReady k'.phys.pagingKernelPml4 (k'.task .task1) := by
  have hroot : k'.phys.pagingKernelPml4 = K.root := h.life.pages.inv.run.inv.root
  refine ⟨hrsp, fun hkind => ?_, fun _ => ⟨?_, ?_, ?_⟩⟩
  · rw [h.life.kind] at hkind
    cases hkind
  · rw [hcr3, h.life.bootstrap]
  · rw [hcr3]
    exact h.space
  · rw [hcr3, hroot]
    exact h.life.pages.space_ne

/-- The user task goes on. -/
lemma UserSystem.resume (h : UserSystem K entry reserved rsp0Page idlePage pool own c caller l files nodes)
    (ht : c.state.current = some .task1) (hm : ChangesOnly {rsp0Page} c.state.phys.mem m)
    (hruns : UserRuns K entry reserved [rsp0Page, idlePage] pool own' k' caller' l' files' nodes')
    (hother : ∃ table, k'.task .task0 = { c.state.task .task0 with fdTable := table })
    (hrsp : (k'.task .task1).rsp ≠ 0#64) (hcr3 : (k'.task .task1).cr3 = caller'.addressSpace)
    (hkeeps : KeepsPages [rsp0Page, idlePage] m k'.phys.mem) (hm' : ChangesOnly {rsp0Page} k'.phys.mem m')
    (hctx : privilege ctx.cs = 3#64) (hwindow : caller'.imagePhysicalBegin = elfUserLoadBase) :
    UserSystem K entry reserved rsp0Page idlePage pool own'
      ⟨k'.setPhys { k'.phys with mem := m' }, ctx⟩ caller' l' files' nodes' ∧
    contextOf ⟨k'.setPhys { k'.phys with mem := m' }, ctx⟩ .task0 = contextOf c .task0 := by
  obtain ⟨t, hcurrent, -, hrunnable, -⟩ := h.turn
  obtain rfl : .task1 = t := Option.some.inj (ht.symm.trans hcurrent)
  obtain ⟨table, hother⟩ := hother
  have hroot : k'.phys.pagingKernelPml4 = c.state.phys.pagingKernelPml4 :=
    hruns.life.pages.inv.run.inv.root.trans h.life.pages.inv.run.inv.root.symm
  have hwaits : c.state.current ≠ some .task0 := by simp [ht]
  have hidle : contextOf ⟨k'.setPhys { k'.phys with mem := m' }, ctx⟩ .task0 = contextOf c .task0 := by
    have hcurrent' : k'.current ≠ some .task0 := by simp [hruns.current]
    rw [contextOf_waiting hcurrent']
    change taskContext m' (k'.task .task0).rsp = _
    rw [hother]
    exact h.idle_frame ht hm hkeeps hm'
  have hlife := hruns.life.setMem (hm'.of_page (.inr (by simp [kernelPages])))
  refine ⟨⟨hlife, h.apart, ?_, fun u => ?_, hruns.started, ⟨.task1, hruns.current, hruns.running, ?_, ?_⟩,
    fun u hu => ?_, fun u => ?_, hwindow⟩, hidle⟩
  · change (k'.task .task0).kind = .kernel
    rw [hother]
    exact h.idle
  · change TaskReady k'.phys.pagingKernelPml4 (k'.task u)
    cases u with
    | task0 =>
      have hready := h.ready .task0
      rw [hroot, hother]
      exact ⟨hready.rsp, hready.kernel, hready.user⟩
    | task1 => exact hruns.ready hrsp hcr3
  · change (k'.task .task0).state = .runnable
    rw [hother]
    exact hrunnable
  · exact hruns.loaded.trans hcr3.symm
  · cases u with
    | task0 =>
      change FrameOn idlePage (k'.task .task0).rsp
      rw [hother]
      exact h.frames .task0 hwaits
    | task1 => exact absurd hruns.current hu
  · cases u with
    | task0 =>
      rw [hidle]
      exact h.contexts .task0
    | task1 =>
      rw [contextOf_current hruns.current]
      exact hctx

/-- What happens on the stack between two halves of a call does not concern the code. -/
lemma UserSystem.keepsCode (h : UserSystem K entry reserved rsp0Page idlePage pool own c caller l files nodes)
    (hm : ChangesOnly {rsp0Page} c.state.phys.mem m)
    (hkeeps : KeepsPages (kernelPages entry [rsp0Page, idlePage]) m k'.phys.mem)
    (hm' : ChangesOnly {rsp0Page} k'.phys.mem m') : KeepsPages [pageAddress entry] c.state.phys.mem m' := by
  have hcode {s s' : Mem} (hs : ChangesOnly {rsp0Page} s s') : KeepsPages [pageAddress entry] s s' :=
    .of_page hs (h.pages .task1).2 (h.life.kernel _ List.mem_cons_self).1.page fun he =>
      h.life.code (he ▸ List.mem_cons_self)
  have hcall : KeepsPages [pageAddress entry] m k'.phys.mem :=
    hkeeps.mono fun q hq => List.mem_singleton.mp hq ▸ List.mem_cons_self
  exact ((hcode hm).trans hcall).trans (hcode hm')

/-- A task that gave up its turn. -/
lemma UserSystem.yielded (h : UserSystem K entry reserved rsp0Page idlePage pool own c caller l files nodes)
    (ht : c.state.current = some .task1) (hm : ChangesOnly {rsp0Page} c.state.phys.mem m)
    (hrsp : FrameOn rsp0Page rsp) (r : Word) (hsaved : taskContext m rsp = c.ctx) :
    schedTick (c.state.setPhys { c.state.phys with mem := m }) rsp = .ok ((c.state.task .task0).rsp,
      switched (c.state.setPhys { c.state.phys with mem := m }) .task1 rsp) ∧
    ∃ c', c' = ⟨switched (c.state.setPhys { c.state.phys with mem := store64 m (rsp.toNat + 112) r }) .task1 rsp,
        taskContext (store64 m (rsp.toNat + 112) r) (c.state.task .task0).rsp⟩ ∧
      UserSystem K entry reserved rsp0Page idlePage pool own c' caller l files nodes ∧
      contextOf c' .task1 = c.ctx.setReg .rax r ∧ contextOf c' .task0 = contextOf c .task0 ∧
      userReads c'.state.phys.mem caller.addressSpace = userReads c.state.phys.mem caller.addressSpace ∧
      SystemKeeps entry c c' := by
  obtain ⟨t, hcurrent, hrun, hother, -⟩ := h.turn
  obtain rfl : .task1 = t := Option.some.inj (ht.symm.trans hcurrent)
  have hctx := h.contexts .task1
  rw [contextOf_current ht] at hctx
  have hreturn : taskContext (store64 m (rsp.toNat + 112) r) rsp = c.ctx.setReg .rax r := by
    rw [taskContext_return, hsaved]
  have hwritten : ChangesOnly {interruptPage rsp0Page idlePage .task1} c.state.phys.mem
      (store64 m (rsp.toNat + 112) r) := hm.trans (return_changes hrsp m r)
  have hswitch := h.switch (k := c.state.setPhys { c.state.phys with mem := store64 m (rsp.toNat + 112) r })
    ht rfl h.started rfl hwritten hrsp (by rw [hreturn]; exact hctx)
  have hreads := h.reads (hwritten.of_page (by simp [interruptPage]))
  have hcode : KeepsPages [pageAddress entry] c.state.phys.mem (store64 m (rsp.toNat + 112) r) :=
    h.keepsCode hm (show KeepsPages _ m (c.state.setPhys { c.state.phys with mem := m }).phys.mem from .refl _ _)
      (return_changes hrsp m r)
  refine ⟨?_, _, rfl, hswitch.1, hswitch.2.1.trans hreturn, hswitch.2.2, hreads, hcode,
    .of_eq (fun _ _ => rfl) rfl rfl rfl⟩
  exact schedTick_switched (k := c.state.setPhys { c.state.phys with mem := m }) h.started ht hrun (h.ready .task1).rsp hother (h.ready .task0) rsp

/-- What the stub resumes when the dispatch returns. -/
lemma archSyscallEntry_ok {next : Word} {frame : SyscallFrame} (left : Reg → Word) (selector offset : Word)
    (hroom : 160 ≤ (interruptStack (rsp0Page + 4096#64) c.ctx).toNat)
    (hentered : enteredState (rsp0Page + 4096#64) c = c.state.setPhys { c.state.phys with mem := m })
    (hcall : (kernelSyscallEntry b (c.state.setPhys { c.state.phys with mem := m })
      (enteredRsp (rsp0Page + 4096#64) c) (syscallFrameAt m (enteredRsp (rsp0Page + 4096#64) c)) reusable).result =
        .ok (next, frame, k')) (hnext : next.toNat + 160 ≤ 2 ^ 64) :
    run (archSyscallEntry b reusable left) (deliver (rsp0Page + 4096#64) selector offset c) =
      .ok ⟨k'.setPhys { k'.phys with
          mem := store64 k'.phys.mem ((enteredRsp (rsp0Page + 4096#64) c).toNat + 112) frame.rax },
        taskContext (store64 k'.phys.mem ((enteredRsp (rsp0Page + 4096#64) c).toNat + 112) frame.rax) next⟩ := by
  refine entryStub_ok left selector offset hroom ?_ hnext
  rw [hentered]
  unfold kernelSyscallEntryAt
  change ((kernelSyscallEntry b _ _ (syscallFrameAt m _) reusable).result >>= _) = _
  rw [hcall]
  rfl

/-- A call that halts the machine does so behind the stub. -/
lemma archSyscallEntry_error {e : Stop} (left : Reg → Word) (selector offset : Word)
    (hroom : 160 ≤ (interruptStack (rsp0Page + 4096#64) c.ctx).toNat)
    (hentered : enteredState (rsp0Page + 4096#64) c = c.state.setPhys { c.state.phys with mem := m })
    (hcall : (kernelSyscallEntry b (c.state.setPhys { c.state.phys with mem := m })
      (enteredRsp (rsp0Page + 4096#64) c) (syscallFrameAt m (enteredRsp (rsp0Page + 4096#64) c)) reusable).result =
        .error e) :
    run (archSyscallEntry b reusable left) (deliver (rsp0Page + 4096#64) selector offset c) = .error e := by
  refine entryStub_error left selector offset hroom ?_
  rw [hentered]
  unfold kernelSyscallEntryAt
  change ((kernelSyscallEntry b _ _ (syscallFrameAt m _) reusable).result >>= _) = _
  rw [hcall]
  rfl

/-- The user task goes on after a call, with the answer in `rax`. -/
lemma UserSystem.answered (h : UserSystem K entry reserved rsp0Page idlePage pool own c caller l files nodes)
    (ht : c.state.current = some .task1) (hm : ChangesOnly {rsp0Page} c.state.phys.mem m)
    (hsaved : taskContext m rsp = c.ctx) (hframe : FrameOn rsp0Page rsp)
    (hruns : UserRuns K entry reserved [rsp0Page, idlePage] pool own' k' caller l' files' nodes')
    (hsame : SameSched (c.state.setPhys { c.state.phys with mem := m }) k')
    (hkernel : KeepsPages (kernelPages entry [rsp0Page, idlePage]) m k'.phys.mem)
    (hfiles : FilesFramed ∅ c.state.store k'.store)
    {r : Word} (hanswer : CallAnswer (c.ctx.reg .rax) c.state.kernelTicks r (k'.phys.mem = m)) :
    SystemCallEnd K entry reserved rsp0Page idlePage pool lost c caller
      (.ok ⟨k'.setPhys { k'.phys with mem := store64 k'.phys.mem (rsp.toNat + 112) r },
        taskContext (store64 k'.phys.mem (rsp.toNat + 112) r) rsp⟩) := by
  have hctx := h.contexts .task1
  rw [contextOf_current ht] at hctx
  have hready := h.ready .task1
  have hspace := (hready.user h.life.kind).1
  rw [h.life.bootstrap] at hspace
  have hkeeps : KeepsPages [rsp0Page, idlePage] m k'.phys.mem := hkernel.mono fun q hq => List.mem_cons_of_mem _ hq
  have hreturn : taskContext (store64 k'.phys.mem (rsp.toNat + 112) r) rsp = c.ctx.setReg .rax r := by
    rw [taskContext_return, hkeeps.context List.mem_cons_self hframe, hsaved]
  have hrsp : (k'.task .task1).rsp ≠ 0#64 := by
    rw [hsame.task]
    exact hready.rsp
  have hcr3 : (k'.task .task1).cr3 = caller.addressSpace := by
    rw [hsame.task]
    exact hspace
  have hring : privilege (taskContext (store64 k'.phys.mem (rsp.toNat + 112) r) rsp).cs = 3#64 := by
    rw [hreturn]
    exact hctx
  obtain ⟨hsystem, hidle⟩ := h.resume ht hm hruns ⟨_, hsame.task .task0⟩ hrsp hcr3 hkeeps
    (return_changes hframe k'.phys.mem r) hring h.window
  have hquiet (hm' : k'.phys.mem = m) :
      userReads (store64 k'.phys.mem (rsp.toNat + 112) r) caller.addressSpace =
        userReads c.state.phys.mem caller.addressSpace := by
    rw [hm']
    exact h.reads ((hm.trans (return_changes hframe m r)).of_page (by simp))
  refine .returned r hsystem ?_ hidle ⟨hanswer.stays, hanswer.plain, hanswer.ticks, hanswer.unknown,
    fun hread hexec => hquiet (hanswer.quiet hread hexec)⟩ (.inr hruns.current)
    ⟨h.keepsCode hm hkernel (return_changes hframe _ r), hfiles.trans (.of_eq (fun _ _ => rfl) rfl rfl rfl)⟩
  rw [contextOf_current hruns.current]
  exact hreturn

/-- The path that is read is the one that the task wrote. -/
lemma UserSystem.execPath (h : UserSystem K entry reserved rsp0Page idlePage pool own c caller l files nodes)
    (hm : ChangesOnly {rsp0Page} c.state.phys.mem m) {path : List Byte} {src : Word}
    (hpath : ExecPathAt (c.state.setPhys { c.state.phys with mem := m }) caller src path) :
    ExecPathAt c.state caller src path := by
  have hkernel := h.life.kernel rsp0Page (by simp [kernelPages])
  refine ⟨h.life.window.pathAt hm (h.life.walk_held (h.life.held_stack List.mem_cons_self) hm) (fun q hq => ?_) (fun p hp => ?_) hpath.1, hpath.2⟩
  · rw [Set.mem_singleton_iff.mp hq]
    refine ⟨hkernel.1.page.aligned, fun hr => ?_⟩
    exact hr.elim hkernel.2 fun he => h.life.code (he ▸ List.mem_cons_self)
  · exact (h.life.held p (reachedPages_life hp)).page.aligned

/-- The new program is none of the page where the answer is stored. -/
lemma UserRuns.stored {plan : ElfPlan} {image : Mem} {imageSize a stackPage : Word}
    (hruns : UserRuns K entry reserved [rsp0Page, idlePage] pool own' k' (plan.bootstrap entry a stackPage) l' files'
      nodes') (hplan : execPlan image imageSize = some plan) (hframe : FrameOn rsp0Page rsp)
    (hmapped : ProgramMapped k'.phys.mem a entry stackPage image plan) (r : Word) :
    ProgramMapped (store64 k'.phys.mem (rsp.toNat + 112) r) a entry stackPage image plan := by
  have hv := (elfCheck_valid hplan).1
  have hchanges := return_changes hframe k'.phys.mem r
  have hkernel := hruns.life.kernel rsp0Page (by simp [kernelPages])
  refine hmapped.kept hv (hruns.life.walk_held (hruns.life.held_stack List.mem_cons_self) hchanges) hchanges fun p hp => ?_
  rw [Set.mem_singleton_iff.mp hp]
  refine ⟨hkernel.1.page.aligned, fun hw => hkernel.2 (List.mem_cons_of_mem _ ?_)⟩
  rw [ElfPlan.imagePages_bootstrap hv]
  exact hw

/-- A new program starts in its trampoline. -/
lemma UserSystem.replaced (h : UserSystem K entry reserved rsp0Page idlePage pool own c caller l files nodes)
    (ht : c.state.current = some .task1) (hm : ChangesOnly {rsp0Page} c.state.phys.mem m)
    (hframe : FrameOn rsp0Page rsp)
    (hruns : UserRuns K entry reserved [rsp0Page, idlePage] pool own' k' caller' l' files' nodes')
    (hother : k'.task .task0 = c.state.task .task0) (hrsp : (k'.task .task1).rsp = execFrame caller')
    (hcr3 : (k'.task .task1).cr3 = caller'.addressSpace)
    (hcontext : taskContext k'.phys.mem (execFrame caller') = userContext caller')
    (hkernel : KeepsPages (kernelPages entry [rsp0Page, idlePage]) m k'.phys.mem)
    (hfiles : FilesFramed ∅ c.state.store k'.store) (hwindow : caller'.imagePhysicalBegin = elfUserLoadBase)
    (hrax : c.ctx.reg .rax = sysExec) (r : Word) (hloaded : ExecLoads entry c caller caller'
      (store64 k'.phys.mem (rsp.toNat + 112) r)) :
    SystemCallEnd K entry reserved rsp0Page idlePage pool lost c caller
      (.ok ⟨k'.setPhys { k'.phys with mem := store64 k'.phys.mem (rsp.toNat + 112) r },
        taskContext (store64 k'.phys.mem (rsp.toNat + 112) r) (execFrame caller')⟩) := by
  have hchanges := return_changes hframe k'.phys.mem r
  have hstack : IsPage caller'.userStackPage := hruns.life.pages.stack.page
  have hapart : rsp0Page ≠ caller'.userStackPage := by
    rintro he
    have hkernel := hruns.life.kernel rsp0Page (by simp [kernelPages])
    exact hkernel.2 (he ▸ List.mem_cons_self)
  have hon : FrameOn caller'.userStackPage (execFrame caller') := by
    have hlt := hstack.lt
    have hnat : (caller'.userStackPage + 4096#64 - 160#64).toNat = caller'.userStackPage.toNat + 3936 := by
      bv_omega
    unfold FrameOn execFrame
    rw [hnat]
    omega
  have hkept : KeepsPages [caller'.userStackPage] k'.phys.mem (store64 k'.phys.mem (rsp.toNat + 112) r) :=
    .of_page hchanges (h.pages .task1).2 hstack hapart.symm
  have hstart : taskContext (store64 k'.phys.mem (rsp.toNat + 112) r) (execFrame caller') =
      userContext caller' := by
    rw [hkept.context List.mem_cons_self hon, hcontext]
  have hne : (k'.task .task1).rsp ≠ 0#64 := by
    rw [hrsp]
    rintro he
    have hlo : caller'.userStackPage.toNat ≤ (execFrame caller').toNat := hon.1
    rw [he] at hlo
    exact hstack.ne_zero (BitVec.eq_of_toNat_eq (Nat.le_zero.mp hlo))
  have hring : privilege (taskContext (store64 k'.phys.mem (rsp.toNat + 112) r) (execFrame caller')).cs =
      3#64 := by
    rw [hstart]
    change privilege 0x0023#64 = 3#64
    decide
  obtain ⟨hsystem, hidle⟩ := h.resume ht hm hruns ⟨_, by rw [hother]⟩ hne hcr3
    (hkernel.mono fun q hq => List.mem_cons_of_mem _ hq) hchanges hring hwindow
  exact .replaced hrax hsystem hruns.current hstart hidle hloaded
    ⟨h.keepsCode hm hkernel hchanges, hfiles.trans (.of_eq (fun _ _ => rfl) rfl rfl rfl)⟩

/-- The idle task goes on when the user task is gone. -/
lemma UserSystem.exited (h : UserSystem K entry reserved rsp0Page idlePage pool own c caller l files nodes)
    (ht : c.state.current = some .task1) (hm : ChangesOnly {rsp0Page} c.state.phys.mem m)
    (hframe : FrameOn rsp0Page rsp) (hgone : UserGone K reserved [rsp0Page, idlePage] pool lost k')
    (htask : k'.task .task0 = { c.state.task .task0 with state := .running })
    (hroot : k'.phys.pagingKernelPml4 = c.state.phys.pagingKernelPml4)
    (hkernel : KeepsPages (kernelPages entry [rsp0Page, idlePage]) m k'.phys.mem)
    (hfiles : FilesFramed ∅ c.state.store k'.store) (hrax : c.ctx.reg .rax = sysExit) (r : Word) :
    SystemCallEnd K entry reserved rsp0Page idlePage pool lost c caller
      (.ok ⟨k'.setPhys { k'.phys with mem := store64 k'.phys.mem (rsp.toNat + 112) r },
        taskContext (store64 k'.phys.mem (rsp.toNat + 112) r) (c.state.task .task0).rsp⟩) := by
  have hchanges := return_changes hframe k'.phys.mem r
  have hidle := h.idle_frame ht hm (hkernel.mono fun q hq => List.mem_cons_of_mem _ hq) hchanges
  have hready := h.ready .task0
  refine .exited hrax ⟨?_, ?_, ?_, ?_⟩ hidle
    ⟨h.keepsCode hm hkernel hchanges, hfiles.trans (.of_eq (fun _ _ => rfl) rfl rfl rfl)⟩
  · exact hgone.other (hchanges.of_page (by simp)) hgone.current hgone.started hgone.running rfl rfl rfl
  · change (k'.task .task0).kind = .kernel
    rw [htask]
    exact h.idle
  · change TaskReady k'.phys.pagingKernelPml4 (k'.task .task0)
    rw [hroot, htask]
    exact ⟨hready.rsp, hready.kernel, hready.user⟩
  · rw [hidle]
    exact h.contexts .task0

/-- What the dispatch does with the frame of the interrupted context. -/
lemma UserSystem.dispatched
    (h : UserSystem K b.archUserProgramEntry reserved rsp0Page idlePage pool own c caller l files nodes)
    (ht : c.state.current = some .task1) (hentry : b.archUserProgramEntry.toNat < 2 ^ 52)
    (hhook : b.userTestExecTransferFail = false) (hfits : CallFits b.archUserProgramEntry c)
    (hm : ChangesOnly {rsp0Page} c.state.phys.mem m) (hsaved : taskContext m rsp = c.ctx)
    (reusable : Word × Word) :
    UserCallEnd K b.archUserProgramEntry reserved [rsp0Page, idlePage] pool
      (c.state.setPhys { c.state.phys with mem := m }) caller rsp (syscallFrameAt m rsp) reusable
      (kernelSyscallEntry b (c.state.setPhys { c.state.phys with mem := m }) rsp (syscallFrameAt m rsp)
        reusable).result := by
  have hframeAt := syscallFrameAt_context m rsp
  rw [hsaved] at hframeAt
  have hcr3 : c.state.phys.cr3 = caller.addressSpace := (h.runs ht (.refl _ _)).loaded
  refine (h.runs ht hm).call hentry hhook (fun hrax y hy t hwalk => ?_)
    fun hrax path image imageSize s hpath ho => ⟨h.window, fun plan hplan => ?_⟩
  · rw [hframeAt] at hrax hy
    refine hfits.buffer hrax y hy t ?_
    rw [hcr3, ← h.life.walk_held (h.life.held_stack List.mem_cons_self) hm y, ← hcr3]
    exact hwalk
  · rw [hframeAt] at hrax hpath
    rw [← h.life.bootstrap]
    exact hfits.window hrax path image imageSize plan (h.life.bootstrap.symm ▸ h.execPath hm hpath)
      ⟨ho.executable, ho.image⟩ hplan

/-- Every call of the user task comes to one of these ends. -/
theorem UserSystem.syscall
    (h : UserSystem K b.archUserProgramEntry reserved rsp0Page idlePage pool own c caller l files nodes)
    (ht : c.state.current = some .task1) (hentry : b.archUserProgramEntry.toNat < 2 ^ 52)
    (hhook : b.userTestExecTransferFail = false) (hfits : CallFits b.archUserProgramEntry c)
    (reusable : Word × Word) (left : Reg → Word) (selector offset : Word) :
    SystemCallEnd K b.archUserProgramEntry reserved rsp0Page idlePage pool
      {p | pageInRange p reusable.1 reusable.2 = true} c caller
      (run (archSyscallEntry b reusable left) (deliver (rsp0Page + 4096#64) selector offset c)) := by
  obtain ⟨hroom, m, hentered, hm, hsaved, hframe⟩ := h.entered ht
  have hruns := h.runs ht hm
  have hframeAt := syscallFrameAt_context m (enteredRsp (rsp0Page + 4096#64) c)
  rw [hsaved] at hframeAt
  have hend := h.dispatched ht hentry hhook hfits hm hsaved reusable
  generalize hcall : (kernelSyscallEntry b (c.state.setPhys { c.state.phys with mem := m })
    (enteredRsp (rsp0Page + 4096#64) c) (syscallFrameAt m (enteredRsp (rsp0Page + 4096#64) c)) reusable).result = x
    at hend
  cases hend with
  | returned r hruns' hsame hkeeps hfiles hanswer =>
    rw [archSyscallEntry_ok left selector offset hroom hentered hcall (h.frame_lt hframe)]
    rw [hframeAt] at hanswer
    exact h.answered ht hm hsaved hframe hruns' hsame hkeeps (hfiles.congr_left rfl rfl rfl rfl) hanswer
  | yielded hrax =>
    obtain ⟨htick, c', hc', hsystem, huser, hidle, hreads, hkeeps⟩ := h.yielded ht hm hframe sysResultOk hsaved
    rw [htick] at hcall
    rw [archSyscallEntry_ok left selector offset hroom hentered hcall
      (h.frame_lt (h.frames .task0 (by simp [ht])))]
    subst hc'
    rw [hframeAt] at hrax
    have hrax : c.ctx.reg .rax = sysYield := hrax
    have hanswer : CallAnswer sysYield c.state.kernelTicks sysResultOk (userReads _ _ = _) :=
      ⟨by decide, fun _ => rfl, fun h => absurd h (by decide), fun h => absurd h (by decide), fun _ _ => hreads⟩
    exact .returned sysResultOk hsystem huser hidle (hrax ▸ hanswer) (.inl ⟨hrax, rfl⟩) hkeeps
  | exited hrax =>
    obtain ⟨t, hcurrent, -, hother, -⟩ := h.turn
    obtain rfl : .task1 = t := Option.some.inj (ht.symm.trans hcurrent)
    obtain ⟨k', hexit, hgone, htask, hroot, hkeeps, hfiles⟩ := hruns.exits hother (h.ready .task0) reusable
    rw [hexit] at hcall
    rw [archSyscallEntry_ok left selector offset hroom hentered hcall
      (h.frame_lt (h.frames .task0 (by simp [ht])))]
    rw [hframeAt] at hrax
    exact h.exited ht hm hframe hgone htask hroot hkeeps (hfiles.congr_left rfl rfl rfl rfl) hrax sysResultOk
  | replaced hrax hruns' hother hrsp hcr3 hcontext hkeeps hfiles hloaded =>
    obtain ⟨path, image, imageSize, plan, a, stackPage, hpath, hoffers, hplan, rfl, hmapped⟩ := hloaded
    rw [hframeAt] at hpath
    have hnext : (execFrame (plan.bootstrap b.archUserProgramEntry a stackPage)).toNat + 160 ≤ 2 ^ 64 := by
      have hlt := hruns'.life.pages.stack.page.lt
      unfold execFrame
      bv_omega
    rw [archSyscallEntry_ok left selector offset hroom hentered hcall hnext]
    rw [hframeAt] at hrax
    exact h.replaced ht hm hframe hruns' hother hrsp hcr3 hcontext hkeeps (hfiles.congr_left rfl rfl rfl rfl) rfl
      hrax _
      ⟨path, image, imageSize, plan, a, stackPage, h.execPath hm hpath, hoffers, hplan, rfl,
        hruns'.stored hplan hframe hmapped _⟩
  | halted hrax hshort =>
    obtain ⟨path, image, imageSize, l', hpath, hoffers, hfree, hshort⟩ := hshort
    rw [hframeAt] at hpath
    obtain rfl : l' = l := hfree.unique hruns.life.free
    rw [archSyscallEntry_error left selector offset hroom hentered hcall]
    rw [hframeAt] at hrax
    exact .halted hrax ⟨path, image, imageSize, l', h.execPath hm hpath, hoffers, h.life.free, hshort⟩

end Calls

end Platinum
