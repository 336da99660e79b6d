import Platinum.EntryStubs
import Platinum.ExecHalt
import Platinum.UserLife

/-!
# Every call of the user task

However a call ends, the task holds its pages afterwards, and the kernel's stacks
are as they were. Only exec can halt the machine.
-/
namespace Platinum
open ByteMemory BlockList SharedTrie

/-- The user task is running. -/
structure UserRuns (K : KernelTables) (entry : Word) (reserved : ReservedHeap) (stackPages : List Word) (pool : Set Word)
    (own : Owner) (k : KernelState) (caller : UserTaskBootstrap) (l files nodes : List Word) : Prop where
  life : UserLife K entry reserved stackPages pool own k caller l files nodes
  current : k.current = some .task1
  started : k.schedStarted = true
  running : (k.task .task1).state = .running
  loaded : k.phys.cr3 = caller.addressSpace

/-- The path names an executable with that image. -/
def OffersImage (k : Store) (path : List Byte) (image : Mem) (imageSize : Word) : Prop :=
  ExecutableAt k path ∧ nodeImage (k.node (vfsWalkPath k path)) = some (image, imageSize)

/-- The calls whose answers come from the descriptors or from exec. -/
def objectCalls : List Word := [sysRead, sysWrite, sysOpen, sysExec, sysClose, sysDup]

/-- What the call `rax` may answer. Calls that do not exist are errors, exit has no answer, and but
for read and exec, `quiet` holds. -/
structure CallAnswer (rax ticks r : Word) (quiet : Prop) : Prop where
  stays : rax ≠ sysExit
  plain : rax = sysPutc ∨ rax = sysYield → r = sysResultOk
  ticks : rax = sysGetTicks → r = ticks
  unknown : 10 ≤ rax.toNat → r = sysResultError
  quiet : rax ≠ sysRead → rax ≠ sysExec → quiet

/-- The ends of a call in the state `k`, with the frame at `rsp`. -/
inductive UserCallEnd (K : KernelTables) (entry : Word) (reserved : ReservedHeap) (stackPages : List Word) (pool : Set Word)
    (k : KernelState) (caller : UserTaskBootstrap) (rsp : Word) (frame : SyscallFrame) (reusable : Word × Word) :
    Run SyscallOutcome → Prop
  | returned {own : Owner} {k' : KernelState} {l files nodes : List Word} (r : Word)
      (hruns : UserRuns K entry reserved stackPages pool own k' caller l files nodes) (hsame : SameSched k k')
      (hkeeps : KeepsPages (kernelPages entry stackPages) k.phys.mem k'.phys.mem)
      (hfiles : FilesFramed ∅ k.store k'.store)
      (hanswer : CallAnswer frame.rax k.kernelTicks r (k'.phys.mem = k.phys.mem)) :
      UserCallEnd K entry reserved stackPages pool k caller rsp frame reusable (.ok (rsp, syscallReturn frame r, k'))
  | yielded (hrax : frame.rax = sysYield) :
      UserCallEnd K entry reserved stackPages pool k caller rsp frame reusable
        ((schedTick k rsp).map fun r => (r.1, syscallReturn frame sysResultOk, r.2))
  | exited (hrax : frame.rax = sysExit) :
      UserCallEnd K entry reserved stackPages pool k caller rsp frame reusable
        ((schedExitCurrent k reusable).map fun r => (r.1, syscallReturn frame sysResultOk, r.2))
  | replaced {own : Owner} {k' : KernelState} {bootstrap : UserTaskBootstrap}
      {l files nodes : List Word} (hrax : frame.rax = sysExec)
      (hruns : UserRuns K entry reserved stackPages pool own k' bootstrap l files nodes)
      (hother : k'.task .task0 = k.task .task0) (hrsp : (k'.task .task1).rsp = execFrame bootstrap)
      (hcr3 : (k'.task .task1).cr3 = bootstrap.addressSpace)
      (hcontext : taskContext k'.phys.mem (execFrame bootstrap) = userContext bootstrap)
      (hkeeps : KeepsPages (kernelPages entry stackPages) k.phys.mem k'.phys.mem)
      (hfiles : FilesFramed ∅ k.store k'.store)
      (hloaded : ∃ path image imageSize plan a stackPage, ExecPathAt k caller frame.rdi path ∧
        OffersImage k.store path image imageSize ∧ execPlan image imageSize = some plan ∧
        bootstrap = plan.bootstrap entry a stackPage ∧ ProgramMapped k'.phys.mem a entry stackPage image plan) :
      UserCallEnd K entry reserved stackPages pool k caller rsp frame reusable
        (.ok (execFrame bootstrap, frame, k'))
  | halted (hrax : frame.rax = sysExec)
      (hshort : ∃ path image imageSize l, ExecPathAt k caller frame.rdi path ∧
        OffersImage k.store path image imageSize ∧ FreeList k.phys l ∧ TablesShort caller image imageSize l) :
      UserCallEnd K entry reserved stackPages pool k caller rsp frame reusable (.error .halt)

section Runs

variable {K : KernelTables} {own : Owner} {k k' : KernelState} {caller : UserTaskBootstrap}
  {l files nodes files' nodes' stackPages : List Word} {reserved : ReservedHeap} {pool : Set Word} {entry rsp : Word}
  {store : Store} {frame : SyscallFrame} {reusable : Word × Word} {b : Build} {table : FdTable}
  {own' : Owner} {l' : List Word}

lemma UserRuns.space (h : UserRuns K entry reserved stackPages pool own k caller l files nodes) :
    caller.addressSpace ≠ 0#64 :=
  (h.life.pages.inv.run.inv.own_page (h.life.pages.inv.run.space _ h.life.pages.space)).ne_zero

lemma UserRuns.bootstrap (h : UserRuns K entry reserved stackPages pool own k caller l files nodes) :
    schedCurrentUserBootstrap k = some caller := by
  unfold schedCurrentUserBootstrap
  rw [h.current]
  dsimp only
  rw [h.life.bootstrap, if_neg (by simp [h.life.kind, h.running]), if_neg h.space]

lemma UserRuns.pages (h : UserRuns K entry reserved stackPages pool own k caller l files nodes) :
    CallerPages K own k.phys caller l [caller.addressSpace] := by
  have hpages := h.life.pages
  have hphys : { k.phys with cr3 := caller.addressSpace } = k.phys := by rw [← h.loaded]
  rwa [hphys] at hpages

/-- A running user task is one that `SYS_EXEC` can replace. -/
lemma UserRuns.holder (h : UserRuns K entry reserved stackPages pool own k caller l files nodes) :
    ExecHolder K own k .task1 caller l [caller.addressSpace] reserved.blocks [] files nodes := by
  have hfree := h.pages.inv.run.inv.free
  have hbeside : HeapBeside (programPages caller own) reserved.blocks k.store.heap k.store.phys
      (objectPtrs k.store files nodes) :=
    h.life.objects.heap.2.trade hfree hfree (fun p hp => .inl hp) (fun p hp => .inr (.inl hp))
      fun p hp hm => h.pages.program_used hm hp
  refine ⟨⟨h.current, h.started, h.bootstrap, h.pages, ?_, h.life.table, by simp, h.life.walk⟩, hbeside⟩
  rw [List.append_nil]
  exact ⟨h.life.objects.counts, hbeside.heapWith⟩

/-- The task goes on after a call that did not concern the scheduler. -/
lemma UserRuns.same (h : UserRuns K entry reserved stackPages pool own k caller l files nodes)
    (hsame : SameSched k k')
    (hlife : UserLife K entry reserved stackPages pool own' k' caller l' files' nodes') :
    UserRuns K entry reserved stackPages pool own' k' caller l' files' nodes' := by
  refine ⟨hlife, hsame.current.trans h.current, hsame.started.trans h.started, ?_, hsame.cr3.trans h.loaded⟩
  rw [hsame.task]
  exact h.running

lemma CallAnswer.object {rax ticks : Word} {quiet : Prop} (hrax : rax ∈ objectCalls)
    (hquiet : rax ≠ sysRead → rax ≠ sysExec → quiet) (r : Word) : CallAnswer rax ticks r quiet := by
  have hno : rax ≠ sysExit ∧ ¬ (rax = sysPutc ∨ rax = sysYield) ∧ rax ≠ sysGetTicks ∧ ¬ 10 ≤ rax.toNat := by
    clear hquiet
    simp only [objectCalls, List.mem_cons, List.not_mem_nil, or_false] at hrax
    rcases hrax with rfl | rfl | rfl | rfl | rfl | rfl <;> decide
  exact ⟨hno.1, fun h => absurd h hno.2.1, fun h => absurd h hno.2.2.1, fun h => absurd h hno.2.2.2, hquiet⟩

/-- Nothing happened. -/
lemma UserRuns.answers (h : UserRuns K entry reserved stackPages pool own k caller l files nodes) {r : Word}
    (hanswer : CallAnswer frame.rax k.kernelTicks r True) :
    UserCallEnd K entry reserved stackPages pool k caller rsp frame reusable
      (.ok (rsp, syscallReturn frame r, k)) :=
  .returned r h ⟨fun _ => rfl, rfl, rfl, rfl, rfl, rfl⟩ (.refl _ _) (.refl _ _)
    ⟨hanswer.stays, hanswer.plain, hanswer.ticks, hanswer.unknown, fun _ _ => rfl⟩

/-- An error before anything happened. -/
lemma UserRuns.refused (h : UserRuns K entry reserved stackPages pool own k caller l files nodes)
    (hrax : frame.rax ∈ objectCalls) :
    UserCallEnd K entry reserved stackPages pool k caller rsp frame reusable
      (.ok (rsp, syscallReturn frame sysResultError, k)) :=
  h.answers (.object hrax (fun _ _ => trivial) _)

lemma sameSched_withTable (k : KernelState) (t : TaskId) (table : FdTable) (hg : SameGlobals k.phys store.phys) :
    SameSched k (k.withTable t table store) := by
  refine ⟨fun u => ?_, rfl, rfl, rfl, hg.cr3, hg.kernelPml4⟩
  by_cases hu : u = t
  · rw [hu]
    unfold KernelState.withTable
    rw [KernelState.setTask_same]
  · unfold KernelState.withTable
    rw [KernelState.setTask_ne hu]
    rfl

/-- A call on the descriptors. -/
lemma UserRuns.descriptors (h : UserRuns K entry reserved stackPages pool own k caller l files nodes)
    (hs : TableStep (UserHeap (programPages caller own ∪ {p | p ∈ kernelPages entry stackPages}) reserved)
      k.store [] files nodes store table files' nodes') (hphys : store.phys = k.phys)
    (hfew : nodes'.length ≤ 2) (hbusy : AllBusy store files' nodes')
    (hfiles : FilesFramed ∅ k.store store) (hrax : frame.rax ∈ objectCalls) (r : Word) :
    UserCallEnd K entry reserved stackPages pool k caller rsp frame reusable
      (.ok (rsp, syscallReturn frame r, k.withTable .task1 table store)) := by
  have hlife := h.life.tableStep hs (hphys ▸ .refl _ _) hfew hbusy
  have hsame : SameSched k (k.withTable .task1 table store) :=
    sameSched_withTable k .task1 table (hphys ▸ .refl _)
  have hmem : (k.withTable .task1 table store).phys.mem = k.phys.mem := congrArg Phys.mem hphys
  refine .returned r (h.same hsame hlife) hsame (fun p _ x _ => ?_) hfiles (.object hrax (fun _ _ => hmem) r)
  rw [hmem]

/-- A call that used a buffer of the program. Only read writes to it. -/
lemma UserRuns.answered (h : UserRuns K entry reserved stackPages pool own k caller l files nodes)
    {x : UserAccess (Int × Store)} {P : Set Word} (hx : AnswersOn P k.phys x)
    (hP : ∀ p ∈ P, p ∈ caller.ownPages)
    (hmoved : ∀ r store, x.result = .ok (r, store) → OffsetsMoved k.store store) (hrax : frame.rax ∈ objectCalls)
    (hquiet : frame.rax ≠ sysRead → P = ∅) :
    UserCallEnd K entry reserved stackPages pool k caller rsp frame reusable
      (x >>= fun r => (pure (rsp, syscallReturn frame (syscallResult r.1), k.setStore r.2) :
        UserAccess SyscallOutcome)).result := by
  obtain ⟨r, store, hrun, m, hphys, hm⟩ := hx
  have hmem : store.phys.mem = m := by rw [hphys]
  have hfiles : FilesFramed ∅ k.store store := .of_eq (fun f hf => absurd hf (Set.notMem_empty f))
    (hmoved r store hrun).node (hmoved r store hrun).root (hmoved r store hrun).ready
  have hlife := h.life.moved (hmoved r store hrun)
    ⟨m, hphys, hm.mono fun p hp => .inl (hP p hp)⟩
  have hsame : SameSched k (k.setStore store) :=
    ⟨fun _ => rfl, rfl, rfl, rfl, (congrArg Phys.cr3 hphys).trans rfl,
      (congrArg Phys.pagingKernelPml4 hphys).trans rfl⟩
  rw [UserAccess.result_bind hrun]
  refine .returned _ (h.same hsame hlife) hsame ?_ hfiles (.object hrax (fun hread _ => ?_) _)
  · change KeepsPages (kernelPages entry stackPages) k.phys.mem store.phys.mem
    rw [hmem]
    exact h.life.keepsKernel (hm.mono hP)
  · funext x
    rw [hquiet hread] at hm
    exact (congrFun hmem x).trans (hm x fun p hp => absurd hp (Set.notMem_empty p))

/-- A buffer that passed the check is open to user mode. -/
lemma UserRuns.buffer (h : UserRuns K entry reserved stackPages pool own k caller l files nodes)
    (buffer count : Word) : ∃ valid,
      syscallUserBufferValid k.phys caller.addressSpace caller.layout buffer count = .ok valid ∧
      (valid = true → ∀ y, InBuffer buffer count y → UserOpen k.phys.mem k.phys.cr3 y) := by
  have hlevels := h.holder.exec.levels
  have hbase : caller.layout.trampolineBase ≠ 0#64 := by
    rw [h.pages.layout]
    decide
  obtain ⟨valid, hvalid, -⟩ := syscallUserBufferValid_spec buffer count hlevels h.space hbase
  refine ⟨valid, hvalid, fun htrue y hy => ?_⟩
  rw [htrue] at hvalid
  rw [h.loaded]
  exact (inBuffer_reachable hlevels h.space hbase hvalid hy).user

lemma UserRuns.reached (h : UserRuns K entry reserved stackPages pool own k caller l files nodes) :
    UserWindow (reachedPages caller entry) k.phys.mem k.phys.cr3 := by
  rw [h.loaded]
  exact h.life.window

/-- Reading into a buffer that does not lie on the trampoline's page. -/
lemma UserRuns.read (h : UserRuns K entry reserved stackPages pool own k caller l files nodes)
    (hbuffer : ∀ y, InBuffer frame.rsi frame.rdx y → ∀ t, mmuWalk k.phys.mem k.phys.cr3 y = some t →
      t.frame ≠ pageAddress entry) (hrax : frame.rax = sysRead) :
    UserCallEnd K entry reserved stackPages pool k caller rsp frame reusable
      (syscallRead k rsp frame caller.addressSpace caller.layout).result := by
  obtain ⟨valid, hvalid, hopen⟩ := h.buffer frame.rsi frame.rdx
  have hown (hv : valid = true) (y : Word) (hy : InBuffer frame.rsi frame.rdx y) :
      OpenOn {p | p ∈ caller.ownPages} k.phys.mem k.phys.cr3 y := by
    obtain ⟨t, ht, hu⟩ := hopen hv y hy
    exact ⟨t, ht, hu, (h.reached.reach y t ht hu).resolve_right (hbuffer y hy t ht)⟩
  have hwalks : KeepsWalks {p | p ∈ caller.ownPages} k.phys.mem k.phys.cr3 :=
    h.reached.stable.mono fun _ hp => .inl hp
  unfold syscallRead
  rw [hvalid, UserAccess.lift_bind_ok, schedCurrentFdTable_current h.current]
  dsimp only
  split_ifs with hv
  · exact h.answered (fdTableRead_window hwalks _ _ (hown hv)) (fun p hp => hp)
      (fun r store hr => fdTableRead_moved hr) (by simp [hrax, objectCalls]) fun hne => absurd hrax hne
  · exact h.refused (by simp [hrax, objectCalls])

lemma UserRuns.write (h : UserRuns K entry reserved stackPages pool own k caller l files nodes)
    (hrax : frame.rax = sysWrite) :
    UserCallEnd K entry reserved stackPages pool k caller rsp frame reusable
      (syscallWrite k rsp frame caller.addressSpace caller.layout).result := by
  obtain ⟨valid, hvalid, hopen⟩ := h.buffer frame.rsi frame.rdx
  unfold syscallWrite
  rw [hvalid, UserAccess.lift_bind_ok, schedCurrentFdTable_current h.current]
  dsimp only
  split_ifs with hv
  · exact h.answered (fdTableWrite_window _ _ (hopen hv)) (fun p hp => absurd hp (Set.notMem_empty p))
      (fun r store hr => fdTableWrite_moved hr) (by simp [hrax, objectCalls]) fun _ => rfl
  · exact h.refused (by simp [hrax, objectCalls])

lemma UserRuns.copyPath (h : UserRuns K entry reserved stackPages pool own k caller l files nodes)
    (src : Word) : ∃ path,
      (syscallCopyPath k.phys syscallPathSize src caller.addressSpace caller.layout).result = .ok path ∧
      ∀ p, path = some p ↔ ExecPathAt k caller src p := by
  obtain ⟨path, hpath, -, hiff⟩ := syscallCopyPath_spec syscallPathSize src h.holder.exec.levels h.space h.loaded
    (show caller.layout.trampolineBase ≠ 0#64 by rw [h.pages.layout]; decide) (by decide)
  exact ⟨path, hpath, hiff⟩

lemma UserRuns.open (h : UserRuns K entry reserved stackPages pool own k caller l files nodes)
    (hrax : frame.rax = sysOpen) :
    UserCallEnd K entry reserved stackPages pool k caller rsp frame reusable
      (syscallOpen k rsp frame caller.addressSpace caller.layout).result := by
  obtain ⟨path, hpath, -⟩ := h.copyPath frame.rdi
  unfold syscallOpen
  rw [schedCurrentFdTable_current h.current]
  dsimp only
  rw [UserAccess.result_bind hpath]
  cases path with
  | none => exact h.refused (by simp [hrax, objectCalls])
  | some path =>
    dsimp only
    obtain ⟨r, table, store, files', hrun, hstep, hsub, hkept, hg, -⟩ :=
      h.life.alone.openPath (userHeap_spec _ reserved) h.current h.life.table h.life.walk h.life.room
        (by simp) path (frame.rsi.setWidth 32)
    have hbusy : AllBusy store files' nodes := fun n hn => by
      obtain ⟨f, hf, hon⟩ := filesOn_pos_iff.mp (h.life.busy n hn)
      exact filesOn_pos_iff.mpr ⟨f, hsub f hf, (hkept.node f hf).trans hon⟩
    have hphys := syscallOpenPath_sure (userHeap_spec _ reserved) h.life.objects.heap
      ((objectPtrs_length k.store files nodes).le.trans h.life.room) hrun
    rw [hrun, UserAccess.lift_bind_ok]
    exact h.descriptors hstep hphys h.life.few hbusy (h.life.objects.heap.handed.openPath hrun)
      (by simp [hrax, objectCalls]) _

lemma UserRuns.close (h : UserRuns K entry reserved stackPages pool own k caller l files nodes)
    (hrax : frame.rax = sysClose) (fd : Int) :
    ∃ r table store, fdTableClose k.store (k.task .task1).fdTable fd = .ok (r, table, store) ∧
      UserCallEnd K entry reserved stackPages pool k caller rsp frame reusable
        (.ok (rsp, syscallReturn frame (syscallResult r), k.withTable .task1 table store)) := by
  obtain ⟨r, table, store, files', nodes', hrun, hstep, hphys, hbusy, hsub, -⟩ :=
    h.life.alone.close (userHeap_spec _ reserved) h.life.table fd
  have hfew := (hstep.inv.nodes_nodup (userHeap_spec _ reserved)).length_le_of_subset hsub
  exact ⟨r, table, store, hrun, h.descriptors hstep hphys (hfew.trans h.life.few) (hbusy h.life.busy)
    (fdTableClose_framed hrun) (by simp [hrax, objectCalls]) _⟩

lemma UserRuns.dup (h : UserRuns K entry reserved stackPages pool own k caller l files nodes)
    (hrax : frame.rax = sysDup) (fd : Int) :
    ∃ r table store, fdTableDup k.store (k.task .task1).fdTable fd = .ok (r, table, store) ∧
      UserCallEnd K entry reserved stackPages pool k caller rsp frame reusable
        (.ok (rsp, syscallReturn frame (syscallResult r), k.withTable .task1 table store)) := by
  obtain ⟨r, table, store, hrun, hstep, hkept, hphys, -⟩ :=
    h.life.alone.dup (userHeap_spec _ reserved) h.life.table (by simp) fd
  have hbusy : AllBusy store files nodes := fun n hn => by
    rw [filesOn_congr hkept.node]
    exact h.life.busy n hn
  exact ⟨r, table, store, hrun, h.descriptors hstep hphys h.life.few hbusy (fdTableDup_framed hrun)
    (by simp [hrax, objectCalls]) _⟩

/-- The calls that use no user pointer. -/
lemma UserRuns.plain (h : UserRuns K entry reserved stackPages pool own k caller l files nodes) :
    UserCallEnd K entry reserved stackPages pool k caller rsp frame reusable
      (syscallPlain k rsp frame reusable) := by
  unfold syscallPlain
  rw [schedCurrentFdTable_current h.current]
  dsimp only
  split_ifs with hputc hyield hticks hexit hclose hdup
  · have hlife : UserLife K entry reserved stackPages pool own
        (k.setStore (k.store.serialWrite [frame.rdi.setWidth 8])) caller l files nodes :=
      h.life.other (.refl _ _) rfl rfl
    have hsame : SameSched k (k.setStore (k.store.serialWrite [frame.rdi.setWidth 8])) :=
      ⟨fun _ => rfl, rfl, rfl, rfl, rfl, rfl⟩
    have hanswer : CallAnswer frame.rax k.kernelTicks sysResultOk
        ((k.setStore (k.store.serialWrite [frame.rdi.setWidth 8])).phys.mem = k.phys.mem) := by
      rw [hputc]
      exact ⟨by decide, fun _ => rfl, fun h => absurd h (by decide), fun h => absurd h (by decide), fun _ _ => rfl⟩
    exact .returned _ (h.same hsame hlife) hsame (.refl _ _)
      (.of_eq (fun _ _ => rfl) rfl rfl rfl) hanswer
  · have hend : UserCallEnd K entry reserved stackPages pool k caller rsp frame reusable _ := .yielded hyield
    cases hrun : schedTick k rsp with
    | error e =>
      rw [hrun] at hend
      exact hend
    | ok r =>
      rw [hrun] at hend
      exact hend
  · refine h.answers ?_
    rw [hticks]
    exact ⟨by decide, fun h => absurd h (by decide), fun _ => rfl, fun h => absurd h (by decide), fun _ _ => trivial⟩
  · have hend : UserCallEnd K entry reserved stackPages pool k caller rsp frame reusable _ := .exited hexit
    cases hrun : schedExitCurrent k reusable with
    | error e =>
      rw [hrun] at hend
      exact hend
    | ok r =>
      rw [hrun] at hend
      exact hend
  · obtain ⟨r, table, store, hrun, hend⟩ := h.close hclose (toInt32 frame.rdi)
    rw [hrun, ok_bind]
    dsimp only
    rw [setFdTable_current h.current]
    exact hend
  · obtain ⟨r, table, store, hrun, hend⟩ := h.dup hdup (toInt32 frame.rdi)
    rw [hrun, ok_bind]
    dsimp only
    rw [setFdTable_current h.current]
    exact hend
  · exact h.answers ⟨hexit, fun hplain => absurd hplain (not_or.mpr ⟨hputc, hyield⟩), fun h => absurd h hticks,
      fun _ => rfl, fun _ _ => trivial⟩

end Runs

end Platinum
