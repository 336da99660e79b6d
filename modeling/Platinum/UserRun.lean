import Platinum.UserBoot
import Platinum.ExecLookup

/-!
# Execs of a user task

The objects of a user task fit the heap along every run, so a prepared program
is always taken over.
-/
namespace Platinum
open ByteMemory BlockList

/-- The descriptors of the user task: on the heap lie its objects and `reserved`. -/
structure UserFds (reserved : List Word) (k : KernelState) (files nodes : List Word) : Prop where
  inv : FdInv (RoomyHeap reserved) k.store (tableFiles (k.task .task1).fdTable) files nodes
  table : TableOk k.store (k.task .task1).fdTable
  walk : NamespaceOk k.store
  few : nodes.length ≤ 2
  busy : AllBusy k.store files nodes

/-- One step while the user task exists: a call of it, a switch of tasks, or work
that leaves files and tables alone. -/
inductive UserStep (b : Build) (k : KernelState) : KernelState → Prop
  | call {rsp rsp' : Word} {frame frame' : SyscallFrame} {reusable : Word × Word} {k' : KernelState}
      (ht : k.current = some .task1) (hrax : frame.rax ∈ descriptorCalls)
      (hrun : (kernelSyscallEntry b k rsp frame reusable).result = .ok (rsp', frame', k')) :
      UserStep b k k'
  | tick {rsp next : Word} {k' : KernelState} (hrun : schedTick k rsp = .ok (next, k')) :
      UserStep b k k'
  | other {k' : KernelState} {s : Phys} {serial : List Byte} (htask : k'.task = k.task)
      (hcurrent : k'.current = k.current) (hstarted : k'.schedStarted = k.schedStarted)
      (hstore : k'.store = { k.store with phys := s, serial := serial }) : UserStep b k k'

inductive UserRun (b : Build) (k₁ : KernelState) : KernelState → Prop
  | start : UserRun b k₁ k₁
  | step {k k' : KernelState} : UserRun b k₁ k → UserStep b k k' → UserRun b k₁ k'

section Calls

variable {b : Build} {k k' : KernelState} {reserved files nodes : List Word} {store : Store}
  {table : FdTable} {bootstrap : UserTaskBootstrap} {reusable : Word × Word} {next rsp : Word}

lemma UserFds.alone (h : UserFds reserved k files nodes) : FdInv (RoomyHeap reserved) k.store
    (tableFiles (k.task .task1).fdTable ++ []) files nodes := by
  rw [List.append_nil]
  exact h.inv

/-- A full table and one more file fit. -/
lemma UserFds.room (h : UserFds reserved k files nodes) : files.length + 2 * nodes.length ≤ 20 := by
  have hfiles := h.inv.counts.files_le
  have htable := tableFiles_length (k.task .task1).fdTable
  have hfew := h.few
  omega

/-- A call on the user task's table. -/
lemma UserFds.step {files' nodes' : List Word} (h : UserFds reserved k files nodes)
    (hs : TableStep (RoomyHeap reserved) k.store [] files nodes store table files' nodes')
    (hfew : nodes'.length ≤ 2) (hbusy : AllBusy store files' nodes')
    (htable : (k'.task .task1).fdTable = table) (hstore : k'.store = store) :
    UserFds reserved k' files' nodes' := by
  subst htable hstore
  have hinv := hs.inv
  rw [List.append_nil] at hinv
  exact ⟨hinv, hs.table, h.walk.congr hs.root hs.ready, hfew, hbusy⟩

/-- Memory, the page allocator and the serial line do not matter. -/
lemma UserFds.other (h : UserFds reserved k files nodes) {s : Phys} {c : List Byte}
    (htable : (k'.task .task1).fdTable = (k.task .task1).fdTable)
    (hstore : k'.store = { k.store with phys := s, serial := c }) :
    UserFds reserved k' files nodes := by
  have hfile : k'.store.file = k.store.file := by rw [hstore]
  have hnode : k'.store.node = k.store.node := by rw [hstore]
  have hheap : k'.store.heap = k.store.heap := by rw [hstore]
  have hkept : Kept k.store k'.store files nodes := by
    rw [hstore]
    exact ⟨fun _ _ => rfl, fun _ _ => rfl, fun _ _ => rfl, fun _ _ => rfl, fun _ _ => rfl, rfl, rfl⟩
  refine ⟨⟨?_, ?_⟩, ?_, h.walk.congr hkept.root hkept.ready, h.few, fun n hn => ?_⟩
  · rw [htable]
    exact h.inv.counts.congr hfile hnode
  · have hptrs : objectPtrs k'.store files nodes = objectPtrs k.store files nodes :=
      objectPtrs_congr fun n _ => congrArg (fun node => (node (.allocated n)).data.address) hnode
    rw [hheap, hptrs]
    exact h.inv.heap
  · rw [htable]
    exact h.table.grow h.inv.counts hkept fun f hf => hf
  · rw [filesOn_congr hkept.node]
    exact h.busy n hn

/-- With the descriptors closed nothing of the user task is on the heap, and a
console finds room. -/
theorem UserFds.transfer (h : UserFds reserved k files nodes) (ht : k.current = some .task1)
    (hready : TransferReady k .task1 bootstrap) (reusable : Word × Word) :
    ∃ store₁ fdTable store₂ files' nodes',
      fdTableCloseAll (framedStore k bootstrap) (k.task .task1).fdTable =
        .ok (fdTableInitialize, store₁) ∧
      fdTableSeedConsole store₁ fdTableInitialize = .ok (true, fdTable, store₂) ∧
      store₂.phys = store₁.phys ∧
      schedExecCurrent k bootstrap reusable =
        .ok (execFrame bootstrap, execTransferred k .task1 bootstrap fdTable store₂ reusable) ∧
      UserFds reserved (execTransferred k .task1 bootstrap fdTable store₂ reusable) files' nodes' := by
  have hspec := roomyHeap_spec reserved
  have hframed : UserFds reserved (k.setStore (framedStore k bootstrap)) files nodes :=
    h.other (s := (framedStore k bootstrap).phys) (c := k.store.serial) rfl rfl
  obtain ⟨store₁, files₁, nodes₁, hclose, hstep₁, -, hbusy₁, -⟩ :=
    hframed.alone.closeAll hspec hframed.table
  have hclose : fdTableCloseAll (framedStore k bootstrap) (k.task .task1).fdTable =
      .ok (fdTableInitialize, store₁) := hclose
  have hinv₁ := hstep₁.inv
  rw [tableFiles_initial, List.append_nil] at hinv₁
  obtain rfl : files₁ = [] :=
    List.eq_nil_iff_forall_not_mem.mpr fun f hf => by simpa using (hinv₁.counts.mem_files f).mp hf
  obtain rfl : nodes₁ = [] := by
    refine List.eq_nil_iff_forall_not_mem.mpr fun n hn => ?_
    have := hbusy₁ hframed.busy n hn
    simp [filesOn] at this
  obtain ⟨seeded, fdTable, store₂, files₂, nodes₂, hseed, hout⟩ :=
    hinv₁.seed hspec (by simp) fun m hm => by
      simp only [List.length_nil] at hm
      omega
  obtain ⟨rfl, hphys⟩ := hout.sure trivial
  obtain ⟨hlen, hbusy₂⟩ := hout.done rfl
  have hbusy := hbusy₂ fun n hn => absurd hn (List.not_mem_nil)
  have hafter : UserFds reserved (k.withTable .task1 fdTable store₂) files₂ nodes₂ := by
    have hinv₂ := hout.step.inv
    have htable₂ : ((k.withTable .task1 fdTable store₂).task .task1).fdTable = fdTable := by
      rw [withTable_table, if_pos rfl]
    rw [List.append_nil] at hinv₂
    refine ⟨?_, ?_, ?_, ?_, hbusy⟩
    · rw [htable₂]
      exact hinv₂
    · rw [htable₂]
      exact hout.step.table
    · exact (hframed.walk.congr hstep₁.root hstep₁.ready).congr hout.step.root hout.step.ready
    · rw [hlen]
      simp
  refine ⟨store₁, fdTable, store₂, files₂, nodes₂, hclose, hseed, hphys, ?_, hafter.other ?_ rfl⟩
  · rw [schedExecCurrent_ready ht hready, hclose, ok_bind]
    dsimp only
    rw [hseed, ok_bind]
    rfl
  · rw [withTable_table, if_pos rfl]
    exact congrArg Task.fdTable (execTransferred_task k .task1 bootstrap fdTable store₂ reusable)

/-- The guards of a transfer after a successful preparation. -/
lemma transferReady_of_prepared {entry imageSize : Word} {image : Mem} {s s' : Phys}
    {current : UserTaskBootstrap} {t : TaskId} (ht : k.current = some t) (hs : k.schedStarted = true)
    (hcurrent : schedCurrentUserBootstrap k = some current)
    (hprep : syscallPrepareExecBootstrap entry s image imageSize (some current) =
      .ok (some bootstrap, s')) : TransferReady k t bootstrap := by
  obtain ⟨hcomplete, hframe⟩ := syscallPrepareExecBootstrap_complete hprep
  unfold schedCurrentUserBootstrap at hcurrent
  rw [ht] at hcurrent
  dsimp only at hcurrent
  split_ifs at hcurrent with hguard
  push Not at hguard
  exact ⟨hs, hguard.1, hguard.2, hcomplete, hframe⟩

/-- Looking up an image leaves no object behind. -/
lemma UserFds.execImage (h : UserFds reserved k files nodes) (path : List Byte) :
    ∃ image store files₁, syscallExecImage k.store path = .ok (image, store) ∧
      UserFds reserved (k.setStore store) files₁ nodes := by
  have htable := tableFiles_length (k.task .task1).fdTable
  obtain ⟨image, store, files₁, himage, hinv, hkept, -⟩ :=
    h.inv.execImage (roomyHeap_spec reserved) h.walk h.room (by omega) path
  have hsame : ∀ f, f ∈ files₁ ↔ f ∈ files := fun f =>
    (hinv.counts.mem_files f).trans (h.inv.counts.mem_files f).symm
  refine ⟨image, store, files₁, himage, hinv, h.table.grow h.inv.counts hkept fun f hf => hf,
    h.walk.congr hkept.root hkept.ready, h.few, fun n hn => ?_⟩
  obtain ⟨f, hf, hon⟩ := filesOn_pos_iff.mp (h.busy n hn)
  exact filesOn_pos_iff.mpr ⟨f, (hsame f).mpr hf, (hkept.node f hf).trans hon⟩

/-- `SYS_EXEC` after the path was copied. -/
lemma UserFds.execPath (h : UserFds reserved k files nodes) (ht : k.current = some .task1)
    (hs : k.schedStarted = true) (hhook : b.userTestExecTransferFail = false) {path : List Byte}
    (hrun : syscallExecPath b k path reusable = .ok (next, k')) :
    (∃ files' nodes', UserFds reserved k' files' nodes') ∧ k'.schedStarted = true := by
  obtain ⟨image, store, files₁, himage, hopened⟩ := h.execImage path
  unfold syscallExecPath at hrun
  rw [himage, ok_bind] at hrun
  dsimp only at hrun
  cases himg : image with
  | none =>
    rw [himg] at hrun
    cases hrun
    exact ⟨⟨_, _, hopened⟩, hs⟩
  | some img =>
    cases hcurrent : schedCurrentUserBootstrap (k.setStore store) with
    | none =>
      rw [himg, hcurrent] at hrun
      cases hrun
      exact ⟨⟨_, _, hopened⟩, hs⟩
    | some current =>
      rw [himg, hcurrent] at hrun
      obtain ⟨⟨prepared, s⟩, hprep, hrun⟩ := bind_eq_ok.mp hrun
      have hphys : UserFds reserved ((k.setStore store).setPhys s) files₁ nodes :=
        hopened.other (s := s) (c := store.serial) rfl rfl
      cases prepared with
      | none =>
        cases hrun
        exact ⟨⟨_, _, hphys⟩, hs⟩
      | some bootstrap =>
        have hready : TransferReady ((k.setStore store).setPhys s) .task1 bootstrap :=
          transferReady_of_prepared ht hs hcurrent hprep
        obtain ⟨store₁, fdTable, store₂, files', nodes', -, -, -, hexec, hafter⟩ :=
          hphys.transfer ht hready reusable
        have hsame : b.transferred bootstrap = bootstrap := if_neg (by simp [hhook])
        dsimp only at hrun
        unfold syscallExecTransfer at hrun
        rw [hsame, hexec, ok_bind] at hrun
        dsimp only at hrun
        rw [if_neg hready.frame] at hrun
        obtain ⟨-, rfl⟩ := Prod.mk.inj (Except.ok.inj hrun)
        exact ⟨⟨_, _, hafter⟩, hs⟩

/-- A tick switches tasks and nothing else. -/
lemma schedTick_tables (hrun : schedTick k rsp = .ok (next, k')) : k'.schedStarted = true ∧
    (∀ t, (k'.task t).fdTable = (k.task t).fdTable) ∧ ∃ s, k'.store = { k.store with phys := s } := by
  have hactivate {k₁ k₂ : KernelState} {u : TaskId} (h : schedActivate k₁ u = .ok k₂) :
      k₂.schedStarted = k₁.schedStarted ∧ (∀ t, (k₂.task t).fdTable = (k₁.task t).fdTable) ∧
        ∃ s, k₂.store = { k₁.store with phys := s } := by
    unfold schedActivate at h
    dsimp only at h
    split_ifs at h
    cases h
    refine ⟨rfl, fun t => ?_, _, rfl⟩
    by_cases ht : t = u
    · subst ht
      rw [KernelState.setTask_same]
      rfl
    · rw [KernelState.setTask_ne ht]
      rfl
  unfold schedTick at hrun
  by_cases hs : ¬ k.schedStarted = true
  · rw [if_pos hs] at hrun
    obtain ⟨k₁, hact, hrun⟩ := bind_eq_ok.mp hrun
    cases hrun
    obtain ⟨hstarted, htables, hstore⟩ := hactivate hact
    exact ⟨hstarted, htables, hstore⟩
  · rw [if_neg hs] at hrun
    cases ht : k.current with
    | none =>
      rw [ht] at hrun
      cases hrun
    | some t =>
      rw [ht] at hrun
      dsimp only at hrun
      split_ifs at hrun
      obtain ⟨u, -, hrun⟩ := bind_eq_ok.mp hrun
      obtain ⟨k₁, hact, hrun⟩ := bind_eq_ok.mp hrun
      cases hrun
      obtain ⟨hstarted, htables, hstore⟩ := hactivate hact
      refine ⟨hstarted.trans (not_not.mp hs), fun u => (htables u).trans ?_, hstore⟩
      by_cases hu : u = t
      · rw [hu, KernelState.setTask_same]
      · rw [KernelState.setTask_ne hu]

/-- Every call of the user task keeps its objects within the heap. -/
theorem UserFds.call (h : UserFds reserved k files nodes) (ht : k.current = some .task1)
    (hs : k.schedStarted = true) (hhook : b.userTestExecTransferFail = false)
    (hcall : DescriptorCall b k .task1 reusable k') :
    (∃ files' nodes', UserFds reserved k' files' nodes') ∧ k'.schedStarted = true := by
  have hspec := roomyHeap_spec reserved
  cases hcall with
  | refused => exact ⟨⟨_, _, h⟩, hs⟩
  | @moved store hmoved =>
    have hH : RoomyHeap reserved store.heap store.phys (objectPtrs k.store files nodes) :=
      hmoved.heap.symm ▸ h.inv.heap
    have hbusy : AllBusy store files nodes := fun n hn => by
      rw [filesOn_congr (hmoved.kept files nodes).node]
      exact h.busy n hn
    exact ⟨⟨_, _, h.step (hmoved.step h.alone hH h.table) h.few hbusy rfl rfl⟩, hs⟩
  | @openPath path flags r k' hcall =>
    obtain ⟨r₁, table, store, files', hrun, hstep, hsub, hkept, -⟩ :=
      h.alone.openPath hspec ht h.table h.walk h.room (by simp) path flags
    obtain ⟨-, rfl⟩ := Prod.mk.inj (Except.ok.inj (hrun.symm.trans hcall))
    have hbusy : AllBusy store files' nodes := fun n hn => by
      obtain ⟨f, hf, hon⟩ := filesOn_pos_iff.mp (h.busy n hn)
      exact filesOn_pos_iff.mpr ⟨f, hsub f hf, (hkept.node f hf).trans hon⟩
    exact ⟨⟨_, _, h.step hstep h.few hbusy (by rw [withTable_table, if_pos rfl]) rfl⟩, hs⟩
  | @close fd r table store hcall =>
    obtain ⟨r₁, table₁, store₁, files', nodes', hrun, hstep, -, hbusy, hsub, -⟩ :=
      h.alone.close hspec h.table fd
    obtain ⟨-, rfl, rfl⟩ : r₁ = r ∧ table₁ = table ∧ store₁ = store := by
      simpa using hrun.symm.trans hcall
    have hfew := (hstep.inv.nodes_nodup hspec).length_le_of_subset hsub
    exact ⟨⟨_, _, h.step hstep (hfew.trans h.few) (hbusy h.busy)
      (by rw [withTable_table, if_pos rfl]) rfl⟩, hs⟩
  | @dup fd r table store hcall =>
    obtain ⟨r₁, table₁, store₁, hrun, hstep, hkept, -⟩ := h.alone.dup hspec h.table (by simp) fd
    obtain ⟨-, rfl, rfl⟩ : r₁ = r ∧ table₁ = table ∧ store₁ = store := by
      simpa using hrun.symm.trans hcall
    have hbusy : AllBusy store₁ files nodes := fun n hn => by
      rw [filesOn_congr hkept.node]
      exact h.busy n hn
    exact ⟨⟨_, _, h.step hstep h.few hbusy (by rw [withTable_table, if_pos rfl]) rfl⟩, hs⟩
  | exec hcall => exact h.execPath ht hs hhook hcall

/-- A running task runs after the scheduler was started. -/
def UserInv (reserved : List Word) (k : KernelState) : Prop :=
  (∃ files nodes, UserFds reserved k files nodes) ∧ (k.current ≠ none → k.schedStarted = true)

lemma UserInv.step (h : UserInv reserved k) (hhook : b.userTestExecTransferFail = false)
    (hstep : UserStep b k k') : UserInv reserved k' := by
  obtain ⟨⟨files, nodes, h⟩, hcurrent⟩ := h
  cases hstep with
  | call ht hrax hrun =>
    obtain ⟨h', hs⟩ := h.call ht (hcurrent (by simp [ht])) hhook
      (kernelSyscallEntry_call ht hrax hrun)
    exact ⟨h', fun _ => hs⟩
  | tick hrun =>
    obtain ⟨hs, htables, s, hstore⟩ := schedTick_tables hrun
    exact ⟨⟨_, _, h.other (s := s) (c := k.store.serial) (htables .task1) hstore⟩, fun _ => hs⟩
  | other htask hcur hs hstore =>
    refine ⟨⟨_, _, h.other (by rw [htask]) hstore⟩, fun hne => ?_⟩
    rw [hs]
    exact hcurrent (hcur ▸ hne)

lemma UserRun.inv {k₁ : KernelState} (h : UserInv reserved k₁)
    (hhook : b.userTestExecTransferFail = false) (hrun : UserRun b k₁ k) : UserInv reserved k := by
  induction hrun with
  | start => exact h
  | step _ hstep ih => exact ih.step hhook hstep

end Calls

section Start

variable {registry : List EmbeddedUserProgram} {b : Build} {k k' k₀ k₁ : KernelState}
  {idle worker entry : Word} {pages l reserved : List Word} {L : List Block}

/-- The user task starts with a console of its own. -/
lemma taskCreateUser_fds {id : BitVec 32} {bootstrap : UserTaskBootstrap}
    (hinv : FdInv (RoomyHeap reserved) k.store [] [] []) (hwalk : NamespaceOk k.store)
    (hrun : taskCreateUser k .task1 id bootstrap = .ok (true, k')) :
    (∃ files nodes, UserFds reserved k' files nodes) ∧ k'.current = k.current := by
  unfold taskCreateUser at hrun
  by_cases hcomplete : bootstrapComplete bootstrap = true
  swap
  · rw [if_pos hcomplete] at hrun
    cases hrun
  rw [if_neg (not_not.mpr hcomplete)] at hrun
  generalize taskBuildUserStack k.phys bootstrap = x at hrun
  obtain ⟨rsp, s⟩ := x
  dsimp only at hrun
  by_cases h0 : rsp = 0#64
  · rw [if_pos h0] at hrun
    cases hrun
  rw [if_neg h0] at hrun
  obtain ⟨⟨seeded, table, store⟩, hseed, hrun⟩ := bind_eq_ok.mp hrun
  cases hrun
  have hinv' : FdInv (RoomyHeap reserved) (k.setPhys s).store [] [] [] :=
    ⟨hinv.counts.congr rfl rfl, hinv.heap⟩
  obtain ⟨seeded₁, table₁, store₁, files', nodes', hseed₁, hout⟩ :=
    hinv'.seed (roomyHeap_spec reserved) (by simp) fun m hm => by
      simp only [List.length_nil] at hm
      omega
  obtain ⟨rfl, rfl, rfl⟩ : seeded₁ = true ∧ table₁ = table ∧ store₁ = store := by
    simpa using hseed₁.symm.trans hseed
  obtain ⟨hlen, hbusy⟩ := hout.done rfl
  have hinv₂ := hout.step.inv
  rw [List.append_nil] at hinv₂
  refine ⟨⟨files', nodes', ?_⟩, rfl⟩
  constructor
  · rw [KernelState.setTask_same]
    exact hinv₂
  · rw [KernelState.setTask_same]
    exact hout.step.table
  · exact hwalk.congr hout.step.root hout.step.ready
  · rw [hlen]
    simp
  · exact hbusy fun n hn => absurd hn List.not_mem_nil

/-- A completed initialisation with a user task. -/
theorem schedInitialize_userInv (hstart : FdStart registry k₀) (huser : k₀.userTaskEnabled = true)
    (hinit : schedInitialize k₀ idle worker = .ok k₁) : ∃ reserved, UserInv reserved k₁ := by
  have h := hstart.fresh.inv
  obtain ⟨pages, L, l, hheap⟩ := h.inv.heap
  have hcounts := h.inv.counts
  rw [hstart.fresh.heldFiles_nil] at hcounts
  unfold schedInitialize at hinit
  obtain ⟨⟨created, k₂⟩, hkernel, hinit⟩ := bind_eq_ok.mp hinit
  cases created with
  | false => cases hinit
  | true =>
    obtain ⟨reserved, hinv, hwalk, hcur⟩ := taskCreateKernel_reserves hkernel hcounts hheap h.walk
    have henabled : k₂.userTaskEnabled = true := (taskCreateKernel_made hkernel).enabled.trans huser
    dsimp only at hinit
    rw [if_neg (by simp), if_pos henabled] at hinit
    obtain ⟨⟨created, k₃⟩, huserTask, hinit⟩ := bind_eq_ok.mp hinit
    cases created with
    | false => cases hinit
    | true =>
      obtain rfl := Except.ok.inj hinit
      obtain ⟨hfds, hcur'⟩ := taskCreateUser_fds hinv hwalk huserTask
      exact ⟨reserved, hfds, fun hne => absurd (hcur'.trans hcur) hne⟩

end Start

/-- Once a program is prepared the transfer passes its guards, and its console
is seeded without a new page for the heap. -/
theorem exec_point_safe {registry : List EmbeddedUserProgram} {b : Build} {k₀ k₁ k : KernelState}
    {idle worker : Word} (hstart : FdStart registry k₀) (huser : k₀.userTaskEnabled = true)
    (hinit : schedInitialize k₀ idle worker = .ok k₁) (hhook : b.userTestExecTransferFail = false)
    (hrun : UserRun b k₁ k) {path : List Byte} {image : Mem} {imageSize : Word} {store : Store}
    {current bootstrap : UserTaskBootstrap} {s : Phys} (ht : k.current = some .task1)
    (himage : syscallExecImage k.store path = .ok (some (image, imageSize), store))
    (hcurrent : schedCurrentUserBootstrap k = some current)
    (hprep : syscallPrepareExecBootstrap b.archUserProgramEntry store.phys image imageSize
      (some current) = .ok (some bootstrap, s)) (reusable : Word × Word) :
    TransferReady ((k.setStore store).setPhys s) .task1 bootstrap ∧
    ∃ store₁ fdTable store₂,
      fdTableCloseAll (framedStore ((k.setStore store).setPhys s) bootstrap)
        (k.task .task1).fdTable = .ok (fdTableInitialize, store₁) ∧
      fdTableSeedConsole store₁ fdTableInitialize = .ok (true, fdTable, store₂) ∧
      store₂.phys = store₁.phys ∧
      schedExecCurrent ((k.setStore store).setPhys s) bootstrap reusable =
        .ok (execFrame bootstrap, execTransferred ((k.setStore store).setPhys s) .task1 bootstrap
          fdTable store₂ reusable) := by
  obtain ⟨reserved, hinv₁⟩ := schedInitialize_userInv hstart huser hinit
  obtain ⟨⟨files, nodes, h⟩, hs⟩ := hrun.inv hinv₁ hhook
  obtain ⟨image₁, store₁, files₁, himage₁, hopened⟩ := h.execImage path
  obtain ⟨-, rfl⟩ := Prod.mk.inj (Except.ok.inj (himage₁.symm.trans himage))
  have hphys : UserFds reserved ((k.setStore store₁).setPhys s) files₁ nodes :=
    hopened.other (s := s) (c := store₁.serial) rfl rfl
  have hready : TransferReady ((k.setStore store₁).setPhys s) .task1 bootstrap :=
    transferReady_of_prepared ht (hs (by simp [ht])) hcurrent hprep
  obtain ⟨store₂, fdTable, store₃, files', nodes', hclose, hseed, hsame, hexec, -⟩ :=
    hphys.transfer ht hready reusable
  exact ⟨hready, store₂, fdTable, store₃, hclose, hseed, hsame, hexec⟩

/-- The pages of a second program that reuses the window. -/
def secondPages : List Word :=
  [0x02206000#64, 0x02207000#64, 0x02208000#64, 0x02209000#64, 0x0220A000#64]

/-- The theorem at work: the first program replaces itself. -/
theorem exec_point_safe_sample : ∃ (k : KernelState) (store : Store) (s : Phys)
    (bootstrap : UserTaskBootstrap),
    syscallExecImage k.store [0x2F, 0x62, 0x69, 0x6E, 0x2F, 0x61] =
      .ok (some (sampleImage 1, 120#64), store) ∧
    syscallPrepareExecBootstrap 0x00100000#64 store.phys (sampleImage 1) 120#64
      (some sampleBootstrap) = .ok (some bootstrap, s) ∧
    TransferReady ((k.setStore store).setPhys s) .task1 bootstrap ∧
    ∃ store₁ fdTable store₂,
      fdTableCloseAll (framedStore ((k.setStore store).setPhys s) bootstrap)
        (k.task .task1).fdTable = .ok (fdTableInitialize, store₁) ∧
      fdTableSeedConsole store₁ fdTableInitialize = .ok (true, fdTable, store₂) ∧
      store₂.phys = store₁.phys ∧
      schedExecCurrent ((k.setStore store).setPhys s) bootstrap (0#64, 0#64) =
        .ok (execFrame bootstrap, execTransferred ((k.setStore store).setPhys s) .task1 bootstrap
          fdTable store₂ (0#64, 0#64)) := by
  have hps : ∀ p ∈ bootPages ++ secondPages, SparePage p := by simp [bootPages, secondPages, SparePage]
  obtain ⟨l, K, own, s₀, k₀, k₁, k, -, h⟩ := userMachine_exists hps (by decide)
  have hrun : UserRun ⟨0x00100000#64, false⟩ k₁ k := .step .start (.tick h.tick)
  obtain ⟨reserved, hinv⟩ := schedInitialize_userInv h.start h.user h.init
  obtain ⟨⟨files, nodes, hfds⟩, -⟩ := hrun.inv hinv rfl
  obtain ⟨hkind, -, hdata⟩ := h.node
  have hpath : ExecutableAt k.store [0x2F, 0x62, 0x69, 0x6E, 0x2F, 0x61] := by
    rw [ExecutableAt, h.walk]
    exact ⟨by simp, hkind⟩
  obtain ⟨store, himage, hphys⟩ := hfds.inv.lookup_sure (roomyHeap_spec reserved) hfds.walk hfds.room
    (by have := tableFiles_length (k.task .task1).fdTable; omega) hpath
  rw [h.walk, nodeImage, hdata] at himage
  have hclaim : (samplePlan 1#64).claimed 0x02100000#64 0x02101000#64 = [] := by decide
  have hctx : ExecContext K own k.phys secondPages 0x02100000#64 0x02101000#64 :=
    ⟨h.inv.run.inv, h.limit, h.image⟩
  have hentry : (0x00100000#64 : Word).toNat < 2 ^ 52 := by decide
  obtain ⟨a, stackPage, s, own', l', hprep, -⟩ := prepare_succeeds (some sampleBootstrap) hctx hentry
    rfl execPlan_one (by simp [hclaim]) (by rw [hclaim]; decide)
  rw [show k.phys = store.phys from hphys.symm] at hprep
  obtain ⟨hready, hrest⟩ := exec_point_safe h.start h.user h.init (b := ⟨0x00100000#64, false⟩) rfl
    hrun h.current himage h.bootstrap hprep (0#64, 0#64)
  exact ⟨k, store, s, _, himage, hprep, hready, hrest⟩

end Platinum
