import Platinum.ExecPoint
import Platinum.SystemRun
import Platinum.UserBoot

/-!
# From the first tick on

`sched_initialize` makes the two tasks on a heap and page allocator of their own;
the first tick leaves the boot stack and resumes the user task.
-/
namespace Platinum
open ByteMemory BlockList SharedTrie Processor

section Reserve

variable {held : Set Word} {blocks pages ptrs l : List Word} {h : Heap} {s : Phys} {k : Store} {L : List Block}

/-- Blocks that are not given back again belong to somebody else. -/
lemma HeapBeside.reserve (hb : HeapBeside held [] h s ptrs) (hr : RoomyBlocks blocks [] h pages L) :
    HeapBeside held blocks h s [] := by
  obtain ⟨pages', L', l, hs, hno⟩ := hb
  obtain rfl : L = L' := hr.inv.list.unique hs.inv.list
  exact ⟨pages', L, l, ⟨hs.inv, hs.free, hs.apart, hr.handed⟩, hno⟩

/-- A console that is never closed. -/
lemma FdInv.seedReserved (hinv : FdInv (UserHeap held ⟨[], pages⟩) k [] [] []) :
    ∃ table store blocks, fdTableSeedConsole k fdTableInitialize = .ok (true, table, store) ∧
      store.phys = k.phys ∧ FdInv (UserHeap held ⟨blocks, pages⟩) store [] [] [] ∧ FilesFramed ∅ k store := by
  obtain ⟨seeded, table, store, files, nodes, hseed, hout⟩ :=
    hinv.seed (userHeap_spec held ⟨[], pages⟩) (by simp) fun m hm => by
      simp only [List.length_nil] at hm
      omega
  obtain ⟨rfl, hphys⟩ := hout.sure trivial
  obtain ⟨blocks, hlen, halloc⟩ := fdTableSeedConsole_allocated hseed
  obtain ⟨pages₀, L₀, l, hstate, -⟩ := hinv.heap.2
  obtain ⟨pages', L, l', hspacious⟩ := halloc.spacious hstate hlen.le
  have hroomy := hspacious.roomy hlen
  -- the heap took no page for the console
  obtain ⟨⟨L', hblocks⟩, hbeside⟩ := hout.step.inv.heap
  obtain rfl : L = L' := hroomy.inv.list.unique hblocks.inv.list
  have hreserved : RoomyBlocks blocks [] store.heap pages L :=
    ⟨hblocks.inv, hblocks.page, hroomy.handed, hroomy.sizes, hroomy.frame_sizes, hroomy.few⟩
  have hc := hout.step.inv.counts
  refine ⟨table, store, blocks, hseed, hphys,
    ⟨⟨List.nodup_nil, by simp, by simp, by simp, by simp, by simp, fun r hr => ?_, hc.static, by simp⟩,
      ⟨L, hreserved⟩, hbeside.reserve hreserved⟩, hinv.heap.handed.seed hseed⟩
  cases r with
  | null => exact hr.elim
  | allocated n => exact absurd hr List.not_mem_nil
  | static n => exact (hc.node_refs (.static n) trivial).trans (hout.static n)

end Reserve

section Tasks

variable {held : Set Word} {reserved : ReservedHeap} {l pages : List Word} {k k' : KernelState} {p entry : Word}
  {t : TaskId} {bootstrap : UserTaskBootstrap}

/-- A kernel task on the first free page. -/
lemma taskCreateKernel_starts (hinv : FdInv (UserHeap held ⟨[], pages⟩) k.store [] [] [])
    (hfree : FreeList k.phys (p :: l))
    (hp : p ∉ held) (t : TaskId) (id : BitVec 32) (entry : Word) :
    ∃ k' blocks, taskCreateKernel k t id entry = .ok (true, k') ∧ FreeList k'.phys l ∧
      FdInv (UserHeap {q | q ∈ held ∨ q = p} ⟨blocks, pages⟩) k'.store [] [] [] ∧ FilesFramed ∅ k.store k'.store ∧
      ChangesOnly {p} k.phys.mem k'.phys.mem ∧ (k'.task t).rsp = p + 4096#64 - 160#64 ∧
      (k'.task t).kind = .kernel ∧ taskContext k'.phys.mem (p + 4096#64 - 160#64) = kernelContext p entry := by
  have hpage := hfree.pages p (by simp)
  have hpl := (List.nodup_cons.mp hfree.nodup).1
  obtain ⟨s₁, halloc, hfree₁, hmem, -⟩ := pallocAlloc_cons hfree
  have hframe : ChangesOnly {p} s₁.mem (pushWords s₁.mem p (kernelFrame p entry)) := pushWords_frame (by simp)
  have hcontext : taskContext (pushWords s₁.mem p (kernelFrame p entry)) (p + 4096#64 - 160#64) =
      kernelContext p entry := by
    rw [kernelFrame_words]
    exact taskContext_pushWords hpage _ _
  have hstack : taskBuildKernelStack k.phys entry =
      (p + 4096#64 - 160#64, { s₁ with mem := pushWords s₁.mem p (kernelFrame p entry) }) := by
    unfold taskBuildKernelStack
    rw [halloc]
    exact if_neg hpage.ne_zero
  generalize pushWords s₁.mem p (kernelFrame p entry) = m at hframe hstack hcontext
  obtain ⟨s, hs⟩ : ∃ s : Phys, { s₁ with mem := m } = s := ⟨_, rfl⟩
  have hfree' : FreeList s l := hs ▸ hfree₁.frame rfl hframe (fun q hq => hq ▸ hpage.aligned)
    fun q hq => hq ▸ hpl
  have hinv' : FdInv (UserHeap {q | q ∈ held ∨ q = p} ⟨[], pages⟩) (k.setPhys s).store [] [] [] := by
    refine ⟨hinv.counts.congr rfl rfl, hinv.heap.trade hfree hfree' (fun q hq => .inl (List.mem_cons_of_mem p hq))
      (fun q hq => ?_) fun q hq hqm => ?_⟩
    · rcases hq with hq | rfl
      · exact .inr hq
      · exact .inl List.mem_cons_self
    · rcases hqm with hqm | rfl
      · obtain ⟨pages₀, L, l₁, hstate, hno⟩ := hinv.heap.2
        obtain rfl := hstate.free.unique hfree
        exact hno q (.inr (List.mem_cons_of_mem p hq)) hqm
      · exact hpl hq
  obtain ⟨table, store, blocks, hseed, hphys, hreserved, hfiles⟩ := hinv'.seedReserved
  have hphys : store.phys = s := hphys
  have hrun : taskCreateKernel k t id entry = .ok (true, { k.setPhys s with store := store }.setTask t
      ⟨p + 4096#64 - 160#64, pagingKernelAddressSpace store.phys, .runnable, .kernel, id, table,
        clearBootstrap⟩) := by
    unfold taskCreateKernel
    rw [hstack, hs]
    dsimp only
    rw [if_neg (frame_ne_zero hpage), hseed]
    rfl
  refine ⟨_, blocks, hrun, ?_, hreserved, hfiles.congr_left rfl rfl rfl rfl, ?_, ?_, ?_, ?_⟩
  · change FreeList store.phys l
    rw [hphys]
    exact hfree'
  · change ChangesOnly {p} k.phys.mem store.phys.mem
    rw [hphys, ← hs, ← hmem]
    exact hframe
  · rw [KernelState.setTask_same]
  · rw [KernelState.setTask_same]
  · change taskContext store.phys.mem _ = _
    rw [hphys, ← hs]
    exact hcontext

/-- A user task on the stack page of its bootstrap. -/
lemma taskCreateUser_starts (hinv : FdInv (UserHeap held reserved) k.store [] [] []) (hfree : FreeList k.phys l)
    (hcomplete : bootstrapComplete bootstrap = true) (hstack : IsPage bootstrap.userStackPage)
    (hno : bootstrap.userStackPage ∉ l) (t : TaskId) (id : BitVec 32) :
    ∃ k' files nodes, taskCreateUser k t id bootstrap = .ok (true, k') ∧ FreeList k'.phys l ∧
      FdInv (UserHeap held reserved) k'.store (tableFiles (k'.task t).fdTable) files nodes ∧
      TableOk k'.store (k'.task t).fdTable ∧ nodes.length ≤ 2 ∧ AllBusy k'.store files nodes ∧
      FilesFramed ∅ k.store k'.store ∧ ChangesOnly {bootstrap.userStackPage} k.phys.mem k'.phys.mem ∧
      (k'.task t).rsp = execFrame bootstrap ∧ (k'.task t).kind = .user ∧
      (k'.task t).userBootstrap = bootstrap ∧
      taskContext k'.phys.mem (execFrame bootstrap) = userContext bootstrap := by
  obtain ⟨htop, hpage⟩ := bootstrapComplete_stack hcomplete
  have hframe : ChangesOnly {bootstrap.userStackPage} k.phys.mem
      (pushWords k.phys.mem bootstrap.userStackPage (userFrame bootstrap)) := pushWords_frame (by simp)
  have hcontext : taskContext (pushWords k.phys.mem bootstrap.userStackPage (userFrame bootstrap))
      (execFrame bootstrap) = userContext bootstrap := by
    rw [userFrame_words]
    exact taskContext_pushWords hstack _ _
  have hbuild := taskBuildUserStack_eq (s := k.phys) htop hpage
  generalize pushWords k.phys.mem bootstrap.userStackPage (userFrame bootstrap) = m at hframe hbuild hcontext
  obtain ⟨s, hs⟩ : ∃ s : Phys, { k.phys with mem := m } = s := ⟨_, rfl⟩
  have hfree' : FreeList s l := hs ▸ hfree.frame rfl hframe (fun q hq => hq ▸ hstack.aligned)
    fun q hq => hq ▸ hno
  have hinv' : FdInv (UserHeap held reserved) (k.setPhys s).store [] [] [] :=
    ⟨hinv.counts.congr rfl rfl, hinv.heap.shrink hfree hfree' fun q hq => hq⟩
  obtain ⟨seeded, table, store, files, nodes, hseed, hout⟩ :=
    hinv'.seed (userHeap_spec held reserved) (by simp) fun m hm => by
      simp only [List.length_nil] at hm
      omega
  obtain ⟨rfl, hphys⟩ := hout.sure trivial
  have hphys : store.phys = s := hphys
  obtain ⟨hlen, hbusy⟩ := hout.done rfl
  have hobjects := hout.step.inv
  rw [List.append_nil] at hobjects
  have hfiles : FilesFramed ∅ (k.setPhys s).store store := hinv'.heap.handed.seed hseed
  have hrun : taskCreateUser k t id bootstrap = .ok (true, { k.setPhys s with store := store }.setTask t
      ⟨execFrame bootstrap, bootstrap.addressSpace, .runnable, .user, id, table, bootstrap⟩) := by
    unfold taskCreateUser
    rw [if_neg (not_not.mpr hcomplete), hbuild, hs]
    dsimp only
    rw [if_neg (frame_ne_zero hstack), hseed]
    rfl
  refine ⟨_, files, nodes, hrun, ?_⟩
  rw [KernelState.setTask_same]
  refine ⟨?_, hobjects, hout.step.table, by rw [hlen]; simp,
    hbusy fun n hn => absurd hn List.not_mem_nil, hfiles.congr_left rfl rfl rfl rfl, ?_, rfl, rfl, rfl, ?_⟩
  · change FreeList store.phys l
    rw [hphys]
    exact hfree'
  · change ChangesOnly _ k.phys.mem store.phys.mem
    rw [hphys, ← hs]
    exact hframe
  · change taskContext store.phys.mem _ = _
    rw [hphys, ← hs]
    exact hcontext

end Tasks

/-- The kernel before `sched_initialize`, with `idlePage` the first free page: a program is
loaded, and no task has been made. -/
structure BootReady (K : KernelTables) (entry : Word) (heapPages : List Word) (rsp0Page idlePage : Word) (own : Owner)
    (k : KernelState) (caller : UserTaskBootstrap) (l : List Word) : Prop where
  user : k.userTaskEnabled = true
  bootstrap : k.userTaskBootstrap = caller
  complete : bootstrapComplete caller = true
  pages : CallerPages K own { k.phys with cr3 := caller.addressSpace } caller (idlePage :: l)
    [caller.addressSpace]
  objects : FdInv (UserHeap (programPages caller own ∪ {p | p ∈ kernelPages entry [rsp0Page]}) ⟨[], heapPages⟩)
    k.store [] [] []
  walk : NamespaceOk k.store
  kernel : ∀ p ∈ kernelPages entry [rsp0Page], HeldPage K own (idlePage :: l) p ∧ p ∉ caller.ownPages
  code : pageAddress entry ≠ rsp0Page
  maps : ∀ v t, mmuWalk k.phys.mem caller.addressSpace v = some t → t.user = true →
    t.frame ∈ caller.ownPages ∨ t.frame = pageAddress entry
  window : caller.imagePhysicalBegin = elfUserLoadBase

/-- The two tasks that `sched_initialize` made out of `k`, and what it wrote for them. -/
structure TasksMade (entry : Word) (reserved : ReservedHeap) (rsp0Page idlePage : Word) (own : Owner) (idle : Word)
    (k k₁ : KernelState) (caller : UserTaskBootstrap) (l files nodes : List Word) : Prop where
  free : FreeList k₁.phys l
  objects : FdInv (UserHeap (programPages caller own ∪ {p | p ∈ kernelPages entry [rsp0Page, idlePage]}) reserved)
    k₁.store (tableFiles (k₁.task .task1).fdTable) files nodes
  table : TableOk k₁.store (k₁.task .task1).fdTable
  few : nodes.length ≤ 2
  busy : AllBusy k₁.store files nodes
  files : FilesFramed ∅ k.store k₁.store
  writes : ChangesOnly {p | p = idlePage ∨ p = caller.userStackPage} k.phys.mem k₁.phys.mem
  root : k₁.phys.pagingKernelPml4 = k.phys.pagingKernelPml4
  started : k₁.schedStarted = false
  enabled : k₁.userTaskEnabled = true
  ready : ∀ t, TaskReady k₁.phys.pagingKernelPml4 (k₁.task t)
  waiting : ∀ t, (k₁.task t).state = .runnable
  kernel : (k₁.task .task0).kind = .kernel
  user : (k₁.task .task1).kind = .user
  bootstrap : (k₁.task .task1).userBootstrap = caller
  idleRsp : (k₁.task .task0).rsp = idlePage + 4096#64 - 160#64
  userRsp : (k₁.task .task1).rsp = execFrame caller
  idleStart : taskContext k₁.phys.mem (idlePage + 4096#64 - 160#64) = kernelContext idlePage idle
  userStart : taskContext k₁.phys.mem (execFrame caller) = userContext caller

/-- The two tasks before the first tick. -/
structure TasksReady (K : KernelTables) (entry : Word) (reserved : ReservedHeap) (rsp0Page idlePage : Word)
    (pool : Set Word) (own : Owner) (idle : Word) (k : KernelState) (caller : UserTaskBootstrap)
    (l files nodes : List Word) : Prop where
  life : UserLife K entry reserved [rsp0Page, idlePage] pool own k caller l files nodes
  apart : rsp0Page ≠ idlePage
  started : k.schedStarted = false
  enabled : k.userTaskEnabled = true
  kernel : (k.task .task0).kind = .kernel
  ready : ∀ t, TaskReady k.phys.pagingKernelPml4 (k.task t)
  waiting : ∀ t, (k.task t).state = .runnable
  idleRsp : (k.task .task0).rsp = idlePage + 4096#64 - 160#64
  userRsp : (k.task .task1).rsp = execFrame caller
  idleStart : taskContext k.phys.mem (idlePage + 4096#64 - 160#64) = kernelContext idlePage idle
  userStart : taskContext k.phys.mem (execFrame caller) = userContext caller
  window : caller.imagePhysicalBegin = elfUserLoadBase

/-- The user task right after the first tick, with the memory `m` that the interrupt left. -/
structure FirstTurn (k k₂ : KernelState) (m : Mem) : Prop where
  current : k₂.current = some .task1
  started : k₂.schedStarted = true
  user : k₂.task .task1 = { k.task .task1 with state := .running }
  idle : k₂.task .task0 = k.task .task0
  store : ∃ serial, k₂.store =
    { k.store with phys := { k.phys with mem := m, cr3 := (k.task .task1).cr3 }, serial := serial }

section Boot

variable {K : KernelTables} {entry rsp0Page idlePage : Word} {own : Owner} {k k₁ k₂ : KernelState}
  {caller : UserTaskBootstrap} {l files nodes heapPages : List Word} {reserved : ReservedHeap} {idle : Word} {m : Mem}
  {pool P : Set Word} {c : Machine KernelState} {ctx : Context} {rsp0 : Word}

/-- The page of the idle task was nobody's. -/
lemma BootReady.idlePage_held (h : BootReady K entry heapPages rsp0Page idlePage own k caller l) :
    HeldPage K own l idlePage ∧ idlePage ∉ caller.ownPages ∧ idlePage ∉ kernelPages entry [rsp0Page] := by
  have hinv := h.pages.inv.run.inv
  refine ⟨⟨hinv.free.pages _ (by simp), (List.nodup_cons.mp hinv.free.nodup).1, hinv.free_own _ (by simp),
    hinv.free_kernel _ (by simp)⟩, fun hp => ?_, fun hp => ?_⟩
  · exact (h.pages.held _ hp).used (by simp)
  · exact (h.kernel _ hp).1.used (by simp)

/-- With it the kernel has two stacks, apart from each other and from the code. -/
lemma BootReady.kernelPages_held (h : BootReady K entry heapPages rsp0Page idlePage own k caller l) :
    (∀ p ∈ kernelPages entry [rsp0Page, idlePage], HeldPage K own l p ∧ p ∉ caller.ownPages) ∧
      pageAddress entry ∉ [rsp0Page, idlePage] ∧ rsp0Page ≠ idlePage := by
  obtain ⟨hidle, hidleOwn, hidleKernel⟩ := h.idlePage_held
  refine ⟨fun p hp => ?_, ?_, fun he => hidleKernel ?_⟩
  · by_cases he : p = idlePage
    · exact he ▸ ⟨hidle, hidleOwn⟩
    · obtain ⟨hheld, hno⟩ := h.kernel p (by simpa [kernelPages, he] using hp)
      exact ⟨hheld.mono fun p hp => List.mem_cons_of_mem _ hp, hno⟩
  · simp only [List.mem_cons, List.not_mem_nil, or_false, not_or]
    refine ⟨h.code, fun he => hidleKernel ?_⟩
    rw [← he]
    exact List.mem_cons_self
  · rw [← he]
    simp [kernelPages]

lemma programPages_stacks (caller : UserTaskBootstrap) (own : Owner) (entry rsp0Page idlePage : Word) :
    {q | q ∈ programPages caller own ∪ {p | p ∈ kernelPages entry [rsp0Page]} ∨ q = idlePage} =
      programPages caller own ∪ {p | p ∈ kernelPages entry [rsp0Page, idlePage]} := by
  ext q
  simp only [kernelPages, Set.mem_union, Set.mem_ofPred_eq, List.mem_cons, List.not_mem_nil, or_false, or_assoc]

/-- The two stacks are no tables, so the pages of the program stay its own. -/
lemma BootReady.stacked (h : BootReady K entry heapPages rsp0Page idlePage own k caller l)
    (hm : ChangesOnly {p | p = idlePage ∨ p = caller.userStackPage} k.phys.mem k₁.phys.mem)
    (hroot : k₁.phys.pagingKernelPml4 = k.phys.pagingKernelPml4) (hfree : FreeList k₁.phys l) :
    CallerPages K own { k₁.phys with cr3 := caller.addressSpace } caller l [caller.addressSpace] ∧
      ∀ v, mmuWalk k₁.phys.mem caller.addressSpace v = mmuWalk k.phys.mem caller.addressSpace v := by
  have hpages := h.pages
  have hinv := hpages.inv.run.inv
  obtain ⟨hidle, hno, -⟩ := h.idlePage_held
  have hsub : ∀ p ∈ l, p ∈ idlePage :: l := fun p hp => List.mem_cons_of_mem _ hp
  have hwritten : ∀ p ∈ {p | p = idlePage ∨ p = caller.userStackPage}, p.toNat % 4096 = 0 ∧ own p = none ∧
      ¬ K.IsTable p := by
    rintro p (rfl | rfl)
    · exact ⟨hidle.page.aligned, hidle.unowned, hidle.apart⟩
    · exact ⟨hpages.stack.page.aligned, hpages.stack.unowned, hpages.stack.apart⟩
  have hrun : ExecRunInv K own { k₁.phys with cr3 := caller.addressSpace } l [caller.addressSpace] := by
    refine ⟨⟨⟨⟨hfree.chain, hfree.nodup, hfree.pages⟩, hroot.trans hinv.root, ?_, ?_,
      fun p hp => hinv.free_own p (hsub p hp), fun p hp => hinv.free_kernel p (hsub p hp)⟩, hpages.inv.run.space,
      hpages.inv.run.owner⟩, hpages.inv.positions⟩
    · intro π q i hd hn
      rw [← hinv.kernel π q i hd hn]
      exact hm.slot (fun p hp => (hwritten p hp).1) (K.isTable_page ⟨π, hd, hn⟩).aligned
        (fun hq => (hwritten q hq).2.2 ⟨π, hd, hn⟩) i
    · refine hinv.tables.congr fun q b π i hq => ?_
      refine hm.slot (fun p hp => (hwritten p hp).1) (hinv.own_page hq).aligned (fun hqP => ?_) i
      rw [(hwritten q hqP).2.1] at hq
      cases hq
  refine ⟨⟨hrun, hpages.limit, hpages.space, rfl, hpages.layout, fun p hp => (hpages.image p hp).mono hsub,
    hpages.stack.mono hsub, hpages.apart⟩, fun v => ?_⟩
  exact hpages.inv.walk_eq hrun (fun p hp => ⟨(hwritten p hp).1, (hwritten p hp).2.1⟩) hm hpages.space v

/-- The first frame of a task is at the end of its stack page. -/
lemma frameOn_top {p : Word} (hp : IsPage p) : FrameOn p (p + 4096#64 - 160#64) := by
  have hlt := hp.lt
  have hrsp : (p + 4096#64 - 160#64).toNat = p.toNat + 4096 - 160 := by bv_omega
  unfold FrameOn
  omega

/-- The scheduler makes two tasks. -/
lemma BootReady.made (h : BootReady K entry heapPages rsp0Page idlePage own k caller l) (idle worker : Word) :
    ∃ k₁ blocks files nodes, schedInitialize k idle worker = .ok k₁ ∧
      TasksMade entry ⟨blocks, heapPages⟩ rsp0Page idlePage own idle k k₁ caller l files nodes := by
  obtain ⟨hidle, hidleOwn, hidleKernel⟩ := h.idlePage_held
  have hfree := h.pages.inv.run.inv.free
  have hstack := h.pages.stack
  have hheld : idlePage ∉ programPages caller own ∪ {p | p ∈ kernelPages entry [rsp0Page]} := by
    rintro (hp | hp)
    · exact h.pages.program_used hp List.mem_cons_self
    · exact hidleKernel hp
  obtain ⟨k₀, hk₀⟩ : ∃ k₀, (({ k with current := none, schedStarted := false }.setTask .task0
      (Task.unusedTask 0)).setTask .task1 (Task.unusedTask 1)) = k₀ := ⟨_, rfl⟩
  have hstore : k₀.store = k.store := by
    rw [← hk₀]
    rfl
  have hphys : k₀.phys = k.phys := congrArg Store.phys hstore
  obtain ⟨k₂, blocks, hrun₂, hfree₂, hinv₂, hfiles₂, hmem₂, hrsp₂, hkind₂, hctx₂⟩ :=
    taskCreateKernel_starts (hstore.symm ▸ h.objects)
      (show FreeList k₀.phys (idlePage :: l) from hphys.symm ▸ ⟨hfree.chain, hfree.nodup, hfree.pages⟩) hheld .task0 0 idle
  have hmade₂ := taskCreateKernel_made hrun₂
  obtain ⟨k₁, files, nodes, hrun₁, hfree₁, hinv₁, htable, hfew, hbusy, hfiles₁, hmem₁, hrsp₁, hkind₁, hboot₁,
    hctx₁⟩ := taskCreateUser_starts hinv₂ hfree₂ h.complete hstack.page
      (fun hp => hstack.used (List.mem_cons_of_mem _ hp)) .task1 1
  have henabled : k₂.userTaskEnabled = true := by
    rw [hmade₂.enabled, ← hk₀]
    exact h.user
  have hboot₂ : k₂.userTaskBootstrap = caller := by
    rw [hmade₂.bootstrap, ← hk₀]
    exact h.bootstrap
  have hinit : schedInitialize k idle worker = .ok k₁ := by
    unfold schedInitialize
    dsimp only
    rw [hk₀, hrun₂, ok_bind]
    dsimp only
    rw [if_neg (by simp), if_pos henabled, hboot₂, hrun₁]
    rfl
  have hroot₂ : k₂.phys.pagingKernelPml4 = k.phys.pagingKernelPml4 :=
    hmade₂.globals.kernelPml4.trans (congrArg Phys.pagingKernelPml4 hphys)
  have hroot : k.phys.pagingKernelPml4 = K.root := h.pages.inv.run.inv.root
  have hmade₁ := taskCreateUser_made (hroot₂.trans hroot ▸ h.pages.space_ne) hrun₁
  have hpml4 := hmade₁.globals.kernelPml4
  have htask₀ : k₁.task .task0 = k₂.task .task0 := hmade₁.other
  have hready : ∀ t, TaskReady k₁.phys.pagingKernelPml4 (k₁.task t) ∧ (k₁.task t).state = .runnable := by
    intro t
    rw [hpml4]
    cases t with
    | task0 =>
      rw [htask₀, hmade₂.globals.kernelPml4]
      exact ⟨hmade₂.ready, hmade₂.state⟩
    | task1 => exact ⟨hmade₁.ready, hmade₁.state⟩
  have hidleStart : taskContext k₁.phys.mem (idlePage + 4096#64 - 160#64) = kernelContext idlePage idle := by
    have hkeeps : KeepsPages [idlePage] k₂.phys.mem k₁.phys.mem :=
      .of_page hmem₁ hstack.page hidle.page fun he => hidleOwn (he ▸ List.mem_cons_self)
    rw [hkeeps.context List.mem_cons_self (frameOn_top hidle.page)]
    exact hctx₂
  refine ⟨k₁, blocks, files, nodes, hinit, hfree₁, programPages_stacks caller own entry rsp0Page idlePage ▸ hinv₁, htable,
    hfew, hbusy, (hstore ▸ hfiles₂).trans hfiles₁, ?_, hpml4.trans hroot₂, ?_, hmade₁.enabled.trans henabled,
    fun t => (hready t).1, fun t => (hready t).2, htask₀ ▸ hkind₂, hkind₁, hboot₁, htask₀ ▸ hrsp₂, hrsp₁, hidleStart, hctx₁⟩
  · exact ChangesOnly.trans (hphys ▸ hmem₂.mono fun _ hp => Or.inl hp) (hmem₁.mono fun _ hp => Or.inr hp)
  · rw [hmade₁.started, hmade₂.started, ← hk₀]
    rfl

/-- They are ready, with the program as it was loaded. -/
lemma BootReady.tasks (h : BootReady K entry heapPages rsp0Page idlePage own k caller l) (idle worker : Word) :
    ∃ k₁ blocks files nodes, schedInitialize k idle worker = .ok k₁ ∧
      TasksReady K entry ⟨blocks, heapPages⟩ rsp0Page idlePage {p | p ∈ l ∨ p ∈ programPages caller own} own idle k₁
        caller l files nodes ∧
      ChangesOnly {p | p = idlePage ∨ p = caller.userStackPage} k.phys.mem k₁.phys.mem ∧
      ∀ v, mmuWalk k₁.phys.mem caller.addressSpace v = mmuWalk k.phys.mem caller.addressSpace v := by
  obtain ⟨k₁, blocks, files, nodes, hinit, hmade⟩ := h.made idle worker
  obtain ⟨hpages, hwalk⟩ := h.stacked hmade.writes hmade.root hmade.free
  obtain ⟨hkernel, hcode, hapart⟩ := h.kernelPages_held
  have hlife : UserLife K entry ⟨blocks, heapPages⟩ [rsp0Page, idlePage] {p | p ∈ l ∨ p ∈ programPages caller own} own
      k₁ caller l files nodes :=
    ⟨hmade.user, hmade.bootstrap, hpages, fun _ => Iff.rfl, hmade.objects, hmade.table,
      h.walk.congr hmade.files.root hmade.files.ready, hmade.few, hmade.busy, hkernel, hcode,
      fun v t ht hu => h.maps v t (hwalk v ▸ ht) hu⟩
  exact ⟨k₁, blocks, files, nodes, hinit, ⟨hlife, hapart, hmade.started, hmade.enabled, hmade.kernel, hmade.ready,
    hmade.waiting, hmade.idleRsp, hmade.userRsp, hmade.idleStart, hmade.userStart, h.window⟩, hmade.writes, hwalk⟩

/-- The tick that starts the scheduler. -/
lemma schedTick_start (hs : k.schedStarted = false) (huser : k.userTaskEnabled = true)
    (hready : TaskReady k.phys.pagingKernelPml4 (k.task .task1)) (hrun : (k.task .task1).state = .runnable)
    (rsp : Word) :
    schedTick k rsp = .ok ((k.task .task1).rsp, resumed { k with schedStarted := true } .task1) := by
  obtain ⟨k₁, hk₁⟩ : ∃ k₁, { k with schedStarted := true } = k₁ := ⟨_, rfl⟩
  have htask : k₁.task = k.task := by rw [← hk₁]
  have hact : schedActivate k₁ .task1 = .ok (resumed k₁ .task1) := by
    rw [← hk₁]
    exact schedActivate_of_ready hready hrun
  unfold schedTick
  rw [if_pos (by simp [hs])]
  dsimp only
  rw [if_pos huser, hk₁, hact, ok_bind, resumed_task_same, ← htask]

/-- An interrupt comes upon a stack with room for a frame, on the pages `P`. -/
structure FramePages (rsp0 : Word) (ctx : Context) (P : Set Word) : Prop where
  room : 160 ≤ (interruptStack rsp0 ctx).toNat
  frame : ∀ x, (interruptStack rsp0 ctx).toNat - 160 ≤ x → x < (interruptStack rsp0 ctx).toNat →
    ∃ p ∈ P, OnPage p x

/-- The frame is all that is written. -/
lemma FramePages.entered (h : FramePages rsp0 c.ctx P) : ∃ m,
    enteredState rsp0 c = c.state.setPhys { c.state.phys with mem := m } ∧ ChangesOnly P c.state.phys.mem m := by
  refine ⟨_, enteredState_setPhys, fun x hx => pushes_outside h.room ?_⟩
  have hlen : (contextWords pushOrder c.ctx).length = 20 := length_contextWords
  by_contra hno
  obtain ⟨p, hp, hon⟩ := h.frame x (by omega) (by omega)
  exact hx p hp hon

lemma kernelContext_idle (hp : IsPage idlePage) (idle : Word) :
    IdleContext idlePage (kernelContext idlePage idle) := by
  have hlt := hp.lt
  have hrsp : (kernelContext idlePage idle).rsp.toNat = idlePage.toNat + 4096 - 8 := by
    change (idlePage + 4096#64 - 8#64).toNat = _
    bv_omega
  exact ⟨(by decide : privilege 0x0008#64 = 0#64), by omega, by omega⟩

/-- The first tick resumes the user task. -/
lemma TasksReady.turns (h : TasksReady K entry reserved rsp0Page idlePage pool own idle k caller l files nodes)
    (m : Mem) (workerCounter rsp : Word) :
    ∃ k₂, kernelTimerTick workerCounter rsp (k.setPhys { k.phys with mem := m }) = .ok (execFrame caller, k₂) ∧
      FirstTurn k k₂ m := by
  obtain ⟨k₁, serial, htick, htask, -, hstarted, henabled, hstore⟩ := kernelTimerTick_eq workerCounter rsp
    (k.setPhys { k.phys with mem := m })
  have htask : k₁.task = k.task := htask
  have hstore : k₁.store = { k.store with phys := { k.phys with mem := m }, serial := serial } := hstore
  have hphys : k₁.phys = { k.phys with mem := m } := congrArg Store.phys hstore
  have hready : TaskReady k₁.phys.pagingKernelPml4 (k₁.task .task1) := by
    rw [hphys, htask]
    exact h.ready .task1
  have hrsp : (k₁.task .task1).rsp = execFrame caller := htask ▸ h.userRsp
  rw [schedTick_start (hstarted.trans h.started) (henabled.trans h.enabled) hready (htask ▸ h.waiting .task1),
    hrsp] at htick
  refine ⟨_, htick, rfl, rfl, ?_, ?_, serial, ?_⟩
  · rw [resumed_task_same, ← htask]
  · rw [← htask]
    exact resumed_task_other
  · have hs : (resumed { k₁ with schedStarted := true } .task1).store =
        { k₁.store with phys := { k₁.phys with cr3 := (k₁.task .task1).cr3 } } := rfl
    rw [hs, htask, hphys, hstore]

/-- From then on the two tasks take turns. -/
lemma TasksReady.takesTurns (h : TasksReady K entry reserved rsp0Page idlePage pool own idle k caller l files nodes)
    (hm : ChangesOnly P k.phys.mem m) (hheld : ∀ p ∈ P, HeldPage K own l p ∧ p ∉ caller.ownPages ∧ p ≠ idlePage)
    (hturn : FirstTurn k k₂ m) :
    taskContext m (execFrame caller) = userContext caller ∧
      UserSystem K entry reserved rsp0Page idlePage pool own ⟨k₂, userContext caller⟩ caller l files nodes ∧
      contextOf ⟨k₂, userContext caller⟩ .task0 = kernelContext idlePage idle := by
  have hidle : IsPage idlePage := (h.life.kernel idlePage (by simp [kernelPages])).1.page
  have huser : IsPage caller.userStackPage := h.life.pages.stack.page
  obtain ⟨serial, hstore⟩ := hturn.store
  have hphys : k₂.phys = { k.phys with mem := m, cr3 := (k.task .task1).cr3 } := congrArg Store.phys hstore
  have hkeeps : KeepsPages [idlePage, caller.userStackPage] k.phys.mem m := by
    refine .of_changes hm (fun p hp => (hheld p hp).1.page.aligned) fun p hp => ?_
    simp only [List.mem_cons, List.not_mem_nil, or_false] at hp
    rcases hp with rfl | rfl
    · exact ⟨hidle.aligned, fun hp => (hheld _ hp).2.2 rfl⟩
    · exact ⟨huser.aligned, fun hp => (hheld _ hp).2.1 List.mem_cons_self⟩
  have hidleSaved : contextOf ⟨k₂, userContext caller⟩ .task0 = kernelContext idlePage idle := by
    rw [contextOf_waiting (by simp [hturn.current])]
    dsimp only
    rw [hturn.idle, h.idleRsp, hphys, ← h.idleStart]
    exact hkeeps.context (by simp) (frameOn_top hidle)
  have hlife : UserLife K entry reserved [rsp0Page, idlePage] pool own k₂ caller l files nodes :=
    h.life.others (fun p hp => (hheld p hp).1) hm hturn.user hstore
  refine ⟨h.userStart ▸ hkeeps.context (by simp) (frameOn_top huser), ⟨hlife, h.apart, hturn.idle ▸ h.kernel,
    fun t => ?_, hturn.started, ⟨.task1, hturn.current, ?_, ?_, ?_⟩, fun t ht => ?_, fun t => ?_, h.window⟩, hidleSaved⟩
  · have hready := h.ready t
    dsimp only
    rw [hphys]
    cases t with
    | task0 =>
      rw [hturn.idle]
      exact hready
    | task1 =>
      rw [hturn.user]
      exact ⟨hready.rsp, hready.kernel, hready.user⟩
  · dsimp only
    rw [hturn.user]
  · exact (congrArg Task.state hturn.idle).trans (h.waiting .task0)
  · dsimp only
    rw [hphys, hturn.user]
  · cases t with
    | task0 =>
      dsimp only
      rw [hturn.idle, h.idleRsp]
      exact frameOn_top hidle
    | task1 => exact absurd hturn.current ht
  · cases t with
    | task0 =>
      rw [hidleSaved]
      exact kernelContext_idle hidle idle
    | task1 =>
      rw [contextOf_current hturn.current]
      exact (by decide : privilege 0x0023#64 = 3#64)

/-- The first tick enters the user task; the boot stack is left for good. -/
lemma TasksReady.firstTick
    (h : TasksReady K entry reserved rsp0Page idlePage pool own idle c.state caller l files nodes)
    (hstack : FramePages (rsp0Page + 4096#64) c.ctx P)
    (hheld : ∀ p ∈ P, HeldPage K own l p ∧ p ∉ caller.ownPages ∧ p ≠ idlePage) (workerCounter : Word)
    (left : Reg → Word) (selector offset : Word) :
    ∃ c', run (archIrq0Entry workerCounter left) (deliver (rsp0Page + 4096#64) selector offset c) = .ok c' ∧
      UserSystem K entry reserved rsp0Page idlePage pool own c' caller l files nodes ∧
      c'.state.current = some .task1 ∧ c'.ctx = userContext caller ∧
      contextOf c' .task0 = kernelContext idlePage idle ∧ ChangesOnly P c.state.phys.mem c'.state.phys.mem ∧
      ∀ v, mmuWalk c'.state.phys.mem caller.addressSpace v = mmuWalk c.state.phys.mem caller.addressSpace v := by
  obtain ⟨m, hentered, hm⟩ := hstack.entered
  obtain ⟨k₂, htick, hturn⟩ := h.turns m workerCounter (enteredRsp (rsp0Page + 4096#64) c)
  obtain ⟨hstart, hsystem, hidle⟩ := h.takesTurns hm hheld hturn
  have hmem : k₂.phys.mem = m := by
    obtain ⟨serial, hstore⟩ := hturn.store
    exact congrArg (fun s => s.phys.mem) hstore
  have hnext : (execFrame caller).toNat + 160 ≤ 2 ^ 64 := by
    have hlt := h.life.pages.stack.page.lt
    have hframe := frameOn_top h.life.pages.stack.page
    unfold FrameOn at hframe
    unfold execFrame
    omega
  rw [← hentered] at htick
  have hrun := entryStub_ok left selector offset hstack.room htick hnext
  rw [hmem, hstart] at hrun
  refine ⟨_, hrun, hsystem, hturn.current, rfl, hidle, hmem ▸ hm, fun v => ?_⟩
  dsimp only
  rw [hmem]
  exact h.life.walk_held (fun p hp => (hheld p hp).1) hm v

end Boot

end Platinum
