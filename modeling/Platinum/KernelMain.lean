import Platinum.FirstTask

/-!
# From the self tests to the first tick

`kernel_main` takes the stack of the task state segment, sets up paging, the first
user task and the scheduler, and waits for the timer.
-/
namespace Platinum
open ByteMemory BlockList SharedTrie Processor

/-- `kernel_main` after its self tests. Returns the page whose end is `rsp0` of the task
state segment. -/
def kernelMain (archUserProgramEntry : Word) (f : FirstUserBuild) (taskIdle taskWorker : Word)
    (k : KernelState) : Run (Word × KernelState) :=
  match pallocAlloc k.phys with
  | (kernelRsp0, s) =>
    if kernelRsp0 = 0#64 then .error .halt
    else do
      let s ← pagingInitialize s
      let k := k.setPhys s
      let k ← if f.userInitEnabled then configureFirstUserTask archUserProgramEntry f k else .ok k
      let k ← schedInitialize k taskIdle taskWorker
      .ok (kernelRsp0, k)

/-- The kernel after its self tests: its heap is made of `heapPages` and has no objects, and
neither the heap nor the trampoline's code lies on the free pages `l`. -/
structure SelfTested (entry : Word) (heapPages : List Word) (k : KernelState) (l : List Word) : Prop where
  free : FreeList k.phys l
  objects : FdInv (UserHeap {pageAddress entry} ⟨[], heapPages⟩) k.store [] [] []
  walk : NamespaceOk k.store
  page : IsPage (pageAddress entry)
  code : pageAddress entry ∉ l

section Main

variable {entry rsp0Page p : Word} {f : FirstUserBuild} {k k' : KernelState} {l heapPages : List Word} {s : Phys}
  {taskIdle taskWorker : Word} {s' : Phys} {K : KernelTables} {l' : List Word}

/-- No scheduler without a page for the idle task's stack. -/
lemma schedInitialize_nil (h : FreeList k.phys []) (taskIdle taskWorker : Word) :
    schedInitialize k taskIdle taskWorker = .error .halt := by
  obtain ⟨k₀, hk₀⟩ : ∃ k₀, (({ k with current := none, schedStarted := false }.setTask .task0
      (Task.unusedTask 0)).setTask .task1 (Task.unusedTask 1)) = k₀ := ⟨_, rfl⟩
  have hphys : k₀.phys = k.phys := by
    rw [← hk₀]
    rfl
  have hstack : taskBuildKernelStack k₀.phys taskIdle = (0#64, k.phys) := by
    unfold taskBuildKernelStack
    rw [hphys, pallocAlloc_nil h]
    rfl
  unfold schedInitialize
  dsimp only
  rw [hk₀]
  unfold taskCreateKernel
  rw [hstack]
  rfl

lemma SelfTested.entry_lt (h : SelfTested entry heapPages k l) : entry.toNat < 2 ^ 52 := by
  have hlt := h.page.lt
  rw [pageAddress, WordArith.toNat_alignDown] at hlt
  omega

/-- The stack page and the tables were free. -/
lemma SelfTested.paged (h : SelfTested entry heapPages k (rsp0Page :: l)) (hb : Booted s l s' K l') :
    KernelReady K entry heapPages rsp0Page (k.setPhys s') l' := by
  obtain ⟨tabs, rfl, -, htabs⟩ := hb.taken
  have hpage : IsPage rsp0Page := h.free.pages _ List.mem_cons_self
  obtain ⟨hno, hnd⟩ := List.nodup_cons.mp h.free.nodup
  have hsub : ∀ p ∈ l', p ∈ rsp0Page :: (tabs ++ l') := fun p hp =>
    List.mem_cons_of_mem _ (List.mem_append_right _ hp)
  have htable : ∀ p, K.IsTable p → p ∈ rsp0Page :: (tabs ++ l') := fun p hp =>
    List.mem_cons_of_mem _ (List.mem_append_left _ ((htabs p).mpr hp))
  have hkernel : ∀ p ∈ kernelPages entry [rsp0Page], HeldPage K (fun _ => none) l' p := by
    intro p hp
    rcases List.mem_cons.mp hp with rfl | hp
    · exact ⟨h.page, fun hl => h.code (hsub _ hl), rfl, fun ht => h.code (htable _ ht)⟩
    · rw [List.mem_singleton.mp hp]
      exact ⟨hpage, fun hl => hno (List.mem_append_right _ hl), rfl,
        fun ht => hno (List.mem_append_left _ ((htabs _).mpr ht))⟩
  refine ⟨⟨⟨hb.inv, by simp, by simp⟩, by simp⟩, hb.limit_pos, ⟨h.objects.counts.congr rfl rfl,
    h.objects.heap.trade h.free hb.inv.free (fun p hp => .inl (hsub p hp)) (fun p hp => ?_) fun p hl hp => ?_⟩, h.walk,
    hkernel, fun he => h.code (he ▸ List.mem_cons_self)⟩
  · rcases List.mem_cons.mp hp with rfl | hp
    · exact .inr rfl
    · exact .inl (List.mem_singleton.mp hp ▸ List.mem_cons_self)
  · exact (hkernel p hp).used hl

/-- A scheduler that is set up has a stack for the idle task. -/
lemma schedInitialize_page (h : FreeList k.phys l) (hrun : schedInitialize k taskIdle taskWorker = .ok k') :
    ∃ idlePage l', l = idlePage :: l' := by
  cases l with
  | nil =>
    rw [schedInitialize_nil h] at hrun
    cases hrun
  | cons idlePage l' => exact ⟨idlePage, l', rfl⟩

/-- The program stays mapped as the stacks are written. -/
lemma TasksReady.mapped {K : KernelTables} {own : Owner} {plan : ElfPlan} {idlePage a stackPage idle : Word}
    {reserved : ReservedHeap} {files nodes : List Word} {pool P : Set Word} {m m' : Mem}
    (h : TasksReady K entry reserved rsp0Page idlePage pool own idle k (plan.bootstrap entry a stackPage) l files
      nodes) (hplan : execPlan f.userImage f.userImageSize = some plan)
    (hmapped : ProgramMapped m a entry stackPage f.userImage plan) (hwalk : ∀ v, mmuWalk m' a v = mmuWalk m a v)
    (hm : ChangesOnly P m m') (hP : ∀ p ∈ P, p = idlePage ∨ p = stackPage ∨
      IsPage p ∧ p ∉ (plan.bootstrap entry a stackPage).ownPages) :
    ProgramMapped m' a entry stackPage f.userImage plan := by
  have hv := (elfCheck_valid hplan).1
  have himage := ElfPlan.imagePages_bootstrap hv entry a stackPage
  refine hmapped.kept hv hwalk hm fun p hp => ?_
  rcases hP p hp with rfl | rfl | ⟨hpage, hno⟩
  · obtain ⟨hheld, hno⟩ := h.life.kernel p (by simp [kernelPages])
    exact ⟨hheld.page.aligned, fun hw => hno (List.mem_cons_of_mem _ (himage ▸ hw))⟩
  · exact ⟨h.life.pages.stack.page.aligned, fun hw => h.life.pages.apart (himage ▸ hw)⟩
  · exact ⟨hpage.aligned, fun hw => hno (List.mem_cons_of_mem _ (himage ▸ hw))⟩

/-- Everything that `kernel_main` took was free. -/
lemma SelfTested.ready (h : SelfTested entry heapPages k l) (henabled : f.userInitEnabled = true)
    (helf : f.userInitUseElf = true) (hrun : kernelMain entry f taskIdle taskWorker k = .ok (rsp0Page, k')) :
    ∃ K own plan a stackPage idlePage l' blocks files nodes, execPlan f.userImage f.userImageSize = some plan ∧
      K.limit = (highestPhysicalEnd k.phys.memmap).toNat ∧ TasksReady K entry ⟨blocks, heapPages⟩ rsp0Page idlePage
        {p | p ∈ l' ∨ p ∈ programPages (plan.bootstrap entry a stackPage) own} own taskIdle k'
        (plan.bootstrap entry a stackPage) l' files nodes ∧
      (∀ p, p ∈ l ↔ (p = rsp0Page ∨ p = idlePage ∨ K.IsTable p) ∨
        p ∈ l' ∨ p ∈ programPages (plan.bootstrap entry a stackPage) own) ∧
      ProgramMapped k'.phys.mem a entry stackPage f.userImage plan := by
  unfold kernelMain at hrun
  cases l with
  | nil =>
    rw [pallocAlloc_nil h.free] at hrun
    cases hrun
  | cons r l =>
    obtain ⟨s, halloc, hfree, -, hglobals⟩ := pallocAlloc_cons h.free
    have hmm : s.memmap = k.phys.memmap := hglobals.memmap
    rw [halloc] at hrun
    dsimp only at hrun
    rw [if_neg (h.free.pages r List.mem_cons_self).ne_zero] at hrun
    obtain ⟨s', hpaging, hrun⟩ := bind_eq_ok.mp hrun
    obtain ⟨K, l₁, hb⟩ : ∃ K l₁, Booted s l s' K l₁ := by
      rcases pagingInitialize_spec hfree with ⟨s₁, K, l₁, hs₁, hb⟩ | ⟨hs₁, -⟩
      · cases hs₁.symm.trans hpaging
        exact ⟨K, l₁, hb⟩
      · cases hs₁.symm.trans hpaging
    rw [if_pos henabled] at hrun
    obtain ⟨k₁, hconfigure, hrun⟩ := bind_eq_ok.mp hrun
    obtain ⟨k₂, hinit, hrun⟩ := bind_eq_ok.mp hrun
    cases hrun
    obtain ⟨own, plan, a, stackPage, l₂, hplan, hfree₂, -, hconserved, hmapped, hready⟩ :=
      (h.paged hb).configured helf h.entry_lt hconfigure
    obtain ⟨idlePage, l₃, rfl⟩ := schedInitialize_page hfree₂ hinit
    obtain ⟨k₃, blocks, files, nodes, hinit', htasks, hmem, hwalk⟩ :=
      (hready idlePage l₃ rfl).tasks taskIdle taskWorker
    obtain rfl := Except.ok.inj (hinit.symm.trans hinit')
    refine ⟨K, own, plan, a, stackPage, idlePage, l₃, blocks, files, nodes, hplan, hmm ▸ hb.limit, htasks, fun p => ?_,
      htasks.mapped hplan hmapped hwalk hmem ?_⟩
    swap
    · rintro p (rfl | rfl)
      · exact .inl rfl
      · exact .inr (.inl rfl)
    obtain ⟨tabs, rfl, -, htabs⟩ := hb.taken
    have hp := hconserved p
    rw [List.mem_cons] at hp
    rw [List.mem_cons, List.mem_append, hp, htabs p]
    simp only [or_assoc]
    exact or_congr_right or_left_comm

/-- With the window among the pages behind the kernel's tables, five more pages, and none of
them at the user's addresses, `kernel_main` starts the scheduler. -/
lemma SelfTested.returns {plan : ElfPlan} (h : SelfTested entry heapPages k l) (henabled : f.userInitEnabled = true)
    (helf : f.userInitUseElf = true) (hbad : f.userTestBadBootstrap = false)
    (hplan : execPlan f.userImage f.userImageSize = some plan)
    (hentry : DirectAddress (highestPhysicalEnd k.phys.memmap).toNat entry)
    (hdirect : ∀ p ∈ l, DirectAddress (highestPhysicalEnd k.phys.memmap).toNat p)
    (hav : ∀ p ∈ plan.windowPages, p ∈ l.drop 2056) (hlen : plan.windowPages.length + 2061 ≤ l.length)
    (taskIdle taskWorker : Word) :
    ∃ rsp0Page k', kernelMain entry f taskIdle taskWorker k = .ok (rsp0Page, k') := by
  cases l with
  | nil => simp at hlen
  | cons r l =>
    obtain ⟨s, halloc, hfree, -, hglobals⟩ := pallocAlloc_cons h.free
    have hmm : s.memmap = k.phys.memmap := hglobals.memmap
    have hr : r ≠ 0#64 := (h.free.pages r List.mem_cons_self).ne_zero
    rw [List.length_cons] at hlen
    obtain ⟨s', K, l₁, hpaging, hb⟩ : ∃ s' K l₁, pagingInitialize s = .ok s' ∧ Booted s l s' K l₁ := by
      rcases pagingInitialize_spec hfree with hok | ⟨-, h0 | hshort⟩
      · exact hok
      · have hlt := hentry.1
        rw [hmm] at h0
        omega
      · omega
    have hlimit : K.limit = (highestPhysicalEnd k.phys.memmap).toNat := hmm ▸ hb.limit
    have hready := h.paged hb
    obtain ⟨tabs, rfl, htabs, -⟩ := hb.taken
    rw [List.length_append] at hlen
    have hwindow : ∀ p ∈ plan.windowPages, p ∈ l₁.tail := by
      intro p hp
      have hdrop : l₁.tail = (r :: (tabs ++ l₁)).drop (tabs.length + 2) := by
        rw [List.drop_succ_cons, ← List.drop_drop, List.drop_left, List.drop_one]
      rw [hdrop]
      exact List.drop_subset_drop_left _ (by omega) (hav p hp)
    have hroom : 5 ≤ (l₁.tail.diff plan.windowPages).length := by
      have hv := (elfCheck_valid hplan).1
      have hcount := (append_diff_perm hv.windowPages_nodup hwindow).length_eq
      rw [List.length_append, List.length_tail] at hcount
      omega
    have hdirect' : ∀ p ∈ l₁, DirectAddress K.limit p := fun p hp =>
      hlimit ▸ hdirect p (List.mem_cons_of_mem _ (List.mem_append_right _ hp))
    obtain ⟨k₁, hconfigure⟩ := hready.configures helf hbad (hlimit ▸ hentry) hdirect' hplan hwindow (by omega)
    obtain ⟨own, plan', a, stackPage, l₂, hplan', hfree₂, hlength, -, -, hboot⟩ :=
      hready.configured helf h.entry_lt hconfigure
    obtain rfl := Option.some.inj (hplan'.symm.trans hplan)
    cases l₂ with
    | nil =>
      have hv := (elfCheck_valid hplan).1
      have hcount := (append_diff_perm hv.windowPages_nodup hwindow).length_eq
      rw [List.length_append, List.length_tail] at hcount
      rw [List.length_nil] at hlength
      omega
    | cons idlePage l₃ =>
      obtain ⟨k₂, -, -, -, hinit, -⟩ := (hboot idlePage l₃ rfl).tasks taskIdle taskWorker
      refine ⟨r, k₂, ?_⟩
      unfold kernelMain
      rw [halloc]
      dsimp only
      rw [if_neg hr, hpaging, ok_bind, if_pos henabled, hconfigure, ok_bind, hinit]
      rfl

end Main

/-- The page of the idle task's stack, from its first frame. -/
def idleStackPage (k : KernelState) : Word := pageAddress (k.task .task0).rsp

lemma FrameOn.pageAddress {page rsp : Word} (h : FrameOn page rsp) (hp : IsPage page) :
    Platinum.pageAddress rsp = page := by
  obtain ⟨hlo, hhi⟩ := h
  have hal := hp.aligned
  apply BitVec.eq_of_toNat_eq
  rw [Platinum.pageAddress, WordArith.toNat_alignDown]
  omega

/-- A machine after its first interrupt, for builds with an ELF program and without the exec test
hook. The kernel came out of its self tests with the pages `l` free and returned from `kernel_main`;
the interrupt came upon a stack on none of them. `direct` keeps the pages that the kernel works with
from the two MiB that an address space maps to the program's. -/
structure SystemStart (b : Build) (f : FirstUserBuild) (k : KernelState) (l heapPages : List Word) (rsp0Page : Word)
    (c : Machine KernelState) : Prop where
  enabled : f.userInitEnabled = true
  elf : f.userInitUseElf = true
  hook : b.userTestExecTransferFail = false
  tested : SelfTested b.archUserProgramEntry heapPages k l
  direct : ∀ p, p ∈ l ∨ p ∈ heapPages ∨ p = pageAddress b.archUserProgramEntry →
    DirectAddress (highestPhysicalEnd k.phys.memmap).toNat p
  started : ∃ (c₀ : Machine KernelState) (taskIdle taskWorker workerCounter selector offset : Word)
    (left : Reg → Word) (P : Set Word),
    kernelMain b.archUserProgramEntry f taskIdle taskWorker k = .ok (rsp0Page, c₀.state) ∧
    FramePages (rsp0Page + 4096#64) c₀.ctx P ∧ (∀ p ∈ P, IsPage p ∧ p ∉ l) ∧
    run (archIrq0Entry workerCounter left) (deliver (rsp0Page + 4096#64) selector offset c₀) = .ok c

/-- The user task runs first, and both tasks are where they were made to start. All pages that
were free at first are accounted for. -/
def FirstEntry (entry : Word) (f : FirstUserBuild) (k : KernelState) (l heapPages : List Word)
    (rsp0Page taskIdle : Word) (c : Machine KernelState) : Prop :=
  ∃ K own plan a stackPage l' blocks files nodes, execPlan f.userImage f.userImageSize = some plan ∧
    K.limit = (highestPhysicalEnd k.phys.memmap).toNat ∧
    UserSystem K entry ⟨blocks, heapPages⟩ rsp0Page (idleStackPage c.state)
      {p | p ∈ l' ∨ p ∈ programPages (plan.bootstrap entry a stackPage) own} own c (plan.bootstrap entry a stackPage)
      l' files nodes ∧
    c.state.current = some .task1 ∧ c.ctx = userContext (plan.bootstrap entry a stackPage) ∧
    contextOf c .task0 = kernelContext (idleStackPage c.state) taskIdle ∧
    (∀ p, p ∈ l ↔ (p = rsp0Page ∨ p = idleStackPage c.state ∨ K.IsTable p) ∨
      p ∈ l' ∨ p ∈ programPages (plan.bootstrap entry a stackPage) own) ∧
    ProgramMapped c.state.phys.mem a entry stackPage f.userImage plan

/-- The first interrupt is answered. -/
lemma SelfTested.interrupted {entry rsp0Page taskIdle taskWorker : Word} {f : FirstUserBuild} {k : KernelState}
    {l heapPages : List Word} {P : Set Word} (h : SelfTested entry heapPages k l)
    (henabled : f.userInitEnabled = true) (helf : f.userInitUseElf = true)
    (c₀ : Machine KernelState) (hmain : kernelMain entry f taskIdle taskWorker k = .ok (rsp0Page, c₀.state))
    (hframe : FramePages (rsp0Page + 4096#64) c₀.ctx P) (hP : ∀ p ∈ P, IsPage p ∧ p ∉ l) (workerCounter : Word)
    (left : Reg → Word) (selector offset : Word) :
    ∃ c, run (archIrq0Entry workerCounter left) (deliver (rsp0Page + 4096#64) selector offset c₀) = .ok c ∧
      FirstEntry entry f k l heapPages rsp0Page taskIdle c := by
  obtain ⟨K, own, plan, a, stackPage, idlePage, l', blocks, files, nodes, hplan, hlimit, htasks, hconserved,
    hmapped⟩ := h.ready henabled helf hmain
  have hheld : ∀ p ∈ P, HeldPage K own l' p ∧ p ∉ (plan.bootstrap entry a stackPage).ownPages ∧ p ≠ idlePage := by
    intro p hp
    obtain ⟨hpage, hno⟩ := hP p hp
    have hnot := mt (hconserved p).mpr hno
    push Not at hnot
    obtain ⟨⟨-, hidle, htable⟩, hfree, hprogram⟩ := hnot
    refine ⟨⟨hpage, hfree, ?_, htable⟩, fun ho => hprogram (.inl ho), hidle⟩
    cases ho : own p with
    | none => rfl
    | some x => exact absurd (.inr ⟨x, ho⟩) hprogram
  obtain ⟨c, hrun, hsystem, hcurrent, hctx, hidle, hmem, hwalk⟩ :=
    htasks.firstTick hframe hheld workerCounter left selector offset
  have hframe₀ : FrameOn idlePage (c.state.task .task0).rsp := hsystem.frames .task0 (by simp [hcurrent])
  obtain rfl : idleStackPage c.state = idlePage :=
    hframe₀.pageAddress (htasks.life.kernel _ (by simp [kernelPages])).1.page
  exact ⟨c, hrun, K, own, plan, a, stackPage, l', blocks, files, nodes, hplan, hlimit, hsystem, hcurrent, hctx, hidle,
    hconserved, htasks.mapped hplan hmapped hwalk hmem fun p hp => .inr (.inr ⟨(hP p hp).1, (hheld p hp).2.1⟩)⟩

lemma SystemStart.entered {b : Build} {f : FirstUserBuild} {k : KernelState} {l heapPages : List Word}
    {rsp0Page : Word} {c : Machine KernelState} (h : SystemStart b f k l heapPages rsp0Page c) :
    ∃ taskIdle, FirstEntry b.archUserProgramEntry f k l heapPages rsp0Page taskIdle c := by
  obtain ⟨c₀, taskIdle, taskWorker, workerCounter, selector, offset, left, P, hmain, hframe, hP, hrun⟩ := h.started
  obtain ⟨c₁, hrun₁, hentry⟩ :=
    h.tested.interrupted h.enabled h.elf c₀ hmain hframe hP workerCounter left selector offset
  obtain rfl := Except.ok.inj (hrun.symm.trans hrun₁)
  exact ⟨taskIdle, hentry⟩

def sampleFirst : FirstUserBuild := ⟨true, true, false, false, sampleImage 1, 120#64, 0#64⟩

/-- A namespace with the one program `/bin/a`. -/
def sampleProgram : List EmbeddedUserProgram := [⟨[0x61], some (sampleImage 1), 120#64⟩]

lemma sampleProgram_namespace (k : Store) :
    ∃ k', vfsNamespaceInitialize k sampleProgram = .ok k' ∧ k'.heap = k.heap ∧ k'.phys = k.phys := by
  unfold vfsNamespaceInitialize sampleProgram
  simp only [vfsRegisterPrograms, vfsProgramImage]
  repeat rw [vfsNodeInitialize_eq _ _ _ (by simp) (by simp), ok_bind]
  rw [if_neg (by decide), if_pos (by simp)]
  dsimp only
  rw [vfsNodeInitialize_eq _ _ _ (by simp) (by simp), ok_bind]
  exact ⟨_, rfl, by simp only [Store.setNode_heap], by simp only [Store.setNode_phys]⟩

/-- The sample kernel: a heap of one page, the namespace, and 64 MiB of free pages. -/
lemma selfTested_exists : ∃ k l, SelfTested 0x00100000#64 [0x01F00000#64] k l ∧
    k.phys.memmap = sampleMemmap 0x4000#64 ∧ PallocInitial k.phys l ∧
    k.phys.allocRegionBegin = 0x02000000#64 ∧ k.phys.allocRegionEnd = 0x06000000#64 := by
  obtain ⟨l, s₀, K, l₀, hl, hb, he, hs₀, hboot, -, hmem⟩ := coldMachine_boots 0x4000#64
    (b := 0x02000000#64) (e := 0x06000000#64) (by decide) (by decide) (by decide) (by decide)
  obtain ⟨h, L, hheap, hfreeL⟩ := freshHeap_exists
  obtain ⟨k₀, hk₀⟩ : ∃ k₀, { smallStore with
      phys := pallocInitialize (coldMachine 0x4000#64), heap := h } = k₀ := ⟨_, rfl⟩
  have hzero : ∀ n, k₀.node (.static n) = ⟨.none, 0, none, .null⟩ := fun n => by
    rw [← hk₀]
    rfl
  have hheap₀ : k₀.heap = h := by rw [← hk₀]
  have hphys₀ : k₀.phys = pallocInitialize (coldMachine 0x4000#64) := by rw [← hk₀]
  have hevents : k₀.events = [] := by
    rw [← hk₀]
    rfl
  obtain ⟨store, hns, hstoreHeap, hstorePhys⟩ := sampleProgram_namespace k₀
  have hlive : live L = [] :=
    List.eq_nil_iff_forall_not_mem.mpr fun b hb => by
      obtain ⟨hbL, hused⟩ := mem_live.mp hb
      rw [hfreeL b hbL] at hused
      cases hused
  have hhanded : ((live L).map payloadAt).Perm [] := by simp [hlive]
  have hregion : ∀ p ∈ l, 0x02000000 ≤ p.toNat := fun p hp => by
    obtain ⟨-, hlo, -⟩ := (hl.mem_iff p).mp hp
    rw [hb] at hlo
    exact hlo
  have hno : ∀ p ∈ [0x01F00000#64], p ∉ l := by
    intro p hp hm
    obtain rfl := List.mem_singleton.mp hp
    exact absurd (hregion _ hm) (by decide)
  have hfree : FreeList k₀.phys l := hphys₀ ▸ hl.list
  have hstate : HeapState k₀.heap k₀.phys [0x01F00000#64] [] L l := ⟨hheap₀ ▸ hheap, hfree, hno, hhanded⟩
  have hstate' : HeapState store.heap store.phys [0x01F00000#64] [] L l := by
    rw [hstoreHeap, hstorePhys]
    exact hstate
  have hstart : FdStart sampleProgram (smallKernel.setStore store) :=
    ⟨⟨k₀, hns, hzero, hevents, [0x01F00000#64], L, l, hstate⟩, fun _ => rfl⟩
  have hcounts := hstart.fresh.inv.inv.counts
  rw [hstart.fresh.heldFiles_nil] at hcounts
  have hwalk := hstart.fresh.inv.walk
  refine ⟨smallKernel.setStore store, l, ⟨hstate'.free, ⟨hcounts, ?_, ?_⟩, hwalk, ?_, fun hm => ?_⟩, ?_⟩
  · exact ⟨L, hstate'.inv, by simp, hhanded, by simp [hlive], by simp [hlive], by simp⟩
  · refine ⟨[0x01F00000#64], L, l, hstate', ?_⟩
    rintro p (hp | hp) rfl
    · exact absurd (List.mem_singleton.mp hp) (by decide)
    · exact absurd (hregion _ hp) (by decide)
  · constructor <;> decide
  · exact absurd (hregion _ hm) (by decide)
  · change store.phys.memmap = _ ∧ PallocInitial store.phys l ∧ store.phys.allocRegionBegin = _ ∧
      store.phys.allocRegionEnd = _
    have hvalid : MemmapValid (coldMachine 0x4000#64).memmap := sampleMemmap_valid (by decide)
    obtain ⟨-, -, -, -, hmm, -⟩ := pallocInitialize_spec (coldMachine 0x4000#64) hvalid
    rw [hstorePhys, hphys₀]
    exact ⟨hmm, hl, hb, he⟩

/-- It has what `kernel_main` needs. -/
lemma selfTested_resources : ∃ k l, SelfTested 0x00100000#64 [0x01F00000#64] k l ∧
    (highestPhysicalEnd k.phys.memmap).toNat = 0x06000000 ∧
    (∀ p ∈ l, 0x02000000 ≤ p.toNat ∧ p.toNat < 0x06000000) ∧
    (∀ p ∈ (samplePlan 1#64).windowPages, p ∈ l.drop 2056) ∧
    (samplePlan 1#64).windowPages.length + 2061 ≤ l.length := by
  obtain ⟨k, l, h, hmm, hl, hb, he⟩ := selfTested_exists
  have hwindow : (samplePlan 1#64).windowPages = [0x02100000#64] := by decide
  have hpages : ((0x06000000#64 : Word).toNat - (0x02000000#64 : Word).toNat) / 4096 = 0x4000 := by decide
  refine ⟨k, l, h, ?_, fun p hp => ?_, fun p hp => ?_, ?_⟩
  · rw [hmm]
    decide
  · obtain ⟨-, hge, hlt⟩ := (hl.mem_iff p).mp hp
    rw [hb] at hge
    rw [he] at hlt
    exact ⟨hge, hlt⟩
  · rw [hwindow] at hp
    obtain rfl := List.mem_singleton.mp hp
    refine hl.mem_rest (l.take 2056) (List.take_append_drop _ _).symm (List.length_take_le _ _) (by decide) ?_ ?_
    · rw [hb]
      decide
    · rw [he]
      decide
  · rw [hwindow, hl.length, hb, he, hpages]
    decide

/-- The idle loop of `kernel_main`, on a stack below all free pages. -/
def sampleContext : Context := ⟨fun _ => 0#64, 0#64, 0x0008#64, 0x202#64, 0x01E01000#64, 0x0010#64⟩

lemma sampleContext_frame (rsp0 : Word) : FramePages rsp0 sampleContext {0x01E00000#64} := by
  have hstack : (interruptStack rsp0 sampleContext).toNat = 0x01E01000 := by
    rw [interruptStack, if_pos (show privilege sampleContext.cs = 0#64 by decide)]
    decide
  constructor
  · rw [hstack]
    decide
  · rw [hstack]
    intro x hlo hhi
    refine ⟨0x01E00000#64, rfl, ?_⟩
    have hpage : (0x01E00000#64 : Word).toNat = 0x01E00000 := rfl
    constructor <;> omega

lemma sampleContext_apart {l : List Word} (hl : ∀ p ∈ l, 0x02000000 ≤ p.toNat ∧ p.toNat < 0x06000000) :
    ∀ p ∈ ({0x01E00000#64} : Set Word), IsPage p ∧ p ∉ l := by
  rintro p rfl
  refine ⟨by constructor <;> decide, fun hm => ?_⟩
  obtain ⟨hge, -⟩ := hl _ hm
  exact absurd hge (by decide)

/-- Its pages are below the user's addresses. -/
lemma sampleKernel_direct {l : List Word} (hl : ∀ p ∈ l, 0x02000000 ≤ p.toNat ∧ p.toNat < 0x06000000) (p : Word)
    (hp : p ∈ l ∨ p ∈ [0x01F00000#64] ∨ p = pageAddress 0x00100000#64) : DirectAddress 0x06000000 p := by
  rcases hp with hp | hp | rfl
  · obtain ⟨-, hlt⟩ := hl p hp
    exact ⟨hlt, by omega⟩
  · rw [List.mem_singleton.mp hp]
    constructor <;> decide
  · constructor <;> decide

end Platinum
