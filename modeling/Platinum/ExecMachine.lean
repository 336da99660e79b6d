import Platinum.ExecStages

/-!
# The sample machine as a caller of exec

Setting up the scheduler gives each task a console of its own, so the machine's
user task meets what exec relies on.
-/
namespace Platinum
open ByteMemory BlockList

section Boot

variable {k k' : KernelState} {t : TaskId} {id : BitVec 32} {entry idle worker : Word}
  {l others held files nodes : List Word} {pages : Set Word}

/-- A kernel task takes a page for its stack and objects for its console. -/
lemma taskCreateKernel_fds (hrun : taskCreateKernel k t id entry = .ok (true, k'))
    (hinv : FdInv (HeapBeside pages others) k.store held files nodes) (hfew : held.length ≤ 16)
    (hwalk : NamespaceOk k.store) (hfree : FreeList k.phys l) :
    ∃ files' nodes' l', CallerFds others held k'.store (k'.task t).fdTable files' nodes' ∧
      HeapBeside pages others k'.store.heap k'.phys (objectPtrs k'.store files' nodes') ∧
      FreeList k'.phys l' ∧ ∀ p ∈ l', p ∈ l := by
  unfold taskCreateKernel at hrun
  cases hstack : taskBuildKernelStack k.phys entry with
  | mk rsp s =>
    rw [hstack] at hrun
    dsimp only at hrun
    by_cases h0 : rsp = 0#64
    · rw [if_pos h0] at hrun
      cases hrun
    rw [if_neg h0] at hrun
    obtain ⟨⟨seeded, table, store⟩, hseed, hrun⟩ := bind_eq_ok.mp hrun
    cases hrun
    obtain ⟨p, l', rfl, hfree', -⟩ := taskBuildKernelStack_free hfree hstack h0
    have hinv' : FdInv (HeapBeside pages others) (k.setPhys s).store held files nodes :=
      ⟨hinv.counts.congr rfl rfl, hinv.heap.shrink hfree hfree' fun q hq => List.mem_cons_of_mem p hq⟩
    obtain ⟨seeded₁, table₁, store₁, files', nodes', hseed₁, hout⟩ :=
      hinv'.seed (heapBeside_spec pages others) hfew fun _ _ => trivial
    obtain ⟨rfl, rfl, rfl⟩ : seeded₁ = true ∧ table₁ = table ∧ store₁ = store := by
      simpa using hseed₁.symm.trans hseed
    obtain ⟨n, hn⟩ := hout.grown.free l' hfree'
    refine ⟨files', nodes', l'.drop n, ?_, hout.step.inv.heap, hn,
      fun q hq => List.mem_cons_of_mem p (List.mem_of_mem_drop hq)⟩
    rw [KernelState.setTask_same]
    exact hout.fds hfew hwalk

/-- A user task takes objects for its console. -/
lemma taskCreateUser_console {bootstrap : UserTaskBootstrap}
    (hrun : taskCreateUser k t id bootstrap = .ok (true, k'))
    (hinv : FdInv (HeapBeside pages others) k.store held files nodes) (hfew : held.length ≤ 16)
    (hwalk : NamespaceOk k.store) (hfree : FreeList k.phys l) (hpage : IsPage bootstrap.userStackPage)
    (hl : bootstrap.userStackPage ∉ l) :
    ∃ files' nodes', CallerFds others held k'.store (k'.task t).fdTable files' nodes' ∧
      HeapBeside pages others k'.store.heap k'.phys (objectPtrs k'.store files' nodes') := by
  unfold taskCreateUser at hrun
  by_cases hcomplete : bootstrapComplete bootstrap = true
  swap
  · rw [if_pos hcomplete] at hrun
    cases hrun
  obtain ⟨htop, hstack⟩ := bootstrapComplete_stack hcomplete
  have hframe : ChangesOnly {bootstrap.userStackPage} k.phys.mem
      (pushWords k.phys.mem bootstrap.userStackPage (userFrame bootstrap)) :=
    pushWords_frame (by simp)
  rw [if_neg (not_not.mpr hcomplete), taskBuildUserStack_eq htop hstack] at hrun
  generalize pushWords k.phys.mem bootstrap.userStackPage (userFrame bootstrap) = m at hframe hrun
  dsimp only at hrun
  rw [if_neg (frame_ne_zero hpage)] at hrun
  obtain ⟨⟨seeded, table, store⟩, hseed, hrun⟩ := bind_eq_ok.mp hrun
  cases hrun
  have hfree' : FreeList { k.phys with mem := m } l :=
    hfree.frame rfl hframe (fun q hq => hq ▸ hpage.aligned) fun q hq => hq ▸ hl
  have hinv' : FdInv (HeapBeside pages others) (k.setPhys { k.phys with mem := m }).store held files nodes :=
    ⟨hinv.counts.congr rfl rfl, hinv.heap.shrink hfree hfree' fun q hq => hq⟩
  obtain ⟨seeded₁, table₁, store₁, files', nodes', hseed₁, hout⟩ :=
    hinv'.seed (heapBeside_spec pages others) hfew fun _ _ => trivial
  obtain ⟨rfl, rfl, rfl⟩ : seeded₁ = true ∧ table₁ = table ∧ store₁ = store := by
    simpa using hseed₁.symm.trans hseed
  refine ⟨files', nodes', ?_, hout.step.inv.heap⟩
  rw [KernelState.setTask_same]
  exact hout.fds hfew hwalk

end Boot

section Machine

variable {rest : List Word} {K : KernelTables} {own : Owner} {s₀ : Phys} {k₀ k₁ k : KernelState}
  {pages : Set Word}

/-- The user task has a console beside the kernel task's. -/
lemma LoadedMachine.fds (h : LoadedMachine rest K own s₀ k₀) (hs : MachineStarted k₀ k₁ k rest)
    (hheap : HeapBeside pages [] k₀.store.heap k₀.phys []) :
    ∃ held files nodes, CallerFds [] held k₁.store (k₁.task .task1).fdTable files nodes ∧
      HeapBeside pages [] k₁.store.heap k₁.phys (objectPtrs k₁.store files nodes) := by
  have hfresh := h.start.fresh.inv
  have hcounts := hfresh.inv.counts
  rw [h.start.fresh.heldFiles_nil] at hcounts
  have hinit := hs.init
  unfold schedInitialize at hinit
  obtain ⟨⟨created, k₂⟩, hkernel, hinit⟩ := bind_eq_ok.mp hinit
  cases created with
  | false => cases hinit
  | true =>
    obtain ⟨files, nodes, l', hfds, hbeside, hfree, hsub⟩ := taskCreateKernel_fds hkernel
      (⟨hcounts, hheap⟩ : FdInv (HeapBeside pages []) k₀.store [] [] []) (by simp) hfresh.walk
      h.inv.run.inv.free
    have henabled : k₂.userTaskEnabled = true := (taskCreateKernel_made hkernel).enabled.trans h.user
    have hboot : k₂.userTaskBootstrap = sampleBootstrap :=
      (taskCreateKernel_made hkernel).bootstrap.trans h.bootstrap
    dsimp only at hinit
    rw [if_neg (by simp), if_pos henabled, hboot] at hinit
    obtain ⟨⟨created, k₃⟩, huser, hinit⟩ := bind_eq_ok.mp hinit
    cases created with
    | false => cases hinit
    | true =>
      obtain rfl := Except.ok.inj hinit
      have hcounts₂ := hfds.inv.counts
      rw [List.append_nil] at hcounts₂
      obtain ⟨files', nodes', hfds', hbeside'⟩ := taskCreateUser_console huser ⟨hcounts₂, hbeside⟩
        (tableFiles_length _) hfds.walk hfree (by constructor <;> decide)
        fun hm => h.stack.1 (hsub _ hm)
      exact ⟨_, files', nodes', hfds', hbeside'⟩

/-- The machine's user task may call exec, and the heap is still apart from the pages
it was apart from. -/
theorem LoadedMachine.callerBeside (h : LoadedMachine rest K own s₀ k₀)
    (hs : MachineStarted k₀ k₁ k rest) (hheap : HeapBeside pages [] k₀.store.heap k₀.phys []) :
    ∃ held files nodes,
      ExecCaller K own k .task1 sampleBootstrap rest [0x02200000#64] [] held files nodes ∧
      HeapBeside pages [] k.store.heap k.phys (objectPtrs k.store files nodes) := by
  have hm := h.running hs
  obtain ⟨held, files, nodes, hfds, hbeside⟩ := h.fds hs hheap
  have hcr3 : k.phys.cr3 = (k₁.task .task1).cr3 := by
    rw [hs.resumed]
    rfl
  have hkind := hs.ready.kind
  have hready := hs.sched.ready .task1 (by rw [hs.sched.waiting hs.ready.started]; simp)
  have hstack := h.stack
  have himage : sampleBootstrap.imagePages = [0x02100000#64] := by decide
  have hfree₁ : FreeList k₁.phys rest := hs.ready.free
  have hstore : k.store = { k₁.store with phys := k.phys } := by
    rw [hs.resumed]
    rfl
  refine ⟨held, files, nodes, ⟨hm.current, hm.started, hm.bootstrap,
    ⟨hm.inv, hm.limit, by simp [sampleBootstrap, ElfPlan.bootstrap], ?_, rfl, fun p hp => ?_, ?_, ?_⟩, ?_⟩, ?_⟩
  · rw [hcr3, (hready.user hkind).1, hs.ready.bootstrap, h.bootstrap]
  · rw [himage] at hp
    obtain rfl := List.mem_singleton.mp hp
    have hpage : IsPage 0x02100000#64 := by constructor <;> decide
    obtain ⟨hl, ho, hK⟩ := hm.image _ hpage (by decide)
    exact ⟨hpage, hl, ho, hK⟩
  · exact ⟨by constructor <;> decide, fun hl => hstack.1 (List.mem_cons_of_mem _ hl), hstack.2.1,
      hstack.2.2⟩
  · rw [himage]
    decide
  · have htable : (k.task .task1).fdTable = (k₁.task .task1).fdTable := by
      rw [hs.resumed, resumed_task_same]
    rw [htable, hstore]
    exact hfds.shrink hfree₁ hs.free fun p hp => hp
  · rw [hstore]
    exact hbeside.shrink hfree₁ hs.free fun p hp => hp

theorem LoadedMachine.caller (h : LoadedMachine rest K own s₀ k₀) (hs : MachineStarted k₀ k₁ k rest) :
    ∃ held files nodes,
      ExecCaller K own k .task1 sampleBootstrap rest [0x02200000#64] [] held files nodes := by
  have hheap : HeapWith [] k₀.store.heap k₀.phys [] := h.start.fresh.inv.inv.heap
  rw [← heapBeside_none] at hheap
  obtain ⟨held, files, nodes, hcaller, -⟩ := h.callerBeside hs hheap
  exact ⟨held, files, nodes, hcaller⟩

end Machine

/-- `/bin/a`. -/
def samplePath : List Byte := [0x2F, 0x62, 0x69, 0x6E, 0x2F, 0x61]

/-- The path and its NUL at the start of the image page. -/
def withPath (m : Mem) : Mem := store64 m 0x02100000 0x0000612F6E69622F#64

lemma withPath_frame (m : Mem) : ChangesOnly {0x02100000#64} m (withPath m) := by
  intro x hx
  have hno : ¬ OnPage 0x02100000#64 x := hx _ rfl
  refine store64_outside m _ ?_
  unfold OnPage at hno
  rw [show (0x02100000#64 : Word).toNat = 0x02100000 from rfl] at hno
  omega

/-- A program whose first image page starts with the path can pass it. -/
lemma pathAt_sample {m : Mem} {a : Word}
    (hm : ∀ i, i < 8 → m (0x02100000 + i) = byteOf 0x0000612F6E69622F#64 i)
    (hwalk : mmuWalk m a 0x40001000#64 = some ⟨0x02100000#64, true, true⟩) :
    PathAt m a firstUserLayout 0x40001000#64 samplePath := by
  have hbyte (i : ℕ) (hi : i < 8) : PathByte m a firstUserLayout 0x40001000#64 i
      (byteOf 0x0000612F6E69622F#64 i) := by
    have hv : (0x40001000#64 + BitVec.ofNat 64 i : Word).toNat = 0x40001000 + i := by
      simp only [BitVec.toNat_add, BitVec.toNat_ofNat]
      omega
    have hpage : pageAddress (0x40001000#64 + BitVec.ofNat 64 i) = 0x40001000#64 := by
      apply BitVec.eq_of_toNat_eq
      rw [pageAddress, WordArith.toNat_alignDown, hv, show (0x40001000#64 : Word).toNat = 0x40001000 from rfl]
      omega
    have hmap : mmuWalk m a (0x40001000#64 + BitVec.ofNat 64 i) = some ⟨0x02100000#64, true, true⟩ := by
      rw [← mmuWalk_pageAddress, hpage]
      exact hwalk
    refine ⟨?_, ⟨?_, ?_, _, hmap, rfl⟩, ?_⟩
    · rw [show (0x40001000#64 : Word).toNat = 0x40001000 from rfl]
      omega
    · rw [BitVec.le_def, hv, show firstUserLayout.trampolineBase.toNat = 0x40000000 from rfl]
      omega
    · rw [BitVec.lt_def, hv, show firstUserLayout.stackTop.toNat = 0x40200000 from rfl]
      omega
    · rw [userByte, hmap, Option.map_some, hv,
        show (0x02100000#64 : Word).toNat + (0x40001000 + i) % 4096 = 0x02100000 + i by
          rw [show (0x02100000#64 : Word).toNat = 0x02100000 from rfl]
          omega, hm i hi]
  have hlen : samplePath.length = 6 := rfl
  refine ⟨fun i hi => ?_, hbyte 6 (by omega), by decide, rfl⟩
  have hb := hbyte i (by omega)
  have hsame : byteOf 0x0000612F6E69622F#64 i = samplePath[i] := by
    rw [hlen] at hi
    interval_cases i <;> rfl
  rwa [hsame] at hb

section Path

variable {rest : List Word} {K : KernelTables} {own : Owner} {s₀ : Phys} {k₀ k₁ k : KernelState}

/-- The machine once its program has put a path into its memory. -/
def withPathState (k : KernelState) : KernelState :=
  k.setPhys { k.phys with mem := withPath k.phys.mem }

/-- The program's first image page is where it was mapped. -/
lemma LoadedMachine.walk_image (h : LoadedMachine rest K own s₀ k₀) (hs : MachineStarted k₀ k₁ k rest) :
    mmuWalk (withPathState k).phys.mem sampleBootstrap.addressSpace 0x40001000#64 =
      some ⟨0x02100000#64, true, true⟩ := by
  obtain ⟨held, files, nodes, hcaller⟩ := h.caller hs
  have hheld := hcaller.pages.image 0x02100000#64 (by decide)
  have hcaller' := hcaller.written hheld (withPath_frame k.phys.mem)
  have hspace := hcaller'.pages.inv.run.space _ hcaller'.pages.space
  have hleaf := h.inv.run.inv.leaf_congr hcaller'.pages.inv.run.inv (fun q x i hq => ?_) hspace
    (ρ := firstPath) rfl (ptIndex 0x40001000#64)
  · have htranslate := congrArg leafTranslation (hleaf.trans h.leaf)
    exact (hcaller'.pages.inv.run.inv.mmuWalk_eq hspace _).trans
      (htranslate.trans (leafTranslation_userEntry (by decide)))
  · refine ((withPath_frame k.phys.mem).slot (fun p hp => hp ▸ rfl)
      (h.inv.run.inv.own_page hq).aligned ?_ i).trans (hs.other.tables q (h.inv.run.owned_inUse hq) i)
    rintro rfl
    rw [hheld.unowned] at hq
    cases hq

/-- The program has the path of its own image in memory. -/
lemma LoadedMachine.path (h : LoadedMachine rest K own s₀ k₀) (hs : MachineStarted k₀ k₁ k rest) :
    ∃ held files nodes,
      ExecCaller K own (withPathState k) .task1 sampleBootstrap rest [0x02200000#64] [] held files nodes ∧
      ExecPathAt (withPathState k) sampleBootstrap 0x40001000#64 samplePath := by
  obtain ⟨held, files, nodes, hcaller⟩ := h.caller hs
  have hheld := hcaller.pages.image 0x02100000#64 (by decide)
  refine ⟨held, files, nodes, hcaller.written hheld (withPath_frame k.phys.mem), ?_, by decide⟩
  exact pathAt_sample (fun i hi => store64_at _ _ _ hi) (h.walk_image hs)

/-- Its heap has room for the console and a file. -/
lemma LoadedMachine.userFds (h : LoadedMachine rest K own s₀ k₀) (hs : MachineStarted k₀ k₁ k rest) :
    ∃ reserved files nodes, UserFds reserved (withPathState k) files nodes := by
  have hrun : UserRun ⟨0x00100000#64, false⟩ k₁ k := .step .start (.tick hs.tick)
  obtain ⟨reserved, hinv⟩ := schedInitialize_userInv h.start h.user hs.init
  obtain ⟨⟨files, nodes, hfds⟩, -⟩ := hrun.inv hinv rfl
  exact ⟨reserved, files, nodes,
    hfds.other (s := { k.phys with mem := withPath k.phys.mem }) (c := k.store.serial) rfl rfl⟩

/-- So looking the path up takes no page. -/
lemma LoadedMachine.offers (h : LoadedMachine rest K own s₀ k₀) (hs : MachineStarted k₀ k₁ k rest) :
    Offers (withPathState k).store samplePath (sampleImage 1) 120#64 (withPathState k).phys := by
  have hm := h.running hs
  obtain ⟨hkind, -, hdata⟩ := hm.node
  obtain ⟨reserved, files, nodes, hfds⟩ := h.userFds hs
  obtain ⟨f, heap', s', halloc, -, hsure, -⟩ :=
    (roomyHeap_spec reserved).makeFile hfds.inv.heap (by
      have hroom := hfds.room
      simp only [objectPtrs, List.length_append, List.length_map]
      omega)
  obtain ⟨hf, hphys⟩ := hsure trivial
  refine ⟨?_, ?_, f, _, halloc, hf, hphys⟩
  · change ExecutableAt k.store samplePath
    rw [ExecutableAt, samplePath, hm.walk]
    exact ⟨by simp, hkind⟩
  · change nodeImage (k.store.node (vfsWalkPath k.store samplePath)) = _
    rw [samplePath, hm.walk, nodeImage, hdata]
    rfl

end Path

/-- A booted machine whose user task runs `/bin/a` with the pages `rest` free. It
has the path of its program in memory, and its heap has room for a file. -/
theorem execCaller_exists {rest : List Word} (hps : ∀ p ∈ bootPages ++ rest, SparePage p)
    (hnd : (bootPages ++ rest).Nodup) : ∃ K own k held files nodes,
      ExecCaller K own k .task1 sampleBootstrap rest [0x02200000#64] [] held files nodes ∧
      Offers k.store samplePath (sampleImage 1) 120#64 k.phys ∧
      ExecPathAt k sampleBootstrap 0x40001000#64 samplePath ∧ k.phys.mem 0x02100000 = 0x2F := by
  obtain ⟨l, K, own, s₀, k₀, -, h, -⟩ := loadedMachine_exists hps hnd
  obtain ⟨k₁, k, hs⟩ := h.starts
  obtain ⟨held, files, nodes, hcaller, hpath⟩ := h.path hs
  exact ⟨K, own, _, held, files, nodes, hcaller, h.offers hs, hpath, rfl⟩

end Platinum
