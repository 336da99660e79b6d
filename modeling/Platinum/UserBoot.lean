import Platinum.ExecPoint
import Platinum.FewPages

/-!
# A kernel with a user task

What the creation of the two tasks takes from the page allocator and the heap,
and a machine whose user task has started.
-/
namespace Platinum
open ByteMemory BlockList

section Start

variable {k k' : KernelState} {entry p : Word} {pages l reserved : List Word} {L : List Block}
  {t : TaskId} {id : BitVec 32}

/-- The kernel task's console is all there is on the heap, packed tightly. -/
lemma taskCreateKernel_reserves {t : TaskId} {id : BitVec 32}
    (hrun : taskCreateKernel k t id entry = .ok (true, k')) (hcounts : FdCounts k.store [] [] [])
    (hheap : HeapState k.store.heap k.phys pages [] L l) (hwalk : NamespaceOk k.store) :
    ∃ reserved, FdInv (RoomyHeap reserved) k'.store [] [] [] ∧ NamespaceOk k'.store ∧
      k'.current = k.current := by
  unfold taskCreateKernel at hrun
  cases hstack : taskBuildKernelStack k.phys entry with
  | mk rsp s =>
    rw [hstack] at hrun
    dsimp only at hrun
    by_cases h0 : rsp = 0#64
    · rw [if_pos h0] at hrun
      cases hrun
    rw [if_neg h0] at hrun
    obtain ⟨⟨seeded, table, store⟩, hseed, hrun⟩ := bind_eq_ok.mp hrun
    cases hrun
    obtain ⟨p, l', rfl, hfree, -⟩ := taskBuildKernelStack_free hheap.free hstack h0
    have hstate : HeapState (k.setPhys s).store.heap (k.setPhys s).phys pages [] L l' :=
      ⟨hheap.inv, hfree, fun q hq hql => hheap.apart q hq (List.mem_cons_of_mem p hql), hheap.handed⟩
    have hinv : FdInv (HeapWith []) (k.setPhys s).store [] [] [] :=
      ⟨hcounts.congr rfl rfl, pages, L, l', hstate⟩
    obtain ⟨seeded₁, table₁, store₁, files', nodes', hseed₁, hout⟩ :=
      hinv.seed (heapWith_spec []) (by simp) fun _ _ => trivial
    obtain ⟨rfl, rfl, rfl⟩ : seeded₁ = true ∧ table₁ = table ∧ store₁ = store := by
      simpa using hseed₁.symm.trans hseed
    obtain ⟨ptrs, hlen, halloc⟩ := fdTableSeedConsole_allocated hseed
    obtain ⟨pages₁, L₁, l₁, hsp⟩ := halloc.spacious hstate hlen.le
    have hc := hout.step.inv.counts
    have hcounts₁ : FdCounts store₁ [] [] [] := by
      refine ⟨List.nodup_nil, by simp, by simp, by simp, by simp, by simp, fun r hr => ?_, hc.static,
        by simp⟩
      cases r with
      | null => exact hr.elim
      | allocated n => exact absurd hr List.not_mem_nil
      | static n => exact (hc.node_refs (.static n) trivial).trans (hout.static n)
    exact ⟨ptrs, ⟨hcounts₁, pages₁, L₁, hsp.roomy hlen⟩,
      hwalk.congr hout.step.root hout.step.ready, rfl⟩

lemma kept_phys (k : KernelState) (s : Phys) : Kept k.store (k.setPhys s).store [] [] :=
  ⟨fun _ _ => rfl, fun _ _ => rfl, fun _ _ => rfl, fun _ _ => rfl, fun _ _ => rfl, rfl, rfl⟩

/-- A frame at the end of a page has an address. -/
lemma frame_ne_zero (hp : IsPage p) : p + 4096#64 - 160#64 ≠ 0#64 := by
  have hlt := hp.lt
  intro h0
  bv_omega

/-- A kernel task takes a page for its stack; its console fits a roomy heap. -/
lemma taskCreateKernel_roomy (hinv : FdInv (RoomyHeap reserved) k.store [] [] [])
    (hfree : FreeList k.phys (p :: l)) (t : TaskId) (id : BitVec 32) (entry : Word) :
    ∃ k', taskCreateKernel k t id entry = .ok (true, k') ∧ FreeList k'.phys l ∧
      ChangesOnly {p} k.phys.mem k'.phys.mem ∧ SameGlobals k.phys k'.phys ∧
      Kept k.store k'.store [] [] := by
  have hp := hfree.pages p (by simp)
  have hpl := (List.nodup_cons.mp hfree.nodup).1
  have h0 := frame_ne_zero hp
  obtain ⟨s₁, halloc, hfree₁, hmem, hg⟩ := pallocAlloc_cons hfree
  have hframe : ChangesOnly {p} s₁.mem (pushWords s₁.mem p (kernelFrame p entry)) :=
    pushWords_frame (by simp)
  have hstack : taskBuildKernelStack k.phys entry =
      (p + 4096#64 - 160#64, { s₁ with mem := pushWords s₁.mem p (kernelFrame p entry) }) := by
    unfold taskBuildKernelStack
    rw [halloc]
    exact if_neg hp.ne_zero
  generalize pushWords s₁.mem p (kernelFrame p entry) = m at hframe hstack
  obtain ⟨s, hs⟩ : ∃ s : Phys, { s₁ with mem := m } = s := ⟨_, rfl⟩
  have hfree' : FreeList s l := hs ▸ hfree₁.frame rfl hframe (fun q hq => hq ▸ hp.aligned)
    fun q hq => hq ▸ hpl
  have hinv' : FdInv (RoomyHeap reserved) (k.setPhys s).store [] [] [] :=
    ⟨hinv.counts.congr rfl rfl, hinv.heap⟩
  obtain ⟨seeded, table, store, files', nodes', hseed, hout⟩ :=
    hinv'.seed (roomyHeap_spec reserved) (by simp) fun m hm => by
      simp only [List.length_nil] at hm
      omega
  obtain ⟨rfl, hphys⟩ := hout.sure trivial
  have hphys : store.phys = s := hphys
  unfold taskCreateKernel
  rw [hstack, hs]
  dsimp only
  rw [if_neg h0, hseed]
  refine ⟨_, rfl, ?_⟩
  change FreeList store.phys l ∧ ChangesOnly {p} k.phys.mem store.phys.mem ∧
    SameGlobals k.phys store.phys ∧ Kept k.store store [] []
  rw [hphys, ← hs, ← hmem]
  exact ⟨hs ▸ hfree', hframe, hg.mem m, (kept_phys k s).trans hout.kept⟩

/-- A user task needs no page; its frame goes to the stack page it was given. -/
lemma taskCreateUser_roomy {bootstrap : UserTaskBootstrap}
    (hinv : FdInv (RoomyHeap reserved) k.store [] [] []) (hfree : FreeList k.phys l)
    (hcomplete : bootstrapComplete bootstrap = true) (hstack : IsPage bootstrap.userStackPage)
    (hno : bootstrap.userStackPage ∉ l) (t : TaskId) (id : BitVec 32) :
    ∃ k', taskCreateUser k t id bootstrap = .ok (true, k') ∧ FreeList k'.phys l ∧
      ChangesOnly {bootstrap.userStackPage} k.phys.mem k'.phys.mem ∧
      SameGlobals k.phys k'.phys ∧ Kept k.store k'.store [] [] ∧ (k'.task t).kind = .user ∧
      (k'.task t).userBootstrap = bootstrap ∧ k'.schedStarted = k.schedStarted ∧
      k'.userTaskEnabled = k.userTaskEnabled := by
  obtain ⟨htop, hpage⟩ := bootstrapComplete_stack hcomplete
  have hframe : ChangesOnly {bootstrap.userStackPage} k.phys.mem
      (pushWords k.phys.mem bootstrap.userStackPage (userFrame bootstrap)) :=
    pushWords_frame (by simp)
  have hbuild := taskBuildUserStack_eq (s := k.phys) htop hpage
  generalize pushWords k.phys.mem bootstrap.userStackPage (userFrame bootstrap) = m at hframe hbuild
  obtain ⟨s, hs⟩ : ∃ s : Phys, { k.phys with mem := m } = s := ⟨_, rfl⟩
  have hfree' : FreeList s l := hs ▸ hfree.frame rfl hframe (fun q hq => hq ▸ hstack.aligned)
    fun q hq => hq ▸ hno
  have hinv' : FdInv (RoomyHeap reserved) (k.setPhys s).store [] [] [] :=
    ⟨hinv.counts.congr rfl rfl, hinv.heap⟩
  obtain ⟨seeded, table, store, files', nodes', hseed, hout⟩ :=
    hinv'.seed (roomyHeap_spec reserved) (by simp) fun m hm => by
      simp only [List.length_nil] at hm
      omega
  obtain ⟨rfl, hphys⟩ := hout.sure trivial
  have hphys : store.phys = s := hphys
  unfold taskCreateUser
  rw [if_neg (not_not.mpr hcomplete), hbuild, hs]
  dsimp only
  rw [if_neg (frame_ne_zero hstack), hseed]
  refine ⟨_, rfl, ?_⟩
  rw [KernelState.setTask_same]
  change FreeList store.phys l ∧ ChangesOnly {bootstrap.userStackPage} k.phys.mem store.phys.mem ∧
    SameGlobals k.phys store.phys ∧ Kept k.store store [] [] ∧ _
  rw [hphys, ← hs]
  exact ⟨hs ▸ hfree', hframe, (SameGlobals.refl _).mem m, (kept_phys k s).trans hout.kept,
    rfl, rfl, rfl, rfl⟩

/-- The invariant at the start, on a heap of a page. -/
lemma FdStart.roomy {registry : List EmbeddedUserProgram} {k₀ : KernelState}
    (h : FdStart registry k₀) (hroomy : RoomyHeap [] k₀.store.heap k₀.phys []) :
    FdInv (RoomyHeap []) k₀.store [] [] [] := by
  have hcounts := h.fresh.inv.inv.counts
  rw [h.fresh.heldFiles_nil] at hcounts
  exact ⟨hcounts, hroomy⟩

/-- The scheduler is set up: the kernel task's stack is `p`, the user task will
run `k₀`'s program. -/
structure SchedReady (k₀ k₁ : KernelState) (p : Word) (l : List Word) : Prop where
  free : FreeList k₁.phys l
  mem : ChangesOnly {q | q = p ∨ q = k₀.userTaskBootstrap.userStackPage} k₀.phys.mem k₁.phys.mem
  globals : SameGlobals k₀.phys k₁.phys
  kept : Kept k₀.store k₁.store [] []
  started : k₁.schedStarted = false
  enabled : k₁.userTaskEnabled = true
  kind : (k₁.task .task1).kind = .user
  bootstrap : (k₁.task .task1).userBootstrap = k₀.userTaskBootstrap

/-- Setting up the scheduler takes one page. -/
theorem schedInitialize_starts {registry : List EmbeddedUserProgram} {k₀ : KernelState}
    (h : FdStart registry k₀) (hroomy : RoomyHeap [] k₀.store.heap k₀.phys [])
    (hfree : FreeList k₀.phys (p :: l)) (huser : k₀.userTaskEnabled = true)
    (hcomplete : bootstrapComplete k₀.userTaskBootstrap = true)
    (hstack : IsPage k₀.userTaskBootstrap.userStackPage)
    (hno : k₀.userTaskBootstrap.userStackPage ∉ l) (idle worker : Word) :
    ∃ k₁, schedInitialize k₀ idle worker = .ok k₁ ∧ SchedReady k₀ k₁ p l := by
  have hinv := h.roomy hroomy
  obtain ⟨pages, L, l', hheap⟩ := h.fresh.inv.inv.heap
  obtain ⟨k, hk⟩ : ∃ k, (({ k₀ with current := none, schedStarted := false }.setTask .task0
      (Task.unusedTask 0)).setTask .task1 (Task.unusedTask 1)) = k := ⟨_, rfl⟩
  have hstore : k.store = k₀.store := by
    rw [← hk]
    rfl
  have hphys : k.phys = k₀.phys := congrArg Store.phys hstore
  obtain ⟨k₂, hrun₂, hfree₂, hmem₂, hg₂, hkept₂⟩ :=
    taskCreateKernel_roomy (k := k) (hstore.symm ▸ hinv) (hphys.symm ▸ hfree) .task0 0 idle
  have hm₂ := taskCreateKernel_made hrun₂
  obtain ⟨reserved, hinv₂, -, -⟩ := taskCreateKernel_reserves hrun₂ (hstore.symm ▸ hinv.counts)
    (hstore.symm ▸ hheap) (hstore.symm ▸ h.fresh.inv.walk)
  obtain ⟨k₁, hrun₁, hfree₁, hmem₁, hg₁, hkept₁, hkind, hboot, hstarted, henabled₁⟩ :=
    taskCreateUser_roomy hinv₂ hfree₂ hcomplete hstack hno .task1 1
  have henabled : k₂.userTaskEnabled = true := by
    rw [hm₂.enabled, ← hk]
    exact huser
  have hboot₂ : k₂.userTaskBootstrap = k₀.userTaskBootstrap := by
    rw [hm₂.bootstrap, ← hk]
    rfl
  refine ⟨k₁, ?_, hfree₁, ?_, ?_, hstore ▸ hkept₂.trans hkept₁, ?_, ?_, hkind, hboot⟩
  · unfold schedInitialize
    dsimp only
    rw [hk, hrun₂, ok_bind]
    dsimp only
    rw [if_neg (by simp), if_pos henabled, hboot₂, hrun₁]
    rfl
  · have h₂ := hmem₂.mono (Q := {q | q = p ∨ q = k₀.userTaskBootstrap.userStackPage}) fun q hq =>
      Or.inl hq
    have h₁ := hmem₁.mono (Q := {q | q = p ∨ q = k₀.userTaskBootstrap.userStackPage}) fun q hq =>
      Or.inr hq
    exact hphys ▸ h₂.trans h₁
  · exact hphys ▸ hg₂.trans hg₁
  · rw [hstarted, hm₂.started, ← hk]
    rfl
  · rw [henabled₁, henabled]

/-- The first tick resumes the user task. -/
lemma schedTick_first {saved : Saved} (h : SchedInv k saved) (hs : k.schedStarted = false)
    (huser : k.userTaskEnabled = true) (rsp : Word) :
    schedTick k rsp = .ok (saved .task1, resumed { k with schedStarted := true } .task1) := by
  obtain ⟨hact, hrsp, -⟩ := (h.parked_waiting hs).resume rfl (h.waiting hs .task1)
  unfold schedTick
  rw [if_pos (by simp [hs])]
  dsimp only
  rw [if_pos huser, hact, ok_bind, hrsp]

end Start

/-- Two programs of one and two pages, `/bin/a` and `/bin/b`. -/
def sampleRegistry : List EmbeddedUserProgram :=
  [⟨[0x61], some (sampleImage 1), 120#64⟩, ⟨[0x62], some (sampleImage 2), 120#64⟩]

/-- A kernel about to start a user task. -/
def userKernel (s : Phys) (h : Heap) (bootstrap : UserTaskBootstrap) : KernelState :=
  { smallKernel with
    store := { smallStore with phys := s, heap := h }
    userTaskEnabled := true
    userTaskBootstrap := bootstrap }

/-- A heap of one page, the one below all spare pages. -/
lemma freshHeap_exists : ∃ h L, HeapInv h [0x01F00000#64] L ∧ ∀ b ∈ L, b.free = true := by
  obtain ⟨M₁, d, M₂, h, -, hi, hd, -, -, hold⟩ :=
    (heapInv_nil emptyHeap.block).grow (p := 0x01F00000#64) (by constructor <;> decide) (by simp)
  refine ⟨h, _, hi, fun b hb => ?_⟩
  by_cases hbd : b = d
  · exact hbd ▸ hd
  · exact absurd (hold b (by simpa [hbd] using hb)) (by simp)

/-- The pages that starting the user task takes: its root, its image page, three
tables and its stack, and the kernel task's stack. -/
def bootPages : List Word :=
  [0x02200000#64, 0x02100000#64, 0x02201000#64, 0x02202000#64, 0x02203000#64, 0x02204000#64,
    0x02205000#64]

/-- The bootstrap of the sample machine's user task. -/
def sampleBootstrap : UserTaskBootstrap :=
  (samplePlan 1#64).bootstrap 0x00100000#64 0x02200000#64 0x02204000#64

/-- A machine whose user task runs `/bin/a`, with the pages `rest` free. -/
structure UserMachine (rest : List Word) (K : KernelTables) (own : Owner) (s₀ : Phys)
    (k₀ k₁ k : KernelState) : Prop where
  boot : pagingInitialize (pallocInitialize (coldMachine 0x4000#64)) = .ok s₀
  start : FdStart sampleRegistry k₀
  user : k₀.userTaskEnabled = true
  root : k₀.userTaskBootstrap.addressSpace ≠ pagingKernelAddressSpace k₀.phys
  init : schedInitialize k₀ 0x00100000#64 0x00100100#64 = .ok k₁
  sched : SchedInv k₁ fun t => (k₁.task t).rsp
  tick : schedTick k₁ 0x00200000#64 = .ok ((k₁.task .task1).rsp, k)
  current : k.current = some .task1
  started : k.schedStarted = true
  bootstrap : schedCurrentUserBootstrap k = some sampleBootstrap
  exec : ExecRun 0x00100000#64 s₀ k.phys [0x02200000#64]
  limit : 0 < K.limit
  inv : ExecRunInv K own k.phys rest [0x02200000#64]
  image : ∀ p, IsPage p → pageInRange p 0x02100000#64 0x02101000#64 = true →
    p ∉ rest ∧ own p = none ∧ ¬ K.IsTable p
  walk : vfsWalkPath k.store [0x2F, 0x62, 0x69, 0x6E, 0x2F, 0x61] = .static (.executable 0)
  node : (k.store.node (.static (.executable 0))).kind = .executable ∧
    (k.store.node (.static (.executable 0))).ops = some .executable ∧
    (k.store.node (.static (.executable 0))).data = .executable ⟨some (sampleImage 1), 120#64⟩

lemma vfsNodeInitialize_eq (k : Store) {node : NodeRef} {kind : VfsNodeKind} (ops : VfsNodeOps)
    (data : NodeData) (hn : node ≠ .null) (hk : kind ≠ .none) :
    vfsNodeInitialize k node kind (some ops) data =
      .ok (k.setNode node ⟨kind, 0, some ops, data⟩) := if_neg (by simp [hn, hk])

/-- The sample namespace. -/
lemma sampleNamespace (k : Store) : ∃ k', vfsNamespaceInitialize k sampleRegistry = .ok k' ∧
    vfsWalkPath k' [0x2F, 0x62, 0x69, 0x6E, 0x2F, 0x61] = .static (.executable 0) ∧
    (k'.node (.static (.executable 0))).kind = .executable ∧
    (k'.node (.static (.executable 0))).ops = some .executable ∧
    (k'.node (.static (.executable 0))).data = .executable ⟨some (sampleImage 1), 120#64⟩ ∧
    k'.heap = k.heap ∧ k'.phys = k.phys ∧
    k'.node (.static .banner) = ⟨.staticText, 0, some .staticText, .staticText namespaceBannerData⟩ := by
  have hnode (k₁ : Store) (v w : VfsNode) :
      ((k₁.setNode (.static (.executable 0)) v).setNode (.static (.executable 1)) w).node
        (.static (.executable 0)) = v := by
    rw [Store.setNode_ne _ (by simp), Store.setNode_same]
  unfold vfsNamespaceInitialize sampleRegistry
  simp only [vfsRegisterPrograms, vfsProgramImage]
  repeat rw [vfsNodeInitialize_eq _ _ _ (by simp) (by simp), ok_bind]
  rw [if_neg (by decide), if_pos (by simp), if_pos (by simp)]
  dsimp only
  repeat rw [vfsNodeInitialize_eq _ _ _ (by simp) (by simp), ok_bind]
  refine ⟨_, rfl, rfl, ?_⟩
  dsimp only
  rw [hnode]
  refine ⟨rfl, rfl, rfl, by simp only [Store.setNode_heap], by simp only [Store.setNode_phys], ?_⟩
  rw [Store.setNode_ne _ (by simp), Store.setNode_ne _ (by simp), Store.setNode_same]

/-- The first program takes the first pages. -/
lemma samplePrepared {rest : List Word} {K : KernelTables} {s : Phys}
    (h : ExecRunInv K (fun _ => none) s (bootPages ++ rest) []) (hlim : 0 < K.limit) :
    ∃ s' own, syscallPrepareExecBootstrap 0x00100000#64 s (sampleImage 1) 120#64 none =
        .ok (some sampleBootstrap, s') ∧
      Prepared K 0x00100000#64 0#64 0#64 (sampleImage 1) (samplePlan 1#64) s (fun _ => none)
        (bootPages ++ rest) 0x02200000#64 0x02204000#64 s' own (0x02205000#64 :: rest) := by
  have hctx : ExecContext K (fun _ => none) s (bootPages ++ rest) 0#64 0#64 :=
    h.run.execContext hlim (lendsOwnPages_none s)
  have hentry : (0x00100000#64 : Word).toNat < 2 ^ 52 := by decide
  have hclaim : (samplePlan 1#64).claimed 0#64 0#64 = [0x02100000#64] := by decide
  have hdiff : (bootPages ++ rest).tail.diff ((samplePlan 1#64).claimed 0#64 0#64) =
      [0x02201000#64, 0x02202000#64, 0x02203000#64, 0x02204000#64, 0x02205000#64] ++ rest := by
    rw [hclaim, List.diff_cons, List.diff_nil]
    rfl
  obtain ⟨a, stackPage, s', own, l', hrun, hp⟩ := prepare_succeeds none hctx hentry rfl
    execPlan_one (by simp [hclaim, bootPages]) (by
      rw [hdiff]
      simp)
  obtain ⟨l₀, hl₀, -, tabs, htabs, hlen, -⟩ := hp.head
  obtain ⟨rfl, rfl⟩ : 0x02200000#64 = a ∧ (bootPages ++ rest).tail = l₀ := by
    rw [hl₀]
    exact ⟨(List.cons.inj hl₀).1, rfl⟩
  have htabs := hdiff.symm.trans htabs
  obtain ⟨t₁, t₂, t₃, rfl⟩ := List.length_eq_three.mp hlen
  simp only [List.cons_append, List.nil_append, List.cons.injEq] at htabs
  obtain ⟨-, -, -, rfl, rfl⟩ := htabs
  exact ⟨s', own, hrun, hp⟩

/-- The machine before its scheduler is set up: the first program is prepared. -/
structure LoadedMachine (rest : List Word) (K : KernelTables) (own : Owner) (s₀ : Phys)
    (k₀ : KernelState) : Prop where
  boot : pagingInitialize (pallocInitialize (coldMachine 0x4000#64)) = .ok s₀
  start : FdStart sampleRegistry k₀
  roomy : RoomyHeap [] k₀.store.heap k₀.phys []
  user : k₀.userTaskEnabled = true
  bootstrap : k₀.userTaskBootstrap = sampleBootstrap
  exec : ExecRun 0x00100000#64 s₀ k₀.phys [0x02200000#64]
  limit : 0 < K.limit
  inv : ExecRunInv K own k₀.phys (0x02205000#64 :: rest) [0x02200000#64]
  stack : 0x02204000#64 ∉ 0x02205000#64 :: rest ∧ own 0x02204000#64 = none ∧ ¬ K.IsTable 0x02204000#64
  image : ∀ p, IsPage p → pageInRange p 0x02100000#64 0x02101000#64 = true →
    p ∉ 0x02205000#64 :: rest ∧ own p = none ∧ ¬ K.IsTable p
  leaf : leafEntry k₀.phys.mem 0x02200000#64 firstPath (ptIndex 0x40001000#64) =
    userEntry 0x02100000#64
  walk : vfsWalkPath k₀.store [0x2F, 0x62, 0x69, 0x6E, 0x2F, 0x61] = .static (.executable 0)
  node : (k₀.store.node (.static (.executable 0))).kind = .executable ∧
    (k₀.store.node (.static (.executable 0))).ops = some .executable ∧
    (k₀.store.node (.static (.executable 0))).data = .executable ⟨some (sampleImage 1), 120#64⟩

/-- Its heap has the page below all spare pages, its tables are spare pages. -/
lemma loadedMachine_exists {rest : List Word} (hps : ∀ p ∈ bootPages ++ rest, SparePage p)
    (hnd : (bootPages ++ rest).Nodup) : ∃ l K own s₀ k₀,
      FreeList (pallocInitialize (coldMachine 0x4000#64)) l ∧ LoadedMachine rest K own s₀ k₀ ∧
      (∃ L, HeapState k₀.store.heap k₀.phys [0x01F00000#64] [] L (0x02205000#64 :: rest)) ∧
      ∀ p x, own p = some x → SparePage p := by
  obtain ⟨l, s₀, s, K, hpre, hboot, hlim, hrun, hinv⟩ := coldMachine_keeps 0x00100000#64 hps hnd
  obtain ⟨s', own, hprep, hp⟩ := samplePrepared hinv hlim
  have hinv' := hinv.prepared hp
  have hrun' := hrun.prepared (lendsOwnPages_none s) hprep
  obtain ⟨h, L, hheap, hfreeL⟩ := freshHeap_exists
  obtain ⟨store, hns, hwalk, hkind, hops, hdata, hstoreHeap, hstorePhys, -⟩ :=
    sampleNamespace { smallStore with phys := s', heap := h }
  have hlive : live L = [] :=
    List.eq_nil_iff_forall_not_mem.mpr fun b hb => by
      obtain ⟨hbL, hused⟩ := mem_live.mp hb
      rw [hfreeL b hbL] at hused
      cases hused
  have hhanded : ((live L).map payloadAt).Perm [] := by simp [hlive]
  have hspare : ∀ p ∈ (0x02205000#64 :: rest : List Word), SparePage p := fun p hp =>
    hps p (by
      rw [List.mem_append]
      rcases List.mem_cons.mp hp with rfl | hp
      · exact .inl (by decide)
      · exact .inr hp)
  have hno : ∀ p ∈ [0x01F00000#64], p ∉ (0x02205000#64 :: rest : List Word) := by
    intro p hp hm
    obtain rfl := List.mem_singleton.mp hp
    exact absurd (hspare _ hm) (by decide)
  have hctx : ExecContext K (fun _ => none) s (bootPages ++ rest) 0#64 0#64 :=
    hinv.run.execContext hlim (lendsOwnPages_none s)
  obtain ⟨-, hstack⟩ := hp.own_stack hctx
  have hv := (elfCheck_valid execPlan_one).1
  refine ⟨l, K, own, s₀, (userKernel s' h sampleBootstrap).setStore store, hpre, ⟨hboot,
    ⟨⟨_, hns, fun _ => rfl, rfl, [0x01F00000#64], L, _, hheap, hinv'.run.inv.free, hno, hhanded⟩,
      fun _ => rfl⟩, ?_, rfl, rfl, ?_, hlim, ?_, hstack,
    fun p hpp hr => hp.own_pages hctx hv ((mem_windowPages_of_range hv hpp).mp hr), ?_, hwalk, hkind,
    hops, hdata⟩, ⟨L, ?_⟩, ?_⟩
  · change RoomyHeap [] store.heap _ []
    rw [hstoreHeap]
    exact ⟨[0x01F00000#64], L, hheap, by simp, hhanded, by simp [hlive], by simp [hlive], by simp⟩
  · change ExecRun _ s₀ store.phys _
    rw [hstorePhys]
    exact hrun'
  · change ExecRunInv K own store.phys _ _
    rw [hstorePhys]
    exact hinv'
  · change leafEntry store.phys.mem _ _ _ = _
    rw [hstorePhys]
    exact hp.here _ _ (by decide)
  · change HeapState store.heap store.phys _ _ _ _
    rw [hstoreHeap, hstorePhys]
    exact ⟨hheap, hinv'.run.inv.free, hno, hhanded⟩
  · rintro p ⟨b, ρ⟩ hρ
    by_cases hb : b = 0x02200000#64
    · subst hb
      exact hps p (hp.taken_free.2 p ρ hρ)
    · cases hp.other_own p b ρ hρ hb

/-- What the machine does until its user task runs. -/
structure MachineStarted (k₀ k₁ k : KernelState) (rest : List Word) : Prop where
  init : schedInitialize k₀ 0x00100000#64 0x00100100#64 = .ok k₁
  ready : SchedReady k₀ k₁ 0x02205000#64 rest
  sched : SchedInv k₁ fun t => (k₁.task t).rsp
  tick : schedTick k₁ 0x00200000#64 = .ok ((k₁.task .task1).rsp, k)
  resumed : k = resumed { k₁ with schedStarted := true } .task1
  other : OtherStep k₀.phys [0x02200000#64] k.phys
  free : FreeList k.phys rest

section Machine

variable {rest : List Word} {K : KernelTables} {own : Owner} {s₀ : Phys} {k₀ k₁ k : KernelState}

lemma LoadedMachine.root (h : LoadedMachine rest K own s₀ k₀) :
    k₀.userTaskBootstrap.addressSpace ≠ pagingKernelAddressSpace k₀.phys := by
  rw [h.bootstrap]
  intro he
  have hspace : own 0x02200000#64 = some (0x02200000#64, []) := h.inv.run.space _ (by simp)
  rw [show (0x02200000#64 : Word) = K.root from he.trans h.inv.run.inv.root,
    h.inv.run.inv.root_own] at hspace
  cases hspace

/-- The stacks of both tasks are written, and no table. -/
lemma LoadedMachine.other (h : LoadedMachine rest K own s₀ k₀) {s : Phys}
    (hmem : ChangesOnly {q | q = 0x02205000#64 ∨ q = 0x02204000#64} k₀.phys.mem s.mem)
    (hg : s.pagingKernelPml4 = k₀.phys.pagingKernelPml4) (hfree : FreeList s rest) :
    OtherStep k₀.phys [0x02200000#64] s := by
  have hinv := h.inv.run.inv
  obtain ⟨-, hstack, hstackK⟩ := h.stack
  refine ⟨hg, fun p hpt i => ?_, rest, hfree, fun p hpt hm => ?_⟩
  · have hpage : IsPage p := by
      rcases h.inv.run.inUse_owned hpt with ⟨x, hx⟩ | hk
      · exact hinv.own_page hx
      · exact K.isTable_page hk
    refine hmem.slot (by rintro q (rfl | rfl) <;> rfl) hpage.aligned ?_ i
    rintro (rfl | rfl) <;> rcases h.inv.run.inUse_owned hpt with ⟨x, hx⟩ | hk
    · rw [hinv.free_own _ (by simp)] at hx
      cases hx
    · exact hinv.free_kernel _ (by simp) hk
    · rw [hstack] at hx
      cases hx
    · exact hstackK hk
  · have hm' : p ∈ (0x02205000#64 :: rest : List Word) := List.mem_cons_of_mem _ hm
    rcases h.inv.run.inUse_owned hpt with ⟨x, hx⟩ | hk
    · rw [hinv.free_own p hm'] at hx
      cases hx
    · exact hinv.free_kernel p hm' hk

/-- The scheduler starts and resumes the user task. -/
lemma LoadedMachine.starts (h : LoadedMachine rest K own s₀ k₀) :
    ∃ k₁ k, MachineStarted k₀ k₁ k rest := by
  have hcomplete : bootstrapComplete sampleBootstrap = true := by decide
  have hrest : 0x02204000#64 ∉ rest := fun hm => h.stack.1 (List.mem_cons_of_mem _ hm)
  have hboot := h.bootstrap
  obtain ⟨k₁, hinit, hready⟩ := schedInitialize_starts h.start h.roomy h.inv.run.inv.free h.user
    (hboot.symm ▸ hcomplete) (by rw [hboot]; constructor <;> decide) (by rwa [hboot])
    0x00100000#64 0x00100100#64
  have hsched := schedInitialize_inv (fun _ => h.root) hinit
  have htick := schedTick_first hsched hready.started hready.enabled 0x00200000#64
  obtain ⟨k, hk⟩ : ∃ k, Platinum.resumed { k₁ with schedStarted := true } .task1 = k := ⟨_, rfl⟩
  rw [hk] at htick
  have hphys : k.phys = pagingActivate k₁.phys (k₁.task .task1).cr3 := by
    rw [← hk]
    rfl
  have hmem : ChangesOnly {q | q = 0x02205000#64 ∨ q = 0x02204000#64} k₀.phys.mem k.phys.mem := by
    have hm := hready.mem
    rw [hboot] at hm
    rw [hphys]
    exact hm
  have hfree : FreeList k.phys rest := by
    rw [hphys]
    exact ⟨hready.free.chain, hready.free.nodup, hready.free.pages⟩
  refine ⟨k₁, k, hinit, hready, hsched, htick, hk.symm, h.other hmem ?_ hfree, hfree⟩
  rw [hphys]
  exact hready.globals.kernelPml4

/-- A machine that was started runs its user task. -/
lemma LoadedMachine.running (h : LoadedMachine rest K own s₀ k₀) (hs : MachineStarted k₀ k₁ k rest) :
    UserMachine rest K own s₀ k₀ k₁ k := by
  obtain ⟨hinit, hready, hsched, htick, hk, hother, hfree⟩ := hs
  have hphys : k.phys = pagingActivate k₁.phys (k₁.task .task1).cr3 := by
    rw [hk]
    rfl
  obtain ⟨l', hrun⟩ := h.inv.run.other hother
  obtain rfl := hrun.inv.free.unique hfree
  have hkept : Kept k₀.store k.store [] [] := by
    rw [hk]
    exact hready.kept.trans (kept_phys _ _)
  refine ⟨h.boot, h.start, h.user, h.root, hinit, hsched, htick, ?_, ?_, ?_, h.exec.other hother ?_ ?_,
    h.limit, ⟨hrun, h.inv.positions⟩, fun p hpp hr => ?_, ?_, ?_⟩
  · rw [hk]
    rfl
  · rw [hk]
    rfl
  · have htask : k.task .task1 = { k₁.task .task1 with state := .running } := by
      rw [hk]
      exact resumed_task_same
    have hcur : k.current = some .task1 := by
      rw [hk]
      rfl
    unfold schedCurrentUserBootstrap
    rw [hcur]
    dsimp only
    rw [htask]
    dsimp only
    rw [hready.kind, hready.bootstrap, h.bootstrap]
    rfl
  · rw [hphys]
    exact hready.globals.regionBegin
  · rw [hphys]
    exact hready.globals.regionEnd
  · obtain ⟨hl, ho, hK⟩ := h.image p hpp hr
    exact ⟨fun hm => hl (List.mem_cons_of_mem _ hm), ho, hK⟩
  · rw [vfsWalkPath, hkept.ready, hkept.root]
    exact h.walk
  · have hstatic : NodeAlive [] (.static (.executable 0)) := trivial
    rw [hkept.kind _ hstatic, hkept.ops _ hstatic, hkept.data _ hstatic]
    exact h.node

end Machine

theorem userMachine_exists {rest : List Word} (hps : ∀ p ∈ bootPages ++ rest, SparePage p)
    (hnd : (bootPages ++ rest).Nodup) : ∃ l K own s₀ k₀ k₁ k,
      FreeList (pallocInitialize (coldMachine 0x4000#64)) l ∧ UserMachine rest K own s₀ k₀ k₁ k := by
  obtain ⟨l, K, own, s₀, k₀, hpre, h, -⟩ := loadedMachine_exists hps hnd
  obtain ⟨k₁, k, hs⟩ := h.starts
  exact ⟨l, K, own, s₀, k₀, k₁, k, hpre, h.running hs⟩

end Platinum
