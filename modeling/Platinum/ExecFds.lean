import Platinum.ExecFailure
import Platinum.TightHeap

/-!
# The caller's descriptors after a failed exec

`sched_exec_current` closes the caller's table before it knows whether there are
blocks for the new program's console.
-/
namespace Platinum
open ByteMemory BlockList

/-- The table of the task and the files it names. -/
def SameFds (k k' : KernelState) (t : TaskId) : Prop :=
  (k'.task t).fdTable = (k.task t).fdTable ∧
    ∀ f ∈ tableFiles (k.task t).fdTable, k'.store.file f = k.store.file f

/-- Exec gives up before the transfer, or in it if the build makes it fail, or there is
nothing to close. -/
def KeepsFds (b : Build) (k : KernelState) (t : TaskId) (caller : UserTaskBootstrap) (src : Word) : Prop :=
  ∀ path image imageSize s l plan spare, ExecPathAt k caller src path →
    Offers k.store path image imageSize s → FreeList s l → Loads caller image imageSize l plan spare →
      4 ≤ spare.length → b.userTestExecTransferFail = false →
        (k.task t).fdTable = fdTableInitialize

section Fds

variable {K : KernelTables} {own : Owner} {b : Build} {k k' : KernelState} {t : TaskId}
  {caller : UserTaskBootstrap} {l spaces spare others held files nodes : List Word} {image : Mem}
  {imageSize rsp next : Word} {reusable : Word × Word} {plan : ElfPlan} {s s' : Phys} {path : List Byte}
  {frame : SyscallFrame}

/-- Nothing is prepared only if the image or a page is missing. -/
lemma PrepareOutcome.not_loads {entry : Word}
    (hout : PrepareOutcome K entry caller.imagePhysicalBegin caller.imagePhysicalEnd image imageSize s own l
      (.ok (none, s')))
    (hloads : Loads caller image imageSize l plan spare) : spare.length = 3 := by
  obtain ⟨hplan, a, l₁, rfl, hav, rfl⟩ := hloads
  cases hout with
  | early why =>
    rcases why with hnil | hno | ⟨plan', hplan', q, hq, hno⟩
    · cases hnil
    · rw [hno] at hplan
      cases hplan
    · obtain rfl := Option.some.inj (hplan.symm.trans hplan')
      exact absurd (hav q hq) hno
  | noStack hplan' _ length =>
    obtain rfl := Option.some.inj (hplan.symm.trans hplan')
    exact length

/-- An image that was loaded and given up in the transfer lost the descriptors. -/
lemma ExecEnd.closed
    (hend : ExecEnd K own b k t caller l others held image imageSize reusable (.ok (0#64, k')))
    (hloads : Loads caller image imageSize l plan spare) (hlen : 4 ≤ spare.length)
    (hhook : b.userTestExecTransferFail = false) : (k'.task t).fdTable = fdTableInitialize := by
  generalize hr : (.ok (0#64, k') : Run (Word × KernelState)) = r at hend
  cases hend with
  | failed hprep =>
    have := hprep.not_loads hloads
    omega
  | halted => cases hr
  | refused _ _ hhook' =>
    rw [hhook] at hhook'
    cases hhook'
  | unseeded hplan hp hhook hseed hfds =>
    cases hr
    exact congrArg Task.fdTable (KernelState.setTask_same _ _ _)
  | transferred hplan hp hhook hseed hfds hready =>
    exact absurd (Prod.mk.inj (Except.ok.inj hr)).1.symm hready.frame

/-- Otherwise they are untouched. -/
lemma ExecEnd.kept
    (hend : ExecEnd K own b k t caller l others held image imageSize reusable (.ok (0#64, k'))) :
    ((k'.task t).fdTable = (k.task t).fdTable ∧ k'.store.file = k.store.file) ∨
      b.userTestExecTransferFail = false ∧ (k'.task t).fdTable = fdTableInitialize ∧
        ∃ plan spare, Loads caller image imageSize l plan spare ∧ 4 ≤ spare.length := by
  generalize hr : (.ok (0#64, k') : Run (Word × KernelState)) = r at hend
  cases hend with
  | failed hprep =>
    cases hr
    exact .inl ⟨rfl, rfl⟩
  | halted => cases hr
  | refused =>
    cases hr
    exact .inl ⟨rfl, rfl⟩
  | unseeded hplan hp hhook hseed hfds =>
    cases hr
    obtain ⟨spare, hloads, hspare⟩ := hp.loads hplan
    have hlt := (List.getElem?_eq_some_iff.mp hspare).1
    exact .inr ⟨hhook, congrArg Task.fdTable (KernelState.setTask_same _ _ _), _, spare, hloads, hlt⟩
  | transferred hplan hp hhook hseed hfds hready =>
    exact absurd (Prod.mk.inj (Except.ok.inj hr)).1.symm hready.frame

end Fds

/-- A failed exec leaves the caller's descriptors alone if and only if it did not get
to close them. -/
theorem failedExec_keeps_fds_iff {K : KernelTables} {own : Owner} {b : Build} {k k' : KernelState}
    {t : TaskId} {caller : UserTaskBootstrap} {l spaces others held files nodes : List Word}
    {frame : SyscallFrame} (h : ExecCaller K own k t caller l spaces others held files nodes)
    (hentry : b.archUserProgramEntry.toNat < 2 ^ 52) (hrax : frame.rax = sysExec) {rsp : Word}
    {reusable : Word × Word}
    (hrun : (kernelSyscallEntry b k rsp frame reusable).result =
      .ok (rsp, syscallReturn frame sysResultError, k')) :
    SameFds k k' t ↔ KeepsFds b k t caller frame.rdi := by
  rcases h.syscall_failed hentry hrax hrun with
    ⟨hno, rfl⟩ | ⟨path, found, store, files', n, hpath, hcaller, -, hsame, hoffers, hcase⟩
  · exact iff_of_true ⟨rfl, fun _ _ => rfl⟩ fun path _ _ _ _ _ _ hp => absurd hp (hno path)
  have hfiles : ∀ f ∈ tableFiles (k.task t).fdTable, store.file f = k.store.file f := fun f hf =>
    hsame.file f ((h.fds.inv.counts.mem_files f).mpr (List.mem_append_left _ hf))
  rcases hcase with ⟨rfl, rfl⟩ | ⟨image, imageSize, rfl, hend⟩
  · refine iff_of_true ⟨rfl, hfiles⟩ fun path' image imageSize s l' plan spare hp hoff => ?_
    obtain rfl := (hpath path').mp hp
    have hno := ((hoffers _ _ _).mp hoff).1
    cases hno
  constructor
  · rintro ⟨htable, -⟩ path' image' imageSize' s l' plan spare hp hoff hl' hloads hlen hhook
    obtain rfl := (hpath path').mp hp
    obtain ⟨he, rfl⟩ := (hoffers _ _ _).mp hoff
    cases he
    obtain rfl := hl'.unique hcaller.pages.inv.run.inv.free
    rw [← htable]
    exact hend.closed hloads hlen hhook
  · intro hkeeps
    rcases hend.kept with ⟨htable, hfile⟩ | ⟨hhook, htable, plan, spare, hloads, hlen⟩
    · refine ⟨htable, fun f hf => ?_⟩
      rw [hfile]
      exact hfiles f hf
    · have hnone := hkeeps path image imageSize store.phys _ plan spare ((hpath path).mpr rfl)
        ((hoffers _ _ _).mpr ⟨rfl, rfl⟩) hcaller.pages.inv.run.inv.free hloads hlen hhook
      refine ⟨htable.trans hnone.symm, fun f hf => ?_⟩
      rw [hnone, tableFiles_initial] at hf
      cases hf

/-- The task has closed its console and opened `/etc/banner`. -/
def bannerTable : FdTable := Function.update fdTableInitialize 0 ⟨1, .placeholder, 0x01F00020#64⟩

/-- That file is the only one, and the heap has room for one more. -/
def tightStore (k : Store) (s : Phys) : Store :=
  { k.withFile 0x01F00020#64 (.static .banner) vfsAccessRead with heap := tightHeap, phys := s }

def tightKernel (k₀ k : KernelState) : KernelState :=
  { k with
    store := tightStore k₀.store k.phys
    task := fun t => { k.task t with
      fdTable := if t = .task1 then bannerTable else fdTableInitialize } }

section Tight

variable {rest l : List Word} {K : KernelTables} {own : Owner} {s₀ s : Phys} {k₀ k₁ k : KernelState}
  {store store' : Store}

lemma tightStore_file : (tightStore store s).file =
    (store.withFile 0x01F00020#64 (.static .banner) vfsAccessRead).file := rfl

lemma tightStore_node : (tightStore store s).node =
    (store.withFile 0x01F00020#64 (.static .banner) vfsAccessRead).node := rfl

lemma bannerTable_files : tableFiles bannerTable = [0x01F00020#64] := by decide

lemma LoadedMachine.banner (h : LoadedMachine rest K own s₀ k₀) :
    k₀.store.node (.static .banner) = ⟨.staticText, 0, some .staticText, .staticText namespaceBannerData⟩ := by
  obtain ⟨store, hinit, -⟩ := h.start.namespace_ready
  obtain ⟨store', hinit', -, -, -, -, -, -, hnode⟩ := sampleNamespace store
  rwa [Except.ok.inj (hinit.symm.trans hinit')]

lemma tightStore_banner (hnode : store.node (.static .banner) =
      ⟨.staticText, 0, some .staticText, .staticText namespaceBannerData⟩) :
    (tightStore store s).file 0x01F00020#64 = ⟨1, .static .banner, 0#64, vfsAccessRead⟩ ∧
      (tightStore store s).node (.static .banner) =
        ⟨.staticText, 1, some .staticText, .staticText namespaceBannerData⟩ := by
  constructor
  · rw [tightStore_file, withFile_same]
  · rw [tightStore_node, withFile_node_same, hnode]
    rfl

lemma tightStore_fds (hcounts : FdCounts store [] [] []) (hwalk : NamespaceOk store)
    (hnode : store.node (.static .banner) =
      ⟨.staticText, 0, some .staticText, .staticText namespaceBannerData⟩)
    (hl : FreeList s l) (hno : 0x01F00000#64 ∉ l) :
    CallerFds [0x01F000A0#64] [] (tightStore store s) bannerTable [0x01F00020#64] [] := by
  have hmade := hcounts.withFile (f := 0x01F00020#64) (r := .static .banner) (by simp) trivial
    (by simp [hnode]) (by simp) vfsAccessRead
  obtain ⟨hfile, hbanner⟩ := tightStore_banner (s := s) hnode
  refine ⟨⟨?_, tightHeap_with hl hno⟩, (tableOk_initial _).update ?_, by simp, hwalk.congr rfl rfl⟩
  · rw [bannerTable_files]
    exact hmade.congr rfl rfl
  · rw [if_neg (by decide)]
    refine ⟨by simp, ?_, ?_, ?_, ?_⟩ <;> dsimp only <;> rw [hfile]
    · rw [hbanner]
      simp
    · decide
    · rw [hbanner]
      exact ⟨_, rfl, fun _ => rfl, fun hw => absurd hw (by decide)⟩
    · rw [hbanner]
      simp

/-- The machine with that store is as ready for exec as before. -/
lemma LoadedMachine.tight (h : LoadedMachine rest K own s₀ k₀) (hs : MachineStarted k₀ k₁ k rest)
    (hno : 0x01F00000#64 ∉ rest) :
    ExecCaller K own (tightKernel k₀ (withPathState k)) .task1 sampleBootstrap rest [0x02200000#64]
        [0x01F000A0#64] [] [0x01F00020#64] [] ∧
      ExecPathAt (tightKernel k₀ (withPathState k)) sampleBootstrap 0x40001000#64 samplePath ∧
      Offers (tightKernel k₀ (withPathState k)).store samplePath (sampleImage 1) 120#64
        (tightKernel k₀ (withPathState k)).phys := by
  obtain ⟨held, files, nodes, hcaller, hpath⟩ := h.path hs
  have hfresh := h.start.fresh.inv
  have hcounts := hfresh.inv.counts
  rw [h.start.fresh.heldFiles_nil] at hcounts
  obtain ⟨hkind, -, hdata⟩ := h.node
  have hnode : (tightKernel k₀ (withPathState k)).store.node (.static (.executable 0)) =
      k₀.store.node (.static (.executable 0)) := by
    change (tightStore k₀.store _).node _ = _
    rw [tightStore_node, withFile_node_ne (by simp)]
  have hwalk : vfsWalkPath (tightKernel k₀ (withPathState k)).store samplePath =
      .static (.executable 0) := h.walk
  refine ⟨⟨hcaller.task, hcaller.started, hcaller.bootstrap, hcaller.pages,
    tightStore_fds hcounts hfresh.walk h.banner hcaller.pages.inv.run.inv.free hno⟩, hpath, ?_, ?_, ?_⟩
  · rw [ExecutableAt, hwalk, hnode]
    exact ⟨by simp, hkind⟩
  · rw [hwalk, hnode, nodeImage, hdata]
    rfl
  · obtain ⟨h', hr⟩ := tightHeap_file (withPathState k).phys
    refine ⟨0x01F00060#64, { tightStore k₀.store (withPathState k).phys with heap := h' }, ?_, by decide,
      rfl⟩
    change Store.kzalloc (tightStore k₀.store (withPathState k).phys) _ = _
    unfold Store.kzalloc
    rw [show (tightStore k₀.store (withPathState k).phys).heap = tightHeap from rfl,
      show (tightStore k₀.store (withPathState k).phys).phys = (withPathState k).phys from rfl, hr, ok_bind]
    rfl

/-- Closing entries that are not used. -/
lemma fdTableCloseLoop_initial (is : List (Fin fdTableCapacity)) (store : Store) :
    fdTableCloseLoop is store fdTableInitialize = .ok (fdTableInitialize, store) := by
  induction is with
  | nil => rfl
  | cons i is ih =>
    unfold fdTableCloseLoop
    rw [if_neg (not_not.mpr (show (fdTableInitialize i).used = 0 from rfl)), ih]

/-- Closing the one descriptor frees its file. -/
lemma bannerTable_closed {others ptrs : List Word} {table : FdTable} {store₁ : Store}
    (hH : HeapWith others store.heap store.phys ptrs) (hf : 0x01F00020#64 ∈ ptrs)
    (hfile : store.file 0x01F00020#64 = ⟨1, .static .banner, 0#64, vfsAccessRead⟩)
    (hnode : store.node (.static .banner) =
      ⟨.staticText, 1, some .staticText, .staticText namespaceBannerData⟩)
    (hclosed : fdTableCloseAll store bannerTable = .ok (table, store₁)) :
    kfree store.heap 0x01F00020#64 = .ok store₁.heap := by
  have hused : (bannerTable 0).used ≠ 0 := by decide
  have hempty : Function.update bannerTable 0 .empty = fdTableInitialize := by
    rw [bannerTable, Function.update_idem]
    exact Function.update_eq_self 0 fdTableInitialize
  unfold fdTableCloseAll at hclosed
  rw [List.finRange_succ] at hclosed
  unfold fdTableCloseLoop fdTableClose at hclosed
  rw [if_pos hused, fdIndex_val hused] at hclosed
  dsimp only at hclosed
  obtain ⟨⟨r, table', store'⟩, hclose, hrest⟩ := bind_eq_ok.mp hclosed
  obtain ⟨⟨r', store''⟩, hvfs, hsame⟩ := bind_eq_ok.mp hclose
  obtain ⟨rfl, rfl, rfl⟩ : r' = r ∧ Function.update bannerTable 0 .empty = table' ∧ store'' = store' := by
    simpa using Except.ok.inj hsame
  dsimp only at hrest
  rw [hempty, fdTableCloseLoop_initial] at hrest
  obtain ⟨-, rfl⟩ := Prod.mk.inj (Except.ok.inj hrest)
  exact (heapWith_spec others).closeStatic hH hf (by rw [hfile]) (by rw [hfile]) (by rw [hnode]; decide)
    (by rw [hnode]; exact ⟨by simp, by simp, by simp⟩) (by rw [hnode]; simp) hvfs

/-- A store that was used for a lookup has no room for a console either. -/
lemma tightStore_unseeded {kt : KernelState} {bootstrap : UserTaskBootstrap} {path : List Byte}
    {image : Mem × Word} {n : NamespaceNode} {files' nodes' : List Word} {s' : Phys} {seeded : Bool}
    {fdTable : FdTable} {store₁ store₂ : Store} (hheap : kt.store.heap = tightHeap)
    (hfile : kt.store.file 0x01F00020#64 = ⟨1, .static .banner, 0#64, vfsAccessRead⟩)
    (hnode : kt.store.node (.static .banner) =
      ⟨.staticText, 1, some .staticText, .staticText namespaceBannerData⟩)
    (hinv : FdInv (HeapWith [0x01F000A0#64]) kt.store [0x01F00020#64] [0x01F00020#64] [])
    (hwalk : vfsWalkPath kt.store path = .static n) (hrefs : (kt.store.node (.static n)).refs = 0)
    (himage : syscallExecImage kt.store path = .ok (some image, store))
    (hsame : Unchanged kt.store store [0x01F00020#64] [])
    (hfds : CallerFds [0x01F000A0#64] [] (framedStore ((kt.setStore store).setPhys s') bootstrap) bannerTable
      files' nodes')
    (hfree : FreeList (framedStore ((kt.setStore store).setPhys s') bootstrap).phys [])
    (hr : Reseeded ((kt.setStore store).setPhys s') bootstrap bannerTable store₁ seeded fdTable store₂) :
    seeded = false := by
  obtain ⟨f, h₁, s, hmake, hfreed⟩ := (heapWith_spec _).lookup_heap hinv.heap trivial hwalk hrefs
    (hinv.counts.static n) himage
  rw [hheap] at hmake
  have hfile' : store.file 0x01F00020#64 = ⟨1, .static .banner, 0#64, vfsAccessRead⟩ :=
    (hsame.file _ (by simp)).trans hfile
  have hnode' : store.node (.static .banner) =
      ⟨.staticText, 1, some .staticText, .staticText namespaceBannerData⟩ :=
    (hsame.node (.static .banner) trivial).trans hnode
  have hmem : 0x01F00020#64 ∈ files' :=
    (hfds.inv.counts.mem_files _).mpr (by rw [bannerTable_files]; simp)
  have hclosed := bannerTable_closed hfds.inv.heap (List.mem_append_left _ hmem) hfile' hnode' hr.closed
  rw [framedStore_heap] at hclosed
  have hfree₁ : FreeList store₁.phys [] := by
    rw [hr.phys]
    exact hfree
  have hno := tightHeap_unserved hmake hfreed hclosed hfree₁
  cases seeded with
  | true => exact absurd (hr.served.mp rfl) hno
  | false => rfl

end Tight

lemma secondPages_loads : Loads sampleBootstrap (sampleImage 1) 120#64 secondPages (samplePlan 1#64)
    [0x02207000#64, 0x02208000#64, 0x02209000#64, 0x0220A000#64] :=
  ⟨execPlan_one, _, _, rfl, by simp [sample_reuses], by rw [sample_reuses]; rfl⟩

/-- With five pages the new program is prepared, and nothing is left for the heap. -/
lemma sample_unseeded : ∃ K own k files nodes k',
    ExecCaller K own k .task1 sampleBootstrap secondPages [0x02200000#64] [0x01F000A0#64] [] files nodes ∧
    (kernelSyscallEntry ⟨0x00100000#64, false⟩ k 0x40200000#64 sampleExecFrame (0#64, 0#64)).result =
      .ok (0x40200000#64, syscallReturn sampleExecFrame sysResultError, k') ∧
    (∃ s, ExecPathAt k sampleBootstrap sampleExecFrame.rdi samplePath ∧
      Offers k.store samplePath (sampleImage 1) 120#64 s ∧ FreeList s secondPages) ∧
    (k.task .task1).fdTable = bannerTable ∧ (k'.task .task1).fdTable = fdTableInitialize := by
  have hps : ∀ p ∈ bootPages ++ secondPages, SparePage p := by simp [bootPages, secondPages, SparePage]
  obtain ⟨-, K, own, s₀, k₀, -, hm, -⟩ := loadedMachine_exists hps (by decide)
  obtain ⟨k₁, k, hs⟩ := hm.starts
  obtain ⟨h, hpath, hoff⟩ := hm.tight hs (by decide)
  have hentry : (0x00100000#64 : Word).toNat < 2 ^ 52 := by decide
  have htable : ((tightKernel k₀ (withPathState k)).task .task1).fdTable = bannerTable := by
    simp [tightKernel]
  have hheap : (tightKernel k₀ (withPathState k)).store.heap = tightHeap := rfl
  obtain ⟨hfile, hnode⟩ := tightStore_banner (s := (withPathState k).phys) hm.banner
  have hwalk : vfsWalkPath (tightKernel k₀ (withPathState k)).store samplePath =
      .static (.executable 0) := hm.walk
  have hinv := h.fds.inv
  rw [htable, bannerTable_files] at hinv
  have hrefs : ((tightKernel k₀ (withPathState k)).store.node (.static (.executable 0))).refs = 0 := by
    have hcount := hinv.counts.node_refs (.static (.executable 0)) trivial
    rw [filesOn_cons, show (tightKernel k₀ (withPathState k)).store.file 0x01F00020#64 = _ from hfile] at hcount
    exact BitVec.eq_of_toNat_eq hcount
  change (tightKernel k₀ (withPathState k)).store.file _ = _ at hfile
  change (tightKernel k₀ (withPathState k)).store.node _ = _ at hnode
  generalize tightKernel k₀ (withPathState k) = kt at *
  have hfree := h.pages.inv.run.inv.free
  rcases h.syscall ⟨0x00100000#64, false⟩ (show sampleExecFrame.rax = sysExec from rfl) 0x40200000#64
    (0#64, 0#64) with
    ⟨hno, -⟩ | ⟨path, hiff, hanswer⟩
  · exact absurd hpath (hno samplePath)
  obtain rfl := (hiff samplePath).mp hpath
  obtain ⟨found, store, files', n, himage, hcaller, hg, hsame, hoffers, -, hsome⟩ :=
    h.execPath (b := ⟨0x00100000#64, false⟩) hentry samplePath (0#64, 0#64)
  obtain ⟨rfl, hphys⟩ := (hoffers _ _ _).mp hoff
  have hend := hsome (sampleImage 1) 120#64 rfl
  have hdrop : secondPages.drop n = secondPages := by
    have hfree' : FreeList store.phys (secondPages.drop n) := hcaller.pages.inv.run.inv.free
    rw [← hphys] at hfree'
    exact hfree'.unique hfree
  rw [hdrop] at hend hcaller
  refine ⟨K, own, kt, [0x01F00020#64], [], ?_⟩
  rw [hanswer]
  generalize syscallExecPath ⟨0x00100000#64, false⟩ kt samplePath (0#64, 0#64) = x at hend
  cases hend with
  | failed hprep =>
    have hthree := hprep.not_loads secondPages_loads
    cases hthree
  | halted hne hprep =>
    cases hprep with
    | noTables hplan hav hshort =>
      obtain rfl := Option.some.inj (execPlan_one.symm.trans hplan)
      rw [sample_reuses] at hshort
      simp [secondPages] at hshort
  | refused hplan hp hhook => cases hhook
  | unseeded hplan hp hhook hseed hfds =>
    exact ⟨_, h, rfl, ⟨_, hpath, hoff, hfree⟩, htable, congrArg Task.fdTable (KernelState.setTask_same _ _ _)⟩
  | @transferred plan a stackPage s' own' l' files₂ nodes₂ store₁ store₂ fdTable hplan hp hhook hseed hfds
      hready =>
    obtain rfl := Option.some.inj (execPlan_one.symm.trans hplan)
    obtain ⟨hfreed, hfds₁⟩ := hcaller.framed hp (show ((samplePlan 1#64).bootstrap 0x00100000#64 a
      stackPage).userStackPage = stackPage from rfl)
    obtain ⟨l₀, hl₀, -, tabs, hdiff, hlen, -⟩ := hp.head
    rw [sample_reuses, List.diff_nil] at hdiff
    have hnone := congrArg List.length hl₀
    rw [hdiff] at hnone
    simp only [secondPages, List.length_cons, List.length_append, List.length_nil, hlen] at hnone
    obtain rfl : l' = [] := List.eq_nil_of_length_eq_zero (by omega)
    have htable' : ((kt.setStore store).task .task1).fdTable = bannerTable := htable
    rw [htable'] at hseed hfds₁
    have hno := tightStore_unseeded hheap hfile hnode hinv hwalk hrefs himage hsame hfds₁ hfreed hseed
    cases hno

/-- The sample program's descriptors are not kept. -/
theorem failedExec_keeps_fds_iff_sample : ∃ k k' : KernelState,
    (kernelSyscallEntry ⟨0x00100000#64, false⟩ k 0x40200000#64 sampleExecFrame (0#64, 0#64)).result =
      .ok (0x40200000#64, syscallReturn sampleExecFrame sysResultError, k') ∧ ¬ SameFds k k' .task1 := by
  obtain ⟨K, own, k, files, nodes, k', h, hrun, ⟨s, hpath, hoff, hl⟩, htable, -⟩ := sample_unseeded
  have hentry : (0x00100000#64 : Word).toNat < 2 ^ 52 := by decide
  refine ⟨k, k', hrun, (failedExec_keeps_fds_iff h (b := ⟨0x00100000#64, false⟩) hentry rfl hrun).not.mpr
    fun hkeeps => ?_⟩
  have hnone := hkeeps _ _ _ _ _ _ _ hpath hoff hl secondPages_loads (by decide) rfl
  rw [htable] at hnone
  exact absurd (congrFun hnone 0) (by decide)

/-- Exec answers with an error, and the caller's descriptor 0 is gone. -/
theorem failedExec_closes_fds : ∃ K own k files nodes k',
    ExecCaller K own k .task1 sampleBootstrap secondPages [0x02200000#64] [0x01F000A0#64] [] files nodes ∧
    (kernelSyscallEntry ⟨0x00100000#64, false⟩ k 0x40200000#64 sampleExecFrame (0#64, 0#64)).result =
      .ok (0x40200000#64, syscallReturn sampleExecFrame sysResultError, k') ∧
    ((k.task .task1).fdTable 0).used = 1 ∧ ((k'.task .task1).fdTable 0).used = 0 := by
  obtain ⟨K, own, k, files, nodes, k', h, hrun, -, htable, htable'⟩ := sample_unseeded
  refine ⟨K, own, k, files, nodes, k', h, hrun, ?_, ?_⟩
  · rw [htable]
    decide
  · rw [htable']
    rfl

end Platinum
