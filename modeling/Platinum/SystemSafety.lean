import Platinum.KernelMain

/-!
# Whole runs of the system

What holds from the first interrupt on, whatever the tasks do and whenever the timer comes:
both tasks find their contexts as they left them, every interrupt and every call comes to an
end, and every page and every object of the heap is accounted for.
-/
namespace Platinum
open ByteMemory BlockList SharedTrie Processor

section Spaces

variable {K : KernelTables} {own : Owner} {s : Phys} {l files nodes spaces : List Word} {reserved : ReservedHeap}
  {a v p entry rsp0Page idlePage : Word} {pool lost held : Set Word} {c c' : Machine KernelState}
  {caller : UserTaskBootstrap} {t : Translation} {h : Heap} {pages pages' ptrs : List Word} {L L' : List Block}
  {path : List Byte} {image : Mem} {imageSize : Word}

/-- The idle task runs in the kernel's address space. -/
lemma UserSystem.loaded (h : UserSystem K entry reserved rsp0Page idlePage pool own c caller l files nodes) :
    c.state.phys.cr3 = K.root ∨ c.state.current = some .task1 ∧ c.state.phys.cr3 = caller.addressSpace := by
  obtain ⟨t, ht, -, -, hcr3⟩ := h.turn
  cases t with
  | task0 => exact .inl (hcr3.trans (((h.ready .task0).kernel h.idle).trans h.life.pages.inv.run.inv.root))
  | task1 => exact .inr ⟨ht, (h.runs ht (.refl _ _)).loaded⟩

lemma IdleSystem.loaded (h : IdleSystem K reserved rsp0Page idlePage pool lost c) : c.state.phys.cr3 = K.root := by
  obtain ⟨l, htables, -⟩ := h.gone.tables
  exact h.gone.loaded.trans ((h.ready.kernel h.kind).trans htables.root)

/-- The blocks determine the pages. -/
lemma HeapInv.mem_pages (hi : HeapInv h pages L) (hi' : HeapInv h pages' L') (hp : p ∈ pages) : p ∈ pages' := by
  obtain rfl := hi.list.unique hi'.list
  have hpage := (hi.page p hp).aligned
  have hon : OnPage p p.toNat := ⟨le_rfl, by omega⟩
  obtain ⟨q, hq, honq⟩ := (hi'.tiles p.toNat).mp ((hi.tiles p.toNat).mpr ⟨p, hp, hon⟩)
  rwa [onPage_unique hpage (hi'.page q hq).aligned hon honq]

lemma UserHeap.apart (hb : UserHeap held reserved h s ptrs) (hp : p ∈ reserved.pages) : p ∉ held := by
  obtain ⟨⟨L, hr⟩, pages, L', l, hs, hno⟩ := hb
  exact hno p (.inl (hr.inv.mem_pages hs.inv hp))

/-- On the heap lie the objects that the user task's descriptors refer to, and `reserved`. -/
lemma SystemInv.objects (h : SystemInv K entry reserved rsp0Page idlePage pool lost c) :
    ∃ L files nodes, HeapInv c.state.store.heap reserved.pages L ∧
      ((live L).map payloadAt).Perm (objectPtrs c.state.store files nodes ++ reserved.blocks) ∧
      FdCounts c.state.store (tableFiles (c.state.task .task1).fdTable) files nodes ∧
      AllBusy c.state.store files nodes ∧ reserved.blocks.length ≤ 7 ∧
      ((c.state.task .task1).state = .done → files = [] ∧ nodes = []) := by
  rcases h with ⟨own, caller, l, files, nodes, h⟩ | h
  · obtain ⟨L, hr⟩ := h.life.objects.heap.1
    exact ⟨L, files, nodes, hr.inv, hr.handed, h.life.objects.counts, h.life.busy, hr.few,
      fun hdone => absurd hdone h.alive⟩
  · obtain ⟨L, hr⟩ := h.gone.objects.heap.1
    refine ⟨L, [], [], hr.inv, hr.handed, ?_, by simp [AllBusy], hr.few, fun _ => ⟨rfl, rfl⟩⟩
    rw [h.gone.table]
    exact h.gone.objects.counts

lemma SystemInv.walk (h : SystemInv K entry reserved rsp0Page idlePage pool lost c) : NamespaceOk c.state.store := by
  rcases h with ⟨own, caller, l, files, nodes, h⟩ | h
  · exact h.life.walk
  · exact h.gone.walk

/-- The namespace has the programs that it had. -/
lemma SystemKeeps.offers (h : SystemKeeps entry c c') (hwalk : NamespaceOk c.state.store) :
    OffersImage c'.state.store path image imageSize ↔ OffersImage c.state.store path image imageSize := by
  have hpath : vfsWalkPath c'.state.store path = vfsWalkPath c.state.store path := by
    unfold vfsWalkPath
    rw [h.files.root, h.files.ready]
  by_cases hnull : vfsWalkPath c.state.store path = .null
  · exact ⟨fun ho => absurd (hpath.trans hnull) ho.1.1, fun ho => absurd hnull ho.1.1⟩
  · obtain ⟨n, hn⟩ := (hwalk path).resolve_left hnull
    have hstatic := h.files.static n
    have himage : nodeImage (c'.state.store.node (.static n)) = nodeImage (c.state.store.node (.static n)) := by
      unfold nodeImage
      rw [hstatic.data]
    constructor
    · rintro ⟨⟨-, hkind⟩, ho⟩
      rw [hpath, hn] at hkind ho
      exact ⟨⟨hnull, by rw [hn, ← hstatic.kind]; exact hkind⟩, by rw [hn, ← himage]; exact ho⟩
    · rintro ⟨⟨-, hkind⟩, ho⟩
      rw [hn] at hkind ho
      exact ⟨⟨hpath ▸ hnull, by rw [hpath, hn, hstatic.kind]; exact hkind⟩, by rw [hpath, hn, himage]; exact ho⟩

end Spaces

section Start

variable {b : Build} {f : FirstUserBuild} {k : KernelState} {l heapPages : List Word} {rsp0Page v : Word}
  {leftover : Set (Word × Word)} {c c₁ c₂ : Machine KernelState} {actors actors₂ : List (Option TaskId)} {t : TaskId}

/-- No stack of the kernel is on the trampoline's page. -/
lemma SystemStart.code_apart (h : SystemStart b f k l heapPages rsp0Page c) :
    pageAddress b.archUserProgramEntry ∉ [rsp0Page, idleStackPage c.state] := by
  obtain ⟨taskIdle, K, own, plan, a, stackPage, l', blocks, files, nodes, -, -, hsystem, -⟩ := h.entered
  exact hsystem.life.code

/-- The invariant of all runs. Its tables, objects and pages are the same throughout. -/
lemma SystemStart.reached (h : SystemStart b f k l heapPages rsp0Page c) : ∃ K blocks pool,
    K.limit = (highestPhysicalEnd k.phys.memmap).toNat ∧
    (∀ p, p ∈ l ↔ (p = rsp0Page ∨ p = idleStackPage c.state ∨ K.IsTable p) ∨ p ∈ pool) ∧
    ∀ leftover actors c', SystemRun b leftover rsp0Page (idleStackPage c.state) actors c c' →
      SystemInv K b.archUserProgramEntry ⟨blocks, heapPages⟩ rsp0Page (idleStackPage c.state) pool
        (sparedPages leftover) c' ∧
      SystemKeeps b.archUserProgramEntry c c' := by
  obtain ⟨taskIdle, K, own, plan, a, stackPage, l', blocks, files, nodes, -, hlimit, hsystem, -, -, -, hpages, -⟩ :=
    h.entered
  exact ⟨K, blocks, _, hlimit, hpages, fun leftover actors c' run =>
    SystemInv.reached (.inl ⟨_, _, _, _, _, hsystem⟩) h.tested.entry_lt h.hook h.tested.page h.code_apart run⟩

/-- The first program enters with the number of that call in `rax`. -/
lemma SystemStart.first (h : SystemStart b f k l heapPages rsp0Page c) : c.state.current = some .task1 ∧
    c.ctx.reg .rax = sysPutc := by
  obtain ⟨taskIdle, K, own, plan, a, stackPage, l', blocks, files, nodes, -, -, -, hcurrent, hctx, -⟩ := h.entered
  rw [hctx]
  exact ⟨hcurrent, rfl⟩

/-- `kernel_main` returns, and the first interrupt after it enters the program that the build
embeds: in ring 3, at its trampoline, with its image and its stack in place. The idle task waits at its
start. -/
theorem kernelMain_entersUser {entry : Word} {plan : ElfPlan} (h : SelfTested entry heapPages k l)
    (henabled : f.userInitEnabled = true) (helf : f.userInitUseElf = true) (hbad : f.userTestBadBootstrap = false)
    (hplan : execPlan f.userImage f.userImageSize = some plan)
    (hentry : DirectAddress (highestPhysicalEnd k.phys.memmap).toNat entry)
    (hdirect : ∀ p ∈ l, DirectAddress (highestPhysicalEnd k.phys.memmap).toNat p)
    (hav : ∀ p ∈ plan.windowPages, p ∈ l.drop 2056) (hlen : plan.windowPages.length + 2061 ≤ l.length)
    (taskIdle taskWorker : Word) :
    ∃ rsp0Page k', kernelMain entry f taskIdle taskWorker k = .ok (rsp0Page, k') ∧
      ∀ (ctx : Context) (P : Set Word), FramePages (rsp0Page + 4096#64) ctx P → (∀ p ∈ P, IsPage p ∧ p ∉ l) →
        ∀ (workerCounter : Word) (left : Reg → Word) (selector offset : Word), ∃ c a stackPage,
          run (archIrq0Entry workerCounter left) (deliver (rsp0Page + 4096#64) selector offset ⟨k', ctx⟩) = .ok c ∧
          c.state.current = some .task1 ∧ c.state.phys.cr3 = a ∧
          c.ctx = userContext (plan.bootstrap entry a stackPage) ∧
          ProgramMapped c.state.phys.mem a entry stackPage f.userImage plan ∧
          contextOf c .task0 = kernelContext (idleStackPage c.state) taskIdle := by
  obtain ⟨rsp0Page, k', hmain⟩ := h.returns henabled helf hbad hplan hentry hdirect hav hlen taskIdle taskWorker
  refine ⟨rsp0Page, k', hmain, fun ctx P hframe hP workerCounter left selector offset => ?_⟩
  obtain ⟨c, hrun, K, own, plan', a, stackPage, l', blocks, files, nodes, hplan', -, hsystem, hcurrent, hctx, hidle, -,
    hmapped⟩ := h.interrupted henabled helf ⟨k', ctx⟩ hmain hframe hP workerCounter left selector offset
  obtain rfl := Option.some.inj (hplan'.symm.trans hplan)
  exact ⟨c, a, stackPage, hrun, hcurrent, (hsystem.runs hcurrent (.refl _ _)).loaded, hctx, hmapped, hidle⟩

theorem kernelMain_entersUser_sample : ∃ k l rsp0Page k' c a stackPage,
    SelfTested 0x00100000#64 [0x01F00000#64] k l ∧
    kernelMain 0x00100000#64 sampleFirst 0#64 0#64 k = .ok (rsp0Page, k') ∧
    run (archIrq0Entry 0#64 fun _ => 0#64) (deliver (rsp0Page + 4096#64) 0x0008#64 0#64 ⟨k', sampleContext⟩) = .ok c ∧
    c.ctx = userContext ((samplePlan 1#64).bootstrap 0x00100000#64 a stackPage) := by
  obtain ⟨k, l, h, hlimit, hl, hav, hlen⟩ := selfTested_resources
  have hdirect := sampleKernel_direct hl
  obtain ⟨rsp0Page, k', hmain, henters⟩ := kernelMain_entersUser h (f := sampleFirst) rfl rfl rfl execPlan_one
    (hlimit ▸ hdirect _ (.inr (.inr rfl))) (fun p hp => hlimit ▸ hdirect p (.inl hp)) hav hlen 0#64 0#64
  obtain ⟨c, a, stackPage, hrun, -, -, hctx, -⟩ := henters sampleContext _ (sampleContext_frame _)
    (sampleContext_apart hl) 0#64 (fun _ => 0#64) 0x0008#64 0#64
  exact ⟨k, l, rsp0Page, k', c, a, stackPage, h, hmain, hrun, hctx⟩

end Start

end Platinum
