import Platinum.Globals
import Platinum.ExecImage

/-!
# Releasing a user task

`sched_release_user_bootstrap` fills in a loaded image but leaves its reusable
range unset, so pages of the image that fall into whatever range the stack
happens to hold are skipped and never freed.
-/
namespace Platinum
open ByteMemory SharedTrie

/-- The pages of `[image_physical_begin, image_physical_end)`. -/
def UserTaskBootstrap.imagePages (b : UserTaskBootstrap) : List Word :=
  pageSpan b.imagePhysicalBegin b.imagePhysicalEnd

/-- A table of the address space `a` that is not the kernel's. -/
def PrivateTable (s : Phys) (a p : Word) : Prop :=
  TableOf s.mem a p ∧ ¬ TableOf s.mem s.pagingKernelPml4 p

/-- Every private table of the space lies above the trampoline of its layout. -/
def LayoutTables (s : Phys) (a : Word) (layout : UserVirtualLayout) : Prop :=
  ∀ π p, π.length ≤ 3 → descend userScheme (slot s.mem) a π = some p →
    ¬ TableOf s.mem s.pagingKernelPml4 p → π <+: userPath layout.trampolineBase

/-- The stack page and the image pages are distinct pages, neither free nor page tables. -/
structure HoldsPages (s : Phys) (spaces l : List Word) (b : UserTaskBootstrap) : Prop where
  space : b.addressSpace ∈ spaces
  page : ∀ p ∈ b.userStackPage :: b.imagePages, IsPage p
  nodup : (b.userStackPage :: b.imagePages).Nodup
  used : ∀ p ∈ b.userStackPage :: b.imagePages, p ∉ l
  apart : ∀ p ∈ b.userStackPage :: b.imagePages, ¬ TableInUse s spaces p

/-- The free list of `s'` is that of `s` and, each once, the stack page, the image pages and
the private tables. -/
def GaveBack (s : Phys) (l : List Word) (b : UserTaskBootstrap) (s' : Phys) : Prop :=
  ∃ l' tables, FreeList s' l' ∧ tables.Nodup ∧ (∀ p, p ∈ tables ↔ PrivateTable s b.addressSpace p) ∧
    l'.Perm (b.userStackPage :: (b.imagePages ++ (tables ++ l)))

/-- No image page lies in the range that the stack happens to hold. -/
def ReleaseSafe (s : Phys) (b : UserTaskBootstrap) (reusable : Word × Word) : Prop :=
  (∀ p ∈ b.imagePages, pageInRange p reusable.1 reusable.2 = false) ∧
    LayoutTables s b.addressSpace b.layout

section Release

variable {K : KernelTables} {own : Owner} {s s' : Phys} {l ps spaces : List Word} {a p : Word}
  {b : UserTaskBootstrap} {reusable : Word × Word}

/-- The private tables are those the invariant gives to the space. -/
lemma RunInv.private_iff (h : RunInv K own s l spaces) (ha : a ∈ spaces) :
    PrivateTable s a p ↔ ∃ ρ, own p = some (a, ρ) := by
  constructor
  · rintro ⟨⟨π, hd, hp⟩, hno⟩
    rcases (user_levels h.inv (h.space a ha)).descend_at hd hp with ho | ⟨-, hn⟩
    · exact ⟨π, ho⟩
    · exact absurd (h.inv.kernel_tableOf.mpr ⟨π, hd, hn⟩) hno
  · rintro ⟨ρ, hρ⟩
    exact ⟨⟨ρ, h.inv.tables.depth hρ, h.inv.tables.descend_private hρ⟩,
      fun ht => h.inv.own_not_kernel hρ (h.inv.kernel_tableOf.mp ht)⟩

lemma RunInv.layoutTables_iff (h : RunInv K own s l spaces) (ha : a ∈ spaces)
    (layout : UserVirtualLayout) :
    LayoutTables s a layout ↔ ∀ p ρ, own p = some (a, ρ) → ρ <+: userPath layout.trampolineBase := by
  constructor
  · intro hlay p ρ hρ
    obtain ⟨-, hno⟩ := (h.private_iff ha).mpr ⟨ρ, hρ⟩
    exact hlay ρ p (h.inv.tables.depth hρ) (h.inv.tables.descend_private hρ) hno
  · intro hown π p hd hp hno
    rcases (user_levels h.inv (h.space a ha)).descend_at hd hp with ho | ⟨-, hn⟩
    · exact hown p π ho
    · exact absurd (h.inv.kernel_tableOf.mpr ⟨π, hd, hn⟩) hno

/-- Freeing pages that are no tables keeps the tables. -/
lemma RunInv.freeAll (h : RunInv K own s l spaces) (hpage : ∀ p ∈ ps, IsPage p) (hnd : ps.Nodup)
    (hl : ∀ p ∈ ps, p ∉ l) (hno : ∀ p ∈ ps, ¬ TableInUse s spaces p) :
    RunInv K own (Platinum.freeAll s ps) (ps.reverse ++ l) spaces := by
  have hfree := freeAll_list h.inv.free hpage hnd hl
  have hgone : ∀ p, TableInUse s spaces p → p ∉ ps.reverse ++ l := by
    intro p hp hm
    rcases List.mem_append.mp hm with hm | hm
    · exact hno p (List.mem_reverse.mp hm) hp
    · rcases h.inUse_owned hp with ⟨x, hx⟩ | hk
      · rw [h.inv.free_own p hm] at hx
        cases hx
      · exact h.inv.free_kernel p hm hk
  have htables : ∀ p, TableInUse s spaces p → ∀ i,
      slot (Platinum.freeAll s ps).mem p i = slot s.mem p i := by
    intro p hp i
    refine (freeAll_frame s ps).slot (fun q hq => (hpage q hq).aligned) ?_ (fun hm => hno p hm hp) i
    rcases h.inUse_owned hp with ⟨x, hx⟩ | ⟨π, hd, hn⟩
    · exact (h.inv.own_page hx).aligned
    · exact (K.node_page π p hd hn).aligned
  obtain ⟨l', h'⟩ := h.other ⟨(freeAll_globals s ps).kernelPml4, htables, _, hfree, hgone⟩
  rwa [h'.inv.free.unique hfree] at h'

/-- The pages that a release may free are distinct. -/
lemma HoldsPages.freed_nodup (hb : HoldsPages s spaces l b) (reusable : Word × Word) :
    (b.userStackPage :: unowned reusable.1 reusable.2 b.imagePages).Nodup ∧
      ∀ p ∈ b.userStackPage :: unowned reusable.1 reusable.2 b.imagePages,
        p ∈ b.userStackPage :: b.imagePages := by
  obtain ⟨hstack, himage⟩ := List.nodup_cons.mp hb.nodup
  refine ⟨List.nodup_cons.mpr ⟨fun hp => hstack (mem_unowned.mp hp).1, himage.filter _⟩, fun p hp => ?_⟩
  rcases List.mem_cons.mp hp with rfl | hp
  · simp
  · exact List.mem_cons_of_mem _ (mem_unowned.mp hp).1

/-- The image goes first, then the address space. -/
lemma schedReleaseUserBootstrap_eq (s : Phys) (ha : b.addressSpace ≠ 0#64) (hstack : b.userStackPage ≠ 0#64)
    (reusable : Word × Word) : schedReleaseUserBootstrap s b reusable =
      (pagingReleaseUserAddressSpace (Platinum.freeAll s (b.userStackPage ::
        unowned reusable.1 reusable.2 b.imagePages)) b.addressSpace b.layout, clearBootstrap) := by
  unfold schedReleaseUserBootstrap elfReleaseUserImage
  rw [if_neg ha]
  dsimp only
  rw [if_pos hstack, rollbackWindowPages_eq]
  rfl

/-- A release frees the stack, the image pages it does not skip, and the tables. -/
theorem schedReleaseUserBootstrap_freeAll (h : RunInv K own s l spaces) (hb : HoldsPages s spaces l b)
    (reusable : Word × Word) :
    ∃ tables, PathTables own b.addressSpace (userPath b.layout.trampolineBase) tables ∧
      schedReleaseUserBootstrap s b reusable = (Platinum.freeAll s (b.userStackPage ::
        unowned reusable.1 reusable.2 b.imagePages ++ tables), clearBootstrap) := by
  have hspace := h.space _ hb.space
  have ha0 : b.addressSpace ≠ 0#64 := (h.inv.own_page hspace).ne_zero
  obtain ⟨hnd, hsub⟩ := hb.freed_nodup reusable
  have hfreed := h.freeAll (fun p hp => hb.page p (hsub p hp)) hnd (fun p hp => hb.used p (hsub p hp))
    fun p hp => hb.apart p (hsub p hp)
  obtain ⟨tables, htables, hrun⟩ := pagingRelease_path hfreed.inv hspace b.layout
  refine ⟨tables, htables, ?_⟩
  rw [schedReleaseUserBootstrap_eq s ha0 (hb.page _ (by simp)).ne_zero, hrun, freeAll_append]

/-- The pages that the release gives back, whatever the stack held. -/
theorem schedReleaseUserBootstrap_list (h : RunInv K own s l spaces) (hb : HoldsPages s spaces l b)
    (reusable : Word × Word) :
    ∃ tables, PathTables own b.addressSpace (userPath b.layout.trampolineBase) tables ∧
      FreeList (schedReleaseUserBootstrap s b reusable).1
        (tables.reverse ++ ((b.userStackPage :: unowned reusable.1 reusable.2 b.imagePages).reverse ++ l)) ∧
      (schedReleaseUserBootstrap s b reusable).2 = clearBootstrap := by
  obtain ⟨tables, htables, hrun⟩ := schedReleaseUserBootstrap_freeAll h hb reusable
  obtain ⟨hnd, hsub⟩ := hb.freed_nodup reusable
  have hfreed := h.freeAll (fun p hp => hb.page p (hsub p hp)) hnd (fun p hp => hb.used p (hsub p hp))
    fun p hp => hb.apart p (hsub p hp)
  rw [hrun, freeAll_append]
  refine ⟨tables, htables, freeAll_list hfreed.inv.free (fun p hp => ?_) htables.nodup
    (fun p hp hl => ?_), rfl⟩
  · obtain ⟨ρ, -, hρ⟩ := (htables.mem_iff p).mp hp
    exact h.inv.own_page hρ
  · obtain ⟨ρ, -, hρ⟩ := (htables.mem_iff p).mp hp
    rw [hfreed.inv.free_own p hl] at hρ
    cases hρ

/-- A release gives back everything exactly when it skips no page and no table. -/
theorem HoldsPages.gaveBack_iff (hb : HoldsPages s spaces l b) (h : RunInv K own s l spaces)
    (reusable : Word × Word) :
    GaveBack s l b (schedReleaseUserBootstrap s b reusable).1 ↔ ReleaseSafe s b reusable := by
  obtain ⟨tables, htables, hfree, -⟩ := schedReleaseUserBootstrap_list h hb reusable
  have hprivate {p : Word} (hp : p ∈ b.userStackPage :: b.imagePages) (ρ : Path) :
      own p ≠ some (b.addressSpace, ρ) := fun hρ => hb.apart p hp (h.owned_inUse hρ)
  constructor
  · rintro ⟨l', tables', hl', -, hmem', hperm⟩
    obtain rfl := hl'.unique hfree
    refine ⟨fun p hp => ?_, (h.layoutTables_iff hb.space b.layout).mpr fun p ρ hρ => ?_⟩
    · -- an image page that came back is no table, not the stack and was not free
      have hm := hperm.mem_iff.mpr (by simp [hp] : p ∈ b.userStackPage :: (b.imagePages ++ (tables' ++ l)))
      have hpi := List.mem_cons_of_mem b.userStackPage hp
      rcases List.mem_append.mp hm with hm | hm
      · obtain ⟨ρ, -, hρ⟩ := (htables.mem_iff p).mp (List.mem_reverse.mp hm)
        exact absurd hρ (hprivate hpi ρ)
      rcases List.mem_append.mp hm with hm | hm
      · rcases List.mem_cons.mp (List.mem_reverse.mp hm) with rfl | hm
        · exact absurd hp (List.nodup_cons.mp hb.nodup).1
        · exact (mem_unowned.mp hm).2
      · exact absurd hm (hb.used p hpi)
    · have hpt := (hmem' p).mpr ((h.private_iff hb.space).mpr ⟨ρ, hρ⟩)
      have hm := hperm.mem_iff.mpr (by simp [hpt] : p ∈ b.userStackPage :: (b.imagePages ++ (tables' ++ l)))
      rcases List.mem_append.mp hm with hm | hm
      · obtain ⟨σ, hσ, hpσ⟩ := (htables.mem_iff p).mp (List.mem_reverse.mp hm)
        rw [hρ] at hpσ
        exact (Prod.mk.inj (Option.some.inj hpσ)).2 ▸ hσ
      rcases List.mem_append.mp hm with hm | hm
      · have hpi : p ∈ b.userStackPage :: b.imagePages := by
          rcases List.mem_cons.mp (List.mem_reverse.mp hm) with rfl | hm
          · simp
          · exact List.mem_cons_of_mem _ (mem_unowned.mp hm).1
        exact absurd hρ (hprivate hpi ρ)
      · rw [h.inv.free_own p hm] at hρ
        cases hρ
  · rintro ⟨himage, hlay⟩
    have hpath := (h.layoutTables_iff hb.space b.layout).mp hlay
    have hall : unowned reusable.1 reusable.2 b.imagePages = b.imagePages :=
      List.filter_eq_self.mpr fun p hp => by simp [himage p hp]
    rw [hall] at hfree
    refine ⟨_, tables, hfree, htables.nodup, fun p => ?_, ?_⟩
    · rw [h.private_iff hb.space, htables.mem_iff]
      exact exists_congr fun ρ => ⟨fun hρ => hρ.2, fun hρ => ⟨hpath p ρ hρ, hρ⟩⟩
    · refine List.perm_iff_count.mpr fun x => ?_
      simp only [List.count_append, List.count_cons, List.count_reverse]
      omega

/-- Loading CR3 moves no page. -/
lemma RunInv.loadCr3 (h : RunInv K own s l spaces) (c : Word) :
    RunInv K own { s with cr3 := c } l spaces :=
  ⟨⟨h.inv.free.congr rfl fun _ _ => rfl, h.inv.root, h.inv.kernel, h.inv.tables, h.inv.free_own,
    h.inv.free_kernel⟩, h.space, h.owner⟩

/-- Activating a task loads its page tables and leaves the bootstraps alone. -/
lemma schedActivate_ok {k k' : KernelState} {next : TaskId} (hrun : schedActivate k next = .ok k') :
    (∃ c, k'.phys = { k.phys with cr3 := c }) ∧
      ∀ t, (k'.task t).userBootstrap = (k.task t).userBootstrap := by
  unfold schedActivate at hrun
  dsimp only at hrun
  split_ifs at hrun
  obtain rfl := Except.ok.inj hrun
  refine ⟨⟨_, rfl⟩, fun t => ?_⟩
  by_cases ht : t = next
  · subst ht
    rw [KernelState.setTask_same]
    rfl
  · rw [KernelState.setTask_ne ht]
    rfl

/-- An exiting task releases its bootstrap on the next task's page tables. -/
lemma schedExitCurrent_release {k k' : KernelState} {rsp : Word} {t : TaskId}
    (ht : k.current = some t) (hrun : schedExitCurrent k reusable = .ok (rsp, k')) :
    (∃ c, k'.phys = (schedReleaseUserBootstrap { k.phys with cr3 := c }
      (k.task t).userBootstrap reusable).1) ∧ (k'.task t).userBootstrap = clearBootstrap := by
  unfold schedExitCurrent at hrun
  rw [ht] at hrun
  dsimp only at hrun
  split_ifs at hrun
  obtain ⟨⟨fdTable, store⟩, hclose, hrun⟩ := bind_eq_ok.mp hrun
  have hphys := fdTableCloseAll_phys hclose
  obtain ⟨next, hnext, hrun⟩ := bind_eq_ok.mp hrun
  obtain ⟨k₁, hactivate, hrun⟩ := bind_eq_ok.mp hrun
  obtain ⟨⟨c, hcr3⟩, hbootstrap⟩ := schedActivate_ok hactivate
  have hphys₁ : k₁.phys = { k.phys with cr3 := c } := by
    rw [hcr3]
    change { store.phys with cr3 := c } = _
    rw [hphys]
  obtain ⟨rfl, rfl⟩ := Prod.mk.inj (Except.ok.inj hrun)
  refine ⟨⟨c, ?_⟩, (hbootstrap t).trans ?_⟩
  · rw [KernelState.setPhys_phys, hphys₁]
  · rw [KernelState.setTask_same]

/-- The image of a prepared program is the window it was loaded into. -/
lemma ElfPlan.imagePages_bootstrap {plan : ElfPlan} {imageSize : Word}
    (hv : plan.Valid imageSize firstUserLayout) (entry a stackPage : Word) :
    (plan.bootstrap entry a stackPage).imagePages = plan.windowPages :=
  pageSpan_of_aligned (n := plan.pageCount) (by
    change plan.physicalEnd.toNat = elfUserLoadBase.toNat + _
    rw [hv.physicalEnd, ElfPlan.toNat_base])

/-- The pages of a prepared program are its own. -/
lemma Prepared.holdsPages {entry imageSize rb re stackPage : Word} {image : Mem} {plan : ElfPlan}
    {own' : Owner} {l' : List Word} (hctx : ExecContext K own s l rb re)
    (hplan : execPlan image imageSize = some plan)
    (hp : Prepared K entry rb re image plan s own l a stackPage s' own' l')
    (h : RunInv K own' s' l' (a :: spaces)) :
    HoldsPages s' (a :: spaces) l' (plan.bootstrap entry a stackPage) := by
  have hv := (elfCheck_valid hplan).1
  have himage := ElfPlan.imagePages_bootstrap hv entry a stackPage
  have hown : ∀ p ∈ stackPage :: plan.windowPages,
      IsPage p ∧ p ∉ l' ∧ own' p = none ∧ ¬ K.IsTable p := by
    intro p hpp
    rcases List.mem_cons.mp hpp with rfl | hpp
    · exact hp.own_stack hctx
    · exact ⟨hv.windowPages_page hpp, hp.own_pages hctx hv hpp⟩
  have hall : ∀ p ∈ stackPage :: (plan.bootstrap entry a stackPage).imagePages,
      IsPage p ∧ p ∉ l' ∧ own' p = none ∧ ¬ K.IsTable p := himage ▸ hown
  refine ⟨by simp [ElfPlan.bootstrap], fun p hp => (hall p hp).1, ?_, fun p hp => (hall p hp).2.1,
    fun p hp ht => ?_⟩
  · rw [himage]
    exact List.nodup_cons.mpr ⟨hp.stack_not_window hctx hv, hv.windowPages_nodup⟩
  · obtain ⟨-, -, ho, hk⟩ := hall p hp
    rcases h.inUse_owned ht with ⟨x, hx⟩ | hk'
    · rw [ho] at hx
      cases hx
    · exact hk hk'

end Release

/-- Any paging calls after boot, or any exec calls. -/
def SpacesReached (s₀ s : Phys) (spaces : List Word) : Prop :=
  PagingRun s₀ s spaces ∨ ∃ entry : Word, entry.toNat < 2 ^ 52 ∧ ExecRun entry s₀ s spaces

lemma SpacesReached.inv {pre s₀ s : Phys} {l₀ spaces : List Word} (hfree : FreeList pre l₀)
    (hboot : pagingInitialize pre = .ok s₀) (hrun : SpacesReached s₀ s spaces) :
    ∃ K own l, RunInv K own s l spaces := by
  rcases pagingInitialize_spec hfree with ⟨s₁, K, l₁, hs₁, hb⟩ | ⟨hs₁, -⟩
  swap
  · cases hs₁.symm.trans hboot
  obtain rfl := Except.ok.inj (hs₁.symm.trans hboot)
  rcases hrun with hrun | ⟨entry, hentry, hrun⟩
  · obtain ⟨own, l, h⟩ := hrun.inv hb.inv
    exact ⟨K, own, l, h⟩
  · obtain ⟨own, l, h, -⟩ := hrun.inv hb.inv hb.limit_pos hentry
    exact ⟨K, own, l, h.run⟩

/-- Releasing a bootstrap, by itself or when its task exits, clears it and gives back exactly its
pages if and only if the range left unset skips none and its layout reaches every table. -/
theorem schedReleaseUserBootstrap_iff {pre s₀ s : Phys} {l₀ spaces l : List Word}
    (hfree : FreeList pre l₀) (hboot : pagingInitialize pre = .ok s₀)
    (hrun : SpacesReached s₀ s spaces) (hl : FreeList s l) {b : UserTaskBootstrap}
    (hb : HoldsPages s spaces l b) (reusable : Word × Word) :
    (GaveBack s l b (schedReleaseUserBootstrap s b reusable).1 ∧
        (schedReleaseUserBootstrap s b reusable).2 = clearBootstrap ↔ ReleaseSafe s b reusable) ∧
      ∀ k k' rsp t, k.phys = s → k.current = some t → (k.task t).userBootstrap = b →
        schedExitCurrent k reusable = .ok (rsp, k') →
        (GaveBack s l b k'.phys ∧ (k'.task t).userBootstrap = clearBootstrap ↔
          ReleaseSafe s b reusable) := by
  obtain ⟨K, own, l', h⟩ := hrun.inv hfree hboot
  obtain rfl := hl.unique h.inv.free
  obtain ⟨-, -, -, hclear⟩ := schedReleaseUserBootstrap_list h hb reusable
  refine ⟨by rw [hb.gaveBack_iff h, and_iff_left hclear], ?_⟩
  rintro k k' rsp t rfl ht rfl hexit
  obtain ⟨⟨c, hphys⟩, hcleared⟩ := schedExitCurrent_release ht hexit
  have hb' : HoldsPages { k.phys with cr3 := c } spaces l (k.task t).userBootstrap :=
    ⟨hb.space, hb.page, hb.nodup, hb.used, hb.apart⟩
  have hiff : GaveBack k.phys l (k.task t).userBootstrap k'.phys ↔
      ReleaseSafe k.phys (k.task t).userBootstrap reusable := by
    rw [hphys]
    exact hb'.gaveBack_iff (h.loadCr3 c) reusable
  rw [hiff, and_iff_left hcleared]

/-- A prepared one-page program and its pages. -/
lemma samplePrepared_holds : ∃ s₀ s a stackPage l,
    pagingInitialize (pallocInitialize (coldMachine 0x4000#64)) = .ok s₀ ∧
      SpacesReached s₀ s [a] ∧ FreeList s l ∧
      HoldsPages s [a] l ((samplePlan 1#64).bootstrap 0x00100000#64 a stackPage) ∧
      LayoutTables s a firstUserLayout ∧
      (∃ l₀, FreeList (pallocInitialize (coldMachine 0x4000#64)) l₀) ∧
      ∃ K own, RunInv K own s l [a] := by
  obtain ⟨l, s₀, K, l₀, a, stackPage, s, own, l₁, hl, -, -, hs₀, hb, hrun, hprep⟩ :=
    coldMachine_prepares 0x4000#64 0x06000000#64 0x00100000#64
      (by decide) (by decide) (by decide) (by decide) (by decide) execPlan_one
  have hctx : ExecContext K (fun _ => none) s₀ l₀ 0#64 0#64 :=
    ⟨hb.inv, hb.limit_pos, by simp [pageInRange]⟩
  have hinv : ExecRunInv K own s l₁ [a] :=
    ExecRunInv.prepared ⟨⟨hb.inv, by simp, by simp⟩, by simp⟩ hprep
  exact ⟨s₀, s, a, stackPage, l₁, hs₀,
    .inr ⟨_, by decide, .prepared .boot (lendsOwnPages_none s₀) hrun⟩, hinv.run.inv.free,
    hprep.holdsPages hctx execPlan_one hinv.run,
    (hinv.run.layoutTables_iff (by simp) _).mpr fun p ρ hp => hinv.positions p a ρ hp,
    ⟨l, hl.list⟩, K, own, hinv.run⟩

/-- With an empty range on the stack a prepared program is released as a whole. -/
theorem schedReleaseUserBootstrap_iff_sample : ∃ s a stackPage l,
    GaveBack s l ((samplePlan 1#64).bootstrap 0x00100000#64 a stackPage)
      (schedReleaseUserBootstrap s ((samplePlan 1#64).bootstrap 0x00100000#64 a stackPage)
        (0#64, 0#64)).1 := by
  obtain ⟨s₀, s, a, stackPage, l, hs₀, hrun, hl, hb, hlay, ⟨l₀, hl₀⟩, -⟩ := samplePrepared_holds
  obtain ⟨hiff, -⟩ := schedReleaseUserBootstrap_iff hl₀ hs₀ hrun hl hb (0#64, 0#64)
  exact ⟨s, a, stackPage, l, (hiff.mpr ⟨by simp [pageInRange], hlay⟩).1⟩

/-- Where the stack happens to hold the image's own range, its page is lost. -/
theorem schedReleaseUserBootstrap_skips : ¬ ∀ (s₀ s : Phys) (spaces l : List Word)
    (b : UserTaskBootstrap) (reusable : Word × Word),
    pagingInitialize (pallocInitialize (coldMachine 0x4000#64)) = .ok s₀ →
      SpacesReached s₀ s spaces → FreeList s l → HoldsPages s spaces l b →
      LayoutTables s b.addressSpace b.layout →
      GaveBack s l b (schedReleaseUserBootstrap s b reusable).1 := by
  intro hclaim
  obtain ⟨s₀, s, a, stackPage, l, hs₀, hrun, hl, hb, hlay, -, K, own, h⟩ := samplePrepared_holds
  have hgave := hclaim s₀ s [a] l _ (0x02100000#64, 0x02101000#64) hs₀ hrun hl hb hlay
  obtain ⟨himage, -⟩ := (hb.gaveBack_iff h _).mp hgave
  have hmem : 0x02100000#64 ∈ ((samplePlan 1#64).bootstrap 0x00100000#64 a stackPage).imagePages := by
    change _ ∈ pageSpan elfUserLoadBase (samplePlan 1#64).physicalEnd
    decide
  exact absurd (himage _ hmem) (by decide)

end Platinum
