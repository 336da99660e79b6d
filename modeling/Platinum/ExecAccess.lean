import Platinum.ExecRun
import Platinum.PallocRun

/-!
# What a prepared address space maps

Its user pages are the image window, the stack page and the trampoline;
everywhere else it translates as the kernel does.
-/
namespace Platinum
open ByteMemory WordArith SharedTrie

/-- The sign-extended addresses the hardware accepts. -/
def Canonical (v : Word) : Prop := v.toNat < 2 ^ 47 ∨ 2 ^ 64 - 2 ^ 47 ≤ v.toNat

/-- The virtual pages that user mode can reach in a prepared address space. -/
def ElfPlan.userVirtualPages (plan : ElfPlan) : List Word :=
  (List.range plan.pageCount).map (fun i => firstUserLayout.imageBase + BitVec.ofNat 64 i * 4096#64) ++
    [stackVirtual, firstUserLayout.trampolineBase]

section Translation

variable {K : KernelTables} {own own' : Owner} {s s' : Phys} {l l' : List Word}
  {entry rb re imageSize a stackPage v p : Word} {image : Mem} {plan : ElfPlan}

lemma ElfPlan.mem_userVirtualPages (entry stackPage : Word) :
    v ∈ plan.userVirtualPages ↔ ∃ p, (v, p) ∈ plan.userPages entry stackPage := by
  simp only [userVirtualPages, userPages, windowPairs, List.mem_append, List.mem_map, List.mem_cons,
    List.not_mem_nil, or_false, Prod.mk.injEq]
  constructor
  · rintro (⟨i, hi, rfl⟩ | rfl | rfl)
    · exact ⟨_, .inl ⟨i, hi, rfl, rfl⟩⟩
    · exact ⟨_, .inr (.inl ⟨rfl, rfl⟩)⟩
    · exact ⟨_, .inr (.inr ⟨rfl, rfl⟩)⟩
  · rintro ⟨p, ⟨i, hi, rfl, -⟩ | ⟨rfl, -⟩ | ⟨rfl, -⟩⟩
    · exact .inl ⟨i, hi, rfl⟩
    · exact .inr (.inl rfl)
    · exact .inr (.inr rfl)

/-- User pages lie in the layout's 2 MiB. -/
lemma ElfPlan.userPages_bound (hv : plan.Valid imageSize firstUserLayout)
    (hvp : (v, p) ∈ plan.userPages entry stackPage) :
    v.toNat % 4096 = 0 ∧ 0x40000000 ≤ v.toNat ∧ v.toNat < 0x40200000 := by
  simp only [userPages, windowPairs, List.mem_append, List.mem_map, List.mem_range, List.mem_cons,
    List.not_mem_nil, or_false, Prod.mk.injEq] at hvp
  rcases hvp with ⟨i, hi, rfl, -⟩ | ⟨rfl, -⟩ | ⟨rfl, -⟩
  · have hc := hv.pageCount_le
    rw [BitVec.toNat_add, BitVec.toNat_mul, BitVec.toNat_ofNat,
      show firstUserLayout.imageBase.toNat = 0x40001000 from rfl,
      show (4096#64 : Word).toNat = 4096 from rfl]
    omega
  · decide
  · decide

/-- The frames of user pages are physical addresses. -/
lemma ElfPlan.userPages_lt (hv : plan.Valid imageSize firstUserLayout)
    (hstack : stackPage.toNat < 2 ^ 52) (hentry : entry.toNat < 2 ^ 52)
    (hvp : (v, p) ∈ plan.userPages entry stackPage) : p.toNat < 2 ^ 52 := by
  rcases List.mem_append.mp hvp with hvp | hvp
  · exact ((windowPairs_spec hv).1 v p hvp).2
  · simp only [List.mem_cons, Prod.mk.injEq, List.not_mem_nil, or_false] at hvp
    rcases hvp with ⟨-, rfl⟩ | ⟨-, rfl⟩
    · exact hstack
    · exact hentry

/-- A user page translates to its page, readable and writable for user mode. -/
lemma Prepared.translation_user
    (hp : Prepared K entry rb re image plan s own l a stackPage s' own' l')
    (hv : plan.Valid imageSize firstUserLayout)
    (hvp : (v, p) ∈ plan.userPages entry stackPage) (hlt : p.toNat < 2 ^ 52) :
    mmuWalk s'.mem a v = some ⟨pageAddress p, true, true⟩ := by
  obtain ⟨-, hlo, hhi⟩ := ElfPlan.userPages_bound hv hvp
  rw [hp.inv.mmuWalk_eq hp.space, userPath_firstPath hlo hhi, hp.here v p hvp,
    leafTranslation_userEntry hlt]

/-- Every other page translates as in the kernel's address space. -/
lemma Prepared.translation_kernel
    (hp : Prepared K entry rb re image plan s own l a stackPage s' own' l')
    (hno : userPath v = firstPath → ∀ w p, (w, p) ∈ plan.userPages entry stackPage →
      ptIndex v ≠ ptIndex w) : mmuWalk s'.mem a v = mmuWalk s'.mem K.root v := by
  rw [hp.inv.mmuWalk_eq hp.space, hp.inv.kernelWalk_eq, hp.rest _ _ rfl hno]

lemma Canonical.lt_of_path (hc : Canonical v) (hpath : userPath v = firstPath) : v.toNat < 2 ^ 47 := by
  rcases hc with hc | hc
  · exact hc
  · have h0 : (pml4Index v).val = 0 := congrArg Fin.val (List.cons.inj hpath).1
    rw [pml4Index, tableIndex_val] at h0
    have hlt := v.isLt
    omega

/-- A canonical address lies on a user page, or translates as in the kernel. -/
lemma Prepared.translation (hp : Prepared K entry rb re image plan s own l a stackPage s' own' l')
    (hv : plan.Valid imageSize firstUserLayout) (hc : Canonical v) :
    (∃ p, (pageAddress v, p) ∈ plan.userPages entry stackPage) ∨
      mmuWalk s'.mem a v = mmuWalk s'.mem K.root v := by
  by_cases hno : userPath v = firstPath → ∀ w p, (w, p) ∈ plan.userPages entry stackPage →
      ptIndex v ≠ ptIndex w
  · exact .inr (hp.translation_kernel hno)
  · push Not at hno
    obtain ⟨hpath, w, p, hwp, hi⟩ := hno
    obtain ⟨hal, hlo, hhi⟩ := ElfPlan.userPages_bound hv hwp
    have he : pageAddress v = w := by
      rw [pageAddress_eq_of_path (v := w) (by omega) (hc.lt_of_path hpath)
        (hpath.trans (userPath_firstPath hlo hhi).symm) hi]
      exact alignDown_of_aligned hal
    exact .inl ⟨p, he ▸ hwp⟩

/-- Translation is by pages. -/
lemma mmuWalk_pageAddress (m : Mem) (r v : Word) : mmuWalk m r (pageAddress v) = mmuWalk m r v := by
  have h₃ : pdptIndex (pageAddress v) = pdptIndex v := tableIndex_pageAddress (by omega)
  have h₂ : pdIndex (pageAddress v) = pdIndex v := tableIndex_pageAddress (by omega)
  unfold mmuWalk mmuEntries
  rw [pml4Index_pageAddress, h₃, h₂, ptIndex_pageAddress]

/-- No page of the kernel's address space is open to user mode. -/
lemma PagingInv.kernel_supervisor (h : PagingInv K own s l) {t : Translation}
    (ht : mmuWalk s.mem K.root v = some t) : t.user = false := by
  rw [h.kernelWalk_eq, leafTranslation] at ht
  split_ifs at ht
  obtain rfl := Option.some.inj ht
  exact decide_eq_false (K.not_userBit_base _ _ (by simp))

end Translation

/-- A preparation in a run from boot, with everything the invariants say of it. -/
lemma ExecRun.prepared_of_run {entry imageSize : Word} {pre s₀ s s' : Phys} {l₀ spaces : List Word}
    {current : Option UserTaskBootstrap} {image : Mem} {bootstrap : UserTaskBootstrap}
    (hentry : entry.toNat < 2 ^ 52) (hfree : FreeList pre l₀)
    (hboot : pagingInitialize pre = .ok s₀) (hrun : ExecRun entry s₀ s spaces)
    (hlend : LendsOwnPages s spaces current)
    (hprep : syscallPrepareExecBootstrap entry s image imageSize current =
      .ok (some bootstrap, s')) :
    ∃ K l₁ own l plan a stackPage own' l', Booted pre l₀ s₀ K l₁ ∧ ExecRunInv K own s l spaces ∧
      s'.allocRegionBegin = pre.allocRegionBegin ∧ s'.allocRegionEnd = pre.allocRegionEnd ∧
      execPlan image imageSize = some plan ∧ bootstrap = plan.bootstrap entry a stackPage ∧
      Prepared K entry (reusableRange current).1 (reusableRange current).2 image plan s own l a
        stackPage s' own' l' := by
  rcases pagingInitialize_spec hfree with ⟨s₁, K, l₁, hs₁, hb⟩ | ⟨hs₁, _⟩
  swap
  · rw [hs₁] at hboot
    cases hboot
  obtain rfl := Except.ok.inj (hs₁.symm.trans hboot)
  obtain ⟨own, l, h, hbegin, hend⟩ := hrun.inv hb.inv hb.limit_pos hentry
  obtain ⟨plan, a, stackPage, own', l', hplan, hboot', hprep⟩ :=
    Platinum.prepared_of_run (h.run.execContext hb.limit_pos hlend) hentry rfl hprep
  exact ⟨K, l₁, own, l, plan, a, stackPage, own', l', hb, h,
    hprep.globals.regionBegin.trans (hbegin.trans hb.regionBegin),
    hprep.globals.regionEnd.trans (hend.trans hb.regionEnd), hplan, hboot', hprep⟩

/-- The pages that user mode can write are the image's, the stack page, and the
kernel page with the trampoline code. -/
theorem prepared_userWritable {entry imageSize : Word} {pre s₀ s s' : Phys} {l₀ spaces : List Word}
    {current : Option UserTaskBootstrap} {image : Mem} {bootstrap : UserTaskBootstrap}
    (hentry : entry.toNat < 2 ^ 52) (hfree : FreeList pre l₀)
    (hboot : pagingInitialize pre = .ok s₀) (hrun : ExecRun entry s₀ s spaces)
    (hlend : LendsOwnPages s spaces current)
    (hprep : syscallPrepareExecBootstrap entry s image imageSize current =
      .ok (some bootstrap, s')) :
    (∀ v t, Canonical v → mmuWalk s'.mem bootstrap.addressSpace v = some t → t.user = true →
      t.writable = true →
      (bootstrap.imagePhysicalBegin ≤ t.frame ∧ t.frame < bootstrap.imagePhysicalEnd) ∨
      t.frame = bootstrap.userStackPage ∨
      (pageAddress v = bootstrap.layout.trampolineBase ∧ t.frame = pageAddress entry)) ∧
    mmuWalk s'.mem bootstrap.addressSpace bootstrap.layout.trampolineBase =
      some ⟨pageAddress entry, true, true⟩ := by
  obtain ⟨K, l₁, own, l, plan, a, stackPage, own', l', hb, h, -, -, hplan, rfl, hp⟩ :=
    hrun.prepared_of_run hentry hfree hboot hlend hprep
  have hv := (elfCheck_valid hplan).1
  have hstack : IsPage stackPage := h.run.inv.free.pages stackPage hp.stack_mem
  refine ⟨?_, hp.translation_user hv (by simp [ElfPlan.userPages, ElfPlan.bootstrap]) hentry⟩
  intro v t hc ht hu _
  rcases hp.translation hv hc with ⟨p, hvp⟩ | hk
  swap
  · change mmuWalk s'.mem a v = some t at ht
    rw [hk] at ht
    rw [hp.inv.kernel_supervisor ht] at hu
    cases hu
  have htr : ∀ q, (pageAddress v, q) ∈ plan.userPages entry stackPage → q.toNat < 2 ^ 52 →
      t.frame = pageAddress q := by
    intro q hq hlt
    have hw := hp.translation_user hv hq hlt
    rw [mmuWalk_pageAddress] at hw
    exact congrArg Translation.frame (Option.some.inj (ht.symm.trans hw))
  have hcases := hvp
  simp only [ElfPlan.userPages, List.mem_append, List.mem_cons, List.not_mem_nil, or_false,
    Prod.mk.injEq] at hcases
  rcases hcases with hwin | ⟨-, rfl⟩ | ⟨hva, rfl⟩
  · left
    obtain ⟨i, hi, he⟩ := List.mem_map.mp hwin
    have hi := List.mem_range.mp hi
    have hc := hv.pageCount_le
    have hpe : p.toNat = 0x02100000 + 4096 * i := by
      rw [← (Prod.mk.inj he).2, BitVec.toNat_add, BitVec.toNat_mul, BitVec.toNat_ofNat,
        ElfPlan.toNat_base, show (4096#64 : Word).toNat = 4096 from rfl]
      omega
    have hfr : t.frame = p := (htr p hvp (by omega)).trans (alignDown_of_aligned (by omega))
    have hend := hv.physicalEnd
    simp only [ElfPlan.bootstrap, hfr, BitVec.le_def, BitVec.lt_def, hend, ElfPlan.toNat_base]
    omega
  · right; left
    exact (htr _ hvp hstack.lt).trans (alignDown_of_aligned hstack.aligned)
  · right; right
    exact ⟨hva, htr _ hvp hentry⟩

/-- The kernel page of the trampoline code is open to user-mode writes on a
64 MiB machine, and it is neither an image page nor the stack page. -/
theorem prepared_userWritable_kernel_page : ∃ s₀ s bootstrap t,
    pagingInitialize (pallocInitialize (coldMachine 0x4000#64)) = .ok s₀ ∧
    syscallPrepareExecBootstrap 0x00100000#64 s₀ (sampleImage 1) 120#64 none =
      .ok (some bootstrap, s) ∧
    mmuWalk s.mem bootstrap.addressSpace 0x40000000#64 = some t ∧ t.user = true ∧
    t.writable = true ∧ t.frame = 0x00100000#64 ∧
    ¬ (bootstrap.imagePhysicalBegin ≤ t.frame ∧ t.frame < bootstrap.imagePhysicalEnd) ∧
    t.frame ≠ bootstrap.userStackPage := by
  obtain ⟨l, s₀, K, l₀, a, stackPage, s, own, l₁, hl, hrb, -, hs₀, hb, hrun, hprep⟩ :=
    coldMachine_prepares 0x4000#64 0x06000000#64 0x00100000#64
      (by decide) (by decide) (by decide) (by decide) (by decide) execPlan_one
  have hv := (elfCheck_valid execPlan_one).1
  refine ⟨s₀, s, _, _, hs₀, hrun, hprep.translation_user hv (p := 0x00100000#64) ?_ (by decide), rfl, rfl,
    by decide, by simp [ElfPlan.bootstrap]; decide, ?_⟩
  · simp [ElfPlan.userPages, firstUserLayout]
  · -- the stack page comes from the allocator's region
    obtain ⟨taken, htaken, -, -⟩ := hb.taken
    have hmem : stackPage ∈ l := htaken ▸ List.mem_append_right taken hprep.stack_mem
    obtain ⟨-, hge, -⟩ := (hl.mem_iff stackPage).mp hmem
    rw [hrb] at hge
    intro he
    have hn : (0x00100000#64 : Word).toNat = stackPage.toNat := congrArg BitVec.toNat he
    have h1 : (0x00100000#64 : Word).toNat = 0x00100000 := rfl
    have h2 : (0x02000000#64 : Word).toNat = 0x02000000 := rfl
    omega

/-- The writability theorem at work: the first program of a 64 MiB machine. -/
theorem prepared_userWritable_sample : ∃ s₀ s bootstrap,
    pagingInitialize (pallocInitialize (coldMachine 0x4000#64)) = .ok s₀ ∧
    syscallPrepareExecBootstrap 0x00100000#64 s₀ (sampleImage 1) 120#64 none =
      .ok (some bootstrap, s) ∧
    mmuWalk s.mem bootstrap.addressSpace bootstrap.layout.trampolineBase =
      some ⟨pageAddress 0x00100000#64, true, true⟩ := by
  obtain ⟨l, s₀, K, l₀, a, stackPage, s, own, l₁, hl, -, -, hs₀, hb, hrun, hprep⟩ :=
    coldMachine_prepares 0x4000#64 0x06000000#64 0x00100000#64
      (by decide) (by decide) (by decide) (by decide) (by decide) execPlan_one
  exact ⟨s₀, s, _, hs₀, hrun,
    (prepared_userWritable (by decide) hl.list hs₀ .boot (lendsOwnPages_none s₀) hrun).2⟩

/-- The allocator's pages keep their kernel translation in a prepared address
space exactly when no user page has its virtual address among them. Pages may be
handed out before paging is set up, with the same memory map. -/
theorem prepared_region_identity {entry imageSize : Word} {cold pre s₀ s s' : Phys} {out₀ spaces : List Word}
    {current : Option UserTaskBootstrap} {image : Mem} {bootstrap : UserTaskBootstrap}
    (hentry : entry.toNat < 2 ^ 52) (hmap : MemmapValid cold.memmap)
    (hpre : PallocRun (pallocInitialize cold) pre out₀) (hsame : pre.memmap = cold.memmap)
    (hboot : pagingInitialize pre = .ok s₀) (hrun : ExecRun entry s₀ s spaces)
    (hlend : LendsOwnPages s spaces current)
    (hprep : syscallPrepareExecBootstrap entry s image imageSize current =
      .ok (some bootstrap, s')) :
    (∀ p : Word, p.toNat % 4096 = 0 → s'.allocRegionBegin ≤ p → p < s'.allocRegionEnd →
      mmuWalk s'.mem bootstrap.addressSpace p = some ⟨p, true, false⟩) ↔
    ∀ plan, execPlan image imageSize = some plan → ∀ v ∈ plan.userVirtualPages,
      ¬ (s'.allocRegionBegin ≤ v ∧ v < s'.allocRegionEnd) := by
  obtain ⟨l₀, hl, -, -, -, hr⟩ := pallocInitialize_spec cold hmap
  obtain ⟨l₂, hpart⟩ := hpre.partition hl.list
  obtain ⟨K, l₁, own, l, plan, a, stackPage, own', l', hb, h, hbegin, hend, hplan, rfl, hp⟩ :=
    hrun.prepared_of_run hentry hpart.free hboot hlend hprep
  have hv := (elfCheck_valid hplan).1
  have hstack := (h.run.inv.free.pages stackPage hp.stack_mem).lt
  constructor
  · intro hid plan' hplan' v hvm ⟨hvb, hve⟩
    obtain rfl := Option.some.inj (hplan'.symm.trans hplan)
    obtain ⟨p, hvp⟩ := (ElfPlan.mem_userVirtualPages _ _).mp hvm
    have hal := (ElfPlan.userPages_bound hv hvp).1
    have hlt : p.toNat < 2 ^ 52 := ElfPlan.userPages_lt hv hstack hentry hvp
    have htr := (hid v hal hvb hve).symm.trans (hp.translation_user hv hvp hlt)
    have hu := congrArg Translation.user (Option.some.inj htr)
    cases hu
  · intro hno p hal hpb hpe
    -- the region lies below the limit of the kernel's identity map
    have hlim : s'.allocRegionEnd.toNat ≤ K.limit := by
      rw [hend, hpart.regionEnd, hb.limit, hsame]
      rcases hr with ⟨-, -, he⟩ | ⟨r, -, -, he, hr⟩
      · rw [he]
        exact Nat.zero_le _
      · obtain ⟨index, d, hd, -, -, hle⟩ := hr.descriptor
        have hmax := hr.le_maximum
        have hge := highestPhysicalEnd_ge hmap hd
        have hhigh : pallocHighLimit.toNat = 2 ^ 32 := rfl
        rw [← he]
        omega
    have hpe' : p.toNat < s'.allocRegionEnd.toNat := hpe
    have hlim32 := K.limit_le
    rcases hp.translation hv (v := p) (.inl (by omega)) with ⟨q, hq⟩ | hk
    · rw [pageAddress, alignDown_of_aligned hal] at hq
      exact absurd ⟨hpb, hpe⟩ (hno plan hplan p ((ElfPlan.mem_userVirtualPages _ _).mpr ⟨q, hq⟩))
    · change mmuWalk s'.mem a p = _
      rw [hk, hp.inv.kernel_identity (by omega), if_pos (by omega), pageAddress,
        alignDown_of_aligned hal]

/-- On a machine with memory at 1 GiB the trampoline hides a page that the
allocator may hand out. -/
theorem prepared_region_hidden_page : ∃ s₀ s bootstrap,
    pagingInitialize (pallocInitialize (coldMachine 0x50000#64)) = .ok s₀ ∧
    syscallPrepareExecBootstrap 0x00100000#64 s₀ (sampleImage 1) 120#64 none =
      .ok (some bootstrap, s) ∧
    s.allocRegionBegin ≤ 0x40000000#64 ∧ 0x40000000#64 < s.allocRegionEnd ∧
    mmuWalk s.mem bootstrap.addressSpace 0x40000000#64 = some ⟨0x00100000#64, true, true⟩ := by
  obtain ⟨l, s₀, K, l₀, a, stackPage, s, own, l₁, hl, hrb, hre, hs₀, hb, hrun, hprep⟩ :=
    coldMachine_prepares 0x50000#64 0x52000000#64 0x00100000#64
      (by decide) (by decide) (by decide) (by decide) (by decide) execPlan_one
  have hv := (elfCheck_valid execPlan_one).1
  have hbegin := hprep.globals.regionBegin.trans (hb.regionBegin.trans hrb)
  have hend := hprep.globals.regionEnd.trans (hb.regionEnd.trans hre)
  refine ⟨s₀, s, _, hs₀, hrun, ?_, ?_, hprep.translation_user hv (p := 0x00100000#64) ?_ (by decide)⟩
  · rw [hbegin]
    decide
  · rw [hend]
    decide
  · simp [ElfPlan.userPages, firstUserLayout]

/-- The region theorem at work: with 64 MiB every page keeps its translation. -/
theorem prepared_region_identity_sample : ∃ s₀ s bootstrap,
    pagingInitialize (pallocInitialize (coldMachine 0x4000#64)) = .ok s₀ ∧
    syscallPrepareExecBootstrap 0x00100000#64 s₀ (sampleImage 1) 120#64 none =
      .ok (some bootstrap, s) ∧
    s.allocRegionBegin = 0x02000000#64 ∧ s.allocRegionEnd = 0x06000000#64 ∧
    ∀ p : Word, p.toNat % 4096 = 0 → s.allocRegionBegin ≤ p → p < s.allocRegionEnd →
      mmuWalk s.mem bootstrap.addressSpace p = some ⟨p, true, false⟩ := by
  obtain ⟨l, s₀, K, l₀, a, stackPage, s, own, l₁, hl, hrb, hre, hs₀, hb, hrun, hprep⟩ :=
    coldMachine_prepares 0x4000#64 0x06000000#64 0x00100000#64
      (by decide) (by decide) (by decide) (by decide) (by decide) execPlan_one
  have hv := (elfCheck_valid execPlan_one).1
  have hvalid : MemmapValid (coldMachine 0x4000#64).memmap := sampleMemmap_valid (by decide)
  obtain ⟨-, -, -, -, hmm, -⟩ := pallocInitialize_spec (coldMachine 0x4000#64) hvalid
  have hbegin := hprep.globals.regionBegin.trans (hb.regionBegin.trans hrb)
  have hend := hprep.globals.regionEnd.trans (hb.regionEnd.trans hre)
  refine ⟨s₀, s, _, hs₀, hrun, hbegin, hend, (prepared_region_identity (by decide)
    hvalid .start hmm hs₀ .boot (lendsOwnPages_none s₀) hrun).mpr ?_⟩
  rintro plan hplan v hvm ⟨-, hlt⟩
  obtain rfl := Option.some.inj (hplan.symm.trans execPlan_one)
  obtain ⟨p, hvp⟩ := (ElfPlan.mem_userVirtualPages 0#64 0#64).mp hvm
  have hge := (ElfPlan.userPages_bound hv hvp).2.1
  have hlt : v.toNat < s.allocRegionEnd.toNat := hlt
  rw [hend] at hlt
  have he : (0x06000000#64 : Word).toNat = 0x06000000 := rfl
  omega

end Platinum
