import Platinum.SystemBoot

/-!
# The first user task

`configure_first_user_task` loads the program that the build embeds, before any task
runs. The kernel can then start its two tasks.
-/
namespace Platinum
open ByteMemory BlockList SharedTrie WordArith

/-- What the build says of the first user task. -/
structure FirstUserBuild where
  userInitEnabled : Bool
  userInitUseElf : Bool
  userTestBadElf : Bool
  userTestBadBootstrap : Bool
  embeddedFirstUserProgramImage : Mem
  embeddedFirstUserProgramSize : Word
  userInitMain : Word

def badUserImage : Mem := fun i => [0x00, 0x45, 0x4C, 0x46].getD i 0

def FirstUserBuild.userImage (f : FirstUserBuild) : Mem :=
  if f.userTestBadElf then badUserImage else f.embeddedFirstUserProgramImage

def FirstUserBuild.userImageSize (f : FirstUserBuild) : Word :=
  if f.userTestBadElf then 4#64 else f.embeddedFirstUserProgramSize

/-- The ELF program of the build. -/
def configureElfTask (archUserProgramEntry : Word) (f : FirstUserBuild) (addressSpace : Word) (s : Phys) :
    Run (UserTaskBootstrap × Phys) := do
  match ← elfLoadUserImage s f.userImage f.userImageSize firstUserLayout addressSpace 0#64 0#64 with
  | (none, _) => .error .halt
  | (some loadedImage, s) =>
    let trampolinePage := pageAddress archUserProgramEntry
    let s ← pagingMapUserPage s addressSpace firstUserLayout.trampolineBase trampolinePage
    if ¬ pagingMappingMatches s.mem addressSpace firstUserLayout.trampolineBase trampolinePage true ∨
        ¬ pagingMappingIsSupervisorOnly s.mem addressSpace trampolinePage ∨
        ¬ pagingMappingIsSupervisorOnly s.mem addressSpace loadedImage.loadPhysicalBegin ∨
        ¬ pagingMappingIsSupervisorOnly s.mem addressSpace (loadedImage.loadPhysicalEnd - 4096#64) ∨
        ¬ pagingMappingIsSupervisorOnly s.mem addressSpace loadedImage.stackPage then .error .halt
    else
      .ok (
        { layout := firstUserLayout
          addressSpace := addressSpace
          trampolineEntry := firstUserLayout.trampolineBase + (archUserProgramEntry &&& 4095#64)
          userEntry := loadedImage.entry
          imagePhysicalBegin := loadedImage.loadPhysicalBegin
          imagePhysicalEnd := loadedImage.loadPhysicalEnd
          userStackPage := loadedImage.stackPage
          userStackTop := loadedImage.stackTop }, s)

/-- The program that is linked into the kernel. -/
def configureLinkedTask (archUserProgramEntry : Word) (f : FirstUserBuild) (addressSpace : Word) (s : Phys) :
    Run (UserTaskBootstrap × Phys) :=
  match pallocAlloc s with
  | (userStackPage, s) =>
    if userStackPage = 0#64 then .error .halt
    else do
      let trampolinePage := pageAddress archUserProgramEntry
      let userEntryPage := pageAddress f.userInitMain
      let stackVirtual := firstUserLayout.stackTop - 4096#64
      let s ← pagingMapUserPage s addressSpace firstUserLayout.trampolineBase trampolinePage
      let s ← pagingMapUserPage s addressSpace firstUserLayout.imageBase userEntryPage
      let s ← pagingMapUserPage s addressSpace stackVirtual userStackPage
      if ¬ pagingMappingMatches s.mem addressSpace firstUserLayout.trampolineBase trampolinePage true ∨
          ¬ pagingMappingMatches s.mem addressSpace firstUserLayout.imageBase userEntryPage true ∨
          ¬ pagingMappingMatches s.mem addressSpace stackVirtual userStackPage true ∨
          ¬ pagingMappingIsSupervisorOnly s.mem addressSpace trampolinePage ∨
          ¬ pagingMappingIsSupervisorOnly s.mem addressSpace userEntryPage ∨
          ¬ pagingMappingIsSupervisorOnly s.mem addressSpace userStackPage then .error .halt
      else
        .ok (
          { layout := firstUserLayout
            addressSpace := addressSpace
            trampolineEntry := firstUserLayout.trampolineBase + (archUserProgramEntry &&& 4095#64)
            userEntry := firstUserLayout.imageBase + (f.userInitMain &&& 4095#64)
            imagePhysicalBegin := 0#64
            imagePhysicalEnd := 0#64
            userStackPage := userStackPage
            userStackTop := firstUserLayout.stackTop }, s)

def configureFirstUserTask (archUserProgramEntry : Word) (f : FirstUserBuild) (k : KernelState) :
    Run KernelState :=
  match pagingCreateUserAddressSpace k.phys with
  | (addressSpace, s) =>
    if addressSpace = 0#64 ∨ ¬ pagingAddressSpaceValid s addressSpace then .error .halt
    else if ¬ pagingMappingIsSupervisorOnly s.mem addressSpace 0#64 then .error .halt
    else do
      let (bootstrap, s) ←
        if f.userInitUseElf then configureElfTask archUserProgramEntry f addressSpace s
        else configureLinkedTask archUserProgramEntry f addressSpace s
      let bootstrap :=
        if f.userTestBadBootstrap then { bootstrap with trampolineEntry := 0#64 } else bootstrap
      schedEnableUserTask (k.setPhys s) bootstrap

section Configure

variable {K : KernelTables} {own : Owner} {s s₁ s' : Phys} {k k' : KernelState} {f : FirstUserBuild}
  {entry a rsp0Page stackPage : Word} {l l' heapPages : List Word} {bootstrap : UserTaskBootstrap}

/-- A bootstrap that the scheduler accepts. -/
lemma schedEnableUserTask_ok (h : schedEnableUserTask k bootstrap = .ok k') :
    bootstrapComplete bootstrap = true ∧
      k' = { k with userTaskEnabled := true, userTaskBootstrap := bootstrap } := by
  unfold schedEnableUserTask at h
  split_ifs at h with hno
  cases h
  simp only [not_or, Bool.not_eq_true, Bool.not_eq_false] at hno
  exact ⟨hno.2.2.2, rfl⟩

/-- The embedded program is prepared as exec would. -/
lemma configureElfTask_prepares (hcreate : pagingCreateUserAddressSpace s = (a, s₁))
    (hvalid : ¬ (a = 0#64 ∨ ¬ pagingAddressSpaceValid s₁ a = true))
    (hrun : configureElfTask entry f a s₁ = .ok (bootstrap, s')) :
    syscallPrepareExecBootstrap entry s f.userImage f.userImageSize none = .ok (some bootstrap, s') := by
  unfold configureElfTask at hrun
  obtain ⟨⟨loaded, s₂⟩, hload, hrun⟩ := bind_eq_ok.mp hrun
  cases loaded with
  | none => cases hrun
  | some loadedImage =>
    obtain ⟨s₃, hmap, hrun⟩ := bind_eq_ok.mp hrun
    split_ifs at hrun with hfail
    cases hrun
    simp only [not_or, not_not] at hfail
    unfold syscallPrepareExecBootstrap
    rw [hcreate]
    dsimp only
    rw [if_neg hvalid]
    dsimp only [reusableRange]
    rw [hload, ok_bind]
    dsimp only
    rw [hmap, ok_bind, if_neg (not_not.mpr hfail.1)]

/-- And is configured when exec would prepare it on the supervisor's pages. -/
lemma configureElfTask_of_prepared (hcreate : pagingCreateUserAddressSpace s = (a, s₁))
    (hprep : syscallPrepareExecBootstrap entry s f.userImage f.userImageSize none = .ok (some bootstrap, s'))
    (hcode : pagingMappingIsSupervisorOnly s'.mem a (pageAddress entry) = true)
    (hbegin : pagingMappingIsSupervisorOnly s'.mem a bootstrap.imagePhysicalBegin = true)
    (hend : pagingMappingIsSupervisorOnly s'.mem a (bootstrap.imagePhysicalEnd - 4096#64) = true)
    (hstack : pagingMappingIsSupervisorOnly s'.mem a bootstrap.userStackPage = true) :
    ¬ (a = 0#64 ∨ ¬ pagingAddressSpaceValid s₁ a = true) ∧ configureElfTask entry f a s₁ = .ok (bootstrap, s') := by
  unfold syscallPrepareExecBootstrap at hprep
  rw [hcreate] at hprep
  dsimp only at hprep
  by_cases hvalid : a = 0#64 ∨ ¬ pagingAddressSpaceValid s₁ a = true
  · rw [if_pos hvalid] at hprep
    cases hprep
  rw [if_neg hvalid] at hprep
  obtain ⟨⟨loaded, s₂⟩, hload, hprep⟩ := bind_eq_ok.mp hprep
  have hload : elfLoadUserImage s₁ f.userImage f.userImageSize firstUserLayout a 0#64 0#64 = .ok (loaded, s₂) :=
    hload
  cases loaded with
  | none => cases hprep
  | some loadedImage =>
    obtain ⟨s₃, hmap, hprep⟩ := bind_eq_ok.mp hprep
    by_cases hmatch : ¬ pagingMappingMatches s₃.mem a firstUserLayout.trampolineBase (pageAddress entry) true = true
    · rw [if_pos hmatch] at hprep
      cases hprep
    rw [if_neg hmatch] at hprep
    cases hprep
    refine ⟨hvalid, ?_⟩
    unfold configureElfTask
    rw [hload, ok_bind]
    dsimp only
    rw [hmap, ok_bind, if_neg]
    simp only [not_or, not_not]
    exact ⟨not_not.mp hmatch, hcode, hbegin, hend, hstack⟩

/-- What a configured first task was made of. -/
lemma configureFirstUserTask_prepares (helf : f.userInitUseElf = true)
    (hrun : configureFirstUserTask entry f k = .ok k') : ∃ bootstrap s,
      syscallPrepareExecBootstrap entry k.phys f.userImage f.userImageSize none = .ok (some bootstrap, s) ∧
      bootstrapComplete bootstrap = true ∧
      k' = { k.setPhys s with userTaskEnabled := true, userTaskBootstrap := bootstrap } := by
  unfold configureFirstUserTask at hrun
  cases hcreate : pagingCreateUserAddressSpace k.phys with
  | mk a s₁ =>
    rw [hcreate] at hrun
    dsimp only at hrun
    by_cases hvalid : a = 0#64 ∨ ¬ pagingAddressSpaceValid s₁ a = true
    · rw [if_pos hvalid] at hrun
      cases hrun
    rw [if_neg hvalid] at hrun
    by_cases hsup : ¬ pagingMappingIsSupervisorOnly s₁.mem a 0#64 = true
    · rw [if_pos hsup] at hrun
      cases hrun
    rw [if_neg hsup, if_pos helf] at hrun
    obtain ⟨⟨bootstrap, s₂⟩, hload, hrun⟩ := bind_eq_ok.mp hrun
    have hprep := configureElfTask_prepares hcreate hvalid hload
    dsimp only at hrun
    by_cases hbad : f.userTestBadBootstrap = true
    · rw [if_pos hbad] at hrun
      obtain ⟨hcomplete, -⟩ := schedEnableUserTask_ok hrun
      simp [bootstrapComplete] at hcomplete
    · rw [if_neg hbad] at hrun
      obtain ⟨hcomplete, rfl⟩ := schedEnableUserTask_ok hrun
      exact ⟨bootstrap, s₂, hprep, hcomplete, rfl⟩

/-- The kernel before `configure_first_user_task`: the pages of its code and of the task
state segment's stack are its own, its heap is beside them, and it has no address space. -/
structure KernelReady (K : KernelTables) (entry : Word) (heapPages : List Word) (rsp0Page : Word) (k : KernelState)
    (l : List Word) : Prop where
  tables : ExecRunInv K (fun _ => none) k.phys l []
  limit : 0 < K.limit
  objects : FdInv (UserHeap {p | p ∈ kernelPages entry [rsp0Page]} ⟨[], heapPages⟩) k.store [] [] []
  walk : NamespaceOk k.store
  kernel : ∀ p ∈ kernelPages entry [rsp0Page], HeldPage K (fun _ => none) l p
  code : pageAddress entry ≠ rsp0Page

/-- An address below the end of memory that is none of the user's two MiB. -/
def DirectAddress (limit : ℕ) (v : Word) : Prop :=
  v.toNat < limit ∧ ¬ (0x40000000 ≤ v.toNat ∧ v.toNat < 0x40200000)

/-- Another address space may be loaded. -/
lemma ExecRunInv.loads {spaces : List Word} (h : ExecRunInv K own s l spaces) (a : Word) :
    ExecRunInv K own { s with cr3 := a } l spaces := by
  have hfree := h.run.inv.free
  exact ⟨⟨⟨⟨hfree.chain, hfree.nodup, hfree.pages⟩, h.run.inv.root, h.run.inv.kernel, h.run.inv.tables,
    h.run.inv.free_own, h.run.inv.free_kernel⟩, h.run.space, h.run.owner⟩, h.positions⟩

/-- The first program takes what is no longer free. -/
lemma Prepared.conserved {image : Mem} {imageSize : Word} {plan : ElfPlan}
    (hp : Prepared K entry 0#64 0#64 image plan s (fun _ => none) l a stackPage s' own l')
    (h : ExecContext K (fun _ => none) s l 0#64 0#64) (hplan : execPlan image imageSize = some plan) (p : Word) :
    p ∈ l ↔ p ∈ l' ∨ p ∈ programPages (plan.bootstrap entry a stackPage) own := by
  obtain ⟨tables, htables, -, hperm⟩ := hp.perm h hplan
  have hclaimed : plan.claimed 0#64 0#64 = plan.windowPages := unowned_empty _
  have hown (p : Word) : (∃ x, own p = some x) ↔ p ∈ tables := by
    rw [htables p]
    constructor
    · rintro ⟨⟨b, ρ⟩, hρ⟩
      by_cases hb : b = a
      · exact ⟨ρ, hb ▸ hρ⟩
      · cases hp.other_own p b ρ hρ hb
    · rintro ⟨ρ, hρ⟩
      exact ⟨_, hρ⟩
  rw [← hperm.mem_iff, programPages, Set.mem_ofPred_eq, hown,
    ElfPlan.imagePages_bootstrap (elfCheck_valid hplan).1 entry a stackPage, hclaimed]
  simp only [ElfPlan.bootstrap, List.mem_append, List.mem_cons]
  grind

/-- Its stack and four tables, beside the image. -/
lemma Prepared.length_first {image : Mem} {imageSize : Word} {plan : ElfPlan}
    (hp : Prepared K entry 0#64 0#64 image plan s (fun _ => none) l a stackPage s' own l')
    (hv : plan.Valid imageSize firstUserLayout) : l.length = plan.windowPages.length + l'.length + 5 := by
  obtain ⟨l₀, rfl, hav, tabs, hdiff, htabs, -⟩ := hp.head
  have hclaimed : plan.claimed 0#64 0#64 = plan.windowPages := unowned_empty _
  rw [hclaimed] at hav hdiff
  have hlen := (append_diff_perm hv.windowPages_nodup hav).length_eq
  rw [hdiff] at hlen
  simp only [List.length_append, List.length_cons] at hlen ⊢
  omega

/-- A configured first task can be started, unless no page is left for the idle task's stack. -/
lemma KernelReady.configured (h : KernelReady K entry heapPages rsp0Page k l) (helf : f.userInitUseElf = true)
    (hentry : entry.toNat < 2 ^ 52) (hrun : configureFirstUserTask entry f k = .ok k') :
    ∃ own plan a stackPage l', execPlan f.userImage f.userImageSize = some plan ∧ FreeList k'.phys l' ∧
      l.length = plan.windowPages.length + l'.length + 5 ∧
      (∀ p, p ∈ l ↔ p ∈ l' ∨ p ∈ programPages (plan.bootstrap entry a stackPage) own) ∧
      ProgramMapped k'.phys.mem a entry stackPage f.userImage plan ∧
      ∀ idlePage l₁, l' = idlePage :: l₁ →
        BootReady K entry heapPages rsp0Page idlePage own k' (plan.bootstrap entry a stackPage) l₁ := by
  obtain ⟨bootstrap, s, hprep, hcomplete, rfl⟩ := configureFirstUserTask_prepares helf hrun
  have hctx : ExecContext K (fun _ => none) k.phys l 0#64 0#64 :=
    h.tables.run.execContext h.limit (lendsOwnPages_none k.phys)
  obtain ⟨plan, a, stackPage, own, l', hplan, rfl, hp⟩ := prepared_of_run hctx hentry rfl hprep
  have hv := (elfCheck_valid hplan).1
  have hinv := h.tables.prepared hp
  have hfree : FreeList k.phys l := h.tables.run.inv.free
  have himage := ElfPlan.imagePages_bootstrap hv entry a stackPage
  have hconserved : ∀ p, p ∈ l ↔ p ∈ l' ∨ p ∈ programPages (plan.bootstrap entry a stackPage) own :=
    hp.conserved hctx hplan
  have hlength : l.length = plan.windowPages.length + l'.length + 5 := hp.length_first hv
  have hprogram : ∀ p ∈ programPages (plan.bootstrap entry a stackPage) own, p ∈ l :=
    fun p hpp => (hconserved p).mpr (.inr hpp)
  have hheld := hp.held_pages hctx hplan
  refine ⟨own, plan, a, stackPage, l', hplan, hp.inv.free, hlength, hconserved,
    hp.programMapped hv hentry (hheld _ List.mem_cons_self).page, ?_⟩
  rintro idlePage l₁ rfl
  have hpages : CallerPages K own { s with cr3 := a } (plan.bootstrap entry a stackPage) (idlePage :: l₁) [a] :=
    ⟨hinv.loads a, h.limit, List.mem_cons_self, rfl, rfl, fun p hpp => hheld p (List.mem_cons_of_mem _ hpp),
      hheld _ List.mem_cons_self, himage ▸ hp.stack_not_window hctx hv⟩
  have hkernel : ∀ p ∈ kernelPages entry [rsp0Page], HeldPage K own (idlePage :: l₁) p ∧
      p ∉ (plan.bootstrap entry a stackPage).ownPages := by
    intro p hpk
    have hk := h.kernel p hpk
    exact ⟨hp.held hk, fun hpo => hk.used (hprogram p (.inl hpo))⟩
  have hobjects : FdInv (UserHeap (programPages (plan.bootstrap entry a stackPage) own ∪
      {p | p ∈ kernelPages entry [rsp0Page]}) ⟨[], heapPages⟩) (k.setPhys s).store [] [] [] := by
    refine ⟨h.objects.counts.congr rfl rfl, h.objects.heap.trade hfree hp.inv.free
      (fun p hpl => .inl (hp.taken_free.1 p hpl)) (fun p hpp => hpp.imp_left (hprogram p)) fun p hpl hpp => ?_⟩
    rcases hpp with hpp | hpp
    · exact hpages.program_used hpp hpl
    · exact (hkernel p hpp).1.used hpl
  exact ⟨rfl, rfl, hcomplete, hpages, hobjects, h.walk, hkernel, h.code,
    fun v t ht hu => hp.userFrames hctx hplan hentry ht hu, rfl⟩

/-- A page that the user's tables leave to the kernel's is the supervisor's. -/
lemma supervisorOnly_of_base {v : Word} (h : PagingInv K own s l) (ha : IsSpace own a) (hv : v.toNat < K.limit)
    (hleaf : leafEntry s.mem a (userPath v) (ptIndex v) = K.base (userPath v) (ptIndex v)) :
    pagingMappingIsSupervisorOnly s.mem a v = true := by
  have hlimit := K.limit_le
  have hlt : v.toNat < 2 ^ 48 := by omega
  have hn : (pageAddress v ||| pagingFlagsPage).toNat = (pageAddress v).toNat + 3 :=
    toNat_or_flags (alignDown_aligned v) (by decide)
  have hal : (pageAddress v).toNat = v.toNat / 4096 * 4096 := toNat_alignDown v
  rw [K.leaf_identity hlt, if_pos (by omega)] at hleaf
  unfold pagingMappingIsSupervisorOnly
  rw [(user_levels h ha).pagingMappingMatches_iff (h.own_page ha).ne_zero, hleaf]
  refine ⟨?_, ?_, ?_⟩
  · rw [present_iff, hn]
    omega
  · apply BitVec.eq_of_toNat_eq
    rw [entryAddress, pagingAddressMask, toNat_addressMask, hn]
    omega
  · rw [userBit_iff, hn]
    simp only [Bool.false_eq_true, iff_false]
    omega

/-- The user's addresses are the two MiB from one GiB on. -/
lemma userPath_outside {v : Word} (hlt : v.toNat < 2 ^ 39) (hv : ¬ (0x40000000 ≤ v.toNat ∧ v.toNat < 0x40200000)) :
    userPath v ≠ firstPath := by
  intro he
  simp only [firstPath, userPath, pml4Index, pdptIndex, pdIndex, List.cons.injEq, and_true] at he
  have hpdpt := congrArg Fin.val he.2.1
  have hpd := congrArg Fin.val he.2.2
  rw [tableIndex_val, tableIndex_val] at hpdpt hpd
  have hbase : firstUserLayout.trampolineBase.toNat = 0x40000000 := rfl
  omega

/-- With the window free, four more pages and all of them outside of the user's addresses, the
first task is configured. -/
lemma KernelReady.configures {plan : ElfPlan} (h : KernelReady K entry heapPages rsp0Page k l)
    (helf : f.userInitUseElf = true) (hbad : f.userTestBadBootstrap = false)
    (hentry : DirectAddress K.limit entry) (hdirect : ∀ p ∈ l, DirectAddress K.limit p)
    (hplan : execPlan f.userImage f.userImageSize = some plan) (hav : ∀ p ∈ plan.windowPages, p ∈ l.tail)
    (hlen : 4 ≤ (l.tail.diff plan.windowPages).length) :
    ∃ k', configureFirstUserTask entry f k = .ok k' := by
  have hctx : ExecContext K (fun _ => none) k.phys l 0#64 0#64 :=
    h.tables.run.execContext h.limit (lendsOwnPages_none k.phys)
  have hclaimed : plan.claimed 0#64 0#64 = plan.windowPages := unowned_empty _
  have hlimit := K.limit_le
  have hentry52 : entry.toNat < 2 ^ 52 := by
    have hlt := hentry.1
    omega
  obtain ⟨a, stackPage, s, own, l', hprep, hp⟩ := prepare_succeeds none hctx hentry52 rfl hplan
    (hclaimed.symm ▸ hav) (hclaimed.symm ▸ hlen)
  have hv := (elfCheck_valid hplan).1
  obtain ⟨l₀, rfl, -⟩ := hp.head
  obtain ⟨s₁, hcreate, hc⟩ := pagingCreate_cons h.tables.run.inv
  have hshared {v : Word} (hv : DirectAddress K.limit v) : pagingMappingIsSupervisorOnly s.mem a v = true := by
    have hlt := hv.1
    refine supervisorOnly_of_base hp.inv hp.space hlt (hp.rest _ _ rfl fun he => ?_)
    exact absurd he (userPath_outside (by omega) hv.2)
  have hfirst : pagingMappingIsSupervisorOnly s₁.mem a 0#64 = true :=
    supervisorOnly_of_base hc.inv (Function.update_self _ _ _) h.limit (hc.here _ _ rfl)
  have hpage {p : Word} (hpm : p ∈ a :: l₀) : pagingMappingIsSupervisorOnly s.mem a p = true :=
    hshared (hdirect p hpm)
  have hwindow {p : Word} (hpw : p ∈ plan.windowPages) : pagingMappingIsSupervisorOnly s.mem a p = true :=
    hpage (List.mem_cons_of_mem a (hav p hpw))
  have hpos := hv.pageCount_pos
  have hcount := hv.pageCount_le
  have hlast : (plan.physicalEnd - 4096#64).toNat = 0x02100000 + 4096 * (plan.pageCount - 1) := by
    have hpe := hv.physicalEnd
    bv_omega
  have hentryPage : DirectAddress K.limit (pageAddress entry) := by
    obtain ⟨hlt, hout⟩ := hentry
    have hal : (pageAddress entry).toNat = entry.toNat / 4096 * 4096 := toNat_alignDown entry
    constructor <;> omega
  obtain ⟨hvalid, helfTask⟩ := configureElfTask_of_prepared hcreate hprep (hshared hentryPage)
    (hwindow (hv.mem_windowPages.mpr ⟨0, hpos, rfl⟩))
    (hwindow (hv.mem_windowPages.mpr ⟨_, by omega, hlast⟩)) (hpage hp.stack_mem)
  obtain ⟨hcomplete, -⟩ := syscallPrepareExecBootstrap_complete hprep
  unfold configureFirstUserTask
  rw [hcreate]
  dsimp only
  rw [if_neg hvalid, if_neg (not_not.mpr hfirst), if_pos helf, helfTask, ok_bind]
  dsimp only
  rw [if_neg (by simp [hbad])]
  refine ⟨_, if_neg ?_⟩
  simp only [not_or, not_not]
  exact ⟨(by decide : firstUserLayout.trampolineBase ≠ 0#64), (by decide : firstUserLayout.imageBase ≠ 0#64),
    (by decide : firstUserLayout.stackTop ≠ 0#64), hcomplete⟩

end Configure

end Platinum
