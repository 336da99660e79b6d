import Platinum.ExecAccess
import Platinum.UserMemory

/-!
# The prepared program as user mode sees it

Through its own address space a prepared program reads its image byte for byte,
and it reaches its image, its stack page and the trampoline and no other page.
-/
namespace Platinum
open ByteMemory WordArith

/-- The segment is loaded over the virtual address `x`. -/
def Elf64ProgramHeader.Covers (phdr : Elf64ProgramHeader) (x : ℕ) : Prop :=
  phdr.isLoad = true ∧ phdr.vaddr.toNat ≤ x ∧ x < phdr.vaddr.toNat + phdr.memsz.toNat

/-- The byte that the last covering segment of the table defines at `x`: a byte
of the file, or zero behind the file's bytes. It is zero where none covers `x`. -/
def ImageByte (image : Mem) (phdrs : List Elf64ProgramHeader) (x : ℕ) (byte : Byte) : Prop :=
  (∃ before phdr after, phdrs = before ++ phdr :: after ∧ phdr.Covers x ∧
    (∀ q ∈ after, ¬ q.Covers x) ∧
    byte = if x < phdr.vaddr.toNat + phdr.filesz.toNat then
      image (phdr.offset.toNat + (x - phdr.vaddr.toNat)) else 0) ∨
  ((∀ q ∈ phdrs, ¬ q.Covers x) ∧ byte = 0)

/-- The image pages of a layout. -/
def OnImagePage (layout : UserVirtualLayout) (span v : Word) : Prop :=
  ∃ i, i < span.toNat / 4096 ∧ pageAddress v = layout.imageBase + BitVec.ofNat 64 (4096 * i)

/-- The pages that a program is meant to reach. -/
def IntendedPage (layout : UserVirtualLayout) (span v : Word) : Prop :=
  pageAddress v = layout.trampolineBase ∨ OnImagePage layout span v ∨
    pageAddress v = layout.stackTop - 4096#64

section Image

variable {K : KernelTables} {own own' : Owner} {s s' : Phys} {l l' : List Word}
  {entry rb re imageSize a stackPage v p : Word} {image : Mem} {plan : ElfPlan} {x : ℕ}

lemma segmentByte_covers {phdr : Elf64ProgramHeader} (h : phdr.Covers x) :
    segmentByte image phdr x = some (if x < phdr.vaddr.toNat + phdr.filesz.toNat then
      image (phdr.offset.toNat + (x - phdr.vaddr.toNat)) else 0) := if_pos h

lemma segmentByte_not_covers {phdr : Elf64ProgramHeader} (h : ¬ phdr.Covers x) :
    segmentByte image phdr x = none := if_neg h

/-- Loading in table order leaves the last covering segment's byte. -/
lemma imageByte_loadedByte (image : Mem) (phdrs : List Elf64ProgramHeader) (x : ℕ) :
    ImageByte image phdrs x (loadedByte image phdrs x) := by
  induction phdrs using List.reverseRecOn with
  | nil => exact .inr ⟨by simp, rfl⟩
  | append_singleton phdrs phdr ih =>
    have hfold : loadedByte image (phdrs ++ [phdr]) x =
        (segmentByte image phdr x).getD (loadedByte image phdrs x) := by
      simp [loadedByte, segmentsByte]
    rw [hfold]
    by_cases hc : phdr.Covers x
    · rw [segmentByte_covers hc]
      exact .inl ⟨phdrs, phdr, [], rfl, hc, by simp, rfl⟩
    · rw [segmentByte_not_covers hc, Option.getD_none]
      rcases ih with ⟨A, q, B, rfl, hq, hB, he⟩ | ⟨hno, he⟩
      · refine .inl ⟨A, q, B ++ [phdr], by simp, hq, ?_, he⟩
        exact List.forall_mem_append.mpr ⟨hB, by simpa using hc⟩
      · exact .inr ⟨List.forall_mem_append.mpr ⟨hno, by simpa using hc⟩, he⟩

lemma imagePage_toNat (hv : plan.Valid imageSize firstUserLayout) {i : ℕ} (hi : i < plan.pageCount) :
    (firstUserLayout.imageBase + BitVec.ofNat 64 (4096 * i)).toNat = 0x40001000 + 4096 * i := by
  have hc := hv.pageCount_le
  rw [BitVec.toNat_add, BitVec.toNat_ofNat, show firstUserLayout.imageBase.toNat = 0x40001000 from rfl]
  omega

lemma mul_page (b : Word) (i : ℕ) :
    b + BitVec.ofNat 64 i * 4096#64 = b + BitVec.ofNat 64 (4096 * i) := by
  rw [Nat.mul_comm, BitVec.ofNat_mul]

/-- A user page of the plan is one of the intended pages. -/
lemma ElfPlan.mem_userVirtualPages_iff :
    pageAddress v ∈ plan.userVirtualPages ↔ IntendedPage firstUserLayout plan.span v := by
  simp only [userVirtualPages, List.mem_append, List.mem_map, List.mem_range, List.mem_cons,
    List.not_mem_nil, or_false, mul_page, IntendedPage, OnImagePage, pageCount]
  constructor
  · rintro (⟨i, hi, he⟩ | h | h)
    · exact .inr (.inl ⟨i, hi, he.symm⟩)
    · exact .inr (.inr h)
    · exact .inl h
  · rintro (h | ⟨i, hi, he⟩ | h)
    · exact .inr (.inr h)
    · exact .inl ⟨i, hi, he.symm⟩
    · exact .inr (.inl h)

/-- The stack page was free, so it is no page of the image's window. -/
lemma Prepared.stack_not_window (h : ExecContext K own s l rb re)
    (hv : plan.Valid imageSize firstUserLayout)
    (hp : Prepared K entry rb re image plan s own l a stackPage s' own' l') :
    stackPage ∉ plan.windowPages := by
  obtain ⟨l₀, rfl, -, tabs, hd, -, -⟩ := hp.head
  have hmem : stackPage ∈ l₀.diff (plan.claimed rb re) := by
    rw [hd]
    simp
  rw [(List.nodup_cons.mp h.inv.free.nodup).2.mem_sdiff_iff] at hmem
  intro hw
  cases hr : pageInRange stackPage rb re with
  | true => exact (h.reusable stackPage (hv.windowPages_page hw) hr).1 (by simp [hmem.1])
  | false => exact hmem.2 (mem_unowned.mpr ⟨hw, hr⟩)

/-- A byte of the image, read through the new address space. -/
lemma Prepared.image_byte (hv : plan.Valid imageSize firstUserLayout)
    (hp : Prepared K entry rb re image plan s own l a stackPage s' own' l') {i : ℕ}
    (hi : i < plan.span.toNat) :
    userByte s'.mem a (firstUserLayout.imageBase + BitVec.ofNat 64 i) =
      some (loadedByte image plan.phdrs (plan.vaddrBegin.toNat + i)) := by
  have hspan := hv.span_eq
  have hcnt := hv.pageCount_le
  have hbase : firstUserLayout.imageBase.toNat = 0x40001000 := rfl
  have hvi : (firstUserLayout.imageBase + BitVec.ofNat 64 i).toNat = 0x40001000 + i := by
    rw [BitVec.toNat_add, BitVec.toNat_ofNat, hbase]
    omega
  have hpage : pageAddress (firstUserLayout.imageBase + BitVec.ofNat 64 i) =
      firstUserLayout.imageBase + BitVec.ofNat 64 (4096 * (i / 4096)) := by
    apply BitVec.eq_of_toNat_eq
    rw [pageAddress, toNat_alignDown, hvi, imagePage_toNat hv (i := i / 4096) (by omega)]
    omega
  have hframe : (elfUserLoadBase + BitVec.ofNat 64 (4096 * (i / 4096))).toNat =
      0x02100000 + 4096 * (i / 4096) := by
    rw [BitVec.toNat_add, BitVec.toNat_ofNat, ElfPlan.toNat_base]
    omega
  have hmem : (firstUserLayout.imageBase + BitVec.ofNat 64 (4096 * (i / 4096)),
      elfUserLoadBase + BitVec.ofNat 64 (4096 * (i / 4096))) ∈ plan.userPages entry stackPage := by
    refine List.mem_append_left _ (List.mem_map.mpr ⟨i / 4096, List.mem_range.mpr (by omega), ?_⟩)
    rw [mul_page, mul_page]
  have hwalk := hp.translation_user hv hmem (by omega)
  rw [← hpage, mmuWalk_pageAddress] at hwalk
  have hal : pageAddress (elfUserLoadBase + BitVec.ofNat 64 (4096 * (i / 4096))) =
      elfUserLoadBase + BitVec.ofNat 64 (4096 * (i / 4096)) := alignDown_of_aligned (by omega)
  rw [hal] at hwalk
  rw [userByte, hwalk, Option.map_some, hframe, hvi, ← hp.window i hi]
  congr 2
  omega

end Image

/-- The loaded program is the image: user mode reads at `image_base + i` the byte
that the last segment covering it defines. Trampoline and stack lie elsewhere. -/
theorem prepared_reads_image {entry imageSize : Word} {pre s₀ s s' : Phys} {l₀ spaces : List Word}
    {current : Option UserTaskBootstrap} {image : Mem} {bootstrap : UserTaskBootstrap}
    (hentry : entry.toNat < 2 ^ 52) (hfree : FreeList pre l₀)
    (hboot : pagingInitialize pre = .ok s₀) (hrun : ExecRun entry s₀ s spaces)
    (hlend : LendsOwnPages s spaces current)
    (hprep : syscallPrepareExecBootstrap entry s image imageSize current =
      .ok (some bootstrap, s')) :
    ∃ plan, execPlan image imageSize = some plan ∧
      plan.phdrs = elfProgramHeaders image (elfHeader image) ∧
      (∀ i, i < plan.span.toNat → ∃ byte,
        userByte s'.mem bootstrap.addressSpace (bootstrap.layout.imageBase + BitVec.ofNat 64 i) =
          some byte ∧ ImageByte image plan.phdrs (plan.vaddrBegin.toNat + i) byte) ∧
      (∀ v, OnImagePage bootstrap.layout plan.span v →
        pageAddress v ≠ bootstrap.layout.trampolineBase ∧
        pageAddress v ≠ bootstrap.layout.stackTop - 4096#64) ∧
      bootstrap.layout.trampolineBase ≠ bootstrap.layout.stackTop - 4096#64 ∧
      ¬ (bootstrap.imagePhysicalBegin ≤ bootstrap.userStackPage ∧
        bootstrap.userStackPage < bootstrap.imagePhysicalEnd) := by
  obtain ⟨K, l₁, own, l, plan, a, stackPage, own', l', hb, h, -, -, hplan, rfl, hp⟩ :=
    hrun.prepared_of_run hentry hfree hboot hlend hprep
  obtain ⟨hv, hphdrs, -⟩ := elfCheck_valid hplan
  have hctx := h.run.execContext hb.limit_pos hlend
  refine ⟨plan, hplan, hphdrs, fun i hi => ⟨_, hp.image_byte hv hi, imageByte_loadedByte _ _ _⟩, ?_,
    show firstUserLayout.trampolineBase ≠ firstUserLayout.stackTop - 4096#64 by decide, ?_⟩
  · rintro v ⟨i, hi, he⟩
    have hi : i < plan.pageCount := hi
    have hn := imagePage_toNat hv hi
    have hc := hv.pageCount_le
    have hbase : firstUserLayout.trampolineBase.toNat = 0x40000000 := rfl
    have hstack : (firstUserLayout.stackTop - 4096#64).toNat = 0x401FF000 := by decide
    have he : pageAddress v = firstUserLayout.imageBase + BitVec.ofNat 64 (4096 * i) := he
    have hne : ∀ w : Word, pageAddress v = w → w.toNat = 0x40001000 + 4096 * i := by
      rintro w rfl
      rw [he, hn]
    constructor <;> intro heq <;> have hw := hne _ heq
    · have hw : firstUserLayout.trampolineBase.toNat = 0x40001000 + 4096 * i := hw
      omega
    · have hw : (firstUserLayout.stackTop - 4096#64).toNat = 0x40001000 + 4096 * i := hw
      omega
  · rintro ⟨hge, hlt⟩
    have hstack : IsPage stackPage := h.run.inv.free.pages stackPage hp.stack_mem
    refine hp.stack_not_window hctx hv ((mem_windowPages_of_range hv hstack).mp ?_)
    have hne : elfUserLoadBase ≠ 0#64 := by decide
    have hge : elfUserLoadBase ≤ stackPage := hge
    have hlt : stackPage < plan.physicalEnd := hlt
    simp [pageInRange, hne, hge, hlt]

/-- Below 2⁴⁷ exactly the intended pages are open to user mode, and every other
page translates as in the kernel's address space. -/
theorem prepared_userAccessible {entry imageSize : Word} {pre s₀ s s' : Phys} {l₀ spaces : List Word}
    {current : Option UserTaskBootstrap} {image : Mem} {bootstrap : UserTaskBootstrap}
    (hentry : entry.toNat < 2 ^ 52) (hfree : FreeList pre l₀)
    (hboot : pagingInitialize pre = .ok s₀) (hrun : ExecRun entry s₀ s spaces)
    (hlend : LendsOwnPages s spaces current)
    (hprep : syscallPrepareExecBootstrap entry s image imageSize current =
      .ok (some bootstrap, s')) :
    ∃ plan, execPlan image imageSize = some plan ∧ ∀ v : Word, v.toNat < 2 ^ 47 →
      ((∃ t, mmuWalk s'.mem bootstrap.addressSpace v = some t ∧ t.user = true) ↔
        IntendedPage bootstrap.layout plan.span v) ∧
      (¬ IntendedPage bootstrap.layout plan.span v →
        mmuWalk s'.mem bootstrap.addressSpace v = mmuWalk s'.mem s'.pagingKernelPml4 v) := by
  obtain ⟨K, l₁, own, l, plan, a, stackPage, own', l', hb, h, -, -, hplan, rfl, hp⟩ :=
    hrun.prepared_of_run hentry hfree hboot hlend hprep
  have hv := (elfCheck_valid hplan).1
  have hstack := (h.run.inv.free.pages stackPage hp.stack_mem).lt
  refine ⟨plan, hplan, fun v hlt => ?_⟩
  have hiff : pageAddress v ∈ plan.userVirtualPages ↔ IntendedPage firstUserLayout plan.span v :=
    ElfPlan.mem_userVirtualPages_iff
  have hpages : pageAddress v ∈ plan.userVirtualPages ↔
      ∃ p, (pageAddress v, p) ∈ plan.userPages entry stackPage :=
    ElfPlan.mem_userVirtualPages entry stackPage
  have hkernel : ¬ IntendedPage firstUserLayout plan.span v →
      mmuWalk s'.mem a v = mmuWalk s'.mem s'.pagingKernelPml4 v := by
    intro hno
    rw [hp.inv.root]
    exact (hp.translation hv (.inl hlt)).resolve_left fun hpg => hno (hiff.mp (hpages.mpr hpg))
  refine ⟨⟨fun ⟨t, ht, hu⟩ => ?_, fun hpg => ?_⟩, hkernel⟩
  · by_contra hno
    change mmuWalk s'.mem a v = some t at ht
    rw [hkernel hno, hp.inv.root] at ht
    rw [hp.inv.kernel_supervisor ht] at hu
    cases hu
  · obtain ⟨p, hvp⟩ := hpages.mp (hiff.mpr hpg)
    have hwalk := hp.translation_user hv hvp (ElfPlan.userPages_lt hv hstack hentry hvp)
    rw [mmuWalk_pageAddress] at hwalk
    exact ⟨_, hwalk, rfl⟩

/-- The first program of a 64 MiB machine reads a byte of its image. -/
theorem prepared_reads_image_sample : ∃ s₀ s bootstrap byte,
    pagingInitialize (pallocInitialize (coldMachine 0x4000#64)) = .ok s₀ ∧
    syscallPrepareExecBootstrap 0x00100000#64 s₀ (sampleImage 1) 120#64 none =
      .ok (some bootstrap, s) ∧
    userByte s.mem bootstrap.addressSpace (bootstrap.layout.imageBase + 5#64) = some byte ∧
    ImageByte (sampleImage 1) (samplePlan 1#64).phdrs 0x1005 byte := by
  obtain ⟨l, s₀, K, l₀, a, stackPage, s, own, l₁, hl, -, -, hs₀, hb, hrun, hprep⟩ :=
    coldMachine_prepares 0x4000#64 0x06000000#64 0x00100000#64
      (by decide) (by decide) (by decide) (by decide) (by decide) execPlan_one
  obtain ⟨plan, hplan, -, hbytes, -⟩ :=
    prepared_reads_image (by decide) hl.list hs₀ .boot (lendsOwnPages_none s₀) hrun
  obtain rfl := Option.some.inj (hplan.symm.trans execPlan_one)
  obtain ⟨byte, hbyte, himage⟩ := hbytes 5 (by decide)
  exact ⟨s₀, s, _, byte, hs₀, hrun, hbyte, himage⟩

/-- Its trampoline is open to user mode, the page below the layout is not. -/
theorem prepared_userAccessible_sample : ∃ s₀ s bootstrap,
    pagingInitialize (pallocInitialize (coldMachine 0x4000#64)) = .ok s₀ ∧
    syscallPrepareExecBootstrap 0x00100000#64 s₀ (sampleImage 1) 120#64 none =
      .ok (some bootstrap, s) ∧
    (∃ t, mmuWalk s.mem bootstrap.addressSpace 0x40000000#64 = some t ∧ t.user = true) ∧
    ¬ ∃ t, mmuWalk s.mem bootstrap.addressSpace 0x3FFFF000#64 = some t ∧ t.user = true := by
  obtain ⟨l, s₀, K, l₀, a, stackPage, s, own, l₁, hl, -, -, hs₀, hb, hrun, hprep⟩ :=
    coldMachine_prepares 0x4000#64 0x06000000#64 0x00100000#64
      (by decide) (by decide) (by decide) (by decide) (by decide) execPlan_one
  obtain ⟨plan, hplan, hacc⟩ :=
    prepared_userAccessible (by decide) hl.list hs₀ .boot (lendsOwnPages_none s₀) hrun
  obtain rfl := Option.some.inj (hplan.symm.trans execPlan_one)
  refine ⟨s₀, s, _, hs₀, hrun, (hacc 0x40000000#64 (by decide)).1.mpr (.inl ?_), ?_⟩
  · show pageAddress 0x40000000#64 = firstUserLayout.trampolineBase
    decide
  rw [(hacc 0x3FFFF000#64 (by decide)).1]
  change ¬ IntendedPage firstUserLayout 4096#64 0x3FFFF000#64
  rintro (h | ⟨i, hi, h⟩ | h)
  · exact absurd h (by decide)
  · have hi : i < 1 := hi
    obtain rfl : i = 0 := by omega
    exact absurd h (by decide)
  · exact absurd h (by decide)

end Platinum
