import Platinum.SeedLeak
import Platinum.SyscallPointers
import Platinum.UserRelease
import Platinum.UserRun

/-!
# The stages of exec

`SYS_EXEC` looks up an image, prepares a program and hands it over. Each stage
is described once, for any state of the page allocator and of the heap.
-/
namespace Platinum
open ByteMemory BlockList SharedTrie

/-- A page that is neither free nor a page table. -/
structure HeldPage (K : KernelTables) (own : Owner) (l : List Word) (p : Word) : Prop where
  page : IsPage p
  used : p ∉ l
  unowned : own p = none
  apart : ¬ K.IsTable p

/-- The pages of the running program. -/
structure CallerPages (K : KernelTables) (own : Owner) (s : Phys) (caller : UserTaskBootstrap)
    (l spaces : List Word) : Prop where
  inv : ExecRunInv K own s l spaces
  limit : 0 < K.limit
  space : caller.addressSpace ∈ spaces
  loaded : s.cr3 = caller.addressSpace
  layout : caller.layout = firstUserLayout
  image : ∀ p ∈ caller.imagePages, HeldPage K own l p
  stack : HeldPage K own l caller.userStackPage
  apart : caller.userStackPage ∉ caller.imagePages

/-- The descriptors of the running task. The references `held` belong to the other
task, the blocks `others` to the rest of the kernel. -/
structure CallerFds (others held : List Word) (k : Store) (table : FdTable) (files nodes : List Word) :
    Prop where
  inv : FdInv (HeapWith others) k (tableFiles table ++ held) files nodes
  table : TableOk k table
  few : held.length ≤ 16
  walk : NamespaceOk k

/-- A user task that is running, as `SYS_EXEC` finds it. -/
structure ExecCaller (K : KernelTables) (own : Owner) (k : KernelState) (t : TaskId)
    (caller : UserTaskBootstrap) (l spaces others held files nodes : List Word) : Prop where
  task : k.current = some t
  started : k.schedStarted = true
  bootstrap : schedCurrentUserBootstrap k = some caller
  pages : CallerPages K own k.phys caller l spaces
  fds : CallerFds others held k.store (k.task t).fdTable files nodes

/-- The path names an executable that offers the image; the file it takes to find
out leaves the page allocator as `s`. -/
structure Offers (k : Store) (path : List Byte) (image : Mem) (imageSize : Word) (s : Phys) : Prop where
  executable : ExecutableAt k path
  image : nodeImage (k.node (vfsWalkPath k path)) = some (image, imageSize)
  block : ∃ f k', k.kzalloc vfsFileSize = .ok (f, k') ∧ f ≠ 0#64 ∧ k'.phys = s

section Pages

variable {K : KernelTables} {own own' : Owner} {s s' : Phys} {caller : UserTaskBootstrap}
  {l l' spaces : List Word} {entry rb re a stackPage imageSize p : Word} {image : Mem} {plan : ElfPlan}

lemma HeldPage.mono (h : HeldPage K own l p) (hsub : ∀ q ∈ l', q ∈ l) : HeldPage K own l' p :=
  ⟨h.page, fun hp => h.used (hsub p hp), h.unowned, h.apart⟩

/-- The pages of the image are those in its range. -/
lemma CallerPages.range_iff (h : CallerPages K own s caller l spaces) (hp : IsPage p) :
    pageInRange p caller.imagePhysicalBegin caller.imagePhysicalEnd = true ↔ p ∈ caller.imagePages := by
  have hal := hp.aligned
  set b := caller.imagePhysicalBegin.toNat with hb
  set e := caller.imagePhysicalEnd.toNat with he
  have hbound : b + 4096 * ((e - b + 4095) / 4096) < 2 ^ 64 + 4096 := by
    have := caller.imagePhysicalEnd.isLt
    have := caller.imagePhysicalBegin.isLt
    omega
  -- the first page of an image that is not empty is a page
  have hfirst (hlt : b < e) : IsPage caller.imagePhysicalBegin := by
    refine (h.image _ (List.mem_map.mpr ⟨0, List.mem_range.mpr ?_, by simp⟩)).page
    omega
  have hmem (hlt : b < e) : p ∈ caller.imagePages ↔ b ≤ p.toNat ∧ p.toNat < e := by
    have hbal := (hfirst hlt).aligned
    have hsmall := (hfirst hlt).lt
    have hlast : ∀ i < (e - b + 4095) / 4096,
        (caller.imagePhysicalBegin + BitVec.ofNat 64 (4096 * i)).toNat = b + 4096 * i := by
      intro i hi
      have := caller.imagePhysicalEnd.isLt
      rw [BitVec.toNat_add, BitVec.toNat_ofNat]
      omega
    constructor
    · intro hm
      obtain ⟨i, hi, rfl⟩ := List.mem_map.mp hm
      have hi := List.mem_range.mp hi
      rw [hlast i hi]
      omega
    · rintro ⟨hlo, hhi⟩
      refine List.mem_map.mpr ⟨(p.toNat - b) / 4096, List.mem_range.mpr (by omega), ?_⟩
      refine BitVec.eq_of_toNat_eq ?_
      rw [hlast _ (by omega)]
      omega
  simp only [pageInRange, ne_eq, Bool.and_eq_true, decide_eq_true_eq, BitVec.le_def, BitVec.lt_def,
    ← hb, ← he]
  by_cases hlt : b < e
  · rw [hmem hlt]
    have hne : caller.imagePhysicalBegin ≠ 0#64 := (hfirst hlt).ne_zero
    tauto
  · have hempty : (e - b + 4095) / 4096 = 0 := by omega
    have hnil : p ∉ caller.imagePages := by
      unfold UserTaskBootstrap.imagePages pageSpan
      rw [← hb, ← he, hempty]
      exact List.not_mem_nil
    refine iff_of_false ?_ hnil
    omega

lemma CallerPages.image_nodup (h : CallerPages K own s caller l spaces) : caller.imagePages.Nodup := by
  obtain ⟨n, hn⟩ : ∃ n, (caller.imagePhysicalEnd.toNat - caller.imagePhysicalBegin.toNat + 4095) / 4096 = n :=
    ⟨_, rfl⟩
  have hpages : caller.imagePages = pagesFrom caller.imagePhysicalBegin n := by
    rw [← hn]
    rfl
  cases n with
  | zero => simp [hpages, pagesFrom]
  | succ n =>
    have hlast : IsPage (caller.imagePhysicalBegin + BitVec.ofNat 64 (4096 * n)) := by
      refine (h.image _ ?_).page
      rw [hpages]
      exact List.mem_map.mpr ⟨n, by simp, rfl⟩
    have hlt := hlast.lt
    have hend := caller.imagePhysicalEnd.isLt
    rw [BitVec.toNat_add, BitVec.toNat_ofNat] at hlt
    rw [hpages]
    refine nodup_pagesFrom ?_
    omega

/-- What a preparation may assume of the caller. -/
lemma CallerPages.exec (h : CallerPages K own s caller l spaces) :
    ExecContext K own s l caller.imagePhysicalBegin caller.imagePhysicalEnd where
  inv := h.inv.run.inv
  limit := h.limit
  reusable p hp hr :=
    have hheld := h.image p ((h.range_iff hp).mp hr)
    ⟨hheld.used, hheld.unowned, hheld.apart⟩

/-- The heap may take free pages. -/
lemma PagingInv.grown (h : PagingInv K own s l) (hg : Grown s s') :
    ∃ n, PagingInv K own s' (l.drop n) := by
  obtain ⟨n, hn⟩ := hg.free l h.free
  refine ⟨n, hn, hg.globals.kernelPml4.trans h.root, ?_, ?_, fun p hp => ?_, fun p hp => ?_⟩
  · rw [hg.mem]
    exact h.kernel
  · rw [hg.mem]
    exact h.tables
  · exact h.free_own p (List.mem_of_mem_drop hp)
  · exact h.free_kernel p (List.mem_of_mem_drop hp)

lemma ExecRunInv.grown (h : ExecRunInv K own s l spaces) (hg : Grown s s') :
    ∃ n, ExecRunInv K own s' (l.drop n) spaces := by
  obtain ⟨n, hn⟩ := h.run.inv.grown hg
  exact ⟨n, ⟨hn, h.run.space, h.run.owner⟩, h.positions⟩

lemma CallerPages.grown (h : CallerPages K own s caller l spaces) (hg : Grown s s') :
    ∃ n, CallerPages K own s' caller (l.drop n) spaces := by
  obtain ⟨n, hn⟩ := h.inv.grown hg
  exact ⟨n, hn, h.limit, h.space,
    hg.globals.cr3.trans h.loaded, h.layout,
    fun p hp => (h.image p hp).mono fun q hq => List.mem_of_mem_drop hq,
    h.stack.mono fun q hq => List.mem_of_mem_drop hq, h.apart⟩

lemma Prepared.held (hp : Prepared K entry rb re image plan s own l a stackPage s' own' l')
    (h : HeldPage K own l p) : HeldPage K own' l' p := by
  obtain ⟨hsub, hnew⟩ := hp.taken_free
  refine ⟨h.page, fun hm => h.used (hsub p hm), ?_, h.apart⟩
  cases ho : own' p with
  | none => rfl
  | some x =>
    obtain ⟨b, ρ⟩ := x
    by_cases hb : b = a
    · subst hb
      exact absurd (hnew p ρ ho) h.used
    · have hold := h.unowned
      rw [hp.other_own p b ρ ho hb] at hold
      cases hold

/-- The image and the stack of a prepared program are neither free nor tables. -/
lemma Prepared.held_pages (hp : Prepared K entry rb re image plan s own l a stackPage s' own' l')
    (h : ExecContext K own s l rb re) (hplan : execPlan image imageSize = some plan) :
    ∀ p ∈ (plan.bootstrap entry a stackPage).userStackPage ::
      (plan.bootstrap entry a stackPage).imagePages, HeldPage K own' l' p := by
  have hv := (elfCheck_valid hplan).1
  rw [ElfPlan.imagePages_bootstrap hv]
  intro p hpp
  rcases List.mem_cons.mp hpp with rfl | hpp
  · obtain ⟨hpage, hl, ho, hk⟩ := hp.own_stack h
    exact ⟨hpage, hl, ho, hk⟩
  · obtain ⟨hl, ho, hk⟩ := hp.own_pages h hv hpp
    exact ⟨hv.windowPages_page hpp, hl, ho, hk⟩

/-- The caller's stack is not part of the new image. -/
lemma CallerPages.stack_not_window (h : CallerPages K own s caller l spaces)
    (hp : Prepared K entry caller.imagePhysicalBegin caller.imagePhysicalEnd image plan s own l a stackPage
      s' own' l') : caller.userStackPage ∉ plan.windowPages := by
  intro hw
  cases hr : pageInRange caller.userStackPage caller.imagePhysicalBegin caller.imagePhysicalEnd with
  | true => exact h.apart ((h.range_iff h.stack.page).mp hr)
  | false =>
    obtain ⟨l₀, rfl, hav, -⟩ := hp.head
    exact h.stack.used (List.mem_cons_of_mem a (hav _ (mem_unowned.mpr ⟨hw, hr⟩)))

/-- Distinct pages that are neither free nor tables. -/
lemma HoldsPages.of_held {v : UserTaskBootstrap} (h : RunInv K own s l spaces)
    (ha : v.addressSpace ∈ spaces) (hall : ∀ p ∈ v.userStackPage :: v.imagePages, HeldPage K own l p)
    (hnd : (v.userStackPage :: v.imagePages).Nodup) : HoldsPages s spaces l v := by
  refine ⟨ha, fun p hp => (hall p hp).page, hnd, fun p hp => (hall p hp).used, fun p hp ht => ?_⟩
  rcases h.inUse_owned ht with ⟨x, hx⟩ | hk
  · rw [(hall p hp).unowned] at hx
    cases hx
  · exact (hall p hp).apart hk

lemma CallerPages.held (h : CallerPages K own s caller l spaces) :
    ∀ p ∈ caller.userStackPage :: caller.imagePages, HeldPage K own l p :=
  List.forall_mem_cons.mpr ⟨h.stack, h.image⟩

lemma CallerPages.holds (h : CallerPages K own s caller l spaces) : HoldsPages s spaces l caller :=
  .of_held h.inv.run h.space h.held
    (List.nodup_cons.mpr ⟨h.apart, h.image_nodup⟩)

/-- A prepared program holds its pages, whatever the heap takes. -/
lemma Prepared.holds {s₂ : Phys} {l₂ : List Word}
    (hp : Prepared K entry rb re image plan s own l a stackPage s' own' l')
    (h : ExecContext K own s l rb re) (hplan : execPlan image imageSize = some plan)
    (h₂ : RunInv K own' s₂ l₂ (a :: spaces)) (hsub : ∀ p ∈ l₂, p ∈ l') :
    HoldsPages s₂ (a :: spaces) l₂ (plan.bootstrap entry a stackPage) := by
  have hv := (elfCheck_valid hplan).1
  refine .of_held h₂ (by simp [ElfPlan.bootstrap])
    (fun p hpp => (hp.held_pages h hplan p hpp).mono hsub) (List.nodup_cons.mpr ?_)
  rw [ElfPlan.imagePages_bootstrap hv]
  exact ⟨hp.stack_not_window h hv, hv.windowPages_nodup⟩

/-- Writing to a page that is no table. -/
lemma ExecRunInv.written (h : ExecRunInv K own s l spaces) (hheld : HeldPage K own l p) {m : Mem}
    (hm : ChangesOnly {p} s.mem m) : ExecRunInv K own { s with mem := m } l spaces := by
  have hpage : ∀ q ∈ ({p} : Set Word), q.toNat % 4096 = 0 := by
    rintro q rfl
    exact hheld.page.aligned
  have hslot {q : Word} (hq : q.toNat % 4096 = 0) (hne : q ≠ p) (i : Index) :
      slot m q i = slot s.mem q i := hm.slot hpage hq hne i
  refine ⟨⟨⟨h.run.inv.free.frame rfl hm hpage (by rintro q rfl; exact hheld.used), h.run.inv.root, ?_, ?_,
    h.run.inv.free_own, h.run.inv.free_kernel⟩, h.run.space, h.run.owner⟩, h.positions⟩
  · intro π q i hd hn
    rw [← h.run.inv.kernel π q i hd hn]
    exact hslot (K.isTable_page ⟨π, hd, hn⟩).aligned (by rintro rfl; exact hheld.apart ⟨π, hd, hn⟩) i
  · refine h.run.inv.tables.congr fun q b π i hq => hslot (h.run.inv.own_page hq).aligned ?_ i
    rintro rfl
    rw [hheld.unowned] at hq
    cases hq

lemma CallerPages.written (h : CallerPages K own s caller l spaces) (hheld : HeldPage K own l p) {m : Mem}
    (hm : ChangesOnly {p} s.mem m) : CallerPages K own { s with mem := m } caller l spaces :=
  ⟨h.inv.written hheld hm, h.limit, h.space, h.loaded, h.layout, h.image, h.stack, h.apart⟩

end Pages

/-- The caller's descriptors were closed and a console was seeded, or not. -/
structure Reseeded (k : KernelState) (bootstrap : UserTaskBootstrap) (table : FdTable) (store₁ : Store)
    (seeded : Bool) (fdTable : FdTable) (store₂ : Store) : Prop where
  closed : fdTableCloseAll (framedStore k bootstrap) table = .ok (fdTableInitialize, store₁)
  seed : fdTableSeedConsole store₁ fdTableInitialize = .ok (seeded, fdTable, store₂)
  phys : store₁.phys = (framedStore k bootstrap).phys
  grown : Grown store₁.phys store₂.phys
  served : seeded = true ↔ Serves store₁.heap store₁.phys seedSizes
  failed : seeded = false → fdTable = fdTableInitialize

section Fds

variable {h : Heap} {s s' : Phys} {k : Store} {table : FdTable}
  {l l' ptrs others held files nodes : List Word}

lemma HeapWith.shrink (hw : HeapWith others h s ptrs) (hl : FreeList s l) (hl' : FreeList s' l')
    (hsub : ∀ p ∈ l', p ∈ l) : HeapWith others h s' ptrs := by
  rw [← heapBeside_none] at hw ⊢
  exact hw.shrink hl hl' hsub

lemma CallerFds.small (h : CallerFds others held k table files nodes) :
    (tableFiles table ++ held).length ≤ 32 := by
  have htable := tableFiles_length table
  have hfew := h.few
  rw [List.length_append]
  omega

/-- The objects stay when the page allocator changes, if the heap does not mind. -/
lemma CallerFds.setPhys (h : CallerFds others held k table files nodes)
    (hheap : HeapWith others k.heap s' (objectPtrs k files nodes)) :
    CallerFds others held { k with phys := s' } table files nodes := by
  have hkept : Kept k { k with phys := s' } files nodes :=
    ⟨fun _ _ => rfl, fun _ _ => rfl, fun _ _ => rfl, fun _ _ => rfl, fun _ _ => rfl, rfl, rfl⟩
  exact ⟨⟨h.inv.counts.congr rfl rfl, hheap⟩,
    h.table.grow h.inv.counts hkept fun f hf => List.mem_append_left _ hf, h.few, h.walk⟩

/-- The page allocator may change as long as it hands out no other pages. -/
lemma CallerFds.shrink (h : CallerFds others held k table files nodes) (hl : FreeList k.phys l)
    (hl' : FreeList s' l') (hsub : ∀ p ∈ l', p ∈ l) :
    CallerFds others held { k with phys := s' } table files nodes :=
  h.setPhys (h.inv.heap.shrink hl hl' hsub)

/-- A console that was seeded beside the references of the other task. -/
lemma SeedOutcome.fds {pages : Set Word} {k' : Store} {fdTable : FdTable} {files' nodes' : List Word}
    {seeded : Bool}
    (hout : SeedOutcome (HeapBeside pages others) False k held files nodes seeded k' fdTable files' nodes')
    (hfew : held.length ≤ 16) (hwalk : NamespaceOk k) : CallerFds others held k' fdTable files' nodes' :=
  ⟨⟨hout.step.inv.counts, hout.step.inv.heap.heapWith⟩, hout.step.table, hfew,
    hwalk.congr hout.step.root hout.step.ready⟩

end Fds

section Stages

variable {K : KernelTables} {own own' : Owner} {k k' : KernelState} {t : TaskId}
  {caller bootstrap : UserTaskBootstrap}
  {l l' spaces others held files nodes : List Word} {s s' : Phys} {image : Mem}
  {imageSize a stackPage entry : Word} {plan : ElfPlan} {path : List Byte} {reusable : Word × Word}
  {b : Build}

lemma schedCurrentUserBootstrap_congr (hcur : k'.current = k.current) (htask : k'.task = k.task) :
    schedCurrentUserBootstrap k' = schedCurrentUserBootstrap k := by
  unfold schedCurrentUserBootstrap
  rw [hcur, htask]

/-- The running program's bootstrap is the task's. -/
lemma ExecCaller.running (h : ExecCaller K own k t caller l spaces others held files nodes) :
    (k.task t).kind = .user ∧ (k.task t).state = .running ∧ (k.task t).userBootstrap = caller := by
  have hb := h.bootstrap
  unfold schedCurrentUserBootstrap at hb
  rw [h.task] at hb
  dsimp only at hb
  split_ifs at hb with h₁ h₂
  push Not at h₁
  exact ⟨h₁.1, h₁.2, Option.some.inj hb⟩

/-- Other objects and a heap that took pages do not concern the task. -/
lemma ExecCaller.setStore (h : ExecCaller K own k t caller l spaces others held files nodes)
    {store : Store} {files' : List Word}
    (hfds : FdInv (HeapWith others) store (tableFiles (k.task t).fdTable ++ held) files' nodes)
    (hkept : Kept k.store store files nodes) (hg : Grown k.phys store.phys) :
    ∃ n, ExecCaller K own (k.setStore store) t caller (l.drop n) spaces others held files' nodes := by
  obtain ⟨n, hpages⟩ := h.pages.grown hg
  exact ⟨n, h.task, h.started, (schedCurrentUserBootstrap_congr rfl rfl).trans h.bootstrap, hpages, hfds,
    h.fds.table.grow h.fds.inv.counts hkept fun f hf => List.mem_append_left _ hf, h.fds.few,
    h.fds.walk.congr hkept.root hkept.ready⟩

/-- A page that is not free may be written. -/
lemma ExecCaller.written (h : ExecCaller K own k t caller l spaces others held files nodes) {p : Word}
    (hheld : HeldPage K own l p) {m : Mem} (hm : ChangesOnly {p} k.phys.mem m) :
    ExecCaller K own (k.setPhys { k.phys with mem := m }) t caller l spaces others held files nodes := by
  have hpages := h.pages.written hheld hm
  exact ⟨h.task, h.started, (schedCurrentUserBootstrap_congr rfl rfl).trans h.bootstrap, hpages,
    h.fds.shrink h.pages.inv.run.inv.free hpages.inv.run.inv.free fun q hq => hq⟩

/-- Looking up an image takes no more than pages for the heap. -/
theorem ExecCaller.lookup (h : ExecCaller K own k t caller l spaces others held files nodes)
    (path : List Byte) :
    ∃ found store files' n, syscallExecImage k.store path = .ok (found, store) ∧
      ExecCaller K own (k.setStore store) t caller (l.drop n) spaces others held files' nodes ∧
      Grown k.phys store.phys ∧ Unchanged k.store store files nodes ∧
      (∀ image imageSize s, Offers k.store path image imageSize s ↔
        found = some (image, imageSize) ∧ s = store.phys) := by
  have hsmall := h.fds.small
  obtain ⟨f, heap', s', halloc, hg, -, hmade⟩ :=
    (heapWith_spec others).makeFile h.fds.inv.heap trivial
  have hout := h.fds.inv.lookup (heapWith_spec others) h.fds.walk trivial (by omega) path
  have hnothing (hno : ∀ image imageSize s, ¬ Offers k.store path image imageSize s) :
      ∃ found store files' n, (.ok (none, k.store) : Run _) = .ok (found, store) ∧
        ExecCaller K own (k.setStore store) t caller (l.drop n) spaces others held files' nodes ∧
        Grown k.phys store.phys ∧ Unchanged k.store store files nodes ∧
        (∀ image imageSize s, Offers k.store path image imageSize s ↔
          found = some (image, imageSize) ∧ s = store.phys) :=
    ⟨none, k.store, files, 0, rfl, h, Grown.refl _, Unchanged.refl _ _ _, fun image imageSize s =>
      iff_of_false (hno image imageSize s) (by simp)⟩
  generalize syscallExecImage k.store path = x at hout
  cases hout with
  | absent hpath => exact hnothing fun _ _ _ ho => hpath ho.executable
  | unmade hpath hmake =>
    refine hnothing fun _ _ _ ho => ?_
    obtain ⟨f₁, k₁, halloc₁, hf₁, -⟩ := ho.block
    cases halloc.symm.trans halloc₁
    rcases hmade with ⟨hf, -⟩ | ⟨hf, -, hmake'⟩
    · exact hf₁ hf
    · exact hf (Prod.mk.inj (Except.ok.inj (hmake.symm.trans (hmake' _ _)))).1.symm
  | @found f₁ k₁ store files' hpath hmake hf hinv hkept hsame hphys hev =>
    rcases hmade with ⟨-, hmake'⟩ | ⟨-, -, hmake'⟩
    · cases hmake.symm.trans (hmake' _ _)
      exact absurd rfl hf
    cases hmake.symm.trans (hmake' _ _)
    have hg : Grown k.phys store.phys := hphys ▸ hg
    obtain ⟨n, hcaller⟩ := h.setStore hinv hkept hg
    refine ⟨_, store, files', n, rfl, hcaller, hg, hsame, fun image imageSize s => ⟨fun ho => ?_, ?_⟩⟩
    · obtain ⟨f₁, k₁, halloc₁, -, hs⟩ := ho.block
      cases halloc.symm.trans halloc₁
      exact ⟨ho.image, hs.symm.trans hphys.symm⟩
    · rintro ⟨he, rfl⟩
      exact ⟨hpath, he, f, _, halloc, hf, hphys.symm⟩

/-- Building the stack changes its page only. -/
lemma framedStore_eq (k : KernelState) (s' : Phys) (bootstrap : UserTaskBootstrap) :
    ∃ m, framedStore (k.setPhys s') bootstrap = { k.store with phys := { s' with mem := m } } ∧
      ChangesOnly {bootstrap.userStackPage} s'.mem m :=
  ⟨pushWords s'.mem bootstrap.userStackPage (userFrame bootstrap), rfl, pushWords_frame (by simp [userFrame])⟩

/-- The heap and the descriptors once the new program's stack is built. -/
lemma ExecCaller.framed (h : ExecCaller K own k t caller l spaces others held files nodes)
    (hp : Prepared K entry caller.imagePhysicalBegin caller.imagePhysicalEnd image plan k.phys own l a
      stackPage s' own' l') (hb : bootstrap.userStackPage = stackPage) :
    FreeList (framedStore (k.setPhys s') bootstrap).phys l' ∧
      CallerFds others held (framedStore (k.setPhys s') bootstrap) (k.task t).fdTable files nodes := by
  obtain ⟨hpage, hl', -⟩ := hp.own_stack h.pages.exec
  subst hb
  obtain ⟨m, hstore, hframe⟩ := framedStore_eq k s' bootstrap
  rw [hstore]
  have hfree : FreeList { s' with mem := m } l' :=
    hp.inv.free.frame rfl hframe (by rintro q rfl; exact hpage.aligned) (by rintro q rfl; exact hl')
  exact ⟨hfree, h.fds.shrink h.pages.inv.run.inv.free hfree hp.taken_free.1⟩

/-- Whatever the heap: with the descriptors closed the console is seeded, or is not. -/
lemma FdInv.reseed {H : Heap → Phys → List Word → Prop} {table : FdTable}
    (hspec : HeapSpec H (fun _ => True) False)
    (hinv : FdInv H (framedStore k bootstrap) (tableFiles table ++ held) files nodes)
    (htable : TableOk (framedStore k bootstrap) table) (hfew : held.length ≤ 16) :
    ∃ store₁ seeded fdTable store₂ files' nodes',
      Reseeded k bootstrap table store₁ seeded fdTable store₂ ∧
      FdInv H store₂ (tableFiles fdTable ++ held) files' nodes' ∧ TableOk store₂ fdTable ∧
      store₂.namespaceRootEntries = (framedStore k bootstrap).namespaceRootEntries ∧
      store₂.namespaceReady = (framedStore k bootstrap).namespaceReady := by
  obtain ⟨store₁, files₁, nodes₁, hclose, hstep₁, hphys₁, -⟩ := hinv.closeAll hspec htable
  have hinv₁ := hstep₁.inv
  rw [tableFiles_initial, List.nil_append] at hinv₁
  obtain ⟨seeded, fdTable, store₂, files₂, nodes₂, hseed, hout⟩ :=
    hinv₁.seed hspec hfew fun _ _ => trivial
  obtain ⟨seeded', fdTable', store₂', hseed', -, hserved⟩ := hspec.seed hinv₁.heap fun _ _ => trivial
  obtain ⟨rfl, rfl, rfl⟩ : seeded' = seeded ∧ fdTable' = fdTable ∧ store₂' = store₂ := by
    simpa using hseed'.symm.trans hseed
  exact ⟨store₁, seeded', fdTable', store₂', files₂, nodes₂,
    ⟨hclose, hseed, hphys₁, hout.grown, hserved, fun hs => (hout.failed hs).1⟩, hout.step.inv,
    hout.step.table, hout.step.root.trans hstep₁.root, hout.step.ready.trans hstep₁.ready⟩

/-- With the descriptors closed the console is seeded, or is not. -/
theorem ExecCaller.reseed (h : ExecCaller K own k t caller l spaces others held files nodes)
    (hp : Prepared K entry caller.imagePhysicalBegin caller.imagePhysicalEnd image plan k.phys own l a
      stackPage s' own' l') (hb : bootstrap.userStackPage = stackPage) :
    ∃ store₁ seeded fdTable store₂ files' nodes',
      Reseeded (k.setPhys s') bootstrap (k.task t).fdTable store₁ seeded fdTable store₂ ∧
      CallerFds others held store₂ fdTable files' nodes' := by
  obtain ⟨-, hfds⟩ := h.framed hp hb
  obtain ⟨store₁, seeded, fdTable, store₂, files', nodes', hr, hinv, htable, hroot, hready⟩ :=
    hfds.inv.reseed (heapWith_spec others) hfds.table hfds.few
  exact ⟨store₁, seeded, fdTable, store₂, files', nodes', hr, hinv, htable, hfds.few,
    hfds.walk.congr hroot hready⟩

/-- Seeding changes no memory but the new program's stack, and takes no more than
pages for the heap. -/
lemma ExecCaller.reseeded (h : ExecCaller K own k t caller l spaces others held files nodes)
    (hp : Prepared K entry caller.imagePhysicalBegin caller.imagePhysicalEnd image plan k.phys own l a
      stackPage s' own' l') (hb : bootstrap.userStackPage = stackPage) {store₁ store₂ : Store}
    {seeded : Bool} {table fdTable : FdTable}
    (hr : Reseeded (k.setPhys s') bootstrap table store₁ seeded fdTable store₂) :
    ∃ n, ExecRunInv K own' store₂.phys (l'.drop n) (a :: spaces) ∧
      store₂.phys.mem = pushWords s'.mem stackPage (userFrame bootstrap) ∧
      SameGlobals s' store₂.phys := by
  obtain ⟨hpage, hl', ho, hk⟩ := hp.own_stack h.pages.exec
  subst hb
  have hframe : ChangesOnly {bootstrap.userStackPage} s'.mem
      (pushWords s'.mem bootstrap.userStackPage (userFrame bootstrap)) :=
    pushWords_frame (by simp [userFrame])
  have hphys : store₁.phys = { s' with
      mem := pushWords s'.mem bootstrap.userStackPage (userFrame bootstrap) } := hr.phys
  have hmem := hr.grown.mem
  have hglobals := hr.grown.globals
  have hgrown := hr.grown
  rw [hphys] at hmem hglobals hgrown
  generalize pushWords s'.mem bootstrap.userStackPage (userFrame bootstrap) = m at *
  have hheld : HeldPage K own' l' bootstrap.userStackPage := ⟨hpage, hl', ho, hk⟩
  obtain ⟨n, hn⟩ := ((h.pages.inv.prepared hp).written hheld hframe).grown hgrown
  exact ⟨n, hn, hmem, ((SameGlobals.refl s').mem m).trans hglobals⟩

/-- A prepared program passes the guards of a transfer. -/
lemma ExecCaller.ready (h : ExecCaller K own k t caller l spaces others held files nodes)
    (hrun : syscallPrepareExecBootstrap entry k.phys image imageSize (some caller) =
      .ok (some bootstrap, s')) : TransferReady (k.setPhys s') t bootstrap :=
  transferReady_of_prepared (k := k.setPhys s') h.task h.started
    ((schedCurrentUserBootstrap_congr rfl rfl).trans h.bootstrap) hrun

/-- The kernel when a transfer failed after the descriptors were closed. -/
def unseeded (k : KernelState) (t : TaskId) (fdTable : FdTable) (store : Store) : KernelState :=
  { k with store := store }.setTask t { k.task t with fdTable := fdTable }

/-- `sched_exec_current` for a prepared program. -/
theorem ExecCaller.schedExec (h : ExecCaller K own k t caller l spaces others held files nodes)
    (hrun : syscallPrepareExecBootstrap entry k.phys image imageSize (some caller) =
      .ok (some bootstrap, s')) {store₁ store₂ : Store} {seeded : Bool} {fdTable : FdTable}
    (hr : Reseeded (k.setPhys s') bootstrap (k.task t).fdTable store₁ seeded fdTable store₂)
    (reusable : Word × Word) :
    schedExecCurrent (k.setPhys s') bootstrap reusable =
      if seeded then .ok (execFrame bootstrap,
        execTransferred (k.setPhys s') t bootstrap fdTable store₂ reusable)
      else .ok (0#64, unseeded (k.setPhys s') t fdTable store₂) := by
  have hclosed : fdTableCloseAll (framedStore (k.setPhys s') bootstrap) ((k.setPhys s').task t).fdTable =
      .ok (fdTableInitialize, store₁) := hr.closed
  rw [schedExecCurrent_ready (k := k.setPhys s') h.task (h.ready hrun), hclosed, ok_bind]
  dsimp only
  rw [hr.seed, ok_bind]
  rfl

/-- The build that tests a failing transfer hands over a bootstrap that is refused. -/
lemma ExecCaller.schedExec_hook (h : ExecCaller K own k t caller l spaces others held files nodes)
    (hhook : b.userTestExecTransferFail = true)
    (hrun : syscallPrepareExecBootstrap entry k.phys image imageSize (some caller) =
      .ok (some bootstrap, s')) (reusable : Word × Word) :
    schedExecCurrent (k.setPhys s') (b.transferred bootstrap) reusable = .ok (0#64, k.setPhys s') := by
  have hframe := (h.ready hrun).frame
  have hb : b.transferred bootstrap = { bootstrap with trampolineEntry := 0#64 } := if_pos hhook
  have hrefused : ¬ TransferReady (k.setPhys s') t (b.transferred bootstrap) := by
    intro hready
    have hcomplete := hready.complete
    rw [hb] at hcomplete
    simp [bootstrapComplete] at hcomplete
  obtain ⟨m, hrun', hm⟩ := schedExecCurrent_refused (k := k.setPhys s') h.task hrefused reusable
  rw [hrun', hm (by rw [hb]; exact hframe)]
  rfl

/-- `SYS_EXEC` after it found an image, in the state `k`. -/
inductive ExecEnd (K : KernelTables) (own : Owner) (b : Build) (k : KernelState) (t : TaskId)
    (caller : UserTaskBootstrap) (l others held : List Word) (image : Mem) (imageSize : Word)
    (reusable : Word × Word) : Run (Word × KernelState) → Prop
  | failed {s' : Phys}
      (hprep : PrepareOutcome K b.archUserProgramEntry caller.imagePhysicalBegin caller.imagePhysicalEnd
        image imageSize k.phys own l (.ok (none, s'))) :
      ExecEnd K own b k t caller l others held image imageSize reusable (.ok (0#64, k.setPhys s'))
  | halted (hne : l ≠ [])
      (hprep : PrepareOutcome K b.archUserProgramEntry caller.imagePhysicalBegin caller.imagePhysicalEnd
        image imageSize k.phys own l (.error .halt)) :
      ExecEnd K own b k t caller l others held image imageSize reusable (.error .halt)
  | refused {plan : ElfPlan} {a stackPage : Word} {s' : Phys} {own' : Owner} {l' : List Word}
      (hplan : execPlan image imageSize = some plan)
      (hprep : Prepared K b.archUserProgramEntry caller.imagePhysicalBegin caller.imagePhysicalEnd image
        plan k.phys own l a stackPage s' own' l')
      (hhook : b.userTestExecTransferFail = true) :
      ExecEnd K own b k t caller l others held image imageSize reusable
        (.ok (0#64, k.setPhys (syscallReleaseBootstrap s'
          (b.transferred (plan.bootstrap b.archUserProgramEntry a stackPage)))))
  | unseeded {plan : ElfPlan} {a stackPage : Word} {s' : Phys} {own' : Owner} {l' files nodes : List Word}
      {store₁ store₂ : Store}
      (hplan : execPlan image imageSize = some plan)
      (hprep : Prepared K b.archUserProgramEntry caller.imagePhysicalBegin caller.imagePhysicalEnd image
        plan k.phys own l a stackPage s' own' l')
      (hhook : b.userTestExecTransferFail = false)
      (hseed : Reseeded (k.setPhys s') (plan.bootstrap b.archUserProgramEntry a stackPage)
        (k.task t).fdTable store₁ false fdTableInitialize store₂)
      (hfds : CallerFds others held store₂ fdTableInitialize files nodes) :
      ExecEnd K own b k t caller l others held image imageSize reusable
        (.ok (0#64, (unseeded (k.setPhys s') t fdTableInitialize store₂).setPhys
          (syscallReleaseBootstrap store₂.phys (plan.bootstrap b.archUserProgramEntry a stackPage))))
  | transferred {plan : ElfPlan} {a stackPage : Word} {s' : Phys} {own' : Owner}
      {l' files nodes : List Word} {store₁ store₂ : Store} {fdTable : FdTable}
      (hplan : execPlan image imageSize = some plan)
      (hprep : Prepared K b.archUserProgramEntry caller.imagePhysicalBegin caller.imagePhysicalEnd image
        plan k.phys own l a stackPage s' own' l')
      (hhook : b.userTestExecTransferFail = false)
      (hseed : Reseeded (k.setPhys s') (plan.bootstrap b.archUserProgramEntry a stackPage)
        (k.task t).fdTable store₁ true fdTable store₂)
      (hfds : CallerFds others held store₂ fdTable files nodes)
      (hready : TransferReady (k.setPhys s') t (plan.bootstrap b.archUserProgramEntry a stackPage)) :
      ExecEnd K own b k t caller l others held image imageSize reusable
        (.ok (execFrame (plan.bootstrap b.archUserProgramEntry a stackPage),
          execTransferred (k.setPhys s') t (plan.bootstrap b.archUserProgramEntry a stackPage) fdTable
            store₂ reusable))

/-- `SYS_EXEC` once its image was found. -/
def syscallExecFound (b : Build) (k : KernelState) (image : Mem) (imageSize : Word)
    (caller : UserTaskBootstrap) (reusable : Word × Word) : Run (Word × KernelState) := do
  let (bootstrap, s) ← syscallPrepareExecBootstrap b.archUserProgramEntry k.phys image imageSize
    (some caller)
  match bootstrap with
  | none => .ok (0#64, k.setPhys s)
  | some bootstrap => syscallExecTransfer b (k.setPhys s) bootstrap reusable

/-- Handing over a prepared program. -/
lemma ExecCaller.transfer (h : ExecCaller K own k t caller l spaces others held files nodes)
    (hplan : execPlan image imageSize = some plan)
    (hp : Prepared K b.archUserProgramEntry caller.imagePhysicalBegin caller.imagePhysicalEnd image plan
      k.phys own l a stackPage s' own' l')
    (hrun : syscallPrepareExecBootstrap b.archUserProgramEntry k.phys image imageSize (some caller) =
      .ok (some (plan.bootstrap b.archUserProgramEntry a stackPage), s')) (reusable : Word × Word) :
    ExecEnd K own b k t caller l others held image imageSize reusable
      (syscallExecTransfer b (k.setPhys s') (plan.bootstrap b.archUserProgramEntry a stackPage)
        reusable) := by
  have hready := h.ready hrun
  unfold syscallExecTransfer
  cases hhook : b.userTestExecTransferFail with
  | true =>
    rw [h.schedExec_hook hhook hrun, ok_bind]
    exact .refused hplan hp hhook
  | false =>
    have hsame : b.transferred (plan.bootstrap b.archUserProgramEntry a stackPage) =
        plan.bootstrap b.archUserProgramEntry a stackPage := if_neg (by simp [hhook])
    obtain ⟨store₁, seeded, fdTable, store₂, files', nodes', hr, hfds⟩ := h.reseed hp
      (show (plan.bootstrap b.archUserProgramEntry a stackPage).userStackPage = stackPage from rfl)
    rw [hsame, h.schedExec hrun hr]
    cases seeded with
    | true =>
      rw [if_pos rfl, ok_bind]
      dsimp only
      rw [if_neg hready.frame]
      exact .transferred hplan hp hhook hr hfds hready
    | false =>
      obtain rfl := hr.failed rfl
      exact .unseeded hplan hp hhook hr hfds

/-- Without a free page there is no address space. -/
lemma CallerPages.prepare_nil (h : CallerPages K own s caller [] spaces) (entry : Word) (image : Mem)
    (imageSize : Word) (current : Option UserTaskBootstrap) :
    syscallPrepareExecBootstrap entry s image imageSize current = .ok (none, s) := by
  unfold syscallPrepareExecBootstrap
  rw [pagingCreate_nil h.inv.run.inv]
  simp only [true_or, if_true]

theorem ExecCaller.found (h : ExecCaller K own k t caller l spaces others held files nodes)
    (hentry : b.archUserProgramEntry.toNat < 2 ^ 52) (image : Mem) (imageSize : Word)
    (reusable : Word × Word) :
    ExecEnd K own b k t caller l others held image imageSize reusable
      (syscallExecFound b k image imageSize caller reusable) := by
  have hout := syscallPrepareExecBootstrap_spec image imageSize h.pages.exec hentry
    (show reusableRange (some caller) = _ from rfl)
  unfold syscallExecFound
  cases hrun : syscallPrepareExecBootstrap b.archUserProgramEntry k.phys image imageSize (some caller) with
  | error e =>
    have hne : l ≠ [] := by
      rintro rfl
      rw [h.pages.prepare_nil] at hrun
      cases hrun
    rw [hrun] at hout
    obtain rfl : e = .halt := by
      cases hout
      rfl
    exact .halted hne hout
  | ok r =>
    obtain ⟨bootstrap, s'⟩ := r
    rw [hrun] at hout
    cases bootstrap with
    | none => exact .failed hout
    | some bootstrap =>
      cases hout with
      | prepared hplan hp => exact h.transfer hplan hp hrun reusable

/-- `SYS_EXEC` after its path was copied: no image, or one of these ends. -/
theorem ExecCaller.execPath (h : ExecCaller K own k t caller l spaces others held files nodes)
    (hentry : b.archUserProgramEntry.toNat < 2 ^ 52) (path : List Byte) (reusable : Word × Word) :
    ∃ found store files' n, syscallExecImage k.store path = .ok (found, store) ∧
      ExecCaller K own (k.setStore store) t caller (l.drop n) spaces others held files' nodes ∧
      Grown k.phys store.phys ∧ Unchanged k.store store files nodes ∧
      (∀ image imageSize s, Offers k.store path image imageSize s ↔
        found = some (image, imageSize) ∧ s = store.phys) ∧
      (found = none → syscallExecPath b k path reusable = .ok (0#64, k.setStore store)) ∧
      ∀ image imageSize, found = some (image, imageSize) →
        ExecEnd K own b (k.setStore store) t caller (l.drop n) others held image imageSize reusable
          (syscallExecPath b k path reusable) := by
  obtain ⟨found, store, files', n, himage, hcaller, hg, hsame, hoffers⟩ := h.lookup path
  refine ⟨found, store, files', n, himage, hcaller, hg, hsame, hoffers, ?_, ?_⟩
  · rintro rfl
    unfold syscallExecPath
    rw [himage, ok_bind]
  · rintro image imageSize rfl
    have hexec : syscallExecPath b k path reusable =
        syscallExecFound b (k.setStore store) image imageSize caller reusable := by
      unfold syscallExecPath
      rw [himage, ok_bind]
      dsimp only
      rw [hcaller.bootstrap]
      rfl
    rw [hexec]
    exact hcaller.found hentry image imageSize reusable

/-- The answer to the caller. -/
def execAnswer (rsp : Word) (frame : SyscallFrame) : Word × KernelState → SyscallOutcome
  | (next, k) => if next = 0#64 then (rsp, syscallReturn frame sysResultError, k) else (next, frame, k)

lemma UserAccess.result_bind {α β : Type} {x : UserAccess α} {f : α → UserAccess β} {r : α}
    (hx : x.result = .ok r) : (x >>= f).result = (f r).result := by
  obtain ⟨touched, result⟩ := x
  obtain rfl : result = .ok r := hx
  rfl

/-- The string that `SYS_EXEC` was given. -/
def ExecPathAt (k : KernelState) (caller : UserTaskBootstrap) (src : Word) (path : List Byte) : Prop :=
  PathAt k.phys.mem caller.addressSpace caller.layout src path ∧ path.length + 1 < syscallPathSize

lemma ExecCaller.levels (h : ExecCaller K own k t caller l spaces others held files nodes) :
    Levels k.phys.mem caller.addressSpace
      (fun π q => own q = some (caller.addressSpace, π) ∨
        (¬ Private own caller.addressSpace π ∧ K.node π = some q))
      (Private own caller.addressSpace) :=
  user_levels h.pages.inv.run.inv (h.pages.inv.run.space _ h.pages.space)

lemma Offers.unique {k : Store} {image' : Mem} {imageSize' : Word} (h : Offers k path image imageSize s)
    (h' : Offers k path image' imageSize' s') : image = image' ∧ imageSize = imageSize' ∧ s = s' := by
  obtain ⟨f, k₁, halloc, -, rfl⟩ := h.block
  obtain ⟨f', k₂, halloc', -, rfl⟩ := h'.block
  cases halloc.symm.trans halloc'
  cases h.image.symm.trans h'.image
  exact ⟨rfl, rfl, rfl⟩

/-- `SYS_EXEC` is refused without a path, and else decided by it. -/
theorem ExecCaller.syscall (h : ExecCaller K own k t caller l spaces others held files nodes) (b : Build)
    {frame : SyscallFrame} (hrax : frame.rax = sysExec) (rsp : Word) (reusable : Word × Word) :
    ((∀ path, ¬ ExecPathAt k caller frame.rdi path) ∧
      (kernelSyscallEntry b k rsp frame reusable).result =
        .ok (rsp, syscallReturn frame sysResultError, k)) ∨
    ∃ path, (∀ path', ExecPathAt k caller frame.rdi path' ↔ path' = path) ∧
      (kernelSyscallEntry b k rsp frame reusable).result =
        (syscallExecPath b k path reusable).map (execAnswer rsp frame) := by
  have hspace := h.pages.inv.run.space _ h.pages.space
  have ha := (h.pages.inv.run.inv.own_page hspace).ne_zero
  obtain ⟨r, hr, -, hpath⟩ := syscallCopyPath_spec syscallPathSize frame.rdi h.levels ha h.pages.loaded
    (show caller.layout.trampolineBase ≠ 0#64 by rw [h.pages.layout]; decide) (by decide)
  have hentry : kernelSyscallEntry b k rsp frame reusable =
      syscallExec b k rsp frame caller.addressSpace caller.layout reusable := by
    unfold kernelSyscallEntry
    rw [hrax, if_pos (by decide), schedCurrentUserContext_of_bootstrap h.bootstrap]
    dsimp only
    rw [if_neg (by decide), if_neg (by decide), if_neg (by decide)]
  rw [hentry]
  unfold syscallExec
  rw [UserAccess.result_bind hr]
  cases r with
  | none =>
    refine .inl ⟨fun path hp => ?_, rfl⟩
    have := (hpath path).mpr hp
    cases this
  | some path =>
    refine .inr ⟨path, fun path' => ?_, ?_⟩
    · rw [ExecPathAt, ← hpath path', Option.some.injEq, eq_comm]
    · dsimp only
      cases hx : syscallExecPath b k path reusable with
      | error e => rfl
      | ok x =>
        obtain ⟨next, k'⟩ := x
        rw [UserAccess.lift_bind_ok]
        change _ = (Except.ok (execAnswer rsp frame (next, k')) : Run SyscallOutcome)
        dsimp only [execAnswer]
        split_ifs <;> rfl

lemma ExecCaller.path_unique (h : ExecCaller K own k t caller l spaces others held files nodes)
    {src : Word} {path' : List Byte} (hp : ExecPathAt k caller src path)
    (hp' : ExecPathAt k caller src path') : path = path' := by
  have hspace := h.pages.inv.run.space _ h.pages.space
  obtain ⟨r, -, -, hpath⟩ := syscallCopyPath_spec syscallPathSize src h.levels
    (h.pages.inv.run.inv.own_page hspace).ne_zero h.pages.loaded
    (show caller.layout.trampolineBase ≠ 0#64 by rw [h.pages.layout]; decide) (by decide)
  exact Option.some.inj (((hpath path).mpr hp).symm.trans ((hpath path').mpr hp'))

end Stages

end Platinum
