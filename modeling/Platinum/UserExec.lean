import Platinum.UserCalls

/-!
# Exec of the user task

Preparing a program writes free pages and the caller's image only, and a transfer
leaves a program that holds its pages as the caller did.
-/
namespace Platinum
open ByteMemory BlockList SharedTrie

section Prepare

variable {K : KernelTables} {own own' : Owner} {s s' : Phys} {caller : UserTaskBootstrap}
  {l l' spaces : List Word} {image : Mem} {imageSize entry a stackPage p : Word} {plan : ElfPlan}

/-- The pages that are loaded are free or the caller's. -/
lemma CallerPages.window_page (h : CallerPages K own s caller l spaces)
    (hv : plan.Valid imageSize firstUserLayout)
    (hav : ∀ p ∈ plan.claimed caller.imagePhysicalBegin caller.imagePhysicalEnd, p ∈ l)
    (hp : p ∈ plan.windowPages) : p ∈ l ∨ p ∈ caller.imagePages := by
  cases hr : pageInRange p caller.imagePhysicalBegin caller.imagePhysicalEnd with
  | true => exact .inr ((h.range_iff (hv.windowPages_page hp)).mp hr)
  | false => exact .inl (hav p (mem_unowned.mpr ⟨hp, hr⟩))

/-- Outside of these pages there is no byte of the window. -/
lemma CallerPages.outside_window (h : CallerPages K own s caller l spaces)
    (hv : plan.Valid imageSize firstUserLayout)
    (hav : ∀ p ∈ plan.claimed caller.imagePhysicalBegin caller.imagePhysicalEnd, p ∈ l) {x : ℕ}
    (hx : ∀ p ∈ {p | p ∈ l ∨ p ∈ caller.imagePages}, ¬ OnPage p x) :
    x < 0x02100000 ∨ 0x02100000 + plan.span.toNat ≤ x := by
  by_contra hno
  push Not at hno
  obtain ⟨q, hq, hon⟩ := hv.onPage_window hno.1 hno.2
  exact hx q (h.window_page hv hav hq) hon

/-- A failed preparation. -/
lemma PrepareOutcome.changes
    (hout : PrepareOutcome K entry caller.imagePhysicalBegin caller.imagePhysicalEnd image imageSize s own l
      (.ok (none, s')))
    (h : CallerPages K own s caller l spaces) :
    ChangesOnly {p | p ∈ l ∨ p ∈ caller.imagePages} s.mem s'.mem := by
  cases hout with
  | early why inv perm mem globals => exact mem.mono fun p hp => .inl hp
  | noStack hplan hav length inv perm window frame globals =>
    intro x hx
    have hv := (elfCheck_valid hplan).1
    exact frame x (h.outside_window hv (fun p hp => List.mem_of_mem_tail (hav p hp)) hx)
      fun p hp => hx p (.inl hp)

/-- A prepared program. -/
lemma Prepared.changes
    (hp : Prepared K entry caller.imagePhysicalBegin caller.imagePhysicalEnd image plan s own l a stackPage s'
      own' l') (hplan : execPlan image imageSize = some plan) (h : CallerPages K own s caller l spaces) :
    ChangesOnly {p | p ∈ l ∨ p ∈ caller.imagePages} s.mem s'.mem := by
  intro x hx
  have hv := (elfCheck_valid hplan).1
  obtain ⟨l₀, hl, hav, -⟩ := hp.head
  have hfree : ∀ p ∈ plan.claimed caller.imagePhysicalBegin caller.imagePhysicalEnd, p ∈ l := by
    rw [hl]
    exact fun p hp => List.mem_cons_of_mem a (hav p hp)
  refine hp.frame x (h.outside_window hv hfree hx) (fun p hpl hon => ?_) fun q ρ hq hon => ?_
  · exact hx p (.inl hpl) ⟨hon.1, by omega⟩
  · exact hx q (.inl (hp.taken_free.2 q ρ hq)) hon

end Prepare

section Failed

variable {K : KernelTables} {own : Owner} {k : KernelState} {caller : UserTaskBootstrap}
  {l l' files nodes files' stackPages : List Word} {reserved : ReservedHeap} {pool : Set Word} {entry : Word} {s' : Phys}
  {store : Store}

/-- Looking up an image takes no page. -/
lemma UserRuns.lookup (h : UserRuns K entry reserved stackPages pool own k caller l files nodes)
    (path : List Byte) : ∃ found store files', syscallExecImage k.store path = .ok (found, store) ∧
      UserRuns K entry reserved stackPages pool own (k.setStore store) caller l files' nodes ∧
      SameSched k (k.setStore store) ∧ store.phys = k.phys ∧
      ∀ image imageSize s, Offers k.store path image imageSize s ↔
        found = some (image, imageSize) ∧ s = store.phys := by
  obtain ⟨found, store, -, -, himage, -, -, -, hoffers⟩ := h.holder.exec.lookup path
  have hsmall := tableFiles_length (k.task .task1).fdTable
  have hphys : store.phys = k.phys := syscallExecImage_sure (userHeap_spec _ reserved) h.life.objects.heap
    ((objectPtrs_length k.store files nodes).le.trans h.life.room) himage
  obtain ⟨found', store', files', himage', hinv, hkept, -, -, hevents⟩ :=
    h.life.objects.execImage (userHeap_spec _ reserved) h.life.walk h.life.room (by omega) path
  obtain ⟨rfl, rfl⟩ : found' = found ∧ store' = store := by simpa using himage'.symm.trans himage
  have hfiles : ∀ f, f ∈ files' ↔ f ∈ files := fun f =>
    (hinv.counts.mem_files f).trans (h.life.objects.counts.mem_files f).symm
  have hbusy : AllBusy store' files' nodes := fun n hn => by
    obtain ⟨f, hf, hon⟩ := filesOn_pos_iff.mp (h.life.busy n hn)
    exact filesOn_pos_iff.mpr ⟨f, (hfiles f).mpr hf, (hkept.node f hf).trans hon⟩
  have hstep : TableStep (UserHeap (programPages caller own ∪ {p | p ∈ kernelPages entry stackPages}) reserved)
      k.store [] files nodes store' (k.task .task1).fdTable files' nodes := by
    refine ⟨?_, h.life.table.grow h.life.objects.counts hkept fun f hf => hf, fun t ht hsub => ?_, hkept.root,
      hkept.ready, hevents⟩
    · rw [List.append_nil]
      exact hinv
    · exact ht.grow h.life.objects.counts hkept fun f hf => absurd (hsub f hf) List.not_mem_nil
  have hlife := h.life.tableStep hstep (hphys ▸ .refl _ _) h.life.few hbusy
  rw [withTable_same] at hlife
  have hsame : SameSched k (k.setStore store') :=
    ⟨fun _ => rfl, rfl, rfl, rfl, congrArg Phys.cr3 hphys, congrArg Phys.pagingKernelPml4 hphys⟩
  exact ⟨found', store', files', himage, h.same hsame hlife, hsame, hphys, hoffers⟩

/-- An image that was given up. -/
lemma UserRuns.prepareFailed (h : UserRuns K entry reserved stackPages pool own k caller l files nodes)
    {image : Mem} {imageSize : Word}
    (hout : PrepareOutcome K entry caller.imagePhysicalBegin caller.imagePhysicalEnd image imageSize k.phys own
      l (.ok (none, s'))) :
    ∃ l', UserRuns K entry reserved stackPages pool own (k.setPhys s') caller l' files nodes ∧
      SameSched k (k.setPhys s') ∧ KeepsPages (kernelPages entry stackPages) k.phys.mem s'.mem := by
  have hmem := hout.changes h.pages
  have hpages := h.pages
  obtain ⟨l', hinv, hperm, hglobals⟩ : ∃ l', PagingInv K own s' l' ∧ l'.Perm l ∧ SameGlobals k.phys s' := by
    cases hout with
    | early why inv perm mem globals => exact ⟨_, inv, perm, globals⟩
    | noStack hplan hav length inv perm window frame globals => exact ⟨_, inv, perm, globals⟩
  have hrun : ExecRunInv K own s' l' [caller.addressSpace] :=
    ⟨⟨hinv, hpages.inv.run.space, hpages.inv.run.owner⟩, hpages.inv.positions⟩
  have hloaded : s'.cr3 = caller.addressSpace := hglobals.cr3.trans h.loaded
  have hheld {p : Word} (hp : HeldPage K own l p) : HeldPage K own l' p :=
    hp.mono fun q hq => hperm.subset hq
  have hcaller : CallerPages K own s' caller l' [caller.addressSpace] :=
    ⟨hrun, hpages.limit, hpages.space, hloaded, hpages.layout, fun p hp => hheld (hpages.image p hp),
      hheld hpages.stack, hpages.apart⟩
  have hwritten : ∀ p ∈ {p | p ∈ l ∨ p ∈ caller.imagePages}, p.toNat % 4096 = 0 ∧ own p = none := by
    rintro p (hp | hp)
    · exact ⟨(hpages.inv.run.inv.free.pages p hp).aligned, hpages.inv.run.inv.free_own p hp⟩
    · exact ⟨(hpages.image p hp).page.aligned, (hpages.image p hp).unowned⟩
  have hsame : SameSched k (k.setPhys s') := .setPhys hglobals
  have hlife : UserLife K entry reserved stackPages pool own (k.setPhys s') caller l' files nodes := by
    have hkept : Kept k.store { k.store with phys := s' } files nodes :=
      ⟨fun _ _ => rfl, fun _ _ => rfl, fun _ _ => rfl, fun _ _ => rfl, fun _ _ => rfl, rfl, rfl⟩
    refine ⟨h.life.kind, h.life.bootstrap, ?_, fun p => ?_, ⟨h.life.objects.counts.congr rfl rfl, ?_⟩, ?_,
      h.life.walk, h.life.few, h.life.busy, fun p hp => ⟨hheld (h.life.kernel p hp).1, (h.life.kernel p hp).2⟩, h.life.code,
      fun v t ht hu => ?_⟩
    · have hphys : { s' with cr3 := caller.addressSpace } = s' := by rw [← hloaded]
      rwa [← hphys] at hcaller
    · rw [h.life.conserved p, hperm.mem_iff]
    · exact h.life.objects.heap.shrink hpages.inv.run.inv.free hinv.free fun p hp => hperm.subset hp
    · exact h.life.table.grow h.life.objects.counts hkept fun f hf => hf
    · change mmuWalk s'.mem caller.addressSpace v = some t at ht
      rw [hpages.inv.walk_eq hrun hwritten hmem hpages.space v] at ht
      exact h.life.maps v t ht hu
  refine ⟨l', h.same hsame hlife, hsame, .of_changes hmem (fun p hp => (hwritten p hp).1) fun p hp => ?_⟩
  obtain ⟨hheldp, hown⟩ := h.life.kernel p hp
  refine ⟨hheldp.page.aligned, ?_⟩
  rintro (hl | hi)
  · exact hheldp.used hl
  · exact hown (List.mem_cons_of_mem _ hi)

end Failed

section Transfer

variable {K : KernelTables} {own own' : Owner} {k : KernelState} {caller : UserTaskBootstrap}
  {l l' files nodes stackPages : List Word} {reserved : ReservedHeap} {pool : Set Word} {entry imageSize a stackPage p : Word}
  {image : Mem} {plan : ElfPlan} {s' : Phys} {store₁ store₂ : Store} {fdTable : FdTable} {reusable : Word × Word}

/-- The pages that are not for the heap while a program is handed over. -/
def transferHeld (caller : UserTaskBootstrap) (own : Owner) (entry : Word) (stackPages l l' : List Word) :
    Set Word :=
  programPages caller own ∪ {p | p ∈ l ∧ p ∉ l'} ∪ {p | p ∈ kernelPages entry stackPages}

/-- The image takes the same pages as the caller's. -/
def SameWindow (caller : UserTaskBootstrap) (image : Mem) (imageSize : Word) : Prop :=
  caller.imagePhysicalBegin = elfUserLoadBase ∧
    ∀ plan, execPlan image imageSize = some plan → plan.physicalEnd = caller.imagePhysicalEnd

/-- It is handed over as it is, whatever the words are that the release finds on its stack. -/
lemma SameWindow.transferPages (h : SameWindow caller image imageSize)
    (hplan : execPlan image imageSize = some plan) (entry a stackPage : Word) :
    transferPages caller (plan.bootstrap entry a stackPage) reusable = caller.userStackPage ::
      caller.imagePages.filter fun p => decide (p ∉ (plan.bootstrap entry a stackPage).imagePages) := by
  have hbegin : caller.imagePhysicalBegin = (plan.bootstrap entry a stackPage).imagePhysicalBegin := h.1
  have hend : caller.imagePhysicalEnd = (plan.bootstrap entry a stackPage).imagePhysicalEnd :=
    (h.2 plan hplan).symm
  have himage : caller.imagePages = (plan.bootstrap entry a stackPage).imagePages := by
    unfold UserTaskBootstrap.imagePages
    rw [hbegin, hend]
  have hnone : unowned reusable.1 reusable.2 (pageSpan 0#64 0#64) = [] := by
    rw [show pageSpan 0#64 0#64 = [] by decide]
    rfl
  rw [himage, List.filter_eq_nil_iff.mpr (by simp)]
  unfold Platinum.transferPages releasedBootstrap
  rw [if_pos ⟨hbegin, hend⟩]
  exact congrArg (caller.userStackPage :: ·) hnone

/-- The kernel's pages are nobody else's. -/
lemma UserLife.kernel_apart (h : UserLife K entry reserved stackPages pool own k caller l files nodes)
    (hp : p ∈ kernelPages entry stackPages) : ¬ (p ∈ l ∨ p ∈ programPages caller own) := by
  obtain ⟨hheld, hown⟩ := h.kernel p hp
  rintro (hm | hm | ⟨x, hx⟩)
  · exact hheld.used hm
  · exact hown hm
  · rw [hheld.unowned] at hx
    cases hx

section Handover

variable (h : UserRuns K entry reserved stackPages pool own k caller l files nodes)
  (hp : Prepared K entry caller.imagePhysicalBegin caller.imagePhysicalEnd image plan k.phys own l a stackPage
    s' own' l')
include h hp

/-- The objects once the new program's stack is built. -/
lemma UserRuns.framed :
    FdInv (UserHeap (transferHeld caller own entry stackPages l l') reserved)
      (framedStore (k.setPhys s') (plan.bootstrap entry a stackPage)) (tableFiles (k.task .task1).fdTable) files
      nodes ∧
    TableOk (framedStore (k.setPhys s') (plan.bootstrap entry a stackPage)) (k.task .task1).fdTable ∧
    AllBusy (framedStore (k.setPhys s') (plan.bootstrap entry a stackPage)) files nodes := by
  obtain ⟨hfree, -⟩ := h.holder.exec.framed hp (show (plan.bootstrap entry a stackPage).userStackPage =
    stackPage from rfl)
  obtain ⟨m, hstore, -⟩ := framedStore_eq k s' (plan.bootstrap entry a stackPage)
  obtain ⟨hsub, -⟩ := hp.taken_free
  rw [hstore] at hfree ⊢
  have hkept : Kept k.store { k.store with phys := { s' with mem := m } } files nodes :=
    ⟨fun _ _ => rfl, fun _ _ => rfl, fun _ _ => rfl, fun _ _ => rfl, fun _ _ => rfl, rfl, rfl⟩
  refine ⟨⟨h.life.objects.counts.congr rfl rfl, ?_⟩, h.life.table.grow h.life.objects.counts hkept fun f hf => hf,
    h.life.busy⟩
  refine h.life.objects.heap.trade h.pages.inv.run.inv.free hfree (fun p hpl => .inl (hsub p hpl))
    (fun p hpm => ?_) fun p hpl hpm => ?_
  · rcases hpm with (hpm | hpm) | hpm
    · exact .inr (.inl hpm)
    · exact .inl hpm.1
    · exact .inr (.inr hpm)
  · rcases hpm with (hpm | hpm) | hpm
    · exact h.pages.program_used hpm (hsub p hpl)
    · exact hpm.2 hpl
    · exact (h.life.kernel p hpm).1.used (hsub p hpl)

/-- The heap has room for the new program's console. -/
lemma UserRuns.reseeded {seeded : Bool} (hr : Reseeded (k.setPhys s') (plan.bootstrap entry a stackPage)
      (k.task .task1).fdTable store₁ seeded fdTable store₂) :
    seeded = true ∧ NamespaceOk store₂ ∧ ∃ files' nodes',
      FdInv (UserHeap (transferHeld caller own entry stackPages l l') reserved) store₂ (tableFiles fdTable) files'
        nodes' ∧
      TableOk store₂ fdTable ∧ nodes'.length ≤ 2 ∧ AllBusy store₂ files' nodes' ∧ FreeList store₂.phys l' := by
  obtain ⟨hinv, htable, hbusy⟩ := h.framed hp
  obtain ⟨hfree, hfds⟩ := h.holder.exec.framed hp
    (show (plan.bootstrap entry a stackPage).userStackPage = stackPage from rfl)
  obtain ⟨store₁', fdTable', store₂', files', nodes', hclose, hseed, -, hphys, hinv', htable', hfew, hbusy',
    hroot, hready⟩ := hinv.reseedSure (userHeap_spec _ reserved) htable hbusy
  obtain rfl : store₁' = store₁ := (Prod.mk.inj (Except.ok.inj (hclose.symm.trans hr.closed))).2
  obtain ⟨rfl, rfl, rfl⟩ : true = seeded ∧ fdTable' = fdTable ∧ store₂' = store₂ := by
    simpa using hseed.symm.trans hr.seed
  refine ⟨rfl, hfds.walk.congr hroot hready, files', nodes', hinv', htable', hfew, hbusy', ?_⟩
  rw [hphys]
  exact hfree

/-- Everything that a transfer frees or hands over was held, or free before. -/
lemma UserRuns.made (hplan : execPlan image imageSize = some plan)
    (hr : Reseeded (k.setPhys s') (plan.bootstrap entry a stackPage) (k.task .task1).fdTable store₁ true fdTable
      store₂) (reusable : Word × Word) :
    ∃ tables files' nodes', FreeList store₂.phys l' ∧
      FdInv (UserHeap (transferHeld caller own entry stackPages l l') reserved) store₂ (tableFiles fdTable) files'
        nodes' ∧
      TableOk store₂ fdTable ∧ nodes'.length ≤ 2 ∧ AllBusy store₂ files' nodes' ∧
      TransferMade K own entry k .task1 caller l [caller.addressSpace] reserved.blocks [] image imageSize reusable plan a
        stackPage s' own' l' tables 0 files' nodes'
        (execTransferred (k.setPhys s') .task1 (plan.bootstrap entry a stackPage) fdTable store₂ reusable) := by
  obtain ⟨-, hwalk, files', nodes', hinv, htable, hfew, hbusy, hfree⟩ := h.reseeded hp hr
  obtain ⟨n, tables, htables, hphys, hdrop, hrun⟩ := h.holder.exec.transferred hp hr reusable
  have hall : l'.drop n = l'.drop 0 := hdrop.unique hfree
  rw [hall] at hrun
  refine ⟨tables, files', nodes', hfree, hinv, htable, hfew, hbusy, hplan, hp, htables, hrun, ?_, fdTable, store₂,
    rfl, hfree, htable, hwalk, ?_⟩
  · rw [hphys]
    exact (freeAll_globals _ _).cr3
  · rw [List.append_nil]
    refine ⟨hinv.counts, hinv.heap.2.trade hfree hfree (fun p hpl => .inl hpl) (fun p hpm => .inr (.inl hpm))
      fun p hpl hpm => ?_⟩
    rcases hpm with hpm | hpm
    · exact h.pages.program_used hpm (hp.taken_free.1 p hpl)
    · exact hpm.2 hpl

/-- No page is lost. -/
lemma UserRuns.transferred_conserved {tables files' nodes' : List Word} {k' : KernelState}
    (hsame : SameWindow caller image imageSize)
    (hm : TransferMade K own entry k .task1 caller l [caller.addressSpace] reserved.blocks [] image imageSize reusable
      plan a stackPage s' own' l' tables 0 files' nodes' k') :
    p ∈ pool ↔ p ∈ freeAfter caller (plan.bootstrap entry a stackPage) reusable tables l' ∨
      p ∈ programPages (plan.bootstrap entry a stackPage) (Overlay.dropSpace own' caller.addressSpace) := by
  have hne := hp.space_ne h.pages
  obtain ⟨newTables, hnew, -, hperm⟩ := hp.perm h.pages.exec hm.plan_eq
  have himage := ElfPlan.imagePages_bootstrap (elfCheck_valid hm.plan_eq).1 entry a stackPage
  rw [h.life.conserved p, mem_freeAfter, hsame.transferPages hm.plan_eq]
  constructor
  · rintro (hpl | hpo | ⟨⟨b, ρ⟩, hρ⟩)
    · rcases List.mem_append.mp (hperm.symm.subset hpl) with hpt | hpr
      · obtain ⟨ρ, hρ⟩ := (hnew p).mp hpt
        exact .inr (.inr ⟨(a, ρ), Overlay.dropSpace_eq_some.mpr ⟨hρ, hne⟩⟩)
      rcases List.mem_append.mp hpr with hpc | hpr
      · refine .inr (.inl (List.mem_cons_of_mem _ ?_))
        rw [himage]
        exact (mem_unowned.mp hpc).1
      rcases List.mem_cons.mp hpr with rfl | hpl'
      · exact .inr (.inl List.mem_cons_self)
      · exact .inl (.inr (.inr hpl'))
    · rcases List.mem_cons.mp hpo with rfl | hpi
      · exact .inl (.inr (.inl List.mem_cons_self))
      by_cases hpn : p ∈ (plan.bootstrap entry a stackPage).imagePages
      · exact .inr (.inl (List.mem_cons_of_mem _ hpn))
      · exact .inl (.inr (.inl (List.mem_cons_of_mem _ (List.mem_filter.mpr ⟨hpi, by simpa using hpn⟩))))
    · obtain rfl : b = caller.addressSpace := by simpa using h.pages.inv.run.owner p b ρ hρ
      exact .inl (.inl ((hm.tables_iff h.holder p).mpr
        ((h.pages.inv.run.private_iff h.pages.space).mpr ⟨ρ, hρ⟩)))
  · rintro (hpf | hpo)
    · rcases hm.freed_from h.holder (mem_freeAfter.mpr (hsame.transferPages hm.plan_eq entry a stackPage ▸ hpf)) with
        hpl | hpo | hpl
      · exact .inl (hp.taken_free.1 p hpl)
      · exact .inr hpo
      · exact .inl hpl.1
    · exact (hm.held_from h.holder hpo).symm.imp_left And.left

/-- The new program goes on as the caller did. -/
lemma UserRuns.transferred (hplan : execPlan image imageSize = some plan) (hentry : entry.toNat < 2 ^ 52)
    (hr : Reseeded (k.setPhys s') (plan.bootstrap entry a stackPage) (k.task .task1).fdTable store₁ true fdTable
      store₂)
    (hsame : SameWindow caller image imageSize) :
    ∃ own'' l'' files' nodes', UserRuns K entry reserved stackPages pool own''
      (execTransferred (k.setPhys s') .task1 (plan.bootstrap entry a stackPage) fdTable store₂ reusable)
      (plan.bootstrap entry a stackPage) l'' files' nodes' := by
  obtain ⟨tables, files', nodes', hfree, hinv, htable, hfew, hbusy, hm⟩ := h.made hp hplan hr reusable
  obtain ⟨hholder, hmaps⟩ : ExecHolder K (Overlay.dropSpace own' caller.addressSpace)
      (execTransferred (k.setPhys s') .task1 (plan.bootstrap entry a stackPage) fdTable store₂ reusable) .task1
      (plan.bootstrap entry a stackPage)
      (freeAfter caller (plan.bootstrap entry a stackPage) reusable tables l')
      ((a :: [caller.addressSpace]).filter (· ≠ caller.addressSpace)) reserved.blocks [] files' nodes' ∧ _ :=
    ⟨hm.holder h.holder (hm.spare h.holder (hsame.transferPages hm.plan_eq _ _ _)), h.holder.exec.transferred_walk hp hr reusable⟩
  have htask := execTransferred_task (k.setPhys s') .task1 (plan.bootstrap entry a stackPage) fdTable store₂
    reusable
  -- what is free now has never been the kernel's
  have hfreed {p : Word} (hpk : p ∈ kernelPages entry stackPages) :
      p ∉ freeAfter caller (plan.bootstrap entry a stackPage) reusable tables l' := by
    intro hpl
    rcases hm.freed_from h.holder hpl with hpl | hpl
    · exact (h.life.kernel p hpk).1.used (hp.taken_free.1 p hpl)
    · exact h.life.kernel_apart hpk (hpl.symm.imp_left And.left)
  have hheap : UserHeap (programPages (plan.bootstrap entry a stackPage)
      (Overlay.dropSpace own' caller.addressSpace) ∪ {p | p ∈ kernelPages entry stackPages}) reserved store₂.heap
      (execTransferred (k.setPhys s') .task1 (plan.bootstrap entry a stackPage) fdTable store₂ reusable).phys
      (objectPtrs store₂ files' nodes') := by
    refine hinv.heap.trade hfree hholder.exec.pages.inv.run.inv.free (fun p hpl => ?_) (fun p hpm => ?_)
      fun p hpl hpm => ?_
    · exact (hm.freed_from h.holder hpl).imp_right .inl
    · exact hpm.elim (fun hpm => .inr (.inl (hm.held_from h.holder hpm))) fun hpk => .inr (.inr hpk)
    · exact hpm.elim (fun hpm => hholder.exec.pages.program_used hpm hpl) fun hpk => hfreed hpk hpl
  have hkept : Kept store₂ (execTransferred (k.setPhys s') .task1 (plan.bootstrap entry a stackPage) fdTable store₂
      reusable).store files' nodes' :=
    ⟨fun _ _ => rfl, fun _ _ => rfl, fun _ _ => rfl, fun _ _ => rfl, fun _ _ => rfl, rfl, rfl⟩
  have hloaded : (execTransferred (k.setPhys s') .task1 (plan.bootstrap entry a stackPage) fdTable store₂
      reusable).phys.cr3 = (plan.bootstrap entry a stackPage).addressSpace := hm.loaded
  refine ⟨Overlay.dropSpace own' caller.addressSpace,
    freeAfter caller (plan.bootstrap entry a stackPage) reusable tables l',
    files', nodes', ⟨?_, ?_, ?_, fun p => h.transferred_conserved hp hsame hm, ⟨?_, ?_⟩, ?_,
    hholder.exec.fds.walk, hfew, hbusy, fun p hpk => ?_, h.life.code, fun v t ht hu => ?_⟩, h.current, h.started,
    ?_, hloaded⟩
  · rw [htask]
    exact h.life.kind
  · rw [htask]
  · have hspaces : (a :: [caller.addressSpace]).filter (· ≠ caller.addressSpace) = [a] := by
      simp [hp.space_ne h.pages]
    have hpages := hholder.exec.pages
    rw [hspaces] at hpages
    have hphys : { (execTransferred (k.setPhys s') .task1 (plan.bootstrap entry a stackPage) fdTable store₂
        reusable).phys with cr3 := (plan.bootstrap entry a stackPage).addressSpace } = (execTransferred
        (k.setPhys s') .task1 (plan.bootstrap entry a stackPage) fdTable store₂ reusable).phys := by rw [← hloaded]
    rwa [← hphys] at hpages
  · rw [htask]
    exact hinv.counts.congr rfl rfl
  · exact hheap
  · rw [htask]
    exact htable.grow hinv.counts hkept fun f hf => hf
  · obtain ⟨hheld, -⟩ := h.life.kernel p hpk
    refine ⟨⟨hheld.page, hfreed hpk, ?_, hheld.apart⟩, fun hpo => ?_⟩
    · simp [Overlay.dropSpace, (hp.held hheld).unowned]
    · exact h.life.kernel_apart hpk ((hm.held_from h.holder (.inl hpo)).symm.imp_left And.left)
  · change mmuWalk _ a v = some t at ht
    rw [hmaps v] at ht
    exact hp.userFrames h.pages.exec hplan hentry ht hu
  · rw [htask]
    exact h.running

/-- A transfer writes pages that were free or the caller's. -/
lemma UserRuns.transferred_changes (hplan : execPlan image imageSize = some plan)
    (hr : Reseeded (k.setPhys s') (plan.bootstrap entry a stackPage) (k.task .task1).fdTable store₁ true fdTable
      store₂) (reusable : Word × Word) :
    ChangesOnly {p | p ∈ l ∨ p ∈ programPages caller own} k.phys.mem
      (execTransferred (k.setPhys s') .task1 (plan.bootstrap entry a stackPage) fdTable store₂
        reusable).phys.mem := by
  refine ((hp.changes hplan h.pages).mono fun p hpm => ?_).trans
    ((h.holder.exec.transferred_frame hp hr reusable).mono fun p hpm => ?_)
  · exact hpm.imp_right fun hpi => .inl (List.mem_cons_of_mem _ hpi)
  · rcases hpm with rfl | hpo | ⟨ρ, hρ⟩
    · exact .inl hp.stack_mem
    · exact .inr (.inl hpo)
    · exact .inr (.inr ⟨_, hp.other_own p _ ρ hρ (hp.space_ne h.pages).symm⟩)

/-- Nothing of the namespace is changed. -/
lemma UserRuns.transferred_files
    (hr : Reseeded (k.setPhys s') (plan.bootstrap entry a stackPage) (k.task .task1).fdTable store₁ true fdTable
      store₂) (reusable : Word × Word) :
    FilesFramed ∅ k.store (execTransferred (k.setPhys s') .task1 (plan.bootstrap entry a stackPage) fdTable store₂
      reusable).store := by
  obtain ⟨hinv, htable, hbusy⟩ := h.framed hp
  obtain ⟨store, hclose, -, hinv₁, -⟩ := hinv.closedAll (userHeap_spec _ reserved) htable hbusy
  obtain rfl : store = store₁ := (Prod.mk.inj (Except.ok.inj (hclose.symm.trans hr.closed))).2
  obtain ⟨m, hstore, -⟩ := framedStore_eq k s' (plan.bootstrap entry a stackPage)
  have hclosed : FilesFramed ∅ (framedStore (k.setPhys s') (plan.bootstrap entry a stackPage)) store :=
    fdTableCloseLoop_framed hclose
  have hseeded : FilesFramed ∅ store store₂ := hinv₁.heap.handed.seed hr.seed
  rw [hstore] at hclosed
  have hbefore : FilesFramed ∅ k.store store₂ := (hclosed.trans hseeded).congr_left rfl rfl rfl rfl
  exact hbefore.trans (.of_eq (fun _ _ => rfl) rfl rfl rfl)

lemma UserRuns.transferred_keeps (hplan : execPlan image imageSize = some plan)
    (hr : Reseeded (k.setPhys s') (plan.bootstrap entry a stackPage) (k.task .task1).fdTable store₁ true fdTable
      store₂) (reusable : Word × Word) :
    KeepsPages (kernelPages entry stackPages) k.phys.mem (execTransferred (k.setPhys s') .task1
      (plan.bootstrap entry a stackPage) fdTable store₂ reusable).phys.mem := by
  refine .of_changes (h.transferred_changes hp hplan hr reusable) (fun p hpm => ?_) fun p hps => ?_
  · rcases hpm with hpl | hpo | ⟨x, hx⟩
    · exact (h.pages.inv.run.inv.free.pages p hpl).aligned
    · exact (h.pages.held p hpo).page.aligned
    · exact (h.pages.inv.run.inv.own_page hx).aligned
  · exact ⟨(h.life.kernel p hps).1.page.aligned, h.life.kernel_apart hps⟩

/-- Behind the new program's frame only pages that are freed are written. -/
lemma UserRuns.transferred_frees
    (hr : Reseeded (k.setPhys s') (plan.bootstrap entry a stackPage) (k.task .task1).fdTable store₁ true fdTable
      store₂) (reusable : Word × Word) :
    ChangesOnly {p | p ∈ transferPages caller (plan.bootstrap entry a stackPage) reusable ∨
        ∃ ρ, own' p = some (caller.addressSpace, ρ)}
      (pushWords s'.mem stackPage (userFrame (plan.bootstrap entry a stackPage)))
      (execTransferred (k.setPhys s') .task1 (plan.bootstrap entry a stackPage) fdTable store₂
        reusable).phys.mem := by
  obtain ⟨-, -, hmem, -⟩ := h.holder.exec.reseeded hp rfl hr
  obtain ⟨n, tables, htables, hphys, -⟩ := h.holder.exec.transferred hp hr reusable
  have hframe := freeAll_frame (pagingActivate store₂.phys a)
    (transferPages caller (plan.bootstrap entry a stackPage) reusable ++ tables)
  rw [← hphys] at hframe
  rw [← hmem]
  refine hframe.mono fun p hpm => ?_
  rcases List.mem_append.mp hpm with hpm | hpm
  · exact .inl hpm
  · obtain ⟨ρ, -, hρ⟩ := (htables.mem_iff p).mp hpm
    exact .inr ⟨ρ, hρ⟩

/-- What is resumed is the trampoline, with the entry of the new program in `r12`. -/
lemma UserRuns.transferred_context
    (hr : Reseeded (k.setPhys s') (plan.bootstrap entry a stackPage) (k.task .task1).fdTable store₁ true fdTable
      store₂) (reusable : Word × Word) :
    taskContext (execTransferred (k.setPhys s') .task1 (plan.bootstrap entry a stackPage) fdTable store₂
        reusable).phys.mem (execFrame (plan.bootstrap entry a stackPage)) =
      userContext (plan.bootstrap entry a stackPage) := by
  obtain ⟨hpage, -, hunowned, -⟩ := hp.own_stack h.pages.exec
  have hframe := h.transferred_frees hp hr reusable
  have hpages : ∀ p ∈ {p | p ∈ transferPages caller (plan.bootstrap entry a stackPage) reusable ∨
      ∃ ρ, own' p = some (caller.addressSpace, ρ)}, p.toNat % 4096 = 0 ∧ p ≠ stackPage := by
    rintro p (hpm | ⟨ρ, hρ⟩)
    · have hheld := h.pages.held p (mem_transferPages hpm)
      refine ⟨hheld.page.aligned, ?_⟩
      rintro rfl
      exact hheld.used hp.stack_mem
    · refine ⟨(hp.inv.own_page hρ).aligned, ?_⟩
      rintro rfl
      rw [hunowned] at hρ
      cases hρ
  have hrsp : (execFrame (plan.bootstrap entry a stackPage)).toNat = stackPage.toNat + 3936 := by
    have hlt := hpage.lt
    change (stackPage + 4096#64 - 160#64).toNat = _
    bv_omega
  have hbytes : ∀ x, (execFrame (plan.bootstrap entry a stackPage)).toNat ≤ x →
      x < (execFrame (plan.bootstrap entry a stackPage)).toNat + 160 →
      (execTransferred (k.setPhys s') .task1 (plan.bootstrap entry a stackPage) fdTable store₂
        reusable).phys.mem x = pushWords s'.mem stackPage (userFrame (plan.bootstrap entry a stackPage)) x := by
    intro x hlo hhi
    rw [hrsp] at hlo hhi
    exact hframe.byte (fun p hpm => (hpages p hpm).1) hpage.aligned (fun hpm => (hpages _ hpm).2 rfl)
      ⟨by omega, by omega⟩
  rw [taskContext_congr hbytes, userFrame_words]
  exact taskContext_pushWords hpage s'.mem _

/-- The pages that are freed are none of the new image's. -/
lemma UserRuns.transferred_program (hplan : execPlan image imageSize = some plan) (hentry : entry.toNat < 2 ^ 52)
    (hr : Reseeded (k.setPhys s') (plan.bootstrap entry a stackPage) (k.task .task1).fdTable store₁ true fdTable
      store₂)
    (hsame : SameWindow caller image imageSize) :
    ProgramMapped (execTransferred (k.setPhys s') .task1 (plan.bootstrap entry a stackPage) fdTable store₂
      reusable).phys.mem a entry stackPage image plan := by
  have hv := (elfCheck_valid hplan).1
  have hstack : ChangesOnly {stackPage} s'.mem
      (pushWords s'.mem stackPage (userFrame (plan.bootstrap entry a stackPage))) := pushWords_frame (by simp)
  have hwritten := (hstack.mono fun p hpm => Or.inl (Set.mem_singleton_iff.mp hpm)).trans
    ((h.transferred_frees hp hr reusable).mono fun p hpm => Or.inr hpm)
  refine (hp.programMapped hv hentry (hp.own_stack h.pages.exec).1).kept hv (h.holder.exec.transferred_walk hp hr reusable) hwritten ?_
  have hnew : ∀ p ∈ plan.windowPages, HeldPage K own' l' p := fun p hpw =>
    hp.held_pages h.pages.exec hplan p
      (List.mem_cons_of_mem _ ((ElfPlan.imagePages_bootstrap hv entry a stackPage).symm ▸ hpw))
  rintro p (rfl | hpm | ⟨ρ, hρ⟩)
  · exact ⟨(hp.own_stack h.pages.exec).1.aligned, hp.stack_not_window h.pages.exec hv⟩
  · refine ⟨(h.pages.held p (mem_transferPages hpm)).page.aligned, fun hpw => ?_⟩
    rw [hsame.transferPages hplan, ElfPlan.imagePages_bootstrap hv] at hpm
    rcases List.mem_cons.mp hpm with rfl | hpm
    · -- the old stack was neither free nor a page of the old image
      obtain ⟨l₀, hl, hav, -⟩ := hp.head
      have hclaimed : ∀ p ∈ plan.claimed caller.imagePhysicalBegin caller.imagePhysicalEnd, p ∈ l := fun p hpc =>
        hl ▸ List.mem_cons_of_mem _ (hav p hpc)
      exact (h.pages.window_page hv hclaimed hpw).elim h.pages.stack.used h.pages.apart
    · exact of_decide_eq_true (List.mem_filter.mp hpm).2 hpw
  · refine ⟨(hp.inv.own_page hρ).aligned, fun hpw => ?_⟩
    rw [(hnew p hpw).unowned] at hρ
    cases hρ

end Handover

end Transfer

section Exec

variable {K : KernelTables} {own : Owner} {b : Build} {k k' k'' : KernelState} {caller : UserTaskBootstrap}
  {l files nodes stackPages : List Word} {reserved : ReservedHeap} {pool : Set Word} {entry rsp : Word} {frame : SyscallFrame}
  {reusable : Word × Word}

lemma SameSched.trans (h : SameSched k k') (h' : SameSched k' k'') : SameSched k k'' := by
  refine ⟨fun t => ?_, h'.current.trans h.current, h'.started.trans h.started, h'.enabled.trans h.enabled,
    h'.cr3.trans h.cr3, h'.kernelPml4.trans h.kernelPml4⟩
  rw [h'.task t, h.task t]

lemma execTransferred_other (k : KernelState) (t : TaskId) (bootstrap : UserTaskBootstrap) (fdTable : FdTable)
    (store : Store) (reusable : Word × Word) :
    (execTransferred k t bootstrap fdTable store reusable).task t.other = k.task t.other :=
  Function.update_of_ne (TaskId.other_ne t) _ _

/-- `SYS_EXEC` of images with the caller's window. -/
lemma UserRuns.exec (h : UserRuns K b.archUserProgramEntry reserved stackPages pool own k caller l files nodes)
    (hentry : b.archUserProgramEntry.toNat < 2 ^ 52) (hhook : b.userTestExecTransferFail = false)
    (hsame : ∀ path image imageSize s, ExecPathAt k caller frame.rdi path →
      Offers k.store path image imageSize s → SameWindow caller image imageSize)
    (hrax : frame.rax = sysExec) :
    UserCallEnd K b.archUserProgramEntry reserved stackPages pool k caller rsp frame reusable
      (syscallExec b k rsp frame caller.addressSpace caller.layout reusable).result := by
  obtain ⟨copied, hcopied, hpath⟩ := h.copyPath frame.rdi
  have hanswer (quiet : Prop) : CallAnswer frame.rax k.kernelTicks sysResultError quiet :=
    .object (by simp [hrax, objectCalls]) (fun _ hne => absurd hrax hne) _
  unfold syscallExec
  rw [UserAccess.result_bind hcopied]
  cases copied with
  | none => exact h.refused (by simp [hrax, objectCalls])
  | some path =>
    have hpath : ExecPathAt k caller frame.rdi path := (hpath path).mp rfl
    obtain ⟨found, store, files', himage, hruns, hsched, hphys, hoffers⟩ := h.lookup path
    have hfiles : FilesFramed ∅ k.store store := h.life.objects.heap.handed.execImage himage
    have hlooked : KeepsPages (kernelPages b.archUserProgramEntry stackPages) k.phys.mem
        (k.setStore store).phys.mem := fun p _ x _ =>
      congrFun (congrArg Phys.mem hphys) x
    dsimp only
    cases found with
    | none =>
      have hexec : syscallExecPath b k path reusable = .ok (0#64, k.setStore store) := by
        unfold syscallExecPath
        rw [himage, ok_bind]
      rw [hexec, UserAccess.lift_bind_ok]
      exact .returned sysResultError hruns hsched hlooked hfiles (hanswer _)
    | some found =>
      obtain ⟨image, imageSize⟩ := found
      have hoff : Offers k.store path image imageSize store.phys :=
        (hoffers image imageSize _).mpr ⟨rfl, rfl⟩
      have hexec : syscallExecPath b k path reusable =
          syscallExecFound b (k.setStore store) image imageSize caller reusable := by
        unfold syscallExecPath
        rw [himage, ok_bind]
        dsimp only
        rw [hruns.bootstrap]
        rfl
      have hend := hruns.holder.exec.found hentry image imageSize reusable
      rw [hexec]
      generalize syscallExecFound b (k.setStore store) image imageSize caller reusable = x at hend
      cases hend with
      | failed hprep =>
        obtain ⟨l', hruns', hsched', hkeeps⟩ := hruns.prepareFailed hprep
        rw [UserAccess.lift_bind_ok]
        exact .returned sysResultError hruns' (hsched.trans hsched') (hlooked.trans hkeeps)
          (hfiles.trans (.of_eq (fun _ _ => rfl) rfl rfl rfl)) (hanswer _)
      | halted hne hprep =>
        refine .halted hrax ⟨path, image, imageSize, l, hpath, ⟨hoff.executable, hoff.image⟩, h.life.free, ?_⟩
        cases hprep with
        | noTables hplan hav length =>
          obtain ⟨a, l₁, hl⟩ := List.exists_cons_of_ne_nil hne
          rw [hl] at hav length ⊢
          exact ⟨_, a, l₁, hplan, rfl, hav, length⟩
      | refused hplan hp hrefused =>
        rw [hhook] at hrefused
        cases hrefused
      | unseeded hplan hp _ hseed hfds =>
        exact absurd (hruns.reseeded hp hseed).1 Bool.false_ne_true
      | @transferred plan a stackPage s' own' l' files₂ nodes₂ store₁ store₂ fdTable hplan hp _ hseed hfds
          hready =>
        obtain ⟨own'', l'', files₃, nodes₃, hruns'⟩ := hruns.transferred hp hplan hentry hseed
          (hsame path image imageSize _ hpath hoff)
        have htask := execTransferred_task ((k.setStore store).setPhys s') .task1
          (plan.bootstrap b.archUserProgramEntry a stackPage) fdTable store₂ reusable
        rw [UserAccess.lift_bind_ok]
        dsimp only
        rw [if_neg hready.frame]
        refine .replaced hrax hruns' ?_ ?_ ?_ (hruns.transferred_context hp hseed reusable)
          (hlooked.trans (hruns.transferred_keeps hp hplan hseed reusable))
          (hfiles.trans (hruns.transferred_files hp hseed reusable))
          ⟨path, image, imageSize, plan, a, stackPage, hpath, ⟨hoff.executable, hoff.image⟩, hplan, rfl,
            hruns.transferred_program hp hplan hentry hseed (hsame path image imageSize _ hpath hoff)⟩
        · exact execTransferred_other _ .task1 _ _ _ _
        · rw [htask]
        · rw [htask]

/-- Every call of the running user task comes to one of these ends. -/
theorem UserRuns.call
    (h : UserRuns K b.archUserProgramEntry reserved stackPages pool own k caller l files nodes)
    (hentry : b.archUserProgramEntry.toNat < 2 ^ 52) (hhook : b.userTestExecTransferFail = false)
    (hbuffer : frame.rax = sysRead → ∀ y, InBuffer frame.rsi frame.rdx y →
      ∀ t, mmuWalk k.phys.mem k.phys.cr3 y = some t → t.frame ≠ pageAddress b.archUserProgramEntry)
    (hsame : frame.rax = sysExec → ∀ path image imageSize s, ExecPathAt k caller frame.rdi path →
      Offers k.store path image imageSize s → SameWindow caller image imageSize) :
    UserCallEnd K b.archUserProgramEntry reserved stackPages pool k caller rsp frame reusable
      (kernelSyscallEntry b k rsp frame reusable).result := by
  unfold kernelSyscallEntry
  rw [schedCurrentUserContext_of_bootstrap h.bootstrap]
  dsimp only
  split_ifs with huser hread hwrite hopen
  · exact h.read (hbuffer hread) hread
  · exact h.write hwrite
  · exact h.open hopen
  · have hrax : frame.rax = sysExec := by tauto
    exact h.exec hentry hhook (hsame hrax) hrax
  · exact h.plain

end Exec

end Platinum
