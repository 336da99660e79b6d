import Platinum.ExecRelease
import Platinum.ExecTransfer
import Platinum.ExecMachine

/-!
# Who owns the pages from one exec to the next

Both programs live in the same physical window. Every page of the running program
is kept apart from the free list and from the heap, over any number of transfers,
as long as the window is handed over as a whole.
-/
namespace Platinum
open ByteMemory BlockList SharedTrie

/-- The stack, the image and the private tables. -/
def programPages (caller : UserTaskBootstrap) (own : Owner) : Set Word :=
  {p | p ∈ caller.userStackPage :: caller.imagePages ∨ ∃ x, own p = some x}

/-- A user task that is running, and a heap that has none of its pages. -/
structure ExecHolder (K : KernelTables) (own : Owner) (k : KernelState) (t : TaskId)
    (caller : UserTaskBootstrap) (l spaces others held files nodes : List Word) : Prop where
  exec : ExecCaller K own k t caller l spaces others held files nodes
  heap : HeapBeside (programPages caller own) others k.store.heap k.store.phys (objectPtrs k.store files nodes)

/-- The new image takes over the whole window of the caller, or none of its pages. -/
def WindowMatches (caller : UserTaskBootstrap) (image : Mem) (imageSize : Word) : Prop :=
  ∀ plan, execPlan image imageSize = some plan →
    (caller.imagePhysicalBegin = elfUserLoadBase ∧ caller.imagePhysicalEnd = plan.physicalEnd) ∨
      ∀ p ∈ plan.windowPages, p ∉ caller.imagePages

/-- After a transfer from `s'` no page of the new program is free. What became free is
the caller's stack, its private tables in `s`, and the image pages that the new
image does not use, each once. -/
def PagesHandedOver (s s' s'' : Phys) (caller bootstrap : UserTaskBootstrap) : Prop :=
  ∃ before after tables, FreeList s' before ∧ FreeList s'' after ∧
    (∀ p ∈ bootstrap.imagePages, p ∉ after) ∧ bootstrap.userStackPage ∉ after ∧
    (∀ p, PrivateTable s'' bootstrap.addressSpace p → p ∉ after) ∧
    tables.Nodup ∧ (∀ p, p ∈ tables ↔ PrivateTable s caller.addressSpace p) ∧
    (after.diff before).Perm (caller.userStackPage ::
      (caller.imagePages.filter (fun p => decide (p ∉ bootstrap.imagePages)) ++ tables))

/-- What the user task does between two transfers, and a transfer with a window that
matches. -/
inductive TransferStep (entry : Word) (k : KernelState) : KernelState → Prop
  | transfer {caller bootstrap : UserTaskBootstrap} {image : Mem} {imageSize next : Word} {s' : Phys}
      {reusable : Word × Word} {k' : KernelState} (hcurrent : schedCurrentUserBootstrap k = some caller)
      (hprep : syscallPrepareExecBootstrap entry k.phys image imageSize (some caller) =
        .ok (some bootstrap, s'))
      (hexec : schedExecCurrent (k.setPhys s') bootstrap reusable = .ok (next, k')) (hnext : next ≠ 0#64)
      (hempty : ∀ p, pageInRange p reusable.1 reusable.2 = false)
      (hmatch : WindowMatches caller image imageSize) : TransferStep entry k k'
  | lookup {path : List Byte} {found : Option (Mem × Word)} {store : Store}
      (hlookup : syscallExecImage k.store path = .ok (found, store)) : TransferStep entry k (k.setStore store)
  | write {caller : UserTaskBootstrap} {p : Word} {m : Mem}
      (hcurrent : schedCurrentUserBootstrap k = some caller)
      (hp : p ∈ caller.userStackPage :: caller.imagePages) (hm : ChangesOnly {p} k.phys.mem m) :
      TransferStep entry k (k.setPhys { k.phys with mem := m })

inductive TransferRun (entry : Word) (k₀ : KernelState) : KernelState → Prop
  | start : TransferRun entry k₀ k₀
  | step {k k' : KernelState} : TransferRun entry k₀ k → TransferStep entry k k' → TransferRun entry k₀ k'

section Pages

variable {K : KernelTables} {own own' : Owner} {k k' : KernelState} {t : TaskId}
  {caller bootstrap : UserTaskBootstrap} {l l' spaces others held files nodes : List Word}
  {image : Mem} {imageSize a stackPage entry p : Word} {plan : ElfPlan} {s s' : Phys}
  {reusable : Word × Word} {tables files₀ nodes₀ : List Word} {n : ℕ}

/-- Equal ranges are handed over, other images are freed as a whole. -/
lemma transferPages_eq (hempty : ∀ p, pageInRange p reusable.1 reusable.2 = false) :
    transferPages caller bootstrap reusable =
      if caller.imagePhysicalBegin = bootstrap.imagePhysicalBegin ∧
          caller.imagePhysicalEnd = bootstrap.imagePhysicalEnd then [caller.userStackPage]
      else caller.userStackPage :: caller.imagePages := by
  have hall (ps : List Word) : unowned reusable.1 reusable.2 ps = ps :=
    List.filter_eq_self.mpr fun p _ => by simp [hempty p]
  unfold transferPages releasedBootstrap
  rw [hall]
  split_ifs
  · change caller.userStackPage :: pageSpan 0#64 0#64 = _
    rw [show pageSpan 0#64 0#64 = [] by decide]
  · rfl

/-- With a matching window the release spares the pages that are still used. -/
lemma WindowMatches.transferPages (hmatch : WindowMatches caller image imageSize)
    (hplan : execPlan image imageSize = some plan)
    (hempty : ∀ p, pageInRange p reusable.1 reusable.2 = false) (entry a stackPage : Word) :
    transferPages caller (plan.bootstrap entry a stackPage) reusable = caller.userStackPage ::
      caller.imagePages.filter fun p => decide (p ∉ (plan.bootstrap entry a stackPage).imagePages) := by
  have hv := (elfCheck_valid hplan).1
  rw [transferPages_eq hempty]
  by_cases hsame : caller.imagePhysicalBegin = (plan.bootstrap entry a stackPage).imagePhysicalBegin ∧
      caller.imagePhysicalEnd = (plan.bootstrap entry a stackPage).imagePhysicalEnd
  · have himage : caller.imagePages = (plan.bootstrap entry a stackPage).imagePages := by
      unfold UserTaskBootstrap.imagePages
      rw [hsame.1, hsame.2]
    rw [if_pos hsame, himage, List.filter_eq_nil_iff.mpr (by simp)]
  · have hapart := (hmatch plan hplan).resolve_left hsame
    rw [if_neg hsame, List.filter_eq_self.mpr fun p hp => ?_]
    rw [ElfPlan.imagePages_bootstrap hv, decide_eq_true_eq]
    exact fun hw => hapart p hw hp

lemma CallerPages.program_used (h : CallerPages K own s caller l spaces) (hp : p ∈ programPages caller own) :
    p ∉ l := by
  rcases hp with hp | ⟨x, hx⟩
  · exact h.holds.used p hp
  · intro hl
    rw [h.inv.run.inv.free_own p hl] at hx
    cases hx

/-- With the new stack built the heap has neither the caller's pages nor those that
were taken for the new program. -/
lemma ExecHolder.framed (h : ExecHolder K own k t caller l spaces others held files nodes)
    (hp : Prepared K entry caller.imagePhysicalBegin caller.imagePhysicalEnd image plan k.phys own l a
      stackPage s' own' l') (hb : bootstrap.userStackPage = stackPage) :
    FdInv (HeapBeside (programPages caller own ∪ {p | p ∈ l ∧ p ∉ l'}) others)
      (framedStore (k.setPhys s') bootstrap) (tableFiles (k.task t).fdTable ++ held) files nodes := by
  obtain ⟨hfree, hfds⟩ := h.exec.framed hp hb
  obtain ⟨hsub, -⟩ := hp.taken_free
  obtain ⟨m, hstore, -⟩ := framedStore_eq k s' bootstrap
  rw [hstore] at hfree hfds ⊢
  refine ⟨hfds.inv.counts, h.heap.trade h.exec.pages.inv.run.inv.free hfree (fun p hp => .inl (hsub p hp))
    (fun p hp => ?_) fun p hp hm => ?_⟩
  · exact hp.elim .inr fun hp => .inl hp.1
  · exact hm.elim (fun hm => h.exec.pages.program_used hm (hsub p hp)) fun hm => hm.2 hp

/-- What is free after a transfer: the caller's tables, the pages it gave back, and the
rest of the free list. -/
def freeAfter (caller bootstrap : UserTaskBootstrap) (reusable : Word × Word) (tables l : List Word) :
    List Word :=
  tables.reverse ++ ((transferPages caller bootstrap reusable).reverse ++ l)

lemma mem_freeAfter : p ∈ freeAfter caller bootstrap reusable tables l ↔
    p ∈ tables ∨ p ∈ transferPages caller bootstrap reusable ∨ p ∈ l := by
  simp [freeAfter]

/-- The pages of the new program are held unless the release takes one of its image. -/
lemma ExecCaller.transferred_held (h : ExecCaller K own k t caller l spaces others held files nodes)
    (hplan : execPlan image imageSize = some plan)
    (hp : Prepared K entry caller.imagePhysicalBegin caller.imagePhysicalEnd image plan k.phys own l a
      stackPage s' own' l')
    (htables : PathTables own' caller.addressSpace firstPath tables)
    (hspare : ∀ q ∈ transferPages caller (plan.bootstrap entry a stackPage) reusable,
      q ∉ (plan.bootstrap entry a stackPage).imagePages) :
    ∀ p ∈ (plan.bootstrap entry a stackPage).userStackPage :: (plan.bootstrap entry a stackPage).imagePages,
      HeldPage K (Overlay.dropSpace own' caller.addressSpace)
        (freeAfter caller (plan.bootstrap entry a stackPage) reusable tables (l'.drop n)) p := by
  intro p hpp
  have hheld := hp.held_pages h.pages.exec hplan p hpp
  refine ⟨hheld.page, fun hm => ?_, by simp [Overlay.dropSpace, hheld.unowned], hheld.apart⟩
  rcases mem_freeAfter.mp hm with hm | hm | hm
  · obtain ⟨ρ, -, hρ⟩ := (htables.mem_iff p).mp hm
    rw [hheld.unowned] at hρ
    cases hρ
  · rcases List.mem_cons.mp hpp with rfl | hpp
    · -- the new stack was free when the caller had its pages
      exact h.pages.holds.used _ (mem_transferPages hm) hp.stack_mem
    · exact hspare p hm hpp
  · exact hheld.used (List.mem_of_mem_drop hm)

/-- A transfer that was made, up to the pages of the new program. -/
structure TransferMade (K : KernelTables) (own : Owner) (entry : Word) (k : KernelState) (t : TaskId)
    (caller : UserTaskBootstrap) (l spaces others held : List Word) (image : Mem) (imageSize : Word)
    (reusable : Word × Word) (plan : ElfPlan) (a stackPage : Word) (s' : Phys) (own' : Owner)
    (l' tables : List Word) (n : ℕ) (files nodes : List Word) (k' : KernelState) : Prop where
  plan_eq : execPlan image imageSize = some plan
  prepared : Prepared K entry caller.imagePhysicalBegin caller.imagePhysicalEnd image plan k.phys own l a
    stackPage s' own' l'
  path : PathTables own' caller.addressSpace firstPath tables
  inv : ExecRunInv K (Overlay.dropSpace own' caller.addressSpace) k'.phys
    (freeAfter caller (plan.bootstrap entry a stackPage) reusable tables (l'.drop n))
    ((a :: spaces).filter (· ≠ caller.addressSpace))
  loaded : k'.phys.cr3 = a
  made : ∃ fdTable store₂, k' = execTransferred (k.setPhys s') t (plan.bootstrap entry a stackPage) fdTable
      store₂ reusable ∧
    FreeList store₂.phys (l'.drop n) ∧ TableOk store₂ fdTable ∧ NamespaceOk store₂ ∧
    FdInv (HeapBeside (programPages caller own ∪ {p | p ∈ l ∧ p ∉ l'}) others) store₂
      (tableFiles fdTable ++ held) files nodes

/-- Every transfer that succeeds is one. -/
lemma ExecHolder.transfer (h : ExecHolder K own k t caller l spaces others held files nodes)
    (hentry : entry.toNat < 2 ^ 52)
    (hprep : syscallPrepareExecBootstrap entry k.phys image imageSize (some caller) =
      .ok (some bootstrap, s')) {next : Word}
    (hexec : schedExecCurrent (k.setPhys s') bootstrap reusable = .ok (next, k')) (hnext : next ≠ 0#64) :
    ∃ plan a stackPage own' l' tables n files' nodes', bootstrap = plan.bootstrap entry a stackPage ∧
      TransferMade K own entry k t caller l spaces others held image imageSize reusable plan a stackPage s' own'
        l' tables n files' nodes' k' := by
  obtain ⟨plan, a, stackPage, own', l', hplan, rfl, hp⟩ := prepared_of_run h.exec.pages.exec hentry rfl hprep
  have hb : (plan.bootstrap entry a stackPage).userStackPage = stackPage := rfl
  obtain ⟨-, hfds⟩ := h.exec.framed hp hb
  obtain ⟨store₁, seeded, fdTable, store₂, files', nodes', hr, hinv, htable, hroot, hready⟩ :=
    (h.framed hp hb).reseed (heapBeside_spec _ others) hfds.table hfds.few
  rw [h.exec.schedExec hprep hr reusable] at hexec
  cases seeded with
  | false => exact absurd (Prod.mk.inj (Except.ok.inj hexec)).1.symm hnext
  | true =>
    rw [if_pos rfl] at hexec
    obtain ⟨-, rfl⟩ := Prod.mk.inj (Except.ok.inj hexec)
    obtain ⟨n, tables, htables, hphys, hfree, hrun⟩ := h.exec.transferred hp hr reusable
    refine ⟨plan, a, stackPage, own', l', tables, n, files', nodes', rfl, hplan, hp, htables, hrun, ?_, fdTable,
      store₂, rfl, hfree, htable, hfds.walk.congr hroot hready, hinv⟩
    rw [hphys]
    exact (freeAll_globals _ _).cr3

section Made

variable (hm : TransferMade K own entry k t caller l spaces others held image imageSize reusable plan a
    stackPage s' own' l' tables n files nodes k')
  (h : ExecHolder K own k t caller l spaces others held files₀ nodes₀)
include hm h

/-- What a transfer frees was the caller's. -/
lemma TransferMade.freed_from
    (hp : p ∈ freeAfter caller (plan.bootstrap entry a stackPage) reusable tables (l'.drop n)) :
    p ∈ l'.drop n ∨ p ∈ programPages caller own ∪ {p | p ∈ l ∧ p ∉ l'} := by
  rcases mem_freeAfter.mp hp with hp | hp | hp
  · obtain ⟨ρ, -, hρ⟩ := (hm.path.mem_iff p).mp hp
    exact .inr (.inl (.inr ⟨_, hm.prepared.other_own p _ ρ hρ (hm.prepared.space_ne h.exec.pages).symm⟩))
  · exact .inr (.inl (.inl (mem_transferPages hp)))
  · exact .inl hp

/-- What the new program has was the caller's or free. -/
lemma TransferMade.held_from
    (hp : p ∈ programPages (plan.bootstrap entry a stackPage) (Overlay.dropSpace own' caller.addressSpace)) :
    p ∈ programPages caller own ∪ {p | p ∈ l ∧ p ∉ l'} := by
  have hprep := hm.prepared
  have hv := (elfCheck_valid hm.plan_eq).1
  rcases hp with hp | ⟨⟨b, ρ⟩, hρ⟩
  · have hused := (hprep.held_pages h.exec.pages.exec hm.plan_eq p hp).used
    rcases List.mem_cons.mp hp with rfl | hp
    · exact .inr ⟨hprep.stack_mem, hused⟩
    · rw [ElfPlan.imagePages_bootstrap hv] at hp
      cases hr : pageInRange p caller.imagePhysicalBegin caller.imagePhysicalEnd with
      | true =>
        have hp := (h.exec.pages.range_iff (hv.windowPages_page hp)).mp hr
        exact .inl (.inl (List.mem_cons_of_mem _ hp))
      | false =>
        obtain ⟨l₀, rfl, hav, -⟩ := hprep.head
        exact .inr ⟨List.mem_cons_of_mem a (hav p (mem_unowned.mpr ⟨hp, hr⟩)), hused⟩
  · obtain ⟨hρ, -⟩ := Overlay.dropSpace_eq_some.mp hρ
    by_cases hb : b = a
    · subst hb
      refine .inr ⟨hprep.taken_free.2 p ρ hρ, fun hl => ?_⟩
      rw [hprep.inv.free_own p hl] at hρ
      cases hρ
    · exact .inl (.inr ⟨_, hprep.other_own p b ρ hρ hb⟩)

/-- The new program is a caller again. -/
lemma TransferMade.holder (hspare : ∀ q ∈ transferPages caller (plan.bootstrap entry a stackPage) reusable,
      q ∉ (plan.bootstrap entry a stackPage).imagePages) :
    ExecHolder K (Overlay.dropSpace own' caller.addressSpace) k' t (plan.bootstrap entry a stackPage)
      (freeAfter caller (plan.bootstrap entry a stackPage) reusable tables (l'.drop n))
      ((a :: spaces).filter (· ≠ caller.addressSpace)) others held files nodes := by
  have hp := hm.prepared
  have hv := (elfCheck_valid hm.plan_eq).1
  have hheld := h.exec.transferred_held (n := n) hm.plan_eq hp hm.path hspare
  have hpages : CallerPages K (Overlay.dropSpace own' caller.addressSpace) k'.phys
      (plan.bootstrap entry a stackPage)
      (freeAfter caller (plan.bootstrap entry a stackPage) reusable tables (l'.drop n))
      ((a :: spaces).filter (· ≠ caller.addressSpace)) := by
    refine ⟨hm.inv, h.exec.pages.limit, ?_, hm.loaded, rfl, fun p hp => hheld p (List.mem_cons_of_mem _ hp),
      hheld _ List.mem_cons_self, ?_⟩
    · exact List.mem_filter.mpr ⟨List.mem_cons_self, decide_eq_true (hp.space_ne h.exec.pages)⟩
    · rw [ElfPlan.imagePages_bootstrap hv]
      exact hp.stack_not_window h.exec.pages.exec hv
  obtain ⟨fdTable, store₂, rfl, hfree, htable, hwalk, hinv⟩ := hm.made
  have hheap : HeapBeside (programPages (plan.bootstrap entry a stackPage)
      (Overlay.dropSpace own' caller.addressSpace)) others store₂.heap
      (execTransferred (k.setPhys s') t (plan.bootstrap entry a stackPage) fdTable store₂ reusable).phys
      (objectPtrs store₂ files nodes) :=
    hinv.heap.trade hfree hpages.inv.run.inv.free (fun p hpp => hm.freed_from h hpp)
      (fun p hpp => .inr (hm.held_from h hpp)) fun p hpp hm => hpages.program_used hm hpp
  have hfds : CallerFds others held store₂ fdTable files nodes :=
    ⟨⟨hinv.counts, hinv.heap.heapWith⟩, htable, h.exec.fds.few, hwalk⟩
  have htask := execTransferred_task (k.setPhys s') t (plan.bootstrap entry a stackPage) fdTable store₂ reusable
  refine ⟨⟨h.exec.task, h.exec.started, ?_, hpages, ?_⟩, hheap⟩
  · obtain ⟨hkind, hstate, -⟩ := h.exec.running
    unfold schedCurrentUserBootstrap
    rw [show (execTransferred (k.setPhys s') t (plan.bootstrap entry a stackPage) fdTable store₂
      reusable).current = some t from h.exec.task]
    dsimp only
    rw [htask, if_neg (by simp [hkind, hstate]), if_neg]
    exact (hp.inv.own_page hp.space).ne_zero
  · rw [htask]
    exact hfds.setPhys hheap.heapWith

/-- The caller's private tables are those that the transfer frees. -/
lemma TransferMade.tables_iff (p : Word) : p ∈ tables ↔ PrivateTable k.phys caller.addressSpace p := by
  rw [hm.path.mem_iff, h.exec.pages.inv.run.private_iff h.exec.pages.space]
  constructor
  · rintro ⟨ρ, -, hρ⟩
    exact ⟨ρ, hm.prepared.other_own p _ ρ hρ (hm.prepared.space_ne h.exec.pages).symm⟩
  · rintro ⟨ρ, hρ⟩
    exact ⟨ρ, h.exec.pages.inv.positions p _ ρ hρ, hm.prepared.keep p _ hρ⟩

/-- What a transfer frees had not been free. -/
lemma TransferMade.diff_perm :
    ((freeAfter caller (plan.bootstrap entry a stackPage) reusable tables (l'.drop n)).diff l').Perm
      (transferPages caller (plan.bootstrap entry a stackPage) reusable ++ tables) := by
  have hnd := hm.inv.run.inv.free.nodup
  have hgiven :
      (tables.reverse ++ (transferPages caller (plan.bootstrap entry a stackPage) reusable).reverse).Nodup := by
    rw [freeAfter, ← List.append_assoc] at hnd
    exact (List.nodup_append.mp hnd).1
  have hback :
      (tables.reverse ++ (transferPages caller (plan.bootstrap entry a stackPage) reusable).reverse).Perm
      (transferPages caller (plan.bootstrap entry a stackPage) reusable ++ tables) :=
    ((List.reverse_perm _).append (List.reverse_perm _)).trans List.perm_append_comm
  refine (List.perm_ext_iff_of_nodup hnd.diff (hback.nodup_iff.mp hgiven)).mpr fun p => ?_
  rw [hnd.mem_sdiff_iff, mem_freeAfter, List.mem_append]
  constructor
  · rintro ⟨hp | hp | hp, hl⟩
    · exact .inr hp
    · exact .inl hp
    · exact absurd (List.mem_of_mem_drop hp) hl
  · rintro (hp | hp)
    · exact ⟨.inr (.inl hp), fun hl => h.exec.pages.holds.used p (mem_transferPages hp)
        (hm.prepared.taken_free.1 p hl)⟩
    · refine ⟨.inl hp, fun hl => ?_⟩
      obtain ⟨ρ, -, hρ⟩ := (hm.path.mem_iff p).mp hp
      rw [hm.prepared.inv.free_own p hl] at hρ
      cases hρ

/-- When the release spares the pages that are still used, no page of the new image is free. -/
lemma TransferMade.spare (hpages : transferPages caller (plan.bootstrap entry a stackPage) reusable =
      caller.userStackPage :: caller.imagePages.filter
        fun p => decide (p ∉ (plan.bootstrap entry a stackPage).imagePages)) :
    ∀ q ∈ transferPages caller (plan.bootstrap entry a stackPage) reusable,
      q ∉ (plan.bootstrap entry a stackPage).imagePages := by
  rw [hpages]
  intro q hq
  rcases List.mem_cons.mp hq with rfl | hq
  · rw [ElfPlan.imagePages_bootstrap (elfCheck_valid hm.plan_eq).1]
    exact h.exec.pages.stack_not_window hm.prepared
  · exact of_decide_eq_true (List.mem_filter.mp hq).2

/-- The pages are handed over exactly when the window matches. -/
lemma TransferMade.handedOver_iff (hempty : ∀ p, pageInRange p reusable.1 reusable.2 = false) :
    PagesHandedOver k.phys s' k'.phys caller (plan.bootstrap entry a stackPage) ↔
      WindowMatches caller image imageSize := by
  have hv := (elfCheck_valid hm.plan_eq).1
  have hfree := hm.inv.run.inv.free
  constructor
  · rintro ⟨before, after, tables', -, hafter, himage, -⟩ plan' hplan'
    obtain rfl := Option.some.inj (hplan'.symm.trans hm.plan_eq)
    obtain rfl := hafter.unique hfree
    by_contra hno
    push Not at hno
    obtain ⟨hrange, p, hpw, hpc⟩ := hno
    -- a shared page is freed with the caller's image
    refine himage p ?_ (mem_freeAfter.mpr (.inr (.inl ?_)))
    · rw [ElfPlan.imagePages_bootstrap hv]
      exact hpw
    · rw [transferPages_eq hempty, if_neg fun hsame => hrange hsame.1 hsame.2]
      exact List.mem_cons_of_mem _ hpc
  · intro hmatch
    have hnew := (hm.holder h (hm.spare h (hmatch.transferPages hm.plan_eq hempty _ _ _))).exec.pages
    refine ⟨l', _, tables, hm.prepared.inv.free, hfree, fun p hp => (hnew.image p hp).used, hnew.stack.used,
      fun p hp => hnew.not_free (.inr (.inr hp)), hm.path.nodup, hm.tables_iff h, ?_⟩
    have hperm := hm.diff_perm h
    rwa [hmatch.transferPages hm.plan_eq hempty] at hperm

end Made

lemma ExecHolder.lookup (h : ExecHolder K own k t caller l spaces others held files nodes) {path : List Byte}
    {found : Option (Mem × Word)} {store : Store}
    (hlookup : syscallExecImage k.store path = .ok (found, store)) :
    ∃ n files', ExecHolder K own (k.setStore store) t caller (l.drop n) spaces others held files' nodes := by
  have hinv : FdInv (HeapBeside (programPages caller own) others) k.store
      (tableFiles (k.task t).fdTable ++ held) files nodes := ⟨h.exec.fds.inv.counts, h.heap⟩
  have hsmall := h.exec.fds.small
  obtain ⟨image, store', files', hrun, hinv', hkept, -, hg, -⟩ :=
    hinv.execImage (heapBeside_spec _ others) h.exec.fds.walk trivial (by omega) path
  obtain ⟨-, rfl⟩ := Prod.mk.inj (Except.ok.inj (hrun.symm.trans hlookup))
  obtain ⟨n, hcaller⟩ := h.exec.setStore ⟨hinv'.counts, hinv'.heap.heapWith⟩ hkept hg
  exact ⟨n, files', hcaller, hinv'.heap⟩

lemma ExecHolder.write (h : ExecHolder K own k t caller l spaces others held files nodes)
    (hp : p ∈ caller.userStackPage :: caller.imagePages) {m : Mem} (hm : ChangesOnly {p} k.phys.mem m) :
    ExecHolder K own (k.setPhys { k.phys with mem := m }) t caller l spaces others held files nodes := by
  have hexec := h.exec.written (h.exec.pages.held p hp) hm
  exact ⟨hexec, h.heap.trade h.exec.pages.inv.run.inv.free hexec.pages.inv.run.inv.free (fun p hp => .inl hp)
    (fun p hp => .inr hp) fun p hp hm => h.exec.pages.program_used hm hp⟩

/-- Each step leaves a running program that holds its pages. -/
lemma ExecHolder.step (h : ExecHolder K own k t caller l spaces others held files nodes)
    (hentry : entry.toNat < 2 ^ 52) (hstep : TransferStep entry k k') :
    ∃ own' caller' l' spaces' files' nodes',
      ExecHolder K own' k' t caller' l' spaces' others held files' nodes' := by
  cases hstep with
  | transfer hcurrent hprep hexec hnext hempty hmatch =>
    obtain rfl := Option.some.inj (h.exec.bootstrap.symm.trans hcurrent)
    obtain ⟨plan, a, stackPage, own', l', tables, n, files', nodes', rfl, hm⟩ :=
      h.transfer hentry hprep hexec hnext
    exact ⟨_, _, _, _, _, _, hm.holder h (hm.spare h (hmatch.transferPages hm.plan_eq hempty _ _ _))⟩
  | lookup hlookup =>
    obtain ⟨n, files', h'⟩ := h.lookup hlookup
    exact ⟨_, _, _, _, _, _, h'⟩
  | write hcurrent hp hm =>
    obtain rfl := Option.some.inj (h.exec.bootstrap.symm.trans hcurrent)
    exact ⟨_, _, _, _, _, _, h.write hp hm⟩

lemma ExecHolder.run {k₀ : KernelState} (h : ExecHolder K own k₀ t caller l spaces others held files nodes)
    (hentry : entry.toNat < 2 ^ 52) (hrun : TransferRun entry k₀ k) :
    ∃ own' caller' l' spaces' files' nodes',
      ExecHolder K own' k t caller' l' spaces' others held files' nodes' := by
  induction hrun with
  | start => exact ⟨_, _, _, _, _, _, h⟩
  | step _ hstep ih =>
    obtain ⟨own', caller', l', spaces', files', nodes', h'⟩ := ih
    exact h'.step hentry hstep

end Pages

/-- The pages of a second program of two pages. -/
def growPages : List Word :=
  [0x02206000#64, 0x02101000#64, 0x02207000#64, 0x02208000#64, 0x02209000#64, 0x0220A000#64]

/-- The running user task holds its pages. -/
lemma LoadedMachine.holder {rest : List Word} {K : KernelTables} {own : Owner} {s₀ : Phys}
    {k₀ k₁ k : KernelState} {L : List Block} (h : LoadedMachine rest K own s₀ k₀)
    (hs : MachineStarted k₀ k₁ k rest)
    (hheap : HeapState k₀.store.heap k₀.phys [0x01F00000#64] [] L (0x02205000#64 :: rest))
    (hown : ∀ p x, own p = some x → SparePage p) :
    ∃ held files nodes,
      ExecHolder K own k .task1 sampleBootstrap rest [0x02200000#64] [] held files nodes := by
  have hbeside : HeapBeside (programPages sampleBootstrap own) [] k₀.store.heap k₀.phys [] := by
    refine ⟨_, L, _, hheap, fun p hp hm => ?_⟩
    have hprogram : sampleBootstrap.userStackPage :: sampleBootstrap.imagePages =
        [0x02204000#64, 0x02100000#64] := by decide
    have hm : p ∈ [0x02204000#64, 0x02100000#64] ∨ ∃ x, own p = some x := hprogram ▸ hm
    rcases hp with hp | hp
    · obtain rfl := List.mem_singleton.mp hp
      rcases hm with hm | ⟨x, hx⟩
      · exact absurd hm (by decide)
      · exact absurd (hown _ x hx) (by decide)
    · rcases hm with hm | ⟨x, hx⟩
      · simp only [List.mem_cons, List.not_mem_nil, or_false] at hm
        rcases hm with rfl | rfl
        · exact h.stack.1 hp
        · exact (h.image _ (by constructor <;> decide) (by decide)).1 hp
      · rw [h.inv.run.inv.free_own p hp] at hx
        cases hx
  obtain ⟨held, files, nodes, hcaller, hkept⟩ := h.callerBeside hs hbeside
  exact ⟨held, files, nodes, hcaller, hkept⟩

/-- The sample program writes to its image and is then replaced. -/
lemma sample_transfer {rest : List Word} {image : Mem} {imageSize : Word} {plan : ElfPlan}
    (hps : ∀ p ∈ bootPages ++ rest, SparePage p) (hnd : (bootPages ++ rest).Nodup)
    (hplan : execPlan image imageSize = some plan)
    (hav : ∀ p ∈ plan.claimed 0x02100000#64 0x02101000#64, p ∈ rest.tail)
    (hlen : 4 ≤ (rest.tail.diff (plan.claimed 0x02100000#64 0x02101000#64)).length) :
    ∃ K own k held files nodes bootstrap s' next k',
      ExecHolder K own k .task1 sampleBootstrap rest [0x02200000#64] [] held files nodes ∧
      syscallPrepareExecBootstrap 0x00100000#64 (withPathState k).phys image imageSize
        (some sampleBootstrap) = .ok (some bootstrap, s') ∧
      schedExecCurrent ((withPathState k).setPhys s') bootstrap (0#64, 0#64) = .ok (next, k') ∧
      next ≠ 0#64 := by
  obtain ⟨-, K, own, s₀, k₀, -, hm, ⟨L, hheap⟩, hown⟩ := loadedMachine_exists hps hnd
  obtain ⟨k₁, k, hs⟩ := hm.starts
  obtain ⟨held, files, nodes, h⟩ := hm.holder hs hheap hown
  obtain ⟨reserved, files₂, nodes₂, hfds⟩ := hm.userFds hs
  have hcaller := h.exec.written (h.exec.pages.image 0x02100000#64 (by decide)) (withPath_frame k.phys.mem)
  obtain ⟨a, stackPage, s', own', l', hprep, -⟩ := prepare_succeeds (some sampleBootstrap)
    hcaller.pages.exec (show (0x00100000#64 : Word).toNat < 2 ^ 52 by decide) rfl hplan hav hlen
  have hfds' : UserFds reserved ((withPathState k).setPhys s') files₂ nodes₂ :=
    hfds.other (s := s') (c := (withPathState k).store.serial) rfl rfl
  have hready := hcaller.ready hprep
  obtain ⟨store₁, fdTable, store₂, files', nodes', -, -, -, hexec, -⟩ :=
    hfds'.transfer hcaller.task hready (0#64, 0#64)
  exact ⟨K, own, k, held, files, nodes, _, s', _, _, h, hprep, hexec, hready.frame⟩

/-- After any number of transfers with matching windows, the next one hands over the
pages if and only if its window matches. -/
theorem exec_pagesHandedOver_iff {K : KernelTables} {own : Owner} {k₀ k k' : KernelState} {t : TaskId}
    {caller₀ caller bootstrap : UserTaskBootstrap} {l spaces others held files nodes : List Word}
    (h : ExecHolder K own k₀ t caller₀ l spaces others held files nodes) {entry : Word}
    (hentry : entry.toNat < 2 ^ 52) (hrun : TransferRun entry k₀ k) {image : Mem} {imageSize next : Word}
    {s' : Phys} {reusable : Word × Word} (hcurrent : schedCurrentUserBootstrap k = some caller)
    (hprep : syscallPrepareExecBootstrap entry k.phys image imageSize (some caller) =
      .ok (some bootstrap, s'))
    (hexec : schedExecCurrent (k.setPhys s') bootstrap reusable = .ok (next, k')) (hnext : next ≠ 0#64)
    (hempty : ∀ p, pageInRange p reusable.1 reusable.2 = false) :
    PagesHandedOver k.phys s' k'.phys caller bootstrap ↔ WindowMatches caller image imageSize := by
  obtain ⟨own', caller', l', spaces', files', nodes', h'⟩ := h.run hentry hrun
  obtain rfl := Option.some.inj (h'.exec.bootstrap.symm.trans hcurrent)
  obtain ⟨plan, a, stackPage, own₂, l₂, tables, n, files₂, nodes₂, rfl, hm⟩ :=
    h'.transfer hentry hprep hexec hnext
  exact hm.handedOver_iff h' hempty

/-- The sample program replaces itself. -/
theorem exec_pagesHandedOver_iff_sample : ∃ (k k' : KernelState) (s' : Phys)
    (bootstrap : UserTaskBootstrap) (next : Word),
    syscallPrepareExecBootstrap 0x00100000#64 k.phys (sampleImage 1) 120#64 (some sampleBootstrap) =
      .ok (some bootstrap, s') ∧
    schedExecCurrent (k.setPhys s') bootstrap (0#64, 0#64) = .ok (next, k') ∧ next ≠ 0#64 ∧
    PagesHandedOver k.phys s' k'.phys sampleBootstrap bootstrap := by
  have hps : ∀ p ∈ bootPages ++ secondPages, SparePage p := by simp [bootPages, secondPages, SparePage]
  have hclaim : (samplePlan 1#64).claimed 0x02100000#64 0x02101000#64 = [] := by decide
  obtain ⟨K, own, k, held, files, nodes, bootstrap, s', next, k', h, hprep, hexec, hnext⟩ :=
    sample_transfer hps (by decide) execPlan_one (by simp [hclaim]) (by rw [hclaim]; decide)
  have hrun : TransferRun 0x00100000#64 k (withPathState k) :=
    .step .start (.write h.exec.bootstrap (by decide) (withPath_frame k.phys.mem))
  refine ⟨withPathState k, k', s', bootstrap, next, hprep, hexec, hnext, ?_⟩
  refine (exec_pagesHandedOver_iff h (by decide) hrun h.exec.bootstrap hprep hexec hnext
    (by simp [pageInRange])).mpr fun plan hplan => .inl ?_
  obtain rfl := Option.some.inj (execPlan_one.symm.trans hplan)
  decide

/-- A program of one page that is replaced by one of two pages: the page they share is
free while the new program runs on it. -/
theorem exec_frees_shared_page : ∃ K own k held files nodes bootstrap s' next k' after,
    ExecHolder K own k .task1 sampleBootstrap growPages [0x02200000#64] [] held files nodes ∧
    syscallPrepareExecBootstrap 0x00100000#64 k.phys (sampleImage 2) 120#64 (some sampleBootstrap) =
      .ok (some bootstrap, s') ∧
    schedExecCurrent (k.setPhys s') bootstrap (0#64, 0#64) = .ok (next, k') ∧ next ≠ 0#64 ∧
    FreeList k'.phys after ∧ 0x02100000#64 ∈ bootstrap.imagePages ∧ 0x02100000#64 ∈ after ∧
    ¬ PagesHandedOver k.phys s' k'.phys sampleBootstrap bootstrap := by
  have hps : ∀ p ∈ bootPages ++ growPages, SparePage p := by simp [bootPages, growPages, SparePage]
  have hclaim : (samplePlan 2#64).claimed 0x02100000#64 0x02101000#64 = [0x02101000#64] := by decide
  obtain ⟨K, own, k, held, files, nodes, bootstrap, s', next, k', h, hprep, hexec, hnext⟩ :=
    sample_transfer hps (by decide) execPlan_two (by simp [hclaim, growPages])
      (by rw [hclaim, List.diff_cons, List.diff_nil]; decide)
  have h : ExecHolder K own (withPathState k) .task1 sampleBootstrap growPages [0x02200000#64] [] held files
      nodes := h.write (by decide) (withPath_frame k.phys.mem)
  obtain ⟨plan, a, stackPage, own', l', tables, n, files', nodes', rfl, hm⟩ :=
    h.transfer (by decide) hprep hexec hnext
  obtain rfl := Option.some.inj (execPlan_two.symm.trans hm.plan_eq)
  have hempty : ∀ p, pageInRange p (0#64, 0#64).1 (0#64, 0#64).2 = false := by simp [pageInRange]
  have himage : 0x02100000#64 ∈ ((samplePlan 2#64).bootstrap 0x00100000#64 a stackPage).imagePages := by
    rw [ElfPlan.imagePages_bootstrap (elfCheck_valid execPlan_two).1]
    decide
  have hafter := hm.inv.run.inv.free
  have hfreed : 0x02100000#64 ∈ freeAfter sampleBootstrap
      ((samplePlan 2#64).bootstrap 0x00100000#64 a stackPage) (0#64, 0#64) tables (l'.drop n) := by
    refine mem_freeAfter.mpr (.inr (.inl ?_))
    have hgrown : sampleBootstrap.imagePhysicalEnd ≠
        ((samplePlan 2#64).bootstrap 0x00100000#64 a stackPage).imagePhysicalEnd := by
      change (0x02101000#64 : Word) ≠ 0x02102000#64
      decide
    rw [transferPages_eq hempty, if_neg fun hsame => hgrown hsame.2]
    decide
  refine ⟨K, own, _, held, files, nodes, _, s', next, k', _, h, hprep, hexec, hnext, hafter, himage, hfreed,
    ?_⟩
  rintro ⟨before, after, tables', -, hafter', hspared, -⟩
  obtain rfl := hafter'.unique hafter
  exact hspared _ himage hfreed

end Platinum
