import Platinum.ExecHalt

/-!
# Giving back a program that was not handed over

`syscall_release_bootstrap` frees every page of the prepared image. It does not
know which of them the caller had lent.
-/
namespace Platinum
open ByteMemory WordArith SharedTrie

/-- The free list is `l` again, each page once, but for the pages that left it
between `before` and `after`, while the console was seeded. -/
def Restored (l : List Word) (before after released : Phys) : Prop :=
  ∃ l₁ l₂ l₃, FreeList before l₁ ∧ FreeList after l₂ ∧ FreeList released l₃ ∧
    (l₁.diff l₂ ++ l₃).Perm l

/-- No page of the caller's image, its stack and its page tables is free. -/
def CallerKept (s : Phys) (caller : UserTaskBootstrap) (released : Phys) : Prop :=
  ∀ l p, FreeList released l →
    p = caller.userStackPage ∨ p ∈ caller.imagePages ∨ PrivateTable s caller.addressSpace p → p ∉ l

section Release

variable {K : KernelTables} {own own' : Owner} {b : Build} {k k' : KernelState} {t : TaskId}
  {caller bootstrap : UserTaskBootstrap} {l l' l₂ spaces others held files nodes : List Word}
  {image : Mem} {imageSize a stackPage entry rb re : Word} {reusable : Word × Word} {plan : ElfPlan}
  {s s' s₂ : Phys}

lemma List.perm_take_diff_drop {α : Type} [DecidableEq α] {l : List α} (hnd : l.Nodup) (n : ℕ) :
    (l.diff (l.drop n)).Perm (l.take n) := by
  refine (List.perm_ext_iff_of_nodup hnd.diff (hnd.sublist (List.take_sublist n l))).mpr fun x => ?_
  have hsplit : (l.take n ++ l.drop n).Nodup := by rwa [List.take_append_drop]
  obtain ⟨-, -, hcross⟩ := List.nodup_append.mp hsplit
  rw [hnd.mem_sdiff_iff]
  constructor
  · rintro ⟨hx, hno⟩
    rw [← List.take_append_drop n l, List.mem_append] at hx
    exact hx.resolve_right hno
  · exact fun hx => ⟨List.mem_of_mem_take hx, fun hd => hcross x hx x hd rfl⟩

/-- The scheduler's and the exec handler's release do the same. -/
lemma syscallReleaseBootstrap_eq (s : Phys) (v : UserTaskBootstrap) (b : Build)
    (ha : v.addressSpace ≠ 0#64) : syscallReleaseBootstrap s (b.transferred v) =
      (schedReleaseUserBootstrap s v (0#64, 0#64)).1 := by
  unfold syscallReleaseBootstrap schedReleaseUserBootstrap
  rw [if_neg ha]
  unfold Build.transferred
  split_ifs <;> rfl

lemma unowned_empty (ps : List Word) : unowned 0#64 0#64 ps = ps :=
  List.filter_eq_self.mpr fun p _ => by simp [pageInRange]

/-- What a preparation took from the free list. -/
lemma Prepared.perm (hp : Prepared K entry rb re image plan s own l a stackPage s' own' l')
    (h : ExecContext K own s l rb re) (hplan : execPlan image imageSize = some plan) :
    ∃ tables : List Word, (∀ p, p ∈ tables ↔ ∃ ρ, own' p = some (a, ρ)) ∧ tables.Nodup ∧
      (tables ++ (plan.claimed rb re ++ stackPage :: l')).Perm l := by
  have hv := (elfCheck_valid hplan).1
  obtain ⟨l₀, rfl, hav, tabs, hdiff, -, htabs⟩ := hp.head
  have hclaim : (plan.claimed rb re).Nodup := hv.windowPages_nodup.filter _
  have hperm := append_diff_perm hclaim hav
  rw [hdiff] at hperm
  have hall : (a :: tabs ++ (plan.claimed rb re ++ stackPage :: l')).Perm (a :: l₀) := by
    refine List.Perm.trans ?_ (hperm.cons a)
    refine List.perm_iff_count.mpr fun x => ?_
    simp only [List.count_append, List.count_cons]
    omega
  exact ⟨a :: tabs, htabs, (List.nodup_append.mp (hall.nodup_iff.mpr h.inv.free.nodup)).1, hall⟩

/-- What comes back: the tables, the stack and the whole window. -/
lemma Prepared.given_back (hp : Prepared K entry rb re image plan s own l a stackPage s' own' l')
    (h : ExecContext K own s l rb re) (hplan : execPlan image imageSize = some plan) (b : Build)
    (h₂ : ExecRunInv K own' s₂ l₂ (a :: spaces)) (hsub : ∀ p ∈ l₂, p ∈ l') :
    ∃ tables l₃, FreeList (syscallReleaseBootstrap s₂ (b.transferred (plan.bootstrap entry a stackPage))) l₃ ∧
      (tables ++ (plan.claimed rb re ++ stackPage :: l')).Perm l ∧
      (tables ++ (plan.windowPages ++ stackPage :: l₂)).Perm l₃ := by
  have hv := (elfCheck_valid hplan).1
  have hholds := hp.holds h hplan h₂.run hsub
  obtain ⟨tables, htables, hnd, hperm⟩ := hp.perm h hplan
  obtain ⟨freed, hfreed, hlist, -⟩ := schedReleaseUserBootstrap_list h₂.run hholds (0#64, 0#64)
  have ha : (plan.bootstrap entry a stackPage).addressSpace ≠ 0#64 :=
    (h₂.run.inv.own_page (h₂.run.space a (by simp))).ne_zero
  rw [← syscallReleaseBootstrap_eq s₂ _ b ha, unowned_empty,
    ElfPlan.imagePages_bootstrap hv] at hlist
  have hsame : freed.Perm tables := by
    refine (List.perm_ext_iff_of_nodup hfreed.nodup hnd).mpr fun p => ?_
    rw [hfreed.mem_iff, htables]
    exact exists_congr fun ρ => ⟨fun hρ => hρ.2, fun hρ => ⟨h₂.positions p a ρ hρ, hρ⟩⟩
  refine ⟨tables, _, hlist, hperm, ?_⟩
  refine List.perm_iff_count.mpr fun x => ?_
  have hcount := hsame.count_eq x
  change List.count x _ = List.count x (_ ++ ((stackPage :: plan.windowPages).reverse ++ l₂))
  simp only [List.count_append, List.count_cons, List.count_reverse]
  omega

/-- A program is prepared, and its transfer fails. -/
lemma ExecCaller.transferFailed (h : ExecCaller K own k t caller l spaces others held files nodes)
    (hp : Prepared K entry caller.imagePhysicalBegin caller.imagePhysicalEnd image plan k.phys own l a
      stackPage s' own' l')
    (hrun : syscallPrepareExecBootstrap entry k.phys image imageSize (some caller) =
      .ok (some (plan.bootstrap entry a stackPage), s'))
    (hfail : schedExecCurrent (k.setPhys s') (b.transferred (plan.bootstrap entry a stackPage)) reusable =
      .ok (0#64, k')) :
    ∃ n, ExecRunInv K own' k'.phys (l'.drop n) (a :: spaces) := by
  cases hhook : b.userTestExecTransferFail with
  | true =>
    rw [h.schedExec_hook hhook hrun] at hfail
    cases hfail
    exact ⟨0, h.pages.inv.prepared hp⟩
  | false =>
    have hsame : b.transferred (plan.bootstrap entry a stackPage) = plan.bootstrap entry a stackPage :=
      if_neg (by simp [hhook])
    obtain ⟨store₁, seeded, fdTable, store₂, files', nodes', hr, -⟩ := h.reseed hp
      (show (plan.bootstrap entry a stackPage).userStackPage = stackPage from rfl)
    rw [hsame, h.schedExec hrun hr] at hfail
    cases seeded with
    | true =>
      rw [if_pos rfl] at hfail
      exact absurd (Prod.mk.inj (Except.ok.inj hfail)).1 (h.ready hrun).frame
    | false =>
      cases hfail
      obtain ⟨n, hn, -⟩ := h.reseeded hp (show (plan.bootstrap entry a stackPage).userStackPage =
        stackPage from rfl) hr
      exact ⟨n, hn⟩

/-- A page of the caller was not free. -/
lemma CallerPages.not_free (h : CallerPages K own s caller l spaces) {p : Word}
    (hp : p = caller.userStackPage ∨ p ∈ caller.imagePages ∨ PrivateTable s caller.addressSpace p) :
    p ∉ l := by
  rcases hp with rfl | hp | hp
  · exact h.stack.used
  · exact (h.image p hp).used
  · obtain ⟨ρ, hρ⟩ := (h.inv.run.private_iff h.space).mp hp
    intro hl
    rw [h.inv.run.inv.free_own p hl] at hρ
    cases hρ

/-- Pages that are no tables are given back to the allocator. -/
lemma ExecRunInv.freed (h : ExecRunInv K own s l spaces) (ps : List Word) {rest : List Word}
    (hmem : s₂.mem = s.mem) (hroot : s₂.pagingKernelPml4 = s.pagingKernelPml4)
    (hfree : FreeList s₂ rest) (hnd : ps.Nodup) (hrest : ∀ p ∈ rest, p ∈ l)
    (hps : ∀ p ∈ ps, IsPage p ∧ p ∉ rest ∧ own p = none ∧ ¬ K.IsTable p) :
    ExecRunInv K own (freeAll s₂ ps) (ps.reverse ++ rest) spaces := by
  have hlist := freeAll_list hfree (fun p hp => (hps p hp).1) hnd fun p hp => (hps p hp).2.1
  have htable {q : Word} (hq : TableInUse s spaces q) : q ∉ ps ∧ q ∉ l ∧ q.toNat % 4096 = 0 := by
    rcases h.run.inUse_owned hq with ⟨x, hx⟩ | hk
    · refine ⟨fun hm => ?_, fun hm => ?_, (h.run.inv.own_page hx).aligned⟩
      · rw [(hps q hm).2.2.1] at hx
        cases hx
      · rw [h.run.inv.free_own q hm] at hx
        cases hx
    · exact ⟨fun hm => (hps q hm).2.2.2 hk, fun hm => h.run.inv.free_kernel q hm hk,
        (K.isTable_page hk).aligned⟩
  have hother : OtherStep s spaces (freeAll s₂ ps) := by
    refine ⟨(freeAll_globals s₂ ps).kernelPml4.trans hroot, fun q hq i => ?_, _, hlist, fun q hq hm => ?_⟩
    · have hslot := (freeAll_frame s₂ ps).slot (fun p hp => (hps p hp).1.aligned) (htable hq).2.2
        (htable hq).1 i
      rwa [hmem] at hslot
    · rcases List.mem_append.mp hm with hm | hm
      · exact (htable hq).1 (List.mem_reverse.mp hm)
      · exact (htable hq).2.1 (hrest q hm)
  obtain ⟨l', hrun⟩ := h.run.other hother
  obtain rfl := hrun.inv.free.unique hlist
  exact ⟨hrun, h.positions⟩

end Release

/-- A failed transfer restores the free list if and only if the new image shares no
page with the caller's. -/
theorem failedTransfer_restores_iff {K : KernelTables} {own : Owner} {b : Build} {k k' : KernelState}
    {t : TaskId} {caller bootstrap : UserTaskBootstrap} {l spaces others held files nodes : List Word}
    (h : ExecCaller K own k t caller l spaces others held files nodes)
    (hentry : b.archUserProgramEntry.toNat < 2 ^ 52) {image : Mem} {imageSize : Word} {s' : Phys}
    (hrun : syscallPrepareExecBootstrap b.archUserProgramEntry k.phys image imageSize (some caller) =
      .ok (some bootstrap, s')) {reusable : Word × Word}
    (hfail : schedExecCurrent (k.setPhys s') (b.transferred bootstrap) reusable = .ok (0#64, k')) :
    Restored l s' k'.phys (syscallReleaseBootstrap k'.phys (b.transferred bootstrap)) ∧
        CallerKept k.phys caller (syscallReleaseBootstrap k'.phys (b.transferred bootstrap)) ↔
      ∀ plan, execPlan image imageSize = some plan → ∀ p ∈ plan.windowPages, p ∉ caller.imagePages := by
  obtain ⟨plan, a, stackPage, own', l', hplan, rfl, hp⟩ :=
    prepared_of_run h.pages.exec hentry rfl hrun
  have hv := (elfCheck_valid hplan).1
  obtain ⟨n, hn⟩ := h.transferFailed hp hrun hfail
  obtain ⟨tables, l₃, hl₃, htaken, hback⟩ := hp.given_back h.pages.exec hplan b hn
    fun p hp => List.mem_of_mem_drop hp
  have hleft := List.perm_take_diff_drop hp.inv.free.nodup n
  have hclaim : plan.claimed caller.imagePhysicalBegin caller.imagePhysicalEnd = plan.windowPages ↔
      ∀ p ∈ plan.windowPages, p ∉ caller.imagePages := by
    rw [ElfPlan.claimed, unowned, List.filter_eq_self]
    refine forall₂_congr fun p hpw => ?_
    rw [← h.pages.range_iff (hv.windowPages_page hpw)]
    simp
  constructor
  · rintro ⟨⟨l₁, l₂, l₃', hl₁, hl₂, hl₃', hperm⟩, -⟩ plan' hplan'
    obtain rfl := Option.some.inj (hplan.symm.trans hplan')
    obtain rfl := hl₁.unique hp.inv.free
    obtain rfl := hl₂.unique hn.run.inv.free
    obtain rfl := hl₃'.unique hl₃
    have hlen := hperm.length_eq
    have h₁ := htaken.length_eq
    have h₂ := hback.length_eq
    have h₃ := hleft.length_eq
    have h₄ := congrArg List.length (List.take_append_drop n l₁)
    simp only [List.length_append, List.length_cons] at hlen h₁ h₂ h₄
    exact hclaim.mp ((List.filter_sublist.eq_of_length (by
      change (plan.claimed caller.imagePhysicalBegin caller.imagePhysicalEnd).length = _
      omega)))
  · intro hall
    have heq := hclaim.mpr (hall plan hplan)
    rw [heq] at htaken
    have hperm : (l'.diff (l'.drop n) ++ l₃).Perm l := by
      refine List.perm_iff_count.mpr fun x => ?_
      have h₁ := htaken.count_eq x
      have h₂ := hback.count_eq x
      have h₃ := hleft.count_eq x
      have h₄ := congrArg (List.count x) (List.take_append_drop n l')
      simp only [List.count_append, List.count_cons] at h₁ h₂ h₄ ⊢
      omega
    refine ⟨⟨l', _, l₃, hp.inv.free, hn.run.inv.free, hl₃, hperm⟩, fun l₄ p hl₄ hpp hm => ?_⟩
    obtain rfl := hl₄.unique hl₃
    exact h.pages.not_free hpp (hperm.mem_iff.mp (List.mem_append_right _ hm))

/-- The build that tests a failing transfer. -/
def transferFailBuild : Build := ⟨0x00100000#64, true⟩

/-- The transfer of an image of one page, for a test build. -/
lemma hooked_transfer {K : KernelTables} {own : Owner} {k : KernelState} {t : TaskId}
    {caller : UserTaskBootstrap} {rest spaces others held files nodes : List Word}
    (h : ExecCaller K own k t caller rest spaces others held files nodes)
    (hav : ∀ p ∈ (samplePlan 1#64).claimed caller.imagePhysicalBegin caller.imagePhysicalEnd, p ∈ rest.tail)
    (hlen : 4 ≤ (rest.tail.diff
      ((samplePlan 1#64).claimed caller.imagePhysicalBegin caller.imagePhysicalEnd)).length) :
    ∃ bootstrap s',
      syscallPrepareExecBootstrap 0x00100000#64 k.phys (sampleImage 1) 120#64 (some caller) =
        .ok (some bootstrap, s') ∧
      schedExecCurrent (k.setPhys s') (transferFailBuild.transferred bootstrap) (0#64, 0#64) =
        .ok (0#64, k.setPhys s') := by
  obtain ⟨a, stackPage, s', own', l', hrun, -⟩ := prepare_succeeds (some caller) h.pages.exec
    (show (0x00100000#64 : Word).toNat < 2 ^ 52 by decide) rfl execPlan_one hav hlen
  exact ⟨_, s', hrun, h.schedExec_hook (b := transferFailBuild) rfl hrun (0#64, 0#64)⟩

/-- The sample program prepares itself and is not handed over. -/
lemma sample_transferFails : ∃ K own k held files nodes bootstrap s',
    ExecCaller K own k .task1 sampleBootstrap secondPages [0x02200000#64] [] held files nodes ∧
    syscallPrepareExecBootstrap 0x00100000#64 k.phys (sampleImage 1) 120#64 (some sampleBootstrap) =
      .ok (some bootstrap, s') ∧
    schedExecCurrent (k.setPhys s') (transferFailBuild.transferred bootstrap) (0#64, 0#64) =
      .ok (0#64, k.setPhys s') := by
  have hps : ∀ p ∈ bootPages ++ secondPages, SparePage p := by simp [bootPages, secondPages, SparePage]
  obtain ⟨K, own, k, held, files, nodes, h, -⟩ := execCaller_exists hps (by decide)
  obtain ⟨bootstrap, s', hrun, hfail⟩ := hooked_transfer h (by simp [sample_reuses])
    (by rw [sample_reuses]; decide)
  exact ⟨K, own, k, held, files, nodes, bootstrap, s', h, hrun, hfail⟩

/-- A program without image pages, as `user_init_main` is. -/
def builtIn (caller : UserTaskBootstrap) : UserTaskBootstrap :=
  { caller with imagePhysicalBegin := 0#64, imagePhysicalEnd := 0#64 }

lemma builtIn_imagePages (caller : UserTaskBootstrap) : (builtIn caller).imagePages = [] := by
  simp [UserTaskBootstrap.imagePages, builtIn, pageSpan, pagesFrom]

/-- The page of the load window is free while such a program runs. -/
lemma builtInCaller_exists : ∃ K own k held files nodes,
    ExecCaller K own k .task1 (builtIn sampleBootstrap)
      (0x02206000#64 :: 0x02100000#64 :: secondPages.tail) [0x02200000#64] [] held files nodes := by
  have hps : ∀ p ∈ bootPages ++ secondPages, SparePage p := by simp [bootPages, secondPages, SparePage]
  obtain ⟨-, K, own, s₀, k₀, -, hm, ⟨L, hheap⟩, -⟩ := loadedMachine_exists hps (by decide)
  obtain ⟨k₁, k, hs⟩ := hm.starts
  have hbeside : HeapBeside {0x02100000#64} [] k₀.store.heap k₀.phys [] := by
    refine ⟨_, L, _, hheap, ?_⟩
    rintro p hp rfl
    rcases hp with hp | hp
    · exact absurd (List.mem_singleton.mp hp) (by decide)
    · exact (hm.image _ (by constructor <;> decide) (by decide)).1 hp
  obtain ⟨held, files, nodes, h, hkept⟩ := hm.callerBeside hs hbeside
  have hwindow : HeldPage K own secondPages 0x02100000#64 := h.pages.image _ (by decide)
  have hinv := h.pages.inv.run.inv
  have hfirst : 0x02206000#64 ∈ secondPages := by decide
  obtain ⟨s₁, -, hfree₁, hmem, hg⟩ := pallocAlloc_cons hinv.free
  have hfreed := h.pages.inv.freed [0x02100000#64, 0x02206000#64] hmem hg.kernelPml4 hfree₁
    (by decide) (fun p hp => List.mem_cons_of_mem _ hp) (by
      simp only [List.mem_cons, List.not_mem_nil, or_false]
      rintro p (rfl | rfl)
      · exact ⟨hwindow.page, by decide, hwindow.unowned, hwindow.apart⟩
      · exact ⟨hinv.free.pages _ hfirst, by decide, hinv.free_own _ hfirst, hinv.free_kernel _ hfirst⟩)
  have hbeside' : HeapBeside ∅ _ _ _ _ := hkept.trade hinv.free hfreed.run.inv.free (by simp [secondPages])
    (by simp) (by simp)
  obtain ⟨hkind, hstate, hcaller⟩ := h.running
  refine ⟨K, own, (k.setPhys (freeAll s₁ [0x02100000#64, 0x02206000#64])).setTask .task1
    { k.task .task1 with userBootstrap := builtIn sampleBootstrap }, held, files, nodes, h.task, h.started, ?_,
    ⟨hfreed, h.pages.limit, h.pages.space, ?_, rfl, ?_, ?_, ?_⟩, ?_⟩
  · simp [schedCurrentUserBootstrap, h.task, hkind, hstate]
    decide
  · exact (freeAll_globals _ _).cr3.trans (hg.cr3.trans h.pages.loaded)
  · simp [builtIn_imagePages]
  · exact ⟨h.pages.stack.page, by decide, h.pages.stack.unowned, h.pages.stack.apart⟩
  · simp [builtIn_imagePages]
  · rw [KernelState.setTask_same]
    exact h.fds.setPhys hbeside'.heapWith

/-- The sample program's transfer does not restore the free list. That of a program
without image pages does. -/
theorem failedTransfer_restores_iff_sample :
    (∃ (k : KernelState) (s' : Phys) (bootstrap : UserTaskBootstrap),
      syscallPrepareExecBootstrap 0x00100000#64 k.phys (sampleImage 1) 120#64 (some sampleBootstrap) =
        .ok (some bootstrap, s') ∧
      ¬ (Restored secondPages s' s' (syscallReleaseBootstrap s' (transferFailBuild.transferred bootstrap)) ∧
        CallerKept k.phys sampleBootstrap
          (syscallReleaseBootstrap s' (transferFailBuild.transferred bootstrap)))) ∧
    ∃ (k : KernelState) (s' : Phys) (bootstrap : UserTaskBootstrap) (l : List Word),
      FreeList k.phys l ∧
      syscallPrepareExecBootstrap 0x00100000#64 k.phys (sampleImage 1) 120#64
        (some (builtIn sampleBootstrap)) = .ok (some bootstrap, s') ∧
      Restored l s' s' (syscallReleaseBootstrap s' (transferFailBuild.transferred bootstrap)) ∧
      CallerKept k.phys (builtIn sampleBootstrap)
        (syscallReleaseBootstrap s' (transferFailBuild.transferred bootstrap)) := by
  have hentry : transferFailBuild.archUserProgramEntry.toNat < 2 ^ 52 := by decide
  constructor
  · obtain ⟨K, own, k, held, files, nodes, bootstrap, s', h, hrun, hfail⟩ := sample_transferFails
    refine ⟨k, s', bootstrap, hrun, (failedTransfer_restores_iff h hentry hrun hfail).not.mpr fun hall => ?_⟩
    exact hall _ execPlan_one 0x02100000#64 (by decide) (by decide)
  · obtain ⟨K, own, k, held, files, nodes, h⟩ := builtInCaller_exists
    have hclaim : (samplePlan 1#64).claimed (builtIn sampleBootstrap).imagePhysicalBegin
        (builtIn sampleBootstrap).imagePhysicalEnd = [0x02100000#64] := by decide
    obtain ⟨bootstrap, s', hrun, hfail⟩ := hooked_transfer h (by simp [hclaim]) (by rw [hclaim]; decide)
    refine ⟨k, s', bootstrap, _, h.pages.inv.run.inv.free, hrun,
      (failedTransfer_restores_iff h hentry hrun hfail).mpr fun plan _ p _ => ?_⟩
    rw [builtIn_imagePages]
    exact List.not_mem_nil

/-- The sample program's own image page is free afterwards, and may be handed out again. -/
theorem failedTransfer_frees_image : ∃ K own k held files nodes bootstrap s',
    ExecCaller K own k .task1 sampleBootstrap secondPages [0x02200000#64] [] held files nodes ∧
    syscallPrepareExecBootstrap 0x00100000#64 k.phys (sampleImage 1) 120#64 (some sampleBootstrap) =
      .ok (some bootstrap, s') ∧
    schedExecCurrent (k.setPhys s') (transferFailBuild.transferred bootstrap) (0#64, 0#64) =
      .ok (0#64, k.setPhys s') ∧
    ¬ CallerKept k.phys sampleBootstrap
      (syscallReleaseBootstrap s' (transferFailBuild.transferred bootstrap)) := by
  obtain ⟨K, own, k, held, files, nodes, bootstrap, s', h, hrun, hfail⟩ := sample_transferFails
  refine ⟨K, own, k, held, files, nodes, bootstrap, s', h, hrun, hfail, fun hkept => ?_⟩
  obtain ⟨plan, a, stackPage, own', l', hplan, rfl, hp⟩ :=
    prepared_of_run h.pages.exec (show (0x00100000#64 : Word).toNat < 2 ^ 52 by decide) rfl hrun
  obtain rfl := Option.some.inj (execPlan_one.symm.trans hplan)
  obtain ⟨tables, l₃, hl₃, -, hback⟩ := hp.given_back h.pages.exec hplan transferFailBuild
    (h.pages.inv.prepared hp) fun p hp => hp
  have hmem : 0x02100000#64 ∈ l₃ := hback.mem_iff.mp (by simp [show (samplePlan 1#64).windowPages =
    [0x02100000#64] by decide])
  exact hkept l₃ _ hl₃ (.inr (.inl (by decide))) hmem

end Platinum
