import Platinum.ExecMachine

/-!
# After a transfer

A successful exec releases the caller. The pages it frees are known from the two
bootstraps and the caller's tables; the tables of the new program stay.
-/
namespace Platinum
open ByteMemory SharedTrie

/-- What handing over to `bootstrap` frees besides the caller's tables. -/
def transferPages (caller bootstrap : UserTaskBootstrap) (reusable : Word × Word) : List Word :=
  caller.userStackPage :: unowned reusable.1 reusable.2 (releasedBootstrap caller bootstrap).imagePages

section Transfer

variable {K : KernelTables} {own own' : Owner} {k : KernelState} {t : TaskId}
  {caller bootstrap : UserTaskBootstrap} {l l' l₂ spaces others held files nodes : List Word}
  {image : Mem} {imageSize a stackPage entry p : Word} {plan : ElfPlan} {s s' s₂ : Phys}
  {store₁ store₂ : Store} {table fdTable : FdTable} {reusable : Word × Word}

lemma releasedBootstrap_image (caller bootstrap : UserTaskBootstrap) :
    (releasedBootstrap caller bootstrap).imagePages = [] ∨
      (releasedBootstrap caller bootstrap).imagePages = caller.imagePages := by
  unfold releasedBootstrap
  split_ifs
  · left
    change pageSpan 0#64 0#64 = []
    decide
  · exact .inr rfl

lemma releasedBootstrap_same (caller bootstrap : UserTaskBootstrap) :
    (releasedBootstrap caller bootstrap).addressSpace = caller.addressSpace ∧
      (releasedBootstrap caller bootstrap).layout = caller.layout ∧
      (releasedBootstrap caller bootstrap).userStackPage = caller.userStackPage := by
  unfold releasedBootstrap
  split_ifs <;> exact ⟨rfl, rfl, rfl⟩

/-- Without its image the caller still holds its stack. -/
lemma HoldsPages.released (h : HoldsPages s spaces l caller) (bootstrap : UserTaskBootstrap) :
    HoldsPages s spaces l (releasedBootstrap caller bootstrap) := by
  obtain ⟨hspace, -, hstack⟩ := releasedBootstrap_same caller bootstrap
  have hsub : ((releasedBootstrap caller bootstrap).userStackPage ::
      (releasedBootstrap caller bootstrap).imagePages).Sublist
      (caller.userStackPage :: caller.imagePages) := by
    rw [hstack]
    rcases releasedBootstrap_image caller bootstrap with hnone | hall
    · rw [hnone]
      exact List.Sublist.cons_cons _ (List.nil_sublist _)
    · rw [hall]
  exact ⟨hspace ▸ h.space, fun p hp => h.page p (hsub.subset hp), h.nodup.sublist hsub,
    fun p hp => h.used p (hsub.subset hp), fun p hp => h.apart p (hsub.subset hp)⟩

lemma mem_transferPages (hp : p ∈ transferPages caller bootstrap reusable) :
    p ∈ caller.userStackPage :: caller.imagePages := by
  rcases List.mem_cons.mp hp with rfl | hp
  · simp
  · rcases releasedBootstrap_image caller bootstrap with hnone | hall
    · rw [hnone] at hp
      cases hp
    · rw [hall] at hp
      exact List.mem_cons_of_mem _ (mem_unowned.mp hp).1

lemma Prepared.space_ne (h : CallerPages K own s caller l spaces)
    (hp : Prepared K entry rb re image plan s own l a stackPage s' own' l') : a ≠ caller.addressSpace := by
  rintro rfl
  obtain ⟨l₀, rfl, -⟩ := hp.head
  exact h.inv.run.inv.own_ne_free (by simp) _ _ (h.inv.run.space _ h.space)

section Handover

variable (h : ExecCaller K own k t caller l spaces others held files nodes)
  (hp : Prepared K entry caller.imagePhysicalBegin caller.imagePhysicalEnd image plan k.phys own l a
    stackPage s' own' l')
  (hr : Reseeded (k.setPhys s') (plan.bootstrap entry a stackPage) (k.task t).fdTable store₁ true fdTable
    store₂)
include h hp hr

/-- Handing over frees these pages and the caller's tables. -/
theorem ExecCaller.transferred (reusable : Word × Word) :
    ∃ n tables, PathTables own' caller.addressSpace firstPath tables ∧
      (execTransferred (k.setPhys s') t (plan.bootstrap entry a stackPage) fdTable store₂ reusable).phys =
        freeAll (pagingActivate store₂.phys a)
          (transferPages caller (plan.bootstrap entry a stackPage) reusable ++ tables) ∧
      FreeList store₂.phys (l'.drop n) ∧
      ExecRunInv K (Overlay.dropSpace own' caller.addressSpace)
        (execTransferred (k.setPhys s') t (plan.bootstrap entry a stackPage) fdTable store₂ reusable).phys
        (tables.reverse ++ ((transferPages caller (plan.bootstrap entry a stackPage) reusable).reverse ++
          l'.drop n)) ((a :: spaces).filter (· ≠ caller.addressSpace)) := by
  obtain ⟨n, hinv, -, -⟩ := h.reseeded hp rfl hr
  generalize hboot : plan.bootstrap entry a stackPage = boot at *
  have hspace : caller.addressSpace ∈ a :: spaces := List.mem_cons_of_mem a h.pages.space
  -- the caller's pages are still neither free nor tables
  have hheld : ∀ p ∈ caller.userStackPage :: caller.imagePages, HeldPage K own' (l'.drop n) p := fun p hpp =>
    (hp.held (h.pages.held p hpp)).mono fun q hq => List.mem_of_mem_drop hq
  have hactive := hinv.run.loadCr3 a
  have hholds := (HoldsPages.of_held hactive hspace hheld
    (List.nodup_cons.mpr ⟨h.pages.apart, h.pages.image_nodup⟩)).released boot
  obtain ⟨hsame, hlayout, hstack⟩ := releasedBootstrap_same caller boot
  obtain ⟨hnd, hsub⟩ := hholds.freed_nodup reusable
  have hfreed := hactive.freeAll (fun p hpp => hholds.page p (hsub p hpp)) hnd
    (fun p hpp => hholds.used p (hsub p hpp)) fun p hpp => hholds.apart p (hsub p hpp)
  have hrelease := schedReleaseUserBootstrap_eq (b := releasedBootstrap caller boot)
    (pagingActivate store₂.phys a) (by
      rw [hsame]
      exact (hinv.run.inv.own_page (hinv.run.space _ hspace)).ne_zero)
    (hholds.page _ (by simp)).ne_zero reusable
  rw [hstack] at hfreed hrelease
  change RunInv K own' (freeAll (pagingActivate store₂.phys a) (transferPages caller boot reusable)) _ _
    at hfreed
  change _ = (pagingReleaseUserAddressSpace (freeAll (pagingActivate store₂.phys a)
    (transferPages caller boot reusable)) _ _, _) at hrelease
  have hphys : (execTransferred (k.setPhys s') t boot fdTable store₂ reusable).phys =
      pagingReleaseUserAddressSpace (freeAll (pagingActivate store₂.phys a)
        (transferPages caller boot reusable)) caller.addressSpace firstUserLayout := by
    have hb : boot.addressSpace = a := by
      rw [← hboot]
      rfl
    unfold execTransferred
    rw [show ((k.setPhys s').task t).userBootstrap = caller from h.running.2.2, hb]
    change (schedReleaseUserBootstrap _ _ _).1 = _
    rw [hrelease, hsame, hlayout, h.pages.layout]
  obtain ⟨tables, htables, hrun⟩ := pagingRelease_path hfreed.inv (hfreed.space _ hspace) firstUserLayout
  obtain ⟨l₃, hinv₃, -⟩ := (ExecRunInv.release ⟨hfreed, hinv.positions⟩ hspace)
  have hlist : FreeList (freeAll (freeAll (pagingActivate store₂.phys a)
      (transferPages caller boot reusable)) tables) (tables.reverse ++ _) :=
    freeAll_list hfreed.inv.free (fun p hpt => ?_) htables.nodup fun p hpt hl => ?_
  · rw [← hrun] at hlist
    obtain rfl := hinv₃.run.inv.free.unique hlist
    refine ⟨n, tables, htables, ?_, hinv.run.inv.free, ?_⟩
    · rw [hphys, hrun, freeAll_append]
    · rw [hphys]
      exact hinv₃
  · obtain ⟨ρ, -, hρ⟩ := (htables.mem_iff p).mp hpt
    exact hfreed.inv.own_page hρ
  · obtain ⟨ρ, -, hρ⟩ := (htables.mem_iff p).mp hpt
    rw [hfreed.inv.free_own p hl] at hρ
    cases hρ

/-- The transfer leaves alone what is neither the new stack nor freed. -/
lemma ExecCaller.transferred_frame (reusable : Word × Word) :
    ChangesOnly {p | p = stackPage ∨ p ∈ caller.userStackPage :: caller.imagePages ∨
        ∃ ρ, own' p = some (caller.addressSpace, ρ)} s'.mem
      (execTransferred (k.setPhys s') t (plan.bootstrap entry a stackPage) fdTable store₂ reusable).phys.mem := by
  obtain ⟨n, tables, htables, hphys, -⟩ := h.transferred hp hr reusable
  obtain ⟨-, -, hmem, -⟩ := h.reseeded hp rfl hr
  rw [hphys]
  have hstack : ChangesOnly {stackPage} s'.mem store₂.phys.mem := by
    rw [hmem]
    exact pushWords_frame (by simp)
  refine (hstack.mono ?_).trans ((freeAll_frame _ _).mono ?_)
  · rintro p rfl
    exact .inl rfl
  · intro p hpp
    rcases List.mem_append.mp hpp with hpp | hpp
    · exact .inr (.inl (mem_transferPages hpp))
    · obtain ⟨ρ, -, hρ⟩ := (htables.mem_iff p).mp hpp
      exact .inr (.inr ⟨ρ, hρ⟩)

/-- The new program's pages translate as they were prepared. -/
theorem ExecCaller.transferred_walk (reusable : Word × Word) (v : Word) :
    mmuWalk (execTransferred (k.setPhys s') t (plan.bootstrap entry a stackPage) fdTable store₂
      reusable).phys.mem a v = mmuWalk s'.mem a v := by
  obtain ⟨n, tables, -, -, -, hfinal⟩ := h.transferred hp hr reusable
  have hframe := h.transferred_frame hp hr reusable
  have hne := hp.space_ne h.pages
  have hspace : IsSpace (Overlay.dropSpace own' caller.addressSpace) a :=
    Overlay.dropSpace_eq_some.mpr ⟨hp.space, hne⟩
  rw [hfinal.run.inv.mmuWalk_eq hspace, hp.inv.mmuWalk_eq hp.space]
  refine congrArg _ (hp.inv.leaf_congr_space hfinal.run.inv (fun p ρ => ?_) (fun q ρ i hq => ?_) hp.space
    rfl _)
  · rw [Overlay.dropSpace_eq_some]
    simp [hne]
  · -- tables of the new space are neither the stack nor the caller's
    refine hframe.slot (fun p hpp => ?_) (hp.inv.own_page hq).aligned ?_ i
    · rcases hpp with rfl | hpp | ⟨ρ, hρ⟩
      · exact (hp.own_stack h.pages.exec).1.aligned
      · exact (h.pages.held p hpp).page.aligned
      · exact (hp.inv.own_page hρ).aligned
    · rintro (rfl | hpp | ⟨σ, hσ⟩)
      · rw [(hp.own_stack h.pages.exec).2.2.1] at hq
        cases hq
      · rw [(hp.held (h.pages.held q hpp)).unowned] at hq
        cases hq
      · rw [hq] at hσ
        exact hne (Prod.mk.inj (Option.some.inj hσ)).1

end Handover

end Transfer

end Platinum
