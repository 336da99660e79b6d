import Platinum.ElfLoad

/-!
# Preparing the bootstrap of a new program

`syscall_prepare_exec_bootstrap` builds an address space, loads the image into
it and maps the trampoline. Its outcome is determined by the image and by the
free list; every failure gives back what was taken.
-/
namespace Platinum
open ByteMemory WordArith SharedTrie

/-- `struct user_task_bootstrap`. -/
structure UserTaskBootstrap where
  layout : UserVirtualLayout
  addressSpace : Word
  trampolineEntry : Word
  userEntry : Word
  imagePhysicalBegin : Word
  imagePhysicalEnd : Word
  userStackPage : Word
  userStackTop : Word
  deriving DecidableEq, Repr

/-- The cleared bootstrap. -/
def clearBootstrap : UserTaskBootstrap :=
  ⟨⟨0#64, 0#64, 0#64⟩, 0#64, 0#64, 0#64, 0#64, 0#64, 0#64, 0#64⟩

/-- The physical range that the running program may lend to the next one. -/
def reusableRange : Option UserTaskBootstrap → Word × Word
  | none => (0#64, 0#64)
  | some current => (current.imagePhysicalBegin, current.imagePhysicalEnd)

/-- Result and, on success, the filled-in bootstrap. `archUserProgramEntry` is
the linked address of the trampoline code. -/
def syscallPrepareExecBootstrap (archUserProgramEntry : Word) (s : Phys) (image : Mem)
    (imageSize : Word) (current : Option UserTaskBootstrap) :
    Run (Option UserTaskBootstrap × Phys) :=
  match pagingCreateUserAddressSpace s with
  | (addressSpace, s) =>
    if addressSpace = 0#64 ∨ ¬ pagingAddressSpaceValid s addressSpace then .ok (none, s)
    else do
      match ← elfLoadUserImage s image imageSize firstUserLayout addressSpace
          (reusableRange current).1 (reusableRange current).2 with
      | (none, s) => .ok (none, pagingReleaseUserAddressSpace s addressSpace firstUserLayout)
      | (some loadedImage, s) =>
        let trampolinePage := pageAddress archUserProgramEntry
        let s ← pagingMapUserPage s addressSpace firstUserLayout.trampolineBase trampolinePage
        if ¬ pagingMappingMatches s.mem addressSpace firstUserLayout.trampolineBase
            trampolinePage true then
          .ok (none, pagingReleaseUserAddressSpace (elfReleaseUserImage s loadedImage) addressSpace
            firstUserLayout)
        else
          .ok (some
            { layout := firstUserLayout
              addressSpace := addressSpace
              trampolineEntry :=
                firstUserLayout.trampolineBase + (archUserProgramEntry &&& 4095#64)
              userEntry := loadedImage.entry
              imagePhysicalBegin := loadedImage.loadPhysicalBegin
              imagePhysicalEnd := loadedImage.loadPhysicalEnd
              userStackPage := loadedImage.stackPage
              userStackTop := loadedImage.stackTop }, s)

/-- The plan of an acceptable image; the checks read nothing of the address
space but that it is there. -/
def execPlan (image : Mem) (imageSize : Word) : Option ElfPlan :=
  elfCheck image imageSize firstUserLayout 1#64

lemma elfCheck_eq_execPlan {image : Mem} {imageSize a : Word} (ha : a ≠ 0#64) :
    elfCheck image imageSize firstUserLayout a = execPlan image imageSize := by
  have h1 : (1#64 : Word) ≠ 0#64 := by decide
  simp only [execPlan, elfCheck, ha, h1, if_false]

/-- The bootstrap of a prepared program. -/
def ElfPlan.bootstrap (plan : ElfPlan) (archUserProgramEntry addressSpace stackPage : Word) :
    UserTaskBootstrap where
  layout := firstUserLayout
  addressSpace := addressSpace
  trampolineEntry := firstUserLayout.trampolineBase + (archUserProgramEntry &&& 4095#64)
  userEntry := firstUserLayout.imageBase + (plan.entry - plan.vaddrBegin)
  imagePhysicalBegin := elfUserLoadBase
  imagePhysicalEnd := plan.physicalEnd
  userStackPage := stackPage
  userStackTop := firstUserLayout.stackTop

/-- The user pages of a prepared program: its image, its stack, the trampoline. -/
def ElfPlan.userPages (plan : ElfPlan) (archUserProgramEntry stackPage : Word) : List (Word × Word) :=
  windowPairs firstUserLayout.imageBase elfUserLoadBase (List.range plan.pageCount) ++
    [(stackVirtual, stackPage), (firstUserLayout.trampolineBase, archUserProgramEntry)]

/-- What the kernel may assume when a user task asks for exec. -/
structure ExecContext (K : KernelTables) (own : Owner) (s : Phys) (l : List Word)
    (rb re : Word) : Prop where
  inv : PagingInv K own s l
  limit : 0 < K.limit
  reusable : ∀ p, IsPage p → pageInRange p rb re = true → p ∉ l ∧ own p = none ∧ ¬ K.IsTable p

/-- A prepared program and everything it took from the free list. -/
structure Prepared (K : KernelTables) (entry rb re : Word) (image : Mem) (plan : ElfPlan) (s : Phys)
    (own : Owner) (l : List Word) (a stackPage : Word) (s' : Phys) (own' : Owner)
    (l' : List Word) : Prop where
  inv : PagingInv K own' s' l'
  globals : SameGlobals s s'
  head : ∃ l₀, l = a :: l₀ ∧ (∀ p ∈ plan.claimed rb re, p ∈ l₀) ∧
    ∃ tabs, l₀.diff (plan.claimed rb re) = tabs ++ stackPage :: l' ∧ tabs.length = 3 ∧
      ∀ p, p ∈ a :: tabs ↔ ∃ ρ, own' p = some (a, ρ)
  space : IsSpace own' a
  table : Private own' a firstPath
  keep : ∀ p x, own p = some x → own' p = some x
  other_own : ∀ p b ρ, own' p = some (b, ρ) → b ≠ a → own p = some (b, ρ)
  positions : ∀ p ρ, own' p = some (a, ρ) → ρ <+: firstPath
  window : ∀ i, i < plan.span.toNat →
    s'.mem (0x02100000 + i) = loadedByte image plan.phdrs (plan.vaddrBegin.toNat + i)
  frame : ∀ x, (x < 0x02100000 ∨ 0x02100000 + plan.span.toNat ≤ x) →
    (∀ p ∈ l, ¬ (p.toNat ≤ x ∧ x < p.toNat + 8)) →
    (∀ q ρ, own' q = some (a, ρ) → ¬ OnPage q x) → s'.mem x = s.mem x
  stackLink : nodeNext s'.mem stackPage = s'.freeListHead
  here : ∀ v p, (v, p) ∈ plan.userPages entry stackPage →
    leafEntry s'.mem a firstPath (ptIndex v) = userEntry p
  rest : ∀ ρ j, ρ.length = 3 →
    (ρ = firstPath → ∀ v p, (v, p) ∈ plan.userPages entry stackPage → j ≠ ptIndex v) →
    leafEntry s'.mem a ρ j = K.base ρ j
  other : ∀ b, IsSpace own b → ∀ ρ j, ρ.length = 3 →
    leafEntry s'.mem b ρ j = leafEntry s.mem b ρ j

/-- The ways `syscall_prepare_exec_bootstrap` can end. -/
inductive PrepareOutcome (K : KernelTables) (entry rb re : Word) (image : Mem) (imageSize : Word)
    (s : Phys) (own : Owner) (l : List Word) : Run (Option UserTaskBootstrap × Phys) → Prop
  /-- Nothing was loaded: only free pages were written. -/
  | early {s' : Phys} {l' : List Word}
      (why : l = [] ∨ execPlan image imageSize = none ∨ ∃ plan, execPlan image imageSize = some plan ∧
        ∃ p ∈ plan.claimed rb re, p ∉ l.tail)
      (inv : PagingInv K own s' l') (perm : l'.Perm l) (mem : ChangesOnly {p | p ∈ l} s.mem s'.mem)
      (globals : SameGlobals s s') :
      PrepareOutcome K entry rb re image imageSize s own l (.ok (none, s'))
  /-- The window was loaded, but no page was left for the stack. -/
  | noStack {plan : ElfPlan} {s' : Phys} {l' : List Word}
      (hplan : execPlan image imageSize = some plan)
      (hav : ∀ p ∈ plan.claimed rb re, p ∈ l.tail)
      (length : (l.tail.diff (plan.claimed rb re)).length = 3)
      (inv : PagingInv K own s' l') (perm : l'.Perm l)
      (window : ∀ p ∈ plan.windowPages, pageInRange p rb re = true → ∀ k, k < 4096 →
        s'.mem (p.toNat + k) =
          loadedByte image plan.phdrs (plan.vaddrBegin.toNat + (p.toNat - 0x02100000 + k)))
      (frame : ∀ x, (x < 0x02100000 ∨ 0x02100000 + plan.span.toNat ≤ x) →
        (∀ p ∈ l, ¬ OnPage p x) → s'.mem x = s.mem x)
      (globals : SameGlobals s s') :
      PrepareOutcome K entry rb re image imageSize s own l (.ok (none, s'))
  | noTables {plan : ElfPlan} (hplan : execPlan image imageSize = some plan)
      (hav : ∀ p ∈ plan.claimed rb re, p ∈ l.tail)
      (length : (l.tail.diff (plan.claimed rb re)).length < 3) :
      PrepareOutcome K entry rb re image imageSize s own l (.error .halt)
  | prepared {plan : ElfPlan} {a stackPage : Word} {s' : Phys} {own' : Owner} {l' : List Word}
      (hplan : execPlan image imageSize = some plan)
      (prepared : Prepared K entry rb re image plan s own l a stackPage s' own' l') :
      PrepareOutcome K entry rb re image imageSize s own l
        (.ok (some (plan.bootstrap entry a stackPage), s'))

section Outcome

variable {K : KernelTables} {own own₂ : Owner} {s s₁ s₂ : Phys} {l l₁ l₂ : List Word} {a : Word}
  {path : Path}

/-- The new space `a` and the tables `new` are what the free list lost to it. -/
structure SpaceTaken (path : Path) (own : Owner) (a : Word) (new : List Word) (own₂ : Owner) :
    Prop where
  mem_iff : ∀ p, (∃ ρ, own₂ p = some (a, ρ)) ↔ p ∈ a :: new
  drop : Overlay.dropSpace own₂ a = own
  positions : ∀ p ρ, own₂ p = some (a, ρ) → ρ <+: path
  keep : ∀ p x, own p = some x → own₂ p = some x
  other : ∀ p b ρ, own₂ p = some (b, ρ) → b ≠ a → own p = some (b, ρ)
  space : IsSpace own₂ a

lemma PagingInv.own_ne_free (h : PagingInv K own s l) (ha : a ∈ l) (p : Word) (ρ : Path) :
    own p ≠ some (a, ρ) := by
  intro hp
  have hr := h.tables.root_own hp
  rw [h.free_own a ha] at hr
  cases hr

/-- Tables taken for a space that was just created. -/
lemma Taken.spaceTaken (h : PagingInv K own s (a :: l)) (hl : ∀ p ∈ l₁, p ∈ l)
    (ht : Taken a path (Function.update own a (some (a, []))) l₁ own₂ l₂) :
    ∃ new, l₁ = new ++ l₂ ∧ SpaceTaken path own a new own₂ := by
  have hno := h.own_ne_free (a := a) (by simp)
  have hal : a ∉ l := (List.nodup_cons.mp h.free.nodup).1
  have hfree : ∀ p ∈ l₁, Function.update own a (some (a, [])) p = none := by
    intro p hp
    rw [Function.update_of_ne (by rintro rfl; exact hal (hl p hp))]
    exact h.free_own p (by simp [hl p hp])
  have hspace : IsSpace own₂ a := ht.keep hfree (Function.update_self a _ own)
  obtain ⟨new, hnew, htab, hold⟩ := id ht
  have hmem {p : Word} {b : Word} {ρ : Path} (hp : own₂ p = some (b, ρ)) :
      (b = a ∧ (p ∈ new ∧ ρ <+: path ∨ p = a ∧ ρ = [])) ∨ (b ≠ a ∧ own p = some (b, ρ)) := by
    by_cases hn : p ∈ new
    · obtain ⟨σ, _, hσ, ho⟩ := htab p hn
      rw [ho] at hp
      obtain ⟨rfl, rfl⟩ := Prod.mk.inj (Option.some.inj hp)
      exact .inl ⟨rfl, .inl ⟨hn, hσ⟩⟩
    · rw [hold p hn] at hp
      by_cases hpa : p = a
      · subst hpa
        rw [Function.update_self] at hp
        obtain ⟨rfl, rfl⟩ := Prod.mk.inj (Option.some.inj hp)
        exact .inl ⟨rfl, .inr ⟨rfl, rfl⟩⟩
      · rw [Function.update_of_ne hpa] at hp
        refine .inr ⟨?_, hp⟩
        rintro rfl
        exact hno p ρ hp
  have hkeep : ∀ p x, own p = some x → own₂ p = some x := by
    intro p x hp
    refine ht.keep hfree ?_
    rw [Function.update_of_ne, hp]
    rintro rfl
    rw [h.free_own p (by simp)] at hp
    cases hp
  refine ⟨new, hnew, fun p => ⟨?_, ?_⟩, ?_, ?_, hkeep, ?_, hspace⟩
  · rintro ⟨ρ, hp⟩
    rcases hmem hp with ⟨-, ⟨hn, -⟩ | ⟨rfl, -⟩⟩ | ⟨hne, -⟩
    · exact List.mem_cons_of_mem a hn
    · exact List.mem_cons_self
    · exact absurd rfl hne
  · intro hp
    rcases List.mem_cons.mp hp with rfl | hp
    · exact ⟨[], hspace⟩
    · obtain ⟨ρ, _, _, ho⟩ := htab p hp
      exact ⟨ρ, ho⟩
  · funext p
    refine Option.ext fun ⟨b, ρ⟩ => ?_
    rw [Overlay.dropSpace_eq_some]
    constructor
    · rintro ⟨hp, hb⟩
      exact (hmem hp).elim (fun hc => absurd hc.1 hb) (·.2)
    · intro hp
      refine ⟨hkeep p _ hp, ?_⟩
      rintro rfl
      exact hno p ρ hp
  · intro p ρ hp
    rcases hmem hp with ⟨-, ⟨-, hρ⟩ | ⟨-, rfl⟩⟩ | ⟨hne, -⟩
    · exact hρ
    · exact List.nil_prefix
    · exact absurd rfl hne
  · intro p b ρ hp hb
    exact (hmem hp).elim (fun hc => absurd hc.1 hb) (·.2)

/-- Releasing the space that exec created gives back its tables. -/
lemma SpaceTaken.released (h : PagingInv K own₂ s₂ l₂) {new : List Word}
    (ht : SpaceTaken firstPath own a new own₂) (hnd : (a :: new).Nodup) :
    ∃ l', PagingInv K own (pagingReleaseUserAddressSpace s₂ a firstUserLayout) l' ∧
      l'.Perm (a :: new ++ l₂) ∧
      ChangesLinks {p | p ∈ a :: new} s₂.mem
        (pagingReleaseUserAddressSpace s₂ a firstUserLayout).mem ∧
      SameGlobals s₂ (pagingReleaseUserAddressSpace s₂ a firstUserLayout) := by
  obtain ⟨freed, hr⟩ := pagingRelease_spec h ht.space ht.positions
  have hfreed : ∀ p, p ∈ freed ↔ p ∈ a :: new := fun p => (hr.mem_freed p).trans (ht.mem_iff p)
  have hperm : freed.Perm (a :: new) := (List.perm_ext_iff_of_nodup hr.nodup hnd).mpr hfreed
  refine ⟨freed ++ l₂, ht.drop ▸ hr.inv, hperm.append_right l₂, ?_, hr.globals⟩
  exact hr.mem.mono fun p hp => (hfreed p).mp hp

variable {rb re entry imageSize : Word} {image : Mem} {plan : ElfPlan}

/-- What `elf_load_user_image` may assume about the space that was just created. -/
lemma Created.loadContext (h : ExecContext K own s (a :: l) rb re) (hc : Created K s own a l s₁) :
    LoadContext K (Function.update own a (some (a, []))) s₁ l a rb re where
  inv := hc.inv
  space := Function.update_self a _ own
  fresh ρ hρ := by
    rintro ⟨p, hp⟩
    by_cases hpa : p = a
    · subst hpa
      rw [Function.update_self] at hp
      exact hρ (Prod.mk.inj (Option.some.inj hp)).2.symm
    · rw [Function.update_of_ne hpa] at hp
      exact h.inv.own_ne_free (by simp) p ρ hp
  limit := h.limit
  reusable p hp hr := by
    obtain ⟨hl, ho, hk⟩ := h.reusable p hp hr
    refine ⟨fun hm => hl (by simp [hm]), ?_, hk⟩
    rw [Function.update_of_ne (by rintro rfl; exact hl (by simp))]
    exact ho

/-- A failure before the window is touched. -/
lemma early_released (h : PagingInv K own s (a :: l)) (hc : Created K s own a l s₁)
    (h₂ : PagingInv K (Function.update own a (some (a, []))) s₂ l₂) (hperm : l₂.Perm l)
    (hmem : ChangesLinks {p | p ∈ l} s₁.mem s₂.mem) (hg : SameGlobals s₁ s₂) :
    ∃ l', PagingInv K own (pagingReleaseUserAddressSpace s₂ a firstUserLayout) l' ∧
      l'.Perm (a :: l) ∧
      ChangesOnly {p | p ∈ a :: l} s.mem
        (pagingReleaseUserAddressSpace s₂ a firstUserLayout).mem ∧
      SameGlobals s (pagingReleaseUserAddressSpace s₂ a firstUserLayout) := by
  obtain ⟨new, hnew, ht⟩ := Taken.spaceTaken h
    (fun p hp => hp) Taken.refl
  obtain rfl : new = [] := List.self_eq_append_left.mp hnew
  obtain ⟨l', hinv, hp, hm, hg'⟩ := ht.released h₂ (by simp)
  refine ⟨l', hinv, hp.trans (hperm.cons a), ?_, (hc.globals.trans hg).trans hg'⟩
  refine (hc.mem.mono ?_).trans ((hmem.pages.mono ?_).trans (hm.pages.mono ?_))
  · simp
  · exact fun p hp => List.mem_cons_of_mem a hp
  · simp

/-- The window pages of the caller keep what was loaded there when the claimed
pages and the new tables are given back. -/
lemma WindowLoaded.window_kept {own₁ : Owner} {m : Mem}
    (hw : WindowLoaded K a rb re image plan s₁ own₁ l s₂ own₂ l₂)
    (hv : plan.Valid imageSize firstUserLayout) {P : Set Word} (hm : ChangesOnly P s₂.mem m)
    (hP : ∀ p ∈ P, p.toNat % 4096 = 0) {p : Word} (hp : p ∈ plan.windowPages) (hpP : p ∉ P) {k : ℕ}
    (hk : k < 4096) :
    m (p.toNat + k) =
      loadedByte image plan.phdrs (plan.vaddrBegin.toNat + (p.toNat - 0x02100000 + k)) := by
  obtain ⟨i, hi, hpi⟩ := hv.mem_windowPages.mp hp
  have hs := hv.span_eq
  rw [hm.byte hP (hv.windowPages_page hp).aligned hpP ⟨by omega, by omega⟩,
    ← hw.window (p.toNat - 0x02100000 + k) (by omega)]
  congr 1
  omega

/-- Loading succeeded but no page was left for the stack. -/
lemma noStack_released {own₁ : Owner} (h : ExecContext K own s (a :: l) rb re)
    (hv : plan.Valid imageSize firstUserLayout) (hc : Created K s own a l s₁)
    (hw : WindowLoaded K a rb re image plan s₁ (Function.update own a (some (a, []))) l s₂ own₁ []) :
    let s' := pagingReleaseUserAddressSpace (freeAll s₂ (plan.claimed rb re)) a firstUserLayout
    ∃ l', PagingInv K own s' l' ∧ l'.Perm (a :: l) ∧
      (∀ p ∈ plan.windowPages, pageInRange p rb re = true → ∀ k, k < 4096 → s'.mem (p.toNat + k) =
        loadedByte image plan.phdrs (plan.vaddrBegin.toNat + (p.toNat - 0x02100000 + k))) ∧
      (∀ x, (x < 0x02100000 ∨ 0x02100000 + plan.span.toNat ≤ x) →
        (∀ p ∈ a :: l, ¬ OnPage p x) → s'.mem x = s.mem x) ∧ SameGlobals s s' := by
  intro s'
  have hctx := hc.loadContext h
  obtain ⟨new, hnew, ht⟩ := Taken.spaceTaken h.inv (fun p hp => List.diff_subset _ _ hp) hw.taken
  rw [List.append_nil] at hnew
  have hnd := h.inv.free.nodup
  obtain ⟨hal, hndl⟩ := List.nodup_cons.mp hnd
  have hcl : ∀ p ∈ plan.claimed rb re, p ∈ l := hw.available
  have hcnd : (plan.claimed rb re).Nodup := hv.windowPages_nodup.filter _
  have hnew_mem : ∀ p, p ∈ new ↔ p ∈ l ∧ p ∉ plan.claimed rb re := fun p => by
    rw [← hnew, hndl.mem_sdiff_iff]
  have hnewl : ∀ p ∈ a :: new, p ∈ a :: l := by
    intro p hp
    rcases List.mem_cons.mp hp with rfl | hp
    · simp
    · simp [((hnew_mem p).mp hp).1]
  have hnewnd : (a :: new).Nodup :=
    List.nodup_cons.mpr ⟨fun hm => hal ((hnew_mem a).mp hm).1, hnew ▸ hndl.sublist (List.diff_sublist _ _)⟩
  have hpage : ∀ p ∈ a :: l, p.toNat % 4096 = 0 := fun p hp => (h.inv.free.pages p hp).aligned
  -- the claimed pages go back first: none of them is a table
  have hown₁ : ∀ p ∈ plan.claimed rb re, own₁ p = none ∧ ¬ K.IsTable p := by
    intro p hp
    refine ⟨?_, h.inv.free_kernel p (by simp [hcl p hp])⟩
    cases ho : own₁ p with
    | none => rfl
    | some x =>
      obtain ⟨b, ρ⟩ := x
      by_cases hb : b = a
      · subst hb
        rcases List.mem_cons.mp ((ht.mem_iff p).mp ⟨ρ, ho⟩) with rfl | hn
        · exact absurd (hcl p hp) hal
        · exact absurd hp ((hnew_mem p).mp hn).2
      · have hp' := ht.other p b ρ ho hb
        rw [h.inv.free_own p (by simp [hcl p hp])] at hp'
        cases hp'
  have hfree : FreeList (freeAll s₂ (plan.claimed rb re)) ((plan.claimed rb re).reverse ++ []) :=
    freeAll_list hw.inv.free (fun p hp => h.inv.free.pages p (by simp [hcl p hp])) hcnd (by simp)
  have hinv : PagingInv K own₁ (freeAll s₂ (plan.claimed rb re)) ((plan.claimed rb re).reverse ++ []) :=
    hw.inv.reframe hfree (by simpa using hown₁) (freeAll_globals _ _).kernelPml4 (freeAll_frame _ _)
      (fun p hp => hpage p (by simp [hcl p hp])) hown₁
  obtain ⟨l', hinv', hperm, hm, hg⟩ := ht.released hinv hnewnd
  have hback : ChangesOnly {p | p ∈ a :: l} s₂.mem s'.mem :=
    ((freeAll_frame s₂ _).mono fun p hp => List.mem_cons_of_mem a (hcl p hp)).trans
      (hm.pages.mono hnewl)
  refine ⟨l', hinv', ?_, ?_, ?_, ?_⟩
  · refine hperm.trans ((List.perm_ext_iff_of_nodup ?_ hnd).mpr fun p => ?_)
    · refine List.nodup_append.mpr ⟨hnewnd, by simpa using hcnd, ?_⟩
      rintro p hp q hq rfl
      rw [List.append_nil, List.mem_reverse] at hq
      rcases List.mem_cons.mp hp with rfl | hp
      · exact hal (hcl p hq)
      · exact ((hnew_mem p).mp hp).2 hq
    · have hn := hnew_mem p
      have hc := hcl p
      simp only [List.append_nil, List.mem_append, List.mem_cons, List.mem_reverse]
      tauto
  · intro p hp hr k hk
    refine hw.window_kept hv hback hpage hp ?_ hk
    exact (h.reusable p (hv.windowPages_page hp) hr).1
  · intro x hx hxl
    rw [hback x hxl]
    refine (hw.frame x hx ?_ ?_).trans (hc.mem x (by simpa using hxl a (by simp)))
    · intro p hp hpx
      exact hxl p (by simp [hp]) ⟨hpx.1, by omega⟩
    · intro q ρ hq
      exact hxl q (hnewl q ((ht.mem_iff q).mp ⟨ρ, hq⟩))
  · exact ((hc.globals.trans hw.globals).trans (freeAll_globals _ _)).trans hg

@[simp] lemma pageAddress_pageAddress (p : Word) : pageAddress (pageAddress p) = pageAddress p :=
  alignDown_of_aligned (alignDown_aligned p)

@[simp] lemma userEntry_pageAddress (p : Word) : userEntry (pageAddress p) = userEntry p := by
  simp [userEntry]

/-- The image pages, the stack page and the trampoline have different entries. -/
lemma window_ptIndex (hv : plan.Valid imageSize firstUserLayout) {v p : Word}
    (hvp : (v, p) ∈ windowPairs firstUserLayout.imageBase elfUserLoadBase (List.range plan.pageCount)) :
    ptIndex v ≠ ptIndex stackVirtual ∧ ptIndex v ≠ ptIndex firstUserLayout.trampolineBase := by
  obtain ⟨i, hi, he⟩ := List.mem_map.mp hvp
  obtain ⟨rfl, rfl⟩ := Prod.mk.inj he
  have hi := List.mem_range.mp hi
  have hc := hv.pageCount_le
  have hva : (firstUserLayout.imageBase + BitVec.ofNat 64 i * 4096#64).toNat = 0x40001000 + 4096 * i := by
    rw [BitVec.toNat_add, BitVec.toNat_mul, BitVec.toNat_ofNat,
      show firstUserLayout.imageBase.toNat = 0x40001000 from rfl,
      show (4096#64 : Word).toNat = 4096 from rfl]
    omega
  constructor <;> intro h <;> have hn := congrArg Fin.val h <;> rw [ptIndex_val, ptIndex_val, hva] at hn
  · rw [show stackVirtual.toNat = 0x401FF000 from rfl] at hn
    omega
  · rw [show firstUserLayout.trampolineBase.toNat = 0x40000000 from rfl] at hn
    omega

/-- The window is loaded, the stack and the trampoline are mapped. -/
lemma prepared_of_loaded {own₁ : Owner} {s₃ s₄ s₅ : Phys} {stackPage : Word}
    (h : ExecContext K own s (a :: l) rb re) (hv : plan.Valid imageSize firstUserLayout)
    (hc : Created K s own a l s₁)
    (hw : WindowLoaded K a rb re image plan s₁ (Function.update own a (some (a, []))) l s₂ own₁
      (stackPage :: l₂))
    (hm₃ : s₃.mem = s₂.mem) (hg₃ : SameGlobals s₂ s₃)
    (hstack : Mapped K a stackVirtual stackPage s₃ own₁ l₂ s₄ own₁ l₂)
    (htramp : Mapped K a firstUserLayout.trampolineBase (pageAddress entry) s₄ own₁ l₂ s₅ own₁ l₂)
    (hinv₃ : PagingInv K own₁ s₃ l₂) :
    Prepared K entry rb re image plan s own (a :: l) a stackPage s₅ own₁ l₂ := by
  obtain ⟨new, hnew, ht⟩ := Taken.spaceTaken h.inv (fun p hp => List.diff_subset _ _ hp) hw.taken
  have hpath : userPath stackVirtual = firstPath := userPath_firstPath (by decide) (by decide)
  have htpath : userPath firstUserLayout.trampolineBase = firstPath := rfl
  have hidx : ptIndex stackVirtual ≠ ptIndex firstUserLayout.trampolineBase := by decide
  have htwo := (hpath ▸ RegionMapped.of_mapped hstack).append hinv₃ ht.space rfl
    (htpath ▸ RegionMapped.of_mapped htramp) (by
      rintro v p w q hvp hwq
      obtain ⟨rfl, rfl⟩ : v = _ ∧ p = _ := by simpa using hvp
      obtain ⟨rfl, rfl⟩ : w = _ ∧ q = _ := by simpa using hwq
      exact hidx)
  have htables : ∀ q, (∃ ρ, own₁ q = some (a, ρ)) → q ∈ a :: l := by
    intro q hq
    rcases List.mem_cons.mp ((ht.mem_iff q).mp hq) with rfl | hq
    · simp
    · exact List.mem_cons_of_mem a (List.diff_subset _ _ (by rw [hnew]; simp [hq]))
  have hpage : ∀ q, (∃ ρ, own₁ q = some (a, ρ)) → q.toNat % 4096 = 0 :=
    fun q hq => (h.inv.free.pages q (htables q hq)).aligned
  refine ⟨htwo.inv, ((hc.globals.trans hw.globals).trans hg₃).trans htwo.globals,
    ⟨l, rfl, hw.available, new, hnew, ?_, fun p => (ht.mem_iff p).symm⟩, ht.space, htramp.table,
    ht.keep, ht.other, ht.positions, ?_, ?_, ?_, ?_, ?_, ?_⟩
  · have hlen := hw.length
    rw [hnew, List.length_append, List.length_cons] at hlen
    omega
  · intro i hi
    obtain ⟨p, hp, hpx⟩ := hv.onPage_window (x := 0x02100000 + i) (by omega) (by omega)
    obtain ⟨ho, -, hnd⟩ := (hc.loadContext h).window_page hv hw.available hp
    rw [htwo.mem.byte hpage (hv.windowPages_page hp).aligned ?_ hpx, hm₃, hw.window i hi]
    rintro ⟨ρ, hq⟩
    rcases List.mem_cons.mp ((ht.mem_iff p).mp ⟨ρ, hq⟩) with rfl | hn
    · rw [Function.update_self] at ho
      cases ho
    · exact hnd (by rw [hnew]; simp [hn])
  · intro x hx hxl hxt
    rw [htwo.mem x fun q ⟨ρ, hq⟩ => hxt q ρ hq, hm₃,
      hw.frame x hx (fun p hp => hxl p (by simp [hp])) hxt]
    exact hc.mem x (by simpa using hxt a [] ht.space)
  · -- the link of the stack page was followed when it was taken
    have hstk : IsPage stackPage := hw.inv.free.pages stackPage (by simp)
    have hchain := hw.inv.free.chain.2.2
    rw [nodeNext, htwo.mem.slot hpage hstk.aligned (fun ⟨ρ, hq⟩ => by
      rw [hw.inv.free_own stackPage (by simp)] at hq
      cases hq), hm₃]
    exact hchain.head_eq htwo.inv.free.chain
  · intro v p hvp
    rcases List.mem_append.mp hvp with hvp | hvp
    · obtain ⟨h₁, h₂⟩ := window_ptIndex hv hvp
      rw [htwo.other a ht.space firstPath _ rfl ?_, hm₃, hw.here v p hvp]
      intro _ _ w q hwq
      rcases List.mem_append.mp hwq with hwq | hwq
      · obtain ⟨rfl, rfl⟩ : w = _ ∧ q = _ := by simpa using hwq
        exact h₁
      · obtain ⟨rfl, rfl⟩ : w = _ ∧ q = _ := by simpa using hwq
        exact h₂
    · rcases List.mem_cons.mp hvp with he | hvp
      · obtain ⟨rfl, rfl⟩ := Prod.mk.inj he
        exact htwo.here _ _ (by simp)
      · obtain ⟨rfl, rfl⟩ : v = _ ∧ p = entry := by simpa using hvp
        rw [htwo.here _ (pageAddress p) (by simp), userEntry_pageAddress]
  · intro ρ j hρ hj
    rw [htwo.other a ht.space ρ j hρ ?_, hm₃,
      hw.other a (Function.update_self a _ own) ρ j hρ ?_, hc.here ρ j hρ]
    · exact fun _ hp v p hvp => hj hp v p (by simp [ElfPlan.userPages, hvp])
    · intro _ hp v p hvp
      rcases List.mem_append.mp hvp with hvp | hvp
      · exact hj hp v p (by
          obtain ⟨rfl, rfl⟩ : v = _ ∧ p = _ := by simpa using hvp
          simp [ElfPlan.userPages])
      · obtain ⟨rfl, rfl⟩ : v = _ ∧ p = _ := by simpa using hvp
        exact hj hp _ entry (by simp [ElfPlan.userPages])
  · intro b hb ρ j hρ
    have hba : b ≠ a := by
      rintro rfl
      exact h.inv.own_ne_free (by simp) b [] hb
    have hb₁ : IsSpace (Function.update own a (some (a, []))) b := by
      rw [IsSpace, Function.update_of_ne hba]
      exact hb
    rw [htwo.other b (ht.keep b _ hb) ρ j hρ (fun he => absurd he hba), hm₃,
      hw.other b hb₁ ρ j hρ (fun he => absurd he hba), hc.other b hb ρ j hρ]

/-- `syscall_prepare_exec_bootstrap` ends in one of four ways. -/
theorem syscallPrepareExecBootstrap_spec (image : Mem) (imageSize : Word)
    (h : ExecContext K own s l rb re) (hentry : entry.toNat < 2 ^ 52) {current : Option UserTaskBootstrap}
    (hr : reusableRange current = (rb, re)) :
    PrepareOutcome K entry rb re image imageSize s own l
      (syscallPrepareExecBootstrap entry s image imageSize current) := by
  unfold syscallPrepareExecBootstrap
  rw [hr]
  cases l with
  | nil =>
    rw [pagingCreate_nil h.inv]
    simp only [true_or, if_true]
    exact .early (.inl rfl) h.inv (List.Perm.refl _) (ChangesOnly.refl _ _) (SameGlobals.refl s)
  | cons a l =>
  obtain ⟨s₁, hrun, hc⟩ := pagingCreate_cons h.inv
  have ha : a ≠ 0#64 := (h.inv.free.pages a (by simp)).ne_zero
  simp only [hrun, ha, hc.valid, not_true_eq_false, or_self, if_false]
  have hctx := hc.loadContext h
  have hout := elfLoadUserImage_spec image imageSize hctx
  generalize elfLoadUserImage s₁ image imageSize firstUserLayout a rb re = r at hout
  cases hout with
  | rejected hcheck =>
    obtain ⟨l', hinv, hperm, hm, hg⟩ := early_released h.inv hc hc.inv (List.Perm.refl _)
      (ChangesLinks.refl _ _) (SameGlobals.refl _)
    refine .early (.inr (.inl ?_)) hinv hperm hm hg
    rwa [elfCheck_eq_execPlan ha] at hcheck
  | unavailable hcheck hno inv perm links globals =>
    obtain ⟨l', hinv, hperm, hm, hg⟩ := early_released h.inv hc inv perm links globals
    rw [elfCheck_eq_execPlan ha] at hcheck
    exact .early (.inr (.inr ⟨_, hcheck, hno⟩)) hinv hperm hm hg
  | noTables hcheck hav hlt =>
    rw [elfCheck_eq_execPlan ha] at hcheck
    exact .noTables hcheck hav hlt
  | noStack hcheck window =>
    obtain ⟨l', hinv, hperm, hwin, hframe, hg⟩ := noStack_released h (elfCheck_valid hcheck).1 hc window
    rw [elfCheck_eq_execPlan ha] at hcheck
    exact .noStack hcheck window.available (by simpa using window.length) hinv hperm hwin hframe hg
  | @loaded plan s₂ s₃ s₄ own₁ stackPage l' hcheck window mem globals inv stack =>
    have hspace := (Taken.spaceTaken h.inv (fun p hp => List.diff_subset _ _ hp) window.taken).choose_spec.2.space
    have hpath : userPath firstUserLayout.trampolineBase = firstPath := rfl
    have hpage : (pageAddress entry).toNat < 2 ^ 52 := by
      rw [pageAddress, toNat_alignDown]
      omega
    have hpriv : Private own₁ a (userPath firstUserLayout.trampolineBase) := hpath ▸ window.table
    simp only [ok_bind]
    rcases pagingMapUserPage_spec stack.inv hspace (v := firstUserLayout.trampolineBase)
        (p := pageAddress entry) (first_slot h.limit _ _ hpath.symm)
      with ⟨s₅, own₅, l₅, hrun₅, hmap⟩ | ⟨_, _, hno⟩
    swap
    · exact absurd hpriv hno
    obtain ⟨rfl, rfl⟩ := hmap.taken.none_of_private stack.inv hmap.inv hpriv
    have hmatch := matches_of_leaf hmap.inv hspace hpage hmap.here
    simp only [hrun₅, ok_bind, hmatch, not_true_eq_false, if_false]
    have hprep := prepared_of_loaded h (elfCheck_valid hcheck).1 hc window mem globals stack hmap inv
    rw [elfCheck_eq_execPlan ha] at hcheck
    exact .prepared hcheck hprep

/-- What a successful preparation means. -/
theorem prepared_of_run (h : ExecContext K own s l rb re) (hentry : entry.toNat < 2 ^ 52)
    {current : Option UserTaskBootstrap} (hr : reusableRange current = (rb, re))
    {bootstrap : UserTaskBootstrap} {s' : Phys}
    (hrun : syscallPrepareExecBootstrap entry s image imageSize current = .ok (some bootstrap, s')) :
    ∃ plan a stackPage own' l', execPlan image imageSize = some plan ∧
      bootstrap = plan.bootstrap entry a stackPage ∧
      Prepared K entry rb re image plan s own l a stackPage s' own' l' := by
  have hout := syscallPrepareExecBootstrap_spec image imageSize h hentry hr
  rw [hrun] at hout
  cases hout with
  | prepared hplan hprep => exact ⟨_, _, _, _, _, hplan, rfl, hprep⟩

/-- With the window free and four more pages a valid image is prepared. -/
theorem prepare_succeeds (current : Option UserTaskBootstrap) (h : ExecContext K own s l rb re)
    (hentry : entry.toNat < 2 ^ 52) (hr : reusableRange current = (rb, re))
    (hplan : execPlan image imageSize = some plan) (hav : ∀ p ∈ plan.claimed rb re, p ∈ l.tail)
    (hlen : 4 ≤ (l.tail.diff (plan.claimed rb re)).length) :
    ∃ a stackPage s' own' l', syscallPrepareExecBootstrap entry s image imageSize current =
        .ok (some (plan.bootstrap entry a stackPage), s') ∧
      Prepared K entry rb re image plan s own l a stackPage s' own' l' := by
  have hout := syscallPrepareExecBootstrap_spec image imageSize h hentry hr
  generalize hrun : syscallPrepareExecBootstrap entry s image imageSize current = r at hout
  cases hout with
  | early why =>
    exfalso
    rcases why with rfl | hn | ⟨plan', hplan', p, hp, hno⟩
    · simp at hlen
    · rw [hn] at hplan
      cases hplan
    · obtain rfl := Option.some.inj (hplan'.symm.trans hplan)
      exact hno (hav p hp)
  | noStack hplan' _ length =>
    obtain rfl := Option.some.inj (hplan'.symm.trans hplan)
    omega
  | noTables hplan' _ length =>
    obtain rfl := Option.some.inj (hplan'.symm.trans hplan)
    omega
  | prepared hplan' hprep =>
    obtain rfl := Option.some.inj (hplan'.symm.trans hplan)
    exact ⟨_, _, _, _, _, rfl, hprep⟩

/-- An unacceptable image is an error. -/
theorem prepare_rejected (entry : Word) (image : Mem) (imageSize : Word) (current : Option UserTaskBootstrap)
    (h : ExecContext K own s l rb re) (hentry : entry.toNat < 2 ^ 52) (hr : reusableRange current = (rb, re))
    (hplan : execPlan image imageSize = none) :
    ∃ s', syscallPrepareExecBootstrap entry s image imageSize current = .ok (none, s') := by
  have hout := syscallPrepareExecBootstrap_spec image imageSize h hentry hr
  generalize hrun : syscallPrepareExecBootstrap entry s image imageSize current = r at hout
  cases hout with
  | early => exact ⟨_, rfl⟩
  | noStack hplan' | noTables hplan' | prepared hplan' =>
    rw [hplan] at hplan'
    cases hplan'

/-- What a preparation takes was free. -/
lemma Prepared.taken_free {stackPage : Word} {s' : Phys} {own' : Owner} {l' : List Word}
    (hp : Prepared K entry rb re image plan s own l a stackPage s' own' l') :
    (∀ p ∈ l', p ∈ l) ∧ ∀ p ρ, own' p = some (a, ρ) → p ∈ l := by
  obtain ⟨l₀, rfl, -, tabs, hdiff, -, htabs⟩ := hp.head
  have hsub : ∀ p ∈ tabs ++ stackPage :: l', p ∈ a :: l₀ := fun p hm =>
    List.mem_cons_of_mem a (List.diff_subset _ _ (hdiff ▸ hm))
  refine ⟨fun p hm => hsub p (by simp [hm]), fun p ρ hρ => ?_⟩
  rcases List.mem_cons.mp ((htabs p).mpr ⟨ρ, hρ⟩) with rfl | hm
  · simp
  · exact hsub p (by simp [hm])

lemma Prepared.stack_mem {stackPage : Word} {s' : Phys} {own' : Owner} {l' : List Word}
    (hp : Prepared K entry rb re image plan s own l a stackPage s' own' l') : stackPage ∈ l := by
  obtain ⟨l₀, rfl, -, tabs, hdiff, -⟩ := hp.head
  exact List.mem_cons_of_mem a (List.diff_subset _ _ (by rw [hdiff]; simp))

/-- The pages that a successful preparation left the caller are not free. -/
lemma Prepared.own_pages {stackPage : Word} {s' : Phys} {own' : Owner} {l' : List Word}
    (h : ExecContext K own s l rb re) (hv : plan.Valid imageSize firstUserLayout)
    (hp : Prepared K entry rb re image plan s own l a stackPage s' own' l') {p : Word}
    (hpw : p ∈ plan.windowPages) : p ∉ l' ∧ own' p = none ∧ ¬ K.IsTable p := by
  obtain ⟨l₀, rfl, hav, tabs, hdiff, -, htabs⟩ := hp.head
  have hnd := (List.nodup_cons.mp h.inv.free.nodup)
  have hmem : ∀ q, q ∈ l₀.diff (plan.claimed rb re) ↔ q ∈ l₀ ∧ q ∉ plan.claimed rb re :=
    fun q => hnd.2.mem_sdiff_iff
  have hnot : p ∉ l₀.diff (plan.claimed rb re) ∧ p ≠ a ∧ own p = none ∧ ¬ K.IsTable p := by
    cases hr : pageInRange p rb re with
    | true =>
      obtain ⟨hl, ho, hk⟩ := h.reusable p (hv.windowPages_page hpw) hr
      exact ⟨fun hm => hl (by simp [((hmem p).mp hm).1]), by rintro rfl; exact hl (by simp), ho, hk⟩
    | false =>
      have hc : p ∈ plan.claimed rb re := mem_unowned.mpr ⟨hpw, hr⟩
      have hl := hav p hc
      exact ⟨fun hm => ((hmem p).mp hm).2 hc, by rintro rfl; exact hnd.1 hl,
        h.inv.free_own p (by simp [hl]), h.inv.free_kernel p (by simp [hl])⟩
  obtain ⟨hd, hpa, ho, hk⟩ := hnot
  rw [hdiff] at hd
  refine ⟨fun hm => hd (by simp [hm]), ?_, hk⟩
  cases ho' : own' p with
  | none => rfl
  | some x =>
    obtain ⟨b, ρ⟩ := x
    by_cases hb : b = a
    · subst hb
      rcases List.mem_cons.mp ((htabs p).mpr ⟨ρ, ho'⟩) with rfl | hm
      · exact absurd rfl hpa
      · exact absurd (List.mem_append_left _ hm) hd
    · rw [hp.other_own p b ρ ho' hb] at ho
      cases ho

/-- Nor is its stack page. -/
lemma Prepared.own_stack {stackPage : Word} {s' : Phys} {own' : Owner} {l' : List Word}
    (h : ExecContext K own s l rb re)
    (hp : Prepared K entry rb re image plan s own l a stackPage s' own' l') :
    IsPage stackPage ∧ stackPage ∉ l' ∧ own' stackPage = none ∧ ¬ K.IsTable stackPage := by
  obtain ⟨l₀, rfl, -, tabs, hdiff, -, htabs⟩ := hp.head
  have hnd := List.nodup_cons.mp h.inv.free.nodup
  have hl₀ : stackPage ∈ l₀ := List.diff_subset _ _ (by rw [hdiff]; simp)
  have hl : stackPage ∈ a :: l₀ := List.mem_cons_of_mem a hl₀
  have hndd : (tabs ++ stackPage :: l').Nodup := hdiff ▸ hnd.2.diff
  obtain ⟨-, hnd', hcross⟩ := List.nodup_append.mp hndd
  refine ⟨h.inv.free.pages _ hl, (List.nodup_cons.mp hnd').1, ?_, h.inv.free_kernel _ hl⟩
  cases ho : own' stackPage with
  | none => rfl
  | some x =>
    obtain ⟨b, ρ⟩ := x
    by_cases hb : b = a
    · subst hb
      rcases List.mem_cons.mp ((htabs stackPage).mpr ⟨ρ, ho⟩) with rfl | hm
      · exact absurd hl₀ hnd.1
      · exact absurd rfl (hcross _ hm _ (by simp))
    · have hfree := h.inv.free_own _ hl
      rw [hp.other_own _ b ρ ho hb] at hfree
      cases hfree

end Outcome

end Platinum
