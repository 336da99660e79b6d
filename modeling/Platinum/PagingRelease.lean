import Platinum.PagingIsolation

/-!
# An address space from creation to release

A layout inside one 2 MiB region needs one page table. Whatever is mapped there,
releasing the space returns the pages it took since its creation.
-/
namespace Platinum
open ByteMemory WordArith SharedTrie

/-- The layout's addresses share the page directory entry of its trampoline. -/
def UserVirtualLayout.OneRegion (layout : UserVirtualLayout) : Prop :=
  layout.trampolineBase.toNat / 2 ^ 21 = (layout.stackTop.toNat - 1) / 2 ^ 21

instance (layout : UserVirtualLayout) : Decidable layout.OneRegion :=
  inferInstanceAs (Decidable (_ = _))

/-- `paging_map_user_page` calls in any number and order, inside the layout. -/
inductive LayoutMaps (a : Word) (layout : UserVirtualLayout) (s : Phys) : Phys → Prop
  | nil : LayoutMaps a layout s s
  | map {s₁ s₂ : Phys} {v p : Word} : LayoutMaps a layout s s₁ → layout.trampolineBase ≤ v →
      v < layout.stackTop → pagingMapUserPage s₁ a v p = .ok s₂ → LayoutMaps a layout s s₂

lemma userPath_eq_of_region {v w : Word} (h : v.toNat / 2 ^ 21 = w.toNat / 2 ^ 21) :
    userPath v = userPath w := by
  have h39 : v.toNat / 2 ^ 39 % 512 = w.toNat / 2 ^ 39 % 512 := by omega
  have h30 : v.toNat / 2 ^ 30 % 512 = w.toNat / 2 ^ 30 % 512 := by omega
  have h21 : v.toNat / 2 ^ 21 % 512 = w.toNat / 2 ^ 21 % 512 := by omega
  simp only [userPath, pml4Index, pdptIndex, pdIndex, List.cons.injEq, and_true]
  refine ⟨Fin.ext ?_, Fin.ext ?_, Fin.ext ?_⟩ <;> rw [tableIndex_val, tableIndex_val] <;> assumption

lemma UserVirtualLayout.OneRegion.userPath {layout : UserVirtualLayout} (h : layout.OneRegion)
    {v : Word} (hv : layout.trampolineBase ≤ v) (hv' : v < layout.stackTop) :
    Platinum.userPath v = Platinum.userPath layout.trampolineBase := by
  rw [BitVec.le_def] at hv
  rw [BitVec.lt_def] at hv'
  unfold OneRegion at h
  exact userPath_eq_of_region (by omega)

section Maps

variable {K : KernelTables} {own : Owner} {s s' : Phys} {l : List Word} {a : Word}
  {layout : UserVirtualLayout}

/-- Any number of mappings takes private tables of the one path only. -/
lemma LayoutMaps.taken (h : PagingInv K own s l) (ha : IsSpace own a) (hone : layout.OneRegion)
    (hslot : K.base [] (pml4Index layout.trampolineBase) ≠ 0#64)
    (hmaps : LayoutMaps a layout s s') :
    ∃ own' l', PagingInv K own' s' l' ∧ Taken a (userPath layout.trampolineBase) own l own' l' := by
  induction hmaps with
  | nil => exact ⟨own, l, h, Taken.refl⟩
  | @map s₁ s₂ v p _ hv hv' hrun ih =>
    obtain ⟨own₁, l₁, h₁, ht⟩ := ih
    have hpath := hone.userPath hv hv'
    have hslot' : K.base [] (pml4Index v) ≠ 0#64 := by
      have hi : pml4Index v = pml4Index layout.trampolineBase := (List.cons.inj hpath).1
      rwa [hi]
    rcases pagingMapUserPage_spec h₁ (ht.keep h.free_own ha) (p := p) hslot'
      with ⟨s₃, own₂, l₂, hok, hm⟩ | ⟨herr, _⟩
    · obtain rfl := Except.ok.inj (hok.symm.trans hrun)
      exact ⟨own₂, l₂, hm.inv, ht.trans h₁.free_own (hpath ▸ hm.taken)⟩
    · rw [herr] at hrun
      cases hrun

/-- The pages a space took are its own, and it has no others. -/
lemma Taken.space_pages {q : Word} {path : Path} {own' : Owner} {l' : List Word}
    (h : PagingInv K own s (q :: l))
    (ht : Taken q path (Function.update own q (some (q, []))) l own' l') :
    ∃ new, l = new ++ l' ∧ (∀ p, p ∈ q :: new ↔ ∃ ρ, own' p = some (q, ρ)) ∧
      ∀ p ρ, own' p = some (q, ρ) → ρ <+: path := by
  obtain ⟨new, hl, hnew, hold⟩ := ht
  have hq : q ∉ new := fun hm => by
    have hnd := List.nodup_cons.mp h.free.nodup
    exact hnd.1 (by rw [hl]; simp [hm])
  have hroot : own' q = some (q, []) := (hold q hq).trans (Function.update_self _ _ _)
  -- outside `new` only the root belongs to the space
  have hself : ∀ p ρ, p ∉ new → own' p = some (q, ρ) → p = q := by
    intro p ρ hp hρ
    by_contra hpq
    rw [hold p hp, Function.update_of_ne hpq] at hρ
    have hr := h.tables.root_own hρ
    rw [h.free_own q (by simp)] at hr
    cases hr
  refine ⟨new, hl, fun p => ⟨fun hp => ?_, fun ⟨ρ, hρ⟩ => ?_⟩, fun p ρ hρ => ?_⟩
  · rcases List.mem_cons.mp hp with rfl | hp
    · exact ⟨[], hroot⟩
    · obtain ⟨ρ, -, -, ho⟩ := hnew p hp
      exact ⟨ρ, ho⟩
  · by_cases hp : p ∈ new
    · exact List.mem_cons_of_mem q hp
    · exact List.mem_cons.mpr (.inl (hself p ρ hp hρ))
  · by_cases hp : p ∈ new
    · obtain ⟨σ, -, hpre, ho⟩ := hnew p hp
      rw [ho] at hρ
      exact (Prod.mk.inj (Option.some.inj hρ)).2 ▸ hpre
    · obtain rfl := hself p ρ hp hρ
      rw [hroot] at hρ
      exact (Prod.mk.inj (Option.some.inj hρ)).2 ▸ List.nil_prefix

/-- Creating, mapping and releasing permutes the free list. -/
lemma LayoutMaps.release {s₁ s₂ : Phys} (h : PagingInv K own s l) (hone : layout.OneRegion)
    (hslot : K.base [] (pml4Index layout.trampolineBase) ≠ 0#64)
    (hcreate : pagingCreateUserAddressSpace s = (a, s₁)) (ha : a ≠ 0#64)
    (hmaps : LayoutMaps a layout s₁ s₂) :
    ∃ own' l', PagingInv K own' (pagingReleaseUserAddressSpace s₂ a layout) l' ∧ l'.Perm l := by
  cases l with
  | nil =>
    rw [pagingCreate_nil h] at hcreate
    exact absurd (Prod.mk.inj hcreate).1.symm ha
  | cons q l =>
    obtain ⟨s₃, hs₃, hc⟩ := pagingCreate_cons h
    obtain ⟨rfl, rfl⟩ := Prod.mk.inj (hs₃.symm.trans hcreate)
    obtain ⟨own', l', h', ht⟩ := hmaps.taken hc.inv (Function.update_self _ _ _) hone hslot
    obtain ⟨new, rfl, hpages, hpath⟩ := ht.space_pages h
    have hspace : IsSpace own' q := ht.keep hc.inv.free_own (Function.update_self _ _ _)
    obtain ⟨freed, hr⟩ := pagingRelease_spec h' hspace hpath
    refine ⟨_, freed ++ l', hr.inv, ?_⟩
    have hnd : (q :: new).Nodup := (List.nodup_append.mp (List.cons_append ▸ h.free.nodup)).1
    have hperm : freed.Perm (q :: new) :=
      (List.perm_ext_iff_of_nodup hr.nodup hnd).mpr fun p => by rw [hr.mem_freed, hpages]
    exact hperm.append_right l'

end Maps

/-- Releasing a space returns exactly the pages taken since its creation, and
keeps the kernel's tables out of the free list. -/
theorem release_returns_taken {pre s₀ s s₁ s₂ : Phys} {l₀ spaces : List Word} {a : Word}
    {layout : UserVirtualLayout} (hfree : FreeList pre l₀) (hboot : pagingInitialize pre = .ok s₀)
    (hrun : PagingRun s₀ s spaces) (hone : layout.OneRegion)
    (hslot : Present (slot s.mem s.pagingKernelPml4 (pml4Index layout.trampolineBase)))
    (hcreate : pagingCreateUserAddressSpace s = (a, s₁)) (ha : a ≠ 0#64)
    (hmaps : LayoutMaps a layout s₁ s₂) :
    ∃ l l', FreeList s l ∧ FreeList (pagingReleaseUserAddressSpace s₂ a layout) l' ∧ l'.Perm l ∧
      l'.Nodup ∧ ∀ t, TableOf s.mem s.pagingKernelPml4 t →
        t ∉ l' ∧ TableOf (pagingReleaseUserAddressSpace s₂ a layout).mem s.pagingKernelPml4 t ∧
          ∀ i, slot (pagingReleaseUserAddressSpace s₂ a layout).mem t i = slot s.mem t i := by
  rcases pagingInitialize_spec hfree with ⟨s₃, K, l₁, hs₃, hb⟩ | ⟨hs₃, _⟩
  swap
  · rw [hs₃] at hboot
    cases hboot
  obtain rfl := Except.ok.inj (hs₃.symm.trans hboot)
  obtain ⟨own, l, h⟩ := hrun.inv hb.inv
  obtain ⟨own', l', h', hperm⟩ := hmaps.release h.inv hone (h.inv.present_root hslot) hcreate ha
  refine ⟨l, l', h.inv.free, h'.free, hperm, h'.free.nodup, fun t ht => ?_⟩
  have htk := h.inv.kernel_tableOf.mp ht
  refine ⟨fun hm => h'.free_kernel t hm htk, ?_, fun i => ?_⟩
  · rw [h.inv.root, ← h'.root]
    exact h'.kernel_tableOf.mpr htk
  · obtain ⟨π, hd, hn⟩ := htk
    rw [h'.kernel π t i hd hn, h.inv.kernel π t i hd hn]

/-- The trampoline page of a layout, mapped twice and released. -/
theorem release_returns_taken_sample : ∃ s₀ s₁ s₂ a layout l l',
    pagingInitialize (pallocInitialize (coldMachine 0x4000#64)) = .ok s₀ ∧
    layout = ⟨0x40000000#64, 0x40001000#64, 0x40200000#64⟩ ∧
    pagingCreateUserAddressSpace s₀ = (a, s₁) ∧ LayoutMaps a layout s₁ s₂ ∧
    FreeList s₀ l ∧ FreeList (pagingReleaseUserAddressSpace s₂ a layout) l' ∧ l'.Perm l := by
  obtain ⟨l, s₀, K, l₀, hl, -, -, hs₀, hb, hlen, -⟩ := coldMachine_boots 0x4000#64
    (b := 0x02000000#64) (e := 0x06000000#64) (by decide) (by decide) (by decide) (by decide)
  have hlen₀ : 4 ≤ l₀.length := by
    have hsize : ((0x06000000#64 : Word).toNat - (0x02000000#64 : Word).toNat) / 4096 = 0x4000 := by
      decide
    omega
  obtain ⟨q, l₁, rfl⟩ : ∃ q l₁, l₀ = q :: l₁ := by
    cases l₀ with
    | nil => simp at hlen₀
    | cons q l₁ => exact ⟨q, l₁, rfl⟩
  obtain ⟨s₁, hs₁, hc⟩ := pagingCreate_cons hb.inv
  obtain ⟨layout, hlayout⟩ : ∃ layout : UserVirtualLayout,
      layout = ⟨0x40000000#64, 0x40001000#64, 0x40200000#64⟩ := ⟨_, rfl⟩
  have hone : layout.OneRegion := by
    subst hlayout
    decide
  have hbase : layout.trampolineBase = 0x40000000#64 := by rw [hlayout]
  have htop : layout.trampolineBase < layout.stackTop := by
    subst hlayout
    decide
  have hslot : K.base [] (pml4Index layout.trampolineBase) ≠ 0#64 := by
    rw [hbase]
    exact K.slot_present hb.limit_pos (by decide)
  have hspace : IsSpace (Function.update (fun _ => none) q (some (q, []))) q :=
    Function.update_self _ _ _
  rcases pagingMapUserPage_spec hc.inv hspace (p := 0x02100000#64) hslot
    with ⟨s₂, own₂, l₂, hs₂, hm⟩ | ⟨_, hlt, _⟩
  swap
  · rw [List.length_cons] at hlen₀
    omega
  rcases pagingMapUserPage_spec hm.inv (hm.taken.keep hc.inv.free_own hspace) (p := 0x02200000#64)
    hslot with ⟨s₃, own₃, l₃, hs₃, -⟩ | ⟨_, -, hno⟩
  swap
  · exact absurd hm.table hno
  have hmaps : LayoutMaps q layout s₁ s₃ :=
    .map (.map .nil (BitVec.le_refl _) htop hs₂) (BitVec.le_refl _) htop hs₃
  obtain ⟨l, l', hl₀, hl', hperm, -⟩ := release_returns_taken hl.list hs₀ .boot hone
    (hb.inv.root_present hslot) hs₁ (hb.inv.free.pages q (by simp)).ne_zero hmaps
  exact ⟨s₀, s₁, s₃, q, layout, l, l', hs₀, hlayout, hs₁, hmaps, hl₀, hl', hperm⟩

end Platinum
