import Platinum.PagingWalk

/-!
# Creating and releasing user address spaces

A new space is one page that copies the kernel's PML4. Releasing a space whose
private tables all lie on one path gives back exactly those tables.
-/
namespace Platinum
open ByteMemory WordArith SharedTrie

/-- `a` is the PML4 of a user address space. -/
def IsSpace (own : Owner) (a : Word) : Prop := own a = some (a, [])

section Create

variable {K : KernelTables} {own : Owner} {s : Phys} {l : List Word} {a q : Word}

theorem pagingCreate_nil (h : PagingInv K own s []) :
    pagingCreateUserAddressSpace s = (0#64, s) := by
  simp [pagingCreateUserAddressSpace, allocTable_nil h.free]

/-- The effect of a successful `paging_create_user_address_space`. -/
structure Created (K : KernelTables) (s : Phys) (own : Owner) (q : Word) (l : List Word)
    (s' : Phys) : Prop where
  inv : PagingInv K (Function.update own q (some (q, []))) s' l
  globals : SameGlobals s s'
  mem : ChangesOnly {q} s.mem s'.mem
  slots : ∀ i, slot s'.mem q i = K.base [] i
  here : ∀ ρ j, ρ.length = 3 → leafEntry s'.mem q ρ j = K.base ρ j
  other : ∀ b, IsSpace own b → ∀ ρ j, ρ.length = 3 →
    leafEntry s'.mem b ρ j = leafEntry s.mem b ρ j

theorem pagingCreate_cons (h : PagingInv K own s (q :: l)) :
    ∃ s', pagingCreateUserAddressSpace s = (q, s') ∧ Created K s own q l s' := by
  have hqp : IsPage q := h.free.pages q (by simp)
  have hq : own q = none := h.free_own q (by simp)
  have hqk : ¬ K.IsTable q := h.free_kernel q (by simp)
  have hql : q ∉ l := (List.nodup_cons.mp h.free.nodup).1
  obtain ⟨s₁, hs₁, hl₁, hc₁, -, hg₁⟩ := allocTable_cons h.free
  have hroot : K.root ≠ q := by
    rintro rfl
    exact hqk ⟨[], by simp, K.node_root⟩
  have hrp : IsPage K.root := K.node_page [] K.root (by simp) K.node_root
  have hcopy := copyEntries_spec s₁.mem hqp.aligned hrp.aligned hroot
  have hk₁ : s₁.pagingKernelPml4 = K.root := hg₁.kernelPml4.trans h.root
  have hmem : ChangesOnly {q} s.mem (copyEntries s₁.mem q K.root) := hc₁.trans hcopy.1
  have hslots : ∀ i, slot (copyEntries s₁.mem q K.root) q i = K.base [] i := by
    intro i
    rw [hcopy.2 i, hc₁.slot (by simp [hqp.aligned]) hrp.aligned (by simpa using hroot)]
    exact h.kernel [] K.root i (by simp) K.node_root
  have hframe : ∀ r j, IsPage r → r ≠ q →
      slot (copyEntries s₁.mem q K.root) r j = slot s.mem r j :=
    fun r j hr hrq => hmem.slot (by simp [hqp.aligned]) hr.aligned (by simpa using hrq) j
  have hold {p : Word} (hp : p ≠ q) :
      Function.update own q (some (q, [])) p = own p := Function.update_of_ne hp _ _
  have hne {p : Word} {x : Word × Path} (hp : own p = some x) : p ≠ q := by
    rintro rfl
    rw [hq] at hp
    cases hp
  have hinv : PagingInv K (Function.update own q (some (q, [])))
      { s₁ with mem := copyEntries s₁.mem q K.root } l := by
    refine ⟨?_, hk₁, ?_, h.tables.create hq hqp (fun ρ hρ hn => hqk ⟨ρ, hρ, hn⟩) hslots hframe,
      ?_, fun p hp => h.free_kernel p (by simp [hp])⟩
    · exact hl₁.frame rfl hcopy.1 (by simp [hqp.aligned]) (by simpa using hql)
    · intro π t i hd hn
      rw [← h.kernel π t i hd hn]
      refine hframe t i (K.node_page π t hd hn) ?_
      rintro rfl
      exact hqk ⟨π, hd, hn⟩
    · intro p hp
      rw [hold (by rintro rfl; exact hql hp)]
      exact h.free_own p (by simp [hp])
  refine ⟨_, by simp [pagingCreateUserAddressSpace, hs₁, hqp.ne_zero, hk₁], hinv,
    hg₁.trans ⟨rfl, rfl, rfl, rfl, rfl⟩, hmem, hslots, ?_, ?_⟩
  · intro ρ j hρ
    have hspace : Function.update own q (some (q, [])) q = some (q, []) := Function.update_self _ _ _
    refine hinv.tables.leaf_shared hinv.base hspace (by omega) ?_ j
    intro p hp
    by_cases hpq : p = q
    · subst hpq
      rw [hspace] at hp
      simp only [Option.some.injEq, Prod.mk.injEq, true_and] at hp
      rw [← hp] at hρ
      cases hρ
    · rw [hold hpq] at hp
      have hr := h.tables.root_own hp
      rw [hq] at hr
      cases hr
  · intro b hb ρ j hρ
    have hb' : Function.update own q (some (q, [])) b = some (b, []) := (hold (hne hb)).trans hb
    by_cases hp : Private own b ρ
    · obtain ⟨p, hp⟩ := hp
      rw [leafEntry, leafEntry, h.tables.leaf_private hp,
        hinv.tables.leaf_private ((hold (hne hp)).trans hp)]
      exact hframe p j (h.own_page hp) (hne hp)
    · rw [leafEntry, leafEntry,
        h.tables.leaf_shared h.base hb (by omega) (fun p hp' => hp ⟨p, hp'⟩)]
      refine hinv.tables.leaf_shared hinv.base hb' (by omega) ?_ j
      intro p hp'
      by_cases hpq : p = q
      · subst hpq
        rw [Function.update_self] at hp'
        obtain ⟨rfl, rfl⟩ := Prod.mk.inj (Option.some.inj hp')
        cases hρ
      · exact hp ⟨p, (hold hpq).symm.trans hp'⟩

/-- A fresh space passes the kernel's check. -/
theorem Created.valid {s' : Phys} (h : Created K s own q l s') :
    pagingAddressSpaceValid s' q = true := by
  have hq : q ≠ 0#64 := (h.inv.own_page (Function.update_self q _ own)).ne_zero
  simp only [pagingAddressSpaceValid, hq, if_false, List.all_eq_true, decide_eq_true_eq]
  intro i _
  rw [h.slots i, h.inv.root, h.inv.kernel [] K.root i (by simp) K.node_root]

end Create

section Release

variable {K : KernelTables} {own : Owner} {s : Phys} {l : List Word} {a t q : Word}
  {π : Path} {i : Index}

/-- The table at a position of the space: its own, or the kernel's. -/
def TableAt (K : KernelTables) (own : Owner) (a : Word) (π : Path) (t : Word) : Prop :=
  own t = some (a, π) ∨ (¬ Private own a π ∧ K.node π = some t)

lemma TableAt.own_of_private (ht : TableAt K own a π t)
    (hp : Private own a π) : own t = some (a, π) := ht.resolve_right fun hn => hn.1 hp

lemma TableAt.next (h : PagingInv K own s l) (ha : IsSpace own a) (hd : π.length < 3)
    (ht : TableAt K own a π t) (hp : Present (slot s.mem t i)) :
    TableAt K own a (π ++ [i]) (entryTable (slot s.mem t i)) := by
  rcases (user_levels h ha).next i hd ht with ⟨hn, _⟩ | ⟨q, _, _, he, _, hAt, _⟩
  · exact absurd hp hn
  · rw [show entryTable (slot s.mem t i) = q from he]
    exact hAt

/-- The release code frees a table exactly when it is private. -/
lemma TableAt.freed_iff (h : PagingInv K own s l) (ht : TableAt K own a π t)
    (hd : π.length < 3) :
    (Present (slot s.mem t i) ∧ entryAddress (slot s.mem t i) ≠ entryAddress (K.base π i)) ↔
      Private own a (π ++ [i]) := by
  constructor
  · rintro ⟨hp, hne⟩
    by_contra hno
    apply hne
    rcases ht with ht | ⟨_, hn⟩
    · rw [h.slot_shared ht hd fun q hq => hno ⟨q, hq⟩]
    · rw [h.kernel π t i (by omega) hn]
  · rintro ⟨q, hq⟩
    have ht := ht.own_of_private (h.tables.prefix_own hq)
    exact ⟨(h.present_iff ht hd).mpr (.inl ⟨q, hq⟩), h.private_ne_kernel ht hd hq⟩

lemma PagingInv.kernelAddress_below (h : PagingInv K own s l) (hd : π.length < 3) (i j : Index) :
    (if entryAddress (K.base π i) = 0#64 then 0#64
      else entryAddress (slot s.mem (entryAddress (K.base π i)) j)) =
      entryAddress (K.base (π ++ [i]) j) := by
  have hlen : (π ++ [i]).length ≤ 3 := by simp; omega
  rcases K.entryAddress_base hd (i := i) with ⟨h0, hn⟩ | ⟨q, hq, hb, hn⟩
  · rw [h0, K.base_absent _ j hlen hn]
    simp
  · rw [hb, entryAddress_tableEntry hq, if_neg hq.ne_zero, h.kernel _ _ j hlen hn]

/-- Dropping the private tables of a space that are being freed. -/
structure Released (K : KernelTables) (s : Phys) (own : Owner) (l : List Word) (a : Word)
    (s' : Phys) (freed : List Word) : Prop where
  inv : PagingInv K (Overlay.dropSpace own a) s' (freed ++ l)
  globals : SameGlobals s s'
  mem : ChangesLinks {p | p ∈ freed} s.mem s'.mem
  mem_freed : ∀ p, p ∈ freed ↔ ∃ ρ, own p = some (a, ρ)
  nodup : freed.Nodup
  other : ∀ b, IsSpace own b → b ≠ a → ∀ ρ j, ρ.length = 3 →
    leafEntry s'.mem b ρ j = leafEntry s.mem b ρ j

theorem released_of_freeAll (h : PagingInv K own s l) {ps : List Word} (hnd : ps.Nodup)
    (hps : ∀ p, p ∈ ps ↔ ∃ ρ, own p = some (a, ρ)) :
    Released K s own l a (freeAll s ps) ps.reverse := by
  have hpage : ∀ p ∈ ps, IsPage p := fun p hp => by
    obtain ⟨ρ, hρ⟩ := (hps p).mp hp
    exact h.own_page hρ
  have halign : ∀ p ∈ {p | p ∈ ps}, p.toNat % 4096 = 0 := fun p hp => (hpage p hp).aligned
  have hframe : ∀ r j, IsPage r → r ∉ ps → slot (freeAll s ps).mem r j = slot s.mem r j :=
    fun r j hr hrp => (freeAll_frame s ps).slot halign hr.aligned hrp j
  have hother {r b : Word} {ρ : Path} (hr : own r = some (b, ρ)) (hb : b ≠ a) : r ∉ ps := by
    intro hm
    obtain ⟨σ, hσ⟩ := (hps r).mp hm
    rw [hr] at hσ
    exact hb (Prod.mk.inj (Option.some.inj hσ)).1
  have htables := h.tables.release a
    fun r b ρ j hr hb => hframe r j (h.own_page hr) (hother hr hb)
  have hinv : PagingInv K (Overlay.dropSpace own a) (freeAll s ps) (ps.reverse ++ l) := by
    refine ⟨freeAll_list h.free hpage hnd ?_, (freeAll_globals s ps).kernelPml4.trans h.root, ?_,
      htables, ?_, ?_⟩
    · intro p hp hpl
      obtain ⟨ρ, hρ⟩ := (hps p).mp hp
      rw [h.free_own p hpl] at hρ
      cases hρ
    · intro π t i hd hn
      rw [← h.kernel π t i hd hn]
      refine hframe t i (K.node_page π t hd hn) fun hm => ?_
      obtain ⟨ρ, hρ⟩ := (hps t).mp hm
      exact h.own_not_kernel hρ ⟨π, hd, hn⟩
    · intro p hp
      rcases List.mem_append.mp hp with hp | hp
      · obtain ⟨ρ, hρ⟩ := (hps p).mp (by simpa using hp)
        simp [Overlay.dropSpace, hρ]
      · simp [Overlay.dropSpace, h.free_own p hp]
    · intro p hp
      rcases List.mem_append.mp hp with hp | hp
      · obtain ⟨ρ, hρ⟩ := (hps p).mp (by simpa using hp)
        exact h.own_not_kernel hρ
      · exact h.free_kernel p hp
  refine ⟨hinv, freeAll_globals s ps, (freeAll_links s ps).mono (by simp), by simpa using hps,
    by simpa using hnd, ?_⟩
  intro b hb hba ρ j hρ
  refine h.leaf_congr_space hinv (fun p σ => ?_) (fun q σ i hq => ?_) hb hρ j
  · rw [Overlay.dropSpace_eq_some]
    simp [hba]
  · exact hframe q i (h.own_page hq) (hother hq hba)

/-- `ps` are the private tables of the space at the positions of one path. -/
structure PathTables (own : Owner) (a : Word) (path : Path) (ps : List Word) : Prop where
  nodup : ps.Nodup
  mem_iff : ∀ p, p ∈ ps ↔ ∃ ρ, ρ <+: path ∧ own p = some (a, ρ)

lemma pathTables_of_flags (h : PagingInv K own s l) (ha : IsSpace own a) {i₁ i₂ i₃ : Index}
    (q₁ q₂ q₃ : Word) (b₁ b₂ b₃ : Bool)
    (h₁ : b₁ = true ↔ Private own a [i₁]) (h₂ : b₂ = true ↔ Private own a [i₁, i₂])
    (h₃ : b₃ = true ↔ Private own a [i₁, i₂, i₃]) (hq₁ : b₁ = true → own q₁ = some (a, [i₁]))
    (hq₂ : b₂ = true → own q₂ = some (a, [i₁, i₂]))
    (hq₃ : b₃ = true → own q₃ = some (a, [i₁, i₂, i₃])) :
    PathTables own a [i₁, i₂, i₃] ((if b₃ then [q₃] else []) ++
      ((if b₂ then [q₂] else []) ++ ((if b₁ then [q₁] else []) ++ [a]))) := by
  have ha' : own a = some (a, []) := ha
  refine ⟨?_, ?_⟩
  · -- pages at different positions are different pages
    have hdiff {p q : Word} {ρ σ : Path} (hp : own p = some (a, ρ)) (hq : own q = some (a, σ))
        (hne : ρ ≠ σ) : p ≠ q := by
      rintro rfl
      rw [hp] at hq
      exact hne (Prod.mk.inj (Option.some.inj hq)).2
    have h₃₂ : b₃ = true → b₂ = true → q₃ ≠ q₂ := fun h3 h2 => hdiff (hq₃ h3) (hq₂ h2) (by simp)
    have h₃₁ : b₃ = true → b₁ = true → q₃ ≠ q₁ := fun h3 h1 => hdiff (hq₃ h3) (hq₁ h1) (by simp)
    have h₃₀ : b₃ = true → q₃ ≠ a := fun h3 => hdiff (hq₃ h3) ha' (by simp)
    have h₂₁ : b₂ = true → b₁ = true → q₂ ≠ q₁ := fun h2 h1 => hdiff (hq₂ h2) (hq₁ h1) (by simp)
    have h₂₀ : b₂ = true → q₂ ≠ a := fun h2 => hdiff (hq₂ h2) ha' (by simp)
    have h₁₀ : b₁ = true → q₁ ≠ a := fun h1 => hdiff (hq₁ h1) ha' (by simp)
    clear hq₁ hq₂ hq₃ h₁ h₂ h₃
    cases b₁ <;> cases b₂ <;> cases b₃ <;> simp_all
  · intro p
    have hmem : p ∈ (if b₃ then [q₃] else []) ++ ((if b₂ then [q₂] else []) ++
        ((if b₁ then [q₁] else []) ++ [a])) ↔
        (b₃ = true ∧ p = q₃) ∨ (b₂ = true ∧ p = q₂) ∨ (b₁ = true ∧ p = q₁) ∨ p = a := by
      cases b₁ <;> cases b₂ <;> cases b₃ <;> simp
    rw [hmem]
    constructor
    · rintro (⟨hb, rfl⟩ | ⟨hb, rfl⟩ | ⟨hb, rfl⟩ | rfl)
      · exact ⟨_, List.prefix_refl _, hq₃ hb⟩
      · exact ⟨_, ⟨[i₃], rfl⟩, hq₂ hb⟩
      · exact ⟨_, ⟨[i₂, i₃], rfl⟩, hq₁ hb⟩
      · exact ⟨_, List.nil_prefix, ha'⟩
    · rintro ⟨ρ, hpre, hρ⟩
      rcases ρ with _ | ⟨x, _ | ⟨y, _ | ⟨z, ρ⟩⟩⟩
      · exact .inr (.inr (.inr (h.tables.root hρ)))
      · obtain rfl : x = i₁ := by simpa using hpre
        have hb := h₁.mpr ⟨p, hρ⟩
        exact .inr (.inr (.inl ⟨hb, h.tables.position_unique hρ (hq₁ hb)⟩))
      · obtain ⟨rfl, rfl⟩ : x = i₁ ∧ y = i₂ := by simpa using hpre
        have hb := h₂.mpr ⟨p, hρ⟩
        exact .inr (.inl ⟨hb, h.tables.position_unique hρ (hq₂ hb)⟩)
      · obtain ⟨rfl, rfl, rfl, rfl⟩ : x = i₁ ∧ y = i₂ ∧ z = i₃ ∧ ρ = [] := by
          have hlen := hpre.length_le
          cases ρ with
          | nil => simpa using hpre
          | cons w ρ =>
            simp only [List.length_cons, List.length_nil] at hlen
            omega
        have hb := h₃.mpr ⟨p, hρ⟩
        exact .inl ⟨hb, h.tables.position_unique hρ (hq₃ hb)⟩

/-- `paging_release_user_address_space` frees the private tables above the layout's trampoline. -/
theorem pagingRelease_path (h : PagingInv K own s l) (ha : IsSpace own a)
    (layout : UserVirtualLayout) :
    ∃ ps, PathTables own a (userPath layout.trampolineBase) ps ∧
      pagingReleaseUserAddressSpace s a layout = freeAll s ps := by
  have ha0 : a ≠ 0#64 := (h.own_page ha).ne_zero
  have hak : a ≠ s.pagingKernelPml4 := by
    rintro rfl
    rw [h.root, IsSpace, h.root_own] at ha
    cases ha
  have hk : slot s.mem s.pagingKernelPml4 (pml4Index layout.trampolineBase) =
      K.base [] (pml4Index layout.trampolineBase) := by
    rw [h.root]
    exact h.kernel [] K.root _ (by simp) K.node_root
  have hT₀ : TableAt K own a [] a := .inl ha
  have hF₁ := hT₀.freed_iff h (i := pml4Index layout.trampolineBase) (by simp)
  have hA₁ := h.kernelAddress_below (π := []) (by simp) (pml4Index layout.trampolineBase)
    (pdptIndex layout.trampolineBase)
  have hA₂ := h.kernelAddress_below (π := [pml4Index layout.trampolineBase]) (by simp)
    (pdptIndex layout.trampolineBase) (pdIndex layout.trampolineBase)
  simp only [List.nil_append, List.cons_append] at hF₁ hA₁ hA₂
  unfold pagingReleaseUserAddressSpace
  simp only [ha0, hak, or_self, if_false, hk, hA₁, hA₂]
  by_cases hp₁ : Present (slot s.mem a (pml4Index layout.trampolineBase))
  swap
  · have hno : ¬ Private own a [pml4Index layout.trampolineBase] := fun hp => hp₁ (hF₁.mpr hp).1
    have hps : PathTables own a (userPath layout.trampolineBase) _ := pathTables_of_flags h ha a a a false false false
      (by simpa using hno)
      (by simpa using not_private_of_prefix h (ρ := [_]) hno)
      (by simpa using not_private_of_prefix h (ρ := [_, _]) hno) (by simp) (by simp) (by simp)
    exact ⟨_, hps, by simp [hp₁]⟩
  have hT₁ := hT₀.next h ha (by simp) hp₁
  have hF₂ := hT₁.freed_iff h (i := pdptIndex layout.trampolineBase) (by simp)
  simp only [List.nil_append, List.cons_append] at hT₁ hF₂
  simp only [hp₁, true_and] at hF₁
  by_cases hp₂ : Present (slot s.mem (entryTable (slot s.mem a (pml4Index layout.trampolineBase)))
      (pdptIndex layout.trampolineBase))
  swap
  · have hno : ¬ Private own a [pml4Index layout.trampolineBase, pdptIndex layout.trampolineBase] :=
      fun hp => hp₂ (hF₂.mpr hp).1
    have hps : PathTables own a (userPath layout.trampolineBase) _ := pathTables_of_flags h ha _ a a
      (decide (entryAddress (slot s.mem a (pml4Index layout.trampolineBase)) ≠
        entryAddress (K.base [] (pml4Index layout.trampolineBase)))) false false
      (by simpa using hF₁) (by simpa using hno)
      (by simpa using not_private_of_prefix h (ρ := [_]) hno)
      (fun hb => hT₁.own_of_private (hF₁.mp (by simpa using hb))) (by simp) (by simp)
    refine ⟨_, hps, ?_⟩
    by_cases hb : entryAddress (slot s.mem a (pml4Index layout.trampolineBase)) =
        entryAddress (K.base [] (pml4Index layout.trampolineBase)) <;>
      simp [hp₁, hp₂, hb]
  have hT₂ := hT₁.next h ha (by simp) hp₂
  have hF₃ := hT₂.freed_iff h (i := pdIndex layout.trampolineBase) (by simp)
  simp only [List.cons_append, List.nil_append] at hT₂ hF₃
  simp only [hp₂, true_and] at hF₂
  -- the last level tests presence and address together
  have hps : PathTables own a (userPath layout.trampolineBase) _ := pathTables_of_flags h ha _ _ _
    (decide (entryAddress (slot s.mem a (pml4Index layout.trampolineBase)) ≠
      entryAddress (K.base [] (pml4Index layout.trampolineBase))))
    (decide (entryAddress (slot s.mem (entryTable (slot s.mem a
        (pml4Index layout.trampolineBase))) (pdptIndex layout.trampolineBase)) ≠
      entryAddress (K.base [pml4Index layout.trampolineBase] (pdptIndex layout.trampolineBase)))) _
    (by simpa using hF₁) (by simpa using hF₂) (by simpa using hF₃)
    (fun hb => hT₁.own_of_private (hF₁.mp (by simpa using hb)))
    (fun hb => hT₂.own_of_private (hF₂.mp (by simpa using hb)))
    (fun hb => (hT₂.next h ha (by simp) (of_decide_eq_true hb).1).own_of_private
      (hF₃.mp (of_decide_eq_true hb)))
  refine ⟨_, hps, ?_⟩
  simp only [hp₁, hp₂, not_true_eq_false, if_false, if_true, decide_eq_true_eq]
  split_ifs <;> rfl

/-- Where all private tables of a space lie above the layout's trampoline, releasing it frees them. -/
theorem pagingRelease_spec (h : PagingInv K own s l) (ha : IsSpace own a)
    {layout : UserVirtualLayout}
    (hpath : ∀ p ρ, own p = some (a, ρ) → ρ <+: userPath layout.trampolineBase) :
    ∃ freed, Released K s own l a (pagingReleaseUserAddressSpace s a layout) freed := by
  obtain ⟨ps, hps, hrun⟩ := pagingRelease_path h ha layout
  rw [hrun]
  refine ⟨_, released_of_freeAll h hps.nodup fun p => ?_⟩
  rw [hps.mem_iff]
  exact exists_congr fun ρ => ⟨fun hρ => hρ.2, fun hρ => ⟨hpath p ρ hρ, hρ⟩⟩

end Release

end Platinum
