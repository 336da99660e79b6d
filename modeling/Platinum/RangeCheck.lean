import Platinum.PagingIsolation
import Platinum.UserMemory

/-!
# The range check against the hardware

`paging_user_range_mapped` looks at the user bit of the last level and at no
write bit. That is enough as long as every leaf of a user address space is one
of the kernel's, which has no user bit, or one `paging_map_user_page` wrote.
-/
namespace Platinum
open ByteMemory WordArith SharedTrie

/-- User mode can read and write the byte. -/
def UserWritable (m : Mem) (addressSpace address : Word) : Prop :=
  ∃ t, mmuWalk m addressSpace address = some t ∧ t.user = true ∧ t.writable = true

/-- Like `PagingRun`, with no bound on the addresses mapped. -/
inductive MappingRun (s₀ : Phys) : Phys → List Word → Prop
  | boot : MappingRun s₀ s₀ []
  | create {s s' : Phys} {spaces : List Word} {a : Word} (run : MappingRun s₀ s spaces)
      (hcall : pagingCreateUserAddressSpace s = (a, s')) (ha : a ≠ 0#64) :
      MappingRun s₀ s' (a :: spaces)
  | map {s s' : Phys} {spaces : List Word} {a v p : Word} (run : MappingRun s₀ s spaces)
      (ha : a ∈ spaces) (hv : Present (slot s.mem s.pagingKernelPml4 (pml4Index v)))
      (hcall : pagingMapUserPage s a v p = .ok s') : MappingRun s₀ s' spaces
  | other {s s' : Phys} {spaces : List Word} (run : MappingRun s₀ s spaces)
      (hs : OtherStep s spaces s') : MappingRun s₀ s' spaces

/-- A leaf of a user address space: the kernel's own, or a mapped user page. -/
def UserLeaf (K : KernelTables) (m : Mem) (a : Word) (ρ : Path) (j : Index) : Prop :=
  leafEntry m a ρ j = K.base ρ j ∨ ∃ p, leafEntry m a ρ j = userEntry p

def UserLeaves (K : KernelTables) (m : Mem) (spaces : List Word) : Prop :=
  ∀ a ∈ spaces, ∀ (ρ : Path) (j : Index), ρ.length = 3 → UserLeaf K m a ρ j

section Leaves

variable {K : KernelTables} {own : Owner} {s s' s₀ : Phys} {l : List Word} {spaces : List Word}
  {a v p : Word}

lemma UserLeaf.congr {m m' : Mem} {ρ : Path} {j : Index} (h : UserLeaf K m a ρ j)
    (he : leafEntry m' a ρ j = leafEntry m a ρ j) : UserLeaf K m' a ρ j := by
  rw [UserLeaf, he]
  exact h

lemma toNat_userEntry (p : Word) : (userEntry p).toNat = (pageAddress p).toNat + 7 :=
  toNat_or_flags (alignDown_aligned p) (by decide)

lemma writableBit_userEntry (p : Word) : WritableBit (userEntry p) := by
  have hal : (pageAddress p).toNat % 4096 = 0 := alignDown_aligned p
  rw [writableBit_iff, toNat_userEntry]
  omega

lemma RunInv.create_leaves (h : RunInv K own s l spaces) (hleaf : UserLeaves K s.mem spaces)
    (hcall : pagingCreateUserAddressSpace s = (a, s')) (ha : a ≠ 0#64) :
    UserLeaves K s'.mem (a :: spaces) := by
  cases l with
  | nil =>
    rw [pagingCreate_nil h.inv] at hcall
    exact absurd (Prod.mk.inj hcall).1.symm ha
  | cons q l =>
    obtain ⟨s₁, hs₁, hc⟩ := pagingCreate_cons h.inv
    obtain ⟨rfl, rfl⟩ := Prod.mk.inj (hs₁.symm.trans hcall)
    intro b hb ρ j hρ
    rcases List.mem_cons.mp hb with rfl | hb
    · exact .inl (hc.here ρ j hρ)
    · exact (hleaf b hb ρ j hρ).congr (hc.other b (h.space b hb) ρ j hρ)

lemma RunInv.map_leaves {own' : Owner} {l' : List Word} (h : RunInv K own s l spaces)
    (hleaf : UserLeaves K s.mem spaces) (hm : Mapped K a v p s own l s' own' l') :
    UserLeaves K s'.mem spaces := by
  intro b hb ρ j hρ
  by_cases hhere : b = a ∧ ρ = userPath v ∧ j = ptIndex v
  · obtain ⟨rfl, rfl, rfl⟩ := hhere
    exact .inr ⟨p, hm.here⟩
  · refine (hleaf b hb ρ j hρ).congr (hm.other b (h.space b hb) ρ j hρ ?_)
    rintro rfl rfl rfl
    exact hhere ⟨rfl, rfl, rfl⟩

lemma RunInv.other_leaves {l' : List Word} (h : RunInv K own s l spaces)
    (hleaf : UserLeaves K s.mem spaces) (hs : OtherStep s spaces s')
    (h' : RunInv K own s' l' spaces) : UserLeaves K s'.mem spaces := by
  intro b hb ρ j hρ
  refine (hleaf b hb ρ j hρ).congr (h.inv.leaf_congr h'.inv ?_ (h.space b hb) hρ j)
  rintro q ⟨c, π⟩ i hq
  exact hs.tables q (h.owned_inUse hq) i

/-- All along a run the leaves of the spaces are the kernel's or user pages. -/
theorem MappingRun.inv {l₀ : List Word} (h₀ : PagingInv K (fun _ => none) s₀ l₀)
    (hrun : MappingRun s₀ s spaces) :
    ∃ own l, RunInv K own s l spaces ∧ UserLeaves K s.mem spaces := by
  induction hrun with
  | boot => exact ⟨_, l₀, ⟨h₀, by simp, by simp⟩, by simp [UserLeaves]⟩
  | create _ hcall ha ih =>
    obtain ⟨own, l, h, hleaf⟩ := ih
    obtain ⟨own', l', h'⟩ := h.create hcall ha
    exact ⟨own', l', h', h.create_leaves hleaf hcall ha⟩
  | map _ ha hv hcall ih =>
    obtain ⟨own, l, h, hleaf⟩ := ih
    obtain ⟨own', l', h', hm⟩ := h.map ha hv hcall
    exact ⟨own', l', h', h.map_leaves hleaf hm⟩
  | other _ hs ih =>
    obtain ⟨own, l, h, hleaf⟩ := ih
    obtain ⟨l', h'⟩ := h.other hs
    exact ⟨own, l', h', h.other_leaves hleaf hs h'⟩

/-- Where the leaf has the user bit, the hardware lets user mode write too. -/
lemma RunInv.userWritable_iff (h : RunInv K own s l spaces) (hleaf : UserLeaves K s.mem spaces)
    (ha : a ∈ spaces) : UserWritable s.mem a v ↔ UserOpen s.mem a v := by
  unfold UserWritable UserOpen
  refine ⟨fun ⟨t, ht, hu, _⟩ => ⟨t, ht, hu⟩, fun ⟨t, ht, hu⟩ => ⟨t, ht, hu, ?_⟩⟩
  rw [h.inv.mmuWalk_eq (h.space a ha), leafTranslation] at ht
  split_ifs at ht
  obtain rfl := Option.some.inj ht
  rcases hleaf a ha (userPath v) (ptIndex v) (by simp [userPath]) with hk | ⟨p, hp⟩
  · rw [hk] at hu
    exact absurd (of_decide_eq_true hu) (K.not_userBit_base _ _ (by simp [userPath]))
  · rw [hp]
    exact decide_eq_true (writableBit_userEntry p)

/-- The check ends, and accepts what user mode can read and write. -/
lemma RunInv.rangeMapped_iff (h : RunInv K own s l spaces) (hleaf : UserLeaves K s.mem spaces)
    (ha : a ∈ spaces) (count : Word) (hend : v.toNat + count.toNat ≤ 2 ^ 64) :
    ∃ b, pagingUserRangeMapped s.mem a v count = .ok b ∧
      (b = true ↔ ∀ i < count.toNat, UserWritable s.mem a (v + BitVec.ofNat 64 i)) := by
  have hne : a ≠ 0#64 := (h.inv.own_page (h.space a ha)).ne_zero
  by_cases hcount : count = 0#64
  · subst hcount
    refine ⟨true, ?_, by simp⟩
    rw [pagingUserRangeMapped, if_neg hne, if_pos rfl]
  · obtain ⟨b, hb, hiff⟩ :=
      pagingUserRangeMapped_spec v count (user_levels h.inv (h.space a ha)) hne hcount
    refine ⟨b, hb, hiff.trans ⟨fun hall i hi => ?_, fun hall => ⟨hend, fun i hi => ?_⟩⟩⟩
    · exact (h.userWritable_iff hleaf ha).mpr (hall.2 i hi)
    · exact (h.userWritable_iff hleaf ha).mp (hall i hi)

end Leaves

/-- After any creations and mappings the software check accepts a range exactly when
the hardware lets user mode read and write each of its bytes. -/
theorem pagingUserRangeMapped_hardware {pre s₀ s : Phys} {l spaces : List Word} {a v count : Word}
    (hfree : FreeList pre l) (hboot : pagingInitialize pre = .ok s₀)
    (hrun : MappingRun s₀ s spaces) (ha : a ∈ spaces) (hend : v.toNat + count.toNat ≤ 2 ^ 47) :
    ∃ b, pagingUserRangeMapped s.mem a v count = .ok b ∧
      (b = true ↔ ∀ i < count.toNat, UserWritable s.mem a (v + BitVec.ofNat 64 i)) := by
  rcases pagingInitialize_spec hfree with ⟨s₁, K, l₀, hs₁, hb⟩ | ⟨hs₁, _⟩
  · obtain rfl := Except.ok.inj (hs₁.symm.trans hboot)
    obtain ⟨own, l', h, hleaf⟩ := hrun.inv hb.inv
    exact h.rangeMapped_iff hleaf ha count (by omega)
  · rw [hs₁] at hboot
    cases hboot

/-- The check accepts the page that was just mapped on a 64 MiB machine. -/
theorem pagingUserRangeMapped_hardware_sample : ∃ s₀ s a,
    pagingInitialize (pallocInitialize (coldMachine 0x4000#64)) = .ok s₀ ∧
    MappingRun s₀ s [a] ∧ pagingUserRangeMapped s.mem a 0x40000000#64 1#64 = .ok true := by
  obtain ⟨l, s₀, K, q, l₁, s, hl, hs₀, hq, hs, hc, hlen, hpres⟩ := coldMachine_creates
  have hspace : IsSpace (Function.update (fun _ => none) q (some (q, []))) q :=
    Function.update_self _ _ _
  rcases pagingMapUserPage_spec hc.inv hspace (v := 0x40000000#64) (p := 0x02100000#64)
      (hc.inv.present_root hpres) with ⟨s', own', l', hs', hm⟩ | ⟨_, hlt, _⟩
  · have hrun : MappingRun s₀ s' [q] := .map (.create .boot hs hq) (by simp) hpres hs'
    refine ⟨s₀, s', q, hs₀, hrun, ?_⟩
    obtain ⟨b, hb, hiff⟩ := pagingUserRangeMapped_hardware hl hs₀ hrun
      (List.mem_singleton_self q) (show (0x40000000#64 : Word).toNat + (1#64 : Word).toNat ≤ 2 ^ 47 by decide)
    have htrue : b = true := by
      refine hiff.mpr fun i hi => ?_
      obtain rfl : i = 0 := by simpa using hi
      refine ⟨⟨pageAddress 0x02100000#64, true, true⟩, ?_, rfl, rfl⟩
      have hkeep := hm.taken.keep hc.inv.free_own hspace
      rw [BitVec.add_zero, hm.inv.mmuWalk_eq hkeep, hm.here, leafTranslation_userEntry (by decide)]
    rw [hb, htrue]
  · omega

end Platinum
