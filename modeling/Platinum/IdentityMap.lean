import Platinum.PallocRun

/-!
# The identity map and the allocator's pages

Two scans of the firmware map, one for the highest descriptor end and one for
the largest conventional region, agree: what the page allocator owns is mapped.
-/
namespace Platinum
open ByteMemory WordArith SharedTrie

/-- A descriptor's end, clamped to 4 GiB and rounded up to a page. -/
def descriptorLimit (d : EfiMemoryDescriptor) : ℕ :=
  (min (2 ^ 32) (d.physicalStart.toNat + 4096 * d.numberOfPages.toNat) + 4095) / 4096 * 4096

/-- `limit` is the highest of the descriptors' ends. -/
structure HighestEnd (mm : Memmap) (limit : ℕ) : Prop where
  reached : ∃ index d, memmapGetDescriptor mm index = some d ∧ descriptorLimit d = limit
  above : ∀ index d, memmapGetDescriptor mm index = some d → descriptorLimit d ≤ limit

/-- `v` translates to itself, for the supervisor only at every level. -/
def IdentityMapped (m : Mem) (root v : Word) : Prop :=
  ∃ e₄ e₃ e₂ e₁, mmuEntries m root v = some (e₄, e₃, e₂, e₁) ∧ entryAddress e₁ = pageAddress v ∧
    ∀ e ∈ [e₄, e₃, e₂, e₁], Present e ∧ WritableBit e ∧ ¬ UserBit e

section Scan

variable {mm : Memmap} {d : EfiMemoryDescriptor}

lemma highestPhysicalLoop_reached (hv : MemmapValid mm) (n : ℕ) :
    highestPhysicalLoop mm n = 0#64 ∨ ∃ index d, memmapGetDescriptor mm index = some d ∧
      (highestPhysicalLoop mm n).toNat =
        min (2 ^ 32) (d.physicalStart.toNat + 4096 * d.numberOfPages.toNat) := by
  have hmax : pagingMaxAddress.toNat = 2 ^ 32 := rfl
  induction n with
  | zero => exact .inl rfl
  | succ n ih =>
    unfold highestPhysicalLoop highestPhysicalStep
    cases hd : memmapGetDescriptor mm n with
    | none => exact ih
    | some d =>
      have hend := descriptor_end hv hd
      dsimp only
      by_cases hlt : highestPhysicalLoop mm n <
          (if pagingMaxAddress < d.physicalStart + d.numberOfPages * 4096#64 then pagingMaxAddress
            else d.physicalStart + d.numberOfPages * 4096#64)
      · rw [if_pos hlt]
        refine .inr ⟨n, d, hd, ?_⟩
        simp only [BitVec.lt_def]
        split_ifs <;> omega
      · rw [if_neg hlt]
        exact ih

/-- The limit that `highest_physical_end` computes. -/
lemma highestPhysicalEnd_highest (hv : MemmapValid mm) (hpos : 0 < (highestPhysicalEnd mm).toNat) :
    HighestEnd mm (highestPhysicalEnd mm).toNat := by
  have hle := highestPhysicalLoop_le mm (memmapGetDescriptorCount mm)
  refine ⟨?_, fun index d hd => ?_⟩
  · rcases highestPhysicalLoop_reached hv (memmapGetDescriptorCount mm) with h0 | ⟨index, d, hd, he⟩
    · unfold highestPhysicalEnd at hpos
      rw [h0] at hpos
      exact absurd hpos (by decide)
    · refine ⟨index, d, hd, ?_⟩
      unfold highestPhysicalEnd descriptorLimit
      dsimp only
      rw [← he]
      by_cases h0 : highestPhysicalLoop mm (memmapGetDescriptorCount mm) = 0#64
      · rw [if_pos h0, h0]
        rfl
      · rw [if_neg h0, toNat_alignDown, BitVec.toNat_add, show (4095#64 : Word).toNat = 4095 from rfl]
        omega
  · have hge := highestPhysicalEnd_ge hv hd
    have hmod := (highestPhysicalEnd_bound mm).2
    unfold descriptorLimit
    omega

/-- The region of the page allocator ends below the limit. -/
lemma allocRegionEnd_le {cold : Phys} (hv : MemmapValid cold.memmap) {p : Word}
    (hp : RegionPage (pallocInitialize cold) p) :
    p.toNat + 4096 ≤ (highestPhysicalEnd cold.memmap).toNat := by
  obtain ⟨haligned, hge, hlt⟩ := hp
  obtain ⟨l, -, -, -, -, ⟨-, -, hend⟩ | ⟨r, -, hbegin, hend, hr⟩⟩ := pallocInitialize_spec cold hv
  · rw [hend] at hlt
    exact absurd hlt (Nat.not_lt_zero _)
  · obtain ⟨index, d, hd, -, -, hde⟩ := hr.descriptor
    have habove := highestPhysicalEnd_ge hv hd
    have hmax := hr.le_maximum
    have hea := hr.end_aligned
    have hhigh : pallocHighLimit.toNat = 2 ^ 32 := rfl
    rw [← hend] at hlt
    omega

end Scan

section Kernel

variable {K : KernelTables} {own : Owner} {s : Phys} {l : List Word} {v e₄ e₃ e₂ e₁ : Word}

lemma mmuEntries_present {m : Mem} {r : Word} (he : mmuEntries m r v = some (e₄, e₃, e₂, e₁)) :
    Present e₄ ∧ Present e₃ ∧ Present e₂ ∧ Present e₁ := by
  unfold mmuEntries at he
  dsimp only at he
  split_ifs at he with h₄ h₃ h₂ h₁
  cases he
  exact ⟨h₄, h₃, h₂, h₁⟩

/-- No entry that the hardware reads below the kernel's root has the user bit. -/
lemma kernel_entries (h : PagingInv K own s l)
    (he : mmuEntries s.mem K.root v = some (e₄, e₃, e₂, e₁)) :
    ¬ UserBit e₄ ∧ ¬ UserBit e₃ ∧ ¬ UserBit e₂ ∧ ¬ UserBit e₁ := by
  have hl := kernel_levels (m := s.mem) h.kernel
  have hroot : K.node [] = some K.root := K.node_root
  unfold mmuEntries at he
  dsimp only at he
  rcases hl.next (pml4Index v) (by simp) hroot with ⟨hp, -⟩ | ⟨q₁, hq₁, hp, ha, -, hAt₁, -, hu₁⟩
  · rw [if_pos hp] at he
    cases he
  rw [if_neg (not_not_intro hp), ha] at he
  rcases hl.next (pdptIndex v) (by simp) hAt₁ with ⟨hp, -⟩ | ⟨q₂, hq₂, hp, ha, -, hAt₂, -, hu₂⟩
  · rw [if_pos hp] at he
    cases he
  rw [if_neg (not_not_intro hp), ha] at he
  rcases hl.next (pdIndex v) (by simp) hAt₂ with ⟨hp, -⟩ | ⟨q₃, hq₃, hp, ha, -, hAt₃, -, hu₃⟩
  · rw [if_pos hp] at he
    cases he
  rw [if_neg (not_not_intro hp), ha] at he
  have hleaf : ¬ UserBit (slot s.mem q₃ (ptIndex v)) := by
    rw [h.kernel _ _ _ (by simp) hAt₃]
    exact K.not_userBit_base _ _ (by simp)
  split_ifs at he
  cases he
  exact ⟨mt hu₁.mp not_false, mt hu₂.mp not_false, mt hu₃.mp not_false, hleaf⟩

/-- An address below the limit is identity mapped, any other is not mapped. -/
lemma PagingInv.identity (h : PagingInv K own s l) (hmod : K.limit % 4096 = 0)
    (hv : v.toNat < 2 ^ 47) :
    (v.toNat < K.limit → IdentityMapped s.mem K.root v) ∧
      ((mmuWalk s.mem K.root v).isSome ↔ v.toNat < K.limit) := by
  have hwalk := h.kernel_identity (v := v) (by omega)
  have hpage : v.toNat / 4096 * 4096 < K.limit ↔ v.toNat < K.limit := by omega
  rw [if_congr hpage rfl rfl] at hwalk
  refine ⟨fun hlt => ?_, ?_⟩
  · rw [if_pos hlt] at hwalk
    obtain ⟨⟨e₄, e₃, e₂, e₁⟩, hentries, htr⟩ := Option.map_eq_some_iff.mp hwalk
    have hpresent := mmuEntries_present hentries
    have hsup := kernel_entries h hentries
    have hw := congrArg Translation.writable htr
    rw [decide_eq_true_eq] at hw
    refine ⟨e₄, e₃, e₂, e₁, hentries, congrArg Translation.frame htr, ?_⟩
    simp only [List.forall_mem_cons, List.not_mem_nil, false_imp_iff, implies_true, and_true]
    tauto
  · rw [hwalk]
    split_ifs with hlt <;> simp [hlt]

end Kernel

/-- The kernel's address space is the identity below the highest descriptor end and nothing
else, and every page that the allocator hands out, for tables or not, lies below. Pages may be
handed out before paging is set up, with the same memory map. -/
theorem identityMap_exact {cold pre s₀ : Phys} {out₀ : List Word} (hmap : MemmapValid cold.memmap)
    (hpre : PallocRun (pallocInitialize cold) pre out₀) (hsame : pre.memmap = cold.memmap)
    (hboot : pagingInitialize pre = .ok s₀) :
    ∃ limit, HighestEnd cold.memmap limit ∧
      (∀ s spaces, PagingRun s₀ s spaces → ∀ v : Word, v.toNat < 2 ^ 47 →
        ((mmuWalk s.mem s.pagingKernelPml4 v).isSome ↔ v.toNat < limit) ∧
          (v.toNat < limit → IdentityMapped s.mem s.pagingKernelPml4 v)) ∧
      (∀ t, TableOf s₀.mem s₀.pagingKernelPml4 t → t.toNat + 4096 ≤ limit) ∧
      (∀ s out, PallocRun (pallocInitialize cold) s out → ∀ p ∈ out, p.toNat + 4096 ≤ limit) ∧
      ∀ s out, PallocRun s₀ s out → ∀ p ∈ out, p.toNat + 4096 ≤ limit := by
  obtain ⟨l₀, hl₀, -⟩ := pallocInitialize_spec cold hmap
  obtain ⟨l₁, hpart⟩ := hpre.partition hl₀.list
  obtain ⟨K, l, hb⟩ : ∃ K l, Booted pre l₁ s₀ K l := by
    rcases pagingInitialize_spec hpart.free with ⟨s₁, K, l, hs₁, hb⟩ | ⟨hs₁, -⟩
    · cases hs₁.symm.trans hboot
      exact ⟨K, l, hb⟩
    · cases hs₁.symm.trans hboot
  have hlimit : K.limit = (highestPhysicalEnd cold.memmap).toNat := hsame ▸ hb.limit
  obtain ⟨tabs, rfl, -, htabs⟩ := hb.taken
  have hregion : ∀ p ∈ l₀, p.toNat + 4096 ≤ K.limit := fun p hp =>
    hlimit ▸ allocRegionEnd_le hmap ((hl₀.mem_iff p).mp hp)
  have hbelow : ∀ p ∈ tabs ++ l, p.toNat + 4096 ≤ K.limit := fun p hp =>
    hregion p (hpart.perm.mem_iff.mp (List.mem_append_left out₀ hp))
  refine ⟨K.limit, ?_, fun s spaces hrun v hv => ?_, fun t ht => ?_, fun s out hrun p hp => ?_,
    fun s out hrun p hp => ?_⟩
  · rw [hlimit]
    exact highestPhysicalEnd_highest hmap (hlimit ▸ hb.limit_pos)
  · obtain ⟨own, l', h⟩ := hrun.inv hb.inv
    obtain ⟨hid, hsome⟩ := h.inv.identity (hlimit ▸ (highestPhysicalEnd_bound _).2) hv
    rw [h.inv.root]
    exact ⟨hsome, hid⟩
  · exact hbelow t (List.mem_append_left l ((htabs t).mpr (hb.inv.kernel_tableOf.mp ht)))
  · obtain ⟨l', h⟩ := hrun.partition hl₀.list
    exact hregion p (h.perm.mem_iff.mp (List.mem_append_right l' hp))
  · obtain ⟨l', h⟩ := hrun.partition hb.inv.free
    exact hbelow p (List.mem_append_right tabs (h.perm.mem_iff.mp (List.mem_append_right l' hp)))

lemma sampleMemmap_descriptor {pages : Word} {index : ℕ} {d : EfiMemoryDescriptor}
    (hd : memmapGetDescriptor (sampleMemmap pages) index = some d) :
    d = ⟨efiConventionalMemory, 0x02000000#64, pages⟩ := by
  simp only [sampleMemmap, memmapParse, memmapGetDescriptor] at hd
  split_ifs at hd <;> first | contradiction | exact (Option.some.inj hd).symm

/-- A 64 MiB machine maps its first and its last byte, not the one behind. A page was taken before,
for the stack of the task state segment. -/
theorem identityMap_exact_sample : ∃ p pre s₀, p ≠ 0#64 ∧
    pallocAlloc (pallocInitialize (coldMachine 0x4000#64)) = (p, pre) ∧ pagingInitialize pre = .ok s₀ ∧
      IdentityMapped s₀.mem s₀.pagingKernelPml4 0#64 ∧
      IdentityMapped s₀.mem s₀.pagingKernelPml4 0x05FFFFFF#64 ∧
      mmuWalk s₀.mem s₀.pagingKernelPml4 0x06000000#64 = none := by
  obtain ⟨l, s₁, K, l₀, hl, hb, he, -⟩ := coldMachine_boots 0x4000#64
    (b := 0x02000000#64) (e := 0x06000000#64) (by decide) (by decide) (by decide) (by decide)
  have hvalid : MemmapValid (coldMachine 0x4000#64).memmap := sampleMemmap_valid (by decide)
  obtain ⟨-, -, -, -, hmm, -⟩ := pallocInitialize_spec (coldMachine 0x4000#64) hvalid
  have hpages : ((0x06000000#64 : Word).toNat - (0x02000000#64 : Word).toNat) / 4096 = 0x4000 := by decide
  have hlen := hl.length
  rw [hb, he, hpages] at hlen
  obtain ⟨p, l', rfl⟩ : ∃ p l', l = p :: l' := List.exists_cons_of_length_pos (by omega)
  obtain ⟨pre, halloc, hfree, -, hglobals⟩ := pallocAlloc_cons hl.list
  have hp : p ≠ 0#64 := (hl.list.pages p List.mem_cons_self).ne_zero
  have hsame : pre.memmap = (coldMachine 0x4000#64).memmap := hglobals.memmap.trans hmm
  have hlimit : (highestPhysicalEnd pre.memmap).toNat ≠ 0 := by
    rw [hsame]
    decide
  rw [List.length_cons] at hlen
  obtain ⟨s₀, hs₀⟩ : ∃ s₀, pagingInitialize pre = .ok s₀ := by
    rcases pagingInitialize_spec hfree with ⟨s₀, -, -, hs₀, -⟩ | ⟨-, h0 | hshort⟩
    · exact ⟨s₀, hs₀⟩
    · exact absurd h0 hlimit
    · omega
  obtain ⟨limit, hhigh, hid, -⟩ := identityMap_exact hvalid (PallocRun.start.alloc halloc) hsame hs₀
  obtain rfl : limit = 0x06000000 := by
    obtain ⟨index, d, hd, rfl⟩ := hhigh.reached
    obtain rfl := sampleMemmap_descriptor hd
    rfl
  obtain ⟨-, h₀⟩ := hid s₀ [] .boot 0#64 (by decide)
  obtain ⟨-, h₁⟩ := hid s₀ [] .boot 0x05FFFFFF#64 (by decide)
  obtain ⟨h₂, -⟩ := hid s₀ [] .boot 0x06000000#64 (by decide)
  refine ⟨p, pre, s₀, hp, halloc, hs₀, h₀ (by decide), h₁ (by decide), ?_⟩
  rw [← Option.not_isSome_iff_eq_none, h₂]
  decide

end Platinum
