import Platinum.Memmap
import Mathlib.Data.Finset.Card
import Mathlib.Order.Interval.Finset.Nat

/-!
# The largest conventional region of a captured map

The firmware's buffer is read byte by byte here: a descriptor is the three
fields at its offset. The scan rounds every conventional descriptor inward
after clipping it to the bounds, so what it compares is the number of whole
pages that the descriptor has between the bounds.
-/
namespace Platinum
open ByteMemory WordArith

/-- The fields of `struct efi_memory_descriptor` that are read at an offset of
`memory_map_buffer`. -/
def efiDescriptorAt (memoryMapBuffer : Mem) (offset : ℕ) : EfiMemoryDescriptor where
  type := load32 memoryMapBuffer offset
  physicalStart := load64 memoryMapBuffer (offset + 8)
  numberOfPages := load64 memoryMapBuffer (offset + 24)

/-- The descriptors of a captured map: those that lie in the used bytes. -/
def CapturedDescriptor (memoryMapBuffer : Mem) (memoryMapSize descriptorSize : ℕ)
    (d : EfiMemoryDescriptor) : Prop :=
  ∃ index, (index + 1) * descriptorSize ≤ memoryMapSize ∧
    d = efiDescriptorAt memoryMapBuffer (index * descriptorSize)

/-- Numbers of the whole pages that a descriptor has between two bounds. -/
def wholePages (d : EfiMemoryDescriptor) (minimumStart maximumEnd : ℕ) : Finset ℕ :=
  (Finset.range maximumEnd).filter fun page =>
    minimumStart ≤ 4096 * page ∧ d.physicalStart.toNat ≤ 4096 * page ∧
      4096 * (page + 1) ≤ maximumEnd ∧
      4096 * (page + 1) ≤ d.physicalStart.toNat + 4096 * d.numberOfPages.toNat

/-- A region of whole pages, inside the bounds and one conventional descriptor,
that no conventional descriptor beats. -/
structure LargestRegion (memoryMapBuffer : Mem) (memoryMapSize descriptorSize : ℕ)
    (minimumStart maximumEnd regionBegin regionEnd : ℕ) : Prop where
  begin_aligned : regionBegin % 4096 = 0
  end_aligned : regionEnd % 4096 = 0
  begin_lt : regionBegin < regionEnd
  minimum_le : minimumStart ≤ regionBegin
  le_maximum : regionEnd ≤ maximumEnd
  within : ∃ d, CapturedDescriptor memoryMapBuffer memoryMapSize descriptorSize d ∧
    d.type = efiConventionalMemory ∧ d.physicalStart.toNat ≤ regionBegin ∧
    regionEnd ≤ d.physicalStart.toNat + 4096 * d.numberOfPages.toNat
  largest : ∀ d, CapturedDescriptor memoryMapBuffer memoryMapSize descriptorSize d →
    d.type = efiConventionalMemory →
    (wholePages d minimumStart maximumEnd).card ≤ (regionEnd - regionBegin) / 4096

/-- Parsing cuts the buffer into exactly its descriptors. -/
lemma memmapGetDescriptor_captured {buffer : Mem} {size stride : ℕ} (hstride : 0 < stride)
    {d : EfiMemoryDescriptor} :
    CapturedDescriptor buffer size stride d ↔
      ∃ index, memmapGetDescriptor (memmapParse (efiDescriptorAt buffer) size stride) index =
        some d := by
  have hlt : ∀ index, index < size / stride ↔ (index + 1) * stride ≤ size := fun index =>
    Nat.le_div_iff_mul_le hstride
  constructor
  · rintro ⟨index, hle, rfl⟩
    refine ⟨index, ?_⟩
    have hindex := (hlt index).mpr hle
    rw [memmapParse, if_neg (by omega), memmapGetDescriptor, if_neg (by dsimp only; omega),
      if_neg (by dsimp only; omega)]
  · rintro ⟨index, hd⟩
    rw [memmapParse, if_neg (by omega), memmapGetDescriptor, if_neg (by dsimp only; omega)] at hd
    dsimp only at hd
    split_ifs at hd with hcount
    exact ⟨index, (hlt index).mp (by omega), (Option.some.inj hd).symm⟩

lemma memmapGetDescriptor_lt {mm : Memmap} {index : ℕ} {d : EfiMemoryDescriptor}
    (hd : memmapGetDescriptor mm index = some d) : index < mm.descriptorCount := by
  rw [memmapGetDescriptor] at hd
  split_ifs at hd with h0 hcount
  exact Nat.lt_of_not_le hcount

section
variable {mm : Memmap} {lo hi : Word} {best : BestRegion} {d : EfiMemoryDescriptor}

/-- Rounding inward counts the whole pages. -/
lemma wholePages_card {lo hi : ℕ} (haligned : d.physicalStart.toNat % 4096 = 0) :
    (wholePages d lo hi).card =
      min hi (d.physicalStart.toNat + 4096 * d.numberOfPages.toNat) / 4096 -
        (max lo d.physicalStart.toNat + 4095) / 4096 := by
  rw [← Nat.card_Ico]
  congr 1
  ext page
  rw [wholePages, Finset.mem_filter, Finset.mem_range, Finset.mem_Ico]
  omega

/-- A conventional descriptor replaces the best region just when it has more
whole pages; the new region is the descriptor's. -/
lemma findLargestStep_conventional (hv : MemmapValid mm) (hlo : lo.toNat + 4095 < 2 ^ 64)
    {index : ℕ} (hd : memmapGetDescriptor mm index = some d)
    (htype : d.type = efiConventionalMemory) :
    ((wholePages d lo.toNat hi.toNat).card ≤ best.pages.toNat ∧
      findLargestStep mm lo hi best index = best) ∨
    best.pages.toNat < (wholePages d lo.toNat hi.toNat).card ∧
      ∃ r, findLargestStep mm lo hi best index = r ∧ RegionOf mm lo hi r ∧
        r.pages.toNat = (wholePages d lo.toNat hi.toNat).card ∧
        r.end.toNat = r.begin.toNat + 4096 * r.pages.toNat := by
  obtain ⟨haligned, hbound⟩ := hv index d hd
  have hend := descriptor_end hv hd
  have hcard : (wholePages d lo.toNat hi.toNat).card = _ := wholePages_card haligned
  unfold findLargestStep
  rw [hd]
  dsimp only
  rw [if_neg (not_not.mpr htype)]
  -- the two clipped ends as numbers
  obtain ⟨b, hb, hbnat⟩ : ∃ b, b = (if d.physicalStart < lo then lo else d.physicalStart) ∧
      b.toNat = max lo.toNat d.physicalStart.toNat := by
    refine ⟨_, rfl, ?_⟩
    split_ifs with hlt <;> rw [BitVec.lt_def] at hlt <;> omega
  obtain ⟨e, he, henat⟩ : ∃ e, e = (if hi < d.physicalStart + d.numberOfPages * 4096#64 then hi
      else d.physicalStart + d.numberOfPages * 4096#64) ∧
      e.toNat = min hi.toNat (d.physicalStart.toNat + 4096 * d.numberOfPages.toNat) := by
    refine ⟨_, rfl, ?_⟩
    split_ifs with hlt <;> rw [BitVec.lt_def] at hlt <;> omega
  rw [← hb, ← he]
  have hrb : ((b + 4095#64) &&& ~~~4095#64).toNat = (b.toNat + 4095) / 4096 * 4096 := by
    rw [toNat_alignDown, BitVec.toNat_add, show (4095#64).toNat = 4095 from rfl,
      Nat.mod_eq_of_lt (by omega)]
  have hre : (e &&& ~~~4095#64).toNat = e.toNat / 4096 * 4096 := toNat_alignDown e
  generalize (b + 4095#64) &&& ~~~4095#64 = rb at hrb ⊢
  generalize e &&& ~~~4095#64 = re at hre ⊢
  have hpages : rb.toNat ≤ re.toNat → ((re - rb) / 4096#64).toNat = e.toNat / 4096 -
      (b.toNat + 4095) / 4096 := by
    intro hle
    rw [BitVec.toNat_udiv, BitVec.toNat_sub_of_le (by rwa [BitVec.le_def]),
      show (4096#64).toNat = 4096 from rfl]
    omega
  by_cases hle : re ≤ rb
  · rw [if_pos hle]
    rw [BitVec.le_def] at hle
    exact .inl ⟨by omega, rfl⟩
  · rw [if_neg hle]
    rw [BitVec.le_def] at hle
    have hp := hpages (by omega)
    by_cases hlt : best.pages < (re - rb) / 4096#64
    · rw [if_pos hlt]
      rw [BitVec.lt_def] at hlt
      refine .inr ⟨by omega, _, rfl, ?_, by dsimp only; omega, by dsimp only; omega⟩
      exact ⟨by dsimp only; omega, by dsimp only; omega, by dsimp only; omega, by dsimp only; omega,
        by dsimp only; omega, index, d, hd, htype, by dsimp only; omega, by dsimp only; omega⟩
    · rw [if_neg hlt]
      rw [BitVec.lt_def] at hlt
      exact .inl ⟨by omega, rfl⟩

/-- What `n` iterations establish: the best region is one of the map's, and no
descriptor seen so far has more whole pages. -/
structure Scanned (mm : Memmap) (lo hi : Word) (n : ℕ) (best : BestRegion) : Prop where
  region : best.pages ≠ 0 → RegionOf mm lo hi best ∧
    best.end.toNat = best.begin.toNat + 4096 * best.pages.toNat
  largest : ∀ index < n, ∀ d, memmapGetDescriptor mm index = some d →
    d.type = efiConventionalMemory →
    (wholePages d lo.toNat hi.toNat).card ≤ best.pages.toNat
  counted : best.pages ≠ 0 → ∃ index d, memmapGetDescriptor mm index = some d ∧
    d.type = efiConventionalMemory ∧ best.pages.toNat = (wholePages d lo.toNat hi.toNat).card

lemma findLargestStep_scanned (hv : MemmapValid mm) (hlo : lo.toNat + 4095 < 2 ^ 64) {n : ℕ}
    (h : Scanned mm lo hi n best) : Scanned mm lo hi (n + 1) (findLargestStep mm lo hi best n) := by
  have hskip : (∀ d, memmapGetDescriptor mm n = some d → d.type = efiConventionalMemory →
      (wholePages d lo.toNat hi.toNat).card ≤ best.pages.toNat) → Scanned mm lo hi (n + 1) best := by
    intro hn
    refine ⟨h.region, ?_, h.counted⟩
    intro index hindex d hd htype
    rcases Nat.lt_succ_iff_lt_or_eq.mp hindex with hlt | rfl
    · exact h.largest index hlt d hd htype
    · exact hn d hd htype
  cases hd : memmapGetDescriptor mm n with
  | none =>
      rw [findLargestStep, hd]
      exact hskip fun d h' => absurd (hd.symm.trans h') (by simp)
  | some d =>
      by_cases htype : d.type = efiConventionalMemory
      · rcases findLargestStep_conventional hv hlo hd htype with ⟨hle, heq⟩ | ⟨hlt, r, heq, hr, hp, he⟩
        · rw [heq]
          refine hskip fun d' h' _ => ?_
          rwa [← Option.some.inj (hd.symm.trans h')]
        · rw [heq]
          refine ⟨fun _ => ⟨hr, he⟩, ?_, fun _ => ⟨n, d, hd, htype, hp⟩⟩
          intro index hindex d' hd' htype'
          rcases Nat.lt_succ_iff_lt_or_eq.mp hindex with hlt' | rfl
          · have := h.largest index hlt' d' hd' htype'
            omega
          · rw [← Option.some.inj (hd.symm.trans hd')]
            omega
      · rw [findLargestStep, hd]
        dsimp only
        rw [if_pos htype]
        exact hskip fun d' h' ht => absurd (Option.some.inj (hd.symm.trans h') ▸ ht) htype

theorem findLargestLoop_scanned (hv : MemmapValid mm) (hlo : lo.toNat + 4095 < 2 ^ 64) (n : ℕ) :
    Scanned mm lo hi n (findLargestLoop mm lo hi n) := by
  induction n with
  | zero =>
      exact ⟨fun h => absurd rfl h, fun index hindex => absurd hindex (Nat.not_lt_zero index),
        fun h => absurd rfl h⟩
  | succ n ih => exact findLargestStep_scanned hv hlo ih
end

/-- The scan finds a region exactly when some conventional descriptor has a whole
page between the bounds, and then one with the most pages. -/
theorem memmapFindLargest_largest {buffer : Mem} {size stride : ℕ} (hstride : 40 ≤ stride)
    (hfirmware : ∀ d, CapturedDescriptor buffer size stride d →
      d.physicalStart.toNat % 4096 = 0 ∧
        d.physicalStart.toNat + 4096 * d.numberOfPages.toNat < 2 ^ 64)
    {lo hi : Word} (hbounds : lo.toNat ≤ hi.toNat) (hlimit : hi.toNat ≤ 0x100000000)
    {found : Bool} {regionBegin regionEnd : Word}
    (h : memmapFindLargestConventionalRegion (memmapParse (efiDescriptorAt buffer) size stride)
      lo hi = (found, regionBegin, regionEnd)) :
    (found = true ↔ ∃ d, CapturedDescriptor buffer size stride d ∧
      d.type = efiConventionalMemory ∧ (wholePages d lo.toNat hi.toNat).Nonempty) ∧
    (found = true → LargestRegion buffer size stride lo.toNat hi.toNat regionBegin.toNat
      regionEnd.toNat) ∧
    (found = false → regionBegin = 0#64 ∧ regionEnd = 0#64) := by
  have hcaptured : ∀ d, CapturedDescriptor buffer size stride d ↔ ∃ index,
      memmapGetDescriptor (memmapParse (efiDescriptorAt buffer) size stride) index = some d :=
    fun _ => memmapGetDescriptor_captured (by omega)
  generalize memmapParse (efiDescriptorAt buffer) size stride = mm at h hcaptured
  have hv : MemmapValid mm := fun index d hd => hfirmware d ((hcaptured d).mpr ⟨index, hd⟩)
  have hscan : Scanned mm lo hi mm.descriptorCount (findLargestLoop mm lo hi mm.descriptorCount) :=
    findLargestLoop_scanned hv (by omega) mm.descriptorCount
  have hlargest : ∀ d, CapturedDescriptor buffer size stride d → d.type = efiConventionalMemory →
      (wholePages d lo.toNat hi.toNat).card ≤
        (findLargestLoop mm lo hi mm.descriptorCount).pages.toNat := by
    intro d hd htype
    obtain ⟨index, hindex⟩ := (hcaptured d).mp hd
    exact hscan.largest index (memmapGetDescriptor_lt hindex) d hindex htype
  rw [memmapFindLargestConventionalRegion] at h
  generalize findLargestLoop mm lo hi mm.descriptorCount = best at h hscan hlargest
  by_cases h0 : best.pages = 0
  · rw [if_pos h0] at h
    cases h
    refine ⟨⟨fun h => absurd h (by decide), ?_⟩, fun h => absurd h (by decide), fun _ => ⟨rfl, rfl⟩⟩
    rintro ⟨d, hd, htype, hpages⟩
    have hle := hlargest d hd htype
    rw [h0, show (0 : Word).toNat = 0 from rfl] at hle
    have := hpages.card_pos
    omega
  · rw [if_neg h0] at h
    cases h
    obtain ⟨hr, hend⟩ := hscan.region h0
    obtain ⟨index, d, hd, htype, hcount⟩ := hscan.counted h0
    have hlt := hr.begin_lt
    refine ⟨⟨fun _ => ⟨d, (hcaptured d).mpr ⟨index, hd⟩, htype, ?_⟩, fun _ => rfl⟩, fun _ => ?_,
      fun h => absurd h (by decide)⟩
    · rw [← Finset.card_pos]
      omega
    · obtain ⟨i, d', hd', htype', hstart, hle⟩ := hr.descriptor
      refine ⟨hr.begin_aligned, hr.end_aligned, hlt, hr.minimum_le, hr.le_maximum,
        ⟨d', (hcaptured d').mpr ⟨i, hd'⟩, htype', hstart, hle⟩, fun d₂ hd₂ htype₂ => ?_⟩
      have hle₂ := hlargest d₂ hd₂ htype₂
      omega

/-- Two conventional descriptors at a stride of 48 bytes. -/
def twoRegions : Mem :=
  store64 (store64 (store64 (store64 (store64 (store64 (fun _ => 0#8) 0 7#64) 8 0x00100000#64)
    24 0x100#64) 48 7#64) 56 0x02000000#64) 72 0x4000#64

lemma twoRegions_captured {d : EfiMemoryDescriptor} (hd : CapturedDescriptor twoRegions 96 48 d) :
    d = ⟨7#32, 0x00100000#64, 0x100#64⟩ ∨ d = ⟨7#32, 0x02000000#64, 0x4000#64⟩ := by
  obtain ⟨index, hle, rfl⟩ := hd
  obtain rfl | rfl : index = 0 ∨ index = 1 := by omega
  · exact .inl (by decide +kernel)
  · exact .inr (by decide +kernel)

/-- A lower bound inside a page costs the second region its first page. -/
theorem memmapFindLargest_largest_twoRegions :
    LargestRegion twoRegions 96 48 0x02000800 0x100000000 0x02001000 0x06000000 := by
  refine (@memmapFindLargest_largest twoRegions 96 48 (by decide) ?_ 0x02000800#64
    0x100000000#64 (by decide) (by decide) true 0x02001000#64 0x06000000#64
    (by decide +kernel)).2.1 rfl
  intro d hd
  rcases twoRegions_captured hd with rfl | rfl <;> decide

end Platinum
