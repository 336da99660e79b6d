import Platinum.WordArith

/-!
# The captured firmware memory map

Descriptors sit in a byte buffer at a stride chosen by the firmware. The buffer
is seen through descriptor-sized reads, so `buffer offset` is the descriptor
found at that byte offset.
-/
namespace Platinum
open ByteMemory WordArith

def efiConventionalMemory : BitVec 32 := 7

/-- The descriptor fields that the kernel reads. -/
structure EfiMemoryDescriptor where
  type : BitVec 32
  physicalStart : Word
  numberOfPages : Word
  deriving DecidableEq, Repr

structure Memmap where
  buffer : ℕ → EfiMemoryDescriptor
  descriptorSize : ℕ
  descriptorCount : ℕ

/-- `memmap_parse`: a zero stride means that no descriptor can be read. -/
def memmapParse (buffer : ℕ → EfiMemoryDescriptor) (memoryMapSize descriptorSize : ℕ) : Memmap :=
  if descriptorSize = 0 then ⟨buffer, descriptorSize, 0⟩
  else ⟨buffer, descriptorSize, memoryMapSize / descriptorSize⟩

def memmapGetDescriptorCount (mm : Memmap) : ℕ := mm.descriptorCount

def memmapGetDescriptor (mm : Memmap) (index : ℕ) : Option EfiMemoryDescriptor :=
  if mm.descriptorSize = 0 then none
  else if mm.descriptorCount ≤ index then none
  else some (mm.buffer (index * mm.descriptorSize))

structure BestRegion where
  begin : Word
  «end» : Word
  pages : Word

/-- One iteration of the scan in `memmap_find_largest_conventional_region`. -/
def findLargestStep (mm : Memmap) (minimumStart maximumEnd : Word) (best : BestRegion)
    (index : ℕ) : BestRegion :=
  match memmapGetDescriptor mm index with
  | none => best
  | some descriptor =>
    if descriptor.type ≠ efiConventionalMemory then best
    else
      let rawBegin := descriptor.physicalStart
      let rawEnd := descriptor.physicalStart + descriptor.numberOfPages * 4096#64
      let clippedBegin := if rawBegin < minimumStart then minimumStart else rawBegin
      let clippedEnd := if maximumEnd < rawEnd then maximumEnd else rawEnd
      let regionBegin := (clippedBegin + 4095#64) &&& ~~~4095#64
      let regionEnd := clippedEnd &&& ~~~4095#64
      if regionEnd ≤ regionBegin then best
      else
        let pages := (regionEnd - regionBegin) / 4096#64
        if best.pages < pages then ⟨regionBegin, regionEnd, pages⟩ else best

/-- The scan after `n` iterations. -/
def findLargestLoop (mm : Memmap) (minimumStart maximumEnd : Word) : ℕ → BestRegion
  | 0 => ⟨0, 0, 0⟩
  | n + 1 => findLargestStep mm minimumStart maximumEnd
      (findLargestLoop mm minimumStart maximumEnd n) n

/-- Result flag, `region_begin` and `region_end`. -/
def memmapFindLargestConventionalRegion (mm : Memmap) (minimumStart maximumEnd : Word) :
    Bool × Word × Word :=
  let best := findLargestLoop mm minimumStart maximumEnd mm.descriptorCount
  if best.pages = 0 then (false, 0, 0) else (true, best.begin, best.end)

/-- What the firmware guarantees of every descriptor. -/
def MemmapValid (mm : Memmap) : Prop :=
  ∀ index d, memmapGetDescriptor mm index = some d →
    d.physicalStart.toNat % 4096 = 0 ∧
    d.physicalStart.toNat + 4096 * d.numberOfPages.toNat < 2 ^ 64

/-- A region the scan may report: whole pages inside the bounds and inside one
conventional descriptor. -/
structure RegionOf (mm : Memmap) (minimumStart maximumEnd : Word) (r : BestRegion) : Prop where
  begin_aligned : r.begin.toNat % 4096 = 0
  end_aligned : r.end.toNat % 4096 = 0
  minimum_le : minimumStart.toNat ≤ r.begin.toNat
  begin_lt : r.begin.toNat < r.end.toNat
  le_maximum : r.end.toNat ≤ maximumEnd.toNat
  descriptor : ∃ index d, memmapGetDescriptor mm index = some d ∧
    d.type = efiConventionalMemory ∧ d.physicalStart.toNat ≤ r.begin.toNat ∧
    r.end.toNat ≤ d.physicalStart.toNat + 4096 * d.numberOfPages.toNat

lemma descriptor_end {mm : Memmap} (hv : MemmapValid mm) {index : ℕ} {d : EfiMemoryDescriptor}
    (hd : memmapGetDescriptor mm index = some d) :
    (d.physicalStart + d.numberOfPages * 4096#64).toNat =
      d.physicalStart.toNat + 4096 * d.numberOfPages.toNat := by
  have hbound := (hv index d hd).2
  have hmul : d.numberOfPages.toNat * 4096 < 2 ^ 64 := by omega
  rw [BitVec.toNat_add, BitVec.toNat_mul, show (4096#64).toNat = 4096 from rfl,
    Nat.mod_eq_of_lt hmul, Nat.mod_eq_of_lt (by omega)]
  omega

theorem findLargestStep_region {mm : Memmap} (hv : MemmapValid mm) {lo hi : Word}
    (hlo : lo.toNat % 4096 = 0) {best : BestRegion} (index : ℕ)
    (hbest : best.pages = 0 ∨ RegionOf mm lo hi best) :
    (findLargestStep mm lo hi best index).pages = 0 ∨
      RegionOf mm lo hi (findLargestStep mm lo hi best index) := by
  unfold findLargestStep
  cases hd : memmapGetDescriptor mm index with
  | none => exact hbest
  | some d =>
    have hend := descriptor_end hv hd
    have hstart := hv index d hd
    dsimp only
    split_ifs with htype
    all_goals first
      | exact hbest
      | skip
    all_goals
      right
      rw [not_not] at htype
      have hdown := toNat_alignDown
      constructor
      all_goals simp only [hdown, BitVec.not_le, BitVec.lt_def] at *
    all_goals first
      | exact ⟨index, d, hd, htype, by bv_omega, by bv_omega⟩
      | bv_omega

theorem findLargestLoop_region {mm : Memmap} (hv : MemmapValid mm) {lo hi : Word}
    (hlo : lo.toNat % 4096 = 0) (n : ℕ) :
    (findLargestLoop mm lo hi n).pages = 0 ∨ RegionOf mm lo hi (findLargestLoop mm lo hi n) := by
  induction n with
  | zero => exact .inl rfl
  | succ n ih => exact findLargestStep_region hv hlo n ih

/-- A reported region lies inside one conventional descriptor. -/
theorem memmapFindLargest_region {mm : Memmap} (hv : MemmapValid mm) {lo hi b e : Word}
    (hlo : lo.toNat % 4096 = 0)
    (h : memmapFindLargestConventionalRegion mm lo hi = (true, b, e)) :
    ∃ r, r.begin = b ∧ r.end = e ∧ RegionOf mm lo hi r := by
  unfold memmapFindLargestConventionalRegion at h
  dsimp only at h
  split_ifs at h with hp
  · cases h
  · obtain ⟨rfl, rfl⟩ := Prod.mk.inj (Prod.mk.inj h).2
    rcases findLargestLoop_region hv hlo mm.descriptorCount with h0 | hr
    · exact absurd h0 hp
    · exact ⟨_, rfl, rfl, hr⟩

end Platinum
