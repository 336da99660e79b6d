import Platinum.PagingIsolation
import Mathlib.Data.List.Perm.Basic

/-!
# The page allocator as a partition

`PallocRun` is every order of calls from some state on, the pages handed out
being written in between; its last argument lists them. The pages free at the
beginning are at any time the free and the handed out ones.
-/
namespace Platinum
open ByteMemory WordArith LinkedList

/-- The page that holds an address. -/
def pageOf (p : Word) : Word := p &&& ~~~4095#64

inductive PallocRun (s₀ : Phys) : Phys → List Word → Prop
  | start : PallocRun s₀ s₀ []
  | alloc {s s' : Phys} {out : List Word} {p : Word} (run : PallocRun s₀ s out)
      (hcall : pallocAlloc s = (p, s')) : PallocRun s₀ s' (if p = 0#64 then out else p :: out)
  | take {s s' : Phys} {out : List Word} {p : Word} {taken : Bool} (run : PallocRun s₀ s out)
      (hcall : pallocTake s p = .ok (taken, s')) :
      PallocRun s₀ s' (if taken then pageOf p :: out else out)
  | free {s : Phys} {out : List Word} {p : Word} (run : PallocRun s₀ s out) (hp : p ∈ out) :
      PallocRun s₀ (pallocFree s p) (out.erase p)
  | write {s s' : Phys} {out : List Word} (run : PallocRun s₀ s out)
      (hmem : ∀ l, FreeList s l → ChangesOnly {p | p.toNat % 4096 = 0 ∧ p ∉ l} s.mem s'.mem)
      (hhead : s'.freeListHead = s.freeListHead) (hcount : s'.freePageCount = s.freePageCount)
      (hbegin : s'.allocRegionBegin = s.allocRegionBegin)
      (hend : s'.allocRegionEnd = s.allocRegionEnd) : PallocRun s₀ s' out

/-- `p` is a page of the allocator's region. -/
def RegionPage (s : Phys) (p : Word) : Prop :=
  p.toNat % 4096 = 0 ∧ s.allocRegionBegin.toNat ≤ p.toNat ∧ p.toNat < s.allocRegionEnd.toNat

/-- Of the pages `l₀` that were free in `s₀`, those of `l` are free now and those of `out` in use. -/
structure Partition (s₀ : Phys) (l₀ : List Word) (s : Phys) (l out : List Word) : Prop where
  free : FreeList s l
  perm : (l ++ out).Perm l₀
  count : s.freePageCount + BitVec.ofNat 64 out.length = s₀.freePageCount
  regionBegin : s.allocRegionBegin = s₀.allocRegionBegin
  regionEnd : s.allocRegionEnd = s₀.allocRegionEnd

section Count

variable {s s' : Phys} {p : Word} {l out : List Word}

lemma foldl_pushFree_count (s : Phys) (ps : List Word) :
    (ps.foldl pushFree s).freePageCount = s.freePageCount + BitVec.ofNat 64 ps.length := by
  induction ps generalizing s with
  | nil => simp
  | cons p ps ih =>
    rw [List.foldl_cons, ih, List.length_cons, BitVec.ofNat_add, BitVec.add_comm (BitVec.ofNat 64 ps.length),
      ← BitVec.add_assoc]
    rfl

/-- The count after initialisation is the size of the region. -/
lemma pallocInitialize_count (s : Phys) : (pallocInitialize s).freePageCount = BitVec.ofNat 64
    (((pallocInitialize s).allocRegionEnd.toNat - (pallocInitialize s).allocRegionBegin.toNat) / 4096) := by
  have hregion : ∀ (s : Phys) (ps : List Word), (ps.foldl pushFree s).allocRegionBegin =
      s.allocRegionBegin ∧ (ps.foldl pushFree s).allocRegionEnd = s.allocRegionEnd := by
    intro s ps
    induction ps generalizing s with
    | nil => exact ⟨rfl, rfl⟩
    | cons p ps ih => exact ih (pushFree s p)
  unfold pallocInitialize
  rcases hfind : memmapFindLargestConventionalRegion s.memmap pallocLowCutoff pallocHighLimit
    with ⟨found, b, e⟩
  simp only [hfind]
  cases found with
  | false => simp
  | true =>
    dsimp only
    rw [(hregion _ _).1, (hregion _ _).2, foldl_pushFree_count, length_pagesFrom, BitVec.zero_add]

lemma pallocTakeLoop_count {taken : Bool} {fuel : ℕ} {link : FreeLink}
    (hrun : pallocTakeLoop s p fuel link = .ok (taken, s')) :
    s'.freePageCount = if taken then s.freePageCount - 1 else s.freePageCount := by
  induction fuel generalizing link with
  | zero => cases hrun
  | succ fuel ih =>
    unfold pallocTakeLoop at hrun
    dsimp only at hrun
    split_ifs at hrun with h0 hp
    · cases hrun
      rfl
    · cases hrun
      cases link <;> rfl
    · exact ih hrun

end Count

section Partition

variable {s₀ s s' : Phys} {p : Word} {l₀ l l' out out' : List Word}

/-- Moving pages between the two lists. -/
lemma Partition.move (h : Partition s₀ l₀ s l out) (hfree : FreeList s' l') (hg : SameGlobals s s')
    (hperm : (l' ++ out').Perm (l ++ out))
    (hcount : s'.freePageCount + BitVec.ofNat 64 out'.length =
      s.freePageCount + BitVec.ofNat 64 out.length) : Partition s₀ l₀ s' l' out' where
  free := hfree
  perm := hperm.trans h.perm
  count := hcount.trans h.count
  regionBegin := hg.regionBegin.trans h.regionBegin
  regionEnd := hg.regionEnd.trans h.regionEnd

lemma Partition.alloc (h : Partition s₀ l₀ s l out) (hcall : pallocAlloc s = (p, s')) :
    (l = [] ∧ p = 0#64 ∧ s' = s) ∨
      ∃ l', l = p :: l' ∧ p ≠ 0#64 ∧ Partition s₀ l₀ s' l' (p :: out) := by
  cases l with
  | nil =>
    rw [pallocAlloc_nil h.free] at hcall
    cases hcall
    exact .inl ⟨rfl, rfl, rfl⟩
  | cons q l =>
    obtain ⟨s₁, hrun, hfree, -, hg⟩ := pallocAlloc_cons h.free
    have hcount : (pallocAlloc s).2.freePageCount = s.freePageCount - 1 := by
      rw [pallocAlloc, if_neg (by rw [h.free.chain.1]; exact (h.free.pages q (by simp)).ne_zero)]
    rw [hrun] at hcount hcall
    cases hcall
    refine .inr ⟨l, rfl, (h.free.pages p (by simp)).ne_zero, h.move hfree hg List.perm_middle ?_⟩
    dsimp only at hcount
    rw [hcount, List.length_cons, BitVec.ofNat_add]
    bv_omega

/-- Taking the page of any address removes that page if it is free. -/
lemma Partition.take (h : Partition s₀ l₀ s l out) (p : Word) :
    (pageOf p ∉ l ∧ pallocTake s p = .ok (false, s)) ∨
      ∃ s', pageOf p ∈ l ∧ pallocTake s p = .ok (true, s') ∧
        Partition s₀ l₀ s' (l.erase (pageOf p)) (pageOf p :: out) := by
  have haligned : (pageOf p).toNat % 4096 = 0 := alignDown_aligned p
  have hsame : pallocTake s p = pallocTake s (pageOf p) := by
    rw [pallocTake, pallocTake, alignDown_of_aligned haligned]
    rfl
  rw [hsame]
  by_cases hp : pageOf p ∈ l
  · obtain ⟨s', hrun, hfree, -, hg⟩ := pallocTake_present h.free hp
    have hcount := pallocTakeLoop_count hrun
    refine .inr ⟨s', hp, hrun, h.move hfree hg ?_ ?_⟩
    · exact List.perm_middle.trans ((List.perm_cons_erase hp).symm.append_right out)
    · rw [hcount, if_pos rfl, List.length_cons, BitVec.ofNat_add]
      bv_omega
  · exact .inl ⟨hp, pallocTake_absent h.free haligned hp⟩

lemma Partition.release (h : Partition s₀ l₀ s l out) (hl₀ : FreeList s₀ l₀) (hp : p ∈ out) :
    Partition s₀ l₀ (pallocFree s p) (p :: l) (out.erase p) := by
  have hpage := hl₀.pages p (h.perm.mem_iff.mp (List.mem_append_right l hp))
  have hnot : p ∉ l := fun hl =>
    (List.nodup_append.mp (h.perm.nodup_iff.mpr hl₀.nodup)).2.2 p hl p hp rfl
  refine h.move (pallocFree_list h.free hpage hnot) (pallocFree_globals s p) ?_ ?_
  · exact List.perm_middle.symm.trans ((List.perm_cons_erase hp).symm.append_left l)
  · have hlen := (List.perm_cons_erase hp).length_eq
    rw [List.length_cons] at hlen
    rw [pallocFree, if_neg hpage.ne_zero, hlen, BitVec.ofNat_add]
    change s.freePageCount + 1 + _ = _
    bv_omega

/-- Every call keeps the partition. -/
theorem PallocRun.partition (run : PallocRun s₀ s out) (hl₀ : FreeList s₀ l₀) :
    ∃ l, Partition s₀ l₀ s l out := by
  induction run with
  | start => exact ⟨l₀, hl₀, by simp, by simp, rfl, rfl⟩
  | @alloc s s' out p run hcall ih =>
    obtain ⟨l, h⟩ := ih
    rcases h.alloc hcall with ⟨rfl, rfl, rfl⟩ | ⟨l', rfl, hp, h'⟩
    · exact ⟨[], h⟩
    · rw [if_neg hp]
      exact ⟨l', h'⟩
  | @take s s' out p taken run hcall ih =>
    obtain ⟨l, h⟩ := ih
    rcases h.take p with ⟨-, hrun⟩ | ⟨s₁, -, hrun, h'⟩
    · cases hcall.symm.trans hrun
      exact ⟨l, h⟩
    · cases hcall.symm.trans hrun
      exact ⟨_, h'⟩
  | @free s out p run hp ih =>
    obtain ⟨l, h⟩ := ih
    exact ⟨_, h.release hl₀ hp⟩
  | @write s s' out run hmem hhead hcount hbegin hend ih =>
    obtain ⟨l, h⟩ := ih
    refine ⟨l, ⟨?_, h.perm, hcount ▸ h.count, hbegin.trans h.regionBegin, hend.trans h.regionEnd⟩⟩
    exact h.free.frame hhead (hmem l h.free) (fun q hq => hq.1) fun q hq => hq.2

end Partition

/-- After any run the free list is finite and without repetition, counted by
`free_page_count`, and free and handed out pages are exactly those of the region. -/
theorem pallocRun_partition {cold : Phys} (hmap : MemmapValid cold.memmap) {s : Phys}
    {out : List Word} (run : PallocRun (pallocInitialize cold) s out) :
    ∃ l, FreeList s l ∧ (∀ p ∈ l, RegionPage s p) ∧ s.freePageCount.toNat = l.length ∧
      (l ++ out).Nodup ∧ (∀ p, p ∈ l ++ out ↔ RegionPage s p) ∧
      ((pallocAlloc s).1 = 0#64 ↔ l = []) ∧
      ∀ p, ∃ taken s', pallocTake s p = .ok (taken, s') ∧ (taken = true ↔ pageOf p ∈ l) ∧
        FreeList s' (l.erase (pageOf p)) := by
  obtain ⟨l₀, hl₀, -⟩ := pallocInitialize_spec cold hmap
  obtain ⟨l, h⟩ := run.partition hl₀.list
  have hregion : ∀ p, p ∈ l ++ out ↔ RegionPage s p := by
    intro p
    rw [h.perm.mem_iff, hl₀.mem_iff, RegionPage, h.regionBegin, h.regionEnd]
  refine ⟨l, h.free, fun p hp => (hregion p).mp (List.mem_append_left out hp), ?_,
    h.perm.nodup_iff.mpr hl₀.list.nodup, hregion, ?_, fun p => ?_⟩
  · have hlen : l.length < 2 ^ 64 := h.free.length_lt
    have hlen₀ := h.perm.length_eq
    have hcount := h.count
    rw [pallocInitialize_count, ← hl₀.length, ← hlen₀, List.length_append, BitVec.ofNat_add] at hcount
    have hcount : s.freePageCount = BitVec.ofNat 64 l.length := by bv_omega
    rw [hcount, BitVec.toNat_ofNat]
    omega
  · rcases h.alloc (Prod.mk.eta (p := pallocAlloc s)).symm with ⟨hl, hp, -⟩ | ⟨l', hl, hp, -⟩
    · exact ⟨fun _ => hl, fun _ => hp⟩
    · exact ⟨fun h0 => absurd h0 hp, fun h0 => absurd (hl.symm.trans h0) (by simp)⟩
  · rcases h.take p with ⟨hp, hrun⟩ | ⟨s', hp, hrun, h'⟩
    · refine ⟨false, s, hrun, by simp [hp], ?_⟩
      rw [List.erase_of_not_mem hp]
      exact h.free
    · exact ⟨true, s', hrun, by simp [hp], h'.free⟩

/-- One page of a 64 MiB machine in use. -/
theorem pallocRun_partition_sample : ∃ p s l,
    pallocAlloc (pallocInitialize (coldMachine 0x4000#64)) = (p, s) ∧ p ≠ 0#64 ∧ FreeList s l ∧
      s.freePageCount.toNat = l.length ∧ (l ++ [p]).Nodup ∧ RegionPage s p := by
  have hmap : MemmapValid (coldMachine 0x4000#64).memmap := sampleMemmap_valid (by decide)
  obtain ⟨l₀, s₀, K, l₁, hl₀, hbegin, hend, -⟩ := coldMachine_boots 0x4000#64
    (b := 0x02000000#64) (e := 0x06000000#64) (by decide) (by decide) (by decide) (by decide)
  obtain ⟨⟨p, s⟩, hcall⟩ : ∃ x, pallocAlloc (pallocInitialize (coldMachine 0x4000#64)) = x := ⟨_, rfl⟩
  have hp : p ≠ 0#64 := by
    obtain ⟨l, hl, -, -, -, hregion, halloc, -⟩ := pallocRun_partition hmap .start
    intro h0
    have hmem : 0x02000000#64 ∈ l ++ [] := (hregion _).mpr (by
      rw [RegionPage, hbegin, hend]
      decide)
    rw [hcall] at halloc
    rw [halloc.mp h0] at hmem
    cases hmem
  have hrun := PallocRun.alloc .start hcall
  rw [if_neg hp] at hrun
  obtain ⟨l, hl, -, hcount, hnd, hregion, -⟩ := pallocRun_partition hmap hrun
  exact ⟨p, s, l, hcall, hp, hl, hcount, hnd, (hregion _).mp (by simp)⟩

end Platinum
