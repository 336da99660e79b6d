import Platinum.Machine
import Platinum.LinkedList
import Mathlib.Data.List.Perm.Subperm
import Mathlib.Data.Set.Insert

/-!
# Physical page allocator

The free list is threaded through the first word of each free page. `FreeList`
reads it off memory as a list; every operation then has a list-level effect.
-/
namespace Platinum
open ByteMemory WordArith LinkedList

def pallocLowCutoff : Word := 0x02000000
def pallocHighLimit : Word := 0x100000000

/-- `node->next`. -/
def nodeNext (m : Mem) (node : Word) : Word := slot m node 0

/-- Link a page in at the head of the free list. -/
def pushFree (s : Phys) (page : Word) : Phys :=
  { s with
    mem := setSlot s.mem page 0 s.freeListHead
    freeListHead := page
    freePageCount := s.freePageCount + 1 }

def pallocInitialize (s : Phys) : Phys :=
  let s := { s with
    freeListHead := 0#64
    allocRegionBegin := 0#64
    allocRegionEnd := 0#64
    freePageCount := 0#64 }
  match memmapFindLargestConventionalRegion s.memmap pallocLowCutoff pallocHighLimit with
  | (false, _, _) => s
  | (true, regionBegin, regionEnd) =>
    (pagesFrom regionBegin ((regionEnd.toNat - regionBegin.toNat) / 4096)).foldl pushFree
      { s with allocRegionBegin := regionBegin, allocRegionEnd := regionEnd }

/-- Returns the page, 0 when none is free. -/
def pallocAlloc (s : Phys) : Word × Phys :=
  if s.freeListHead = 0#64 then (0#64, s)
  else (s.freeListHead, { s with
    freeListHead := nodeNext s.mem s.freeListHead
    freePageCount := s.freePageCount - 1 })

def pallocFree (s : Phys) (page : Word) : Phys :=
  if page = 0#64 then s else pushFree s page

/-- The pointer-to-link that `palloc_take` walks with. -/
inductive FreeLink where
  | head
  | next (node : Word)

def FreeLink.read (s : Phys) : FreeLink → Word
  | .head => s.freeListHead
  | .next node => nodeNext s.mem node

def FreeLink.write (s : Phys) : FreeLink → Word → Phys
  | .head, v => { s with freeListHead := v }
  | .next node, v => { s with mem := setSlot s.mem node 0 v }

def pallocTakeLoop (s : Phys) (page : Word) : ℕ → FreeLink → Run (Bool × Phys)
  | 0, _ => .error .diverge
  | fuel + 1, link =>
    let node := link.read s
    if node = 0#64 then .ok (false, s)
    else if node = page then
      let s := link.write s (nodeNext s.mem node)
      .ok (true, { s with freePageCount := s.freePageCount - 1 })
    else pallocTakeLoop s page fuel (.next node)

def pallocTake (s : Phys) (page : Word) : Run (Bool × Phys) :=
  pallocTakeLoop s (page &&& ~~~4095#64) linkFuel .head

structure FreeList (s : Phys) (l : List Word) : Prop where
  chain : Chain (nodeNext s.mem) 0#64 s.freeListHead l
  nodup : l.Nodup
  pages : ∀ p ∈ l, IsPage p

instance (s : Phys) (l : List Word) : Decidable (FreeList s l) :=
  decidable_of_iff (Chain (nodeNext s.mem) 0#64 s.freeListHead l ∧ l.Nodup ∧ l.all fun p => IsPage p)
    ⟨fun h => ⟨h.1, h.2.1, by simpa using h.2.2⟩, fun h => ⟨h.chain, h.nodup, by simpa using h.pages⟩⟩

namespace FreeList

theorem unique {s : Phys} {l l' : List Word} (h : FreeList s l) (h' : FreeList s l') : l = l' :=
  h.chain.unique h'.chain

/-- Only the head and the links of free pages matter. -/
theorem congr {s s' : Phys} {l : List Word} (h : FreeList s l)
    (hh : s'.freeListHead = s.freeListHead) (hn : ∀ p ∈ l, nodeNext s'.mem p = nodeNext s.mem p) :
    FreeList s' l :=
  ⟨hh ▸ h.chain.congr hn, h.nodup, h.pages⟩

/-- Writes to pages that are not free keep the free list. -/
theorem frame {s s' : Phys} {l : List Word} (h : FreeList s l)
    (hh : s'.freeListHead = s.freeListHead) {P : Set Word} (hc : ChangesOnly P s.mem s'.mem)
    (hP : ∀ p ∈ P, p.toNat % 4096 = 0) (hd : ∀ p ∈ P, p ∉ l) : FreeList s' l :=
  h.congr hh fun p hp => hc.slot hP (h.pages p hp).aligned (fun hpP => hd p hpP hp) 0

/-- A free list has fewer pages than there are page frames. -/
theorem length_lt {s : Phys} {l : List Word} (h : FreeList s l) : l.length < linkFuel := by
  have hsub : l.map BitVec.toNat ⊆ List.range (2 ^ 52) := by
    intro a ha
    obtain ⟨p, hp, rfl⟩ := List.mem_map.mp ha
    exact List.mem_range.mpr (h.pages p hp).lt
  have hnd : (l.map BitVec.toNat).Nodup :=
    h.nodup.map fun a b hab => BitVec.eq_of_toNat_eq hab
  have hlen := (List.subperm_of_subset hnd hsub).length_le
  rw [List.length_map, List.length_range] at hlen
  exact lt_of_le_of_lt hlen (by decide)

end FreeList

theorem pallocAlloc_nil {s : Phys} (h : FreeList s []) : pallocAlloc s = (0#64, s) := by
  have hc : s.freeListHead = 0#64 := h.chain
  simp [pallocAlloc, hc]

/-- A successful allocation pops the head and writes no memory. -/
theorem pallocAlloc_cons {s : Phys} {p : Word} {l : List Word} (h : FreeList s (p :: l)) :
    ∃ s', pallocAlloc s = (p, s') ∧ FreeList s' l ∧ s'.mem = s.mem ∧ SameGlobals s s' := by
  obtain ⟨hh, hp, hc⟩ := h.chain
  refine ⟨{ s with freeListHead := nodeNext s.mem p, freePageCount := s.freePageCount - 1 },
    by simp [pallocAlloc, hh, hp], ⟨hc, ?_, ?_⟩, rfl, ⟨rfl, rfl, rfl, rfl, rfl⟩⟩
  · exact (List.nodup_cons.mp h.nodup).2
  · exact fun q hq => h.pages q (by simp [hq])

theorem pushFree_links (s : Phys) (p : Word) : ChangesLinks {p} s.mem (pushFree s p).mem :=
  ChangesLinks.setSlot s.mem (Set.mem_singleton p) _

theorem pushFree_globals (s : Phys) (p : Word) : SameGlobals s (pushFree s p) :=
  ⟨rfl, rfl, rfl, rfl, rfl⟩

theorem pushFree_list {s : Phys} {p : Word} {l : List Word} (h : FreeList s l) (hp : IsPage p)
    (hl : p ∉ l) : FreeList (pushFree s p) (p :: l) := by
  refine ⟨⟨rfl, hp.ne_zero, ?_⟩, List.nodup_cons.mpr ⟨hl, h.nodup⟩, ?_⟩
  · have hn : nodeNext (pushFree s p).mem p = s.freeListHead := slot_setSlot_same _ _ _ _
    rw [hn]
    apply h.chain.congr
    intro q hq
    exact slot_setSlot_ne _ _ hp.aligned (h.pages q hq).aligned (.inl (by rintro rfl; exact hl hq))
  · intro q hq
    rcases List.mem_cons.mp hq with rfl | hq
    · exact hp
    · exact h.pages q hq

/-- Freeing a page puts it at the head. -/
theorem pallocFree_list {s : Phys} {p : Word} {l : List Word} (h : FreeList s l) (hp : IsPage p)
    (hl : p ∉ l) : FreeList (pallocFree s p) (p :: l) := by
  rw [pallocFree, if_neg hp.ne_zero]
  exact pushFree_list h hp hl

theorem pallocFree_links (s : Phys) (p : Word) : ChangesLinks {p} s.mem (pallocFree s p).mem := by
  unfold pallocFree
  split_ifs
  · exact ChangesLinks.refl _ _
  · exact pushFree_links s p

theorem pallocFree_globals (s : Phys) (p : Word) : SameGlobals s (pallocFree s p) := by
  unfold pallocFree
  split_ifs
  · exact SameGlobals.refl s
  · exact pushFree_globals s p

/-- Free pages one after the other. -/
def freeAll (s : Phys) (ps : List Word) : Phys := ps.foldl pallocFree s

@[simp] theorem freeAll_nil (s : Phys) : freeAll s [] = s := rfl

@[simp] theorem freeAll_cons (s : Phys) (p : Word) (ps : List Word) :
    freeAll s (p :: ps) = freeAll (pallocFree s p) ps := rfl

theorem freeAll_append (s : Phys) (ps qs : List Word) :
    freeAll s (ps ++ qs) = freeAll (freeAll s ps) qs := List.foldl_append

theorem freeAll_links (s : Phys) (ps : List Word) :
    ChangesLinks {p | p ∈ ps} s.mem (freeAll s ps).mem := by
  induction ps generalizing s with
  | nil => exact ChangesLinks.refl _ _
  | cons p ps ih =>
    exact ((pallocFree_links s p).mono (by simp)).trans
      ((ih (pallocFree s p)).mono fun q hq => List.mem_cons_of_mem p hq)

theorem freeAll_frame (s : Phys) (ps : List Word) :
    ChangesOnly {p | p ∈ ps} s.mem (freeAll s ps).mem := (freeAll_links s ps).pages

theorem freeAll_globals (s : Phys) (ps : List Word) : SameGlobals s (freeAll s ps) := by
  induction ps generalizing s with
  | nil => exact SameGlobals.refl s
  | cons p ps ih => exact (pallocFree_globals s p).trans (ih _)

/-- Freeing distinct pages that are not free puts them all in front of the list. -/
theorem freeAll_list {s : Phys} {l ps : List Word} (h : FreeList s l) (hp : ∀ p ∈ ps, IsPage p)
    (hnd : ps.Nodup) (hl : ∀ p ∈ ps, p ∉ l) : FreeList (freeAll s ps) (ps.reverse ++ l) := by
  induction ps generalizing s l with
  | nil => exact h
  | cons p ps ih =>
    obtain ⟨hpps, hnd⟩ := List.nodup_cons.mp hnd
    have h' := pallocFree_list h (hp p (by simp)) (hl p (by simp))
    have hrec := ih h' (fun q hq => hp q (by simp [hq])) hnd (by
      intro q hq hm
      rcases List.mem_cons.mp hm with rfl | hm
      · exact hpps hq
      · exact hl q (by simp [hq]) hm)
    simpa using hrec

/-- The link out of a prefix of the list. -/
def linkAfter : List Word → FreeLink
  | [] => .head
  | p :: l => .next ((p :: l).getLast (by simp))

lemma linkAfter_snoc (l : List Word) (x : Word) : linkAfter (l ++ [x]) = .next x := by
  cases l with
  | nil => rfl
  | cons p l => simp [linkAfter]

lemma linkAfter_read {s : Phys} {l₁ l₂ : List Word} (h : FreeList s (l₁ ++ l₂)) :
    Chain (nodeNext s.mem) 0#64 ((linkAfter l₁).read s) l₂ := by
  rcases List.eq_nil_or_concat l₁ with rfl | ⟨l, x, rfl⟩
  · exact h.chain
  · rw [List.concat_eq_append, linkAfter_snoc]
    have hc := h.chain
    rw [List.concat_eq_append, List.append_assoc] at hc
    exact hc.split

/-- Unlinking through the link before `p` removes exactly `p`. -/
lemma linkAfter_write {s : Phys} {l₁ l₂ : List Word} {p : Word} (h : FreeList s (l₁ ++ p :: l₂)) :
    let s' := (linkAfter l₁).write s (nodeNext s.mem p)
    FreeList s' (l₁ ++ l₂) ∧ ChangesLinks {q | q ∈ l₁} s.mem s'.mem ∧ SameGlobals s s' := by
  have hnd : (l₁ ++ l₂).Nodup := h.nodup.sublist (by simp)
  have hpages : ∀ q ∈ l₁ ++ l₂, IsPage q := fun q hq => h.pages q (by
    rcases List.mem_append.mp hq with hq | hq <;> simp [hq])
  rcases List.eq_nil_or_concat l₁ with rfl | ⟨l, x, rfl⟩
  · exact ⟨⟨h.chain.2.2, hnd, hpages⟩, ChangesLinks.refl _ _, ⟨rfl, rfl, rfl, rfl, rfl⟩⟩
  · simp only [List.concat_eq_append, linkAfter_snoc, List.append_assoc, List.cons_append,
      List.nil_append] at *
    have hx : IsPage x := h.pages x (by simp)
    refine ⟨⟨?_, hnd, hpages⟩, ChangesLinks.setSlot s.mem (by simp) _, ⟨rfl, rfl, rfl, rfl, rfl⟩⟩
    -- links of cells outside the list are unconstrained, so edit `next` at `x` alone
    have hc : Chain (Function.update (nodeNext s.mem) x (nodeNext s.mem p)) 0#64 s.freeListHead
        (l ++ x :: l₂) :=
      h.chain.unlink h.nodup (by simp) fun q hq => by simp [hq]
    apply hc.congr
    intro q hq
    by_cases hqx : q = x
    · subst hqx
      rw [Function.update_self]
      exact slot_setSlot_same _ _ _ _
    · rw [Function.update_of_ne hqx]
      exact slot_setSlot_ne _ _ hx.aligned (hpages q hq).aligned (.inl hqx)

/-- The walk of `palloc_take`, started after the prefix `l₁`. -/
lemma pallocTakeLoop_spec {s : Phys} {p : Word} :
    ∀ (fuel : ℕ) (l₁ l₂ : List Word), FreeList s (l₁ ++ l₂) → p ∉ l₁ → l₂.length < fuel →
      (p ∉ l₂ ∧ pallocTakeLoop s p fuel (linkAfter l₁) = .ok (false, s)) ∨
      (p ∈ l₂ ∧ ∃ s', pallocTakeLoop s p fuel (linkAfter l₁) = .ok (true, s') ∧
        FreeList s' ((l₁ ++ l₂).erase p) ∧ ChangesLinks {q | q ∈ (l₁ ++ l₂).erase p} s.mem s'.mem ∧
        SameGlobals s s')
  | 0, _, _, _, _, hf => absurd hf (by omega)
  | fuel + 1, l₁, [], h, hp, _ => by
    have hr : (linkAfter l₁).read s = 0#64 := linkAfter_read h
    exact .inl ⟨by simp, by simp [pallocTakeLoop, hr]⟩
  | fuel + 1, l₁, q :: l₂, h, hp, hf => by
    obtain ⟨hr, hq, _⟩ := linkAfter_read h
    by_cases hqp : q = p
    · subst hqp
      obtain ⟨hl, hc, hg⟩ := linkAfter_write h
      have he : (l₁ ++ q :: l₂).erase q = l₁ ++ l₂ := by
        rw [List.erase_append_right _ hp]
        simp
      have hrun : pallocTakeLoop s q (fuel + 1) (linkAfter l₁) = .ok (true,
          { (linkAfter l₁).write s (nodeNext s.mem q) with
            freePageCount := ((linkAfter l₁).write s (nodeNext s.mem q)).freePageCount - 1 }) := by
        simp [pallocTakeLoop, hr, hq]
      refine .inr ⟨by simp, _, hrun, ?_, ?_, ?_⟩
      · rw [he]
        exact hl.congr rfl fun _ _ => rfl
      · rw [he]
        exact hc.mono fun x hx => List.mem_append.mpr (.inl hx)
      · exact hg.trans ⟨rfl, rfl, rfl, rfl, rfl⟩
    · have hpl : p ∉ l₁ ++ [q] := by
        simp only [List.mem_append, List.mem_singleton, not_or]
        exact ⟨hp, fun he => hqp he.symm⟩
      have h' : FreeList s ((l₁ ++ [q]) ++ l₂) := by simpa using h
      have hstep : pallocTakeLoop s p (fuel + 1) (linkAfter l₁) =
          pallocTakeLoop s p fuel (linkAfter (l₁ ++ [q])) := by
        rw [linkAfter_snoc]
        simp [pallocTakeLoop, hr, hq, hqp]
      rw [hstep]
      have hlen : l₂.length < fuel := by simp at hf; omega
      rcases pallocTakeLoop_spec fuel (l₁ ++ [q]) l₂ h' hpl hlen with ⟨hn, hrun⟩ | ⟨hm, s', hrun, hl⟩
      · refine .inl ⟨?_, hrun⟩
        simp only [List.mem_cons, not_or]
        exact ⟨fun he => hqp he.symm, hn⟩
      · exact .inr ⟨by simp [hm], s', hrun, by simpa using hl⟩

/-- Taking a page that is not free changes nothing. -/
theorem pallocTake_absent {s : Phys} {p : Word} {l : List Word} (h : FreeList s l)
    (hp : p.toNat % 4096 = 0) (hl : p ∉ l) : pallocTake s p = .ok (false, s) := by
  rw [pallocTake, alignDown_of_aligned hp]
  rcases pallocTakeLoop_spec linkFuel [] l h (by simp) h.length_lt with ⟨_, hr⟩ | ⟨hm, _⟩
  · exact hr
  · exact absurd hm hl

/-- Taking a free page removes exactly that page; only links of free pages change. -/
theorem pallocTake_present {s : Phys} {p : Word} {l : List Word} (h : FreeList s l)
    (hl : p ∈ l) :
    ∃ s', pallocTake s p = .ok (true, s') ∧ FreeList s' (l.erase p) ∧
      ChangesLinks {q | q ∈ l.erase p} s.mem s'.mem ∧ SameGlobals s s' := by
  rw [pallocTake, alignDown_of_aligned (h.pages p hl).aligned]
  rcases pallocTakeLoop_spec linkFuel [] l h (by simp) h.length_lt with ⟨hn, _⟩ | ⟨_, hr⟩
  · exact absurd hl hn
  · exact hr

/-- What `palloc_initialize` sets up: the free list is the whole region. -/
structure PallocInitial (s : Phys) (l : List Word) : Prop where
  list : FreeList s l
  mem_iff : ∀ p, p ∈ l ↔ p.toNat % 4096 = 0 ∧ s.allocRegionBegin.toNat ≤ p.toNat ∧
    p.toNat < s.allocRegionEnd.toNat
  length : l.length = (s.allocRegionEnd.toNat - s.allocRegionBegin.toNat) / 4096
  order : l = (pagesFrom s.allocRegionBegin
    ((s.allocRegionEnd.toNat - s.allocRegionBegin.toNat) / 4096)).reverse

/-- Handing out a bounded number of pages leaves the low end of the region free. -/
theorem PallocInitial.mem_rest {s : Phys} {l l' : List Word} (h : PallocInitial s l)
    (tabs : List Word) (hl : l = tabs ++ l') {k : ℕ} (hk : tabs.length ≤ k) {p : Word} (hp : p.toNat % 4096 = 0)
    (hb : s.allocRegionBegin.toNat ≤ p.toNat)
    (he : p.toNat + 4096 * (k + 1) ≤ s.allocRegionEnd.toNat) : p ∈ l' := by
  have hlt := s.allocRegionEnd.isLt
  have horder := h.order
  -- the free list counts down, so what is left of it counts up from the bottom
  have hrest : l'.reverse = pagesFrom s.allocRegionBegin
      ((s.allocRegionEnd.toNat - s.allocRegionBegin.toNat) / 4096 - tabs.length) := by
    have hlen := h.length
    have hall : pagesFrom s.allocRegionBegin
        ((s.allocRegionEnd.toNat - s.allocRegionBegin.toNat) / 4096) = l'.reverse ++ tabs.reverse := by
      rw [← List.reverse_append, ← hl, horder, List.reverse_reverse]
    rw [hl, List.length_append] at hlen
    rw [← take_pagesFrom _ (Nat.sub_le _ tabs.length), hall, List.take_left' (by simp; omega)]
  rw [← List.mem_reverse, hrest, mem_pagesFrom (by omega)]
  have hal : s.allocRegionBegin.toNat % 4096 = 0 := by
    obtain ⟨hba, -⟩ := (h.mem_iff s.allocRegionBegin).mp (by
      rw [horder, List.mem_reverse, mem_pagesFrom (by omega)]
      exact ⟨0, by omega, by omega⟩)
    exact hba
  exact ⟨(p.toNat - s.allocRegionBegin.toNat) / 4096, by omega, by omega⟩

theorem foldl_pushFree_eq {s : Phys} {ps : List Word} (hp : ∀ p ∈ ps, IsPage p) :
    ps.foldl pushFree s = freeAll s ps := by
  induction ps generalizing s with
  | nil => rfl
  | cons p ps ih =>
    have hfree : pallocFree s p = pushFree s p := by rw [pallocFree, if_neg (hp p (by simp)).ne_zero]
    rw [List.foldl_cons, freeAll_cons, hfree]
    exact ih fun q hq => hp q (by simp [hq])

/-- The free list after initialisation is the region of the firmware map. -/
theorem pallocInitialize_spec (s : Phys) (hv : MemmapValid s.memmap) :
    ∃ l, PallocInitial (pallocInitialize s) l ∧
      (pallocInitialize s).pagingKernelPml4 = s.pagingKernelPml4 ∧
      (pallocInitialize s).cr3 = s.cr3 ∧ (pallocInitialize s).memmap = s.memmap ∧
      (((memmapFindLargestConventionalRegion s.memmap pallocLowCutoff pallocHighLimit).1 = false ∧
          l = [] ∧ (pallocInitialize s).allocRegionEnd = 0#64) ∨
        ∃ r, memmapFindLargestConventionalRegion s.memmap pallocLowCutoff pallocHighLimit =
            (true, r.begin, r.end) ∧
          r.begin = (pallocInitialize s).allocRegionBegin ∧
          r.end = (pallocInitialize s).allocRegionEnd ∧
          RegionOf s.memmap pallocLowCutoff pallocHighLimit r) := by
  unfold pallocInitialize
  rcases hfind : memmapFindLargestConventionalRegion s.memmap pallocLowCutoff pallocHighLimit
    with ⟨found, b, e⟩
  simp only [hfind]
  cases found with
  | false =>
    refine ⟨[], ⟨⟨rfl, by simp, by simp⟩, by simp, by simp,
      by simp [pagesFrom]⟩, rfl, rfl, rfl, .inl ⟨rfl, rfl, rfl⟩⟩
  | true =>
    obtain ⟨r, rfl, rfl, hr⟩ := memmapFindLargest_region hv (by decide) hfind
    have hlow : pallocLowCutoff.toNat = 0x02000000 := rfl
    have hhigh : pallocHighLimit.toNat = 0x100000000 := rfl
    have hmin := hr.minimum_le
    have hmax := hr.le_maximum
    have hlt := hr.begin_lt
    have hba := hr.begin_aligned
    have hea := hr.end_aligned
    have hbound : r.begin.toNat + 4096 * ((r.end.toNat - r.begin.toNat) / 4096) < 2 ^ 64 := by omega
    have hpages : ∀ p ∈ pagesFrom r.begin ((r.end.toNat - r.begin.toNat) / 4096), IsPage p := by
      intro p hp
      obtain ⟨i, hi, hpi⟩ := (mem_pagesFrom hbound).mp hp
      exact ⟨by omega, by omega, by omega⟩
    simp only
    rw [foldl_pushFree_eq hpages]
    have hg := freeAll_globals { s with
      freeListHead := 0#64
      allocRegionBegin := r.begin
      allocRegionEnd := r.end
      freePageCount := 0#64 } (pagesFrom r.begin ((r.end.toNat - r.begin.toNat) / 4096))
    refine ⟨(pagesFrom r.begin ((r.end.toNat - r.begin.toNat) / 4096)).reverse, ⟨?_, ?_, ?_, ?_⟩,
      hg.kernelPml4, hg.cr3, hg.memmap, .inr ⟨r, rfl, hg.regionBegin.symm, hg.regionEnd.symm, hr⟩⟩
    · have hempty : FreeList { s with
          freeListHead := 0#64
          allocRegionBegin := r.begin
          allocRegionEnd := r.end
          freePageCount := 0#64 } [] := ⟨rfl, by simp, by simp⟩
      simpa using freeAll_list hempty hpages (nodup_pagesFrom hbound) (by simp)
    · intro p
      rw [List.mem_reverse, mem_pagesFrom hbound, hg.regionBegin, hg.regionEnd]
      constructor
      · rintro ⟨i, hi, hpi⟩
        simp only
        omega
      · rintro ⟨hpa, hpb, hpe⟩
        simp only at hpb hpe
        exact ⟨(p.toNat - r.begin.toNat) / 4096, by omega, by omega⟩
    · rw [List.length_reverse, length_pagesFrom, hg.regionBegin, hg.regionEnd]
    · rw [hg.regionBegin, hg.regionEnd]

end Platinum
