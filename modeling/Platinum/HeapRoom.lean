import Platinum.FdObjects
import Mathlib.Algebra.Order.BigOperators.Group.List

/-!
# Room for a user's objects

The blocks handed out and the gaps between them cannot fill a page as long as
the user task holds no more objects than a full table needs. So a heap that has
a page never has to grow for it.
-/
namespace Platinum
open ByteMemory BlockList

/-- A heap of at least one page in which `frame`, at most seven objects of
somebody else, was handed out tightly and `ptrs` nearly so. -/
structure RoomyBlocks (frame ptrs : List Word) (h : Heap) (pages : List Word) (L : List Block) :
    Prop where
  inv : HeapInv h pages L
  page : pages ≠ []
  handed : ((live L).map payloadAt).Perm (ptrs ++ frame)
  sizes : ∀ b ∈ live L, b.size ≤ 80
  frame_sizes : ∀ b ∈ live L, payloadAt b ∈ frame → b.size ≤ 32
  few : frame.length ≤ 7

/-- Such a heap, whatever the state of the page allocator. -/
def RoomyHeap (frame : List Word) (h : Heap) (_ : Phys) (ptrs : List Word) : Prop :=
  ∃ pages L, RoomyBlocks frame ptrs h pages L

section Room

variable {h : Heap} {s : Phys} {pages ptrs frame : List Word} {L : List Block} {size : Word}

/-- The bytes handed out, by owner. -/
lemma RoomyBlocks.liveBytes_le (hr : RoomyBlocks frame ptrs h pages L) :
    liveBytes 32 L ≤ 112 * ptrs.length + 64 * frame.length := by
  have hle : liveBytes 32 L ≤
      (((live L).map payloadAt).map fun p => if p ∈ frame then 64 else 112).sum := by
    rw [List.map_map]
    refine List.sum_le_sum fun b hb => ?_
    have hb80 := hr.sizes b hb
    have hb32 := hr.frame_sizes b hb
    simp only [Function.comp_apply]
    split_ifs with hf
    · have := hb32 hf
      omega
    · omega
  have hsplit := (hr.handed.map fun p => if p ∈ frame then 64 else 112).sum_eq
  rw [List.map_append, List.sum_append] at hsplit
  have hown := List.sum_le_card_nsmul (ptrs.map fun p => if p ∈ frame then 64 else 112) 112 (by
    intro x hx
    obtain ⟨p, -, rfl⟩ := List.mem_map.mp hx
    split_ifs <;> omega)
  have hframe := List.sum_le_card_nsmul (frame.map fun p => if p ∈ frame then 64 else 112) 64 (by
    intro x hx
    obtain ⟨p, hp, rfl⟩ := List.mem_map.mp hx
    rw [if_pos hp])
  rw [List.length_map, Nat.nsmul_eq_mul] at hown hframe
  omega

/-- There is a block for one more object. -/
lemma RoomyBlocks.exists_fits (hr : RoomyBlocks frame ptrs h pages L) (hlen : ptrs.length ≤ 20)
    {n : ℕ} (hn : n ≤ 32) : ∃ b ∈ L, Fits n b := by
  by_contra hno
  have hmost : ∀ b ∈ L, b.free = true → 32 + b.size ≤ 48 := by
    intro b hb hf
    have hfit : ¬ n ≤ b.size := fun hle => hno ⟨b, hb, hf, hle⟩
    obtain ⟨-, hgrain⟩ := hr.inv.grain b hb
    omega
  obtain ⟨p, hp⟩ := List.exists_mem_of_ne_nil _ hr.page
  have hcov : ∀ y, p.toNat ≤ y → y < p.toNat + 4096 → y ∈ covered 32 L :=
    fun y hy hye => (hr.inv.tiles y).mpr ⟨p, hp, hy, hye⟩
  obtain ⟨hle, -⟩ := covered_length_le (by omega) hmost hr.inv.list.placed.sorted hr.inv.coalesced
    p.toNat hcov
  have hbytes := hr.liveBytes_le
  have hlive := hr.handed.length_eq
  have hfew := hr.few
  rw [List.length_map, List.length_append] at hlive
  omega

/-- `kzalloc` of an object from a free block. -/
lemma kzalloc_found {A B : List Block} {b : Block} (hi : HeapInv h pages (A ++ b :: B))
    (hsize : size ∈ objectSizes) (hfit : Fits (heapAlignUp size).toNat b)
    (hrun : findBlock h (heapAlignUp size) = .ok (blockAt b)) (s : Phys) :
    ∃ h', kzalloc h s size = .ok (blockAt b + heapHeaderSize, h', s) ∧
      HeapInv h' pages (A ++ (BlockList.carve 32 16 b (heapAlignUp size).toNat ++ B)) := by
  obtain ⟨h0, hle, -, -⟩ := objectSizes_le hsize
  obtain ⟨h₁, hmalloc, hi⟩ := kmalloc_found (s := s) hi h0 hfit hrun
  obtain ⟨n, hcarve, hn, -⟩ := live_carve 32 16 hfit.2
  have hmem : (⟨b.addr, n, false⟩ : Block) ∈
      live (A ++ (BlockList.carve 32 16 b (heapAlignUp size).toNat ++ B)) := by
    rw [live_append, live_append, hcarve]
    simp
  obtain ⟨hzalloc, hi'⟩ := kzalloc_of_kmalloc hi (mem_live.mp hmem).1
    ((le_heapAlignUp (by omega)).trans hn) hmalloc
  exact ⟨_, hzalloc, hi'⟩

/-- The block of a small object has little waste. -/
lemma RoomyBlocks.alloc (hr : RoomyBlocks frame ptrs h pages L) (hlen : ptrs.length ≤ 20)
    (hsize : size ∈ objectSizes) (s : Phys) :
    ∃ ptr h' L', kzalloc h s size = .ok (ptr, h', s) ∧ ptr ≠ 0#64 ∧
      RoomyBlocks frame (ptr :: ptrs) h' pages L' := by
  obtain ⟨-, -, -, hround⟩ := objectSizes_le hsize
  rcases findBlock_spec hr.inv.list (heapAlignUp size) with
    ⟨A, b, B, rfl, hfit, -, hrun⟩ | ⟨hno, -⟩
  swap
  · obtain ⟨b, hb, hfit⟩ := hr.exists_fits hlen hround
    exact absurd hfit (hno b hb)
  obtain ⟨h', hzalloc, hi'⟩ := kzalloc_found hr.inv hsize hfit hrun s
  obtain ⟨n, hcarve, hn, hn'⟩ := live_carve 32 16 hfit.2
  have hlive : live (A ++ (BlockList.carve 32 16 b (heapAlignUp size).toNat ++ B)) =
      live A ++ ⟨b.addr, n, false⟩ :: live B := by
    rw [live_append, live_append, hcarve]
    rfl
  have hold : live (A ++ b :: B) = live A ++ live B := by rw [live_append, live_cons_free hfit.1]
  have hmem : (⟨b.addr, n, false⟩ : Block) ∈
      live (A ++ (BlockList.carve 32 16 b (heapAlignUp size).toNat ++ B)) := by
    rw [hlive]
    simp
  have hhanded : ((live (A ++ (BlockList.carve 32 16 b (heapAlignUp size).toNat ++ B))).map
      payloadAt).Perm (payloadAt ⟨b.addr, n, false⟩ :: (ptrs ++ frame)) :=
    handed_insert hr.handed hold hlive
  have hfresh := (List.nodup_cons.mp (hhanded.nodup_iff.mp hi'.payloads_nodup)).1
  have hsame : ∀ c ∈ live (A ++ (BlockList.carve 32 16 b (heapAlignUp size).toNat ++ B)),
      c = ⟨b.addr, n, false⟩ ∨ c ∈ live (A ++ b :: B) := by
    intro c hc
    rw [hlive] at hc
    rw [hold]
    simp only [List.mem_append, List.mem_cons] at hc ⊢
    tauto
  refine ⟨_, _, _, hzalloc, hi'.list.payload_ne_zero (b := ⟨b.addr, n, false⟩) (mem_live.mp hmem).1,
    ⟨hi', hr.page, hhanded, fun c hc => ?_, fun c hc hf => ?_, hr.few⟩⟩
  · rcases hsame c hc with rfl | hc
    · dsimp only
      omega
    · exact hr.sizes c hc
  · rcases hsame c hc with rfl | hc
    · exact absurd (List.mem_append_right ptrs hf) hfresh
    · exact hr.frame_sizes c hc hf

/-- A roomy heap serves a user task without growing. -/
lemma roomyBlocks_spec (frame pages : List Word) :
    HeapSpec (fun h _ ptrs => ∃ L, RoomyBlocks frame ptrs h pages L) (· ≤ 20) True where
  nodup := fun ⟨_, hr⟩ =>
    (List.nodup_append.mp (hr.handed.nodup_iff.mp hr.inv.payloads_nodup)).1
  ne_zero := fun ⟨_, hr⟩ h0 =>
    hr.inv.zero_not_handed hr.handed (List.mem_append_left _ h0)
  perm := fun ⟨L, hr⟩ hp =>
    ⟨L, { hr with handed := hr.handed.trans (hp.append_right _) }⟩
  alloc := by
    rintro h s ptrs size ⟨L, hr⟩ hlen hsize
    obtain ⟨ptr, h', L', hrun, hptr, hr'⟩ := hr.alloc hlen hsize s
    refine ⟨ptr, h', s, hrun, ?_, Grown.refl s, fun h0 => absurd h0 hptr, fun _ => ⟨hptr, rfl⟩⟩
    rw [handOut, if_neg hptr]
    exact ⟨L', hr'⟩
  free := by
    rintro h s ptrs ptr ⟨L, hr⟩ hptr
    obtain ⟨h', L', hrun, hi, hhanded, hsub⟩ :=
      hr.inv.kfree_handed hr.handed (List.mem_append_left frame hptr)
    rw [List.erase_append_left _ hptr] at hhanded
    exact ⟨h', hrun, L', hi, hr.page, hhanded, fun c hc => hr.sizes c (hsub c hc),
      fun c hc => hr.frame_sizes c (hsub c hc), hr.few⟩

/-- Its pages need not be named. -/
lemma roomyHeap_spec (frame : List Word) : HeapSpec (RoomyHeap frame) (· ≤ 20) True where
  nodup {_ s _} := fun ⟨pages, hr⟩ => (roomyBlocks_spec frame pages).nodup (s := s) hr
  ne_zero {_ s _} := fun ⟨pages, hr⟩ => (roomyBlocks_spec frame pages).ne_zero (s := s) hr
  perm {_ s _ _} := fun ⟨pages, hr⟩ hp => ⟨pages, (roomyBlocks_spec frame pages).perm (s := s) hr hp⟩
  alloc := by
    rintro h s ptrs size ⟨pages, hr⟩ hlen hsize
    obtain ⟨ptr, h', s', hrun, hr', hrest⟩ := (roomyBlocks_spec frame pages).alloc (s := s) hr hlen hsize
    exact ⟨ptr, h', s', hrun, ⟨pages, hr'⟩, hrest⟩
  free := by
    rintro h s ptrs ptr ⟨pages, hr⟩ hptr
    obtain ⟨h', hrun, hr'⟩ := (roomyBlocks_spec frame pages).free (s := s) hr hptr
    exact ⟨h', hrun, pages, hr'⟩

end Room

/-- Every free block is almost a page and no object has a larger block than it
needs. -/
structure Spacious (h : Heap) (s : Phys) (pages ptrs : List Word) (L : List Block) (l : List Word) :
    Prop where
  state : HeapState h s pages ptrs L l
  gaps : ∀ b ∈ L, b.free = true → 4064 ≤ b.size + 64 * ptrs.length
  exact_sizes : ∀ b ∈ live L, b.size ≤ 32

section Spacious

variable {h h' : Heap} {s s' : Phys} {pages ptrs l : List Word} {A B L : List Block} {d : Block}
  {size ptr : Word}

/-- Without objects the free blocks consist of whole pages. -/
lemma HeapState.spacious (hs : HeapState h s pages [] L l) : Spacious h s pages [] L l := by
  have hnone : live L = [] := List.map_eq_nil_iff.mp hs.handed.eq_nil
  have hfree : ∀ c ∈ L, c.free = true := by
    intro c hc
    by_contra hused
    have hm := mem_live.mpr ⟨hc, by simpa using hused⟩
    rw [hnone] at hm
    cases hm
  refine ⟨hs, fun b hb _ => ?_, by simp [hnone]⟩
  have hstop : b.stop 32 = b.addr + 32 + b.size := rfl
  obtain ⟨p, hp, hpb⟩ := (hs.inv.tiles b.addr).mp ⟨b, hb, le_rfl, by omega⟩
  have hspan := spans_covered hs.inv.list.placed.sorted hs.inv.coalesced hfree hb
    (x := b.addr) (z := p.toNat) (e := p.toNat + 4096) ⟨le_rfl, by omega⟩ hpb.1 hpb.2
    fun y hy hye => (hs.inv.tiles y).mpr ⟨p, hp, hy, hye⟩
  omega

/-- Carving an object out of a large block. -/
lemma gaps_carve {k n : ℕ} (hgaps : ∀ b ∈ A ++ d :: B, b.free = true → 4064 ≤ b.size + 64 * k)
    (hsizes : ∀ b ∈ live (A ++ d :: B), b.size ≤ 32) (hd : d.free = true) (hn : n ≤ 32)
    (hk : k ≤ 6) :
    live (A ++ (BlockList.carve 32 16 d n ++ B)) = live A ++ ⟨d.addr, n, false⟩ :: live B ∧
      (∀ b ∈ A ++ (BlockList.carve 32 16 d n ++ B), b.free = true → 4064 ≤ b.size + 64 * (k + 1)) ∧
      ∀ b ∈ live (A ++ (BlockList.carve 32 16 d n ++ B)), b.size ≤ 32 := by
  have hlarge := hgaps d (by simp) hd
  have hcarve : BlockList.carve 32 16 d n =
      [⟨d.addr, n, false⟩, ⟨d.addr + 32 + n, d.size - n - 32, true⟩] := if_neg (by omega)
  have hlive : live (A ++ (BlockList.carve 32 16 d n ++ B)) = live A ++ ⟨d.addr, n, false⟩ :: live B := by
    rw [live_append, live_append, hcarve]
    rfl
  rw [live_append, live_cons_free hd] at hsizes
  refine ⟨hlive, fun b hb hf => ?_, fun b hb => ?_⟩
  · rw [hcarve] at hb
    simp only [List.mem_append, List.mem_cons, List.not_mem_nil, or_false] at hb
    rcases hb with hb | (rfl | rfl) | hb
    · have := hgaps b (by simp [hb]) hf
      omega
    · cases hf
    · dsimp only
      omega
    · have := hgaps b (by simp [hb]) hf
      omega
  · rw [hlive] at hb
    simp only [List.mem_append, List.mem_cons] at hb
    rcases hb with hb | rfl | hb
    · exact hsizes b (by simp [hb])
    · exact hn
    · exact hsizes b (by simp [hb])

/-- The next of the first objects. -/
lemma Spacious.alloc (hsp : Spacious h s pages ptrs L l) (hlen : ptrs.length ≤ 6)
    (hsize : size ∈ objectSizes) (hrun : kzalloc h s size = .ok (ptr, h', s')) (hptr : ptr ≠ 0#64) :
    ∃ pages' L' l', Spacious h' s' pages' (ptr :: ptrs) L' l' := by
  obtain ⟨h0, hle, -, hround⟩ := objectSizes_le hsize
  have hs := hsp.state
  rcases findBlock_spec hs.inv.list (heapAlignUp size) with
    ⟨A, b, B, rfl, hfit, -, hfind⟩ | ⟨-, hfind⟩
  · obtain ⟨h₁, hzalloc, hi⟩ := kzalloc_found hs.inv hsize hfit hfind s
    obtain ⟨rfl, rfl, rfl⟩ : blockAt b + heapHeaderSize = ptr ∧ h₁ = h' ∧ s = s' := by
      simpa using hzalloc.symm.trans hrun
    obtain ⟨hlive, hgaps, hsizes⟩ := gaps_carve hsp.gaps hsp.exact_sizes hfit.1 hround hlen
    refine ⟨pages, _, l, ⟨hi, hs.free, hs.apart, ?_⟩, hgaps, hsizes⟩
    refine handed_insert (b := ⟨b.addr, (heapAlignUp size).toNat, false⟩) hs.handed ?_ hlive
    rw [live_append, live_cons_free hfit.1]
  · cases l with
    | nil =>
      have hnone := kzalloc_unserved (s := s) h0 hfind (.inl hs.free.chain)
      rw [hnone] at hrun
      cases hrun
      exact absurd rfl hptr
    | cons p l =>
      have hpl : p ∉ pages := fun hp => hs.apart p hp (by simp)
      obtain ⟨h₁, h₂, s₂, A, d, B, hmalloc, hi₁, hdf, hds, hlive₁, hold, hi₂, hfree, -, -⟩ :=
        kmalloc_grown hs.inv hs.free hpl h0 (by omega) hfind
      have hgaps₁ : ∀ b ∈ A ++ d :: B, b.free = true → 4064 ≤ b.size + 64 * ptrs.length := by
        intro b hb hf
        by_cases hbd : b = d
        · subst hbd
          omega
        · refine hsp.gaps b (hold b ?_) hf
          simpa [hbd] using hb
      have hsizes₁ : ∀ b ∈ live (A ++ d :: B), b.size ≤ 32 := hlive₁ ▸ hsp.exact_sizes
      obtain ⟨hlive, hgaps, hsizes⟩ := gaps_carve hgaps₁ hsizes₁ hdf hround hlen
      rw [live_append, live_cons_free hdf] at hlive₁
      have hmem : (⟨d.addr, (heapAlignUp size).toNat, false⟩ : Block) ∈
          live (A ++ (BlockList.carve 32 16 d (heapAlignUp size).toNat ++ B)) := by
        rw [hlive]
        simp
      obtain ⟨hzalloc, hi⟩ := kzalloc_of_kmalloc hi₂ (mem_live.mp hmem).1
        (le_heapAlignUp (by omega)) hmalloc
      rw [hrun] at hzalloc
      cases hzalloc
      have hnd := List.nodup_cons.mp hs.free.nodup
      exact ⟨p :: pages, _, l, ⟨hi, hfree,
        List.forall_mem_cons.mpr ⟨hnd.1, fun q hq hql => hs.apart q hq (List.mem_cons_of_mem p hql)⟩,
        handed_insert hs.handed hlive₁.symm hlive⟩, hgaps, hsizes⟩

end Spacious

end Platinum
