import Platinum.HeapRun

/-!
# Freeing in any order

What is left of a heap after some pointers are freed depends on the pages and on
the blocks still handed out only.
-/
namespace Platinum
open ByteMemory BlockList

/-- `n` pages in a row from `p` on, and neither the one before nor the one behind. -/
structure PageRun (pages : List Word) (p : Word) (n : ℕ) : Prop where
  pos : 0 < n
  mem : ∀ i < n, ∃ q ∈ pages, q.toNat = p.toNat + 4096 * i
  first : ∀ q ∈ pages, q.toNat + 4096 ≠ p.toNat
  last : ∀ q ∈ pages, q.toNat ≠ p.toNat + 4096 * n

section Order

variable {h h' : Heap} {s s' : Phys} {b c : Block} {L L' : List Block} {pages ptrs order l : List Word}
  {size p : Word}

/-- The blocks of a heap are determined by its pages and what is handed out. -/
lemma HeapInv.blocks_eq (hi : HeapInv h pages L) (hi' : HeapInv h' pages L')
    (hlive : ∀ b, b ∈ live L ↔ b ∈ live L') : L = L' := by
  refine eq_of_covered (by decide : 0 < 32) hi.list.placed.sorted hi.coalesced
    hi'.list.placed.sorted hi'.coalesced ?_ hlive
  ext x
  rw [hi.tiles, hi'.tiles]

/-- Freeing takes the block of the pointer from those handed out. -/
lemma HeapInv.kfree_live (hi : HeapInv h pages L) (hb : b ∈ live L) :
    ∃ h' L', Platinum.kfree h (payloadAt b) = .ok h' ∧ HeapInv h' pages L' ∧
      ∀ c, c ∈ live L' ↔ c ∈ live L ∧ payloadAt c ≠ payloadAt b := by
  obtain ⟨hbL, hused⟩ := mem_live.mp hb
  obtain ⟨A, B, rfl⟩ := List.append_of_mem hbL
  obtain ⟨h', L', hrun, hinv, hlive⟩ := hi.kfree hused
  refine ⟨h', L', hrun, hinv, fun c => ?_⟩
  rw [hlive]
  exact hi.mem_live_split (by rw [live_append, live_cons_used hused]) c

/-- Freeing several pointers in some order. -/
lemma HeapInv.kfree_all (hi : HeapInv h pages L) (hnd : order.Nodup)
    (hsub : ∀ ptr ∈ order, ∃ b ∈ live L, payloadAt b = ptr) :
    ∃ h' L', order.foldlM Platinum.kfree h = .ok h' ∧ HeapInv h' pages L' ∧
      ∀ c, c ∈ live L' ↔ c ∈ live L ∧ payloadAt c ∉ order := by
  induction order generalizing h L with
  | nil => exact ⟨h, L, rfl, hi, by simp⟩
  | cons ptr order ih =>
    obtain ⟨hnot, hrest⟩ := List.nodup_cons.mp hnd
    obtain ⟨b, hb, rfl⟩ := hsub ptr (by simp)
    obtain ⟨h₁, L₁, hrun, hi₁, hlive₁⟩ := hi.kfree_live hb
    obtain ⟨h', L', hruns, hi', hlive⟩ := ih hi₁ hrest fun ptr hptr => by
      obtain ⟨c, hc, rfl⟩ := hsub ptr (by simp [hptr])
      exact ⟨c, (hlive₁ c).mpr ⟨hc, fun he => hnot (he ▸ hptr)⟩, rfl⟩
    refine ⟨h', L', ?_, hi', fun c => ?_⟩
    · rw [List.foldlM_cons, hrun]
      exact hruns
    · rw [hlive, hlive₁, List.mem_cons]
      tauto

/-- A page of the heap, by one of its addresses. -/
lemma page_of_covered {x : ℕ} (hi : HeapInv h pages L) (hx : x ∈ covered 32 L) :
    ∃ q ∈ pages, q.toNat ≤ x ∧ x < q.toNat + 4096 ∧ q.toNat % 4096 = 0 := by
  obtain ⟨q, hq, hqx⟩ := (hi.tiles x).mp hx
  exact ⟨q, hq, hqx.1, hqx.2, (hi.page q hq).aligned⟩

/-- Where nothing is handed out, a free block is a maximal run of pages. -/
lemma HeapInv.block_pageRun (hi : HeapInv h pages L) (hfree : ∀ c ∈ L, c.free = true) (hb : b ∈ L) :
    ∃ p n, PageRun pages p n ∧ b = ⟨p.toNat, 4096 * n - 32, true⟩ := by
  have hstop : b.stop 32 = b.addr + 32 + b.size := rfl
  have hspan {x z e : ℕ} (hx : b.addr ≤ x ∧ x < b.stop 32) (hzx : z ≤ x) (hxe : x < e)
      (hcov : ∀ y, z ≤ y → y < e → y ∈ covered 32 L) : b.addr ≤ z ∧ e ≤ b.stop 32 :=
    spans_covered hi.list.placed.sorted hi.coalesced hfree hb hx hzx hxe hcov
  have hin {y : ℕ} (hy : b.addr ≤ y) (hye : y < b.stop 32) : y ∈ covered 32 L := ⟨b, hb, hy, hye⟩
  have honPage {q : Word} (hq : q ∈ pages) {y : ℕ} (hy : q.toNat ≤ y) (hye : y < q.toNat + 4096) :
      y ∈ covered 32 L := (hi.tiles y).mpr ⟨q, hq, hy, hye⟩
  obtain ⟨p, hp, hpx, hpe, hpa⟩ := page_of_covered hi (hin le_rfl (by omega))
  obtain ⟨q, hq, hqx, hqe, hqa⟩ := page_of_covered hi (hin (y := b.stop 32 - 1) (by omega) (by omega))
  have hstart := (hspan ⟨le_rfl, by omega⟩ hpx hpe fun y hy hye => honPage hp hy hye).1
  have hend := (hspan ⟨by omega, by omega⟩ hqx hqe fun y hy hye => honPage hq hy hye).2
  refine ⟨p, (q.toNat + 4096 - p.toNat) / 4096, ⟨by omega, fun i hi' => ?_, fun r hr he => ?_,
    fun r hr he => ?_⟩, ?_⟩
  · obtain ⟨r, hr, hrx, hre, hra⟩ := page_of_covered hi
      (hin (y := p.toNat + 4096 * i) (by omega) (by omega))
    exact ⟨r, hr, by omega⟩
  · have hle := (hspan (z := b.addr - 1) (e := b.addr + 1) ⟨le_rfl, by omega⟩ (by omega) (by omega)
      fun y hy hye => ?_).1
    · omega
    · by_cases hyb : y = b.addr
      · exact hin hyb.ge (by omega)
      · exact honPage hr (by omega) (by omega)
  · have hle := (hspan (x := b.stop 32 - 1) (z := b.stop 32 - 1) (e := b.stop 32 + 1)
      ⟨by omega, by omega⟩ (by omega) (by omega) fun y hy hye => ?_).2
    · omega
    · by_cases hyb : y = b.stop 32
      · exact honPage hr (by omega) (by omega)
      · exact hin (by omega) (by omega)
  · have haddr : b.addr = p.toNat := by omega
    have hsize : b.size = 4096 * ((q.toNat + 4096 - p.toNat) / 4096) - 32 := by omega
    calc b = ⟨b.addr, b.size, b.free⟩ := rfl
      _ = ⟨p.toNat, 4096 * ((q.toNat + 4096 - p.toNat) / 4096) - 32, true⟩ := by
        rw [haddr, hsize, hfree b hb]

/-- Where nothing is handed out, the blocks are the maximal runs of pages. -/
lemma HeapInv.blocks_pageRuns (hi : HeapInv h pages L) (hfree : ∀ c ∈ L, c.free = true) (b : Block) :
    b ∈ L ↔ ∃ p n, PageRun pages p n ∧ b = ⟨p.toNat, 4096 * n - 32, true⟩ := by
  refine ⟨hi.block_pageRun hfree, ?_⟩
  rintro ⟨p, n, hrun, rfl⟩
  obtain ⟨q, hq, hqp⟩ := hrun.mem 0 hrun.pos
  obtain ⟨c, hc, hcp⟩ : p.toNat ∈ covered 32 L :=
    (hi.tiles _).mpr ⟨q, hq, by unfold OnPage; omega⟩
  obtain ⟨p', n', hrun', rfl⟩ := hi.block_pageRun hfree hc
  have hstop : Block.stop 32 ⟨p'.toNat, 4096 * n' - 32, true⟩ =
      p'.toNat + 32 + (4096 * n' - 32) := rfl
  have hpos := hrun'.pos
  obtain ⟨q', hq', hqp'⟩ := hrun'.mem 0 hpos
  have haligned := (hi.page q hq).aligned
  have haligned' := (hi.page q' hq').aligned
  dsimp only at hcp
  -- both runs are maximal
  have hp : p'.toNat = p.toNat := by
    by_contra hne
    obtain ⟨r, hr, hrp⟩ := hrun'.mem ((p.toNat - p'.toNat) / 4096 - 1) (by omega)
    exact hrun.first r hr (by omega)
  have hn : n' = n := by
    rcases lt_trichotomy n' n with hlt | he | hlt
    · obtain ⟨r, hr, hrp⟩ := hrun.mem n' hlt
      exact absurd (by omega) (hrun'.last r hr)
    · exact he
    · obtain ⟨r, hr, hrp⟩ := hrun'.mem n hlt
      exact absurd (by omega) (hrun.last r hr)
  rw [← hp, ← hn]
  exact hc

/-- Taking back what was just handed out. -/
lemma HeapState.kmalloc_kfree (hs : HeapState h s pages ptrs L l)
    (hrun : kmalloc h s size = .ok (p, h', s')) (hsame : pagesTaken s s' = []) :
    ∃ h'', Platinum.kfree h' p = .ok h'' ∧ HeapList h'' L := by
  by_cases h0 : size = 0#64
  · rw [kmalloc, if_pos h0] at hrun
    cases hrun
    exact ⟨h, if_pos rfl, hs.inv.list⟩
  have hout := kmalloc_spec hs.inv hs.free hs.apart h0
  generalize kmalloc h s size = x at hout hrun
  cases hout with
  | none hfit hno =>
    cases hrun
    exact ⟨h, if_pos rfl, hs.inv.list⟩
  | @found h₁ C D L' b hfit hi hlive hlive' hb hn =>
    cases hrun
    obtain ⟨h'', L'', hfree, hi'', hlive''⟩ := hi.kfree_live (b := b) (by rw [hlive']; simp)
    refine ⟨h'', hfree, ?_⟩
    have heq : L'' = L := hi''.blocks_eq hs.inv fun c => by
      rw [hlive'', ← hi.mem_live_split hlive', hlive]
    exact heq ▸ hi''.list
  | grown hfit hl hn hi hlive hlive' hb hsize hfree =>
    cases hrun
    subst hl
    rw [pagesTaken_cons hs.free hfree] at hsame
    cases hsame

end Order

/-- In every heap that a run with clears inside their blocks reaches, the order in which
pointers are freed does not matter, nothing stays split, and freeing undoes `kmalloc`. -/
theorem heapFree_confluent {h : Heap} {s : Phys} {pages ptrs : List Word}
    (run : HeapRun KzallocInBlock h s pages ptrs) :
    (∀ order order' : List Word, order.Nodup → order ⊆ ptrs → order.Perm order' →
      ∃ h₁ h₂ L, order.foldlM kfree h = .ok h₁ ∧ order'.foldlM kfree h = .ok h₂ ∧
        HeapList h₁ L ∧ HeapList h₂ L) ∧
    (∀ order : List Word, order.Perm ptrs → ∃ h' L, order.foldlM kfree h = .ok h' ∧ HeapList h' L ∧
      ∀ b, b ∈ L ↔ ∃ p n, PageRun pages p n ∧ b = ⟨p.toNat, 4096 * n - 32, true⟩) ∧
    ∀ size p h' s', kmalloc h s size = .ok (p, h', s') → pagesTaken s s' = [] →
      ∃ h'' L, HeapList h L ∧ kfree h' p = .ok h'' ∧ HeapList h'' L := by
  obtain ⟨L, l, hs⟩ := heapRun_state run
  have hnd : ptrs.Nodup := hs.handed.nodup_iff.mp hs.inv.payloads_nodup
  have hblock {order : List Word} (hsub : order ⊆ ptrs) :
      ∀ ptr ∈ order, ∃ b ∈ live L, payloadAt b = ptr := fun ptr hptr =>
    List.mem_map.mp (hs.handed.mem_iff.mpr (hsub hptr))
  refine ⟨fun order order' hnd₁ hsub hperm => ?_, fun order hperm => ?_,
    fun size p h' s' hrun hsame => ?_⟩
  · obtain ⟨h₁, L₁, hrun₁, hi₁, hlive₁⟩ := hs.inv.kfree_all hnd₁ (hblock hsub)
    obtain ⟨h₂, L₂, hrun₂, hi₂, hlive₂⟩ := hs.inv.kfree_all (hperm.nodup_iff.mp hnd₁)
      (hblock (List.Subset.trans hperm.symm.subset hsub))
    have heq : L₁ = L₂ := hi₁.blocks_eq hi₂ fun b => by rw [hlive₁, hlive₂, hperm.mem_iff]
    exact ⟨h₁, h₂, L₁, hrun₁, hrun₂, hi₁.list, heq ▸ hi₂.list⟩
  · obtain ⟨h', L', hrun, hi, hlive⟩ := hs.inv.kfree_all (hperm.nodup_iff.mpr hnd)
      (hblock hperm.subset)
    refine ⟨h', L', hrun, hi.list, hi.blocks_pageRuns fun c hc => ?_⟩
    by_contra hused
    obtain ⟨hcL, hnot⟩ := (hlive c).mp (mem_live.mpr ⟨hc, by simpa using hused⟩)
    exact hnot (hperm.mem_iff.mpr (hs.handed.mem_iff.mp (List.mem_map_of_mem hcL)))
  · obtain ⟨h'', hfree, hl⟩ := hs.kmalloc_kfree hrun hsame
    exact ⟨h'', L, hs.inv.list, hfree, hl⟩

/-- Two blocks of one page, freed in both orders. -/
theorem heapFree_confluent_sample : ∃ h h₁ h₂ L,
    [0x02000020#64, 0x02000070#64].foldlM kfree h = .ok h₁ ∧
      [0x02000070#64, 0x02000020#64].foldlM kfree h = .ok h₂ ∧ HeapList h₁ L ∧ HeapList h₂ L := by
  obtain ⟨⟨p, h, s⟩, hr⟩ := emptyHeap_state.kmalloc_ok 48#64
  have hp : (kmalloc emptyHeap onePage 48#64).map (fun r => r.1) = .ok 0x02000020#64 := by rfl
  have hq : ((kmalloc emptyHeap onePage 48#64).bind fun r => kmalloc r.2.1 r.2.2 16#64).map
      (fun r => r.1) = .ok 0x02000070#64 := by rfl
  rw [hr] at hp hq
  obtain rfl : p = 0x02000020#64 := Except.ok.inj hp
  have hq : (kmalloc h s 16#64).map (fun r => r.1) = .ok 0x02000070#64 := hq
  have hrun : HeapRun KzallocInBlock h s _ [0x02000020#64] := .kmalloc (.init onePage_free) hr
  obtain ⟨⟨q, h', s'⟩, hr'⟩ := (heapRun_state hrun).choose_spec.choose_spec.kmalloc_ok 16#64
  rw [hr'] at hq
  obtain rfl : q = 0x02000070#64 := Except.ok.inj hq
  obtain ⟨h₁, h₂, L, hrun₁, hrun₂, hl₁, hl₂⟩ := (heapFree_confluent (hrun.kmalloc hr')).1
    [0x02000020#64, 0x02000070#64] [0x02000070#64, 0x02000020#64] (by decide)
    (List.Perm.swap _ _ _).subset (List.Perm.swap _ _ _)
  exact ⟨h', h₁, h₂, L, hrun₁, hrun₂, hl₁, hl₂⟩

/-- 2³² bytes are rounded to none; clearing them unlinks the rest of the page for good. -/
theorem heapFree_cut : ¬ ∀ h s pages ptrs, HeapRun (fun _ _ _ => True) h s pages ptrs →
    ∀ order : List Word, order.Perm ptrs → ∃ h' L, order.foldlM kfree h = .ok h' ∧ HeapList h' L ∧
      ∀ b, b ∈ L ↔ ∃ p n, PageRun pages p n ∧ b = ⟨p.toNat, 4096 * n - 32, true⟩ := by
  intro hclaim
  obtain ⟨⟨p, h, s⟩, hr⟩ := emptyHeap_state.kzalloc_ok 0x100000000#64
  have hp : (kzalloc emptyHeap onePage 0x100000000#64).map (fun r => r.1) = .ok 0x02000020#64 := by rfl
  have htaken : (kzalloc emptyHeap onePage 0x100000000#64).map (fun r => pagesTaken onePage r.2.2) =
      .ok [0x02000000#64] := by rfl
  have hsize : ((kzalloc emptyHeap onePage 0x100000000#64).bind fun r => kfree r.2.1 r.1).map
      (fun h => (h.block 0x02000000#64).size) = .ok 0#64 := by rfl
  rw [hr] at hp htaken hsize
  obtain rfl : p = 0x02000020#64 := Except.ok.inj hp
  have htaken : pagesTaken onePage s = [0x02000000#64] := Except.ok.inj htaken
  have hsize : (kfree h 0x02000020#64).map (fun h => (h.block 0x02000000#64).size) = .ok 0#64 := hsize
  obtain ⟨h', L, hfree, hl, hblocks⟩ :=
    hclaim _ _ _ _ (.kzalloc (.init onePage_free) trivial hr) [0x02000020#64] (List.Perm.refl _)
  have hfree : kfree h 0x02000020#64 = .ok h' := by
    rw [List.foldlM_cons] at hfree
    obtain ⟨h₁, hfree, hrest⟩ := bind_eq_ok.mp hfree
    cases hrest
    exact hfree
  rw [hfree] at hsize
  have hsize : (h'.block 0x02000000#64).size = 0#64 := Except.ok.inj hsize
  have hmem : (⟨0x02000000, 4064, true⟩ : Block) ∈ L := by
    refine (hblocks _).mpr ⟨0x02000000#64, 1, ⟨by omega, ?_, ?_, ?_⟩, rfl⟩ <;> rw [htaken]
    · intro i hi
      exact ⟨0x02000000#64, by simp, by simp [Nat.lt_one_iff.mp hi]⟩
    · simp
    · simp
  obtain ⟨A, B, rfl⟩ := List.append_of_mem hmem
  have hheader : h'.block 0x02000000#64 = _ := hl.header
  rw [hheader] at hsize
  have hsize : (4064#64 : Word) = 0#64 := hsize
  exact absurd hsize (by decide)

end Platinum
