import Platinum.HeapInvariant
import Mathlib.Data.List.Perm.Basic

/-!
# Heap calls in any order

`HeapRun` is every order of heap calls, the page allocator being used by others
in between. `pages` are the pages the heap has grown by and `ptrs` the pointers
it has handed out and not taken back.
-/
namespace Platinum
open ByteMemory BlockList

/-- The head of the free list, if the call took it. -/
def pagesTaken (s s' : Phys) : List Word :=
  if s'.freeListHead = s.freeListHead then [] else [s.freeListHead]

/-- The pointers in use after a call that returned `ptr`, null for none. -/
def handOut (ptr : Word) (ptrs : List Word) : List Word := if ptr = 0#64 then ptrs else ptr :: ptrs

/-- Heap calls in any order; `clears` restricts the calls of `kzalloc`. -/
inductive HeapRun (clears : Heap → Phys → Word → Prop) : Heap → Phys → List Word → List Word → Prop
  | init {h : Heap} {s : Phys} {l : List Word} (hfree : FreeList s l) :
      HeapRun clears (heapInitialize h) s [] []
  | kmalloc {h h' : Heap} {s s' : Phys} {pages ptrs : List Word} {size ptr : Word}
      (run : HeapRun clears h s pages ptrs) (hcall : kmalloc h s size = .ok (ptr, h', s')) :
      HeapRun clears h' s' (pagesTaken s s' ++ pages) (handOut ptr ptrs)
  | kzalloc {h h' : Heap} {s s' : Phys} {pages ptrs : List Word} {size ptr : Word}
      (run : HeapRun clears h s pages ptrs) (hclear : clears h s size)
      (hcall : kzalloc h s size = .ok (ptr, h', s')) :
      HeapRun clears h' s' (pagesTaken s s' ++ pages) (handOut ptr ptrs)
  | kfree {h h' : Heap} {s : Phys} {pages ptrs : List Word} {ptr : Word}
      (run : HeapRun clears h s pages ptrs) (hptr : ptr ∈ ptrs) (hcall : kfree h ptr = .ok h') :
      HeapRun clears h' s pages (ptrs.erase ptr)
  | other {h : Heap} {s s' : Phys} {pages ptrs l : List Word} (run : HeapRun clears h s pages ptrs)
      (hfree : FreeList s' l) (hd : ∀ p ∈ pages, p ∉ l) : HeapRun clears h s' pages ptrs

/-- Rounding keeps the size, or no block and no page serves the rounded one. -/
def KzallocInBlock (h : Heap) (s : Phys) (size : Word) : Prop :=
  size.toNat ≤ 0xFFFFFFF0 ∨ findBlock h (heapAlignUp size) = .ok 0#64 ∧
    (s.freeListHead = 0#64 ∨ heapPageSize - heapHeaderSize < heapAlignUp size)

/-- The pointer to a block's payload. -/
def payloadAt (b : Block) : Word := blockAt b + heapHeaderSize

/-- The heap is sound, apart from the free pages, and has handed out `ptrs`. -/
structure HeapState (h : Heap) (s : Phys) (pages ptrs : List Word) (L : List Block) (l : List Word) :
    Prop where
  inv : HeapInv h pages L
  free : FreeList s l
  apart : ∀ p ∈ pages, p ∉ l
  handed : ((live L).map payloadAt).Perm ptrs

section Run

variable {clears : Heap → Phys → Word → Prop} {h h' : Heap} {s s' : Phys} {L : List Block}
  {pages ptrs l : List Word} {size ptr : Word} {n : ℕ}

/-- A call takes the page it grows the heap by. -/
lemma pagesTaken_cons {p : Word} {l' : List Word} (hs : FreeList s (p :: l')) (hs' : FreeList s' l') :
    pagesTaken s s' = [p] := by
  have hhead : s.freeListHead = p := hs.chain.1
  have hne : s'.freeListHead ≠ p := by
    cases l' with
    | nil =>
      have h0 : s'.freeListHead = 0#64 := hs'.chain
      rw [h0]
      exact (hs.pages p (by simp)).ne_zero.symm
    | cons q l' =>
      have hq : s'.freeListHead = q := hs'.chain.1
      rintro he
      exact (List.nodup_cons.mp hs.nodup).1 (by simp [← he, hq])
  rw [pagesTaken, hhead, if_neg hne]

@[simp] lemma pagesTaken_self (s : Phys) : pagesTaken s s = [] := by simp [pagesTaken]

lemma handed_insert {C D L' : List Block} {b : Block} (hh : ((live L).map payloadAt).Perm ptrs)
    (hL : live L = C ++ D) (hL' : live L' = C ++ b :: D) :
    ((live L').map payloadAt).Perm (payloadAt b :: ptrs) := by
  rw [hL'] at *
  rw [hL] at hh
  exact (List.perm_middle.map payloadAt).trans (hh.cons _)

/-- A heap says what it has handed out. -/
lemma HeapState.handed_unique {pages' ptrs' l' : List Word} {L' : List Block}
    (hs : HeapState h s pages ptrs L l) (hs' : HeapState h s' pages' ptrs' L' l') :
    ptrs.Perm ptrs' := by
  obtain rfl := hs.inv.list.unique hs'.inv.list
  exact hs.handed.symm.trans hs'.handed

/-- An allocation keeps the heap sound. -/
lemma HeapState.malloc (hs : HeapState h s pages ptrs L l)
    (hout : MallocOutcome h s pages l L n (.ok (ptr, h', s'))) :
    ∃ L' l', HeapState h' s' (pagesTaken s s' ++ pages) (handOut ptr ptrs) L' l' := by
  generalize hx : (.ok (ptr, h', s') : Run (Word × Heap × Phys)) = x at hout
  cases hout with
  | none hfit hno =>
    cases hx
    exact ⟨L, l, by simpa [handOut] using hs⟩
  | @found h₁ C D L' b hfit inv hlive hlive' hb hsize =>
    cases hx
    have h0 : payloadAt b ≠ 0#64 :=
      inv.list.payload_ne_zero (mem_live.mp (by rw [hlive']; simp)).1
    refine ⟨L', l, ⟨by simpa using inv, hs.free, by simpa using hs.apart, ?_⟩⟩
    rw [← payloadAt, handOut, if_neg h0]
    exact handed_insert hs.handed hlive hlive'
  | @grown h₁ s₁ p l' C D L' b hfit hl hn inv hlive hlive' hb hsize free mem globals =>
    cases hx
    subst hl
    have h0 : payloadAt b ≠ 0#64 :=
      inv.list.payload_ne_zero (mem_live.mp (by rw [hlive']; simp)).1
    have hnd := List.nodup_cons.mp hs.free.nodup
    rw [pagesTaken_cons hs.free free]
    refine ⟨L', l', ⟨inv, free, List.forall_mem_cons.mpr ⟨hnd.1, fun q hq hql => ?_⟩, ?_⟩⟩
    · exact hs.apart q hq (List.mem_cons_of_mem p hql)
    · rw [← payloadAt, handOut, if_neg h0]
      exact handed_insert hs.handed hlive hlive'

lemma MallocOutcome.ok {x : Run (Word × Heap × Phys)} (hout : MallocOutcome h s pages l L n x) :
    ∃ r, x = .ok r := by
  cases hout <;> exact ⟨_, rfl⟩

lemma HeapState.kmalloc_ok (hs : HeapState h s pages ptrs L l) (size : Word) :
    ∃ r, kmalloc h s size = .ok r := by
  by_cases h0 : size = 0#64
  · exact ⟨_, if_pos h0⟩
  · exact (kmalloc_spec hs.inv hs.free hs.apart h0).ok

/-- Clearing never fails, whatever it overwrites. -/
lemma HeapState.kzalloc_ok (hs : HeapState h s pages ptrs L l) (size : Word) :
    ∃ r, kzalloc h s size = .ok r := by
  obtain ⟨⟨ptr, h', s'⟩, hr⟩ := hs.kmalloc_ok size
  unfold kzalloc
  rw [hr, ok_bind]
  dsimp only
  split_ifs <;> exact ⟨_, rfl⟩

/-- A request that finds neither a block nor a page. -/
lemma kmalloc_unserved (h0 : size ≠ 0#64) (hfind : findBlock h (heapAlignUp size) = .ok 0#64)
    (hno : s.freeListHead = 0#64 ∨ heapPageSize - heapHeaderSize < heapAlignUp size) :
    kmalloc h s size = .ok (0#64, h, s) := by
  have hgrow : growHeap h s (heapAlignUp size) = .ok (0#64, h, s) := by
    unfold growHeap
    dsimp only
    by_cases hc : heapPageSize - heapHeaderSize < heapAlignUp size
    · rw [if_pos hc]
    · rw [if_neg hc]
      simp [pallocAlloc, hno.resolve_right hc]
  unfold kmalloc
  simp [h0, hfind, hgrow]

lemma kzalloc_unserved (h0 : size ≠ 0#64) (hfind : findBlock h (heapAlignUp size) = .ok 0#64)
    (hno : s.freeListHead = 0#64 ∨ heapPageSize - heapHeaderSize < heapAlignUp size) :
    kzalloc h s size = .ok (0#64, h, s) := by
  unfold kzalloc
  rw [kmalloc_unserved h0 hfind hno, ok_bind]
  exact if_pos rfl

/-- One freed pointer leaves the list of those handed out, and no live block changes. -/
lemma HeapInv.kfree_handed (hi : HeapInv h pages L) (hh : ((live L).map payloadAt).Perm ptrs)
    (hptr : ptr ∈ ptrs) :
    ∃ h' L', Platinum.kfree h ptr = .ok h' ∧ HeapInv h' pages L' ∧
      ((live L').map payloadAt).Perm (ptrs.erase ptr) ∧ ∀ b ∈ live L', b ∈ live L := by
  obtain ⟨b, hb, rfl⟩ := List.mem_map.mp (hh.mem_iff.mpr hptr)
  obtain ⟨hbL, hused⟩ := mem_live.mp hb
  obtain ⟨A, B, rfl⟩ := List.append_of_mem hbL
  obtain ⟨h', L', hrun, hinv, hlive⟩ := hi.kfree hused
  rw [live_append, live_cons_used hused] at hh ⊢
  refine ⟨h', L', hrun, hinv, ?_, fun c hc => ?_⟩
  · rw [List.map_append, List.map_cons] at hh
    have herase := (List.perm_middle.symm.trans hh).erase (payloadAt b)
    rw [List.erase_cons_head] at herase
    rw [hlive, List.map_append]
    exact herase
  · rw [hlive] at hc
    simp only [List.mem_append, List.mem_cons] at hc ⊢
    tauto

lemma HeapState.kfree (hs : HeapState h s pages ptrs L l) (hptr : ptr ∈ ptrs) :
    ∃ h' L', Platinum.kfree h ptr = .ok h' ∧ HeapState h' s pages (ptrs.erase ptr) L' l := by
  obtain ⟨h', L', hrun, hinv, hh, -⟩ := hs.inv.kfree_handed hs.handed hptr
  exact ⟨h', L', hrun, ⟨hinv, hs.free, hs.apart, hh⟩⟩

/-- Different blocks have different payloads. -/
lemma HeapInv.payloads_nodup (hi : HeapInv h pages L) : ((live L).map payloadAt).Nodup := by
  refine (List.Nodup.of_map BitVec.toNat) ?_
  rw [List.map_map, List.Nodup, List.pairwise_map]
  have hplaced := hi.list.placed
  have hsorted : (live L).Pairwise (Before 32) := hplaced.sorted.filter _
  refine hsorted.imp_of_mem fun {b c} hb hc hbc => ?_
  have hb' := hplaced.bound b (mem_live.mp hb).1
  have hc' := hplaced.bound c (mem_live.mp hc).1
  have hsz : heapHeaderSize.toNat = 32 := rfl
  simp only [Before, Block.stop] at hbc hb' hc'
  simp only [Function.comp_apply, payloadAt, BitVec.toNat_add, hplaced.toNat (mem_live.mp hb).1,
    hplaced.toNat (mem_live.mp hc).1, hsz]
  omega

/-- The blocks beside one that is handed out. -/
lemma HeapInv.mem_live_split {C D : List Block} {b : Block} (hi : HeapInv h pages L)
    (hlive : live L = C ++ b :: D) (c : Block) :
    c ∈ C ++ D ↔ c ∈ live L ∧ payloadAt c ≠ payloadAt b := by
  have hnd := hi.payloads_nodup
  rw [hlive, List.map_append, List.map_cons] at hnd
  have hother := (List.nodup_cons.mp (List.perm_middle.nodup_iff.mp hnd)).1
  rw [← List.map_append] at hother
  rw [hlive]
  constructor
  · intro hc
    refine ⟨?_, fun he => hother (List.mem_map.mpr ⟨c, hc, he⟩)⟩
    simp only [List.mem_append, List.mem_cons] at hc ⊢
    tauto
  · rintro ⟨hc, hne⟩
    have hcb : c ≠ b := fun he => hne (congrArg payloadAt he)
    simp only [List.mem_append, List.mem_cons] at hc ⊢
    tauto

lemma HeapInv.zero_not_handed (hi : HeapInv h pages L)
    (hh : ((live L).map payloadAt).Perm ptrs) : 0#64 ∉ ptrs := by
  intro h0
  obtain ⟨b, hb, hb0⟩ := List.mem_map.mp (hh.mem_iff.mpr h0)
  exact hi.list.payload_ne_zero (mem_live.mp hb).1 hb0

/-- Every call keeps the heap sound. -/
theorem heapRun_state (run : HeapRun KzallocInBlock h s pages ptrs) :
    ∃ L l, HeapState h s pages ptrs L l := by
  induction run with
  | @init h s l hfree =>
    exact ⟨[], l, ⟨heapInv_nil h.block, hfree, by simp, by simp⟩⟩
  | @kmalloc h h' s s' pages ptrs size ptr run hcall ih =>
    obtain ⟨L, l, hs⟩ := ih
    by_cases h0 : size = 0#64
    · rw [kmalloc, if_pos h0] at hcall
      cases hcall
      exact ⟨L, l, by simpa [handOut] using hs⟩
    · exact hs.malloc (hcall ▸ kmalloc_spec hs.inv hs.free hs.apart h0)
  | @kzalloc h h' s s' pages ptrs size ptr run hclear hcall ih =>
    obtain ⟨L, l, hs⟩ := ih
    by_cases h0 : size = 0#64
    · rw [kzalloc, kmalloc, if_pos h0] at hcall
      cases hcall
      exact ⟨L, l, by simpa [handOut] using hs⟩
    rcases hclear with hle | ⟨hfind, hno⟩
    · exact hs.malloc (hcall ▸ kzalloc_spec hs.inv hs.free hs.apart h0 hle)
    · rw [kzalloc_unserved h0 hfind hno] at hcall
      cases hcall
      exact ⟨L, l, by simpa [handOut] using hs⟩
  | @kfree h h' s pages ptrs ptr run hptr hcall ih =>
    obtain ⟨L, l, hs⟩ := ih
    obtain ⟨h₁, L', hrun, hs'⟩ := hs.kfree hptr
    obtain rfl : h₁ = h' := Except.ok.inj (hrun.symm.trans hcall)
    exact ⟨L', l, hs'⟩
  | @other h s s' pages ptrs l run hfree hd ih =>
    obtain ⟨L, _, hs⟩ := ih
    exact ⟨L, l, ⟨hs.inv, hfree, hd, hs.handed⟩⟩

end Run

/-- In a run whose clears stay in their blocks, the blocks tile the heap's pages,
the block list is sorted, linked and coalesced, and no call fails. -/
theorem heapRun_sound {h : Heap} {s : Phys} {pages ptrs : List Word}
    (run : HeapRun KzallocInBlock h s pages ptrs) :
    (∃ L, HeapInv h pages L ∧ ((live L).map payloadAt).Perm ptrs) ∧
      (∀ size, ∃ r, kmalloc h s size = .ok r) ∧ (∀ size, ∃ r, kzalloc h s size = .ok r) ∧
      ∀ ptr ∈ ptrs, ∃ h', kfree h ptr = .ok h' := by
  obtain ⟨L, l, hs⟩ := heapRun_state run
  refine ⟨⟨L, hs.inv, hs.handed⟩, hs.kmalloc_ok, hs.kzalloc_ok, fun ptr hptr => ?_⟩
  obtain ⟨h', -, hrun, -⟩ := hs.kfree hptr
  exact ⟨h', hrun⟩

/-- A machine whose only free page is at 32 MiB. -/
def onePage : Phys :=
  pushFree
    { mem := fun _ => 0
      freeListHead := 0
      allocRegionBegin := 0
      allocRegionEnd := 0
      freePageCount := 0
      pagingKernelPml4 := 0
      cr3 := 0
      memmap := ⟨fun _ => ⟨0, 0, 0⟩, 0, 0⟩ } 0x02000000#64

lemma onePage_free : FreeList onePage [0x02000000#64] :=
  pushFree_list ⟨rfl, List.nodup_nil, by simp⟩ (by constructor <;> decide) (by simp)

/-- An empty heap. -/
def emptyHeap : Heap := heapInitialize ⟨0, fun _ => ⟨0, 0, 0, 0, 0⟩⟩

lemma emptyHeap_state : HeapState emptyHeap onePage [] [] [] [0x02000000#64] :=
  ⟨heapInv_nil _, onePage_free, by simp, by simp⟩

/-- Blocks of 48 and of 16 bytes on the first page, the first of which is given back. -/
lemma usedHeap_exists : ∃ h s, HeapRun KzallocInBlock h s [0x02000000#64] [0x02000070#64] ∧
    findBlock h 0#64 = .ok 0x02000000#64 := by
  obtain ⟨⟨p, h₁, s₁⟩, hr₁⟩ := emptyHeap_state.kmalloc_ok 48#64
  have hp : (kmalloc emptyHeap onePage 48#64).map (fun r => (r.1, pagesTaken onePage r.2.2)) =
      .ok (0x02000020#64, [0x02000000#64]) := by rfl
  have hq : ((kmalloc emptyHeap onePage 48#64).bind fun r => (kzalloc r.2.1 r.2.2 16#64).map fun r' =>
      (r'.1, pagesTaken r.2.2 r'.2.2)) = .ok (0x02000070#64, []) := by rfl
  have hfind : ((kmalloc emptyHeap onePage 48#64).bind fun r => (kzalloc r.2.1 r.2.2 16#64).bind fun r' =>
      (kfree r'.2.1 0x02000020#64).bind fun h => findBlock h 0#64) = .ok 0x02000000#64 := by rfl
  rw [hr₁] at hp hq hfind
  obtain ⟨rfl, htaken₁⟩ := Prod.mk.inj (Except.ok.inj hp)
  have run₁ : HeapRun KzallocInBlock h₁ s₁ [0x02000000#64] [0x02000020#64] := by
    have run : HeapRun KzallocInBlock h₁ s₁ (pagesTaken onePage s₁ ++ []) _ := .kmalloc (.init onePage_free) hr₁
    rwa [show pagesTaken onePage s₁ = [0x02000000#64] from htaken₁] at run
  obtain ⟨L₁, l₁, hs₁⟩ := heapRun_state run₁
  obtain ⟨⟨q, h₂, s₂⟩, hr₂⟩ := hs₁.kzalloc_ok 16#64
  have hq : (kzalloc h₁ s₁ 16#64).map (fun r => (r.1, pagesTaken s₁ r.2.2)) = .ok (0x02000070#64, []) := hq
  have hfind : ((kzalloc h₁ s₁ 16#64).bind fun r => (kfree r.2.1 0x02000020#64).bind fun h => findBlock h 0#64) =
      .ok 0x02000000#64 := hfind
  rw [hr₂] at hq hfind
  obtain ⟨rfl, htaken₂⟩ := Prod.mk.inj (Except.ok.inj hq)
  have run₂ : HeapRun KzallocInBlock h₂ s₂ [0x02000000#64] [0x02000070#64, 0x02000020#64] := by
    have run := run₁.kzalloc (.inl (by decide)) hr₂
    rwa [show pagesTaken s₁ s₂ = [] from htaken₂] at run
  obtain ⟨L₂, l₂, hs₂⟩ := heapRun_state run₂
  have hptr : 0x02000020#64 ∈ [0x02000070#64, 0x02000020#64] := by simp
  obtain ⟨h₃, -, hr₃, -⟩ := hs₂.kfree hptr
  have hfind : ((kfree h₂ 0x02000020#64).bind fun h => findBlock h 0#64) = .ok 0x02000000#64 := hfind
  rw [hr₃] at hfind
  exact ⟨h₃, s₂, run₂.kfree hptr hr₃, hfind⟩

/-- It still holds the second block, which can be freed. -/
theorem heapRun_sound_sample : ∃ h s L h', HeapRun KzallocInBlock h s [0x02000000#64] [0x02000070#64] ∧
    HeapInv h [0x02000000#64] L ∧ ((live L).map payloadAt).Perm [0x02000070#64] ∧
    kfree h 0x02000070#64 = .ok h' := by
  obtain ⟨h, s, run, -⟩ := usedHeap_exists
  obtain ⟨⟨L, hinv, hlive⟩, -, -, hfree⟩ := heapRun_sound run
  obtain ⟨h', hrun⟩ := hfree 0x02000070#64 (by simp)
  exact ⟨h, s, L, h', run, hinv, hlive, hrun⟩

/-- 2³² bytes are rounded to none; clearing them overwrites the next header. -/
theorem heapRun_oversized : ¬ ∀ h s pages ptrs, HeapRun (fun _ _ _ => True) h s pages ptrs →
    (∃ L, HeapInv h pages L) ∧ ∀ size, kmalloc h s size ≠ .error .halt := by
  intro hclaim
  obtain ⟨⟨ptr, h, s⟩, hr⟩ := emptyHeap_state.kzalloc_ok 0x100000000#64
  have hfail : ((kzalloc emptyHeap onePage 0x100000000#64).bind fun r => kmalloc r.2.1 r.2.2 1#64).map
      (fun r => r.1) = .error .halt := by rfl
  rw [hr] at hfail
  obtain ⟨-, hok⟩ := hclaim h s _ _ (.kzalloc (.init onePage_free) trivial hr)
  cases hk : kmalloc h s 1#64 with
  | ok r =>
    have hfail : (kmalloc h s 1#64).map (fun r => r.1) = .error .halt := hfail
    rw [hk] at hfail
    cases hfail
  | error e =>
    have hfail : (kmalloc h s 1#64).map (fun r => r.1) = .error .halt := hfail
    rw [hk] at hfail
    exact hok 1#64 (hk.trans (congrArg Except.error (Except.error.inj hfail)))

end Platinum
