import Platinum.HeapRoom
import Platinum.SeedLeak

/-!
# A heap with room for one file

Without a free page the heap serves what its blocks can hold, whatever else the
page allocator's state is.
-/
namespace Platinum
open ByteMemory BlockList

section NoPage

variable {h h' : Heap} {s s₀ : Phys} {size : Word} {sizes : List Word}

/-- What a call returns, apart from the page allocator. -/
def withoutPages {α : Type} (x : Run (α × Heap × Phys)) (s : Phys) : Run (α × Heap × Phys) :=
  x.map fun r => (r.1, r.2.1, s)

lemma pallocAlloc_empty (h0 : s.freeListHead = 0#64) : pallocAlloc s = (0#64, s) := by
  simp [pallocAlloc, h0]

/-- With no page to take, two page allocators are as good as each other. -/
lemma kmalloc_noPage (h0 : s.freeListHead = 0#64) (h0' : s₀.freeListHead = 0#64) :
    kmalloc h s size = withoutPages (kmalloc h s₀ size) s := by
  unfold kmalloc withoutPages
  by_cases hz : size = 0#64
  · rw [if_pos hz, if_pos hz]
    rfl
  rw [if_neg hz, if_neg hz]
  dsimp only
  cases findBlock h (heapAlignUp size) with
  | error e => rfl
  | ok found =>
    simp only [ok_bind]
    by_cases hf : found = 0#64
    · simp only [if_pos hf]
      unfold growHeap
      rw [pallocAlloc_empty h0, pallocAlloc_empty h0']
      dsimp only
      rw [if_pos rfl, if_pos rfl]
      split_ifs <;> rfl
    · simp only [if_neg hf]
      rfl

lemma kzalloc_noPage (h : Heap) (size : Word) (h0 : s.freeListHead = 0#64)
    (h0' : s₀.freeListHead = 0#64) :
    kzalloc h s size = withoutPages (kzalloc h s₀ size) s := by
  unfold kzalloc
  rw [kmalloc_noPage h0 h0']
  cases kmalloc h s₀ size with
  | error e => rfl
  | ok r =>
    obtain ⟨ptr, h', s'⟩ := r
    change (if ptr = 0#64 then _ else _) = withoutPages (if ptr = 0#64 then _ else _) s
    split_ifs <;> rfl

/-- A call that no page was free for left it that way. -/
lemma kzalloc_stays (h0 : s₀.freeListHead = 0#64) {ptr : Word} {s' : Phys}
    (hr : kzalloc h s₀ size = .ok (ptr, h', s')) : s' = s₀ := by
  have hsame := kzalloc_noPage h size h0 h0
  rw [hr] at hsame
  exact (Prod.mk.inj (Prod.mk.inj (Except.ok.inj hsame)).2).2

lemma kzallocAll_noPage (h : Heap) (sizes : List Word) (h0 : s.freeListHead = 0#64)
    (h0' : s₀.freeListHead = 0#64) :
    kzallocAll h s sizes = withoutPages (kzallocAll h s₀ sizes) s := by
  induction sizes generalizing h with
  | nil => rfl
  | cons size sizes ih =>
    unfold kzallocAll
    rw [kzalloc_noPage h size h0 h0']
    cases hr : kzalloc h s₀ size with
    | error e => rfl
    | ok r =>
      obtain ⟨ptr, h', s'⟩ := r
      obtain rfl := kzalloc_stays h0' hr
      change (kzallocAll h' s sizes >>= _) = withoutPages (kzallocAll h' s' sizes >>= _) s
      rw [ih]
      cases kzallocAll h' s' sizes with
      | error e => rfl
      | ok r => rfl

lemma serves_noPage (h0 : s.freeListHead = 0#64) (h0' : s₀.freeListHead = 0#64)
    (hserves : Serves h s sizes) : Serves h s₀ sizes := by
  obtain ⟨ptrs, h', s', hr, hne⟩ := hserves
  have hsame := kzallocAll_noPage h sizes h0' h0
  rw [hr] at hsame
  exact ⟨ptrs, h', s₀, hsame, hne⟩

/-- Nor do pages matter to a call that a block serves. -/
lemma kzalloc_served {b ptr : Word} {s' : Phys} (h0 : size ≠ 0#64)
    (hfind : findBlock h (heapAlignUp size) = .ok b) (hb : b ≠ 0#64)
    (hr : kzalloc h s size = .ok (ptr, h', s')) (s₀ : Phys) :
    kzalloc h s₀ size = .ok (ptr, h', s₀) := by
  unfold kzalloc kmalloc at hr ⊢
  dsimp only at hr ⊢
  simp only [if_neg h0, hfind, ok_bind, if_neg hb] at hr ⊢
  by_cases hptr : b + heapHeaderSize = 0#64
  · rw [if_pos hptr] at hr ⊢
    cases hr
    rfl
  · rw [if_neg hptr] at hr ⊢
    cases hr
    rfl

end NoPage

/-- A file, a hole that is as large, and a block that takes the rest of the page. -/
def tightBlocks : List Block :=
  [⟨0x01F00000, 32, false⟩, ⟨0x01F00040, 32, true⟩, ⟨0x01F00080, 3936, false⟩]

def tightHeap : Heap where
  head := 0x01F00000#64
  block x :=
    if x = 0x01F00000#64 then ⟨heapMagic, 0, 32#64, 0x01F00040#64, 0#64⟩
    else if x = 0x01F00040#64 then ⟨heapMagic, 1, 32#64, 0x01F00080#64, 0x01F00000#64⟩
    else if x = 0x01F00080#64 then ⟨heapMagic, 0, 3936#64, 0#64, 0x01F00040#64⟩
    else ⟨0, 0, 0#64, 0#64, 0#64⟩

lemma tightHeap_inv : HeapInv tightHeap [0x01F00000#64] tightBlocks where
  list := ⟨rfl, ⟨by decide, by decide, by decide, trivial⟩,
    ⟨by simp [tightBlocks, Sorted, Before, Block.stop], by simp [tightBlocks, Block.stop]⟩⟩
  coalesced := by simp [tightBlocks, Coalesced, Settled]
  grain := by simp [tightBlocks, OnGrain]
  tiles x := by
    have hp : (0x01F00000#64 : Word).toNat = 0x01F00000 := rfl
    simp only [covered, tightBlocks, List.mem_cons, List.not_mem_nil, or_false, Set.mem_ofPred_eq,
      exists_eq_or_imp, exists_eq_left, Block.stop, OnPage, hp]
    omega
  page := by
    intro p hp
    obtain rfl := List.mem_singleton.mp hp
    constructor <;> decide
  nodup := by simp

/-- Its two blocks are handed out. -/
lemma tightHeap_with {s : Phys} {l : List Word} (hl : FreeList s l) (hno : 0x01F00000#64 ∉ l) :
    HeapWith [0x01F000A0#64] tightHeap s [0x01F00020#64] :=
  ⟨_, _, l, tightHeap_inv, hl, by simpa using hno, by decide⟩

lemma tightHeap_file (s : Phys) :
    ∃ h', kzalloc tightHeap s vfsFileSize = .ok (0x01F00060#64, h', s) := by
  have hsize : vfsFileSize ∈ objectSizes := by simp [objectSizes]
  obtain ⟨h', hr, -⟩ := kzalloc_found (A := [⟨0x01F00000, 32, false⟩]) (b := ⟨0x01F00040, 32, true⟩)
    tightHeap_inv hsize ⟨rfl, by decide⟩ (by decide +kernel) s
  exact ⟨h', hr⟩

/-- A file was made and freed in the hole, and the other file was closed: there is room
for two blocks of a console. -/
lemma tightHeap_unserved {h₁ h₂ h₃ : Heap} {s s' s₃ : Phys} {f : Word}
    (hmake : kzalloc tightHeap s vfsFileSize = .ok (f, h₁, s')) (hfree : kfree h₁ f = .ok h₂)
    (hclose : kfree h₂ 0x01F00020#64 = .ok h₃) (hs : FreeList s₃ []) : ¬ Serves h₃ s₃ seedSizes := by
  intro hserves
  have hhead : s₃.freeListHead = 0#64 := hs.chain
  have hmake' := kzalloc_served (b := 0x01F00040#64) (by decide) (by decide +kernel) (by decide) hmake
    { onePage with freeListHead := 0#64 }
  obtain ⟨ptrs, h', s', hr, h0⟩ : Serves h₃ { onePage with freeListHead := 0#64 } seedSizes :=
    serves_noPage hhead rfl hserves
  have hall : (do
      let r ← kzalloc tightHeap { onePage with freeListHead := 0#64 } vfsFileSize
      let h ← kfree r.2.1 r.1
      let h ← kfree h 0x01F00020#64
      let r ← kzallocAll h { onePage with freeListHead := 0#64 } seedSizes
      return r.1 : Run (List Word)) =
      .ok [0x01F00020#64, 0x01F00050#64, 0#64, 0#64, 0#64, 0#64, 0#64] :=
    toOption_eq_some.mp (by decide +kernel)
  rw [hmake', ok_bind] at hall
  change (kfree h₁ f >>= _) = _ at hall
  rw [hfree, ok_bind, hclose, ok_bind, hr, ok_bind] at hall
  obtain rfl : ptrs = _ := Except.ok.inj hall
  exact h0 (by decide)

end Platinum
