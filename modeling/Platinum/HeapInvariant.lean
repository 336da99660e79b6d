import Platinum.Heap

/-!
# The heap as a list of blocks

`HeapInv` ties the headers to a list of blocks that tiles the heap's pages.
Each heap operation is an operation on that list.
-/
namespace Platinum
open ByteMemory WordArith BlockList

/-- The header's address. -/
def blockAt (b : Block) : Word := BitVec.ofNat 64 b.addr

def headerOf (b : Block) (prev next : Word) : HeapBlock where
  magic := heapMagic
  free := if b.free then 1 else 0
  size := BitVec.ofNat 64 b.size
  next := next
  prev := prev

/-- The address of the first block, `nil` for none. -/
def firstAt (nil : Word) : List Block → Word
  | [] => nil
  | b :: _ => blockAt b

def lastAt (nil : Word) : List Block → Word
  | [] => nil
  | b :: L => lastAt (blockAt b) L

/-- The headers of a stretch of blocks that follows `prev` and precedes `next`. -/
def Linked (block : Word → HeapBlock) (next : Word) : Word → List Block → Prop
  | _, [] => True
  | prev, b :: L => block (blockAt b) = headerOf b prev (firstAt next L) ∧
      Linked block next (blockAt b) L

/-- Blocks in order, at addresses that fit the machine. -/
structure Placed (L : List Block) : Prop where
  sorted : Sorted 32 L
  bound : ∀ b ∈ L, 0 < b.addr ∧ b.stop 32 ≤ 2 ^ 52

section Links

variable {block block' : Word → HeapBlock} {prev next : Word} {b c : Block} {L A B : List Block}

@[simp] lemma lastAt_snoc (nil : Word) (L : List Block) (b : Block) :
    lastAt nil (L ++ [b]) = blockAt b := by
  induction L generalizing nil with
  | nil => rfl
  | cons c L ih => exact ih _

lemma firstAt_append (A B : List Block) :
    firstAt next (A ++ B) = firstAt (firstAt next B) A := by
  cases A <;> rfl

lemma linked_append : Linked block next prev (A ++ B) ↔
    Linked block (firstAt next B) prev A ∧ Linked block next (lastAt prev A) B := by
  induction A generalizing prev with
  | nil => simp [Linked, lastAt]
  | cons b A ih =>
    simp only [List.cons_append, Linked, lastAt, ih, and_assoc, firstAt_append]

lemma Linked.congr (h : Linked block next prev L)
    (he : ∀ b ∈ L, block' (blockAt b) = block (blockAt b)) : Linked block' next prev L := by
  induction L generalizing prev with
  | nil => exact trivial
  | cons b L ih =>
    exact ⟨(he b (by simp)).trans h.1, ih h.2 fun c hc => he c (by simp [hc])⟩

/-- The header of a block in the middle. -/
lemma Linked.header (h : Linked block next prev (A ++ b :: B)) :
    block (blockAt b) = headerOf b (lastAt prev A) (firstAt next B) :=
  (linked_append.mp h).2.1

lemma toNat_blockAt (hb : b.stop 32 ≤ 2 ^ 52) : (blockAt b).toNat = b.addr := by
  unfold Block.stop at hb
  rw [blockAt, BitVec.toNat_ofNat]
  omega

lemma Placed.toNat (h : Placed L) (hb : b ∈ L) : (blockAt b).toNat = b.addr :=
  toNat_blockAt (h.bound b hb).2

lemma Placed.ne_zero (h : Placed L) (hb : b ∈ L) : blockAt b ≠ 0#64 := by
  intro h0
  have hn := h.toNat hb
  rw [h0] at hn
  have hpos := (h.bound b hb).1
  have hz : (0#64 : Word).toNat = 0 := rfl
  omega

lemma Placed.append (h : Placed (A ++ B)) : Placed A ∧ Placed B := by
  obtain ⟨h₁, h₂, -⟩ := sorted_append.mp h.sorted
  exact ⟨⟨h₁, fun b hb => h.bound b (by simp [hb])⟩, ⟨h₂, fun b hb => h.bound b (by simp [hb])⟩⟩

lemma before_lt (h : Before 32 b c) : b.addr < c.addr := by
  unfold Before Block.stop at h
  omega

/-- Blocks on the two sides of a split have different headers. -/
lemma Placed.ne_of_sides (h : Placed (A ++ B)) (hb : b ∈ A) (hc : c ∈ B) :
    blockAt b ≠ blockAt c := by
  intro he
  have hlt := before_lt ((sorted_append.mp h.sorted).2.2 b hb c hc)
  have hn := congrArg BitVec.toNat he
  rw [h.toNat (by simp [hb]), h.toNat (by simp [hc])] at hn
  omega

lemma Placed.ne_head (h : Placed (b :: L)) (hc : c ∈ L) : blockAt c ≠ blockAt b :=
  fun he => (h.ne_of_sides (A := [b]) (by simp) hc) he.symm

/-- Two blocks are the same or one comes before the other. -/
lemma Placed.apart (h : Placed L) (hb : b ∈ L) (hc : c ∈ L) :
    c = b ∨ Before 32 c b ∨ Before 32 b c := by
  obtain ⟨A, B, rfl⟩ := List.append_of_mem hb
  obtain ⟨-, hB, hcross⟩ := sorted_append.mp h.sorted
  rcases List.mem_append.mp hc with hc | hc
  · exact .inr (.inl (hcross c hc b (by simp)))
  · rcases List.mem_cons.mp hc with rfl | hc
    · exact .inl rfl
    · exact .inr (.inr ((List.pairwise_cons.mp hB).1 c hc))

/-- Placed blocks number fewer than the addresses. -/
lemma Placed.length_lt (h : Placed L) : L.length < linkFuel := by
  have hnd : (L.map Block.addr).Nodup := by
    rw [List.Nodup, List.pairwise_map]
    exact h.sorted.imp fun hbc => (before_lt hbc).ne
  have hsub : L.map Block.addr ⊆ List.range (2 ^ 52) := by
    intro x hx
    obtain ⟨b, hb, rfl⟩ := List.mem_map.mp hx
    have hle := (h.bound b hb).2
    unfold Block.stop at hle
    exact List.mem_range.mpr (by omega)
  have hlen := (List.subperm_of_subset hnd hsub).length_le
  rw [List.length_map, List.length_range] at hlen
  exact lt_of_le_of_lt hlen (by decide)

/-- Giving the block after a stretch a new predecessor. -/
lemma Linked.setPrev {h : Heap} (hl : Linked h.block next prev L) (hp : Placed L)
    (hn : L = [] → next = 0#64) (q : Word) :
    Linked (h.setPrev (firstAt next L) q).block next q L := by
  cases L with
  | nil => exact trivial
  | cons b L =>
    have hb : blockAt b ≠ 0#64 := hp.ne_zero (by simp)
    simp only [Heap.setPrev, firstAt, hb, if_false, Heap.set]
    refine ⟨?_, hl.2.congr fun c hc => Function.update_of_ne (hp.ne_head hc) _ _⟩
    rw [Function.update_self, hl.1]
    rfl

/-- Changing the predecessor of the block after a stretch leaves the stretch alone. -/
lemma Linked.setPrev_other {h : Heap} {x q : Word} (hl : Linked h.block next prev L)
    (hx : ∀ b ∈ L, blockAt b ≠ x) : Linked (h.setPrev x q).block next prev L := by
  unfold Heap.setPrev
  split_ifs
  · exact hl
  · exact hl.congr fun b hb => Function.update_of_ne (hx b hb) _ _

lemma Linked.set_other {h : Heap} {x : Word} {v : HeapBlock} (hl : Linked h.block next prev L)
    (hx : ∀ b ∈ L, blockAt b ≠ x) : Linked (h.set x v).block next prev L :=
  hl.congr fun b hb => Function.update_of_ne (hx b hb) _ _

end Links

/-- The headers that the heap's list reaches are those of `L`. -/
structure HeapList (h : Heap) (L : List Block) : Prop where
  head : h.head = firstAt 0#64 L
  linked : Linked h.block 0#64 0#64 L
  placed : Placed L

section Operations

variable {h : Heap} {b c p : Block} {L A B : List Block}

/-- Headers are read in one way only. -/
lemma Linked.unique {block : Word → HeapBlock} {prev : Word} {M : List Block}
    (hL : Linked block 0#64 prev L) (hM : Linked block 0#64 prev M) (hpL : Placed L) (hpM : Placed M)
    (hfirst : firstAt 0#64 L = firstAt 0#64 M) : L = M := by
  induction L generalizing prev M with
  | nil =>
    cases M with
    | nil => rfl
    | cons c M => exact absurd hfirst.symm (hpM.ne_zero List.mem_cons_self)
  | cons b L ih =>
    cases M with
    | nil => exact absurd hfirst (hpL.ne_zero List.mem_cons_self)
    | cons c M =>
      have hat : blockAt b = blockAt c := hfirst
      have haddr : b.addr = c.addr := by
        rw [← hpL.toNat List.mem_cons_self, ← hpM.toNat List.mem_cons_self, hat]
      have hheader := hL.1.symm.trans (hat ▸ hM.1)
      have hsize : b.size = c.size := by
        have hb := (hpL.bound b List.mem_cons_self).2
        have hc := (hpM.bound c List.mem_cons_self).2
        have hs := congrArg (fun v => v.size.toNat) hheader
        unfold Block.stop at hb hc
        simp only [headerOf, BitVec.toNat_ofNat] at hs
        omega
      have hfree : b.free = c.free := by
        have hf := congrArg HeapBlock.free hheader
        simp only [headerOf] at hf
        cases hbf : b.free <;> cases hcf : c.free <;> simp_all
      have hbc : b = c := by
        cases b
        cases c
        simp_all
      have hnext : firstAt 0#64 L = firstAt 0#64 M := congrArg HeapBlock.next hheader
      rw [hbc, ih hL.2 (hat ▸ hM.2) (hpL.append (A := [b])).2 (hpM.append (A := [c])).2 hnext]

lemma HeapList.unique {M : List Block} (hl : HeapList h L) (hm : HeapList h M) : L = M :=
  hl.linked.unique hm.linked hl.placed hm.placed (hl.head.symm.trans hm.head)

lemma HeapList.header (hl : HeapList h (A ++ b :: B)) :
    h.block (blockAt b) = headerOf b (lastAt 0#64 A) (firstAt 0#64 B) := hl.linked.header

lemma blockAt_add (b : Block) : blockAt b + heapHeaderSize + BitVec.ofNat 64 b.size =
    BitVec.ofNat 64 (b.stop 32) := by
  simp [blockAt, heapHeaderSize, Block.stop, BitVec.ofNat_add]

/-- The touching test of the source on listed blocks. -/
lemma HeapList.blocksTouch_iff (hl : HeapList h L) (hb : b ∈ L) (hc : c ∈ L) :
    blocksTouch h (blockAt b) (blockAt c) = true ↔ b.stop 32 = c.addr := by
  obtain ⟨A, B, rfl⟩ := List.append_of_mem hb
  have hbs := (hl.placed.bound b hb).2
  have hcn := hl.placed.toNat hc
  simp only [blocksTouch, blockEnd, hl.header, headerOf, blockAt_add, decide_eq_true_eq]
  constructor
  · intro he
    have hn := congrArg BitVec.toNat he
    rw [BitVec.toNat_ofNat, hcn] at hn
    omega
  · intro he
    rw [he]
    rfl

lemma headerOf_free (b : Block) (prev next : Word) :
    (headerOf b prev next).free ≠ 0 ↔ b.free = true := by
  cases hb : b.free <;> simp [headerOf, hb]

lemma Placed.merge (h : Placed (A ++ b :: c :: B)) (ht : b.stop 32 = c.addr) :
    Placed (A ++ ⟨b.addr, b.size + (32 + c.size), b.free⟩ :: B) := by
  obtain ⟨h₁, hb, hcross⟩ := sorted_append.mp h.sorted
  refine ⟨sorted_append.mpr ⟨h₁, hb.merge ht, ?_⟩, ?_⟩
  · intro q hq d hd
    rcases List.mem_cons.mp hd with rfl | hd
    · exact hcross q hq b (by simp)
    · exact hcross q hq d (by simp [hd])
  · intro d hd
    rcases List.mem_append.mp hd with hd | hd
    · exact h.bound d (by simp [hd])
    · rcases List.mem_cons.mp hd with rfl | hd
      · exact ⟨(h.bound b (by simp)).1, by
          rw [stop_merge ht]
          exact (h.bound c (by simp)).2⟩
      · exact h.bound d (by simp [hd])

/-- One round of `coalesce_forward` joins a block with the next one. -/
lemma HeapList.merge (hl : HeapList h (A ++ b :: c :: B)) (ht : b.stop 32 = c.addr) :
    HeapList
      ((h.set (blockAt b) (headerOf ⟨b.addr, b.size + (32 + c.size), b.free⟩ (lastAt 0#64 A)
        (firstAt 0#64 B))).setPrev (firstAt 0#64 B) (blockAt b))
      (A ++ ⟨b.addr, b.size + (32 + c.size), b.free⟩ :: B) := by
  have hp := hl.placed
  have hp' := hp.merge ht
  obtain ⟨hlin₁, -, -, hlin₂⟩ := linked_append.mp hl.linked
  obtain ⟨-, hpb⟩ := hp.append
  obtain ⟨-, hp₂⟩ := (hpb.append (A := [b, c]))
  have hL₁b : ∀ d ∈ A, blockAt d ≠ blockAt b := fun d hd => hp.ne_of_sides hd (by simp)
  have hL₂b : ∀ d ∈ B, blockAt d ≠ blockAt b :=
    fun d hd => (hpb.ne_head (c := d) (by simp [hd]))
  have hfirst : ∀ d, d ∈ A ++ [b] → blockAt d ≠ firstAt 0#64 B := by
    intro d hd
    have hmem : d ∈ A ++ b :: c :: B := by
      rcases List.mem_append.mp hd with hd | hd
      · simp [hd]
      · simp [List.mem_singleton.mp hd]
    cases B with
    | nil => exact hp.ne_zero hmem
    | cons e B =>
      refine Placed.ne_of_sides (by simpa using hp) hd ?_
      simp
  refine ⟨?_, linked_append.mpr ⟨?_, ?_, ?_⟩, hp'⟩
  · have hhead := hl.head
    unfold Heap.setPrev
    split_ifs <;> cases A <;> exact hhead
  · exact (hlin₁.set_other hL₁b).setPrev_other fun d hd => hfirst d (by simp [hd])
  · have hb0 := hfirst b (by simp)
    unfold Heap.setPrev
    split_ifs with h0
    · exact Function.update_self _ _ _
    · exact (Function.update_of_ne hb0 _ _).trans (Function.update_self _ _ _)
  · exact (hlin₂.set_other hL₂b).setPrev hp₂ (fun _ => rfl) (blockAt b)

/-- The loop body of `coalesce_forward` on listed blocks. -/
lemma coalesce_step_eq (hl : HeapList h (A ++ b :: c :: B)) :
    let h₁ := h.setSize (blockAt b) ((h.block (blockAt b)).size +
      (heapHeaderSize + (h.block (blockAt c)).size))
    let h₂ := h₁.setNext (blockAt b) (h₁.block (blockAt c)).next
    h₂.setPrev (h₂.block (blockAt b)).next (blockAt b) =
      (h.set (blockAt b) (headerOf ⟨b.addr, b.size + (32 + c.size), b.free⟩ (lastAt 0#64 A)
        (firstAt 0#64 B))).setPrev (firstAt 0#64 B) (blockAt b) := by
  have hb := hl.header
  have hc := HeapList.header (A := A ++ [b]) (b := c) (by simpa using hl)
  have hne : blockAt c ≠ blockAt b := (hl.placed.append.2).ne_head (by simp)
  simp only [Heap.setSize, Heap.setNext, Heap.set, Function.update_self, Function.update_of_ne hne,
    Function.update_idem]
  rw [hb, hc]
  simp [headerOf, heapHeaderSize, BitVec.ofNat_add]

/-- `coalesce_forward` is `absorb`. -/
theorem coalesceForward_spec (hl : HeapList h (A ++ b :: B)) :
    ∃ h', coalesceForward h (blockAt b) = .ok h' ∧ HeapList h' (A ++ absorb 32 b B) := by
  have hfuel : B.length < linkFuel := by
    have hlen := hl.placed.length_lt
    rw [List.length_append, List.length_cons] at hlen
    omega
  unfold coalesceForward
  generalize linkFuel = fuel at hfuel
  induction B generalizing h b fuel with
  | nil =>
    cases fuel with
    | zero => omega
    | succ fuel =>
      refine ⟨h, ?_, hl⟩
      have hnext : (h.block (blockAt b)).next = 0#64 := by
        rw [hl.header]
        rfl
      simp [coalesceForwardLoop, hnext]
  | cons c B ih =>
    cases fuel with
    | zero => omega
    | succ fuel =>
      have hnext : (h.block (blockAt b)).next = blockAt c := by
        rw [hl.header]
        rfl
      have hc := HeapList.header (A := A ++ [b]) (b := c) (by simpa using hl)
      have hc0 : blockAt c ≠ 0#64 := hl.placed.ne_zero (by simp)
      have hmagic : (h.block (blockAt c)).magic = heapMagic := by
        rw [hc]
        rfl
      have hfree : (h.block (blockAt c)).free ≠ 0 ↔ c.free = true := by
        rw [hc]
        exact headerOf_free _ _ _
      have htouch := hl.blocksTouch_iff (b := b) (c := c) (by simp) (by simp)
      unfold coalesceForwardLoop absorb
      simp only [hnext, hmagic, hfree, htouch, ne_eq, hc0, not_false_eq_true, true_and]
      split_ifs with hcond
      · rw [coalesce_step_eq hl]
        exact ih (hl.merge hcond.2) fuel (by simpa using hfuel)
      · exact ⟨h, rfl, hl⟩

/-- Rewriting the header of one block in place. -/
lemma HeapList.set_same (hl : HeapList h (A ++ b :: B)) (hc : c.addr = b.addr)
    (hp : Placed (A ++ c :: B)) :
    HeapList (h.set (blockAt b) (headerOf c (lastAt 0#64 A) (firstAt 0#64 B))) (A ++ c :: B) := by
  have hat : blockAt c = blockAt b := by rw [blockAt, hc, blockAt]
  obtain ⟨hlin₁, -, hlin₂⟩ := linked_append.mp hl.linked
  refine ⟨?_, linked_append.mpr ⟨?_, ?_, ?_⟩, hp⟩
  · have hhead := hl.head
    cases A with
    | nil => exact hhead.trans hat.symm
    | cons d A => exact hhead
  · have h₁ := hlin₁.set_other (v := headerOf c (lastAt 0#64 A) (firstAt 0#64 B))
      fun d hd => hl.placed.ne_of_sides (c := b) hd (by simp)
    simpa only [firstAt, hat] using h₁
  · rw [hat]
    exact Function.update_self _ _ _
  · rw [hat]
    exact hlin₂.set_other fun d hd => (hl.placed.append.2).ne_head hd

lemma Placed.set_free (hp : Placed (A ++ b :: B)) (f : Bool) :
    Placed (A ++ ⟨b.addr, b.size, f⟩ :: B) := by
  obtain ⟨h₁, hb, hcross⟩ := sorted_append.mp hp.sorted
  obtain ⟨hb, h₂⟩ := List.pairwise_cons.mp hb
  refine ⟨sorted_append.mpr ⟨h₁, List.pairwise_cons.mpr ⟨hb, h₂⟩, ?_⟩, ?_⟩
  · intro q hq d hd
    rcases List.mem_cons.mp hd with rfl | hd
    · exact hcross q hq b (by simp)
    · exact hcross q hq d (by simp [hd])
  · intro d hd
    rcases List.mem_append.mp hd with hd | hd
    · exact hp.bound d (by simp [hd])
    · rcases List.mem_cons.mp hd with rfl | hd
      · exact hp.bound b (by simp)
      · exact hp.bound d (by simp [hd])

lemma HeapList.setFree (hl : HeapList h (A ++ b :: B)) (f : Bool) :
    HeapList (h.setFree (blockAt b) (if f then 1 else 0)) (A ++ ⟨b.addr, b.size, f⟩ :: B) := by
  have hset := hl.set_same (c := ⟨b.addr, b.size, f⟩) rfl (hl.placed.set_free f)
  have he : h.setFree (blockAt b) (if f then 1 else 0) = h.set (blockAt b)
      (headerOf ⟨b.addr, b.size, f⟩ (lastAt 0#64 A) (firstAt 0#64 B)) := by
    rw [Heap.setFree, hl.header]
    rfl
  rw [he]
  exact hset

lemma prevMergeable_nil (hl : HeapList h (b :: B)) : prevMergeable h (blockAt b) = false := by
  have hb := HeapList.header (A := []) hl
  simp [prevMergeable, hb, headerOf, lastAt]

lemma prevMergeable_snoc (hl : HeapList h ((A ++ [p]) ++ b :: B)) :
    (h.block (blockAt b)).prev = blockAt p ∧
      (prevMergeable h (blockAt b) = true ↔ p.free = true ∧ p.stop 32 = b.addr) := by
  have hb : (h.block (blockAt b)).prev = blockAt p := by
    rw [hl.header]
    exact lastAt_snoc _ _ _
  have hp0 : blockAt p ≠ 0#64 := hl.placed.ne_zero (by simp)
  have hph := HeapList.header (b := p) (by simpa using hl)
  have hmagic : (h.block (blockAt p)).magic = heapMagic := by
    rw [hph]
    rfl
  have hfree : (h.block (blockAt p)).free ≠ 0 ↔ p.free = true := by
    rw [hph]
    exact headerOf_free _ _ _
  have htouch := hl.blocksTouch_iff (b := p) (c := b) (by simp) (by simp)
  refine ⟨hb, ?_⟩
  simp only [prevMergeable, hb, hmagic, hp0, ne_eq, not_false_eq_true, decide_true, Bool.true_and,
    Bool.and_eq_true, htouch, decide_eq_true_eq]
  exact and_congr_left fun _ => hfree

lemma giveBack_of_gap (h : ¬ (p.free = true ∧ p.stop 32 = b.addr)) :
    giveBack 32 (A ++ [p]) b B = (A ++ [p]) ++ absorb 32 b B := by
  obtain ⟨n, M, he, -, -⟩ := absorb_head 32 b B
  rw [giveBack_snoc]
  split_ifs with hfree
  · have hnt : ¬ p.stop 32 = b.addr := fun ht => h ⟨hfree, ht⟩
    have hno : absorb 32 p (absorb 32 b B) = p :: absorb 32 b B := by
      rw [he]
      simp [absorb, hnt]
    rw [hno]
    simp
  · simp

/-- The backward merge that ends `kfree`. -/
lemma mergeBack_spec (hl : HeapList h (A ++ absorb 32 b B)) :
    ∃ h', (if prevMergeable h (blockAt b) then coalesceForward h (h.block (blockAt b)).prev
      else .ok h) = .ok h' ∧ HeapList h' (giveBack 32 A b B) := by
  obtain ⟨n, M, he, -, -⟩ := absorb_head 32 b B
  have hat : blockAt ⟨b.addr, n, b.free⟩ = blockAt b := rfl
  rcases List.eq_nil_or_concat A with rfl | ⟨A, p, rfl⟩
  · have hl' : HeapList h (⟨b.addr, n, b.free⟩ :: M) := by rwa [← he]
    have hno := prevMergeable_nil hl'
    rw [hat] at hno
    exact ⟨h, by rw [hno]; rfl, hl⟩
  · rw [List.concat_eq_append] at hl ⊢
    have hl' : HeapList h ((A ++ [p]) ++ ⟨b.addr, n, b.free⟩ :: M) := by rwa [← he]
    obtain ⟨hprev, hiff⟩ := prevMergeable_snoc hl'
    rw [hat] at hprev hiff
    rw [hprev]
    by_cases hm : prevMergeable h (blockAt b) = true
    · obtain ⟨hfree, htouch⟩ := hiff.mp hm
      obtain ⟨h', hrun, hl''⟩ := coalesceForward_spec (b := p)
        (by simpa using hl)
      refine ⟨h', by rw [if_pos hm, hrun], ?_⟩
      rw [giveBack_snoc, if_pos hfree]
      exact hl''
    · refine ⟨h, by rw [if_neg hm], ?_⟩
      rw [giveBack_of_gap (p := p) (b := b) fun hpf => hm (hiff.mpr hpf)]
      exact hl

lemma HeapList.payload_ne_zero (hl : HeapList h L) (hb : b ∈ L) :
    blockAt b + heapHeaderSize ≠ 0#64 := by
  intro h0
  have hp := hl.placed.bound b hb
  have hn := congrArg BitVec.toNat h0
  rw [BitVec.toNat_add, hl.placed.toNat hb, show heapHeaderSize.toNat = 32 from rfl,
    show (0#64 : Word).toNat = 0 from rfl] at hn
  unfold Block.stop at hp
  omega

/-- `kfree` gives a live block back. -/
theorem kfree_spec (hl : HeapList h (A ++ b :: B)) (hb : b.free = false) :
    ∃ h', kfree h (blockAt b + heapHeaderSize) = .ok h' ∧
      HeapList h' (giveBack 32 A ⟨b.addr, b.size, true⟩ B) := by
  have hsub : blockAt b + heapHeaderSize - heapHeaderSize = blockAt b := by
    exact BitVec.add_sub_cancel _ _
  have hn : blockAt b + heapHeaderSize ≠ 0#64 := hl.payload_ne_zero (by simp)
  have hmagic : (h.block (blockAt b)).magic = heapMagic := by
    rw [hl.header]
    rfl
  have hfree : (h.block (blockAt b)).free = 0 := by
    rw [hl.header]
    simp [headerOf, hb]
  unfold kfree
  simp only [hn, if_false, hsub, hmagic, hfree, ne_eq, not_true_eq_false, or_self]
  obtain ⟨h₁, hrun₁, hl₁⟩ := coalesceForward_spec (hl.setFree true)
  have hat : blockAt ⟨b.addr, b.size, true⟩ = blockAt b := rfl
  rw [hat] at hrun₁
  obtain ⟨h₂, hrun₂, hl₂⟩ := mergeBack_spec hl₁
  rw [hat] at hrun₂
  refine ⟨h₂, ?_, hl₂⟩
  have h1 : (if true = true then (1 : BitVec 32) else 0) = 1 := rfl
  rw [h1] at hrun₁
  rw [hrun₁]
  exact hrun₂

/-- A block that can serve a request. -/
def Fits (n : ℕ) (b : Block) : Prop := b.free = true ∧ n ≤ b.size

lemma findBlockLoop_spec {size : Word} : ∀ (B : List Block) {A : List Block} {fuel : ℕ},
    HeapList h (A ++ B) → B.length < fuel →
    (∃ M₁ b M₂, B = M₁ ++ b :: M₂ ∧ Fits size.toNat b ∧ (∀ c ∈ M₁, ¬ Fits size.toNat c) ∧
      findBlockLoop h size fuel (firstAt 0#64 B) = .ok (blockAt b)) ∨
    ((∀ c ∈ B, ¬ Fits size.toNat c) ∧ findBlockLoop h size fuel (firstAt 0#64 B) = .ok 0#64)
  | [], _, fuel + 1, _, _ => .inr ⟨by simp, by simp [findBlockLoop, firstAt]⟩
  | b :: B, A, fuel + 1, hl, hf => by
    have hb0 : blockAt b ≠ 0#64 := hl.placed.ne_zero (by simp)
    have hmagic : (h.block (blockAt b)).magic = heapMagic := by
      rw [hl.header]
      rfl
    have hfree : (h.block (blockAt b)).free ≠ 0 ↔ b.free = true := by
      rw [hl.header]
      exact headerOf_free _ _ _
    have hsize : size ≤ (h.block (blockAt b)).size ↔ size.toNat ≤ b.size := by
      have hbs := (hl.placed.bound b (by simp)).2
      unfold Block.stop at hbs
      rw [hl.header, BitVec.le_def, headerOf, BitVec.toNat_ofNat, Nat.mod_eq_of_lt (by omega)]
    have hnext : (h.block (blockAt b)).next = firstAt 0#64 B := by
      rw [hl.header]
      rfl
    have hiff : ((h.block (blockAt b)).free ≠ 0 ∧ size ≤ (h.block (blockAt b)).size) ↔
        Fits size.toNat b := and_congr hfree hsize
    rw [show firstAt 0#64 (b :: B) = blockAt b from rfl, findBlockLoop, if_neg hb0,
      if_neg (not_not_intro hmagic), hnext]
    by_cases hfit : Fits size.toNat b
    · exact .inl ⟨[], b, B, rfl, hfit, by simp, by rw [if_pos (hiff.mpr hfit)]⟩
    · rw [if_neg (mt hiff.mp hfit)]
      rcases findBlockLoop_spec B (A := A ++ [b]) (by simpa using hl)
          (by simpa using hf) with ⟨M₁, c, M₂, rfl, hc, hno, hrun⟩ | ⟨hno, hrun⟩
      · refine .inl ⟨b :: M₁, c, M₂, rfl, hc, ?_, hrun⟩
        intro d hd
        rcases List.mem_cons.mp hd with rfl | hd
        · exact hfit
        · exact hno d hd
      · refine .inr ⟨fun d hd => ?_, hrun⟩
        rcases List.mem_cons.mp hd with rfl | hd
        · exact hfit
        · exact hno d hd

/-- `find_block` is first fit. -/
theorem findBlock_spec (hl : HeapList h L) (size : Word) :
    (∃ M₁ b M₂, L = M₁ ++ b :: M₂ ∧ Fits size.toNat b ∧ (∀ c ∈ M₁, ¬ Fits size.toNat c) ∧
      findBlock h size = .ok (blockAt b)) ∨
    ((∀ c ∈ L, ¬ Fits size.toNat c) ∧ findBlock h size = .ok 0#64) := by
  unfold findBlock
  rw [hl.head]
  exact findBlockLoop_spec L (A := []) (by simpa using hl) hl.placed.length_lt

lemma Placed.carve (hp : Placed (A ++ b :: B)) {n : ℕ} (hn : n ≤ b.size) :
    Placed (A ++ (carve 32 16 b n ++ B)) := by
  refine ⟨sorted_carve hp.sorted hn, fun d hd => ?_⟩
  have hb := hp.bound b (by simp)
  rcases List.mem_append.mp hd with hd | hd
  · exact hp.bound d (by simp [hd])
  · rcases List.mem_append.mp hd with hd | hd
    · obtain ⟨h₁, h₂, -, -⟩ := mem_carve hn hd
      omega
    · exact hp.bound d (by simp [hd])

/-- Splitting a free block and marking it used. -/
theorem splitBlock_spec (hl : HeapList h (A ++ b :: B)) {size : Word} (hn : size.toNat ≤ b.size) :
    HeapList ((splitBlock h (blockAt b) size).setFree (blockAt b) 0)
      (A ++ (carve 32 16 b size.toNat ++ B)) := by
  have hp := hl.placed
  have hbs := (hp.bound b (by simp)).2
  have hstop : b.stop 32 = b.addr + 32 + b.size := rfl
  have hbn := hp.toNat (b := b) (by simp)
  have hheader := hl.header
  have hbsize : ((h.block (blockAt b)).size).toNat = b.size := by
    rw [hheader, headerOf, BitVec.toNat_ofNat]
    omega
  have hcond : (h.block (blockAt b)).size ≤ size + heapHeaderSize + heapAlign ↔
      b.size ≤ size.toNat + 32 + 16 := by
    rw [BitVec.le_def, hbsize, BitVec.toNat_add, BitVec.toNat_add,
      show heapHeaderSize.toNat = 32 from rfl, show heapAlign.toNat = 16 from rfl]
    omega
  have hplaced := hp.carve hn
  unfold splitBlock
  unfold BlockList.carve at hplaced ⊢
  simp only [hcond]
  split_ifs at hplaced ⊢ with hc
  · exact hl.setFree false
  -- the rest becomes a block of its own
  obtain ⟨hlin₁, -, hlin₂⟩ := linked_append.mp hl.linked
  obtain ⟨-, hpb⟩ := hp.append
  obtain ⟨-, hp₂⟩ := (hpb.append (A := [b]))
  have hrest : blockAt b + heapHeaderSize + size =
      blockAt ⟨b.addr + 32 + size.toNat, b.size - size.toNat - 32, true⟩ := by
    apply BitVec.eq_of_toNat_eq
    rw [hplaced.toNat (by simp), BitVec.toNat_add, BitVec.toNat_add, hbn,
      show heapHeaderSize.toNat = 32 from rfl]
    dsimp only
    omega
  have hremaining : (h.block (blockAt b)).size - size - heapHeaderSize =
      BitVec.ofNat 64 (b.size - size.toNat - 32) := by
    apply BitVec.eq_of_toNat_eq
    rw [BitVec.toNat_ofNat, BitVec.toNat_sub_of_le, BitVec.toNat_sub_of_le, hbsize,
      show heapHeaderSize.toNat = 32 from rfl]
    · omega
    · rw [BitVec.le_def, hbsize]
      exact hn
    · rw [BitVec.le_def, BitVec.toNat_sub_of_le (by rw [BitVec.le_def, hbsize]; exact hn), hbsize,
        show heapHeaderSize.toNat = 32 from rfl]
      omega
  have hafter : (h.block (blockAt b)).next = firstAt 0#64 B := by rw [hheader]; rfl
  rw [hrest, hremaining, hafter]
  generalize hr : (⟨b.addr + 32 + size.toNat, b.size - size.toNat - 32, true⟩ : Block) = r at hplaced
  have hrs : BitVec.ofNat 64 (b.size - size.toNat - 32) = BitVec.ofNat 64 r.size := by rw [← hr]
  have hrf : r.free = true := by rw [← hr]
  have hplaced' : Placed (A ++ [⟨b.addr, size.toNat, false⟩] ++ r :: B) := by simpa using hplaced
  have hrb : blockAt r ≠ blockAt b :=
    fun he => hplaced'.ne_of_sides (b := ⟨b.addr, size.toNat, false⟩) (c := r) (by simp) (by simp) he.symm
  have hL₁ : ∀ d ∈ A, blockAt d ≠ blockAt b ∧ blockAt d ≠ blockAt r := fun d hd =>
    ⟨hp.ne_of_sides hd (by simp), hplaced'.ne_of_sides (by simp [hd]) (by simp)⟩
  have hL₂ : ∀ d ∈ B, blockAt d ≠ blockAt b ∧ blockAt d ≠ blockAt r := fun d hd =>
    ⟨hpb.ne_head hd, hplaced'.append.2.ne_head hd⟩
  have hfirst : ∀ x, x ≠ 0#64 → (∀ d ∈ B, blockAt d ≠ x) → firstAt 0#64 B ≠ x := by
    intro x hx hd
    cases B with
    | nil => exact hx.symm
    | cons d B => exact hd d (by simp)
  have hfb := hfirst _ (hp.ne_zero (b := b) (by simp)) fun d hd => (hL₂ d hd).1
  have hfr := hfirst _ (hplaced'.ne_zero (b := r) (by simp)) fun d hd => (hL₂ d hd).2
  have hfL₁ : ∀ d ∈ A, blockAt d ≠ firstAt 0#64 B := fun d hd he =>
    hfirst (blockAt d) (hp.ne_zero (by simp [hd]))
      (fun e he => (hp.ne_of_sides (c := e) hd (by simp [he])).symm) he.symm
  have hlist : A ++ ([⟨b.addr, size.toNat, false⟩, r] ++ B) =
      A ++ ⟨b.addr, size.toNat, false⟩ :: r :: B := by simp
  rw [hlist]
  rw [Heap.setFields]
  refine ⟨?_, linked_append.mpr ⟨?_, ?_, ?_, ?_⟩, by simpa using hplaced⟩
  · have hhead := hl.head
    simp only [Heap.set_head, Heap.setPrev_head]
    cases A <;> exact hhead
  · exact ((hlin₁.set_other fun d hd => (hL₁ d hd).2).setPrev_other hfL₁).set_other
      fun d hd => (hL₁ d hd).1
  · have hb' : ((h.set (blockAt r) ⟨heapMagic, 1, BitVec.ofNat 64 (b.size - size.toNat - 32),
        firstAt 0#64 B, blockAt b⟩).setPrev (firstAt 0#64 B) (blockAt r)).block (blockAt b) =
        h.block (blockAt b) := by
      rw [Heap.setPrev_block_ne hfb.symm, Heap.set_block_ne hrb.symm]
    refine (Heap.set_block_same _ _ _).trans ?_
    rw [hb', hheader]
    simp [headerOf, firstAt]
  · refine (Heap.set_block_ne hrb).trans ((Heap.setPrev_block_ne hfr.symm).trans ?_)
    rw [Heap.set_block_same, hrs]
    simp [headerOf, hrf, blockAt]
  · exact ((hlin₂.set_other fun d hd => (hL₂ d hd).2).setPrev hp₂ (fun _ => rfl) (blockAt r)).set_other
      fun d hd => (hL₂ d hd).1

/-- The scan stops at the place of the new block. -/
lemma insertScan_spec {x : Word} : ∀ (B : List Block) {A : List Block} {fuel : ℕ},
    HeapList h (A ++ B) → (∀ c ∈ A, c.addr < x.toNat) → B.length < fuel →
    ∃ M₁ M₂, A ++ B = M₁ ++ M₂ ∧ (∀ c ∈ M₁, c.addr < x.toNat) ∧ (∀ c ∈ M₂, x.toNat ≤ c.addr) ∧
      insertScan h x fuel (lastAt 0#64 A) (firstAt 0#64 B) =
        .ok (lastAt 0#64 M₁, firstAt 0#64 M₂)
  | [], A, fuel + 1, _, hlt, _ => ⟨A, [], rfl, hlt, by simp, by simp [insertScan, firstAt]⟩
  | b :: B, A, fuel + 1, hl, hlt, hf => by
    have hb0 : blockAt b ≠ 0#64 := hl.placed.ne_zero (by simp)
    have hbn := hl.placed.toNat (b := b) (by simp)
    have hnext : (h.block (blockAt b)).next = firstAt 0#64 B := by
      rw [hl.header]
      rfl
    rw [show firstAt 0#64 (b :: B) = blockAt b from rfl, insertScan, hnext]
    by_cases hbx : b.addr < x.toNat
    · rw [if_pos ⟨hb0, by rw [BitVec.lt_def, hbn]; exact hbx⟩]
      obtain ⟨M₁, M₂, he, h₁, h₂, hrun⟩ := insertScan_spec B (A := A ++ [b])
        (by simpa using hl) (by
          intro c hc
          rcases List.mem_append.mp hc with hc | hc
          · exact hlt c hc
          · rw [List.mem_singleton.mp hc]
            exact hbx) (by simpa using hf)
      rw [lastAt_snoc] at hrun
      exact ⟨M₁, M₂, by simpa using he, h₁, h₂, hrun⟩
    · rw [if_neg (by rw [BitVec.lt_def, hbn]; exact fun hc => hbx hc.2)]
      refine ⟨A, b :: B, rfl, hlt, fun c hc => ?_, rfl⟩
      rcases List.mem_cons.mp hc with rfl | hc
      · omega
      · have hbc := before_lt ((List.pairwise_cons.mp (hl.placed.append.2).sorted).1 c hc)
        omega

/-- Linking a block in between two stretches. -/
lemma HeapList.insert {q n : Word} (hl : HeapList h (A ++ B)) (hp : Placed (A ++ b :: B))
    (hb : h.block (blockAt b) = headerOf b q n) :
    let h₁ := h.set (blockAt b)
      { h.block (blockAt b) with prev := lastAt 0#64 A, next := firstAt 0#64 B }
    let h₂ := if lastAt 0#64 A ≠ 0#64 then h₁.setNext (lastAt 0#64 A) (blockAt b)
      else { h₁ with head := blockAt b }
    HeapList (h₂.setPrev (firstAt 0#64 B) (blockAt b)) (A ++ b :: B) := by
  intro h₁ h₂
  obtain ⟨hlin₁, hlin₂⟩ := linked_append.mp hl.linked
  obtain ⟨-, hpb⟩ := hp.append
  obtain ⟨-, hp₂⟩ := hpb.append (A := [b])
  have hL₁ : ∀ d ∈ A, blockAt d ≠ blockAt b := fun d hd => hp.ne_of_sides hd (by simp)
  have hL₂ : ∀ d ∈ B, blockAt d ≠ blockAt b := fun d hd => hpb.ne_head hd
  have hfirst : ∀ x, x ≠ 0#64 → (∀ d ∈ B, blockAt d ≠ x) → x ≠ firstAt 0#64 B := by
    intro x hx hd
    cases B with
    | nil => exact hx
    | cons d B => exact (hd d (by simp)).symm
  have hfb := hfirst _ (hp.ne_zero (b := b) (by simp)) hL₂
  have hbh : h₁.block (blockAt b) = headerOf b (lastAt 0#64 A) (firstAt 0#64 B) := by
    refine (Heap.set_block_same _ _ _).trans ?_
    rw [hb]
    rfl
  rcases List.eq_nil_or_concat A with rfl | ⟨A, p, rfl⟩
  · refine ⟨?_, ⟨?_, ?_⟩, hp⟩
    · simp [h₂, lastAt, firstAt]
    · rw [Heap.setPrev_block_ne hfb]
      exact hbh
    · have h' : Linked h₂.block 0#64 0#64 B := hlin₂.set_other hL₂
      exact h'.setPrev hp₂ (fun _ => rfl) (blockAt b)
  · rw [List.concat_eq_append] at *
    have hp0 : blockAt p ≠ 0#64 := hp.ne_zero (by simp)
    have hpb' : blockAt p ≠ blockAt b := hL₁ p (by simp)
    have hh₂ : h₂ = h₁.setNext (blockAt p) (blockAt b) := by simp [h₂, hp0]
    have hfp := hfirst (blockAt p) hp0 fun d hd =>
      (hp.ne_of_sides (b := p) (c := d) (by simp) (by simp [hd])).symm
    obtain ⟨hlin₀, hlinp, -⟩ := linked_append.mp hlin₁
    have hL₀ : ∀ d ∈ A, blockAt d ≠ blockAt p := fun d hd =>
      (hl.placed.append.1).ne_of_sides hd (by simp)
    have hfL₀ : ∀ d ∈ A, blockAt d ≠ firstAt 0#64 B := fun d hd =>
      hfirst _ (hp.ne_zero (by simp [hd])) fun e he => (hp.ne_of_sides (b := d) (by simp [hd]) (by simp [he])).symm
    rw [hh₂]
    refine ⟨?_, linked_append.mpr ⟨linked_append.mpr ⟨?_, ?_, trivial⟩, ?_, ?_⟩, hp⟩
    · have hhead := hl.head
      rw [Heap.setPrev_head]
      cases A <;> exact hhead
    · exact ((hlin₀.set_other fun d hd => hL₁ d (by simp [hd])).set_other hL₀).setPrev_other hfL₀
    · rw [Heap.setPrev_block_ne hfp]
      refine (Heap.set_block_same _ _ _).trans ?_
      rw [Heap.set_block_ne hpb', hlinp]
      rfl
    · rw [Heap.setPrev_block_ne hfb]
      exact (Heap.set_block_ne hpb'.symm).trans hbh
    · have h' : Linked (h₁.setNext (blockAt p) (blockAt b)).block 0#64 (blockAt p) B := by
        rw [← lastAt_snoc 0#64 A p]
        exact (hlin₂.set_other hL₂).set_other
          fun d hd => by
            rw [lastAt_snoc]
            exact (hp.ne_of_sides (b := p) (c := d) (by simp) (by simp [hd])).symm
      exact h'.setPrev hp₂ (fun _ => rfl) (blockAt b)

/-- The merges that end `insert_block_sorted`. -/
lemma mergeInserted_spec (hl : HeapList h (A ++ b :: B)) (hb : b.free = true) :
    ∃ M₁ d M₂ h', (if prevMergeable h (blockAt b) then do
        let h' ← coalesceForward h (h.block (blockAt b)).prev
        .ok ((h.block (blockAt b)).prev, h')
      else do
        let h' ← coalesceForward h (blockAt b)
        .ok (blockAt b, h')) = (.ok (blockAt d, h') : Run (Word × Heap)) ∧
      giveBack 32 A b B = M₁ ++ d :: M₂ ∧ HeapList h' (M₁ ++ d :: M₂) ∧ d.free = true ∧
      b.size ≤ d.size ∧ ∀ c ∈ M₁ ++ M₂, c ∈ A ++ B := by
  rcases List.eq_nil_or_concat A with rfl | ⟨A, p, rfl⟩
  · obtain ⟨h', hrun, hl'⟩ := coalesceForward_spec hl
    obtain ⟨n, M, he, hsize, hM⟩ := absorb_head 32 b B
    refine ⟨[], ⟨b.addr, n, b.free⟩, M, h', ?_, he, by rwa [he] at hl', hb, hsize, hM⟩
    rw [prevMergeable_nil hl, hrun]
    rfl
  · rw [List.concat_eq_append] at *
    obtain ⟨hprev, hiff⟩ := prevMergeable_snoc hl
    by_cases hm : prevMergeable h (blockAt b) = true
    · obtain ⟨hfree, htouch⟩ := hiff.mp hm
      obtain ⟨h', hrun, hl'⟩ := coalesceForward_spec (b := p)
        (by simpa using hl)
      have hstep : absorb 32 p (b :: B) =
          absorb 32 ⟨p.addr, p.size + (32 + b.size), p.free⟩ B := by
        rw [absorb, if_pos ⟨hb, htouch⟩]
      obtain ⟨n, M, he, hsize, hM⟩ :=
        absorb_head 32 ⟨p.addr, p.size + (32 + b.size), p.free⟩ B
      rw [hstep, he] at hl'
      refine ⟨A, ⟨p.addr, n, p.free⟩, M, h', ?_, ?_, hl', hfree, ?_, fun c hc => ?_⟩
      · rw [if_pos hm, hprev, hrun]
        rfl
      · rw [giveBack_snoc, if_pos hfree, absorb_absorb hb htouch, hstep, he]
      · dsimp only at hsize ⊢
        omega
      · rcases List.mem_append.mp hc with hc | hc
        · simp [hc]
        · exact List.mem_append_right _ (hM c hc)
    · obtain ⟨h', hrun, hl'⟩ := coalesceForward_spec hl
      obtain ⟨n, M, he, hsize, hM⟩ := absorb_head 32 b B
      rw [he] at hl'
      refine ⟨A ++ [p], ⟨b.addr, n, b.free⟩, M, h', ?_, ?_, hl', hb, hsize,
        fun c hc => (List.mem_append.mp hc).elim (List.mem_append_left _)
          fun hc => List.mem_append_right _ (hM c hc)⟩
      · rw [if_neg hm, hrun]
        rfl
      · rw [giveBack_of_gap fun hpf => hm (hiff.mpr hpf), he]

/-- `insert_block_sorted` puts a free block between its neighbours. -/
theorem insertBlockSorted_spec {q n : Word} (hl : HeapList h L) (hb : b.free = true)
    (hbh : h.block (blockAt b) = headerOf b q n) (hbound : 0 < b.addr ∧ b.stop 32 ≤ 2 ^ 52)
    (hgap : ∀ c ∈ L, Before 32 c b ∨ Before 32 b c) :
    ∃ A B M₁ d M₂ h', L = A ++ B ∧ Placed (A ++ b :: B) ∧
      insertBlockSorted h (blockAt b) = .ok (blockAt d, h') ∧
      giveBack 32 A b B = M₁ ++ d :: M₂ ∧ HeapList h' (M₁ ++ d :: M₂) ∧ d.free = true ∧
      b.size ≤ d.size ∧ ∀ c ∈ M₁ ++ M₂, c ∈ L := by
  have hbn : (blockAt b).toNat = b.addr := toNat_blockAt hbound.2
  obtain ⟨A, B, rfl, h₁, h₂, hscan⟩ := insertScan_spec (x := blockAt b) L (A := [])
    (by simpa using hl) (by simp) hl.placed.length_lt
  rw [hbn] at h₁ h₂
  have hplaced : Placed (A ++ b :: B) := by
    obtain ⟨hs₁, hs₂, hcross⟩ := sorted_append.mp hl.placed.sorted
    refine ⟨sorted_append.mpr ⟨hs₁, List.pairwise_cons.mpr ⟨fun c hc => ?_, hs₂⟩, fun c hc d hd => ?_⟩,
      fun c hc => ?_⟩
    · refine (hgap c (by simp [hc])).resolve_left fun hcb => ?_
      have hlt := before_lt hcb
      have hge := h₂ c hc
      omega
    · rcases List.mem_cons.mp hd with rfl | hd
      · refine (hgap c (by simp [hc])).resolve_right fun hbc => ?_
        have hlt := before_lt hbc
        have hlt' := h₁ c hc
        omega
      · exact hcross c hc d hd
    · rcases List.mem_append.mp hc with hc | hc
      · exact hl.placed.bound c (by simp [hc])
      · rcases List.mem_cons.mp hc with rfl | hc
        · exact hbound
        · exact hl.placed.bound c (by simp [hc])
  have hins := hl.insert hplaced hbh
  obtain ⟨M₁, d, M₂, h', hrun, hgive, hl', hd, hsize, hold⟩ := mergeInserted_spec hins hb
  refine ⟨A, B, M₁, d, M₂, h', rfl, hplaced, ?_, hgive, hl', hd, hsize, hold⟩
  have hscan' : insertScan h (blockAt b) linkFuel 0#64 h.head =
      .ok (lastAt 0#64 A, firstAt 0#64 B) := by
    rw [hl.head]
    exact hscan
  unfold insertBlockSorted
  rw [hscan', ok_bind]
  exact hrun

end Operations

/-- The blocks tile the pages that the heap has taken. -/
structure HeapInv (h : Heap) (pages : List Word) (L : List Block) : Prop where
  list : HeapList h L
  coalesced : Coalesced 32 L
  grain : OnGrain 16 L
  tiles : ∀ x, x ∈ covered 32 L ↔ ∃ p ∈ pages, OnPage p x
  page : ∀ p ∈ pages, IsPage p
  nodup : pages.Nodup

section Invariant

variable {h : Heap} {s : Phys} {b : Block} {pages l : List Word} {L A B : List Block} {size p : Word}

lemma heapInv_nil (block : Word → HeapBlock) : HeapInv ⟨0#64, block⟩ [] [] where
  list := ⟨rfl, trivial, ⟨List.Pairwise.nil, by simp⟩⟩
  coalesced := List.Pairwise.nil
  grain := by simp [OnGrain]
  tiles := by simp
  page := by simp
  nodup := List.nodup_nil

/-- Freeing a live block removes it from the live ones. -/
theorem HeapInv.kfree (hi : HeapInv h pages (A ++ b :: B)) (hb : b.free = false) :
    ∃ h' L', Platinum.kfree h (blockAt b + heapHeaderSize) = .ok h' ∧ HeapInv h' pages L' ∧
      live L' = live A ++ live B := by
  obtain ⟨h', hrun, hl⟩ := kfree_spec hi.list hb
  have hs : Sorted 32 (A ++ ⟨b.addr, b.size, true⟩ :: B) :=
    (hi.list.placed.set_free true).sorted
  obtain ⟨hc₁, hc, -⟩ := coalesced_append.mp hi.coalesced
  have hg : OnGrain 16 (A ++ ⟨b.addr, b.size, true⟩ :: B) := by
    obtain ⟨hA, hB⟩ := onGrain_append.mp hi.grain
    exact onGrain_append.mpr ⟨hA, onGrain_cons.mpr ⟨(onGrain_cons.mp hB).1, (onGrain_cons.mp hB).2⟩⟩
  refine ⟨h', _, hrun, ⟨hl, ?_, onGrain_giveBack (by omega) hg, fun x => ?_, hi.page, hi.nodup⟩,
    live_giveBack rfl⟩
  · exact coalesced_giveBack (by omega) hs hc₁ (List.pairwise_cons.mp hc).2
  · rw [covered_giveBack, ← hi.tiles x, covered_append, covered_append, covered_cons, covered_cons]
    rfl

/-- Handing out the first bytes of a free block. -/
lemma HeapInv.carve (hi : HeapInv h pages (A ++ b :: B)) (hb : b.free = true)
    (hn : size.toNat ≤ b.size) (hsize : 16 ∣ size.toNat) :
    HeapInv ((splitBlock h (blockAt b) size).setFree (blockAt b) 0) pages
      (A ++ (BlockList.carve 32 16 b size.toNat ++ B)) := by
  have hs := hi.list.placed.sorted
  obtain ⟨hgA, hgB⟩ := onGrain_append.mp hi.grain
  obtain ⟨hgb, hgB⟩ := onGrain_cons.mp hgB
  have hg : OnGrain 16 (A ++ (BlockList.carve 32 16 b size.toNat ++ B)) :=
    onGrain_append.mpr ⟨hgA, onGrain_append.mpr ⟨onGrain_carve (by omega) hsize hgb, hgB⟩⟩
  refine ⟨splitBlock_spec hi.list hn, coalesced_carve hi.coalesced hs hb hn, hg, fun x => ?_,
    hi.page, hi.nodup⟩
  rw [← hi.tiles x, covered_append, covered_append, covered_carve, covered_append, covered_cons,
    covered_cons]
  simp

/-- A page outside the heap lies in a gap between blocks. -/
lemma HeapInv.page_gap (hi : HeapInv h pages L) (hp : IsPage p) (hno : p ∉ pages) :
    ∀ c ∈ L, Before 32 c ⟨p.toNat, 4064, true⟩ ∨ Before 32 ⟨p.toNat, 4064, true⟩ c := by
  intro c hc
  by_contra hcon
  push Not at hcon
  simp only [Before, Block.stop, not_le] at hcon
  -- the larger of the two starts lies in both
  have hin : ∃ x, OnPage p x ∧ x ∈ covered 32 L := by
    rcases Nat.le_total p.toNat c.addr with hle | hle
    · exact ⟨c.addr, ⟨by omega, by omega⟩, c, hc, le_rfl, by rw [Block.stop]; omega⟩
    · exact ⟨p.toNat, ⟨by omega, by omega⟩, c, hc, hle, by rw [Block.stop]; omega⟩
  obtain ⟨x, hx, hcov⟩ := hin
  obtain ⟨q, hq, hqx⟩ := (hi.tiles x).mp hcov
  exact hno (onPage_unique hp.aligned (hi.page q hq).aligned hx hqx ▸ hq)

/-- Growing by a page. -/
lemma HeapInv.grow (hi : HeapInv h pages L) (hp : IsPage p) (hno : p ∉ pages) :
    ∃ M₁ d M₂ h', insertBlockSorted
        (h.set p ⟨heapMagic, 1, heapPageSize - heapHeaderSize, 0#64, 0#64⟩) p = .ok (blockAt d, h') ∧
      HeapInv h' (p :: pages) (M₁ ++ d :: M₂) ∧ d.free = true ∧ 4064 ≤ d.size ∧
      live (M₁ ++ d :: M₂) = live L ∧ ∀ c ∈ M₁ ++ M₂, c ∈ L := by
  have hal := hp.aligned
  have hlt := hp.lt
  have hpos : 0 < p.toNat := Nat.pos_of_ne_zero fun h0 => hp.ne_zero (BitVec.eq_of_toNat_eq h0)
  have hgap := hi.page_gap hp hno
  have hat : blockAt ⟨p.toNat, 4064, true⟩ = p := by simp [blockAt]
  have hne : ∀ c ∈ L, blockAt c ≠ p := by
    intro c hc he
    have hn := hi.list.placed.toNat hc
    rw [he] at hn
    rcases hgap c hc with hb | hb <;> have hb := before_lt hb <;> dsimp only at hb <;> omega
  have hl : HeapList (h.set p ⟨heapMagic, 1, heapPageSize - heapHeaderSize, 0#64, 0#64⟩) L :=
    ⟨hi.list.head, hi.list.linked.set_other hne, hi.list.placed⟩
  obtain ⟨A, B, M₁, d, M₂, h', rfl, hplaced, hrun, hgive, hl', hd, hsize, hold⟩ :=
    insertBlockSorted_spec (b := ⟨p.toNat, 4064, true⟩) (q := 0#64) (n := 0#64) hl rfl
      (by
        rw [hat, Heap.set_block_same, headerOf, show heapPageSize - heapHeaderSize = 4064#64 from rfl]
        rfl)
      ⟨hpos, by simp only [Block.stop]; omega⟩ hgap
  rw [hat] at hrun
  obtain ⟨hc₁, hc₂, -⟩ := coalesced_append.mp hi.coalesced
  obtain ⟨hg₁, hg₂⟩ := onGrain_append.mp hi.grain
  have hgp : 16 ∣ p.toNat ∧ 16 ∣ 4064 := ⟨by omega, by omega⟩
  refine ⟨M₁, d, M₂, h', hrun, ⟨hl', ?_, ?_, fun x => ?_, ?_, ?_⟩, hd, hsize, ?_, hold⟩
  · rw [← hgive]
    exact coalesced_giveBack (by omega) hplaced.sorted hc₁ hc₂
  · rw [← hgive]
    exact onGrain_giveBack (by omega) (onGrain_append.mpr ⟨hg₁, onGrain_cons.mpr ⟨hgp, hg₂⟩⟩)
  · have hx := hi.tiles x
    rw [covered_append] at hx
    rw [← hgive, covered_giveBack, covered_append, covered_cons]
    have hpage : (x ∈ {x | p.toNat ≤ x ∧ x < Block.stop 32 ⟨p.toNat, 4064, true⟩}) ↔ OnPage p x :=
      Iff.rfl
    simp only [Set.mem_union, hpage, List.exists_mem_cons_iff] at hx ⊢
    rw [← hx]
    tauto
  · exact List.forall_mem_cons.mpr ⟨hp, hi.page⟩
  · exact List.nodup_cons.mpr ⟨hno, hi.nodup⟩
  · rw [← hgive, live_giveBack rfl, live_append]

/-- The ways `kmalloc` can end. -/
inductive MallocOutcome (h : Heap) (s : Phys) (pages l : List Word) (L : List Block) (n : ℕ) :
    Run (Word × Heap × Phys) → Prop
  | none (hfit : ∀ c ∈ L, ¬ Fits n c) (hno : l = [] ∨ 4064 < n) :
      MallocOutcome h s pages l L n (.ok (0#64, h, s))
  | found {h' : Heap} {C D L' : List Block} {b : Block} (hfit : ∃ c ∈ L, Fits n c)
      (inv : HeapInv h' pages L') (hlive : live L = C ++ D) (hlive' : live L' = C ++ b :: D)
      (hb : b.free = false) (hsize : n ≤ b.size) :
      MallocOutcome h s pages l L n (.ok (blockAt b + heapHeaderSize, h', s))
  | grown {h' : Heap} {s' : Phys} {p : Word} {l' : List Word} {C D L' : List Block} {b : Block}
      (hfit : ∀ c ∈ L, ¬ Fits n c) (hl : l = p :: l') (hn : n ≤ 4064)
      (inv : HeapInv h' (p :: pages) L') (hlive : live L = C ++ D) (hlive' : live L' = C ++ b :: D)
      (hb : b.free = false) (hsize : n ≤ b.size) (free : FreeList s' l') (mem : s'.mem = s.mem)
      (globals : SameGlobals s s') :
      MallocOutcome h s pages l L n (.ok (blockAt b + heapHeaderSize, h', s'))

/-- Rounding up drops the upper half of the size. -/
lemma toNat_heapAlignUp (size : Word) :
    (heapAlignUp size).toNat = (size.toNat + 15) % 2 ^ 32 / 16 * 16 := by
  rw [heapAlignUp, toNat_and_mask _ (k := 4) (n := 32) (by omega) (by omega) (by decide),
    BitVec.toNat_add, show (heapAlign - 1#64).toNat = 15 from rfl]
  omega

lemma heapAlignUp_grain (size : Word) : 16 ∣ (heapAlignUp size).toNat := by
  rw [toNat_heapAlignUp]
  exact Nat.dvd_mul_left 16 _

/-- `kmalloc` from a free block of the heap; the page allocator is not asked. -/
lemma kmalloc_found (hi : HeapInv h pages (A ++ b :: B)) (hsize : size ≠ 0#64)
    (hfit : Fits (heapAlignUp size).toNat b)
    (hrun : findBlock h (heapAlignUp size) = .ok (blockAt b)) :
    ∃ h', kmalloc h s size = .ok (blockAt b + heapHeaderSize, h', s) ∧
      HeapInv h' pages (A ++ (BlockList.carve 32 16 b (heapAlignUp size).toNat ++ B)) := by
  have hb0 : blockAt b ≠ 0#64 := hi.list.placed.ne_zero (by simp)
  refine ⟨_, ?_, hi.carve hfit.1 hfit.2 (heapAlignUp_grain size)⟩
  unfold kmalloc
  rw [if_neg hsize]
  dsimp only
  rw [hrun, ok_bind, if_neg hb0, ok_bind]
  exact if_neg hb0

/-- `kmalloc` from the first free page. -/
lemma kmalloc_grown (hi : HeapInv h pages L) (hfree : FreeList s (p :: l)) (hp : p ∉ pages)
    (hsize : size ≠ 0#64) (hle : (heapAlignUp size).toNat ≤ 4064)
    (hrun : findBlock h (heapAlignUp size) = .ok 0#64) :
    ∃ h₁ h' s' A d B, kmalloc h s size = .ok (blockAt d + heapHeaderSize, h', s') ∧
      HeapInv h₁ (p :: pages) (A ++ d :: B) ∧ d.free = true ∧ 4064 ≤ d.size ∧
      live (A ++ d :: B) = live L ∧ (∀ c ∈ A ++ B, c ∈ L) ∧
      HeapInv h' (p :: pages) (A ++ (BlockList.carve 32 16 d (heapAlignUp size).toNat ++ B)) ∧
      FreeList s' l ∧ s'.mem = s.mem ∧ SameGlobals s s' := by
  have hpage := hfree.pages p (by simp)
  obtain ⟨s', halloc, hfree', hmem, hg⟩ := pallocAlloc_cons hfree
  obtain ⟨A, d, B, h₁, hins, hi', hdf, hds, hlive, hold⟩ := hi.grow hpage hp
  have hd0 : blockAt d ≠ 0#64 := hi'.list.placed.ne_zero (by simp)
  refine ⟨h₁, _, s', A, d, B, ?_, hi', hdf, hds, hlive, hold,
    hi'.carve hdf (hle.trans hds) (heapAlignUp_grain size), hfree', hmem, hg⟩
  have hc : ¬ heapPageSize - heapHeaderSize < heapAlignUp size := Nat.not_lt_of_le hle
  unfold kmalloc growHeap
  rw [if_neg hsize]
  dsimp only
  rw [hrun, ok_bind, if_pos rfl, if_neg hc, halloc]
  dsimp only
  rw [if_neg hpage.ne_zero, hins, ok_bind, ok_bind]
  exact if_neg hd0

/-- `kmalloc` takes the first fit, or grows by the first free page. -/
theorem kmalloc_spec (hi : HeapInv h pages L) (hfree : FreeList s l) (hd : ∀ p ∈ pages, p ∉ l)
    (hsize : size ≠ 0#64) :
    MallocOutcome h s pages l L (heapAlignUp size).toNat (kmalloc h s size) := by
  rcases findBlock_spec hi.list (heapAlignUp size) with
    ⟨M₁, b, M₂, rfl, hfit, -, hrun⟩ | ⟨hno, hrun⟩
  · obtain ⟨h', hmalloc, hi'⟩ := kmalloc_found (s := s) hi hsize hfit hrun
    obtain ⟨n, hlive, hn, -⟩ := live_carve 32 16 hfit.2
    rw [hmalloc]
    refine .found (C := live M₁) (D := live M₂) (b := ⟨b.addr, n, false⟩) ⟨b, by simp, hfit⟩ hi'
      ?_ (by simp [hlive]) rfl hn
    rw [live_append, live_cons_free hfit.1]
  · have hcap : heapPageSize - heapHeaderSize < heapAlignUp size ↔ 4064 < (heapAlignUp size).toNat :=
      Iff.rfl
    have hnone (hno' : l = [] ∨ 4064 < (heapAlignUp size).toNat) :
        kmalloc h s size = .ok (0#64, h, s) := by
      unfold kmalloc growHeap
      rw [if_neg hsize]
      dsimp only
      rw [hrun, ok_bind, if_pos rfl]
      by_cases hc : heapPageSize - heapHeaderSize < heapAlignUp size
      · rw [if_pos hc]
        rfl
      · obtain rfl := hno'.resolve_right (mt hcap.mpr hc)
        rw [if_neg hc, pallocAlloc_nil hfree]
        rfl
    by_cases hc : 4064 < (heapAlignUp size).toNat
    · rw [hnone (.inr hc)]
      exact .none hno (.inr hc)
    cases l with
    | nil =>
      rw [hnone (.inl rfl)]
      exact .none hno (.inl rfl)
    | cons p l =>
      have hle : (heapAlignUp size).toNat ≤ 4064 := by omega
      obtain ⟨h₁, h', s', M₁, d, M₂, hmalloc, -, hdf, hds, hlive, -, hi', hfree', hmem, hg⟩ :=
        kmalloc_grown hi hfree (fun hm => hd p hm (by simp)) hsize hle hrun
      obtain ⟨n, hlive', hn, -⟩ := live_carve 32 16 (hle.trans hds)
      rw [hmalloc]
      refine .grown (C := live M₁) (D := live M₂) (b := ⟨d.addr, n, false⟩) hno rfl hle hi' ?_
        (by simp [hlive']) rfl hn hfree' hmem hg
      rw [← hlive, live_append, live_cons_free hdf]

/-- A field that the cleared bytes miss keeps its value. -/
lemma clearField_of_outside {ptr size field : Word} {w : ℕ} {v : BitVec w}
    (ho : ∀ i < w / 8, ¬ field + BitVec.ofNat 64 i - ptr < size) :
    clearField ptr size field v = v := by
  unfold clearField
  generalize w / 8 = n at ho
  induction n with
  | zero => rfl
  | succ n ih =>
    rw [List.range_succ, List.foldl_append, ih fun i hi => ho i (by omega)]
    simp [ho n (by omega)]

/-- Clearing bytes of a payload writes no header. -/
lemma HeapList.clear (hl : HeapList h L) (hb : b ∈ L) (hsize : size.toNat ≤ b.size) :
    HeapList (h.clear (blockAt b + heapHeaderSize) size) L := by
  refine ⟨hl.head, hl.linked.congr fun c hc => ?_, hl.placed⟩
  have hmiss : ∀ k < 32, ¬ blockAt c + BitVec.ofNat 64 k - (blockAt b + heapHeaderSize) < size := by
    intro k hk
    have hcb := hl.placed.bound c hc
    have hbb := hl.placed.bound b hb
    have hside := hl.placed.apart hb hc
    have hsz : heapHeaderSize.toNat = 32 := rfl
    simp only [Before, Block.stop] at hcb hbb hside
    rw [BitVec.lt_def, BitVec.toNat_sub, BitVec.toNat_add, BitVec.toNat_add, BitVec.toNat_ofNat,
      hl.placed.toNat hc, hl.placed.toNat hb, hsz]
    rcases hside with rfl | hside | hside <;> omega
  -- a field at `offset` of the header
  have hfield : ∀ (offset : ℕ) {w : ℕ} (v : BitVec w), offset + w / 8 ≤ 32 →
      clearField (blockAt b + heapHeaderSize) size (blockAt c + BitVec.ofNat 64 offset) v = v := by
    intro offset w v hle
    refine clearField_of_outside fun i hi => ?_
    rw [BitVec.add_assoc, ← BitVec.ofNat_add]
    exact hmiss (offset + i) (by omega)
  have h0 := hfield 0 (h.block (blockAt c)).magic (by omega)
  rw [BitVec.add_zero] at h0
  simp only [Heap.clear, h0, hfield 4 _ (show 4 + 32 / 8 ≤ 32 by omega),
    hfield 8 _ (show 8 + 64 / 8 ≤ 32 by omega), hfield 16 _ (show 16 + 64 / 8 ≤ 32 by omega),
    hfield 24 _ (show 24 + 64 / 8 ≤ 32 by omega)]

/-- The rounded size is large enough unless rounding drops its upper half. -/
lemma le_heapAlignUp (hsize : size.toNat ≤ 0xFFFFFFF0) : size.toNat ≤ (heapAlignUp size).toNat := by
  rw [toNat_heapAlignUp]
  omega

/-- Clearing a payload that was just handed out. -/
lemma kzalloc_of_kmalloc {h' : Heap} {s' : Phys} (hi : HeapInv h' pages L) (hb : b ∈ L)
    (hsize : size.toNat ≤ b.size)
    (hrun : kmalloc h s size = .ok (blockAt b + heapHeaderSize, h', s')) :
    kzalloc h s size = .ok (blockAt b + heapHeaderSize, h'.clear (blockAt b + heapHeaderSize) size, s') ∧
      HeapInv (h'.clear (blockAt b + heapHeaderSize) size) pages L := by
  refine ⟨?_, { hi with list := hi.list.clear hb hsize }⟩
  unfold kzalloc
  rw [hrun, ok_bind]
  exact if_neg (hi.list.payload_ne_zero hb)

/-- `kzalloc` clears its own payload only. -/
theorem kzalloc_spec (hi : HeapInv h pages L) (hfree : FreeList s l) (hd : ∀ p ∈ pages, p ∉ l)
    (hsize : size ≠ 0#64) (hle : size.toNat ≤ 0xFFFFFFF0) :
    MallocOutcome h s pages l L (heapAlignUp size).toNat (kzalloc h s size) := by
  have hround := le_heapAlignUp hle
  have hmalloc := kmalloc_spec hi hfree hd hsize
  generalize hx : kmalloc h s size = outcome at hmalloc
  cases hmalloc with
  | none hfit hno =>
    unfold kzalloc
    rw [hx]
    exact .none hfit hno
  | @found h' C D L' b hfit inv hlive hlive' hb hn =>
    have hmem : b ∈ L' := (mem_live.mp (by rw [hlive']; simp)).1
    obtain ⟨hrun, hi'⟩ := kzalloc_of_kmalloc inv hmem (hround.trans hn) hx
    rw [hrun]
    exact .found hfit hi' hlive hlive' hb hn
  | @grown h' s' p l' C D L' b hfit hl hn inv hlive hlive' hb hs free mem globals =>
    have hmem : b ∈ L' := (mem_live.mp (by rw [hlive']; simp)).1
    obtain ⟨hrun, hi'⟩ := kzalloc_of_kmalloc inv hmem (hround.trans hs) hx
    rw [hrun]
    exact .grown hfit hl hn hi' hlive hlive' hb hs free mem globals

end Invariant

end Platinum
