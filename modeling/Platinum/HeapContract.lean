import Platinum.HeapRun

/-!
# What an allocation promises

`AllocContract` is the contract of `kmalloc` and `kzalloc`. The mask that rounds
a request has 32 bits. A larger request keeps the contract only where nothing
serves the size it is rounded to.
-/
namespace Platinum
open ByteMemory BlockList

/-- The call that turned the blocks `L` into `L'` handed out `size` bytes at `p`. -/
structure Served (L L' : List Block) (size p : Word) : Prop where
  aligned : 16 ∣ p.toNat
  block : ∃ b ∈ live L', payloadAt b = p ∧ size.toNat ≤ b.size
  headers : ∀ c ∈ L', c.addr + 32 ≤ p.toNat ∨ p.toNat + size.toNat ≤ c.addr
  payloads : ∀ c ∈ live L', payloadAt c ≠ p →
    c.stop 32 ≤ p.toNat ∨ p.toNat + size.toNat ≤ c.addr + 32
  others : ∀ c, c ∈ live L ↔ c ∈ live L' ∧ payloadAt c ≠ p

/-- No free block holds `size` bytes, and no page can be added for them. -/
structure Refused (L : List Block) (s : Phys) (size : Word) : Prop where
  blocks : ∀ b ∈ L, b.free = true → b.size < size.toNat
  pages : heapPageSize - heapHeaderSize < size ∨ (pallocAlloc s).1 = 0#64

def AllocContract (h : Heap) (s : Phys) (size : Word) (x : Run (Word × Heap × Phys)) : Prop :=
  ∃ L p h' s', HeapList h L ∧ x = .ok (p, h', s') ∧
    (p ≠ 0#64 → ∃ L', HeapList h' L' ∧ Served L L' size p) ∧ (p = 0#64 → Refused L s size)

section Contract

variable {h h' : Heap} {s s' : Phys} {b : Block} {L L' C D : List Block} {pages ptrs l : List Word}
  {size p : Word}

lemma Placed.toNat_payloadAt (hp : Placed L) (hb : b ∈ L) : (payloadAt b).toNat = b.addr + 32 := by
  have hbound := (hp.bound b hb).2
  have hstop : b.stop 32 = b.addr + 32 + b.size := rfl
  rw [payloadAt, BitVec.toNat_add, hp.toNat hb, show heapHeaderSize.toNat = 32 from rfl]
  omega

/-- A new block among the old ones keeps the contract. -/
lemma HeapInv.served (hi : HeapInv h' pages L') (hlive : live L = C ++ D)
    (hlive' : live L' = C ++ b :: D) (hsize : size.toNat ≤ b.size) :
    Served L L' size (payloadAt b) := by
  have hb : b ∈ live L' := by simp [hlive']
  have hbL := (mem_live.mp hb).1
  have haddr := hi.list.placed.toNat_payloadAt hbL
  have hstop (c : Block) : c.stop 32 = c.addr + 32 + c.size := rfl
  refine ⟨?_, ⟨b, hb, rfl, hsize⟩, fun c hc => ?_, fun c hc hne => ?_, fun c => ?_⟩
  · have hgrain := (hi.grain b hbL).1
    omega
  · have hbs := hstop b
    have hcs := hstop c
    rcases hi.list.placed.apart hbL hc with rfl | hside | hside <;> unfold Before at * <;> omega
  · have hbs := hstop b
    rcases hi.list.placed.apart hbL (mem_live.mp hc).1 with rfl | hside | hside
    · exact absurd rfl hne
    · unfold Before at hside
      omega
    · unfold Before at hside
      omega
  · rw [hlive]
    exact hi.mem_live_split hlive' c

/-- Where rounding keeps the size, the outcomes of an allocation keep the contract. -/
lemma MallocOutcome.contract {x : Run (Word × Heap × Phys)} (hs : HeapState h s pages ptrs L l)
    (hle : size.toNat ≤ 0xFFFFFFF0)
    (hout : MallocOutcome h s pages l L (heapAlignUp size).toNat x) : AllocContract h s size x := by
  have hround := le_heapAlignUp hle
  cases hout with
  | none hfit hno =>
    refine ⟨L, 0#64, h, s, hs.inv.list, rfl, fun h0 => absurd rfl h0, fun _ => ⟨?_, ?_⟩⟩
    · intro b hb hf
      have hnot : ¬ (heapAlignUp size).toNat ≤ b.size := fun hle => hfit b hb ⟨hf, hle⟩
      have hgrain := (hs.inv.grain b hb).2
      rw [toNat_heapAlignUp] at hnot
      omega
    · rcases hno with rfl | hbig
      · rw [pallocAlloc_nil hs.free]
        exact .inr rfl
      · rw [toNat_heapAlignUp] at hbig
        refine .inl ?_
        rw [BitVec.lt_def, show (heapPageSize - heapHeaderSize).toNat = 4064 from rfl]
        omega
  | found hfit inv hlive hlive' hb hn =>
    exact ⟨L, _, _, _, hs.inv.list, rfl,
      fun _ => ⟨_, inv.list, inv.served hlive hlive' (hround.trans hn)⟩,
      fun h0 => absurd h0 (inv.list.payload_ne_zero (mem_live.mp (by rw [hlive']; simp)).1)⟩
  | grown hfit hl hcap inv hlive hlive' hb hn =>
    exact ⟨L, _, _, _, hs.inv.list, rfl,
      fun _ => ⟨_, inv.list, inv.served hlive hlive' (hround.trans hn)⟩,
      fun h0 => absurd h0 (inv.list.payload_ne_zero (mem_live.mp (by rw [hlive']; simp)).1)⟩

/-- A request that nothing serves after rounding is refused for the size asked for. -/
lemma HeapState.refused (hs : HeapState h s pages ptrs L l)
    (hbig : 0xFFFFFFF0 < size.toNat) (hfind : findBlock h (heapAlignUp size) = .ok 0#64) :
    Refused L s size := by
  refine ⟨fun b hb hf => ?_, .inl ?_⟩
  · rcases findBlock_spec hs.inv.list (heapAlignUp size) with ⟨A, c, B, rfl, -, -, hrun⟩ | ⟨hno, -⟩
    · rw [hfind] at hrun
      exact absurd (Except.ok.inj hrun).symm (hs.inv.list.placed.ne_zero (by simp))
    · have hnot : ¬ (heapAlignUp size).toNat ≤ b.size := fun hle => hno b hb ⟨hf, hle⟩
      rw [toNat_heapAlignUp] at hnot
      omega
  · rw [BitVec.lt_def, show (heapPageSize - heapHeaderSize).toNat = 4064 from rfl]
    omega

/-- The block of a carved payload is hardly larger than the rounded size. -/
lemma HeapInv.room_le {n : ℕ} (hi : HeapInv h' pages (C ++ (BlockList.carve 32 16 b n ++ D)))
    (hn : n ≤ b.size) :
    (h'.block (payloadAt b - heapHeaderSize)).size.toNat ≤ n + 48 := by
  obtain ⟨k, hcarve, -, hk⟩ := live_carve 32 16 hn
  have hmem : (⟨b.addr, k, false⟩ : Block) ∈ C ++ (BlockList.carve 32 16 b n ++ D) := by
    refine (mem_live.mp ?_).1
    rw [live_append, live_append, hcarve]
    simp
  have hat : payloadAt b - heapHeaderSize = blockAt ⟨b.addr, k, false⟩ := by
    rw [payloadAt, BitVec.add_sub_cancel]
    rfl
  obtain ⟨A, B, hsplit⟩ := List.append_of_mem hmem
  have hheader := (hsplit ▸ hi.list).header
  rw [hat, hheader]
  exact (Nat.mod_le _ _).trans hk

/-- A request is not served, or gets a block that is hardly larger than the rounded size. -/
lemma HeapState.kmalloc_cases (hs : HeapState h s pages ptrs L l) (h0 : size ≠ 0#64) :
    (findBlock h (heapAlignUp size) = .ok 0#64 ∧
      (s.freeListHead = 0#64 ∨ heapPageSize - heapHeaderSize < heapAlignUp size)) ∨
    ∃ p h' s', kmalloc h s size = .ok (p, h', s') ∧ p ≠ 0#64 ∧
      (h'.block (p - heapHeaderSize)).size.toNat ≤ (heapAlignUp size).toNat + 48 := by
  rcases findBlock_spec hs.inv.list (heapAlignUp size) with
    ⟨A, b, B, rfl, hfit, -, hfind⟩ | ⟨-, hfind⟩
  · obtain ⟨h₁, hmalloc, hi⟩ := kmalloc_found (s := s) hs.inv h0 hfit hfind
    exact .inr ⟨_, _, _, hmalloc, hs.inv.list.payload_ne_zero (by simp), hi.room_le hfit.2⟩
  · by_cases hcap : 4064 < (heapAlignUp size).toNat
    · exact .inl ⟨hfind, .inr hcap⟩
    cases l with
    | nil => exact .inl ⟨hfind, .inl hs.free.chain⟩
    | cons q l =>
      have hle : (heapAlignUp size).toNat ≤ 4064 := Nat.le_of_not_lt hcap
      obtain ⟨h₁, h₂, s₂, A, d, B, hmalloc, hi₁, -, hds, -, -, hi, -⟩ :=
        kmalloc_grown hs.inv hs.free (fun hq => hs.apart q hq (by simp)) h0 hle hfind
      exact .inr ⟨_, _, _, hmalloc, hi₁.list.payload_ne_zero (by simp), hi.room_le (hle.trans hds)⟩

/-- Clearing bytes makes no field larger. -/
lemma clearField_le (ptr size field : Word) {w : ℕ} (v : BitVec w) :
    (clearField ptr size field v).toNat ≤ v.toNat := by
  unfold clearField
  generalize List.range (w / 8) = indices
  induction indices generalizing v with
  | nil => exact le_rfl
  | cons i indices ih =>
    refine (ih _).trans ?_
    dsimp only
    split_ifs
    · rw [BitVec.toNat_and]
      exact Nat.and_le_left
    · exact le_rfl

/-- The header of a served payload says that it is large enough. -/
lemma Served.room (hsv : Served L L' size p) (hl : HeapList h' L') :
    size.toNat ≤ (h'.block (p - heapHeaderSize)).size.toNat := by
  obtain ⟨b, hb, rfl, hsize⟩ := hsv.block
  obtain ⟨A, B, rfl⟩ := List.append_of_mem (mem_live.mp hb).1
  have hbound := (hl.placed.bound b (by simp)).2
  have hstop : b.stop 32 = b.addr + 32 + b.size := rfl
  have hnat : (BitVec.ofNat 64 b.size).toNat = b.size := by
    rw [BitVec.toNat_ofNat]
    omega
  rw [payloadAt, BitVec.add_sub_cancel, hl.header]
  exact hsize.trans hnat.ge

/-- What a request that loses its upper half gets is too small for it. -/
lemma AllocContract.not_cut {p : Word} {x : Run (Word × Heap × Phys)}
    (hc : AllocContract h s size x) (hx : x = .ok (p, h', s')) (hp : p ≠ 0#64)
    (hroom : (h'.block (p - heapHeaderSize)).size.toNat ≤ (heapAlignUp size).toNat + 48) :
    size.toNat ≤ 0xFFFFFFF0 := by
  obtain ⟨L, p₁, h₁, s₁, -, he, hserved, -⟩ := hc
  cases he.symm.trans hx
  obtain ⟨L', hl, hsv⟩ := hserved hp
  have hle := (hsv.room hl).trans hroom
  rw [toNat_heapAlignUp] at hle
  omega

end Contract

/-- Either call, in a state that a run with clears inside their blocks reaches, keeps the
contract for every request but those that lose their upper half and are still served. -/
theorem heapAlloc_contract_iff {h : Heap} {s : Phys} {pages ptrs : List Word}
    (run : HeapRun KzallocInBlock h s pages ptrs) {size : Word} (h0 : size ≠ 0#64) :
    (AllocContract h s size (kmalloc h s size) ↔ KzallocInBlock h s size) ∧
      (AllocContract h s size (kzalloc h s size) ↔ KzallocInBlock h s size) := by
  obtain ⟨L, l, hs⟩ := heapRun_state run
  -- unserved requests
  have hnone (hle : ¬ size.toNat ≤ 0xFFFFFFF0) (hfind : findBlock h (heapAlignUp size) = .ok 0#64) :
      AllocContract h s size (.ok (0#64, h, s)) :=
    ⟨L, 0#64, h, s, hs.inv.list, rfl, fun h0 => absurd rfl h0,
      fun _ => hs.refused (by omega) hfind⟩
  refine ⟨⟨fun hc => ?_, fun hin => ?_⟩, ⟨fun hc => ?_, fun hin => ?_⟩⟩
  · rcases hs.kmalloc_cases h0 with hno | ⟨p, h', s', hrun, hp, hroom⟩
    · by_cases hle : size.toNat ≤ 0xFFFFFFF0
      · exact .inl hle
      · exact .inr hno
    · exact .inl (hc.not_cut hrun hp hroom)
  · by_cases hle : size.toNat ≤ 0xFFFFFFF0
    · exact (kmalloc_spec hs.inv hs.free hs.apart h0).contract hs hle
    · obtain ⟨hfind, hno⟩ := hin.resolve_left hle
      rw [kmalloc_unserved h0 hfind hno]
      exact hnone hle hfind
  · rcases hs.kmalloc_cases h0 with hno | ⟨p, h', s', hrun, hp, hroom⟩
    · by_cases hle : size.toNat ≤ 0xFFFFFFF0
      · exact .inl hle
      · exact .inr hno
    · have hz : kzalloc h s size = .ok (p, h'.clear p size, s') := by
        unfold kzalloc
        rw [hrun, ok_bind]
        exact if_neg hp
      exact .inl (hc.not_cut hz hp ((clearField_le _ _ _ _).trans hroom))
  · by_cases hle : size.toNat ≤ 0xFFFFFFF0
    · exact (kzalloc_spec hs.inv hs.free hs.apart h0 hle).contract hs hle
    · obtain ⟨hfind, hno⟩ := hin.resolve_left hle
      rw [kzalloc_unserved h0 hfind hno]
      exact hnone hle hfind

/-- On a heap with a block in use and one given back, 48 bytes keep the contract, 4 GiB do not. -/
theorem heapAlloc_contract_iff_sample : ∃ h s, HeapRun KzallocInBlock h s [0x02000000#64] [0x02000070#64] ∧
    AllocContract h s 48#64 (kmalloc h s 48#64) ∧
    ¬ AllocContract h s 0x100000000#64 (kzalloc h s 0x100000000#64) := by
  obtain ⟨h, s, run, hfind⟩ := usedHeap_exists
  refine ⟨h, s, run, (heapAlloc_contract_iff run (by decide)).1.mpr (.inl (by decide)), fun hc => ?_⟩
  rcases (heapAlloc_contract_iff run (by decide)).2.mp hc with hle | ⟨hnone, -⟩
  · exact absurd hle (by decide)
  · rw [show heapAlignUp 0x100000000#64 = 0#64 by decide, hfind] at hnone
    exact absurd (Except.ok.inj hnone) (by decide)

/-- 2³² bytes are rounded to none and served from a free page. -/
theorem heapAlloc_contract_cut : ¬ ∀ h s pages ptrs, HeapRun (fun _ _ _ => True) h s pages ptrs →
    ∀ size, size ≠ 0#64 → AllocContract h s size (kmalloc h s size) := by
  intro hclaim
  have hc := hclaim _ _ _ _ (.init (h := emptyHeap) onePage_free) 0x100000000#64 (by decide)
  obtain ⟨⟨p, h', s'⟩, hr⟩ := emptyHeap_state.kmalloc_ok 0x100000000#64
  have hp : (kmalloc emptyHeap onePage 0x100000000#64).map (fun r => r.1) = .ok 0x02000020#64 := by rfl
  have hsize : (kmalloc emptyHeap onePage 0x100000000#64).map
      (fun r => (r.2.1.block (r.1 - heapHeaderSize)).size) = .ok 0#64 := by rfl
  rw [hr] at hp hsize
  obtain rfl : p = 0x02000020#64 := Except.ok.inj hp
  have hsize : (h'.block (0x02000020#64 - heapHeaderSize)).size = 0#64 := Except.ok.inj hsize
  exact absurd (hc.not_cut hr (by decide) (by rw [hsize]; decide)) (by decide)

end Platinum
