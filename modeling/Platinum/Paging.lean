import Platinum.Palloc
import Mathlib.Data.List.FinRange

/-!
# Four-level page tables

Tables are pages of 512 entries. `mmuWalk` is the hardware rule: a page is
mapped when all four entries are present, and user or writable only when the
bit is set at every level. The kernel functions follow `paging.c`.
-/
namespace Platinum
open ByteMemory WordArith

abbrev Index := Fin 512

def pagingPresent : Word := 0x001#64
def pagingWritable : Word := 0x002#64
def pagingUser : Word := 0x004#64
def pagingFlagsTable : Word := 0x003#64
def pagingFlagsPage : Word := 0x003#64
def pagingMaxAddress : Word := 0x100000000#64
def pagingAddressMask : Word := 0x000FFFFFFFFFF000#64

def pageAddress (v : Word) : Word := v &&& ~~~4095#64

def Present (e : Word) : Prop := e &&& pagingPresent ≠ 0#64
def UserBit (e : Word) : Prop := e &&& pagingUser ≠ 0#64
def WritableBit (e : Word) : Prop := e &&& pagingWritable ≠ 0#64

instance (e : Word) : Decidable (Present e) := inferInstanceAs (Decidable (_ ≠ _))
instance (e : Word) : Decidable (UserBit e) := inferInstanceAs (Decidable (_ ≠ _))
instance (e : Word) : Decidable (WritableBit e) := inferInstanceAs (Decidable (_ ≠ _))

def entryTable (entry : Word) : Word := entry &&& pagingAddressMask
def entryAddress (entry : Word) : Word := entry &&& pagingAddressMask

/-- `(virtual_address >> shift) & 0x1FF`. -/
def tableIndex (shift : ℕ) (virtualAddress : Word) : Index :=
  ⟨(virtualAddress >>> shift &&& 0x1FF#64).toNat, by rw [toNat_index]; omega⟩

def pml4Index : Word → Index := tableIndex 39
def pdptIndex : Word → Index := tableIndex 30
def pdIndex : Word → Index := tableIndex 21
def ptIndex : Word → Index := tableIndex 12

structure Translation where
  frame : Word
  writable : Bool
  user : Bool
  deriving DecidableEq, Repr

/-- The four entries the hardware reads for an address, if it reads them all. -/
def mmuEntries (m : Mem) (root virtualAddress : Word) : Option (Word × Word × Word × Word) :=
  let e₄ := slot m root (pml4Index virtualAddress)
  if ¬ Present e₄ then none
  else
    let e₃ := slot m (entryAddress e₄) (pdptIndex virtualAddress)
    if ¬ Present e₃ then none
    else
      let e₂ := slot m (entryAddress e₃) (pdIndex virtualAddress)
      if ¬ Present e₂ then none
      else
        let e₁ := slot m (entryAddress e₂) (ptIndex virtualAddress)
        if ¬ Present e₁ then none else some (e₄, e₃, e₂, e₁)

def mmuWalk (m : Mem) (root virtualAddress : Word) : Option Translation :=
  (mmuEntries m root virtualAddress).map fun (e₄, e₃, e₂, e₁) =>
    { frame := entryAddress e₁
      writable := decide (WritableBit e₄ ∧ WritableBit e₃ ∧ WritableBit e₂ ∧ WritableBit e₁)
      user := decide (UserBit e₄ ∧ UserBit e₃ ∧ UserBit e₂ ∧ UserBit e₁) }

def zeroPage (m : Mem) (page : Word) : Mem :=
  (List.finRange 512).foldl (fun m index => setSlot m page index 0#64) m

def copyEntries (m : Mem) (table src : Word) : Mem :=
  (List.finRange 512).foldl (fun m index => setSlot m table index (slot m src index)) m

/-- Returns the table, 0 when no page is free. -/
def allocTable (s : Phys) : Word × Phys :=
  match pallocAlloc s with
  | (page, s) =>
    if page = 0#64 then (0#64, s) else (page, { s with mem := zeroPage s.mem page })

def copyTable (s : Phys) (src : Word) : Word × Phys :=
  match allocTable s with
  | (table, s) =>
    if table = 0#64 then (0#64, s) else (table, { s with mem := copyEntries s.mem table src })

def getOrCreateNext (s : Phys) (table : Word) (index : Index) (flags : Word) : Word × Phys :=
  if Present (slot s.mem table index) then
    if flags &&& pagingUser ≠ 0#64 then
      let s := { s with
        mem := setSlot s.mem table index (slot s.mem table index ||| pagingUser) }
      (entryTable (slot s.mem table index), s)
    else (entryTable (slot s.mem table index), s)
  else
    match allocTable s with
    | (next, s) =>
      if next = 0#64 then (0#64, s)
      else (next, { s with
        mem := setSlot s.mem table index (next ||| pagingFlagsTable ||| (flags &&& pagingUser)) })

def mapPage4k (s : Phys) (pml4 virtualAddress physicalAddress flags : Word) : Bool × Phys :=
  match getOrCreateNext s pml4 (pml4Index virtualAddress) flags with
  | (pdpt, s) =>
    if pdpt = 0#64 then (false, s)
    else
      match getOrCreateNext s pdpt (pdptIndex virtualAddress) flags with
      | (pd, s) =>
        if pd = 0#64 then (false, s)
        else
          match getOrCreateNext s pd (pdIndex virtualAddress) flags with
          | (pt, s) =>
            if pt = 0#64 then (false, s)
            else (true, { s with
              mem := setSlot s.mem pt (ptIndex virtualAddress) (physicalAddress ||| flags) })

/-- The page table for an address, 0 when a level is absent. -/
def walkToPt (m : Mem) (pml4 virtualAddress : Word) : Word :=
  let e₄ := slot m pml4 (pml4Index virtualAddress)
  if ¬ Present e₄ then 0#64
  else
    let e₃ := slot m (entryTable e₄) (pdptIndex virtualAddress)
    if ¬ Present e₃ then 0#64
    else
      let e₂ := slot m (entryTable e₃) (pdIndex virtualAddress)
      if ¬ Present e₂ then 0#64 else entryTable e₂

/-- The step `ensure_private_user_path` makes at each of its three levels: clone
a table shared with the kernel, or set the user bit on a private one. -/
def privatizeEntry (s : Phys) (table : Word) (index : Index) (kernelEntry : Word) : Bool × Phys :=
  if Present (slot s.mem table index) ∧
      entryAddress (slot s.mem table index) = entryAddress kernelEntry then
    match copyTable s (entryTable (slot s.mem table index)) with
    | (clone, s) =>
      if clone = 0#64 then (false, s)
      else (true, { s with
        mem := setSlot s.mem table index (clone ||| pagingFlagsTable ||| pagingUser) })
  else if Present (slot s.mem table index) then
    (true, { s with mem := setSlot s.mem table index (slot s.mem table index ||| pagingUser) })
  else (true, s)

def ensurePrivateUserPath (s : Phys) (pml4 virtualAddress : Word) : Bool × Phys :=
  let kernelPml4Entry := slot s.mem s.pagingKernelPml4 (pml4Index virtualAddress)
  match privatizeEntry s pml4 (pml4Index virtualAddress) kernelPml4Entry with
  | (false, s) => (false, s)
  | (true, s) =>
    -- no presence test at this level: an absent PML4 entry is followed to page 0
    let pdpt := entryTable (slot s.mem pml4 (pml4Index virtualAddress))
    let kernelPdpt := if Present kernelPml4Entry then entryTable kernelPml4Entry else 0#64
    let kernelPdptEntry :=
      if kernelPdpt = 0#64 then 0#64 else slot s.mem kernelPdpt (pdptIndex virtualAddress)
    match privatizeEntry s pdpt (pdptIndex virtualAddress) kernelPdptEntry with
    | (false, s) => (false, s)
    | (true, s) =>
      if ¬ Present (slot s.mem pdpt (pdptIndex virtualAddress)) then (true, s)
      else
        let pd := entryTable (slot s.mem pdpt (pdptIndex virtualAddress))
        let kernelPd := if Present kernelPdptEntry then entryTable kernelPdptEntry else 0#64
        let kernelPdEntry :=
          if kernelPd = 0#64 then 0#64 else slot s.mem kernelPd (pdIndex virtualAddress)
        privatizeEntry s pd (pdIndex virtualAddress) kernelPdEntry

/-- One iteration of `highest_physical_end`. -/
def highestPhysicalStep (mm : Memmap) (highest : Word) (index : ℕ) : Word :=
  match memmapGetDescriptor mm index with
  | none => highest
  | some descriptor =>
    let rawEnd := descriptor.physicalStart + descriptor.numberOfPages * 4096#64
    let clippedEnd := if pagingMaxAddress < rawEnd then pagingMaxAddress else rawEnd
    if highest < clippedEnd then clippedEnd else highest

def highestPhysicalLoop (mm : Memmap) : ℕ → Word
  | 0 => 0#64
  | n + 1 => highestPhysicalStep mm (highestPhysicalLoop mm n) n

def highestPhysicalEnd (mm : Memmap) : Word :=
  let highest := highestPhysicalLoop mm (memmapGetDescriptorCount mm)
  if highest = 0#64 then 0#64 else (highest + 4095#64) &&& ~~~4095#64

/-- The identity-mapping loop of `paging_initialize`. -/
def mapIdentity (s : Phys) : List Word → Run Phys
  | [] => .ok s
  | address :: rest =>
    match mapPage4k s s.pagingKernelPml4 address address pagingFlagsPage with
    | (false, _) => .error .halt
    | (true, s) => mapIdentity s rest

def pagingInitialize (s : Phys) : Run Phys :=
  match allocTable s with
  | (pml4, s) =>
    let s := { s with pagingKernelPml4 := pml4 }
    if pml4 = 0#64 then .error .halt
    else
      let limit := highestPhysicalEnd s.memmap
      if limit = 0#64 then .error .halt
      else do
        let s ← mapIdentity s (pageSpan 0#64 limit)
        .ok { s with cr3 := s.pagingKernelPml4 }

def pagingKernelAddressSpace (s : Phys) : Word := s.pagingKernelPml4

def pagingCreateUserAddressSpace (s : Phys) : Word × Phys :=
  match allocTable s with
  | (pml4, s) =>
    if pml4 = 0#64 then (0#64, s)
    else (pml4, { s with mem := copyEntries s.mem pml4 s.pagingKernelPml4 })

def pagingMapUserPage (s : Phys) (addressSpace virtualAddress physicalAddress : Word) : Run Phys :=
  let virtualAddress := pageAddress virtualAddress
  let physicalAddress := pageAddress physicalAddress
  let finish (s : Phys) : Run Phys :=
    match mapPage4k s addressSpace virtualAddress physicalAddress
        (pagingPresent ||| pagingWritable ||| pagingUser) with
    | (false, _) => .error .halt
    | (true, s) => .ok s
  if addressSpace ≠ s.pagingKernelPml4 then
    match ensurePrivateUserPath s addressSpace virtualAddress with
    | (false, _) => .error .halt
    | (true, s) => finish s
  else finish s

def pagingActivate (s : Phys) (addressSpace : Word) : Phys := { s with cr3 := addressSpace }

def pagingAddressSpaceValid (s : Phys) (addressSpace : Word) : Bool :=
  if addressSpace = 0#64 then false
  else (List.finRange 512).all fun index =>
    slot s.mem addressSpace index &&& pagingPresent =
      slot s.mem s.pagingKernelPml4 index &&& pagingPresent

def pagingMappingMatches (m : Mem) (addressSpace virtualAddress physicalAddress : Word)
    (userAccessible : Bool) : Bool :=
  if addressSpace = 0#64 then false
  else
    let virtualAddress := pageAddress virtualAddress
    let physicalAddress := pageAddress physicalAddress
    let pt := walkToPt m addressSpace virtualAddress
    if pt = 0#64 then false
    else
      let entry := slot m pt (ptIndex virtualAddress)
      if ¬ Present entry then false
      else if entry &&& 0x000FFFFFFFFFF000#64 ≠ physicalAddress then false
      else if userAccessible then decide (UserBit entry) else decide (¬ UserBit entry)

def pagingMappingIsSupervisorOnly (m : Mem) (addressSpace virtualAddress : Word) : Bool :=
  pagingMappingMatches m addressSpace virtualAddress virtualAddress false

/-- The page loop of `paging_user_range_mapped`; it stops only on equality. -/
def userRangeLoop (m : Mem) (addressSpace «end» : Word) : ℕ → Word → Run Bool
  | 0, _ => .error .diverge
  | fuel + 1, page =>
    let pt := walkToPt m addressSpace page
    if pt = 0#64 then .ok false
    else
      let entry := slot m pt (ptIndex page)
      if ¬ Present entry ∨ ¬ UserBit entry then .ok false
      else if page = «end» then .ok true
      else userRangeLoop m addressSpace «end» fuel (page + 4096#64)

def pagingUserRangeMapped (m : Mem) (addressSpace virtualAddress count : Word) : Run Bool :=
  if addressSpace = 0#64 then .ok false
  else if count = 0#64 then .ok true
  else
    let start := pageAddress virtualAddress
    let last := virtualAddress + (count - 1#64)
    if last < virtualAddress then .ok false
    else userRangeLoop m addressSpace (pageAddress last) linkFuel start

/-- The virtual layout of a user task (`struct user_virtual_layout`). -/
structure UserVirtualLayout where
  trampolineBase : Word
  imageBase : Word
  stackTop : Word
  deriving DecidableEq, Repr

def pagingReleaseUserAddressSpace (s : Phys) (addressSpace : Word) (layout : UserVirtualLayout) :
    Phys :=
  if addressSpace = 0#64 ∨ addressSpace = s.pagingKernelPml4 then s
  else
    let pml4Entry := slot s.mem addressSpace (pml4Index layout.trampolineBase)
    let kernelPdptAddress :=
      entryAddress (slot s.mem s.pagingKernelPml4 (pml4Index layout.trampolineBase))
    if ¬ Present pml4Entry then pallocFree s addressSpace
    else
      let pdpt := entryTable pml4Entry
      let pdptEntry := slot s.mem pdpt (pdptIndex layout.trampolineBase)
      let kernelPdAddress := if kernelPdptAddress = 0#64 then 0#64
        else entryAddress (slot s.mem kernelPdptAddress (pdptIndex layout.trampolineBase))
      let s :=
        if Present pdptEntry then
          let pd := entryTable pdptEntry
          let pdEntry := slot s.mem pd (pdIndex layout.trampolineBase)
          let kernelPtAddress := if kernelPdAddress = 0#64 then 0#64
            else entryAddress (slot s.mem kernelPdAddress (pdIndex layout.trampolineBase))
          let s :=
            if Present pdEntry ∧ entryAddress pdEntry ≠ kernelPtAddress then
              pallocFree s (entryTable pdEntry)
            else s
          if entryAddress pdptEntry ≠ kernelPdAddress then pallocFree s pd else s
        else s
      let s := if entryAddress pml4Entry ≠ kernelPdptAddress then pallocFree s pdpt else s
      pallocFree s addressSpace

/-- Filling a page slot by slot with values read elsewhere. -/
lemma foldl_setSlot {t : Word} (ht : t.toNat % 4096 = 0) (val : Mem → Index → Word)
    (hval : ∀ m m', ChangesOnly {t} m m' → ∀ i, val m' i = val m i) (L : List Index) (m : Mem) :
    ChangesOnly {t} m (L.foldl (fun m i => setSlot m t i (val m i)) m) ∧
      (∀ i ∈ L, slot (L.foldl (fun m i => setSlot m t i (val m i)) m) t i = val m i) ∧
      ∀ i, i ∉ L → slot (L.foldl (fun m i => setSlot m t i (val m i)) m) t i = slot m t i := by
  induction L generalizing m with
  | nil => exact ⟨ChangesOnly.refl _ _, by simp, fun _ _ => rfl⟩
  | cons j L ih =>
    obtain ⟨hc, hin, hout⟩ := ih (setSlot m t j (val m j))
    have hj : ChangesOnly {t} m (setSlot m t j (val m j)) :=
      ChangesOnly.setSlot m (Set.mem_singleton t) j _
    refine ⟨hj.trans hc, ?_, ?_⟩
    · intro i hi
      simp only [List.foldl_cons]
      by_cases hL : i ∈ L
      · rw [hin i hL, hval _ _ hj]
      · obtain rfl : i = j := by simpa [hL] using hi
        rw [hout i hL, slot_setSlot_same]
    · intro i hi
      simp only [List.mem_cons, not_or] at hi
      simp only [List.foldl_cons]
      rw [hout i hi.2]
      exact slot_setSlot_ne m _ ht ht (.inr hi.1)

theorem zeroPage_frame (m : Mem) {t : Word} (ht : t.toNat % 4096 = 0) :
    ChangesOnly {t} m (zeroPage m t) := by
  unfold zeroPage
  exact (foldl_setSlot ht (fun _ _ => 0#64) (fun _ _ _ _ => rfl) _ m).1

theorem slot_zeroPage (m : Mem) {t : Word} (ht : t.toNat % 4096 = 0) (i : Index) :
    slot (zeroPage m t) t i = 0#64 := by
  unfold zeroPage
  exact (foldl_setSlot ht (fun _ _ => 0#64) (fun _ _ _ _ => rfl) _ m).2.1 i (List.mem_finRange i)

lemma copyEntries_spec (m : Mem) {t src : Word} (ht : t.toNat % 4096 = 0)
    (hsrc : src.toNat % 4096 = 0) (hne : src ≠ t) :
    ChangesOnly {t} m (copyEntries m t src) ∧
      ∀ i, slot (copyEntries m t src) t i = slot m src i := by
  unfold copyEntries
  have h := foldl_setSlot ht (fun m i => slot m src i)
    (fun m m' hc i => hc.slot (by simp [ht]) hsrc (by simpa using hne) i) (List.finRange 512) m
  exact ⟨h.1, fun i => h.2.1 i (List.mem_finRange i)⟩

attribute [irreducible] zeroPage copyEntries

theorem allocTable_nil {s : Phys} (h : FreeList s []) : allocTable s = (0#64, s) := by
  simp [allocTable, pallocAlloc_nil h]

/-- A fresh table is the head of the free list, zeroed. -/
theorem allocTable_cons {s : Phys} {p : Word} {l : List Word} (h : FreeList s (p :: l)) :
    ∃ s', allocTable s = (p, s') ∧ FreeList s' l ∧ ChangesOnly {p} s.mem s'.mem ∧
      (∀ i, slot s'.mem p i = 0#64) ∧ SameGlobals s s' := by
  obtain ⟨s₁, hs₁, hl, hm, hg⟩ := pallocAlloc_cons h
  have hp := h.pages p (by simp)
  have hc := zeroPage_frame s₁.mem hp.aligned
  refine ⟨{ s₁ with mem := zeroPage s₁.mem p }, by simp [allocTable, hs₁, hp.ne_zero], ?_,
    by rw [← hm]; exact hc, slot_zeroPage _ hp.aligned, hg.trans ⟨rfl, rfl, rfl, rfl, rfl⟩⟩
  exact hl.frame rfl hc (by simp [hp.aligned]) (by simpa using (List.nodup_cons.mp h.nodup).1)

theorem copyTable_nil {s : Phys} (src : Word) (h : FreeList s []) : copyTable s src = (0#64, s) := by
  simp [copyTable, allocTable_nil h]

/-- A cloned table is the head of the free list with the source's entries. -/
theorem copyTable_cons {s : Phys} {p src : Word} {l : List Word} (h : FreeList s (p :: l))
    (hsrc : src.toNat % 4096 = 0) (hne : src ≠ p) :
    ∃ s', copyTable s src = (p, s') ∧ FreeList s' l ∧ ChangesOnly {p} s.mem s'.mem ∧
      (∀ i, slot s'.mem p i = slot s.mem src i) ∧ SameGlobals s s' := by
  obtain ⟨s₁, hs₁, hl, hc₁, -, hg⟩ := allocTable_cons h
  have hp := h.pages p (by simp)
  have hcopy := copyEntries_spec s₁.mem hp.aligned hsrc hne
  refine ⟨{ s₁ with mem := copyEntries s₁.mem p src }, by simp [copyTable, hs₁, hp.ne_zero], ?_,
    hc₁.trans hcopy.1, ?_, hg.trans ⟨rfl, rfl, rfl, rfl, rfl⟩⟩
  · exact hl.frame rfl hcopy.1 (by simp [hp.aligned]) (by simpa using (List.nodup_cons.mp h.nodup).1)
  · intro i
    rw [hcopy.2 i]
    exact hc₁.slot (by simp [hp.aligned]) hsrc (by simpa using hne) i

end Platinum
