import Platinum.ElfCheck

/-!
# Memory safety of the loader

`ElfReads` are the image offsets that a load looks at, `ElfWrites` the physical
addresses that it clears, copies to and zeroes. Both are bounded for every image.
-/
namespace Platinum
open ByteMemory WordArith

/-- The image offsets that `elf_load_user_image` reads. -/
inductive ElfReads (image : Mem) (imageSize : Word) (layout : UserVirtualLayout)
    (addressSpace : Word) : ℕ → Prop
  | header {x : ℕ} (hsize : ¬ imageSize < elfHeaderSize) (hx : x < 64) :
      ElfReads image imageSize layout addressSpace x
  | programHeader {x index : ℕ} (hheader : validateHeader (elfHeader image) imageSize = true)
      (hindex : index < (elfHeader image).phnum.toNat)
      (hx : (elfHeader image).phoff.toNat + 56 * index ≤ x)
      (hx' : x < (elfHeader image).phoff.toNat + 56 * index + 56) :
      ElfReads image imageSize layout addressSpace x
  | segment {x : ℕ} {plan : ElfPlan} {phdr : Elf64ProgramHeader}
      (hplan : elfCheck image imageSize layout addressSpace = some plan) (hphdr : phdr ∈ plan.phdrs)
      (hload : phdr.isLoad = true) (hx : phdr.offset.toNat ≤ x)
      (hx' : x < phdr.offset.toNat + phdr.filesz.toNat) :
      ElfReads image imageSize layout addressSpace x

/-- Where `load_segment` puts a segment. -/
def ElfPlan.destination (plan : ElfPlan) (phdr : Elf64ProgramHeader) : ℕ :=
  (elfUserLoadBase + (phdr.vaddr - plan.vaddrBegin)).toNat

/-- The physical addresses that `clear_window` and `load_segment` write. -/
inductive ElfWrites (plan : ElfPlan) : ℕ → Prop
  | clear {x : ℕ} {page : Word} (hpage : page ∈ pageSpan elfUserLoadBase (elfUserLoadBase + plan.span))
      (hx : page.toNat ≤ x) (hx' : x < page.toNat + 4096) : ElfWrites plan x
  | copy {x : ℕ} {phdr : Elf64ProgramHeader} (hphdr : phdr ∈ plan.phdrs) (hload : phdr.isLoad = true)
      (hx : plan.destination phdr ≤ x) (hx' : x < plan.destination phdr + phdr.filesz.toNat) :
      ElfWrites plan x
  | zero {x : ℕ} {phdr : Elf64ProgramHeader} (hphdr : phdr ∈ plan.phdrs) (hload : phdr.isLoad = true)
      (hx : plan.destination phdr + phdr.filesz.toNat ≤ x)
      (hx' : x < plan.destination phdr + phdr.filesz.toNat + (phdr.memsz - phdr.filesz).toNat) :
      ElfWrites plan x

section Reads

variable {image image' : Mem} {imageSize : Word} {layout : UserVirtualLayout} {a : Word} {x : ℕ}

lemma load16_congr (h : ∀ k, k < 2 → image' (x + k) = image (x + k)) :
    load16 image' x = load16 image x := by
  rw [load16, load16, h 1 (by omega), show image' x = image x from h 0 (by omega)]

lemma load32_congr (h : ∀ k, k < 4 → image' (x + k) = image (x + k)) :
    load32 image' x = load32 image x := by
  rw [load32, load32, h 1 (by omega), h 2 (by omega), h 3 (by omega),
    show image' x = image x from h 0 (by omega)]

lemma validateHeader_size (h : validateHeader (elfHeader image) imageSize = true) :
    ¬ imageSize < elfHeaderSize := by
  rw [BitVec.lt_def, show elfHeaderSize.toNat = 64 from rfl]
  exact Nat.not_lt.mpr (validateHeader_iff.mp h).1

/-- Everything is read below the image's size. -/
lemma ElfReads.lt (h : ElfReads image imageSize layout a x) : x < imageSize.toNat := by
  cases h with
  | header hsize hx =>
    rw [BitVec.lt_def, show elfHeaderSize.toNat = 64 from rfl] at hsize
    omega
  | programHeader hheader hindex hx hx' =>
    have ht := (validateHeader_iff.mp hheader).2.2.2.2.2
    omega
  | segment hplan hphdr hload hx hx' =>
    have hf := (elfCheck_valid hplan).1.file _ hphdr hload
    omega

/-- Images with the same bytes where the checks look have the same header. -/
lemma header_congr (hsize : ¬ imageSize < elfHeaderSize)
    (h : ∀ x, ElfReads image imageSize layout a x → image' x = image x) :
    validateHeader (elfHeader image') imageSize = validateHeader (elfHeader image) imageSize ∧
      (elfHeader image').phoff = (elfHeader image).phoff ∧
      (elfHeader image').phnum = (elfHeader image).phnum ∧
      (elfHeader image').entry = (elfHeader image).entry := by
  have hb : ∀ x, x < 64 → image' x = image x := fun x hx => h x (.header hsize hx)
  have h16 : ∀ x, x + 2 ≤ 64 → load16 image' x = load16 image x :=
    fun x hx => load16_congr fun k hk => hb _ (by omega)
  have h32 : ∀ x, x + 4 ≤ 64 → load32 image' x = load32 image x :=
    fun x hx => load32_congr fun k hk => hb _ (by omega)
  have h64 : ∀ x, x + 8 ≤ 64 → load64 image' x = load64 image x :=
    fun x hx => load64_congr fun k hk => hb _ (by omega)
  refine ⟨?_, h64 32 (by omega), h16 56 (by omega), h64 24 (by omega)⟩
  rw [Bool.eq_iff_iff, validateHeader_iff, validateHeader_iff]
  simp only [elfHeader, hb 0 (by omega), hb 1 (by omega), hb 2 (by omega),
    hb 3 (by omega), hb 4 (by omega), hb 5 (by omega), hb 6 (by omega), h16 16 (by omega),
    h16 18 (by omega), h32 20 (by omega), h64 32 (by omega), h16 52 (by omega), h16 54 (by omega),
    h16 56 (by omega)]

lemma programHeaders_congr (hheader : validateHeader (elfHeader image) imageSize = true)
    (h : ∀ x, ElfReads image imageSize layout a x → image' x = image x) :
    elfProgramHeaders image' (elfHeader image') = elfProgramHeaders image (elfHeader image) := by
  obtain ⟨-, hoff, hnum, -⟩ := header_congr (validateHeader_size hheader) h
  rw [elfProgramHeaders, elfProgramHeaders, hoff, hnum]
  refine List.map_congr_left fun index hi => ?_
  have hi := List.mem_range.mp hi
  have hb : ∀ k, k < 56 → image' ((elfHeader image).phoff.toNat + 56 * index + k) =
      image ((elfHeader image).phoff.toNat + 56 * index + k) :=
    fun k hk => h _ (.programHeader hheader hi (by omega) (by omega))
  have h64 : ∀ x, x + 8 ≤ 56 → load64 image' ((elfHeader image).phoff.toNat + 56 * index + x) =
      load64 image ((elfHeader image).phoff.toNat + 56 * index + x) := by
    intro x hx
    refine load64_congr fun k hk => ?_
    rw [Nat.add_assoc]
    exact hb _ (by omega)
  simp only [elfProgramHeader, load32_congr fun k hk => hb k (by omega), h64 8 (by omega),
    h64 16 (by omega), h64 32 (by omega), h64 40 (by omega), h64 48 (by omega)]

/-- The checks see the bytes they read and no others. -/
lemma elfCheck_congr (h : ∀ x, ElfReads image imageSize layout a x → image' x = image x) :
    elfCheck image' imageSize layout a = elfCheck image imageSize layout a := by
  by_cases hsize : imageSize < elfHeaderSize
  · have hno : ∀ image, validateHeader (elfHeader image) imageSize = false :=
      fun image => if_pos hsize
    simp [elfCheck, hno]
  obtain ⟨hvalid, -, -, hentry⟩ := header_congr hsize h
  by_cases hheader : validateHeader (elfHeader image) imageSize = true
  · have hphdrs := programHeaders_congr hheader h
    simp only [elfCheck, hvalid, hphdrs, hentry]
  · simp [elfCheck, hvalid, hheader]

lemma memoryCopy_congr (m : Mem) (dst offset count : ℕ)
    (h : ∀ k, k < count → image' (offset + k) = image (offset + k)) :
    memoryCopy m dst image' offset count = memoryCopy m dst image offset count := by
  funext y
  rw [memoryCopy_apply, memoryCopy_apply]
  split_ifs with hy
  · exact h _ (by omega)
  · rfl

lemma loadSegments_congr {vb lb : Word} : ∀ (phdrs : List Elf64ProgramHeader) (m : Mem),
    (∀ phdr ∈ phdrs, phdr.isLoad = true → ∀ k, k < phdr.filesz.toNat →
      image' (phdr.offset.toNat + k) = image (phdr.offset.toNat + k)) →
    loadSegments m image' vb lb phdrs = loadSegments m image vb lb phdrs
  | [], _, _ => rfl
  | phdr :: rest, m, h => by
    have hone : loadSegment m image' vb lb phdr = loadSegment m image vb lb phdr := by
      unfold loadSegment
      by_cases hl : phdr.isLoad = true
      · simp only [memoryCopy_congr _ _ _ _ (h phdr (by simp) hl)]
      · simp [hl]
    unfold loadSegments
    rw [hone]
    cases loadSegment m image vb lb phdr with
    | none => rfl
    | some m' => exact loadSegments_congr rest m' fun q hq => h q (by simp [hq])

/-- The outcome of a load depends on the bytes it reads only. -/
lemma elfLoadUserImage_congr (s : Phys) (rb re : Word)
    (h : ∀ x, ElfReads image imageSize layout a x → image' x = image x) :
    elfLoadUserImage s image' imageSize layout a rb re =
      elfLoadUserImage s image imageSize layout a rb re := by
  unfold elfLoadUserImage
  rw [elfCheck_congr h]
  cases hplan : elfCheck image imageSize layout a with
  | none => rfl
  | some plan =>
    have hsegs : ∀ m, loadSegments m image' plan.vaddrBegin elfUserLoadBase plan.phdrs =
        loadSegments m image plan.vaddrBegin elfUserLoadBase plan.phdrs := fun m =>
      loadSegments_congr plan.phdrs m fun phdr hp hl k hk =>
        h _ (.segment hplan hp hl (by omega) (by omega))
    simp only [hsegs]

end Reads

section Writes

variable {image : Mem} {imageSize : Word} {layout : UserVirtualLayout} {plan : ElfPlan} {x : ℕ}

lemma ElfPlan.Valid.destination (hv : plan.Valid imageSize layout) {phdr : Elf64ProgramHeader}
    (hp : phdr ∈ plan.phdrs) (hl : phdr.isLoad = true) :
    plan.destination phdr = 0x02100000 + (phdr.vaddr.toNat - plan.vaddrBegin.toNat) ∧
      plan.destination phdr + phdr.memsz.toNat ≤ 0x02100000 + plan.span.toNat ∧
      phdr.filesz.toNat ≤ phdr.memsz.toNat ∧
      (phdr.memsz - phdr.filesz).toNat = phdr.memsz.toNat - phdr.filesz.toNat := by
  obtain ⟨hlo, hhi, hfile⟩ := hv.segments phdr hp hl
  have hspan := hv.span_le
  have hd : plan.destination phdr = 0x02100000 + (phdr.vaddr.toNat - plan.vaddrBegin.toNat) := by
    rw [ElfPlan.destination, BitVec.toNat_add,
      BitVec.toNat_sub_of_le (by rw [BitVec.le_def]; omega), show elfUserLoadBase.toNat = 0x02100000
        from rfl]
    omega
  exact ⟨hd, by omega, hfile, BitVec.toNat_sub_of_le (by rw [BitVec.le_def]; omega)⟩

/-- Everything is written inside the window. -/
lemma ElfWrites.window (hv : plan.Valid imageSize layout) (h : ElfWrites plan x) :
    0x02100000 ≤ x ∧ x < 0x02100000 + plan.span.toNat := by
  have hspan := hv.span_le
  have hal := hv.span_aligned
  have hbase : elfUserLoadBase.toNat = 0x02100000 := rfl
  cases h with
  | clear hpage hx hx' =>
    rw [pageSpan_of_aligned (n := plan.span.toNat / 4096)
      (by rw [BitVec.toNat_add, hbase]; omega)] at hpage
    obtain ⟨i, hi, hp⟩ := (mem_pagesFrom (by rw [hbase]; omega)).mp hpage
    rw [hbase] at hp
    omega
  | copy hphdr hload hx hx' =>
    obtain ⟨hd, hend, hfile, -⟩ := hv.destination hphdr hload
    omega
  | zero hphdr hload hx hx' =>
    obtain ⟨hd, hend, hfile, hrest⟩ := hv.destination hphdr hload
    omega

lemma clearWindow_writes (m : Mem) (hx : ¬ ElfWrites plan x) :
    clearWindow m elfUserLoadBase (elfUserLoadBase + plan.span) x = m x := by
  have hpages : ∀ page ∈ pageSpan elfUserLoadBase (elfUserLoadBase + plan.span),
      ¬ (page.toNat ≤ x ∧ x < page.toNat + 4096) := fun page hp h => hx (.clear hp h.1 h.2)
  unfold clearWindow
  generalize pageSpan elfUserLoadBase (elfUserLoadBase + plan.span) = pages at hpages
  induction pages generalizing m with
  | nil => rfl
  | cons page pages ih =>
    rw [List.foldl_cons, ih _ fun p hp => hpages p (by simp [hp]), memoryZero_apply,
      if_neg (hpages page (by simp))]

lemma loadSegments_writes (hx : ¬ ElfWrites plan x) : ∀ (phdrs : List Elf64ProgramHeader) (m : Mem),
    (∀ phdr ∈ phdrs, phdr ∈ plan.phdrs) →
    (loadSegments m image plan.vaddrBegin elfUserLoadBase phdrs).2 x = m x
  | [], _, _ => rfl
  | phdr :: rest, m, h => by
    unfold loadSegments
    cases hs : loadSegment m image plan.vaddrBegin elfUserLoadBase phdr with
    | none => rfl
    | some m' =>
      dsimp only
      rw [loadSegments_writes hx rest m' fun q hq => h q (by simp [hq])]
      unfold loadSegment at hs
      split_ifs at hs with hl hlow
      · cases hs
        rw [memoryZero_apply, memoryCopy_apply, if_neg, if_neg]
        · exact fun hc => hx (.copy (h phdr (by simp)) hl hc.1 hc.2)
        · exact fun hz => hx (.zero (h phdr (by simp)) hl hz.1 hz.2)
      · cases hs
        rfl

/-- The image record of a successful load. -/
lemma elfLoadUserImage_entry {s s' : Phys} {a rb re : Word} {loaded : LoadedUserImage}
    (h : elfLoadUserImage s image imageSize layout a rb re = .ok (some loaded, s')) :
    ∃ plan, elfCheck image imageSize layout a = some plan ∧
      loaded.entry = layout.imageBase + (plan.entry - plan.vaddrBegin) := by
  unfold elfLoadUserImage at h
  cases hplan : elfCheck image imageSize layout a with
  | none =>
    rw [hplan] at h
    cases h
  | some plan =>
    refine ⟨plan, rfl, ?_⟩
    rw [hplan] at h
    obtain ⟨⟨claimed, s₁⟩, -, h⟩ := bind_eq_ok.mp h
    cases claimed with
    | false => cases h
    | true =>
      dsimp only at h
      generalize loadSegments (clearWindow s₁.mem elfUserLoadBase (elfUserLoadBase + plan.span)) image
        plan.vaddrBegin elfUserLoadBase plan.phdrs = r at h
      rcases r with ⟨_ | _, m⟩
      · cases h
      obtain ⟨⟨mapped, s₂⟩, -, h⟩ := bind_eq_ok.mp h
      cases mapped with
      | false => cases h
      | true =>
        dsimp only at h
        split_ifs at h with h0
        · cases h
        · obtain ⟨s₃, -, h⟩ := bind_eq_ok.mp h
          split_ifs at h
          · cases h
            rfl
          · cases h

end Writes

/-- For every image, layout and reusable range: the load reads inside the image,
it writes inside the window, and the entry it reports lies in the loaded image. -/
theorem elfLoad_memory_safe (s : Phys) (image : Mem) (imageSize : Word) (layout : UserVirtualLayout)
    (a rb re : Word) :
    (∀ x, ElfReads image imageSize layout a x → x < imageSize.toNat) ∧
    (∀ image', (∀ x, ElfReads image imageSize layout a x → image' x = image x) →
      elfLoadUserImage s image' imageSize layout a rb re =
        elfLoadUserImage s image imageSize layout a rb re) ∧
    (elfCheck image imageSize layout a = none →
      elfLoadUserImage s image imageSize layout a rb re = .ok (none, s)) ∧
    (∀ plan, elfCheck image imageSize layout a = some plan → plan.span.toNat ≤ 0x100000 ∧
      (∀ x, ElfWrites plan x → 0x02100000 ≤ x ∧ x < 0x02100000 + plan.span.toNat) ∧
      ∀ x, ¬ ElfWrites plan x → ∀ m : Mem,
        clearWindow m elfUserLoadBase (elfUserLoadBase + plan.span) x = m x ∧
        (loadSegments m image plan.vaddrBegin elfUserLoadBase plan.phdrs).2 x = m x) ∧
    ∀ loaded s', elfLoadUserImage s image imageSize layout a rb re = .ok (some loaded, s') →
      ∃ plan, elfCheck image imageSize layout a = some plan ∧
        layout.imageBase.toNat ≤ loaded.entry.toNat ∧
        loaded.entry.toNat < layout.imageBase.toNat + plan.span.toNat := by
  refine ⟨fun x h => h.lt, fun image' h => elfLoadUserImage_congr s rb re h, ?_, ?_, ?_⟩
  · intro hno
    unfold elfLoadUserImage
    rw [hno]
  · intro plan hplan
    have hv := (elfCheck_valid hplan).1
    exact ⟨hv.span_le, fun x h => h.window hv, fun x hx m => ⟨clearWindow_writes m hx,
      loadSegments_writes hx plan.phdrs m fun _ hp => hp⟩⟩
  · intro loaded s' h
    obtain ⟨plan, hplan, hentry⟩ := elfLoadUserImage_entry h
    have hv := (elfCheck_valid hplan).1
    have hge := hv.entry_ge
    have hlt := hv.entry_lt
    have hroom := hv.room
    have htop := layout.stackTop.isLt
    have he : loaded.entry.toNat =
        layout.imageBase.toNat + (plan.entry.toNat - plan.vaddrBegin.toNat) := by
      rw [hentry, BitVec.toNat_add, BitVec.toNat_sub_of_le (by rw [BitVec.le_def]; omega)]
      omega
    exact ⟨plan, hplan, by omega, by omega⟩

end Platinum
