import Platinum.ElfWindow

/-!
# What the image checks establish

Validation is done in 64-bit words with wrap-around guards. An image that
passes satisfies the intended bounds in unbounded arithmetic.
-/
namespace Platinum
open ByteMemory WordArith

/-- An image that passed the checks, in unbounded arithmetic. -/
structure ElfPlan.Valid (plan : ElfPlan) (imageSize : Word) (layout : UserVirtualLayout) : Prop where
  begin_aligned : plan.vaddrBegin.toNat % 4096 = 0
  span_pos : 0 < plan.span.toNat
  span_aligned : plan.span.toNat % 4096 = 0
  span_le : plan.span.toNat ≤ 0x100000
  fits : plan.vaddrBegin.toNat + plan.span.toNat < 2 ^ 64
  segments : SegmentsIn plan.phdrs plan.vaddrBegin plan.span
  file : ∀ phdr ∈ plan.phdrs, phdr.isLoad = true →
    phdr.offset.toNat + phdr.filesz.toNat ≤ imageSize.toNat
  entry_ge : plan.vaddrBegin.toNat ≤ plan.entry.toNat
  entry_lt : plan.entry.toNat < plan.vaddrBegin.toNat + plan.span.toNat
  stack : 4096 < layout.stackTop.toNat
  room : layout.imageBase.toNat + plan.span.toNat ≤ layout.stackTop.toNat - 4096

section Check

variable {image : Mem} {imageSize : Word} {layout : UserVirtualLayout} {a : Word}

lemma rangeFits_iff (size offset count : Word) :
    rangeFits size offset count = true ↔ offset.toNat + count.toNat ≤ size.toNat := by
  unfold rangeFits
  split_ifs with h₁ h₂ <;> simp only [false_iff, true_iff] <;> bv_omega

/-- The header conditions, the table's end in unbounded arithmetic. -/
lemma validateHeader_iff {header : Elf64Header} :
    validateHeader header imageSize = true ↔ 64 ≤ imageSize.toNat ∧
      (header.ident 0 = 0x7F ∧ header.ident 1 = 0x45 ∧ header.ident 2 = 0x4C ∧
        header.ident 3 = 0x46) ∧
      (header.ident 4 = 2 ∧ header.ident 5 = 1 ∧ header.ident 6 = 1) ∧
      (header.type = 2 ∧ header.machine = 62 ∧ header.version = 1) ∧
      (header.ehsize = 64 ∧ header.phentsize = 56) ∧
      header.phoff.toNat + 56 * header.phnum.toNat ≤ imageSize.toNat := by
  have hsize : imageSize < elfHeaderSize ↔ ¬ 64 ≤ imageSize.toNat := by
    rw [BitVec.lt_def, show elfHeaderSize.toNat = 64 from rfl]
    omega
  have htable : header.phentsize = 56 → (rangeFits imageSize header.phoff
      (header.phnum.setWidth 64 * header.phentsize.setWidth 64) = true ↔
        header.phoff.toNat + 56 * header.phnum.toNat ≤ imageSize.toNat) := by
    intro h56
    have hn := header.phnum.isLt
    rw [rangeFits_iff, BitVec.toNat_mul, BitVec.toNat_setWidth, BitVec.toNat_setWidth, h56,
      show (56 : BitVec 16).toNat = 56 from rfl]
    omega
  unfold validateHeader
  split_ifs with h₁ h₂ h₃ h₄ h₅
  · rw [false_iff]
    tauto
  · rw [false_iff]
    tauto
  · rw [false_iff]
    tauto
  · rw [false_iff]
    tauto
  · rw [false_iff]
    tauto
  · push Not at h₂ h₃ h₄ h₅
    rw [htable h₅.2]
    tauto

/-- What a validated load segment satisfies. -/
lemma validateLoadSegment_load {phdr : Elf64ProgramHeader}
    (h : validateLoadSegment imageSize phdr = true) (hl : phdr.isLoad = true) :
    0 < phdr.memsz.toNat ∧ phdr.filesz.toNat ≤ phdr.memsz.toNat ∧
      phdr.offset.toNat + phdr.filesz.toNat ≤ imageSize.toNat ∧
      phdr.vaddr.toNat + phdr.memsz.toNat < 2 ^ 64 := by
  unfold validateLoadSegment at h
  simp only [hl, not_true_eq_false, if_false] at h
  by_cases h₁ : phdr.memsz = 0#64 ∨ phdr.memsz < phdr.filesz
  · simp [h₁] at h
  by_cases h₂ : rangeFits imageSize phdr.offset phdr.filesz = true
  swap
  · simp [h₁, h₂] at h
  by_cases h₃ : phdr.vaddr + phdr.memsz < phdr.vaddr
  · simp [h₁, h₂, h₃] at h
  rw [rangeFits_iff] at h₂
  refine ⟨?_, ?_, h₂, ?_⟩ <;> bv_omega

/-- The bounds of the span enclose every load segment, and segments attain them. -/
lemma foldl_loadSpanStep (phdrs : List Elf64ProgramHeader) :
    (∀ phdr ∈ phdrs, phdr.isLoad = false) ∧ phdrs.foldl loadSpanStep none = none ∨
    ∃ lo hi, phdrs.foldl loadSpanStep none = some (lo, hi) ∧
      (∀ phdr ∈ phdrs, phdr.isLoad = true → lo ≤ phdr.vaddr ∧ phdr.vaddr + phdr.memsz ≤ hi) ∧
      (∃ phdr ∈ phdrs, phdr.isLoad = true ∧ phdr.vaddr = lo) ∧
      ∃ phdr ∈ phdrs, phdr.isLoad = true ∧ phdr.vaddr + phdr.memsz = hi := by
  induction phdrs using List.reverseRecOn with
  | nil => exact .inl ⟨by simp, rfl⟩
  | append_singleton phdrs phdr ih =>
    rw [List.foldl_append, List.foldl_cons, List.foldl_nil]
    by_cases hl : phdr.isLoad = true
    swap
    · have hstep : ∀ x, loadSpanStep x phdr = x := fun x => by simp [loadSpanStep, hl]
      rw [hstep]
      rcases ih with ⟨hall, hn⟩ | ⟨lo, hi, hs, hall, ⟨p, hp, hpl⟩, q, hq, hql⟩
      · refine .inl ⟨?_, hn⟩
        intro p hp
        rcases List.mem_append.mp hp with hp | hp
        · exact hall p hp
        · rw [List.mem_singleton.mp hp]
          simpa using hl
      · refine .inr ⟨lo, hi, hs, ?_, ⟨p, by simp [hp], hpl⟩, q, by simp [hq], hql⟩
        intro p hp hpl
        rcases List.mem_append.mp hp with hp | hp
        · exact hall p hp hpl
        · rw [List.mem_singleton.mp hp] at hpl
          exact absurd hpl hl
    · right
      rcases ih with ⟨hall, hn⟩ | ⟨lo, hi, hs, hall, ⟨p, hp, hpl⟩, q, hq, hql⟩
      · refine ⟨phdr.vaddr, phdr.vaddr + phdr.memsz, by simp [hn, loadSpanStep, hl], ?_,
          ⟨phdr, by simp, hl, rfl⟩, phdr, by simp, hl, rfl⟩
        intro p hp hpl
        rcases List.mem_append.mp hp with hp | hp
        · rw [hall p hp] at hpl
          cases hpl
        · rw [List.mem_singleton.mp hp]
          exact ⟨BitVec.le_refl _, BitVec.le_refl _⟩
      · refine ⟨_, _, by simp only [hs, loadSpanStep, hl, not_true_eq_false, if_false]; rfl, ?_, ?_, ?_⟩
        · intro p hp hpl
          rcases List.mem_append.mp hp with hp | hp
          · obtain ⟨h₁, h₂⟩ := hall p hp hpl
            constructor <;> split_ifs <;> bv_omega
          · rw [List.mem_singleton.mp hp]
            constructor <;> split_ifs <;> bv_omega
        · split_ifs
          · exact ⟨phdr, by simp, hl, rfl⟩
          · exact ⟨p, by simp [hp], hpl⟩
        · split_ifs
          · exact ⟨phdr, by simp, hl, rfl⟩
          · exact ⟨q, by simp [hq], hql⟩

lemma toNat_alignUp_of_gt {v w : Word} (h : w < alignUp v) :
    (alignUp v).toNat = (v.toNat + 4095) / 4096 * 4096 := by
  have hpos : 0 < (alignUp v).toNat := by bv_omega
  unfold alignUp at hpos ⊢
  rw [toNat_alignDown, BitVec.toNat_add, show (4095#64 : Word).toNat = 4095 from rfl] at *
  have hv := v.isLt
  omega

/-- The facts behind an accepted image. -/
theorem elfCheck_valid {plan : ElfPlan} (h : elfCheck image imageSize layout a = some plan) :
    plan.Valid imageSize layout ∧ plan.phdrs = elfProgramHeaders image (elfHeader image) ∧
      plan.entry = (elfHeader image).entry := by
  unfold elfCheck at h
  dsimp only at h
  by_cases hh : validateHeader (elfHeader image) imageSize = true
  swap
  · simp [hh] at h
  by_cases hp : validateProgramHeaders (elfProgramHeaders image (elfHeader image)) imageSize = true
  swap
  · simp [hh, hp] at h
  simp only [hh, hp, not_true_eq_false, if_false] at h
  generalize hphdrs : elfProgramHeaders image (elfHeader image) = phdrs at h hp
  have hvalid : ∀ phdr ∈ phdrs, validateLoadSegment imageSize phdr = true := by
    unfold validateProgramHeaders at hp
    split_ifs at hp with h₁ h₂
    exact List.all_eq_true.mp h₂
  cases hspan : computeLoadSpan phdrs with
  | none => simp [hspan] at h
  | some span =>
  obtain ⟨vb, ve⟩ := span
  simp only [hspan] at h
  by_cases he : entryInLoadSegment phdrs (elfHeader image).entry = true
  swap
  · simp [he] at h
  simp only [he, not_true_eq_false, if_false] at h
  split_ifs at h with hl ha hs hr
  obtain rfl := Option.some.inj h
  simp only [and_true]
  unfold computeLoadSpan at hspan
  rcases foldl_loadSpanStep phdrs with ⟨_, hn⟩ | ⟨lo, hi, hf, hall, -⟩
  · simp [hn] at hspan
  simp only [hf] at hspan
  split_ifs at hspan with hlt
  obtain ⟨rfl, rfl⟩ := Prod.mk.inj (Option.some.inj hspan)
  have hup := toNat_alignUp_of_gt hlt
  have hdown : (pageAddress lo).toNat = lo.toNat / 4096 * 4096 := toNat_alignDown lo
  have hsub : (alignUp hi - pageAddress lo).toNat = (alignUp hi).toNat - (pageAddress lo).toNat :=
    BitVec.toNat_sub_of_le (by bv_omega)
  have hve := (alignUp hi).isLt
  have hseg : ∀ phdr ∈ phdrs, phdr.isLoad = true →
      lo.toNat ≤ phdr.vaddr.toNat ∧ phdr.vaddr.toNat + phdr.memsz.toNat ≤ hi.toNat ∧
        phdr.filesz.toNat ≤ phdr.memsz.toNat ∧
        phdr.offset.toNat + phdr.filesz.toNat ≤ imageSize.toNat := by
    intro phdr hm hload
    obtain ⟨_, h₂, h₃, h₄⟩ := validateLoadSegment_load (hvalid phdr hm) hload
    obtain ⟨h₅, h₆⟩ := hall phdr hm hload
    refine ⟨by bv_omega, by bv_omega, h₂, h₃⟩
  obtain ⟨q, hq, hqe⟩ := List.any_eq_true.mp he
  simp only [Bool.and_eq_true, decide_eq_true_eq] at hqe
  obtain ⟨⟨hql, hq₁⟩, hq₂⟩ := hqe
  obtain ⟨hq₃, hq₄, -, -⟩ := hseg q hq hql
  have hq₅ : (q.vaddr + q.memsz).toNat = q.vaddr.toNat + q.memsz.toNat := by
    rw [BitVec.toNat_add]
    exact Nat.mod_eq_of_lt (by omega)
  have hsize : elfUserLoadSize.toNat = 0x100000 := rfl
  constructor
  · show (pageAddress lo).toNat % 4096 = 0
    omega
  · show 0 < (alignUp hi - pageAddress lo).toNat
    bv_omega
  · show (alignUp hi - pageAddress lo).toNat % 4096 = 0
    omega
  · show (alignUp hi - pageAddress lo).toNat ≤ 0x100000
    bv_omega
  · show (pageAddress lo).toNat + (alignUp hi - pageAddress lo).toNat < 2 ^ 64
    bv_omega
  · intro phdr hm hload
    obtain ⟨h₁, h₂, h₃, -⟩ := hseg phdr hm hload
    simp only
    omega
  · exact fun phdr hm hload => (hseg phdr hm hload).2.2.2
  · show (pageAddress lo).toNat ≤ (elfHeader image).entry.toNat
    bv_omega
  · show (elfHeader image).entry.toNat < (pageAddress lo).toNat + (alignUp hi - pageAddress lo).toNat
    bv_omega
  · bv_omega
  · show layout.imageBase.toNat + (alignUp hi - pageAddress lo).toNat ≤ layout.stackTop.toNat - 4096
    bv_omega

end Check

end Platinum
