import Platinum.ElfCheck
import Mathlib.Order.Bounds.Basic

/-!
# The images that the loader accepts

`ElfAcceptable` is the contract of the validator in unbounded arithmetic. The
checks, made in wrapping words over two loops, decide exactly that.
-/
namespace Platinum
open ByteMemory WordArith

/-- The first page boundary at or above `x`. -/
def pageCeil (x : ℕ) : ℕ := (x + 4095) / 4096 * 4096

/-- The last page boundary at or below `x`. -/
def pageFloor (x : ℕ) : ℕ := x / 4096 * 4096

/-- What a `PT_LOAD` entry has to satisfy. -/
structure AcceptableSegment (size : ℕ) (phdr : Elf64ProgramHeader) : Prop where
  memsz_pos : 0 < phdr.memsz.toNat
  filesz_le : phdr.filesz.toNat ≤ phdr.memsz.toNat
  file : phdr.offset.toNat + phdr.filesz.toNat ≤ size
  address : phdr.vaddr.toNat + phdr.memsz.toNat < 2 ^ 64
  aligned : phdr.align.toNat = 0 ∨ phdr.align.toNat = 1 ∨
    ∃ k, phdr.align.toNat = 2 ^ k ∧
      phdr.vaddr.toNat % phdr.align.toNat = phdr.offset.toNat % phdr.align.toNat

/-- The loadable segments of an image. -/
def IsSegment (image : Mem) (phdr : Elf64ProgramHeader) : Prop :=
  phdr ∈ elfProgramHeaders image (elfHeader image) ∧ phdr.isLoad = true

/-- The page-rounded span of the segments. -/
def HasSpan (image : Mem) (span : ℕ) : Prop :=
  ∃ lo hi, IsLeast {x | ∃ phdr, IsSegment image phdr ∧ phdr.vaddr.toNat = x} lo ∧
    IsGreatest {x | ∃ phdr, IsSegment image phdr ∧ phdr.vaddr.toNat + phdr.memsz.toNat = x} hi ∧
    pageCeil hi < 2 ^ 64 ∧ span = pageCeil hi - pageFloor lo

/-- An executable that fits the layout, with the page-rounded span `span`. -/
structure ElfAcceptable (image : Mem) (size : ℕ) (layout : UserVirtualLayout) (span : ℕ) :
    Prop where
  header_fits : 64 ≤ size
  magic : image 0 = 0x7F ∧ image 1 = 0x45 ∧ image 2 = 0x4C ∧ image 3 = 0x46
  ident : image 4 = 2 ∧ image 5 = 1 ∧ image 6 = 1
  kind : (elfHeader image).type = 2 ∧ (elfHeader image).machine = 62 ∧ (elfHeader image).version = 1
  sizes : (elfHeader image).ehsize = 64 ∧ (elfHeader image).phentsize = 56
  table : (elfHeader image).phoff.toNat + 56 * (elfHeader image).phnum.toNat ≤ size
  nonempty : ∃ phdr, IsSegment image phdr
  segments : ∀ phdr, IsSegment image phdr → AcceptableSegment size phdr
  entry : ∃ phdr, IsSegment image phdr ∧ phdr.vaddr.toNat ≤ (elfHeader image).entry.toNat ∧
    (elfHeader image).entry.toNat < phdr.vaddr.toNat + phdr.memsz.toNat
  bounds : HasSpan image span
  span_le : span ≤ 0x100000
  image_base : layout.imageBase.toNat ≠ 0
  room : layout.imageBase.toNat + span + 4096 ≤ layout.stackTop.toNat

section Checks

variable {image : Mem} {imageSize : Word} {layout : UserVirtualLayout} {a : Word}
  {phdr : Elf64ProgramHeader} {phdrs : List Elf64ProgramHeader}

/-- The mask test for a power of two. -/
lemma align_power_iff {v : Word} (h : 1#64 < v) :
    v &&& (v - 1#64) = 0#64 ↔ ∃ k, v.toNat = 2 ^ k := by
  have hv : 1 < v.toNat := h
  have hsub : (v - 1#64).toNat = v.toNat - 1 := by bv_omega
  rw [← BitVec.toNat_inj, BitVec.toNat_and, hsub]
  exact Nat.and_sub_one_eq_zero_iff_isPowerOfTwo (by omega)

lemma and_align {v x : Word} {k : ℕ} (hv : v.toNat = 2 ^ k) :
    (x &&& (v - 1#64)).toNat = x.toNat % v.toNat := by
  have hpos := Nat.two_pow_pos k
  have hsub : (v - 1#64).toNat = 2 ^ k - 1 := by bv_omega
  rw [BitVec.toNat_and, hsub, Nat.and_two_pow_sub_one_eq_mod, hv]

lemma validateLoadSegment_iff : validateLoadSegment imageSize phdr = true ↔
    (phdr.isLoad = true → AcceptableSegment imageSize.toNat phdr) := by
  by_cases hl : phdr.isLoad = true
  swap
  · simp [validateLoadSegment, hl]
  simp only [hl, forall_const]
  constructor
  · intro h
    obtain ⟨h₁, h₂, h₃, h₄⟩ := validateLoadSegment_load h hl
    refine ⟨h₁, h₂, h₃, h₄, ?_⟩
    unfold validateLoadSegment at h
    split_ifs at h with ha hb hc hd he hf
    · push Not at he hf
      have hd : 1#64 < phdr.align := hd
      obtain ⟨k, hk⟩ := (align_power_iff hd).mp he
      refine .inr (.inr ⟨k, hk, ?_⟩)
      rw [← and_align hk, ← and_align hk, hf]
    · bv_omega
  · rintro ⟨h₁, h₂, h₃, h₄, h₅⟩
    unfold validateLoadSegment
    rw [if_neg (by simp [hl]), if_neg (by bv_omega), if_neg (by simpa [rangeFits_iff] using h₃),
      if_neg (by bv_omega)]
    by_cases hd : 1#64 < phdr.align
    · have hd' : 1 < phdr.align.toNat := hd
      obtain h0 | h0 | ⟨k, hk, hmod⟩ := h₅
      · omega
      · omega
      · rw [if_pos hd, if_neg (by simpa using (align_power_iff hd).mpr ⟨k, hk⟩), if_neg]
        rw [not_not, ← BitVec.toNat_inj, and_align hk, and_align hk, hmod]
    · rw [if_neg hd]

lemma validateProgramHeaders_iff : validateProgramHeaders phdrs imageSize = true ↔
    (∀ phdr ∈ phdrs, phdr.isLoad = true → AcceptableSegment imageSize.toNat phdr) ∧
      ∃ phdr ∈ phdrs, phdr.isLoad = true := by
  have hcount : phdrs.countP (·.isLoad) ≠ 0 ↔ ∃ phdr ∈ phdrs, phdr.isLoad = true := by
    rw [← Nat.pos_iff_ne_zero, List.countP_pos_iff]
  have hall : phdrs.all (validateLoadSegment imageSize) = true ↔
      ∀ phdr ∈ phdrs, phdr.isLoad = true → AcceptableSegment imageSize.toNat phdr := by
    simp only [List.all_eq_true, validateLoadSegment_iff]
  unfold validateProgramHeaders
  rw [← hall, ← hcount]
  by_cases h0 : phdrs.length = 0
  · rw [if_pos h0, List.length_eq_zero_iff.mp h0]
    simp
  · rw [if_neg h0]
    split_ifs with h <;> simp [h]

lemma entryInLoadSegment_iff {size : ℕ} {entry : Word}
    (h : ∀ phdr ∈ phdrs, phdr.isLoad = true → AcceptableSegment size phdr) :
    entryInLoadSegment phdrs entry = true ↔ ∃ phdr ∈ phdrs, phdr.isLoad = true ∧
      phdr.vaddr.toNat ≤ entry.toNat ∧ entry.toNat < phdr.vaddr.toNat + phdr.memsz.toNat := by
  simp only [entryInLoadSegment, List.any_eq_true, Bool.and_eq_true, decide_eq_true_eq, and_assoc]
  refine exists_congr fun phdr => and_congr_right fun hm => and_congr_right fun hl => ?_
  have haddr := (h phdr hm hl).address
  constructor <;> rintro ⟨h₁, h₂⟩ <;> constructor <;> bv_omega

lemma toNat_alignUp_le {v : Word} (h : pageCeil v.toNat < 2 ^ 64) :
    (alignUp v).toNat = pageCeil v.toNat := by
  unfold pageCeil at *
  rw [alignUp, toNat_alignDown, BitVec.toNat_add, show (4095#64 : Word).toNat = 4095 from rfl]
  omega

/-- The rounded end wraps to zero when it does not fit. -/
lemma toNat_alignUp_wrap {v : Word} (h : ¬ pageCeil v.toNat < 2 ^ 64) : (alignUp v).toNat = 0 := by
  have hv := v.isLt
  unfold pageCeil at h
  rw [alignUp, toNat_alignDown, BitVec.toNat_add, show (4095#64 : Word).toNat = 4095 from rfl]
  omega

/-- The span loop finds the least address and the greatest end. -/
lemma computeLoadSpan_iff {size : ℕ} {b e : Word}
    (h : ∀ phdr ∈ phdrs, phdr.isLoad = true → AcceptableSegment size phdr) :
    computeLoadSpan phdrs = some (b, e) ↔ ∃ lo hi,
      IsLeast {x | ∃ phdr, (phdr ∈ phdrs ∧ phdr.isLoad = true) ∧ phdr.vaddr.toNat = x} lo ∧
      IsGreatest {x | ∃ phdr, (phdr ∈ phdrs ∧ phdr.isLoad = true) ∧
        phdr.vaddr.toNat + phdr.memsz.toNat = x} hi ∧
      pageCeil hi < 2 ^ 64 ∧ b.toNat = pageFloor lo ∧ e.toNat = pageCeil hi := by
  have hend : ∀ phdr ∈ phdrs, phdr.isLoad = true →
      (phdr.vaddr + phdr.memsz).toNat = phdr.vaddr.toNat + phdr.memsz.toNat := by
    intro phdr hm hl
    have haddr := (h phdr hm hl).address
    rw [BitVec.toNat_add]
    omega
  rcases foldl_loadSpanStep phdrs with ⟨hall, hn⟩ | ⟨lo, hi, hf, hall, ⟨p, hp, hpl, rfl⟩, q, hq, hql, rfl⟩
  · simp only [computeLoadSpan, hn, reduceCtorEq, false_iff]
    rintro ⟨lo, hi, ⟨⟨phdr, ⟨hm, hl⟩, -⟩, -⟩, -⟩
    rw [hall phdr hm] at hl
    cases hl
  have hlo : IsLeast {x | ∃ phdr, (phdr ∈ phdrs ∧ phdr.isLoad = true) ∧ phdr.vaddr.toNat = x}
      p.vaddr.toNat := by
    refine ⟨⟨p, ⟨hp, hpl⟩, rfl⟩, ?_⟩
    rintro x ⟨phdr, ⟨hm, hl⟩, rfl⟩
    exact (hall phdr hm hl).1
  have hhi : IsGreatest {x | ∃ phdr, (phdr ∈ phdrs ∧ phdr.isLoad = true) ∧
      phdr.vaddr.toNat + phdr.memsz.toNat = x} (q.vaddr.toNat + q.memsz.toNat) := by
    refine ⟨⟨q, ⟨hq, hql⟩, rfl⟩, ?_⟩
    rintro x ⟨phdr, ⟨hm, hl⟩, rfl⟩
    rw [← hend phdr hm hl, ← hend q hq hql]
    exact (hall phdr hm hl).2
  have hfloor : (pageAddress p.vaddr).toNat = pageFloor p.vaddr.toNat := toNat_alignDown p.vaddr
  have hpos : p.vaddr.toNat < q.vaddr.toNat + q.memsz.toNat := by
    have hmem := (h p hp hpl).memsz_pos
    have hle := hhi.2 ⟨p, ⟨hp, hpl⟩, rfl⟩
    omega
  simp only [computeLoadSpan, hf]
  by_cases hfit : pageCeil (q.vaddr.toNat + q.memsz.toNat) < 2 ^ 64
  · have hceil := toNat_alignUp_le (v := q.vaddr + q.memsz) (by rwa [hend q hq hql])
    rw [hend q hq hql] at hceil
    have hlt : pageAddress p.vaddr < alignUp (q.vaddr + q.memsz) := by
      rw [BitVec.lt_def, hfloor, hceil]
      unfold pageFloor pageCeil
      omega
    rw [if_pos hlt, Option.some.injEq, Prod.mk.injEq]
    constructor
    · rintro ⟨rfl, rfl⟩
      exact ⟨_, _, hlo, hhi, hfit, hfloor, hceil⟩
    · rintro ⟨lo, hi, hlo', hhi', -, hb, he⟩
      obtain rfl := hlo'.unique hlo
      obtain rfl := hhi'.unique hhi
      exact ⟨BitVec.eq_of_toNat_eq (hfloor.trans hb.symm), BitVec.eq_of_toNat_eq (hceil.trans he.symm)⟩
  · have hwrap := toNat_alignUp_wrap (v := q.vaddr + q.memsz) (by rwa [hend q hq hql])
    rw [if_neg (by rw [BitVec.lt_def, hwrap]; omega)]
    simp only [reduceCtorEq, false_iff]
    rintro ⟨lo, hi, -, hhi', hfit', -⟩
    obtain rfl := hhi'.unique hhi
    exact hfit hfit'

lemma computeLoadSpan_lt {b e : Word} (h : computeLoadSpan phdrs = some (b, e)) : b < e := by
  unfold computeLoadSpan at h
  cases hf : phdrs.foldl loadSpanStep none with
  | none => simp [hf] at h
  | some x =>
    simp only [hf] at h
    split_ifs at h with hlt
    obtain ⟨rfl, rfl⟩ := Prod.mk.inj (Option.some.inj h)
    exact hlt

/-- What the checks did when they produced a plan. -/
lemma elfCheck_eq_some {plan : ElfPlan} :
    elfCheck image imageSize layout a = some plan ↔
      validateHeader (elfHeader image) imageSize = true ∧
      validateProgramHeaders (elfProgramHeaders image (elfHeader image)) imageSize = true ∧
      entryInLoadSegment (elfProgramHeaders image (elfHeader image)) (elfHeader image).entry = true ∧
      ¬ (layout.imageBase = 0#64 ∨ layout.stackTop = 0#64 ∨ layout.stackTop ≤ 4096#64) ∧ a ≠ 0#64 ∧
      ∃ b e, computeLoadSpan (elfProgramHeaders image (elfHeader image)) = some (b, e) ∧
        ¬ elfUserLoadSize < e - b ∧
        ¬ (layout.imageBase + (e - b) < layout.imageBase ∨
          layout.stackTop - 4096#64 < layout.imageBase + (e - b)) ∧
        ⟨elfProgramHeaders image (elfHeader image), (elfHeader image).entry, b, e - b⟩ = plan := by
  unfold elfCheck
  dsimp only
  by_cases hh : validateHeader (elfHeader image) imageSize = true
  swap
  · simp [hh]
  by_cases hp : validateProgramHeaders (elfProgramHeaders image (elfHeader image)) imageSize = true
  swap
  · simp [hp]
  simp only [hh, hp, not_true_eq_false, if_false, true_and]
  cases hspan : computeLoadSpan (elfProgramHeaders image (elfHeader image)) with
  | none => simp
  | some span =>
    obtain ⟨b, e⟩ := span
    dsimp only
    constructor
    · intro h
      split_ifs at h with h₁ h₂ h₃ h₄ h₅
      exact ⟨h₁, h₂, h₃, b, e, rfl, h₄, h₅, Option.some.inj h⟩
    · rintro ⟨h₁, h₂, h₃, b', e', hbe, h₄, h₅, rfl⟩
      obtain ⟨rfl, rfl⟩ := Prod.mk.inj (Option.some.inj hbe)
      rw [if_neg (not_not.mpr h₁), if_neg h₂, if_neg h₃, if_neg h₄, if_neg h₅]

/-- The checks accept exactly the acceptable images, with their span. -/
theorem elfCheck_iff (ha : a ≠ 0#64) {span : ℕ} :
    (∃ plan, elfCheck image imageSize layout a = some plan ∧ plan.span.toNat = span) ↔
      ElfAcceptable image imageSize.toNat layout span := by
  constructor
  · rintro ⟨plan, hplan, rfl⟩
    have hv := (elfCheck_valid hplan).1
    obtain ⟨hh, hp, he, hl, -, b, e, hspan, -, -, rfl⟩ := elfCheck_eq_some.mp hplan
    obtain ⟨hsegs, hsome⟩ := validateProgramHeaders_iff.mp hp
    obtain ⟨h₁, h₂, h₃, h₄, h₅, h₆⟩ := validateHeader_iff.mp hh
    obtain ⟨lo, hi, hlo, hhi, hfit, hb, hee⟩ := (computeLoadSpan_iff hsegs).mp hspan
    obtain ⟨q, hq, hql, hq₁, hq₂⟩ := (entryInLoadSegment_iff hsegs).mp he
    have hlt := computeLoadSpan_lt hspan
    have hroom := hv.room
    have hstack := hv.stack
    push Not at hl
    refine ⟨h₁, h₂, h₃, h₄, h₅, h₆, ⟨q, hq, hql⟩, fun phdr hm => hsegs phdr hm.1 hm.2,
      ⟨q, ⟨hq, hql⟩, hq₁, hq₂⟩, ⟨lo, hi, hlo, hhi, hfit, ?_⟩, hv.span_le, ?_, by omega⟩
    · rw [BitVec.toNat_sub_of_le (by bv_omega), hb, hee]
    · exact fun h0 => hl.1 (BitVec.eq_of_toNat_eq h0)
  · intro h
    have hsegs : ∀ phdr ∈ elfProgramHeaders image (elfHeader image), phdr.isLoad = true →
        AcceptableSegment imageSize.toNat phdr := fun phdr hm hl => h.segments phdr ⟨hm, hl⟩
    obtain ⟨lo, hi, hlo, hhi, hfit, hspan⟩ := h.bounds
    have hle : pageFloor lo ≤ pageCeil hi := by
      obtain ⟨p, hp, rfl⟩ := hlo.1
      have hle := hhi.2 ⟨p, hp, rfl⟩
      unfold pageFloor pageCeil
      omega
    have hb : (BitVec.ofNat 64 (pageFloor lo) : Word).toNat = pageFloor lo := by
      rw [BitVec.toNat_ofNat]
      omega
    have he : (BitVec.ofNat 64 (pageCeil hi) : Word).toNat = pageCeil hi := by
      rw [BitVec.toNat_ofNat]
      omega
    have hcompute := (computeLoadSpan_iff hsegs).mpr ⟨lo, hi, hlo, hhi, hfit, hb, he⟩
    have hlt := computeLoadSpan_lt hcompute
    have hsub : (BitVec.ofNat 64 (pageCeil hi) - BitVec.ofNat 64 (pageFloor lo) : Word).toNat = span := by
      rw [BitVec.toNat_sub_of_le (by bv_omega), hb, he, hspan]
    have hbase := h.image_base
    have hroom := h.room
    have hspan_le := h.span_le
    have hsize : elfUserLoadSize.toNat = 0x100000 := rfl
    have htop := layout.stackTop.isLt
    obtain ⟨p, hp, hentry⟩ := h.entry
    obtain ⟨q, hq, hql⟩ := h.nonempty
    obtain ⟨d, hd⟩ : ∃ d, (BitVec.ofNat 64 (pageCeil hi) - BitVec.ofNat 64 (pageFloor lo) : Word) = d :=
      ⟨_, rfl⟩
    refine ⟨_, elfCheck_eq_some.mpr ⟨?_, ?_, ?_, ?_, ha, _, _, hcompute, ?_, ?_, rfl⟩, hsub⟩
    · exact validateHeader_iff.mpr ⟨h.header_fits, h.magic, h.ident, h.kind, h.sizes, h.table⟩
    · exact validateProgramHeaders_iff.mpr ⟨hsegs, q, hq, hql⟩
    · exact (entryInLoadSegment_iff hsegs).mpr ⟨p, hp.1, hp.2, hentry⟩
    · bv_omega
    · rw [hd] at hsub ⊢
      bv_omega
    · rw [hd] at hsub ⊢
      bv_omega

end Checks

end Platinum
