import Platinum.Elf
import Mathlib.Data.List.Perm.Basic

/-!
# The load window

The claim takes exactly the window pages outside the reusable range or nothing.
The segments then determine every byte of the cleared window.
-/
namespace Platinum
open ByteMemory WordArith

/-- The pages of a window that its claim takes from the allocator. -/
def unowned (reusableBegin reusableEnd : Word) (pages : List Word) : List Word :=
  pages.filter fun p => !pageInRange p reusableBegin reusableEnd

section Claim

variable {s : Phys} {l l₀ : List Word} {b rb re : Word}

lemma mem_unowned {p : Word} {ps : List Word} :
    p ∈ unowned rb re ps ↔ p ∈ ps ∧ pageInRange p rb re = false := by
  simp [unowned]

/-- Taking distinct pages out of a list and putting them back. -/
lemma append_diff_perm {c l : List Word} (hc : c.Nodup) (h : ∀ p ∈ c, p ∈ l) :
    (c ++ l.diff c).Perm l :=
  List.subperm_append_diff_self_of_count_le (List.subperm_ext_iff.mp (List.subperm_of_subset hc h))

theorem rollbackWindowPages_eq (s : Phys) (rb re : Word) (ps : List Word) :
    rollbackWindowPages s rb re ps = freeAll s (unowned rb re ps) := by
  unfold rollbackWindowPages unowned
  induction ps generalizing s with
  | nil => rfl
  | cons p ps ih =>
    rw [List.foldl_cons, ih]
    cases hp : pageInRange p rb re <;> simp [hp]

lemma pageSpan_of_aligned {b e : Word} {n : ℕ} (he : e.toNat = b.toNat + 4096 * n) :
    pageSpan b e = pagesFrom b n := by
  rw [pageSpan, he]
  congr 1
  omega

/-- The claim loop after `k` pages, with the pages it took in `F`. -/
theorem claimWindowLoop_spec {n : ℕ} (hb : b.toNat + 4096 * n < 2 ^ 64) (hal : b.toNat % 4096 = 0) :
    ∀ (c k : ℕ) (s : Phys) (l : List Word), k + c = n → FreeList s l →
      l₀.Perm (unowned rb re (pagesFrom b k) ++ l) → l₀.Nodup → (∀ p ∈ l₀, IsPage p) →
      (∀ p ∈ unowned rb re ((List.range' k c).map fun i => b + BitVec.ofNat 64 (4096 * i)), p ∈ l) ∧
        (∃ s', claimWindowLoop b rb re s
            ((List.range' k c).map fun i => b + BitVec.ofNat 64 (4096 * i)) = .ok (true, s') ∧
          FreeList s' (l.diff (unowned rb re
            ((List.range' k c).map fun i => b + BitVec.ofNat 64 (4096 * i)))) ∧
          ChangesLinks {p | p ∈ l₀} s.mem s'.mem ∧ SameGlobals s s') ∨
      (∃ p ∈ unowned rb re ((List.range' k c).map fun i => b + BitVec.ofNat 64 (4096 * i)), p ∉ l) ∧
        (∃ s' l', claimWindowLoop b rb re s
            ((List.range' k c).map fun i => b + BitVec.ofNat 64 (4096 * i)) = .ok (false, s') ∧
          FreeList s' l' ∧ l'.Perm l₀ ∧
          ChangesLinks {p | p ∈ l₀} s.mem s'.mem ∧ SameGlobals s s') := by
  intro c
  induction c with
  | zero =>
    intro k s l _ h _ _ _
    exact .inl ⟨by simp [unowned], s, rfl, by simpa [unowned] using h, ChangesLinks.refl _ _,
      SameGlobals.refl s⟩
  | succ c ih =>
    intro k s l hk h hperm hnd₀ hpage
    have hpk : (b + BitVec.ofNat 64 (4096 * k)).toNat = b.toNat + 4096 * k := by
      rw [BitVec.toNat_add, BitVec.toNat_ofNat]
      omega
    have hsucc := pagesFrom_succ b k
    rw [List.range'_succ, List.map_cons]
    generalize hrest : (List.range' (k + 1) c).map (fun i => b + BitVec.ofNat 64 (4096 * i)) = rest
    generalize hpage_k : b + BitVec.ofNat 64 (4096 * k) = page at hpk hsucc
    by_cases hr : pageInRange page rb re
    · have hskip : unowned rb re (page :: rest) = unowned rb re rest := by simp [unowned, hr]
      have hstep : claimWindowLoop b rb re s (page :: rest) = claimWindowLoop b rb re s rest := by
        simp only [claimWindowLoop, hr, if_true]
      have hF : unowned rb re (pagesFrom b (k + 1)) = unowned rb re (pagesFrom b k) := by
        rw [hsucc]
        simp [unowned, hr]
      rw [hskip, hstep]
      have hih := ih (k + 1) s l (by omega) h (hF.symm ▸ hperm) hnd₀ hpage
      rwa [hrest] at hih
    · have hkeep : unowned rb re (page :: rest) = page :: unowned rb re rest := by
        simp [unowned, hr]
      have hF : unowned rb re (pagesFrom b (k + 1)) = unowned rb re (pagesFrom b k) ++ [page] := by
        rw [hsucc]
        simp [unowned, hr]
      have hsub : ∀ p ∈ l, p ∈ l₀ := fun p hp => hperm.mem_iff.mpr (by simp [hp])
      rw [hkeep]
      by_cases hm : page ∈ l
      · obtain ⟨s₁, hrun, hl₁, hc₁, hg₁⟩ := pallocTake_present h hm
        have hstep : claimWindowLoop b rb re s (page :: rest) =
            claimWindowLoop b rb re s₁ rest := by
          simp only [claimWindowLoop, hr, Bool.false_eq_true, if_false, hrun, ok_bind]
        have hperm₁ : l₀.Perm (unowned rb re (pagesFrom b (k + 1)) ++ l.erase page) := by
          rw [hF, List.append_assoc]
          exact hperm.trans ((List.perm_cons_erase hm).append_left _)
        have hc₁' : ChangesLinks {p | p ∈ l₀} s.mem s₁.mem :=
          hc₁.mono fun p hp => hsub p (List.mem_of_mem_erase hp)
        have hnd := h.nodup
        rcases hrest ▸ ih (k + 1) s₁ (l.erase page) (by omega) hl₁ hperm₁ hnd₀ hpage
          with ⟨hall, s', hrun', hl', hc', hg'⟩ | ⟨⟨q, hq, hql⟩, s', l', hrun', hl', hp', hc', hg'⟩
        · refine .inl ⟨?_, s', hstep.trans hrun', ?_, hc₁'.trans hc', hg₁.trans hg'⟩
          · intro p hp
            rcases List.mem_cons.mp hp with rfl | hp
            · exact hm
            · exact List.mem_of_mem_erase (hall p hp)
          · rw [List.diff_cons]
            exact hl'
        · refine .inr ⟨⟨q, by simp [hq], ?_⟩, s', l', hstep.trans hrun', hl', hp',
            hc₁'.trans hc', hg₁.trans hg'⟩
          intro hqm
          refine hql ((hnd.mem_erase_iff).mpr ⟨?_, hqm⟩)
          -- later pages of the window are above this one
          rintro rfl
          obtain ⟨hq, _⟩ := mem_unowned.mp hq
          rw [← hrest] at hq
          obtain ⟨i, hi, hqi⟩ := List.mem_map.mp hq
          rw [List.mem_range'_1] at hi
          have hqn := congrArg BitVec.toNat hqi
          rw [BitVec.toNat_add, BitVec.toNat_ofNat] at hqn
          omega
      · refine .inr ⟨⟨page, by simp, hm⟩, ?_⟩
        have hal' : page.toNat % 4096 = 0 := by omega
        have hspan : pageSpan b page = pagesFrom b k := pageSpan_of_aligned hpk
        have hstep : claimWindowLoop b rb re s (page :: rest) =
            .ok (false, freeAll s (unowned rb re (pagesFrom b k))) := by
          simp only [claimWindowLoop, hr, Bool.false_eq_true, if_false, pallocTake_absent h hal' hm,
            ok_bind, hspan, rollbackWindowPages_eq]
        have hFl : ∀ p ∈ unowned rb re (pagesFrom b k), p ∈ l₀ := fun p hp =>
          hperm.mem_iff.mpr (by simp [hp])
        have hdisj : ∀ p ∈ unowned rb re (pagesFrom b k), p ∉ l :=
          fun p hp hpl => (List.nodup_append.mp (hperm.nodup_iff.mp hnd₀)).2.2 p hp p hpl rfl
        refine ⟨_, _, hstep, freeAll_list h (fun p hp => hpage p (hFl p hp)) ?_ hdisj, ?_,
          (freeAll_links s _).mono hFl, freeAll_globals s _⟩
        · exact ((nodup_pagesFrom (by omega)).filter _)
        · exact ((List.reverse_perm _).append_right _).trans hperm.symm

/-- `claim_window_pages` takes the window pages outside the reusable range when
they are all free, and otherwise gives back what it took. -/
theorem claimWindowPages_spec (b rb re : Word) (h : FreeList s l) {e : Word} {n : ℕ}
    (he : e.toNat = b.toNat + 4096 * n) (hal : b.toNat % 4096 = 0) :
    ((∀ p ∈ unowned rb re (pagesFrom b n), p ∈ l) ∧
      ∃ s', claimWindowPages s b e rb re = .ok (true, s') ∧
        FreeList s' (l.diff (unowned rb re (pagesFrom b n))) ∧
        ChangesLinks {p | p ∈ l} s.mem s'.mem ∧ SameGlobals s s') ∨
    ((∃ p ∈ unowned rb re (pagesFrom b n), p ∉ l) ∧
      ∃ s' l', claimWindowPages s b e rb re = .ok (false, s') ∧ FreeList s' l' ∧ l'.Perm l ∧
        ChangesLinks {p | p ∈ l} s.mem s'.mem ∧ SameGlobals s s') := by
  have hb : b.toNat + 4096 * n < 2 ^ 64 := he ▸ e.isLt
  have hspan : pageSpan b e =
      (List.range' 0 n).map fun i => b + BitVec.ofNat 64 (4096 * i) := by
    rw [pageSpan_of_aligned he, pagesFrom, List.range_eq_range']
  rw [claimWindowPages, hspan, pagesFrom, List.range_eq_range']
  exact claimWindowLoop_spec hb hal n 0 s l (by omega) h (by simp [unowned, pagesFrom]) h.nodup
    h.pages

/-- A page of the window `[b, e)` that lies outside the reusable range. -/
structure ClaimedPage (b e rb re p : Word) : Prop where
  aligned : p.toNat % 4096 = 0
  begin_le : b.toNat ≤ p.toNat
  lt_end : p.toNat < e.toNat
  outside : pageInRange p rb re = false

/-- A window that ends before it begins is visited like an empty one. -/
lemma pageSpan_aligned {e : Word} (hb : b.toNat % 4096 = 0) (he : e.toNat % 4096 = 0) :
    ∃ (e' : Word) (n : ℕ), e'.toNat = b.toNat + 4096 * n ∧ pageSpan b e = pageSpan b e' ∧
      pageSpan b e = pagesFrom b n ∧ 4096 * n = e.toNat - b.toNat := by
  have hlt := e.isLt
  by_cases hle : b.toNat ≤ e.toNat
  · have hn : e.toNat = b.toNat + 4096 * ((e.toNat - b.toNat) / 4096) := by omega
    exact ⟨e, _, hn, rfl, pageSpan_of_aligned hn, by omega⟩
  · have hempty : pageSpan b e = pagesFrom b 0 := by
      rw [pageSpan]
      congr 1
      omega
    exact ⟨b, 0, rfl, hempty.trans (pageSpan_of_aligned rfl).symm, hempty, by omega⟩

lemma mem_unowned_pageSpan {e p : Word} (hb : b.toNat % 4096 = 0) (he : e.toNat % 4096 = 0) :
    p ∈ unowned rb re (pageSpan b e) ↔ ClaimedPage b e rb re p := by
  obtain ⟨e', n, he', -, hspan, hn⟩ := pageSpan_aligned hb he
  have hlt := e'.isLt
  rw [mem_unowned, hspan, mem_pagesFrom (by omega)]
  constructor
  · rintro ⟨⟨i, hi, hp⟩, hout⟩
    exact ⟨by omega, by omega, by omega, hout⟩
  · intro h
    have hle := h.begin_le
    have hend := h.lt_end
    have haligned := h.aligned
    exact ⟨⟨(p.toNat - b.toNat) / 4096, by omega, by omega⟩, h.outside⟩

/-- Releasing an image without a stack frees the window pages outside the range. -/
lemma elfReleaseUserImage_unstacked (s : Phys) {loaded : LoadedUserImage}
    (hstack : loaded.stackPage = 0#64) :
    elfReleaseUserImage s loaded =
      freeAll s (unowned loaded.reusablePhysicalBegin loaded.reusablePhysicalEnd
        (pageSpan loaded.loadPhysicalBegin loaded.loadPhysicalEnd)) := by
  rw [elfReleaseUserImage, if_neg (not_not.mpr hstack), rollbackWindowPages_eq]

/-- All or nothing: the claim succeeds exactly when every window page outside the
reusable range is free, and then takes just those; a failed claim leaves the same
pages free, and releasing a claimed image frees what its claim took. -/
theorem claimWindowPages_all_or_nothing {e : Word} (h : FreeList s l) (hb : b.toNat % 4096 = 0)
    (he : e.toNat % 4096 = 0) :
    ∃ claimed s' l', claimWindowPages s b e rb re = .ok (claimed, s') ∧ FreeList s' l' ∧
      (claimed = true ↔ ∀ p, ClaimedPage b e rb re p → p ∈ l) ∧
      (claimed = true → ∀ p, p ∈ l' ↔ p ∈ l ∧ ¬ ClaimedPage b e rb re p) ∧
      (claimed = false → ∀ p, p ∈ l' ↔ p ∈ l) ∧
      (claimed = true → ∀ (s'' : Phys) (loaded : LoadedUserImage), FreeList s'' l' →
        loaded.loadPhysicalBegin = b → loaded.loadPhysicalEnd = e →
        loaded.reusablePhysicalBegin = rb → loaded.reusablePhysicalEnd = re →
        loaded.stackPage = 0#64 →
        ∃ l'', FreeList (elfReleaseUserImage s'' loaded) l'' ∧ ∀ p, p ∈ l'' ↔ p ∈ l) := by
  obtain ⟨e', n, he', hsame, hspan, -⟩ := pageSpan_aligned hb he
  have hlt := e'.isLt
  have hmem : ∀ p, p ∈ unowned rb re (pageSpan b e) ↔ ClaimedPage b e rb re p :=
    fun _ => mem_unowned_pageSpan hb he
  have hclaim : claimWindowPages s b e rb re = claimWindowPages s b e' rb re := by
    rw [claimWindowPages, claimWindowPages, hsame]
  rw [hclaim]
  have hspec := claimWindowPages_spec b rb re h he' hb
  rw [← hspan] at hspec
  rcases hspec with ⟨hall, s', hrun, hl', -, -⟩ | ⟨⟨q, hq, hql⟩, s', l', hrun, hl', hperm, -, -⟩
  · refine ⟨true, s', _, hrun, hl', ⟨fun _ p hp => hall p ((hmem p).mpr hp), fun _ => rfl⟩,
      fun _ p => ?_, fun hf => absurd hf (by decide), ?_⟩
    · rw [h.nodup.mem_sdiff_iff, hmem p]
    · rintro - s'' loaded hl'' rfl rfl rfl rfl hstack
      have hnd : (unowned loaded.reusablePhysicalBegin loaded.reusablePhysicalEnd
          (pageSpan loaded.loadPhysicalBegin loaded.loadPhysicalEnd)).Nodup := by
        rw [hspan]
        exact (nodup_pagesFrom (by omega)).filter _
      rw [elfReleaseUserImage_unstacked s'' hstack]
      refine ⟨_, freeAll_list hl'' (fun p hp => h.pages p (hall p hp)) hnd ?_, fun p => ?_⟩
      · intro p hp hpl
        exact (h.nodup.mem_sdiff_iff.mp hpl).2 hp
      · exact (((List.reverse_perm _).append_right _).trans (append_diff_perm hnd hall)).mem_iff
  · exact ⟨false, s', l', hrun, hl', ⟨fun hf => absurd hf (by decide),
      fun hfree => absurd (hfree q ((hmem q).mp hq)) hql⟩, fun hf => absurd hf (by decide),
      fun _ p => hperm.mem_iff, fun hf => absurd hf (by decide)⟩

/-- Three free pages: the outer two of a window of three and one above it. -/
def windowMachine : Phys :=
  freeAll
    { mem := fun _ => 0
      freeListHead := 0
      allocRegionBegin := 0
      allocRegionEnd := 0
      freePageCount := 0
      pagingKernelPml4 := 0
      cr3 := 0
      memmap := ⟨fun _ => ⟨0, 0, 0⟩, 0, 0⟩ } [0x02100000#64, 0x02102000#64, 0x02200000#64]

lemma windowMachine_list :
    FreeList windowMachine [0x02200000#64, 0x02102000#64, 0x02100000#64] := by
  refine freeAll_list (l := []) ⟨rfl, List.nodup_nil, by simp⟩ ?_ (by decide) (by simp)
  intro p hp
  rw [List.mem_cons, List.mem_cons, List.mem_singleton] at hp
  rcases hp with rfl | rfl | rfl <;> exact ⟨by decide, by decide, by decide⟩

/-- The reusable page in the middle need not be free. -/
theorem claimWindowPages_windowMachine : ∃ s' l',
    claimWindowPages windowMachine 0x02100000#64 0x02103000#64 0x02101000#64 0x02102000#64 =
        .ok (true, s') ∧ FreeList s' l' ∧ 0x02200000#64 ∈ l' ∧ 0x02100000#64 ∉ l' := by
  obtain ⟨claimed, s', l', hrun, hl', hiff, htrue, -, -⟩ :=
    @claimWindowPages_all_or_nothing windowMachine _ 0x02100000#64 0x02101000#64 0x02102000#64
      0x02103000#64 windowMachine_list (by decide) (by decide)
  have hclaimed : claimed = true := by
    rw [hiff]
    intro p hp
    have hbegin : 0x02100000 ≤ p.toNat := hp.begin_le
    have hend : p.toNat < 0x02103000 := hp.lt_end
    have haligned := hp.aligned
    have hout := hp.outside
    obtain h | h | h : p.toNat = 0x02100000 ∨ p.toNat = 0x02101000 ∨ p.toNat = 0x02102000 := by
      omega
    · rw [show p = 0x02100000#64 from BitVec.eq_of_toNat_eq h]
      decide
    · rw [show p = 0x02101000#64 from BitVec.eq_of_toNat_eq h] at hout
      exact absurd hout (by decide)
    · rw [show p = 0x02102000#64 from BitVec.eq_of_toNat_eq h]
      decide
  refine ⟨s', l', hclaimed ▸ hrun, hl', (htrue hclaimed _).mpr ⟨by decide, ?_⟩, ?_⟩
  · intro h
    exact absurd h.lt_end (by decide)
  · intro h
    exact ((htrue hclaimed _).mp h).2 ⟨by decide, by decide, by decide, by decide⟩

end Claim

section Fill

variable {m : Mem} {image : Mem}

lemma foldl_store8 (m : Mem) (dst count : ℕ) (f : ℕ → Byte) (a : ℕ) :
    ((List.range count).foldl (fun m i => store8 m (dst + i) (f i)) m) a =
      if dst ≤ a ∧ a < dst + count then f (a - dst) else m a := by
  induction count with
  | zero => simp
  | succ count ih =>
    rw [List.range_succ, List.foldl_append, List.foldl_cons, List.foldl_nil, store8, ih]
    by_cases ha : a = dst + count
    · subst ha
      simp
    · have hiff : (dst ≤ a ∧ a < dst + (count + 1)) ↔ (dst ≤ a ∧ a < dst + count) := by omega
      simp only [ha, if_false, hiff]

theorem memoryCopy_apply (m : Mem) (dst : ℕ) (src : Mem) (offset count a : ℕ) :
    memoryCopy m dst src offset count a =
      if dst ≤ a ∧ a < dst + count then src (offset + (a - dst)) else m a :=
  foldl_store8 m dst count (fun i => src (offset + i)) a

theorem memoryZero_apply (m : Mem) (dst count a : ℕ) :
    memoryZero m dst count a = if dst ≤ a ∧ a < dst + count then 0 else m a :=
  foldl_store8 m dst count (fun _ => 0) a

theorem clearWindow_apply (m : Mem) {b e : Word} {n : ℕ} (he : e.toNat = b.toNat + 4096 * n)
    (a : ℕ) : clearWindow m b e a = if b.toNat ≤ a ∧ a < e.toNat then 0 else m a := by
  rw [clearWindow, pageSpan_of_aligned he]
  have hlt := e.isLt
  rw [he] at hlt ⊢
  clear he
  induction n with
  | zero => simp [pagesFrom]
  | succ n ih =>
    have hp : (b + BitVec.ofNat 64 (4096 * n)).toNat = b.toNat + 4096 * n := by
      rw [BitVec.toNat_add, BitVec.toNat_ofNat]
      omega
    rw [pagesFrom_succ, List.foldl_append, List.foldl_cons, List.foldl_nil, memoryZero_apply,
      ih (by omega), hp]
    by_cases h1 : b.toNat + 4096 * n ≤ a ∧ a < b.toNat + 4096 * n + 4096
    · rw [if_pos h1, if_pos (by omega)]
    · rw [if_neg h1]
      by_cases h2 : b.toNat ≤ a ∧ a < b.toNat + 4096 * n
      · rw [if_pos h2, if_pos (by omega)]
      · rw [if_neg h2, if_neg (by omega)]

/-- The byte a segment defines at a virtual address it covers. -/
def segmentByte (image : Mem) (phdr : Elf64ProgramHeader) (x : ℕ) : Option Byte :=
  if phdr.isLoad ∧ phdr.vaddr.toNat ≤ x ∧ x < phdr.vaddr.toNat + phdr.memsz.toNat then
    some (if x < phdr.vaddr.toNat + phdr.filesz.toNat then
      image (phdr.offset.toNat + (x - phdr.vaddr.toNat)) else 0)
  else none

/-- The last segment that covers the address decides; bytes of no segment stay. -/
def segmentsByte (image : Mem) (phdrs : List Elf64ProgramHeader) (x : ℕ) (byte : Byte) : Byte :=
  phdrs.foldl (fun byte phdr => (segmentByte image phdr x).getD byte) byte

/-- The byte of the loaded program at a virtual address of its span. -/
def loadedByte (image : Mem) (phdrs : List Elf64ProgramHeader) (x : ℕ) : Byte :=
  segmentsByte image phdrs x 0

/-- The segments lie inside the span that was computed for them. -/
def SegmentsIn (phdrs : List Elf64ProgramHeader) (vb span : Word) : Prop :=
  ∀ phdr ∈ phdrs, phdr.isLoad = true → vb.toNat ≤ phdr.vaddr.toNat ∧
    phdr.vaddr.toNat + phdr.memsz.toNat ≤ vb.toNat + span.toNat ∧ phdr.filesz.toNat ≤ phdr.memsz.toNat

/-- One segment writes its own bytes of the window. -/
theorem loadSegment_spec (m image : Mem) {phdr : Elf64ProgramHeader} {vb lb span : Word}
    (hseg : SegmentsIn [phdr] vb span) (hlb : lb.toNat + span.toNat < 2 ^ 64) :
    ∃ m', loadSegment m image vb lb phdr = some m' ∧
      (∀ i, i < span.toNat →
        m' (lb.toNat + i) = (segmentByte image phdr (vb.toNat + i)).getD (m (lb.toNat + i))) ∧
      ∀ a, (a < lb.toNat ∨ lb.toNat + span.toNat ≤ a) → m' a = m a := by
  unfold loadSegment segmentByte
  by_cases hl : phdr.isLoad = true
  swap
  · exact ⟨m, by simp [hl], by simp [hl], fun _ _ => rfl⟩
  obtain ⟨hlo, hhi, hfile⟩ := hseg phdr (by simp) hl
  have hnlt : ¬ phdr.vaddr < vb := by
    rw [BitVec.lt_def]
    omega
  have hdst : (lb + (phdr.vaddr - vb)).toNat = lb.toNat + (phdr.vaddr.toNat - vb.toNat) := by
    rw [BitVec.toNat_add, BitVec.toNat_sub_of_le (by rw [BitVec.le_def]; omega)]
    exact Nat.mod_eq_of_lt (by omega)
  have hrest : (phdr.memsz - phdr.filesz).toNat = phdr.memsz.toNat - phdr.filesz.toNat :=
    BitVec.toNat_sub_of_le (by rw [BitVec.le_def]; omega)
  simp only [hl, not_true_eq_false, if_false, hnlt, hdst, hrest, true_and]
  refine ⟨_, rfl, ?_, ?_⟩
  · intro i hi
    rw [memoryZero_apply, memoryCopy_apply]
    by_cases hin : phdr.vaddr.toNat ≤ vb.toNat + i ∧
        vb.toNat + i < phdr.vaddr.toNat + phdr.memsz.toNat
    · rw [if_pos hin]
      by_cases hf : vb.toNat + i < phdr.vaddr.toNat + phdr.filesz.toNat
      · rw [if_neg (by omega), if_pos (by omega), if_pos hf, Option.getD_some]
        congr 1
        omega
      · rw [if_pos (by omega), if_neg hf, Option.getD_some]
    · rw [if_neg hin, if_neg (by omega), if_neg (by omega), Option.getD_none]
  · intro a ha
    rw [memoryZero_apply, memoryCopy_apply, if_neg (by omega), if_neg (by omega)]

/-- All segments, in table order. -/
theorem loadSegments_spec {vb lb span : Word} (hlb : lb.toNat + span.toNat < 2 ^ 64) :
    ∀ (phdrs : List Elf64ProgramHeader) (m : Mem), SegmentsIn phdrs vb span →
      ∃ m', loadSegments m image vb lb phdrs = (true, m') ∧
        (∀ i, i < span.toNat →
          m' (lb.toNat + i) = segmentsByte image phdrs (vb.toNat + i) (m (lb.toNat + i))) ∧
        ∀ a, (a < lb.toNat ∨ lb.toNat + span.toNat ≤ a) → m' a = m a
  | [], m, _ => ⟨m, rfl, fun _ _ => rfl, fun _ _ => rfl⟩
  | phdr :: rest, m, h => by
    have hhead : SegmentsIn [phdr] vb span := fun p hp => h p (by simpa using .inl (by simpa using hp))
    obtain ⟨m₁, h₁, hin₁, hout₁⟩ := loadSegment_spec m image hhead hlb
    obtain ⟨m₂, h₂, hin₂, hout₂⟩ := loadSegments_spec hlb rest m₁ fun p hp => h p (by simp [hp])
    refine ⟨m₂, by simp [loadSegments, h₁, h₂], ?_, fun a ha => (hout₂ a ha).trans (hout₁ a ha)⟩
    intro i hi
    rw [hin₂ i hi, hin₁ i hi]
    rfl

end Fill

end Platinum
