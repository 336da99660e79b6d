import Platinum.ElfCheck

/-!
# What loading an image does

Loading claims the window, fills it and maps it into a fresh address space,
which takes the three tables of the user region; then it takes a stack page.
-/
namespace Platinum
open ByteMemory WordArith SharedTrie

/-- `first_user_layout`. -/
def firstUserLayout : UserVirtualLayout where
  trampolineBase := 0x40000000#64
  imageBase := 0x40001000#64
  stackTop := 0x40200000#64

/-- The position of the one page table that serves the whole layout. -/
def firstPath : Path := userPath firstUserLayout.trampolineBase

@[simp] lemma length_firstPath : firstPath.length = 3 := rfl

lemma userPath_firstPath {v : Word} (h₁ : 0x40000000 ≤ v.toNat) (h₂ : v.toNat < 0x40200000) :
    userPath v = firstPath := by
  have hbase : firstUserLayout.trampolineBase.toNat = 0x40000000 := rfl
  have h39 : v.toNat / 2 ^ 39 % 512 = firstUserLayout.trampolineBase.toNat / 2 ^ 39 % 512 := by omega
  have h30 : v.toNat / 2 ^ 30 % 512 = firstUserLayout.trampolineBase.toNat / 2 ^ 30 % 512 := by omega
  have h21 : v.toNat / 2 ^ 21 % 512 = firstUserLayout.trampolineBase.toNat / 2 ^ 21 % 512 := by omega
  simp only [firstPath, userPath, pml4Index, pdptIndex, pdIndex, List.cons.injEq, and_true]
  refine ⟨Fin.ext ?_, Fin.ext ?_, Fin.ext ?_⟩
  · rw [tableIndex_val, tableIndex_val, h39]
  · rw [tableIndex_val, tableIndex_val, h30]
  · rw [tableIndex_val, tableIndex_val, h21]

lemma ptIndex_val (v : Word) : (ptIndex v).val = v.toNat / 4096 % 512 := tableIndex_val 12 v

section MapLoop

variable {K : KernelTables} {own own' : Owner} {s s' : Phys} {l l' : List Word} {a v p : Word}

/-- A page that was just mapped passes the kernel's check. -/
lemma matches_of_leaf (h : PagingInv K own s l) (ha : IsSpace own a) (hp : p.toNat < 2 ^ 52)
    (hleaf : leafEntry s.mem a (userPath v) (ptIndex v) = userEntry p) :
    pagingMappingMatches s.mem a v p true = true := by
  have hal : (pageAddress p).toNat % 4096 = 0 := alignDown_aligned p
  have hlt : (pageAddress p).toNat < 2 ^ 52 := by
    rw [pageAddress, toNat_alignDown]
    omega
  have hn : (userEntry p).toNat = (pageAddress p).toNat + 7 := toNat_or_flags hal (by decide)
  rw [(user_levels h ha).pagingMappingMatches_iff (h.own_page ha).ne_zero, hleaf]
  refine ⟨?_, ?_, ?_⟩
  · rw [present_iff, hn]
    omega
  · apply BitVec.eq_of_toNat_eq
    rw [entryAddress, pagingAddressMask, toNat_addressMask, hn]
    omega
  · rw [userBit_iff, hn]
    simp only [iff_true]
    omega

variable {imageBase loadBegin : Word} {path : Path}

/-- The address pairs that the mapping loop of `elf_load_user_image` maps. -/
def windowPairs (imageBase loadBegin : Word) (L : List ℕ) : List (Word × Word) :=
  L.map fun i => (imageBase + BitVec.ofNat 64 i * 4096#64, loadBegin + BitVec.ofNat 64 i * 4096#64)

/-- The mapping loop maps all its pages, or halts at the first for want of tables. -/
theorem mapWindowLoop_spec (hv : ∀ i rest, path = i :: rest → K.base [] i ≠ 0#64) :
    ∀ (L : List ℕ) {s : Phys} {own : Owner} {l : List Word}, PagingInv K own s l → IsSpace own a →
      (∀ v p, (v, p) ∈ windowPairs imageBase loadBegin L → userPath v = path ∧ p.toNat < 2 ^ 52) →
      (windowPairs imageBase loadBegin L).Pairwise (fun x y => ptIndex x.1 ≠ ptIndex y.1) →
      (∃ s' own' l', mapWindowLoop a imageBase loadBegin s L = .ok (true, s') ∧
        RegionMapped K a path (windowPairs imageBase loadBegin L) s own l s' own' l') ∨
      (mapWindowLoop a imageBase loadBegin s L = .error .halt ∧ l.length < 3 ∧
        ¬ Private own a path) := by
  intro L
  induction L with
  | nil =>
    intro s own l h ha _ _
    exact .inl ⟨s, own, l, rfl, RegionMapped.nil h⟩
  | cons i L ih =>
    intro s own l h ha hpairs hdist
    obtain ⟨hpath, hp⟩ := hpairs (imageBase + BitVec.ofNat 64 i * 4096#64)
      (loadBegin + BitVec.ofNat 64 i * 4096#64) (by simp [windowPairs])
    have hlen : path.length = 3 := by rw [← hpath]; rfl
    obtain ⟨hfirst, hdist⟩ := List.pairwise_cons.mp hdist
    simp only [mapWindowLoop]
    rcases pagingMapUserPage_spec h ha (v := imageBase + BitVec.ofNat 64 i * 4096#64)
        (p := loadBegin + BitVec.ofNat 64 i * 4096#64) (hv _ _ hpath.symm)
      with ⟨s₁, own₁, l₁, hrun, hm⟩ | ⟨hrun, hlt, hno⟩
    · have ha₁ : IsSpace own₁ a := hm.taken.keep h.free_own ha
      have hmatch := matches_of_leaf hm.inv ha₁ hp hm.here
      simp only [hrun, ok_bind, hmatch, if_true]
      rcases ih hm.inv ha₁ (fun v p hvp => hpairs v p (by
          simp only [windowPairs, List.map_cons, List.mem_cons] at hvp ⊢
          exact .inr hvp)) hdist
        with ⟨s₂, own₂, l₂, hrun₂, hr⟩ | ⟨_, _, hno⟩
      · refine .inl ⟨s₂, own₂, l₂, hrun₂, ?_⟩
        have hone := hpath ▸ RegionMapped.of_mapped hm
        refine RegionMapped.append h ha hlen hone hr ?_
        intro v p w q hvp hwq
        obtain ⟨rfl, rfl⟩ : v = _ ∧ p = _ := by simpa using hvp
        exact hfirst (w, q) hwq
      · exact absurd (hpath ▸ hm.table) hno
    · rw [hrun]
      exact .inr ⟨rfl, hlt, hpath ▸ hno⟩

end MapLoop

namespace ElfPlan

def pageCount (plan : ElfPlan) : ℕ := plan.span.toNat / 4096

/-- The pages of the window that the image occupies. -/
def windowPages (plan : ElfPlan) : List Word := pagesFrom elfUserLoadBase plan.pageCount

/-- The window pages that have to come from the allocator. -/
def claimed (plan : ElfPlan) (reusableBegin reusableEnd : Word) : List Word :=
  unowned reusableBegin reusableEnd plan.windowPages

/-- The end of the image's physical window. -/
def physicalEnd (plan : ElfPlan) : Word := elfUserLoadBase + plan.span

variable {plan : ElfPlan} {imageSize : Word} {layout : UserVirtualLayout}

lemma toNat_base : elfUserLoadBase.toNat = 0x02100000 := rfl

lemma Valid.physicalEnd (h : plan.Valid imageSize layout) :
    plan.physicalEnd.toNat = 0x02100000 + 4096 * plan.pageCount := by
  have h₁ := h.span_le
  have h₂ := h.span_aligned
  rw [ElfPlan.physicalEnd, pageCount, BitVec.toNat_add, toNat_base]
  omega

lemma Valid.span_eq (h : plan.Valid imageSize layout) : plan.span.toNat = 4096 * plan.pageCount := by
  have h₂ := h.span_aligned
  rw [pageCount]
  omega

lemma Valid.pageCount_le (h : plan.Valid imageSize layout) : plan.pageCount ≤ 256 := by
  have h₁ := h.span_le
  rw [pageCount]
  omega

lemma Valid.pageCount_pos (h : plan.Valid imageSize layout) : 0 < plan.pageCount := by
  have h₁ := h.span_pos
  have h₂ := h.span_aligned
  rw [pageCount]
  omega

lemma Valid.mem_windowPages (h : plan.Valid imageSize layout) {p : Word} :
    p ∈ plan.windowPages ↔ ∃ i, i < plan.pageCount ∧ p.toNat = 0x02100000 + 4096 * i := by
  have h₁ := h.pageCount_le
  exact mem_pagesFrom (by rw [toNat_base]; omega)

lemma Valid.windowPages_page (h : plan.Valid imageSize layout) {p : Word}
    (hp : p ∈ plan.windowPages) : IsPage p := by
  obtain ⟨i, hi, hpi⟩ := h.mem_windowPages.mp hp
  have h₁ := h.pageCount_le
  exact ⟨by omega, by omega, by omega⟩

lemma Valid.windowPages_nodup (h : plan.Valid imageSize layout) : plan.windowPages.Nodup := by
  have h₁ := h.pageCount_le
  exact nodup_pagesFrom (by rw [toNat_base]; omega)

/-- An address of the window lies on one of its pages. -/
lemma Valid.onPage_window (h : plan.Valid imageSize layout) {x : ℕ} (h₁ : 0x02100000 ≤ x)
    (h₂ : x < 0x02100000 + plan.span.toNat) : ∃ p ∈ plan.windowPages, OnPage p x := by
  have hs := h.span_eq
  have hc := h.pageCount_le
  have hp : (BitVec.ofNat 64 (x / 4096 * 4096) : Word).toNat = x / 4096 * 4096 := by
    rw [BitVec.toNat_ofNat]
    omega
  refine ⟨BitVec.ofNat 64 (x / 4096 * 4096), h.mem_windowPages.mpr
    ⟨(x - 0x02100000) / 4096, by omega, by omega⟩, ?_⟩
  unfold OnPage
  omega

end ElfPlan

/-- What the loader may assume when it starts. -/
structure LoadContext (K : KernelTables) (own : Owner) (s : Phys) (l : List Word)
    (a rb re : Word) : Prop where
  inv : PagingInv K own s l
  space : IsSpace own a
  fresh : ∀ ρ, ρ ≠ [] → ¬ Private own a ρ
  limit : 0 < K.limit
  reusable : ∀ p, IsPage p → pageInRange p rb re = true → p ∉ l ∧ own p = none ∧ ¬ K.IsTable p

/-- The window is claimed, filled and mapped into the space `a`. -/
structure WindowLoaded (K : KernelTables) (a rb re : Word) (image : Mem) (plan : ElfPlan)
    (s : Phys) (own : Owner) (l : List Word) (s' : Phys) (own' : Owner) (l' : List Word) : Prop where
  inv : PagingInv K own' s' l'
  globals : SameGlobals s s'
  available : ∀ p ∈ plan.claimed rb re, p ∈ l
  taken : Taken a firstPath own (l.diff (plan.claimed rb re)) own' l'
  length : (l.diff (plan.claimed rb re)).length = l'.length + 3
  table : Private own' a firstPath
  window : ∀ i, i < plan.span.toNat →
    s'.mem (0x02100000 + i) = loadedByte image plan.phdrs (plan.vaddrBegin.toNat + i)
  frame : ∀ x, (x < 0x02100000 ∨ 0x02100000 + plan.span.toNat ≤ x) →
    (∀ p ∈ l, ¬ (p.toNat ≤ x ∧ x < p.toNat + 8)) →
    (∀ q ρ, own' q = some (a, ρ) → ¬ OnPage q x) → s'.mem x = s.mem x
  here : ∀ v p, (v, p) ∈ windowPairs firstUserLayout.imageBase elfUserLoadBase
    (List.range plan.pageCount) → leafEntry s'.mem a firstPath (ptIndex v) = userEntry p
  other : ∀ b, IsSpace own b → ∀ ρ j, ρ.length = 3 →
    (b = a → ρ = firstPath → ∀ v p, (v, p) ∈ windowPairs firstUserLayout.imageBase elfUserLoadBase
      (List.range plan.pageCount) → j ≠ ptIndex v) →
    leafEntry s'.mem b ρ j = leafEntry s.mem b ρ j

section Load

variable {K : KernelTables} {own : Owner} {s s' : Phys} {l l' : List Word} {a rb re : Word}
  {image : Mem} {imageSize : Word} {plan : ElfPlan}

lemma first_slot (hlim : 0 < K.limit) : ∀ i rest, firstPath = i :: rest → K.base [] i ≠ 0#64 := by
  intro i rest h
  obtain ⟨rfl, -⟩ := List.cons.inj h.symm
  exact K.slot_present hlim (by decide)

/-- A page of the window is neither a table nor, once claimed, free. -/
lemma LoadContext.window_page {layout : UserVirtualLayout} (h : LoadContext K own s l a rb re)
    (hv : plan.Valid imageSize layout) (hav : ∀ p ∈ plan.claimed rb re, p ∈ l) {p : Word}
    (hp : p ∈ plan.windowPages) :
    own p = none ∧ ¬ K.IsTable p ∧ p ∉ l.diff (plan.claimed rb re) := by
  cases hr : pageInRange p rb re with
  | true =>
    obtain ⟨hl, ho, hk⟩ := h.reusable p (hv.windowPages_page hp) hr
    exact ⟨ho, hk, fun hd => hl (List.diff_subset _ _ hd)⟩
  | false =>
    have hc : p ∈ plan.claimed rb re := mem_unowned.mpr ⟨hp, hr⟩
    refine ⟨h.inv.free_own p (hav p hc), h.inv.free_kernel p (hav p hc), ?_⟩
    rw [h.inv.free.nodup.mem_sdiff_iff]
    exact fun hd => hd.2 hc

lemma windowPairs_spec (hv : plan.Valid imageSize firstUserLayout) :
    (∀ v p, (v, p) ∈ windowPairs firstUserLayout.imageBase elfUserLoadBase
      (List.range plan.pageCount) → userPath v = firstPath ∧ p.toNat < 2 ^ 52) ∧
    (windowPairs firstUserLayout.imageBase elfUserLoadBase (List.range plan.pageCount)).Pairwise
      (fun x y => ptIndex x.1 ≠ ptIndex y.1) := by
  have hc := hv.pageCount_le
  have hva : ∀ i, i < plan.pageCount →
      (firstUserLayout.imageBase + BitVec.ofNat 64 i * 4096#64).toNat = 0x40001000 + 4096 * i := by
    intro i hi
    rw [BitVec.toNat_add, BitVec.toNat_mul, BitVec.toNat_ofNat,
      show firstUserLayout.imageBase.toNat = 0x40001000 from rfl,
      show (4096#64 : Word).toNat = 4096 from rfl]
    omega
  constructor
  · intro v p hvp
    obtain ⟨i, hi, he⟩ := List.mem_map.mp hvp
    obtain ⟨rfl, rfl⟩ := Prod.mk.inj he
    have hi := List.mem_range.mp hi
    have hvi := hva i hi
    refine ⟨userPath_firstPath (by omega) (by omega), ?_⟩
    rw [BitVec.toNat_add, BitVec.toNat_mul, BitVec.toNat_ofNat, ElfPlan.toNat_base,
      show (4096#64 : Word).toNat = 4096 from rfl]
    omega
  · rw [windowPairs, List.pairwise_map]
    refine List.nodup_range.imp_of_mem ?_
    intro i j hi hj hij he
    have hi := List.mem_range.mp hi
    have hj := List.mem_range.mp hj
    have hn := congrArg Fin.val he
    rw [ptIndex_val, ptIndex_val, hva i hi, hva j hj] at hn
    omega

/-- Clearing and filling the claimed window leaves the tables alone. -/
lemma window_filled (image : Mem) {layout : UserVirtualLayout}
    (h : LoadContext K own s l a rb re) (hv : plan.Valid imageSize layout)
    (hav : ∀ p ∈ plan.claimed rb re, p ∈ l) {s₁ : Phys}
    (hl₁ : FreeList s₁ (l.diff (plan.claimed rb re)))
    (hc₁ : ChangesLinks {p | p ∈ l} s.mem s₁.mem) (hg₁ : SameGlobals s s₁) :
    ∃ m, loadSegments (clearWindow s₁.mem elfUserLoadBase plan.physicalEnd) image plan.vaddrBegin
        elfUserLoadBase plan.phdrs = (true, m) ∧
      PagingInv K own { s₁ with mem := m } (l.diff (plan.claimed rb re)) ∧
      (∀ i, i < plan.span.toNat →
        m (0x02100000 + i) = loadedByte image plan.phdrs (plan.vaddrBegin.toNat + i)) ∧
      (∀ x, (x < 0x02100000 ∨ 0x02100000 + plan.span.toNat ≤ x) → m x = s₁.mem x) ∧
      ∀ b, IsSpace own b → ∀ ρ j, ρ.length = 3 → leafEntry m b ρ j = leafEntry s.mem b ρ j := by
  have hend := hv.physicalEnd
  have hspan := hv.span_eq
  have hcnt := hv.pageCount_le
  have hbase := ElfPlan.toNat_base
  have hclear := clearWindow_apply s₁.mem (b := elfUserLoadBase) (n := plan.pageCount)
    (by rw [hend, hbase])
  obtain ⟨m, hm, hin, hout⟩ := loadSegments_spec
    (by rw [hbase]; omega) plan.phdrs (clearWindow s₁.mem elfUserLoadBase plan.physicalEnd)
    hv.segments
  have hout' : ∀ x, (x < 0x02100000 ∨ 0x02100000 + plan.span.toNat ≤ x) → m x = s₁.mem x := by
    intro x hx
    rw [hout x (by rw [hbase]; exact hx), hclear, if_neg (by rw [hbase, hend]; omega)]
  have hin' : ∀ i, i < plan.span.toNat →
      m (0x02100000 + i) = loadedByte image plan.phdrs (plan.vaddrBegin.toNat + i) := by
    intro i hi
    have hm := hin i hi
    rw [hclear, if_pos (by rw [hbase, hend]; omega)] at hm
    exact hm
  -- the window holds no table and no free page
  have hwin : ChangesOnly {p | p ∈ plan.windowPages} s₁.mem m := by
    intro x hx
    apply hout'
    by_contra hcon
    obtain ⟨p, hp, hpx⟩ := hv.onPage_window (x := x) (by omega) (by omega)
    exact hx p hp hpx
  have hal : ∀ p ∈ {p | p ∈ plan.windowPages}, p.toNat % 4096 = 0 :=
    fun p hp => (hv.windowPages_page hp).aligned
  have hwp := fun {p : Word} (hp : p ∈ plan.windowPages) => h.window_page hv hav hp
  have hinv₁ : PagingInv K own s₁ (l.diff (plan.claimed rb re)) := by
    refine h.inv.reframe hl₁ ?_ hg₁.kernelPml4 hc₁.pages (fun p hp => (h.inv.free.pages p hp).aligned)
      fun p hp => ⟨h.inv.free_own p hp, h.inv.free_kernel p hp⟩
    intro p hp
    have hpl := List.diff_subset _ _ hp
    exact ⟨h.inv.free_own p hpl, h.inv.free_kernel p hpl⟩
  have hinv₂ : PagingInv K own { s₁ with mem := m } (l.diff (plan.claimed rb re)) := by
    refine hinv₁.reframe (hl₁.frame rfl hwin hal fun p hp => (hwp hp).2.2) ?_ rfl hwin hal
      fun p hp => ⟨(hwp hp).1, (hwp hp).2.1⟩
    exact fun p hp => ⟨hinv₁.free_own p hp, hinv₁.free_kernel p hp⟩
  refine ⟨m, hm, hinv₂, hin', hout', ?_⟩
  intro b hb ρ j hρ
  refine h.inv.leaf_congr hinv₂ ?_ hb hρ j
  intro q x i hq
  have hqp := h.inv.own_page hq
  rw [hwin.slot hal hqp.aligned (fun hm => by rw [(hwp hm).1] at hq; cases hq)]
  exact hc₁.pages.slot (fun p hp => (h.inv.free.pages p hp).aligned) hqp.aligned
    (fun hm => by rw [h.inv.free_own q hm] at hq; cases hq) i

/-- Claiming, filling and mapping the window: all or, for want of tables, a halt. -/
theorem window_loaded (image : Mem) (h : LoadContext K own s l a rb re)
    (hv : plan.Valid imageSize firstUserLayout)
    (hav : ∀ p ∈ plan.claimed rb re, p ∈ l) {s₁ : Phys}
    (hl₁ : FreeList s₁ (l.diff (plan.claimed rb re)))
    (hc₁ : ChangesLinks {p | p ∈ l} s.mem s₁.mem) (hg₁ : SameGlobals s s₁) :
    ∃ m, loadSegments (clearWindow s₁.mem elfUserLoadBase plan.physicalEnd) image plan.vaddrBegin
        elfUserLoadBase plan.phdrs = (true, m) ∧
      ((∃ s' own' l', mapWindowLoop a firstUserLayout.imageBase elfUserLoadBase
          { s₁ with mem := m } (List.range plan.pageCount) = .ok (true, s') ∧
          WindowLoaded K a rb re image plan s own l s' own' l') ∨
        (mapWindowLoop a firstUserLayout.imageBase elfUserLoadBase
          { s₁ with mem := m } (List.range plan.pageCount) = .error .halt ∧
          (l.diff (plan.claimed rb re)).length < 3)) := by
  obtain ⟨m, hm, hinv, hin, hout, hleaf⟩ := window_filled image h hv hav hl₁ hc₁ hg₁
  obtain ⟨hpairs, hdist⟩ := windowPairs_spec hv
  refine ⟨m, hm, ?_⟩
  rcases mapWindowLoop_spec (first_slot h.limit) (List.range plan.pageCount) hinv h.space hpairs hdist
    with ⟨s', own', l', hrun, hr⟩ | ⟨hrun, hlt, _⟩
  swap
  · exact .inr ⟨hrun, hlt⟩
  have hne : windowPairs firstUserLayout.imageBase elfUserLoadBase (List.range plan.pageCount) ≠ [] := by
    have hpos := hv.pageCount_pos
    intro hnil
    have hlen := congrArg List.length hnil
    simp only [windowPairs, List.length_map, List.length_range, List.length_nil] at hlen
    omega
  -- the tables taken for the space are not pages of the window
  have hnot {q : Word} {ρ : Path} (hq : own' q = some (a, ρ)) {x : ℕ} (hx : OnPage q x)
      (hwx : 0x02100000 ≤ x ∧ x < 0x02100000 + plan.span.toNat) : False := by
    obtain ⟨p, hp, hpx⟩ := hv.onPage_window hwx.1 hwx.2
    obtain rfl := onPage_unique (hr.inv.own_page hq).aligned (hv.windowPages_page hp).aligned hx hpx
    obtain ⟨ho, -, hd⟩ := h.window_page hv hav hp
    obtain ⟨new, hl, -, hold⟩ := hr.taken
    rw [hold q (fun hn => hd (by rw [hl]; simp [hn])), ho] at hq
    cases hq
  refine .inl ⟨s', own', l', hrun, hr.inv, hg₁.trans ⟨hr.globals.1, hr.globals.2, hr.globals.3, hr.globals.4, hr.globals.5⟩, hav,
    hr.taken, hr.length_fresh hinv rfl hne h.fresh, hr.table hne, ?_, ?_, hr.here, ?_⟩
  · intro i hi
    rw [hr.mem (0x02100000 + i) fun q ⟨ρ, hq⟩ hx => hnot hq hx ⟨by omega, by omega⟩]
    exact hin i hi
  · intro x hx hxl hxt
    rw [hr.mem x fun q ⟨ρ, hq⟩ => hxt q ρ hq]
    exact (hout x hx).trans (hc₁ x hxl)
  · intro b hb ρ j hρ hj
    exact (hr.other b hb ρ j hρ hj).trans (hleaf b hb ρ j hρ)

/-- The image record of a successful load. -/
def ElfPlan.loadedImage (plan : ElfPlan) (rb re stackPage : Word) : LoadedUserImage where
  loadBegin := firstUserLayout.imageBase
  loadEnd := firstUserLayout.imageBase + plan.span
  loadPhysicalBegin := elfUserLoadBase
  loadPhysicalEnd := plan.physicalEnd
  reusablePhysicalBegin := rb
  reusablePhysicalEnd := re
  entry := firstUserLayout.imageBase + (plan.entry - plan.vaddrBegin)
  stackPage := stackPage
  stackTop := firstUserLayout.stackTop

/-- The virtual page below the stack top. -/
def stackVirtual : Word := firstUserLayout.stackTop - 4096#64

/-- The ways `elf_load_user_image` can end. -/
inductive LoadOutcome (K : KernelTables) (a rb re : Word) (image : Mem) (imageSize : Word) (s : Phys)
    (own : Owner) (l : List Word) : Run (Option LoadedUserImage × Phys) → Prop
  | rejected (hcheck : elfCheck image imageSize firstUserLayout a = none) :
      LoadOutcome K a rb re image imageSize s own l (.ok (none, s))
  | unavailable {plan : ElfPlan} {s' : Phys} {l' : List Word}
      (hcheck : elfCheck image imageSize firstUserLayout a = some plan)
      (hno : ∃ p ∈ plan.claimed rb re, p ∉ l) (inv : PagingInv K own s' l') (perm : l'.Perm l)
      (links : ChangesLinks {p | p ∈ l} s.mem s'.mem) (globals : SameGlobals s s') :
      LoadOutcome K a rb re image imageSize s own l (.ok (none, s'))
  | noTables {plan : ElfPlan} (hcheck : elfCheck image imageSize firstUserLayout a = some plan)
      (hav : ∀ p ∈ plan.claimed rb re, p ∈ l)
      (hlt : (l.diff (plan.claimed rb re)).length < 3) :
      LoadOutcome K a rb re image imageSize s own l (.error .halt)
  | noStack {plan : ElfPlan} {s₁ : Phys} {own₁ : Owner}
      (hcheck : elfCheck image imageSize firstUserLayout a = some plan)
      (window : WindowLoaded K a rb re image plan s own l s₁ own₁ []) :
      LoadOutcome K a rb re image imageSize s own l
        (.ok (none, freeAll s₁ (plan.claimed rb re)))
  | loaded {plan : ElfPlan} {s₁ s₂ s' : Phys} {own₁ : Owner} {stackPage : Word} {l' : List Word}
      (hcheck : elfCheck image imageSize firstUserLayout a = some plan)
      (window : WindowLoaded K a rb re image plan s own l s₁ own₁ (stackPage :: l'))
      (mem : s₂.mem = s₁.mem) (globals : SameGlobals s₁ s₂) (inv : PagingInv K own₁ s₂ l')
      (stack : Mapped K a stackVirtual stackPage s₂ own₁ l' s' own₁ l') :
      LoadOutcome K a rb re image imageSize s own l
        (.ok (some (plan.loadedImage rb re stackPage), s'))

/-- The whole of `elf_load_user_image` for the first user layout. -/
theorem elfLoadUserImage_spec (image : Mem) (imageSize : Word) (h : LoadContext K own s l a rb re) :
    LoadOutcome K a rb re image imageSize s own l
      (elfLoadUserImage s image imageSize firstUserLayout a rb re) := by
  unfold elfLoadUserImage
  cases hcheck : elfCheck image imageSize firstUserLayout a with
  | none => exact .rejected hcheck
  | some plan =>
  obtain ⟨hv, -, -⟩ := elfCheck_valid hcheck
  have hend := hv.physicalEnd
  have hcnt := hv.pageCount_le
  have hbase := ElfPlan.toNat_base
  have hpe : elfUserLoadBase + plan.span = plan.physicalEnd := rfl
  have hcount : ((plan.physicalEnd - elfUserLoadBase) / 4096#64).toNat % 2 ^ 16 = plan.pageCount := by
    rw [BitVec.toNat_udiv, BitVec.toNat_sub_of_le (by rw [BitVec.le_def]; omega), hend, hbase,
      show (4096#64 : Word).toNat = 4096 from rfl]
    omega
  simp only [hpe, hcount]
  have hwp : plan.claimed rb re = unowned rb re (pagesFrom elfUserLoadBase plan.pageCount) := rfl
  rcases claimWindowPages_spec elfUserLoadBase rb re h.inv.free
      (e := plan.physicalEnd) (n := plan.pageCount) (by rw [hend, hbase]) (by decide)
    with ⟨hav, s₁, hrun, hl₁, hc₁, hg₁⟩ | ⟨hno, s₁, l₁, hrun, hl₁, hperm, hc₁, hg₁⟩
  swap
  · simp only [hrun, ok_bind]
    refine .unavailable hcheck (hwp ▸ hno) ?_ hperm hc₁ hg₁
    refine h.inv.reframe hl₁ ?_ hg₁.kernelPml4 hc₁.pages (fun p hp => (h.inv.free.pages p hp).aligned)
      fun p hp => ⟨h.inv.free_own p hp, h.inv.free_kernel p hp⟩
    intro p hp
    have hpl := hperm.mem_iff.mp hp
    exact ⟨h.inv.free_own p hpl, h.inv.free_kernel p hpl⟩
  rw [← hwp] at hav hl₁
  simp only [hrun, ok_bind]
  obtain ⟨m, hm, hmap⟩ := window_loaded image h hv hav hl₁ hc₁ hg₁
  simp only [hm]
  rcases hmap with ⟨s₂, own₂, l₂, hrun₂, hw⟩ | ⟨hrun₂, hlt⟩
  swap
  · simp only [hrun₂, error_bind]
    exact .noTables hcheck hav hlt
  simp only [hrun₂, ok_bind]
  have hrelease : ∀ s, elfReleaseUserImage s
      { loadBegin := 0#64, loadEnd := 0#64, loadPhysicalBegin := elfUserLoadBase
        loadPhysicalEnd := plan.physicalEnd, reusablePhysicalBegin := rb, reusablePhysicalEnd := re
        entry := 0#64, stackPage := 0#64, stackTop := 0#64 } = freeAll s (plan.claimed rb re) := by
    intro s
    simp only [elfReleaseUserImage, ne_eq, not_true_eq_false, if_false]
    rw [rollbackWindowPages_eq, pageSpan_of_aligned (n := plan.pageCount) (by rw [hend, hbase]), hwp]
  cases l₂ with
  | nil =>
    rw [pallocAlloc_nil hw.inv.free]
    simp only [if_true, hrelease]
    exact .noStack hcheck hw
  | cons stackPage l₃ =>
    have hsp : IsPage stackPage := hw.inv.free.pages stackPage (by simp)
    obtain ⟨s₃, hs₃, hl₃, hm₃, hg₃⟩ := pallocAlloc_cons hw.inv.free
    have hinv₃ : PagingInv K own₂ s₃ l₃ := by
      refine hw.inv.reframe hl₃ ?_ hg₃.kernelPml4 (P := ∅) (hm₃ ▸ ChangesOnly.refl _ _) (by simp)
        (by simp)
      exact fun p hp => ⟨hw.inv.free_own p (by simp [hp]), hw.inv.free_kernel p (by simp [hp])⟩
    have hpath : userPath stackVirtual = firstPath := userPath_firstPath (by decide) (by decide)
    have ha₂ : IsSpace own₂ a := by
      refine hw.taken.keep (fun p hp => h.inv.free_own p (List.diff_subset _ _ hp)) h.space
    simp only [hs₃, hsp.ne_zero, if_false]
    rcases pagingMapUserPage_spec hinv₃ ha₂ (v := stackVirtual) (p := stackPage)
        (first_slot h.limit _ _ hpath.symm) with ⟨s₄, own₄, l₄, hrun₄, hmap₄⟩ | ⟨_, _, hno⟩
    swap
    · exact absurd (hpath ▸ hw.table) hno
    obtain ⟨rfl, rfl⟩ := hmap₄.taken.none_of_private hinv₃ hmap₄.inv (hpath ▸ hw.table)
    have hmatch := matches_of_leaf hmap₄.inv ha₂ hsp.lt hmap₄.here
    have hsv : firstUserLayout.stackTop - 4096#64 = stackVirtual := rfl
    simp only [hsv, hrun₄, ok_bind, hmatch, not_true_eq_false, if_false]
    exact .loaded hcheck hw hm₃ hg₃ hinv₃ hmap₄

end Load

end Platinum
