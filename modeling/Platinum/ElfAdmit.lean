import Platinum.ElfAccept
import Platinum.ExecRun
import Mathlib.Data.List.Dedup

/-!
# Enough pages

Loading takes the window, the page tables that the mapped addresses lack and a
stack page. With that many pages free it ends as the checks decide.
-/
namespace Platinum
open ByteMemory WordArith SharedTrie

/-- Of `n` pages, those that are no longer free hold tables of `a` at positions
in `P`. -/
def Spent (a : Word) (P : List Path) (n : ℕ) (own : Owner) (l : List Word) : Prop :=
  ∃ new : List Word, new.Nodup ∧ (∀ p ∈ new, ∃ ρ ∈ P, own p = some (a, ρ)) ∧ n ≤ new.length + l.length

section Spent

variable {K : KernelTables} {own own' : Owner} {s s' : Phys} {l l' : List Word} {a v : Word}
  {P : List Path} {n : ℕ}

lemma Spent.refl : Spent a P l.length own l := ⟨[], by simp, by simp, by simp⟩

lemma Spent.take (h : PagingInv K own s l) (hP : ∀ ρ ∈ tablePositions v, ρ ∈ P)
    (hs : Spent a P n own l) (ht : Taken a (userPath v) own l own' l') : Spent a P n own' l' := by
  obtain ⟨new, hnd, hnew, hn⟩ := hs
  obtain ⟨more, rfl, hmore, hold⟩ := id ht
  have hnd' := (List.nodup_append.mp h.free.nodup).1
  refine ⟨new ++ more, hnd.append hnd' ?_, ?_, ?_⟩
  · intro p hp hp'
    obtain ⟨ρ, -, ho⟩ := hnew p hp
    rw [h.free_own p (by simp [hp'])] at ho
    cases ho
  · intro p hp
    rcases List.mem_append.mp hp with hp | hp
    · obtain ⟨ρ, hρ, ho⟩ := hnew p hp
      exact ⟨ρ, hρ, ht.keep h.free_own ho⟩
    · obtain ⟨ρ, hne, hpre, ho⟩ := hmore p hp
      exact ⟨ρ, hP ρ (mem_tablePositions.mpr ⟨hne, hpre⟩), ho⟩
  · rw [List.length_append] at hn ⊢
    omega

lemma Spent.cons {p : Word} (hs : Spent a P (n + 1) own (p :: l)) : Spent a P n own l := by
  obtain ⟨new, hnd, hnew, hn⟩ := hs
  rw [List.length_cons] at hn
  exact ⟨new, hnd, hnew, by omega⟩

/-- As many pages as positions never run out. -/
lemma Spent.suffices (h : PagingInv K own s []) (hP : userPath v ∈ P) (hn : P.dedup.length ≤ n)
    (hs : Spent a P n own []) : Private own a (userPath v) := by
  obtain ⟨new, hnd, hnew, hle⟩ := hs
  by_contra hno
  have hlt := h.tables.length_lt (P := P.dedup) hnd (a := a) (fun p hp => by
    obtain ⟨ρ, hρ, ho⟩ := hnew p hp
    exact ⟨ρ, List.mem_dedup.mpr hρ, ho⟩) (List.mem_dedup.mpr hP) fun p hp => hno ⟨p, hp⟩
  rw [List.length_nil] at hle
  omega

/-- One mapping out of enough pages. -/
lemma Spent.map {p : Word} (h : PagingInv K own s l) (ha : IsSpace own a)
    (hv : K.base [] (pml4Index v) ≠ 0#64) (hP : ∀ ρ ∈ tablePositions v, ρ ∈ P)
    (hn : P.dedup.length ≤ n) (hs : Spent a P n own l) :
    ∃ s' own' l', pagingMapUserPage s a v p = .ok s' ∧ Mapped K a v p s own l s' own' l' ∧
      Spent a P n own' l' := by
  rcases pagingMapUserPage_run h ha (p := p) hv
    with ⟨s', own', l', hrun, hm⟩ | ⟨-, s', own', hE, hno⟩
  · exact ⟨s', own', l', hrun, hm, hs.take h hP hm.taken⟩
  · refine absurd ((hs.take h hP hE.taken).suffices hE.inv ?_ hn) hno
    exact hP _ (by simp [tablePositions])

/-- The mapping loop out of enough pages. -/
lemma mapWindowLoop_enough {imageBase loadBegin : Word} (hn : P.dedup.length ≤ n) :
    ∀ (L : List ℕ) {s : Phys} {own : Owner} {l : List Word}, PagingInv K own s l →
      IsSpace own a → Spent a P n own l →
      (∀ v p, (v, p) ∈ windowPairs imageBase loadBegin L →
        K.base [] (pml4Index v) ≠ 0#64 ∧ p.toNat < 2 ^ 52 ∧ ∀ ρ ∈ tablePositions v, ρ ∈ P) →
      ∃ s' own' l', mapWindowLoop a imageBase loadBegin s L = .ok (true, s') ∧
        PagingInv K own' s' l' ∧ IsSpace own' a ∧ Spent a P n own' l' := by
  intro L
  induction L with
  | nil =>
    intro s own l h ha hs _
    exact ⟨s, own, l, rfl, h, ha, hs⟩
  | cons i L ih =>
    intro s own l h ha hs hpairs
    obtain ⟨hv, hp, hP⟩ := hpairs (imageBase + BitVec.ofNat 64 i * 4096#64)
      (loadBegin + BitVec.ofNat 64 i * 4096#64) (by simp [windowPairs])
    obtain ⟨s₁, own₁, l₁, hrun, hm, hs₁⟩ :=
      hs.map h ha hv hP hn (p := loadBegin + BitVec.ofNat 64 i * 4096#64)
    have ha₁ : IsSpace own₁ a := hm.taken.keep h.free_own ha
    simp only [mapWindowLoop, hrun, ok_bind, matches_of_leaf hm.inv ha₁ hp hm.here, if_true]
    refine ih hm.inv ha₁ hs₁ fun v p hvp => hpairs v p ?_
    rw [windowPairs, List.map_cons]
    exact List.mem_cons_of_mem _ hvp

end Spent

/-- The addresses that loading an image of `span` bytes maps. -/
def mappedAddresses (layout : UserVirtualLayout) (span : ℕ) : List Word :=
  (List.range (span / 4096)).map (fun i => layout.imageBase + BitVec.ofNat 64 i * 4096#64) ++
    [layout.stackTop - 4096#64]

/-- The positions at which these addresses need a private table. -/
def neededTables (layout : UserVirtualLayout) (span : ℕ) : List Path :=
  ((mappedAddresses layout span).flatMap tablePositions).dedup

/-- The free pages besides the window suffice for the tables and a stack. -/
structure EnoughPages (layout : UserVirtualLayout) (rb re : Word) (span : ℕ) (l : List Word) :
    Prop where
  window : ∀ p ∈ unowned rb re (pagesFrom elfUserLoadBase (span / 4096)), p ∈ l
  others : (neededTables layout span).length + 1 ≤
    (l.diff (unowned rb re (pagesFrom elfUserLoadBase (span / 4096)))).length

section Load

variable {K : KernelTables} {own : Owner} {s : Phys} {l : List Word} {a rb re imageSize : Word}
  {image : Mem} {layout : UserVirtualLayout} {plan : ElfPlan}

lemma windowPairs_mapped {v p : Word} (hv : plan.Valid imageSize layout)
    (hvp : (v, p) ∈ windowPairs layout.imageBase elfUserLoadBase (List.range plan.pageCount)) :
    v ∈ mappedAddresses layout plan.span.toNat ∧ p.toNat < 2 ^ 52 ∧ layout.imageBase ≤ v ∧
      v < layout.stackTop := by
  obtain ⟨i, hi, he⟩ := List.mem_map.mp hvp
  obtain ⟨rfl, rfl⟩ := Prod.mk.inj he
  have hlt := List.mem_range.mp hi
  have hc := hv.pageCount_le
  have hspan := hv.span_eq
  have hroom := hv.room
  have hstack := hv.stack
  have htop := layout.stackTop.isLt
  have h4096 : (4096#64 : Word).toNat = 4096 := rfl
  have hoff : (BitVec.ofNat 64 i * 4096#64 : Word).toNat = 4096 * i := by
    rw [BitVec.toNat_mul, BitVec.toNat_ofNat, h4096]
    omega
  have hbase := ElfPlan.toNat_base
  refine ⟨?_, ?_, ?_, ?_⟩
  · exact List.mem_append_left _ (List.mem_map.mpr ⟨i, hi, rfl⟩)
  · rw [BitVec.toNat_add, hoff, hbase]
    omega
  · rw [BitVec.le_def, BitVec.toNat_add, hoff]
    omega
  · rw [BitVec.lt_def, BitVec.toNat_add, hoff]
    omega

/-- With enough pages an image that passes the checks is loaded. -/
theorem elfLoad_of_check (h : LoadContext K own s l a rb re)
    (hcheck : elfCheck image imageSize layout a = some plan)
    (hslots : ∀ v : Word, layout.imageBase ≤ v → v < layout.stackTop → K.base [] (pml4Index v) ≠ 0#64)
    (henough : EnoughPages layout rb re plan.span.toNat l) :
    ∃ loaded s', elfLoadUserImage s image imageSize layout a rb re = .ok (some loaded, s') := by
  have hv := (elfCheck_valid hcheck).1
  have hend := hv.physicalEnd
  have hcnt := hv.pageCount_le
  have hbase := ElfPlan.toNat_base
  have hpe : elfUserLoadBase + plan.span = plan.physicalEnd := rfl
  have hcount : ((plan.physicalEnd - elfUserLoadBase) / 4096#64).toNat % 2 ^ 16 = plan.pageCount := by
    rw [BitVec.toNat_udiv, BitVec.toNat_sub_of_le (by rw [BitVec.le_def]; omega), hend, hbase,
      show (4096#64 : Word).toNat = 4096 from rfl]
    omega
  have hav : ∀ p ∈ plan.claimed rb re, p ∈ l := henough.window
  have hlen : (neededTables layout plan.span.toNat).length + 1 ≤ (l.diff (plan.claimed rb re)).length :=
    henough.others
  have hmem : ∀ v ∈ mappedAddresses layout plan.span.toNat, ∀ ρ ∈ tablePositions v,
      ρ ∈ neededTables layout plan.span.toNat := fun v hv ρ hρ =>
    List.mem_dedup.mpr (List.mem_flatMap.mpr ⟨v, hv, hρ⟩)
  have hneeded : (neededTables layout plan.span.toNat).dedup.length ≤
      (neededTables layout plan.span.toNat).length := (List.dedup_sublist _).length_le
  unfold elfLoadUserImage
  simp only [hcheck, hpe, hcount]
  rcases claimWindowPages_spec elfUserLoadBase rb re h.inv.free
      (e := plan.physicalEnd) (n := plan.pageCount) (by rw [hend, hbase]) (by decide)
    with ⟨-, s₁, hrun, hl₁, hc₁, hg₁⟩ | ⟨⟨p, hp, hno⟩, -⟩
  swap
  · exact absurd (hav p hp) hno
  obtain ⟨m, hm, hinv, -⟩ := window_filled image h hv hav hl₁ hc₁ hg₁
  obtain ⟨n, hn⟩ := Nat.exists_eq_add_of_le' hlen
  have hspent : Spent a (neededTables layout plan.span.toNat)
      (n + (neededTables layout plan.span.toNat).length + 1) own (l.diff (plan.claimed rb re)) := by
    rw [Nat.add_assoc, ← hn]
    exact Spent.refl
  obtain ⟨s₂, own₂, l₂, hrun₂, hinv₂, ha₂, hspent₂⟩ := mapWindowLoop_enough (by omega)
    (List.range plan.pageCount) hinv h.space hspent fun v p hvp => by
      obtain ⟨hva, hp, hle, hlt⟩ := windowPairs_mapped hv hvp
      exact ⟨hslots v hle hlt, hp, hmem v hva⟩
  simp only [hrun, ok_bind]
  simp only [hm]
  simp only [hrun₂, ok_bind]
  cases l₂ with
  | nil =>
    -- all positions and one page more cannot be spent
    obtain ⟨new, hnd, hnew, hle⟩ := hspent₂
    have hlen₂ := hinv₂.tables.length_le hnd hnew
    rw [List.length_nil] at hle
    omega
  | cons stackPage l₃ =>
    have hsp : IsPage stackPage := hinv₂.free.pages stackPage (by simp)
    obtain ⟨s₃, hs₃, hl₃, hm₃, hg₃⟩ := pallocAlloc_cons hinv₂.free
    have hinv₃ : PagingInv K own₂ s₃ l₃ := by
      refine hinv₂.reframe hl₃ ?_ hg₃.kernelPml4 (P := ∅) (hm₃ ▸ ChangesOnly.refl _ _) (by simp)
        (by simp)
      exact fun p hp => ⟨hinv₂.free_own p (by simp [hp]), hinv₂.free_kernel p (by simp [hp])⟩
    have hstack := hv.stack
    have hroom := hv.room
    have hspan := hv.span_pos
    have htop : (layout.stackTop - 4096#64).toNat = layout.stackTop.toNat - 4096 := by bv_omega
    have hslot : K.base [] (pml4Index (layout.stackTop - 4096#64)) ≠ 0#64 :=
      hslots _ (by bv_omega) (by bv_omega)
    obtain ⟨s₄, own₄, l₄, hrun₄, hm₄, -⟩ := hspent₂.cons.map hinv₃ ha₂ (p := stackPage) hslot
      (hmem _ (by simp [mappedAddresses])) (by omega)
    have hmatch := matches_of_leaf hm₄.inv (hm₄.taken.keep hinv₃.free_own ha₂) hsp.lt hm₄.here
    simp only [hs₃, hsp.ne_zero, if_false, hrun₄, ok_bind, hmatch, not_true_eq_false]
    exact ⟨_, _, rfl⟩

end Load

/-- The loader accepts an image exactly when it is an executable that fits. -/
theorem elfLoad_accepts_iff (image : Mem) (imageSize : Word) (layout : UserVirtualLayout) (rb re : Word)
    {pre s₀ s s₁ : Phys} {l₀ l spaces : List Word} {a : Word} (hfree : FreeList pre l₀)
    (hboot : pagingInitialize pre = .ok s₀) (hrun : PagingRun s₀ s spaces)
    (hcreate : pagingCreateUserAddressSpace s = (a, s₁)) (ha : a ≠ 0#64)
    (hslots : ∀ v : Word, layout.imageBase ≤ v → v < layout.stackTop →
      Present (slot s.mem s.pagingKernelPml4 (pml4Index v)))
    (hlend : ∀ p, IsPage p → pageInRange p rb re = true →
      (∀ l, FreeList s l → p ∉ l) ∧ ¬ TableInUse s spaces p)
    (hl : FreeList s₁ l)
    (henough : ∀ span, ElfAcceptable image imageSize.toNat layout span →
      EnoughPages layout rb re span l) :
    ∃ loaded s', elfLoadUserImage s₁ image imageSize layout a rb re = .ok (loaded, s') ∧
      (loaded.isSome ↔ ∃ span, ElfAcceptable image imageSize.toNat layout span) := by
  rcases pagingInitialize_spec hfree with ⟨s₂, K, l₁, hs₂, hb⟩ | ⟨hs₂, -⟩
  swap
  · rw [hs₂] at hboot
    cases hboot
  obtain rfl := Except.ok.inj (hs₂.symm.trans hboot)
  obtain ⟨own, l₂, h⟩ := hrun.inv hb.inv
  cases l₂ with
  | nil =>
    rw [pagingCreate_nil h.inv] at hcreate
    exact absurd (Prod.mk.inj hcreate).1.symm ha
  | cons q l₂ =>
    obtain ⟨s₃, hs₃, hc⟩ := pagingCreate_cons h.inv
    obtain ⟨rfl, rfl⟩ := Prod.mk.inj (hs₃.symm.trans hcreate)
    obtain rfl := hc.inv.free.unique hl
    have hctx : ExecContext K own s (q :: l₂) rb re := by
      refine ⟨h.inv, hb.limit_pos, fun p hp hr => ?_⟩
      obtain ⟨hpl, ht⟩ := hlend p hp hr
      refine ⟨hpl _ h.inv.free, ?_, fun hk => ht (h.kernel_inUse hk)⟩
      cases ho : own p with
      | none => rfl
      | some x => exact absurd (h.owned_inUse (a := x.1) (π := x.2) ho) ht
    cases hcheck : elfCheck image imageSize layout q with
    | none =>
      refine ⟨none, s₃, by rw [elfLoadUserImage, hcheck], ?_⟩
      simp only [Option.isSome_none, Bool.false_eq_true, false_iff]
      rintro ⟨span, hspan⟩
      obtain ⟨plan, hplan, -⟩ := (elfCheck_iff ha).mpr hspan
      rw [hcheck] at hplan
      cases hplan
    | some plan =>
      have hacc := (elfCheck_iff ha).mp ⟨plan, hcheck, rfl⟩
      obtain ⟨loaded, s', hok⟩ := elfLoad_of_check (hc.loadContext hctx) hcheck
        (fun v hv hv' => h.inv.present_root (hslots v hv hv')) (henough _ hacc)
      exact ⟨some loaded, s', hok, by simpa using ⟨_, hacc⟩⟩

/-- The one-page image on a fresh 64 MiB machine. -/
theorem elfLoad_accepts_iff_sample : ∃ s₀ s₁ a loaded s',
    pagingInitialize (pallocInitialize (coldMachine 0x4000#64)) = .ok s₀ ∧
    pagingCreateUserAddressSpace s₀ = (a, s₁) ∧
    elfLoadUserImage s₁ (sampleImage 1) 120#64 firstUserLayout a 0#64 0#64 = .ok (some loaded, s') := by
  obtain ⟨l, s₀, K, l₀, hl, -, -, hs₀, hb, hlen, hmem⟩ := coldMachine_boots 0x4000#64
    (b := 0x02000000#64) (e := 0x06000000#64) (by decide) (by decide) (by decide) (by decide)
  have hlow : (0x02000000#64 : Word).toNat = 0x02000000 := rfl
  have hhigh : (0x06000000#64 : Word).toNat = 0x06000000 := rfl
  obtain ⟨q, l₁, rfl⟩ : ∃ q l₁, l₀ = q :: l₁ := by
    cases l₀ with
    | nil =>
      rw [List.length_nil] at hlen
      omega
    | cons q l₁ => exact ⟨q, l₁, rfl⟩
  rw [List.length_cons] at hlen
  obtain ⟨s₁, hs₁, hc⟩ := pagingCreate_cons hb.inv
  have hq : q ≠ 0#64 := (hb.inv.free.pages q (by simp)).ne_zero
  have hcheck : elfCheck (sampleImage 1) 120#64 firstUserLayout q = some (samplePlan 1#64) := by
    rw [elfCheck_eq_execPlan hq, execPlan_one]
  have hslots : ∀ v : Word, firstUserLayout.imageBase ≤ v → v < firstUserLayout.stackTop →
      Present (slot s₀.mem s₀.pagingKernelPml4 (pml4Index v)) := by
    intro v hv hv'
    have hbase : firstUserLayout.imageBase.toNat = 0x40001000 := rfl
    have htop : firstUserLayout.stackTop.toNat = 0x40200000 := rfl
    have hpath := userPath_firstPath (v := v) (by rw [BitVec.le_def] at hv; omega)
      (by rw [BitVec.lt_def] at hv'; omega)
    exact hb.inv.root_present (first_slot hb.limit_pos _ _ hpath.symm)
  have henough : ∀ span, ElfAcceptable (sampleImage 1) (120#64 : Word).toNat firstUserLayout span →
      EnoughPages firstUserLayout 0#64 0#64 span l₁ := by
    intro span hspan
    obtain ⟨plan, hplan, rfl⟩ := (elfCheck_iff hq).mpr hspan
    obtain rfl := Option.some.inj (hplan.symm.trans hcheck)
    have hwindow : unowned 0#64 0#64 (pagesFrom elfUserLoadBase ((samplePlan 1#64).span.toNat / 4096)) =
        [0x02100000#64] := by decide
    have hneeded : (neededTables firstUserLayout (samplePlan 1#64).span.toNat).length = 3 := by decide
    constructor
    · rw [hwindow]
      intro p hp
      obtain rfl := List.mem_singleton.mp hp
      exact hmem _ (by decide) (by decide) (by decide)
    · rw [hwindow, hneeded, List.diff_cons, List.diff_nil]
      have herase := List.le_length_erase (l := l₁) (a := 0x02100000#64)
      omega
  obtain ⟨loaded, s', hok, hiff⟩ := elfLoad_accepts_iff (sampleImage 1) 120#64 firstUserLayout 0#64 0#64
    hl.list hs₀ .boot hs₁ hq hslots (by simp [pageInRange]) hc.inv.free henough
  obtain ⟨img, rfl⟩ := Option.isSome_iff_exists.mp
    (hiff.mpr ⟨_, (elfCheck_iff hq).mp ⟨_, hcheck, rfl⟩⟩)
  exact ⟨s₀, s₁, q, img, s', hs₀, hs₁, hok⟩

end Platinum
