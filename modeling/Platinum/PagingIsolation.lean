import Platinum.PagingBoot

/-!
# Isolation of address spaces over whole runs

A run creates user address spaces and maps pages into them in any order, while
the rest of the kernel uses the other pages as it likes.
-/
namespace Platinum
open ByteMemory WordArith SharedTrie

/-- `p` holds a table reachable from the root `r`. -/
def TableOf (m : Mem) (r p : Word) : Prop :=
  ∃ π : Path, π.length ≤ 3 ∧ descend userScheme (slot m) r π = some p

/-- A table of the kernel or of one of the user address spaces. -/
def TableInUse (s : Phys) (spaces : List Word) (p : Word) : Prop :=
  TableOf s.mem s.pagingKernelPml4 p ∨ ∃ a ∈ spaces, TableOf s.mem a p

/-- What everything else may do: leave the tables alone, and hand the allocator
distinct pages that are no tables. -/
structure OtherStep (s : Phys) (spaces : List Word) (s' : Phys) : Prop where
  root : s'.pagingKernelPml4 = s.pagingKernelPml4
  tables : ∀ p, TableInUse s spaces p → ∀ i, slot s'.mem p i = slot s.mem p i
  free : ∃ l, FreeList s' l ∧ ∀ p, TableInUse s spaces p → p ∉ l

/-- A run from the state `s₀` that `paging_initialize` left behind. -/
inductive PagingRun (s₀ : Phys) : Phys → List Word → Prop
  | boot : PagingRun s₀ s₀ []
  | create {s s' : Phys} {spaces : List Word} {a : Word} : PagingRun s₀ s spaces →
      pagingCreateUserAddressSpace s = (a, s') → a ≠ 0#64 → PagingRun s₀ s' (a :: spaces)
  | map {s s' : Phys} {spaces : List Word} {a v p : Word} : PagingRun s₀ s spaces → a ∈ spaces →
      v.toNat < 2 ^ 47 → Present (slot s.mem s.pagingKernelPml4 (pml4Index v)) →
      p.toNat < 2 ^ 52 → pagingMapUserPage s a v p = .ok s' → PagingRun s₀ s' spaces
  | other {s s' : Phys} {spaces : List Word} : PagingRun s₀ s spaces → OtherStep s spaces s' →
      PagingRun s₀ s' spaces

/-- What a run keeps: the spaces are exactly the roots of private tables. -/
structure RunInv (K : KernelTables) (own : Owner) (s : Phys) (l : List Word)
    (spaces : List Word) : Prop where
  inv : PagingInv K own s l
  space : ∀ a ∈ spaces, IsSpace own a
  owner : ∀ p a π, own p = some (a, π) → a ∈ spaces

section Run

variable {K : KernelTables} {own : Owner} {s s' s₀ : Phys} {l : List Word} {spaces : List Word}
  {a v p : Word}

lemma PagingInv.kernel_tableOf (h : PagingInv K own s l) :
    TableOf s.mem s.pagingKernelPml4 p ↔ K.IsTable p := by
  rw [h.root]
  constructor
  · rintro ⟨π, hd, hp⟩
    exact ⟨π, hd, (h.base.descend_eq K.node_root π hd).symm.trans hp⟩
  · rintro ⟨π, hd, hp⟩
    exact ⟨π, hd, (h.base.descend_eq K.node_root π hd).trans hp⟩

lemma RunInv.owned_inUse (h : RunInv K own s l spaces) {π : Path} (hp : own p = some (a, π)) :
    TableInUse s spaces p :=
  .inr ⟨a, h.owner p a π hp, π, h.inv.tables.depth hp, h.inv.tables.descend_private hp⟩

lemma RunInv.kernel_inUse (h : RunInv K own s l spaces) (hp : K.IsTable p) :
    TableInUse s spaces p := .inl (h.inv.kernel_tableOf.mpr hp)

/-- The tables in use are the private ones and the kernel's. -/
lemma RunInv.inUse_owned (h : RunInv K own s l spaces) (hp : TableInUse s spaces p) :
    (∃ x, own p = some x) ∨ K.IsTable p := by
  rcases hp with hp | ⟨a, ha, π, hd, hp⟩
  · exact .inr (h.inv.kernel_tableOf.mp hp)
  · rcases (user_levels h.inv (h.space a ha)).descend_at hd hp with ho | ⟨_, hn⟩
    · exact .inl ⟨_, ho⟩
    · exact .inr ⟨π, hd, hn⟩

/-- The slot of the kernel's PML4 is present exactly when the kernel has a table there. -/
lemma PagingInv.present_root (h : PagingInv K own s l) {i : Index}
    (hp : Present (slot s.mem s.pagingKernelPml4 i)) : K.base [] i ≠ 0#64 := by
  rw [h.root, h.kernel [] K.root i (by simp) K.node_root] at hp
  intro h0
  rw [h0] at hp
  exact not_present_zero hp

lemma PagingInv.root_present (h : PagingInv K own s l) {i : Index} (hi : K.base [] i ≠ 0#64) :
    Present (slot s.mem s.pagingKernelPml4 i) := by
  rw [h.root, h.kernel [] K.root i (by simp) K.node_root]
  rcases K.base_dir [] i (by simp) with h0 | ⟨q, hq, hb⟩
  · exact absurd h0 hi
  · exact hb ▸ present_tableEntry hq false

lemma RunInv.create (h : RunInv K own s l spaces)
    (hrun : pagingCreateUserAddressSpace s = (a, s')) (ha : a ≠ 0#64) :
    ∃ own' l', RunInv K own' s' l' (a :: spaces) := by
  cases l with
  | nil =>
    rw [pagingCreate_nil h.inv] at hrun
    exact absurd (Prod.mk.inj hrun).1.symm ha
  | cons q l =>
    obtain ⟨s₁, hs₁, hc⟩ := pagingCreate_cons h.inv
    obtain ⟨rfl, rfl⟩ := Prod.mk.inj (hs₁.symm.trans hrun)
    refine ⟨_, l, hc.inv, ?_, ?_⟩
    · intro b hb
      rcases List.mem_cons.mp hb with rfl | hb
      · exact Function.update_self _ _ _
      · have hbo := h.space b hb
        refine (Function.update_of_ne ?_ _ _).trans hbo
        rintro rfl
        rw [IsSpace, h.inv.free_own b (by simp)] at hbo
        cases hbo
    · intro r b π hr
      by_cases hrq : r = q
      · subst hrq
        rw [Function.update_self] at hr
        simp [(Prod.mk.inj (Option.some.inj hr)).1]
      · rw [Function.update_of_ne hrq] at hr
        exact List.mem_cons_of_mem _ (h.owner r b π hr)

lemma RunInv.map (h : RunInv K own s l spaces) (ha : a ∈ spaces)
    (hv : Present (slot s.mem s.pagingKernelPml4 (pml4Index v)))
    (hrun : pagingMapUserPage s a v p = .ok s') :
    ∃ own' l', RunInv K own' s' l' spaces ∧ Mapped K a v p s own l s' own' l' := by
  rcases pagingMapUserPage_spec h.inv (h.space a ha) (p := p) (h.inv.present_root hv)
    with ⟨s₁, own₁, l₁, hrun₁, hm⟩ | ⟨hrun₁, _⟩
  · obtain rfl := Except.ok.inj (hrun.symm.trans hrun₁)
    have hkeep {q : Word} {x : Word × Path} (hq : own q = some x) : own₁ q = some x :=
      hm.taken.keep h.inv.free_own hq
    refine ⟨own₁, l₁, ⟨hm.inv, fun b hb => hkeep (h.space b hb), ?_⟩, hm⟩
    intro q b π hq
    by_cases hba : b = a
    · exact hba ▸ ha
    · exact h.owner q b π (hm.taken.other hq hba)
  · rw [hrun₁] at hrun
    cases hrun

lemma RunInv.other (h : RunInv K own s l spaces) (hs : OtherStep s spaces s') :
    ∃ l', RunInv K own s' l' spaces := by
  obtain ⟨l', hl', hfree⟩ := hs.free
  refine ⟨l', ⟨hl', hs.root.trans h.inv.root, ?_, ?_, ?_, ?_⟩, h.space, h.owner⟩
  · intro π t i hd hn
    rw [← h.inv.kernel π t i hd hn]
    exact hs.tables t (h.kernel_inUse ⟨π, hd, hn⟩) i
  · exact h.inv.tables.congr fun q b π i hq => hs.tables q (h.owned_inUse hq) i
  · intro q hq
    cases ho : own q with
    | none => rfl
    | some x => exact absurd hq (hfree q (h.owned_inUse (a := x.1) (π := x.2) ho))
  · intro q hq hk
    exact hfree q (h.kernel_inUse hk) hq

/-- The invariant holds all along a run. -/
theorem PagingRun.inv {l₀ : List Word} (h₀ : PagingInv K (fun _ => none) s₀ l₀)
    (hrun : PagingRun s₀ s spaces) : ∃ own l, RunInv K own s l spaces := by
  induction hrun with
  | boot => exact ⟨_, l₀, h₀, by simp, by simp⟩
  | create _ hc ha ih =>
    obtain ⟨own, l, h⟩ := ih
    exact h.create hc ha
  | map _ ha _ hv _ hm ih =>
    obtain ⟨own, l, h⟩ := ih
    obtain ⟨own', l', h', _⟩ := h.map ha hv hm
    exact ⟨own', l', h'⟩
  | other _ hs ih =>
    obtain ⟨own, l, h⟩ := ih
    obtain ⟨l', h'⟩ := h.other hs
    exact ⟨own, l', h'⟩

/-- What one mapping does to the translations of the address spaces. -/
structure MapIsolated (s : Phys) (spaces : List Word) (a v p : Word) (s' : Phys) : Prop where
  others : ∀ b ∈ spaces, b ≠ a → ∀ w, mmuWalk s'.mem b w = mmuWalk s.mem b w
  leaf : ∃ pt, walkToPt s'.mem a v = pt ∧ pt ≠ 0#64 ∧ slot s'.mem pt (ptIndex v) = userEntry p
  here : mmuWalk s'.mem a v = some ⟨pageAddress p, true, true⟩
  rest : ∀ w : Word, w.toNat < 2 ^ 47 → pageAddress w ≠ pageAddress v →
    mmuWalk s'.mem a w = mmuWalk s.mem a w

lemma pageAddress_eq_of_path {v w : Word} (hv : v.toNat < 2 ^ 47) (hw : w.toNat < 2 ^ 47)
    (hp : userPath w = userPath v) (hi : ptIndex w = ptIndex v) : pageAddress w = pageAddress v := by
  apply BitVec.eq_of_toNat_eq
  rw [pageAddress, pageAddress, toNat_alignDown, toNat_alignDown,
    page_eq_of_path (by omega) (by omega) hp hi]

lemma Mapped.isolated {own' : Owner} {l' : List Word} (h : RunInv K own s l spaces)
    (ha : a ∈ spaces) (hv : v.toNat < 2 ^ 47) (hp : p.toNat < 2 ^ 52)
    (hm : Mapped K a v p s own l s' own' l') : MapIsolated s spaces a v p s' := by
  have hkeep {b : Word} (hb : b ∈ spaces) : IsSpace own' b :=
    hm.taken.keep h.inv.free_own (h.space b hb)
  obtain ⟨pt, hpt⟩ := hm.table
  have hleaf := hm.here
  rw [leafEntry, hm.inv.tables.leaf_private hpt] at hleaf
  refine ⟨?_, ?_, ?_, ?_⟩
  · intro b hb hba w
    rw [hm.inv.mmuWalk_eq (hkeep hb), h.inv.mmuWalk_eq (h.space b hb),
      hm.other b (h.space b hb) _ _ rfl fun he => absurd he hba]
  · rcases (user_levels hm.inv (hkeep ha)).walkToPt_eq v with ⟨hd, _⟩ | ⟨t, ht, _, hd, hw⟩
    · rw [hm.inv.tables.descend_private hpt] at hd
      cases hd
    · rw [hm.inv.tables.descend_private hpt] at hd
      obtain rfl := Option.some.inj hd
      exact ⟨pt, hw, ht.ne_zero, hleaf⟩
  · rw [hm.inv.mmuWalk_eq (hkeep ha), hm.here, leafTranslation_userEntry hp]
  · intro w hw hne
    rw [hm.inv.mmuWalk_eq (hkeep ha), h.inv.mmuWalk_eq (h.space a ha),
      hm.other a (h.space a ha) _ _ rfl fun _ hpath hi =>
        hne (pageAddress_eq_of_path hv hw hpath hi)]

end Run

/-- Over any run the kernel's tables stay as boot left them, and a mapping takes
effect in its own address space at its own page and nowhere else. It succeeds
whenever three pages are free. -/
theorem pagingRun_isolation {pre s₀ s : Phys} {l spaces : List Word} (hfree : FreeList pre l)
    (hboot : pagingInitialize pre = .ok s₀) (hrun : PagingRun s₀ s spaces) :
    (∀ t, TableOf s₀.mem s₀.pagingKernelPml4 t →
      TableOf s.mem s.pagingKernelPml4 t ∧ ∀ i, slot s.mem t i = slot s₀.mem t i) ∧
    (∀ t, TableOf s.mem s.pagingKernelPml4 t → TableOf s₀.mem s₀.pagingKernelPml4 t) ∧
    ∀ a ∈ spaces, ∀ v p : Word, v.toNat < 2 ^ 47 →
      Present (slot s.mem s.pagingKernelPml4 (pml4Index v)) → p.toNat < 2 ^ 52 →
      (∀ l, FreeList s l → 3 ≤ l.length → ∃ s', pagingMapUserPage s a v p = .ok s') ∧
      ∀ s', pagingMapUserPage s a v p = .ok s' → MapIsolated s spaces a v p s' := by
  rcases pagingInitialize_spec hfree with ⟨s₁, K, l₀, hs₁, hb⟩ | ⟨hs₁, _⟩
  swap
  · rw [hs₁] at hboot
    cases hboot
  obtain rfl := Except.ok.inj (hs₁.symm.trans hboot)
  obtain ⟨own, l', h⟩ := hrun.inv hb.inv
  refine ⟨?_, ?_, ?_⟩
  · intro t ht
    rw [hb.inv.kernel_tableOf] at ht
    refine ⟨h.inv.kernel_tableOf.mpr ht, fun i => ?_⟩
    obtain ⟨π, hd, hn⟩ := ht
    rw [h.inv.kernel π t i hd hn, hb.inv.kernel π t i hd hn]
  · intro t ht
    rw [h.inv.kernel_tableOf] at ht
    exact hb.inv.kernel_tableOf.mpr ht
  · intro a ha v p hv hpres hp
    constructor
    · intro l₂ hl₂ hlen
      rcases pagingMapUserPage_spec h.inv (h.space a ha) (p := p) (h.inv.present_root hpres)
        with ⟨s', _, _, hok, _⟩ | ⟨_, hlt, _⟩
      · exact ⟨s', hok⟩
      · rw [h.inv.free.unique hl₂] at hlt
        omega
    · intro s' hok
      obtain ⟨own', l'', _, hm⟩ := h.map ha hpres hok
      exact hm.isolated h ha hv hp

/-- A firmware map with one conventional region that starts at 32 MiB. -/
def sampleMemmap (pages : Word) : Memmap :=
  memmapParse (fun _ => ⟨efiConventionalMemory, 0x02000000#64, pages⟩) 48 48

/-- The machine before `palloc_initialize`. -/
def coldMachine (pages : Word) : Phys where
  mem _ := 0
  freeListHead := 0
  allocRegionBegin := 0
  allocRegionEnd := 0
  freePageCount := 0
  pagingKernelPml4 := 0
  cr3 := 0
  memmap := sampleMemmap pages

lemma sampleMemmap_valid {pages : Word} (hp : pages.toNat < 2 ^ 51) :
    MemmapValid (sampleMemmap pages) := by
  intro index d hd
  simp only [sampleMemmap, memmapParse, memmapGetDescriptor] at hd
  split_ifs at hd <;> first | contradiction | skip
  obtain rfl := Option.some.inj hd
  simp only
  refine ⟨by decide, ?_⟩
  rw [show (0x02000000#64 : Word).toNat = 0x02000000 from rfl]
  omega

/-- With enough pages the machine boots, and few of them become kernel tables. -/
theorem coldMachine_boots (pages : Word) {b e : Word} (hp : pages.toNat < 2 ^ 51)
    (hfind : memmapFindLargestConventionalRegion (sampleMemmap pages) pallocLowCutoff
      pallocHighLimit = (true, b, e)) (hsize : 2054 ≤ (e.toNat - b.toNat) / 4096)
    (hlimit : (highestPhysicalEnd (sampleMemmap pages)).toNat ≠ 0) :
    ∃ l s₀ K l₀, PallocInitial (pallocInitialize (coldMachine pages)) l ∧
      (pallocInitialize (coldMachine pages)).allocRegionBegin = b ∧
      (pallocInitialize (coldMachine pages)).allocRegionEnd = e ∧
      pagingInitialize (pallocInitialize (coldMachine pages)) = .ok s₀ ∧
      Booted (pallocInitialize (coldMachine pages)) l s₀ K l₀ ∧
      (e.toNat - b.toNat) / 4096 ≤ l₀.length + 2054 ∧
      ∀ p : Word, p.toNat % 4096 = 0 → b.toNat ≤ p.toNat → p.toNat + 4096 * 2056 ≤ e.toNat →
        p ∈ l₀.tail := by
  obtain ⟨l, hl, hk, hc, hm, hr⟩ := pallocInitialize_spec (coldMachine pages) (sampleMemmap_valid hp)
  rcases hr with ⟨hf, _⟩ | ⟨r, hf, hrb, hre, _⟩ <;> rw [show (coldMachine pages).memmap =
    sampleMemmap pages from rfl, hfind] at hf
  · cases hf
  obtain ⟨rfl, rfl⟩ := Prod.mk.inj (Prod.mk.inj hf).2
  have hlen := hl.length
  rw [← hrb, ← hre] at hlen
  rcases pagingInitialize_spec hl.list with ⟨s₀, K, l₀, hs₀, hb⟩ | ⟨_, h0 | hlt⟩
  · obtain ⟨tabs, rfl, htabs, _⟩ := hb.taken
    rw [List.length_append] at hlen
    refine ⟨_, s₀, K, l₀, hl, hrb.symm, hre.symm, hs₀, hb, by omega, fun p hp hpb hpe => ?_⟩
    rw [hrb] at hpb
    rw [hre] at hpe
    cases l₀ with
    | nil => exact absurd (hl.mem_rest _ rfl htabs hp (by omega) (by omega)) (by simp)
    | cons q l₀ =>
      exact hl.mem_rest (tabs ++ [q]) (k := 2055) (by simp)
        (by rw [List.length_append, List.length_singleton]; omega) hp
        (by omega) (by omega)
  · rw [hm] at h0
    exact absurd h0 hlimit
  · omega

/-- A 64 MiB machine after boot, with one user address space and pages to spare. -/
lemma coldMachine_creates : ∃ l s₀ K q l₁ s,
    FreeList (pallocInitialize (coldMachine 0x4000#64)) l ∧
    pagingInitialize (pallocInitialize (coldMachine 0x4000#64)) = .ok s₀ ∧ q ≠ 0#64 ∧
    pagingCreateUserAddressSpace s₀ = (q, s) ∧ Created K s₀ (fun _ => none) q l₁ s ∧
    3 ≤ l₁.length ∧ Present (slot s.mem s.pagingKernelPml4 (pml4Index 0x40000000#64)) := by
  obtain ⟨l, s₀, K, l₀, hl, -, -, hs₀, hb, hlen, -⟩ := coldMachine_boots 0x4000#64
    (b := 0x02000000#64) (e := 0x06000000#64) (by decide) (by decide) (by decide) (by decide)
  have hlen₀ : 4 ≤ l₀.length := by
    have hsize : ((0x06000000#64 : Word).toNat - (0x02000000#64 : Word).toNat) / 4096 = 0x4000 := by
      decide
    omega
  obtain ⟨q, l₁, rfl⟩ : ∃ q l₁, l₀ = q :: l₁ := by
    cases l₀ with
    | nil => simp at hlen₀
    | cons q l₁ => exact ⟨q, l₁, rfl⟩
  obtain ⟨s, hs, hc⟩ := pagingCreate_cons hb.inv
  exact ⟨l, s₀, K, q, l₁, s, hl.list, hs₀, (hb.inv.free.pages q (by simp)).ne_zero, hs, hc,
    by simpa using hlen₀, hc.inv.root_present (K.slot_present hb.limit_pos (by decide))⟩

/-- The isolation theorem at work: one space on a 64 MiB machine. -/
theorem pagingRun_isolation_sample : ∃ s₀ s a,
    pagingInitialize (pallocInitialize (coldMachine 0x4000#64)) = .ok s₀ ∧
    PagingRun s₀ s [a] ∧
    (∀ t, TableOf s₀.mem s₀.pagingKernelPml4 t → ∀ i, slot s.mem t i = slot s₀.mem t i) ∧
    ∃ s', pagingMapUserPage s a 0x40000000#64 0x02100000#64 = .ok s' ∧
      MapIsolated s [a] a 0x40000000#64 0x02100000#64 s' := by
  obtain ⟨l, s₀, K, q, l₁, s, hl, hs₀, hq, hs, hc, hlen, hpres⟩ := coldMachine_creates
  have hrun : PagingRun s₀ s [q] := .create .boot hs hq
  have h := pagingRun_isolation hl hs₀ hrun
  obtain ⟨hsucc, hiso⟩ := h.2.2 q (by simp) 0x40000000#64 0x02100000#64 (by decide) hpres (by decide)
  obtain ⟨s', hs'⟩ := hsucc l₁ hc.inv.free hlen
  exact ⟨s₀, s, q, hs₀, hrun, fun t ht i => (h.1 t ht).2 i, s', hs', hiso s' hs'⟩

end Platinum
