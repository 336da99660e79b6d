import Platinum.ExecPrepare
import Platinum.PagingIsolation

/-!
# Runs of exec preparations

After boot the kernel prepares programs, drops their address spaces again and
uses all other pages as it likes. In every state of such a run a failed
preparation gives back exactly the pages it took.
-/
namespace Platinum
open ByteMemory WordArith SharedTrie

/-- The running program owns its image pages: none is free or a table. -/
def LendsOwnPages (s : Phys) (spaces : List Word) (current : Option UserTaskBootstrap) : Prop :=
  ∀ p, IsPage p → pageInRange p (reusableRange current).1 (reusableRange current).2 = true →
    (∀ l, FreeList s l → p ∉ l) ∧ ¬ TableInUse s spaces p

lemma lendsOwnPages_none (s : Phys) : LendsOwnPages s [] none := by
  intro p _ hr
  simp [reusableRange, pageInRange] at hr

/-- A run from the state `s₀` that `paging_initialize` left behind. -/
inductive ExecRun (entry : Word) (s₀ : Phys) : Phys → List Word → Prop
  | boot : ExecRun entry s₀ s₀ []
  | prepared {s s' : Phys} {spaces : List Word} {image : Mem} {imageSize : Word}
      {current : Option UserTaskBootstrap} {bootstrap : UserTaskBootstrap} :
      ExecRun entry s₀ s spaces → LendsOwnPages s spaces current →
      syscallPrepareExecBootstrap entry s image imageSize current = .ok (some bootstrap, s') →
      ExecRun entry s₀ s' (bootstrap.addressSpace :: spaces)
  | failed {s s' : Phys} {spaces : List Word} {image : Mem} {imageSize : Word}
      {current : Option UserTaskBootstrap} :
      ExecRun entry s₀ s spaces → LendsOwnPages s spaces current →
      syscallPrepareExecBootstrap entry s image imageSize current = .ok (none, s') →
      ExecRun entry s₀ s' spaces
  | release {s : Phys} {spaces : List Word} {a : Word} : ExecRun entry s₀ s spaces → a ∈ spaces →
      ExecRun entry s₀ (pagingReleaseUserAddressSpace s a firstUserLayout) (spaces.filter (· ≠ a))
  | other {s s' : Phys} {spaces : List Word} : ExecRun entry s₀ s spaces → OtherStep s spaces s' →
      s'.allocRegionBegin = s.allocRegionBegin → s'.allocRegionEnd = s.allocRegionEnd →
      ExecRun entry s₀ s' spaces

/-- What a run keeps: every private table lies above the first user layout. -/
structure ExecRunInv (K : KernelTables) (own : Owner) (s : Phys) (l : List Word)
    (spaces : List Word) : Prop where
  run : RunInv K own s l spaces
  positions : ∀ p a π, own p = some (a, π) → π <+: firstPath

section Run

variable {K : KernelTables} {own : Owner} {s s' s₀ : Phys} {l : List Word} {spaces : List Word}
  {entry imageSize a p : Word} {image : Mem} {current : Option UserTaskBootstrap}

/-- The running program's pages as exec sees them. -/
lemma RunInv.execContext (h : RunInv K own s l spaces) (hlim : 0 < K.limit)
    (hlend : LendsOwnPages s spaces current) :
    ExecContext K own s l (reusableRange current).1 (reusableRange current).2 where
  inv := h.inv
  limit := hlim
  reusable p hp hr := by
    obtain ⟨hl, ht⟩ := hlend p hp hr
    refine ⟨hl l h.inv.free, ?_, fun hk => ht (h.kernel_inUse hk)⟩
    cases ho : own p with
    | none => rfl
    | some x => exact absurd (h.owned_inUse (a := x.1) (π := x.2) ho) ht

lemma ExecRunInv.prepared {rb re stackPage : Word} {plan : ElfPlan} {own' : Owner} {l' : List Word}
    (h : ExecRunInv K own s l spaces)
    (hp : Prepared K entry rb re image plan s own l a stackPage s' own' l') :
    ExecRunInv K own' s' l' (a :: spaces) := by
  refine ⟨⟨hp.inv, ?_, ?_⟩, ?_⟩
  · intro b hb
    rcases List.mem_cons.mp hb with rfl | hb
    · exact hp.space
    · exact hp.keep b _ (h.run.space b hb)
  · intro q b π hq
    by_cases hb : b = a
    · simp [hb]
    · exact List.mem_cons_of_mem a (h.run.owner q b π (hp.other_own q b π hq hb))
  · intro q b π hq
    by_cases hb : b = a
    · subst hb
      exact hp.positions q π hq
    · exact h.positions q b π (hp.other_own q b π hq hb)

lemma ExecRunInv.release (h : ExecRunInv K own s l spaces) (ha : a ∈ spaces) :
    ∃ l', ExecRunInv K (Overlay.dropSpace own a) (pagingReleaseUserAddressSpace s a firstUserLayout)
        l' (spaces.filter (· ≠ a)) ∧
      SameGlobals s (pagingReleaseUserAddressSpace s a firstUserLayout) := by
  obtain ⟨freed, hr⟩ := pagingRelease_spec h.run.inv (h.run.space a ha)
    fun p ρ hp => h.positions p a ρ hp
  refine ⟨freed ++ l, ⟨⟨hr.inv, ?_, ?_⟩, ?_⟩, hr.globals⟩
  · intro b hb
    obtain ⟨hb, hba⟩ : b ∈ spaces ∧ b ≠ a := by simpa using hb
    exact Overlay.dropSpace_eq_some.mpr ⟨h.run.space b hb, hba⟩
  · intro q b π hq
    obtain ⟨hq, hba⟩ := Overlay.dropSpace_eq_some.mp hq
    simp [h.run.owner q b π hq, hba]
  · exact fun q b π hq => h.positions q b π (Overlay.dropSpace_eq_some.mp hq).1

/-- A failed preparation leaves the owners alone and permutes the free list. -/
lemma ExecRunInv.failed (h : ExecRunInv K own s l spaces) (hlim : 0 < K.limit)
    (hentry : entry.toNat < 2 ^ 52) (hlend : LendsOwnPages s spaces current)
    (hrun : syscallPrepareExecBootstrap entry s image imageSize current = .ok (none, s')) :
    ∃ l', ExecRunInv K own s' l' spaces ∧ l'.Perm l ∧ SameGlobals s s' := by
  have hout := syscallPrepareExecBootstrap_spec image imageSize
    (h.run.execContext hlim hlend) hentry rfl
  rw [hrun] at hout
  cases hout with
  | early why inv perm mem globals =>
    exact ⟨_, ⟨⟨inv, h.run.space, h.run.owner⟩, h.positions⟩, perm, globals⟩
  | noStack hplan hav length inv perm window frame globals =>
    exact ⟨_, ⟨⟨inv, h.run.space, h.run.owner⟩, h.positions⟩, perm, globals⟩

/-- The invariant holds all along a run, and the allocator's region stays. -/
theorem ExecRun.inv {l₀ : List Word} (h₀ : PagingInv K (fun _ => none) s₀ l₀) (hlim : 0 < K.limit)
    (hentry : entry.toNat < 2 ^ 52) (hrun : ExecRun entry s₀ s spaces) :
    ∃ own l, ExecRunInv K own s l spaces ∧ s.allocRegionBegin = s₀.allocRegionBegin ∧
      s.allocRegionEnd = s₀.allocRegionEnd := by
  induction hrun with
  | boot => exact ⟨_, l₀, ⟨⟨h₀, by simp, by simp⟩, by simp⟩, rfl, rfl⟩
  | prepared _ hlend hp ih =>
    obtain ⟨own, l, h, hb, he⟩ := ih
    obtain ⟨plan, a, stackPage, own', l', -, rfl, hprep⟩ :=
      prepared_of_run (h.run.execContext hlim hlend) hentry rfl hp
    exact ⟨own', l', h.prepared hprep, hprep.globals.regionBegin.trans hb,
      hprep.globals.regionEnd.trans he⟩
  | failed _ hlend hp ih =>
    obtain ⟨own, l, h, hb, he⟩ := ih
    obtain ⟨l', h', -, hg⟩ := h.failed hlim hentry hlend hp
    exact ⟨own, l', h', hg.regionBegin.trans hb, hg.regionEnd.trans he⟩
  | release _ ha ih =>
    obtain ⟨own, l, h, hb, he⟩ := ih
    obtain ⟨l', h', hg⟩ := h.release ha
    exact ⟨_, l', h', hg.regionBegin.trans hb, hg.regionEnd.trans he⟩
  | other _ ho hb' he' ih =>
    obtain ⟨own, l, h, hb, he⟩ := ih
    obtain ⟨l', h'⟩ := h.run.other ho
    exact ⟨own, l', ⟨h', h.positions⟩, hb'.trans hb, he'.trans he⟩

/-- Any number of failing preparations by the same running program. -/
inductive FailedPreparations (entry : Word) (current : Option UserTaskBootstrap) (s : Phys) :
    Phys → Prop
  | nil : FailedPreparations entry current s s
  | step {s₁ s₂ : Phys} {image : Mem} {imageSize : Word} : FailedPreparations entry current s s₁ →
      syscallPrepareExecBootstrap entry s₁ image imageSize current = .ok (none, s₂) →
      FailedPreparations entry current s s₂

lemma ExecRunInv.lends (h : ExecRunInv K own s l spaces)
    (hlend : ∀ p, IsPage p →
      pageInRange p (reusableRange current).1 (reusableRange current).2 = true →
      p ∉ l ∧ own p = none ∧ ¬ K.IsTable p) : LendsOwnPages s spaces current := by
  intro p hp hr
  obtain ⟨hl, ho, hk⟩ := hlend p hp hr
  refine ⟨fun l' hl' => h.run.inv.free.unique hl' ▸ hl, fun ht => ?_⟩
  rcases h.run.inUse_owned ht with ⟨x, hx⟩ | ht
  · rw [ho] at hx
    cases hx
  · exact hk ht

lemma FailedPreparations.inv (h : ExecRunInv K own s l spaces) (hlim : 0 < K.limit)
    (hentry : entry.toNat < 2 ^ 52) (hlend : LendsOwnPages s spaces current)
    (hfail : FailedPreparations entry current s s') :
    ∃ l', ExecRunInv K own s' l' spaces ∧ l'.Perm l := by
  have hctx := h.run.execContext hlim hlend
  induction hfail with
  | nil => exact ⟨l, h, List.Perm.refl l⟩
  | step _ hrun ih =>
    obtain ⟨l₁, h₁, hperm⟩ := ih
    have hlend₁ := h₁.lends fun p hp hr => by
      obtain ⟨hl, ho, hk⟩ := hctx.reusable p hp hr
      exact ⟨fun hm => hl (hperm.mem_iff.mp hm), ho, hk⟩
    obtain ⟨l₂, h₂, hperm₂, -⟩ := h₁.failed hlim hentry hlend₁ hrun
    exact ⟨l₂, h₂, hperm₂.trans hperm⟩

end Run

/-- Failing preparations conserve pages: the free list holds the same pages as
before, each once, and none of the running program's own. -/
theorem failedPreparations_conserve {entry : Word} {pre s₀ s s' : Phys} {l₀ spaces : List Word}
    {current : Option UserTaskBootstrap} (hentry : entry.toNat < 2 ^ 52) (hfree : FreeList pre l₀)
    (hboot : pagingInitialize pre = .ok s₀) (hrun : ExecRun entry s₀ s spaces)
    (hlend : LendsOwnPages s spaces current) (hfail : FailedPreparations entry current s s') :
    ∃ l l', FreeList s l ∧ FreeList s' l' ∧ l'.Perm l ∧ l'.length = l.length ∧
      ∀ p, IsPage p → pageInRange p (reusableRange current).1 (reusableRange current).2 = true →
        p ∉ l' := by
  rcases pagingInitialize_spec hfree with ⟨s₁, K, l₁, hs₁, hb⟩ | ⟨hs₁, _⟩
  swap
  · rw [hs₁] at hboot
    cases hboot
  obtain rfl := Except.ok.inj (hs₁.symm.trans hboot)
  obtain ⟨own, l, h, -, -⟩ := hrun.inv hb.inv hb.limit_pos hentry
  obtain ⟨l', h', hperm⟩ := hfail.inv h hb.limit_pos hentry hlend
  refine ⟨l, l', h.run.inv.free, h'.run.inv.free, hperm, hperm.length_eq, fun p hp hr hm => ?_⟩
  exact (hlend p hp hr).1 l h.run.inv.free (hperm.mem_iff.mp hm)

/-- An executable of `pages` zero-filled pages, entered at its first byte. -/
def sampleImage (pages : Byte) : Mem := fun offset =>
  ([(0, 0x7F), (1, 0x45), (2, 0x4C), (3, 0x46), (4, 2), (5, 1), (6, 1), (16, 2), (18, 62), (20, 1),
    (25, 0x10), (32, 64), (52, 64), (54, 56), (56, 1), (64, 1), (81, 0x10),
    (105, pages <<< 4)] : List (ℕ × Byte)).lookup offset |>.getD 0

/-- What the loader reads off that executable. -/
def samplePlan (pages : Word) : ElfPlan where
  phdrs := [⟨1, 0#64, 0x1000#64, 0#64, pages * 4096#64, 0#64⟩]
  entry := 0x1000#64
  vaddrBegin := 0x1000#64
  span := pages * 4096#64

lemma execPlan_one : execPlan (sampleImage 1) 120#64 = some (samplePlan 1#64) := by decide

lemma execPlan_two : execPlan (sampleImage 2) 120#64 = some (samplePlan 2#64) := by decide

lemma mem_windowPages_of_range {plan : ElfPlan} {imageSize p : Word}
    (hv : plan.Valid imageSize firstUserLayout) (hp : IsPage p) :
    pageInRange p elfUserLoadBase plan.physicalEnd = true ↔ p ∈ plan.windowPages := by
  have hend := hv.physicalEnd
  have hal := hp.aligned
  have hne : elfUserLoadBase ≠ 0#64 := by decide
  simp only [pageInRange, ne_eq, hne, not_false_eq_true, decide_true, Bool.true_and, Bool.and_eq_true,
    decide_eq_true_eq, BitVec.le_def, BitVec.lt_def, ElfPlan.toNat_base, hend, hv.mem_windowPages]
  constructor
  · rintro ⟨h₁, h₂⟩
    exact ⟨(p.toNat - 0x02100000) / 4096, by omega, by omega⟩
  · rintro ⟨i, hi, hpi⟩
    omega

/-- A large enough machine boots and prepares any valid image. -/
theorem coldMachine_prepares (pages e entry : Word) (hp : pages.toNat < 2 ^ 51)
    (hfind : memmapFindLargestConventionalRegion (sampleMemmap pages) pallocLowCutoff
      pallocHighLimit = (true, 0x02000000#64, e)) (hsize : 0x03000000 ≤ e.toNat)
    (hlimit : (highestPhysicalEnd (sampleMemmap pages)).toNat ≠ 0) (hentry : entry.toNat < 2 ^ 52)
    {image : Mem} {imageSize : Word} {plan : ElfPlan} (hplan : execPlan image imageSize = some plan) :
    ∃ l s₀ K l₀ a stackPage s own l₁, PallocInitial (pallocInitialize (coldMachine pages)) l ∧
      (pallocInitialize (coldMachine pages)).allocRegionBegin = 0x02000000#64 ∧
      (pallocInitialize (coldMachine pages)).allocRegionEnd = e ∧
      pagingInitialize (pallocInitialize (coldMachine pages)) = .ok s₀ ∧
      Booted (pallocInitialize (coldMachine pages)) l s₀ K l₀ ∧
      syscallPrepareExecBootstrap entry s₀ image imageSize none =
        .ok (some (plan.bootstrap entry a stackPage), s) ∧
      Prepared K entry 0#64 0#64 image plan s₀ (fun _ => none) l₀ a stackPage s own l₁ := by
  have hbase : (0x02000000#64 : Word).toNat = 0x02000000 := rfl
  obtain ⟨l, s₀, K, l₀, hl, hrb, hre, hs₀, hb, hlen, hmem⟩ :=
    coldMachine_boots pages hp hfind (by omega) hlimit
  have hv := (elfCheck_valid hplan).1
  have hc := hv.pageCount_le
  have hctx : ExecContext K (fun _ => none) s₀ l₀ 0#64 0#64 :=
    ⟨hb.inv, hb.limit_pos, by simp [pageInRange]⟩
  have hav : ∀ p ∈ plan.claimed 0#64 0#64, p ∈ l₀.tail := by
    intro p hp
    obtain ⟨hp, -⟩ := mem_unowned.mp hp
    obtain ⟨i, hi, hpi⟩ := hv.mem_windowPages.mp hp
    exact hmem p (hv.windowPages_page hp).aligned (by omega) (by omega)
  have hcl : (plan.claimed 0#64 0#64).length ≤ plan.pageCount := by
    refine (List.length_filter_le _ _).trans ?_
    rw [ElfPlan.windowPages, length_pagesFrom]
  have hdiff : 4 ≤ (l₀.tail.diff (plan.claimed 0#64 0#64)).length := by
    have hperm := (append_diff_perm (hv.windowPages_nodup.filter _) hav).length_eq
    rw [List.length_append, List.length_tail] at hperm
    rw [ElfPlan.claimed, unowned] at hcl ⊢
    omega
  obtain ⟨a, stackPage, s, own, l₁, hrun, hprep⟩ :=
    prepare_succeeds none hctx hentry rfl hplan hav hdiff
  exact ⟨l, s₀, K, l₀, a, stackPage, s, own, l₁, hl, hrb, hre, hs₀, hb, hrun, hprep⟩

/-- The conservation theorem at work: a one-page program asks for a bad image. -/
theorem failedPreparations_conserve_sample : ∃ s₀ s s' bootstrap l l',
    pagingInitialize (pallocInitialize (coldMachine 0x4000#64)) = .ok s₀ ∧
    syscallPrepareExecBootstrap 0x00100000#64 s₀ (sampleImage 1) 120#64 none =
      .ok (some bootstrap, s) ∧
    syscallPrepareExecBootstrap 0x00100000#64 s (fun _ => 0) 4#64 (some bootstrap) =
      .ok (none, s') ∧
    FreeList s l ∧ FreeList s' l' ∧ l'.Perm l ∧ 0x02100000#64 ∉ l' := by
  obtain ⟨l, s₀, K, l₀, a, stackPage, s, own, l₁, hl, -, -, hs₀, hb, hrun, hprep⟩ :=
    coldMachine_prepares 0x4000#64 0x06000000#64 0x00100000#64
      (by decide) (by decide) (by decide) (by decide) (by decide) execPlan_one
  have hv := (elfCheck_valid execPlan_one).1
  have hctx : ExecContext K (fun _ => none) s₀ l₀ 0#64 0#64 :=
    ⟨hb.inv, hb.limit_pos, by simp [pageInRange]⟩
  have hinv : ExecRunInv K own s l₁ [a] :=
    ExecRunInv.prepared ⟨⟨hb.inv, by simp, by simp⟩, by simp⟩ hprep
  have hlend : LendsOwnPages s [a] (some ((samplePlan 1#64).bootstrap 0x00100000#64 a stackPage)) :=
    hinv.lends fun p hp hr => hprep.own_pages hctx hv ((mem_windowPages_of_range hv hp).mp hr)
  obtain ⟨s', hs'⟩ := prepare_rejected 0x00100000#64 (fun _ => 0) 4#64
    (some ((samplePlan 1#64).bootstrap 0x00100000#64 a stackPage))
    (hinv.run.execContext hb.limit_pos hlend) (by decide) rfl (by decide)
  obtain ⟨l', l'', hl', hl'', hperm, -, hown⟩ := failedPreparations_conserve (by decide) hl.list hs₀
    (.prepared .boot (lendsOwnPages_none s₀) hrun) hlend (.step .nil hs')
  have hfirst : pageInRange 0x02100000#64 elfUserLoadBase (samplePlan 1#64).physicalEnd = true := by
    decide
  exact ⟨s₀, s, s', _, l', l'', hs₀, hrun, hs', hl', hl'', hperm,
    hown _ (by constructor <;> decide) hfirst⟩

end Platinum
