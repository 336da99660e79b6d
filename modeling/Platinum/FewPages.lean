import Platinum.ExecRun

/-!
# A machine with few free pages

The kernel may hold on to any pages. Whatever pages it leaves free, and in
whatever order, exec works on an invariant that holds of the machine after boot.
-/
namespace Platinum
open ByteMemory

/-- A page allocator that owns the pages `ps` only, the first one at the head. -/
def keepPages (s : Phys) (ps : List Word) : Phys :=
  freeAll { s with freeListHead := 0#64, freePageCount := 0#64 } ps.reverse

section Keep

variable {K : KernelTables} {own : Owner} {s : Phys} {l ps spaces : List Word}

lemma keepPages_list (hp : ∀ p ∈ ps, IsPage p) (hnd : ps.Nodup) : FreeList (keepPages s ps) ps := by
  have hnil : FreeList { s with freeListHead := 0#64, freePageCount := 0#64 } [] :=
    ⟨rfl, List.nodup_nil, by simp⟩
  have h := freeAll_list hnil (fun p hp' => hp p (List.mem_reverse.mp hp'))
    (List.nodup_reverse.mpr hnd) (by simp)
  rwa [List.reverse_reverse, List.append_nil] at h

lemma keepPages_frame (s : Phys) (ps : List Word) :
    ChangesOnly {p | p ∈ ps} s.mem (keepPages s ps).mem :=
  (freeAll_frame _ ps.reverse).mono fun _ hp => List.mem_reverse.mp hp

lemma keepPages_globals (s : Phys) (ps : List Word) : SameGlobals s (keepPages s ps) := by
  have h : SameGlobals s { s with freeListHead := 0#64, freePageCount := 0#64 } :=
    ⟨rfl, rfl, rfl, rfl, rfl⟩
  exact h.trans (freeAll_globals _ ps.reverse)

/-- Giving up free pages is no concern of the tables. -/
lemma RunInv.keepPages (h : RunInv K own s l spaces) (hsub : ∀ p ∈ ps, p ∈ l) (hnd : ps.Nodup) :
    OtherStep s spaces (keepPages s ps) := by
  have hpage : ∀ p ∈ ps, IsPage p := fun p hp => h.inv.free.pages p (hsub p hp)
  have hnot : ∀ p, TableInUse s spaces p → IsPage p ∧ p ∉ ps := by
    intro p hp
    rcases h.inUse_owned hp with ⟨x, hx⟩ | hk
    · refine ⟨h.inv.own_page hx, fun hm => ?_⟩
      rw [h.inv.free_own p (hsub p hm)] at hx
      cases hx
    · exact ⟨K.isTable_page hk, fun hm => h.inv.free_kernel p (hsub p hm) hk⟩
  refine ⟨(keepPages_globals s ps).kernelPml4, fun p hp i => ?_, ps, keepPages_list hpage hnd,
    fun p hp => (hnot p hp).2⟩
  obtain ⟨hp, hno⟩ := hnot p hp
  exact (keepPages_frame s ps).slot (fun q hq => (hpage q hq).aligned) hp.aligned hno i

end Keep

/-- A page of the sample machine that boot leaves free. -/
def SparePage (p : Word) : Prop :=
  p.toNat % 4096 = 0 ∧ 0x02000000 ≤ p.toNat ∧ p.toNat ≤ 0x05000000

instance (p : Word) : Decidable (SparePage p) := by
  unfold SparePage
  infer_instance

/-- The sample machine boots, whatever spare pages are left free. -/
theorem coldMachine_keeps (entry : Word) {ps : List Word} (hps : ∀ p ∈ ps, SparePage p)
    (hnd : ps.Nodup) : ∃ l s₀ s K, FreeList (pallocInitialize (coldMachine 0x4000#64)) l ∧
      pagingInitialize (pallocInitialize (coldMachine 0x4000#64)) = .ok s₀ ∧ 0 < K.limit ∧
      ExecRun entry s₀ s [] ∧ ExecRunInv K (fun _ => none) s ps [] := by
  obtain ⟨l, s₀, K, l₀, hl, hb, he, hs₀, hboot, -, hmem⟩ := coldMachine_boots 0x4000#64
    (b := 0x02000000#64) (e := 0x06000000#64) (by decide) (by decide) (by decide) (by decide)
  have hsub : ∀ p ∈ ps, p ∈ l₀ := by
    intro p hp
    obtain ⟨hal, hlo, hhi⟩ := hps p hp
    refine List.mem_of_mem_tail (hmem p hal hlo ?_)
    rw [show (0x06000000#64 : Word).toNat = 0x06000000 from rfl]
    omega
  have hrun : RunInv K (fun _ => none) s₀ l₀ [] := ⟨hboot.inv, by simp, by simp⟩
  have hother := hrun.keepPages hsub hnd
  obtain ⟨l', hrun'⟩ := hrun.other hother
  have hfree : FreeList (keepPages s₀ ps) ps :=
    keepPages_list (fun p hp => hboot.inv.free.pages p (hsub p hp)) hnd
  obtain rfl := hrun'.inv.free.unique hfree
  have hg := keepPages_globals s₀ l'
  exact ⟨l, s₀, keepPages s₀ l', K, hl.list, hs₀, hboot.limit_pos,
    .other .boot hother hg.regionBegin hg.regionEnd, hrun', by simp⟩

end Platinum
