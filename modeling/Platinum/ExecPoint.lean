import Platinum.FdRun
import Platinum.HeapRoom
import Platinum.TaskStacks

/-!
# The point of no return of exec

Once a program is prepared, handing it over cannot fail: its bootstrap passes
the checks, and with the caller's descriptors closed the heap has room for the
new console.
-/
namespace Platinum
open ByteMemory BlockList WordArith

section Bootstrap

variable {s s' : Phys} {a v p entry imageSize : Word} {image : Mem} {layout : UserVirtualLayout}

lemma pagingMappingMatches_frame {m : Mem} {user : Bool}
    (h : pagingMappingMatches m a v p user = true) : p.toNat < 2 ^ 52 := by
  unfold pagingMappingMatches at h
  dsimp only at h
  split_ifs at h with h₁ h₂ h₃ h₄
  all_goals
    have hframe := congrArg BitVec.toNat (not_not.mp h₄)
    rw [BitVec.toNat_and, show (pageAddress p).toNat = p.toNat / 4096 * 4096 from toNat_alignDown p]
      at hframe
    have hle := Nat.and_le_right
      (n := (slot m (walkToPt m a (pageAddress v)) (ptIndex (pageAddress v))).toNat)
      (m := (0x000FFFFFFFFFF000#64 : Word).toNat)
    have hmask : (0x000FFFFFFFFFF000#64 : Word).toNat = 2 ^ 52 - 4096 := rfl
    omega

/-- A loaded image has a stack page and an entry in the image. -/
lemma elfLoadUserImage_some {rb re : Word} {loaded : LoadedUserImage}
    (h : elfLoadUserImage s image imageSize layout a rb re = .ok (some loaded, s')) :
    loaded.stackPage ≠ 0#64 ∧ loaded.stackPage.toNat < 2 ^ 52 ∧ loaded.stackTop = layout.stackTop ∧
      ∃ plan : ElfPlan, plan.Valid imageSize layout ∧
        loaded.entry = layout.imageBase + (plan.entry - plan.vaddrBegin) := by
  unfold elfLoadUserImage at h
  split at h
  · cases h
  rename_i plan hcheck
  obtain ⟨⟨claimed, s₁⟩, -, h⟩ := bind_eq_ok.mp h
  cases claimed
  · cases h
  dsimp only at h
  split at h
  · cases h
  obtain ⟨⟨mapped, s₂⟩, -, h⟩ := bind_eq_ok.mp h
  cases mapped
  · cases h
  dsimp only at h
  split_ifs at h with h0
  · cases h
  obtain ⟨s₄, -, h⟩ := bind_eq_ok.mp h
  split_ifs at h with hmatch
  · cases h
    exact ⟨h0, pagingMappingMatches_frame hmatch, rfl, plan, (elfCheck_valid hcheck).1, rfl⟩
  · cases h

/-- The bootstrap of a prepared program is complete. -/
theorem syscallPrepareExecBootstrap_complete {current : Option UserTaskBootstrap}
    {bootstrap : UserTaskBootstrap}
    (h : syscallPrepareExecBootstrap entry s image imageSize current = .ok (some bootstrap, s')) :
    bootstrapComplete bootstrap = true ∧ execFrame bootstrap ≠ 0#64 := by
  unfold syscallPrepareExecBootstrap at h
  dsimp only at h
  generalize pagingCreateUserAddressSpace s = x at h
  split_ifs at h with ha
  · cases h
  obtain ⟨⟨loaded, s₂⟩, hload, h⟩ := bind_eq_ok.mp h
  cases loaded with
  | none => cases h
  | some loaded =>
    obtain ⟨s₃, -, h⟩ := bind_eq_ok.mp h
    split_ifs at h with hmatch
    · cases h
      obtain ⟨hstack, hlt, htop, plan, hv, hentry⟩ := elfLoadUserImage_some hload
      have himage : firstUserLayout.imageBase.toNat = 0x40001000 := rfl
      have huser : loaded.entry.toNat = 0x40001000 + (plan.entry.toNat - plan.vaddrBegin.toNat) := by
        have := hv.entry_ge
        have := hv.entry_lt
        have := hv.span_le
        rw [hentry, BitVec.toNat_add, BitVec.toNat_sub_of_le hv.entry_ge, himage]
        omega
      have htramp : (firstUserLayout.trampolineBase + (entry &&& 4095#64)).toNat =
          0x40000000 + entry.toNat % 4096 := by
        rw [BitVec.toNat_add, BitVec.toNat_and, show (4095#64 : Word).toNat = 2 ^ 12 - 1 from rfl,
          Nat.and_two_pow_sub_one_eq_mod, show firstUserLayout.trampolineBase.toNat = 0x40000000 from rfl]
        omega
      refine ⟨?_, fun h0 => ?_⟩
      · simp only [bootstrapComplete, Bool.and_eq_true, decide_eq_true_eq]
        refine ⟨⟨⟨⟨fun h0 => ha (.inl h0), fun h0 => ?_⟩, fun h0 => ?_⟩, hstack⟩, ?_⟩
        · rw [h0] at htramp
          have hz : (0#64 : Word).toNat = 0 := rfl
          omega
        · rw [h0] at huser
          have hz : (0#64 : Word).toNat = 0 := rfl
          omega
        · rw [htop]
          decide
      · simp only [execFrame] at h0
        bv_omega
    · cases h

end Bootstrap

/-- Objects allocated one after the other, the last one first. -/
inductive Allocated (h₀ : Heap) (s₀ : Phys) : List Word → Heap → Phys → Prop
  | nil : Allocated h₀ s₀ [] h₀ s₀
  | cons {h h' : Heap} {s s' : Phys} {ptrs : List Word} {size ptr : Word} :
      Allocated h₀ s₀ ptrs h s → size ∈ objectSizes → kzalloc h s size = .ok (ptr, h', s') →
      ptr ≠ 0#64 → Allocated h₀ s₀ (ptr :: ptrs) h' s'

section Seed

variable {h₀ h : Heap} {s₀ s : Phys} {ptrs pages l : List Word} {L : List Block} {k k' : Store}
  {size ptr : Word}

/-- The first objects on a heap without objects are tightly packed. -/
lemma Allocated.spacious (halloc : Allocated h₀ s₀ ptrs h s) (hs : HeapState h₀ s₀ pages [] L l)
    (hlen : ptrs.length ≤ 7) : ∃ pages' L' l', Spacious h s pages' ptrs L' l' := by
  induction halloc with
  | nil => exact ⟨pages, L, l, hs.spacious⟩
  | cons _ hsize hrun hptr ih =>
    rw [List.length_cons] at hlen
    obtain ⟨pages', L', l', hsp⟩ := ih (by omega)
    exact hsp.alloc (by omega) hsize hrun hptr

/-- Seven tightly packed objects leave room for the user task. -/
lemma Spacious.roomy (hsp : Spacious h s pages ptrs L l) (hlen : ptrs.length = 7) :
    RoomyBlocks ptrs [] h pages L := by
  refine ⟨hsp.state.inv, fun hp => ?_, hsp.state.handed, fun b hb => ?_, fun b hb _ => ?_, hlen.le⟩
  · obtain ⟨ptr, hptr⟩ := List.exists_mem_of_ne_nil ptrs (by rintro rfl; simp at hlen)
    obtain ⟨b, hb, -⟩ := List.mem_map.mp (hsp.state.handed.mem_iff.mpr hptr)
    have hstop : b.stop 32 = b.addr + 32 + b.size := rfl
    obtain ⟨p, hmem, -⟩ :=
      (hsp.state.inv.tiles b.addr).mp ⟨b, (mem_live.mp hb).1, le_rfl, by omega⟩
    rw [hp] at hmem
    cases hmem
  · have := hsp.exact_sizes b hb
    omega
  · exact hsp.exact_sizes b hb

lemma Allocated.store (h : Allocated h₀ s₀ ptrs k.heap k.phys) (hsize : size ∈ objectSizes)
    (hrun : k.kzalloc size = .ok (ptr, k')) (hptr : ptr ≠ 0#64) :
    Allocated h₀ s₀ (ptr :: ptrs) k'.heap k'.phys := by
  obtain ⟨⟨ptr₁, h₁, s₁⟩, halloc, hrun⟩ := bind_eq_ok.mp hrun
  cases hrun
  exact h.cons hsize halloc hptr

/-- A file that was opened was allocated. -/
lemma Allocated.fileOpen {node : NodeRef} {access : BitVec 32} (h : Allocated h₀ s₀ ptrs k.heap k.phys)
    (hrun : vfsFileOpen k node access = .ok (ptr, k')) (hptr : ptr ≠ 0#64) :
    Allocated h₀ s₀ (ptr :: ptrs) k'.heap k'.phys := by
  by_cases hopen : node ≠ .null ∧ Openable k node access
  · rw [vfsFileOpen_openable hopen.1 hopen.2] at hrun
    obtain ⟨⟨ptr₁, k₁⟩, halloc, hrun⟩ := bind_eq_ok.mp hrun
    dsimp only at hrun
    split_ifs at hrun with h0
    · cases hrun
      exact absurd rfl hptr
    · cases hrun
      have h' := h.store (by simp [objectSizes]) halloc hptr
      exact h'
  · have hnone : vfsFileOpen k node access = .ok (0#64, k) := by
      by_cases hnull : node = .null
      · exact if_pos hnull
      · exact vfsFileOpen_refused fun ho => hopen ⟨hnull, ho⟩
    rw [hnone] at hrun
    cases hrun
    exact absurd rfl hptr

/-- Three console files consist of three objects. -/
lemma Allocated.seedFiles {table table' : FdTable} {inputNode outputNode : NodeRef}
    (h : Allocated h₀ s₀ ptrs k.heap k.phys)
    (hrun : fdSeedFiles k table inputNode outputNode = .ok (true, table', k')) :
    ∃ ptrs', ptrs'.length = ptrs.length + 3 ∧ Allocated h₀ s₀ ptrs' k'.heap k'.phys := by
  obtain ⟨⟨f₁, k₁⟩, h₁, hrun⟩ := bind_eq_ok.mp hrun
  obtain ⟨⟨f₂, k₂⟩, h₂, hrun⟩ := bind_eq_ok.mp hrun
  obtain ⟨⟨f₃, k₃⟩, h₃, hrun⟩ := bind_eq_ok.mp hrun
  dsimp only at hrun
  split_ifs at hrun with hnull
  · exact Bool.noConfusion (closeThree_phys hrun).2
  · exact Bool.noConfusion (closeThree_phys hrun).2
  · exact Bool.noConfusion (closeThree_phys hrun).2
  · exact Bool.noConfusion (closeThree_phys hrun).2
  · cases hrun
    push Not at hnull
    obtain ⟨hf₁, hf₂, hf₃⟩ := hnull
    exact ⟨f₃ :: f₂ :: f₁ :: ptrs, rfl,
      ((h.fileOpen h₁ hf₁).fileOpen h₂ hf₂).fileOpen h₃ hf₃⟩

/-- A seeded console consists of seven objects. -/
lemma fdTableSeedConsole_allocated {table table' : FdTable}
    (hrun : fdTableSeedConsole k table = .ok (true, table', k')) :
    ∃ ptrs, ptrs.length = 7 ∧ Allocated k.heap k.phys ptrs k'.heap k'.phys := by
  obtain ⟨⟨a, k₁⟩, h₁, hrun⟩ := bind_eq_ok.mp hrun
  obtain ⟨⟨b, k₂⟩, h₂, hrun⟩ := bind_eq_ok.mp hrun
  obtain ⟨⟨c, k₃⟩, h₃, hrun⟩ := bind_eq_ok.mp hrun
  obtain ⟨⟨d, k₄⟩, h₄, hrun⟩ := bind_eq_ok.mp hrun
  dsimp only at hrun
  by_cases hnull : a = 0#64 ∨ b = 0#64 ∨ c = 0#64 ∨ d = 0#64
  · rw [if_pos hnull] at hrun
    obtain ⟨k₅, -, hrun⟩ := bind_eq_ok.mp hrun
    obtain ⟨k₆, -, hrun⟩ := bind_eq_ok.mp hrun
    obtain ⟨k₇, -, hrun⟩ := bind_eq_ok.mp hrun
    obtain ⟨k₈, -, hrun⟩ := bind_eq_ok.mp hrun
    cases hrun
  rw [if_neg hnull] at hrun
  push Not at hnull
  obtain ⟨ha, hb, hc, hd⟩ := hnull
  have halloc := (((Allocated.nil.store (by simp [objectSizes]) h₁ ha).store (by simp [objectSizes])
    h₂ hb).store (by simp [objectSizes]) h₃ hc).store (by simp [objectSizes]) h₄ hd
  obtain ⟨k₅, h₅, hrun⟩ := bind_eq_ok.mp hrun
  obtain ⟨k₆, h₆, hrun⟩ := bind_eq_ok.mp hrun
  have hkept : k₆.heap = k₄.heap ∧ k₆.phys = k₄.phys := by
    rw [vfsNodeInitialize_ok h₆, vfsNodeInitialize_ok h₅]
    exact ⟨rfl, rfl⟩
  rw [← hkept.1, ← hkept.2] at halloc
  exact halloc.seedFiles hrun

end Seed

/-- The calls that use descriptors or replace the program. -/
def descriptorCalls : List Word := [sysRead, sysWrite, sysOpen, sysExec, sysClose, sysDup]

/-- What such a call does. -/
inductive DescriptorCall (b : Build) (k : KernelState) (t : TaskId) (reusable : Word × Word) :
    KernelState → Prop
  | refused : DescriptorCall b k t reusable k
  | moved {store : Store} (hmoved : OffsetsMoved k.store store) :
      DescriptorCall b k t reusable (k.setStore store)
  | openPath {path : List Byte} {flags : BitVec 32} {r : Int} {k' : KernelState}
      (hcall : syscallOpenPath k (k.task t).fdTable path flags = .ok (r, k')) :
      DescriptorCall b k t reusable k'
  | close {fd r : Int} {table : FdTable} {store : Store}
      (hcall : fdTableClose k.store (k.task t).fdTable fd = .ok (r, table, store)) :
      DescriptorCall b k t reusable (k.withTable t table store)
  | dup {fd r : Int} {table : FdTable} {store : Store}
      (hcall : fdTableDup k.store (k.task t).fdTable fd = .ok (r, table, store)) :
      DescriptorCall b k t reusable (k.withTable t table store)
  | exec {path : List Byte} {next : Word} {k' : KernelState}
      (hcall : syscallExecPath b k path reusable = .ok (next, k')) : DescriptorCall b k t reusable k'

section Entry

variable {b : Build} {k k' : KernelState} {t : TaskId} {reusable : Word × Word} {rsp rsp' a : Word}
  {frame frame' : SyscallFrame} {layout : UserVirtualLayout} {table : FdTable} {store : Store}

lemma schedCurrentFdTable_current (ht : k.current = some t) :
    schedCurrentFdTable k = some (k.task t).fdTable := by
  rw [schedCurrentFdTable, ht]
  rfl

/-- What reading and writing a buffer have in common. -/
lemma syscallBuffer_call {access : FdTable → UserAccess (Int × Store)} {valid : UserAccess Bool}
    (ht : k.current = some t)
    (hmoved : ∀ table r store, (access table).result = .ok (r, store) → OffsetsMoved k.store store)
    (h : (do
      let valid ← valid
      match schedCurrentFdTable k with
      | none => pure (rsp, syscallReturn frame sysResultError, k)
      | some fdTable =>
        if ¬ valid then pure (rsp, syscallReturn frame sysResultError, k)
        else
          let (result, store) ← access fdTable
          pure (rsp, syscallReturn frame (syscallResult result), k.setStore store) :
        UserAccess SyscallOutcome).result = .ok (rsp', frame', k')) :
    DescriptorCall b k t reusable k' := by
  obtain ⟨valid, -, h⟩ := UserAccess.bind_ok h
  rw [schedCurrentFdTable_current ht] at h
  dsimp only at h
  by_cases hv : ¬ valid = true
  · rw [if_pos hv] at h
    cases h
    exact .refused
  · rw [if_neg hv] at h
    obtain ⟨⟨r, store⟩, haccess, h⟩ := UserAccess.bind_ok h
    cases h
    exact .moved (hmoved _ _ _ haccess)

lemma syscallOpen_call (ht : k.current = some t)
    (h : (syscallOpen k rsp frame a layout).result = .ok (rsp', frame', k')) :
    DescriptorCall b k t reusable k' := by
  unfold syscallOpen at h
  rw [schedCurrentFdTable_current ht] at h
  obtain ⟨path, -, h⟩ := UserAccess.bind_ok h
  cases path with
  | none =>
    cases h
    exact .refused
  | some path =>
    obtain ⟨⟨r, k₁⟩, hopen, h⟩ := UserAccess.bind_ok h
    cases h
    exact .openPath hopen

lemma syscallExec_call (h : (syscallExec b k rsp frame a layout reusable).result =
    .ok (rsp', frame', k')) : DescriptorCall b k t reusable k' := by
  obtain ⟨path, -, h⟩ := UserAccess.bind_ok h
  cases path with
  | none =>
    cases h
    exact .refused
  | some path =>
    obtain ⟨⟨next, k₁⟩, hexec, h⟩ := UserAccess.bind_ok h
    dsimp only at h
    split_ifs at h <;> cases h <;> exact .exec hexec

lemma syscallPlain_call (ht : k.current = some t) (hrax : frame.rax = sysClose ∨ frame.rax = sysDup)
    (h : syscallPlain k rsp frame reusable = .ok (rsp', frame', k')) :
    DescriptorCall b k t reusable k' := by
  unfold syscallPlain at h
  rcases hrax with hrax | hrax <;> rw [hrax, schedCurrentFdTable_current ht] at h
  · rw [if_neg (by decide), if_neg (by decide), if_neg (by decide), if_neg (by decide)] at h
    dsimp only at h
    rw [if_pos rfl] at h
    obtain ⟨⟨r, table, store⟩, hclose, h⟩ := bind_eq_ok.mp h
    cases h
    rw [setFdTable_current ht]
    exact .close hclose
  · rw [if_neg (by decide), if_neg (by decide), if_neg (by decide), if_neg (by decide)] at h
    dsimp only at h
    rw [if_neg (by decide), if_pos rfl] at h
    obtain ⟨⟨r, table, store⟩, hdup, h⟩ := bind_eq_ok.mp h
    cases h
    rw [setFdTable_current ht]
    exact .dup hdup

/-- Every such system call is one of these. -/
theorem kernelSyscallEntry_call (ht : k.current = some t) (hrax : frame.rax ∈ descriptorCalls)
    (h : (kernelSyscallEntry b k rsp frame reusable).result = .ok (rsp', frame', k')) :
    DescriptorCall b k t reusable k' := by
  unfold kernelSyscallEntry at h
  by_cases huser : frame.rax = sysRead ∨ frame.rax = sysWrite ∨ frame.rax = sysOpen ∨ frame.rax = sysExec
  · rw [if_pos huser] at h
    cases hctx : schedCurrentUserContext k with
    | none =>
      rw [hctx] at h
      cases h
      exact .refused
    | some ctx =>
      rw [hctx] at h
      dsimp only at h
      split_ifs at h
      · exact syscallBuffer_call ht (fun _ _ _ => fdTableRead_moved) h
      · exact syscallBuffer_call ht (fun _ _ _ => fdTableWrite_moved) h
      · exact syscallOpen_call ht h
      · exact syscallExec_call h
  · rw [if_neg huser] at h
    refine syscallPlain_call ht ?_ h
    simp only [descriptorCalls, List.mem_cons, List.not_mem_nil, or_false] at hrax
    tauto

end Entry

end Platinum
