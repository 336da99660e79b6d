import Platinum.Syscall

/-!
# What only the scheduler changes

Releasing a program, the heap and the calls on files write memory and the head of
the free list. The loaded CR3, the kernel's root table and the allocator's region stay.
-/
namespace Platinum
open ByteMemory

section Paging

variable {s s' : Phys} {a b page v p : Word} {m : Mem}

/-- Writing memory keeps the other variables. -/
lemma SameGlobals.mem (h : SameGlobals s s') (m : Mem) : SameGlobals s { s' with mem := m } :=
  ⟨h.regionBegin, h.regionEnd, h.kernelPml4, h.cr3, h.memmap⟩

lemma pallocAlloc_globals (s : Phys) : SameGlobals s (pallocAlloc s).2 := by
  unfold pallocAlloc
  split_ifs <;> exact ⟨rfl, rfl, rfl, rfl, rfl⟩

lemma SameGlobals.free_if {c : Prop} [Decidable c] (h : SameGlobals s s') (p : Word) :
    SameGlobals s (if c then pallocFree s' p else s') := by
  split_ifs
  · exact h.trans (pallocFree_globals s' p)
  · exact h

lemma pagingReleaseUserAddressSpace_globals (s : Phys) (a : Word) (layout : UserVirtualLayout) :
    SameGlobals s (pagingReleaseUserAddressSpace s a layout) := by
  unfold pagingReleaseUserAddressSpace
  dsimp only
  by_cases h₀ : a = 0#64 ∨ a = s.pagingKernelPml4
  · rw [if_pos h₀]
    exact SameGlobals.refl s
  rw [if_neg h₀]
  by_cases h₁ : ¬ Present (slot s.mem a (pml4Index layout.trampolineBase))
  · rw [if_pos h₁]
    exact pallocFree_globals s a
  rw [if_neg h₁]
  refine SameGlobals.trans (SameGlobals.free_if ?_ _) (pallocFree_globals _ a)
  by_cases h₂ : Present (slot s.mem (entryTable (slot s.mem a (pml4Index layout.trampolineBase)))
      (pdptIndex layout.trampolineBase))
  · rw [if_pos h₂]
    exact ((SameGlobals.refl s).free_if _).free_if _
  · rw [if_neg h₂]
    exact SameGlobals.refl s

end Paging

section Exec

variable {s s' : Phys} {a rb re : Word} {image : Mem} {imageSize : Word} {layout : UserVirtualLayout}

lemma rollbackWindowPages_globals (s : Phys) (rb re : Word) (ps : List Word) :
    SameGlobals s (rollbackWindowPages s rb re ps) := by
  rw [rollbackWindowPages_eq]
  exact freeAll_globals s _

lemma elfReleaseUserImage_globals (s : Phys) (image : LoadedUserImage) :
    SameGlobals s (elfReleaseUserImage s image) := by
  unfold elfReleaseUserImage
  exact ((SameGlobals.refl s).free_if _).trans (rollbackWindowPages_globals _ _ _ _)

lemma schedReleaseUserBootstrap_globals (s : Phys) (bootstrap : UserTaskBootstrap)
    (reusable : Word × Word) :
    SameGlobals s (schedReleaseUserBootstrap s bootstrap reusable).1 := by
  unfold schedReleaseUserBootstrap
  split_ifs
  · exact SameGlobals.refl s
  · exact (elfReleaseUserImage_globals _ _).trans (pagingReleaseUserAddressSpace_globals _ _ _)

end Exec

section Store

variable {k k' : Store}

lemma growHeap_globals {h h' : Heap} {s s' : Phys} {size block : Word}
    (hrun : growHeap h s size = .ok (block, h', s')) : SameGlobals s s' := by
  unfold growHeap at hrun
  dsimp only at hrun
  split_ifs at hrun with hc hp
  · cases hrun
    exact SameGlobals.refl s
  · cases hrun
    exact pallocAlloc_globals s
  · obtain ⟨⟨_, _⟩, -, hrun⟩ := bind_eq_ok.mp hrun
    cases hrun
    exact pallocAlloc_globals s

lemma kmalloc_globals {h h' : Heap} {s s' : Phys} {size ptr : Word}
    (hrun : kmalloc h s size = .ok (ptr, h', s')) : SameGlobals s s' := by
  unfold kmalloc at hrun
  split_ifs at hrun with h0
  · cases hrun
    exact SameGlobals.refl s
  obtain ⟨found, -, hrun⟩ := bind_eq_ok.mp hrun
  have hfinish {block : Word} {h₁ : Heap} {s₁ : Phys} (hg : SameGlobals s s₁)
      (hrun : (if block = 0#64 then .ok (0#64, h₁, s₁) else
        .ok (block + heapHeaderSize, (splitBlock h₁ block (heapAlignUp size)).setFree block 0, s₁) :
          Run (Word × Heap × Phys)) = .ok (ptr, h', s')) : SameGlobals s s' := by
    split_ifs at hrun <;> cases hrun <;> exact hg
  dsimp only at hrun
  split_ifs at hrun with hf
  · obtain ⟨⟨block, h₁, s₁⟩, hgrow, hrun⟩ := bind_eq_ok.mp hrun
    exact hfinish (growHeap_globals hgrow) hrun
  · exact hfinish (SameGlobals.refl s) hrun

lemma Store.kzalloc_globals {size ptr : Word} (hrun : k.kzalloc size = .ok (ptr, k')) :
    SameGlobals k.phys k'.phys := by
  obtain ⟨⟨ptr₁, h₁, s₁⟩, halloc, hrun⟩ := bind_eq_ok.mp hrun
  cases hrun
  obtain ⟨⟨ptr₂, h₂, s₂⟩, hmalloc, halloc⟩ := bind_eq_ok.mp halloc
  have hg := kmalloc_globals hmalloc
  dsimp only at halloc
  split_ifs at halloc <;> cases halloc <;> exact hg

lemma Store.kfree_phys {ptr : Word} (hrun : k.kfree ptr = .ok k') : k'.phys = k.phys := by
  obtain ⟨h, -, hrun⟩ := bind_eq_ok.mp hrun
  cases hrun
  rfl

lemma Store.kfreeNode_phys {node : NodeRef} (hrun : k.kfreeNode node = .ok k') : k'.phys = k.phys := by
  cases node with
  | null =>
    cases hrun
    rfl
  | static node => cases hrun
  | allocated address => exact Store.kfree_phys hrun

lemma VfsNodeOps.release_phys {ops : VfsNodeOps} {node : NodeRef} {r : Int}
    (hrun : ops.release k node = .ok (r, k')) : k'.phys = k.phys := by
  cases ops with
  | fdConsoleInput | fdConsoleOutput =>
    obtain ⟨k₁, hdata, hrun⟩ := bind_eq_ok.mp hrun
    obtain ⟨k₂, hnode, hrun⟩ := bind_eq_ok.mp hrun
    cases hrun
    rw [Store.kfreeNode_phys hnode, Store.kfree_phys hdata]
    rfl
  | consoleInput | consoleOutput | staticText | executable | directory =>
    cases hrun
    rfl

lemma vfsFileClose_phys {file : Word} {r : Int} (hrun : vfsFileClose k file = .ok (r, k')) :
    k'.phys = k.phys := by
  unfold vfsFileClose at hrun
  simp only [Store.setFile_same] at hrun
  split_ifs at hrun with h₁ h₂
  · cases hrun
    rfl
  · cases hrun
    rfl
  obtain ⟨k₁, hfree, hrun⟩ := bind_eq_ok.mp hrun
  have hk₁ : k₁.phys = k.phys := (Store.kfree_phys hfree).trans rfl
  simp only [Store.record_node, Store.setNode_same] at hrun
  split_ifs at hrun with h₃ h₄
  · cases hrun
    exact hk₁
  · cases hops : (k₁.node (k.file file).node).ops with
    | none =>
      simp only [hops] at hrun
      cases hrun
      exact hk₁
    | some ops =>
      simp only [hops] at hrun
      exact (VfsNodeOps.release_phys hrun).trans hk₁
  · cases hops : (k₁.node (k.file file).node).ops with
    | none | some ops =>
      simp only [hops] at hrun
      cases hrun
      exact hk₁

lemma fdTableClose_phys {table table' : FdTable} {fd r : Int}
    (hrun : fdTableClose k table fd = .ok (r, table', k')) : k'.phys = k.phys := by
  unfold fdTableClose at hrun
  split at hrun
  · cases hrun
    rfl
  · obtain ⟨⟨_, _⟩, hclose, hrun⟩ := bind_eq_ok.mp hrun
    cases hrun
    exact vfsFileClose_phys hclose

lemma fdTableCloseLoop_phys : ∀ {l : List (Fin fdTableCapacity)} {k : Store} {table table' : FdTable},
    fdTableCloseLoop l k table = .ok (table', k') → k'.phys = k.phys
  | [], _, _, _, h => by
    cases h
    rfl
  | index :: l, k, table, table', h => by
    unfold fdTableCloseLoop at h
    split_ifs at h
    · obtain ⟨⟨_, table₁, k₁⟩, hclose, h⟩ := bind_eq_ok.mp h
      rw [fdTableCloseLoop_phys h, fdTableClose_phys hclose]
    · exact fdTableCloseLoop_phys h

lemma fdTableCloseAll_phys {table table' : FdTable}
    (h : fdTableCloseAll k table = .ok (table', k')) : k'.phys = k.phys :=
  fdTableCloseLoop_phys h

lemma vfsMakeFile_globals {node : NodeRef} {access : BitVec 32} {file : Word}
    (h : vfsMakeFile k node access = .ok (file, k')) : SameGlobals k.phys k'.phys := by
  obtain ⟨⟨ptr, k₁⟩, halloc, h⟩ := bind_eq_ok.mp h
  have hg := Store.kzalloc_globals halloc
  dsimp only at h
  split_ifs at h <;> cases h <;> exact hg

lemma vfsFileOpen_globals {node : NodeRef} {access : BitVec 32} {file : Word}
    (h : vfsFileOpen k node access = .ok (file, k')) : SameGlobals k.phys k'.phys := by
  have hnone (h : (.ok (0#64, k) : Run (Word × Store)) = .ok (file, k')) :
      SameGlobals k.phys k'.phys := by
    cases h
    exact SameGlobals.refl _
  unfold vfsFileOpen at h
  by_cases h₀ : node = .null
  · rw [if_pos h₀] at h
    exact hnone h
  rw [if_neg h₀] at h
  cases hops : (k.node node).ops with
  | none =>
    rw [hops] at h
    exact hnone h
  | some ops =>
    rw [hops] at h
    dsimp only at h
    split_ifs at h
    · exact hnone h
    · exact hnone h
    · exact hnone h
    · exact vfsMakeFile_globals h

lemma vfsNodeInitialize_ok {node : NodeRef} {kind : VfsNodeKind} {ops : Option VfsNodeOps}
    {data : NodeData} (h : vfsNodeInitialize k node kind ops data = .ok k') :
    k' = k.setNode node ⟨kind, 0, ops, data⟩ := by
  unfold vfsNodeInitialize at h
  split_ifs at h
  cases h
  rfl

/-- Closing three files in turn, the undo of `fd_table_seed_console`. -/
lemma closeThree_phys {table table' : FdTable} {f₁ f₂ f₃ : Word} {r : Bool}
    (h : (do
      let (_, k) ← vfsFileClose k f₁
      let (_, k) ← vfsFileClose k f₂
      let (_, k) ← vfsFileClose k f₃
      (.ok (false, table, k) : Run (Bool × FdTable × Store))) = .ok (r, table', k')) :
    k'.phys = k.phys ∧ r = false := by
  obtain ⟨⟨_, k₁⟩, h₁, h⟩ := bind_eq_ok.mp h
  obtain ⟨⟨_, k₂⟩, h₂, h⟩ := bind_eq_ok.mp h
  obtain ⟨⟨_, k₃⟩, h₃, h⟩ := bind_eq_ok.mp h
  cases h
  exact ⟨by rw [vfsFileClose_phys h₃, vfsFileClose_phys h₂, vfsFileClose_phys h₁], rfl⟩

lemma fdSeedFiles_globals {table table' : FdTable} {inputNode outputNode : NodeRef} {r : Bool}
    (h : fdSeedFiles k table inputNode outputNode = .ok (r, table', k')) :
    SameGlobals k.phys k'.phys := by
  obtain ⟨⟨file₀, k₁⟩, h₁, h⟩ := bind_eq_ok.mp h
  obtain ⟨⟨file₁, k₂⟩, h₂, h⟩ := bind_eq_ok.mp h
  obtain ⟨⟨file₂, k₃⟩, h₃, h⟩ := bind_eq_ok.mp h
  have hg := ((vfsFileOpen_globals h₁).trans (vfsFileOpen_globals h₂)).trans (vfsFileOpen_globals h₃)
  refine hg.trans ?_
  dsimp only at h
  split_ifs at h
  all_goals first
    | rw [(closeThree_phys h).1]
      exact SameGlobals.refl _
    | cases h
      exact SameGlobals.refl _

lemma fdTableSeedConsole_globals {table table' : FdTable} {r : Bool}
    (h : fdTableSeedConsole k table = .ok (r, table', k')) : SameGlobals k.phys k'.phys := by
  obtain ⟨⟨inputData, k₁⟩, h₁, h⟩ := bind_eq_ok.mp h
  obtain ⟨⟨outputData, k₂⟩, h₂, h⟩ := bind_eq_ok.mp h
  obtain ⟨⟨inputNode, k₃⟩, h₃, h⟩ := bind_eq_ok.mp h
  obtain ⟨⟨outputNode, k₄⟩, h₄, h⟩ := bind_eq_ok.mp h
  have hg := (((Store.kzalloc_globals h₁).trans (Store.kzalloc_globals h₂)).trans
    (Store.kzalloc_globals h₃)).trans (Store.kzalloc_globals h₄)
  dsimp only at h
  split_ifs at h
  · obtain ⟨k₅, h₅, h⟩ := bind_eq_ok.mp h
    obtain ⟨k₆, h₆, h⟩ := bind_eq_ok.mp h
    obtain ⟨k₇, h₇, h⟩ := bind_eq_ok.mp h
    obtain ⟨k₈, h₈, h⟩ := bind_eq_ok.mp h
    cases h
    rw [Store.kfree_phys h₈, Store.kfree_phys h₇, Store.kfree_phys h₆, Store.kfree_phys h₅]
    exact hg
  · obtain ⟨k₅, h₅, h⟩ := bind_eq_ok.mp h
    obtain ⟨k₆, h₆, h⟩ := bind_eq_ok.mp h
    have hk₆ : k₆.phys = k₄.phys := by
      rw [vfsNodeInitialize_ok h₆, vfsNodeInitialize_ok h₅]
      rfl
    exact hg.trans (hk₆ ▸ fdSeedFiles_globals h)

end Store

end Platinum
