import Platinum.FdSeed
import Platinum.FileFrame
import Platinum.Globals
import Platinum.HeapRoom

/-!
# A heap with room that is apart

What the user task relies on: every object it can have finds room, so the heap
never asks for a page and keeps those it has, and the pages that are held are not
among them.
-/
namespace Platinum
open ByteMemory BlockList

/-- The blocks of the heap that are not the user task's, and the pages that it is made of. -/
structure ReservedHeap where
  blocks : List Word
  pages : List Word

/-- A heap with room for the user task, beside `reserved`, and apart from `held`. -/
def UserHeap (held : Set Word) (reserved : ReservedHeap) (h : Heap) (s : Phys) (ptrs : List Word) : Prop :=
  (∃ L, RoomyBlocks reserved.blocks ptrs h reserved.pages L) ∧ HeapBeside held reserved.blocks h s ptrs

section Heap

variable {H H₁ H₂ : Heap → Phys → List Word → Prop} {room : ℕ → Prop} {sure : Prop} {held held' : Set Word}
  {reserved : ReservedHeap} {ptrs l l' : List Word} {h : Heap} {s s' : Phys}

/-- Two views of one heap that go through the same calls. -/
lemma HeapSpec.and (h₁ : HeapSpec H₁ room sure) (h₂ : HeapSpec H₂ (fun _ => True) False) :
    HeapSpec (fun h s ptrs => H₁ h s ptrs ∧ H₂ h s ptrs) room sure where
  nodup h := h₁.nodup h.1
  ne_zero h := h₁.ne_zero h.1
  perm h hp := ⟨h₁.perm h.1 hp, h₂.perm h.2 hp⟩
  alloc h hroom hsize := by
    obtain ⟨ptr, h', s', hrun, hH, hgrown, hnone, hsure⟩ := h₁.alloc h.1 hroom hsize
    obtain ⟨ptr₂, h₂', s₂', hrun₂, hH₂, -⟩ := h₂.alloc h.2 trivial hsize
    obtain ⟨rfl, rfl, rfl⟩ : ptr₂ = ptr ∧ h₂' = h' ∧ s₂' = s' := by simpa using hrun₂.symm.trans hrun
    exact ⟨ptr₂, h₂', s₂', hrun, ⟨hH, hH₂⟩, hgrown, hnone, hsure⟩
  free h hptr := by
    obtain ⟨h', hrun, hH⟩ := h₁.free h.1 hptr
    obtain ⟨h₂', hrun₂, hH₂⟩ := h₂.free h.2 hptr
    obtain rfl := Except.ok.inj (hrun₂.symm.trans hrun)
    exact ⟨h₂', hrun, hH, hH₂⟩

lemma userHeap_spec (held : Set Word) (reserved : ReservedHeap) :
    HeapSpec (UserHeap held reserved) (· ≤ 20) True :=
  (roomyBlocks_spec reserved.blocks reserved.pages).and (heapBeside_spec held reserved.blocks)

lemma UserHeap.trade (hb : UserHeap held reserved h s ptrs) (hl : FreeList s l) (hl' : FreeList s' l')
    (hfree : ∀ p ∈ l', p ∈ l ∨ p ∈ held) (hheld : ∀ p ∈ held', p ∈ l ∨ p ∈ held) (hd : ∀ p ∈ l', p ∉ held') :
    UserHeap held' reserved h s' ptrs :=
  ⟨hb.1, hb.2.trade hl hl' hfree hheld hd⟩

/-- Memory may change where no free page is linked. -/
lemma UserHeap.shrink (hb : UserHeap held reserved h s ptrs) (hl : FreeList s l) (hl' : FreeList s' l')
    (hsub : ∀ p ∈ l', p ∈ l) : UserHeap held reserved h s' ptrs :=
  ⟨hb.1, hb.2.shrink hl hl' hsub⟩

/-- Nothing is asked of the files. -/
lemma UserHeap.handed {k : Store} (hb : UserHeap held reserved k.heap k.phys ptrs) : Handed ∅ k := by
  obtain ⟨-, pages, L, l, hs, -⟩ := hb
  refine ⟨ptrs ++ reserved.blocks, ⟨pages, L, l, ?_⟩, fun f hf => absurd hf (Set.notMem_empty f)⟩
  rw [List.append_nil]
  exact hs

end Heap

section Seed

variable {H : Heap → Phys → List Word → Prop} {k : Store} {table : FdTable} {files nodes : List Word}

/-- With every descriptor closed the heap has none of the task's objects. -/
theorem FdInv.closedAll (hspec : HeapSpec H (· ≤ 20) True) (hinv : FdInv H k (tableFiles table) files nodes)
    (htable : TableOk k table) (hbusy : AllBusy k files nodes) :
    ∃ store₁, fdTableCloseAll k table = .ok (fdTableInitialize, store₁) ∧ store₁.phys = k.phys ∧
      FdInv H store₁ [] [] [] ∧ store₁.namespaceRootEntries = k.namespaceRootEntries ∧
      store₁.namespaceReady = k.namespaceReady := by
  have halone : FdInv H k (tableFiles table ++ []) files nodes := by
    rw [List.append_nil]
    exact hinv
  obtain ⟨store₁, files₁, nodes₁, hclose, hstep₁, hphys₁, hbusy₁, -⟩ := halone.closeAll hspec htable
  have hinv₁ := hstep₁.inv
  rw [tableFiles_initial, List.append_nil] at hinv₁
  obtain rfl : files₁ = [] :=
    List.eq_nil_iff_forall_not_mem.mpr fun f hf => by simpa using (hinv₁.counts.mem_files f).mp hf
  obtain rfl : nodes₁ = [] := by
    refine List.eq_nil_iff_forall_not_mem.mpr fun n hn => ?_
    have := hbusy₁ hbusy n hn
    simp [filesOn] at this
  exact ⟨store₁, hclose, hphys₁, hinv₁, hstep₁.root, hstep₁.ready⟩

/-- A console then finds room. -/
theorem FdInv.reseedSure (hspec : HeapSpec H (· ≤ 20) True) (hinv : FdInv H k (tableFiles table) files nodes)
    (htable : TableOk k table) (hbusy : AllBusy k files nodes) :
    ∃ store₁ fdTable store₂ files' nodes',
      fdTableCloseAll k table = .ok (fdTableInitialize, store₁) ∧
      fdTableSeedConsole store₁ fdTableInitialize = .ok (true, fdTable, store₂) ∧
      store₁.phys = k.phys ∧ store₂.phys = k.phys ∧
      FdInv H store₂ (tableFiles fdTable) files' nodes' ∧ TableOk store₂ fdTable ∧ nodes'.length ≤ 2 ∧
      AllBusy store₂ files' nodes' ∧ store₂.namespaceRootEntries = k.namespaceRootEntries ∧
      store₂.namespaceReady = k.namespaceReady := by
  obtain ⟨store₁, hclose, hphys₁, hinv₁, hroot₁, hready₁⟩ := hinv.closedAll hspec htable hbusy
  obtain ⟨seeded, fdTable, store₂, files₂, nodes₂, hseed, hout⟩ :=
    hinv₁.seed hspec (by simp) fun m hm => by
      simp only [List.length_nil] at hm
      omega
  obtain ⟨rfl, hphys₂⟩ := hout.sure trivial
  obtain ⟨hlen, hbusy₂⟩ := hout.done rfl
  have hinv₂ := hout.step.inv
  rw [List.append_nil] at hinv₂
  refine ⟨store₁, fdTable, store₂, files₂, nodes₂, hclose, hseed, hphys₁, hphys₂.trans hphys₁, hinv₂,
    hout.step.table, ?_, hbusy₂ fun n hn => absurd hn List.not_mem_nil, hout.step.root.trans hroot₁,
    hout.step.ready.trans hready₁⟩
  rw [hlen]
  simp

end Seed

section Files

variable {H : Heap → Phys → List Word → Prop} {room : ℕ → Prop} {k k' : Store} {ptrs : List Word} {file : Word}

/-- A file for which there is room takes no page. -/
lemma vfsMakeFile_sure (hs : HeapSpec H room True) (h : H k.heap k.phys ptrs) (hroom : room ptrs.length)
    {node : NodeRef} {access : BitVec 32} (hrun : vfsMakeFile k node access = .ok (file, k')) :
    k'.phys = k.phys := by
  obtain ⟨f, heap, s, -, -, hsure, hmade⟩ := hs.makeFile h hroom
  obtain ⟨-, rfl⟩ := hsure trivial
  rcases hmade with ⟨-, hmake⟩ | ⟨-, -, hmake⟩
  · obtain ⟨-, rfl⟩ := Prod.mk.inj (Except.ok.inj ((hmake node access).symm.trans hrun))
    rfl
  · obtain ⟨-, rfl⟩ := Prod.mk.inj (Except.ok.inj ((hmake node access).symm.trans hrun))
    rfl

lemma vfsOpenPath_sure (hs : HeapSpec H room True) (h : H k.heap k.phys ptrs) (hroom : room ptrs.length)
    {path : List Byte} {flags : BitVec 32} (hrun : vfsOpenPath k path flags = .ok (file, k')) :
    k'.phys = k.phys := by
  unfold vfsOpenPath at hrun
  dsimp only at hrun
  split_ifs at hrun with hnull
  · obtain ⟨-, rfl⟩ := Prod.mk.inj (Except.ok.inj hrun)
    rfl
  unfold vfsFileOpen at hrun
  rw [if_neg hnull] at hrun
  cases hops : (k.node (vfsWalkPath k path)).ops with
  | none =>
    rw [hops] at hrun
    obtain ⟨-, rfl⟩ := Prod.mk.inj (Except.ok.inj hrun)
    rfl
  | some ops =>
    rw [hops] at hrun
    dsimp only at hrun
    split_ifs at hrun
    · obtain ⟨-, rfl⟩ := Prod.mk.inj (Except.ok.inj hrun)
      rfl
    · obtain ⟨-, rfl⟩ := Prod.mk.inj (Except.ok.inj hrun)
      rfl
    · obtain ⟨-, rfl⟩ := Prod.mk.inj (Except.ok.inj hrun)
      rfl
    · exact vfsMakeFile_sure hs h hroom hrun

/-- Opening a path takes no page. -/
lemma syscallOpenPath_sure {k k' : KernelState} (hs : HeapSpec H room True)
    (h : H k.store.heap k.phys ptrs) (hroom : room ptrs.length) {table : FdTable} {path : List Byte}
    {flags : BitVec 32} {r : Int} (hrun : syscallOpenPath k table path flags = .ok (r, k')) :
    k'.phys = k.phys := by
  have hopens := hrun
  unfold syscallOpenPath at hopens
  obtain ⟨⟨file, store⟩, hopen, hopens⟩ := bind_eq_ok.mp hopens
  have hphys := vfsOpenPath_sure hs h hroom hopen
  by_cases hfile : file = 0#64
  · dsimp only at hopens
    rw [if_pos hfile] at hopens
    obtain ⟨-, rfl⟩ := Prod.mk.inj (Except.ok.inj hopens)
    exact hphys
  rcases hins : fdTableInstall table (if (store.node (store.file file).node).kind = .console then
    FdKind.console else .placeholder) file with ⟨fd, table'⟩
  rw [syscallOpenPath_opened hopen hfile hins] at hrun
  by_cases hfd : fd < 0
  · rw [if_pos hfd] at hrun
    obtain ⟨⟨result, store'⟩, hclose, hrun⟩ := bind_eq_ok.mp hrun
    obtain ⟨-, rfl⟩ := Prod.mk.inj (Except.ok.inj hrun)
    exact (vfsFileClose_phys hclose).trans hphys
  · rw [if_neg hfd] at hrun
    obtain ⟨-, rfl⟩ := Prod.mk.inj (Except.ok.inj hrun)
    rw [KernelState.phys, setFdTable_store]
    exact hphys

/-- Nor does looking up an image. -/
lemma syscallExecImage_sure (hs : HeapSpec H room True) (h : H k.heap k.phys ptrs) (hroom : room ptrs.length)
    {path : List Byte} {found : Option (Mem × Word)} (hrun : syscallExecImage k path = .ok (found, k')) :
    k'.phys = k.phys := by
  unfold syscallExecImage at hrun
  obtain ⟨⟨file, store⟩, hopen, hrun⟩ := bind_eq_ok.mp hrun
  have hphys : store.phys = k.phys := by
    unfold vfsOpenExecPath at hopen
    dsimp only at hopen
    split_ifs at hopen
    · obtain ⟨-, rfl⟩ := Prod.mk.inj (Except.ok.inj hopen)
      rfl
    · exact vfsMakeFile_sure hs h hroom hopen
  dsimp only at hrun
  by_cases hfile : file = 0#64
  · rw [if_pos hfile] at hrun
    obtain ⟨-, rfl⟩ := Prod.mk.inj (Except.ok.inj hrun)
    exact hphys
  rw [if_neg hfile] at hrun
  cases himage : vfsFileExecutableImage store file with
  | none =>
    rw [himage] at hrun
    obtain ⟨⟨result, store'⟩, hclose, hrun⟩ := bind_eq_ok.mp hrun
    obtain ⟨-, rfl⟩ := Prod.mk.inj (Except.ok.inj hrun)
    exact (vfsFileClose_phys hclose).trans hphys
  | some image =>
    rw [himage] at hrun
    obtain ⟨⟨result, store'⟩, hclose, hrun⟩ := bind_eq_ok.mp hrun
    obtain ⟨-, rfl⟩ := Prod.mk.inj (Except.ok.inj hrun)
    exact (vfsFileClose_phys hclose).trans hphys

end Files

end Platinum
