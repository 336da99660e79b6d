import Platinum.PathWalk

/-!
# What calls leave alone

Open files that a call on descriptors does not read or write keep their
positions, and the nodes of the namespace keep what they hold.
-/
namespace Platinum
open ByteMemory

/-- The descriptor is one for the file `f`. -/
def NamesFile (table : FdTable) (fd : Int) (f : Word) : Prop :=
  ∃ entry, fdTableGet table fd = some entry ∧ entry.file = f

/-- The calls of `FdCall`, but for reads through descriptors of files in `F`. -/
inductive OtherCall (F : Set Word) (k : KernelState) : KernelState → Prop
  | openPath {t : TaskId} {path : List Byte} {flags : BitVec 32} {r : Int} {k' : KernelState}
      (hcur : k.current = some t)
      (hcall : syscallOpenPath k (k.task t).fdTable path flags = .ok (r, k')) : OtherCall F k k'
  | dup {t : TaskId} {fd r : Int} {table : FdTable} {store : Store}
      (hcall : fdTableDup k.store (k.task t).fdTable fd = .ok (r, table, store)) :
      OtherCall F k (k.withTable t table store)
  | close {t : TaskId} {fd r : Int} {table : FdTable} {store : Store}
      (hcall : fdTableClose k.store (k.task t).fdTable fd = .ok (r, table, store)) :
      OtherCall F k (k.withTable t table store)
  | closeAll {t : TaskId} {table : FdTable} {store : Store}
      (hcall : fdTableCloseAll k.store (k.task t).fdTable = .ok (table, store)) :
      OtherCall F k (k.withTable t table store)
  | read {t : TaskId} {fd r : Int} {buffer count : Word} {store : Store}
      (hother : ∀ f ∈ F, ¬ NamesFile (k.task t).fdTable fd f)
      (hcall : (fdTableRead k.store (k.task t).fdTable fd buffer count).result = .ok (r, store))
      (hapart : FreeApart store) : OtherCall F k (k.setStore store)
  | write {t : TaskId} {fd r : Int} {buffer count : Word} {store : Store}
      (hcall : (fdTableWrite k.store (k.task t).fdTable fd buffer count).result = .ok (r, store))
      (hapart : FreeApart store) : OtherCall F k (k.setStore store)
  | execImage {path : List Byte} {image : Option (Mem × Word)} {store : Store}
      (hcall : syscallExecImage k.store path = .ok (image, store)) : OtherCall F k (k.setStore store)
  | seed {t : TaskId} {seeded : Bool} {table : FdTable} {store : Store}
      (hfresh : (k.task t).fdTable = fdTableInitialize)
      (hcall : fdTableSeedConsole k.store (k.task t).fdTable = .ok (seeded, table, store)) :
      OtherCall F k (k.withTable t table store)
  | other {k' : KernelState} {s : Phys} (htables : ∀ t, (k'.task t).fdTable = (k.task t).fdTable)
      (hstore : k'.store = { k.store with phys := s }) (hapart : FreeApart k'.store) :
      OtherCall F k k'

/-- But for its counts a node holds what it held. -/
structure SameNode (v v' : VfsNode) : Prop where
  kind : v'.kind = v.kind
  ops : v'.ops = v.ops
  data : v'.data = v.data

/-- Apart from their counts the files in `F` are as before, or they were closed; and
so is the namespace. -/
structure FilesFramed (F : Set Word) (k k' : Store) : Prop where
  offset : ∀ f ∈ F, (k'.file f).offset = (k.file f).offset
  access : ∀ f ∈ F, (k'.file f).access = (k.file f).access
  node : ∀ f ∈ F, (k'.file f).node = (k.file f).node ∨ (k'.file f).node = .null
  static : ∀ n, SameNode (k.node (.static n)) (k'.node (.static n))
  root : k'.namespaceRootEntries = k.namespaceRootEntries
  ready : k'.namespaceReady = k.namespaceReady

/-- The files are among the blocks handed out. -/
def Handed (F : Set Word) (k : Store) : Prop :=
  ∃ ptrs, HeapWith [] k.heap k.phys ptrs ∧ ∀ f ∈ F, f ∈ ptrs

section Frame

variable {k k' : Store} {table table' : FdTable} {F : Set Word} {f g p size : Word} {r fd : Int}
  {node : NodeRef} {access : BitVec 32}

lemma FilesFramed.of_eq (hfile : ∀ f ∈ F, k'.file f = k.file f) (hnode : k'.node = k.node)
    (hroot : k'.namespaceRootEntries = k.namespaceRootEntries)
    (hready : k'.namespaceReady = k.namespaceReady) : FilesFramed F k k' := by
  refine ⟨fun f hf => by rw [hfile f hf], fun f hf => by rw [hfile f hf],
    fun f hf => .inl (by rw [hfile f hf]), fun n => ?_, hroot, hready⟩
  rw [hnode]
  exact ⟨rfl, rfl, rfl⟩

lemma FilesFramed.refl (F : Set Word) (k : Store) : FilesFramed F k k :=
  .of_eq (fun _ _ => rfl) rfl rfl rfl

lemma FilesFramed.trans {k'' : Store} (h : FilesFramed F k k') (h' : FilesFramed F k' k'') :
    FilesFramed F k k'' := by
  refine ⟨fun f hf => (h'.offset f hf).trans (h.offset f hf),
    fun f hf => (h'.access f hf).trans (h.access f hf), fun f hf => ?_, fun n => ?_,
    h'.root.trans h.root, h'.ready.trans h.ready⟩
  · rcases h'.node f hf with hn | hn
    · rw [hn]
      exact h.node f hf
    · exact .inr hn
  · exact ⟨(h'.static n).kind.trans (h.static n).kind, (h'.static n).ops.trans (h.static n).ops,
      (h'.static n).data.trans (h.static n).data⟩

lemma FilesFramed.congr_left {k₀ : Store} (h : FilesFramed F k k') (hfile : k.file = k₀.file)
    (hnode : k.node = k₀.node) (hroot : k.namespaceRootEntries = k₀.namespaceRootEntries)
    (hready : k.namespaceReady = k₀.namespaceReady) : FilesFramed F k₀ k' :=
  (FilesFramed.of_eq (fun f _ => congrFun hfile f) hnode hroot hready).trans h

lemma FilesFramed.record (h : FilesFramed F k k') (e : NodeEvent) : FilesFramed F k (k'.record e) :=
  h.trans (.of_eq (fun _ _ => rfl) rfl rfl rfl)

/-- Counting a reference of any file. -/
lemma setRefs_framed (F : Set Word) (k : Store) (g : Word) (refs : BitVec 32) :
    FilesFramed F k (k.setFile g { k.file g with refs := refs }) := by
  refine ⟨fun f _ => ?_, fun f _ => ?_, fun f _ => .inl ?_, fun n => ⟨rfl, rfl, rfl⟩, rfl, rfl⟩
  all_goals
    obtain ⟨refs', hf⟩ := setRefs_file k g refs f
    rw [hf]

/-- Counting a file of any node. -/
lemma setNodeRefs_framed (F : Set Word) (k : Store) (node : NodeRef) (refs : BitVec 32) :
    FilesFramed F k (k.setNode node { k.node node with refs := refs }) := by
  refine ⟨fun _ _ => rfl, fun _ _ => rfl, fun _ _ => .inl rfl, fun n => ?_, rfl, rfl⟩
  obtain ⟨refs', hn⟩ := setRefs_node k node refs (.static n)
  rw [hn]
  exact ⟨rfl, rfl, rfl⟩

lemma kzalloc_framed (h : k.kzalloc size = .ok (p, k')) : FilesFramed F k k' := by
  obtain ⟨⟨q, heap, phys⟩, -, h⟩ := bind_eq_ok.mp h
  cases h
  exact .of_eq (fun _ _ => rfl) rfl rfl rfl

/-- A new block is none of those handed out. -/
lemma Handed.kzalloc (hF : Handed F k) (hsize : size ∈ objectSizes) (h : k.kzalloc size = .ok (p, k')) :
    p ∉ F ∧ Handed F k' := by
  obtain ⟨ptrs, hH, hmem⟩ := hF
  have hs := heapWith_spec []
  obtain ⟨q, heap, phys, hrun, hH', -⟩ := hs.kzalloc size hH trivial hsize
  obtain ⟨rfl, rfl⟩ := Prod.mk.inj (Except.ok.inj (hrun.symm.trans h))
  by_cases hq : q = 0#64
  · subst hq
    exact ⟨fun h0 => hs.ne_zero hH (hmem _ h0), ptrs, hH', hmem⟩
  · rw [handOut_of_ne hq] at hH'
    exact ⟨fun he => hs.fresh hH' (hmem _ he), q :: ptrs, hH',
      fun f hf => List.mem_cons_of_mem _ (hmem f hf)⟩

lemma kfree_framed (h : k.kfree p = .ok k') : FilesFramed F k k' := by
  obtain ⟨heap, -, h⟩ := bind_eq_ok.mp h
  cases h
  exact .of_eq (fun _ _ => rfl) rfl rfl rfl

lemma kfreeNode_framed (h : k.kfreeNode node = .ok k') : FilesFramed F k k' := by
  cases node with
  | null =>
    cases h
    exact .refl F _
  | static n => cases h
  | allocated n => exact kfree_framed h

lemma release_framed {ops : VfsNodeOps} (h : ops.release k node = .ok (r, k')) : FilesFramed F k k' := by
  cases ops with
  | fdConsoleInput | fdConsoleOutput =>
    obtain ⟨k₁, h₁, h⟩ := bind_eq_ok.mp h
    obtain ⟨k₂, h₂, h⟩ := bind_eq_ok.mp h
    cases h
    exact ((kfree_framed h₁).trans (kfreeNode_framed h₂)).congr_left rfl rfl rfl rfl
  | consoleInput | consoleOutput | staticText | executable | directory =>
    cases h
    exact .refl F _

lemma vfsFileRetain_framed (h : vfsFileRetain k g = (r, k')) : FilesFramed F k k' := by
  unfold vfsFileRetain at h
  split_ifs at h
  · obtain ⟨-, rfl⟩ := Prod.mk.inj h
    exact .refl F _
  · obtain ⟨-, rfl⟩ := Prod.mk.inj h
    exact setRefs_framed F k g _

/-- Closing touches the file itself only in its count and, at last, its node. -/
lemma vfsFileClose_framed (h : vfsFileClose k g = .ok (r, k')) : FilesFramed F k k' := by
  unfold vfsFileClose at h
  by_cases hbad : g = 0#64 ∨ (k.file g).refs = 0 ∨ (k.file g).node = .null
  · rw [if_pos hbad] at h
    cases h
    exact .refl F _
  rw [if_neg hbad] at h
  dsimp only at h
  have hcount := setRefs_framed F k g ((k.file g).refs - 1)
  obtain ⟨k₁, hk₁⟩ : ∃ k₁, k.setFile g { k.file g with refs := (k.file g).refs - 1 } = k₁ := ⟨_, rfl⟩
  rw [hk₁] at h hcount
  refine hcount.trans ?_
  by_cases hrefs : (k₁.file g).refs ≠ 0
  · rw [if_pos hrefs] at h
    cases h
    exact .refl F _
  rw [if_neg hrefs] at h
  obtain ⟨k₂, hk₂, h⟩ := bind_eq_ok.mp h
  have hnull : FilesFramed F k₁ (k₁.setFile g { k₁.file g with node := .null }) := by
    refine ⟨fun f _ => ?_, fun f _ => ?_, fun f _ => ?_, fun n => ⟨rfl, rfl, rfl⟩, rfl, rfl⟩ <;>
      by_cases hfg : f = g
    · rw [hfg, Store.setFile_same]
    · rw [Store.setFile_ne _ hfg]
    · rw [hfg, Store.setFile_same]
    · rw [Store.setFile_ne _ hfg]
    · rw [hfg, Store.setFile_same]
      exact .inr rfl
    · rw [Store.setFile_ne _ hfg]
      exact .inl rfl
  refine (hnull.trans (kfree_framed hk₂)).trans ?_
  by_cases hnode : ((k₂.record (.closed (k₁.file g).node)).node (k₁.file g).node).refs = 0
  · rw [if_pos hnode] at h
    cases h
    exact .of_eq (fun _ _ => rfl) rfl rfl rfl
  rw [if_neg hnode] at h
  obtain ⟨k₃, hk₃⟩ : ∃ k₃, (k₂.record (.closed (k₁.file g).node)).setNode (k₁.file g).node
      { k₂.node (k₁.file g).node with refs := (k₂.node (k₁.file g).node).refs - 1 } = k₃ := ⟨_, rfl⟩
  have hcount₃ : FilesFramed F k₂ k₃ := by
    rw [← hk₃]
    exact (setNodeRefs_framed F (k₂.record _) _ _).congr_left rfl rfl rfl rfl
  rw [Store.record_node, hk₃] at h
  refine hcount₃.trans ?_
  cases hops : (k₃.node (k₁.file g).node).ops with
  | none =>
    rw [hops] at h
    cases h
    exact .refl F _
  | some ops =>
    rw [hops] at h
    dsimp only at h
    split_ifs at h
    · exact (release_framed h).congr_left rfl rfl rfl rfl
    · cases h
      exact .refl F _

/-- A file that was just made is another one. -/
lemma Handed.makeFile (hF : Handed F k) (h : vfsMakeFile k node access = .ok (g, k')) :
    Handed F k' ∧ FilesFramed F k k' := by
  obtain ⟨⟨p, k₁⟩, h₁, h⟩ := bind_eq_ok.mp h
  obtain ⟨hp, hf₁⟩ := hF.kzalloc (by simp [objectSizes]) h₁
  dsimp only at h
  split_ifs at h with h0
  · obtain ⟨-, rfl⟩ := Prod.mk.inj (Except.ok.inj h)
    exact ⟨hf₁, kzalloc_framed h₁⟩
  · obtain ⟨-, rfl⟩ := Prod.mk.inj (Except.ok.inj h)
    refine ⟨hf₁, (kzalloc_framed h₁).trans ?_⟩
    have hset : FilesFramed F k₁ (k₁.setFile p ⟨1, node, 0#64, access⟩) :=
      .of_eq (fun f hf => Store.setFile_ne _ (ne_of_mem_of_not_mem hf hp)) rfl rfl rfl
    exact hset.trans ((setNodeRefs_framed F _ node _).record _)

lemma Handed.fileOpen (hF : Handed F k) (h : vfsFileOpen k node access = .ok (g, k')) :
    Handed F k' ∧ FilesFramed F k k' := by
  unfold vfsFileOpen at h
  by_cases hnull : node = .null
  · rw [if_pos hnull] at h
    cases h
    exact ⟨hF, .refl F _⟩
  rw [if_neg hnull] at h
  cases hops : (k.node node).ops with
  | none =>
    rw [hops] at h
    cases h
    exact ⟨hF, .refl F _⟩
  | some ops =>
    rw [hops] at h
    dsimp only at h
    split_ifs at h
    · cases h
      exact ⟨hF, .refl F _⟩
    · cases h
      exact ⟨hF, .refl F _⟩
    · cases h
      exact ⟨hF, .refl F _⟩
    · exact hF.makeFile h

lemma fdTableDup_framed (h : fdTableDup k table fd = .ok (r, table', k')) : FilesFramed F k k' := by
  unfold fdTableDup at h
  cases hget : fdTableGet table fd with
  | none =>
    rw [hget] at h
    cases h
    exact .refl F _
  | some entry =>
    rw [hget] at h
    rcases hretain : vfsFileRetain k entry.file with ⟨result, k₁⟩
    have h₁ : FilesFramed F k k₁ := vfsFileRetain_framed hretain
    dsimp only at h
    rw [hretain] at h
    dsimp only at h
    split_ifs at h
    · cases h
      exact h₁
    · obtain ⟨⟨result₂, k₂⟩, h₂, h⟩ := bind_eq_ok.mp h
      cases h
      exact h₁.trans (vfsFileClose_framed h₂)
    · cases h
      exact h₁

lemma fdTableClose_framed (h : fdTableClose k table fd = .ok (r, table', k')) : FilesFramed F k k' := by
  unfold fdTableClose at h
  cases hidx : fdIndex table fd with
  | none =>
    rw [hidx] at h
    cases h
    exact .refl F _
  | some i =>
    rw [hidx] at h
    obtain ⟨⟨result, k₁⟩, h₁, h⟩ := bind_eq_ok.mp h
    cases h
    exact vfsFileClose_framed h₁

lemma fdTableCloseLoop_framed {l : List (Fin fdTableCapacity)}
    (h : fdTableCloseLoop l k table = .ok (table', k')) : FilesFramed F k k' := by
  induction l generalizing k table with
  | nil =>
    cases h
    exact .refl F _
  | cons i l ih =>
    unfold fdTableCloseLoop at h
    split_ifs at h
    · obtain ⟨⟨result, table₁, k₁⟩, h₁, h⟩ := bind_eq_ok.mp h
      exact (fdTableClose_framed h₁).trans (ih h)
    · exact ih h

lemma vfsNodeInitialize_framed {n : Word} {kind : VfsNodeKind} {ops : Option VfsNodeOps} {data : NodeData}
    (h : vfsNodeInitialize k (.allocated n) kind ops data = .ok k') :
    k'.heap = k.heap ∧ k'.phys = k.phys ∧ FilesFramed F k k' := by
  unfold vfsNodeInitialize at h
  by_cases hbad : NodeRef.allocated n = .null ∨ kind = .none ∨ ops = none
  · rw [if_pos hbad] at h
    cases h
  rw [if_neg hbad] at h
  cases h
  refine ⟨rfl, rfl, fun _ _ => rfl, fun _ _ => rfl, fun _ _ => .inl rfl, fun m => ?_, rfl, rfl⟩
  have hne : NodeRef.static m ≠ .allocated n := by simp
  rw [Store.setNode_ne _ hne]
  exact ⟨rfl, rfl, rfl⟩

/-- Closing three files in turn, the undo of the seeding. -/
lemma closeThree_framed {f₁ f₂ f₃ : Word} {table' : FdTable} {seeded : Bool}
    (h : (do
      let (_, k) ← vfsFileClose k f₁
      let (_, k) ← vfsFileClose k f₂
      let (_, k) ← vfsFileClose k f₃
      (.ok (false, table, k) : Run (Bool × FdTable × Store))) = .ok (seeded, table', k')) :
    FilesFramed F k k' := by
  obtain ⟨⟨r₁, k₁⟩, h₁, h⟩ := bind_eq_ok.mp h
  obtain ⟨⟨r₂, k₂⟩, h₂, h⟩ := bind_eq_ok.mp h
  obtain ⟨⟨r₃, k₃⟩, h₃, h⟩ := bind_eq_ok.mp h
  cases h
  exact (vfsFileClose_framed h₁).trans ((vfsFileClose_framed h₂).trans (vfsFileClose_framed h₃))

lemma Handed.seedFiles {c d : NodeRef} {seeded : Bool} (hF : Handed F k)
    (h : fdSeedFiles k table c d = .ok (seeded, table', k')) : FilesFramed F k k' := by
  obtain ⟨⟨f₁, k₁⟩, h₁, h⟩ := bind_eq_ok.mp h
  obtain ⟨⟨f₂, k₂⟩, h₂, h⟩ := bind_eq_ok.mp h
  obtain ⟨⟨f₃, k₃⟩, h₃, h⟩ := bind_eq_ok.mp h
  obtain ⟨hf₁, hk₁⟩ := hF.fileOpen h₁
  obtain ⟨hf₂, hk₂⟩ := hf₁.fileOpen h₂
  obtain ⟨hf₃, hk₃⟩ := hf₂.fileOpen h₃
  refine hk₁.trans (hk₂.trans (hk₃.trans ?_))
  dsimp only at h
  split_ifs at h
  · exact closeThree_framed h
  · exact closeThree_framed h
  · exact closeThree_framed h
  · exact closeThree_framed h
  · cases h
    exact .refl F _

lemma Handed.seed {seeded : Bool} (hF : Handed F k)
    (h : fdTableSeedConsole k table = .ok (seeded, table', k')) : FilesFramed F k k' := by
  obtain ⟨⟨a, k₁⟩, h₁, h⟩ := bind_eq_ok.mp h
  obtain ⟨⟨b, k₂⟩, h₂, h⟩ := bind_eq_ok.mp h
  obtain ⟨⟨c, k₃⟩, h₃, h⟩ := bind_eq_ok.mp h
  obtain ⟨⟨d, k₄⟩, h₄, h⟩ := bind_eq_ok.mp h
  obtain ⟨-, hf₁⟩ := hF.kzalloc (by simp [objectSizes]) h₁
  obtain ⟨-, hf₂⟩ := hf₁.kzalloc (by simp [objectSizes]) h₂
  obtain ⟨-, hf₃⟩ := hf₂.kzalloc (by simp [objectSizes]) h₃
  obtain ⟨-, hf₄⟩ := hf₃.kzalloc (by simp [objectSizes]) h₄
  refine ((kzalloc_framed h₁).trans (kzalloc_framed h₂)).trans
    (((kzalloc_framed h₃).trans (kzalloc_framed h₄)).trans ?_)
  dsimp only at h
  split_ifs at h
  · obtain ⟨k₅, h₅, h⟩ := bind_eq_ok.mp h
    obtain ⟨k₆, h₆, h⟩ := bind_eq_ok.mp h
    obtain ⟨k₇, h₇, h⟩ := bind_eq_ok.mp h
    obtain ⟨k₈, h₈, h⟩ := bind_eq_ok.mp h
    cases h
    exact ((kfree_framed h₅).trans (kfree_framed h₆)).trans ((kfree_framed h₇).trans (kfree_framed h₈))
  · obtain ⟨k₅, h₅, h⟩ := bind_eq_ok.mp h
    obtain ⟨k₆, h₆, h⟩ := bind_eq_ok.mp h
    obtain ⟨hh₅, hp₅, hk₅⟩ := vfsNodeInitialize_framed h₅
    obtain ⟨hh₆, hp₆, hk₆⟩ := vfsNodeInitialize_framed h₆
    have hf₆ : Handed F k₆ := by
      obtain ⟨ptrs, hH, hmem⟩ := hf₄
      refine ⟨ptrs, ?_, hmem⟩
      rw [hh₆, hh₅, hp₆, hp₅]
      exact hH
    exact (hk₅.trans (hk₆.trans (hf₆.seedFiles h))).congr_left rfl rfl rfl rfl

lemma setFdTable_store (k : KernelState) (table : FdTable) : (k.setFdTable table).store = k.store := by
  unfold KernelState.setFdTable
  cases k.current <;> rfl

lemma Handed.openPath {k k' : KernelState} {path : List Byte} {flags : BitVec 32} (hF : Handed F k.store)
    (h : syscallOpenPath k table path flags = .ok (r, k')) : FilesFramed F k.store k'.store := by
  obtain ⟨⟨g, store⟩, h₁, h⟩ := bind_eq_ok.mp h
  have hframe : FilesFramed F k.store store := by
    unfold vfsOpenPath at h₁
    dsimp only at h₁
    split_ifs at h₁
    · cases h₁
      exact .refl F _
    · exact (hF.fileOpen h₁).2
  refine hframe.trans ?_
  dsimp only at h
  split_ifs at h
  · cases h
    exact .refl F _
  · obtain ⟨⟨result, store₂⟩, h₂, h⟩ := bind_eq_ok.mp h
    cases h
    exact vfsFileClose_framed h₂
  · obtain ⟨-, rfl⟩ := Prod.mk.inj (Except.ok.inj h)
    rw [setFdTable_store]
    exact .refl F _
  · obtain ⟨⟨result, store₂⟩, h₂, h⟩ := bind_eq_ok.mp h
    cases h
    exact vfsFileClose_framed h₂
  · obtain ⟨-, rfl⟩ := Prod.mk.inj (Except.ok.inj h)
    rw [setFdTable_store]
    exact .refl F _

lemma Handed.execImage {path : List Byte} {image : Option (Mem × Word)} (hF : Handed F k)
    (h : syscallExecImage k path = .ok (image, k')) : FilesFramed F k k' := by
  obtain ⟨⟨g, k₁⟩, h₁, h⟩ := bind_eq_ok.mp h
  have hframe : FilesFramed F k k₁ := by
    unfold vfsOpenExecPath at h₁
    dsimp only at h₁
    split_ifs at h₁
    · cases h₁
      exact .refl F _
    · exact (hF.makeFile h₁).2
  refine hframe.trans ?_
  dsimp only at h
  by_cases hg : g = 0#64
  · rw [if_pos hg] at h
    cases h
    exact .refl F _
  rw [if_neg hg] at h
  cases himage : vfsFileExecutableImage k₁ g with
  | none =>
    rw [himage] at h
    obtain ⟨⟨result, k₂⟩, h₂, h⟩ := bind_eq_ok.mp h
    cases h
    exact vfsFileClose_framed h₂
  | some image₁ =>
    rw [himage] at h
    obtain ⟨⟨result, k₂⟩, h₂, h⟩ := bind_eq_ok.mp h
    cases h
    exact vfsFileClose_framed h₂

lemma PositionMoved.framed (h : PositionMoved k k' g) (hg : g ∉ F) : FilesFramed F k k' :=
  .of_eq (fun f hf => h.others f (ne_of_mem_of_not_mem hf hg)) h.node h.root h.ready

/-- Reading other descriptors leaves the files alone. -/
lemma fdTableRead_framed {buffer count : Word} (hother : ∀ f ∈ F, ¬ NamesFile table fd f)
    (h : (fdTableRead k table fd buffer count).result = .ok (r, k')) : FilesFramed F k k' := by
  unfold fdTableRead at h
  cases hget : fdTableGet table fd with
  | none =>
    rw [hget] at h
    cases h
    exact .refl F _
  | some entry =>
    rw [hget] at h
    exact (vfsFileRead_moved h).framed fun hf => hother _ hf ⟨entry, hget, rfl⟩

/-- Files that are not open for writing are not written. -/
lemma fdTableWrite_framed {buffer count : Word} (hread : ∀ f ∈ F, (k.file f).access &&& vfsAccessWrite = 0)
    (h : (fdTableWrite k table fd buffer count).result = .ok (r, k')) : FilesFramed F k k' := by
  unfold fdTableWrite at h
  cases hget : fdTableGet table fd with
  | none =>
    rw [hget] at h
    cases h
    exact .refl F _
  | some entry =>
    rw [hget] at h
    dsimp only at h
    by_cases hf : entry.file ∈ F
    · unfold vfsFileWrite at h
      by_cases h0 : entry.file = 0#64 ∨ (k.file entry.file).node = .null
      · rw [if_pos h0] at h
        cases h
        exact .refl F _
      rw [if_neg h0] at h
      cases hops : (k.node (k.file entry.file).node).ops with
      | none =>
        rw [hops] at h
        cases h
        exact .refl F _
      | some ops =>
        rw [hops] at h
        dsimp only at h
        rw [if_pos (hread _ hf), ite_self] at h
        cases h
        exact .refl F _
    · exact (vfsFileWrite_moved h).framed hf

end Frame

section Calls

variable {k k' k₀ : KernelState} {F : Set Word} {f : Word} {files nodes : List Word} {r : Int}

lemma OtherCall.fdCall (h : OtherCall F k k') : ∃ r, FdCall k r k' := by
  cases h with
  | openPath hcur hcall => exact ⟨_, .openPath hcur hcall⟩
  | dup hcall => exact ⟨_, .dup hcall⟩
  | close hcall => exact ⟨_, .close hcall⟩
  | closeAll hcall => exact ⟨_, .closeAll hcall⟩
  | read _ hcall hapart => exact ⟨_, .read hcall hapart⟩
  | write hcall hapart => exact ⟨_, .write hcall hapart⟩
  | execImage hcall => exact ⟨_, .execImage hcall⟩
  | seed hfresh hcall => exact ⟨_, .seed hfresh hcall⟩
  | other htables hstore hapart => exact ⟨_, .other htables hstore hapart⟩

lemma FdCall.otherCall (h : FdCall k r k') : OtherCall ∅ k k' := by
  cases h with
  | openPath hcur hcall => exact .openPath hcur hcall
  | dup hcall => exact .dup hcall
  | close hcall => exact .close hcall
  | closeAll hcall => exact .closeAll hcall
  | read hcall hapart => exact .read (fun f hf => absurd hf (Set.notMem_empty f)) hcall hapart
  | write hcall hapart => exact .write hcall hapart
  | execImage hcall => exact .execImage hcall
  | seed hfresh hcall => exact .seed hfresh hcall
  | other htables hstore hapart => exact .other htables hstore hapart

/-- A call leaves alone the files that it does not read, unless they can be written. -/
theorem OtherCall.framed (hcall : OtherCall F k k') (hF : Handed F k.store)
    (hread : ∀ f ∈ F, (k.store.file f).access &&& vfsAccessWrite = 0) :
    FilesFramed F k.store k'.store := by
  cases hcall with
  | openPath _ hcall => exact hF.openPath hcall
  | dup hcall => exact fdTableDup_framed hcall
  | close hcall => exact fdTableClose_framed hcall
  | closeAll hcall => exact fdTableCloseLoop_framed hcall
  | read hother hcall => exact fdTableRead_framed hother hcall
  | write hcall => exact fdTableWrite_framed hread hcall
  | execImage hcall => exact hF.execImage hcall
  | seed _ hcall => exact hF.seed hcall
  | other _ hstore =>
    rw [hstore]
    exact .of_eq (fun _ _ => rfl) rfl rfl rfl

lemma FdsInv.mem_files (h : FdsInv k files nodes) (hf : f ∈ heldFiles k) : f ∈ files :=
  (h.inv.counts.mem_files f).mpr hf

lemma FdsInv.handed (h : FdsInv k files nodes) (hF : ∀ f ∈ F, f ∈ heldFiles k) : Handed F k.store :=
  ⟨_, h.inv.heap, fun f hf => List.mem_append_left _ (h.mem_files (hF f hf))⟩

/-- In a run the namespace stays as it was. -/
theorem FdRun.framed (hstart : FilesFresh k₀) (run : FdRun k₀ k) : FilesFramed ∅ k₀.store k.store := by
  induction run with
  | start => exact .refl ∅ _
  | call run hcall ih =>
    obtain ⟨files, nodes, h⟩ := run.inv hstart
    exact ih.trans (hcall.otherCall.framed
      (h.handed fun f hf => absurd hf (Set.notMem_empty f)) fun f hf => absurd hf (Set.notMem_empty f))

end Calls

end Platinum
