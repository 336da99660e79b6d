import Platinum.FdSeed
import Platinum.SchedRun

/-!
# Descriptors in any order

`FdRun` is every order of the calls that open, share, use and close files, for
both tasks. Its counts are exact, and a call that reports an error changes none.
-/
namespace Platinum
open ByteMemory BlockList

/-- Every node of the tree is static. -/
inductive StaticEntry : VfsNamespaceEntry → Prop
  | leaf (name : List Byte) (n : NamespaceNode) : StaticEntry (.mk name (.static n) none)
  | directory (name : List Byte) (n : NamespaceNode) {children : List VfsNamespaceEntry} :
      (∀ e ∈ children, StaticEntry e) → StaticEntry (.mk name (.static n) (some children))

/-- Static nodes as `vfs_namespace_initialize` leaves them. -/
def NamespaceNodes (k : Store) : Prop :=
  ∀ n, StaticNode (k.node (.static n)) ∧ (k.node (.static n)).refs = 0

section Namespace

variable {k k' : Store} {n : NamespaceNode} {kind : VfsNodeKind} {ops : VfsNodeOps} {data : NodeData}
  {entries : List VfsNamespaceEntry}

lemma StaticEntry.node {e : VfsNamespaceEntry} (h : StaticEntry e) : ∃ n, e.node = .static n := by
  cases h with
  | leaf name n => exact ⟨n, rfl⟩
  | directory name n _ => exact ⟨n, rfl⟩

/-- Whatever is found in a static tree is static. -/
lemma vfsWalkLoop_static {path : List Byte} : ∀ {entries : List VfsNamespaceEntry} {component : List Byte},
    (∀ e ∈ entries, StaticEntry e) → vfsWalkLoop entries component path = .null ∨
      ∃ n, vfsWalkLoop entries component path = .static n := by
  induction path with
  | nil =>
    intro entries component h
    unfold vfsWalkLoop
    split_ifs
    · exact .inl rfl
    cases hfind : vfsFindChild entries component with
    | none => exact .inl rfl
    | some e => exact .inr (h e (List.mem_of_find?_eq_some hfind)).node
  | cons c rest ih =>
    intro entries component h
    unfold vfsWalkLoop
    by_cases hc : c = 0x2F
    · rw [if_pos hc]
      by_cases hcomp : component = []
      · exact .inl (if_pos hcomp)
      rw [if_neg hcomp]
      cases hfind : vfsFindChild entries component with
      | none => exact .inl rfl
      | some e =>
        cases h e (List.mem_of_find?_eq_some hfind) with
        | leaf name n => exact .inl rfl
        | directory name n hchildren =>
          dsimp only [VfsNamespaceEntry.children]
          by_cases hrest : rest = []
          · exact .inl (if_pos hrest)
          · rw [if_neg hrest]
            exact ih hchildren
    · rw [if_neg hc]
      by_cases hlen : vfsComponentSize ≤ component.length + 1
      · exact .inl (if_pos hlen)
      · rw [if_neg hlen]
        exact ih h

lemma namespaceOk_of_static (h : ∀ e ∈ k.namespaceRootEntries, StaticEntry e) : NamespaceOk k := by
  intro path
  unfold vfsWalkPath
  by_cases hready : ¬ k.namespaceReady
  · exact .inl (if_pos hready)
  rw [if_neg hready]
  cases path with
  | nil => exact .inl rfl
  | cons c rest =>
    dsimp only
    by_cases hc : c ≠ 0x2F ∨ rest = []
    · exact .inl (if_pos hc)
    · rw [if_neg hc]
      exact vfsWalkLoop_static h

/-- Only static nodes differ, and those are as they should be. -/
structure NodesSet (k k' : Store) : Prop where
  nodes : NamespaceNodes k → NamespaceNodes k'
  heap : k'.heap = k.heap
  phys : k'.phys = k.phys
  events : k'.events = k.events

lemma NodesSet.trans {k'' : Store} (h : NodesSet k k') (h' : NodesSet k' k'') : NodesSet k k'' :=
  ⟨fun hn => h'.nodes (h.nodes hn), h'.heap.trans h.heap, h'.phys.trans h.phys,
    h'.events.trans h.events⟩

lemma vfsNodeInitialize_set (hops : ops ≠ .fdConsoleInput ∧ ops ≠ .fdConsoleOutput)
    (h : vfsNodeInitialize k (.static n) kind (some ops) data = .ok k') : NodesSet k k' := by
  unfold vfsNodeInitialize at h
  by_cases hbad : NodeRef.static n = .null ∨ kind = .none ∨ some ops = none
  · rw [if_pos hbad] at h
    cases h
  rw [if_neg hbad] at h
  cases h
  refine ⟨fun hn m => ?_, rfl, rfl, rfl⟩
  by_cases hm : NodeRef.static m = .static n
  · rw [hm, Store.setNode_same]
    exact ⟨⟨by simpa using hops.1, by simpa using hops.2, fun h0 => by cases h0⟩, rfl⟩
  · rw [Store.setNode_ne _ hm]
    exact hn m

lemma vfsRegisterPrograms_set : ∀ {registry : List EmbeddedUserProgram} {index : ℕ} {k : Store},
    vfsRegisterPrograms index registry k = .ok (entries, k') →
    NodesSet k k' ∧ ∀ e ∈ entries, StaticEntry e := by
  intro registry
  induction registry generalizing entries with
  | nil =>
    intro index k h
    cases h
    exact ⟨⟨id, rfl, rfl, rfl⟩, by simp⟩
  | cons program rest ih =>
    intro index k h
    unfold vfsRegisterPrograms at h
    cases himage : vfsProgramImage program with
    | none =>
      rw [himage] at h
      cases h
    | some data =>
      rw [himage] at h
      obtain ⟨k₁, h₁, h⟩ := bind_eq_ok.mp h
      obtain ⟨⟨programs, k₂⟩, h₂, h⟩ := bind_eq_ok.mp h
      cases h
      obtain ⟨hset, hstatic⟩ := ih h₂
      exact ⟨(vfsNodeInitialize_set (by decide) h₁).trans hset,
        List.forall_mem_cons.mpr ⟨.leaf _ _, hstatic⟩⟩

/-- The namespace holds static nodes only, none of them open. -/
theorem vfsNamespaceInitialize_spec {registry : List EmbeddedUserProgram}
    (hzero : NamespaceNodes k) (h : vfsNamespaceInitialize k registry = .ok k') :
    NamespaceNodes k' ∧ NamespaceOk k' ∧ k'.heap = k.heap ∧ k'.phys = k.phys ∧ k'.events = k.events := by
  unfold vfsNamespaceInitialize at h
  obtain ⟨k₁, h₁, h⟩ := bind_eq_ok.mp h
  obtain ⟨k₂, h₂, h⟩ := bind_eq_ok.mp h
  obtain ⟨k₃, h₃, h⟩ := bind_eq_ok.mp h
  obtain ⟨k₄, h₄, h⟩ := bind_eq_ok.mp h
  obtain ⟨k₅, h₅, h⟩ := bind_eq_ok.mp h
  obtain ⟨k₆, h₆, h⟩ := bind_eq_ok.mp h
  obtain ⟨k₇, h₇, h⟩ := bind_eq_ok.mp h
  split_ifs at h
  obtain ⟨⟨programs, k₈⟩, h₈, h⟩ := bind_eq_ok.mp h
  cases h
  obtain ⟨hset₈, hprograms⟩ := vfsRegisterPrograms_set h₈
  have hset : NodesSet { k with namespaceConsoleInputData := ⟨0x40, 0⟩ } k₈ :=
    (((((((vfsNodeInitialize_set (by decide) h₁).trans (vfsNodeInitialize_set (by decide) h₂)).trans
      (vfsNodeInitialize_set (by decide) h₃)).trans (vfsNodeInitialize_set (by decide) h₄)).trans
      (vfsNodeInitialize_set (by decide) h₅)).trans (vfsNodeInitialize_set (by decide) h₆)).trans
      (vfsNodeInitialize_set (by decide) h₇)).trans hset₈
  refine ⟨hset.nodes hzero, namespaceOk_of_static ?_, hset.heap, hset.phys, hset.events⟩
  intro e he
  simp only [List.mem_cons, List.not_mem_nil, or_false] at he
  rcases he with rfl | rfl | rfl
  · exact .directory _ _ (by simpa using StaticEntry.leaf _ _)
  · exact .directory _ _ (by simpa using StaticEntry.leaf _ _)
  · exact .directory _ _ hprograms

end Namespace

/-- The free list is a list of pages, none of them the heap's. -/
def FreeApart (k : Store) : Prop :=
  ∃ l, FreeList k.phys l ∧ ∀ pages L, HeapInv k.heap pages L → ∀ p ∈ pages, p ∉ l

/-- The calls on descriptors, each for any task; errors are negative results. -/
inductive FdCall (k : KernelState) : Int → KernelState → Prop
  | openPath {t : TaskId} {path : List Byte} {flags : BitVec 32} {r : Int} {k' : KernelState}
      (hcur : k.current = some t)
      (hcall : syscallOpenPath k (k.task t).fdTable path flags = .ok (r, k')) : FdCall k r k'
  | dup {t : TaskId} {fd r : Int} {table : FdTable} {store : Store}
      (hcall : fdTableDup k.store (k.task t).fdTable fd = .ok (r, table, store)) :
      FdCall k r (k.withTable t table store)
  | close {t : TaskId} {fd r : Int} {table : FdTable} {store : Store}
      (hcall : fdTableClose k.store (k.task t).fdTable fd = .ok (r, table, store)) :
      FdCall k r (k.withTable t table store)
  | closeAll {t : TaskId} {table : FdTable} {store : Store}
      (hcall : fdTableCloseAll k.store (k.task t).fdTable = .ok (table, store)) :
      FdCall k 0 (k.withTable t table store)
  | read {t : TaskId} {fd r : Int} {buffer count : Word} {store : Store}
      (hcall : (fdTableRead k.store (k.task t).fdTable fd buffer count).result = .ok (r, store))
      (hapart : FreeApart store) : FdCall k r (k.setStore store)
  | write {t : TaskId} {fd r : Int} {buffer count : Word} {store : Store}
      (hcall : (fdTableWrite k.store (k.task t).fdTable fd buffer count).result = .ok (r, store))
      (hapart : FreeApart store) : FdCall k r (k.setStore store)
  | execImage {path : List Byte} {image : Option (Mem × Word)} {store : Store}
      (hcall : syscallExecImage k.store path = .ok (image, store)) :
      FdCall k (if image.isSome then 0 else -1) (k.setStore store)
  | seed {t : TaskId} {seeded : Bool} {table : FdTable} {store : Store}
      (hfresh : (k.task t).fdTable = fdTableInitialize)
      (hcall : fdTableSeedConsole k.store (k.task t).fdTable = .ok (seeded, table, store)) :
      FdCall k (if seeded then 0 else -1) (k.withTable t table store)
  /-- The rest of the kernel leaves files and tables alone. -/
  | other {k' : KernelState} {s : Phys} (htables : ∀ t, (k'.task t).fdTable = (k.task t).fdTable)
      (hstore : k'.store = { k.store with phys := s }) (hapart : FreeApart k'.store) : FdCall k 0 k'

inductive FdRun (k₀ : KernelState) : KernelState → Prop
  | start : FdRun k₀ k₀
  | call {k k' : KernelState} {r : Int} : FdRun k₀ k → FdCall k r k' → FdRun k₀ k'

/-- After `vfs_namespace_initialize`: the heap is sound with nothing handed out,
and the two tables are fresh. -/
structure FdStart (registry : List EmbeddedUserProgram) (k₀ : KernelState) : Prop where
  namespace_ready : ∃ store, vfsNamespaceInitialize store registry = .ok k₀.store ∧
    (∀ n, store.node (.static n) = ⟨.none, 0, none, .null⟩) ∧ store.events = [] ∧
    ∃ pages L l, HeapState store.heap store.phys pages [] L l
  tables : ∀ t, (k₀.task t).fdTable = fdTableInitialize

/-- Nothing is open yet; the namespace may be any of static nodes. -/
structure FilesFresh (k₀ : KernelState) : Prop where
  nodes : NamespaceNodes k₀.store
  walk : NamespaceOk k₀.store
  heap : ∃ pages L l, HeapState k₀.store.heap k₀.store.phys pages [] L l
  events : k₀.store.events = []
  tables : ∀ t, (k₀.task t).fdTable = fdTableInitialize

/-- The references of the two tables. -/
def heldFiles (k : KernelState) : List Word :=
  tableFiles (k.task .task0).fdTable ++ tableFiles (k.task .task1).fdTable

/-- `files` are the open files, `nodes` the nodes on the heap: the counts are the
numbers of entries naming a file and of files on a node. -/
structure FdExact (k : KernelState) (files nodes : List Word) : Prop where
  named : ∀ t i, ((k.task t).fdTable i).used ≠ 0 → ((k.task t).fdTable i).file ∈ files
  distinct : files.Nodup ∧ nodes.Nodup
  live : ∃ pages L, HeapInv k.store.heap pages L ∧ ∀ p ∈ files ++ nodes, p ∈ (live L).map payloadAt
  refs : ∀ f ∈ files, (k.store.file f).refs.toNat = (heldFiles k).count f ∧ 0 < (heldFiles k).count f
  on_node : ∀ f ∈ files, NodeAlive nodes (k.store.file f).node
  node_refs : ∀ r, NodeAlive nodes r → (k.store.node r).refs.toNat = filesOn k.store files r
  released : ReleasedExactly k.store.events
  open_files : ∀ r, openFiles r k.store.events = filesOn k.store files r
  entries : ∀ t, TableOk k.store (k.task t).fdTable

/-- Tables and counts are the same. -/
structure FdSame (k k' : KernelState) (files nodes : List Word) : Prop where
  table : ∀ t, (k'.task t).fdTable = (k.task t).fdTable
  refs : ∀ f ∈ files, (k'.store.file f).refs = (k.store.file f).refs
  node_refs : ∀ r, NodeAlive nodes r → (k'.store.node r).refs = (k.store.node r).refs

/-- What every call keeps. -/
structure FdsInv (k : KernelState) (files nodes : List Word) : Prop where
  inv : FdInv (HeapWith []) k.store (heldFiles k) files nodes
  events : FdEvents k.store files
  tables : ∀ t, TableOk k.store (k.task t).fdTable
  walk : NamespaceOk k.store

section Run

variable {registry : List EmbeddedUserProgram} {k₀ k k' : KernelState} {files nodes : List Word}
  {r : Int} {t : TaskId}

lemma heldFiles_perm (k : KernelState) (t : TaskId) : (heldFiles k).Perm
    (tableFiles (k.task t).fdTable ++ tableFiles (k.task t.other).fdTable) := by
  cases t with
  | task0 => exact List.Perm.refl _
  | task1 => exact List.perm_append_comm

lemma FdsInv.of_task (h : FdsInv k files nodes) (t : TaskId) : FdInv (HeapWith []) k.store
    (tableFiles (k.task t).fdTable ++ tableFiles (k.task t.other).fdTable) files nodes :=
  ⟨h.inv.counts.perm (heldFiles_perm k t), h.inv.heap⟩

lemma withTable_table (k : KernelState) (t u : TaskId) (table : FdTable) (store : Store) :
    ((k.withTable t table store).task u).fdTable = if u = t then table else (k.task u).fdTable := by
  unfold KernelState.withTable
  split_ifs with hu
  · rw [hu, KernelState.setTask_same]
  · rw [KernelState.setTask_ne hu]
    rfl

/-- A call on one table keeps the other one. -/
lemma FdsInv.step (h : FdsInv k files nodes) {store : Store} {table : FdTable}
    {files' nodes' : List Word}
    (hs : TableStep (HeapWith []) k.store (tableFiles (k.task t.other).fdTable) files nodes store table
      files' nodes') : FdsInv (k.withTable t table store) files' nodes' := by
  have hself : ((k.withTable t table store).task t).fdTable = table := by
    rw [withTable_table, if_pos rfl]
  have hother : ((k.withTable t table store).task t.other).fdTable = (k.task t.other).fdTable := by
    rw [withTable_table, if_neg (TaskId.other_ne t)]
  refine ⟨⟨hs.inv.counts.perm ?_, hs.inv.heap⟩, hs.events h.events, fun u => ?_,
    h.walk.congr hs.root hs.ready⟩
  · have hp := heldFiles_perm (k.withTable t table store) t
    rw [hself, hother] at hp
    exact hp.symm
  · rw [withTable_table]
    split_ifs with hu
    · exact hs.table
    · exact hs.other _ (h.tables u) fun f hf => by
        obtain rfl : u = t.other := by cases t <;> cases u <;> simp_all [TaskId.other]
        exact hf

lemma Unchanged.same {store : Store} (h : Unchanged k.store store files nodes) (t : TaskId) :
    FdSame k (k.withTable t (k.task t).fdTable store) files nodes := by
  refine ⟨fun u => ?_, fun f hf => congrArg VfsFile.refs (h.file f hf),
    fun r hr => congrArg VfsNode.refs (h.node r hr)⟩
  rw [withTable_table]
  split_ifs with hu
  · rw [hu]
  · rfl

lemma HeapWith.phys {h : Heap} {s s' : Phys} {ptrs l : List Word} (hw : HeapWith [] h s ptrs)
    (hfree : FreeList s' l) (hd : ∀ pages L, HeapInv h pages L → ∀ p ∈ pages, p ∉ l) :
    HeapWith [] h s' ptrs := by
  obtain ⟨pages, L, _, hs⟩ := hw
  exact ⟨pages, L, l, hs.inv, hfree, hd pages L hs.inv, hs.handed⟩

/-- Reading and writing move positions only. -/
lemma FdsInv.moved (h : FdsInv k files nodes) {store : Store} (hm : OffsetsMoved k.store store)
    (hapart : FreeApart store) :
    FdsInv (k.setStore store) files nodes ∧ FdSame k (k.setStore store) files nodes := by
  obtain ⟨l, hl, hd⟩ := hapart
  rw [hm.heap] at hd
  have hH : HeapWith [] store.heap store.phys (objectPtrs k.store files nodes) :=
    hm.heap.symm ▸ h.inv.heap.phys hl hd
  have hstep := hm.step (h.of_task .task0) hH (h.tables .task0)
  rw [← withTable_same k .task0 store]
  refine ⟨h.step hstep, fun u => ?_, fun f _ => ?_, fun q _ => ?_⟩
  · rw [withTable_same]
    rfl
  · obtain ⟨offset, hf⟩ := hm.file f
    rw [withTable_same]
    change (store.file f).refs = _
    rw [hf]
  · rw [withTable_same]
    exact congrArg (fun node => (node q).refs) hm.node

/-- Every call keeps the counts exact, and an error changes nothing that is counted. -/
theorem FdsInv.call (h : FdsInv k files nodes) (hcall : FdCall k r k') :
    (∃ files' nodes', FdsInv k' files' nodes') ∧ (r < 0 → FdSame k k' files nodes) := by
  have hfew (t : TaskId) := tableFiles_length (k.task t).fdTable
  have hs := heapWith_spec []
  cases hcall with
  | @openPath t path flags _ _ hcur hcall =>
    obtain ⟨r₁, table, store, files', hrun, hstep, -, -, -, herr⟩ :=
      (h.of_task t).openPath hs hcur (h.tables t) h.walk trivial (hfew _) path flags
    obtain ⟨rfl, rfl⟩ := Prod.mk.inj (Except.ok.inj (hrun.symm.trans hcall))
    refine ⟨⟨files', nodes, h.step hstep⟩, fun hr => ?_⟩
    obtain ⟨rfl, hsame⟩ := herr hr
    exact hsame.same t
  | @dup t fd _ table store hcall =>
    obtain ⟨r₁, table₁, store₁, hrun, hstep, -, -, herr⟩ :=
      (h.of_task t).dup hs (h.tables t) (hfew _) fd
    obtain ⟨rfl, rfl, rfl⟩ : r₁ = r ∧ table₁ = table ∧ store₁ = store := by
      simpa using hrun.symm.trans hcall
    refine ⟨⟨files, nodes, h.step hstep⟩, fun hr => ?_⟩
    obtain ⟨rfl, hsame⟩ := herr hr
    exact hsame.same t
  | @close t fd _ table store hcall =>
    obtain ⟨r₁, table₁, store₁, files', nodes', hrun, hstep, -, -, -, herr, -⟩ :=
      (h.of_task t).close hs (h.tables t) fd
    obtain ⟨rfl, rfl, rfl⟩ : r₁ = r ∧ table₁ = table ∧ store₁ = store := by
      simpa using hrun.symm.trans hcall
    refine ⟨⟨files', nodes', h.step hstep⟩, fun hr => ?_⟩
    obtain ⟨rfl, hsame⟩ := herr hr
    exact hsame.same t
  | @closeAll t table store hcall =>
    obtain ⟨store₁, files', nodes', hrun, hstep, -⟩ := (h.of_task t).closeAll hs (h.tables t)
    obtain ⟨rfl, rfl⟩ : fdTableInitialize = table ∧ store₁ = store := by
      simpa using hrun.symm.trans hcall
    exact ⟨⟨files', nodes', h.step hstep⟩, fun hr => absurd hr (by decide)⟩
  | read hcall hapart =>
    obtain ⟨hinv, hsame⟩ := h.moved (fdTableRead_moved hcall) hapart
    exact ⟨⟨files, nodes, hinv⟩, fun _ => hsame⟩
  | write hcall hapart =>
    obtain ⟨hinv, hsame⟩ := h.moved (fdTableWrite_moved hcall) hapart
    exact ⟨⟨files, nodes, hinv⟩, fun _ => hsame⟩
  | @execImage path image store hcall =>
    obtain ⟨image₁, store₁, files', hrun, hinv, hkept, hsame, -, hev⟩ :=
      h.inv.execImage hs h.walk trivial (by
        have := hfew .task0
        have := hfew .task1
        rw [heldFiles, List.length_append]
        omega) path
    obtain ⟨rfl, rfl⟩ : image₁ = image ∧ store₁ = store := by simpa using hrun.symm.trans hcall
    rw [← withTable_same k .task0 store₁]
    refine ⟨⟨files', nodes, ?_⟩, fun _ => hsame.same .task0⟩
    rw [withTable_same]
    refine ⟨hinv, hev h.events, fun u => (h.tables u).grow h.inv.counts hkept fun f hf => ?_,
      h.walk.congr hkept.root hkept.ready⟩
    exact (heldFiles_perm k u).mem_iff.mpr (List.mem_append_left _ hf)
  | @seed t seeded table store hfresh hcall =>
    rw [hfresh] at hcall
    have hinv := h.of_task t
    rw [hfresh, tableFiles_initial, List.nil_append] at hinv
    obtain ⟨seeded₁, table₁, store₁, files', nodes', hrun, hout⟩ :=
      hinv.seed hs (hfew _) fun _ _ => trivial
    obtain ⟨rfl, rfl, rfl⟩ : seeded₁ = seeded ∧ table₁ = table ∧ store₁ = store := by
      simpa using hrun.symm.trans hcall
    refine ⟨⟨files', nodes', h.step hout.step⟩, fun hr => ?_⟩
    cases seeded₁ with
    | true => exact absurd hr (by decide)
    | false =>
      obtain ⟨rfl, hsame⟩ := hout.failed rfl
      rw [← hfresh]
      exact hsame.same t
  | @other k' s htables hstore hapart =>
    obtain ⟨l, hl, hd⟩ := hapart
    rw [hstore] at hl hd
    have hheld : heldFiles k' = heldFiles k := by
      unfold heldFiles
      rw [htables, htables]
    refine ⟨⟨files, nodes, ⟨?_, ?_⟩, ?_, fun u => ?_, ?_⟩, fun hr => absurd hr (by decide)⟩
    · rw [hstore, hheld]
      exact h.inv.counts.congr rfl rfl
    · rw [hstore]
      exact h.inv.heap.phys hl hd
    · rw [hstore]
      exact h.events.congr (fun _ => rfl) rfl
    · rw [hstore, htables]
      exact (h.tables u).grow h.inv.counts ⟨fun _ _ => rfl, fun _ _ => rfl, fun _ _ => rfl,
        fun _ _ => rfl, fun _ _ => rfl, rfl, rfl⟩ fun f hf =>
        (heldFiles_perm k u).mem_iff.mpr (List.mem_append_left _ hf)
    · exact h.walk.congr (by rw [hstore]) (by rw [hstore])

lemma FilesFresh.heldFiles_nil (h : FilesFresh k₀) : heldFiles k₀ = [] := by
  unfold heldFiles
  rw [h.tables, h.tables, tableFiles_initial]
  rfl

/-- At the start nothing is open. -/
lemma FilesFresh.inv (h : FilesFresh k₀) : FdsInv k₀ [] [] := by
  obtain ⟨pages, L, l, hheap⟩ := h.heap
  refine ⟨⟨?_, pages, L, l, hheap⟩, ⟨?_, fun r => ?_⟩, fun t => ?_, h.walk⟩
  · rw [h.heldFiles_nil]
    refine ⟨List.nodup_nil, by simp, by simp, by simp, by simp, by simp, fun r hr => ?_,
      fun n => (h.nodes n).1, by simp⟩
    cases r with
    | null => exact absurd hr id
    | static n => rw [(h.nodes n).2]; rfl
    | allocated n => exact absurd hr (by simp [NodeAlive])
  · rw [h.events]
    exact .nil
  · rw [h.events]
    rfl
  · rw [h.tables]
    exact tableOk_initial _

lemma FdStart.fresh (h : FdStart registry k₀) : FilesFresh k₀ := by
  obtain ⟨⟨store, hinit, hzero, hevents, pages, L, l, hheap⟩, htables⟩ := h
  have hnodes : NamespaceNodes store := fun n => by
    rw [hzero]
    exact ⟨⟨by simp, by simp, fun _ => rfl⟩, rfl⟩
  obtain ⟨hstatic, hwalk, hh, hp, he⟩ := vfsNamespaceInitialize_spec hnodes hinit
  refine ⟨hstatic, hwalk, ⟨pages, L, l, ?_⟩, he.trans hevents, htables⟩
  rw [hh, hp]
  exact hheap

lemma FdRun.inv (hstart : FilesFresh k₀) (run : FdRun k₀ k) :
    ∃ files nodes, FdsInv k files nodes := by
  induction run with
  | start => exact ⟨[], [], hstart.inv⟩
  | call _ hcall ih =>
    obtain ⟨files, nodes, h⟩ := ih
    exact (h.call hcall).1

lemma FdsInv.exact (h : FdsInv k files nodes) : FdExact k files nodes := by
  have hc := h.inv.counts
  obtain ⟨pages, L, l, hheap⟩ := h.inv.heap
  refine ⟨fun t i hu => ?_, ⟨hc.nodup, h.inv.nodes_nodup (heapWith_spec [])⟩, ⟨pages, L, hheap.inv,
    fun p hp => ?_⟩, fun f hf => ?_, hc.alive, hc.node_refs, h.events.released, h.events.balance,
    h.tables⟩
  · refine (hc.mem_files _).mpr ((heldFiles_perm k t).mem_iff.mpr (List.mem_append_left _ ?_))
    exact mem_tableFiles.mpr ⟨i, hu, rfl⟩
  · refine hheap.handed.mem_iff.mpr (List.mem_append_left _ ?_)
    rw [objectPtrs, ← List.append_assoc]
    exact List.mem_append_left _ hp
  · exact ⟨hc.refs f hf, List.count_pos_iff.mpr ((hc.mem_files f).mp hf)⟩

end Run

/-- In every run the counts of files and nodes are exact, release callbacks run
exactly when the last file of their node is closed, and calls that report an
error change neither tables nor counts. -/
theorem fdRun_exact {registry : List EmbeddedUserProgram} {k₀ k : KernelState}
    (hstart : FdStart registry k₀) (run : FdRun k₀ k) :
    ∃ files nodes, FdExact k files nodes ∧
      ∀ r k', FdCall k r k' → r < 0 → FdSame k k' files nodes := by
  obtain ⟨files, nodes, h⟩ := run.inv hstart.fresh
  exact ⟨files, nodes, h.exact, fun r k' hcall => (h.call hcall).2⟩

lemma smallStore_heap : HeapState smallStore.heap smallStore.phys [] [] []
    [0x02002000#64, 0x02001000#64, 0x02000000#64] :=
  ⟨heapInv_nil _, by decide, by simp, by simp⟩

/-- A kernel whose first task is running. -/
def runningKernel (store : Store) : KernelState :=
  { smallKernel.setStore store with current := some .task0 }

/-- The bytes of `"/etc/banner"`. -/
def bannerPath : List Byte := [0x2F, 0x65, 0x74, 0x63, 0x2F, 0x62, 0x61, 0x6E, 0x6E, 0x65, 0x72]

/-- Both consoles are seeded, output is duplicated and closed, and the banner is opened
in its place. A descriptor that is not open cannot be duplicated. -/
lemma smallStore_run : ∃ store k k', vfsNamespaceInitialize smallStore [] = .ok store ∧
    FdRun (runningKernel store) k ∧ (heldFiles k).length = 7 ∧ FdCall k (-1) k' := by
  have hcalls : ((do
      let store ← vfsNamespaceInitialize smallStore []
      let k := runningKernel store
      let r₁ ← fdTableSeedConsole k.store (k.task .task0).fdTable
      let k := k.withTable .task0 r₁.2.1 r₁.2.2
      let r₂ ← fdTableSeedConsole k.store (k.task .task1).fdTable
      let k := k.withTable .task1 r₂.2.1 r₂.2.2
      let r₃ ← fdTableDup k.store (k.task .task0).fdTable 1
      let k := k.withTable .task0 r₃.2.1 r₃.2.2
      let r₄ ← fdTableClose k.store (k.task .task0).fdTable 1
      let k := k.withTable .task0 r₄.2.1 r₄.2.2
      let r₅ ← syscallOpenPath k (k.task .task0).fdTable bannerPath vfsAccessRead
      let r₆ ← fdTableDup r₅.2.store (r₅.2.task .task0).fdTable 9
      return ([r₁.1, r₂.1], [r₃.1, r₄.1, r₅.1, r₆.1], (heldFiles r₅.2).length)) : Run _).toOption =
        some ([true, true], [3, 0, 1, -1], 7) := by
    decide +kernel
  obtain ⟨store, hinit, h⟩ := bind_eq_ok.mp (toOption_eq_some.mp hcalls)
  obtain ⟨⟨seeded₁, table₁, store₁⟩, h₁, h⟩ := bind_eq_ok.mp h
  obtain ⟨⟨seeded₂, table₂, store₂⟩, h₂, h⟩ := bind_eq_ok.mp h
  obtain ⟨⟨fd₃, table₃, store₃⟩, h₃, h⟩ := bind_eq_ok.mp h
  obtain ⟨⟨r₄, table₄, store₄⟩, h₄, h⟩ := bind_eq_ok.mp h
  obtain ⟨⟨fd₅, k₅⟩, h₅, h⟩ := bind_eq_ok.mp h
  obtain ⟨⟨fd₆, table₆, store₆⟩, h₆, h⟩ := bind_eq_ok.mp h
  obtain ⟨⟨rfl, rfl⟩, ⟨rfl, rfl, rfl, rfl⟩, hheld⟩ : (seeded₁ = true ∧ seeded₂ = true) ∧
      (fd₃ = 3 ∧ r₄ = 0 ∧ fd₅ = 1 ∧ fd₆ = -1) ∧ (heldFiles k₅).length = 7 := by
    simpa using Except.ok.inj h
  exact ⟨store, k₅, _, hinit, .call (.call (.call (.call (.call .start (.seed rfl h₁)) (.seed rfl h₂)) (.dup h₃))
    (.close h₄)) (.openPath rfl h₅), hheld, .dup h₆⟩

/-- The counts after these calls, and after the one that fails. -/
theorem fdRun_exact_sample : ∃ store k k' files nodes,
    vfsNamespaceInitialize smallStore [] = .ok store ∧ FdRun (runningKernel store) k ∧ FdExact k files nodes ∧
    (heldFiles k).length = 7 ∧ FdCall k (-1) k' ∧ FdSame k k' files nodes := by
  obtain ⟨store, k, k', hinit, hrun, hheld, hfails⟩ := smallStore_run
  have hstart : FdStart [] (runningKernel store) :=
    ⟨⟨smallStore, hinit, fun _ => rfl, rfl, _, _, _, smallStore_heap⟩, fun _ => rfl⟩
  obtain ⟨files, nodes, hexact, hsame⟩ := fdRun_exact hstart hrun
  exact ⟨store, k, k', files, nodes, hinit, hrun, hexact, hheld, hfails, hsame _ _ hfails (by decide)⟩

end Platinum
