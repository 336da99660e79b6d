import Platinum.ExecLookup
import Platinum.FileFrame

/-!
# Programs by name

`vfs_namespace_initialize` lists the embedded programs under `/bin`, whatever
their names are; the walk finds those whose names fit its buffer.
-/
namespace Platinum
open ByteMemory

/-- The bytes of `"bin"`. -/
def binName : List Byte := [0x62, 0x69, 0x6E]

/-- `"/bin/"` followed by the name. -/
def programPath (name : List Byte) : List Byte := slash :: (binName ++ slash :: name)

/-- A registry that the build emits: the names are distinct and have no `/`. -/
structure RegistryNames (registry : List EmbeddedUserProgram) : Prop where
  distinct : (registry.map EmbeddedUserProgram.name).Nodup
  names : ∀ p ∈ registry, p.name ≠ [] ∧ slash ∉ p.name ∧ 0 ∉ p.name

/-- The node serves the program's image. -/
structure ServesProgram (v : VfsNode) (p : EmbeddedUserProgram) (image : Mem) : Prop where
  kind : v.kind = .executable
  offered : p.image = some image
  size : p.size ≠ 0#64
  data : v.data = .executable ⟨some image, p.size⟩

/-- The entries made from `registry`, with the nodes from `index` on. -/
structure Registered (registry : List EmbeddedUserProgram) (index : ℕ) (k : Store)
    (entries : List VfsNamespaceEntry) (k' : Store) : Prop where
  names : entries.map VfsNamespaceEntry.name = registry.map EmbeddedUserProgram.name
  served : ∀ p ∈ registry, ∃ j image, index ≤ j ∧
    VfsNamespaceEntry.mk p.name (.static (.executable j)) none ∈ entries ∧
    ServesProgram (k'.node (.static (.executable j))) p image
  below : ∀ j < index, k'.node (.static (.executable j)) = k.node (.static (.executable j))

section Names

variable {registry : List EmbeddedUserProgram} {program p : EmbeddedUserProgram} {k k' : Store}
  {entries : List VfsNamespaceEntry} {entry : VfsNamespaceEntry} {index : ℕ} {name : List Byte}
  {n : NodeRef} {image : Mem}

lemma vfsProgramImage_ok {data : VfsExecutableData} (h : vfsProgramImage program = some data) :
    ∃ image, program.image = some image ∧ program.size ≠ 0#64 ∧ data = ⟨some image, program.size⟩ := by
  unfold vfsProgramImage at h
  split_ifs at h with hok
  obtain rfl := Option.some.inj h
  obtain ⟨image, himage⟩ := Option.isSome_iff_exists.mp hok.1
  exact ⟨image, himage, hok.2, by rw [himage]⟩

lemma vfsRegisterPrograms_registered : ∀ {registry : List EmbeddedUserProgram} {index : ℕ} {k : Store}
    {entries : List VfsNamespaceEntry}, vfsRegisterPrograms index registry k = .ok (entries, k') →
    Registered registry index k entries k' := by
  intro registry
  induction registry with
  | nil =>
    intro index k entries h
    cases h
    exact ⟨rfl, by simp, fun _ _ => rfl⟩
  | cons program rest ih =>
    intro index k entries h
    unfold vfsRegisterPrograms at h
    cases hdata : vfsProgramImage program with
    | none =>
      rw [hdata] at h
      cases h
    | some data =>
      rw [hdata] at h
      obtain ⟨k₁, h₁, h⟩ := bind_eq_ok.mp h
      obtain ⟨⟨programs, k₂⟩, h₂, h⟩ := bind_eq_ok.mp h
      cases h
      obtain ⟨image, himage, hsize, rfl⟩ := vfsProgramImage_ok hdata
      obtain ⟨hnames, hserved, hbelow⟩ := ih h₂
      have hset : k₁ = k.setNode (.static (.executable index))
          ⟨.executable, 0, some .executable, .executable ⟨some image, program.size⟩⟩ :=
        (Except.ok.inj ((if_neg (by simp)).symm.trans h₁)).symm
      have hhere := hbelow index (Nat.lt_succ_self index)
      rw [hset, Store.setNode_same] at hhere
      refine ⟨by rw [List.map_cons, List.map_cons, hnames]; rfl, fun p hp => ?_, fun j hj => ?_⟩
      · rcases List.mem_cons.mp hp with rfl | hp
        · exact ⟨index, image, le_rfl, List.mem_cons_self, by rw [hhere], himage, hsize, by rw [hhere]⟩
        · obtain ⟨j, image, hj, hmem, hserves⟩ := hserved p hp
          exact ⟨j, image, by omega, List.mem_cons_of_mem _ hmem, hserves⟩
      · have hne : NodeRef.static (.executable j) ≠ .static (.executable index) := by
          simp only [ne_eq, NodeRef.static.injEq, NamespaceNode.executable.injEq]
          omega
        rw [hbelow j (by omega), hset, Store.setNode_ne _ hne]

/-- An entry is the first of its name when names are distinct. -/
lemma firstNamed_of_mem (hnd : (entries.map VfsNamespaceEntry.name).Nodup) (hmem : entry ∈ entries) :
    FirstNamed entries entry.name entry := by
  obtain ⟨before, after, rfl⟩ := List.append_of_mem hmem
  refine ⟨before, after, rfl, rfl, fun other hother heq => ?_⟩
  rw [List.map_append, List.nodup_append] at hnd
  exact hnd.2.2 _ (List.mem_map_of_mem hother) _ (by simp) heq

/-- The namespace lists the programs under `/bin`. -/
structure ListsPrograms (registry : List EmbeddedUserProgram) (k : Store) : Prop where
  ready : k.namespaceReady = true
  bin : ∃ dev etc programs, k.namespaceRootEntries = [dev, etc, .mk binName (.static .bin) (some programs)] ∧
    dev.name ≠ binName ∧ etc.name ≠ binName ∧
    programs.map VfsNamespaceEntry.name = registry.map EmbeddedUserProgram.name ∧
    ∀ p ∈ registry, ∃ j image,
      VfsNamespaceEntry.mk p.name (.static (.executable j)) none ∈ programs ∧
      ServesProgram (k.node (.static (.executable j))) p image

lemma vfsNamespaceInitialize_lists (h : vfsNamespaceInitialize k registry = .ok k') :
    ListsPrograms registry k' := by
  unfold vfsNamespaceInitialize at h
  obtain ⟨k₁, -, h⟩ := bind_eq_ok.mp h
  obtain ⟨k₂, -, h⟩ := bind_eq_ok.mp h
  obtain ⟨k₃, -, h⟩ := bind_eq_ok.mp h
  obtain ⟨k₄, -, h⟩ := bind_eq_ok.mp h
  obtain ⟨k₅, -, h⟩ := bind_eq_ok.mp h
  obtain ⟨k₆, -, h⟩ := bind_eq_ok.mp h
  obtain ⟨k₇, -, h⟩ := bind_eq_ok.mp h
  split_ifs at h
  obtain ⟨⟨programs, k₈⟩, h₈, h⟩ := bind_eq_ok.mp h
  cases h
  have hreg := vfsRegisterPrograms_registered h₈
  refine ⟨rfl, _, _, programs, rfl, by decide, by decide, hreg.names, fun p hp => ?_⟩
  obtain ⟨j, image, -, hmem, hserves⟩ := hreg.served p hp
  exact ⟨j, image, hmem, hserves⟩

/-- The nodes and the tree are all that matters. -/
lemma ListsPrograms.framed (h : ListsPrograms registry k) (hk : FilesFramed ∅ k k') :
    ListsPrograms registry k' := by
  obtain ⟨hready, dev, etc, programs, hroot, hdev, hetc, hnames, hserved⟩ := h
  refine ⟨hk.ready.trans hready, dev, etc, programs, hk.root.trans hroot, hdev, hetc, hnames,
    fun p hp => ?_⟩
  obtain ⟨j, image, hmem, hkind, himage, hsize, hdata⟩ := hserved p hp
  have hsame := hk.static (.executable j)
  exact ⟨j, image, hmem, hsame.kind.trans hkind, himage, hsize, hsame.data.trans hdata⟩

/-- The walk to a program is the search among the entries of `/bin`. -/
lemma vfsWalkPath_program {dev etc : VfsNamespaceEntry} {programs : List VfsNamespaceEntry}
    (hready : k.namespaceReady = true)
    (hroot : k.namespaceRootEntries = [dev, etc, .mk binName (.static .bin) (some programs)])
    (hdev : dev.name ≠ binName) (hetc : etc.name ≠ binName) (hplain : slash ∉ name) :
    vfsWalkPath k (programPath name) = walkComponents programs [name] := by
  have hsplit : (binName ++ slash :: name).splitOn slash = [binName, name] := by
    rw [List.splitOn_append_cons_self_of_not_mem (by decide), List.splitOn_eq_singleton hplain]
  have hfirst : FirstNamed k.namespaceRootEntries binName (.mk binName (.static .bin) (some programs)) := by
    refine ⟨[dev, etc], [], by rw [hroot]; rfl, rfl, ?_⟩
    simpa using ⟨hdev, hetc⟩
  rw [programPath, vfsWalkPath_eq hready, hsplit]
  conv_lhs => unfold walkComponents
  rw [if_neg (by decide), vfsFindChild_iff.mpr hfirst]
  rfl

/-- A program is found when its name fits the walk's buffer. -/
lemma ListsPrograms.walk (h : ListsPrograms registry k) (hn : RegistryNames registry)
    (hp : p ∈ registry) : ∃ j image, ServesProgram (k.node (.static (.executable j))) p image ∧
      vfsWalkPath k (programPath p.name) =
        if p.name.length ≤ 15 then .static (.executable j) else .null := by
  obtain ⟨hready, dev, etc, programs, hroot, hdev, hetc, hnames, hserved⟩ := h
  obtain ⟨hne, hplain, -⟩ := hn.names p hp
  obtain ⟨j, image, hmem, hserves⟩ := hserved p hp
  have hfirst : FirstNamed programs p.name (.mk p.name (.static (.executable j)) none) :=
    firstNamed_of_mem (hnames ▸ hn.distinct) hmem
  refine ⟨j, image, hserves, ?_⟩
  rw [vfsWalkPath_program hready hroot hdev hetc hplain]
  by_cases hfits : p.name.length ≤ 15
  · rw [if_pos hfits]
    refine walkComponents_reaches (.last hfirst) fun c hc => ?_
    obtain rfl := List.mem_singleton.mp hc
    exact ⟨hne, hplain, hfits⟩
  · rw [if_neg hfits]
    refine if_pos (.inr ?_)
    unfold vfsComponentSize
    omega

/-- A file made on the node of a program offers the program's image. -/
lemma vfsMakeFile_program {file : Word} {s : Store} (h : ServesProgram (k.node n) p image)
    (hn : n ≠ .null) (halloc : k.kzalloc vfsFileSize = .ok (file, s)) (hfile : file ≠ 0#64) :
    ∃ k', vfsMakeFile k n 0 = .ok (file, k') ∧
      vfsFileExecutableImage k' file = some (image, p.size) := by
  have hnode : s.node = k.node := by
    obtain ⟨⟨q, heap, phys⟩, -, halloc⟩ := bind_eq_ok.mp halloc
    cases halloc
    rfl
  unfold vfsMakeFile
  rw [halloc, ok_bind]
  dsimp only
  rw [if_neg hfile]
  refine ⟨_, rfl, ?_⟩
  rw [vfsFileExecutableImage_eq hfile hn (by rw [Store.record_file, Store.setNode_file, Store.setFile_same])]
  · rw [Store.record_node, Store.setNode_same, Store.setFile_node, hnode]
    simp [nodeImage, h.data, NodeData.asExecutable, h.size]
  · rw [Store.record_node, Store.setNode_same, Store.setFile_node, hnode]
    exact h.kind

end Names

/-- A program whose name has at most 15 bytes is opened by its name, and the file
offers its image and size; a longer name is not found. -/
theorem vfsOpenExecPath_program {registry : List EmbeddedUserProgram} {k₀ k : KernelState}
    {program : EmbeddedUserProgram} (hstart : FdStart registry k₀) (hnames : RegistryNames registry)
    (run : FdRun k₀ k) (hprogram : program ∈ registry) :
    (program.name.length ≤ 15 → ∀ file s, k.store.kzalloc vfsFileSize = .ok (file, s) → file ≠ 0#64 →
      ∃ image store, program.image = some image ∧
        vfsOpenExecPath k.store (programPath program.name) = .ok (file, store) ∧
        vfsFileExecutableImage store file = some (image, program.size)) ∧
    (15 < program.name.length →
      vfsOpenExecPath k.store (programPath program.name) = .ok (0#64, k.store)) := by
  obtain ⟨store₀, hinit, -⟩ := hstart.namespace_ready
  have hlists := (vfsNamespaceInitialize_lists hinit).framed (run.framed hstart.fresh)
  obtain ⟨j, image, hserves, hwalk⟩ := hlists.walk hnames hprogram
  unfold vfsOpenExecPath
  dsimp only
  rw [hwalk]
  constructor
  · intro hfits file s halloc hfile
    obtain ⟨store, hmake, himage⟩ := vfsMakeFile_program hserves (by simp) halloc hfile
    refine ⟨image, store, hserves.offered, ?_, himage⟩
    rw [if_pos hfits, if_neg (not_or.mpr ⟨by simp, not_not.mpr hserves.kind⟩)]
    exact hmake
  · intro hlong
    rw [if_neg (show ¬ program.name.length ≤ 15 by omega)]
    exact if_pos (Or.inl rfl)

/-- Programs with a name of one letter and with one of 16. -/
def shortNamed : EmbeddedUserProgram := ⟨[0x61], some fun _ => 0, 1#64⟩
def longNamed : EmbeddedUserProgram := ⟨List.replicate 16 0x61, some fun _ => 0, 1#64⟩

lemma smallStore_zalloc : ((Platinum.kzalloc smallStore.heap smallStore.phys vfsFileSize).toOption.map
    fun r => decide (r.1 ≠ 0#64)) = some true := by
  decide +kernel

/-- Initialising the namespace takes nothing from the heap. -/
lemma smallStore_room {registry : List EmbeddedUserProgram} {k : Store}
    (h : vfsNamespaceInitialize smallStore registry = .ok k) :
    ∃ file s, k.kzalloc vfsFileSize = .ok (file, s) ∧ file ≠ 0#64 := by
  have hnodes : NamespaceNodes smallStore := fun n =>
    ⟨⟨by simp [smallStore], by simp [smallStore], fun _ => rfl⟩, rfl⟩
  obtain ⟨-, -, hheap, hphys, -⟩ := vfsNamespaceInitialize_spec hnodes h
  obtain ⟨⟨file, heap, phys⟩, hroom, hne⟩ := Option.map_eq_some_iff.mp smallStore_zalloc
  unfold Store.kzalloc
  rw [hheap, hphys, toOption_eq_some.mp hroom]
  exact ⟨file, _, rfl, of_decide_eq_true hne⟩

/-- A program with a short name is opened by it. -/
theorem vfsOpenExecPath_program_sample : ∃ k file image store,
    vfsNamespaceInitialize smallStore [shortNamed] = .ok k ∧
    vfsOpenExecPath k (programPath shortNamed.name) = .ok (file, store) ∧
    vfsFileExecutableImage store file = some (image, 1#64) := by
  obtain ⟨k, hinit⟩ : ∃ k, vfsNamespaceInitialize smallStore [shortNamed] = .ok k := ⟨_, rfl⟩
  obtain ⟨file, s, halloc, hfile⟩ := smallStore_room hinit
  have hstart : FdStart [shortNamed] (smallKernel.setStore k) :=
    ⟨⟨smallStore, hinit, fun _ => rfl, rfl, _, _, _, smallStore_heap⟩, fun _ => rfl⟩
  obtain ⟨hshort, -⟩ := vfsOpenExecPath_program hstart ⟨by decide, by decide⟩ .start
    (List.mem_singleton_self shortNamed)
  obtain ⟨image, store, -, hopen, himage⟩ := hshort (by decide) file s halloc hfile
  exact ⟨k, file, image, store, hinit, hopen, himage⟩

/-- A program with a name of 16 letters is registered, but cannot be opened. -/
theorem longNamed_not_found : ∃ k, vfsNamespaceInitialize smallStore [longNamed] = .ok k ∧
    RegistryNames [longNamed] ∧ (∃ file s, k.kzalloc vfsFileSize = .ok (file, s) ∧ file ≠ 0#64) ∧
    vfsOpenExecPath k (programPath longNamed.name) = .ok (0#64, k) := by
  obtain ⟨k, hinit, hwalk⟩ : ∃ k, vfsNamespaceInitialize smallStore [longNamed] = .ok k ∧
      vfsWalkPath k (programPath longNamed.name) = .null := ⟨_, rfl, rfl⟩
  refine ⟨k, hinit, ⟨by decide, by decide⟩, smallStore_room hinit, ?_⟩
  unfold vfsOpenExecPath
  dsimp only
  rw [hwalk]
  exact if_pos (Or.inl rfl)

end Platinum
