import Platinum.Heap
import Platinum.UserMemory

/-!
# Files and nodes

Open files and the nodes of consoles live on the kernel heap and are kept by the
address of their payload; the nodes of the namespace are static. Function
pointers are constructors of `VfsNodeOps`, for the tables of `vfs.c` and `fd.c`.
-/
namespace Platinum
open ByteMemory

inductive VfsNodeKind where
  | none
  | placeholder
  | console
  | staticText
  | executable
  | directory
  deriving DecidableEq, Repr

def vfsAccessRead : BitVec 32 := 1
def vfsAccessWrite : BitVec 32 := 2

inductive VfsNodeOps where
  | fdConsoleInput
  | fdConsoleOutput
  | consoleInput
  | consoleOutput
  | staticText
  | executable
  | directory
  deriving DecidableEq, Repr

/-- `ops->read != 0`. -/
def VfsNodeOps.hasRead : VfsNodeOps → Bool
  | .fdConsoleInput | .consoleInput | .staticText => true
  | _ => false

/-- `ops->write != 0`. -/
def VfsNodeOps.hasWrite : VfsNodeOps → Bool
  | .fdConsoleOutput | .consoleOutput => true
  | _ => false

/-- The static nodes of the namespace. -/
inductive NamespaceNode where
  | root
  | dev
  | etc
  | bin
  | consoleInput
  | consoleOutput
  | banner
  | executable (index : ℕ)
  deriving DecidableEq, Repr

/-- A pointer to a node. -/
inductive NodeRef where
  | null
  | static (node : NamespaceNode)
  | allocated (address : Word)
  deriving DecidableEq, Repr

structure VfsStaticTextData where
  text : Mem
  length : Word

structure VfsExecutableData where
  image : Option Mem
  size : Word

/-- What `node->data` points to; constant data is kept in place. -/
inductive NodeData where
  | null
  | allocated (address : Word)
  | consoleInput
  | staticText (data : VfsStaticTextData)
  | executable (data : VfsExecutableData)

namespace NodeData

def address : NodeData → Word
  | .allocated address => address
  | _ => 0#64

def asStaticText : NodeData → VfsStaticTextData
  | .staticText data => data
  | _ => ⟨fun _ => 0, 0#64⟩

/-- Null when the pointer is. -/
def asExecutable : NodeData → Option VfsExecutableData
  | .executable data => some data
  | _ => none

end NodeData

structure VfsNode where
  kind : VfsNodeKind
  refs : BitVec 32
  ops : Option VfsNodeOps
  data : NodeData

structure VfsFile where
  refs : BitVec 32
  node : NodeRef
  offset : Word
  access : BitVec 32
  deriving DecidableEq, Repr

structure FdConsoleInput where
  released : BitVec 32
  byte : Byte
  used : BitVec 32
  deriving DecidableEq, Repr

structure FdConsoleOutput where
  released : BitVec 32
  deriving DecidableEq, Repr

structure VfsConsoleInputData where
  byte : Byte
  used : BitVec 32
  deriving DecidableEq, Repr

/-- `children` is absent for a null pointer. -/
inductive VfsNamespaceEntry where
  | mk (name : List Byte) (node : NodeRef) (children : Option (List VfsNamespaceEntry))

namespace VfsNamespaceEntry

def name : VfsNamespaceEntry → List Byte
  | mk name _ _ => name

def node : VfsNamespaceEntry → NodeRef
  | mk _ node _ => node

def children : VfsNamespaceEntry → Option (List VfsNamespaceEntry)
  | mk _ _ children => children

end VfsNamespaceEntry

/-- What happens to a node's files: one is made, the last reference to one is
closed; and the node's release callback runs. -/
inductive NodeEvent where
  | made (node : NodeRef)
  | closed (node : NodeRef)
  | released (node : NodeRef)
  deriving DecidableEq, Repr

/-- Physical memory, the kernel heap and the objects stored in it. `events` is a
record for stating results, latest first; nothing reads it. -/
structure Store where
  phys : Phys
  heap : Heap
  file : Word → VfsFile
  node : NodeRef → VfsNode
  fdConsoleInput : Word → FdConsoleInput
  fdConsoleOutput : Word → FdConsoleOutput
  namespaceConsoleInputData : VfsConsoleInputData
  namespaceRootEntries : List VfsNamespaceEntry
  namespaceReady : Bool
  serial : List Byte
  events : List NodeEvent

namespace Store

def setFile (k : Store) (address : Word) (f : VfsFile) : Store :=
  { k with file := Function.update k.file address f }

def setNode (k : Store) (node : NodeRef) (n : VfsNode) : Store :=
  { k with node := Function.update k.node node n }

def setFdConsoleInput (k : Store) (address : Word) (d : FdConsoleInput) : Store :=
  { k with fdConsoleInput := Function.update k.fdConsoleInput address d }

def setFdConsoleOutput (k : Store) (address : Word) (d : FdConsoleOutput) : Store :=
  { k with fdConsoleOutput := Function.update k.fdConsoleOutput address d }

def kzalloc (k : Store) (size : Word) : Run (Word × Store) := do
  let (ptr, heap, phys) ← Platinum.kzalloc k.heap k.phys size
  .ok (ptr, { k with heap := heap, phys := phys })

def kfree (k : Store) (ptr : Word) : Run Store := do
  let heap ← Platinum.kfree k.heap ptr
  .ok { k with heap := heap }

/-- `kfree(node)`; a static node has no block header. -/
def kfreeNode (k : Store) : NodeRef → Run Store
  | .null => .ok k
  | .static _ => .error .halt
  | .allocated address => k.kfree address

def serialWrite (k : Store) (bytes : List Byte) : Store := { k with serial := k.serial ++ bytes }

def record (k : Store) (event : NodeEvent) : Store := { k with events := event :: k.events }

variable (k : Store) (x y : Word) (f : VfsFile) (n : VfsNode) (r q : NodeRef) (bytes : List Byte)

@[simp] lemma setFile_phys : (k.setFile x f).phys = k.phys := rfl
@[simp] lemma setFile_heap : (k.setFile x f).heap = k.heap := rfl
@[simp] lemma setFile_node : (k.setFile x f).node = k.node := rfl
@[simp] lemma setFile_same : (k.setFile x f).file x = f := Function.update_self _ _ _
@[simp] lemma setFile_setFile (g : VfsFile) : (k.setFile x f).setFile x g = k.setFile x g := by
  simp [setFile]
@[simp] lemma setNode_phys : (k.setNode r n).phys = k.phys := rfl
@[simp] lemma setNode_heap : (k.setNode r n).heap = k.heap := rfl
@[simp] lemma setNode_file : (k.setNode r n).file = k.file := rfl
@[simp] lemma setNode_same : (k.setNode r n).node r = n := Function.update_self _ _ _
@[simp] lemma setFile_events : (k.setFile x f).events = k.events := rfl
@[simp] lemma setNode_events : (k.setNode r n).events = k.events := rfl
@[simp] lemma record_phys (e : NodeEvent) : (k.record e).phys = k.phys := rfl
@[simp] lemma record_heap (e : NodeEvent) : (k.record e).heap = k.heap := rfl
@[simp] lemma record_file (e : NodeEvent) : (k.record e).file = k.file := rfl
@[simp] lemma record_node (e : NodeEvent) : (k.record e).node = k.node := rfl

variable {k x y r q}

lemma setFile_ne (h : y ≠ x) : (k.setFile x f).file y = k.file y := Function.update_of_ne h _ _

lemma setNode_ne (h : q ≠ r) : (k.setNode r n).node q = k.node q := Function.update_of_ne h _ _

end Store

def vfsNodeInitialize (k : Store) (node : NodeRef) (kind : VfsNodeKind) (ops : Option VfsNodeOps)
    (data : NodeData) : Run Store :=
  if node = .null ∨ kind = .none ∨ ops = none then .error .halt
  else .ok (k.setNode node ⟨kind, 0, ops, data⟩)

def vfsOpenFlagsValid (access : BitVec 32) : Bool :=
  access = vfsAccessRead || access = vfsAccessWrite || access = vfsAccessRead ||| vfsAccessWrite

/-- `sizeof(struct vfs_file)`. -/
def vfsFileSize : Word := 32#64

/-- Returns the file's address, 0 on failure. -/
def vfsMakeFile (k : Store) (node : NodeRef) (access : BitVec 32) : Run (Word × Store) := do
  let (file, k) ← k.kzalloc vfsFileSize
  if file = 0#64 then .ok (0#64, k)
  else
    let k := k.setFile file ⟨1, node, 0#64, access⟩
    let k := k.setNode node { k.node node with refs := (k.node node).refs + 1 }
    .ok (file, k.record (.made node))

def vfsFileOpen (k : Store) (node : NodeRef) (access : BitVec 32) : Run (Word × Store) :=
  if node = .null then .ok (0#64, k)
  else
    match (k.node node).ops with
    | none => .ok (0#64, k)
    | some ops =>
      if (k.node node).kind = .directory ∨ ¬ vfsOpenFlagsValid access then .ok (0#64, k)
      else if access &&& vfsAccessRead ≠ 0 ∧ ¬ ops.hasRead then .ok (0#64, k)
      else if access &&& vfsAccessWrite ≠ 0 ∧ ¬ ops.hasWrite then .ok (0#64, k)
      else vfsMakeFile k node access

def vfsFileRetain (k : Store) (file : Word) : Int × Store :=
  if file = 0#64 ∨ (k.file file).refs = 0 ∨ (k.file file).node = .null then (-1, k)
  else (0, k.setFile file { k.file file with refs := (k.file file).refs + 1 })

def fdConsoleOutputRelease (k : Store) (node : NodeRef) : Run (Int × Store) := do
  let console := (k.node node).data.address
  let k := k.setFdConsoleOutput console ⟨(k.fdConsoleOutput console).released + 1⟩
  let k ← k.kfree console
  let k ← k.kfreeNode node
  .ok (0, k)

def fdConsoleInputRelease (k : Store) (node : NodeRef) : Run (Int × Store) := do
  let console := (k.node node).data.address
  let k := k.setFdConsoleInput console
    { k.fdConsoleInput console with released := (k.fdConsoleInput console).released + 1 }
  let k ← k.kfree console
  let k ← k.kfreeNode node
  .ok (0, k)

def vfsStaticRelease (k : Store) (_node : NodeRef) : Run (Int × Store) := .ok (0, k)

/-- `node->ops->release(node)`. -/
def VfsNodeOps.release : VfsNodeOps → Store → NodeRef → Run (Int × Store)
  | .fdConsoleInput => fdConsoleInputRelease
  | .fdConsoleOutput => fdConsoleOutputRelease
  | _ => vfsStaticRelease

def vfsFileClose (k : Store) (file : Word) : Run (Int × Store) :=
  if file = 0#64 ∨ (k.file file).refs = 0 ∨ (k.file file).node = .null then .ok (-1, k)
  else
    let k := k.setFile file { k.file file with refs := (k.file file).refs - 1 }
    if (k.file file).refs ≠ 0 then .ok (0, k)
    else do
      let node := (k.file file).node
      let k ← (k.setFile file { k.file file with node := .null }).kfree file
      let k := k.record (.closed node)
      if (k.node node).refs = 0 then .ok (-1, k)
      else
        let k := k.setNode node { k.node node with refs := (k.node node).refs - 1 }
        match (k.node node).ops with
        | some ops =>
          if (k.node node).refs = 0 then ops.release (k.record (.released node)) node else .ok (0, k)
        | none => .ok (0, k)

/-- `(int)count`. -/
def toInt32 (count : Word) : Int := (count.setWidth 32).toInt

/-- `serial_write` from a user buffer. -/
def serialWriteUser (k : Store) (buffer count : Word) : UserAccess Store := do
  let bytes ← userLoadBytes k.phys buffer count.toNat
  pure (k.serialWrite bytes)

def fdConsoleInputRead (k : Store) (file buffer count : Word) : UserAccess (Int × Store) :=
  let f := k.file file
  let console := (k.node f.node).data.address
  if console = 0#64 then pure (-1, k)
  else if buffer = 0#64 ∧ count ≠ 0#64 then pure (-1, k)
  else if count = 0#64 then pure (0, k)
  else if (k.fdConsoleInput console).used ≠ 0 then pure (0, k)
  else do
    let phys ← userStore k.phys buffer (k.fdConsoleInput console).byte
    let k := { k with phys := phys }.setFdConsoleInput console
      { k.fdConsoleInput console with used := 1 }
    pure (1, k.setFile file { f with offset := f.offset + 1#64 })

def fdConsoleOutputWrite (k : Store) (file buffer count : Word) : UserAccess (Int × Store) :=
  let f := k.file file
  let console := (k.node f.node).data.address
  if console = 0#64 then pure (-1, k)
  else if buffer = 0#64 ∧ count ≠ 0#64 then pure (-1, k)
  else do
    let k ← if count ≠ 0#64 then serialWriteUser k buffer count else pure k
    pure (toInt32 count, k.setFile file { f with offset := f.offset + count })

def vfsConsoleInputRead (k : Store) (file buffer count : Word) : UserAccess (Int × Store) :=
  let f := k.file file
  if count = 0#64 then pure (0, k)
  else if k.namespaceConsoleInputData.used ≠ 0 then pure (0, k)
  else do
    let phys ← userStore k.phys buffer k.namespaceConsoleInputData.byte
    let k := { k with
      phys := phys
      namespaceConsoleInputData := { k.namespaceConsoleInputData with used := 1 } }
    pure (1, k.setFile file { f with offset := f.offset + 1#64 })

def vfsConsoleOutputWrite (k : Store) (_file buffer count : Word) : UserAccess (Int × Store) :=
  if buffer = 0#64 ∧ count ≠ 0#64 then pure (-1, k)
  else do
    let k ← if count ≠ 0#64 then serialWriteUser k buffer count else pure k
    pure (toInt32 count, k)

def vfsStaticTextRead (k : Store) (file buffer count : Word) : UserAccess (Int × Store) :=
  let f := k.file file
  let data := (k.node f.node).data.asStaticText
  if count = 0#64 then pure (0, k)
  else if data.length ≤ f.offset then pure (0, k)
  else do
    let available := data.length - f.offset
    let count := if available < count then available else count
    let bytes := (List.range count.toNat).map fun index => data.text (f.offset.toNat + index)
    let phys ← userStoreBytes k.phys buffer bytes
    pure (toInt32 count,
      { k with phys := phys }.setFile file { f with offset := f.offset + count })

/-- `ops->read(file, buffer, count)`; the other tables have no such entry. -/
def VfsNodeOps.read : VfsNodeOps → Store → Word → Word → Word → UserAccess (Int × Store)
  | .fdConsoleInput => fdConsoleInputRead
  | .consoleInput => vfsConsoleInputRead
  | .staticText => vfsStaticTextRead
  | _ => fun k _ _ _ => pure (-1, k)

def VfsNodeOps.write : VfsNodeOps → Store → Word → Word → Word → UserAccess (Int × Store)
  | .fdConsoleOutput => fdConsoleOutputWrite
  | .consoleOutput => vfsConsoleOutputWrite
  | _ => fun k _ _ _ => pure (-1, k)

def vfsFileRead (k : Store) (file buffer count : Word) : UserAccess (Int × Store) :=
  if file = 0#64 ∨ (k.file file).node = .null then pure (-1, k)
  else
    match (k.node (k.file file).node).ops with
    | none => pure (-1, k)
    | some ops =>
      if ¬ ops.hasRead then pure (-1, k)
      else if (k.file file).access &&& vfsAccessRead = 0 then pure (-1, k)
      else ops.read k file buffer count

def vfsFileWrite (k : Store) (file buffer count : Word) : UserAccess (Int × Store) :=
  if file = 0#64 ∨ (k.file file).node = .null then pure (-1, k)
  else
    match (k.node (k.file file).node).ops with
    | none => pure (-1, k)
    | some ops =>
      if ¬ ops.hasWrite then pure (-1, k)
      else if (k.file file).access &&& vfsAccessWrite = 0 then pure (-1, k)
      else ops.write k file buffer count

/-- The image and its size, `none` for -1. -/
def vfsFileExecutableImage (k : Store) (file : Word) : Option (Mem × Word) :=
  if file = 0#64 ∨ (k.file file).node = .null ∨
      (k.node (k.file file).node).kind ≠ .executable then none
  else
    match (k.node (k.file file).node).data.asExecutable with
    | none => none
    | some data =>
      match data.image with
      | none => none
      | some image => if data.size = 0#64 then none else some (image, data.size)

def vfsFindChild (entries : List VfsNamespaceEntry) (name : List Byte) : Option VfsNamespaceEntry :=
  entries.find? fun entry => entry.name = name

/-- `sizeof(component)` in `vfs_walk_path`. -/
def vfsComponentSize : ℕ := 16

/-- The two nested loops of `vfs_walk_path`: `component` holds what was copied of
the current component, the list is the rest of the path up to its NUL. -/
def vfsWalkLoop : List VfsNamespaceEntry → List Byte → List Byte → NodeRef
  | entries, component, [] =>
    if component = [] then .null
    else
      match vfsFindChild entries component with
      | none => .null
      | some entry => entry.node
  | entries, component, c :: rest =>
    if c = 0x2F then
      if component = [] then .null
      else
        match vfsFindChild entries component with
        | none => .null
        | some entry =>
          match entry.children with
          | none => .null
          | some children => if rest = [] then .null else vfsWalkLoop children [] rest
    else if vfsComponentSize ≤ component.length + 1 then .null
    else vfsWalkLoop entries (component ++ [c]) rest

def vfsWalkPath (k : Store) (path : List Byte) : NodeRef :=
  if ¬ k.namespaceReady then .null
  else
    match path with
    | [] => .null
    | c :: rest =>
      if c ≠ 0x2F ∨ rest = [] then .null else vfsWalkLoop k.namespaceRootEntries [] rest

def vfsOpenPath (k : Store) (path : List Byte) (flags : BitVec 32) : Run (Word × Store) :=
  let node := vfsWalkPath k path
  if node = .null then .ok (0#64, k) else vfsFileOpen k node flags

def vfsOpenExecPath (k : Store) (path : List Byte) : Run (Word × Store) :=
  let node := vfsWalkPath k path
  if node = .null ∨ (k.node node).kind ≠ .executable then .ok (0#64, k)
  else vfsMakeFile k node 0

/-- A program that the build embeds in the kernel. -/
structure EmbeddedUserProgram where
  name : List Byte
  image : Option Mem
  size : Word

/-- `none` for a program that cannot be served. -/
def vfsProgramImage (program : EmbeddedUserProgram) : Option VfsExecutableData :=
  if program.image.isSome ∧ program.size ≠ 0#64 then some ⟨program.image, program.size⟩ else none

/-- The bytes of `"platinum\n"`. -/
def bannerText : List Byte := [0x70, 0x6C, 0x61, 0x74, 0x69, 0x6E, 0x75, 0x6D, 0x0A]

def namespaceBannerData : VfsStaticTextData := ⟨fun i => bannerText.getD i 0, 9#64⟩

/-- Size of `namespace_executable_nodes`. -/
def vfsExecutableCapacity : ℕ := 5

/-- The registry loop of `vfs_namespace_initialize`, from program `index` on. -/
def vfsRegisterPrograms : ℕ → List EmbeddedUserProgram → Store → Run (List VfsNamespaceEntry × Store)
  | _, [], k => .ok ([], k)
  | index, program :: rest, k =>
    match vfsProgramImage program with
    | none => .error .halt
    | some data => do
      let node := NodeRef.static (.executable index)
      let k ← vfsNodeInitialize k node .executable (some .executable) (.executable data)
      let (entries, k) ← vfsRegisterPrograms (index + 1) rest k
      .ok (.mk program.name node none :: entries, k)

def vfsNamespaceInitialize (k : Store) (registry : List EmbeddedUserProgram) : Run Store := do
  let k := { k with namespaceConsoleInputData := ⟨0x40, 0⟩ }
  let k ← vfsNodeInitialize k (.static .root) .directory (some .directory) .null
  let k ← vfsNodeInitialize k (.static .dev) .directory (some .directory) .null
  let k ← vfsNodeInitialize k (.static .etc) .directory (some .directory) .null
  let k ← vfsNodeInitialize k (.static .bin) .directory (some .directory) .null
  let k ← vfsNodeInitialize k (.static .consoleInput) .console (some .consoleInput) .consoleInput
  let k ← vfsNodeInitialize k (.static .consoleOutput) .console (some .consoleOutput) .null
  let k ← vfsNodeInitialize k (.static .banner) .staticText (some .staticText)
    (.staticText namespaceBannerData)
  if vfsExecutableCapacity < registry.length then .error .halt
  else
    let (programs, k) ← vfsRegisterPrograms 0 registry k
    .ok { k with
      namespaceRootEntries :=
        [.mk [0x64, 0x65, 0x76] (.static .dev)
          (some [.mk [0x63, 0x6F, 0x6E, 0x73, 0x6F, 0x6C, 0x65] (.static .consoleOutput) none]),
        .mk [0x65, 0x74, 0x63] (.static .etc)
          (some [.mk [0x62, 0x61, 0x6E, 0x6E, 0x65, 0x72] (.static .banner) none]),
        .mk [0x62, 0x69, 0x6E] (.static .bin) (some programs)]
      namespaceReady := true }

end Platinum
