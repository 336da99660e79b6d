import Platinum.Vfs
import Mathlib.Data.Fintype.Fin

/-!
# Descriptor tables

A task's table has sixteen entries; `fd_table_seed_console` gives a fresh table
its console on descriptors 0, 1 and 2.
-/
namespace Platinum
open ByteMemory

inductive FdKind where
  | none
  | placeholder
  | console
  deriving DecidableEq, Repr

structure FdEntry where
  used : BitVec 32
  kind : FdKind
  file : Word
  deriving DecidableEq, Repr

abbrev fdTableCapacity : ℕ := 16

instance fdTableCapacity_neZero : NeZero fdTableCapacity := ⟨by decide⟩

abbrev FdTable := Fin fdTableCapacity → FdEntry

def FdEntry.empty : FdEntry := ⟨0, .none, 0#64⟩

def fdTableInitialize : FdTable := fun _ => .empty

/-- The descriptor, -1 when the table is full. -/
def fdTableInstall (table : FdTable) (kind : FdKind) (file : Word) : Int × FdTable :=
  if kind = .none ∨ file = 0#64 then (-1, table)
  else
    match (List.finRange fdTableCapacity).find? fun index => (table index).used = 0 with
    | none => (-1, table)
    | some index => (index.val, Function.update table index ⟨1, kind, file⟩)

/-- The index of a used entry. -/
def fdIndex (table : FdTable) (fd : Int) : Option (Fin fdTableCapacity) :=
  if h : 0 ≤ fd ∧ fd.toNat < fdTableCapacity then
    if (table ⟨fd.toNat, h.2⟩).used = 0 then none else some ⟨fd.toNat, h.2⟩
  else none

def fdTableGet (table : FdTable) (fd : Int) : Option FdEntry := (fdIndex table fd).map table

def fdTableDup (k : Store) (table : FdTable) (fd : Int) : Run (Int × FdTable × Store) :=
  match fdTableGet table fd with
  | none => .ok (-1, table, k)
  | some entry =>
    match vfsFileRetain k entry.file with
    | (result, k) =>
      if result ≠ 0 then .ok (-1, table, k)
      else
        match fdTableInstall table entry.kind entry.file with
        | (duplicateFd, table) =>
          if duplicateFd < 0 then do
            let (_, k) ← vfsFileClose k entry.file
            .ok (-1, table, k)
          else .ok (duplicateFd, table, k)

def fdTableRead (k : Store) (table : FdTable) (fd : Int) (buffer count : Word) :
    UserAccess (Int × Store) :=
  match fdTableGet table fd with
  | none => pure (-1, k)
  | some entry => vfsFileRead k entry.file buffer count

def fdTableWrite (k : Store) (table : FdTable) (fd : Int) (buffer count : Word) :
    UserAccess (Int × Store) :=
  match fdTableGet table fd with
  | none => pure (-1, k)
  | some entry => vfsFileWrite k entry.file buffer count

def fdTableClose (k : Store) (table : FdTable) (fd : Int) : Run (Int × FdTable × Store) :=
  match fdIndex table fd with
  | none => .ok (-1, table, k)
  | some index => do
    let (result, k) ← vfsFileClose k (table index).file
    .ok (result, Function.update table index .empty, k)

/-- The loop of `fd_table_close_all`. -/
def fdTableCloseLoop : List (Fin fdTableCapacity) → Store → FdTable → Run (FdTable × Store)
  | [], k, table => .ok (table, k)
  | index :: rest, k, table =>
    if (table index).used ≠ 0 then do
      let (_, table, k) ← fdTableClose k table index.val
      fdTableCloseLoop rest k table
    else fdTableCloseLoop rest k table

def fdTableCloseAll (k : Store) (table : FdTable) : Run (FdTable × Store) :=
  fdTableCloseLoop (List.finRange fdTableCapacity) k table

/-- `sizeof` of the two console structures and of `struct vfs_node`. -/
def fdConsoleInputSize : Word := 12#64
def fdConsoleOutputSize : Word := 4#64
def vfsNodeSize : Word := 24#64

/-- Opens and installs the three console files once the nodes are there. -/
def fdSeedFiles (k : Store) (table : FdTable) (inputNode outputNode : NodeRef) :
    Run (Bool × FdTable × Store) := do
  let (inputFile, k) ← vfsFileOpen k inputNode vfsAccessRead
  let (stdoutFile, k) ← vfsFileOpen k outputNode vfsAccessWrite
  let (stderrFile, k) ← vfsFileOpen k outputNode vfsAccessWrite
  let undo (table : FdTable) (k : Store) : Run (Bool × FdTable × Store) := do
    let (_, k) ← vfsFileClose k inputFile
    let (_, k) ← vfsFileClose k stdoutFile
    let (_, k) ← vfsFileClose k stderrFile
    .ok (false, table, k)
  if inputFile = 0#64 ∨ stdoutFile = 0#64 ∨ stderrFile = 0#64 then undo table k
  else
    match fdTableInstall table .console inputFile with
    | (fd, table) =>
      if fd ≠ 0 then undo table k
      else
        match fdTableInstall table .console stdoutFile with
        | (fd, table) =>
          if fd ≠ 1 then undo table k
          else
            match fdTableInstall table .console stderrFile with
            | (fd, table) => if fd ≠ 2 then undo table k else .ok (true, table, k)

def fdTableSeedConsole (k : Store) (table : FdTable) : Run (Bool × FdTable × Store) := do
  let (inputData, k) ← k.kzalloc fdConsoleInputSize
  let (outputData, k) ← k.kzalloc fdConsoleOutputSize
  let (inputNode, k) ← k.kzalloc vfsNodeSize
  let (outputNode, k) ← k.kzalloc vfsNodeSize
  if inputData = 0#64 ∨ outputData = 0#64 ∨ inputNode = 0#64 ∨ outputNode = 0#64 then
    let k ← k.kfree inputData
    let k ← k.kfree outputData
    let k ← k.kfree inputNode
    let k ← k.kfree outputNode
    .ok (false, table, k)
  else
    let k := k.setFdConsoleInput inputData ⟨0, 0x40, 0⟩
    let k := k.setFdConsoleOutput outputData ⟨0⟩
    let k ← vfsNodeInitialize k (.allocated inputNode) .console (some .fdConsoleInput)
      (.allocated inputData)
    let k ← vfsNodeInitialize k (.allocated outputNode) .console (some .fdConsoleOutput)
      (.allocated outputData)
    fdSeedFiles k table (.allocated inputNode) (.allocated outputNode)

end Platinum
