import Platinum.Palloc
import Platinum.BlockList

/-!
# The kernel heap

Block headers form a doubly linked list through whole pages taken from the page
allocator. Headers are kept by address; payloads belong to the objects stored in
them. `HeapList` reads the headers as a list of blocks.
-/
namespace Platinum
open ByteMemory BlockList

def heapPageSize : Word := 4096#64
def heapAlign : Word := 16#64
def heapMagic : BitVec 32 := 0x48454150#32
/-- `sizeof(struct heap_block)`. -/
def heapHeaderSize : Word := 32#64

/-- `struct heap_block`. -/
structure HeapBlock where
  magic : BitVec 32
  free : BitVec 32
  size : Word
  next : Word
  prev : Word
  deriving DecidableEq, Repr

structure Heap where
  head : Word
  block : Word → HeapBlock

/-- `heap_initialize`. -/
def heapInitialize (h : Heap) : Heap := { h with head := 0#64 }

namespace Heap

def set (h : Heap) (address : Word) (b : HeapBlock) : Heap :=
  { h with block := Function.update h.block address b }

def setNext (h : Heap) (address next : Word) : Heap :=
  h.set address { h.block address with next := next }

/-- `if (block != NULL) block->prev = prev`. -/
def setPrev (h : Heap) (address prev : Word) : Heap :=
  if address = 0#64 then h else h.set address { h.block address with prev := prev }

def setSize (h : Heap) (address size : Word) : Heap :=
  h.set address { h.block address with size := size }

def setFree (h : Heap) (address : Word) (free : BitVec 32) : Heap :=
  h.set address { h.block address with free := free }

variable {h : Heap} {x y : Word} {v : HeapBlock}

@[simp] lemma set_block_same (h : Heap) (x : Word) (v : HeapBlock) : (h.set x v).block x = v :=
  Function.update_self _ _ _

lemma set_block_ne (hy : y ≠ x) : (h.set x v).block y = h.block y := Function.update_of_ne hy _ _

lemma setPrev_block_ne {q : Word} (hy : y ≠ x) : (h.setPrev x q).block y = h.block y := by
  unfold setPrev
  split_ifs
  · rfl
  · exact set_block_ne hy

@[simp] lemma set_head (h : Heap) (x : Word) (v : HeapBlock) : (h.set x v).head = h.head := rfl

@[simp] lemma setPrev_head (h : Heap) (x q : Word) : (h.setPrev x q).head = h.head := by
  unfold setPrev
  split_ifs <;> rfl

/-- Writing a block's fields one after the other is writing its header. -/
lemma setFields (h : Heap) (x size next : Word) (free : BitVec 32) :
    ((h.setSize x size).setNext x next).setFree x free =
      h.set x { h.block x with free := free, size := size, next := next } := by
  simp [setFree, setNext, setSize, set]

end Heap

/-- Rounds up to the alignment, with the 32-bit mask of the source. -/
def heapAlignUp (value : Word) : Word := (value + (heapAlign - 1#64)) &&& 0xFFFFFFF0#64

def blockEnd (h : Heap) (block : Word) : Word := block + heapHeaderSize + (h.block block).size

def blocksTouch (h : Heap) (left right : Word) : Bool := blockEnd h left = right

def splitBlock (h : Heap) (block size : Word) : Heap :=
  if (h.block block).size ≤ size + heapHeaderSize + heapAlign then h
  else
    let remaining := (h.block block).size - size - heapHeaderSize
    let next := block + heapHeaderSize + size
    let after := (h.block block).next
    let h := h.set next ⟨heapMagic, 1, remaining, after, block⟩
    let h := h.setPrev after next
    (h.setSize block size).setNext block next

/-- The loop of `coalesce_forward`. -/
def coalesceForwardLoop (block : Word) : ℕ → Heap → Run Heap
  | 0, _ => .error .diverge
  | fuel + 1, h =>
    let next := (h.block block).next
    if next ≠ 0#64 ∧ (h.block next).magic = heapMagic ∧ (h.block next).free ≠ 0 ∧
        blocksTouch h block next then
      let h := h.setSize block ((h.block block).size + (heapHeaderSize + (h.block next).size))
      let h := h.setNext block (h.block next).next
      coalesceForwardLoop block fuel (h.setPrev (h.block block).next block)
    else .ok h

def coalesceForward (h : Heap) (block : Word) : Run Heap := coalesceForwardLoop block linkFuel h

/-- The scan of `insert_block_sorted`: the neighbours of the new block. -/
def insertScan (h : Heap) (block : Word) : ℕ → Word → Word → Run (Word × Word)
  | 0, _, _ => .error .diverge
  | fuel + 1, previous, current =>
    if current ≠ 0#64 ∧ current < block then insertScan h block fuel current (h.block current).next
    else .ok (previous, current)

/-- The neighbour test of `insert_block_sorted` and `kfree`. -/
def prevMergeable (h : Heap) (block : Word) : Bool :=
  let prev := (h.block block).prev
  prev ≠ 0#64 && (h.block prev).magic = heapMagic && (h.block prev).free ≠ 0 &&
    blocksTouch h prev block

/-- Returns the block that now holds the inserted one. -/
def insertBlockSorted (h : Heap) (block : Word) : Run (Word × Heap) := do
  let (previous, current) ← insertScan h block linkFuel 0#64 h.head
  let h := h.set block { h.block block with prev := previous, next := current }
  let h := if previous ≠ 0#64 then h.setNext previous block else { h with head := block }
  let h := h.setPrev current block
  if prevMergeable h block then
    let prev := (h.block block).prev
    let h ← coalesceForward h prev
    .ok (prev, h)
  else
    let h ← coalesceForward h block
    .ok (block, h)

/-- Returns 0 when the request exceeds a page or no page is free. -/
def growHeap (h : Heap) (s : Phys) (size : Word) : Run (Word × Heap × Phys) :=
  let capacity := heapPageSize - heapHeaderSize
  if capacity < size then .ok (0#64, h, s)
  else
    match pallocAlloc s with
    | (page, s) =>
      if page = 0#64 then .ok (0#64, h, s)
      else do
        let (block, h) ← insertBlockSorted (h.set page ⟨heapMagic, 1, capacity, 0#64, 0#64⟩) page
        .ok (block, h, s)

def findBlockLoop (h : Heap) (size : Word) : ℕ → Word → Run Word
  | 0, _ => .error .diverge
  | fuel + 1, block =>
    if block = 0#64 then .ok 0#64
    else if (h.block block).magic ≠ heapMagic then .error .halt
    else if (h.block block).free ≠ 0 ∧ size ≤ (h.block block).size then .ok block
    else findBlockLoop h size fuel (h.block block).next

def findBlock (h : Heap) (size : Word) : Run Word := findBlockLoop h size linkFuel h.head

def kmalloc (h : Heap) (s : Phys) (size : Word) : Run (Word × Heap × Phys) :=
  if size = 0#64 then .ok (0#64, h, s)
  else do
    let size := heapAlignUp size
    let found ← findBlock h size
    let (block, h, s) ← if found = 0#64 then growHeap h s size else .ok (found, h, s)
    if block = 0#64 then .ok (0#64, h, s)
    else .ok (block + heapHeaderSize, (splitBlock h block size).setFree block 0, s)

/-- The field at `field` after `ptr[index] = 0` for every `index` below `size`. -/
def clearField (ptr size : Word) {w : ℕ} (field : Word) (v : BitVec w) : BitVec w :=
  (List.range (w / 8)).foldl (fun v i =>
    if field + BitVec.ofNat 64 i - ptr < size then v &&& ~~~(0xFF#w <<< (8 * i)) else v) v

/-- The headers after the bytes from `ptr` on are cleared. -/
def Heap.clear (h : Heap) (ptr size : Word) : Heap :=
  { h with block := fun x =>
      ⟨clearField ptr size x (h.block x).magic, clearField ptr size (x + 4#64) (h.block x).free,
        clearField ptr size (x + 8#64) (h.block x).size, clearField ptr size (x + 16#64) (h.block x).next,
        clearField ptr size (x + 24#64) (h.block x).prev⟩ }

/-- The payload is an object that the caller fills in; of the cleared bytes only
those of headers are kept. -/
def kzalloc (h : Heap) (s : Phys) (size : Word) : Run (Word × Heap × Phys) := do
  let (ptr, h, s) ← kmalloc h s size
  if ptr = 0#64 then .ok (0#64, h, s) else .ok (ptr, h.clear ptr size, s)

def kfree (h : Heap) (ptr : Word) : Run Heap :=
  if ptr = 0#64 then .ok h
  else
    let block := ptr - heapHeaderSize
    if (h.block block).magic ≠ heapMagic ∨ (h.block block).free ≠ 0 then .error .halt
    else do
      let h ← coalesceForward (h.setFree block 1) block
      if prevMergeable h block then coalesceForward h (h.block block).prev else .ok h

end Platinum
