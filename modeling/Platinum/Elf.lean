import Platinum.AddressSpace

/-!
# The ELF loader

An image is a byte string with offsets; the structures are read off it at the
offsets of the 64-bit ELF format. All accepted images are loaded into one fixed
physical window, whose pages are claimed from the allocator unless the running
image already holds them.
-/
namespace Platinum
open ByteMemory WordArith

/-- The header fields that the loader reads. -/
structure Elf64Header where
  ident : ℕ → Byte
  type : BitVec 16
  machine : BitVec 16
  version : BitVec 32
  entry : Word
  phoff : Word
  ehsize : BitVec 16
  phentsize : BitVec 16
  phnum : BitVec 16

/-- The program header fields that the loader reads. -/
structure Elf64ProgramHeader where
  type : BitVec 32
  offset : Word
  vaddr : Word
  filesz : Word
  memsz : Word
  align : Word
  deriving DecidableEq, Repr

def elfHeaderSize : Word := 64#64
def elfUserLoadBase : Word := 0x02100000#64
def elfUserLoadSize : Word := 0x00100000#64
def elfPhdrTypeLoad : BitVec 32 := 1

def elfHeader (image : Mem) : Elf64Header where
  ident := image
  type := load16 image 16
  machine := load16 image 18
  version := load32 image 20
  entry := load64 image 24
  phoff := load64 image 32
  ehsize := load16 image 52
  phentsize := load16 image 54
  phnum := load16 image 56

/-- Entry `index` of the program header table at offset `phoff`. -/
def elfProgramHeader (image : Mem) (phoff : Word) (index : ℕ) : Elf64ProgramHeader where
  type := load32 image (phoff.toNat + 56 * index)
  offset := load64 image (phoff.toNat + 56 * index + 8)
  vaddr := load64 image (phoff.toNat + 56 * index + 16)
  filesz := load64 image (phoff.toNat + 56 * index + 32)
  memsz := load64 image (phoff.toNat + 56 * index + 40)
  align := load64 image (phoff.toNat + 56 * index + 48)

def elfProgramHeaders (image : Mem) (header : Elf64Header) : List Elf64ProgramHeader :=
  (List.range header.phnum.toNat).map (elfProgramHeader image header.phoff)

def alignUp (value : Word) : Word := (value + 4095#64) &&& ~~~4095#64

def rangeFits (size offset count : Word) : Bool :=
  if size < offset then false
  else if size - offset < count then false
  else true

def validateHeader (header : Elf64Header) (imageSize : Word) : Bool :=
  if imageSize < elfHeaderSize then false
  else if header.ident 0 ≠ 0x7F ∨ header.ident 1 ≠ 0x45 ∨ header.ident 2 ≠ 0x4C ∨
      header.ident 3 ≠ 0x46 then false
  else if header.ident 4 ≠ 2 ∨ header.ident 5 ≠ 1 ∨ header.ident 6 ≠ 1 then false
  else if header.type ≠ 2 ∨ header.machine ≠ 62 ∨ header.version ≠ 1 then false
  else if header.ehsize ≠ 64 ∨ header.phentsize ≠ 56 then false
  else rangeFits imageSize header.phoff
    (header.phnum.setWidth 64 * header.phentsize.setWidth 64)

def Elf64ProgramHeader.isLoad (phdr : Elf64ProgramHeader) : Bool := phdr.type = elfPhdrTypeLoad

def validateLoadSegment (imageSize : Word) (phdr : Elf64ProgramHeader) : Bool :=
  if ¬ phdr.isLoad then true
  else if phdr.memsz = 0#64 ∨ phdr.memsz < phdr.filesz then false
  else if ¬ rangeFits imageSize phdr.offset phdr.filesz then false
  else if phdr.vaddr + phdr.memsz < phdr.vaddr then false
  else if 1#64 < phdr.align then
    if phdr.align &&& (phdr.align - 1#64) ≠ 0#64 then false
    else if phdr.vaddr &&& (phdr.align - 1#64) ≠ phdr.offset &&& (phdr.align - 1#64) then false
    else true
  else true

def validateProgramHeaders (phdrs : List Elf64ProgramHeader) (imageSize : Word) : Bool :=
  if phdrs.length = 0 then false
  else if phdrs.all (validateLoadSegment imageSize) then phdrs.countP (·.isLoad) ≠ 0
  else false

/-- One iteration of `compute_load_span`: `none` until a segment was found. -/
def loadSpanStep (span : Option (Word × Word)) (phdr : Elf64ProgramHeader) :
    Option (Word × Word) :=
  if ¬ phdr.isLoad then span
  else
    let begin := phdr.vaddr
    let «end» := phdr.vaddr + phdr.memsz
    match span with
    | none => some (begin, «end»)
    | some (lowest, highest) =>
      some (if begin < lowest then begin else lowest, if highest < «end» then «end» else highest)

def computeLoadSpan (phdrs : List Elf64ProgramHeader) : Option (Word × Word) :=
  match phdrs.foldl loadSpanStep none with
  | none => none
  | some (lowest, highest) =>
    let spanBegin := pageAddress lowest
    let spanEnd := alignUp highest
    if spanBegin < spanEnd then some (spanBegin, spanEnd) else none

def entryInLoadSegment (phdrs : List Elf64ProgramHeader) (entry : Word) : Bool :=
  phdrs.any fun phdr =>
    phdr.isLoad && decide (phdr.vaddr ≤ entry) && decide (entry < phdr.vaddr + phdr.memsz)

def pageInRange (page begin «end» : Word) : Bool :=
  begin ≠ 0#64 && decide (begin ≤ page) && decide (page < «end»)

/-- The undo loop of `claim_window_pages`. -/
def rollbackWindowPages (s : Phys) (reusableBegin reusableEnd : Word) (pages : List Word) : Phys :=
  pages.foldl (fun s page =>
    if pageInRange page reusableBegin reusableEnd then s else pallocFree s page) s

/-- The claim loop over the pages still to come. -/
def claimWindowLoop (loadBegin reusableBegin reusableEnd : Word) :
    Phys → List Word → Run (Bool × Phys)
  | s, [] => .ok (true, s)
  | s, page :: rest =>
    if pageInRange page reusableBegin reusableEnd then
      claimWindowLoop loadBegin reusableBegin reusableEnd s rest
    else do
      match ← pallocTake s page with
      | (true, s) => claimWindowLoop loadBegin reusableBegin reusableEnd s rest
      | (false, s) =>
        .ok (false, rollbackWindowPages s reusableBegin reusableEnd (pageSpan loadBegin page))

def claimWindowPages (s : Phys) (loadBegin loadEnd reusableBegin reusableEnd : Word) :
    Run (Bool × Phys) :=
  claimWindowLoop loadBegin reusableBegin reusableEnd s (pageSpan loadBegin loadEnd)

structure LoadedUserImage where
  loadBegin : Word
  loadEnd : Word
  loadPhysicalBegin : Word
  loadPhysicalEnd : Word
  reusablePhysicalBegin : Word
  reusablePhysicalEnd : Word
  entry : Word
  stackPage : Word
  stackTop : Word
  deriving DecidableEq, Repr

/-- Frees the stack page and the window pages outside the reusable range. -/
def elfReleaseUserImage (s : Phys) (image : LoadedUserImage) : Phys :=
  let s := if image.stackPage ≠ 0#64 then pallocFree s image.stackPage else s
  rollbackWindowPages s image.reusablePhysicalBegin image.reusablePhysicalEnd
    (pageSpan image.loadPhysicalBegin image.loadPhysicalEnd)

def memoryCopy (m : Mem) (dst : ℕ) (src : Mem) (offset count : ℕ) : Mem :=
  (List.range count).foldl (fun m index => store8 m (dst + index) (src (offset + index))) m

def memoryZero (m : Mem) (dst count : ℕ) : Mem :=
  (List.range count).foldl (fun m index => store8 m (dst + index) 0) m

def clearWindow (m : Mem) (loadBegin loadEnd : Word) : Mem :=
  (pageSpan loadBegin loadEnd).foldl (fun m page => memoryZero m page.toNat 4096) m

/-- The memory after the segment, or `none` when it starts below the span. -/
def loadSegment (m : Mem) (image : Mem) (imageVaddrBegin loadBegin : Word)
    (phdr : Elf64ProgramHeader) : Option Mem :=
  if ¬ phdr.isLoad then some m
  else if phdr.vaddr < imageVaddrBegin then none
  else
    let dst := (loadBegin + (phdr.vaddr - imageVaddrBegin)).toNat
    let m := memoryCopy m dst image phdr.offset.toNat phdr.filesz.toNat
    some (memoryZero m (dst + phdr.filesz.toNat) (phdr.memsz - phdr.filesz).toNat)

def loadSegments (m : Mem) (image : Mem) (imageVaddrBegin loadBegin : Word) :
    List Elf64ProgramHeader → Bool × Mem
  | [] => (true, m)
  | phdr :: rest =>
    match loadSegment m image imageVaddrBegin loadBegin phdr with
    | none => (false, m)
    | some m => loadSegments m image imageVaddrBegin loadBegin rest

/-- The mapping loop of `elf_load_user_image`. -/
def mapWindowLoop (addressSpace imageBase loadBegin : Word) : Phys → List ℕ → Run (Bool × Phys)
  | s, [] => .ok (true, s)
  | s, index :: rest => do
    let virtualAddress := imageBase + BitVec.ofNat 64 index * 4096#64
    let physicalAddress := loadBegin + BitVec.ofNat 64 index * 4096#64
    let s ← pagingMapUserPage s addressSpace virtualAddress physicalAddress
    if pagingMappingMatches s.mem addressSpace virtualAddress physicalAddress true then
      mapWindowLoop addressSpace imageBase loadBegin s rest
    else .ok (false, s)

/-- What the static checks establish about an image. -/
structure ElfPlan where
  phdrs : List Elf64ProgramHeader
  entry : Word
  vaddrBegin : Word
  span : Word
  deriving DecidableEq, Repr

/-- The checks of `elf_load_user_image` before it touches any memory. -/
def elfCheck (image : Mem) (imageSize : Word) (layout : UserVirtualLayout) (addressSpace : Word) :
    Option ElfPlan :=
  let header := elfHeader image
  if ¬ validateHeader header imageSize then none
  else
    let phdrs := elfProgramHeaders image header
    if ¬ validateProgramHeaders phdrs imageSize then none
    else
      match computeLoadSpan phdrs with
      | none => none
      | some (imageVaddrBegin, imageVaddrEnd) =>
        if ¬ entryInLoadSegment phdrs header.entry then none
        else if layout.imageBase = 0#64 ∨ layout.stackTop = 0#64 ∨ layout.stackTop ≤ 4096#64 then
          none
        else if addressSpace = 0#64 then none
        else
          let imageSizeAligned := imageVaddrEnd - imageVaddrBegin
          if elfUserLoadSize < imageSizeAligned then none
          else
            let userImageEnd := layout.imageBase + imageSizeAligned
            if userImageEnd < layout.imageBase ∨ layout.stackTop - 4096#64 < userImageEnd then none
            else some ⟨phdrs, header.entry, imageVaddrBegin, imageSizeAligned⟩

/-- Result and, on success, the filled-in `loaded_image`; on failure the image
record is left cleared. -/
def elfLoadUserImage (s : Phys) (image : Mem) (imageSize : Word) (layout : UserVirtualLayout)
    (addressSpace reusableBegin reusableEnd : Word) : Run (Option LoadedUserImage × Phys) :=
  match elfCheck image imageSize layout addressSpace with
  | none => .ok (none, s)
  | some plan => do
    let loadBegin := elfUserLoadBase
    let loadEnd := loadBegin + plan.span
    match ← claimWindowPages s loadBegin loadEnd reusableBegin reusableEnd with
    | (false, s) => .ok (none, s)
    | (true, s) =>
      let claimed : LoadedUserImage :=
        { loadBegin := 0#64, loadEnd := 0#64
          loadPhysicalBegin := loadBegin, loadPhysicalEnd := loadEnd
          reusablePhysicalBegin := reusableBegin, reusablePhysicalEnd := reusableEnd
          entry := 0#64, stackPage := 0#64, stackTop := 0#64 }
      match loadSegments (clearWindow s.mem loadBegin loadEnd) image plan.vaddrBegin loadBegin
          plan.phdrs with
      | (false, m) => .ok (none, elfReleaseUserImage { s with mem := m } claimed)
      | (true, m) =>
        let count := ((loadEnd - loadBegin) / 4096#64).toNat % 2 ^ 16
        match ← mapWindowLoop addressSpace layout.imageBase loadBegin { s with mem := m }
            (List.range count) with
        | (false, s) => .ok (none, elfReleaseUserImage s claimed)
        | (true, s) =>
          match pallocAlloc s with
          | (userStackPage, s) =>
            if userStackPage = 0#64 then .ok (none, elfReleaseUserImage s claimed)
            else
              let stacked := { claimed with
                stackPage := userStackPage
                stackTop := layout.stackTop }
              let s ← pagingMapUserPage s addressSpace (layout.stackTop - 4096#64) userStackPage
              if ¬ pagingMappingMatches s.mem addressSpace (layout.stackTop - 4096#64)
                  userStackPage true then .ok (none, elfReleaseUserImage s stacked)
              else .ok (some { stacked with
                loadBegin := layout.imageBase
                loadEnd := layout.imageBase + plan.span
                entry := layout.imageBase + (plan.entry - plan.vaddrBegin) }, s)

end Platinum
