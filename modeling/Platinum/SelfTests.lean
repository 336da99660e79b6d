import Platinum.ExecNames
import Platinum.KernelMain
import Platinum.MemmapCapture
import Platinum.PallocRun

/-!
# From the firmware to the namespace

`kernel_main` takes the memory map over, hands the largest region to the page allocator, tests
it and the heap and builds the namespace. The tests give back all they take, so the free pages
are those of the region less the heap's.
-/
namespace Platinum
open ByteMemory BlockList

/-- The two pages of the test, tried and given back. -/
def pallocSelfTest (k : Store) : Store :=
  let k := (k.serialWrite (asciiText "palloc region ")).serialWrite (hexText k.phys.allocRegionBegin)
  let k := ((k.serialWrite (asciiText " ")).serialWrite (hexText k.phys.allocRegionEnd)).serialWrite (asciiText "\r\n")
  let k := (k.serialWrite (asciiText "palloc pages ")).serialWrite (decimalText k.phys.freePageCount.toNat)
  let k := k.serialWrite (asciiText "\r\n")
  let (first, s) := pallocAlloc k.phys
  let (second, s) := pallocAlloc s
  let k := { k with phys := s }
  if first = 0#64 ∨ second = 0#64 then k.serialWrite (asciiText "palloc fail\r\n")
  else
    let k := k.serialWrite (asciiText "palloc ok\r\n")
    let k := ((k.serialWrite (asciiText "page ")).serialWrite (hexText first)).serialWrite (asciiText "\r\n")
    let k := ((k.serialWrite (asciiText "page ")).serialWrite (hexText second)).serialWrite (asciiText "\r\n")
    let k := { k with phys := pallocFree (pallocFree k.phys second) first }
    k.serialWrite (asciiText "free ok\r\n")

/-- The bytes of `third` that the test looks at are those that `kzalloc` has cleared. -/
def heapSelfTest (k : Store) : Run Store := do
  let (first, h, s) ← kmalloc k.heap k.phys 32#64
  let (second, h, s) ← kmalloc h s 64#64
  let (third, h, s) ← kzalloc h s 24#64
  if first = 0#64 ∨ second = 0#64 ∨ third = 0#64 then
    .ok ({ k with heap := h, phys := s }.serialWrite (asciiText "heap fail\r\n"))
  else
    let h ← kfree h second
    let h ← kfree h first
    let (merged, h, s) ← kmalloc h s 80#64
    if merged = 0#64 then .ok ({ k with heap := h, phys := s }.serialWrite (asciiText "heap fail\r\n"))
    else
      let h ← kfree h merged
      let h ← kfree h third
      .ok ({ k with heap := h, phys := s }.serialWrite (asciiText "heap ok\r\n"))

/-- `kernel_main` up to the namespace. -/
def kernelMemory {F : Type} (services : EfiBootServices F) (imageHandle : Word) (registry : List EmbeddedUserProgram)
    (m : MemmapStatics) (firmware : F) (k : Store) : Run (Store × F) := do
  let k := k.serialWrite (asciiText "kernel_main\r\nefi live\r\n")
  let (exited, m, firmware) ← memmapCaptureAndExit services imageHandle m firmware
  if exited = false then .error .halt
  else
    let k := { k with phys := { k.phys with memmap := m.memmap } }
    let k := (k.serialWrite (memmapSummary m)).serialWrite (asciiText "exit ok\r\ngdt ok\r\nidt ok\r\n")
    let k := pallocSelfTest { k with phys := pallocInitialize k.phys }
    let k ← heapSelfTest { k with heap := heapInitialize k.heap }
    let k ← vfsNamespaceInitialize k registry
    .ok (k, firmware)

section Palloc

variable {k : Store} {l : List Word}

/-- With a single free page the test keeps it. -/
lemma pallocSelfTest_spec (hl : FreeList k.phys l) : ∃ s serial,
    pallocSelfTest k = { k with phys := s, serial := serial } ∧ SameGlobals k.phys s ∧
      FreeList s (if l.length = 1 then [] else l) := by
  unfold pallocSelfTest
  dsimp only [Store.serialWrite]
  rcases l with _ | ⟨first, _ | ⟨second, l⟩⟩
  · rw [pallocAlloc_nil hl]
    dsimp only
    rw [pallocAlloc_nil hl]
    dsimp only
    rw [if_pos (.inl rfl)]
    exact ⟨_, _, rfl, .refl _, hl⟩
  · obtain ⟨s₁, hfirst, hl₁, -, hg₁⟩ := pallocAlloc_cons hl
    rw [hfirst]
    dsimp only
    rw [pallocAlloc_nil hl₁]
    dsimp only
    rw [if_pos (.inr rfl)]
    exact ⟨_, _, rfl, hg₁, hl₁⟩
  · obtain ⟨s₁, hfirst, hl₁, -, hg₁⟩ := pallocAlloc_cons hl
    obtain ⟨s₂, hsecond, hl₂, -, hg₂⟩ := pallocAlloc_cons hl₁
    have hpage : IsPage first := hl.pages _ List.mem_cons_self
    have hpage₂ : IsPage second := hl₁.pages _ List.mem_cons_self
    have hno := (List.nodup_cons.mp hl.nodup).1
    have hno₂ := (List.nodup_cons.mp hl₁.nodup).1
    rw [hfirst]
    dsimp only
    rw [hsecond]
    dsimp only
    rw [if_neg (not_or.mpr ⟨hpage.ne_zero, hpage₂.ne_zero⟩)]
    refine ⟨_, _, rfl, (hg₁.trans hg₂).trans ?_, ?_⟩
    · rw [pallocFree, if_neg hpage.ne_zero, pallocFree, if_neg hpage₂.ne_zero]
      exact (pushFree_globals s₂ second).trans (pushFree_globals _ first)
    · rw [if_neg (by simp)]
      exact pallocFree_list (pallocFree_list hl₂ hpage₂ hno₂) hpage hno

end Palloc

section Heap

variable {k : Store} {s s' : Phys} {l pages ptrs rest : List Word} {h : Heap} {L : List Block}
  {ptr : Word} {n : ℕ} {x : Run (Word × Heap × Phys)}

/-- The heap after calls that have taken the pages `taken`. -/
structure HeapTook (s s' : Phys) (l pages taken ptrs : List Word) (h : Heap) : Prop where
  state : ∃ L l', HeapState h s' (taken.reverse ++ pages) ptrs L l' ∧ l = taken ++ l'
  globals : SameGlobals s s'

lemma HeapState.took (hs : HeapState h s pages ptrs L l) : HeapTook s s l pages [] ptrs h :=
  ⟨⟨L, l, hs, rfl⟩, .refl _⟩

/-- A request of at most a page is served as long as pages are free. -/
lemma HeapTook.alloc {taken : List Word} (ht : HeapTook s s' l pages taken ptrs h)
    (hout : ∀ L l', HeapState h s' (taken.reverse ++ pages) ptrs L l' →
      MallocOutcome h s' (taken.reverse ++ pages) l' L n x) (hn : n ≤ 4064) :
    ∃ ptr h₁ s₁ taken₁, x = .ok (ptr, h₁, s₁) ∧ HeapTook s s₁ l pages taken₁ (handOut ptr ptrs) h₁ ∧
      taken₁.length ≤ taken.length + 1 ∧ (ptr = 0#64 → l.length ≤ taken.length) := by
  obtain ⟨⟨L, l', hs, rfl⟩, hg⟩ := ht
  have hout := hout L l' hs
  have hafter {ptr : Word} {h₁ : Heap} {s₁ : Phys} (hx : x = .ok (ptr, h₁, s₁)) := hs.malloc (hx ▸ hout)
  cases hout with
  | none hfit hno =>
    obtain rfl := hno.resolve_right (by omega)
    refine ⟨0#64, h, s', taken, rfl, ⟨⟨L, [], ?_, rfl⟩, hg⟩, by omega, fun _ => by simp⟩
    rw [handOut, if_pos rfl]
    exact hs
  | @found h₁ C D L' b hfit inv hlive hlive' hb hsize =>
    obtain ⟨L₁, l₁, hs₁⟩ := hafter rfl
    rw [pagesTaken_self, List.nil_append] at hs₁
    have hmem : b ∈ L' := (mem_live.mp (by rw [hlive']; simp)).1
    refine ⟨_, h₁, s', taken, rfl, ⟨⟨L₁, l₁, hs₁, ?_⟩, hg⟩, by omega, fun h0 => ?_⟩
    · rw [hs₁.free.unique hs.free]
    · exact absurd h0 (inv.list.payload_ne_zero hmem)
  | @grown h₁ s₁ p l' C D L' b hfit hl hn inv hlive hlive' hb hsize free mem globals =>
    obtain ⟨L₁, l₁, hs₁⟩ := hafter rfl
    subst hl
    have hmem : b ∈ L' := (mem_live.mp (by rw [hlive']; simp)).1
    rw [pagesTaken_cons hs.free free] at hs₁
    obtain rfl := hs₁.free.unique free
    refine ⟨_, h₁, s₁, taken ++ [p], rfl, ⟨⟨L₁, l₁, ?_, by simp⟩, hg.trans globals⟩, by simp,
      fun h0 => ?_⟩
    · rw [List.reverse_append, List.reverse_singleton, List.singleton_append]
      exact hs₁
    · exact absurd h0 (inv.list.payload_ne_zero hmem)

lemma HeapTook.free {taken : List Word} (ht : HeapTook s s' l pages taken ptrs h)
    (hp : ptrs.Perm (ptr :: rest)) :
    ∃ h₁, kfree h ptr = .ok h₁ ∧ HeapTook s s' l pages taken rest h₁ := by
  obtain ⟨⟨L, l', hs, hl⟩, hg⟩ := ht
  obtain ⟨h₁, L₁, hrun, hs₁⟩ := hs.kfree (hp.mem_iff.mpr List.mem_cons_self)
  have hrest : (ptrs.erase ptr).Perm rest := by
    have he := hp.erase ptr
    rwa [List.erase_cons_head] at he
  exact ⟨h₁, hrun, ⟨L₁, l', { hs₁ with handed := hs₁.handed.trans hrest }, hl⟩, hg⟩

/-- What is handed out lies on a page of the heap. -/
lemma HeapState.pages_ne_nil (hs : HeapState h s pages ptrs L l) (hptr : ptr ∈ ptrs) :
    pages ≠ [] := by
  obtain ⟨b, hb, rfl⟩ := List.mem_map.mp (hs.handed.mem_iff.mpr hptr)
  have hstop : b.stop 32 = b.addr + 32 + b.size := rfl
  obtain ⟨p, hp, -⟩ := (hs.inv.tiles b.addr).mp ⟨b, (mem_live.mp hb).1, le_rfl, by omega⟩
  exact List.ne_nil_of_mem hp

/-- Whatever the heap holds, four free pages are enough for the test, and what it takes it gives
back. Where it fails, no page is left. -/
lemma heapSelfTest_spec (hs : HeapState k.heap k.phys pages ptrs L l) : ∃ h s serial taken ptrs',
    heapSelfTest k = .ok { k with heap := h, phys := s, serial := serial } ∧
    HeapTook k.phys s l pages taken ptrs' h ∧ taken.length ≤ 4 ∧
    (4 ≤ l.length → ptrs' = ptrs ∧ taken.reverse ++ pages ≠ [] ∧
      serial = k.serial ++ asciiText "heap ok\r\n") := by
  have h32 : (heapAlignUp 32#64).toNat ≤ 4064 := by decide
  have h64 : (heapAlignUp 64#64).toNat ≤ 4064 := by decide
  have h24 : (heapAlignUp 24#64).toNat ≤ 4064 := by decide
  have h80 : (heapAlignUp 80#64).toNat ≤ 4064 := by decide
  obtain ⟨first, h₁, s₁, taken₁, hfirst, ht₁, hlen₁, hno₁⟩ := hs.took.alloc
    (fun L l' hs => kmalloc_spec hs.inv hs.free hs.apart (by decide)) h32
  obtain ⟨second, h₂, s₂, taken₂, hsecond, ht₂, hlen₂, hno₂⟩ := ht₁.alloc
    (fun L l' hs => kmalloc_spec hs.inv hs.free hs.apart (by decide)) h64
  obtain ⟨third, h₃, s₃, taken₃, hthird, ht₃, hlen₃, hno₃⟩ := ht₂.alloc
    (fun L l' hs => kzalloc_spec hs.inv hs.free hs.apart (by decide) (by decide)) h24
  rw [List.length_nil, Nat.zero_add] at hlen₁
  unfold heapSelfTest
  rw [hfirst, ok_bind]
  dsimp only
  rw [hsecond, ok_bind]
  dsimp only
  rw [hthird, ok_bind]
  dsimp only
  by_cases hnull : first = 0#64 ∨ second = 0#64 ∨ third = 0#64
  · rw [if_pos hnull]
    refine ⟨_, _, _, taken₃, _, rfl, ht₃, by omega, fun hfour => ?_⟩
    rcases hnull with h0 | h0 | h0
    · have hfew := hno₁ h0
      rw [List.length_nil] at hfew
      omega
    · have hfew := hno₂ h0
      omega
    · have hfew := hno₃ h0
      omega
  obtain ⟨hfirst0, hrest⟩ := not_or.mp hnull
  obtain ⟨hsecond0, hthird0⟩ := not_or.mp hrest
  rw [handOut, if_neg hthird0, handOut, if_neg hsecond0, handOut, if_neg hfirst0] at ht₃
  obtain ⟨h₄, hfree₄, ht₄⟩ := ht₃.free (.swap second third _)
  obtain ⟨h₅, hfree₅, ht₅⟩ := ht₄.free (.swap first third ptrs)
  obtain ⟨merged, h₆, s₆, taken₆, hmerged, ht₆, hlen₆, hno₆⟩ := ht₅.alloc
    (fun L l' hs => kmalloc_spec hs.inv hs.free hs.apart (by decide)) h80
  rw [if_neg hnull, hfree₄, ok_bind, hfree₅, ok_bind, hmerged, ok_bind]
  dsimp only
  by_cases hmerged0 : merged = 0#64
  · rw [if_pos hmerged0]
    refine ⟨_, _, _, taken₆, _, rfl, ht₆, by omega, fun hfour => ?_⟩
    have hfew := hno₆ hmerged0
    omega
  rw [handOut, if_neg hmerged0] at ht₆
  obtain ⟨h₇, hfree₇, ht₇⟩ := ht₆.free (.refl _)
  obtain ⟨h₈, hfree₈, ht₈⟩ := ht₇.free (.refl _)
  rw [if_neg hmerged0, hfree₇, ok_bind, hfree₈, ok_bind]
  refine ⟨_, _, _, taken₆, ptrs, rfl, ht₈, by omega, fun _ => ⟨rfl, ?_, rfl⟩⟩
  obtain ⟨⟨L, l', hs₆, -⟩, -⟩ := ht₆
  exact hs₆.pages_ne_nil List.mem_cons_self

end Heap

/-- The images that programs of the namespace may have. -/
def OffersOnly (P : Mem → Word → Prop) (k : Store) : Prop :=
  ∀ n image size, nodeImage (k.node (.static n)) = some (image, size) → P image size

/-- A region of whole pages in one conventional region of the map; none has more of them between
the bounds of the page allocator. -/
structure LargestOf (map : List EfiMemoryDescriptor) (regionBegin regionEnd : ℕ) : Prop where
  begin_aligned : regionBegin % 4096 = 0
  end_aligned : regionEnd % 4096 = 0
  low : 0x02000000 ≤ regionBegin
  high : regionEnd ≤ 0x100000000
  within : ∃ d ∈ map, d.type = efiConventionalMemory ∧ d.physicalStart.toNat ≤ regionBegin ∧
    regionEnd ≤ d.physicalStart.toNat + 4096 * d.numberOfPages.toNat
  largest : ∀ d ∈ map, d.type = efiConventionalMemory →
    (wholePages d 0x02000000 0x100000000).card ≤ (regionEnd - regionBegin) / 4096

/-- What the firmware says of its regions. -/
def RegionsValid (map : List EfiMemoryDescriptor) : Prop :=
  ∀ d ∈ map, d.physicalStart.toNat % 4096 = 0 ∧ d.physicalStart.toNat + 4096 * d.numberOfPages.toNat < 2 ^ 64

section Namespace

variable {P : Mem → Word → Prop} {k : Store} {registry : List EmbeddedUserProgram}
  {n : NamespaceNode} {v : VfsNode} {map : List EfiMemoryDescriptor}

lemma OffersOnly.setNode (h : OffersOnly P k)
    (hv : ∀ image size, nodeImage v = some (image, size) → P image size) :
    OffersOnly P (k.setNode (.static n) v) := by
  intro n' image size himage
  by_cases hn : NodeRef.static n' = .static n
  · rw [hn, Store.setNode_same] at himage
    exact hv image size himage
  · rw [Store.setNode_ne _ hn] at himage
    exact h n' image size himage

lemma vfsRegisterPrograms_offers (h : OffersOnly P k)
    (hserved : ∀ p ∈ registry, (vfsProgramImage p).isSome)
    (hP : ∀ p ∈ registry, ∀ image, p.image = some image → P image p.size) (index : ℕ) :
    ∃ entries k', vfsRegisterPrograms index registry k = .ok (entries, k') ∧ OffersOnly P k' := by
  induction registry generalizing index k with
  | nil => exact ⟨[], k, rfl, h⟩
  | cons p registry ih =>
    obtain ⟨data, hdata⟩ := Option.isSome_iff_exists.mp (hserved p List.mem_cons_self)
    obtain ⟨image, himage, -, rfl⟩ := vfsProgramImage_ok hdata
    have hset : OffersOnly P (k.setNode (.static (.executable index))
        ⟨.executable, 0, some .executable, .executable ⟨some image, p.size⟩⟩) := by
      refine h.setNode fun image' size hnode => ?_
      have hsame : image = image' ∧ p.size = size := by
        simp only [nodeImage, NodeData.asExecutable] at hnode
        split_ifs at hnode
        simpa using hnode
      obtain ⟨rfl, rfl⟩ := hsame
      exact hP p List.mem_cons_self image himage
    obtain ⟨entries, k', hrun, hk'⟩ := ih hset (fun q hq => hserved q (List.mem_cons_of_mem _ hq))
      (fun q hq => hP q (List.mem_cons_of_mem _ hq)) (index + 1)
    refine ⟨.mk p.name (.static (.executable index)) none :: entries, k', ?_, hk'⟩
    unfold vfsRegisterPrograms
    rw [hdata]
    dsimp only
    rw [vfsNodeInitialize_eq _ _ _ (by simp) (by simp), ok_bind, hrun, ok_bind]

lemma OffersOnly.initialize (h : OffersOnly P k) (n : NamespaceNode) {kind : VfsNodeKind}
    (hkind : kind ≠ .none) (ops : VfsNodeOps) {data : NodeData} (hdata : data.asExecutable = none) :
    ∃ k', vfsNodeInitialize k (.static n) kind (some ops) data = .ok k' ∧ OffersOnly P k' := by
  refine ⟨_, vfsNodeInitialize_eq k ops data (by simp) hkind,
    h.setNode fun image size hnode => ?_⟩
  unfold nodeImage at hnode
  rw [hdata] at hnode
  cases hnode

/-- The namespace of programs that fit is built, and has no other programs. -/
lemma vfsNamespaceInitialize_offers (h : OffersOnly P k) (hlen : registry.length ≤ vfsExecutableCapacity)
    (hserved : ∀ p ∈ registry, (vfsProgramImage p).isSome)
    (hP : ∀ p ∈ registry, ∀ image, p.image = some image → P image p.size) :
    ∃ k', vfsNamespaceInitialize k registry = .ok k' ∧ OffersOnly P k' := by
  have h₀ : OffersOnly P { k with namespaceConsoleInputData := ⟨0x40, 0⟩ } := h
  have hkind : VfsNodeKind.directory ≠ .none := by decide
  have hconsole : VfsNodeKind.console ≠ .none := by decide
  have htext : VfsNodeKind.staticText ≠ .none := by decide
  have hnull : NodeData.null.asExecutable = none := rfl
  obtain ⟨k₁, hroot, h₁⟩ := h₀.initialize .root hkind .directory hnull
  obtain ⟨k₂, hdev, h₂⟩ := h₁.initialize .dev hkind .directory hnull
  obtain ⟨k₃, hetc, h₃⟩ := h₂.initialize .etc hkind .directory hnull
  obtain ⟨k₄, hbin, h₄⟩ := h₃.initialize .bin hkind .directory hnull
  obtain ⟨k₅, hinput, h₅⟩ := h₄.initialize .consoleInput hconsole .consoleInput
    (show NodeData.consoleInput.asExecutable = none from rfl)
  obtain ⟨k₆, houtput, h₆⟩ := h₅.initialize .consoleOutput hconsole .consoleOutput hnull
  obtain ⟨k₇, hbanner, h₇⟩ := h₆.initialize .banner htext .staticText
    (show (NodeData.staticText namespaceBannerData).asExecutable = none from rfl)
  obtain ⟨entries, k₈, hprograms, h₈⟩ := vfsRegisterPrograms_offers h₇ hserved hP 0
  unfold vfsNamespaceInitialize
  dsimp only
  rw [hroot, ok_bind, hdev, ok_bind, hetc, ok_bind, hbin, ok_bind, hinput, ok_bind, houtput,
    ok_bind, hbanner, ok_bind, if_neg (by omega), hprograms, ok_bind]
  exact ⟨_, rfl, h₈⟩

/-- A page outside the conventional regions is none of the region's. -/
lemma LargestOf.ne_of_outside {regionBegin regionEnd : ℕ} {code p : Word}
    (h : LargestOf map regionBegin regionEnd)
    (hcode : ∀ d ∈ map, d.type = efiConventionalMemory → code.toNat < d.physicalStart.toNat ∨
      d.physicalStart.toNat + 4096 * d.numberOfPages.toNat ≤ code.toNat)
    (hlo : regionBegin ≤ p.toNat) (hhi : p.toNat < regionEnd) : p ≠ code := by
  rintro rfl
  obtain ⟨d, hd, htype, hstart, hend⟩ := h.within
  rcases hcode d hd htype with hlt | hge
  · omega
  · omega

/-- `palloc_initialize` of a map with a region of some whole pages takes a largest one. -/
lemma pallocInitialize_largest {s : Phys} (hm : ∀ i, memmapGetDescriptor s.memmap i = map[i]?)
    (hcount : s.memmap.descriptorCount = map.length) (hvalid : RegionsValid map)
    (hpages : ∃ d ∈ map, d.type = efiConventionalMemory ∧ 0 < (wholePages d 0x02000000 0x100000000).card) :
    ∃ l, PallocInitial (pallocInitialize s) l ∧ (pallocInitialize s).memmap = s.memmap ∧
      LargestOf map (pallocInitialize s).allocRegionBegin.toNat (pallocInitialize s).allocRegionEnd.toNat := by
  have hmem {i : ℕ} {d : EfiMemoryDescriptor} (hd : memmapGetDescriptor s.memmap i = some d) : d ∈ map := by
    rw [hm] at hd
    exact List.mem_of_getElem? hd
  have hv : MemmapValid s.memmap := fun i d hd => hvalid d (hmem hd)
  have hscan : Scanned s.memmap pallocLowCutoff pallocHighLimit s.memmap.descriptorCount _ :=
    findLargestLoop_scanned hv (by decide) s.memmap.descriptorCount
  have hlargest : ∀ d ∈ map, d.type = efiConventionalMemory → (wholePages d 0x02000000 0x100000000).card ≤
      (findLargestLoop s.memmap pallocLowCutoff pallocHighLimit s.memmap.descriptorCount).pages.toNat := by
    intro d hd htype
    obtain ⟨i, hi, hget⟩ := List.mem_iff_getElem.mp hd
    exact hscan.largest i (hcount ▸ hi) d (by rw [hm, List.getElem?_eq_getElem hi, hget]) htype
  obtain ⟨l, hinitial, -, -, hmemmap, hregion⟩ := pallocInitialize_spec s hv
  refine ⟨l, hinitial, hmemmap, ?_⟩
  obtain ⟨d, hd, htype, hpos⟩ := hpages
  have hsome := hlargest d hd htype
  have hne : (findLargestLoop s.memmap pallocLowCutoff pallocHighLimit
      s.memmap.descriptorCount).pages ≠ 0 := by
    intro h0
    rw [h0, show (0 : Word).toNat = 0 from rfl] at hsome
    omega
  have hfind :
      memmapFindLargestConventionalRegion s.memmap pallocLowCutoff pallocHighLimit = (true, _, _) :=
    if_neg hne
  obtain ⟨hr, hend⟩ := hscan.region hne
  rcases hregion with ⟨hnone, -⟩ | ⟨r, hr', hb, he, -⟩
  · rw [hfind] at hnone
    cases hnone
  · obtain ⟨hb', he'⟩ := Prod.mk.inj (Prod.mk.inj (hfind.symm.trans hr')).2
    rw [← hb, ← he, ← hb', ← he']
    obtain ⟨i, d', hd', htype', hstart, hle⟩ := hr.descriptor
    refine ⟨hr.begin_aligned, hr.end_aligned, hr.minimum_le, hr.le_maximum,
      ⟨d', hmem hd', htype', hstart, hle⟩, fun e he htype => ?_⟩
    have hle := hlargest e he htype
    omega

end Namespace

section Start

variable {F : Type} {services : EfiBootServices F} {map : F → List EfiMemoryDescriptor} {key : F → Word}
  {settled : F → Prop} {entry : Word} {registry : List EmbeddedUserProgram} {k : Store}

/-- The memory after the tests: what the heap took and what is free is the region. -/
lemma selfTests_spec {regions : List EfiMemoryDescriptor}
    (hm : ∀ i, memmapGetDescriptor k.phys.memmap i = regions[i]?)
    (hcount : k.phys.memmap.descriptorCount = regions.length) (hvalid : RegionsValid regions)
    (hpages : ∃ d ∈ regions, d.type = efiConventionalMemory ∧ 4 ≤ (wholePages d 0x02000000 0x100000000).card) :
    ∃ k' pages L l, heapSelfTest { pallocSelfTest { k with phys := pallocInitialize k.phys } with
        heap := heapInitialize (pallocSelfTest { k with phys := pallocInitialize k.phys }).heap } = .ok k' ∧
      LargestOf regions k'.phys.allocRegionBegin.toNat k'.phys.allocRegionEnd.toNat ∧
      (∀ p, RegionPage k'.phys p ↔ p ∈ pages ∨ p ∈ l) ∧ pages ≠ [] ∧ pages.length ≤ 4 ∧
      HeapState k'.heap k'.phys pages [] L l ∧ k'.node = k.node ∧ k'.events = k.events := by
  obtain ⟨d, hd, htype, hfour⟩ := hpages
  obtain ⟨l, hinitial, -, hlargest⟩ := pallocInitialize_largest hm hcount hvalid ⟨d, hd, htype, by omega⟩
  have hlength : 4 ≤ l.length := by
    rw [hinitial.length]
    exact hfour.trans (hlargest.largest d hd htype)
  obtain ⟨s, serial, htest, hg, hfree⟩ :=
    pallocSelfTest_spec (k := { k with phys := pallocInitialize k.phys }) hinitial.list
  rw [if_neg (by omega)] at hfree
  rw [htest]
  have hfresh : HeapState (heapInitialize k.heap) s [] [] [] l :=
    ⟨heapInv_nil k.heap.block, hfree, by simp, by simp⟩
  obtain ⟨h', s', serial', taken, ptrs, hheap, ⟨⟨L, l', hstate, hl⟩, hg'⟩, hfew, hall⟩ :=
    heapSelfTest_spec (k := { k with phys := s, serial := serial, heap := heapInitialize k.heap }) hfresh
  obtain ⟨rfl, hsome, -⟩ := hall hlength
  have hb : s'.allocRegionBegin = (pallocInitialize k.phys).allocRegionBegin :=
    hg'.regionBegin.trans hg.regionBegin
  have he : s'.allocRegionEnd = (pallocInitialize k.phys).allocRegionEnd :=
    hg'.regionEnd.trans hg.regionEnd
  rw [List.append_nil] at hstate hsome
  refine ⟨_, taken.reverse, L, l', hheap, ?_, fun p => ?_, hsome, by simpa using hfew, hstate,
    rfl, rfl⟩
  · dsimp only
    rw [hb, he]
    exact hlargest
  · unfold RegionPage
    dsimp only
    rw [hb, he, ← hinitial.mem_iff, hl, List.mem_append, List.mem_reverse]

/-- With a firmware that keeps its contract, a map that fits the buffer and has four pages to spare,
and a registry that fits the namespace, the kernel gets to its namespace, which has no programs but
those of the registry. Then the pages of the largest region are the free ones and at most four of the
heap, which holds no object; the trampoline's page is none of them. -/
theorem kernelMemory_selfTested (h : EfiContract services map key settled)
    (hanswers : ∀ firmware buffer, (services.getMemoryMap firmware buffer 16384#64).1.status = efiSuccess)
    (hvalid : ∀ firmware, RegionsValid (map firmware))
    (hpages : ∀ firmware, ∃ d ∈ map firmware, d.type = efiConventionalMemory ∧
      4 ≤ (wholePages d 0x02000000 0x100000000).card)
    (hpage : IsPage (pageAddress entry))
    (hcode : ∀ firmware, ∀ d ∈ map firmware, d.type = efiConventionalMemory →
      (pageAddress entry).toNat < d.physicalStart.toNat ∨
        d.physicalStart.toNat + 4096 * d.numberOfPages.toNat ≤ (pageAddress entry).toNat)
    (hlen : registry.length ≤ vfsExecutableCapacity) (hserved : ∀ p ∈ registry, (vfsProgramImage p).isSome)
    (hnodes : ∀ n, k.node (.static n) = ⟨.none, 0, none, .null⟩) (hevents : k.events = [])
    (imageHandle : Word) (m : MemmapStatics) (firmware : F) : ∃ k' firmware' pages L l,
      kernelMemory services imageHandle registry m firmware k = .ok (k', firmware') ∧
      LargestOf (map firmware') k'.phys.allocRegionBegin.toNat k'.phys.allocRegionEnd.toNat ∧
      (∀ p, RegionPage k'.phys p ↔ p ∈ pages ∨ p ∈ l) ∧ pages.length ≤ 4 ∧
      HeapState k'.heap k'.phys pages [] L l ∧
      (∀ path image imageSize, OffersImage k' path image imageSize →
        ∃ p ∈ registry, p.image = some image ∧ p.size = imageSize) ∧
      ∀ k₀ : KernelState, SelfTested entry pages (k₀.setStore k') l := by
  obtain ⟨exited, m', firmware', hrun, hcaptured, hall⟩ := h.captureAndExit imageHandle m firmware
  obtain rfl := hall hanswers
  have hm := hcaptured rfl
  have hstart := selfTests_spec (k := ({ k.serialWrite (asciiText "kernel_main\r\nefi live\r\n") with
      phys := { k.phys with memmap := m'.memmap } }.serialWrite (memmapSummary m')).serialWrite
        (asciiText "exit ok\r\ngdt ok\r\nidt ok\r\n")) hm.descriptors hm.count (hvalid firmware')
    (hpages firmware')
  obtain ⟨k₁, pages, L, l, hheap, hlargest, hregion, hsome, hfew, hstate, hnode, hevents₁⟩ := hstart
  have hzero : ∀ n, k₁.node (.static n) = ⟨.none, 0, none, .null⟩ := fun n => by
    rw [hnode]
    exact hnodes n
  have hoffers :
      OffersOnly (fun image size => ∃ p ∈ registry, p.image = some image ∧ p.size = size) k₁ := by
    intro n image size himage
    rw [hzero] at himage
    cases himage
  obtain ⟨k', hns, hoffers'⟩ := vfsNamespaceInitialize_offers hoffers hlen hserved
    fun p hp image himage => ⟨p, hp, himage, rfl⟩
  have hfd : FdStart registry (smallKernel.setStore k') :=
    ⟨⟨k₁, hns, hzero, hevents₁.trans hevents, pages, L, l, hstate⟩, fun _ => rfl⟩
  obtain ⟨hnodes', hwalk, hheap', hphys', -⟩ := vfsNamespaceInitialize_spec (fun n => by
    rw [hzero]
    exact ⟨⟨by simp, by simp, fun _ => rfl⟩, rfl⟩) hns
  have hcounts := hfd.fresh.inv.inv.counts
  rw [hfd.fresh.heldFiles_nil] at hcounts
  have hstate' : HeapState k'.heap k'.phys pages [] L l := by
    rw [hheap', hphys']
    exact hstate
  have hno : ∀ p, p ∈ pages ∨ p ∈ l → p ≠ pageAddress entry := by
    intro p hp
    obtain ⟨-, hlo, hhi⟩ := (hregion p).mpr hp
    exact hlargest.ne_of_outside (hcode firmware') hlo hhi
  have hlive : live L = [] := List.map_eq_nil_iff.mp hstate.handed.eq_nil
  refine ⟨k', firmware', pages, L, l, ?_, ?_, ?_, hfew, hstate', ?_, fun k₀ => ⟨hstate'.free,
    ⟨hcounts, ?_, ?_⟩, hwalk, hpage, fun hl => hno _ (.inr hl) rfl⟩⟩
  · unfold kernelMemory
    dsimp only
    rw [hrun, ok_bind]
    exact bind_eq_ok.mpr ⟨k₁, hheap, bind_eq_ok.mpr ⟨k', hns, rfl⟩⟩
  · rw [hphys']
    exact hlargest
  · rw [hphys']
    exact hregion
  · rintro path image imageSize ⟨⟨hnull, -⟩, himage⟩
    obtain ⟨n, hn⟩ := (hwalk path).resolve_left hnull
    rw [hn] at himage
    exact hoffers' n image imageSize himage
  · exact ⟨L, hstate'.inv, hsome, hstate'.handed, by simp [hlive], by simp [hlive], by simp⟩
  · exact ⟨pages, L, l, hstate', fun p hp hcode => hno p hp hcode⟩

theorem kernelMemory_selfTested_sample : ∃ k' firmware' pages l,
    kernelMemory growingServices 0#64 sampleProgram ⟨fun _ => 0#8, 0, 0, 0, 0, 0, 0⟩ false smallStore =
        .ok (k', firmware') ∧
      SelfTested 0x00300000#64 pages (smallKernel.setStore k') l := by
  have hregion (grown : Bool) : ∀ d ∈ growingMap grown, d = ⟨7#32, 0x02000000#64, 0x4000#64⟩ ∨
      d = ⟨7#32, 0x00100000#64, 0x100#64⟩ := by
    cases grown <;> simp [growingMap]
  have hpages : 4 ≤ (wholePages ⟨7#32, 0x02000000#64, 0x4000#64⟩ 0x02000000 0x100000000).card := by
    rw [wholePages_card (by decide)]
    decide
  have hvalid (grown : Bool) : RegionsValid (growingMap grown) := by
    intro d hd
    rcases hregion grown d hd with rfl | rfl <;> decide
  have hcode : ∀ (grown : Bool), ∀ d ∈ growingMap grown, d.type = efiConventionalMemory →
      (pageAddress 0x00300000#64).toNat < d.physicalStart.toNat ∨
        d.physicalStart.toNat + 4096 * d.numberOfPages.toNat ≤ (pageAddress 0x00300000#64).toNat := by
    intro grown d hd _
    rcases hregion grown d hd with rfl | rfl <;> decide
  have hlen : sampleProgram.length ≤ vfsExecutableCapacity := by decide
  have hserved : ∀ p ∈ sampleProgram, (vfsProgramImage p).isSome := by simp [sampleProgram, vfsProgramImage]
  obtain ⟨k', firmware', pages, L, l, hrun, -, -, -, -, -, htested⟩ :=
    kernelMemory_selfTested growingServices_contract (fun _ _ => rfl) hvalid
      (fun grown => ⟨_, List.mem_cons_self, rfl, hpages⟩) (by constructor <;> decide) hcode
      hlen hserved (k := smallStore) (fun _ => rfl) rfl 0#64 ⟨fun _ => 0#8, 0, 0, 0, 0, 0, 0⟩ false
  exact ⟨k', firmware', pages, l, hrun, htested smallKernel⟩

end Start

end Platinum
