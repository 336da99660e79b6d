import Platinum.UserRelease

/-!
# The pages that mapping accesses

The functions of the mapping path are run here with a record of the pages they
read or write. On a path whose PML4 slot is present these are tables of the
address space, tables of the kernel and pages taken from the allocator. An
absent slot is followed to page 0.
-/
namespace Platinum
open ByteMemory WordArith SharedTrie

/-- The outcome of a call, with the pages it accessed. -/
structure Accessed (α : Type) where
  value : α
  state : Phys
  pages : List Word

/-- A computation that records the pages it accesses. -/
def Accessing (α : Type) := Phys → Accessed α

instance : Monad Accessing where
  pure a := fun s => ⟨a, s, []⟩
  bind f g := fun s =>
    let r := f s
    let r' := g r.value r.state
    ⟨r'.value, r'.state, r.pages ++ r'.pages⟩

namespace Access

def readEntry (table : Word) (index : Index) : Accessing Word :=
  fun s => ⟨slot s.mem table index, s, [table]⟩

def writeEntry (table : Word) (index : Index) (entry : Word) : Accessing Unit :=
  fun s => ⟨(), { s with mem := setSlot s.mem table index entry }, [table]⟩

/-- The root is a static variable, not an entry of a page. -/
def pagingKernelPml4 : Accessing Word := fun s => ⟨s.pagingKernelPml4, s, []⟩

/-- The link to the next free page is read from the page that is taken. -/
def pallocAlloc : Accessing Word := fun s =>
  match Platinum.pallocAlloc s with
  | (page, s) => ⟨page, s, if page = 0#64 then [] else [page]⟩

def zeroPage (page : Word) : Accessing Unit :=
  fun s => ⟨(), { s with mem := Platinum.zeroPage s.mem page }, [page]⟩

def copyEntries (table src : Word) : Accessing Unit :=
  fun s => ⟨(), { s with mem := Platinum.copyEntries s.mem table src }, [src, table]⟩

def allocTable : Accessing Word := do
  let page ← pallocAlloc
  if page = 0#64 then return 0#64
  else
    zeroPage page
    return page

def copyTable (src : Word) : Accessing Word := do
  let table ← allocTable
  if table = 0#64 then return 0#64
  else
    copyEntries table src
    return table

def getOrCreateNext (table : Word) (index : Index) (flags : Word) : Accessing Word := do
  let entry ← readEntry table index
  if Present entry then
    if flags &&& pagingUser ≠ 0#64 then
      writeEntry table index (entry ||| pagingUser)
      return entryTable (← readEntry table index)
    else return entryTable entry
  else
    let next ← allocTable
    if next = 0#64 then return 0#64
    else
      writeEntry table index (next ||| pagingFlagsTable ||| (flags &&& pagingUser))
      return next

def mapPage4k (pml4 virtualAddress physicalAddress flags : Word) : Accessing Bool := do
  let pdpt ← getOrCreateNext pml4 (pml4Index virtualAddress) flags
  if pdpt = 0#64 then return false
  else
    let pd ← getOrCreateNext pdpt (pdptIndex virtualAddress) flags
    if pd = 0#64 then return false
    else
      let pt ← getOrCreateNext pd (pdIndex virtualAddress) flags
      if pt = 0#64 then return false
      else
        writeEntry pt (ptIndex virtualAddress) (physicalAddress ||| flags)
        return true

def privatizeEntry (table : Word) (index : Index) (kernelEntry : Word) : Accessing Bool := do
  let entry ← readEntry table index
  if Present entry ∧ entryAddress entry = entryAddress kernelEntry then
    let clone ← copyTable (entryTable entry)
    if clone = 0#64 then return false
    else
      writeEntry table index (clone ||| pagingFlagsTable ||| pagingUser)
      return true
  else if Present entry then
    writeEntry table index (entry ||| pagingUser)
    return true
  else return true

/-- The kernel's entry one level down, 0 when the kernel has no table there. -/
def kernelEntryBelow (kernelEntry : Word) (index : Index) : Accessing Word :=
  let kernelTable := if Present kernelEntry then entryTable kernelEntry else 0#64
  if kernelTable = 0#64 then return 0#64 else readEntry kernelTable index

def ensurePrivateUserPath (pml4 virtualAddress : Word) : Accessing Bool := do
  let kernelPml4Entry ← readEntry (← pagingKernelPml4) (pml4Index virtualAddress)
  if ← privatizeEntry pml4 (pml4Index virtualAddress) kernelPml4Entry then
    let pml4Entry ← readEntry pml4 (pml4Index virtualAddress)
    let pdpt := entryTable pml4Entry
    let kernelPdptEntry ← kernelEntryBelow kernelPml4Entry (pdptIndex virtualAddress)
    if ← privatizeEntry pdpt (pdptIndex virtualAddress) kernelPdptEntry then
      let pdptEntry ← readEntry pdpt (pdptIndex virtualAddress)
      if ¬ Present pdptEntry then return true
      else
        let pd := entryTable pdptEntry
        let kernelPdEntry ← kernelEntryBelow kernelPdptEntry (pdIndex virtualAddress)
        privatizeEntry pd (pdIndex virtualAddress) kernelPdEntry
    else return false
  else return false

/-- `ensure_private_user_path` followed by `map_page_4k`. -/
def ensureThenMap (pml4 virtualAddress physicalAddress : Word) : Accessing Bool := do
  if ← ensurePrivateUserPath pml4 virtualAddress then
    mapPage4k pml4 virtualAddress physicalAddress (pagingPresent ||| pagingWritable ||| pagingUser)
  else return false

section Erase

variable {α β : Type} (f : Accessing α) (g : α → Accessing β) (s : Phys)

@[simp] lemma pure_apply (a : α) : (pure a : Accessing α) s = ⟨a, s, []⟩ := rfl

@[simp] lemma bind_value : ((f >>= g) s).value = (g (f s).value (f s).state).value := rfl

@[simp] lemma bind_state : ((f >>= g) s).state = (g (f s).value (f s).state).state := rfl

@[simp] lemma bind_pages :
    ((f >>= g) s).pages = (f s).pages ++ (g (f s).value (f s).state).pages := rfl

/-- `f` returns what the function `h` of the model returns. -/
def Erases (h : Phys → α × Phys) : Prop := ∀ s, ((f s).value, (f s).state) = h s

variable {f g}

lemma Erases.value {h : Phys → α × Phys} (he : Erases f h) : (f s).value = (h s).1 :=
  congrArg Prod.fst (he s)

lemma Erases.state {h : Phys → α × Phys} (he : Erases f h) : (f s).state = (h s).2 :=
  congrArg Prod.snd (he s)

end Erase

lemma pallocAlloc_erases : Erases pallocAlloc Platinum.pallocAlloc := fun _ => rfl

lemma allocTable_erases : Erases allocTable Platinum.allocTable := by
  intro s
  simp only [allocTable, Platinum.allocTable, bind_value, bind_state, pallocAlloc_erases.value,
    pallocAlloc_erases.state]
  rcases Platinum.pallocAlloc s with ⟨page, s₁⟩
  by_cases hp : page = 0#64
  · simp [hp]
  · simp [hp, zeroPage]

lemma copyTable_erases (src : Word) : Erases (copyTable src) fun s => Platinum.copyTable s src := by
  intro s
  simp only [copyTable, Platinum.copyTable, bind_value, bind_state, allocTable_erases.value,
    allocTable_erases.state]
  rcases Platinum.allocTable s with ⟨table, s₁⟩
  by_cases ht : table = 0#64
  · simp [ht]
  · simp [ht, copyEntries]

lemma getOrCreateNext_erases (table : Word) (index : Index) (flags : Word) :
    Erases (getOrCreateNext table index flags)
      fun s => Platinum.getOrCreateNext s table index flags := by
  intro s
  simp only [getOrCreateNext, Platinum.getOrCreateNext, bind_value, bind_state, readEntry]
  by_cases hp : Present (slot s.mem table index)
  · by_cases hf : flags &&& pagingUser = 0#64
    · simp [hp, hf]
    · simp [hp, hf, writeEntry, readEntry]
  · simp only [hp, reduceIte, bind_value, bind_state, allocTable_erases.value,
      allocTable_erases.state]
    rcases Platinum.allocTable s with ⟨next, s₁⟩
    by_cases hn : next = 0#64
    · simp [hn]
    · simp [hn, writeEntry]

lemma mapPage4k_erases (pml4 v p flags : Word) :
    Erases (mapPage4k pml4 v p flags) fun s => Platinum.mapPage4k s pml4 v p flags := by
  intro s
  simp only [mapPage4k, Platinum.mapPage4k, bind_value, bind_state,
    (getOrCreateNext_erases _ _ _).value, (getOrCreateNext_erases _ _ _).state]
  rcases Platinum.getOrCreateNext s pml4 (pml4Index v) flags with ⟨pdpt, s₁⟩
  by_cases h₁ : pdpt = 0#64
  · simp [h₁]
  simp only [h₁, if_false, bind_value, bind_state, (getOrCreateNext_erases _ _ _).value,
    (getOrCreateNext_erases _ _ _).state]
  rcases Platinum.getOrCreateNext s₁ pdpt (pdptIndex v) flags with ⟨pd, s₂⟩
  by_cases h₂ : pd = 0#64
  · simp [h₂]
  simp only [h₂, if_false, bind_value, bind_state, (getOrCreateNext_erases _ _ _).value,
    (getOrCreateNext_erases _ _ _).state]
  rcases Platinum.getOrCreateNext s₂ pd (pdIndex v) flags with ⟨pt, s₃⟩
  by_cases h₃ : pt = 0#64
  · simp [h₃]
  · simp [h₃, writeEntry]

lemma privatizeEntry_erases (table : Word) (index : Index) (kernelEntry : Word) :
    Erases (privatizeEntry table index kernelEntry)
      fun s => Platinum.privatizeEntry s table index kernelEntry := by
  intro s
  simp only [privatizeEntry, Platinum.privatizeEntry, bind_value, bind_state, readEntry]
  by_cases hc : Present (slot s.mem table index) ∧
      entryAddress (slot s.mem table index) = entryAddress kernelEntry
  · simp only [hc, and_self, reduceIte, bind_value, bind_state, (copyTable_erases _).value,
      (copyTable_erases _).state]
    rcases Platinum.copyTable s (entryTable (slot s.mem table index)) with ⟨clone, s₁⟩
    by_cases hn : clone = 0#64
    · simp [hn]
    · simp [hn, writeEntry]
  · by_cases hp : Present (slot s.mem table index)
    · have hne : entryAddress (slot s.mem table index) ≠ entryAddress kernelEntry :=
        fun he => hc ⟨hp, he⟩
      simp [hp, hne, writeEntry]
    · simp [hp]

lemma kernelEntryBelow_erases (kernelEntry : Word) (index : Index) :
    Erases (kernelEntryBelow kernelEntry index) fun s =>
      (if (if Present kernelEntry then entryTable kernelEntry else 0#64) = 0#64 then 0#64
        else slot s.mem (if Present kernelEntry then entryTable kernelEntry else 0#64) index, s) := by
  intro s
  unfold kernelEntryBelow
  dsimp only
  generalize (if Present kernelEntry then entryTable kernelEntry else 0#64) = kernelTable
  by_cases h : kernelTable = 0#64
  · simp [h]
  · simp [h, readEntry]

lemma ensurePrivateUserPath_erases (pml4 v : Word) :
    Erases (ensurePrivateUserPath pml4 v) fun s => Platinum.ensurePrivateUserPath s pml4 v := by
  intro s
  simp only [ensurePrivateUserPath, Platinum.ensurePrivateUserPath, bind_value, bind_state,
    pagingKernelPml4, readEntry, (privatizeEntry_erases _ _ _).value,
    (privatizeEntry_erases _ _ _).state]
  rcases Platinum.privatizeEntry s pml4 (pml4Index v)
    (slot s.mem s.pagingKernelPml4 (pml4Index v)) with ⟨_ | _, s₁⟩
  · simp
  simp only [reduceIte, bind_value, bind_state, readEntry, (kernelEntryBelow_erases _ _).value,
    (kernelEntryBelow_erases _ _).state, (privatizeEntry_erases _ _ _).value,
    (privatizeEntry_erases _ _ _).state]
  generalize entryTable (slot s₁.mem pml4 (pml4Index v)) = pdpt
  generalize (if (if Present (slot s.mem s.pagingKernelPml4 (pml4Index v)) then
      entryTable (slot s.mem s.pagingKernelPml4 (pml4Index v)) else 0#64) = 0#64 then 0#64
    else slot s₁.mem (if Present (slot s.mem s.pagingKernelPml4 (pml4Index v)) then
      entryTable (slot s.mem s.pagingKernelPml4 (pml4Index v)) else 0#64) (pdptIndex v)) = e
  rcases Platinum.privatizeEntry s₁ pdpt (pdptIndex v) e with ⟨_ | _, s₂⟩
  · simp
  by_cases hp : Present (slot s₂.mem pdpt (pdptIndex v))
  · simp only [hp, not_true_eq_false, reduceIte, bind_value, bind_state, readEntry,
      (kernelEntryBelow_erases _ _).value, (kernelEntryBelow_erases _ _).state,
      (privatizeEntry_erases _ _ _).value, (privatizeEntry_erases _ _ _).state]
  · simp [hp, readEntry]

/-- The page at the head of the free list was unlinked. -/
structure Popped (s : Phys) (q : Word) (s' : Phys) : Prop where
  ne_zero : q ≠ 0#64
  head : s.freeListHead = q
  next : s'.freeListHead = nodeNext s.mem q

lemma allocTable_pages {s : Phys} {q : Word} (hq : q ∈ (allocTable s).pages) :
    Popped s q (allocTable s).state := by
  unfold allocTable at hq ⊢
  simp only [bind_pages, bind_state, pallocAlloc, Platinum.pallocAlloc] at hq ⊢
  by_cases h0 : s.freeListHead = 0#64
  · simp [h0] at hq
  · simp only [h0, reduceIte, zeroPage, bind_pages, bind_state, pure_apply, List.mem_append,
      List.mem_singleton, List.not_mem_nil, or_false, or_self] at hq ⊢
    subst hq
    exact ⟨h0, rfl, rfl⟩

lemma allocTable_page {s : Phys} (h : (allocTable s).value ≠ 0#64) :
    (allocTable s).value ∈ (allocTable s).pages := by
  unfold allocTable at h ⊢
  simp only [bind_value, bind_pages, pallocAlloc] at h ⊢
  by_cases h0 : (Platinum.pallocAlloc s).1 = 0#64
  · simp [h0] at h
  · simp [h0]

lemma copyTable_pages {s : Phys} {q src : Word} (hq : q ∈ (copyTable src s).pages) :
    q = src ∨ Popped s q (copyTable src s).state := by
  unfold copyTable at hq ⊢
  simp only [bind_pages, bind_state, List.mem_append] at hq ⊢
  by_cases h0 : (allocTable s).value = 0#64
  · simp only [h0, reduceIte, pure_apply, List.not_mem_nil, or_false] at hq ⊢
    exact .inr (allocTable_pages hq)
  · simp only [h0, reduceIte, bind_pages, bind_state, copyEntries, pure_apply, List.append_nil,
      List.mem_cons, List.not_mem_nil, or_false] at hq ⊢
    rcases hq with hq | rfl | rfl
    · have h := allocTable_pages hq
      exact .inr ⟨h.ne_zero, h.head, h.next⟩
    · exact .inl rfl
    · have h := allocTable_pages (allocTable_page h0)
      exact .inr ⟨h.ne_zero, h.head, h.next⟩

lemma getOrCreateNext_pages {s : Phys} {q t flags : Word} {i : Index}
    (hq : q ∈ (getOrCreateNext t i flags s).pages) :
    q = t ∨ Popped s q (getOrCreateNext t i flags s).state := by
  unfold getOrCreateNext at hq ⊢
  simp only [bind_pages, bind_state, readEntry, List.mem_append, List.mem_singleton] at hq ⊢
  rcases hq with rfl | hq
  · exact .inl rfl
  by_cases hp : Present (slot s.mem t i)
  · by_cases hf : flags &&& pagingUser = 0#64
    · simp [hp, hf] at hq
    · simp only [hp, hf, ne_eq, not_false_eq_true, reduceIte, writeEntry, readEntry, bind_pages,
        pure_apply, List.mem_append, List.mem_singleton, List.not_mem_nil, or_false,
        or_self] at hq
      exact .inl hq
  · simp only [hp, reduceIte, bind_pages, bind_state, List.mem_append] at hq ⊢
    rcases hq with hq | hq
    · have h := allocTable_pages hq
      refine .inr ⟨h.ne_zero, h.head, ?_⟩
      by_cases h0 : (allocTable s).value = 0#64
      · simpa only [h0, reduceIte, pure_apply] using h.next
      · simpa only [h0, reduceIte, writeEntry, bind_state, pure_apply] using h.next
    · by_cases h0 : (allocTable s).value = 0#64
      · simp [h0] at hq
      · simp only [h0, reduceIte, writeEntry, bind_pages, pure_apply, List.append_nil,
          List.mem_singleton] at hq
        exact .inl hq

lemma privatizeEntry_pages {s : Phys} {q t kernelEntry : Word} {i : Index}
    (hq : q ∈ (privatizeEntry t i kernelEntry s).pages) :
    q = t ∨ (Present (slot s.mem t i) ∧
        entryAddress (slot s.mem t i) = entryAddress kernelEntry ∧ q = entryTable (slot s.mem t i)) ∨
      Popped s q (privatizeEntry t i kernelEntry s).state := by
  unfold privatizeEntry at hq ⊢
  simp only [bind_pages, bind_state, readEntry, List.mem_append, List.mem_singleton] at hq ⊢
  rcases hq with rfl | hq
  · exact .inl rfl
  by_cases hp : Present (slot s.mem t i)
  swap
  · simp [hp] at hq
  by_cases he : entryAddress (slot s.mem t i) = entryAddress kernelEntry
  swap
  · simp only [hp, he, and_false, reduceIte, writeEntry, bind_pages, pure_apply, List.append_nil,
      List.mem_singleton] at hq
    exact .inl hq
  simp only [hp, he, and_self, reduceIte, bind_pages, bind_state, List.mem_append] at hq ⊢
  rcases hq with hq | hq
  · rcases copyTable_pages hq with rfl | h
    · exact .inr (.inl ⟨trivial, trivial, rfl⟩)
    · refine .inr (.inr ⟨h.ne_zero, h.head, ?_⟩)
      by_cases h0 : (copyTable (entryTable (slot s.mem t i)) s).value = 0#64
      · simpa only [h0, reduceIte, pure_apply] using h.next
      · simpa only [h0, reduceIte, writeEntry, bind_state, pure_apply] using h.next
  · by_cases h0 : (copyTable (entryTable (slot s.mem t i)) s).value = 0#64
    · simp [h0] at hq
    · simp only [h0, reduceIte, writeEntry, bind_pages, pure_apply, List.append_nil,
        List.mem_singleton] at hq
      exact .inl hq

end Access

/-- A table of the space, a table of the kernel, or a page that left the free list. -/
def MayAccess (K : KernelTables) (own : Owner) (a : Word) (l l' : List Word) (q : Word) : Prop :=
  (∃ ρ, own q = some (a, ρ)) ∨ K.IsTable q ∨ q ∈ l ∧ q ∉ l'

/-- The tables on the path stay owned or shared while a call runs. -/
structure AccessStep {α : Type} (K : KernelTables) (a : Word) (path : Path) (s : Phys) (own : Owner)
    (l : List Word) (r : Accessed α) (own' : Owner) (l' : List Word) : Prop where
  step : Extends K a path s own l r.state own' l'
  pages : ∀ q ∈ r.pages, MayAccess K own a l l' q

section Steps

variable {K : KernelTables} {own own₁ own₂ : Owner} {s s₁ : Phys} {l l₁ l₂ : List Word}
  {a t q : Word} {π path : Path} {i : Index}

lemma Taken.subset (h : Taken a path own l own₁ l₁) {p : Word} (hp : p ∈ l₁) : p ∈ l := by
  obtain ⟨new, rfl, -, -⟩ := h
  exact List.mem_append_right new hp

lemma MayAccess.later (h : MayAccess K own a l l₁ q) (hsub : ∀ p ∈ l₂, p ∈ l₁) :
    MayAccess K own a l l₂ q := by
  rcases h with h | h | ⟨hq, hno⟩
  · exact .inl h
  · exact .inr (.inl h)
  · exact .inr (.inr ⟨hq, fun hm => hno (hsub q hm)⟩)

/-- A table taken earlier in the call is a page that left the free list. -/
lemma MayAccess.earlier (hT : Taken a path own l own₁ l₁) (hfree : ∀ p ∈ l₁, own₁ p = none)
    (hsub : ∀ p ∈ l₂, p ∈ l₁) (h : MayAccess K own₁ a l₁ l₂ q) : MayAccess K own a l l₂ q := by
  rcases h with ⟨ρ, hρ⟩ | h | ⟨hq, hno⟩
  · obtain ⟨new, hl, hnew, hold⟩ := hT
    by_cases hq : q ∈ new
    · refine .inr (.inr ⟨hl ▸ List.mem_append_left l₁ hq, fun hm => ?_⟩)
      rw [hfree q (hsub q hm)] at hρ
      cases hρ
    · exact .inl ⟨ρ, (hold q hq).symm.trans hρ⟩
  · exact .inr (.inl h)
  · exact .inr (.inr ⟨hT.subset hq, hno⟩)

/-- An unlinked page is free before the step and not after it. -/
lemma Access.Popped.mayAccess (hp : Access.Popped s q s₁) (hl : FreeList s l) (hl₁ : FreeList s₁ l₁)
    (hT : Taken a path own l own₁ l₁) : MayAccess K own a l l₁ q := by
  obtain ⟨rest, rfl⟩ : ∃ rest, l = q :: rest := by
    cases l with
    | nil => exact absurd (hp.head.symm.trans hl.chain) hp.ne_zero
    | cons x rest => exact ⟨rest, by rw [hp.head.symm.trans hl.chain.1]⟩
  have hnd := (List.nodup_cons.mp hl.nodup).1
  have hrest := hl.chain.2.2
  refine .inr (.inr ⟨List.mem_cons_self, fun hm => ?_⟩)
  obtain ⟨new, hnew, -, -⟩ := hT
  cases new with
  | nil =>
      obtain rfl := hnew
      have hhead : q = nodeNext s.mem q := hl₁.chain.1.symm.trans hp.next
      rw [← hhead] at hrest
      cases rest with
      | nil => exact hp.ne_zero hrest
      | cons x rest => exact hnd (hrest.1 ▸ List.mem_cons_self)
  | cons x new =>
      obtain ⟨rfl, rfl⟩ := List.cons.inj hnew
      exact hnd (List.mem_append_right new hm)

namespace AccessStep

variable {α β : Type}

theorem pure (h : PagingInv K own s l) (x : α) :
    AccessStep K a path s own l (⟨x, s, []⟩ : Accessed α) own l :=
  ⟨Extends.refl h, fun _ hq => absurd hq List.not_mem_nil⟩

theorem read (h : PagingInv K own s l) (ht : MayAccess K own a l l t) :
    AccessStep K a path s own l (Access.readEntry t i s) own l :=
  ⟨Extends.refl h, fun _ hq => List.mem_singleton.mp hq ▸ ht⟩

theorem bind {f : Accessing α} {g : α → Accessing β}
    (hf : AccessStep K a path s own l (f s) own₁ l₁) (h : PagingInv K own s l)
    (hg : AccessStep K a path (f s).state own₁ l₁ (g (f s).value (f s).state) own₂ l₂) :
    AccessStep K a path s own l ((f >>= g) s) own₂ l₂ := by
  refine ⟨hf.step.trans h hg.step, fun q hq => ?_⟩
  rcases List.mem_append.mp hq with hq | hq
  · exact (hf.pages q hq).later fun p hp => hg.step.taken.subset hp
  · exact (hg.pages q hq).earlier hf.step.taken hf.step.inv.free_own
      fun p hp => hg.step.taken.subset hp

end AccessStep

/-- A call that accesses only what it may and, when it succeeds, leaves owners with `C`. -/
def AccessReaches (K : KernelTables) (a : Word) (path : Path) (C : Owner → Prop) (s : Phys)
    (own : Owner) (l : List Word) (r : Accessed Bool) : Prop :=
  ∃ own' l', AccessStep K a path s own l r own' l' ∧ (r.value = true → C own')

namespace AccessReaches

variable {α : Type} {C : Owner → Prop}

theorem success (h : PagingInv K own s l) (hC : C own) :
    AccessReaches K a path C s own l ⟨true, s, []⟩ :=
  ⟨own, l, .pure h true, fun _ => hC⟩

theorem failure (h : PagingInv K own s l) : AccessReaches K a path C s own l ⟨false, s, []⟩ :=
  ⟨own, l, .pure h false, fun hf => absurd hf Bool.false_ne_true⟩

theorem bind {f : Accessing α} {g : α → Accessing Bool} (h : PagingInv K own s l)
    (hf : AccessStep K a path s own l (f s) own₁ l₁)
    (hg : AccessReaches K a path C (f s).state own₁ l₁ (g (f s).value (f s).state)) :
    AccessReaches K a path C s own l ((f >>= g) s) := by
  obtain ⟨own', l', hstep, hC⟩ := hg
  exact ⟨own', l', hf.bind h hstep, hC⟩

end AccessReaches

/-- A call that accesses only what it may, whatever it leaves in the tables. -/
def AccessWithin {α : Type} (K : KernelTables) (a : Word) (own : Owner) (l : List Word)
    (r : Accessed α) : Prop :=
  ∃ l', FreeList r.state l' ∧ (∀ p ∈ l', p ∈ l) ∧ ∀ q ∈ r.pages, MayAccess K own a l l' q

namespace AccessWithin

variable {α β : Type}

theorem pure (h : PagingInv K own s l) (x : α) : AccessWithin K a own l ⟨x, s, []⟩ :=
  ⟨l, h.free, fun _ hp => hp, fun _ hq => absurd hq List.not_mem_nil⟩

theorem bind {f : Accessing α} {g : α → Accessing β}
    (hf : AccessStep K a path s own l (f s) own₁ l₁)
    (hg : AccessWithin K a own₁ l₁ (g (f s).value (f s).state)) :
    AccessWithin K a own l ((f >>= g) s) := by
  obtain ⟨l', hl', hsub, hpages⟩ := hg
  refine ⟨l', hl', fun p hp => hf.step.taken.subset (hsub p hp), fun q hq => ?_⟩
  rcases List.mem_append.mp hq with hq | hq
  · exact (hf.pages q hq).later hsub
  · exact (hpages q hq).earlier hf.step.taken hf.step.inv.free_own hsub

end AccessWithin

/-- The kernel's entry below a kernel entry is read from a kernel table. -/
lemma kernelEntryBelow_access (path : Path) (h : PagingInv K own s l) (hd : π.length < 3)
    (i j : Index) :
    AccessStep K a path s own l (Access.kernelEntryBelow (K.base π i) j s) own l ∧
      (Access.kernelEntryBelow (K.base π i) j s).value = K.base (π ++ [i]) j := by
  refine ⟨?_, ((Access.kernelEntryBelow_erases _ j).value s).trans (h.kernelEntry_below hd i j)⟩
  rcases K.entryAddress_base hd (i := i) with ⟨h0, -⟩ | ⟨p, hp, hb, hn⟩
  · rw [h0, Access.kernelEntryBelow]
    simpa using AccessStep.pure h 0#64
  · have ht : entryTable (tableEntry false p) = p := entryAddress_tableEntry hp false
    simp only [Access.kernelEntryBelow, hb, present_tableEntry hp false, ht, hp.ne_zero, reduceIte]
    refine AccessStep.read h (.inr (.inl ⟨π ++ [i], ?_, hn⟩))
    simp only [List.length_append, List.length_singleton]
    omega

/-- One level of `ensure_private_user_path`. -/
lemma privatizeEntry_access (path : Path) (i : Index) (h : PagingInv K own s l)
    (ht : own t = some (a, π)) (hd : π.length < 3) (hpath : π ++ [i] <+: path) :
    ∃ own' l', AccessStep K a path s own l (Access.privatizeEntry t i (K.base π i) s) own' l' ∧
      ((Access.privatizeEntry t i (K.base π i) s).value = true →
        Private own' a (π ++ [i]) ∨ K.base π i = 0#64) := by
  have herase := Access.privatizeEntry_erases t i (K.base π i) s
  have hpages : ∀ own' l', Extends K a path s own l
      (Access.privatizeEntry t i (K.base π i) s).state own' l' →
      ∀ q ∈ (Access.privatizeEntry t i (K.base π i) s).pages, MayAccess K own a l l' q := by
    intro own' l' hE q hq
    rcases Access.privatizeEntry_pages hq with rfl | ⟨hpres, he, rfl⟩ | hpop
    · exact .inl ⟨π, ht⟩
    · by_cases hp : Private own a (π ++ [i])
      · obtain ⟨p, hp⟩ := hp
        exact absurd he (h.private_ne_kernel ht hd hp)
      · have hsh := h.slot_shared ht hd fun p hp' => hp ⟨p, hp'⟩
        rcases K.entryAddress_base hd (i := i) with ⟨h0, -⟩ | ⟨p, hp', hb, hn⟩
        · rw [hsh, h0] at hpres
          exact absurd hpres not_present_zero
        · refine .inr (.inl ⟨π ++ [i], ?_, ?_⟩)
          · simp only [List.length_append, List.length_singleton]
            omega
          · rw [hsh, hb, hn]
            exact congrArg some (entryAddress_tableEntry hp' false).symm
    · exact hpop.mayAccess h.free hE.inv.free hE.taken
  rcases privatizeEntry_spec path i h ht hd hpath with ⟨s', own', l', hrun, hE, hp⟩ | ⟨hrun, rfl, -⟩
  · obtain ⟨-, rfl⟩ := Prod.mk.inj (herase.trans hrun)
    exact ⟨own', l', ⟨hE, hpages own' l' hE⟩, fun _ => hp⟩
  · obtain ⟨hfail, hstate⟩ := Prod.mk.inj (herase.trans hrun)
    have hE : Extends K a path s own [] (Access.privatizeEntry t i (K.base π i) s).state own [] := by
      rw [hstate]
      exact Extends.refl h
    exact ⟨own, [], ⟨hE, hpages own [] hE⟩, fun ht => absurd (hfail.symm.trans ht) (by decide)⟩

/-- One level of `map_page_4k` with the user flag. -/
lemma getOrCreateNext_access (path : Path) (i : Index) (h : PagingInv K own s l)
    (ht : own t = some (a, π)) (hd : π.length < 3) (hpath : π ++ [i] <+: path) {flags : Word}
    (hflags : flags &&& pagingUser = pagingUser)
    (hclear : Private own a (π ++ [i]) ∨ K.base π i = 0#64) :
    ∃ own' l', AccessStep K a path s own l (Access.getOrCreateNext t i flags s) own' l' ∧
      ((Access.getOrCreateNext t i flags s).value ≠ 0#64 →
        own' (Access.getOrCreateNext t i flags s).value = some (a, π ++ [i])) := by
  have herase := Access.getOrCreateNext_erases t i flags s
  have hpages : ∀ own' l', Extends K a path s own l (Access.getOrCreateNext t i flags s).state own' l' →
      ∀ q ∈ (Access.getOrCreateNext t i flags s).pages, MayAccess K own a l l' q := by
    intro own' l' hE q hq
    rcases Access.getOrCreateNext_pages hq with rfl | hpop
    · exact .inl ⟨π, ht⟩
    · exact hpop.mayAccess h.free hE.inv.free hE.taken
  rcases getOrCreateNext_spec path i h ht hd hpath hflags hclear with
    ⟨q, s', own', l', hrun, hE, hq⟩ | ⟨hrun, rfl, -⟩
  · obtain ⟨hval, rfl⟩ := Prod.mk.inj (herase.trans hrun)
    exact ⟨own', l', ⟨hE, hpages own' l' hE⟩, fun _ => hval ▸ hq⟩
  · obtain ⟨hval, hstate⟩ := Prod.mk.inj (herase.trans hrun)
    have hE : Extends K a path s own [] (Access.getOrCreateNext t i flags s).state own [] := by
      rw [hstate]
      exact Extends.refl h
    exact ⟨own, [], ⟨hE, hpages own [] hE⟩, fun hne => absurd hval hne⟩

end Steps

section Calls

variable {K : KernelTables} {own : Owner} {s : Phys} {l : List Word} {a v p flags : Word}

/-- `ensure_private_user_path` below a private page-directory-pointer table. -/
lemma ensureBelowPml4_access {pdpt : Word} (h : PagingInv K own s l)
    (hpdpt : own pdpt = some (a, [pml4Index v])) :
    AccessReaches K a (userPath v) (Cleared K · a (userPath v)) s own l
      ((do
        let kernelPdptEntry ← Access.kernelEntryBelow (K.base [] (pml4Index v)) (pdptIndex v)
        if ← Access.privatizeEntry pdpt (pdptIndex v) kernelPdptEntry then
          let pdptEntry ← Access.readEntry pdpt (pdptIndex v)
          if ¬ Present pdptEntry then return true
          else
            let pd := entryTable pdptEntry
            let kernelPdEntry ← Access.kernelEntryBelow kernelPdptEntry (pdIndex v)
            Access.privatizeEntry pd (pdIndex v) kernelPdEntry
        else return false : Accessing Bool) s) := by
  obtain ⟨h₁, hv₁⟩ := kernelEntryBelow_access (a := a) (π := []) (userPath v) h (by simp)
    (pml4Index v) (pdptIndex v)
  refine .bind h h₁ ?_
  rw [hv₁, List.nil_append]
  generalize Access.kernelEntryBelow (K.base [] (pml4Index v)) (pdptIndex v) s = r₁ at h₁ ⊢
  obtain ⟨own₂, l₂, h₂, hp₂⟩ := privatizeEntry_access (userPath v) (pdptIndex v) h₁.step.inv hpdpt
    (by simp) (by simp [userPath])
  refine .bind h₁.step.inv h₂ ?_
  generalize Access.privatizeEntry pdpt (pdptIndex v) (K.base [pml4Index v] (pdptIndex v))
    r₁.state = r₂ at h₂ hp₂ ⊢
  cases hr₂ : r₂.value with
  | false => exact .failure h₂.step.inv
  | true =>
      have hpdpt₂ := h₂.step.keep h₁.step.inv hpdpt
      refine .bind h₂.step.inv (.read h₂.step.inv (.inl ⟨_, hpdpt₂⟩)) ?_
      simp only [Access.readEntry]
      by_cases hp : Private own₂ a [pml4Index v, pdptIndex v]
      · obtain ⟨pd, hpd⟩ := hp
        have hpres : Present (slot r₂.state.mem pdpt (pdptIndex v)) :=
          (h₂.step.inv.present_iff hpdpt₂ (by simp)).mpr (.inl ⟨pd, hpd⟩)
        simp only [hpres, not_true_eq_false, reduceIte, h₂.step.inv.entryTable_private hpdpt₂ hpd]
        obtain ⟨h₃, hv₃⟩ := kernelEntryBelow_access (a := a) (π := [pml4Index v]) (userPath v)
          h₂.step.inv (by simp) (pdptIndex v) (pdIndex v)
        refine .bind h₂.step.inv h₃ ?_
        rw [hv₃]
        obtain ⟨own₄, l₄, h₄, hp₄⟩ := privatizeEntry_access (userPath v) (pdIndex v) h₃.step.inv hpd
          (by simp) (by simp [userPath])
        refine ⟨own₄, l₄, h₄, fun ht => cleared_userPath ⟨pdpt, ?_⟩ (.inl ⟨pd, ?_⟩) (hp₄ ht)⟩
        · exact h₄.step.keep h₃.step.inv hpdpt₂
        · exact h₄.step.keep h₃.step.inv hpd
      · have h0 : K.base [pml4Index v] (pdptIndex v) = 0#64 := (hp₂ hr₂).resolve_left hp
        have hpres : ¬ Present (slot r₂.state.mem pdpt (pdptIndex v)) := by
          rw [h₂.step.inv.present_iff hpdpt₂ (by simp)]
          rintro (hpriv | hne)
          · exact hp hpriv
          · exact hne h0
        simp only [hpres, not_false_eq_true, reduceIte]
        exact .success h₂.step.inv (cleared_userPath ⟨pdpt, hpdpt₂⟩ (.inr h0)
          (.inr (K.base_below_absent (by simp) h0 (pdIndex v))))

/-- Below a present PML4 entry every level is entered through a present entry. -/
lemma ensurePrivateUserPath_access (h : PagingInv K own s l) (ha : own a = some (a, []))
    (hv : Present (slot s.mem a (pml4Index v))) :
    AccessReaches K a (userPath v) (Cleared K · a (userPath v)) s own l
      (Access.ensurePrivateUserPath a v s) := by
  have hroot : K.IsTable s.pagingKernelPml4 := ⟨[], by simp, h.root ▸ K.node_root⟩
  have hk : slot s.mem s.pagingKernelPml4 (pml4Index v) = K.base [] (pml4Index v) := by
    rw [h.root]
    exact h.kernel [] K.root _ (by simp) K.node_root
  unfold Access.ensurePrivateUserPath
  refine .bind h (.pure h s.pagingKernelPml4) (.bind h (.read h (.inr (.inl hroot))) ?_)
  simp only [Access.pagingKernelPml4, Access.readEntry, hk]
  obtain ⟨own₁, l₁, h₁, hp₁⟩ := privatizeEntry_access (userPath v) (pml4Index v) h ha (by simp)
    (by simp [userPath])
  refine .bind h h₁ ?_
  generalize Access.privatizeEntry a (pml4Index v) (K.base [] (pml4Index v)) s = r₁ at h₁ hp₁ ⊢
  cases hr₁ : r₁.value with
  | false => exact .failure h₁.step.inv
  | true =>
      have ha₁ := h₁.step.keep h ha
      obtain ⟨pdpt, hpdpt⟩ : Private own₁ a [pml4Index v] := by
        rcases (h.present_iff ha (by simp)).mp hv with hpriv | hne
        · exact h₁.step.private_mono h hpriv
        · exact (hp₁ hr₁).resolve_right hne
      refine .bind h₁.step.inv (.read h₁.step.inv (.inl ⟨[], ha₁⟩)) ?_
      simp only [Access.readEntry, h₁.step.inv.entryTable_private ha₁ hpdpt]
      exact ensureBelowPml4_access h₁.step.inv hpdpt

/-- `map_page_4k` on a cleared path creates and enters private tables only. -/
lemma mapPage4k_access (p flags : Word) (h : PagingInv K own s l) (ha : own a = some (a, []))
    (hc : Cleared K own a (userPath v)) (hflags : flags &&& pagingUser = pagingUser) :
    AccessWithin K a own l (Access.mapPage4k a v p flags s) := by
  unfold Access.mapPage4k
  obtain ⟨own₁, l₁, h₁, hpdpt⟩ := getOrCreateNext_access (userPath v) (pml4Index v) h ha (by simp)
    (by simp [userPath]) hflags (hc [] _ (by simp [userPath]))
  refine .bind h₁ ?_
  have hc₁ := hc.mono h h₁.step
  generalize Access.getOrCreateNext a (pml4Index v) flags s = r₁ at h₁ hpdpt hc₁ ⊢
  by_cases hz₁ : r₁.value = 0#64
  · rw [if_pos hz₁]
    exact .pure h₁.step.inv false
  rw [if_neg hz₁]
  obtain ⟨own₂, l₂, h₂, hpd⟩ := getOrCreateNext_access (userPath v) (pdptIndex v) h₁.step.inv
    (hpdpt hz₁) (by simp) (by simp [userPath]) hflags (hc₁ _ _ (by simp [userPath]))
  refine .bind h₂ ?_
  have hc₂ := hc₁.mono h₁.step.inv h₂.step
  generalize Access.getOrCreateNext r₁.value (pdptIndex v) flags r₁.state = r₂ at h₂ hpd hc₂ ⊢
  by_cases hz₂ : r₂.value = 0#64
  · rw [if_pos hz₂]
    exact .pure h₂.step.inv false
  rw [if_neg hz₂]
  obtain ⟨own₃, l₃, h₃, hpt⟩ := getOrCreateNext_access (userPath v) (pdIndex v) h₂.step.inv
    (hpd hz₂) (by simp) (by simp [userPath]) hflags (hc₂ _ _ (by simp [userPath]))
  refine .bind h₃ ?_
  generalize Access.getOrCreateNext r₂.value (pdIndex v) flags r₂.state = r₃ at h₃ hpt ⊢
  by_cases hz₃ : r₃.value = 0#64
  · rw [if_pos hz₃]
    exact .pure h₃.step.inv false
  rw [if_neg hz₃]
  have hpt := hpt hz₃
  have hpage := h₃.step.inv.own_page hpt
  refine ⟨l₃, ?_, fun _ hp => hp, ?_⟩
  · refine h₃.step.inv.free.frame rfl (ChangesOnly.setSlot _ (Set.mem_singleton r₃.value) _ _)
      (by simp [hpage.aligned]) ?_
    rintro q rfl hq
    rw [h₃.step.inv.free_own _ hq] at hpt
    cases hpt
  · intro q hq
    simp only [Access.writeEntry, Access.bind_pages, Access.pure_apply, List.append_nil,
      List.mem_singleton] at hq
    exact .inl ⟨_, hq ▸ hpt⟩

lemma ensureThenMap_access (p : Word) (h : PagingInv K own s l) (ha : own a = some (a, []))
    (hv : Present (slot s.mem a (pml4Index v))) :
    AccessWithin K a own l (Access.ensureThenMap a v p s) := by
  obtain ⟨own₁, l₁, h₁, hc₁⟩ := ensurePrivateUserPath_access h ha hv
  unfold Access.ensureThenMap
  refine .bind h₁ ?_
  generalize Access.ensurePrivateUserPath a v s = r₁ at h₁ hc₁ ⊢
  cases hr₁ : r₁.value with
  | false => exact .pure h₁.step.inv false
  | true => exact mapPage4k_access p _ h₁.step.inv (h₁.step.keep h ha) (hc₁ hr₁) (by decide)

/-- An absent PML4 entry is followed all the same: the table it names is page 0. -/
lemma ensureThenMap_absent (p : Word) (h : PagingInv K own s l) (ha : own a = some (a, []))
    (hv : ¬ Present (slot s.mem a (pml4Index v))) :
    0#64 ∈ (Access.ensureThenMap a v p s).pages := by
  have habs := mt (h.present_iff (i := pml4Index v) ha (by simp)).mpr hv
  push Not at habs
  have hslot : slot s.mem a (pml4Index v) = 0#64 :=
    (h.slot_shared ha (by simp) fun q hq => habs.1 ⟨q, hq⟩).trans habs.2
  have hvalue : ∀ e, (Access.privatizeEntry a (pml4Index v) e s).value = true := by
    simp [Access.privatizeEntry, Access.readEntry, hslot]
  have hstate : ∀ e, (Access.privatizeEntry a (pml4Index v) e s).state = s := by
    simp [Access.privatizeEntry, Access.readEntry, hslot]
  have hread : ∀ i e s, 0#64 ∈ (Access.privatizeEntry 0#64 i e s).pages := fun i e s =>
    List.mem_append_left _ (List.mem_singleton.mpr rfl)
  have hzero : entryTable 0#64 = 0#64 := entryAddress_zero
  simp [Access.ensureThenMap, Access.ensurePrivateUserPath, Access.pagingKernelPml4,
    Access.readEntry, hvalue, hstate, hslot, hzero, hread]

end Calls

/-- The page was free before the call and is not free after it. -/
def TakenBy (s s' : Phys) (q : Word) : Prop :=
  ∃ l l', FreeList s l ∧ FreeList s' l' ∧ q ∈ l ∧ q ∉ l'

/-- A call on behalf of the space `a` accessed tables only. -/
def AccessesTables {α : Type} (s : Phys) (a : Word) (r : Accessed α) : Prop :=
  ∀ q ∈ r.pages,
    TableOf s.mem s.pagingKernelPml4 q ∨ TableOf s.mem a q ∨ TakenBy s r.state q

/-- `paging_map_user_page` is the recorded call at the page addresses. -/
theorem pagingMapUserPage_eq_ensureThenMap {s : Phys} {a : Word} (ha : a ≠ s.pagingKernelPml4)
    (v p : Word) :
    pagingMapUserPage s a v p =
      if (Access.ensureThenMap a (pageAddress v) (pageAddress p) s).value then
        .ok (Access.ensureThenMap a (pageAddress v) (pageAddress p) s).state
      else .error .halt := by
  have hmap := Access.mapPage4k_erases a (pageAddress v) (pageAddress p)
    (pagingPresent ||| pagingWritable ||| pagingUser)
  have hpath := Access.ensurePrivateUserPath_erases a (pageAddress v)
  simp only [pagingMapUserPage, Access.ensureThenMap, ne_eq, ha, not_false_eq_true, if_true,
    Access.bind_value, Access.bind_state, hpath.value, hpath.state]
  rcases ensurePrivateUserPath s a (pageAddress v) with ⟨_ | _, s₁⟩
  · simp
  simp only [reduceIte, hmap.value, hmap.state]
  rcases mapPage4k s₁ a (pageAddress v) (pageAddress p)
    (pagingPresent ||| pagingWritable ||| pagingUser) with ⟨_ | _, s₂⟩ <;> simp

section Reached

variable {K : KernelTables} {own : Owner} {s : Phys} {l spaces : List Word} {a v : Word}

lemma AccessWithin.tables {α : Type} {r : Accessed α} (h : RunInv K own s l spaces)
    (hr : AccessWithin K a own l r) : AccessesTables s a r := by
  obtain ⟨l', hl', -, hpages⟩ := hr
  intro q hq
  rcases hpages q hq with ⟨ρ, hρ⟩ | hk | ⟨hin, hout⟩
  · exact .inr (.inl ⟨ρ, h.inv.tables.depth hρ, h.inv.tables.descend_private hρ⟩)
  · exact .inl (h.inv.kernel_tableOf.mpr hk)
  · exact .inr (.inr ⟨l, l', h.inv.free, hl', hin, hout⟩)

/-- Page 0 is no table and never free. -/
lemma not_accessesTables_zero {α : Type} {r : Accessed α} (h : RunInv K own s l spaces)
    (ha : a ∈ spaces) (h0 : 0#64 ∈ r.pages) : ¬ AccessesTables s a r := by
  have hpage : ¬ IsPage 0#64 := fun h => absurd h.pos (by decide)
  have hnot : ¬ TableInUse s spaces 0#64 := by
    intro hin
    rcases h.inUse_owned hin with ⟨x, hx⟩ | hk
    · exact hpage (h.inv.own_page hx)
    · exact hpage (K.isTable_page hk)
  intro hall
  rcases hall 0#64 h0 with hk | hs | ⟨l₁, l₂, hl₁, -, hin, -⟩
  · exact hnot (.inl hk)
  · exact hnot (.inr ⟨a, ha, hs⟩)
  · exact hpage (hl₁.pages _ hin)

end Reached

/-- In every reachable state, mapping an address of a user space accesses nothing but
tables of the space, tables of the kernel and tables it allocates if and only if the
PML4 entry of the address is present. -/
theorem ensureThenMap_tables_iff {pre s₀ s : Phys} {l₀ spaces : List Word} {a : Word}
    (hfree : FreeList pre l₀) (hboot : pagingInitialize pre = .ok s₀)
    (hrun : SpacesReached s₀ s spaces) (ha : a ∈ spaces) (v p : Word) :
    AccessesTables s a (Access.ensureThenMap a v p s) ↔ Present (slot s.mem a (pml4Index v)) := by
  obtain ⟨K, own, l, h⟩ := hrun.inv hfree hboot
  constructor
  · intro hall
    by_contra hv
    exact not_accessesTables_zero h ha (ensureThenMap_absent p h.inv (h.space a ha) hv) hall
  · intro hv
    exact (ensureThenMap_access p h.inv (h.space a ha) hv).tables h

/-- Mapping 1 GiB on a 64 MiB machine stays within the tables. -/
theorem ensureThenMap_tables_sample : ∃ s₀ s a,
    pagingInitialize (pallocInitialize (coldMachine 0x4000#64)) = .ok s₀ ∧
      PagingRun s₀ s [a] ∧
      AccessesTables s a (Access.ensureThenMap a 0x40000000#64 0x02100000#64 s) := by
  obtain ⟨l, s₀, K, q, l₁, s, hl, hs₀, hq, hs, hc, -, hpres⟩ := coldMachine_creates
  have hrun : PagingRun s₀ s [q] := .create .boot hs hq
  refine ⟨s₀, s, q, hs₀, hrun, (ensureThenMap_tables_iff hl hs₀ (.inl hrun) (by simp) _ _).mpr ?_⟩
  rw [hc.slots]
  rwa [hc.inv.root, hc.inv.kernel [] K.root _ (by simp) K.node_root] at hpres

/-- The slot behind the first 512 GiB is absent there, and page 0 is accessed. -/
theorem ensureThenMap_accesses_page_zero : ∃ s₀ s a,
    pagingInitialize (pallocInitialize (coldMachine 0x4000#64)) = .ok s₀ ∧
      PagingRun s₀ s [a] ∧ (0x8000000000#64 : Word).toNat < 2 ^ 47 ∧
      0#64 ∈ (Access.ensureThenMap a 0x8000000000#64 0x02100000#64 s).pages ∧
      ¬ AccessesTables s a (Access.ensureThenMap a 0x8000000000#64 0x02100000#64 s) := by
  obtain ⟨l, s₀, K, q, l₁, s, hl, hs₀, hq, hs, hc, -, -⟩ := coldMachine_creates
  have hrun : PagingRun s₀ s [q] := .create .boot hs hq
  obtain ⟨K', own, l', h⟩ := SpacesReached.inv hl hs₀ (.inl hrun)
  have habs : ¬ Present (slot s.mem q (pml4Index 0x8000000000#64)) := by
    have hslots := pagingInitialize_slots hl hs₀ (i := pml4Index 0x8000000000#64) (by decide)
    have hqo : Function.update (fun _ => none) q (some (q, [])) q = some (q, ([] : Path)) :=
      Function.update_self _ _ _
    have hne : K.root ≠ q := by
      rintro rfl
      exact hc.inv.own_not_kernel hqo ⟨[], by simp, K.node_root⟩
    have hroot : slot s.mem K.root (pml4Index 0x8000000000#64) =
        slot s₀.mem K.root (pml4Index 0x8000000000#64) :=
      hc.mem.slot (by simp [(hc.inv.own_page hqo).aligned])
        (K.node_page [] K.root (by simp) K.node_root).aligned (by simpa using hne) _
    rw [← hc.globals.kernelPml4, hc.inv.root, ← hroot,
      hc.inv.kernel [] K.root _ (by simp) K.node_root] at hslots
    rwa [hc.slots]
  have h0 := ensureThenMap_absent 0x02100000#64 h.inv (h.space q (by simp)) habs
  exact ⟨s₀, s, q, hs₀, hrun, by decide, h0, not_accessesTables_zero h (by simp) h0⟩

end Platinum
