import Platinum.ExecFds
import Platinum.ExecTransfer

/-!
# What a new program sees of recycled pages

Two states that differ only in what their free pages hold run the same exec. The
window is cleared and the tables are filled, but the page of the new stack is
handed over as it was found.
-/
namespace Platinum
open ByteMemory SharedTrie

/-- The memories differ only in what free pages hold behind their links. -/
def FreeContents (l : List Word) (m m' : Mem) : Prop :=
  ∀ x, m' x ≠ m x → ∃ p ∈ l, p.toNat + 8 ≤ x ∧ x < p.toNat + 4096

section Contents

variable {s s' : Phys} {l l' : List Word} {m m' : Mem} {h h' : Heap} {p f size : Word} {k k' : Store}
  {path : List Byte} {image : Mem} {imageSize : Word}

lemma FreeContents.pages (h : FreeContents l m m') : ChangesOnly {p | p ∈ l} m m' := by
  intro x hx
  by_contra hne
  obtain ⟨p, hp, hlo, hhi⟩ := h x hne
  exact hx p hp ⟨by omega, hhi⟩

lemma FreeContents.next (h : FreeContents l m m') (hl : ∀ p ∈ l, IsPage p) (hp : p ∈ l) :
    nodeNext m' p = nodeNext m p := by
  refine load64_congr fun i hi => ?_
  by_contra hne
  obtain ⟨q, hq, hlo, hhi⟩ := h _ hne
  rw [Fin.val_zero] at hlo hhi
  obtain rfl := onPage_unique (hl p hp).aligned (hl q hq).aligned
    (show OnPage p (p.toNat + 8 * 0 + i) from ⟨by omega, by omega⟩) ⟨by omega, hhi⟩
  omega

/-- The free list is its links. -/
lemma FreeContents.free (h : FreeContents l s.mem m) (hl : FreeList s l) (hl' : FreeList s' l')
    (hsub : ∀ p ∈ l', p ∈ l) (hm : s'.mem = s.mem) : FreeList { s' with mem := m } l' := by
  refine hl'.congr rfl fun p hp => ?_
  rw [hm]
  exact h.next hl.pages (hsub p hp)

/-- The link of the first free page is the same in both memories. -/
def SameNext (s : Phys) (m : Mem) : Prop :=
  s.freeListHead ≠ 0#64 → nodeNext m s.freeListHead = nodeNext s.mem s.freeListHead

lemma FreeContents.sameNext (h : FreeContents l s.mem m) (hl : FreeList s l) : SameNext s m := by
  intro hne
  cases l with
  | nil => exact absurd hl.chain hne
  | cons p l =>
    rw [hl.chain.1]
    exact h.next hl.pages (by simp)

lemma pallocAlloc_contents (hnext : SameNext s m) :
    pallocAlloc { s with mem := m } = ((pallocAlloc s).1, { (pallocAlloc s).2 with mem := m }) := by
  unfold pallocAlloc
  dsimp only
  by_cases h0 : s.freeListHead = 0#64
  · rw [if_pos h0, if_pos h0]
  · rw [if_neg h0, if_neg h0, hnext h0]

lemma growHeap_contents (hnext : SameNext s m) (hrun : growHeap h s size = .ok (f, h', s')) :
    growHeap h { s with mem := m } size = .ok (f, h', { s' with mem := m }) := by
  unfold growHeap at hrun ⊢
  dsimp only at hrun ⊢
  by_cases hbig : heapPageSize - heapHeaderSize < size
  · rw [if_pos hbig] at hrun ⊢
    cases hrun
    rfl
  rw [if_neg hbig] at hrun ⊢
  rw [pallocAlloc_contents hnext]
  dsimp only
  by_cases h0 : (pallocAlloc s).1 = 0#64
  · rw [if_pos h0] at hrun ⊢
    cases hrun
    rfl
  · rw [if_neg h0] at hrun ⊢
    obtain ⟨⟨block, h₁⟩, hinsert, hrun⟩ := bind_eq_ok.mp hrun
    cases hrun
    rw [hinsert]
    rfl

lemma kmalloc_contents (hnext : SameNext s m) (hrun : kmalloc h s size = .ok (f, h', s')) :
    kmalloc h { s with mem := m } size = .ok (f, h', { s' with mem := m }) := by
  unfold kmalloc at hrun ⊢
  by_cases h0 : size = 0#64
  · rw [if_pos h0] at hrun ⊢
    cases hrun
    rfl
  rw [if_neg h0] at hrun ⊢
  dsimp only at hrun ⊢
  obtain ⟨found, hfind, hrun⟩ := bind_eq_ok.mp hrun
  rw [hfind, ok_bind]
  by_cases hf : found = 0#64
  · rw [if_pos hf] at hrun ⊢
    obtain ⟨⟨block, h₁, s₁⟩, hgrow, hrun⟩ := bind_eq_ok.mp hrun
    rw [growHeap_contents hnext hgrow, ok_bind]
    dsimp only at hrun ⊢
    split_ifs at hrun ⊢ <;> cases hrun <;> rfl
  · rw [if_neg hf, ok_bind] at hrun ⊢
    dsimp only at hrun ⊢
    rw [if_neg hf] at hrun ⊢
    cases hrun
    rfl

lemma Store.kzalloc_contents (hnext : SameNext k.phys m) (hrun : k.kzalloc size = .ok (f, k')) :
    Store.kzalloc { k with phys := { k.phys with mem := m } } size =
      .ok (f, { k' with phys := { k'.phys with mem := m } }) := by
  obtain ⟨⟨ptr, heap, phys⟩, halloc, hrun⟩ := bind_eq_ok.mp hrun
  cases hrun
  obtain ⟨⟨ptr, h₁, s₁⟩, hmalloc, halloc⟩ := bind_eq_ok.mp halloc
  unfold Store.kzalloc Platinum.kzalloc
  dsimp only
  rw [kmalloc_contents hnext hmalloc, ok_bind]
  dsimp only at halloc ⊢
  split_ifs at halloc ⊢ <;> cases halloc <;> rfl

/-- The same image is offered, and the same pages are left. -/
lemma Offers.contents (ho : Offers k path image imageSize s) (hnext : SameNext k.phys m) :
    Offers { k with phys := { k.phys with mem := m } } path image imageSize { s with mem := m } := by
  obtain ⟨f, k', halloc, hf, rfl⟩ := ho.block
  exact ⟨ho.executable, ho.image, f, _, Store.kzalloc_contents hnext halloc, hf, rfl⟩

end Contents

section Caller

variable {K : KernelTables} {own own' own₂' : Owner} {k k' : KernelState} {t : TaskId}
  {caller bootstrap : UserTaskBootstrap} {l l' l₂' spaces others held files nodes ps : List Word}
  {image : Mem} {imageSize entry rb re a a₂ stackPage stackPage₂ p : Word} {plan : ElfPlan}
  {s s' s₂ s₂' : Phys} {m : Mem} {x i : ℕ} {reusable : Word × Word} {store₁ store₂ : Store}
  {fdTable : FdTable}

/-- The kernel with other contents in memory. -/
def withMem (k : KernelState) (m : Mem) : KernelState := k.setPhys { k.phys with mem := m }

lemma CallerPages.contents (h : CallerPages K own s caller l spaces) (hm : FreeContents l s.mem m) :
    CallerPages K own { s with mem := m } caller l spaces := by
  have hinv := h.inv.run.inv
  have hfree : ∀ p ∈ l, own p = none ∧ ¬ K.IsTable p := fun p hp => ⟨hinv.free_own p hp, hinv.free_kernel p hp⟩
  have hinv' : PagingInv K own { s with mem := m } l :=
    hinv.reframe (hm.free hinv.free hinv.free (fun _ hp => hp) rfl) hfree rfl hm.pages
      (fun p hp => (hinv.free.pages p hp).aligned) hfree
  exact ⟨⟨⟨hinv', h.inv.run.space, h.inv.run.owner⟩, h.inv.positions⟩, h.limit, h.space, h.loaded, h.layout,
    h.image, h.stack, h.apart⟩

/-- What free pages hold does not concern the caller. -/
lemma ExecCaller.contents (h : ExecCaller K own k t caller l spaces others held files nodes)
    (hm : FreeContents l k.phys.mem m) :
    ExecCaller K own (withMem k m) t caller l spaces others held files nodes := by
  have hpages := h.pages.contents hm
  exact ⟨h.task, h.started, (schedCurrentUserBootstrap_congr rfl rfl).trans h.bootstrap, hpages,
    h.fds.shrink h.pages.inv.run.inv.free hpages.inv.run.inv.free fun q hq => hq⟩

/-- Nor what it maps. -/
lemma ExecCaller.contents_walk (h : ExecCaller K own k t caller l spaces others held files nodes)
    (hm : FreeContents l k.phys.mem m) (v : Word) :
    mmuWalk (withMem k m).phys.mem caller.addressSpace v = mmuWalk k.phys.mem caller.addressSpace v := by
  have hinv := h.pages.inv.run.inv
  have hinv' := (h.contents hm).pages.inv.run.inv
  have hspace := h.pages.inv.run.space _ h.pages.space
  rw [hinv.mmuWalk_eq hspace, hinv'.mmuWalk_eq hspace]
  refine congrArg _ (hinv.leaf_congr hinv' (fun q x i hq => ?_) hspace rfl _)
  refine hm.pages.slot (fun p hp => (hinv.free.pages p hp).aligned) (hinv.own_page hq).aligned (fun hl => ?_) i
  rw [hinv.free_own q hl] at hq
  cases hq

/-- The same free list and the same image: the same pages. -/
lemma Prepared.same_pages (hp : Prepared K entry rb re image plan s own l a stackPage s' own' l')
    (hp₂ : Prepared K entry rb re image plan s₂ own l a₂ stackPage₂ s₂' own₂' l₂') :
    a₂ = a ∧ stackPage₂ = stackPage ∧ l₂' = l' := by
  obtain ⟨l₀, rfl, -, tabs, hdiff, hlen, -⟩ := hp.head
  obtain ⟨l₁, hl, -, tabs₂, hdiff₂, hlen₂, -⟩ := hp₂.head
  obtain ⟨rfl, rfl⟩ := List.cons.inj hl
  obtain ⟨-, htail⟩ := List.append_inj (hdiff₂.symm.trans hdiff) (by omega)
  obtain ⟨rfl, rfl⟩ := List.cons.inj htail
  exact ⟨rfl, rfl, rfl⟩

/-- And the same translations. -/
lemma Prepared.same_walk (hp : Prepared K entry rb re image plan s own l a stackPage s' own' l')
    (hp₂ : Prepared K entry rb re image plan s₂ own l a stackPage s₂' own₂' l₂') (v : Word) :
    mmuWalk s₂'.mem a v = mmuWalk s'.mem a v := by
  rw [hp.inv.mmuWalk_eq hp.space, hp₂.inv.mmuWalk_eq hp₂.space]
  by_cases hno : userPath v = firstPath → ∀ w p, (w, p) ∈ plan.userPages entry stackPage →
      ptIndex v ≠ ptIndex w
  · rw [hp.rest _ _ rfl hno, hp₂.rest _ _ rfl hno]
  · push Not at hno
    obtain ⟨hpath, w, p, hwp, hi⟩ := hno
    rw [hpath, hi, hp.here w p hwp, hp₂.here w p hwp]

/-- Freeing the same pages with the same head writes the same links. -/
lemma freeAll_same (hhead : s₂.freeListHead = s.freeListHead) (hx : s₂.mem x = s.mem x) :
    (freeAll s₂ ps).mem x = (freeAll s ps).mem x := by
  induction ps generalizing s s₂ with
  | nil => exact hx
  | cons p ps ih =>
    change (freeAll (pallocFree s₂ p) ps).mem x = (freeAll (pallocFree s p) ps).mem x
    unfold pallocFree
    by_cases hp : p = 0#64
    · rw [if_pos hp, if_pos hp]
      exact ih hhead hx
    · rw [if_neg hp, if_neg hp]
      refine ih rfl ?_
      unfold pushFree
      dsimp only
      rw [hhead]
      by_cases hlink : p.toNat ≤ x ∧ x < p.toNat + 8
      · obtain ⟨j, hj⟩ := Nat.exists_eq_add_of_le hlink.1
        have hx' : x = p.toNat + 8 * (0 : Fin 512).val + j := by
          rw [hj, Fin.val_zero, Nat.mul_zero, Nat.add_zero]
        unfold setSlot
        rw [hx', store64_at _ _ _ (by omega), store64_at _ _ _ (by omega)]
      · rw [setSlot, setSlot, store64_outside _ _ (by rw [Fin.val_zero]; omega),
          store64_outside _ _ (by rw [Fin.val_zero]; omega), hx]

/-- The first page that is freed links to what was the head. -/
lemma freeAll_cons_same (hp : p ≠ 0#64) (hlink : ¬ (p.toNat ≤ x ∧ x < p.toNat + 8)) (hx : s₂.mem x = s.mem x) :
    (freeAll s₂ (p :: ps)).mem x = (freeAll s (p :: ps)).mem x := by
  change (freeAll (pallocFree s₂ p) ps).mem x = (freeAll (pallocFree s p) ps).mem x
  unfold pallocFree
  rw [if_neg hp, if_neg hp]
  refine freeAll_same rfl ?_
  have hout (m : Mem) (v : Word) : setSlot m p 0 v x = m x :=
    store64_outside _ _ (by rw [Fin.val_zero]; omega)
  exact (hout _ _).trans (hx.trans (hout _ _).symm)

/-- Behind its link the new stack page holds what it held when it was free. -/
lemma Prepared.stack_byte {imageSize : Word} (h : ExecContext K own s l rb re)
    (hv : plan.Valid imageSize firstUserLayout)
    (hp : Prepared K entry rb re image plan s own l a stackPage s' own' l') (h8 : 8 ≤ i) (hi : i < 4096) :
    s'.mem (stackPage.toNat + i) = s.mem (stackPage.toNat + i) := by
  obtain ⟨hpage, -, hown, -⟩ := hp.own_stack h
  have hon : OnPage stackPage (stackPage.toNat + i) := ⟨by omega, by omega⟩
  refine hp.frame _ (hv.outside hpage (hp.stack_not_window h hv) hi) (fun q hq hlink => ?_) fun q ρ hρ hq => ?_
  · obtain rfl := onPage_unique hpage.aligned (h.inv.free.pages q hq).aligned hon ⟨hlink.1, by omega⟩
    omega
  · obtain rfl := onPage_unique hpage.aligned (hp.inv.own_page hρ).aligned hon hq
    rw [hown] at hρ
    cases hρ

/-- Its link is the head of the free list. -/
lemma Prepared.stack_link (hp : Prepared K entry rb re image plan s own l a stackPage s' own' l')
    (hi : i < 8) : s'.mem (stackPage.toNat + i) = byteOf s'.freeListHead i := by
  rw [← hp.stackLink, nodeNext, slot, byteOf_load64 _ _ hi]
  rfl

/-- The caller's tables are freed last, and the new program has none of them. -/
lemma ExecCaller.transferred_byte (h : ExecCaller K own k t caller l spaces others held files nodes)
    (hp : Prepared K entry caller.imagePhysicalBegin caller.imagePhysicalEnd image plan k.phys own l a
      stackPage s' own' l')
    (hr : Reseeded (k.setPhys s') (plan.bootstrap entry a stackPage) (k.task t).fdTable store₁ true fdTable
      store₂) (hpage : IsPage p) (hown : own' p = none) (hi : i < 4096) :
    (execTransferred (k.setPhys s') t (plan.bootstrap entry a stackPage) fdTable store₂ reusable).phys.mem
        (p.toNat + i) =
      (freeAll store₂.phys (transferPages caller (plan.bootstrap entry a stackPage) reusable)).mem
        (p.toNat + i) := by
  obtain ⟨n, tables, htables, hphys, -⟩ := h.transferred hp hr reusable
  rw [hphys, freeAll_append, (freeAll_frame _ tables).byte (fun q hq => ?_) hpage.aligned (fun hpt => ?_)
    (show OnPage p (p.toNat + i) from ⟨by omega, by omega⟩)]
  · exact freeAll_same rfl rfl
  · obtain ⟨ρ, -, hρ⟩ := (htables.mem_iff q).mp hq
    exact (hp.inv.own_page hρ).aligned
  · obtain ⟨ρ, -, hρ⟩ := (htables.mem_iff p).mp hpt
    rw [hown] at hρ
    cases hρ

end Caller

/-- User mode can read at `v`, in the image or in the stack page of `b`. -/
def ReadsProgram (m : Mem) (b : UserTaskBootstrap) (v : Word) : Prop :=
  ∃ t, mmuWalk m b.addressSpace v = some t ∧ t.user = true ∧
    (t.frame ∈ b.imagePages ∨ t.frame = b.userStackPage)

/-- The task starts with the same registers, and user mode reads the same bytes in
its image and its stack page. -/
structure SameProgram (t : TaskId) (k k' : KernelState) : Prop where
  bootstrap : (k'.task t).userBootstrap = (k.task t).userBootstrap
  rsp : (k'.task t).rsp = (k.task t).rsp
  registers : ∀ i, i < 20 →
    load64 k'.phys.mem ((k.task t).rsp.toNat + 8 * i) = load64 k.phys.mem ((k.task t).rsp.toNat + 8 * i)
  readable : ∀ v, ReadsProgram k'.phys.mem (k.task t).userBootstrap v ↔
    ReadsProgram k.phys.mem (k.task t).userBootstrap v
  bytes : ∀ v, ReadsProgram k.phys.mem (k.task t).userBootstrap v →
    userByte k'.phys.mem (k.task t).userBootstrap.addressSpace v =
      userByte k.phys.mem (k.task t).userBootstrap.addressSpace v

/-- The free page that exec will take for the new stack. -/
def NewStack (k : KernelState) (caller : UserTaskBootstrap) (src stack : Word) : Prop :=
  ∃ path image imageSize s l plan spare, ExecPathAt k caller src path ∧
    Offers k.store path image imageSize s ∧ FreeList s l ∧ Loads caller image imageSize l plan spare ∧
    spare[3]? = some stack

section Program

variable {K : KernelTables} {own own' own₂' : Owner} {b : Build} {k k₂ k' k₂' : KernelState} {t : TaskId}
  {caller bootstrap : UserTaskBootstrap} {l l' l₂' spaces others held files nodes : List Word}
  {image : Mem} {imageSize entry a stackPage p : Word} {plan : ElfPlan} {s s' s₂' : Phys} {m : Mem}
  {i : ℕ} {reusable : Word × Word} {store₁ store₂ : Store} {fdTable : FdTable} {src : Word} {path : List Byte}

/-- What a successful exec leaves, from the state `k` when its image was found. -/
structure HandedOver (K : KernelTables) (own : Owner) (entry : Word) (k : KernelState) (t : TaskId)
    (caller : UserTaskBootstrap) (l spaces : List Word) (image : Mem) (imageSize : Word) (reusable : Word × Word)
    (plan : ElfPlan) (a stackPage : Word) (s' : Phys) (own' : Owner) (l' : List Word) (k' : KernelState) :
    Prop where
  pages : CallerPages K own k.phys caller l spaces
  plan_eq : execPlan image imageSize = some plan
  prepared : Prepared K entry caller.imagePhysicalBegin caller.imagePhysicalEnd image plan k.phys own l a
    stackPage s' own' l'
  rsp : (k'.task t).rsp = execFrame (plan.bootstrap entry a stackPage)
  bootstrap : (k'.task t).userBootstrap = plan.bootstrap entry a stackPage
  walk : ∀ v, mmuWalk k'.phys.mem a v = mmuWalk s'.mem a v
  bytes : ∃ before : Phys,
    before.mem = pushWords s'.mem stackPage (userFrame (plan.bootstrap entry a stackPage)) ∧
      ∀ p i, IsPage p → own' p = none → i < 4096 → k'.phys.mem (p.toNat + i) =
        (freeAll before (transferPages caller (plan.bootstrap entry a stackPage) reusable)).mem (p.toNat + i)

lemma ExecCaller.handed (h : ExecCaller K own k t caller l spaces others held files nodes)
    (hplan : execPlan image imageSize = some plan)
    (hp : Prepared K entry caller.imagePhysicalBegin caller.imagePhysicalEnd image plan k.phys own l a
      stackPage s' own' l')
    (hr : Reseeded (k.setPhys s') (plan.bootstrap entry a stackPage) (k.task t).fdTable store₁ true fdTable
      store₂) (reusable : Word × Word) :
    HandedOver K own entry k t caller l spaces image imageSize reusable plan a stackPage s' own' l'
      (execTransferred (k.setPhys s') t (plan.bootstrap entry a stackPage) fdTable store₂ reusable) := by
  have htask := execTransferred_task (k.setPhys s') t (plan.bootstrap entry a stackPage) fdTable store₂ reusable
  obtain ⟨-, -, hmem, -⟩ := h.reseeded hp rfl hr
  exact ⟨h.pages, hplan, hp, by rw [htask], by rw [htask], h.transferred_walk hp hr reusable,
    store₂.phys, hmem, fun p i hpage hown hi => h.transferred_byte hp hr hpage hown hi⟩

section Handed

variable (h : HandedOver K own entry k t caller l spaces image imageSize reusable plan a stackPage s' own' l' k')
include h

/-- The new stack page holds its frame and what was there before. -/
lemma HandedOver.stack (hi : i < 4096) : k'.phys.mem (stackPage.toNat + i) =
    pushWords s'.mem stackPage (userFrame (plan.bootstrap entry a stackPage)) (stackPage.toNat + i) := by
  obtain ⟨hpage, -, hown, -⟩ := h.prepared.own_stack h.pages.exec
  obtain ⟨before, hmem, hbytes⟩ := h.bytes
  rw [hbytes _ _ hpage hown hi, (freeAll_frame _ _).byte (fun q hq => ?_) hpage.aligned
    (fun hq => ?_) (show OnPage stackPage (stackPage.toNat + i) from ⟨by omega, by omega⟩), hmem]
  · exact (h.pages.holds.page q (mem_transferPages hq)).aligned
  · exact h.pages.holds.used _ (mem_transferPages hq) h.prepared.stack_mem

/-- Between its link and its frame it is what exec found. -/
lemma HandedOver.stack_old (h8 : 8 ≤ i) (hi : i < 3936) :
    k'.phys.mem (stackPage.toNat + i) = k.phys.mem (stackPage.toNat + i) := by
  rw [h.stack (by omega), pushWords_outside (by simp) (by rw [length_userFrame]; omega)]
  exact h.prepared.stack_byte h.pages.exec (elfCheck_valid h.plan_eq).1 h8 (by omega)

/-- User mode reads the whole stack page. -/
lemma HandedOver.reads_stack (hi : i < 4096) :
    mmuWalk k'.phys.mem a (stackVirtual + BitVec.ofNat 64 i) = some ⟨stackPage, true, true⟩ ∧
      (stackVirtual + BitVec.ofNat 64 i).toNat % 4096 = i := by
  have hpage := (h.prepared.own_stack h.pages.exec).1
  have hv : (stackVirtual + BitVec.ofNat 64 i).toNat = 0x401FF000 + i := by
    rw [BitVec.toNat_add, BitVec.toNat_ofNat, show stackVirtual.toNat = 0x401FF000 from rfl]
    omega
  have halign : pageAddress (stackVirtual + BitVec.ofNat 64 i) = stackVirtual := by
    apply BitVec.eq_of_toNat_eq
    rw [pageAddress, WordArith.toNat_alignDown, hv, show stackVirtual.toNat = 0x401FF000 from rfl]
    omega
  have hwalk := h.prepared.translation_user (v := stackVirtual) (p := stackPage)
    (elfCheck_valid h.plan_eq).1 (by simp [ElfPlan.userPages]) hpage.lt
  rw [pageAddress, WordArith.alignDown_of_aligned hpage.aligned] at hwalk
  refine ⟨?_, by omega⟩
  rw [h.walk, ← mmuWalk_pageAddress, halign, hwalk]

variable (h₂ : HandedOver K own entry k₂ t caller l spaces image imageSize reusable plan a stackPage s₂' own₂' l'
  k₂')
include h₂

/-- The link and the frame do not depend on the contents of free pages. -/
lemma HandedOver.stack_same (hi : i < 8 ∨ 3936 ≤ i) (hlt : i < 4096) :
    k₂'.phys.mem (stackPage.toNat + i) = k'.phys.mem (stackPage.toNat + i) := by
  rw [h.stack hlt, h₂.stack hlt]
  rcases hi with hi | hi
  · rw [pushWords_outside (by simp) (by rw [length_userFrame]; omega),
      pushWords_outside (by simp) (by rw [length_userFrame]; omega), h.prepared.stack_link hi,
      h₂.prepared.stack_link hi, h₂.prepared.inv.free.chain.head_eq h.prepared.inv.free.chain]
  · exact pushWords_inside (by simp) (by rw [length_userFrame]; omega)

/-- The window holds the image, and the links of the pages that a release frees. -/
lemma HandedOver.window_same (hpw : p ∈ plan.windowPages) (hi : i < 4096) :
    k₂'.phys.mem (p.toNat + i) = k'.phys.mem (p.toNat + i) := by
  have hv := (elfCheck_valid h.plan_eq).1
  have hpage := hv.windowPages_page hpw
  have hon : OnPage p (p.toNat + i) := ⟨by omega, by omega⟩
  obtain ⟨before, hmem, hbytes⟩ := h.bytes
  obtain ⟨before₂, hmem₂, hbytes₂⟩ := h₂.bytes
  rw [hbytes p i hpage (h.prepared.own_pages h.pages.exec hv hpw).2.1 hi,
    hbytes₂ p i hpage (h₂.prepared.own_pages h₂.pages.exec hv hpw).2.1 hi]
  -- neither stack is in the window
  have hne : p ≠ stackPage := by
    rintro rfl
    exact h.prepared.stack_not_window h.pages.exec hv hpw
  have hcaller : p ≠ caller.userStackPage := by
    rintro rfl
    exact h.pages.stack_not_window h.prepared hpw
  refine freeAll_cons_same h.pages.stack.page.ne_zero (fun hlink => hcaller ?_) ?_
  · exact onPage_unique hpage.aligned h.pages.stack.page.aligned hon ⟨hlink.1, by omega⟩
  · have hpush (m : Mem) : pushWords m stackPage (userFrame (plan.bootstrap entry a stackPage)) (p.toNat + i) =
        m (p.toNat + i) :=
      (pushWords_frame (by simp)).byte (by
        rintro q rfl
        exact (h.prepared.own_stack h.pages.exec).1.aligned) hpage.aligned hne hon
    obtain ⟨hlo, hhi⟩ := hv.window_byte hpw hi
    have hoff : 0x02100000 + (p.toNat - 0x02100000 + i) = p.toNat + i := by omega
    have hw := h.prepared.window _ hhi
    have hw₂ := h₂.prepared.window _ hhi
    rw [hoff] at hw hw₂
    rw [hmem, hmem₂, hpush, hpush, hw, hw₂]

lemma HandedOver.walk_same (v : Word) : mmuWalk k₂'.phys.mem a v = mmuWalk k'.phys.mem a v := by
  rw [h.walk, h₂.walk]
  exact h.prepared.same_walk h₂.prepared v

lemma HandedOver.program_byte
    (hold : ∀ i, 8 ≤ i → i < 3936 → k₂.phys.mem (stackPage.toNat + i) = k.phys.mem (stackPage.toNat + i))
    (hp : p ∈ plan.windowPages ∨ p = stackPage) (hi : i < 4096) :
    k₂'.phys.mem (p.toNat + i) = k'.phys.mem (p.toNat + i) := by
  rcases hp with hp | rfl
  · exact h.window_same h₂ hp hi
  · by_cases hframe : i < 8 ∨ 3936 ≤ i
    · exact h.stack_same h₂ hframe hi
    · rw [h.stack_old (by omega) (by omega), h₂.stack_old (by omega) (by omega)]
      exact hold i (by omega) (by omega)

/-- The programs are the same if and only if the stack page held the same. -/
theorem HandedOver.sameProgram_iff : SameProgram t k' k₂' ↔
    ∀ i, 8 ≤ i → i < 3936 → k₂.phys.mem (stackPage.toNat + i) = k.phys.mem (stackPage.toNat + i) := by
  have hpages : (plan.bootstrap entry a stackPage).imagePages = plan.windowPages :=
    ElfPlan.imagePages_bootstrap (elfCheck_valid h.plan_eq).1 entry a stackPage
  constructor
  · intro hsame i h8 hi
    obtain ⟨hwalk, hmod⟩ := h.reads_stack (i := i) (by omega)
    have hbytes := hsame.bytes (stackVirtual + BitVec.ofNat 64 i) (by
      rw [h.bootstrap]
      exact ⟨_, hwalk, rfl, .inr rfl⟩)
    rw [h.bootstrap] at hbytes
    change userByte k₂'.phys.mem a _ = userByte k'.phys.mem a _ at hbytes
    rw [userByte, userByte, h.walk_same h₂, hwalk, Option.map_some, Option.map_some, hmod] at hbytes
    rw [← h.stack_old h8 hi, ← h₂.stack_old h8 hi]
    exact Option.some.inj hbytes
  · intro hold
    have hreads (v : Word) : ReadsProgram k₂'.phys.mem (plan.bootstrap entry a stackPage) v ↔
        ReadsProgram k'.phys.mem (plan.bootstrap entry a stackPage) v := by
      unfold ReadsProgram
      rw [show (plan.bootstrap entry a stackPage).addressSpace = a from rfl, h.walk_same h₂]
    refine ⟨h₂.bootstrap.trans h.bootstrap.symm, h₂.rsp.trans h.rsp.symm, fun i hi => ?_, fun v => ?_,
      fun v hv => ?_⟩
    · -- the frame ends with the page
      have hpage := (h.prepared.own_stack h.pages.exec).1
      have hrsp : (execFrame (plan.bootstrap entry a stackPage)).toNat = stackPage.toNat + 3936 := by
        have := hpage.lt
        change (stackPage + 4096#64 - 160#64).toNat = _
        simp only [BitVec.toNat_sub, BitVec.toNat_add, BitVec.toNat_ofNat]
        omega
      rw [h.rsp, hrsp]
      refine load64_congr fun j hj => ?_
      rw [show stackPage.toNat + 3936 + 8 * i + j = stackPage.toNat + (3936 + 8 * i + j) by omega]
      exact h.stack_same h₂ (by omega) (by omega)
    · rw [h.bootstrap]
      exact hreads v
    · rw [h.bootstrap] at hv ⊢
      obtain ⟨tr, hwalk, -, hframe⟩ := hv
      rw [hpages] at hframe
      change mmuWalk k'.phys.mem a v = _ at hwalk
      change userByte k₂'.phys.mem a v = userByte k'.phys.mem a v
      rw [userByte, userByte, h.walk_same h₂, hwalk, Option.map_some, Option.map_some]
      exact congrArg some (h.program_byte h₂ hold hframe (Nat.mod_lt _ (by omega)))

end Handed

/-- A call that keeps its frame handed over to the image at the path. -/
lemma ExecCaller.syscall_handed (h : ExecCaller K own k t caller l spaces others held files nodes)
    (hentry : b.archUserProgramEntry.toNat < 2 ^ 52) {frame : SyscallFrame} (hrax : frame.rax = sysExec)
    {path : List Byte} (hpath : ExecPathAt k caller frame.rdi path) {rsp next : Word}
    (hrun : (kernelSyscallEntry b k rsp frame reusable).result = .ok (next, frame, k')) :
    ∃ image imageSize store n plan a stackPage s' own' l', Offers k.store path image imageSize store.phys ∧
      store.phys.mem = k.phys.mem ∧ next = execFrame (plan.bootstrap b.archUserProgramEntry a stackPage) ∧
      HandedOver K own b.archUserProgramEntry (k.setStore store) t caller (l.drop n) spaces image imageSize reusable
        plan a stackPage s' own' l' k' := by
  -- an error would be in the frame
  have herror : syscallReturn frame sysResultError ≠ frame := by
    intro he
    have hres := congrArg SyscallFrame.rax he
    rw [hrax] at hres
    exact absurd hres (show sysResultError ≠ sysExec by decide)
  rcases h.syscall b hrax rsp reusable with ⟨hno, -⟩ | ⟨path', hiff, hanswer⟩
  · exact absurd hpath (hno path)
  obtain rfl := (hiff path).mp hpath
  obtain ⟨found, store, files', n, -, hcaller, hg, -, hoffers, hnone, hsome⟩ :=
    h.execPath hentry path reusable
  rw [hanswer] at hrun
  cases found with
  | none =>
    rw [hnone rfl] at hrun
    exact absurd (Prod.mk.inj (Prod.mk.inj (Except.ok.inj hrun)).2).1 herror
  | some found =>
    obtain ⟨image, imageSize⟩ := found
    have hend := hsome image imageSize rfl
    have ho := (hoffers image imageSize store.phys).mpr ⟨rfl, rfl⟩
    generalize syscallExecPath b k path reusable = x at hrun hend
    cases hend with
    | halted => cases hrun
    | failed | refused | unseeded =>
      exact absurd (Prod.mk.inj (Prod.mk.inj (Except.ok.inj hrun)).2).1 herror
    | transferred hplan hp hhook hseed hfds hready =>
      have hok := Except.ok.inj hrun
      dsimp only [execAnswer] at hok
      rw [if_neg hready.frame] at hok
      obtain ⟨rfl, hpair⟩ := Prod.mk.inj hok
      obtain ⟨-, rfl⟩ := Prod.mk.inj hpair
      exact ⟨image, imageSize, store, n, _, _, _, _, _, _, ho, hg.mem, rfl, hcaller.handed hplan hp hseed reusable⟩

/-- The page that exec took for the stack. -/
lemma HandedOver.newStack {k₁ : KernelState} (h : HandedOver K own entry k₁ t caller l spaces image imageSize reusable
      plan a stackPage s' own' l' k')
    (hunique : ∀ path', ExecPathAt k caller src path' → path' = path) (hpath : ExecPathAt k caller src path)
    (ho : Offers k.store path image imageSize k₁.phys) (stack : Word) :
    NewStack k caller src stack ↔ stack = stackPage := by
  obtain ⟨spare, hloads, hspare⟩ := h.prepared.loads h.plan_eq
  constructor
  · rintro ⟨path', image', imageSize', s, l₁, plan', spare', hpath', ho', hl₁, hloads', hspare'⟩
    obtain rfl := hunique path' hpath'
    obtain ⟨rfl, rfl, rfl⟩ := ho.unique ho'
    obtain rfl := hl₁.unique h.pages.inv.run.inv.free
    obtain ⟨rfl, rfl⟩ := hloads.unique hloads'
    exact Option.some.inj (hspare'.symm.trans hspare)
  · rintro rfl
    exact ⟨path, image, imageSize, _, _, plan, spare, hpath, ho, h.pages.inv.run.inv.free, hloads, hspare⟩

end Program

/-- After exec of the same path in two states that differ in the contents of free
pages, the new programs are the same if and only if the page taken for the stack held
the same between its link and the new frame. -/
theorem exec_sameProgram_iff {K : KernelTables} {own : Owner} {b : Build} {k k' k₂' : KernelState}
    {t : TaskId} {caller : UserTaskBootstrap} {l spaces others held files nodes : List Word}
    {frame : SyscallFrame} (h : ExecCaller K own k t caller l spaces others held files nodes)
    (hentry : b.archUserProgramEntry.toNat < 2 ^ 52) (hrax : frame.rax = sysExec) {m : Mem}
    (hm : FreeContents l k.phys.mem m) {path : List Byte} (hpath : ExecPathAt k caller frame.rdi path)
    (hpath₂ : ExecPathAt (withMem k m) caller frame.rdi path) {rsp next next₂ : Word} {reusable : Word × Word}
    (hrun : (kernelSyscallEntry b k rsp frame reusable).result = .ok (next, frame, k'))
    (hrun₂ : (kernelSyscallEntry b (withMem k m) rsp frame reusable).result = .ok (next₂, frame, k₂')) :
    next₂ = next ∧ SameProgram t k' k₂' ↔ ∀ stack, NewStack k caller frame.rdi stack →
      ∀ i, 8 ≤ i → i < 3936 → m (stack.toNat + i) = k.phys.mem (stack.toNat + i) := by
  obtain ⟨image, imageSize, store, n, plan, a, stackPage, s', own', l', ho, hmem, rfl, hd⟩ :=
    h.syscall_handed hentry hrax hpath hrun
  obtain ⟨image₂, imageSize₂, store₂, n₂, plan₂, a₂, stackPage₂, s₂', own₂', l₂', ho₂, hmem₂, rfl, hd₂⟩ :=
    (h.contents hm).syscall_handed hentry hrax hpath₂ hrun₂
  have hfree := h.pages.inv.run.inv.free
  -- the heap takes the same pages in both states
  obtain ⟨rfl, rfl, hphys⟩ := (ho.contents (hm.sameNext hfree)).unique ho₂
  have hdrop : l.drop n₂ = l.drop n := by
    have hl := hm.free hfree hd.pages.inv.run.inv.free (fun p hp => List.mem_of_mem_drop hp) hmem
    have hl₂ : FreeList store₂.phys (l.drop n₂) := hd₂.pages.inv.run.inv.free
    rw [← hphys] at hl₂
    exact hl₂.unique hl
  rw [hdrop] at hd₂
  obtain rfl := Option.some.inj (hd₂.plan_eq.symm.trans hd.plan_eq)
  obtain ⟨rfl, rfl, rfl⟩ := hd.prepared.same_pages hd₂.prepared
  have hstack := hd.newStack (fun path' hp => h.path_unique hp hpath) hpath ho
  rw [hd.sameProgram_iff hd₂, and_iff_right rfl]
  change (∀ i, 8 ≤ i → i < 3936 → store₂.phys.mem _ = store.phys.mem _) ↔ _
  rw [hmem, hmem₂]
  constructor
  · intro hold stack hnew
    obtain rfl := (hstack stack).mp hnew
    exact hold
  · exact fun hall => hall _ ((hstack _).mpr rfl)

section Sample

variable {K : KernelTables} {own : Owner} {b : Build} {k : KernelState} {caller : UserTaskBootstrap}
  {l l₂ spaces spare others held reserved files nodes files₂ nodes₂ : List Word} {image : Mem}
  {imageSize : Word} {plan : ElfPlan} {s : Phys} {path : List Byte}

/-- With a roomy heap and the pages at hand the task is handed over. -/
lemma ExecCaller.hands_over (h : ExecCaller K own k .task1 caller l spaces others held files nodes)
    (hfds : UserFds reserved k files₂ nodes₂) (hentry : b.archUserProgramEntry.toNat < 2 ^ 52)
    (hhook : b.userTestExecTransferFail = false) {frame : SyscallFrame} (hrax : frame.rax = sysExec)
    (hpath : ExecPathAt k caller frame.rdi path) (ho : Offers k.store path image imageSize s)
    (hl : FreeList s l₂) (hloads : Loads caller image imageSize l₂ plan spare) (hlen : 4 ≤ spare.length)
    (rsp : Word) (reusable : Word × Word) :
    ∃ next k', (kernelSyscallEntry b k rsp frame reusable).result = .ok (next, frame, k') := by
  rcases h.syscall b hrax rsp reusable with ⟨hno, -⟩ | ⟨path', hiff, hanswer⟩
  · exact absurd hpath (hno path)
  obtain rfl := (hiff path).mp hpath
  obtain ⟨found, store, files', n, himage, hcaller, -, -, hoffers⟩ := h.lookup path
  obtain ⟨rfl, rfl⟩ := (hoffers _ _ _).mp ho
  obtain rfl := hl.unique hcaller.pages.inv.run.inv.free
  obtain ⟨hplan, a, l₁, hl₁, hav, rfl⟩ := hloads
  obtain ⟨a', stackPage, s', own', l', hrun, hp⟩ := prepare_succeeds (some caller) hcaller.pages.exec hentry
    rfl hplan (by rw [hl₁]; exact hav) (by rw [hl₁]; exact hlen)
  obtain ⟨image₁, store₁, files₁, himage₁, hopened⟩ := hfds.execImage path
  obtain ⟨-, rfl⟩ := Prod.mk.inj (Except.ok.inj (himage₁.symm.trans himage))
  have hphys : UserFds reserved ((k.setStore store₁).setPhys s') files₁ nodes₂ :=
    hopened.other (s := s') (c := store₁.serial) rfl rfl
  have hready := hcaller.ready hrun
  obtain ⟨store₂, fdTable, store₃, -, -, -, -, -, hexec, -⟩ := hphys.transfer hcaller.task hready reusable
  have hsame : b.transferred (plan.bootstrap b.archUserProgramEntry a' stackPage) =
      plan.bootstrap b.archUserProgramEntry a' stackPage := if_neg (by simp [hhook])
  generalize execTransferred ((k.setStore store₁).setPhys s') .task1
    (plan.bootstrap b.archUserProgramEntry a' stackPage) fdTable store₃ reusable = k' at hexec
  have hnext : syscallExecPath b k path reusable =
      .ok (execFrame (plan.bootstrap b.archUserProgramEntry a' stackPage), k') := by
    unfold syscallExecPath
    rw [himage, ok_bind]
    dsimp only
    rw [hcaller.bootstrap]
    dsimp only
    rw [hrun, ok_bind]
    unfold syscallExecTransfer
    dsimp only
    rw [hsame, hexec, ok_bind]
    exact if_neg hready.frame
  refine ⟨execFrame (plan.bootstrap b.archUserProgramEntry a' stackPage), k', ?_⟩
  rw [hanswer, hnext, Except.map, execAnswer, if_neg hready.frame]

/-- The machine with the program's path in memory, in two states that differ in one
byte of the last free page. -/
lemma sample_twoRuns : ∃ K own k held files nodes m next next₂ k' k₂',
    ExecCaller K own k .task1 sampleBootstrap secondPages [0x02200000#64] [] held files nodes ∧
    FreeContents secondPages k.phys.mem m ∧ m (0x0220A000 + 8) ≠ k.phys.mem (0x0220A000 + 8) ∧
    ExecPathAt k sampleBootstrap sampleExecFrame.rdi samplePath ∧
    ExecPathAt (withMem k m) sampleBootstrap sampleExecFrame.rdi samplePath ∧
    Offers k.store samplePath (sampleImage 1) 120#64 k.phys ∧
    (kernelSyscallEntry ⟨0x00100000#64, false⟩ k 0x40200000#64 sampleExecFrame (0#64, 0#64)).result =
      .ok (next, sampleExecFrame, k') ∧
    (kernelSyscallEntry ⟨0x00100000#64, false⟩ (withMem k m) 0x40200000#64 sampleExecFrame
      (0#64, 0#64)).result = .ok (next₂, sampleExecFrame, k₂') := by
  have hps : ∀ p ∈ bootPages ++ secondPages, SparePage p := by simp [bootPages, secondPages, SparePage]
  obtain ⟨-, K, own, s₀, k₀, -, hm, -⟩ := loadedMachine_exists hps (by decide)
  obtain ⟨k₁, k, hs⟩ := hm.starts
  obtain ⟨held, files, nodes, h, hpath⟩ := hm.path hs
  obtain ⟨reserved, files₂, nodes₂, hfds⟩ := hm.userFds hs
  have hwalk := hm.walk_image hs
  have ho := hm.offers hs
  have hbytes : ∀ i, i < 8 → (withPathState k).phys.mem (0x02100000 + i) = byteOf 0x0000612F6E69622F#64 i :=
    fun i hi => store64_at _ _ _ hi
  generalize withPathState k = k at *
  obtain ⟨m, hmem⟩ : ∃ m, Function.update k.phys.mem (0x0220A000 + 8) (k.phys.mem (0x0220A000 + 8) + 1) = m :=
    ⟨_, rfl⟩
  have hcontents : FreeContents secondPages k.phys.mem m := by
    intro x hx
    by_cases h8 : x = 0x0220A000 + 8
    · subst h8
      exact ⟨0x0220A000#64, by decide, by decide, by decide⟩
    · rw [← hmem, Function.update_of_ne h8] at hx
      exact absurd rfl hx
  have hne : m (0x0220A000 + 8) ≠ k.phys.mem (0x0220A000 + 8) := by
    rw [← hmem, Function.update_self]
    simp
  have h₂ := h.contents hcontents
  have hfree := h.pages.inv.run.inv.free
  have ho₂ : Offers (withMem k m).store samplePath (sampleImage 1) 120#64 (withMem k m).phys :=
    ho.contents (hcontents.sameNext hfree)
  have hpath₂ : ExecPathAt (withMem k m) sampleBootstrap 0x40001000#64 samplePath := by
    refine ⟨pathAt_sample (fun i hi => ?_) ?_, by decide⟩
    · rw [← hbytes i hi, show (withMem k m).phys.mem = m from rfl, ← hmem]
      exact Function.update_of_ne (by omega) _ _
    · exact (h.contents_walk hcontents _).trans hwalk
  have hentry : (0x00100000#64 : Word).toNat < 2 ^ 52 := by decide
  have hfds₂ : UserFds reserved (withMem k m) files₂ nodes₂ :=
    hfds.other (s := { k.phys with mem := m }) (c := k.store.serial) rfl rfl
  obtain ⟨next, k', hrun⟩ := h.hands_over (b := ⟨0x00100000#64, false⟩) hfds hentry rfl
    (show sampleExecFrame.rax = sysExec from rfl) hpath ho hfree secondPages_loads (by decide) 0x40200000#64
    (0#64, 0#64)
  obtain ⟨next₂, k₂', hrun₂⟩ := h₂.hands_over (b := ⟨0x00100000#64, false⟩) hfds₂ hentry rfl
    (show sampleExecFrame.rax = sysExec from rfl) hpath₂ ho₂ h₂.pages.inv.run.inv.free secondPages_loads
    (by decide) 0x40200000#64 (0#64, 0#64)
  exact ⟨K, own, k, held, files, nodes, m, next, next₂, k', k₂', h, hcontents, hne, hpath, hpath₂, ho, hrun, hrun₂⟩

/-- The last of the five pages becomes the stack. -/
lemma sample_newStack {k : KernelState} (hpath : ExecPathAt k sampleBootstrap sampleExecFrame.rdi samplePath)
    (ho : Offers k.store samplePath (sampleImage 1) 120#64 k.phys) (hfree : FreeList k.phys secondPages) :
    NewStack k sampleBootstrap sampleExecFrame.rdi 0x0220A000#64 :=
  ⟨samplePath, _, _, _, _, _, _, hpath, ho, hfree, secondPages_loads, rfl⟩

end Sample

/-- The sample program's second life depends on its new stack page. -/
theorem exec_sameProgram_iff_sample : ∃ (k k' k₂' : KernelState) (m : Mem) (next next₂ : Word),
    FreeContents secondPages k.phys.mem m ∧
    (kernelSyscallEntry ⟨0x00100000#64, false⟩ k 0x40200000#64 sampleExecFrame (0#64, 0#64)).result =
      .ok (next, sampleExecFrame, k') ∧
    (kernelSyscallEntry ⟨0x00100000#64, false⟩ (withMem k m) 0x40200000#64 sampleExecFrame
      (0#64, 0#64)).result = .ok (next₂, sampleExecFrame, k₂') ∧
    ¬ (next₂ = next ∧ SameProgram .task1 k' k₂') := by
  obtain ⟨K, own, k, held, files, nodes, m, next, next₂, k', k₂', h, hm, hne, hpath, hpath₂, ho, hrun, hrun₂⟩ :=
    sample_twoRuns
  have hentry : (0x00100000#64 : Word).toNat < 2 ^ 52 := by decide
  refine ⟨k, k', k₂', m, next, next₂, hm, hrun, hrun₂,
    (exec_sameProgram_iff h (b := ⟨0x00100000#64, false⟩) hentry rfl hm hpath hpath₂ hrun hrun₂).not.mpr
      fun hall => hne ?_⟩
  exact hall _ (sample_newStack hpath ho h.pages.inv.run.inv.free) 8 (by omega) (by omega)

/-- User mode reads from its new stack what a free page held. -/
theorem exec_shows_old_contents : ∃ K own k held files nodes m next next₂ k' k₂',
    ExecCaller K own k .task1 sampleBootstrap secondPages [0x02200000#64] [] held files nodes ∧
    FreeContents secondPages k.phys.mem m ∧
    ExecPathAt k sampleBootstrap sampleExecFrame.rdi samplePath ∧
    ExecPathAt (withMem k m) sampleBootstrap sampleExecFrame.rdi samplePath ∧
    (kernelSyscallEntry ⟨0x00100000#64, false⟩ k 0x40200000#64 sampleExecFrame (0#64, 0#64)).result =
      .ok (next, sampleExecFrame, k') ∧
    (kernelSyscallEntry ⟨0x00100000#64, false⟩ (withMem k m) 0x40200000#64 sampleExecFrame
      (0#64, 0#64)).result = .ok (next₂, sampleExecFrame, k₂') ∧
    ReadsProgram k'.phys.mem (k'.task .task1).userBootstrap 0x401FF008#64 ∧
    userByte k₂'.phys.mem (k₂'.task .task1).userBootstrap.addressSpace 0x401FF008#64 ≠
      userByte k'.phys.mem (k'.task .task1).userBootstrap.addressSpace 0x401FF008#64 := by
  obtain ⟨K, own, k, held, files, nodes, m, next, next₂, k', k₂', h, hm, hne, hpath, hpath₂, ho, hrun, hrun₂⟩ :=
    sample_twoRuns
  have hentry : (0x00100000#64 : Word).toNat < 2 ^ 52 := by decide
  have h₂ := h.contents hm
  have hfree := h.pages.inv.run.inv.free
  refine ⟨K, own, k, held, files, nodes, m, next, next₂, k', k₂', h, hm, hpath, hpath₂, hrun, hrun₂, ?_⟩
  -- each run reads its own memory there
  have hread {k k' : KernelState} {files : List Word} {next : Word}
      (h : ExecCaller K own k .task1 sampleBootstrap secondPages [0x02200000#64] [] held files nodes)
      (hpath : ExecPathAt k sampleBootstrap sampleExecFrame.rdi samplePath)
      (ho : Offers k.store samplePath (sampleImage 1) 120#64 k.phys)
      (hrun : (kernelSyscallEntry ⟨0x00100000#64, false⟩ k 0x40200000#64 sampleExecFrame (0#64, 0#64)).result =
        .ok (next, sampleExecFrame, k')) :
      ReadsProgram k'.phys.mem (k'.task .task1).userBootstrap 0x401FF008#64 ∧
        userByte k'.phys.mem (k'.task .task1).userBootstrap.addressSpace 0x401FF008#64 =
          some (k.phys.mem (0x0220A000 + 8)) := by
    obtain ⟨image, imageSize, store, n, plan, a, stackPage, s', own', l', ho', hmem, -, hd⟩ :=
      h.syscall_handed (b := ⟨0x00100000#64, false⟩) hentry rfl hpath hrun
    obtain rfl := (hd.newStack (fun path' hp => h.path_unique hp hpath) hpath ho' _).mp
      (sample_newStack hpath ho h.pages.inv.run.inv.free)
    obtain ⟨hwalk, -⟩ := hd.reads_stack (i := 8) (by omega)
    have hold := hd.stack_old (i := 8) (by omega) (by omega)
    rw [hd.bootstrap]
    refine ⟨⟨_, hwalk, rfl, .inr rfl⟩, ?_⟩
    change (mmuWalk k'.phys.mem a (stackVirtual + 8#64)).map _ = _
    rw [show (stackVirtual + 8#64 : Word) = stackVirtual + BitVec.ofNat 64 8 from rfl, hwalk]
    exact congrArg some (hold.trans (congrFun hmem _))
  obtain ⟨hreads, hbyte⟩ := hread h hpath ho hrun
  obtain ⟨-, hbyte₂⟩ := hread h₂ hpath₂ (ho.contents (hm.sameNext hfree)) hrun₂
  refine ⟨hreads, ?_⟩
  rw [hbyte, hbyte₂]
  exact fun he => hne (Option.some.inj he)

end Platinum
