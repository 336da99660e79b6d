import Platinum.ExecOwnership
import Platinum.UserHeap
import Platinum.UserPages

/-!
# The user task at any time

One invariant for the user task from its start to its exit, whichever task is
running: it holds its pages, its tables lead nowhere else, its objects are counted,
and all of this is apart from the kernel's stacks and from the heap.
-/
namespace Platinum
open ByteMemory BlockList SharedTrie

/-- The stack and the image of a program. -/
abbrev UserTaskBootstrap.ownPages (v : UserTaskBootstrap) : List Word := v.userStackPage :: v.imagePages

/-- The pages of the kernel: that of the trampoline code at `entry`, and its stacks. -/
def kernelPages (entry : Word) (stackPages : List Word) : List Word := pageAddress entry :: stackPages

/-- The user task between two steps. On the heap lie its objects and `reserved`; the pages
`pool` are its own or free. -/
structure UserLife (K : KernelTables) (entry : Word) (reserved : ReservedHeap) (stackPages : List Word) (pool : Set Word)
    (own : Owner) (k : KernelState) (caller : UserTaskBootstrap) (l files nodes : List Word) : Prop where
  kind : (k.task .task1).kind = .user
  bootstrap : (k.task .task1).userBootstrap = caller
  pages : CallerPages K own { k.phys with cr3 := caller.addressSpace } caller l [caller.addressSpace]
  conserved : ∀ p, p ∈ pool ↔ p ∈ l ∨ p ∈ programPages caller own
  objects : FdInv (UserHeap (programPages caller own ∪ {p | p ∈ kernelPages entry stackPages}) reserved) k.store
    (tableFiles (k.task .task1).fdTable) files nodes
  table : TableOk k.store (k.task .task1).fdTable
  walk : NamespaceOk k.store
  few : nodes.length ≤ 2
  busy : AllBusy k.store files nodes
  kernel : ∀ p ∈ kernelPages entry stackPages, HeldPage K own l p ∧ p ∉ caller.ownPages
  code : pageAddress entry ∉ stackPages
  maps : ∀ v t, mmuWalk k.phys.mem caller.addressSpace v = some t → t.user = true →
    t.frame ∈ caller.ownPages ∨ t.frame = pageAddress entry

/-- User mode finds the trampoline's code at `entry`, its stack and, in the pages of the window,
the bytes of the image. -/
structure ProgramMapped (m : Mem) (a entry stackPage : Word) (image : Mem) (plan : ElfPlan) : Prop where
  trampoline : mmuWalk m a firstUserLayout.trampolineBase = some ⟨pageAddress entry, true, true⟩
  stack : mmuWalk m a (firstUserLayout.stackTop - 4096#64) = some ⟨stackPage, true, true⟩
  image : ∀ i < plan.span.toNat, ∃ t, mmuWalk m a (firstUserLayout.imageBase + BitVec.ofNat 64 i) = some t ∧
    t.user = true ∧ t.frame ∈ plan.windowPages ∧
    m (t.frame.toNat + (firstUserLayout.imageBase + BitVec.ofNat 64 i).toNat % 4096) =
      loadedByte image plan.phdrs (plan.vaddrBegin.toNat + i)

/-- The bytes of these pages are the same. -/
def KeepsPages (ps : List Word) (m m' : Mem) : Prop := ∀ p ∈ ps, ∀ x, OnPage p x → m' x = m x

section Pages

variable {K : KernelTables} {own own' : Owner} {s s' : Phys} {caller : UserTaskBootstrap} {P Q : Set Word}
  {l l' spaces ps : List Word} {entry rb re imageSize a stackPage p v c : Word} {image : Mem} {plan : ElfPlan}
  {m m' m'' : Mem} {t : Translation}

lemma KeepsPages.refl (ps : List Word) (m : Mem) : KeepsPages ps m m := fun _ _ _ _ => rfl

lemma KeepsPages.trans (h : KeepsPages ps m m') (h' : KeepsPages ps m' m'') : KeepsPages ps m m'' :=
  fun p hp x hx => (h' p hp x hx).trans (h p hp x hx)

lemma KeepsPages.mono {qs : List Word} (h : KeepsPages ps m m') (hqs : ∀ q ∈ qs, q ∈ ps) :
    KeepsPages qs m m' := fun q hq => h q (hqs q hq)

lemma KeepsPages.of_changes (h : ChangesOnly P m m') (hP : ∀ p ∈ P, p.toNat % 4096 = 0)
    (hps : ∀ p ∈ ps, p.toNat % 4096 = 0 ∧ p ∉ P) : KeepsPages ps m m' :=
  fun p hp _ hx => h.byte hP (hps p hp).1 (hps p hp).2 hx

/-- Writing one page keeps another one. -/
lemma KeepsPages.of_page {q : Word} (h : ChangesOnly {q} m m') (hq : IsPage q) (hp : IsPage p) (hne : p ≠ q) :
    KeepsPages [p] m m' := by
  refine .of_changes h (fun x hx => ?_) fun x hx => ?_
  · rw [Set.mem_singleton_iff.mp hx]
    exact hq.aligned
  · rw [List.mem_singleton.mp hx]
    exact ⟨hp.aligned, hne⟩

lemma CallerPages.space_ne (h : CallerPages K own s caller l spaces) : caller.addressSpace ≠ K.root := by
  intro he
  have hspace := h.inv.run.space _ h.space
  rw [IsSpace, he, h.inv.run.inv.root_own] at hspace
  cases hspace

/-- Pages that are neither free nor tables may be written. -/
lemma ExecRunInv.writtenAll (h : ExecRunInv K own s l spaces) (hP : ∀ p ∈ P, HeldPage K own l p)
    (hm : ChangesOnly P s.mem m) : ExecRunInv K own { s with mem := m } l spaces := by
  have hpage : ∀ q ∈ P, q.toNat % 4096 = 0 := fun q hq => (hP q hq).page.aligned
  refine ⟨⟨⟨h.run.inv.free.frame rfl hm hpage fun q hq => (hP q hq).used, h.run.inv.root, ?_, ?_,
    h.run.inv.free_own, h.run.inv.free_kernel⟩, h.run.space, h.run.owner⟩, h.positions⟩
  · intro π q i hd hn
    rw [← h.run.inv.kernel π q i hd hn]
    exact hm.slot hpage (K.isTable_page ⟨π, hd, hn⟩).aligned (fun hq => (hP q hq).apart ⟨π, hd, hn⟩) i
  · refine h.run.inv.tables.congr fun q b π i hq => ?_
    refine hm.slot hpage (h.run.inv.own_page hq).aligned (fun hqP => ?_) i
    rw [(hP q hqP).unowned] at hq
    cases hq

/-- Translation depends on the tables alone. -/
lemma ExecRunInv.walk_eq (h : ExecRunInv K own s l spaces) (h' : ExecRunInv K own s' l' spaces)
    (hP : ∀ p ∈ P, p.toNat % 4096 = 0 ∧ own p = none) (hm : ChangesOnly P s.mem s'.mem) (ha : a ∈ spaces)
    (v : Word) : mmuWalk s'.mem a v = mmuWalk s.mem a v := by
  have hspace := h.run.space a ha
  rw [h'.run.inv.mmuWalk_eq hspace, h.run.inv.mmuWalk_eq hspace]
  refine congrArg _ (h.run.inv.leaf_congr h'.run.inv (fun q x i hq => ?_) hspace rfl _)
  refine hm.slot (fun p hp => (hP p hp).1) (h.run.inv.own_page hq).aligned (fun hqP => ?_) i
  rw [(hP q hqP).2] at hq
  cases hq

lemma CallerPages.writtenAll (h : CallerPages K own s caller l spaces) (hP : ∀ p ∈ P, HeldPage K own l p)
    (hm : ChangesOnly P s.mem m) : CallerPages K own { s with mem := m } caller l spaces :=
  ⟨h.inv.writtenAll hP hm, h.limit, h.space, h.loaded, h.layout, h.image, h.stack, h.apart⟩

/-- User mode reaches the new program's pages and the trampoline's. -/
lemma Prepared.userFrames (hp : Prepared K entry rb re image plan s own l a stackPage s' own' l')
    (hctx : ExecContext K own s l rb re) (hplan : execPlan image imageSize = some plan)
    (hentry : entry.toNat < 2 ^ 52) (ht : mmuWalk s'.mem a v = some t) (hu : t.user = true) :
    t.frame ∈ (plan.bootstrap entry a stackPage).ownPages ∨ t.frame = pageAddress entry := by
  have hv := (elfCheck_valid hplan).1
  have hstack := (hp.own_stack hctx).1
  by_cases hno : userPath v = firstPath → ∀ w p, (w, p) ∈ plan.userPages entry stackPage → ptIndex v ≠ ptIndex w
  · rw [hp.translation_kernel hno] at ht
    rw [hp.inv.kernel_supervisor ht] at hu
    cases hu
  push Not at hno
  obtain ⟨hpath, w, p, hwp, hi⟩ := hno
  have hlt : p.toNat < 2 ^ 52 := ElfPlan.userPages_lt hv hstack.lt hentry hwp
  rw [hp.inv.mmuWalk_eq hp.space, hpath, hi, hp.here w p hwp, leafTranslation_userEntry hlt] at ht
  obtain rfl := Option.some.inj ht
  have hcases := hwp
  simp only [ElfPlan.userPages, List.mem_append, List.mem_cons, List.not_mem_nil, or_false,
    Prod.mk.injEq] at hcases
  have hpage (hal : p.toNat % 4096 = 0) : pageAddress p = p := WordArith.alignDown_of_aligned hal
  rcases hcases with hwin | ⟨-, rfl⟩ | ⟨-, rfl⟩
  · left
    have hpw : p ∈ plan.windowPages := by
      obtain ⟨i, hi, he⟩ := List.mem_map.mp hwin
      have hi := List.mem_range.mp hi
      refine hv.mem_windowPages.mpr ⟨i, hi, ?_⟩
      have hc := hv.pageCount_le
      rw [← (Prod.mk.inj he).2, BitVec.toNat_add, BitVec.toNat_mul, BitVec.toNat_ofNat, ElfPlan.toNat_base,
        show (4096#64 : Word).toNat = 4096 from rfl]
      omega
    refine List.mem_cons_of_mem _ ?_
    rw [ElfPlan.imagePages_bootstrap hv]
    exact (hpage (hv.windowPages_page hpw).aligned).symm ▸ hpw
  · left
    rw [hpage hstack.aligned]
    exact List.mem_cons_self
  · exact .inr rfl

lemma Prepared.programMapped (hv : plan.Valid imageSize firstUserLayout) (hentry : entry.toNat < 2 ^ 52)
    (hstack : IsPage stackPage) (hp : Prepared K entry rb re image plan s own l a stackPage s' own' l') :
    ProgramMapped s'.mem a entry stackPage image plan := by
  have hstackWalk : mmuWalk s'.mem a (firstUserLayout.stackTop - 4096#64) =
      some ⟨pageAddress stackPage, true, true⟩ := hp.translation_user hv (by simp [ElfPlan.userPages, stackVirtual]) hstack.lt
  rw [show pageAddress stackPage = stackPage from WordArith.alignDown_of_aligned hstack.aligned] at hstackWalk
  refine ⟨hp.translation_user hv (by simp [ElfPlan.userPages]) hentry, hstackWalk, fun i hi => ?_⟩
  have hspan := hv.span_eq
  have hcount := hv.pageCount_le
  have hbase : firstUserLayout.imageBase.toNat = 0x40001000 := rfl
  have hvi : (firstUserLayout.imageBase + BitVec.ofNat 64 i).toNat = 0x40001000 + i := by
    rw [BitVec.toNat_add, BitVec.toNat_ofNat, hbase]
    omega
  have hpage : pageAddress (firstUserLayout.imageBase + BitVec.ofNat 64 i) =
      firstUserLayout.imageBase + BitVec.ofNat 64 (4096 * (i / 4096)) := by
    apply BitVec.eq_of_toNat_eq
    rw [pageAddress, WordArith.toNat_alignDown, hvi, imagePage_toNat hv (show i / 4096 < plan.pageCount by omega)]
    omega
  have hframe : (elfUserLoadBase + BitVec.ofNat 64 (4096 * (i / 4096))).toNat =
      0x02100000 + 4096 * (i / 4096) := by
    rw [BitVec.toNat_add, BitVec.toNat_ofNat, ElfPlan.toNat_base]
    omega
  have hmem : (firstUserLayout.imageBase + BitVec.ofNat 64 (4096 * (i / 4096)),
      elfUserLoadBase + BitVec.ofNat 64 (4096 * (i / 4096))) ∈ plan.userPages entry stackPage := by
    refine List.mem_append_left _ (List.mem_map.mpr ⟨i / 4096, List.mem_range.mpr (by omega), ?_⟩)
    rw [mul_page, mul_page]
  have hwalk := hp.translation_user hv hmem (by omega)
  rw [← hpage, mmuWalk_pageAddress] at hwalk
  have hbyte := hp.image_byte hv hi
  rw [userByte, hwalk, Option.map_some] at hbyte
  refine ⟨_, hwalk, rfl, ?_, Option.some.inj hbyte⟩
  refine hv.mem_windowPages.mpr ⟨i / 4096, by omega, ?_⟩
  rw [pageAddress, WordArith.toNat_alignDown, hframe]
  omega

/-- It stays there as long as neither the window nor the translation changes. -/
lemma ProgramMapped.kept (h : ProgramMapped m a entry stackPage image plan)
    (hv : plan.Valid imageSize firstUserLayout) (hwalk : ∀ v, mmuWalk m' a v = mmuWalk m a v)
    (hm : ChangesOnly P m m') (hP : ∀ p ∈ P, p.toNat % 4096 = 0 ∧ p ∉ plan.windowPages) :
    ProgramMapped m' a entry stackPage image plan := by
  refine ⟨(hwalk _).trans h.trampoline, (hwalk _).trans h.stack, fun i hi => ?_⟩
  obtain ⟨t, ht, hu, hframe, hbyte⟩ := h.image i hi
  refine ⟨t, (hwalk _).trans ht, hu, hframe, ?_⟩
  rw [← hbyte]
  exact hm.byte (fun p hp => (hP p hp).1) (hv.windowPages_page hframe).aligned (fun hp => (hP _ hp).2 hframe)
    (onPage_frame _ _)

end Pages

section Life

variable {K : KernelTables} {own : Owner} {k k' : KernelState} {caller : UserTaskBootstrap}
  {l files nodes files' nodes' stackPages : List Word} {reserved : ReservedHeap} {pool : Set Word} {entry p : Word} {store : Store}
  {table : FdTable} {m : Mem} {P : Set Word}

/-- The pages that user mode reaches. -/
def reachedPages (caller : UserTaskBootstrap) (entry : Word) : Set Word :=
  {p | p ∈ caller.ownPages ∨ p = pageAddress entry}

/-- The pages that are written as the task runs and is interrupted. -/
def lifePages (caller : UserTaskBootstrap) (entry : Word) (stackPages : List Word) : Set Word :=
  {p | p ∈ caller.ownPages ∨ p ∈ kernelPages entry stackPages}

lemma reachedPages_life {p : Word} (hp : p ∈ reachedPages caller entry) : p ∈ lifePages caller entry stackPages :=
  hp.imp_right fun he => by
    rw [he]
    exact List.mem_cons_self

lemma UserLife.held (h : UserLife K entry reserved stackPages pool own k caller l files nodes) :
    ∀ p ∈ lifePages caller entry stackPages, HeldPage K own l p :=
  fun p hp => hp.elim (h.pages.held p) fun hp => (h.kernel p hp).1

/-- Translation does not depend on pages that are no tables. -/
lemma UserLife.walk_held (h : UserLife K entry reserved stackPages pool own k caller l files nodes)
    (hP : ∀ p ∈ P, HeldPage K own l p) (hm : ChangesOnly P k.phys.mem m) (v : Word) :
    mmuWalk m caller.addressSpace v = mmuWalk k.phys.mem caller.addressSpace v := by
  have hwritten : ExecRunInv K own { k.phys with cr3 := caller.addressSpace, mem := m } l
      [caller.addressSpace] := h.pages.inv.writtenAll hP hm
  exact h.pages.inv.walk_eq hwritten (fun p hp => ⟨(hP p hp).page.aligned, (hP p hp).unowned⟩) hm h.pages.space v

lemma UserLife.walk_life (h : UserLife K entry reserved stackPages pool own k caller l files nodes)
    (hm : ChangesOnly (lifePages caller entry stackPages) k.phys.mem m) (v : Word) :
    mmuWalk m caller.addressSpace v = mmuWalk k.phys.mem caller.addressSpace v := h.walk_held h.held hm v

lemma UserLife.free (h : UserLife K entry reserved stackPages pool own k caller l files nodes) :
    FreeList k.phys l := by
  have hfree := h.pages.inv.run.inv.free
  exact ⟨hfree.chain, hfree.nodup, hfree.pages⟩

/-- What user mode reaches. -/
lemma UserLife.window (h : UserLife K entry reserved stackPages pool own k caller l files nodes) :
    UserWindow (reachedPages caller entry) k.phys.mem caller.addressSpace where
  aligned p hp := (h.held p (reachedPages_life hp)).page.aligned
  reach := h.maps
  stable _ hm v := h.walk_life (hm.mono fun _ hp => reachedPages_life hp) v

/-- The kernel's stacks are out of reach. -/
lemma UserLife.keeps (h : UserLife K entry reserved stackPages pool own k caller l files nodes)
    (hm : ChangesOnly (reachedPages caller entry) k.phys.mem m) : KeepsPages stackPages k.phys.mem m := by
  refine .of_changes hm (fun p hp => (h.held p (reachedPages_life hp)).page.aligned) fun p hp => ?_
  obtain ⟨hheld, hown⟩ := h.kernel p (List.mem_cons_of_mem _ hp)
  refine ⟨hheld.page.aligned, fun hr => ?_⟩
  rcases hr with hr | rfl
  · exact hown hr
  · exact h.code hp

/-- Nor are they, or the trampoline's code, where the program's own pages are written. -/
lemma UserLife.keepsKernel (h : UserLife K entry reserved stackPages pool own k caller l files nodes)
    (hm : ChangesOnly {p | p ∈ caller.ownPages} k.phys.mem m) :
    KeepsPages (kernelPages entry stackPages) k.phys.mem m := by
  refine .of_changes hm (fun p hp => (h.pages.held p hp).page.aligned) fun p hp => ?_
  obtain ⟨hheld, hown⟩ := h.kernel p hp
  exact ⟨hheld.page.aligned, hown⟩

lemma UserLife.alone (h : UserLife K entry reserved stackPages pool own k caller l files nodes) :
    FdInv (UserHeap (programPages caller own ∪ {p | p ∈ kernelPages entry stackPages}) reserved) k.store
      (tableFiles (k.task .task1).fdTable ++ []) files nodes := by
  rw [List.append_nil]
  exact h.objects

lemma UserLife.room (h : UserLife K entry reserved stackPages pool own k caller l files nodes) :
    files.length + 2 * nodes.length ≤ 20 := by
  have hfiles := h.objects.counts.files_le
  have htable := tableFiles_length (k.task .task1).fdTable
  have hfew := h.few
  omega

/-- Pages that are neither free nor tables may be written, another address space may be
loaded, and the serial line may be used. -/
lemma UserLife.others (h : UserLife K entry reserved stackPages pool own k caller l files nodes)
    (hP : ∀ p ∈ P, HeldPage K own l p) (hm : ChangesOnly P k.phys.mem m) {rsp cr3 : Word} {state : TaskState}
    {c : List Byte} (htask : k'.task .task1 = { k.task .task1 with rsp := rsp, state := state })
    (hstore : k'.store = { k.store with phys := { k.phys with mem := m, cr3 := cr3 }, serial := c }) :
    UserLife K entry reserved stackPages pool own k' caller l files nodes := by
  have hphys : k'.phys = { k.phys with mem := m, cr3 := cr3 } := congrArg Store.phys hstore
  have hkept : Kept k.store k'.store files nodes := by
    rw [hstore]
    exact ⟨fun _ _ => rfl, fun _ _ => rfl, fun _ _ => rfl, fun _ _ => rfl, fun _ _ => rfl, rfl, rfl⟩
  have hpages : CallerPages K own { k'.phys with cr3 := caller.addressSpace } caller l
      [caller.addressSpace] := by
    rw [hphys]
    exact h.pages.writtenAll hP hm
  have hfree : FreeList k'.phys l := by
    have hfree := hpages.inv.run.inv.free
    exact ⟨hfree.chain, hfree.nodup, hfree.pages⟩
  have hptrs : objectPtrs k'.store files nodes = objectPtrs k.store files nodes := by
    rw [hstore]
    rfl
  refine ⟨?_, ?_, hpages, h.conserved, ⟨?_, ?_⟩, ?_, h.walk.congr hkept.root hkept.ready, h.few, fun n hn => ?_, h.kernel,
    h.code, ?_⟩
  · rw [htask]
    exact h.kind
  · rw [htask]
    exact h.bootstrap
  · rw [htask]
    exact h.objects.counts.congr (by rw [hstore]) (by rw [hstore])
  · have hheap := h.objects.heap.shrink h.free hfree fun p hp => hp
    rw [hptrs, show k'.store.heap = k.store.heap by rw [hstore]]
    exact hheap
  · rw [htask]
    exact h.table.grow h.objects.counts hkept fun f hf => hf
  · rw [filesOn_congr hkept.node]
    exact h.busy n hn
  · intro v t ht hu
    rw [hphys] at ht
    rw [h.walk_held hP hm v] at ht
    exact h.maps v t ht hu

lemma UserLife.other (h : UserLife K entry reserved stackPages pool own k caller l files nodes)
    (hm : ChangesOnly (lifePages caller entry stackPages) k.phys.mem m) {rsp cr3 : Word} {state : TaskState}
    {c : List Byte} (htask : k'.task .task1 = { k.task .task1 with rsp := rsp, state := state })
    (hstore : k'.store = { k.store with phys := { k.phys with mem := m, cr3 := cr3 }, serial := c }) :
    UserLife K entry reserved stackPages pool own k' caller l files nodes := h.others h.held hm htask hstore

lemma UserLife.setMem (h : UserLife K entry reserved stackPages pool own k caller l files nodes)
    (hm : ChangesOnly (lifePages caller entry stackPages) k.phys.mem m) :
    UserLife K entry reserved stackPages pool own (k.setPhys { k.phys with mem := m }) caller l files nodes :=
  h.other hm rfl rfl

lemma UserLife.held_stack (h : UserLife K entry reserved stackPages pool own k caller l files nodes)
    (hp : p ∈ stackPages) : ∀ q ∈ ({p} : Set Word), HeldPage K own l q := fun q hq => by
  rw [Set.mem_singleton_iff.mp hq]
  exact (h.kernel p (List.mem_cons_of_mem _ hp)).1

/-- A call on the task's table takes no page; it may write those of the program. -/
lemma UserLife.tableStep (h : UserLife K entry reserved stackPages pool own k caller l files nodes)
    (hs : TableStep (UserHeap (programPages caller own ∪ {p | p ∈ kernelPages entry stackPages}) reserved)
      k.store [] files nodes store table files' nodes')
    (hw : WritesOnly (lifePages caller entry stackPages) k.phys store.phys) (hfew : nodes'.length ≤ 2)
    (hbusy : AllBusy store files' nodes') :
    UserLife K entry reserved stackPages pool own (k.withTable .task1 table store) caller l files' nodes' := by
  obtain ⟨m, hphys, hm⟩ := hw
  have hinv := hs.inv
  rw [List.append_nil] at hinv
  have htask : (k.withTable .task1 table store).task .task1 = { k.task .task1 with fdTable := table } :=
    KernelState.setTask_same _ _ _
  have hphys' : (k.withTable .task1 table store).phys = { k.phys with mem := m } := hphys
  refine ⟨?_, ?_, ?_, h.conserved, ?_, ?_, h.walk.congr hs.root hs.ready, hfew, hbusy, h.kernel, h.code, ?_⟩
  · rw [htask]
    exact h.kind
  · rw [htask]
    exact h.bootstrap
  · rw [hphys']
    exact h.pages.writtenAll h.held hm
  · rw [htask]
    exact hinv
  · rw [htask]
    exact hs.table
  · intro v t ht hu
    rw [hphys', h.walk_life hm v] at ht
    exact h.maps v t ht hu

/-- Reading and writing, through buffers of the program. -/
lemma UserLife.moved (h : UserLife K entry reserved stackPages pool own k caller l files nodes)
    (hm : OffsetsMoved k.store store) (hw : WritesOnly (lifePages caller entry stackPages) k.phys store.phys) :
    UserLife K entry reserved stackPages pool own (k.setStore store) caller l files nodes := by
  have hfree : FreeList store.phys l := by
    obtain ⟨m, hphys, hmem⟩ := hw
    have hfree := (h.pages.writtenAll h.held hmem).inv.run.inv.free
    rw [hphys]
    exact ⟨hfree.chain, hfree.nodup, hfree.pages⟩
  have hH := h.objects.heap.shrink h.free hfree fun p hp => hp
  rw [← hm.heap] at hH
  have hbusy : AllBusy store files nodes := fun n hn => by
    rw [filesOn_congr (hm.kept files nodes).node]
    exact h.busy n hn
  have hlife := h.tableStep (hm.step h.alone hH h.table) hw h.few hbusy
  rwa [withTable_same] at hlife

end Life

end Platinum
