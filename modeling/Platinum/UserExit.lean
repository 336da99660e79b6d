import Platinum.UserExec

/-!
# The exit of the user task

The idle task goes on. Everything that the user task held is free, but for what the
words that nobody sets make the release skip, and nothing of it is left on the heap.
-/
namespace Platinum
open ByteMemory BlockList SharedTrie

section Exit

variable {k k' : KernelState} {t : TaskId} {table : FdTable} {store : Store}

lemma schedSelectNext_other (h : (k.task t.other).state = .runnable) : schedSelectNext k t = .ok t.other := by
  have ho : (if t = .task0 then TaskId.task1 else .task0) = t.other := by cases t <;> rfl
  unfold schedSelectNext
  dsimp only
  rw [ho, if_pos h]

/-- The other task goes on, and this one is done. -/
def exited (k : KernelState) (t : TaskId) (table : FdTable) (store : Store) : KernelState :=
  resumed ({ k with store := store }.setTask t { k.task t with
    fdTable := table, userBootstrap := clearBootstrap, rsp := 0#64, state := .done }) t.other

lemma exited_same (k : KernelState) (t : TaskId) (table : FdTable) (store : Store) :
    (exited k t table store).task t = { k.task t with
      fdTable := table, userBootstrap := clearBootstrap, rsp := 0#64, state := .done } := by
  have hne : t ≠ t.other := (TaskId.other_ne t).symm
  have ho : (exited k t table store).task t = ({ k with store := store }.setTask t { k.task t with
      fdTable := table, userBootstrap := clearBootstrap, rsp := 0#64, state := .done }).task t :=
    Function.update_of_ne hne _ _
  rw [ho, KernelState.setTask_same]

lemma exited_other (k : KernelState) (t : TaskId) (table : FdTable) (store : Store) :
    (exited k t table store).task t.other = { k.task t.other with state := .running } := by
  have ho : (exited k t table store).task t.other =
      { ({ k with store := store }.setTask t { k.task t with
        fdTable := table, userBootstrap := clearBootstrap, rsp := 0#64, state := .done }).task t.other with
        state := .running } := resumed_task_same
  rw [ho, KernelState.setTask_ne (TaskId.other_ne t)]

lemma exited_store (k : KernelState) (t : TaskId) (table : FdTable) (store : Store) :
    (exited k t table store).store =
      { store with phys := { store.phys with cr3 := (k.task t.other).cr3 } } := by
  have ho : ({ k with store := store }.setTask t { k.task t with
      fdTable := table, userBootstrap := clearBootstrap, rsp := 0#64, state := .done }).task t.other =
      k.task t.other := KernelState.setTask_ne (TaskId.other_ne t)
  have hs : (exited k t table store).store = { store with phys := { store.phys with
      cr3 := (({ k with store := store }.setTask t { k.task t with
        fdTable := table, userBootstrap := clearBootstrap, rsp := 0#64, state := .done }).task t.other).cr3 } } :=
    rfl
  rw [hs, ho]

/-- An exit when the other task can run. -/
lemma schedExitCurrent_exited (hs : k.schedStarted = true) (ht : k.current = some t)
    (hclose : fdTableCloseAll k.store (k.task t).fdTable = .ok (table, store)) (hphys : store.phys = k.phys)
    (hother : (k.task t.other).state = .runnable)
    (hready : TaskReady k.phys.pagingKernelPml4 (k.task t.other)) (reusable : Word × Word) :
    schedExitCurrent k reusable = .ok ((k.task t.other).rsp,
      (exited k t table store).setPhys (schedReleaseUserBootstrap (exited k t table store).phys
        (k.task t).userBootstrap reusable).1) := by
  obtain ⟨k₁, hk₁⟩ : ∃ k₁, { k with store := store }.setTask t { k.task t with
      fdTable := table, userBootstrap := clearBootstrap, rsp := 0#64, state := .done } = k₁ := ⟨_, rfl⟩
  have hnext : k₁.task t.other = k.task t.other := by
    rw [← hk₁]
    exact KernelState.setTask_ne (TaskId.other_ne t)
  have hroot : k₁.phys.pagingKernelPml4 = k.phys.pagingKernelPml4 := by
    rw [← hk₁]
    exact congrArg Phys.pagingKernelPml4 hphys
  have hact : schedActivate k₁ t.other = .ok (exited k t table store) := by
    have hk : exited k t table store = resumed k₁ t.other := by rw [← hk₁, exited]
    rw [hk]
    refine schedActivate_of_ready ?_ ?_
    · rw [hnext, hroot]
      exact hready
    · rw [hnext]
      exact hother
  have hrsp : ((exited k t table store).task t.other).rsp = (k.task t.other).rsp := by rw [exited_other]
  rw [ht] at hk₁
  dsimp only at hk₁
  unfold schedExitCurrent
  rw [ht]
  dsimp only
  rw [if_neg (by simp [hs]), hclose, ok_bind]
  dsimp only
  rw [hk₁, schedSelectNext_other (by rw [hnext]; exact hother), ok_bind, hact, ok_bind, ← hrsp]
  rfl

end Exit

/-- What is left when the user task is gone: of the pages `pool` every one is free or `lost`, of
the blocks on the heap those of `reserved` are left. -/
structure UserGone (K : KernelTables) (reserved : ReservedHeap) (stackPages : List Word) (pool lost : Set Word)
    (k : KernelState) : Prop where
  current : k.current = some .task0
  started : k.schedStarted = true
  running : (k.task .task0).state = .running
  done : (k.task .task1).state = .done
  table : (k.task .task1).fdTable = fdTableInitialize
  loaded : k.phys.cr3 = (k.task .task0).cr3
  pages : ∀ p ∈ stackPages, IsPage p ∧ p ∉ pool ∧ ¬ K.IsTable p
  apart : ∀ p ∈ pool, ¬ K.IsTable p
  tables : ∃ l, PagingInv K (fun _ => none) k.phys l ∧ (∀ p ∈ l, p ∈ pool) ∧ ∀ p ∈ pool, p ∈ l ∨ p ∈ lost
  objects : FdInv (UserHeap {p | p ∈ stackPages} reserved) k.store [] [] []
  walk : NamespaceOk k.store

section Gone

variable {K : KernelTables} {own : Owner} {k : KernelState} {caller : UserTaskBootstrap}
  {l files nodes stackPages : List Word} {reserved : ReservedHeap} {pool lost : Set Word} {entry : Word}
  {s s' : Phys} {c : Word}

/-- The kernel's own tables are left when the private ones are freed. -/
lemma PagingInv.kernelOnly {P : Set Word} {l' : List Word} (h : PagingInv K own s l) (hl : FreeList s' l')
    (hroot : s'.pagingKernelPml4 = s.pagingKernelPml4) (hm : ChangesOnly P s.mem s'.mem)
    (hP : ∀ p ∈ P, p.toNat % 4096 = 0 ∧ ¬ K.IsTable p) (hl' : ∀ p ∈ l', ¬ K.IsTable p) :
    PagingInv K (fun _ => none) s' l' := by
  refine ⟨hl, hroot.trans h.root, fun π t i hd hn => ?_, by constructor <;> simp, fun _ _ => rfl, hl'⟩
  rw [← h.kernel π t i hd hn]
  exact hm.slot (fun p hp => (hP p hp).1) (K.node_page π t hd hn).aligned (fun ht => (hP t ht).2 ⟨π, hd, hn⟩) i

/-- Everything that the task held is freed, but for image pages in the range of `reusable`. -/
lemma UserRuns.released (h : UserRuns K entry reserved stackPages pool own k caller l files nodes)
    (reusable : Word × Word) (c : Word) :
    ∃ l', FreeList (schedReleaseUserBootstrap { k.phys with cr3 := c } caller reusable).1 l' ∧
      (∀ p ∈ l', p ∈ pool) ∧
      (∀ p ∈ pool, p ∈ l' ∨ p ∈ {p | pageInRange p reusable.1 reusable.2 = true}) ∧
      SameGlobals { k.phys with cr3 := c } (schedReleaseUserBootstrap { k.phys with cr3 := c } caller reusable).1 ∧
      ChangesOnly (programPages caller own) k.phys.mem
        (schedReleaseUserBootstrap { k.phys with cr3 := c } caller reusable).1.mem := by
  have hrun := h.pages.inv.run.loadCr3 c
  have hholds : HoldsPages { k.phys with cr3 := c } [caller.addressSpace] l caller :=
    .of_held hrun h.pages.space h.pages.held (List.nodup_cons.mpr ⟨h.pages.apart, h.pages.image_nodup⟩)
  have hpath : userPath caller.layout.trampolineBase = firstPath := by
    rw [h.pages.layout]
    rfl
  have hreleased : ∀ p ∈ caller.userStackPage :: unowned reusable.1 reusable.2 caller.imagePages,
      p ∈ caller.ownPages := by
    intro p hp
    rcases List.mem_cons.mp hp with rfl | hp
    · exact List.mem_cons_self
    · exact List.mem_cons_of_mem _ (mem_unowned.mp hp).1
  obtain ⟨tables, htables, hfree, -⟩ := schedReleaseUserBootstrap_list hrun hholds reusable
  obtain ⟨tables', htables', heq⟩ := schedReleaseUserBootstrap_freeAll hrun hholds reusable
  rw [hpath] at htables htables'
  have hown (ps : List Word) (hps : PathTables own caller.addressSpace firstPath ps) (p : Word) :
      p ∈ ps ↔ ∃ x, own p = some x := by
    rw [hps.mem_iff]
    constructor
    · rintro ⟨ρ, -, hρ⟩
      exact ⟨_, hρ⟩
    · rintro ⟨⟨b, ρ⟩, hρ⟩
      obtain rfl : b = caller.addressSpace := by simpa using h.pages.inv.run.owner p b ρ hρ
      exact ⟨ρ, h.pages.inv.positions p _ ρ hρ, hρ⟩
  refine ⟨_, hfree, fun p hp => ?_, fun p hp => ?_, schedReleaseUserBootstrap_globals _ _ _, ?_⟩
  · rw [List.mem_append, List.mem_append, List.mem_reverse, List.mem_reverse, hown tables htables p] at hp
    rw [h.life.conserved p]
    rcases hp with hp | hp | hp
    · exact .inr (.inr hp)
    · exact .inr (.inl (hreleased p hp))
    · exact .inl hp
  · rw [List.mem_append, List.mem_append, List.mem_reverse, List.mem_reverse, hown tables htables p]
    rcases (h.life.conserved p).mp hp with hp | hp | hp
    · exact .inl (.inr (.inr hp))
    · rcases List.mem_cons.mp hp with rfl | hp
      · exact .inl (.inr (.inl List.mem_cons_self))
      · cases hrange : pageInRange p reusable.1 reusable.2 with
        | true => exact .inr hrange
        | false => exact .inl (.inr (.inl (List.mem_cons_of_mem _ (mem_unowned.mpr ⟨hp, hrange⟩))))
    · exact .inl (.inl hp)
  · rw [heq]
    refine (freeAll_frame _ _).mono fun p hp => ?_
    rcases List.mem_append.mp hp with hp | hp
    · exact .inl (hreleased p hp)
    · exact .inr ((hown tables' htables' p).mp hp)

/-- The idle task is resumed, and nothing of the user task is left. -/
theorem UserRuns.exits (h : UserRuns K entry reserved stackPages pool own k caller l files nodes)
    (hother : (k.task .task0).state = .runnable)
    (hready : TaskReady k.phys.pagingKernelPml4 (k.task .task0)) (reusable : Word × Word) :
    ∃ k', schedExitCurrent k reusable = .ok ((k.task .task0).rsp, k') ∧
      UserGone K reserved stackPages pool {p | pageInRange p reusable.1 reusable.2 = true} k' ∧
      k'.task .task0 = { k.task .task0 with state := .running } ∧
      k'.phys.pagingKernelPml4 = k.phys.pagingKernelPml4 ∧
      KeepsPages (kernelPages entry stackPages) k.phys.mem k'.phys.mem ∧ FilesFramed ∅ k.store k'.store := by
  obtain ⟨store, hclose, hphys, hobjects, hroot, hnamespace⟩ :=
    h.life.objects.closedAll (userHeap_spec _ reserved) h.life.table h.life.busy
  have hexit := schedExitCurrent_exited h.started h.current hclose hphys hother hready reusable
  have hstate : (exited k .task1 fdTableInitialize store).phys =
      { k.phys with cr3 := (k.task .task0).cr3 } := by
    rw [KernelState.phys, exited_store, hphys]
    rfl
  rw [hstate, h.life.bootstrap] at hexit
  obtain ⟨l', hfree, hpool, hlost, hglobals, hmem⟩ := h.released reusable (k.task .task0).cr3
  generalize (schedReleaseUserBootstrap { k.phys with cr3 := (k.task .task0).cr3 } caller reusable).1 = s at *
  have hstore : ((exited k .task1 fdTableInitialize store).setPhys s).store = { store with phys := s } := by
    have hs : ((exited k .task1 fdTableInitialize store).setPhys s).store =
      { (exited k .task1 fdTableInitialize store).store with phys := s } := rfl
    rw [hs, exited_store]
  have hsame := exited_same k .task1 fdTableInitialize store
  have hkernel {p : Word} (hpk : p ∈ kernelPages entry stackPages) : HeldPage K own l p ∧ p ∉ pool :=
    ⟨(h.life.kernel p hpk).1, fun hp => h.life.kernel_apart hpk ((h.life.conserved p).mp hp)⟩
  have hstack {p : Word} (hps : p ∈ stackPages) : HeldPage K own l p ∧ p ∉ pool :=
    hkernel (List.mem_cons_of_mem _ hps)
  have hinv := h.pages.inv.run.inv
  have hprogram : ∀ p ∈ programPages caller own, p.toNat % 4096 = 0 ∧ ¬ K.IsTable p := by
    rintro p (hp | ⟨⟨b, ρ⟩, hρ⟩)
    · exact ⟨(h.pages.held p hp).page.aligned, (h.pages.held p hp).apart⟩
    · refine ⟨(hinv.own_page hρ).aligned, ?_⟩
      rintro ⟨π, hd, hn⟩
      rw [hinv.tables.base_free hd hn] at hρ
      cases hρ
  have hapart : ∀ p ∈ pool, ¬ K.IsTable p := by
    intro p hp
    rcases (h.life.conserved p).mp hp with hp | hp
    · exact hinv.free_kernel p hp
    · exact (hprogram p hp).2
  have htables : PagingInv K (fun _ => none) s l' :=
    hinv.kernelOnly hfree hglobals.kernelPml4 hmem hprogram fun p hp => hapart p (hpool p hp)
  refine ⟨_, hexit, ⟨rfl, h.started, ?_, ?_, ?_, ?_,
    fun p hps => ⟨(hstack hps).1.page, (hstack hps).2, (hstack hps).1.apart⟩, hapart, ⟨l', htables, hpool, hlost⟩,
    ⟨?_, ?_⟩, ?_⟩, ?_, hglobals.kernelPml4, ?_, ?_⟩
  · exact congrArg Task.state (exited_other k .task1 fdTableInitialize store)
  · exact congrArg Task.state hsame
  · exact congrArg Task.fdTable hsame
  · exact hglobals.cr3.trans (congrArg Task.cr3 (exited_other k .task1 fdTableInitialize store)).symm
  · exact hobjects.counts.congr (by rw [hstore]) (by rw [hstore])
  · rw [hstore]
    have hfree₀ : FreeList store.phys l := by
      rw [hphys]
      exact h.life.free
    refine hobjects.heap.trade hfree₀ hfree (fun p hp => ?_) (fun p hp => ?_) fun p hp hps => ?_
    · rcases (h.life.conserved p).mp (hpool p hp) with hp | hp
      · exact .inl hp
      · exact .inr (.inl hp)
    · exact .inr (.inr (List.mem_cons_of_mem _ hp))
    · exact (hstack hps).2 (hpool p hp)
  · rw [hstore]
    exact h.life.walk.congr hroot hnamespace
  · exact exited_other k .task1 fdTableInitialize store
  · refine .of_changes hmem (fun p hp => (hprogram p hp).1) fun p hps => ?_
    · obtain ⟨hheld, hno⟩ := hkernel hps
      exact ⟨hheld.page.aligned, fun hp => hno ((h.life.conserved p).mpr (.inr hp))⟩
  · have hclosed : FilesFramed ∅ k.store store := fdTableCloseLoop_framed hclose
    rw [hstore]
    exact hclosed.trans (.of_eq (fun _ _ => rfl) rfl rfl rfl)

lemma UserGone.mono {lost' : Set Word} (h : UserGone K reserved stackPages pool lost k)
    (hlost : ∀ p ∈ lost, p ∈ lost') : UserGone K reserved stackPages pool lost' k := by
  obtain ⟨l, hinv, hpool, hall⟩ := h.tables
  exact { h with tables := ⟨l, hinv, hpool, fun p hp => (hall p hp).imp_right (hlost p)⟩ }

/-- The pages of the stacks may be written. -/
lemma UserGone.other {m : Mem} {k' : KernelState} {serial : List Byte}
    (h : UserGone K reserved stackPages pool lost k)
    (hm : ChangesOnly {p | p ∈ stackPages} k.phys.mem m) (hcurrent : k'.current = some .task0)
    (hstarted : k'.schedStarted = true) (hrunning : (k'.task .task0).state = .running)
    (hcr3 : (k'.task .task0).cr3 = (k.task .task0).cr3) (htask : k'.task .task1 = k.task .task1)
    (hstore : k'.store = { k.store with phys := { k.phys with mem := m }, serial := serial }) :
    UserGone K reserved stackPages pool lost k' := by
  have hphys : k'.phys = { k.phys with mem := m } := congrArg Store.phys hstore
  obtain ⟨l, hinv, hpool, hlost⟩ := h.tables
  have hfree := hinv.free
  have hfree' : FreeList k'.phys l := by
    rw [hphys]
    exact hfree.frame rfl hm (fun p hp => (h.pages p hp).1.aligned) fun p hp hpl =>
      (h.pages p hp).2.1 (hpool p hpl)
  have hinv' : PagingInv K (fun _ => none) k'.phys l := by
    refine hinv.kernelOnly hfree' (by rw [hphys]) (by rw [hphys]; exact hm)
      (fun p hp => ⟨(h.pages p hp).1.aligned, (h.pages p hp).2.2⟩) hinv.free_kernel
  refine ⟨hcurrent, hstarted, hrunning, ?_, ?_, ?_, h.pages, h.apart, ⟨l, hinv', hpool, hlost⟩, ⟨?_, ?_⟩, ?_⟩
  · rw [htask]
    exact h.done
  · rw [htask]
    exact h.table
  · rw [hphys, hcr3]
    exact h.loaded
  · exact h.objects.counts.congr (by rw [hstore]) (by rw [hstore])
  · have hheap := h.objects.heap.shrink hfree hfree' fun p hp => hp
    rw [show k'.store.heap = k.store.heap by rw [hstore]]
    exact hheap
  · exact h.walk.congr (by rw [hstore]) (by rw [hstore])

end Gone

end Platinum
