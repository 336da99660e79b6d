import Platinum.EntryStubs
import Platinum.UserExit

/-!
# Contexts across interrupts

Interrupts of the user task are taken on the stack of the task state segment, those
of the idle task on its own. What a task sees of the processor is kept there, out
of reach of programs, until the task is resumed.
-/
namespace Platinum
open ByteMemory Processor

/-- The context of a task: what is loaded if it runs, else what was saved. -/
def contextOf (c : Machine KernelState) (t : TaskId) : Context :=
  if c.state.current = some t then c.ctx else taskContext c.state.phys.mem (c.state.task t).rsp

/-- What the user task finds beside its registers: the bytes that it can read, its descriptors,
and the objects behind them. -/
structure UserView where
  reads : Word → Option Byte
  fdTable : FdTable
  file : Word → VfsFile
  node : NodeRef → VfsNode

/-- What user mode reads at an address. -/
def userReads (m : Mem) (addressSpace v : Word) : Option Byte :=
  (mmuWalk m addressSpace v).bind fun t => if t.user then some (m (t.frame.toNat + v.toNat % 4096)) else none

def userView (k : KernelState) : UserView :=
  ⟨userReads k.phys.mem (k.task .task1).userBootstrap.addressSpace, (k.task .task1).fdTable, k.store.file, k.store.node⟩

/-- The page that interrupts of a task are taken on. -/
def interruptPage (rsp0Page idlePage : Word) : TaskId → Word
  | .task0 => idlePage
  | .task1 => rsp0Page

/-- The frame at `rsp` lies on the page. -/
def FrameOn (page rsp : Word) : Prop := page.toNat ≤ rsp.toNat ∧ rsp.toNat + 160 ≤ page.toNat + 4096

/-- The idle task runs on its page, and leaves room for a frame. -/
structure IdleContext (idlePage : Word) (ctx : Context) : Prop where
  ring : privilege ctx.cs = 0#64
  low : idlePage.toNat + 160 ≤ ctx.rsp.toNat
  high : ctx.rsp.toNat ≤ idlePage.toNat + 4096

/-- What each of the two tasks runs in. -/
def TaskContext (idlePage : Word) (ctx : Context) : TaskId → Prop
  | .task0 => IdleContext idlePage ctx
  | .task1 => privilege ctx.cs = 3#64

/-- The idle task and a user task take turns. -/
structure UserSystem (K : KernelTables) (entry : Word) (reserved : ReservedHeap) (rsp0Page idlePage : Word)
    (pool : Set Word) (own : Owner) (c : Machine KernelState) (caller : UserTaskBootstrap) (l files nodes : List Word) :
    Prop where
  life : UserLife K entry reserved [rsp0Page, idlePage] pool own c.state caller l files nodes
  apart : rsp0Page ≠ idlePage
  idle : (c.state.task .task0).kind = .kernel
  ready : ∀ t, TaskReady c.state.phys.pagingKernelPml4 (c.state.task t)
  started : c.state.schedStarted = true
  turn : ∃ t, c.state.current = some t ∧ (c.state.task t).state = .running ∧
    (c.state.task t.other).state = .runnable ∧ c.state.phys.cr3 = (c.state.task t).cr3
  frames : ∀ t, c.state.current ≠ some t → FrameOn (interruptPage rsp0Page idlePage t) (c.state.task t).rsp
  contexts : ∀ t, TaskContext idlePage (contextOf c t) t
  window : caller.imagePhysicalBegin = elfUserLoadBase

section Frames

variable {m m' : Mem} {page rsp p : Word} {ps : List Word} {c : Machine KernelState} {rsp0 : Word}

lemma contextOf_current {t : TaskId} (h : c.state.current = some t) : contextOf c t = c.ctx := if_pos h

lemma contextOf_waiting {t : TaskId} (h : c.state.current ≠ some t) :
    contextOf c t = taskContext c.state.phys.mem (c.state.task t).rsp := if_neg h

/-- A frame is safe on a page that is kept. -/
lemma KeepsPages.context (h : KeepsPages ps m m') (hp : page ∈ ps) (hf : FrameOn page rsp) :
    taskContext m' rsp = taskContext m rsp := by
  refine taskContext_congr fun x hlo hhi => h page hp x ?_
  unfold FrameOn at hf
  exact ⟨by omega, by omega⟩

/-- The interrupted context is saved on a page that has room for it. -/
lemma entered_frame (hlo : page.toNat + 160 ≤ (interruptStack rsp0 c.ctx).toNat)
    (hhi : (interruptStack rsp0 c.ctx).toNat ≤ page.toNat + 4096) :
    ∃ m, enteredState rsp0 c = c.state.setPhys { c.state.phys with mem := m } ∧
      ChangesOnly {page} c.state.phys.mem m ∧ taskContext m (enteredRsp rsp0 c) = c.ctx ∧
      FrameOn page (enteredRsp rsp0 c) := by
  have hctx := entered_context (show 160 ≤ (interruptStack rsp0 c.ctx).toNat by omega)
  rw [enteredState_mem] at hctx
  refine ⟨_, enteredState_setPhys, fun x hx => ?_, hctx, ?_⟩
  · have hno : ¬ OnPage page x := hx page rfl
    have hlen : (contextWords pushOrder c.ctx).length = 20 := length_contextWords
    refine pushes_outside (by omega) ?_
    unfold OnPage at hno
    omega
  · unfold FrameOn
    rw [toNat_enteredRsp (by omega)]
    omega

lemma toNat_align16 (v : Word) : (v &&& ~~~15#64).toNat = v.toNat / 16 * 16 := by
  rw [WordArith.toNat_and_mask v (k := 4) (n := 64) (by omega) (by omega) (by decide)]
  have hv := v.isLt
  rw [Nat.mod_eq_of_lt (by omega), show 2 ^ 4 = 16 from rfl]

/-- Where the frames of the two tasks start. -/
lemma interruptStack_page {rsp0Page idlePage : Word} {ctx : Context} {t : TaskId} (hr : IsPage rsp0Page)
    (hi : IsPage idlePage) (hctx : TaskContext idlePage ctx t) :
    (interruptPage rsp0Page idlePage t).toNat + 160 ≤ (interruptStack (rsp0Page + 4096#64) ctx).toNat ∧
      (interruptStack (rsp0Page + 4096#64) ctx).toNat ≤ (interruptPage rsp0Page idlePage t).toNat + 4096 := by
  have hrlt := hr.lt
  have hilt := hi.lt
  have hral := hr.aligned
  have hial := hi.aligned
  unfold interruptStack
  rw [toNat_align16]
  cases t with
  | task0 =>
    obtain ⟨hring, hlow, hhigh⟩ := hctx
    rw [if_pos hring]
    dsimp only [interruptPage]
    omega
  | task1 =>
    have hring : privilege ctx.cs ≠ 0#64 := by
      rw [show privilege ctx.cs = 3#64 from hctx]
      decide
    have hrsp : (rsp0Page + 4096#64).toNat = rsp0Page.toNat + 4096 := by bv_omega
    rw [if_neg hring, hrsp]
    dsimp only [interruptPage]
    omega

end Frames

section Switch

variable {k : KernelState} {t : TaskId} {rsp : Word}

/-- Switching from the running task to the other one. -/
def switched (k : KernelState) (t : TaskId) (rsp : Word) : KernelState :=
  resumed (k.setTask t { k.task t with rsp := rsp, state := .runnable }) t.other

lemma switched_same (k : KernelState) (t : TaskId) (rsp : Word) :
    (switched k t rsp).task t = { k.task t with rsp := rsp, state := .runnable } := by
  have hne : t ≠ t.other := (TaskId.other_ne t).symm
  have ho : (switched k t rsp).task t =
      (k.setTask t { k.task t with rsp := rsp, state := .runnable }).task t := Function.update_of_ne hne _ _
  rw [ho, KernelState.setTask_same]

lemma switched_other (k : KernelState) (t : TaskId) (rsp : Word) :
    (switched k t rsp).task t.other = { k.task t.other with state := .running } := by
  have ho : (switched k t rsp).task t.other =
      { (k.setTask t { k.task t with rsp := rsp, state := .runnable }).task t.other with state := .running } :=
    resumed_task_same
  rw [ho, KernelState.setTask_ne (TaskId.other_ne t)]

lemma switched_store (k : KernelState) (t : TaskId) (rsp : Word) :
    (switched k t rsp).store =
      { k.store with phys := { k.phys with cr3 := (k.task t.other).cr3 } } := by
  have ho : (k.setTask t { k.task t with rsp := rsp, state := .runnable }).task t.other = k.task t.other :=
    KernelState.setTask_ne (TaskId.other_ne t)
  have hs : (switched k t rsp).store = { k.store with phys := { k.phys with
      cr3 := ((k.setTask t { k.task t with rsp := rsp, state := .runnable }).task t.other).cr3 } } := rfl
  rw [hs, ho]

lemma switched_fdTable (k : KernelState) (t : TaskId) (rsp : Word) (u : TaskId) :
    ((switched k t rsp).task u).fdTable = (k.task u).fdTable := by
  obtain rfl | rfl := TaskId.eq_or_other t u
  · rw [switched_same]
  · rw [switched_other]

/-- A tick when the other task can run. -/
lemma schedTick_switched (hs : k.schedStarted = true) (ht : k.current = some t)
    (hrun : (k.task t).state = .running) (hrsp : (k.task t).rsp ≠ 0#64)
    (hother : (k.task t.other).state = .runnable)
    (hready : TaskReady k.phys.pagingKernelPml4 (k.task t.other)) (rsp : Word) :
    schedTick k rsp = .ok ((k.task t.other).rsp, switched k t rsp) := by
  have hnext : (k.setTask t { k.task t with rsp := rsp, state := .runnable }).task t.other = k.task t.other :=
    KernelState.setTask_ne (TaskId.other_ne t)
  have hselect : schedSelectNext (k.setTask t { k.task t with rsp := rsp, state := .runnable }) t =
      .ok t.other := by
    rw [schedSelectNext_runnable (by simp), hnext, if_pos hother]
  have hact : schedActivate (k.setTask t { k.task t with rsp := rsp, state := .runnable }) t.other =
      .ok (switched k t rsp) := by
    refine schedActivate_of_ready ?_ ?_
    · rw [hnext]
      exact hready
    · rw [hnext]
      exact hother
  unfold schedTick
  rw [if_neg (by simp [hs]), ht]
  dsimp only
  rw [if_neg (by simp [hrun, hrsp]), hselect, ok_bind, hact, ok_bind, switched_other]

/-- The timer counts, may report the worker, and ticks. -/
lemma kernelTimerTick_eq (workerCounter rsp : Word) (k : KernelState) :
    ∃ k₁ serial, kernelTimerTick workerCounter rsp k = schedTick k₁ rsp ∧ k₁.task = k.task ∧
      k₁.current = k.current ∧ k₁.schedStarted = k.schedStarted ∧ k₁.userTaskEnabled = k.userTaskEnabled ∧
      k₁.store = { k.store with serial := serial } := by
  unfold kernelTimerTick
  dsimp only
  split_ifs
  · exact ⟨_, _, rfl, rfl, rfl, rfl, rfl, rfl⟩
  · exact ⟨_, k.store.serial, rfl, rfl, rfl, rfl, rfl, rfl⟩

end Switch

section System

variable {K : KernelTables} {entry : Word} {reserved : ReservedHeap} {rsp0Page idlePage : Word} {pool : Set Word}
  {own : Owner} {c : Machine KernelState} {caller : UserTaskBootstrap} {l files nodes : List Word} {t : TaskId}
  {k : KernelState} {m : Mem} {serial : List Byte} {rsp : Word}

lemma UserSystem.pages (h : UserSystem K entry reserved rsp0Page idlePage pool own c caller l files nodes)
    (t : TaskId) : interruptPage rsp0Page idlePage t ∈ [rsp0Page, idlePage] ∧
      IsPage (interruptPage rsp0Page idlePage t) := by
  have hmem : interruptPage rsp0Page idlePage t ∈ [rsp0Page, idlePage] := by
    cases t
    · exact List.mem_cons_of_mem _ List.mem_cons_self
    · exact List.mem_cons_self
  exact ⟨hmem, (h.life.kernel _ (List.mem_cons_of_mem _ hmem)).1.page⟩

lemma UserSystem.interruptPage_ne
    (h : UserSystem K entry reserved rsp0Page idlePage pool own c caller l files nodes) (t : TaskId) :
    interruptPage rsp0Page idlePage t.other ≠ interruptPage rsp0Page idlePage t := by
  cases t
  · exact h.apart
  · exact h.apart.symm

/-- What is written on the stack of one task leaves the frame of the other. -/
lemma UserSystem.other_frame
    (h : UserSystem K entry reserved rsp0Page idlePage pool own c caller l files nodes)
    (ht : c.state.current = some t)
    (hm : ChangesOnly {interruptPage rsp0Page idlePage t} c.state.phys.mem m) :
    taskContext m (c.state.task t.other).rsp = contextOf c t.other := by
  have hwaits : c.state.current ≠ some t.other := by
    rw [ht]
    exact fun he => TaskId.other_ne t (Option.some.inj he).symm
  rw [contextOf_waiting hwaits]
  have hkeeps : KeepsPages [interruptPage rsp0Page idlePage t.other] c.state.phys.mem m :=
    .of_page hm (h.pages t).2 (h.pages _).2 (h.interruptPage_ne t)
  exact hkeeps.context List.mem_cons_self (h.frames _ hwaits)

lemma UserSystem.frame_ne_zero
    (h : UserSystem K entry reserved rsp0Page idlePage pool own c caller l files nodes)
    (hrsp : FrameOn (interruptPage rsp0Page idlePage t) rsp) : rsp ≠ 0#64 := by
  have hpos : 0 < (interruptPage rsp0Page idlePage t).toNat :=
    Nat.pos_of_ne_zero fun h0 => (h.pages t).2.ne_zero (BitVec.eq_of_toNat_eq h0)
  rintro rfl
  have hle : (interruptPage rsp0Page idlePage t).toNat ≤ 0 := hrsp.1
  omega

/-- The context of the running task is saved on its page. -/
lemma UserSystem.entered
    (h : UserSystem K entry reserved rsp0Page idlePage pool own c caller l files nodes)
    (ht : c.state.current = some t) :
    160 ≤ (interruptStack (rsp0Page + 4096#64) c.ctx).toNat ∧
    ∃ m, enteredState (rsp0Page + 4096#64) c = c.state.setPhys { c.state.phys with mem := m } ∧
      ChangesOnly {interruptPage rsp0Page idlePage t} c.state.phys.mem m ∧
      taskContext m (enteredRsp (rsp0Page + 4096#64) c) = c.ctx ∧
      FrameOn (interruptPage rsp0Page idlePage t) (enteredRsp (rsp0Page + 4096#64) c) := by
  have hctx := h.contexts t
  rw [contextOf_current ht] at hctx
  have hrsp0 : IsPage rsp0Page := (h.pages .task1).2
  have hidle : IsPage idlePage := (h.pages .task0).2
  obtain ⟨hlo, hhi⟩ := interruptStack_page hrsp0 hidle hctx
  exact ⟨by omega, entered_frame hlo hhi⟩

/-- A frame on one of the pages does not reach the end of memory. -/
lemma UserSystem.frame_lt
    (h : UserSystem K entry reserved rsp0Page idlePage pool own c caller l files nodes)
    (hrsp : FrameOn (interruptPage rsp0Page idlePage t) rsp) : rsp.toNat + 160 ≤ 2 ^ 64 := by
  have hlt := (h.pages t).2.lt
  unfold FrameOn at hrsp
  omega

/-- The running task is saved on its stack, the other one is resumed. -/
lemma UserSystem.switch
    (h : UserSystem K entry reserved rsp0Page idlePage pool own c caller l files nodes)
    (ht : c.state.current = some t) (htask : k.task = c.state.task) (hstarted : k.schedStarted = true)
    (hstore : k.store = { c.state.store with phys := { c.state.phys with mem := m }, serial := serial })
    (hm : ChangesOnly {interruptPage rsp0Page idlePage t} c.state.phys.mem m)
    (hrsp : FrameOn (interruptPage rsp0Page idlePage t) rsp)
    (hctx : TaskContext idlePage (taskContext m rsp) t) :
    UserSystem K entry reserved rsp0Page idlePage pool own
      ⟨switched k t rsp, taskContext m (c.state.task t.other).rsp⟩ caller l files nodes ∧
    contextOf ⟨switched k t rsp, taskContext m (c.state.task t.other).rsp⟩ t = taskContext m rsp ∧
    contextOf ⟨switched k t rsp, taskContext m (c.state.task t.other).rsp⟩ t.other = contextOf c t.other := by
  have hne := TaskId.other_ne t
  have hsame : (switched k t rsp).task t = { c.state.task t with rsp := rsp, state := .runnable } := by
    rw [switched_same, htask]
  have hother : (switched k t rsp).task t.other = { c.state.task t.other with state := .running } := by
    rw [switched_other, htask]
  have hst : (switched k t rsp).store = { c.state.store with
      phys := { c.state.phys with mem := m, cr3 := (c.state.task t.other).cr3 }, serial := serial } := by
    rw [switched_store, htask, hstore]
    have hphys : k.phys = { c.state.phys with mem := m } := congrArg Store.phys hstore
    rw [hphys]
  have hphys : (switched k t rsp).phys =
      { c.state.phys with mem := m, cr3 := (c.state.task t.other).cr3 } := congrArg Store.phys hst
  have hcurrent : (switched k t rsp).current = some t.other := rfl
  have hsaved : contextOf ⟨switched k t rsp, taskContext m (c.state.task t.other).rsp⟩ t =
      taskContext m rsp := by
    rw [contextOf_waiting (fun he => hne (Option.some.inj (hcurrent.symm.trans he)))]
    dsimp only
    rw [hsame, hphys]
  have hresumed : contextOf ⟨switched k t rsp, taskContext m (c.state.task t.other).rsp⟩ t.other =
      contextOf c t.other := by
    rw [contextOf_current hcurrent]
    exact h.other_frame ht hm
  have hlife : UserLife K entry reserved [rsp0Page, idlePage] pool own (switched k t rsp) caller l files
      nodes := by
    have hlm : ChangesOnly (lifePages caller entry [rsp0Page, idlePage]) c.state.phys.mem m :=
      hm.of_page (.inr (List.mem_cons_of_mem _ (h.pages t).1))
    cases t with
    | task0 => exact h.life.other hlm (hother.trans rfl) hst
    | task1 => exact h.life.other hlm hsame hst
  refine ⟨⟨hlife, h.apart, ?_, fun u => ?_, hstarted, ⟨t.other, hcurrent, ?_, ?_, ?_⟩, fun u hu => ?_,
    fun u => ?_, h.window⟩, hsaved, hresumed⟩
  · cases t with
    | task0 =>
      dsimp only
      rw [hsame]
      exact h.idle
    | task1 =>
      exact (congrArg Task.kind hother).trans h.idle
  · have hready := h.ready u
    rw [hphys]
    obtain rfl | rfl := TaskId.eq_or_other t u
    · rw [hsame]
      exact ⟨h.frame_ne_zero hrsp, hready.kernel, hready.user⟩
    · rw [hother]
      exact ⟨hready.rsp, hready.kernel, hready.user⟩
  · rw [hother]
  · dsimp only
    rw [TaskId.other_other, hsame]
  · rw [hphys, hother]
  · obtain rfl | rfl := TaskId.eq_or_other t u
    · dsimp only
      rw [hsame]
      exact hrsp
    · exact absurd hcurrent hu
  · obtain rfl | rfl := TaskId.eq_or_other t u
    · rw [hsaved]
      exact hctx
    · rw [hresumed]
      exact h.contexts _

/-- The user task reads nothing of the stacks. -/
lemma UserSystem.reads
    (h : UserSystem K entry reserved rsp0Page idlePage pool own c caller l files nodes)
    (hm : ChangesOnly {p | p ∈ [rsp0Page, idlePage]} c.state.phys.mem m) :
    userReads m caller.addressSpace = userReads c.state.phys.mem caller.addressSpace := by
  have hheld : ∀ p ∈ {p | p ∈ [rsp0Page, idlePage]}, HeldPage K own l p ∧ p ∉ caller.ownPages := fun p hp =>
    h.life.kernel p (List.mem_cons_of_mem _ hp)
  funext v
  unfold userReads
  rw [h.life.walk_held (fun p hp => (hheld p hp).1) hm]
  refine Option.bind_congr fun t ht => ?_
  by_cases hu : t.user = true
  · have hframe := h.life.maps v t ht hu
    have hpage : t.frame.toNat % 4096 = 0 := (h.life.held t.frame (reachedPages_life hframe)).page.aligned
    rw [if_pos hu, if_pos hu]
    refine congrArg some (hm.byte (fun p hp => (hheld p hp).1.page.aligned) hpage (fun hp => ?_) (onPage_frame _ _))
    rcases hframe with hframe | hframe
    · exact (hheld _ hp).2 hframe
    · exact h.life.code (hframe ▸ hp)
  · rw [if_neg hu, if_neg hu]

lemma UserSystem.view
    (h : UserSystem K entry reserved rsp0Page idlePage pool own c caller l files nodes)
    (hm : ChangesOnly {p | p ∈ [rsp0Page, idlePage]} c.state.phys.mem k.phys.mem)
    (hbootstrap : (k.task .task1).userBootstrap = (c.state.task .task1).userBootstrap)
    (hfds : (k.task .task1).fdTable = (c.state.task .task1).fdTable)
    (hstore : k.store.file = c.state.store.file ∧ k.store.node = c.state.store.node) :
    userView k = userView c.state := by
  unfold userView
  rw [hbootstrap, hfds, hstore.1, hstore.2, h.life.bootstrap, h.reads hm]

/-- A timer interrupt changes no context, whichever task it comes upon, and lets the other go on. -/
theorem UserSystem.timer
    (h : UserSystem K entry reserved rsp0Page idlePage pool own c caller l files nodes)
    (workerCounter : Word) (left : Reg → Word) (selector offset : Word) :
    ∃ c', run (archIrq0Entry workerCounter left) (deliver (rsp0Page + 4096#64) selector offset c) = .ok c' ∧
      UserSystem K entry reserved rsp0Page idlePage pool own c' caller l files nodes ∧
      (∀ t, contextOf c' t = contextOf c t) ∧ userView c'.state = userView c.state ∧
      (∀ t, c.state.current = some t → c'.state.current = some t.other) ∧
      ChangesOnly {p | p ∈ [rsp0Page, idlePage]} c.state.phys.mem c'.state.phys.mem ∧
      FilesFramed ∅ c.state.store c'.state.store := by
  obtain ⟨t, ht, hrun, hother, hcr3⟩ := h.turn
  have hctx := h.contexts t
  rw [contextOf_current ht] at hctx
  obtain ⟨hroom, m, hentered, hm, hsaved, hframe⟩ := h.entered ht
  obtain ⟨k₁, serial, htick, htask, hcurrent, hstarted, -, hstore⟩ := kernelTimerTick_eq workerCounter
    (enteredRsp (rsp0Page + 4096#64) c) (c.state.setPhys { c.state.phys with mem := m })
  have htask : k₁.task = c.state.task := htask
  have hcurrent : k₁.current = some t := hcurrent.trans ht
  have hstarted : k₁.schedStarted = true := hstarted.trans h.started
  have hstore : k₁.store =
      { c.state.store with phys := { c.state.phys with mem := m }, serial := serial } := hstore
  have hpml4 : k₁.phys.pagingKernelPml4 = c.state.phys.pagingKernelPml4 :=
    congrArg (fun s => s.phys.pagingKernelPml4) hstore
  rw [schedTick_switched hstarted hcurrent (htask ▸ hrun) (htask ▸ (h.ready t).rsp) (htask ▸ hother)
    (by rw [hpml4, htask]; exact h.ready t.other), ← hentered, htask] at htick
  have hwaits : c.state.current ≠ some t.other := by
    rw [ht]
    exact fun he => TaskId.other_ne t (Option.some.inj he).symm
  have hnext := h.frame_lt (h.frames _ hwaits)
  have hmem : (switched k₁ t (enteredRsp (rsp0Page + 4096#64) c)).phys.mem = m := by
    rw [KernelState.phys, switched_store, KernelState.phys, hstore]
  obtain ⟨hsys, hthis, hthat⟩ := h.switch ht htask hstarted hstore hm hframe (hsaved ▸ hctx)
  have hstub := entryStub_ok left selector offset hroom htick hnext
  rw [hmem] at hstub
  have hstacks : ChangesOnly {p | p ∈ [rsp0Page, idlePage]} c.state.phys.mem m := hm.of_page (h.pages t).1
  refine ⟨_, hstub, hsys, fun u => ?_, h.view ?_ ?_ ?_ ?_, fun u hu => ?_, ?_, ?_⟩
  · obtain rfl | rfl := TaskId.eq_or_other t u
    · rw [hthis, hsaved, contextOf_current ht]
    · exact hthat
  · rw [hmem]
    exact hstacks
  · rw [hsys.life.bootstrap, h.life.bootstrap]
  · rw [switched_fdTable, htask]
  · rw [switched_store, hstore]
    exact ⟨rfl, rfl⟩
  · obtain rfl := Option.some.inj (ht.symm.trans hu)
    rfl
  · rw [hmem]
    exact hstacks
  · dsimp only
    rw [switched_store, hstore]
    exact .of_eq (fun _ _ => rfl) rfl rfl rfl

end System

end Platinum
