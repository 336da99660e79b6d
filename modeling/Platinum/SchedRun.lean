import Platinum.Globals
import Platinum.HeapRun

/-!
# Runs of the scheduler

Timer ticks, yields, execs and exits move two tasks through their states. One
invariant says what holds between any two of these calls.
-/
namespace Platinum
open ByteMemory

def TaskId.other : TaskId → TaskId
  | .task0 => .task1
  | .task1 => .task0

/-- Where each task is to be resumed: the stack pointer it was last switched out
with, or its initial or last exec frame if it has not run since. -/
abbrev Saved := TaskId → Word

/-- What a tick at the stack pointer `rsp` saves. -/
def switchedOut (k : KernelState) (rsp : Word) (saved : Saved) : Saved :=
  match k.schedStarted, k.current with
  | true, some t => Function.update saved t rsp
  | _, _ => saved

/-- The frame that exec builds on the new stack. -/
def execFrame (bootstrap : UserTaskBootstrap) : Word := bootstrap.userStackPage + 4096#64 - 160#64

/-- Only descriptors, objects and memory differ. -/
structure SameSched (k k' : KernelState) : Prop where
  task : ∀ t, k'.task t = { k.task t with fdTable := (k'.task t).fdTable }
  current : k'.current = k.current
  started : k'.schedStarted = k.schedStarted
  enabled : k'.userTaskEnabled = k.userTaskEnabled
  cr3 : k'.phys.cr3 = k.phys.cr3
  kernelPml4 : k'.phys.pagingKernelPml4 = k.phys.pagingKernelPml4

/-- One call into the scheduler (a yield is a tick), or anything else the kernel does. -/
inductive SchedStep : KernelState → Saved → KernelState → Saved → Prop
  | tick {k k' : KernelState} {saved : Saved} {rsp next : Word} : rsp ≠ 0#64 →
      schedTick k rsp = .ok (next, k') → SchedStep k saved k' (switchedOut k rsp saved)
  | exec {k k' : KernelState} {saved : Saved} {t : TaskId} {bootstrap : UserTaskBootstrap}
      {reusable : Word × Word} {next : Word} : k.current = some t →
      bootstrap.addressSpace ≠ pagingKernelAddressSpace k.phys →
      schedExecCurrent k bootstrap reusable = .ok (next, k') → next ≠ 0#64 →
      SchedStep k saved k' (Function.update saved t (execFrame bootstrap))
  | exit {k k' : KernelState} {saved : Saved} {t : TaskId} {reusable : Word × Word} {next : Word} :
      k.schedStarted = true → k.current = some t → (k.task t.other).state ≠ .done →
      schedExitCurrent k reusable = .ok (next, k') → SchedStep k saved k' saved
  | other {k k' : KernelState} {saved : Saved} : SameSched k k' → SchedStep k saved k' saved

/-- Any number of steps. -/
inductive SchedRun (k : KernelState) (saved : Saved) : KernelState → Saved → Prop
  | refl : SchedRun k saved k saved
  | step {k₁ k₂ : KernelState} {saved₁ saved₂ : Saved} : SchedRun k saved k₁ saved₁ →
      SchedStep k₁ saved₁ k₂ saved₂ → SchedRun k saved k₂ saved₂

/-- A task that can be resumed. -/
structure TaskReady (root : Word) (v : Task) : Prop where
  rsp : v.rsp ≠ 0#64
  kernel : v.kind = .kernel → v.cr3 = root
  user : v.kind = .user → v.cr3 = v.userBootstrap.addressSpace ∧ v.cr3 ≠ 0#64 ∧ v.cr3 ≠ root

/-- What holds between two calls. -/
structure SchedInv (k : KernelState) (saved : Saved) : Prop where
  used : ∀ t, (k.task t).state ≠ .unused
  ready : ∀ t, (k.task t).state ≠ .done → TaskReady k.phys.pagingKernelPml4 (k.task t)
  saved : ∀ t, (k.task t).state = .runnable → (k.task t).rsp = saved t
  waiting : k.schedStarted = false → ∀ t, (k.task t).state = .runnable
  running : k.schedStarted = true → ∃ t, k.current = some t ∧ (k.task t).state = .running ∧
    (k.task t.other).state ≠ .running ∧ k.phys.cr3 = (k.task t).cr3

/-- Every task is switched out. -/
structure Parked (k : KernelState) (saved : Saved) : Prop where
  used : ∀ t, (k.task t).state ≠ .unused
  ready : ∀ t, (k.task t).state ≠ .done → TaskReady k.phys.pagingKernelPml4 (k.task t)
  saved : ∀ t, (k.task t).state = .runnable → (k.task t).rsp = saved t
  idle : ∀ t, (k.task t).state ≠ .running

section Steps

variable {k k' k₀ : KernelState} {saved : Saved} {t u : TaskId} {rsp next idle worker : Word}
  {bootstrap : UserTaskBootstrap} {reusable : Word × Word} {root : Word} {v : Task}

@[simp] lemma TaskId.other_other (t : TaskId) : t.other.other = t := by cases t <;> rfl

lemma TaskId.other_ne (t : TaskId) : t.other ≠ t := by cases t <;> decide

lemma TaskId.eq_or_other (t u : TaskId) : u = t ∨ u = t.other := by
  cases t <;> cases u <;> simp [TaskId.other]

lemma switchedOut_waiting (h : k.schedStarted = false) : switchedOut k rsp saved = saved := by
  simp [switchedOut, h]

lemma switchedOut_current (h : k.schedStarted = true) (ht : k.current = some t) :
    switchedOut k rsp saved = Function.update saved t rsp := by
  simp [switchedOut, h, ht]

/-- The state does not matter for being ready. -/
lemma TaskReady.state (h : TaskReady root v) (x : TaskState) : TaskReady root { v with state := x } :=
  ⟨h.rsp, h.kernel, h.user⟩

lemma schedValidateTask_of_ready (h : TaskReady k.phys.pagingKernelPml4 (k.task t))
    (hs : (k.task t).state = .runnable) : schedValidateTask k t .runnable = true := by
  have hk := h.kernel
  have hu := h.user
  unfold schedValidateTask pagingKernelAddressSpace
  rw [hs]
  cases hkind : (k.task t).kind with
  | kernel => simp [h.rsp, hk hkind]
  | user =>
    obtain ⟨-, h0, hne⟩ := hu hkind
    simp [h.rsp, h0, hne]

/-- The state after `next` was resumed. -/
def resumed (k : KernelState) (next : TaskId) : KernelState :=
  { k.setPhys (pagingActivate k.phys (k.task next).cr3) with current := some next }.setTask next
    { k.task next with state := .running }

lemma schedActivate_of_ready (h : TaskReady k.phys.pagingKernelPml4 (k.task t))
    (hs : (k.task t).state = .runnable) : schedActivate k t = .ok (resumed k t) := by
  have hv : schedValidateTask { k with current := some t } t .runnable = true :=
    schedValidateTask_of_ready h hs
  unfold schedActivate
  simp only [hv, not_true_eq_false, if_false]
  rfl

/-- The other task if it can run, else this one. -/
lemma schedSelectNext_runnable (ht : (k.task t).state = .runnable) :
    schedSelectNext k t = .ok (if (k.task t.other).state = .runnable then t.other else t) := by
  have ho : (if t = .task0 then TaskId.task1 else .task0) = t.other := by cases t <;> rfl
  unfold schedSelectNext
  dsimp only
  rw [ho]
  by_cases h : (k.task t.other).state = .runnable
  · rw [if_pos h, if_pos h]
  · rw [if_neg h, if_neg h, if_pos ht]

lemma resumed_task_same : (resumed k t).task t = { k.task t with state := .running } :=
  Function.update_self _ _ _

lemma resumed_task_other : (resumed k t).task t.other = k.task t.other :=
  Function.update_of_ne (TaskId.other_ne t) _ _

/-- A parked task is resumed where it was saved. -/
lemma Parked.resume (h : Parked k saved) (hstart : k.schedStarted = true)
    (ht : (k.task t).state = .runnable) :
    schedActivate k t = .ok (resumed k t) ∧ ((resumed k t).task t).rsp = saved t ∧
      SchedInv (resumed k t) saved := by
  have hne : (k.task t).state ≠ .done := by simp [ht]
  refine ⟨schedActivate_of_ready (h.ready t hne) ht, ?_, ?_⟩
  · rw [resumed_task_same]
    exact h.saved t ht
  constructor
  · intro u
    obtain rfl | rfl := TaskId.eq_or_other t u
    · simp [resumed_task_same]
    · rw [resumed_task_other]
      exact h.used _
  · intro u hu
    obtain rfl | rfl := TaskId.eq_or_other t u
    · rw [resumed_task_same]
      exact (h.ready u hne).state _
    · rw [resumed_task_other] at hu ⊢
      exact h.ready _ hu
  · intro u hu
    obtain rfl | rfl := TaskId.eq_or_other t u
    · simp [resumed_task_same] at hu
    · rw [resumed_task_other] at hu ⊢
      exact h.saved _ hu
  · intro hwait
    rw [show (resumed k t).schedStarted = k.schedStarted from rfl, hstart] at hwait
    cases hwait
  · intro _
    refine ⟨t, rfl, by rw [resumed_task_same], ?_, ?_⟩
    · rw [resumed_task_other]
      exact h.idle _
    · rw [resumed_task_same]
      rfl

lemma SchedInv.parked_waiting (h : SchedInv k saved) (hw : k.schedStarted = false) :
    Parked { k with schedStarted := true } saved where
  used := h.used
  ready := h.ready
  saved := h.saved
  idle t := by
    change (k.task t).state ≠ .running
    simp [h.waiting hw t]

/-- The running task, and how it stands to the other one. -/
lemma SchedInv.current (h : SchedInv k saved) (hs : k.schedStarted = true) (ht : k.current = some t) :
    (k.task t).state = .running ∧ (k.task t.other).state ≠ .running ∧
      k.phys.cr3 = (k.task t).cr3 := by
  obtain ⟨u, hu, hrun⟩ := h.running hs
  obtain rfl := Option.some.inj (hu.symm.trans ht)
  exact hrun

/-- Switching out the running task. -/
lemma SchedInv.parked_tick (h : SchedInv k saved) (hs : k.schedStarted = true)
    (ht : k.current = some t) (hrsp : rsp ≠ 0#64) :
    Parked (k.setTask t { k.task t with rsp := rsp, state := .runnable })
      (Function.update saved t rsp) := by
  obtain ⟨hrun, hother, -⟩ := h.current hs ht
  have hne := TaskId.other_ne t
  have hr := h.ready t (by simp [hrun])
  constructor
  · intro u
    obtain rfl | rfl := TaskId.eq_or_other t u
    · simp
    · rw [KernelState.setTask_ne hne]
      exact h.used _
  · intro u hu
    obtain rfl | rfl := TaskId.eq_or_other t u
    · rw [KernelState.setTask_same]
      exact ⟨hrsp, hr.kernel, hr.user⟩
    · rw [KernelState.setTask_ne hne] at hu ⊢
      exact h.ready _ hu
  · intro u hu
    obtain rfl | rfl := TaskId.eq_or_other t u
    · simp
    · rw [KernelState.setTask_ne hne] at hu ⊢
      rw [Function.update_of_ne hne]
      exact h.saved _ hu
  · intro u
    obtain rfl | rfl := TaskId.eq_or_other t u
    · simp
    · rw [KernelState.setTask_ne hne]
      exact hother

/-- What selecting a task comes to. -/
structure Selected (k : KernelState) (saved : Saved) (next : Word) (k' : KernelState) (u : TaskId) :
    Prop where
  inv : SchedInv k' saved
  rsp : next = saved u
  current : k'.current = some u
  started : k'.schedStarted = true
  live : (k.task u).state ≠ .done
  done : ∀ t, (k.task t).state = .done → (k'.task t).state = .done

lemma resumed_done (ht : (k.task t).state = .runnable) (hu : (k.task u).state = .done) :
    ((resumed k t).task u).state = .done := by
  obtain rfl | rfl := TaskId.eq_or_other t u
  · rw [ht] at hu
    cases hu
  · rwa [resumed_task_other]

/-- Activating a parked task selects it. -/
lemma Parked.selected {k₁ : KernelState} (h : Parked k₁ saved) (hs : k₁.schedStarted = true)
    (hu : (k₁.task u).state = .runnable)
    (hdone : ∀ w, (k.task w).state = .done → (k₁.task w).state = .done) :
    schedActivate k₁ u = .ok (resumed k₁ u) ∧
      Selected k saved ((resumed k₁ u).task u).rsp (resumed k₁ u) u := by
  obtain ⟨hact, hrsp, hinv⟩ := h.resume hs hu
  refine ⟨hact, hinv, hrsp, rfl, hs, fun hd => ?_, fun w hw => resumed_done hu (hdone w hw)⟩
  rw [hdone u hd] at hu
  cases hu

/-- A tick resumes a task that is not done, the other one if that can run. -/
theorem SchedInv.tick (h : SchedInv k saved) (hrsp : rsp ≠ 0#64) :
    ∃ next k' u, schedTick k rsp = .ok (next, k') ∧ Selected k (switchedOut k rsp saved) next k' u ∧
      ∀ t, k.schedStarted = true → k.current = some t → (k.task t.other).state = .runnable →
        u = t.other := by
  cases hs : k.schedStarted with
  | false =>
    obtain ⟨u, hu⟩ : ∃ u, (if k.userTaskEnabled = true then TaskId.task1 else .task0) = u := ⟨_, rfl⟩
    obtain ⟨hact, hsel⟩ := (h.parked_waiting hs).selected (k := k) rfl (h.waiting hs u) fun w hw => hw
    refine ⟨_, _, u, ?_, by rwa [switchedOut_waiting hs], by simp⟩
    unfold schedTick
    rw [if_pos (by simp [hs])]
    dsimp only
    rw [hu, hact]
    rfl
  | true =>
    obtain ⟨t, ht, hrun, hother, -⟩ := h.running hs
    have hne := TaskId.other_ne t
    have hr := (h.ready t (by simp [hrun])).rsp
    have hpark := h.parked_tick hs ht hrsp
    obtain ⟨k₁, hk₁⟩ : ∃ k₁, k.setTask t { k.task t with rsp := rsp, state := .runnable } = k₁ :=
      ⟨_, rfl⟩
    have ht₁ : (k₁.task t).state = .runnable := by simp [← hk₁]
    have ho₁ : k₁.task t.other = k.task t.other := by rw [← hk₁, KernelState.setTask_ne hne]
    have hs₁ : k₁.schedStarted = true := by rw [← hk₁, KernelState.setTask_started, hs]
    have hdone : ∀ w, (k.task w).state = .done → (k₁.task w).state = .done := by
      intro w hw
      obtain rfl | rfl := TaskId.eq_or_other t w
      · rw [hrun] at hw
        cases hw
      · rwa [ho₁]
    obtain ⟨u, hu⟩ : ∃ u, (if (k₁.task t.other).state = .runnable then t.other else t) = u := ⟨_, rfl⟩
    have hu₁ : (k₁.task u).state = .runnable := by
      rw [← hu]
      split_ifs with ho
      · exact ho
      · exact ht₁
    rw [hk₁] at hpark
    obtain ⟨hact, hsel⟩ := hpark.selected hs₁ hu₁ hdone
    refine ⟨_, _, u, ?_, by rwa [switchedOut_current hs ht], fun w _ hw ho => ?_⟩
    · unfold schedTick
      rw [if_neg (by simp [hs]), ht]
      dsimp only
      rw [if_neg (by simp [hrun, hr]), hk₁, schedSelectNext_runnable ht₁]
      rw [ok_bind, hu, hact]
      rfl
    · obtain rfl := Option.some.inj (ht.symm.trans hw)
      rw [← hu, if_pos (ho₁ ▸ ho)]

/-- The invariant does not look at descriptors, objects or memory. -/
lemma SchedInv.same (h : SchedInv k saved) (hk : SameSched k k') : SchedInv k' saved := by
  have hstate (t : TaskId) : (k'.task t).state = (k.task t).state :=
    (congrArg Task.state (hk.task t)).trans rfl
  have hrsp (t : TaskId) : (k'.task t).rsp = (k.task t).rsp :=
    (congrArg Task.rsp (hk.task t)).trans rfl
  have hcr3 (t : TaskId) : (k'.task t).cr3 = (k.task t).cr3 :=
    (congrArg Task.cr3 (hk.task t)).trans rfl
  constructor
  · intro t
    rw [hstate]
    exact h.used t
  · intro t ht
    have hr := h.ready t (hstate t ▸ ht)
    rw [hk.kernelPml4, hk.task t]
    exact ⟨hr.rsp, hr.kernel, hr.user⟩
  · intro t ht
    rw [hrsp]
    exact h.saved t (hstate t ▸ ht)
  · intro hs t
    rw [hstate]
    exact h.waiting (hk.started ▸ hs) t
  · intro hs
    obtain ⟨t, ht, hrun, hother, hc⟩ := h.running (hk.started ▸ hs)
    exact ⟨t, hk.current.trans ht, (hstate t).trans hrun, hstate t.other ▸ hother,
      (hk.cr3.trans hc).trans (hcr3 t).symm⟩

lemma SameSched.setPhys {s : Phys} (hs : SameGlobals k.phys s) : SameSched k (k.setPhys s) :=
  ⟨fun _ => rfl, rfl, rfl, rfl, hs.cr3, hs.kernelPml4⟩

/-- Closing the descriptors of the running task and marking it done. -/
lemma SchedInv.parked_exit (h : SchedInv k saved) (hs : k.schedStarted = true)
    (ht : k.current = some t) (fdTable : FdTable) {store : Store} (hphys : store.phys = k.phys) :
    Parked ({ k with store := store }.setTask t
      { k.task t with
        fdTable := fdTable
        userBootstrap := clearBootstrap
        rsp := 0#64
        state := .done }) saved := by
  obtain ⟨hrun, hother, -⟩ := h.current hs ht
  have hne := TaskId.other_ne t
  constructor
  · intro u
    obtain rfl | rfl := TaskId.eq_or_other t u
    · simp
    · rw [KernelState.setTask_ne hne]
      exact h.used _
  · intro u hu
    obtain rfl | rfl := TaskId.eq_or_other t u
    · simp at hu
    · rw [KernelState.setTask_ne hne] at hu ⊢
      change TaskReady store.phys.pagingKernelPml4 _
      rw [hphys]
      exact h.ready _ hu
  · intro u hu
    obtain rfl | rfl := TaskId.eq_or_other t u
    · simp at hu
    · rw [KernelState.setTask_ne hne] at hu ⊢
      exact h.saved _ hu
  · intro u
    obtain rfl | rfl := TaskId.eq_or_other t u
    · simp
    · rw [KernelState.setTask_ne hne]
      exact hother

/-- Exit resumes the other task once the descriptors are closed. -/
theorem SchedInv.exit (h : SchedInv k saved) (hs : k.schedStarted = true) (ht : k.current = some t)
    (ho : (k.task t.other).state ≠ .done) {fdTable : FdTable} {store : Store}
    (hclose : fdTableCloseAll k.store (k.task t).fdTable = .ok (fdTable, store))
    (reusable : Word × Word) :
    ∃ next k', schedExitCurrent k reusable = .ok (next, k') ∧ Selected k saved next k' t.other := by
  obtain ⟨hrun, hother, -⟩ := h.current hs ht
  have hne := TaskId.other_ne t
  have hpark := h.parked_exit hs ht fdTable (fdTableCloseAll_phys hclose)
  obtain ⟨k₁, hk₁⟩ : ∃ k₁, { k with store := store }.setTask t
      { k.task t with
        fdTable := fdTable
        userBootstrap := clearBootstrap
        rsp := 0#64
        state := .done } = k₁ := ⟨_, rfl⟩
  have hrunnable : (k.task t.other).state = .runnable := by
    have hused := h.used t.other
    cases hst : (k.task t.other).state <;> simp_all
  have ho₁ : (k₁.task t.other).state = .runnable := by
    rw [← hk₁, KernelState.setTask_ne hne]
    exact hrunnable
  have hdone : ∀ w, (k.task w).state = .done → (k₁.task w).state = .done := by
    intro w hw
    rw [← hk₁]
    obtain rfl | rfl := TaskId.eq_or_other t w
    · simp
    · rwa [KernelState.setTask_ne hne]
  rw [hk₁] at hpark
  obtain ⟨hact, hsel⟩ := hpark.selected (k := k) (by rw [← hk₁]; exact hs) ho₁ hdone
  have hselect : schedSelectNext k₁ t = .ok t.other := by
    unfold schedSelectNext
    dsimp only
    rw [show (if t = .task0 then TaskId.task1 else .task0) = t.other by cases t <;> rfl, if_pos ho₁]
  have hphys := SameSched.setPhys (schedReleaseUserBootstrap_globals (resumed k₁ t.other).phys
    (k.task t).userBootstrap reusable)
  refine ⟨_, (resumed k₁ t.other).setPhys (schedReleaseUserBootstrap (resumed k₁ t.other).phys
    (k.task t).userBootstrap reusable).1, ?_, hsel.inv.same hphys, hsel.rsp, hsel.current,
    hsel.started, hsel.live, hsel.done⟩
  rw [ht] at hk₁
  dsimp only at hk₁
  unfold schedExitCurrent
  rw [ht]
  dsimp only
  rw [if_neg (by simp [hs]), hclose, ok_bind]
  dsimp only
  rw [hk₁, hselect, ok_bind, hact]
  rfl

/-- The bootstrap of the replaced program as its release sees it. -/
def releasedBootstrap (previous bootstrap : UserTaskBootstrap) : UserTaskBootstrap :=
  if previous.imagePhysicalBegin = bootstrap.imagePhysicalBegin ∧
      previous.imagePhysicalEnd = bootstrap.imagePhysicalEnd then
    { previous with imagePhysicalBegin := 0#64, imagePhysicalEnd := 0#64 }
  else previous

/-- The kernel after task `t` was handed to the program of `bootstrap`. -/
def execTransferred (k : KernelState) (t : TaskId) (bootstrap : UserTaskBootstrap)
    (fdTable : FdTable) (store : Store) (reusable : Word × Word) : KernelState :=
  ({ k with store := store }.setTask t
    { k.task t with
      rsp := execFrame bootstrap
      cr3 := bootstrap.addressSpace
      fdTable := fdTable
      userBootstrap := bootstrap }).setPhys
    (schedReleaseUserBootstrap (pagingActivate store.phys bootstrap.addressSpace)
      (releasedBootstrap (k.task t).userBootstrap bootstrap) reusable).1

lemma execTransferred_task (k : KernelState) (t : TaskId) (bootstrap : UserTaskBootstrap)
    (fdTable : FdTable) (store : Store) (reusable : Word × Word) :
    (execTransferred k t bootstrap fdTable store reusable).task t = { k.task t with
      rsp := execFrame bootstrap
      cr3 := bootstrap.addressSpace
      fdTable := fdTable
      userBootstrap := bootstrap } := Function.update_self _ _ _

/-- What a transfer checks before it touches the caller's descriptors. -/
structure TransferReady (k : KernelState) (t : TaskId) (bootstrap : UserTaskBootstrap) : Prop where
  started : k.schedStarted = true
  kind : (k.task t).kind = .user
  state : (k.task t).state = .running
  complete : bootstrapComplete bootstrap = true
  frame : execFrame bootstrap ≠ 0#64

/-- The objects once the frame of the new program was built. -/
def framedStore (k : KernelState) (bootstrap : UserTaskBootstrap) : Store :=
  { k.store with
    phys := { k.phys with
      mem := pushWords k.phys.mem bootstrap.userStackPage (userFrame bootstrap) } }

lemma framedStore_heap (k : KernelState) (bootstrap : UserTaskBootstrap) :
    (framedStore k bootstrap).heap = k.store.heap := by
  unfold framedStore
  generalize pushWords k.phys.mem bootstrap.userStackPage (userFrame bootstrap) = m
  rfl

lemma framedStore_globals : SameGlobals k.phys (framedStore k bootstrap).phys :=
  (SameGlobals.refl _).mem _

lemma bootstrapComplete_stack (h : bootstrapComplete bootstrap = true) :
    bootstrap.userStackTop ≠ 0#64 ∧ bootstrap.userStackPage ≠ 0#64 := by
  simp only [bootstrapComplete, Bool.and_eq_true, decide_eq_true_eq] at h
  exact ⟨h.2, h.1.2⟩

/-- A transfer that passes its checks closes the descriptors and seeds a console. -/
theorem schedExecCurrent_ready (ht : k.current = some t) (h : TransferReady k t bootstrap)
    (reusable : Word × Word) :
    schedExecCurrent k bootstrap reusable = (do
      let (_, store) ← fdTableCloseAll (framedStore k bootstrap) (k.task t).fdTable
      let (seeded, fdTable, store) ← fdTableSeedConsole store fdTableInitialize
      if seeded then .ok (execFrame bootstrap, execTransferred k t bootstrap fdTable store reusable)
      else .ok (0#64, { k with store := store }.setTask t { k.task t with fdTable := fdTable })) := by
  obtain ⟨htop, hpage⟩ := bootstrapComplete_stack h.complete
  have hframe := h.frame
  have hguard : ¬ (¬ k.schedStarted = true ∨ (k.task t).kind ≠ .user ∨ (k.task t).state ≠ .running) := by
    simp [h.started, h.kind, h.state]
  unfold schedExecCurrent framedStore
  rw [ht]
  dsimp only
  rw [if_neg hguard, if_neg (not_not.mpr h.complete)]
  simp only [taskBuildUserStack, if_neg htop, if_neg hpage]
  generalize pushWords k.phys.mem bootstrap.userStackPage (userFrame bootstrap) = m
  refine (if_neg hframe).trans ?_
  refine bind_congr fun ⟨closed, store₁⟩ => bind_congr fun ⟨seeded, fdTable, store₂⟩ => ?_
  cases seeded with
  | false => simp only [Bool.false_eq_true, not_false_eq_true, if_true, if_false, KernelState.setPhys, ht]
  | true =>
    simp only [not_true_eq_false, if_false, if_true, execTransferred,
      releasedBootstrap, execFrame, KernelState.setTask, KernelState.setPhys, Function.update_idem, ht,
      Function.update_self]

/-- A transfer that does not pass its checks changes nothing but the stack. -/
theorem schedExecCurrent_refused (ht : k.current = some t) (h : ¬ TransferReady k t bootstrap)
    (reusable : Word × Word) :
    ∃ m, schedExecCurrent k bootstrap reusable = .ok (0#64, k.setPhys { k.phys with mem := m }) ∧
      (execFrame bootstrap ≠ 0#64 → m = k.phys.mem) := by
  unfold schedExecCurrent
  rw [ht]
  dsimp only
  by_cases hguard : ¬ k.schedStarted = true ∨ (k.task t).kind ≠ .user ∨ (k.task t).state ≠ .running
  · exact ⟨k.phys.mem, if_pos hguard, fun _ => rfl⟩
  by_cases hcomplete : bootstrapComplete bootstrap = true
  · push Not at hguard
    obtain ⟨htop, hpage⟩ := bootstrapComplete_stack hcomplete
    have hframe : execFrame bootstrap = 0#64 := by
      by_contra hne
      exact h ⟨hguard.1, hguard.2.1, hguard.2.2, hcomplete, hne⟩
    simp only [taskBuildUserStack, if_neg htop, if_neg hpage]
    generalize pushWords k.phys.mem bootstrap.userStackPage (userFrame bootstrap) = m
    refine ⟨m, ?_, fun hne => absurd hframe hne⟩
    rw [if_neg (by simp [hguard]), if_neg (not_not.mpr hcomplete)]
    exact if_pos hframe
  · refine ⟨k.phys.mem, ?_, fun _ => rfl⟩
    rw [if_neg hguard, if_pos hcomplete]
    rfl

/-- What a transfer went through when it did not return 0. -/
theorem schedExecCurrent_ok (ht : k.current = some t)
    (hrun : schedExecCurrent k bootstrap reusable = .ok (next, k')) (hn : next ≠ 0#64) :
    TransferReady k t bootstrap ∧ next = execFrame bootstrap ∧
      ∃ closed store₁ fdTable store₂,
        fdTableCloseAll (framedStore k bootstrap) (k.task t).fdTable = .ok (closed, store₁) ∧
        fdTableSeedConsole store₁ fdTableInitialize = .ok (true, fdTable, store₂) ∧
        k' = execTransferred k t bootstrap fdTable store₂ reusable := by
  by_cases hready : TransferReady k t bootstrap
  · rw [schedExecCurrent_ready ht hready] at hrun
    obtain ⟨⟨closed, store₁⟩, hclose, hrun⟩ := bind_eq_ok.mp hrun
    obtain ⟨⟨seeded, fdTable, store₂⟩, hseed, hrun⟩ := bind_eq_ok.mp hrun
    cases seeded with
    | false =>
      cases hrun
      exact absurd rfl hn
    | true =>
      obtain ⟨rfl, rfl⟩ := Prod.mk.inj (Except.ok.inj hrun)
      exact ⟨hready, rfl, closed, store₁, fdTable, store₂, hclose, hseed, rfl⟩
  · obtain ⟨m, hrefused, -⟩ := schedExecCurrent_refused ht hready reusable
    rw [hrefused] at hrun
    cases hrun
    exact absurd rfl hn

/-- A transfer replaces the context of the running task. -/
theorem SchedInv.exec (h : SchedInv k saved) (ht : k.current = some t)
    (hroot : bootstrap.addressSpace ≠ pagingKernelAddressSpace k.phys)
    (hrun : schedExecCurrent k bootstrap reusable = .ok (next, k')) (hn : next ≠ 0#64) :
    next = execFrame bootstrap ∧ SchedInv k' (Function.update saved t (execFrame bootstrap)) ∧
      k'.current = some t ∧ ∀ w, (k.task w).state = .done → (k'.task w).state = .done := by
  obtain ⟨⟨hs, hkind, hstate, hcomplete, -⟩, rfl, closed, store₁, fdTable, store₂, hclose, hseed, rfl⟩ :=
    schedExecCurrent_ok ht hrun hn
  obtain ⟨-, hother, -⟩ := h.current hs ht
  have hne := TaskId.other_ne t
  simp only [bootstrapComplete, Bool.and_eq_true, decide_eq_true_eq] at hcomplete
  have hg := schedReleaseUserBootstrap_globals (pagingActivate store₂.phys bootstrap.addressSpace)
    (releasedBootstrap (k.task t).userBootstrap bootstrap) reusable
  have hphys : store₂.phys.pagingKernelPml4 = k.phys.pagingKernelPml4 := by
    rw [(fdTableSeedConsole_globals hseed).kernelPml4, fdTableCloseAll_phys hclose,
      framedStore_globals.kernelPml4]
  have hpml4 : (execTransferred k t bootstrap fdTable store₂ reusable).phys.pagingKernelPml4 =
      k.phys.pagingKernelPml4 := hg.kernelPml4.trans hphys
  have hsame := execTransferred_task k t bootstrap fdTable store₂ reusable
  have hrest : (execTransferred k t bootstrap fdTable store₂ reusable).task t.other = k.task t.other :=
    Function.update_of_ne hne _ _
  have hready : TaskReady k.phys.pagingKernelPml4
      { k.task t with
        rsp := execFrame bootstrap
        cr3 := bootstrap.addressSpace
        fdTable := fdTable
        userBootstrap := bootstrap } := by
    refine ⟨hn, fun hk => ?_, fun _ => ⟨rfl, hcomplete.1.1.1.1, hroot⟩⟩
    rw [hkind] at hk
    cases hk
  refine ⟨rfl, ⟨?_, ?_, ?_, ?_, ?_⟩, ht, ?_⟩
  · intro u
    obtain rfl | rfl := TaskId.eq_or_other t u
    · rw [hsame]
      exact h.used u
    · rw [hrest]
      exact h.used _
  · intro u hu
    rw [hpml4]
    obtain rfl | rfl := TaskId.eq_or_other t u
    · rwa [hsame]
    · rw [hrest] at hu ⊢
      exact h.ready _ hu
  · intro u hu
    obtain rfl | rfl := TaskId.eq_or_other t u
    · rw [hsame, Function.update_self]
    · rw [hrest] at hu ⊢
      rw [Function.update_of_ne hne]
      exact h.saved _ hu
  · intro hw
    rw [show (execTransferred k t bootstrap fdTable store₂ reusable).schedStarted = k.schedStarted
      from rfl, hs] at hw
    cases hw
  · intro _
    refine ⟨t, ht, ?_, ?_, ?_⟩
    · rw [hsame]
      exact hstate
    · rwa [hrest]
    · rw [hsame]
      exact hg.cr3
  · intro w hw
    obtain rfl | rfl := TaskId.eq_or_other t w
    · rw [hstate] at hw
      cases hw
    · rwa [hrest]

/-- What creating a task does to the rest of the kernel. -/
structure TaskMade (k : KernelState) (t : TaskId) (k' : KernelState) : Prop where
  ready : TaskReady k.phys.pagingKernelPml4 (k'.task t)
  state : (k'.task t).state = .runnable
  other : k'.task t.other = k.task t.other
  started : k'.schedStarted = k.schedStarted
  enabled : k'.userTaskEnabled = k.userTaskEnabled
  bootstrap : k'.userTaskBootstrap = k.userTaskBootstrap
  globals : SameGlobals k.phys k'.phys

lemma taskBuildKernelStack_globals (s : Phys) (entry : Word) :
    SameGlobals s (taskBuildKernelStack s entry).2 := by
  have hg := pallocAlloc_globals s
  unfold taskBuildKernelStack
  dsimp only
  split_ifs
  · exact hg
  · exact hg.mem _

lemma taskCreateKernel_made {id : BitVec 32} {entry : Word}
    (hrun : taskCreateKernel k t id entry = .ok (true, k')) : TaskMade k t k' := by
  have hg := taskBuildKernelStack_globals k.phys entry
  unfold taskCreateKernel at hrun
  generalize taskBuildKernelStack k.phys entry = x at hrun hg
  obtain ⟨rsp, s⟩ := x
  dsimp only at hrun hg
  split_ifs at hrun with h0
  · cases hrun
  obtain ⟨⟨seeded, fdTable, store⟩, hseed, hrun⟩ := bind_eq_ok.mp hrun
  have hphys : SameGlobals k.phys store.phys := hg.trans (fdTableSeedConsole_globals hseed)
  obtain ⟨rfl, rfl⟩ := Prod.mk.inj (Except.ok.inj hrun)
  refine ⟨?_, ?_, Function.update_of_ne (TaskId.other_ne t) _ _, rfl, rfl, rfl, hphys⟩
  · rw [KernelState.setTask_same]
    exact ⟨h0, fun _ => hphys.kernelPml4, fun hk => by cases hk⟩
  · rw [KernelState.setTask_same]

lemma taskCreateUser_made {id : BitVec 32} (hroot : bootstrap.addressSpace ≠ k.phys.pagingKernelPml4)
    (hrun : taskCreateUser k t id bootstrap = .ok (true, k')) : TaskMade k t k' := by
  unfold taskCreateUser at hrun
  by_cases hcomplete : bootstrapComplete bootstrap = true
  swap
  · rw [if_pos hcomplete] at hrun
    cases hrun
  rw [if_neg (not_not.mpr hcomplete)] at hrun
  have hg : SameGlobals k.phys (taskBuildUserStack k.phys bootstrap).2 := by
    unfold taskBuildUserStack
    split_ifs
    · exact SameGlobals.refl _
    · exact SameGlobals.refl _
    · exact (SameGlobals.refl _).mem _
  generalize taskBuildUserStack k.phys bootstrap = x at hrun hg
  obtain ⟨rsp, s⟩ := x
  dsimp only at hrun hg
  split_ifs at hrun with h0
  · cases hrun
  obtain ⟨⟨seeded, fdTable, store⟩, hseed, hrun⟩ := bind_eq_ok.mp hrun
  have hphys : SameGlobals k.phys store.phys := hg.trans (fdTableSeedConsole_globals hseed)
  simp only [bootstrapComplete, Bool.and_eq_true, decide_eq_true_eq] at hcomplete
  obtain ⟨rfl, rfl⟩ := Prod.mk.inj (Except.ok.inj hrun)
  refine ⟨?_, ?_, Function.update_of_ne (TaskId.other_ne t) _ _, rfl, rfl, rfl, hphys⟩
  · rw [KernelState.setTask_same]
    exact ⟨h0, fun hk => (by cases hk), fun _ => ⟨rfl, hcomplete.1.1.1.1, hroot⟩⟩
  · rw [KernelState.setTask_same]

/-- A completed initialisation leaves two tasks to run. -/
theorem schedInitialize_inv
    (hroot : k₀.userTaskEnabled = true →
      k₀.userTaskBootstrap.addressSpace ≠ pagingKernelAddressSpace k₀.phys)
    (hrun : schedInitialize k₀ idle worker = .ok k) : SchedInv k fun t => (k.task t).rsp := by
  obtain ⟨⟨created₀, k₁⟩, h₀, hrun⟩ := bind_eq_ok.mp hrun
  cases created₀ with
  | false => simp at hrun
  | true =>
    have hm₀ := taskCreateKernel_made h₀
    have hfinish {k₂ : KernelState} {created : Bool}
        (hm : created = true → TaskMade k₁ .task1 k₂)
        (h : (if ¬ created = true then .error .halt else .ok k₂ : Run KernelState) = .ok k) :
        SchedInv k fun t => (k.task t).rsp := by
      cases created with
      | false => simp at h
      | true =>
        simp only [not_true_eq_false, if_false] at h
        obtain rfl := Except.ok.inj h
        have hm₁ := hm rfl
        have hpml4 := hm₁.globals.kernelPml4
        have hs₂ : k₂.schedStarted = false := hm₁.started.trans hm₀.started
        have hready : ∀ t, TaskReady k₂.phys.pagingKernelPml4 (k₂.task t) ∧
            (k₂.task t).state = .runnable := by
          intro t
          rw [hpml4]
          cases t with
          | task0 =>
            rw [show k₂.task .task0 = k₁.task .task0 from hm₁.other, hm₀.globals.kernelPml4]
            exact ⟨hm₀.ready, hm₀.state⟩
          | task1 => exact ⟨hm₁.ready, hm₁.state⟩
        refine ⟨fun t => by simp [(hready t).2], fun t _ => (hready t).1, fun t _ => rfl,
          fun _ t => (hready t).2, fun hs => ?_⟩
        rw [hs₂] at hs
        cases hs
    simp only [not_true_eq_false, if_false] at hrun
    split_ifs at hrun with huser
    · obtain ⟨⟨created, k₂⟩, h₁, hrun⟩ := bind_eq_ok.mp hrun
      refine hfinish (fun hc => ?_) hrun
      subst hc
      refine taskCreateUser_made ?_ h₁
      rw [hm₀.globals.kernelPml4, hm₀.bootstrap]
      exact hroot (hm₀.enabled ▸ huser)
    · obtain ⟨⟨created, k₂⟩, h₁, hrun⟩ := bind_eq_ok.mp hrun
      refine hfinish (fun hc => ?_) hrun
      subst hc
      exact taskCreateKernel_made h₁

/-- One step keeps the invariant, and a task that is done stays so and is not selected. -/
lemma SchedStep.inv {saved' : Saved} (hstep : SchedStep k saved k' saved') (h : SchedInv k saved) :
    SchedInv k' saved' ∧ ∀ w, (k.task w).state = .done → (k'.task w).state = .done := by
  cases hstep with
  | tick hrsp hrun =>
    obtain ⟨next, k'', u, hok, hsel, -⟩ := h.tick hrsp
    obtain ⟨rfl, rfl⟩ := Prod.mk.inj (Except.ok.inj (hok.symm.trans hrun))
    exact ⟨hsel.inv, hsel.done⟩
  | exec ht hroot hrun hn =>
    obtain ⟨-, hinv, -, hdone⟩ := h.exec ht hroot hrun hn
    exact ⟨hinv, hdone⟩
  | @exit _ _ t reusable next hs ht ho hrun =>
    cases hclose : fdTableCloseAll k.store (k.task t).fdTable with
    | error e =>
      unfold schedExitCurrent at hrun
      rw [ht] at hrun
      simp [hs, hclose] at hrun
    | ok closed =>
      obtain ⟨next', k'', hok, hsel⟩ := h.exit hs ht ho hclose reusable
      obtain ⟨rfl, rfl⟩ := Prod.mk.inj (Except.ok.inj (hok.symm.trans hrun))
      exact ⟨hsel.inv, hsel.done⟩
  | other hsame =>
    refine ⟨h.same hsame, fun w hw => ?_⟩
    rw [hsame.task w]
    exact hw

lemma SchedRun.inv {k₁ : KernelState} {saved₁ : Saved} (hrun : SchedRun k₁ saved₁ k saved)
    (h : SchedInv k₁ saved₁) :
    SchedInv k saved ∧ ∀ w, (k₁.task w).state = .done → (k.task w).state = .done := by
  induction hrun with
  | refl => exact ⟨h, fun w hw => hw⟩
  | step _ hstep ih =>
    obtain ⟨hinv, hdone⟩ := hstep.inv ih.1
    exact ⟨hinv, fun w hw => hdone w (ih.2 w hw)⟩

/-- A task that is done is not the running one. -/
lemma SchedInv.current_ne_done (h : SchedInv k saved) (hs : k.schedStarted = true)
    (hu : (k.task u).state = .done) : k.current ≠ some u := by
  intro hc
  rw [(h.current hs hc).1] at hu
  cases hu

end Steps

/-- A resumed task: it is not done and continues at its saved stack pointer. -/
structure Resumes (k : KernelState) (saved : Saved) (run : Run (Word × KernelState)) (u : TaskId) :
    Prop where
  returns : ∃ k', run = .ok (saved u, k') ∧ k'.current = some u ∧ k'.schedStarted = true
  live : (k.task u).state ≠ .done

/-- What holds of the scheduler between two calls and of the next call. -/
structure SchedSafe (k : KernelState) (saved : Saved) : Prop where
  running : k.schedStarted = true → ∃ t, k.current = some t ∧
    (∀ u, (k.task u).state = .running ↔ u = t) ∧ k.phys.cr3 = (k.task t).cr3 ∧
    ((k.task t).kind = .kernel → (k.task t).cr3 = pagingKernelAddressSpace k.phys) ∧
    ((k.task t).kind = .user → (k.task t).cr3 = (k.task t).userBootstrap.addressSpace)
  tick : ∀ rsp ≠ 0#64, ∃ u, Resumes k (switchedOut k rsp saved) (schedTick k rsp) u ∧
    ∀ t, k.schedStarted = true → k.current = some t → (k.task t.other).state = .runnable → u = t.other
  exit : ∀ t, k.schedStarted = true → k.current = some t → (k.task t.other).state ≠ .done →
    ∀ reusable closed, fdTableCloseAll k.store (k.task t).fdTable = .ok closed →
      Resumes k saved (schedExitCurrent k reusable) t.other
  exec : ∀ t bootstrap reusable next k', k.current = some t → next ≠ 0#64 →
    bootstrap.addressSpace ≠ pagingKernelAddressSpace k.phys →
    schedExecCurrent k bootstrap reusable = .ok (next, k') →
      next = execFrame bootstrap ∧ k'.current = some t
  done : ∀ k' saved', SchedRun k saved k' saved' → ∀ t, (k.task t).state = .done →
    (k'.task t).state = .done ∧ (k'.schedStarted = true → k'.current ≠ some t)

lemma SchedInv.safe {k : KernelState} {saved : Saved} (h : SchedInv k saved) : SchedSafe k saved where
  running hs := by
    obtain ⟨t, ht, hrun, hother, hc⟩ := h.running hs
    have hr := h.ready t (by simp [hrun])
    refine ⟨t, ht, fun u => ⟨fun hu => ?_, fun hu => hu ▸ hrun⟩, hc, hr.kernel,
      fun hk => (hr.user hk).1⟩
    obtain rfl | rfl := TaskId.eq_or_other t u
    · rfl
    · exact absurd hu hother
  tick rsp hrsp := by
    obtain ⟨next, k', u, hok, hsel, hswitch⟩ := h.tick hrsp
    exact ⟨u, ⟨⟨k', hsel.rsp ▸ hok, hsel.current, hsel.started⟩, hsel.live⟩, hswitch⟩
  exit t hs ht ho reusable closed hclose := by
    obtain ⟨next, k', hok, hsel⟩ := h.exit hs ht ho hclose reusable
    exact ⟨⟨k', hsel.rsp ▸ hok, hsel.current, hsel.started⟩, hsel.live⟩
  exec t bootstrap reusable next k' ht hn hroot hrun := by
    obtain ⟨hnext, -, hcur, -⟩ := h.exec ht hroot hrun hn
    exact ⟨hnext, hcur⟩
  done k' saved' hrun t hd := by
    obtain ⟨hinv, hdone⟩ := hrun.inv h
    exact ⟨hdone t hd, fun hs => hinv.current_ne_done hs (hdone t hd)⟩

/-- The scheduler is safe all along a run from its initialisation. -/
theorem schedRun_safe {k₀ k₁ k : KernelState} {idle worker : Word} {saved : Saved}
    (hroot : k₀.userTaskEnabled = true →
      k₀.userTaskBootstrap.addressSpace ≠ pagingKernelAddressSpace k₀.phys)
    (hinit : schedInitialize k₀ idle worker = .ok k₁)
    (hrun : SchedRun k₁ (fun t => (k₁.task t).rsp) k saved) : SchedSafe k saved :=
  (hrun.inv (schedInitialize_inv hroot hinit)).1.safe

/-- Three free pages and an empty heap. -/
def smallStore : Store where
  phys := pushFree (pushFree onePage 0x02001000#64) 0x02002000#64
  heap := emptyHeap
  file _ := ⟨0, .null, 0#64, 0⟩
  node _ := ⟨.none, 0, none, .null⟩
  fdConsoleInput _ := ⟨0, 0, 0⟩
  fdConsoleOutput _ := ⟨0⟩
  namespaceConsoleInputData := ⟨0, 0⟩
  namespaceRootEntries := []
  namespaceReady := false
  serial := []
  events := []

/-- A kernel without a user task. -/
def smallKernel : KernelState where
  store := smallStore
  task _ := Task.unusedTask 0
  current := none
  schedStarted := false
  userTaskEnabled := false
  userTaskBootstrap := clearBootstrap
  kernelTicks := 0#64

/-- A user program in the two pages from `a` on, its address space and its stack. -/
def smallProgram (a : Word) : UserTaskBootstrap :=
  ⟨firstUserLayout, a, 0x40000000#64, 0x40001000#64, 0#64, 0#64, a + 4096#64, 0x40200000#64⟩

/-- A kernel with a user task. -/
def userTaskKernel : KernelState :=
  { smallKernel with userTaskEnabled := true, userTaskBootstrap := smallProgram 0x00600000#64 }

/-- The user task runs, waits for a tick, replaces its program and exits. -/
lemma userTaskKernel_run : ∃ k₁ k saved, schedInitialize userTaskKernel 0x00100000#64 0x00100100#64 = .ok k₁ ∧
    SchedRun k₁ (fun t => (k₁.task t).rsp) k saved ∧ k.current = some .task0 ∧ (k.task .task1).state = .done := by
  have hcalls : ((do
      let k₁ ← schedInitialize userTaskKernel 0x00100000#64 0x00100100#64
      let r₂ ← schedTick k₁ 0x00200000#64
      let r₃ ← schedTick r₂.2 0x00601F00#64
      let r₄ ← schedTick r₃.2 0x00200000#64
      let r₅ ← schedExecCurrent r₄.2 (smallProgram 0x00610000#64) (0#64, 0#64)
      let r₆ ← schedExitCurrent r₅.2 (0#64, 0#64)
      return ([r₂, r₃, r₄, r₅, r₆].map (·.1), [r₂, r₃, r₄, r₅, r₆].map (·.2.current),
        [decide (r₄.2.phys.pagingKernelPml4 = 0#64), r₅.2.schedStarted,
          decide ((r₅.2.task .task0).state = .runnable), decide ((r₆.2.task .task1).state = .done)])) :
            Run _).toOption =
      some ([0x00601F60#64, 0x02002F60#64, 0x00601F00#64, 0x00611F60#64, 0x00200000#64],
        [some .task1, some .task0, some .task1, some .task1, some .task0],
        [true, true, true, true]) := by
    decide +kernel
  obtain ⟨k₁, hinit, h⟩ := bind_eq_ok.mp (toOption_eq_some.mp hcalls)
  obtain ⟨⟨n₂, k₂⟩, h₂, h⟩ := bind_eq_ok.mp h
  obtain ⟨⟨n₃, k₃⟩, h₃, h⟩ := bind_eq_ok.mp h
  obtain ⟨⟨n₄, k₄⟩, h₄, h⟩ := bind_eq_ok.mp h
  obtain ⟨⟨n₅, k₅⟩, h₅, h⟩ := bind_eq_ok.mp h
  obtain ⟨⟨n₆, k₆⟩, h₆, h⟩ := bind_eq_ok.mp h
  obtain ⟨⟨rfl, rfl, rfl, rfl, rfl⟩, ⟨-, -, hcur₄, hcur₅, hcur₆⟩, hroot, hstarted, hidle, hdone⟩ :
      (n₂ = 0x00601F60#64 ∧ n₃ = 0x02002F60#64 ∧ n₄ = 0x00601F00#64 ∧ n₅ = 0x00611F60#64 ∧
        n₆ = 0x00200000#64) ∧
      (k₂.current = some .task1 ∧ k₃.current = some .task0 ∧ k₄.current = some .task1 ∧
        k₅.current = some .task1 ∧ k₆.current = some .task0) ∧
      k₄.phys.pagingKernelPml4 = 0#64 ∧ k₅.schedStarted = true ∧ (k₅.task .task0).state = .runnable ∧
        (k₆.task .task1).state = .done := by simpa using Except.ok.inj h
  exact ⟨k₁, k₆, _, hinit, .step (.step (.step (.step (.step .refl (.tick (by decide) h₂))
    (.tick (by decide) h₃)) (.tick (by decide) h₄))
    (.exec hcur₄ (by rw [pagingKernelAddressSpace, hroot]; decide) h₅ (by decide)))
    (.exit hstarted hcur₅ (by rw [TaskId.other, hidle]; decide) h₆), hcur₆, hdone⟩

/-- The safety theorem at work: the idle task runs after all this. -/
theorem schedRun_safe_sample : ∃ k₁ k saved,
    schedInitialize userTaskKernel 0x00100000#64 0x00100100#64 = .ok k₁ ∧
    SchedRun k₁ (fun t => (k₁.task t).rsp) k saved ∧ k.current = some .task0 ∧
    (k.task .task1).state = .done ∧ SchedSafe k saved := by
  obtain ⟨k₁, k, saved, hinit, hrun, hcurrent, hdone⟩ := userTaskKernel_run
  have hroot : userTaskKernel.userTaskEnabled = true →
      userTaskKernel.userTaskBootstrap.addressSpace ≠ pagingKernelAddressSpace userTaskKernel.phys := fun _ => by
    decide
  exact ⟨k₁, k, saved, hinit, hrun, hcurrent, hdone, schedRun_safe hroot hinit hrun⟩

end Platinum
