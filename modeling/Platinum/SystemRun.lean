import Platinum.SystemCalls
import Platinum.Transitions

/-!
# Runs of the two tasks

The user task runs any instructions of user mode and makes any calls, the idle task
runs on its page, and the timer interrupts either of them at any time.
-/
namespace Platinum
open ByteMemory Processor

/-- Instructions of user mode write what the loaded address space opens to them. -/
def UserWrites (s : Phys) (m : Mem) : Prop :=
  ∀ x, m x ≠ s.mem x → ∃ v t, mmuWalk s.mem s.cr3 v = some t ∧ t.user = true ∧ t.writable = true ∧
    x = t.frame.toNat + v.toNat % 4096

/-- Handlers leave their own frames on the stacks, beside those of the waiting tasks. -/
def StackWrites (rsp0Page idlePage : Word) (k : KernelState) (m : Mem) : Prop :=
  ∀ x, m x ≠ k.phys.mem x → (OnPage rsp0Page x ∨ OnPage idlePage x) ∧
    ∀ t, k.current ≠ some t → ¬ ((k.task t).rsp.toNat ≤ x ∧ x < (k.task t).rsp.toNat + 160)

/-- A step of a task, or of none. The page of the trampoline is open to user mode and holds the
interrupt stubs too; `hcode` says that a program leaves it alone. The registers that a handler
leaves may be any, and the words that `elf_release_user_image` finds on its stack any of `leftover`. -/
inductive SystemStep (b : Build) (leftover : Set (Word × Word)) (rsp0Page idlePage : Word) :
    Option TaskId → Machine KernelState → Machine KernelState → Prop
  | program {c : Machine KernelState} {m : Mem} {ctx : Context} (ht : c.state.current = some .task1)
      (hm : UserWrites c.state.phys m) (hcode : KeepsPages [pageAddress b.archUserProgramEntry] c.state.phys.mem m)
      (hring : privilege ctx.cs = 3#64) :
      SystemStep b leftover rsp0Page idlePage (some .task1) c ⟨c.state.setPhys { c.state.phys with mem := m }, ctx⟩
  | syscall {c c' : Machine KernelState} {reusable : Word × Word} (left : Reg → Word)
      (selector offset : Word) (ht : c.state.current = some .task1) (hfits : CallFits b.archUserProgramEntry c)
      (hleft : reusable ∈ leftover)
      (hrun : run (archSyscallEntry b reusable left) (deliver (rsp0Page + 4096#64) selector offset c) = .ok c') :
      SystemStep b leftover rsp0Page idlePage (some .task1) c c'
  | idle {c : Machine KernelState} {m : Mem} {ctx : Context} (ht : c.state.current = some .task0)
      (hm : ChangesOnly {idlePage} c.state.phys.mem m) (hctx : IdleContext idlePage ctx) :
      SystemStep b leftover rsp0Page idlePage (some .task0) c ⟨c.state.setPhys { c.state.phys with mem := m }, ctx⟩
  | timer {c c' : Machine KernelState} (workerCounter : Word) (left : Reg → Word) (selector offset : Word)
      (hrun : run (archIrq0Entry workerCounter left) (deliver (rsp0Page + 4096#64) selector offset c) = .ok c') :
      SystemStep b leftover rsp0Page idlePage none c c'
  | stack {c : Machine KernelState} {m : Mem} (hm : StackWrites rsp0Page idlePage c.state m) :
      SystemStep b leftover rsp0Page idlePage none c ⟨c.state.setPhys { c.state.phys with mem := m }, c.ctx⟩

abbrev SystemRun (b : Build) (leftover : Set (Word × Word)) (rsp0Page idlePage : Word) :=
  Transitions.Run (SystemStep b leftover rsp0Page idlePage)

/-- The pages that an exit may take for pages of a reused image. -/
def sparedPages (leftover : Set (Word × Word)) : Set Word :=
  {p | ∃ reusable ∈ leftover, pageInRange p reusable.1 reusable.2 = true}

section Keeps

variable {entry : Word} {c c' c'' : Machine KernelState} {stackPages : List Word}

lemma SystemKeeps.refl (entry : Word) (c : Machine KernelState) : SystemKeeps entry c c :=
  ⟨.refl _ _, .refl _ _⟩

lemma SystemKeeps.trans (h : SystemKeeps entry c c') (h' : SystemKeeps entry c' c'') : SystemKeeps entry c c'' :=
  ⟨h.code.trans h'.code, h.files.trans h'.files⟩

/-- Neither is on the stacks. -/
lemma SystemKeeps.of_stacks (hentry : IsPage (pageAddress entry)) (hapart : pageAddress entry ∉ stackPages)
    (hpages : ∀ p ∈ stackPages, IsPage p) (hm : ChangesOnly {p | p ∈ stackPages} c.state.phys.mem c'.state.phys.mem)
    (hfiles : FilesFramed ∅ c.state.store c'.state.store) : SystemKeeps entry c c' := by
  refine ⟨.of_changes hm (fun p hp => (hpages p hp).aligned) fun p hp => ?_, hfiles⟩
  rw [List.mem_singleton.mp hp]
  exact ⟨hentry.aligned, hapart⟩

end Keeps

section Steps

variable {K : KernelTables} {reserved : ReservedHeap} {entry rsp0Page idlePage : Word} {pool : Set Word}
  {own : Owner} {c c' : Machine KernelState} {caller : UserTaskBootstrap} {l files nodes : List Word}
  {k : KernelState} {m : Mem} {ctx : Context} {t : TaskId} {P : Set Word} {s : Phys} {b : Build}

/-- The user task has not ended. -/
lemma UserSystem.alive (h : UserSystem K entry reserved rsp0Page idlePage pool own c caller l files nodes) :
    (c.state.task .task1).state ≠ .done := by
  obtain ⟨t, -, hrun, hother, -⟩ := h.turn
  cases t with
  | task0 =>
    rw [show (c.state.task .task1).state = .runnable from hother]
    decide
  | task1 =>
    rw [hrun]
    decide

/-- Those bytes are on pages that user mode reaches. -/
lemma UserWrites.changes (hm : UserWrites s m) (hw : UserWindow P s.mem s.cr3) : ChangesOnly P s.mem m := by
  intro x hx
  by_contra hne
  obtain ⟨v, t, ht, hu, -, rfl⟩ := hm x hne
  exact hx t.frame (hw.reach v t ht hu) (onPage_frame _ _)

lemma StackWrites.changes (hm : StackWrites rsp0Page idlePage k m) :
    ChangesOnly {p | p ∈ [rsp0Page, idlePage]} k.phys.mem m := by
  intro x hx
  by_contra hne
  obtain ⟨hon, -⟩ := hm x hne
  rcases hon with hon | hon
  · exact hx rsp0Page (by simp) hon
  · exact hx idlePage (by simp) hon

/-- The frame of a waiting task is as it was. -/
lemma StackWrites.frame (hm : StackWrites rsp0Page idlePage k m) (ht : k.current ≠ some t) :
    taskContext m (k.task t).rsp = taskContext k.phys.mem (k.task t).rsp := by
  refine taskContext_congr fun x hlo hhi => ?_
  by_contra hne
  obtain ⟨-, hno⟩ := hm x hne
  exact hno t ht ⟨hlo, hhi⟩

lemma contextOf_written_current (ht : c.state.current = some t) : contextOf ⟨c.state.setPhys s, ctx⟩ t = ctx :=
  if_pos ht

lemma contextOf_written_waiting (ht : c.state.current ≠ some t) :
    contextOf ⟨c.state.setPhys s, ctx⟩ t = taskContext s.mem (c.state.task t).rsp := if_neg ht

/-- The running task goes on. -/
lemma UserSystem.written (h : UserSystem K entry reserved rsp0Page idlePage pool own c caller l files nodes)
    (ht : c.state.current = some t)
    (hm : ChangesOnly (lifePages caller entry [rsp0Page, idlePage]) c.state.phys.mem m)
    (hframe : taskContext m (c.state.task t.other).rsp = contextOf c t.other)
    (hctx : TaskContext idlePage ctx t) :
    UserSystem K entry reserved rsp0Page idlePage pool own
      ⟨c.state.setPhys { c.state.phys with mem := m }, ctx⟩ caller l files nodes ∧
    contextOf ⟨c.state.setPhys { c.state.phys with mem := m }, ctx⟩ t.other = contextOf c t.other := by
  have hwaits : c.state.current ≠ some t.other := by
    rw [ht]
    exact fun he => TaskId.other_ne t (Option.some.inj he).symm
  have hother : contextOf ⟨c.state.setPhys { c.state.phys with mem := m }, ctx⟩ t.other =
      contextOf c t.other := by
    rw [contextOf_written_waiting hwaits]
    exact hframe
  have hlife := h.life.setMem hm
  refine ⟨⟨hlife, h.apart, h.idle, h.ready, h.started, h.turn, h.frames, fun u => ?_, ?_⟩, hother⟩
  · obtain rfl | rfl := TaskId.eq_or_other t u
    · rw [contextOf_written_current ht]
      exact hctx
    · rw [hother]
      exact h.contexts _
  · exact h.window

/-- User mode writes none of the stacks. -/
lemma UserSystem.program (h : UserSystem K entry reserved rsp0Page idlePage pool own c caller l files nodes)
    (ht : c.state.current = some .task1) (hm : UserWrites c.state.phys m) (hring : privilege ctx.cs = 3#64) :
    UserSystem K entry reserved rsp0Page idlePage pool own
      ⟨c.state.setPhys { c.state.phys with mem := m }, ctx⟩ caller l files nodes ∧
    contextOf ⟨c.state.setPhys { c.state.phys with mem := m }, ctx⟩ .task0 = contextOf c .task0 := by
  have hruns := h.runs ht (.refl _ _)
  have hwindow : UserWindow (reachedPages caller entry) c.state.phys.mem c.state.phys.cr3 := hruns.reached
  have hchanges := hm.changes hwindow
  have hkeeps := h.life.keeps hchanges
  have hwaits : c.state.current ≠ some .task0 := by simp [ht]
  refine h.written ht (hchanges.mono fun p hp => reachedPages_life hp) ?_ hring
  have hframe : FrameOn idlePage (c.state.task .task0).rsp := h.frames .task0 hwaits
  rw [TaskId.other, contextOf_waiting hwaits]
  exact hkeeps.context (List.mem_cons_of_mem _ List.mem_cons_self) hframe

/-- Nor does the idle task write the other's. -/
lemma UserSystem.idles (h : UserSystem K entry reserved rsp0Page idlePage pool own c caller l files nodes)
    (ht : c.state.current = some .task0) (hm : ChangesOnly {idlePage} c.state.phys.mem m)
    (hctx : IdleContext idlePage ctx) :
    UserSystem K entry reserved rsp0Page idlePage pool own
      ⟨c.state.setPhys { c.state.phys with mem := m }, ctx⟩ caller l files nodes ∧
    contextOf ⟨c.state.setPhys { c.state.phys with mem := m }, ctx⟩ .task1 = contextOf c .task1 := by
  have hpage : ChangesOnly {interruptPage rsp0Page idlePage .task0} c.state.phys.mem m := hm
  exact h.written ht (hm.of_page (.inr (by simp [kernelPages]))) (h.other_frame ht hpage) hctx

lemma UserSystem.scratched (h : UserSystem K entry reserved rsp0Page idlePage pool own c caller l files nodes)
    (hm : StackWrites rsp0Page idlePage c.state m) :
    UserSystem K entry reserved rsp0Page idlePage pool own
      ⟨c.state.setPhys { c.state.phys with mem := m }, c.ctx⟩ caller l files nodes ∧
    ∀ t, contextOf ⟨c.state.setPhys { c.state.phys with mem := m }, c.ctx⟩ t = contextOf c t := by
  obtain ⟨t, ht, -⟩ := h.turn
  have hctx := h.contexts t
  rw [contextOf_current ht] at hctx
  have hwaits : c.state.current ≠ some t.other := by
    rw [ht]
    exact fun he => TaskId.other_ne t (Option.some.inj he).symm
  obtain ⟨hsystem, hother⟩ := h.written ht
    (hm.changes.mono fun p hp => .inr (List.mem_cons_of_mem _ hp))
    (by rw [hm.frame hwaits, contextOf_waiting hwaits]) hctx
  refine ⟨hsystem, fun u => ?_⟩
  obtain rfl | rfl := TaskId.eq_or_other t u
  · rw [contextOf_written_current ht, contextOf_current ht]
  · exact hother

end Steps

section Alone

variable {K : KernelTables} {reserved : ReservedHeap} {rsp0Page idlePage rsp : Word} {pool lost : Set Word}
  {c c' : Machine KernelState} {k : KernelState} {m : Mem} {ctx : Context} {t : TaskId} {b : Build}

/-- A tick when no other task can run. -/
lemma schedTick_alone (hs : k.schedStarted = true) (ht : k.current = some t)
    (hrun : (k.task t).state = .running) (hother : (k.task t.other).state = .done)
    (hready : TaskReady k.phys.pagingKernelPml4 (k.task t)) (hrsp : rsp ≠ 0#64) :
    ∃ k', schedTick k rsp = .ok (rsp, k') ∧ k'.current = some t ∧ k'.schedStarted = true ∧
      k'.task t = { k.task t with rsp := rsp, state := .running } ∧ k'.task t.other = k.task t.other ∧
      k'.store = { k.store with phys := { k.phys with cr3 := (k.task t).cr3 } } := by
  obtain ⟨k₁, hk₁⟩ : ∃ k₁, k.setTask t { k.task t with rsp := rsp, state := .runnable } = k₁ := ⟨_, rfl⟩
  have hsame : k₁.task t = { k.task t with rsp := rsp, state := .runnable } := by
    rw [← hk₁, KernelState.setTask_same]
  have hdone : k₁.task t.other = k.task t.other := by
    rw [← hk₁, KernelState.setTask_ne (TaskId.other_ne t)]
  have hroot : k₁.phys = k.phys := by
    rw [← hk₁]
    rfl
  have hselect : schedSelectNext k₁ t = .ok t := by
    rw [schedSelectNext_runnable (by rw [hsame]), hdone, if_neg (by simp [hother])]
  have hact : schedActivate k₁ t = .ok (resumed k₁ t) := by
    refine schedActivate_of_ready ?_ (by rw [hsame])
    rw [hsame, hroot]
    exact ⟨hrsp, hready.kernel, hready.user⟩
  have htask : (resumed k₁ t).task t = { k.task t with rsp := rsp, state := .running } := by
    rw [resumed_task_same, hsame]
  refine ⟨resumed k₁ t, ?_, rfl, ?_, htask, ?_, ?_⟩
  · unfold schedTick
    rw [if_neg (by simp [hs]), ht]
    dsimp only
    rw [if_neg (by simp [hrun, hready.rsp]), hk₁, hselect, ok_bind, hact, ok_bind, htask]
  · rw [← hk₁]
    exact hs
  · have ho : (resumed k₁ t).task t.other = k₁.task t.other := Function.update_of_ne (TaskId.other_ne t) _ _
    rw [ho, hdone]
  · have hst : (resumed k₁ t).store = { k₁.store with phys := { k₁.phys with cr3 := (k₁.task t).cr3 } } := rfl
    rw [hst, hsame, hroot, ← hk₁]
    rfl

/-- The idle task's page may be written, and its registers may change. -/
lemma IdleSystem.written (h : IdleSystem K reserved rsp0Page idlePage pool lost c)
    (hm : ChangesOnly {p | p ∈ [rsp0Page, idlePage]} c.state.phys.mem m) (hctx : IdleContext idlePage ctx) :
    IdleSystem K reserved rsp0Page idlePage pool lost ⟨c.state.setPhys { c.state.phys with mem := m }, ctx⟩ :=
  ⟨h.gone.other hm h.gone.current h.gone.started h.gone.running rfl rfl rfl, h.kind, h.ready, hctx⟩

/-- A timer interrupt resumes the idle task. -/
theorem IdleSystem.timer (h : IdleSystem K reserved rsp0Page idlePage pool lost c) (workerCounter : Word)
    (left : Reg → Word) (selector offset : Word) :
    ∃ c', run (archIrq0Entry workerCounter left) (deliver (rsp0Page + 4096#64) selector offset c) = .ok c' ∧
      IdleSystem K reserved rsp0Page idlePage pool lost c' ∧ c'.ctx = c.ctx ∧
      ChangesOnly {p | p ∈ [rsp0Page, idlePage]} c.state.phys.mem c'.state.phys.mem ∧
      FilesFramed ∅ c.state.store c'.state.store := by
  have hrsp0 : IsPage rsp0Page := (h.gone.pages _ (by simp)).1
  have hidle : IsPage idlePage := (h.gone.pages _ (by simp)).1
  have hcontext : TaskContext idlePage c.ctx .task0 := h.context
  obtain ⟨hlo, hhi⟩ := interruptStack_page hrsp0 hidle hcontext
  have hroom : 160 ≤ (interruptStack (rsp0Page + 4096#64) c.ctx).toNat := by omega
  obtain ⟨m, hentered, hm, hsaved, hframe⟩ := entered_frame hlo hhi
  have hframe : FrameOn idlePage (enteredRsp (rsp0Page + 4096#64) c) := hframe
  have hrsp : enteredRsp (rsp0Page + 4096#64) c ≠ 0#64 := by
    have hpos : 0 < idlePage.toNat :=
      Nat.pos_of_ne_zero fun h0 => hidle.ne_zero (BitVec.eq_of_toNat_eq h0)
    rintro he
    have hle : idlePage.toNat ≤ (enteredRsp (rsp0Page + 4096#64) c).toNat := hframe.1
    rw [he] at hle
    rw [BitVec.toNat_ofNat, Nat.zero_mod] at hle
    omega
  have hnext : (enteredRsp (rsp0Page + 4096#64) c).toNat + 160 ≤ 2 ^ 64 := by
    have hlt := hidle.lt
    unfold FrameOn at hframe
    omega
  obtain ⟨k₁, serial, htick, htask, hcurrent, hstarted, -, hstore⟩ := kernelTimerTick_eq workerCounter
    (enteredRsp (rsp0Page + 4096#64) c) (c.state.setPhys { c.state.phys with mem := m })
  have htask : k₁.task = c.state.task := htask
  have hcurrent : k₁.current = some .task0 := hcurrent.trans h.gone.current
  have hstarted : k₁.schedStarted = true := hstarted.trans h.gone.started
  have hstore : k₁.store =
      { c.state.store with phys := { c.state.phys with mem := m }, serial := serial } := hstore
  have hphys : k₁.phys = { c.state.phys with mem := m } := congrArg Store.phys hstore
  have hready : TaskReady k₁.phys.pagingKernelPml4 (k₁.task .task0) := by
    rw [hphys, htask]
    exact h.ready
  obtain ⟨k, hk, hcurrent', hstarted', hsame, hother, hst⟩ := schedTick_alone hstarted hcurrent
    (htask ▸ h.gone.running) (htask ▸ h.gone.done) hready hrsp
  rw [hk, ← hentered] at htick
  rw [htask] at hsame hother hst
  have hresumed : k.store = { c.state.store with phys := { c.state.phys with mem := m }, serial := serial } := by
    have hcr3 : c.state.phys.cr3 = (c.state.task .task0).cr3 := h.gone.loaded
    rw [hst, hphys, ← hcr3, hstore]
  have hmem : k.phys = { c.state.phys with mem := m } := congrArg Store.phys hresumed
  have hresume : taskContext k.phys.mem (enteredRsp (rsp0Page + 4096#64) c) = c.ctx := by
    rw [hmem]
    exact hsaved
  have hchanges : ChangesOnly {p | p ∈ [rsp0Page, idlePage]} c.state.phys.mem m :=
    hm.of_page (by simp [interruptPage])
  refine ⟨_, entryStub_ok left selector offset hroom htick hnext, ⟨?_, ?_, ?_, ?_⟩, hresume, ?_, ?_⟩
  · exact h.gone.other hchanges hcurrent' hstarted' (by rw [hsame]) (by rw [hsame]) hother hresumed
  · dsimp only
    rw [hsame]
    exact h.kind
  · have hready' := h.ready
    dsimp only
    rw [hmem, hsame]
    exact ⟨hrsp, hready'.kernel, hready'.user⟩
  · rw [hresume]
    exact h.context
  · dsimp only
    rw [hmem]
    exact hchanges
  · dsimp only
    rw [hresumed]
    exact .of_eq (fun _ _ => rfl) rfl rfl rfl

lemma IdleSystem.mono {lost' : Set Word} (h : IdleSystem K reserved rsp0Page idlePage pool lost c)
    (hlost : ∀ p ∈ lost, p ∈ lost') : IdleSystem K reserved rsp0Page idlePage pool lost' c :=
  { h with gone := h.gone.mono hlost }

end Alone

/-- Both tasks are there, or the idle task is alone. -/
def SystemInv (K : KernelTables) (entry : Word) (reserved : ReservedHeap) (rsp0Page idlePage : Word)
    (pool lost : Set Word) (c : Machine KernelState) : Prop :=
  (∃ own caller l files nodes,
    UserSystem K entry reserved rsp0Page idlePage pool own c caller l files nodes) ∨
  IdleSystem K reserved rsp0Page idlePage pool lost c

section Runs

variable {K : KernelTables} {reserved : ReservedHeap} {rsp0Page idlePage : Word} {pool lost : Set Word} {own : Owner}
  {c c' : Machine KernelState} {caller : UserTaskBootstrap} {l files nodes : List Word} {t : TaskId} {b : Build}
  {leftover : Set (Word × Word)} {actor : Option TaskId} {actors : List (Option TaskId)}

/-- What is written on the stacks is not what stays. -/
lemma UserSystem.keeps {entry : Word}
    (h : UserSystem K entry reserved rsp0Page idlePage pool own c caller l files nodes)
    (hm : ChangesOnly {p | p ∈ [rsp0Page, idlePage]} c.state.phys.mem c'.state.phys.mem)
    (hfiles : FilesFramed ∅ c.state.store c'.state.store) : SystemKeeps entry c c' :=
  .of_stacks (h.life.kernel _ List.mem_cons_self).1.page h.life.code
    (fun p hp => (h.life.kernel p (List.mem_cons_of_mem _ hp)).1.page) hm hfiles

/-- A step of the system with a user task. Unless the task ends, what a task sees changes in
its own steps only. -/
lemma UserSystem.step
    (h : UserSystem K b.archUserProgramEntry reserved rsp0Page idlePage pool own c caller l files nodes)
    (hentry : b.archUserProgramEntry.toNat < 2 ^ 52) (hhook : b.userTestExecTransferFail = false)
    (hstep : SystemStep b leftover rsp0Page idlePage actor c c') :
    SystemKeeps b.archUserProgramEntry c c' ∧
    ((∃ own' caller' l' files' nodes',
      UserSystem K b.archUserProgramEntry reserved rsp0Page idlePage pool own' c' caller' l' files' nodes' ∧
      (∀ t, actor ≠ some t → contextOf c' t = contextOf c t) ∧
      (actor ≠ some .task1 → userView c'.state = userView c.state)) ∨
    actor = some .task1 ∧ IdleSystem K reserved rsp0Page idlePage pool (sparedPages leftover) c' ∧
      contextOf c' .task0 = contextOf c .task0) := by
  -- the user task's own steps leave the idle task's context alone
  have hown {x : Machine KernelState} (hidle : contextOf x .task0 = contextOf c .task0) :
      (∀ t, some TaskId.task1 ≠ some t → contextOf x t = contextOf c t) ∧
        (some TaskId.task1 ≠ some TaskId.task1 → userView x.state = userView c.state) := by
    refine ⟨fun t hne => ?_, fun hne => absurd rfl hne⟩
    cases t with
    | task0 => exact hidle
    | task1 => exact absurd rfl hne
  cases hstep with
  | program ht hm hcode hring =>
    obtain ⟨hsystem, hidle⟩ := h.program ht hm hring
    exact ⟨⟨hcode, .of_eq (fun _ _ => rfl) rfl rfl rfl⟩, .inl ⟨_, _, _, _, _, hsystem, hown hidle⟩⟩
  | @syscall _ _ reusable left selector offset ht hfits hleft hrun =>
    have hend := h.syscall ht hentry hhook hfits reusable left selector offset
    rw [hrun] at hend
    cases hend with
    | returned r hsystem huser hidle hanswer hturn hkeeps => exact ⟨hkeeps, .inl ⟨_, _, _, _, _, hsystem, hown hidle⟩⟩
    | replaced hrax hsystem hcurrent huser hidle hloaded hkeeps =>
      exact ⟨hkeeps, .inl ⟨_, _, _, _, _, hsystem, hown hidle⟩⟩
    | exited hrax hgone hidle hkeeps =>
      refine ⟨hkeeps, .inr ⟨rfl, hgone.mono fun p hp => ⟨reusable, hleft, hp⟩, ?_⟩⟩
      rw [contextOf_current hgone.gone.current]
      exact hidle
  | idle ht hm hctx =>
    obtain ⟨hsystem, huser⟩ := h.idles ht hm hctx
    have hstacks : ChangesOnly {p | p ∈ [rsp0Page, idlePage]} c.state.phys.mem _ := hm.of_page (by simp)
    refine ⟨h.keeps hstacks (.of_eq (fun _ _ => rfl) rfl rfl rfl), .inl ⟨_, _, _, _, _, hsystem, fun t hne => ?_,
      fun _ => h.view hstacks rfl rfl ⟨rfl, rfl⟩⟩⟩
    cases t with
    | task0 => exact absurd rfl hne
    | task1 => exact huser
  | timer workerCounter left selector offset hrun =>
    obtain ⟨c₁, hrun₁, hsystem, hcontext, hview, -, hstacks, hfiles⟩ := h.timer workerCounter left selector offset
    obtain rfl := Except.ok.inj (hrun.symm.trans hrun₁)
    exact ⟨h.keeps hstacks hfiles, .inl ⟨_, _, _, _, _, hsystem, fun t _ => hcontext t, fun _ => hview⟩⟩
  | stack hm =>
    obtain ⟨hsystem, hcontext⟩ := h.scratched hm
    exact ⟨h.keeps hm.changes (.of_eq (fun _ _ => rfl) rfl rfl rfl), .inl ⟨_, _, _, _, _, hsystem,
      fun t _ => hcontext t, fun _ => h.view hm.changes rfl rfl ⟨rfl, rfl⟩⟩⟩

/-- A step of the idle task's system. -/
lemma IdleSystem.step (h : IdleSystem K reserved rsp0Page idlePage pool lost c)
    (hcode : IsPage (pageAddress b.archUserProgramEntry))
    (hapart : pageAddress b.archUserProgramEntry ∉ [rsp0Page, idlePage])
    (hstep : SystemStep b leftover rsp0Page idlePage actor c c') :
    SystemKeeps b.archUserProgramEntry c c' ∧ IdleSystem K reserved rsp0Page idlePage pool lost c' ∧
      (actor ≠ some .task0 → contextOf c' .task0 = contextOf c .task0) := by
  have hgone := h.gone.current
  have hkeeps {x : Machine KernelState} (hm : ChangesOnly {p | p ∈ [rsp0Page, idlePage]} c.state.phys.mem x.state.phys.mem)
      (hfiles : FilesFramed ∅ c.state.store x.state.store) : SystemKeeps b.archUserProgramEntry c x :=
    .of_stacks hcode hapart (fun p hp => (h.gone.pages p hp).1) hm hfiles
  cases hstep with
  | program ht =>
    rw [hgone] at ht
    cases ht
  | syscall left selector offset ht =>
    rw [hgone] at ht
    cases ht
  | idle ht hm hctx =>
    have hstacks : ChangesOnly {p | p ∈ [rsp0Page, idlePage]} c.state.phys.mem _ := hm.of_page (by simp)
    exact ⟨hkeeps hstacks (.of_eq (fun _ _ => rfl) rfl rfl rfl), h.written hstacks hctx, fun hne => absurd rfl hne⟩
  | timer workerCounter left selector offset hrun =>
    obtain ⟨c₁, hrun₁, hidle, hctx, hstacks, hfiles⟩ := h.timer workerCounter left selector offset
    obtain rfl := Except.ok.inj (hrun.symm.trans hrun₁)
    refine ⟨hkeeps hstacks hfiles, hidle, fun _ => ?_⟩
    rw [contextOf_current hidle.gone.current, contextOf_current hgone]
    exact hctx
  | stack hm =>
    refine ⟨hkeeps hm.changes (.of_eq (fun _ _ => rfl) rfl rfl rfl), h.written hm.changes h.context, fun _ => ?_⟩
    rw [contextOf_written_current hgone, contextOf_current hgone]

/-- One step of either system. -/
lemma SystemInv.step
    (h : SystemInv K b.archUserProgramEntry reserved rsp0Page idlePage pool (sparedPages leftover) c)
    (hentry : b.archUserProgramEntry.toNat < 2 ^ 52) (hhook : b.userTestExecTransferFail = false)
    (hcode : IsPage (pageAddress b.archUserProgramEntry))
    (hapart : pageAddress b.archUserProgramEntry ∉ [rsp0Page, idlePage])
    (hstep : SystemStep b leftover rsp0Page idlePage actor c c') :
    SystemInv K b.archUserProgramEntry reserved rsp0Page idlePage pool (sparedPages leftover) c' ∧
      SystemKeeps b.archUserProgramEntry c c' ∧ (actor ≠ some .task0 → contextOf c' .task0 = contextOf c .task0) := by
  rcases h with ⟨own, caller, l, files, nodes, h⟩ | h
  · obtain ⟨hkeeps, ⟨own', caller', l', files', nodes', h', hcontext, -⟩ | ⟨-, h', hcontext⟩⟩ :=
      h.step hentry hhook hstep
    · exact ⟨.inl ⟨own', caller', l', files', nodes', h'⟩, hkeeps, hcontext _⟩
    · exact ⟨.inr h', hkeeps, fun _ => hcontext⟩
  · obtain ⟨hkeeps, h', hcontext⟩ := h.step hcode hapart hstep
    exact ⟨.inr h', hkeeps, hcontext⟩

/-- Every state that is reached. -/
theorem SystemInv.reached
    (h : SystemInv K b.archUserProgramEntry reserved rsp0Page idlePage pool (sparedPages leftover) c)
    (hentry : b.archUserProgramEntry.toNat < 2 ^ 52) (hhook : b.userTestExecTransferFail = false)
    (hcode : IsPage (pageAddress b.archUserProgramEntry))
    (hapart : pageAddress b.archUserProgramEntry ∉ [rsp0Page, idlePage])
    (run : SystemRun b leftover rsp0Page idlePage actors c c') :
    SystemInv K b.archUserProgramEntry reserved rsp0Page idlePage pool (sparedPages leftover) c' ∧
      SystemKeeps b.archUserProgramEntry c c' := by
  refine run.relates (.refl _) (fun _ _ _ => .trans) (fun _ s s' hs hstep => ?_) h
  obtain ⟨hs', hkeeps, -⟩ := hs.step hentry hhook hcode hapart hstep
  exact ⟨hs', hkeeps⟩

/-- The pages of the program that the user task runs. -/
def TaskPages (k : KernelState) (p : Word) : Prop :=
  p ∈ (k.task .task1).userBootstrap.ownPages ∨
    PrivateTable k.phys (k.task .task1).userBootstrap.addressSpace p

/-- It holds them until it ends. -/
def UserHolds (k : KernelState) (p : Word) : Prop := (k.task .task1).state ≠ .done ∧ TaskPages k p

lemma UserLife.taskPages_iff {k : KernelState} {entry : Word} {stackPages : List Word}
    (h : UserLife K entry reserved stackPages pool own k caller l files nodes) (p : Word) :
    TaskPages k p ↔ p ∈ programPages caller own := by
  have hrun := h.pages.inv.run
  unfold TaskPages
  rw [h.bootstrap]
  refine or_congr Iff.rfl ?_
  have hprivate : PrivateTable k.phys caller.addressSpace p ↔ ∃ ρ, own p = some (caller.addressSpace, ρ) :=
    hrun.private_iff h.pages.space
  rw [hprivate]
  constructor
  · rintro ⟨ρ, hρ⟩
    exact ⟨_, hρ⟩
  · rintro ⟨⟨a, ρ⟩, hρ⟩
    obtain rfl : a = caller.addressSpace := by simpa using hrun.owner p a ρ hρ
    exact ⟨ρ, hρ⟩

/-- Every page of `pool` is free or, unless the user task has ended, its program's; when it has
ended, pages of `lost` may be neither. The others are the kernel's. -/
lemma SystemInv.pages {entry : Word} (h : SystemInv K entry reserved rsp0Page idlePage pool lost c) :
    (∀ p, TableOf c.state.phys.mem c.state.phys.pagingKernelPml4 p ↔ K.IsTable p) ∧
    ∃ free, FreeList c.state.phys free ∧ (∀ p, p ∈ free ∨ UserHolds c.state p → p ∈ pool) ∧
      (∀ p ∈ pool, p ∈ free ∨ UserHolds c.state p ∨ (c.state.task .task1).state = .done ∧ p ∈ lost) ∧
      (∀ p, UserHolds c.state p → p ∉ free) ∧
      ∀ p, p = rsp0Page ∨ p = idlePage ∨ K.IsTable p → p ∉ pool := by
  rcases h with ⟨own, caller, l, files, nodes, h⟩ | h
  · have hholds (p : Word) : UserHolds c.state p ↔ p ∈ programPages caller own :=
      (and_iff_right h.alive).trans (h.life.taskPages_iff p)
    have hinv := h.life.pages.inv.run.inv
    refine ⟨fun p => hinv.kernel_tableOf, l, h.life.free, fun p => ?_, fun p => ?_, fun p hp => ?_, fun p hp hpool => ?_⟩
    · rw [h.life.conserved p, hholds]
      exact id
    · rw [h.life.conserved p, hholds]
      exact Or.imp_right .inl
    · exact h.life.pages.program_used ((hholds p).mp hp)
    · rw [h.life.conserved p] at hpool
      have hstack : p ∈ [rsp0Page, idlePage] → False := fun hs =>
        h.life.kernel_apart (List.mem_cons_of_mem _ hs) hpool
      rcases hp with rfl | rfl | htable
      · exact hstack List.mem_cons_self
      · exact hstack (List.mem_cons_of_mem _ List.mem_cons_self)
      · rcases hpool with hfree | hown | ⟨x, hx⟩
        · exact hinv.free_kernel p hfree htable
        · exact (h.life.pages.held p hown).apart htable
        · exact hinv.own_not_kernel hx htable
  · obtain ⟨l, htables, hpool, hall⟩ := h.gone.tables
    have hdone : ¬ (c.state.task .task1).state ≠ .done := not_not.mpr h.gone.done
    refine ⟨fun p => htables.kernel_tableOf, l, htables.free, fun p hp => ?_, fun p hp => ?_,
      fun p hp => absurd hp.1 hdone, fun p hp => ?_⟩
    · exact hpool p (hp.resolve_right fun hp => hdone hp.1)
    · exact (hall p hp).imp_right fun hlost => .inr ⟨h.gone.done, hlost⟩
    · rcases hp with rfl | rfl | htable
      · exact (h.gone.pages _ List.mem_cons_self).2.1
      · exact (h.gone.pages _ (List.mem_cons_of_mem _ List.mem_cons_self)).2.1
      · exact fun hp => h.gone.apart p hp htable

/-- The timer is always answered: no context changes, and the tasks take turns. -/
theorem SystemInv.timer {entry : Word} (h : SystemInv K entry reserved rsp0Page idlePage pool lost c)
    (workerCounter : Word) (left : Reg → Word) (selector offset : Word) :
    ∃ c', run (archIrq0Entry workerCounter left) (deliver (rsp0Page + 4096#64) selector offset c) = .ok c' ∧
      contextOf c' .task0 = contextOf c .task0 ∧
      ((c.state.task .task1).state = .done → c'.state.current = some .task0) ∧
      ((c.state.task .task1).state ≠ .done → contextOf c' .task1 = contextOf c .task1 ∧
        ∀ t, c.state.current = some t → c'.state.current = some t.other) := by
  rcases h with ⟨own, caller, l, files, nodes, h⟩ | h
  · obtain ⟨c', hrun, -, hcontext, -, hother, -⟩ := h.timer workerCounter left selector offset
    exact ⟨c', hrun, hcontext _, fun hdone => absurd hdone h.alive, fun _ => ⟨hcontext _, hother⟩⟩
  · obtain ⟨c', hrun, hidle, hctx, -⟩ := h.timer workerCounter left selector offset
    refine ⟨c', hrun, ?_, fun _ => hidle.gone.current, fun hne => absurd h.gone.done hne⟩
    rw [contextOf_current hidle.gone.current, contextOf_current h.gone.current]
    exact hctx

end Runs

end Platinum
