import Platinum.ExecMachine

/-!
# Running out of pages during exec

Most of exec reports a missing page. Mapping the first user page needs three
tables below the new root, and `paging_map_user_page` halts without them.
-/
namespace Platinum
open ByteMemory

/-- The window of the image is to be had, but fewer than three pages are left for
the tables. -/
def TablesShort (caller : UserTaskBootstrap) (image : Mem) (imageSize : Word) (l : List Word) : Prop :=
  ∃ plan a l₁, execPlan image imageSize = some plan ∧ l = a :: l₁ ∧
    (∀ p ∈ plan.claimed caller.imagePhysicalBegin caller.imagePhysicalEnd, p ∈ l₁) ∧
    (l₁.diff (plan.claimed caller.imagePhysicalBegin caller.imagePhysicalEnd)).length < 3

/-- The task runs the image at `path`, and its new stack pointer is `next`. -/
structure Replaced (b : Build) (k : KernelState) (t : TaskId) (path : List Byte) (next : Word)
    (k' : KernelState) : Prop where
  current : k'.current = some t
  image : ∃ image imageSize s plan a stackPage, Offers k.store path image imageSize s ∧
    execPlan image imageSize = some plan ∧
    (k'.task t).userBootstrap = plan.bootstrap b.archUserProgramEntry a stackPage
  rsp : next = execFrame (k'.task t).userBootstrap ∧ next = (k'.task t).rsp
  space : k'.phys.cr3 = (k'.task t).userBootstrap.addressSpace

/-- `SYS_EXEC` answers with an error, or the task runs the image it asked for. -/
def ExecAnswers (b : Build) (k : KernelState) (t : TaskId) (caller : UserTaskBootstrap) (rsp : Word)
    (frame : SyscallFrame) (reusable : Word × Word) : Prop :=
  ∃ next frame' k', (kernelSyscallEntry b k rsp frame reusable).result = .ok (next, frame', k') ∧
    (next = rsp ∧ frame' = syscallReturn frame sysResultError ∨
      frame' = frame ∧ ∃ path, ExecPathAt k caller frame.rdi path ∧ Replaced b k t path next k')

section Halt

variable {K : KernelTables} {own : Owner} {b : Build} {k : KernelState} {t : TaskId}
  {caller : UserTaskBootstrap} {l l₁ spaces others held files nodes : List Word} {image : Mem}
  {imageSize rsp next a stackPage : Word} {reusable : Word × Word} {k' : KernelState} {path : List Byte}
  {plan : ElfPlan} {s : Phys} {fdTable : FdTable} {store : Store} {frame : SyscallFrame}

/-- A transfer runs the image that was prepared. -/
lemma replaced_of_transferred {k₁ : KernelState} (hoffers : Offers k.store path image imageSize s)
    (hplan : execPlan image imageSize = some plan) (hcurrent : k₁.current = some t) :
    Replaced b k t path (execFrame (plan.bootstrap b.archUserProgramEntry a stackPage))
      (execTransferred k₁ t (plan.bootstrap b.archUserProgramEntry a stackPage) fdTable store
        reusable) := by
  have htask := execTransferred_task k₁ t (plan.bootstrap b.archUserProgramEntry a stackPage) fdTable store
    reusable
  refine ⟨hcurrent, ⟨image, imageSize, s, plan, a, stackPage, hoffers, hplan, ?_⟩, ?_, ?_⟩
  · rw [htask]
  · rw [htask]
    exact ⟨rfl, rfl⟩
  · rw [htask]
    exact (schedReleaseUserBootstrap_globals _ _ _).cr3

/-- Every other end has its tables. -/
lemma not_tablesShort (hplan : execPlan image imageSize = some plan)
    (hlen : 3 ≤ (l.tail.diff
      (plan.claimed caller.imagePhysicalBegin caller.imagePhysicalEnd)).length) :
    ¬ TablesShort caller image imageSize l := by
  rintro ⟨plan', a, l₁, hplan', rfl, -, hshort⟩
  obtain rfl := Option.some.inj (hplan.symm.trans hplan')
  rw [List.tail_cons] at hlen
  omega

lemma PrepareOutcome.not_short {r : Option UserTaskBootstrap × Phys} {entry : Word}
    (h : PrepareOutcome K entry caller.imagePhysicalBegin caller.imagePhysicalEnd image imageSize s own l
      (.ok r)) : ¬ TablesShort caller image imageSize l := by
  cases h with
  | early why =>
    rintro ⟨plan, a, l₁, hplan, rfl, hav, -⟩
    rcases why with hnil | hno | ⟨plan', hplan', p, hp, hno⟩
    · cases hnil
    · rw [hno] at hplan
      cases hplan
    · obtain rfl := Option.some.inj (hplan.symm.trans hplan')
      exact hno (hav p hp)
  | noStack hplan hav length => exact not_tablesShort hplan length.ge
  | prepared hplan hp =>
    obtain ⟨l₀, rfl, -, tabs, hdiff, hlen, -⟩ := hp.head
    refine not_tablesShort hplan ?_
    rw [List.tail_cons, hdiff, List.length_append]
    omega

/-- Exec halts when the tables cannot be had, and only then. -/
lemma ExecCaller.execPath_halts (h : ExecCaller K own k t caller l spaces others held files nodes)
    (hentry : b.archUserProgramEntry.toNat < 2 ^ 52) (path : List Byte) (reusable : Word × Word) :
    (syscallExecPath b k path reusable = .error .halt ∧ ∃ image imageSize s l,
      Offers k.store path image imageSize s ∧ FreeList s l ∧ TablesShort caller image imageSize l) ∨
    ((∃ next k', syscallExecPath b k path reusable = .ok (next, k') ∧
      (next ≠ 0#64 → Replaced b k t path next k')) ∧ ∀ image imageSize s l,
      Offers k.store path image imageSize s → FreeList s l → ¬ TablesShort caller image imageSize l) := by
  obtain ⟨found, store, files', n, -, hcaller, -, -, hoffers, hnone, hsome⟩ :=
    h.execPath hentry path reusable
  have hfree : FreeList store.phys (l.drop n) := hcaller.pages.inv.run.inv.free
  cases found with
  | none =>
    refine .inr ⟨⟨0#64, _, hnone rfl, fun h0 => absurd rfl h0⟩, fun image imageSize s l₁ hoff => ?_⟩
    have hno := ((hoffers _ _ _).mp hoff).1
    cases hno
  | some found =>
    obtain ⟨image, imageSize⟩ := found
    have hoff := (hoffers image imageSize store.phys).mpr ⟨rfl, rfl⟩
    have honly (hshort : ¬ TablesShort caller image imageSize (l.drop n)) : ∀ image imageSize s l,
        Offers k.store path image imageSize s → FreeList s l →
          ¬ TablesShort caller image imageSize l := by
      intro image' imageSize' s l' hoff' hl'
      obtain ⟨he, rfl⟩ := (hoffers _ _ _).mp hoff'
      cases he
      rwa [hl'.unique hfree]
    have hend := hsome image imageSize rfl
    generalize syscallExecPath b k path reusable = x at hend
    cases hend with
    | failed hprep => exact .inr ⟨⟨_, _, rfl, fun h0 => absurd rfl h0⟩, honly hprep.not_short⟩
    | halted hne hprep =>
      obtain ⟨a, l₁, hl⟩ := List.exists_cons_of_ne_nil hne
      cases hprep with
      | noTables hplan hav length =>
        rw [hl, List.tail_cons] at hav length
        exact .inl ⟨rfl, image, imageSize, _, _, hoff, hfree, _, a, l₁, hplan, hl, hav, length⟩
    | refused hplan hprep hhook =>
      exact .inr ⟨⟨_, _, rfl, fun h0 => absurd rfl h0⟩,
        honly (PrepareOutcome.prepared hplan hprep).not_short⟩
    | unseeded hplan hprep hhook hseed hfds =>
      exact .inr ⟨⟨_, _, rfl, fun h0 => absurd rfl h0⟩,
        honly (PrepareOutcome.prepared hplan hprep).not_short⟩
    | transferred hplan hprep hhook hseed hfds hready =>
      exact .inr ⟨⟨_, _, rfl, fun _ => replaced_of_transferred hoff hplan hcaller.task⟩,
        honly (PrepareOutcome.prepared hplan hprep).not_short⟩

/-- Without its tables the call never returns. -/
lemma ExecCaller.syscall_halts (h : ExecCaller K own k t caller l spaces others held files nodes)
    (hentry : b.archUserProgramEntry.toNat < 2 ^ 52) (hrax : frame.rax = sysExec)
    (hpath : ExecPathAt k caller frame.rdi path) (hoff : Offers k.store path image imageSize s)
    (hl : FreeList s l₁) (hshort : TablesShort caller image imageSize l₁) (rsp : Word)
    (reusable : Word × Word) :
    (kernelSyscallEntry b k rsp frame reusable).result = .error .halt := by
  rcases h.syscall b hrax rsp reusable with ⟨hno, -⟩ | ⟨path', hiff, hrun⟩
  · exact absurd hpath (hno path)
  obtain rfl := (hiff path).mp hpath
  rcases h.execPath_halts hentry path reusable with ⟨hhalt, -⟩ | ⟨-, hall⟩
  · rw [hrun, hhalt]
    rfl
  · exact absurd hshort (hall image imageSize s l₁ hoff hl)

/-- With its tables, or if it fails before it needs them, the call is answered. -/
lemma ExecCaller.syscall_answers (h : ExecCaller K own k t caller l spaces others held files nodes)
    (hentry : b.archUserProgramEntry.toNat < 2 ^ 52) (hrax : frame.rax = sysExec)
    (hall : ∀ path image imageSize s l, ExecPathAt k caller frame.rdi path →
      Offers k.store path image imageSize s → FreeList s l → ¬ TablesShort caller image imageSize l)
    (rsp : Word) (reusable : Word × Word) : ExecAnswers b k t caller rsp frame reusable := by
  unfold ExecAnswers
  rcases h.syscall b hrax rsp reusable with ⟨-, hrun⟩ | ⟨path, hpath, hrun⟩
  · rw [hrun]
    exact ⟨_, _, _, rfl, .inl ⟨rfl, rfl⟩⟩
  have hat : ExecPathAt k caller frame.rdi path := (hpath path).mpr rfl
  rcases h.execPath_halts hentry path reusable with
    ⟨-, image, imageSize, s, l₁, hoff, hl₁, hshort⟩ | ⟨⟨next, k', hok, hreplaced⟩, -⟩
  · exact absurd hshort (hall path image imageSize s l₁ hat hoff hl₁)
  · rw [hrun, hok]
    by_cases h0 : next = 0#64
    · exact ⟨rsp, _, k', congrArg Except.ok (if_pos h0), .inl ⟨rfl, rfl⟩⟩
    · exact ⟨next, frame, k', congrArg Except.ok (if_neg h0), .inr ⟨rfl, path, hat, hreplaced h0⟩⟩

end Halt

/-- `SYS_EXEC` answers its caller unless the tables of the new address space cannot
be had. -/
theorem exec_answers_iff {K : KernelTables} {own : Owner} {b : Build} {k : KernelState} {t : TaskId}
    {caller : UserTaskBootstrap} {l spaces others held files nodes : List Word} {frame : SyscallFrame}
    (h : ExecCaller K own k t caller l spaces others held files nodes)
    (hentry : b.archUserProgramEntry.toNat < 2 ^ 52) (hrax : frame.rax = sysExec) (rsp : Word)
    (reusable : Word × Word) :
    ExecAnswers b k t caller rsp frame reusable ↔ ∀ path image imageSize s l,
      ExecPathAt k caller frame.rdi path → Offers k.store path image imageSize s → FreeList s l →
        ¬ TablesShort caller image imageSize l := by
  refine ⟨?_, fun hall => h.syscall_answers hentry hrax hall rsp reusable⟩
  rintro ⟨next, frame', k', hrun, -⟩ path image imageSize s l₁ hpath hoff hl₁ hshort
  rw [h.syscall_halts hentry hrax hpath hoff hl₁ hshort] at hrun
  cases hrun

/-- What the sample machine's program passes to exec itself. -/
def sampleExecFrame : SyscallFrame := ⟨sysExec, 0x40001000#64, 0#64, 0#64⟩

lemma sample_reuses : (samplePlan 1#64).claimed sampleBootstrap.imagePhysicalBegin
    sampleBootstrap.imagePhysicalEnd = [] := by decide

/-- With five free pages the sample program is answered. -/
theorem exec_answers_iff_sample : ∃ k, k.current = some .task1 ∧
    ExecAnswers ⟨0x00100000#64, false⟩ k .task1 sampleBootstrap 0x40200000#64 sampleExecFrame
      (0#64, 0#64) := by
  have hps : ∀ p ∈ bootPages ++ secondPages, SparePage p := by simp [bootPages, secondPages, SparePage]
  obtain ⟨K, own, k, held, files, nodes, h, hoff, hpath, -⟩ := execCaller_exists hps (by decide)
  have hentry : (0x00100000#64 : Word).toNat < 2 ^ 52 := by decide
  refine ⟨k, h.task, (exec_answers_iff h (b := ⟨0x00100000#64, false⟩) hentry rfl _ _).mpr ?_⟩
  rintro path image imageSize s l hpath' hoff' hl ⟨plan, a, l₁, hplan, rfl, -, hshort⟩
  obtain rfl := h.path_unique hpath hpath'
  obtain ⟨rfl, rfl, rfl⟩ := hoff.unique hoff'
  obtain rfl := Option.some.inj (execPlan_one.symm.trans hplan)
  obtain ⟨-, rfl⟩ := List.cons.inj (hl.unique h.pages.inv.run.inv.free)
  rw [sample_reuses] at hshort
  simp at hshort

/-- With a single free page it is not: the machine halts. -/
theorem exec_out_of_tables : ∃ K own k held files nodes,
    ExecCaller K own k .task1 sampleBootstrap [0x02206000#64] [0x02200000#64] [] held files nodes ∧
    ¬ ExecAnswers ⟨0x00100000#64, false⟩ k .task1 sampleBootstrap 0x40200000#64 sampleExecFrame
      (0#64, 0#64) := by
  have hps : ∀ p ∈ bootPages ++ [0x02206000#64], SparePage p := by simp [bootPages, SparePage]
  obtain ⟨K, own, k, held, files, nodes, h, hoff, hpath, -⟩ := execCaller_exists hps (by decide)
  have hshort : TablesShort sampleBootstrap (sampleImage 1) 120#64 [0x02206000#64] :=
    ⟨_, _, [], execPlan_one, rfl, by simp [sample_reuses], by simp [sample_reuses]⟩
  have hentry : (0x00100000#64 : Word).toNat < 2 ^ 52 := by decide
  refine ⟨K, own, k, held, files, nodes, h, ?_⟩
  rintro ⟨next, frame', k', hrun, -⟩
  rw [h.syscall_halts hentry rfl hpath hoff h.pages.inv.run.inv.free hshort] at hrun
  cases hrun

end Platinum
