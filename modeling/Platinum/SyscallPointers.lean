import Platinum.UserBoot

/-!
# Pointers that users pass

Read, write, open and exec reach user memory only where the running task may,
and only after their checks. Those checks decide what they are meant to.
-/
namespace Platinum
open ByteMemory WordArith

/-- All user accesses are at addresses with `P`. -/
def UserAccess.Within {α : Type} (P : Word → Prop) (x : UserAccess α) : Prop := ∀ y ∈ x.touched, P y

/-- The bytes of a buffer. -/
def InBuffer (buffer count y : Word) : Prop := ∃ i < count.toNat, y = buffer + BitVec.ofNat 64 i

section Accesses

variable {α β : Type} {P Q : Word → Prop} {x : UserAccess α} {f : α → UserAccess β}
  {s : Phys} {k : Store} {buffer count file : Word}

lemma UserAccess.within_pure (a : α) : (pure a : UserAccess α).Within P := by
  intro y hy
  cases hy

lemma UserAccess.within_lift (x : Run α) : (UserAccess.lift x).Within P := by
  intro y hy
  cases hy

lemma UserAccess.within_bind (hx : x.Within P) (hf : ∀ a, x.result = .ok a → (f a).Within P) :
    (x >>= f).Within P := by
  obtain ⟨touched, result⟩ := x
  cases result with
  | error e => exact hx
  | ok a =>
    intro y hy
    rcases List.mem_append.mp hy with hy | hy
    · exact hx y hy
    · exact hf a rfl y hy

lemma UserAccess.Within.mono (hx : x.Within P) (hPQ : ∀ y, P y → Q y) : x.Within Q :=
  fun y hy => hPQ y (hx y hy)

lemma buffer_succ (buffer : Word) (i : ℕ) :
    buffer + 1#64 + BitVec.ofNat 64 i = buffer + BitVec.ofNat 64 (i + 1) := by
  rw [BitVec.add_assoc, ← BitVec.ofNat_add, Nat.add_comm]

lemma userLoadBytes_within (s : Phys) (n : ℕ) (buffer : Word) :
    (userLoadBytes s buffer n).Within fun y => ∃ i < n, y = buffer + BitVec.ofNat 64 i := by
  induction n generalizing buffer with
  | zero => exact UserAccess.within_pure _
  | succ n ih =>
    refine UserAccess.within_bind ?_ fun value _ => UserAccess.within_bind ?_ fun rest _ =>
      UserAccess.within_pure _
    · intro y hy
      obtain rfl := List.mem_singleton.mp hy
      exact ⟨0, by omega, by simp⟩
    · refine (ih (buffer + 1#64)).mono ?_
      rintro y ⟨i, hi, rfl⟩
      exact ⟨i + 1, by omega, buffer_succ buffer i⟩

lemma userStoreBytes_within (s : Phys) (bytes : List Byte) (buffer : Word) :
    (userStoreBytes s buffer bytes).Within fun y => ∃ i < bytes.length, y = buffer + BitVec.ofNat 64 i := by
  induction bytes generalizing s buffer with
  | nil => exact UserAccess.within_pure _
  | cons value bytes ih =>
    refine UserAccess.within_bind ?_ fun s' _ => ?_
    · intro y hy
      obtain rfl := List.mem_singleton.mp hy
      exact ⟨0, by simp, by simp⟩
    · refine (ih s' (buffer + 1#64)).mono ?_
      rintro y ⟨i, hi, rfl⟩
      exact ⟨i + 1, by simpa using hi, buffer_succ buffer i⟩

/-- A single byte store into a buffer that is not empty. -/
lemma userStore_within (hc : count ≠ 0#64) (value : Byte) :
    (userStore s buffer value).Within (InBuffer buffer count) := by
  intro y hy
  obtain rfl := List.mem_singleton.mp hy
  exact ⟨0, Nat.pos_of_ne_zero fun h0 => hc (BitVec.eq_of_toNat_eq h0), by simp⟩

lemma serialWriteUser_within : (serialWriteUser k buffer count).Within (InBuffer buffer count) :=
  UserAccess.within_bind (userLoadBytes_within k.phys count.toNat buffer) fun _ _ =>
    UserAccess.within_pure _

lemma VfsNodeOps.read_within (ops : VfsNodeOps) :
    (ops.read k file buffer count).Within (InBuffer buffer count) := by
  cases ops with
  | fdConsoleInput =>
    change (fdConsoleInputRead k file buffer count).Within _
    unfold fdConsoleInputRead
    dsimp only
    split_ifs with h₁ h₂ hc
    · exact UserAccess.within_pure _
    · exact UserAccess.within_pure _
    · exact UserAccess.within_pure _
    · exact UserAccess.within_pure _
    · exact UserAccess.within_bind (userStore_within hc _) fun _ _ => UserAccess.within_pure _
  | consoleInput =>
    change (vfsConsoleInputRead k file buffer count).Within _
    unfold vfsConsoleInputRead
    dsimp only
    split_ifs with hc
    · exact UserAccess.within_pure _
    · exact UserAccess.within_pure _
    · exact UserAccess.within_bind (userStore_within hc _) fun _ _ => UserAccess.within_pure _
  | staticText =>
    change (vfsStaticTextRead k file buffer count).Within _
    unfold vfsStaticTextRead
    dsimp only
    split_ifs with hc h₂ hlt
    · exact UserAccess.within_pure _
    · exact UserAccess.within_pure _
    all_goals refine UserAccess.within_bind ((userStoreBytes_within _ _ _).mono ?_) fun _ _ =>
      UserAccess.within_pure _
    all_goals
      rintro y ⟨i, hi, rfl⟩
      rw [List.length_map, List.length_range] at hi
      refine ⟨i, ?_, rfl⟩
    · rw [BitVec.lt_def] at hlt
      omega
    · exact hi
  | fdConsoleOutput | consoleOutput | executable | directory => exact UserAccess.within_pure _

lemma VfsNodeOps.write_within (ops : VfsNodeOps) :
    (ops.write k file buffer count).Within (InBuffer buffer count) := by
  cases ops with
  | fdConsoleOutput =>
    change (fdConsoleOutputWrite k file buffer count).Within _
    unfold fdConsoleOutputWrite
    dsimp only
    split_ifs
    · exact UserAccess.within_pure _
    · exact UserAccess.within_pure _
    · exact UserAccess.within_bind serialWriteUser_within fun _ _ => UserAccess.within_pure _
    · exact UserAccess.within_pure _
  | consoleOutput =>
    change (vfsConsoleOutputWrite k file buffer count).Within _
    unfold vfsConsoleOutputWrite
    split_ifs
    · exact UserAccess.within_pure _
    · exact UserAccess.within_bind serialWriteUser_within fun _ _ => UserAccess.within_pure _
    · exact UserAccess.within_pure _
  | fdConsoleInput | consoleInput | staticText | executable | directory =>
    exact UserAccess.within_pure _

lemma vfsFileRead_within : (vfsFileRead k file buffer count).Within (InBuffer buffer count) := by
  unfold vfsFileRead
  by_cases h₀ : file = 0#64 ∨ (k.file file).node = .null
  · rw [if_pos h₀]
    exact UserAccess.within_pure _
  rw [if_neg h₀]
  cases (k.node (k.file file).node).ops with
  | none => exact UserAccess.within_pure _
  | some ops =>
    dsimp only
    split_ifs
    · exact UserAccess.within_pure _
    · exact ops.read_within
    · exact UserAccess.within_pure _

/-- Reading a descriptor reaches its buffer only. -/
lemma fdTableRead_within (k : Store) (table : FdTable) (fd : Int) (buffer count : Word) :
    (fdTableRead k table fd buffer count).Within (InBuffer buffer count) := by
  unfold fdTableRead
  split
  · exact UserAccess.within_pure _
  · exact vfsFileRead_within

lemma vfsFileWrite_within : (vfsFileWrite k file buffer count).Within (InBuffer buffer count) := by
  unfold vfsFileWrite
  by_cases h₀ : file = 0#64 ∨ (k.file file).node = .null
  · rw [if_pos h₀]
    exact UserAccess.within_pure _
  rw [if_neg h₀]
  cases (k.node (k.file file).node).ops with
  | none => exact UserAccess.within_pure _
  | some ops =>
    dsimp only
    split_ifs
    · exact UserAccess.within_pure _
    · exact ops.write_within
    · exact UserAccess.within_pure _

/-- Writing a descriptor reaches its buffer only. -/
lemma fdTableWrite_within (k : Store) (table : FdTable) (fd : Int) (buffer count : Word) :
    (fdTableWrite k table fd buffer count).Within (InBuffer buffer count) := by
  unfold fdTableWrite
  split
  · exact UserAccess.within_pure _
  · exact vfsFileWrite_within

end Accesses

section Calls

variable {s : Phys} {k : KernelState} {a currentRsp : Word} {layout : UserVirtualLayout}
  {frame : SyscallFrame} {At : Path → Word → Prop} {Usr : Path → Prop}

/-- A buffer that passed the check is reachable. -/
lemma inBuffer_reachable {buffer count y : Word} (h : Levels s.mem a At Usr) (ha : a ≠ 0#64)
    (hbase : layout.trampolineBase ≠ 0#64)
    (hvalid : syscallUserBufferValid s a layout buffer count = .ok true)
    (hy : InBuffer buffer count y) : UserReachable s.mem a layout y := by
  obtain ⟨b, hb, hiff⟩ := syscallUserBufferValid_spec buffer count h ha hbase
  obtain rfl := Except.ok.inj (hb.symm.trans hvalid)
  obtain ⟨i, hi, rfl⟩ := hy
  rcases hiff.mp rfl with rfl | ⟨-, hall⟩
  · simp at hi
  · exact hall i hi

lemma syscallRead_within (h : Levels k.phys.mem a At Usr) (ha : a ≠ 0#64)
    (hbase : layout.trampolineBase ≠ 0#64) :
    (syscallRead k currentRsp frame a layout).Within (UserReachable k.phys.mem a layout) := by
  refine UserAccess.within_bind (UserAccess.within_lift _) fun valid hvalid => ?_
  cases schedCurrentFdTable k with
  | none => exact UserAccess.within_pure _
  | some fdTable =>
    dsimp only
    split_ifs with hv
    · subst hv
      exact UserAccess.within_bind ((fdTableRead_within _ _ _ _ _).mono fun y =>
        inBuffer_reachable h ha hbase hvalid) fun _ _ => UserAccess.within_pure _
    · exact UserAccess.within_pure _

lemma syscallWrite_within (h : Levels k.phys.mem a At Usr) (ha : a ≠ 0#64)
    (hbase : layout.trampolineBase ≠ 0#64) :
    (syscallWrite k currentRsp frame a layout).Within (UserReachable k.phys.mem a layout) := by
  refine UserAccess.within_bind (UserAccess.within_lift _) fun valid hvalid => ?_
  cases schedCurrentFdTable k with
  | none => exact UserAccess.within_pure _
  | some fdTable =>
    dsimp only
    split_ifs with hv
    · subst hv
      exact UserAccess.within_bind ((fdTableWrite_within _ _ _ _ _).mono fun y =>
        inBuffer_reachable h ha hbase hvalid) fun _ _ => UserAccess.within_pure _
    · exact UserAccess.within_pure _

/-- The path and what follows its copy, which uses no user pointer. -/
lemma syscallPath_within {α : Type} (h : Levels k.phys.mem a At Usr) (ha : a ≠ 0#64)
    (hcr : k.phys.cr3 = a) (hbase : layout.trampolineBase ≠ 0#64) {src : Word}
    {f : Option (List Byte) → UserAccess α}
    (hf : ∀ r, (f r).Within (UserReachable k.phys.mem a layout)) :
    (syscallCopyPath k.phys syscallPathSize src a layout >>= f).Within
      (UserReachable k.phys.mem a layout) := by
  obtain ⟨r, -, htouched, -⟩ := syscallCopyPath_spec syscallPathSize src h ha hcr hbase (by decide)
  exact UserAccess.within_bind htouched fun r _ => hf r

/-- Every user access of a system call is reachable for the running task. -/
theorem kernelSyscallEntry_within (b : Build) (reusable : Word × Word)
    (hctx : schedCurrentUserContext k = some (layout, a)) (h : Levels k.phys.mem a At Usr)
    (ha : a ≠ 0#64) (hcr : k.phys.cr3 = a) (hbase : layout.trampolineBase ≠ 0#64) :
    (kernelSyscallEntry b k currentRsp frame reusable).Within
      (UserReachable k.phys.mem a layout) := by
  unfold kernelSyscallEntry
  rw [hctx]
  dsimp only
  split_ifs
  · exact syscallRead_within h ha hbase
  · exact syscallWrite_within h ha hbase
  · unfold syscallOpen
    cases schedCurrentFdTable k with
    | none => exact UserAccess.within_pure _
    | some fdTable =>
      refine syscallPath_within h ha hcr hbase fun r => ?_
      cases r with
      | none => exact UserAccess.within_pure _
      | some path =>
        exact UserAccess.within_bind (UserAccess.within_lift _) fun _ _ => UserAccess.within_pure _
  · refine syscallPath_within h ha hcr hbase fun r => ?_
    cases r with
    | none => exact UserAccess.within_pure _
    | some path =>
      refine UserAccess.within_bind (UserAccess.within_lift _) fun x _ => ?_
      dsimp only
      split_ifs <;> exact UserAccess.within_pure _
  · exact UserAccess.within_lift _

/-- The address space of the running user task is the loaded one. -/
lemma SchedInv.context_loaded {saved : Saved} (h : SchedInv k saved)
    (hctx : schedCurrentUserContext k = some (layout, a)) : k.phys.cr3 = a ∧ a ≠ 0#64 := by
  unfold schedCurrentUserContext at hctx
  cases ht : k.current with
  | none => simp [ht] at hctx
  | some t =>
    rw [ht] at hctx
    dsimp only at hctx
    split_ifs at hctx with h₁ h₂
    push Not at h₁
    obtain ⟨hkind, hstate⟩ := h₁
    obtain ⟨-, rfl⟩ := Prod.mk.inj (Option.some.inj hctx)
    refine ⟨?_, h₂⟩
    cases hs : k.schedStarted with
    | false =>
      rw [h.waiting hs t] at hstate
      cases hstate
    | true =>
      obtain ⟨-, -, hc⟩ := h.current hs ht
      rw [hc, ((h.ready t (by simp [hstate])).user hkind).1]

/-- The context of a task is that of its bootstrap. -/
lemma schedCurrentUserContext_of_bootstrap {k : KernelState} {bootstrap : UserTaskBootstrap}
    (h : schedCurrentUserBootstrap k = some bootstrap) :
    schedCurrentUserContext k = some (bootstrap.layout, bootstrap.addressSpace) := by
  unfold schedCurrentUserBootstrap at h
  unfold schedCurrentUserContext
  cases ht : k.current with
  | none =>
    rw [ht] at h
    cases h
  | some t =>
    rw [ht] at h
    dsimp only at h ⊢
    split_ifs at h ⊢
    obtain rfl := Option.some.inj h
    rfl

end Calls

/-- System calls touch user memory only where the running program may, a buffer
is accepted exactly when it is empty or all of it is such memory, and a path is
copied exactly when it is there. -/
theorem syscall_pointers_safe {pre s₀ : Phys} {l₀ spaces : List Word} {k₀ k₁ k : KernelState}
    {entry idle worker a : Word} {saved : Saved} {layout : UserVirtualLayout}
    (hentry : entry.toNat < 2 ^ 52) (hfree : FreeList pre l₀) (hboot : pagingInitialize pre = .ok s₀)
    (hroot : k₀.userTaskEnabled = true →
      k₀.userTaskBootstrap.addressSpace ≠ pagingKernelAddressSpace k₀.phys)
    (hinit : schedInitialize k₀ idle worker = .ok k₁)
    (hsched : SchedRun k₁ (fun t => (k₁.task t).rsp) k saved) (hexec : ExecRun entry s₀ k.phys spaces)
    (hctx : schedCurrentUserContext k = some (layout, a)) (ha : a ∈ spaces)
    (hbase : layout.trampolineBase ≠ 0#64) :
    (∀ b currentRsp frame reusable,
      ∀ x ∈ (kernelSyscallEntry b k currentRsp frame reusable).touched,
        UserReachable k.phys.mem a layout x) ∧
    (∀ buffer count, ∃ valid, syscallUserBufferValid k.phys a layout buffer count = .ok valid ∧
      (valid = true ↔ count = 0#64 ∨ (buffer.toNat + count.toNat ≤ 2 ^ 64 ∧
        ∀ i < count.toNat, UserReachable k.phys.mem a layout (buffer + BitVec.ofNat 64 i)))) ∧
    ∀ src, ∃ r, (syscallCopyPath k.phys syscallPathSize src a layout).result = .ok r ∧
      ∀ path, r = some path ↔ PathAt k.phys.mem a layout src path ∧ path.length < 63 := by
  rcases pagingInitialize_spec hfree with ⟨s₁, K, l₁, hs₁, hb⟩ | ⟨hs₁, -⟩
  swap
  · rw [hs₁] at hboot
    cases hboot
  obtain rfl := Except.ok.inj (hs₁.symm.trans hboot)
  obtain ⟨own, l, h, -, -⟩ := hexec.inv hb.inv hb.limit_pos hentry
  have hlevels := user_levels h.run.inv (h.run.space a ha)
  obtain ⟨hcr, hne⟩ := (hsched.inv (schedInitialize_inv hroot hinit)).1.context_loaded hctx
  refine ⟨fun b currentRsp frame reusable =>
    kernelSyscallEntry_within b reusable hctx hlevels hne hcr hbase,
    fun buffer count => syscallUserBufferValid_spec buffer count hlevels hne hbase, fun src => ?_⟩
  obtain ⟨r, hr, -, hiff⟩ := syscallCopyPath_spec syscallPathSize src hlevels hne hcr hbase
    (by decide)
  have hsize : syscallPathSize = 64 := rfl
  refine ⟨r, hr, fun path => (hiff path).trans (and_congr_right fun _ => ?_)⟩
  omega

/-- The safety theorem at work: a program of one page that has just started. -/
theorem syscall_pointers_safe_sample : ∃ K own s₀ k₀ k₁ k, UserMachine [] K own s₀ k₀ k₁ k ∧
    ∀ buffer count, ∃ valid,
      syscallUserBufferValid k.phys 0x02200000#64 firstUserLayout buffer count = .ok valid ∧
      (valid = true ↔ count = 0#64 ∨ (buffer.toNat + count.toNat ≤ 2 ^ 64 ∧
        ∀ i < count.toNat, UserReachable k.phys.mem 0x02200000#64 firstUserLayout
          (buffer + BitVec.ofNat 64 i))) := by
  have hps : ∀ p ∈ bootPages ++ [], SparePage p := by simp [bootPages, SparePage]
  obtain ⟨l, K, own, s₀, k₀, k₁, k, hpre, h⟩ := userMachine_exists hps (by decide)
  have hctx : schedCurrentUserContext k = some (firstUserLayout, 0x02200000#64) := by
    rw [schedCurrentUserContext_of_bootstrap h.bootstrap]
    rfl
  have hrsp : (0x00200000#64 : Word) ≠ 0#64 := by decide
  obtain ⟨-, hvalid, -⟩ := syscall_pointers_safe (by decide) hpre h.boot (fun _ => h.root) h.init
    (.step .refl (.tick hrsp h.tick)) h.exec hctx (by simp) (by decide)
  exact ⟨K, own, s₀, k₀, k₁, k, h, hvalid⟩

end Platinum
