import Platinum.FileFrame
import Platinum.UserBoot

/-!
# Descriptor numbers in registers

The dispatch passes on the low half of the register, as an `int`. A call acts on
the entry of that number, and on nothing when there is none in use.
-/
namespace Platinum
open ByteMemory WordArith

/-- The calls whose first argument is a descriptor. -/
def fdArgumentCalls : List Word := [sysRead, sysWrite, sysClose, sysDup]

/-- The low half of the register names a used entry of the running task. -/
structure NamesEntry (k : KernelState) (register : Word) (t : TaskId) (n : Fin fdTableCapacity) :
    Prop where
  running : k.current = some t
  low : toInt32 register = n.val
  used : ((k.task t).fdTable n).used ≠ 0

/-- Acting on entry `n`: it may be emptied, a free entry may become a copy of it, and
of the files its own may change. -/
structure EntryActed (k k' : Store) (table table' : FdTable) (n : Fin fdTableCapacity) : Prop where
  entry : table' n = table n ∨ table' n = .empty
  entries : ∀ i ≠ n, table' i = table i ∨
    (table i).used = 0 ∧ table' i = ⟨1, (table n).kind, (table n).file⟩
  files : ∀ f ≠ (table n).file, k'.file f = k.file f

/-- A call of task `t` acted on its entry `n` alone. -/
def ActedOn (k k' : KernelState) (t : TaskId) (n : Fin fdTableCapacity) : Prop :=
  ∃ table store, k' = k.withTable t table store ∧
    EntryActed k.store store (k.task t).fdTable table n

/-- The node of the path at `src`, in the running task's memory, supports the access. -/
def OpensNode (k : KernelState) (src : Word) (flags : BitVec 32) : Prop :=
  ∃ layout a path, schedCurrentUserContext k = some (layout, a) ∧
    (syscallCopyPath k.phys syscallPathSize src a layout).result = .ok (some path) ∧
    vfsWalkPath k.store path ≠ .null ∧ Openable k.store (vfsWalkPath k.store path) flags

section Buffer

variable {m : Mem} {a page last buffer count : Word}

lemma userRangeLoop_answers (m : Mem) (a last : Word) : ∀ (n : ℕ) (page : Word) (fuel : ℕ),
    page.toNat + 4096 * n = last.toNat → n < fuel → ∃ b, userRangeLoop m a last fuel page = .ok b
  | n, page, fuel + 1, hn, hf => by
    unfold userRangeLoop
    dsimp only
    split_ifs with hw hbits hlast
    · exact ⟨false, rfl⟩
    · exact ⟨false, rfl⟩
    · exact ⟨true, rfl⟩
    · cases n with
      | zero => exact absurd (BitVec.eq_of_toNat_eq hn) hlast
      | succ n =>
        have hnext : (page + 4096#64).toNat = page.toNat + 4096 := by
          have := last.isLt
          rw [BitVec.toNat_add, show (4096#64 : Word).toNat = 4096 from rfl]
          omega
        exact userRangeLoop_answers m a last n (page + 4096#64) fuel (by omega) (by omega)

lemma pagingUserRangeMapped_answers (m : Mem) (a buffer count : Word) :
    ∃ b, pagingUserRangeMapped m a buffer count = .ok b := by
  unfold pagingUserRangeMapped
  dsimp only
  split_ifs with ha hc hw
  · exact ⟨false, rfl⟩
  · exact ⟨true, rfl⟩
  · exact ⟨false, rfl⟩
  · rw [BitVec.lt_def, Nat.not_lt] at hw
    have hlast := (buffer + (count - 1#64)).isLt
    have hp₁ : (pageAddress buffer).toNat = buffer.toNat / 4096 * 4096 := toNat_alignDown buffer
    have hp₂ : (pageAddress (buffer + (count - 1#64))).toNat =
        (buffer + (count - 1#64)).toNat / 4096 * 4096 := toNat_alignDown _
    refine userRangeLoop_answers m a _ ((buffer + (count - 1#64)).toNat / 4096 - buffer.toNat / 4096)
      (pageAddress buffer) linkFuel ?_ ?_
    · have hle := Nat.div_le_div_right (c := 4096) hw
      omega
    · unfold linkFuel
      omega

lemma syscallUserBufferValid_answers (s : Phys) (a : Word) (layout : UserVirtualLayout)
    (buffer count : Word) : ∃ b, syscallUserBufferValid s a layout buffer count = .ok b := by
  unfold syscallUserBufferValid
  by_cases hvalid : ¬ syscallBufferValid buffer count
  · exact ⟨false, if_pos hvalid⟩
  rw [if_neg hvalid]
  by_cases hc : count = 0#64
  · exact ⟨true, if_pos hc⟩
  rw [if_neg hc]
  by_cases hlayout : ¬ syscallUserRangeInLayout layout buffer count
  · exact ⟨false, if_pos hlayout⟩
  rw [if_neg hlayout]
  exact pagingUserRangeMapped_answers _ _ _ _

end Buffer

section Files

variable {k k' : Store} {table table' : FdTable} {g : Word} {node : NodeRef} {r fd : Int}
  {n : Fin fdTableCapacity}

lemma kfree_file {p : Word} (h : k.kfree p = .ok k') : k'.file = k.file := by
  obtain ⟨heap, -, h⟩ := bind_eq_ok.mp h
  cases h
  rfl

lemma kfreeNode_file (h : k.kfreeNode node = .ok k') : k'.file = k.file := by
  cases node with
  | null =>
    cases h
    rfl
  | static n => cases h
  | allocated n => exact kfree_file h

lemma release_file {ops : VfsNodeOps} (h : ops.release k node = .ok (r, k')) : k'.file = k.file := by
  cases ops with
  | fdConsoleInput | fdConsoleOutput =>
    obtain ⟨k₁, h₁, h⟩ := bind_eq_ok.mp h
    obtain ⟨k₂, h₂, h⟩ := bind_eq_ok.mp h
    cases h
    rw [kfreeNode_file h₂, kfree_file h₁]
    rfl
  | consoleInput | consoleOutput | staticText | executable | directory =>
    cases h
    rfl

/-- Closing a file leaves the other files alone. -/
lemma vfsFileClose_others (h : vfsFileClose k g = .ok (r, k')) : ∀ f ≠ g, k'.file f = k.file f := by
  intro f hf
  unfold vfsFileClose at h
  by_cases hbad : g = 0#64 ∨ (k.file g).refs = 0 ∨ (k.file g).node = .null
  · rw [if_pos hbad] at h
    cases h
    rfl
  rw [if_neg hbad] at h
  dsimp only at h
  have hcount : (k.setFile g { k.file g with refs := (k.file g).refs - 1 }).file f = k.file f :=
    Store.setFile_ne _ hf
  generalize k.setFile g { k.file g with refs := (k.file g).refs - 1 } = k₁ at h hcount
  rw [← hcount]
  by_cases hrefs : (k₁.file g).refs ≠ 0
  · rw [if_pos hrefs] at h
    cases h
    rfl
  rw [if_neg hrefs] at h
  obtain ⟨k₂, hk₂, h⟩ := bind_eq_ok.mp h
  have hfree : k₂.file f = k₁.file f := by
    rw [kfree_file hk₂, Store.setFile_ne _ hf]
  rw [← hfree]
  generalize (k₁.file g).node = node at h
  by_cases hnode : ((k₂.record (.closed node)).node node).refs = 0
  · rw [if_pos hnode] at h
    cases h
    rfl
  rw [if_neg hnode] at h
  -- from here on only the node is touched
  split at h
  · split_ifs at h
    · rw [release_file h]
      rfl
    · cases h
      rfl
  · cases h
    rfl

lemma vfsFileRetain_others (h : vfsFileRetain k g = (r, k')) : ∀ f ≠ g, k'.file f = k.file f := by
  intro f hf
  unfold vfsFileRetain at h
  split_ifs at h
  · obtain ⟨-, rfl⟩ := Prod.mk.inj h
    rfl
  · obtain ⟨-, rfl⟩ := Prod.mk.inj h
    exact Store.setFile_ne _ hf

lemma EntryActed.moved (hfiles : ∀ f ≠ (table n).file, k'.file f = k.file f) :
    EntryActed k k' table table n :=
  ⟨.inl rfl, fun _ _ => .inl rfl, hfiles⟩

/-- An entry is installed where none was used, or nowhere. -/
lemma fdTableInstall_table (table : FdTable) (kind : FdKind) (g : Word) :
    (fdTableInstall table kind g).2 = table ∨ ∃ i, (table i).used = 0 ∧
      (fdTableInstall table kind g).2 = Function.update table i ⟨1, kind, g⟩ := by
  by_cases hbad : kind = .none ∨ g = 0#64
  · left
    unfold fdTableInstall
    rw [if_pos hbad]
  · push Not at hbad
    rcases fdTableInstall_spec table hbad.1 hbad.2 with ⟨hfull, -⟩ | ⟨i, hfree, hins⟩
    · exact .inl (by rw [hfull])
    · exact .inr ⟨i, hfree, by rw [hins]⟩

lemma fdIndex_named (hlow : fd = n.val) (hused : (table n).used ≠ 0) : fdIndex table fd = some n := by
  rw [hlow]
  exact fdIndex_val hused

lemma fdTableGet_named (hlow : fd = n.val) (hused : (table n).used ≠ 0) :
    fdTableGet table fd = some (table n) := by
  rw [fdTableGet, fdIndex_named hlow hused]
  rfl

lemma fdIndex_eq {i : Fin fdTableCapacity} (h : fdIndex table fd = some i) :
    (table i).used ≠ 0 ∧ fd = i.val := by
  refine ⟨fdIndex_used h, ?_⟩
  unfold fdIndex at h
  split_ifs at h with hrange hused
  obtain rfl := Option.some.inj h
  exact (Int.toNat_of_nonneg hrange.1).symm

/-- No used entry has that number. -/
lemma fdIndex_unnamed (h : ∀ n : Fin fdTableCapacity, fd = n.val → (table n).used = 0) :
    fdIndex table fd = none := by
  cases hidx : fdIndex table fd with
  | none => rfl
  | some i =>
    obtain ⟨hused, hval⟩ := fdIndex_eq hidx
    exact absurd (h i hval) hused

/-- A duplicate is a copy of the entry. -/
lemma fdTableDup_acted (hlow : fd = n.val) (hused : (table n).used ≠ 0)
    (h : fdTableDup k table fd = .ok (r, table', k')) : EntryActed k k' table table' n := by
  unfold fdTableDup at h
  rw [fdTableGet_named hlow hused] at h
  rcases hretain : vfsFileRetain k (table n).file with ⟨result, k₁⟩
  have hfiles := vfsFileRetain_others hretain
  dsimp only at h
  rw [hretain] at h
  dsimp only at h
  by_cases hresult : result ≠ 0
  · rw [if_pos hresult] at h
    cases h
    exact .moved hfiles
  rw [if_neg hresult] at h
  have hinstalled := fdTableInstall_table table (table n).kind (table n).file
  rcases hins : fdTableInstall table (table n).kind (table n).file with ⟨duplicate, table₁⟩
  rw [hins] at h hinstalled
  -- the copy goes to a free entry, so not to the entry itself
  have hcopied (k₂ : Store) (hfiles₂ : ∀ f ≠ (table n).file, k₂.file f = k.file f) :
      EntryActed k k₂ table table₁ n := by
    rcases hinstalled with rfl | ⟨i, hfree, rfl⟩
    · exact .moved hfiles₂
    have hin : n ≠ i := by
      rintro rfl
      exact hused hfree
    refine ⟨.inl (Function.update_of_ne hin _ _), fun j _ => ?_, hfiles₂⟩
    by_cases hj : j = i
    · rw [hj]
      exact .inr ⟨hfree, Function.update_self i _ table⟩
    · exact .inl (Function.update_of_ne hj _ _)
  dsimp only at h
  split_ifs at h
  · obtain ⟨⟨result₂, k₂⟩, hclose, h⟩ := bind_eq_ok.mp h
    cases h
    exact hcopied _ fun f hf => (vfsFileClose_others hclose f hf).trans (hfiles f hf)
  · cases h
    exact hcopied _ hfiles

lemma fdTableClose_acted (hlow : fd = n.val) (hused : (table n).used ≠ 0)
    (h : fdTableClose k table fd = .ok (r, table', k')) : EntryActed k k' table table' n := by
  unfold fdTableClose at h
  rw [fdIndex_named hlow hused] at h
  obtain ⟨⟨result, k₁⟩, hclose, h⟩ := bind_eq_ok.mp h
  cases h
  exact ⟨.inr (Function.update_self n _ table), fun i hi => .inl (Function.update_of_ne hi _ _),
    vfsFileClose_others hclose⟩

lemma fdTableRead_acted {buffer count : Word} (hlow : fd = n.val) (hused : (table n).used ≠ 0)
    (h : (fdTableRead k table fd buffer count).result = .ok (r, k')) : EntryActed k k' table table n := by
  unfold fdTableRead at h
  rw [fdTableGet_named hlow hused] at h
  exact .moved (vfsFileRead_moved h).others

lemma fdTableWrite_acted {buffer count : Word} (hlow : fd = n.val) (hused : (table n).used ≠ 0)
    (h : (fdTableWrite k table fd buffer count).result = .ok (r, k')) :
    EntryActed k k' table table n := by
  unfold fdTableWrite at h
  rw [fdTableGet_named hlow hused] at h
  exact .moved (vfsFileWrite_moved h).others

end Files

section Calls

variable {b : Build} {k k' : KernelState} {t : TaskId} {n : Fin fdTableCapacity}
  {reusable : Word × Word} {rsp rsp' a : Word} {frame frame' : SyscallFrame} {layout : UserVirtualLayout}
  {access : FdTable → UserAccess (Int × Store)} {valid : Run Bool} {path : List Byte} {flags : BitVec 32}

lemma ActedOn.refl (k : KernelState) (t : TaskId) (n : Fin fdTableCapacity) : ActedOn k k t n :=
  ⟨(k.task t).fdTable, k.store, by rw [withTable_same]; rfl, .moved fun _ _ => rfl⟩

/-- What reading and writing do before they use the descriptor. -/
lemma syscallBuffer_acted (ht : k.current = some t)
    (hacted : ∀ r store, (access (k.task t).fdTable).result = .ok (r, store) →
      EntryActed k.store store (k.task t).fdTable (k.task t).fdTable n)
    (h : (do
      let valid ← UserAccess.lift valid
      match schedCurrentFdTable k with
      | none => pure (rsp, syscallReturn frame sysResultError, k)
      | some fdTable =>
        if ¬ valid then pure (rsp, syscallReturn frame sysResultError, k)
        else
          let (result, store) ← access fdTable
          pure (rsp, syscallReturn frame (syscallResult result), k.setStore store) :
        UserAccess SyscallOutcome).result = .ok (rsp', frame', k')) : ActedOn k k' t n := by
  obtain ⟨valid, -, h⟩ := UserAccess.bind_ok h
  rw [schedCurrentFdTable_current ht] at h
  dsimp only at h
  by_cases hv : ¬ valid = true
  · rw [if_pos hv] at h
    cases h
    exact .refl k t n
  · rw [if_neg hv] at h
    obtain ⟨⟨r, store⟩, haccess, h⟩ := UserAccess.bind_ok h
    cases h
    exact ⟨_, store, (withTable_same k t store).symm, hacted r store haccess⟩

lemma syscallBuffer_refused (hvalid : ∃ v, valid = .ok v)
    (hnone : ∀ t, k.current = some t → access (k.task t).fdTable = pure (-1, k.store)) :
    (do
      let valid ← UserAccess.lift valid
      match schedCurrentFdTable k with
      | none => pure (rsp, syscallReturn frame sysResultError, k)
      | some fdTable =>
        if ¬ valid then pure (rsp, syscallReturn frame sysResultError, k)
        else
          let (result, store) ← access fdTable
          pure (rsp, syscallReturn frame (syscallResult result), k.setStore store) :
        UserAccess SyscallOutcome).result = .ok (rsp, syscallReturn frame sysResultError, k) := by
  obtain ⟨v, rfl⟩ := hvalid
  rw [UserAccess.lift_bind_ok]
  cases hcur : k.current with
  | none =>
    have hno : schedCurrentFdTable k = none := by
      rw [schedCurrentFdTable, hcur]
      rfl
    rw [hno]
    rfl
  | some t =>
    rw [schedCurrentFdTable_current hcur]
    dsimp only
    by_cases hv : ¬ v = true
    · rw [if_pos hv]
      rfl
    · rw [if_neg hv, hnone t hcur]
      rfl

/-- The calls that need no user context. -/
lemma syscallPlain_acted (hn : NamesEntry k frame.rdi t n) (hrax : frame.rax = sysClose ∨ frame.rax = sysDup)
    (h : syscallPlain k rsp frame reusable = .ok (rsp', frame', k')) : ActedOn k k' t n := by
  unfold syscallPlain at h
  rcases hrax with hrax | hrax <;> rw [hrax, schedCurrentFdTable_current hn.running] at h
  · rw [if_neg (by decide), if_neg (by decide), if_neg (by decide), if_neg (by decide)] at h
    dsimp only at h
    rw [if_pos rfl] at h
    obtain ⟨⟨r, table, store⟩, hclose, h⟩ := bind_eq_ok.mp h
    cases h
    exact ⟨table, store, setFdTable_current hn.running table store, fdTableClose_acted hn.low hn.used hclose⟩
  · rw [if_neg (by decide), if_neg (by decide), if_neg (by decide), if_neg (by decide)] at h
    dsimp only at h
    rw [if_neg (by decide), if_pos rfl] at h
    obtain ⟨⟨r, table, store⟩, hdup, h⟩ := bind_eq_ok.mp h
    cases h
    exact ⟨table, store, setFdTable_current hn.running table store, fdTableDup_acted hn.low hn.used hdup⟩

lemma syscallPlain_refused (hrax : frame.rax = sysClose ∨ frame.rax = sysDup)
    (hnone : ∀ t, k.current = some t → fdIndex (k.task t).fdTable (toInt32 frame.rdi) = none) :
    syscallPlain k rsp frame reusable = .ok (rsp, syscallReturn frame sysResultError, k) := by
  unfold syscallPlain
  cases hcur : k.current with
  | none =>
    have hno : schedCurrentFdTable k = none := by
      rw [schedCurrentFdTable, hcur]
      rfl
    rcases hrax with hrax | hrax <;> rw [hrax, hno] <;> rfl
  | some t =>
    have hsame : (k.setStore k.store).setFdTable (k.task t).fdTable = k := by
      rw [setFdTable_current hcur, withTable_same]
      rfl
    rw [schedCurrentFdTable_current hcur]
    rcases hrax with hrax | hrax
    · have hclose : fdTableClose k.store (k.task t).fdTable (toInt32 frame.rdi) =
          .ok (-1, (k.task t).fdTable, k.store) := by
        rw [fdTableClose, hnone t hcur]
      rw [hrax, if_neg (by decide), if_neg (by decide), if_neg (by decide), if_neg (by decide)]
      dsimp only
      rw [if_pos rfl, hclose, ok_bind]
      dsimp only
      rw [hsame]
      rfl
    · have hdup : fdTableDup k.store (k.task t).fdTable (toInt32 frame.rdi) =
          .ok (-1, (k.task t).fdTable, k.store) := by
        rw [fdTableDup, fdTableGet, hnone t hcur]
        rfl
      rw [hrax, if_neg (by decide), if_neg (by decide), if_neg (by decide), if_neg (by decide)]
      dsimp only
      rw [if_neg (by decide), if_pos rfl, hdup, ok_bind]
      dsimp only
      rw [hsame]
      rfl

lemma vfsOpenFlagsValid_iff : vfsOpenFlagsValid flags = true ↔ flags = 1 ∨ flags = 2 ∨ flags = 3 := by
  unfold vfsOpenFlagsValid
  rw [Bool.or_eq_true, Bool.or_eq_true, decide_eq_true_eq, decide_eq_true_eq, decide_eq_true_eq, or_assoc,
    show vfsAccessRead ||| vfsAccessWrite = 3 from rfl]
  rfl

lemma syscallOpenPath_openable {table : FdTable} {r : Int}
    (h : syscallOpenPath k table path flags = .ok (r, k')) (hr : r ≠ -1) :
    vfsWalkPath k.store path ≠ .null ∧ Openable k.store (vfsWalkPath k.store path) flags := by
  by_contra hno
  have hrefused : vfsOpenPath k.store path flags = .ok (0#64, k.store) := by
    unfold vfsOpenPath
    dsimp only
    by_cases hnull : vfsWalkPath k.store path = .null
    · rw [if_pos hnull]
    · rw [if_neg hnull]
      exact vfsFileOpen_refused fun hopen => hno ⟨hnull, hopen⟩
  unfold syscallOpenPath at h
  rw [hrefused, ok_bind] at h
  cases h
  exact hr rfl

lemma syscallOpen_opens (hctx : schedCurrentUserContext k = some (layout, a))
    (h : (syscallOpen k rsp frame a layout).result = .ok (rsp', frame', k'))
    (hok : frame'.rax ≠ sysResultError) : OpensNode k frame.rdi (frame.rsi.setWidth 32) := by
  unfold syscallOpen at h
  cases htable : schedCurrentFdTable k with
  | none =>
    rw [htable] at h
    cases h
    exact absurd rfl hok
  | some table =>
    rw [htable] at h
    obtain ⟨path, hpath, h⟩ := UserAccess.bind_ok h
    cases path with
    | none =>
      cases h
      exact absurd rfl hok
    | some path =>
      obtain ⟨⟨r, k₁⟩, hopen, h⟩ := UserAccess.bind_ok h
      cases h
      refine ⟨layout, a, path, hctx, hpath, syscallOpenPath_openable hopen ?_⟩
      rintro rfl
      exact hok rfl

lemma not_namesEntry (h : ∀ t n, ¬ NamesEntry k frame.rdi t n) (ht : k.current = some t) :
    fdIndex (k.task t).fdTable (toInt32 frame.rdi) = none :=
  fdIndex_unnamed fun n hlow => by
    by_contra hused
    exact h t n ⟨ht, hlow, hused⟩

lemma fdArgumentCalls_cases (hrax : frame.rax ∈ fdArgumentCalls) :
    frame.rax = sysRead ∨ frame.rax = sysWrite ∨
      (frame.rax = sysClose ∨ frame.rax = sysDup) ∧
        ¬ (frame.rax = sysRead ∨ frame.rax = sysWrite ∨ frame.rax = sysOpen ∨ frame.rax = sysExec) := by
  simp only [fdArgumentCalls, List.mem_cons, List.not_mem_nil, or_false] at hrax
  rcases hrax with hrax | hrax | hrax | hrax
  · exact .inl hrax
  · exact .inr (.inl hrax)
  · exact .inr (.inr ⟨.inl hrax, by rw [hrax]; decide⟩)
  · exact .inr (.inr ⟨.inr hrax, by rw [hrax]; decide⟩)

lemma kernelSyscallEntry_acted (hrax : frame.rax ∈ fdArgumentCalls) (hn : NamesEntry k frame.rdi t n)
    (h : (kernelSyscallEntry b k rsp frame reusable).result = .ok (rsp', frame', k')) :
    ActedOn k k' t n := by
  unfold kernelSyscallEntry at h
  rcases fdArgumentCalls_cases hrax with hread | hwrite | ⟨hplain, hno⟩
  · rw [if_pos (.inl hread)] at h
    cases hctx : schedCurrentUserContext k with
    | none =>
      rw [hctx] at h
      cases h
      exact .refl k t n
    | some ctx =>
      rw [hctx] at h
      dsimp only at h
      rw [if_pos hread] at h
      exact syscallBuffer_acted hn.running (fun _ _ => fdTableRead_acted hn.low hn.used) h
  · rw [if_pos (.inr (.inl hwrite))] at h
    cases hctx : schedCurrentUserContext k with
    | none =>
      rw [hctx] at h
      cases h
      exact .refl k t n
    | some ctx =>
      rw [hctx] at h
      dsimp only at h
      rw [if_neg (by rw [hwrite]; decide), if_pos hwrite] at h
      exact syscallBuffer_acted hn.running (fun _ _ => fdTableWrite_acted hn.low hn.used) h
  · rw [if_neg hno] at h
    exact syscallPlain_acted hn hplain h

lemma kernelSyscallEntry_refused (hrax : frame.rax ∈ fdArgumentCalls)
    (hno : ∀ t n, ¬ NamesEntry k frame.rdi t n) :
    (kernelSyscallEntry b k rsp frame reusable).result =
      .ok (rsp, syscallReturn frame sysResultError, k) := by
  have hidx (t : TaskId) (ht : k.current = some t) := not_namesEntry hno ht
  unfold kernelSyscallEntry
  rcases fdArgumentCalls_cases hrax with hread | hwrite | ⟨hplain, hother⟩
  · rw [if_pos (.inl hread)]
    cases hctx : schedCurrentUserContext k with
    | none => rfl
    | some ctx =>
      dsimp only
      rw [if_pos hread]
      exact syscallBuffer_refused (syscallUserBufferValid_answers _ _ _ _ _) fun t ht => by
        rw [fdTableRead, fdTableGet, hidx t ht]
        rfl
  · rw [if_pos (.inr (.inl hwrite))]
    cases hctx : schedCurrentUserContext k with
    | none => rfl
    | some ctx =>
      dsimp only
      rw [if_neg (by rw [hwrite]; decide), if_pos hwrite]
      exact syscallBuffer_refused (syscallUserBufferValid_answers _ _ _ _ _) fun t ht => by
        rw [fdTableWrite, fdTableGet, hidx t ht]
        rfl
  · rw [if_neg hother, syscallPlain_refused hplain hidx]
    rfl

lemma kernelSyscallEntry_opens (hrax : frame.rax = sysOpen)
    (h : (kernelSyscallEntry b k rsp frame reusable).result = .ok (rsp', frame', k'))
    (hok : frame'.rax ≠ sysResultError) : OpensNode k frame.rdi (frame.rsi.setWidth 32) := by
  unfold kernelSyscallEntry at h
  rw [if_pos (.inr (.inr (.inl hrax)))] at h
  cases hctx : schedCurrentUserContext k with
  | none =>
    rw [hctx] at h
    cases h
    exact absurd rfl hok
  | some ctx =>
    rw [hctx] at h
    dsimp only at h
    rw [if_neg (by rw [hrax]; decide), if_neg (by rw [hrax]; decide), if_pos hrax] at h
    exact syscallOpen_opens hctx h hok

/-- Of its registers a call checks the low half: it acts on the entry of that number, and
when there is none it fails and changes nothing. So it is with the flags of `SYS_OPEN`. -/
theorem kernelSyscallEntry_low_half (b : Build) (k : KernelState) (rsp : Word) (frame : SyscallFrame)
    (reusable : Word × Word) :
    (frame.rax ∈ fdArgumentCalls →
      (∀ t n, NamesEntry k frame.rdi t n → ∀ rsp' frame' k',
        (kernelSyscallEntry b k rsp frame reusable).result = .ok (rsp', frame', k') → ActedOn k k' t n) ∧
      ((∀ t n, ¬ NamesEntry k frame.rdi t n) → (kernelSyscallEntry b k rsp frame reusable).result =
        .ok (rsp, syscallReturn frame sysResultError, k))) ∧
    (frame.rax = sysOpen → ∀ rsp' frame' k',
      (kernelSyscallEntry b k rsp frame reusable).result = .ok (rsp', frame', k') →
      frame'.rax ≠ sysResultError →
      (frame.rsi.setWidth 32 = 1#32 ∨ frame.rsi.setWidth 32 = 2#32 ∨ frame.rsi.setWidth 32 = 3#32) ∧
        OpensNode k frame.rdi (frame.rsi.setWidth 32)) := by
  refine ⟨fun hrax => ⟨fun t n hn rsp' frame' k' => kernelSyscallEntry_acted hrax hn,
    kernelSyscallEntry_refused hrax⟩, fun hrax rsp' frame' k' hrun hok => ?_⟩
  obtain ⟨layout, a, path, hctx, hpath, hnode, hopen⟩ := kernelSyscallEntry_opens hrax hrun hok
  exact ⟨vfsOpenFlagsValid_iff.mp hopen.2.1, layout, a, path, hctx, hpath, hnode, hopen⟩

end Calls

/-- Tables for the sample program's address space, and `/etc/banner` in its image. -/
def bannerMem (m : Mem) : Mem :=
  let tables := store64 (store64 (store64 (store64 m 0x02200000 0x02201007#64)
    0x02201008 0x02202007#64) 0x02202000 0x02203007#64) 0x02203008 0x02100007#64
  store64 (store64 tables 0x02100000 0x6E61622F6374652F#64) 0x02100008 0x0072656E#64

/-- A kernel about to start that program. -/
def bannerKernel : Run KernelState := do
  let store ← vfsNamespaceInitialize
    { smallStore with phys := { smallStore.phys with mem := bannerMem smallStore.phys.mem } } sampleRegistry
  .ok { smallKernel with store := store, userTaskEnabled := true, userTaskBootstrap := sampleBootstrap }

def openBannerFrame : SyscallFrame := ⟨sysOpen, 0x40001000#64, 0x100000001#64, 0#64⟩

def closeBannerFrame : SyscallFrame := ⟨sysClose, 0x100000003#64, 0#64, 0#64⟩

/-- The user task opens the file and closes it again: the results and whether descriptor 3
was in use after each call. -/
def bannerRun : Run (Word × BitVec 32 × Word × BitVec 32) := do
  let k₀ ← bannerKernel
  let k₁ ← schedInitialize k₀ 0x00100000#64 0x00100100#64
  let (rsp, k) ← schedTick k₁ 0x00200000#64
  let (rsp, opened, k) ← (kernelSyscallEntry ⟨0x00100000#64, false⟩ k rsp openBannerFrame (0#64, 0#64)).result
  let (_, closed, k') ←
    (kernelSyscallEntry ⟨0x00100000#64, false⟩ k rsp closeBannerFrame (0#64, 0#64)).result
  .ok (opened.rax, ((k.task .task1).fdTable 3).used, closed.rax, ((k'.task .task1).fdTable 3).used)

lemma bannerRun_ok : bannerRun = .ok (3#64, 1, sysResultOk, 0) := by
  decide +kernel

/-- Flags of `2 ^ 32 + 1` open a file, and closing `2 ^ 32 + 3` closes descriptor 3. -/
theorem kernelSyscallEntry_high_half : ∃ k₀ k₁ k k' k'' rsp rsp' rsp'' opened closed,
    bannerKernel = .ok k₀ ∧ schedInitialize k₀ 0x00100000#64 0x00100100#64 = .ok k₁ ∧
    schedTick k₁ 0x00200000#64 = .ok (rsp, k) ∧
    (kernelSyscallEntry ⟨0x00100000#64, false⟩ k rsp openBannerFrame (0#64, 0#64)).result =
      .ok (rsp', opened, k') ∧ opened.rax = 3#64 ∧ ((k'.task .task1).fdTable 3).used = 1 ∧
    (kernelSyscallEntry ⟨0x00100000#64, false⟩ k' rsp' closeBannerFrame (0#64, 0#64)).result =
      .ok (rsp'', closed, k'') ∧ closed.rax = sysResultOk ∧ ((k''.task .task1).fdTable 3).used = 0 := by
  have hrun := bannerRun_ok
  obtain ⟨k₀, hkernel, hrun⟩ := bind_eq_ok.mp hrun
  obtain ⟨k₁, hinit, hrun⟩ := bind_eq_ok.mp hrun
  obtain ⟨⟨rsp, k⟩, htick, hrun⟩ := bind_eq_ok.mp hrun
  obtain ⟨⟨rsp', opened, k'⟩, hopen, hrun⟩ := bind_eq_ok.mp hrun
  obtain ⟨⟨rsp'', closed, k''⟩, hclose, hrun⟩ := bind_eq_ok.mp hrun
  simp only [Except.ok.injEq, Prod.mk.injEq] at hrun
  obtain ⟨hopened, hused, hclosed, hfree⟩ := hrun
  exact ⟨k₀, k₁, k, k', k'', rsp, rsp', rsp'', opened, closed, hkernel, hinit, htick, hopen, hopened, hused,
    hclose, hclosed, hfree⟩

end Platinum
