import Platinum.ExecStages

/-!
# The pages user mode reaches

A program and the calls that copy into its buffers write through the loaded
address space. As long as what it leads to are no page tables, they write to those
pages and to nothing else, and none of these accesses faults.
-/
namespace Platinum
open ByteMemory WordArith SharedTrie

/-- User mode reaches the address, on one of the pages `P`. -/
def OpenOn (P : Set Word) (m : Mem) (a y : Word) : Prop :=
  ∃ t, mmuWalk m a y = some t ∧ t.user = true ∧ t.frame ∈ P

/-- The space `a` has no table on the pages `P`. -/
def KeepsWalks (P : Set Word) (m : Mem) (a : Word) : Prop :=
  ∀ m', ChangesOnly P m m' → ∀ v, mmuWalk m' a v = mmuWalk m a v

/-- Whatever user mode reaches in the space `a` is on the pages `P`, and what is written
there changes no translation. -/
structure UserWindow (P : Set Word) (m : Mem) (a : Word) : Prop where
  aligned : ∀ p ∈ P, p.toNat % 4096 = 0
  reach : ∀ v t, mmuWalk m a v = some t → t.user = true → t.frame ∈ P
  stable : KeepsWalks P m a

/-- Only memory differs, and only on the pages `P`. -/
def WritesOnly (P : Set Word) (s s' : Phys) : Prop := ∃ m, s' = { s with mem := m } ∧ ChangesOnly P s.mem m

section Window

variable {P : Set Word} {m m' : Mem} {a buffer count y file : Word} {s s' s'' : Phys} {k : Store}

lemma KeepsWalks.written (h : KeepsWalks P m a) (hm : ChangesOnly P m m') : KeepsWalks P m' a :=
  fun m'' hm' v => (h m'' (hm.trans hm') v).trans (h m' hm v).symm

lemma KeepsWalks.mono {Q : Set Word} (h : KeepsWalks P m a) (hQ : ∀ q ∈ Q, q ∈ P) : KeepsWalks Q m a :=
  fun m' hm => h m' (hm.mono hQ)

lemma KeepsWalks.openOn_iff (h : KeepsWalks P m a) (hm : ChangesOnly P m m') (v : Word) :
    OpenOn P m' a v ↔ OpenOn P m a v := by
  unfold OpenOn
  rw [h m' hm v]

lemma WritesOnly.refl (P : Set Word) (s : Phys) : WritesOnly P s s := ⟨s.mem, rfl, .refl _ _⟩

lemma WritesOnly.trans (h : WritesOnly P s s') (h' : WritesOnly P s' s'') : WritesOnly P s s'' := by
  obtain ⟨m, rfl, hm⟩ := h
  obtain ⟨m', rfl, hm'⟩ := h'
  exact ⟨m', rfl, hm.trans hm'⟩

/-- The byte of an address on a frame. -/
lemma onPage_frame (p v : Word) : OnPage p (p.toNat + v.toNat % 4096) := by
  have := Nat.mod_lt v.toNat (show 0 < 4096 by omega)
  exact ⟨by omega, by omega⟩

/-- A store that user mode could make itself does not fault and stays on its pages. -/
lemma userStore_window (hy : OpenOn P s.mem s.cr3 y) (value : Byte) :
    ∃ s', (userStore s y value).result = .ok s' ∧ WritesOnly P s s' := by
  obtain ⟨t, ht, -, hframe⟩ := hy
  have htr : translate s y = some (t.frame.toNat + y.toNat % 4096) := by
    unfold translate
    rw [ht]
    rfl
  refine ⟨{ s with mem := store8 s.mem (t.frame.toNat + y.toNat % 4096) value }, ?_, _, rfl, ?_⟩
  · unfold userStore
    rw [htr]
  · intro x hx
    unfold store8
    rw [if_neg]
    rintro rfl
    exact hx _ hframe (onPage_frame _ y)

lemma userLoad_window (hy : UserOpen s.mem s.cr3 y) : ∃ b, (userLoad s y).result = .ok b := by
  obtain ⟨t, ht, -⟩ := hy
  refine ⟨s.mem (t.frame.toNat + y.toNat % 4096), ?_⟩
  unfold userLoad translate
  rw [ht]
  rfl

lemma userStoreBytes_window (bytes : List Byte) (h : KeepsWalks P s.mem s.cr3)
    (hy : ∀ i < bytes.length, OpenOn P s.mem s.cr3 (buffer + BitVec.ofNat 64 i)) :
    ∃ s', (userStoreBytes s buffer bytes).result = .ok s' ∧ WritesOnly P s s' := by
  induction bytes generalizing s buffer with
  | nil => exact ⟨s, rfl, .refl P s⟩
  | cons value bytes ih =>
    have hfirst : OpenOn P s.mem s.cr3 buffer := by simpa using hy 0 (by simp)
    obtain ⟨s₁, hrun₁, m, rfl, hm⟩ := userStore_window hfirst value
    have hrest : ∀ i < bytes.length, OpenOn P m s.cr3 (buffer + 1#64 + BitVec.ofNat 64 i) := by
      intro i hi
      rw [h.openOn_iff hm, buffer_succ]
      exact hy (i + 1) (by simpa using hi)
    obtain ⟨s', hrun, hw⟩ := ih (s := { s with mem := m }) (h.written hm) hrest
    refine ⟨s', ?_, WritesOnly.trans ⟨m, rfl, hm⟩ hw⟩
    unfold userStoreBytes
    rw [UserAccess.result_bind hrun₁, hrun]

lemma userLoadBytes_window (n : ℕ) (hy : ∀ i < n, UserOpen s.mem s.cr3 (buffer + BitVec.ofNat 64 i)) :
    ∃ bytes, (userLoadBytes s buffer n).result = .ok bytes := by
  induction n generalizing buffer with
  | zero => exact ⟨[], rfl⟩
  | succ n ih =>
    have hfirst : UserOpen s.mem s.cr3 buffer := by simpa using hy 0 (by omega)
    obtain ⟨b, hb⟩ := userLoad_window hfirst
    obtain ⟨rest, hrest⟩ := @ih (buffer + 1#64) fun i hi => by
      rw [buffer_succ]
      exact hy (i + 1) (by omega)
    refine ⟨b :: rest, ?_⟩
    unfold userLoadBytes
    rw [UserAccess.result_bind hb, UserAccess.result_bind hrest]
    rfl

/-- A call that answers and writes nowhere but on the pages `P`. -/
def AnswersOn (P : Set Word) (s : Phys) (x : UserAccess (Int × Store)) : Prop :=
  ∃ r k', x.result = .ok (r, k') ∧ WritesOnly P s k'.phys

lemma AnswersOn.same (P : Set Word) (k : Store) (r : Int) : AnswersOn P k.phys (pure (r, k)) :=
  ⟨r, k, rfl, .refl P _⟩

lemma serialWriteUser_window (hy : ∀ y, InBuffer buffer count y → UserOpen k.phys.mem k.phys.cr3 y) :
    ∃ bytes, (serialWriteUser k buffer count).result = .ok (k.serialWrite bytes) := by
  have hopen : ∀ i < count.toNat, UserOpen k.phys.mem k.phys.cr3 (buffer + BitVec.ofNat 64 i) :=
    fun i hi => hy _ ⟨i, hi, rfl⟩
  obtain ⟨bytes, hbytes⟩ := userLoadBytes_window count.toNat hopen
  refine ⟨bytes, ?_⟩
  unfold serialWriteUser
  rw [UserAccess.result_bind hbytes]
  rfl

/-- Reading into a buffer of the program. -/
lemma VfsNodeOps.read_window (ops : VfsNodeOps) (h : KeepsWalks P k.phys.mem k.phys.cr3)
    (hy : ∀ y, InBuffer buffer count y → OpenOn P k.phys.mem k.phys.cr3 y) :
    AnswersOn P k.phys (ops.read k file buffer count) := by
  have hfirst (hc : count ≠ 0#64) : OpenOn P k.phys.mem k.phys.cr3 buffer := by
    refine hy buffer ⟨0, Nat.pos_of_ne_zero fun h0 => hc (BitVec.eq_of_toNat_eq h0), by simp⟩
  cases ops with
  | fdConsoleInput =>
    change AnswersOn P k.phys (fdConsoleInputRead k file buffer count)
    unfold fdConsoleInputRead
    dsimp only
    split_ifs with h₁ h₂ hc
    · exact .same P k _
    · exact .same P k _
    · exact .same P k _
    · exact .same P k _
    · obtain ⟨s', hs', hw⟩ := userStore_window (hfirst hc)
        (k.fdConsoleInput (k.node (k.file file).node).data.address).byte
      refine ⟨_, _, UserAccess.result_bind hs', ?_⟩
      exact hw
  | consoleInput =>
    change AnswersOn P k.phys (vfsConsoleInputRead k file buffer count)
    unfold vfsConsoleInputRead
    dsimp only
    split_ifs with hc
    · exact .same P k _
    · exact .same P k _
    · obtain ⟨s', hs', hw⟩ := userStore_window (hfirst hc) k.namespaceConsoleInputData.byte
      refine ⟨_, _, UserAccess.result_bind hs', ?_⟩
      exact hw
  | staticText =>
    change AnswersOn P k.phys (vfsStaticTextRead k file buffer count)
    unfold vfsStaticTextRead
    dsimp only
    by_cases hc : count = 0#64
    · rw [if_pos hc]
      exact .same P k _
    by_cases hend : (k.node (k.file file).node).data.asStaticText.length ≤ (k.file file).offset
    · rw [if_neg hc, if_pos hend]
      exact .same P k _
    rw [if_neg hc, if_neg hend]
    generalize hn : (if (k.node (k.file file).node).data.asStaticText.length - (k.file file).offset < count then
      (k.node (k.file file).node).data.asStaticText.length - (k.file file).offset else count) = n
    have hle : n.toNat ≤ count.toNat := by
      rw [← hn]
      split_ifs with hlt
      · exact Nat.le_of_lt hlt
      · exact Nat.le_refl _
    generalize hbytes : (List.range n.toNat).map (fun index =>
      (k.node (k.file file).node).data.asStaticText.text ((k.file file).offset.toNat + index)) = bytes
    have hopen : ∀ i < bytes.length, OpenOn P k.phys.mem k.phys.cr3 (buffer + BitVec.ofNat 64 i) := by
      intro i hi
      rw [← hbytes, List.length_map, List.length_range] at hi
      exact hy _ ⟨i, by omega, rfl⟩
    obtain ⟨s', hs', hw⟩ := userStoreBytes_window bytes h hopen
    refine ⟨_, _, UserAccess.result_bind hs', ?_⟩
    exact hw
  | fdConsoleOutput | consoleOutput | executable | directory => exact .same P k _

/-- Writing out of a buffer of the program. -/
lemma VfsNodeOps.write_window (ops : VfsNodeOps)
    (hy : ∀ y, InBuffer buffer count y → UserOpen k.phys.mem k.phys.cr3 y) :
    AnswersOn ∅ k.phys (ops.write k file buffer count) := by
  obtain ⟨bytes, hbytes⟩ := serialWriteUser_window hy
  cases ops with
  | fdConsoleOutput =>
    change AnswersOn ∅ k.phys (fdConsoleOutputWrite k file buffer count)
    unfold fdConsoleOutputWrite
    dsimp only
    split_ifs with h₁ h₂ hc
    · exact .same ∅ k _
    · exact .same ∅ k _
    · exact ⟨_, _, UserAccess.result_bind hbytes, .refl ∅ _⟩
    · exact ⟨_, _, rfl, .refl ∅ _⟩
  | consoleOutput =>
    change AnswersOn ∅ k.phys (vfsConsoleOutputWrite k file buffer count)
    unfold vfsConsoleOutputWrite
    split_ifs with h₂ hc
    · exact .same ∅ k _
    · exact ⟨_, _, UserAccess.result_bind hbytes, .refl ∅ _⟩
    · exact ⟨_, _, rfl, .refl ∅ _⟩
  | fdConsoleInput | consoleInput | staticText | executable | directory => exact .same ∅ k _

lemma vfsFileRead_window (h : KeepsWalks P k.phys.mem k.phys.cr3)
    (hy : ∀ y, InBuffer buffer count y → OpenOn P k.phys.mem k.phys.cr3 y) :
    AnswersOn P k.phys (vfsFileRead k file buffer count) := by
  unfold vfsFileRead
  by_cases h₀ : file = 0#64 ∨ (k.file file).node = .null
  · rw [if_pos h₀]
    exact .same P k _
  rw [if_neg h₀]
  cases (k.node (k.file file).node).ops with
  | none => exact .same P k _
  | some ops =>
    dsimp only
    split_ifs
    · exact .same P k _
    · exact ops.read_window h hy
    · exact .same P k _

lemma vfsFileWrite_window (hy : ∀ y, InBuffer buffer count y → UserOpen k.phys.mem k.phys.cr3 y) :
    AnswersOn ∅ k.phys (vfsFileWrite k file buffer count) := by
  unfold vfsFileWrite
  by_cases h₀ : file = 0#64 ∨ (k.file file).node = .null
  · rw [if_pos h₀]
    exact .same ∅ k _
  rw [if_neg h₀]
  cases (k.node (k.file file).node).ops with
  | none => exact .same ∅ k _
  | some ops =>
    dsimp only
    split_ifs
    · exact .same ∅ k _
    · exact ops.write_window hy
    · exact .same ∅ k _

lemma fdTableRead_window (h : KeepsWalks P k.phys.mem k.phys.cr3) (table : FdTable) (fd : Int)
    (hy : ∀ y, InBuffer buffer count y → OpenOn P k.phys.mem k.phys.cr3 y) :
    AnswersOn P k.phys (fdTableRead k table fd buffer count) := by
  unfold fdTableRead
  split
  · exact .same P k _
  · exact vfsFileRead_window h hy

lemma fdTableWrite_window (table : FdTable) (fd : Int)
    (hy : ∀ y, InBuffer buffer count y → UserOpen k.phys.mem k.phys.cr3 y) :
    AnswersOn ∅ k.phys (fdTableWrite k table fd buffer count) := by
  unfold fdTableWrite
  split
  · exact .same ∅ k _
  · exact vfsFileWrite_window hy

end Window

end Platinum
