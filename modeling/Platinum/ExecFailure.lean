import Platinum.ExecRelease

/-!
# What a failed exec leaves

The new image is written to the window that the caller may be running from. The
caller goes on with whatever is there when exec gives up.
-/
namespace Platinum
open ByteMemory SharedTrie

/-- The image gets as far as the window; the pages `spare` are left for the tables
and the stack. -/
def Loads (caller : UserTaskBootstrap) (image : Mem) (imageSize : Word) (l : List Word) (plan : ElfPlan)
    (spare : List Word) : Prop :=
  execPlan image imageSize = some plan ∧ ∃ a l₁, l = a :: l₁ ∧
    (∀ p ∈ plan.claimed caller.imagePhysicalBegin caller.imagePhysicalEnd, p ∈ l₁) ∧
    spare = l₁.diff (plan.claimed caller.imagePhysicalBegin caller.imagePhysicalEnd)

/-- The byte at offset `i` of the window page `p` once exec gave up: what was loaded,
or the link of the freed page if there was a page for the stack. -/
def leftByte (image : Mem) (plan : ElfPlan) (stackPage : Option Word) (p : Word) (i : ℕ) : Byte :=
  match stackPage with
  | some stackPage =>
    if i < 8 then byteOf (if p = elfUserLoadBase then stackPage else p - 4096#64) i
    else loadedByte image plan.phdrs (plan.vaddrBegin.toNat + (p.toNat - 0x02100000 + i))
  | none => loadedByte image plan.phdrs (plan.vaddrBegin.toNat + (p.toNat - 0x02100000 + i))

/-- Every page that the caller shares with an image that gets as far as the window
already holds what exec leaves there. -/
def KeepsImage (k : KernelState) (caller : UserTaskBootstrap) (src : Word) : Prop :=
  ∀ path image imageSize s l plan spare, ExecPathAt k caller src path →
    Offers k.store path image imageSize s → FreeList s l → Loads caller image imageSize l plan spare →
      ∀ p ∈ plan.windowPages, p ∈ caller.imagePages → ∀ i, i < 4096 →
        leftByte image plan spare[3]? p i = k.phys.mem (p.toNat + i)

section Left

variable {K : KernelTables} {own own' : Owner} {b : Build} {k k' : KernelState} {t : TaskId}
  {caller bootstrap : UserTaskBootstrap} {l l' l₂ spaces spare others held files nodes : List Word}
  {image : Mem} {imageSize a stackPage entry p q : Word} {reusable : Word × Word} {plan : ElfPlan}
  {s s' s₂ : Phys} {i : ℕ}

lemma FreeList.next {l₁ : List Word} (h : FreeList s (l₁ ++ p :: q :: l₂)) : nodeNext s.mem p = q :=
  h.chain.split.1

/-- The page before a window page in the order of the release. -/
lemma window_before {n : ℕ} (hn : n ≤ 256) (hi : i < n) (stackPage : Word) :
    ∃ l₁ l₂, stackPage :: pagesFrom elfUserLoadBase n = l₁ ++
      (if elfUserLoadBase + BitVec.ofNat 64 (4096 * i) = elfUserLoadBase then stackPage
        else elfUserLoadBase + BitVec.ofNat 64 (4096 * i) - 4096#64) ::
      (elfUserLoadBase + BitVec.ofNat 64 (4096 * i)) :: l₂ := by
  have hlen : (pagesFrom elfUserLoadBase n).length = n := by simp [pagesFrom]
  have hget (j : ℕ) (hj : j < (pagesFrom elfUserLoadBase n).length) : (pagesFrom elfUserLoadBase n)[j] =
      elfUserLoadBase + BitVec.ofNat 64 (4096 * j) := by simp [pagesFrom]
  cases i with
  | zero =>
    refine ⟨[], (pagesFrom elfUserLoadBase n).drop 1, ?_⟩
    rw [if_pos (by simp), List.nil_append, ← hget 0 (by omega), List.getElem_cons_drop, List.drop_zero]
  | succ i =>
    have hne : elfUserLoadBase + BitVec.ofNat 64 (4096 * (i + 1)) ≠ elfUserLoadBase := by
      intro he
      have := congrArg BitVec.toNat he
      rw [BitVec.toNat_add, BitVec.toNat_ofNat, ElfPlan.toNat_base] at this
      omega
    have hbefore : elfUserLoadBase + BitVec.ofNat 64 (4096 * (i + 1)) - 4096#64 =
        elfUserLoadBase + BitVec.ofNat 64 (4096 * i) := by
      apply BitVec.eq_of_toNat_eq
      simp only [BitVec.toNat_sub, BitVec.toNat_add, BitVec.toNat_ofNat, ElfPlan.toNat_base]
      omega
    refine ⟨stackPage :: (pagesFrom elfUserLoadBase n).take i, (pagesFrom elfUserLoadBase n).drop (i + 2), ?_⟩
    rw [if_neg hne, hbefore, ← hget i (by omega), ← hget (i + 1) (by omega), List.cons_append,
      List.getElem_cons_drop, List.getElem_cons_drop, List.take_append_drop]

/-- The caller's image has no page in common with the free list or with a table that
was taken from it. -/
lemma CallerPages.image_apart (h : CallerPages K own s caller l spaces) (hp : p ∈ caller.imagePages)
    (hi : i < 4096) (hq : q ∈ l) : ¬ OnPage q (p.toNat + i) := by
  intro hon
  have hheld := h.image p hp
  have hpage := h.inv.run.inv.free.pages q hq
  have heq := onPage_unique hheld.page.aligned hpage.aligned (show OnPage p (p.toNat + i) from
    ⟨by omega, by omega⟩) hon
  exact hheld.used (heq ▸ hq)

/-- A page that is not in the window has no byte there. -/
lemma ElfPlan.Valid.outside (hv : plan.Valid imageSize firstUserLayout) (hpage : IsPage p)
    (hp : p ∉ plan.windowPages) (hi : i < 4096) :
    p.toNat + i < 0x02100000 ∨ 0x02100000 + plan.span.toNat ≤ p.toNat + i := by
  by_contra hno
  push Not at hno
  obtain ⟨q, hq, hon⟩ := hv.onPage_window hno.1 hno.2
  have heq := onPage_unique hpage.aligned (hv.windowPages_page hq).aligned
    (show OnPage p (p.toNat + i) from ⟨by omega, by omega⟩) hon
  exact hp (heq ▸ hq)

lemma ElfPlan.Valid.window_byte (hv : plan.Valid imageSize firstUserLayout) (hp : p ∈ plan.windowPages)
    (hi : i < 4096) : 0x02100000 ≤ p.toNat ∧ p.toNat - 0x02100000 + i < plan.span.toNat := by
  obtain ⟨j, hj, hpj⟩ := hv.mem_windowPages.mp hp
  have hs := hv.span_eq
  omega

/-- What a released program leaves in the window and elsewhere. -/
lemma Prepared.released_bytes (hp : Prepared K entry caller.imagePhysicalBegin caller.imagePhysicalEnd
      image plan s own l a stackPage s' own' l')
    (h : CallerPages K own s caller l spaces) (hplan : execPlan image imageSize = some plan) (b : Build)
    (h₂ : ExecRunInv K own' s₂ l₂ (a :: spaces)) (hsub : ∀ p ∈ l₂, p ∈ l')
    (hmem : ChangesOnly {stackPage} s'.mem s₂.mem) (hpi : p ∈ caller.imagePages) (hi : i < 4096) :
    (p ∈ plan.windowPages → (syscallReleaseBootstrap s₂ (b.transferred (plan.bootstrap entry a stackPage))).mem
      (p.toNat + i) = leftByte image plan (some stackPage) p i) ∧
    (p ∉ plan.windowPages → (syscallReleaseBootstrap s₂ (b.transferred (plan.bootstrap entry a stackPage))).mem
      (p.toNat + i) = s.mem (p.toNat + i)) := by
  have hv := (elfCheck_valid hplan).1
  have hheld := h.image p hpi
  have hholds := hp.holds h.exec hplan h₂.run hsub
  have ha : (plan.bootstrap entry a stackPage).addressSpace ≠ 0#64 :=
    (h₂.run.inv.own_page (h₂.run.space a (by simp))).ne_zero
  obtain ⟨tables, htables, hfree, -⟩ := schedReleaseUserBootstrap_list h₂.run hholds (0#64, 0#64)
  obtain ⟨tables', htables', hall⟩ := schedReleaseUserBootstrap_freeAll h₂.run hholds (0#64, 0#64)
  rw [← syscallReleaseBootstrap_eq s₂ _ b ha, unowned_empty, ElfPlan.imagePages_bootstrap hv] at hfree
  rw [unowned_empty, ElfPlan.imagePages_bootstrap hv] at hall
  have hrel : syscallReleaseBootstrap s₂ (b.transferred (plan.bootstrap entry a stackPage)) =
      Platinum.freeAll s₂ (stackPage :: plan.windowPages ++ tables') := by
    rw [syscallReleaseBootstrap_eq s₂ _ b ha, hall]
    rfl
  have hlinks := freeAll_links s₂ (stackPage :: plan.windowPages ++ tables')
  rw [← hrel] at hlinks
  have hpage : ∀ q ∈ stackPage :: plan.windowPages ++ tables', IsPage q := by
    intro q hq
    rcases List.mem_append.mp hq with hq | hq
    · refine hholds.page q ?_
      rw [ElfPlan.imagePages_bootstrap hv]
      exact hq
    · obtain ⟨ρ, -, hρ⟩ := (htables'.mem_iff q).mp hq
      exact h₂.run.inv.own_page hρ
  have hal : ∀ q ∈ {q | q ∈ stackPage :: plan.windowPages ++ tables'}, q.toNat % 4096 = 0 :=
    fun q hq => (hpage q hq).aligned
  have hon : OnPage p (p.toNat + i) := ⟨by omega, by omega⟩
  -- the caller does not share the new stack page
  have hstack : p ≠ stackPage := by
    rintro rfl
    exact hheld.used hp.stack_mem
  have hbefore : s₂.mem (p.toNat + i) = s'.mem (p.toNat + i) :=
    hmem.byte (by rintro q rfl; exact (hp.own_stack h.exec).1.aligned) hheld.page.aligned hstack hon
  constructor
  · intro hpw
    obtain ⟨hlo, hhi⟩ := hv.window_byte hpw hi
    have hwin := hp.window (p.toNat - 0x02100000 + i) hhi
    rw [show 0x02100000 + (p.toNat - 0x02100000 + i) = p.toNat + i by omega] at hwin
    unfold leftByte
    dsimp only
    by_cases h8 : i < 8
    · rw [if_pos h8]
      obtain ⟨j, hj, hpj⟩ := hv.mem_windowPages.mp hpw
      have hpj' : p = elfUserLoadBase + BitVec.ofNat 64 (4096 * j) := by
        have hc := hv.pageCount_le
        apply BitVec.eq_of_toNat_eq
        rw [BitVec.toNat_add, BitVec.toNat_ofNat, ElfPlan.toNat_base]
        omega
      obtain ⟨l₁, l₃, hsplit⟩ := window_before hv.pageCount_le hj stackPage
      rw [← hpj'] at hsplit
      change FreeList _ (tables.reverse ++ ((stackPage :: pagesFrom elfUserLoadBase plan.pageCount).reverse
        ++ l₂)) at hfree
      rw [hsplit] at hfree
      simp only [List.reverse_append, List.reverse_cons, List.append_assoc, List.cons_append,
        List.nil_append] at hfree
      rw [← List.append_assoc] at hfree
      have hnext := hfree.next
      rw [← hnext, nodeNext, slot, byteOf_load64 _ _ h8]
      rfl
    · rw [if_neg h8, ← hwin, hlinks.tail hal hheld.page.aligned (by omega) hi, hbefore]
  · intro hpw
    have hno : p ∉ {q | q ∈ stackPage :: plan.windowPages ++ tables'} := by
      intro hm
      rcases List.mem_append.mp hm with hm | hm
      · rcases List.mem_cons.mp hm with rfl | hm
        · exact hstack rfl
        · exact hpw hm
      · obtain ⟨ρ, -, hρ⟩ := (htables'.mem_iff p).mp hm
        rw [(hp.held hheld).unowned] at hρ
        cases hρ
    rw [hlinks.pages.byte hal hheld.page.aligned hno hon, hbefore]
    refine hp.frame _ (hv.outside hheld.page hpw hi) (fun q hq hlink => ?_) fun q ρ hρ => ?_
    · exact h.image_apart hpi hi hq ⟨hlink.1, by omega⟩
    · exact h.image_apart hpi hi (hp.taken_free.2 q ρ hρ)

lemma Loads.unique {plan' : ElfPlan} {spare' : List Word} (h : Loads caller image imageSize l plan spare)
    (h' : Loads caller image imageSize l plan' spare') : plan = plan' ∧ spare = spare' := by
  obtain ⟨hplan, a, l₁, rfl, -, rfl⟩ := h
  obtain ⟨hplan', a', l₁', hl, -, rfl⟩ := h'
  obtain rfl := Option.some.inj (hplan.symm.trans hplan')
  obtain ⟨-, rfl⟩ := List.cons.inj hl
  exact ⟨rfl, rfl⟩

/-- A prepared image has a page for the stack behind three for the tables. -/
lemma Prepared.loads (hp : Prepared K entry caller.imagePhysicalBegin caller.imagePhysicalEnd image plan s
      own l a stackPage s' own' l') (hplan : execPlan image imageSize = some plan) :
    ∃ spare, Loads caller image imageSize l plan spare ∧ spare[3]? = some stackPage := by
  obtain ⟨l₀, rfl, hav, tabs, hdiff, hlen, -⟩ := hp.head
  refine ⟨_, ⟨hplan, a, l₀, rfl, hav, rfl⟩, ?_⟩
  rw [hdiff, List.getElem?_append_right (by omega), hlen]
  rfl

/-- A byte of the caller's image when a prepared program did not replace it. -/
lemma Prepared.caller_byte (hp : Prepared K entry caller.imagePhysicalBegin caller.imagePhysicalEnd
      image plan s own l a stackPage s' own' l')
    (h : CallerPages K own s caller l spaces) (hplan : execPlan image imageSize = some plan) (b : Build)
    (h₂ : ExecRunInv K own' s₂ l₂ (a :: spaces)) (hsub : ∀ p ∈ l₂, p ∈ l')
    (hmem : ChangesOnly {stackPage} s'.mem s₂.mem) (hpi : p ∈ caller.imagePages) (hi : i < 4096) :
    (∀ plan' spare, Loads caller image imageSize l plan' spare → p ∈ plan'.windowPages →
      (syscallReleaseBootstrap s₂ (b.transferred (plan.bootstrap entry a stackPage))).mem (p.toNat + i) =
        leftByte image plan' spare[3]? p i) ∧
    ((∀ plan' spare, Loads caller image imageSize l plan' spare → p ∉ plan'.windowPages) →
      (syscallReleaseBootstrap s₂ (b.transferred (plan.bootstrap entry a stackPage))).mem (p.toNat + i) =
        s.mem (p.toNat + i)) := by
  obtain ⟨hshared, hother⟩ := hp.released_bytes h hplan b h₂ hsub hmem hpi hi
  obtain ⟨spare, hloads, hspare⟩ := hp.loads hplan
  refine ⟨fun plan' spare' hloads' hpw => ?_, fun hall => hother (hall plan spare hloads)⟩
  obtain ⟨rfl, rfl⟩ := hloads.unique hloads'
  rw [hspare]
  exact hshared hpw

/-- A byte of the caller's image when no program was prepared. -/
lemma PrepareOutcome.caller_byte
    (hout : PrepareOutcome K entry caller.imagePhysicalBegin caller.imagePhysicalEnd image imageSize s own l
      (.ok (none, s')))
    (h : CallerPages K own s caller l spaces) (hpi : p ∈ caller.imagePages) (hi : i < 4096) :
    (∀ plan spare, Loads caller image imageSize l plan spare → p ∈ plan.windowPages →
      s'.mem (p.toNat + i) = leftByte image plan spare[3]? p i) ∧
    ((∀ plan spare, Loads caller image imageSize l plan spare → p ∉ plan.windowPages) →
      s'.mem (p.toNat + i) = s.mem (p.toNat + i)) := by
  have hheld := h.image p hpi
  cases hout with
  | early why inv perm mem globals =>
    refine ⟨fun plan spare hloads => ?_, fun _ => mem _ fun q hq => h.image_apart hpi hi hq⟩
    obtain ⟨hplan, a, l₁, rfl, hav, -⟩ := hloads
    rcases why with hnil | hno | ⟨plan', hplan', q, hq, hno⟩
    · cases hnil
    · rw [hno] at hplan
      cases hplan
    · obtain rfl := Option.some.inj (hplan.symm.trans hplan')
      exact absurd (hav q hq) hno
  | noStack hplan hav length inv perm window frame globals =>
    have hv := (elfCheck_valid hplan).1
    refine ⟨fun plan spare hloads hpw => ?_, fun hall => ?_⟩
    · obtain ⟨hplan', a, l₁, rfl, -, rfl⟩ := hloads
      obtain rfl := Option.some.inj (hplan.symm.trans hplan')
      rw [List.tail_cons] at length
      rw [List.getElem?_eq_none length.le, leftByte]
      exact window p hpw ((h.range_iff hheld.page).mpr hpi) i hi
    · have hl : l ≠ [] := by
        rintro rfl
        rw [List.tail_nil, List.nil_diff] at length
        cases length
      obtain ⟨a, l₁, rfl⟩ := List.exists_cons_of_ne_nil hl
      have hpw := hall _ _ ⟨hplan, a, l₁, rfl, hav, rfl⟩
      exact frame _ (hv.outside hheld.page hpw hi) fun q hq => h.image_apart hpi hi hq

/-- A byte of the caller's image after a failed exec. -/
lemma ExecEnd.caller_byte (h : ExecCaller K own k t caller l spaces others held files nodes)
    (hend : ExecEnd K own b k t caller l others held image imageSize reusable (.ok (0#64, k')))
    (hpi : p ∈ caller.imagePages) (hi : i < 4096) :
    (∀ plan spare, Loads caller image imageSize l plan spare → p ∈ plan.windowPages →
      k'.phys.mem (p.toNat + i) = leftByte image plan spare[3]? p i) ∧
    ((∀ plan spare, Loads caller image imageSize l plan spare → p ∉ plan.windowPages) →
      k'.phys.mem (p.toNat + i) = k.phys.mem (p.toNat + i)) := by
  generalize hr : (.ok (0#64, k') : Run (Word × KernelState)) = r at hend
  cases hend with
  | failed hprep =>
    cases hr
    exact hprep.caller_byte h.pages hpi hi
  | halted => cases hr
  | refused hplan hp hhook =>
    cases hr
    exact hp.caller_byte h.pages hplan b (h.pages.inv.prepared hp) (fun p hp => hp)
      (ChangesOnly.refl _ _) hpi hi
  | @unseeded plan a stackPage s' own' l' files nodes store₁ store₂ hplan hp hhook hseed hfds =>
    cases hr
    obtain ⟨n, hinv, hmem, -⟩ := h.reseeded hp rfl hseed
    have hframe : ChangesOnly {stackPage} s'.mem store₂.phys.mem :=
      hmem ▸ pushWords_frame (by simp [userFrame])
    have hsame : b.transferred (plan.bootstrap b.archUserProgramEntry a stackPage) =
        plan.bootstrap b.archUserProgramEntry a stackPage := if_neg (by simp [hhook])
    have hbytes := hp.caller_byte h.pages hplan b hinv (fun p hp => List.mem_of_mem_drop hp) hframe hpi hi
    rw [hsame] at hbytes
    exact hbytes
  | transferred hplan hp hhook hseed hfds hready =>
    exact absurd (Prod.mk.inj (Except.ok.inj hr)).1.symm hready.frame

/-- How a failed call went: no path, no image, or an image that was given up. -/
lemma ExecCaller.syscall_failed (h : ExecCaller K own k t caller l spaces others held files nodes)
    (hentry : b.archUserProgramEntry.toNat < 2 ^ 52) {frame : SyscallFrame} (hrax : frame.rax = sysExec)
    {rsp : Word}
    (hrun : (kernelSyscallEntry b k rsp frame reusable).result =
      .ok (rsp, syscallReturn frame sysResultError, k')) :
    ((∀ path, ¬ ExecPathAt k caller frame.rdi path) ∧ k' = k) ∨
    ∃ path found store files' n, (∀ path', ExecPathAt k caller frame.rdi path' ↔ path' = path) ∧
      ExecCaller K own (k.setStore store) t caller (l.drop n) spaces others held files' nodes ∧
      Grown k.phys store.phys ∧ Unchanged k.store store files nodes ∧
      (∀ image imageSize s, Offers k.store path image imageSize s ↔
        found = some (image, imageSize) ∧ s = store.phys) ∧
      (found = none ∧ k' = k.setStore store ∨ ∃ image imageSize, found = some (image, imageSize) ∧
        ExecEnd K own b (k.setStore store) t caller (l.drop n) others held image imageSize reusable
          (.ok (0#64, k'))) := by
  rcases h.syscall b hrax rsp reusable with ⟨hno, hanswer⟩ | ⟨path, hpath, hanswer⟩
  · rw [hanswer] at hrun
    cases hrun
    exact .inl ⟨hno, rfl⟩
  rw [hanswer] at hrun
  -- the frame of a transfer still holds the number of the call
  have hexec : syscallExecPath b k path reusable = .ok (0#64, k') := by
    generalize syscallExecPath b k path reusable = x at hrun
    obtain _ | ⟨next, k₁⟩ := x
    · cases hrun
    have hok := Except.ok.inj hrun
    dsimp only [execAnswer] at hok
    by_cases h0 : next = 0#64
    · rw [if_pos h0] at hok
      rw [h0, (Prod.mk.inj (Prod.mk.inj hok).2).2]
    · rw [if_neg h0] at hok
      have hframe := congrArg SyscallFrame.rax (Prod.mk.inj (Prod.mk.inj hok).2).1
      rw [hrax] at hframe
      exact absurd hframe (show sysExec ≠ sysResultError by decide)
  obtain ⟨found, store, files', n, -, hcaller, hg, hsame, hoffers, hnone, hsome⟩ :=
    h.execPath hentry path reusable
  refine .inr ⟨path, found, store, files', n, hpath, hcaller, hg, hsame, hoffers, ?_⟩
  cases found with
  | none =>
    have hk := hexec.symm.trans (hnone rfl)
    exact .inl ⟨rfl, (Prod.mk.inj (Except.ok.inj hk)).2⟩
  | some found =>
    have hend := hsome found.1 found.2 rfl
    rw [hexec] at hend
    exact .inr ⟨_, _, rfl, hend⟩

/-- A byte of a shared page after a failed exec. -/
lemma ExecCaller.failed_byte (h : ExecCaller K own k t caller l spaces others held files nodes)
    (hentry : b.archUserProgramEntry.toNat < 2 ^ 52) {frame : SyscallFrame} (hrax : frame.rax = sysExec)
    {rsp : Word} {path : List Byte}
    (hrun : (kernelSyscallEntry b k rsp frame reusable).result =
      .ok (rsp, syscallReturn frame sysResultError, k'))
    (hpath : ExecPathAt k caller frame.rdi path) (hoff : Offers k.store path image imageSize s)
    (hl : FreeList s l₂) (hloads : Loads caller image imageSize l₂ plan spare) (hpw : p ∈ plan.windowPages)
    (hpi : p ∈ caller.imagePages) (hi : i < 4096) :
    k'.phys.mem (p.toNat + i) = leftByte image plan spare[3]? p i := by
  rcases h.syscall_failed hentry hrax hrun with
    ⟨hno, -⟩ | ⟨path', found, store, files', n, hiff, hcaller, -, -, hoffers, hcase⟩
  · exact absurd hpath (hno path)
  obtain rfl := (hiff path).mp hpath
  obtain ⟨rfl, rfl⟩ := (hoffers _ _ _).mp hoff
  obtain rfl := hl.unique hcaller.pages.inv.run.inv.free
  rcases hcase with ⟨hnone, -⟩ | ⟨image', imageSize', he, hend⟩
  · cases hnone
  · cases he
    exact (hend.caller_byte hcaller hpi hi).1 plan spare hloads hpw

/-- Without a page for the stack the call fails. -/
lemma ExecCaller.noStack_fails (h : ExecCaller K own k t caller l spaces others held files nodes)
    (hentry : b.archUserProgramEntry.toNat < 2 ^ 52) {frame : SyscallFrame} (hrax : frame.rax = sysExec)
    {path : List Byte} (hpath : ExecPathAt k caller frame.rdi path)
    (hoff : Offers k.store path image imageSize s) (hl : FreeList s l₂)
    (hloads : Loads caller image imageSize l₂ plan spare) (hlen : spare.length = 3) (rsp : Word)
    (reusable : Word × Word) :
    ∃ k', (kernelSyscallEntry b k rsp frame reusable).result =
      .ok (rsp, syscallReturn frame sysResultError, k') := by
  rcases h.syscall b hrax rsp reusable with ⟨hno, -⟩ | ⟨path', hiff, hanswer⟩
  · exact absurd hpath (hno path)
  obtain rfl := (hiff path).mp hpath
  obtain ⟨found, store, files', n, -, hcaller, -, -, hoffers, -, hsome⟩ :=
    h.execPath hentry path reusable
  obtain ⟨rfl, rfl⟩ := (hoffers _ _ _).mp hoff
  obtain rfl := hl.unique hcaller.pages.inv.run.inv.free
  have hend := hsome image imageSize rfl
  -- a prepared image took a fourth page
  have hprepared {plan' : ElfPlan} {a stackPage : Word} {s' : Phys} {own' : Owner} {l' : List Word}
      (hplan : execPlan image imageSize = some plan')
      (hp : Prepared K b.archUserProgramEntry caller.imagePhysicalBegin caller.imagePhysicalEnd image plan'
        (k.setStore store).phys own (l.drop n) a stackPage s' own' l') : False := by
    obtain ⟨spare', hloads', hsome⟩ := hp.loads hplan
    obtain ⟨rfl, rfl⟩ := hloads.unique hloads'
    rw [List.getElem?_eq_none hlen.le] at hsome
    cases hsome
  rw [hanswer]
  generalize syscallExecPath b k path reusable = x at hend
  cases hend with
  | failed => exact ⟨_, rfl⟩
  | halted hne hprep =>
    cases hprep with
    | noTables hplan hav hshort =>
      obtain ⟨hplan', a, l₁, hl₁, -, rfl⟩ := hloads
      obtain rfl := Option.some.inj (hplan.symm.trans hplan')
      rw [hl₁, List.tail_cons] at hshort
      omega
  | refused hplan hp => exact (hprepared hplan hp).elim
  | unseeded hplan hp => exact (hprepared hplan hp).elim
  | transferred hplan hp => exact (hprepared hplan hp).elim

end Left

/-- A failed exec leaves the caller's image alone if and only if the pages shared with
an image that got as far as the window already hold what exec leaves there. -/
theorem failedExec_keeps_image_iff {K : KernelTables} {own : Owner} {b : Build} {k k' : KernelState}
    {t : TaskId} {caller : UserTaskBootstrap} {l spaces others held files nodes : List Word}
    {frame : SyscallFrame} (h : ExecCaller K own k t caller l spaces others held files nodes)
    (hentry : b.archUserProgramEntry.toNat < 2 ^ 52) (hrax : frame.rax = sysExec) {rsp : Word}
    {reusable : Word × Word}
    (hrun : (kernelSyscallEntry b k rsp frame reusable).result =
      .ok (rsp, syscallReturn frame sysResultError, k')) :
    (∀ p ∈ caller.imagePages, ∀ i, i < 4096 → k'.phys.mem (p.toNat + i) = k.phys.mem (p.toNat + i)) ↔
      KeepsImage k caller frame.rdi := by
  rcases h.syscall_failed hentry hrax hrun with
    ⟨hno, rfl⟩ | ⟨path, found, store, files', n, hpath, hcaller, hg, -, hoffers, hcase⟩
  · exact iff_of_true (fun _ _ _ _ => rfl) fun path _ _ _ _ _ _ hp => absurd hp (hno path)
  rcases hcase with ⟨rfl, rfl⟩ | ⟨image, imageSize, rfl, hend⟩
  · refine iff_of_true (fun p _ i _ => ?_) fun path' image imageSize s l' plan spare hp hoff => ?_
    · rw [show (k.setStore store).phys.mem = k.phys.mem from hg.mem]
    · obtain rfl := (hpath path').mp hp
      have hno := ((hoffers _ _ _).mp hoff).1
      cases hno
  have hmem : (k.setStore store).phys.mem = k.phys.mem := hg.mem
  constructor
  · intro hkept path' image' imageSize' s l' plan spare hp hoff hl' hloads p hpw hpi i hi
    rw [← h.failed_byte hentry hrax hrun hp hoff hl' hloads hpw hpi hi]
    exact hkept p hpi i hi
  · intro hkeeps p hpi i hi
    obtain ⟨hshared, hother⟩ := hend.caller_byte hcaller hpi hi
    by_cases hex : ∃ plan spare, Loads caller image imageSize (l.drop n) plan spare ∧ p ∈ plan.windowPages
    · obtain ⟨plan, spare, hloads, hpw⟩ := hex
      rw [hshared plan spare hloads hpw]
      exact hkeeps path image imageSize store.phys _ plan spare ((hpath path).mpr rfl)
        ((hoffers _ _ _).mpr ⟨rfl, rfl⟩) hcaller.pages.inv.run.inv.free hloads p hpw hpi i hi
    · rw [hother fun plan spare hloads hpw => hex ⟨plan, spare, hloads, hpw⟩, hmem]

/-- A root, three tables, and no page for the stack. -/
def fourPages : List Word := [0x02206000#64, 0x02207000#64, 0x02208000#64, 0x02209000#64]

lemma fourPages_loads : Loads sampleBootstrap (sampleImage 1) 120#64 fourPages (samplePlan 1#64)
    [0x02207000#64, 0x02208000#64, 0x02209000#64] :=
  ⟨execPlan_one, _, _, rfl, by simp [sample_reuses], by rw [sample_reuses]; rfl⟩

/-- The sample program asks for itself and finds no page for the new stack. -/
lemma sample_noStack : ∃ K own k held files nodes k',
    ExecCaller K own k .task1 sampleBootstrap fourPages [0x02200000#64] [] held files nodes ∧
    (kernelSyscallEntry ⟨0x00100000#64, false⟩ k 0x40200000#64 sampleExecFrame (0#64, 0#64)).result =
      .ok (0x40200000#64, syscallReturn sampleExecFrame sysResultError, k') ∧
    (∃ s, ExecPathAt k sampleBootstrap sampleExecFrame.rdi samplePath ∧
      Offers k.store samplePath (sampleImage 1) 120#64 s ∧ FreeList s fourPages) ∧
    k.phys.mem 0x02100000 = 0x2F ∧ k'.phys.mem 0x02100000 = 0 := by
  have hps : ∀ p ∈ bootPages ++ fourPages, SparePage p := by simp [bootPages, fourPages, SparePage]
  obtain ⟨K, own, k, held, files, nodes, h, hoff, hpath, hbyte⟩ := execCaller_exists hps (by decide)
  have hentry : (0x00100000#64 : Word).toNat < 2 ^ 52 := by decide
  have hfree := h.pages.inv.run.inv.free
  obtain ⟨k', hrun⟩ := h.noStack_fails (b := ⟨0x00100000#64, false⟩) hentry
    (show sampleExecFrame.rax = sysExec from rfl) hpath hoff hfree fourPages_loads rfl 0x40200000#64 (0#64, 0#64)
  have hleft := h.failed_byte (p := 0x02100000#64) (i := 0) hentry rfl hrun hpath hoff hfree fourPages_loads
    (by decide) (by decide) (by decide)
  rw [show leftByte (sampleImage 1) (samplePlan 1#64) _ 0x02100000#64 0 = 0 by decide,
    show (0x02100000#64 : Word).toNat + 0 = 0x02100000 from rfl] at hleft
  exact ⟨K, own, k, held, files, nodes, k', h, hrun, ⟨_, hpath, hoff, hfree⟩, hbyte, hleft⟩

/-- The sample program's image is not kept. -/
theorem failedExec_keeps_image_iff_sample : ∃ k k' : KernelState,
    (kernelSyscallEntry ⟨0x00100000#64, false⟩ k 0x40200000#64 sampleExecFrame (0#64, 0#64)).result =
      .ok (0x40200000#64, syscallReturn sampleExecFrame sysResultError, k') ∧
    ¬ ∀ p ∈ sampleBootstrap.imagePages, ∀ i, i < 4096 →
      k'.phys.mem (p.toNat + i) = k.phys.mem (p.toNat + i) := by
  obtain ⟨K, own, k, held, files, nodes, k', h, hrun, ⟨s, hpath, hoff, hl⟩, hbyte, -⟩ := sample_noStack
  have hentry : (0x00100000#64 : Word).toNat < 2 ^ 52 := by decide
  refine ⟨k, k', hrun, (failedExec_keeps_image_iff h (b := ⟨0x00100000#64, false⟩) hentry rfl hrun).not.mpr
    fun hkeeps => ?_⟩
  have hsame := hkeeps _ _ _ _ _ _ _ hpath hoff hl fourPages_loads 0x02100000#64 (by decide) (by decide) 0
    (by decide)
  rw [show ((0x02100000#64 : Word).toNat + 0) = 0x02100000 from rfl, hbyte] at hsame
  exact absurd hsame (by decide)

/-- Exec answers with an error, and the first byte of the caller's image is cleared. -/
theorem failedExec_clears_image : ∃ K own k held files nodes k',
    ExecCaller K own k .task1 sampleBootstrap fourPages [0x02200000#64] [] held files nodes ∧
    (kernelSyscallEntry ⟨0x00100000#64, false⟩ k 0x40200000#64 sampleExecFrame (0#64, 0#64)).result =
      .ok (0x40200000#64, syscallReturn sampleExecFrame sysResultError, k') ∧
    0x02100000#64 ∈ sampleBootstrap.imagePages ∧
    k.phys.mem 0x02100000 = 0x2F ∧ k'.phys.mem 0x02100000 = 0 := by
  obtain ⟨K, own, k, held, files, nodes, k', h, hrun, -, hbyte, hleft⟩ := sample_noStack
  exact ⟨K, own, k, held, files, nodes, k', h, hrun, by decide, hbyte, hleft⟩

end Platinum
