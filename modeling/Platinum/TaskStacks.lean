import Platinum.Sched

/-!
# The frames of fresh stacks

`task_build_kernel_stack` and `task_build_user_stack` write the words of an
interrupt frame at the end of a page and nothing else.
-/
namespace Platinum
open ByteMemory

section Push

variable {page : Word} {m m' : Mem} {x : ℕ} {words : List Word}

/-- The words from index `k` on. -/
def pushWordsFrom (m : Mem) (page : Word) (words : List Word) (k : ℕ) : Mem :=
  (words.zipIdx k).foldl (fun m (word, i) => store64 m (page.toNat + 4096 - 8 * (i + 1)) word) m

lemma pushWordsFrom_cons (m : Mem) (page word : Word) (words : List Word) (k : ℕ) :
    pushWordsFrom m page (word :: words) k =
      pushWordsFrom (store64 m (page.toNat + 4096 - 8 * (k + 1)) word) page words (k + 1) := rfl

lemma pushWordsFrom_outside {k : ℕ} (hk : k + words.length ≤ 512)
    (hx : x < page.toNat + 4096 - 8 * (k + words.length) ∨ page.toNat + 4096 - 8 * k ≤ x) :
    pushWordsFrom m page words k x = m x := by
  induction words generalizing m k with
  | nil => rfl
  | cons word words ih =>
    rw [List.length_cons] at hk hx
    rw [pushWordsFrom_cons, ih (by omega) (by omega)]
    exact store64_outside m word (by omega)

/-- What the frame holds does not depend on what was there before. -/
lemma pushWordsFrom_inside {k : ℕ} (hk : k + words.length ≤ 512)
    (hx : page.toNat + 4096 - 8 * (k + words.length) ≤ x ∧ x < page.toNat + 4096 - 8 * k) :
    pushWordsFrom m page words k x = pushWordsFrom m' page words k x := by
  induction words generalizing m m' k with
  | nil =>
    rw [List.length_nil] at hx
    omega
  | cons word words ih =>
    rw [List.length_cons] at hk hx
    rw [pushWordsFrom_cons, pushWordsFrom_cons]
    by_cases hlast : page.toNat + 4096 - 8 * (k + 1) ≤ x
    · obtain ⟨i, hi⟩ := Nat.exists_eq_add_of_le hlast
      rw [pushWordsFrom_outside (by omega) (by omega), pushWordsFrom_outside (by omega) (by omega), hi,
        store64_at m _ word (by omega), store64_at m' _ word (by omega)]
    · exact ih (by omega) (by omega)

lemma pushWords_outside (hlen : words.length ≤ 512)
    (hx : x < page.toNat + 4096 - 8 * words.length ∨ page.toNat + 4096 ≤ x) :
    pushWords m page words x = m x :=
  pushWordsFrom_outside (k := 0) (by omega) (by omega)

lemma pushWords_inside (hlen : words.length ≤ 512)
    (hx : page.toNat + 4096 - 8 * words.length ≤ x ∧ x < page.toNat + 4096) :
    pushWords m page words x = pushWords m' page words x :=
  pushWordsFrom_inside (k := 0) (by omega) (by omega)

/-- Only the page of the stack is written. -/
lemma pushWords_frame (hlen : words.length ≤ 512) : ChangesOnly {page} m (pushWords m page words) := by
  intro x hx
  have hpage := hx page rfl
  refine pushWords_outside hlen ?_
  unfold OnPage at hpage
  omega

@[simp] lemma length_kernelFrame (page entry : Word) : (kernelFrame page entry).length = 20 := rfl

@[simp] lemma length_userFrame (bootstrap : UserTaskBootstrap) : (userFrame bootstrap).length = 20 := rfl

end Push

section Stacks

variable {s s' : Phys} {l : List Word} {rsp entry : Word} {bootstrap : UserTaskBootstrap}

/-- A kernel stack is a page off the free list. -/
lemma taskBuildKernelStack_free (h : FreeList s l) (hrun : taskBuildKernelStack s entry = (rsp, s'))
    (h0 : rsp ≠ 0#64) : ∃ p l', l = p :: l' ∧ FreeList s' l' ∧ ChangesOnly {p} s.mem s'.mem := by
  unfold taskBuildKernelStack at hrun
  cases l with
  | nil =>
    rw [pallocAlloc_nil h] at hrun
    cases hrun
    exact absurd rfl h0
  | cons p l =>
    obtain ⟨s₁, halloc, hfree, hmem, -⟩ := pallocAlloc_cons h
    have hp := h.pages p (by simp)
    have hpl := (List.nodup_cons.mp h.nodup).1
    rw [halloc] at hrun
    dsimp only at hrun
    rw [if_neg hp.ne_zero] at hrun
    have hframe : ChangesOnly {p} s₁.mem (pushWords s₁.mem p (kernelFrame p entry)) :=
      pushWords_frame (by simp)
    generalize pushWords s₁.mem p (kernelFrame p entry) = m at hrun hframe
    obtain ⟨-, rfl⟩ := Prod.mk.inj hrun
    exact ⟨p, l, rfl, hfree.frame rfl hframe (fun q hq => hq ▸ hp.aligned) fun q hq => hq ▸ hpl,
      hmem ▸ hframe⟩

/-- A user stack is built on the bootstrap's page. -/
lemma taskBuildUserStack_eq (htop : bootstrap.userStackTop ≠ 0#64)
    (hpage : bootstrap.userStackPage ≠ 0#64) : taskBuildUserStack s bootstrap =
      (bootstrap.userStackPage + 4096#64 - 160#64,
        { s with mem := pushWords s.mem bootstrap.userStackPage (userFrame bootstrap) }) := by
  unfold taskBuildUserStack
  rw [if_neg htop, if_neg hpage]

end Stacks

end Platinum
