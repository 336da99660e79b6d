import Mathlib.Algebra.GroupWithZero.Nat
import Mathlib.Data.List.Pairwise
import Mathlib.Data.Set.Lattice
import Mathlib.Tactic.Common

/-!
# Lists of heap blocks

A heap is a list of blocks, each a header of `hdr` bytes and a payload. The
list is sorted by address without overlap; two free blocks never touch. Freeing
merges a block with its free neighbours, allocating carves a block in two.
-/
namespace BlockList

structure Block where
  addr : ℕ
  size : ℕ
  free : Bool
  deriving DecidableEq, Repr

variable {hdr slack grain : ℕ} {b c p : Block} {L M L₁ L₂ : List Block} {size : ℕ}

/-- The first address after the block. -/
def Block.stop (hdr : ℕ) (b : Block) : ℕ := b.addr + hdr + b.size

/-- `b` ends at or before the start of `c`. -/
def Before (hdr : ℕ) (b c : Block) : Prop := b.stop hdr ≤ c.addr

/-- Blocks that touch are not both free. -/
def Settled (hdr : ℕ) (b c : Block) : Prop := b.stop hdr = c.addr → b.free = true → c.free = false

def Sorted (hdr : ℕ) (L : List Block) : Prop := L.Pairwise (Before hdr)

def Coalesced (hdr : ℕ) (L : List Block) : Prop := L.Pairwise (Settled hdr)

/-- Blocks lie on a grid of `grain` bytes. -/
def OnGrain (grain : ℕ) (L : List Block) : Prop := ∀ b ∈ L, grain ∣ b.addr ∧ grain ∣ b.size

/-- The addresses inside blocks, headers included. -/
def covered (hdr : ℕ) (L : List Block) : Set ℕ := {x | ∃ b ∈ L, b.addr ≤ x ∧ x < b.stop hdr}

/-- The blocks handed out. -/
def live (L : List Block) : List Block := L.filter (!·.free)

@[simp] lemma live_nil : live [] = [] := rfl

@[simp] lemma live_append (L M : List Block) : live (L ++ M) = live L ++ live M :=
  List.filter_append L M

lemma live_cons_free (h : b.free = true) : live (b :: L) = live L := by simp [live, h]

lemma live_cons_used (h : b.free = false) : live (b :: L) = b :: live L := by simp [live, h]

lemma mem_live : b ∈ live L ↔ b ∈ L ∧ b.free = false := by simp [live]

@[simp] lemma covered_nil : covered hdr [] = ∅ := by simp [covered]

lemma covered_append (L M : List Block) : covered hdr (L ++ M) = covered hdr L ∪ covered hdr M := by
  ext x
  simp only [covered, List.mem_append, or_and_right, exists_or, Set.mem_union]
  rfl

lemma covered_cons (b : Block) (L : List Block) :
    covered hdr (b :: L) = {x | b.addr ≤ x ∧ x < b.stop hdr} ∪ covered hdr L := by
  ext x
  simp [covered]

/-- Merge `b` with the free blocks that follow it without a gap. -/
def absorb (hdr : ℕ) : Block → List Block → List Block
  | b, [] => [b]
  | b, c :: L =>
    if c.free = true ∧ b.stop hdr = c.addr then absorb hdr ⟨b.addr, b.size + (hdr + c.size), b.free⟩ L
    else b :: c :: L

lemma stop_merge (h : b.stop hdr = c.addr) :
    Block.stop hdr ⟨b.addr, b.size + (hdr + c.size), b.free⟩ = c.stop hdr := by
  unfold Block.stop at *
  dsimp only
  omega

/-- The merged block starts where `b` did and is at least as large. -/
lemma absorb_head (hdr : ℕ) (b : Block) (L : List Block) :
    ∃ n M, absorb hdr b L = ⟨b.addr, n, b.free⟩ :: M ∧ b.size ≤ n ∧ ∀ c ∈ M, c ∈ L := by
  induction L generalizing b with
  | nil => exact ⟨b.size, [], rfl, le_rfl, by simp⟩
  | cons c L ih =>
    unfold absorb
    split_ifs with h
    · obtain ⟨n, M, he, hn, hM⟩ := ih ⟨b.addr, b.size + (hdr + c.size), b.free⟩
      exact ⟨n, M, he, by dsimp only at hn; omega, fun d hd => List.mem_cons_of_mem c (hM d hd)⟩
    · exact ⟨b.size, c :: L, rfl, le_rfl, by simp⟩

lemma covered_absorb (b : Block) (L : List Block) :
    covered hdr (absorb hdr b L) = covered hdr (b :: L) := by
  induction L generalizing b with
  | nil => rfl
  | cons c L ih =>
    unfold absorb
    split_ifs with h
    · rw [ih, covered_cons, covered_cons, covered_cons, stop_merge h.2, ← Set.union_assoc]
      congr 1
      ext x
      have hb : b.stop hdr = b.addr + hdr + b.size := rfl
      have hc : c.stop hdr = c.addr + hdr + c.size := rfl
      simp only [Set.mem_ofPred_eq, Set.mem_union]
      omega
    · rfl

lemma live_absorb (hb : b.free = true) (L : List Block) : live (absorb hdr b L) = live L := by
  induction L generalizing b with
  | nil => simp [absorb, live, hb]
  | cons c L ih =>
    unfold absorb
    split_ifs with h
    · rw [ih (b := ⟨b.addr, b.size + (hdr + c.size), b.free⟩) hb, live_cons_free h.1]
    · exact live_cons_free hb

lemma onGrain_cons : OnGrain grain (b :: L) ↔ (grain ∣ b.addr ∧ grain ∣ b.size) ∧ OnGrain grain L :=
  List.forall_mem_cons

lemma onGrain_append : OnGrain grain (L ++ M) ↔ OnGrain grain L ∧ OnGrain grain M :=
  List.forall_mem_append

lemma onGrain_absorb (hdr_grain : grain ∣ hdr) (h : OnGrain grain (b :: L)) :
    OnGrain grain (absorb hdr b L) := by
  induction L generalizing b with
  | nil => exact h
  | cons c L ih =>
    unfold absorb
    split_ifs
    · obtain ⟨hb, hc, hL⟩ := onGrain_cons.mp h |>.imp_right onGrain_cons.mp
      exact ih (onGrain_cons.mpr ⟨⟨hb.1, Nat.dvd_add hb.2 (Nat.dvd_add hdr_grain hc.2)⟩, hL⟩)
    · exact h

lemma Sorted.merge (h : Sorted hdr (b :: c :: L)) (hbc : b.stop hdr = c.addr) :
    Sorted hdr (⟨b.addr, b.size + (hdr + c.size), b.free⟩ :: L) := by
  obtain ⟨-, h⟩ := List.pairwise_cons.mp h
  obtain ⟨hc, hL⟩ := List.pairwise_cons.mp h
  refine List.pairwise_cons.mpr ⟨fun d hd => ?_, hL⟩
  rw [Before, stop_merge hbc]
  exact hc d hd

lemma sorted_absorb (h : Sorted hdr (b :: L)) : Sorted hdr (absorb hdr b L) := by
  induction L generalizing b with
  | nil => exact h
  | cons c L ih =>
    unfold absorb
    split_ifs with hc
    · exact ih (h.merge hc.2)
    · exact h

/-- Blocks that come before the merged ones come before the result. -/
lemma before_absorb (hL : ∀ c ∈ b :: L, Before hdr p c) : ∀ c ∈ absorb hdr b L, Before hdr p c := by
  obtain ⟨n, M, he, -, hM⟩ := absorb_head hdr b L
  intro c hc
  rw [he] at hc
  rcases List.mem_cons.mp hc with rfl | hc
  · exact hL b (by simp)
  · exact hL c (by simp [hM c hc])

/-- Merging leaves no two free blocks touching, if the rest had none. -/
lemma coalesced_absorb (hdr_pos : 0 < hdr) (hs : Sorted hdr (b :: L)) (hL : Coalesced hdr L) :
    Coalesced hdr (absorb hdr b L) := by
  induction L generalizing b with
  | nil => simp [absorb, Coalesced]
  | cons c L ih =>
    unfold absorb
    split_ifs with hc
    · exact ih (hs.merge hc.2) (List.pairwise_cons.mp hL).2
    · refine List.pairwise_cons.mpr ⟨fun d hd ht _ => ?_, hL⟩
      obtain ⟨hb, hs'⟩ := List.pairwise_cons.mp hs
      rcases List.mem_cons.mp hd with rfl | hd
      · by_contra hfree
        exact hc ⟨by simpa using hfree, ht⟩
      · -- `c` lies in between, so `b` and `d` do not touch
        have h₁ : b.stop hdr ≤ c.addr := hb c (by simp)
        have h₂ : c.stop hdr ≤ d.addr := (List.pairwise_cons.mp hs').1 d hd
        have hstop : c.stop hdr = c.addr + hdr + c.size := rfl
        omega

/-- Merging in two steps is merging at once. -/
lemma absorb_absorb (hb : b.free = true) (hpb : p.stop hdr = b.addr) :
    absorb hdr p (absorb hdr b L) = absorb hdr p (b :: L) := by
  induction L generalizing b with
  | nil => rfl
  | cons c L ih =>
    by_cases hc : c.free = true ∧ b.stop hdr = c.addr
    · have hstop : Block.stop hdr ⟨p.addr, p.size + (hdr + b.size), p.free⟩ = c.addr :=
        (stop_merge hpb).trans hc.2
      have hleft : absorb hdr b (c :: L) = absorb hdr ⟨b.addr, b.size + (hdr + c.size), b.free⟩ L := by
        simp [absorb, hc]
      rw [hleft, ih (b := ⟨b.addr, b.size + (hdr + c.size), b.free⟩) hb hpb]
      simp only [absorb, hb, hpb, hc.1, hstop, and_self, if_true]
      congr 2
      omega
    · have hleft : absorb hdr b (c :: L) = b :: c :: L := by simp [absorb, hc]
      rw [hleft]

/-- Put a free block back between its neighbours and merge on both sides. -/
def giveBack (hdr : ℕ) (L₁ : List Block) (b : Block) (L₂ : List Block) : List Block :=
  match L₁.getLast? with
  | none => absorb hdr b L₂
  | some p =>
    if p.free = true then L₁.dropLast ++ absorb hdr p (absorb hdr b L₂) else L₁ ++ absorb hdr b L₂

lemma giveBack_snoc (L₁ : List Block) (p b : Block) (L₂ : List Block) :
    giveBack hdr (L₁ ++ [p]) b L₂ =
      if p.free = true then L₁ ++ absorb hdr p (absorb hdr b L₂) else L₁ ++ p :: absorb hdr b L₂ := by
  simp [giveBack]

lemma covered_giveBack (L₁ : List Block) (b : Block) (L₂ : List Block) :
    covered hdr (giveBack hdr L₁ b L₂) = covered hdr (L₁ ++ b :: L₂) := by
  rcases List.eq_nil_or_concat L₁ with rfl | ⟨L₁, p, rfl⟩
  · exact covered_absorb b L₂
  · rw [List.concat_eq_append, giveBack_snoc]
    split_ifs <;> simp [covered_append, covered_cons, covered_absorb]

lemma live_giveBack (hb : b.free = true) : live (giveBack hdr L₁ b L₂) = live L₁ ++ live L₂ := by
  rcases List.eq_nil_or_concat L₁ with rfl | ⟨L₁, p, rfl⟩
  · exact live_absorb hb L₂
  · rw [List.concat_eq_append, giveBack_snoc]
    split_ifs with hp
    · simp [live_absorb hp, live_absorb hb, live_cons_free hp]
    · rw [live_append, live_append, live_cons_used (by simpa using hp), live_absorb hb,
        live_cons_used (by simpa using hp)]
      simp

lemma sorted_append : Sorted hdr (L ++ M) ↔
    Sorted hdr L ∧ Sorted hdr M ∧ ∀ b ∈ L, ∀ c ∈ M, Before hdr b c := List.pairwise_append

lemma coalesced_append : Coalesced hdr (L ++ M) ↔
    Coalesced hdr L ∧ Coalesced hdr M ∧ ∀ b ∈ L, ∀ c ∈ M, Settled hdr b c := List.pairwise_append

lemma onGrain_giveBack (hdr_grain : grain ∣ hdr) (h : OnGrain grain (L₁ ++ b :: L₂)) :
    OnGrain grain (giveBack hdr L₁ b L₂) := by
  obtain ⟨h₁, hb⟩ := onGrain_append.mp h
  have hb := onGrain_absorb hdr_grain hb
  rcases List.eq_nil_or_concat L₁ with rfl | ⟨L₁, p, rfl⟩
  · exact hb
  · rw [List.concat_eq_append] at h₁ ⊢
    obtain ⟨h₁, hp⟩ := onGrain_append.mp h₁
    have hp' : OnGrain grain (p :: absorb hdr b L₂) :=
      onGrain_cons.mpr ⟨hp p (List.mem_singleton_self p), hb⟩
    rw [giveBack_snoc]
    split_ifs
    · exact onGrain_append.mpr ⟨h₁, onGrain_absorb hdr_grain hp'⟩
    · exact onGrain_append.mpr ⟨h₁, hp'⟩

/-- A block and one further on do not touch. -/
lemma settled_of_between (hdr_pos : 0 < hdr) (h₁ : Before hdr b c) (h₂ : Before hdr c p) :
    Settled hdr b p := by
  intro ht
  have hstop : c.stop hdr = c.addr + hdr + c.size := rfl
  unfold Before at h₁ h₂
  omega

lemma coalesced_giveBack (hdr_pos : 0 < hdr) (h : Sorted hdr (L₁ ++ b :: L₂))
    (hc₁ : Coalesced hdr L₁) (hc₂ : Coalesced hdr L₂) : Coalesced hdr (giveBack hdr L₁ b L₂) := by
  rcases List.eq_nil_or_concat L₁ with rfl | ⟨L₁, p, rfl⟩
  · exact coalesced_absorb hdr_pos h hc₂
  · rw [List.concat_eq_append] at hc₁
    rw [List.concat_eq_append, List.append_assoc] at h
    obtain ⟨h₁, hp, hcross⟩ := sorted_append.mp h
    obtain ⟨hpb, hb⟩ := List.pairwise_cons.mp hp
    obtain ⟨hc₁, -, hcp⟩ := coalesced_append.mp hc₁
    have hM := coalesced_absorb hdr_pos hb hc₂
    have hp' : Sorted hdr (p :: absorb hdr b L₂) :=
      List.pairwise_cons.mpr ⟨before_absorb hpb, sorted_absorb hb⟩
    -- everything before `p` is separated from what follows by `p`
    have hfar : ∀ q ∈ L₁, ∀ c ∈ absorb hdr b L₂, Settled hdr q c := fun q hq c hc =>
      settled_of_between hdr_pos (hcross q hq p (by simp)) (before_absorb hpb c hc)
    rw [List.concat_eq_append, giveBack_snoc]
    split_ifs with hfree
    · refine coalesced_append.mpr ⟨hc₁, coalesced_absorb hdr_pos hp' hM, fun q hq c hc => ?_⟩
      obtain ⟨n, M, he, -, hMem⟩ := absorb_head hdr p (absorb hdr b L₂)
      rw [he] at hc
      rcases List.mem_cons.mp hc with rfl | hc
      · exact fun ht hq' => hcp q hq p (by simp) ht hq'
      · exact hfar q hq c (hMem c hc)
    · refine coalesced_append.mpr ⟨hc₁, List.pairwise_cons.mpr ⟨fun c _ _ hpf => ?_, hM⟩,
        fun q hq c hc => ?_⟩
      · exact absurd hpf hfree
      · rcases List.mem_cons.mp hc with rfl | hc
        · exact hcp q hq c (by simp)
        · exact hfar q hq c hc

/-- Hand out `size` bytes of a free block; a large enough rest stays free. -/
def carve (hdr slack : ℕ) (b : Block) (size : ℕ) : List Block :=
  if b.size ≤ size + hdr + slack then [⟨b.addr, b.size, false⟩]
  else [⟨b.addr, size, false⟩, ⟨b.addr + hdr + size, b.size - size - hdr, true⟩]

lemma covered_carve (b : Block) (size : ℕ) : covered hdr (carve hdr slack b size) = covered hdr [b] := by
  unfold carve
  split_ifs with h
  · simp [covered, Block.stop]
  · ext x
    simp only [covered, List.mem_cons, List.not_mem_nil, or_false, exists_eq_or_imp, exists_eq_left,
      Block.stop, Set.mem_ofPred_eq]
    omega

/-- The handed-out block is the carved one's beginning and is large enough. -/
lemma live_carve (hdr slack : ℕ) (hle : size ≤ b.size) : ∃ n, live (carve hdr slack b size) = [⟨b.addr, n, false⟩] ∧
    size ≤ n ∧ n ≤ size + hdr + slack := by
  unfold carve
  split_ifs with h
  · exact ⟨b.size, rfl, hle, h⟩
  · exact ⟨size, rfl, le_rfl, by omega⟩

lemma mem_carve (hle : size ≤ b.size) (hc : c ∈ carve hdr slack b size) :
    b.addr ≤ c.addr ∧ c.stop hdr ≤ b.stop hdr ∧
      (c.stop hdr = b.stop hdr ∨ c.free = false) ∧ (c.addr = b.addr ∨ c.free = true) := by
  unfold carve at hc
  unfold Block.stop
  split_ifs at hc with h
  · obtain rfl := List.mem_singleton.mp hc
    simp
  · rcases List.mem_cons.mp hc with rfl | hc
    · refine ⟨le_rfl, ?_, .inr rfl, .inl rfl⟩
      dsimp only
      omega
    · obtain rfl := List.mem_singleton.mp hc
      refine ⟨?_, ?_, .inl ?_, .inr rfl⟩ <;> dsimp only <;> omega

lemma onGrain_carve (hdr_grain : grain ∣ hdr) (hsize : grain ∣ size)
    (hb : grain ∣ b.addr ∧ grain ∣ b.size) : OnGrain grain (carve hdr slack b size) := by
  unfold carve
  split_ifs with h
  · exact onGrain_cons.mpr ⟨hb, by simp [OnGrain]⟩
  · have hrest : grain ∣ b.size - size - hdr := Nat.dvd_sub (Nat.dvd_sub hb.2 hsize) hdr_grain
    exact onGrain_cons.mpr ⟨⟨hb.1, hsize⟩, onGrain_cons.mpr
      ⟨⟨Nat.dvd_add (Nat.dvd_add hb.1 hdr_grain) hsize, hrest⟩, by simp [OnGrain]⟩⟩

lemma sorted_carve (h : Sorted hdr (L₁ ++ b :: L₂)) (hle : size ≤ b.size) :
    Sorted hdr (L₁ ++ (carve hdr slack b size ++ L₂)) := by
  obtain ⟨h₁, hb, hcross⟩ := sorted_append.mp h
  obtain ⟨hb, h₂⟩ := List.pairwise_cons.mp hb
  have hself : Sorted hdr (carve hdr slack b size) := by
    unfold carve
    split_ifs
    · exact List.pairwise_singleton _ _
    · simp [Sorted, Before, Block.stop]
  refine sorted_append.mpr ⟨h₁, sorted_append.mpr ⟨hself, h₂, fun c hc d hd => ?_⟩, fun q hq c hc => ?_⟩
  · exact (mem_carve hle hc).2.1.trans (hb d hd)
  · rcases List.mem_append.mp hc with hc | hc
    · exact le_trans (hcross q hq b (by simp)) (mem_carve hle hc).1
    · exact hcross q hq c (by simp [hc])

lemma coalesced_carve (h : Coalesced hdr (L₁ ++ b :: L₂))
    (hs : Sorted hdr (L₁ ++ b :: L₂)) (hb : b.free = true) (hle : size ≤ b.size) :
    Coalesced hdr (L₁ ++ (carve hdr slack b size ++ L₂)) := by
  obtain ⟨h₁, hbc, hcross⟩ := coalesced_append.mp h
  obtain ⟨hb₂, h₂⟩ := List.pairwise_cons.mp hbc
  obtain ⟨-, hsb, hscross⟩ := sorted_append.mp hs
  obtain ⟨hsb, -⟩ := List.pairwise_cons.mp hsb
  have hself : Coalesced hdr (carve hdr slack b size) := by
    unfold carve
    split_ifs
    · exact List.pairwise_singleton _ _
    · simp [Coalesced, Settled]
  refine coalesced_append.mpr
    ⟨h₁, coalesced_append.mpr ⟨hself, h₂, fun c hc d hd ht hf => ?_⟩, fun q hq c hc => ?_⟩
  · -- only the free rest, which ends where `b` ended, may touch what follows
    obtain ⟨-, -, hstop | hused, -⟩ := mem_carve hle hc
    · exact hb₂ d hd (hstop ▸ ht) hb
    · rw [hused] at hf
      cases hf
  · rcases List.mem_append.mp hc with hc | hc
    · intro ht hqf
      obtain ⟨hge, -, -, haddr | hfree⟩ := mem_carve hle hc
      · have hbf := hcross q hq b (by simp) (haddr ▸ ht) hqf
        rw [hb] at hbf
        cases hbf
      · have hqb : q.stop hdr ≤ b.addr := hscross q hq b (by simp)
        have hbf := hcross q hq b (by simp) (by omega) hqf
        rw [hb] at hbf
        cases hbf
    · exact hcross q hq c (by simp [hc])

/-- The bytes of the blocks handed out, headers included. -/
def liveBytes (hdr : ℕ) (L : List Block) : ℕ := ((live L).map fun b => hdr + b.size).sum

lemma not_mem_covered {x : ℕ} (h : ∀ c ∈ L, x < c.addr) : x ∉ covered hdr L := by
  rintro ⟨c, hc, hle, -⟩
  have := h c hc
  omega

/-- An interval that is covered cannot be longer than the blocks handed out and,
between any two of them, one free block of at most `most` bytes. -/
lemma covered_length_le {most e : ℕ} (hdr_pos : 0 < hdr)
    (hmost : ∀ b ∈ L, b.free = true → hdr + b.size ≤ most) (hs : Sorted hdr L) (hc : Coalesced hdr L)
    (x : ℕ) (hcov : ∀ y, x ≤ y → y < e → y ∈ covered hdr L) :
    e ≤ x + (liveBytes hdr L + most * ((live L).length + 1)) ∧
      ((∀ c ∈ L, x ≤ c.addr) → (∀ c ∈ L, c.addr = x → c.free = false) →
        e ≤ x + (liveBytes hdr L + most * (live L).length)) := by
  induction L generalizing x with
  | nil =>
    have hle : e ≤ x := by
      by_contra hlt
      simpa using hcov x le_rfl (by omega)
    exact ⟨by omega, fun _ _ => by omega⟩
  | cons b L ih =>
    have hmost' : ∀ c ∈ L, c.free = true → hdr + c.size ≤ most :=
      fun c hc => hmost c (List.mem_cons_of_mem b hc)
    obtain ⟨hbL, hs'⟩ := List.pairwise_cons.mp hs
    obtain ⟨hbc, hc'⟩ := List.pairwise_cons.mp hc
    have hstop : b.stop hdr = b.addr + hdr + b.size := rfl
    -- what `b` does not cover is covered by the rest
    have hrest : ∀ z, (∀ y, z ≤ y → ¬ (b.addr ≤ y ∧ y < b.stop hdr)) → x ≤ z →
        ∀ y, z ≤ y → y < e → y ∈ covered hdr L := by
      intro z hz hxz y hy hye
      have hy' := hcov y (by omega) hye
      rw [covered_cons] at hy'
      exact hy'.resolve_left (hz y hy)
    have hbytes : liveBytes hdr (b :: L) =
        (if b.free = true then 0 else hdr + b.size) + liveBytes hdr L := by
      unfold liveBytes
      split_ifs with hf
      · rw [live_cons_free hf, Nat.zero_add]
      · rw [live_cons_used (by simpa using hf), List.map_cons, List.sum_cons]
    have hlen : (live (b :: L)).length = (if b.free = true then 0 else 1) + (live L).length := by
      split_ifs with hf
      · rw [live_cons_free hf, Nat.zero_add]
      · rw [live_cons_used (by simpa using hf), List.length_cons, Nat.add_comm]
    by_cases hxe : e ≤ x
    · exact ⟨by omega, fun _ _ => by omega⟩
    by_cases hbx : b.stop hdr ≤ x
    · obtain ⟨h₁, h₂⟩ := ih hmost' hs' hc' x (hrest x (by omega) le_rfl)
      rw [hbytes, hlen]
      refine ⟨?_, fun hge hst => absurd (hge b (by simp)) (by omega)⟩
      simp only [Nat.mul_add, Nat.mul_one] at h₁ ⊢
      split_ifs <;> omega
    · -- `x` lies in `b`, as all that follows starts behind `b`
      have hin : b.addr ≤ x := by
        by_contra hlt
        have hx := hcov x le_rfl (by omega)
        refine not_mem_covered (fun c hc => ?_) hx
        rcases List.mem_cons.mp hc with rfl | hc
        · omega
        · have hle : b.stop hdr ≤ c.addr := hbL c hc
          omega
      have hcov' := hrest (b.stop hdr) (by omega) (by omega)
      obtain ⟨h₁, h₂⟩ := ih hmost' hs' hc' (b.stop hdr) hcov'
      rw [hbytes, hlen]
      by_cases hf : b.free = true
      · have hb := hmost b (by simp) hf
        have h₂ := h₂ (fun c hc => hbL c hc) fun c hc he => hbc c hc he.symm hf
        rw [if_pos hf, if_pos hf]
        simp only [Nat.mul_add, Nat.mul_one]
        refine ⟨by omega, fun hge hst => ?_⟩
        have hxb : b.addr = x := le_antisymm hin (hge b (by simp))
        rw [hst b (by simp) hxb] at hf
        cases hf
      · rw [if_neg hf, if_neg hf]
        simp only [Nat.mul_add, Nat.mul_one] at h₁ ⊢
        exact ⟨by omega, fun _ _ => by omega⟩

/-- Where nothing is handed out, a block spans all of a covered interval it meets. -/
lemma spans_covered {e x z : ℕ} (hs : Sorted hdr L) (hc : Coalesced hdr L)
    (hfree : ∀ c ∈ L, c.free = true) (hb : b ∈ L) (hx : b.addr ≤ x ∧ x < b.stop hdr)
    (hzx : z ≤ x) (hxe : x < e) (hcov : ∀ y, z ≤ y → y < e → y ∈ covered hdr L) :
    b.addr ≤ z ∧ e ≤ b.stop hdr := by
  have hstop (c : Block) : c.stop hdr = c.addr + hdr + c.size := rfl
  have hbs := hstop b
  have hside : ∀ c ∈ L, c = b ∨ (Before hdr c b ∧ c.stop hdr ≠ b.addr) ∨
      (Before hdr b c ∧ b.stop hdr ≠ c.addr) := by
    intro c hcL
    obtain ⟨A, B, rfl⟩ := List.append_of_mem hb
    obtain ⟨-, hsB, hsA⟩ := sorted_append.mp hs
    obtain ⟨-, hcB, hcA⟩ := coalesced_append.mp hc
    rcases List.mem_append.mp hcL with hcL' | hcL'
    · refine .inr (.inl ⟨hsA c hcL' b (by simp), fun ht => ?_⟩)
      have := hcA c hcL' b (by simp) ht (hfree c hcL)
      rw [hfree b hb] at this
      cases this
    · rcases List.mem_cons.mp hcL' with rfl | hcL'
      · exact .inl rfl
      · refine .inr (.inr ⟨(List.pairwise_cons.mp hsB).1 c hcL', fun ht => ?_⟩)
        have := (List.pairwise_cons.mp hcB).1 c hcL' ht (hfree b hb)
        rw [hfree c hcL] at this
        cases this
  constructor
  · by_contra hlt
    obtain ⟨c, hcL, hc₁, hc₂⟩ := hcov (b.addr - 1) (by omega) (by omega)
    have hcs := hstop c
    rcases hside c hcL with rfl | ⟨hbef, hne⟩ | ⟨hbef, -⟩
    · omega
    · unfold Before at hbef
      omega
    · unfold Before at hbef
      omega
  · by_contra hlt
    obtain ⟨c, hcL, hc₁, hc₂⟩ := hcov (b.stop hdr) (by omega) (by omega)
    have hcs := hstop c
    rcases hside c hcL with rfl | ⟨hbef, -⟩ | ⟨hbef, hne⟩
    · omega
    · unfold Before at hbef
      omega
    · unfold Before at hbef
      omega

lemma covered_head (b : Block) (L : List Block) (hdr_pos : 0 < hdr) : b.addr ∈ covered hdr (b :: L) := by
  have hstop : b.stop hdr = b.addr + hdr + b.size := rfl
  exact ⟨b, by simp, le_rfl, by omega⟩

/-- A sorted list starts no later than what it covers. -/
lemma head_le_of_covered {x : ℕ} (hs : Sorted hdr (b :: L)) (hx : x ∈ covered hdr (b :: L)) :
    b.addr ≤ x := by
  obtain ⟨c, hc, hle, -⟩ := hx
  rcases List.mem_cons.mp hc with rfl | hc
  · exact hle
  · have hbc : b.stop hdr ≤ c.addr := (List.pairwise_cons.mp hs).1 c hc
    have hstop : b.stop hdr = b.addr + hdr + b.size := rfl
    omega

/-- Of two lists that start with a free block, the one that covers less starts with the smaller. -/
lemma head_stop_le {c : Block} (hs : Sorted hdr (b :: L)) (hc : Coalesced hdr (b :: L))
    (hsM : Sorted hdr (c :: M)) (haddr : b.addr = c.addr) (hb : b.free = true) (hcf : c.free = true)
    (hcov : covered hdr (c :: M) ⊆ covered hdr (b :: L))
    (hlive : ∀ d ∈ live (b :: L), d ∈ live (c :: M)) : c.stop hdr ≤ b.stop hdr := by
  by_contra hlt
  have hstop : b.stop hdr = b.addr + hdr + b.size := rfl
  obtain ⟨d, hd, hle, hd'⟩ := hcov ⟨c, by simp, (by omega : c.addr ≤ b.stop hdr), by omega⟩
  rcases List.mem_cons.mp hd with rfl | hdL
  · omega
  · -- the next block touches `b`, so it is handed out, and the other list has it too
    have hge : b.stop hdr ≤ d.addr := (List.pairwise_cons.mp hs).1 d hdL
    have hused := (List.pairwise_cons.mp hc).1 d hdL (by omega) hb
    obtain ⟨hdM, -⟩ := mem_live.mp (hlive d (mem_live.mpr ⟨hd, hused⟩))
    rcases List.mem_cons.mp hdM with rfl | hdM
    · rw [hcf] at hused
      cases hused
    · have hcd : c.stop hdr ≤ d.addr := (List.pairwise_cons.mp hsM).1 d hdM
      omega

/-- A list without overlap or touching free blocks is determined by what it
covers and the blocks it hands out. -/
theorem eq_of_covered (hdr_pos : 0 < hdr) (hs : Sorted hdr L) (hc : Coalesced hdr L)
    (hsM : Sorted hdr M) (hcM : Coalesced hdr M) (hcov : covered hdr L = covered hdr M)
    (hlive : ∀ b, b ∈ live L ↔ b ∈ live M) : L = M := by
  induction L generalizing M with
  | nil =>
    cases M with
    | nil => rfl
    | cons c M =>
      have hx := covered_head c M hdr_pos
      rw [← hcov] at hx
      simp at hx
  | cons b L ih =>
    cases M with
    | nil =>
      have hx := covered_head b L hdr_pos
      rw [hcov] at hx
      simp at hx
    | cons c M =>
      have haddr : b.addr = c.addr := le_antisymm
        (head_le_of_covered hs (hcov ▸ covered_head c M hdr_pos))
        (head_le_of_covered hsM (hcov ▸ covered_head b L hdr_pos))
      obtain ⟨hbL, hs'⟩ := List.pairwise_cons.mp hs
      obtain ⟨hcM', hsM'⟩ := List.pairwise_cons.mp hsM
      have hbs : b.stop hdr = b.addr + hdr + b.size := rfl
      have hcs : c.stop hdr = c.addr + hdr + c.size := rfl
      have hbc : b = c := by
        by_cases hb : b.free = true
        · by_cases hcf : c.free = true
          · have h₁ := head_stop_le hs hc hsM haddr hb hcf hcov.ge fun d hd => (hlive d).mp hd
            have h₂ := head_stop_le hsM hcM hs haddr.symm hcf hb hcov.le fun d hd => (hlive d).mpr hd
            have hsize : b.size = c.size := by omega
            cases b
            cases c
            simp_all
          · have hm := (hlive c).mpr (mem_live.mpr ⟨by simp, by simpa using hcf⟩)
            rcases List.mem_cons.mp (mem_live.mp hm).1 with hcb | hm
            · exact hcb.symm
            · have hle : b.stop hdr ≤ c.addr := hbL c hm
              omega
        · have hm := (hlive b).mp (mem_live.mpr ⟨by simp, by simpa using hb⟩)
          rcases List.mem_cons.mp (mem_live.mp hm).1 with hbc | hm
          · exact hbc
          · have hle : c.stop hdr ≤ b.addr := hcM' b hm
            omega
      subst hbc
      have hrest {N : List Block} (hN : ∀ d ∈ N, Before hdr b d) (x : ℕ) :
          x ∈ covered hdr N ↔ x ∈ covered hdr (b :: N) ∧ b.stop hdr ≤ x := by
        constructor
        · rintro ⟨d, hd, hle, hlt⟩
          have hbd : b.stop hdr ≤ d.addr := hN d hd
          exact ⟨⟨d, by simp [hd], hle, hlt⟩, by omega⟩
        · rintro ⟨⟨d, hd, hle, hlt⟩, hx⟩
          rcases List.mem_cons.mp hd with rfl | hd
          · omega
          · exact ⟨d, hd, hle, hlt⟩
      have hlast {N : List Block} (hN : ∀ d ∈ N, Before hdr b d) (d : Block) :
          d ∈ live N ↔ d ∈ live (b :: N) ∧ d ≠ b := by
        rw [mem_live, mem_live, List.mem_cons]
        constructor
        · rintro ⟨hd, hf⟩
          refine ⟨⟨.inr hd, hf⟩, fun he => ?_⟩
          have hle : b.stop hdr ≤ d.addr := hN d hd
          rw [he] at hle
          omega
        · rintro ⟨⟨hd, hf⟩, hne⟩
          exact ⟨hd.resolve_left hne, hf⟩
      rw [ih hs' (List.pairwise_cons.mp hc).2 hsM' (List.pairwise_cons.mp hcM).2]
      · ext x
        rw [hrest hbL, hrest hcM', hcov]
      · intro d
        rw [hlast hbL, hlast hcM', hlive]

end BlockList
