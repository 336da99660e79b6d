import Platinum.ByteMemory
import Mathlib.Data.Nat.Bitwise

/-!
# Masks and shifts of 64-bit words as arithmetic

Kernel code rounds, indexes and tests flags with bit operations. Each lemma
turns one such operation into division and remainder on natural numbers, where
linear arithmetic applies.
-/
namespace WordArith
open ByteMemory

/-- A mask of the bits from `k` up to `n` cuts out one digit block. -/
theorem toNat_and_mask (v : Word) {k n : ℕ} (hk : k ≤ n) (hn : n ≤ 64) {mask : Word}
    (hm : ∀ i < 64, mask.getLsbD i = decide (k ≤ i ∧ i < n)) :
    (v &&& mask).toNat = v.toNat / 2 ^ k % 2 ^ (n - k) * 2 ^ k := by
  apply Nat.eq_of_testBit_eq
  intro i
  rw [BitVec.toNat_and, Nat.testBit_and, Nat.testBit_mul_two_pow, Nat.testBit_mod_two_pow,
    Nat.testBit_div_two_pow]
  by_cases hi : i < 64
  · have h := hm i hi
    rw [BitVec.getLsbD] at h
    rw [h]
    by_cases h1 : k ≤ i
    · by_cases h2 : i < n
      · simp [h1, h2, show i - k < n - k by omega]
      · simp [h1, h2, show ¬ i - k < n - k by omega]
    · simp [h1]
  · have hmask : mask.toNat.testBit i = false :=
      Nat.testBit_lt_two_pow (lt_of_lt_of_le mask.isLt (Nat.pow_le_pow_right (by omega) (by omega)))
    rw [hmask]
    simp
    omega

theorem toNat_alignDown (v : Word) : (v &&& ~~~4095#64).toNat = v.toNat / 4096 * 4096 := by
  rw [toNat_and_mask v (k := 12) (n := 64) (by omega) (by omega) (by decide)]
  have hv := v.isLt
  rw [Nat.mod_eq_of_lt (by omega), show 2 ^ 12 = 4096 from rfl]

theorem alignDown_aligned (v : Word) : (v &&& ~~~4095#64).toNat % 4096 = 0 := by
  rw [toNat_alignDown]
  omega

theorem alignDown_of_aligned {v : Word} (h : v.toNat % 4096 = 0) : v &&& ~~~4095#64 = v := by
  apply BitVec.eq_of_toNat_eq
  rw [toNat_alignDown]
  omega

theorem toNat_addressMask (v : Word) :
    (v &&& 0x000FFFFFFFFFF000#64).toNat = v.toNat / 4096 % 2 ^ 40 * 4096 :=
  toNat_and_mask v (k := 12) (n := 52) (by omega) (by omega) (by decide)

theorem toNat_index (v : Word) (k : ℕ) : (v >>> k &&& 0x1FF#64).toNat = v.toNat / 2 ^ k % 512 := by
  rw [toNat_and_mask _ (k := 0) (n := 9) (by omega) (by omega) (by decide)]
  simp [Nat.shiftRight_eq_div_pow]

theorem and_one_ne_zero (v : Word) : v &&& 1#64 ≠ 0 ↔ v.toNat % 2 = 1 := by
  have h : (v &&& 1#64).toNat = v.toNat / 2 ^ 0 % 2 ^ (1 - 0) * 2 ^ 0 :=
    toNat_and_mask v (by omega) (by omega) (by decide)
  rw [ne_eq, ← BitVec.toNat_inj, h]
  simp

theorem and_two_ne_zero (v : Word) : v &&& 2#64 ≠ 0 ↔ v.toNat / 2 % 2 = 1 := by
  have h : (v &&& 2#64).toNat = v.toNat / 2 ^ 1 % 2 ^ (2 - 1) * 2 ^ 1 :=
    toNat_and_mask v (by omega) (by omega) (by decide)
  rw [ne_eq, ← BitVec.toNat_inj, h]
  simp

theorem and_four_ne_zero (v : Word) : v &&& 4#64 ≠ 0 ↔ v.toNat / 4 % 2 = 1 := by
  have h : (v &&& 4#64).toNat = v.toNat / 2 ^ 2 % 2 ^ (3 - 2) * 2 ^ 2 :=
    toNat_and_mask v (by omega) (by omega) (by decide)
  rw [ne_eq, ← BitVec.toNat_inj, h]
  simp

/-- Flags below the page size add to an aligned address without carry. -/
theorem toNat_or_flags {q f : Word} (hq : q.toNat % 4096 = 0) (hf : f.toNat < 4096) :
    (q ||| f).toNat = q.toNat + f.toNat := by
  rw [BitVec.toNat_or]
  obtain ⟨c, hc⟩ := Nat.dvd_of_mod_eq_zero hq
  rw [hc]
  exact (Nat.two_pow_add_eq_or_of_lt (i := 12) hf c).symm

/-- Masking the flags off recovers the address they were added to. -/
theorem addressMask_or_flags {q f : Word} (hq : IsPage q) (hf : f.toNat < 4096) :
    (q ||| f) &&& 0x000FFFFFFFFFF000#64 = q := by
  apply BitVec.eq_of_toNat_eq
  rw [toNat_addressMask, toNat_or_flags hq.aligned hf]
  have ha := hq.aligned
  have hl := hq.lt
  omega

end WordArith
