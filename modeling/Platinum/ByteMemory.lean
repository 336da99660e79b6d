import Mathlib.Data.List.Basic
import Mathlib.Data.Set.Basic
import Mathlib.Tactic.Common
import Mathlib.Tactic.IntervalCases

/-!
# Byte-addressed memory with little-endian words and 4 KiB pages

Memory is a total function from addresses to bytes. Words are read and written
eight bytes at a time; a page is named by the word that holds its base address.
The frame relation `ChangesOnly` says which pages a computation may have written.
-/
namespace ByteMemory

abbrev Byte := BitVec 8
abbrev Word := BitVec 64
abbrev Mem := ℕ → Byte

/-- Byte `k` of a word, counted from the least significant one. -/
def byteOf (v : Word) (k : ℕ) : Byte := v.extractLsb' (8 * k) 8

def load16 (m : Mem) (a : ℕ) : BitVec 16 := m (a + 1) ++ m a

def load32 (m : Mem) (a : ℕ) : BitVec 32 := m (a + 3) ++ m (a + 2) ++ m (a + 1) ++ m a

def load64 (m : Mem) (a : ℕ) : Word :=
  m (a + 7) ++ m (a + 6) ++ m (a + 5) ++ m (a + 4) ++ m (a + 3) ++ m (a + 2) ++ m (a + 1) ++ m a

def store8 (m : Mem) (a : ℕ) (b : Byte) : Mem := fun c => if c = a then b else m c

def store64 (m : Mem) (a : ℕ) (v : Word) : Mem :=
  fun b => if a ≤ b ∧ b < a + 8 then byteOf v (b - a) else m b

@[simp] theorem store8_same (m : Mem) (a : ℕ) (b : Byte) : store8 m a b a = b := by simp [store8]

theorem store64_at (m : Mem) (a : ℕ) (v : Word) {k : ℕ} (hk : k < 8) :
    store64 m a v (a + k) = byteOf v k := by
  simp [store64, hk]

theorem store64_outside (m : Mem) {a b : ℕ} (v : Word) (h : b < a ∨ a + 8 ≤ b) :
    store64 m a v b = m b := by
  simp only [store64, if_neg (show ¬(a ≤ b ∧ b < a + 8) by omega)]

lemma byteOf_append (v : Word) :
    byteOf v 7 ++ byteOf v 6 ++ byteOf v 5 ++ byteOf v 4 ++ byteOf v 3 ++ byteOf v 2 ++
      byteOf v 1 ++ byteOf v 0 = v := by
  simp only [byteOf]
  iterate 7 rw [BitVec.extractLsb'_append_extractLsb'_eq_extractLsb' (by rfl)]
  simp

lemma byteOf_load64 (m : Mem) (a : ℕ) {k : ℕ} (hk : k < 8) : byteOf (load64 m a) k = m (a + k) := by
  apply BitVec.eq_of_getLsbD_eq
  intro i hi
  rw [byteOf, BitVec.getLsbD_extractLsb']
  simp only [hi, decide_true, Bool.true_and, load64, BitVec.getLsbD_append]
  interval_cases k <;> grind

/-- Writing back the word that is there changes nothing. -/
theorem store64_load64 (m : Mem) (a : ℕ) : store64 m a (load64 m a) = m := by
  funext b
  by_cases hb : a ≤ b ∧ b < a + 8
  · obtain ⟨k, hk⟩ := Nat.exists_eq_add_of_le hb.1
    rw [hk, store64_at m a _ (show k < 8 by omega), byteOf_load64 m a (by omega)]
  · exact store64_outside m _ (by omega)

@[simp] theorem load64_store64_same (m : Mem) (a : ℕ) (v : Word) :
    load64 (store64 m a v) a = v := by
  have h0 : store64 m a v a = byteOf v 0 := store64_at m a v (k := 0) (by omega)
  simp only [load64, store64_at m a v (k := 1) (by omega), store64_at m a v (k := 2) (by omega),
    store64_at m a v (k := 3) (by omega), store64_at m a v (k := 4) (by omega),
    store64_at m a v (k := 5) (by omega), store64_at m a v (k := 6) (by omega),
    store64_at m a v (k := 7) (by omega), h0]
  exact byteOf_append v

/-- A word depends on its own eight bytes only. -/
theorem load64_congr {m m' : Mem} {a : ℕ} (h : ∀ k, k < 8 → m' (a + k) = m (a + k)) :
    load64 m' a = load64 m a := by
  simp only [load64, h 7 (by omega), h 6 (by omega), h 5 (by omega), h 4 (by omega),
    h 3 (by omega), h 2 (by omega), h 1 (by omega), show m' a = m a from h 0 (by omega)]

theorem load64_store64_disjoint (m : Mem) {a b : ℕ} (v : Word) (h : b + 8 ≤ a ∨ a + 8 ≤ b) :
    load64 (store64 m a v) b = load64 m b :=
  load64_congr fun k hk => store64_outside m v (by omega)

/-- A usable physical page address: aligned, not null, below the 52-bit limit. -/
structure IsPage (p : Word) : Prop where
  aligned : p.toNat % 4096 = 0
  pos : 0 < p.toNat
  lt : p.toNat < 2 ^ 52

instance (p : Word) : Decidable (IsPage p) :=
  decidable_of_iff (p.toNat % 4096 = 0 ∧ 0 < p.toNat ∧ p.toNat < 2 ^ 52)
    ⟨fun h => ⟨h.1, h.2.1, h.2.2⟩, fun h => ⟨h.aligned, h.pos, h.lt⟩⟩

/-- The addresses of the page at `p`. -/
def OnPage (p : Word) (a : ℕ) : Prop := p.toNat ≤ a ∧ a < p.toNat + 4096

instance (p : Word) (a : ℕ) : Decidable (OnPage p a) := inferInstanceAs (Decidable (_ ∧ _))

theorem IsPage.ne_zero {p : Word} (hp : IsPage p) : p ≠ 0#64 := by
  rintro rfl
  exact absurd hp.pos (by decide)

/-- Pages that share an address are the same page. -/
theorem onPage_unique {p q : Word} {a : ℕ} (hp : p.toNat % 4096 = 0) (hq : q.toNat % 4096 = 0)
    (hpa : OnPage p a) (hqa : OnPage q a) : p = q := by
  apply BitVec.eq_of_toNat_eq
  unfold OnPage at hpa hqa
  omega

/-- A page has a first word. -/
instance slots_neZero : NeZero 512 := ⟨by decide⟩

/-- Word `i` of the page at `p`. -/
def slot (m : Mem) (p : Word) (i : Fin 512) : Word := load64 m (p.toNat + 8 * i.val)

def setSlot (m : Mem) (p : Word) (i : Fin 512) (v : Word) : Mem :=
  store64 m (p.toNat + 8 * i.val) v

@[simp] theorem slot_setSlot_same (m : Mem) (p : Word) (i : Fin 512) (v : Word) :
    slot (setSlot m p i v) p i = v := load64_store64_same m _ v

/-- Storing the word that is already there changes nothing. -/
theorem setSlot_slot (m : Mem) (p : Word) (i : Fin 512) : setSlot m p i (slot m p i) = m :=
  store64_load64 m _

theorem slot_setSlot_ne (m : Mem) {p q : Word} {i j : Fin 512} (v : Word)
    (hp : p.toNat % 4096 = 0) (hq : q.toNat % 4096 = 0) (h : q ≠ p ∨ j ≠ i) :
    slot (setSlot m p i v) q j = slot m q j := by
  apply load64_store64_disjoint
  have hi := i.isLt
  have hj := j.isLt
  rcases h with h | h
  · have hne : q.toNat ≠ p.toNat := fun he => h (BitVec.eq_of_toNat_eq he)
    omega
  · have hne : j.val ≠ i.val := fun he => h (Fin.ext he)
    by_cases hpq : q.toNat = p.toNat <;> omega

/-- Writing a word of a page changes no byte outside that page. -/
theorem setSlot_outside (m : Mem) {p : Word} (i : Fin 512) (v : Word) {a : ℕ} (h : ¬ OnPage p a) :
    setSlot m p i v a = m a := by
  apply store64_outside
  have hi := i.isLt
  unfold OnPage at h
  omega

/-- `m'` differs from `m` only at addresses on pages of `P`. -/
def ChangesOnly (P : Set Word) (m m' : Mem) : Prop :=
  ∀ a, (∀ p ∈ P, ¬ OnPage p a) → m' a = m a

namespace ChangesOnly

theorem refl (P : Set Word) (m : Mem) : ChangesOnly P m m := fun _ _ => rfl

theorem trans {P : Set Word} {m₁ m₂ m₃ : Mem} (h : ChangesOnly P m₁ m₂)
    (h' : ChangesOnly P m₂ m₃) : ChangesOnly P m₁ m₃ :=
  fun a ha => (h' a ha).trans (h a ha)

theorem mono {P Q : Set Word} {m m' : Mem} (h : ChangesOnly P m m') (hpq : P ⊆ Q) :
    ChangesOnly Q m m' := fun a ha => h a fun p hp => ha p (hpq hp)

theorem setSlot {P : Set Word} (m : Mem) {p : Word} (hp : p ∈ P) (i : Fin 512) (v : Word) :
    ChangesOnly P m (setSlot m p i v) := fun _ ha => setSlot_outside m i v (ha p hp)

/-- A byte of a page outside the footprint is unchanged. -/
theorem byte {P : Set Word} {m m' : Mem} (h : ChangesOnly P m m')
    (hP : ∀ p ∈ P, p.toNat % 4096 = 0) {q : Word} (hq : q.toNat % 4096 = 0) (hqP : q ∉ P)
    {a : ℕ} (ha : OnPage q a) : m' a = m a := by
  apply h
  intro p hp hpa
  exact hqP (onPage_unique hq (hP p hp) ha hpa ▸ hp)

theorem of_page {P : Set Word} {m m' : Mem} {p : Word} (h : ChangesOnly {p} m m') (hp : p ∈ P) :
    ChangesOnly P m m' := h.mono (Set.singleton_subset_iff.mpr hp)

/-- A word of a page outside the footprint is unchanged. -/
theorem slot {P : Set Word} {m m' : Mem} (h : ChangesOnly P m m')
    (hP : ∀ p ∈ P, p.toNat % 4096 = 0) {q : Word} (hq : q.toNat % 4096 = 0) (hqP : q ∉ P)
    (i : Fin 512) : ByteMemory.slot m' q i = ByteMemory.slot m q i := by
  apply load64_congr
  intro k hk
  have hi := i.isLt
  exact h.byte hP hq hqP (by unfold OnPage; omega)

end ChangesOnly

/-- `m'` differs from `m` only in the first words of pages of `P`. -/
def ChangesLinks (P : Set Word) (m m' : Mem) : Prop :=
  ∀ a, (∀ p ∈ P, ¬ (p.toNat ≤ a ∧ a < p.toNat + 8)) → m' a = m a

namespace ChangesLinks

theorem refl (P : Set Word) (m : Mem) : ChangesLinks P m m := fun _ _ => rfl

theorem trans {P : Set Word} {m₁ m₂ m₃ : Mem} (h : ChangesLinks P m₁ m₂)
    (h' : ChangesLinks P m₂ m₃) : ChangesLinks P m₁ m₃ :=
  fun a ha => (h' a ha).trans (h a ha)

theorem mono {P Q : Set Word} {m m' : Mem} (h : ChangesLinks P m m') (hpq : P ⊆ Q) :
    ChangesLinks Q m m' := fun a ha => h a fun p hp => ha p (hpq hp)

theorem setSlot {P : Set Word} (m : Mem) {p : Word} (hp : p ∈ P) (v : Word) :
    ChangesLinks P m (setSlot m p 0 v) := by
  intro a ha
  apply store64_outside
  have h := ha p hp
  simp only [Fin.val_zero]
  omega

theorem pages {P : Set Word} {m m' : Mem} (h : ChangesLinks P m m') : ChangesOnly P m m' := by
  intro a ha
  apply h
  intro p hp hpa
  exact ha p hp ⟨hpa.1, by omega⟩

/-- Past its first word a page is unchanged, whether it is in the footprint or not. -/
theorem tail {P : Set Word} {m m' : Mem} (h : ChangesLinks P m m')
    (hP : ∀ p ∈ P, p.toNat % 4096 = 0) {q : Word} (hq : q.toNat % 4096 = 0) {k : ℕ}
    (hk : 8 ≤ k) (hk' : k < 4096) : m' (q.toNat + k) = m (q.toNat + k) := by
  apply h
  intro p hp
  have hpa := hP p hp
  omega

end ChangesLinks

end ByteMemory
