import Platinum.Memmap
import Mathlib.Data.List.Nodup

/-!
# Kernel outcomes and the physical machine state

The physical state holds memory, the static variables of the page allocator and
of the paging code, the loaded CR3 and the captured firmware map.
-/
namespace Platinum
open ByteMemory WordArith

/-- Why the kernel never comes back from a call. -/
inductive Stop where
  | halt
  | schedFail
  | pageFault
  | diverge
  deriving DecidableEq, Repr

/-- A kernel computation returns or stops for good. -/
abbrev Run (α : Type) := Except Stop α

/-- What a sequenced computation returned, its first part returned too. -/
theorem bind_eq_ok {α β : Type} {x : Run α} {f : α → Run β} {b : β} :
    (x >>= f) = .ok b ↔ ∃ a, x = .ok a ∧ f a = .ok b := by
  cases x with
  | error e =>
    constructor
    · intro h; cases h
    · rintro ⟨a, h, _⟩; cases h
  | ok a =>
    constructor
    · exact fun h => ⟨a, rfl, h⟩
    · rintro ⟨a', h, h'⟩
      cases h
      exact h'

/-- A computation that was run and returned. -/
theorem toOption_eq_some {α : Type} {x : Run α} {a : α} : x.toOption = some a ↔ x = .ok a := by
  cases x with
  | error e => exact iff_of_false (by rintro ⟨⟩) (by rintro ⟨⟩)
  | ok b => exact ⟨fun h => congrArg Except.ok (Option.some.inj h), fun h => congrArg some (Except.ok.inj h)⟩

@[simp] theorem ok_bind {α β : Type} (a : α) (f : α → Run β) :
    ((Except.ok a : Run α) >>= f) = f a := rfl

@[simp] theorem error_bind {α β : Type} (e : Stop) (f : α → Run β) :
    ((Except.error e : Run α) >>= f) = Except.error e := rfl

@[simp] theorem pure_eq_ok {α : Type} (a : α) : (pure a : Run α) = .ok a := rfl

/-- A loop over links it does not write ends within this many steps or never. -/
def linkFuel : ℕ := 2 ^ 64

structure Phys where
  mem : Mem
  freeListHead : Word
  allocRegionBegin : Word
  allocRegionEnd : Word
  freePageCount : Word
  pagingKernelPml4 : Word
  cr3 : Word
  memmap : Memmap

/-- The static variables that neither the allocator nor table edits write. -/
structure SameGlobals (s s' : Phys) : Prop where
  regionBegin : s'.allocRegionBegin = s.allocRegionBegin
  regionEnd : s'.allocRegionEnd = s.allocRegionEnd
  kernelPml4 : s'.pagingKernelPml4 = s.pagingKernelPml4
  cr3 : s'.cr3 = s.cr3
  memmap : s'.memmap = s.memmap

theorem SameGlobals.refl (s : Phys) : SameGlobals s s := ⟨rfl, rfl, rfl, rfl, rfl⟩

theorem SameGlobals.trans {s₁ s₂ s₃ : Phys} (h : SameGlobals s₁ s₂) (h' : SameGlobals s₂ s₃) :
    SameGlobals s₁ s₃ :=
  ⟨h'.regionBegin.trans h.regionBegin, h'.regionEnd.trans h.regionEnd,
    h'.kernelPml4.trans h.kernelPml4, h'.cr3.trans h.cr3, h'.memmap.trans h.memmap⟩

/-- The `n` consecutive pages from `b`. -/
def pagesFrom (b : Word) (n : ℕ) : List Word :=
  (List.range n).map fun i => b + BitVec.ofNat 64 (4096 * i)

/-- The pages visited by `for (page = b; page < e; page += 4096)`. -/
def pageSpan (b e : Word) : List Word := pagesFrom b ((e.toNat - b.toNat + 4095) / 4096)

theorem mem_pagesFrom {b p : Word} {n : ℕ} (hb : b.toNat + 4096 * n < 2 ^ 64) :
    p ∈ pagesFrom b n ↔ ∃ i, i < n ∧ p.toNat = b.toNat + 4096 * i := by
  simp only [pagesFrom, List.mem_map, List.mem_range]
  constructor
  · rintro ⟨i, hi, rfl⟩
    exact ⟨i, hi, by rw [BitVec.toNat_add, BitVec.toNat_ofNat]; omega⟩
  · rintro ⟨i, hi, hp⟩
    refine ⟨i, hi, BitVec.eq_of_toNat_eq ?_⟩
    rw [BitVec.toNat_add, BitVec.toNat_ofNat]
    omega

theorem nodup_pagesFrom {b : Word} {n : ℕ} (hb : b.toNat + 4096 * n < 2 ^ 64) :
    (pagesFrom b n).Nodup := by
  refine List.Nodup.map_on ?_ List.nodup_range
  intro i hi j hj h
  have hi := List.mem_range.mp hi
  have hj := List.mem_range.mp hj
  have h := congrArg BitVec.toNat h
  rw [BitVec.toNat_add, BitVec.toNat_add, BitVec.toNat_ofNat, BitVec.toNat_ofNat] at h
  omega

@[simp] theorem length_pagesFrom (b : Word) (n : ℕ) : (pagesFrom b n).length = n := by
  simp [pagesFrom]

theorem take_pagesFrom (b : Word) {m n : ℕ} (h : m ≤ n) : (pagesFrom b n).take m = pagesFrom b m := by
  rw [pagesFrom, ← List.map_take, List.take_range, Nat.min_eq_left h]
  rfl

theorem pagesFrom_succ (b : Word) (n : ℕ) :
    pagesFrom b (n + 1) = pagesFrom b n ++ [b + BitVec.ofNat 64 (4096 * n)] := by
  simp [pagesFrom, List.range_succ]

end Platinum
