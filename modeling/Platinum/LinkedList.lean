import Mathlib.Data.List.Basic
import Mathlib.Data.List.Nodup
import Mathlib.Tactic.Common

/-!
# Null-terminated linked lists

`Chain next null h l` says that following `next` from `h` visits exactly the
cells of `l` and then `null`. The cells of a chain carry their own links, so an
edit of the list is an edit of `next` at one cell.
-/
namespace LinkedList

variable {α : Type*} {next next' : α → α} {null : α}

/-- The cells reached from `h`, in order, are `l`. -/
def Chain (next : α → α) (null : α) : α → List α → Prop
  | h, [] => h = null
  | h, p :: l => h = p ∧ p ≠ null ∧ Chain next null (next p) l

instance decidableChain [DecidableEq α] (next : α → α) (null : α) : ∀ h l, Decidable (Chain next null h l)
  | h, [] => inferInstanceAs (Decidable (h = null))
  | h, p :: l =>
    have := decidableChain next null (next p) l
    inferInstanceAs (Decidable (h = p ∧ p ≠ null ∧ Chain next null (next p) l))

@[simp] theorem chain_nil {h : α} : Chain next null h [] ↔ h = null := Iff.rfl

theorem chain_cons {h p : α} {l : List α} :
    Chain next null h (p :: l) ↔ h = p ∧ p ≠ null ∧ Chain next null (next p) l := Iff.rfl

theorem Chain.ne_null {h : α} {l : List α} (hc : Chain next null h l) {p : α} (hp : p ∈ l) :
    p ≠ null := by
  induction l generalizing h with
  | nil => cases hp
  | cons q l ih =>
    rcases List.mem_cons.mp hp with rfl | hp
    · exact hc.2.1
    · exact ih hc.2.2 hp

/-- The first cell is determined by the visited cells, whatever the links. -/
theorem Chain.head_eq {h h' : α} {l : List α} (hc : Chain next null h l)
    (hc' : Chain next' null h' l) : h = h' := by
  cases l with
  | nil => exact hc.trans hc'.symm
  | cons p l => exact hc.1.trans hc'.1.symm

/-- The visited cells are determined by the start and the links. -/
theorem Chain.unique {h : α} {l l' : List α} (hc : Chain next null h l)
    (hc' : Chain next null h l') : l = l' := by
  induction l generalizing h l' with
  | nil =>
    cases l' with
    | nil => rfl
    | cons q l' => exact absurd (hc'.1.symm.trans hc) hc'.2.1
  | cons p l ih =>
    cases l' with
    | nil => exact absurd (hc.1.symm.trans hc') hc.2.1
    | cons q l' =>
      obtain ⟨rfl, _, hc⟩ := hc
      obtain ⟨rfl, _, hc'⟩ := hc'
      rw [ih hc hc']

theorem Chain.congr {h : α} {l : List α} (hc : Chain next null h l)
    (hn : ∀ p ∈ l, next' p = next p) : Chain next' null h l := by
  induction l generalizing h with
  | nil => exact hc
  | cons p l ih =>
    obtain ⟨rfl, hp, hc⟩ := hc
    refine ⟨rfl, hp, ?_⟩
    rw [hn h (by simp)]
    exact ih hc fun q hq => hn q (by simp [hq])

/-- A chain is determined by a prefix and the link out of its last cell. -/
theorem Chain.split {h x : α} {l₁ l₂ : List α} (hc : Chain next null h (l₁ ++ x :: l₂)) :
    Chain next null (next x) l₂ := by
  induction l₁ generalizing h with
  | nil => exact hc.2.2
  | cons p l₁ ih => exact ih hc.2.2

/-- Relinking the cell before `p` past `p` removes exactly `p`. -/
theorem Chain.unlink {h x p : α} {l₁ l₂ : List α}
    (hc : Chain next null h (l₁ ++ x :: p :: l₂)) (hnd : (l₁ ++ x :: p :: l₂).Nodup)
    (hx : next' x = next p) (hn : ∀ q, q ≠ x → next' q = next q) :
    Chain next' null h (l₁ ++ x :: l₂) := by
  induction l₁ generalizing h with
  | nil =>
    obtain ⟨rfl, hnx, _, _, hc⟩ := hc
    refine ⟨rfl, hnx, ?_⟩
    rw [hx]
    apply hc.congr
    intro q hq
    apply hn
    rintro rfl
    simp only [List.nil_append, List.nodup_cons, List.mem_cons] at hnd
    exact hnd.1 (.inr hq)
  | cons r l₁ ih =>
    obtain ⟨rfl, hnr, hc⟩ := hc
    simp only [List.cons_append, List.nodup_cons] at hnd
    refine ⟨rfl, hnr, ?_⟩
    rw [hn h (by rintro rfl; exact hnd.1 (by simp))]
    exact ih hc hnd.2

end LinkedList
