import Mathlib.Data.List.Basic
import Mathlib.Data.List.Induction
import Mathlib.Data.List.Nodup
import Mathlib.Data.List.Perm.Subperm
import Mathlib.Data.Set.Basic
import Mathlib.Tactic.Common

/-!
# Copy-on-write tries over a frozen base

A trie is stored as nodes with indexed slots. Several overlays, each named by
its root, share the nodes of one base trie that is never written. A private node
of an overlay is recorded by `own` together with its position, so two positions
never share a node. A slot of a private node is either the slot the base has at
that position or a link to the private node one level below. Depth `D` nodes
are leaves of the trie structure; their slots carry data.
-/
namespace SharedTrie

variable {N I E : Type*}

/-- How a slot names a child, the slot written for a private child, and the
slot of an absent child. -/
structure Scheme (N E : Type*) where
  next : E → Option N
  link : N → E
  empty : E
  valid : N → Prop
  next_link : ∀ q, valid q → next (link q) = some q
  next_empty : next empty = none

/-- Follow a path of indices from a node. -/
def descend (S : Scheme N E) (slot : N → I → E) (n : N) : List I → Option N
  | [] => some n
  | i :: π => (S.next (slot n i)).bind fun c => descend S slot c π

@[simp] theorem descend_nil (S : Scheme N E) (slot : N → I → E) (n : N) :
    descend S slot n [] = some n := rfl

theorem descend_cons (S : Scheme N E) (slot : N → I → E) (n : N) (i : I) (π : List I) :
    descend S slot n (i :: π) = (S.next (slot n i)).bind fun c => descend S slot c π := rfl

theorem descend_snoc (S : Scheme N E) (slot : N → I → E) (n : N) (π : List I) (i : I) :
    descend S slot n (π ++ [i]) = (descend S slot n π).bind fun c => S.next (slot c i) := by
  induction π generalizing n with
  | nil => simp [descend_cons]
  | cons j π ih =>
    simp only [List.cons_append, descend_cons]
    cases S.next (slot n j) with
    | none => rfl
    | some c => simpa using ih c

/-- The data slot under a full path; an unreachable one reads as empty. -/
def leaf (S : Scheme N E) (slot : N → I → E) (n : N) (π : List I) (i : I) : E :=
  match descend S slot n π with
  | some t => slot t i
  | none => S.empty

/-- The base trie, seen as functions of the position. -/
structure Base (S : Scheme N E) (D : ℕ) (slot : N → I → E)
    (node : List I → Option N) (base : List I → I → E) : Prop where
  here : ∀ π n i, π.length ≤ D → node π = some n → slot n i = base π i
  step : ∀ π i, π.length < D → node (π ++ [i]) = S.next (base π i)
  absent : ∀ π i, π.length ≤ D → node π = none → base π i = S.empty

namespace Base

variable {S : Scheme N E} {D : ℕ} {slot slot' : N → I → E}
  {node : List I → Option N} {base : List I → I → E}

theorem congr (hb : Base S D slot node base)
    (h : ∀ π n i, π.length ≤ D → node π = some n → slot' n i = slot n i) :
    Base S D slot' node base :=
  ⟨fun π n i hd hn => (h π n i hd hn).trans (hb.here π n i hd hn), hb.step, hb.absent⟩

/-- Descending from the base root reaches exactly the base nodes. -/
theorem descend_eq (hb : Base S D slot node base) {k : N} (hk : node [] = some k) (π : List I)
    (hd : π.length ≤ D) : descend S slot k π = node π := by
  induction π using List.reverseRecOn with
  | nil => simp [hk]
  | append_singleton π i ih =>
    simp only [List.length_append, List.length_cons, List.length_nil] at hd
    rw [descend_snoc, ih (by omega), hb.step π i (by omega)]
    cases hn : node π with
    | none => simp [hb.absent π i (by omega) hn, S.next_empty]
    | some n => simp [hb.here π n i (by omega) hn]

theorem leaf_eq (hb : Base S D slot node base) {k : N} (hk : node [] = some k) (π : List I)
    (i : I) (hd : π.length ≤ D) : leaf S slot k π i = base π i := by
  rw [leaf, hb.descend_eq hk π hd]
  cases hn : node π with
  | none => exact (hb.absent π i hd hn).symm
  | some n => exact hb.here π n i hd hn

end Base

/-- The copy-on-write invariant. -/
structure Overlay (S : Scheme N E) (D : ℕ) (slot : N → I → E) (node : List I → Option N)
    (base : List I → I → E) (own : N → Option (N × List I)) : Prop where
  valid : ∀ {p a π}, own p = some (a, π) → S.valid p
  depth : ∀ {p a π}, own p = some (a, π) → π.length ≤ D
  root : ∀ {p a}, own p = some (a, []) → p = a
  linked : ∀ {p a π i}, own p = some (a, π ++ [i]) →
    ∃ q, own q = some (a, π) ∧ slot q i = S.link p
  slots : ∀ {p a π}, own p = some (a, π) → π.length < D → ∀ i,
    slot p i = base π i ∨ ∃ q, own q = some (a, π ++ [i]) ∧ slot p i = S.link q
  base_free : ∀ {π q}, π.length ≤ D → node π = some q → own q = none

namespace Overlay

variable {S : Scheme N E} {D : ℕ} {slot slot' : N → I → E}
  {node : List I → Option N} {base : List I → I → E} {own : N → Option (N × List I)}

/-- The overlay's root is itself private. -/
theorem root_own (ho : Overlay S D slot node base own) {p a : N} {π : List I}
    (h : own p = some (a, π)) : own a = some (a, []) := by
  induction π using List.reverseRecOn generalizing p with
  | nil =>
    obtain rfl := ho.root h
    exact h
  | append_singleton π i ih =>
    obtain ⟨q, hq, _⟩ := ho.linked h
    exact ih hq

/-- Every position above a private node is private. -/
theorem prefix_own (ho : Overlay S D slot node base own) {p a : N} {π ρ : List I}
    (h : own p = some (a, π ++ ρ)) : ∃ q, own q = some (a, π) := by
  induction ρ using List.reverseRecOn generalizing p with
  | nil => exact ⟨p, by simpa using h⟩
  | append_singleton ρ i ih =>
    obtain ⟨q, hq, _⟩ := ho.linked (by rwa [← List.append_assoc] at h)
    exact ih hq

/-- A position holds at most one private node. -/
theorem position_unique (ho : Overlay S D slot node base own) {p q a : N} {π : List I}
    (hp : own p = some (a, π)) (hq : own q = some (a, π)) : p = q := by
  induction π using List.reverseRecOn generalizing p q with
  | nil => rw [ho.root hp, ho.root hq]
  | append_singleton π i ih =>
    obtain ⟨p', hp', hlp⟩ := ho.linked hp
    obtain ⟨q', hq', hlq⟩ := ho.linked hq
    rw [ih hp' hq'] at hlp
    have h := S.next_link p (ho.valid hp)
    rw [← hlp, hlq, S.next_link q (ho.valid hq)] at h
    exact (Option.some.inj h).symm

theorem descend_private (ho : Overlay S D slot node base own) {p a : N} {π : List I}
    (h : own p = some (a, π)) : descend S slot a π = some p := by
  induction π using List.reverseRecOn generalizing p with
  | nil => rw [ho.root h]; rfl
  | append_singleton π i ih =>
    obtain ⟨q, hq, hl⟩ := ho.linked h
    rw [descend_snoc, ih hq]
    simp [hl, S.next_link p (ho.valid h)]

/-- Where the overlay has no private node it coincides with the base. -/
theorem descend_shared (ho : Overlay S D slot node base own) (hb : Base S D slot node base)
    {a : N} (ha : own a = some (a, [])) {π : List I} (hd : π.length ≤ D)
    (h : ∀ p, own p ≠ some (a, π)) : descend S slot a π = node π := by
  induction π using List.reverseRecOn with
  | nil => exact absurd ha (h a)
  | append_singleton π i ih =>
    simp only [List.length_append, List.length_cons, List.length_nil] at hd
    rw [descend_snoc, hb.step π i (by omega)]
    by_cases hp : ∃ p, own p = some (a, π)
    · obtain ⟨p, hp⟩ := hp
      rw [ho.descend_private hp]
      rcases ho.slots hp (by omega) i with hs | ⟨q, hq, _⟩
      · simp [hs]
      · exact absurd hq (h q)
    · rw [ih (by omega) fun p hp' => hp ⟨p, hp'⟩]
      cases hn : node π with
      | none => simp [hb.absent π i (by omega) hn, S.next_empty]
      | some n => simp [hb.here π n i (by omega) hn]

theorem leaf_private (ho : Overlay S D slot node base own) {p a : N} {π : List I}
    (h : own p = some (a, π)) (i : I) : leaf S slot a π i = slot p i := by
  rw [leaf, ho.descend_private h]

theorem leaf_shared (ho : Overlay S D slot node base own) (hb : Base S D slot node base)
    {a : N} (ha : own a = some (a, [])) {π : List I} (hd : π.length ≤ D)
    (h : ∀ p, own p ≠ some (a, π)) (i : I) : leaf S slot a π i = base π i := by
  rw [leaf, ho.descend_shared hb ha hd h]
  cases hn : node π with
  | none => exact (hb.absent π i hd hn).symm
  | some n => exact hb.here π n i hd hn

/-- A shared slot never leads to a private node. -/
theorem shared_next (ho : Overlay S D slot node base own) (hb : Base S D slot node base)
    {π : List I} {i : I} (hd : π.length < D) {q : N} (h : S.next (base π i) = some q) :
    own q = none :=
  ho.base_free (π := π ++ [i]) (by simp; omega) (by rw [hb.step π i hd, h])

/-- Distinct private nodes at positions of a list are no more than its entries. -/
theorem length_le (ho : Overlay S D slot node base own) {a : N} {ps : List N} {P : List (List I)}
    (hnd : ps.Nodup) (h : ∀ p ∈ ps, ∃ π ∈ P, own p = some (a, π)) : ps.length ≤ P.length := by
  have hmap : (ps.map own).Nodup := by
    refine hnd.map_on fun p hp q hq he => ?_
    obtain ⟨π, _, hπ⟩ := h p hp
    exact ho.position_unique hπ (he.symm.trans hπ)
  have hsub : ps.map own ⊆ P.map fun π => some (a, π) := by
    intro x hx
    obtain ⟨p, hp, rfl⟩ := List.mem_map.mp hx
    obtain ⟨π, hπ, ho⟩ := h p hp
    exact List.mem_map.mpr ⟨π, hπ, ho.symm⟩
  simpa using (List.subperm_of_subset hmap hsub).length_le

/-- A position without a private node leaves the count short. -/
theorem length_lt [DecidableEq I] (ho : Overlay S D slot node base own) {a : N} {ps : List N}
    {P : List (List I)} (hnd : ps.Nodup) (h : ∀ p ∈ ps, ∃ π ∈ P, own p = some (a, π))
    {σ : List I} (hσ : σ ∈ P) (hno : ∀ p, own p ≠ some (a, σ)) : ps.length < P.length := by
  have hle := ho.length_le (P := P.erase σ) hnd fun p hp => by
    obtain ⟨π, hπ, ho⟩ := h p hp
    refine ⟨π, (List.mem_erase_of_ne ?_).mpr hπ, ho⟩
    rintro rfl
    exact hno p ho
  have hpos := List.length_pos_of_mem hσ
  rw [List.length_erase_of_mem hσ] at hle
  omega

/-- Private nodes at all positions of a list are at least as many as its entries. -/
theorem length_ge {a : N} {ps : List N} {P : List (List I)} (hP : P.Nodup)
    (h : ∀ π ∈ P, ∃ p ∈ ps, own p = some (a, π)) : P.length ≤ ps.length := by
  have hmap : (P.map fun π => some (a, π)).Nodup := hP.map fun _ _ he => by simpa using he
  have hsub : (P.map fun π => some (a, π)) ⊆ ps.map own := by
    intro x hx
    obtain ⟨π, hπ, rfl⟩ := List.mem_map.mp hx
    obtain ⟨p, hp, ho⟩ := h π hπ
    exact List.mem_map.mpr ⟨p, hp, ho⟩
  simpa using (List.subperm_of_subset hmap hsub).length_le

/-- The invariant reads private and base nodes only. -/
theorem congr (ho : Overlay S D slot node base own)
    (h : ∀ p a π i, own p = some (a, π) → slot' p i = slot p i) :
    Overlay S D slot' node base own where
  valid := ho.valid
  depth := ho.depth
  root := ho.root
  linked hp := by
    obtain ⟨q, hq, hl⟩ := ho.linked hp
    exact ⟨q, hq, (h q _ _ _ hq).trans hl⟩
  slots {p a π} hp hd i := by
    rw [h p a π i hp]
    exact ho.slots hp hd i
  base_free := ho.base_free

/-- Writing one slot of a leaf node keeps the structure. -/
theorem write_leaf (ho : Overlay S D slot node base own) {p a : N} {π : List I} {i : I}
    (hp : own p = some (a, π)) (hd : π.length = D)
    (hs : ∀ q j, S.valid q → (q ≠ p ∨ j ≠ i) → slot' q j = slot q j) :
    Overlay S D slot' node base own where
  valid := ho.valid
  depth := ho.depth
  root := ho.root
  linked {r b ρ j} hr := by
    obtain ⟨q, hq, hl⟩ := ho.linked hr
    refine ⟨q, hq, (hs q j (ho.valid hq) ?_).trans hl⟩
    left
    rintro rfl
    have hρ := ho.depth hr
    rw [hq] at hp
    obtain ⟨rfl, rfl⟩ := Prod.mk.inj (Option.some.inj hp)
    simp only [List.length_append, List.length_cons, List.length_nil] at hρ
    omega
  slots {r b ρ} hr hρ j := by
    have hne : r ≠ p := by
      rintro rfl
      rw [hr] at hp
      obtain ⟨rfl, rfl⟩ := Prod.mk.inj (Option.some.inj hp)
      omega
    rw [hs r j (ho.valid hr) (.inl hne)]
    exact ho.slots hr hρ j
  base_free := ho.base_free

section Extend

variable [DecidableEq N]

/-- Place the fresh node `q` at slot `i` of the private node `p`. The slot was
shared, and `q` starts with what the base has at the new position. -/
theorem extend (ho : Overlay S D slot node base own) (hb : Base S D slot node base)
    {p a q : N} {π : List I} {i : I} (hp : own p = some (a, π)) (hd : π.length < D)
    (hshared : slot p i = base π i) (hq : own q = none) (hvalid : S.valid q)
    (hbase : ∀ ρ, ρ.length ≤ D → node ρ ≠ some q)
    (hlink : slot' p i = S.link q) (hnew : ∀ j, slot' q j = base (π ++ [i]) j)
    (hframe : ∀ r j, S.valid r → r ≠ q → (r ≠ p ∨ j ≠ i) → slot' r j = slot r j) :
    Overlay S D slot' node base (Function.update own q (some (a, π ++ [i]))) := by
  have hpq : p ≠ q := by
    rintro rfl
    rw [hq] at hp
    cases hp
  have hold {r : N} {b : N} {ρ : List I} (hr : own r = some (b, ρ)) :
      Function.update own q (some (a, π ++ [i])) r = some (b, ρ) := by
    have hne : r ≠ q := by
      rintro rfl
      rw [hq] at hr
      cases hr
    simpa [Function.update_of_ne hne] using hr
  have hinv {r b : N} {ρ : List I}
      (hr : Function.update own q (some (a, π ++ [i])) r = some (b, ρ)) :
      (r = q ∧ b = a ∧ ρ = π ++ [i]) ∨ (r ≠ q ∧ own r = some (b, ρ)) := by
    by_cases hrq : r = q
    · subst r
      rw [Function.update_self] at hr
      obtain ⟨rfl, rfl⟩ := Prod.mk.inj (Option.some.inj hr)
      exact .inl ⟨rfl, rfl, rfl⟩
    · rw [Function.update_of_ne hrq] at hr
      exact .inr ⟨hrq, hr⟩
  refine ⟨?_, ?_, ?_, ?_, ?_, ?_⟩
  · intro r b ρ hr
    rcases hinv hr with ⟨rfl, _, _⟩ | ⟨_, hr⟩
    · exact hvalid
    · exact ho.valid hr
  · intro r b ρ hr
    rcases hinv hr with ⟨_, _, rfl⟩ | ⟨_, hr⟩
    · simp only [List.length_append, List.length_cons, List.length_nil]; omega
    · exact ho.depth hr
  · intro r b hr
    rcases hinv hr with ⟨_, _, he⟩ | ⟨_, hr⟩
    · simp at he
    · exact ho.root hr
  · intro r b ρ j hr
    rcases hinv hr with ⟨rfl, rfl, he⟩ | ⟨hrq, hro⟩
    · obtain ⟨rfl, he⟩ := List.append_inj' he rfl
      obtain rfl : j = i := by simpa using he
      exact ⟨p, hold hp, hlink⟩
    · obtain ⟨s, hs, hl⟩ := ho.linked hro
      have hsq : s ≠ q := by
        rintro rfl
        rw [hq] at hs
        cases hs
      have hrv := ho.valid hro
      refine ⟨s, hold hs, (hframe s j (ho.valid hs) hsq ?_).trans hl⟩
      -- the written slot was shared, so it cannot be the link of a private node
      by_contra hcon
      obtain ⟨rfl, rfl⟩ : s = p ∧ j = i := by simpa [not_or] using hcon
      have hnext : S.next (base π j) = some r := by
        rw [← hshared, hl, S.next_link r hrv]
      rw [ho.shared_next hb hd hnext] at hro
      cases hro
  · intro r b ρ hr hρ j
    rcases hinv hr with ⟨rfl, rfl, rfl⟩ | ⟨hrq, hro⟩
    · exact .inl (hnew j)
    · by_cases hw : r = p ∧ j = i
      · obtain ⟨rfl, rfl⟩ := hw
        rw [hp] at hro
        obtain ⟨rfl, rfl⟩ := Prod.mk.inj (Option.some.inj hro)
        exact .inr ⟨q, by simp, hlink⟩
      · rw [hframe r j (ho.valid hro) hrq (by by_contra hcon; exact hw (by simpa [not_or] using hcon))]
        rcases ho.slots hro hρ j with h | ⟨s, hs, hl⟩
        · exact .inl h
        · exact .inr ⟨s, hold hs, hl⟩
  · intro ρ r hρ hr
    have hrq : r ≠ q := by
      rintro rfl
      exact hbase ρ hρ hr
    rw [Function.update_of_ne hrq]
    exact ho.base_free hρ hr

/-- Start a new overlay whose root copies the base root. -/
theorem create (ho : Overlay S D slot node base own) {q : N}
    (hq : own q = none) (hvalid : S.valid q) (hbase : ∀ ρ, ρ.length ≤ D → node ρ ≠ some q)
    (hnew : ∀ j, slot' q j = base [] j)
    (hframe : ∀ r j, S.valid r → r ≠ q → slot' r j = slot r j) :
    Overlay S D slot' node base (Function.update own q (some (q, []))) := by
  have hne {r : N} {b : N} {ρ : List I} (hr : own r = some (b, ρ)) : r ≠ q := by
    rintro rfl
    rw [hq] at hr
    cases hr
  have hinv {r b : N} {ρ : List I} (hr : Function.update own q (some (q, [])) r = some (b, ρ)) :
      (r = q ∧ b = q ∧ ρ = []) ∨ own r = some (b, ρ) := by
    by_cases hrq : r = q
    · subst r
      rw [Function.update_self] at hr
      obtain ⟨rfl, rfl⟩ := Prod.mk.inj (Option.some.inj hr)
      exact .inl ⟨rfl, rfl, rfl⟩
    · rw [Function.update_of_ne hrq] at hr
      exact .inr hr
  refine ⟨?_, ?_, ?_, ?_, ?_, ?_⟩
  · intro r b ρ hr
    rcases hinv hr with ⟨rfl, _, _⟩ | hr
    · exact hvalid
    · exact ho.valid hr
  · intro r b ρ hr
    rcases hinv hr with ⟨_, _, rfl⟩ | hr
    · simp
    · exact ho.depth hr
  · intro r b hr
    rcases hinv hr with ⟨rfl, rfl, _⟩ | hr
    · rfl
    · exact ho.root hr
  · intro r b ρ j hr
    rcases hinv hr with ⟨_, _, he⟩ | hr
    · simp at he
    · obtain ⟨s, hs, hl⟩ := ho.linked hr
      exact ⟨s, by rwa [Function.update_of_ne (hne hs)], (hframe s j (ho.valid hs) (hne hs)).trans hl⟩
  · intro r b ρ hr hρ j
    rcases hinv hr with ⟨rfl, rfl, rfl⟩ | hr
    · exact .inl (hnew j)
    · rw [hframe r j (ho.valid hr) (hne hr)]
      rcases ho.slots hr hρ j with h | ⟨s, hs, hl⟩
      · exact .inl h
      · exact .inr ⟨s, by rwa [Function.update_of_ne (hne hs)], hl⟩
  · intro ρ r hρ hr
    have hrq : r ≠ q := by
      rintro rfl
      exact hbase ρ hρ hr
    rw [Function.update_of_ne hrq]
    exact ho.base_free hρ hr

/-- Forget every private node of the overlay rooted at `a`. -/
def dropSpace (own : N → Option (N × List I)) (a : N) : N → Option (N × List I) := fun p =>
  match own p with
  | some (b, π) => if b = a then none else some (b, π)
  | none => none

theorem dropSpace_eq_some {own : N → Option (N × List I)} {a p b : N} {π : List I} :
    dropSpace own a p = some (b, π) ↔ own p = some (b, π) ∧ b ≠ a := by
  unfold dropSpace
  cases h : own p with
  | none => simp
  | some v =>
    obtain ⟨c, ρ⟩ := v
    by_cases hc : c = a
    · simp only [hc, if_true]
      constructor
      · intro he; cases he
      · rintro ⟨he, hb⟩
        exact absurd (Prod.mk.inj (Option.some.inj he)).1.symm hb
    · simp only [if_neg hc]
      constructor
      · intro he
        obtain ⟨rfl, rfl⟩ := Prod.mk.inj (Option.some.inj he)
        exact ⟨rfl, hc⟩
      · exact fun he => he.1

/-- Releasing one overlay leaves the others intact. -/
theorem release (ho : Overlay S D slot node base own) (a : N)
    (hframe : ∀ r b ρ j, own r = some (b, ρ) → b ≠ a → slot' r j = slot r j) :
    Overlay S D slot' node base (dropSpace own a) where
  valid hp := ho.valid (dropSpace_eq_some.mp hp).1
  depth hp := ho.depth (dropSpace_eq_some.mp hp).1
  root hp := ho.root (dropSpace_eq_some.mp hp).1
  linked hp := by
    obtain ⟨hp, hb⟩ := dropSpace_eq_some.mp hp
    obtain ⟨q, hq, hl⟩ := ho.linked hp
    exact ⟨q, dropSpace_eq_some.mpr ⟨hq, hb⟩, (hframe q _ _ _ hq hb).trans hl⟩
  slots {p b π} hp hd i := by
    obtain ⟨hp, hb⟩ := dropSpace_eq_some.mp hp
    rw [hframe p b π i hp hb]
    rcases ho.slots hp hd i with h | ⟨q, hq, hl⟩
    · exact .inl h
    · exact .inr ⟨q, dropSpace_eq_some.mpr ⟨hq, hb⟩, hl⟩
  base_free hd hn := by
    simp [dropSpace, ho.base_free hd hn]

end Extend

end Overlay

end SharedTrie
