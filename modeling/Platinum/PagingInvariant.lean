import Platinum.Paging
import Platinum.SharedTrie

/-!
# Ownership of page tables

User address spaces are copy-on-write overlays over the kernel's tables. The
ghost map `own` records, for each private table page, the PML4 it belongs to and
its position below that PML4. `PagingInv` ties the map to memory and keeps
private tables, kernel tables and free pages apart.
-/
namespace Platinum
open ByteMemory WordArith SharedTrie

abbrev Path := List Index

/-- The ghost ownership map: page to root and position. -/
abbrev Owner := Word → Option (Word × Path)

def linkFlags (user : Bool) : Word := if user then pagingUser else 0#64

/-- The entry written for a table: `table | paging_flags_table | user`. -/
def tableEntry (user : Bool) (q : Word) : Word := q ||| pagingFlagsTable ||| linkFlags user

def nextTable (e : Word) : Option Word := if Present e then some (entryAddress e) else none

lemma toNat_tableEntry {q : Word} (hq : q.toNat % 4096 = 0) (user : Bool) :
    (tableEntry user q).toNat = q.toNat + (if user then 7 else 3) := by
  cases user <;>
    simp only [tableEntry, linkFlags, pagingFlagsTable, pagingUser, BitVec.or_assoc, if_true,
      Bool.false_eq_true, if_false] <;>
    exact toNat_or_flags hq (by decide)

lemma entryAddress_tableEntry {q : Word} (hq : IsPage q) (user : Bool) :
    entryAddress (tableEntry user q) = q := by
  rw [tableEntry, BitVec.or_assoc]
  exact addressMask_or_flags hq (by cases user <;> decide)

lemma present_iff (e : Word) : Present e ↔ e.toNat % 2 = 1 := and_one_ne_zero e
lemma userBit_iff (e : Word) : UserBit e ↔ e.toNat / 4 % 2 = 1 := and_four_ne_zero e
lemma writableBit_iff (e : Word) : WritableBit e ↔ e.toNat / 2 % 2 = 1 := and_two_ne_zero e

lemma present_tableEntry {q : Word} (hq : IsPage q) (user : Bool) : Present (tableEntry user q) := by
  have ha := hq.aligned
  rw [present_iff, toNat_tableEntry hq.aligned]
  split_ifs <;> omega

lemma writable_tableEntry {q : Word} (hq : IsPage q) (user : Bool) :
    WritableBit (tableEntry user q) := by
  have ha := hq.aligned
  rw [writableBit_iff, toNat_tableEntry hq.aligned]
  split_ifs <;> omega

lemma userBit_tableEntry {q : Word} (hq : IsPage q) (user : Bool) :
    UserBit (tableEntry user q) ↔ user = true := by
  have ha := hq.aligned
  rw [userBit_iff, toNat_tableEntry hq.aligned]
  cases user <;> simp <;> omega

/-- Setting the user bit of an entry that has it changes nothing. -/
lemma tableEntry_or_user (q : Word) : tableEntry true q ||| pagingUser = tableEntry true q := by
  simp [tableEntry, linkFlags, BitVec.or_assoc]

@[simp] lemma not_present_zero : ¬ Present 0#64 := by decide
@[simp] lemma entryAddress_zero : entryAddress 0#64 = 0#64 := by decide
@[simp] lemma nextTable_zero : nextTable 0#64 = none := by decide

lemma nextTable_tableEntry {q : Word} (hq : IsPage q) (user : Bool) :
    nextTable (tableEntry user q) = some q := by
  rw [nextTable, if_pos (present_tableEntry hq user), entryAddress_tableEntry hq]

/-- Page tables as a trie: `user` selects the flags of private links. -/
def tableScheme (user : Bool) : Scheme Word Word where
  next := nextTable
  link := tableEntry user
  empty := 0#64
  valid := IsPage
  next_link _ hq := nextTable_tableEntry hq user
  next_empty := nextTable_zero

abbrev userScheme : Scheme Word Word := tableScheme true

/-- The entry that decides an address, given the path to its page table. -/
abbrev leafEntry (m : Mem) (root : Word) (π : Path) (i : Index) : Word :=
  leaf userScheme (slot m) root π i

/-- The path of indices that leads to the page table of an address. -/
def userPath (v : Word) : Path := [pml4Index v, pdptIndex v, pdIndex v]

@[simp] lemma length_userPath (v : Word) : (userPath v).length = 3 := rfl

/-- The address of the page at a full path. -/
def pathAddress (π : Path) (i : Index) : ℕ :=
  (π.foldl (fun acc (j : Index) => acc * 512 + j.val) 0 * 512 + i.val) * 4096

lemma tableIndex_val (k : ℕ) (v : Word) : (tableIndex k v).val = v.toNat / 2 ^ k % 512 :=
  toNat_index v k

lemma pathAddress_userPath {v : Word} (hv : v.toNat < 2 ^ 48) :
    pathAddress (userPath v) (ptIndex v) = v.toNat / 4096 * 4096 := by
  simp only [pathAddress, userPath, List.foldl_cons, List.foldl_nil, pml4Index, pdptIndex, pdIndex,
    ptIndex, tableIndex_val]
  omega

/-- Addresses with the same indices lie on the same page. -/
lemma page_eq_of_path {v w : Word} (hv : v.toNat < 2 ^ 48) (hw : w.toNat < 2 ^ 48)
    (hp : userPath v = userPath w) (hi : ptIndex v = ptIndex w) :
    v.toNat / 4096 = w.toNat / 4096 := by
  have h := pathAddress_userPath hv
  rw [hp, hi, pathAddress_userPath hw] at h
  omega

/-- The frozen kernel tables: the table at each position and its entries. Below
`limit` memory is identity-mapped for the supervisor, above it is unmapped. -/
structure KernelTables where
  root : Word
  node : Path → Option Word
  base : Path → Index → Word
  limit : ℕ
  limit_le : limit ≤ 2 ^ 32
  node_root : node [] = some root
  node_page : ∀ π t, π.length ≤ 3 → node π = some t → IsPage t
  node_step : ∀ π i, π.length < 3 → node (π ++ [i]) = nextTable (base π i)
  base_absent : ∀ π i, π.length ≤ 3 → node π = none → base π i = 0#64
  base_dir : ∀ π i, π.length < 3 → base π i = 0#64 ∨ ∃ q, IsPage q ∧ base π i = tableEntry false q
  base_leaf : ∀ π i, π.length = 3 → base π i =
    if pathAddress π i < limit then BitVec.ofNat 64 (pathAddress π i) ||| pagingFlagsPage else 0#64

/-- A page that holds one of the kernel's tables. -/
def KernelTables.IsTable (K : KernelTables) (p : Word) : Prop :=
  ∃ π : Path, π.length ≤ 3 ∧ K.node π = some p

namespace KernelTables

variable (K : KernelTables)

lemma entryAddress_base {π : Path} {i : Index} (hd : π.length < 3) :
    (K.base π i = 0#64 ∧ K.node (π ++ [i]) = none) ∨
      ∃ q, IsPage q ∧ K.base π i = tableEntry false q ∧ K.node (π ++ [i]) = some q := by
  rcases K.base_dir π i hd with h | ⟨q, hq, h⟩
  · exact .inl ⟨h, by rw [K.node_step π i hd, h, nextTable_zero]⟩
  · exact .inr ⟨q, hq, h, by rw [K.node_step π i hd, h, nextTable_tableEntry hq]⟩

/-- The kernel gives no entry of its tables the user bit. -/
lemma not_userBit_base (π : Path) (i : Index) (hd : π.length ≤ 3) : ¬ UserBit (K.base π i) := by
  have h0 : ¬ UserBit 0#64 := by decide
  rcases Nat.lt_or_eq_of_le hd with hd | hd
  · rcases K.entryAddress_base hd (i := i) with ⟨h, _⟩ | ⟨q, hq, h, _⟩
    · rw [h]
      exact h0
    · rw [h, userBit_tableEntry hq]
      simp
  · rw [K.base_leaf π i hd]
    split_ifs
    · have hal : (BitVec.ofNat 64 (pathAddress π i)).toNat % 4096 = 0 := by
        rw [BitVec.toNat_ofNat, pathAddress]
        omega
      have h3 : pagingFlagsPage.toNat = 3 := rfl
      rw [userBit_iff, toNat_or_flags hal (by decide), h3]
      omega
    · exact h0

/-- What the kernel's tables say about an address: identity below the limit. -/
lemma leaf_identity {v : Word} (hv : v.toNat < 2 ^ 48) :
    K.base (userPath v) (ptIndex v) =
      if v.toNat / 4096 * 4096 < K.limit then pageAddress v ||| pagingFlagsPage else 0#64 := by
  rw [K.base_leaf _ _ rfl, pathAddress_userPath hv]
  have hp : BitVec.ofNat 64 (v.toNat / 4096 * 4096) = pageAddress v := by
    apply BitVec.eq_of_toNat_eq
    rw [BitVec.toNat_ofNat, pageAddress, toNat_alignDown]
    exact Nat.mod_eq_of_lt (by omega)
  rw [hp]

lemma base_below_absent {π : Path} {i : Index} (hd : π.length < 3) (h : K.base π i = 0#64)
    (j : Index) : K.base (π ++ [i]) j = 0#64 := by
  refine K.base_absent _ j (by simp; omega) ?_
  rw [K.node_step π i hd, h, nextTable_zero]

/-- A kernel that maps anything maps page 0, so its first PML4 slot is present. -/
lemma first_slot_present (hl : 0 < K.limit) : K.base [] 0 ≠ 0#64 := by
  intro h
  have h₁ := K.base_below_absent (by simp) h 0
  have h₂ := K.base_below_absent (by simp) h₁ 0
  have h₃ := K.base_below_absent (by simp) h₂ 0
  rw [K.base_leaf _ _ (by simp), if_pos (show pathAddress ([] ++ [0] ++ [0] ++ [0]) 0 < K.limit from hl)] at h₃
  exact absurd h₃ (by decide)

/-- Addresses below 512 GiB lie in the first PML4 slot. -/
lemma slot_present (hl : 0 < K.limit) {v : Word} (hv : v.toNat < 2 ^ 39) :
    K.base [] (pml4Index v) ≠ 0#64 := by
  have h0 : pml4Index v = 0 := by
    apply Fin.ext
    rw [pml4Index, tableIndex_val]
    show _ = 0
    omega
  rw [h0]
  exact K.first_slot_present hl

lemma isTable_page {p : Word} (h : K.IsTable p) : IsPage p := by
  obtain ⟨π, hd, hn⟩ := h
  exact K.node_page π p hd hn

end KernelTables

/-- `own` describes the private tables in memory, the kernel's tables are
intact, and free pages are none of these. -/
structure PagingInv (K : KernelTables) (own : Owner) (s : Phys) (l : List Word) : Prop where
  free : FreeList s l
  root : s.pagingKernelPml4 = K.root
  kernel : ∀ π t i, π.length ≤ 3 → K.node π = some t → slot s.mem t i = K.base π i
  tables : Overlay userScheme 3 (slot s.mem) K.node K.base own
  free_own : ∀ p ∈ l, own p = none
  free_kernel : ∀ p ∈ l, ¬ K.IsTable p

namespace PagingInv

variable {K : KernelTables} {own : Owner} {s s' : Phys} {l : List Word}

theorem base (h : PagingInv K own s l) : Base userScheme 3 (slot s.mem) K.node K.base where
  here π t i hd hn := h.kernel π t i hd hn
  step π i hd := K.node_step π i hd
  absent π i hd hn := K.base_absent π i hd hn

theorem own_page (h : PagingInv K own s l) {p : Word} {x : Word × Path} (hp : own p = some x) :
    IsPage p := h.tables.valid (a := x.1) (π := x.2) hp

theorem own_not_kernel (h : PagingInv K own s l) {p : Word} {x : Word × Path}
    (hp : own p = some x) : ¬ K.IsTable p := by
  rintro ⟨π, hd, hn⟩
  rw [h.tables.base_free hd hn] at hp
  cases hp

theorem root_own (h : PagingInv K own s l) : own K.root = none :=
  h.tables.base_free (π := []) (by simp) K.node_root

/-- The entry of a private table above a private table links it. -/
theorem slot_private (h : PagingInv K own s l) {a t q : Word} {π : Path} {i : Index}
    (ht : own t = some (a, π)) (hq : own q = some (a, π ++ [i])) :
    slot s.mem t i = tableEntry true q := by
  obtain ⟨t', ht', hl⟩ := h.tables.linked hq
  rwa [← h.tables.position_unique ht ht'] at hl

/-- The entry of a private table above no private table is the kernel's. -/
theorem slot_shared (h : PagingInv K own s l) {a t : Word} {π : Path} {i : Index}
    (ht : own t = some (a, π)) (hd : π.length < 3) (hq : ∀ q, own q ≠ some (a, π ++ [i])) :
    slot s.mem t i = K.base π i := by
  rcases h.tables.slots ht hd i with hs | ⟨q, hq', _⟩
  · exact hs
  · exact absurd hq' (hq q)

/-- Changes away from tables keep the invariant, with any free list that avoids them. -/
theorem reframe (h : PagingInv K own s l) {l' : List Word} (hl : FreeList s' l')
    (hfree : ∀ p ∈ l', own p = none ∧ ¬ K.IsTable p)
    (hk : s'.pagingKernelPml4 = s.pagingKernelPml4) {P : Set Word}
    (hc : ChangesOnly P s.mem s'.mem) (hP : ∀ p ∈ P, p.toNat % 4096 = 0)
    (hown : ∀ p ∈ P, own p = none ∧ ¬ K.IsTable p) : PagingInv K own s' l' where
  free := hl
  root := hk.trans h.root
  kernel π t i hd hn := by
    rw [← h.kernel π t i hd hn]
    exact hc.slot hP (K.node_page π t hd hn).aligned (fun ht => (hown t ht).2 ⟨π, hd, hn⟩) i
  tables := h.tables.congr fun p a π i hp =>
    hc.slot hP (h.own_page hp).aligned (fun hpP => by rw [(hown p hpP).1] at hp; cases hp) i
  free_own p hp := (hfree p hp).1
  free_kernel p hp := (hfree p hp).2

/-- What a space translates to depends on its private tables and the kernel's only. -/
theorem leaf_congr_space {own' : Owner} (h : PagingInv K own s l) {l' : List Word}
    (h' : PagingInv K own' s' l') {b : Word} (hown : ∀ p ρ, own' p = some (b, ρ) ↔ own p = some (b, ρ))
    (hslot : ∀ q ρ j, own q = some (b, ρ) → slot s'.mem q j = slot s.mem q j)
    (hb : own b = some (b, [])) {ρ : Path} (hρ : ρ.length = 3) (j : Index) :
    leaf userScheme (slot s'.mem) b ρ j = leaf userScheme (slot s.mem) b ρ j := by
  by_cases hp : ∃ p, own p = some (b, ρ)
  · obtain ⟨p, hp⟩ := hp
    rw [h.tables.leaf_private hp, h'.tables.leaf_private ((hown p ρ).mpr hp)]
    exact hslot p ρ j hp
  · have hno : ∀ p, own p ≠ some (b, ρ) := fun p hp' => hp ⟨p, hp'⟩
    rw [h.tables.leaf_shared h.base hb (by omega) hno,
      h'.tables.leaf_shared h'.base ((hown b []).mpr hb) (by omega) fun p hp' => hno p ((hown p ρ).mp hp')]

/-- Translations depend on the private tables and the kernel's only. -/
theorem leaf_congr (h : PagingInv K own s l) {l' : List Word} (h' : PagingInv K own s' l')
    (hslot : ∀ q x j, own q = some x → slot s'.mem q j = slot s.mem q j) {b : Word}
    (hb : own b = some (b, [])) {ρ : Path} (hρ : ρ.length = 3) (j : Index) :
    leaf userScheme (slot s'.mem) b ρ j = leaf userScheme (slot s.mem) b ρ j :=
  h.leaf_congr_space h' (fun _ _ => Iff.rfl) (fun q _ i hq => hslot q _ i hq) hb hρ j

end PagingInv

/-- The pages that left the free list are private tables of the space `a` at
positions on `path`; nothing else changed owner. -/
def Taken (a : Word) (path : Path) (own : Owner) (l : List Word) (own' : Owner) (l' : List Word) :
    Prop :=
  ∃ new, l = new ++ l' ∧ (∀ p ∈ new, ∃ ρ, ρ ≠ [] ∧ ρ <+: path ∧ own' p = some (a, ρ)) ∧
    ∀ p, p ∉ new → own' p = own p

namespace Taken

variable {a : Word} {path : Path} {own own₁ own₂ : Owner} {l l₁ l₂ : List Word}

theorem refl : Taken a path own l own l := ⟨[], rfl, by simp, fun _ _ => rfl⟩

/-- Ownership recorded before stays recorded. -/
theorem keep (hfree : ∀ p ∈ l, own p = none) (h : Taken a path own l own₁ l₁) {q : Word}
    {x : Word × Path} (hq : own q = some x) : own₁ q = some x := by
  obtain ⟨new, hl, _, hold⟩ := h
  rw [hold q, hq]
  intro hn
  rw [hfree q (by rw [hl]; simp [hn])] at hq
  cases hq

theorem trans (hfree : ∀ p ∈ l₁, own₁ p = none) (h : Taken a path own l own₁ l₁)
    (h' : Taken a path own₁ l₁ own₂ l₂) : Taken a path own l own₂ l₂ := by
  obtain ⟨new, hl, hnew, hold⟩ := h
  obtain ⟨new', hl', hnew', hold'⟩ := id h'
  refine ⟨new ++ new', by rw [hl, hl', List.append_assoc], ?_, ?_⟩
  · intro p hp
    rcases List.mem_append.mp hp with hp | hp
    · obtain ⟨ρ, hne, hpre, ho⟩ := hnew p hp
      exact ⟨ρ, hne, hpre, h'.keep hfree ho⟩
    · exact hnew' p hp
  · intro p hp
    simp only [List.mem_append, not_or] at hp
    rw [hold' p hp.2, hold p hp.1]

/-- A page of another space was that space's page before. -/
theorem other (h : Taken a path own l own₁ l₁) {q b : Word} {ρ : Path}
    (hq : own₁ q = some (b, ρ)) (hb : b ≠ a) : own q = some (b, ρ) := by
  obtain ⟨new, _, hnew, hold⟩ := h
  by_cases hn : q ∈ new
  · obtain ⟨σ, _, _, ho⟩ := hnew q hn
    rw [ho] at hq
    exact absurd (Prod.mk.inj (Option.some.inj hq)).1.symm hb
  · rw [← hold q hn, hq]

end Taken

/-- `s'` is `s` after taking new private tables for the space `a` at positions
on `path`; no translation has changed. -/
structure Extends (K : KernelTables) (a : Word) (path : Path) (s : Phys) (own : Owner)
    (l : List Word) (s' : Phys) (own' : Owner) (l' : List Word) : Prop where
  inv : PagingInv K own' s' l'
  globals : SameGlobals s s'
  taken : Taken a path own l own' l'
  mem : ChangesOnly {p | ∃ ρ, own' p = some (a, ρ)} s.mem s'.mem
  leaf : ∀ b, own b = some (b, []) → ∀ ρ j, ρ.length = 3 →
    leafEntry s'.mem b ρ j = leafEntry s.mem b ρ j

namespace Extends

variable {K : KernelTables} {a : Word} {path : Path} {s s₁ s₂ : Phys} {own own₁ own₂ : Owner}
  {l l₁ l₂ : List Word}

theorem refl (h : PagingInv K own s l) : Extends K a path s own l s own l :=
  ⟨h, SameGlobals.refl s, Taken.refl, ChangesOnly.refl _ _,
    fun _ _ _ _ _ => rfl⟩

/-- Ownership recorded before stays recorded. -/
theorem keep (hinv : PagingInv K own s l) (h : Extends K a path s own l s₁ own₁ l₁) {p : Word}
    {x : Word × Path} (hp : own p = some x) : own₁ p = some x := h.taken.keep hinv.free_own hp

theorem trans (hinv : PagingInv K own s l) (h : Extends K a path s own l s₁ own₁ l₁)
    (h' : Extends K a path s₁ own₁ l₁ s₂ own₂ l₂) : Extends K a path s own l s₂ own₂ l₂ := by
  refine ⟨h'.inv, h.globals.trans h'.globals, h.taken.trans h.inv.free_own h'.taken, ?_, ?_⟩
  · refine ChangesOnly.trans (h.mem.mono ?_) h'.mem
    rintro p ⟨ρ, hp⟩
    exact ⟨ρ, h'.keep h.inv hp⟩
  · intro b hb ρ j hd
    rw [h'.leaf b (h.keep hinv hb) ρ j hd, h.leaf b hb ρ j hd]

end Extends

section Steps

variable {K : KernelTables} {own : Owner} {s s' : Phys} {l : List Word} {a t q : Word}
  {π path : Path} {i : Index}

/-- Placing the head of the free list, filled with what the kernel has at the
new position, in a shared slot of a private table. -/
theorem extends_of_fresh (h : PagingInv K own s (q :: l)) (ht : own t = some (a, π))
    (hd : π.length < 3) (hpath : π ++ [i] <+: path) (hfree : ∀ p, own p ≠ some (a, π ++ [i]))
    (hl : FreeList s' l) (hg : SameGlobals s s') (hc : ChangesOnly {t, q} s.mem s'.mem)
    (hlink : slot s'.mem t i = tableEntry true q)
    (hother : ∀ j, j ≠ i → slot s'.mem t j = slot s.mem t j)
    (hnew : ∀ j, slot s'.mem q j = K.base (π ++ [i]) j) :
    Extends K a path s own (q :: l) s' (Function.update own q (some (a, π ++ [i]))) l := by
  have hq : own q = none := h.free_own q (by simp)
  have hqp : IsPage q := h.free.pages q (by simp)
  have hqk : ¬ K.IsTable q := h.free_kernel q (by simp)
  have hql : q ∉ l := (List.nodup_cons.mp h.free.nodup).1
  have htp : IsPage t := h.own_page ht
  have haligned : ∀ p ∈ ({t, q} : Set Word), p.toNat % 4096 = 0 := by
    rintro p (rfl | rfl)
    · exact htp.aligned
    · exact hqp.aligned
  have hframe : ∀ r j, IsPage r → r ≠ q → (r ≠ t ∨ j ≠ i) → slot s'.mem r j = slot s.mem r j := by
    intro r j hr hrq hj
    by_cases hrt : r = t
    · subst hrt
      exact hother j (by simpa using hj)
    · exact hc.slot haligned hr.aligned (by simp [hrt, hrq]) j
  have hold {p : Word} (hp : p ≠ q) :
      Function.update own q (some (a, π ++ [i])) p = own p := Function.update_of_ne hp _ _
  have hne {p : Word} {x : Word × Path} (hp : own p = some x) : p ≠ q := by
    rintro rfl
    rw [hq] at hp
    cases hp
  have htables := h.tables.extend h.base ht hd
    (h.slot_shared ht hd hfree) hq hqp (fun ρ hρ hn => hqk ⟨ρ, hρ, hn⟩) hlink hnew hframe
  have hinv : PagingInv K (Function.update own q (some (a, π ++ [i]))) s' l := by
    refine ⟨hl, hg.kernelPml4.trans h.root, ?_, htables, ?_, ?_⟩
    · intro ρ r j hρ hr
      rw [← h.kernel ρ r j hρ hr]
      refine hframe r j (K.node_page ρ r hρ hr) ?_ (.inl ?_)
      · rintro rfl
        exact hqk ⟨ρ, hρ, hr⟩
      · rintro rfl
        exact h.own_not_kernel ht ⟨ρ, hρ, hr⟩
    · intro p hp
      rw [hold (by rintro rfl; exact hql hp)]
      exact h.free_own p (by simp [hp])
    · exact fun p hp => h.free_kernel p (by simp [hp])
  refine ⟨hinv, hg, ⟨[q], rfl, ?_, ?_⟩, hc.mono ?_, ?_⟩
  · intro p hp
    obtain rfl := List.mem_singleton.mp hp
    exact ⟨π ++ [i], by simp, hpath, Function.update_self _ _ _⟩
  · exact fun p hp => hold (by simpa using hp)
  · rintro p (rfl | rfl)
    · exact ⟨π, (hold (hne ht)).trans ht⟩
    · exact ⟨π ++ [i], Function.update_self _ _ _⟩
  · intro b hb ρ j hρ
    by_cases hp : ∃ p, own p = some (b, ρ)
    · obtain ⟨p, hp⟩ := hp
      rw [leafEntry, leafEntry, h.tables.leaf_private hp,
        hinv.tables.leaf_private ((hold (hne hp)).trans hp)]
      refine hframe p j (h.own_page hp) (hne hp) (.inl ?_)
      rintro rfl
      rw [hp] at ht
      obtain ⟨rfl, rfl⟩ := Prod.mk.inj (Option.some.inj ht)
      omega
    · rw [leafEntry, leafEntry, h.tables.leaf_shared h.base hb (by omega) (fun p hp' => hp ⟨p, hp'⟩)]
      by_cases hbq : b = a ∧ ρ = π ++ [i]
      · obtain ⟨rfl, rfl⟩ := hbq
        rw [hinv.tables.leaf_private (Function.update_self q _ own), hnew]
      · refine hinv.tables.leaf_shared hinv.base ((hold (hne hb)).trans hb) (by omega) ?_ j
        intro p hp'
        by_cases hpq : p = q
        · subst hpq
          rw [Function.update_self] at hp'
          obtain ⟨rfl, rfl⟩ := Prod.mk.inj (Option.some.inj hp')
          exact hbq ⟨rfl, rfl⟩
        · exact hp ⟨p, (hold hpq).symm.trans hp'⟩

/-- Linking a fresh page that already holds what the kernel has at the new position. -/
theorem extends_of_link (h : PagingInv K own s (q :: l)) (ht : own t = some (a, π))
    (hd : π.length < 3) (hpath : π ++ [i] <+: path) (hfree : ∀ p, own p ≠ some (a, π ++ [i]))
    (hl : FreeList s' l) (hg : SameGlobals s s') (hc : ChangesOnly {q} s.mem s'.mem)
    (hnew : ∀ j, slot s'.mem q j = K.base (π ++ [i]) j) :
    Extends K a path s own (q :: l) { s' with mem := setSlot s'.mem t i (tableEntry true q) }
      (Function.update own q (some (a, π ++ [i]))) l := by
  have hqp : IsPage q := h.free.pages q (by simp)
  have htp : IsPage t := h.own_page ht
  have htfree : t ∉ q :: l := fun hm => by
    rw [h.free_own t hm] at ht
    cases ht
  have htq : t ≠ q := fun he => htfree (by simp [he])
  have hset : ∀ r j, r.toNat % 4096 = 0 → (r ≠ t ∨ j ≠ i) →
      slot (setSlot s'.mem t i (tableEntry true q)) r j = slot s'.mem r j :=
    fun r j hr hj => slot_setSlot_ne _ _ htp.aligned hr hj
  refine extends_of_fresh h ht hd hpath hfree ?_ (hg.trans ⟨rfl, rfl, rfl, rfl, rfl⟩) ?_
    (slot_setSlot_same _ _ _ _) ?_ ?_
  · exact hl.frame rfl (ChangesOnly.setSlot _ (Set.mem_singleton t) i _) (by simp [htp.aligned])
      (by simpa using fun hm => htfree (by simp [hm]))
  · exact (hc.mono (by simp)).trans (ChangesOnly.setSlot _ (by simp) i _)
  · intro j hj
    rw [hset t j htp.aligned (.inr hj)]
    exact hc.slot (by simp [hqp.aligned]) htp.aligned (by simpa using htq) j
  · intro j
    rw [hset q j hqp.aligned (.inl (Ne.symm htq)), hnew j]

end Steps

end Platinum
