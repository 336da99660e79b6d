import Platinum.PagingMap

/-!
# Translation read off the leaf

In the kernel's tables and in every user address space the three upper entries
are writable, and they carry the user bit wherever the leaf does. The hardware
rule and the kernel's own lookups are therefore functions of the leaf entry.
-/
namespace Platinum
open ByteMemory WordArith SharedTrie

/-- What the leaf entry alone says about a page. -/
def leafTranslation (e : Word) : Option Translation :=
  if Present e then
    some { frame := entryAddress e
           writable := decide (WritableBit e)
           user := decide (UserBit e) }
  else none

@[simp] lemma leafTranslation_zero : leafTranslation 0#64 = none := by decide

/-- A leaf that holds an aligned address below 2^52 and flags. -/
lemma leafTranslation_flags {q f : Word} (hq : q.toNat % 4096 = 0) (hq' : q.toNat < 2 ^ 52)
    (hf : f.toNat < 4096) :
    leafTranslation (q ||| f) =
      if f.toNat % 2 = 1 then
        some ⟨q, decide (f.toNat / 2 % 2 = 1), decide (f.toNat / 4 % 2 = 1)⟩
      else none := by
  have hn := toNat_or_flags hq hf
  have ha : entryAddress (q ||| f) = q := by
    apply BitVec.eq_of_toNat_eq
    rw [entryAddress, pagingAddressMask, toNat_addressMask, hn]
    omega
  have hp : Present (q ||| f) ↔ f.toNat % 2 = 1 := by rw [present_iff, hn]; omega
  have hw : WritableBit (q ||| f) ↔ f.toNat / 2 % 2 = 1 := by rw [writableBit_iff, hn]; omega
  have hu : UserBit (q ||| f) ↔ f.toNat / 4 % 2 = 1 := by rw [userBit_iff, hn]; omega
  simp only [leafTranslation, hp, ha, hw, hu]

/-- The tables below a root: `At π t` when `t` is the table at position `π`, and
`Usr π` when the link to it carries the user bit. -/
structure Levels (m : Mem) (r : Word) (At : Path → Word → Prop) (Usr : Path → Prop) : Prop where
  top : At [] r
  step : ∀ π t i, π.length < 3 → At π t → slot m t i = 0#64 ∨
    ∃ q u, IsPage q ∧ slot m t i = tableEntry u q ∧ At (π ++ [i]) q ∧ (u = true ↔ Usr (π ++ [i]))
  user : ∀ π t i, π.length = 3 → At π t → UserBit (slot m t i) →
    ∀ ρ, ρ ≠ [] → ρ <+: π → Usr ρ

namespace Levels

variable {m : Mem} {r : Word} {At : Path → Word → Prop} {Usr : Path → Prop}

/-- One upper entry, seen by the trie and by the hardware. -/
lemma next (h : Levels m r At Usr) {π : Path} {t : Word} (i : Index) (hd : π.length < 3)
    (ht : At π t) :
    (¬ Present (slot m t i) ∧ nextTable (slot m t i) = none) ∨
    ∃ q, IsPage q ∧ Present (slot m t i) ∧ entryAddress (slot m t i) = q ∧
      nextTable (slot m t i) = some q ∧ At (π ++ [i]) q ∧ WritableBit (slot m t i) ∧
      (UserBit (slot m t i) ↔ Usr (π ++ [i])) := by
  rcases h.step π t i hd ht with h0 | ⟨q, u, hq, he, hAt, hu⟩
  · rw [h0]
    exact .inl ⟨not_present_zero, nextTable_zero⟩
  · refine .inr ⟨q, hq, ?_⟩
    rw [he, userBit_tableEntry hq]
    exact ⟨present_tableEntry hq u, entryAddress_tableEntry hq u, nextTable_tableEntry hq u, hAt,
      writable_tableEntry hq u, hu⟩

/-- Descending stays among the tables that `At` describes. -/
theorem descend_at (h : Levels m r At Usr) {π : Path} {t : Word} (hd : π.length ≤ 3)
    (hπ : descend userScheme (slot m) r π = some t) : At π t := by
  induction π using List.reverseRecOn generalizing t with
  | nil =>
    obtain rfl := Option.some.inj hπ
    exact h.top
  | append_singleton π i ih =>
    rw [List.length_append, List.length_singleton] at hd
    rw [descend_snoc] at hπ
    obtain ⟨q, hq, hn⟩ := Option.bind_eq_some_iff.mp hπ
    have hs : userScheme.next = nextTable := rfl
    rcases h.next i (by omega) (ih (by omega) hq) with ⟨_, h0⟩ | ⟨q', _, _, _, hn', hAt, _, _⟩
    · rw [hs, h0] at hn
      cases hn
    · rw [hs, hn'] at hn
      exact Option.some.inj hn ▸ hAt

/-- `walk_to_pt` follows the trie. -/
theorem walkToPt_eq (h : Levels m r At Usr) (v : Word) :
    (descend userScheme (slot m) r (userPath v) = none ∧ walkToPt m r v = 0#64) ∨
    ∃ t, IsPage t ∧ At (userPath v) t ∧ descend userScheme (slot m) r (userPath v) = some t ∧
      walkToPt m r v = t := by
  have hs : userScheme.next = nextTable := rfl
  simp only [userPath, descend_cons, descend_nil, hs]
  unfold walkToPt
  rcases h.next (pml4Index v) (by simp) h.top with ⟨hp, hn⟩ | ⟨q₁, hq₁, hp, he, hn, hAt₁, -, -⟩
  · exact .inl ⟨by simp [hn], by simp [hp]⟩
  have he' : entryTable (slot m r (pml4Index v)) = q₁ := he
  simp only [hn, hp, he', not_true_eq_false, if_false, Option.bind_some]
  rcases h.next (pdptIndex v) (by simp) hAt₁ with ⟨hp, hn⟩ | ⟨q₂, hq₂, hp, he, hn, hAt₂, -, -⟩
  · exact .inl ⟨by simp [hn], by simp [hp]⟩
  have he' : entryTable (slot m q₁ (pdptIndex v)) = q₂ := he
  simp only [hn, hp, he', not_true_eq_false, if_false, Option.bind_some]
  rcases h.next (pdIndex v) (by simp) hAt₂ with ⟨hp, hn⟩ | ⟨q₃, hq₃, hp, he, hn, hAt₃, -, -⟩
  · exact .inl ⟨by simp [hn], by simp [hp]⟩
  have he' : entryTable (slot m q₂ (pdIndex v)) = q₃ := he
  exact .inr ⟨q₃, hq₃, hAt₃, by simp [hn], by simp [hp, he']⟩

/-- The hardware rule depends on the leaf entry only. -/
theorem mmuWalk_eq (h : Levels m r At Usr) (v : Word) :
    mmuWalk m r v = leafTranslation (leafEntry m r (userPath v) (ptIndex v)) := by
  have hs : userScheme.next = nextTable := rfl
  have he : userScheme.empty = 0#64 := rfl
  unfold leafEntry leaf
  simp only [userPath, descend_cons, descend_nil, hs, he, mmuWalk, mmuEntries]
  rcases h.next (pml4Index v) (by simp) h.top
    with ⟨hp, hn⟩ | ⟨q₁, hq₁, hp₁, he₁, hn, hAt₁, hw₁, hu₁⟩
  · simp [hn, hp]
  simp only [hn, hp₁, he₁, not_true_eq_false, if_false, Option.bind_some]
  rcases h.next (pdptIndex v) (by simp) hAt₁
    with ⟨hp, hn⟩ | ⟨q₂, hq₂, hp₂, he₂, hn, hAt₂, hw₂, hu₂⟩
  · simp [hn, hp]
  simp only [hn, hp₂, he₂, not_true_eq_false, if_false, Option.bind_some]
  rcases h.next (pdIndex v) (by simp) hAt₂
    with ⟨hp, hn⟩ | ⟨q₃, hq₃, hp₃, he₃, hn, hAt₃, hw₃, hu₃⟩
  · simp [hn, hp]
  simp only [hn, hp₃, he₃, not_true_eq_false, if_false, Option.bind_some, leafTranslation]
  by_cases hp : Present (slot m q₃ (ptIndex v))
  · have hu := h.user [pml4Index v, pdptIndex v, pdIndex v] q₃ (ptIndex v) rfl hAt₃
    have huser : (UserBit (slot m r (pml4Index v)) ∧ UserBit (slot m q₁ (pdptIndex v)) ∧
        UserBit (slot m q₂ (pdIndex v)) ∧ UserBit (slot m q₃ (ptIndex v))) ↔
        UserBit (slot m q₃ (ptIndex v)) := by
      refine ⟨fun hall => hall.2.2.2, fun hb => ⟨?_, ?_, ?_, hb⟩⟩
      · exact hu₁.mpr (hu hb _ (by simp) (by simp))
      · exact hu₂.mpr (hu hb _ (by simp) (by simp))
      · exact hu₃.mpr (hu hb _ (by simp) (by simp))
    simp only [hp, not_true_eq_false, if_false, if_true, Option.map_some, hw₁, hw₂, hw₃, true_and,
      huser]
  · simp [hp]

/-- The mapping check of `paging.c` as a condition on the leaf. -/
theorem pagingMappingMatches_iff (h : Levels m r At Usr) (hr : r ≠ 0#64) (v p : Word)
    (ua : Bool) :
    pagingMappingMatches m r v p ua = true ↔
      Present (leafEntry m r (userPath v) (ptIndex v)) ∧
      entryAddress (leafEntry m r (userPath v) (ptIndex v)) = pageAddress p ∧
      (UserBit (leafEntry m r (userPath v) (ptIndex v)) ↔ ua = true) := by
  have he : userScheme.empty = 0#64 := rfl
  unfold pagingMappingMatches leafEntry leaf
  simp only [hr, if_false]
  rcases h.walkToPt_eq (pageAddress v) with ⟨hd, hw⟩ | ⟨t, ht, -, hd, hw⟩ <;>
    rw [userPath_pageAddress] at hd <;> simp only [hd, hw, if_true, he]
  · simp
  · rw [ptIndex_pageAddress]
    simp only [ht.ne_zero, if_false]
    by_cases hp : Present (slot m t (ptIndex v))
    · have hm : slot m t (ptIndex v) &&& 0x000FFFFFFFFFF000#64 =
          entryAddress (slot m t (ptIndex v)) := rfl
      simp only [hp, not_true_eq_false, if_false, hm, ne_eq, true_and]
      by_cases hf : entryAddress (slot m t (ptIndex v)) = pageAddress p
      · cases ua <;> simp [hf]
      · simp [hf]
    · simp [hp]

end Levels

/-- The kernel's own tables; no link carries the user bit. -/
theorem kernel_levels {K : KernelTables} {m : Mem}
    (hk : ∀ π t i, π.length ≤ 3 → K.node π = some t → slot m t i = K.base π i) :
    Levels m K.root (fun π t => K.node π = some t) (fun _ => False) where
  top := K.node_root
  step π t i hd ht := by
    rw [hk π t i (by omega) ht]
    rcases K.entryAddress_base hd (i := i) with ⟨h0, _⟩ | ⟨q, hq, hb, hn⟩
    · exact .inl h0
    · exact .inr ⟨q, false, hq, hb, hn, by simp⟩
  user π t i hd ht hu := by
    rw [hk π t i (by omega) ht] at hu
    exact absurd hu (K.not_userBit_base π i (by omega))

variable {K : KernelTables} {own : Owner} {s : Phys} {l : List Word} {a : Word}

/-- A user address space: private tables, and the kernel's below the last of them. -/
theorem user_levels (h : PagingInv K own s l) (ha : own a = some (a, [])) :
    Levels s.mem a
      (fun π t => own t = some (a, π) ∨ (¬ Private own a π ∧ K.node π = some t))
      (Private own a) where
  top := .inl ha
  step π t i hd ht := by
    by_cases hp : Private own a (π ++ [i])
    · obtain ⟨q, hq⟩ := hp
      rcases ht with ht | ⟨hno, _⟩
      · exact .inr ⟨q, true, h.own_page hq, h.slot_private ht hq, .inl hq,
          fun _ => ⟨q, hq⟩, fun _ => rfl⟩
      · exact absurd (h.tables.prefix_own hq) hno
    · have he : slot s.mem t i = K.base π i := by
        rcases ht with ht | ⟨_, hn⟩
        · exact h.slot_shared ht hd fun q hq => hp ⟨q, hq⟩
        · exact h.kernel π t i (by omega) hn
      rw [he]
      rcases K.entryAddress_base hd (i := i) with ⟨h0, _⟩ | ⟨q, hq, hb, hn⟩
      · exact .inl h0
      · exact .inr ⟨q, false, hq, hb, .inr ⟨hp, hn⟩, by simp [hp]⟩
  user π t i hd ht hu ρ _ hρ := by
    rcases ht with ht | ⟨_, hn⟩
    · obtain ⟨σ, rfl⟩ := hρ
      exact h.tables.prefix_own ht
    · rw [h.kernel π t i (by omega) hn] at hu
      exact absurd hu (K.not_userBit_base π i (by omega))

/-- The hardware's view of a user address space. -/
theorem PagingInv.mmuWalk_eq (h : PagingInv K own s l) (ha : own a = some (a, [])) (v : Word) :
    mmuWalk s.mem a v = leafTranslation (leafEntry s.mem a (userPath v) (ptIndex v)) :=
  (user_levels h ha).mmuWalk_eq v

theorem PagingInv.kernelWalk_eq (h : PagingInv K own s l) (v : Word) :
    mmuWalk s.mem K.root v = leafTranslation (K.base (userPath v) (ptIndex v)) := by
  rw [(kernel_levels h.kernel).mmuWalk_eq v]
  exact congrArg leafTranslation (h.base.leaf_eq K.node_root (userPath v) (ptIndex v) (by simp))

/-- Below its limit the kernel maps an address to itself for the supervisor. -/
theorem PagingInv.kernel_identity (h : PagingInv K own s l) {v : Word} (hv : v.toNat < 2 ^ 48) :
    mmuWalk s.mem K.root v =
      if v.toNat / 4096 * 4096 < K.limit then some ⟨pageAddress v, true, false⟩ else none := by
  rw [h.kernelWalk_eq, K.leaf_identity hv]
  split_ifs with hl
  · have hal : (pageAddress v).toNat % 4096 = 0 := alignDown_aligned v
    have hlt : (pageAddress v).toNat < 2 ^ 52 := by
      rw [pageAddress, toNat_alignDown]
      omega
    rw [leafTranslation_flags hal hlt (by decide)]
    rfl
  · simp

/-- The entry of a user page lets user mode read and write it. -/
lemma leafTranslation_userEntry {p : Word} (hp : p.toNat < 2 ^ 52) :
    leafTranslation (userEntry p) = some ⟨pageAddress p, true, true⟩ := by
  have hlt : (pageAddress p).toNat < 2 ^ 52 := by
    rw [pageAddress, toNat_alignDown]
    omega
  have hal : (pageAddress p).toNat % 4096 = 0 := alignDown_aligned p
  rw [userEntry, leafTranslation_flags hal hlt (by decide)]
  rfl

end Platinum
