import Platinum.PagingInvariant

/-!
# Mapping user pages

Each level of `ensure_private_user_path` and of `map_page_4k` is one step that
either keeps the tables or takes one page; chained over the three levels they
leave every position on the path private. Only then is the page-table entry
written, so the kernel's tables and the other address spaces never change.
-/
namespace Platinum
open ByteMemory WordArith SharedTrie

/-- The space `a` has its own table at position `π`. -/
def Private (own : Owner) (a : Word) (π : Path) : Prop := ∃ q, own q = some (a, π)

/-- Every position on the path is private or absent from the kernel's tables. -/
def Cleared (K : KernelTables) (own : Owner) (a : Word) (path : Path) : Prop :=
  ∀ ρ i, ρ ++ [i] <+: path → Private own a (ρ ++ [i]) ∨ K.base ρ i = 0#64

section Levels

variable {K : KernelTables} {own own' : Owner} {s s' : Phys} {l l' : List Word} {a t q : Word}
  {π path : Path} {i : Index}

lemma Extends.private_mono (hinv : PagingInv K own s l) (h : Extends K a path s own l s' own' l')
    {b : Word} {ρ : Path} (hp : Private own b ρ) : Private own' b ρ := by
  obtain ⟨p, hp⟩ := hp
  exact ⟨p, h.keep hinv hp⟩

lemma PagingInv.present_iff (h : PagingInv K own s l) (ht : own t = some (a, π))
    (hd : π.length < 3) :
    Present (slot s.mem t i) ↔ Private own a (π ++ [i]) ∨ K.base π i ≠ 0#64 := by
  by_cases hp : Private own a (π ++ [i])
  · obtain ⟨q, hq⟩ := hp
    rw [h.slot_private ht hq]
    exact ⟨fun _ => .inl ⟨q, hq⟩, fun _ => present_tableEntry (h.own_page hq) true⟩
  · rw [h.slot_shared ht hd fun q hq => hp ⟨q, hq⟩]
    rcases K.entryAddress_base hd (i := i) with ⟨h0, _⟩ | ⟨q, hq, hb, _⟩
    · simp [h0, hp]
    · refine ⟨fun hpr => .inr fun h0 => ?_, fun _ => hb ▸ present_tableEntry hq false⟩
      rw [h0] at hpr
      exact not_present_zero hpr

/-- What a private entry leads to. -/
lemma PagingInv.entryTable_private (h : PagingInv K own s l) (ht : own t = some (a, π))
    (hq : own q = some (a, π ++ [i])) : entryTable (slot s.mem t i) = q := by
  rw [h.slot_private ht hq]
  exact entryAddress_tableEntry (h.own_page hq) true

/-- The user bit of a private entry is set already. -/
lemma PagingInv.setUser_private (h : PagingInv K own s l) (ht : own t = some (a, π))
    (hq : own q = some (a, π ++ [i])) :
    setSlot s.mem t i (slot s.mem t i ||| pagingUser) = s.mem := by
  have he : slot s.mem t i ||| pagingUser = slot s.mem t i := by
    rw [h.slot_private ht hq, tableEntry_or_user]
  rw [he, setSlot_slot]

/-- A private entry never points at the kernel's table for the position. -/
lemma PagingInv.private_ne_kernel (h : PagingInv K own s l) (ht : own t = some (a, π))
    (hd : π.length < 3) (hq : own q = some (a, π ++ [i])) :
    entryAddress (slot s.mem t i) ≠ entryAddress (K.base π i) := by
  have hqp := h.own_page hq
  rw [h.slot_private ht hq, entryAddress_tableEntry hqp]
  rcases K.entryAddress_base hd (i := i) with ⟨h0, _⟩ | ⟨q₀, hq₀, hb, hn⟩
  · rw [h0]
    exact fun he => hqp.ne_zero (he.trans (by decide))
  · rw [hb, entryAddress_tableEntry hq₀]
    rintro rfl
    exact h.own_not_kernel hq ⟨π ++ [i], by simp; omega, hn⟩

/-- An entry that shows the kernel's table is given a copy of it. -/
lemma privatizeEntry_shared {clone kernelEntry : Word} {s₁ : Phys} (hsame : slot s.mem t i = kernelEntry)
    (hpres : Present kernelEntry) (hcopy : copyTable s (entryTable kernelEntry) = (clone, s₁)) :
    privatizeEntry s t i kernelEntry =
      if clone = 0#64 then (false, s₁)
      else (true, { s₁ with mem := setSlot s₁.mem t i (clone ||| pagingFlagsTable ||| pagingUser) }) := by
  unfold privatizeEntry
  rw [hsame, if_pos ⟨hpres, rfl⟩, hcopy]

/-- Below an absent entry there is a new table. -/
lemma getOrCreateNext_absent {next flags : Word} {s₁ : Phys} (habs : ¬ Present (slot s.mem t i))
    (hnext : allocTable s = (next, s₁)) :
    getOrCreateNext s t i flags =
      if next = 0#64 then (0#64, s₁)
      else (next, { s₁ with
        mem := setSlot s₁.mem t i (next ||| pagingFlagsTable ||| (flags &&& pagingUser)) }) := by
  unfold getOrCreateNext
  rw [if_neg habs, hnext]

/-- One level of `ensure_private_user_path`: it fails only for want of a page. -/
theorem privatizeEntry_spec (path : Path) (i : Index) (h : PagingInv K own s l)
    (ht : own t = some (a, π)) (hd : π.length < 3) (hpath : π ++ [i] <+: path) :
    (∃ s' own' l', privatizeEntry s t i (K.base π i) = (true, s') ∧
      Extends K a path s own l s' own' l' ∧
      (Private own' a (π ++ [i]) ∨ K.base π i = 0#64)) ∨
    (privatizeEntry s t i (K.base π i) = (false, s) ∧ l = [] ∧ ¬ Private own a (π ++ [i])) := by
  by_cases hp : Private own a (π ++ [i])
  · obtain ⟨q, hq⟩ := hp
    refine .inl ⟨s, own, l, ?_, Extends.refl h, .inl ⟨q, hq⟩⟩
    have hpres : Present (slot s.mem t i) := (h.present_iff ht hd).mpr (.inl ⟨q, hq⟩)
    simp only [privatizeEntry, h.private_ne_kernel ht hd hq, and_false, if_false, hpres, if_true,
      h.setUser_private ht hq]
  · have hsh := h.slot_shared ht hd fun q hq => hp ⟨q, hq⟩
    rcases K.entryAddress_base hd (i := i) with ⟨h0, _⟩ | ⟨q₀, hq₀, hb, hn⟩
    · refine .inl ⟨s, own, l, ?_, Extends.refl h, .inr h0⟩
      have habs : ¬ Present (slot s.mem t i) := by
        rw [hsh, h0]
        exact not_present_zero
      simp only [privatizeEntry, habs, false_and, if_false]
    · have hpres : Present (K.base π i) := hb ▸ present_tableEntry hq₀ false
      have hsrc : entryTable (K.base π i) = q₀ := hb ▸ entryAddress_tableEntry hq₀ false
      have hlen : (π ++ [i]).length ≤ 3 := by simp; omega
      cases l with
      | nil =>
        refine .inr ⟨?_, rfl, hp⟩
        rw [privatizeEntry_shared hsh hpres (copyTable_nil _ h.free), if_pos rfl]
      | cons q l =>
        have hqp : IsPage q := h.free.pages q (by simp)
        have hqk : ¬ K.IsTable q := h.free_kernel q (by simp)
        have hne : q₀ ≠ q := by
          rintro rfl
          exact hqk ⟨π ++ [i], hlen, hn⟩
        obtain ⟨s₁, hs₁, hl₁, hc₁, hcopy, hg₁⟩ := copyTable_cons h.free hq₀.aligned hne
        refine .inl ⟨{ s₁ with mem := setSlot s₁.mem t i (tableEntry true q) },
          Function.update own q (some (a, π ++ [i])), l, ?_, ?_,
          .inl ⟨q, Function.update_self _ _ _⟩⟩
        · rw [privatizeEntry_shared hsh hpres (hsrc ▸ hs₁), if_neg hqp.ne_zero]
          rfl
        · refine extends_of_link h ht hd hpath (fun p hp' => hp ⟨p, hp'⟩) hl₁ hg₁ hc₁ fun j => ?_
          rw [hcopy j]
          exact h.kernel _ _ j hlen hn

/-- One level of `map_page_4k` with the user flag, at a cleared position. -/
theorem getOrCreateNext_spec (path : Path) (i : Index) (h : PagingInv K own s l)
    (ht : own t = some (a, π)) (hd : π.length < 3) (hpath : π ++ [i] <+: path) {flags : Word}
    (hflags : flags &&& pagingUser = pagingUser)
    (hclear : Private own a (π ++ [i]) ∨ K.base π i = 0#64) :
    (∃ q s' own' l', getOrCreateNext s t i flags = (q, s') ∧
      Extends K a path s own l s' own' l' ∧ own' q = some (a, π ++ [i])) ∨
    (getOrCreateNext s t i flags = (0#64, s) ∧ l = [] ∧ ¬ Private own a (π ++ [i])) := by
  by_cases hp : Private own a (π ++ [i])
  · obtain ⟨q, hq⟩ := hp
    refine .inl ⟨q, s, own, l, ?_, Extends.refl h, hq⟩
    have hpres : Present (slot s.mem t i) := (h.present_iff ht hd).mpr (.inl ⟨q, hq⟩)
    have huser : pagingUser ≠ 0#64 := by decide
    simp only [getOrCreateNext, hpres, if_true, hflags, ne_eq, huser, not_false_eq_true,
      h.setUser_private ht hq, h.entryTable_private ht hq]
  · have h0 : K.base π i = 0#64 := hclear.resolve_left hp
    have hsh := h.slot_shared ht hd fun q hq => hp ⟨q, hq⟩
    have habs : ¬ Present (slot s.mem t i) := by
      rw [hsh, h0]
      exact not_present_zero
    have hlen : (π ++ [i]).length ≤ 3 := by simp; omega
    cases l with
    | nil =>
      refine .inr ⟨?_, rfl, hp⟩
      rw [getOrCreateNext_absent habs (allocTable_nil h.free), if_pos rfl]
    | cons q l =>
      have hqp : IsPage q := h.free.pages q (by simp)
      obtain ⟨s₁, hs₁, hl₁, hc₁, hzero, hg₁⟩ := allocTable_cons h.free
      refine .inl ⟨q, { s₁ with mem := setSlot s₁.mem t i (tableEntry true q) },
        Function.update own q (some (a, π ++ [i])), l, ?_, ?_, Function.update_self _ _ _⟩
      · rw [getOrCreateNext_absent habs hs₁, if_neg hqp.ne_zero, hflags]
        rfl
      · refine extends_of_link h ht hd hpath (fun p hp' => hp ⟨p, hp'⟩) hl₁ hg₁ hc₁ fun j => ?_
        -- the kernel has no table below an absent entry
        rw [hzero j, K.base_absent _ j hlen]
        rw [K.node_step π i hd, h0, nextTable_zero]

end Levels

section Path

variable {K : KernelTables} {own own' : Owner} {s s' : Phys} {l l' : List Word} {a v p : Word}

lemma Cleared.mono {path : Path} (hinv : PagingInv K own s l)
    (h : Extends K a path s own l s' own' l') (hc : Cleared K own a path) :
    Cleared K own' a path := by
  intro ρ i hρ
  exact (hc ρ i hρ).imp_left (h.private_mono hinv)

/-- The kernel entry below a kernel entry, as `ensure_private_user_path` reads it. -/
lemma PagingInv.kernelEntry_below (h : PagingInv K own s l) {π : Path} (hd : π.length < 3)
    (i j : Index) :
    (if (if Present (K.base π i) then entryTable (K.base π i) else 0#64) = 0#64 then 0#64
      else slot s.mem (if Present (K.base π i) then entryTable (K.base π i) else 0#64) j) =
      K.base (π ++ [i]) j := by
  have hlen : (π ++ [i]).length ≤ 3 := by simp; omega
  rcases K.entryAddress_base hd (i := i) with ⟨h0, hn⟩ | ⟨q, hq, hb, hn⟩
  · rw [h0, K.base_absent _ j hlen hn]
    simp
  · have ht : entryTable (tableEntry false q) = q := entryAddress_tableEntry hq false
    simp only [hb, present_tableEntry hq false, if_true, ht, hq.ne_zero, if_false]
    exact h.kernel _ _ j hlen hn

/-- The three positions of a path below the root. -/
lemma snoc_prefix_userPath {ρ : Path} {i : Index} (h : ρ ++ [i] <+: userPath v) :
    (ρ = [] ∧ i = pml4Index v) ∨ (ρ = [pml4Index v] ∧ i = pdptIndex v) ∨
      (ρ = [pml4Index v, pdptIndex v] ∧ i = pdIndex v) := by
  rw [userPath] at h
  rcases ρ with _ | ⟨x, _ | ⟨y, _ | ⟨z, ρ⟩⟩⟩ <;> simp_all

lemma cleared_userPath {own : Owner} (h₁ : Private own a [pml4Index v])
    (h₂ : Private own a [pml4Index v, pdptIndex v] ∨ K.base [pml4Index v] (pdptIndex v) = 0#64)
    (h₃ : Private own a (userPath v) ∨ K.base [pml4Index v, pdptIndex v] (pdIndex v) = 0#64) :
    Cleared K own a (userPath v) := by
  intro ρ i hρ
  rcases snoc_prefix_userPath hρ with ⟨rfl, rfl⟩ | ⟨rfl, rfl⟩ | ⟨rfl, rfl⟩
  · exact .inl h₁
  · exact h₂
  · exact h₃

/-- Without a table at a prefix there is none at the end of the path. -/
lemma not_private_of_prefix (h : PagingInv K own s l) {π ρ : Path} (hp : ¬ Private own a π) :
    ¬ Private own a (π ++ ρ) := fun ⟨_, hq⟩ => hp (h.tables.prefix_own hq)

/-- `ensure_private_user_path` clears the path or runs out of pages on it. -/
theorem ensurePrivateUserPath_spec (h : PagingInv K own s l) (ha : own a = some (a, []))
    (hv : K.base [] (pml4Index v) ≠ 0#64) :
    (∃ s' own' l', ensurePrivateUserPath s a v = (true, s') ∧
      Extends K a (userPath v) s own l s' own' l' ∧ Cleared K own' a (userPath v)) ∨
    (∃ s' own', ensurePrivateUserPath s a v = (false, s') ∧
      Extends K a (userPath v) s own l s' own' [] ∧ ¬ Private own' a (userPath v)) := by
  have hk : slot s.mem s.pagingKernelPml4 (pml4Index v) = K.base [] (pml4Index v) := by
    rw [h.root]
    exact h.kernel [] K.root _ (by simp) K.node_root
  unfold ensurePrivateUserPath
  simp only [hk]
  rcases privatizeEntry_spec (userPath v) (pml4Index v) h ha (by simp)
      (by simp [userPath]) with ⟨s₁, own₁, l₁, hrun₁, h₁, hp₁⟩ | ⟨hrun₁, rfl, hp₁⟩
  swap
  · rw [hrun₁]
    exact .inr ⟨s, own, rfl, Extends.refl h, not_private_of_prefix h (ρ := [_, _]) hp₁⟩
  obtain ⟨pdpt, hpdpt⟩ := hp₁.resolve_right hv
  have ha₁ := h₁.keep h ha
  simp only [hrun₁, h₁.inv.entryTable_private ha₁ hpdpt,
    h₁.inv.kernelEntry_below (π := []) (by simp) (pml4Index v) (pdptIndex v), List.nil_append]
  rcases privatizeEntry_spec (userPath v) (pdptIndex v) h₁.inv hpdpt (by simp)
      (by simp [userPath]) with ⟨s₂, own₂, l₂, hrun₂, h₂, hp₂⟩ | ⟨hrun₂, rfl, hp₂⟩
  swap
  · simp only [List.nil_append] at hrun₂
    rw [hrun₂]
    exact .inr ⟨s₁, own₁, rfl, h₁, not_private_of_prefix h₁.inv (ρ := [_]) hp₂⟩
  have hpdpt₂ := h₂.keep h₁.inv hpdpt
  have h₁₂ := h₁.trans h h₂
  simp only [List.nil_append] at hrun₂
  simp only [hrun₂]
  by_cases hp : Private own₂ a ([] ++ [pml4Index v] ++ [pdptIndex v])
  swap
  · have hpres : ¬ Present (slot s₂.mem pdpt (pdptIndex v)) := by
      rw [h₂.inv.present_iff hpdpt₂ (by simp)]
      simp only [hp, hp₂.resolve_left hp, ne_eq, not_true_eq_false, or_self, not_false_eq_true]
    have hn : K.node [pml4Index v, pdptIndex v] = none := by
      have hstep := K.node_step [pml4Index v] (pdptIndex v) (by simp)
      rw [show [pml4Index v] ++ [pdptIndex v] = [pml4Index v, pdptIndex v] from rfl] at hstep
      rw [hstep]
      have h0 := hp₂.resolve_left hp
      rw [List.nil_append] at h0
      rw [h0, nextTable_zero]
    refine .inl ⟨s₂, own₂, l₂, by simp only [hpres, not_false_eq_true, if_true], h₁₂,
      cleared_userPath ⟨pdpt, hpdpt₂⟩ hp₂ (.inr ?_)⟩
    exact K.base_absent _ _ (by simp) hn
  obtain ⟨pd, hpd⟩ := hp
  have hpres : Present (slot s₂.mem pdpt (pdptIndex v)) :=
    (h₂.inv.present_iff hpdpt₂ (by simp)).mpr (.inl ⟨pd, hpd⟩)
  simp only [hpres, not_true_eq_false, if_false, h₂.inv.entryTable_private hpdpt₂ hpd,
    h₂.inv.kernelEntry_below (π := [pml4Index v]) (by simp) (pdptIndex v) (pdIndex v)]
  rcases privatizeEntry_spec (userPath v) (pdIndex v) h₂.inv hpd (by simp)
      (by simp [userPath]) with ⟨s₃, own₃, l₃, hrun₃, h₃, hp₃⟩ | ⟨hrun₃, rfl, hp₃⟩
  · refine .inl ⟨s₃, own₃, l₃, hrun₃, h₁₂.trans h h₃, cleared_userPath ?_ (.inl ?_) hp₃⟩
    · exact ⟨pdpt, h₃.keep h₂.inv hpdpt₂⟩
    · exact ⟨pd, h₃.keep h₂.inv hpd⟩
  · exact .inr ⟨s₂, own₂, hrun₃, h₁₂, hp₃⟩

/-- `map_page_4k` with the user flag reaches the private page table of a cleared
path and writes one entry there. -/
theorem mapPage4k_spec (p flags : Word) (h : PagingInv K own s l) (ha : own a = some (a, []))
    (hc : Cleared K own a (userPath v))
    (hflags : flags &&& pagingUser = pagingUser) :
    (∃ s₁ own' l' pt, mapPage4k s a v p flags =
        (true, { s₁ with mem := setSlot s₁.mem pt (ptIndex v) (p ||| flags) }) ∧
      Extends K a (userPath v) s own l s₁ own' l' ∧ own' pt = some (a, userPath v)) ∨
    (∃ s' own', mapPage4k s a v p flags = (false, s') ∧
      Extends K a (userPath v) s own l s' own' [] ∧ ¬ Private own' a (userPath v)) := by
  unfold mapPage4k
  rcases getOrCreateNext_spec (userPath v) (pml4Index v) h ha (by simp)
      (by simp [userPath]) hflags (hc [] _ (by simp [userPath]))
    with ⟨pdpt, s₁, own₁, l₁, hrun₁, h₁, hpdpt⟩ | ⟨hrun₁, rfl, hp₁⟩
  swap
  · simp only [hrun₁, if_true]
    exact .inr ⟨s, own, rfl, Extends.refl h, not_private_of_prefix h (ρ := [_, _]) hp₁⟩
  have hc₁ := hc.mono h h₁
  simp only [hrun₁, (h₁.inv.own_page hpdpt).ne_zero, if_false]
  rcases getOrCreateNext_spec (userPath v) (pdptIndex v) h₁.inv hpdpt (by simp)
      (by simp [userPath]) hflags (hc₁ _ _ (by simp [userPath]))
    with ⟨pd, s₂, own₂, l₂, hrun₂, h₂, hpd⟩ | ⟨hrun₂, rfl, hp₂⟩
  swap
  · simp only [hrun₂, if_true]
    exact .inr ⟨s₁, own₁, rfl, h₁, not_private_of_prefix h₁.inv (ρ := [_]) hp₂⟩
  have h₁₂ := h₁.trans h h₂
  simp only [hrun₂, (h₂.inv.own_page hpd).ne_zero, if_false]
  rcases getOrCreateNext_spec (userPath v) (pdIndex v) h₂.inv hpd (by simp)
      (by simp [userPath]) hflags (hc₁.mono h₁.inv h₂ _ _ (by simp [userPath]))
    with ⟨pt, s₃, own₃, l₃, hrun₃, h₃, hpt⟩ | ⟨hrun₃, rfl, hp₃⟩
  · simp only [hrun₃, (h₃.inv.own_page hpt).ne_zero, if_false]
    exact .inl ⟨s₃, own₃, l₃, pt, rfl, h₁₂.trans h h₃, hpt⟩
  · simp only [hrun₃, if_true]
    exact .inr ⟨s₂, own₂, rfl, h₁₂, hp₃⟩

end Path

/-- The entry `paging_map_user_page` writes. -/
def userEntry (p : Word) : Word := pageAddress p ||| 7#64

/-- The effect of a successful `paging_map_user_page(a, v, p)`. -/
structure Mapped (K : KernelTables) (a v p : Word) (s : Phys) (own : Owner) (l : List Word)
    (s' : Phys) (own' : Owner) (l' : List Word) : Prop where
  inv : PagingInv K own' s' l'
  globals : SameGlobals s s'
  taken : Taken a (userPath v) own l own' l'
  mem : ChangesOnly {q | ∃ ρ, own' q = some (a, ρ)} s.mem s'.mem
  table : Private own' a (userPath v)
  here : leafEntry s'.mem a (userPath v) (ptIndex v) = userEntry p
  other : ∀ b, own b = some (b, []) → ∀ ρ j, ρ.length = 3 →
    (b = a → ρ = userPath v → j ≠ ptIndex v) → leafEntry s'.mem b ρ j = leafEntry s.mem b ρ j

section Map

variable {K : KernelTables} {own own' : Owner} {s s' : Phys} {l l' : List Word} {a v p : Word}

lemma tableIndex_pageAddress {k : ℕ} (hk : 12 ≤ k) : tableIndex k (pageAddress v) = tableIndex k v := by
  apply Fin.ext
  rw [tableIndex_val, tableIndex_val, pageAddress, toNat_alignDown]
  obtain ⟨n, rfl⟩ := Nat.exists_eq_add_of_le hk
  rw [Nat.pow_add, ← Nat.div_div_eq_div_mul, ← Nat.div_div_eq_div_mul,
    show (2 : ℕ) ^ 12 = 4096 from rfl, Nat.mul_div_cancel _ (by norm_num)]

@[simp] lemma userPath_pageAddress (v : Word) : userPath (pageAddress v) = userPath v := by
  simp [userPath, pml4Index, pdptIndex, pdIndex, tableIndex_pageAddress]

@[simp] lemma ptIndex_pageAddress (v : Word) : ptIndex (pageAddress v) = ptIndex v := by
  simp [ptIndex, tableIndex_pageAddress]

@[simp] lemma pml4Index_pageAddress (v : Word) : pml4Index (pageAddress v) = pml4Index v := by
  simp [pml4Index, tableIndex_pageAddress]

/-- Writing an entry of a private page table changes one leaf. -/
lemma mapped_of_write (hinv : PagingInv K own s l) {s₁ : Phys} {pt : Word}
    (h : Extends K a (userPath v) s own l s₁ own' l') (hpt : own' pt = some (a, userPath v)) :
    Mapped K a v p s own l
      { s₁ with mem := setSlot s₁.mem pt (ptIndex v) (pageAddress p ||| 7#64) } own' l' := by
  have hptp : IsPage pt := h.inv.own_page hpt
  have hset : ∀ r j, IsPage r → (r ≠ pt ∨ j ≠ ptIndex v) →
      slot (setSlot s₁.mem pt (ptIndex v) (pageAddress p ||| 7#64)) r j = slot s₁.mem r j :=
    fun r j hr hj => slot_setSlot_ne _ _ hptp.aligned hr.aligned hj
  have hinv' : PagingInv K own'
      { s₁ with mem := setSlot s₁.mem pt (ptIndex v) (pageAddress p ||| 7#64) } l' := by
    refine ⟨?_, h.inv.root, ?_, h.inv.tables.write_leaf hpt rfl hset, h.inv.free_own,
      h.inv.free_kernel⟩
    · refine h.inv.free.frame rfl (ChangesOnly.setSlot _ (Set.mem_singleton pt) _ _)
        (by simp [hptp.aligned]) ?_
      intro q hq hql
      obtain rfl := Set.mem_singleton_iff.mp hq
      rw [h.inv.free_own q hql] at hpt
      cases hpt
    · intro ρ t j hρ ht
      rw [← h.inv.kernel ρ t j hρ ht]
      refine hset t j (K.node_page ρ t hρ ht) (.inl ?_)
      rintro rfl
      exact h.inv.own_not_kernel hpt ⟨ρ, hρ, ht⟩
  refine ⟨hinv', h.globals.trans ⟨rfl, rfl, rfl, rfl, rfl⟩, h.taken,
    h.mem.trans (ChangesOnly.setSlot _ ?_ _ _), ⟨pt, hpt⟩, ?_, ?_⟩
  · exact ⟨userPath v, hpt⟩
  · rw [leafEntry, hinv'.tables.leaf_private hpt]
    exact slot_setSlot_same _ _ _ _
  · intro b hb ρ j hρ hne
    rw [← h.leaf b hb ρ j hρ]
    have hb' := h.keep hinv hb
    by_cases hq : Private own' b ρ
    · obtain ⟨q, hq⟩ := hq
      rw [leafEntry, leafEntry, hinv'.tables.leaf_private hq, h.inv.tables.leaf_private hq]
      refine hset q j (h.inv.own_page hq) ?_
      by_contra hcon
      obtain ⟨rfl, rfl⟩ : q = pt ∧ j = ptIndex v := by simpa [not_or] using hcon
      rw [hpt] at hq
      obtain ⟨rfl, rfl⟩ := Prod.mk.inj (Option.some.inj hq)
      exact hne rfl rfl rfl
    · have hno : ∀ q, own' q ≠ some (b, ρ) := fun q hq' => hq ⟨q, hq'⟩
      rw [leafEntry, leafEntry, hinv'.tables.leaf_shared hinv'.base hb' (by omega) hno,
        h.inv.tables.leaf_shared h.inv.base hb' (by omega) hno]

/-- The positions below the root on the path of an address. -/
def tablePositions (v : Word) : List Path :=
  [[pml4Index v], [pml4Index v, pdptIndex v], userPath v]

lemma mem_tablePositions {ρ : Path} : ρ ∈ tablePositions v ↔ ρ ≠ [] ∧ ρ <+: userPath v := by
  simp only [tablePositions, List.mem_cons, List.not_mem_nil, or_false, userPath]
  constructor
  · rintro (rfl | rfl | rfl) <;> simp
  · rintro ⟨hne, hρ⟩
    rcases ρ with _ | ⟨x, _ | ⟨y, _ | ⟨z, ρ⟩⟩⟩
    · exact absurd rfl hne
    · exact .inl (by simpa using hρ)
    · exact .inr (.inl (by simpa using hρ))
    · have hlen := hρ.length_le
      cases ρ with
      | nil => exact .inr (.inr (by simpa using hρ))
      | cons w ρ =>
        simp only [List.length_cons, List.length_nil] at hlen
        omega

/-- Running out of pages on a path takes fewer than its three tables. -/
lemma Taken.exhausted (hinv : PagingInv K own s l) {s₁ : Phys} (hinv' : PagingInv K own' s₁ [])
    (h : Taken a (userPath v) own l own' []) (hno : ¬ Private own' a (userPath v)) :
    l.length < 3 := by
  obtain ⟨new, hl, hnew, _⟩ := h
  rw [List.append_nil] at hl
  subst hl
  refine hinv'.tables.length_lt (P := tablePositions v) hinv.free.nodup (a := a) ?_
    (σ := userPath v) (by simp [tablePositions]) fun p hp => hno ⟨p, hp⟩
  intro p hp
  obtain ⟨ρ, hne, hpre, ho⟩ := hnew p hp
  exact ⟨ρ, mem_tablePositions.mpr ⟨hne, hpre⟩, ho⟩

/-- Reaching the end of a path from nothing takes three tables. -/
lemma Taken.length_fresh (hinv : PagingInv K own s l) (hinv' : PagingInv K own' s' l')
    (h : Taken a (userPath v) own l own' l') (htable : Private own' a (userPath v))
    (hfresh : ∀ ρ, ρ ≠ [] → ¬ Private own a ρ) : l.length = l'.length + 3 := by
  obtain ⟨new, hl, hnew, hold⟩ := h
  have hnd : new.Nodup := (List.nodup_append.mp (hl ▸ hinv.free.nodup)).1
  have hle : new.length ≤ (tablePositions v).length := by
    refine hinv'.tables.length_le hnd (a := a) fun q hq => ?_
    obtain ⟨ρ, hne, hpre, ho⟩ := hnew q hq
    exact ⟨ρ, mem_tablePositions.mpr ⟨hne, hpre⟩, ho⟩
  have hge : (tablePositions v).length ≤ new.length := by
    have hnodup : (tablePositions v).Nodup := by simp [tablePositions, userPath]
    have hown : ∀ ρ ∈ tablePositions v, ∃ q ∈ new, own' q = some (a, ρ) := by
      intro ρ hρ
      obtain ⟨hne, σ, hσ⟩ := mem_tablePositions.mp hρ
      obtain ⟨q, hq⟩ := htable
      rw [← hσ] at hq
      obtain ⟨q, hq⟩ := hinv'.tables.prefix_own hq
      refine ⟨q, ?_, hq⟩
      by_contra hn
      exact hfresh ρ hne ⟨q, (hold q hn).symm.trans hq⟩
    exact Overlay.length_ge hnodup hown
  have h3 : (tablePositions v).length = 3 := rfl
  rw [hl, List.length_append]
  omega

/-- On a private path nothing is left to take. -/
lemma Taken.none_of_private (hinv : PagingInv K own s l) (hinv' : PagingInv K own' s' l')
    {path : Path} (h : Taken a path own l own' l') (hpriv : Private own a path) :
    l' = l ∧ own' = own := by
  obtain ⟨new, hl, hnew, hold⟩ := id h
  have hnil : new = [] := by
    rw [List.eq_nil_iff_forall_not_mem]
    intro q hq
    obtain ⟨ρ, hne, ⟨σ, hσ⟩, ho⟩ := hnew q hq
    obtain ⟨r, hr⟩ := hpriv
    rw [← hσ] at hr
    obtain ⟨r, hr⟩ := hinv.tables.prefix_own hr
    have hrq := hinv'.tables.position_unique (h.keep hinv.free_own hr) ho
    subst hrq
    rw [hinv.free_own r (by rw [hl]; simp [hq])] at hr
    cases hr
  subst hnil
  exact ⟨hl.symm, funext fun q => hold q (by simp)⟩

/-- `paging_map_user_page` maps the page, or halts having taken every free page. -/
theorem pagingMapUserPage_run (h : PagingInv K own s l) (ha : own a = some (a, []))
    (hv : K.base [] (pml4Index v) ≠ 0#64) :
    (∃ s' own' l', pagingMapUserPage s a v p = .ok s' ∧ Mapped K a v p s own l s' own' l') ∨
    (pagingMapUserPage s a v p = .error .halt ∧ ∃ s' own',
      Extends K a (userPath v) s own l s' own' [] ∧ ¬ Private own' a (userPath v)) := by
  have hne : a ≠ s.pagingKernelPml4 := by
    rintro rfl
    rw [h.root, h.root_own] at ha
    cases ha
  have hflags : pagingPresent ||| pagingWritable ||| pagingUser = 7#64 := by decide
  unfold pagingMapUserPage
  simp only [ne_eq, hne, not_false_eq_true, if_true, hflags]
  rcases ensurePrivateUserPath_spec h ha (v := pageAddress v) (by simpa using hv)
    with ⟨s₁, own₁, l₁, hrun₁, h₁, hc₁⟩ | ⟨s₁, own₁, hrun₁, h₁, hp₁⟩
  swap
  · rw [hrun₁]
    exact .inr ⟨rfl, s₁, own₁, by simpa using h₁, by simpa using hp₁⟩
  simp only [hrun₁]
  rcases mapPage4k_spec (pageAddress p) 7#64 h₁.inv (h₁.keep h ha) hc₁ (by decide)
    with ⟨s₂, own₂, l₂, pt, hrun₂, h₂, hpt⟩ | ⟨s₂, own₂, hrun₂, h₂, hp₂⟩
  · simp only [hrun₂]
    have h₁₂ := h₁.trans h h₂
    rw [userPath_pageAddress] at h₁₂ hpt
    exact .inl ⟨_, own₂, l₂, rfl, by simpa using mapped_of_write h h₁₂ hpt⟩
  · rw [hrun₂]
    exact .inr ⟨rfl, s₂, own₂, by simpa using h₁.trans h h₂, by simpa using hp₂⟩

/-- The halt happens only when fewer than three pages were free. -/
theorem pagingMapUserPage_spec (h : PagingInv K own s l) (ha : own a = some (a, []))
    (hv : K.base [] (pml4Index v) ≠ 0#64) :
    (∃ s' own' l', pagingMapUserPage s a v p = .ok s' ∧ Mapped K a v p s own l s' own' l') ∨
    (pagingMapUserPage s a v p = .error .halt ∧ l.length < 3 ∧ ¬ Private own a (userPath v)) := by
  rcases pagingMapUserPage_run h ha hv with hok | ⟨hrun, s₁, own₁, hE, hno⟩
  · exact .inl hok
  · exact .inr ⟨hrun, hE.taken.exhausted h hE.inv hno, fun hpriv => hno (hE.private_mono h hpriv)⟩

end Map

/-- The effect of mapping a list of pages whose addresses share the path to one
page table. -/
structure RegionMapped (K : KernelTables) (a : Word) (path : Path) (pairs : List (Word × Word))
    (s : Phys) (own : Owner) (l : List Word) (s' : Phys) (own' : Owner) (l' : List Word) : Prop where
  inv : PagingInv K own' s' l'
  globals : SameGlobals s s'
  taken : Taken a path own l own' l'
  mem : ChangesOnly {q | ∃ ρ, own' q = some (a, ρ)} s.mem s'.mem
  table : pairs ≠ [] → Private own' a path
  here : ∀ v p, (v, p) ∈ pairs → leafEntry s'.mem a path (ptIndex v) = userEntry p
  other : ∀ b, own b = some (b, []) → ∀ ρ j, ρ.length = 3 →
    (b = a → ρ = path → ∀ v p, (v, p) ∈ pairs → j ≠ ptIndex v) →
    leafEntry s'.mem b ρ j = leafEntry s.mem b ρ j

namespace RegionMapped

variable {K : KernelTables} {own own₁ own₂ : Owner} {s s₁ s₂ : Phys} {l l₁ l₂ : List Word}
  {a v p : Word} {path : Path} {pairs pairs' : List (Word × Word)}

theorem nil (h : PagingInv K own s l) : RegionMapped K a path [] s own l s own l :=
  ⟨h, SameGlobals.refl s, Taken.refl, ChangesOnly.refl _ _, by simp, by simp, fun _ _ _ _ _ _ => rfl⟩

theorem of_mapped (h : Mapped K a v p s own l s₁ own₁ l₁) :
    RegionMapped K a (userPath v) [(v, p)] s own l s₁ own₁ l₁ := by
  refine ⟨h.inv, h.globals, h.taken, h.mem, fun _ => h.table, ?_, ?_⟩
  · intro w q hw
    obtain ⟨rfl, rfl⟩ : w = v ∧ q = p := by simpa using hw
    exact h.here
  · intro b hb ρ j hρ hne
    exact h.other b hb ρ j hρ fun hba hpath => hne hba hpath v p (by simp)

/-- Later mappings at other entries keep the earlier ones. -/
theorem append (hinv : PagingInv K own s l) (ha : own a = some (a, [])) (hpath : path.length = 3)
    (h : RegionMapped K a path pairs s own l s₁ own₁ l₁)
    (h' : RegionMapped K a path pairs' s₁ own₁ l₁ s₂ own₂ l₂)
    (hne : ∀ v p w q, (v, p) ∈ pairs → (w, q) ∈ pairs' → ptIndex v ≠ ptIndex w) :
    RegionMapped K a path (pairs ++ pairs') s own l s₂ own₂ l₂ := by
  have hkeep {b : Word} (hb : own b = some (b, [])) : own₁ b = some (b, []) :=
    h.taken.keep hinv.free_own hb
  refine ⟨h'.inv, h.globals.trans h'.globals, h.taken.trans h.inv.free_own h'.taken, ?_, ?_, ?_, ?_⟩
  · refine ChangesOnly.trans (h.mem.mono ?_) h'.mem
    rintro q ⟨ρ, hq⟩
    exact ⟨ρ, h'.taken.keep h.inv.free_own hq⟩
  · intro hnil
    by_cases hp : pairs' = []
    · obtain ⟨q, hq⟩ := h.table (by simpa [hp] using hnil)
      exact ⟨q, h'.taken.keep h.inv.free_own hq⟩
    · exact h'.table hp
  · intro v p hvp
    rcases List.mem_append.mp hvp with hvp | hvp
    · rw [h'.other a (hkeep ha) path _ hpath fun _ _ w q hw => hne v p w q hvp hw, h.here v p hvp]
    · exact h'.here v p hvp
  · intro b hb ρ j hρ hj
    rw [h'.other b (hkeep hb) ρ j hρ fun hba hp w q hw => hj hba hp w q (by simp [hw]),
      h.other b hb ρ j hρ fun hba hp w q hw => hj hba hp w q (by simp [hw])]

/-- The first mappings of a space take three tables. -/
theorem length_fresh (hinv : PagingInv K own s l) (hv : path = userPath v)
    (h : RegionMapped K a path pairs s own l s₁ own₁ l₁) (hne : pairs ≠ [])
    (hfresh : ∀ ρ, ρ ≠ [] → ¬ Private own a ρ) : l.length = l₁.length + 3 := by
  subst hv
  exact h.taken.length_fresh hinv h.inv (h.table hne) hfresh

end RegionMapped

end Platinum
