import Platinum.AddressSpace

/-!
# The kernel's tables after boot

`paging_initialize` builds its tables on an empty trie with supervisor links.
The loop maps one page per round; what it leaves behind is a `KernelTables` and
the invariant that later steps start from.
-/
namespace Platinum
open ByteMemory WordArith SharedTrie

abbrev kernelScheme : Scheme Word Word := tableScheme false

/-- The tables built so far below the kernel's PML4 `r`. -/
structure BootTables (r : Word) (own : Owner) (s : Phys) (l : List Word) : Prop where
  free : FreeList s l
  root : own r = some (r, [])
  tables : Overlay kernelScheme 3 (slot s.mem) (fun _ => none) (fun _ _ => 0#64) own
  only : ∀ {p a π}, own p = some (a, π) → a = r
  free_own : ∀ p ∈ l, own p = none

/-- The kernel leaf under construction. -/
abbrev bootLeaf (m : Mem) (r : Word) (π : Path) (i : Index) : Word :=
  leaf kernelScheme (slot m) r π i

/-- `s'` is `s` after taking tables on `path` for the kernel. -/
structure BootExtends (r : Word) (path : Path) (s : Phys) (own : Owner) (l : List Word)
    (s' : Phys) (own' : Owner) (l' : List Word) : Prop where
  inv : BootTables r own' s' l'
  globals : SameGlobals s s'
  taken : Taken r path own l own' l'
  mem : ChangesOnly {p | ∃ ρ, own' p = some (r, ρ)} s.mem s'.mem
  leaf : ∀ ρ j, ρ.length = 3 → bootLeaf s'.mem r ρ j = bootLeaf s.mem r ρ j

section Build

variable {r t q : Word} {own own₁ own₂ : Owner} {s s₁ s₂ s' : Phys} {l l₁ l₂ : List Word}
  {π path : Path} {i : Index}

lemma bootLeaf_some {m : Mem} (h : descend kernelScheme (slot m) r π = some t) :
    bootLeaf m r π i = slot m t i := by
  unfold bootLeaf leaf
  rw [h]

lemma bootLeaf_none {m : Mem} (h : descend kernelScheme (slot m) r π = none) :
    bootLeaf m r π i = 0#64 := by
  unfold bootLeaf leaf
  rw [h]
  rfl

lemma emptyBase (m : Mem) :
    Base kernelScheme 3 (slot m) (fun _ : Path => none) (fun _ _ => 0#64) where
  here _ _ _ _ hn := by cases hn
  step _ _ _ := nextTable_zero.symm
  absent _ _ _ _ := rfl

namespace BootTables

lemma own_page (h : BootTables r own s l) {x : Word × Path} (hq : own q = some x) : IsPage q :=
  h.tables.valid (a := x.1) (π := x.2) hq

lemma slot_private (h : BootTables r own s l) (ht : own t = some (r, π))
    (hq : own q = some (r, π ++ [i])) : slot s.mem t i = tableEntry false q := by
  obtain ⟨t', ht', hl⟩ := h.tables.linked hq
  rwa [← h.tables.position_unique ht ht'] at hl

lemma slot_empty (h : BootTables r own s l) (ht : own t = some (r, π)) (hd : π.length < 3)
    (hq : ¬ Private own r (π ++ [i])) : slot s.mem t i = 0#64 := by
  rcases h.tables.slots ht hd i with hs | ⟨q, hq', _⟩
  · exact hs
  · exact absurd ⟨q, hq'⟩ hq

end BootTables

namespace BootExtends

theorem refl (h : BootTables r own s l) : BootExtends r path s own l s own l :=
  ⟨h, SameGlobals.refl s, Taken.refl, ChangesOnly.refl _ _,
    fun _ _ _ => rfl⟩

theorem trans (h : BootExtends r path s own l s₁ own₁ l₁)
    (h' : BootExtends r path s₁ own₁ l₁ s₂ own₂ l₂) : BootExtends r path s own l s₂ own₂ l₂ := by
  refine ⟨h'.inv, h.globals.trans h'.globals, h.taken.trans h.inv.free_own h'.taken, ?_, ?_⟩
  · refine ChangesOnly.trans (h.mem.mono ?_) h'.mem
    rintro p ⟨ρ, hp⟩
    exact ⟨ρ, h'.taken.keep h.inv.free_own hp⟩
  · intro ρ j hd
    rw [h'.leaf ρ j hd, h.leaf ρ j hd]

end BootExtends

/-- Linking a zeroed page at an empty position. -/
theorem bootExtends_of_link (h : BootTables r own s (q :: l)) (ht : own t = some (r, π))
    (hd : π.length < 3) (hpath : π ++ [i] <+: path) (hfree : ¬ Private own r (π ++ [i]))
    (hl : FreeList s' l) (hg : SameGlobals s s') (hc : ChangesOnly {q} s.mem s'.mem)
    (hzero : ∀ j, slot s'.mem q j = 0#64) :
    BootExtends r path s own (q :: l)
      { s' with mem := setSlot s'.mem t i (tableEntry false q) }
      (Function.update own q (some (r, π ++ [i]))) l := by
  have hq : own q = none := h.free_own q (by simp)
  have hqp : IsPage q := h.free.pages q (by simp)
  have hql : q ∉ l := (List.nodup_cons.mp h.free.nodup).1
  have htp : IsPage t := h.own_page ht
  have htfree : t ∉ q :: l := fun hm => by
    rw [h.free_own t hm] at ht
    cases ht
  have htq : t ≠ q := fun he => htfree (by simp [he])
  have hold {p : Word} (hp : p ≠ q) :
      Function.update own q (some (r, π ++ [i])) p = own p := Function.update_of_ne hp _ _
  have hne {p : Word} {x : Word × Path} (hp : own p = some x) : p ≠ q := by
    rintro rfl
    rw [hq] at hp
    cases hp
  have hframe : ∀ p j, IsPage p → p ≠ q → (p ≠ t ∨ j ≠ i) →
      slot (setSlot s'.mem t i (tableEntry false q)) p j = slot s.mem p j := by
    intro p j hp hpq hj
    rw [slot_setSlot_ne _ _ htp.aligned hp.aligned hj]
    exact hc.slot (by simp [hqp.aligned]) hp.aligned (by simpa using hpq) j
  have hnew : ∀ j, slot (setSlot s'.mem t i (tableEntry false q)) q j = 0#64 := fun j => by
    rw [slot_setSlot_ne _ _ htp.aligned hqp.aligned (.inl (Ne.symm htq)), hzero j]
  have hlink : slot (setSlot s'.mem t i (tableEntry false q)) t i = tableEntry false q :=
    slot_setSlot_same _ _ _ _
  have htables := h.tables.extend (emptyBase s.mem) ht hd (h.slot_empty ht hd hfree) hq hqp (by simp)
    hlink hnew hframe
  refine ⟨⟨?_, (hold (hne h.root)).trans h.root, htables, ?_, ?_⟩,
    hg.trans ⟨rfl, rfl, rfl, rfl, rfl⟩, ⟨[q], rfl, ?_, ?_⟩, ?_, ?_⟩
  · exact hl.frame rfl (ChangesOnly.setSlot _ (Set.mem_singleton t) i _) (by simp [htp.aligned])
      (by simpa using fun hm => htfree (by simp [hm]))
  · intro p a ρ hp
    by_cases hpq : p = q
    · subst hpq
      rw [Function.update_self] at hp
      exact (Prod.mk.inj (Option.some.inj hp)).1.symm
    · exact h.only ((hold hpq).symm.trans hp)
  · intro p hp
    rw [hold (by rintro rfl; exact hql hp)]
    exact h.free_own p (by simp [hp])
  · intro p hp
    obtain rfl := List.mem_singleton.mp hp
    exact ⟨π ++ [i], by simp, hpath, Function.update_self _ _ _⟩
  · exact fun p hp => hold (by simpa using hp)
  · refine (hc.mono ?_).trans (ChangesOnly.setSlot _ ?_ i _)
    · rintro p rfl
      exact ⟨π ++ [i], Function.update_self _ _ _⟩
    · exact ⟨π, (hold htq).trans ht⟩
  · intro ρ j hρ
    have hb := emptyBase (setSlot s'.mem t i (tableEntry false q))
    by_cases hp : Private own r ρ
    · obtain ⟨p, hp⟩ := hp
      rw [bootLeaf, bootLeaf, h.tables.leaf_private hp,
        htables.leaf_private ((hold (hne hp)).trans hp)]
      refine hframe p j (h.own_page hp) (hne hp) (.inl ?_)
      rintro rfl
      rw [hp] at ht
      obtain ⟨-, rfl⟩ := Prod.mk.inj (Option.some.inj ht)
      omega
    · rw [bootLeaf, bootLeaf, h.tables.leaf_shared (emptyBase s.mem) h.root (by omega)
        (fun p hp' => hp ⟨p, hp'⟩)]
      by_cases hρi : ρ = π ++ [i]
      · subst hρi
        rw [htables.leaf_private (Function.update_self q _ own), hnew]
      · refine htables.leaf_shared hb ((hold (hne h.root)).trans h.root) (by omega) ?_ j
        intro p hp'
        by_cases hpq : p = q
        · subst hpq
          rw [Function.update_self] at hp'
          exact hρi (Prod.mk.inj (Option.some.inj hp')).2.symm
        · exact hp ⟨p, (hold hpq).symm.trans hp'⟩

/-- One level of `map_page_4k` at boot. -/
theorem bootNext_spec (path : Path) (i : Index) (h : BootTables r own s l)
    (ht : own t = some (r, π)) (hd : π.length < 3) (hpath : π ++ [i] <+: path) :
    (∃ q s' own' l', getOrCreateNext s t i pagingFlagsPage = (q, s') ∧
      BootExtends r path s own l s' own' l' ∧ own' q = some (r, π ++ [i])) ∨
    (getOrCreateNext s t i pagingFlagsPage = (0#64, s) ∧ l = [] ∧
      ¬ Private own r (π ++ [i])) := by
  have hflags : pagingFlagsPage &&& pagingUser = 0#64 := by decide
  by_cases hp : Private own r (π ++ [i])
  · obtain ⟨q, hq⟩ := hp
    have hqp := h.own_page hq
    refine .inl ⟨q, s, own, l, ?_, BootExtends.refl h, hq⟩
    have hpres : Present (slot s.mem t i) := by
      rw [h.slot_private ht hq]
      exact present_tableEntry hqp false
    have htab : entryTable (slot s.mem t i) = q := by
      rw [h.slot_private ht hq]
      exact entryAddress_tableEntry hqp false
    simp only [getOrCreateNext, hpres, if_true, hflags, ne_eq, not_true_eq_false, if_false, htab]
  · have habs : ¬ Present (slot s.mem t i) := by
      rw [h.slot_empty ht hd hp]
      exact not_present_zero
    cases l with
    | nil =>
      refine .inr ⟨?_, rfl, hp⟩
      rw [getOrCreateNext_absent habs (allocTable_nil h.free), if_pos rfl]
    | cons q l =>
      have hqp : IsPage q := h.free.pages q (by simp)
      obtain ⟨s₁, hs₁, hl₁, hc₁, hzero, hg₁⟩ := allocTable_cons h.free
      refine .inl ⟨q, _, _, l, ?_, bootExtends_of_link h ht hd hpath hp hl₁ hg₁ hc₁ hzero,
        Function.update_self _ _ _⟩
      rw [getOrCreateNext_absent habs hs₁, if_neg hqp.ne_zero, hflags]
      rfl

/-- `map_page_4k` at boot reaches the page table or runs out of pages. -/
theorem bootMap_spec (h : BootTables r own s l) (v p : Word) :
    (∃ s₁ own' l' pt, mapPage4k s r v p pagingFlagsPage =
        (true, { s₁ with mem := setSlot s₁.mem pt (ptIndex v) (p ||| pagingFlagsPage) }) ∧
      BootExtends r (userPath v) s own l s₁ own' l' ∧ own' pt = some (r, userPath v)) ∨
    (∃ s' own', mapPage4k s r v p pagingFlagsPage = (false, s') ∧
      BootExtends r (userPath v) s own l s' own' [] ∧ ¬ Private own' r (userPath v)) := by
  have hnot {own : Owner} {s : Phys} (h : BootTables r own s []) {π ρ : Path}
      (hp : ¬ Private own r π) : ¬ Private own r (π ++ ρ) := fun ⟨_, hq⟩ => hp (h.tables.prefix_own hq)
  unfold mapPage4k
  rcases bootNext_spec (userPath v) (pml4Index v) h h.root (by simp)
      (by simp [userPath]) with ⟨pdpt, s₁, own₁, l₁, hrun₁, h₁, hpdpt⟩ | ⟨hrun₁, rfl, hp₁⟩
  swap
  · simp only [hrun₁, if_true]
    exact .inr ⟨s, own, rfl, BootExtends.refl h, hnot h (ρ := [_, _]) hp₁⟩
  simp only [hrun₁, (h₁.inv.own_page hpdpt).ne_zero, if_false]
  rcases bootNext_spec (userPath v) (pdptIndex v) h₁.inv hpdpt (by simp)
      (by simp [userPath]) with ⟨pd, s₂, own₂, l₂, hrun₂, h₂, hpd⟩ | ⟨hrun₂, rfl, hp₂⟩
  swap
  · simp only [hrun₂, if_true]
    exact .inr ⟨s₁, own₁, rfl, h₁, hnot h₁.inv (ρ := [_]) hp₂⟩
  simp only [hrun₂, (h₂.inv.own_page hpd).ne_zero, if_false]
  rcases bootNext_spec (userPath v) (pdIndex v) h₂.inv hpd (by simp)
      (by simp [userPath]) with ⟨pt, s₃, own₃, l₃, hrun₃, h₃, hpt⟩ | ⟨hrun₃, rfl, hp₃⟩
  · simp only [hrun₃, (h₃.inv.own_page hpt).ne_zero, if_false]
    exact .inl ⟨s₃, own₃, l₃, pt, rfl, (h₁.trans h₂).trans h₃, hpt⟩
  · simp only [hrun₃, if_true]
    exact .inr ⟨s₂, own₂, rfl, h₁.trans h₂, hp₃⟩

end Build

/-- The positions of all tables that identity-mapping 4 GiB can need. -/
def bootPositions : List Path :=
  [[], [0]] ++ (List.finRange 4).flatMap fun i : Fin 4 =>
    [0, i.castLE (by omega)] :: (List.finRange 512).map fun j => [0, i.castLE (by omega), j]

@[simp] lemma length_bootPositions : bootPositions.length = 2054 := by
  simp only [bootPositions, List.length_append, List.length_cons, List.length_nil,
    List.length_flatMap, List.length_map, List.length_finRange, List.map_const']
  rfl

lemma mem_bootPositions {v : Word} (hv : v.toNat < 2 ^ 32) {ρ : Path} (hρ : ρ <+: userPath v) :
    ρ ∈ bootPositions := by
  have h4 : pml4Index v = 0 := by
    apply Fin.ext
    rw [pml4Index, tableIndex_val]
    show _ = 0
    omega
  have h3 : (pdptIndex v).val < 4 := by
    rw [pdptIndex, tableIndex_val]
    omega
  have hcast : (⟨(pdptIndex v).val, h3⟩ : Fin 4).castLE (by omega) = pdptIndex v := rfl
  rw [userPath, h4] at hρ
  simp only [bootPositions, List.mem_append, List.mem_flatMap, List.mem_cons, List.mem_map,
    List.mem_finRange, true_and]
  rcases ρ with _ | ⟨x, _ | ⟨y, _ | ⟨z, ρ⟩⟩⟩
  · simp
  · obtain rfl : x = 0 := by simpa using hρ
    simp
  · obtain ⟨rfl, rfl⟩ : x = 0 ∧ y = pdptIndex v := by simpa using hρ
    exact .inr ⟨⟨(pdptIndex v).val, h3⟩, .inl (by rw [hcast])⟩
  · obtain ⟨rfl, rfl, rfl, rfl⟩ : x = 0 ∧ y = pdptIndex v ∧ z = pdIndex v ∧ ρ = [] := by
      have hlen := hρ.length_le
      cases ρ with
      | nil => simpa using hρ
      | cons w ρ =>
        simp only [List.length_cons, List.length_nil] at hlen
        omega
    exact .inr ⟨⟨(pdptIndex v).val, h3⟩, .inr ⟨pdIndex v, by rw [hcast]⟩⟩

/-- The loop of `paging_initialize` after mapping the pages below `n`: `l₀` and
`m₀` are the free list and the memory it began with. -/
structure BootState (r : Word) (l₀ : List Word) (m₀ : Mem) (own : Owner) (s : Phys)
    (l : List Word) (n : ℕ) : Prop where
  inv : BootTables r own s l
  nodup : l₀.Nodup
  kernel : s.pagingKernelPml4 = r
  taken : ∃ tabs, l₀ = tabs ++ l ∧ ∀ p, p ∈ tabs ↔ ∃ ρ, own p = some (r, ρ)
  positions : ∀ p ρ, own p = some (r, ρ) → ρ ∈ bootPositions
  mem : ChangesOnly {p | ∃ ρ, own p = some (r, ρ)} m₀ s.mem
  leaf : ∀ π i, π.length = 3 → bootLeaf s.mem r π i =
    if pathAddress π i < n then BitVec.ofNat 64 (pathAddress π i) ||| pagingFlagsPage else 0#64

/-- Full paths are determined by their address. -/
lemma pathAddress_inj {π σ : Path} {i j : Index} (hπ : π.length = 3) (hσ : σ.length = 3)
    (h : pathAddress π i = pathAddress σ j) : π = σ ∧ i = j := by
  obtain ⟨a, b, c, rfl⟩ := List.length_eq_three.mp hπ
  obtain ⟨d, e, f, rfl⟩ := List.length_eq_three.mp hσ
  simp only [pathAddress, List.foldl_cons, List.foldl_nil] at h
  have ha := a.isLt
  have hb := b.isLt
  have hc := c.isLt
  have hd := d.isLt
  have he := e.isLt
  have hf := f.isLt
  have hi := i.isLt
  have hj := j.isLt
  have h1 : i.val = j.val := by omega
  have h2 : c.val = f.val := by omega
  have h3 : b.val = e.val := by omega
  have h4 : a.val = d.val := by omega
  simp [Fin.ext h1, Fin.ext h2, Fin.ext h3, Fin.ext h4]

section Loop

variable {r : Word} {own : Owner} {s : Phys} {l l₀ : List Word} {m₀ : Mem} {n : ℕ}

/-- One round of the loop. -/
theorem BootState.step (h : BootState r l₀ m₀ own s l n) (hn : n % 4096 = 0) (hlim : n < 2 ^ 32) :
    (∃ s' own' l', mapPage4k s r (BitVec.ofNat 64 n) (BitVec.ofNat 64 n) pagingFlagsPage =
        (true, s') ∧ BootState r l₀ m₀ own' s' l' (n + 4096) ∧ SameGlobals s s') ∨
    (∃ s', mapPage4k s r (BitVec.ofNat 64 n) (BitVec.ofNat 64 n) pagingFlagsPage = (false, s') ∧
      l₀.length < 2054) := by
  have hv : (BitVec.ofNat 64 n : Word).toNat = n := by
    rw [BitVec.toNat_ofNat]
    exact Nat.mod_eq_of_lt (by omega)
  -- what a level takes are tables on the path of this address
  have htaken {own' : Owner} {l' : List Word} {s₁ : Phys}
      (hE : BootExtends r (userPath (BitVec.ofNat 64 n)) s own l s₁ own' l') :
      (∃ tabs, l₀ = tabs ++ l' ∧ ∀ p, p ∈ tabs ↔ ∃ ρ, own' p = some (r, ρ)) ∧
      ∀ p ρ, own' p = some (r, ρ) → ρ ∈ bootPositions := by
    obtain ⟨tabs, hl₀, htabs⟩ := h.taken
    obtain ⟨new, hl, hnew, hold⟩ := hE.taken
    refine ⟨⟨tabs ++ new, by rw [hl₀, hl, List.append_assoc], fun p => ?_⟩, fun p ρ hp => ?_⟩
    · rw [List.mem_append]
      constructor
      · rintro (hp | hp)
        · obtain ⟨ρ, hρ⟩ := (htabs p).mp hp
          exact ⟨ρ, hE.taken.keep h.inv.free_own hρ⟩
        · obtain ⟨ρ, _, _, hρ⟩ := hnew p hp
          exact ⟨ρ, hρ⟩
      · rintro ⟨ρ, hρ⟩
        by_cases hp : p ∈ new
        · exact .inr hp
        · rw [hold p hp] at hρ
          exact .inl ((htabs p).mpr ⟨ρ, hρ⟩)
    · by_cases hpn : p ∈ new
      · obtain ⟨σ, _, hσ, hσo⟩ := hnew p hpn
        rw [hp] at hσo
        obtain rfl := (Prod.mk.inj (Option.some.inj hσo)).2
        exact mem_bootPositions (by omega) hσ
      · exact h.positions p ρ ((hold p hpn).symm.trans hp)
  rcases bootMap_spec h.inv (BitVec.ofNat 64 n) (BitVec.ofNat 64 n)
    with ⟨s₁, own', l', pt, hrun, hE, hpt⟩ | ⟨s', own', hrun, hE, hno⟩
  · refine .inl ⟨_, own', l', hrun, ?_, hE.globals.trans ⟨rfl, rfl, rfl, rfl, rfl⟩⟩
    have hptp : IsPage pt := hE.inv.own_page hpt
    have hset : ∀ p j, IsPage p → (p ≠ pt ∨ j ≠ ptIndex (BitVec.ofNat 64 n)) →
        slot (setSlot s₁.mem pt (ptIndex (BitVec.ofNat 64 n))
          (BitVec.ofNat 64 n ||| pagingFlagsPage)) p j = slot s₁.mem p j :=
      fun p j hp hj => slot_setSlot_ne _ _ hptp.aligned hp.aligned hj
    have htables := hE.inv.tables.write_leaf hpt rfl hset
    refine ⟨⟨?_, hE.inv.root, htables, hE.inv.only, hE.inv.free_own⟩, h.nodup,
      hE.globals.kernelPml4.trans h.kernel, (htaken hE).1, (htaken hE).2, ?_, ?_⟩
    · refine hE.inv.free.frame rfl (ChangesOnly.setSlot _ (Set.mem_singleton pt) _ _)
        (by simp [hptp.aligned]) ?_
      intro q hq hql
      obtain rfl := Set.mem_singleton_iff.mp hq
      rw [hE.inv.free_own q hql] at hpt
      cases hpt
    · refine ((h.mem.mono ?_).trans hE.mem).trans (ChangesOnly.setSlot _ ?_ _ _)
      · rintro p ⟨ρ, hp⟩
        exact ⟨ρ, hE.taken.keep h.inv.free_own hp⟩
      · exact ⟨_, hpt⟩
    · intro π i hπ
      have hpath : pathAddress (userPath (BitVec.ofNat 64 n)) (ptIndex (BitVec.ofNat 64 n)) = n := by
        rw [pathAddress_userPath (by omega), hv]
        omega
      have hleaf : bootLeaf s₁.mem r π i = _ := (hE.leaf π i hπ).trans (h.leaf π i hπ)
      by_cases hhere : π = userPath (BitVec.ofNat 64 n) ∧ i = ptIndex (BitVec.ofNat 64 n)
      · obtain ⟨rfl, rfl⟩ := hhere
        rw [bootLeaf, htables.leaf_private hpt, hpath, if_pos (by omega)]
        exact slot_setSlot_same _ _ _ _
      · have hne : pathAddress π i ≠ n := fun he =>
          hhere (pathAddress_inj hπ rfl (he.trans hpath.symm))
        have hmod : pathAddress π i % 4096 = 0 := by simp [pathAddress]
        have hlt : pathAddress π i < n + 4096 ↔ pathAddress π i < n := by omega
        simp only [hlt]
        rw [← hleaf]
        by_cases hp : Private own' r π
        · obtain ⟨p, hp⟩ := hp
          rw [bootLeaf, bootLeaf, htables.leaf_private hp, hE.inv.tables.leaf_private hp]
          refine hset p i (hE.inv.own_page hp) ?_
          by_contra hcon
          obtain ⟨rfl, rfl⟩ : p = pt ∧ i = ptIndex (BitVec.ofNat 64 n) := by
            simpa [not_or] using hcon
          rw [hpt] at hp
          exact hhere ⟨(Prod.mk.inj (Option.some.inj hp)).2.symm, rfl⟩
        · have hno : ∀ q, own' q ≠ some (r, π) := fun q hq => hp ⟨q, hq⟩
          rw [bootLeaf, bootLeaf,
            htables.leaf_shared (emptyBase _) hE.inv.root (by omega) hno,
            hE.inv.tables.leaf_shared (emptyBase _) hE.inv.root (by omega) hno]
  · refine .inr ⟨s', hrun, ?_⟩
    obtain ⟨⟨tabs, hl₀, htabs⟩, hpos⟩ := htaken hE
    have hnd : tabs.Nodup := (List.append_nil tabs) ▸ hl₀ ▸ h.nodup
    rw [hl₀, List.append_nil, ← length_bootPositions]
    refine hE.inv.tables.length_lt hnd (a := r) ?_
      (mem_bootPositions (v := BitVec.ofNat 64 n) (by omega) List.prefix_rfl)
      fun p hp => hno ⟨p, hp⟩
    intro p hp
    obtain ⟨ρ, hρ⟩ := (htabs p).mp hp
    exact ⟨ρ, hpos p ρ hρ, hρ⟩

/-- The loop maps the pages `k, …, k + c - 1` or runs out of pages. -/
theorem BootState.loop {r : Word} {l₀ : List Word} {m₀ : Mem} (c : ℕ) :
    ∀ (k : ℕ) {own : Owner} {s : Phys} {l : List Word}, BootState r l₀ m₀ own s l (4096 * k) →
      4096 * (k + c) ≤ 2 ^ 32 →
      (∃ s' own' l', mapIdentity s ((List.range' k c).map fun i => BitVec.ofNat 64 (4096 * i)) =
          .ok s' ∧ BootState r l₀ m₀ own' s' l' (4096 * (k + c)) ∧ SameGlobals s s') ∨
      (mapIdentity s ((List.range' k c).map fun i => BitVec.ofNat 64 (4096 * i)) = .error .halt ∧
        l₀.length < 2054) := by
  induction c with
  | zero =>
    intro k own s l h _
    exact .inl ⟨s, own, l, rfl, by simpa using h, SameGlobals.refl s⟩
  | succ c ih =>
    intro k own s l h hlim
    rw [List.range'_succ, List.map_cons]
    simp only [mapIdentity, h.kernel]
    rcases h.step (by omega) (by omega) with ⟨s₁, own₁, l₁, hrun, h₁, hg₁⟩ | ⟨s₁, hrun, hlt⟩
    · rw [hrun]
      rw [show 4096 * k + 4096 = 4096 * (k + 1) by omega] at h₁
      rcases ih (k + 1) h₁ (by omega) with ⟨s', own', l', hrun', h', hg'⟩ | ⟨hrun', hlt⟩
      · rw [show k + 1 + c = k + (c + 1) by omega] at h'
        exact .inl ⟨s', own', l', hrun', h', hg₁.trans hg'⟩
      · exact .inr ⟨hrun', hlt⟩
    · rw [hrun]
      exact .inr ⟨rfl, hlt⟩

end Loop

section Finish

variable {r : Word} {own : Owner} {s : Phys} {l l₀ : List Word} {m₀ : Mem} {n : ℕ}

lemma BootTables.descend_eq_some (h : BootTables r own s l) {π : Path} (hd : π.length ≤ 3)
    {t : Word} : descend kernelScheme (slot s.mem) r π = some t ↔ own t = some (r, π) := by
  constructor
  · intro ht
    by_cases hp : Private own r π
    · obtain ⟨p, hp⟩ := hp
      rw [h.tables.descend_private hp] at ht
      rwa [← Option.some.inj ht]
    · rw [h.tables.descend_shared (emptyBase _) h.root hd fun p hp' => hp ⟨p, hp'⟩] at ht
      cases ht
  · exact h.tables.descend_private

/-- The tables that the boot loop leaves behind. -/
def BootState.tables (h : BootState r l₀ m₀ own s l n) (hn : n ≤ 2 ^ 32) : KernelTables where
  root := r
  node := descend kernelScheme (slot s.mem) r
  base := bootLeaf s.mem r
  limit := n
  limit_le := hn
  node_root := rfl
  node_page _ _ hd ht := h.inv.own_page ((h.inv.descend_eq_some hd).mp ht)
  node_step π i _ := by
    rw [descend_snoc]
    cases ht : descend kernelScheme (slot s.mem) r π with
    | none => rw [bootLeaf_none ht]; exact nextTable_zero.symm
    | some t => rw [bootLeaf_some ht]; rfl
  base_absent π i _ hn := bootLeaf_none hn
  base_dir π i hd := by
    cases ht : descend kernelScheme (slot s.mem) r π with
    | none => exact .inl (bootLeaf_none ht)
    | some t =>
      rw [bootLeaf_some ht]
      rcases h.inv.tables.slots ((h.inv.descend_eq_some (by omega)).mp ht) hd i
        with h0 | ⟨q, hq, hl⟩
      · exact .inl h0
      · exact .inr ⟨q, h.inv.own_page hq, hl⟩
  base_leaf := h.leaf

theorem BootState.isTable_iff (h : BootState r l₀ m₀ own s l n) (hn : n ≤ 2 ^ 32) (p : Word) :
    (h.tables hn).IsTable p ↔ ∃ ρ, own p = some (r, ρ) := by
  constructor
  · rintro ⟨π, hd, hp⟩
    exact ⟨π, (h.inv.descend_eq_some hd).mp hp⟩
  · rintro ⟨ρ, hρ⟩
    exact ⟨ρ, h.inv.tables.depth hρ, (h.inv.descend_eq_some (h.inv.tables.depth hρ)).mpr hρ⟩

/-- With no user address space yet, the invariant holds. -/
theorem BootState.pagingInv (h : BootState r l₀ m₀ own s l n) (hn : n ≤ 2 ^ 32) :
    PagingInv (h.tables hn) (fun _ => none) s l where
  free := h.inv.free
  root := h.kernel
  kernel π t i _ ht := (bootLeaf_some ht).symm
  tables := {
    valid := by simp
    depth := by simp
    root := by simp
    linked := by simp
    slots := by simp
    base_free := by simp }
  free_own _ _ := rfl
  free_kernel p hp ht := by
    obtain ⟨ρ, hρ⟩ := (h.isTable_iff hn p).mp ht
    rw [h.inv.free_own p hp] at hρ
    cases hρ

end Finish

lemma highestPhysicalLoop_le (mm : Memmap) (n : ℕ) : (highestPhysicalLoop mm n).toNat ≤ 2 ^ 32 := by
  induction n with
  | zero => simp [highestPhysicalLoop]
  | succ n ih =>
    have hmax : pagingMaxAddress.toNat = 2 ^ 32 := rfl
    simp only [highestPhysicalLoop, highestPhysicalStep]
    split
    · exact ih
    · split_ifs with h₁ h₂ h₂
      · exact hmax.le
      · exact ih
      · have h₁ : ¬ pagingMaxAddress.toNat < _ := h₁
        omega
      · exact ih

/-- The identity map ends on a page boundary at or below 4 GiB. -/
lemma highestPhysicalEnd_bound (mm : Memmap) :
    (highestPhysicalEnd mm).toNat ≤ 2 ^ 32 ∧ (highestPhysicalEnd mm).toNat % 4096 = 0 := by
  have hle := highestPhysicalLoop_le mm (memmapGetDescriptorCount mm)
  unfold highestPhysicalEnd
  simp only
  split_ifs
  · decide
  · rw [toNat_alignDown, BitVec.toNat_add, show (4095#64 : Word).toNat = 4095 from rfl]
    omega

/-- Every descriptor ends below the identity map's limit, as far as 4 GiB. -/
lemma highestPhysicalLoop_ge {mm : Memmap} (hv : MemmapValid mm) {index : ℕ}
    {d : EfiMemoryDescriptor} (hd : memmapGetDescriptor mm index = some d) {n : ℕ} (hn : index < n) :
    min (2 ^ 32) (d.physicalStart.toNat + 4096 * d.numberOfPages.toNat) ≤
      (highestPhysicalLoop mm n).toNat := by
  have hmax : pagingMaxAddress.toNat = 2 ^ 32 := rfl
  induction n with
  | zero => omega
  | succ n ih =>
    by_cases hin : index = n
    · subst hin
      have hend := descriptor_end hv hd
      simp only [highestPhysicalLoop, highestPhysicalStep, hd, BitVec.lt_def]
      split_ifs <;> omega
    · have ih := ih (by omega)
      simp only [highestPhysicalLoop, highestPhysicalStep]
      split
      · exact ih
      · simp only [BitVec.lt_def]
        split_ifs <;> omega

lemma highestPhysicalEnd_ge {mm : Memmap} (hv : MemmapValid mm) {index : ℕ}
    {d : EfiMemoryDescriptor} (hd : memmapGetDescriptor mm index = some d) :
    min (2 ^ 32) (d.physicalStart.toNat + 4096 * d.numberOfPages.toNat) ≤
      (highestPhysicalEnd mm).toNat := by
  have hin : index < memmapGetDescriptorCount mm := by
    unfold memmapGetDescriptor at hd
    split_ifs at hd with h₁ h₂
    exact Nat.lt_of_not_le h₂
  have hge := highestPhysicalLoop_ge hv hd hin
  have hle := highestPhysicalLoop_le mm (memmapGetDescriptorCount mm)
  unfold highestPhysicalEnd
  dsimp only
  split_ifs with h0
  · rw [h0] at hge
    exact hge
  · rw [toNat_alignDown, BitVec.toNat_add, show (4095#64 : Word).toNat = 4095 from rfl]
    omega

/-- The effect of a successful `paging_initialize`; its tables are the pages
that left the free list. -/
structure Booted (s : Phys) (l : List Word) (s' : Phys) (K : KernelTables) (l' : List Word) :
    Prop where
  inv : PagingInv K (fun _ => none) s' l'
  limit : K.limit = (highestPhysicalEnd s.memmap).toNat
  limit_pos : 0 < K.limit
  cr3 : s'.cr3 = K.root
  regionBegin : s'.allocRegionBegin = s.allocRegionBegin
  regionEnd : s'.allocRegionEnd = s.allocRegionEnd
  memmap : s'.memmap = s.memmap
  taken : ∃ tabs, l = tabs ++ l' ∧ tabs.length ≤ 2054 ∧ ∀ p, p ∈ tabs ↔ K.IsTable p
  mem : ChangesOnly {p | K.IsTable p} s.mem s'.mem

/-- `paging_initialize` builds the identity map, or halts for want of memory. Its
tables are at positions that the first 4 GiB need. -/
theorem pagingInitialize_booted {s : Phys} {l : List Word} (h : FreeList s l) :
    (∃ s' K l', pagingInitialize s = .ok s' ∧ Booted s l s' K l' ∧
      ∀ π t, π.length ≤ 3 → K.node π = some t → π ∈ bootPositions) ∨
    (pagingInitialize s = .error .halt ∧
      ((highestPhysicalEnd s.memmap).toNat = 0 ∨ l.length < 2054)) := by
  unfold pagingInitialize
  cases l with
  | nil =>
    rw [allocTable_nil h]
    exact .inr ⟨rfl, .inr (by simp)⟩
  | cons r l =>
    have hrp : IsPage r := h.pages r (by simp)
    obtain ⟨s₁, hs₁, hl₁, hc₁, hzero, hg₁⟩ := allocTable_cons h
    rw [hs₁, ← hg₁.memmap]
    simp only [hrp.ne_zero, if_false]
    by_cases hlim : highestPhysicalEnd s₁.memmap = 0#64
    · simp [hlim]
    obtain ⟨hle, hmod⟩ := highestPhysicalEnd_bound s₁.memmap
    have hne : (highestPhysicalEnd s₁.memmap).toNat ≠ 0 := fun h0 =>
      hlim (BitVec.eq_of_toNat_eq (by simpa using h0))
    simp only [hlim, if_false]
    have hspan : pageSpan 0#64 (highestPhysicalEnd s₁.memmap) =
        (List.range' 0 ((highestPhysicalEnd s₁.memmap).toNat / 4096)).map
          fun i => BitVec.ofNat 64 (4096 * i) := by
      have hn : ((highestPhysicalEnd s₁.memmap).toNat - (0#64 : Word).toNat + 4095) / 4096 =
          (highestPhysicalEnd s₁.memmap).toNat / 4096 := by
        rw [show (0#64 : Word).toNat = 0 from rfl]
        omega
      rw [pageSpan, hn, pagesFrom, List.range_eq_range']
      simp
    let own : Owner := Function.update (fun _ => none) r (some (r, []))
    have howner {p a : Word} {π : Path} (hp : own p = some (a, π)) : p = r ∧ a = r ∧ π = [] := by
      by_cases hpr : p = r
      · subst hpr
        simp only [own, Function.update_self, Option.some.injEq, Prod.mk.injEq] at hp
        exact ⟨rfl, hp.1.symm, hp.2.symm⟩
      · simp [own, Function.update_of_ne hpr] at hp
    have hr : own r = some (r, []) := Function.update_self _ _ _
    have htables : Overlay kernelScheme 3 (slot s₁.mem) (fun _ => none) (fun _ _ => 0#64) own := by
      have h0 : Overlay kernelScheme 3 (slot s.mem) (fun _ : Path => none) (fun _ _ => 0#64)
          (fun _ => none) := by
        constructor <;> simp
      exact h0.create rfl hrp (by simp) hzero fun p j hp hpr =>
        hc₁.slot (by simp [hrp.aligned]) hp.aligned (by simpa using hpr) j
    have hboot : BootState r (r :: l) s.mem own { s₁ with pagingKernelPml4 := r } l (4096 * 0) := by
      refine ⟨⟨hl₁.congr rfl fun _ _ => rfl, hr, htables, fun hp => (howner hp).2.1, ?_⟩, h.nodup, rfl,
        ⟨[r], rfl, fun p => ?_⟩, fun p ρ hp => ?_, ?_, ?_⟩
      · intro p hp
        refine Function.update_of_ne ?_ _ _
        rintro rfl
        exact (List.nodup_cons.mp h.nodup).1 hp
      · rw [List.mem_singleton]
        constructor
        · rintro rfl
          exact ⟨[], hr⟩
        · rintro ⟨ρ, hρ⟩
          exact (howner hρ).1
      · rw [(howner hp).2.2]
        simp [bootPositions]
      · refine hc₁.mono ?_
        rintro p rfl
        exact ⟨[], hr⟩
      · intro π i hπ
        rw [bootLeaf, htables.leaf_shared (emptyBase _) hr (by omega) ?_]
        · simp
        · intro p hp
          rw [(howner hp).2.2] at hπ
          cases hπ
    rw [hspan]
    rcases hboot.loop ((highestPhysicalEnd s₁.memmap).toNat / 4096) 0 (by omega)
      with ⟨s', own', l', hrun, h', hg'⟩ | ⟨hrun, hlt⟩
    · have hN : 4096 * (0 + (highestPhysicalEnd s₁.memmap).toNat / 4096) =
          (highestPhysicalEnd s₁.memmap).toNat := by omega
      rw [hN] at h'
      rw [hrun]
      refine .inl ⟨_, h'.tables hle, l', rfl, ?_, fun π t hd ht =>
        h'.positions t π ((h'.inv.descend_eq_some hd).mp ht)⟩
      have hset : {p | (h'.tables hle).IsTable p} = {p | ∃ ρ, own' p = some (r, ρ)} :=
        Set.ext fun p => h'.isTable_iff hle p
      refine ⟨(h'.pagingInv hle).reframe (h'.inv.free.congr rfl fun _ _ => rfl)
          (fun p hp => ⟨rfl, (h'.pagingInv hle).free_kernel p hp⟩) rfl (ChangesOnly.refl ∅ _)
          (by simp) (by simp), by rw [← hg₁.memmap]; rfl, Nat.pos_of_ne_zero hne, h'.kernel, hg'.regionBegin.trans hg₁.regionBegin,
        hg'.regionEnd.trans hg₁.regionEnd, hg'.memmap.trans hg₁.memmap, ?_, ?_⟩
      · obtain ⟨tabs, hl, htabs⟩ := h'.taken
        refine ⟨tabs, hl, ?_, fun p => (htabs p).trans (h'.isTable_iff hle p).symm⟩
        have hnd : tabs.Nodup := (List.nodup_append.mp (hl ▸ h.nodup)).1
        rw [← length_bootPositions]
        refine h'.inv.tables.length_le hnd (a := r) fun p hp => ?_
        obtain ⟨ρ, hρ⟩ := (htabs p).mp hp
        exact ⟨ρ, h'.positions p ρ hρ, hρ⟩
      · rw [hset]
        exact h'.mem
    · rw [hrun]
      exact .inr ⟨rfl, .inr hlt⟩

theorem pagingInitialize_spec {s : Phys} {l : List Word} (h : FreeList s l) :
    (∃ s' K l', pagingInitialize s = .ok s' ∧ Booted s l s' K l') ∨
    (pagingInitialize s = .error .halt ∧
      ((highestPhysicalEnd s.memmap).toNat = 0 ∨ l.length < 2054)) := by
  rcases pagingInitialize_booted h with ⟨s', K, l', hs', hb, -⟩ | hhalt
  · exact .inl ⟨s', K, l', hs', hb⟩
  · exact .inr hhalt

/-- Boot fills the first PML4 slot only. -/
theorem pagingInitialize_slots {s s' : Phys} {l : List Word} (h : FreeList s l)
    (hs' : pagingInitialize s = .ok s') {i : Index} (hi : i ≠ 0) :
    ¬ Present (slot s'.mem s'.pagingKernelPml4 i) := by
  rcases pagingInitialize_booted h with ⟨s₁, K, l', hs₁, hb, hpos⟩ | ⟨hs₁, -⟩
  swap
  · cases hs₁.symm.trans hs'
  obtain rfl := Except.ok.inj (hs₁.symm.trans hs')
  rw [hb.inv.root, hb.inv.kernel [] K.root i (by simp) K.node_root]
  rcases K.entryAddress_base (π := []) (i := i) (by simp) with ⟨h0, -⟩ | ⟨q, -, -, hn⟩
  · rw [h0]
    exact not_present_zero
  · have hmem := hpos _ q (by simp) hn
    simp [bootPositions, hi] at hmem

end Platinum
