import Platinum.FdTables

/-!
# Seeding the console

`fd_table_seed_console` makes two nodes and three files for a fresh table. When
an allocation fails it takes back what it can; a node without a file may stay.
-/
namespace Platinum
open ByteMemory

/-- The data and the nodes of the console. -/
def consoleSizes : List Word := [fdConsoleInputSize, fdConsoleOutputSize, vfsNodeSize, vfsNodeSize]

section Blocks

variable {H : Heap → Phys → List Word → Prop} {room : ℕ → Prop} {sure : Prop} {k k' : Store}
  {held files nodes ptrs : List Word} {f n p : Word} {v : VfsNode}

lemma length_handOut (p : Word) (ptrs : List Word) : (handOut p ptrs).length ≤ ptrs.length + 1 := by
  unfold handOut
  split_ifs
  · omega
  · simp

lemma handOut_of_ne (hp : p ≠ 0#64) : handOut p ptrs = p :: ptrs := if_neg hp

/-- `kfree` of what an allocation returned. -/
lemma HeapSpec.kfree_handOut (hs : HeapSpec H room sure) (h : H k.heap k.phys (handOut p ptrs)) :
    ∃ h', k.kfree p = .ok { k with heap := h' } ∧ H h' k.phys ptrs := by
  obtain ⟨h', hr, hH⟩ := hs.free_handOut h
  refine ⟨h', ?_, hH⟩
  unfold Store.kfree
  rw [hr, ok_bind]

/-- A new node, without files. -/
lemma FdCounts.addNode (h : FdCounts k held files nodes) (hn : n ∉ nodes) (hv : ConsoleNode v)
    (h0 : v.refs = 0) : FdCounts (k.setNode (.allocated n) v) held files (n :: nodes) := by
  have hfile : ∀ f ∈ files, (k.file f).node ≠ .allocated n := by
    intro f hf he
    have hal := h.alive f hf
    rw [he] at hal
    exact hn hal
  refine ⟨h.nodup, h.mem_files, h.refs, h.small, fun f hf => ?_, fun f hf => ?_, fun r hr => ?_,
    fun m => ?_, fun m hm => ?_⟩
  · exact (h.alive f hf).mono fun m hm => List.mem_cons_of_mem n hm
  · have hne := Store.setNode_ne (k := k) v (hfile f hf)
    exact (congrArg VfsNode.ops hne).trans_ne (h.ops f hf)
  · by_cases hrn : r = .allocated n
    · rw [hrn, Store.setNode_same, h0]
      symm
      refine List.count_eq_zero.mpr fun hm => ?_
      obtain ⟨f, hf, he⟩ := List.mem_map.mp hm
      exact hfile f hf he
    · rw [Store.setNode_ne _ hrn]
      refine h.node_refs r ?_
      cases r with
      | null => exact hr
      | static m => trivial
      | allocated m =>
        rcases List.mem_cons.mp hr with rfl | hm
        · exact absurd rfl hrn
        · exact hm
  · rw [Store.setNode_ne _ (by simp)]
    exact h.static m
  · by_cases hmn : m = n
    · rw [hmn, Store.setNode_same]
      exact hv
    · rw [Store.setNode_ne _ (by simpa using hmn)]
      exact h.console m ((List.mem_cons.mp hm).resolve_left hmn)

/-- `a`, `b`, `c`, `d` were handed out one after the other. -/
lemma handOut_reverse (a b c d : Word) (ptrs : List Word) :
    (handOut d (handOut c (handOut b (handOut a ptrs)))).Perm
      (handOut a (handOut b (handOut c (handOut d ptrs)))) := by
  have he : ∀ (p : Word) (l : List Word), handOut p l = handOut p [] ++ l :=
    fun p l => handOut_append p [] l
  rw [he d (handOut c _), he c (handOut b _), he b (handOut a ptrs), he a ptrs, he a (handOut b _),
    he b (handOut c _), he c (handOut d ptrs), he d ptrs]
  refine List.perm_iff_count.mpr fun x => ?_
  simp only [List.count_append]
  omega

/-- The console's data and nodes. -/
structure ConsoleBlocks (H : Heap → Phys → List Word → Prop) (k : Store) (held files nodes : List Word)
    (c d : Word) (k' : Store) : Prop where
  inv : FdInv H k' held files (c :: d :: nodes)
  kept : Kept k k' files nodes
  offsets : SameOffsets k k' files
  input : (k'.node (.allocated c)).ops = some .fdConsoleInput ∧ (k'.node (.allocated c)).kind = .console
  output : (k'.node (.allocated d)).ops = some .fdConsoleOutput ∧
    (k'.node (.allocated d)).kind = .console
  fresh : c ∉ nodes ∧ d ∉ nodes ∧ c ≠ d
  events : FdEvents k files → FdEvents k' files

/-- The node of a console whose data is at `data`. -/
def consoleNode (ops : VfsNodeOps) (data : Word) : VfsNode := ⟨.console, 0, some ops, .allocated data⟩

lemma consoleNode_ok {ops : VfsNodeOps} (data : Word)
    (hops : ops = .fdConsoleInput ∨ ops = .fdConsoleOutput) : ConsoleNode (consoleNode ops data) :=
  ⟨hops.imp (congrArg some) (congrArg some), rfl⟩

/-- The store once the four blocks of a console are filled in. -/
def Store.withConsole (k : Store) (a b c d : Word) : Store :=
  (((k.setFdConsoleInput a ⟨0, 0x40, 0⟩).setFdConsoleOutput b ⟨0⟩).setNode (.allocated c)
    (consoleNode .fdConsoleInput a)).setNode (.allocated d) (consoleNode .fdConsoleOutput b)

lemma withConsole_ne {a b c d : Word} {r : NodeRef} (hc : r ≠ .allocated c) (hd : r ≠ .allocated d) :
    (k.withConsole a b c d).node r = k.node r :=
  (Store.setNode_ne _ hd).trans (Store.setNode_ne _ hc)

lemma withConsole_input {a b c d : Word} (hcd : c ≠ d) :
    (k.withConsole a b c d).node (.allocated c) = consoleNode .fdConsoleInput a :=
  (Store.setNode_ne _ (by simpa using hcd)).trans (Store.setNode_same _ _ _)

lemma withConsole_output {a b c d : Word} :
    (k.withConsole a b c d).node (.allocated d) = consoleNode .fdConsoleOutput b :=
  Store.setNode_same _ _ _

/-- The blocks are there and nobody else's. -/
lemma FdInv.withConsole {h' : Heap} {s' : Phys} {a b c d : Word} (h : FdInv H k held files nodes)
    (hs : HeapSpec H room sure) (hH : H h' s' (d :: c :: b :: a :: objectPtrs k files nodes)) :
    ConsoleBlocks H k held files nodes c d
      ({ k with heap := h', phys := s' }.withConsole a b c d) := by
  have hnd := hs.nodup hH
  have hmem {n : Word} (hn : n ∈ nodes) : n ∈ objectPtrs k files nodes :=
    List.mem_append_right _ (List.mem_append_left _ hn)
  simp only [List.nodup_cons, List.mem_cons, not_or] at hnd
  obtain ⟨⟨hdc, -, -, hd⟩, ⟨-, -, hc⟩, -⟩ := hnd
  have hcn : c ∉ nodes := fun hm => hc (hmem hm)
  have hdn : d ∉ nodes := fun hm => hd (hmem hm)
  have hcd : c ≠ d := Ne.symm hdc
  have hother : ∀ r, NodeAlive nodes r →
      ({ k with heap := h', phys := s' }.withConsole a b c d).node r = k.node r := by
    intro r hr
    refine withConsole_ne ?_ ?_
    · rintro rfl
      exact hcn hr
    · rintro rfl
      exact hdn hr
  have hcounts : FdCounts ({ k with heap := h', phys := s' }.withConsole a b c d) held files
      (c :: d :: nodes) := by
    have h₀ : FdCounts (({ k with heap := h', phys := s' }.setFdConsoleInput a
        ⟨0, 0x40, 0⟩).setFdConsoleOutput b ⟨0⟩) held files nodes := h.counts.congr rfl rfl
    have h₁ := h₀.addNode hcn (consoleNode_ok a (.inl rfl)) rfl
    have h₂ := h₁.addNode (n := d) (by simp [hdc, hdn]) (consoleNode_ok b (.inr rfl)) rfl
    have hswap : ∀ m, m ∈ d :: c :: nodes ↔ m ∈ c :: d :: nodes := by
      intro m
      simp only [List.mem_cons]
      tauto
    exact { h₂ with
      alive := fun f hf => (h₂.alive f hf).mono fun m => (hswap m).mp
      node_refs := fun r hr => h₂.node_refs r (hr.mono fun m => (hswap m).mpr)
      console := fun m hm => h₂.console m ((hswap m).mpr hm) }
  refine ⟨⟨hcounts, ?_⟩, ⟨fun _ _ => rfl, fun _ _ => rfl, fun r hr => ?_, fun r hr => ?_,
    fun r hr => ?_, rfl, rfl⟩, fun _ _ => rfl, ?_, ?_, ⟨hcn, hdn, hcd⟩,
    fun he => he.congr (fun _ => rfl) rfl⟩
  · have hdata : nodes.map (nodeData ({ k with heap := h', phys := s' }.withConsole a b c d)) =
        nodes.map (nodeData k) := List.map_congr_left fun n hn =>
      congrArg (fun v : VfsNode => v.data.address) (hother (.allocated n) hn)
    have hca : nodeData ({ k with heap := h', phys := s' }.withConsole a b c d) c = a :=
      congrArg (fun v : VfsNode => v.data.address) (withConsole_input hcd)
    have hdb : nodeData ({ k with heap := h', phys := s' }.withConsole a b c d) d = b :=
      congrArg (fun v : VfsNode => v.data.address) withConsole_output
    refine hs.perm hH (List.perm_iff_count.mpr fun x => ?_)
    simp only [objectPtrs, List.map_cons, hdata, hca, hdb, List.count_append, List.count_cons]
    omega
  · rw [hother r hr]
  · rw [hother r hr]
  · rw [hother r hr]
  · rw [withConsole_input hcd]
    exact ⟨rfl, rfl⟩
  · rw [withConsole_output]
    exact ⟨rfl, rfl⟩

/-- All four blocks are there, or those that are were freed again. -/
theorem HeapSpec.seedBlocks (hs : HeapSpec H room sure) (h : H k.heap k.phys ptrs)
    (hroom : ∀ m ≤ ptrs.length + 3, room m) (table : FdTable) :
    ∃ a b c d h₁ s₁, kzallocAll k.heap k.phys consoleSizes = .ok ([a, b, c, d], h₁, s₁) ∧
      Grown k.phys s₁ ∧ (sure → s₁ = k.phys) ∧
      (¬ sure ∧ ¬ Serves k.heap k.phys consoleSizes ∧ (∃ h', [a, b, c, d].foldlM Platinum.kfree h₁ = .ok h' ∧
          H h' s₁ ptrs ∧
          fdTableSeedConsole k table = .ok (false, table, { k with heap := h', phys := s₁ })) ∨
        0#64 ∉ [a, b, c, d] ∧ H h₁ s₁ (d :: c :: b :: a :: ptrs) ∧ fdTableSeedConsole k table =
          fdSeedFiles ({ k with heap := h₁, phys := s₁ }.withConsole a b c d) table (.allocated c)
            (.allocated d)) := by
  obtain ⟨a, h₁, s₁, hr₁, hH₁, hg₁, -, hsure₁⟩ := hs.kzalloc fdConsoleInputSize h
    (hroom _ (by omega)) (by simp [objectSizes])
  have hl₁ := length_handOut a ptrs
  obtain ⟨b, h₂, s₂, hr₂, hH₂, hg₂, -, hsure₂⟩ := hs.kzalloc fdConsoleOutputSize
    (k := { k with heap := h₁, phys := s₁ }) hH₁ (hroom _ (by omega)) (by simp [objectSizes])
  have hl₂ := length_handOut b (handOut a ptrs)
  obtain ⟨c, h₃, s₃, hr₃, hH₃, hg₃, -, hsure₃⟩ := hs.kzalloc vfsNodeSize
    (k := { k with heap := h₂, phys := s₂ }) hH₂ (hroom _ (by omega)) (by simp [objectSizes])
  have hl₃ := length_handOut c (handOut b (handOut a ptrs))
  obtain ⟨d, h₄, s₄, hr₄, hH₄, hg₄, -, hsure₄⟩ := hs.kzalloc vfsNodeSize
    (k := { k with heap := h₃, phys := s₃ }) hH₃ (hroom _ (by omega)) (by simp [objectSizes])
  have halloc : kzallocAll k.heap k.phys consoleSizes = .ok ([a, b, c, d], h₄, s₄) :=
    kzallocAll_cons (Store.kzalloc_ok hr₁) (kzallocAll_cons (Store.kzalloc_ok hr₂)
      (kzallocAll_cons (Store.kzalloc_ok hr₃) (kzallocAll_cons (Store.kzalloc_ok hr₄) rfl)))
  refine ⟨a, b, c, d, h₄, s₄, halloc, ((hg₁.trans hg₂).trans hg₃).trans hg₄, fun hs' => ?_, ?_⟩
  · exact (hsure₄ hs').2.trans ((hsure₃ hs').2.trans ((hsure₂ hs').2.trans (hsure₁ hs').2))
  unfold fdTableSeedConsole
  rw [hr₁, ok_bind]
  dsimp only
  rw [hr₂, ok_bind]
  dsimp only
  rw [hr₃, ok_bind]
  dsimp only
  rw [hr₄, ok_bind]
  dsimp only
  by_cases hnull : a = 0#64 ∨ b = 0#64 ∨ c = 0#64 ∨ d = 0#64
  · rw [if_pos hnull]
    obtain ⟨h₅, hr₅, hH₅⟩ := hs.kfree_handOut (k := { k with heap := h₄, phys := s₄ })
      (hs.perm hH₄ (handOut_reverse a b c d _))
    obtain ⟨h₆, hr₆, hH₆⟩ := hs.kfree_handOut (k := { k with heap := h₅, phys := s₄ }) hH₅
    obtain ⟨h₇, hr₇, hH₇⟩ := hs.kfree_handOut (k := { k with heap := h₆, phys := s₄ }) hH₆
    obtain ⟨h₈, hr₈, hH₈⟩ := hs.kfree_handOut (k := { k with heap := h₇, phys := s₄ }) hH₇
    refine .inl ⟨fun hs' => ?_, fun hserved => ?_, h₈, ?_, hH₈, ?_⟩
    · rcases hnull with h0 | h0 | h0 | h0
      · exact (hsure₁ hs').1 h0
      · exact (hsure₂ hs').1 h0
      · exact (hsure₃ hs').1 h0
      · exact (hsure₄ hs').1 h0
    · refine (serves_iff halloc).mp hserved ?_
      rcases hnull with rfl | rfl | rfl | rfl <;> simp
    · rw [List.foldlM_cons, Store.kfree_ok hr₅, ok_bind, List.foldlM_cons, Store.kfree_ok hr₆, ok_bind,
        List.foldlM_cons, Store.kfree_ok hr₇, ok_bind, List.foldlM_cons, Store.kfree_ok hr₈, ok_bind]
      rfl
    · rw [hr₅, ok_bind, hr₆, ok_bind, hr₇, ok_bind, hr₈, ok_bind]
  · rw [if_neg hnull]
    push Not at hnull
    obtain ⟨ha, hb, hc, hd⟩ := hnull
    rw [handOut_of_ne hd, handOut_of_ne hc, handOut_of_ne hb, handOut_of_ne ha] at hH₄
    exact .inr ⟨by simp [ha.symm, hb.symm, hc.symm, hd.symm], hH₄, rfl⟩

/-- The counts after the first four allocations. -/
theorem FdInv.seedBlocks (hs : HeapSpec H room sure) (h : FdInv H k held files nodes)
    (hroom : ∀ m ≤ files.length + 2 * nodes.length + 3, room m) (table : FdTable) :
    (∃ h' s', fdTableSeedConsole k table = .ok (false, table, { k with heap := h', phys := s' }) ∧
      FdInv H { k with heap := h', phys := s' } held files nodes ∧ Grown k.phys s' ∧ ¬ sure) ∨
    ∃ c d k₁, fdTableSeedConsole k table = fdSeedFiles k₁ table (.allocated c) (.allocated d) ∧
      ConsoleBlocks H k held files nodes c d k₁ ∧ Grown k.phys k₁.phys ∧ (sure → k₁.phys = k.phys) := by
  have hroom' : ∀ m ≤ (objectPtrs k files nodes).length + 3, room m := by
    rwa [objectPtrs_length]
  obtain ⟨a, b, c, d, h₁, s₁, -, hg, hsure, ⟨hns, -, h', -, hH, hr⟩ | ⟨-, hH, hr⟩⟩ :=
    hs.seedBlocks h.heap hroom' table
  · exact .inl ⟨h', s₁, hr, ⟨h.counts.congr rfl rfl, hH⟩, hg, hns⟩
  · exact .inr ⟨c, d, _, hr, h.withConsole hs hH, hg, hsure⟩

end Blocks

section Files

variable {H : Heap → Phys → List Word → Prop} {room : ℕ → Prop} {sure : Prop} {k k' : Store}
  {held files nodes others : List Word} {f n c d : Word}

lemma filesOn_pos_iff : 0 < filesOn k files (.allocated n) ↔ ∃ f ∈ files, (k.file f).node = .allocated n := by
  unfold filesOn
  rw [List.count_pos_iff, List.mem_map]

/-- Closing what an open returned. -/
lemma FdInv.closeHandOut (hs : HeapSpec H room sure) (h : FdInv H k (handOut f held) files nodes) :
    ∃ r k' files' nodes', vfsFileClose k f = .ok (r, k') ∧ FdInv H k' held files' nodes' ∧
      (∀ n ∈ nodes', n ∈ nodes) ∧
      (∀ n ∈ nodes, n ∉ nodes' → f ≠ 0#64 ∧ (k.file f).node = .allocated n) ∧
      Kept k k' files' nodes' ∧ SameOffsets k k' files' ∧ k'.phys = k.phys ∧
      (FdEvents k files → FdEvents k' files') := by
  by_cases hf : f = 0#64
  · subst hf
    refine ⟨-1, k, files, nodes, if_pos (.inl rfl), by simpa [handOut] using h, fun n hn => hn,
      fun n hn hn' => absurd hn hn', Kept.refl k files nodes, fun _ _ => rfl, rfl, id⟩
  · rw [handOut_of_ne hf] at h
    obtain ⟨k', files', nodes', hr, hc⟩ := h.closeFile hs List.mem_cons_self
    have hinv := hc.inv
    rw [List.erase_cons_head] at hinv
    exact ⟨0, k', files', nodes', hr, hinv, hc.sub_nodes, fun n hn hn' => ⟨hf, hc.gone n hn hn'⟩,
      hc.kept, hc.offsets, hc.phys, hc.events⟩

/-- What opening the three files leaves, whether or not they are there. -/
structure SeedFiles (H : Heap → Phys → List Word → Prop) (k : Store) (others files nodes : List Word)
    (c d f₁ f₂ f₃ : Word) (k' : Store) : Prop where
  inv : FdInv H k' (handOut f₃ (handOut f₂ (handOut f₁ others)))
    (handOut f₃ (handOut f₂ (handOut f₁ files))) nodes
  kept : Kept k k' files nodes
  offsets : SameOffsets k k' files
  grown : Grown k.phys k'.phys
  input : f₁ ≠ 0#64 → (k'.file f₁).node = .allocated c ∧ EntryOk k' ⟨1, .console, f₁⟩
  output : f₂ ≠ 0#64 → (k'.file f₂).node = .allocated d ∧ EntryOk k' ⟨1, .console, f₂⟩
  error : f₃ ≠ 0#64 → (k'.file f₃).node = .allocated d ∧ EntryOk k' ⟨1, .console, f₃⟩
  events : FdEvents k files → FdEvents k' (handOut f₃ (handOut f₂ (handOut f₁ files)))

lemma mem_handOut {p q : Word} {l : List Word} (h : q ∈ l) : q ∈ handOut p l := by
  unfold handOut
  split_ifs
  · exact h
  · exact List.mem_cons_of_mem p h

lemma mem_handOut_self {p : Word} {l : List Word} (hp : p ≠ 0#64) : p ∈ handOut p l := by
  rw [handOut_of_ne hp]
  exact List.mem_cons_self

lemma Openable.kept {r : NodeRef} {access : BitVec 32} (h : Openable k r access)
    (hk : Kept k k' files nodes) (hr : NodeAlive nodes r) : Openable k' r access := by
  obtain ⟨h₁, h₂, h₃⟩ := h
  refine ⟨?_, h₂, ?_⟩
  · rwa [hk.kind r hr]
  · rwa [hk.ops r hr]

/-- The console's nodes take the files that are opened on them. -/
lemma ConsoleBlocks.openable {k₁ : Store} (hb : ConsoleBlocks H k held files nodes c d k₁) :
    Openable k₁ (.allocated c) vfsAccessRead ∧ Openable k₁ (.allocated d) vfsAccessWrite := by
  refine ⟨⟨?_, by decide, _, hb.input.1, by decide, by decide⟩,
    ⟨?_, by decide, _, hb.output.1, by decide, by decide⟩⟩
  · rw [hb.input.2]
    simp
  · rw [hb.output.2]
    simp

theorem ConsoleBlocks.openFiles (hs : HeapSpec H room sure) {k₁ : Store}
    (hb : ConsoleBlocks H k others files nodes c d k₁) (hfew : others.length ≤ 16)
    (hroom : ∀ m ≤ files.length + 2 * nodes.length + 6, room m) :
    ∃ f₁ f₂ f₃ k₂ k₃ k₄, vfsFileOpen k₁ (.allocated c) vfsAccessRead = .ok (f₁, k₂) ∧
      vfsFileOpen k₂ (.allocated d) vfsAccessWrite = .ok (f₂, k₃) ∧
      vfsFileOpen k₃ (.allocated d) vfsAccessWrite = .ok (f₃, k₄) ∧
      SeedFiles H k₁ others files (c :: d :: nodes) c d f₁ f₂ f₃ k₄ ∧
      (sure → (f₁ ≠ 0#64 ∧ f₂ ≠ 0#64 ∧ f₃ ≠ 0#64) ∧ k₄.phys = k₁.phys) := by
  have hc : NodeAlive (c :: d :: nodes) (.allocated c) := List.mem_cons_self
  have hd : NodeAlive (c :: d :: nodes) (.allocated d) := by simp [NodeAlive]
  obtain ⟨ho₁, ho₂⟩ := hb.openable
  have hl₁ (p : Word) (l : List Word) := length_handOut p l
  obtain ⟨f₁, k₂, hr₁, hm₁, -, hsure₁⟩ := hb.inv.fileOpen hs hc
    (hroom _ (by simp only [List.length_cons]; omega)) (by omega) vfsAccessRead
  have ho₂ := ho₂.kept hm₁.kept hd
  have hf₁ := hl₁ f₁ files
  have hh₁ := hl₁ f₁ others
  obtain ⟨f₂, k₃, hr₂, hm₂, -, hsure₂⟩ := hm₁.inv.fileOpen hs hd
    (hroom _ (by simp only [List.length_cons]; omega)) (by omega) vfsAccessWrite
  have hk₂ : Kept k₂ k₃ files (c :: d :: nodes) := hm₂.kept.mono (fun g => mem_handOut) fun n hn => hn
  have ho₃ := ho₂.kept hk₂ hd
  have hf₂ := hl₁ f₂ (handOut f₁ files)
  have hh₂ := hl₁ f₂ (handOut f₁ others)
  obtain ⟨f₃, k₄, hr₃, hm₃, -, hsure₃⟩ := hm₂.inv.fileOpen hs hd
    (hroom _ (by simp only [List.length_cons]; omega)) (by omega) vfsAccessWrite
  have hk₃ : Kept k₃ k₄ files (c :: d :: nodes) :=
    hm₃.kept.mono (fun g hg => mem_handOut (mem_handOut hg)) fun n hn => hn
  refine ⟨f₁, f₂, f₃, k₂, k₃, k₄, hr₁, hr₂, hr₃, ⟨hm₃.inv, (hm₁.kept.trans hk₂).trans hk₃,
    (hm₁.offsets.trans (hm₂.offsets.mono fun g => mem_handOut)).trans
      (hm₃.offsets.mono fun g hg => mem_handOut (mem_handOut hg)),
    (hm₁.grown.trans hm₂.grown).trans hm₃.grown, fun h0 => ?_, fun h0 => ?_, fun h0 => ?_,
    fun he => hm₃.events (hm₂.events (hm₁.events he))⟩,
    fun hs' => ⟨⟨(hsure₁ hs' ho₁).1, (hsure₂ hs' ho₂).1, (hsure₃ hs' ho₃).1⟩, ?_⟩⟩
  · have hmem := mem_handOut_self (l := files) h0
    have hmem' := mem_handOut (p := f₂) hmem
    refine ⟨?_, ((hm₁.entryOk h0 ho₁ hc (by simp) ?_).kept hm₂.kept hmem ?_).kept hm₃.kept hmem' ?_⟩
    · rw [hm₃.kept.node _ hmem', hm₂.kept.node _ hmem, hm₁.node h0]
    · rw [hb.input.2]
      exact iff_of_true rfl rfl
    · dsimp only
      rwa [hm₁.node h0]
    · dsimp only
      rwa [hm₂.kept.node _ hmem, hm₁.node h0]
  · have hmem := mem_handOut_self (l := handOut f₁ files) h0
    refine ⟨?_, (hm₂.entryOk h0 ho₂ hd (by simp) ?_).kept hm₃.kept hmem ?_⟩
    · rw [hm₃.kept.node _ hmem, hm₂.node h0]
    · rw [hm₁.kept.kind _ hd, hb.output.2]
      exact iff_of_true rfl rfl
    · dsimp only
      rwa [hm₂.node h0]
  · refine ⟨hm₃.node h0, hm₃.entryOk h0 ho₃ hd (by simp) ?_⟩
    rw [hk₂.kind _ hd, hm₁.kept.kind _ hd, hb.output.2]
    exact iff_of_true rfl rfl
  · exact (hsure₃ hs' ho₃).2.trans ((hsure₂ hs' ho₂).2.trans (hsure₁ hs' ho₁).2)

/-- Files that were opened for nothing are closed again. -/
lemma SeedFiles.undo (hs : HeapSpec H room sure) {k₁ k₄ : Store} {f₁ f₂ f₃ : Word}
    (hb : ConsoleBlocks H k others files nodes c d k₁) (h : FdInv H k others files nodes)
    (hm : SeedFiles H k₁ others files (c :: d :: nodes) c d f₁ f₂ f₃ k₄) (table : FdTable) :
    ∃ k' files' nodes', (do
        let (_, k) ← vfsFileClose k₄ f₁
        let (_, k) ← vfsFileClose k f₂
        let (_, k) ← vfsFileClose k f₃
        (.ok (false, table, k) : Run (Bool × FdTable × Store))) = .ok (false, table, k') ∧
      FdInv H k' others files' nodes' ∧ Kept k k' files nodes ∧ SameOffsets k k' files ∧
      (∀ n ∈ nodes, n ∈ nodes') ∧ k'.phys = k₄.phys ∧ (FdEvents k files → FdEvents k' files') := by
  have hinv : FdInv H k₄ (handOut f₁ (handOut f₂ (handOut f₃ others)))
      (handOut f₃ (handOut f₂ (handOut f₁ files))) (c :: d :: nodes) := by
    refine ⟨hm.inv.counts.perm ?_, hm.inv.heap⟩
    exact (handOut_perm f₃ (handOut_comm f₂ f₁ others)).trans
      ((handOut_comm f₃ f₁ _).trans (handOut_perm f₁ (handOut_comm f₃ f₂ others)))
  obtain ⟨hcn, hdn, -⟩ := hb.fresh
  obtain ⟨r₁, k₅, files₅, nodes₅, hr₅, hi₅, hs₅, hg₅, hk₅, ho₅, hp₅, he₅⟩ := hinv.closeHandOut hs
  obtain ⟨r₂, k₆, files₆, nodes₆, hr₆, hi₆, hs₆, hg₆, hk₆, ho₆, hp₆, he₆⟩ := hi₅.closeHandOut hs
  obtain ⟨r₃, k₇, files₇, nodes₇, hr₇, hi₇, hs₇, hg₇, hk₇, ho₇, hp₇, he₇⟩ := hi₆.closeHandOut hs
  have hf₅ : ∀ g, g ∈ handOut f₂ (handOut f₃ others) → g ∈ files₅ := fun g => (hi₅.counts.mem_files g).mpr
  have hf₆ : ∀ g, g ∈ handOut f₃ others → g ∈ files₆ := fun g => (hi₆.counts.mem_files g).mpr
  have hf₇ : ∀ g ∈ files, g ∈ files₇ := fun g hg =>
    (hi₇.counts.mem_files g).mpr ((h.counts.mem_files g).mp hg)
  have hothers : ∀ g ∈ files, g ∈ others := fun g hg => (h.counts.mem_files g).mp hg
  -- the nodes that go are the console's, so the others stay
  have hn₅ : ∀ n ∈ nodes, n ∈ nodes₅ := by
    intro n hn
    by_contra hgone
    obtain ⟨h0, hon⟩ := hg₅ n (by simp [hn]) hgone
    rw [(hm.input h0).1] at hon
    exact hcn (NodeRef.allocated.inj hon ▸ hn)
  have hn₆ : ∀ n ∈ nodes, n ∈ nodes₆ := by
    intro n hn
    by_contra hgone
    obtain ⟨h0, hon⟩ := hg₆ n (hn₅ n hn) hgone
    rw [hk₅.node f₂ (hf₅ f₂ (mem_handOut_self h0)), (hm.output h0).1] at hon
    exact hdn (NodeRef.allocated.inj hon ▸ hn)
  have hn₇ : ∀ n ∈ nodes, n ∈ nodes₇ := by
    intro n hn
    by_contra hgone
    obtain ⟨h0, hon⟩ := hg₇ n (hn₆ n hn) hgone
    rw [hk₆.node f₃ (hf₆ f₃ (mem_handOut_self h0)),
      hk₅.node f₃ (hf₅ f₃ (mem_handOut (mem_handOut_self h0))), (hm.error h0).1] at hon
    exact hdn (NodeRef.allocated.inj hon ▸ hn)
  have hsub₅ : ∀ g ∈ files, g ∈ files₅ := fun g hg => hf₅ g (mem_handOut (mem_handOut (hothers g hg)))
  have hsub₆ : ∀ g ∈ files, g ∈ files₆ := fun g hg => hf₆ g (mem_handOut (hothers g hg))
  refine ⟨k₇, files₇, nodes₇, ?_, hi₇, ?_, ?_, hn₇, hp₇.trans (hp₆.trans hp₅),
    fun he => he₇ (he₆ (he₅ (hm.events (hb.events he))))⟩
  · rw [hr₅, ok_bind]
    dsimp only
    rw [hr₆, ok_bind]
    dsimp only
    rw [hr₇, ok_bind]
  · exact (((hb.kept.trans (hm.kept.mono (fun g hg => hg) fun n hn => by simp [hn])).trans
      (hk₅.mono hsub₅ hn₅)).trans (hk₆.mono hsub₆ hn₆)).trans (hk₇.mono hf₇ hn₇)
  · exact (((hb.offsets.trans hm.offsets).trans (ho₅.mono hsub₅)).trans (ho₆.mono hsub₆)).trans
      (ho₇.mono hf₇)

/-- The console's entries in a fresh table. -/
def consoleTable (f₁ f₂ f₃ : Word) : FdTable :=
  Function.update (Function.update (Function.update fdTableInitialize 0 ⟨1, .console, f₁⟩) 1
    ⟨1, .console, f₂⟩) 2 ⟨1, .console, f₃⟩

/-- Three files fit a fresh table, in order. -/
lemma fdSeedFiles_eq {k₁ k₂ k₃ k₄ : Store} {f₁ f₂ f₃ : Word} {r q : NodeRef}
    (h₁ : vfsFileOpen k₁ r vfsAccessRead = .ok (f₁, k₂))
    (h₂ : vfsFileOpen k₂ q vfsAccessWrite = .ok (f₂, k₃))
    (h₃ : vfsFileOpen k₃ q vfsAccessWrite = .ok (f₃, k₄)) :
    fdSeedFiles k₁ fdTableInitialize r q =
      if f₁ = 0#64 ∨ f₂ = 0#64 ∨ f₃ = 0#64 then do
        let (_, k) ← vfsFileClose k₄ f₁
        let (_, k) ← vfsFileClose k f₂
        let (_, k) ← vfsFileClose k f₃
        .ok (false, fdTableInitialize, k)
      else .ok (true, consoleTable f₁ f₂ f₃, k₄) := by
  unfold fdSeedFiles
  rw [h₁, ok_bind]
  dsimp only
  rw [h₂, ok_bind]
  dsimp only
  rw [h₃, ok_bind]
  dsimp only
  by_cases hnull : f₁ = 0#64 ∨ f₂ = 0#64 ∨ f₃ = 0#64
  · rw [if_pos hnull, if_pos hnull]
  · rw [if_neg hnull, if_neg hnull]
    push Not at hnull
    obtain ⟨hf₁, hf₂, hf₃⟩ := hnull
    have hi₁ : fdTableInstall fdTableInitialize .console f₁ =
        (0, Function.update fdTableInitialize 0 ⟨1, .console, f₁⟩) := by
      unfold fdTableInstall
      rw [if_neg (by simp [hf₁])]
      rfl
    have hi₂ : fdTableInstall (Function.update fdTableInitialize 0 ⟨1, .console, f₁⟩) .console f₂ =
        (1, Function.update (Function.update fdTableInitialize 0 ⟨1, .console, f₁⟩) 1
          ⟨1, .console, f₂⟩) := by
      unfold fdTableInstall
      rw [if_neg (by simp [hf₂])]
      rfl
    have hi₃ : fdTableInstall (Function.update (Function.update fdTableInitialize 0
        ⟨1, .console, f₁⟩) 1 ⟨1, .console, f₂⟩) .console f₃ = (2, consoleTable f₁ f₂ f₃) := by
      unfold fdTableInstall
      rw [if_neg (by simp [hf₃])]
      rfl
    rw [hi₁]
    dsimp only
    rw [if_neg (by decide), hi₂]
    dsimp only
    rw [if_neg (by decide), hi₃]
    dsimp only
    rw [if_neg (by decide)]

/-- What seeding leaves: a console, or nothing but idle nodes. -/
structure SeedOutcome (H : Heap → Phys → List Word → Prop) (sure : Prop) (k : Store)
    (others files nodes : List Word) (seeded : Bool) (k' : Store) (table' : FdTable)
    (files' nodes' : List Word) : Prop where
  step : TableStep H k others files nodes k' table' files' nodes'
  kept : Kept k k' files nodes
  grown : Grown k.phys k'.phys
  sub_files : ∀ f ∈ files, f ∈ files'
  static : ∀ n, filesOn k' files' (.static n) = filesOn k files (.static n)
  failed : seeded = false → table' = fdTableInitialize ∧ Unchanged k k' files nodes
  done : seeded = true → nodes'.length = nodes.length + 2 ∧
    (AllBusy k files nodes → AllBusy k' files' nodes')
  sure : sure → seeded = true ∧ k'.phys = k.phys

lemma consoleTable_files (f₁ f₂ f₃ : Word) : (tableFiles (consoleTable f₁ f₂ f₃)).Perm [f₃, f₂, f₁] := by
  have h₁ : (tableFiles (Function.update fdTableInitialize 0 ⟨1, .console, f₁⟩)).Perm [f₁] := by
    have h := tableFiles_install (f := f₁) (i := 0) fdTableInitialize .console rfl
    rwa [tableFiles_initial] at h
  have h₂ := (tableFiles_install (f := f₂) (i := 1)
    (Function.update fdTableInitialize 0 ⟨1, .console, f₁⟩) .console rfl).trans (h₁.cons f₂)
  exact (tableFiles_install (f := f₃) (i := 2) _ .console rfl).trans (h₂.cons f₃)

/-- A store in which the references of other tables are kept. -/
lemma TableStep.failed (h : FdInv H k others files nodes) {files' nodes' : List Word}
    (h' : FdInv H k' others files' nodes') (hk : Kept k k' files nodes)
    (he : FdEvents k files → FdEvents k' files') : TableStep H k others files nodes k' fdTableInitialize files' nodes' := by
  refine ⟨?_, tableOk_initial k', fun t ht hsub => ?_, hk.root, hk.ready, he⟩
  · rw [tableFiles_initial]
    exact h'
  · exact ht.grow h.counts hk hsub

/-- `fd_table_seed_console` on a fresh table. -/
theorem FdInv.seed (hs : HeapSpec H room sure) (h : FdInv H k others files nodes)
    (hfew : others.length ≤ 16) (hroom : ∀ m ≤ files.length + 2 * nodes.length + 6, room m) :
    ∃ seeded table' k' files' nodes', fdTableSeedConsole k fdTableInitialize = .ok (seeded, table', k') ∧
      SeedOutcome H sure k others files nodes seeded k' table' files' nodes' := by
  rcases h.seedBlocks hs (fun m hm => hroom m (by omega)) fdTableInitialize with
    ⟨heap, s', hr, h', hg, hns⟩ | ⟨c, d, k₁, hr, hb, hg₁, hsure₁⟩
  · have hk : Kept k { k with heap := heap, phys := s' } files nodes :=
      ⟨fun _ _ => rfl, fun _ _ => rfl, fun _ _ => rfl, fun _ _ => rfl, fun _ _ => rfl, rfl, rfl⟩
    exact ⟨false, _, _, files, nodes, hr, .failed h h' hk fun he => he.congr (fun _ => rfl) rfl, hk, hg, fun f hf => hf,
      fun _ => rfl, fun _ => ⟨rfl, fun _ _ => rfl, fun _ _ => rfl⟩, (by simp), fun hs' => absurd hs' hns⟩
  obtain ⟨f₁, f₂, f₃, k₂, k₃, k₄, hr₁, hr₂, hr₃, hm, hsure⟩ := hb.openFiles hs hfew hroom
  rw [hr, fdSeedFiles_eq hr₁ hr₂ hr₃]
  by_cases hnull : f₁ = 0#64 ∨ f₂ = 0#64 ∨ f₃ = 0#64
  · rw [if_pos hnull]
    obtain ⟨k', files', nodes', hundo, hinv, hk, ho, hn, hp, he⟩ := hm.undo hs hb h fdTableInitialize
    refine ⟨false, _, k', files', nodes', hundo, .failed h hinv hk he, hk, ?_, fun f hf => ?_,
      fun n => ?_, fun _ => ⟨rfl, hk.unchanged ho h.counts hinv.counts hn⟩, (by simp), fun hs' => ?_⟩
    · exact hp ▸ hg₁.trans hm.grown
    · exact (hinv.counts.mem_files f).mpr ((h.counts.mem_files f).mp hf)
    · have hp := (List.perm_ext_iff_of_nodup hinv.counts.nodup h.counts.nodup).mpr fun f =>
        (hinv.counts.mem_files f).trans (h.counts.mem_files f).symm
      rw [filesOn_perm hp, filesOn_congr hk.node]
    · obtain ⟨⟨h₁, h₂, h₃⟩, -⟩ := hsure hs'
      rcases hnull with h0 | h0 | h0
      · exact absurd h0 h₁
      · exact absurd h0 h₂
      · exact absurd h0 h₃
  rw [if_neg hnull]
  push Not at hnull
  obtain ⟨h₁, h₂, h₃⟩ := hnull
  have hinv := hm.inv
  have hev := hm.events
  rw [handOut_of_ne h₁, handOut_of_ne h₂, handOut_of_ne h₃, handOut_of_ne h₁, handOut_of_ne h₂,
    handOut_of_ne h₃] at hinv
  rw [handOut_of_ne h₁, handOut_of_ne h₂, handOut_of_ne h₃] at hev
  have hk : Kept k k₄ files nodes := hb.kept.trans (hm.kept.mono (fun f hf => hf) fun n hn => by simp [hn])
  have hperm : (f₃ :: f₂ :: f₁ :: others).Perm (tableFiles (consoleTable f₁ f₂ f₃) ++ others) :=
    ((consoleTable_files f₁ f₂ f₃).append_right others).symm
  refine ⟨true, _, k₄, f₃ :: f₂ :: f₁ :: files, c :: d :: nodes, rfl,
    ⟨⟨hinv.counts.perm hperm, hinv.heap⟩, ?_, fun t ht hsub => ht.grow h.counts hk hsub,
      hk.root, hk.ready, fun he => hev (hb.events he)⟩, hk, hg₁.trans hm.grown, fun f hf => by simp [hf], fun n => ?_, (by simp),
    fun _ => ⟨rfl, fun hbusy n hn => ?_⟩, fun hs' => ⟨rfl, (hsure hs').2.trans (hsure₁ hs')⟩⟩
  · exact (((tableOk_initial k₄).install (hm.input h₁).2).install (hm.output h₂).2).install
      (hm.error h₃).2
  · rw [filesOn_cons, filesOn_cons, filesOn_cons, (hm.input h₁).1, (hm.output h₂).1, (hm.error h₃).1,
      filesOn_congr hk.node]
    simp
  · rw [filesOn_pos_iff]
    rcases List.mem_cons.mp hn with rfl | hn
    · exact ⟨f₁, by simp, (hm.input h₁).1⟩
    rcases List.mem_cons.mp hn with rfl | hn
    · exact ⟨f₂, by simp, (hm.output h₂).1⟩
    · obtain ⟨f, hf, hon⟩ := filesOn_pos_iff.mp (hbusy n hn)
      exact ⟨f, by simp [hf], (hk.node f hf).trans hon⟩

end Files

end Platinum
