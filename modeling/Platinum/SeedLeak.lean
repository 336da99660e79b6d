import Platinum.FdRun

/-!
# Seeding that fails

Closing a file takes its node and data along, so a node whose first file was not
made stays behind. `fd_table_seed_console` is undone unless that happens.
-/
namespace Platinum
open ByteMemory BlockList

/-- The blocks asked for when nothing fails. -/
def seedSizes : List Word := consoleSizes ++ [vfsFileSize, vfsFileSize, vfsFileSize]

/-- The blocks of the console with one file on each node. -/
def openedSizes : List Word := consoleSizes ++ [vfsFileSize, vfsFileSize]

/-- What was asked for is freed again, each block once. -/
def FreedAgain (k k' : Store) : Prop :=
  ∃ (sizes ptrs : List Word) (h : Heap) (frees : List Word), sizes <+: seedSizes ∧
    kzallocAll k.heap k.phys sizes = .ok (ptrs, h, k'.phys) ∧ frees.foldlM Platinum.kfree h = .ok k'.heap ∧
    (frees.filter (· ≠ 0#64)).Perm (ptrs.filter (· ≠ 0#64))

/-- How seeding a fresh table ends: with all files, with every block it asked for
freed again, or with blocks that stay in use. -/
inductive SeedEnd (H : Heap → Phys → List Word → Prop) (k : Store) (ptrs : List Word) :
    Bool → FdTable → Store → Prop
  | seeded {table : FdTable} {k' : Store} (hopen : Serves k.heap k.phys openedSizes) :
      SeedEnd H k ptrs true table k'
  | undone {k' : Store}
      (hopen : ¬ Serves k.heap k.phys consoleSizes ∨ Serves k.heap k.phys openedSizes)
      (hfreed : FreedAgain k k') (hH : H k'.heap k'.phys ptrs) :
      SeedEnd H k ptrs false fdTableInitialize k'
  | leaked {k' : Store} {blocks : List Word} (hnodes : Serves k.heap k.phys consoleSizes)
      (hopen : ¬ Serves k.heap k.phys openedSizes) (hblocks : blocks ≠ [])
      (hH : H k'.heap k'.phys (blocks ++ ptrs)) : SeedEnd H k ptrs false fdTableInitialize k'

section Leak

variable {H : Heap → Phys → List Word → Prop} {room : ℕ → Prop} {sure : Prop} {k k' : Store}
  {ptrs : List Word} {a b c d f g n p : Word} {ops : VfsNodeOps} {access : BitVec 32}

/-- The only file of a console takes the node and its data along. -/
lemma HeapSpec.closeConsole (hs : HeapSpec H room sure)
    (hops : ops = .fdConsoleInput ∨ ops = .fdConsoleOutput)
    (h : H k.heap k.phys (f :: p :: n :: ptrs)) (hfile : k.file f = ⟨1, .allocated n, 0#64, access⟩)
    (hnode : k.node (.allocated n) = ⟨.console, 1, some ops, .allocated p⟩) :
    ∃ k', vfsFileClose k f = .ok (0, k') ∧ [f, p, n].foldlM Platinum.kfree k.heap = .ok k'.heap ∧
      H k'.heap k'.phys ptrs ∧ k'.phys = k.phys ∧ (∀ g, g ≠ f → k'.file g = k.file g) ∧
      ∀ r, r ≠ .allocated n → k'.node r = k.node r := by
  have hon : (k.file f).node = .allocated n := by rw [hfile]
  have one : (1 : BitVec 32) ≠ 0 := by decide
  obtain ⟨h₁, hfree, hH₁, hclose⟩ := hs.closeLast h List.mem_cons_self (by rw [hfile])
    (by rw [hon]; simp) (by rw [hon, hnode]; exact one) (by rw [hon, hnode])
  have hsame : (k.withoutFile f).node (.allocated n) = ⟨.console, 0, some ops, .allocated p⟩ := by
    have hw := withoutFile_node_same (k := k) (f := f)
    rw [hon, hnode] at hw
    exact hw.trans (by simp)
  rw [List.erase_cons_head] at hH₁
  rw [hon, hsame, if_pos rfl] at hclose
  obtain ⟨k', hrelease, hobjects, hfrees, hH'⟩ := release_console hs
    (k := { k.withoutFile f with heap := h₁ }.record (.released (.allocated n))) (n := n) hops
    (congrArg (fun v : VfsNode => v.data.address) hsame) hH₁
  refine ⟨k', hclose.trans hrelease, ?_, hH', hobjects.phys, fun g hg => ?_, fun r hr => ?_⟩
  · rw [List.foldlM_cons, hfree, ok_bind]
    exact hfrees
  · rw [hobjects.file]
    exact withoutFile_ne hg
  · rw [hobjects.node]
    exact withoutFile_node_ne (by rwa [hon])

lemma vfsFileClose_null (k : Store) : vfsFileClose k 0#64 = .ok (-1, k) := if_pos (.inl rfl)

/-- Opening a console asks for one block; without it nothing changes. -/
lemma HeapSpec.openConsole (hs : HeapSpec H room sure) {refs : BitVec 32} (access : BitVec 32)
    (h : H k.heap k.phys ptrs) (hroom : room ptrs.length)
    (hnode : k.node (.allocated n) = ⟨.console, refs, some ops, .allocated p⟩)
    (hflags : vfsOpenFlagsValid access) (hread : access &&& vfsAccessRead ≠ 0 → ops.hasRead)
    (hwrite : access &&& vfsAccessWrite ≠ 0 → ops.hasWrite) :
    ∃ f k', vfsFileOpen k (.allocated n) access = .ok (f, k') ∧
      Platinum.kzalloc k.heap k.phys vfsFileSize = .ok (f, k'.heap, k'.phys) ∧
      (f = 0#64 ∧ k' = k ∨ f ≠ 0#64 ∧ H k'.heap k'.phys (f :: ptrs) ∧
        k'.file f = ⟨1, .allocated n, 0#64, access⟩ ∧
        k'.node (.allocated n) = ⟨.console, refs + 1, some ops, .allocated p⟩ ∧
        (∀ g, g ≠ f → k'.file g = k.file g) ∧ ∀ r, r ≠ .allocated n → k'.node r = k.node r) := by
  have hopen : vfsFileOpen k (.allocated n) access = vfsMakeFile k (.allocated n) access := by
    refine vfsFileOpen_openable (by simp) ⟨?_, hflags, ops, ?_, hread, hwrite⟩
    · rw [hnode]
      simp
    · rw [hnode]
  obtain ⟨f, h', s', halloc, -, -, ⟨rfl, hmake⟩ | ⟨hf, hH, hmake⟩⟩ := hs.makeFile h hroom
  · refine ⟨0#64, k, hopen.trans (hmake _ _), ?_, .inl ⟨rfl, rfl⟩⟩
    have hnull := hmake (.allocated n) access
    unfold vfsMakeFile at hnull
    rw [halloc, ok_bind] at hnull
    exact Store.kzalloc_ok (halloc.trans hnull)
  · refine ⟨f, _, hopen.trans (hmake _ _), Store.kzalloc_ok halloc, .inr ⟨hf, hH, withFile_same access,
      ?_, fun g hg => withFile_ne access hg, fun r hr => withFile_node_ne hr⟩⟩
    have hw : (k.withFile f (.allocated n) access).node (.allocated n) = _ := withFile_node_same
    rw [hnode] at hw
    exact hw

/-- Without a first file nothing is opened, and nothing is closed. -/
lemma seedFiles_none {r q : NodeRef} (h₁ : vfsFileOpen k r vfsAccessRead = .ok (0#64, k))
    (h₂ : vfsFileOpen k q vfsAccessWrite = .ok (0#64, k)) :
    fdSeedFiles k fdTableInitialize r q = .ok (false, fdTableInitialize, k) := by
  rw [fdSeedFiles_eq h₁ h₂ h₂, if_pos (Or.inl rfl), vfsFileClose_null, ok_bind]
  dsimp only
  rw [vfsFileClose_null, ok_bind]
  dsimp only
  rw [vfsFileClose_null, ok_bind]

/-- With the input's file only, the output's node was never opened. -/
lemma HeapSpec.seedFiles_one (hs : HeapSpec H room sure) {r q : NodeRef} {k₁ : Store}
    (hopen₁ : vfsFileOpen k r vfsAccessRead = .ok (f, k₁))
    (hopen₂ : vfsFileOpen k₁ q vfsAccessWrite = .ok (0#64, k₁))
    (h : H k₁.heap k₁.phys (f :: d :: c :: b :: a :: ptrs))
    (hfile : k₁.file f = ⟨1, .allocated c, 0#64, vfsAccessRead⟩)
    (hnode : k₁.node (.allocated c) = ⟨.console, 1, some .fdConsoleInput, .allocated a⟩) :
    ∃ k', fdSeedFiles k fdTableInitialize r q = .ok (false, fdTableInitialize, k') ∧
      H k'.heap k'.phys ([d, b] ++ ptrs) := by
  have hperm : (f :: d :: c :: b :: a :: ptrs).Perm (f :: a :: c :: d :: b :: ptrs) := by
    refine List.perm_iff_count.mpr fun x => ?_
    simp only [List.count_cons]
    omega
  obtain ⟨k', hclose, -, hH, -⟩ := hs.closeConsole (.inl rfl) (hs.perm h hperm) hfile hnode
  refine ⟨k', ?_, hH⟩
  rw [fdSeedFiles_eq hopen₁ hopen₂ hopen₂, if_pos (Or.inr (Or.inl rfl)), hclose, ok_bind]
  dsimp only
  rw [vfsFileClose_null, ok_bind]
  dsimp only
  rw [vfsFileClose_null, ok_bind]

/-- With a file on each node, closing both frees everything. -/
lemma HeapSpec.seedFiles_two (hs : HeapSpec H room sure) {r q : NodeRef} {f₁ f₂ : Word} {k₁ k₂ : Store}
    (hopen₁ : vfsFileOpen k r vfsAccessRead = .ok (f₁, k₁))
    (hopen₂ : vfsFileOpen k₁ q vfsAccessWrite = .ok (f₂, k₂))
    (hopen₃ : vfsFileOpen k₂ q vfsAccessWrite = .ok (0#64, k₂))
    (h : H k₂.heap k₂.phys (f₂ :: f₁ :: d :: c :: b :: a :: ptrs))
    (hfile₁ : k₂.file f₁ = ⟨1, .allocated c, 0#64, vfsAccessRead⟩)
    (hfile₂ : k₂.file f₂ = ⟨1, .allocated d, 0#64, vfsAccessWrite⟩)
    (hc : k₂.node (.allocated c) = ⟨.console, 1, some .fdConsoleInput, .allocated a⟩)
    (hd : k₂.node (.allocated d) = ⟨.console, 1, some .fdConsoleOutput, .allocated b⟩) :
    ∃ k', fdSeedFiles k fdTableInitialize r q = .ok (false, fdTableInitialize, k') ∧
      [f₁, a, c, f₂, b, d].foldlM Platinum.kfree k₂.heap = .ok k'.heap ∧ H k'.heap k'.phys ptrs ∧
      k'.phys = k₂.phys := by
  have hperm : (f₂ :: f₁ :: d :: c :: b :: a :: ptrs).Perm (f₁ :: a :: c :: f₂ :: b :: d :: ptrs) := by
    refine List.perm_iff_count.mpr fun x => ?_
    simp only [List.count_cons]
    omega
  have hnd := hs.nodup h
  have hf : f₂ ≠ f₁ := fun he => (List.nodup_cons.mp hnd).1 (by simp [he])
  have hdc : d ≠ c := by
    intro he
    simp [he] at hnd
  obtain ⟨k₃, hclose₁, hfree₁, hH₁, hp₁, hfiles, hnodes⟩ :=
    hs.closeConsole (.inl rfl) (hs.perm h hperm) hfile₁ hc
  obtain ⟨k', hclose₂, hfree₂, hH₂, hp₂, -⟩ := hs.closeConsole (.inr rfl) hH₁
    ((hfiles f₂ hf).trans hfile₂) ((hnodes _ (by simpa using hdc)).trans hd)
  refine ⟨k', ?_, ?_, hH₂, hp₂.trans hp₁⟩
  · rw [fdSeedFiles_eq hopen₁ hopen₂ hopen₃, if_pos (Or.inr (Or.inr rfl)), hclose₁, ok_bind]
    dsimp only
    rw [hclose₂, ok_bind]
    dsimp only
    rw [vfsFileClose_null, ok_bind]
  · change ([f₁, a, c] ++ [f₂, b, d]).foldlM Platinum.kfree k₂.heap = _
    rw [List.foldlM_append, hfree₁, ok_bind, hfree₂]

/-- The four blocks are there, and the files follow. -/
theorem HeapSpec.seedFiles (hs : HeapSpec H room sure)
    (h : H k.heap k.phys (d :: c :: b :: a :: ptrs)) (hroom : ∀ m ≤ ptrs.length + 6, room m)
    (hc : k.node (.allocated c) = consoleNode .fdConsoleInput a)
    (hd : k.node (.allocated d) = consoleNode .fdConsoleOutput b) :
    ∃ seeded table k', fdSeedFiles k fdTableInitialize (.allocated c) (.allocated d) =
        .ok (seeded, table, k') ∧
      (seeded = true ↔ Serves k.heap k.phys [vfsFileSize, vfsFileSize, vfsFileSize]) ∧
      (seeded = true ∨
        seeded = false ∧ table = fdTableInitialize ∧
          (¬ Serves k.heap k.phys [vfsFileSize, vfsFileSize] ∧ (∃ blocks : List Word, blocks ≠ [] ∧
              H k'.heap k'.phys (blocks ++ ptrs)) ∨
            Serves k.heap k.phys [vfsFileSize, vfsFileSize] ∧ H k'.heap k'.phys ptrs ∧
              ∃ f₁ f₂ h₁, kzallocAll k.heap k.phys [vfsFileSize, vfsFileSize, vfsFileSize] =
                  .ok ([f₁, f₂, 0#64], h₁, k'.phys) ∧
                [f₁, a, c, f₂, b, d].foldlM Platinum.kfree h₁ = .ok k'.heap)) := by
  have hnd := hs.nodup h
  have hdc : NodeRef.allocated d ≠ .allocated c := by
    intro he
    simp [NodeRef.allocated.inj he] at hnd
  obtain ⟨f₁, k₁, hopen₁, ha₁, hcase₁⟩ := hs.openConsole vfsAccessRead h
    (hroom _ (by simp only [List.length_cons]; omega)) hc (by decide) (by decide) (by decide)
  have hserves := serves_cons ha₁ [vfsFileSize]
  have hnever (hno : ¬ Serves k.heap k.phys [vfsFileSize, vfsFileSize]) :
      false = true ↔ Serves k.heap k.phys [vfsFileSize, vfsFileSize, vfsFileSize] :=
    iff_of_false (by simp) fun hserved =>
      hno (show Serves _ _ ([vfsFileSize, vfsFileSize] ++ [vfsFileSize]) from hserved).of_append
  have hfirst (h0 : f₁ = 0#64) : ¬ Serves k.heap k.phys [vfsFileSize, vfsFileSize] := fun hserved =>
    (hserves.mp hserved).1 h0
  rcases hcase₁ with ⟨rfl, rfl⟩ | ⟨hf₁, hH₁, hfile₁, hc₁, -, hnodes₁⟩
  · -- the second request is the first one again
    obtain ⟨f₂, k₂, hopen₂, ha₂, ⟨rfl, rfl⟩ | ⟨hf₂, -⟩⟩ := hs.openConsole vfsAccessWrite h
      (hroom _ (by simp only [List.length_cons]; omega)) hd (by decide) (by decide) (by decide)
    · exact ⟨false, _, _, seedFiles_none hopen₁ hopen₂, hnever (hfirst rfl),
        .inr ⟨rfl, rfl, .inl ⟨hfirst rfl, [d, c, b, a], by simp, h⟩⟩⟩
    · exact absurd (Prod.mk.inj (Except.ok.inj (ha₂.symm.trans ha₁))).1 hf₂
  obtain ⟨f₂, k₂, hopen₂, ha₂, hcase₂⟩ := hs.openConsole vfsAccessWrite hH₁
    (hroom _ (by simp only [List.length_cons]; omega)) ((hnodes₁ _ hdc).trans hd) (by decide)
    (by decide) (by decide)
  rcases hcase₂ with ⟨rfl, rfl⟩ | ⟨hf₂, hH₂, hfile₂, hd₂, hfiles₂, hnodes₂⟩
  · obtain ⟨k', hrun, hH'⟩ := hs.seedFiles_one hopen₁ hopen₂ hH₁ hfile₁ hc₁
    have hno : ¬ Serves k.heap k.phys [vfsFileSize, vfsFileSize] := fun hserved =>
      ((serves_cons ha₂ []).mp (hserves.mp hserved).2).1 rfl
    exact ⟨false, _, k', hrun, hnever hno, .inr ⟨rfl, rfl, .inl ⟨hno, [d, b], by simp, hH'⟩⟩⟩
  have hserved : Serves k.heap k.phys [vfsFileSize, vfsFileSize] :=
    hserves.mpr ⟨hf₁, (serves_cons ha₂ []).mpr ⟨hf₂, [], _, _, rfl, by simp⟩⟩
  obtain ⟨f₃, k₃, hopen₃, ha₃, hcase₃⟩ := hs.openConsole vfsAccessWrite hH₂
    (hroom _ (by simp only [List.length_cons]; omega)) hd₂ (by decide) (by decide) (by decide)
  have hthird : Serves k.heap k.phys [vfsFileSize, vfsFileSize, vfsFileSize] ↔ f₃ ≠ 0#64 := by
    rw [serves_cons ha₁, serves_cons ha₂, serves_cons ha₃]
    exact ⟨fun hserved => hserved.2.2.1, fun hf₃ => ⟨hf₁, hf₂, hf₃, [], _, _, rfl, List.not_mem_nil⟩⟩
  have hnd₂ := hs.nodup hH₂
  have hf : f₁ ≠ f₂ := fun he => (List.nodup_cons.mp hnd₂).1 (by simp [he])
  rcases hcase₃ with ⟨rfl, rfl⟩ | ⟨hf₃, -⟩
  · obtain ⟨k', hrun, hfrees, hH', hp⟩ := hs.seedFiles_two hopen₁ hopen₂ hopen₃ hH₂
      ((hfiles₂ _ hf).trans hfile₁) hfile₂ ((hnodes₂ _ hdc.symm).trans hc₁) hd₂
    refine ⟨false, _, k', hrun, iff_of_false (by simp) fun hs₃ => hthird.mp hs₃ rfl,
      .inr ⟨rfl, rfl, .inr ⟨hserved, hH', f₁, f₂, k₃.heap, ?_, hfrees⟩⟩⟩
    rw [hp]
    exact kzallocAll_cons ha₁ (kzallocAll_cons ha₂ (kzallocAll_cons ha₃ rfl))
  · refine ⟨true, _, k₃, (fdSeedFiles_eq hopen₁ hopen₂ hopen₃).trans (if_neg ?_),
      iff_of_true rfl (hthird.mpr hf₃), .inl rfl⟩
    simp [hf₁, hf₂, hf₃]

/-- `fd_table_seed_console` on a fresh table, whatever else is on the heap. -/
theorem HeapSpec.seed (hs : HeapSpec H room sure) (h : H k.heap k.phys ptrs)
    (hroom : ∀ m ≤ ptrs.length + 6, room m) :
    ∃ seeded table k', fdTableSeedConsole k fdTableInitialize = .ok (seeded, table, k') ∧
      SeedEnd H k ptrs seeded table k' ∧ (seeded = true ↔ Serves k.heap k.phys seedSizes) := by
  obtain ⟨a, b, c, d, h₁, s₁, halloc, -, -, ⟨-, hnot, h', hfree, hH, hr⟩ | ⟨hnz, hH, hr⟩⟩ :=
    hs.seedBlocks h (fun m hm => hroom m (by omega)) fdTableInitialize
  · exact ⟨false, _, _, hr, .undone (.inl hnot)
      ⟨consoleSizes, [a, b, c, d], h₁, [a, b, c, d], List.prefix_append _ _, halloc, hfree, .refl _⟩ hH,
      iff_of_false (by simp) fun hserved => hnot hserved.of_append⟩
  have hserved : Serves k.heap k.phys consoleSizes := (serves_iff halloc).mpr hnz
  have hopened := serves_append halloc hnz [vfsFileSize, vfsFileSize]
  have hcd : c ≠ d := by
    have hnd := hs.nodup hH
    rintro rfl
    simp at hnd
  obtain ⟨seeded, table, k', hr', hall, hend⟩ := hs.seedFiles
    (k := { k with heap := h₁, phys := s₁ }.withConsole a b c d) hH hroom (withConsole_input hcd)
    withConsole_output
  refine ⟨seeded, table, k', hr.trans hr', ?_, hall.trans (serves_append halloc hnz _).symm⟩
  rcases hend with rfl | ⟨rfl, rfl, ⟨hfiles, blocks, hne, hH'⟩ | ⟨hfiles, hH', f₁, f₂, h₂, ha, hf⟩⟩
  · have hfiles : Serves h₁ s₁ ([vfsFileSize, vfsFileSize] ++ [vfsFileSize]) := hall.mp rfl
    exact .seeded (hopened.mpr hfiles.of_append)
  · exact .leaked hserved (fun ho => hfiles (hopened.mp ho)) hne hH'
  · refine .undone (.inr (hopened.mpr hfiles))
      ⟨seedSizes, [a, b, c, d, f₁, f₂, 0#64], h₂, [f₁, a, c, f₂, b, d], List.prefix_rfl, ?_, hf, ?_⟩ hH'
    · rw [seedSizes, kzallocAll_append halloc, show kzallocAll h₁ s₁ _ = _ from ha, ok_bind]
      rfl
    · have hperm : (0#64 :: [f₁, a, c, f₂, b, d]).Perm [a, b, c, d, f₁, f₂, 0#64] := by
        refine List.perm_iff_count.mpr fun x => ?_
        simp only [List.count_cons]
        omega
      have hfilter := hperm.filter (· ≠ 0#64)
      rwa [List.filter_cons_of_neg (by simp)] at hfilter

end Leak

/-- The table is empty, every block that was asked for is freed again, each once,
and the heap has handed out what it had before. -/
structure SeedUndone (k : Store) (ptrs : List Word) (table : FdTable) (k' : Store) : Prop where
  table : ∀ i, (table i).used = 0
  freed : FreedAgain k k'
  handed : ∃ pages L l, HeapState k'.heap k'.phys pages ptrs L l

lemma SeedEnd.undone_iff {k k' : Store} {ptrs : List Word} {seeded : Bool} {table : FdTable}
    (hend : SeedEnd (HeapWith []) k ptrs seeded table k') :
    (seeded = false → SeedUndone k ptrs table k') ↔
      ¬ Serves k.heap k.phys consoleSizes ∨ Serves k.heap k.phys openedSizes := by
  cases hend with
  | seeded hopen => exact iff_of_true (fun h => by cases h) (.inr hopen)
  | undone hopen hfreed hH =>
    obtain ⟨pages, L, l, hheap⟩ := hH
    rw [List.append_nil] at hheap
    exact iff_of_true (fun _ => ⟨fun _ => rfl, hfreed, pages, L, l, hheap⟩) hopen
  | leaked hnodes hopen hblocks hH =>
    refine iff_of_false (fun hundone => ?_) (by tauto)
    obtain ⟨pages, L, l, hheap⟩ := hH
    obtain ⟨-, -, pages', L', l', hheap'⟩ := hundone rfl
    have hlen := (hheap.handed_unique hheap').length_eq
    simp only [List.length_append, List.length_nil] at hlen
    exact hblocks (List.length_eq_zero_iff.mp (by omega))

/-- A failed seeding is undone unless the four blocks of the console are there
and the files of its two nodes are not. -/
theorem fdTableSeedConsole_undone {k : Store} {pages ptrs l : List Word} {L : List Block}
    (hheap : HeapState k.heap k.phys pages ptrs L l) :
    ∃ seeded table k', fdTableSeedConsole k fdTableInitialize = .ok (seeded, table, k') ∧
      ((seeded = false → SeedUndone k ptrs table k') ↔
        ¬ Serves k.heap k.phys consoleSizes ∨ Serves k.heap k.phys openedSizes) := by
  have hH : HeapWith [] k.heap k.phys ptrs := ⟨pages, L, l, by simpa using hheap⟩
  obtain ⟨seeded, table, k', hr, hend, -⟩ := (heapWith_spec []).seed hH fun _ _ => trivial
  exact ⟨seeded, table, k', hr, hend.undone_iff⟩

/-- Of the heap's one page `size` bytes are in use, and there is no other page. -/
def filledStore (size : Word) : Store :=
  match kzalloc emptyHeap onePage size with
  | .ok (_, h, s) => { smallStore with heap := h, phys := s }
  | .error _ => smallStore

lemma filledStore_heap {size : Word} (h0 : size ≠ 0#64) (hfits : size.toNat ≤ 0xFFFFFFF0)
    (hptr : (kzalloc emptyHeap onePage size).toOption.map (fun r => r.1) = some 0x02000020#64) :
    ∃ pages L l, HeapState (filledStore size).heap (filledStore size).phys pages [0x02000020#64] L l := by
  obtain ⟨⟨ptr, h, s⟩, hr, rfl⟩ := Option.map_eq_some_iff.mp hptr
  have hr := toOption_eq_some.mp hr
  have hout := kzalloc_spec emptyHeap_state.inv emptyHeap_state.free emptyHeap_state.apart h0 hfits
  rw [hr] at hout
  obtain ⟨L, l, hs⟩ := emptyHeap_state.malloc hout
  have hstore : filledStore size = { smallStore with heap := h, phys := s } := by
    unfold filledStore
    rw [hr]
  rw [hstore]
  exact ⟨_, L, l, hs⟩

/-- Whether the heap serves the blocks is seen from the pointers. -/
lemma serves_of_ptrs {h : Heap} {s : Phys} {sizes ptrs : List Word}
    (hptrs : (kzallocAll h s sizes).toOption.map (fun r => r.1) = some ptrs) :
    Serves h s sizes ↔ 0#64 ∉ ptrs := by
  obtain ⟨⟨ptrs, h', s'⟩, hr, rfl⟩ := Option.map_eq_some_iff.mp hptrs
  exact serves_iff (toOption_eq_some.mp hr)

/-- With room for three of the console's four blocks the seeding fails, and the three
are freed again. -/
theorem fdTableSeedConsole_undone_sample : ∃ table k',
    (kzallocAll (filledStore 3904#64).heap (filledStore 3904#64).phys consoleSizes).toOption.map
      (fun r => r.1) = some [0x02000F80#64, 0x02000FB0#64, 0x02000FE0#64, 0#64] ∧
    fdTableSeedConsole (filledStore 3904#64) fdTableInitialize = .ok (false, table, k') ∧
    SeedUndone (filledStore 3904#64) [0x02000020#64] table k' := by
  obtain ⟨pages, L, l, hheap⟩ := filledStore_heap (show (3904#64 : Word) ≠ 0#64 by decide) (by decide)
    (by decide +kernel)
  have hthree : (kzallocAll (filledStore 3904#64).heap (filledStore 3904#64).phys
      consoleSizes).toOption.map (fun r => r.1) =
      some [0x02000F80#64, 0x02000FB0#64, 0x02000FE0#64, 0#64] := by decide +kernel
  have hfails : (fdTableSeedConsole (filledStore 3904#64) fdTableInitialize).toOption.map
      (fun r => r.1) = some false := by decide +kernel
  obtain ⟨seeded, table, k', hr, hundone⟩ := fdTableSeedConsole_undone hheap
  rw [hr] at hfails
  obtain rfl : seeded = false := Option.some.inj hfails
  exact ⟨table, k', hthree, hr, hundone.mpr (.inl ((serves_of_ptrs hthree).not.mpr (by decide))) rfl⟩

/-- The four blocks of the console fit, a fifth does not. -/
def nearlyFull : Store := filledStore 3840#64

lemma nearlyFull_heap : ∃ pages L l,
    HeapState nearlyFull.heap nearlyFull.phys pages [0x02000020#64] L l :=
  filledStore_heap (by decide) (by decide) (by decide +kernel)

lemma nearlyFull_serves : Serves nearlyFull.heap nearlyFull.phys consoleSizes ∧
    ¬ Serves nearlyFull.heap nearlyFull.phys openedSizes := by
  have hfour : (kzallocAll nearlyFull.heap nearlyFull.phys consoleSizes).toOption.map (fun r => r.1) =
      some [0x02000F40#64, 0x02000F70#64, 0x02000FA0#64, 0x02000FE0#64] := by decide +kernel
  have hsix : (kzallocAll nearlyFull.heap nearlyFull.phys openedSizes).toOption.map (fun r => r.1) =
      some [0x02000F40#64, 0x02000F70#64, 0x02000FA0#64, 0x02000FE0#64, 0#64, 0#64] := by
    decide +kernel
  exact ⟨(serves_of_ptrs hfour).mpr (by decide), (serves_of_ptrs hsix).not.mpr (by decide)⟩

/-- The blocks of the console's nodes stay in use. -/
theorem nearlyFull_leaks : ∃ pages ptrs L l k',
    HeapState nearlyFull.heap nearlyFull.phys pages ptrs L l ∧
    fdTableSeedConsole nearlyFull fdTableInitialize = .ok (false, fdTableInitialize, k') ∧
    ¬ SeedUndone nearlyFull ptrs fdTableInitialize k' := by
  obtain ⟨pages, L, l, hheap⟩ := nearlyFull_heap
  obtain ⟨hfour, hsix⟩ := nearlyFull_serves
  have hH : HeapWith [] nearlyFull.heap nearlyFull.phys [0x02000020#64] :=
    ⟨pages, L, l, by simpa using hheap⟩
  obtain ⟨seeded, table, k', hr, hend, -⟩ := (heapWith_spec []).seed hH fun _ _ => trivial
  have hnot : ¬ (seeded = false → SeedUndone nearlyFull [0x02000020#64] table k') := fun hundone =>
    (hend.undone_iff.mp hundone).elim (fun h => h hfour) hsix
  push Not at hnot
  obtain ⟨rfl, hnot⟩ := hnot
  refine ⟨pages, _, L, l, k', hheap, ?_⟩
  cases hend with
  | undone => exact ⟨hr, hnot⟩
  | leaked => exact ⟨hr, hnot⟩

end Platinum
