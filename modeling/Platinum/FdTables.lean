import Platinum.FdObjects

/-!
# Descriptor tables and their references

Every used entry of a table holds one reference to its file. The operations on a
table keep `FdInv` for the references it holds together with those of others.
-/
namespace Platinum
open ByteMemory

def entryFiles (e : FdEntry) : List Word := if e.used = 0 then [] else [e.file]

/-- The files that a table names, as often as it does. -/
def tableFiles (table : FdTable) : List Word :=
  (List.finRange fdTableCapacity).flatMap fun i => entryFiles (table i)

/-- A used entry is of its node's kind, and its file may do what its mode says. -/
structure EntryOk (k : Store) (e : FdEntry) : Prop where
  known : e.kind ≠ .none
  kind : e.kind = .console ↔ (k.node (k.file e.file).node).kind = .console
  access : vfsOpenFlagsValid (k.file e.file).access = true
  supported : ∃ ops, (k.node (k.file e.file).node).ops = some ops ∧
    ((k.file e.file).access &&& vfsAccessRead ≠ 0 → ops.hasRead = true) ∧
    ((k.file e.file).access &&& vfsAccessWrite ≠ 0 → ops.hasWrite = true)
  not_directory : (k.node (k.file e.file).node).kind ≠ .directory

/-- Entries that are not used are cleared. -/
def TableOk (k : Store) (table : FdTable) : Prop :=
  ∀ i, if (table i).used = 0 then table i = .empty else EntryOk k (table i)

section Tables

variable {k k' : Store} {table t : FdTable} {held held' files files' nodes nodes' others : List Word}
  {f : Word} {e : FdEntry} {i : Fin fdTableCapacity}

lemma mem_tableFiles : f ∈ tableFiles table ↔ ∃ i, (table i).used ≠ 0 ∧ (table i).file = f := by
  refine List.mem_flatMap.trans (exists_congr fun i => ?_)
  unfold entryFiles
  split_ifs with h
  · exact ⟨fun ⟨_, hm⟩ => absurd hm List.not_mem_nil, fun ⟨hu, _⟩ => absurd h hu⟩
  · exact ⟨fun ⟨_, hm⟩ => ⟨h, (List.mem_singleton.mp hm).symm⟩,
      fun ⟨_, he⟩ => ⟨List.mem_finRange i, List.mem_singleton.mpr he.symm⟩⟩

/-- Writing an entry exchanges what it names. -/
lemma tableFiles_update (table : FdTable) (i : Fin fdTableCapacity) (e : FdEntry) :
    (entryFiles (table i) ++ tableFiles (Function.update table i e)).Perm
      (entryFiles e ++ tableFiles table) := by
  obtain ⟨A, B, hAB⟩ := List.append_of_mem (List.mem_finRange i)
  have hnd := List.nodup_finRange fdTableCapacity
  rw [hAB] at hnd
  obtain ⟨-, hB, hA⟩ := List.nodup_append.mp hnd
  have hside : ∀ M : List (Fin fdTableCapacity), i ∉ M →
      M.flatMap (fun j => entryFiles (Function.update table i e j)) =
        M.flatMap fun j => entryFiles (table j) := by
    intro M hM
    refine List.flatMap_congr fun j hj => ?_
    rw [Function.update_of_ne (by rintro rfl; exact hM hj)]
  have hA' : i ∉ A := fun hi => hA i hi i (by simp) rfl
  have hB' : i ∉ B := (List.nodup_cons.mp hB).1
  refine List.perm_iff_count.mpr fun x => ?_
  simp only [tableFiles, hAB, List.flatMap_append, List.flatMap_cons, hside A hA', hside B hB',
    Function.update_self, List.count_append]
  omega

lemma tableFiles_initial : tableFiles fdTableInitialize = [] := by
  rw [List.eq_nil_iff_forall_not_mem]
  intro f hf
  obtain ⟨i, hi, -⟩ := mem_tableFiles.mp hf
  exact hi rfl

lemma tableFiles_length (table : FdTable) : (tableFiles table).length ≤ 16 := by
  have h : ∀ M : List (Fin fdTableCapacity),
      (M.flatMap fun j => entryFiles (table j)).length ≤ M.length := by
    intro M
    induction M with
    | nil => simp
    | cons j M ih =>
      have hj : (entryFiles (table j)).length ≤ 1 := by
        unfold entryFiles
        split_ifs <;> simp
      simp only [List.flatMap_cons, List.length_append, List.length_cons]
      omega
  exact (h _).trans (List.length_finRange).le

lemma tableOk_initial (k : Store) : TableOk k fdTableInitialize := fun _ => if_pos rfl ▸ rfl

lemma TableOk.entry (h : TableOk k table) (hi : (table i).used ≠ 0) : EntryOk k (table i) := by
  have h := h i
  rwa [if_neg hi] at h

lemma TableOk.update (h : TableOk k table) (he : if e.used = 0 then e = .empty else EntryOk k e) :
    TableOk k (Function.update table i e) := by
  intro j
  by_cases hj : j = i
  · subst hj
    rw [Function.update_self]
    exact he
  · rw [Function.update_of_ne hj]
    exact h j

lemma TableOk.install (h : TableOk k table) {kind : FdKind} (he : EntryOk k ⟨1, kind, f⟩) :
    TableOk k (Function.update table i ⟨1, kind, f⟩) := by
  refine h.update ?_
  rw [if_neg (show ¬ (1 : BitVec 32) = 0 by decide)]
  exact he

lemma EntryOk.kept (h : EntryOk k e) (hk : Kept k k' files nodes) (hf : e.file ∈ files)
    (hn : NodeAlive nodes (k.file e.file).node) : EntryOk k' e := by
  obtain ⟨h₀, h₁, h₂, h₃, h₄⟩ := h
  constructor
  · exact h₀
  · rwa [hk.node _ hf, hk.kind _ hn]
  · rwa [hk.access _ hf]
  · rwa [hk.node _ hf, hk.access _ hf, hk.ops _ hn]
  · rwa [hk.node _ hf, hk.kind _ hn]

lemma TableOk.kept (h : TableOk k t) (hk : Kept k k' files nodes)
    (hf : ∀ f ∈ tableFiles t, f ∈ files ∧ NodeAlive nodes (k.file f).node) : TableOk k' t := by
  intro i
  have hi := h i
  split_ifs at hi ⊢ with hu
  · exact hi
  · obtain ⟨hf, hn⟩ := hf _ (mem_tableFiles.mpr ⟨i, hu, rfl⟩)
    exact hi.kept hk hf hn

/-- Tables stay sound when objects are added. -/
lemma TableOk.grow (h : TableOk k t) (hc : FdCounts k held files nodes) (hk : Kept k k' files nodes)
    (hsub : ∀ f ∈ tableFiles t, f ∈ held) : TableOk k' t :=
  h.kept hk fun f hf => by
    have hf := (hc.mem_files f).mpr (hsub f hf)
    exact ⟨hf, hc.alive f hf⟩

/-- Tables stay sound when objects they do not name go. -/
lemma TableOk.shrink (h : TableOk k t) (hc : FdCounts k' held files nodes) (hk : Kept k k' files nodes)
    (hsub : ∀ f ∈ tableFiles t, f ∈ held) : TableOk k' t :=
  h.kept hk fun f hf => by
    have hf := (hc.mem_files f).mpr (hsub f hf)
    exact ⟨hf, hk.node f hf ▸ hc.alive f hf⟩

/-- `fd_table_install` takes the first free entry, if there is one. -/
lemma fdTableInstall_spec (table : FdTable) {kind : FdKind} (hkind : kind ≠ .none) (hf : f ≠ 0#64) :
    (fdTableInstall table kind f = (-1, table) ∧ ∀ i, (table i).used ≠ 0) ∨
      ∃ i, (table i).used = 0 ∧
        fdTableInstall table kind f = ((i.val : Int), Function.update table i ⟨1, kind, f⟩) := by
  unfold fdTableInstall
  rw [if_neg (not_or.mpr ⟨hkind, hf⟩)]
  cases hfind : (List.finRange fdTableCapacity).find? fun index => (table index).used = 0 with
  | none =>
    refine .inl ⟨rfl, fun i => ?_⟩
    simpa using List.find?_eq_none.mp hfind i (List.mem_finRange i)
  | some i =>
    have hi : decide ((table i).used = 0) = true := by simpa using List.find?_some hfind
    exact .inr ⟨i, of_decide_eq_true hi, rfl⟩

/-- An installed file is named once more. -/
lemma tableFiles_install (t : FdTable) (kind : FdKind) (hi : (t i).used = 0) :
    (tableFiles (Function.update t i ⟨1, kind, f⟩)).Perm (f :: tableFiles t) := by
  have h := tableFiles_update t i ⟨1, kind, f⟩
  rwa [entryFiles, if_pos hi, entryFiles, if_neg (show ¬ (1 : BitVec 32) = 0 by decide)] at h

lemma tableFiles_clear (hi : (table i).used ≠ 0) :
    ((table i).file :: tableFiles (Function.update table i .empty)).Perm (tableFiles table) := by
  have h := tableFiles_update table i .empty
  rwa [entryFiles, if_neg hi, entryFiles, if_pos (by rfl)] at h

end Tables

/-- The open files and the nodes are as before. -/
structure Unchanged (k k' : Store) (files nodes : List Word) : Prop where
  file : ∀ f ∈ files, k'.file f = k.file f
  node : ∀ r, NodeAlive nodes r → k'.node r = k.node r

/-- A call on `table` that keeps everything counted; `others` are the references
held elsewhere. -/
structure TableStep (H : Heap → Phys → List Word → Prop) (k : Store) (others files nodes : List Word)
    (k' : Store) (table' : FdTable) (files' nodes' : List Word) : Prop where
  inv : FdInv H k' (tableFiles table' ++ others) files' nodes'
  table : TableOk k' table'
  other : ∀ t, TableOk k t → (∀ f ∈ tableFiles t, f ∈ others) → TableOk k' t
  root : k'.namespaceRootEntries = k.namespaceRootEntries
  ready : k'.namespaceReady = k.namespaceReady
  events : FdEvents k files → FdEvents k' files'

/-- Every node on the heap has a file. -/
def AllBusy (k : Store) (files nodes : List Word) : Prop :=
  ∀ n ∈ nodes, 0 < filesOn k files (.allocated n)

section Calls

variable {H : Heap → Phys → List Word → Prop} {room : ℕ → Prop} {sure : Prop} {k k' : Store}
  {table : FdTable} {held files files' nodes nodes' others : List Word} {f : Word}

lemma Unchanged.refl (k : Store) (files nodes : List Word) : Unchanged k k files nodes :=
  ⟨fun _ _ => rfl, fun _ _ => rfl⟩

/-- Counts of the same references are the same. -/
lemma Kept.unchanged (hk : Kept k k' files nodes) (ho : SameOffsets k k' files)
    (h : FdCounts k held files nodes) (h' : FdCounts k' held files' nodes')
    (hn : ∀ n ∈ nodes, n ∈ nodes') : Unchanged k k' files nodes := by
  have hfiles : files.Perm files' := (List.perm_ext_iff_of_nodup h.nodup h'.nodup).mpr fun f =>
    (h.mem_files f).trans (h'.mem_files f).symm
  constructor
  · intro f hf
    have hrefs : (k'.file f).refs = (k.file f).refs :=
      BitVec.eq_of_toNat_eq ((h'.refs f (hfiles.mem_iff.mp hf)).trans (h.refs f hf).symm)
    have h₁ := hk.node f hf
    have h₂ := hk.access f hf
    have h₃ := ho f hf
    generalize k'.file f = x at *
    generalize k.file f = y at *
    cases x
    cases y
    simp_all
  · intro r hr
    have hrefs : (k'.node r).refs = (k.node r).refs := by
      refine BitVec.eq_of_toNat_eq ((h'.node_refs r (hr.mono hn)).trans ?_)
      rw [h.node_refs r hr, ← filesOn_perm hfiles, filesOn_congr hk.node]
    have h₁ := hk.kind r hr
    have h₂ := hk.ops r hr
    have h₃ := hk.data r hr
    generalize k'.node r = x at *
    generalize k.node r = y at *
    cases x
    cases y
    simp_all

/-- `vfs_file_retain` counts one more reference to an open file. -/
lemma FdInv.retainFile (hs : HeapSpec H room sure) (h : FdInv H k held files nodes) (hf : f ∈ files)
    (hsmall : held.length + 1 < 2 ^ 31) :
    ∃ k', vfsFileRetain k f = (0, k') ∧ FdInv H k' (f :: held) files nodes ∧
      Kept k k' files nodes ∧ SameOffsets k k' files ∧ k'.phys = k.phys ∧
      (FdEvents k files → FdEvents k' files) := by
  have hrefs := h.counts.refs f hf
  have h0 : f ≠ 0#64 := fun h0 => h.zero_not_mem hs (h0 ▸ hf)
  have hpos := List.count_pos_iff.mpr ((h.counts.mem_files f).mp hf)
  have hopen : (k.file f).refs ≠ 0 := by
    intro hr
    rw [hr] at hrefs
    have hz : (0 : BitVec 32).toNat = 0 := rfl
    omega
  have hfile := setRefs_file k f ((k.file f).refs + 1)
  refine ⟨k.setFile f { k.file f with refs := (k.file f).refs + 1 }, ?_,
    ⟨h.counts.retain hf hsmall, h.heap⟩,
    ⟨fun g _ => ?_, fun g _ => ?_, fun _ _ => rfl, fun _ _ => rfl, fun _ _ => rfl, rfl, rfl⟩,
    fun g _ => ?_, rfl, fun he => he.congr (fun r => filesOn_congr fun g _ => ?_) rfl⟩
  · unfold vfsFileRetain
    rw [if_neg (not_or.mpr ⟨h0, not_or.mpr ⟨hopen, (h.counts.alive f hf).ne_null⟩⟩)]
  all_goals
    obtain ⟨refs', hg⟩ := hfile g
    rw [hg]

lemma TableStep.refl (h : FdInv H k (tableFiles table ++ others) files nodes) (ht : TableOk k table) :
    TableStep H k others files nodes k table files nodes :=
  ⟨h, ht, fun _ h' _ => h', rfl, rfl, id⟩

lemma fdIndex_used {fd : Int} {i : Fin fdTableCapacity} (h : fdIndex table fd = some i) :
    (table i).used ≠ 0 := by
  unfold fdIndex at h
  split_ifs at h with hfd hu
  obtain rfl := Option.some.inj h
  exact hu

/-- A duplicate is one more reference; without a free entry nothing changes. -/
theorem FdInv.dup (hs : HeapSpec H room sure)
    (h : FdInv H k (tableFiles table ++ others) files nodes) (ht : TableOk k table)
    (hfew : others.length ≤ 16) (fd : Int) :
    ∃ r table' k', fdTableDup k table fd = .ok (r, table', k') ∧
      TableStep H k others files nodes k' table' files nodes ∧ Kept k k' files nodes ∧
      k'.phys = k.phys ∧ (r < 0 → table' = table ∧ Unchanged k k' files nodes) := by
  unfold fdTableDup fdTableGet
  cases hidx : fdIndex table fd with
  | none =>
    exact ⟨-1, table, k, rfl, .refl h ht, Kept.refl k files nodes, rfl,
      fun _ => ⟨rfl, Unchanged.refl k files nodes⟩⟩
  | some i =>
    have hu := fdIndex_used hidx
    have hmem : (table i).file ∈ tableFiles table := mem_tableFiles.mpr ⟨i, hu, rfl⟩
    have hf : (table i).file ∈ files := (h.counts.mem_files _).mpr (List.mem_append_left _ hmem)
    have hlen := tableFiles_length table
    obtain ⟨k₁, hr₁, h₁, hk₁, ho₁, hp₁, he₁⟩ := h.retainFile hs hf (by rw [List.length_append]; omega)
    have hok := ht.entry hu
    dsimp only [Option.map_some]
    rw [hr₁]
    dsimp only
    rw [if_neg (by decide)]
    rcases fdTableInstall_spec table hok.known fun h0 => h.zero_not_mem hs (h0 ▸ hf) with
      ⟨hins, -⟩ | ⟨j, hj, hins⟩
    · obtain ⟨k₂, hr₂, hc⟩ := h₁.closeShared hf (fun h0 => h.zero_not_mem hs (h0 ▸ hf)) (by
        rw [List.count_cons_self]
        have := List.count_pos_iff.mpr (List.mem_append_left others hmem)
        omega)
      have hinv := hc.inv
      rw [List.erase_cons_head] at hinv
      rw [hins]
      dsimp only
      rw [if_pos (by decide), hr₂, ok_bind]
      have hk := hk₁.trans hc.kept
      refine ⟨-1, table, k₂, rfl, ⟨hinv, ?_, fun t h' hsub => ?_, hk.root, hk.ready,
        fun he => hc.events (he₁ he)⟩, hk, hc.phys.trans hp₁, fun _ => ⟨rfl, ?_⟩⟩
      · exact ht.grow h.counts hk fun f hf => List.mem_append_left _ hf
      · exact h'.grow h.counts hk fun f hf => List.mem_append_right _ (hsub f hf)
      · exact hk.unchanged (ho₁.trans hc.offsets) h.counts hinv.counts fun n hn => hn
    · rw [hins]
      dsimp only
      rw [if_neg (by omega)]
      refine ⟨j.val, _, k₁, rfl, ⟨⟨?_, h₁.heap⟩, ?_, fun t h' hsub => ?_, hk₁.root,
        hk₁.ready, he₁⟩, hk₁, hp₁, fun hlt => ?_⟩
      · exact h₁.counts.perm ((tableFiles_install _ _ hj).symm.append_right others)
      · have hok' := hok.kept hk₁ hf (h.counts.alive _ hf)
        exact (ht.grow h.counts hk₁ fun f hf => List.mem_append_left _ hf).install ⟨hok'.known, hok'.kind, hok'.access, hok'.supported, hok'.not_directory⟩
      · exact h'.grow h.counts hk₁ fun f hf => List.mem_append_right _ (hsub f hf)
      · omega

/-- Closing a descriptor takes its reference back. -/
theorem FdInv.close (hs : HeapSpec H room sure)
    (h : FdInv H k (tableFiles table ++ others) files nodes) (ht : TableOk k table) (fd : Int) :
    ∃ r table' k' files' nodes', fdTableClose k table fd = .ok (r, table', k') ∧
      TableStep H k others files nodes k' table' files' nodes' ∧ k'.phys = k.phys ∧
      (AllBusy k files nodes → AllBusy k' files' nodes') ∧ (∀ n ∈ nodes', n ∈ nodes) ∧
      (r < 0 → table' = table ∧ Unchanged k k' files nodes) ∧
      table' = (fdIndex table fd).elim table (Function.update table · .empty) := by
  unfold fdTableClose
  cases hidx : fdIndex table fd with
  | none =>
    exact ⟨-1, table, k, files, nodes, rfl, .refl h ht, rfl, id, fun n hn => hn,
      fun _ => ⟨rfl, Unchanged.refl k files nodes⟩, rfl⟩
  | some i =>
    have hu := fdIndex_used hidx
    have hmem : (table i).file ∈ tableFiles table := mem_tableFiles.mpr ⟨i, hu, rfl⟩
    obtain ⟨k', files', nodes', hr, hc⟩ := h.closeFile hs (List.mem_append_left others hmem)
    have hperm : ((tableFiles table ++ others).erase (table i).file).Perm
        (tableFiles (Function.update table i .empty) ++ others) := by
      rw [List.erase_append_left _ hmem]
      have hp := (tableFiles_clear hu).symm.erase (table i).file
      rw [List.erase_cons_head] at hp
      exact hp.append_right others
    have hinv : FdInv H k' (tableFiles (Function.update table i .empty) ++ others) files' nodes' :=
      ⟨hc.inv.counts.perm hperm, hc.inv.heap⟩
    have hok : TableOk k (Function.update table i .empty) := ht.update (if_pos rfl ▸ rfl)
    dsimp only
    refine ⟨0, _, k', files', nodes', by rw [hr, ok_bind], ⟨hinv, ?_, fun t h' hsub => ?_,
      hc.kept.root, hc.kept.ready, hc.events⟩, hc.phys, hc.busy, hc.sub_nodes, fun hlt => by omega, rfl⟩
    · exact hok.shrink hinv.counts hc.kept fun f hf => List.mem_append_left _ hf
    · exact h'.shrink hinv.counts hc.kept fun f hf => List.mem_append_right _ (hsub f hf)

lemma TableStep.trans {k'' : Store} {table' table'' : FdTable} {files'' nodes'' : List Word}
    (h : TableStep H k others files nodes k' table' files' nodes')
    (h' : TableStep H k' others files' nodes' k'' table'' files'' nodes'') :
    TableStep H k others files nodes k'' table'' files'' nodes'' :=
  ⟨h'.inv, h'.table, fun t ht hsub => h'.other t (h.other t ht hsub) hsub, h'.root.trans h.root,
    h'.ready.trans h.ready, fun he => h'.events (h.events he)⟩

lemma fdIndex_val {i : Fin fdTableCapacity} (hu : (table i).used ≠ 0) :
    fdIndex table (i.val : Int) = some i := by
  unfold fdIndex
  rw [dif_pos ⟨by omega, by simp⟩]
  exact if_neg hu

/-- The loop of `fd_table_close_all` clears the entries it visits. -/
lemma FdInv.closeLoop (hs : HeapSpec H room sure) : ∀ {l : List (Fin fdTableCapacity)} {k : Store}
    {table : FdTable} {files nodes : List Word},
    FdInv H k (tableFiles table ++ others) files nodes → TableOk k table →
    ∃ table' k' files' nodes', fdTableCloseLoop l k table = .ok (table', k') ∧
      TableStep H k others files nodes k' table' files' nodes' ∧ k'.phys = k.phys ∧
      (AllBusy k files nodes → AllBusy k' files' nodes') ∧ (∀ n ∈ nodes', n ∈ nodes) ∧
      ∀ i, table' i = if i ∈ l then .empty else table i
  | [], k, table, files, nodes, h, ht =>
    ⟨table, k, files, nodes, rfl, .refl h ht, rfl, id, fun n hn => hn, fun i => by simp⟩
  | j :: l, k, table, files, nodes, h, ht => by
    unfold fdTableCloseLoop
    by_cases hu : (table j).used ≠ 0
    · rw [if_pos hu]
      obtain ⟨r, table₁, k₁, files₁, nodes₁, hr₁, hstep₁, hp₁, hb₁, hn₁, -, htab₁⟩ :=
        h.close hs ht (j.val : Int)
      rw [fdIndex_val hu] at htab₁
      obtain ⟨table₂, k₂, files₂, nodes₂, hr₂, hstep₂, hp₂, hb₂, hn₂, htab₂⟩ :=
        FdInv.closeLoop hs (l := l) hstep₁.inv hstep₁.table
      rw [hr₁, ok_bind]
      refine ⟨table₂, k₂, files₂, nodes₂, hr₂, hstep₁.trans hstep₂, hp₂.trans hp₁,
        fun hb => hb₂ (hb₁ hb), fun n hn => hn₁ n (hn₂ n hn), fun i => ?_⟩
      rw [htab₂, htab₁]
      by_cases hij : i = j
      · subst hij
        simp
      · simp [hij]
    · rw [if_neg hu]
      obtain ⟨table₂, k₂, files₂, nodes₂, hr₂, hstep₂, hp₂, hb₂, hn₂, htab₂⟩ :=
        FdInv.closeLoop hs (l := l) h ht
      refine ⟨table₂, k₂, files₂, nodes₂, hr₂, hstep₂, hp₂, hb₂, hn₂, fun i => ?_⟩
      rw [htab₂]
      by_cases hij : i = j
      · subst hij
        have hi := ht i
        rw [if_pos (not_not.mp hu)] at hi
        simp [hi]
      · simp [hij]

/-- `fd_table_close_all` leaves a fresh table. -/
theorem FdInv.closeAll (hs : HeapSpec H room sure)
    (h : FdInv H k (tableFiles table ++ others) files nodes) (ht : TableOk k table) :
    ∃ k' files' nodes', fdTableCloseAll k table = .ok (fdTableInitialize, k') ∧
      TableStep H k others files nodes k' fdTableInitialize files' nodes' ∧ k'.phys = k.phys ∧
      (AllBusy k files nodes → AllBusy k' files' nodes') ∧ ∀ n ∈ nodes', n ∈ nodes := by
  obtain ⟨table', k', files', nodes', hr, hstep, hp, hb, hn, htab⟩ :=
    h.closeLoop hs ht (l := List.finRange fdTableCapacity)
  obtain rfl : table' = fdTableInitialize := by
    funext i
    rw [htab, if_pos (List.mem_finRange i)]
    rfl
  exact ⟨k', files', nodes', hr, hstep, hp, hb, hn⟩

/-- What `vfs_file_open` checks. -/
def Openable (k : Store) (r : NodeRef) (access : BitVec 32) : Prop :=
  (k.node r).kind ≠ .directory ∧ vfsOpenFlagsValid access = true ∧
    ∃ ops, (k.node r).ops = some ops ∧ (access &&& vfsAccessRead ≠ 0 → ops.hasRead = true) ∧
      (access &&& vfsAccessWrite ≠ 0 → ops.hasWrite = true)

/-- Walking ends at a static node. -/
def NamespaceOk (k : Store) : Prop := ∀ path, vfsWalkPath k path = .null ∨ ∃ n, vfsWalkPath k path = .static n

variable {r : NodeRef} {access : BitVec 32}

lemma NamespaceOk.congr (h : NamespaceOk k) (hroot : k'.namespaceRootEntries = k.namespaceRootEntries)
    (hready : k'.namespaceReady = k.namespaceReady) : NamespaceOk k' := by
  intro path
  have he : vfsWalkPath k' path = vfsWalkPath k path := by
    unfold vfsWalkPath
    rw [hroot, hready]
  rw [he]
  exact h path

lemma vfsFileOpen_openable (hr : r ≠ .null) (h : Openable k r access) :
    vfsFileOpen k r access = vfsMakeFile k r access := by
  obtain ⟨hkind, hflags, ops, hops, hread, hwrite⟩ := h
  unfold vfsFileOpen
  rw [if_neg hr, hops]
  dsimp only
  rw [if_neg (by simp [hkind, hflags]), if_neg (by simpa using hread), if_neg (by simpa using hwrite)]

lemma vfsFileOpen_refused (h : ¬ Openable k r access) : vfsFileOpen k r access = .ok (0#64, k) := by
  unfold vfsFileOpen
  by_cases hr : r = .null
  · rw [if_pos hr]
  rw [if_neg hr]
  cases hops : (k.node r).ops with
  | none => rfl
  | some ops =>
    dsimp only
    split_ifs with h₁ h₂ h₃
    · rfl
    · rfl
    · rfl
    · push Not at h₁ h₂ h₃
      refine absurd ⟨h₁.1, h₁.2, ops, hops, fun ha => ?_, fun ha => ?_⟩ h
      · simpa using h₂ ha
      · simpa using h₃ ha

/-- No file was made. -/
lemma FileMade.null (hs : HeapSpec H room sure) (h : FdInv H k held files nodes) :
    FileMade H k held files nodes r access 0#64 k where
  inv := by simpa [handOut] using h
  fresh := h.zero_not_mem hs
  kept := Kept.refl k files nodes
  offsets := fun _ _ => rfl
  none := fun _ => rfl
  node := fun h0 => absurd rfl h0
  access := fun h0 => absurd rfl h0
  grown := Grown.refl _
  events := fun he => by simpa [handOut] using he

/-- `vfs_file_open` makes a file when node and mode allow it. -/
theorem FdInv.fileOpen (hs : HeapSpec H room sure) (h : FdInv H k held files nodes)
    (hr : NodeAlive nodes r) (hroom : room (files.length + 2 * nodes.length))
    (hsmall : held.length + 1 < 2 ^ 31) (access : BitVec 32) :
    ∃ f k', vfsFileOpen k r access = .ok (f, k') ∧ FileMade H k held files nodes r access f k' ∧
      (f ≠ 0#64 → Openable k r access) ∧
      (sure → Openable k r access → f ≠ 0#64 ∧ k'.phys = k.phys) := by
  by_cases ho : Openable k r access
  · obtain ⟨-, -, ops, hops, -⟩ := id ho
    obtain ⟨f, k', hmake, hm, hsure⟩ := h.makeFile hs hr (by rw [hops]; simp) hroom hsmall access
    exact ⟨f, k', (vfsFileOpen_openable hr.ne_null ho).trans hmake, hm, fun _ => ho,
      fun hs' _ => hsure hs'⟩
  · exact ⟨0#64, k, vfsFileOpen_refused ho, .null hs h, fun h0 => absurd rfl h0, fun _ ho' => absurd ho' ho⟩

/-- Closing a file again that was just made on a static node restores the store. -/
lemma FileMade.undo (hs : HeapSpec H room sure) {n : NamespaceNode} (h : FdInv H k held files nodes)
    (hm : FileMade H k held files nodes (.static n) access f k') (hf : f ≠ 0#64) :
    ∃ k'' files', vfsFileClose k' f = .ok (0, k'') ∧ FdInv H k'' held files' nodes ∧
      Kept k k'' files nodes ∧ Unchanged k k'' files nodes ∧ Grown k.phys k''.phys ∧
      (FdEvents k files → FdEvents k'' files') := by
  have hinv := hm.inv
  rw [handOut, if_neg hf, handOut, if_neg hf] at hinv
  obtain ⟨k'', files', nodes', hr, hc⟩ := hinv.closeFile hs (List.mem_cons_self)
  have hinv' := hc.inv
  rw [List.erase_cons_head] at hinv'
  obtain rfl : nodes' = nodes := hc.static fun m => by simp [hm.node hf]
  have hfiles : ∀ g ∈ files, g ∈ files' := fun g hg =>
    (hinv'.counts.mem_files g).mpr ((h.counts.mem_files g).mp hg)
  have hk : Kept k k'' files nodes' := hm.kept.trans (hc.kept.mono hfiles fun n hn => hn)
  refine ⟨k'', files', hr, hinv', hk, ?_, hc.phys ▸ hm.grown, fun he => hc.events ?_⟩
  rotate_left
  · have he' := hm.events he
    rwa [handOut, if_neg hf] at he'
  exact hk.unchanged (hm.offsets.trans (hc.offsets.mono hfiles)) h.counts hinv'.counts fun n hn => hn

/-- A new file may be named by an entry of its node's kind. -/
lemma FileMade.entryOk (hm : FileMade H k held files nodes r access f k') (hf : f ≠ 0#64)
    (ho : Openable k r access) (hr : NodeAlive nodes r) {kind : FdKind} (hkind : kind ≠ .none)
    (hc : kind = .console ↔ (k.node r).kind = .console) : EntryOk k' ⟨1, kind, f⟩ := by
  obtain ⟨hdir, hflags, hops⟩ := ho
  constructor
  · exact hkind
  · dsimp only
    rwa [hm.node hf, hm.kept.kind r hr]
  · dsimp only
    rwa [hm.access hf]
  · dsimp only
    rwa [hm.node hf, hm.access hf, hm.kept.ops r hr]
  · dsimp only
    rwa [hm.node hf, hm.kept.kind r hr]

lemma StaticNode.ops_of_kind {n : VfsNode} (h : StaticNode n) (hk : n.kind ≠ .none) : n.ops ≠ none :=
  fun ho => hk (h.2.2 ho)

/-- Looking up an image opens a file and closes it again. -/
theorem FdInv.execImage (hs : HeapSpec H room sure) (h : FdInv H k held files nodes)
    (hns : NamespaceOk k) (hroom : room (files.length + 2 * nodes.length))
    (hsmall : held.length + 1 < 2 ^ 31) (path : List Byte) :
    ∃ image k' files', syscallExecImage k path = .ok (image, k') ∧ FdInv H k' held files' nodes ∧
      Kept k k' files nodes ∧ Unchanged k k' files nodes ∧ Grown k.phys k'.phys ∧
      (FdEvents k files → FdEvents k' files') := by
  have hrefused (he : vfsOpenExecPath k path = .ok (0#64, k)) :
      ∃ image k' files', syscallExecImage k path = .ok (image, k') ∧ FdInv H k' held files' nodes ∧
        Kept k k' files nodes ∧ Unchanged k k' files nodes ∧ Grown k.phys k'.phys ∧
        (FdEvents k files → FdEvents k' files') := by
    refine ⟨none, k, files, ?_, h, Kept.refl k files nodes, Unchanged.refl k files nodes,
      Grown.refl _, id⟩
    unfold syscallExecImage
    rw [he, ok_bind]
    exact if_pos rfl
  rcases hns path with hnull | ⟨n, hn⟩
  · exact hrefused (by rw [vfsOpenExecPath, hnull]; exact if_pos (.inl rfl))
  by_cases hkind : (k.node (.static n)).kind ≠ .executable
  · exact hrefused (by rw [vfsOpenExecPath, hn]; exact if_pos (.inr hkind))
  push Not at hkind
  have hopen : vfsOpenExecPath k path = vfsMakeFile k (.static n) 0 := by
    rw [vfsOpenExecPath, hn]
    exact if_neg (by simp [hkind])
  have hops := (h.counts.static n).ops_of_kind (by rw [hkind]; simp)
  obtain ⟨f, k₁, hmake, hm, -⟩ := h.makeFile hs (r := .static n) trivial hops hroom hsmall 0
  by_cases hf : f = 0#64
  · subst hf
    exact hrefused (by rw [hopen, hmake, hm.none rfl])
  obtain ⟨k₂, files₂, hclose, hinv, hkept, hsame, hgrown, hev⟩ := hm.undo hs h hf
  have hrun : ∃ image, syscallExecImage k path = .ok (image, k₂) := by
    unfold syscallExecImage
    rw [hopen, hmake, ok_bind]
    dsimp only
    rw [if_neg hf]
    cases vfsFileExecutableImage k₁ f with
    | none => exact ⟨none, by dsimp only; rw [hclose, ok_bind]⟩
    | some image => exact ⟨some image, by dsimp only; rw [hclose, ok_bind]; rfl⟩
  obtain ⟨image, hrun⟩ := hrun
  exact ⟨image, k₂, files₂, hrun, hinv, hkept, hsame, hgrown, hev⟩

end Calls

section Open

variable {H : Heap → Phys → List Word → Prop} {room : ℕ → Prop} {sure : Prop} {k : KernelState}
  {files nodes others : List Word} {t : TaskId}

/-- The state after a call of the running task changed its table. -/
def KernelState.withTable (k : KernelState) (t : TaskId) (table : FdTable) (store : Store) : KernelState :=
  (k.setStore store).setTask t { k.task t with fdTable := table }

lemma withTable_same (k : KernelState) (t : TaskId) (store : Store) :
    k.withTable t (k.task t).fdTable store = k.setStore store := by
  unfold KernelState.withTable KernelState.setTask
  have he : Function.update (k.setStore store).task t { k.task t with fdTable := (k.task t).fdTable } =
      (k.setStore store).task := Function.update_eq_self t k.task
  rw [he]

lemma setFdTable_current (ht : k.current = some t) (table : FdTable) (store : Store) :
    (k.setStore store).setFdTable table = k.withTable t table store := by
  unfold KernelState.setFdTable
  have ht' : (k.setStore store).current = some t := ht
  rw [ht']
  rfl

/-- Once the file is open its descriptor is installed, or it is closed again. -/
lemma syscallOpenPath_opened {table table' : FdTable} {path : List Byte} {flags : BitVec 32} {f : Word}
    {k₁ : Store} {fd : Int} (hopen : vfsOpenPath k.store path flags = .ok (f, k₁)) (hf : f ≠ 0#64)
    (hins : fdTableInstall table
      (if (k₁.node (k₁.file f).node).kind = .console then FdKind.console else .placeholder) f =
        (fd, table')) :
    syscallOpenPath k table path flags =
      if fd < 0 then do
        let (_, store) ← vfsFileClose k₁ f
        .ok (-1, k.setStore store)
      else .ok (fd, (k.setStore k₁).setFdTable table') := by
  unfold syscallOpenPath
  rw [hopen, ok_bind]
  dsimp only
  rw [if_neg hf, hins]

/-- `SYS_OPEN` opens a file and names it, or leaves everything as it was. -/
theorem FdInv.openPath (hs : HeapSpec H room sure) (hcur : k.current = some t)
    (h : FdInv H k.store (tableFiles (k.task t).fdTable ++ others) files nodes)
    (ht : TableOk k.store (k.task t).fdTable) (hns : NamespaceOk k.store)
    (hroom : room (files.length + 2 * nodes.length)) (hfew : others.length ≤ 16) (path : List Byte)
    (flags : BitVec 32) :
    ∃ r table' store' files', syscallOpenPath k (k.task t).fdTable path flags =
        .ok (r, k.withTable t table' store') ∧
      TableStep H k.store others files nodes store' table' files' nodes ∧
      (∀ f ∈ files, f ∈ files') ∧ Kept k.store store' files nodes ∧ Grown k.phys store'.phys ∧
      (r < 0 → table' = (k.task t).fdTable ∧ Unchanged k.store store' files nodes) := by
  have hlen := tableFiles_length (k.task t).fdTable
  have hsmall : (tableFiles (k.task t).fdTable ++ others).length + 1 < 2 ^ 31 := by
    rw [List.length_append]
    omega
  have hrefused (he : vfsOpenPath k.store path flags = .ok (0#64, k.store)) :
      syscallOpenPath k (k.task t).fdTable path flags =
        .ok (-1, k.withTable t (k.task t).fdTable k.store) := by
    unfold syscallOpenPath
    rw [he, ok_bind, withTable_same]
    exact if_pos rfl
  have hnothing (he : vfsOpenPath k.store path flags = .ok (0#64, k.store)) :
      ∃ r table' store' files', syscallOpenPath k (k.task t).fdTable path flags =
          .ok (r, k.withTable t table' store') ∧
        TableStep H k.store others files nodes store' table' files' nodes ∧
        (∀ f ∈ files, f ∈ files') ∧ Kept k.store store' files nodes ∧ Grown k.phys store'.phys ∧
        (r < 0 → table' = (k.task t).fdTable ∧ Unchanged k.store store' files nodes) :=
    ⟨-1, _, k.store, files, hrefused he, .refl h ht, fun f hf => hf, Kept.refl _ files nodes,
      Grown.refl _, fun _ => ⟨rfl, Unchanged.refl _ files nodes⟩⟩
  rcases hns path with hnull | ⟨n, hn⟩
  · exact hnothing (by rw [vfsOpenPath, hnull]; exact if_pos rfl)
  have hopen : vfsOpenPath k.store path flags = vfsFileOpen k.store (.static n) flags := by
    rw [vfsOpenPath, hn]
    exact if_neg (by simp)
  obtain ⟨f, k₁, hmake, hm, ho, -⟩ := h.fileOpen hs (r := .static n) trivial hroom hsmall flags
  by_cases hf : f = 0#64
  · subst hf
    exact hnothing (by rw [hopen, hmake, hm.none rfl])
  -- the new file is named by the first free entry, or closed again
  set kind := if (k₁.node (k₁.file f).node).kind = .console then FdKind.console else .placeholder
    with hkind
  have hknown : kind ≠ .none := by
    rw [hkind]
    split_ifs <;> simp
  have hmade := hopen.trans hmake
  rcases fdTableInstall_spec (k.task t).fdTable hknown hf with ⟨hins, -⟩ | ⟨i, hi, hins⟩
  · obtain ⟨k₂, files₂, hclose, hinv, hkept, hsame, hgrown, hev⟩ := hm.undo hs h hf
    have hrun := syscallOpenPath_opened hmade hf hins
    rw [if_pos (by decide), hclose, ok_bind] at hrun
    dsimp only at hrun
    rw [← withTable_same k t k₂] at hrun
    have hsub : ∀ g ∈ files, g ∈ files₂ := fun g hg =>
      (hinv.counts.mem_files g).mpr ((h.counts.mem_files g).mp hg)
    refine ⟨-1, _, k₂, files₂, hrun, ⟨hinv, ?_, fun t' h' hsub => ?_, hkept.root, hkept.ready, hev⟩, hsub,
      hkept, hgrown, fun _ => ⟨rfl, hsame⟩⟩
    · exact ht.grow h.counts hkept fun g hg => List.mem_append_left _ hg
    · exact h'.grow h.counts hkept fun g hg => List.mem_append_right _ (hsub g hg)
  · have hrun := syscallOpenPath_opened hmade hf hins
    rw [if_neg (by omega), setFdTable_current hcur] at hrun
    have hinv := hm.inv
    have hev := hm.events
    rw [handOut, if_neg hf, handOut, if_neg hf] at hinv
    rw [handOut, if_neg hf] at hev
    refine ⟨i.val, _, k₁, f :: files, hrun, ⟨⟨?_, hinv.heap⟩, ?_, fun t' h' hsub => ?_,
      hm.kept.root, hm.kept.ready, hev⟩, fun g hg => List.mem_cons_of_mem f hg, hm.kept, hm.grown,
      fun hlt => by omega⟩
    · exact hinv.counts.perm ((tableFiles_install _ _ hi).symm.append_right others)
    · refine (ht.grow h.counts hm.kept fun g hg => List.mem_append_left _ hg).install ?_
      refine hm.entryOk hf (ho hf) trivial hknown ?_
      rw [hkind, hm.node hf, hm.kept.kind (.static n) trivial]
      split_ifs with hc <;> simp [hc]
    · exact h'.grow h.counts hm.kept fun g hg => List.mem_append_right _ (hsub g hg)

end Open

/-- Positions, memory and console data may differ, nothing that is counted. -/
structure OffsetsMoved (k k' : Store) : Prop where
  file : ∀ f, ∃ offset, k'.file f = { k.file f with offset := offset }
  node : k'.node = k.node
  events : k'.events = k.events
  heap : k'.heap = k.heap
  root : k'.namespaceRootEntries = k.namespaceRootEntries
  ready : k'.namespaceReady = k.namespaceReady
  phys : ∃ m, k'.phys = { k.phys with mem := m }

/-- Of the positions only that of `g` may differ. -/
structure PositionMoved (k k' : Store) (g : Word) : Prop extends OffsetsMoved k k' where
  others : ∀ f, f ≠ g → k'.file f = k.file f

section Access

variable {H : Heap → Phys → List Word → Prop} {k k' : Store} {table : FdTable}
  {files nodes others : List Word} {file buffer count : Word} {r fd : Int}

lemma UserAccess.bind_ok {α β : Type} {x : UserAccess α} {f : α → UserAccess β} {b : β}
    (h : (x >>= f).result = .ok b) : ∃ a, x.result = .ok a ∧ (f a).result = .ok b := by
  obtain ⟨touched, result⟩ := x
  cases result with
  | error e => cases h
  | ok a => exact ⟨a, rfl, h⟩

lemma OffsetsMoved.refl (k : Store) : OffsetsMoved k k :=
  ⟨fun f => ⟨(k.file f).offset, rfl⟩, rfl, rfl, rfl, rfl, rfl, _, rfl⟩

lemma PositionMoved.refl (k : Store) (file : Word) : PositionMoved k k file :=
  ⟨OffsetsMoved.refl k, fun _ _ => rfl⟩

lemma setOffset_file (k : Store) (file offset f : Word) :
    ∃ offset', (k.setFile file { k.file file with offset := offset }).file f =
      { k.file f with offset := offset' } := by
  by_cases hf : f = file
  · exact ⟨offset, by rw [hf, Store.setFile_same]⟩
  · exact ⟨(k.file f).offset, Store.setFile_ne _ hf⟩

lemma setOffset_moved (k : Store) (file offset : Word)
    (hfile : k'.file = (k.setFile file { k.file file with offset := offset }).file)
    (hnode : k'.node = k.node) (hevents : k'.events = k.events) (hheap : k'.heap = k.heap)
    (hroot : k'.namespaceRootEntries = k.namespaceRootEntries)
    (hready : k'.namespaceReady = k.namespaceReady) (hphys : ∃ m, k'.phys = { k.phys with mem := m }) :
    PositionMoved k k' file := by
  refine ⟨⟨fun f => ?_, hnode, hevents, hheap, hroot, hready, hphys⟩, fun f hf => ?_⟩
  · rw [hfile]
    exact setOffset_file k file offset f
  · rw [hfile]
    exact Store.setFile_ne _ hf

lemma userStore_phys {s s' : Phys} {value : Byte} (h : (userStore s buffer value).result = .ok s') :
    ∃ m, s' = { s with mem := m } := by
  unfold userStore at h
  dsimp only at h
  split at h
  · cases h
  · cases h
    exact ⟨_, rfl⟩

lemma userStoreBytes_phys {bytes : List Byte} : ∀ {s s' : Phys} {buffer : Word},
    (userStoreBytes s buffer bytes).result = .ok s' → ∃ m, s' = { s with mem := m } := by
  induction bytes with
  | nil =>
    intro s s' buffer h
    cases h
    exact ⟨_, rfl⟩
  | cons value bytes ih =>
    intro s s' buffer h
    obtain ⟨s₁, h₁, h⟩ := UserAccess.bind_ok h
    obtain ⟨m₁, rfl⟩ := userStore_phys h₁
    obtain ⟨m, rfl⟩ := ih h
    exact ⟨m, rfl⟩

lemma VfsNodeOps.read_moved {ops : VfsNodeOps}
    (h : (ops.read k file buffer count).result = .ok (r, k')) : PositionMoved k k' file := by
  cases ops with
  | fdConsoleInput =>
    change (fdConsoleInputRead k file buffer count).result = _ at h
    unfold fdConsoleInputRead at h
    dsimp only at h
    split_ifs at h
    · cases h
      exact PositionMoved.refl k file
    · cases h
      exact PositionMoved.refl k file
    · cases h
      exact PositionMoved.refl k file
    · cases h
      exact PositionMoved.refl k file
    · obtain ⟨s', hs', h⟩ := UserAccess.bind_ok h
      obtain ⟨m, rfl⟩ := userStore_phys hs'
      cases h
      exact setOffset_moved k file _ rfl rfl rfl rfl rfl rfl ⟨m, rfl⟩
  | consoleInput =>
    change (vfsConsoleInputRead k file buffer count).result = _ at h
    unfold vfsConsoleInputRead at h
    dsimp only at h
    split_ifs at h
    · cases h
      exact PositionMoved.refl k file
    · cases h
      exact PositionMoved.refl k file
    · obtain ⟨s', hs', h⟩ := UserAccess.bind_ok h
      obtain ⟨m, rfl⟩ := userStore_phys hs'
      cases h
      exact setOffset_moved k file _ rfl rfl rfl rfl rfl rfl ⟨m, rfl⟩
  | staticText =>
    change (vfsStaticTextRead k file buffer count).result = _ at h
    unfold vfsStaticTextRead at h
    dsimp only at h
    split_ifs at h
    · cases h
      exact PositionMoved.refl k file
    · cases h
      exact PositionMoved.refl k file
    all_goals
      obtain ⟨s', hs', h⟩ := UserAccess.bind_ok h
      obtain ⟨m, rfl⟩ := userStoreBytes_phys hs'
      cases h
      exact setOffset_moved k file _ rfl rfl rfl rfl rfl rfl ⟨m, rfl⟩
  | fdConsoleOutput | consoleOutput | executable | directory =>
    cases h
    exact PositionMoved.refl k file

lemma serialWriteUser_moved (h : (serialWriteUser k buffer count).result = .ok k') :
    ∃ serial, k' = { k with serial := serial } := by
  obtain ⟨bytes, -, h⟩ := UserAccess.bind_ok h
  cases h
  exact ⟨_, rfl⟩

lemma VfsNodeOps.write_moved {ops : VfsNodeOps}
    (h : (ops.write k file buffer count).result = .ok (r, k')) : PositionMoved k k' file := by
  cases ops with
  | fdConsoleOutput =>
    change (fdConsoleOutputWrite k file buffer count).result = _ at h
    unfold fdConsoleOutputWrite at h
    dsimp only at h
    split_ifs at h
    · cases h
      exact PositionMoved.refl k file
    · cases h
      exact PositionMoved.refl k file
    · obtain ⟨k₁, h₁, h⟩ := UserAccess.bind_ok h
      obtain ⟨serial, rfl⟩ := serialWriteUser_moved h₁
      cases h
      exact setOffset_moved k file _ rfl rfl rfl rfl rfl rfl ⟨_, rfl⟩
    · cases h
      exact setOffset_moved k file _ rfl rfl rfl rfl rfl rfl ⟨_, rfl⟩
  | consoleOutput =>
    change (vfsConsoleOutputWrite k file buffer count).result = _ at h
    unfold vfsConsoleOutputWrite at h
    split_ifs at h
    · cases h
      exact PositionMoved.refl k file
    · obtain ⟨k₁, h₁, h⟩ := UserAccess.bind_ok h
      obtain ⟨serial, rfl⟩ := serialWriteUser_moved h₁
      cases h
      exact ⟨⟨fun f => ⟨(k.file f).offset, rfl⟩, rfl, rfl, rfl, rfl, rfl, _, rfl⟩, fun _ _ => rfl⟩
    · cases h
      exact PositionMoved.refl k file
  | fdConsoleInput | consoleInput | staticText | executable | directory =>
    cases h
    exact PositionMoved.refl k file

lemma vfsFileRead_moved (h : (vfsFileRead k file buffer count).result = .ok (r, k')) :
    PositionMoved k k' file := by
  unfold vfsFileRead at h
  by_cases h₀ : file = 0#64 ∨ (k.file file).node = .null
  · rw [if_pos h₀] at h
    cases h
    exact PositionMoved.refl k file
  rw [if_neg h₀] at h
  cases hops : (k.node (k.file file).node).ops with
  | none =>
    rw [hops] at h
    cases h
    exact PositionMoved.refl k file
  | some ops =>
    rw [hops] at h
    dsimp only at h
    split_ifs at h
    · cases h
      exact PositionMoved.refl k file
    · exact VfsNodeOps.read_moved h
    · cases h
      exact PositionMoved.refl k file

/-- Reading a descriptor. -/
lemma fdTableRead_moved (h : (fdTableRead k table fd buffer count).result = .ok (r, k')) :
    OffsetsMoved k k' := by
  unfold fdTableRead at h
  split at h
  · cases h
    exact OffsetsMoved.refl k
  · exact (vfsFileRead_moved h).toOffsetsMoved

lemma vfsFileWrite_moved (h : (vfsFileWrite k file buffer count).result = .ok (r, k')) :
    PositionMoved k k' file := by
  unfold vfsFileWrite at h
  by_cases h₀ : file = 0#64 ∨ (k.file file).node = .null
  · rw [if_pos h₀] at h
    cases h
    exact PositionMoved.refl k file
  rw [if_neg h₀] at h
  cases hops : (k.node (k.file file).node).ops with
  | none =>
    rw [hops] at h
    cases h
    exact PositionMoved.refl k file
  | some ops =>
    rw [hops] at h
    dsimp only at h
    split_ifs at h
    · cases h
      exact PositionMoved.refl k file
    · exact VfsNodeOps.write_moved h
    · cases h
      exact PositionMoved.refl k file

/-- Writing a descriptor. -/
lemma fdTableWrite_moved (h : (fdTableWrite k table fd buffer count).result = .ok (r, k')) :
    OffsetsMoved k k' := by
  unfold fdTableWrite at h
  split at h
  · cases h
    exact OffsetsMoved.refl k
  · exact (vfsFileWrite_moved h).toOffsetsMoved

lemma OffsetsMoved.kept (h : OffsetsMoved k k') (files nodes : List Word) : Kept k k' files nodes := by
  refine ⟨fun f _ => ?_, fun f _ => ?_, fun r _ => by rw [h.node], fun r _ => by rw [h.node],
    fun r _ => by rw [h.node], h.root, h.ready⟩
  all_goals
    obtain ⟨offset, hf⟩ := h.file f
    rw [hf]

/-- What is counted stays counted. -/
lemma OffsetsMoved.step (h : OffsetsMoved k k') (hi : FdInv H k (tableFiles table ++ others) files nodes)
    (hH : H k'.heap k'.phys (objectPtrs k files nodes)) (ht : TableOk k table) :
    TableStep H k others files nodes k' table files nodes := by
  have hk := h.kept files nodes
  have hon : ∀ r, filesOn k' files r = filesOn k files r := fun r => filesOn_congr hk.node
  refine ⟨⟨?_, ?_⟩, ht.grow hi.counts hk fun f hf => List.mem_append_left _ hf,
    fun t ht' hsub => ht'.grow hi.counts hk fun f hf => List.mem_append_right _ (hsub f hf), h.root,
    h.ready, fun he => he.congr hon h.events⟩
  · have hc := hi.counts
    refine ⟨hc.nodup, hc.mem_files, fun f hf => ?_, hc.small, fun f hf => ?_, fun f hf => ?_,
      fun r hr => ?_, h.node ▸ hc.static, h.node ▸ hc.console⟩
    · obtain ⟨offset, hf'⟩ := h.file f
      rw [hf']
      exact hc.refs f hf
    · rw [hk.node f hf]
      exact hc.alive f hf
    · rw [hk.node f hf, h.node]
      exact hc.ops f hf
    · rw [h.node, hon]
      exact hc.node_refs r hr
  · have hptrs : objectPtrs k' files nodes = objectPtrs k files nodes :=
      objectPtrs_congr fun n _ => congrArg (fun node => (node (.allocated n)).data.address) h.node
    rwa [hptrs]

end Access

end Platinum
