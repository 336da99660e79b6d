import Platinum.HeapRun
import Platinum.Syscall

/-!
# References to files and nodes

`FdInv` ties the counts kept in files and nodes to the references that are
held. `HeapSpec` is what it needs of the heap, so that it serves a heap that may
grow as well as one that has room.
-/
namespace Platinum
open ByteMemory BlockList

/-- The sizes of the objects kept on the heap. -/
def objectSizes : List Word := [fdConsoleInputSize, fdConsoleOutputSize, vfsNodeSize, vfsFileSize]

/-- Calls of `kzalloc`, one after the other. -/
def kzallocAll (h : Heap) (s : Phys) : List Word → Run (List Word × Heap × Phys)
  | [] => .ok ([], h, s)
  | size :: sizes => do
    let (ptr, h, s) ← kzalloc h s size
    let (ptrs, h, s) ← kzallocAll h s sizes
    .ok (ptr :: ptrs, h, s)

/-- None of these calls is answered with null. -/
def Serves (h : Heap) (s : Phys) (sizes : List Word) : Prop :=
  ∃ ptrs h' s', kzallocAll h s sizes = .ok (ptrs, h', s') ∧ 0#64 ∉ ptrs

/-- Memory is as before and the free list has lost pages from its front. -/
structure Grown (s s' : Phys) : Prop where
  mem : s'.mem = s.mem
  globals : SameGlobals s s'
  free : ∀ l, FreeList s l → ∃ n, FreeList s' (l.drop n)

/-- `H h s ptrs`: the heap is sound and `ptrs` are handed out. With `room` for an
object it is not broken by asking for one; if `sure`, the object is there. -/
structure HeapSpec (H : Heap → Phys → List Word → Prop) (room : ℕ → Prop) (sure : Prop) :
    Prop where
  nodup {h : Heap} {s : Phys} {ptrs : List Word} : H h s ptrs → ptrs.Nodup
  ne_zero {h : Heap} {s : Phys} {ptrs : List Word} : H h s ptrs → 0#64 ∉ ptrs
  perm {h : Heap} {s : Phys} {ptrs ptrs' : List Word} : H h s ptrs → ptrs.Perm ptrs' → H h s ptrs'
  alloc {h : Heap} {s : Phys} {ptrs : List Word} {size : Word} : H h s ptrs → room ptrs.length →
    size ∈ objectSizes → ∃ ptr h' s', kzalloc h s size = .ok (ptr, h', s') ∧
      H h' s' (handOut ptr ptrs) ∧ Grown s s' ∧ (ptr = 0#64 → h' = h ∧ s' = s) ∧
      (sure → ptr ≠ 0#64 ∧ s' = s)
  free {h : Heap} {s : Phys} {ptrs : List Word} {ptr : Word} : H h s ptrs → ptr ∈ ptrs →
    ∃ h', Platinum.kfree h ptr = .ok h' ∧ H h' s (ptrs.erase ptr)

/-- A heap with `others` handed out to someone else. -/
def HeapWith (others : List Word) (h : Heap) (s : Phys) (ptrs : List Word) : Prop :=
  ∃ pages L l, HeapState h s pages (ptrs ++ others) L l

/-- Such a heap when the pages `held` are neither the heap's nor free. -/
def HeapBeside (held : Set Word) (others : List Word) (h : Heap) (s : Phys) (ptrs : List Word) : Prop :=
  ∃ pages L l, HeapState h s pages (ptrs ++ others) L l ∧ ∀ p, p ∈ pages ∨ p ∈ l → p ∉ held

section Heap

variable {h : Heap} {s : Phys} {pages ptrs others l : List Word} {L : List Block} {ptr : Word}
  {H : Heap → Phys → List Word → Prop} {room : ℕ → Prop} {sure : Prop}

lemma kzallocAll_cons {h' h'' : Heap} {s' s'' : Phys} {size : Word} {sizes : List Word}
    (hr : kzalloc h s size = .ok (ptr, h', s')) (hrest : kzallocAll h' s' sizes = .ok (ptrs, h'', s'')) :
    kzallocAll h s (size :: sizes) = .ok (ptr :: ptrs, h'', s'') := by
  rw [kzallocAll, hr, ok_bind]
  dsimp only
  rw [hrest, ok_bind]

lemma kzallocAll_append {h' : Heap} {s' : Phys} {sizes : List Word}
    (hr : kzallocAll h s sizes = .ok (ptrs, h', s')) (sizes' : List Word) :
    kzallocAll h s (sizes ++ sizes') = (do
      let (ptrs', h, s) ← kzallocAll h' s' sizes'
      .ok (ptrs ++ ptrs', h, s)) := by
  induction sizes generalizing h s ptrs with
  | nil =>
    cases hr
    cases hrest : kzallocAll h' s' sizes' with
    | error e => exact hrest
    | ok r => exact hrest
  | cons size sizes ih =>
    obtain ⟨⟨p, h₁, s₁⟩, hp, hr⟩ := bind_eq_ok.mp hr
    obtain ⟨⟨ps, h₂, s₂⟩, hps, hr⟩ := bind_eq_ok.mp hr
    cases hr
    rw [List.cons_append, kzallocAll, hp, ok_bind]
    dsimp only
    rw [ih hps]
    cases hrest : kzallocAll h' s' sizes' with
    | error e => rfl
    | ok r => rfl

lemma serves_iff {h' : Heap} {s' : Phys} {sizes : List Word}
    (hr : kzallocAll h s sizes = .ok (ptrs, h', s')) : Serves h s sizes ↔ 0#64 ∉ ptrs := by
  constructor
  · rintro ⟨ptrs₁, h₁, s₁, hr₁, h0⟩
    cases hr.symm.trans hr₁
    exact h0
  · exact fun h0 => ⟨ptrs, h', s', hr, h0⟩

lemma serves_cons {h' : Heap} {s' : Phys} {size : Word} (hr : kzalloc h s size = .ok (ptr, h', s'))
    (sizes : List Word) : Serves h s (size :: sizes) ↔ ptr ≠ 0#64 ∧ Serves h' s' sizes := by
  constructor
  · rintro ⟨ptrs₁, h₁, s₁, hr₁, h0⟩
    rw [kzallocAll, hr, ok_bind] at hr₁
    obtain ⟨⟨ps, h₂, s₂⟩, hps, hr₁⟩ := bind_eq_ok.mp hr₁
    cases hr₁
    exact ⟨fun hp => h0 (hp ▸ List.mem_cons_self), ps, _, _, hps, fun hm => h0 (List.mem_cons_of_mem _ hm)⟩
  · rintro ⟨hp, ps, h₂, s₂, hps, h0⟩
    exact ⟨ptr :: ps, h₂, s₂, kzallocAll_cons hr hps, by simp [Ne.symm hp, h0]⟩

/-- Once the first calls were served, it is up to the others. -/
lemma serves_append {h' : Heap} {s' : Phys} {sizes : List Word}
    (hr : kzallocAll h s sizes = .ok (ptrs, h', s')) (h0 : 0#64 ∉ ptrs) (sizes' : List Word) :
    Serves h s (sizes ++ sizes') ↔ Serves h' s' sizes' := by
  have happ := kzallocAll_append hr sizes'
  cases hrest : kzallocAll h' s' sizes' with
  | error e =>
    rw [hrest] at happ
    constructor
    · rintro ⟨ptrs₁, h₁, s₁, hr₁, -⟩
      cases happ.symm.trans hr₁
    · rintro ⟨ptrs₁, h₁, s₁, hr₁, -⟩
      cases hrest.symm.trans hr₁
  | ok r =>
    obtain ⟨ptrs', h'', s''⟩ := r
    rw [hrest, ok_bind] at happ
    rw [serves_iff happ, serves_iff hrest, List.mem_append]
    tauto

/-- The first calls are served whatever follows. -/
lemma Serves.of_append {sizes sizes' : List Word} (hserved : Serves h s (sizes ++ sizes')) :
    Serves h s sizes := by
  induction sizes generalizing h s with
  | nil => exact ⟨[], h, s, rfl, List.not_mem_nil⟩
  | cons size sizes ih =>
    obtain ⟨ptrs, h', s', hr, h0⟩ := id hserved
    rw [List.cons_append] at hr hserved
    obtain ⟨⟨p, h₁, s₁⟩, hp, -⟩ := bind_eq_ok.mp hr
    obtain ⟨hne, hrest⟩ := (serves_cons hp _).mp hserved
    exact (serves_cons hp sizes).mpr ⟨hne, ih hrest⟩

lemma Grown.refl (s : Phys) : Grown s s := ⟨rfl, SameGlobals.refl s, fun _ hl => ⟨0, hl⟩⟩

lemma Grown.trans {s' s'' : Phys} (h : Grown s s') (h' : Grown s' s'') : Grown s s'' := by
  refine ⟨h'.mem.trans h.mem, h.globals.trans h'.globals, fun l hl => ?_⟩
  obtain ⟨n, hn⟩ := h.free l hl
  obtain ⟨m, hm⟩ := h'.free _ hn
  rw [List.drop_drop] at hm
  exact ⟨n + m, hm⟩

lemma MallocOutcome.grown_phys {n : ℕ} {h' : Heap} {s' : Phys} (hfree : FreeList s l)
    (hout : MallocOutcome h s pages l L n (.ok (ptr, h', s'))) : Grown s s' := by
  generalize hx : (.ok (ptr, h', s') : Run (Word × Heap × Phys)) = x at hout
  cases hout with
  | none hfit hno =>
    cases hx
    exact Grown.refl s
  | found hfit inv hlive hlive' hb hn =>
    cases hx
    exact Grown.refl s
  | @grown h₁ s₁ p l' C D L' b hfit hl hn inv hlive hlive' hb hsz free mem globals =>
    cases hx
    subst hl
    exact ⟨mem, globals, fun l₂ hl₂ => ⟨1, by rw [← hfree.unique hl₂]; exact free⟩⟩

lemma HeapState.nodup (hs : HeapState h s pages ptrs L l) : ptrs.Nodup :=
  hs.handed.nodup_iff.mp hs.inv.payloads_nodup

lemma HeapState.ne_zero (hs : HeapState h s pages ptrs L l) : 0#64 ∉ ptrs :=
  hs.inv.zero_not_handed hs.handed

lemma handOut_append (ptr : Word) (ptrs others : List Word) :
    handOut ptr (ptrs ++ others) = handOut ptr ptrs ++ others := by
  unfold handOut
  split_ifs <;> rfl

lemma objectSizes_le {size : Word} (h : size ∈ objectSizes) :
    size ≠ 0#64 ∧ size.toNat ≤ 32 ∧ 0 < (heapAlignUp size).toNat ∧ (heapAlignUp size).toNat ≤ 32 := by
  simp only [objectSizes, List.mem_cons, List.not_mem_nil, or_false] at h
  rcases h with rfl | rfl | rfl | rfl <;> decide

/-- An allocation takes no page that was not free. -/
lemma MallocOutcome.pages_free {n : ℕ} {h' : Heap} {s' : Phys} {l' : List Word} (hfree : FreeList s l)
    (hout : MallocOutcome h s pages l L n (.ok (ptr, h', s'))) (hfree' : FreeList s' l') :
    ∀ p, p ∈ pagesTaken s s' ∨ p ∈ l' → p ∈ l := by
  generalize hx : (.ok (ptr, h', s') : Run (Word × Heap × Phys)) = x at hout
  cases hout with
  | none hfit hno =>
    cases hx
    simp [hfree.unique hfree']
  | found hfit inv hlive hlive' hb hn =>
    cases hx
    simp [hfree.unique hfree']
  | grown hfit hl hn inv hlive hlive' hb hsz free mem globals =>
    cases hx
    subst hl
    rw [pagesTaken_cons hfree free, free.unique hfree']
    simp

/-- A sound heap behaves, whoever else uses it, and leaves the pages of others alone. -/
lemma heapBeside_spec (held : Set Word) (others : List Word) :
    HeapSpec (HeapBeside held others) (fun _ => True) False where
  nodup := fun ⟨_, _, _, hs, _⟩ => (List.nodup_append.mp hs.nodup).1
  ne_zero := fun ⟨_, _, _, hs, _⟩ h0 => hs.ne_zero (List.mem_append_left _ h0)
  perm := fun ⟨pages, L, l, hs, hheld⟩ hp =>
    ⟨pages, L, l, ⟨hs.inv, hs.free, hs.apart, hs.handed.trans (hp.append_right _)⟩, hheld⟩
  alloc := by
    rintro h s ptrs size ⟨pages, L, l, hs, hheld⟩ - hsize
    obtain ⟨h0, hle, -, -⟩ := objectSizes_le hsize
    have hout := kzalloc_spec hs.inv hs.free hs.apart h0 (by omega)
    obtain ⟨⟨ptr, h', s'⟩, hr⟩ := hs.kzalloc_ok size
    rw [hr] at hout
    obtain ⟨L', l', hs'⟩ := hs.malloc hout
    rw [handOut_append] at hs'
    have hpages := hout.pages_free hs.free hs'.free
    refine ⟨ptr, h', s', hr, ⟨_, _, _, hs', fun p hp => ?_⟩, hout.grown_phys hs.free, fun hp => ?_, False.elim⟩
    · rw [List.mem_append, or_right_comm] at hp
      exact hp.elim (fun hp => hheld p (.inr (hpages p hp))) fun hp => hheld p (.inl hp)
    generalize hx : (.ok (ptr, h', s') : Run (Word × Heap × Phys)) = x at hout
    cases hout with
    | none hfit hno =>
      cases hx
      exact ⟨rfl, rfl⟩
    | found hfit inv hlive hlive' hb hn =>
      cases hx
      exact absurd hp (inv.list.payload_ne_zero (mem_live.mp (by rw [hlive']; simp)).1)
    | grown hfit hl hn inv hlive hlive' hb hsz free mem globals =>
      cases hx
      exact absurd hp (inv.list.payload_ne_zero (mem_live.mp (by rw [hlive']; simp)).1)
  free := by
    rintro h s ptrs ptr ⟨pages, L, l, hs, hheld⟩ hptr
    obtain ⟨h', L', hrun, hs'⟩ := hs.kfree (List.mem_append_left _ hptr)
    rw [List.erase_append_left _ hptr] at hs'
    exact ⟨h', hrun, _, _, _, hs', hheld⟩

lemma heapBeside_none (others : List Word) : HeapBeside ∅ others = HeapWith others := by
  funext h s ptrs
  simp [HeapBeside, HeapWith]

lemma heapWith_spec (others : List Word) : HeapSpec (HeapWith others) (fun _ => True) False :=
  heapBeside_none others ▸ heapBeside_spec ∅ others

lemma HeapBeside.heapWith {held : Set Word} (hb : HeapBeside held others h s ptrs) : HeapWith others h s ptrs := by
  obtain ⟨pages, L, l, hs, -⟩ := hb
  exact ⟨pages, L, l, hs⟩

/-- Free pages and pages that are held may change places. -/
lemma HeapBeside.trade {held held' : Set Word} {s' : Phys} {l' : List Word}
    (hb : HeapBeside held others h s ptrs) (hl : FreeList s l) (hl' : FreeList s' l')
    (hfree : ∀ p ∈ l', p ∈ l ∨ p ∈ held) (hheld : ∀ p ∈ held', p ∈ l ∨ p ∈ held) (hd : ∀ p ∈ l', p ∉ held') :
    HeapBeside held' others h s' ptrs := by
  obtain ⟨pages, L, l₁, hs, hno⟩ := hb
  obtain rfl := hs.free.unique hl
  have hout : ∀ p ∈ pages, ¬ (p ∈ l₁ ∨ p ∈ held) := fun p hp hm =>
    hm.elim (hs.apart p hp) (hno p (.inl hp))
  refine ⟨pages, L, l', ⟨hs.inv, hl', fun p hp hm => hout p hp (hfree p hm), hs.handed⟩, ?_⟩
  rintro p (hp | hp) hm
  · exact hout p hp (hheld p hm)
  · exact hd p hp hm

/-- The heap does not mind that others take free pages. -/
lemma HeapBeside.shrink {held : Set Word} {s' : Phys} {l' : List Word} (hb : HeapBeside held others h s ptrs)
    (hl : FreeList s l) (hl' : FreeList s' l') (hsub : ∀ p ∈ l', p ∈ l) : HeapBeside held others h s' ptrs := by
  refine hb.trade hl hl' (fun p hp => .inl (hsub p hp)) (fun p hp => .inr hp) fun p hp => ?_
  obtain ⟨pages, L, l₁, hs, hno⟩ := hb
  obtain rfl := hs.free.unique hl
  exact hno p (.inr (hsub p hp))

lemma handOut_perm (ptr : Word) {ptrs ptrs' : List Word} (hp : ptrs.Perm ptrs') :
    (handOut ptr ptrs).Perm (handOut ptr ptrs') := by
  unfold handOut
  split_ifs
  · exact hp
  · exact hp.cons ptr

lemma handOut_comm (p q : Word) (ptrs : List Word) :
    (handOut p (handOut q ptrs)).Perm (handOut q (handOut p ptrs)) := by
  unfold handOut
  split_ifs
  · exact List.Perm.refl _
  · exact List.Perm.refl _
  · exact List.Perm.refl _
  · exact List.Perm.swap q p ptrs

/-- Freeing what an allocation returned, null included. -/
lemma HeapSpec.free_handOut (hs : HeapSpec H room sure) (h₀ : H h s (handOut ptr ptrs)) :
    ∃ h', Platinum.kfree h ptr = .ok h' ∧ H h' s ptrs := by
  by_cases hp : ptr = 0#64
  · subst hp
    exact ⟨h, rfl, h₀⟩
  · rw [handOut, if_neg hp] at h₀
    obtain ⟨h', hrun, h₁⟩ := hs.free h₀ List.mem_cons_self
    rw [List.erase_cons_head] at h₁
    exact ⟨h', hrun, h₁⟩

/-- A new object is none of the others. -/
lemma HeapSpec.fresh (hs : HeapSpec H room sure) (h₀ : H h s (ptr :: ptrs)) : ptr ∉ ptrs :=
  (List.nodup_cons.mp (hs.nodup h₀)).1

end Heap

/-- The files made on `node` and not closed since. -/
def openFiles (node : NodeRef) : List NodeEvent → ℕ
  | [] => 0
  | .made n :: l => openFiles node l + if n = node then 1 else 0
  | .closed n :: l => openFiles node l - if n = node then 1 else 0
  | .released _ :: l => openFiles node l

/-- Each release callback runs right after its node's last file was closed, and
each such close is followed by it. -/
inductive ReleasedExactly : List NodeEvent → Prop
  | nil : ReleasedExactly []
  | made {n : NodeRef} {l : List NodeEvent} : ReleasedExactly l → ReleasedExactly (.made n :: l)
  | closed {n : NodeRef} {l : List NodeEvent} : ReleasedExactly l →
      openFiles n (.closed n :: l) ≠ 0 → ReleasedExactly (.closed n :: l)
  | released {n : NodeRef} {l : List NodeEvent} : ReleasedExactly l →
      openFiles n (.closed n :: l) = 0 → ReleasedExactly (.released n :: .closed n :: l)

/-- The number of `files` on a node. -/
def filesOn (k : Store) (files : List Word) (node : NodeRef) : ℕ :=
  (files.map fun f => (k.file f).node).count node

/-- `nodes` are the nodes on the heap. -/
def NodeAlive (nodes : List Word) : NodeRef → Prop
  | .null => False
  | .static _ => True
  | .allocated n => n ∈ nodes

/-- The address of the data of a node on the heap. -/
def nodeData (k : Store) (n : Word) : Word := (k.node (.allocated n)).data.address

/-- Static nodes have no console on the heap; those in use have a table. -/
def StaticNode (n : VfsNode) : Prop :=
  n.ops ≠ some .fdConsoleInput ∧ n.ops ≠ some .fdConsoleOutput ∧ (n.ops = none → n.kind = .none)

def ConsoleNode (n : VfsNode) : Prop :=
  (n.ops = some .fdConsoleInput ∨ n.ops = some .fdConsoleOutput) ∧ n.kind = .console

/-- `held` are the references to files, `files` the files that are open. -/
structure FdCounts (k : Store) (held files nodes : List Word) : Prop where
  nodup : files.Nodup
  mem_files : ∀ f, f ∈ files ↔ f ∈ held
  refs : ∀ f ∈ files, (k.file f).refs.toNat = held.count f
  small : held.length < 2 ^ 31
  alive : ∀ f ∈ files, NodeAlive nodes (k.file f).node
  ops : ∀ f ∈ files, (k.node (k.file f).node).ops ≠ none
  node_refs : ∀ r, NodeAlive nodes r → (k.node r).refs.toNat = filesOn k files r
  static : ∀ n, StaticNode (k.node (.static n))
  console : ∀ n ∈ nodes, ConsoleNode (k.node (.allocated n))

/-- The pointers of the open files, of the nodes on the heap and of their data. -/
def objectPtrs (k : Store) (files nodes : List Word) : List Word :=
  files ++ (nodes ++ nodes.map (nodeData k))

/-- The counts are right and the objects are where the heap put them. -/
structure FdInv (H : Heap → Phys → List Word → Prop) (k : Store) (held files nodes : List Word) :
    Prop where
  counts : FdCounts k held files nodes
  heap : H k.heap k.phys (objectPtrs k files nodes)

/-- What happened to nodes agrees with the files that are open. -/
structure FdEvents (k : Store) (files : List Word) : Prop where
  released : ReleasedExactly k.events
  balance : ∀ r, openFiles r k.events = filesOn k files r

/-- What descriptors rely on stays, but for counts and positions. -/
structure Kept (k k' : Store) (files nodes : List Word) : Prop where
  node : ∀ f ∈ files, (k'.file f).node = (k.file f).node
  access : ∀ f ∈ files, (k'.file f).access = (k.file f).access
  kind : ∀ r, NodeAlive nodes r → (k'.node r).kind = (k.node r).kind
  ops : ∀ r, NodeAlive nodes r → (k'.node r).ops = (k.node r).ops
  data : ∀ r, NodeAlive nodes r → (k'.node r).data = (k.node r).data
  root : k'.namespaceRootEntries = k.namespaceRootEntries
  ready : k'.namespaceReady = k.namespaceReady

/-- Positions stay, too. -/
def SameOffsets (k k' : Store) (files : List Word) : Prop :=
  ∀ f ∈ files, (k'.file f).offset = (k.file f).offset

section Counts

variable {k k' : Store} {held held' files files' nodes nodes' : List Word} {f n : Word} {r : NodeRef}

lemma filesOn_congr (h : ∀ f ∈ files, (k'.file f).node = (k.file f).node) :
    filesOn k' files r = filesOn k files r := by
  unfold filesOn
  rw [List.map_congr_left h]

lemma filesOn_cons : filesOn k (f :: files) r =
    filesOn k files r + if (k.file f).node = r then 1 else 0 := by
  simp [filesOn, List.count_cons]

lemma filesOn_perm (h : files.Perm files') : filesOn k files r = filesOn k files' r :=
  (h.map _).count_eq r

lemma filesOn_le : filesOn k files r ≤ files.length := by
  unfold filesOn
  exact List.count_le_length.trans (List.length_map _).le

lemma filesOn_pos (h : f ∈ files) : 0 < filesOn k files (k.file f).node :=
  List.count_pos_iff.mpr (List.mem_map_of_mem h)

lemma FdCounts.perm (h : FdCounts k held files nodes) (hp : held.Perm held') :
    FdCounts k held' files nodes where
  nodup := h.nodup
  mem_files f := (h.mem_files f).trans hp.mem_iff
  refs f hf := (h.refs f hf).trans (hp.count_eq f)
  small := hp.length_eq ▸ h.small
  alive := h.alive
  ops := h.ops
  node_refs := h.node_refs
  static := h.static
  console := h.console

lemma FdCounts.files_le (h : FdCounts k held files nodes) : files.length ≤ held.length :=
  (List.subperm_of_subset h.nodup fun f hf => (h.mem_files f).mp hf).length_le

/-- A file whose last reference is not held is open nowhere. -/
lemma FdCounts.count_fresh (h : FdCounts k held files nodes) (hf : f ∉ files) : held.count f = 0 :=
  List.count_eq_zero.mpr fun hm => hf ((h.mem_files f).mpr hm)

lemma Kept.refl (k : Store) (files nodes : List Word) : Kept k k files nodes :=
  ⟨fun _ _ => rfl, fun _ _ => rfl, fun _ _ => rfl, fun _ _ => rfl, fun _ _ => rfl, rfl, rfl⟩

lemma NodeAlive.mono (h : NodeAlive nodes r) (hsub : ∀ n ∈ nodes, n ∈ nodes') : NodeAlive nodes' r := by
  cases r with
  | null => exact h
  | static n => trivial
  | allocated n => exact hsub n h

lemma NodeAlive.ne_null (h : NodeAlive nodes r) : r ≠ .null := by
  rintro rfl
  exact h

lemma Kept.mono (h : Kept k k' files nodes) (hf : ∀ f ∈ files', f ∈ files)
    (hn : ∀ n ∈ nodes', n ∈ nodes) : Kept k k' files' nodes' :=
  ⟨fun f h' => h.node f (hf f h'), fun f h' => h.access f (hf f h'),
    fun r hr => h.kind r (hr.mono hn), fun r hr => h.ops r (hr.mono hn),
    fun r hr => h.data r (hr.mono hn), h.root, h.ready⟩

lemma Kept.trans {k'' : Store} (h : Kept k k' files nodes) (h' : Kept k' k'' files nodes) :
    Kept k k'' files nodes where
  node f hf := (h'.node f hf).trans (h.node f hf)
  access f hf := (h'.access f hf).trans (h.access f hf)
  kind r hr := (h'.kind r hr).trans (h.kind r hr)
  ops r hr := (h'.ops r hr).trans (h.ops r hr)
  data r hr := (h'.data r hr).trans (h.data r hr)
  root := h'.root.trans h.root
  ready := h'.ready.trans h.ready

lemma SameOffsets.mono (h : SameOffsets k k' files) (hf : ∀ f ∈ files', f ∈ files) :
    SameOffsets k k' files' := fun f h' => h f (hf f h')

lemma SameOffsets.trans {k'' : Store} (h : SameOffsets k k' files) (h' : SameOffsets k' k'' files) :
    SameOffsets k k'' files := fun f hf => (h' f hf).trans (h f hf)

lemma objectPtrs_congr (h : ∀ n ∈ nodes, nodeData k' n = nodeData k n) :
    objectPtrs k' files nodes = objectPtrs k files nodes := by
  rw [objectPtrs, List.map_congr_left h, objectPtrs]

@[simp] lemma objectPtrs_length (k : Store) (files nodes : List Word) :
    (objectPtrs k files nodes).length = files.length + 2 * nodes.length := by
  simp [objectPtrs]
  omega

/-- Counting references leaves the rest of a file alone. -/
lemma setRefs_file (k : Store) (f : Word) (refs : BitVec 32) (g : Word) :
    ∃ refs', (k.setFile f { k.file f with refs := refs }).file g = { k.file g with refs := refs' } := by
  by_cases hg : g = f
  · exact ⟨refs, by rw [hg, Store.setFile_same]⟩
  · exact ⟨(k.file g).refs, Store.setFile_ne _ hg⟩

/-- Another number of references to an open file. -/
lemma FdCounts.setRefs (h : FdCounts k held files nodes) {refs : BitVec 32}
    (hmem : ∀ g, g ∈ held' ↔ g ∈ held) (hrefs : refs.toNat = held'.count f)
    (hcount : ∀ g, g ≠ f → held'.count g = held.count g) (hsmall : held'.length < 2 ^ 31) :
    FdCounts (k.setFile f { k.file f with refs := refs }) held' files nodes := by
  have hnode : ∀ g, ((k.setFile f { k.file f with refs := refs }).file g).node = (k.file g).node := by
    intro g
    obtain ⟨refs', hg⟩ := setRefs_file k f refs g
    rw [hg]
  refine ⟨h.nodup, fun g => (h.mem_files g).trans (hmem g).symm, fun g hg => ?_, hsmall,
    fun g hg => ?_, fun g hg => ?_, fun q hq => ?_, h.static, h.console⟩
  · by_cases hgf : g = f
    · rw [hgf, Store.setFile_same]
      exact hrefs
    · rw [Store.setFile_ne _ hgf, hcount g hgf]
      exact h.refs g hg
  · rw [hnode]
    exact h.alive g hg
  · rw [hnode]
    exact h.ops g hg
  · rw [filesOn_congr fun g _ => hnode g]
    exact h.node_refs q hq

/-- One more reference. -/
lemma FdCounts.retain (h : FdCounts k held files nodes) (hf : f ∈ files)
    (hsmall : held.length + 1 < 2 ^ 31) :
    FdCounts (k.setFile f { k.file f with refs := (k.file f).refs + 1 }) (f :: held) files nodes := by
  have hle : held.count f ≤ held.length := List.count_le_length
  have h1 : (1 : BitVec 32).toNat = 1 := rfl
  refine h.setRefs (fun g => ?_) ?_ (fun g hg => List.count_cons_of_ne (Ne.symm hg)) (by simpa using hsmall)
  · rw [List.mem_cons]
    exact ⟨fun hg => hg.elim (fun he => he ▸ (h.mem_files f).mp hf) id, .inr⟩
  · rw [List.count_cons_self, BitVec.toNat_add, h.refs f hf, h1]
    exact Nat.mod_eq_of_lt (by omega)

/-- One reference less, another one being left. -/
lemma FdCounts.release (h : FdCounts k held files nodes) (hf : f ∈ files) (hmany : 1 < held.count f) :
    FdCounts (k.setFile f { k.file f with refs := (k.file f).refs - 1 }) (held.erase f) files nodes := by
  have h1 : (1 : BitVec 32).toNat = 1 := rfl
  have hrefs := h.refs f hf
  refine h.setRefs (fun g => ?_) ?_ (fun g hg => List.count_erase_of_ne hg)
    (lt_of_le_of_lt List.length_erase_le h.small)
  · by_cases hg : g = f
    · subst hg
      have hpos : 0 < (held.erase g).count g := by
        rw [List.count_erase_self]
        omega
      exact iff_of_true (List.count_pos_iff.mp hpos) ((h.mem_files g).mp hf)
    · exact List.mem_erase_of_ne hg
  · rw [List.count_erase_self, BitVec.toNat_sub_of_le, hrefs, h1]
    rw [BitVec.le_def, hrefs, h1]
    omega

/-- Counting a file in or out leaves the rest of its node alone. -/
lemma setRefs_node (k : Store) (r : NodeRef) (refs : BitVec 32) (q : NodeRef) :
    ∃ refs', (k.setNode r { k.node r with refs := refs }).node q = { k.node q with refs := refs' } := by
  by_cases hq : q = r
  · exact ⟨refs, by rw [hq, Store.setNode_same]⟩
  · exact ⟨(k.node q).refs, Store.setNode_ne _ hq⟩

/-- The store after a new file is filled in and counted on its node. -/
def Store.withFile (k : Store) (f : Word) (r : NodeRef) (access : BitVec 32) : Store :=
  ((k.setFile f ⟨1, r, 0#64, access⟩).setNode r { k.node r with refs := (k.node r).refs + 1 }).record
    (.made r)

lemma withFile_ne (access : BitVec 32) {g : Word} (hg : g ≠ f) :
    (k.withFile f r access).file g = k.file g := Store.setFile_ne _ hg

lemma withFile_same (access : BitVec 32) : (k.withFile f r access).file f = ⟨1, r, 0#64, access⟩ :=
  Store.setFile_same _ _ _

lemma withFile_node_same {access : BitVec 32} : (k.withFile f r access).node r =
    { k.node r with refs := (k.node r).refs + 1 } := Store.setNode_same _ _ _

lemma withFile_node_ne {access : BitVec 32} {q : NodeRef} (hq : q ≠ r) :
    (k.withFile f r access).node q = k.node q := Store.setNode_ne _ hq

lemma withFile_node (k : Store) (f : Word) (r : NodeRef) (access : BitVec 32) (q : NodeRef) :
    ∃ refs, (k.withFile f r access).node q = { k.node q with refs := refs } :=
  setRefs_node (k.setFile f ⟨1, r, 0#64, access⟩) r ((k.node r).refs + 1) q

lemma withFile_kept (access : BitVec 32) (nodes : List Word) (hf : f ∉ files) :
    Kept k (k.withFile f r access) files nodes := by
  have hne : ∀ g ∈ files, g ≠ f := fun g hg he => hf (he ▸ hg)
  refine ⟨fun g hg => ?_, fun g hg => ?_, fun q _ => ?_, fun q _ => ?_, fun q _ => ?_, rfl, rfl⟩
  · rw [withFile_ne _ (hne g hg)]
  · rw [withFile_ne _ (hne g hg)]
  all_goals
    obtain ⟨refs, hq⟩ := withFile_node k f r access q
    rw [hq]

lemma filesOn_withFile (access : BitVec 32) (hf : f ∉ files) (q : NodeRef) :
    filesOn (k.withFile f r access) (f :: files) q = filesOn k files q + if r = q then 1 else 0 := by
  have hkept := withFile_kept (k := k) (r := r) access [] hf
  rw [filesOn_cons, filesOn_congr hkept.node, withFile_same]

/-- A file that was just made, with the one reference to it. -/
lemma FdCounts.withFile (h : FdCounts k held files nodes) (hf : f ∉ files) (hr : NodeAlive nodes r)
    (hops : (k.node r).ops ≠ none) (hsmall : held.length + 1 < 2 ^ 31) (access : BitVec 32) :
    FdCounts (k.withFile f r access) (f :: held) (f :: files) nodes := by
  have hkept := withFile_kept (k := k) (r := r) access nodes hf
  have hon := filesOn_withFile (k := k) (r := r) access hf
  have h1 : (1 : BitVec 32).toNat = 1 := rfl
  refine ⟨List.nodup_cons.mpr ⟨hf, h.nodup⟩, fun g => ?_, fun g hg => ?_, by simpa using hsmall,
    fun g hg => ?_, fun g hg => ?_, fun q hq => ?_, fun n => ?_, fun n hn => ?_⟩
  · rw [List.mem_cons, List.mem_cons, h.mem_files]
  · rcases List.mem_cons.mp hg with rfl | hg
    · rw [withFile_same, List.count_cons_self, h.count_fresh hf]
      rfl
    · have hne : g ≠ f := fun he => hf (he ▸ hg)
      rw [withFile_ne _ hne, List.count_cons_of_ne hne.symm, h.refs g hg]
  · rcases List.mem_cons.mp hg with rfl | hg
    · rwa [withFile_same]
    · rw [hkept.node g hg]
      exact h.alive g hg
  · rcases List.mem_cons.mp hg with rfl | hg
    · rw [withFile_same]
      obtain ⟨refs, hq⟩ := withFile_node k g r access r
      rwa [hq]
    · rw [hkept.node g hg, hkept.ops _ (h.alive g hg)]
      exact h.ops g hg
  · rw [hon]
    by_cases hqr : r = q
    · subst hqr
      have hle : filesOn k files r ≤ held.length := filesOn_le.trans h.files_le
      rw [withFile_node_same, BitVec.toNat_add, h.node_refs r hq, h1, if_pos rfl]
      exact Nat.mod_eq_of_lt (by omega)
    · rw [withFile_node_ne (Ne.symm hqr), if_neg hqr]
      exact h.node_refs q hq
  · obtain ⟨refs, hq⟩ := withFile_node k f r access (.static n)
    rw [hq]
    exact h.static n
  · obtain ⟨refs, hq⟩ := withFile_node k f r access (.allocated n)
    rw [hq]
    exact h.console n hn

/-- The store after a file's last reference was closed and it was counted off its node. -/
def Store.withoutFile (k : Store) (f : Word) : Store :=
  let r := (k.file f).node
  ((k.setFile f { k.file f with refs := 0, node := .null }).record (.closed r)).setNode r
    { k.node r with refs := (k.node r).refs - 1 }

lemma withoutFile_ne {g : Word} (hg : g ≠ f) : (k.withoutFile f).file g = k.file g :=
  Store.setFile_ne _ hg

lemma withoutFile_node_same : (k.withoutFile f).node (k.file f).node =
    { k.node (k.file f).node with refs := (k.node (k.file f).node).refs - 1 } :=
  Store.setNode_same _ _ _

lemma withoutFile_node_ne {q : NodeRef} (hq : q ≠ (k.file f).node) :
    (k.withoutFile f).node q = k.node q := Store.setNode_ne _ hq

lemma withoutFile_node (k : Store) (f : Word) (q : NodeRef) :
    ∃ refs, (k.withoutFile f).node q = { k.node q with refs := refs } :=
  setRefs_node ((k.setFile f _).record _) (k.file f).node ((k.node (k.file f).node).refs - 1) q

lemma withoutFile_kept (nodes : List Word) (hf : f ∉ files) : Kept k (k.withoutFile f) files nodes := by
  have hne : ∀ g ∈ files, g ≠ f := fun g hg he => hf (he ▸ hg)
  refine ⟨fun g hg => ?_, fun g hg => ?_, fun q _ => ?_, fun q _ => ?_, fun q _ => ?_, rfl, rfl⟩
  · rw [withoutFile_ne (hne g hg)]
  · rw [withoutFile_ne (hne g hg)]
  all_goals
    obtain ⟨refs, hq⟩ := withoutFile_node k f q
    rw [hq]

lemma FdCounts.filesOn_withoutFile (h : FdCounts k held files nodes) (hf : f ∈ files) (q : NodeRef) :
    filesOn (k.withoutFile f) (files.erase f) q =
      filesOn k files q - if (k.file f).node = q then 1 else 0 := by
  have hkept := withoutFile_kept (k := k) nodes (h.nodup.not_mem_erase (a := f))
  rw [filesOn_congr hkept.node, filesOn_perm (List.perm_cons_erase hf), filesOn_cons,
    Nat.add_sub_cancel]

lemma FdCounts.withoutFile (h : FdCounts k held files nodes) (hf : f ∈ files)
    (hone : held.count f = 1) : FdCounts (k.withoutFile f) (held.erase f) (files.erase f) nodes := by
  have hmem {g : Word} : g ∈ files.erase f ↔ g ≠ f ∧ g ∈ files := h.nodup.mem_erase_iff
  have hkept := withoutFile_kept (k := k) nodes (h.nodup.not_mem_erase (a := f))
  have hon := h.filesOn_withoutFile hf
  refine ⟨h.nodup.erase f, fun g => ?_, fun g hg => ?_, ?_, fun g hg => ?_, fun g hg => ?_,
    fun q hq => ?_, fun n => ?_, fun n hn => ?_⟩
  · rw [hmem, h.mem_files]
    by_cases hg : g = f
    · subst hg
      have h0 : (held.erase g).count g = 0 := by rw [List.count_erase_self, hone]
      simpa using List.count_eq_zero.mp h0
    · rw [List.mem_erase_of_ne hg]
      simp [hg]
  · obtain ⟨hne, hg⟩ := hmem.mp hg
    rw [withoutFile_ne hne, List.count_erase_of_ne hne, h.refs g hg]
  · exact lt_of_le_of_lt List.length_erase_le h.small
  · rw [hkept.node g hg]
    exact h.alive g (hmem.mp hg).2
  · have hg' := (hmem.mp hg).2
    rw [hkept.node g hg, hkept.ops _ (h.alive g hg')]
    exact h.ops g hg'
  · rw [hon]
    by_cases hqr : (k.file f).node = q
    · subst hqr
      have hpos := filesOn_pos (k := k) hf
      have hrefs := h.node_refs _ hq
      have h1 : (1 : BitVec 32).toNat = 1 := rfl
      rw [withoutFile_node_same, if_pos rfl, BitVec.toNat_sub_of_le, hrefs, h1]
      rw [BitVec.le_def, hrefs, h1]
      omega
    · rw [withoutFile_node_ne (Ne.symm hqr), if_neg hqr]
      exact h.node_refs q hq
  · obtain ⟨refs, hq⟩ := withoutFile_node k f (.static n)
    rw [hq]
    exact h.static n
  · obtain ⟨refs, hq⟩ := withoutFile_node k f (.allocated n)
    rw [hq]
    exact h.console n hn

/-- A node without files leaves the heap. -/
lemma FdCounts.dropNode (h : FdCounts k held files nodes) (hnd : nodes.Nodup)
    (h0 : filesOn k files (.allocated n) = 0) : FdCounts k held files (nodes.erase n) := by
  have hsub : ∀ m ∈ nodes.erase n, m ∈ nodes := fun m => List.mem_of_mem_erase
  refine { h with
    alive := fun f hf => ?_
    node_refs := fun r hr => h.node_refs r (hr.mono hsub)
    console := fun m hm => h.console m (hsub m hm) }
  have hal := h.alive f hf
  have hpos := filesOn_pos (k := k) hf
  cases hr : (k.file f).node with
  | null => rwa [hr] at hal
  | static m => trivial
  | allocated m =>
    rw [hr] at hal hpos
    refine hnd.mem_erase_iff.mpr ⟨?_, hal⟩
    rintro rfl
    omega

lemma FdCounts.congr (h : FdCounts k held files nodes) (hfile : k'.file = k.file)
    (hnode : k'.node = k.node) : FdCounts k' held files nodes where
  nodup := h.nodup
  mem_files := h.mem_files
  refs := hfile ▸ h.refs
  small := h.small
  alive := hfile ▸ h.alive
  ops := hfile ▸ hnode ▸ h.ops
  node_refs := by
    intro r hr
    rw [hnode, filesOn_congr (k := k) fun f _ => by rw [hfile]]
    exact h.node_refs r hr
  static := hnode ▸ h.static
  console := hnode ▸ h.console

lemma FdEvents.congr (h : FdEvents k files) (hon : ∀ r, filesOn k' files r = filesOn k files r)
    (hev : k'.events = k.events) : FdEvents k' files :=
  ⟨hev ▸ h.released, fun r => by rw [hev, hon, h.balance]⟩

lemma FdEvents.withFile (h : FdEvents k files) (hf : f ∉ files) (access : BitVec 32) :
    FdEvents (k.withFile f r access) (f :: files) :=
  ⟨.made h.released, fun q => by rw [filesOn_withFile _ hf, ← h.balance q]; rfl⟩

lemma FdEvents.withoutFile_balance (he : FdEvents k files) (h : FdCounts k held files nodes)
    (hf : f ∈ files) (q : NodeRef) : openFiles q (.closed (k.file f).node :: k.events) =
      filesOn (k.withoutFile f) (files.erase f) q := by
  rw [h.filesOn_withoutFile hf, ← he.balance q]
  rfl

/-- The node of the closed file has other files. -/
lemma FdEvents.withoutFile (he : FdEvents k files) (h : FdCounts k held files nodes) (hf : f ∈ files)
    (hleft : filesOn (k.withoutFile f) (files.erase f) (k.file f).node ≠ 0) :
    FdEvents (k.withoutFile f) (files.erase f) :=
  ⟨.closed he.released fun h0 => hleft ((he.withoutFile_balance h hf _).symm.trans h0),
    he.withoutFile_balance h hf⟩

/-- The closed file was the node's last. -/
lemma FdEvents.released_node (he : FdEvents k files) (h : FdCounts k held files nodes) (hf : f ∈ files)
    (hnone : filesOn (k.withoutFile f) (files.erase f) (k.file f).node = 0) :
    FdEvents ((k.withoutFile f).record (.released (k.file f).node)) (files.erase f) :=
  ⟨.released he.released ((he.withoutFile_balance h hf _).trans hnone), he.withoutFile_balance h hf⟩

end Counts

/-- `f` is null, or a new file with one reference. -/
structure FileMade (H : Heap → Phys → List Word → Prop) (k : Store) (held files nodes : List Word)
    (r : NodeRef) (access : BitVec 32) (f : Word) (k' : Store) : Prop where
  inv : FdInv H k' (handOut f held) (handOut f files) nodes
  fresh : f ∉ files
  kept : Kept k k' files nodes
  offsets : SameOffsets k k' files
  none : f = 0#64 → k' = k
  node : f ≠ 0#64 → (k'.file f).node = r
  access : f ≠ 0#64 → (k'.file f).access = access
  grown : Grown k.phys k'.phys
  events : FdEvents k files → FdEvents k' (handOut f files)

/-- One reference to `f` less, and what no longer has any is gone. -/
structure FileClosed (H : Heap → Phys → List Word → Prop) (k : Store) (held files nodes : List Word)
    (f : Word) (k' : Store) (files' nodes' : List Word) : Prop where
  inv : FdInv H k' (held.erase f) files' nodes'
  sub_files : ∀ g ∈ files', g ∈ files
  sub_nodes : ∀ n ∈ nodes', n ∈ nodes
  static : (∀ n, (k.file f).node ≠ .allocated n) → nodes' = nodes
  gone : ∀ n ∈ nodes, n ∉ nodes' → (k.file f).node = .allocated n
  busy : (∀ n ∈ nodes, 0 < filesOn k files (.allocated n)) →
    ∀ n ∈ nodes', 0 < filesOn k' files' (.allocated n)
  kept : Kept k k' files' nodes'
  offsets : SameOffsets k k' files'
  phys : k'.phys = k.phys
  events : FdEvents k files → FdEvents k' files'

/-- Only data of consoles and the heap differ. -/
structure SameObjects (k k' : Store) : Prop where
  file : k'.file = k.file
  node : k'.node = k.node
  events : k'.events = k.events
  phys : k'.phys = k.phys
  root : k'.namespaceRootEntries = k.namespaceRootEntries
  ready : k'.namespaceReady = k.namespaceReady

section Operations

variable {H : Heap → Phys → List Word → Prop} {room : ℕ → Prop} {sure : Prop} {k k' : Store}
  {held files nodes ptrs : List Word} {f n size : Word} {r : NodeRef}

lemma Store.kzalloc_ok {h' : Heap} {s' : Phys}
    (hr : k.kzalloc size = .ok (f, { k with heap := h', phys := s' })) :
    Platinum.kzalloc k.heap k.phys size = .ok (f, h', s') := by
  unfold Store.kzalloc at hr
  obtain ⟨⟨ptr, heap, phys⟩, halloc, hr⟩ := bind_eq_ok.mp hr
  cases hr
  exact halloc

lemma Store.kfree_ok {h' : Heap} (hr : k.kfree f = .ok { k with heap := h' }) :
    Platinum.kfree k.heap f = .ok h' := by
  unfold Store.kfree at hr
  obtain ⟨heap, hfree, hr⟩ := bind_eq_ok.mp hr
  cases hr
  exact hfree

lemma HeapSpec.kzalloc (hs : HeapSpec H room sure) (size : Word) (h : H k.heap k.phys ptrs)
    (hroom : room ptrs.length) (hsize : size ∈ objectSizes) :
    ∃ ptr h' s', k.kzalloc size = .ok (ptr, { k with heap := h', phys := s' }) ∧
      H h' s' (handOut ptr ptrs) ∧ Grown k.phys s' ∧ (ptr = 0#64 → h' = k.heap ∧ s' = k.phys) ∧
      (sure → ptr ≠ 0#64 ∧ s' = k.phys) := by
  obtain ⟨ptr, h', s', hr, hrest⟩ := hs.alloc h hroom hsize
  refine ⟨ptr, h', s', ?_, hrest⟩
  unfold Store.kzalloc
  rw [hr, ok_bind]

lemma HeapSpec.kfree (hs : HeapSpec H room sure) (h : H k.heap k.phys ptrs) (hf : f ∈ ptrs) :
    ∃ h', k.kfree f = .ok { k with heap := h' } ∧ H h' k.phys (ptrs.erase f) := by
  obtain ⟨h', hr, hH⟩ := hs.free h hf
  refine ⟨h', ?_, hH⟩
  unfold Store.kfree
  rw [hr, ok_bind]

lemma FdInv.zero_not_mem (hs : HeapSpec H room sure) (h : FdInv H k held files nodes) : 0#64 ∉ files :=
  fun h0 => hs.ne_zero h.heap (List.mem_append_left _ h0)

lemma FdInv.nodes_nodup (hs : HeapSpec H room sure) (h : FdInv H k held files nodes) : nodes.Nodup :=
  (List.nodup_append.mp (List.nodup_append.mp (hs.nodup h.heap)).2.1).1

/-- What `vfs_make_file` asks of the heap, whatever the node. -/
lemma HeapSpec.makeFile (hs : HeapSpec H room sure) (h : H k.heap k.phys ptrs)
    (hroom : room ptrs.length) :
    ∃ f h' s', k.kzalloc vfsFileSize = .ok (f, { k with heap := h', phys := s' }) ∧
      Grown k.phys s' ∧ (sure → f ≠ 0#64 ∧ s' = k.phys) ∧
      ((f = 0#64 ∧ ∀ r access, vfsMakeFile k r access = .ok (0#64, k)) ∨
        f ≠ 0#64 ∧ H h' s' (f :: ptrs) ∧ ∀ r access,
          vfsMakeFile k r access = .ok (f, { k.withFile f r access with heap := h', phys := s' })) := by
  obtain ⟨f, h', s', halloc, hH, hgrown, hnone, hsure⟩ :=
    hs.kzalloc vfsFileSize h hroom (by simp [objectSizes])
  have hmake (r : NodeRef) (access : BitVec 32) : vfsMakeFile k r access =
      if f = 0#64 then .ok (0#64, { k with heap := h', phys := s' })
      else .ok (f, { k.withFile f r access with heap := h', phys := s' }) := by
    unfold vfsMakeFile
    rw [halloc, ok_bind]
    rfl
  refine ⟨f, h', s', halloc, hgrown, hsure, ?_⟩
  by_cases hf : f = 0#64
  · obtain ⟨rfl, rfl⟩ := hnone hf
    exact .inl ⟨hf, fun r access => (hmake r access).trans (if_pos hf)⟩
  · rw [handOut, if_neg hf] at hH
    exact .inr ⟨hf, hH, fun r access => (hmake r access).trans (if_neg hf)⟩

/-- `vfs_make_file` returns null or a new file. -/
theorem FdInv.makeFile (hs : HeapSpec H room sure) (h : FdInv H k held files nodes)
    (hr : NodeAlive nodes r) (hops : (k.node r).ops ≠ none)
    (hroom : room (files.length + 2 * nodes.length)) (hsmall : held.length + 1 < 2 ^ 31)
    (access : BitVec 32) :
    ∃ f k', vfsMakeFile k r access = .ok (f, k') ∧ FileMade H k held files nodes r access f k' ∧
      (sure → f ≠ 0#64 ∧ k'.phys = k.phys) := by
  have h0 := h.zero_not_mem hs
  obtain ⟨f, h', s', -, hgrown, hsure, ⟨rfl, hrun⟩ | ⟨hf, hH', hrun⟩⟩ :=
    hs.makeFile h.heap (by simpa using hroom)
  · refine ⟨0#64, k, hrun r access, ⟨by simpa [handOut] using h, h0, Kept.refl k files nodes, fun _ _ => rfl,
      fun _ => rfl, fun hne => absurd rfl hne, fun hne => absurd rfl hne, Grown.refl _,
      fun he => by simpa [handOut] using he⟩, fun hs' => ?_⟩
    exact absurd rfl (hsure hs').1
  have hfresh : f ∉ files := fun hm => hs.fresh hH' (List.mem_append_left _ hm)
  have hcounts := h.counts.withFile hfresh hr hops hsmall access
  have hkept := withFile_kept (k := k) (r := r) access nodes hfresh
  have hne : ∀ g ∈ files, g ≠ f := fun g hg he => hfresh (he ▸ hg)
  refine ⟨f, { k.withFile f r access with heap := h', phys := s' }, hrun r access, ⟨⟨?_, ?_⟩, hfresh,
    ⟨hkept.node, hkept.access, hkept.kind, hkept.ops, hkept.data, rfl, rfl⟩, fun g hg => ?_,
    fun he => absurd he hf, fun _ => ?_, fun _ => ?_, hgrown, fun he => ?_⟩, fun hs' => hsure hs'⟩
  · rw [handOut, handOut, if_neg hf, if_neg hf]
    exact hcounts.congr rfl rfl
  · have hptrs : objectPtrs (k.withFile f r access) files nodes = objectPtrs k files nodes :=
      objectPtrs_congr fun m hm => congrArg NodeData.address (hkept.data (.allocated m) hm)
    rw [handOut, if_neg hf]
    change H h' s' (f :: objectPtrs (k.withFile f r access) files nodes)
    rwa [hptrs]
  · exact congrArg VfsFile.offset (withFile_ne (r := r) access (hne g hg))
  · exact congrArg VfsFile.node (withFile_same (k := k) (f := f) (r := r) access)
  · exact congrArg VfsFile.access (withFile_same (k := k) (f := f) (r := r) access)
  · rw [handOut, if_neg hf]
    exact (he.withFile (r := r) hfresh access).congr (fun _ => rfl) rfl

/-- Releasing a console frees its data and its node. -/
lemma release_console (hs : HeapSpec H room sure) {ops : VfsNodeOps} {d : Word}
    (hops : ops = .fdConsoleInput ∨ ops = .fdConsoleOutput)
    (hd : (k.node (.allocated n)).data.address = d) (h : H k.heap k.phys (d :: n :: ptrs)) :
    ∃ k', ops.release k (.allocated n) = .ok (0, k') ∧ SameObjects k k' ∧
      [d, n].foldlM Platinum.kfree k.heap = .ok k'.heap ∧ H k'.heap k'.phys ptrs := by
  have hfree (k₁ : Store) (hh : k₁.heap = k.heap) (hp : k₁.phys = k.phys) (hsame : SameObjects k k₁) :
      ∃ k', (do
        let k₂ ← k₁.kfree d
        let k₃ ← k₂.kfreeNode (.allocated n)
        (.ok (0, k₃) : Run (Int × Store))) = .ok (0, k') ∧ SameObjects k k' ∧
        [d, n].foldlM Platinum.kfree k.heap = .ok k'.heap ∧ H k'.heap k'.phys ptrs := by
    obtain ⟨h₂, hr₂, hH₂⟩ := hs.kfree (k := k₁) (f := d) (by rwa [hh, hp]) (by simp)
    rw [List.erase_cons_head] at hH₂
    obtain ⟨h₃, hr₃, hH₃⟩ := hs.kfree (k := { k₁ with heap := h₂ }) (f := n) hH₂ (by simp)
    rw [List.erase_cons_head] at hH₃
    refine ⟨{ k₁ with heap := h₃ }, ?_,
      ⟨hsame.file, hsame.node, hsame.events, hsame.phys, hsame.root, hsame.ready⟩, ?_, hH₃⟩
    · rw [hr₂, ok_bind, Store.kfreeNode, hr₃, ok_bind]
    · rw [← hh, List.foldlM_cons, Store.kfree_ok hr₂, ok_bind, List.foldlM_cons, Store.kfree_ok hr₃, ok_bind]
      rfl
  rcases hops with rfl | rfl
  · change ∃ k', fdConsoleInputRelease k (.allocated n) = .ok (0, k') ∧ _
    unfold fdConsoleInputRelease
    dsimp only
    rw [hd]
    exact hfree (k.setFdConsoleInput d _) rfl rfl ⟨rfl, rfl, rfl, rfl, rfl, rfl⟩
  · change ∃ k', fdConsoleOutputRelease k (.allocated n) = .ok (0, k') ∧ _
    unfold fdConsoleOutputRelease
    dsimp only
    rw [hd]
    exact hfree (k.setFdConsoleOutput d _) rfl rfl ⟨rfl, rfl, rfl, rfl, rfl, rfl⟩

/-- A static node's callback does nothing. -/
lemma release_static {ops : VfsNodeOps} (h₁ : ops ≠ .fdConsoleInput) (h₂ : ops ≠ .fdConsoleOutput) :
    ops.release k r = .ok (0, k) := by
  cases ops with
  | fdConsoleInput => exact absurd rfl h₁
  | fdConsoleOutput => exact absurd rfl h₂
  | consoleInput | consoleOutput | staticText | executable | directory => rfl

/-- Closing one of several references. -/
lemma FdInv.closeShared (h : FdInv H k held files nodes) (hf : f ∈ files) (h0 : f ≠ 0#64)
    (hmany : 1 < held.count f) :
    ∃ k', vfsFileClose k f = .ok (0, k') ∧ FileClosed H k held files nodes f k' files nodes := by
  have hinv := h.counts.release hf hmany
  have hrefs := h.counts.refs f hf
  have hnull := (h.counts.alive f hf).ne_null
  have hdec := (hinv.refs f hf).trans List.count_erase_self
  rw [Store.setFile_same] at hdec
  have hopen : (k.file f).refs ≠ 0 := by
    intro hr
    rw [hr] at hrefs
    have hz : (0 : BitVec 32).toNat = 0 := rfl
    omega
  have hleft : (k.file f).refs - 1 ≠ 0 := by
    intro hr
    have hz : (0 : BitVec 32).toNat = 0 := rfl
    dsimp only at hdec
    rw [hr] at hdec
    omega
  have hfile := setRefs_file k f ((k.file f).refs - 1)
  refine ⟨k.setFile f { k.file f with refs := (k.file f).refs - 1 }, ?_,
    ⟨⟨hinv, h.heap⟩, fun g hg => hg, fun m hm => hm, fun _ => rfl,
      fun m hm hm' => absurd hm hm', fun hb m hm => ?_,
      ⟨fun g _ => ?_, fun g _ => ?_, fun _ _ => rfl, fun _ _ => rfl, fun _ _ => rfl, rfl, rfl⟩,
      fun g _ => ?_, rfl, fun he => he.congr (fun r => ?_) rfl⟩⟩
  · unfold vfsFileClose
    rw [if_neg (not_or.mpr ⟨h0, not_or.mpr ⟨hopen, hnull⟩⟩)]
    dsimp only
    rw [Store.setFile_same, if_pos hleft]
  · rw [filesOn_congr (k := k) fun g _ => by obtain ⟨refs', hg⟩ := hfile g; rw [hg]]
    exact hb m hm
  rotate_right
  · exact filesOn_congr (k := k) fun g _ => by obtain ⟨refs', hg⟩ := hfile g; rw [hg]
  all_goals
    obtain ⟨refs', hg⟩ := hfile g
    rw [hg]

lemma vfsFileClose_last {h' : Heap} (hopen : f ≠ 0#64 ∧ (k.file f).refs ≠ 0 ∧ (k.file f).node ≠ .null)
    (hlast : (k.file f).refs - 1 = 0)
    (hfree : (k.setFile f { k.file f with refs := 0, node := .null }).kfree f =
      .ok { k.setFile f { k.file f with refs := 0, node := .null } with heap := h' })
    (hrefs : (k.node (k.file f).node).refs ≠ 0) :
    vfsFileClose k f = match ((k.withoutFile f).node (k.file f).node).ops with
      | some ops =>
        if ((k.withoutFile f).node (k.file f).node).refs = 0 then
          ops.release ({ k.withoutFile f with heap := h' }.record (.released (k.file f).node))
            (k.file f).node
        else .ok (0, { k.withoutFile f with heap := h' })
      | none => .ok (0, { k.withoutFile f with heap := h' }) := by
  unfold vfsFileClose
  rw [if_neg (not_or.mpr ⟨hopen.1, not_or.mpr hopen.2⟩)]
  simp only [Store.setFile_same, Store.setFile_setFile, hlast, ne_eq, not_true_eq_false,
    if_false, hfree, ok_bind]
  exact if_neg hrefs

/-- Closing the last reference to a file frees it and counts it off its node. -/
lemma HeapSpec.closeLast (hs : HeapSpec H room sure) {ops : VfsNodeOps} (h : H k.heap k.phys ptrs)
    (hf : f ∈ ptrs) (hopen : (k.file f).refs = 1) (hnull : (k.file f).node ≠ .null)
    (hrefs : (k.node (k.file f).node).refs ≠ 0) (hops : (k.node (k.file f).node).ops = some ops) :
    ∃ h', Platinum.kfree k.heap f = .ok h' ∧ H h' k.phys (ptrs.erase f) ∧ vfsFileClose k f =
      if ((k.withoutFile f).node (k.file f).node).refs = 0 then
        ops.release ({ k.withoutFile f with heap := h' }.record (.released (k.file f).node))
          (k.file f).node
      else .ok (0, { k.withoutFile f with heap := h' }) := by
  have h0 : f ≠ 0#64 := fun h0 => hs.ne_zero h (h0 ▸ hf)
  obtain ⟨h', hfree, hH⟩ := hs.kfree (k := k.setFile f { k.file f with refs := 0, node := .null })
    (f := f) h hf
  have hlast : (k.file f).refs - 1 = 0 := by
    rw [hopen]
    rfl
  have hopen0 : (k.file f).refs ≠ 0 := by
    rw [hopen]
    decide
  have hops' : ((k.withoutFile f).node (k.file f).node).ops = some ops := by
    rw [withoutFile_node_same]
    exact hops
  refine ⟨h', Store.kfree_ok (k := k.setFile f _) hfree, hH, ?_⟩
  rw [vfsFileClose_last ⟨h0, hopen0, hnull⟩ hlast hfree hrefs, hops']

lemma objectPtrs_withoutFile (h : FdCounts k held files nodes) (hf : f ∈ files) :
    (objectPtrs k files nodes).erase f = objectPtrs (k.withoutFile f) (files.erase f) nodes := by
  have hkept := withoutFile_kept (k := k) nodes (h.nodup.not_mem_erase (a := f))
  have hdata : objectPtrs (k.withoutFile f) (files.erase f) nodes = objectPtrs k (files.erase f) nodes :=
    objectPtrs_congr fun m hm => congrArg NodeData.address (hkept.data (.allocated m) hm)
  rw [hdata, objectPtrs, List.erase_append_left _ hf, objectPtrs]

/-- Without `f`, and perhaps without its node, the objects are as they were. -/
lemma FdInv.fileGone (h : FdInv H k held files nodes) (hf : f ∈ files) {nodes' : List Word}
    (hcounts : FdCounts (k.withoutFile f) (held.erase f) (files.erase f) nodes')
    (hfile : k'.file = (k.withoutFile f).file) (hnode : k'.node = (k.withoutFile f).node)
    (hphys : k'.phys = k.phys) (hroot : k'.namespaceRootEntries = k.namespaceRootEntries)
    (hready : k'.namespaceReady = k.namespaceReady)
    (hheap : H k'.heap k'.phys (objectPtrs k' (files.erase f) nodes')) (hsub : ∀ n ∈ nodes', n ∈ nodes)
    (hgone : ∀ n ∈ nodes, n ∉ nodes' → (k.file f).node = .allocated n)
    (hstatic : (∀ n, (k.file f).node ≠ .allocated n) → nodes' = nodes)
    (hused : ∀ n ∈ nodes', (k.file f).node = .allocated n →
      filesOn (k.withoutFile f) (files.erase f) (.allocated n) ≠ 0)
    (hevents : FdEvents k files → FdEvents k' (files.erase f)) :
    FileClosed H k held files nodes f k' (files.erase f) nodes' := by
  have hkept := withoutFile_kept (k := k) nodes (h.counts.nodup.not_mem_erase (a := f))
  refine ⟨⟨hcounts.congr hfile hnode, hheap⟩, fun g => List.mem_of_mem_erase, hsub, hstatic, hgone,
    fun hb n hn => ?_, ?_, fun g hg => ?_, hphys, hevents⟩
  · have hon := h.counts.filesOn_withoutFile hf (.allocated n)
    rw [filesOn_congr (k := k.withoutFile f) fun g _ => by rw [hfile]]
    by_cases hfn : (k.file f).node = .allocated n
    · exact Nat.pos_of_ne_zero (hused n hn hfn)
    · rw [if_neg hfn] at hon
      exact lt_of_lt_of_eq (hb n (hsub n hn)) hon.symm
  · refine Kept.mono ⟨fun g hg => ?_, fun g hg => ?_, fun q hq => ?_, fun q hq => ?_, fun q hq => ?_, hroot,
      hready⟩ (fun g hg => hg) hsub
    · exact (congrArg (fun file => (file g).node) hfile).trans (hkept.node g hg)
    · exact (congrArg (fun file => (file g).access) hfile).trans (hkept.access g hg)
    · exact (congrArg (fun node => (node q).kind) hnode).trans (hkept.kind q hq)
    · exact (congrArg (fun node => (node q).ops) hnode).trans (hkept.ops q hq)
    · exact (congrArg (fun node => (node q).data) hnode).trans (hkept.data q hq)
  · rw [hfile, withoutFile_ne ((h.counts.nodup.mem_erase_iff).mp hg).1]

/-- Closing the last reference to a file. -/
lemma FdInv.closeLast (hs : HeapSpec H room sure) (h : FdInv H k held files nodes) (hf : f ∈ files)
    (hone : held.count f = 1) :
    ∃ k' nodes', vfsFileClose k f = .ok (0, k') ∧
      FileClosed H k held files nodes f k' (files.erase f) nodes' := by
  have hnd := h.nodes_nodup hs
  have hrefs := h.counts.refs f hf
  have hal := h.counts.alive f hf
  have h1 : (1 : BitVec 32).toNat = 1 := rfl
  have hz : (0 : BitVec 32).toNat = 0 := rfl
  have hopen : (k.file f).refs = 1 := BitVec.eq_of_toNat_eq (hrefs.trans hone)
  have hpos := filesOn_pos (k := k) hf
  have hnode_refs := h.counts.node_refs _ hal
  have hpos_refs : (k.node (k.file f).node).refs ≠ 0 := by
    intro hz'
    rw [hz'] at hnode_refs
    omega
  obtain ⟨ops, ho⟩ := Option.ne_none_iff_exists'.mp (h.counts.ops f hf)
  -- the file leaves the heap and its node's count
  obtain ⟨h', -, hH, hrun⟩ := hs.closeLast h.heap (List.mem_append_left _ hf) hopen hal.ne_null hpos_refs ho
  have hcounts := h.counts.withoutFile hf hone
  rw [objectPtrs_withoutFile h.counts hf] at hH
  have hleft := hcounts.node_refs _ hal
  by_cases hlast : ((k.withoutFile f).node (k.file f).node).refs = 0
  · rw [if_pos hlast] at hrun
    have hnone : filesOn (k.withoutFile f) (files.erase f) (k.file f).node = 0 := by
      rw [← hleft, hlast, hz]
    have hevents : FdEvents k files →
        FdEvents ((k.withoutFile f).record (.released (k.file f).node)) (files.erase f) :=
      fun he => he.released_node h.counts hf hnone
    cases hr : (k.file f).node with
    | null => exact absurd hr hal.ne_null
    | static m =>
      rw [hr] at hrun hevents ho
      obtain ⟨h₁, h₂, -⟩ := h.counts.static m
      rw [release_static (fun he => h₁ (ho.trans (congrArg some he)))
        (fun he => h₂ (ho.trans (congrArg some he)))] at hrun
      refine ⟨_, nodes, hrun, h.fileGone hf hcounts rfl rfl rfl rfl rfl hH (fun n hn => hn)
        (fun n hn hn' => absurd hn hn') (fun _ => rfl) (fun n _ hn => ?_)
        fun he => (hevents he).congr (fun _ => rfl) rfl⟩
      rw [hr] at hn
      cases hn
    | allocated n =>
      rw [hr] at hrun hevents ho hnone hal
      have hconsole : ops = .fdConsoleInput ∨ ops = .fdConsoleOutput := by
        obtain ⟨hops' | hops', -⟩ := h.counts.console n hal
        · exact .inl (Option.some.inj (ho.symm.trans hops'))
        · exact .inr (Option.some.inj (ho.symm.trans hops'))
      have hperm : (objectPtrs (k.withoutFile f) (files.erase f) nodes).Perm
          (nodeData (k.withoutFile f) n :: n ::
            objectPtrs (k.withoutFile f) (files.erase f) (nodes.erase n)) := by
        have hn := List.perm_cons_erase hal
        refine List.perm_iff_count.mpr fun x => ?_
        have hx := hn.count_eq x
        have hx' := (hn.map (nodeData (k.withoutFile f))).count_eq x
        simp only [objectPtrs, List.count_append, List.count_cons, List.map_cons] at hx hx' ⊢
        omega
      -- the console's node leaves the heap with it
      obtain ⟨k', hrel, hsame, -, hH'⟩ := release_console hs
        (k := { k.withoutFile f with heap := h' }.record (.released (.allocated n))) (n := n) hconsole
        rfl (hs.perm hH hperm)
      have hdata : objectPtrs k' (files.erase f) (nodes.erase n) =
          objectPtrs (k.withoutFile f) (files.erase f) (nodes.erase n) :=
        objectPtrs_congr fun m _ => by rw [nodeData, hsame.node]; rfl
      refine ⟨k', nodes.erase n, hrun.trans hrel, h.fileGone hf (hcounts.dropNode hnd hnone) hsame.file
        hsame.node hsame.phys hsame.root hsame.ready (by rwa [hdata]) (fun m => List.mem_of_mem_erase)
        (fun m hm hm' => ?_) (fun hst => absurd hr (hst n)) (fun m hm hrm => ?_)
        fun he => (hevents he).congr (fun q => ?_) hsame.events⟩
      · by_cases hmn : m = n
        · rw [hr, hmn]
        · exact absurd ((List.mem_erase_of_ne hmn).mpr hm) hm'
      · obtain rfl := NodeRef.allocated.inj (hr.symm.trans hrm)
        exact absurd hm hnd.not_mem_erase
      · exact filesOn_congr fun g _ => congrArg (fun file => (file g).node) hsame.file
  · rw [if_neg hlast] at hrun
    have hsome : filesOn (k.withoutFile f) (files.erase f) (k.file f).node ≠ 0 := by
      intro h0
      exact hlast (BitVec.eq_of_toNat_eq (by rw [hleft, h0, hz]))
    exact ⟨_, nodes, hrun, h.fileGone hf hcounts rfl rfl rfl rfl rfl hH (fun n hn => hn)
      (fun n hn hn' => absurd hn hn') (fun _ => rfl) (fun n _ hn => hn ▸ hsome)
      fun he => (he.withoutFile h.counts hf hsome).congr (fun _ => rfl) rfl⟩

/-- `vfs_file_close` takes one reference back. -/
theorem FdInv.closeFile (hs : HeapSpec H room sure) (h : FdInv H k held files nodes) (hf : f ∈ held) :
    ∃ k' files' nodes', vfsFileClose k f = .ok (0, k') ∧
      FileClosed H k held files nodes f k' files' nodes' := by
  have hmem := (h.counts.mem_files f).mpr hf
  have hpos := List.count_pos_iff.mpr hf
  by_cases hone : held.count f = 1
  · obtain ⟨k', nodes', hr, hc⟩ := h.closeLast hs hmem hone
    exact ⟨k', _, nodes', hr, hc⟩
  · obtain ⟨k', hr, hc⟩ := h.closeShared hmem (fun h0 => h.zero_not_mem hs (h0 ▸ hmem)) (by omega)
    exact ⟨k', files, nodes, hr, hc⟩

end Operations

end Platinum
