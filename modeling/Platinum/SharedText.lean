import Platinum.FileFrame

/-!
# Reading a text through shared descriptors

Duplicates of a descriptor share the position of one open file. `TextRun` is
every order of reads through them and of all other calls, for as long as the
file stays open; what it reads is the beginning of the text.
-/
namespace Platinum
open ByteMemory BlockList

/-- The text as a list of bytes. -/
def textBytes (text : VfsStaticTextData) : List Byte :=
  (List.range text.length.toNat).map text.text

/-- A static node that holds `text`. -/
structure TextNode (k : Store) (n : NamespaceNode) (text : VfsStaticTextData) : Prop where
  ops : (k.node (.static n)).ops = some .staticText
  data : (k.node (.static n)).data = .staticText text

/-- A read and what came of it. -/
structure TextRead where
  before : KernelState
  task : TaskId
  fd : Int
  buffer : Word
  count : Word
  result : Int
  after : Store

def TextRead.call (e : TextRead) : UserAccess (Int × Store) :=
  fdTableRead e.before.store (e.before.task e.task).fdTable e.fd e.buffer e.count

/-- The reads through descriptors of `f`, in order, in a run that keeps `f` open. -/
inductive TextRun (f : Word) (k₁ : KernelState) : KernelState → List TextRead → Prop
  | opened : TextRun f k₁ k₁ []
  | read {k : KernelState} {reads : List TextRead} {t : TaskId} {fd r : Int} {buffer count : Word}
      {store : Store} (run : TextRun f k₁ k reads) (halias : NamesFile (k.task t).fdTable fd f)
      (hcall : (fdTableRead k.store (k.task t).fdTable fd buffer count).result = .ok (r, store))
      (hapart : FreeApart store) :
      TextRun f k₁ (k.setStore store) (reads ++ [⟨k, t, fd, buffer, count, r, store⟩])
  | other {k k' : KernelState} {reads : List TextRead} (run : TextRun f k₁ k reads)
      (hcall : OtherCall {f} k k') (hopen : f ∈ heldFiles k') : TextRun f k₁ k' reads

/-- The read put `chunk` into the buffer, wrote nothing else there, and moved the
position of `f` by as much. -/
structure ReadReturns (f : Word) (e : TextRead) (chunk : List Byte) : Prop where
  result : e.call.result = .ok (e.result, e.after)
  fits : chunk.length ≤ e.count.toNat
  value : e.result = toInt32 (BitVec.ofNat 64 chunk.length)
  touched : e.call.touched = (List.range chunk.length).map fun i => e.buffer + BitVec.ofNat 64 i
  stored : userStoreBytes e.before.store.phys e.buffer chunk = ⟨e.call.touched, .ok e.after.phys⟩
  rest : ∃ offset, e.after = { e.before.store with phys := e.after.phys }.setFile f
    { e.before.store.file f with offset := offset }

/-- `f` is open for reading the text of `n` and stands at `position`. -/
structure OpenText (k : Store) (f : Word) (n : NamespaceNode) (text : VfsStaticTextData)
    (position : ℕ) : Prop where
  node : (k.file f).node = .static n
  access : (k.file f).access = vfsAccessRead
  text : TextNode k n text
  position : (k.file f).offset.toNat = position

section Text

variable {k k' : Store} {f buffer count : Word} {n : NamespaceNode} {text : VfsStaticTextData}
  {position : ℕ} {r : Int}

@[simp] lemma length_textBytes (text : VfsStaticTextData) : (textBytes text).length = text.length.toNat := by
  simp [textBytes]

lemma TextNode.congr (h : TextNode k n text) (hn : SameNode (k.node (.static n)) (k'.node (.static n))) :
    TextNode k' n text := ⟨hn.ops.trans h.ops, hn.data.trans h.data⟩

lemma FilesFramed.openText (h : FilesFramed {f} k k') (ho : OpenText k f n text position)
    (hopen : (k'.file f).node ≠ .null) : OpenText k' f n text position := by
  refine ⟨?_, (h.access f rfl).trans ho.access, ho.text.congr (h.static n),
    by rw [h.offset f rfl, ho.position]⟩
  rcases h.node f rfl with hn | hn
  · rw [hn, ho.node]
  · exact absurd hn hopen

/-- What `vfs_static_text_read` copies is the next part of the text. -/
lemma textBytes_part (text : VfsStaticTextData) (position m : ℕ) (h : position + m ≤ text.length.toNat) :
    (List.range m).map (fun index => text.text (position + index)) =
      ((textBytes text).drop position).take m := by
  apply List.ext_getElem
  · simp
    omega
  · intro j h₁ h₂
    simp [textBytes]

lemma userStoreBytes_touched (bytes : List Byte) : ∀ {s s' : Phys} {buffer : Word},
    (userStoreBytes s buffer bytes).result = .ok s' → (userStoreBytes s buffer bytes).touched =
      (List.range bytes.length).map fun i => buffer + BitVec.ofNat 64 i := by
  induction bytes with
  | nil =>
    intro s s' buffer _
    rfl
  | cons value bytes ih =>
    intro s s' buffer h
    obtain ⟨s₁, h₁, h⟩ := UserAccess.bind_ok h
    have hstep : userStore s buffer value = ⟨[buffer], .ok s₁⟩ := by rw [← h₁]; rfl
    rw [userStoreBytes, hstep, UserAccess.ok_bind]
    dsimp only
    rw [ih h, List.length_cons, List.range_succ_eq_map, List.map_cons, List.map_map]
    simp only [BitVec.add_zero, List.singleton_append, List.cons.injEq, true_and]
    refine List.map_congr_left fun i _ => ?_
    rw [Function.comp_apply, BitVec.add_assoc, ← BitVec.ofNat_add, Nat.add_comm]

/-- The part of the text that a read of `count` bytes at `position` returns. -/
def nextPart (text : VfsStaticTextData) (position : ℕ) (count : Word) : List Byte :=
  ((textBytes text).drop position).take count.toNat

lemma length_nextPart (text : VfsStaticTextData) (position : ℕ) (count : Word) :
    (nextPart text position count).length = min count.toNat (text.length.toNat - position) := by
  simp [nextPart]

/-- A read at the end of the text, or of nothing, leaves the file alone. -/
lemma OpenText.idle (ho : OpenText k f n text position) :
    k.setFile f { k.file f with offset := BitVec.ofNat 64 position } = k := by
  have hoff : BitVec.ofNat 64 position = (k.file f).offset := by
    rw [← ho.position, BitVec.ofNat_toNat, BitVec.setWidth_eq]
  rw [hoff]
  unfold Store.setFile
  rw [Function.update_eq_self]

/-- A read stores the next part of the text and moves on by its length. -/
lemma OpenText.read_eq (ho : OpenText k f n text position) (h0 : f ≠ 0#64) :
    vfsFileRead k f buffer count =
      (do let phys ← userStoreBytes k.phys buffer (nextPart text position count)
          pure (toInt32 (BitVec.ofNat 64 (nextPart text position count).length),
            { k with phys := phys }.setFile f { k.file f with
              offset := BitVec.ofNat 64 (position + (nextPart text position count).length) })) := by
  have hlen := length_nextPart text position count
  have hcl := text.length.isLt
  have hread : vfsFileRead k f buffer count = vfsStaticTextRead k f buffer count := by
    unfold vfsFileRead
    rw [ho.node, if_neg (not_or.mpr ⟨h0, by simp⟩), ho.text.ops]
    dsimp only
    rw [if_neg (by decide), ho.access, if_neg (by decide)]
    rfl
  have hidle : nextPart text position count = [] → (pure (0, k) : UserAccess (Int × Store)) =
      (do let phys ← userStoreBytes k.phys buffer (nextPart text position count)
          pure (toInt32 (BitVec.ofNat 64 (nextPart text position count).length),
            { k with phys := phys }.setFile f { k.file f with
              offset := BitVec.ofNat 64 (position + (nextPart text position count).length) })) := by
    intro hnil
    rw [hnil]
    change _ = (pure (toInt32 0#64, k.setFile f { k.file f with offset := BitVec.ofNat 64 position }) :
      UserAccess (Int × Store))
    rw [ho.idle]
    rfl
  rw [hread]
  have hdata : (k.node (k.file f).node).data.asStaticText = text := by rw [ho.node, ho.text.data]; rfl
  unfold vfsStaticTextRead
  dsimp only
  rw [hdata]
  by_cases hc : count = 0#64
  · rw [if_pos hc]
    refine hidle (List.eq_nil_of_length_eq_zero ?_)
    rw [hlen, hc]
    simp
  rw [if_neg hc]
  by_cases hend : text.length ≤ (k.file f).offset
  · rw [if_pos hend]
    refine hidle (List.eq_nil_of_length_eq_zero ?_)
    rw [BitVec.le_def, ho.position] at hend
    rw [hlen]
    omega
  rw [if_neg hend]
  rw [BitVec.le_def, ho.position] at hend
  obtain ⟨m, hm⟩ : ∃ m, (if text.length - (k.file f).offset < count then text.length - (k.file f).offset
    else count) = m := ⟨_, rfl⟩
  have hsub : (text.length - (k.file f).offset).toNat = text.length.toNat - position := by
    rw [BitVec.toNat_sub_of_le (by rw [BitVec.le_def, ho.position]; omega), ho.position]
  have hmlen : m.toNat = (nextPart text position count).length := by
    rw [← hm, hlen]
    split_ifs with hlt <;> rw [BitVec.lt_def, hsub] at hlt <;> omega
  have hmeq : m = BitVec.ofNat 64 (nextPart text position count).length := by
    rw [← hmlen, BitVec.ofNat_toNat, BitVec.setWidth_eq]
  have hoff : (k.file f).offset + m = BitVec.ofNat 64 (position + (nextPart text position count).length) := by
    rw [← hmlen, BitVec.ofNat_add, BitVec.ofNat_toNat, BitVec.setWidth_eq, ← ho.position,
      BitVec.ofNat_toNat, BitVec.setWidth_eq]
  have hbytes : (List.range m.toNat).map (fun index => text.text ((k.file f).offset.toNat + index)) =
      nextPart text position count := by
    rw [ho.position, textBytes_part text position m.toNat (by omega), nextPart]
    refine List.take_eq_take_iff.mpr ?_
    rw [List.length_drop, length_textBytes, hmlen, hlen]
    omega
  rw [hm, hbytes, hoff, hmeq]

end Text

/-- What a run keeps; `total` bytes were asked for so far. -/
structure TextInv (f : Word) (n : NamespaceNode) (text : VfsStaticTextData) (total : ℕ)
    (k : KernelState) : Prop where
  fds : ∃ files nodes, FdsInv k files nodes
  held : f ∈ heldFiles k
  file : OpenText k.store f n text (min total text.length.toNat)

section Run

variable {k k' k₀ k₁ : KernelState} {f : Word} {n : NamespaceNode} {text : VfsStaticTextData}
  {total position : ℕ} {files nodes : List Word} {t : TaskId} {table : FdTable} {fd r : Int}
  {buffer count : Word} {store : Store}

lemma TextInv.other (h : TextInv f n text total k) (hcall : OtherCall {f} k k')
    (hopen : f ∈ heldFiles k') : TextInv f n text total k' := by
  obtain ⟨files, nodes, hfds⟩ := h.fds
  obtain ⟨r, hfd⟩ := hcall.fdCall
  obtain ⟨⟨files', nodes', hfds'⟩, -⟩ := hfds.call hfd
  have hheld : ∀ g ∈ ({f} : Set Word), g ∈ heldFiles k := by
    rintro g rfl
    exact h.held
  have hread : ∀ g ∈ ({f} : Set Word), (k.store.file g).access &&& vfsAccessWrite = 0 := by
    rintro g rfl
    rw [h.file.access]
    decide
  refine ⟨⟨files', nodes', hfds'⟩, hopen, ?_⟩
  refine (hcall.framed (hfds.handed hheld) hread).openText h.file ?_
  exact (hfds'.inv.counts.alive f (hfds'.mem_files hopen)).ne_null

/-- A read returns the next part of the text. -/
lemma TextInv.read (h : TextInv f n text total k) (halias : NamesFile (k.task t).fdTable fd f)
    (hcall : (fdTableRead k.store (k.task t).fdTable fd buffer count).result = .ok (r, store))
    (hapart : FreeApart store) :
    ReadReturns f ⟨k, t, fd, buffer, count, r, store⟩
        (nextPart text (min total text.length.toNat) count) ∧
      TextInv f n text (total + count.toNat) (k.setStore store) := by
  obtain ⟨files, nodes, hfds⟩ := h.fds
  obtain ⟨⟨files', nodes', hfds'⟩, -⟩ := hfds.call (.read hcall hapart)
  have h0 : f ≠ 0#64 := fun h0 =>
    hfds.inv.zero_not_mem (heapWith_spec []) (h0 ▸ hfds.mem_files h.held)
  have hlen := length_nextPart text (min total text.length.toNat) count
  have hlt := text.length.isLt
  obtain ⟨entry, hget, hentry⟩ := halias
  have heq : fdTableRead k.store (k.task t).fdTable fd buffer count =
      vfsFileRead k.store f buffer count := by
    unfold fdTableRead
    rw [hget, ← hentry]
  have hrun := hcall
  rw [heq, h.file.read_eq h0] at hrun
  obtain ⟨phys, hphys, hrun⟩ := UserAccess.bind_ok hrun
  obtain ⟨rfl, rfl⟩ := Prod.mk.inj (Except.ok.inj hrun)
  have hstored : userStoreBytes k.store.phys buffer (nextPart text (min total text.length.toNat) count) =
      ⟨(userStoreBytes k.store.phys buffer (nextPart text (min total text.length.toNat) count)).touched,
        .ok phys⟩ := by
    rw [← hphys]
  have htouched : (fdTableRead k.store (k.task t).fdTable fd buffer count).touched =
      (userStoreBytes k.store.phys buffer (nextPart text (min total text.length.toNat) count)).touched := by
    rw [heq, h.file.read_eq h0, hstored, UserAccess.ok_bind, UserAccess.pure_eq, List.append_nil]
  refine ⟨⟨hcall, hlen.trans_le (min_le_left _ _), rfl, ?_, ?_, _, rfl⟩, ⟨files', nodes', hfds'⟩, h.held, ?_⟩
  · exact htouched.trans (userStoreBytes_touched _ hphys)
  · exact hstored.trans (by rw [← htouched]; rfl)
  · obtain ⟨hops, hdata⟩ := h.file.text
    refine ⟨?_, ?_, ⟨hops, hdata⟩, ?_⟩
    · exact (congrArg VfsFile.node (Store.setFile_same _ _ _)).trans h.file.node
    · exact (congrArg VfsFile.access (Store.setFile_same _ _ _)).trans h.file.access
    · refine (congrArg (fun x => x.offset.toNat) (Store.setFile_same _ _ _)).trans ?_
      change (BitVec.ofNat 64 _).toNat = _
      rw [BitVec.toNat_ofNat]
      omega

/-- A new file stands at the beginning. -/
lemma vfsMakeFile_openText {k k' : Store} (h : vfsMakeFile k (.static n) vfsAccessRead = .ok (f, k'))
    (hf : f ≠ 0#64) (htext : TextNode k n text) : OpenText k' f n text 0 := by
  obtain ⟨⟨p, k₁⟩, h₁, h⟩ := bind_eq_ok.mp h
  have ht₁ : TextNode k₁ n text := htext.congr ((kzalloc_framed (F := ∅) h₁).static n)
  dsimp only at h
  split_ifs at h with h0
  · exact absurd (Prod.mk.inj (Except.ok.inj h)).1.symm hf
  · obtain ⟨rfl, rfl⟩ := Prod.mk.inj (Except.ok.inj h)
    have hset : OpenText (k₁.setFile p ⟨1, .static n, 0#64, vfsAccessRead⟩) p n text 0 := by
      refine ⟨?_, ?_, ⟨ht₁.ops, ht₁.data⟩, ?_⟩ <;> rw [Store.setFile_same]
      rfl
    refine ((setNodeRefs_framed {p} _ _ _).record _).openText hset ?_
    rw [Store.record_file, Store.setNode_file, Store.setFile_same]
    simp

/-- Opening the path of a text for reading. -/
lemma FdsInv.openText {path : List Byte} (h : FdsInv k files nodes) (hcur : k.current = some t)
    (hnode : vfsWalkPath k.store path = .static n) (htext : TextNode k.store n text)
    (hopen : syscallOpenPath k (k.task t).fdTable path vfsAccessRead = .ok (fd, k₁)) (hfd : 0 ≤ fd) :
    ∃ f, NamesFile (k₁.task t).fdTable fd f ∧ TextInv f n text 0 k₁ := by
  obtain ⟨⟨files', nodes', hfds'⟩, -⟩ := h.call (.openPath hcur hopen)
  obtain ⟨⟨f, store⟩, h₁, hrun⟩ := bind_eq_ok.mp hopen
  dsimp only at hrun
  by_cases hf : f = 0#64
  · rw [if_pos hf] at hrun
    obtain ⟨rfl, -⟩ := Prod.mk.inj (Except.ok.inj hrun)
    omega
  rw [if_neg hf] at hrun
  have hfile : OpenText store f n text 0 := by
    unfold vfsOpenPath at h₁
    dsimp only at h₁
    rw [hnode, if_neg (by simp)] at h₁
    unfold vfsFileOpen at h₁
    rw [if_neg (by simp), htext.ops] at h₁
    dsimp only at h₁
    split_ifs at h₁
    · exact absurd (Prod.mk.inj (Except.ok.inj h₁)).1.symm hf
    · exact absurd (Prod.mk.inj (Except.ok.inj h₁)).1.symm hf
    · exact absurd (Prod.mk.inj (Except.ok.inj h₁)).1.symm hf
    · exact vfsMakeFile_openText h₁ hf htext
  obtain ⟨kind, hkind⟩ : ∃ kind, (if (store.node (store.file f).node).kind = .console then FdKind.console
    else .placeholder) = kind := ⟨_, rfl⟩
  have hknown : kind ≠ .none := by
    rw [← hkind]
    split_ifs <;> simp
  rw [hkind] at hrun
  rcases fdTableInstall_spec (k.task t).fdTable hknown hf with ⟨hins, -⟩ | ⟨i, -, hins⟩
  · rw [hins] at hrun
    obtain ⟨⟨result, store₂⟩, -, hrun⟩ := bind_eq_ok.mp hrun
    obtain ⟨rfl, -⟩ := Prod.mk.inj (Except.ok.inj hrun)
    omega
  · rw [hins] at hrun
    dsimp only at hrun
    rw [if_neg (by omega)] at hrun
    obtain ⟨rfl, rfl⟩ := Prod.mk.inj (Except.ok.inj hrun)
    have htable : (((k.setStore store).setFdTable
        (Function.update (k.task t).fdTable i ⟨1, kind, f⟩)).task t).fdTable =
        Function.update (k.task t).fdTable i ⟨1, kind, f⟩ := by
      rw [setFdTable_current hcur, withTable_table, if_pos rfl]
    have hused : (Function.update (k.task t).fdTable i (⟨1, kind, f⟩ : FdEntry) i).used ≠ 0 := by
      rw [Function.update_self]
      simp
    refine ⟨f, ⟨⟨1, kind, f⟩, ?_, rfl⟩, ⟨files', nodes', hfds'⟩, ?_, ?_⟩
    · rw [htable, fdTableGet, fdIndex_val hused, Option.map_some, Function.update_self]
    · refine (heldFiles_perm _ t).mem_iff.mpr (List.mem_append_left _ ?_)
      rw [htable]
      exact mem_tableFiles.mpr ⟨i, hused, by rw [Function.update_self]⟩
    · rw [setFdTable_store, Nat.zero_min]
      exact hfile

/-- The bytes asked for in a list of reads. -/
def totalCount (reads : List TextRead) : ℕ := (reads.map fun e => e.count.toNat).sum

lemma TextRun.returns {reads : List TextRead} (h₁ : TextInv f n text 0 k₁) (run : TextRun f k₁ k reads) :
    TextInv f n text (totalCount reads) k ∧ ∃ chunks, List.Forall₂ (ReadReturns f) reads chunks ∧
      chunks.flatten = (textBytes text).take (min (totalCount reads) text.length.toNat) := by
  induction run with
  | opened => exact ⟨h₁, [], .nil, by simp [totalCount]⟩
  | other _ hcall hopen ih =>
    obtain ⟨h, hchunks⟩ := ih
    exact ⟨h.other hcall hopen, hchunks⟩
  | @read k reads t fd r buffer count store _ halias hcall hapart ih =>
    obtain ⟨h, chunks, hreturns, hflat⟩ := ih
    obtain ⟨hread, hnext⟩ := h.read halias hcall hapart
    have htotal : totalCount (reads ++ [⟨k, t, fd, buffer, count, r, store⟩]) =
        totalCount reads + count.toNat := by simp [totalCount]
    rw [htotal]
    refine ⟨hnext, chunks ++ [_], List.rel_append hreturns (.cons hread .nil), ?_⟩
    rw [List.flatten_append, hflat, List.flatten_singleton, nextPart, ← List.take_add]
    refine List.take_eq_take_iff.mpr ?_
    rw [length_textBytes]
    omega

end Run

/-- Through any descriptors that share the file, whatever else happens, the bytes
read are the beginning of the text, as long as the counts allow. -/
theorem textRun_prefix {k₀ k k₁ : KernelState} {t : TaskId} {path : List Byte} {n : NamespaceNode}
    {text : VfsStaticTextData} {fd : Int} (hstart : FilesFresh k₀) (run : FdRun k₀ k)
    (hcur : k.current = some t) (hnode : vfsWalkPath k.store path = .static n)
    (htext : TextNode k.store n text)
    (hopen : syscallOpenPath k (k.task t).fdTable path vfsAccessRead = .ok (fd, k₁)) (hfd : 0 ≤ fd) :
    ∃ f, NamesFile (k₁.task t).fdTable fd f ∧ ∀ k₂ reads, TextRun f k₁ k₂ reads →
      ∃ chunks, List.Forall₂ (ReadReturns f) reads chunks ∧
        chunks.flatten = (textBytes text).take (min (totalCount reads) text.length.toNat) := by
  obtain ⟨files, nodes, h⟩ := run.inv hstart
  obtain ⟨f, hnames, hinv⟩ := h.openText hcur hnode htext hopen hfd
  exact ⟨f, hnames, fun k₂ reads htext => (htext.returns hinv).2⟩

/-- A store with tables that map 0x40001000 to the page at 0x00600000. -/
def mappedStore : Store :=
  { smallStore with
    phys := { smallStore.phys with
      mem := setSlot (setSlot (setSlot (setSlot smallStore.phys.mem 0x00601000#64 0 0x00602007#64)
        0x00602000#64 1 0x00603007#64) 0x00603000#64 0 0x00604007#64) 0x00604000#64 1 0x00600007#64
      cr3 := 0x00601000#64 } }

lemma mappedStore_heap : HeapState mappedStore.heap mappedStore.phys [] [] []
    [0x02002000#64, 0x02001000#64, 0x02000000#64] :=
  ⟨heapInv_nil _, by decide, by simp, by simp⟩

/-- The heap's pages are those it has, so free pages are not among them. -/
lemma HeapState.freeApart {k : Store} {pages ptrs l : List Word} {L : List Block}
    (h : HeapState k.heap k.phys pages ptrs L l) : FreeApart k := by
  refine ⟨l, h.free, fun pages' L' hi p hp hm => ?_⟩
  obtain rfl := h.inv.list.unique hi.list
  have hpage := (hi.page p hp).aligned
  have hself : OnPage p p.toNat := ⟨le_refl _, by omega⟩
  obtain ⟨q, hq, hon⟩ := (h.inv.tiles p.toNat).mp ((hi.tiles p.toNat).mpr ⟨p, hp, hself⟩)
  obtain rfl := onPage_unique hpage (h.inv.page q hq).aligned hself hon
  exact h.apart p hq hm

/-- A read leaves the heap alone, and its pages are none of a free list that stays. -/
lemma FdsInv.freeApart {k : KernelState} {store : Store} {files nodes l : List Word} {table : FdTable} {fd r : Int}
    {buffer count : Word} (h : FdsInv k files nodes)
    (hcall : (fdTableRead k.store table fd buffer count).result = .ok (r, store))
    (hl : FreeList k.phys l) (hl' : FreeList store.phys l) : FreeApart store := by
  obtain ⟨pages, L, l₁, hs⟩ := h.inv.heap
  obtain rfl := hs.free.unique hl
  have hs' : HeapState store.heap store.phys pages _ L l₁ :=
    ⟨(fdTableRead_moved hcall).heap ▸ hs.inv, hl', hs.apart, hs.handed⟩
  exact hs'.freeApart

/-- The banner's open file, read through two descriptors. -/
structure BannerReads (store : Store) (f : Word) (k₁ k₂ k₃ k₄ : KernelState) (store₅ : Store) : Prop where
  init : vfsNamespaceInitialize mappedStore [] = .ok store
  opens : syscallOpenPath (runningKernel store) fdTableInitialize bannerPath vfsAccessRead = .ok (0, k₁)
  dup : ∃ table store', fdTableDup k₁.store (k₁.task .task0).fdTable 0 = .ok (1, table, store') ∧
    k₂ = k₁.withTable .task0 table store'
  first : ∃ store', (fdTableRead k₂.store (k₂.task .task0).fdTable 0 0x40001000#64 4#64).result =
    .ok (4, store') ∧ k₃ = k₂.setStore store'
  close : ∃ table store', fdTableClose k₃.store (k₃.task .task0).fdTable 0 = .ok (0, table, store') ∧
    k₄ = k₃.withTable .task0 table store'
  second : (fdTableRead k₄.store (k₄.task .task0).fdTable 1 0x40001004#64 9#64).result = .ok (5, store₅)
  names : NamesFile (k₁.task .task0).fdTable 0 f ∧ NamesFile (k₂.task .task0).fdTable 0 f ∧
    NamesFile (k₄.task .task0).fdTable 1 f
  held : f ∈ heldFiles k₂ ∧ f ∈ heldFiles k₄
  free : ∃ l, FreeList k₂.phys l ∧ FreeList k₃.phys l ∧ FreeList k₄.phys l ∧ FreeList store₅.phys l

lemma bannerReads_exist : ∃ store f k₁ k₂ k₃ k₄ store₅, BannerReads store f k₁ k₂ k₃ k₄ store₅ := by
  have hcalls : ((do
      let store ← vfsNamespaceInitialize mappedStore []
      let r₁ ← syscallOpenPath (runningKernel store) fdTableInitialize bannerPath vfsAccessRead
      let r₂ ← fdTableDup r₁.2.store (r₁.2.task .task0).fdTable 0
      let k₂ := r₁.2.withTable .task0 r₂.2.1 r₂.2.2
      let r₃ ← (fdTableRead k₂.store (k₂.task .task0).fdTable 0 0x40001000#64 4#64).result
      let k₃ := k₂.setStore r₃.2
      let r₄ ← fdTableClose k₃.store (k₃.task .task0).fdTable 0
      let k₄ := k₃.withTable .task0 r₄.2.1 r₄.2.2
      let r₅ ← (fdTableRead k₄.store (k₄.task .task0).fdTable 1 0x40001004#64 9#64).result
      return ([r₁.1, r₂.1, r₃.1, r₄.1, r₅.1], [(fdTableGet (r₁.2.task .task0).fdTable 0).map (·.file),
          (fdTableGet (k₂.task .task0).fdTable 0).map (·.file),
          (fdTableGet (k₄.task .task0).fdTable 1).map (·.file)],
        [heldFiles k₂, heldFiles k₄],
        [k₂.phys, k₃.phys, k₄.phys, r₅.2.phys].all fun s =>
          FreeList s [0x02001000#64, 0x02000000#64])) : Run _).toOption =
      some ([0, 1, 4, 0, 5], [some 0x02002020#64, some 0x02002020#64, some 0x02002020#64],
        [[0x02002020#64, 0x02002020#64], [0x02002020#64]], true) := by
    decide +kernel
  obtain ⟨store, hinit, h⟩ := bind_eq_ok.mp (toOption_eq_some.mp hcalls)
  obtain ⟨⟨fd, k₁⟩, hopen, h⟩ := bind_eq_ok.mp h
  obtain ⟨⟨fd₂, table₂, store₂⟩, hdup, h⟩ := bind_eq_ok.mp h
  obtain ⟨⟨r₃, store₃⟩, hread₃, h⟩ := bind_eq_ok.mp h
  obtain ⟨⟨r₄, table₄, store₄⟩, hclose, h⟩ := bind_eq_ok.mp h
  obtain ⟨⟨r₅, store₅⟩, hread₅, h⟩ := bind_eq_ok.mp h
  obtain ⟨hresults, h⟩ := Prod.mk.inj (Except.ok.inj h)
  obtain ⟨hnames, h⟩ := Prod.mk.inj h
  obtain ⟨hheld, hfree⟩ := Prod.mk.inj h
  simp only [List.cons.injEq, and_true] at hresults hnames hheld
  obtain ⟨rfl, rfl, rfl, rfl, rfl⟩ := hresults
  simp only [List.all_cons, List.all_nil, Bool.and_true, Bool.and_eq_true, decide_eq_true_eq] at hfree
  exact ⟨store, 0x02002020#64, k₁, _, _, _, store₅, hinit, hopen, ⟨_, _, hdup, rfl⟩, ⟨_, hread₃, rfl⟩,
    ⟨_, _, hclose, rfl⟩, hread₅, ⟨Option.map_eq_some_iff.mp hnames.1, Option.map_eq_some_iff.mp hnames.2.1,
      Option.map_eq_some_iff.mp hnames.2.2⟩, ⟨by rw [hheld.1]; simp, by rw [hheld.2]; simp⟩, _, hfree⟩

lemma mappedStore_start {store : Store} (hinit : vfsNamespaceInitialize mappedStore [] = .ok store) :
    FdStart [] (runningKernel store) :=
  ⟨⟨mappedStore, hinit, fun _ => rfl, rfl, _, _, _, mappedStore_heap⟩, fun _ => rfl⟩

/-- Four bytes are read through the first descriptor, which is then closed, and the
rest through the other. -/
lemma BannerReads.textRun {store store₅ : Store} {f : Word} {k₁ k₂ k₃ k₄ : KernelState}
    (h : BannerReads store f k₁ k₂ k₃ k₄ store₅) :
    TextRun f k₁ (k₄.setStore store₅) [⟨k₂, .task0, 0, 0x40001000#64, 4#64, 4, k₃.store⟩,
      ⟨k₄, .task0, 1, 0x40001004#64, 9#64, 5, store₅⟩] := by
  obtain ⟨hinit, hopen, ⟨table₂, store₂, hdup, rfl⟩, ⟨store₃, hread₃, rfl⟩, ⟨table₄, store₄, hclose, rfl⟩, hread₅,
    hnames, hheld, l, hfree₂, hfree₃, hfree₄, hfree₅⟩ := h
  have hstart := (mappedStore_start hinit).fresh
  obtain ⟨⟨files₁, nodes₁, hinv₁⟩, -⟩ := hstart.inv.call (.openPath (t := .task0) rfl hopen)
  obtain ⟨⟨files₂, nodes₂, hinv₂⟩, -⟩ := hinv₁.call (.dup hdup)
  have hapart₃ := hinv₂.freeApart hread₃ hfree₂ hfree₃
  obtain ⟨⟨files₃, nodes₃, hinv₃⟩, -⟩ := hinv₂.call (.read hread₃ hapart₃)
  obtain ⟨⟨files₄, nodes₄, hinv₄⟩, -⟩ := hinv₃.call (.close hclose)
  have hapart₅ := hinv₄.freeApart hread₅ hfree₄ hfree₅
  exact .read (.other (.read (.other .opened (.dup hdup) hheld.1) hnames.2.1 hread₃ hapart₃) (.close hclose)
    hheld.2) hnames.2.2 hread₅ hapart₅

/-- The two reads return the banner. -/
theorem textRun_prefix_sample : ∃ f k₁ k₂ reads chunks, TextRun f k₁ k₂ reads ∧
    reads.map (fun e => (e.fd, e.count, e.result)) = [(0, 4#64, 4), (1, 9#64, 5)] ∧
    List.Forall₂ (ReadReturns f) reads chunks ∧ chunks.flatten = bannerText := by
  obtain ⟨store, f, k₁, k₂, k₃, k₄, store₅, h⟩ := bannerReads_exist
  obtain ⟨hwalk, htext⟩ : vfsWalkPath store bannerPath = .static .banner ∧
      TextNode store .banner namespaceBannerData := by
    cases h.init
    exact ⟨rfl, rfl, rfl⟩
  obtain ⟨f', ⟨entry', hget', hfile'⟩, hreads⟩ :=
    textRun_prefix (mappedStore_start h.init).fresh .start (t := .task0) rfl hwalk htext h.opens (by decide)
  obtain ⟨entry, hget, hfile⟩ := h.names.1
  obtain rfl := Option.some.inj (hget.symm.trans hget')
  obtain rfl := hfile.symm.trans hfile'
  obtain ⟨chunks, hreturns, hflat⟩ := hreads _ _ h.textRun
  exact ⟨f, k₁, _, _, chunks, h.textRun, rfl, hreturns, hflat⟩

end Platinum
