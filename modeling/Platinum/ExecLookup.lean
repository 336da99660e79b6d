import Platinum.FdTables
import Platinum.Globals

/-!
# Looking up an image

`SYS_EXEC` opens the file at the path, asks it for its image and closes it
again. What it finds is what the node of the namespace holds.
-/
namespace Platinum
open ByteMemory

/-- The image that a node's data offers. -/
def nodeImage (n : VfsNode) : Option (Mem × Word) :=
  match n.data.asExecutable with
  | none => none
  | some data =>
    match data.image with
    | none => none
    | some image => if data.size = 0#64 then none else some (image, data.size)

/-- The path names an executable. -/
def ExecutableAt (k : Store) (path : List Byte) : Prop :=
  vfsWalkPath k path ≠ .null ∧ (k.node (vfsWalkPath k path)).kind = .executable

/-- What looking up an image comes to. -/
inductive LookupOutcome (H : Heap → Phys → List Word → Prop) (k : Store) (held files nodes : List Word)
    (path : List Byte) : Run (Option (Mem × Word) × Store) → Prop
  | absent (hpath : ¬ ExecutableAt k path) : LookupOutcome H k held files nodes path (.ok (none, k))
  | unmade (hpath : ExecutableAt k path) (hmake : vfsMakeFile k (vfsWalkPath k path) 0 = .ok (0#64, k)) :
      LookupOutcome H k held files nodes path (.ok (none, k))
  | found {f : Word} {k₁ k' : Store} {files' : List Word} (hpath : ExecutableAt k path)
      (hmake : vfsMakeFile k (vfsWalkPath k path) 0 = .ok (f, k₁)) (hf : f ≠ 0#64)
      (hinv : FdInv H k' held files' nodes) (hkept : Kept k k' files nodes)
      (hsame : Unchanged k k' files nodes) (hphys : k'.phys = k₁.phys)
      (hev : FdEvents k files → FdEvents k' files') :
      LookupOutcome H k held files nodes path (.ok (nodeImage (k.node (vfsWalkPath k path)), k'))

section Lookup

variable {H : Heap → Phys → List Word → Prop} {room : ℕ → Prop} {sure : Prop} {k : Store}
  {held files nodes : List Word} {f : Word}

/-- A file of an executable offers the image of its node. -/
lemma vfsFileExecutableImage_eq {r : NodeRef} (hf : f ≠ 0#64) (hr : r ≠ .null)
    (hnode : (k.file f).node = r) (hkind : (k.node r).kind = .executable) :
    vfsFileExecutableImage k f = nodeImage (k.node r) := by
  unfold vfsFileExecutableImage nodeImage
  rw [hnode]
  refine (if_neg (by simp [hf, hr, hkind])).trans ?_
  cases (k.node r).data.asExecutable with
  | none => rfl
  | some data => cases hd : data.image <;> simp [hd]

theorem FdInv.lookup (hs : HeapSpec H room sure) (h : FdInv H k held files nodes)
    (hns : NamespaceOk k) (hroom : room (files.length + 2 * nodes.length))
    (hsmall : held.length + 1 < 2 ^ 31) (path : List Byte) :
    LookupOutcome H k held files nodes path (syscallExecImage k path) := by
  by_cases hpath : ExecutableAt k path
  swap
  · have hopen : vfsOpenExecPath k path = .ok (0#64, k) := by
      refine if_pos ?_
      by_contra hno
      push Not at hno
      exact hpath hno
    have hrun : syscallExecImage k path = .ok (none, k) := by
      unfold syscallExecImage
      rw [hopen, ok_bind]
      exact if_pos rfl
    rw [hrun]
    exact .absent hpath
  obtain ⟨hnull, hkind⟩ := hpath
  obtain ⟨n, hn⟩ := (hns path).resolve_left hnull
  have hopen : vfsOpenExecPath k path = vfsMakeFile k (vfsWalkPath k path) 0 :=
    if_neg (by simp [hnull, hkind])
  have hops := (h.counts.static n).ops_of_kind (by rw [← hn, hkind]; simp)
  obtain ⟨f, k₁, hmake, hm, -⟩ := h.makeFile hs (r := .static n) trivial hops hroom hsmall 0
  rw [← hn] at hmake
  unfold syscallExecImage
  rw [hopen, hmake, ok_bind]
  dsimp only
  by_cases hf : f = 0#64
  · subst hf
    rw [hm.none rfl] at hmake ⊢
    rw [if_pos rfl]
    exact .unmade ⟨hnull, hkind⟩ hmake
  obtain ⟨k₂, files₂, hclose, hinv, hkept, hsame, -, hev⟩ := hm.undo hs h hf
  have hstatic : NodeAlive nodes (vfsWalkPath k path) := by
    rw [hn]
    trivial
  have himage : vfsFileExecutableImage k₁ f = nodeImage (k.node (vfsWalkPath k path)) := by
    have hnode : nodeImage (k₁.node (vfsWalkPath k path)) = nodeImage (k.node (vfsWalkPath k path)) := by
      rw [nodeImage, hm.kept.data _ hstatic]
      rfl
    rw [← hnode]
    exact vfsFileExecutableImage_eq hf hnull ((hm.node hf).trans hn.symm)
      ((hm.kept.kind _ hstatic).trans hkind)
  have hphys := vfsFileClose_phys hclose
  have hfound : LookupOutcome H k held files nodes path _ :=
    .found ⟨hnull, hkind⟩ hmake hf hinv hkept hsame hphys hev
  rw [if_neg hf, himage]
  cases hi : nodeImage (k.node (vfsWalkPath k path)) with
  | none =>
    rw [hi] at hfound
    dsimp only
    rw [hclose]
    exact hfound
  | some image =>
    rw [hi] at hfound
    dsimp only
    rw [hclose]
    exact hfound

/-- With room for a file the lookup finds what the node holds and takes no page. -/
lemma FdInv.lookup_sure (hs : HeapSpec H room True) (h : FdInv H k held files nodes)
    (hns : NamespaceOk k) (hroom : room (files.length + 2 * nodes.length))
    (hsmall : held.length + 1 < 2 ^ 31) {path : List Byte} (hpath : ExecutableAt k path) :
    ∃ k', syscallExecImage k path = .ok (nodeImage (k.node (vfsWalkPath k path)), k') ∧
      k'.phys = k.phys := by
  obtain ⟨n, hn⟩ := (hns path).resolve_left hpath.1
  have hops := (h.counts.static n).ops_of_kind (by rw [← hn, hpath.2]; simp)
  obtain ⟨f, k₁, hmake, -, hsure⟩ := h.makeFile hs (r := .static n) trivial hops hroom hsmall 0
  obtain ⟨hf, hphys⟩ := hsure trivial
  rw [← hn] at hmake
  have hout := h.lookup hs hns hroom hsmall path
  generalize hrun : syscallExecImage k path = x at hout
  cases hout with
  | absent hno => exact absurd hpath hno
  | unmade _ hmake' =>
    rw [hmake] at hmake'
    cases hmake'
    exact absurd rfl hf
  | found _ hmake' _ _ _ _ hphys' =>
    rw [hmake] at hmake'
    cases hmake'
    exact ⟨_, rfl, hphys'.trans hphys⟩

/-- Closing the only reference to a file of a static node frees the file. -/
lemma HeapSpec.closeStatic (hs : HeapSpec H room sure) {ptrs : List Word} (h : H k.heap k.phys ptrs)
    (hf : f ∈ ptrs) {n : NamespaceNode} (hopen : (k.file f).refs = 1)
    (hnode : (k.file f).node = .static n) (hrefs : (k.node (.static n)).refs ≠ 0)
    (hstatic : StaticNode (k.node (.static n))) (hops : (k.node (.static n)).ops ≠ none) {r : Int}
    {k' : Store} (hrun : vfsFileClose k f = .ok (r, k')) :
    Platinum.kfree k.heap f = .ok k'.heap := by
  obtain ⟨ops, hops⟩ := Option.ne_none_iff_exists'.mp hops
  obtain ⟨h', hfree, -, hclose⟩ := hs.closeLast (k := k) (f := f) h hf hopen (by simp [hnode])
    (by rwa [hnode]) (by rw [hnode, hops])
  rw [release_static (fun he => hstatic.1 (he ▸ hops)) (fun he => hstatic.2.1 (he ▸ hops)), hrun] at hclose
  rw [hfree]
  split_ifs at hclose <;> cases hclose <;> rfl

/-- The heap when an image was looked up: a file was made and freed again. -/
lemma HeapSpec.lookup_heap (hs : HeapSpec H room sure) {ptrs : List Word} (h : H k.heap k.phys ptrs)
    (hroom : room ptrs.length) {path : List Byte} {n : NamespaceNode} {image : Mem × Word} {k' : Store}
    (hwalk : vfsWalkPath k path = .static n) (hrefs : (k.node (.static n)).refs = 0)
    (hstatic : StaticNode (k.node (.static n)))
    (hrun : syscallExecImage k path = .ok (some image, k')) :
    ∃ f h₁ s, Platinum.kzalloc k.heap k.phys vfsFileSize = .ok (f, h₁, s) ∧
      Platinum.kfree h₁ f = .ok k'.heap := by
  obtain ⟨f, h₁, s, halloc, -, -, hmade⟩ := hs.makeFile h hroom
  refine ⟨f, h₁, s, Store.kzalloc_ok halloc, ?_⟩
  unfold syscallExecImage vfsOpenExecPath at hrun
  rw [hwalk] at hrun
  dsimp only at hrun
  by_cases hkind : NodeRef.static n = .null ∨ (k.node (.static n)).kind ≠ .executable
  · rw [if_pos hkind, ok_bind] at hrun
    cases hrun
  rw [if_neg hkind] at hrun
  push Not at hkind
  have hops : (k.node (.static n)).ops ≠ none := hstatic.ops_of_kind (by simp [hkind.2])
  rcases hmade with ⟨-, hmake⟩ | ⟨hf, hH, hmake⟩
  · rw [hmake, ok_bind] at hrun
    cases hrun
  rw [hmake, ok_bind] at hrun
  dsimp only at hrun
  rw [if_neg hf] at hrun
  have hclosed {r : Int} {k₂ : Store}
      (hclose : vfsFileClose { k.withFile f (.static n) 0 with heap := h₁, phys := s } f = .ok (r, k₂)) :
      Platinum.kfree h₁ f = .ok k₂.heap := by
    have hnode : (k.withFile f (.static n) 0).node (.static n) =
        { k.node (.static n) with refs := (k.node (.static n)).refs + 1 } := withFile_node_same
    refine hs.closeStatic (k := { k.withFile f (.static n) 0 with heap := h₁, phys := s }) hH (by simp)
      (n := n) ?_ ?_ ?_ ?_ ?_ hclose
    · exact congrArg VfsFile.refs (withFile_same 0)
    · exact congrArg VfsFile.node (withFile_same 0)
    · change ((k.withFile f (.static n) 0).node (.static n)).refs ≠ 0
      rw [hnode, hrefs]
      exact (by decide : (0 + 1 : BitVec 32) ≠ 0)
    · change StaticNode ((k.withFile f (.static n) 0).node (.static n))
      rw [hnode]
      exact hstatic
    · change ((k.withFile f (.static n) 0).node (.static n)).ops ≠ none
      rw [hnode]
      exact hops
  cases hi : vfsFileExecutableImage { k.withFile f (.static n) 0 with heap := h₁, phys := s } f with
  | none =>
    rw [hi] at hrun
    obtain ⟨x, -, hrun⟩ := bind_eq_ok.mp hrun
    cases hrun
  | some found =>
    rw [hi] at hrun
    obtain ⟨⟨r, k₂⟩, hclose, hrun⟩ := bind_eq_ok.mp hrun
    obtain ⟨-, rfl⟩ := Prod.mk.inj (Except.ok.inj hrun)
    exact hclosed hclose

end Lookup

end Platinum
