import Platinum.FdRun

/-!
# The walk along a path

`vfs_walk_path` once more, byte by byte: paths and names are arrays that end in
NUL, and each access to an array is checked against its bounds. None fails, and
the walk finds what looking up the components of the path one by one finds.
-/
namespace Platinum
open ByteMemory

def slash : Byte := 0x2F

/-- An access outside of an array. -/
inductive OutOfBounds where
  | read
  | write
  deriving DecidableEq, Repr

/-- The array that holds the string. -/
def cString (text : List Byte) : List Byte := text ++ [0]

/-- `component[index] = c`. -/
def setChar (component : Vector Byte vfsComponentSize) (index : ℕ) (c : Byte) :
    Except OutOfBounds (Vector Byte vfsComponentSize) :=
  if h : index < vfsComponentSize then .ok (component.set index c h) else .error .write

/-- The loop of `string_equal`, from an index of both arrays on. -/
def stringEqual : List Byte → List Byte → Except OutOfBounds Bool
  | l :: left, r :: right =>
    if l ≠ 0 ∧ r ≠ 0 then if l ≠ r then .ok false else stringEqual left right
    else .ok (l = 0 && r = 0)
  | _, _ => .error .read

/-- `vfs_find_child`, with the name in an array. -/
def findChildChars (name : List Byte) :
    List VfsNamespaceEntry → Except OutOfBounds (Option VfsNamespaceEntry)
  | [] => .ok none
  | entry :: entries => do
    if ← stringEqual (cString entry.name) name then .ok (some entry) else findChildChars name entries

/-- The loops of `vfs_walk_path`; the list is the rest of the path's array. -/
def walkChars : List VfsNamespaceEntry → Vector Byte vfsComponentSize → ℕ → List Byte →
    Except OutOfBounds NodeRef
  | _, _, _, [] => .error .read
  | entries, component, componentIndex, c :: rest =>
    if c ≠ 0 ∧ c ≠ slash then
      if vfsComponentSize ≤ componentIndex + 1 then .ok .null
      else do
        let component ← setChar component componentIndex c
        walkChars entries component (componentIndex + 1) rest
    else if componentIndex = 0 then .ok .null
    else do
      let component ← setChar component componentIndex 0
      match ← findChildChars component.toList entries with
      | none => .ok .null
      | some entry =>
        if c = 0 then .ok entry.node
        else
          match entry.children with
          | none => .ok .null
          | some children =>
            match rest with
            | [] => .error .read
            | d :: _ => if d = 0 then .ok .null else walkChars children component 0 rest

/-- `vfs_walk_path` on the array of the path, whatever `component` holds at first. -/
def walkPathChars (k : Store) (component : Vector Byte vfsComponentSize) :
    List Byte → Except OutOfBounds NodeRef
  | [] => .error .read
  | c :: rest =>
    if ¬ k.namespaceReady ∨ c ≠ slash then .ok .null
    else
      match rest with
      | [] => .error .read
      | d :: _ => if d = 0 then .ok .null else walkChars k.namespaceRootEntries component 0 rest

/-- The first entry of that name. -/
def FirstNamed (entries : List VfsNamespaceEntry) (name : List Byte) (entry : VfsNamespaceEntry) :
    Prop :=
  ∃ before after, entries = before ++ entry :: after ∧ entry.name = name ∧
    ∀ other ∈ before, other.name ≠ name

/-- Each component but the last names an entry with children, and the last one an
entry with that node. -/
inductive Reaches : List VfsNamespaceEntry → List (List Byte) → NodeRef → Prop
  | last {entries : List VfsNamespaceEntry} {name : List Byte} {entry : VfsNamespaceEntry}
      (hfirst : FirstNamed entries name entry) : Reaches entries [name] entry.node
  | step {entries children : List VfsNamespaceEntry} {name : List Byte} {entry : VfsNamespaceEntry}
      {rest : List (List Byte)} {node : NodeRef} (hfirst : FirstNamed entries name entry)
      (hchildren : entry.children = some children) (hrest : Reaches children rest node) :
      Reaches entries (name :: rest) node

/-- A component that a path can have: it is not empty, holds no `/` and fits the buffer. -/
structure Component (name : List Byte) : Prop where
  nonempty : name ≠ []
  plain : slash ∉ name
  fits : name.length ≤ 15

/-- `/` and components with single `/` between them, that reach the node. -/
def PathReaches (entries : List VfsNamespaceEntry) (path : List Byte) (node : NodeRef) : Prop :=
  ∃ components, path = slash :: [slash].intercalate components ∧ (∀ c ∈ components, Component c) ∧
    Reaches entries components node

/-- An entry of a namespace tree: names are strings that are not empty, without `/`. -/
inductive TreeEntry : VfsNamespaceEntry → Prop
  | leaf {name : List Byte} {node : NodeRef} (hname : name ≠ [] ∧ slash ∉ name ∧ 0 ∉ name) :
      TreeEntry (.mk name node none)
  | directory {name : List Byte} {node : NodeRef} {children : List VfsNamespaceEntry}
      (hname : name ≠ [] ∧ slash ∉ name ∧ 0 ∉ name) (hchildren : ∀ e ∈ children, TreeEntry e) :
      TreeEntry (.mk name node (some children))

/-- The walk over the parts of a path between its slashes, empty ones included. -/
def walkComponents : List VfsNamespaceEntry → List (List Byte) → NodeRef
  | _, [] => .null
  | entries, name :: rest =>
    if name = [] ∨ vfsComponentSize ≤ name.length then .null
    else
      match vfsFindChild entries name with
      | none => .null
      | some entry =>
        if rest = [] then entry.node
        else
          match entry.children with
          | none => .null
          | some children => walkComponents children rest

section Walk

variable {k : Store} {entries : List VfsNamespaceEntry} {name component rest path : List Byte}
  {entry : VfsNamespaceEntry} {node : NodeRef} {components : List (List Byte)}

lemma vfsFindChild_iff : vfsFindChild entries name = some entry ↔ FirstNamed entries name entry := by
  unfold vfsFindChild FirstNamed
  rw [List.find?_eq_some_iff_append]
  constructor
  · rintro ⟨hname, before, after, rfl, hbefore⟩
    exact ⟨before, after, rfl, of_decide_eq_true hname, fun e he => by simpa using hbefore e he⟩
  · rintro ⟨before, after, rfl, hname, hbefore⟩
    exact ⟨decide_eq_true hname, before, after, rfl, fun e he => by simpa using hbefore e he⟩

/-- Whatever follows a component that is too long, nothing is found. -/
lemma walkComponents_long (hlong : vfsComponentSize ≤ component.length) (parts : List (List Byte)) :
    walkComponents entries (parts.modifyHead (component ++ ·)) = .null := by
  cases parts with
  | nil => rfl
  | cons name parts =>
    refine if_pos (.inr ?_)
    rw [List.length_append]
    omega

/-- The loop finds what the walk over the parts does. -/
lemma vfsWalkLoop_eq : ∀ {entries : List VfsNamespaceEntry} {component : List Byte},
    component.length < vfsComponentSize → vfsWalkLoop entries component rest =
      walkComponents entries ((rest.splitOn slash).modifyHead (component ++ ·)) := by
  induction rest with
  | nil =>
    intro entries component hfits
    rw [List.splitOn_nil]
    simp only [vfsWalkLoop, List.modifyHead_cons, List.append_nil, walkComponents]
    by_cases hempty : component = []
    · rw [if_pos hempty, if_pos (.inl hempty)]
    · rw [if_neg hempty, if_neg (not_or.mpr ⟨hempty, by omega⟩)]
      cases vfsFindChild entries component <;> simp
  | cons c rest ih =>
    intro entries component hfits
    unfold vfsWalkLoop
    by_cases hc : c = 0x2F
    · have hsplit : (c :: rest).splitOn slash = [] :: rest.splitOn slash := by
        rw [List.splitOn_cons_eq_if_modifyHead, if_pos (by simpa [slash] using hc)]
      rw [if_pos hc, hsplit]
      simp only [List.modifyHead_cons, List.append_nil, walkComponents, List.splitOn_ne_nil, if_false]
      by_cases hempty : component = []
      · rw [if_pos hempty, if_pos (.inl hempty)]
      rw [if_neg hempty, if_neg (not_or.mpr ⟨hempty, by omega⟩)]
      cases vfsFindChild entries component with
      | none => rfl
      | some entry =>
        cases hchildren : entry.children with
        | none => simp [hchildren]
        | some children =>
          simp only [hchildren]
          by_cases hrest : rest = []
          · subst hrest
            rw [if_pos rfl]
            exact (if_pos (.inl rfl)).symm
          · rw [if_neg hrest, ih (by decide)]
            congr 1
            cases rest.splitOn slash <;> simp
    · have hsplit : (c :: rest).splitOn slash = (rest.splitOn slash).modifyHead (List.cons c) := by
        rw [List.splitOn_cons_eq_if_modifyHead, if_neg (by simpa [slash] using hc)]
      have happend : ((rest.splitOn slash).modifyHead (List.cons c)).modifyHead (component ++ ·) =
          (rest.splitOn slash).modifyHead ((component ++ [c]) ++ ·) := by
        rw [List.modifyHead_modifyHead]
        simp [Function.comp_def]
      rw [if_neg hc, hsplit, happend]
      by_cases hlong : vfsComponentSize ≤ component.length + 1
      · rw [if_pos hlong]
        exact (walkComponents_long (by simpa using hlong) _).symm
      · rw [if_neg hlong, ih (by rw [List.length_append, List.length_singleton]; omega)]

lemma Component.iff : Component name ↔ slash ∉ name ∧ ¬ (name = [] ∨ vfsComponentSize ≤ name.length) := by
  constructor
  · rintro ⟨hne, hplain, hfits⟩
    exact ⟨hplain, not_or.mpr ⟨hne, by unfold vfsComponentSize; omega⟩⟩
  · rintro ⟨hplain, hbad⟩
    obtain ⟨hne, hfits⟩ := not_or.mp hbad
    exact ⟨hne, hplain, by unfold vfsComponentSize at hfits; omega⟩

/-- The walk arrives where the components lead. -/
lemma walkComponents_reaches (h : Reaches entries components node)
    (hok : ∀ c ∈ components, Component c) : walkComponents entries components = node := by
  induction h with
  | last hfirst =>
    have hname := (Component.iff.mp (hok _ (List.mem_singleton_self _))).2
    rw [walkComponents, if_neg hname, vfsFindChild_iff.mpr hfirst]
    rfl
  | @step entries children name entry rest node hfirst hchildren hrest ih =>
    have hname := (Component.iff.mp (hok _ List.mem_cons_self)).2
    have hne : rest ≠ [] := by
      rintro rfl
      cases hrest
    rw [walkComponents, if_neg hname, vfsFindChild_iff.mpr hfirst]
    dsimp only
    rw [if_neg hne, hchildren]
    exact ih fun c hc => hok c (List.mem_cons_of_mem _ hc)

/-- What the walk arrives at is where the components lead. -/
lemma reaches_of_walkComponents : ∀ {components : List (List Byte)} {entries : List VfsNamespaceEntry},
    walkComponents entries components ≠ .null →
    (∀ c ∈ components, c ≠ [] ∧ c.length < vfsComponentSize) ∧
      Reaches entries components (walkComponents entries components) := by
  intro components
  induction components with
  | nil =>
    intro entries h
    exact absurd rfl h
  | cons name rest ih =>
    intro entries h
    unfold walkComponents at h ⊢
    by_cases hname : name = [] ∨ vfsComponentSize ≤ name.length
    · rw [if_pos hname] at h
      exact absurd rfl h
    rw [if_neg hname] at h ⊢
    obtain ⟨hne, hlen⟩ := not_or.mp hname
    have hgood : name ≠ [] ∧ name.length < vfsComponentSize := ⟨hne, by omega⟩
    cases hfind : vfsFindChild entries name with
    | none =>
      rw [hfind] at h
      exact absurd rfl h
    | some entry =>
      rw [hfind] at h
      dsimp only at h ⊢
      have hfirst := vfsFindChild_iff.mp hfind
      by_cases hrest : rest = []
      · subst hrest
        rw [if_pos rfl]
        exact ⟨by simpa using hgood, .last hfirst⟩
      rw [if_neg hrest] at h ⊢
      cases hchildren : entry.children with
      | none =>
        rw [hchildren] at h
        exact absurd rfl h
      | some children =>
        rw [hchildren] at h
        obtain ⟨hall, hreach⟩ := ih h
        exact ⟨List.forall_mem_cons.mpr ⟨hgood, hall⟩, .step hfirst hchildren hreach⟩

/-- The parts between slashes hold no slash. -/
lemma slash_not_mem_splitOn : ∀ c ∈ rest.splitOn slash, slash ∉ c := by
  induction rest with
  | nil => simp
  | cons d rest ih =>
    intro c hc
    rw [List.splitOn_cons_eq_if_modifyHead] at hc
    split_ifs at hc with hd
    · rcases List.mem_cons.mp hc with rfl | hc
      · simp
      · exact ih c hc
    · cases hparts : rest.splitOn slash with
      | nil => exact absurd hparts (List.splitOn_ne_nil _ _)
      | cons part parts =>
        rw [hparts] at hc ih
        rw [List.modifyHead_cons] at hc
        rcases List.mem_cons.mp hc with rfl | hc
        · rintro hmem
          rcases List.mem_cons.mp hmem with hmem | hmem
          · exact hd (by simpa using hmem.symm)
          · exact ih part List.mem_cons_self hmem
        · exact ih c (List.mem_cons_of_mem _ hc)

lemma vfsWalkPath_eq (hready : k.namespaceReady = true) (rest : List Byte) :
    vfsWalkPath k (slash :: rest) = walkComponents k.namespaceRootEntries (rest.splitOn slash) := by
  unfold vfsWalkPath
  rw [if_neg (by simp [hready])]
  dsimp only
  by_cases hrest : rest = []
  · subst hrest
    rw [if_pos (.inr rfl)]
    exact (if_pos (.inl rfl)).symm
  · rw [if_neg (not_or.mpr ⟨by simp [slash], hrest⟩), vfsWalkLoop_eq (by decide)]
    congr 1
    cases rest.splitOn slash <;> simp

/-- The walk returns the node that the path reaches. -/
lemma vfsWalkPath_reaches (hready : k.namespaceReady = true)
    (h : PathReaches k.namespaceRootEntries path node) : vfsWalkPath k path = node := by
  obtain ⟨components, rfl, hok, hreach⟩ := h
  have hne : components ≠ [] := by
    rintro rfl
    cases hreach
  rw [vfsWalkPath_eq hready, List.splitOn_intercalate slash (fun c hc => (hok c hc).plain) hne]
  exact walkComponents_reaches hreach hok

/-- A path that reaches no node is not found. -/
lemma pathReaches_of_vfsWalkPath (hready : k.namespaceReady = true) (h : vfsWalkPath k path ≠ .null) :
    PathReaches k.namespaceRootEntries path (vfsWalkPath k path) := by
  cases path with
  | nil =>
    refine absurd ?_ h
    unfold vfsWalkPath
    rw [if_neg (by simp [hready])]
  | cons c rest =>
    by_cases hc : c = slash
    · subst hc
      rw [vfsWalkPath_eq hready] at h ⊢
      obtain ⟨hall, hreach⟩ := reaches_of_walkComponents h
      refine ⟨rest.splitOn slash, by rw [List.intercalate_splitOn], fun c hc => ?_, hreach⟩
      obtain ⟨hne, hlen⟩ := hall c hc
      exact Component.iff.mpr ⟨slash_not_mem_splitOn c hc, not_or.mpr ⟨hne, by omega⟩⟩
    · refine absurd ?_ h
      unfold vfsWalkPath
      rw [if_neg (by simp [hready])]
      exact if_pos (.inl hc)

end Walk

section Arrays

variable {k : Store} {entries children : List VfsNamespaceEntry} {name rest path : List Byte}
  {entry : VfsNamespaceEntry} {component : Vector Byte vfsComponentSize} {index : ℕ} {c : Byte}

lemma TreeEntry.name_ok (h : TreeEntry entry) : entry.name ≠ [] ∧ slash ∉ entry.name ∧ 0 ∉ entry.name := by
  cases h with
  | leaf hname => exact hname
  | directory hname _ => exact hname

lemma TreeEntry.of_children (h : TreeEntry entry) (hchildren : entry.children = some children) :
    ∀ e ∈ children, TreeEntry e := by
  cases h with
  | leaf _ => cases hchildren
  | directory _ h =>
    obtain rfl := Option.some.inj hchildren
    exact h

/-- A character within the buffer. -/
lemma setChar_ok (component : Vector Byte vfsComponentSize) (c : Byte) (h : index < vfsComponentSize) :
    ∃ component', setChar component index c = .ok component' ∧
      component'.toList = component.toList.take index ++ c :: component.toList.drop (index + 1) := by
  refine ⟨_, dif_pos h, ?_⟩
  rw [Vector.toList_set, List.set_eq_take_append_cons_drop, if_pos (by simpa using h)]

/-- Strings are compared up to their ends; what follows in the buffer does not matter. -/
lemma stringEqual_eq (junk : List Byte) : ∀ {left right : List Byte}, 0 ∉ left → 0 ∉ right →
    stringEqual (cString left) (right ++ 0 :: junk) = .ok (decide (left = right)) := by
  intro left
  induction left with
  | nil =>
    intro right _ hright
    cases right with
    | nil => rfl
    | cons r right =>
      have hr : r ≠ 0 := fun h => hright (h ▸ List.mem_cons_self)
      simpa [cString, stringEqual] using hr
  | cons l left ih =>
    intro right hleft hright
    have hl : l ≠ 0 := fun h => hleft (h ▸ List.mem_cons_self)
    cases right with
    | nil => simpa [cString, stringEqual] using hl
    | cons r right =>
      have hr : r ≠ 0 := fun h => hright (h ▸ List.mem_cons_self)
      have hrest := ih (fun h => hleft (List.mem_cons_of_mem l h))
        (fun h => hright (List.mem_cons_of_mem r h))
      simp only [cString, List.cons_append, stringEqual] at hrest ⊢
      rw [if_pos ⟨hl, hr⟩]
      by_cases hlr : l = r
      · rw [if_neg (not_not.mpr hlr), hrest]
        simp [hlr]
      · rw [if_pos hlr]
        simp [hlr]

lemma findChildChars_eq (hentries : ∀ e ∈ entries, TreeEntry e) (hname : 0 ∉ name) (junk : List Byte) :
    findChildChars (name ++ 0 :: junk) entries = .ok (vfsFindChild entries name) := by
  induction entries with
  | nil => rfl
  | cons entry entries ih =>
    have hentry := (hentries entry List.mem_cons_self).name_ok.2.2
    unfold findChildChars vfsFindChild
    rw [stringEqual_eq junk hentry hname, List.find?_cons]
    by_cases heq : entry.name = name
    · simp only [heq, decide_true]
      rfl
    · simp only [heq, decide_false]
      exact ih fun e he => hentries e (List.mem_cons_of_mem _ he)

/-- The walk stays within its arrays and finds what `vfsWalkLoop` finds. -/
lemma walkChars_eq : ∀ {entries : List VfsNamespaceEntry} {component : Vector Byte vfsComponentSize}
    {written : List Byte}, 0 ∉ rest → (∀ e ∈ entries, TreeEntry e) → 0 ∉ written →
    written.length < vfsComponentSize → component.toList.take written.length = written →
    walkChars entries component written.length (cString rest) = .ok (vfsWalkLoop entries written rest) := by
  induction rest with
  | nil =>
    intro entries component written _ hentries hwritten hfits htake
    change walkChars entries component written.length [0] = _
    unfold walkChars vfsWalkLoop
    rw [if_neg (by simp)]
    by_cases hempty : written = []
    · rw [if_pos hempty, if_pos (by rw [hempty]; rfl)]
    · rw [if_neg hempty, if_neg (mt List.eq_nil_of_length_eq_zero hempty)]
      obtain ⟨component', hset, hlist⟩ := setChar_ok component 0 hfits
      rw [htake] at hlist
      rw [hset]
      change (findChildChars component'.toList entries >>= _) = _
      rw [hlist, findChildChars_eq hentries hwritten]
      cases vfsFindChild entries written <;> rfl
  | cons c rest ih =>
    intro entries component written hpath hentries hwritten hfits htake
    have hc : c ≠ 0 := fun h => hpath (h ▸ List.mem_cons_self)
    have hrest : 0 ∉ rest := fun h => hpath (List.mem_cons_of_mem c h)
    change walkChars entries component written.length (c :: cString rest) = _
    unfold walkChars vfsWalkLoop
    by_cases hslash : c = 0x2F
    · rw [if_pos hslash, if_neg (fun h => h.2 hslash)]
      by_cases hempty : written = []
      · rw [if_pos hempty, if_pos (by rw [hempty]; rfl)]
      rw [if_neg hempty, if_neg (mt List.eq_nil_of_length_eq_zero hempty)]
      obtain ⟨component', hset, hlist⟩ := setChar_ok component 0 hfits
      rw [htake] at hlist
      rw [hset]
      change (findChildChars component'.toList entries >>= _) = _
      rw [hlist, findChildChars_eq hentries hwritten]
      cases hfind : vfsFindChild entries written with
      | none => rfl
      | some entry =>
        have hentry := hentries entry (List.mem_of_find?_eq_some hfind)
        change (if c = 0 then _ else _) = _
        rw [if_neg hc]
        cases hchildren : entry.children with
        | none => simp [hchildren]
        | some children =>
          dsimp only
          rw [hchildren]
          cases rest with
          | nil => simp [cString]
          | cons d rest =>
            have hd : d ≠ 0 := fun h => hrest (h ▸ List.mem_cons_self)
            change (if d = 0 then _ else walkChars children component' 0 (cString (d :: rest))) = _
            rw [if_neg hd]
            exact (ih hrest (hentry.of_children hchildren) List.not_mem_nil (by decide) rfl).trans
              (congrArg Except.ok (if_neg (List.cons_ne_nil d rest)).symm)
    · rw [if_neg hslash, if_pos ⟨hc, hslash⟩]
      by_cases hlong : vfsComponentSize ≤ written.length + 1
      · rw [if_pos hlong, if_pos hlong]
      rw [if_neg hlong, if_neg hlong]
      obtain ⟨component', hset, hlist⟩ := setChar_ok component c hfits
      rw [htake] at hlist
      rw [hset]
      have hlen : (written ++ [c]).length = written.length + 1 := by simp
      change walkChars entries component' (written.length + 1) (cString rest) = _
      rw [← hlen]
      refine ih hrest hentries ?_ (by omega) ?_
      · rw [List.mem_append, List.mem_singleton]
        exact not_or.mpr ⟨hwritten, hc.symm⟩
      · rw [hlist, List.append_cons written c (List.drop _ _), List.take_left]

/-- No access of the walk is out of bounds, and bytes are compared as strings are. -/
lemma walkPathChars_eq (component : Vector Byte vfsComponentSize) (hpath : 0 ∉ path)
    (hentries : ∀ e ∈ k.namespaceRootEntries, TreeEntry e) :
    walkPathChars k component (cString path) = .ok (vfsWalkPath k path) := by
  unfold vfsWalkPath
  cases path with
  | nil =>
    change walkPathChars k component [0] = _
    unfold walkPathChars
    dsimp only
    have hno : ¬ k.namespaceReady ∨ (0 : Byte) ≠ slash := .inr (by decide)
    rw [if_pos hno]
    split_ifs <;> rfl
  | cons c rest =>
    change walkPathChars k component (c :: cString rest) = _
    unfold walkPathChars
    dsimp only
    by_cases hready : ¬ k.namespaceReady
    · rw [if_pos (Or.inl hready), if_pos hready]
    rw [if_neg hready]
    by_cases hc : c ≠ 0x2F
    · rw [if_pos (.inr hc), if_pos (.inl hc)]
    have hpass : ¬ (¬ k.namespaceReady ∨ c ≠ slash) := not_or.mpr ⟨hready, hc⟩
    rw [if_neg hpass]
    cases rest with
    | nil => simp [cString]
    | cons d rest =>
      have hrest : 0 ∉ d :: rest := fun h => hpath (List.mem_cons_of_mem c h)
      have hd : d ≠ 0 := fun h => hrest (h ▸ List.mem_cons_self)
      change (if d = 0 then _ else walkChars k.namespaceRootEntries component 0 (cString (d :: rest))) = _
      rw [if_neg hd, if_neg (not_or.mpr ⟨hc, List.cons_ne_nil d rest⟩)]
      exact walkChars_eq hrest hentries List.not_mem_nil (by decide) rfl

end Arrays

/-- For every path the walk stays within its arrays, and it returns the node whose
names are the components of the path, null if there is none. -/
theorem vfsWalkPath_spec (k : Store) (path : List Byte) (component : Vector Byte vfsComponentSize)
    (hready : k.namespaceReady = true) (hpath : 0 ∉ path)
    (hentries : ∀ e ∈ k.namespaceRootEntries, TreeEntry e) :
    ∃ node, walkPathChars k component (cString path) = .ok node ∧
      (∀ reached, PathReaches k.namespaceRootEntries path reached → node = reached) ∧
      ((¬ ∃ reached, PathReaches k.namespaceRootEntries path reached) → node = .null) := by
  refine ⟨vfsWalkPath k path, walkPathChars_eq component hpath hentries,
    fun reached h => vfsWalkPath_reaches hready h, fun hnone => ?_⟩
  by_contra hnull
  exact hnone ⟨_, pathReaches_of_vfsWalkPath hready hnull⟩

/-- The walk to the banner, from a buffer full of other characters. -/
theorem vfsWalkPath_spec_sample : ∃ store, vfsNamespaceInitialize smallStore [] = .ok store ∧
    walkPathChars store (Vector.replicate 16 0xFF) (cString bannerPath) = .ok (.static .banner) := by
  obtain ⟨store, hinit, hready, hroot⟩ : ∃ store, vfsNamespaceInitialize smallStore [] = .ok store ∧
      store.namespaceReady = true ∧ store.namespaceRootEntries =
        [.mk [0x64, 0x65, 0x76] (.static .dev)
          (some [.mk [0x63, 0x6F, 0x6E, 0x73, 0x6F, 0x6C, 0x65] (.static .consoleOutput) none]),
        .mk [0x65, 0x74, 0x63] (.static .etc)
          (some [.mk [0x62, 0x61, 0x6E, 0x6E, 0x65, 0x72] (.static .banner) none]),
        .mk [0x62, 0x69, 0x6E] (.static .bin) (some [])] := ⟨_, rfl, rfl, rfl⟩
  have hentries : ∀ e ∈ store.namespaceRootEntries, TreeEntry e := by
    rw [hroot]
    simp only [List.mem_cons, List.not_mem_nil, or_false, forall_eq_or_imp, forall_eq]
    refine ⟨.directory (by decide) ?_, .directory (by decide) ?_, .directory (by decide) (by simp)⟩
    · rintro e he
      obtain rfl := List.mem_singleton.mp he
      exact .leaf (by decide)
    · rintro e he
      obtain rfl := List.mem_singleton.mp he
      exact .leaf (by decide)
  have hreach : PathReaches store.namespaceRootEntries bannerPath (.static .banner) := by
    rw [hroot]
    refine ⟨[[0x65, 0x74, 0x63], [0x62, 0x61, 0x6E, 0x6E, 0x65, 0x72]], by decide, ?_, ?_⟩
    · simp only [List.mem_cons, List.not_mem_nil, or_false, forall_eq_or_imp, forall_eq]
      exact ⟨⟨by decide, by decide, by decide⟩, ⟨by decide, by decide, by decide⟩⟩
    · exact .step ⟨[_], [_], rfl, rfl, by simp [VfsNamespaceEntry.name]⟩ rfl
        (.last ⟨[], [], rfl, rfl, by simp⟩)
  obtain ⟨node, hrun, hreached, -⟩ :=
    vfsWalkPath_spec store bannerPath (Vector.replicate 16 0xFF) hready (by decide) hentries
  exact ⟨store, hinit, by rw [hrun, hreached _ hreach]⟩

end Platinum
