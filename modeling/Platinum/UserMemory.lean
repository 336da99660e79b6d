import Platinum.PagingWalk

/-!
# User pointers

The kernel reaches user memory through the loaded address space. Each access is
recorded, so that a statement about the addresses the kernel touches covers
calls that stop as well. The checks of `core.c` guard these accesses.
-/
namespace Platinum
open ByteMemory WordArith SharedTrie

/-- A computation and the addresses it reached through user pointers, in order. -/
structure UserAccess (α : Type) where
  touched : List Word
  result : Run α

namespace UserAccess

variable {α β : Type}

def bind (x : UserAccess α) (f : α → UserAccess β) : UserAccess β :=
  match x.result with
  | .error e => ⟨x.touched, .error e⟩
  | .ok a => ⟨x.touched ++ (f a).touched, (f a).result⟩

instance : Monad UserAccess where
  pure a := ⟨[], .ok a⟩
  bind := bind

/-- A computation that follows no user pointer. -/
def lift (x : Run α) : UserAccess α := ⟨[], x⟩

@[simp] lemma pure_eq (a : α) : (pure a : UserAccess α) = ⟨[], .ok a⟩ := rfl

@[simp] lemma ok_bind (t : List Word) (a : α) (f : α → UserAccess β) :
    ((⟨t, .ok a⟩ : UserAccess α) >>= f) = ⟨t ++ (f a).touched, (f a).result⟩ := rfl

@[simp] lemma error_bind (t : List Word) (e : Stop) (f : α → UserAccess β) :
    ((⟨t, .error e⟩ : UserAccess α) >>= f) = ⟨t, .error e⟩ := rfl

@[simp] lemma lift_bind_ok (a : α) (f : α → UserAccess β) :
    ((lift (.ok a) : UserAccess α) >>= f) = f a := by
  change (⟨[] ++ (f a).touched, (f a).result⟩ : UserAccess β) = f a
  simp

end UserAccess

/-- The physical address that the loaded address space gives, if the page is there. -/
def translate (s : Phys) (address : Word) : Option ℕ :=
  (mmuWalk s.mem s.cr3 address).map fun t => t.frame.toNat + address.toNat % 4096

def userLoad (s : Phys) (address : Word) : UserAccess Byte :=
  ⟨[address], match translate s address with
    | none => .error .pageFault
    | some x => .ok (s.mem x)⟩

def userStore (s : Phys) (address : Word) (value : Byte) : UserAccess Phys :=
  ⟨[address], match translate s address with
    | none => .error .pageFault
    | some x => .ok { s with mem := store8 s.mem x value }⟩

/-- Reads `count` bytes from `buffer` on. -/
def userLoadBytes (s : Phys) (buffer : Word) : ℕ → UserAccess (List Byte)
  | 0 => pure []
  | count + 1 => do
    let value ← userLoad s buffer
    let rest ← userLoadBytes s (buffer + 1#64) count
    pure (value :: rest)

/-- Writes the bytes from `buffer` on. -/
def userStoreBytes (s : Phys) (buffer : Word) : List Byte → UserAccess Phys
  | [] => pure s
  | value :: rest => do
    let s ← userStore s buffer value
    userStoreBytes s (buffer + 1#64) rest

def syscallBufferValid (buffer count : Word) : Bool :=
  if count = 0#64 then true else decide (buffer ≠ 0#64)

def syscallUserRangeInLayout (layout : UserVirtualLayout) (start count : Word) : Bool :=
  if start < layout.trampolineBase ∨ layout.stackTop ≤ start then false
  else if count = 0#64 then true
  else
    let last := start + (count - 1#64)
    if last < start ∨ layout.stackTop ≤ last then false else true

def syscallUserBufferValid (s : Phys) (addressSpace : Word) (layout : UserVirtualLayout)
    (buffer count : Word) : Run Bool :=
  if ¬ syscallBufferValid buffer count then .ok false
  else if count = 0#64 then .ok true
  else if ¬ syscallUserRangeInLayout layout buffer count then .ok false
  else pagingUserRangeMapped s.mem addressSpace buffer count

/-- The loop of `syscall_copy_path`; `dst` holds the bytes copied so far. -/
def syscallCopyPathLoop (s : Phys) (src addressSpace : Word) (layout : UserVirtualLayout) :
    ℕ → List Byte → UserAccess (Option (List Byte))
  | 0, _ => pure none
  | n + 1, dst => do
    let address := src + BitVec.ofNat 64 dst.length
    if address < src ∨ ¬ syscallUserRangeInLayout layout address 1#64 then pure none
    else if ¬ (← UserAccess.lift (pagingUserRangeMapped s.mem addressSpace address 1#64)) then
      pure none
    else
      let byte ← userLoad s address
      if dst = [] ∧ byte ≠ 0x2F then pure none
      else
        let again ← userLoad s address
        if again = 0 then pure (some dst)
        else syscallCopyPathLoop s src addressSpace layout n (dst ++ [byte])

/-- The copied string up to its NUL, `none` on failure. -/
def syscallCopyPath (s : Phys) (dstSize : ℕ) (src addressSpace : Word) (layout : UserVirtualLayout) :
    UserAccess (Option (List Byte)) :=
  if dstSize = 0 ∨ src = 0#64 then pure none
  else syscallCopyPathLoop s src addressSpace layout (dstSize - 1) []

/-- User mode can reach the address. -/
def UserOpen (m : Mem) (addressSpace address : Word) : Prop :=
  ∃ t, mmuWalk m addressSpace address = some t ∧ t.user = true

/-- An address of the layout that user mode can reach. -/
structure UserReachable (m : Mem) (addressSpace : Word) (layout : UserVirtualLayout)
    (address : Word) : Prop where
  lower : layout.trampolineBase ≤ address
  upper : address < layout.stackTop
  user : UserOpen m addressSpace address

section Checks

variable {m : Mem} {s : Phys} {a v count src : Word} {layout : UserVirtualLayout}
  {At : Path → Word → Prop} {Usr : Path → Prop} {α : Type}

lemma userOpen_pageAddress (m : Mem) (a v : Word) : UserOpen m a (pageAddress v) ↔ UserOpen m a v := by
  have h₃ : pdptIndex (pageAddress v) = pdptIndex v := tableIndex_pageAddress (by omega)
  have h₂ : pdIndex (pageAddress v) = pdIndex v := tableIndex_pageAddress (by omega)
  unfold UserOpen mmuWalk mmuEntries
  rw [pml4Index_pageAddress, h₃, h₂, ptIndex_pageAddress]

/-- The lookup of `paging_user_range_mapped` sees what the hardware sees. -/
lemma Levels.user_page_iff (h : Levels m a At Usr) (v : Word) :
    (walkToPt m a v ≠ 0#64 ∧ Present (slot m (walkToPt m a v) (ptIndex v)) ∧
      UserBit (slot m (walkToPt m a v) (ptIndex v))) ↔ UserOpen m a v := by
  have he : userScheme.empty = 0#64 := rfl
  unfold UserOpen
  rw [h.mmuWalk_eq v, leafTranslation, leafEntry, leaf]
  rcases h.walkToPt_eq v with ⟨hd, hw⟩ | ⟨t, ht, -, hd, hw⟩ <;> rw [hd, hw]
  · simp [he]
  · simp only [ne_eq, ht.ne_zero, not_false_eq_true, true_and]
    constructor
    · rintro ⟨hp, hu⟩
      exact ⟨_, if_pos hp, decide_eq_true hu⟩
    · rintro ⟨t', h', hu⟩
      split_ifs at h' with hp
      obtain rfl := Option.some.inj h'
      exact ⟨hp, of_decide_eq_true hu⟩

/-- The page loop ends at the last page and has then seen every page. -/
lemma userRangeLoop_spec (h : Levels m a At Usr) : ∀ (n : ℕ) (page last : Word) (fuel : ℕ),
    page.toNat + 4096 * n = last.toNat → n < fuel →
    ∃ b, userRangeLoop m a last fuel page = .ok b ∧
      (b = true ↔ ∀ i ≤ n, UserOpen m a (page + BitVec.ofNat 64 (4096 * i)))
  | n, page, last, fuel + 1, hn, hf => by
    unfold userRangeLoop
    have hiff := h.user_page_iff page
    by_cases ho : UserOpen m a page
    · obtain ⟨hw, hp, hu⟩ := hiff.mpr ho
      simp only [hw, hp, hu, if_false, not_true_eq_false, or_self]
      cases n with
      | zero =>
        have hpl : page = last := BitVec.eq_of_toNat_eq (by omega)
        refine ⟨true, by rw [if_pos hpl], ?_⟩
        simpa using ho
      | succ n =>
        have hlast := last.isLt
        have hpl : page ≠ last := fun he => by
          rw [he] at hn
          omega
        have hnext : (page + 4096#64).toNat = page.toNat + 4096 := by
          rw [BitVec.toNat_add, show (4096#64 : Word).toNat = 4096 from rfl]
          omega
        have hstep (i : ℕ) : page + 4096#64 + BitVec.ofNat 64 (4096 * i) =
            page + BitVec.ofNat 64 (4096 * (i + 1)) := by
          rw [BitVec.add_assoc, ← BitVec.ofNat_add, Nat.mul_succ, Nat.add_comm]
        obtain ⟨b, hrun, hb⟩ := userRangeLoop_spec h n (page + 4096#64) last fuel (by omega)
          (by omega)
        refine ⟨b, by rw [if_neg hpl, hrun], hb.trans ⟨fun hall i hi => ?_, fun hall i hi => ?_⟩⟩
        · cases i with
          | zero => simpa using ho
          | succ i => exact hstep i ▸ hall i (by omega)
        · rw [hstep]
          exact hall (i + 1) (by omega)
    · refine ⟨false, ?_, ?_⟩
      · by_cases hw : walkToPt m a page = 0#64
        · simp [hw]
        · have hno : ¬ (Present (slot m (walkToPt m a page) (ptIndex page)) ∧
              UserBit (slot m (walkToPt m a page) (ptIndex page))) := fun hc => ho (hiff.mp ⟨hw, hc⟩)
          simp only [hw, if_false]
          rw [if_pos (by tauto)]
      · simp only [Bool.false_eq_true, false_iff]
        exact fun hall => ho (by simpa using hall 0 (by omega))

/-- The range check accepts exactly the ranges whose bytes user mode can reach. -/
theorem pagingUserRangeMapped_spec (v count : Word) (h : Levels m a At Usr) (ha : a ≠ 0#64) (hc : count ≠ 0#64) :
    ∃ b, pagingUserRangeMapped m a v count = .ok b ∧
      (b = true ↔ v.toNat + count.toNat ≤ 2 ^ 64 ∧
        ∀ i < count.toNat, UserOpen m a (v + BitVec.ofNat 64 i)) := by
  have hpos : 0 < count.toNat := Nat.pos_of_ne_zero fun h0 => hc (BitVec.eq_of_toNat_eq h0)
  have hv := v.isLt
  have hcl := count.isLt
  have hsub : (count - 1#64).toNat = count.toNat - 1 := by bv_omega
  have hlast : (v + (count - 1#64)).toNat = (v.toNat + (count.toNat - 1)) % 2 ^ 64 := by
    rw [BitVec.toNat_add, hsub]
  have hwrap : v + (count - 1#64) < v ↔ 2 ^ 64 < v.toNat + count.toNat := by
    rw [BitVec.lt_def, hlast]
    omega
  unfold pagingUserRangeMapped
  rw [if_neg ha, if_neg hc]
  dsimp only
  by_cases hw : v + (count - 1#64) < v
  · refine ⟨false, if_pos hw, ?_⟩
    have hw := hwrap.mp hw
    simp only [Bool.false_eq_true, false_iff, not_and]
    omega
  rw [if_neg hw]
  have hw := mt hwrap.mpr hw
  have hle : (v + (count - 1#64)).toNat = v.toNat + (count.toNat - 1) := by omega
  have hp₁ : (pageAddress v).toNat = v.toNat / 4096 * 4096 := toNat_alignDown v
  have hp₂ : (pageAddress (v + (count - 1#64))).toNat = (v.toNat + (count.toNat - 1)) / 4096 * 4096 := by
    rw [pageAddress, toNat_alignDown, hle]
  obtain ⟨b, hrun, hb⟩ := userRangeLoop_spec h
    ((v.toNat + (count.toNat - 1)) / 4096 - v.toNat / 4096) (pageAddress v)
    (pageAddress (v + (count - 1#64))) linkFuel (by omega)
    (by unfold linkFuel; omega)
  refine ⟨b, hrun, hb.trans ⟨fun hall => ⟨by omega, fun i hi => ?_⟩, fun hall i hi => ?_⟩⟩
  · -- the page of byte `i`
    have hi' := hall ((v.toNat + i) / 4096 - v.toNat / 4096) (by omega)
    rw [← userOpen_pageAddress]
    convert hi' using 1
    apply BitVec.eq_of_toNat_eq
    rw [pageAddress, toNat_alignDown, BitVec.toNat_add, BitVec.toNat_add, BitVec.toNat_ofNat,
      BitVec.toNat_ofNat, hp₁]
    omega
  · -- the first byte of the range on page `i`
    have hi' := hall.2 (4096 * i - v.toNat % 4096) (by omega)
    rw [← userOpen_pageAddress] at hi'
    convert hi' using 1
    apply BitVec.eq_of_toNat_eq
    rw [pageAddress, pageAddress, toNat_alignDown, BitVec.toNat_add, BitVec.toNat_add, toNat_alignDown,
      BitVec.toNat_ofNat, BitVec.toNat_ofNat]
    omega

lemma syscallUserRangeInLayout_iff (layout : UserVirtualLayout) (v : Word) (hc : count ≠ 0#64) :
    syscallUserRangeInLayout layout v count = true ↔ layout.trampolineBase.toNat ≤ v.toNat ∧
      v.toNat + count.toNat ≤ layout.stackTop.toNat := by
  have hpos : 0 < count.toNat := Nat.pos_of_ne_zero fun h0 => hc (BitVec.eq_of_toNat_eq h0)
  have hv := v.isLt
  have hst := layout.stackTop.isLt
  have hsub : (count - 1#64).toNat = count.toNat - 1 := by bv_omega
  have hlast : (v + (count - 1#64)).toNat = (v.toNat + (count.toNat - 1)) % 2 ^ 64 := by
    rw [BitVec.toNat_add, hsub]
  unfold syscallUserRangeInLayout
  simp only [hc, if_false, BitVec.lt_def, BitVec.le_def, hlast]
  split_ifs with h₁ h₂
  · simp only [false_iff, not_and]
    omega
  · simp only [false_iff, not_and]
    omega
  · simp only [true_iff]
    omega

/-- A buffer is accepted exactly when it is empty or all of it is reachable. -/
theorem syscallUserBufferValid_spec (buffer count : Word) (h : Levels s.mem a At Usr) (ha : a ≠ 0#64)
    (hbase : layout.trampolineBase ≠ 0#64) :
    ∃ b, syscallUserBufferValid s a layout buffer count = .ok b ∧
      (b = true ↔ count = 0#64 ∨ (buffer.toNat + count.toNat ≤ 2 ^ 64 ∧
        ∀ i < count.toNat, UserReachable s.mem a layout (buffer + BitVec.ofNat 64 i))) := by
  unfold syscallUserBufferValid syscallBufferValid
  by_cases hc : count = 0#64
  · exact ⟨true, by simp [hc], by simp [hc]⟩
  have hpos : 0 < count.toNat := Nat.pos_of_ne_zero fun h0 => hc (BitVec.eq_of_toNat_eq h0)
  have hbpos : 0 < layout.trampolineBase.toNat :=
    Nat.pos_of_ne_zero fun h0 => hbase (BitVec.eq_of_toNat_eq h0)
  have hst := layout.stackTop.isLt
  have hadd {i : ℕ} (hi : i < count.toNat) (hw : buffer.toNat + count.toNat ≤ 2 ^ 64) :
      (buffer + BitVec.ofNat 64 i).toNat = buffer.toNat + i := by
    rw [BitVec.toNat_add, BitVec.toNat_ofNat]
    omega
  have hrange := syscallUserRangeInLayout_iff layout buffer hc
  simp only [hc, if_false, false_or]
  by_cases hb0 : buffer = 0#64
  · refine ⟨false, by simp [hb0], ?_⟩
    simp only [Bool.false_eq_true, false_iff, not_and]
    intro _ hall
    have h0 := (hall 0 hpos).lower
    rw [hb0, BitVec.le_def] at h0
    simp at h0
    omega
  simp only [hb0, ne_eq, not_false_eq_true, decide_true, not_true_eq_false, if_false]
  by_cases hr : syscallUserRangeInLayout layout buffer count = true
  · obtain ⟨hlo, hhi⟩ := hrange.mp hr
    obtain ⟨b, hrun, hb⟩ := pagingUserRangeMapped_spec buffer count h ha hc
    refine ⟨b, by simp [hr, hrun], hb.trans (and_congr_right fun hw => ?_)⟩
    refine forall_congr' fun i => forall_congr' fun hi => ⟨fun hu => ⟨?_, ?_, hu⟩, (·.user)⟩
    · rw [BitVec.le_def, hadd hi hw]
      omega
    · rw [BitVec.lt_def, hadd hi hw]
      omega
  · refine ⟨false, by simp [hr], ?_⟩
    simp only [Bool.false_eq_true, false_iff, not_and]
    intro hw hall
    have h₁ := (hall 0 hpos).lower
    have h₂ := (hall (count.toNat - 1) (by omega)).upper
    rw [BitVec.le_def, hadd hpos hw] at h₁
    rw [BitVec.lt_def, hadd (by omega) hw] at h₂
    exact hr (hrange.mpr ⟨by omega, by omega⟩)

/-- The byte that user mode reads at an address. -/
def userByte (m : Mem) (addressSpace address : Word) : Option Byte :=
  (mmuWalk m addressSpace address).map fun t => m (t.frame.toNat + address.toNat % 4096)

/-- Byte `i` of the string at `src`, if the whole way there is no wraparound and
user mode can reach it. -/
def PathByte (m : Mem) (addressSpace : Word) (layout : UserVirtualLayout) (src : Word) (i : ℕ)
    (byte : Byte) : Prop :=
  src.toNat + i < 2 ^ 64 ∧ UserReachable m addressSpace layout (src + BitVec.ofNat 64 i) ∧
    userByte m addressSpace (src + BitVec.ofNat 64 i) = some byte

/-- The reachable memory at `src` holds the path `path` and its NUL. -/
structure PathAt (m : Mem) (addressSpace : Word) (layout : UserVirtualLayout) (src : Word)
    (path : List Byte) : Prop where
  bytes : ∀ i (h : i < path.length), PathByte m addressSpace layout src i path[i]
  nul : PathByte m addressSpace layout src path.length 0
  first : (0 : Byte) ∉ path
  slash : path.head? = some 0x2F

/-- A part of a path that was copied. -/
structure PathPart (m : Mem) (addressSpace : Word) (layout : UserVirtualLayout) (src : Word)
    (dst : List Byte) : Prop where
  bytes : ∀ i (h : i < dst.length), PathByte m addressSpace layout src i dst[i]
  first : (0 : Byte) ∉ dst
  slash : dst ≠ [] → dst.head? = some 0x2F

lemma PathByte.unique {i : ℕ} {b c : Byte} (hb : PathByte m a layout src i b)
    (hc : PathByte m a layout src i c) : b = c :=
  Option.some.inj (hb.2.2.symm.trans hc.2.2)

lemma PathPart.nil : PathPart m a layout src [] := ⟨by simp, by simp, by simp⟩

lemma PathPart.snoc {dst : List Byte} {byte : Byte} (hd : PathPart m a layout src dst)
    (hb : PathByte m a layout src dst.length byte) (hz : byte ≠ 0) (hs : dst = [] → byte = 0x2F) :
    PathPart m a layout src (dst ++ [byte]) where
  bytes i hi := by
    rw [List.getElem_append]
    split_ifs with hid
    · exact hd.bytes i hid
    · have hi' : i = dst.length := by
        rw [List.length_append, List.length_singleton] at hi
        omega
      simpa [hi'] using hb
  first := by simpa using ⟨hd.first, Ne.symm hz⟩
  slash _ := by
    cases dst with
    | nil => simpa using hs
    | cons c dst => simpa using hd.slash (by simp)

/-- A part is the beginning of the path. -/
lemma PathAt.prefix_of {path dst : List Byte} (h : PathAt m a layout src path)
    (hd : PathPart m a layout src dst) : dst <+: path := by
  have hle : dst.length ≤ path.length := by
    by_contra hlt
    have hlt : path.length < dst.length := by omega
    have he := h.nul.unique (hd.bytes path.length hlt)
    exact hd.first (he ▸ List.getElem_mem hlt)
  rw [List.prefix_iff_eq_take]
  refine List.ext_getElem (by simp [hle]) fun i hi _ => ?_
  rw [List.getElem_take]
  exact (hd.bytes i hi).unique (h.bytes i (by omega))

/-- The path or its NUL goes on where the part ends. -/
lemma PathAt.next {path dst : List Byte} (h : PathAt m a layout src path)
    (hd : PathPart m a layout src dst) : ∃ b, PathByte m a layout src dst.length b := by
  rcases Nat.lt_or_eq_of_le (h.prefix_of hd).length_le with hlt | he
  · exact ⟨_, h.bytes dst.length hlt⟩
  · exact ⟨0, he ▸ h.nul⟩

/-- At a NUL the part is the path. -/
lemma PathPart.at_nul {path dst : List Byte} (hd : PathPart m a layout src dst)
    (hnul : PathByte m a layout src dst.length 0) (hne : dst ≠ []) :
    PathAt m a layout src path ↔ path = dst := by
  constructor
  · intro hp
    have hpre := hp.prefix_of hd
    rcases Nat.lt_or_eq_of_le hpre.length_le with hlt | he
    · exact absurd (hnul.unique (hp.bytes dst.length hlt) ▸ List.getElem_mem hlt) hp.first
    · exact (hpre.eq_of_length he).symm
  · rintro rfl
    exact ⟨hd.bytes, hnul, hd.first, hd.slash hne⟩

/-- The checks of a byte pass exactly when it can be copied. -/
lemma pathByte_checked (src : Word) (layout : UserVirtualLayout) (h : Levels s.mem a At Usr) (ha : a ≠ 0#64)
    {i : ℕ} (hi : i < 2 ^ 64) :
    ∃ b, pagingUserRangeMapped s.mem a (src + BitVec.ofNat 64 i) 1#64 = .ok b ∧
      ((∃ byte, PathByte s.mem a layout src i byte) ↔ ¬ (src + BitVec.ofNat 64 i < src ∨
        ¬ syscallUserRangeInLayout layout (src + BitVec.ofNat 64 i) 1#64 = true) ∧ b = true) := by
  have hone : (1#64 : Word).toNat = 1 := rfl
  have hsrc := src.isLt
  have hst := layout.stackTop.isLt
  generalize hx : src + BitVec.ofNat 64 i = x
  have hxn : x.toNat = (src.toNat + i) % 2 ^ 64 := by
    rw [← hx, BitVec.toNat_add, BitVec.toNat_ofNat]
    omega
  obtain ⟨b, hrun, hb⟩ := pagingUserRangeMapped_spec x 1#64 h ha (by decide)
  have hb' : b = true ↔ UserOpen s.mem a x := by
    rw [hb, hone]
    refine ⟨fun hall => by simpa using hall.2 0 (by omega), fun hu => ⟨by omega, fun j hj => ?_⟩⟩
    obtain rfl : j = 0 := by omega
    simpa using hu
  refine ⟨b, hrun, ?_⟩
  rw [hb', not_or, not_not, BitVec.lt_def, syscallUserRangeInLayout_iff _ _ (by decide), hone]
  constructor
  · rintro ⟨byte, hlt, hr, -⟩
    rw [hx] at hr
    have hlo := hr.lower
    have hhi := hr.upper
    rw [BitVec.le_def] at hlo
    rw [BitVec.lt_def] at hhi
    exact ⟨⟨by omega, hlo, by omega⟩, hr.user⟩
  · rintro ⟨⟨hw, hlo, hhi⟩, hu⟩
    have hreach : UserReachable s.mem a layout x := ⟨hlo, by rw [BitVec.lt_def]; omega, hu⟩
    obtain ⟨t, ht, -⟩ := hu
    exact ⟨_, by omega, hx ▸ hreach, by rw [userByte, hx, ht, Option.map_some]⟩

lemma PathByte.load {i : ℕ} {byte : Byte} (hb : PathByte s.mem a layout src i byte) (hcr : s.cr3 = a) :
    userLoad s (src + BitVec.ofNat 64 i) = ⟨[src + BitVec.ofNat 64 i], .ok byte⟩ := by
  obtain ⟨-, hr, hbyte⟩ := hb
  obtain ⟨t, ht, -⟩ := hr.user
  generalize src + BitVec.ofNat 64 i = x at ht hbyte ⊢
  rw [userByte, ht, Option.map_some] at hbyte
  simp [userLoad, translate, hcr, ht, Option.some.inj hbyte]

/-- The loop goes on from any part of a path. -/
lemma syscallCopyPathLoop_spec (h : Levels s.mem a At Usr) (ha : a ≠ 0#64) (hcr : s.cr3 = a) :
    ∀ (n : ℕ) (dst : List Byte), PathPart s.mem a layout src dst → dst.length + n < 2 ^ 64 →
    ∃ r, (syscallCopyPathLoop s src a layout n dst).result = .ok r ∧
      (∀ x ∈ (syscallCopyPathLoop s src a layout n dst).touched, UserReachable s.mem a layout x) ∧
      ∀ path, r = some path ↔ PathAt s.mem a layout src path ∧ path.length < dst.length + n
  | 0, dst, hd, _ => by
    refine ⟨none, rfl, by simp [syscallCopyPathLoop], fun path => ?_⟩
    simp only [reduceCtorEq, false_iff, not_and, not_lt]
    exact fun hp => (hp.prefix_of hd).length_le
  | n + 1, dst, hd, hlen => by
    obtain ⟨b, hmapped, hchecked⟩ := pathByte_checked src layout h ha
      (show dst.length < 2 ^ 64 by omega)
    unfold syscallCopyPathLoop
    dsimp only
    by_cases hbyte : ∃ byte, PathByte s.mem a layout src dst.length byte
    swap
    · -- a check fails, and there is no path of the right form
      have hnone (path : List Byte) : none = some path ↔
          PathAt s.mem a layout src path ∧ path.length < dst.length + (n + 1) :=
        iff_of_false (by simp) fun hp => hbyte (hp.1.next hd)
      split_ifs with hrange
      · exact ⟨none, rfl, by simp, hnone⟩
      · have hb : ¬ b = true := fun hb => hbyte (hchecked.mpr ⟨hrange, hb⟩)
        rw [hmapped, UserAccess.lift_bind_ok, if_pos hb]
        exact ⟨none, rfl, by simp, hnone⟩
    obtain ⟨hrange, hb⟩ := hchecked.mp hbyte
    obtain ⟨byte, hpb⟩ := hbyte
    rw [if_neg hrange, hmapped, UserAccess.lift_bind_ok, if_neg (not_not_intro hb), hpb.load hcr,
      UserAccess.ok_bind]
    have hreach : UserReachable s.mem a layout (src + BitVec.ofNat 64 dst.length) := hpb.2.1
    by_cases hslash : dst = [] ∧ byte ≠ 0x2F
    · rw [if_pos hslash]
      refine ⟨none, rfl, by simpa using hreach, fun path => ?_⟩
      simp only [reduceCtorEq, false_iff]
      rintro ⟨hp, -⟩
      obtain ⟨rfl, hne⟩ := hslash
      cases path with
      | nil => cases hp.slash
      | cons c path =>
        exact hne ((hpb.unique (hp.bytes 0 (by simp))).trans (Option.some.inj hp.slash))
    rw [if_neg hslash, UserAccess.ok_bind]
    by_cases hbz : byte = 0
    · subst hbz
      rw [if_pos rfl]
      have hne : dst ≠ [] := fun h => hslash ⟨h, by decide⟩
      refine ⟨some dst, rfl, by simpa using hreach, fun path => ?_⟩
      rw [hd.at_nul hpb hne, Option.some.injEq]
      exact ⟨fun he => ⟨he.symm, by rw [← he]; omega⟩, fun hp => hp.1.symm⟩
    · rw [if_neg hbz]
      obtain ⟨r, hres, htouch, hr⟩ := syscallCopyPathLoop_spec h ha hcr n (dst ++ [byte])
        (hd.snoc hpb hbz fun h0 => not_not.mp fun hne => hslash ⟨h0, hne⟩)
        (by rw [List.length_append, List.length_singleton]; omega)
      refine ⟨r, hres, ?_, fun path => ?_⟩
      · intro y hy
        simp only [List.cons_append, List.nil_append, List.mem_cons] at hy
        rcases hy with rfl | rfl | hy
        · exact hreach
        · exact hreach
        · exact htouch y hy
      · rw [hr path, List.length_append, List.length_singleton, Nat.add_assoc, Nat.add_comm 1 n]

/-- A path is copied exactly when it is there, and nothing else is touched. -/
theorem syscallCopyPath_spec (dstSize : ℕ) (src : Word) (h : Levels s.mem a At Usr) (ha : a ≠ 0#64)
    (hcr : s.cr3 = a) (hbase : layout.trampolineBase ≠ 0#64) (hsize : dstSize < 2 ^ 64) :
    ∃ r, (syscallCopyPath s dstSize src a layout).result = .ok r ∧
      (∀ x ∈ (syscallCopyPath s dstSize src a layout).touched, UserReachable s.mem a layout x) ∧
      ∀ path, r = some path ↔ PathAt s.mem a layout src path ∧ path.length + 1 < dstSize := by
  unfold syscallCopyPath
  split_ifs with hz
  · refine ⟨none, rfl, by simp, fun path => ?_⟩
    simp only [reduceCtorEq, false_iff, not_and, not_lt]
    intro hp
    rcases hz with rfl | rfl
    · omega
    · -- address 0 lies below every layout
      exfalso
      have hpath : 0 < path.length := by
        cases path with
        | nil => cases hp.slash
        | cons c path => simp
      have hlo := (hp.bytes 0 hpath).2.1.lower
      rw [BitVec.le_def] at hlo
      exact hbase (BitVec.eq_of_toNat_eq (by simpa using hlo))
  · push Not at hz
    obtain ⟨r, hres, htouch, hr⟩ := syscallCopyPathLoop_spec h ha hcr
      (dstSize - 1) [] PathPart.nil (by simp; omega)
    refine ⟨r, hres, htouch, fun path => (hr path).trans (and_congr_right fun _ => ?_)⟩
    simp only [List.length_nil]
    omega

end Checks

end Platinum
