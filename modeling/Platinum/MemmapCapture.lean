import Platinum.MemmapScan
import Platinum.SerialText

/-!
# Taking over from the firmware

`memmap_capture_and_exit` asks for the memory map and leaves the boot services. The firmware
lets the kernel go only with the key of its present map, so a kernel that got away has the map
of that moment.
-/
namespace Platinum
open ByteMemory WordArith

def efiSuccess : Word := 0#64

/-- What `get_memory_map` returns and stores through its arguments. -/
structure MemoryMapAnswer where
  status : Word
  memoryMap : Mem
  memoryMapSize : Word
  mapKey : Word
  descriptorSize : Word
  descriptorVersion : BitVec 32

/-- The members of `struct efi_boot_services` that are called, over the firmware's state. -/
structure EfiBootServices (F : Type) where
  getMemoryMap : F → Mem → Word → MemoryMapAnswer × F
  exitBootServices : F → Word → Word → Word × F

/-- The static variables of `memmap.c`. -/
structure MemmapStatics where
  buffer : Mem
  sizeUsed : Word
  descriptorSize : Word
  descriptorVersion : BitVec 32
  descriptorCount : Word
  conventionalRegionCount : Word
  conventionalPageCount : Word

/-- `memmap_parse` from `offset` on. -/
def memmapParseLoop (memoryMapSize descriptorSize : Word) : ℕ → Word → MemmapStatics → Run MemmapStatics
  | 0, _, _ => .error .diverge
  | fuel + 1, offset, m =>
    if offset + descriptorSize ≤ memoryMapSize then
      let descriptor := efiDescriptorAt m.buffer offset.toNat
      let m := if descriptor.type = efiConventionalMemory then
          { m with
            conventionalRegionCount := m.conventionalRegionCount + 1#64
            conventionalPageCount := m.conventionalPageCount + descriptor.numberOfPages }
        else m
      memmapParseLoop memoryMapSize descriptorSize fuel (offset + descriptorSize) m
    else .ok m

def memmapParseStatics (m : MemmapStatics) (memoryMapSize descriptorSize : Word)
    (descriptorVersion : BitVec 32) : Run MemmapStatics :=
  let m : MemmapStatics := ⟨m.buffer, memoryMapSize, descriptorSize, descriptorVersion, 0#64, 0#64, 0#64⟩
  if descriptorSize = 0#64 then .ok m
  else memmapParseLoop memoryMapSize descriptorSize linkFuel 0#64
    { m with descriptorCount := memoryMapSize / descriptorSize }

inductive CaptureEnd where
  | noMap
  | refused
  | exited
  deriving DecidableEq

section Source

variable {F : Type}

/-- The two calls that `memmap_capture_and_exit` makes once or twice. -/
def memmapCapture (services : EfiBootServices F) (imageHandle : Word) (m : MemmapStatics) (firmware : F) :
    Run (CaptureEnd × MemmapStatics × F) :=
  let (answer, firmware) := services.getMemoryMap firmware m.buffer 16384#64
  let m := { m with buffer := answer.memoryMap }
  if answer.status ≠ efiSuccess then .ok (.noMap, m, firmware)
  else do
    let m ← memmapParseStatics m answer.memoryMapSize answer.descriptorSize answer.descriptorVersion
    let (status, firmware) := services.exitBootServices firmware imageHandle answer.mapKey
    .ok (if status = efiSuccess then .exited else .refused, m, firmware)

/-- Whether the boot services are left. -/
def memmapCaptureAndExit (services : EfiBootServices F) (imageHandle : Word) (m : MemmapStatics) (firmware : F) :
    Run (Bool × MemmapStatics × F) := do
  let (reached, m, firmware) ← memmapCapture services imageHandle m firmware
  match reached with
  | .noMap => .ok (false, m, firmware)
  | .exited => .ok (true, m, firmware)
  | .refused =>
    let (reached, m, firmware) ← memmapCapture services imageHandle m firmware
    .ok (reached = .exited, m, firmware)

end Source

/-- What `memmap_print_summary` prints. -/
def memmapSummary (m : MemmapStatics) : List Byte :=
  asciiText "memmap ok\r\n" ++
    (asciiText "mem desc " ++ (decimalText m.descriptorCount.toNat ++ (asciiText "\r\n" ++
    (asciiText "mem conv regions " ++ (decimalText m.conventionalRegionCount.toNat ++ (asciiText "\r\n" ++
    (asciiText "mem conv pages " ++ (decimalText m.conventionalPageCount.toNat ++ (asciiText "\r\n" ++
    (asciiText "mem desc size " ++ (decimalText m.descriptorSize.toNat ++ (asciiText "\r\n" ++
    (asciiText "mem desc ver " ++ (decimalText m.descriptorVersion.toNat ++ (asciiText "\r\n" ++
    (asciiText "mem bytes " ++ (decimalText m.sizeUsed.toNat ++ asciiText "\r\n")))))))))))))))))

/-- What the accessors of `memmap.c` see. -/
def MemmapStatics.memmap (m : MemmapStatics) : Memmap :=
  ⟨efiDescriptorAt m.buffer, m.descriptorSize.toNat, m.descriptorCount.toNat⟩

/-- The firmware has at any time a map and a key that tells its maps apart. A refused
exit settles it: then the map stays until the exit. -/
structure EfiContract {F : Type} (services : EfiBootServices F) (map : F → List EfiMemoryDescriptor)
    (key : F → Word) (settled : F → Prop) : Prop where
  keys {firmware firmware' : F} : key firmware = key firmware' → map firmware = map firmware'
  fits {firmware firmware' : F} {buffer : Mem} {size : Word} {answer : MemoryMapAnswer} :
    services.getMemoryMap firmware buffer size = (answer, firmware') → answer.status = efiSuccess →
      answer.memoryMapSize ≤ size ∧ 40 ≤ answer.descriptorSize.toNat ∧
        answer.memoryMapSize.toNat = (map firmware').length * answer.descriptorSize.toNat
  answers {firmware firmware' : F} {buffer : Mem} {size : Word} {answer : MemoryMapAnswer} :
    services.getMemoryMap firmware buffer size = (answer, firmware') → answer.status = efiSuccess →
      answer.mapKey = key firmware' ∧
        ∀ i d, (map firmware')[i]? = some d → efiDescriptorAt answer.memoryMap (i * answer.descriptorSize.toNat) = d
  exits {firmware firmware' : F} {imageHandle mapKey : Word} :
    services.exitBootServices firmware imageHandle mapKey = (efiSuccess, firmware') → mapKey = key firmware'
  settles {firmware firmware' : F} {imageHandle mapKey status : Word} :
    services.exitBootServices firmware imageHandle mapKey = (status, firmware') → status ≠ efiSuccess →
      settled firmware'
  stays {firmware firmware' : F} {buffer : Mem} {size : Word} {answer : MemoryMapAnswer} :
    settled firmware → services.getMemoryMap firmware buffer size = (answer, firmware') → settled firmware'
  leaves {firmware : F} (imageHandle : Word) :
    settled firmware → (services.exitBootServices firmware imageHandle (key firmware)).1 = efiSuccess

/-- The conventional regions of a map. -/
def conventional (map : List EfiMemoryDescriptor) : List EfiMemoryDescriptor :=
  map.filter fun d => d.type = efiConventionalMemory

/-- Their pages. -/
def conventionalPages (map : List EfiMemoryDescriptor) : ℕ :=
  ((conventional map).map fun d => d.numberOfPages.toNat).sum

/-- The kernel has this map. -/
structure Captured (m : MemmapStatics) (map : List EfiMemoryDescriptor) : Prop where
  size : m.sizeUsed.toNat = map.length * m.descriptorSize.toNat
  count : m.descriptorCount.toNat = map.length
  regions : m.conventionalRegionCount.toNat = (conventional map).length
  pages : m.conventionalPageCount.toNat = conventionalPages map % 2 ^ 64
  parsed : m.memmap = memmapParse (efiDescriptorAt m.buffer) m.sizeUsed.toNat m.descriptorSize.toNat
  descriptors : ∀ i, memmapGetDescriptor m.memmap i = map[i]?

section Parse

variable {m m' : MemmapStatics} {map : List EfiMemoryDescriptor} {size stride offset : Word} {i fuel : ℕ}
  {d : EfiMemoryDescriptor}

lemma conventional_cons (d : EfiMemoryDescriptor) (map : List EfiMemoryDescriptor) :
    conventional (d :: map) =
      if d.type = efiConventionalMemory then d :: conventional map else conventional map := by
  unfold conventional
  rw [List.filter_cons]
  simp only [decide_eq_true_eq]

lemma conventionalPages_cons (d : EfiMemoryDescriptor) (map : List EfiMemoryDescriptor) :
    conventionalPages (d :: map) = if d.type = efiConventionalMemory then
      d.numberOfPages.toNat + conventionalPages map else conventionalPages map := by
  unfold conventionalPages
  rw [conventional_cons]
  split_ifs
  · rw [List.map_cons, List.sum_cons]
  · rfl

/-- The loop adds up the conventional regions that are left. -/
lemma memmapParseLoop_spec (left : List EfiMemoryDescriptor) (hstride : 0 < stride.toNat)
    (hsize : size.toNat = (i + left.length) * stride.toNat) (hbound : size.toNat + stride.toNat < 2 ^ 64)
    (hoffset : offset.toNat = i * stride.toNat) (hfuel : left.length < fuel)
    (hmap : ∀ j d, left[j]? = some d → efiDescriptorAt m.buffer ((i + j) * stride.toNat) = d) :
    memmapParseLoop size stride fuel offset m = .ok { m with
      conventionalRegionCount := m.conventionalRegionCount + BitVec.ofNat 64 (conventional left).length
      conventionalPageCount := m.conventionalPageCount + BitVec.ofNat 64 (conventionalPages left) } := by
  induction left generalizing i fuel offset m with
  | nil =>
    obtain ⟨fuel, rfl⟩ : ∃ n, fuel = n + 1 := ⟨fuel - 1, by simp at hfuel; omega⟩
    rw [List.length_nil, Nat.add_zero] at hsize
    have hstop : ¬ offset + stride ≤ size := by
      rw [BitVec.le_def, BitVec.toNat_add, Nat.mod_eq_of_lt (by omega)]
      omega
    rw [memmapParseLoop, if_neg hstop]
    simp [conventional, conventionalPages]
  | cons d left ih =>
    obtain ⟨fuel, rfl⟩ : ∃ n, fuel = n + 1 := ⟨fuel - 1, by simp at hfuel; omega⟩
    have hdescriptor : efiDescriptorAt m.buffer offset.toNat = d := by
      rw [hoffset]
      exact hmap 0 d rfl
    have hle : (i + 1) * stride.toNat ≤ size.toNat := by
      rw [hsize, List.length_cons]
      exact Nat.mul_le_mul_right _ (by omega)
    have hnext : (offset + stride).toNat = (i + 1) * stride.toNat := by
      rw [Nat.succ_mul] at hle
      rw [BitVec.toNat_add, hoffset, Nat.succ_mul, Nat.mod_eq_of_lt (by omega)]
    have hgo : offset + stride ≤ size := by
      rw [BitVec.le_def, hnext]
      exact hle
    have hrest : size.toNat = (i + 1 + left.length) * stride.toNat := by
      rw [hsize, List.length_cons]
      congr 1
      omega
    have hmap' : ∀ j e, left[j]? = some e →
        efiDescriptorAt m.buffer ((i + 1 + j) * stride.toNat) = e := by
      intro j e he
      have h := hmap (j + 1) e (by simpa using he)
      rwa [show i + (j + 1) = i + 1 + j by omega] at h
    rw [memmapParseLoop, if_pos hgo]
    dsimp only
    rw [hdescriptor]
    by_cases htype : d.type = efiConventionalMemory
    · have hcounted := ih (m := { m with
        conventionalRegionCount := m.conventionalRegionCount + 1#64
        conventionalPageCount := m.conventionalPageCount + d.numberOfPages }) hrest hnext
        (by simpa using hfuel) hmap'
      rw [if_pos htype, hcounted, conventional_cons, if_pos htype, List.length_cons,
        conventionalPages_cons, if_pos htype, BitVec.ofNat_add, BitVec.ofNat_add,
        BitVec.ofNat_toNat, BitVec.setWidth_eq, BitVec.add_assoc, BitVec.add_assoc,
        BitVec.add_comm 1#64]
    · rw [if_neg htype, ih hrest hnext (by simpa using hfuel) hmap', conventional_cons,
        if_neg htype, conventionalPages_cons, if_neg htype]

/-- Parsing a buffer that holds a map. -/
lemma memmapParseStatics_spec (hstride : 40 ≤ stride.toNat) (hle : size.toNat ≤ 16384)
    (hsize : size.toNat = map.length * stride.toNat)
    (hmap : ∀ i d, map[i]? = some d → efiDescriptorAt m.buffer (i * stride.toNat) = d) (version : BitVec 32) :
    ∃ m', memmapParseStatics m size stride version = .ok m' ∧ Captured m' map := by
  have hlength : map.length ≤ 16384 := by
    have := Nat.mul_le_mul_left map.length hstride
    omega
  have hne : stride ≠ 0#64 := by
    rintro rfl
    simp at hstride
  have hcount : (size / stride).toNat = map.length := by
    rw [BitVec.toNat_udiv, hsize, Nat.mul_div_cancel _ (by omega)]
  have hfew : (conventional map).length ≤ map.length := List.length_filter_le _ _
  have hbound : size.toNat + stride.toNat < 2 ^ 64 := by
    rcases Nat.eq_zero_or_pos map.length with h0 | h0
    · rw [hsize, h0, Nat.zero_mul, Nat.zero_add]
      exact stride.isLt
    · have := Nat.le_mul_of_pos_left stride.toNat h0
      omega
  unfold memmapParseStatics
  dsimp only
  rw [if_neg hne, memmapParseLoop_spec map (i := 0) (by omega) (by rw [hsize, Nat.zero_add]) hbound
    (by simp) (lt_of_le_of_lt hlength (by decide)) (by simpa using hmap)]
  refine ⟨_, rfl, hsize, hcount, ?_, ?_, ?_, fun i => ?_⟩
  all_goals dsimp only
  · rw [BitVec.zero_add, BitVec.toNat_ofNat]
    omega
  · rw [BitVec.zero_add, BitVec.toNat_ofNat]
  · unfold MemmapStatics.memmap memmapParse
    dsimp only
    rw [if_neg (by omega), BitVec.toNat_udiv]
  · unfold MemmapStatics.memmap memmapGetDescriptor
    dsimp only
    rw [if_neg (by omega), hcount]
    by_cases hi : map.length ≤ i
    · rw [if_pos hi, List.getElem?_eq_none hi]
    · rw [if_neg hi, List.getElem?_eq_getElem (by omega), hmap i _ (List.getElem?_eq_getElem (by omega))]

/-- The numbers of the summary. -/
lemma printedNumbers_memmapSummary (m : MemmapStatics) : printedNumbers (memmapSummary m) =
    [m.descriptorCount.toNat, m.conventionalRegionCount.toNat, m.conventionalPageCount.toNat,
      m.descriptorSize.toNat, m.descriptorVersion.toNat, m.sizeUsed.toNat] := by
  have hnewline : asciiText "\r\n" = 13#8 :: asciiText "\n" := by decide
  have hline (n : ℕ) (rest : List Byte) : printedNumbers (decimalText n ++ (asciiText "\r\n" ++ rest)) =
      n :: printedNumbers rest := by
    rw [hnewline, List.cons_append, printedNumbers_decimalText (by decide), ← List.cons_append, ← hnewline,
      printedNumbers_words (by decide)]
  have hend (n : ℕ) : printedNumbers (decimalText n ++ asciiText "\r\n") = [n] := by
    have h := hline n []
    rwa [List.append_nil] at h
  have hwords (text : String) (htext : ∀ b ∈ asciiText text, ¬ IsDecimalDigit b) (rest : List Byte) :
      printedNumbers (asciiText text ++ rest) = printedNumbers rest := printedNumbers_words htext rest
  unfold memmapSummary
  rw [hwords "memmap ok\r\n" (by simp [asciiText, IsDecimalDigit]),
    hwords "mem desc " (by simp [asciiText, IsDecimalDigit]), hline,
    hwords "mem conv regions " (by simp [asciiText, IsDecimalDigit]), hline,
    hwords "mem conv pages " (by simp [asciiText, IsDecimalDigit]), hline,
    hwords "mem desc size " (by simp [asciiText, IsDecimalDigit]), hline,
    hwords "mem desc ver " (by simp [asciiText, IsDecimalDigit]), hline,
    hwords "mem bytes " (by simp [asciiText, IsDecimalDigit]), hend]

end Parse

section Capture

variable {F : Type} {services : EfiBootServices F} {map : F → List EfiMemoryDescriptor} {key : F → Word}
  {settled : F → Prop}

/-- What an attempt ends with, and what a refused one leaves for the next. -/
lemma EfiContract.capture (h : EfiContract services map key settled) (imageHandle : Word)
    (m : MemmapStatics) (firmware : F) : ∃ reached m' firmware',
    memmapCapture services imageHandle m firmware = .ok (reached, m', firmware') ∧
    (reached = .exited → Captured m' (map firmware')) ∧ (reached = .refused → settled firmware') ∧
    (settled firmware → reached ≠ .refused) ∧
    ((services.getMemoryMap firmware m.buffer 16384#64).1.status = efiSuccess → reached ≠ .noMap) := by
  unfold memmapCapture
  rcases hget : services.getMemoryMap firmware m.buffer 16384#64 with ⟨answer, firmware₁⟩
  dsimp only
  by_cases hstatus : answer.status = efiSuccess
  · obtain ⟨hle, hstride, hsize⟩ := h.fits hget hstatus
    obtain ⟨hkey, hmap⟩ := h.answers hget hstatus
    obtain ⟨m₁, hparse, hcaptured⟩ :=
      memmapParseStatics_spec (m := { m with buffer := answer.memoryMap }) hstride hle hsize hmap answer.descriptorVersion
    rw [if_neg (not_not.mpr hstatus), hparse, ok_bind]
    have hexit : services.exitBootServices firmware₁ imageHandle answer.mapKey = (_, _) := rfl
    by_cases hleft : (services.exitBootServices firmware₁ imageHandle answer.mapKey).1 = efiSuccess
    · rw [hleft] at hexit
      rw [if_pos hleft]
      refine ⟨_, _, _, rfl, fun _ => ?_, nofun, nofun, nofun⟩
      rw [← h.keys (hkey.symm.trans (h.exits hexit))]
      exact hcaptured
    · rw [if_neg hleft]
      refine ⟨_, _, _, rfl, nofun, fun _ => h.settles hexit hleft, fun hsettled => ?_, nofun⟩
      have hok := h.leaves imageHandle (h.stays hsettled hget)
      rw [← hkey] at hok
      exact absurd hok hleft
  · rw [if_pos hstatus]
    exact ⟨_, _, _, rfl, nofun, nofun, nofun, fun hok => absurd hok hstatus⟩

/-- Two attempts are enough, if only the buffer is. -/
lemma EfiContract.captureAndExit (h : EfiContract services map key settled) (imageHandle : Word)
    (m : MemmapStatics) (firmware : F) : ∃ exited m' firmware',
    memmapCaptureAndExit services imageHandle m firmware = .ok (exited, m', firmware') ∧
    (exited = true → Captured m' (map firmware')) ∧
    ((∀ firmware buffer, (services.getMemoryMap firmware buffer 16384#64).1.status = efiSuccess) →
      exited = true) := by
  unfold memmapCaptureAndExit
  obtain ⟨reached, m₁, firmware₁, hfirst, hexited, hrefused, -, hanswered⟩ :=
    h.capture imageHandle m firmware
  rw [hfirst, ok_bind]
  cases reached with
  | noMap => exact ⟨_, _, _, rfl, nofun, fun hall => absurd rfl (hanswered (hall firmware m.buffer))⟩
  | exited => exact ⟨_, _, _, rfl, fun _ => hexited rfl, fun _ => rfl⟩
  | refused =>
    obtain ⟨reached₂, m₂, firmware₂, hsecond, hexited₂, -, hsettled, hanswered₂⟩ :=
      h.capture imageHandle m₁ firmware₁
    dsimp only
    rw [hsecond, ok_bind]
    refine ⟨_, _, _, rfl, fun he => hexited₂ (by simpa using he), fun hall => ?_⟩
    cases reached₂ with
    | noMap => exact absurd rfl (hanswered₂ (hall firmware₁ m₁.buffer))
    | exited => rfl
    | refused => exact absurd rfl (hsettled (hrefused rfl))

/-- A kernel that has left the firmware has the map that the firmware had then: its accessors
give the descriptors of that map, and the summary tells how many there are and how many pages the
conventional ones have. -/
theorem memmapCaptureAndExit_captures (h : EfiContract services map key settled) (imageHandle : Word)
    (m : MemmapStatics) (firmware : F) : ∃ exited m' firmware',
    memmapCaptureAndExit services imageHandle m firmware = .ok (exited, m', firmware') ∧
    (exited = true → Captured m' (map firmware') ∧ printedNumbers (memmapSummary m') =
      [(map firmware').length, (conventional (map firmware')).length, conventionalPages (map firmware') % 2 ^ 64,
        m'.descriptorSize.toNat, m'.descriptorVersion.toNat, m'.sizeUsed.toNat]) ∧
    ((∀ firmware buffer, (services.getMemoryMap firmware buffer 16384#64).1.status = efiSuccess) →
      exited = true) := by
  obtain ⟨exited, m', firmware', hrun, hcaptured, hall⟩ := h.captureAndExit imageHandle m firmware
  refine ⟨exited, m', firmware', hrun, fun he => ?_, hall⟩
  have hm := hcaptured he
  rw [printedNumbers_memmapSummary, hm.count, hm.regions, hm.pages]
  exact ⟨hm, rfl⟩

/-- A firmware whose map grows by a region as the kernel tries to leave for the first time. -/
def growingMap (grown : Bool) : List EfiMemoryDescriptor :=
  ⟨7#32, 0x02000000#64, 0x4000#64⟩ :: if grown then [⟨7#32, 0x00100000#64, 0x100#64⟩] else []

/-- Its descriptors, at a stride of 48 bytes. -/
def growingMemory : Mem :=
  store64 (store64 (store64 (store64 (store64 (store64 (fun _ => 0#8) 0 7#64) 8 0x02000000#64)
    24 0x4000#64) 48 7#64) 56 0x00100000#64) 72 0x100#64

def growingKey (grown : Bool) : Word := if grown then 1#64 else 0#64

def growingServices : EfiBootServices Bool where
  getMemoryMap grown _ size :=
    (⟨if size < 96#64 then 5#64 else efiSuccess, growingMemory, if grown then 96#64 else 48#64, growingKey grown,
      48#64, 1#32⟩, grown)
  exitBootServices grown _ mapKey := (if grown ∧ mapKey = 1#64 then efiSuccess else 2#64, true)

lemma growingServices_contract :
    EfiContract growingServices growingMap growingKey (· = true) := by
  constructor
  case keys =>
    rintro (_ | _) (_ | _) hkey
    all_goals first
      | rfl
      | exact absurd hkey (by decide)
  case fits =>
    rintro firmware firmware' buffer size answer hget hstatus
    cases hget
    dsimp only at hstatus ⊢
    split_ifs at hstatus with hsize
    · exact absurd hstatus (by decide)
    · rw [BitVec.not_lt] at hsize
      cases firmware
      · exact ⟨BitVec.le_trans (show 48#64 ≤ 96#64 by decide) hsize, by decide, by decide⟩
      · exact ⟨hsize, by decide, by decide⟩
  case answers =>
    rintro firmware firmware' buffer size answer hget -
    cases hget
    refine ⟨rfl, fun i d hd => ?_⟩
    have hi : i < (growingMap firmware).length := (List.getElem?_eq_some_iff.mp hd).1
    have hlength : (growingMap firmware).length ≤ 2 := by cases firmware <;> decide
    obtain rfl | rfl : i = 0 ∨ i = 1 := by omega
    · obtain rfl := Option.some.inj hd
      change efiDescriptorAt growingMemory 0 = _
      decide +kernel
    · cases firmware
      · cases hd
      · obtain rfl := Option.some.inj hd
        change efiDescriptorAt growingMemory 48 = _
        decide +kernel
  case exits =>
    rintro firmware firmware' imageHandle mapKey hexit
    obtain ⟨hstatus, rfl⟩ := Prod.mk.inj hexit
    split_ifs at hstatus with hkey
    · exact hkey.2
    · exact absurd hstatus (by decide)
  case settles =>
    rintro firmware firmware' imageHandle mapKey status hexit -
    exact (Prod.mk.inj hexit).2.symm
  case stays =>
    rintro firmware firmware' buffer size answer hsettled hget
    cases hget
    exact hsettled
  case leaves =>
    rintro firmware imageHandle rfl
    rfl

theorem memmapCaptureAndExit_captures_sample : ∃ m' firmware',
    memmapCaptureAndExit growingServices 0#64 ⟨fun _ => 0#8, 0, 0, 0, 0, 0, 0⟩ false = .ok (true, m', firmware') ∧
      Captured m' (growingMap firmware') := by
  obtain ⟨exited, m', firmware', hrun, hcaptured, hall⟩ :=
    memmapCaptureAndExit_captures growingServices_contract 0#64
      (⟨fun _ => 0#8, 0, 0, 0, 0, 0, 0⟩ : MemmapStatics) false
  obtain rfl := hall fun _ _ => rfl
  exact ⟨m', firmware', hrun, (hcaptured rfl).1⟩

end Capture

end Platinum
