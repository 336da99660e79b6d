import Platinum.EntryStubs

/-!
# Segments and gates

`gdt.c` and `idt.c` build the tables by which the processor finds its segments,
the stack for interrupts of user mode and the handler of each vector. Whatever the
addresses are, the processor reads back what was meant.
-/
namespace Platinum
open ByteMemory Processor

abbrev Gdt := Fin 7 → Word

/-- `struct idt_entry`. -/
structure IdtEntry where
  offsetLow : BitVec 16
  selector : BitVec 16
  ist : Byte
  typeAttributes : Byte
  offsetMid : BitVec 16
  offsetHigh : BitVec 32
  reserved : BitVec 32

/-- Indexed by the vector, a `uint8_t`. -/
abbrev Idt := Byte → IdtEntry

/-- The addresses of the stubs. -/
structure Stubs where
  archIsrInvalidOpcode : Word
  archIsrGeneralProtection : Word
  archIsrPageFault : Word
  archIrq0Entry : Word
  archSyscallEntry : Word

def writeLe16 (buffer : Mem) (a : ℕ) (value : BitVec 16) : Mem :=
  store8 (store8 buffer a ((value &&& 0xFF#16).setWidth 8)) (a + 1) (((value >>> 8) &&& 0xFF#16).setWidth 8)

def writeLe64 (buffer : Mem) (a : ℕ) (value : Word) : Mem :=
  (List.range 8).foldl (fun m i => store8 m (a + i) (((value >>> (8 * i)) &&& 0xFF#64).setWidth 8)) buffer

def gdtMakeCodeDataDescriptor (access flags : BitVec 32) : Word :=
  0x0000FFFF#64 ||| ((access &&& 0xFF#32).setWidth 64 <<< 40) ||| ((flags &&& 0x0F#32).setWidth 64 <<< 52) |||
    0x000F000000000000#64

def gdtSetTssDescriptor (gdt : Gdt) (base : Word) (limit : BitVec 32) : Gdt :=
  let low := (limit &&& 0xFFFF#32).setWidth 64 ||| ((base &&& 0xFFFFFF#64) <<< 16) ||| (0x89#64 <<< 40) |||
    (((limit >>> 16) &&& 0x0F#32).setWidth 64 <<< 48) ||| (((base >>> 24) &&& 0xFF#64) <<< 56)
  let high := (base >>> 32) &&& 0xFFFFFFFF#64
  Function.update (Function.update gdt 5 low) 6 high

/-- The table, and the task state segment with its I/O map base. -/
def gdtInitialize (tssBase : Word) : Gdt × Mem :=
  let gdt : Gdt := fun _ => 0#64
  let tss := writeLe16 (fun _ => 0#8) 102 104#16
  let gdt := Function.update gdt 1 (gdtMakeCodeDataDescriptor 0x9A#32 0x0A#32)
  let gdt := Function.update gdt 2 (gdtMakeCodeDataDescriptor 0x92#32 0x08#32)
  let gdt := Function.update gdt 3 (gdtMakeCodeDataDescriptor 0xF2#32 0x08#32)
  let gdt := Function.update gdt 4 (gdtMakeCodeDataDescriptor 0xFA#32 0x0A#32)
  (gdtSetTssDescriptor gdt tssBase 103#32, tss)

def gdtSetTssRsp0 (tss : Mem) (rsp0 : Word) : Mem := writeLe64 tss 4 rsp0

def idtSetGateWithType (idt : Idt) (vector : Byte) (handler : Word) (typeAttributes : Byte) : Idt :=
  Function.update idt vector
    { offsetLow := (handler &&& 0xFFFF#64).setWidth 16
      selector := 0x08#16
      ist := 0#8
      typeAttributes := typeAttributes
      offsetMid := ((handler >>> 16) &&& 0xFFFF#64).setWidth 16
      offsetHigh := ((handler >>> 32) &&& 0xFFFFFFFF#64).setWidth 32
      reserved := 0#32 }

def idtSetGate (idt : Idt) (vector : Byte) (handler : Word) : Idt :=
  idtSetGateWithType idt vector handler 0x8E#8

def idtInitialize (stubs : Stubs) : Idt :=
  let idt : Idt := fun _ => ⟨0, 0, 0, 0, 0, 0, 0⟩
  let idt := idtSetGate idt 6#8 stubs.archIsrInvalidOpcode
  let idt := idtSetGate idt 13#8 stubs.archIsrGeneralProtection
  idtSetGate idt 14#8 stubs.archIsrPageFault

def idtSetIrq0Gate (idt : Idt) (stubs : Stubs) : Idt := idtSetGate idt 32#8 stubs.archIrq0Entry

def idtSetSyscallGate (idt : Idt) (stubs : Stubs) : Idt :=
  idtSetGateWithType idt 128#8 stubs.archSyscallEntry 0xEE#8

/-- The table as `kernel_main` leaves it. -/
def kernelIdt (stubs : Stubs) : Idt := idtSetSyscallGate (idtSetIrq0Gate (idtInitialize stubs) stubs) stubs

/-- The two words of an entry in memory. -/
def IdtEntry.words (e : IdtEntry) : Word × Word :=
  (e.offsetMid ++ e.typeAttributes ++ e.ist ++ e.selector ++ e.offsetLow, e.reserved ++ e.offsetHigh)

/-- A gate descriptor. -/
@[ext] structure Gate where
  offset : Word
  selector : BitVec 16
  kind : BitVec 4
  privilege : BitVec 2
  present : Bool

def Gate.ofWords (w : Word × Word) : Gate where
  offset := w.2.extractLsb' 0 32 ++ w.1.extractLsb' 48 16 ++ w.1.extractLsb' 0 16
  selector := w.1.extractLsb' 16 16
  kind := w.1.extractLsb' 40 4
  privilege := w.1.extractLsb' 45 2
  present := w.1.getLsbD 47

/-- A descriptor of a code or data segment. -/
structure Segment where
  kind : BitVec 4
  codeOrData : Bool
  privilege : BitVec 2
  present : Bool
  long : Bool
  deriving DecidableEq

def Segment.ofWord (w : Word) : Segment :=
  ⟨w.extractLsb' 40 4, w.getLsbD 44, w.extractLsb' 45 2, w.getLsbD 47, w.getLsbD 53⟩

/-- The descriptor that a selector names. -/
def Gdt.segment (gdt : Gdt) (selector : Word) : Option Segment :=
  if h : (selector.toNat % 2 ^ 16) / 8 < 7 then
    if (selector.toNat % 2 ^ 16) / 8 = 0 then none
    else some (Segment.ofWord (gdt ⟨(selector.toNat % 2 ^ 16) / 8, h⟩))
  else none

/-- The base and the limit of the task state segment at entry 5. -/
def Gdt.taskState (gdt : Gdt) : Word × ℕ :=
  ((gdt 6).extractLsb' 0 32 ++ (gdt 5).extractLsb' 56 8 ++ (gdt 5).extractLsb' 16 24,
    ((gdt 5).extractLsb' 48 4 ++ (gdt 5).extractLsb' 0 16).toNat)

/-- A present segment of executable 64-bit code. -/
def Segment.IsCode (s : Segment) : Prop :=
  s.present = true ∧ s.codeOrData = true ∧ s.kind.getLsbD 3 = true ∧ s.long = true

/-- A present segment of writable data. -/
def Segment.IsData (s : Segment) : Prop :=
  s.present = true ∧ s.codeOrData = true ∧ s.kind.getLsbD 3 = false ∧ s.kind.getLsbD 1 = true

instance (s : Segment) : Decidable s.IsCode := inferInstanceAs (Decidable (_ ∧ _))
instance (s : Segment) : Decidable s.IsData := inferInstanceAs (Decidable (_ ∧ _))

/-- `iretq` in ring 0 accepts these selectors. -/
def Returnable (gdt : Gdt) (cs ss : Word) : Prop :=
  ∃ code data, gdt.segment cs = some code ∧ gdt.segment ss = some data ∧ code.IsCode ∧ data.IsData ∧
    code.privilege = cs.extractLsb' 0 2 ∧ data.privilege = cs.extractLsb' 0 2 ∧
    ss.extractLsb' 0 2 = cs.extractLsb' 0 2

/-- The handler of an interrupt and whether it starts with interrupts masked, `none`
for a general protection fault. A software interrupt must be allowed to the current
privilege. -/
def interruptTarget (gdt : Gdt) (idt : Idt) (vector : Byte) (current : BitVec 2) (software : Bool) :
    Option (Word × Bool) :=
  let gate := Gate.ofWords (idt vector).words
  match gdt.segment (gate.selector.setWidth 64) with
  | none => none
  | some code =>
    if gate.present ∧ (gate.kind = 0xE#4 ∨ gate.kind = 0xF#4) ∧ (software → current ≤ gate.privilege) ∧
        code.IsCode ∧ code.privilege ≤ current then some (gate.offset, gate.kind = 0xE#4) else none

section Tables

variable {m : Mem} {a : ℕ} {v : Word} {stubs : Stubs} {idt : Idt} {vector : Byte} {attributes : Byte}

/-- Masking the bits that are kept changes nothing. -/
lemma setWidth_mask {w : ℕ} (x : BitVec w) (n : ℕ) :
    (x &&& BitVec.ofNat w (2 ^ n - 1)).setWidth n = x.setWidth n := by
  apply BitVec.eq_of_getLsbD_eq
  intro i hi
  rw [BitVec.getLsbD_setWidth, BitVec.getLsbD_setWidth, BitVec.getLsbD_and]
  by_cases hw : i < w
  · have hbit : (BitVec.ofNat w (2 ^ n - 1)).getLsbD i = true := by
      rw [BitVec.getLsbD_ofNat, Nat.testBit_two_pow_sub_one]
      simp [hi, hw]
    rw [hbit, Bool.and_true]
  · rw [BitVec.getLsbD_of_ge x i (by omega), Bool.false_and]

/-- Eight bytes, the lowest first. -/
lemma writeLe64_eq (m : Mem) (a : ℕ) (v : Word) : writeLe64 m a v = store64 m a v := by
  have hbyte (i : ℕ) : ((v >>> (8 * i)) &&& 0xFF#64).setWidth 8 = byteOf v i :=
    (setWidth_mask (v >>> (8 * i)) 8).trans BitVec.setWidth_ushiftRight_eq_extractLsb
  funext x
  unfold writeLe64
  simp only [List.range_succ, List.range_zero, List.nil_append, List.cons_append, List.foldl_cons,
    List.foldl_nil, hbyte]
  by_cases hx : a ≤ x ∧ x < a + 8
  · obtain ⟨k, rfl⟩ := Nat.exists_eq_add_of_le hx.1
    have hk : k < 8 := by omega
    rw [store64_at m a v hk]
    interval_cases k <;> simp [store8]
  · rw [store64_outside m v (by omega)]
    simp only [store8]
    repeat rw [if_neg (by omega)]

/-- A gate is read back as it was set, whatever the address. -/
lemma gate_set (idt : Idt) (vector : Byte) (handler : Word) (attributes : Byte) :
    Gate.ofWords (idtSetGateWithType idt vector handler attributes vector).words =
      ⟨handler, 0x08#16, attributes.extractLsb' 0 4, attributes.extractLsb' 5 2, attributes.getLsbD 7⟩ := by
  have hlow : (handler &&& 0xFFFF#64).setWidth 16 = handler.setWidth 16 := setWidth_mask handler 16
  have hmid : ((handler >>> 16) &&& 0xFFFF#64).setWidth 16 = (handler >>> 16).setWidth 16 := setWidth_mask _ 16
  have hhigh : ((handler >>> 32) &&& 0xFFFFFFFF#64).setWidth 32 = (handler >>> 32).setWidth 32 :=
    setWidth_mask _ 32
  unfold idtSetGateWithType
  rw [Function.update_self, hlow, hmid, hhigh]
  unfold Gate.ofWords IdtEntry.words
  dsimp only
  ext1
  all_goals dsimp only
  · apply BitVec.eq_of_getLsbD_eq
    intro i hi
    simp only [BitVec.getLsbD_append, BitVec.getLsbD_extractLsb', BitVec.getLsbD_setWidth,
      BitVec.getLsbD_ushiftRight]
    grind
  · apply BitVec.eq_of_getLsbD_eq
    intro i hi
    simp only [BitVec.getLsbD_append, BitVec.getLsbD_extractLsb']
    grind
  · apply BitVec.eq_of_getLsbD_eq
    intro i hi
    simp only [BitVec.getLsbD_append, BitVec.getLsbD_extractLsb']
    grind
  · apply BitVec.eq_of_getLsbD_eq
    intro i hi
    simp only [BitVec.getLsbD_append, BitVec.getLsbD_extractLsb']
    grind
  · simp only [BitVec.getLsbD_append]
    rfl

lemma gate_other {idt : Idt} {vector other : Byte} (h : other ≠ vector) (handler : Word) (attributes : Byte) :
    idtSetGateWithType idt vector handler attributes other = idt other := Function.update_of_ne h _ _

lemma getLsbD_mask (n j : ℕ) :
    (BitVec.ofNat 64 (2 ^ n - 1)).getLsbD j = (decide (j < 64) && decide (j < n)) := by
  rw [BitVec.getLsbD_ofNat, Nat.testBit_two_pow_sub_one]

/-- The task state segment is found where it is, whatever the address. -/
lemma gdt_taskState (tssBase : Word) : (gdtInitialize tssBase).1.taskState = (tssBase, 103) := by
  have h24 (j : ℕ) : (0xFFFFFF#64).getLsbD j = (decide (j < 64) && decide (j < 24)) := getLsbD_mask 24 j
  have h8 (j : ℕ) : (0xFF#64).getLsbD j = (decide (j < 64) && decide (j < 8)) := getLsbD_mask 8 j
  have h32 (j : ℕ) : (0xFFFFFFFF#64).getLsbD j = (decide (j < 64) && decide (j < 32)) := getLsbD_mask 32 j
  have hlow (j : ℕ) (hj : 16 ≤ j) : (103#64).getLsbD j = false :=
    BitVec.getLsbD_ofNat 64 103 j ▸ by
      rw [Nat.testBit_lt_two_pow (lt_of_lt_of_le (by omega) (Nat.pow_le_pow_right (by omega) hj)),
        Bool.and_false]
  have hkind (j : ℕ) (hj : 8 ≤ j) : (0x89#64).getLsbD j = false :=
    BitVec.getLsbD_ofNat 64 0x89 j ▸ by
      rw [Nat.testBit_lt_two_pow (lt_of_lt_of_le (by omega) (Nat.pow_le_pow_right (by omega) hj)),
        Bool.and_false]
  have hlimit : (103#32 &&& 0xFFFF#32).setWidth 64 = 103#64 := by decide
  have hlimit₂ : (((103#32 >>> 16) &&& 0x0F#32).setWidth 64 <<< 48 : Word) = 0#64 := by decide
  unfold gdtInitialize gdtSetTssDescriptor Gdt.taskState
  dsimp only
  rw [Function.update_self, Function.update_of_ne (by decide), Function.update_self, hlimit, hlimit₂,
    BitVec.or_zero]
  refine Prod.ext ?_ ?_
  · apply BitVec.eq_of_getLsbD_eq
    intro i hi
    simp only [BitVec.getLsbD_append, BitVec.getLsbD_extractLsb', BitVec.getLsbD_or, BitVec.getLsbD_and,
      BitVec.getLsbD_shiftLeft, BitVec.getLsbD_ushiftRight, h24, h8, h32]
    grind
  · refine congrArg BitVec.toNat (show _ = 103#20 from BitVec.eq_of_getLsbD_eq fun i hi => ?_)
    have hsame : (103#20).getLsbD i = (103#64).getLsbD i := by
      rw [BitVec.getLsbD_ofNat, BitVec.getLsbD_ofNat]
      simp [hi, show i < 64 by omega]
    simp only [BitVec.getLsbD_append, BitVec.getLsbD_extractLsb', BitVec.getLsbD_or, BitVec.getLsbD_and,
      BitVec.getLsbD_shiftLeft, BitVec.getLsbD_ushiftRight, h24, h8]
    grind

/-- The selectors that the kernel loads and that tasks run with. -/
lemma gdt_segments (tssBase : Word) :
    (gdtInitialize tssBase).1.segment 0x08#64 = some ⟨0xA#4, true, 0#2, true, true⟩ ∧
    (gdtInitialize tssBase).1.segment 0x10#64 = some ⟨0x2#4, true, 0#2, true, false⟩ ∧
    (gdtInitialize tssBase).1.segment 0x1B#64 = some ⟨0x2#4, true, 3#2, true, false⟩ ∧
    (gdtInitialize tssBase).1.segment 0x23#64 = some ⟨0xA#4, true, 3#2, true, true⟩ := by
  have hsegment (selector : Word) (i : Fin 7) (access flags : BitVec 32)
      (hi : selector.toNat % 2 ^ 16 / 8 = i.val) (h0 : i ≠ 0)
      (hgdt : (gdtInitialize tssBase).1 i = gdtMakeCodeDataDescriptor access flags) :
      (gdtInitialize tssBase).1.segment selector =
        some (Segment.ofWord (gdtMakeCodeDataDescriptor access flags)) := by
    have hne : selector.toNat % 2 ^ 16 / 8 ≠ 0 := fun h => h0 (Fin.ext (hi ▸ h))
    unfold Gdt.segment
    rw [dif_pos (hi ▸ i.isLt), if_neg hne]
    simp only [hi, Fin.eta, hgdt]
  have hentry (i : Fin 7) (h5 : i ≠ 5) (h6 : i ≠ 6) : (gdtInitialize tssBase).1 i =
      Function.update (Function.update (Function.update (Function.update (fun _ => 0#64) 1
        (gdtMakeCodeDataDescriptor 0x9A#32 0x0A#32)) 2 (gdtMakeCodeDataDescriptor 0x92#32 0x08#32)) 3
        (gdtMakeCodeDataDescriptor 0xF2#32 0x08#32)) 4 (gdtMakeCodeDataDescriptor 0xFA#32 0x0A#32) i := by
    unfold gdtInitialize gdtSetTssDescriptor
    dsimp only
    rw [Function.update_of_ne h6, Function.update_of_ne h5]
  refine ⟨?_, ?_, ?_, ?_⟩
  · rw [hsegment _ 1 0x9A#32 0x0A#32 (by decide) (by decide) (hentry 1 (by decide) (by decide))]
    decide
  · rw [hsegment _ 2 0x92#32 0x08#32 (by decide) (by decide) (hentry 2 (by decide) (by decide))]
    decide
  · rw [hsegment _ 3 0xF2#32 0x08#32 (by decide) (by decide) (hentry 3 (by decide) (by decide))]
    decide
  · rw [hsegment _ 4 0xFA#32 0x0A#32 (by decide) (by decide) (hentry 4 (by decide) (by decide))]
    decide

/-- Whatever the address of the task state segment, the processor finds it and the
stack set for interrupts in it, and returns to the segments of fresh tasks. -/
theorem gdt_readBack (tssBase rsp0 : Word) :
    (gdtInitialize tssBase).1.taskState = (tssBase, 103) ∧
    load64 (gdtSetTssRsp0 (gdtInitialize tssBase).2 rsp0) 4 = rsp0 ∧
    (∀ page entry, Returnable (gdtInitialize tssBase).1 (kernelContext page entry).cs
      (kernelContext page entry).ss) ∧
    ∀ bootstrap, Returnable (gdtInitialize tssBase).1 (userContext bootstrap).cs (userContext bootstrap).ss := by
  obtain ⟨hcode, hdata, huserData, huserCode⟩ := gdt_segments tssBase
  refine ⟨gdt_taskState tssBase, ?_, fun page entry => ?_, fun bootstrap => ?_⟩
  · unfold gdtSetTssRsp0
    rw [writeLe64_eq, load64_store64_same]
  · change Returnable _ 0x08#64 0x10#64
    exact ⟨_, _, hcode, hdata, by decide, by decide, by decide, by decide, by decide⟩
  · change Returnable _ 0x23#64 0x1B#64
    exact ⟨_, _, huserCode, huserData, by decide, by decide, by decide, by decide, by decide⟩

/-- The stub that is meant to handle a vector. -/
def Stubs.handler (stubs : Stubs) (vector : Byte) : Option Word :=
  if vector = 6#8 then some stubs.archIsrInvalidOpcode
  else if vector = 13#8 then some stubs.archIsrGeneralProtection
  else if vector = 14#8 then some stubs.archIsrPageFault
  else if vector = 32#8 then some stubs.archIrq0Entry
  else if vector = 128#8 then some stubs.archSyscallEntry
  else none

/-- The gate of a vector that has a handler masks interrupts; all but the one for
system calls are closed to user mode. -/
lemma kernelIdt_gate (stubs : Stubs) {vector : Byte} {handler : Word}
    (h : stubs.handler vector = some handler) : Gate.ofWords (kernelIdt stubs vector).words =
      ⟨handler, 0x08#16, 0xE#4, if vector = 128#8 then 3#2 else 0#2, true⟩ := by
  unfold Stubs.handler at h
  unfold kernelIdt idtSetSyscallGate idtSetIrq0Gate idtInitialize idtSetGate
  dsimp only
  split_ifs at h with h6 h13 h14 h32 h128
  · subst h6
    obtain rfl := Option.some.inj h
    rw [gate_other (by decide), gate_other (by decide), gate_other (by decide), gate_other (by decide),
      gate_set]
    rfl
  · subst h13
    obtain rfl := Option.some.inj h
    rw [gate_other (by decide), gate_other (by decide), gate_other (by decide), gate_set]
    rfl
  · subst h14
    obtain rfl := Option.some.inj h
    rw [gate_other (by decide), gate_other (by decide), gate_set]
    rfl
  · subst h32
    obtain rfl := Option.some.inj h
    rw [gate_other (by decide), gate_set]
    rfl
  · subst h128
    obtain rfl := Option.some.inj h
    rw [gate_set]
    rfl

lemma kernelIdt_none (stubs : Stubs) (h : stubs.handler vector = none) :
    kernelIdt stubs vector = ⟨0, 0, 0, 0, 0, 0, 0⟩ := by
  unfold Stubs.handler at h
  split_ifs at h with h6 h13 h14 h32 h128
  unfold kernelIdt idtSetSyscallGate idtSetIrq0Gate idtInitialize idtSetGate
  dsimp only
  rw [gate_other h128, gate_other h32, gate_other h14, gate_other h13, gate_other h6]

/-- The handler of every vector at every privilege level; it starts with interrupts
masked. From user mode `int` reaches the system call stub and nothing else. -/
theorem interruptTarget_iff (tssBase : Word) (stubs : Stubs) (vector : Byte) (current : BitVec 2)
    (software : Bool) (target : Word) (masked : Bool) :
    interruptTarget (gdtInitialize tssBase).1 (kernelIdt stubs) vector current software =
        some (target, masked) ↔
      stubs.handler vector = some target ∧ masked = true ∧
        (software = true → vector = 128#8 ∨ current = 0#2) := by
  cases hhandler : stubs.handler vector with
  | none =>
    rw [interruptTarget, kernelIdt_none stubs hhandler]
    constructor
    · intro h
      cases h
    · rintro ⟨h, -⟩
      cases h
  | some handler =>
    have hcode := (gdt_segments tssBase).1
    have hopen : current ≤ (if vector = 128#8 then 3#2 else 0#2) ↔ vector = 128#8 ∨ current = 0#2 := by
      by_cases hv : vector = 128#8
      · rw [if_pos hv]
        exact ⟨fun _ => .inl hv, fun _ => by rw [BitVec.le_def]; exact Nat.le_of_lt_succ current.isLt⟩
      · rw [if_neg hv]
        constructor
        · intro hle
          exact .inr (BitVec.eq_of_toNat_eq (Nat.le_zero.mp hle))
        · rintro (h | rfl)
          · exact absurd h hv
          · exact Nat.le_refl _
    have hgate : ((Segment.mk 0xA#4 true 0#2 true true).IsCode ∧
        (Segment.mk 0xA#4 true 0#2 true true).privilege ≤ current) := ⟨by decide, Nat.zero_le _⟩
    unfold interruptTarget
    rw [kernelIdt_gate stubs hhandler]
    dsimp only
    rw [show (0x08#16).setWidth 64 = 0x08#64 by decide, hcode]
    dsimp only
    by_cases hcall : software = true → vector = 128#8 ∨ current = 0#2
    · rw [if_pos ⟨rfl, .inl rfl, fun hs => hopen.mpr (hcall hs), hgate⟩]
      constructor
      · intro h
        obtain ⟨rfl, rfl⟩ := Prod.mk.inj (Option.some.inj h)
        exact ⟨rfl, rfl, hcall⟩
      · rintro ⟨h, rfl, -⟩
        rw [Option.some.inj h]
        rfl
    · rw [if_neg fun h => hcall fun hs => hopen.mp (h.2.2.1 hs)]
      exact ⟨fun h => (by cases h), fun h => absurd h.2.2 hcall⟩

end Tables

end Platinum
