import Platinum.ByteMemory
import Mathlib.Data.List.Nodup

/-!
# Interrupt frames

A processor with fifteen general registers and a downward stack. Delivering an
interrupt pushes five words and `iretq` pops them; a handler saves the registers
below. What a return resumes is read from memory at the stack pointer alone.
-/
namespace Processor
open ByteMemory

inductive Reg where
  | rax | rbx | rcx | rdx | rbp | rsi | rdi | r8 | r9 | r10 | r11 | r12 | r13 | r14 | r15
  deriving DecidableEq, Repr

/-- What a program sees of the processor. -/
@[ext] structure Context where
  reg : Reg → Word
  rip : Word
  cs : Word
  rflags : Word
  rsp : Word
  ss : Word

def Context.setReg (ctx : Context) (r : Reg) (v : Word) : Context :=
  { ctx with reg := Function.update ctx.reg r v }

@[simp] lemma Context.setReg_same (ctx : Context) (r : Reg) (v : Word) : (ctx.setReg r v).reg r = v :=
  Function.update_self _ _ _

lemma Context.setReg_ne (ctx : Context) {q r : Reg} (v : Word) (h : q ≠ r) :
    (ctx.setReg r v).reg q = ctx.reg q := Function.update_of_ne h _ _

/-- States that have a memory. -/
class HasMem (σ : Type) where
  mem : σ → Mem
  setMem : σ → Mem → σ
  mem_setMem : ∀ s m, mem (setMem s m) = m
  setMem_setMem : ∀ s m m', setMem (setMem s m) m' = setMem s m'
  setMem_mem : ∀ s, setMem s (mem s) = s

attribute [simp] HasMem.mem_setMem HasMem.setMem_setMem HasMem.setMem_mem

@[ext] structure Machine (σ : Type) where
  state : σ
  ctx : Context

/-- The instructions of an interrupt stub. A call gets its argument in `rcx` and
returns in `rax`; it may leave anything in the other registers. -/
inductive Instr (σ ε : Type) where
  | push (r : Reg)
  | pop (r : Reg)
  | movFromRsp (r : Reg)
  | movToRsp (r : Reg)
  | subRsp (n : Word)
  | addRsp (n : Word)
  | call (f : Word → σ → Except ε (Word × σ)) (left : Reg → Word)
  | iretq

/-- Pushes words one after the other below `a`. -/
def pushes (m : Mem) (a : ℕ) : List Word → Mem
  | [] => m
  | w :: ws => pushes (store64 m (a - 8) w) (a - 8) ws

section Pushes

variable {m : Mem} {a x i : ℕ} {us ws : List Word}

lemma pushes_append : pushes m a (us ++ ws) = pushes (pushes m a us) (a - 8 * us.length) ws := by
  induction us generalizing m a with
  | nil => rfl
  | cons u us ih =>
    rw [List.cons_append, pushes, pushes, ih, List.length_cons,
      show a - 8 - 8 * us.length = a - 8 * (us.length + 1) by omega]

/-- Only the words' own bytes are written. -/
lemma pushes_outside (ha : 8 * ws.length ≤ a) (hx : x < a - 8 * ws.length ∨ a ≤ x) :
    pushes m a ws x = m x := by
  induction ws generalizing m a with
  | nil => rfl
  | cons w ws ih =>
    rw [List.length_cons] at ha hx
    rw [pushes, ih (by omega) (by omega)]
    exact store64_outside m w (by omega)

/-- The word pushed at index `i` lies `i + 1` words below the start. -/
lemma load64_pushes (ha : 8 * ws.length ≤ a) (hi : i < ws.length) :
    load64 (pushes m a ws) (a - 8 * (i + 1)) = ws[i] := by
  induction ws generalizing m a i with
  | nil => cases hi
  | cons w ws ih =>
    rw [List.length_cons] at ha
    cases i with
    | zero =>
      have hsame : load64 (pushes (store64 m (a - 8) w) (a - 8) ws) (a - 8) =
          load64 (store64 m (a - 8) w) (a - 8) := by
        apply load64_congr
        intro k hk
        exact pushes_outside (by omega) (by omega)
      rw [pushes, List.getElem_cons_zero]
      exact hsame.trans (load64_store64_same m _ w)
    | succ i =>
      rw [List.length_cons] at hi
      have h := ih (m := store64 m (a - 8) w) (a := a - 8) (i := i) (by omega) (by omega)
      rwa [show a - 8 - 8 * (i + 1) = a - 8 * (i + 1 + 1) by omega] at h

end Pushes

/-- What is pushed for an interrupt whose handler saves the registers `rs`. -/
def contextWords (rs : List Reg) (ctx : Context) : List Word :=
  [ctx.ss, ctx.rsp, ctx.rflags, ctx.cs, ctx.rip] ++ rs.map ctx.reg

/-- What a handler that saves `rs` resumes from the stack pointer `a`. -/
def frameContext (rs : List Reg) (m : Mem) (a : ℕ) : Context where
  reg r := load64 m (a + 8 * (rs.length - 1 - rs.idxOf r))
  rip := load64 m (a + 8 * rs.length)
  cs := load64 m (a + 8 * (rs.length + 1))
  rflags := load64 m (a + 8 * (rs.length + 2))
  rsp := load64 m (a + 8 * (rs.length + 3))
  ss := load64 m (a + 8 * (rs.length + 4))

/-- The bytes of a frame below `a`. -/
def frameSize (rs : List Reg) : ℕ := 8 * (rs.length + 5)

section Frames

variable {rs : List Reg} {m m' : Mem} {a : ℕ} {ctx : Context} {r : Reg} {v : Word}

@[simp] lemma length_contextWords : (contextWords rs ctx).length = rs.length + 5 := by
  rw [contextWords, List.length_append, List.length_map, Nat.add_comm]
  rfl

/-- A frame is a matter of its own bytes. -/
lemma frameContext_congr (hrs : 0 < rs.length)
    (h : ∀ x, a ≤ x → x < a + frameSize rs → m' x = m x) : frameContext rs m' a = frameContext rs m a := by
  have hword (i : ℕ) (hi : i < rs.length + 5) : load64 m' (a + 8 * i) = load64 m (a + 8 * i) :=
    load64_congr fun k hk => h _ (by omega) (by unfold frameSize; omega)
  ext1
  · funext r
    exact hword _ (by omega)
  · exact hword _ (by omega)
  · exact hword _ (by omega)
  · exact hword _ (by omega)
  · exact hword _ (by omega)
  · exact hword _ (by omega)

/-- Saving and resuming gives the context back. -/
theorem frameContext_pushes (hrs : ∀ r, r ∈ rs) (ha : frameSize rs ≤ a) :
    frameContext rs (pushes m a (contextWords rs ctx)) (a - frameSize rs) = ctx := by
  unfold frameSize at ha ⊢
  have hlen : (contextWords rs ctx).length = rs.length + 5 := length_contextWords
  have hword (i : ℕ) (hi : i < rs.length + 5) : load64 (pushes m a (contextWords rs ctx))
      (a - 8 * (rs.length + 5) + 8 * (rs.length + 4 - i)) = (contextWords rs ctx)[i] := by
    rw [show a - 8 * (rs.length + 5) + 8 * (rs.length + 4 - i) = a - 8 * (i + 1) by omega]
    exact load64_pushes (by omega) (by omega)
  ext1
  · funext r
    have hr := List.idxOf_lt_length_of_mem (hrs r)
    have h := hword (5 + rs.idxOf r) (by omega)
    rw [show rs.length + 4 - (5 + rs.idxOf r) = rs.length - 1 - rs.idxOf r by omega] at h
    refine h.trans ?_
    unfold contextWords
    rw [List.getElem_append_right (by simp)]
    simp
  · exact hword 4 (by omega)
  · exact hword 3 (by omega)
  · exact hword 2 (by omega)
  · exact hword 1 (by omega)
  · exact hword 0 (by omega)

/-- Storing into a saved register changes that register only. -/
lemma frameContext_store64 (hrs : ∀ r, r ∈ rs) (r : Reg) (v : Word) :
    frameContext rs (store64 m (a + 8 * (rs.length - 1 - rs.idxOf r)) v) a =
      (frameContext rs m a).setReg r v := by
  have hr := List.idxOf_lt_length_of_mem (hrs r)
  have hkeep (i : ℕ) (hi : i ≠ rs.length - 1 - rs.idxOf r) :
      load64 (store64 m (a + 8 * (rs.length - 1 - rs.idxOf r)) v) (a + 8 * i) = load64 m (a + 8 * i) :=
    load64_store64_disjoint m v (by omega)
  ext1
  · funext q
    by_cases hq : q = r
    · rw [hq, Context.setReg_same]
      exact load64_store64_same m _ v
    · have hlt := List.idxOf_lt_length_of_mem (hrs q)
      have hne : rs.idxOf q ≠ rs.idxOf r := fun h => hq ((List.idxOf_inj (hrs q)).mp h)
      rw [Context.setReg_ne _ v hq]
      exact hkeep _ (by omega)
  · exact hkeep _ (by omega)
  · exact hkeep _ (by omega)
  · exact hkeep _ (by omega)
  · exact hkeep _ (by omega)
  · exact hkeep _ (by omega)

end Frames

section Exec

variable {σ ε : Type} [HasMem σ]
open HasMem

def exec (i : Instr σ ε) (c : Machine σ) : Except ε (Machine σ) :=
  match i with
  | .push r => .ok
      { state := setMem c.state (store64 (mem c.state) (c.ctx.rsp - 8#64).toNat (c.ctx.reg r))
        ctx := { c.ctx with rsp := c.ctx.rsp - 8#64 } }
  | .pop r => .ok
      { c with
        ctx := { c.ctx.setReg r (load64 (mem c.state) c.ctx.rsp.toNat) with
          rsp := c.ctx.rsp + 8#64 } }
  | .movFromRsp r => .ok { c with ctx := c.ctx.setReg r c.ctx.rsp }
  | .movToRsp r => .ok { c with ctx := { c.ctx with rsp := c.ctx.reg r } }
  | .subRsp n => .ok { c with ctx := { c.ctx with rsp := c.ctx.rsp - n } }
  | .addRsp n => .ok { c with ctx := { c.ctx with rsp := c.ctx.rsp + n } }
  | .call f left => do
      let (result, state) ← f (c.ctx.reg .rcx) c.state
      .ok { state := state, ctx := { c.ctx with reg := Function.update left .rax result } }
  | .iretq => .ok
      { c with
        ctx := { c.ctx with
          rip := load64 (mem c.state) c.ctx.rsp.toNat
          cs := load64 (mem c.state) (c.ctx.rsp.toNat + 8)
          rflags := load64 (mem c.state) (c.ctx.rsp.toNat + 16)
          rsp := load64 (mem c.state) (c.ctx.rsp.toNat + 24)
          ss := load64 (mem c.state) (c.ctx.rsp.toNat + 32) } }

def run (is : List (Instr σ ε)) (c : Machine σ) : Except ε (Machine σ) :=
  match is with
  | [] => .ok c
  | i :: is => exec i c >>= run is

/-- The privilege level of a code selector. -/
def privilege (cs : Word) : Word := cs &&& 3#64

/-- Where the frame of an interrupt starts: on the stack of the task state segment
when the privilege changes, and aligned in any case. -/
def interruptStack (rsp0 : Word) (ctx : Context) : Word :=
  (if privilege ctx.cs = 0#64 then ctx.rsp else rsp0) &&& ~~~15#64

/-- The trap, interrupt, nested-task and resume flags. -/
def clearedFlags : Word := 0x14300#64

/-- Delivers an interrupt through a gate to ring 0: five words are pushed and
interrupts are masked. -/
def deliver (rsp0 selector offset : Word) (c : Machine σ) : Machine σ where
  state := setMem c.state (pushes (mem c.state) (interruptStack rsp0 c.ctx).toNat
    [c.ctx.ss, c.ctx.rsp, c.ctx.rflags, c.ctx.cs, c.ctx.rip])
  ctx :=
    { c.ctx with
      rip := offset
      cs := selector
      rflags := c.ctx.rflags &&& ~~~clearedFlags
      rsp := interruptStack rsp0 c.ctx - 40#64
      ss := if privilege c.ctx.cs = 0#64 then c.ctx.ss else 0#64 }

variable {rs : List Reg} {c : Machine σ} {is js : List (Instr σ ε)} {rsp0 selector offset : Word}

@[simp] lemma run_nil : run ([] : List (Instr σ ε)) c = .ok c := rfl

lemma run_cons (i : Instr σ ε) : run (i :: is) c = exec i c >>= run is := rfl

lemma run_append : run (is ++ js) c = run is c >>= run js := by
  induction is generalizing c with
  | nil => rfl
  | cons i is ih =>
    rw [List.cons_append, run_cons, run_cons]
    cases exec i c with
    | error e => rfl
    | ok c => exact ih

/-- Pushing registers writes them below the stack pointer. -/
lemma run_pushes (hroom : 8 * rs.length ≤ c.ctx.rsp.toNat) :
    run (rs.map Instr.push) c = (.ok
      { state := setMem c.state (pushes (mem c.state) c.ctx.rsp.toNat (rs.map c.ctx.reg))
        ctx := { c.ctx with rsp := c.ctx.rsp - BitVec.ofNat 64 (8 * rs.length) } } :
          Except ε (Machine σ)) := by
  induction rs generalizing c with
  | nil => simp [pushes]
  | cons r rs ih =>
    rw [List.length_cons] at hroom
    have hlt := c.ctx.rsp.isLt
    have hrsp : (c.ctx.rsp - 8#64).toNat = c.ctx.rsp.toNat - 8 := by bv_omega
    rw [List.map_cons, run_cons]
    change run (rs.map Instr.push) _ = _
    rw [ih (by dsimp only; omega)]
    dsimp only
    rw [mem_setMem, setMem_setMem, hrsp, List.map_cons, pushes, List.length_cons,
      show c.ctx.rsp - 8#64 - BitVec.ofNat 64 (8 * rs.length) =
        c.ctx.rsp - BitVec.ofNat 64 (8 * (rs.length + 1)) by bv_omega]

/-- Popping registers reads each from its place. -/
lemma run_pops (hnd : rs.Nodup) (hroom : c.ctx.rsp.toNat + 8 * rs.length < 2 ^ 64) :
    run (rs.map Instr.pop) c = (.ok
      { c with
        ctx := { c.ctx with
          reg := fun r => if r ∈ rs then load64 (mem c.state) (c.ctx.rsp.toNat + 8 * rs.idxOf r)
            else c.ctx.reg r
          rsp := c.ctx.rsp + BitVec.ofNat 64 (8 * rs.length) } } : Except ε (Machine σ)) := by
  induction rs generalizing c with
  | nil => simp
  | cons r rs ih =>
    rw [List.length_cons] at hroom
    obtain ⟨hr, hnd⟩ := List.nodup_cons.mp hnd
    have hrsp : (c.ctx.rsp + 8#64).toNat = c.ctx.rsp.toNat + 8 := by bv_omega
    rw [List.map_cons, run_cons]
    change run (rs.map Instr.pop) _ = _
    rw [ih hnd (by dsimp only; omega)]
    dsimp only
    rw [hrsp, List.length_cons, show c.ctx.rsp + 8#64 + BitVec.ofNat 64 (8 * rs.length) =
        c.ctx.rsp + BitVec.ofNat 64 (8 * (rs.length + 1)) by bv_omega]
    congr 3
    funext q
    by_cases hq : q = r
    · rw [hq, if_neg hr, Context.setReg_same, if_pos List.mem_cons_self, List.idxOf_cons_self]
      rfl
    · by_cases hmem : q ∈ rs
      · rw [if_pos hmem, if_pos (List.mem_cons_of_mem _ hmem), List.idxOf_cons_ne rs (Ne.symm hq),
          show c.ctx.rsp.toNat + 8 + 8 * rs.idxOf q = c.ctx.rsp.toNat + 8 * (rs.idxOf q).succ by omega]
      · rw [if_neg hmem, if_neg (by simp [hq, hmem]), Context.setReg_ne _ _ hq]

lemma idxOf_reverse {r : Reg} (hnd : rs.Nodup) (hr : r ∈ rs) :
    rs.reverse.idxOf r = rs.length - 1 - rs.idxOf r := by
  have hlt := List.idxOf_lt_length_of_mem hr
  have hi : rs.length - 1 - rs.idxOf r < rs.reverse.length := by
    rw [List.length_reverse]
    omega
  have hget : rs.reverse[rs.length - 1 - rs.idxOf r] = r := by
    rw [List.getElem_reverse]
    simp only [show rs.length - 1 - (rs.length - 1 - rs.idxOf r) = rs.idxOf r by omega]
    exact List.getElem_idxOf hlt
  conv_lhs => rw [← hget]
  exact (List.nodup_reverse.mpr hnd).idxOf_getElem _ hi

/-- Delivering and saving pushes the interrupted context. -/
theorem run_entry (hroom : frameSize rs ≤ (interruptStack rsp0 c.ctx).toNat) :
    run (rs.map Instr.push) (deliver rsp0 selector offset c) = (.ok
      { state := setMem c.state
          (pushes (mem c.state) (interruptStack rsp0 c.ctx).toNat (contextWords rs c.ctx))
        ctx := { (deliver rsp0 selector offset c).ctx with
          rsp := interruptStack rsp0 c.ctx - BitVec.ofNat 64 (frameSize rs) } } :
          Except ε (Machine σ)) := by
  unfold frameSize at hroom ⊢
  have hlt := (interruptStack rsp0 c.ctx).isLt
  have hrsp : (interruptStack rsp0 c.ctx - 40#64).toNat = (interruptStack rsp0 c.ctx).toNat - 40 := by
    bv_omega
  have hdown : (deliver rsp0 selector offset c).ctx.rsp.toNat = (interruptStack rsp0 c.ctx).toNat - 40 :=
    hrsp
  rw [run_pushes (by omega), hdown]
  change Except.ok (Machine.mk (setMem (setMem c.state _) (pushes (mem (setMem c.state _)) _ _)) _) = _
  rw [mem_setMem, setMem_setMem, contextWords, pushes_append]
  refine congrArg _ (Machine.ext rfl (Context.ext rfl rfl rfl rfl ?_ rfl))
  change interruptStack rsp0 c.ctx - 40#64 - BitVec.ofNat 64 (8 * rs.length) = _
  bv_omega

/-- Restoring and returning resumes what the stack pointer points to. -/
theorem run_exit (hrs : ∀ r, r ∈ rs) (hnd : rs.Nodup)
    (hroom : c.ctx.rsp.toNat + frameSize rs ≤ 2 ^ 64) :
    run (rs.reverse.map Instr.pop ++ [Instr.iretq]) c = (.ok
      { c with ctx := frameContext rs (mem c.state) c.ctx.rsp.toNat } : Except ε (Machine σ)) := by
  unfold frameSize at hroom
  have hlen : rs.reverse.length = rs.length := List.length_reverse
  have hrsp : (c.ctx.rsp + BitVec.ofNat 64 (8 * rs.length)).toNat = c.ctx.rsp.toNat + 8 * rs.length := by
    bv_omega
  rw [run_append, run_pops (List.nodup_reverse.mpr hnd) (by omega), hlen]
  change exec Instr.iretq _ >>= run [] = _
  unfold exec
  change (Except.ok _ : Except ε (Machine σ)) = _
  dsimp only
  rw [hrsp]
  congr 2
  unfold frameContext
  ext1
  · funext r
    change (if r ∈ rs.reverse then _ else _) = _
    rw [if_pos (List.mem_reverse.mpr (hrs r)), idxOf_reverse hnd (hrs r)]
  · rfl
  · rfl
  · rfl
  · rfl
  · rfl

end Exec

end Processor
