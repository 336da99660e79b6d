import Platinum.Vfs
import Mathlib.Data.Nat.Digits.Lemmas

/-!
# Numbers on the serial line

The kernel reports traps, ticks and memory in decimal and hexadecimal. What it
prints can be read back, and the digits fit the buffers they are collected in.
-/
namespace Platinum
open ByteMemory

/-- The bytes of a string literal. -/
def asciiText (text : String) : List Byte := text.toList.map fun c => BitVec.ofNat 8 c.toNat

/-- `(char)('0' + digit)`. -/
def decimalDigit (digit : ℕ) : Byte := BitVec.ofNat 8 (48 + digit)

/-- `while (current != 0u)`: the digits in the buffer, the lowest first. -/
def decimalLoop (digits : List Byte) (current : ℕ) : List Byte :=
  if current = 0 then digits else decimalLoop (digits ++ [decimalDigit (current % 10)]) (current / 10)
termination_by current
decreasing_by omega

/-- What `write_decimal_u32` and `write_decimal_u64` print. -/
def decimalText (value : ℕ) : List Byte :=
  if value = 0 then [decimalDigit 0] else (decimalLoop [] value).reverse

/-- `digits[nibble]`. -/
def hexDigit (nibble : ℕ) : Byte :=
  if nibble < 10 then BitVec.ofNat 8 (48 + nibble) else BitVec.ofNat 8 (87 + nibble)

/-- What `write_hex_u64` prints. -/
def hexText (value : Word) : List Byte :=
  asciiText "0x" ++ (List.range 16).map fun index => hexDigit ((value >>> ((15 - index) * 4)).toNat % 16)

def kernelTrap (k : Store) (vector : BitVec 32) : Store :=
  ((k.serialWrite (asciiText "trap ")).serialWrite (decimalText vector.toNat)).serialWrite (asciiText "\r\n")

/-- `cr2` is what `arch_read_cr2` returns. -/
def kernelTrapError (k : Store) (vector : BitVec 32) (errorCode cr2 : Word) : Store :=
  let k := (k.serialWrite (asciiText "trap ")).serialWrite (decimalText vector.toNat)
  let k := (k.serialWrite (asciiText " ec ")).serialWrite (decimalText errorCode.toNat)
  let k := if vector = 14#32 then (k.serialWrite (asciiText " cr2 ")).serialWrite (hexText cr2) else k
  k.serialWrite (asciiText "\r\n")

def IsDecimalDigit (b : Byte) : Prop := 48 ≤ b.toNat ∧ b.toNat < 58

instance (b : Byte) : Decidable (IsDecimalDigit b) := inferInstanceAs (Decidable (_ ∧ _))

def readDecimal (text : List Byte) : ℕ := text.foldl (fun n b => 10 * n + (b.toNat - 48)) 0

def hexDigitValue (b : Byte) : ℕ := if b.toNat < 58 then b.toNat - 48 else b.toNat - 87

def readHex (text : List Byte) : ℕ := text.foldl (fun n b => 16 * n + hexDigitValue b) 0

/-- The number a text starts with, and what follows it. -/
def splitDecimal (text : List Byte) : ℕ × List Byte :=
  (readDecimal (text.takeWhile fun b => IsDecimalDigit b), text.dropWhile fun b => IsDecimalDigit b)

/-- The decimal numbers of a text. -/
def printedNumbers (text : List Byte) : List ℕ :=
  ((text.splitOnP fun b => !decide (IsDecimalDigit b)).filter (· ≠ [])).map readDecimal

/-- The vector, the error code and the faulting address of a trap line. -/
def readTrapError (line : List Byte) : ℕ × ℕ × Option ℕ :=
  let (vector, rest) := splitDecimal (line.drop 5)
  let (errorCode, rest) := splitDecimal (rest.drop 4)
  (vector, errorCode, if rest.length = 2 then none else some (readHex ((rest.drop 7).take 16)))

section Decimal

variable {n : ℕ} {ds : List Byte} {rest : List Byte}

lemma toNat_decimalDigit {d : ℕ} (hd : d < 10) : (decimalDigit d).toNat = 48 + d := by
  unfold decimalDigit
  rw [BitVec.toNat_ofNat]
  omega

lemma decimalLoop_eq : decimalLoop ds n = ds ++ (Nat.digits 10 n).map decimalDigit := by
  induction n using Nat.strong_induction_on generalizing ds with
  | h n ih =>
    rw [decimalLoop]
    by_cases hn : n = 0
    · rw [if_pos hn, hn, Nat.digits_zero, List.map_nil, List.append_nil]
    · rw [if_neg hn, ih (n / 10) (by omega),
        Nat.digits_def' (show 1 < 10 by omega) (show 0 < n by omega), List.map_cons, List.append_assoc]
      rfl

/-- A number is printed as its digits, the highest first. -/
lemma decimalText_eq (hn : n ≠ 0) : decimalText n = ((Nat.digits 10 n).map decimalDigit).reverse := by
  rw [decimalText, if_neg hn, decimalLoop_eq, List.nil_append]

lemma decimalText_digits {b : Byte} (hb : b ∈ decimalText n) : IsDecimalDigit b := by
  have hdigit {d : ℕ} (hd : d < 10) : IsDecimalDigit (decimalDigit d) := by
    unfold IsDecimalDigit
    rw [toNat_decimalDigit hd]
    omega
  by_cases hn : n = 0
  · rw [decimalText, if_pos hn, List.mem_singleton] at hb
    rw [hb]
    exact hdigit (by omega)
  · rw [decimalText_eq hn, List.mem_reverse, List.mem_map] at hb
    obtain ⟨d, hd, rfl⟩ := hb
    exact hdigit (Nat.digits_lt_base (by omega) hd)

/-- Reading digits from the highest on. -/
lemma readDecimal_digits {l : List ℕ} (hl : ∀ d ∈ l, d < 10) :
    readDecimal (l.map decimalDigit).reverse = Nat.ofDigits 10 l := by
  unfold readDecimal
  rw [List.foldl_reverse]
  induction l with
  | nil => rfl
  | cons d l ih =>
    rw [List.map_cons, List.foldr_cons, ih fun e he => hl e (List.mem_cons_of_mem _ he),
      toNat_decimalDigit (hl d List.mem_cons_self), Nat.ofDigits_cons]
    omega

lemma readDecimal_decimalText (n : ℕ) : readDecimal (decimalText n) = n := by
  by_cases hn : n = 0
  · rw [hn]
    decide
  · rw [decimalText_eq hn, readDecimal_digits fun d hd => Nat.digits_lt_base (by omega) hd,
      Nat.ofDigits_digits]

/-- Numbers below `10 ^ e` take at most `e` digits. -/
lemma length_decimalText {e : ℕ} (he : 0 < e) (hn : n < 10 ^ e) : (decimalText n).length ≤ e := by
  by_cases h0 : n = 0
  · rw [decimalText, if_pos h0]
    exact he
  · rw [decimalText_eq h0, List.length_reverse, List.length_map]
    exact (Nat.digits_length_le_iff (by omega) n).mpr hn

/-- A printed number ends where the next text starts. -/
lemma splitDecimal_decimalText {b : Byte} (hb : ¬ IsDecimalDigit b) :
    splitDecimal (decimalText n ++ b :: rest) = (n, b :: rest) := by
  have hall : ∀ b ∈ decimalText n, decide (IsDecimalDigit b) = true := fun b hb =>
    decide_eq_true (decimalText_digits hb)
  unfold splitDecimal
  rw [List.takeWhile_append_of_pos hall, List.dropWhile_append_of_pos hall,
    List.takeWhile_cons_of_neg (by simpa using hb), List.dropWhile_cons_of_neg (by simpa using hb),
    List.append_nil, readDecimal_decimalText]

lemma decimalText_ne_nil (n : ℕ) : decimalText n ≠ [] := by
  by_cases hn : n = 0
  · rw [decimalText, if_pos hn]
    exact List.cons_ne_nil _ _
  · rw [decimalText_eq hn]
    simpa [Nat.digits_eq_nil_iff_eq_zero] using hn

/-- Words are skipped. -/
lemma printedNumbers_words {words : List Byte} (hwords : ∀ b ∈ words, ¬ IsDecimalDigit b) (rest : List Byte) :
    printedNumbers (words ++ rest) = printedNumbers rest := by
  induction words with
  | nil => rfl
  | cons b words ih =>
    rw [List.cons_append, ← ih fun c hc => hwords c (List.mem_cons_of_mem _ hc)]
    have hb := hwords b List.mem_cons_self
    unfold printedNumbers
    rw [List.splitOnP_cons_eq_if_modifyHead, if_pos (by simpa using hb), List.filter_cons_of_neg (by simp)]

/-- A number is found where a word follows. -/
lemma printedNumbers_decimalText {b : Byte} (hb : ¬ IsDecimalDigit b) :
    printedNumbers (decimalText n ++ b :: rest) = n :: printedNumbers (b :: rest) := by
  have hdigits : ∀ c ∈ decimalText n, (!decide (IsDecimalDigit c)) = false := fun c hc => by
    simpa using decimalText_digits hc
  have hword : printedNumbers ([b] ++ rest) = printedNumbers rest := printedNumbers_words (by simpa using hb) rest
  rw [← List.singleton_append (x := b) (l := rest), hword, List.singleton_append]
  unfold printedNumbers
  rw [List.splitOnP_append_cons_of_forall_mem hdigits b (by simpa using hb), List.filter_cons_of_pos
    (by simpa using decimalText_ne_nil n), List.map_cons, readDecimal_decimalText]

end Decimal

section Hex

variable {value : Word}

lemma hexDigitValue_hexDigit {d : ℕ} (hd : d < 16) : hexDigitValue (hexDigit d) = d := by
  interval_cases d <;> decide

/-- Nibbles from the highest on. -/
lemma readHex_nibbles (k n : ℕ) :
    readHex ((List.range k).map fun i => hexDigit (n / 16 ^ (k - 1 - i) % 16)) = n % 16 ^ k := by
  induction k generalizing n with
  | zero => simp [readHex, Nat.mod_one]
  | succ k ih =>
    have hlast (i : ℕ) (hi : i ∈ List.range k) : hexDigit (n / 16 ^ (k + 1 - 1 - i) % 16) =
        hexDigit (n / 16 / 16 ^ (k - 1 - i) % 16) := by
      have hi := List.mem_range.mp hi
      rw [Nat.div_div_eq_div_mul, show k + 1 - 1 - i = (k - 1 - i) + 1 by omega, pow_succ']
    rw [List.range_succ, List.map_append, List.map_congr_left hlast]
    unfold readHex at ih ⊢
    rw [List.foldl_append, ih]
    simp only [List.map_cons, List.map_nil, List.foldl_cons, List.foldl_nil]
    rw [hexDigitValue_hexDigit (Nat.mod_lt _ (by omega)), show k + 1 - 1 - k = 0 by omega, pow_zero,
      Nat.div_one, pow_succ', Nat.mod_mul]
    omega

lemma readHex_hexText (value : Word) : readHex ((hexText value).drop 2) = value.toNat := by
  have h := readHex_nibbles 16 value.toNat
  rw [Nat.mod_eq_of_lt (by omega)] at h
  refine Eq.trans (congrArg readHex (List.map_congr_left fun i hi => ?_)) h
  have hi := List.mem_range.mp hi
  rw [BitVec.toNat_ushiftRight, Nat.shiftRight_eq_div_pow, show 16 - 1 - i = 15 - i by omega,
    Nat.mul_comm, Nat.pow_mul]

@[simp] lemma length_hexText (value : Word) : (hexText value).length = 18 := by
  simp [hexText, asciiText]

end Hex

@[simp] lemma serialWrite_serial (k : Store) (bytes : List Byte) :
    (k.serialWrite bytes).serial = k.serial ++ bytes := rfl

/-- The line of a trap with an error code. -/
def trapLine (vector : BitVec 32) (errorCode cr2 : Word) : List Byte :=
  asciiText "trap " ++ (decimalText vector.toNat ++ (asciiText " ec " ++ (decimalText errorCode.toNat ++
    ((if vector = 14#32 then asciiText " cr2 " ++ hexText cr2 else []) ++ asciiText "\r\n"))))

lemma kernelTrapError_serial (k : Store) (vector : BitVec 32) (errorCode cr2 : Word) :
    (kernelTrapError k vector errorCode cr2).serial = k.serial ++ trapLine vector errorCode cr2 := by
  unfold kernelTrapError trapLine
  split_ifs <;> simp

lemma readTrapError_text {v e : ℕ} {b : Byte} {rest : List Byte} (hb : ¬ IsDecimalDigit b) :
    readTrapError (asciiText "trap " ++ (decimalText v ++ (asciiText " ec " ++ (decimalText e ++ b :: rest)))) =
      (v, e, if (b :: rest).length = 2 then none else some (readHex (((b :: rest).drop 7).take 16))) := by
  have hspace : ¬ IsDecimalDigit 32#8 := by decide
  have hec : asciiText " ec " = 32#8 :: asciiText "ec " := by decide
  unfold readTrapError
  rw [List.drop_left' (show (asciiText "trap ").length = 5 by decide), hec, List.cons_append,
    splitDecimal_decimalText hspace]
  dsimp only
  rw [← List.cons_append, ← hec, List.drop_left' (show (asciiText " ec ").length = 4 by decide),
    splitDecimal_decimalText hb]

/-- What a trap line says is the vector, the error code and, for a page fault, the
faulting address; its numbers fit the buffers of ten and of thirty-two bytes. -/
theorem trapLine_readBack (k : Store) (vector : BitVec 32) (errorCode cr2 : Word) :
    ∃ line, (kernelTrapError k vector errorCode cr2).serial = k.serial ++ line ∧
      readTrapError line = (vector.toNat, errorCode.toNat, if vector = 14#32 then some cr2.toNat else none) ∧
      (decimalText vector.toNat).length ≤ 10 ∧ (decimalText errorCode.toNat).length ≤ 32 := by
  refine ⟨_, kernelTrapError_serial k vector errorCode cr2, ?_, ?_, ?_⟩
  · have hcr2 : asciiText " cr2 " = 32#8 :: asciiText "cr2 " := by decide
    have hreturn : asciiText "\r\n" = 13#8 :: asciiText "\n" := by decide
    unfold trapLine
    by_cases hv : vector = 14#32
    · have hdrop : ((asciiText " cr2 " ++ hexText cr2 ++ asciiText "\r\n").drop 7).take 16 =
          (hexText cr2).drop 2 := by
        have hlen : (asciiText " cr2 " ++ asciiText "0x").length = 7 := by decide
        rw [hexText, ← List.append_assoc, List.append_assoc, List.drop_left' hlen,
          List.drop_left' (show (asciiText "0x").length = 2 by decide), List.take_left' (by simp)]
      rw [if_pos hv, if_pos hv, hcr2, List.cons_append, List.cons_append, readTrapError_text (by decide),
        ← List.cons_append, ← List.cons_append, ← hcr2, hdrop, readHex_hexText, if_neg (by simp [asciiText])]
    · rw [if_neg hv, if_neg hv, List.nil_append, hreturn, readTrapError_text (by decide), if_pos (by decide)]
  · have hlt := vector.isLt
    exact length_decimalText (by omega) (by omega)
  · have hlt := errorCode.isLt
    exact length_decimalText (by omega) (by omega)

end Platinum
