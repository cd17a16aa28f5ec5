import Bambinos.Infra.BitField
import Bambinos.Vm.Machine

/-!
# Instruction words

What `writeOpCode` writes, `execute` reads.

* `RawElement` — an `OpCodeElement` with any number for its instruction
* `RawElement.number` — the word that `writeOpCode` writes
* `RawElement.InRange` — the operands fit into the format of the instruction
* `decode_number` — the word is taken apart into the same opcode and operands
* `decode_writeOpCode` — so are the words of a file
* `OperandsFit` — the same of an instruction of the code generator
* `decode_word` — what the code generator meant is what is executed
-/

namespace Vm

open Infra Compiler

/-- An `OpCodeElement` as the source has it. -/
structure RawElement where
  instruction : Int
  a : Int
  b : Int
  c : Int
  extra : Int
deriving DecidableEq, Repr

/-- The word that a turn of the loop of `writeOpCode` writes. -/
def RawElement.number (e : RawElement) : Word :=
  let instruction : Word := BitVec.ofInt 32 e.instruction
  if e.instruction < highestFormat1 then
    let sign : Word := if e.c < 0 then 1 else 0
    let c : Word := BitVec.ofInt 32 (if e.c < 0 then 0 - e.c else e.c)
    (instruction <<< 26) + (BitVec.ofInt 32 e.a <<< 21) + (BitVec.ofInt 32 e.b <<< 16)
      + (sign <<< 15) + c
  else if e.instruction < highestFormat2 then
    (instruction <<< 26) + (BitVec.ofInt 32 e.a <<< 21) + (BitVec.ofInt 32 e.b <<< 16)
      + (BitVec.ofInt 32 e.extra <<< 5) + BitVec.ofInt 32 e.c
  else if e.instruction < highestFormat3 then
    if e.c < 0 then
      (instruction <<< 26) + ((1 : Word) <<< 25) + BitVec.ofInt 32 (0 - e.c)
    else
      (instruction <<< 26) + BitVec.ofInt 32 e.c
  else 0

/-- The number of a register. -/
def RegisterField (i : Int) : Prop := 0 ≤ i ∧ i ≤ 31

instance (i : Int) : Decidable (RegisterField i) := inferInstanceAs (Decidable (_ ∧ _))

/-- The operands fit into the format that the instruction selects. -/
inductive RawElement.InRange (e : RawElement) : Prop
  | format1 (hop : 0 ≤ e.instruction ∧ e.instruction ≤ 28) (ha : RegisterField e.a)
    (hb : RegisterField e.b) (hc : e.c.natAbs ≤ 32767)
  | format2 (hop : 30 ≤ e.instruction ∧ e.instruction ≤ 48) (ha : RegisterField e.a)
    (hb : RegisterField e.b) (hc : RegisterField e.c) (hextra : e.extra = 0)
  | format3 (hop : 50 ≤ e.instruction ∧ e.instruction ≤ 62) (hc : e.c.natAbs < 2 ^ 25)

/-- The opcode and the operands. In format 3 there is one operand only, the target. -/
def RawElement.operands (e : RawElement) : Fields :=
  if e.instruction ≤ highestFormat2 then
    { opCode := e.instruction.toNat, targetValue := e.a, firstSourceValue := e.b,
      secondSourceValue := e.c }
  else
    { opCode := e.instruction.toNat, targetValue := e.c, firstSourceValue := 0,
      secondSourceValue := 0 }

/-! ## the numbers -/

/-- The sign of an operand. -/
def signBit (c : Int) : Nat := if c < 0 then 1 else 0

theorem signBit_le (c : Int) : signBit c ≤ 1 := by
  unfold signBit
  split <;> decide

/-- Sign and magnitude. -/
theorem signed_eq {sign magnitude : Word} {c : Int}
    (hsign : sign.toNat = signBit c) (hmagnitude : magnitude.toNat = c.natAbs) :
    signed sign magnitude = c := by
  unfold signed
  unfold signBit at hsign
  by_cases h : c < 0
  · rw [if_pos h] at hsign
    rw [if_pos (BitVec.eq_of_toNat_eq hsign), hmagnitude]
    omega
  · rw [if_neg h] at hsign
    have hne : sign ≠ 1 := by
      intro heq
      rw [heq] at hsign
      cases hsign
    rw [if_neg hne, hmagnitude]
    omega

variable {e : RawElement}

theorem number_format1 (hop : 0 ≤ e.instruction ∧ e.instruction ≤ 28) (ha : RegisterField e.a)
    (hb : RegisterField e.b) (hc : e.c.natAbs ≤ 32767) :
    e.number.toNat = e.instruction.toNat * 2 ^ 26 + e.a.toNat * 2 ^ 21 + e.b.toNat * 2 ^ 16 +
      signBit e.c * 2 ^ 15 + e.c.natAbs := by
  obtain ⟨hop₀, hop₁⟩ := hop
  obtain ⟨ha₀, ha₁⟩ := ha
  obtain ⟨hb₀, hb₁⟩ := hb
  have hsign : ((if e.c < 0 then 1 else 0 : Word) <<< 15).toNat =
      signBit e.c * 2 ^ 15 := by
    unfold signBit
    split <;> rfl
  have hle := signBit_le e.c
  have hmagnitude : (BitVec.ofInt 32 (if e.c < 0 then 0 - e.c else e.c)).toNat = e.c.natAbs := by
    rw [toNat_low (by omega) (by omega)]
    omega
  unfold RawElement.number
  rw [if_pos (by unfold highestFormat1; omega)]
  refine toNat_add_of_lt (toNat_add_of_lt (toNat_add_of_lt (toNat_add_of_lt (toNat_place hop₀ ?_)
    (toNat_place ha₀ ?_) ?_) (toNat_place hb₀ ?_) ?_) hsign ?_) hmagnitude ?_
  all_goals omega

theorem number_format2 (hop : 30 ≤ e.instruction ∧ e.instruction ≤ 48) (ha : RegisterField e.a)
    (hb : RegisterField e.b) (hc : RegisterField e.c) (hextra : e.extra = 0) :
    e.number.toNat =
      e.instruction.toNat * 2 ^ 26 + e.a.toNat * 2 ^ 21 + e.b.toNat * 2 ^ 16 + e.c.toNat := by
  obtain ⟨hop₀, hop₁⟩ := hop
  obtain ⟨ha₀, ha₁⟩ := ha
  obtain ⟨hb₀, hb₁⟩ := hb
  obtain ⟨hc₀, hc₁⟩ := hc
  unfold RawElement.number
  rw [if_neg (by unfold highestFormat1; omega), if_pos (by unfold highestFormat2; omega), hextra]
  have hnone : (BitVec.ofInt 32 0 <<< 5 : Word) = 0 := by decide
  rw [hnone, add_zero]
  refine toNat_add_of_lt (toNat_add_of_lt (toNat_add_of_lt
    (toNat_place (by omega) ?_) (toNat_place ha₀ ?_) ?_) (toNat_place hb₀ ?_) ?_)
    (toNat_low hc₀ ?_) ?_
  all_goals omega

theorem number_format3 (hop : 50 ≤ e.instruction ∧ e.instruction ≤ 62) (hc : e.c.natAbs < 2 ^ 25) :
    e.number.toNat =
      e.instruction.toNat * 2 ^ 26 + signBit e.c * 2 ^ 25 + e.c.natAbs := by
  obtain ⟨hop₀, hop₁⟩ := hop
  unfold signBit
  unfold RawElement.number
  rw [if_neg (by unfold highestFormat1; omega), if_neg (by unfold highestFormat2; omega),
    if_pos (by unfold highestFormat3; omega)]
  by_cases h : e.c < 0
  · have hbit : ((1 : Word) <<< 25).toNat = 1 * 2 ^ 25 := rfl
    have hmagnitude : (BitVec.ofInt 32 (0 - e.c)).toNat = e.c.natAbs := by
      rw [toNat_low (by omega) (by omega)]
      omega
    rw [if_pos h, if_pos h]
    refine toNat_add_of_lt (toNat_add_of_lt (toNat_place (by omega) ?_) hbit ?_) hmagnitude ?_
    all_goals omega
  · have hmagnitude : (BitVec.ofInt 32 e.c).toNat = e.c.natAbs := by
      rw [toNat_low (by omega) (by omega)]
      omega
    rw [if_neg h, if_neg h, Nat.zero_mul, Nat.add_zero]
    refine toNat_add_of_lt (toNat_place (by omega) ?_) hmagnitude ?_
    all_goals omega

/-! ## taking a word apart -/

/-- The opcode of a word whose other fields are below it. -/
theorem opCode_eq {w : Word} {n : Nat} (hlo : n * 2 ^ 26 ≤ w.toNat)
    (hhi : w.toNat < (n + 1) * 2 ^ 26) : (w >>> 26).toNat = n := by
  rw [BitVec.toNat_ushiftRight, Nat.shiftRight_eq_div_pow]
  exact Nat.div_eq_of_lt_le hlo hhi

/--
**Round trip of an instruction.** Whatever fits into the format of its instruction is read as it was
written.
-/
theorem decode_number (h : e.InRange) : decode e.number = e.operands := by
  cases h with
  | format1 hop ha hb hc =>
    have hnumber := number_format1 hop ha hb hc
    have hle := signBit_le e.c
    obtain ⟨hop₀, hop₁⟩ := hop
    obtain ⟨ha₀, ha₁⟩ := ha
    obtain ⟨hb₀, hb₁⟩ := hb
    have hcode : (e.number >>> 26).toNat = e.instruction.toNat :=
      opCode_eq (by rw [hnumber]; omega) (by rw [hnumber]; omega)
    have htarget : (((e.number &&& 65011712) >>> 21).toNat : Int) = e.a := by
      rw [toNat_mask_shift (n := 5) _ _ (by decide), field_eq e.instruction.toNat e.a.toNat
        (e.b.toNat * 2 ^ 16 + signBit e.c * 2 ^ 15 + e.c.natAbs) (hnumber.trans (by omega))
        (by omega) (by omega)]
      omega
    have hfirst : (((e.number &&& 2031616) >>> 16).toNat : Int) = e.b := by
      rw [toNat_mask_shift (n := 5) _ _ (by decide), field_eq
        (e.instruction.toNat * 2 ^ 5 + e.a.toNat) e.b.toNat (signBit e.c * 2 ^ 15 + e.c.natAbs)
        (hnumber.trans (by omega)) (by omega) (by omega)]
      omega
    have hsign : ((e.number &&& 65535) >>> 15).toNat = signBit e.c := by
      have hlow : (e.number &&& 65535).toNat = signBit e.c * 2 ^ 15 + e.c.natAbs := by
        rw [toNat_mask (n := 16) _ _ (by decide)]
        exact field_eq (e.instruction.toNat * 2 ^ 10 + e.a.toNat * 2 ^ 5 + e.b.toNat) _ 0
          (hnumber.trans (by omega)) (by omega) (by decide)
      rw [BitVec.toNat_ushiftRight, hlow, Nat.shiftRight_eq_div_pow]
      omega
    have hmagnitude : (e.number &&& 32767).toNat = e.c.natAbs := by
      rw [toNat_mask (n := 15) _ _ (by decide)]
      exact field_eq (e.instruction.toNat * 2 ^ 11 + e.a.toNat * 2 ^ 6 + e.b.toNat * 2 + signBit e.c)
        _ 0 (hnumber.trans (by omega)) (by omega) (by decide)
    unfold decode RawElement.operands
    dsimp only
    rw [hcode, if_pos (by unfold highestFormat1; omega), if_pos (by unfold highestFormat2; omega),
      htarget, hfirst, signed_eq hsign hmagnitude]
  | format2 hop ha hb hc hextra =>
    have hnumber := number_format2 hop ha hb hc hextra
    obtain ⟨hop₀, hop₁⟩ := hop
    obtain ⟨ha₀, ha₁⟩ := ha
    obtain ⟨hb₀, hb₁⟩ := hb
    obtain ⟨hc₀, hc₁⟩ := hc
    have hcode : (e.number >>> 26).toNat = e.instruction.toNat :=
      opCode_eq (by rw [hnumber]; omega) (by rw [hnumber]; omega)
    have htarget : (((e.number &&& 65011712) >>> 21).toNat : Int) = e.a := by
      rw [toNat_mask_shift (n := 5) _ _ (by decide), field_eq e.instruction.toNat e.a.toNat
        (e.b.toNat * 2 ^ 16 + e.c.toNat) (hnumber.trans (by omega)) (by omega) (by omega)]
      omega
    have hfirst : (((e.number &&& 2031616) >>> 16).toNat : Int) = e.b := by
      rw [toNat_mask_shift (n := 5) _ _ (by decide), field_eq
        (e.instruction.toNat * 2 ^ 5 + e.a.toNat) e.b.toNat e.c.toNat (hnumber.trans (by omega))
        (by omega) (by omega)]
      omega
    have hsecond : ((e.number &&& 31).toNat : Int) = e.c := by
      rw [toNat_mask (n := 5) _ _ (by decide), field_eq
        (e.instruction.toNat * 2 ^ 21 + e.a.toNat * 2 ^ 16 + e.b.toNat * 2 ^ 11)
        e.c.toNat 0
        (hnumber.trans (by omega)) (by omega) (by decide)]
      omega
    unfold decode RawElement.operands
    dsimp only
    rw [hcode, if_neg (by unfold highestFormat1; omega), if_pos (by unfold highestFormat2; omega),
      if_pos (by unfold highestFormat2; omega), htarget, hfirst, hsecond]
  | format3 hop hc =>
    have hnumber := number_format3 hop hc
    have hle := signBit_le e.c
    obtain ⟨hop₀, hop₁⟩ := hop
    have hcode : (e.number >>> 26).toNat = e.instruction.toNat :=
      opCode_eq (by rw [hnumber]; omega) (by rw [hnumber]; omega)
    have hsign : ((e.number &&& 33554432) >>> 25).toNat = signBit e.c := by
      rw [toNat_mask_shift (n := 1) _ _ (by decide)]
      exact field_eq e.instruction.toNat _ e.c.natAbs (hnumber.trans (by omega)) (by omega) hc
    have hmagnitude : (e.number &&& 33554431).toNat = e.c.natAbs := by
      rw [toNat_mask (n := 25) _ _ (by decide)]
      exact field_eq (e.instruction.toNat * 2 + signBit e.c) _ 0 (hnumber.trans (by omega)) hc
        (by decide)
    unfold decode RawElement.operands
    dsimp only
    rw [hcode, if_neg (by unfold highestFormat1; omega), if_neg (by unfold highestFormat2; omega),
      if_neg (by unfold highestFormat2; omega), signed_eq hsign hmagnitude]

/-! ## output files -/

/-- The words that `writeOpCode` writes behind the header of a file. -/
def writeOpCode (opCode : List RawElement) : List Word := opCode.map RawElement.number

/-- **What `writeOpCode` writes, `execute` takes apart into what was written.** -/
theorem decode_writeOpCode {opCode : List RawElement} (h : ∀ e ∈ opCode, e.InRange) :
    (writeOpCode opCode).map decode = opCode.map RawElement.operands := by
  unfold writeOpCode
  rw [List.map_map]
  exact List.map_congr_left fun e he => decode_number (h e he)

/-- `ADDI R1, R0, -32767`, `CMP R1, R1, R2` and `BSR -7` -/
theorem decode_writeOpCode_signs :
    (writeOpCode [⟨0, 1, 0, -32767, 0⟩, ⟨35, 1, 1, 2, 0⟩, ⟨50, 0, 0, -7, 0⟩]).map decode =
      [⟨0, 1, 0, -32767⟩, ⟨35, 1, 1, 2⟩, ⟨50, -7, 0, 0⟩] := by
  refine (decode_writeOpCode ?_).trans (by decide)
  intro e he
  rcases List.mem_cons.mp he with rfl | he
  · exact .format1 (by decide) (by decide) (by decide) (by decide)
  · rcases List.mem_pair.mp he with rfl | rfl
    · exact .format2 (by decide) (by decide) (by decide) (by decide) rfl
    · exact .format3 (by decide) (by decide)

/-- An instruction of the code generator. -/
def raw (e : OpCodeElement) : RawElement :=
  { instruction := e.instruction.code, a := e.a, b := e.b, c := e.c, extra := e.extra }

theorem word_eq_number (e : OpCodeElement) : e.word = (raw e).number := by
  have hcode : e.instruction.code < highestFormat3 := by
    cases e.instruction <;> decide
  unfold OpCodeElement.word RawElement.number raw
  simp only [BitVec.ofInt_natCast, Int.ofNat_lt]
  by_cases h₁ : e.instruction.code < highestFormat1
  · rw [if_pos h₁, if_pos h₁]
  · rw [if_neg h₁, if_neg h₁]
    by_cases h₂ : e.instruction.code < highestFormat2
    · rw [if_pos h₂, if_pos h₂]
    · rw [if_neg h₂, if_neg h₂, if_pos hcode]

/-- The largest magnitude of the last operand in format 1. -/
def maxImmediate : Nat := 32767

/-- The operands of an instruction of the code generator fit into its format. -/
def OperandsFit (e : OpCodeElement) : Prop :=
  if e.instruction.code < highestFormat1 then
    RegisterField e.a ∧ RegisterField e.b ∧ e.c.natAbs ≤ maxImmediate
  else if e.instruction.code < highestFormat2 then
    RegisterField e.a ∧ RegisterField e.b ∧ RegisterField e.c ∧ e.extra = 0
  else e.c.natAbs < 2 ^ 25

instance (e : OpCodeElement) : Decidable (OperandsFit e) :=
  inferInstanceAs (Decidable (ite _ _ _))

theorem operandsFit_format1 {op : OpCode} {a b c : Int} (hop : op.code < highestFormat1)
    (ha : RegisterField a) (hb : RegisterField b) (hc : c.natAbs ≤ maxImmediate) :
    OperandsFit (.mk3 op a b c) := by
  unfold OperandsFit OpCodeElement.mk3
  rw [if_pos hop]
  exact ⟨ha, hb, hc⟩

theorem operandsFit_format2 {op : OpCode} {a b c : Int}
    (hop : ¬ op.code < highestFormat1 ∧ op.code < highestFormat2)
    (ha : RegisterField a) (hb : RegisterField b) (hc : RegisterField c) :
    OperandsFit (.mk3 op a b c) := by
  unfold OperandsFit OpCodeElement.mk3
  rw [if_neg hop.1, if_pos hop.2]
  exact ⟨ha, hb, hc, rfl⟩

theorem OperandsFit.inRange {e : OpCodeElement} (h : OperandsFit e) : (raw e).InRange := by
  unfold OperandsFit at h
  by_cases h₁ : e.instruction.code < highestFormat1
  · rw [if_pos h₁] at h
    refine .format1 ?_ h.1 h.2.1 h.2.2
    unfold highestFormat1 at h₁
    dsimp only [raw]
    omega
  · rw [if_neg h₁] at h
    have hgap : e.instruction.code ≠ 29 ∧ e.instruction.code ≠ 49 ∧ e.instruction.code ≤ 62 := by
      cases e.instruction <;> decide
    unfold highestFormat1 at h₁
    by_cases h₂ : e.instruction.code < highestFormat2
    · rw [if_pos h₂] at h
      refine .format2 ?_ h.1 h.2.1 h.2.2.1 h.2.2.2
      unfold highestFormat2 at h₂
      dsimp only [raw]
      omega
    · rw [if_neg h₂] at h
      refine .format3 ?_ h
      unfold highestFormat2 at h₂
      dsimp only [raw]
      omega

/-- **What the code generator meant is what is executed**, if the operands fit. -/
theorem decode_word {e : OpCodeElement} (h : OperandsFit e) : decode e.word = fields e := by
  rw [word_eq_number, decode_number h.inRange]
  unfold RawElement.operands raw fields
  simp only [Int.ofNat_le, Int.toNat_natCast]

end Vm
