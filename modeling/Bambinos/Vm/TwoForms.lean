import Bambinos.Vm.Instructions
import Mathlib

/-!
# Registers and immediates

Twelve operations exist twice: the second operand is in a register, or it stands in the instruction.

* `TwoForms` — the operations, with their instructions
* `binary_eq`, `divided_eq` — ten of them make no difference between the forms
* `lsh_agrees`, `ash_agrees` — the shifts ask for the sign of the distance, which the register form
  takes of the number of the register
* `forms_agree_iff` — exactly when both forms do the same
-/

namespace Vm

open Infra Compiler

variable {ι : Type}

/-! ## the operations -/

/-- The operations with a register and with an immediate operand. -/
inductive TwoForms where
  | add | sub | mul | div | mod | cmp | and | bic | or | xor | lsh | ash
deriving DecidableEq, Repr

namespace TwoForms

/-- The instruction with a register. -/
def register : TwoForms → OpCode
  | add => .add | sub => .sub | mul => .mul | div => .div | mod => .mod | cmp => .cmp
  | and => .and | bic => .bic | or => .or | xor => .xor | lsh => .lsh | ash => .ash

/-- The instruction with an immediate. -/
def immediate : TwoForms → OpCode
  | add => .addi | sub => .subi | mul => .muli | div => .divi | mod => .modi | cmp => .cmpi
  | and => .andi | bic => .bici | or => .ori | xor => .xori | lsh => .lshi | ash => .ashi

def registerForm (op : TwoForms) (r0 r1 r2 : Int) : Fields :=
  { opCode := op.register.code, targetValue := r0, firstSourceValue := r1, secondSourceValue := r2 }

def immediateForm (op : TwoForms) (r0 r1 v : Int) : Fields :=
  { opCode := op.immediate.code, targetValue := r0, firstSourceValue := r1, secondSourceValue := v }

/--
When both forms do the same. A left operand that is not negative is shifted to the same value by
both shifts, and an arithmetic shift that is left out is not missed when its result is there.
-/
def Agrees (op : TwoForms) (s : State ι) (r0 r1 r2 : Int) (v : Word) : Prop :=
  match op with
  | lsh => (0 < r2 ↔ 0 < v.toInt) ∨ shiftDistance v = 0 ∨ ∀ x, s.reg r1 = some x → 0 ≤ x.toInt
  | ash => (0 < r2 ↔ 0 < v.toInt) ∨
      ∃ x, s.reg r1 = some x ∧ s.reg r0 = some (x.sshiftRight (shiftDistance v))
  | _ => True

end TwoForms

/-! ## operands -/

section Operands

variable {s : State ι} {r0 r1 r2 : Int} {v x y : Word}

theorem imm_toInt (v : Word) : imm v.toInt = v := BitVec.ofInt_toInt

/-- A register is read, or the machine stops where it was. -/
theorem register_cases (h1 : IsRegister r1) : (∃ x, s.reg r1 = some x ∧ register r1 s = .ok x s) ∨
    s.reg r1 = none ∧ register r1 s = .error .nullPointer s := by
  cases hx : s.reg r1 with
  | some x => exact .inl ⟨x, rfl, register_run h1 hx⟩
  | none =>
    refine .inr ⟨rfl, ?_⟩
    unfold register
    rw [bind_ok (getRegister_run h1), hx]
    rfl

/-- An operation that only computes does not see where its operand is from. -/
theorem binary_eq (f : Word → Word → Word) (h1 : IsRegister r1) (h2 : register r2 s = .ok v s) :
    (do setRegister r0 (some (f (← register r1) (← register r2))) : M ι Unit) s =
      (do setRegister r0 (some (f (← register r1) (imm v.toInt))) : M ι Unit) s := by
  rcases @register_cases _ s _ h1 with ⟨x, -, hx⟩ | ⟨-, hx⟩
  · rw [bind_ok hx, bind_ok hx, bind_ok h2, imm_toInt]
  · rw [bind_error hx, bind_error hx]

/-- The guard against a zero asks for the same value in both forms. -/
theorem divided_eq (f : Word → Word → Word) (message : Printed) (h1 : IsRegister r1)
    (h2 : register r2 s = .ok v s) :
    (do
      if (← register r2) = 0 then print message
      else setRegister r0 (some (f (← register r1) (← register r2))) : M ι Unit) s =
    (do
      if v.toInt = 0 then print message
      else setRegister r0 (some (f (← register r1) (imm v.toInt))) : M ι Unit) s := by
  have hzero : v = 0 ↔ v.toInt = 0 := (BitVec.toInt_inj (y := 0#32)).symm
  rw [bind_ok h2]
  by_cases h : v = 0
  · rw [if_pos h, if_pos (hzero.mp h)]
  · rw [if_neg h, if_neg fun hv => h (hzero.mpr hv)]
    exact binary_eq f h1 h2

/-! ## shifts -/

theorem shiftDistance_lt (n : Word) : shiftDistance n < 32 := Nat.mod_lt _ (by decide)

/-- Both shifts give the same unless a sign is shifted. -/
theorem shifts_eq_iff {d : Nat} (hd : d < 32) :
    x >>> d = x.sshiftRight d ↔ d = 0 ∨ 0 ≤ x.toInt := by
  have hsign : 0 ≤ x.toInt ↔ x.msb = false := by
    rw [← Bool.not_eq_true, BitVec.msb_eq_toInt, decide_eq_true_eq]
    omega
  rw [hsign]
  constructor
  · intro h
    by_contra hne
    obtain ⟨hpos, hneg⟩ := not_or.mp hne
    have hmsb := congrArg BitVec.msb h
    rw [BitVec.msb_sshiftRight, BitVec.msb_ushiftRight] at hmsb
    simp_all
  · rintro (rfl | h)
    · rw [BitVec.ushiftRight_zero, BitVec.sshiftRight_zero]
    · exact (BitVec.sshiftRight_eq_of_msb_false h).symm

theorem setReg_inj {a b : Option Word} : s.setReg r0 a = s.setReg r0 b ↔ a = b := by
  constructor
  · intro h
    have hreg := congrArg (fun s => s.reg r0) h
    rwa [State.reg_setReg_self, State.reg_setReg_self] at hreg
  · rintro rfl
    rfl

theorem setReg_eq_self {a : Option Word} : s.setReg r0 a = s ↔ s.reg r0 = a := by
  constructor
  · intro h
    rw [← h, State.reg_setReg_self]
  · rintro rfl
    unfold State.setReg State.reg
    rw [Function.update_eq_self]

theorem ok_inj {s' : State ι} :
    (EStateM.Result.ok () s : EStateM.Result Throwable (State ι) Unit) = .ok () s' ↔ s = s' := by
  constructor
  · intro h
    injection h
  · rintro rfl
    rfl

/-- What a logical shift does, its distance and its sign given. -/
def shiftLogical (r0 r1 : Int) (right : Prop) [Decidable right] (distance : Nat) : M ι Unit := do
  if right then
    setRegister r0 (some ((← register r1) >>> distance))
  else
    setRegister r0 (some ((← register r1).sshiftRight distance))

theorem shiftLogical_run {right : Prop} [Decidable right] {d : Nat} (h0 : IsRegister r0)
    (hx : register r1 s = .ok x s) : shiftLogical r0 r1 right d s =
      .ok () (s.setReg r0 (some (if right then x >>> d else x.sshiftRight d))) := by
  unfold shiftLogical
  by_cases h : right
  · rw [if_pos h, if_pos h, bind_ok hx, setRegister_run h0]
  · rw [if_neg h, if_neg h, bind_ok hx, setRegister_run h0]

/-- Which of the shifts is taken does not matter when they give the same. -/
theorem shiftLogical_iff {p q : Prop} [Decidable p] [Decidable q] {d : Nat} (hd : d < 32)
    (h0 : IsRegister r0) (h1 : IsRegister r1) :
    shiftLogical r0 r1 p d s = shiftLogical r0 r1 q d s ↔
      (p ↔ q) ∨ d = 0 ∨ ∀ x, s.reg r1 = some x → 0 ≤ x.toInt := by
  rcases @register_cases _ s _ h1 with ⟨x, hreg, hx⟩ | ⟨hreg, hx⟩
  · have hall : (∀ y, s.reg r1 = some y → 0 ≤ y.toInt) ↔ 0 ≤ x.toInt := by
      rw [hreg]
      exact ⟨fun h => h x rfl, fun h y hy => Option.some.inj hy ▸ h⟩
    rw [shiftLogical_run h0 hx, shiftLogical_run h0 hx, ok_inj, setReg_inj, Option.some.injEq, hall,
      ← shifts_eq_iff hd]
    by_cases hp : p <;> by_cases hq : q
    · simp [hp, hq]
    · simp [hp, hq]
    · simp [hp, hq, eq_comm]
    · simp [hp, hq]
  · have herror : ∀ (right : Prop) [Decidable right],
        (shiftLogical r0 r1 right d : M ι Unit) s = .error .nullPointer s := by
      intro right _
      unfold shiftLogical
      by_cases h : right
      · rw [if_pos h, bind_error hx]
      · rw [if_neg h, bind_error hx]
    rw [herror, herror]
    refine iff_of_true rfl (.inr (.inr fun y hy => ?_))
    rw [hreg] at hy
    cases hy

/-- What an arithmetic shift does, its distance and its sign given. -/
def shiftArithmetic (r0 r1 : Int) (right : Prop) [Decidable right] (distance : Nat) : M ι Unit := do
  if right then
    setRegister r0 (some ((← register r1).sshiftRight distance))

/-- A shift that is left out is the same as a shift whose result is there already. -/
theorem shiftArithmetic_iff {p q : Prop} [Decidable p] [Decidable q] {d : Nat}
    (h0 : IsRegister r0) (h1 : IsRegister r1) :
    shiftArithmetic r0 r1 p d s = shiftArithmetic r0 r1 q d s ↔
      (p ↔ q) ∨ ∃ x, s.reg r1 = some x ∧ s.reg r0 = some (x.sshiftRight d) := by
  have hleft : ∀ {right : Prop} [Decidable right], ¬ right →
      (shiftArithmetic r0 r1 right d : M ι Unit) s = .ok () s := by
    intro right _ h
    unfold shiftArithmetic
    rw [if_neg h]
    rfl
  have hdone : ∀ {right : Prop} [Decidable right], right →
      ((shiftArithmetic r0 r1 right d : M ι Unit) s = .ok () s ↔
        ∃ x, s.reg r1 = some x ∧ s.reg r0 = some (x.sshiftRight d)) := by
    intro right _ h
    unfold shiftArithmetic
    rw [if_pos h]
    rcases @register_cases _ s _ h1 with ⟨x, hreg, hx⟩ | ⟨hreg, hx⟩
    · rw [bind_ok hx, setRegister_run h0, ok_inj, setReg_eq_self]
      constructor
      · exact fun heq => ⟨x, hreg, heq⟩
      · rintro ⟨y, hy, heq⟩
        rwa [Option.some.inj (hreg.symm.trans hy)]
    · rw [bind_error hx]
      constructor
      · intro h
        cases h
      · rintro ⟨y, hy, -⟩
        rw [hreg] at hy
        cases hy
  by_cases hp : p
  · by_cases hq : q
    · refine iff_of_true ?_ (.inl (iff_of_true hp hq))
      unfold shiftArithmetic
      rw [if_pos hp, if_pos hq]
    · rw [hleft hq, hdone hp]
      exact ⟨.inr, fun h => h.resolve_left fun hiff => hq (hiff.mp hp)⟩
  · by_cases hq : q
    · rw [hleft hp, eq_comm, hdone hq]
      exact ⟨.inr, fun h => h.resolve_left fun hiff => hp (hiff.mpr hq)⟩
    · rw [hleft hp, hleft hq]
      exact iff_of_true rfl (.inl (iff_of_false hp hq))

theorem lsh_agrees (h0 : IsRegister r0) (h1 : IsRegister r1) (h2 : register r2 s = .ok v s) :
    executeLSH r0 r1 r2 s = executeLSHI r0 r1 v.toInt s ↔ TwoForms.lsh.Agrees s r0 r1 r2 v := by
  have hregister : executeLSH r0 r1 r2 s = shiftLogical r0 r1 (0 < r2) (shiftDistance v) s := by
    unfold executeLSH
    rw [bind_ok h2]
    rfl
  have himmediate : executeLSHI r0 r1 v.toInt s =
      shiftLogical r0 r1 (0 < v.toInt) (shiftDistance v) s := by
    unfold executeLSHI
    rw [imm_toInt]
    rfl
  rw [hregister, himmediate]
  exact shiftLogical_iff (shiftDistance_lt v) h0 h1

theorem ash_agrees (h0 : IsRegister r0) (h1 : IsRegister r1) (h2 : register r2 s = .ok v s) :
    executeASH r0 r1 r2 s = executeASHI r0 r1 v.toInt s ↔ TwoForms.ash.Agrees s r0 r1 r2 v := by
  have hregister : executeASH r0 r1 r2 s = shiftArithmetic r0 r1 (0 < r2) (shiftDistance v) s := by
    unfold executeASH shiftArithmetic
    by_cases h : 0 < r2
    · rw [if_pos h, if_pos h]
      rcases @register_cases _ s _ h1 with ⟨x, -, hx⟩ | ⟨-, hx⟩
      · rw [bind_ok hx, bind_ok hx, bind_ok h2]
      · rw [bind_error hx, bind_error hx]
    · rw [if_neg h, if_neg h]
  have himmediate : executeASHI r0 r1 v.toInt s =
      shiftArithmetic r0 r1 (0 < v.toInt) (shiftDistance v) s := by
    unfold executeASHI
    rw [imm_toInt]
    rfl
  rw [hregister, himmediate]
  exact shiftArithmetic_iff h0 h1

end Operands

/-! ## both forms -/

/--
**Both forms** of an operation do the same exactly when the shifts do: the register form of a shift
takes the number of the register for the distance when it asks for the sign.
-/
theorem forms_agree_iff (op : TwoForms) (s : State ι) {r0 r1 r2 : Int} {v : Word}
    (h0 : IsRegister r0) (h1 : IsRegister r1) (h2 : IsRegister r2) (hv : s.reg r2 = some v) :
    dispatch (op.registerForm r0 r1 r2) s = dispatch (op.immediateForm r0 r1 v.toInt) s ↔
      op.Agrees s r0 r1 r2 v := by
  have hread : register r2 s = .ok v s := register_run h2 hv
  have hbinary := fun f => @binary_eq _ s r0 r1 r2 v f h1 hread
  have hdivided := fun f => @divided_eq _ s r0 r1 r2 v f (.message "Division by 0") h1 hread
  cases op with
  | add => exact iff_of_true (hbinary (· + ·)) trivial
  | sub | cmp => exact iff_of_true (hbinary (· - ·)) trivial
  | mul => exact iff_of_true (hbinary (· * ·)) trivial
  | div => exact iff_of_true (hdivided BitVec.sdiv) trivial
  | mod => exact iff_of_true (hdivided BitVec.srem) trivial
  | and => exact iff_of_true (hbinary (· &&& ·)) trivial
  | bic => exact iff_of_true (hbinary fun x y => x &&& ~~~y) trivial
  | or => exact iff_of_true (hbinary (· ||| ·)) trivial
  | xor => exact iff_of_true (hbinary (· ^^^ ·)) trivial
  | lsh => exact lsh_agrees h0 h1 hread
  | ash => exact ash_agrees h0 h1 hread

/-- -8 in register 1, and 2 in register 2. -/
def shifted : State OpCodeElement :=
  ((init []).setReg 1 (some (-8))).setReg 2 (some 2)

/-- Both shifts of the negative value to the left. -/
theorem forms_agree_shifts :
    dispatch (TwoForms.lsh.registerForm 3 1 2) shifted =
      dispatch (TwoForms.lsh.immediateForm 3 1 (2 : Word).toInt) shifted ∧
    dispatch (TwoForms.ash.registerForm 3 1 2) shifted =
      dispatch (TwoForms.ash.immediateForm 3 1 (2 : Word).toInt) shifted :=
  ⟨(forms_agree_iff .lsh shifted (by decide) (by decide) (by decide) rfl).mpr (Or.inl (by decide)),
    (forms_agree_iff .ash shifted (by decide) (by decide) (by decide) rfl).mpr
      (Or.inl (by decide))⟩

/-! ## a negative distance -/

/-- -2 in register 1, and -1 in register 2. -/
def negative : State OpCodeElement :=
  ((init []).setReg 1 (some (-2))).setReg 2 (some (-1))

/-- `LSH` of register 2 shifts a sign that `LSHI` of -1 keeps. -/
theorem lsh_differs : ¬ ∀ (op : TwoForms) (s : State OpCodeElement) (r0 r1 r2 : Int) (v : Word),
    IsRegister r0 → IsRegister r1 → IsRegister r2 → s.reg r2 = some v →
      dispatch (op.registerForm r0 r1 r2) s = dispatch (op.immediateForm r0 r1 v.toInt) s := by
  intro h
  have hread : register 2 negative = .ok (-1) negative := register_run (by decide) rfl
  have hsame := h .lsh negative 0 1 2 (-1) (by decide) (by decide) (by decide) rfl
  rcases (lsh_agrees (by decide) (by decide) hread).mp hsame with hsign | hzero | hpos
  · exact absurd (hsign.mp (by decide)) (by decide)
  · exact absurd hzero (by decide)
  · exact absurd (hpos (-2) rfl) (by decide)

end Vm
