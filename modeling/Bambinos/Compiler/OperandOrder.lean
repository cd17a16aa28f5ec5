import Bambinos.Compiler.OperationCode
import Bambinos.Vm.Straight

/-!
# The order of the operands

What the code of an operation leaves in its register, when the machine executes it.

* `Operands` — the operands are where the code looks for them
* `Swapped` — the code takes the second operand for the first one
* `operationCode_leaves` — the value that the code leaves
* `operation_ok_iff` — it is that of the operation, unless the operands are swapped
* `constant_divided` — `10 / x` is executed as `x / 10`
-/

namespace Compiler

open Infra Vm

/-! ## values -/

/-- The value of an operation. -/
def Operation.value : Operation → Word → Word → Word
  | add, x, y => x + y
  | sub, x, y => x - y
  | mul, x, y => x * y
  | div, x, y => x.sdiv y
  | mod, x, y => x.srem y

/-- What an instruction leaves in the register of its first operand: nothing is divided by 0. -/
def Operation.left (kind : Operation) (x y : Word) : Word :=
  if kind.Divides ∧ y = 0 then x else kind.value x y

theorem Operation.left_eq {kind : Operation} {x y : Word} (h : kind.Divides → y ≠ 0) :
    kind.left x y = kind.value x y :=
  if_neg fun hzero => h hzero.1 hzero.2

/-- The constant can be an operand of an instruction. -/
def Encodable (val : Int) : Prop := -32767 ≤ val ∧ val ≤ 32767

instance (val : Int) : Decidable (Encodable val) := inferInstanceAs (Decidable (_ ∧ _))

theorem Encodable.int {val : Int} (h : Encodable val) : -2147483648 ≤ val ∧ val < 2147483648 :=
  ⟨by linarith only [h.1], by linarith only [h.2]⟩

theorem imm_eq_zero {val : Int} (h : Encodable val) : imm val = 0 ↔ val = 0 := by
  constructor
  · intro hzero
    rw [← toInt_imm h.int, hzero]
    rfl
  · rintro rfl
    rfl

theorem imm_int32 (n : Int) : imm (int32 n) = BitVec.ofInt 32 n := by
  refine BitVec.eq_of_toInt_eq ?_
  rw [imm, BitVec.toInt_ofInt, BitVec.toInt_ofInt, int32, Int.bmod_bmod]

/-- Constants are folded to the value of the operation. -/
theorem imm_foldValue {kind : Operation} {a b : Int} (ha : -2147483648 ≤ a ∧ a < 2147483648)
    (hb : -2147483648 ≤ b ∧ b < 2147483648) :
    imm (foldValue kind a b) = kind.value (imm a) (imm b) := by
  have ha' := toInt_imm ha
  have hb' := toInt_imm hb
  refine BitVec.eq_of_toInt_eq ?_
  cases kind with
  | add => simp [foldValue, imm_int32, Operation.value, BitVec.toInt_add, ha', hb']
  | sub => simp [foldValue, imm_int32, Operation.value, BitVec.toInt_sub, ha', hb']
  | mul => simp [foldValue, imm_int32, Operation.value, BitVec.toInt_mul, ha', hb']
  | div => simp [foldValue, imm_int32, Operation.value, BitVec.toInt_sdiv, ha', hb']
  | mod =>
    have hrem := (imm a).toInt_srem (imm b)
    rw [ha', hb'] at hrem
    rw [foldValue, imm_int32, Operation.value, ← hrem, BitVec.ofInt_toInt]

/-- The value of constants is an `int`. -/
theorem foldValue_int (kind : Operation) (a b : Int) :
    -2147483648 ≤ foldValue kind a b ∧ foldValue kind a b < 2147483648 := by
  cases kind <;> exact int32_range _

/-! ## single instructions -/

section Instructions

variable {ι : Type} {kind : Operation} {s : State ι} {r r' : Int} {x y : Word} {val : Int}

theorem looks_self (h : s.reg r = some x) : Looks (s.setReg r (some x)) s := by
  refine ⟨?_, rfl⟩
  rw [State.setReg, ← h]
  exact (Function.update_eq_self ..).symm

/-- What an instruction of arithmetic does, when `c` says that it divides by 0. -/
theorem looks_left {c : Prop} [Decidable c] {m : M ι Unit} {p : Printed}
    (hc : c ↔ kind.Divides ∧ y = 0) (hx : s.reg r = some x)
    (hm : m s = if c then print p s else .ok () (s.setReg r (some (kind.value x y)))) :
    ∃ s', m s = .ok () s' ∧ Looks (s.setReg r (some (kind.left x y))) s' := by
  by_cases h : c
  · rw [if_pos h] at hm
    rw [Operation.left, if_pos (hc.mp h)]
    obtain ⟨hregisters, hmemory⟩ := looks_self hx
    exact ⟨_, hm, hregisters, hmemory⟩
  · rw [if_neg h] at hm
    rw [Operation.left, if_neg fun hzero => h (hc.mpr hzero)]
    exact ⟨_, hm, rfl, rfl⟩

/-- An operation on two registers. -/
theorem instruction_run (hr : IsRegister r) (hr' : IsRegister r') (hx : s.reg r = some x)
    (hy : s.reg r' = some y) : ∃ s', dispatch (fields (.mk3 kind.instruction r r r')) s =
      .ok () s' ∧ Looks (s.setReg r (some (kind.left x y))) s' := by
  refine @looks_left ι kind s r x y _ _ _ (.message "Division by 0") Iff.rfl hx ?_
  cases kind with
  | add => exact executeADD_run hr hr hr' hx hy
  | sub => exact executeSUB_run hr hr hr' hx hy
  | mul =>
    show executeMUL r r r' s = _
    unfold executeMUL
    rw [bind_ok (register_run hr hx), bind_ok (register_run hr' hy), setRegister_run hr]
    rfl
  | div =>
    show executeDIV r r r' s = _
    unfold executeDIV
    rw [bind_ok (register_run hr' hy)]
    by_cases hzero : y = 0
    · simp [hzero, Operation.Divides]
    · rw [if_neg hzero, if_neg fun h => hzero h.2]
      rw [bind_ok (register_run hr hx), bind_ok (register_run hr' hy), setRegister_run hr]
      rfl
  | mod =>
    show executeMOD r r r' s = _
    unfold executeMOD
    rw [bind_ok (register_run hr' hy)]
    by_cases hzero : y = 0
    · simp [hzero, Operation.Divides]
    · rw [if_neg hzero, if_neg fun h => hzero h.2]
      rw [bind_ok (register_run hr hx), bind_ok (register_run hr' hy), setRegister_run hr]
      rfl

/-- An operation on a register and a constant. -/
theorem immediate_run (hr : IsRegister r) (hx : s.reg r = some x) (hval : Encodable val) :
    ∃ s', dispatch (fields (.mk3 kind.immediate r r val)) s = .ok () s' ∧
      Looks (s.setReg r (some (kind.left x (imm val)))) s' := by
  refine @looks_left ι kind s r x (imm val) (kind.Divides ∧ val = 0) _ _ (.message "Division by 0")
    (and_congr_right fun _ => (imm_eq_zero hval).symm) hx ?_
  cases kind with
  | add => exact executeADDI_run hr hr hx
  | sub =>
    show executeSUBI r r val s = _
    unfold executeSUBI
    rw [bind_ok (register_run hr hx), setRegister_run hr]
    rfl
  | mul =>
    show executeMULI r r val s = _
    unfold executeMULI
    rw [bind_ok (register_run hr hx), setRegister_run hr]
    rfl
  | div =>
    show executeDIVI r r val s = _
    unfold executeDIVI
    by_cases hzero : val = 0
    · simp [hzero, Operation.Divides]
    · rw [if_neg hzero, if_neg fun h => hzero h.2]
      rw [bind_ok (register_run hr hx), setRegister_run hr]
      rfl
  | mod =>
    show executeMODI r r val s = _
    unfold executeMODI
    by_cases hzero : val = 0
    · simp [hzero, Operation.Divides]
    · rw [if_neg hzero, if_neg fun h => hzero h.2]
      rw [bind_ok (register_run hr hx), setRegister_run hr]
      rfl

end Instructions

/-! ## where the operands are -/

section Operands

variable {ι : Type} {kind : Operation} {s s' : State ι} {p₁ p₂ : Place} {r top val : Int}
  {x y v : Word} {cell : SymbolTableCell}

/-- The machine has the value of an operand; `reg` is the register of a value in a register. -/
def Place.Holds (s : State ι) (reg : Int) (v : Word) : Place → Prop
  | memory cell => ∃ base, s.reg (CodeGenerator.address cell).1 = some base ∧
      IsAddress (base + imm (CodeGenerator.address cell).2) ∧
      s.mem (base + imm (CodeGenerator.address cell).2) = some v
  | immediate val => Encodable val ∧ v = imm val
  | register => s.reg reg = some v

/-- The highest register that the code uses. -/
def highestReg (top : Int) : Place → Place → Int
  | .memory _, .memory _ => top + 2
  | .memory _, _ | _, .memory _ | .immediate _, .immediate _ => top + 1
  | _, _ => top

/-- The machine in front of the code, with the values `x` and `y` of the operands. -/
structure Operands (p₁ p₂ : Place) (top : Int) (x y : Word) (s : State ι) : Prop where
  zero : s.reg 0 = some 0
  left : p₁.Holds s (top - p₂.registers) x
  right : p₂.Holds s top y
  /-- Register 0 is not used. -/
  low : p₁.registers + p₂.registers ≤ top
  high : highestReg top p₁ p₂ < registerCount
  /-- The first variable is not loaded over the base of the second one. -/
  apart : ∀ c₁ c₂, p₁ = .memory c₁ → p₂ = .memory c₂ → (CodeGenerator.address c₂).1 ≠ top + 1

theorem address_register (cell : SymbolTableCell) :
    IsRegister (CodeGenerator.address cell).1 := by
  unfold CodeGenerator.address
  split
  · exact (by decide : IsRegister heap)
  · exact (by decide : IsRegister fp)

theorem isRegister_of_le (hlow : 0 ≤ r) (hhigh : r < registerCount) : IsRegister r :=
  ⟨hlow, hhigh⟩

/-- A variable is loaded. -/
theorem memory_run (hr : IsRegister r) (h : (Place.memory cell).Holds s top v) :
    dispatch (fields (loadCode r cell)) s = .ok () (s.setReg r (some v)) := by
  obtain ⟨base, hbase, haddress, hv⟩ := h
  have hrun := executeLDW_run hr (address_register cell) hbase haddress
  rw [hv] at hrun
  exact hrun

/-- A load changes one register. -/
theorem reg_of_ne (hr : 0 ≤ r) {i : Int} (hi : 0 ≤ i) (hne : i ≠ r) (w : Option Word) :
    (s.setReg r w).reg i = s.reg i := by
  rw [State.reg_setReg hr hi, if_neg hne]

theorem executeAll_last {e : OpCodeElement} (h : dispatch (fields e) s = .ok () s') :
    executeAll [e] s = .ok () s' := by
  rw [executeAll_cons h]
  rfl

/-! ## what the code leaves -/

/-- The code takes the second operand for the first one, and that matters. -/
def Swapped (kind : Operation) : Place → Place → Prop
  | .memory _, .register => kind = .sub ∨ kind.Divides
  | .immediate _, .register | .immediate _, .memory _ => kind.Divides
  | _, _ => False

instance (kind : Operation) (p₁ p₂ : Place) : Decidable (Swapped kind p₁ p₂) :=
  match p₁, p₂ with
  | .memory _, .register => inferInstanceAs (Decidable (_ ∨ _))
  | .immediate _, .register | .immediate _, .memory _ => inferInstanceAs (Decidable kind.Divides)
  | .register, .register | .register, .immediate _ | .register, .memory _
  | .memory _, .immediate _ | .memory _, .memory _ | .immediate _, .immediate _ =>
    inferInstanceAs (Decidable False)

/-- The value that is found in the register. -/
def found (kind : Operation) (p₁ p₂ : Place) (x y : Word) : Word :=
  if Swapped kind p₁ p₂ then kind.left y x else kind.value x y

/-- The value that the code leaves: an instruction that divides by 0 leaves its operand. -/
def leaves (kind : Operation) (p₁ p₂ : Place) (x y : Word) : Word :=
  if Swapped kind p₁ p₂ then kind.left y x else kind.left x y

theorem leaves_eq_found (h : kind.Divides → y ≠ 0) : leaves kind p₁ p₂ x y = found kind p₁ p₂ x y := by
  unfold leaves found
  rw [Operation.left_eq h]

theorem Operation.value_comm (hsub : kind ≠ .sub) (hdiv : ¬ kind.Divides) :
    kind.value y x = kind.value x y := by
  cases kind with
  | add => exact add_comm y x
  | mul => exact mul_comm y x
  | sub => exact absurd rfl hsub
  | div | mod => exact absurd (by decide) hdiv

theorem Operation.left_of_not_divides (hdiv : ¬ kind.Divides) : kind.left y x = kind.value y x :=
  if_neg fun h => hdiv h.1

/-- A constant and the value of a register. -/
theorem constantFirst_run (hr : IsRegister r) (hzero : s.reg 0 = some 0)
    (hy : s.reg r = some y) (hval : Encodable val) :
    ∃ s', executeAll (constantFirst kind r val) s = .ok () s' ∧
      s'.reg r = some (if kind.Divides then kind.left y (imm val) else kind.value (imm val) y) := by
  unfold constantFirst
  by_cases hsub : kind = .sub
  · -- the register is negated first
    subst hsub
    have hneg : dispatch (fields (.mk3 .sub r 0 r)) s = .ok () (s.setReg r (some (0 - y))) :=
      executeSUB_run hr (by decide : IsRegister 0) hr hzero hy
    have hadd : dispatch (fields (.mk3 .addi r r val)) (s.setReg r (some (0 - y))) =
        .ok () ((s.setReg r (some (0 - y))).setReg r (some (0 - y + imm val))) :=
      executeADDI_run hr hr State.reg_setReg_self
    refine ⟨_, (executeAll_cons hneg).trans (executeAll_last hadd), ?_⟩
    rw [State.reg_setReg_self, if_neg (by decide)]
    show some (0 - y + imm val) = some (imm val - y)
    rw [zero_sub, neg_add_eq_sub]
  · rw [if_neg hsub]
    obtain ⟨s', hrun, hlooks⟩ := @immediate_run ι kind s r y val hr hy hval
    refine ⟨s', executeAll_last hrun, ?_⟩
    rw [hlooks.reg, State.reg_setReg_self]
    by_cases hdiv : kind.Divides
    · rw [if_pos hdiv]
    · rw [if_neg hdiv, Operation.left_of_not_divides hdiv, Operation.value_comm hsub hdiv]

/-- With a variable and a register, they change places. -/
theorem left_eq_leaves : kind.left y x = leaves kind (.memory cell) .register x y := by
  unfold leaves
  by_cases h : kind = .sub ∨ kind.Divides
  · exact (if_pos h).symm
  · obtain ⟨hsub, hdiv⟩ := not_or.mp h
    rw [if_neg (by exact h), Operation.left_of_not_divides hdiv, Operation.left_of_not_divides hdiv,
      Operation.value_comm hsub hdiv]

/-- A constant is exchanged for a division only. -/
theorem constant_leaves {a : Int} {p : Place} (hp : ∀ b, p ≠ .immediate b) :
    (if kind.Divides then kind.left y x else kind.value x y) = leaves kind (.immediate a) p x y := by
  have hswapped : Swapped kind (.immediate a) p ↔ kind.Divides := by
    cases p with
    | immediate b => exact absurd rfl (hp b)
    | register | memory => exact Iff.rfl
  unfold leaves
  by_cases h : kind.Divides
  · rw [if_pos h, if_pos (hswapped.mpr h)]
  · rw [if_neg h, if_neg fun hs => h (hswapped.mp hs), Operation.left_of_not_divides h]

theorem resultReg_none (h : p₁.registers + p₂.registers = 0) :
    resultReg top p₁ p₂ = top + 1 := by
  unfold resultReg
  omega

theorem resultReg_one (h : p₁.registers + p₂.registers = 1) : resultReg top p₁ p₂ = top := by
  unfold resultReg
  omega

/-- **What the code of an operation leaves**, unless a constant is divided by the constant 0. -/
theorem operationCode_leaves (h : Operands p₁ p₂ top x y s)
    (hdiv : ∀ a b, p₁ = .immediate a → p₂ = .immediate b → kind.Divides → y ≠ 0) :
    ∃ s', executeAll (operationCode kind top p₁ p₂) s = .ok () s' ∧
      s'.reg (resultReg top p₁ p₂) = some (leaves kind p₁ p₂ x y) := by
  obtain ⟨hzero, hx, hy, hlow, hhigh, hapart⟩ := h
  -- nine cases, one for each pair of places that the source tells apart
  cases p₁ with
  | register =>
    cases p₂ with
    | register =>
      simp only [Place.registers, highestReg] at hlow hhigh hx hy
      obtain ⟨s', hrun, hlooks⟩ := @instruction_run ι kind s (top - 1) top x y
        (isRegister_of_le (by omega) (by omega)) (isRegister_of_le (by omega) hhigh) hx hy
      refine ⟨s', executeAll_last hrun, ?_⟩
      have hreg : resultReg top .register .register = top - 1 := by
        simp [resultReg, Place.registers]
      rw [hreg, hlooks.reg, State.reg_setReg_self]
      rfl
    | immediate val =>
      simp only [Place.registers, highestReg, sub_zero] at hlow hhigh hx
      obtain ⟨hval, rfl⟩ := hy
      obtain ⟨s', hrun, hlooks⟩ := @immediate_run ι kind s top x val
        (isRegister_of_le (by omega) hhigh) hx hval
      refine ⟨s', executeAll_last hrun, ?_⟩
      rw [resultReg_one rfl, hlooks.reg, State.reg_setReg_self]
      rfl
    | memory c =>
      simp only [Place.registers, highestReg, sub_zero] at hlow hhigh hx
      have hr : IsRegister (top + 1) := isRegister_of_le (by omega) hhigh
      have hx' := (reg_of_ne hr.1 (by omega) (by omega : top ≠ top + 1) (some y)).trans hx
      obtain ⟨s', hrun, hlooks⟩ := @instruction_run ι kind (s.setReg (top + 1) (some y)) top
        (top + 1) x y (isRegister_of_le (by omega) (by omega)) hr hx' State.reg_setReg_self
      refine ⟨s', (executeAll_cons (memory_run hr hy)).trans (executeAll_last hrun), ?_⟩
      rw [resultReg_one rfl, hlooks.reg, State.reg_setReg_self]
      rfl
  | immediate val =>
    obtain ⟨hval, rfl⟩ := hx
    cases p₂ with
    | register =>
      simp only [Place.registers, highestReg] at hlow hhigh hy
      -- a constant on the left goes into the instruction, and the operands change places
      obtain ⟨s', hrun, hreg⟩ := @constantFirst_run ι kind s top val y
        (isRegister_of_le (by omega) hhigh) hzero hy hval
      refine ⟨s', hrun, ?_⟩
      rw [resultReg_one rfl, hreg]
      exact congrArg some (constant_leaves fun b hb => by cases hb)
    | immediate val' =>
      obtain ⟨hval', rfl⟩ := hy
      simp only [Place.registers, highestReg] at hlow hhigh
      have hr : IsRegister (top + 1) := isRegister_of_le (by omega) hhigh
      refine ⟨_, executeAll_last (executeADDI_run hr (by decide : IsRegister 0) hzero), ?_⟩
      rw [resultReg_none rfl]
      refine State.reg_setReg_self.trans ?_
      rw [zero_add]
      -- two constants are folded, and the value is put into a new register
      rw [leaves, if_neg (by exact id), Operation.left_eq (hdiv _ _ rfl rfl)]
      exact congrArg some (imm_foldValue hval.int hval'.int)
    | memory c =>
      simp only [Place.registers, highestReg] at hlow hhigh
      have hr : IsRegister (top + 1) := isRegister_of_le (by omega) hhigh
      have hzero' := (reg_of_ne hr.1 (le_refl 0) (by omega : 0 ≠ top + 1) (some y)).trans hzero
      obtain ⟨s', hrun, hreg⟩ := @constantFirst_run ι kind (s.setReg (top + 1) (some y)) (top + 1)
        val y hr hzero' State.reg_setReg_self hval
      refine ⟨s', (executeAll_cons (memory_run hr hy)).trans hrun, ?_⟩
      rw [resultReg_none rfl, hreg]
      exact congrArg some (constant_leaves fun b hb => by cases hb)
  | memory c =>
    cases p₂ with
    | register =>
      simp only [Place.registers, highestReg] at hlow hhigh hy
      have hr : IsRegister (top + 1) := isRegister_of_le (by omega) hhigh
      -- the word is loaded above the register, and stands on the left in the instruction
      have hy' := (reg_of_ne hr.1 (by omega) (by omega : top ≠ top + 1) (some x)).trans hy
      obtain ⟨s', hrun, hlooks⟩ := @instruction_run ι kind (s.setReg (top + 1) (some x)) top
        (top + 1) y x (isRegister_of_le (by omega) (by omega)) hr hy' State.reg_setReg_self
      refine ⟨s', (executeAll_cons (memory_run hr hx)).trans (executeAll_last hrun), ?_⟩
      rw [resultReg_one rfl, hlooks.reg, State.reg_setReg_self]
      exact congrArg some left_eq_leaves
    | immediate val =>
      obtain ⟨hval, rfl⟩ := hy
      simp only [Place.registers, highestReg] at hlow hhigh
      have hr : IsRegister (top + 1) := isRegister_of_le (by omega) hhigh
      obtain ⟨s', hrun, hlooks⟩ := @immediate_run ι kind (s.setReg (top + 1) (some x)) (top + 1) x
        val hr State.reg_setReg_self hval
      refine ⟨s', (executeAll_cons (memory_run hr hx)).trans (executeAll_last hrun), ?_⟩
      rw [resultReg_none rfl, hlooks.reg, State.reg_setReg_self]
      rfl
    | memory c' =>
      simp only [Place.registers, highestReg] at hlow hhigh
      -- both words are loaded; the base of the second is not what the first was put into
      have hr : IsRegister (top + 1) := isRegister_of_le (by omega) (by omega)
      have hr' : IsRegister (top + 2) := isRegister_of_le (by omega) hhigh
      have hy' : (Place.memory c').Holds (s.setReg (top + 1) (some x)) top y := by
        obtain ⟨base, hbase, haddress, hv⟩ := hy
        refine ⟨base, ?_, haddress, hv⟩
        rw [reg_of_ne hr.1 (address_register c').1 (hapart c c' rfl rfl)]
        exact hbase
      have hx' : ((s.setReg (top + 1) (some x)).setReg (top + 2) (some y)).reg (top + 1) =
          some x := by
        rw [reg_of_ne hr'.1 hr.1 (by omega)]
        exact State.reg_setReg_self
      obtain ⟨s', hrun, hlooks⟩ := @instruction_run ι kind _ (top + 1) (top + 2) x y hr hr' hx'
        State.reg_setReg_self
      refine ⟨s', (executeAll_cons (memory_run hr hx)).trans
        ((executeAll_cons (memory_run hr' hy')).trans (executeAll_last hrun)), ?_⟩
      rw [resultReg_none rfl, hlooks.reg, State.reg_setReg_self]
      rfl

/-- The value that is found, when nothing is divided by 0. -/
theorem operationCode_run (h : Operands p₁ p₂ top x y s) (hdiv : kind.Divides → y ≠ 0) :
    ∃ s', executeAll (operationCode kind top p₁ p₂) s = .ok () s' ∧
      s'.reg (resultReg top p₁ p₂) = some (found kind p₁ p₂ x y) := by
  rw [← leaves_eq_found hdiv]
  exact operationCode_leaves h fun _ _ _ _ => hdiv

theorem instruction_code (kind : Operation) : ¬ Jumps kind.instruction.code := by
  cases kind <;> decide

theorem immediate_code (kind : Operation) : ¬ Jumps kind.immediate.code := by
  cases kind <;> decide

theorem operationCode_straight (kind : Operation) (top : Int) (p₁ p₂ : Place) :
    Straight (operationCode kind top p₁ p₂) := by
  have hload : ∀ r c, ¬ Jumps (loadCode r c).instruction.code := fun _ _ =>
    (by decide : ¬ Jumps OpCode.ldw.code)
  have hadd : ¬ Jumps OpCode.addi.code := by decide
  have hsub : ¬ Jumps OpCode.sub.code := by decide
  have hinstruction := instruction_code kind
  have himmediate := immediate_code kind
  cases p₁ <;> cases p₂ <;>
    simp only [operationCode, constantFirst, Straight] <;>
    (try split) <;>
    simp [OpCodeElement.mk3, hload, hadd, hsub, hinstruction, himmediate]

end Operands

/-! ## the property -/

section Property

open Compiler.Parser

variable {ι : Type} {decode : ι → Fields} {instructions : Instructions ι} {t : State ι} {a : Nat}
  {kind : Operation} {p₁ p₂ : Place} {x y : Word} {s s' : ParserState} {i : Int}
  {item1 item2 result : Item} {code : List OpCodeElement}

/-- What was written, by a run of `delayedCodeGen` that succeeded. -/
theorem written_eq (hrun : delayedCodeGen kind i (some item1) (some item2) s = .ok (some result) s')
    (h₁ : p₁.Of s i item1) (h₂ : p₂.Of s ((s.tokenList.length : Int) - 1) item2)
    (hcode : (loadResult result s'.cg).opCode = s.cg.opCode ++ code) :
    code = operationCode kind s.cg.topReg p₁ p₂ ∧
      (loadResult result s'.cg).topReg = resultReg s.cg.topReg p₁ p₂ := by
  obtain ⟨item, hitem, hafter⟩ :=
    ((delayedCodeGen_yields h₁ h₂ fun _ => trivial).of_eq_ok hrun).loadResult
  obtain rfl := Option.some.inj hitem
  rw [hafter] at hcode ⊢
  exact ⟨(List.append_cancel_left hcode).symm, rfl⟩

theorem found_eq_iff : found kind p₁ p₂ x y = kind.value x y ↔
    ¬ Swapped kind p₁ p₂ ∨ kind.left y x = kind.value x y := by
  unfold found
  by_cases h : Swapped kind p₁ p₂
  · simp [h]
  · simp [h]

/--
**The order of the operands.** The code of an operation, with the load of a result that is a
constant, leaves the value of the operation in the last register, unless the operands are swapped
and the other order has another value.
-/
theorem operation_ok_iff
    (hrun : delayedCodeGen kind i (some item1) (some item2) s = .ok (some result) s')
    (h₁ : p₁.Of s i item1) (h₂ : p₂.Of s ((s.tokenList.length : Int) - 1) item2)
    (hcode : (loadResult result s'.cg).opCode = s.cg.opCode ++ code)
    (hloaded : Loaded decode instructions a code) (hhere : Here instructions a t)
    (hnext : Stands instructions (a + code.length))
    (hoperands : Operands p₁ p₂ s.cg.topReg x y t) (hdiv : kind.Divides → y ≠ 0) :
    ∃ es t', Runs (MStep decode instructions) code.length t es t' ∧
      Here instructions (a + code.length) t' ∧
      (t'.reg (loadResult result s'.cg).topReg = some (kind.value x y) ↔
        ¬ Swapped kind p₁ p₂ ∨ kind.left y x = kind.value x y) := by
  obtain ⟨rfl, htop⟩ := written_eq hrun h₁ h₂ hcode
  obtain ⟨t₁, hexecute, hreg⟩ := operationCode_run hoperands hdiv
  obtain ⟨t', hruns, hhere', hlooks⟩ :=
    straight_run hloaded (operationCode_straight _ _ _ _) hhere hexecute hnext
  refine ⟨_, t', hruns, hhere', ?_⟩
  rw [htop, hlooks.reg, hreg, ← found_eq_iff]
  exact Option.some_inj

/-! ## a value and a constant -/

/-- A parser behind an expression whose value is in register 1. -/
def inRegister1 : ParserState :=
  { ParserState.init "Main" [] [] 0 with cg := { CodeGenerator.init with topReg := 1 } }

/-- The value in register 1. -/
def valueItem : Item := { mode := 3, type := some .intType, inReg := true }

/-- The number 10. -/
def tenItem : Item := { mode := 2, type := some .intType, val := 10, expr := .number 10 }

/-- A machine with 2 in register 1, in front of an instruction. -/
def withTwo (e : OpCodeElement) : State OpCodeElement :=
  start (load [e, e]) (fun i => if i = 1 then some 2 else some 0) fun _ => none

theorem withTwo_length (e : OpCodeElement) : (load [e, e]).length = 4 := rfl

theorem withTwo_loaded (e : OpCodeElement) : Loaded fields (load [e, e]) 1 [e] := by
  intro k e' hk
  rw [withTwo_length]
  match k, hk with
  | 0, rfl => exact ⟨_, rfl, rfl, by decide⟩

theorem withTwo_here (e : OpCodeElement) : Here (load [e, e]) 1 (withTwo e) :=
  ⟨_, rfl, rfl, rfl, rfl, by simp [withTwo_length]⟩

theorem withTwo_next (e : OpCodeElement) : Stands (load [e, e]) (1 + [e].length) :=
  ⟨⟨_, rfl⟩, by simp [withTwo_length]⟩

/-- A value and 10. -/
theorem withTwo_valueTen (e : OpCodeElement) :
    Operands .register (.immediate 10) 1 2 10 (withTwo e) where
  zero := rfl
  left := rfl
  right := ⟨by decide, rfl⟩
  low := by decide
  high := by decide
  apart c₁ c₂ hc₁ hc₂ := by cases hc₁

/-- 10 and a value. -/
theorem withTwo_tenValue (e : OpCodeElement) :
    Operands (.immediate 10) .register 1 10 2 (withTwo e) where
  zero := rfl
  left := ⟨by decide, rfl⟩
  right := rfl
  low := by decide
  high := by decide
  apart c₁ c₂ hc₁ hc₂ := by cases hc₁

theorem operation_ok_iff_difference : ∃ es t', Runs (MStep fields (load
    [.mk3 .subi 1 1 10, .mk3 .subi 1 1 10])) 1 (withTwo (.mk3 .subi 1 1 10)) es t' ∧
    t'.reg 1 = some (2 - 10) := by
  have hrun : delayedCodeGen .sub 0 (some valueItem) (some tenItem) inRegister1 = .ok _ _ := rfl
  obtain ⟨es, t', hruns, -, hreg⟩ := @operation_ok_iff _ fields _ _ 1 .sub .register
    (.immediate 10) 2 10 inRegister1 _ 0 valueItem tenItem _ [.mk3 .subi 1 1 10] hrun rfl
    ⟨rfl, rfl⟩ rfl (withTwo_loaded _) (withTwo_here _) (withTwo_next _) (withTwo_valueTen _)
    (by decide)
  exact ⟨es, t', hruns, hreg.mpr (.inl (by decide))⟩

/-- With 2 in the register of `x`, `10 / x` is found to be 0. -/
theorem constant_divided : ∃ result s',
    delayedCodeGen .div 0 (some tenItem) (some valueItem) inRegister1 = .ok (some result) s' ∧
    (loadResult result s'.cg).opCode = inRegister1.cg.opCode ++ [.mk3 .divi 1 1 10] ∧
    (loadResult result s'.cg).topReg = 1 ∧
    ∀ es t', Runs (MStep fields (load [.mk3 .divi 1 1 10, .mk3 .divi 1 1 10])) 1
      (withTwo (.mk3 .divi 1 1 10)) es t' → t'.reg 1 ≠ some (Operation.div.value 10 2) := by
  refine ⟨_, _, rfl, rfl, rfl, ?_⟩
  intro es t' hruns hvalue
  obtain ⟨s₁, hexecute, hreg⟩ := @operationCode_run _ .div (withTwo (.mk3 .divi 1 1 10))
    (.immediate 10) .register 1 10 2 (withTwo_tenValue _) (by decide)
  obtain ⟨t₂, hruns₂, -, hlooks⟩ := straight_run (withTwo_loaded _)
    (operationCode_straight .div 1 (.immediate 10) .register) (withTwo_here _) hexecute
    (withTwo_next _)
  obtain rfl := hruns.end_unique hruns₂ mstep_det
  rw [hlooks.reg] at hvalue
  have hfound := Option.some.inj (hreg.symm.trans hvalue)
  exact absurd hfound (by decide)

end Property

end Compiler
