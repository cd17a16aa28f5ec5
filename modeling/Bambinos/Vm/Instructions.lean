import Bambinos.Vm.Machine

/-!
# Running single instructions

* `State.setReg`, `State.setMem` — the writes of the machine
* `toInt_imm`, `imm_injective` — immediate operands as numbers
* `executeADDI_run`, `executeSUB_run` and so on — what an instruction does to a machine
-/

namespace Vm

open Infra Compiler

variable {ι : Type}

/-! ## immediate operands -/

theorem toInt_imm {a : Int} (ha : -2147483648 ≤ a ∧ a < 2147483648) : (imm a).toInt = a := by
  unfold imm
  rw [BitVec.toInt_ofInt, Int.bmod_eq_of_le (by omega) (by omega)]

theorem imm_injective {a b : Int} (ha : -2147483648 ≤ a ∧ a < 2147483648)
    (hb : -2147483648 ≤ b ∧ b < 2147483648) (h : imm a = imm b) : a = b := by
  rw [← toInt_imm ha, h, toInt_imm hb]

/-! ## registers and memory -/

namespace State

/-- A write to a register. -/
def setReg (s : State ι) (i : Int) (v : Option Word) : State ι :=
  { s with registers := Function.update s.registers i.toNat v }

/-- A write to the memory. -/
def setMem (s : State ι) (i : Word) (v : Option Word) : State ι :=
  { s with memory := Function.update s.memory i.toInt.toNat v }

/-- The value of a register. -/
def reg (s : State ι) (i : Int) : Option Word := s.registers i.toNat

/-- The value of a cell of memory. -/
def mem (s : State ι) (i : Word) : Option Word := s.memory i.toInt.toNat

variable {s : State ι} {i j : Int} {v : Option Word}

theorem reg_setReg (hi : 0 ≤ i) (hj : 0 ≤ j) :
    (s.setReg i v).reg j = if j = i then v else s.reg j := by
  unfold reg setReg
  dsimp only
  rw [Function.update_apply]
  by_cases h : j = i
  · rw [if_pos (by rw [h]), if_pos h]
  · rw [if_neg (by omega), if_neg h]

@[simp] theorem reg_setReg_self : (s.setReg i v).reg i = v := by
  unfold reg setReg
  exact Function.update_self ..

@[simp] theorem mem_setReg (a : Word) : (s.setReg i v).mem a = s.mem a := rfl

@[simp] theorem reg_setMem (a : Word) : (s.setMem a v).reg j = s.reg j := rfl

/-- A write to another cell of memory is not seen. -/
theorem mem_setMem {a b : Word} (ha : 0 ≤ a.toInt) (hb : 0 ≤ b.toInt) :
    (s.setMem a v).mem b = if b = a then v else s.mem b := by
  unfold mem setMem
  dsimp only
  rw [Function.update_apply]
  by_cases h : b = a
  · rw [if_pos (by rw [h]), if_pos h]
  · have hne : b.toInt ≠ a.toInt := fun heq => h (BitVec.eq_of_toInt_eq heq)
    rw [if_neg (by omega), if_neg h]

@[simp] theorem pc_setReg : (s.setReg i v).pc = s.pc := rfl

@[simp] theorem pc_setMem (a : Word) : (s.setMem a v).pc = s.pc := rfl

end State

/-- The number of a register. -/
def IsRegister (i : Int) : Prop := 0 ≤ i ∧ i < registerCount

instance (i : Int) : Decidable (IsRegister i) :=
  inferInstanceAs (Decidable (0 ≤ i ∧ i < registerCount))

/-- The number of a cell of memory. -/
def IsAddress (i : Word) : Prop := 0 ≤ i.toInt ∧ i.toInt < memorySize

instance (i : Word) : Decidable (IsAddress i) :=
  inferInstanceAs (Decidable (0 ≤ i.toInt ∧ i.toInt < memorySize))

section Steps

variable {s : State ι} {i : Int} {v w : Word} {a : Word}

theorem checkIndex_run {length : Nat} (h : 0 ≤ i ∧ i < length) :
    checkIndex i length s = .ok i.toNat s := by
  unfold checkIndex
  rw [if_pos h]
  rfl

theorem getRegister_run (hi : IsRegister i) : getRegister i s = .ok (s.reg i) s := by
  unfold getRegister
  rw [bind_ok (checkIndex_run hi)]
  rfl

theorem register_run (hi : IsRegister i) (hv : s.reg i = some v) : register i s = .ok v s := by
  unfold register
  rw [bind_ok (getRegister_run hi), hv]
  rfl

theorem setRegister_run (hi : IsRegister i) (v : Option Word) :
    setRegister i v s = .ok () (s.setReg i v) := by
  unfold setRegister
  rw [bind_ok (checkIndex_run hi)]
  rfl

theorem getMemory_run (ha : IsAddress a) : getMemory a s = .ok (s.mem a) s := by
  unfold getMemory
  rw [bind_ok (checkIndex_run ha)]
  rfl

theorem setMemory_run (ha : IsAddress a) (v : Option Word) :
    setMemory a v s = .ok () (s.setMem a v) := by
  unfold setMemory
  rw [bind_ok (checkIndex_run ha)]
  rfl

/-! ## instructions -/

variable {r0 r1 r2 : Int}

theorem executeADDI_run (h0 : IsRegister r0) (h1 : IsRegister r1) (hv : s.reg r1 = some v) :
    executeADDI r0 r1 r2 s = .ok () (s.setReg r0 (some (v + imm r2))) := by
  unfold executeADDI
  rw [bind_ok (register_run h1 hv), setRegister_run h0]

theorem executeADD_run (h0 : IsRegister r0) (h1 : IsRegister r1) (h2 : IsRegister r2)
    (hv : s.reg r1 = some v) (hw : s.reg r2 = some w) :
    executeADD r0 r1 r2 s = .ok () (s.setReg r0 (some (v + w))) := by
  unfold executeADD
  rw [bind_ok (register_run h1 hv), bind_ok (register_run h2 hw), setRegister_run h0]

theorem executeSUB_run (h0 : IsRegister r0) (h1 : IsRegister r1) (h2 : IsRegister r2)
    (hv : s.reg r1 = some v) (hw : s.reg r2 = some w) :
    executeSUB r0 r1 r2 s = .ok () (s.setReg r0 (some (v - w))) := by
  unfold executeSUB
  rw [bind_ok (register_run h1 hv), bind_ok (register_run h2 hw), setRegister_run h0]

theorem executeCMP_run (h0 : IsRegister r0) (h1 : IsRegister r1) (h2 : IsRegister r2)
    (hv : s.reg r1 = some v) (hw : s.reg r2 = some w) :
    executeCMP r0 r1 r2 s = .ok () (s.setReg r0 (some (v - w))) := by
  unfold executeCMP
  rw [bind_ok (register_run h1 hv), bind_ok (register_run h2 hw), setRegister_run h0]

theorem executeLDW_run (h0 : IsRegister r0) (h1 : IsRegister r1) (hv : s.reg r1 = some v)
    (ha : IsAddress (v + imm r2)) :
    executeLDW r0 r1 r2 s = .ok () (s.setReg r0 (s.mem (v + imm r2))) := by
  unfold executeLDW
  rw [bind_ok (register_run h1 hv), bind_ok (getMemory_run ha), setRegister_run h0]

theorem executeSTW_run (h0 : IsRegister r0) (h1 : IsRegister r1) (hv : s.reg r1 = some v)
    (ha : IsAddress (v + imm r2)) :
    executeSTW r0 r1 r2 s = .ok () (s.setMem (v + imm r2) (s.reg r0)) := by
  unfold executeSTW
  rw [bind_ok (register_run h1 hv), bind_ok (getRegister_run h0), setMemory_run ha]

/-! ## jumps -/

/-- A jump remembers where it came from. -/
def State.jump (s : State ι) (a : Int) : State ι :=
  { s.setReg 31 (s.pc.map (BitVec.ofInt 32)) with pc := some a }

theorem State.reg_jump {a : Int} (hi : 0 ≤ i) (hne : i ≠ 31) : (s.jump a).reg i = s.reg i := by
  have h := @State.reg_setReg ι s 31 i (s.pc.map (BitVec.ofInt 32)) (by decide) hi
  rw [if_neg hne] at h
  exact h

theorem executeBSR_run {a : Int} (h : a ≠ -1) : executeBSR a s = .ok () (s.jump a) := by
  unfold executeBSR
  rw [if_neg h]
  dsimp only
  rw [bind_ok get_run, bind_ok (setRegister_run (by decide) _)]
  rfl

theorem branch_run {taken : Int → Bool} {a : Int} (h0 : IsRegister r0) (hv : s.reg r0 = some v) :
    branch taken r0 a s = if taken v.toInt then executeBSR a s else .ok () s := by
  unfold branch
  rw [bind_ok (register_run h0 hv)]
  by_cases h : taken v.toInt = true
  · rw [if_pos h, if_pos h]
  · rw [if_neg h, if_neg h]
    rfl

end Steps

end Vm
