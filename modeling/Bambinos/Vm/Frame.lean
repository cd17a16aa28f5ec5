import Bambinos.Infra.Frame
import Bambinos.Vm.Machine

/-!
# Instructions that do not jump

* `withPC` — the same machine at another place of its code
* `Jumps` — the instructions that write the program counter: branches, `BSR` and `RET`
* `dispatch_commutes` — every other instruction does the same wherever it stands
-/

namespace Vm

open Infra Compiler

variable {ι : Type}

/-- The machine with another program counter and instruction register. -/
def State.withPC (pc : Option Int) (ir : Option ι) (cip : Int) (s : State ι) : State ι :=
  { s with pc := pc, ir := ir, cip := cip }

/-- A branch. -/
def isBranch (opCode : Nat) : Prop := 19 ≤ opCode ∧ opCode ≤ 24

instance (opCode : Nat) : Decidable (isBranch opCode) :=
  inferInstanceAs (Decidable (19 ≤ opCode ∧ opCode ≤ 24))

/-- An instruction that writes the program counter. -/
def Jumps (opCode : Nat) : Prop := isBranch opCode ∨ opCode = 50 ∨ opCode = 51

instance (opCode : Nat) : Decidable (Jumps opCode) :=
  inferInstanceAs (Decidable (isBranch opCode ∨ opCode = 50 ∨ opCode = 51))

section PC

variable {pc : Option Int} {ir : Option ι} {cip : Int}

instance (i : Int) (length : Nat) :
    Commutes (State.withPC pc ir cip) (checkIndex i length : M ι Nat) := by
  unfold checkIndex
  infer_instance

instance (j : Nat) :
    Commutes (State.withPC pc ir cip) (do return (← get).registers j : M ι (Option Word)) :=
  ⟨fun _ => rfl⟩

instance (j : Nat) :
    Commutes (State.withPC pc ir cip) (do return (← get).memory j : M ι (Option Word)) :=
  ⟨fun _ => rfl⟩

instance (j : Nat) (v : Option Word) : Commutes (State.withPC pc ir cip)
    (modify fun s => { s with registers := Function.update s.registers j v } : M ι Unit) :=
  ⟨fun _ => rfl⟩

instance (j : Nat) (v : Option Word) : Commutes (State.withPC pc ir cip)
    (modify fun s => { s with memory := Function.update s.memory j v } : M ι Unit) :=
  ⟨fun _ => rfl⟩

instance (i : Int) : Commutes (State.withPC pc ir cip) (getRegister i : M ι (Option Word)) := by
  unfold getRegister
  infer_instance

instance (i : Int) : Commutes (State.withPC pc ir cip) (register i : M ι Word) := by
  unfold register
  infer_instance

instance (i : Int) (v : Option Word) :
    Commutes (State.withPC pc ir cip) (setRegister i v : M ι Unit) := by
  unfold setRegister
  infer_instance

instance (i : Word) : Commutes (State.withPC pc ir cip) (getMemory i : M ι (Option Word)) := by
  unfold getMemory
  infer_instance

instance (i : Word) (v : Option Word) :
    Commutes (State.withPC pc ir cip) (setMemory i v : M ι Unit) := by
  unfold setMemory
  infer_instance

instance (p : Printed) : Commutes (State.withPC pc ir cip) (print p : M ι Unit) := ⟨fun _ => rfl⟩

instance (r2 : Int) : Commutes (State.withPC pc ir cip) (executePRNI r2 : M ι Unit) := by
  refine @commutes_bind _ _ _ _ _ _ inferInstance fun v => ?_
  cases v <;> dsimp only <;> infer_instance

instance (r2 : Int) : Commutes (State.withPC pc ir cip) (executePRNC r2 : M ι Unit) := by
  refine @commutes_bind _ _ _ _ _ _ inferInstance fun v => ?_
  cases v <;> dsimp only <;> infer_instance

instance (r2 : Int) : Commutes (State.withPC pc ir cip) (executePRNB r2 : M ι Unit) := by
  refine @commutes_bind _ _ _ _ _ _ inferInstance fun v => ?_
  cases v <;> dsimp only <;> infer_instance

/-- **An instruction that does not jump does the same wherever it stands.** -/
theorem dispatch_commutes (f : Fields) (h : ¬ Jumps f.opCode) :
    Commutes (State.withPC pc ir cip) (dispatch f : M ι Unit) := by
  simp only [Jumps, isBranch, not_or, not_and, not_le] at h
  unfold dispatch
  dsimp only
  split
  -- the branches, `BSR` and `RET` are excluded
  case h_18 | h_19 | h_20 | h_21 | h_22 | h_23 | h_40 | h_41 => omega
  case h_37 | h_38 | h_39 | h_42 => infer_instance
  all_goals
    simp only [executeADD, executeADDI, executeSUB, executeSUBI, executeMUL, executeMULI,
      executeDIV, executeDIVI, executeMOD, executeMODI, executeCMP, executeCMPI, executeCHK,
      executeCHKI, executeAND, executeANDI, executeBIC, executeBICI, executeOR, executeORI,
      executeXOR, executeXORI, executeLSH, executeLSHI, executeASH, executeASHI, executeLDW,
      executePOP, executeSTW, executePSH]
    infer_instance

/-- An instruction that does not jump leaves the program counter alone. -/
theorem dispatch_pc {f : Fields} {s s₁ : State ι} (h : ¬ Jumps f.opCode) (hrun : dispatch f s = .ok () s₁) :
    s₁.pc = s.pc := by
  have hcommutes : Commutes (State.withPC s.pc s.ir s.cip) (dispatch f : M ι Unit) :=
    dispatch_commutes f h
  have hfixed := @Commutes.fixed _ _ _ _ hcommutes s s₁ () rfl hrun
  rw [← hfixed]
  rfl

end PC

end Vm
