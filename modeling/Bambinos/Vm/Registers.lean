import Bambinos.Vm.Memory
import Bambinos.Vm.Straight

/-!
# What code leaves in the registers

Most instructions write one register. Code that computes and stores keeps all registers that it has
not as a target, and the cells of the memory that it does not store to.

* `Computes` — an instruction with one target, or a store
* `dispatch_registers` — the other registers stay
* `executeAll_other`, `executeAll_memory` — the same for a piece of code
-/

namespace Vm

open Infra Compiler

variable {ι : Type}

/-- The registers are the same but for one. -/
def SameRegisters (r : Int) (s s' : State ι) : Prop := ∀ i, 0 ≤ i → i ≠ r → s'.reg i = s.reg i

instance (r : Int) : Std.Refl (@SameRegisters ι r) := ⟨fun _ _ _ _ => rfl⟩

instance (r : Int) : IsTrans (State ι) (SameRegisters r) :=
  ⟨fun _ _ _ h h' i hi hne => (h' i hi hne).trans (h i hi hne)⟩

/-! ## one instruction -/

section Keeps

variable {r : Int} (i : Int) (v : Option Word) (a : Word)

theorem keepsRegisters_checkIndex (length : Nat) :
    Keeps (SameRegisters r) (checkIndex i length : M ι Nat) fun _ => True :=
  Keeps.ite (fun _ => Keeps.pure trivial) fun _ => Keeps.throw _

theorem keepsRegisters_getRegister :
    Keeps (SameRegisters r) (getRegister i : M ι (Option Word)) fun _ => True :=
  Keeps.seq (keepsRegisters_checkIndex _ _) fun _ => Keeps.seq Keeps.get fun _ => Keeps.pure trivial

theorem keepsRegisters_register : Keeps (SameRegisters r) (register i : M ι Word) fun _ => True :=
  Keeps.seq (keepsRegisters_getRegister _) fun _ => (Keeps.deref _).mono fun _ _ => trivial

theorem keepsRegisters_setRegister :
    Keeps (SameRegisters r) (setRegister r v : M ι Unit) fun _ => True := by
  intro s
  by_cases hr : IsRegister r
  · refine Yields.ok (setRegister_run hr v) ⟨trivial, fun j hj hne => ?_⟩
    rw [State.reg_setReg hr.1 hj, if_neg hne]
  · have hindex : (checkIndex r registerCount : M ι Nat) s = .error .indexOutOfBounds s :=
      congrFun (if_neg hr) s
    exact Yields.error (bind_error hindex) trivial

theorem keepsRegisters_getMemory :
    Keeps (SameRegisters r) (getMemory a : M ι (Option Word)) fun _ => True :=
  Keeps.seq (keepsRegisters_checkIndex _ _) fun _ => Keeps.seq Keeps.get fun _ => Keeps.pure trivial

theorem keepsRegisters_setMemory :
    Keeps (SameRegisters r) (setMemory a v : M ι Unit) fun _ => True :=
  Keeps.seq (keepsRegisters_checkIndex _ _) fun _ => Keeps.modify fun _ _ _ _ => rfl

theorem keepsRegisters_print (p : Printed) :
    Keeps (SameRegisters r) (print p : M ι Unit) fun _ => True :=
  Keeps.modify fun _ _ _ _ => rfl

end Keeps

/-- **An instruction that computes or stores keeps the registers but for its target.** -/
theorem dispatch_registers (f : Fields) (hpop : f.opCode ≠ 15) (hpsh : f.opCode ≠ 18)
    (hjumps : ¬ Jumps f.opCode) :
    Keeps (SameRegisters f.targetValue) (dispatch f : M ι Unit) fun _ => True := by
  have hbranch : ¬ isBranch f.opCode := fun h => hjumps (Or.inl h)
  unfold isBranch at hbranch
  unfold dispatch
  dsimp only
  split
  case h_15 => exact absurd ‹_› hpop
  case h_17 => exact absurd ‹_› hpsh
  all_goals
    try simp only [executeADD, executeADDI, executeSUB, executeSUBI, executeMUL, executeMULI,
      executeDIV, executeDIVI, executeMOD, executeMODI, executeCMP, executeCMPI, executeCHK,
      executeCHKI, executeAND, executeANDI, executeBIC, executeBICI, executeOR, executeORI,
      executeXOR, executeXORI, executeLSH, executeLSHI, executeASH, executeASHI, executeLDW,
      executeSTW, executePRNI, executePRNC, executePRNB]
    repeat first
      | omega
      | exact absurd (Or.inr (Or.inl ‹_›)) hjumps
      | exact absurd (Or.inr (Or.inr ‹_›)) hjumps
      | exact keepsRegisters_register _
      | exact keepsRegisters_setRegister _
      | exact keepsRegisters_getRegister _
      | exact keepsRegisters_getMemory _
      | exact keepsRegisters_setMemory _ _
      | exact keepsRegisters_print _
      | exact Keeps.pure trivial
      | refine Keeps.seq ?_ fun _ => ?_
      | split

/-! ## a piece of code -/

/-- An instruction that computes into a free register, or stores. -/
structure Computes (e : OpCodeElement) : Prop where
  noStack : e.instruction ≠ .pop ∧ e.instruction ≠ .psh
  straight : ¬ Jumps e.instruction.code
  target : e.instruction ≠ .stw → 1 ≤ e.a ∧ e.a < Compiler.fp

instance (e : OpCodeElement) : Decidable (Computes e) :=
  decidable_of_iff ((e.instruction ≠ .pop ∧ e.instruction ≠ .psh) ∧ ¬ Jumps e.instruction.code ∧
      (e.instruction ≠ .stw → 1 ≤ e.a ∧ e.a < Compiler.fp))
    ⟨fun h => ⟨h.1, h.2.1, h.2.2⟩, fun h => ⟨h.1, h.2, h.3⟩⟩

section Code

variable {e : OpCodeElement} {code : List OpCodeElement} {s s' : State ι} {i : Int} {a : Word}

theorem fields_target (h : ¬ Jumps e.instruction.code) : (fields e).targetValue = e.a := by
  unfold fields
  split
  · rfl
  · next hhigh =>
    refine absurd ?_ h
    cases hi : e.instruction <;> rw [hi] at hhigh <;> revert hhigh <;> decide

/-- An instruction that computes or stores keeps the registers but for its target. -/
theorem Computes.other (h : Computes e) (hi : 0 ≤ i) (hne : e.instruction = .stw ∨ i ≠ e.a)
    (hrun : dispatch (fields e) s = .ok () s') : s'.reg i = s.reg i := by
  by_cases hstw : e.instruction = .stw
  · have hstore : executeSTW (fields e).targetValue (fields e).firstSourceValue
        (fields e).secondSourceValue s = .ok () s' := by
      unfold dispatch at hrun
      rw [fields_opCode, hstw] at hrun
      exact hrun
    obtain ⟨v, hv, ha, rfl⟩ := executeSTW_eq_ok hstore
    rfl
  · have hop : (fields e).opCode ≠ 15 ∧ (fields e).opCode ≠ 18 := by
      rw [fields_opCode]
      obtain ⟨hpop, hpsh⟩ := h.noStack
      cases hinstr : e.instruction <;> rw [hinstr] at hpop hpsh <;> revert hpop hpsh <;> decide
    have hkeeps := (dispatch_registers (fields e) hop.1 hop.2 (by
      rw [fields_opCode]
      exact h.straight) s).of_eq_ok hrun
    rw [fields_target h.straight] at hkeeps
    exact hkeeps.2 i hi (hne.resolve_left hstw)

/-- Register 0 and the registers of the stack are no targets. -/
theorem Computes.not_target (h : Computes e) (hi : i = 0 ∨ Compiler.fp ≤ i) :
    e.instruction = .stw ∨ i ≠ e.a := by
  by_cases hstw : e.instruction = .stw
  · exact Or.inl hstw
  · obtain ⟨hlow, hhigh⟩ := h.target hstw
    exact Or.inr (by omega)

/-- An instruction that stores nothing keeps the memory. -/
theorem Computes.memory (h : Computes e) (hstw : e.instruction ≠ .stw)
    (hrun : dispatch (fields e) s = .ok () s') : s'.memory = s.memory := by
  refine ((dispatch_keeps (fields e) ?_ ?_ s).of_eq_ok hrun).2
  · rw [fields_opCode]
    cases hinstr : e.instruction <;> rw [hinstr] at hstw <;> revert hstw <;> decide
  · rw [fields_opCode]
    obtain ⟨-, hpsh⟩ := h.noStack
    cases hinstr : e.instruction <;> rw [hinstr] at hpsh <;> revert hpsh <;> decide

/-- **Code that computes and stores** keeps the registers that are no targets. -/
theorem executeAll_other (h : ∀ e ∈ code, Computes e) (hi : 0 ≤ i)
    (hne : ∀ e ∈ code, e.instruction = .stw ∨ i ≠ e.a) (hrun : executeAll code s = .ok () s') :
    s'.reg i = s.reg i := by
  induction code generalizing s with
  | nil =>
    cases hrun
    rfl
  | cons e rest ih =>
    obtain ⟨_, s₁, hfirst, hrest⟩ := bind_eq_ok hrun
    rw [ih (fun e' he' => h e' (List.mem_cons_of_mem _ he'))
      (fun e' he' => hne e' (List.mem_cons_of_mem _ he')) hrest]
    exact (h e List.mem_cons_self).other hi (hne e List.mem_cons_self) hfirst

/-- Register 0 and the registers of the stack stay. -/
theorem executeAll_reg (h : ∀ e ∈ code, Computes e) (hi : i = 0 ∨ Compiler.fp ≤ i)
    (hrun : executeAll code s = .ok () s') : s'.reg i = s.reg i := by
  have hfp : (0 : Int) ≤ Compiler.fp := by decide
  exact executeAll_other h (by omega) (fun e he => (h e he).not_target hi) hrun

/-- **Code that only computes** keeps the memory. -/
theorem executeAll_memory (h : ∀ e ∈ code, Computes e) (hstw : ∀ e ∈ code, e.instruction ≠ .stw)
    (hrun : executeAll code s = .ok () s') : s'.memory = s.memory := by
  induction code generalizing s with
  | nil =>
    cases hrun
    rfl
  | cons e rest ih =>
    obtain ⟨_, s₁, hfirst, hrest⟩ := bind_eq_ok hrun
    rw [ih (fun e' he' => h e' (List.mem_cons_of_mem _ he'))
      (fun e' he' => hstw e' (List.mem_cons_of_mem _ he')) hrest]
    exact (h e List.mem_cons_self).memory (hstw e List.mem_cons_self) hfirst

theorem executeAll_join {code' : List OpCodeElement} {s₁ : State ι}
    (hrun : executeAll code s = .ok () s₁) (hrun' : executeAll code' s₁ = .ok () s') :
    executeAll (code ++ code') s = .ok () s' := by
  induction code generalizing s with
  | nil =>
    cases hrun
    exact hrun'
  | cons e rest ih =>
    obtain ⟨_, s₂, hfirst, hrest⟩ := bind_eq_ok hrun
    exact (executeAll_cons hfirst).trans (ih hrest)

theorem executeAll_append {code' : List OpCodeElement}
    (hrun : executeAll (code ++ code') s = .ok () s') :
    ∃ s₁, executeAll code s = .ok () s₁ ∧ executeAll code' s₁ = .ok () s' := by
  induction code generalizing s with
  | nil => exact ⟨s, rfl, hrun⟩
  | cons e rest ih =>
    obtain ⟨_, s₁, hfirst, hrest⟩ := bind_eq_ok hrun
    obtain ⟨s₂, hcode, hcode'⟩ := ih hrest
    exact ⟨s₂, (executeAll_cons hfirst).trans hcode, hcode'⟩

end Code

end Vm
