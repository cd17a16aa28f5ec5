import Bambinos.Infra.Outcome
import Bambinos.Vm.Run

/-!
# What a run leaves in the memory

* `SameMemory` — the memory of two machines is the same
* `dispatch_keeps` — only `STW` and `PSH` write to the memory
* `mstep_mem`, `runs_mem` — a cell that is not among the writes stays
-/

namespace Vm

open Infra Compiler

variable {ι : Type}

/-- The memory is the same. -/
def SameMemory (s s' : State ι) : Prop := s'.memory = s.memory

instance : Std.Refl (@SameMemory ι) := ⟨fun _ => rfl⟩

instance : IsTrans (State ι) SameMemory := ⟨fun _ _ _ h h' => Eq.trans h' h⟩

/-! ## instructions that do not write -/

section Keeps

variable (i : Int) (v : Option Word) (a : Word)

theorem keeps_checkIndex (length : Nat) :
    Keeps SameMemory (checkIndex i length : M ι Nat) fun _ => True :=
  Keeps.ite (fun _ => Keeps.pure trivial) fun _ => Keeps.throw _

theorem keeps_getRegister : Keeps SameMemory (getRegister i : M ι (Option Word)) fun _ => True :=
  Keeps.seq (keeps_checkIndex _ _) fun _ => Keeps.seq Keeps.get fun _ => Keeps.pure trivial

theorem keeps_register : Keeps SameMemory (register i : M ι Word) fun _ => True :=
  Keeps.seq (keeps_getRegister _) fun _ => (Keeps.deref _).mono fun _ _ => trivial

theorem keeps_setRegister : Keeps SameMemory (setRegister i v : M ι Unit) fun _ => True :=
  Keeps.seq (keeps_checkIndex _ _) fun _ => Keeps.modify fun _ => rfl

theorem keeps_getMemory : Keeps SameMemory (getMemory a : M ι (Option Word)) fun _ => True :=
  Keeps.seq (keeps_checkIndex _ _) fun _ => Keeps.seq Keeps.get fun _ => Keeps.pure trivial

theorem keeps_print (p : Printed) : Keeps SameMemory (print p : M ι Unit) fun _ => True :=
  Keeps.modify fun _ => rfl

theorem keeps_executeBSR : Keeps SameMemory (executeBSR i : M ι Unit) fun _ => True :=
  Keeps.ite (fun _ => Keeps.modify fun _ => rfl) fun _ =>
    Keeps.seq Keeps.get fun _ => Keeps.seq (keeps_setRegister _ _) fun _ => Keeps.modify fun _ => rfl

end Keeps

/-- **Only two instructions write to the memory.** -/
theorem dispatch_keeps (f : Fields) (hstw : f.opCode ≠ 16) (hpsh : f.opCode ≠ 18) :
    Keeps SameMemory (dispatch f : M ι Unit) fun _ => True := by
  unfold dispatch
  dsimp only
  split
  case h_16 => exact absurd ‹_› hstw
  case h_17 => exact absurd ‹_› hpsh
  case h_40 => exact keeps_executeBSR _
  case h_42 => exact keeps_print _
  all_goals
    simp only [executeADD, executeADDI, executeSUB, executeSUBI, executeMUL, executeMULI,
      executeDIV, executeDIVI, executeMOD, executeMODI, executeCMP, executeCMPI, executeCHK,
      executeCHKI, executeAND, executeANDI, executeBIC, executeBICI, executeOR, executeORI,
      executeXOR, executeXORI, executeLSH, executeLSHI, executeASH, executeASHI, executeLDW,
      executePOP, executePRNI, executePRNC, executePRNB, executeBEQ, executeBNE, executeBLT,
      executeBGE, executeBGT, executeBLE, branch, executeRET]
    repeat first
      | exact keeps_register _
      | exact keeps_setRegister _ _
      | exact keeps_getRegister _
      | exact keeps_getMemory _
      | exact keeps_print _
      | exact keeps_executeBSR _
      | exact Keeps.pure trivial
      | exact Keeps.modify fun _ => rfl
      | refine Keeps.seq ?_ fun _ => ?_
      | split

/-! ## steps -/

section Steps

variable {decode : ι → Fields} {instructions : Instructions ι} {s s' s₁ : State ι}
  {es : List (Word × Option Word)} {f : Fields} {a v : Word} {r0 r1 r2 : Int} {n : Nat}

theorem checkIndex_eq_ok {i : Int} {length k : Nat} (h : checkIndex i length s = .ok k s') :
    0 ≤ i ∧ i < length := by
  by_contra hi
  unfold checkIndex at h
  rw [if_neg hi] at h
  cases h

/-- A register that could be read. -/
theorem getRegister_eq_ok {v : Option Word} (h : getRegister r0 s = .ok v s') :
    IsRegister r0 ∧ v = s.reg r0 ∧ s' = s := by
  obtain ⟨k, s₁, hindex, -⟩ := bind_eq_ok h
  have hr : IsRegister r0 := checkIndex_eq_ok hindex
  rw [getRegister_run hr] at h
  injection h with hv hs
  exact ⟨hr, hv.symm, hs.symm⟩

theorem register_eq_ok (h : register r0 s = .ok v s') :
    IsRegister r0 ∧ s.reg r0 = some v ∧ s' = s := by
  obtain ⟨ov, s₁, hget, hderef⟩ := bind_eq_ok h
  obtain ⟨hr, rfl, rfl⟩ := getRegister_eq_ok hget
  cases hv : s₁.reg r0 with
  | none =>
    rw [hv] at hderef
    cases hderef
  | some w =>
    rw [hv] at hderef
    injection hderef with hw hs
    exact ⟨hr, by rw [hw], hs.symm⟩

/-- A cell that could be written. -/
theorem setMemory_eq_ok {v : Option Word} (h : setMemory a v s = .ok () s') :
    IsAddress a ∧ s' = s.setMem a v := by
  obtain ⟨k, s₁, hindex, -⟩ := bind_eq_ok h
  have ha : IsAddress a := checkIndex_eq_ok hindex
  rw [setMemory_run ha] at h
  injection h with _ hs
  exact ⟨ha, hs.symm⟩

theorem executePSH_run (h0 : IsRegister r0) (h1 : IsRegister r1) (hne : r0 ≠ r1)
    (hv : s.reg r1 = some v) (ha : IsAddress (v - imm r2)) : executePSH r0 r1 r2 s =
      .ok () ((s.setReg r1 (some (v - imm r2))).setMem (v - imm r2) (s.reg r0)) := by
  unfold executePSH
  rw [bind_ok (register_run h1 hv), bind_ok (setRegister_run h1 _),
    bind_ok (register_run h1 State.reg_setReg_self), bind_ok (getRegister_run h0),
    setMemory_run ha, State.reg_setReg h1.1 h0.1, if_neg hne]

theorem executePOP_run (h0 : IsRegister r0) (h1 : IsRegister r1) (hne : r0 ≠ r1)
    (hv : s.reg r1 = some v) (ha : IsAddress v) : executePOP r0 r1 r2 s =
      .ok () ((s.setReg r0 (s.mem v)).setReg r1 (some (v + imm r2))) := by
  have hv' : (s.setReg r0 (s.mem v)).reg r1 = some v := by
    rw [State.reg_setReg h0.1 h1.1, if_neg hne.symm, hv]
  unfold executePOP
  rw [bind_ok (register_run h1 hv), bind_ok (getMemory_run ha), bind_ok (setRegister_run h0 _),
    bind_ok (register_run h1 hv'), setRegister_run h1]

/-- A register was pushed. -/
theorem executePSH_eq_ok (h : executePSH r0 r1 r2 s = .ok () s') :
    ∃ v, s.reg r1 = some v ∧ IsAddress (v - imm r2) ∧ ∃ w,
      s' = (s.setReg r1 (some (v - imm r2))).setMem (v - imm r2) w := by
  obtain ⟨v, s₁, hread, hrest⟩ := bind_eq_ok h
  obtain ⟨h1, hv, rfl⟩ := register_eq_ok hread
  rw [bind_ok (setRegister_run h1 _), bind_ok (register_run h1 State.reg_setReg_self)] at hrest
  obtain ⟨w, s₂, hget, hset⟩ := bind_eq_ok hrest
  obtain ⟨-, -, rfl⟩ := getRegister_eq_ok hget
  obtain ⟨ha, rfl⟩ := setMemory_eq_ok hset
  exact ⟨v, hv, ha, w, rfl⟩

/-- A register was stored. -/
theorem executeSTW_eq_ok (h : executeSTW r0 r1 r2 s = .ok () s') :
    ∃ v, s.reg r1 = some v ∧ IsAddress (v + imm r2) ∧
      s' = s.setMem (v + imm r2) (s.reg r0) := by
  obtain ⟨v, s₁, hread, hrest⟩ := bind_eq_ok h
  obtain ⟨h1, hv, rfl⟩ := register_eq_ok hread
  obtain ⟨w, s₂, hget, hset⟩ := bind_eq_ok hrest
  obtain ⟨-, rfl, rfl⟩ := getRegister_eq_ok hget
  obtain ⟨ha, rfl⟩ := setMemory_eq_ok hset
  exact ⟨v, hv, ha, rfl⟩

/-- **A cell that is not written stays.** -/
theorem dispatch_mem (h : dispatch f s = .ok () s') (ha : 0 ≤ a.toInt)
    (hes : ∀ w ∈ writes f s, w.1 ≠ a) : s'.mem a = s.mem a := by
  by_cases hstw : f.opCode = 16
  · obtain ⟨v, hv, hb, rfl⟩ := executeSTW_eq_ok (by
      unfold dispatch at h
      rw [hstw] at h
      exact h)
    have hne := hes _ (writes_stw hstw hv ▸ List.mem_singleton_self _)
    rw [State.mem_setMem hb.1 ha, if_neg hne.symm]
  · by_cases hpsh : f.opCode = 18
    · obtain ⟨v, hv, hb, w, rfl⟩ := executePSH_eq_ok (by
        unfold dispatch at h
        rw [hpsh] at h
        exact h)
      have hne := hes _ (writes_psh hpsh hv ▸ List.mem_singleton_self _)
      rw [State.mem_setMem hb.1 ha, if_neg hne.symm]
      rfl
    · have hsame := ((dispatch_keeps f hstw hpsh s).of_eq_ok h).2
      unfold State.mem
      rw [hsame]

theorem fetch_registers (h : fetch instructions s = .ok () s') :
    s'.registers = s.registers ∧ s'.memory = s.memory := by
  unfold fetch at h
  cases hpc : s.pc with
  | none =>
    simp only [bind_run, get_run, hpc, modify_run] at h
    injection h with _ hs
    rw [← hs]
    exact ⟨rfl, rfl⟩
  | some pc =>
    simp only [bind_run, get_run, hpc] at h
    by_cases hle : pc ≤ instructions.length
    · rw [if_pos hle] at h
      obtain ⟨ir, s₁, hel, hmod⟩ := bind_eq_ok h
      obtain ⟨rfl, -⟩ := elementAt_eq_ok hel
      rw [modify_run] at hmod
      injection hmod with _ hs
      rw [← hs]
      exact ⟨rfl, rfl⟩
    · rw [if_neg hle, modify_run] at h
      injection h with _ hs
      rw [← hs]
      exact ⟨rfl, rfl⟩

theorem mstep_mem (h : MStep decode instructions s es s') (ha : 0 ≤ a.toInt)
    (hes : ∀ w ∈ es, w.1 ≠ a) : s'.mem a = s.mem a := by
  obtain ⟨p, w, -, hstep, rfl⟩ := h
  obtain ⟨⟨⟩, s₁, hrun, hfetch⟩ := bind_eq_ok hstep
  rw [← dispatch_mem hrun ha hes]
  unfold State.mem
  rw [(fetch_registers hfetch).2]

/-- **A cell that a run does not write stays.** -/
theorem runs_mem (h : Runs (MStep decode instructions) n s es s') (ha : 0 ≤ a.toInt)
    (hes : ∀ w ∈ es, w.1 ≠ a) : s'.mem a = s.mem a := by
  induction h with
  | nil s => rfl
  | cons hstep hrest ih =>
    rw [ih fun w hw => hes w (List.mem_append_right _ hw)]
    exact mstep_mem hstep ha fun w hw => hes w (List.mem_append_left _ hw)

end Steps

end Vm
