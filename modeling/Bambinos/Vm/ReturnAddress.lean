import Bambinos.Vm.Frame
import Bambinos.Vm.Memory

/-!
# Machines that differ in return addresses

The same code at another place leaves other return addresses in register 31 and on the stack. That
makes no difference as long as the code does nothing with them but to push and to pop them.

* `Alike` — two machines are the same but for register 31 and the cells of saved return addresses
* `Discreet` — an instruction that does not look at a return address
* `saves` — the cells that hold a return address behind an instruction
* `dispatch_alike` — a discreet instruction that does not jump does the same on both machines
* `branch_alike`, `executeBSR_alike` — a jump, and the jump to another place on the other machine
-/

namespace Vm

open Infra Compiler

variable {ι α β : Type}

/-! ## the return addresses -/

/-- The cell of the memory that an address stands for. -/
def cell (a : Word) : Nat := a.toInt.toNat

/-- The same machine, but for the return addresses in register 31 and in the cells `saved`. -/
structure Alike (saved : Set Nat) (s s' : State ι) : Prop where
  registers : ∀ i, i ≠ 31 → s'.registers i = s.registers i
  memory : ∀ i ∉ saved, s'.memory i = s.memory i
  output : s'.output = s.output

/-- The cell that an instruction reads, other than to restore register 31. -/
def looksAt (f : Fields) (s : State ι) : Set Nat :=
  {i | ∃ base, s.reg f.firstSourceValue = some base ∧
    (f.opCode = OpCode.ldw.code ∧ i = cell (base + imm f.secondSourceValue) ∨
      f.opCode = OpCode.pop.code ∧ f.targetValue ≠ 31 ∧ i = cell base)}

/-- The cell that an instruction writes. -/
def written (f : Fields) (s : State ι) : Set Nat := {i | ∃ x ∈ writes f s, i = cell x.1}

/-- The instruction uses a return address for nothing but to push it or to pop it. -/
structure Discreet (f : Fields) (s : State ι) (saved : Set Nat) : Prop where
  base : f.firstSourceValue ≠ 31
  operand : highestFormat1 < f.opCode → f.secondSourceValue ≠ 31
  target : f.targetValue = 31 →
    f.opCode = OpCode.pop.code ∨ f.opCode = OpCode.psh.code ∨ f.opCode = OpCode.bsr.code
  looks : ∀ i ∈ looksAt f s, i ∉ saved

/-- The cells of return addresses behind an instruction. -/
def saves (f : Fields) (s : State ι) (saved : Set Nat) : Set Nat :=
  if f.targetValue = 31 then saved ∪ written f s else saved \ written f s

variable {saved : Set Nat} {s s' s₁ : State ι} {f : Fields} {i r0 r1 r2 : Int} {v : Option Word}
  {a w : Word}

theorem Alike.reg (h : Alike saved s s') (hne : i ≠ 31) : s'.reg i = s.reg i :=
  h.registers i.toNat (by omega)

theorem Alike.mem (h : Alike saved s s') (ha : cell a ∉ saved) : s'.mem a = s.mem a :=
  h.memory _ ha

theorem Alike.setReg (h : Alike saved s s') : Alike saved (s.setReg i v) (s'.setReg i v) where
  registers j hj := by
    unfold State.setReg
    dsimp only
    rw [Function.update_apply, Function.update_apply, h.registers j hj]
  memory := h.memory
  output := h.output

/-- Register 31 may become what it likes. -/
theorem Alike.setReg_link (h : Alike saved s s') (v v' : Option Word) :
    Alike saved (s.setReg 31 v) (s'.setReg 31 v') where
  registers j hj := by
    unfold State.setReg
    dsimp only
    rw [Function.update_of_ne (by exact hj), Function.update_of_ne (by exact hj),
      h.registers j hj]
  memory := h.memory
  output := h.output

/-- A cell that was written with the same value is the same. -/
theorem Alike.setMem (h : Alike saved s s') :
    Alike (saved \ {cell a}) (s.setMem a v) (s'.setMem a v) where
  registers := h.registers
  memory j hj := by
    unfold State.setMem
    dsimp only
    rw [Function.update_apply, Function.update_apply]
    by_cases hja : j = a.toInt.toNat
    · rw [if_pos hja, if_pos hja]
    · rw [if_neg hja, if_neg hja]
      exact h.memory j fun hmem => hj ⟨hmem, hja⟩
  output := h.output

/-- A cell that a return address was written to holds one from then on. -/
theorem Alike.setMem_link (h : Alike saved s s') (v v' : Option Word) :
    Alike (saved ∪ {cell a}) (s.setMem a v) (s'.setMem a v') where
  registers := h.registers
  memory j hj := by
    have hja : j ≠ a.toInt.toNat := fun hja => hj (Or.inr hja)
    unfold State.setMem
    dsimp only
    rw [Function.update_of_ne hja, Function.update_of_ne hja]
    exact h.memory j fun hmem => hj (Or.inl hmem)
  output := h.output

/-! ## blocks that do the same on both machines -/

/-- The block does on the one machine what it does on the other. -/
def Parallel (saved : Set Nat) (m : M ι α) : Prop :=
  ∀ (s s' s₁ : State ι) (a : α), Alike saved s s' → m s = .ok a s₁ →
    ∃ s₁', m s' = .ok a s₁' ∧ Alike saved s₁ s₁'

namespace Parallel

variable {m m' : M ι α} {f : α → M ι β}

theorem pure (a : α) : Parallel saved (Pure.pure a : M ι α) := by
  intro s s' s₁ b h hrun
  cases hrun
  exact ⟨s', rfl, h⟩

theorem throw (e : Throwable) : Parallel saved (MonadExcept.throw e : M ι α) := by
  intro s s' s₁ b h hrun
  cases hrun

theorem bind (hm : Parallel saved m) (hf : ∀ a, Parallel saved (f a)) :
    Parallel saved (m >>= f) := by
  intro s s' s₂ b h hrun
  obtain ⟨a, s₁, hfirst, hrest⟩ := bind_eq_ok hrun
  obtain ⟨s₁', hfirst', h₁⟩ := hm s s' s₁ a h hfirst
  obtain ⟨s₂', hrest', h₂⟩ := hf a s₁ s₁' s₂ b h₁ hrest
  exact ⟨s₂', by rw [bind_ok hfirst', hrest'], h₂⟩

theorem ite {c : Prop} [Decidable c] (h : Parallel saved m) (h' : Parallel saved m') :
    Parallel saved (if c then m else m') := by
  by_cases hc : c
  · rw [if_pos hc]
    exact h
  · rw [if_neg hc]
    exact h'

theorem getRegister (hi : i ≠ 31) : Parallel saved (getRegister i : M ι (Option Word)) := by
  intro s s' s₁ v h hrun
  obtain ⟨hr, rfl, rfl⟩ := getRegister_eq_ok hrun
  exact ⟨s', by rw [getRegister_run hr, h.reg hi], h⟩

theorem register (hi : i ≠ 31) : Parallel saved (register i : M ι Word) := by
  refine (getRegister hi).bind fun v => ?_
  cases v with
  | none => exact throw _
  | some v => exact pure v

theorem setRegister (v : Option Word) : Parallel saved (setRegister i v : M ι Unit) := by
  intro s s' s₁ u h hrun
  obtain ⟨k, s₂, hindex, -⟩ := bind_eq_ok hrun
  have hr : IsRegister i := checkIndex_eq_ok hindex
  rw [setRegister_run hr] at hrun
  cases hrun
  exact ⟨_, setRegister_run hr v, h.setReg⟩

theorem print (p : Printed) : Parallel saved (print p : M ι Unit) := by
  intro s s' s₁ u h hrun
  cases hrun
  refine ⟨_, rfl, h.registers, h.memory, ?_⟩
  show s'.output ++ [p] = s.output ++ [p]
  rw [h.output]

theorem getMemory (ha : cell a ∉ saved) : Parallel saved (getMemory a : M ι (Option Word)) := by
  intro s s' s₁ v h hrun
  obtain ⟨k, s₂, hindex, -⟩ := bind_eq_ok hrun
  have haddress : IsAddress a := checkIndex_eq_ok hindex
  rw [getMemory_run haddress] at hrun
  cases hrun
  exact ⟨s', by rw [getMemory_run haddress, h.mem ha], h⟩

end Parallel

/-! ## instructions -/

/-- An instruction that has nothing to do with the memory. -/
theorem dispatch_parallel (hbase : f.firstSourceValue ≠ 31)
    (hoperand : highestFormat1 < f.opCode → f.secondSourceValue ≠ 31)
    (htarget : f.targetValue ≠ 31) (hldw : f.opCode ≠ 13) (hpop : f.opCode ≠ 15)
    (hstw : f.opCode ≠ 16) (hpsh : f.opCode ≠ 18) (hstay : ¬ Jumps f.opCode) :
    Parallel saved (dispatch f : M ι Unit) := by
  obtain ⟨opCode, r0, r1, r2⟩ := f
  dsimp only at *
  have h0 : Parallel saved (register r0 : M ι Word) := Parallel.register htarget
  have h1 : Parallel saved (register r1 : M ι Word) := Parallel.register hbase
  simp only [Jumps, isBranch, not_or, not_and, not_le] at hstay
  unfold dispatch
  dsimp only
  split
  case h_14 | h_15 | h_16 | h_17 => omega
  case h_18 | h_19 | h_20 | h_21 | h_22 | h_23 | h_40 | h_41 => omega
  case h_42 => exact Parallel.print _
  all_goals
    try have h2 : Parallel saved (register r2 : M ι Word) :=
      Parallel.register (hoperand (by decide))
    try have h2' : Parallel saved (getRegister r2 : M ι (Option Word)) :=
      Parallel.getRegister (hoperand (by decide))
    simp only [executeADD, executeADDI, executeSUB, executeSUBI, executeMUL, executeMULI,
      executeDIV, executeDIVI, executeMOD, executeMODI, executeCMP, executeCMPI, executeCHK,
      executeCHKI, executeAND, executeANDI, executeBIC, executeBICI, executeOR, executeORI,
      executeXOR, executeXORI, executeLSH, executeLSHI, executeASH, executeASHI, executePRNI,
      executePRNC, executePRNB]
    repeat first
      | exact h0
      | exact h1
      | exact h2
      | exact h2'
      | exact Parallel.setRegister _
      | exact Parallel.print _
      | exact Parallel.pure _
      | refine Parallel.bind ?_ fun _ => ?_
      | refine Parallel.ite ?_ ?_
      | split

/-- Only two instructions write to the memory. -/
theorem saves_eq (hstw : f.opCode ≠ 16) (hpsh : f.opCode ≠ 18) : saves f s saved = saved := by
  have hwrites : writes f s = [] := by
    unfold writes
    split
    · rw [if_neg (by exact hstw), if_neg (by exact hpsh)]
    · rfl
  have hwritten : written f s = ∅ := by
    unfold written
    rw [hwrites]
    simp
  unfold saves
  rw [hwritten, Set.union_empty, Set.sdiff_empty, ite_self]

theorem executeLDW_alike (h : Alike saved s s') (hbase : r1 ≠ 31)
    (hlooks : ∀ base, s.reg r1 = some base → cell (base + imm r2) ∉ saved)
    (hrun : executeLDW r0 r1 r2 s = .ok () s₁) :
    ∃ s₁', executeLDW r0 r1 r2 s' = .ok () s₁' ∧ Alike saved s₁ s₁' := by
  obtain ⟨base, s₂, hread, hrest⟩ := bind_eq_ok hrun
  obtain ⟨hr, hv, rfl⟩ := register_eq_ok hread
  have hload : Parallel saved (do setRegister r0 (← getMemory (base + imm r2)) : M ι Unit) :=
    (Parallel.getMemory (hlooks base hv)).bind fun _ => Parallel.setRegister _
  obtain ⟨s₁', hrun', h'⟩ := hload _ _ _ _ h hrest
  refine ⟨s₁', ?_, h'⟩
  unfold executeLDW
  rw [bind_ok (register_run hr ((h.reg hbase).trans hv))]
  exact hrun'

/-- A return address may be restored; anything else that is popped is none. -/
theorem executePOP_alike (h : Alike saved s s') (hbase : r1 ≠ 31)
    (hlooks : r0 ≠ 31 → ∀ base, s.reg r1 = some base → cell base ∉ saved)
    (hrun : executePOP r0 r1 r2 s = .ok () s₁) :
    ∃ s₁', executePOP r0 r1 r2 s' = .ok () s₁' ∧ Alike saved s₁ s₁' := by
  obtain ⟨base, s₂, hread, hrest⟩ := bind_eq_ok hrun
  obtain ⟨hr, hv, rfl⟩ := register_eq_ok hread
  have hmove : Parallel saved (do setRegister r1 (some ((← register r1) + imm r2)) : M ι Unit) :=
    (Parallel.register hbase).bind fun _ => Parallel.setRegister _
  unfold executePOP
  rw [bind_ok (register_run hr ((h.reg hbase).trans hv))]
  by_cases hlink : r0 = 31
  · subst hlink
    obtain ⟨v, s₃, hget, hrest⟩ := bind_eq_ok hrest
    obtain ⟨k, s₄, hindex, -⟩ := bind_eq_ok hget
    have haddress : IsAddress base := checkIndex_eq_ok hindex
    rw [getMemory_run haddress] at hget
    cases hget
    rw [bind_ok (setRegister_run (by decide) _)] at hrest
    obtain ⟨s₁', hrun', h'⟩ := hmove _ _ _ _ (h.setReg_link _ (s'.mem base)) hrest
    refine ⟨s₁', ?_, h'⟩
    rw [bind_ok (getMemory_run haddress), bind_ok (setRegister_run (by decide) _)]
    exact hrun'
  · have hpop : Parallel saved (do
        setRegister r0 (← getMemory base)
        setRegister r1 (some ((← register r1) + imm r2)) : M ι Unit) :=
      (Parallel.getMemory (hlooks hlink base hv)).bind fun _ =>
        (Parallel.setRegister _).bind fun _ => hmove
    exact hpop _ _ _ _ h hrest

theorem executeSTW_alike (h : Alike saved s s') (htarget : r0 ≠ 31) (hbase : r1 ≠ 31)
    (hrun : executeSTW r0 r1 r2 s = .ok () s₁) : ∃ base, s.reg r1 = some base ∧
      ∃ s₁', executeSTW r0 r1 r2 s' = .ok () s₁' ∧
        Alike (saved \ {cell (base + imm r2)}) s₁ s₁' := by
  obtain ⟨base, s₂, hread, hrest⟩ := bind_eq_ok hrun
  obtain ⟨hr, hv, rfl⟩ := register_eq_ok hread
  obtain ⟨w, s₃, hget, hset⟩ := bind_eq_ok hrest
  obtain ⟨hr0, rfl, rfl⟩ := getRegister_eq_ok hget
  obtain ⟨haddress, rfl⟩ := setMemory_eq_ok hset
  refine ⟨base, hv, _, ?_, h.setMem⟩
  rw [executeSTW_run hr0 hr ((h.reg hbase).trans hv) haddress, h.reg htarget]

theorem executePSH_alike (h : Alike saved s s') (hbase : r1 ≠ 31)
    (hrun : executePSH r0 r1 r2 s = .ok () s₁) : ∃ base, s.reg r1 = some base ∧
      ∃ s₁', executePSH r0 r1 r2 s' = .ok () s₁' ∧
        Alike (if r0 = 31 then saved ∪ {cell (base - imm r2)} else saved \ {cell (base - imm r2)})
          s₁ s₁' := by
  obtain ⟨base, s₂, hread, hrest⟩ := bind_eq_ok hrun
  obtain ⟨hr, hv, rfl⟩ := register_eq_ok hread
  rw [bind_ok (setRegister_run hr _), bind_ok (register_run hr State.reg_setReg_self)] at hrest
  obtain ⟨w, s₃, hget, hset⟩ := bind_eq_ok hrest
  obtain ⟨hr0, rfl, rfl⟩ := getRegister_eq_ok hget
  obtain ⟨haddress, rfl⟩ := setMemory_eq_ok hset
  have hmoved : Alike saved (s₂.setReg r1 (some (base - imm r2)))
      (s'.setReg r1 (some (base - imm r2))) := h.setReg
  refine ⟨base, hv, (s'.setReg r1 (some (base - imm r2))).setMem (base - imm r2)
    ((s'.setReg r1 (some (base - imm r2))).reg r0), ?_, ?_⟩
  · unfold executePSH
    rw [bind_ok (register_run hr ((h.reg hbase).trans hv)), bind_ok (setRegister_run hr _),
      bind_ok (register_run hr State.reg_setReg_self), bind_ok (getRegister_run hr0),
      setMemory_run haddress]
  · by_cases hlink : r0 = 31
    · rw [if_pos hlink]
      exact hmoved.setMem_link _ _
    · rw [if_neg hlink, hmoved.reg hlink]
      exact hmoved.setMem

theorem written_of_writes {v : Option Word} (h : writes f s = [(a, v)]) :
    written f s = {cell a} := by
  unfold written
  rw [h]
  simp

/-- **A discreet instruction does the same** on machines that differ in return addresses. -/
theorem dispatch_alike (h : Alike saved s s') (hdiscreet : Discreet f s saved)
    (hstay : ¬ Jumps f.opCode) (hrun : dispatch f s = .ok () s₁) :
    ∃ s₁', dispatch f s' = .ok () s₁' ∧ Alike (saves f s saved) s₁ s₁' := by
  obtain ⟨hbase, hoperand, htarget, hunseen⟩ := hdiscreet
  obtain ⟨opCode, r0, r1, r2⟩ := f
  dsimp only at hbase hoperand htarget hstay
  by_cases hldw : opCode = 13
  · subst hldw
    rw [saves_eq (by simp) (by simp)]
    exact executeLDW_alike h hbase
      (fun base hbase => hunseen _ ⟨base, hbase, Or.inl ⟨rfl, rfl⟩⟩) hrun
  by_cases hpop : opCode = 15
  · subst hpop
    rw [saves_eq (by simp) (by simp)]
    exact executePOP_alike h hbase
      (fun hlink base hbase => hunseen _ ⟨base, hbase, Or.inr ⟨rfl, hlink, rfl⟩⟩) hrun
  by_cases hstw : opCode = 16
  · subst hstw
    have hr0 : r0 ≠ 31 := fun hlink => absurd (htarget hlink) (by decide)
    obtain ⟨base, hv, s₁', hrun', h'⟩ := executeSTW_alike h hr0 hbase hrun
    refine ⟨s₁', hrun', ?_⟩
    have hwrites : writes ⟨16, r0, r1, r2⟩ s = [(base + imm r2, s.reg r0)] := writes_stw rfl hv
    unfold saves
    rw [if_neg hr0, written_of_writes hwrites]
    exact h'
  by_cases hpsh : opCode = 18
  · subst hpsh
    obtain ⟨base, hv, s₁', hrun', h'⟩ := executePSH_alike h hbase hrun
    refine ⟨s₁', hrun', ?_⟩
    have hwrites : writes ⟨18, r0, r1, r2⟩ s = [(base - imm r2, s.reg r0)] := writes_psh rfl hv
    unfold saves
    rw [written_of_writes hwrites]
    exact h'
  · have hr0 : r0 ≠ 31 := by
      intro hlink
      rcases htarget hlink with hop | hop | hop
      · exact hpop hop
      · exact hpsh hop
      · exact hstay (Or.inr (Or.inl hop))
    rw [saves_eq hstw hpsh]
    exact dispatch_parallel hbase hoperand hr0 hldw hpop hstw hpsh hstay s s' s₁ () h hrun

/-! ## the same instruction on the other machine -/

theorem looksAt_alike (h : Alike saved s s') (hbase : f.firstSourceValue ≠ 31) :
    looksAt f s' = looksAt f s := by
  unfold looksAt
  rw [h.reg hbase]

theorem written_alike (h : Alike saved s s') (hbase : f.firstSourceValue ≠ 31) :
    written f s' = written f s := by
  unfold written writes
  rw [h.reg hbase]
  cases s.reg f.firstSourceValue with
  | none => rfl
  | some base =>
    dsimp only
    split
    · simp
    · split
      · simp
      · rfl

theorem Discreet.alike (hdiscreet : Discreet f s saved) (h : Alike saved s s') :
    Discreet f s' saved where
  base := hdiscreet.base
  operand := hdiscreet.operand
  target := hdiscreet.target
  looks := by
    rw [looksAt_alike h hdiscreet.base]
    exact hdiscreet.looks

theorem saves_alike (hdiscreet : Discreet f s saved) (h : Alike saved s s') :
    saves f s' saved = saves f s saved := by
  unfold saves
  rw [written_alike h hdiscreet.base]

/-- An instruction that neither loads nor pops looks at nothing. -/
theorem looksAt_eq (hldw : f.opCode ≠ 13) (hpop : f.opCode ≠ 15) : looksAt f s = ∅ := by
  refine Set.eq_empty_iff_forall_notMem.mpr ?_
  rintro i ⟨base, -, ⟨hop, -⟩ | ⟨hop, -⟩⟩
  · exact hldw hop
  · exact hpop hop

/-! ## jumps -/

/-- A jump to a place in the code, and the jump to another place. -/
theorem executeBSR_alike {t t' : Int} (h : Alike saved s s') (ht' : s₁.pc = some t → t' ≠ -1)
    (hrun : executeBSR t s = .ok () s₁) (hpc : s₁.pc ≠ none) : s₁.pc = some t ∧
      ∃ s₁', executeBSR t' s' = .ok () s₁' ∧ s₁'.pc = some t' ∧ Alike saved s₁ s₁' := by
  by_cases ht : t = -1
  · exfalso
    unfold executeBSR at hrun
    rw [if_pos ht] at hrun
    cases hrun
    exact hpc rfl
  · rw [executeBSR_run ht] at hrun
    cases hrun
    have hlink := h.setReg_link (s.pc.map (BitVec.ofInt 32)) (s'.pc.map (BitVec.ofInt 32))
    exact ⟨rfl, _, executeBSR_run (ht' rfl), rfl, hlink.registers, hlink.memory, hlink.output⟩

/-- The six branches. -/
theorem dispatch_branch (hbranch : isBranch f.opCode) : ∃ taken : Int → Bool, ∀ t,
    (dispatch { f with secondSourceValue := t } : M ι Unit) = branch taken f.targetValue t := by
  obtain ⟨opCode, r0, r1, r2⟩ := f
  obtain ⟨hlow, hhigh⟩ := hbranch
  dsimp only at hlow hhigh
  have hcases : opCode = 19 ∨ opCode = 20 ∨ opCode = 21 ∨ opCode = 22 ∨ opCode = 23 ∨
      opCode = 24 := by omega
  rcases hcases with rfl | rfl | rfl | rfl | rfl | rfl
  · exact ⟨fun v => v == 0, fun _ => rfl⟩
  · exact ⟨fun v => v != 0, fun _ => rfl⟩
  · exact ⟨fun v => v < 0, fun _ => rfl⟩
  · exact ⟨fun v => 0 ≤ v, fun _ => rfl⟩
  · exact ⟨fun v => 0 < v, fun _ => rfl⟩
  · exact ⟨fun v => v ≤ 0, fun _ => rfl⟩

/-- A branch that is taken, or is not. -/
theorem branch_alike {taken : Int → Bool} {t t' : Int} (h : Alike saved s s') (hr0 : r0 ≠ 31)
    (ht' : s₁.pc = some t → t' ≠ -1) (hrun : branch taken r0 t s = .ok () s₁)
    (hpc : s₁.pc ≠ none) :
    ∃ s₁', branch taken r0 t' s' = .ok () s₁' ∧ Alike saved s₁ s₁' ∧
      (s₁.pc = s.pc ∧ s₁'.pc = s'.pc ∨ s₁.pc = some t ∧ s₁'.pc = some t') := by
  obtain ⟨v, s₂, hread, hrest⟩ := bind_eq_ok hrun
  obtain ⟨hr, hv, rfl⟩ := register_eq_ok hread
  rw [branch_run hr ((h.reg hr0).trans hv)]
  by_cases htaken : taken v.toInt = true
  · rw [if_pos htaken] at hrest ⊢
    obtain ⟨htarget, s₁', hrun', htarget', h'⟩ := executeBSR_alike h ht' hrest hpc
    exact ⟨s₁', hrun', h', Or.inr ⟨htarget, htarget'⟩⟩
  · rw [if_neg htaken] at hrest ⊢
    cases hrest
    exact ⟨s', rfl, h, Or.inl ⟨rfl, rfl⟩⟩

end Vm
