import Bambinos.Vm.Frame
import Bambinos.Vm.Run

/-!
# Straight-line code

* `executeAll`, `writesAll` — instructions one after the other, without a program counter
* `straight_run` — a piece of code that does not jump does the same where it is loaded
* `straight_inv` — and whatever a run of it did is that
-/

namespace Vm

open Infra Compiler

variable {ι : Type} {decode : ι → Fields} {instructions : Instructions ι} {s s₁ s₂ s' : State ι}
  {a : Nat} {e : OpCodeElement} {code : List OpCodeElement}

/-- Runs a list of instructions. -/
def executeAll : List OpCodeElement → M ι Unit
  | [] => pure ()
  | e :: rest => do
    dispatch (fields e)
    executeAll rest

/-- What they write to the memory. -/
def writesAll : List OpCodeElement → State ι → List (Word × Option Word)
  | [], _ => []
  | e :: rest, s =>
    writes (fields e) s ++
      match dispatch (fields e) s with
      | .ok _ s' => writesAll rest s'
      | .error _ _ => []

theorem writesAll_cons (h : dispatch (fields e) s = .ok () s₁) :
    writesAll (e :: code) s = writes (fields e) s ++ writesAll code s₁ := by
  rw [writesAll, h]

theorem executeAll_cons (h : dispatch (fields e) s = .ok () s₁) :
    executeAll (e :: code) s = executeAll code s₁ := bind_ok h

/-- No instruction of the code writes the program counter. -/
def Straight (code : List OpCodeElement) : Prop := ∀ e ∈ code, ¬ Jumps e.instruction.code

instance (code : List OpCodeElement) : Decidable (Straight code) :=
  inferInstanceAs (Decidable (∀ e ∈ code, ¬ Jumps e.instruction.code))

theorem fields_opCode (e : OpCodeElement) : (fields e).opCode = e.instruction.code := by
  unfold fields
  split <;> rfl

/-- An instruction that is no store and no push writes nothing. -/
theorem writes_eq_nil (h : ∀ o ∈ [OpCode.stw, OpCode.psh], e.instruction.code ≠ o.code) :
    writes (fields e) s = [] := by
  have hstw := h .stw (by decide)
  have hpsh := h .psh (by decide)
  unfold writes
  rw [fields_opCode]
  cases s.reg (fields e).firstSourceValue with
  | none => rfl
  | some base =>
    dsimp only
    rw [if_neg hstw, if_neg hpsh]

theorem executeAll_withPC (hcode : Straight code) (pc : Option Int) (ir : Option ι) (cip : Int)
    (h : executeAll code s = .ok () s') :
    executeAll code (s.withPC pc ir cip) = .ok () (s'.withPC pc ir cip) := by
  induction code generalizing s with
  | nil =>
    cases h
    rfl
  | cons e rest ih =>
    obtain ⟨_, s₁, hfirst, hrest⟩ := bind_eq_ok h
    have hjump := hcode e List.mem_cons_self
    rw [← fields_opCode] at hjump
    have hcommutes := @dispatch_commutes ι pc ir cip (fields e) hjump
    rw [executeAll_cons (hcommutes.ok hfirst)]
    exact ih (fun e' he' => hcode e' (List.mem_cons_of_mem _ he')) hrest

theorem writesAll_withPC (hcode : Straight code) (pc : Option Int) (ir : Option ι) (cip : Int)
    (h : executeAll code s = .ok () s') :
    writesAll code (s.withPC pc ir cip) = writesAll code s := by
  induction code generalizing s with
  | nil => rfl
  | cons e rest ih =>
    obtain ⟨_, s₁, hfirst, hrest⟩ := bind_eq_ok h
    have hjump := hcode e List.mem_cons_self
    rw [← fields_opCode] at hjump
    have hcommutes := @dispatch_commutes ι pc ir cip (fields e) hjump
    rw [writesAll_cons hfirst, writesAll_cons (hcommutes.ok hfirst),
      ih (fun e' he' => hcode e' (List.mem_cons_of_mem _ he')) hrest]
    rfl

/-- A state is what it was before the fetch but for the program counter. -/
theorem eq_withPC (hr : s'.registers = s₁.registers) (hm : s'.memory = s₁.memory)
    (ho : s'.output = s₁.output) : s' = s₁.withPC s'.pc s'.ir s'.cip := by
  obtain ⟨registers, memory, pc, ir, cip, output⟩ := s'
  dsimp only at hr hm ho
  subst hr hm ho
  rfl

/-- An instruction that does not jump, and the fetch behind it. -/
theorem straight_step (hcode : Loaded decode instructions a (e :: code))
    (hjump : ¬ Jumps e.instruction.code) (hhere : Here instructions a s)
    (hrun : dispatch (fields e) s = .ok () s₁) (hnext : Stands instructions (a + 1)) :
    ∃ s', MStep decode instructions s (writes (fields e) s) s' ∧ Here instructions (a + 1) s' ∧
      s' = s₁.withPC s'.pc s'.ir s'.cip := by
  obtain ⟨w, hw, hd, -⟩ := hcode.head
  obtain ⟨w', hat⟩ := hhere
  obtain rfl : w = w' := Option.some.inj (Option.some.inj (hw.symm.trans hat.word))
  have hpc : s₁.pc = some ((a + 1 : Nat) : Int) := by
    rw [dispatch_pc (by rwa [fields_opCode]) hrun, hat.pc]
    rfl
  obtain ⟨w₁, hw₁⟩ := hnext.word
  obtain ⟨s', hfetch, hat', hr, hm, ho⟩ := fetch_run hpc hw₁ hnext.lt
  refine ⟨s', ⟨a, w, hat, ?_, by rw [hd]⟩, ⟨w₁, hat'⟩, eq_withPC hr hm ho⟩
  rw [← hd] at hrun
  unfold step
  rw [bind_ok hrun]
  exact hfetch

/-- **Straight-line code** is executed up to its end. -/
theorem straight_run (hcode : Loaded decode instructions a code) (hstraight : Straight code)
    (hhere : Here instructions a s) (hrun : executeAll code s = .ok () s₁)
    (hnext : Stands instructions (a + code.length)) :
    ∃ s', Runs (MStep decode instructions) code.length s (writesAll code s) s' ∧
      Here instructions (a + code.length) s' ∧ Looks s₁ s' := by
  induction code generalizing a s s₁ with
  | nil =>
    cases hrun
    exact ⟨s, .nil s, hhere, rfl, rfl⟩
  | cons e rest ih =>
    obtain ⟨_, s₂, hfirst, hrest⟩ := bind_eq_ok hrun
    have hjump := hstraight e List.mem_cons_self
    have hstraight' : Straight rest := fun e' he' => hstraight e' (List.mem_cons_of_mem _ he')
    have hlen : a + 1 + rest.length = a + (e :: rest).length := by
      rw [List.length_cons]
      omega
    rw [← hlen] at hnext
    have hnext₁ : Stands instructions (a + 1) := by
      cases rest with
      | nil => exact hnext
      | cons e' rest => exact hcode.tail.stands
    obtain ⟨s₃, hstep, hhere₃, heq⟩ := straight_step hcode hjump hhere hfirst hnext₁
    have hrest₃ := executeAll_withPC hstraight' s₃.pc s₃.ir s₃.cip hrest
    have hwrites := writesAll_withPC hstraight' s₃.pc s₃.ir s₃.cip hrest
    rw [← heq] at hrest₃ hwrites
    obtain ⟨s', hruns, hhere', hlooks⟩ := ih hcode.tail hstraight' hhere₃ hrest₃ hnext
    rw [hlen] at hhere'
    rw [hwrites] at hruns
    rw [writesAll_cons hfirst]
    exact ⟨s', .cons hstep hruns, hhere', hlooks.registers, hlooks.memory⟩

/-- What was executed, when a run of straight-line code came to its end. -/
theorem straight_inv (hcode : Loaded decode instructions a code) (hstraight : Straight code)
    (hhere : Here instructions a s) {es : List (Word × Option Word)}
    (hrun : Runs (MStep decode instructions) code.length s es s')
    (hnext : Stands instructions (a + code.length)) :
    ∃ s₁, executeAll code s = .ok () s₁ ∧ Here instructions (a + code.length) s' ∧ Looks s₁ s' := by
  induction code generalizing a s es with
  | nil =>
    cases hrun
    exact ⟨_, rfl, hhere, rfl, rfl⟩
  | cons e rest ih =>
    cases hrun with
    | cons hstep hrest =>
      have hjump := hstraight e List.mem_cons_self
      have hstraight' : Straight rest := fun e' he' => hstraight e' (List.mem_cons_of_mem _ he')
      have hlen : a + 1 + rest.length = a + (e :: rest).length := by
        rw [List.length_cons]
        omega
      rw [← hlen] at hnext
      have hnext₁ : Stands instructions (a + 1) := by
        cases rest with
        | nil => exact hnext
        | cons e' rest => exact hcode.tail.stands
      obtain ⟨w, hat, hdispatch⟩ : ∃ w, At instructions a w s ∧ decode w = fields e := by
        obtain ⟨w, hw, hd, -⟩ := hcode.head
        obtain ⟨w', hat⟩ := hhere
        obtain rfl : w = w' := Option.some.inj (Option.some.inj (hw.symm.trans hat.word))
        exact ⟨w, hat, hd⟩
      obtain ⟨a', w', hat', hexecute, -⟩ := hstep
      obtain ⟨-, rfl⟩ := hat.unique hat'
      obtain ⟨⟨⟩, s₂, hfirst, -⟩ := bind_eq_ok hexecute
      rw [hdispatch] at hfirst
      obtain ⟨s₃, hstep₃, hhere₃, heq⟩ := straight_step hcode hjump hhere hfirst hnext₁
      obtain ⟨-, rfl⟩ := mstep_det ⟨a', w, hat', hexecute, rfl⟩ hstep₃
      obtain ⟨s₁, hall, hhere', hlooks⟩ := ih hcode.tail hstraight' hhere₃ hrest hnext
      rw [hlen] at hhere'
      have hback := executeAll_withPC hstraight' s₂.pc s₂.ir s₂.cip hall
      rw [heq] at hback
      exact ⟨_, (executeAll_cons hfirst).trans hback, hhere', hlooks.registers, hlooks.memory⟩

end Vm
