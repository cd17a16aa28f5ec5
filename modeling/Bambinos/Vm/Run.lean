import Bambinos.Infra.Simulation
import Bambinos.Vm.Encoding
import Bambinos.Vm.Instructions

/-!
# Running code

* `At` — the machine is about to execute the instruction at an address
* `MStep` — a turn of the loop of `execute`, with what it writes to the memory
* `Loaded` — a piece of code stands in the instruction array
* `WordsAt` — the words of a piece of code stand in it
* `next_run`, `jump_run` — where the machine goes from an instruction
-/

namespace Vm

open Infra Compiler

variable {ι : Type}

/-- The machine is about to execute the instruction at address `a`. -/
structure At (instructions : Instructions ι) (a : Nat) (w : ι) (s : State ι) : Prop where
  word : instructions[a]? = some (some w)
  ir : s.ir = some w
  cip : s.cip = a
  pc : s.pc = some ((a : Int) + 1)
  lt : a + 1 < instructions.length

/-- The address of an instruction that is not the last one. -/
structure Stands (instructions : Instructions ι) (a : Nat) : Prop where
  word : ∃ w, instructions[a]? = some (some w)
  lt : a + 1 < instructions.length

/-! ## fetching -/

section Fetch

variable {instructions : Instructions ι} {a : Nat} {w w' : ι} {s s' : State ι}

theorem At.stands (h : At instructions a w s) : Stands instructions a := ⟨⟨w, h.word⟩, h.lt⟩

/-- There is one instruction that is about to be executed. -/
theorem At.unique {a' : Nat} (h : At instructions a w s) (h' : At instructions a' w' s) :
    a = a' ∧ w = w' := by
  have hcip := h.cip.symm.trans h'.cip
  have hir := h.ir.symm.trans h'.ir
  exact ⟨by omega, Option.some.inj hir⟩

/-- A program counter inside of the code fetches what stands there. -/
theorem fetch_run (hpc : s.pc = some (a : Int)) (hw : instructions[a]? = some (some w))
    (hlt : a + 1 < instructions.length) :
    ∃ s', fetch instructions s = .ok () s' ∧ At instructions a w s' ∧
      s'.registers = s.registers ∧ s'.memory = s.memory ∧ s'.output = s.output := by
  have hle : (a : Int) ≤ instructions.length := by omega
  have hnext : increasePC instructions a = some ((a : Int) + 1) := by
    unfold increasePC
    rw [if_pos (by omega)]
  refine ⟨{ s with ir := some w, cip := a, pc := some ((a : Int) + 1) }, ?_,
    ⟨hw, rfl, rfl, rfl, hlt⟩, rfl, rfl, rfl⟩
  simp only [fetch, bind_run, get_run, hpc, hle, if_true, elementAt_run hw, modify_run, hnext]

/-- Where the machine is after a fetch, its program counter was before. -/
theorem fetch_at (hrun : fetch instructions s = .ok () s') (h : At instructions a w s') :
    s.pc = some (a : Int) ∧ s'.registers = s.registers ∧ s'.memory = s.memory ∧
      s'.output = s.output := by
  have hir := h.ir
  have hcip := h.cip
  cases hpc : s.pc with
  | none =>
    simp only [fetch, bind_run, get_run, hpc, modify_run] at hrun
    injection hrun with _ hs'
    rw [← hs'] at hir
    cases hir
  | some pc =>
    simp only [fetch, bind_run, get_run, hpc] at hrun
    by_cases hle : pc ≤ instructions.length
    · rw [if_pos hle] at hrun
      obtain ⟨ir, s₁, hel, hmod⟩ := bind_eq_ok hrun
      obtain ⟨hs₁, -⟩ := elementAt_eq_ok hel
      rw [modify_run] at hmod
      injection hmod with _ hs'
      rw [← hs'] at hcip
      refine ⟨congrArg some hcip, ?_, ?_, ?_⟩ <;> rw [← hs', hs₁]
    · rw [if_neg hle, modify_run] at hrun
      injection hrun with _ hs'
      rw [← hs'] at hir
      cases hir

end Fetch

/-! ## loaded code -/

theorem load_getElem? {code : List ι} {a : Nat} {w : ι} (h : (load code)[a]? = some (some w)) :
    ∃ i, a = i + 1 ∧ code[i]? = some w := by
  cases a with
  | zero => simp [load] at h
  | succ i =>
    refine ⟨i, rfl, ?_⟩
    simp only [load, List.cons_append, List.getElem?_cons_succ] at h
    by_cases hi : i < code.length
    · rw [List.getElem?_append_left (by simpa using hi), List.getElem?_map] at h
      simpa using h
    · rw [List.getElem?_append_right (by simpa using hi)] at h
      have := List.mem_of_getElem? h
      simp at this

theorem load_getElem?_succ {code : List ι} {i : Nat} {w : ι} (h : code[i]? = some w) :
    (load code)[i + 1]? = some (some w) := by
  have hi := (List.getElem?_eq_some_iff.mp h).1
  simp only [load, List.cons_append, List.getElem?_cons_succ]
  rw [List.getElem?_append_left (by simpa using hi), List.getElem?_map, h]
  rfl

theorem load_length (code : List ι) : (load code).length = code.length + 2 := by
  simp [load]

/-- What stands at the addresses from `p` on decodes to the given instructions. -/
def Loaded (decode : ι → Fields) (instructions : Instructions ι) (p : Nat)
    (code : List OpCodeElement) : Prop :=
  ∀ i e, code[i]? = some e → ∃ w, instructions[p + i]? = some (some w) ∧ decode w = fields e ∧
    p + i + 1 < instructions.length

section Loaded

variable {decode : ι → Fields} {instructions : Instructions ι} {p : Nat}
  {code code' : List OpCodeElement} {e : OpCodeElement}

theorem Loaded.left (h : Loaded decode instructions p (code ++ code')) :
    Loaded decode instructions p code := by
  intro i e he
  have hi := (List.getElem?_eq_some_iff.mp he).1
  exact h i e (by rw [List.getElem?_append_left hi]; exact he)

theorem Loaded.right (h : Loaded decode instructions p (code ++ code')) :
    Loaded decode instructions (p + code.length) code' := by
  intro i e he
  obtain ⟨w, hw, hd, hlt⟩ := h (code.length + i) e (by
    rw [List.getElem?_append_right (by omega), Nat.add_sub_cancel_left]
    exact he)
  rw [← Nat.add_assoc] at hw hlt
  exact ⟨w, hw, hd, hlt⟩

theorem Loaded.tail (h : Loaded decode instructions p (e :: code)) :
    Loaded decode instructions (p + 1) code :=
  @Loaded.right _ _ _ _ [e] code h

theorem Loaded.head (h : Loaded decode instructions p (e :: code)) :
    ∃ w, instructions[p]? = some (some w) ∧ decode w = fields e ∧ p + 1 < instructions.length :=
  h 0 e rfl

theorem Loaded.stands (h : Loaded decode instructions p (e :: code)) : Stands instructions p := by
  obtain ⟨w, hw, -, hlt⟩ := h.head
  exact ⟨⟨w, hw⟩, hlt⟩

/-- Where code stands that is not empty, an instruction stands. -/
theorem Loaded.stands_of_length (h : Loaded decode instructions p code) (hpos : 0 < code.length) :
    Stands instructions p := by
  cases code with
  | nil => cases hpos
  | cons e code => exact h.stands

end Loaded

/-- The words of a piece of code stand at the addresses from `p` on. -/
def WordsAt (instructions : Instructions Word) (p : Nat) (code : List OpCodeElement) : Prop :=
  ∀ i e, code[i]? = some e → instructions[p + i]? = some (some e.word) ∧
    p + i + 1 < instructions.length

/-- **Words that the operands fit into** are executed as they were meant. -/
theorem WordsAt.loaded {instructions : Instructions Word} {p : Nat} {code : List OpCodeElement}
    (h : WordsAt instructions p code) (hfits : ∀ e ∈ code, OperandsFit e) :
    Loaded decode instructions p code := by
  intro i e he
  obtain ⟨hw, hlt⟩ := h i e he
  exact ⟨e.word, hw, decode_word (hfits e (List.mem_of_getElem? he)), hlt⟩

theorem WordsAt.left {instructions : Instructions Word} {p : Nat} {code code' : List OpCodeElement}
    (h : WordsAt instructions p (code ++ code')) : WordsAt instructions p code := by
  intro i e he
  have hi := (List.getElem?_eq_some_iff.mp he).1
  exact h i e (by rw [List.getElem?_append_left hi]; exact he)

/-- A piece of the code of a binary file. -/
theorem wordsAt_load (pre code post : List OpCodeElement) :
    WordsAt (load ((pre ++ (code ++ post)).map OpCodeElement.word)) (pre.length + 1) code := by
  intro i e he
  have hi := (List.getElem?_eq_some_iff.mp he).1
  constructor
  · rw [Nat.add_right_comm]
    refine load_getElem?_succ ?_
    rw [List.getElem?_map, List.getElem?_append_right (Nat.le_add_right _ _),
      Nat.add_sub_cancel_left, List.getElem?_append_left hi, he]
    rfl
  · rw [load_length, List.length_map, List.length_append, List.length_append]
    omega

/-- An instruction behind a piece of the code of a binary file. -/
theorem stands_load (pre code : List OpCodeElement) (e : OpCodeElement) (post : List OpCodeElement) :
    Stands (load ((pre ++ (code ++ e :: post)).map OpCodeElement.word))
      (pre.length + 1 + code.length) := by
  have h := (wordsAt_load (pre ++ code) [e] post) 0 e rfl
  rw [List.append_assoc, List.length_append, Nat.add_zero, Nat.add_right_comm,
    List.singleton_append] at h
  exact ⟨⟨e.word, h.1⟩, h.2⟩

/-! ## steps -/

/-- What an instruction writes to the memory. -/
def writes (f : Fields) (s : State ι) : List (Word × Option Word) :=
  match s.reg f.firstSourceValue with
  | some base =>
    if f.opCode = OpCode.stw.code then [(base + imm f.secondSourceValue, s.reg f.targetValue)]
    else if f.opCode = OpCode.psh.code then
      [(base - imm f.secondSourceValue, s.reg f.targetValue)]
    else []
  | none => []

section Writes

variable {f : Fields} {s : State ι} {base : Word}

theorem writes_stw (hop : f.opCode = OpCode.stw.code) (hbase : s.reg f.firstSourceValue = some base) :
    writes f s = [(base + imm f.secondSourceValue, s.reg f.targetValue)] := by
  unfold writes
  rw [hbase]
  exact if_pos hop

theorem writes_psh (hop : f.opCode = OpCode.psh.code) (hbase : s.reg f.firstSourceValue = some base) :
    writes f s = [(base - imm f.secondSourceValue, s.reg f.targetValue)] := by
  have hstw : f.opCode ≠ OpCode.stw.code := by
    rw [hop]
    decide
  unfold writes
  rw [hbase]
  exact (if_neg hstw).trans (if_pos hop)

end Writes

/-- A turn of the loop of `execute`. -/
def MStep (decode : ι → Fields) (instructions : Instructions ι) (s : State ι)
    (es : List (Word × Option Word)) (s' : State ι) : Prop :=
  ∃ a w, At instructions a w s ∧ step decode instructions w s = .ok () s' ∧ es = writes (decode w) s

section Steps

variable {decode : ι → Fields} {instructions : Instructions ι} {s s' s₁ s₂ : State ι}
  {es es' : List (Word × Option Word)} {a b : Nat} {w : ι}

/-- The machine is deterministic. -/
theorem mstep_det (h : MStep decode instructions s es s₁) (h' : MStep decode instructions s es' s₂) :
    es' = es ∧ s₂ = s₁ := by
  obtain ⟨a, w, hat, hstep, rfl⟩ := h
  obtain ⟨a', w', hat', hstep', rfl⟩ := h'
  obtain ⟨-, rfl⟩ := hat.unique hat'
  rw [hstep] at hstep'
  injection hstep' with _ hs
  exact ⟨rfl, hs.symm⟩

/-- The machine is about to execute whatever stands at an address. -/
def Here (instructions : Instructions ι) (a : Nat) (s : State ι) : Prop :=
  ∃ w, At instructions a w s

theorem Here.unique (h : Here instructions a s) (h' : Here instructions b s) : a = b := by
  obtain ⟨w, hat⟩ := h
  obtain ⟨w', hat'⟩ := h'
  exact (hat.unique hat').1

/-- The registers and the memory that a state has. -/
structure Looks (s s' : State ι) : Prop where
  registers : s'.registers = s.registers
  memory : s'.memory = s.memory

theorem Looks.reg (h : Looks s s') (i : Int) : s'.reg i = s.reg i := by
  unfold State.reg
  rw [h.registers]

theorem Looks.mem (h : Looks s s') (i : Word) : s'.mem i = s.mem i := by
  unfold State.mem
  rw [h.memory]

/-- An instruction whose effect leaves the program counter at an address of the code. -/
theorem mstep_run (hat : At instructions a w s) (hrun : dispatch (decode w) s = .ok () s₁)
    (hpc : s₁.pc = some (b : Int)) (hb : Stands instructions b) :
    ∃ s', MStep decode instructions s (writes (decode w) s) s' ∧ Here instructions b s' ∧
      Looks s₁ s' := by
  obtain ⟨w', hw'⟩ := hb.word
  obtain ⟨s', hfetch, hat', hr, hm, -⟩ := fetch_run hpc hw' hb.lt
  refine ⟨s', ⟨a, w, hat, ?_, rfl⟩, ⟨w', hat'⟩, ⟨hr, hm⟩⟩
  unfold step
  rw [bind_ok hrun]
  exact hfetch

variable {e : OpCodeElement} {code : List OpCodeElement}

/-- **An instruction of the code is executed and the machine goes on behind it.** -/
theorem next_run (hcode : Loaded decode instructions a (e :: code)) (hhere : Here instructions a s)
    (hrun : dispatch (fields e) s = .ok () s₁) (hpc : s₁.pc = s.pc)
    (hnext : Stands instructions (a + 1)) :
    ∃ s', MStep decode instructions s (writes (fields e) s) s' ∧ Here instructions (a + 1) s' ∧
      Looks s₁ s' := by
  obtain ⟨w, hw, hd, -⟩ := hcode.head
  obtain ⟨w', hat⟩ := hhere
  have hword := hat.word
  rw [hw] at hword
  injection hword with hword
  injection hword with hword
  rw [← hword] at hat
  rw [← hd] at hrun ⊢
  exact mstep_run hat hrun (by rw [hpc, hat.pc]; rfl) hnext

/-- **A jump of the code is executed and the machine goes on at its address.** -/
theorem jump_run (hcode : Loaded decode instructions a (e :: code)) (hhere : Here instructions a s)
    (hrun : dispatch (fields e) s = .ok () s₁) (hpc : s₁.pc = some (b : Int))
    (hb : Stands instructions b) :
    ∃ s', MStep decode instructions s (writes (fields e) s) s' ∧ Here instructions b s' ∧
      Looks s₁ s' := by
  obtain ⟨w, hw, hd, -⟩ := hcode.head
  obtain ⟨w', hat⟩ := hhere
  have hword := hat.word
  rw [hw] at hword
  injection hword with hword
  injection hword with hword
  rw [← hword] at hat
  rw [← hd] at hrun ⊢
  exact mstep_run hat hrun hpc hb

end Steps

end Vm
