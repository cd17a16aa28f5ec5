import Bambinos.Infra.Patch
import Bambinos.Vm.Encoding
import Bambinos.Vm.Frame
import Bambinos.Compiler.Flow.Syntax

/-!
# The code of conditions and statements

The code that the parser is to write, with the addresses of all jumps. A comparison ends in one
branch. The last branch of a condition is taken on one of the two outcomes, its `sense`, and with
the other one the code behind it is reached.

* `Juncts.code` — the code of a condition, for any two targets: also for the two that are not known
* `Juncts.inner` — where the jumps of a condition stand, but for the last one
* `Juncts.patch` — fixing the jumps of a condition is to write it for other targets
* `Stmt.code` — the code of a statement at an address
* `Within` — where its branches go
* `Shaped` — which of its operands fit into the instructions
-/

namespace Compiler

open Infra

namespace CodeGenerator

/-- Appends a piece of code. -/
def emit (g : CodeGenerator) (code : List OpCodeElement) : CodeGenerator :=
  { g with opCode := g.opCode ++ code, pc := g.pc + code.length }

theorem putOpCode_eq (g : CodeGenerator) (e : OpCodeElement) : g.putOpCode e = g.emit [e] := rfl

@[simp] theorem emit_nil (g : CodeGenerator) : g.emit [] = g := by
  simp [emit]

@[simp] theorem emit_emit (g : CodeGenerator) (code code' : List OpCodeElement) :
    (g.emit code).emit code' = g.emit (code ++ code') := by
  simp [emit, Nat.add_assoc]

@[simp] theorem emit_pc (g : CodeGenerator) (code : List OpCodeElement) :
    (g.emit code).pc = g.pc + code.length := rfl

@[simp] theorem emit_topReg (g : CodeGenerator) (code : List OpCodeElement) :
    (g.emit code).topReg = g.topReg := rfl

@[simp] theorem emit_symbolTable (g : CodeGenerator) (code : List OpCodeElement) :
    (g.emit code).symbolTable = g.symbolTable := rfl

@[simp] theorem emit_opCode (g : CodeGenerator) (code : List OpCodeElement) :
    (g.emit code).opCode = g.opCode ++ code := rfl

end CodeGenerator

namespace Flow

/-! ## conditions -/

variable (off : String → Int)

/-- Loads an operand of a comparison. `off` is the distance of a variable from the frame pointer. -/
def Operand.load (r : Int) : Operand → OpCodeElement
  | .variable name => .mk3 .ldw r fp (off name)
  | .literal n => .mk3 .addi r 0 n

/-- The branch that is taken when the relation is false. -/
def Rel.falseBranch : Rel → OpCode
  | eq => .bne
  | ne => .beq
  | lt => .bge
  | le => .bgt
  | gt => .ble
  | ge => .blt

/-- The last branch of a condition. -/
def Rel.branch (sense : Bool) (trueJump falseJump : Int) (r : Rel) : OpCodeElement :=
  if sense then .mk2 (CodeGenerator.invertRelation r.falseBranch) 1 trueJump
  else .mk2 r.falseBranch 1 falseJump

def Comparison.code (sense : Bool) (trueJump falseJump : Int) (c : Comparison) :
    List OpCodeElement :=
  [c.first.load off 1, c.second.load off 2, .mk3 .cmp 1 1 2, c.rel.branch sense trueJump falseJump]

mutual

/-- The number of instructions. -/
def Junct.size : Junct → Nat
  | .comparison _ => 4
  | .brackets _ js => js.size

def Juncts.size : Juncts → Nat
  | .last j => j.size
  | .cons j js => j.size + js.size

end

def Condition.size (c : Condition) : Nat := c.operands.size

/-- Where an operand goes when it is true, with the next operand at the given address. -/
def Connective.trueTarget (next trueJump : Int) : Connective → Int
  | and => next
  | or => trueJump

def Connective.falseTarget (next falseJump : Int) : Connective → Int
  | and => falseJump
  | or => next

mutual

def Junct.code (pc : Nat) (sense : Bool) (trueJump falseJump : Int) : Junct → List OpCodeElement
  | .comparison c => c.code off sense trueJump falseJump
  | .brackets k js => js.code k pc sense trueJump falseJump

def Juncts.code (k : Connective) (pc : Nat) (sense : Bool) (trueJump falseJump : Int) :
    Juncts → List OpCodeElement
  | .last j => j.code pc sense trueJump falseJump
  | .cons j js =>
    let next := pc + j.size
    j.code pc k.decisive (k.trueTarget next trueJump) (k.falseTarget next falseJump)
      ++ js.code k next sense trueJump falseJump

end

/-- The code of the condition of a statement is left at its end when it is true. -/
def Condition.code (pc : Nat) (trueJump falseJump : Int) (c : Condition) : List OpCodeElement :=
  c.operands.code off c.connective pc false trueJump falseJump

mutual

theorem Junct.code_length (pc : Nat) (sense : Bool) (trueJump falseJump : Int) :
    ∀ j : Junct, (j.code off pc sense trueJump falseJump).length = j.size
  | .comparison _ => rfl
  | .brackets k js => js.code_length k pc sense trueJump falseJump

theorem Juncts.code_length (k : Connective) (pc : Nat) (sense : Bool) (trueJump falseJump : Int) :
    ∀ js : Juncts, (js.code off k pc sense trueJump falseJump).length = js.size
  | .last j => j.code_length pc sense trueJump falseJump
  | .cons j js => by
    rw [Juncts.code, List.length_append, Junct.code_length, Juncts.code_length, Juncts.size]

end

theorem Condition.code_length (pc : Nat) (trueJump falseJump : Int) (c : Condition) :
    (c.code off pc trueJump falseJump).length = c.size :=
  c.operands.code_length off c.connective pc false trueJump falseJump

mutual

theorem Junct.size_pos : ∀ j : Junct, 0 < j.size
  | .comparison _ => Nat.succ_pos 3
  | .brackets _ js => js.size_pos

theorem Juncts.size_pos : ∀ js : Juncts, 0 < js.size
  | .last j => j.size_pos
  | .cons j _ => Nat.add_pos_left j.size_pos _

end

/-! ## the jumps of a condition -/

mutual

/-- The positions of the jumps but the last one, in code that starts at position `p`. -/
def Junct.inner (p : Nat) : Junct → List Nat
  | .comparison _ => []
  | .brackets _ js => js.inner p

def Juncts.inner (p : Nat) : Juncts → List Nat
  | .last j => j.inner p
  | .cons j js => j.inner p ++ (p + j.size - 1) :: js.inner (p + j.size)

end

/-- The positions of all jumps. -/
def Junct.jumps (p : Nat) (j : Junct) : List Nat := j.inner p ++ [p + j.size - 1]

def Juncts.jumps (p : Nat) (js : Juncts) : List Nat := js.inner p ++ [p + js.size - 1]

theorem Juncts.jumps_cons (p : Nat) (j : Junct) (js : Juncts) :
    (Juncts.cons j js).jumps p = j.jumps p ++ js.jumps (p + j.size) := by
  simp [Juncts.jumps, Junct.jumps, Juncts.inner, Juncts.size, Nat.add_assoc]

/-! ## fixing -/

/-- What `fixJump` makes of an address. -/
def fixTarget (falseJump trueJump c : Int) : Int :=
  if c = -100 then falseJump else if c = -1000 then trueJump else c

theorem fixJump_c (falseJump trueJump : Int) (e : OpCodeElement) :
    CodeGenerator.fixJump falseJump trueJump e = { e with c := fixTarget falseJump trueJump e.c } := by
  unfold CodeGenerator.fixJump fixTarget
  split
  · rfl
  · split <;> rfl

/-- An address is not fixed again. -/
theorem fixTarget_nat (falseJump trueJump : Int) (a : Nat) : fixTarget falseJump trueJump a = a := by
  unfold fixTarget
  rw [if_neg (by omega), if_neg (by omega)]

theorem fixJump_branch (f t trueJump falseJump : Int) (sense : Bool) (r : Rel) :
    CodeGenerator.fixJump f t (r.branch sense trueJump falseJump) =
      r.branch sense (fixTarget f t trueJump) (fixTarget f t falseJump) := by
  rw [fixJump_c]
  cases sense <;> rfl

variable {off} {f t : Int}

theorem fixTarget_trueTarget (k : Connective) (next : Nat) (trueJump : Int) :
    fixTarget f t (k.trueTarget next trueJump) = k.trueTarget next (fixTarget f t trueJump) := by
  cases k with
  | and => exact fixTarget_nat f t next
  | or => rfl

theorem fixTarget_falseTarget (k : Connective) (next : Nat) (falseJump : Int) :
    fixTarget f t (k.falseTarget next falseJump) = k.falseTarget next (fixTarget f t falseJump) := by
  cases k with
  | and => rfl
  | or => exact fixTarget_nat f t next

mutual

/--
Fixing the jumps of an operand is to write it for the fixed targets. The last jump may be edited in
another way.
-/
theorem Junct.patch {g : OpCodeElement → OpCodeElement} {sense sense' : Bool}
    {trueJump falseJump : Int}
    (hg : ∀ r : Rel, g (r.branch sense trueJump falseJump) =
      r.branch sense' (fixTarget f t trueJump) (fixTarget f t falseJump)) (pre post : List OpCodeElement) :
    ∀ j : Junct, (editAll (CodeGenerator.fixJump f t) (j.inner pre.length)
        (pre ++ (j.code off (pre.length + 1) sense trueJump falseJump ++ post))).modify
          (pre.length + j.size - 1) g =
        pre ++ (j.code off (pre.length + 1) sense' (fixTarget f t trueJump)
          (fixTarget f t falseJump) ++ post)
  | .comparison c => by
    have h := modify_middle (c.rel.branch sense trueJump falseJump) post g
      (pre ++ [c.first.load off 1, c.second.load off 2, .mk3 .cmp 1 1 2])
    rw [hg] at h
    simp only [List.append_assoc, List.cons_append, List.nil_append, List.length_append,
      List.length_cons, List.length_nil] at h
    simp only [Junct.inner, editAll, List.foldl_nil, Junct.code, Comparison.code, Junct.size,
      List.cons_append, List.nil_append]
    exact h
  | .brackets k js => js.patch hg k pre post

theorem Juncts.patch {g : OpCodeElement → OpCodeElement} {sense sense' : Bool}
    {trueJump falseJump : Int}
    (hg : ∀ r : Rel, g (r.branch sense trueJump falseJump) =
      r.branch sense' (fixTarget f t trueJump) (fixTarget f t falseJump)) (k : Connective)
    (pre post : List OpCodeElement) :
    ∀ js : Juncts, (editAll (CodeGenerator.fixJump f t) (js.inner pre.length)
        (pre ++ (js.code off k (pre.length + 1) sense trueJump falseJump ++ post))).modify
          (pre.length + js.size - 1) g =
        pre ++ (js.code off k (pre.length + 1) sense' (fixTarget f t trueJump)
          (fixTarget f t falseJump) ++ post)
  | .last j => j.patch hg pre post
  | .cons j js => by
    have hj := j.patch (fixJump_branch f t (k.trueTarget (pre.length + 1 + j.size : Nat) trueJump)
      (k.falseTarget (pre.length + 1 + j.size : Nat) falseJump) k.decisive) pre
      (js.code off k (pre.length + 1 + j.size) sense trueJump falseJump ++ post)
    rw [fixTarget_trueTarget, fixTarget_falseTarget] at hj
    generalize hcode : j.code off (pre.length + 1) k.decisive
      (k.trueTarget (pre.length + 1 + j.size : Nat) (fixTarget f t trueJump))
      (k.falseTarget (pre.length + 1 + j.size : Nat) (fixTarget f t falseJump)) = code at hj
    have hlen : (pre ++ code).length = pre.length + j.size := by
      rw [List.length_append, ← hcode, Junct.code_length]
    have hjs := js.patch hg k (pre ++ code) post
    rw [hlen, Nat.add_right_comm] at hjs
    simp only [Juncts.code, Juncts.inner, Juncts.size, hcode, List.append_assoc, editAll_append,
      editAll_cons] at hj hjs ⊢
    rw [hj, ← Nat.add_assoc, hjs]

end

/-- **Fixing the jumps of a condition** is to write it for other targets. -/
theorem Condition.fix (f t trueJump falseJump : Int) (pre post : List OpCodeElement)
    (c : Condition) :
    editAll (CodeGenerator.fixJump f t) (c.operands.jumps pre.length)
        (pre ++ (c.code off (pre.length + 1) trueJump falseJump ++ post)) =
      pre ++ (c.code off (pre.length + 1) (fixTarget f t trueJump) (fixTarget f t falseJump)
        ++ post) := by
  unfold Juncts.jumps Condition.code
  rw [editAll_append, editAll_cons]
  exact c.operands.patch (fixJump_branch f t trueJump falseJump false) c.connective pre post

/-! ## statements -/

mutual

def Stmt.size : Stmt → Nat
  | .assign _ _ => 2
  | .whileDo cond body => cond.size + (blockSize body + 1)
  | .ifThen cond body => cond.size + blockSize body
  | .ifElse cond body alternative => cond.size + (blockSize body + (1 + blockSize alternative))

def blockSize : List Stmt → Nat
  | [] => 0
  | s :: rest => s.size + blockSize rest

end

/-- The jump over an `else` block or back to the start of a loop. -/
def jump (a : Nat) : OpCodeElement := .mk2 .beq 0 a

variable (off)

mutual

def Stmt.code (pc : Nat) : Stmt → List OpCodeElement
  | .assign name value => [value.load off 1, .mk3 .stw 1 fp (off name)]
  | .whileDo cond body =>
    let start := pc + cond.size
    let behind := start + (blockSize body + 1)
    cond.code off pc start behind ++ (blockCode start body ++ [jump pc])
  | .ifThen cond body =>
    let start := pc + cond.size
    let behind := start + blockSize body
    cond.code off pc start behind ++ blockCode start body
  | .ifElse cond body alternative =>
    let start := pc + cond.size
    let other := start + (blockSize body + 1)
    let behind := other + blockSize alternative
    cond.code off pc start other
      ++ (blockCode start body ++ jump behind :: blockCode other alternative)

def blockCode (pc : Nat) : List Stmt → List OpCodeElement
  | [] => []
  | s :: rest => s.code pc ++ blockCode (pc + s.size) rest

end

mutual

theorem Stmt.code_length (pc : Nat) : ∀ s : Stmt, (s.code off pc).length = s.size
  | .assign _ _ => rfl
  | .whileDo cond body => by
    simp only [Stmt.code, Stmt.size, List.length_append, Condition.code_length,
      blockCode_length _ body, List.length_singleton]
  | .ifThen cond body => by
    simp only [Stmt.code, Stmt.size, List.length_append, Condition.code_length,
      blockCode_length _ body]
  | .ifElse cond body alternative => by
    simp only [Stmt.code, Stmt.size, List.length_append, Condition.code_length, List.length_cons,
      blockCode_length _ body, blockCode_length _ alternative, Nat.add_comm 1]

theorem blockCode_length (pc : Nat) : ∀ b : List Stmt, (blockCode off pc b).length = blockSize b
  | [] => rfl
  | s :: rest => by
    rw [blockCode, List.length_append, Stmt.code_length, blockCode_length, blockSize]

end

/-! ## the targets -/

/-- Every branch goes to an address between two others. -/
def Within (lo hi : Nat) (code : List OpCodeElement) : Prop :=
  ∀ e ∈ code, Vm.isBranch e.instruction.code → ∃ a : Nat, e.c = a ∧ lo ≤ a ∧ a ≤ hi

variable {off} {lo hi : Nat} {code code' : List OpCodeElement}

theorem Within.append (h : Within lo hi code) (h' : Within lo hi code') :
    Within lo hi (code ++ code') := by
  intro e he
  rcases List.mem_append.mp he with hmem | hmem
  · exact h e hmem
  · exact h' e hmem

theorem within_jump {a : Nat} (hlo : lo ≤ a) (hhi : a ≤ hi) : Within lo hi [jump a] := by
  intro e he _
  rw [List.mem_singleton.mp he]
  exact ⟨a, rfl, hlo, hhi⟩

theorem within_load (r : Int) (o : Operand) : Within lo hi [o.load off r] := by
  intro e he hbranch
  rw [List.mem_singleton.mp he] at hbranch
  cases o with
  | «variable» name => exact absurd hbranch (show ¬ Vm.isBranch OpCode.ldw.code by decide)
  | literal n => exact absurd hbranch (show ¬ Vm.isBranch OpCode.addi.code by decide)

/-- A target that is known. -/
def Known (lo hi : Nat) (target : Int) : Prop := ∃ a : Nat, target = a ∧ lo ≤ a ∧ a ≤ hi

theorem within_comparison {sense : Bool} {trueJump falseJump : Int} (c : Comparison)
    (ht : Known lo hi trueJump) (hf : Known lo hi falseJump) :
    Within lo hi (c.code off sense trueJump falseJump) := by
  refine (within_load 1 c.first).append ((within_load 2 c.second).append ?_)
  intro e he hbranch
  rcases List.mem_pair.mp he with rfl | rfl
  · exact absurd hbranch (by decide)
  · cases sense with
    | true => exact ht
    | false => exact hf

mutual

theorem Junct.within {sense : Bool} {trueJump falseJump : Int} (ht : Known lo hi trueJump)
    (hf : Known lo hi falseJump) : ∀ (j : Junct) (pc : Nat), lo ≤ pc → pc + j.size ≤ hi →
      Within lo hi (j.code off pc sense trueJump falseJump)
  | .comparison c, _, _, _ => within_comparison c ht hf
  | .brackets k js, pc, hlo, hhi => js.within ht hf k pc hlo hhi

theorem Juncts.within {sense : Bool} {trueJump falseJump : Int} (ht : Known lo hi trueJump)
    (hf : Known lo hi falseJump) : ∀ (js : Juncts) (k : Connective) (pc : Nat), lo ≤ pc →
      pc + js.size ≤ hi → Within lo hi (js.code off k pc sense trueJump falseJump)
  | .last j, _, pc, hlo, hhi => j.within ht hf pc hlo hhi
  | .cons j js, k, pc, hlo, hhi => by
    rw [Juncts.size] at hhi
    have hnext : Known lo hi ((pc + j.size : Nat) : Int) := ⟨_, rfl, by omega, by omega⟩
    refine Within.append (Junct.within ?_ ?_ j pc hlo (by omega))
      (js.within ht hf k _ (by omega) (by omega))
    · cases k with
      | and => exact hnext
      | or => exact ht
    · cases k with
      | and => exact hf
      | or => exact hnext

end

mutual

/-- **The jumps of a statement stay inside of its code**, or go to what follows it. -/
theorem Stmt.within : ∀ (s : Stmt) (pc : Nat), lo ≤ pc → pc + s.size ≤ hi →
    Within lo hi (s.code off pc)
  | .assign name value, pc, _, _ => by
    refine (within_load 1 value).append ?_
    intro e he hbranch
    rw [List.mem_singleton.mp he] at hbranch
    exact absurd hbranch (show ¬ Vm.isBranch OpCode.stw.code by decide)
  | .whileDo cond body, pc, hlo, hhi => by
    rw [Stmt.size] at hhi
    refine Within.append ?_ ((blockCode_within body _ (by omega) (by omega)).append
      (within_jump hlo (by omega)))
    exact cond.operands.within ⟨_, rfl, by omega, by omega⟩ ⟨_, rfl, by omega, by omega⟩ _ pc hlo
      (by unfold Condition.size at hhi; omega)
  | .ifThen cond body, pc, hlo, hhi => by
    rw [Stmt.size] at hhi
    refine Within.append ?_ (blockCode_within body _ (by omega) (by omega))
    exact cond.operands.within ⟨_, rfl, by omega, by omega⟩ ⟨_, rfl, by omega, by omega⟩ _ pc hlo
      (by unfold Condition.size at hhi; omega)
  | .ifElse cond body alternative, pc, hlo, hhi => by
    rw [Stmt.size] at hhi
    refine Within.append ?_ ((blockCode_within body _ (by omega) (by omega)).append
      (Within.append (within_jump (by omega) (by omega))
        (blockCode_within alternative _ (by omega) (by omega))))
    exact cond.operands.within ⟨_, rfl, by omega, by omega⟩ ⟨_, rfl, by omega, by omega⟩ _ pc hlo
      (by unfold Condition.size at hhi; omega)

theorem blockCode_within : ∀ (b : List Stmt) (pc : Nat), lo ≤ pc → pc + blockSize b ≤ hi →
    Within lo hi (blockCode off pc b)
  | [], _, _, _ => by
    intro e he
    cases he
  | s :: rest, pc, hlo, hhi => by
    rw [blockSize] at hhi
    exact (s.within pc hlo (by omega)).append
      (blockCode_within rest _ (by omega) (by omega))

end

/-! ## the operands -/

/-- All operands fit into the instructions, the targets of the branches left aside. -/
def Shaped (code : List OpCodeElement) : Prop :=
  ∀ e ∈ code, (Vm.isBranch e.instruction.code → e.c.natAbs ≤ Vm.maxImmediate) → Vm.OperandsFit e

theorem Shaped.append (h : Shaped code) (h' : Shaped code') : Shaped (code ++ code') := by
  intro e he
  rcases List.mem_append.mp he with hmem | hmem
  · exact h e hmem
  · exact h' e hmem

/-- With targets that fit too, the code can be written. -/
theorem Shaped.operandsFit (h : Shaped code) (hwithin : Within lo hi code)
    (hhi : hi ≤ Vm.maxImmediate) : ∀ e ∈ code, Vm.OperandsFit e := by
  intro e he
  refine h e he fun hbranch => ?_
  obtain ⟨a, ha, -, hle⟩ := hwithin e he hbranch
  rw [ha]
  omega

theorem shaped_mk2 {op : OpCode} {a : Int} (hbranch : Vm.isBranch op.code)
    (hop : op.code < highestFormat1) (ha : Vm.RegisterField a) (target : Int) :
    Shaped [.mk2 op a target] := by
  intro e he htarget
  rw [List.mem_singleton.mp he] at htarget ⊢
  exact Vm.operandsFit_format1 hop ha (by decide) (htarget hbranch)

theorem shaped_jump (a : Nat) : Shaped [jump a] :=
  shaped_mk2 (by decide) (by decide) (by decide) _

theorem shaped_branch (r : Rel) (sense : Bool) (t f : Int) : Shaped [r.branch sense t f] := by
  cases r <;> cases sense <;> exact shaped_mk2 (by decide) (by decide) (by decide) _

variable {known : String → Prop}

/-- The distances of the variables fit into an instruction. -/
def Near (off : String → Int) (known : String → Prop) : Prop :=
  ∀ x, known x → (off x).natAbs ≤ Vm.maxImmediate

theorem shaped_load {r : Int} {o : Operand} (hr : Vm.RegisterField r) (hnear : Near off known)
    (hu : o.Uses known) : Shaped [o.load off r] := by
  intro e he _
  rw [List.mem_singleton.mp he]
  cases o with
  | «variable» name => exact Vm.operandsFit_format1 (by decide) hr (by decide) (hnear name hu)
  | literal n => exact Vm.operandsFit_format1 (by decide) hr (by decide) hu

theorem shaped_comparison {c : Comparison} (hnear : Near off known) (hu : c.Uses known)
    (sense : Bool) (t f : Int) : Shaped (c.code off sense t f) := by
  have hcmp : Shaped [.mk3 .cmp 1 1 2] := by
    intro e he _
    rw [List.mem_singleton.mp he]
    decide
  exact (shaped_load (by decide) hnear hu.1).append
    ((shaped_load (by decide) hnear hu.2).append (hcmp.append (shaped_branch c.rel sense t f)))

mutual

theorem Junct.shaped (hnear : Near off known) : ∀ (j : Junct) (pc : Nat) (sense : Bool) (t f : Int),
    j.Uses known → Shaped (j.code off pc sense t f)
  | .comparison _, _, sense, t, f, hu => shaped_comparison hnear hu sense t f
  | .brackets k js, pc, sense, t, f, hu => js.shaped hnear k pc sense t f hu

theorem Juncts.shaped (hnear : Near off known) :
    ∀ (js : Juncts) (k : Connective) (pc : Nat) (sense : Bool) (t f : Int), js.Uses known →
      Shaped (js.code off k pc sense t f)
  | .last j, _, pc, sense, t, f, hu => j.shaped hnear pc sense t f hu
  | .cons j js, k, _, sense, t, f, hu =>
    (j.shaped hnear _ _ _ _ hu.1).append (js.shaped hnear k _ sense t f hu.2)

end

mutual

theorem Stmt.shaped (hnear : Near off known) : ∀ (stmt : Stmt) (pc : Nat), stmt.Uses known →
    Shaped (stmt.code off pc)
  | .assign name value, pc, hu => by
    refine (shaped_load (by decide) hnear hu.2).append ?_
    intro e he _
    rw [List.mem_singleton.mp he]
    exact Vm.operandsFit_format1 (by decide) (by decide) (by decide) (hnear name hu.1)
  | .whileDo cond body, _, hu =>
    (cond.operands.shaped hnear _ _ _ _ _ hu.1).append
      ((blockCode_shaped hnear body _ hu.2).append (shaped_jump _))
  | .ifThen cond body, _, hu =>
    (cond.operands.shaped hnear _ _ _ _ _ hu.1).append (blockCode_shaped hnear body _ hu.2)
  | .ifElse cond body alternative, _, hu =>
    (cond.operands.shaped hnear _ _ _ _ _ hu.1).append ((blockCode_shaped hnear body _ hu.2.1).append
      ((shaped_jump _).append (blockCode_shaped hnear alternative _ hu.2.2)))

/-- **The operands of a block fit**, if the distances of its variables do. -/
theorem blockCode_shaped (hnear : Near off known) : ∀ (b : List Stmt) (pc : Nat),
    blockUses known b → Shaped (blockCode off pc b)
  | [], _, _ => by
    intro e he
    cases he
  | stmt :: rest, pc, hu =>
    (stmt.shaped hnear pc hu.1).append (blockCode_shaped hnear rest _ hu.2)

end

end Flow

end Compiler
