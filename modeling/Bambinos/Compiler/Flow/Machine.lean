import Bambinos.Vm.Run
import Bambinos.Compiler.Flow.Code

/-!
# Running conditions and statements

* `Represents` — the machine holds the values of the variables
* `Junct.run` — the code of a condition goes to the target of its value and writes nothing
* `Follows` — what is left to do from an address on
* `next_answered` — a step of the program is answered by at least one step of the machine
-/

namespace Compiler.Flow

open Infra Vm

variable {ι : Type} {decode : ι → Fields} {instructions : Instructions ι} {off : String → Int}
  {known : String → Prop} {base : Word} {σ : Store} {s s' : State ι} {a pc : Nat}
  {code : List OpCodeElement} {o : Operand}

/-- The frame pointer is `base`, register 0 is zero, and every variable has its value. -/
structure Represents (off : String → Int) (known : String → Prop) (base : Word) (σ : Store)
    (s : State ι) : Prop where
  zero : s.reg 0 = some 0
  frame : s.reg Compiler.fp = some base
  address : ∀ x, known x → IsAddress (base + imm (off x))
  value : ∀ x, known x → s.mem (base + imm (off x)) = some (σ x)

theorem Represents.setReg (h : Represents off known base σ s) {i : Int} (hi : 0 ≤ i)
    (h0 : i ≠ 0) (hfp : i ≠ Compiler.fp) (v : Option Word) :
    Represents off known base σ (s.setReg i v) where
  zero := by
    rw [State.reg_setReg hi (by decide), if_neg h0.symm]
    exact h.zero
  frame := by
    rw [State.reg_setReg hi (by decide), if_neg hfp.symm]
    exact h.frame
  address := h.address
  value := h.value

theorem Represents.looks (h : Represents off known base σ s) (hs : Looks s s') :
    Represents off known base σ s' where
  zero := by rw [hs.reg, h.zero]
  frame := by rw [hs.reg, h.frame]
  address := h.address
  value := fun x hx => by rw [hs.mem, h.value x hx]

theorem Represents.jump (h : Represents off known base σ s) (a : Int) :
    Represents off known base σ (s.jump a) where
  zero := by rw [State.reg_jump (by decide) (by decide), h.zero]
  frame := by rw [State.reg_jump (by decide) (by decide), h.frame]
  address := h.address
  value := h.value

/-! ## comparisons -/

theorem imm_natCast_literal (n : Nat) : (0 : Word) + imm n = BitVec.ofNat 32 n := by
  rw [zero_add]
  exact BitVec.ofInt_natCast 32 n

/-- **A load.** -/
theorem load_run {r : Int} (hr : r = 1 ∨ r = 2) (hu : o.Uses known)
    (hcode : Loaded decode instructions a (o.load off r :: code)) (hhere : Here instructions a s)
    (hrep : Represents off known base σ s) (hnext : Stands instructions (a + 1)) :
    ∃ s', MStep decode instructions s [] s' ∧ Here instructions (a + 1) s' ∧
      Represents off known base σ s' ∧ s'.reg r = some (o.value σ) ∧
      ∀ i, 0 ≤ i → i ≠ r → s'.reg i = s.reg i := by
  have hreg : IsRegister r := by rcases hr with rfl | rfl <;> decide
  have hr0 : r ≠ 0 := by rcases hr with rfl | rfl <;> decide
  have hrfp : r ≠ Compiler.fp := by rcases hr with rfl | rfl <;> decide
  have hdispatch : dispatch (fields (o.load off r)) s =
      .ok () (s.setReg r (some (o.value σ))) := by
    cases o with
    | «variable» name =>
      have hrun := @executeLDW_run ι s base r Compiler.fp (off name) hreg (by decide) hrep.frame
        (hrep.address name hu)
      rw [hrep.value name hu] at hrun
      exact hrun
    | literal n =>
      have hrun := @executeADDI_run ι s 0 r 0 n hreg (by decide) hrep.zero
      rw [imm_natCast_literal] at hrun
      exact hrun
  have hwrites : writes (fields (o.load off r)) s = [] := by
    unfold writes
    cases o with
    | «variable» name =>
      cases s.reg (fields ((Operand.variable name).load off r)).firstSourceValue <;> rfl
    | literal n =>
      cases s.reg (fields ((Operand.literal n).load off r)).firstSourceValue <;> rfl
  obtain ⟨s', hstep, hhere', hlooks⟩ := next_run hcode hhere hdispatch rfl hnext
  rw [hwrites] at hstep
  refine ⟨s', hstep, hhere', (hrep.setReg hreg.1 hr0 hrfp _).looks hlooks, ?_, ?_⟩
  · rw [hlooks.reg, State.reg_setReg_self]
  · intro i hi hne
    rw [hlooks.reg, State.reg_setReg hreg.1 hi, if_neg hne]

/-- When a branch is taken. -/
def taken : OpCode → Int → Bool
  | .beq, v => v == 0
  | .bne, v => v != 0
  | .blt, v => v < 0
  | .bge, v => 0 ≤ v
  | .bgt, v => 0 < v
  | .ble, v => v ≤ 0
  | _, _ => false

theorem taken_branch (r : Rel) (sense : Bool) (a b : Int) :
    taken (if sense then CodeGenerator.invertRelation r.falseBranch else r.falseBranch) (a - b) =
      (r.holds a b == sense) := by
  cases r <;> cases sense <;>
    simp only [taken, Rel.falseBranch, CodeGenerator.invertRelation, Rel.holds, if_true,
      Bool.false_eq_true, if_false] <;>
    rw [Bool.eq_iff_iff] <;> simp <;> omega

/-- A branch of a comparison tests register 1. -/
theorem dispatch_branch (r : Rel) (sense : Bool) (t f : Int) :
    (dispatch (fields (r.branch sense t f)) : M ι Unit) =
      branch (taken (if sense then CodeGenerator.invertRelation r.falseBranch else r.falseBranch))
        1 (if sense then t else f) := by
  cases r <;> cases sense <;> rfl

theorem writes_branch (r : Rel) (sense : Bool) (t f : Int) :
    writes (fields (r.branch sense t f)) s = [] := by
  unfold writes
  cases s.reg (fields (r.branch sense t f)).firstSourceValue with
  | none => rfl
  | some v => cases r <;> cases sense <;> rfl

theorem eval_sub {c : Comparison} {b : Bool} (h : c.eval σ = some b) :
    (c.first.value σ - c.second.value σ).toInt =
        (c.first.value σ).toInt - (c.second.value σ).toInt ∧
      c.rel.holds (c.first.value σ).toInt (c.second.value σ).toInt = b := by
  unfold Comparison.eval at h
  dsimp only at h
  split at h
  · next heq =>
    refine ⟨?_, Option.some.inj h⟩
    rw [BitVec.toInt_sub]
    exact heq
  · cases h

/-- The machine goes to an address, in at least one step that writes nothing to the memory. -/
def Goes (decode : ι → Fields) (instructions : Instructions ι) (off : String → Int)
    (known : String → Prop) (base : Word) (σ : Store) (s : State ι) (a : Nat) : Prop :=
  ∃ m s', 1 ≤ m ∧ Runs (MStep decode instructions) m s [] s' ∧ Here instructions a s' ∧
    Represents off known base σ s'

/-- The operands of a comparison are loaded, and their difference is left in register 1. -/
structure Compared (decode : ι → Fields) (instructions : Instructions ι) (off : String → Int)
    (known : String → Prop) (base : Word) (σ : Store) (c : Comparison) (pc : Nat)
    (s s₁ s₂ s₃ : State ι) : Prop where
  first : MStep decode instructions s [] s₁
  second : MStep decode instructions s₁ [] s₂
  third : MStep decode instructions s₂ [] s₃
  here₁ : Here instructions (pc + 1) s₁
  here₂ : Here instructions (pc + 2) s₂
  here₃ : Here instructions (pc + 3) s₃
  represents : Represents off known base σ s₃
  difference : s₃.reg 1 = some (c.first.value σ - c.second.value σ)

theorem Compared.run {c : Comparison} {s₁ s₂ s₃ : State ι}
    (h : Compared decode instructions off known base σ c pc s s₁ s₂ s₃) :
    Runs (MStep decode instructions) 3 s [] s₃ :=
  ((Runs.one h.first).trans (Runs.one h.second)).trans (Runs.one h.third)

theorem operands_run {c : Comparison} (hu : c.Uses known)
    (hcode : Loaded decode instructions pc [c.first.load off 1, c.second.load off 2, .mk3 .cmp 1 1 2])
    (hhere : Here instructions pc s) (hrep : Represents off known base σ s)
    (hnext : Stands instructions (pc + 3)) :
    ∃ s₁ s₂ s₃, Compared decode instructions off known base σ c pc s s₁ s₂ s₃ := by
  have hcode₁ := hcode.tail
  have hcode₂ := hcode₁.tail
  obtain ⟨s₁, hstep₁, hhere₁, hrep₁, hreg₁, -⟩ :=
    load_run (Or.inl rfl) hu.1 hcode hhere hrep hcode₁.stands
  obtain ⟨s₂, hstep₂, hhere₂, hrep₂, hreg₂, hother⟩ :=
    load_run (Or.inr rfl) hu.2 hcode₁ hhere₁ hrep₁ hcode₂.stands
  rw [← hother 1 (by decide) (by decide)] at hreg₁
  have hcmp := @executeCMP_run ι s₂ _ _ 1 1 2 (by decide) (by decide) (by decide) hreg₁ hreg₂
  obtain ⟨s₃, hstep₃, hhere₃, hlooks₃⟩ := next_run hcode₂ hhere₂ hcmp rfl hnext
  have hwrites : writes (fields (.mk3 .cmp 1 1 2)) s₂ = [] := by
    unfold writes
    cases s₂.reg (fields (.mk3 .cmp 1 1 2)).firstSourceValue <;> rfl
  rw [hwrites] at hstep₃
  refine ⟨s₁, s₂, s₃, hstep₁, hstep₂, hstep₃, hhere₁, hhere₂, hhere₃,
    (hrep₂.setReg (by decide) (by decide) (by decide) _).looks hlooks₃, ?_⟩
  rw [hlooks₃.reg, State.reg_setReg_self]

/-- **A comparison** goes to the target of its value. -/
theorem comparison_run {c : Comparison} {sense b : Bool} {t f : Nat} (hu : c.Uses known)
    (heval : c.eval σ = some b)
    (hcode : Loaded decode instructions pc (c.code off sense t f)) (hhere : Here instructions pc s)
    (hrep : Represents off known base σ s) (ht : Stands instructions t)
    (hf : Stands instructions f) (hnext : (if sense then f else t) = pc + 4) :
    Goes decode instructions off known base σ s (if b then t else f) := by
  obtain ⟨hsub, hholds⟩ := eval_sub heval
  have hcode₃ := hcode.tail.tail.tail
  obtain ⟨s₁, s₂, s₃, hcompared⟩ := operands_run hu
    (@Loaded.left _ _ _ _ [_, _, _] [_] hcode) hhere hrep hcode₃.stands
  have hhere₃ := hcompared.here₃
  have hrep₃ := hcompared.represents
  have hreg₃ := hcompared.difference
  have hrun₃ := hcompared.run
  have hbranch : dispatch (fields (c.rel.branch sense t f)) s₃ =
      if b = sense then .ok () (s₃.jump (if sense then t else f : Nat)) else .ok () s₃ := by
    rw [dispatch_branch, branch_run (by decide) hreg₃, hsub, taken_branch, hholds]
    by_cases hb : b = sense
    · rw [if_pos (by simpa using hb), if_pos hb]
      cases sense with
      | true => exact executeBSR_run (by omega)
      | false => exact executeBSR_run (by omega)
    · rw [if_neg (by simpa using hb), if_neg hb]
  by_cases hb : b = sense
  · rw [if_pos hb] at hbranch
    have htarget : (if sense then t else f) = if b then t else f := by rw [hb]
    rw [htarget] at hbranch
    obtain ⟨s₄, hstep₄, hhere₄, hlooks₄⟩ := jump_run hcode₃ hhere₃ hbranch rfl (by
      cases b with
      | true => exact ht
      | false => exact hf)
    rw [writes_branch] at hstep₄
    exact ⟨4, s₄, by decide, hrun₃.trans (Runs.one hstep₄), hhere₄, (hrep₃.jump _).looks hlooks₄⟩
  · rw [if_neg hb] at hbranch
    have htarget : pc + 4 = if b then t else f := by
      rw [← hnext]
      cases b <;> cases sense <;> first | rfl | exact absurd rfl hb
    obtain ⟨s₄, hstep₄, hhere₄, hlooks₄⟩ := next_run hcode₃ hhere₃ hbranch rfl (by
      show Stands instructions (pc + 4)
      rw [htarget]
      cases b with
      | true => exact ht
      | false => exact hf)
    rw [writes_branch] at hstep₄
    rw [← htarget]
    exact ⟨4, s₄, by decide, hrun₃.trans (Runs.one hstep₄), hhere₄, hrep₃.looks hlooks₄⟩

/-! ## conditions -/

theorem Goes.trans {σ : Store} {s s₁ : State ι} {m a : Nat}
    (hrun : Runs (MStep decode instructions) m s [] s₁)
    (h : Goes decode instructions off known base σ s₁ a) :
    Goes decode instructions off known base σ s a := by
  obtain ⟨m₂, s₂, hm, hrun₂, hhere, hrep⟩ := h
  exact ⟨m + m₂, s₂, by omega, hrun.trans hrun₂, hhere, hrep⟩

mutual

/-- **An operand of a condition** goes to the target of its value. -/
theorem Junct.run {sense b : Bool} {t f : Nat} (ht : Stands instructions t)
    (hf : Stands instructions f) : ∀ (j : Junct) {pc : Nat} {s : State ι}, j.Uses known →
      j.eval σ = some b → Loaded decode instructions pc (j.code off pc sense t f) →
      Here instructions pc s → Represents off known base σ s →
      (if sense then f else t) = pc + j.size →
      Goes decode instructions off known base σ s (if b then t else f)
  | .comparison _, _, _, hu, heval, hcode, hhere, hrep, hnext =>
    comparison_run hu heval hcode hhere hrep ht hf hnext
  | .brackets k js, _, _, hu, heval, hcode, hhere, hrep, hnext =>
    js.run ht hf k hu heval hcode hhere hrep hnext

theorem Juncts.run {sense b : Bool} {t f : Nat} (ht : Stands instructions t)
    (hf : Stands instructions f) : ∀ (js : Juncts) (k : Connective) {pc : Nat} {s : State ι},
      js.Uses known → js.eval σ k = some b →
      Loaded decode instructions pc (js.code off k pc sense t f) →
      Here instructions pc s → Represents off known base σ s →
      (if sense then f else t) = pc + js.size →
      Goes decode instructions off known base σ s (if b then t else f)
  | .last j, _, _, _, hu, heval, hcode, hhere, hrep, hnext =>
    j.run ht hf hu heval hcode hhere hrep hnext
  | .cons j js, k, pc, s, hu, heval, hcode, hhere, hrep, hnext => by
    obtain ⟨b₁, hj, hrest⟩ := Option.bind_eq_some_iff.mp heval
    have hright := hcode.right
    rw [Junct.code_length] at hright
    have hs : Stands instructions (pc + j.size) :=
      hright.stands_of_length (by rw [Juncts.code_length]; exact js.size_pos)
    rw [Juncts.size, ← Nat.add_assoc] at hnext
    -- the operand goes to the target of the whole condition or to the next operand
    have hfirst : Goes decode instructions off known base σ s
        (if b₁ = k.decisive then (if b₁ then t else f) else pc + j.size) := by
      cases k with
      | and =>
        have hgoes := j.run hs hf hu.1 hj hcode.left hhere hrep rfl
        cases b₁ <;> exact hgoes
      | or =>
        have hgoes := j.run ht hs hu.1 hj hcode.left hhere hrep rfl
        cases b₁ <;> exact hgoes
    by_cases hb : b₁ = k.decisive
    · rw [if_pos hb] at hrest hfirst
      rw [← Option.some.inj hrest]
      exact hfirst
    · rw [if_neg hb] at hrest hfirst
      obtain ⟨m, s₁, -, hrun, hhere₁, hrep₁⟩ := hfirst
      exact Goes.trans hrun (js.run ht hf k hu.2 hrest hright hhere₁ hrep₁ hnext)

end

/-- **The condition of a statement.** -/
theorem Condition.run {c : Condition} {b : Bool} {f : Nat} (hf : Stands instructions f)
    (ht : Stands instructions (pc + c.size)) (hu : c.Uses known) (heval : c.eval σ = some b)
    (hcode : Loaded decode instructions pc (c.code off pc (pc + c.size : Nat) f))
    (hhere : Here instructions pc s) (hrep : Represents off known base σ s) :
    Goes decode instructions off known base σ s (if b then pc + c.size else f) :=
  c.operands.run ht hf c.connective hu heval hcode hhere hrep rfl

/-! ## what is left to do -/

/-- From address `a` on the code of the statements stands, up to the address `exit`. -/
inductive Follows (decode : ι → Fields) (instructions : Instructions ι) (off : String → Int)
    (exit : Nat) : Nat → List Stmt → Prop
  | nil (h : Stands instructions exit) : Follows decode instructions off exit exit []
  | cons {a : Nat} {stmt : Stmt} {rest : List Stmt}
    (hcode : Loaded decode instructions a (stmt.code off a))
    (hrest : Follows decode instructions off exit (a + stmt.size) rest) :
    Follows decode instructions off exit a (stmt :: rest)
  | jump {a b : Nat} {todo : List Stmt} (hcode : Loaded decode instructions a [jump b])
    (hrest : Follows decode instructions off exit b todo) :
    Follows decode instructions off exit a todo

theorem Stmt.size_pos (stmt : Stmt) : 0 < stmt.size := by
  cases stmt with
  | assign name value => exact Nat.succ_pos 1
  | whileDo cond body => exact Nat.add_pos_left cond.operands.size_pos _
  | ifThen cond body => exact Nat.add_pos_left cond.operands.size_pos _
  | ifElse cond body alternative => exact Nat.add_pos_left cond.operands.size_pos _

variable {exit : Nat} {todo rest : List Stmt} {stmt : Stmt}

theorem Follows.stands (h : Follows decode instructions off exit a todo) :
    Stands instructions a := by
  cases h with
  | nil h => exact h
  | cons hcode _ =>
    exact hcode.stands_of_length (by rw [Stmt.code_length]; exact Stmt.size_pos _)
  | jump hcode _ => exact hcode.stands

/-- The code of a block, and what follows it. -/
theorem Follows.block : ∀ (b : List Stmt) {a : Nat},
    Loaded decode instructions a (blockCode off a b) →
    Follows decode instructions off exit (a + blockSize b) rest →
    Follows decode instructions off exit a (b ++ rest)
  | [], _, _, hrest => hrest
  | stmt :: b, a, hcode, hrest => by
    have hright := hcode.right
    rw [Stmt.code_length] at hright
    rw [blockSize, ← Nat.add_assoc] at hrest
    exact .cons hcode.left (Follows.block b hright hrest)

/-- What is left to do starts at the address, and not at one that is jumped to. -/
def Starts (decode : ι → Fields) (instructions : Instructions ι) (off : String → Int)
    (exit a : Nat) : List Stmt → Prop
  | [] => a = exit
  | stmt :: rest => Loaded decode instructions a (stmt.code off a) ∧
    Follows decode instructions off exit (a + stmt.size) rest

theorem jump_step {b : Nat} (hcode : Loaded decode instructions a [jump b])
    (hhere : Here instructions a s) (hrep : Represents off known base σ s)
    (hb : Stands instructions b) :
    ∃ s', MStep decode instructions s [] s' ∧ Here instructions b s' ∧
      Represents off known base σ s' := by
  have hrun : dispatch (fields (jump b)) s = .ok () (s.jump b) := by
    show branch (fun v => v == 0) 0 b s = _
    have haddress : ((b : Nat) : Int) ≠ -1 := by omega
    rw [branch_run (by decide) hrep.zero]
    exact executeBSR_run haddress
  obtain ⟨s', hstep, hhere', hlooks⟩ := jump_run hcode hhere hrun rfl hb
  have hwrites : writes (fields (jump b)) s = [] := by
    unfold writes
    cases s.reg (fields (jump b)).firstSourceValue <;> rfl
  rw [hwrites] at hstep
  exact ⟨s', hstep, hhere', (hrep.jump b).looks hlooks⟩

/-- Jumps that lead to what is left to do. -/
theorem Follows.starts (h : Follows decode instructions off exit a todo)
    (hhere : Here instructions a s) (hrep : Represents off known base σ s) :
    ∃ m s' a', Runs (MStep decode instructions) m s [] s' ∧ Here instructions a' s' ∧
      Represents off known base σ s' ∧ Starts decode instructions off exit a' todo := by
  induction h generalizing s with
  | nil => exact ⟨0, s, exit, .nil s, hhere, hrep, rfl⟩
  | cons hcode hrest => exact ⟨0, s, _, .nil s, hhere, hrep, hcode, hrest⟩
  | jump hcode hrest ih =>
    obtain ⟨s₁, hstep, hhere₁, hrep₁⟩ := jump_step hcode hhere hrep hrest.stands
    obtain ⟨m, s', a', hrun, hreached⟩ := ih hhere₁ hrep₁
    exact ⟨1 + m, s', a', (Runs.one hstep).trans hrun, hreached⟩

/-! ## assignments -/

/-- Different variables have different cells. -/
def Apart (off : String → Int) (known : String → Prop) (base : Word) : Prop :=
  ∀ x y, known x → known y → base + imm (off x) = base + imm (off y) → x = y

theorem Represents.setMem (h : Represents off known base σ s) (hapart : Apart off known base)
    {x : String} (hx : known x) (v : Word) :
    Represents off known base (Function.update σ x v) (s.setMem (base + imm (off x)) (some v)) where
  zero := h.zero
  frame := h.frame
  address := h.address
  value := fun y hy => by
    rw [State.mem_setMem (h.address x hx).1 (h.address y hy).1, Function.update_apply]
    by_cases hyx : y = x
    · rw [if_pos (by rw [hyx]), if_pos hyx]
    · rw [if_neg fun heq => hyx (hapart y x hy hx heq), if_neg hyx]
      exact h.value y hy

/-- An assignment as the machine sees it. -/
def observed (off : String → Int) (base : Word) (e : String × Word) : Word × Option Word :=
  (base + imm (off e.1), some e.2)

/-- **An assignment.** -/
theorem assign_run {x : String} (hapart : Apart off known base) (hx : known x)
    (hu : o.Uses known) (hcode : Loaded decode instructions a ((Stmt.assign x o).code off a))
    (hhere : Here instructions a s) (hrep : Represents off known base σ s)
    (hnext : Stands instructions (a + 2)) :
    ∃ s', Runs (MStep decode instructions) 2 s [observed off base (x, o.value σ)] s' ∧
      Here instructions (a + 2) s' ∧
      Represents off known base (Function.update σ x (o.value σ)) s' := by
  obtain ⟨s₁, hstep₁, hhere₁, hrep₁, hreg₁, -⟩ :=
    load_run (Or.inl rfl) hu hcode hhere hrep hcode.tail.stands
  have hstw := @executeSTW_run ι s₁ base 1 Compiler.fp (off x) (by decide) (by decide) hrep₁.frame
    (hrep₁.address x hx)
  rw [hreg₁] at hstw
  obtain ⟨s₂, hstep₂, hhere₂, hlooks₂⟩ := next_run hcode.tail hhere₁ hstw rfl hnext
  have hwrites : writes (fields (.mk3 .stw 1 Compiler.fp (off x))) s₁ =
      [observed off base (x, o.value σ)] := by
    have hfields : fields (.mk3 .stw 1 Compiler.fp (off x)) =
        ⟨OpCode.stw.code, 1, Compiler.fp, off x⟩ := rfl
    simp [writes, observed, hfields, hrep₁.frame, hreg₁]
  rw [hwrites] at hstep₂
  exact ⟨s₂, (Runs.one hstep₁).trans (Runs.one hstep₂), hhere₂,
    (hrep₁.setMem hapart hx _).looks hlooks₂⟩

/-! ## steps -/

theorem blockUses_append : ∀ {b : List Stmt}, blockUses known b → blockUses known rest →
    blockUses known (b ++ rest)
  | [], _, hrest => hrest
  | _ :: _, hb, hrest => ⟨hb.1, blockUses_append hb.2 hrest⟩

/-- The machine stands where the rest of the program starts. -/
structure Simulates (decode : ι → Fields) (instructions : Instructions ι) (off : String → Int)
    (known : String → Prop) (base : Word) (exit : Nat) (c : Config) (s : State ι) : Prop where
  uses : blockUses known c.todo
  represents : Represents off known base c.store s
  place : ∃ a, Here instructions a s ∧ Follows decode instructions off exit a c.todo

/-- The two ways that a condition leads to are left to do at its targets. -/
theorem condition_answered {c : Condition} {b : Bool} {f : Nat} {yes no : List Stmt} {s : State ι}
    (hc : c.Uses known) (heval : c.eval σ = some b)
    (hcode : Loaded decode instructions a (c.code off a (a + c.size : Nat) f))
    (hhere : Here instructions a s) (hrep : Represents off known base σ s)
    (hyes : Follows decode instructions off exit (a + c.size) yes)
    (hno : Follows decode instructions off exit f no)
    (hu : blockUses known (if b then yes else no)) :
    ∃ m s', 1 ≤ m ∧ Runs (MStep decode instructions) m s [] s' ∧
      Simulates decode instructions off known base exit ⟨if b then yes else no, σ⟩ s' := by
  obtain ⟨m, s', hm, hrun, hhere', hrep'⟩ :=
    Condition.run hno.stands hyes.stands hc heval hcode hhere hrep
  refine ⟨m, s', hm, hrun, ⟨hu, hrep', _, hhere', ?_⟩⟩
  cases b with
  | true => exact hyes
  | false => exact hno

/-- **A step of the program is answered** by at least one step of the machine. -/
theorem next_answered (hapart : Apart off known base) {c c' : Config} {es : List (String × Word)}
    (hsim : Simulates decode instructions off known base exit c s) (hnext : c.Step es c') :
    ∃ m s', 1 ≤ m ∧ Runs (MStep decode instructions) m s (es.map (observed off base)) s' ∧
      Simulates decode instructions off known base exit c' s' := by
  obtain ⟨todo, σ⟩ := c
  obtain ⟨hu, hrep, a₀, hhere₀, hfollows⟩ := hsim
  dsimp only at hu hrep hfollows
  obtain ⟨m₁, s₁, a, hrun₁, hhere, hrep₁, hstarts⟩ := hfollows.starts hhere₀ hrep
  unfold Config.Step Config.next at hnext
  cases todo with
  | nil => cases hnext
  | cons stmt rest =>
    obtain ⟨hcode, hrest⟩ := hstarts
    cases stmt with
    | assign x o =>
      injection hnext with hnext
      injection hnext with hes hc'
      rw [← hes, ← hc']
      obtain ⟨s₂, hrun₂, hhere₂, hrep₂⟩ :=
        assign_run hapart hu.1.1 hu.1.2 hcode hhere hrep₁ hrest.stands
      exact ⟨m₁ + 2, s₂, by omega, hrun₁.silent_trans hrun₂, hu.2, hrep₂, _, hhere₂, hrest⟩
    | whileDo cond body =>
      obtain ⟨b, heval, hpair⟩ := Option.map_eq_some_iff.mp hnext
      injection hpair with hes hc'
      rw [← hes, ← hc']
      have hbody := hcode.right
      rw [Condition.code_length] at hbody
      have hback := hbody.right
      rw [blockCode_length] at hback
      rw [Stmt.size, ← Nat.add_assoc] at hrest
      -- behind the body stands the jump back to the condition
      have hagain : Follows decode instructions off exit a (.whileDo cond body :: rest) :=
        .cons hcode (by rw [Stmt.size, ← Nat.add_assoc]; exact hrest)
      obtain ⟨m₂, s₂, hm₂, hrun₂, hsim⟩ := condition_answered hu.1.1 heval hcode.left hhere hrep₁
        (Follows.block body hbody.left (.jump hback hagain)) hrest (by
          cases b with
          | true => exact blockUses_append hu.1.2 hu
          | false => exact hu.2)
      exact ⟨m₁ + m₂, s₂, by omega, hrun₁.silent_trans hrun₂, hsim⟩
    | ifThen cond body =>
      obtain ⟨b, heval, hpair⟩ := Option.map_eq_some_iff.mp hnext
      injection hpair with hes hc'
      rw [← hes, ← hc']
      have hbody := hcode.right
      rw [Condition.code_length] at hbody
      rw [Stmt.size, ← Nat.add_assoc] at hrest
      obtain ⟨m₂, s₂, hm₂, hrun₂, hsim⟩ := condition_answered hu.1.1 heval hcode.left hhere hrep₁
        (Follows.block body hbody hrest) hrest (by
          cases b with
          | true => exact blockUses_append hu.1.2 hu.2
          | false => exact hu.2)
      exact ⟨m₁ + m₂, s₂, by omega, hrun₁.silent_trans hrun₂, hsim⟩
    | ifElse cond body alternative =>
      obtain ⟨b, heval, hpair⟩ := Option.map_eq_some_iff.mp hnext
      injection hpair with hes hc'
      rw [← hes, ← hc']
      have hbody := hcode.right
      rw [Condition.code_length] at hbody
      have hover := hbody.right
      rw [blockCode_length] at hover
      rw [Stmt.size] at hrest
      -- behind the first block stands the jump over the second one
      have hbehind : Follows decode instructions off exit
          (a + cond.size + (blockSize body + 1) + blockSize alternative) rest := by
        have heq : a + (cond.size + (blockSize body + (1 + blockSize alternative))) =
            a + cond.size + (blockSize body + 1) + blockSize alternative := by omega
        rw [← heq]
        exact hrest
      obtain ⟨m₂, s₂, hm₂, hrun₂, hsim⟩ := condition_answered hu.1.1 heval hcode.left hhere hrep₁
        (Follows.block body hbody.left (.jump (@Loaded.left _ _ _ _ [_] _ hover) hbehind))
        (Follows.block alternative hover.tail hbehind) (by
          cases b with
          | true => exact blockUses_append hu.1.2.1 hu.2
          | false => exact blockUses_append hu.1.2.2 hu.2)
      exact ⟨m₁ + m₂, s₂, by omega, hrun₁.silent_trans hrun₂, hsim⟩

end Compiler.Flow
