import Bambinos.Compiler.Flow.Machine

/-!
# The test of a relation

`CMP` leaves the difference of two registers, which wraps around, and the branch looks at its sign.

* `testCode` — the two instructions of `CodeGenerator.relation`, as written or inverted
* `test_run` — where they lead to
* `TestOk` — the branch is taken exactly when it is to be
* `test_ok_iff` — so it is, unless the order of two numbers is asked for whose difference overflows
-/

namespace Compiler.Flow

open Infra Vm

/-! ## the code -/

/-- The branch that is taken when the relation has the value `sense`. -/
def Rel.test (r : Rel) (sense : Bool) : OpCode :=
  if sense then CodeGenerator.invertRelation r.falseBranch else r.falseBranch

/-- `CMP` and the branch. -/
def testCode (reg : Int) (r : Rel) (sense : Bool) (target : Int) : List OpCodeElement :=
  [.mk3 .cmp reg reg (reg + 1), .mk2 (r.test sense) reg target]

/-- What `relation` writes, with the jump that is taken when the relation is false. -/
theorem relation_code (g : CodeGenerator) (r : Rel) :
    (g.relation r.falseBranch).2.opCode =
      g.opCode ++ testCode (g.topReg - 1) r false (-100) := by
  simp [CodeGenerator.relation, CodeGenerator.putOpCode, CodeGenerator.decreaseReg,
    CodeGenerator.getCurrentReg, testCode, Rel.test]

/-- What `fixOrJumps` makes of it, with the jump that is taken when the relation is true. -/
theorem relation_inverted (g : CodeGenerator) (r : Rel) :
    ((g.relation r.falseBranch).2.fixOrJumps (g.opCode.length + 1) true false).opCode =
      g.opCode ++ testCode (g.topReg - 1) r true (-1000) := by
  simp only [CodeGenerator.fixOrJumps, relation_code, if_true]
  exact List.modifyTailIdx_add _ 1 g.opCode _

/-! ## the difference -/

theorem toInt_lt (x : Word) : -2147483648 ≤ x.toInt ∧ x.toInt < 2147483648 := by
  have hle := BitVec.le_toInt x
  have hlt := @BitVec.toInt_lt 32 x
  omega

/-- A difference that overflows has the other sign. -/
theorem int32_sub_overflow {a b : Int} (ha : -2147483648 ≤ a ∧ a < 2147483648)
    (hb : -2147483648 ≤ b ∧ b < 2147483648) (h : int32 (a - b) ≠ a - b) :
    (int32 (a - b) < 0 ∧ 0 < a - b) ∨ (0 < int32 (a - b) ∧ a - b < 0) := by
  rcases lt_or_ge (a - b) (-2147483648) with hlow | hlow
  · -- below the smallest number, `2 ^ 32` is added
    have hwrap : int32 (a - b) = a - b + 4294967296 := by
      simp only [int32, Int.bmod_def]
      omega
    omega
  · rcases lt_or_ge (a - b) 2147483648 with hhigh | hhigh
    · exact absurd (int32_eq hlow hhigh) h
    · have hwrap : int32 (a - b) = a - b - 4294967296 := by
        simp only [int32, Int.bmod_def]
        omega
      omega

/-- The relations that do not ask for an order. -/
def Rel.Equational (r : Rel) : Prop := r = .eq ∨ r = .ne

instance (r : Rel) : Decidable r.Equational := inferInstanceAs (Decidable (_ ∨ _))

theorem holds_sub (r : Rel) (a b : Int) : r.holds (a - b) 0 = r.holds a b := by
  cases r <;> simp [Rel.holds] <;> omega

/-- The relation of the difference to zero is the one that was asked for, or the opposite. -/
theorem holds_int32_sub {a b : Int} (r : Rel) (ha : -2147483648 ≤ a ∧ a < 2147483648)
    (hb : -2147483648 ≤ b ∧ b < 2147483648) :
    r.holds (int32 (a - b)) 0 = r.holds a b ↔ r.Equational ∨ int32 (a - b) = a - b := by
  by_cases h : int32 (a - b) = a - b
  · simp [h, holds_sub]
  · rw [← holds_sub r a b]
    rcases int32_sub_overflow ha hb h with ⟨hneg, hpos⟩ | ⟨hpos, hneg⟩
    all_goals
      cases r <;> simp [Rel.holds, Rel.Equational, h] <;> omega

/-! ## where the code leads to -/

section Run

variable {ι : Type} {decode : ι → Fields} {instructions : Instructions ι} {s s' : State ι}
  {p target : Nat} {reg : Int} {x y : Word} {r : Rel} {sense : Bool}

/-- A branch of the two instructions, on any register. -/
theorem dispatch_test (r : Rel) (sense : Bool) (reg target : Int) :
    (dispatch (fields (.mk2 (r.test sense) reg target)) : M ι Unit) =
      branch (taken (r.test sense)) reg target := by
  cases r <;> cases sense <;> rfl

theorem writes_test (r : Rel) (sense : Bool) (reg target : Int) (s : State ι) :
    writes (fields (.mk2 (r.test sense) reg target)) s = [] := by
  unfold writes
  cases s.reg (fields (.mk2 (r.test sense) reg target)).firstSourceValue with
  | none => rfl
  | some v => cases r <;> cases sense <;> rfl

/-- The machine stands where the two instructions begin, with two numbers to compare. -/
structure Testing (decode : ι → Fields) (instructions : Instructions ι) (p target : Nat) (reg : Int)
    (r : Rel) (sense : Bool) (x y : Word) (s : State ι) : Prop where
  code : Loaded decode instructions p (testCode reg r sense target)
  here : Here instructions p s
  first : IsRegister reg
  second : IsRegister (reg + 1)
  left : s.reg reg = some x
  right : s.reg (reg + 1) = some y
  stands : Stands instructions target
  next : Stands instructions (p + 2)
  ne : target ≠ p + 2

/-- **The test** goes where the sign of the wrapped difference leads to. -/
theorem test_run (h : Testing decode instructions p target reg r sense x y s) :
    ∃ s', Runs (MStep decode instructions) 2 s [] s' ∧
      Here instructions (if r.holds (x - y).toInt 0 = sense then target else p + 2) s' := by
  have hcode₂ := h.code.tail
  have hcmp := executeCMP_run h.first h.first h.second h.left h.right
  obtain ⟨s₁, hstep₁, hhere₁, hlooks₁⟩ := next_run h.code h.here hcmp rfl hcode₂.stands
  have hwrites : writes (fields (.mk3 .cmp reg reg (reg + 1))) s = [] := by
    unfold writes
    cases s.reg (fields (.mk3 .cmp reg reg (reg + 1))).firstSourceValue <;> rfl
  rw [hwrites] at hstep₁
  have hreg : s₁.reg reg = some (x - y) := by
    rw [hlooks₁.reg, State.reg_setReg_self]
  have htaken : taken (r.test sense) (x - y).toInt = (r.holds (x - y).toInt 0 == sense) := by
    have hzero := taken_branch r sense (x - y).toInt 0
    rwa [sub_zero] at hzero
  have hbranch : dispatch (fields (.mk2 (r.test sense) reg target)) s₁ =
      if r.holds (x - y).toInt 0 == sense then executeBSR target s₁ else .ok () s₁ := by
    rw [dispatch_test, branch_run h.first hreg, htaken]
  by_cases hb : r.holds (x - y).toInt 0 = sense
  · rw [if_pos (by simpa using hb), executeBSR_run (by omega)] at hbranch
    obtain ⟨s₂, hstep₂, hhere₂, -⟩ := jump_run hcode₂ hhere₁ hbranch rfl h.stands
    rw [writes_test] at hstep₂
    rw [if_pos hb]
    exact ⟨s₂, (Runs.one hstep₁).trans (Runs.one hstep₂), hhere₂⟩
  · rw [if_neg (by simpa using hb)] at hbranch
    obtain ⟨s₂, hstep₂, hhere₂, -⟩ := next_run hcode₂ hhere₁ hbranch rfl h.next
    rw [writes_test] at hstep₂
    rw [if_neg hb]
    exact ⟨s₂, (Runs.one hstep₁).trans (Runs.one hstep₂), hhere₂⟩

/-- The two steps lead to one address only. -/
theorem here_unique {s₁ s₂ : State ι} {a b : Nat}
    (hrun₁ : Runs (MStep decode instructions) 2 s [] s₁) (hhere₁ : Here instructions a s₁)
    (hrun₂ : Runs (MStep decode instructions) 2 s [] s₂) (hhere₂ : Here instructions b s₂) :
    a = b := by
  obtain rfl := hrun₁.end_unique hrun₂ mstep_det
  obtain ⟨w₁, hat₁⟩ := hhere₁
  obtain ⟨w₂, hat₂⟩ := hhere₂
  exact (hat₁.unique hat₂).1

end Run

/-! ## the property -/

/-- On every machine the branch is taken exactly when the relation has the value `sense`. -/
def TestOk (r : Rel) (sense : Bool) (x y : Word) : Prop :=
  ∀ (ι : Type) (decode : ι → Fields) (instructions : Instructions ι) (p target : Nat) (reg : Int)
    (s : State ι), Testing decode instructions p target reg r sense x y s →
    ∃ s', Runs (MStep decode instructions) 2 s [] s' ∧
      Here instructions (if r.holds x.toInt y.toInt = sense then target else p + 2) s'

/-- A machine that compares two numbers in the registers 1 and 2. -/
def comparing (r : Rel) (sense : Bool) (x y : Word) : State OpCodeElement :=
  start (load (testCode 1 r sense 4 ++ [jump 1, jump 1]))
    (fun i => if i = 1 then some x else some y) fun _ => none

theorem comparing_length (r : Rel) (sense : Bool) :
    (load (testCode 1 r sense 4 ++ [jump 1, jump 1])).length = 6 := rfl

theorem comparing_testing (r : Rel) (sense : Bool) (x y : Word) :
    Testing fields (load (testCode 1 r sense 4 ++ [jump 1, jump 1])) 1 4 1 r sense x y
      (comparing r sense x y) where
  code := by
    intro i e he
    rw [comparing_length]
    match i, he with
    | 0, rfl => exact ⟨_, rfl, rfl, by decide⟩
    | 1, rfl => exact ⟨_, rfl, rfl, by decide⟩
  here := ⟨_, rfl, rfl, rfl, rfl, by simp [comparing_length]⟩
  first := by decide
  second := by decide
  left := rfl
  right := rfl
  stands := ⟨⟨_, rfl⟩, by simp [comparing_length]⟩
  next := ⟨⟨_, rfl⟩, by simp [comparing_length]⟩
  ne := by decide

/-- The test is right when the relation of the wrapped difference to zero is. -/
theorem testOk_iff_holds (r : Rel) (sense : Bool) (x y : Word) :
    TestOk r sense x y ↔ r.holds (x - y).toInt 0 = r.holds x.toInt y.toInt := by
  constructor
  · intro h
    have htesting := comparing_testing r sense x y
    obtain ⟨s₁, hrun₁, hhere₁⟩ := h _ _ _ _ _ _ _ htesting
    obtain ⟨s₂, hrun₂, hhere₂⟩ := test_run htesting
    have haddress := here_unique hrun₁ hhere₁ hrun₂ hhere₂
    revert haddress
    generalize r.holds x.toInt y.toInt = expected
    generalize r.holds (x - y).toInt 0 = found
    cases expected <;> cases found <;> cases sense <;> simp
  · intro h ι decode instructions p target reg s htesting
    rw [← h]
    exact test_run htesting

/--
**The test of a relation** is right for equations, and for an order if the difference of the two
numbers is an `int`.
-/
theorem test_ok_iff (r : Rel) (sense : Bool) (x y : Word) :
    TestOk r sense x y ↔ r.Equational ∨ int32 (x.toInt - y.toInt) = x.toInt - y.toInt := by
  rw [testOk_iff_holds, BitVec.toInt_sub]
  exact holds_int32_sub r (toInt_lt x) (toInt_lt y)

/-- The largest number is not found to be larger than `-1`. -/
theorem large_not_greater : ¬ ∀ r sense x y, TestOk r sense x y := by
  intro h
  have hgt := (testOk_iff_holds .gt true 2147483647 (-1)).mp (h _ _ _ _)
  exact absurd hgt (by decide)

end Compiler.Flow
