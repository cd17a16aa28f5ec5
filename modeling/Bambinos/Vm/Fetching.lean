import Bambinos.Vm.Frame
import Bambinos.Vm.Memory

/-!
# Where the machine fetches

* `boot`, `Reached` — the states of a run, from what `loadCodeIntoMemory` leaves on
* `destination` — where an instruction transfers control, asked before it is executed
* `fetches_iff` — for which program counters the guard of the fetch is right
* `falls_through` — an instruction that does not jump never leads out of the array
* `fetches_in_bounds_iff` — so for whole runs
-/

namespace Vm

open Infra Compiler

/-! ## runs -/

/-- What `loadCodeIntoMemory` leaves. `IR` is 0 until an instruction is copied into it, and without
a cell at address 1 nothing is started. -/
def boot (instructions : Instructions Word) (registers memory : Nat → Option Word) :
    Option (State Word) :=
  match instructions[1]? with
  | some (some ir) => some { registers := registers, memory := memory, pc := some 2,
                             ir := some ir, cip := 1, output := [] }
  | some none => some { registers := registers, memory := memory, pc := some 1, ir := some 0,
                        cip := 0, output := [] }
  | none => none

/-- The states at the beginning of the turns of the loop of `execute`. -/
inductive Reached (instructions : Instructions Word) (registers memory : Nat → Option Word) :
    State Word → Prop
  | boot {s : State Word} (h : boot instructions registers memory = some s) :
    Reached instructions registers memory s
  | step {s s' : State Word} {ir : Word} (h : Reached instructions registers memory s)
    (hir : s.ir = some ir) (hstep : step decode instructions ir s = .ok () s') :
    Reached instructions registers memory s'

/-- The fetch is made inside of the array, and from elsewhere the machine stops. -/
def FetchesInside {ι : Type} (instructions : Instructions ι) (s : State ι) : Prop :=
  ∃ s', fetch instructions s = .ok () s' ∧
    ((∀ a, s.pc = some a → ¬ (0 ≤ a ∧ a < instructions.length)) → s'.ir = none)

/-- The program counters for which the comparison with the length is a guard. -/
def Guarded {ι : Type} (instructions : Instructions ι) (pc : Option Int) : Prop :=
  ∀ a, pc = some a → 0 ≤ a ∧ a ≠ instructions.length

section Fetch

variable {ι : Type} {instructions : Instructions ι} {s s' : State ι} {a : Int}

theorem fetch_null (hpc : s.pc = none) : fetch instructions s = .ok () { s with ir := none } := by
  simp only [fetch, bind_run, get_run, hpc, modify_run]

/-- Behind the word after the array the guard holds. -/
theorem fetch_beyond (hpc : s.pc = some a) (h : (instructions.length : Int) < a) :
    fetch instructions s = .ok () { s with ir := none } := by
  have hle : ¬ a ≤ instructions.length := by omega
  simp only [fetch, bind_run, get_run, hpc, hle, if_false, modify_run]

theorem fetch_inside (hpc : s.pc = some a) (h0 : 0 ≤ a) (hlt : a < instructions.length) :
    ∃ ir, fetch instructions s =
      .ok () { s with ir := ir, cip := a, pc := increasePC instructions a } := by
  obtain ⟨k, rfl⟩ := Int.eq_ofNat_of_zero_le h0
  have hk : k < instructions.length := by omega
  refine ⟨instructions[k], ?_⟩
  unfold fetch
  rw [bind_ok get_run, hpc]
  dsimp only
  rw [if_pos (by omega), bind_ok (elementAt_run (List.getElem?_eq_getElem hk))]
  rfl

/-- The guard lets pass the word after the array, and what is before it. -/
theorem fetch_fails (hpc : s.pc = some a) (h : a < 0 ∨ a = instructions.length) :
    fetch instructions s = .error .indexOutOfBounds s := by
  have hle : a ≤ instructions.length := by omega
  unfold fetch
  rw [bind_ok get_run, hpc]
  dsimp only
  rw [if_pos hle]
  refine bind_error ?_
  rcases h with hneg | rfl
  · obtain ⟨k, rfl⟩ := Int.eq_negSucc_of_lt_zero hneg
    rfl
  · have hnone : instructions[instructions.length]? = none := List.getElem?_eq_none (Nat.le_refl _)
    unfold elementAt
    dsimp only
    rw [hnone]
    rfl

/-- **One fetch.** -/
theorem fetches_iff : FetchesInside instructions s ↔ Guarded instructions s.pc := by
  constructor
  · rintro ⟨s', hfetch, -⟩ a hpc
    by_contra hout
    rw [fetch_fails hpc (by omega)] at hfetch
    cases hfetch
  · intro hguard
    cases hpc : s.pc with
    | none => exact ⟨_, fetch_null hpc, fun _ => rfl⟩
    | some a =>
      obtain ⟨h0, hne⟩ := hguard a hpc
      by_cases hlt : a < instructions.length
      · obtain ⟨ir, hfetch⟩ := fetch_inside hpc h0 hlt
        exact ⟨_, hfetch, fun hout => absurd ⟨h0, hlt⟩ (hout a hpc)⟩
      · exact ⟨_, fetch_beyond hpc (by omega), fun _ => rfl⟩

/-- The program counter is moved on within the array. -/
theorem increasePC_cases (h0 : 0 ≤ a) {b : Int} (h : increasePC instructions a = some b) :
    0 ≤ b ∧ b < instructions.length := by
  unfold increasePC at h
  by_cases hlt : a < (instructions.length : Int) - 1
  · rw [if_pos hlt] at h
    injection h with hb
    omega
  · rw [if_neg hlt] at h
    cases h

/-- Behind a fetch the program counter is that of another instruction or `null`. -/
def Advanced (instructions : Instructions ι) (s : State ι) : Prop :=
  s.ir ≠ none → ∀ a, s.pc = some a → 0 ≤ a ∧ a < instructions.length

theorem fetch_advanced (h : fetch instructions s = .ok () s') : Advanced instructions s' := by
  intro hir b hb
  cases hpc : s.pc with
  | none =>
    rw [fetch_null hpc] at h
    injection h with _ hs
    rw [← hs] at hir
    exact absurd rfl hir
  | some a =>
    by_cases hbad : a < 0 ∨ a = instructions.length
    · rw [fetch_fails hpc hbad] at h
      cases h
    · by_cases hlt : a < instructions.length
      · obtain ⟨ir, hfetch⟩ := fetch_inside hpc (by omega) hlt
        rw [hfetch] at h
        injection h with _ hs
        rw [← hs] at hb
        exact increasePC_cases (by omega) hb
      · rw [fetch_beyond hpc (by omega)] at h
        injection h with _ hs
        rw [← hs] at hir
        exact absurd rfl hir

/-! ## transfers of control -/

/-- The address of a jump; -1 is the exit symbol. -/
def target (jumpAddress : Int) : Option Int := if jumpAddress = -1 then none else some jumpAddress

/-- What a branch tests. -/
def branchTest (opCode : Nat) : Option (Int → Bool) :=
  match opCode with
  | 19 => some fun v => v == 0
  | 20 => some fun v => v != 0
  | 21 => some fun v => v < 0
  | 22 => some fun v => 0 ≤ v
  | 23 => some fun v => 0 < v
  | 24 => some fun v => v ≤ 0
  | _ => none

/-- Where an instruction leads from the state before it. -/
def destination (f : Fields) (s : State ι) : Option Int :=
  match branchTest f.opCode with
  | some taken =>
    if (s.reg f.targetValue).any fun v => taken v.toInt then target f.secondSourceValue else s.pc
  | none =>
    if f.opCode = OpCode.bsr.code then target f.targetValue
    else if f.opCode = OpCode.ret.code then (s.reg f.targetValue).map BitVec.toInt
    else s.pc

theorem executeBSR_pc (h : executeBSR a s = .ok () s') : s'.pc = target a := by
  unfold target
  by_cases hexit : a = -1
  · unfold executeBSR at h
    rw [if_pos hexit] at h
    injection h with _ hs
    rw [if_pos hexit, ← hs]
  · rw [executeBSR_run hexit] at h
    injection h with _ hs
    rw [if_neg hexit, ← hs]
    rfl

theorem branch_pc {taken : Int → Bool} {r0 : Int} (h : branch taken r0 a s = .ok () s') :
    s'.pc = if (s.reg r0).any fun v => taken v.toInt then target a else s.pc := by
  obtain ⟨v, s₁, hread, -⟩ := bind_eq_ok (show (register r0 >>= _ : M ι Unit) s = _ from h)
  obtain ⟨h0, hv, -⟩ := register_eq_ok hread
  rw [branch_run h0 hv] at h
  rw [hv, Option.any_some]
  by_cases htaken : taken v.toInt = true
  · rw [if_pos htaken] at h ⊢
    exact executeBSR_pc h
  · rw [if_neg htaken] at h ⊢
    injection h with _ hs
    rw [← hs]

theorem executeRET_pc {r0 : Int} (h : executeRET r0 s = .ok () s') :
    s'.pc = (s.reg r0).map BitVec.toInt := by
  obtain ⟨v, s₁, hread, hset⟩ := bind_eq_ok (show (getRegister r0 >>= _ : M ι Unit) s = _ from h)
  obtain ⟨-, rfl, rfl⟩ := getRegister_eq_ok hread
  injection hset with _ hs
  rw [← hs]

/-- **An instruction leads where it says before.** -/
theorem dispatch_destination {f : Fields} (h : dispatch f s = .ok () s') :
    s'.pc = destination f s := by
  unfold destination
  by_cases hjumps : Jumps f.opCode
  · rcases hjumps with hbranch | hop | hop
    · have hcases : f.opCode = 19 ∨ f.opCode = 20 ∨ f.opCode = 21 ∨ f.opCode = 22 ∨
          f.opCode = 23 ∨ f.opCode = 24 := by
        obtain ⟨hle, hge⟩ := hbranch
        omega
      unfold dispatch at h
      rcases hcases with hop | hop | hop | hop | hop | hop <;>
      · rw [hop] at h ⊢
        exact branch_pc h
    · unfold dispatch at h
      rw [hop] at h ⊢
      exact executeBSR_pc h
    · unfold dispatch at h
      rw [hop] at h ⊢
      exact executeRET_pc h
  · have htest : branchTest f.opCode = none := by
      unfold branchTest
      split
      case h_7 => rfl
      all_goals
        next hop => exact absurd (.inl (by rw [hop]; decide)) hjumps
    rw [htest]
    dsimp only
    have hbsr : f.opCode ≠ OpCode.bsr.code := fun hop => hjumps (.inr (.inl hop))
    have hret : f.opCode ≠ OpCode.ret.code := fun hop => hjumps (.inr (.inr hop))
    rw [if_neg hbsr, if_neg hret]
    exact dispatch_pc hjumps h

end Fetch

/-! ## whole runs -/

section Runs

variable {instructions : Instructions Word} {registers memory : Nat → Option Word} {s s' : State Word}
  {ir : Word}

/-- **Falling through.** In an array with more than two cells, as every file makes it, only a jump
leads to an address that the guard does not catch. -/
theorem falls_through (hlength : 2 < instructions.length)
    (h : Reached instructions registers memory s) (hir : s.ir = some ir)
    (hjumps : ¬ Jumps (decode ir).opCode) (hrun : dispatch (decode ir) s = .ok () s') :
    FetchesInside instructions s' := by
  have hadvanced : Advanced instructions s := by
    cases h with
    | boot h =>
      unfold boot at h
      intro _ a ha
      split at h
      · cases h
        cases ha
        omega
      · cases h
        cases ha
        omega
      · cases h
    | step _ _ hstep =>
      obtain ⟨⟨⟩, s₁, -, hfetch⟩ := bind_eq_ok hstep
      exact fetch_advanced hfetch
  have hne : s.ir ≠ none := by
    rw [hir]
    exact Option.some_ne_none ir
  refine fetches_iff.mpr fun a ha => ?_
  rw [dispatch_pc hjumps hrun] at ha
  obtain ⟨h0, hlt⟩ := hadvanced hne a ha
  exact ⟨h0, by omega⟩

/--
**Fetching.** In a run every fetch is made inside of the array and every transfer to an address
outside stops the machine, exactly when no instruction that is executed leads to a negative address
or to the address behind the last one.
-/
theorem fetches_in_bounds_iff (instructions : Instructions Word)
    (registers memory : Nat → Option Word) :
    (∀ s ir s', Reached instructions registers memory s → s.ir = some ir →
      dispatch (decode ir) s = .ok () s' → FetchesInside instructions s') ↔
    ∀ s ir, Reached instructions registers memory s → s.ir = some ir →
      (∃ s', dispatch (decode ir) s = .ok () s') →
        Guarded instructions (destination (decode ir) s) := by
  constructor
  · rintro h s ir hreached hir ⟨s', hrun⟩
    rw [← dispatch_destination hrun]
    exact fetches_iff.mp (h s ir s' hreached hir hrun)
  · intro h s ir s' hreached hir hrun
    refine fetches_iff.mpr ?_
    rw [dispatch_destination hrun]
    exact h s ir hreached hir ⟨s', hrun⟩

/-- A jump to the address behind the last cell. -/
def jumpBehind : Instructions Word := load [0xC8000003]

/-- The array has the cells 0, 1 and 2; the jump leads to 3. -/
theorem jumps_behind : ¬ ∀ (instructions : Instructions Word) (registers memory : Nat → Option Word)
    (s : State Word) (ir : Word) (s' : State Word), Reached instructions registers memory s →
      s.ir = some ir → dispatch (decode ir) s = .ok () s' → FetchesInside instructions s' := by
  intro h
  have hdecode : decode 0xC8000003 = ⟨50, 3, 0, 0⟩ := by decide
  have hrun := h jumpBehind initRegisters (fun _ => none) _ _ _ (.boot rfl) rfl
    (by rw [hdecode]; exact executeBSR_run (by decide))
  exact absurd (fetches_iff.mp hrun 3 rfl).2 (by decide)

end Runs

end Vm
