import Bambinos.Vm.Frame
import Bambinos.Vm.Run

/-!
# Runs that end

* `EndsWithin` — the machine ends, and until then it executes instructions of a set of addresses
* `endsWithin_iff` — one turn of the loop
* `EndsWithin.execute` — enough turns of the loop of `execute` are the whole run
* `step_null`, `exit_ends` — where the machine ends: at a `null` and at `BSR -1`
* `follow` — a run of a concrete machine
-/

namespace Vm

open Infra Compiler

variable {ι : Type}

/--
The loop of `execute` ends, normally or with an exception, and every instruction that it executes
stands at an address of `own`.
-/
inductive EndsWithin (decode : ι → Fields) (instructions : Instructions ι) (own : Set Nat) :
    State ι → Prop
  | halted {s : State ι} (h : s.ir = none) : EndsWithin decode instructions own s
  | failed {s s' : State ι} {ir : ι} {e : Throwable} {a : Nat} (h : s.ir = some ir)
    (hcip : s.cip = a) (ha : a ∈ own) (hstep : step decode instructions ir s = .error e s') :
    EndsWithin decode instructions own s
  | step {s s' : State ι} {ir : ι} {a : Nat} (h : s.ir = some ir) (hcip : s.cip = a) (ha : a ∈ own)
    (hstep : step decode instructions ir s = .ok () s')
    (hrest : EndsWithin decode instructions own s') : EndsWithin decode instructions own s

variable {decode : ι → Fields} {instructions : Instructions ι} {own : Set Nat} {s s' s₁ : State ι}
  {a : Nat} {w : ι}

/-- More turns than the run has change nothing. -/
theorem EndsWithin.execute (h : EndsWithin decode instructions own s) :
    ∃ n r, ∀ m, n ≤ m → execute decode instructions m s = r := by
  induction h with
  | @halted s h =>
    refine ⟨1, .ok () s, fun m hm => ?_⟩
    obtain ⟨k, rfl⟩ := Nat.exists_eq_add_of_le' hm
    unfold Vm.execute
    rw [bind_ok get_run, h]
    rfl
  | @failed s s' ir e a h hcip ha hstep =>
    refine ⟨1, .error e s', fun m hm => ?_⟩
    obtain ⟨k, rfl⟩ := Nat.exists_eq_add_of_le' hm
    unfold Vm.execute
    rw [bind_ok get_run, h]
    exact bind_error hstep
  | @step s s' ir a h hcip ha hstep hrest ih =>
    obtain ⟨n, r, hn⟩ := ih
    refine ⟨n + 1, r, fun m hm => ?_⟩
    obtain ⟨k, rfl⟩ := Nat.exists_eq_add_of_le' hm
    unfold Vm.execute
    rw [bind_ok get_run, h]
    dsimp only
    rw [bind_ok hstep]
    exact hn _ (Nat.le_add_left n k)

/-- An instruction of another address is not executed. -/
theorem EndsWithin.mem (h : EndsWithin decode instructions own s) (hat : At instructions a w s) :
    a ∈ own := by
  cases h with
  | halted h =>
    rw [hat.ir] at h
    cases h
  | failed _ hcip ha _ =>
    rw [hat.cip] at hcip
    rwa [Int.ofNat_inj.mp hcip]
  | step _ hcip ha _ _ =>
    rw [hat.cip] at hcip
    rwa [Int.ofNat_inj.mp hcip]

/-- **One turn of the loop.** -/
theorem endsWithin_iff (hat : At instructions a w s) (ha : a ∈ own) :
    EndsWithin decode instructions own s ↔
      ∀ s', step decode instructions w s = .ok () s' → EndsWithin decode instructions own s' := by
  constructor
  · intro h s' hs'
    cases h with
    | halted h =>
      rw [hat.ir] at h
      cases h
    | failed h _ _ hstep =>
      rw [hat.ir] at h
      injection h with h
      rw [← h, hs'] at hstep
      cases hstep
    | step h _ _ hstep hrest =>
      rw [hat.ir] at h
      injection h with h
      rw [← h, hs'] at hstep
      injection hstep with _ hstate
      rw [hstate]
      exact hrest
  · intro h
    cases hstep : step decode instructions w s with
    | ok _ s' => exact .step hat.ir hat.cip ha hstep (h s' hstep)
    | error e s' => exact .failed hat.ir hat.cip ha hstep

/-- A run that ends ends from everywhere on its way. -/
theorem EndsWithin.runs {n : Nat} {es : List (Word × Option Word)}
    (hrun : Runs (MStep decode instructions) n s es s')
    (h : EndsWithin decode instructions own s) : EndsWithin decode instructions own s' := by
  induction hrun with
  | nil => exact h
  | cons hstep hrest ih =>
    obtain ⟨a, w, hat, hstep, -⟩ := hstep
    exact ih ((endsWithin_iff hat (h.mem hat)).mp h _ hstep)

/-! ## turns of the loop -/

theorem At.word_eq {w' : ι} (hat : At instructions a w s) (hw : instructions[a]? = some (some w')) :
    w = w' := by
  have h := hat.word
  rw [hw] at h
  injection h with h
  injection h with h
  exact h.symm

/-- Behind an instruction that does not jump stands the next one. -/
theorem step_next (hat : At instructions a w s) (h : ¬ Jumps (decode w).opCode)
    (hstep : step decode instructions w s = .ok () s') (hnext : Stands instructions (a + 1)) :
    Here instructions (a + 1) s' := by
  unfold step at hstep
  obtain ⟨⟨⟩, s₁, hrun, hfetch⟩ := bind_eq_ok hstep
  have hpc : s₁.pc = some ((a + 1 : Nat) : Int) := by
    rw [dispatch_pc h hrun, hat.pc]
    rfl
  obtain ⟨w', hw'⟩ := hnext.word
  obtain ⟨s₂, hfetch₂, hat₂, -⟩ := fetch_run hpc hw' hnext.lt
  rw [hfetch] at hfetch₂
  injection hfetch₂ with _ hs
  rw [hs]
  exact ⟨w', hat₂⟩

/-- The machine ends at a `null`. -/
theorem step_null (hat : At instructions a w s) (h : ¬ Jumps (decode w).opCode)
    (hstep : step decode instructions w s = .ok () s') (hnext : instructions[a + 1]? = some none) :
    s'.ir = none := by
  unfold step at hstep
  obtain ⟨⟨⟩, s₁, hrun, hfetch⟩ := bind_eq_ok hstep
  have hpc : s₁.pc = some ((a + 1 : Nat) : Int) := by
    rw [dispatch_pc h hrun, hat.pc]
    rfl
  have hlt := (List.getElem?_eq_some_iff.mp hnext).1
  have hle : ((a + 1 : Nat) : Int) ≤ instructions.length := by omega
  simp only [fetch, bind_run, get_run, hpc, hle, if_true, elementAt_run hnext, modify_run] at hfetch
  injection hfetch with _ hs
  rw [← hs]

/-- The machine ends at `BSR -1`. -/
theorem exit_ends (hat : At instructions a w s) (ha : a ∈ own) (hop : (decode w).opCode = 50)
    (htarget : (decode w).targetValue = -1) : EndsWithin decode instructions own s := by
  refine (endsWithin_iff hat ha).mpr fun s' hstep => .halted ?_
  have hrun : dispatch (decode w) s = .ok () { s with pc := none } := by
    unfold dispatch
    rw [hop, htarget]
    rfl
  unfold step at hstep
  rw [bind_ok hrun] at hstep
  injection hstep with _ hs
  rw [← hs]

/-! ## computing a run -/

/-- A run of the given number of turns, if it is one. -/
def follow [DecidableEq ι] (decode : ι → Fields) (instructions : Instructions ι) :
    Nat → State ι → Option (State ι)
  | 0, s => some s
  | n + 1, s =>
    match s.ir with
    | none => none
    | some w =>
      if instructions[s.cip.toNat]? = some (some w) ∧ s.cip = s.cip.toNat ∧
          s.pc = some ((s.cip.toNat : Int) + 1) ∧ s.cip.toNat + 1 < instructions.length then
        match step decode instructions w s with
        | .ok _ s' => follow decode instructions n s'
        | .error _ _ => none
      else none

theorem follow_runs [DecidableEq ι] : ∀ {n : Nat} {s : State ι},
    follow decode instructions n s = some s' →
      ∃ es, Runs (MStep decode instructions) n s es s'
  | 0, s, h => by
    cases h
    exact ⟨[], .nil _⟩
  | n + 1, s, h => by
    unfold follow at h
    cases hir : s.ir with
    | none =>
      rw [hir] at h
      cases h
    | some w =>
      rw [hir] at h
      dsimp only at h
      split at h
      · next hat =>
        obtain ⟨hword, hcip, hpc, hlt⟩ := hat
        cases hstep : step decode instructions w s with
        | error e s₁ =>
          rw [hstep] at h
          cases h
        | ok u s₁ =>
          rw [hstep] at h
          obtain ⟨es, hrest⟩ := follow_runs h
          exact ⟨_, .cons ⟨_, w, ⟨hword, hir, hcip, hpc, hlt⟩, hstep, rfl⟩ hrest⟩
      · cases h

end Vm
