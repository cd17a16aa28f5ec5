import Bambinos.Minix.Policy

/-!
# The ticks that are left

`p_ticks_left` is a `char`, and every tick of the clock takes one off. The charge is compared with one
in counters without bounds.

* `chargeTicksExact` — the charge of that kernel
* `charges`, `Room` — how often a tick charges a process, and that there is still room for it
* `tick_exact_iff` — the charge is exact exactly then
* `ticksInChar_kept` — what is in a `char` stays there
-/

namespace Minix

open Infra

variable {s s' : Kernel} {rp : ProcPtr} {n : Int}

/-! ## without bounds -/

/-- The quanta the clock charges, in numbers of any size. -/
def chargeTicksExact (ticks : Int) (s : Kernel) : Option Kernel := do
  let procPtr ← s.procPtr
  let flags := (s.priv (s.proc procPtr).priv).flags
  let s :=
    if .preemptible ∈ flags ∧ (s.proc procPtr).scheduler ≠ SCHED_FIFO then
      s.setProc procPtr fun r => { r with ticksLeft := r.ticksLeft - ticks }
    else s
  if .billable ∉ flags then do
    let billPtr ← s.billPtr
    some (s.setProc billPtr fun r => { r with ticksLeft := r.ticksLeft - ticks })
  else some s

/-! ## the condition -/

/-- What a `char` holds. -/
def InChar (n : Int) : Prop := -128 ≤ n ∧ n ≤ 127

instance (n : Int) : Decidable (InChar n) := inferInstanceAs (Decidable (-128 ≤ n ∧ n ≤ 127))

/-- The process is the one that runs, and is charged for it. -/
def Kernel.chargesRunning (s : Kernel) (rp : ProcPtr) : Prop :=
  s.procPtr = some rp ∧ .preemptible ∈ (s.priv (s.proc rp).priv).flags ∧
    (s.proc rp).scheduler ≠ SCHED_FIFO

/-- The process is charged for another one that runs. -/
def Kernel.chargesBilled (s : Kernel) (rp : ProcPtr) : Prop :=
  s.billPtr = some rp ∧ ∃ p ∈ s.procPtr, .billable ∉ (s.priv (s.proc p).priv).flags

instance (s : Kernel) (rp : ProcPtr) : Decidable (s.chargesRunning rp) :=
  inferInstanceAs (Decidable (_ ∧ _ ∧ _))

instance (s : Kernel) (rp : ProcPtr) : Decidable (s.chargesBilled rp) :=
  inferInstanceAs (Decidable (_ ∧ _))

/-- How often a tick charges the process. -/
def charges (s : Kernel) (rp : ProcPtr) : Int :=
  (if s.chargesRunning rp then 1 else 0) + if s.chargesBilled rp then 1 else 0

/-- No process that a tick charges is at the lower end of its counter. -/
def Room (s : Kernel) : Prop := ∀ rp, -128 + charges s rp ≤ (s.proc rp).ticksLeft

instance (s : Kernel) : Decidable (Room s) :=
  inferInstanceAs (Decidable (∀ rp, -128 + charges s rp ≤ (s.proc rp).ticksLeft))

/-! ## one tick -/

theorem toChar_eq (h : InChar n) : toChar n = n := by
  unfold toChar
  unfold InChar at h
  rw [Int.bmod_eq_of_le] <;> omega

theorem toChar_inChar (n : Int) : InChar (toChar n) := by
  have hlow := Int.le_bmod (x := n) (m := 256) (by decide)
  have hhigh := Int.bmod_lt (x := n) (m := 256) (by decide)
  unfold toChar InChar
  omega

/-- The counters and the quanta are in a `char`. -/
def TicksInChar (r : Proc) : Prop := InChar r.ticksLeft ∧ InChar r.quantumSize

theorem ticksInChar_kept : Kept TicksInChar where
  congr _ _ _ hticks hquantum h := by
    unfold TicksInChar
    rwa [hticks, hquantum]
  sched {r} h := by
    unfold Minix.sched
    split
    · exact h
    · split
      · unfold schedRr
        dsimp only
        split
        · exact h
        · exact ⟨h.2, h.2⟩
      · unfold schedOther
        dsimp only
        split
        · exact h
        · exact ⟨h.2, h.2⟩
  raise h _ := h
  nice _ h := h
  ticks n h := ⟨toChar_inChar n, h.2⟩
  renew h := ⟨h.2, h.2⟩

theorem boot_ticks (h : boot = some s) : Everywhere TicksInChar s := by
  have hall : boot.all fun s => ∀ r, InChar (s.proc r).ticksLeft ∧ InChar (s.proc r).quantumSize := by
    decide +kernel
  rw [h] at hall
  have hs := of_decide_eq_true hall
  exact hs

theorem Kernel.setProc_congr {f g : Proc → Proc} (h : f (s.proc rp) = g (s.proc rp)) :
    s.setProc rp f = s.setProc rp g := by
  unfold Kernel.setProc
  rw [h]

/-- One process is charged. -/
theorem charge_eq (h : InChar ((s.proc rp).ticksLeft - 1)) :
    (s.setProc rp fun r => { r with ticksLeft := toChar (r.ticksLeft - 1) }) =
      s.setProc rp fun r => { r with ticksLeft := r.ticksLeft - 1 } := by
  refine Kernel.setProc_congr ?_
  simp only [toChar_eq h]

/-- When one is taken off of some counters. -/
theorem setProc_ticks (p : ProcPtr) : ((s.setProc p fun r =>
    { r with ticksLeft := r.ticksLeft - 1 }).proc rp).ticksLeft =
      (s.proc rp).ticksLeft - if p = rp then 1 else 0 := by
  by_cases hp : p = rp
  · subst hp
    rw [Kernel.setProc_self, if_pos rfl]
  · rw [Kernel.setProc_of_ne (Ne.symm hp), if_neg hp, Int.sub_zero]

/-- What the exact clock takes off. -/
theorem chargeTicksExact_ticks (h : chargeTicksExact 1 s = some s') :
    (s'.proc rp).ticksLeft = (s.proc rp).ticksLeft - charges s rp := by
  unfold chargeTicksExact at h
  obtain ⟨p, hp, h⟩ := Option.bind_eq_some_iff.mp h
  dsimp only at h
  have hrunning : ((if .preemptible ∈ (s.priv (s.proc p).priv).flags ∧
      (s.proc p).scheduler ≠ SCHED_FIFO then
        s.setProc p fun r => { r with ticksLeft := r.ticksLeft - 1 }
      else s).proc rp).ticksLeft =
        (s.proc rp).ticksLeft - if s.chargesRunning rp then 1 else 0 := by
    by_cases hcond : .preemptible ∈ (s.priv (s.proc p).priv).flags ∧
        (s.proc p).scheduler ≠ SCHED_FIFO
    · have hiff : s.chargesRunning rp ↔ p = rp := by
        constructor
        · rintro ⟨hrp, -, -⟩
          exact Option.some.inj (hp.symm.trans hrp)
        · rintro rfl
          exact ⟨hp, hcond⟩
      rw [if_pos hcond, setProc_ticks]
      simp only [hiff]
    · have hnot : ¬ s.chargesRunning rp := by
        rintro ⟨hrp, hcharged⟩
        cases hp.symm.trans hrp
        exact hcond hcharged
      rw [if_neg hcond, if_neg hnot, Int.sub_zero]
  have hptr : (if .preemptible ∈ (s.priv (s.proc p).priv).flags ∧
      (s.proc p).scheduler ≠ SCHED_FIFO then
        s.setProc p fun r => { r with ticksLeft := r.ticksLeft - 1 }
      else s).billPtr = s.billPtr := by
    split <;> rfl
  generalize (if .preemptible ∈ (s.priv (s.proc p).priv).flags ∧
      (s.proc p).scheduler ≠ SCHED_FIFO then
        s.setProc p fun r => { r with ticksLeft := r.ticksLeft - 1 }
      else s) = s₁ at h hrunning hptr
  unfold charges
  by_cases hbill : PrivFlag.billable ∉ (s.priv (s.proc p).priv).flags
  · rw [if_pos hbill] at h
    obtain ⟨b, hb, h⟩ := Option.bind_eq_some_iff.mp h
    cases h
    have hiff : s.chargesBilled rp ↔ b = rp := by
      rw [hptr] at hb
      constructor
      · rintro ⟨hrp, -⟩
        exact Option.some.inj (hb.symm.trans hrp)
      · rintro rfl
        exact ⟨hb, p, hp, hbill⟩
    rw [setProc_ticks, hrunning]
    simp only [hiff]
    omega
  · have hnot : ¬ s.chargesBilled rp := by
      rintro ⟨-, q, hq, hbill'⟩
      cases hp.symm.trans hq
      exact hbill hbill'
    rw [if_neg hbill] at h
    cases h
    rw [hrunning, if_neg hnot, Int.add_zero]

/-- With room for it, the charge is exact. -/
theorem chargeTicks_eq (h : Everywhere TicksInChar s) (hfits : Room s) :
    chargeTicks 1 s = chargeTicksExact 1 s := by
  unfold chargeTicks chargeTicksExact
  cases hp : s.procPtr with
  | none => rfl
  | some p =>
    simp only [Option.bind_eq_bind, Option.bind_some]
    have hrunning : (if .preemptible ∈ (s.priv (s.proc p).priv).flags ∧
        (s.proc p).scheduler ≠ SCHED_FIFO then
          s.setProc p fun r => { r with ticksLeft := toChar (r.ticksLeft - 1) } else s) =
        if .preemptible ∈ (s.priv (s.proc p).priv).flags ∧ (s.proc p).scheduler ≠ SCHED_FIFO then
          s.setProc p fun r => { r with ticksLeft := r.ticksLeft - 1 } else s := by
      split
      · next hcond =>
        have hcharged : 1 ≤ charges s p := by
          have hruns : s.chargesRunning p := ⟨hp, hcond⟩
          unfold charges
          rw [if_pos hruns]
          split <;> decide
        have hlow := hfits p
        have hhigh := (h p).1.2
        exact charge_eq ⟨by omega, by omega⟩
      · rfl
    rw [hrunning]
    split
    · next hbill =>
      -- the one that is billed may be the one that runs
      have hticks : ∀ b, s.billPtr = some b → InChar (((if .preemptible ∈
          (s.priv (s.proc p).priv).flags ∧ (s.proc p).scheduler ≠ SCHED_FIFO then
            s.setProc p fun r => { r with ticksLeft := r.ticksLeft - 1 } else s).proc b).ticksLeft
              - 1) := by
        intro b hb
        have hbilled : s.chargesBilled b := ⟨hb, p, hp, hbill⟩
        have hlow := hfits b
        have hhigh := (h b).1.2
        unfold charges at hlow
        rw [if_pos hbilled] at hlow
        split
        · next hcond =>
          rw [setProc_ticks]
          by_cases hpb : p = b
          · have hruns : s.chargesRunning b := hpb ▸ ⟨hp, hcond⟩
            rw [if_pos hruns] at hlow
            rw [if_pos hpb]
            exact ⟨by omega, by omega⟩
          · rw [if_neg hpb]
            have hnonneg : (0 : Int) ≤ if s.chargesRunning b then 1 else 0 := by
              split <;> decide
            exact ⟨by omega, by omega⟩
        · have hnonneg : (0 : Int) ≤ if s.chargesRunning b then 1 else 0 := by
            split <;> decide
          exact ⟨by omega, by omega⟩
      have hptr : (if .preemptible ∈ (s.priv (s.proc p).priv).flags ∧
          (s.proc p).scheduler ≠ SCHED_FIFO then
            s.setProc p fun r => { r with ticksLeft := r.ticksLeft - 1 } else s).billPtr =
          s.billPtr := by
        split <;> rfl
      rw [hptr]
      cases hb : s.billPtr with
      | none => rfl
      | some b => exact congrArg some (charge_eq (hticks b hb))
    · rfl

/-- A tick is exact exactly when there is room for it. -/
theorem tick_exact_iff (h : Everywhere TicksInChar s) (hstep : chargeTicks 1 s = some s') :
    chargeTicksExact 1 s = some s' ↔ Room s := by
  constructor
  · intro hexact rp
    have hticks := @chargeTicksExact_ticks _ _ rp hexact
    have hchar := (h.chargeTicks ticksInChar_kept hstep rp).1.1
    omega
  · intro hfits
    rw [← chargeTicks_eq h hfits]
    exact hstep

end Minix
