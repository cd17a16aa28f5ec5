import Mathlib.Data.List.Basic

/-!
# Runs with events, and simulations

A step is labelled with the list of events that happen in it.

* `Runs` — a run of a number of steps, with its events in order
* `Runs.prefix_of_le` — of two runs of a deterministic system the longer one continues the other
* `Runs.simulate` — a system that answers every step with at least one step of its own and the
  same events answers every run
-/

namespace Infra

variable {σ τ ε ε' : Type}

/-- A run of `n` steps. -/
inductive Runs (step : σ → List ε → σ → Prop) : Nat → σ → List ε → σ → Prop
  | nil (s : σ) : Runs step 0 s [] s
  | cons {n : Nat} {s s₁ s₂ : σ} {es es' : List ε} (h : step s es s₁)
      (hrest : Runs step n s₁ es' s₂) : Runs step (n + 1) s (es ++ es') s₂

namespace Runs

variable {step : σ → List ε → σ → Prop} {step' : τ → List ε' → τ → Prop} {n m : Nat}
  {s s₁ s₂ : σ} {es es' : List ε}

theorem one (h : step s es s₁) : Runs step 1 s es s₁ := by
  have hrun := cons h (nil s₁)
  rw [List.append_nil] at hrun
  exact hrun

theorem trans (h : Runs step n s es s₁) (h' : Runs step m s₁ es' s₂) :
    Runs step (n + m) s (es ++ es') s₂ := by
  induction h with
  | nil s =>
    rw [Nat.zero_add]
    exact h'
  | cons hstep hrest ih =>
    rw [List.append_assoc, Nat.succ_add]
    exact cons hstep (ih h')

/-- No event happens in the first run. -/
theorem silent_trans (h : Runs step n s [] s₁) (h' : Runs step m s₁ es s₂) :
    Runs step (n + m) s es s₂ := h.trans h'

/-- No event happens in the second run. -/
theorem trans_silent (h : Runs step n s es s₁) (h' : Runs step m s₁ [] s₂) :
    Runs step (n + m) s es s₂ := by
  have hrun := h.trans h'
  rw [List.append_nil] at hrun
  exact hrun

/-- The longer of two runs of a deterministic system continues the shorter one. -/
theorem prefix_of_le
    (hdet : ∀ {s es s₁ es' s₂}, step s es s₁ → step s es' s₂ → es' = es ∧ s₂ = s₁)
    (h : Runs step n s es s₁) (h' : Runs step m s es' s₂) (hle : n ≤ m) : es <+: es' := by
  induction h generalizing m es' with
  | nil s => exact List.nil_prefix
  | cons hstep hrest ih =>
    cases h' with
    | nil => exact absurd hle (Nat.not_succ_le_zero _)
    | cons hstep' hrest' =>
      obtain ⟨hes, hs⟩ := hdet hstep hstep'
      rw [hes]
      rw [hs] at hrest'
      exact (List.prefix_append_right_inj _).mpr (ih hrest' (Nat.le_of_succ_le_succ hle))

/-- Two runs of a deterministic system that are as long end in the same state. -/
theorem end_unique (h : Runs step n s es s₁) (h' : Runs step n s es' s₂)
    (hdet : ∀ {s es s₁ es' s₂}, step s es s₁ → step s es' s₂ → es' = es ∧ s₂ = s₁) :
    s₂ = s₁ := by
  induction h generalizing es' with
  | nil s =>
    cases h'
    rfl
  | cons hstep hrest ih =>
    cases h' with
    | cons hstep' hrest' =>
      obtain ⟨-, hs⟩ := hdet hstep hstep'
      rw [hs] at hrest'
      exact ih hrest'

/--
**Simulation.** If every step is answered by at least one step with the same events, so is every
run, and it is answered by at least as many steps.
-/
theorem simulate {R : σ → τ → Prop} {f : ε → ε'}
    (hsim : ∀ {s es s₁ t}, R s t → step s es s₁ →
      ∃ m t₁, 1 ≤ m ∧ Runs step' m t (es.map f) t₁ ∧ R s₁ t₁)
    (h : Runs step n s es s₁) {t : τ} (hR : R s t) :
    ∃ m t₁, n ≤ m ∧ Runs step' m t (es.map f) t₁ ∧ R s₁ t₁ := by
  induction h generalizing t with
  | nil s => exact ⟨0, t, Nat.le_refl 0, nil t, hR⟩
  | cons hstep hrest ih =>
    obtain ⟨m₁, t₁, hm₁, hrun₁, hR₁⟩ := hsim hR hstep
    obtain ⟨m₂, t₂, hm₂, hrun₂, hR₂⟩ := ih hR₁
    rw [List.map_append]
    exact ⟨m₁ + m₂, t₂, by omega, hrun₁.trans hrun₂, hR₂⟩

end Runs

end Infra
