import Bambinos.Infra.Java

/-!
# What a block leaves alone

`Commutes u m` says that `m` neither reads nor writes what the update `u` changes: run on the
updated state it does the same, and the update is still there afterwards. The instances follow the
structure of a block, so that a block built from blocks that commute is found to commute.
-/

namespace Infra

section Commutes

variable {σ α β : Type}

/-- An update of the final state of a run. -/
def mapState (u : σ → σ) : EStateM.Result Throwable σ α → EStateM.Result Throwable σ α
  | .ok a s => .ok a (u s)
  | .error e s => .error e (u s)

/-- The block does not depend on what `u` updates. -/
class Commutes (u : σ → σ) (m : Method σ α) : Prop where
  run : ∀ s, m (u s) = mapState u (m s)

variable {u : σ → σ}

instance commutes_pure (a : α) : Commutes u (pure a : Method σ α) := ⟨fun _ => rfl⟩

instance commutes_throw (e : Throwable) : Commutes u (throw e : Method σ α) := ⟨fun _ => rfl⟩

instance commutes_bind (m : Method σ α) (f : α → Method σ β) [hm : Commutes u m]
    [hf : ∀ a, Commutes u (f a)] : Commutes u (m >>= f) where
  run s := by
    rw [bind_run, bind_run, hm.run]
    cases m s with
    | ok a s₁ => exact (hf a).run s₁
    | error e s₁ => rfl

instance commutes_ite (c : Prop) [Decidable c] (m n : Method σ α) [hm : Commutes u m]
    [hn : Commutes u n] : Commutes u (if c then m else n) := by
  split
  · exact hm
  · exact hn

instance commutes_deref (x : Option α) : Commutes u (deref x : Method σ α) := by
  cases x with
  | none => exact commutes_throw _
  | some a => exact commutes_pure a

/-- What was updated before a run that succeeds is found updated afterwards. -/
theorem Commutes.ok {m : Method σ α} [h : Commutes u m] {s s' : σ} {a : α}
    (hm : m s = .ok a s') : m (u s) = .ok a (u s') := by
  rw [h.run, hm]
  rfl

/-- What the update sets is kept. -/
theorem Commutes.fixed {m : Method σ α} [h : Commutes u m] {s s' : σ} {a : α}
    (hs : u s = s) (hm : m s = .ok a s') : u s' = s' := by
  have hrun := h.run s
  rw [hs, hm] at hrun
  injection hrun with _ hs'
  exact hs'.symm

end Commutes

end Infra
