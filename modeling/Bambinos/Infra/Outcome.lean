import Bambinos.Infra.Java

/-!
# Outcomes of a block

`Yields m s fail Q` says that `m` either ends in a state with `Q`, or throws and `fail` holds. With
`fail` false it is total correctness, with `fail` true partial correctness; in between `fail` names
the reason for which a block may throw.
-/

namespace Infra

variable {σ α β : Type}

/-- The block ends with `Q`, or it throws and `fail` holds. -/
inductive Yields (m : Method σ α) (s : σ) (fail : Prop) (Q : α → σ → Prop) : Prop
  | ok {a : α} {s' : σ} (h : m s = .ok a s') (hq : Q a s')
  | error {e : Throwable} {s' : σ} (h : m s = .error e s') (hfail : fail)

namespace Yields

variable {m : Method σ α} {f : α → Method σ β} {s s' : σ} {fail fail' : Prop}
  {Q Q' : α → σ → Prop} {R : β → σ → Prop} {a : α}

theorem pure (hq : Q a s) : Yields (Pure.pure a : Method σ α) s fail Q := ok rfl hq

theorem throw {e : Throwable} (h : fail) :
    Yields (MonadExcept.throw e : Method σ α) s fail Q := error rfl h

theorem bind (h : Yields m s fail Q) (hf : ∀ a s', Q a s' → Yields (f a) s' fail R) :
    Yields (m >>= f) s fail R := by
  cases h with
  | ok h hq =>
    cases hf _ _ hq with
    | ok h' hr => exact ok (by rw [bind_ok h, h']) hr
    | error h' hfail => exact error (by rw [bind_ok h, h']) hfail
  | error h hfail => exact error (bind_error h) hfail

/-- A first step that is known to succeed. -/
theorem step (h : m s = .ok a s') (hf : Yields (f a) s' fail R) : Yields (m >>= f) s fail R := by
  cases hf with
  | ok h' hr => exact ok (by rw [bind_ok h, h']) hr
  | error h' hfail => exact error (by rw [bind_ok h, h']) hfail

theorem mono (h : Yields m s fail Q) (hfail : fail → fail') (hq : ∀ a s', Q a s' → Q' a s') :
    Yields m s fail' Q' := by
  cases h with
  | ok h hq' => exact ok h (hq _ _ hq')
  | error h hf => exact error h (hfail hf)

/-- A block that cannot fail succeeds. -/
theorem exists_ok (h : Yields m s fail Q) (hfail : ¬ fail) :
    ∃ a s', m s = .ok a s' ∧ Q a s' := by
  cases h with
  | ok h hq => exact ⟨_, _, h, hq⟩
  | error _ hf => exact absurd hf hfail

/-- What holds after a block that succeeded. -/
theorem of_eq_ok (h : Yields m s fail Q) (hm : m s = .ok a s') : Q a s' := by
  cases h with
  | ok h hq =>
    rw [hm] at h
    injection h with ha hs
    rw [ha, hs]
    exact hq
  | error h _ =>
    rw [hm] at h
    cases h

end Yields

/-! ## what a block keeps -/

/--
When the block ends, its result has `Q` and the state it leaves is related by `r` to the one it
started in. For a preorder `r` this is kept by every way to put blocks together.
-/
def Keeps (r : σ → σ → Prop) (m : Method σ α) (Q : α → Prop) : Prop :=
  ∀ s, Yields m s True fun a s' => Q a ∧ r s s'

namespace Keeps

variable {r : σ → σ → Prop} {m m' : Method σ α} {f : α → Method σ β} {Q Q' : α → Prop}
  {R : β → Prop} {a : α}

theorem throw (e : Throwable) : Keeps r (MonadExcept.throw e : Method σ α) Q := fun _ =>
  Yields.throw trivial

theorem mono (h : Keeps r m Q) (hq : ∀ a, Q a → Q' a) : Keeps r m Q' := fun s =>
  (h s).mono id fun a _ ha => ⟨hq a ha.1, ha.2⟩

theorem ite {c : Prop} [Decidable c] (h : c → Keeps r m Q) (h' : ¬ c → Keeps r m' Q) :
    Keeps r (if c then m else m') Q := by
  by_cases hc : c
  · rw [if_pos hc]
    exact h hc
  · rw [if_neg hc]
    exact h' hc

theorem modify {g : σ → σ} (h : ∀ s, r s (g s)) :
    Keeps r (modify g : Method σ PUnit) fun _ => True := fun s => Yields.ok rfl ⟨trivial, h s⟩

theorem bind [IsTrans σ r] (hm : Keeps r m Q) (hf : ∀ a, Q a → Keeps r (f a) R) :
    Keeps r (m >>= f) R := by
  intro s
  refine Yields.bind (hm s) ?_
  rintro a s₁ ⟨ha, h₁⟩
  refine (hf a ha s₁).mono id ?_
  rintro b s₂ ⟨hb, h₂⟩
  exact ⟨hb, trans_of r h₁ h₂⟩

/-- A first step whose result does not matter. -/
theorem seq [IsTrans σ r] (hm : Keeps r m fun _ => True) (hf : ∀ a, Keeps r (f a) R) :
    Keeps r (m >>= f) R :=
  bind hm fun a _ => hf a

section Reflexive

variable [Std.Refl r]

theorem pure (hq : Q a) : Keeps r (Pure.pure a : Method σ α) Q := fun s =>
  Yields.pure ⟨hq, refl_of r s⟩

theorem get : Keeps r (MonadState.get : Method σ σ) fun _ => True := fun s =>
  Yields.ok rfl ⟨trivial, refl_of r s⟩

theorem deref (x : Option α) : Keeps r (Infra.deref x) fun a => x = some a := by
  cases x with
  | none => exact throw _
  | some a => exact pure rfl

theorem elementAt (l : List α) (i : Int) : Keeps r (Infra.elementAt l i) fun a => a ∈ l := by
  intro s
  cases h : Infra.elementAt l i s with
  | ok a s' =>
    obtain ⟨rfl, n, -, hn⟩ := elementAt_eq_ok h
    exact Yields.ok h ⟨List.mem_of_getElem? hn, refl_of r s'⟩
  | error e s' => exact Yields.error h trivial

end Reflexive

end Keeps

end Infra
