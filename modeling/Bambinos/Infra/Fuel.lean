import Bambinos.Infra.Java

/-!
# Enough fuel

Fuel is not part of a method: with enough of it the method ends, and more of it changes nothing.
Both are shown at once, by a budget of the states that no step increases.

* `Budget` — what a state has left at most
* `Settles` — two methods do the same in a state, and come to an end
* `Settled` — they do so in every state with so much left
* the rules by which blocks are settled, and `Settles.whileLoop` for loops
* `Stops` — with enough fuel the method throws, and always the same
* `Diverges` — there is never enough
-/

namespace Infra

section Fuel

variable {σ α β : Type}

/-- What the states have left at most. -/
structure Budget (σ : Type) where
  Within : σ → Nat → Prop
  mono : ∀ {s n n'}, n ≤ n' → Within s n → Within s n'

variable (B : Budget σ)

/-- The exception is one that the sources catch. -/
def Throwable.Caught (x : Throwable) : Prop := ∃ message, x = .illegalToken message

/-- Two methods do the same in `s`. They come to an end, with at most `n` left where they return
and at most `e` left where they throw what is caught. -/
structure Settles (m m' : Method σ α) (s : σ) (n e : Nat) : Prop where
  same : m s = m' s
  returns : ∀ {a s'}, m s = .ok a s' → B.Within s' n
  throws : ∀ {x s'}, m s = .error x s' → x ≠ .timeout ∧ (x.Caught → B.Within s' e)

/-- In every state with at most `n` left they are settled, and no more is left afterwards. -/
def Settled (n : Nat) (m m' : Method σ α) : Prop := ∀ s, B.Within s n → Settles B m m' s n n

variable {B} {m m' : Method σ α} {f f' : α → Method σ β} {s s' : σ} {n n' e e' : Nat} {a : α}

namespace Settles

theorem ok (h : m s = .ok a s') (hn : B.Within s' n) : Settles B m m s n e where
  same := rfl
  returns h' := by
    rw [h] at h'
    injection h' with _ hs
    exact hs ▸ hn
  throws h' := by
    rw [h] at h'
    cases h'

theorem error {x : Throwable} (h : m s = .error x s') (hx : x ≠ .timeout)
    (he : x.Caught → B.Within s' e) : Settles B m m s n e where
  same := rfl
  returns h' := by
    rw [h] at h'
    cases h'
  throws h' := by
    rw [h] at h'
    injection h' with hx' hs
    subst hx' hs
    exact ⟨hx, he⟩

theorem mono (h : Settles B m m' s n e) (hn : n ≤ n') (he : e ≤ e') : Settles B m m' s n' e' where
  same := h.same
  returns hok := B.mono hn (h.returns hok)
  throws herror := ⟨(h.throws herror).1, fun hx => B.mono he ((h.throws herror).2 hx)⟩

theorem congr (hsame : m s = m' s) (h : Settles B m m s n e) : Settles B m m' s n e :=
  ⟨hsame, h.returns, h.throws⟩

/-- What is done next may depend on how the first method ended. -/
theorem bind_run (h : Settles B m m' s n e)
    (hf : ∀ a s', m s = .ok a s' → B.Within s' n → Settles B (f a) (f' a) s' n' e) :
    Settles B (m >>= f) (m' >>= f') s n' e := by
  have hsame := h.same
  cases hm : m s with
  | ok a s₁ =>
    have hrest := hf a s₁ hm (h.returns hm)
    have hrun : (m >>= f) s = f a s₁ := bind_ok hm
    refine ⟨?_, fun hok => hrest.returns (hrun ▸ hok), fun herror => hrest.throws (hrun ▸ herror)⟩
    rw [hrun, bind_ok (hsame ▸ hm), hrest.same]
  | error x s₁ =>
    have hrun : (m >>= f) s = .error x s₁ := bind_error hm
    refine ⟨by rw [hrun, bind_error (hsame ▸ hm)], fun hok => ?_, fun herror => ?_⟩
    · rw [hrun] at hok
      cases hok
    · rw [hrun] at herror
      injection herror with hx hs
      subst hx hs
      exact h.throws hm

theorem bind (h : Settles B m m' s n e)
    (hf : ∀ a s', B.Within s' n → Settles B (f a) (f' a) s' n' e) :
    Settles B (m >>= f) (m' >>= f') s n' e := h.bind_run fun a s' _ hs' => hf a s' hs'

/-- First steps that are known to succeed. -/
theorem steps (h : m s = .ok a s') (h' : m' s = .ok a s') (hf : Settles B (f a) (f' a) s' n e) :
    Settles B (m >>= f) (m' >>= f') s n e where
  same := by rw [bind_ok h, bind_ok h', hf.same]
  returns hok := by
    rw [bind_ok h] at hok
    exact hf.returns hok
  throws herror := by
    rw [bind_ok h] at herror
    exact hf.throws herror

theorem step (h : m s = .ok a s') (hf : Settles B (f a) (f' a) s' n e) :
    Settles B (m >>= f) (m >>= f') s n e := steps h h hf

/-- A first step that is known to throw. -/
theorem stop {x : Throwable} (h : m s = .error x s') (hx : x ≠ .timeout)
    (he : x.Caught → B.Within s' e) : Settles B (m >>= f) (m >>= f') s n e where
  same := by rw [bind_error h, bind_error h]
  returns hok := by
    rw [bind_error h] at hok
    cases hok
  throws herror := by
    rw [bind_error h] at herror
    injection herror with hx' hs
    subst hx' hs
    exact ⟨hx, he⟩

/--
A loop whose turns use up the budget, also where they throw. Its fuel only has to be more than what
is left at its start, and so has the fuel of the loop it is compared with.
-/
theorem whileLoop {cond : σ → Bool} {body body' : α → Method σ α}
    (hcond : ∀ s, cond s = true → ¬ B.Within s 0)
    (hbody : ∀ k a s, k < n → cond s = true → B.Within s (k + 1) →
      Settles B (body a) (body' a) s k k) :
    ∀ (k : Nat) {fuel fuel' : Nat} {a : α} {s : σ}, k ≤ n → k < fuel → k < fuel' → B.Within s k →
      Settles B (Infra.whileLoop cond body fuel a) (Infra.whileLoop cond body' fuel' a)
        s k (k - 1) := by
  intro k
  induction k with
  | zero =>
    intro fuel fuel' a s _ hfuel hfuel' hs
    obtain ⟨fuel, rfl⟩ : ∃ x, fuel = x + 1 := ⟨fuel - 1, by omega⟩
    obtain ⟨fuel', rfl⟩ : ∃ x, fuel' = x + 1 := ⟨fuel' - 1, by omega⟩
    have hexit : cond s = false := by
      cases h : cond s with
      | false => rfl
      | true => exact absurd hs (hcond s h)
    unfold Infra.whileLoop
    refine step get_run ?_
    rw [hexit, if_neg Bool.false_ne_true, if_neg Bool.false_ne_true]
    exact ok pure_run hs
  | succ k ih =>
    intro fuel fuel' a s hk hfuel hfuel' hs
    obtain ⟨fuel, rfl⟩ : ∃ x, fuel = x + 1 := ⟨fuel - 1, by omega⟩
    obtain ⟨fuel', rfl⟩ : ∃ x, fuel' = x + 1 := ⟨fuel' - 1, by omega⟩
    unfold Infra.whileLoop
    refine step get_run ?_
    cases h : cond s with
    | false =>
      rw [if_neg Bool.false_ne_true, if_neg Bool.false_ne_true]
      exact ok pure_run hs
    | true =>
      rw [if_pos rfl, if_pos rfl]
      refine bind (hbody k a s hk h hs) fun a' s' hs' => ?_
      exact (ih (by omega) (by omega) (by omega) hs').mono (Nat.le_succ k) (Nat.sub_le k 1)

end Settles

namespace Settled

theorem of_ok (h : ∀ s, B.Within s n → ∃ a s', m s = .ok a s' ∧ B.Within s' n) :
    Settled B n m m := by
  intro s hs
  obtain ⟨a, s', hrun, hs'⟩ := h s hs
  exact .ok hrun hs'

theorem pure (a : α) : Settled B n (Pure.pure a) (Pure.pure a) := fun _ hs => .ok rfl hs

theorem get : Settled B n (MonadState.get : Method σ σ) MonadState.get := fun _ hs => .ok rfl hs

theorem throw {x : Throwable} (hx : x ≠ .timeout) :
    Settled B n (MonadExcept.throw x : Method σ α) (MonadExcept.throw x) :=
  fun _ hs => .error rfl hx fun _ => hs

theorem modify {g : σ → σ} (h : ∀ s, B.Within s n → B.Within (g s) n) :
    Settled B n (modify g : Method σ PUnit) (modify g) := of_ok fun s hs => ⟨_, _, rfl, h s hs⟩

theorem bind (h : Settled B n m m') (hf : ∀ a, Settled B n (f a) (f' a)) :
    Settled B n (m >>= f) (m' >>= f') := fun s hs =>
  (h s hs).bind fun a s' hs' => hf a s' hs'

theorem ite {c : Prop} [Decidable c] {m₁ m₁' m₂ m₂' : Method σ α} (h₁ : Settled B n m₁ m₁')
    (h₂ : Settled B n m₂ m₂') : Settled B n (if c then m₁ else m₂) (if c then m₁' else m₂') := by
  by_cases hc : c
  · rw [if_pos hc, if_pos hc]
    exact h₁
  · rw [if_neg hc, if_neg hc]
    exact h₂

/-- A statement that is run under a condition, and what comes after it. -/
theorem optional {c : Prop} [Decidable c] {x x' : Method σ β} (hx : Settled B n x x')
    (hm : Settled B n m m') :
    Settled B n (if c then x >>= fun _ => m else m) (if c then x' >>= fun _ => m' else m') :=
  ite (bind hx fun _ => hm) hm

/-- A loop whose turns use up the budget. -/
theorem whileLoop {cond : σ → Bool} {body body' : α → Method σ α} {fuel fuel' : Nat} {a : α}
    (hcond : ∀ s, cond s = true → ¬ B.Within s 0)
    (hbody : ∀ k a s, k < n → cond s = true → B.Within s (k + 1) → Settles B (body a) (body' a) s k k)
    (hfuel : n < fuel) (hfuel' : n < fuel') :
    Settled B n (Infra.whileLoop cond body fuel a) (Infra.whileLoop cond body' fuel' a) :=
  fun _ hs => (Settles.whileLoop hcond hbody n (Nat.le_refl n) hfuel hfuel' hs).mono (Nat.le_refl n)
    (Nat.sub_le n 1)

theorem deref (x : Option α) : Settled B n (Infra.deref x) (Infra.deref x) := by
  cases x with
  | none => exact throw nofun
  | some a => exact pure a

theorem elementAt (l : List α) (i : Int) :
    Settled B n (Infra.elementAt l i) (Infra.elementAt l i) := by
  unfold Infra.elementAt
  cases i with
  | negSucc i => exact throw nofun
  | ofNat i =>
    dsimp only
    cases l[i]? with
    | none => exact throw nofun
    | some a => exact pure a

end Settled

/-! ## methods that throw, whatever the fuel is -/

/-- With enough fuel it throws `x`. -/
def Stops (x : Throwable) (m : Nat → Method σ α) (s : σ) : Prop :=
  ∃ enough, ∀ fuel, enough ≤ fuel → ∃ s', m fuel s = .error x s'

/-- However much fuel there is, it is used up. -/
abbrev Diverges (m : Nat → Method σ α) (s : σ) : Prop := Stops .timeout m s

namespace Stops

variable {x : Throwable} {m : Nat → Method σ α} {f : Nat → α → Method σ β} {k : Nat}

theorem bind (h : Stops x m s) : Stops x (fun fuel => m fuel >>= f fuel) s := by
  obtain ⟨enough, h⟩ := h
  refine ⟨enough, fun fuel hfuel => ?_⟩
  obtain ⟨s', hrun⟩ := h fuel hfuel
  exact ⟨s', bind_error hrun⟩

/-- What is run first ends in the same way whatever the fuel is. -/
theorem after (hm : ∀ fuel, k ≤ fuel → m fuel s = .ok a s')
    (h : Stops x (fun fuel => f fuel a) s') : Stops x (fun fuel => m fuel >>= f fuel) s := by
  obtain ⟨enough, h⟩ := h
  refine ⟨max k enough, fun fuel hfuel => ?_⟩
  obtain ⟨s₁, hrun⟩ := h fuel (le_of_max_le_right hfuel)
  exact ⟨s₁, (bind_ok (hm fuel (le_of_max_le_left hfuel))).trans hrun⟩

theorem succ (h : Stops x (fun fuel => m (fuel + 1)) s) : Stops x m s := by
  obtain ⟨enough, h⟩ := h
  refine ⟨enough + 1, fun fuel hfuel => ?_⟩
  obtain ⟨fuel, rfl⟩ : ∃ x, fuel = x + 1 := ⟨fuel - 1, by omega⟩
  exact h fuel (Nat.le_of_succ_le_succ hfuel)

end Stops

end Fuel

end Infra
