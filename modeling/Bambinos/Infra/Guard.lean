import Bambinos.Infra.Fuel

/-!
# What holds behind a block

Preconditions and postconditions for blocks that may throw. An exception that the sources catch has
a postcondition of its own, since the block goes on behind its handler; the others end the program.

* `Guards P m Q E` — from `P` the block `m` ends in `Q`, or throws what is caught in `E`
* `Maintains I E m q` — the block keeps the invariant `I`, and its result has `q`
* the rules for the statements of a block, and `Guards.whileLoop` for a loop
-/

namespace Infra

variable {σ α β : Type}

/-- From `P` the block ends in `Q`, or throws in `E` what is caught. -/
structure Guards (P : σ → Prop) (m : Method σ α) (Q : α → σ → Prop) (E : σ → Prop) : Prop where
  ok : ∀ {s a s'}, P s → m s = .ok a s' → Q a s'
  caught : ∀ {s x s'}, P s → m s = .error x s' → x.Caught → E s'

/-- The block keeps an invariant. -/
abbrev Maintains (I E : σ → Prop) (m : Method σ α) (q : α → Prop) : Prop :=
  Guards I m (fun a s => I s ∧ q a) E

namespace Guards

variable {P P' I E E' : σ → Prop} {m m' : Method σ α} {f : α → Method σ β} {Q Q' : α → σ → Prop}
  {R : β → σ → Prop} {q q' : α → Prop} {a : α}

/-- A block that throws nothing. -/
theorem of_ok (h : ∀ s, P s → ∃ a s', m s = .ok a s' ∧ Q a s') : Guards P m Q E where
  ok hP hm := by
    obtain ⟨a, s', hrun, hQ⟩ := h _ hP
    rw [hrun] at hm
    cases hm
    exact hQ
  caught hP hm _ := by
    obtain ⟨a, s', hrun, -⟩ := h _ hP
    rw [hrun] at hm
    cases hm

theorem pure (hQ : ∀ s, P s → Q a s) : Guards P (Pure.pure a : Method σ α) Q E :=
  of_ok fun s hP => ⟨a, s, rfl, hQ s hP⟩

theorem get : Maintains I E (MonadState.get : Method σ σ) I :=
  of_ok fun s hI => ⟨s, s, rfl, hI, hI⟩

theorem modify {g : σ → σ} {Q : PUnit → σ → Prop} (h : ∀ s, P s → Q ⟨⟩ (g s)) :
    Guards P (modify g : Method σ PUnit) Q E :=
  of_ok fun s hP => ⟨⟨⟩, g s, rfl, h s hP⟩

/-- An exception that nobody catches. -/
theorem throw {x : Throwable} (hx : ∀ message, x ≠ .illegalToken message) :
    Guards P (MonadExcept.throw x : Method σ α) Q E where
  ok _ h := by cases h
  caught _ h hcaught := by
    cases h
    obtain ⟨message, hmessage⟩ := hcaught
    exact absurd hmessage (hx message)

theorem weaken (h : Guards P m Q E) (hP : ∀ s, P' s → P s) (hQ : ∀ a s, Q a s → Q' a s)
    (hE : ∀ s, E s → E' s) : Guards P' m Q' E' where
  ok hP' hm := hQ _ _ (h.ok (hP _ hP') hm)
  caught hP' hm hx := hE _ (h.caught (hP _ hP') hm hx)

theorem post (h : Guards P m Q E) (hQ : ∀ a s, Q a s → Q' a s) : Guards P m Q' E :=
  h.weaken (fun _ => id) hQ fun _ => id

/-- Two things that hold behind one block. -/
theorem and (h : Guards P m Q E) (h' : Guards P' m Q' E') :
    Guards (fun s => P s ∧ P' s) m (fun a s => Q a s ∧ Q' a s) fun s => E s ∧ E' s where
  ok hP hm := ⟨h.ok hP.1 hm, h'.ok hP.2 hm⟩
  caught hP hm hx := ⟨h.caught hP.1 hm hx, h'.caught hP.2 hm hx⟩

theorem bind (hm : Guards P m Q E) (hf : ∀ a, Guards (Q a) (f a) R E) :
    Guards P (m >>= f) R E where
  ok {s b s'} hP hrun := by
    obtain ⟨a, s₁, hfirst, hrest⟩ := bind_eq_ok hrun
    exact (hf a).ok (hm.ok hP hfirst) hrest
  caught {s x s'} hP hrun hx := by
    cases hfirst : m s with
    | ok a s₁ =>
      rw [bind_ok hfirst] at hrun
      exact (hf a).caught (hm.ok hP hfirst) hrun hx
    | error x₁ s₁ =>
      rw [bind_error hfirst] at hrun
      cases hrun
      exact hm.caught hP hfirst hx

/-- What the precondition says of some value is said of that one. -/
theorem of_exists {ι : Type} {P : ι → σ → Prop} (h : ∀ i, Guards (P i) m Q E) :
    Guards (fun s => ∃ i, P i s) m Q E where
  ok := fun ⟨i, hP⟩ hm => (h i).ok hP hm
  caught := fun ⟨i, hP⟩ hm hx => (h i).caught hP hm hx

/-- A fact that does not depend on the state. -/
theorem of_and {p : Prop} (h : p → Guards P m Q E) : Guards (fun s => p ∧ P s) m Q E where
  ok := fun hP hm => (h hP.1).ok hP.2 hm
  caught := fun hP hm hx => (h hP.1).caught hP.2 hm hx

/-- A first step that keeps an invariant. -/
theorem step (hm : Maintains I E m q) (hf : ∀ a, q a → Guards I (f a) R E) :
    Guards I (m >>= f) R E :=
  hm.bind fun a =>
    ⟨fun hI hrun => (hf a hI.2).ok hI.1 hrun, fun hI hrun => (hf a hI.2).caught hI.1 hrun⟩

/-- A first step whose result does not matter. -/
theorem seq (hm : Maintains I E m q) (hf : ∀ a, Guards I (f a) R E) : Guards I (m >>= f) R E :=
  hm.step fun a _ => hf a

theorem ite {c : Prop} [Decidable c] (h : c → Guards P m Q E) (h' : ¬ c → Guards P m' Q E) :
    Guards P (if c then m else m') Q E := by
  by_cases hc : c
  · rw [if_pos hc]
    exact h hc
  · rw [if_neg hc]
    exact h' hc

/-- A statement that is run under a condition, and what comes after it. -/
theorem optional {c : Prop} [Decidable c] {x : Method σ α} (hx : Maintains I E x q) {m : Method σ β}
    (hm : Guards I m R E) : Guards I (if c then x >>= fun _ => m else m) R E :=
  ite (fun _ => hx.seq fun _ => hm) fun _ => hm

theorem keep (hq : q a) : Maintains I E (Pure.pure a : Method σ α) q := pure fun _ hI => ⟨hI, hq⟩

theorem mono (h : Maintains I E m q) (hq : ∀ a, q a → q' a) : Maintains I E m q' :=
  h.post fun a _ hQ => ⟨hQ.1, hq a hQ.2⟩

theorem deref (x : Option α) : Maintains I E (Infra.deref x) fun a => x = some a := by
  cases x with
  | none => exact throw fun _ h => by cases h
  | some a => exact keep rfl

theorem elementAt (l : List α) (i : Int) : Maintains I E (Infra.elementAt l i) fun a => a ∈ l where
  ok hI h := by
    obtain ⟨rfl, n, -, hn⟩ := elementAt_eq_ok h
    exact ⟨hI, List.mem_of_getElem? hn⟩
  caught _ h hx := by
    obtain ⟨message, rfl⟩ := hx
    cases i with
    | negSucc n => cases h
    | ofNat n =>
      unfold Infra.elementAt at h
      dsimp only at h
      cases hn : l[n]? with
      | none =>
        rw [hn] at h
        cases h
      | some a =>
        rw [hn] at h
        cases h

/-- The invariant of a loop, with a property of what is threaded through it. -/
theorem whileLoop {cond : σ → Bool} {body : α → Method σ α}
    (hbody : ∀ a, q a → Maintains I E (body a) q) :
    ∀ (fuel : Nat) {a : α}, q a → Maintains I E (Infra.whileLoop cond body fuel a) q
  | 0, a, _ => throw fun _ h => by cases h
  | fuel + 1, a, ha => by
    unfold Infra.whileLoop
    refine get.step fun s _ => ite (fun _ => ?_) fun _ => keep ha
    exact (hbody a ha).step fun a' ha' => whileLoop hbody fuel ha'

end Guards

end Infra
