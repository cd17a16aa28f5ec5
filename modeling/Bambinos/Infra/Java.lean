import Mathlib.Data.Int.Basic
import Mathlib.Data.BitVec

/-!
# The parts of Java the sources lean on

* `int32` — the wrap-around of an `int`
* `Word` — an `int` as the bits that are stored
* `Throwable` — what a method can throw
* `whileLoop` — a `while` statement; the fuel bounds its iterations
* the rules by which a `do` block is run step by step
-/

namespace Infra

/-! ## `int` -/

/-- The value an `int` takes when the exact result is `n`. -/
def int32 (n : Int) : Int := n.bmod (2 ^ 32)

theorem int32_eq {n : Int} (h1 : -2147483648 ≤ n) (h2 : n < 2147483648) : int32 n = n := by
  unfold int32
  exact Int.bmod_eq_of_le (by omega) (by omega)

theorem int32_range (n : Int) : -2147483648 ≤ int32 n ∧ int32 n < 2147483648 := by
  unfold int32
  have hlow := @Int.le_bmod n (2 ^ 32) (by decide)
  have hhigh := @Int.bmod_lt n (2 ^ 32) (by decide)
  omega

theorem int32_natCast (k : Nat) : int32 k = k ↔ k < 2 ^ 31 := by
  constructor
  · intro h
    unfold int32 at h
    have := @Int.bmod_lt k (2 ^ 32) (by decide)
    omega
  · intro h
    exact int32_eq (by omega) (by omega)

/-- An `int` in a register, in memory or in a file. -/
abbrev Word := BitVec 32

/-! ## exceptions -/

/--
What a method throws. Only `illegalToken` is ever caught by the sources; the others are
Java's unchecked exceptions. `timeout` is not Java's: it says that the fuel of a model ran out.
-/
inductive Throwable where
  | illegalToken (message : String)
  | nullPointer
  | indexOutOfBounds
  | noSuchElement
  | numberFormat
  | arithmetic
  | timeout
deriving DecidableEq, Repr

/-- A method that changes the static fields `σ`. What it changed before throwing stays changed. -/
abbrev Method (σ : Type) := EStateM Throwable σ

/-- `null` dereferenced throws. -/
def deref {σ α : Type} (x : Option α) : Method σ α :=
  match x with
  | some a => pure a
  | none => throw .nullPointer

/-- An element of a `Vector` or `ArrayList`. -/
def elementAt {σ α : Type} (l : List α) (i : Int) : Method σ α :=
  match i with
  | .ofNat i =>
    match l[i]? with
    | some a => pure a
    | none => throw .indexOutOfBounds
  | .negSucc _ => throw .indexOutOfBounds

/-- `while (cond) body`, threading the local variables `a`. -/
def whileLoop {σ α : Type} (cond : σ → Bool) (body : α → Method σ α) : Nat → α → Method σ α
  | 0, _ => throw .timeout
  | fuel + 1, a => do
    if cond (← get) then
      whileLoop cond body fuel (← body a)
    else
      return a

/-! ## running a block -/

section Run

variable {σ α β : Type} {x : Method σ α} {f : α → Method σ β} {s s' : σ} {a : α} {b : β}

theorem bind_ok (h : x s = .ok a s') : (x >>= f) s = f a s' := by
  simp [bind, EStateM.bind, h]

theorem bind_error {e : Throwable} (h : x s = .error e s') : (x >>= f) s = .error e s' := by
  simp [bind, EStateM.bind, h]

theorem bind_run : (x >>= f) s =
    match x s with
    | .ok a s₁ => f a s₁
    | .error e s₁ => .error e s₁ := by
  cases h : x s with
  | ok a s₁ => rw [bind_ok h]
  | error e s₁ => rw [bind_error h]

/-- What a block that succeeded did first. -/
theorem bind_eq_ok (h : (x >>= f) s = .ok b s') :
    ∃ a s₁, x s = .ok a s₁ ∧ f a s₁ = .ok b s' := by
  cases hx : x s with
  | ok a s₁ => exact ⟨a, s₁, rfl, by rwa [bind_ok hx] at h⟩
  | error e s₁ => rw [bind_error hx] at h; cases h

@[simp] theorem pure_run : (pure a : Method σ α) s = .ok a s := rfl

@[simp] theorem get_run : (get : Method σ σ) s = .ok s s := rfl

@[simp] theorem set_run : (set s' : Method σ PUnit) s = .ok ⟨⟩ s' := rfl

@[simp] theorem modify_run (g : σ → σ) : (modify g : Method σ PUnit) s = .ok ⟨⟩ (g s) := rfl

@[simp] theorem throw_run (e : Throwable) : (throw e : Method σ α) s = .error e s := rfl

@[simp] theorem deref_some : (deref (some a) : Method σ α) = pure a := rfl

@[simp] theorem deref_none : (deref none : Method σ α) = throw .nullPointer := rfl

theorem elementAt_run {l : List α} {i : Nat} (h : l[i]? = some a) :
    (elementAt l (i : Int) : Method σ α) s = .ok a s := by
  simp [elementAt, h]

theorem elementAt_eq_ok {l : List α} {i : Int} (h : (elementAt l i : Method σ α) s = .ok a s') :
    s' = s ∧ ∃ n : Nat, i = n ∧ l[n]? = some a := by
  cases i with
  | negSucc n => cases h
  | ofNat n =>
    cases hn : l[n]? with
    | none =>
      simp only [elementAt, hn] at h
      cases h
    | some a' =>
      simp only [elementAt, hn, pure_run] at h
      injection h with ha hs
      exact ⟨hs.symm, n, rfl, by rw [← ha]; exact hn⟩

end Run

end Infra
