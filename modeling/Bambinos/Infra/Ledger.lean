import Mathlib.Data.List.Basic
import Mathlib.Logic.Function.Basic

/-!
# Objects that are allocated and freed

* `Ledger` — what has become of each object, and the wrong accesses so far
* `Ledger.use`, `Ledger.free` — an object is read or written, or freed
* `use_live`, `free_live` — nothing is wrong with that as long as the object is live
-/

namespace Infra

inductive Status where
  | unallocated
  | live
  | freed
deriving DecidableEq, Repr

/-- An access to an object that is not live. -/
inductive Fault (κ : Type*) where
  | use (o : κ)
  | free (o : κ)
deriving DecidableEq, Repr

structure Ledger (κ : Type*) where
  status : κ → Status
  faults : List (Fault κ)

namespace Ledger

variable {κ : Type*} {m : Ledger κ} {o o' : κ} {os : List κ}

def empty : Ledger κ := ⟨fun _ => .unallocated, []⟩

/-- The object is read or written. -/
def use (m : Ledger κ) (o : κ) : Ledger κ :=
  if m.status o = .live then m else { m with faults := m.faults ++ [.use o] }

def uses (os : List κ) (m : Ledger κ) : Ledger κ := os.foldl use m

theorem use_live (h : m.status o = .live) : m.use o = m := if_pos h

theorem uses_live : ∀ {os : List κ}, (∀ o ∈ os, m.status o = .live) → m.uses os = m
  | [], _ => rfl
  | o :: os, h => by
    rw [uses, List.foldl_cons, use_live (h o (List.mem_cons_self ..))]
    exact uses_live fun o' ho' => h o' (List.mem_cons_of_mem _ ho')

@[simp] theorem use_status : (m.use o).status = m.status := by
  unfold use
  split <;> rfl

@[simp] theorem uses_status : ∀ {os : List κ} {m : Ledger κ}, (m.uses os).status = m.status
  | [], _ => rfl
  | o :: os, m => by
    have hrest : ((m.use o).uses os).status = (m.use o).status := uses_status
    rw [uses, List.foldl_cons]
    exact hrest.trans use_status

/-- What is wrong stays on record. -/
theorem faults_use (h : m.status o ≠ .live) : (m.use o).faults ≠ [] := by
  rw [use, if_neg h]
  exact List.append_ne_nil_of_right_ne_nil _ (List.cons_ne_nil _ _)

theorem faults_use_of_faults (h : m.faults ≠ []) : (m.use o).faults ≠ [] := by
  unfold use
  split
  · exact h
  · exact List.append_ne_nil_of_left_ne_nil h _

theorem faults_uses_of_faults : ∀ {os : List κ} {m : Ledger κ}, m.faults ≠ [] →
    (m.uses os).faults ≠ []
  | [], _, h => h
  | _ :: os, _, h => by
    rw [uses, List.foldl_cons]
    exact faults_uses_of_faults (faults_use_of_faults h)

variable [DecidableEq κ]

def alloc (o : κ) (m : Ledger κ) : Ledger κ :=
  { m with status := Function.update m.status o .live }

def free (o : κ) (m : Ledger κ) : Ledger κ :=
  if m.status o = .live then { m with status := Function.update m.status o .freed }
  else { m with faults := m.faults ++ [.free o] }

@[simp] theorem alloc_faults : (m.alloc o).faults = m.faults := rfl

theorem alloc_self : (m.alloc o).status o = .live := Function.update_self ..

theorem alloc_of_ne (h : o' ≠ o) : (m.alloc o).status o' = m.status o' := Function.update_of_ne h ..

theorem alloc_live (h : m.status o' = .live) : (m.alloc o).status o' = .live := by
  by_cases ho : o' = o
  · rw [ho, alloc_self]
  · rw [alloc_of_ne ho, h]

theorem free_faults (h : m.status o = .live) : (m.free o).faults = m.faults := by
  rw [free, if_pos h]

theorem free_self (h : m.status o = .live) : (m.free o).status o = .freed := by
  rw [free, if_pos h]
  exact Function.update_self ..

/-- What is live behind `free` is not what was freed. -/
theorem free_live : (m.free o).status o' = .live ↔ m.status o' = .live ∧ o' ≠ o := by
  unfold free
  by_cases h : m.status o = .live
  · rw [if_pos h]
    by_cases ho : o' = o
    · simp [ho, Function.update_self]
    · simp [ho, Function.update_of_ne]
  · rw [if_neg h]
    refine ⟨fun hl => ⟨hl, ?_⟩, And.left⟩
    rintro rfl
    exact h hl

theorem free_of_ne (h : o' ≠ o) : (m.free o).status o' = m.status o' := by
  unfold free
  split
  · exact Function.update_of_ne h ..
  · rfl

end Ledger

end Infra
