import Mathlib.Data.Set.Basic
import Mathlib.Data.List.Basic

/-!
# Editing single elements of a list

`Patched pos good sites l l'` says that `l'` is `l` but for the positions of `sites`, where it has
values that are `good`. The sites may belong together in any order, so they are a set.

* `editAll` — one edit at several positions
* `Patched.refl`, `Patched.set` — nothing, and one edit
* `Patched.trans` — edits of different positions one after the other
* `Patched.append` — the list may grow in between
-/

namespace Infra

/-- The element behind a prefix. -/
theorem modify_middle {α : Type} (a : α) (post : List α) (f : α → α) :
    ∀ pre : List α, (pre ++ a :: post).modify pre.length f = pre ++ f a :: post
  | [] => rfl
  | b :: pre => congrArg (b :: ·) (modify_middle a post f pre)

/-- An edit behind the first part of a list leaves that part alone. -/
theorem modify_append {α : Type} (l' : List α) (f : α → α) :
    ∀ (l : List α) {i : Nat}, l.length ≤ i →
      (l ++ l').modify i f = l ++ l'.modify (i - l.length) f
  | [], _, _ => rfl
  | a :: l, 0, h => absurd h (Nat.not_succ_le_zero _)
  | a :: l, i + 1, h => by
    rw [List.length_cons, Nat.add_sub_add_right]
    exact congrArg (a :: ·) (modify_append l' f l (Nat.le_of_succ_le_succ h))

/-- Edits the elements at some positions in the same way. -/
def editAll {α : Type} (f : α → α) (ps : List Nat) (l : List α) : List α :=
  ps.foldl (fun l p => l.modify p f) l

theorem editAll_append {α : Type} (f : α → α) (ps qs : List Nat) (l : List α) :
    editAll f (ps ++ qs) l = editAll f qs (editAll f ps l) :=
  List.foldl_append

theorem editAll_cons {α : Type} (f : α → α) (p : Nat) (ps : List Nat) (l : List α) :
    editAll f (p :: ps) l = editAll f ps (l.modify p f) := rfl

/-- `l'` is `l` with a good value at the position of every site. -/
structure Patched {ι α : Type} (pos : ι → Nat) (good : ι → α → Prop) (sites : Set ι)
    (l l' : List α) : Prop where
  length_eq : l'.length = l.length
  hit : ∀ s ∈ sites, ∃ a, l'[pos s]? = some a ∧ good s a
  frame : ∀ i, (∀ s ∈ sites, pos s ≠ i) → l'[i]? = l[i]?

namespace Patched

variable {ι α : Type} {pos : ι → Nat} {good good' : ι → α → Prop} {sites sites' : Set ι}
  {l l' m : List α}

theorem refl : Patched pos good ∅ l l :=
  ⟨rfl, fun _ h => h.elim, fun _ _ => rfl⟩

/-- A single edit. -/
theorem set {s : ι} {a : α} (h : pos s < l.length) (ha : good s a) :
    Patched pos good {s} l (l.set (pos s) a) := by
  refine ⟨List.length_set, ?_, ?_⟩
  · rintro s' rfl
    exact ⟨a, List.getElem?_set_self h, ha⟩
  · intro i hi
    exact List.getElem?_set_ne (hi s rfl)

theorem mono (h : Patched pos good sites l l') (hg : ∀ s ∈ sites, ∀ a, good s a → good' s a) :
    Patched pos good' sites l l' := by
  refine ⟨h.length_eq, ?_, h.frame⟩
  intro s hs
  obtain ⟨a, ha, hgood⟩ := h.hit s hs
  exact ⟨a, ha, hg s hs a hgood⟩

/-- Later edits leave the earlier ones alone when they are elsewhere. -/
theorem trans (h : Patched pos good sites l l') (h' : Patched pos good sites' l' m)
    (hne : ∀ s ∈ sites, ∀ s' ∈ sites', pos s' ≠ pos s) :
    Patched pos good (sites ∪ sites') l m := by
  refine ⟨h'.length_eq.trans h.length_eq, ?_, ?_⟩
  · rintro s (hs | hs)
    · obtain ⟨a, ha, hgood⟩ := h.hit s hs
      exact ⟨a, by rw [h'.frame _ (hne s hs), ha], hgood⟩
    · exact h'.hit s hs
  · intro i hi
    rw [h'.frame i fun s hs => hi s (Or.inr hs), h.frame i fun s hs => hi s (Or.inl hs)]

theorem pos_lt (h : Patched pos good sites l l') {s : ι} (hs : s ∈ sites) :
    pos s < l.length := by
  obtain ⟨a, ha, -⟩ := h.hit s hs
  have := (List.getElem?_eq_some_iff.mp ha).1
  rwa [h.length_eq] at this

/-- What is appended afterwards is not edited. -/
theorem append (h : Patched pos good sites l l') (ext : List α) :
    Patched pos good sites (l ++ ext) (l' ++ ext) := by
  refine ⟨by simp [h.length_eq], ?_, ?_⟩
  · intro s hs
    obtain ⟨a, ha, hgood⟩ := h.hit s hs
    exact ⟨a, by rw [List.getElem?_append_left (by rw [h.length_eq]; exact h.pos_lt hs), ha],
      hgood⟩
  · intro i hi
    by_cases hlt : i < l.length
    · rw [List.getElem?_append_left (by rw [h.length_eq]; exact hlt),
        List.getElem?_append_left hlt, h.frame i hi]
    · rw [List.getElem?_append_right (by rw [h.length_eq]; omega),
        List.getElem?_append_right (by omega), h.length_eq]

end Patched

end Infra
