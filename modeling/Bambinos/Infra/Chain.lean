import Mathlib.Data.Fintype.Card
import Mathlib.Data.List.Nodup
import Mathlib.Logic.Function.Basic

/-!
# Linked lists in place

The nodes carry the pointer to the next node. A list is known by the pointer to its first node; the
place of a pointer is `none` when it is that one and `some b` when it is the one in node `b`.

* `Chain` — the nodes that a pointer leads to
* `seek` — the search with a pointer to a pointer
* `relink`, `rehead` — what storing to a place changes
* `Chain.unlink`, `Chain.push`, `Chain.concat` — a node is removed or added
-/

namespace Infra

variable {α : Type} {next next' : α → Option α} {x : Option α} {a b : α} {l l' l₁ l₂ : List α}

/-- The nodes from `x` on, up to the null pointer. -/
inductive Chain (next : α → Option α) : Option α → List α → Prop
  | nil : Chain next none []
  | cons {a : α} {l : List α} (h : Chain next (next a) l) : Chain next (some a) (a :: l)

namespace Chain

theorem head (h : Chain next x l) : x = l.head? := by
  cases h <;> rfl

theorem tail (h : Chain next x (a :: l)) : Chain next (next a) l := by
  cases h with
  | cons h => exact h

theorem unique (h : Chain next x l) : ∀ {l' : List α}, Chain next x l' → l = l' := by
  induction h with
  | nil =>
    intro l' h'
    cases h'
    rfl
  | cons _ ih =>
    intro l' h'
    cases h' with
    | cons h' => rw [ih h']

theorem split (h : Chain next x (l₁ ++ a :: l₂)) : Chain next (some a) (a :: l₂) := by
  induction l₁ generalizing x with
  | nil =>
    have hx := h.head
    rw [List.nil_append, List.head?_cons] at hx
    rwa [hx] at h
  | cons b l₁ ih => exact ih h.tail

/-- No node is met twice: what follows it would follow itself. -/
theorem nodup (h : Chain next x l) : l.Nodup := by
  induction h with
  | nil => exact List.nodup_nil
  | @cons a l h ih =>
    refine List.nodup_cons.mpr ⟨fun hmem => ?_, ih⟩
    obtain ⟨l₁, l₂, rfl⟩ := List.append_of_mem hmem
    have heq : l₁ ++ a :: l₂ = l₂ := h.unique h.split.tail
    have hlength := congrArg List.length heq
    rw [List.length_append, List.length_cons] at hlength
    omega

/-- Pointers in other nodes do not matter. -/
theorem congr (h : Chain next x l) (hnext : ∀ a ∈ l, next' a = next a) : Chain next' x l := by
  induction h with
  | nil => exact .nil
  | @cons a l _ ih =>
    have hl := ih fun b hb => hnext b (List.mem_cons_of_mem _ hb)
    rw [← hnext a List.mem_cons_self] at hl
    exact .cons hl

theorem length_le [Fintype α] (h : Chain next x l) : l.length ≤ Fintype.card α :=
  h.nodup.length_le_card

end Chain

/-- The nodes from `x` on, if there are at most `n`. -/
def walk (next : α → Option α) : Nat → Option α → Option (List α)
  | _, none => some []
  | 0, some _ => none
  | n + 1, some a => (walk next n (next a)).map (a :: ·)

theorem chain_of_walk : ∀ {n : Nat} {x : Option α} {l : List α}, walk next n x = some l →
    Chain next x l
  | _, none, l, h => by
    unfold walk at h
    cases h
    exact .nil
  | 0, some a, l, h => by cases h
  | n + 1, some a, l, h => by
    unfold walk at h
    obtain ⟨l, hl, rfl⟩ := Option.map_eq_some_iff.mp h
    exact .cons (chain_of_walk hl)

/-! ## the search -/

/--
`for (xpp = &x; *xpp != NULL; xpp = &(*xpp)->next) if (p(*xpp)) break;` with the place of `xpp` and
what it points to. There is no result when it goes round in circles.
-/
def seek (next : α → Option α) (p : α → Bool) :
    Nat → Option α → Option α → Option (Option α × Option α)
  | 0, _, _ => none
  | _ + 1, place, none => some (place, none)
  | n + 1, place, some a => if p a then some (place, some a) else seek next p n (some a) (next a)

theorem seek_eq {p : α → Bool} (h : Chain next x l) : ∀ {n : Nat} (place : Option α),
    l.length < n →
      seek next p n place x =
        some ((l.takeWhile fun a => !p a).getLast?.or place, l.find? p) := by
  induction h with
  | nil =>
    intro n place hn
    cases n with
    | zero => exact absurd hn (Nat.not_lt_zero _)
    | succ n => rfl
  | @cons a l _ ih =>
    intro n place hn
    cases n with
    | zero => exact absurd hn (Nat.not_lt_zero _)
    | succ n =>
      unfold seek
      by_cases hp : p a
      · simp [hp]
      · rw [if_neg hp, ih (some a) (Nat.lt_of_succ_lt_succ hn)]
        simp [hp, List.getLast?_cons]

/-- The search ends at the first place only with the pointer that is there. -/
theorem seek_start {p : α → Bool} {n : Nat} {c : Option α}
    (h : seek next p n none x = some (none, c)) : c = x := by
  have hplace : ∀ {n : Nat} {a : α} {x : Option α}, seek next p n (some a) x ≠ some (none, c) := by
    intro n
    induction n with
    | zero => exact nofun
    | succ n ih =>
      intro a x hx
      cases x with
      | none => cases hx
      | some b =>
        unfold seek at hx
        split at hx
        · cases hx
        · exact ih hx
  cases n with
  | zero => cases h
  | succ n =>
    cases x with
    | none =>
      cases h
      rfl
    | some a =>
      unfold seek at h
      split at h
      · cases h
        rfl
      · exact absurd h hplace

theorem seek_found {p : α → Bool} {place : Option α} {c : α} : ∀ {n : Nat} {pl x : Option α},
    seek next p n pl x = some (place, some c) → p c = true
  | 0, _, _, h => by cases h
  | n + 1, pl, none, h => by cases h
  | n + 1, pl, some a, h => by
    unfold seek at h
    split at h
    · next hp =>
      cases h
      exact hp
    · exact seek_found h

/-- A list around the element that a search finds. -/
theorem find?_split {p : α → Bool} (h : l.find? p = some a) :
    ∃ l₁ l₂, l = l₁ ++ a :: l₂ ∧ (l.takeWhile fun b => !p b) = l₁ := by
  obtain ⟨hp, l₁, l₂, hl, hnot⟩ := List.find?_eq_some_iff_append.mp h
  refine ⟨l₁, l₂, hl, ?_⟩
  rw [hl, List.takeWhile_append_of_pos hnot, List.takeWhile_cons, hp]
  simp

/-! ## storing -/

section Store

variable [DecidableEq α]

/-- The pointers of the nodes behind `*xpp = v`. -/
def relink (next : α → Option α) (place v : Option α) : α → Option α :=
  match place with
  | none => next
  | some b => Function.update next b v

/-- The first pointer behind `*xpp = v`. -/
def rehead (x place v : Option α) : Option α :=
  match place with
  | none => v
  | some _ => x

theorem relink_of_ne {place v : Option α} (h : place ≠ some a) : relink next place v a = next a := by
  cases place with
  | none => rfl
  | some b => exact Function.update_of_ne (fun he => h (congrArg some he.symm)) _ _

namespace Chain

/-- A node is removed. -/
theorem unlink (h : Chain next x (l₁ ++ a :: l₂)) :
    Chain (relink next l₁.getLast? (next a)) (rehead x l₁.getLast? (next a)) (l₁ ++ l₂) := by
  induction l₁ generalizing x with
  | nil => exact h.tail
  | cons b l₁ ih =>
    have hnodup := h.nodup
    rw [List.cons_append, List.nodup_cons] at hnodup
    have hx := h.head
    rw [List.cons_append, List.head?_cons] at hx
    subst hx
    cases l₁ with
    | nil =>
      have hl₂ : Chain (Function.update next b (next a)) (next a) l₂ :=
        h.tail.tail.congr fun c hc => Function.update_of_ne
          (ne_of_mem_of_not_mem (List.mem_cons_of_mem _ hc) hnodup.1) _ _
      refine .cons ?_
      show Chain (Function.update next b (next a)) (Function.update next b (next a) b) l₂
      rwa [Function.update_self]
    | cons c l₁ =>
      have htail := ih h.tail
      rw [List.getLast?_cons_cons]
      refine .cons ?_
      obtain ⟨d, hd⟩ : ∃ d, (c :: l₁).getLast? = some d :=
        ⟨_, List.getLast?_eq_some_getLast (List.cons_ne_nil _ _)⟩
      rw [hd] at htail ⊢
      have hbd : b ≠ d := fun he => hnodup.1
        (List.mem_append_left _ (he ▸ List.mem_of_getLast? hd))
      show Chain (Function.update next d (next a)) (Function.update next d (next a) b) _
      rw [Function.update_of_ne hbd]
      exact htail

/-- A node is added in front. -/
theorem push (h : Chain next x l) (ha : a ∉ l) :
    Chain (Function.update next a x) (some a) (a :: l) := by
  refine .cons ?_
  rw [Function.update_self]
  exact h.congr fun b hb => Function.update_of_ne (ne_of_mem_of_not_mem hb ha) _ _

/-- A node is added at the end. -/
theorem concat (h : Chain next x l) (ha : a ∉ l) :
    Chain (Function.update (relink next l.getLast? (some a)) a none)
      (rehead x l.getLast? (some a)) (l ++ [a]) := by
  induction l generalizing x with
  | nil =>
    refine .cons ?_
    show Chain _ (Function.update next a none a) []
    rw [Function.update_self]
    exact .nil
  | cons b l ih =>
    have hab : a ≠ b := List.ne_of_not_mem_cons ha
    have hal : a ∉ l := List.not_mem_of_not_mem_cons ha
    have hx := h.head
    rw [List.head?_cons] at hx
    subst hx
    have hnodup := h.nodup
    have htail := ih h.tail hal
    cases l with
    | nil =>
      refine .cons ?_
      show Chain (Function.update (Function.update next b (some a)) a none)
        (Function.update (Function.update next b (some a)) a none b) [a]
      rw [Function.update_of_ne (Ne.symm hab), Function.update_self]
      refine .cons ?_
      rw [Function.update_self]
      exact .nil
    | cons c l =>
      rw [List.getLast?_cons_cons]
      refine .cons ?_
      obtain ⟨d, hd⟩ : ∃ d, (c :: l).getLast? = some d :=
        ⟨_, List.getLast?_eq_some_getLast (List.cons_ne_nil _ _)⟩
      rw [hd] at htail ⊢
      have hbd : b ≠ d := fun he => (List.nodup_cons.mp hnodup).1 (he ▸ List.mem_of_getLast? hd)
      show Chain (Function.update (Function.update next d (some a)) a none)
        (Function.update (Function.update next d (some a)) a none b) _
      rw [Function.update_of_ne (Ne.symm hab), Function.update_of_ne hbd]
      exact htail

end Chain

end Store

end Infra
