import Mathlib.Data.Fintype.Pigeonhole
import Mathlib.Logic.Relation

/-!
# Processes that wait for one another

Every process waits for at most one other. A chain of processes that wait is followed from one to the
next, and goes round in a circle at worst.

* `Reaches` — the chain from one process leads to another
* `OnlySelfWaits` — there is no circle but of processes that wait for themselves
* `OnlySelfWaits.add` — a process may start to wait if the chain from the other does not lead to it
* `OnlySelfWaits.copy` — a process nobody waits for may wait like another
* `pursue`, `OnlySelfWaits.pursue_endless_iff` — the search along the chain has no end if it meets one
  that waits for itself
* `pursue_card` — otherwise it ends within as many steps as there are processes
-/

namespace Infra

open Relation

variable {P : Type} {waits waits' : P → Option P} {p q c d : P}

/-- The chain of those who wait leads from one process to another. -/
def Reaches (waits : P → Option P) : P → P → Prop := ReflTransGen fun p q => waits p = some q

/-- Whoever is on a circle waits for itself. -/
def OnlySelfWaits (waits : P → Option P) : Prop :=
  ∀ p q, waits p = some q → Reaches waits q p → waits p = some p

namespace Reaches

theorem refl (p : P) : Reaches waits p p := ReflTransGen.refl

theorem trans {r : P} (h : Reaches waits p q) (h' : Reaches waits q r) : Reaches waits p r :=
  ReflTransGen.trans h h'

theorem head {r : P} (h : waits p = some q) (h' : Reaches waits q r) : Reaches waits p r :=
  ReflTransGen.head h h'

/-- The chain goes on, or it is at its end. -/
theorem cases_start (h : Reaches waits p q) : p = q ∨ ∃ r, waits p = some r ∧ Reaches waits r q :=
  ReflTransGen.cases_head h

/-- A process that waits for nobody is the end of its chain. -/
theorem eq_of_none (h : Reaches waits p q) (hp : waits p = none) : q = p := by
  rcases h.cases_start with rfl | ⟨r, hr, -⟩
  · rfl
  · rw [hp] at hr
    cases hr

/-- Of two processes the chain leads to, one is behind the other. -/
theorem total {r : P} (h : Reaches waits p q) (h' : Reaches waits p r) :
    Reaches waits q r ∨ Reaches waits r q :=
  ReflTransGen.total_of_right_unique (fun _ _ _ hb hc => Option.some.inj (hb.symm.trans hc)) h h'

/-- The chain stays at a process that waits for itself. -/
theorem stuck (h : Reaches waits p q) (hp : waits p = some p) : q = p := by
  induction h with
  | refl => rfl
  | tail _ hlink ih =>
    rw [ih, hp] at hlink
    exact (Option.some.inj hlink).symm

theorem mono (hsub : ∀ p q, waits' p = some q → waits p = some q) (h : Reaches waits' p q) :
    Reaches waits p q := ReflTransGen.mono hsub p q h

/-- A chain that uses a new link leads to the one who starts to wait, and on from the other. -/
theorem add (hadd : ∀ p q, waits' p = some q → waits p = some q ∨ p = c ∧ q = d)
    (h : Reaches waits' p q) :
    Reaches waits p q ∨ Reaches waits p c ∧ Reaches waits d q := by
  induction h with
  | refl => exact Or.inl (refl p)
  | @tail q r _ hlink ih =>
    rcases hadd q r hlink with hold | ⟨rfl, rfl⟩
    · rcases ih with hpq | ⟨hpc, hdq⟩
      · exact Or.inl (ReflTransGen.tail hpq hold)
      · exact Or.inr ⟨hpc, ReflTransGen.tail hdq hold⟩
    · rcases ih with hpq | ⟨hpc, -⟩
      · exact Or.inr ⟨hpq, refl r⟩
      · exact Or.inr ⟨hpc, refl r⟩

end Reaches

namespace OnlySelfWaits

/-- Some processes stop to wait. -/
theorem mono (h : OnlySelfWaits waits) (hsub : ∀ p q, waits' p = some q → waits p = some q) :
    OnlySelfWaits waits' := by
  intro p q hpq hqp
  have hself := h p q (hsub p q hpq) (hqp.mono hsub)
  have heq : q = p := Option.some.inj ((hsub p q hpq).symm.trans hself)
  rwa [heq] at hpq

/-- A process starts to wait for another, from which the chain does not lead to it. -/
theorem add (h : OnlySelfWaits waits) (hsafe : c = d ∨ ¬ Reaches waits d c)
    (hadd : ∀ p q, waits' p = some q → waits p = some q ∨ p = c ∧ q = d) : OnlySelfWaits waits' := by
  intro p q hpq hqp
  rcases hadd p q hpq with hold | ⟨rfl, rfl⟩
  · -- the first link is an old one, so that `p` waits for itself if the others are
    have hself : Reaches waits q p := by
      rcases hqp.add hadd with hqp | ⟨hqc, hdp⟩
      · exact hqp
      · rcases hsafe with rfl | hsafe
        · exact hqc.trans hdp
        · exact absurd (hdp.trans (Reaches.head hold hqc)) hsafe
    have heq : q = p := Option.some.inj (hold.symm.trans (h p q hold hself))
    rwa [heq] at hpq
  · rcases hsafe with rfl | hsafe
    · exact hpq
    · rcases hqp.add hadd with hqp | ⟨hqp, -⟩
      · exact absurd hqp hsafe
      · exact absurd hqp hsafe

/-- A process nobody waits for may wait like any other. -/
theorem copy (h : OnlySelfWaits waits) (hc : ∀ p, waits' p ≠ some c)
    (hsame : ∀ p, p ≠ c → waits' p = waits p) : OnlySelfWaits waits' := by
  intro p q hpq hqp
  have hreach : Reaches waits' q p → Reaches waits q p := by
    intro hchain
    have hq : q ≠ c := by
      rintro rfl
      exact hc p hpq
    clear hpq hqp
    induction hchain using ReflTransGen.head_induction_on with
    | refl => exact Reaches.refl p
    | @head q r hlink _ ih =>
      have hr : r ≠ c := by
        rintro rfl
        exact hc q hlink
      rw [hsame q hq] at hlink
      exact Reaches.head hlink (ih hr)
  have hp : p ≠ c := by
    rintro rfl
    rcases ReflTransGen.cases_tail hqp with rfl | ⟨r, -, hr⟩
    · exact hc _ hpq
    · exact hc r hr
  rw [hsame p hp] at hpq ⊢
  exact h p q hpq (hreach hqp)

end OnlySelfWaits

/-! ## chains without an end -/

/-- The process that is met after so many steps; the last one is kept. -/
def along (waits : P → Option P) (p : P) : Nat → P
  | 0 => p
  | n + 1 => (waits (along waits p n)).getD (along waits p n)

theorem reaches_along (hwait : ∀ q, Reaches waits p q → waits q ≠ none) (n : Nat) :
    Reaches waits p (along waits p n) ∧
      waits (along waits p n) = some (along waits p (n + 1)) := by
  have hnext : ∀ n, Reaches waits p (along waits p n) →
      waits (along waits p n) = some (along waits p (n + 1)) := by
    intro n hreach
    obtain ⟨q, hq⟩ := Option.ne_none_iff_exists'.mp (hwait _ hreach)
    rw [along, hq, Option.getD_some]
  induction n with
  | zero => exact ⟨Reaches.refl p, hnext 0 (Reaches.refl p)⟩
  | succ n ih =>
    have hreach := ih.1.trans (Reaches.head ih.2 (Reaches.refl _))
    exact ⟨hreach, hnext (n + 1) hreach⟩

theorem reaches_along_along (hwait : ∀ q, Reaches waits p q → waits q ≠ none) {i j : Nat}
    (hij : i ≤ j) : Reaches waits (along waits p i) (along waits p j) := by
  induction j, hij using Nat.le_induction with
  | base => exact Reaches.refl _
  | succ j _ ih => exact ih.trans (Reaches.head (reaches_along hwait j).2 (Reaches.refl _))

/-- Among finitely many a chain without an end leads to a circle, hence to one who waits for
itself. -/
theorem OnlySelfWaits.exists_self_waiter [Finite P] (h : OnlySelfWaits waits)
    (hwait : ∀ q, Reaches waits p q → waits q ≠ none) : ∃ q, Reaches waits p q ∧ waits q = some q := by
  obtain ⟨i, j, hne, heq⟩ := Finite.exists_ne_map_eq_of_infinite (along waits p)
  wlog hlt : i < j generalizing i j
  · exact this j i hne.symm heq.symm (by omega)
  obtain ⟨hreach, hnext⟩ := reaches_along hwait i
  refine ⟨_, hreach, h _ _ hnext ?_⟩
  have hback := reaches_along_along hwait (Nat.succ_le_of_lt hlt)
  rwa [← heq] at hback

/-! ## following the chain -/

/-- The chain from `p` on is followed up to its end, or to `c` with the number of processes that have
been met, `g` of which before. There is no result when it takes more than `n` steps. -/
def pursue [DecidableEq P] (waits : P → Option P) (c : P) : Nat → Nat → P → Option Nat
  | 0, _, _ => none
  | n + 1, g, p =>
    match waits p with
    | none => some 0
    | some q => if q = c then some (g + 1) else pursue waits c n (g + 1) q

section Follow

variable [DecidableEq P] {n g k : Nat}

/-- The search finds `c` if the chain leads there. -/
theorem pursue_ne_zero_iff : ∀ {n g : Nat} {p : P}, pursue waits c n g p = some k →
    waits c = none → (k ≠ 0 ↔ p ≠ c ∧ Reaches waits p c)
  | 0, _, _, h, _ => by cases h
  | n + 1, g, p, h, hc => by
    unfold pursue at h
    split at h
    · next hp =>
      cases h
      simp only [ne_eq, not_true, false_iff, not_and]
      intro hne hreach
      exact hne (hreach.eq_of_none hp).symm
    · next q hq =>
      have hne : p ≠ c := by
        rintro rfl
        rw [hc] at hq
        cases hq
      split at h
      · next heq =>
        cases h
        subst heq
        exact ⟨fun _ => ⟨hne, Reaches.head hq (Reaches.refl q)⟩, fun _ => Nat.succ_ne_zero g⟩
      · next hqc =>
        rw [pursue_ne_zero_iff h hc]
        refine ⟨fun h => ⟨hne, Reaches.head hq h.2⟩, fun h => ⟨hqc, ?_⟩⟩
        rcases h.2.cases_start with heq | ⟨r, hr, hreach⟩
        · exact absurd heq hne
        · rw [hq] at hr
          cases hr
          exact hreach

/-- The search does not leave one who waits for itself. -/
theorem pursue_eq_none (hc : waits c = none) (hq : waits q = some q) (h : Reaches waits p q) :
    pursue waits c n g p = none := by
  have hne : ∀ r, Reaches waits r q → r ≠ c := by
    rintro r hr rfl
    rw [hr.eq_of_none hc, hc] at hq
    cases hq
  induction n generalizing g p with
  | zero => rfl
  | succ n ih =>
    unfold pursue
    obtain ⟨r, hr, hreach⟩ : ∃ r, waits p = some r ∧ Reaches waits r q := by
      rcases h.cases_start with heq | hnext
      · rw [heq]
        exact ⟨q, hq, Reaches.refl q⟩
      · exact hnext
    rw [hr]
    simp only
    rw [if_neg (hne r hreach), ih hreach]

/-- More steps change nothing. -/
theorem pursue_mono {m : Nat} (hle : n ≤ m) (h : pursue waits c n g p = some k) :
    pursue waits c m g p = some k := by
  induction n generalizing m g p with
  | zero => cases h
  | succ n ih =>
    obtain ⟨m, rfl⟩ : ∃ x, m = x + 1 := ⟨m - 1, by omega⟩
    unfold pursue at h ⊢
    cases hp : waits p with
    | none =>
      rw [hp] at h
      exact h
    | some q =>
      rw [hp] at h
      simp only at h ⊢
      split
      · next hq => rwa [if_pos hq] at h
      · next hq =>
        rw [if_neg hq] at h
        exact ih (Nat.le_of_succ_le_succ hle) h

/-- **The search has no end** exactly if it meets a process that waits for itself. -/
theorem OnlySelfWaits.pursue_endless_iff [Finite P] (h : OnlySelfWaits waits)
    (hc : waits c = none) :
    (∀ n, pursue waits c n g p = none) ↔ ∃ q, Reaches waits p q ∧ waits q = some q := by
  constructor
  · intro hnone
    refine h.exists_self_waiter fun q hreach hq => ?_
    -- the chain has an end, so that the search has one
    suffices hends : ∃ n k, pursue waits c n g p = some k by
      obtain ⟨n, k, hk⟩ := hends
      rw [hnone n] at hk
      cases hk
    clear hnone
    induction hreach using ReflTransGen.head_induction_on generalizing g with
    | refl => exact ⟨1, 0, by rw [pursue, hq]⟩
    | @head p r hlink _ ih =>
      obtain ⟨n, k, hk⟩ := @ih (g + 1)
      refine ⟨n + 1, if r = c then g + 1 else k, ?_⟩
      unfold pursue
      rw [hlink]
      simp only
      split
      · rfl
      · exact hk
  · rintro ⟨q, hreach, hq⟩ n
    exact pursue_eq_none hc hq hreach

/-- How many steps the search takes that ends. -/
inductive Ends (waits : P → Option P) (c : P) : Nat → P → Prop
  | stop {p : P} (h : waits p = none) : Ends waits c 0 p
  | found {p : P} (h : waits p = some c) : Ends waits c 0 p
  | next {p q : P} {n : Nat} (h : waits p = some q) (hq : q ≠ c) (hn : Ends waits c n q) :
      Ends waits c (n + 1) p

omit [DecidableEq P] in
theorem Ends.unique (h : Ends waits c n p) : ∀ {m : Nat}, Ends waits c m p → m = n := by
  induction h with
  | stop hp =>
    intro m h'
    cases h' with
    | stop => rfl
    | found hp' => rfl
    | next hp' =>
      rw [hp] at hp'
      cases hp'
  | found hp =>
    intro m h'
    cases h' with
    | stop => rfl
    | found hp' => rfl
    | next hp' hq =>
      rw [hp] at hp'
      exact absurd (Option.some.inj hp').symm hq
  | next hp hq _ ih =>
    intro m h'
    cases h' with
    | stop hp' =>
      rw [hp] at hp'
      cases hp'
    | found hp' =>
      rw [hp] at hp'
      exact absurd (Option.some.inj hp') hq
    | next hp' _ h' =>
      rw [hp] at hp'
      cases hp'
      rw [ih h']

theorem ends_of_pursue (h : pursue waits c n g p = some k) : ∃ m, m < n ∧ Ends waits c m p := by
  induction n generalizing g p with
  | zero => cases h
  | succ n ih =>
    unfold pursue at h
    cases hp : waits p with
    | none => exact ⟨0, Nat.succ_pos n, .stop hp⟩
    | some q =>
      rw [hp] at h
      simp only at h
      split at h
      · next hq => exact ⟨0, Nat.succ_pos n, .found (hq ▸ hp)⟩
      · next hq =>
        obtain ⟨m, hm, hends⟩ := ih h
        exact ⟨m + 1, Nat.succ_lt_succ hm, .next hp hq hends⟩

omit [DecidableEq P] in
theorem Ends.along (h : Ends waits c n p) {i : Nat} (hi : i ≤ n) :
    Ends waits c (n - i) (along waits p i) := by
  induction i with
  | zero => exact h
  | succ i ih =>
    have hends := ih (Nat.le_of_succ_le hi)
    generalize hm : n - i = m at hends
    cases hends with
    | stop => omega
    | found => omega
    | @next _ q m hq _ hends =>
      have hnext : Infra.along waits p (i + 1) = q := by
        rw [Infra.along, hq, Option.getD_some]
      rw [hnext, show n - (i + 1) = m by omega]
      exact hends

omit [DecidableEq P] in
/-- The search meets every process once at most. -/
theorem Ends.lt_card [Fintype P] (h : Ends waits c n p) : n < Fintype.card P := by
  have hinj : Function.Injective fun i : Fin (n + 1) => Infra.along waits p i := by
    intro i j hij
    have hi := h.along (Nat.le_of_lt_succ i.isLt)
    have hj := h.along (Nat.le_of_lt_succ j.isLt)
    simp only at hij
    rw [hij] at hi
    have heq := hi.unique hj
    exact Fin.ext (by omega)
  have hcard := Fintype.card_le_of_injective _ hinj
  rw [Fintype.card_fin] at hcard
  exact hcard

theorem pursue_of_ends (h : Ends waits c n p) : ∃ k, pursue waits c (n + 1) g p = some k := by
  induction h generalizing g with
  | stop hp => exact ⟨0, by rw [pursue, hp]⟩
  | found hp => exact ⟨g + 1, by rw [pursue, hp]; simp⟩
  | next hp hq _ ih =>
    obtain ⟨k, hk⟩ := @ih (g + 1)
    refine ⟨k, ?_⟩
    rw [pursue, hp]
    simp only
    rw [if_neg hq, hk]

/-- As many steps as there are processes are enough. -/
theorem pursue_card [Fintype P] (h : pursue waits c n g p = some k) :
    pursue waits c (Fintype.card P) g p = some k := by
  obtain ⟨m, hmn, hends⟩ := ends_of_pursue h
  obtain ⟨k', hk'⟩ := pursue_of_ends hends
  have heq := pursue_mono (Nat.succ_le_of_lt hmn) hk'
  rw [h] at heq
  rw [Option.some.inj heq]
  exact pursue_mono (Nat.succ_le_of_lt hends.lt_card) hk'

end Follow

end Infra
