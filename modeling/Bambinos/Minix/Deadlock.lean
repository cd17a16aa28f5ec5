import Bambinos.Minix.Ipc
import Bambinos.Minix.Talks

/-!
# `deadlock`

`deadlock` follows the chain of the processes that wait, from the one the caller wants to wait for.

* `dependency_eq` — the next process of the chain is the one that is waited for
* `deadlockFrom_eq` — the loop is the search along the chain, but for a sender and a receiver that
  meet
* `deadlock_safe` — where it finds nothing, the caller closes no circle
* `deadlock_endless_iff` — where it has no end
-/

namespace Minix

open Infra

variable {s : Kernel} {M : Type} {n : Exchange ProcPtr M} {p x d cp : ProcPtr} {function k g : Nat}
  {srcDst : Int}

/-- The number by which `deadlock` knows the process that is waited for. -/
def chainNr (s : Kernel) (n : Exchange ProcPtr M) (p : ProcPtr) : Option Int :=
  match n.waits p with
  | some q => some (s.proc q).nr
  | none => if n.hears p = none then none else some ANY

theorem Source.okendpt {e : Int} {src : Option ProcPtr} (h : Source s e src) (ht : Talks s n)
    (hn : Numbered s) (hlive : ∀ x, src = some x → n.live x) (hne : e ≠ ANY) :
    ∃ x, src = some x ∧ okendpt s e = some (s.proc x).nr := by
  cases h with
  | any h => exact absurd h hne
  | of x h =>
    refine ⟨x, rfl, ?_⟩
    unfold Minix.okendpt
    rw [h, ht.isokendpt_endpoint hn (hlive x rfl), Option.map_some, endpointP_endpoint hn]

theorem dependency_eq (h : Talks s n) (hok : n.Ok) (hn : Numbered s) (hp : n.live p) :
    dependency s p = some (chainNr s n p) := by
  unfold dependency chainNr
  dsimp only
  by_cases hreceiving : .receiving ∈ (s.proc p).rtsFlags
  · obtain ⟨src, hhears, hsource⟩ := h.source hreceiving
    rw [if_pos hreceiving]
    have hlive : ∀ x, src = some x → n.live x := fun x hx => hok.source p x (hx ▸ hhears)
    by_cases hany : (s.proc p).getfromE = ANY
    · have hsrc : src = none := by
        cases hsource with
        | any => rfl
        | of x hx => exact absurd (hx.symm.trans hany) (endpoint_ne_any hn x)
      have hsends : n.sends p = none := by
        cases hsends : n.sends p with
        | none => rfl
        | some c =>
          have hpair := hok.paired p c src hsends hhears
          rw [hsrc] at hpair
          cases hpair
      rw [if_pos hany, Exchange.waits_of_not_sends hsends, hhears, hsrc]
      rfl
    · obtain ⟨x, rfl, hx⟩ := hsource.okendpt h hn hlive hany
      have hwaits : n.waits p = some x := by
        cases hsends : n.sends p with
        | none => rw [Exchange.waits_of_not_sends hsends, hhears, Option.getD_some]
        | some c => rw [Exchange.waits_of_sends hsends, hok.paired p c (some x) hsends hhears]
      rw [if_neg hany, hx, hwaits]
      rfl
  · have hhears := (h.hears_eq_none_iff hp).mpr hreceiving
    rw [if_neg hreceiving]
    by_cases hsending : .sending ∈ (s.proc p).rtsFlags
    · obtain ⟨c, hsends⟩ : ∃ c, n.sends p = some c := by
        rw [← Option.ne_none_iff_exists', Ne, h.sends_eq_none_iff hp]
        exact not_not.mpr hsending
      have hlive := (hok.sender p c hsends).2
      rw [if_pos hsending, h.sends_endpoint hp hsends, Exchange.waits_of_sends hsends]
      unfold okendpt
      rw [h.isokendpt_endpoint hn hlive, Option.map_some, endpointP_endpoint hn]
      rfl
    · have hsends := (h.sends_eq_none_iff hp).mpr hsending
      rw [if_neg hsending, Exchange.waits_of_not_sends hsends, hhears]
      rfl

/-! ## the loop -/

theorem nr_inj (hn : Numbered s) (he : (s.proc p).nr = (s.proc x).nr) : p = x := by
  rw [hn.nr, hn.nr] at he
  exact Fin.ext (by omega)

theorem nr_ne_any (hn : Numbered s) : (s.proc p).nr ≠ ANY := by
  have hlt : p.val < 104 := p.isLt
  rw [hn.nr, tasks_eq]
  unfold ANY
  omega

/-- The caller and the process that waits for it send and receive, or the other way round. -/
def Meet (s : Kernel) (function : Nat) (d : ProcPtr) : Prop :=
  ((if .sending ∈ (s.proc d).rtsFlags then SENDING else 0) ^^^ (function <<< 2)) &&& SENDING ≠ 0

instance : Decidable (Meet s function d) :=
  inferInstanceAs (Decidable (_ ≠ 0))

theorem deadlockFrom_any {m : Nat} : deadlockFrom s function cp (m + 1) g ANY = some 0 := by
  unfold deadlockFrom
  rw [if_pos rfl]

/-- One turn of the loop. -/
theorem deadlockFrom_eq {m : Nat} (h : Talks s n) (hok : n.Ok) (hn : Numbered s) (hp : n.live p) :
    deadlockFrom s function cp (m + 1) g (s.proc p).nr =
      match n.waits p with
      | some q =>
        if q = cp then if g + 1 = 2 ∧ Meet s function p then some 0 else some (g + 1)
        else deadlockFrom s function cp m (g + 1) (s.proc q).nr
      | none =>
        if n.hears p = none then some 0 else deadlockFrom s function cp m (g + 1) ANY := by
  rw [deadlockFrom, if_neg (nr_ne_any hn), procAddr_nr hn, Option.bind_eq_bind, Option.bind_some,
    dependency_eq h hok hn hp, Option.bind_eq_bind, Option.bind_some]
  unfold chainNr
  cases hwaits : n.waits p with
  | none =>
    by_cases hhears : n.hears p = none
    · simp [hhears]
    · simp [hhears, (nr_ne_any hn).symm]
  | some q =>
    by_cases hq : q = cp
    · subst hq
      simp only [Meet, if_true]
      congr
    · have hne : ¬ (s.proc q).nr = (s.proc cp).nr := fun he => hq (nr_inj hn he)
      simp [hq, hne]

/-- Behind its first turn the loop is the search along the chain. -/
theorem deadlockFrom_of_pursue {m : Nat} (h : Talks s n) (hok : n.Ok) (hn : Numbered s)
    (hp : n.live p) (hg : 2 ≤ g) (hpursue : pursue n.waits cp m g p = some k) :
    deadlockFrom s function cp (m + 1) g (s.proc p).nr = some k := by
  induction m generalizing g p with
  | zero => cases hpursue
  | succ m ih =>
    rw [deadlockFrom_eq h hok hn hp]
    unfold pursue at hpursue
    cases hwaits : n.waits p with
    | none =>
      rw [hwaits] at hpursue
      simp only
      rw [deadlockFrom_any, ite_self]
      exact hpursue
    | some q =>
      rw [hwaits] at hpursue
      simp only at hpursue ⊢
      by_cases hq : q = cp
      · rw [if_pos hq] at hpursue ⊢
        rw [if_neg fun hand => absurd hand.1 (by omega)]
        exact hpursue
      · rw [if_neg hq] at hpursue ⊢
        exact ih (hok.waits_live hwaits) (by omega) hpursue

theorem pursue_of_deadlockFrom {m : Nat} (h : Talks s n) (hok : n.Ok) (hn : Numbered s)
    (hp : n.live p) (hg : 2 ≤ g)
    (hloop : deadlockFrom s function cp m g (s.proc p).nr = some k) :
    pursue n.waits cp m g p = some k := by
  induction m generalizing g p with
  | zero => cases hloop
  | succ m ih =>
    rw [deadlockFrom_eq h hok hn hp] at hloop
    unfold pursue
    cases hwaits : n.waits p with
    | none =>
      rw [hwaits] at hloop
      simp only at hloop ⊢
      split at hloop
      · exact hloop
      · cases m with
        | zero => cases hloop
        | succ m =>
          rw [deadlockFrom_any] at hloop
          exact hloop
    | some q =>
      rw [hwaits] at hloop
      simp only at hloop ⊢
      by_cases hq : q = cp
      · rw [if_pos hq] at hloop ⊢
        rwa [if_neg fun hand => absurd hand.1 (by omega)] at hloop
      · rw [if_neg hq] at hloop ⊢
        exact ih (hok.waits_live hwaits) (by omega) hloop

/-- **The loop** is the search along the chain, but where a sender and a receiver meet. -/
theorem deadlock_eq (h : Talks s n) (hok : n.Ok) (hn : Numbered s) (hd : n.live d) :
    deadlock s function cp (s.proc d).nr =
      if n.waits d = some cp ∧ Meet s function d then some 0
      else pursue n.waits cp (Fintype.card ProcPtr) 1 d := by
  have hcard : loopLimit = Fintype.card ProcPtr + 1 := by rw [Fintype.card_fin]; rfl
  unfold deadlock
  rw [hcard, deadlockFrom_eq h hok hn hd]
  cases hwaits : n.waits d with
  | none =>
    obtain ⟨c, hc⟩ : ∃ c, Fintype.card ProcPtr = c + 1 := ⟨103, by rw [Fintype.card_fin]; rfl⟩
    simp only [reduceCtorEq, false_and, if_false]
    rw [hc, deadlockFrom_any, ite_self, pursue, hwaits]
  | some q =>
    obtain ⟨c, hc⟩ : ∃ c, Fintype.card ProcPtr = c + 1 := ⟨103, by rw [Fintype.card_fin]; rfl⟩
    simp only [Option.some.injEq]
    by_cases hq : q = cp
    · rw [if_pos hq]
      by_cases hmeet : Meet s function d
      · simp [hq, hmeet]
      · rw [if_neg (by simp [hmeet]), if_neg (by simp [hmeet]), hc, pursue, hwaits]
        simp [hq]
    · rw [if_neg hq, if_neg (by simp [hq])]
      have hlive := hok.waits_live hwaits
      have hstep : ∀ m, pursue n.waits cp (m + 1) 1 d = pursue n.waits cp m 2 q := by
        intro m
        rw [pursue, hwaits]
        simp only
        rw [if_neg hq]
      cases hpursue : pursue n.waits cp (Fintype.card ProcPtr) 1 d with
      | some k =>
        rw [hc, hstep] at hpursue
        rw [hc]
        exact deadlockFrom_of_pursue h hok hn hlive (Nat.le_refl 2) hpursue
      | none =>
        rw [← Option.not_isSome_iff_eq_none, Option.isSome_iff_exists]
        rintro ⟨k, hk⟩
        have hpursue₁ := pursue_of_deadlockFrom h hok hn hlive (Nat.le_refl 2) hk
        rw [← hstep] at hpursue₁
        rw [pursue_card hpursue₁] at hpursue
        cases hpursue

/-! ## what is found -/

/-- Where nothing is found, the chain does not lead to the caller, or the two meet. -/
theorem deadlock_safe (h : Talks s n) (hok : n.Ok) (hn : Numbered s) (hd : n.live d)
    (hcp : n.waits cp = none) (hzero : deadlock s function cp (s.proc d).nr = some 0) :
    n.waits d = some cp ∧ Meet s function d ∨ d = cp ∨ ¬ Reaches n.waits d cp := by
  rw [deadlock_eq h hok hn hd] at hzero
  split at hzero
  · next hmeet => exact Or.inl hmeet
  · have hiff := pursue_ne_zero_iff hzero hcp
    by_cases heq : d = cp
    · exact Or.inr (Or.inl heq)
    · exact Or.inr (Or.inr fun hreach => hiff.mpr ⟨heq, hreach⟩ rfl)

/-- A group is found exactly if the chain leads to the caller and the two do not meet. -/
theorem deadlock_found_iff (h : Talks s n) (hcareful : n.Careful) (hn : Numbered s) (hd : n.live d)
    (hcp : n.waits cp = none) :
    (∃ k, k ≠ 0 ∧ deadlock s function cp (s.proc d).nr = some k) ↔
      (d ≠ cp ∧ Reaches n.waits d cp) ∧ ¬ (n.waits d = some cp ∧ Meet s function d) := by
  have hok := hcareful.toOk
  rw [deadlock_eq h hok hn hd]
  by_cases hmeet : n.waits d = some cp ∧ Meet s function d
  · rw [if_pos hmeet]
    constructor
    · rintro ⟨k, hk, hzero⟩
      exact absurd (Option.some.inj hzero).symm hk
    · exact fun hnot => absurd hmeet hnot.2
  · rw [if_neg hmeet]
    constructor
    · rintro ⟨k, hk, hpursue⟩
      exact ⟨(pursue_ne_zero_iff hpursue hcp).mp hk, hmeet⟩
    · rintro ⟨⟨hne, hreach⟩, -⟩
      -- the chain that ends at the caller meets nobody that waits for itself
      have hends : ¬ ∀ m, pursue n.waits cp m 1 d = none := by
        rw [hcareful.circles.pursue_endless_iff hcp]
        rintro ⟨q, hq, hself⟩
        have hback : Reaches n.waits q cp ∨ Reaches n.waits cp q := hq.total hreach
        rcases hback with hback | hback
        · rcases hback.stuck hself with rfl
          rw [hcp] at hself
          cases hself
        · rw [hback.eq_of_none hcp, hcp] at hself
          cases hself
      obtain ⟨m, hm⟩ := not_forall.mp hends
      obtain ⟨k, hk⟩ := Option.ne_none_iff_exists'.mp hm
      exact ⟨k, (pursue_ne_zero_iff hk hcp).mpr ⟨hne, hreach⟩, pursue_card hk⟩

/-- **The search has no end** exactly if the chain meets a process that waits for itself. -/
theorem deadlock_endless_iff (h : Talks s n) (hcareful : n.Careful) (hn : Numbered s)
    (hd : n.live d) (hcp : n.waits cp = none) :
    deadlock s function cp (s.proc d).nr = none ↔
      ∃ q, Reaches n.waits d q ∧ n.waits q = some q := by
  have hendless : (∀ m, pursue n.waits cp m 1 d = none) ↔
      pursue n.waits cp (Fintype.card ProcPtr) 1 d = none := by
    refine ⟨fun hnone => hnone _, fun hnone m => ?_⟩
    cases hm : pursue n.waits cp m 1 d with
    | none => rfl
    | some k =>
      rw [pursue_card hm] at hnone
      cases hnone
  rw [deadlock_eq h hcareful.toOk hn hd, ← hcareful.circles.pursue_endless_iff hcp, hendless]
  split
  · next hmeet =>
    obtain ⟨c, hc⟩ : ∃ c, Fintype.card ProcPtr = c + 1 := ⟨103, by rw [Fintype.card_fin]; rfl⟩
    rw [hc, pursue, hmeet.1]
    simp
  · exact Iff.rfl

end Minix
