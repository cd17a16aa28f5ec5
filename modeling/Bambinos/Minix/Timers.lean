import Mathlib

/-!
# Queues of timers

The library of `timers.h`, for timers that are known by their addresses.

* `tmrsClrtimer`, `tmrsSettimer` — a timer is taken off, or put where it belongs
* `Timers.pop` — the turn of the loop of `tmrs_exptimers`, up to the watchdog
* `Timers.InOrder` — the next timer due is in front
* `Timers.expired` — how many of them have expired
-/

namespace Minix

def TMR_NEVER : Int := 2147483647

/-- A queue of timers, and the `tmr_exp_time` of every timer. -/
structure Timers (κ : Type) where
  queue : List κ
  expTime : κ → Int

variable {κ : Type} [DecidableEq κ] {tm : Timers κ} {tp x : κ} {expTime : Int}

/-- `tmrs_clrtimer`. -/
def tmrsClrtimer (tp : κ) (tm : Timers κ) : Timers κ where
  queue := tm.queue.erase tp
  expTime := Function.update tm.expTime tp TMR_NEVER

/-- `tmrs_settimer`: the timer gets before the first one that expires later. -/
def tmrsSettimer (tp : κ) (expTime : Int) (tm : Timers κ) : Timers κ :=
  let tm := tmrsClrtimer tp tm
  let time := Function.update tm.expTime tp expTime
  { queue := tm.queue.orderedInsert (fun a b => time a < time b) tp
    expTime := time }

/-- When the first timer expires. -/
def Timers.first (tm : Timers κ) : Int :=
  match tm.queue with
  | [] => TMR_NEVER
  | tp :: _ => tm.expTime tp

/-- The first timer is taken off when it has expired. -/
def Timers.pop (tm : Timers κ) (tp : κ) (rest : List κ) : Timers κ where
  queue := rest
  expTime := Function.update tm.expTime tp TMR_NEVER

/-- The next timer due is in front, and no timer is there twice. -/
structure Timers.InOrder (tm : Timers κ) : Prop where
  sorted : tm.queue.Pairwise fun a b => tm.expTime a ≤ tm.expTime b
  nodup : tm.queue.Nodup

/-- The time of a timer that is not in the queue does not matter. -/
theorem Timers.update_of_mem {l : List κ} {time : κ → Int} {n : Int} {a : κ} (hx : x ∉ l)
    (ha : a ∈ l) : Function.update time x n a = time a :=
  Function.update_of_ne (ne_of_mem_of_not_mem ha hx) _ _

theorem Timers.pairwise_update {l : List κ} {time : κ → Int} {n : Int} (hx : x ∉ l)
    (h : l.Pairwise fun a b => time a ≤ time b) :
    l.Pairwise fun a b => Function.update time x n a ≤ Function.update time x n b := by
  refine h.imp_of_mem fun ha hb hab => ?_
  rw [Timers.update_of_mem hx ha, Timers.update_of_mem hx hb]
  exact hab

omit [DecidableEq κ] in
theorem Timers.pairwise_insert {time : κ → Int} : ∀ {l : List κ},
    l.Pairwise (fun a b => time a ≤ time b) →
      (l.orderedInsert (fun a b => time a < time b) x).Pairwise fun a b => time a ≤ time b
  | [], _ => List.pairwise_singleton _ _
  | b :: l, h => by
    obtain ⟨hb, hl⟩ := List.pairwise_cons.mp h
    rw [List.orderedInsert_cons]
    split
    · next hlt =>
      refine List.pairwise_cons.mpr ⟨fun c hc => ?_, h⟩
      rcases List.mem_cons.mp hc with rfl | hc
      · exact le_of_lt hlt
      · exact le_trans (le_of_lt hlt) (hb c hc)
    · next hge =>
      refine List.pairwise_cons.mpr ⟨fun c hc => ?_, Timers.pairwise_insert hl⟩
      rcases (List.mem_orderedInsert _).mp hc with rfl | hc
      · exact not_lt.mp hge
      · exact hb c hc

theorem Timers.InOrder.clrtimer (h : tm.InOrder) : (tmrsClrtimer tp tm).InOrder where
  sorted := Timers.pairwise_update h.nodup.not_mem_erase (h.sorted.sublist List.erase_sublist)
  nodup := h.nodup.erase tp

theorem Timers.InOrder.settimer (h : tm.InOrder) : (tmrsSettimer tp expTime tm).InOrder where
  sorted := Timers.pairwise_insert (Timers.pairwise_update h.nodup.not_mem_erase h.clrtimer.sorted)
  nodup := (List.perm_orderedInsert _ _ _).nodup_iff.mpr
    (List.nodup_cons.mpr ⟨h.nodup.not_mem_erase, h.nodup.erase tp⟩)

theorem Timers.InOrder.pop {rest : List κ} (h : tm.InOrder) (hqueue : tm.queue = tp :: rest) :
    (tm.pop tp rest).InOrder := by
  have hsorted := h.sorted
  have hnodup := h.nodup
  rw [hqueue] at hsorted hnodup
  obtain ⟨hnot, hnodup⟩ := List.nodup_cons.mp hnodup
  exact ⟨Timers.pairwise_update hnot (List.pairwise_cons.mp hsorted).2, hnodup⟩

omit [DecidableEq κ] in
/-- No timer of the queue expires before the first one. -/
theorem Timers.InOrder.first_le (h : tm.InOrder) (hx : x ∈ tm.queue) : tm.first ≤ tm.expTime x := by
  have hsorted := h.sorted
  unfold Timers.first
  cases hqueue : tm.queue with
  | nil =>
    rw [hqueue] at hx
    cases hx
  | cons tp rest =>
    rw [hqueue] at hx hsorted
    rcases List.mem_cons.mp hx with rfl | hx
    · exact le_rfl
    · exact (List.pairwise_cons.mp hsorted).1 x hx

theorem mem_settimer : x ∈ (tmrsSettimer tp expTime tm).queue ↔ x = tp ∨ x ∈ tm.queue := by
  show x ∈ (tm.queue.erase tp).orderedInsert _ tp ↔ _
  rw [List.mem_orderedInsert]
  by_cases hx : x = tp
  · exact ⟨fun _ => Or.inl hx, fun _ => Or.inl hx⟩
  · rw [List.mem_erase_of_ne hx]

theorem mem_clrtimer (hx : x ≠ tp) : x ∈ (tmrsClrtimer tp tm).queue ↔ x ∈ tm.queue :=
  List.mem_erase_of_ne hx

/-- How many timers of the queue have expired. -/
def Timers.expired (tm : Timers κ) (now : Int) : Nat :=
  tm.queue.countP fun tp => tm.expTime tp ≤ now

theorem Timers.countP_update {l : List κ} {time : κ → Int} {n now : Int} (hx : x ∉ l) :
    l.countP (fun a => decide (Function.update time x n a ≤ now)) =
      l.countP fun a => decide (time a ≤ now) := by
  refine List.countP_congr fun a ha => ?_
  rw [Timers.update_of_mem hx ha]

theorem Timers.expired_pop {now : Int} {rest : List κ} (h : tm.InOrder)
    (hqueue : tm.queue = tp :: rest) (hdue : tm.expTime tp ≤ now) :
    (tm.pop tp rest).expired now + 1 = tm.expired now := by
  have hnodup := h.nodup
  rw [hqueue] at hnodup
  unfold Timers.expired
  rw [hqueue, List.countP_cons_of_pos (by exact decide_eq_true hdue)]
  exact congrArg (· + 1) (Timers.countP_update (List.nodup_cons.mp hnodup).1)

/-- A timer that is set for later has not expired. -/
theorem Timers.expired_settimer {now : Int} (h : tm.InOrder) (hlater : now < expTime) :
    (tmrsSettimer tp expTime tm).expired now ≤ tm.expired now := by
  have hnot : tp ∉ tm.queue.erase tp := h.nodup.not_mem_erase
  show List.countP (fun a => decide (Function.update (Function.update tm.expTime tp TMR_NEVER) tp
    expTime a ≤ now)) ((tm.queue.erase tp).orderedInsert _ tp) ≤ _
  rw [(List.perm_orderedInsert _ _ _).countP_eq, List.countP_cons_of_neg
    (by rw [Function.update_self]; exact fun hle => absurd (of_decide_eq_true hle) (not_le.mpr hlater)),
    Timers.countP_update hnot, Timers.countP_update hnot]
  exact List.erase_sublist.countP_le

end Minix
