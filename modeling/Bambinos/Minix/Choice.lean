import Bambinos.Minix.Scheduler
import Mathlib.Data.List.Pairwise

/-!
# Who runs next

`pick_proc` is called by every `enqueue`, but by a `dequeue` only when the running process or the one
picked before is removed.

* `First` — the head of the first list that is not empty
* `Settled` — the choice is right
* `chosen_first` — it is right in every state that is reached by `enqueue`, `dequeue` and `restart`
-/

namespace Minix

open Infra

variable {s s' : Kernel} {q q' : Queue} {r rp : ProcPtr}

/-! ## the first list -/

/-- The order of the lists: by priority, and by policy within a priority. -/
def Before (q' q : Queue) : Prop := q'.1 < q.1 ∨ q'.1 = q.1 ∧ q'.2 < q.2

instance : DecidableRel Before := fun q' q =>
  inferInstanceAs (Decidable (q'.1 < q.1 ∨ q'.1 = q.1 ∧ q'.2 < q.2))

theorem Before.trans {q'' : Queue} (h : Before q'' q') (h' : Before q' q) : Before q'' q := by
  unfold Before at *
  omega

theorem before_or_before (h : q' ≠ q) : Before q' q ∨ Before q q' := by
  unfold Before
  by_contra hnot
  exact h (Prod.ext (by omega) (by omega))

theorem not_before_self : ¬ Before q q := by
  unfold Before
  omega

/-- The process is the head of the first list that is not empty. -/
def First (s : Kernel) (rp : ProcPtr) : Prop :=
  ∃ q, InRange q ∧ s.rdyHead q = some rp ∧
    ∀ q', InRange q' → Before q' q → s.rdyHead q' = none

theorem mem_queues : q ∈ queues ↔ InRange q := by
  unfold queues InRange NR_SCHED_QUEUES NR_SCHED_POLICIES
  obtain ⟨a, b⟩ := q
  constructor
  · intro h
    obtain ⟨i, hi, h⟩ := List.mem_flatMap.mp h
    obtain ⟨j, hj, h⟩ := List.mem_map.mp h
    obtain ⟨rfl, rfl⟩ := Prod.mk.inj h
    have hi := List.mem_range.mp hi
    have hj := List.mem_range.mp hj
    constructor <;> omega
  · rintro ⟨ha, hb⟩
    exact List.mem_flatMap.mpr ⟨a.toNat, List.mem_range.mpr (by omega), List.mem_map.mpr
      ⟨b.toNat, List.mem_range.mpr (by omega), Prod.ext (by omega) (by omega)⟩⟩

/-- The two loops of `pick_proc` go through the lists in their order. -/
theorem queues_sorted : queues.Pairwise Before := by
  decide +kernel

theorem findSome?_queues : queues.findSome? s.rdyHead = some rp ↔ First s rp := by
  rw [List.findSome?_eq_some_iff]
  constructor
  · rintro ⟨l₁, q, l₂, hqs, hq, hnone⟩
    have hsorted := queues_sorted
    rw [hqs, List.pairwise_append, List.pairwise_cons] at hsorted
    refine ⟨q, mem_queues.mp (by rw [hqs]; simp), hq, fun q' hq' hbefore => hnone q' ?_⟩
    have hmem := mem_queues.mpr hq'
    rw [hqs, List.mem_append, List.mem_cons] at hmem
    rcases hmem with hmem | rfl | hmem
    · exact hmem
    · exact absurd hbefore not_before_self
    · exact absurd (hbefore.trans (hsorted.2.1.1 q' hmem)) not_before_self
  · rintro ⟨q, hrange, hq, hnone⟩
    obtain ⟨l₁, l₂, hqs⟩ := List.append_of_mem (mem_queues.mpr hrange)
    have hsorted := queues_sorted
    rw [hqs, List.pairwise_append] at hsorted
    refine ⟨l₁, q, l₂, hqs, hq, fun q' hq' => hnone q' (mem_queues.mp ?_) ?_⟩
    · rw [hqs]
      exact List.mem_append_left _ hq'
    · exact hsorted.2.2 q' hq' q List.mem_cons_self

theorem exists_first (hrange : InRange q) (hq : s.rdyHead q ≠ none) : ∃ rp, First s rp := by
  cases hfind : queues.findSome? s.rdyHead with
  | some rp => exact ⟨rp, findSome?_queues.mp hfind⟩
  | none => exact absurd (List.findSome?_eq_none_iff.mp hfind q (mem_queues.mpr hrange)) hq

theorem First.unique (h : First s r) (h' : First s rp) : r = rp :=
  Option.some.inj ((findSome?_queues.mpr h).symm.trans (findSome?_queues.mpr h'))

/-! ## the choice -/

/-- The process that runs from the next `restart` on. -/
def chosen (s : Kernel) : Option ProcPtr := s.nextPtr.or s.procPtr

/-- If a process is ready, the choice is the first. -/
def Settled (s : Kernel) : Prop := ∀ rp, First s rp → chosen s = some rp

theorem Settled.congr (h : Settled s) (hhead : s'.rdyHead = s.rdyHead)
    (hproc : s'.procPtr = s.procPtr) (hnext : s'.nextPtr = s.nextPtr) : Settled s' := by
  intro rp hrp
  unfold First at hrp
  rw [hhead] at hrp
  unfold chosen
  rw [hproc, hnext]
  exact h rp hrp

theorem settled_pickProc (s : Kernel) : Settled (pickProc s) := by
  intro rp hrp
  have hfirst : First s rp := by
    unfold First at hrp ⊢
    rwa [pickProc_rdyHead] at hrp
  unfold pickProc
  rw [findSome?_queues.mpr hfirst]
  rfl

theorem Settled.restart (h : Settled s) : Settled (restart s) := by
  intro rp hrp
  unfold Minix.restart at hrp ⊢
  cases hnext : s.nextPtr with
  | none =>
    rw [hnext] at hrp
    exact h rp hrp
  | some r =>
    rw [hnext] at hrp
    have hr := h rp hrp
    unfold chosen at hr ⊢
    rw [hnext] at hr
    exact hr

theorem Settled.enqueue (hstep : enqueue rp s = some s') : Settled s' := by
  unfold Minix.enqueue at hstep
  dsimp only at hstep
  split at hstep
  · split at hstep
    · cases hstep
      exact settled_pickProc _
    · split at hstep
      · cases hstep
        exact settled_pickProc _
      · obtain ⟨tail, -, hstep⟩ := Option.bind_eq_some_iff.mp hstep
        cases hstep
        exact settled_pickProc _
  · cases hstep

/-- The head of a list that is not the choice may go without another choice. -/
theorem Settled.removeHead (h : Settled s) (hrange : InRange q) (hq : s.rdyHead q = some rp)
    (hrp : chosen s ≠ some rp) {x : Option ProcPtr} : Settled (s.setHead q x) := by
  intro r hr
  obtain ⟨q₁, hrange₁, hq₁, hnone⟩ := hr
  have hnot : ∀ {q'}, InRange q' → q' ≠ q → Before q' q₁ → s.rdyHead q' = none := by
    intro q' hq' hne hbefore
    have := hnone q' hq' hbefore
    rwa [show (s.setHead q x).rdyHead q' = s.rdyHead q' from Function.update_of_ne hne _ _] at this
  by_cases hbefore : Before q₁ q
  · -- the first list lies before, and is the first in `s` too
    have hne : q₁ ≠ q := fun he => not_before_self (he ▸ hbefore)
    have hfirst : First s r := by
      refine ⟨q₁, hrange₁, ?_, fun q' hq' hlt => hnot hq' ?_ hlt⟩
      · rwa [show (s.setHead q x).rdyHead q₁ = s.rdyHead q₁ from
          Function.update_of_ne hne _ _] at hq₁
      · rintro rfl
        exact not_before_self (hbefore.trans hlt)
    exact h r hfirst
  · -- otherwise the head that goes was the first
    refine absurd (h rp ⟨q, hrange, hq, fun q' hq' hlt => hnot hq' ?_ ?_⟩) hrp
    · rintro rfl
      exact not_before_self hlt
    · by_cases he : q₁ = q
      · rwa [he]
      · exact hlt.trans ((before_or_before he).resolve_left hbefore)

theorem chosen_ne (h : ¬ (s.procPtr = some rp ∨ s.nextPtr = some rp)) : chosen s ≠ some rp := by
  unfold chosen
  cases hnext : s.nextPtr with
  | none => exact fun hproc => h (Or.inl hproc)
  | some r => exact fun he => h (Or.inr (hnext.trans he))

theorem Settled.removeReady (h : Settled s) (hrange : InRange q) (hrp : chosen s ≠ some rp)
    {place : Option ProcPtr} (hplace : place = none → s.rdyHead q = some rp) :
    Settled (s.removeReady q rp place) := by
  have hlink : Settled (s.setReadyLink q place (s.proc rp).nextready) := by
    cases place with
    | some b => exact h.congr rfl rfl rfl
    | none => exact h.removeHead hrange (hplace rfl) hrp
  unfold Kernel.removeReady
  dsimp only
  split
  · exact hlink.congr rfl rfl rfl
  · exact hlink

theorem Settled.dequeue (h : Settled s) (hstep : dequeue rp s = some s') : Settled s' := by
  obtain ⟨hrange, place, x, hseek, hcases⟩ := dequeue_cases hstep
  rcases hcases with ⟨-, rfl⟩ | ⟨-, -, rfl⟩ | ⟨rfl, hactive, rfl⟩
  · exact h
  · exact settled_pickProc _
  · refine h.removeReady hrange (chosen_ne hactive) ?_
    rintro rfl
    exact (seek_start hseek).symm

/-! ## runs -/

/--
The states reached by `enqueue`, `dequeue` and `restart`, in any order and for any processes. In
between the rest of the kernel may change everything but the heads of the lists, `proc_ptr` and
`next_ptr`.
-/
inductive Reached : Kernel → Prop
  | boot {s : Kernel} (h : ∀ q, s.rdyHead q = none) : Reached s
  | enqueue {s s' : Kernel} {rp : ProcPtr} (h : Reached s) (hstep : enqueue rp s = some s') :
      Reached s'
  | dequeue {s s' : Kernel} {rp : ProcPtr} (h : Reached s) (hstep : dequeue rp s = some s') :
      Reached s'
  | restart {s : Kernel} (h : Reached s) : Reached (restart s)
  | update {s s' : Kernel} (h : Reached s) (hhead : s'.rdyHead = s.rdyHead)
      (hproc : s'.procPtr = s.procPtr) (hnext : s'.nextPtr = s.nextPtr) : Reached s'

theorem Reached.settled (h : Reached s) : Settled s := by
  induction h with
  | boot h =>
    rintro rp ⟨q, -, hq, -⟩
    rw [h q] at hq
    cases hq
  | enqueue _ hstep _ => exact Settled.enqueue hstep
  | dequeue _ hstep ih => exact ih.dequeue hstep
  | restart _ ih => exact ih.restart
  | update _ hhead hproc hnext ih => exact ih.congr hhead hproc hnext

/--
**The choice is right.** In every state that is reached and has a process ready, the process that
runs next is the head of the first list, by priority and then by policy, that is not empty.
-/
theorem chosen_first (h : Reached s) (hready : ∃ q, InRange q ∧ s.rdyHead q ≠ none) :
    ∃ rp, chosen s = some rp ∧ First s rp := by
  obtain ⟨q, hrange, hq⟩ := hready
  obtain ⟨rp, hrp⟩ := exists_first hrange hq
  exact ⟨rp, h.settled rp hrp, hrp⟩

/-- Two processes are enqueued, and the first of them is dequeued after a switch to it. -/
theorem chosen_first_two : ∃ s₁ s₂ s₃, enqueue 5 bss = some s₁ ∧ enqueue 6 s₁ = some s₂ ∧
    dequeue 5 (restart s₂) = some s₃ ∧ ∃ rp, chosen s₃ = some rp ∧ First s₃ rp := by
  have h : ((enqueue 5 bss).bind fun s₁ => (enqueue 6 s₁).bind fun s₂ =>
      dequeue 5 (restart s₂)).any fun s₃ => (s₃.rdyHead (0, 0)).isSome := by
    decide +kernel
  obtain ⟨s₃, h₃, hready⟩ := (Option.any_eq_true _ _).mp h
  obtain ⟨s₁, h₁, h₃⟩ := Option.bind_eq_some_iff.mp h₃
  obtain ⟨s₂, h₂, h₃⟩ := Option.bind_eq_some_iff.mp h₃
  refine ⟨s₁, s₂, s₃, h₁, h₂, h₃, chosen_first
    (.dequeue (.restart (.enqueue (.enqueue (.boot fun _ => rfl) h₁) h₂)) h₃)
    ⟨(0, 0), by decide, Option.isSome_iff_ne_none.mp hready⟩⟩

end Minix
