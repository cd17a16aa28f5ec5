import Bambinos.Minix.Proc

/-!
# `enqueue` and `dequeue`

* `sched` — the list to use, and whether the process goes to its front
* `pickProc` — the first process of the first list that is not empty
* `enqueue`, `dequeue` — a process becomes runnable, or is runnable no longer
* `restart` — the switch to the process that was picked
-/

namespace Minix

open Infra

/-! ## the policies -/

/-- `sched_other`. -/
def schedOther (r : Proc) : Proc × Queue × Bool :=
  let timeLeft := decide (0 < r.ticksLeft)
  let r :=
    if timeLeft then r
    else
      { r with
        ticksLeft := r.quantumSize
        priority := if r.priority < IDLE_Q - 1 then r.priority + 1 else r.priority }
  (r, (r.priority, r.scheduler), timeLeft)

/-- `sched_fifo`. -/
def schedFifo (r : Proc) : Proc × Queue × Bool := (r, (r.priority, r.scheduler), false)

/-- `sched_rr`. -/
def schedRr (r : Proc) : Proc × Queue × Bool :=
  let timeLeft := decide (0 < r.ticksLeft)
  let r := if timeLeft then r else { r with ticksLeft := r.quantumSize }
  (r, (r.priority, r.scheduler), timeLeft)

/-- The process, the list it goes to, and whether it goes to the front. -/
def sched (r : Proc) : Proc × Queue × Bool :=
  if r.scheduler = SCHED_FIFO then schedFifo r
  else if r.scheduler = SCHED_RR then schedRr r
  else schedOther r

/-! ## the lists -/

/-- The indices of `rdy_head` and `rdy_tail`. -/
def InRange (q : Queue) : Prop :=
  (0 ≤ q.1 ∧ q.1 < NR_SCHED_QUEUES) ∧ 0 ≤ q.2 ∧ q.2 < NR_SCHED_POLICIES

instance (q : Queue) : Decidable (InRange q) :=
  inferInstanceAs (Decidable ((0 ≤ q.1 ∧ q.1 < NR_SCHED_QUEUES) ∧ 0 ≤ q.2 ∧ q.2 < NR_SCHED_POLICIES))

/-- The lists in the order of the two loops of `pick_proc`. -/
def queues : List Queue :=
  (List.range NR_SCHED_QUEUES).flatMap fun (q : Nat) =>
    (List.range NR_SCHED_POLICIES).map fun (p : Nat) => ((q : Int), (p : Int))

/-- The process `rp` runs next. -/
def Kernel.setNext (s : Kernel) (rp : ProcPtr) : Kernel :=
  { s with
    nextPtr := some rp
    billPtr :=
      if .billable ∈ (s.priv (s.proc rp).priv).flags then some rp else s.billPtr }

def pickProc (s : Kernel) : Kernel :=
  match queues.findSome? s.rdyHead with
  | some rp => s.setNext rp
  | none => s

/-- `rdy_head[q][p] = x`. -/
def Kernel.setHead (s : Kernel) (q : Queue) (x : Option ProcPtr) : Kernel :=
  { s with rdyHead := Function.update s.rdyHead q x }

/-- `rdy_tail[q][p] = x`. -/
def Kernel.setTail (s : Kernel) (q : Queue) (x : Option ProcPtr) : Kernel :=
  { s with rdyTail := Function.update s.rdyTail q x }

/-- `rp->p_nextready = x`. -/
def Kernel.setNextready (s : Kernel) (rp : ProcPtr) (x : Option ProcPtr) : Kernel :=
  s.setProc rp fun r => { r with nextready := x }

/-- `*xpp = x`, where `xpp` points to a `p_nextready` or to the head of the list `q`. -/
def Kernel.setReadyLink (s : Kernel) (q : Queue) (place x : Option ProcPtr) : Kernel :=
  match place with
  | none => s.setHead q x
  | some b => s.setNextready b x

/-- More than there are processes: a search that is longer goes round in circles. -/
def loopLimit : Nat := NR_TASKS + NR_PROCS + 1

/--
`enqueue`. There is no next state when the list does not exist, or when the pointer to its tail is
null.
-/
def enqueue (rp : ProcPtr) (s : Kernel) : Option Kernel :=
  let (r, q, front) := sched (s.proc rp)
  let s := s.setProc rp fun _ => r
  if InRange q then
    match s.rdyHead q with
    | none =>
      some (pickProc (((s.setHead q (some rp)).setTail q (some rp)).setNextready rp none))
    | some head =>
      if front then some (pickProc ((s.setNextready rp (some head)).setHead q (some rp)))
      else do
        let tail ← s.rdyTail q
        some (pickProc (((s.setNextready tail (some rp)).setTail q (some rp)).setNextready rp none))
  else none

/-- The process at the given place of the list `q` is taken off. -/
def Kernel.removeReady (s : Kernel) (q : Queue) (rp : ProcPtr) (place : Option ProcPtr) : Kernel :=
  let s := s.setReadyLink q place (s.proc rp).nextready
  if s.rdyTail q = some rp then s.setTail q place else s

/--
`dequeue`. There is no next state when the stack of a kernel task has overrun, when the list does
not exist, or when the search goes round in circles.
-/
def dequeue (rp : ProcPtr) (s : Kernel) : Option Kernel :=
  let q : Queue := ((s.proc rp).priority, (s.proc rp).scheduler)
  if iskerneln (s.proc rp).nr ∧ !(s.priv (s.proc rp).priv).stackGuard then none
  else if InRange q then do
    let (place, x) ←
      seek (fun r => (s.proc r).nextready) (fun r => r = rp) loopLimit none (s.rdyHead q)
    match x with
    | none => some s
    | some _ =>
      let s := s.removeReady q rp place
      if s.procPtr = some rp ∨ s.nextPtr = some rp then some (pickProc s) else some s
  else none

/-- `restart`, up to the process that continues. -/
def restart (s : Kernel) : Kernel :=
  match s.nextPtr with
  | some rp => { s with procPtr := some rp, nextPtr := none }
  | none => s

/-! ## what `pick_proc` picks -/

section Simp

variable {s : Kernel} {q : Queue} {rp : ProcPtr} {x place : Option ProcPtr}

@[simp] theorem Kernel.setNext_proc : (s.setNext rp).proc = s.proc := rfl

@[simp] theorem Kernel.setNext_rdyHead : (s.setNext rp).rdyHead = s.rdyHead := rfl

@[simp] theorem Kernel.setNext_rdyTail : (s.setNext rp).rdyTail = s.rdyTail := rfl

@[simp] theorem pickProc_proc : (pickProc s).proc = s.proc := by
  unfold pickProc
  split <;> rfl

@[simp] theorem pickProc_priv : (pickProc s).priv = s.priv := by
  unfold pickProc
  split <;> rfl

@[simp] theorem pickProc_rdyHead : (pickProc s).rdyHead = s.rdyHead := by
  unfold pickProc
  split <;> rfl

@[simp] theorem pickProc_rdyTail : (pickProc s).rdyTail = s.rdyTail := by
  unfold pickProc
  split <;> rfl

@[simp] theorem pickProc_procPtr : (pickProc s).procPtr = s.procPtr := by
  unfold pickProc
  split <;> rfl

@[simp] theorem Kernel.setNextready_rdyHead : (s.setNextready rp x).rdyHead = s.rdyHead := rfl

@[simp] theorem Kernel.setNextready_rdyTail : (s.setNextready rp x).rdyTail = s.rdyTail := rfl

@[simp] theorem Kernel.setNextready_procPtr : (s.setNextready rp x).procPtr = s.procPtr := rfl

@[simp] theorem Kernel.setNextready_nextPtr : (s.setNextready rp x).nextPtr = s.nextPtr := rfl

@[simp] theorem Kernel.setReadyLink_procPtr : (s.setReadyLink q place x).procPtr = s.procPtr := by
  cases place <;> rfl

@[simp] theorem Kernel.setReadyLink_nextPtr : (s.setReadyLink q place x).nextPtr = s.nextPtr := by
  cases place <;> rfl

@[simp] theorem Kernel.setReadyLink_rdyTail : (s.setReadyLink q place x).rdyTail = s.rdyTail := by
  cases place <;> rfl

@[simp] theorem Kernel.removeReady_procPtr : (s.removeReady q rp place).procPtr = s.procPtr := by
  unfold Kernel.removeReady
  dsimp only
  split
  · exact Kernel.setReadyLink_procPtr
  · exact Kernel.setReadyLink_procPtr

@[simp] theorem Kernel.removeReady_nextPtr : (s.removeReady q rp place).nextPtr = s.nextPtr := by
  unfold Kernel.removeReady
  dsimp only
  split
  · exact Kernel.setReadyLink_nextPtr
  · exact Kernel.setReadyLink_nextPtr

end Simp

/-! ## what the two do -/

section Cases

variable {s s' : Kernel} {rp : ProcPtr}

/-- The list a process is on while it is runnable. -/
def Kernel.queueOf (s : Kernel) (rp : ProcPtr) : Queue :=
  ((s.proc rp).priority, (s.proc rp).scheduler)

theorem dequeue_cases (h : dequeue rp s = some s') :
    InRange (s.queueOf rp) ∧ ∃ place x,
      seek (fun r => (s.proc r).nextready) (fun r => r = rp) loopLimit none
        (s.rdyHead (s.queueOf rp)) = some (place, x) ∧
      ((x = none ∧ s' = s) ∨
        (x = some rp ∧ (s.procPtr = some rp ∨ s.nextPtr = some rp) ∧
          s' = pickProc (s.removeReady (s.queueOf rp) rp place)) ∨
        (x = some rp ∧ ¬ (s.procPtr = some rp ∨ s.nextPtr = some rp) ∧
          s' = s.removeReady (s.queueOf rp) rp place)) := by
  unfold dequeue at h
  dsimp only at h
  split at h
  · cases h
  · split at h
    · next hrange =>
      obtain ⟨⟨place, x⟩, hseek, h⟩ := Option.bind_eq_some_iff.mp h
      refine ⟨hrange, place, x, hseek, ?_⟩
      cases x with
      | none =>
        cases h
        exact Or.inl ⟨rfl, rfl⟩
      | some c =>
        have hc : c = rp := by simpa using seek_found hseek
        dsimp only at h
        rw [Kernel.removeReady_procPtr, Kernel.removeReady_nextPtr] at h
        right
        split at h
        · next hactive =>
          cases h
          exact Or.inl ⟨by rw [hc], hactive, rfl⟩
        · next hactive =>
          cases h
          exact Or.inr ⟨by rw [hc], hactive, rfl⟩
    · cases h

end Cases

end Minix
