import Bambinos.Minix.Boot

/-!
# The ready lists in every run of the kernel

* `Op` — what the kernel does at a trap, an interrupt or a kernel call
* `QueuesOk` — what the ready lists and the priorities are to be like
* `queues_ok` — they are in every run in which no process forks while others are queued at it
* `fork_copies_queue` — otherwise a process can be woken twice, and its list becomes a circle
-/

namespace Minix

open Infra

/-! ## runs -/

inductive Op where
  | sysCall (callerPtr : ProcPtr) (function : Function) (srcDstE : Int) (nonBlocking : Bool)
  | lockNotify (srcE dstE : Int)
  | doNice (endpt pri : Int)
  | doSetscheduler (endpt policy : Int)
  | doClocktick
  | balanceQueues
  | doFork (endpt slot : Int)
  | doNewmap (endpt : Int) (mapped : Bool)
  | doExit (whoP endpt : Int)
  | clockHandler (ticks : Int) (timeout : Bool)
  | restart
deriving DecidableEq, Repr

def Op.run (s : Kernel) : Op → Option Kernel
  | .sysCall callerPtr function srcDstE nonBlocking =>
    (Minix.sysCall callerPtr function srcDstE nonBlocking s).map Prod.snd
  | .lockNotify srcE dstE => (Minix.lockNotify srcE dstE s).map Prod.snd
  | .doNice endpt pri => (Minix.doNice endpt pri s).map Prod.snd
  | .doSetscheduler endpt policy => (Minix.doSetscheduler endpt policy s).map Prod.snd
  | .doClocktick => Minix.doClocktick s
  | .balanceQueues => Minix.balanceQueues s
  | .doFork endpt slot => (Minix.doFork endpt slot s).map Prod.snd
  | .doNewmap endpt mapped => (Minix.doNewmap endpt mapped s).map Prod.snd
  | .doExit whoP endpt => (Minix.doExit whoP endpt s).map Prod.snd
  | .clockHandler ticks timeout => Minix.clockHandler ticks timeout s
  | .restart => some (Minix.restart s)

/-- When it happens: the process that traps is running, hence ready; the policies are the known ones;
the process that used up its quantum is ready still. -/
def Op.Allowed (s : Kernel) : Op → Prop
  | .sysCall callerPtr _ _ _ => (s.proc callerPtr).rtsFlags = ∅
  | .doSetscheduler _ policy => SCHED_FIFO ≤ policy ∧ policy ≤ SCHED_OTHER
  | .doClocktick => ∀ rp ∈ s.prevPtr, (s.proc rp).rtsFlags = ∅
  | _ => True

instance (s : Kernel) (op : Op) : Decidable (op.Allowed s) :=
  match op with
  | .sysCall callerPtr .. => inferInstanceAs (Decidable ((s.proc callerPtr).rtsFlags = ∅))
  | .doSetscheduler _ policy =>
    inferInstanceAs (Decidable (SCHED_FIFO ≤ policy ∧ policy ≤ SCHED_OTHER))
  | .doClocktick => inferInstanceAs (Decidable (∀ rp ∈ s.prevPtr, (s.proc rp).rtsFlags = ∅))
  | .lockNotify .. | .doNice .. | .balanceQueues | .doFork .. | .doNewmap .. | .doExit ..
  | .clockHandler .. | .restart => inferInstanceAs (Decidable True)

/-- A process that forks has no queue of callers, and is not `IDLE`. -/
def Op.Clean (s : Kernel) : Op → Prop
  | .doFork endpt _ => CleanFork s endpt
  | _ => True

instance (s : Kernel) (op : Op) : Decidable (op.Clean s) :=
  match op with
  | .doFork endpt _ => inferInstanceAs (Decidable (CleanFork s endpt))
  | .sysCall .. | .lockNotify .. | .doNice .. | .doSetscheduler .. | .doClocktick | .balanceQueues
  | .doNewmap .. | .doExit .. | .clockHandler .. | .restart => inferInstanceAs (Decidable True)

/-- The states that are reached from the booted kernel by operations that meet a condition. -/
inductive Run (cond : Kernel → Op → Prop) : Kernel → Prop
  | boot {s : Kernel} (h : boot = some s) : Run cond s
  | step {s s' : Kernel} {op : Op} (h : Run cond s) (hallowed : op.Allowed s) (hcond : cond s op)
      (hstep : op.run s = some s') : Run cond s'

/-! ## the property -/

/-- The ready lists and the priorities are as they are to be. -/
structure QueuesOk (s : Kernel) : Prop where
  /-- The lists end, their tails are right, and a process is on one exactly if it is runnable and the
  list is the one of its priority and policy; then it is there once. -/
  lists : ∃ L : Queue → List ProcPtr, ∀ q, InRange q →
    Chain (fun r => (s.proc r).nextready) (s.rdyHead q) (L q) ∧
      (L q ≠ [] → s.rdyTail q = (L q).getLast?) ∧
      ∀ r, (L q).count r = if (s.proc r).rtsFlags = ∅ ∧ s.queueOf r = q then 1 else 0
  /-- That list exists. -/
  inRange : ∀ r, (s.proc r).rtsFlags = ∅ → InRange (s.queueOf r)
  range : InPriorityRange s

variable {s s' : Kernel}

/-- Who is on a list. -/
theorem Runnable.mem_iff (h : Runnable s) {L : Queue → List ProcPtr} (hL : ReadyLists s L)
    {q : Queue} {r : ProcPtr} : r ∈ L q ↔ (s.proc r).rtsFlags = ∅ ∧ s.queueOf r = q := by
  obtain ⟨L', hL', hR⟩ := h
  have heq := (hL.chain q).unique (hL'.chain q)
  rw [heq]
  constructor
  · intro hr
    have hkey := hL'.key q r hr
    refine ⟨(hR r).mp ?_, hkey⟩
    rwa [hkey]
  · rintro ⟨hflags, rfl⟩
    exact (hR r).mpr hflags

theorem Consistent.queuesOk (h : Consistent s) : QueuesOk s := by
  obtain ⟨L, hL, -⟩ := id h.runnable
  have hmem := fun q r => h.runnable.mem_iff hL (q := q) (r := r)
  refine ⟨⟨L, fun q _ => ⟨hL.chain q, hL.tail q, fun r => ?_⟩⟩, fun r hr => ?_, h.range⟩
  · split
    · next hr => exact List.count_eq_one_of_mem (hL.chain q).nodup ((hmem q r).mpr hr)
    · next hr => exact List.count_eq_zero_of_not_mem fun h => hr ((hmem q r).mp h)
  · exact hL.inRange _ (List.ne_nil_of_mem ((hmem _ r).mpr ⟨hr, rfl⟩))

/-- What one operation keeps. -/
theorem Consistent.op {op : Op} (h : Consistent s) (hallowed : op.Allowed s) (hclean : op.Clean s)
    (hstep : op.run s = some s') : Consistent s' := by
  cases op with
  | sysCall callerPtr function srcDstE nonBlocking =>
    obtain ⟨⟨e, s₁⟩, hrun, rfl⟩ := Option.map_eq_some_iff.mp hstep
    exact h.sysCall hallowed hrun
  | lockNotify srcE dstE =>
    obtain ⟨⟨e, s₁⟩, hrun, rfl⟩ := Option.map_eq_some_iff.mp hstep
    exact h.lockNotify hrun
  | doNice endpt pri =>
    obtain ⟨⟨e, s₁⟩, hrun, rfl⟩ := Option.map_eq_some_iff.mp hstep
    exact h.doNice hrun
  | doSetscheduler endpt policy =>
    obtain ⟨⟨e, s₁⟩, hrun, rfl⟩ := Option.map_eq_some_iff.mp hstep
    exact h.doSetscheduler hrun
  | doClocktick => exact h.doClocktick hallowed hstep
  | balanceQueues => exact h.balanceQueues hstep
  | doFork endpt slot =>
    obtain ⟨⟨e, s₁⟩, hrun, rfl⟩ := Option.map_eq_some_iff.mp hstep
    exact h.doFork hclean hrun
  | doNewmap endpt mapped =>
    obtain ⟨⟨e, s₁⟩, hrun, rfl⟩ := Option.map_eq_some_iff.mp hstep
    exact h.doNewmap hrun
  | doExit whoP endpt =>
    obtain ⟨⟨e, s₁⟩, hrun, rfl⟩ := Option.map_eq_some_iff.mp hstep
    exact h.doExit hrun
  | clockHandler ticks timeout => exact h.clockHandler hstep
  | restart =>
    cases hstep
    refine h.of_proc_eq ?_ ?_ ?_ <;> unfold Minix.restart <;> split <;> rfl

theorem Run.consistent (h : Run Op.Clean s) : Consistent s := by
  induction h with
  | boot h => exact boot_consistent h
  | step _ hallowed hclean hstep ih => exact ih.op hallowed hclean hstep

/--
**The ready lists.** In every run of the kernel in which no process forks while others are queued at
it, and `IDLE` does not fork, the lists and the priorities are as they are to be in every state.
-/
theorem queues_ok (h : Run Op.Clean s) : QueuesOk s := h.consistent.queuesOk

/-! ## computing a run -/

/-- The state behind the given operations, if each meets the condition and has a next state. -/
def execute (cond : Kernel → Op → Prop) [∀ s op, Decidable (cond s op)] :
    List Op → Kernel → Option Kernel
  | [], s => some s
  | op :: ops, s =>
    if op.Allowed s ∧ cond s op then (op.run s).bind (execute cond ops) else none

theorem execute_run {cond : Kernel → Op → Prop} [∀ s op, Decidable (cond s op)] :
    ∀ {ops : List Op} {s s' : Kernel}, Run cond s → execute cond ops s = some s' → Run cond s'
  | [], s, s', h, hrun => by
    cases hrun
    exact h
  | op :: ops, s, s', h, hrun => by
    unfold execute at hrun
    split at hrun
    · next hcond =>
      obtain ⟨s₁, hstep, hrun⟩ := Option.bind_eq_some_iff.mp hrun
      exact execute_run (.step h hcond.1 hcond.2 hstep) hrun
    · cases hrun

/-- The process manager, the file system and `init` in the process table, and the first free slot. -/
def pmProc : ProcPtr := 4

def fsProc : ProcPtr := 5

def initProc : ProcPtr := 11

def freeProc : ProcPtr := 12

/-- `init` forks while it waits for the process manager, and its child starts. -/
def forkOps : List Op :=
  [.sysCall initProc .sendrec PM_PROC_NR false, .sysCall pmProc .receive ANY false,
   .doFork INIT_PROC_NR 8, .doNewmap (mkEndpoint 1 8) true,
   .sysCall pmProc .send (mkEndpoint 1 8) false, .doNice (mkEndpoint 1 8) 5]

theorem queues_ok_fork : ∃ s₀ s, boot = some s₀ ∧ execute Op.Clean forkOps s₀ = some s ∧
    QueuesOk s := by
  have h : (boot.bind (execute Op.Clean forkOps)).isSome := by
    decide +kernel
  obtain ⟨s, hs⟩ := Option.isSome_iff_exists.mp h
  obtain ⟨s₀, hboot, hexec⟩ := Option.bind_eq_some_iff.mp hs
  exact ⟨s₀, s, hboot, hexec, queues_ok (execute_run (.boot hboot) hexec)⟩

/-! ## a queue that is copied -/

/--
The file system sends to `init` while `init` waits for the process manager, which forks it. Both
`init` and its child have the file system in their queues. When `init` exits, the file system goes
on; when its child sends to it and waits for the answer, it is made ready twice: once for the message
and once as a caller.
-/
def copyOps : List Op :=
  [.doSetscheduler FS_PROC_NR SCHED_RR, .sysCall initProc .sendrec PM_PROC_NR false,
   .sysCall pmProc .receive ANY false, .sysCall fsProc .send INIT_PROC_NR false,
   .doFork INIT_PROC_NR 8, .doNewmap (mkEndpoint 1 8) true,
   .sysCall pmProc .send (mkEndpoint 1 8) false, .doExit PM_PROC_NR INIT_PROC_NR,
   .sysCall fsProc .receive ANY false, .sysCall freeProc .sendrec FS_PROC_NR false]

/-- A node that is its own successor is on no list. -/
theorem not_chain_of_self {α : Type} {next : α → Option α} {a : α} (h : next a = some a)
    (l : List α) : ¬ Chain next (some a) l := by
  intro hchain
  cases hchain with
  | @cons _ l htail =>
    rw [h] at htail
    have hnodup := (Chain.cons (h.symm ▸ htail)).nodup
    have heq := htail.head
    exact (List.nodup_cons.mp hnodup).1 (List.mem_of_mem_head? heq.symm)

/-- **The defect.** The list of the file system is a circle. -/
theorem fork_copies_queue : ∃ s, Run (fun _ _ => True) s ∧ ¬ QueuesOk s := by
  have h : (boot.bind (execute (fun _ _ => True) copyOps)).any fun s =>
      s.rdyHead (4, SCHED_RR) = some fsProc ∧ (s.proc fsProc).nextready = some fsProc := by
    decide +kernel
  obtain ⟨s, hs, hcircle⟩ := (Option.any_eq_true _ _).mp h
  obtain ⟨s₀, hboot, hexec⟩ := Option.bind_eq_some_iff.mp hs
  obtain ⟨hhead, hnext⟩ := of_decide_eq_true hcircle
  refine ⟨s, execute_run (.boot hboot) hexec, fun hok => ?_⟩
  obtain ⟨L, hL⟩ := hok.lists
  have hchain := (hL (4, SCHED_RR) (by decide)).1
  rw [hhead] at hchain
  exact not_chain_of_self hnext _ hchain

end Minix
