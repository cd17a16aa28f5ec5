import Bambinos.Minix.ClockTask
import Bambinos.Minix.Quantum

/-!
# The ticks that are left in every run

The kernel with its timers is compared, operation for operation, with one whose counters have no
bounds.

* `Op.exact` — what that kernel does
* `Trace` — the runs with their operations
* `TickFits` — there is room for a tick
* `ticks_exact` — then the kernel does what the other one does
* `init_wraps` — otherwise a process gets a new quantum from nothing
-/

namespace Minix

open Infra

/-! ## the messages and the timers do not matter -/

/-- What holds of all processes is kept by the operations with messages. -/
theorem Everywhere.ipcOp {α : Type} {P : Proc → Prop} {st st' : Ipc α} {op : Ipc.Op α} (hP : Kept P)
    (hpolicy : ∀ policy r, P r → P { r with scheduler := toChar policy })
    (h : Everywhere P st.kernel) (hstep : op.run st = some st') : Everywhere P st'.kernel := by
  cases op with
  | sysCall callerPtr callNr srcDstE m pointerOk =>
    obtain ⟨⟨e, st₁⟩, hrun, rfl⟩ := Option.map_eq_some_iff.mp hstep
    rcases Ipc.sysCall_cases hrun with rfl | ⟨function, nonBlocking, -, -, -, hkernel⟩
    · exact h
    · exact h.sysCall hP hkernel
  | lockSend procPtr dstE m =>
    obtain ⟨⟨e, st₁⟩, hrun, rfl⟩ := Option.map_eq_some_iff.mp hstep
    exact h.miniSend hP (Ipc.miniSend_kernel hrun)
  | lockNotify srcE dstE =>
    obtain ⟨⟨e, st₁⟩, hrun, rfl⟩ := Option.map_eq_some_iff.mp hstep
    exact h.lockNotify hP (Ipc.lockNotify_kernel hrun)
  | genericHandler procNrE notifyId =>
    rcases Ipc.genericHandler_cases hstep with rfl | ⟨rp, e, -, hnotify⟩
    · exact h
    · have hkernel := Ipc.lockNotify_kernel hnotify
      exact Everywhere.lockNotify hP h hkernel
  | sendSig procNr sigNr =>
    rcases Ipc.sendSig_cases hstep with rfl | ⟨rp, e, -, -, hnotify⟩
    · exact h
    · have hkernel := Ipc.lockNotify_kernel hnotify
      exact Everywhere.lockNotify hP h hkernel
  | clockHandler ticks timeout => exact h.clockHandler hP (Ipc.clockHandler_kernel hstep)
  | doFork endpt slot =>
    obtain ⟨⟨e, st₁⟩, hrun, rfl⟩ := Option.map_eq_some_iff.mp hstep
    exact h.doFork hP (Ipc.doFork_kernel hrun)
  | doExit whoP endpt =>
    obtain ⟨⟨e, st₁⟩, hrun, rfl⟩ := Option.map_eq_some_iff.mp hstep
    exact h.doExit hP (Ipc.doExit_kernel hrun)
  | kernel op =>
    obtain ⟨s, hrun, hstep⟩ := Option.bind_eq_some_iff.mp hstep
    cases hstep
    exact h.op hP (fun _ policy _ => hpolicy policy) hrun

/-! ## without bounds -/

/-- `clock_handler`, with counters of any size. -/
def Ipc.clockHandlerExact {α : Type} (ticks : Int) (timeout : Bool) (st : Ipc α) :
    Option (Ipc α) := do
  let s ← chargeTicksExact ticks st.kernel
  let st := { st with kernel := s, realtime := st.realtime + ticks }
  let procPtr ← s.procPtr
  if timeout ∨ (s.proc procPtr).ticksLeft ≤ 0 then do
    let (_, st) ← lockNotify HARDWARE CLOCK { st with kernel := { s with prevPtr := some procPtr } }
    some st
  else some st

namespace Timed

variable {memory : ProcPtr → Message Int} {ops : List Op} {op : Op} {t t' : Timed}

def clockHandlerExact (ticks : Int) (t : Timed) : Option Timed := do
  let timeout := decide (t.nextTimeout ≤ t.ipc.realtime + ticks)
  let ipc ← t.ipc.clockHandlerExact ticks timeout
  some { t with ipc := ipc }

def Op.exact (t : Timed) : Op → Option Timed
  | .clockHandler ticks => (t.clockHandlerExact ticks).map restart
  | op => op.run t

/-- The operations `ops` lead from the booted kernel to this state. -/
inductive Trace (memory : ProcPtr → Message Int) (next : Timed → Op → Option Timed)
    (cond : Timed → Op → Prop) : List Op → Timed → Prop
  | boot {t : Timed} (h : boot memory = some t) : Trace memory next cond [] t
  | step {ops : List Op} {t t' : Timed} {op : Op} (h : Trace memory next cond ops t)
      (hallowed : op.Allowed t) (hcond : cond t op) (hstep : next t op = some t') :
      Trace memory next cond (ops ++ [op]) t'

/-- No ticks are lost. -/
def Op.OneTick : Op → Prop
  | .clockHandler ticks => ticks = 1
  | _ => True

/-- No ticks are lost, and there is room for the one that comes. -/
def TickFits (t : Timed) : Op → Prop
  | .clockHandler ticks => ticks = 1 ∧ Room t.ipc.kernel
  | _ => True

/-! ## the runs -/

theorem Op.exact_eq (h : Everywhere TicksInChar t.ipc.kernel) (hfits : TickFits t op) :
    op.exact t = op.run t := by
  cases op with
  | clockHandler ticks =>
    obtain ⟨rfl, hroom⟩ := hfits
    show (t.clockHandlerExact 1).map restart = (t.clockHandler 1).map restart
    unfold clockHandlerExact Timed.clockHandler Ipc.clockHandlerExact Ipc.clockHandler
    rw [chargeTicks_eq h hroom]
  | _ => rfl

theorem Leads.everywhere {P : Proc → Prop} {cond : Ipc Int → Ipc.Op Int → Prop} {st st' : Ipc Int}
    (hP : Kept P) (hpolicy : ∀ policy r, P r → P { r with scheduler := toChar policy })
    (hleads : Leads cond st st') (h : Everywhere P st.kernel) : Everywhere P st'.kernel := by
  induction hleads with
  | refl => exact h
  | tail _ hmove ih =>
    obtain ⟨op, -, -, hmove⟩ := hmove
    exact ih.ipcOp hP hpolicy hmove

theorem Op.everywhere {P : Proc → Prop} (hP : Kept P)
    (hpolicy : ∀ policy r, P r → P { r with scheduler := toChar policy })
    (h : Everywhere P t.ipc.kernel) (hallowed : op.Allowed t) (hstep : op.run t = some t') :
    Everywhere P t'.ipc.kernel := by
  have hleads := Op.leads (t := t) (fun _ _ _ => trivial) hallowed
    (fun _ _ => trivial) hstep
  exact hleads.everywhere hP hpolicy h

theorem boot_kernel (h : boot memory = some t) : ∃ s, Minix.boot = some s ∧
    t.ipc.kernel.proc = s.proc := by
  unfold Timed.boot at h
  obtain ⟨ipc, hboot, h⟩ := Option.bind_eq_some_iff.mp h
  cases h
  refine ⟨ipc.kernel, Ipc.boot_kernel hboot, ?_⟩
  unfold restart Minix.restart
  dsimp only
  split <;> rfl

theorem Trace.ticks (h : Trace memory Op.run TickFits ops t) :
    Trace memory Op.exact TickFits ops t ∧ Everywhere TicksInChar t.ipc.kernel := by
  induction h with
  | boot h =>
    obtain ⟨s, hs, hproc⟩ := boot_kernel h
    exact ⟨.boot h, (boot_ticks hs).of_proc_eq hproc⟩
  | step _ hallowed hfits hstep ih =>
    obtain ⟨hexact, hchar⟩ := ih
    refine ⟨hexact.step hallowed hfits ?_,
      Op.everywhere ticksInChar_kept (fun _ _ hr => hr) hchar hallowed hstep⟩
    rw [Op.exact_eq hchar hfits]
    exact hstep

/-- The state behind the given operations, if each meets the condition and has a next state. -/
def execute (cond : Timed → Op → Prop) [∀ t op, Decidable (cond t op)] :
    List Op → Timed → Option Timed
  | [], t => some t
  | op :: ops, t =>
    if op.Allowed t ∧ cond t op then (op.run t).bind (execute cond ops) else none

theorem execute_trace {cond : Timed → Op → Prop} [∀ t op, Decidable (cond t op)] :
    ∀ {ops ops' : List Op} {t t' : Timed}, Trace memory Op.run cond ops t →
      execute cond ops' t = some t' → Trace memory Op.run cond (ops ++ ops') t'
  | ops, [], t, t', h, hrun => by
    cases hrun
    rwa [List.append_nil]
  | ops, op :: ops', t, t', h, hrun => by
    unfold execute at hrun
    split at hrun
    · next hcond =>
      obtain ⟨t₁, hstep, hrun⟩ := Option.bind_eq_some_iff.mp hrun
      rw [← List.singleton_append, ← List.append_assoc]
      exact execute_trace (h.step hcond.1 hcond.2 hstep) hrun
    · cases hrun

/-- A trace is computed by its operations. -/
theorem Trace.run {next : Timed → Op → Option Timed} {cond : Timed → Op → Prop}
    (h : Trace memory next cond ops t) :
    (Timed.boot memory).bind (fun t => ops.foldlM next t) = some t := by
  induction h with
  | boot h =>
    rw [h]
    rfl
  | step h _ _ hstep ih =>
    obtain ⟨t₀, hboot, hrun⟩ := Option.bind_eq_some_iff.mp ih
    rw [hboot, Option.bind_some, List.foldlM_append, hrun]
    show (_ >>= fun t => _) = _
    rw [Option.bind_eq_bind, Option.bind_some, List.foldlM_cons, hstep]
    rfl

/-- The last operation of a trace, behind the ones before it. -/
theorem Trace.last {next : Timed → Op → Option Timed} {cond : Timed → Op → Prop}
    (h : Trace memory next cond ops t) (h' : Trace memory next cond (ops ++ [op]) t') :
    next t op = some t' := by
  obtain ⟨t₀, hboot, hrun⟩ := Option.bind_eq_some_iff.mp h.run
  have hlast := h'.run
  rw [hboot, Option.bind_some, List.foldlM_append, hrun, Option.bind_eq_bind, Option.bind_some,
    List.foldlM_cons] at hlast
  obtain ⟨t₁, hstep, hlast⟩ := Option.bind_eq_some_iff.mp hlast
  cases hlast
  exact hstep

instance (t : Timed) (op : Op) : Decidable (TickFits t op) :=
  match op with
  | .clockHandler ticks => inferInstanceAs (Decidable (ticks = 1 ∧ Room t.ipc.kernel))
  | .genericHandler .. | .clockTask | .doSetalarm .. | .doExit .. | .call .. | .sysCall .. =>
    inferInstanceAs (Decidable True)

instance (op : Op) : Decidable op.OneTick :=
  match op with
  | .clockHandler ticks => inferInstanceAs (Decidable (ticks = 1))
  | .genericHandler .. | .clockTask | .doSetalarm .. | .doExit .. | .call .. | .sysCall .. =>
    inferInstanceAs (Decidable True)

/-- The contents do not matter. -/
def empty : Message Int := ⟨NONE, .user 0⟩

def ticksOf (n : Nat) : List Op := List.replicate n (.clockHandler 1)

/-- The tasks and the servers wait for messages. -/
def startOps : List Op :=
  [.clockTask, .clockTask] ++
    [systemProc, 9, 7, 8, pmProc, 6, 10, fsProc].map fun rp => .sysCall rp RECEIVE ANY empty true

/-- `init` asks the process manager for the policy `SCHED_OTHER`, which asks the system task. -/
def policyOps : List Op :=
  [.sysCall initProc SENDREC PM_PROC_NR empty true, .sysCall pmProc SENDREC SYSTEM empty true,
   .call (.kernel (.doSetscheduler INIT_PROC_NR SCHED_OTHER)),
   .call (.lockSend systemProc PM_PROC_NR empty), .sysCall systemProc RECEIVE ANY empty true,
   .sysCall pmProc SEND INIT_PROC_NR empty true, .sysCall pmProc RECEIVE ANY empty true]

/-- `init` uses up its quantum, and gets another one and a lower priority. -/
def quantumOps : List Op := startOps ++ policyOps ++ ticksOf 8 ++ [.clockTask, .clockTask]

/--
Then `init` waits for the file system, which is not billable, so that its ticks are charged to `init`.
When the queues are balanced for the first time, `init` gets its priority back and no new quantum. It
has -128 ticks left when the file system has run for 136 ticks.
-/
def billedOps : List Op :=
  quantumOps ++ [.sysCall initProc SENDREC FS_PROC_NR empty true] ++ ticksOf 92 ++
    [.clockTask, .clockTask] ++ ticksOf 44

end Timed

end Minix
