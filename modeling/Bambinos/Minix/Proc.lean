import Mathlib
import Bambinos.Infra.Chain

/-!
# The process table of the kernel

* `Proc`, `Priv` — the entries of the process table and of the table of privileges; of the fields
  the registers, the memory map, the accounting and the message buffer are left out
* `Kernel` — the global variables
* `isokendpt` — the process of an endpoint
-/

namespace Minix

open Infra

/-! ## constants -/

abbrev NR_TASKS : Nat := 4

abbrev NR_PROCS : Nat := 100

abbrev NR_SYS_PROCS : Nat := 32

instance : NeZero (NR_TASKS + NR_PROCS) := ⟨by decide⟩

instance : NeZero NR_SYS_PROCS := ⟨by decide⟩

/-- A pointer into `proc`, other than `NIL_PROC`. -/
abbrev ProcPtr := Fin (NR_TASKS + NR_PROCS)

/-- A pointer into `priv`. -/
abbrev PrivPtr := Fin NR_SYS_PROCS

def NR_SCHED_QUEUES : Nat := 16

def NR_SCHED_POLICIES : Nat := 3

def TASK_Q : Int := 0

def MAX_USER_Q : Int := 0

def USER_Q : Int := 7

def MIN_USER_Q : Int := 14

def IDLE_Q : Int := 15

def SCHED_FIFO : Int := 0

def SCHED_RR : Int := 1

def SCHED_OTHER : Int := 2

def ANY : Int := 0x7ace

def NONE : Int := 0x6ace

def SELF : Int := 0x8ace

def IDLE : Int := -4

def CLOCK : Int := -3

def SYSTEM : Int := -2

def HARDWARE : Int := -1

def PM_PROC_NR : Int := 0

def FS_PROC_NR : Int := 1

def RS_PROC_NR : Int := 2

def MEM_PROC_NR : Int := 3

def LOG_PROC_NR : Int := 4

def TTY_PROC_NR : Int := 5

def DS_PROC_NR : Int := 6

def INIT_PROC_NR : Int := 7

/-! ## return values -/

def OK : Int := 0

def EPERM : Int := -1

def EFAULT : Int := -14

def EINVAL : Int := -22

def EDEADSRCDST : Int := -105

def ENOTREADY : Int := -106

def ESRCDIED : Int := -108

def EDSTDIED : Int := -109

def EDONTREPLY : Int := -201

/-! ## the tables -/

/-- The bits of `p_rts_flags`. -/
inductive RtsFlag where
  | slotFree
  | noMap
  | sending
  | receiving
  | signaled
  | sigPending
  | pStop
  | noPriv
  | noPriority
  | noEndpoint
deriving DecidableEq, Repr

/-- The bits of `s_flags` that are looked at. -/
inductive PrivFlag where
  | preemptible
  | billable
  | sysProc
deriving DecidableEq, Repr

/-- `struct proc`. Of `p_misc_flags` only `REPLY_PENDING` is kept. -/
structure Proc where
  nr : Int
  priv : PrivPtr
  rtsFlags : Finset RtsFlag
  replyPending : Bool
  priority : Int
  maxPriority : Int
  ticksLeft : Int
  quantumSize : Int
  nextready : Option ProcPtr
  callerQ : Option ProcPtr
  qLink : Option ProcPtr
  getfromE : Int
  sendtoE : Int
  endpoint : Int
  scheduler : Int

/-- `struct priv`. `stackGuard` says that the guard word of the stack is intact. -/
structure Priv where
  procNr : Int
  flags : Finset PrivFlag
  notifyPending : Finset PrivPtr
  stackGuard : Bool

/-- The index of a ready list: priority and policy. -/
abbrev Queue := Int × Int

/-- The global variables. -/
structure Kernel where
  proc : ProcPtr → Proc
  priv : PrivPtr → Priv
  rdyHead : Queue → Option ProcPtr
  rdyTail : Queue → Option ProcPtr
  procPtr : Option ProcPtr
  nextPtr : Option ProcPtr
  billPtr : Option ProcPtr
  prevPtr : Option ProcPtr

/-- The global variables before `main`: all of them are zero. -/
def bss : Kernel where
  proc _ :=
    { nr := 0, priv := 0, rtsFlags := ∅, replyPending := false, priority := 0, maxPriority := 0
      ticksLeft := 0, quantumSize := 0, nextready := none, callerQ := none, qLink := none
      getfromE := 0, sendtoE := 0, endpoint := 0, scheduler := 0 }
  priv _ := { procNr := 0, flags := ∅, notifyPending := ∅, stackGuard := false }
  rdyHead _ := none
  rdyTail _ := none
  procPtr := none
  nextPtr := none
  billPtr := none
  prevPtr := none

variable {s : Kernel} {rp rp' : ProcPtr} {f : Proc → Proc}

def Kernel.setProc (s : Kernel) (rp : ProcPtr) (f : Proc → Proc) : Kernel :=
  { s with proc := Function.update s.proc rp (f (s.proc rp)) }

@[simp] theorem Kernel.setProc_self : (s.setProc rp f).proc rp = f (s.proc rp) :=
  Function.update_self _ _ _

@[simp] theorem Kernel.setProc_of_ne (h : rp' ≠ rp) : (s.setProc rp f).proc rp' = s.proc rp' :=
  Function.update_of_ne h _ _

@[simp] theorem Kernel.setProc_priv : (s.setProc rp f).priv = s.priv := rfl

@[simp] theorem Kernel.setProc_rdyHead : (s.setProc rp f).rdyHead = s.rdyHead := rfl

@[simp] theorem Kernel.setProc_rdyTail : (s.setProc rp f).rdyTail = s.rdyTail := rfl

@[simp] theorem Kernel.setProc_procPtr : (s.setProc rp f).procPtr = s.procPtr := rfl

@[simp] theorem Kernel.setProc_nextPtr : (s.setProc rp f).nextPtr = s.nextPtr := rfl

theorem Kernel.setProc_eq_self (h : f (s.proc rp) = s.proc rp) : s.setProc rp f = s := by
  unfold Kernel.setProc
  rw [h, Function.update_eq_self]

/-- A field that `f` keeps is kept everywhere. -/
theorem Kernel.setProc_field {β : Type} {g : Proc → β} (h : g (f (s.proc rp)) = g (s.proc rp))
    (r : ProcPtr) : g ((s.setProc rp f).proc r) = g (s.proc r) := by
  by_cases hr : r = rp
  · subst hr
    rw [setProc_self, h]
  · rw [setProc_of_ne hr]

def Kernel.setPriv (s : Kernel) (id : PrivPtr) (f : Priv → Priv) : Kernel :=
  { s with priv := Function.update s.priv id (f (s.priv id)) }

/-! ## process numbers and endpoints -/

/-- `isemptyp`. -/
def Proc.isempty (r : Proc) : Bool := r.rtsFlags = {.slotFree}

/-- `iskerneln`. -/
def iskerneln (n : Int) : Bool := n < 0

/-- `proc_addr`, of a number for which `isokprocn` holds. -/
def procAddr (n : Int) : Option ProcPtr :=
  if h : 0 ≤ n + NR_TASKS ∧ n + NR_TASKS < NR_TASKS + NR_PROCS then
    some ⟨(n + NR_TASKS).toNat, by omega⟩
  else none

def generationSize : Int := NR_TASKS + SELF + 1

def maxGeneration : Int := 2147483647 / generationSize - 1

/-- `_ENDPOINT`. -/
def mkEndpoint (g p : Int) : Int := g * generationSize + p

/-- `_ENDPOINT_G`. -/
def endpointG (e : Int) : Int := (e + NR_TASKS).tdiv generationSize

/-- `_ENDPOINT_P`. -/
def endpointP (e : Int) : Int := (e + NR_TASKS).tmod generationSize - NR_TASKS

/-- The process of an endpoint, if it is alive. -/
def isokendpt (s : Kernel) (e : Int) : Option ProcPtr := do
  let rp ← procAddr (endpointP e)
  if (s.proc rp).isempty then none
  else if (s.proc rp).endpoint ≠ e then none
  else some rp

theorem isokendpt_endpoint {e : Int} (h : isokendpt s e = some rp) :
    (s.proc rp).endpoint = e ∧ (s.proc rp).isempty = false := by
  unfold isokendpt at h
  obtain ⟨r, -, h⟩ := Option.bind_eq_some_iff.mp h
  split at h
  · cases h
  · next hempty =>
    split at h
    · cases h
    · next hne =>
      cases h
      exact ⟨not_not.mp hne, Bool.eq_false_iff.mpr hempty⟩

theorem isokendpt_procAddr {e : Int} (h : isokendpt s e = some rp) :
    procAddr (endpointP e) = some rp := by
  unfold isokendpt at h
  obtain ⟨r, hr, h⟩ := Option.bind_eq_some_iff.mp h
  split at h
  · cases h
  · split at h
    · cases h
    · cases h
      exact hr

/-- The value of a `char`. -/
def toChar (n : Int) : Int := n.bmod 256

end Minix
