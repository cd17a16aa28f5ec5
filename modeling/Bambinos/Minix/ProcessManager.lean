import Bambinos.Minix.Policy

/-!
# The process manager

* `Mproc` — its process table; of the fields the memory map, the times, the signals, the groups of
  users and the message of the reply are left out
* `System` — the kernel and the process manager
* `getsetscheduler`, `fork`, `pmExit`, `waitpid` — the calls that it serves, with the kernel calls
  that they make
* `System.Reached` — the states behind any sequence of calls and of operations of the kernel
-/

namespace Minix

open Infra

/-! ## constants -/

def SUPER_USER : Int := 0

def LAST_FEW : Nat := 2

def NR_PIDS : Int := 30000

def PM_PID : Int := 0

def INIT_PID : Int := 1

def ESRCH : Int := -3

def ECHILD : Int := -10

def EAGAIN : Int := -11

def ENOMEM : Int := -12

def EACCES : Int := -13

def SUSPEND : Int := -998

/-! ## the tables -/

/-- The bits of `mp_flags` that are looked at, or that a child inherits. -/
inductive MprocFlag where
  | inUse
  | waiting
  | zombie
  | separate
  | reply
  | dontSwap
  | privProc
deriving DecidableEq, Repr

/-- An index into `mproc`. -/
abbrev MprocNr := Fin NR_PROCS

/-- `struct mproc`. -/
structure Mproc where
  pid : Int
  endpoint : Int
  procgrp : Int
  wpid : Int
  parent : MprocNr
  realuid : Int
  effuid : Int
  flags : Finset MprocFlag
  schedPolicy : Int

/-- The variables of the process manager. -/
structure Pm where
  mproc : MprocNr → Mproc
  procsInUse : Nat
  nextChild : Nat
  nextPid : Int

structure System where
  kernel : Kernel
  pm : Pm

def pmNr : MprocNr := 0

def rsNr : MprocNr := 2

def initNr : MprocNr := 7

/-- The entry of the process in the table of the kernel. -/
def procOf (n : MprocNr) : ProcPtr := ⟨n.val + NR_TASKS, by omega⟩

def Pm.set (pm : Pm) (n : MprocNr) (f : Mproc → Mproc) : Pm :=
  { pm with mproc := Function.update pm.mproc n (f (pm.mproc n)) }

/-- `setreply`, without the message. -/
def Pm.setreply (pm : Pm) (n : MprocNr) : Pm :=
  pm.set n fun r => { r with flags := insert .reply r.flags }

/-- `get_free_pid`. Of `fuel` numbers one is free. -/
def Pm.getFreePid (pm : Pm) : Nat → Option (Int × Pm)
  | 0 => none
  | fuel + 1 =>
    let nextPid := if pm.nextPid < NR_PIDS then pm.nextPid + 1 else INIT_PID + 1
    let pm := { pm with nextPid := nextPid }
    if ∃ n, (pm.mproc n).pid = nextPid ∨ (pm.mproc n).procgrp = nextPid then pm.getFreePid fuel
    else some (nextPid, pm)

/-- More numbers than are in use. -/
def pidLimit : Nat := 2 * NR_PROCS + 1

/-- `proc_from_pid`. -/
def Pm.procFromPid (pm : Pm) (pid : Int) : Option MprocNr :=
  (List.finRange NR_PROCS).find? fun n => (pm.mproc n).pid = pid

/-! ## `pm_init` -/

/-- The table before `pm_init`. -/
def Pm.cleared : Pm where
  mproc _ :=
    { pid := 0, endpoint := 0, procgrp := 0, wpid := 0, parent := 0, realuid := 0, effuid := 0
      flags := ∅, schedPolicy := 0 }
  procsInUse := 0
  nextChild := 0
  nextPid := INIT_PID + 1

/-- A turn of the loop over the processes of the boot image. -/
def Pm.initProcess (kernel : Kernel) (pm : Pm) (ip : BootImage) : Option Pm :=
  if h : 0 ≤ ip.procNr ∧ ip.procNr < NR_PROCS then do
    let rmp : MprocNr := ⟨ip.procNr.toNat, by omega⟩
    let pm := { pm with procsInUse := pm.procsInUse + 1 }
    let pm := pm.set rmp fun r => { r with parent := rsNr, schedPolicy := SCHED_OTHER }
    let pm ←
      if ip.procNr = INIT_PROC_NR then
        some (pm.set rmp fun r =>
          { r with procgrp := INIT_PID, pid := INIT_PID, flags := insert .inUse r.flags })
      else do
        let (pid, pm) ← pm.getFreePid pidLimit
        some (pm.set rmp fun r =>
          { r with pid := pid, flags := r.flags ∪ {.inUse, .dontSwap, .privProc} })
    some (pm.set rmp fun r => { r with endpoint := (kernel.proc (procOf rmp)).endpoint })
  else some pm

def pmInit (kernel : Kernel) : Option Pm := do
  let pm ← image.foldlM (fun pm ip => Pm.initProcess kernel pm ip) Pm.cleared
  let pm := pm.set pmNr fun r => { r with pid := PM_PID }
  some (pm.set rsNr fun r => { r with parent := initNr })

/-- The system behind the start of the kernel and of the process manager. -/
def System.boot : Option System := do
  let kernel ← Minix.boot
  let pm ← pmInit kernel
  some ⟨kernel, pm⟩

/-! ## `do_getsetscheduler` -/

/-- The process that a call is about. -/
def Pm.target (pm : Pm) (whoP : MprocNr) (who : Int) : Option MprocNr :=
  if who = 0 then some whoP else pm.procFromPid who

/-- `do_getsetscheduler`; `set` tells `SETSCHEDULER` from `GETSCHEDULER`. -/
def System.getsetscheduler (set : Bool) (whoP : MprocNr) (policy who : Int) (σ : System) :
    Option (Int × System) :=
  match σ.pm.target whoP who with
  | none => some (ESRCH, σ)
  | some n =>
    let mp := σ.pm.mproc whoP
    let rmp := σ.pm.mproc n
    if mp.effuid ≠ SUPER_USER ∧ mp.effuid ≠ rmp.effuid ∧ mp.effuid ≠ rmp.realuid then
      some (EPERM, σ)
    else if !set then some (rmp.schedPolicy, σ)
    else if mp.effuid ≠ SUPER_USER then some (EACCES, σ)
    else do
      let pm := σ.pm.set n fun r => { r with schedPolicy := policy }
      let (r, kernel) ← doSetscheduler rmp.endpoint policy σ.kernel
      some (r, ⟨kernel, pm⟩)

/-! ## `do_fork` -/

/-- `next_child = (next_child + 1) % NR_PROCS`, done once more than `i` times. -/
def Pm.slotBehind (pm : Pm) (i : MprocNr) : MprocNr :=
  ⟨(pm.nextChild + 1 + i.val) % NR_PROCS, Nat.mod_lt _ (by decide)⟩

/-- The first slot behind `next_child` that is free. -/
def Pm.findChild (pm : Pm) : Option MprocNr :=
  ((List.finRange NR_PROCS).map pm.slotBehind).find? fun n => .inUse ∉ (pm.mproc n).flags

/-- `do_fork`; `memory` says that there is memory for the child, and `mapped` that its map is at a
valid address. -/
def System.fork (memory mapped : Bool) (whoP : MprocNr) (σ : System) : Option (Int × System) :=
  let rmp := σ.pm.mproc whoP
  if σ.pm.procsInUse = NR_PROCS ∨
      (σ.pm.procsInUse ≥ NR_PROCS - LAST_FEW ∧ rmp.effuid ≠ SUPER_USER) then some (EAGAIN, σ)
  else if !memory then some (ENOMEM, σ)
  else do
    let child ← σ.pm.findChild
    let pm := { σ.pm with nextChild := child.val, procsInUse := σ.pm.procsInUse + 1 }
    let pm := pm.set child fun _ =>
      { rmp with parent := whoP, flags := rmp.flags ∩ {.inUse, .separate, .privProc, .dontSwap} }
    let (pid, pm) ← pm.getFreePid pidLimit
    let pm := pm.set child fun r => { r with pid := pid }
    let (r, kernel) ← doFork rmp.endpoint child.val σ.kernel
    let endpoint := (kernel.proc (procOf child)).endpoint
    let pm := pm.set child fun r => { r with endpoint := endpoint }
    if r ≠ OK then none
    else do
      let (r, kernel) ← doNewmap endpoint mapped kernel
      if r ≠ OK then none
      else some (pid, ⟨kernel, pm.setreply child⟩)

/-! ## `pm_exit` and `do_waitpid` -/

def Pm.cleanup (pm : Pm) (child : MprocNr) : Pm :=
  let parent := (pm.mproc child).parent
  let pm := (pm.setreply parent).set parent fun r => { r with flags := r.flags.erase .waiting }
  let pm := pm.set child fun r => { r with pid := 0, flags := ∅ }
  { pm with procsInUse := pm.procsInUse - 1 }

/-- A child of the process `procNr` that exits gets a new parent. -/
def Pm.disinherit (procNr : MprocNr) (pm : Pm) (rmp : MprocNr) : Pm :=
  if .inUse ∈ (pm.mproc rmp).flags ∧ (pm.mproc rmp).parent = procNr then
    let pm := pm.set rmp fun r => { r with parent := initNr }
    if .waiting ∈ (pm.mproc initNr).flags ∧ .zombie ∈ (pm.mproc rmp).flags then pm.cleanup rmp
    else pm
  else pm

/-- The process is freed if its parent waits for it, and is a zombie otherwise. -/
def Pm.bury (pm : Pm) (n : MprocNr) : Pm :=
  let rmp := pm.mproc n
  let parent := pm.mproc rmp.parent
  if .waiting ∈ parent.flags ∧
      (parent.wpid = -1 ∨ parent.wpid = rmp.pid ∨ -parent.wpid = rmp.procgrp) then pm.cleanup n
  else pm.set n fun r => { r with flags := {.inUse, .zombie} }

/-- `pm_exit`; the signals that it sends are steps of their own. -/
def System.pmExit (n : MprocNr) (σ : System) : Option System := do
  let endpoint := (σ.pm.mproc n).endpoint
  let (_, kernel) ← doNice endpoint PRIO_STOP σ.kernel
  let (r, kernel) ← doExit PM_PROC_NR endpoint kernel
  if r ≠ OK then none
  else
    let pm := σ.pm.set n fun r => { r with flags := r.flags.erase .reply }
    some ⟨kernel, (List.finRange NR_PROCS).foldl (fun pm r => Pm.disinherit n pm r) (pm.bury n)⟩

/-- `do_waitpid`; children that are traced are left out. -/
def System.waitpid (whoP : MprocNr) (pid : Int) (nohang : Bool) (σ : System) : Int × System :=
  let mp := σ.pm.mproc whoP
  let pidarg := if pid = 0 then -mp.procgrp else pid
  let children := (List.finRange NR_PROCS).filter fun n =>
    let rp := σ.pm.mproc n
    (.inUse ∈ rp.flags ∧ rp.parent = whoP) ∧ ¬ (pidarg > 0 ∧ pidarg ≠ rp.pid) ∧
      ¬ (pidarg < -1 ∧ -pidarg ≠ rp.procgrp)
  match children.find? fun n => .zombie ∈ (σ.pm.mproc n).flags with
  | some n => (SUSPEND, { σ with pm := σ.pm.cleanup n })
  | none =>
    if children ≠ [] then
      if nohang then (0, σ)
      else
        (SUSPEND, { σ with pm := σ.pm.set whoP fun r =>
          { r with flags := insert .waiting r.flags, wpid := pidarg } })
    else (ECHILD, σ)

/-- `do_getset` for `SETUID`. -/
def System.setuid (whoP : MprocNr) (usrId : Int) (σ : System) : Int × System :=
  let rmp := σ.pm.mproc whoP
  if rmp.realuid ≠ usrId ∧ rmp.effuid ≠ SUPER_USER then (EPERM, σ)
  else (OK, { σ with pm := σ.pm.set whoP fun r => { r with realuid := usrId, effuid := usrId } })

/-! ## runs -/

/-- What happens in the system: an operation of the kernel, or a call that a process makes. A process
also exits when a signal kills it. -/
inductive Act where
  | kernel (op : Op)
  | getsetscheduler (set : Bool) (whoP : MprocNr) (policy who : Int)
  | fork (memory mapped : Bool) (whoP : MprocNr)
  | pmExit (n : MprocNr)
  | waitpid (whoP : MprocNr) (pid : Int) (nohang : Bool)
  | setuid (whoP : MprocNr) (usrId : Int)
deriving DecidableEq, Repr

def Act.run (σ : System) : Act → Option System
  | .kernel op => (op.run σ.kernel).map fun kernel => { σ with kernel := kernel }
  | .getsetscheduler set whoP policy who =>
    (σ.getsetscheduler set whoP policy who).map Prod.snd
  | .fork memory mapped whoP => (σ.fork memory mapped whoP).map Prod.snd
  | .pmExit n => σ.pmExit n
  | .waitpid whoP pid nohang => some (σ.waitpid whoP pid nohang).2
  | .setuid whoP usrId => some (σ.setuid whoP usrId).2

/-- The process exists and has not exited. -/
def Pm.Live (pm : Pm) (n : MprocNr) : Prop :=
  .inUse ∈ (pm.mproc n).flags ∧ .zombie ∉ (pm.mproc n).flags

instance (pm : Pm) (n : MprocNr) : Decidable (pm.Live n) :=
  inferInstanceAs (Decidable (.inUse ∈ (pm.mproc n).flags ∧ .zombie ∉ (pm.mproc n).flags))

/-- When it happens: only the process manager forks processes and sets policies; it sends no call to
itself and ignores all signals. -/
def Act.Allowed (σ : System) : Act → Prop
  | .kernel (.doFork ..) | .kernel (.doSetscheduler ..) => False
  | .kernel op => op.Allowed σ.kernel
  | .getsetscheduler _ n _ _ | .fork _ _ n | .pmExit n | .waitpid n _ _ | .setuid n _ =>
    σ.pm.Live n ∧ n ≠ pmNr

instance (σ : System) (act : Act) : Decidable (act.Allowed σ) := by
  cases act with
  | kernel op => cases op <;> unfold Act.Allowed <;> infer_instance
  | _ => unfold Act.Allowed; infer_instance

/-- The states that are reached from the booted system by what meets a condition. -/
inductive System.Reached (cond : System → Act → Prop) : System → Prop
  | boot {σ : System} (h : System.boot = some σ) : System.Reached cond σ
  | step {σ σ' : System} {act : Act} (h : System.Reached cond σ) (hallowed : act.Allowed σ)
      (hcond : cond σ act) (hstep : act.run σ = some σ') : System.Reached cond σ'

end Minix
