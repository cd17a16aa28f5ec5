import Bambinos.Minix.Messages

/-!
# The kernel calls and the clock

* `doNice`, `doSetscheduler`, `doFork`, `doNewmap`, `doExit` — the calls that change who is runnable
* `clockHandler`, `doClocktick`, `balanceQueues` — the quanta
* `boot` — the process table `main` sets up
-/

namespace Minix

open Infra

/-! ## priority and policy -/

def PRIO_MIN : Int := -20

def PRIO_MAX : Int := 20

def PRIO_STOP : Int := 76

/-- The queue of a priority between `PRIO_MIN` and `PRIO_MAX`. -/
def niceQueue (pri : Int) : Int :=
  let newQ := MAX_USER_Q +
    ((pri - PRIO_MIN) * (MIN_USER_Q - MAX_USER_Q + 1)).tdiv (PRIO_MAX - PRIO_MIN + 1)
  let newQ := if newQ < MAX_USER_Q then MAX_USER_Q else newQ
  if newQ > MIN_USER_Q then MIN_USER_Q else newQ

def doNice (endpt pri : Int) (s : Kernel) : Option (Int × Kernel) :=
  match isokendpt s endpt with
  | none => some (EINVAL, s)
  | some rp =>
    if iskerneln (endpointP endpt) then some (EPERM, s)
    else if pri = PRIO_STOP then do
      let s ← dequeue rp s
      some (OK, s.setProc rp fun r => { r with rtsFlags := insert .noPriority r.rtsFlags })
    else if pri ≥ PRIO_MIN ∧ pri ≤ PRIO_MAX then do
      let s ← dequeue rp s
      let s := s.setProc rp fun r =>
        { r with maxPriority := niceQueue pri, priority := niceQueue pri }
      let s ← enqueueReady rp s
      some (OK, s)
    else some (EINVAL, s)

def doSetscheduler (endpt policy : Int) (s : Kernel) : Option (Int × Kernel) :=
  match isokendpt s endpt with
  | none => some (EINVAL, s)
  | some rp =>
    if iskerneln (endpointP endpt) then some (EPERM, s)
    else do
      let s ← dequeue rp s
      let s := s.setProc rp fun r => { r with scheduler := toChar policy }
      let s ← enqueueReady rp s
      some ((s.proc rp).scheduler, s)

/-! ## processes come and go -/

/-- The entry of a child: a copy of its parent's, with some fields set anew. -/
def childOf (s : Kernel) (rpp rpc : ProcPtr) (slot : Int) : Proc :=
  let gen := endpointG (s.proc rpc).endpoint + 1
  let gen := if gen ≥ maxGeneration then 1 else gen
  let parent := s.proc rpp
  let flags := ((((insert RtsFlag.noMap parent.rtsFlags).erase .signaled).erase .sigPending).erase
    .pStop)
  let privileged := decide (.sysProc ∈ (s.priv parent.priv).flags)
  { parent with
    nr := slot
    endpoint := mkEndpoint gen slot
    ticksLeft := toChar ((parent.ticksLeft + 1).tdiv 2)
    priv := if privileged then 0 else parent.priv
    rtsFlags := if privileged then insert .noPriv flags else flags }

def doFork (endpt slot : Int) (s : Kernel) : Option (Int × Kernel) :=
  match isokendpt s endpt with
  | none => some (EINVAL, s)
  | some rpp => do
    let rpc ← procAddr slot
    if (s.proc rpp).isempty ∨ !(s.proc rpc).isempty then some (EINVAL, s)
    else
      let child := childOf s rpp rpc slot
      let s := s.setProc rpc fun _ => child
      some (OK, s.setProc rpp fun r => { r with ticksLeft := toChar (r.ticksLeft.tdiv 2) })

/-- `mapped` says that the map of the caller is at a valid address. -/
def doNewmap (endpt : Int) (mapped : Bool) (s : Kernel) : Option (Int × Kernel) :=
  match isokendpt s endpt with
  | none => some (EINVAL, s)
  | some rp =>
    if iskerneln (endpointP endpt) then some (EPERM, s)
    else if !mapped then some (EFAULT, s)
    else do
      let oldFlags := (s.proc rp).rtsFlags
      let s := s.setProc rp fun r => { r with rtsFlags := r.rtsFlags.erase .noMap }
      if oldFlags ≠ ∅ then do
        let s ← enqueueReady rp s
        some (OK, s)
      else some (OK, s)

/-- `rp` no longer waits for a message of `rc`. -/
def stopReceiving (rc rp : ProcPtr) (s : Kernel) : Option Kernel :=
  if .receiving ∈ (s.proc rp).rtsFlags ∧ (s.proc rp).getfromE = (s.proc rc).endpoint then
    unset .receiving rp s
  else some s

/-- `rp` no longer waits to send to `rc`. -/
def stopSending (rc rp : ProcPtr) (s : Kernel) : Option Kernel :=
  if .sending ∈ (s.proc rp).rtsFlags ∧ (s.proc rp).sendtoE = (s.proc rc).endpoint then
    unset .sending rp s
  else some s

/-- What `clear_endpoint` does for a process that may wait for `rc`. -/
def alertProcess (rc rp : ProcPtr) (s : Kernel) : Option Kernel :=
  if (s.proc rp).isempty then some s
  else do
    let s ← stopReceiving rc rp (s.setPriv (s.proc rp).priv fun p =>
      { p with notifyPending := p.notifyPending.erase (s.proc rc).priv })
    stopSending rc rp s

/-- `rc` is taken off the queue where it waits to send. -/
def leaveQueue (rc : ProcPtr) (s : Kernel) : Option Kernel :=
  if .sending ∈ (s.proc rc).rtsFlags then do
    let target ← isokendpt s (s.proc rc).sendtoE
    let (place, x) ← seekCaller s (fun r => r = rc) target
    let s := match x with
      | some _ => s.setCallerLink target place (s.proc rc).qLink
      | none => s
    some (s.setProc rc fun r => { r with rtsFlags := r.rtsFlags.erase .sending })
  else some s

def clearEndpoint (rc : ProcPtr) (s : Kernel) : Option Kernel :=
  if (s.proc rc).isempty then none
  else do
    let s ← block .noEndpoint rc s
    let s ← leaveQueue rc s
    let s := s.setProc rc fun r => { r with rtsFlags := r.rtsFlags.erase .receiving }
    (List.finRange (NR_TASKS + NR_PROCS)).foldlM (fun s rp => alertProcess rc rp s) s

def clearProc (rc : ProcPtr) (s : Kernel) : Option Kernel :=
  if (s.proc rc).isempty then some s
  else do
    let s ← clearEndpoint rc s
    let s ← dequeueReady rc s
    let s := s.setProc rc fun r => { r with rtsFlags := {.slotFree} }
    if .sysProc ∈ (s.priv (s.proc rc).priv).flags then
      some (s.setPriv (s.proc rc).priv fun p => { p with procNr := NONE })
    else some s

/-- `whoP` is the process that calls. -/
def doExit (whoP endpt : Int) (s : Kernel) : Option (Int × Kernel) :=
  if PM_PROC_NR = whoP ∧ endpt ≠ SELF then
    match isokendpt s endpt with
    | none => some (EINVAL, s)
    | some rc => do
      let s ← clearProc rc s
      some (OK, s)
  else do
    let rc ← procAddr whoP
    let s ← clearProc rc s
    some (EDONTREPLY, s)

/-! ## the clock -/

/-- The quanta `clock_handler` charges. -/
def chargeTicks (ticks : Int) (s : Kernel) : Option Kernel := do
  let procPtr ← s.procPtr
  let flags := (s.priv (s.proc procPtr).priv).flags
  let s :=
    if .preemptible ∈ flags ∧ (s.proc procPtr).scheduler ≠ SCHED_FIFO then
      s.setProc procPtr fun r => { r with ticksLeft := toChar (r.ticksLeft - ticks) }
    else s
  if .billable ∉ flags then do
    let billPtr ← s.billPtr
    some (s.setProc billPtr fun r => { r with ticksLeft := toChar (r.ticksLeft - ticks) })
  else some s

/-- `clock_handler`; `timeout` says that a timer has expired. `Timed.clockHandler` looks at the timers. -/
def clockHandler (ticks : Int) (timeout : Bool) (s : Kernel) : Option Kernel := do
  let s ← chargeTicks ticks s
  let procPtr ← s.procPtr
  if timeout ∨ (s.proc procPtr).ticksLeft ≤ 0 then do
    let (_, s) ← lockNotify HARDWARE CLOCK { s with prevPtr := some procPtr }
    some s
  else some s

/-- `do_clocktick`, up to the timers; the watchdogs are steps of their own. `Timed.doClocktick` calls
them. -/
def doClocktick (s : Kernel) : Option Kernel := do
  let prevPtr ← s.prevPtr
  let prev := s.proc prevPtr
  if prev.ticksLeft ≤ 0 ∧ .preemptible ∈ (s.priv prev.priv).flags ∧
      prev.scheduler ≠ SCHED_FIFO then do
    let s ← dequeue prevPtr s
    enqueue prevPtr s
  else some s

/-- What `balance_queues` does for a process. -/
def balanceProcess (rp : ProcPtr) (s : Kernel) : Option Kernel :=
  if (s.proc rp).isempty then some s
  else if (s.proc rp).priority > (s.proc rp).maxPriority then do
    let s ← dequeueReady rp s
    enqueueReady rp (s.setProc rp fun r => { r with priority := r.priority - 1 })
  else some (s.setProc rp fun r => { r with ticksLeft := r.quantumSize })

/-- `balance_queues`, without the timer that `Timed.balanceQueues` sets. -/
def balanceQueues (s : Kernel) : Option Kernel :=
  (List.finRange (NR_TASKS + NR_PROCS)).foldlM (fun s rp => balanceProcess rp s) s

/-! ## booting -/

/-- `struct boot_image`; `stack` says that the task has a stack of its own. -/
structure BootImage where
  procNr : Int
  flags : Finset PrivFlag
  quantum : Int
  priority : Int
  stack : Bool

/-- The processes of the boot image. -/
def image : List BootImage :=
  let idlF : Finset PrivFlag := {.sysProc, .preemptible, .billable}
  let tskF : Finset PrivFlag := {.sysProc}
  let srvF : Finset PrivFlag := {.sysProc, .preemptible}
  let usrF : Finset PrivFlag := {.billable, .preemptible}
  [⟨IDLE, idlF, 8, IDLE_Q, true⟩, ⟨CLOCK, tskF, 8, TASK_Q, true⟩, ⟨SYSTEM, tskF, 8, TASK_Q, true⟩,
   ⟨HARDWARE, tskF, 8, TASK_Q, false⟩, ⟨PM_PROC_NR, srvF, 32, 3, false⟩,
   ⟨FS_PROC_NR, srvF, 32, 4, false⟩, ⟨RS_PROC_NR, srvF, 4, 3, false⟩,
   ⟨DS_PROC_NR, srvF, 4, 3, false⟩, ⟨TTY_PROC_NR, srvF, 4, 1, false⟩,
   ⟨MEM_PROC_NR, srvF, 4, 2, false⟩, ⟨LOG_PROC_NR, srvF, 4, 2, false⟩,
   ⟨INIT_PROC_NR, usrF, 8, USER_Q, false⟩]

/-- The tables behind the first loops of `main`: every slot is free. -/
def cleared : Kernel :=
  { bss with
    proc := fun rp =>
      { bss.proc rp with
        rtsFlags := {.slotFree}
        nr := rp.val - NR_TASKS
        endpoint := mkEndpoint 0 (rp.val - NR_TASKS) }
    priv := fun id => { bss.priv id with procNr := NONE } }

/-- `get_priv`. -/
def getPriv (rp : ProcPtr) (sysProc : Bool) (s : Kernel) : Kernel :=
  if sysProc then
    match (List.finRange NR_SYS_PROCS).find? fun id => (s.priv id).procNr = NONE ∧ id ≠ 0 with
    | none => s
    | some id =>
      (s.setPriv id fun p => { p with procNr := (s.proc rp).nr, flags := {.sysProc} }).setProc rp
        fun r => { r with priv := id }
  else
    (s.setPriv 0 fun p => { p with procNr := INIT_PROC_NR, flags := ∅ }).setProc rp
      fun r => { r with priv := 0 }

/-- A turn of the last loop of `main`. -/
def bootProcess (ip : BootImage) (s : Kernel) : Option Kernel := do
  let rp ← procAddr ip.procNr
  let s := s.setProc rp fun r =>
    { r with
      maxPriority := ip.priority, priority := ip.priority
      quantumSize := ip.quantum, ticksLeft := ip.quantum }
  let s := getPriv rp (decide (.sysProc ∈ ip.flags)) s
  let s := s.setPriv (s.proc rp).priv fun p => { p with flags := ip.flags }
  let s :=
    if iskerneln (s.proc rp).nr ∧ ip.stack then
      s.setPriv (s.proc rp).priv fun p => { p with stackGuard := true }
    else s
  if (s.proc rp).nr ≠ HARDWARE then
    enqueue rp (s.setProc rp fun r => { r with rtsFlags := ∅ })
  else some (s.setProc rp fun r => { r with rtsFlags := {.noMap} })

/-- `main`, up to the first `restart`. -/
def boot : Option Kernel := do
  let s ← image.foldlM (fun s ip => bootProcess ip s) cleared
  some { s with billPtr := procAddr IDLE }

end Minix
