import Bambinos.Infra.Mailbox
import Bambinos.Minix.Calls

/-!
# The messages of the kernel

`sys_call` with its checks, and the messages it copies. A process that traps brings the message it
points to; while it is blocked, what is at its `p_messbuf` is kept. What the source does not keep is
`mail` and `notices`: the messages that have been sent and got so far, and the notifications.

* `Message` — from a process, or a notification the kernel makes
* `Ipc` — the kernel with the messages and the masks
* `deadlock` — the search for a circle of processes that wait for one another
* `Ipc.sysCall`, `Ipc.lockSend`, `Ipc.lockNotify` — the entry points
-/

namespace Minix

open Infra

/-! ## constants -/

def SEND : Nat := 1

def RECEIVE : Nat := 2

def SENDREC : Nat := 3

def NOTIFY : Nat := 4

def ECHO : Nat := 8

def SYSCALL_FUNC : Nat := 0x000F

def SYSCALL_FLAGS : Nat := 0x00F0

def NON_BLOCKING : Nat := 0x0010

def CHECK_PTR : Nat := 0xBB

def CHECK_DST : Nat := 0x55

def CHECK_DEADLOCK : Nat := 0x93

/-- The bit `SENDING` of `p_rts_flags`. -/
def SENDING : Nat := 0x04

def ELOCKED : Int := -101

def EBADCALL : Int := -102

def ECALLDENIED : Int := -104

def ETRAPDENIED : Int := -110

def NOTIFY_MESSAGE : Int := 0x1000

/-- `NOTIFY_FROM`; the number is small enough that the bits do not meet. -/
def notifyFrom (nr : Int) : Int := NOTIFY_MESSAGE + (nr + NR_TASKS)

/-! ## messages -/

/-- What is in a message: what a process has put there, or the type, the time and the argument of a
notification; the argument is set for two sources only. -/
inductive Body (α : Type) where
  | user (a : α)
  | notice (type timestamp : Int) (arg : Option (Finset Nat))

/-- `message`, with `m_source`. -/
structure Message (α : Type) where
  source : Int
  body : Body α

/-- A bit is set for a process, or the bits are delivered. -/
inductive Notice where
  | raised (id : PrivPtr) (src : Int) (bit : Nat)
  | told (id : PrivPtr) (src : Int) (arg : Finset Nat)

/-- The kernel, the message at the address each process last gave to it, the masks and the pending bits
of the table of privileges, and the time. -/
structure Ipc (α : Type) where
  kernel : Kernel
  messbuf : ProcPtr → Message α
  trapMask : PrivPtr → Nat
  ipcTo : PrivPtr → Finset PrivPtr
  intPending : PrivPtr → Finset Nat
  sigPending : PrivPtr → Finset Nat
  realtime : Int
  mail : List (Event ProcPtr (Message α))
  notices : List Notice

/-! ## `deadlock` -/

/-- `okendpt` panics when the endpoint is not alive. -/
def okendpt (s : Kernel) (e : Int) : Option Int := (isokendpt s e).map fun _ => endpointP e

/-- The process `xp` waits for, `ANY` if for no one; there is none when it does not wait. -/
def dependency (s : Kernel) (xp : ProcPtr) : Option (Option Int) :=
  let r := s.proc xp
  if .receiving ∈ r.rtsFlags then
    if r.getfromE = ANY then some (some ANY) else (okendpt s r.getfromE).map some
  else if .sending ∈ r.rtsFlags then (okendpt s r.sendtoE).map some
  else some none

/-- The loop of `deadlock`; there is no result when it takes more than `n` turns. -/
def deadlockFrom (s : Kernel) (function : Nat) (cp : ProcPtr) : Nat → Nat → Int → Option Nat
  | 0, _, _ => none
  | n + 1, groupSize, srcDst =>
    if srcDst = ANY then some 0
    else do
      let xp ← procAddr srcDst
      let groupSize := groupSize + 1
      match ← dependency s xp with
      | none => some 0
      | some srcDst =>
        if srcDst = (s.proc cp).nr then
          let xpFlags := if .sending ∈ (s.proc xp).rtsFlags then SENDING else 0
          if groupSize = 2 ∧ (xpFlags ^^^ (function <<< 2)) &&& SENDING ≠ 0 then some 0
          else some groupSize
        else deadlockFrom s function cp n groupSize srcDst

/-- `deadlock`. If the loop has not ended when it has met every process, it does not end. -/
def deadlock (s : Kernel) (function : Nat) (cp : ProcPtr) (srcDst : Int) : Option Nat :=
  deadlockFrom s function cp loopLimit 1 srcDst

namespace Ipc

variable {α : Type}

/-! ## copying -/

/-- `CopyMess`: the message `m` of `src` is copied to `dst`, with the endpoint of `src`. -/
def copyMess (src : ProcPtr) (m : Body α) (dst : ProcPtr) (st : Ipc α) : Ipc α :=
  { st with
    messbuf := Function.update st.messbuf dst ⟨(st.kernel.proc src).endpoint, m⟩ }

/-- A process sends a message. -/
def send (src dst : ProcPtr) (m : Body α) (st : Ipc α) : Ipc α :=
  { st with mail := st.mail ++ [.sent src dst ⟨(st.kernel.proc src).endpoint, m⟩] }

/-- A process gets a message it waits for, of a certain source or of any. -/
def get (dst : ProcPtr) (any : Bool) (src : ProcPtr) (m : Body α) (st : Ipc α) : Ipc α :=
  { st with
    mail := st.mail ++
      [.got dst (if any then none else some src) src ⟨(st.kernel.proc src).endpoint, m⟩] }

/-- `p_messbuf = m_ptr`. -/
def setMessbuf (rp : ProcPtr) (m : Message α) (st : Ipc α) : Ipc α :=
  { st with messbuf := Function.update st.messbuf rp m }

/-! ## notifications -/

/-- The pending bits a notification of `src` takes along. -/
def pending (src : Int) (st : Ipc α) : PrivPtr → Finset Nat :=
  if src = HARDWARE then st.intPending else if src = SYSTEM then st.sigPending else fun _ => ∅

/-- `BuildMess` and `CopyMess` of a notification of `src`. -/
def deliverNotice (src : Int) (dst : ProcPtr) (st : Ipc α) : Option (Ipc α) := do
  let srcPtr ← procAddr src
  let id := (st.kernel.proc dst).priv
  let bits := st.pending src id
  let arg := if src = HARDWARE ∨ src = SYSTEM then some bits else none
  some { st.copyMess srcPtr (.notice (notifyFrom src) st.realtime arg) dst with
    intPending :=
      if src = HARDWARE then Function.update st.intPending id ∅ else st.intPending
    sigPending :=
      if src = SYSTEM then Function.update st.sigPending id ∅ else st.sigPending
    notices := st.notices ++ [.told id src bits] }

/-- `mini_notify`. -/
def miniNotify (callerPtr dstPtr : ProcPtr) (st : Ipc α) : Option (Int × Ipc α) :=
  let s := st.kernel
  let dst := s.proc dstPtr
  if (.receiving ∈ dst.rtsFlags ∧ .sending ∉ dst.rtsFlags) ∧ !dst.replyPending ∧
      (dst.getfromE = ANY ∨ dst.getfromE = (s.proc callerPtr).endpoint) then do
    let st ← st.deliverNotice (s.proc callerPtr).nr dstPtr
    let s ← unset .receiving dstPtr s
    some (OK, { st with kernel := s })
  else
    some (OK, { st with
      kernel := s.setPriv dst.priv fun p =>
        { p with notifyPending := insert (s.proc callerPtr).priv p.notifyPending } })

/-- `lock_notify`. -/
def lockNotify (srcE dstE : Int) (st : Ipc α) : Option (Int × Ipc α) :=
  match isokendpt st.kernel srcE, isokendpt st.kernel dstE with
  | some src, some dst => st.miniNotify src dst
  | _, _ => some (EDEADSRCDST, st)

/-- `s_int_pending |= 1 << bit`, or `sigaddset(&s_sig_pending, bit)`. -/
def raise (src : Int) (id : PrivPtr) (bit : Nat) (st : Ipc α) : Ipc α :=
  let bits := insert bit (st.pending src id)
  { st with
    intPending := if src = HARDWARE then Function.update st.intPending id bits else st.intPending
    sigPending := if src = SYSTEM then Function.update st.sigPending id bits else st.sigPending
    notices := st.notices ++ [.raised id src bit] }

/-- `generic_handler`, for the process of the hook and its identifier. -/
def genericHandler (procNrE : Int) (notifyId : Nat) (st : Ipc α) : Option (Ipc α) :=
  match isokendpt st.kernel procNrE with
  | none => some st
  | some rp => do
    let (_, st) ←
      (st.raise HARDWARE (st.kernel.proc rp).priv notifyId).lockNotify HARDWARE procNrE
    some st

/-- `send_sig`. -/
def sendSig (procNr : Int) (sigNr : Nat) (st : Ipc α) : Option (Ipc α) :=
  match procAddr procNr with
  | none => some st
  | some rp =>
    let r := st.kernel.proc rp
    if r.isempty then some st
    else do
      let (_, st) ← (st.raise SYSTEM r.priv sigNr).lockNotify SYSTEM r.endpoint
      some st

/-! ## sending -/

/-- `mini_send`. -/
def miniSend (callerPtr : ProcPtr) (dstE : Int) (m : Message α) (nonBlocking : Bool) (st : Ipc α) :
    Option (Int × Ipc α) := do
  let s := st.kernel
  let dstPtr ← procAddr (endpointP dstE)
  let dst := s.proc dstPtr
  if .noEndpoint ∈ dst.rtsFlags then some (EDSTDIED, st)
  else if (.receiving ∈ dst.rtsFlags ∧ .sending ∉ dst.rtsFlags) ∧
      (dst.getfromE = ANY ∨ dst.getfromE = (s.proc callerPtr).endpoint) then do
    let st := (st.send callerPtr dstPtr m.body).get dstPtr (dst.getfromE = ANY) callerPtr m.body
    let st := st.copyMess callerPtr m.body dstPtr
    let s ← unset .receiving dstPtr s
    some (OK, { st with kernel := s })
  else if !nonBlocking then do
    let st := (st.send callerPtr dstPtr m.body).setMessbuf callerPtr m
    let s ← block .sending callerPtr s
    let s := s.setProc callerPtr fun r => { r with sendtoE := dstE }
    let (place, _) ← seekCaller s (fun _ => false) dstPtr
    some (OK, { st with kernel := s.addCaller dstPtr place callerPtr })
  else some (ENOTREADY, st)

/-- `lock_send`, by the task `proc_ptr`. -/
def lockSend (procPtr : ProcPtr) (dstE : Int) (m : Message α) (st : Ipc α) : Option (Int × Ipc α) :=
  st.miniSend procPtr dstE m true

/-! ## receiving -/

/-- No message is there. -/
def waitMessage (callerPtr : ProcPtr) (srcE : Int) (m : Message α) (nonBlocking : Bool)
    (st : Ipc α) : Option (Int × Ipc α) :=
  if !nonBlocking then do
    let s := st.kernel.setProc callerPtr fun r => { r with getfromE := srcE }
    let s ← block .receiving callerPtr s
    some (OK, { st.setMessbuf callerPtr m with kernel := s })
  else some (ENOTREADY, st)

/-- The message of a caller that is queued. -/
def takeMessage (callerPtr : ProcPtr) (srcE srcP : Int) (m : Message α) (nonBlocking : Bool)
    (st : Ipc α) : Option (Int × Ipc α) := do
  let s := st.kernel
  let (place, x) ← seekCaller s (fun r => srcE = ANY ∨ srcP = (s.proc r).nr) callerPtr
  match x with
  | some x => do
    let body := (st.messbuf x).body
    let st := (st.get callerPtr (srcE = ANY) x body).copyMess x body callerPtr
    let s ← unset .sending x s
    some (OK, { st with kernel := s.setCallerLink callerPtr place (s.proc x).qLink })
  | none => st.waitMessage callerPtr srcE m nonBlocking

/-- `mini_receive`. -/
def miniReceive (callerPtr : ProcPtr) (srcE : Int) (m : Message α) (nonBlocking : Bool)
    (st : Ipc α) : Option (Int × Ipc α) := do
  let s := st.kernel
  let dead ← sourceDead s srcE
  let srcP := if srcE = ANY then ANY else endpointP srcE
  let caller := s.proc callerPtr
  if dead then some (ESRCDIED, st)
  else if .sending ∉ caller.rtsFlags then
    match if caller.replyPending then none else
        pendingNotify s (s.priv caller.priv).notifyPending srcE srcP with
    | some srcId => do
      let st ← deliverNotice (s.priv srcId).procNr callerPtr
        { st with kernel := s.setPriv caller.priv fun p =>
            { p with notifyPending := p.notifyPending.erase srcId } }
      some (OK, st)
    | none => st.takeMessage callerPtr srcE srcP m nonBlocking
  else st.waitMessage callerPtr srcE m nonBlocking

/-! ## `sys_call` -/

/-- The functions of a trap. -/
def functionOf (function : Nat) : Option Function :=
  if function = SEND then some .send
  else if function = RECEIVE then some .receive
  else if function = SENDREC then some .sendrec
  else if function = NOTIFY then some .notify
  else if function = ECHO then some .echo
  else none

/-- The checks of `sys_call`: the endpoint, the trap mask, the buffer, the send mask and deadlocks.
`pointerOk` says that the message is in the data or the stack of the caller. -/
def checks (callerPtr : ProcPtr) (function : Nat) (srcDstE : Int) (pointerOk : Bool) (st : Ipc α) :
    Option Int :=
  let s := st.kernel
  let caller := s.proc callerPtr
  if srcDstE ≠ ANY ∧ function ≠ ECHO ∧ isokendpt s srcDstE = none then some EDEADSRCDST
  else
    let srcDst := if srcDstE ≠ ANY ∧ function ≠ ECHO then endpointP srcDstE else srcDstE
    if !(st.trapMask caller.priv).testBit function ∨
        (iskerneln srcDst ∧ function ≠ SENDREC ∧ function ≠ RECEIVE) then some ETRAPDENIED
    else if function &&& CHECK_PTR ≠ 0 ∧ !pointerOk then some EFAULT
    else do
      let denied ←
        if function &&& CHECK_DST ≠ 0 then
          (procAddr srcDst).map fun dst => decide ((s.proc dst).priv ∉ st.ipcTo caller.priv)
        else some false
      if denied then some ECALLDENIED
      else if function &&& CHECK_DEADLOCK ≠ 0 then do
        let groupSize ← deadlock s function callerPtr srcDst
        some (if groupSize ≠ 0 then ELOCKED else OK)
      else some OK

/-- `caller_ptr->p_misc_flags` with `REPLY_PENDING` set or not. -/
def setReplyPending (callerPtr : ProcPtr) (b : Bool) (st : Ipc α) : Ipc α :=
  { st with kernel := st.kernel.setProc callerPtr fun r => { r with replyPending := b } }

/-- The `switch` of `sys_call`. -/
def perform (callerPtr : ProcPtr) (function : Option Function) (srcDstE : Int) (m : Message α)
    (nonBlocking : Bool) (st : Ipc α) : Option (Int × Ipc α) :=
  match function with
  | some .sendrec => do
    let (result, st) ← (st.setReplyPending callerPtr true).miniSend callerPtr srcDstE m nonBlocking
    if result ≠ OK then some (result, st)
    else st.miniReceive callerPtr srcDstE m nonBlocking
  | some .send => st.miniSend callerPtr srcDstE m nonBlocking
  | some .receive =>
    (st.setReplyPending callerPtr false).miniReceive callerPtr srcDstE m nonBlocking
  | some .notify => do
    let dst ← procAddr (endpointP srcDstE)
    st.miniNotify callerPtr dst
  | some .echo => some (OK, st.copyMess callerPtr m.body callerPtr)
  | none => some (EBADCALL, st)

/-- `sys_call`. -/
def sysCall (callerPtr : ProcPtr) (callNr : Nat) (srcDstE : Int) (m : Message α) (pointerOk : Bool)
    (st : Ipc α) : Option (Int × Ipc α) := do
  let function := callNr &&& SYSCALL_FUNC
  let flags := callNr &&& SYSCALL_FLAGS
  let e ← st.checks callerPtr function srcDstE pointerOk
  if e ≠ OK then some (e, st)
  else st.perform callerPtr (functionOf function) srcDstE m (decide (flags &&& NON_BLOCKING ≠ 0))

/-! ## the other operations -/

/-- `clock_handler`; `timeout` says that a timer has expired. -/
def clockHandler (ticks : Int) (timeout : Bool) (st : Ipc α) : Option (Ipc α) := do
  let s ← chargeTicks ticks st.kernel
  let st := { st with kernel := s, realtime := st.realtime + ticks }
  let procPtr ← s.procPtr
  if timeout ∨ (s.proc procPtr).ticksLeft ≤ 0 then do
    let (_, st) ← lockNotify HARDWARE CLOCK { st with kernel := { s with prevPtr := some procPtr } }
    some st
  else some st

/-- `do_fork`; the memory of the child is a copy. -/
def doFork (endpt slot : Int) (st : Ipc α) : Option (Int × Ipc α) := do
  let (e, s) ← Minix.doFork endpt slot st.kernel
  let st := { st with kernel := s }
  match isokendpt st.kernel endpt, procAddr slot with
  | some rpp, some rpc =>
    some (e, if e = OK then st.setMessbuf rpc (st.messbuf rpp) else st)
  | _, _ => some (e, st)

/-- `clear_proc`; the process is gone. -/
def clearProc (rc : ProcPtr) (st : Ipc α) : Option (Ipc α) :=
  if (st.kernel.proc rc).isempty then some st
  else do
    let s ← Minix.clearProc rc st.kernel
    some { st with kernel := s, mail := st.mail ++ [.gone rc] }

/-- `do_exit`. -/
def doExit (whoP endpt : Int) (st : Ipc α) : Option (Int × Ipc α) :=
  if PM_PROC_NR = whoP ∧ endpt ≠ SELF then
    match isokendpt st.kernel endpt with
    | none => some (EINVAL, st)
    | some rc => do
      let st ← st.clearProc rc
      some (OK, st)
  else do
    let rc ← procAddr whoP
    let st ← st.clearProc rc
    some (EDONTREPLY, st)

/-- An operation that has to do with no message. -/
def onKernel (f : Kernel → Option Kernel) (st : Ipc α) : Option (Ipc α) := do
  let s ← f st.kernel
  some { st with kernel := s }

/-! ## booting -/

/-- `s_nr_to_id`. -/
def sNrToId (nr : Int) : PrivPtr := Fin.ofNat NR_SYS_PROCS (NR_TASKS + nr + 1).toNat

/-- The traps and the destinations of the processes of the boot image. -/
def bootMasks : List (Int × Nat × Finset PrivPtr) :=
  let tskT := 1 <<< RECEIVE
  let srvT := 0xFFFF
  let usrT := (1 <<< SENDREC) ||| (1 <<< ECHO)
  let srvM : Finset PrivPtr := Finset.univ.filter fun id => id.val < 16
  let usrM : Finset PrivPtr :=
    {sNrToId PM_PROC_NR, sNrToId FS_PROC_NR, sNrToId RS_PROC_NR, sNrToId SYSTEM}
  let drvM : Finset PrivPtr := usrM ∪ {sNrToId SYSTEM, sNrToId CLOCK, sNrToId DS_PROC_NR,
    sNrToId LOG_PROC_NR, sNrToId TTY_PROC_NR}
  [(IDLE, 0, ∅), (CLOCK, tskT, ∅), (SYSTEM, tskT, ∅), (HARDWARE, tskT, ∅), (PM_PROC_NR, srvT, srvM),
   (FS_PROC_NR, srvT, srvM), (RS_PROC_NR, srvT, srvM), (DS_PROC_NR, srvT, srvM),
   (TTY_PROC_NR, srvT, srvM), (MEM_PROC_NR, srvT, srvM), (LOG_PROC_NR, srvT, drvM),
   (INIT_PROC_NR, usrT, usrM)]

/-- The masks of one of them are set. -/
def setMasks (st : Ipc α) (entry : Int × Nat × Finset PrivPtr) : Ipc α :=
  match procAddr entry.1 with
  | none => st
  | some rp =>
    let id := (st.kernel.proc rp).priv
    { st with
      trapMask := Function.update st.trapMask id entry.2.1
      ipcTo := Function.update st.ipcTo id entry.2.2 }

/-- The state `main` leaves, with what is in the memory of the processes. -/
def boot (memory : ProcPtr → Message α) : Option (Ipc α) := do
  let s ← Minix.boot
  some (bootMasks.foldl setMasks
    { kernel := s, messbuf := memory, trapMask := fun _ => 0, ipcTo := fun _ => ∅
      intPending := fun _ => ∅, sigPending := fun _ => ∅, realtime := 0, mail := [], notices := [] })

end Ipc

end Minix
