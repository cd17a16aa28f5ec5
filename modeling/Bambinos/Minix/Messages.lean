import Bambinos.Minix.ReadyQueues

/-!
# Sending, receiving and notifying

A process that cannot send is blocked and queued at the destination. The messages themselves are
left out, and so are the checks of `sys_call` that only refuse a call: of the trap mask, the buffer
and the send mask, and for deadlocks. `Ipc.sysCall` has both.
-/

namespace Minix

open Infra

/-! ## blocking -/

/-- `if (rp->p_rts_flags == 0) enqueue(rp);` -/
def enqueueReady (rp : ProcPtr) (s : Kernel) : Option Kernel :=
  if (s.proc rp).rtsFlags = ∅ then enqueue rp s else some s

/-- `if (rp->p_rts_flags == 0) dequeue(rp);` -/
def dequeueReady (rp : ProcPtr) (s : Kernel) : Option Kernel :=
  if (s.proc rp).rtsFlags = ∅ then dequeue rp s else some s

/-- `if ((rp->p_rts_flags &= ~flag) == 0) enqueue(rp);` -/
def unset (flag : RtsFlag) (rp : ProcPtr) (s : Kernel) : Option Kernel :=
  enqueueReady rp (s.setProc rp fun r => { r with rtsFlags := r.rtsFlags.erase flag })

/-- `if (rp->p_rts_flags == 0) dequeue(rp); rp->p_rts_flags |= flag;` -/
def block (flag : RtsFlag) (rp : ProcPtr) (s : Kernel) : Option Kernel := do
  let s ← dequeueReady rp s
  some (s.setProc rp fun r => { r with rtsFlags := insert flag r.rtsFlags })

/-! ## the queue of callers -/

/-- `*xpp = x`, where `xpp` points to a `p_q_link` or to the `p_caller_q` of `dst`. -/
def Kernel.setCallerLink (s : Kernel) (dst : ProcPtr) (place x : Option ProcPtr) : Kernel :=
  match place with
  | none => s.setProc dst fun r => { r with callerQ := x }
  | some b => s.setProc b fun r => { r with qLink := x }

/-- `*xpp = caller_ptr; caller_ptr->p_q_link = NIL_PROC;` -/
def Kernel.addCaller (s : Kernel) (dst : ProcPtr) (place : Option ProcPtr) (callerPtr : ProcPtr) :
    Kernel :=
  (s.setCallerLink dst place (some callerPtr)).setProc callerPtr fun r => { r with qLink := none }

/-- The search through the callers that are queued at `dst`. -/
def seekCaller (s : Kernel) (p : ProcPtr → Bool) (dst : ProcPtr) :
    Option (Option ProcPtr × Option ProcPtr) :=
  seek (fun r => (s.proc r).qLink) p loopLimit none (s.proc dst).callerQ

/-! ## `mini_send` -/

def miniSend (callerPtr : ProcPtr) (dstE : Int) (nonBlocking : Bool) (s : Kernel) :
    Option (Int × Kernel) := do
  let dstPtr ← procAddr (endpointP dstE)
  let dst := s.proc dstPtr
  if .noEndpoint ∈ dst.rtsFlags then some (EDSTDIED, s)
  else if (.receiving ∈ dst.rtsFlags ∧ .sending ∉ dst.rtsFlags) ∧
      (dst.getfromE = ANY ∨ dst.getfromE = (s.proc callerPtr).endpoint) then do
    let s ← unset .receiving dstPtr s
    some (OK, s)
  else if !nonBlocking then do
    let s ← block .sending callerPtr s
    let s := s.setProc callerPtr fun r => { r with sendtoE := dstE }
    let (place, _) ← seekCaller s (fun _ => false) dstPtr
    some (OK, s.addCaller dstPtr place callerPtr)
  else some (ENOTREADY, s)

/-! ## `mini_receive` -/

/-- The first bit that is set in a chunk of 16 bits. -/
def firstInChunk (map : Finset PrivPtr) (chunk : Nat) : Option PrivPtr :=
  (List.finRange NR_SYS_PROCS).find? fun i => i.val / 16 = chunk ∧ i ∈ map

/-- The pending notification to deliver. Only the first bit of each chunk is looked at. -/
def pendingNotify (s : Kernel) (map : Finset PrivPtr) (srcE srcP : Int) : Option PrivPtr :=
  (List.range 2).findSome? fun chunk =>
    (firstInChunk map chunk).filter fun srcId => srcE = ANY ∨ srcP = (s.priv srcId).procNr

/-- No message is there. -/
def waitMessage (callerPtr : ProcPtr) (srcE : Int) (nonBlocking : Bool) (s : Kernel) :
    Option (Int × Kernel) :=
  if !nonBlocking then do
    let s := s.setProc callerPtr fun r => { r with getfromE := srcE }
    let s ← block .receiving callerPtr s
    some (OK, s)
  else some (ENOTREADY, s)

/-- The message of a caller that is queued. -/
def takeMessage (callerPtr : ProcPtr) (srcE srcP : Int) (nonBlocking : Bool) (s : Kernel) :
    Option (Int × Kernel) := do
  let (place, x) ← seekCaller s (fun r => srcE = ANY ∨ srcP = (s.proc r).nr) callerPtr
  match x with
  | some x => do
    let s ← unset .sending x s
    some (OK, s.setCallerLink callerPtr place (s.proc x).qLink)
  | none => waitMessage callerPtr srcE nonBlocking s

/-- Whether the source has lost its endpoint; `okendpt` panics when it is not alive. -/
def sourceDead (s : Kernel) (srcE : Int) : Option Bool :=
  if srcE = ANY then some false
  else do
    let src ← isokendpt s srcE
    some (decide (.noEndpoint ∈ (s.proc src).rtsFlags))

def miniReceive (callerPtr : ProcPtr) (srcE : Int) (nonBlocking : Bool) (s : Kernel) :
    Option (Int × Kernel) := do
  let dead ← sourceDead s srcE
  let srcP := if srcE = ANY then ANY else endpointP srcE
  let caller := s.proc callerPtr
  if dead then some (ESRCDIED, s)
  else if .sending ∉ caller.rtsFlags then
    match if caller.replyPending then none else
        pendingNotify s (s.priv caller.priv).notifyPending srcE srcP with
    | some srcId =>
      some (OK, s.setPriv caller.priv fun p =>
        { p with notifyPending := p.notifyPending.erase srcId })
    | none => takeMessage callerPtr srcE srcP nonBlocking s
  else waitMessage callerPtr srcE nonBlocking s

/-! ## `mini_notify` -/

def miniNotify (callerPtr dstPtr : ProcPtr) (s : Kernel) : Option (Int × Kernel) :=
  let dst := s.proc dstPtr
  if (.receiving ∈ dst.rtsFlags ∧ .sending ∉ dst.rtsFlags) ∧ !dst.replyPending ∧
      (dst.getfromE = ANY ∨ dst.getfromE = (s.proc callerPtr).endpoint) then do
    let s ← unset .receiving dstPtr s
    some (OK, s)
  else
    some (OK, s.setPriv dst.priv fun p =>
      { p with notifyPending := insert (s.proc callerPtr).priv p.notifyPending })

def lockNotify (srcE dstE : Int) (s : Kernel) : Option (Int × Kernel) :=
  match isokendpt s srcE, isokendpt s dstE with
  | some src, some dst => miniNotify src dst s
  | _, _ => some (EDEADSRCDST, s)

/-! ## `sys_call` -/

inductive Function where
  | send
  | receive
  | sendrec
  | notify
  | echo
deriving DecidableEq, Repr

def sysCall (callerPtr : ProcPtr) (function : Function) (srcDstE : Int) (nonBlocking : Bool)
    (s : Kernel) : Option (Int × Kernel) :=
  if srcDstE ≠ ANY ∧ function ≠ .echo ∧ isokendpt s srcDstE = none then some (EDEADSRCDST, s)
  else
    match function with
    | .sendrec => do
      let s := s.setProc callerPtr fun r => { r with replyPending := true }
      let (result, s) ← miniSend callerPtr srcDstE nonBlocking s
      if result ≠ OK then some (result, s)
      else miniReceive callerPtr srcDstE nonBlocking s
    | .send => miniSend callerPtr srcDstE nonBlocking s
    | .receive =>
      miniReceive callerPtr srcDstE nonBlocking
        (s.setProc callerPtr fun r => { r with replyPending := false })
    | .notify => do
      let dst ← procAddr (endpointP srcDstE)
      miniNotify callerPtr dst s
    | .echo => some (OK, s)

end Minix
