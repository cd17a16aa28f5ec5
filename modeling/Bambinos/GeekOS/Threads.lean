import Bambinos.Infra.Ledger
import Mathlib.Data.List.TakeDrop

/-!
# Threads

The thread objects of `kthread.c` and the system calls `Sys_Spawn`, `Sys_Wait` and `Sys_Exit` as far
as they handle them. A step is what a thread does up to the next point where another one can run;
which thread runs next is left open. The idle thread and the reaper, which nobody owns and which do
not exit, are not in the list of all threads.

* `KernelThread` — a thread object
* `Phase` — where a thread is in the functions
* `Kernel` — the thread objects, the queues, and what has happened
* `createThread`, `lookupThread`, `detachThread`, `reapThread`, `destroyThread`
* `step` — the next step of a thread or of the reaper
* `Reaches` — the states of all runs
-/

namespace GeekOS.Kthread

open Infra

/-- The address of a thread object. -/
abbrev Addr := Nat

structure KernelThread where
  owner : Option Addr
  refCount : Int
  /-- These fields are used to implement `Join`. -/
  alive : Bool
  joinQueue : List Addr
  exitCode : Int
  pid : Nat
deriving DecidableEq, Repr

/-- Where a thread can be interrupted. -/
inductive Phase where
  /-- in user mode, or somewhere else in the kernel -/
  | running
  /-- in `Spawn`, behind `Start_User_Thread` -/
  | spawning (child : Addr)
  /-- in front of `Join` -/
  | found (child : Addr)
  /-- in `Join`, in front of the test whether the thread is alive -/
  | joining (child : Addr)
  /-- in `Join`, on the queue of the thread -/
  | blocked (child : Addr)
  /-- in `Exit`, in `Tlocal_Exit` -/
  | exiting
  /-- behind `Exit` -/
  | gone
deriving DecidableEq, Repr

inductive Reaper where
  | looking
  | waiting
  | disposing (threads : List Addr)
deriving DecidableEq, Repr

/-- What happens to the thread with the pid. -/
inductive Event where
  | spawned (pid : Nat)
  /-- It has given up the reference to itself in `Exit`. -/
  | left (pid : Nat)
  /-- Its owner has given up its reference in `Join`. -/
  | released (pid : Nat)
  /-- It is handed to the reaper. -/
  | handed (pid : Nat)
  | destroyed (pid : Nat)
deriving DecidableEq, Repr

def Event.pid : Event → Nat
  | spawned pid | left pid | released pid | handed pid | destroyed pid => pid

/-- The assertions. -/
inductive Assertion where
  | joinInterrupts
  | joinOwner
  | detachInterrupts
  | detachRefCount
  | reapInterrupts
  /-- of the functions that add to a list and remove from it -/
  | member
deriving DecidableEq, Repr

structure Kernel where
  objects : Addr → KernelThread
  /-- The pages of the thread objects. -/
  memory : Ledger Addr
  /-- `s_allThreadList` -/
  allThreadList : List Addr
  /-- `s_graveyardQueue` -/
  graveyardQueue : List Addr
  nextFreePid : Nat
  reaper : Reaper
  phase : Addr → Phase
  /-- The interrupt flag of each thread. -/
  interrupts : Addr → Bool
  /-- What the last system call of a thread has returned. -/
  eax : Addr → Int
  /-- What has happened so far, the last event first. -/
  trace : List Event

namespace Kernel

variable (k : Kernel)

/-- The main thread, behind `Init_Scheduler`. -/
def boot : Kernel where
  objects _ :=
    { owner := none
      refCount := 1
      alive := true
      joinQueue := []
      exitCode := 0
      pid := 1 }
  memory := Ledger.empty.alloc 0
  allThreadList := [0]
  graveyardQueue := []
  nextFreePid := 4
  reaper := .looking
  phase _ := .running
  interrupts _ := true
  eax _ := 0
  trace := []

/-- The object is read or written. -/
def use (a : Addr) : Kernel := { k with memory := k.memory.use a }

def uses (as : List Addr) : Kernel := { k with memory := k.memory.uses as }

def setObject (a : Addr) (t : KernelThread) : Kernel :=
  { k with objects := Function.update k.objects a t }

def setPhase (a : Addr) (phase : Phase) : Kernel :=
  { k with phase := Function.update k.phase a phase }

/-- `Enable_Interrupts` and `Disable_Interrupts` in the thread `a`. -/
def setInterrupts (a : Addr) (enabled : Bool) : Kernel :=
  { k with interrupts := Function.update k.interrupts a enabled }

def setEax (a : Addr) (value : Int) : Kernel :=
  { k with eax := Function.update k.eax a value }

def happens (e : Event) : Kernel := { k with trace := e :: k.trace }

/-- The assertion holds, or the kernel stops. -/
def kassert (c : Prop) [Decidable c] (assertion : Assertion) : Except Assertion Kernel :=
  if c then .ok k else .error assertion

/-! ## the functions of `kthread.c` -/

/-- `Create_Thread` and `Init_Thread`; `a` is the page that `Alloc_Page` has returned. -/
def createThread (current a : Addr) : Except Assertion Kernel := do
  let thread : KernelThread :=
    { owner := some current
      refCount := 2
      alive := true
      joinQueue := []
      exitCode := 0
      pid := k.nextFreePid }
  let k ← { k with
    memory := (k.memory.alloc a).uses k.allThreadList
    objects := Function.update k.objects a thread
    nextFreePid := k.nextFreePid + 1 }.kassert (a ∉ k.allThreadList) .member
  return { k with allThreadList := k.allThreadList ++ [a] }.happens (.spawned thread.pid)

/-- `Make_Runnable`, for a thread that waits on a queue. -/
def makeRunnable (a : Addr) : Kernel :=
  match k.phase a with
  | .blocked child => (k.use a).setPhase a (.joining child)
  | _ => k.use a

/-- `Wake_Up` -/
def wakeUp (queue : List Addr) : Kernel := queue.foldl makeRunnable k

/-- Hand the thread to the reaper. -/
def reapThread (current a : Addr) : Except Assertion Kernel := do
  let k ← k.kassert (k.interrupts current = false) .reapInterrupts
  let k ← (k.uses (k.graveyardQueue ++ [a])).kassert (a ∉ k.graveyardQueue) .member
  return { k with
    graveyardQueue := k.graveyardQueue ++ [a]
    reaper := if k.reaper = Reaper.waiting then Reaper.looking else k.reaper }.happens
      (.handed (k.objects a).pid)

/-- Called when a reference to the thread is broken. -/
def detachThread (current a : Addr) : Except Assertion Kernel := do
  let k ← k.kassert (k.interrupts current = false) .detachInterrupts
  let k ← (k.use a).kassert (0 < (k.objects a).refCount) .detachRefCount
  let refCount := (k.objects a).refCount - 1
  let k := k.setObject a { k.objects a with refCount := refCount }
  if refCount = 0 then k.reapThread current a else return k

/-- Look up a thread by its process id, among the threads of the list. -/
def lookupIn (current : Addr) (pid : Nat) : List Addr → Kernel → Option Addr × Kernel
  | [], k => (none, k)
  | a :: list, k =>
    if (k.objects a).pid = pid then
      (if (k.objects a).owner = some current then some a else none, k.use a)
    else
      lookupIn current pid list (k.use a)

/-- The caller must be the thread's owner. -/
def lookupThread (current : Addr) (pid : Nat) : Option Addr × Kernel :=
  lookupIn current pid k.allThreadList k

/-- `Destroy_Thread`: the thread is freed, and removed from the list of all threads. -/
def destroyThread (a : Addr) : Except Assertion Kernel := do
  let k := { k with memory := k.memory.free a }
  let k ← (k.uses (k.allThreadList.takeWhile (· ≠ a))).kassert (a ∈ k.allThreadList) .member
  -- the links of the thread and of its neighbours
  let k := k.uses ((k.allThreadList.dropWhile (· ≠ a)).take 2)
  return { k with allThreadList := k.allThreadList.erase a }.happens
    (.destroyed (k.objects a).pid)

/-! ## steps -/

/-- `Join` up to its loop. -/
def enterJoin (current child : Addr) : Except Assertion Kernel := do
  let k ← k.kassert (k.interrupts current = true) .joinInterrupts
  let k ← (k.use child).kassert ((k.objects child).owner = some current) .joinOwner
  return (k.setInterrupts current false).setPhase current (.joining child)

/-- A turn of the loop of `Join`, and what is behind it. -/
def testJoin (current child : Addr) : Except Assertion Kernel := do
  let k := k.use child
  let thread := k.objects child
  if thread.alive then
    let k ← (k.uses (thread.joinQueue ++ [current])).kassert (current ∉ thread.joinQueue) .member
    return (k.setObject child { thread with joinQueue := thread.joinQueue ++ [current] }).setPhase
      current (.blocked child)
  else
    let k ← (k.happens (.released thread.pid)).detachThread current child
    return ((k.setInterrupts current true).setEax current thread.exitCode).setPhase current .running

/-- `Sys_Exit` and `Exit` up to `Tlocal_Exit`, in which other threads may run. -/
def beginExit (current : Addr) (exitCode : Int) : Kernel :=
  let k := (k.use current).setInterrupts current false
  (k.setObject current { k.objects current with exitCode := exitCode, alive := false }).setPhase
    current .exiting

/-- `Exit` behind `Tlocal_Exit`. -/
def endExit (current : Addr) : Except Assertion Kernel := do
  let k := k.use current
  let thread := k.objects current
  let k := (k.wakeUp thread.joinQueue).setObject current { thread with joinQueue := [] }
  ((k.setPhase current .gone).happens (.left thread.pid)).detachThread current current

/-- The next step of the reaper. -/
def reap : Option (Except Assertion Kernel) :=
  match k.reaper with
  | .waiting => none
  | .looking =>
    if k.graveyardQueue = [] then
      some (.ok { k with reaper := .waiting })
    else
      some (.ok { k with reaper := .disposing k.graveyardQueue, graveyardQueue := [] })
  | .disposing [] => some (.ok { k with reaper := .looking })
  | .disposing (a :: threads) => some ({ k.use a with reaper := .disposing threads }.destroyThread a)

end Kernel

inductive Action where
  /-- `Sys_Spawn`, where `Alloc_Page` returns the page `a` -/
  | spawn (p a : Addr)
  /-- `Spawn` returns; `Spawn_Init_Process` then waits for the thread. -/
  | spawned (p : Addr) (join : Bool)
  | wait (p : Addr) (pid : Nat)
  | enterJoin (p : Addr)
  | testJoin (p : Addr)
  | exit (p : Addr) (exitCode : Int)
  | endExit (p : Addr)
  | reap
deriving DecidableEq, Repr

/-- A step, if the thread is where it can make it. -/
def step (k : Kernel) : Action → Option (Except Assertion Kernel)
  | .spawn p a =>
    if k.memory.status p = .live ∧ k.phase p = .running ∧ k.memory.status a ≠ .live then
      some do
        let k ← (k.setInterrupts p true).createThread p a
        return ((k.setInterrupts a true).setPhase a .running).setPhase p (.spawning a)
    else none
  | .spawned p join =>
    match k.phase p with
    | .spawning child =>
      some (.ok (((k.use child).setEax p (k.objects child).pid).setPhase p
        (if join then .found child else .running)))
    | _ => none
  | .wait p pid =>
    if k.memory.status p = .live ∧ k.phase p = .running then
      match k.lookupThread p pid with
      | (none, k) => some (.ok (k.setEax p (-1)))
      | (some child, k) => some (.ok ((k.setInterrupts p true).setPhase p (.found child)))
    else none
  | .enterJoin p =>
    match k.phase p with
    | .found child => some (k.enterJoin p child)
    | _ => none
  | .testJoin p =>
    match k.phase p with
    | .joining child => some (k.testJoin p child)
    | _ => none
  | .exit p exitCode =>
    if k.memory.status p = .live ∧ k.phase p = .running then
      some (.ok (k.beginExit p exitCode))
    else none
  | .endExit p =>
    match k.phase p with
    | .exiting => some (k.endExit p)
    | _ => none
  | .reap => k.reap

/-- The states that are reached by steps of the given kind. -/
inductive Reaches (ok : Kernel → Action → Prop) : Kernel → Prop
  | boot : Reaches ok .boot
  | step {k k' : Kernel} {a : Action} (h : Reaches ok k) (hok : ok k a)
      (hstep : step k a = some (.ok k')) : Reaches ok k'

end GeekOS.Kthread
