import Bambinos.Minix.Runs

/-!
# Properties of every process

* `Closed` — a property of the priority and the policy that the scheduler keeps
* `Kept` — a property that may be about the quantum, too
* `Everywhere` — every process has the property
* `Everywhere.op` — no operation of the kernel breaks it but the setting of a policy
* `Bounded` — the indices of the ready lists exist
-/

namespace Minix

open Infra

variable {P : Proc → Prop} {s s' s₁ : Kernel} {r rp : ProcPtr} {f : Proc → Proc} {flag : RtsFlag}
  {e : Int}

/-- A property of the priorities and the policy of a process that the scheduler keeps. -/
structure Closed (P : Proc → Prop) : Prop where
  congr : ∀ {r r' : Proc}, r'.priority = r.priority → r'.maxPriority = r.maxPriority →
    r'.scheduler = r.scheduler → P r → P r'
  sched : ∀ {r : Proc}, P r → P (sched r).1
  raise : ∀ {r : Proc}, P r → r.maxPriority < r.priority → P { r with priority := r.priority - 1 }
  nice : ∀ {r : Proc} (pri : Int), P r →
    P { r with maxPriority := niceQueue pri, priority := niceQueue pri }

/-- A property that the scheduler keeps, whatever a process has left of its quantum. -/
structure Kept (P : Proc → Prop) : Prop where
  congr : ∀ {r r' : Proc}, r'.priority = r.priority → r'.maxPriority = r.maxPriority →
    r'.scheduler = r.scheduler → r'.ticksLeft = r.ticksLeft → r'.quantumSize = r.quantumSize →
    P r → P r'
  sched : ∀ {r : Proc}, P r → P (sched r).1
  raise : ∀ {r : Proc}, P r → r.maxPriority < r.priority → P { r with priority := r.priority - 1 }
  nice : ∀ {r : Proc} (pri : Int), P r →
    P { r with maxPriority := niceQueue pri, priority := niceQueue pri }
  ticks : ∀ {r : Proc} (n : Int), P r → P { r with ticksLeft := toChar n }
  renew : ∀ {r : Proc}, P r → P { r with ticksLeft := r.quantumSize }

theorem Closed.kept (h : Closed P) : Kept P where
  congr hpriority hmax hscheduler _ _ := h.congr hpriority hmax hscheduler
  sched := h.sched
  raise := h.raise
  nice := h.nice
  ticks _ := h.congr rfl rfl rfl
  renew := h.congr rfl rfl rfl

def Everywhere (P : Proc → Prop) (s : Kernel) : Prop := ∀ r, P (s.proc r)

namespace Everywhere

theorem setProc (h : Everywhere P s) (hf : P (f (s.proc rp))) : Everywhere P (s.setProc rp f) := by
  intro r
  by_cases hr : r = rp
  · subst hr
    rwa [Kernel.setProc_self]
  · rw [Kernel.setProc_of_ne hr]
    exact h r

theorem of_proc_eq (h : Everywhere P s) (hproc : s'.proc = s.proc) : Everywhere P s' := by
  intro r
  rw [hproc]
  exact h r

section Kept

variable (hP : Kept P)

include hP

/-- Other fields do not matter. -/
theorem set (h : Everywhere P s) (hpriority : (f (s.proc rp)).priority = (s.proc rp).priority)
    (hmax : (f (s.proc rp)).maxPriority = (s.proc rp).maxPriority)
    (hscheduler : (f (s.proc rp)).scheduler = (s.proc rp).scheduler)
    (hticks : (f (s.proc rp)).ticksLeft = (s.proc rp).ticksLeft)
    (hquantum : (f (s.proc rp)).quantumSize = (s.proc rp).quantumSize) :
    Everywhere P (s.setProc rp f) :=
  h.setProc (hP.congr hpriority hmax hscheduler hticks hquantum (h rp))

/-! ## the ready lists -/

theorem setReadyLink {q : Queue} {place x : Option ProcPtr} (h : Everywhere P s) :
    Everywhere P (s.setReadyLink q place x) := by
  cases place with
  | none => exact h
  | some b =>
    have hset : Everywhere P (s.setProc b fun r => { r with nextready := x }) :=
      h.set hP rfl rfl rfl rfl rfl
    exact hset

theorem removeReady {q : Queue} {place : Option ProcPtr} (h : Everywhere P s) :
    Everywhere P (s.removeReady q rp place) := by
  unfold Kernel.removeReady
  dsimp only
  split
  · exact (h.setReadyLink hP).of_proc_eq rfl
  · exact h.setReadyLink hP

theorem dequeue (h : Everywhere P s) (hstep : dequeue rp s = some s') : Everywhere P s' := by
  obtain ⟨-, place, x, -, hcases⟩ := dequeue_cases hstep
  rcases hcases with ⟨-, rfl⟩ | ⟨-, -, rfl⟩ | ⟨-, -, rfl⟩
  · exact h
  · exact (h.removeReady hP).of_proc_eq pickProc_proc
  · exact h.removeReady hP

theorem setNextready {x : Option ProcPtr} (h : Everywhere P s) :
    Everywhere P (s.setNextready rp x) :=
  h.set hP rfl rfl rfl rfl rfl

theorem enqueue (h : Everywhere P s) (hstep : enqueue rp s = some s') : Everywhere P s' := by
  obtain ⟨s₁, q, rfl, -, -, hcases⟩ := enqueue_cases hstep
  have h₁ : Everywhere P (s.setProc rp fun _ => (Minix.sched (s.proc rp)).1) :=
    h.setProc (hP.sched (h rp))
  generalize (s.setProc rp fun _ => (Minix.sched (s.proc rp)).1) = s₁ at h₁ hcases
  rcases hcases with ⟨-, rfl⟩ | ⟨head, -, -, rfl⟩ | ⟨head, tail, -, -, rfl⟩
  · have hset : Everywhere P ((s₁.setHead q (some rp)).setTail q (some rp)) := h₁.of_proc_eq rfl
    exact (hset.setNextready hP).of_proc_eq pickProc_proc
  · have hset : Everywhere P ((s₁.setNextready rp (some head)).setHead q (some rp)) :=
      (h₁.setNextready hP).of_proc_eq rfl
    exact hset.of_proc_eq pickProc_proc
  · have hset : Everywhere P ((s₁.setNextready tail (some rp)).setTail q (some rp)) :=
      (h₁.setNextready hP).of_proc_eq rfl
    exact (hset.setNextready hP).of_proc_eq pickProc_proc

theorem dequeueReady (h : Everywhere P s) (hstep : dequeueReady rp s = some s') :
    Everywhere P s' := by
  unfold Minix.dequeueReady at hstep
  split at hstep
  · exact h.dequeue hP hstep
  · cases hstep
    exact h

theorem enqueueReady (h : Everywhere P s) (hstep : enqueueReady rp s = some s') :
    Everywhere P s' := by
  unfold Minix.enqueueReady at hstep
  split at hstep
  · exact h.enqueue hP hstep
  · cases hstep
    exact h

theorem unset (h : Everywhere P s) (hstep : unset flag rp s = some s') : Everywhere P s' :=
  (h.set hP rfl rfl rfl rfl rfl).enqueueReady hP hstep

theorem block (h : Everywhere P s) (hstep : block flag rp s = some s') : Everywhere P s' := by
  unfold Minix.block at hstep
  obtain ⟨s₁, hdequeue, hstep⟩ := Option.bind_eq_some_iff.mp hstep
  cases hstep
  exact (h.dequeueReady hP hdequeue).set hP rfl rfl rfl rfl rfl

/-! ## messages -/

section Messages

variable {callerPtr dstPtr dst : ProcPtr} {srcE srcP dstE : Int} {nonBlocking : Bool}
  {place z : Option ProcPtr}

theorem setCallerLink (h : Everywhere P s) : Everywhere P (s.setCallerLink dst place z) := by
  unfold Kernel.setCallerLink
  cases place with
  | none => exact h.set hP rfl rfl rfl rfl rfl
  | some b => exact h.set hP rfl rfl rfl rfl rfl

theorem miniSend (h : Everywhere P s)
    (hstep : miniSend callerPtr dstE nonBlocking s = some (e, s')) : Everywhere P s' := by
  unfold Minix.miniSend at hstep
  obtain ⟨dst, -, hstep⟩ := Option.bind_eq_some_iff.mp hstep
  dsimp only at hstep
  split at hstep
  · cases hstep
    exact h
  · split at hstep
    · obtain ⟨s₁, hunset, hstep⟩ := Option.bind_eq_some_iff.mp hstep
      cases hstep
      exact h.unset hP hunset
    · split at hstep
      · obtain ⟨s₁, hblock, hstep⟩ := Option.bind_eq_some_iff.mp hstep
        obtain ⟨⟨place, z⟩, -, hstep⟩ := Option.bind_eq_some_iff.mp hstep
        cases hstep
        have h₁ : Everywhere P (s₁.setProc callerPtr fun r => { r with sendtoE := dstE }) :=
          (h.block hP hblock).set hP rfl rfl rfl rfl rfl
        exact (h₁.setCallerLink hP).set hP rfl rfl rfl rfl rfl
      · cases hstep
        exact h

theorem waitMessage (h : Everywhere P s)
    (hstep : waitMessage callerPtr srcE nonBlocking s = some (e, s')) : Everywhere P s' := by
  unfold Minix.waitMessage at hstep
  split at hstep
  · obtain ⟨s₁, hblock, hstep⟩ := Option.bind_eq_some_iff.mp hstep
    cases hstep
    have h₁ : Everywhere P (s.setProc callerPtr fun r => { r with getfromE := srcE }) :=
      h.set hP rfl rfl rfl rfl rfl
    exact h₁.block hP hblock
  · cases hstep
    exact h

theorem takeMessage (h : Everywhere P s)
    (hstep : takeMessage callerPtr srcE srcP nonBlocking s = some (e, s')) : Everywhere P s' := by
  unfold Minix.takeMessage at hstep
  obtain ⟨⟨place, c⟩, -, hstep⟩ := Option.bind_eq_some_iff.mp hstep
  cases c with
  | none => exact h.waitMessage hP hstep
  | some x =>
    obtain ⟨s₁, hunset, hstep⟩ := Option.bind_eq_some_iff.mp hstep
    cases hstep
    exact (h.unset hP hunset).setCallerLink hP

theorem miniReceive (h : Everywhere P s)
    (hstep : miniReceive callerPtr srcE nonBlocking s = some (e, s')) : Everywhere P s' := by
  unfold Minix.miniReceive at hstep
  obtain ⟨dead, -, hstep⟩ := Option.bind_eq_some_iff.mp hstep
  dsimp only at hstep
  split at hstep
  · cases hstep
    exact h
  · split at hstep
    · split at hstep
      · cases hstep
        exact h.of_proc_eq rfl
      · exact h.takeMessage hP hstep
    · exact h.waitMessage hP hstep

theorem miniNotify (h : Everywhere P s) (hstep : miniNotify callerPtr dstPtr s = some (e, s')) :
    Everywhere P s' := by
  unfold Minix.miniNotify at hstep
  dsimp only at hstep
  split at hstep
  · obtain ⟨s₁, hunset, hstep⟩ := Option.bind_eq_some_iff.mp hstep
    cases hstep
    exact h.unset hP hunset
  · cases hstep
    exact h.of_proc_eq rfl

theorem lockNotify (h : Everywhere P s) (hstep : lockNotify srcE dstE s = some (e, s')) :
    Everywhere P s' := by
  unfold Minix.lockNotify at hstep
  split at hstep
  · exact h.miniNotify hP hstep
  · cases hstep
    exact h

theorem sysCall {function : Function} {srcDstE : Int} (h : Everywhere P s)
    (hstep : sysCall callerPtr function srcDstE nonBlocking s = some (e, s')) :
    Everywhere P s' := by
  unfold Minix.sysCall at hstep
  split at hstep
  · cases hstep
    exact h
  · cases function with
    | send => exact h.miniSend hP hstep
    | receive => exact (h.set hP rfl rfl rfl rfl rfl).miniReceive hP hstep
    | sendrec =>
      obtain ⟨⟨result, s₁⟩, hsend, hstep⟩ := Option.bind_eq_some_iff.mp hstep
      have h₁ : Everywhere P (s.setProc callerPtr fun r => { r with replyPending := true }) :=
        h.set hP rfl rfl rfl rfl rfl
      have h₂ := h₁.miniSend hP hsend
      dsimp only at hstep
      split at hstep
      · cases hstep
        exact h₂
      · exact h₂.miniReceive hP hstep
    | notify =>
      obtain ⟨dst, -, hstep⟩ := Option.bind_eq_some_iff.mp hstep
      exact h.miniNotify hP hstep
    | echo =>
      cases hstep
      exact h

end Messages

/-! ## the kernel calls and the clock -/

theorem doNice {endpt pri : Int} (h : Everywhere P s) (hstep : doNice endpt pri s = some (e, s')) :
    Everywhere P s' := by
  unfold Minix.doNice at hstep
  split at hstep
  · cases hstep
    exact h
  · split at hstep
    · cases hstep
      exact h
    · split at hstep
      · obtain ⟨s₁, hdequeue, hstep⟩ := Option.bind_eq_some_iff.mp hstep
        cases hstep
        exact (h.dequeue hP hdequeue).set hP rfl rfl rfl rfl rfl
      · split at hstep
        · obtain ⟨s₁, hdequeue, hstep⟩ := Option.bind_eq_some_iff.mp hstep
          obtain ⟨s₂, henqueue, hstep⟩ := Option.bind_eq_some_iff.mp hstep
          cases hstep
          have h₁ := h.dequeue hP hdequeue
          exact (h₁.setProc (hP.nice pri (h₁ _))).enqueueReady hP henqueue
        · cases hstep
          exact h

theorem doSetscheduler {endpt policy : Int} (h : Everywhere P s)
    (hpolicy : ∀ r, P r → P { r with scheduler := toChar policy })
    (hstep : doSetscheduler endpt policy s = some (e, s')) : Everywhere P s' := by
  unfold Minix.doSetscheduler at hstep
  split at hstep
  · cases hstep
    exact h
  · split at hstep
    · cases hstep
      exact h
    · obtain ⟨s₁, hdequeue, hstep⟩ := Option.bind_eq_some_iff.mp hstep
      obtain ⟨s₂, henqueue, hstep⟩ := Option.bind_eq_some_iff.mp hstep
      cases hstep
      have h₁ := h.dequeue hP hdequeue
      exact (h₁.setProc (hpolicy _ (h₁ _))).enqueueReady hP henqueue

/-- The child has the priorities and the policy of its parent. -/
theorem doFork {endpt slot : Int} (h : Everywhere P s)
    (hstep : doFork endpt slot s = some (e, s')) : Everywhere P s' := by
  unfold Minix.doFork at hstep
  split at hstep
  · cases hstep
    exact h
  · next rpp hrpp =>
    obtain ⟨rpc, -, hstep⟩ := Option.bind_eq_some_iff.mp hstep
    split at hstep
    · cases hstep
      exact h
    · cases hstep
      have hchild := hP.ticks (((s.proc rpp).ticksLeft + 1).tdiv 2) (h rpp)
      have h₁ : Everywhere P (s.setProc rpc fun _ => childOf s rpp rpc slot) := by
        refine h.setProc (hP.congr ?_ ?_ ?_ ?_ ?_ hchild) <;> rfl
      exact h₁.setProc (hP.ticks _ (h₁ rpp))

theorem doNewmap {endpt : Int} {mapped : Bool} (h : Everywhere P s)
    (hstep : doNewmap endpt mapped s = some (e, s')) : Everywhere P s' := by
  unfold Minix.doNewmap at hstep
  split at hstep
  · cases hstep
    exact h
  · next rp hrp =>
    have hset : Everywhere P (s.setProc rp fun r => { r with rtsFlags := r.rtsFlags.erase .noMap }) :=
      h.set hP rfl rfl rfl rfl rfl
    split at hstep
    · cases hstep
      exact h
    · split at hstep
      · cases hstep
        exact h
      · dsimp only at hstep
        split at hstep
        · obtain ⟨s₁, henqueue, hstep⟩ := Option.bind_eq_some_iff.mp hstep
          cases hstep
          exact hset.enqueueReady hP henqueue
        · cases hstep
          exact hset

theorem alertProcess {rc : ProcPtr} (h : Everywhere P s)
    (hstep : alertProcess rc rp s = some s') : Everywhere P s' := by
  unfold Minix.alertProcess at hstep
  split at hstep
  · cases hstep
    exact h
  · obtain ⟨s₁, hreceiving, hsending⟩ := Option.bind_eq_some_iff.mp hstep
    have hpriv : Everywhere P (s.setPriv (s.proc rp).priv fun p =>
        { p with notifyPending := p.notifyPending.erase (s.proc rc).priv }) := h.of_proc_eq rfl
    have h₁ : Everywhere P s₁ := by
      unfold Minix.stopReceiving at hreceiving
      split at hreceiving
      · exact hpriv.unset hP hreceiving
      · cases hreceiving
        exact hpriv
    unfold Minix.stopSending at hsending
    split at hsending
    · exact h₁.unset hP hsending
    · cases hsending
      exact h₁

theorem leaveQueue {rc : ProcPtr} (h : Everywhere P s) (hstep : leaveQueue rc s = some s') :
    Everywhere P s' := by
  unfold Minix.leaveQueue at hstep
  split at hstep
  · obtain ⟨target, -, hstep⟩ := Option.bind_eq_some_iff.mp hstep
    obtain ⟨⟨place, x⟩, -, hstep⟩ := Option.bind_eq_some_iff.mp hstep
    cases hstep
    cases x with
    | none => exact h.set hP rfl rfl rfl rfl rfl
    | some c => exact (h.setCallerLink hP).set hP rfl rfl rfl rfl rfl
  · cases hstep
    exact h

theorem clearEndpoint {rc : ProcPtr} (h : Everywhere P s)
    (hstep : clearEndpoint rc s = some s') : Everywhere P s' := by
  unfold Minix.clearEndpoint at hstep
  split at hstep
  · cases hstep
  · obtain ⟨s₁, hblock, hstep⟩ := Option.bind_eq_some_iff.mp hstep
    obtain ⟨s₂, hleave, hstep⟩ := Option.bind_eq_some_iff.mp hstep
    have h₂ := (h.block hP hblock).leaveQueue hP hleave
    exact foldlM_keeps (fun h hstep => alertProcess hP h hstep) (h₂.set hP rfl rfl rfl rfl rfl) hstep

theorem clearProc {rc : ProcPtr} (h : Everywhere P s) (hstep : clearProc rc s = some s') :
    Everywhere P s' := by
  unfold Minix.clearProc at hstep
  split at hstep
  · cases hstep
    exact h
  · obtain ⟨s₁, hclear, hstep⟩ := Option.bind_eq_some_iff.mp hstep
    obtain ⟨s₂, hdequeue, hstep⟩ := Option.bind_eq_some_iff.mp hstep
    have h₂ := (h.clearEndpoint hP hclear).dequeueReady hP hdequeue
    have h₃ : Everywhere P (s₂.setProc rc fun r => { r with rtsFlags := {.slotFree} }) :=
      h₂.set hP rfl rfl rfl rfl rfl
    dsimp only at hstep
    split at hstep
    · cases hstep
      exact h₃.of_proc_eq rfl
    · cases hstep
      exact h₃

theorem doExit {whoP endpt : Int} (h : Everywhere P s)
    (hstep : doExit whoP endpt s = some (e, s')) : Everywhere P s' := by
  unfold Minix.doExit at hstep
  split at hstep
  · split at hstep
    · cases hstep
      exact h
    · obtain ⟨s₁, hclear, hstep⟩ := Option.bind_eq_some_iff.mp hstep
      cases hstep
      exact h.clearProc hP hclear
  · obtain ⟨rc, -, hstep⟩ := Option.bind_eq_some_iff.mp hstep
    obtain ⟨s₁, hclear, hstep⟩ := Option.bind_eq_some_iff.mp hstep
    cases hstep
    exact h.clearProc hP hclear

theorem chargeTicks {ticks : Int} (h : Everywhere P s) (hstep : chargeTicks ticks s = some s') :
    Everywhere P s' := by
  have hcharged : ∀ {s : Kernel} {rp : ProcPtr}, Everywhere P s → Everywhere P
      (s.setProc rp fun r => { r with ticksLeft := toChar (r.ticksLeft - ticks) }) :=
    fun h => h.setProc (hP.ticks _ (h _))
  unfold Minix.chargeTicks at hstep
  obtain ⟨procPtr, -, hstep⟩ := Option.bind_eq_some_iff.mp hstep
  dsimp only at hstep
  have h₁ : Everywhere P (if .preemptible ∈ (s.priv (s.proc procPtr).priv).flags ∧
      (s.proc procPtr).scheduler ≠ SCHED_FIFO then
        s.setProc procPtr fun r => { r with ticksLeft := toChar (r.ticksLeft - ticks) }
      else s) := by
    split
    · exact hcharged h
    · exact h
  by_cases hbill : PrivFlag.billable ∉ (s.priv (s.proc procPtr).priv).flags
  · rw [if_pos hbill] at hstep
    obtain ⟨billPtr, -, hstep⟩ := Option.bind_eq_some_iff.mp hstep
    cases hstep
    exact hcharged h₁
  · rw [if_neg hbill] at hstep
    cases hstep
    exact h₁

theorem clockHandler {ticks : Int} {timeout : Bool} (h : Everywhere P s)
    (hstep : clockHandler ticks timeout s = some s') : Everywhere P s' := by
  unfold Minix.clockHandler at hstep
  obtain ⟨s₁, hcharge, hstep⟩ := Option.bind_eq_some_iff.mp hstep
  obtain ⟨procPtr, -, hstep⟩ := Option.bind_eq_some_iff.mp hstep
  have h₁ := h.chargeTicks hP hcharge
  split at hstep
  · obtain ⟨⟨result, s₂⟩, hnotify, hstep⟩ := Option.bind_eq_some_iff.mp hstep
    cases hstep
    have hprev : Everywhere P { s₁ with prevPtr := some procPtr } := h₁.of_proc_eq rfl
    exact hprev.lockNotify hP hnotify
  · cases hstep
    exact h₁

theorem doClocktick (h : Everywhere P s) (hstep : doClocktick s = some s') : Everywhere P s' := by
  unfold Minix.doClocktick at hstep
  obtain ⟨rp, -, hstep⟩ := Option.bind_eq_some_iff.mp hstep
  dsimp only at hstep
  split at hstep
  · obtain ⟨s₁, hdequeue, henqueue⟩ := Option.bind_eq_some_iff.mp hstep
    exact (h.dequeue hP hdequeue).enqueue hP henqueue
  · cases hstep
    exact h

theorem balanceProcess (h : Everywhere P s) (hstep : balanceProcess rp s = some s') :
    Everywhere P s' := by
  unfold Minix.balanceProcess at hstep
  split at hstep
  · cases hstep
    exact h
  · split at hstep
    · next hraise =>
      obtain ⟨s₁, hdequeue, henqueue⟩ := Option.bind_eq_some_iff.mp hstep
      have h₁ := h.dequeueReady hP hdequeue
      refine (h₁.setProc (hP.raise (h₁ rp) ?_)).enqueueReady hP henqueue
      -- the process has not changed so far
      have hsame : (s₁.proc rp).maxPriority = (s.proc rp).maxPriority ∧
          s₁.queueOf rp = s.queueOf rp := by
        unfold Minix.dequeueReady at hdequeue
        split at hdequeue
        · obtain ⟨hmoves, hqueue⟩ := dequeue_moves hdequeue
          exact ⟨hmoves.field (g := Proc.maxPriority) (fun _ _ _ _ => rfl) rp, hqueue rp⟩
        · cases hdequeue
          exact ⟨rfl, rfl⟩
      have hpriority : (s₁.proc rp).priority = (s.proc rp).priority := congrArg Prod.fst hsame.2
      rw [hsame.1, hpriority]
      exact hraise
    · cases hstep
      exact h.setProc (hP.renew (h rp))

theorem op {op : Op} (h : Everywhere P s)
    (hpolicy : ∀ endpt policy, op = .doSetscheduler endpt policy →
      ∀ r, P r → P { r with scheduler := toChar policy })
    (hstep : op.run s = some s') : Everywhere P s' := by
  cases op with
  | sysCall callerPtr function srcDstE nonBlocking =>
    obtain ⟨⟨e, s₁⟩, hrun, rfl⟩ := Option.map_eq_some_iff.mp hstep
    exact h.sysCall hP hrun
  | lockNotify srcE dstE =>
    obtain ⟨⟨e, s₁⟩, hrun, rfl⟩ := Option.map_eq_some_iff.mp hstep
    exact h.lockNotify hP hrun
  | doNice endpt pri =>
    obtain ⟨⟨e, s₁⟩, hrun, rfl⟩ := Option.map_eq_some_iff.mp hstep
    exact h.doNice hP hrun
  | doSetscheduler endpt policy =>
    obtain ⟨⟨e, s₁⟩, hrun, rfl⟩ := Option.map_eq_some_iff.mp hstep
    exact h.doSetscheduler hP (hpolicy endpt policy rfl) hrun
  | doClocktick => exact h.doClocktick hP hstep
  | balanceQueues => exact foldlM_keeps (fun h hstep => balanceProcess hP h hstep) h hstep
  | doFork endpt slot =>
    obtain ⟨⟨e, s₁⟩, hrun, rfl⟩ := Option.map_eq_some_iff.mp hstep
    exact h.doFork hP hrun
  | doNewmap endpt mapped =>
    obtain ⟨⟨e, s₁⟩, hrun, rfl⟩ := Option.map_eq_some_iff.mp hstep
    exact h.doNewmap hP hrun
  | doExit whoP endpt =>
    obtain ⟨⟨e, s₁⟩, hrun, rfl⟩ := Option.map_eq_some_iff.mp hstep
    exact h.doExit hP hrun
  | clockHandler ticks timeout => exact h.clockHandler hP hstep
  | restart =>
    cases hstep
    refine h.of_proc_eq ?_
    unfold Minix.restart
    split <;> rfl

end Kept

end Everywhere

/-! ## the indices of the ready lists -/

/-- A policy that has ready lists. -/
def ValidPolicy (policy : Int) : Prop := 0 ≤ policy ∧ policy < NR_SCHED_POLICIES

instance (policy : Int) : Decidable (ValidPolicy policy) :=
  inferInstanceAs (Decidable (0 ≤ policy ∧ policy < NR_SCHED_POLICIES))

/-- The list of the process exists, and so do the lists it may come to. -/
def Bounded (r : Proc) : Prop := 0 ≤ r.maxPriority ∧ InRange (r.priority, r.scheduler)

instance (r : Proc) : Decidable (Bounded r) :=
  inferInstanceAs (Decidable (0 ≤ r.maxPriority ∧ InRange (r.priority, r.scheduler)))

theorem niceQueue_inRange (pri : Int) : 0 ≤ niceQueue pri ∧ niceQueue pri < NR_SCHED_QUEUES := by
  unfold niceQueue MAX_USER_Q MIN_USER_Q NR_SCHED_QUEUES
  dsimp only
  constructor
  · split
    · decide
    · split <;> omega
  · split <;> omega

/-- The list that `enqueue` takes exists. -/
theorem Bounded.sched {r : Proc} (h : Bounded r) : InRange (sched r).2.1 := by
  obtain ⟨-, hqueue, hpolicy⟩ := h
  unfold Minix.sched
  split
  · exact ⟨hqueue, hpolicy⟩
  · split
    · unfold schedRr
      dsimp only
      split <;> exact ⟨hqueue, hpolicy⟩
    · unfold schedOther
      dsimp only
      split
      · exact ⟨hqueue, hpolicy⟩
      · refine ⟨?_, hpolicy⟩
        unfold NR_SCHED_QUEUES IDLE_Q at *
        dsimp only at hqueue ⊢
        split <;> omega

theorem bounded_closed : Closed Bounded where
  congr hpriority hmax hscheduler h := by
    unfold Bounded at h ⊢
    rwa [hpriority, hmax, hscheduler]
  sched {r} h := by
    obtain ⟨hproc, hqueue, -, -⟩ := sched_spec r
    refine ⟨?_, hqueue ▸ h.sched⟩
    rw [hproc]
    exact h.1
  raise h hraise := by
    refine ⟨h.1, ⟨?_, ?_⟩, h.2.2⟩
    · have := h.1
      dsimp only
      omega
    · have := h.2.1.2
      dsimp only at this ⊢
      omega
  nice pri h := ⟨(niceQueue_inRange pri).1, niceQueue_inRange pri, h.2.2⟩

theorem Bounded.policy {r : Proc} (h : Bounded r) {policy : Int} (hpolicy : ValidPolicy policy) :
    Bounded { r with scheduler := toChar policy } := by
  have hchar : toChar policy = policy := by
    unfold ValidPolicy NR_SCHED_POLICIES at hpolicy
    obtain rfl | rfl | rfl : policy = 0 ∨ policy = 1 ∨ policy = 2 := by omega
    all_goals rfl
  exact ⟨h.1, h.2.1, by rw [hchar]; exact hpolicy⟩

/-! ## booting -/

theorem boot_bounded (h : boot = some s) : Everywhere Bounded s := by
  have hall : boot.all fun s => ∀ r, Bounded (s.proc r) := by
    decide +kernel
  rw [h] at hall
  have hs := of_decide_eq_true hall
  exact hs

/-- `main` leaves `p_scheduler` as it is in the memory that has been cleared. -/
theorem boot_fifo (h : boot = some s) : Everywhere (fun r => r.scheduler = SCHED_FIFO) s := by
  have hall : boot.all fun s => ∀ r, (s.proc r).scheduler = SCHED_FIFO := by
    decide +kernel
  rw [h] at hall
  have hs := of_decide_eq_true hall
  exact hs

theorem fifo_closed : Closed fun r => r.scheduler = SCHED_FIFO where
  congr _ _ hscheduler h := hscheduler.trans h
  sched {r} h := by
    rw [(sched_spec r).1]
    exact h
  raise h _ := h
  nice _ h := h

end Minix
