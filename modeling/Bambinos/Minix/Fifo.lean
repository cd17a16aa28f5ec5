import Bambinos.Infra.Succession
import Bambinos.Minix.IpcRuns

/-!
# The order of the processes with policy `SCHED_FIFO`

* `Shifts` — what happens to the lists of that policy
* `Op.Displaces` — the processes that an operation may take off
* `fifo_order` — the others keep their order, and who is put on comes behind them
* `merged_queue_drops` — a process is lost when a queue of callers has been copied
-/

namespace Minix

open Infra

variable {s s' s₁ : Kernel} {r rp x y : ProcPtr} {q : Queue} {L L' : Queue → List ProcPtr}
  {R D D' : ProcPtr → Prop} {f : Proc → Proc} {flag : RtsFlag} {e : Int}

/-! ## the lists -/

/-- Only processes with `D` leave the lists of the policy, and others come to the ends. -/
def Shifts (D : ProcPtr → Prop) (s s' : Kernel) : Prop :=
  ∃ L L', ReadyLists s L ∧ ReadyLists s' L' ∧
    ∀ q : Queue, q.2 = SCHED_FIFO → Succeeds D (L q) (L' q)

theorem ReadyLists.unique (h : ReadyLists s L) (h' : ReadyLists s L') : L = L' :=
  funext fun q => (h.chain q).unique (h'.chain q)

namespace Shifts

theorem of_same (h : ReadyLists s L) (h' : ReadyLists s' L) : Shifts D s s' :=
  ⟨L, L, h, h', fun q _ => .refl D (L q)⟩

theorem refl (h : Ready s R) : Shifts D s s := by
  obtain ⟨L, hL, -⟩ := h
  exact of_same hL hL

theorem trans (h : Shifts D s s₁) (h' : Shifts D s₁ s') : Shifts D s s' := by
  obtain ⟨L, L₁, hL, hL₁, hfst⟩ := h
  obtain ⟨L₁', L', hL₁', hL', hsnd⟩ := h'
  obtain rfl := hL₁.unique hL₁'
  exact ⟨L, L', hL, hL', fun q hq => (hfst q hq).trans (hL₁.chain q).nodup (hsnd q hq)⟩

theorem mono (h : Shifts D s s') (hD : ∀ r, D r → D' r) : Shifts D' s s' := by
  obtain ⟨L, L', hL, hL', h⟩ := h
  exact ⟨L, L', hL, hL', fun q hq => (h q hq).mono hD⟩

theorem of_fields (h : Ready s R) (hhead : s'.rdyHead = s.rdyHead) (htail : s'.rdyTail = s.rdyTail)
    (hlink : ∀ r, (s'.proc r).nextready = (s.proc r).nextready)
    (hpriority : ∀ r, (s'.proc r).priority = (s.proc r).priority)
    (hscheduler : ∀ r, (s'.proc r).scheduler = (s.proc r).scheduler) : Shifts D s s' := by
  obtain ⟨L, hL, -⟩ := h
  exact of_same hL (hL.of_fields hhead htail hlink hpriority hscheduler)

theorem of_proc_eq (h : Ready s R) (hproc : s'.proc = s.proc) (hhead : s'.rdyHead = s.rdyHead)
    (htail : s'.rdyTail = s.rdyTail) : Shifts D s s' :=
  of_fields h hhead htail (fun r => by rw [hproc]) (fun r => by rw [hproc]) fun r => by rw [hproc]

theorem setProc (h : Ready s R) (hlink : (f (s.proc rp)).nextready = (s.proc rp).nextready)
    (hpriority : (f (s.proc rp)).priority = (s.proc rp).priority)
    (hscheduler : (f (s.proc rp)).scheduler = (s.proc rp).scheduler) :
    Shifts D s (s.setProc rp f) :=
  of_fields h rfl rfl (Kernel.setProc_field (g := Proc.nextready) hlink)
    (Kernel.setProc_field (g := Proc.priority) hpriority)
    (Kernel.setProc_field (g := Proc.scheduler) hscheduler)

theorem setProc_of_not (h : Ready s R) (hnot : ¬ R rp) : Shifts D s (s.setProc rp f) := by
  obtain ⟨L, hL, hR⟩ := h
  exact of_same hL (hL.setProc_of_not (hL.not_mem hR hnot))

theorem dequeue (h : Ready s R) (hD : D rp) (hstep : dequeue rp s = some s') : Shifts D s s' := by
  obtain ⟨L, hL, -⟩ := h
  obtain ⟨L', hL', heq⟩ := hL.dequeue hstep
  refine ⟨L, L', hL, hL', fun q _ => ?_⟩
  rw [heq]
  exact .erase hD (L q)

/-- A process of the policy is put on at the end. -/
theorem enqueue (h : Ready s R) (hnot : ¬ R rp) (hstep : enqueue rp s = some s') :
    Shifts D s s' := by
  obtain ⟨L, hL, hR⟩ := h
  obtain ⟨L', hL', hother, hself, -⟩ := hL.enqueue (hL.not_mem hR hnot) hstep
  have hscheduler : (s'.proc rp).scheduler = (s.proc rp).scheduler :=
    (enqueue_moves hstep).field (g := Proc.scheduler) (fun _ _ _ _ => rfl) rp
  refine ⟨L, L', hL, hL', fun q hq => ?_⟩
  by_cases hrp : q = s'.queueOf rp
  · subst hrp
    rcases hself with hself | ⟨hpolicy, -⟩
    · rw [hself]
      exact .append D _ _
    · exact absurd (hscheduler.symm.trans hq) hpolicy
  · rw [hother q hrp]
    exact .refl D (L q)

/-! ## the three ways the lists are used -/

theorem enqueueReady (h : Ready s R) (hnot : ¬ R rp) (hstep : enqueueReady rp s = some s') :
    Shifts D s s' := by
  unfold Minix.enqueueReady at hstep
  split at hstep
  · exact enqueue h hnot hstep
  · cases hstep
    exact refl h

theorem wake {flags : Finset RtsFlag} (h : Runnable s) (hset : (s.proc rp).rtsFlags ≠ ∅)
    (hstep : Minix.enqueueReady rp (s.setProc rp fun r => { r with rtsFlags := flags }) = some s') :
    Shifts D s s' := by
  have hready : Ready (s.setProc rp fun r => { r with rtsFlags := flags })
      fun r => (s.proc r).rtsFlags = ∅ := Ready.setProc h rfl rfl rfl
  exact (setProc h rfl rfl rfl).trans (enqueueReady hready hset hstep)

theorem unset (h : Runnable s) (hflag : flag ∈ (s.proc rp).rtsFlags)
    (hstep : unset flag rp s = some s') : Shifts D s s' :=
  wake h (Finset.ne_empty_of_mem hflag) hstep

theorem dequeueReady (h : Ready s R) (hD : D rp) (hstep : dequeueReady rp s = some s') :
    Shifts D s s' := by
  unfold Minix.dequeueReady at hstep
  split at hstep
  · exact dequeue h hD hstep
  · cases hstep
    exact refl h

theorem block (h : Runnable s) (hD : D rp) (hstep : block flag rp s = some s') : Shifts D s s' := by
  unfold Minix.block at hstep
  obtain ⟨s₁, hoff, hstep⟩ := Option.bind_eq_some_iff.mp hstep
  cases hstep
  exact (dequeueReady h hD hoff).trans (setProc (h.off hoff).1 rfl rfl rfl)

/-- A process that has been taken off is changed, and put on again if it is runnable. -/
theorem requeue (h : Ready s R) (hnot : ¬ R rp)
    (hstep : Minix.enqueueReady rp (s.setProc rp f) = some s') : Shifts D s s' :=
  (setProc_of_not h hnot).trans (enqueueReady (h.setProc_of_not hnot) hnot hstep)

/-! ## messages -/

section Messages

variable {callerPtr dstPtr dst : ProcPtr} {srcE srcP dstE : Int} {nonBlocking : Bool}
  {place z : Option ProcPtr}

theorem setCallerLink (h : Ready s R) : Shifts D s (s.setCallerLink dst place z) := by
  unfold Kernel.setCallerLink
  cases place with
  | none => exact setProc h rfl rfl rfl
  | some b => exact setProc h rfl rfl rfl

theorem miniSend (h : Runnable s)
    (hD : .sending ∈ (s'.proc callerPtr).rtsFlags → D callerPtr)
    (hstep : miniSend callerPtr dstE nonBlocking s = some (e, s')) : Shifts D s s' := by
  unfold Minix.miniSend at hstep
  obtain ⟨dst, -, hstep⟩ := Option.bind_eq_some_iff.mp hstep
  dsimp only at hstep
  split at hstep
  · cases hstep
    exact refl h
  · split at hstep
    · next hreceiving =>
      obtain ⟨s₁, hunset, hstep⟩ := Option.bind_eq_some_iff.mp hstep
      cases hstep
      exact unset h hreceiving.1.1 hunset
    · split at hstep
      · obtain ⟨s₁, hblock, hstep⟩ := Option.bind_eq_some_iff.mp hstep
        obtain ⟨⟨place, z⟩, -, hstep⟩ := Option.bind_eq_some_iff.mp hstep
        cases hstep
        obtain ⟨hrun, -, hflags⟩ := block_spec h hblock
        have hsending : D callerPtr := by
          refine hD ?_
          rw [addCaller_field (g := Proc.rtsFlags) (fun _ _ => rfl) fun _ _ => rfl,
            Kernel.setProc_field (g := Proc.rtsFlags) rfl, hflags.1]
          exact Finset.mem_insert_self _ _
        have hset : Runnable (s₁.setProc callerPtr fun r => { r with sendtoE := dstE }) :=
          hrun.setProc rfl rfl rfl rfl
        exact (((block h hsending hblock).trans (setProc hrun rfl rfl rfl)).trans
          (setCallerLink hset)).trans (setProc hset.setCallerLink rfl rfl rfl)
      · cases hstep
        exact refl h

theorem waitMessage (h : Runnable s) (hD : (s'.proc callerPtr).rtsFlags ≠ ∅ → D callerPtr)
    (hstep : waitMessage callerPtr srcE nonBlocking s = some (e, s')) : Shifts D s s' := by
  unfold Minix.waitMessage at hstep
  split at hstep
  · obtain ⟨s₁, hblock, hstep⟩ := Option.bind_eq_some_iff.mp hstep
    cases hstep
    have hset : Runnable (s.setProc callerPtr fun r => { r with getfromE := srcE }) :=
      h.setProc rfl rfl rfl rfl
    refine (setProc h rfl rfl rfl).trans (block hset (hD ?_) hblock)
    rw [(block_spec hset hblock).2.2.1]
    exact Finset.insert_ne_empty _ _
  · cases hstep
    exact refl h

theorem takeMessage (h : Consistent s) (halive : Alive s callerPtr)
    (hD : (s'.proc callerPtr).rtsFlags ≠ ∅ → D callerPtr)
    (hstep : takeMessage callerPtr srcE srcP nonBlocking s = some (e, s')) : Shifts D s s' := by
  unfold Minix.takeMessage at hstep
  obtain ⟨⟨place, c⟩, hseek, hstep⟩ := Option.bind_eq_some_iff.mp hstep
  cases c with
  | none => exact waitMessage h.runnable hD hstep
  | some x =>
    obtain ⟨s₁, hunset, hstep⟩ := Option.bind_eq_some_iff.mp hstep
    cases hstep
    obtain ⟨C, hC⟩ := h.callers
    have hsending := hC.sending callerPtr halive x (hC.toQueued.leave h.numbered halive hseek).1
    exact (unset h.runnable hsending hunset).trans
      (setCallerLink (unset_spec h.runnable hsending hunset).1)

theorem miniReceive (h : Consistent s) (halive : Alive s callerPtr)
    (hD : (s'.proc callerPtr).rtsFlags ≠ ∅ → D callerPtr)
    (hstep : miniReceive callerPtr srcE nonBlocking s = some (e, s')) : Shifts D s s' := by
  unfold Minix.miniReceive at hstep
  obtain ⟨dead, -, hstep⟩ := Option.bind_eq_some_iff.mp hstep
  dsimp only at hstep
  split at hstep
  · cases hstep
    exact refl h.runnable
  · split at hstep
    · split at hstep
      · cases hstep
        exact of_proc_eq h.runnable rfl rfl rfl
      · exact takeMessage h halive hD hstep
    · exact waitMessage h.runnable hD hstep

theorem miniNotify (h : Runnable s) (hstep : miniNotify callerPtr dstPtr s = some (e, s')) :
    Shifts D s s' := by
  unfold Minix.miniNotify at hstep
  dsimp only at hstep
  split at hstep
  · next hreceiving =>
    obtain ⟨s₁, hunset, hstep⟩ := Option.bind_eq_some_iff.mp hstep
    cases hstep
    exact unset h hreceiving.1.1 hunset
  · cases hstep
    exact of_proc_eq h rfl rfl rfl

theorem lockNotify (h : Runnable s) (hstep : lockNotify srcE dstE s = some (e, s')) :
    Shifts D s s' := by
  unfold Minix.lockNotify at hstep
  split at hstep
  · exact miniNotify h hstep
  · cases hstep
    exact refl h

end Messages

end Shifts

/-- A process that is blocked to send stays blocked when it receives. -/
theorem miniReceive_blocked {callerPtr : ProcPtr} {srcE : Int} {nonBlocking : Bool}
    (h : Runnable s) (hsending : .sending ∈ (s.proc callerPtr).rtsFlags)
    (hstep : miniReceive callerPtr srcE nonBlocking s = some (e, s')) :
    (s'.proc callerPtr).rtsFlags ≠ ∅ := by
  unfold Minix.miniReceive at hstep
  obtain ⟨dead, -, hstep⟩ := Option.bind_eq_some_iff.mp hstep
  dsimp only at hstep
  rw [if_neg (not_not.mpr hsending)] at hstep
  split at hstep
  · cases hstep
    exact Finset.ne_empty_of_mem hsending
  · unfold Minix.waitMessage at hstep
    split at hstep
    · obtain ⟨s₁, hblock, hstep⟩ := Option.bind_eq_some_iff.mp hstep
      cases hstep
      have hset : Runnable (s.setProc callerPtr fun r => { r with getfromE := srcE }) :=
        h.setProc rfl rfl rfl rfl
      rw [(block_spec hset hblock).2.2.1]
      exact Finset.insert_ne_empty _ _
    · cases hstep
      exact Finset.ne_empty_of_mem hsending

theorem Shifts.sysCall {callerPtr : ProcPtr} {function : Function} {srcDstE : Int}
    {nonBlocking : Bool} (h : Consistent s) (hcaller : (s.proc callerPtr).rtsFlags = ∅)
    (hD : (s'.proc callerPtr).rtsFlags ≠ ∅ → D callerPtr)
    (hstep : sysCall callerPtr function srcDstE nonBlocking s = some (e, s')) : Shifts D s s' := by
  have halive := alive_of_runnable hcaller
  unfold Minix.sysCall at hstep
  split at hstep
  · cases hstep
    exact refl h.runnable
  · next hcheck =>
    cases function with
    | send => exact miniSend h.runnable (fun hsending => hD (Finset.ne_empty_of_mem hsending)) hstep
    | receive =>
      have h₁ : Consistent (s.setProc callerPtr fun r => { r with replyPending := false }) :=
        h.setProc rfl
      refine (setProc h.runnable rfl rfl rfl).trans (miniReceive h₁ ?_ hD hstep)
      unfold Alive
      rwa [Kernel.setProc_field (g := Proc.rtsFlags) rfl]
    | sendrec =>
      obtain ⟨⟨result, s₂⟩, hsend, hstep⟩ := Option.bind_eq_some_iff.mp hstep
      have hcheck' : ¬ (srcDstE ≠ ANY ∧ isokendpt s srcDstE = none) :=
        fun hnot => hcheck ⟨hnot.1, by decide, hnot.2⟩
      obtain ⟨dst, hdst⟩ := exists_destination hcheck' hsend
      have h₁ : Consistent (s.setProc callerPtr fun r => { r with replyPending := true }) :=
        h.setProc rfl
      have hdst₁ : isokendpt (s.setProc callerPtr fun r => { r with replyPending := true }) srcDstE =
          some dst := by
        rw [← hdst]
        exact isokendpt_congr (Kernel.setProc_field (g := Proc.endpoint) rfl)
          (Kernel.setProc_field (g := Proc.rtsFlags) rfl)
      have hcaller₁ : ((s.setProc callerPtr fun r => { r with replyPending := true }).proc
          callerPtr).rtsFlags = ∅ := by
        rw [Kernel.setProc_self]
        exact hcaller
      obtain ⟨h₂, halive₂⟩ := h₁.miniSend hcaller₁ hdst₁ hsend
      have hset : Shifts D s (s.setProc callerPtr fun r => { r with replyPending := true }) :=
        setProc h.runnable rfl rfl rfl
      refine hset.trans ?_
      dsimp only at hstep
      split at hstep
      · cases hstep
        exact miniSend h₁.runnable (fun hsending => hD (Finset.ne_empty_of_mem hsending)) hsend
      · refine (miniSend h₁.runnable (fun hsending => hD ?_) hsend).trans
          (miniReceive h₂ halive₂ hD hstep)
        exact miniReceive_blocked h₂.runnable hsending hstep
    | notify =>
      obtain ⟨dst, -, hstep⟩ := Option.bind_eq_some_iff.mp hstep
      exact miniNotify h.runnable hstep
    | echo =>
      cases hstep
      exact refl h.runnable

/-! ## the kernel calls and the clock -/

namespace Shifts

theorem doNice {endpt pri : Int} (h : Runnable s) (hD : ∀ rp ∈ isokendpt s endpt, D rp)
    (hstep : doNice endpt pri s = some (e, s')) : Shifts D s s' := by
  unfold Minix.doNice at hstep
  split at hstep
  · cases hstep
    exact refl h
  · next rp hrp =>
    split at hstep
    · cases hstep
      exact refl h
    · split at hstep
      · obtain ⟨s₁, hdequeue, hstep⟩ := Option.bind_eq_some_iff.mp hstep
        cases hstep
        exact (dequeue h (hD rp hrp) hdequeue).trans
          (setProc (h.dequeued hdequeue).1 rfl rfl rfl)
      · split at hstep
        · obtain ⟨s₁, hdequeue, hstep⟩ := Option.bind_eq_some_iff.mp hstep
          obtain ⟨s₂, henqueue, hstep⟩ := Option.bind_eq_some_iff.mp hstep
          cases hstep
          exact (dequeue h (hD rp hrp) hdequeue).trans
            (requeue (h.dequeued hdequeue).1 (fun h => h.2 rfl) henqueue)
        · cases hstep
          exact refl h

theorem doSetscheduler {endpt policy : Int} (h : Runnable s) (hD : ∀ rp ∈ isokendpt s endpt, D rp)
    (hstep : doSetscheduler endpt policy s = some (e, s')) : Shifts D s s' := by
  unfold Minix.doSetscheduler at hstep
  split at hstep
  · cases hstep
    exact refl h
  · next rp hrp =>
    split at hstep
    · cases hstep
      exact refl h
    · obtain ⟨s₁, hdequeue, hstep⟩ := Option.bind_eq_some_iff.mp hstep
      obtain ⟨s₂, henqueue, hstep⟩ := Option.bind_eq_some_iff.mp hstep
      cases hstep
      exact (dequeue h (hD rp hrp) hdequeue).trans
        (requeue (h.dequeued hdequeue).1 (fun h => h.2 rfl) henqueue)

theorem chargeTicks {ticks : Int} (h : Runnable s) (hstep : chargeTicks ticks s = some s') :
    Shifts D s s' := by
  unfold Minix.chargeTicks at hstep
  obtain ⟨procPtr, -, hstep⟩ := Option.bind_eq_some_iff.mp hstep
  dsimp only at hstep
  have hfst : Shifts D s (if .preemptible ∈ (s.priv (s.proc procPtr).priv).flags ∧
      (s.proc procPtr).scheduler ≠ SCHED_FIFO then
        s.setProc procPtr fun r => { r with ticksLeft := toChar (r.ticksLeft - ticks) }
      else s) := by
    split
    · exact setProc h rfl rfl rfl
    · exact refl h
  generalize (if .preemptible ∈ (s.priv (s.proc procPtr).priv).flags ∧
      (s.proc procPtr).scheduler ≠ SCHED_FIFO then
        s.setProc procPtr fun r => { r with ticksLeft := toChar (r.ticksLeft - ticks) }
      else s) = s₁ at hfst hstep
  split at hstep
  · obtain ⟨billPtr, -, hstep⟩ := Option.bind_eq_some_iff.mp hstep
    cases hstep
    obtain ⟨L, L₁, hL, hL₁, hlists⟩ := hfst
    refine ⟨L, L₁, hL, hL₁.of_fields rfl rfl ?_ ?_ ?_, hlists⟩
    · exact Kernel.setProc_field (g := Proc.nextready) rfl
    · exact Kernel.setProc_field (g := Proc.priority) rfl
    · exact Kernel.setProc_field (g := Proc.scheduler) rfl
  · cases hstep
    exact hfst

theorem clockHandler {ticks : Int} {timeout : Bool} (h : Consistent s)
    (hstep : clockHandler ticks timeout s = some s') : Shifts D s s' := by
  unfold Minix.clockHandler at hstep
  obtain ⟨s₁, hcharge, hstep⟩ := Option.bind_eq_some_iff.mp hstep
  obtain ⟨procPtr, -, hstep⟩ := Option.bind_eq_some_iff.mp hstep
  have hfst : Shifts D s s₁ := chargeTicks h.runnable hcharge
  split at hstep
  · obtain ⟨⟨result, s₂⟩, hnotify, hstep⟩ := Option.bind_eq_some_iff.mp hstep
    cases hstep
    have h₁ := (h.chargeTicks hcharge).runnable
    have h₂ : Runnable { s₁ with prevPtr := some procPtr } := Ready.of_eq h₁ rfl rfl rfl
    have hprev : Shifts D s₁ { s₁ with prevPtr := some procPtr } := of_proc_eq h₁ rfl rfl rfl
    exact (hfst.trans hprev).trans (lockNotify h₂ hnotify)
  · cases hstep
    exact hfst

/-- Only a process of another policy is requeued when its quantum is used up. -/
theorem doClocktick (h : Runnable s) (hD : ∀ rp, (s.proc rp).scheduler ≠ SCHED_FIFO → D rp)
    (hstep : doClocktick s = some s') : Shifts D s s' := by
  unfold Minix.doClocktick at hstep
  obtain ⟨rp, -, hstep⟩ := Option.bind_eq_some_iff.mp hstep
  dsimp only at hstep
  split at hstep
  · next hused =>
    obtain ⟨s₁, hdequeue, henqueue⟩ := Option.bind_eq_some_iff.mp hstep
    exact (dequeue h (hD rp hused.2.2) hdequeue).trans
      (enqueue (h.dequeued hdequeue).1 (fun h => h.2 rfl) henqueue)
  · cases hstep
    exact refl h

theorem doFork {endpt slot : Int} (h : Runnable s) (hstep : doFork endpt slot s = some (e, s')) :
    Shifts D s s' := by
  unfold Minix.doFork at hstep
  split at hstep
  · cases hstep
    exact refl h
  · next rpp hrpp =>
    obtain ⟨rpc, hslot, hstep⟩ := Option.bind_eq_some_iff.mp hstep
    split at hstep
    · cases hstep
      exact refl h
    · next hcheck =>
      cases hstep
      have hnot : ¬ (s.proc rpc).rtsFlags = ∅ := by
        intro hrun
        refine hcheck (.inr ?_)
        have halive := alive_of_runnable hrun
        rw [← not_not (a := Alive s rpc), ← isempty_iff] at halive
        simpa using halive
      exact (setProc_of_not h hnot).trans (setProc (h.setProc_of_not hnot) rfl rfl rfl)

theorem doNewmap {endpt : Int} {mapped : Bool} (h : Runnable s)
    (hstep : doNewmap endpt mapped s = some (e, s')) : Shifts D s s' := by
  unfold Minix.doNewmap at hstep
  split at hstep
  · cases hstep
    exact refl h
  · next rp hrp =>
    split at hstep
    · cases hstep
      exact refl h
    · split at hstep
      · cases hstep
        exact refl h
      · dsimp only at hstep
        split at hstep
        · next hset =>
          obtain ⟨s₁, henqueue, hstep⟩ := Option.bind_eq_some_iff.mp hstep
          cases hstep
          exact wake h hset henqueue
        · cases hstep
          exact setProc h rfl rfl rfl

/-! ## `do_exit` -/

section Exit

variable {rc : ProcPtr}

theorem leaveQueue (h : Ready s R) (hstep : leaveQueue rc s = some s') : Shifts D s s' := by
  unfold Minix.leaveQueue at hstep
  split at hstep
  · obtain ⟨target, -, hstep⟩ := Option.bind_eq_some_iff.mp hstep
    obtain ⟨⟨place, x⟩, -, hstep⟩ := Option.bind_eq_some_iff.mp hstep
    obtain ⟨L, hL, -⟩ := h
    cases hstep
    have hlists : ∀ {s : Kernel}, ReadyLists s L → ReadyLists (s.setProc rc fun r =>
        { r with rtsFlags := r.rtsFlags.erase .sending }) L := fun hL =>
      hL.of_fields rfl rfl (Kernel.setProc_field (g := Proc.nextready) rfl)
        (Kernel.setProc_field (g := Proc.priority) rfl)
        (Kernel.setProc_field (g := Proc.scheduler) rfl)
    cases x with
    | none => exact of_same hL (hlists hL)
    | some c =>
      refine of_same hL (hlists (hL.of_fields ?_ ?_ ?_ ?_ ?_))
      · cases place <;> rfl
      · cases place <;> rfl
      · exact setCallerLink_field (g := Proc.nextready) (fun _ _ => rfl) fun _ _ => rfl
      · exact setCallerLink_field (g := Proc.priority) (fun _ _ => rfl) fun _ _ => rfl
      · exact setCallerLink_field (g := Proc.scheduler) (fun _ _ => rfl) fun _ _ => rfl
  · cases hstep
    exact refl h

theorem alertProcess (h : Exiting s rc) (hstep : alertProcess rc rp s = some s') :
    Shifts D s s' := by
  unfold Minix.alertProcess at hstep
  split at hstep
  · cases hstep
    exact refl h.runnable
  · obtain ⟨s₁, hreceiving, hsending⟩ := Option.bind_eq_some_iff.mp hstep
    have hpriv : Exiting (s.setPriv (s.proc rp).priv fun p =>
        { p with notifyPending := p.notifyPending.erase (s.proc rc).priv }) rc :=
      h.of_proc_eq rfl rfl rfl
    have hsame : Shifts D s (s.setPriv (s.proc rp).priv fun p =>
        { p with notifyPending := p.notifyPending.erase (s.proc rc).priv }) :=
      of_proc_eq h.runnable rfl rfl rfl
    have h₁ := hpriv.stopReceiving hreceiving
    refine (hsame.trans ?_).trans (?_ : Shifts D s₁ s')
    · unfold Minix.stopReceiving at hreceiving
      split at hreceiving
      · next hflag => exact unset hpriv.runnable hflag.1 hreceiving
      · cases hreceiving
        exact refl hpriv.runnable
    · unfold Minix.stopSending at hsending
      split at hsending
      · next hflag => exact unset h₁.runnable hflag.1 hsending
      · cases hsending
        exact refl h₁.runnable

theorem clearEndpoint (h : Consistent s) (halive : Alive s rc) (hD : D rc)
    (hstep : clearEndpoint rc s = some s') : Shifts D s s' := by
  unfold Minix.clearEndpoint at hstep
  split at hstep
  · cases hstep
  · obtain ⟨s₁, hblock, hstep⟩ := Option.bind_eq_some_iff.mp hstep
    obtain ⟨s₂, hleave, hstep⟩ := Option.bind_eq_some_iff.mp hstep
    have h₁ := (block_spec h.runnable hblock).1
    obtain ⟨h₂, -⟩ := (h.block halive hblock).leaveQueue (by
      rw [(block_spec h.runnable hblock).2.2.1]
      exact Finset.mem_insert_self _ _) hleave
    have hset : Shifts D s (s₂.setProc rc fun r =>
        { r with rtsFlags := r.rtsFlags.erase .receiving }) :=
      ((block h.runnable hD hblock).trans (leaveQueue h₁ hleave)).trans
        (setProc h₂.runnable rfl rfl rfl)
    have hloop := foldlM_keeps (P := fun s₁ => Exiting s₁ rc ∧ Shifts D s s₁)
      (fun h hstep => ⟨h.1.alertProcess hstep, h.2.trans (alertProcess h.1 hstep)⟩)
      ⟨h.detach halive hblock hleave, hset⟩ hstep
    exact hloop.2

/-- The process that exits is the only one that is taken off. -/
theorem clearProc (h : Consistent s) (hD : (s'.proc rc).rtsFlags ≠ ∅ → D rc)
    (hstep : clearProc rc s = some s') : Shifts D s s' := by
  unfold Minix.clearProc at hstep
  split at hstep
  · cases hstep
    exact refl h.runnable
  · next hempty =>
    have halive : Alive s rc := not_not.mp fun hdead => hempty (isempty_iff.mpr hdead)
    obtain ⟨s₁, hclear, hstep⟩ := Option.bind_eq_some_iff.mp hstep
    obtain ⟨s₂, hdequeue, hstep⟩ := Option.bind_eq_some_iff.mp hstep
    have h₁ := h.clearEndpoint halive hclear
    have hset := Finset.ne_empty_of_mem h₁.detached.noEndpoint
    unfold Minix.dequeueReady at hdequeue
    rw [if_neg hset] at hdequeue
    cases hdequeue
    have hfree : Runnable (s₁.setProc rc fun r => { r with rtsFlags := {.slotFree} }) :=
      h₁.runnable.setFlags hset (Finset.singleton_ne_empty _)
    have hshifts : D rc → Shifts D s (s₁.setProc rc fun r => { r with rtsFlags := {.slotFree} }) :=
      fun hD => (clearEndpoint h halive hD hclear).trans (setProc h₁.runnable rfl rfl rfl)
    have hflags : ((s₁.setProc rc fun r => { r with rtsFlags := {.slotFree} }).proc rc).rtsFlags ≠
        ∅ := by
      rw [Kernel.setProc_self]
      exact Finset.singleton_ne_empty _
    dsimp only at hstep
    split at hstep
    · cases hstep
      exact (hshifts (hD hflags)).trans (of_proc_eq hfree rfl rfl rfl)
    · cases hstep
      exact hshifts (hD hflags)

theorem doExit {whoP endpt : Int} (h : Consistent s) (hD : ∀ r, (s'.proc r).rtsFlags ≠ ∅ → D r)
    (hstep : doExit whoP endpt s = some (e, s')) : Shifts D s s' := by
  unfold Minix.doExit at hstep
  split at hstep
  · split at hstep
    · cases hstep
      exact refl h.runnable
    · obtain ⟨s₁, hclear, hstep⟩ := Option.bind_eq_some_iff.mp hstep
      cases hstep
      exact clearProc h (hD _) hclear
  · obtain ⟨rc, -, hstep⟩ := Option.bind_eq_some_iff.mp hstep
    obtain ⟨s₁, hclear, hstep⟩ := Option.bind_eq_some_iff.mp hstep
    cases hstep
    exact clearProc h (hD _) hclear

end Exit

end Shifts

/-! ## `balance_queues` -/

theorem enqueue_queueOf (hstep : enqueue rp s = some s')
    (hr : r ≠ rp ∨ (s.proc rp).scheduler = SCHED_FIFO) : s'.queueOf r = s.queueOf r := by
  obtain ⟨s₁, q, hs₁, -, -, hcases⟩ := enqueue_cases hstep
  have hsame : s₁.queueOf r = s.queueOf r := by
    rw [hs₁]
    unfold Kernel.queueOf
    rcases hr with hr | hpolicy
    · rw [Kernel.setProc_of_ne hr]
    · rw [Kernel.setProc_eq_self]
      unfold sched
      rw [if_pos hpolicy]
      rfl
  have hpick : ∀ {s : Kernel}, (pickProc s).queueOf r = s.queueOf r := by
    intro s
    unfold Kernel.queueOf
    rw [pickProc_proc]
  rw [← hsame]
  rcases hcases with ⟨-, rfl⟩ | ⟨head, -, -, rfl⟩ | ⟨head, tail, -, -, rfl⟩
  · exact hpick.trans setNextready_queueOf
  · exact hpick.trans setNextready_queueOf
  · exact hpick.trans (setNextready_queueOf.trans setNextready_queueOf)

theorem dequeueReady_queueOf (hstep : dequeueReady rp s = some s') (r : ProcPtr) :
    s'.queueOf r = s.queueOf r := by
  unfold dequeueReady at hstep
  split at hstep
  · exact (dequeue_moves hstep).2 r
  · cases hstep
    rfl

/-- A turn of the loop only takes off a process that it puts on another list, or one of another
policy. -/
theorem balanceProcess_spec (h : Consistent s) (hstep : balanceProcess rp s = some s') :
    Shifts (fun r => s'.queueOf r ≠ s.queueOf r ∨ (s.proc r).scheduler ≠ SCHED_FIFO) s s' ∧
      (∀ r ≠ rp, s'.queueOf r = s.queueOf r) ∧
      ∀ r, (s'.proc r).scheduler = (s.proc r).scheduler := by
  unfold balanceProcess at hstep
  split at hstep
  · cases hstep
    exact ⟨.refl h.runnable, fun _ _ => rfl, fun _ => rfl⟩
  · split at hstep
    · obtain ⟨s₁, hdequeue, henqueue⟩ := Option.bind_eq_some_iff.mp hstep
      obtain ⟨hready, hmoves⟩ := h.runnable.off hdequeue
      have hoff := dequeueReady_queueOf hdequeue
      have hpolicy : ∀ r, (s'.proc r).scheduler = (s.proc r).scheduler := by
        intro r
        have hset : ((s₁.setProc rp fun r => { r with priority := r.priority - 1 }).proc r).scheduler =
            (s₁.proc r).scheduler := Kernel.setProc_field (g := Proc.scheduler) rfl r
        rw [← hmoves.field (g := Proc.scheduler) (fun _ _ _ _ => rfl) r, ← hset]
        unfold enqueueReady at henqueue
        split at henqueue
        · exact (enqueue_moves henqueue).field (g := Proc.scheduler) (fun _ _ _ _ => rfl) r
        · cases henqueue
          rfl
      have hon : ∀ r, r ≠ rp ∨ (s.proc rp).scheduler = SCHED_FIFO → s'.queueOf r =
          (s₁.setProc rp fun r => { r with priority := r.priority - 1 }).queueOf r := by
        intro r hr
        unfold enqueueReady at henqueue
        split at henqueue
        · refine enqueue_queueOf henqueue (hr.imp_right fun hfifo => ?_)
          rw [Kernel.setProc_self]
          exact (congrArg Prod.snd (hoff rp)).trans hfifo
        · cases henqueue
          rfl
      refine ⟨?_, fun r hr => ?_, hpolicy⟩
      · refine (Shifts.dequeueReady h.runnable ?_ hdequeue).trans
          (.requeue hready (fun h => h.2 rfl) henqueue)
        by_cases hfifo : (s.proc rp).scheduler = SCHED_FIFO
        · left
          rw [hon rp (.inr hfifo), ← hoff rp]
          intro heq
          have hpriority := congrArg Prod.fst heq
          unfold Kernel.queueOf at hpriority
          rw [Kernel.setProc_self] at hpriority
          dsimp only at hpriority
          omega
        · exact .inr hfifo
      · rw [hon r (.inl hr), ← hoff r]
        unfold Kernel.queueOf
        rw [Kernel.setProc_of_ne hr]
    · cases hstep
      refine ⟨.setProc h.runnable rfl rfl rfl, fun r hr => ?_,
        Kernel.setProc_field (g := Proc.scheduler) rfl⟩
      unfold Kernel.queueOf
      rw [Kernel.setProc_of_ne hr]

theorem balanceLoop_spec : ∀ {l : List ProcPtr} {s s' : Kernel}, l.Nodup → Consistent s →
    l.foldlM (fun s rp => balanceProcess rp s) s = some s' →
    Shifts (fun r => s'.queueOf r ≠ s.queueOf r ∨ (s.proc r).scheduler ≠ SCHED_FIFO) s s' ∧
      ∀ r ∉ l, s'.queueOf r = s.queueOf r
  | [], s, s', _, h, hstep => by
    cases hstep
    exact ⟨.refl h.runnable, fun _ _ => rfl⟩
  | rp :: l, s, s', hnodup, h, hstep => by
    rw [List.foldlM_cons] at hstep
    obtain ⟨s₁, hfst, hstep⟩ := Option.bind_eq_some_iff.mp hstep
    obtain ⟨hrp, hnodup⟩ := List.nodup_cons.mp hnodup
    obtain ⟨hshifts, hother, hpolicy⟩ := balanceProcess_spec h hfst
    obtain ⟨hshifts', hother'⟩ := balanceLoop_spec hnodup (h.balanceProcess hfst) hstep
    refine ⟨(hshifts.mono fun r hr => ?_).trans (hshifts'.mono fun r hr => ?_), fun r hr => ?_⟩
    · refine hr.imp_left fun hmoved => ?_
      -- only `rp` has moved, and its turn is over
      obtain rfl : r = rp := by_contra fun hne => hmoved (hother r hne)
      rwa [hother' r hrp]
    · rw [hpolicy] at hr
      refine hr.imp_left fun hmoved => ?_
      have hmem : r ∈ l := by_contra fun hno => hmoved (hother' r hno)
      rwa [← hother r (ne_of_mem_of_not_mem hmem hrp)]
    · rw [hother' r (List.not_mem_of_not_mem_cons hr), hother r (List.ne_of_not_mem_cons hr)]

/-! ## all operations -/

/-- The process whose priority or policy is set. -/
def Op.Sets (s : Kernel) (r : ProcPtr) : Op → Prop
  | .doNice endpt _ | .doSetscheduler endpt _ => isokendpt s endpt = some r
  | _ => False

instance (s : Kernel) (r : ProcPtr) (op : Op) : Decidable (op.Sets s r) :=
  match op with
  | .doNice endpt _ | .doSetscheduler endpt _ =>
    inferInstanceAs (Decidable (isokendpt s endpt = some r))
  | .sysCall .. | .lockNotify .. | .doClocktick | .balanceQueues | .doFork .. | .doNewmap ..
  | .doExit .. | .clockHandler .. | .restart => inferInstanceAs (Decidable False)

/-- The processes that an operation may take off a list. -/
def Op.Displaces (op : Op) (s s' : Kernel) (r : ProcPtr) : Prop :=
  op.Sets s r ∨ (s'.proc r).rtsFlags ≠ ∅ ∨ s'.queueOf r ≠ s.queueOf r ∨
    (s.proc r).scheduler ≠ SCHED_FIFO

/-- What one operation does to the lists. -/
theorem Op.shifts {op : Op} (h : Consistent s) (hallowed : op.Allowed s)
    (hstep : op.run s = some s') : Shifts (op.Displaces s s') s s' := by
  cases op with
  | sysCall callerPtr function srcDstE nonBlocking =>
    obtain ⟨⟨e, s₁⟩, hrun, rfl⟩ := Option.map_eq_some_iff.mp hstep
    exact .sysCall h hallowed (fun hflags => .inr (.inl hflags)) hrun
  | lockNotify srcE dstE =>
    obtain ⟨⟨e, s₁⟩, hrun, rfl⟩ := Option.map_eq_some_iff.mp hstep
    exact .lockNotify h.runnable hrun
  | doNice endpt pri =>
    obtain ⟨⟨e, s₁⟩, hrun, rfl⟩ := Option.map_eq_some_iff.mp hstep
    exact .doNice h.runnable (fun rp hrp => .inl hrp) hrun
  | doSetscheduler endpt policy =>
    obtain ⟨⟨e, s₁⟩, hrun, rfl⟩ := Option.map_eq_some_iff.mp hstep
    exact .doSetscheduler h.runnable (fun rp hrp => .inl hrp) hrun
  | doClocktick => exact .doClocktick h.runnable (fun rp hrp => .inr (.inr (.inr hrp))) hstep
  | balanceQueues =>
    exact (balanceLoop_spec (List.nodup_finRange _) h hstep).1.mono fun r hr => .inr (.inr hr)
  | doFork endpt slot =>
    obtain ⟨⟨e, s₁⟩, hrun, rfl⟩ := Option.map_eq_some_iff.mp hstep
    exact .doFork h.runnable hrun
  | doNewmap endpt mapped =>
    obtain ⟨⟨e, s₁⟩, hrun, rfl⟩ := Option.map_eq_some_iff.mp hstep
    exact .doNewmap h.runnable hrun
  | doExit whoP endpt =>
    obtain ⟨⟨e, s₁⟩, hrun, rfl⟩ := Option.map_eq_some_iff.mp hstep
    exact .doExit h (fun r hflags => .inr (.inl hflags)) hrun
  | clockHandler ticks timeout => exact .clockHandler h hstep
  | restart =>
    cases hstep
    refine .of_proc_eq h.runnable ?_ ?_ ?_ <;> unfold Minix.restart <;> split <;> rfl

/-! ## the order -/

/-- The process is runnable, and the list is the one of its priority and policy. -/
def Kernel.On (s : Kernel) (q : Queue) (r : ProcPtr) : Prop :=
  (s.proc r).rtsFlags = ∅ ∧ s.queueOf r = q

instance (s : Kernel) (q : Queue) (r : ProcPtr) : Decidable (s.On q r) :=
  inferInstanceAs (Decidable ((s.proc r).rtsFlags = ∅ ∧ s.queueOf r = q))

/-- On the list `x` is ahead of `y`. -/
def Kernel.Before (s : Kernel) (q : Queue) (x y : ProcPtr) : Prop :=
  ∃ l, Chain (fun r => (s.proc r).nextready) (s.rdyHead q) l ∧ Ahead l x y

/-- Operations during which `x` and `y` stay on a list; they set the priority or policy of neither. -/
inductive Stretch (cond : Kernel → Op → Prop) (q : Queue) (x y : ProcPtr) (s : Kernel) :
    Kernel → Prop
  | refl (hx : s.On q x) (hy : s.On q y) : Stretch cond q x y s s
  | step {s₁ s' : Kernel} {op : Op} (h : Stretch cond q x y s s₁) (hallowed : op.Allowed s₁)
      (hcond : cond s₁ op) (hsets : ¬ op.Sets s₁ x ∧ ¬ op.Sets s₁ y) (hstep : op.run s₁ = some s')
      (hx : s'.On q x) (hy : s'.On q y) : Stretch cond q x y s s'

theorem Stretch.on {cond : Kernel → Op → Prop} (h : Stretch cond q x y s s') :
    s'.On q x ∧ s'.On q y := by
  cases h with
  | refl hx hy => exact ⟨hx, hy⟩
  | step _ _ _ _ _ hx hy => exact ⟨hx, hy⟩

theorem ReadyLists.before_iff (h : ReadyLists s L) : s.Before q x y ↔ Ahead (L q) x y := by
  constructor
  · rintro ⟨l, hchain, hahead⟩
    rwa [(h.chain q).unique hchain]
  · exact fun hahead => ⟨L q, h.chain q, hahead⟩

/-- A process of the policy that stays on its list is not taken off. -/
theorem not_displaces {op : Op} (hq : q.2 = SCHED_FIFO) (hsets : ¬ op.Sets s r) (hr : s.On q r)
    (hr' : s'.On q r) : ¬ op.Displaces s s' r := by
  rintro (h | h | h | h)
  · exact hsets h
  · exact h hr'.1
  · exact h (hr'.2.trans hr.2.symm)
  · exact h ((congrArg Prod.snd hr.2).trans hq)

theorem Consistent.before_iff {op : Op} (h : Consistent s) (hallowed : op.Allowed s)
    (hstep : op.run s = some s') (hq : q.2 = SCHED_FIFO) (hsets : ¬ op.Sets s x ∧ ¬ op.Sets s y)
    (hx : s.On q x) (hy : s.On q y) (hx' : s'.On q x) (hy' : s'.On q y) :
    s'.Before q x y ↔ s.Before q x y := by
  obtain ⟨L, L', hL, hL', hshifts⟩ := Op.shifts h hallowed hstep
  have hnodup := (hL.chain q).nodup
  have hnotx := not_displaces hq hsets.1 hx hx'
  have hnoty := not_displaces hq hsets.2 hy hy'
  rw [hL.before_iff, hL'.before_iff]
  refine ⟨fun hahead => ?_, (hshifts q hq).ahead hnodup hnotx hnoty⟩
  have hne : x ≠ y := by
    rintro rfl
    exact hahead.asymm (hL'.chain q).nodup hahead
  have hmem := fun r => h.runnable.mem_iff hL (q := q) (r := r)
  refine (ahead_or ((hmem x).mpr hx) ((hmem y).mpr hy) hne).resolve_right fun hback => ?_
  exact hahead.asymm (hL'.chain q).nodup ((hshifts q hq).ahead hnodup hnoty hnotx hback)

theorem Stretch.keeps (h : Stretch Op.Clean q x y s s') (hs : Consistent s)
    (hq : q.2 = SCHED_FIFO) : Consistent s' ∧ (s'.Before q x y ↔ s.Before q x y) := by
  induction h with
  | refl _ _ => exact ⟨hs, Iff.rfl⟩
  | step h hallowed hclean hsets hstep hx' hy' ih =>
    obtain ⟨h₁, ih⟩ := ih
    refine ⟨h₁.op hallowed hclean hstep, ?_⟩
    rw [← ih]
    exact h₁.before_iff hallowed hstep hq hsets h.on.1 h.on.2 hx' hy'

/--
**`SCHED_FIFO`.** In every run in which no process forks while others are queued at it, processes
that stay on a list of the policy keep their order, whatever the kernel does, and a process that comes
to the list is behind those that stay on it.
-/
theorem fifo_order (h : Run Op.Clean s) (hq : q.2 = SCHED_FIFO) :
    (∀ x y s', Stretch Op.Clean q x y s s' → (s'.Before q x y ↔ s.Before q x y)) ∧
      ∀ (op : Op) (s' : Kernel) (x z : ProcPtr), op.Allowed s → op.Clean s → op.run s = some s' →
        ¬ op.Sets s x → s.On q x → s'.On q x → ¬ s.On q z → s'.On q z → s'.Before q x z := by
  refine ⟨fun x y s' hstretch => (hstretch.keeps h.consistent hq).2, ?_⟩
  intro op s' x z hallowed hclean hstep hsets hx hx' hz hz'
  have hs := h.consistent
  have hs' := hs.op hallowed hclean hstep
  obtain ⟨L, L', hL, hL', hshifts⟩ := Op.shifts hs hallowed hstep
  rw [hL'.before_iff]
  refine (hshifts q hq).behind (hs.runnable.mem_iff hL |>.mpr hx) (not_displaces hq hsets hx hx')
    (fun hmem => hz ?_) (hs'.runnable.mem_iff hL' |>.mpr hz')
  exact (hs.runnable.mem_iff hL).mp hmem

/-- The reincarnation server and the data store in the process table. -/
def rsProc : ProcPtr := 6

def dsProc : ProcPtr := 10

/-- The state behind operations during which `x` and `y` stay on a list. -/
def executeOn (cond : Kernel → Op → Prop) [∀ s op, Decidable (cond s op)] (q : Queue)
    (x y : ProcPtr) : List Op → Kernel → Option Kernel
  | [], s => some s
  | op :: ops, s =>
    if op.Allowed s ∧ cond s op ∧ ¬ op.Sets s x ∧ ¬ op.Sets s y then
      (op.run s).bind fun s => if s.On q x ∧ s.On q y then executeOn cond q x y ops s else none
    else none

theorem executeOn_stretch {cond : Kernel → Op → Prop} [∀ s op, Decidable (cond s op)] :
    ∀ {ops : List Op} {s s₁ s' : Kernel}, Stretch cond q x y s s₁ →
      executeOn cond q x y ops s₁ = some s' → Stretch cond q x y s s'
  | [], s, s₁, s', h, hrun => by
    cases hrun
    exact h
  | op :: ops, s, s₁, s', h, hrun => by
    unfold executeOn at hrun
    split at hrun
    · next hcond =>
      obtain ⟨s₂, hstep, hrun⟩ := Option.bind_eq_some_iff.mp hrun
      split at hrun
      · next hon =>
        exact executeOn_stretch
          (.step h hcond.1 hcond.2.1 ⟨hcond.2.2.1, hcond.2.2.2⟩ hstep hon.1 hon.2) hrun
      · cases hrun
    · cases hrun

/-- Ticks, a run of `balance_queues`, and the process manager blocks and is woken. -/
def blockOps : List Op :=
  [.restart, .clockHandler 1 true, .doClocktick, .balanceQueues, .sysCall pmProc .receive ANY false,
   .clockHandler 1 false, .lockNotify HARDWARE PM_PROC_NR]

/-- The other two servers on its list keep their order. -/
theorem fifo_order_block : ∃ s₀ s, boot = some s₀ ∧
    executeOn Op.Clean (3, SCHED_FIFO) rsProc dsProc blockOps s₀ = some s ∧
    (s.Before (3, SCHED_FIFO) rsProc dsProc ↔ s₀.Before (3, SCHED_FIFO) rsProc dsProc) := by
  have h : boot.any fun s₀ => (s₀.On (3, SCHED_FIFO) rsProc ∧ s₀.On (3, SCHED_FIFO) dsProc) ∧
      (executeOn Op.Clean (3, SCHED_FIFO) rsProc dsProc blockOps s₀).isSome := by
    decide +kernel
  obtain ⟨s₀, hboot, h⟩ := (Option.any_eq_true _ _).mp h
  obtain ⟨hon, hexec⟩ := of_decide_eq_true h
  obtain ⟨s, hexec⟩ := Option.isSome_iff_exists.mp hexec
  exact ⟨s₀, s, hboot, hexec, (fifo_order (.boot hboot) rfl).1 rsProc dsProc s
    (executeOn_stretch (.refl hon.1 hon.2) hexec)⟩

/-! ## two queues that are one -/

/-- A child of `init` in the process table, and its own child. -/
def childE : Int := mkEndpoint 1 8

def grandchildE : Int := mkEndpoint 1 9

/--
The file system sends to a child of `init` that forks, so that it is in the queue of the grandchild
too. When the child exits, the file system goes on and sends to the process manager: what is behind it
there is also behind it in the queue of the grandchild. The data store sends to the grandchild, and
goes on when that exits, but stays in the queue of the process manager. The reincarnation server waits
for a message and gets behind the data store when it has one.
-/
def mergeOps : List (Ipc.Op Nat) :=
  let m : Message Nat := ⟨NONE, .user 0⟩
  [.sysCall initProc SENDREC PM_PROC_NR m true, .sysCall pmProc RECEIVE ANY m true,
   .doFork INIT_PROC_NR 8, .kernel (.doNewmap childE true), .sysCall pmProc SEND childE m true,
   .sysCall freeProc SENDREC PM_PROC_NR m true, .sysCall pmProc RECEIVE ANY m true,
   .sysCall fsProc SEND childE m true, .doFork childE 9, .kernel (.doNewmap grandchildE true),
   .doExit PM_PROC_NR childE, .sysCall fsProc SEND PM_PROC_NR m true,
   .sysCall dsProc SEND grandchildE m true, .sysCall rsProc RECEIVE ANY m true,
   .doExit PM_PROC_NR grandchildE, .sysCall pmProc SEND RS_PROC_NR m true,
   .sysCall pmProc RECEIVE ANY m true]

/-- The process manager takes the message of the data store. -/
def takeOp : Ipc.Op Nat := .sysCall pmProc RECEIVE ANY ⟨NONE, .user 0⟩ true

/--
**The defect**, in a run that all the checks of `sys_call` let pass. The data store is put on its list
twice; all that was behind it is lost.
-/
theorem merged_queue_drops : ∃ st st' : Ipc Nat, Ipc.Run Ipc.NoAnswer st ∧
    takeOp.run st = some st' ∧ Run (fun _ _ => True) st.kernel ∧
    Stretch (fun _ _ => True) (3, SCHED_FIFO) dsProc rsProc st.kernel st'.kernel ∧
    st.kernel.Before (3, SCHED_FIFO) dsProc rsProc ∧
    ¬ st'.kernel.Before (3, SCHED_FIFO) dsProc rsProc := by
  have h : ((Ipc.boot Ipc.blank).bind (Ipc.execute Ipc.NoAnswer mergeOps)).any fun st =>
      (takeOp.run st).any fun st' => takeOp.Allowed st ∧
        (st.kernel.On (3, SCHED_FIFO) dsProc ∧ st.kernel.On (3, SCHED_FIFO) rsProc) ∧
        (st'.kernel.On (3, SCHED_FIFO) dsProc ∧ st'.kernel.On (3, SCHED_FIFO) rsProc) ∧
        walk (fun r => (st.kernel.proc r).nextready) 9 (st.kernel.rdyHead (3, SCHED_FIFO)) =
          some [pmProc, dsProc, rsProc] ∧
        walk (fun r => (st'.kernel.proc r).nextready) 9 (st'.kernel.rdyHead (3, SCHED_FIFO)) =
          some [pmProc, dsProc] := by
    decide +kernel
  obtain ⟨st, hst, h⟩ := (Option.any_eq_true _ _).mp h
  obtain ⟨st₀, hboot, hexec⟩ := Option.bind_eq_some_iff.mp hst
  obtain ⟨st', hstep, h⟩ := (Option.any_eq_true _ _).mp h
  obtain ⟨hallowed, hon, hon', hlist, hlist'⟩ := of_decide_eq_true h
  have hrun := Ipc.execute_run (.boot hboot) hexec
  have hgone : ¬ st'.kernel.Before (3, SCHED_FIFO) dsProc rsProc := by
    rintro ⟨l, hchain, hahead⟩
    rw [hchain.unique (chain_of_walk hlist')] at hahead
    exact absurd hahead.mem.2 (by decide)
  have hbefore : st.kernel.Before (3, SCHED_FIFO) dsProc rsProc :=
    ⟨_, chain_of_walk hlist, .cons _ (.refl _)⟩
  refine ⟨st, st', hrun, hstep, hrun.kernel, ?_, hbefore, hgone⟩
  obtain ⟨⟨e, st₁⟩, hcall, rfl⟩ := Option.map_eq_some_iff.mp hstep
  rcases Ipc.sysCall_cases hcall with rfl | ⟨function, nonBlocking, -, -, -, hkernel⟩
  · exact absurd hbefore hgone
  · have hstep' : Op.run st.kernel (.sysCall pmProc function ANY nonBlocking) = some st₁.kernel :=
      Option.map_eq_some_iff.mpr ⟨_, hkernel, rfl⟩
    have hallowed' : Op.Allowed st.kernel (.sysCall pmProc function ANY nonBlocking) := hallowed
    exact .step (.refl hon.1 hon.2) hallowed' trivial ⟨id, id⟩ hstep' hon'.1 hon'.2

end Minix
