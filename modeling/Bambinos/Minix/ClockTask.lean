import Bambinos.Minix.IpcRuns
import Bambinos.Minix.Timers

/-!
# The clock task and its timers

The kernel with its messages and timers. Whether a timer has expired at a tick is read off the queue,
what the clock task does is its own code, and every trap and every interrupt ends with `restart`. Of
what a process puts into a message only the type is kept.

* `Timed` — the state
* `setTimer`, `resetTimer`, `tmrsExptimers` — the queue and `next_timeout`
* `balanceQueues`, `causeAlarm` — the watchdogs: one sets its timer again, the other notifies
* `clockTask` — what the clock task does from one trap to the next
* `Timed.Op`, `Timed.Run` — the states that are reached
* `tmrsExptimersFrom_succ` — the loop through the timers that have expired ends
* `Run.armed` — the queue is in order, and the next balancing is always in it
* `Run.ipc` — a run with timers is one in which timers expire at any time
-/

namespace Minix

open Infra

/-! ## the state -/

def Q_BALANCE_TICKS : Int := 100

/-- `HARD_INT`. -/
def HARD_INT : Int := notifyFrom HARDWARE

/-- The clock and the system task in the process table. -/
def clockProc : ProcPtr := 1

def systemProc : ProcPtr := 2

/-- The timers of the kernel. The watchdog of `queue_timer` is `balance_queues`, the one of an
`s_alarm_timer` is `cause_alarm`. -/
inductive TimerPtr where
  | queueTimer
  | alarmTimer (id : PrivPtr)
deriving DecidableEq, Repr

/-- Where the clock task goes on when it runs: with `init_clock`, with `receive`, or with the message it
has got. -/
inductive ClockPoint where
  | init
  | receive
  | handle
deriving DecidableEq, Repr

/-- The kernel, `clock_timers`, the `ta_int` of the alarm timers, `next_timeout`, and the clock task. -/
structure Timed where
  ipc : Ipc Int
  timers : Timers TimerPtr
  taInt : PrivPtr → Int
  nextTimeout : Int
  point : ClockPoint

/-- `m_type`. -/
def Message.type (m : Message Int) : Int :=
  match m.body with
  | .user type => type
  | .notice type _ _ => type

/-- The ticks `balance_queues` adds for a process. -/
def ticksAdded (rp : ProcPtr) (s : Kernel) : Int :=
  let r := s.proc rp
  if r.isempty then 0
  else if r.priority > r.maxPriority then r.quantumSize
  else r.quantumSize - r.ticksLeft

/-- The loop of `balance_queues`, with `ticks_added`. -/
def balanceTicks (s : Kernel) : Option (Int × Kernel) :=
  (List.finRange (NR_TASKS + NR_PROCS)).foldlM
    (fun p rp => do
      let s ← balanceProcess rp p.2
      some (p.1 + ticksAdded rp p.2, s))
    (0, s)

namespace Timed

/-! ## the timers -/

/-- `set_timer`. -/
def setTimer (tp : TimerPtr) (expTime : Int) (t : Timed) : Timed :=
  let timers := tmrsSettimer tp expTime t.timers
  { t with timers := timers, nextTimeout := timers.first }

/-- `reset_timer`. -/
def resetTimer (tp : TimerPtr) (t : Timed) : Timed :=
  let timers := tmrsClrtimer tp t.timers
  { t with timers := timers, nextTimeout := timers.first }

/-- `balance_queues`; `get_uptime` is the time. -/
def balanceQueues (t : Timed) : Option Timed := do
  let (ticksAdded, s) ← balanceTicks t.ipc.kernel
  let nextPeriod := max Q_BALANCE_TICKS ticksAdded
  some ({ t with ipc := { t.ipc with kernel := s } }.setTimer .queueTimer
    (t.ipc.realtime + nextPeriod))

/-- `cause_alarm`. -/
def causeAlarm (id : PrivPtr) (t : Timed) : Option Timed := do
  let (_, ipc) ← t.ipc.lockNotify CLOCK (t.taInt id)
  some { t with ipc := ipc }

/-- `tmr_func`. -/
def watchdog (tp : TimerPtr) (t : Timed) : Option Timed :=
  match tp with
  | .queueTimer => t.balanceQueues
  | .alarmTimer id => t.causeAlarm id

/-- The loop of `tmrs_exptimers`; there is no result when it takes `n` turns or more. -/
def tmrsExptimersFrom (now : Int) : Nat → Timed → Option Timed
  | 0, _ => none
  | n + 1, t =>
    match t.timers.queue with
    | [] => some t
    | tp :: rest =>
      if t.timers.expTime tp ≤ now then do
        let t ← watchdog tp { t with timers := t.timers.pop tp rest }
        tmrsExptimersFrom now n t
      else some t

/-- `tmrs_exptimers`. -/
def tmrsExptimers (now : Int) (t : Timed) : Option Timed :=
  tmrsExptimersFrom now (t.timers.queue.length + 1) t

/-! ## the clock -/

/-- The end of a trap or an interrupt. -/
def restart (t : Timed) : Timed :=
  { t with ipc := { t.ipc with kernel := Minix.restart t.ipc.kernel } }

/-- `clock_handler`. -/
def clockHandler (ticks : Int) (t : Timed) : Option Timed := do
  let timeout := decide (t.nextTimeout ≤ t.ipc.realtime + ticks)
  let ipc ← t.ipc.clockHandler ticks timeout
  some { t with ipc := ipc }

/-- `do_clocktick`. -/
def doClocktick (t : Timed) : Option Timed := do
  let s ← Minix.doClocktick t.ipc.kernel
  let t := { t with ipc := { t.ipc with kernel := s } }
  if t.nextTimeout ≤ t.ipc.realtime then do
    let t ← t.tmrsExptimers t.ipc.realtime
    some { t with nextTimeout := t.timers.first }
  else some t

/-- A trap. -/
def sysCall (callerPtr : ProcPtr) (callNr : Nat) (srcDstE : Int) (m : Message Int)
    (pointerOk : Bool) (t : Timed) : Option Timed := do
  let (_, ipc) ← t.ipc.sysCall callerPtr callNr srcDstE m pointerOk
  some { t with ipc := ipc }

/-- The `switch` of `clock_task`. -/
def handleMessage (t : Timed) : Option Timed :=
  if (t.ipc.messbuf clockProc).type = HARD_INT then t.doClocktick else some t

/-- `clock_task`, up to the next trap or through it. -/
def clockTask (t : Timed) : Option Timed :=
  match t.point with
  | .init => do
    let t ← t.balanceQueues
    some { t with point := .receive }
  | .receive => do
    let t ← t.sysCall clockProc RECEIVE ANY (t.ipc.messbuf clockProc) true
    some { t.restart with point := .handle }
  | .handle => do
    let t ← t.handleMessage
    some { t with point := .receive }

/-! ## the system task -/

/-- `do_setalarm`, with `ALRM_TIME_LEFT` where it is set. -/
def doSetalarm (whoE expTime : Int) (useAbsTime : Bool) (t : Timed) :
    Option ((Int × Option Int) × Timed) := do
  let rp ← isokendpt t.ipc.kernel whoE
  let id := (t.ipc.kernel.proc rp).priv
  if .sysProc ∉ (t.ipc.kernel.priv id).flags then some ((EPERM, none), t)
  else
    let uptime := t.ipc.realtime
    let oldTime := t.timers.expTime (.alarmTimer id)
    let timeLeft := if oldTime ≠ TMR_NEVER ∧ uptime < oldTime then oldTime - uptime else 0
    let t := { t with taInt := Function.update t.taInt id whoE }
    let t :=
      if expTime = 0 then t.resetTimer (.alarmTimer id)
      else t.setTimer (.alarmTimer id) (if useAbsTime then expTime else expTime + uptime)
    some ((OK, some timeLeft), t)

/-- `clear_proc`. -/
def clearProc (rc : ProcPtr) (t : Timed) : Option Timed :=
  if (t.ipc.kernel.proc rc).isempty then some t
  else do
    let ipc ← t.ipc.clearProc rc
    some ({ t with ipc := ipc }.resetTimer (.alarmTimer (t.ipc.kernel.proc rc).priv))

/-- `do_exit`. -/
def doExit (whoP endpt : Int) (t : Timed) : Option (Int × Timed) :=
  if PM_PROC_NR = whoP ∧ endpt ≠ SELF then
    match isokendpt t.ipc.kernel endpt with
    | none => some (EINVAL, t)
    | some rc => do
      let t ← t.clearProc rc
      some (OK, t)
  else do
    let rc ← procAddr whoP
    let t ← t.clearProc rc
    some (EDONTREPLY, t)

/-! ## runs -/

/-- The state `main` leaves. That the alarm timers are zero until the system task sets them to
`TMR_NEVER` makes no difference. -/
def boot (memory : ProcPtr → Message Int) : Option Timed := do
  let ipc ← Ipc.boot memory
  some (restart
    { ipc := ipc, timers := { queue := [], expTime := fun _ => 0 }, taInt := fun _ => 0
      nextTimeout := 0, point := .init })

/-- What the kernel does: the interrupts, the tasks, and the traps of the processes. -/
inductive Op where
  | clockHandler (ticks : Int)
  | genericHandler (procNrE : Int) (notifyId : Nat)
  | clockTask
  | doSetalarm (whoE expTime : Int) (useAbsTime : Bool)
  | doExit (whoP endpt : Int)
  | call (op : Ipc.Op Int)
  | sysCall (callerPtr : ProcPtr) (callNr : Nat) (srcDstE : Int) (m : Message Int) (pointerOk : Bool)

/-- The other things the system task does. -/
def OfSystem : Ipc.Op Int → Bool
  | .lockSend procPtr .. => procPtr = systemProc
  | .lockNotify .. | .sendSig .. | .doFork .. => true
  | .kernel (.doNice ..) | .kernel (.doSetscheduler ..) | .kernel (.doNewmap ..) => true
  | .kernel _ | .sysCall .. | .genericHandler .. | .clockHandler .. | .doExit .. => false

def Op.run (t : Timed) : Op → Option Timed
  | .clockHandler ticks => (t.clockHandler ticks).map restart
  | .genericHandler procNrE notifyId =>
    (t.ipc.genericHandler procNrE notifyId).map fun ipc => { t with ipc := ipc }.restart
  | .clockTask => t.clockTask
  | .doSetalarm whoE expTime useAbsTime => (t.doSetalarm whoE expTime useAbsTime).map Prod.snd
  | .doExit whoP endpt => (t.doExit whoP endpt).map Prod.snd
  | .call op => (op.run t.ipc).map fun ipc => { t with ipc := ipc }
  | .sysCall callerPtr callNr srcDstE m pointerOk =>
    (t.sysCall callerPtr callNr srcDstE m pointerOk).map restart

/-- The process runs. -/
def Runs (t : Timed) (rp : ProcPtr) : Prop :=
  t.ipc.kernel.procPtr = some rp ∧ (t.ipc.kernel.proc rp).rtsFlags = ∅

instance (t : Timed) (rp : ProcPtr) : Decidable (t.Runs rp) :=
  inferInstanceAs (Decidable (_ ∧ _))

/-- When it happens: the interrupt handler is there once the clock task has started, and what a
process or a task does happens while it runs. The clock task runs at once when it is notified, so that
the process that used up its quantum is ready still. -/
def Op.Allowed (t : Timed) : Op → Prop
  | .clockHandler _ => t.point ≠ .init
  | .genericHandler .. => True
  | .clockTask => t.Runs clockProc ∧
      (t.point = .handle → Minix.Op.doClocktick.Allowed t.ipc.kernel)
  | .doSetalarm .. | .doExit .. => t.Runs systemProc
  | .call op => t.Runs systemProc ∧ OfSystem op = true ∧ op.Allowed t.ipc
  | .sysCall callerPtr .. => callerPtr ≠ clockProc ∧ t.Runs callerPtr

instance (t : Timed) (op : Op) : Decidable (op.Allowed t) :=
  match op with
  | .clockHandler _ => inferInstanceAs (Decidable (t.point ≠ .init))
  | .genericHandler .. => inferInstanceAs (Decidable True)
  | .clockTask => inferInstanceAs (Decidable (t.Runs clockProc ∧
      (t.point = .handle → Minix.Op.doClocktick.Allowed t.ipc.kernel)))
  | .doSetalarm .. | .doExit .. => inferInstanceAs (Decidable (t.Runs systemProc))
  | .call op => inferInstanceAs (Decidable (t.Runs systemProc ∧ OfSystem op = true ∧
      op.Allowed t.ipc))
  | .sysCall callerPtr .. => inferInstanceAs (Decidable (callerPtr ≠ clockProc ∧ t.Runs callerPtr))

/-- The states that are reached from the booted kernel by operations that meet a condition. -/
inductive Run (cond : Timed → Op → Prop) : Timed → Prop
  | boot {memory : ProcPtr → Message Int} {t : Timed} (h : boot memory = some t) : Run cond t
  | step {t t' : Timed} {op : Op} (h : Run cond t) (hallowed : op.Allowed t) (hcond : cond t op)
      (hstep : op.run t = some t') : Run cond t'

/-! ## the watchdogs -/

variable {t t' : Timed} {tp : TimerPtr} {now expTime : Int} {n : Nat}

theorem balanceTicks_kernel {s s' : Kernel} {m : Int} (h : balanceTicks s = some (m, s')) :
    Minix.balanceQueues s = some s' := by
  have hfold : ∀ {l : List ProcPtr} {p p' : Int × Kernel},
      l.foldlM (fun p rp => do
        let s ← balanceProcess rp p.2
        some (p.1 + ticksAdded rp p.2, s)) p = some p' →
      l.foldlM (fun s rp => balanceProcess rp s) p.2 = some p'.2 := by
    intro l
    induction l with
    | nil =>
      intro p p' h
      cases h
      rfl
    | cons rp l ih =>
      intro p p' h
      rw [List.foldlM_cons] at h ⊢
      obtain ⟨p₁, hp₁, h⟩ := Option.bind_eq_some_iff.mp h
      obtain ⟨s₁, hs₁, hp₁⟩ := Option.bind_eq_some_iff.mp hp₁
      cases hp₁
      exact Option.bind_eq_some_iff.mpr ⟨s₁, hs₁, ih h⟩
  exact hfold h

theorem balanceQueues_spec (h : t.balanceQueues = some t') : ∃ s expTime,
    Minix.balanceQueues t.ipc.kernel = some s ∧
    t.ipc.realtime + Q_BALANCE_TICKS ≤ expTime ∧
    t' = { t with ipc := { t.ipc with kernel := s } }.setTimer .queueTimer expTime := by
  unfold balanceQueues at h
  obtain ⟨⟨m, s⟩, hticks, h⟩ := Option.bind_eq_some_iff.mp h
  cases h
  exact ⟨s, _, balanceTicks_kernel hticks, Int.add_le_add_left (le_max_left _ _) _, rfl⟩

theorem lockNotify_realtime {st st' : Ipc Int} {srcE dstE e : Int}
    (h : st.lockNotify srcE dstE = some (e, st')) : st'.realtime = st.realtime := by
  unfold Ipc.lockNotify at h
  split at h
  · unfold Ipc.miniNotify at h
    dsimp only at h
    split at h
    · obtain ⟨st₁, hnotice, h⟩ := Option.bind_eq_some_iff.mp h
      obtain ⟨s, -, h⟩ := Option.bind_eq_some_iff.mp h
      cases h
      unfold Ipc.deliverNotice at hnotice
      obtain ⟨src, -, hnotice⟩ := Option.bind_eq_some_iff.mp hnotice
      cases hnotice
      rfl
    · cases h
      rfl
  · cases h
    rfl

theorem causeAlarm_spec {id : PrivPtr} (h : t.causeAlarm id = some t') : ∃ e ipc,
    t.ipc.lockNotify CLOCK (t.taInt id) = some (e, ipc) ∧ t' = { t with ipc := ipc } := by
  unfold causeAlarm at h
  obtain ⟨⟨e, ipc⟩, hnotify, h⟩ := Option.bind_eq_some_iff.mp h
  cases h
  exact ⟨e, ipc, hnotify, rfl⟩

/-- What a watchdog does to the timers: it takes none off, and sets its own for later, if any. -/
structure Watched (tp : TimerPtr) (t t' : Timed) : Prop where
  point : t'.point = t.point
  realtime : t'.ipc.realtime = t.ipc.realtime
  inOrder : t.timers.InOrder → t'.timers.InOrder
  kept : ∀ x ∈ t.timers.queue, x ∈ t'.timers.queue
  again : tp = .queueTimer → .queueTimer ∈ t'.timers.queue
  expired : t.timers.InOrder → ∀ now ≤ t.ipc.realtime, t'.timers.expired now ≤ t.timers.expired now

theorem watchdog_spec (h : t.watchdog tp = some t') : Watched tp t t' := by
  cases tp with
  | queueTimer =>
    obtain ⟨s, expTime, -, hlater, rfl⟩ := balanceQueues_spec h
    have hqueue : ∀ x, x ∈ ({ t with ipc := { t.ipc with kernel := s } }.setTimer .queueTimer
        expTime).timers.queue ↔ x = .queueTimer ∨ x ∈ t.timers.queue := fun x => mem_settimer
    refine ⟨rfl, rfl, fun hin => hin.settimer, fun x hx => (hqueue x).mpr (Or.inr hx),
      fun _ => (hqueue _).mpr (Or.inl rfl), fun hin now hnow => Timers.expired_settimer hin ?_⟩
    unfold Q_BALANCE_TICKS at hlater
    omega
  | alarmTimer id =>
    obtain ⟨e, ipc, hnotify, rfl⟩ := causeAlarm_spec h
    exact ⟨rfl, lockNotify_realtime hnotify, fun hin => hin, fun x hx => hx, nofun,
      fun _ now _ => Nat.le_refl _⟩

/-! ## the loop ends -/

/-- A turn of the loop. -/
theorem tmrsExptimersFrom_cons {rest : List TimerPtr} (hqueue : t.timers.queue = tp :: rest)
    (hdue : t.timers.expTime tp ≤ now) : tmrsExptimersFrom now (n + 1) t =
      (watchdog tp { t with timers := t.timers.pop tp rest }).bind (tmrsExptimersFrom now n) := by
  rw [tmrsExptimersFrom, hqueue]
  dsimp only
  rw [if_pos hdue]
  rfl

/-- With a turn for every timer that has expired, and one to see that there is no other, more turns do
not matter. -/
theorem tmrsExptimersFrom_succ (hin : t.timers.InOrder) (hnow : now ≤ t.ipc.realtime)
    (hn : t.timers.expired now < n) :
    tmrsExptimersFrom now n t = tmrsExptimersFrom now (n + 1) t := by
  induction n generalizing t with
  | zero => exact absurd hn (Nat.not_lt_zero _)
  | succ n ih =>
    cases hqueue : t.timers.queue with
    | nil => rw [tmrsExptimersFrom, tmrsExptimersFrom, hqueue]
    | cons tp rest =>
      by_cases hdue : t.timers.expTime tp ≤ now
      · rw [tmrsExptimersFrom_cons hqueue hdue, tmrsExptimersFrom_cons hqueue hdue]
        refine Option.bind_congr fun t₁ ht₁ => ?_
        have hpop := hin.pop hqueue
        have hwatched := watchdog_spec ht₁
        have hexpired := hwatched.expired hpop now hnow
        have hless := Timers.expired_pop hin hqueue hdue
        refine ih (hwatched.inOrder hpop) (hwatched.realtime.symm ▸ hnow) ?_
        dsimp only at hexpired
        omega
      · rw [tmrsExptimersFrom, tmrsExptimersFrom, hqueue]
        dsimp only
        rw [if_neg hdue, if_neg hdue]

/-- **The loop through the timers that have expired ends**: there is a turn for each of them. -/
theorem tmrsExptimers_fuel (hin : t.timers.InOrder) (hnow : now ≤ t.ipc.realtime)
    (hn : t.timers.queue.length < n) : tmrsExptimersFrom now n t = t.tmrsExptimers now := by
  have hexpired : t.timers.expired now ≤ t.timers.queue.length := List.countP_le_length
  unfold tmrsExptimers
  induction n with
  | zero => exact absurd hn (Nat.not_lt_zero _)
  | succ n ih =>
    rcases Nat.lt_succ_iff_lt_or_eq.mp hn with hlt | heq
    · rw [← ih hlt, tmrsExptimersFrom_succ hin hnow (Nat.lt_of_le_of_lt hexpired hlt)]
    · rw [heq]

/-! ## the queue in every run -/

/-- The queue is in order, `next_timeout` is the time of the first timer, and the next balancing is in
it once the clock task has started. -/
structure Armed (t : Timed) : Prop where
  inOrder : t.timers.InOrder
  next : t.timers.queue ≠ [] → t.nextTimeout = t.timers.first
  balance : t.point ≠ .init → .queueTimer ∈ t.timers.queue

theorem tmrsExptimersFrom_spec (hin : t.timers.InOrder)
    (hbalance : t.point ≠ .init → .queueTimer ∈ t.timers.queue)
    (h : tmrsExptimersFrom now n t = some t') : t'.timers.InOrder ∧ t'.point = t.point ∧
      (t.point ≠ .init → .queueTimer ∈ t'.timers.queue) ∧
      ∀ x ∈ t'.timers.queue, now < t'.timers.expTime x := by
  induction n generalizing t with
  | zero => cases h
  | succ n ih =>
    cases hqueue : t.timers.queue with
    | nil =>
      rw [tmrsExptimersFrom, hqueue] at h
      cases h
      refine ⟨hin, rfl, hbalance, fun x hx => ?_⟩
      rw [hqueue] at hx
      cases hx
    | cons tp rest =>
      by_cases hdue : t.timers.expTime tp ≤ now
      · rw [tmrsExptimersFrom_cons hqueue hdue] at h
        obtain ⟨t₁, ht₁, h⟩ := Option.bind_eq_some_iff.mp h
        have hwatched := watchdog_spec ht₁
        have hpoint : t₁.point = t.point := hwatched.point
        rw [← hpoint] at hbalance ⊢
        refine ih (hwatched.inOrder (hin.pop hqueue)) (fun hp => ?_) h
        by_cases htp : tp = .queueTimer
        · exact hwatched.again htp
        · -- it is behind the one that is taken off
          refine hwatched.kept _ ?_
          have hmem := hbalance hp
          rw [hqueue] at hmem
          exact (List.mem_cons.mp hmem).resolve_left (Ne.symm htp)
      · rw [tmrsExptimersFrom, hqueue] at h
        dsimp only at h
        rw [if_neg hdue] at h
        cases h
        refine ⟨hin, rfl, hbalance, fun x hx => ?_⟩
        have hfirst := hin.first_le hx
        unfold Timers.first at hfirst
        rw [hqueue] at hfirst
        exact lt_of_lt_of_le (not_le.mp hdue) hfirst

namespace Armed

/-- What has nothing to do with the timers. -/
theorem of_eq (h : Armed t) (htimers : t'.timers = t.timers) (hnext : t'.nextTimeout = t.nextTimeout)
    (hpoint : t'.point = t.point) : Armed t' := by
  refine ⟨htimers ▸ h.inOrder, fun hne => ?_, fun hp => ?_⟩
  · rw [hnext, htimers]
    exact h.next (htimers ▸ hne)
  · rw [htimers]
    exact h.balance (hpoint ▸ hp)

theorem setTimer (h : Armed t) : Armed (t.setTimer tp expTime) :=
  ⟨h.inOrder.settimer, fun _ => rfl, fun hp => mem_settimer.mpr (Or.inr (h.balance hp))⟩

/-- An alarm is not the timer of `balance_queues`. -/
theorem resetTimer {id : PrivPtr} (h : Armed t) : Armed (t.resetTimer (.alarmTimer id)) :=
  ⟨h.inOrder.clrtimer, fun _ => rfl, fun hp => (mem_clrtimer (by nofun)).mpr (h.balance hp)⟩

theorem balanceQueues (h : Armed t) (hstep : t.balanceQueues = some t') :
    Armed t' ∧ t'.point = t.point ∧ .queueTimer ∈ t'.timers.queue := by
  obtain ⟨s, expTime, -, -, rfl⟩ := balanceQueues_spec hstep
  have hsame : Armed { t with ipc := { t.ipc with kernel := s } } := h.of_eq rfl rfl rfl
  exact ⟨hsame.setTimer, rfl, mem_settimer.mpr (Or.inl rfl)⟩

/-- Behind `do_clocktick` no timer has expired. -/
theorem doClocktick (h : Armed t) (hstep : t.doClocktick = some t') :
    Armed t' ∧ t'.point = t.point ∧ (t'.timers.queue ≠ [] → t.ipc.realtime < t'.nextTimeout) := by
  unfold Timed.doClocktick at hstep
  obtain ⟨s, -, hstep⟩ := Option.bind_eq_some_iff.mp hstep
  have h₁ : Armed { t with ipc := { t.ipc with kernel := s } } := h.of_eq rfl rfl rfl
  dsimp only at hstep
  split at hstep
  · obtain ⟨t₁, hloop, hstep⟩ := Option.bind_eq_some_iff.mp hstep
    cases hstep
    obtain ⟨hin, hpoint, hbalance, hlater⟩ := tmrsExptimersFrom_spec h₁.inOrder h₁.balance hloop
    refine ⟨⟨hin, fun _ => rfl, fun hp => hbalance (hpoint ▸ hp)⟩, hpoint, fun hne => ?_⟩
    obtain ⟨x, rest, hqueue⟩ := List.exists_cons_of_ne_nil hne
    have hfirst := hlater x (by rw [hqueue]; exact List.mem_cons_self)
    show _ < t₁.timers.first
    unfold Timers.first
    dsimp only at hqueue
    rwa [hqueue]
  · next hlater =>
    cases hstep
    exact ⟨h.of_eq rfl rfl rfl, rfl, fun _ => not_le.mp hlater⟩

theorem clockTask (h : Armed t) (hstep : t.clockTask = some t') : Armed t' := by
  unfold Timed.clockTask at hstep
  split at hstep
  · obtain ⟨t₁, hbalance, hstep⟩ := Option.bind_eq_some_iff.mp hstep
    cases hstep
    obtain ⟨h₁, -, hmem⟩ := h.balanceQueues hbalance
    exact ⟨h₁.inOrder, h₁.next, fun _ => hmem⟩
  · next hpoint =>
    obtain ⟨t₁, hcall, hstep⟩ := Option.bind_eq_some_iff.mp hstep
    cases hstep
    unfold Timed.sysCall at hcall
    obtain ⟨⟨e, ipc⟩, -, hcall⟩ := Option.bind_eq_some_iff.mp hcall
    cases hcall
    exact ⟨h.inOrder, h.next, fun _ => h.balance (by rw [hpoint]; nofun)⟩
  · next hpoint =>
    obtain ⟨t₁, htick, hstep⟩ := Option.bind_eq_some_iff.mp hstep
    cases hstep
    have hhandle : t.point ≠ .init := by
      rw [hpoint]
      nofun
    unfold handleMessage at htick
    split at htick
    · obtain ⟨h₁, hpoint₁, -⟩ := h.doClocktick htick
      exact ⟨h₁.inOrder, h₁.next, fun _ => h₁.balance (hpoint₁ ▸ hhandle)⟩
    · cases htick
      exact ⟨h.inOrder, h.next, fun _ => h.balance hhandle⟩

theorem doSetalarm {whoE : Int} {useAbsTime : Bool} {r : Int × Option Int} (h : Armed t)
    (hstep : t.doSetalarm whoE expTime useAbsTime = some (r, t')) : Armed t' := by
  unfold Timed.doSetalarm at hstep
  obtain ⟨rp, -, hstep⟩ := Option.bind_eq_some_iff.mp hstep
  dsimp only at hstep
  split at hstep
  · cases hstep
    exact h
  · cases hstep
    have hsame : Armed { t with
        taInt := Function.update t.taInt (t.ipc.kernel.proc rp).priv whoE } := h.of_eq rfl rfl rfl
    split
    · exact hsame.resetTimer
    · exact hsame.setTimer

theorem clearProc {rc : ProcPtr} (h : Armed t) (hstep : t.clearProc rc = some t') : Armed t' := by
  unfold Timed.clearProc at hstep
  split at hstep
  · cases hstep
    exact h
  · obtain ⟨ipc, -, hstep⟩ := Option.bind_eq_some_iff.mp hstep
    cases hstep
    have hsame : Armed { t with ipc := ipc } := h.of_eq rfl rfl rfl
    exact hsame.resetTimer

end Armed

theorem doExit_cases {whoP endpt e : Int} (h : t.doExit whoP endpt = some (e, t')) :
    t' = t ∨ ∃ rc, t.clearProc rc = some t' ∧
      if PM_PROC_NR = whoP ∧ endpt ≠ SELF then isokendpt t.ipc.kernel endpt = some rc
      else procAddr whoP = some rc := by
  unfold doExit at h
  split at h
  · next hpm =>
    split at h
    · cases h
      exact Or.inl rfl
    · next rc hrc =>
      obtain ⟨t₁, hclear, h⟩ := Option.bind_eq_some_iff.mp h
      cases h
      exact Or.inr ⟨rc, hclear, by rwa [if_pos hpm]⟩
  · next hpm =>
    obtain ⟨rc, hrc, h⟩ := Option.bind_eq_some_iff.mp h
    obtain ⟨t₁, hclear, h⟩ := Option.bind_eq_some_iff.mp h
    cases h
    exact Or.inr ⟨rc, hclear, by rwa [if_neg hpm]⟩

theorem Armed.op {op : Op} (h : Armed t) (hstep : op.run t = some t') : Armed t' := by
  cases op with
  | clockHandler ticks =>
    obtain ⟨t₁, hrun, rfl⟩ := Option.map_eq_some_iff.mp hstep
    unfold clockHandler at hrun
    obtain ⟨ipc, -, hrun⟩ := Option.bind_eq_some_iff.mp hrun
    cases hrun
    exact h.of_eq rfl rfl rfl
  | genericHandler procNrE notifyId =>
    obtain ⟨ipc, -, rfl⟩ := Option.map_eq_some_iff.mp hstep
    exact h.of_eq rfl rfl rfl
  | clockTask => exact h.clockTask hstep
  | doSetalarm whoE expTime useAbsTime =>
    obtain ⟨⟨r, t₁⟩, hrun, rfl⟩ := Option.map_eq_some_iff.mp hstep
    exact h.doSetalarm hrun
  | doExit whoP endpt =>
    obtain ⟨⟨e, t₁⟩, hrun, rfl⟩ := Option.map_eq_some_iff.mp hstep
    rcases doExit_cases hrun with rfl | ⟨rc, hclear, -⟩
    · exact h
    · exact h.clearProc hclear
  | call op =>
    obtain ⟨ipc, -, rfl⟩ := Option.map_eq_some_iff.mp hstep
    exact h.of_eq rfl rfl rfl
  | sysCall callerPtr callNr srcDstE m pointerOk =>
    obtain ⟨t₁, hrun, rfl⟩ := Option.map_eq_some_iff.mp hstep
    unfold Timed.sysCall at hrun
    obtain ⟨⟨e, ipc⟩, -, hrun⟩ := Option.bind_eq_some_iff.mp hrun
    cases hrun
    exact h.of_eq rfl rfl rfl

/-- **The timers.** In every run the queue is in order, and the queues are balanced again and again. -/
theorem Run.armed {cond : Timed → Op → Prop} (h : Run cond t) : Armed t := by
  induction h with
  | boot h =>
    unfold Timed.boot at h
    obtain ⟨ipc, -, h⟩ := Option.bind_eq_some_iff.mp h
    cases h
    exact ⟨⟨List.Pairwise.nil, List.nodup_nil⟩, fun hne => absurd rfl hne, fun hp => absurd rfl hp⟩
  | step _ _ _ hstep ih => exact ih.op hstep

/-! ## the kernel without timers -/

/-- Operations that meet a condition lead from one state to the other. -/
def Leads (cond : Ipc Int → Ipc.Op Int → Prop) : Ipc Int → Ipc Int → Prop :=
  Relation.ReflTransGen fun st st' => ∃ op : Ipc.Op Int,
    op.Allowed st ∧ cond st op ∧ op.run st = some st'

/-- The operation is not what the system task does for a process that forks, or its answer. -/
def IsOwn : Ipc.Op Int → Bool
  | .doFork .. | .lockSend .. => false
  | _ => true

section Leads

variable {cond : Ipc Int → Ipc.Op Int → Prop} {st st' : Ipc Int}

theorem Leads.single (op : Ipc.Op Int) (hallowed : op.Allowed st) (hcond : cond st op)
    (hstep : op.run st = some st') : Leads cond st st' :=
  Relation.ReflTransGen.single ⟨op, hallowed, hcond, hstep⟩

theorem Leads.run (h : Leads cond st st') (hrun : Ipc.Run cond st) : Ipc.Run cond st' := by
  induction h with
  | refl => exact hrun
  | tail _ hstep ih =>
    obtain ⟨op, hallowed, hcond, hstep⟩ := hstep
    exact .step ih hallowed hcond hstep

variable (hown : ∀ st op, IsOwn op = true → cond st op)

include hown

theorem leads_restart (t : Timed) : Leads cond t.ipc t.restart.ipc :=
  Leads.single (.kernel .restart) ⟨trivial, rfl⟩ (hown _ _ rfl) rfl

theorem leads_watchdog (h : t.watchdog tp = some t') : Leads cond t.ipc t'.ipc := by
  cases tp with
  | queueTimer =>
    obtain ⟨s, expTime, hbalance, -, rfl⟩ := balanceQueues_spec h
    refine Leads.single (.kernel .balanceQueues) ⟨trivial, rfl⟩ (hown _ _ rfl) ?_
    exact Option.bind_eq_some_iff.mpr ⟨s, hbalance, rfl⟩
  | alarmTimer id =>
    obtain ⟨e, ipc, hnotify, rfl⟩ := causeAlarm_spec h
    exact Leads.single (.lockNotify CLOCK (t.taInt id)) trivial (hown _ _ rfl)
      (Option.map_eq_some_iff.mpr ⟨_, hnotify, rfl⟩)

theorem leads_exptimers (h : tmrsExptimersFrom now n t = some t') : Leads cond t.ipc t'.ipc := by
  induction n generalizing t with
  | zero => cases h
  | succ n ih =>
    cases hqueue : t.timers.queue with
    | nil =>
      rw [tmrsExptimersFrom, hqueue] at h
      cases h
      exact Relation.ReflTransGen.refl
    | cons tp rest =>
      by_cases hdue : t.timers.expTime tp ≤ now
      · rw [tmrsExptimersFrom_cons hqueue hdue] at h
        obtain ⟨t₁, ht₁, h⟩ := Option.bind_eq_some_iff.mp h
        have hfirst := leads_watchdog hown ht₁
        exact hfirst.trans (ih h)
      · rw [tmrsExptimersFrom, hqueue] at h
        dsimp only at h
        rw [if_neg hdue] at h
        cases h
        exact Relation.ReflTransGen.refl

theorem leads_clocktick (hallowed : Minix.Op.doClocktick.Allowed t.ipc.kernel)
    (h : t.doClocktick = some t') : Leads cond t.ipc t'.ipc := by
  unfold doClocktick at h
  obtain ⟨s, htick, h⟩ := Option.bind_eq_some_iff.mp h
  have hfirst : Leads cond t.ipc { t.ipc with kernel := s } :=
    Leads.single (.kernel .doClocktick) ⟨hallowed, rfl⟩ (hown _ _ rfl)
      (Option.bind_eq_some_iff.mpr ⟨s, htick, rfl⟩)
  dsimp only at h
  split at h
  · obtain ⟨t₁, hloop, h⟩ := Option.bind_eq_some_iff.mp h
    cases h
    have hsecond := leads_exptimers hown hloop
    exact hfirst.trans hsecond
  · cases h
    exact hfirst

theorem leads_sysCall {callerPtr : ProcPtr} {callNr : Nat} {srcDstE : Int} {m : Message Int}
    {pointerOk : Bool} (hready : (t.ipc.kernel.proc callerPtr).rtsFlags = ∅)
    (h : t.sysCall callerPtr callNr srcDstE m pointerOk = some t') : Leads cond t.ipc t'.ipc := by
  unfold sysCall at h
  obtain ⟨⟨e, ipc⟩, hcall, h⟩ := Option.bind_eq_some_iff.mp h
  cases h
  exact Leads.single (.sysCall callerPtr callNr srcDstE m pointerOk) hready (hown _ _ rfl)
    (Option.map_eq_some_iff.mpr ⟨_, hcall, rfl⟩)

theorem leads_clockTask (hallowed : Op.clockTask.Allowed t) (h : t.clockTask = some t') :
    Leads cond t.ipc t'.ipc := by
  obtain ⟨⟨-, hready⟩, hprev⟩ := hallowed
  unfold clockTask at h
  split at h
  · obtain ⟨t₁, hbalance, h⟩ := Option.bind_eq_some_iff.mp h
    cases h
    have hwatch : t.watchdog .queueTimer = some t₁ := hbalance
    have hleads := leads_watchdog hown hwatch
    exact hleads
  · obtain ⟨t₁, hcall, h⟩ := Option.bind_eq_some_iff.mp h
    cases h
    exact (leads_sysCall hown hready hcall).trans (leads_restart hown t₁)
  · next hpoint =>
    obtain ⟨t₁, htick, h⟩ := Option.bind_eq_some_iff.mp h
    cases h
    unfold handleMessage at htick
    split at htick
    · have hleads := leads_clocktick hown (hprev hpoint) htick
      exact hleads
    · cases htick
      exact Relation.ReflTransGen.refl

omit hown in
theorem doSetalarm_ipc {whoE : Int} {useAbsTime : Bool} {r : Int × Option Int}
    (h : t.doSetalarm whoE expTime useAbsTime = some (r, t')) : t'.ipc = t.ipc := by
  unfold doSetalarm at h
  obtain ⟨rp, -, h⟩ := Option.bind_eq_some_iff.mp h
  dsimp only at h
  split at h
  · cases h
    rfl
  · cases h
    split <;> rfl

omit hown in
theorem clearProc_ipc {rc : ProcPtr} (h : t.clearProc rc = some t') :
    t.ipc.clearProc rc = some t'.ipc := by
  unfold clearProc at h
  split at h
  · next hempty =>
    cases h
    unfold Ipc.clearProc
    rw [if_pos hempty]
  · obtain ⟨ipc, hclear, h⟩ := Option.bind_eq_some_iff.mp h
    cases h
    exact hclear

omit hown in
theorem doExit_ipc {whoP endpt e : Int} (h : t.doExit whoP endpt = some (e, t')) :
    t.ipc.doExit whoP endpt = some (e, t'.ipc) := by
  unfold doExit at h
  unfold Ipc.doExit
  by_cases hpm : PM_PROC_NR = whoP ∧ endpt ≠ SELF
  · rw [if_pos hpm] at h ⊢
    cases hrc : isokendpt t.ipc.kernel endpt with
    | none =>
      rw [hrc] at h
      cases h
      rfl
    | some rc =>
      rw [hrc] at h
      obtain ⟨t₁, hclear, h⟩ := Option.bind_eq_some_iff.mp h
      cases h
      dsimp only
      rw [clearProc_ipc hclear]
      rfl
  · rw [if_neg hpm] at h ⊢
    obtain ⟨rc, hrc, h⟩ := Option.bind_eq_some_iff.mp h
    obtain ⟨t₁, hclear, h⟩ := Option.bind_eq_some_iff.mp h
    cases h
    rw [hrc, Option.bind_eq_bind, Option.bind_some, clearProc_ipc hclear]
    rfl

/-- **What happens with the timers** is a sequence of operations of the kernel without them. -/
theorem Op.leads {op : Op} (hallowed : op.Allowed t) (hcall : ∀ op', op = .call op' → cond t.ipc op')
    (hstep : op.run t = some t') : Leads cond t.ipc t'.ipc := by
  cases op with
  | clockHandler ticks =>
    obtain ⟨t₁, hrun, rfl⟩ := Option.map_eq_some_iff.mp hstep
    unfold Timed.clockHandler at hrun
    obtain ⟨ipc, htick, hrun⟩ := Option.bind_eq_some_iff.mp hrun
    cases hrun
    have hfirst : Leads cond t.ipc ipc :=
      Leads.single (.clockHandler ticks _) trivial (hown _ _ rfl) htick
    exact hfirst.trans (leads_restart hown { t with ipc := ipc })
  | genericHandler procNrE notifyId =>
    obtain ⟨ipc, hrun, rfl⟩ := Option.map_eq_some_iff.mp hstep
    have hfirst : Leads cond t.ipc ipc :=
      Leads.single (.genericHandler procNrE notifyId) trivial (hown _ _ rfl) hrun
    exact hfirst.trans (leads_restart hown { t with ipc := ipc })
  | clockTask => exact leads_clockTask hown hallowed hstep
  | doSetalarm whoE expTime useAbsTime =>
    obtain ⟨⟨r, t₁⟩, hrun, rfl⟩ := Option.map_eq_some_iff.mp hstep
    rw [doSetalarm_ipc hrun]
    exact Relation.ReflTransGen.refl
  | doExit whoP endpt =>
    obtain ⟨⟨e, t₁⟩, hrun, rfl⟩ := Option.map_eq_some_iff.mp hstep
    exact Leads.single (.doExit whoP endpt) trivial (hown _ _ rfl)
      (Option.map_eq_some_iff.mpr ⟨_, doExit_ipc hrun, rfl⟩)
  | call op' =>
    obtain ⟨ipc, hrun, rfl⟩ := Option.map_eq_some_iff.mp hstep
    exact Leads.single op' hallowed.2.2 (hcall op' rfl) hrun
  | sysCall callerPtr callNr srcDstE m pointerOk =>
    obtain ⟨t₁, hrun, rfl⟩ := Option.map_eq_some_iff.mp hstep
    exact (leads_sysCall hown hallowed.2.2 hrun).trans (leads_restart hown t₁)

/-- **A run with timers** is one in which they expire at any time. -/
theorem Run.ipc (h : Run (fun t op => ∀ op', op = .call op' → cond t.ipc op') t) :
    Ipc.Run cond t.ipc := by
  induction h with
  | boot h =>
    unfold Timed.boot at h
    obtain ⟨ipc, hboot, h⟩ := Option.bind_eq_some_iff.mp h
    cases h
    exact Leads.run (leads_restart hown _) (.boot hboot)
  | step _ hallowed hcond hstep ih => exact (Op.leads hown hallowed hcond hstep).run ih

end Leads

end Timed

end Minix
