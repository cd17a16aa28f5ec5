import Bambinos.Minix.Delivery

/-!
# The kernel calls and the clock keep the kernel consistent

* `Consistent.requeue` — a new priority or policy
* `Consistent.doFork` — if nobody is queued at the parent, since the child gets a copy of its queue
* `Consistent.clearProc` — who waits for the process goes on
* `Consistent.doExit` — so the exit of a process keeps the kernel consistent
-/

namespace Minix

open Infra

variable {s s' s₁ : Kernel} {r rp x y : ProcPtr} {f : Proc → Proc} {e : Int}

/-! ## priority and policy -/

/-- A process is taken off, gets its priority and policy, and is put on again. -/
theorem Consistent.requeue {m p c : Int} (h : Consistent s)
    (hready : Ready s₁ fun r => (s.proc r).rtsFlags = ∅ ∧ r ≠ rp) (hmoves : Moves s s₁)
    (hf : f (s₁.proc rp) = { s₁.proc rp with maxPriority := m, priority := p, scheduler := c })
    (hrange : (s.proc rp).nr ≠ IDLE → m ≤ p ∧ p ≤ IDLE_Q - 1)
    (hstep : enqueueReady rp (s₁.setProc rp f) = some s') : Consistent s' := by
  have hset : ∀ {β : Type} {k : Proc → β}, (∀ q m p c,
      k { q with maxPriority := m, priority := p, scheduler := c } = k q) → ∀ r,
      k ((s₁.setProc rp f).proc r) = k (s₁.proc r) := by
    intro β k hk r
    refine Kernel.setProc_field ?_ r
    rw [hf]
    exact hk _ _ _ _
  obtain ⟨hrun, hmoves'⟩ := requeue_spec hready (fun r => by
    rw [hset (k := Proc.rtsFlags) fun _ _ _ _ => rfl]
    exact hmoves.rtsFlags r) hstep
  have hfield : ∀ {β : Type} {k : Proc → β},
      (∀ q m p c, k { q with maxPriority := m, priority := p, scheduler := c } = k q) →
      (∀ q n t y, k { q with nextready := n, ticksLeft := t, priority := y } = k q) → ∀ r,
      k (s'.proc r) = k (s.proc r) := fun hk hk' r => by
    rw [hmoves'.field hk', hset hk, hmoves.field hk']
  have hflags := hfield (k := Proc.rtsFlags) (fun _ _ _ _ => rfl) fun _ _ _ _ => rfl
  have hendpoint := hfield (k := Proc.endpoint) (fun _ _ _ _ => rfl) fun _ _ _ _ => rfl
  have hnr := hfield (k := Proc.nr) (fun _ _ _ _ => rfl) fun _ _ _ _ => rfl
  have halive : ∀ y, Alive s' y → Alive s y := by
    intro y hy
    unfold Alive at hy ⊢
    rwa [hflags] at hy
  obtain ⟨C, hC⟩ := h.callers
  refine ⟨hrun, ⟨C, ⟨⟨fun y hy => ?_, fun y hy x hx => ?_⟩, fun y hy x hx => ?_⟩⟩,
    ⟨fun r => (hnr r).trans (h.numbered.nr r), fun r => ?_⟩, fun r hr => ?_⟩
  · rw [hfield (k := Proc.callerQ) (fun _ _ _ _ => rfl) fun _ _ _ _ => rfl]
    refine (hC.chain y (halive y hy)).congr fun r _ => ?_
    exact hfield (k := Proc.qLink) (fun _ _ _ _ => rfl) (fun _ _ _ _ => rfl) r
  · rw [hfield (k := Proc.sendtoE) (fun _ _ _ _ => rfl) fun _ _ _ _ => rfl, hendpoint]
    exact hC.sendto y (halive y hy) x hx
  · rw [hflags]
    exact hC.sending y (halive y hy) x hx
  · rw [hendpoint]
    exact h.numbered.endpoint r
  · rw [hnr] at hr
    have hmax : (s'.proc r).maxPriority = ((s₁.setProc rp f).proc r).maxPriority :=
      hmoves'.field (g := Proc.maxPriority) (fun _ _ _ _ => rfl) r
    have hlow := hmoves'.lowered r
    have hlowest := hmoves'.lowest r
    have hrange' : ((s₁.setProc rp f).proc r).maxPriority ≤ ((s₁.setProc rp f).proc r).priority ∧
        ((s₁.setProc rp f).proc r).priority ≤ IDLE_Q - 1 := by
      by_cases he : r = rp
      · subst he
        rw [Kernel.setProc_self, hf]
        exact hrange hr
      · rw [Kernel.setProc_of_ne he]
        refine h.range.steady hmoves.quiet.toSteady r ?_
        rwa [hmoves.field (g := Proc.nr) fun _ _ _ _ => rfl]
    rw [hmax]
    exact ⟨Int.le_trans hrange'.1 hlow, hlowest hrange'.2⟩

theorem niceQueue_range (pri : Int) : niceQueue pri ≤ IDLE_Q - 1 := by
  unfold niceQueue MIN_USER_Q IDLE_Q
  dsimp only
  split <;> omega

theorem Runnable.dequeued (h : Runnable s) (hstep : dequeue rp s = some s₁) :
    Ready s₁ (fun r => (s.proc r).rtsFlags = ∅ ∧ r ≠ rp) ∧ Moves s s₁ :=
  ⟨Ready.dequeue h hstep, (dequeue_moves hstep).1⟩

theorem Consistent.doNice {endpt pri : Int} (h : Consistent s)
    (hstep : doNice endpt pri s = some (e, s')) : Consistent s' := by
  unfold Minix.doNice at hstep
  split at hstep
  · cases hstep
    exact h
  · next rp hrp =>
    have halive := (isokendpt_spec hrp).2.2
    split at hstep
    · cases hstep
      exact h
    · split at hstep
      · obtain ⟨s₁, hdequeue, hstep⟩ := Option.bind_eq_some_iff.mp hstep
        cases hstep
        obtain ⟨hready, hmoves⟩ := h.runnable.dequeued hdequeue
        obtain ⟨hrun, hq, hflags⟩ := off_block hready hmoves rfl
        refine h.of_quiet hrun hq (fun y => hflags.alive halive) fun x hx => ?_
        by_cases he : x = rp
        · subst he
          rw [hflags.1]
          exact Finset.mem_insert_of_mem hx
        · rwa [hflags.2 x he]
      · split at hstep
        · obtain ⟨s₁, hdequeue, hstep⟩ := Option.bind_eq_some_iff.mp hstep
          obtain ⟨s₂, henqueue, hstep⟩ := Option.bind_eq_some_iff.mp hstep
          cases hstep
          obtain ⟨hready, hmoves⟩ := h.runnable.dequeued hdequeue
          exact h.requeue hready hmoves rfl (fun _ => ⟨Int.le_refl _, niceQueue_range pri⟩) henqueue
        · cases hstep
          exact h

theorem Consistent.doSetscheduler {endpt policy : Int} (h : Consistent s)
    (hstep : doSetscheduler endpt policy s = some (e, s')) : Consistent s' := by
  unfold Minix.doSetscheduler at hstep
  split at hstep
  · cases hstep
    exact h
  · next rp hrp =>
    split at hstep
    · cases hstep
      exact h
    · obtain ⟨s₁, hdequeue, hstep⟩ := Option.bind_eq_some_iff.mp hstep
      obtain ⟨s₂, henqueue, hstep⟩ := Option.bind_eq_some_iff.mp hstep
      cases hstep
      obtain ⟨hready, hmoves⟩ := h.runnable.dequeued hdequeue
      refine h.requeue hready hmoves rfl (fun hne => ?_) henqueue
      refine h.range.steady hmoves.quiet.toSteady rp ?_
      rwa [hmoves.field (g := Proc.nr) fun _ _ _ _ => rfl]

/-! ## the clock -/

theorem Consistent.chargeTicks {ticks : Int} (h : Consistent s)
    (hstep : chargeTicks ticks s = some s') : Consistent s' := by
  unfold Minix.chargeTicks at hstep
  obtain ⟨procPtr, -, hstep⟩ := Option.bind_eq_some_iff.mp hstep
  dsimp only at hstep
  have hcharged : ∀ {s : Kernel} {rp : ProcPtr}, Consistent s → Consistent
      (s.setProc rp fun r => { r with ticksLeft := toChar (r.ticksLeft - ticks) }) :=
    fun h => h.setProc rfl
  have h₁ : Consistent (if .preemptible ∈ (s.priv (s.proc procPtr).priv).flags ∧
      (s.proc procPtr).scheduler ≠ SCHED_FIFO then
        s.setProc procPtr fun r => { r with ticksLeft := toChar (r.ticksLeft - ticks) }
      else s) := by
    split
    · exact hcharged h
    · exact h
  by_cases hbill : PrivFlag.billable ∉ (s.priv (s.proc procPtr).priv).flags
  · rw [if_pos hbill] at hstep
    obtain ⟨billPtr, -, hstep⟩ := Option.bind_eq_some_iff.mp hstep
    cases hstep
    exact hcharged h₁
  · rw [if_neg hbill] at hstep
    cases hstep
    exact h₁

theorem Consistent.clockHandler {ticks : Int} {timeout : Bool} (h : Consistent s)
    (hstep : clockHandler ticks timeout s = some s') : Consistent s' := by
  unfold Minix.clockHandler at hstep
  obtain ⟨s₁, hcharge, hstep⟩ := Option.bind_eq_some_iff.mp hstep
  obtain ⟨procPtr, -, hstep⟩ := Option.bind_eq_some_iff.mp hstep
  have h₁ := h.chargeTicks hcharge
  split at hstep
  · obtain ⟨⟨result, s₂⟩, hnotify, hstep⟩ := Option.bind_eq_some_iff.mp hstep
    cases hstep
    have h₂ : Consistent { s₁ with prevPtr := some procPtr } := h₁.of_proc_eq rfl rfl rfl
    exact h₂.lockNotify hnotify
  · cases hstep
    exact h₁

/-- `do_clocktick`, if the process that used up its quantum is runnable still. -/
theorem Consistent.doClocktick (h : Consistent s)
    (hprev : ∀ rp ∈ s.prevPtr, (s.proc rp).rtsFlags = ∅)
    (hstep : doClocktick s = some s') : Consistent s' := by
  unfold Minix.doClocktick at hstep
  obtain ⟨rp, hrp, hstep⟩ := Option.bind_eq_some_iff.mp hstep
  dsimp only at hstep
  split at hstep
  · obtain ⟨s₁, hdequeue, henqueue⟩ := Option.bind_eq_some_iff.mp hstep
    obtain ⟨hready, hmoves⟩ := h.runnable.dequeued hdequeue
    have hmoves' := hmoves.trans (enqueue_moves henqueue)
    refine h.of_quiet ((hready.enqueue (fun h => h.2 rfl) henqueue).iff fun r => ?_) hmoves'.quiet
      (fun y hy => ?_) fun x hx => ?_
    · rw [hmoves'.rtsFlags]
      constructor
      · rintro (h | rfl)
        · exact h.1
        · exact hprev r hrp
      · exact fun h => (em (r = rp)).elim Or.inr fun hr => Or.inl ⟨h, hr⟩
    · unfold Alive at hy ⊢
      rwa [hmoves'.rtsFlags] at hy
    · rwa [hmoves'.rtsFlags]
  · cases hstep
    exact h

theorem Consistent.balanceProcess (h : Consistent s) (hstep : balanceProcess rp s = some s') :
    Consistent s' := by
  unfold Minix.balanceProcess at hstep
  split at hstep
  · cases hstep
    exact h
  · split at hstep
    · next hpriority =>
      obtain ⟨s₁, hdequeue, henqueue⟩ := Option.bind_eq_some_iff.mp hstep
      obtain ⟨hready, hmoves⟩ := h.runnable.off hdequeue
      refine h.requeue hready hmoves rfl (fun hne => ?_) henqueue
      have hlow := hmoves.lowered rp
      have hlowest := hmoves.lowest rp (h.range rp hne).2
      have hmax : (s₁.proc rp).maxPriority = (s.proc rp).maxPriority :=
        hmoves.field (g := Proc.maxPriority) (fun _ _ _ _ => rfl) rp
      rw [hmax]
      constructor <;> omega
    · cases hstep
      exact h.setProc rfl

/-- What every turn of a loop keeps is kept by the loop. -/
theorem foldlM_keeps {σ α : Type} {P : σ → Prop} {g : σ → α → Option σ}
    (hg : ∀ {s a s'}, P s → g s a = some s' → P s') :
    ∀ {l : List α} {s s' : σ}, P s → l.foldlM g s = some s' → P s'
  | [], s, s', h, hstep => by
    cases hstep
    exact h
  | a :: l, s, s', h, hstep => by
    rw [List.foldlM_cons] at hstep
    obtain ⟨s₁, hstep₁, hstep⟩ := Option.bind_eq_some_iff.mp hstep
    exact foldlM_keeps hg (hg h hstep₁) hstep

theorem Consistent.balanceQueues (h : Consistent s) (hstep : balanceQueues s = some s') :
    Consistent s' :=
  foldlM_keeps (fun h hstep => Consistent.balanceProcess h hstep) h hstep

/-! ## `do_fork` and `do_newmap` -/

theorem childOf_flags (rpp rpc : ProcPtr) (slot : Int) :
    RtsFlag.noMap ∈ (childOf s rpp rpc slot).rtsFlags := by
  have hmap : RtsFlag.noMap ∈ ((((insert RtsFlag.noMap (s.proc rpp).rtsFlags).erase .signaled).erase
      .sigPending).erase .pStop) := by
    simp
  unfold childOf
  dsimp only
  split
  · exact Finset.mem_insert_of_mem hmap
  · exact hmap

theorem childOf_endpoint (h : Numbered s) (rpp rpc : ProcPtr) :
    ∃ g : Int, 0 ≤ g ∧
      (childOf s rpp rpc (rpc.val - NR_TASKS)).endpoint = mkEndpoint g (rpc.val - NR_TASKS) := by
  obtain ⟨g, hg, hendpoint⟩ := h.endpoint rpc
  unfold childOf
  dsimp only
  rw [hendpoint, endpointG_mkEndpoint hg]
  split
  · exact ⟨1, by decide, rfl⟩
  · exact ⟨g + 1, by omega, rfl⟩

/-- The condition on `do_fork`: nobody is queued at the process that forks, and it is not `IDLE`. -/
def CleanFork (s : Kernel) (endpt : Int) : Prop :=
  ∀ rpp ∈ isokendpt s endpt, (s.proc rpp).callerQ = none ∧ (s.proc rpp).nr ≠ IDLE

instance (s : Kernel) (endpt : Int) : Decidable (CleanFork s endpt) :=
  inferInstanceAs (Decidable (∀ rpp ∈ isokendpt s endpt,
    (s.proc rpp).callerQ = none ∧ (s.proc rpp).nr ≠ IDLE))

/-- A free slot becomes a copy of a process. -/
theorem Consistent.child {rpp rpc : ProcPtr} (h : Consistent s) (hfree : ¬ Alive s rpc)
    (hqueue : (s.proc rpp).callerQ = none) (hidle : (s.proc rpp).nr ≠ IDLE) :
    Consistent (s.setProc rpc fun _ => childOf s rpp rpc (rpc.val - NR_TASKS)) := by
  have hflags := not_not.mp hfree
  have hready : Ready (s.setProc rpc fun _ => childOf s rpp rpc (rpc.val - NR_TASKS))
      fun r => (s.proc r).rtsFlags = ∅ := by
    refine Ready.setProc_of_not h.runnable ?_
    rw [hflags]
    exact Finset.singleton_ne_empty _
  have hchild := @childOf_flags s rpp rpc (rpc.val - NR_TASKS)
  obtain ⟨C, hC⟩ := h.callers
  have hoff : ∀ y, Alive s y → rpc ∉ C y := by
    intro y hy hmem
    have hsending := hC.sending y hy rpc hmem
    rw [hflags] at hsending
    exact absurd hsending (by decide)
  have halive : ∀ {y}, y ≠ rpc →
      Alive (s.setProc rpc fun _ => childOf s rpp rpc (rpc.val - NR_TASKS)) y → Alive s y := by
    intro y hne hy
    unfold Alive at hy ⊢
    rwa [Kernel.setProc_of_ne hne] at hy
  refine ⟨hready.iff fun r => ?_, ⟨Function.update C rpc [], ⟨⟨fun y hy => ?_, fun y hy x hx => ?_⟩,
    fun y hy x hx => ?_⟩⟩, ⟨fun r => ?_, fun r => ?_⟩, fun r hr => ?_⟩
  · by_cases he : r = rpc
    · subst he
      rw [Kernel.setProc_self, hflags]
      exact ⟨fun h => absurd h (Finset.singleton_ne_empty _),
        fun h => absurd h (Finset.ne_empty_of_mem hchild)⟩
    · rw [Kernel.setProc_of_ne he]
  · by_cases he : y = rpc
    · subst he
      rw [Kernel.setProc_self, Function.update_self,
        show (childOf s rpp y (y.val - NR_TASKS)).callerQ = none from hqueue]
      exact .nil
    · rw [Kernel.setProc_of_ne he, Function.update_of_ne he]
      refine (hC.chain y (halive he hy)).congr fun r hr => ?_
      rw [Kernel.setProc_of_ne (ne_of_mem_of_not_mem hr (hoff y (halive he hy)))]
  · by_cases he : y = rpc
    · subst he
      rw [Function.update_self] at hx
      cases hx
    · rw [Function.update_of_ne he] at hx
      rw [Kernel.setProc_of_ne he,
        Kernel.setProc_of_ne (ne_of_mem_of_not_mem hx (hoff y (halive he hy)))]
      exact hC.sendto y (halive he hy) x hx
  · by_cases he : y = rpc
    · subst he
      rw [Function.update_self] at hx
      cases hx
    · rw [Function.update_of_ne he] at hx
      rw [Kernel.setProc_of_ne (ne_of_mem_of_not_mem hx (hoff y (halive he hy)))]
      exact hC.sending y (halive he hy) x hx
  · by_cases he : r = rpc
    · subst he
      rw [Kernel.setProc_self]
      rfl
    · rw [Kernel.setProc_of_ne he]
      exact h.numbered.nr r
  · by_cases he : r = rpc
    · subst he
      rw [Kernel.setProc_self]
      exact childOf_endpoint h.numbered rpp r
    · rw [Kernel.setProc_of_ne he]
      exact h.numbered.endpoint r
  · by_cases he : r = rpc
    · subst he
      rw [Kernel.setProc_self]
      exact h.range rpp hidle
    · rw [Kernel.setProc_of_ne he] at hr ⊢
      exact h.range r hr

theorem Consistent.doFork {endpt slot : Int} (h : Consistent s) (hclean : CleanFork s endpt)
    (hstep : doFork endpt slot s = some (e, s')) : Consistent s' := by
  unfold Minix.doFork at hstep
  split at hstep
  · cases hstep
    exact h
  · next rpp hrpp =>
    obtain ⟨hqueue, hidle⟩ := hclean rpp hrpp
    obtain ⟨rpc, hslot, hstep⟩ := Option.bind_eq_some_iff.mp hstep
    split at hstep
    · cases hstep
      exact h
    · next hcheck =>
      cases hstep
      obtain rfl := procAddr_eq_some hslot
      have hfree : ¬ Alive s rpc := by
        rw [← isempty_iff]
        simpa using fun hempty => hcheck (Or.inr hempty)
      have h₁ := h.child hfree hqueue hidle
      exact h₁.setProc rfl

theorem Consistent.doNewmap {endpt : Int} {mapped : Bool} (h : Consistent s)
    (hstep : doNewmap endpt mapped s = some (e, s')) : Consistent s' := by
  unfold Minix.doNewmap at hstep
  split at hstep
  · cases hstep
    exact h
  · next rp hrp =>
    have halive := (isokendpt_spec hrp).2.2
    split at hstep
    · cases hstep
      exact h
    · split at hstep
      · cases hstep
        exact h
      · dsimp only at hstep
        split at hstep
        · next hset =>
          obtain ⟨s₁, henqueue, hstep⟩ := Option.bind_eq_some_iff.mp hstep
          cases hstep
          obtain ⟨hrun, hq, hflags⟩ := h.runnable.wake hset henqueue
          refine h.of_quiet hrun hq (fun y => hflags.alive halive) fun x hx => ?_
          by_cases he : x = rp
          · subst he
            rw [hflags.1]
            exact Finset.mem_erase.mpr ⟨by decide, hx⟩
          · rwa [hflags.2 x he]
        · next hset =>
          cases hstep
          have hnone : (s.proc rp).rtsFlags = ∅ := not_not.mp hset
          rw [Kernel.setProc_eq_self]
          · exact h
          · rw [hnone, Finset.erase_empty, ← hnone]

/-! ## `do_exit` -/

/-- Flags that are not needed to keep a process off the ready lists. -/
theorem Runnable.setFlags {flags : Finset RtsFlag} (h : Runnable s)
    (hset : (s.proc rp).rtsFlags ≠ ∅) (hne : flags ≠ ∅) :
    Runnable (s.setProc rp fun r => { r with rtsFlags := flags }) := by
  have hready : Ready (s.setProc rp fun r => { r with rtsFlags := flags })
      fun r => (s.proc r).rtsFlags = ∅ := Ready.setProc h rfl rfl rfl
  refine hready.iff fun r => ?_
  by_cases he : r = rp
  · subst he
    rw [Kernel.setProc_self]
    exact ⟨fun h => absurd h hset, fun h => absurd h hne⟩
  · rw [Kernel.setProc_of_ne he]

/-- The process has lost its endpoint and waits for nobody. -/
structure Detached (s : Kernel) (rc : ProcPtr) : Prop where
  noEndpoint : .noEndpoint ∈ (s.proc rc).rtsFlags
  sending : .sending ∉ (s.proc rc).rtsFlags
  receiving : .receiving ∉ (s.proc rc).rtsFlags

/-- The invariant while the processes that wait for `rc` are alerted. -/
structure Exiting (s : Kernel) (rc : ProcPtr) : Prop where
  runnable : Runnable s
  callers : ∃ C, Callers s (fun y => Alive s y ∧ y ≠ rc) C
  numbered : Numbered s
  range : InPriorityRange s
  detached : Detached s rc

section Exit

variable {rc : ProcPtr}

/-- The process leaves the queue where it waits to send. -/
theorem Consistent.leaveQueue (h : Consistent s) (hrc : .noEndpoint ∈ (s.proc rc).rtsFlags)
    (hstep : leaveQueue rc s = some s') :
    Consistent s' ∧ (s'.proc rc).rtsFlags = (s.proc rc).rtsFlags.erase .sending := by
  unfold Minix.leaveQueue at hstep
  split at hstep
  · next hsending =>
    obtain ⟨target, htarget, hstep⟩ := Option.bind_eq_some_iff.mp hstep
    obtain ⟨⟨place, x⟩, hseek, hstep⟩ := Option.bind_eq_some_iff.mp hstep
    obtain ⟨-, hendpoint, halive⟩ := isokendpt_spec htarget
    obtain ⟨C, hC⟩ := h.callers
    -- the queues without `rc`
    obtain ⟨s₁, hs₁, hrun₁, hsteady, hflags₁, C', hC', hmem⟩ : ∃ s₁,
        s' = (s₁.setProc rc fun r => { r with rtsFlags := r.rtsFlags.erase .sending }) ∧
        Runnable s₁ ∧ Steady s s₁ ∧ (∀ r, (s₁.proc r).rtsFlags = (s.proc r).rtsFlags) ∧
        ∃ C', Queued s₁ (Alive s) C' ∧ ∀ y, Alive s y → ∀ z ∈ C' y, z ∈ C y ∧ z ≠ rc := by
      cases x with
      | none =>
        refine ⟨s, (Option.some.inj hstep).symm, h.runnable, (Quiet.refl s).toSteady,
          fun _ => rfl, C, hC.toQueued, fun y hy z hz => ⟨hz, ?_⟩⟩
        rintro rfl
        have hy' : y = target := h.numbered.endpoint_inj
          ((hC.sendto y hy z hz).symm.trans hendpoint.symm)
        have hnone := (hC.toQueued.seek halive hseek).2
        have hnot := List.find?_eq_none.mp hnone.symm z (hy' ▸ hz)
        simp at hnot
      | some c =>
        obtain ⟨-, hleave⟩ := hC.toQueued.leave h.numbered halive hseek
        have hc : c = rc := by
          simpa using List.find?_some (hC.toQueued.seek halive hseek).2.symm
        subst hc
        refine ⟨_, (Option.some.inj hstep).symm, h.runnable.setCallerLink, setCallerLink_steady,
          fun r => ?_, hleave⟩
        exact setCallerLink_field (g := Proc.rtsFlags) (fun _ _ => rfl) (fun _ _ => rfl) r
    subst hs₁
    have hrc' : (s₁.proc rc).rtsFlags.erase .sending ≠ ∅ := by
      rw [hflags₁]
      exact Finset.ne_empty_of_mem (Finset.mem_erase.mpr ⟨by decide, hrc⟩)
    have hset : (s₁.proc rc).rtsFlags ≠ ∅ := by
      rw [hflags₁]
      exact Finset.ne_empty_of_mem hrc
    have hquiet : Quiet s₁ (s₁.setProc rc fun r =>
        { r with rtsFlags := r.rtsFlags.erase .sending }) := setFlags_quiet
    have hflags : FlagsOf s (s₁.setProc rc fun r =>
        { r with rtsFlags := r.rtsFlags.erase .sending }) rc
        ((s.proc rc).rtsFlags.erase .sending) := by
      refine ⟨by rw [Kernel.setProc_self, hflags₁], fun r hr => ?_⟩
      rw [Kernel.setProc_of_ne hr, hflags₁]
    have halive' := fun y => hflags.alive (y := y) (alive_of_mem hrc (by decide))
    refine ⟨⟨hrun₁.setFlags hset hrc', ⟨C', hC'.quiet hquiet halive', fun y hy z hz => ?_⟩,
      h.numbered.steady (hsteady.trans hquiet.toSteady),
      h.range.steady (hsteady.trans hquiet.toSteady)⟩, hflags.1⟩
    obtain ⟨hzC, hne⟩ := hmem y (halive' y hy) z hz
    rw [hflags.2 z hne]
    exact hC.sending y (halive' y hy) z hzC
  · next hsending =>
    cases hstep
    exact ⟨h, (Finset.erase_eq_of_notMem hsending).symm⟩

theorem Exiting.of_quiet (h : Exiting s rc) (hrun : Runnable s') (hq : Quiet s s')
    (halive : ∀ y, Alive s' y → Alive s y) (hrc : (s'.proc rc).rtsFlags = (s.proc rc).rtsFlags)
    (hsending : ∀ x, (s.proc x).sendtoE ≠ (s.proc rc).endpoint → .sending ∈ (s.proc x).rtsFlags →
      .sending ∈ (s'.proc x).rtsFlags) : Exiting s' rc where
  runnable := hrun
  callers := by
    obtain ⟨C, hC⟩ := h.callers
    refine ⟨C, hC.quiet hq (fun y hy => ⟨halive y hy.1, hy.2⟩) fun y hy x hx => hsending x ?_⟩
    rw [hC.sendto y ⟨halive y hy.1, hy.2⟩ x hx]
    exact fun he => hy.2 (h.numbered.endpoint_inj he)
  numbered := h.numbered.steady hq.toSteady
  range := h.range.steady hq.toSteady
  detached := by
    obtain ⟨h1, h2, h3⟩ := h.detached
    constructor <;> rwa [hrc]

theorem Exiting.stopReceiving (h : Exiting s rc) (hstep : stopReceiving rc rp s = some s') :
    Exiting s' rc := by
  unfold Minix.stopReceiving at hstep
  split at hstep
  · next hreceiving =>
    obtain ⟨hrun, hq, hflags⟩ := unset_spec h.runnable hreceiving.1 hstep
    have hne : rc ≠ rp := by
      rintro rfl
      exact h.detached.receiving hreceiving.1
    refine h.of_quiet hrun hq (fun y => hflags.alive (alive_of_mem hreceiving.1 (by decide)))
      (hflags.2 rc hne) fun x _ hx => ?_
    by_cases he : x = rp
    · subst he
      rw [hflags.1]
      exact Finset.mem_erase.mpr ⟨by decide, hx⟩
    · rwa [hflags.2 x he]
  · cases hstep
    exact h

theorem Exiting.stopSending (h : Exiting s rc) (hstep : stopSending rc rp s = some s') :
    Exiting s' rc := by
  unfold Minix.stopSending at hstep
  split at hstep
  · next hsending =>
    obtain ⟨hrun, hq, hflags⟩ := unset_spec h.runnable hsending.1 hstep
    have hne : rc ≠ rp := by
      rintro rfl
      exact h.detached.sending hsending.1
    refine h.of_quiet hrun hq (fun y => hflags.alive (alive_of_mem hsending.1 (by decide)))
      (hflags.2 rc hne) fun x hto hx => ?_
    have he : x ≠ rp := by
      rintro rfl
      exact hto hsending.2
    rwa [hflags.2 x he]
  · cases hstep
    exact h

theorem Exiting.of_proc_eq (h : Exiting s rc) (hproc : s'.proc = s.proc)
    (hhead : s'.rdyHead = s.rdyHead) (htail : s'.rdyTail = s.rdyTail) : Exiting s' rc := by
  refine h.of_quiet ?_ (.of_proc_eq hproc) (fun y hy => ?_) (by rw [hproc]) fun x _ hx => ?_
  · exact (Ready.of_eq h.runnable hproc hhead htail).iff fun r => by rw [hproc]
  · unfold Alive at hy ⊢
    rwa [hproc] at hy
  · rwa [hproc]

theorem Exiting.alertProcess (h : Exiting s rc) (hstep : alertProcess rc rp s = some s') :
    Exiting s' rc := by
  unfold Minix.alertProcess at hstep
  split at hstep
  · cases hstep
    exact h
  · obtain ⟨s₁, hreceiving, hsending⟩ := Option.bind_eq_some_iff.mp hstep
    have h₁ : Exiting (s.setPriv (s.proc rp).priv fun p =>
        { p with notifyPending := p.notifyPending.erase (s.proc rc).priv }) rc :=
      h.of_proc_eq rfl rfl rfl
    exact (h₁.stopReceiving hreceiving).stopSending hsending

/-- The state in which `clear_endpoint` starts to alert the others. -/
theorem Consistent.detach {s₂ : Kernel} (h : Consistent s) (halive : Alive s rc)
    (hblock : Minix.block .noEndpoint rc s = some s₁)
    (hleave : Minix.leaveQueue rc s₁ = some s₂) :
    Exiting (s₂.setProc rc fun r => { r with rtsFlags := r.rtsFlags.erase .receiving }) rc := by
  have hflags₁ := (block_spec h.runnable hblock).2.2.1
  have hrc₁ : .noEndpoint ∈ (s₁.proc rc).rtsFlags := by
    rw [hflags₁]
    exact Finset.mem_insert_self _ _
  obtain ⟨h₂, hflags₂⟩ := (h.block halive hblock).leaveQueue hrc₁ hleave
  have hrc₂ : .noEndpoint ∈ (s₂.proc rc).rtsFlags := by
    rw [hflags₂]
    exact Finset.mem_erase.mpr ⟨by decide, hrc₁⟩
  -- what is left of the flags keeps the process off the ready lists
  have hrc₃ : .noEndpoint ∈ (s₂.proc rc).rtsFlags.erase .receiving :=
    Finset.mem_erase.mpr ⟨by decide, hrc₂⟩
  have hrun : Runnable (s₂.setProc rc fun r =>
      { r with rtsFlags := r.rtsFlags.erase .receiving }) :=
    h₂.runnable.setFlags (Finset.ne_empty_of_mem hrc₂) (Finset.ne_empty_of_mem hrc₃)
  have hflags : FlagsOf s₂ (s₂.setProc rc fun r =>
      { r with rtsFlags := r.rtsFlags.erase .receiving }) rc
      ((s₂.proc rc).rtsFlags.erase .receiving) := flagsOf_setProc
  have h₃ : Consistent (s₂.setProc rc fun r =>
      { r with rtsFlags := r.rtsFlags.erase .receiving }) := by
    refine h₂.of_quiet hrun setFlags_quiet
      (fun y => hflags.alive (alive_of_mem hrc₂ (by decide))) fun x hx => ?_
    by_cases he : x = rc
    · subst he
      rw [hflags.1]
      exact Finset.mem_erase.mpr ⟨by decide, hx⟩
    · rwa [hflags.2 x he]
  obtain ⟨C, hC⟩ := h₃.callers
  refine ⟨h₃.runnable, ⟨C, hC.quiet (Quiet.refl _) (fun y hy => hy.1) fun _ _ _ _ h => h⟩,
    h₃.numbered, h₃.range, ⟨?_, ?_, ?_⟩⟩
  · rwa [hflags.1]
  · rw [hflags.1, hflags₂]
    simp
  · rw [hflags.1]
    simp

theorem Consistent.clearEndpoint (h : Consistent s) (halive : Alive s rc)
    (hstep : clearEndpoint rc s = some s') : Exiting s' rc := by
  unfold Minix.clearEndpoint at hstep
  split at hstep
  · cases hstep
  · obtain ⟨s₁, hblock, hstep⟩ := Option.bind_eq_some_iff.mp hstep
    obtain ⟨s₂, hleave, hstep⟩ := Option.bind_eq_some_iff.mp hstep
    exact foldlM_keeps (fun h hstep => Exiting.alertProcess h hstep)
      (h.detach halive hblock hleave) hstep

theorem Consistent.clearProc (h : Consistent s) (hstep : clearProc rc s = some s') :
    Consistent s' := by
  unfold Minix.clearProc at hstep
  split at hstep
  · cases hstep
    exact h
  · next hempty =>
    have halive : Alive s rc := not_not.mp fun hdead => hempty (isempty_iff.mpr hdead)
    obtain ⟨s₁, hclear, hstep⟩ := Option.bind_eq_some_iff.mp hstep
    obtain ⟨s₂, hdequeue, hstep⟩ := Option.bind_eq_some_iff.mp hstep
    have h₁ := h.clearEndpoint halive hclear
    have hset := Finset.ne_empty_of_mem h₁.detached.noEndpoint
    unfold dequeueReady at hdequeue
    rw [if_neg hset] at hdequeue
    cases hdequeue
    have h₂ : Consistent (s₁.setProc rc fun r => { r with rtsFlags := {.slotFree} }) := by
      have hflags : FlagsOf s₁ (s₁.setProc rc fun r => { r with rtsFlags := {.slotFree} }) rc
          {.slotFree} := flagsOf_setProc
      have halive₂ : ∀ y, Alive (s₁.setProc rc fun r => { r with rtsFlags := {.slotFree} }) y →
          Alive s₁ y ∧ y ≠ rc := by
        intro y hy
        have hne : y ≠ rc := by
          rintro rfl
          exact hy hflags.1
        unfold Alive at hy ⊢
        rw [hflags.2 y hne] at hy
        exact ⟨hy, hne⟩
      have hquiet : Quiet s₁ (s₁.setProc rc fun r => { r with rtsFlags := {.slotFree} }) :=
        setFlags_quiet
      obtain ⟨C, hC⟩ := h₁.callers
      refine ⟨h₁.runnable.setFlags hset (Finset.singleton_ne_empty _),
        ⟨C, hC.quiet hquiet halive₂ fun y hy x hx hsending => ?_⟩,
        h₁.numbered.steady hquiet.toSteady, h₁.range.steady hquiet.toSteady⟩
      have hne : x ≠ rc := by
        rintro rfl
        exact h₁.detached.sending hsending
      rwa [hflags.2 x hne]
    dsimp only at hstep
    split at hstep
    · cases hstep
      exact h₂.of_proc_eq rfl rfl rfl
    · cases hstep
      exact h₂

theorem Consistent.doExit {whoP endpt : Int} (h : Consistent s)
    (hstep : doExit whoP endpt s = some (e, s')) : Consistent s' := by
  unfold Minix.doExit at hstep
  split at hstep
  · split at hstep
    · cases hstep
      exact h
    · obtain ⟨s₁, hclear, hstep⟩ := Option.bind_eq_some_iff.mp hstep
      cases hstep
      exact h.clearProc hclear
  · obtain ⟨rc, -, hstep⟩ := Option.bind_eq_some_iff.mp hstep
    obtain ⟨s₁, hclear, hstep⟩ := Option.bind_eq_some_iff.mp hstep
    cases hstep
    exact h.clearProc hclear

end Exit

end Minix
