import Bambinos.Minix.Calls

/-!
# What the operations keep

* `Quiet` — the fields that no operation on the queues changes, and priorities only fall
* `Runnable` — the processes without a flag are on the ready lists
* `unset_spec`, `block_spec`, `requeue_spec` — the three ways the queues are used
* `Callers` — the queues of callers; whoever is on one is sending to its owner
* `Consistent` — the invariant of the kernel
-/

namespace Minix

open Infra

variable {s s' s₁ : Kernel} {r rp x y : ProcPtr} {R R' : ProcPtr → Prop} {f : Proc → Proc}
  {flag : RtsFlag} {L : Queue → List ProcPtr}

/-! ## the ready lists -/

theorem ReadyLists.setProc_of_not (h : ReadyLists s L) (hoff : ∀ q, rp ∉ L q) :
    ReadyLists (s.setProc rp f) L := by
  have hsame : ∀ q, ∀ r ∈ L q, (s.setProc rp f).proc r = s.proc r := fun q r hr =>
    Kernel.setProc_of_ne (ne_of_mem_of_not_mem hr (hoff q))
  refine ⟨fun q => ?_, h.tail, fun q r hr => ?_, h.inRange⟩
  · exact (h.chain q).congr fun r hr => by rw [hsame q r hr]
  · unfold Kernel.queueOf
    rw [hsame q r hr]
    exact h.key q r hr

theorem ReadyLists.of_fields (h : ReadyLists s L) (hhead : s'.rdyHead = s.rdyHead)
    (htail : s'.rdyTail = s.rdyTail) (hlink : ∀ r, (s'.proc r).nextready = (s.proc r).nextready)
    (hpriority : ∀ r, (s'.proc r).priority = (s.proc r).priority)
    (hscheduler : ∀ r, (s'.proc r).scheduler = (s.proc r).scheduler) : ReadyLists s' L :=
  h.congr hhead htail hlink fun q r _ => by
    unfold Kernel.queueOf
    rw [hpriority, hscheduler]

/-- A process that is on no list may change at will. -/
theorem Ready.setProc_of_not (h : Ready s R) (hnot : ¬ R rp) : Ready (s.setProc rp f) R := by
  obtain ⟨L, hL, hR⟩ := h
  have hoff := hL.not_mem hR hnot
  refine ⟨L, hL.setProc_of_not hoff, fun r => ?_⟩
  by_cases hr : r = rp
  · subst hr
    exact ⟨fun hmem => absurd hmem (hoff _), fun hr => absurd hr hnot⟩
  · unfold Kernel.queueOf
    rw [Kernel.setProc_of_ne hr]
    exact hR r

theorem Ready.iff (h : Ready s R) (hiff : ∀ r, R r ↔ R' r) : Ready s R' := by
  obtain ⟨L, hL, hR⟩ := h
  exact ⟨L, hL, fun r => (hR r).trans (hiff r)⟩

theorem Ready.of_fields (h : Ready s R) (hhead : s'.rdyHead = s.rdyHead)
    (htail : s'.rdyTail = s.rdyTail) (hlink : ∀ r, (s'.proc r).nextready = (s.proc r).nextready)
    (hpriority : ∀ r, (s'.proc r).priority = (s.proc r).priority)
    (hscheduler : ∀ r, (s'.proc r).scheduler = (s.proc r).scheduler) : Ready s' R := by
  obtain ⟨L, hL, hR⟩ := h
  refine ⟨L, hL.of_fields hhead htail hlink hpriority hscheduler, fun r => ?_⟩
  rw [← hR r]
  unfold Kernel.queueOf
  rw [hpriority, hscheduler]

/-- A process that keeps its link, priority and policy stays where it is. -/
theorem Ready.setProc (h : Ready s R) (hlink : (f (s.proc rp)).nextready = (s.proc rp).nextready)
    (hpriority : (f (s.proc rp)).priority = (s.proc rp).priority)
    (hscheduler : (f (s.proc rp)).scheduler = (s.proc rp).scheduler) :
    Ready (s.setProc rp f) R :=
  h.of_fields rfl rfl (Kernel.setProc_field (g := Proc.nextready) hlink)
    (Kernel.setProc_field (g := Proc.priority) hpriority)
    (Kernel.setProc_field (g := Proc.scheduler) hscheduler)

theorem Ready.of_eq (h : Ready s R) (hproc : s'.proc = s.proc) (hhead : s'.rdyHead = s.rdyHead)
    (htail : s'.rdyTail = s.rdyTail) : Ready s' R :=
  h.of_fields hhead htail (fun r => by rw [hproc]) (fun r => by rw [hproc]) fun r => by rw [hproc]

/-- The processes without a flag are on the ready lists, and no others are. -/
def Runnable (s : Kernel) : Prop := Ready s fun r => (s.proc r).rtsFlags = ∅

/-! ## what is quiet -/

/-- No process changes its number, and no priority rises. -/
structure Steady (s s' : Kernel) : Prop where
  endpoint : ∀ r, (s'.proc r).endpoint = (s.proc r).endpoint
  nr : ∀ r, (s'.proc r).nr = (s.proc r).nr
  maxPriority : ∀ r, (s'.proc r).maxPriority = (s.proc r).maxPriority
  lowered : ∀ r, (s.proc r).priority ≤ (s'.proc r).priority
  lowest : ∀ r, (s.proc r).priority ≤ IDLE_Q - 1 → (s'.proc r).priority ≤ IDLE_Q - 1

/-- Besides no queue of callers changes. -/
structure Quiet (s s' : Kernel) : Prop extends Steady s s' where
  callerQ : ∀ r, (s'.proc r).callerQ = (s.proc r).callerQ
  qLink : ∀ r, (s'.proc r).qLink = (s.proc r).qLink
  sendtoE : ∀ r, (s'.proc r).sendtoE = (s.proc r).sendtoE

theorem Steady.trans {s'' : Kernel} (h : Steady s s') (h' : Steady s' s'') : Steady s s'' where
  endpoint r := (h'.endpoint r).trans (h.endpoint r)
  nr r := (h'.nr r).trans (h.nr r)
  maxPriority r := (h'.maxPriority r).trans (h.maxPriority r)
  lowered r := Int.le_trans (h.lowered r) (h'.lowered r)
  lowest r hr := h'.lowest r (h.lowest r hr)

theorem setProc_steady (hendpoint : (f (s.proc rp)).endpoint = (s.proc rp).endpoint)
    (hnr : (f (s.proc rp)).nr = (s.proc rp).nr)
    (hmax : (f (s.proc rp)).maxPriority = (s.proc rp).maxPriority)
    (hpriority : (f (s.proc rp)).priority = (s.proc rp).priority) :
    Steady s (s.setProc rp f) where
  endpoint := Kernel.setProc_field (g := Proc.endpoint) hendpoint
  nr := Kernel.setProc_field (g := Proc.nr) hnr
  maxPriority := Kernel.setProc_field (g := Proc.maxPriority) hmax
  lowered r := (Kernel.setProc_field (g := Proc.priority) hpriority r).ge
  lowest r hr := by
    rwa [Kernel.setProc_field (g := Proc.priority) hpriority r]

namespace Quiet

theorem of_proc_eq (h : s'.proc = s.proc) : Quiet s s' := by
  refine ⟨⟨?_, ?_, ?_, ?_, ?_⟩, ?_, ?_, ?_⟩ <;> intro r <;> rw [h]
  exact id

theorem refl (s : Kernel) : Quiet s s := of_proc_eq rfl

theorem trans {s'' : Kernel} (h : Quiet s s') (h' : Quiet s' s'') : Quiet s s'' where
  toSteady := h.toSteady.trans h'.toSteady
  callerQ r := (h'.callerQ r).trans (h.callerQ r)
  qLink r := (h'.qLink r).trans (h.qLink r)
  sendtoE r := (h'.sendtoE r).trans (h.sendtoE r)

end Quiet

theorem Moves.quiet (h : Moves s s') : Quiet s s' where
  endpoint := h.field (g := Proc.endpoint) fun _ _ _ _ => rfl
  nr := h.field (g := Proc.nr) fun _ _ _ _ => rfl
  maxPriority := h.field (g := Proc.maxPriority) fun _ _ _ _ => rfl
  lowered := h.lowered
  lowest := h.lowest
  callerQ := h.field (g := Proc.callerQ) fun _ _ _ _ => rfl
  qLink := h.field (g := Proc.qLink) fun _ _ _ _ => rfl
  sendtoE := h.field (g := Proc.sendtoE) fun _ _ _ _ => rfl

theorem setFlags_quiet {g : Proc → Finset RtsFlag} :
    Quiet s (s.setProc rp fun r => { r with rtsFlags := g r }) where
  toSteady := setProc_steady rfl rfl rfl rfl
  callerQ := Kernel.setProc_field (g := Proc.callerQ) rfl
  qLink := Kernel.setProc_field (g := Proc.qLink) rfl
  sendtoE := Kernel.setProc_field (g := Proc.sendtoE) rfl

/-! ## the three ways the queues are used -/

/-- The flags behind an operation that changes those of one process. -/
def FlagsOf (s s' : Kernel) (rp : ProcPtr) (flags : Finset RtsFlag) : Prop :=
  (s'.proc rp).rtsFlags = flags ∧ ∀ r ≠ rp, (s'.proc r).rtsFlags = (s.proc r).rtsFlags

theorem FlagsOf.moves {flags : Finset RtsFlag} (h : FlagsOf s s₁ rp flags) (hm : Moves s₁ s') :
    FlagsOf s s' rp flags :=
  ⟨(hm.rtsFlags rp).trans h.1, fun r hr => (hm.rtsFlags r).trans (h.2 r hr)⟩

theorem flagsOf_setProc {g : Proc → Finset RtsFlag} :
    FlagsOf s (s.setProc rp fun r => { r with rtsFlags := g r }) rp (g (s.proc rp)) :=
  ⟨by rw [Kernel.setProc_self], fun r hr => by rw [Kernel.setProc_of_ne hr]⟩

/-- A process whose flags have been lowered is put on if none is left. -/
theorem Runnable.wake {flags : Finset RtsFlag} (h : Runnable s) (hset : (s.proc rp).rtsFlags ≠ ∅)
    (hstep : enqueueReady rp (s.setProc rp fun r => { r with rtsFlags := flags }) = some s') :
    Runnable s' ∧ Quiet s s' ∧ FlagsOf s s' rp flags := by
  unfold enqueueReady at hstep
  have hready : Ready (s.setProc rp fun r => { r with rtsFlags := flags })
      fun r => (s.proc r).rtsFlags = ∅ := Ready.setProc h rfl rfl rfl
  split at hstep
  · next hnone =>
    rw [Kernel.setProc_self] at hnone
    have hmoves := enqueue_moves hstep
    have hflags : FlagsOf s s' rp flags := flagsOf_setProc.moves hmoves
    refine ⟨(hready.enqueue hset hstep).iff fun r => ?_, setFlags_quiet.trans hmoves.quiet, hflags⟩
    by_cases hr : r = rp
    · subst hr
      rw [hflags.1]
      exact ⟨fun _ => hnone, fun _ => Or.inr rfl⟩
    · rw [hflags.2 r hr]
      exact ⟨fun h => h.resolve_right hr, Or.inl⟩
  · next hsome =>
    rw [Kernel.setProc_self] at hsome
    cases hstep
    refine ⟨hready.iff fun r => ?_, setFlags_quiet, flagsOf_setProc⟩
    by_cases hr : r = rp
    · subst hr
      rw [Kernel.setProc_self]
      exact ⟨fun h => absurd h hset, fun h => absurd h hsome⟩
    · rw [Kernel.setProc_of_ne hr]

theorem unset_spec (h : Runnable s) (hflag : flag ∈ (s.proc rp).rtsFlags)
    (hstep : unset flag rp s = some s') :
    Runnable s' ∧ Quiet s s' ∧ FlagsOf s s' rp ((s.proc rp).rtsFlags.erase flag) :=
  h.wake (Finset.ne_empty_of_mem hflag) hstep

/-- A process that is runnable is taken off, another is not on. -/
theorem Runnable.off (h : Runnable s)
    (hstep : dequeueReady rp s = some s') :
    Ready s' (fun r => (s.proc r).rtsFlags = ∅ ∧ r ≠ rp) ∧ Moves s s' := by
  unfold dequeueReady at hstep
  split at hstep
  · exact ⟨Ready.dequeue h hstep, (dequeue_moves hstep).1⟩
  · next hset =>
    cases hstep
    refine ⟨Ready.iff h fun r => ⟨fun hr => ⟨hr, ?_⟩, And.left⟩, Moves.refl s⟩
    rintro rfl
    exact hset hr

/-- A process that has been taken off is blocked. -/
theorem Ready.blocked {flags : Finset RtsFlag}
    (h : Ready s' fun r => (s.proc r).rtsFlags = ∅ ∧ r ≠ rp) (hflags : FlagsOf s s' rp flags)
    (hne : flags ≠ ∅) : Runnable s' := by
  refine h.iff fun r => ?_
  by_cases hr : r = rp
  · subst hr
    rw [hflags.1]
    exact ⟨fun h => absurd rfl h.2, fun h => absurd h hne⟩
  · rw [hflags.2 r hr]
    exact ⟨And.left, fun h => ⟨h, hr⟩⟩

/-- A process that has been taken off gets a flag. -/
theorem off_block (hready : Ready s₁ fun r => (s.proc r).rtsFlags = ∅ ∧ r ≠ rp)
    (hmoves : Moves s s₁)
    (hstep : s' = s₁.setProc rp fun r => { r with rtsFlags := insert flag r.rtsFlags }) :
    Runnable s' ∧ Quiet s s' ∧ FlagsOf s s' rp (insert flag (s.proc rp).rtsFlags) := by
  subst hstep
  have hflags : FlagsOf s (s₁.setProc rp fun r => { r with rtsFlags := insert flag r.rtsFlags }) rp
      (insert flag (s.proc rp).rtsFlags) := by
    refine ⟨?_, fun r hr => ?_⟩
    · rw [Kernel.setProc_self, hmoves.rtsFlags]
    · rw [Kernel.setProc_of_ne hr, hmoves.rtsFlags]
  have hready' : Ready (s₁.setProc rp fun r => { r with rtsFlags := insert flag r.rtsFlags })
      fun r => (s.proc r).rtsFlags = ∅ ∧ r ≠ rp := Ready.setProc hready rfl rfl rfl
  exact ⟨hready'.blocked hflags (Finset.insert_ne_empty _ _),
    hmoves.quiet.trans setFlags_quiet, hflags⟩

theorem block_spec (h : Runnable s) (hstep : block flag rp s = some s') :
    Runnable s' ∧ Quiet s s' ∧ FlagsOf s s' rp (insert flag (s.proc rp).rtsFlags) := by
  unfold block at hstep
  obtain ⟨s₁, hoff, hstep⟩ := Option.bind_eq_some_iff.mp hstep
  obtain ⟨hready, hmoves⟩ := h.off hoff
  exact off_block hready hmoves (Option.some.inj hstep).symm

/-- A process that has been taken off is changed, and put on again if it is runnable. -/
theorem requeue_spec (h : Ready s₁ fun r => (s.proc r).rtsFlags = ∅ ∧ r ≠ rp)
    (hsame : ∀ r, ((s₁.setProc rp f).proc r).rtsFlags = (s.proc r).rtsFlags)
    (hstep : enqueueReady rp (s₁.setProc rp f) = some s') :
    Runnable s' ∧ Moves (s₁.setProc rp f) s' := by
  unfold enqueueReady at hstep
  have hready : Ready (s₁.setProc rp f) fun r => (s.proc r).rtsFlags = ∅ ∧ r ≠ rp :=
    h.setProc_of_not fun h => h.2 rfl
  split at hstep
  · next hnone =>
    rw [hsame] at hnone
    have hmoves := enqueue_moves hstep
    refine ⟨(hready.enqueue (fun h => h.2 rfl) hstep).iff fun r => ?_, hmoves⟩
    rw [hmoves.rtsFlags, hsame]
    constructor
    · rintro (h | rfl)
      · exact h.1
      · exact hnone
    · exact fun h => (em (r = rp)).elim Or.inr fun hr => Or.inl ⟨h, hr⟩
  · next hset =>
    rw [hsame] at hset
    cases hstep
    refine ⟨hready.iff fun r => ?_, Moves.refl _⟩
    rw [hsame]
    refine ⟨And.left, fun hnone => ⟨hnone, ?_⟩⟩
    rintro rfl
    exact hset hnone

/-! ## process numbers -/

/-- The process of the number in the slot, with an endpoint of some generation. -/
structure Numbered (s : Kernel) : Prop where
  nr : ∀ r, (s.proc r).nr = r.val - NR_TASKS
  endpoint : ∀ r, ∃ g : Int, 0 ≤ g ∧ (s.proc r).endpoint = mkEndpoint g (r.val - NR_TASKS)

theorem Numbered.steady (h : Numbered s) (hq : Steady s s') : Numbered s' where
  nr r := (hq.nr r).trans (h.nr r)
  endpoint r := by
    rw [hq.endpoint]
    exact h.endpoint r

theorem procAddr_eq_some {n : Int} (h : procAddr n = some r) : n = r.val - NR_TASKS := by
  unfold procAddr at h
  split at h
  · next hn =>
    cases h
    show n = ((n + NR_TASKS).toNat : Int) - NR_TASKS
    omega
  · cases h

theorem generationSize_eq : generationSize = 35539 := by decide

theorem tasks_eq : ((NR_TASKS : Nat) : Int) = 4 := rfl

theorem endpointP_mkEndpoint {g : Int} (hg : 0 ≤ g) (r : ProcPtr) :
    endpointP (mkEndpoint g (r.val - NR_TASKS)) = r.val - NR_TASKS := by
  have hr : r.val < 104 := r.isLt
  unfold endpointP mkEndpoint
  rw [generationSize_eq, tasks_eq, Int.tmod_eq_emod_of_nonneg (by omega)]
  omega

theorem endpointG_mkEndpoint {g : Int} (hg : 0 ≤ g) (r : ProcPtr) :
    endpointG (mkEndpoint g (r.val - NR_TASKS)) = g := by
  have hr : r.val < 104 := r.isLt
  unfold endpointG mkEndpoint
  rw [generationSize_eq, tasks_eq, Int.tdiv_eq_ediv_of_nonneg (by omega)]
  omega

/-- Processes of one endpoint are the same. -/
theorem Numbered.endpoint_inj (h : Numbered s)
    (heq : (s.proc x).endpoint = (s.proc y).endpoint) : x = y := by
  obtain ⟨g, hg, hx⟩ := h.endpoint x
  obtain ⟨g', hg', hy⟩ := h.endpoint y
  have hp := congrArg endpointP heq
  rw [hx, hy, endpointP_mkEndpoint hg, endpointP_mkEndpoint hg'] at hp
  exact Fin.ext (by omega)

/-! ## the queues of callers -/

/-- At the processes of `A` the queues of callers are the lists `C`, and who is on one wants to send
to its owner. -/
structure Queued (s : Kernel) (A : ProcPtr → Prop) (C : ProcPtr → List ProcPtr) : Prop where
  chain : ∀ y, A y → Chain (fun r => (s.proc r).qLink) (s.proc y).callerQ (C y)
  sendto : ∀ y, A y → ∀ x ∈ C y, (s.proc x).sendtoE = (s.proc y).endpoint

/-- Besides, who is on a queue is blocked. -/
structure Callers (s : Kernel) (A : ProcPtr → Prop) (C : ProcPtr → List ProcPtr) : Prop
    extends Queued s A C where
  sending : ∀ y, A y → ∀ x ∈ C y, .sending ∈ (s.proc x).rtsFlags

section Queued

variable {A A' : ProcPtr → Prop} {C : ProcPtr → List ProcPtr} {dst : ProcPtr}
  {place : Option ProcPtr} {l₁ l₂ : List ProcPtr}

theorem Queued.quiet (h : Queued s A C) (hq : Quiet s s') (hA : ∀ y, A' y → A y) :
    Queued s' A' C where
  chain y hy := by
    rw [hq.callerQ]
    exact (h.chain y (hA y hy)).congr fun r _ => hq.qLink r
  sendto y hy x hx := by
    rw [hq.sendtoE, hq.endpoint]
    exact h.sendto y (hA y hy) x hx

theorem Callers.quiet (h : Callers s A C) (hq : Quiet s s') (hA : ∀ y, A' y → A y)
    (hflags : ∀ y, A' y → ∀ x ∈ C y, .sending ∈ (s.proc x).rtsFlags →
      .sending ∈ (s'.proc x).rtsFlags) : Callers s' A' C where
  toQueued := h.toQueued.quiet hq hA
  sending y hy x hx := hflags y hy x hx (h.sending y (hA y hy) x hx)

/-- A process waits at one destination only. -/
theorem Queued.disjoint (h : Queued s A C) (hn : Numbered s) (hx : A x) (hy : A y) {z : ProcPtr}
    (hzx : z ∈ C x) (hzy : z ∈ C y) : x = y :=
  hn.endpoint_inj ((h.sendto x hx z hzx).symm.trans (h.sendto y hy z hzy))

theorem Queued.seek (h : Queued s A C) (hdst : A dst) {p : ProcPtr → Bool} {x : Option ProcPtr}
    (hseek : seekCaller s p dst = some (place, x)) :
    place = ((C dst).takeWhile fun r => !p r).getLast? ∧ x = (C dst).find? p := by
  have hle := (h.chain dst hdst).length_le
  rw [Fintype.card_fin] at hle
  have hlt : (C dst).length < loopLimit := Nat.lt_succ_of_le hle
  unfold seekCaller at hseek
  rw [seek_eq (h.chain dst hdst) none hlt] at hseek
  obtain ⟨hplace, hx⟩ := Prod.mk.inj (Option.some.inj hseek)
  rw [Option.or_none] at hplace
  exact ⟨hplace.symm, hx.symm⟩

theorem setCallerLink_qLink {x : Option ProcPtr} :
    (fun r => ((s.setCallerLink dst place x).proc r).qLink) =
      relink (fun r => (s.proc r).qLink) place x := by
  funext r
  unfold Kernel.setCallerLink relink
  cases place with
  | none => exact Kernel.setProc_field (g := Proc.qLink) rfl r
  | some b =>
    by_cases hr : r = b
    · subst hr
      simp
    · simp [hr]

theorem setCallerLink_callerQ {x : Option ProcPtr} :
    ((s.setCallerLink dst place x).proc dst).callerQ = rehead (s.proc dst).callerQ place x := by
  unfold Kernel.setCallerLink rehead
  cases place with
  | none => simp
  | some b => exact Kernel.setProc_field (g := Proc.callerQ) rfl dst

theorem setCallerLink_callerQ_of_ne {x : Option ProcPtr} (h : y ≠ dst) :
    ((s.setCallerLink dst place x).proc y).callerQ = (s.proc y).callerQ := by
  unfold Kernel.setCallerLink
  cases place with
  | none => simp [h]
  | some b => exact Kernel.setProc_field (g := Proc.callerQ) rfl y

theorem setCallerLink_field {β : Type} {g : Proc → β} {x : Option ProcPtr}
    (hc : ∀ p c, g { p with callerQ := c } = g p) (hl : ∀ p l, g { p with qLink := l } = g p)
    (r : ProcPtr) : g ((s.setCallerLink dst place x).proc r) = g (s.proc r) := by
  unfold Kernel.setCallerLink
  cases place with
  | none => exact Kernel.setProc_field (hc _ _) r
  | some b => exact Kernel.setProc_field (hl _ _) r

theorem setCallerLink_steady {x : Option ProcPtr} : Steady s (s.setCallerLink dst place x) := by
  unfold Kernel.setCallerLink
  cases place with
  | none => exact setProc_steady rfl rfl rfl rfl
  | some b => exact setProc_steady rfl rfl rfl rfl

/-- A caller leaves the queue. -/
theorem Queued.unlink (h : Queued s A C) (hn : Numbered s) (hdst : A dst)
    (hC : C dst = l₁ ++ x :: l₂) :
    Queued (s.setCallerLink dst l₁.getLast? (s.proc x).qLink) A
      (Function.update C dst (l₁ ++ l₂)) := by
  refine ⟨fun y hy => ?_, fun y hy z hz => ?_⟩
  · rw [setCallerLink_qLink]
    by_cases hne : y = dst
    · subst hne
      rw [setCallerLink_callerQ, Function.update_self]
      have hchain := h.chain y hy
      rw [hC] at hchain
      exact hchain.unlink
    · rw [setCallerLink_callerQ_of_ne hne, Function.update_of_ne hne]
      refine (h.chain y hy).congr fun r hr => relink_of_ne fun hlast => hne ?_
      refine h.disjoint hn hy hdst hr ?_
      rw [hC]
      exact List.mem_append_left _ (List.mem_of_getLast? hlast)
  · rw [setCallerLink_field (g := Proc.sendtoE) (fun _ _ => rfl) fun _ _ => rfl,
      setCallerLink_field (g := Proc.endpoint) (fun _ _ => rfl) fun _ _ => rfl]
    refine h.sendto y hy z ?_
    by_cases hne : y = dst
    · subst hne
      rw [Function.update_self] at hz
      rw [hC]
      rcases List.mem_append.mp hz with hz | hz
      · exact List.mem_append_left _ hz
      · exact List.mem_append_right _ (List.mem_cons_of_mem _ hz)
    · rwa [Function.update_of_ne hne] at hz

theorem addCaller_field {β : Type} {g : Proc → β} (hc : ∀ p c, g { p with callerQ := c } = g p)
    (hl : ∀ p l, g { p with qLink := l } = g p) (r : ProcPtr) :
    g ((s.addCaller dst place x).proc r) = g (s.proc r) := by
  unfold Kernel.addCaller
  rw [Kernel.setProc_field (g := g) (hl _ _), setCallerLink_field hc hl]

theorem addCaller_steady : Steady s (s.addCaller dst place x) :=
  setCallerLink_steady.trans (setProc_steady rfl rfl rfl rfl)

theorem addCaller_qLink : (fun r => ((s.addCaller dst place x).proc r).qLink) =
    Function.update (relink (fun r => (s.proc r).qLink) place (some x)) x none := by
  rw [← @setCallerLink_qLink s dst]
  funext r
  unfold Kernel.addCaller
  by_cases hr : r = x
  · subst hr
    simp
  · simp [hr]

/-- Whoever is found on a queue leaves it. -/
theorem Queued.leave (h : Queued s A C) (hn : Numbered s) (hdst : A dst) {p : ProcPtr → Bool}
    (hseek : seekCaller s p dst = some (place, some x)) :
    x ∈ C dst ∧ ∃ C', Queued (s.setCallerLink dst place (s.proc x).qLink) A C' ∧
      ∀ y, A y → ∀ z ∈ C' y, z ∈ C y ∧ z ≠ x := by
  obtain ⟨hplace, hfind⟩ := h.seek hdst hseek
  obtain ⟨l₁, l₂, hC, htake⟩ := find?_split hfind.symm
  rw [htake] at hplace
  subst hplace
  have hx : x ∈ C dst := by
    rw [hC]
    simp
  refine ⟨hx, _, h.unlink hn hdst hC, fun y hy z hz => ?_⟩
  by_cases hne : y = dst
  · subst hne
    rw [Function.update_self] at hz
    have hnodup := (h.chain y hy).nodup
    rw [hC, List.nodup_append, List.nodup_cons] at hnodup
    rw [hC]
    rcases List.mem_append.mp hz with hz | hz
    · exact ⟨List.mem_append_left _ hz, hnodup.2.2 z hz x List.mem_cons_self⟩
    · exact ⟨List.mem_append_right _ (List.mem_cons_of_mem _ hz),
        ne_of_mem_of_not_mem hz hnodup.2.1.1⟩
  · rw [Function.update_of_ne hne] at hz
    refine ⟨hz, ?_⟩
    rintro rfl
    exact hne (h.disjoint hn hy hdst hz hx)

/-- A caller joins the queue of the process it wants to send to. -/
theorem Queued.append (h : Queued s A C) (hn : Numbered s) (hdst : A dst)
    (hoff : ∀ y, A y → x ∉ C y) (hsendto : (s.proc x).sendtoE = (s.proc dst).endpoint) :
    Queued (s.addCaller dst (C dst).getLast? x) A (Function.update C dst (C dst ++ [x])) := by
  refine ⟨fun y hy => ?_, fun y hy z hz => ?_⟩
  · rw [addCaller_qLink]
    unfold Kernel.addCaller
    rw [Kernel.setProc_field (g := Proc.callerQ) rfl]
    by_cases hne : y = dst
    · subst hne
      rw [setCallerLink_callerQ, Function.update_self]
      exact (h.chain y hy).concat (hoff y hy)
    · rw [setCallerLink_callerQ_of_ne hne, Function.update_of_ne hne]
      refine (h.chain y hy).congr fun r hr => ?_
      rw [Function.update_of_ne (ne_of_mem_of_not_mem hr (hoff y hy))]
      exact relink_of_ne fun hlast =>
        hne (h.disjoint hn hy hdst hr (List.mem_of_getLast? hlast))
  · rw [addCaller_field (g := Proc.sendtoE) (fun _ _ => rfl) fun _ _ => rfl,
      addCaller_field (g := Proc.endpoint) (fun _ _ => rfl) fun _ _ => rfl]
    by_cases hne : y = dst
    · subst hne
      rw [Function.update_self] at hz
      rcases List.mem_append.mp hz with hz | hz
      · exact h.sendto y hy z hz
      · rw [List.mem_singleton.mp hz]
        exact hsendto
    · rw [Function.update_of_ne hne] at hz
      exact h.sendto y hy z hz

end Queued

/-! ## the invariant -/

/-- The process is one that may be sent to. -/
def Alive (s : Kernel) (y : ProcPtr) : Prop := (s.proc y).rtsFlags ≠ {.slotFree}

theorem isempty_iff : (s.proc y).isempty = true ↔ ¬ Alive s y := by
  unfold Proc.isempty Alive
  rw [decide_eq_true_iff, not_not]

/-- Every process but `IDLE` has a priority between its maximum and the lowest for users. -/
def InPriorityRange (s : Kernel) : Prop :=
  ∀ r, (s.proc r).nr ≠ IDLE →
    (s.proc r).maxPriority ≤ (s.proc r).priority ∧ (s.proc r).priority ≤ IDLE_Q - 1

theorem InPriorityRange.steady (h : InPriorityRange s) (hq : Steady s s') : InPriorityRange s' := by
  intro r hr
  rw [hq.nr] at hr
  obtain ⟨hmax, hlow⟩ := h r hr
  rw [hq.maxPriority]
  exact ⟨Int.le_trans hmax (hq.lowered r), hq.lowest r hlow⟩

/-- The invariant of the kernel. -/
structure Consistent (s : Kernel) : Prop where
  runnable : Runnable s
  callers : ∃ C, Callers s (Alive s) C
  numbered : Numbered s
  range : InPriorityRange s

end Minix
