import Bambinos.Minix.Setscheduler
import Bambinos.Minix.Boot

/-!
# One request to set a policy

* `Tables` — a state in which the two tables belong together
* `dequeue_ok`, `enqueue_iff` — when the operations on the ready lists have a next state
* `doSetscheduler_iff` — when the kernel stores a policy
* `System.Reached.tables` — they do so in every run in which no process forks while others are queued
  at it
* `SetAtomic` — a request is done in both tables or in none
* `set_atomic_iff` — it is when the policy can be stored and is not taken for an error
* `wide_policy` — the tables do not agree on a policy that is not a `char`
-/

namespace Minix

open Infra

variable {s s' : Kernel} {rp : ProcPtr} {R : ProcPtr → Prop} {σ σ' : System} {n whoP : MprocNr}
  {policy who e : Int}

/-! ## the states -/

/-- The kernel is consistent, a process that has a `pid` exists, and its endpoint is that of the same
slot in the kernel. -/
structure Tables (σ : System) : Prop where
  kernel : Consistent σ.kernel
  inUse : ∀ n, (σ.pm.mproc n).pid ≠ 0 → .inUse ∈ (σ.pm.mproc n).flags
  slot : ∀ n, .inUse ∈ (σ.pm.mproc n).flags → endpointP (σ.pm.mproc n).endpoint = n.val

/-- The process that a call is about exists. -/
theorem Tables.target (h : Tables σ) (hlive : σ.pm.Live whoP)
    (htarget : σ.pm.target whoP who = some n) : .inUse ∈ (σ.pm.mproc n).flags := by
  unfold Pm.target at htarget
  split at htarget
  · cases htarget
    exact hlive.1
  · next hwho =>
    refine h.inUse n ?_
    have hpid := List.find?_some htarget
    rw [of_decide_eq_true hpid]
    exact hwho

/-- The kernel finds the process in its slot, if at all. -/
theorem Tables.isokendpt (h : Tables σ) (hn : .inUse ∈ (σ.pm.mproc n).flags)
    (hok : isokendpt σ.kernel (σ.pm.mproc n).endpoint = some rp) : rp = procOf n := by
  have haddr := procAddr_eq_some (isokendpt_procAddr hok)
  rw [h.slot n hn] at haddr
  refine Fin.ext ?_
  show rp.val = n.val + NR_TASKS
  omega

/-! ## the ready lists -/

/-- A process whose list exists can be taken off. -/
theorem dequeue_ok (h : Ready s R) (hnr : iskerneln (s.proc rp).nr = false)
    (hrange : InRange (s.queueOf rp)) : ∃ s', dequeue rp s = some s' := by
  obtain ⟨L, hL, -⟩ := h
  have hseek := seek_eq (p := fun r => decide (r = rp)) (hL.chain (s.queueOf rp)) none
    (hL.length_lt _)
  unfold Kernel.queueOf at hrange hseek
  unfold dequeue
  dsimp only
  rw [hnr, if_neg (by simp), if_pos hrange, hseek]
  simp only [Option.bind_eq_bind, Option.bind_some]
  split
  · exact ⟨_, rfl⟩
  · split <;> exact ⟨_, rfl⟩

/-- A process can be put on if the list that its policy chooses exists. -/
theorem enqueue_iff (h : Ready s R) (hnot : ¬ R rp) :
    (∃ s', enqueue rp s = some s') ↔ InRange (sched (s.proc rp)).2.1 := by
  constructor
  · rintro ⟨s', hstep⟩
    obtain ⟨s₁, q, rfl, hq, hrange, -⟩ := enqueue_cases hstep
    unfold Kernel.queueOf at hq
    rw [Kernel.setProc_self, ← (sched_spec (s.proc rp)).2.1] at hq
    rw [hq]
    exact hrange
  · intro hrange
    obtain ⟨L, hL, hR⟩ := h
    have hoff := hL.not_mem hR hnot
    unfold enqueue
    dsimp only
    rw [if_pos hrange, Kernel.setProc_rdyHead, Kernel.setProc_rdyTail]
    generalize (sched (s.proc rp)).2.1 = q
    cases hhead : s.rdyHead q with
    | none => exact ⟨_, rfl⟩
    | some head =>
      dsimp only
      split
      · exact ⟨_, rfl⟩
      · -- the list has a last process
        have hne : L q ≠ [] := fun hnil => by
          rw [hL.eq_nil_iff.mp hnil] at hhead
          cases hhead
        obtain ⟨tail, htail⟩ := List.getLast?_isSome.mpr hne |> Option.isSome_iff_exists.mp
        rw [hL.tail q hne, htail]
        exact ⟨_, rfl⟩

/-- The list that a policy chooses exists if there is one for the policy. -/
theorem sched_inRange {r : Proc} (h : 0 ≤ r.priority ∧ r.priority < NR_SCHED_QUEUES) :
    InRange (sched r).2.1 ↔ ValidPolicy r.scheduler := by
  have hpolicy : (sched r).2.1.2 = r.scheduler := by
    unfold sched schedFifo schedRr schedOther
    split
    · rfl
    · split
      · dsimp only
        split <;> rfl
      · dsimp only
        split <;> rfl
  constructor
  · intro hrange
    have := hrange.2
    rwa [hpolicy] at this
  · intro hvalid
    refine ⟨?_, hpolicy ▸ hvalid⟩
    unfold sched schedFifo schedRr schedOther
    unfold NR_SCHED_QUEUES IDLE_Q at *
    split
    · exact h
    · split
      · dsimp only
        split <;> exact h
      · dsimp only
        split
        · exact h
        · dsimp only
          split <;> omega

/-! ## `do_setscheduler` -/

/-- The lists exist from which the process is taken and to which it goes. -/
def Stores (s : Kernel) (rp : ProcPtr) (policy : Int) : Prop :=
  InRange (s.queueOf rp) ∧ ((s.proc rp).rtsFlags = ∅ → ValidPolicy (toChar policy))

instance (s : Kernel) (rp : ProcPtr) (policy : Int) : Decidable (Stores s rp policy) :=
  inferInstanceAs (Decidable (_ ∧ _))

theorem doSetscheduler_eq {endpt : Int} (hok : isokendpt s endpt = some rp)
    (hkernel : iskerneln (endpointP endpt) = false) : doSetscheduler endpt policy s =
      (dequeue rp s).bind fun s₁ =>
        (enqueueReady rp (s₁.setProc rp fun r => { r with scheduler := toChar policy })).bind
          fun s₂ => some ((s₂.proc rp).scheduler, s₂) := by
  unfold doSetscheduler
  rw [hok]
  dsimp only
  rw [hkernel, if_neg Bool.false_ne_true]
  rfl

/-- The policy is stored and returned. -/
theorem doSetscheduler_spec {endpt : Int} (hok : isokendpt s endpt = some rp)
    (hkernel : iskerneln (endpointP endpt) = false)
    (hstep : doSetscheduler endpt policy s = some (e, s')) :
    e = toChar policy ∧ ∀ r, (s'.proc r).scheduler =
      if r = rp then toChar policy else (s.proc r).scheduler := by
  rw [doSetscheduler_eq hok hkernel] at hstep
  obtain ⟨s₁, hdequeue, hstep⟩ := Option.bind_eq_some_iff.mp hstep
  obtain ⟨s₂, henqueue, hstep⟩ := Option.bind_eq_some_iff.mp hstep
  cases hstep
  have hput : ∀ r, (s'.proc r).scheduler =
      ((s₁.setProc rp fun r => { r with scheduler := toChar policy }).proc r).scheduler := by
    intro r
    unfold enqueueReady at henqueue
    split at henqueue
    · exact (enqueue_moves henqueue).field (g := Proc.scheduler) (fun _ _ _ _ => rfl) r
    · cases henqueue
      rfl
  have hall : ∀ r, (s'.proc r).scheduler =
      if r = rp then toChar policy else (s.proc r).scheduler := by
    intro r
    rw [hput]
    by_cases hr : r = rp
    · subst hr
      rw [Kernel.setProc_self, if_pos rfl]
    · rw [Kernel.setProc_of_ne hr, if_neg hr]
      exact (dequeue_moves hdequeue).1.field (g := Proc.scheduler) (fun _ _ _ _ => rfl) r
  refine ⟨?_, hall⟩
  rw [hall, if_pos rfl]

/-- The policy can be stored. -/
theorem doSetscheduler_iff {endpt : Int} (h : Runnable s) (hnr : iskerneln (s.proc rp).nr = false)
    (hok : isokendpt s endpt = some rp) (hkernel : iskerneln (endpointP endpt) = false) :
    (∃ result, doSetscheduler endpt policy s = some result) ↔ Stores s rp policy := by
  rw [doSetscheduler_eq hok hkernel]
  constructor
  · rintro ⟨result, hstep⟩
    obtain ⟨s₁, hdequeue, hstep⟩ := Option.bind_eq_some_iff.mp hstep
    obtain ⟨s₂, henqueue, -⟩ := Option.bind_eq_some_iff.mp hstep
    refine ⟨(dequeue_cases hdequeue).1, fun hready => ?_⟩
    have hmoves := (dequeue_moves hdequeue).1
    unfold enqueueReady at henqueue
    rw [Kernel.setProc_self, hmoves.rtsFlags, if_pos hready] at henqueue
    obtain ⟨s', q, rfl, hq, hrange, -⟩ := enqueue_cases henqueue
    have hpolicy := hrange.2
    rw [← hq] at hpolicy
    unfold Kernel.queueOf at hpolicy
    rw [Kernel.setProc_self, Kernel.setProc_self, (sched_spec _).1] at hpolicy
    exact hpolicy
  · rintro ⟨hrange, hpolicy⟩
    obtain ⟨s₁, hdequeue⟩ := dequeue_ok h hnr hrange
    have hmoves := dequeue_moves hdequeue
    have hready := (h.dequeued hdequeue).1
    rw [hdequeue, Option.bind_some]
    unfold enqueueReady
    rw [Kernel.setProc_self, hmoves.1.rtsFlags]
    by_cases hnone : (s.proc rp).rtsFlags = ∅
    · rw [if_pos hnone]
      have hrange₁ : 0 ≤ (s₁.proc rp).priority ∧ (s₁.proc rp).priority < NR_SCHED_QUEUES := by
        have hqueue := hmoves.2 rp
        have hpriority := hrange.1
        rw [← hqueue] at hpriority
        exact hpriority
      have hoff := hready.setProc_of_not (f := fun r => { r with scheduler := toChar policy })
        fun h => h.2 rfl
      obtain ⟨s₂, henqueue⟩ := (enqueue_iff hoff fun h => h.2 rfl).mpr (by
        rw [Kernel.setProc_self]
        refine (sched_inRange ?_).mpr (hpolicy hnone)
        exact hrange₁)
      rw [henqueue]
      exact ⟨_, rfl⟩
    · rw [if_neg hnone]
      exact ⟨_, rfl⟩

/-! ## the request -/

/-- The answers that tell of an error. -/
def failures : List Int := [ESRCH, EPERM, EACCES, EINVAL]

/-- The policies in both tables are as before. -/
def SamePolicies (σ σ' : System) : Prop :=
  (∀ n, (σ'.pm.mproc n).schedPolicy = (σ.pm.mproc n).schedPolicy) ∧
    ∀ r, (σ'.kernel.proc r).scheduler = (σ.kernel.proc r).scheduler

/-- The request is answered, the tables agree, and an error has changed nothing. -/
def SetAtomic (σ : System) (whoP : MprocNr) (policy who : Int) : Prop :=
  ∃ e σ', σ.getsetscheduler true whoP policy who = some (e, σ') ∧ Agree σ' ∧
    (e ∈ failures → SamePolicies σ σ')

/-- The policy can be stored, and is no error, or nothing is to be changed. -/
def SetFits (σ : System) (whoP : MprocNr) (policy who : Int) : Prop :=
  ∀ n ∈ σ.pm.target whoP who, (σ.pm.mproc whoP).effuid = SUPER_USER →
    match isokendpt σ.kernel (σ.pm.mproc n).endpoint with
    | none => policy = (σ.pm.mproc n).schedPolicy
    | some rp => Stores σ.kernel rp policy ∧ toChar policy = policy ∧
        (policy ∈ failures → policy = (σ.pm.mproc n).schedPolicy)

theorem getsetscheduler_root (htarget : σ.pm.target whoP who = some n)
    (hroot : (σ.pm.mproc whoP).effuid = SUPER_USER) :
    σ.getsetscheduler true whoP policy who =
      (doSetscheduler (σ.pm.mproc n).endpoint policy σ.kernel).bind fun r =>
        some (r.1, ⟨r.2, σ.pm.set n fun r => { r with schedPolicy := policy }⟩) := by
  unfold System.getsetscheduler
  rw [htarget]
  simp only [hroot, ne_eq, not_true_eq_false, false_and, if_false, Bool.not_true, Bool.false_eq_true]
  rfl

/-- Others change nothing. -/
theorem setAtomic_of_not_root (hagree : Agree σ)
    (h : ∀ n ∈ σ.pm.target whoP who, (σ.pm.mproc whoP).effuid ≠ SUPER_USER) :
    SetAtomic σ whoP policy who := by
  have hrun : ∃ e, σ.getsetscheduler true whoP policy who = some (e, σ) := by
    unfold System.getsetscheduler
    cases htarget : σ.pm.target whoP who with
    | none => exact ⟨_, rfl⟩
    | some n =>
      have hroot := h n htarget
      dsimp only
      split
      · exact ⟨_, rfl⟩
      · exact ⟨EACCES, rfl⟩
  obtain ⟨e, hrun⟩ := hrun
  exact ⟨e, σ, hrun, hagree, fun _ => ⟨fun _ => rfl, fun _ => rfl⟩⟩

/-- The entries behind a request that the kernel has accepted. -/
theorem agree_iff (hagree : Agree σ) (hn : .inUse ∈ (σ.pm.mproc n).flags)
    (hscheduler : ∀ r, (s'.proc r).scheduler =
      if r = procOf n then toChar policy else (σ.kernel.proc r).scheduler) :
    Agree ⟨s', σ.pm.set n fun r => { r with schedPolicy := policy }⟩ ↔ toChar policy = policy := by
  constructor
  · intro h
    have heq := h n (by rw [Pm.set_self]; exact hn)
    rw [Pm.set_self] at heq
    dsimp only at heq
    rw [hscheduler, if_pos rfl] at heq
    exact heq.symm
  · intro hchar m hm
    dsimp only at hm ⊢
    rw [hscheduler]
    by_cases hmn : m = n
    · subst hmn
      rw [Pm.set_self, if_pos rfl]
      exact hchar.symm
    · have hne : procOf m ≠ procOf n := fun h => hmn (Fin.ext (by
        have hval := congrArg Fin.val h
        unfold procOf at hval
        dsimp only at hval
        omega))
      rw [Pm.set_of_ne hmn] at hm ⊢
      rw [if_neg hne]
      exact hagree m hm

/-- The request of the super-user about a process that exists. -/
theorem setAtomic_root_iff (htables : Tables σ) (hagree : Agree σ)
    (hn : .inUse ∈ (σ.pm.mproc n).flags) (htarget : σ.pm.target whoP who = some n)
    (hroot : (σ.pm.mproc whoP).effuid = SUPER_USER) :
    SetAtomic σ whoP policy who ↔
      match isokendpt σ.kernel (σ.pm.mproc n).endpoint with
      | none => policy = (σ.pm.mproc n).schedPolicy
      | some rp => Stores σ.kernel rp policy ∧ toChar policy = policy ∧
          (policy ∈ failures → policy = (σ.pm.mproc n).schedPolicy) := by
  have hrun := @getsetscheduler_root _ _ _ policy _ htarget hroot
  have hself : ∀ {kernel : Kernel}, SamePolicies σ
      ⟨kernel, σ.pm.set n fun r => { r with schedPolicy := policy }⟩ →
      policy = (σ.pm.mproc n).schedPolicy := by
    intro kernel hsame
    have heq := hsame.1 n
    rwa [Pm.set_self] at heq
  have hother : policy = (σ.pm.mproc n).schedPolicy → ∀ m,
      ((σ.pm.set n fun r => { r with schedPolicy := policy }).mproc m).schedPolicy =
        (σ.pm.mproc m).schedPolicy := by
    intro hpolicy m
    by_cases hm : m = n
    · subst hm
      rw [Pm.set_self]
      exact hpolicy
    · rw [Pm.set_of_ne hm]
  cases hok : isokendpt σ.kernel (σ.pm.mproc n).endpoint with
  | none =>
    -- the process manager has stored the policy when the kernel refuses it
    have hrefused : doSetscheduler (σ.pm.mproc n).endpoint policy σ.kernel =
        some (EINVAL, σ.kernel) := by
      unfold doSetscheduler
      rw [hok]
    rw [hrefused] at hrun
    dsimp only
    constructor
    · rintro ⟨e, σ', hstep, -, herror⟩
      cases hrun.symm.trans hstep
      have hfail : EINVAL ∈ failures := by decide
      exact hself (herror hfail)
    · intro hpolicy
      refine ⟨_, _, hrun, fun m hm => ?_, fun _ => ⟨hother hpolicy, fun _ => rfl⟩⟩
      have hflags : ((σ.pm.set n fun r => { r with schedPolicy := policy }).mproc m).flags =
          (σ.pm.mproc m).flags := by
        by_cases hmn : m = n
        · subst hmn
          rw [Pm.set_self]
        · rw [Pm.set_of_ne hmn]
      dsimp only at hm ⊢
      rw [hflags] at hm
      rw [hother hpolicy]
      exact hagree m hm
  | some rp =>
    obtain rfl := htables.isokendpt hn hok
    have hkernel : iskerneln (endpointP (σ.pm.mproc n).endpoint) = false := by
      rw [htables.slot n hn]
      exact decide_eq_false (by omega)
    have hnr : iskerneln (σ.kernel.proc (procOf n)).nr = false := by
      rw [htables.kernel.numbered.nr]
      refine decide_eq_false ?_
      unfold procOf
      dsimp only
      omega
    have hiff := @doSetscheduler_iff _ _ policy _ htables.kernel.runnable hnr hok hkernel
    dsimp only
    rw [← hiff]
    constructor
    · rintro ⟨e, σ', hstep, hagree', herror⟩
      rw [hrun] at hstep
      obtain ⟨⟨e', s'⟩, hstore, hstep⟩ := Option.bind_eq_some_iff.mp hstep
      cases hstep
      obtain ⟨rfl, hscheduler⟩ := doSetscheduler_spec hok hkernel hstore
      have hchar := (agree_iff hagree hn hscheduler).mp hagree'
      refine ⟨⟨_, hstore⟩, hchar, fun hfail => hself (herror ?_)⟩
      dsimp only
      rwa [hchar]
    · rintro ⟨⟨⟨e, s'⟩, hstore⟩, hchar, hfail⟩
      obtain ⟨rfl, hscheduler⟩ := doSetscheduler_spec hok hkernel hstore
      rw [hstore] at hrun
      refine ⟨_, _, hrun, (agree_iff hagree hn hscheduler).mpr hchar, fun herror => ?_⟩
      dsimp only at herror
      rw [hchar] at herror
      have hpolicy := hfail herror
      refine ⟨hother hpolicy, fun r => ?_⟩
      dsimp only
      rw [hscheduler]
      by_cases hr : r = procOf n
      · rw [if_pos hr, hchar, hpolicy, hr]
        exact hagree n hn
      · rw [if_neg hr]

/--
**The request.** When the tables agree, they agree behind a request, and an error changes nothing,
exactly if the request changes nothing anyway, or the policy is a `char`, no error code, and has a
ready list if the process is ready.
-/
theorem set_atomic_iff (htables : Tables σ) (hagree : Agree σ) (hlive : σ.pm.Live whoP) :
    SetAtomic σ whoP policy who ↔ SetFits σ whoP policy who := by
  cases htarget : σ.pm.target whoP who with
  | none =>
    have hnone : ∀ n, n ∉ σ.pm.target whoP who := by
      intro n hn
      rw [htarget] at hn
      cases hn
    exact ⟨fun _ n hn => absurd hn (hnone n),
      fun _ => setAtomic_of_not_root hagree fun n hn => absurd hn (hnone n)⟩
  | some n =>
    by_cases hroot : (σ.pm.mproc whoP).effuid = SUPER_USER
    · rw [setAtomic_root_iff htables hagree (htables.target hlive htarget) htarget hroot]
      constructor
      · intro h m hm _
        obtain rfl : n = m := Option.some.inj (htarget.symm.trans hm)
        exact h
      · exact fun h => h n htarget hroot
    · exact ⟨fun _ m _ hroot' => absurd hroot' hroot,
        fun _ => setAtomic_of_not_root hagree fun _ _ => hroot⟩

/-! ## tables that agree -/

/-- The process manager has the policies of the kernel. -/
def System.agreed (σ : System) : System :=
  { σ with pm := { σ.pm with mproc := fun n =>
    { σ.pm.mproc n with schedPolicy := (σ.kernel.proc (procOf n)).scheduler } } }

theorem agree_agreed (σ : System) : Agree σ.agreed := fun _ _ => rfl

theorem Tables.agreed (h : Tables σ) : Tables σ.agreed := ⟨h.kernel, h.inUse, h.slot⟩

theorem boot_tables (h : System.boot = some σ) : Tables σ := by
  have hall : System.boot.all fun σ => (∀ n, (σ.pm.mproc n).pid ≠ 0 → .inUse ∈ (σ.pm.mproc n).flags) ∧
      ∀ n, .inUse ∈ (σ.pm.mproc n).flags → endpointP (σ.pm.mproc n).endpoint = n.val := by
    decide +kernel
  rw [h] at hall
  obtain ⟨hinUse, hslot⟩ := of_decide_eq_true hall
  exact ⟨boot_consistent (boot_kernel h), hinUse, hslot⟩

/-! ## runs -/

/-- What `Tables` says of an entry of the process manager. -/
def Fits (n : MprocNr) (r : Mproc) : Prop :=
  (r.pid ≠ 0 → .inUse ∈ r.flags) ∧ (.inUse ∈ r.flags → endpointP r.endpoint = n.val)

/-- All entries fit. -/
def Pm.AllFit (pm : Pm) : Prop := ∀ n, Fits n (pm.mproc n)

/-- The bit `inUse` stays, and so do the endpoint and the `pid`. -/
theorem Fits.of_eq {r r' : Mproc} (h : Fits n r) (hpid : r'.pid = r.pid)
    (hinUse : .inUse ∈ r'.flags ↔ .inUse ∈ r.flags) (hendpoint : r'.endpoint = r.endpoint) :
    Fits n r' := by
  unfold Fits
  rw [hpid, hinUse, hendpoint]
  exact h

namespace Pm.AllFit

variable {pm pm' : Pm} {child : MprocNr} {f : Mproc → Mproc}

theorem set (h : pm.AllFit) (hf : Fits n (f (pm.mproc n))) : (pm.set n f).AllFit := by
  intro m
  by_cases hm : m = n
  · subst hm
    rwa [Pm.set_self]
  · rw [Pm.set_of_ne hm]
    exact h m

theorem setreply (h : pm.AllFit) : (pm.setreply n).AllFit :=
  h.set ((h n).of_eq rfl (by simp) rfl)

theorem cleanup (h : pm.AllFit) : (pm.cleanup child).AllFit := by
  have hwaiting : ∀ {pm : Pm} {n : MprocNr}, pm.AllFit →
      (pm.set n fun r => { r with flags := r.flags.erase .waiting }).AllFit := fun h =>
    h.set ((h _).of_eq rfl (by simp) rfl)
  have hfree : ∀ {pm : Pm}, pm.AllFit →
      (pm.set child fun r => { r with pid := 0, flags := ∅ }).AllFit := fun h =>
    h.set ⟨fun hpid => absurd rfl hpid, fun hin => absurd hin (Finset.notMem_empty _)⟩
  exact hfree (hwaiting h.setreply)

theorem disinherit (h : pm.AllFit) (r : MprocNr) : (Pm.disinherit n pm r).AllFit := by
  have hset : (pm.set r fun r => { r with parent := initNr }).AllFit :=
    h.set ((h r).of_eq rfl Iff.rfl rfl)
  unfold Pm.disinherit
  split
  · dsimp only
    split
    · exact hset.cleanup
    · exact hset
  · exact h

theorem disinherit_loop : ∀ (l : List MprocNr) {pm : Pm}, pm.AllFit →
    (l.foldl (fun pm r => Pm.disinherit n pm r) pm).AllFit
  | [], _, h => h
  | r :: l, _, h => disinherit_loop l (h.disinherit r)

/-- A zombie keeps its endpoint. -/
theorem bury (h : pm.AllFit) (hn : .inUse ∈ (pm.mproc n).flags) : (pm.bury n).AllFit := by
  unfold Pm.bury
  dsimp only
  split
  · exact h.cleanup
  · exact h.set ((h n).of_eq rfl (by simp [hn]) rfl)

end Pm.AllFit

/-- The child is in use like its parent, and has the endpoint of its slot. -/
theorem fork_allFit {memory mapped : Bool} (h : σ.pm.AllFit) (hlive : σ.pm.Live whoP)
    (hkernel : ∀ (child : MprocNr) kernel,
      doFork (σ.pm.mproc whoP).endpoint child.val σ.kernel = some (OK, kernel) → Numbered kernel)
    (hstep : σ.fork memory mapped whoP = some (e, σ')) : σ'.pm.AllFit := by
  unfold System.fork at hstep
  dsimp only at hstep
  split at hstep
  · cases hstep
    exact h
  · split at hstep
    · cases hstep
      exact h
    · obtain ⟨child, -, hstep⟩ := Option.bind_eq_some_iff.mp hstep
      obtain ⟨⟨pid, pm₁⟩, hpid, hstep⟩ := Option.bind_eq_some_iff.mp hstep
      obtain ⟨⟨r, kernel₁⟩, hfork, hstep⟩ := Option.bind_eq_some_iff.mp hstep
      dsimp only at hstep
      split at hstep
      · cases hstep
      · next hok =>
        obtain ⟨⟨r', kernel₂⟩, -, hstep⟩ := Option.bind_eq_some_iff.mp hstep
        dsimp only at hstep
        split at hstep
        · cases hstep
        · cases hstep
          obtain rfl := not_not.mp hok
          have hmproc := Pm.getFreePid_mproc hpid
          obtain ⟨g, hg, hendpoint⟩ := (hkernel child kernel₁ hfork).endpoint (procOf child)
          have hslot : endpointP (kernel₁.proc (procOf child)).endpoint = child.val := by
            rw [hendpoint, endpointP_mkEndpoint hg]
            unfold procOf
            dsimp only
            omega
          refine Pm.AllFit.setreply fun m => ?_
          by_cases hm : m = child
          · subst hm
            rw [Pm.set_self, Pm.set_self, hmproc, Pm.set_self]
            exact ⟨fun _ => Finset.mem_inter.mpr ⟨hlive.1, by decide⟩, fun _ => hslot⟩
          · rw [Pm.set_of_ne hm, Pm.set_of_ne hm, hmproc, Pm.set_of_ne hm]
            exact h m

/-- What an act keeps in the table of the process manager. -/
theorem Act.allFit {act : Act} (h : σ.pm.AllFit) (hallowed : act.Allowed σ)
    (hkernel : ∀ memory mapped whoP, act = .fork memory mapped whoP → ∀ (child : MprocNr) kernel,
      doFork (σ.pm.mproc whoP).endpoint child.val σ.kernel = some (OK, kernel) → Numbered kernel)
    (hstep : act.run σ = some σ') : σ'.pm.AllFit := by
  cases act with
  | kernel op =>
    obtain ⟨kernel, -, rfl⟩ := Option.map_eq_some_iff.mp hstep
    exact h
  | getsetscheduler set whoP policy who =>
    obtain ⟨⟨e, σ₁⟩, hrun, rfl⟩ := Option.map_eq_some_iff.mp hstep
    rcases getsetscheduler_cases hrun with rfl | ⟨-, -, n, kernel, -, -, rfl⟩
    · exact h
    · have hset : (σ.pm.set n fun r => { r with schedPolicy := policy }).AllFit :=
        h.set ((h n).of_eq rfl Iff.rfl rfl)
      exact hset
  | fork memory mapped whoP =>
    obtain ⟨⟨e, σ₁⟩, hrun, rfl⟩ := Option.map_eq_some_iff.mp hstep
    exact fork_allFit h hallowed.1 (hkernel memory mapped whoP rfl) hrun
  | pmExit n =>
    obtain ⟨⟨r, kernel₁⟩, -, hstep⟩ := Option.bind_eq_some_iff.mp hstep
    obtain ⟨⟨r', kernel₂⟩, -, hstep⟩ := Option.bind_eq_some_iff.mp hstep
    dsimp only at hstep
    split at hstep
    · cases hstep
    · cases hstep
      have hreply : (σ.pm.set n fun r => { r with flags := r.flags.erase .reply }).AllFit :=
        h.set ((h n).of_eq rfl (by simp) rfl)
      have hn : .inUse ∈
          ((σ.pm.set n fun r => { r with flags := r.flags.erase .reply }).mproc n).flags := by
        rw [Pm.set_self]
        exact Finset.mem_erase.mpr ⟨by decide, hallowed.1.1⟩
      have hloop := Pm.AllFit.disinherit_loop (n := n) (List.finRange NR_PROCS) (hreply.bury hn)
      dsimp only
      exact hloop
  | waitpid whoP pid nohang =>
    cases hstep
    have hwaiting : ∀ pidarg, (σ.pm.set whoP fun r =>
        { r with flags := insert .waiting r.flags, wpid := pidarg }).AllFit := fun pidarg =>
      h.set ((h whoP).of_eq rfl (by simp) rfl)
    unfold System.waitpid
    dsimp only
    generalize (if pid = 0 then -(σ.pm.mproc whoP).procgrp else pid) = pidarg
    split
    · exact h.cleanup
    · split
      · split
        · exact h
        · exact hwaiting pidarg
      · exact h
  | setuid whoP usrId =>
    cases hstep
    have hset : (σ.pm.set whoP fun r => { r with realuid := usrId, effuid := usrId }).AllFit :=
      h.set ((h whoP).of_eq rfl Iff.rfl rfl)
    unfold System.setuid
    dsimp only
    split
    · exact h
    · exact hset

/-- Nobody is queued at a process that forks, and it is not `IDLE`. -/
def Act.Clean (σ : System) : Act → Prop
  | .fork _ _ whoP => CleanFork σ.kernel (σ.pm.mproc whoP).endpoint
  | _ => True

instance (σ : System) (act : Act) : Decidable (act.Clean σ) :=
  match act with
  | .fork _ _ whoP => inferInstanceAs (Decidable (CleanFork σ.kernel (σ.pm.mproc whoP).endpoint))
  | .kernel _ | .getsetscheduler .. | .pmExit _ | .waitpid .. | .setuid .. => inferInstanceAs (Decidable True)

/-- An operation of an act keeps the invariant of the kernel, whatever policy is asked for. -/
theorem Act.Does.consistent {act : Act} {op : Op} (hdoes : act.Does σ s op) (h : Consistent s)
    (hallowed : act.Allowed σ) (hclean : act.Clean σ) (hrun : op.run s = some s') :
    Consistent s' := by
  cases hdoes with
  | kernel =>
    refine h.op ?_ ?_ hrun <;> cases op <;> first | exact hallowed | exact hallowed.elim | trivial
  | setscheduler =>
    obtain ⟨⟨e, s₁⟩, hstore, rfl⟩ := Option.map_eq_some_iff.mp hrun
    exact h.doSetscheduler hstore
  | fork =>
    obtain ⟨⟨e, s₁⟩, hfork, rfl⟩ := Option.map_eq_some_iff.mp hrun
    exact h.doFork hclean hfork
  | newmap =>
    obtain ⟨⟨e, s₁⟩, hnewmap, rfl⟩ := Option.map_eq_some_iff.mp hrun
    exact h.doNewmap hnewmap
  | nice =>
    obtain ⟨⟨e, s₁⟩, hnice, rfl⟩ := Option.map_eq_some_iff.mp hrun
    exact h.doNice hnice
  | exit =>
    obtain ⟨⟨e, s₁⟩, hexit, rfl⟩ := Option.map_eq_some_iff.mp hrun
    exact h.doExit hexit

/-- What an act keeps. -/
theorem Tables.act {act : Act} (h : Tables σ) (hallowed : act.Allowed σ) (hclean : act.Clean σ)
    (hstep : act.run σ = some σ') : Tables σ' := by
  have hkernel : Consistent σ'.kernel := Act.keeps h.kernel
    (fun _ _ _ hdoes hs hrun => hdoes.consistent hs hallowed hclean hrun) hstep
  have hfit : σ'.pm.AllFit := by
    refine Act.allFit (fun n => ⟨h.inUse n, h.slot n⟩) hallowed
      (fun memory mapped whoP hact child kernel hfork => ?_) hstep
    subst hact
    exact (h.kernel.doFork hclean hfork).numbered
  exact ⟨hkernel, fun n => (hfit n).1, fun n => (hfit n).2⟩

/-- The tables belong together in every state of a run in which no process forks while others are
queued at it. -/
theorem System.Reached.tables (h : System.Reached (fun σ act => act.Clean σ) σ) : Tables σ := by
  induction h with
  | boot h => exact boot_tables h
  | step _ hallowed hclean hstep ih => exact ih.act hallowed hclean hstep

/-! ## the start -/

/-- `init` sets its policy to `SCHED_RR` behind the start. -/
theorem set_atomic_iff_init : ∃ σ, System.boot = some σ ∧
    (SetAtomic σ.agreed initNr SCHED_RR 0 ↔ SetFits σ.agreed initNr SCHED_RR 0) := by
  have hlive : System.boot.any fun σ => σ.agreed.pm.Live initNr := by
    decide +kernel
  obtain ⟨σ, hboot, hlive⟩ := (Option.any_eq_true _ _).mp hlive
  exact ⟨σ, hboot, set_atomic_iff (boot_tables hboot).agreed (agree_agreed σ)
    (of_decide_eq_true hlive)⟩

/-- `init` asks for the policy 257: the process manager stores it, and the kernel stores 1. -/
theorem wide_policy : ∃ σ, System.boot = some σ ∧ Agree σ.agreed ∧
    ¬ SetAtomic σ.agreed initNr 257 0 := by
  have h : System.boot.any fun σ => .inUse ∈ (σ.agreed.pm.mproc initNr).flags ∧
      σ.agreed.pm.target initNr 0 = some initNr ∧
      (σ.agreed.pm.mproc initNr).effuid = SUPER_USER ∧
      (isokendpt σ.agreed.kernel (σ.agreed.pm.mproc initNr).endpoint).isSome := by
    decide +kernel
  obtain ⟨σ, hboot, h⟩ := (Option.any_eq_true _ _).mp h
  obtain ⟨hn, htarget, hroot, hok⟩ := of_decide_eq_true h
  obtain ⟨rp, hok⟩ := Option.isSome_iff_exists.mp hok
  refine ⟨σ, hboot, agree_agreed σ, ?_⟩
  rw [setAtomic_root_iff (boot_tables hboot).agreed (agree_agreed σ) hn htarget hroot, hok]
  rintro ⟨-, hchar, -⟩
  exact absurd hchar (by decide)

end Minix
