import Bambinos.Minix.Invariant
import Mathlib.Data.List.TakeWhile

/-!
# Sending and receiving keep the kernel consistent

* `Consistent.miniSend`, `Consistent.miniReceive`, `Consistent.miniNotify` — one lemma for each
* `Consistent.sysCall` — of a process that is runnable
-/

namespace Minix

open Infra

variable {s s' s₁ : Kernel} {r rp x y : ProcPtr} {f : Proc → Proc} {flag : RtsFlag}
  {flags : Finset RtsFlag} {e : Int}

/-! ## flags -/

theorem alive_of_mem (hflag : flag ∈ (s.proc rp).rtsFlags) (hfree : flag ≠ .slotFree) :
    Alive s rp := by
  intro he
  rw [he] at hflag
  exact hfree (Finset.mem_singleton.mp hflag)

theorem alive_of_runnable (h : (s.proc rp).rtsFlags = ∅) : Alive s rp := by
  unfold Alive
  rw [h]
  exact (Finset.singleton_ne_empty _).symm

theorem FlagsOf.alive (h : FlagsOf s s' rp flags) (halive : Alive s rp) (hy : Alive s' y) :
    Alive s y := by
  by_cases he : y = rp
  · rwa [he]
  · unfold Alive at hy ⊢
    rwa [← h.2 y he]

namespace Consistent

theorem of_quiet (h : Consistent s) (hrun : Runnable s') (hq : Quiet s s')
    (halive : ∀ y, Alive s' y → Alive s y)
    (hsending : ∀ x, .sending ∈ (s.proc x).rtsFlags → .sending ∈ (s'.proc x).rtsFlags) :
    Consistent s' where
  runnable := hrun
  callers := by
    obtain ⟨C, hC⟩ := h.callers
    exact ⟨C, hC.quiet hq halive fun _ _ x _ => hsending x⟩
  numbered := h.numbered.steady hq.toSteady
  range := h.range.steady hq.toSteady

/-- The kernel also changes fields that do not matter here. -/
theorem setProc {b : Bool} {g t : Int} (h : Consistent s) (hf : f (s.proc rp) =
    { s.proc rp with replyPending := b, getfromE := g, ticksLeft := t }) :
    Consistent (s.setProc rp f) := by
  have hfield : ∀ {β : Type} {k : Proc → β}, (∀ p b g t,
      k { p with replyPending := b, getfromE := g, ticksLeft := t } = k p) → ∀ r,
      k ((s.setProc rp f).proc r) = k (s.proc r) := by
    intro β k hk r
    refine Kernel.setProc_field ?_ r
    rw [hf]
    exact hk _ _ _ _
  have hflags := hfield (k := Proc.rtsFlags) fun _ _ _ _ => rfl
  refine h.of_quiet ?_ ⟨?_, ?_, ?_, ?_⟩ (fun y hy => ?_) fun x hx => ?_
  · refine (Ready.setProc h.runnable ?_ ?_ ?_).iff fun r => by rw [hflags]
    all_goals rw [hf]
  · refine setProc_steady ?_ ?_ ?_ ?_
    all_goals rw [hf]
  · exact hfield fun _ _ _ _ => rfl
  · exact hfield fun _ _ _ _ => rfl
  · exact hfield fun _ _ _ _ => rfl
  · unfold Alive at hy ⊢
    rwa [hflags] at hy
  · rwa [hflags]

theorem of_proc_eq (h : Consistent s) (hproc : s'.proc = s.proc) (hhead : s'.rdyHead = s.rdyHead)
    (htail : s'.rdyTail = s.rdyTail) : Consistent s' := by
  refine h.of_quiet ?_ (.of_proc_eq hproc) (fun y hy => ?_) fun x hx => ?_
  · exact (Ready.of_eq h.runnable hproc hhead htail).iff fun r => by rw [hproc]
  · unfold Alive at hy ⊢
    rwa [hproc] at hy
  · rwa [hproc]

theorem unset (h : Consistent s) (hflag : flag ∈ (s.proc rp).rtsFlags) (hfree : flag ≠ .slotFree)
    (hne : flag ≠ .sending) (hstep : unset flag rp s = some s') : Consistent s' := by
  obtain ⟨hrun, hq, hflags⟩ := unset_spec h.runnable hflag hstep
  refine h.of_quiet hrun hq (fun y => hflags.alive (alive_of_mem hflag hfree)) fun x hx => ?_
  by_cases he : x = rp
  · subst he
    rw [hflags.1]
    exact Finset.mem_erase.mpr ⟨hne.symm, hx⟩
  · rwa [hflags.2 x he]

theorem block (h : Consistent s) (halive : Alive s rp) (hstep : block flag rp s = some s') :
    Consistent s' := by
  obtain ⟨hrun, hq, hflags⟩ := block_spec h.runnable hstep
  refine h.of_quiet hrun hq (fun y => hflags.alive halive) fun x hx => ?_
  by_cases he : x = rp
  · subst he
    rw [hflags.1]
    exact Finset.mem_insert_of_mem hx
  · rwa [hflags.2 x he]

end Consistent

/-! ## `mini_send` -/

section Send

variable {callerPtr dst : ProcPtr} {dstE : Int} {place z : Option ProcPtr}

theorem Runnable.setProc (h : Runnable s)
    (hlink : (f (s.proc rp)).nextready = (s.proc rp).nextready)
    (hpriority : (f (s.proc rp)).priority = (s.proc rp).priority)
    (hscheduler : (f (s.proc rp)).scheduler = (s.proc rp).scheduler)
    (hflags : (f (s.proc rp)).rtsFlags = (s.proc rp).rtsFlags) : Runnable (s.setProc rp f) := by
  have hfield := Kernel.setProc_field (g := Proc.rtsFlags) hflags
  exact (Ready.setProc h hlink hpriority hscheduler).iff fun r => by rw [hfield]

theorem Runnable.setCallerLink (h : Runnable s) : Runnable (s.setCallerLink dst place z) := by
  unfold Kernel.setCallerLink
  cases place with
  | none => exact h.setProc rfl rfl rfl rfl
  | some b => exact h.setProc rfl rfl rfl rfl

theorem Runnable.addCaller (h : Runnable s) : Runnable (s.addCaller dst place x) :=
  h.setCallerLink.setProc rfl rfl rfl rfl

/-- The state of a process that is blocked to send but is on no queue yet. -/
structure Unqueued (s s' : Kernel) (callerPtr : ProcPtr) (dstE : Int)
    (C : ProcPtr → List ProcPtr) : Prop where
  runnable : Runnable s'
  steady : Steady s s'
  flags : FlagsOf s s' callerPtr {.sending}
  queued : Queued s' (Alive s) C
  sendto : (s'.proc callerPtr).sendtoE = dstE

theorem Callers.not_mem {C : ProcPtr → List ProcPtr} (hC : Callers s (Alive s) C)
    (hcaller : (s.proc callerPtr).rtsFlags = ∅) : ∀ y, Alive s y → callerPtr ∉ C y := by
  intro y hy hmem
  have hsending := hC.sending y hy callerPtr hmem
  rw [hcaller] at hsending
  exact absurd hsending (Finset.notMem_empty _)

theorem Consistent.unqueued (h : Consistent s) (hcaller : (s.proc callerPtr).rtsFlags = ∅)
    (hblock : Minix.block .sending callerPtr s = some s₁) {C : ProcPtr → List ProcPtr}
    (hC : Callers s (Alive s) C) :
    Unqueued s (s₁.setProc callerPtr fun r => { r with sendtoE := dstE }) callerPtr dstE C := by
  obtain ⟨hrun, hq, hflags⟩ := block_spec h.runnable hblock
  have hq₁ := hC.toQueued.quiet hq fun _ => id
  refine ⟨hrun.setProc rfl rfl rfl rfl, hq.toSteady.trans (setProc_steady rfl rfl rfl rfl),
    ⟨?_, fun r hr => ?_⟩, ⟨fun y hy => ?_, fun y hy x hx => ?_⟩, ?_⟩
  · rw [Kernel.setProc_field (g := Proc.rtsFlags) rfl, hflags.1, hcaller]
    rfl
  · rw [Kernel.setProc_field (g := Proc.rtsFlags) rfl]
    exact hflags.2 r hr
  · rw [Kernel.setProc_field (g := Proc.callerQ) rfl]
    exact (hq₁.chain y hy).congr fun r _ => Kernel.setProc_field (g := Proc.qLink) rfl r
  · rw [Kernel.setProc_of_ne (ne_of_mem_of_not_mem hx (hC.not_mem hcaller y hy)),
      Kernel.setProc_field (g := Proc.endpoint) rfl]
    exact hq₁.sendto y hy x hx
  · rw [Kernel.setProc_self]

/-- A process that cannot send joins the queue of its destination. -/
theorem Unqueued.join {C : ProcPtr → List ProcPtr} (h : Unqueued s s₁ callerPtr dstE C)
    (hs : Consistent s) (hC : Callers s (Alive s) C) (hcaller : (s.proc callerPtr).rtsFlags = ∅)
    (hdst : Alive s dst) (hendpoint : (s.proc dst).endpoint = dstE)
    (hseek : seekCaller s₁ (fun _ => false) dst = some (place, z)) :
    Consistent (s₁.addCaller dst place callerPtr) := by
  have hplace : place = (C dst).getLast? := by
    rw [(h.queued.seek hdst hseek).1]
    congr 1
    exact List.takeWhile_eq_self_iff.mpr fun _ _ => rfl
  subst hplace
  have hsteady : Steady s (s₁.addCaller dst (C dst).getLast? callerPtr) :=
    h.steady.trans addCaller_steady
  have happend := h.queued.append (hs.numbered.steady h.steady) hdst (hC.not_mem hcaller)
    (by rw [h.sendto, h.steady.endpoint, hendpoint])
  have hflags : FlagsOf s (s₁.addCaller dst (C dst).getLast? callerPtr) callerPtr {.sending} := by
    refine ⟨?_, fun r hr => ?_⟩
    · rw [addCaller_field (g := Proc.rtsFlags) (fun _ _ => rfl) fun _ _ => rfl]
      exact h.flags.1
    · rw [addCaller_field (g := Proc.rtsFlags) (fun _ _ => rfl) fun _ _ => rfl]
      exact h.flags.2 r hr
  have halive : ∀ y, Alive (s₁.addCaller dst (C dst).getLast? callerPtr) y → Alive s y :=
    fun y => hflags.alive (alive_of_runnable hcaller)
  refine ⟨h.runnable.addCaller, ⟨_, ⟨⟨fun y hy => happend.chain y (halive y hy),
    fun y hy => happend.sendto y (halive y hy)⟩, fun y hy x hx => ?_⟩⟩,
    hs.numbered.steady hsteady, hs.range.steady hsteady⟩
  by_cases he : x = callerPtr
  · subst he
    rw [hflags.1]
    exact Finset.mem_singleton_self _
  · rw [hflags.2 x he]
    refine hC.sending y (halive y hy) x ?_
    by_cases hne : y = dst
    · subst hne
      rw [Function.update_self] at hx
      exact (List.mem_append.mp hx).resolve_right fun hx => he (List.mem_singleton.mp hx)
    · rwa [Function.update_of_ne hne] at hx

theorem isokendpt_spec (h : isokendpt s e = some dst) :
    procAddr (endpointP e) = some dst ∧ (s.proc dst).endpoint = e ∧ Alive s dst := by
  obtain ⟨hendpoint, hempty⟩ := isokendpt_endpoint h
  refine ⟨isokendpt_procAddr h, hendpoint, not_not.mp fun hdead => ?_⟩
  rw [isempty_iff.mpr hdead] at hempty
  cases hempty

/-- `mini_send`, called by a process that is runnable. -/
theorem Consistent.miniSend {nonBlocking : Bool} (h : Consistent s)
    (hcaller : (s.proc callerPtr).rtsFlags = ∅) (hdst : isokendpt s dstE = some dst)
    (hstep : miniSend callerPtr dstE nonBlocking s = some (e, s')) :
    Consistent s' ∧ Alive s' callerPtr := by
  obtain ⟨haddr, hendpoint, halive⟩ := isokendpt_spec hdst
  unfold Minix.miniSend at hstep
  rw [haddr, Option.bind_eq_bind, Option.bind_some] at hstep
  dsimp only at hstep
  split at hstep
  · cases hstep
    exact ⟨h, alive_of_runnable hcaller⟩
  · split at hstep
    · next hreceiving =>
      obtain ⟨s₁, hunset, hstep⟩ := Option.bind_eq_some_iff.mp hstep
      cases hstep
      obtain ⟨-, -, hflags⟩ := unset_spec h.runnable hreceiving.1.1 hunset
      refine ⟨h.unset hreceiving.1.1 (by decide) (by decide) hunset, ?_⟩
      have hne : callerPtr ≠ dst := by
        rintro rfl
        rw [hcaller] at hreceiving
        exact absurd hreceiving.1.1 (Finset.notMem_empty _)
      exact alive_of_runnable ((hflags.2 callerPtr hne).trans hcaller)
    · split at hstep
      · obtain ⟨s₁, hblock, hstep⟩ := Option.bind_eq_some_iff.mp hstep
        obtain ⟨⟨place, z⟩, hseek, hstep⟩ := Option.bind_eq_some_iff.mp hstep
        cases hstep
        obtain ⟨C, hC⟩ := h.callers
        have hunqueued : Unqueued s (s₁.setProc callerPtr fun r => { r with sendtoE := dstE })
            callerPtr dstE C := h.unqueued hcaller hblock hC
        refine ⟨hunqueued.join h hC hcaller halive hendpoint hseek, ?_⟩
        refine @alive_of_mem _ _ .sending ?_ (by decide)
        rw [addCaller_field (g := Proc.rtsFlags) (fun _ _ => rfl) fun _ _ => rfl, hunqueued.flags.1]
        exact Finset.mem_singleton_self _
      · cases hstep
        exact ⟨h, alive_of_runnable hcaller⟩

end Send

/-! ## `mini_receive` -/

section Receive

variable {callerPtr dstPtr : ProcPtr} {srcE srcP : Int} {nonBlocking : Bool}

theorem Consistent.waitMessage (h : Consistent s) (halive : Alive s callerPtr)
    (hstep : waitMessage callerPtr srcE nonBlocking s = some (e, s')) : Consistent s' := by
  unfold Minix.waitMessage at hstep
  split at hstep
  · obtain ⟨s₁, hblock, hstep⟩ := Option.bind_eq_some_iff.mp hstep
    cases hstep
    have h₁ : Consistent (s.setProc callerPtr fun r => { r with getfromE := srcE }) :=
      h.setProc rfl
    refine h₁.block ?_ hblock
    unfold Alive
    rwa [Kernel.setProc_field (g := Proc.rtsFlags) rfl]
  · cases hstep
    exact h

theorem Consistent.takeMessage (h : Consistent s) (halive : Alive s callerPtr)
    (hstep : takeMessage callerPtr srcE srcP nonBlocking s = some (e, s')) : Consistent s' := by
  unfold Minix.takeMessage at hstep
  obtain ⟨⟨place, c⟩, hseek, hstep⟩ := Option.bind_eq_some_iff.mp hstep
  cases c with
  | none => exact h.waitMessage halive hstep
  | some x =>
    obtain ⟨s₁, hunset, hstep⟩ := Option.bind_eq_some_iff.mp hstep
    cases hstep
    obtain ⟨C, hC⟩ := h.callers
    have hsending := hC.sending callerPtr halive x (hC.toQueued.leave h.numbered halive hseek).1
    obtain ⟨hrun, hq, hflags⟩ := unset_spec h.runnable hsending hunset
    have hseek₁ : seekCaller s₁ (fun r => srcE = ANY ∨ srcP = (s.proc r).nr) callerPtr =
        some (place, some x) := by
      rw [← hseek]
      unfold seekCaller
      rw [hq.callerQ, show (fun r => (s₁.proc r).qLink) = fun r => (s.proc r).qLink from
        funext hq.qLink]
    have hn₁ := h.numbered.steady hq.toSteady
    obtain ⟨-, C', hC', hmem⟩ := (hC.toQueued.quiet hq fun _ => id).leave hn₁ halive hseek₁
    have hflags₁ : FlagsOf s (s₁.setCallerLink callerPtr place (s₁.proc x).qLink) x
        ((s.proc x).rtsFlags.erase .sending) := by
      refine ⟨?_, fun r hr => ?_⟩
      · rw [setCallerLink_field (g := Proc.rtsFlags) (fun _ _ => rfl) fun _ _ => rfl]
        exact hflags.1
      · rw [setCallerLink_field (g := Proc.rtsFlags) (fun _ _ => rfl) fun _ _ => rfl]
        exact hflags.2 r hr
    have hsteady : Steady s (s₁.setCallerLink callerPtr place (s₁.proc x).qLink) :=
      hq.toSteady.trans setCallerLink_steady
    have halive₁ : ∀ y, Alive (s₁.setCallerLink callerPtr place (s₁.proc x).qLink) y →
        Alive s y := fun y => hflags₁.alive (alive_of_mem hsending (by decide))
    refine ⟨hrun.setCallerLink, ⟨C', ⟨⟨fun y hy => hC'.chain y (halive₁ y hy),
      fun y hy => hC'.sendto y (halive₁ y hy)⟩, fun y hy z hz => ?_⟩⟩,
      h.numbered.steady hsteady, h.range.steady hsteady⟩
    obtain ⟨hzC, hne⟩ := hmem y (halive₁ y hy) z hz
    rw [hflags₁.2 z hne]
    exact hC.sending y (halive₁ y hy) z hzC

/-- `mini_receive`, called by a process that is not free. -/
theorem Consistent.miniReceive (h : Consistent s) (halive : Alive s callerPtr)
    (hstep : miniReceive callerPtr srcE nonBlocking s = some (e, s')) : Consistent s' := by
  unfold Minix.miniReceive at hstep
  obtain ⟨dead, -, hstep⟩ := Option.bind_eq_some_iff.mp hstep
  dsimp only at hstep
  split at hstep
  · cases hstep
    exact h
  · split at hstep
    · split at hstep
      · cases hstep
        exact h.of_proc_eq rfl rfl rfl
      · exact h.takeMessage halive hstep
    · exact h.waitMessage halive hstep

/-! ## `mini_notify` -/

theorem Consistent.miniNotify (h : Consistent s)
    (hstep : miniNotify callerPtr dstPtr s = some (e, s')) : Consistent s' := by
  unfold Minix.miniNotify at hstep
  dsimp only at hstep
  split at hstep
  · next hreceiving =>
    obtain ⟨s₁, hunset, hstep⟩ := Option.bind_eq_some_iff.mp hstep
    cases hstep
    exact h.unset hreceiving.1.1 (by decide) (by decide) hunset
  · cases hstep
    exact h.of_proc_eq rfl rfl rfl

theorem Consistent.lockNotify {dstE : Int} (h : Consistent s)
    (hstep : lockNotify srcE dstE s = some (e, s')) : Consistent s' := by
  unfold Minix.lockNotify at hstep
  split at hstep
  · exact h.miniNotify hstep
  · cases hstep
    exact h

end Receive

/-! ## `sys_call` -/

section SysCall

variable {callerPtr : ProcPtr} {srcDstE : Int} {nonBlocking : Bool}

theorem isokendpt_congr (hendpoint : ∀ r, (s'.proc r).endpoint = (s.proc r).endpoint)
    (hflags : ∀ r, (s'.proc r).rtsFlags = (s.proc r).rtsFlags) : isokendpt s' e = isokendpt s e := by
  unfold isokendpt Proc.isempty
  simp only [hendpoint, hflags]

/-- Nobody has the endpoint `ANY`. -/
theorem procAddr_any : procAddr (endpointP ANY) = none := by decide

/-- `mini_send` has a result only if the destination is alive. -/
theorem exists_destination {s₁ : Kernel} {result : Int × Kernel}
    (hcheck : ¬ (srcDstE ≠ ANY ∧ isokendpt s srcDstE = none))
    (hstep : miniSend callerPtr srcDstE nonBlocking s₁ = some result) :
    ∃ dst, isokendpt s srcDstE = some dst := by
  by_cases hany : srcDstE = ANY
  · subst hany
    unfold miniSend at hstep
    rw [procAddr_any] at hstep
    cases hstep
  · exact Option.ne_none_iff_exists'.mp fun hnone => hcheck ⟨hany, hnone⟩

/-- **`sys_call`**, by a process that is runnable. -/
theorem Consistent.sysCall {function : Function} (h : Consistent s)
    (hcaller : (s.proc callerPtr).rtsFlags = ∅)
    (hstep : sysCall callerPtr function srcDstE nonBlocking s = some (e, s')) : Consistent s' := by
  have halive := alive_of_runnable hcaller
  unfold Minix.sysCall at hstep
  split at hstep
  · cases hstep
    exact h
  · next hcheck =>
    have hcheck (hecho : function ≠ .echo) : ¬ (srcDstE ≠ ANY ∧ isokendpt s srcDstE = none) :=
      fun hnot => hcheck ⟨hnot.1, hecho, hnot.2⟩
    cases function with
    | send =>
      obtain ⟨dst, hdst⟩ := exists_destination (hcheck (by decide)) hstep
      exact (h.miniSend hcaller hdst hstep).1
    | receive =>
      have h₁ : Consistent (s.setProc callerPtr fun r => { r with replyPending := false }) :=
        h.setProc rfl
      refine h₁.miniReceive ?_ hstep
      unfold Alive
      rwa [Kernel.setProc_field (g := Proc.rtsFlags) rfl]
    | sendrec =>
      obtain ⟨⟨result, s₂⟩, hsend, hstep⟩ := Option.bind_eq_some_iff.mp hstep
      obtain ⟨dst, hdst⟩ := exists_destination (hcheck (by decide)) hsend
      have h₁ : Consistent (s.setProc callerPtr fun r => { r with replyPending := true }) :=
        h.setProc rfl
      have hdst₁ : isokendpt (s.setProc callerPtr fun r => { r with replyPending := true }) srcDstE =
          some dst := by
        rw [← hdst]
        exact isokendpt_congr (Kernel.setProc_field (g := Proc.endpoint) rfl)
          (Kernel.setProc_field (g := Proc.rtsFlags) rfl)
      have hcaller₁ : ((s.setProc callerPtr fun r => { r with replyPending := true }).proc
          callerPtr).rtsFlags = ∅ := by
        rw [Kernel.setProc_self]
        exact hcaller
      obtain ⟨h₂, halive₂⟩ := h₁.miniSend hcaller₁ hdst₁ hsend
      dsimp only at hstep
      split at hstep
      · cases hstep
        exact h₂
      · exact h₂.miniReceive halive₂ hstep
    | notify =>
      obtain ⟨dst, -, hstep⟩ := Option.bind_eq_some_iff.mp hstep
      exact h.miniNotify hstep
    | echo =>
      cases hstep
      exact h

end SysCall

end Minix
