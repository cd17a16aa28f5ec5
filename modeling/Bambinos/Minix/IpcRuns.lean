import Bambinos.Minix.Ipc
import Bambinos.Minix.Runs

/-!
# The messages change nothing else

What `sys_call` and the others do with the messages and the masks left out is what the kernel without
messages does, so that its invariant is theirs.

* `Ipc.Op` — what the kernel does at a trap, an interrupt or a kernel call, with the messages
* `Ipc.Run` — the states that are reached from the booted kernel
* `Ipc.Run.consistent` — the kernel is consistent in all of them
* `Ipc.Run.kernel` — a run with the messages and the masks is one without them
-/

namespace Minix

open Infra

namespace Ipc

variable {α : Type} {st st' : Ipc α} {callerPtr dstPtr rc : ProcPtr} {srcE srcP dstE : Int}
  {m : Message α} {nonBlocking : Bool} {e : Int}

/-! ## without the messages -/

theorem deliverNotice_kernel {src : Int} (h : st.deliverNotice src dstPtr = some st') :
    st'.kernel = st.kernel := by
  unfold deliverNotice at h
  obtain ⟨srcPtr, -, h⟩ := Option.bind_eq_some_iff.mp h
  cases h
  rfl

theorem miniNotify_kernel (h : st.miniNotify callerPtr dstPtr = some (e, st')) :
    Minix.miniNotify callerPtr dstPtr st.kernel = some (e, st'.kernel) := by
  unfold miniNotify at h
  unfold Minix.miniNotify
  dsimp only at h ⊢
  split at h
  · next hready =>
    rw [if_pos hready]
    obtain ⟨st₁, -, h⟩ := Option.bind_eq_some_iff.mp h
    obtain ⟨s, hunset, h⟩ := Option.bind_eq_some_iff.mp h
    cases h
    rw [hunset]
    rfl
  · next hready =>
    rw [if_neg hready]
    cases h
    rfl

theorem lockNotify_kernel (h : st.lockNotify srcE dstE = some (e, st')) :
    Minix.lockNotify srcE dstE st.kernel = some (e, st'.kernel) := by
  unfold lockNotify at h
  unfold Minix.lockNotify
  cases hsrc : isokendpt st.kernel srcE with
  | none =>
    rw [hsrc] at h
    cases h
    rfl
  | some src =>
    cases hdst : isokendpt st.kernel dstE with
    | none =>
      rw [hsrc, hdst] at h
      cases h
      rfl
    | some dst =>
      rw [hsrc, hdst] at h
      exact miniNotify_kernel h

theorem miniSend_kernel (h : st.miniSend callerPtr dstE m nonBlocking = some (e, st')) :
    Minix.miniSend callerPtr dstE nonBlocking st.kernel = some (e, st'.kernel) := by
  unfold miniSend at h
  unfold Minix.miniSend
  dsimp only at h ⊢
  obtain ⟨dst, hdst, h⟩ := Option.bind_eq_some_iff.mp h
  rw [hdst, Option.bind_eq_bind, Option.bind_some]
  split at h
  · next hdead =>
    cases h
    rw [if_pos hdead]
  · next hdead =>
    rw [if_neg hdead]
    split at h
    · next hready =>
      rw [if_pos hready]
      obtain ⟨s, hunset, h⟩ := Option.bind_eq_some_iff.mp h
      cases h
      rw [hunset]
      rfl
    · next hready =>
      rw [if_neg hready]
      split at h
      · next hblocking =>
        rw [if_pos hblocking]
        obtain ⟨s, hblock, h⟩ := Option.bind_eq_some_iff.mp h
        obtain ⟨⟨place, z⟩, hseek, h⟩ := Option.bind_eq_some_iff.mp h
        cases h
        rw [hblock, Option.bind_eq_bind, Option.bind_some]
        dsimp only
        rw [hseek]
        rfl
      · next hblocking =>
        cases h
        rw [if_neg hblocking]

theorem waitMessage_kernel (h : st.waitMessage callerPtr srcE m nonBlocking = some (e, st')) :
    Minix.waitMessage callerPtr srcE nonBlocking st.kernel = some (e, st'.kernel) := by
  unfold waitMessage at h
  unfold Minix.waitMessage
  split at h
  · next hblocking =>
    rw [if_pos hblocking]
    obtain ⟨s, hblock, h⟩ := Option.bind_eq_some_iff.mp h
    cases h
    dsimp only
    rw [hblock]
    rfl
  · next hblocking =>
    rw [if_neg hblocking]
    cases h
    rfl

theorem takeMessage_kernel (h : st.takeMessage callerPtr srcE srcP m nonBlocking = some (e, st')) :
    Minix.takeMessage callerPtr srcE srcP nonBlocking st.kernel = some (e, st'.kernel) := by
  unfold takeMessage at h
  unfold Minix.takeMessage
  dsimp only at h
  obtain ⟨⟨place, x⟩, hseek, h⟩ := Option.bind_eq_some_iff.mp h
  rw [hseek, Option.bind_eq_bind, Option.bind_some]
  cases x with
  | none => exact waitMessage_kernel h
  | some x =>
    obtain ⟨s, hunset, h⟩ := Option.bind_eq_some_iff.mp h
    cases h
    dsimp only
    rw [hunset]
    rfl

theorem miniReceive_kernel (h : st.miniReceive callerPtr srcE m nonBlocking = some (e, st')) :
    Minix.miniReceive callerPtr srcE nonBlocking st.kernel = some (e, st'.kernel) := by
  unfold miniReceive at h
  unfold Minix.miniReceive
  dsimp only at h
  obtain ⟨dead, hdead, h⟩ := Option.bind_eq_some_iff.mp h
  rw [hdead, Option.bind_eq_bind, Option.bind_some]
  dsimp only
  split at h
  · next hd =>
    rw [if_pos hd]
    cases h
    rfl
  · next hd =>
    rw [if_neg hd]
    split at h
    · next hsending =>
      rw [if_pos hsending]
      generalize (if (st.kernel.proc callerPtr).replyPending then none
        else pendingNotify st.kernel (st.kernel.priv (st.kernel.proc callerPtr).priv).notifyPending
          srcE (if srcE = ANY then ANY else endpointP srcE)) = pending at h ⊢
      cases pending with
      | none => exact takeMessage_kernel h
      | some srcId =>
        obtain ⟨st₁, hnotice, h⟩ := Option.bind_eq_some_iff.mp h
        cases h
        dsimp only
        rw [deliverNotice_kernel hnotice]
    · next hsending =>
      rw [if_neg hsending]
      exact waitMessage_kernel h

theorem genericHandler_cases {procNrE : Int} {notifyId : Nat}
    (h : st.genericHandler procNrE notifyId = some st') : st' = st ∨ ∃ rp e,
      isokendpt st.kernel procNrE = some rp ∧
      (st.raise HARDWARE (st.kernel.proc rp).priv notifyId).lockNotify HARDWARE procNrE =
        some (e, st') := by
  unfold genericHandler at h
  split at h
  · cases h
    exact Or.inl rfl
  · next rp hrp =>
    obtain ⟨⟨e, st₁⟩, hnotify, h⟩ := Option.bind_eq_some_iff.mp h
    cases h
    exact Or.inr ⟨rp, e, hrp, hnotify⟩

theorem sendSig_cases {procNr : Int} {sigNr : Nat} (h : st.sendSig procNr sigNr = some st') :
    st' = st ∨ ∃ rp e, procAddr procNr = some rp ∧ (st.kernel.proc rp).isempty = false ∧
      (st.raise SYSTEM (st.kernel.proc rp).priv sigNr).lockNotify SYSTEM
        (st.kernel.proc rp).endpoint = some (e, st') := by
  unfold sendSig at h
  split at h
  · cases h
    exact Or.inl rfl
  · next rp hrp =>
    dsimp only at h
    split at h
    · cases h
      exact Or.inl rfl
    · next hempty =>
      obtain ⟨⟨e, st₁⟩, hnotify, h⟩ := Option.bind_eq_some_iff.mp h
      cases h
      exact Or.inr ⟨rp, e, hrp, Bool.eq_false_iff.mpr hempty, hnotify⟩

theorem clockHandler_cases {ticks : Int} {timeout : Bool}
    (h : st.clockHandler ticks timeout = some st') : ∃ s procPtr,
      chargeTicks ticks st.kernel = some s ∧
      (st' = { st with kernel := s, realtime := st.realtime + ticks } ∨
        ∃ e, lockNotify HARDWARE CLOCK { st with
          kernel := { s with prevPtr := some procPtr }
          realtime := st.realtime + ticks } = some (e, st')) := by
  unfold clockHandler at h
  obtain ⟨s, hcharge, h⟩ := Option.bind_eq_some_iff.mp h
  obtain ⟨procPtr, -, h⟩ := Option.bind_eq_some_iff.mp h
  refine ⟨s, procPtr, hcharge, ?_⟩
  split at h
  · obtain ⟨⟨e, st₁⟩, hnotify, h⟩ := Option.bind_eq_some_iff.mp h
    cases h
    exact Or.inr ⟨e, hnotify⟩
  · cases h
    exact Or.inl rfl

/-- What `sys_call` does after its checks. -/
theorem perform_kernel {function : Function}
    (hok : ¬ (srcE ≠ ANY ∧ function ≠ .echo ∧ isokendpt st.kernel srcE = none))
    (h : st.perform callerPtr (some function) srcE m nonBlocking = some (e, st')) :
    Minix.sysCall callerPtr function srcE nonBlocking st.kernel = some (e, st'.kernel) := by
  unfold Minix.sysCall
  rw [if_neg hok]
  unfold perform at h
  cases function with
  | send => exact miniSend_kernel h
  | receive => exact miniReceive_kernel h
  | sendrec =>
    dsimp only at h ⊢
    obtain ⟨⟨result, st₁⟩, hsend, h⟩ := Option.bind_eq_some_iff.mp h
    have hsend₁ := miniSend_kernel hsend
    unfold setReplyPending at hsend₁
    dsimp only at hsend₁ h
    rw [hsend₁, Option.bind_eq_bind, Option.bind_some]
    dsimp only
    split at h
    · next hresult =>
      cases h
      rw [if_pos hresult]
    · next hresult =>
      rw [if_neg hresult]
      exact miniReceive_kernel h
  | notify =>
    dsimp only at h ⊢
    obtain ⟨dst, hdst, h⟩ := Option.bind_eq_some_iff.mp h
    rw [hdst]
    exact miniNotify_kernel h
  | echo =>
    cases h
    rfl

/-- A call passes the checks only with an endpoint that is alive. -/
theorem checks_endpoint {function : Nat} {pointerOk : Bool}
    (h : st.checks callerPtr function srcE pointerOk = some OK) :
    ¬ (srcE ≠ ANY ∧ function ≠ ECHO ∧ isokendpt st.kernel srcE = none) := by
  intro hbad
  unfold checks at h
  dsimp only at h
  rw [if_pos hbad] at h
  exact absurd (Option.some.inj h) (by decide)

/-- **`sys_call`** returns an error, or does what the kernel without messages does. -/
theorem sysCall_cases {callNr : Nat} {pointerOk : Bool}
    (h : st.sysCall callerPtr callNr srcE m pointerOk = some (e, st')) :
    st' = st ∨ ∃ function nonBlocking,
      st.checks callerPtr (callNr &&& SYSCALL_FUNC) srcE pointerOk = some OK ∧
      functionOf (callNr &&& SYSCALL_FUNC) = some function ∧
      st.perform callerPtr (some function) srcE m nonBlocking = some (e, st') ∧
      Minix.sysCall callerPtr function srcE nonBlocking st.kernel = some (e, st'.kernel) := by
  unfold sysCall at h
  obtain ⟨result, hchecks, h⟩ := Option.bind_eq_some_iff.mp h
  split at h
  · cases h
    exact Or.inl rfl
  · next hresult =>
    rw [not_not.mp hresult] at hchecks
    cases hfunction : functionOf (callNr &&& SYSCALL_FUNC) with
    | none =>
      rw [hfunction] at h
      cases h
      exact Or.inl rfl
    | some function =>
      rw [hfunction] at h
      refine Or.inr ⟨function, _, hchecks, rfl, h, perform_kernel (fun hbad => ?_) h⟩
      refine checks_endpoint hchecks ⟨hbad.1, fun hecho => hbad.2.1 ?_, hbad.2.2⟩
      rw [hecho] at hfunction
      cases hfunction
      rfl

/-! ## runs -/

/-- What the kernel does. The operations that have to do with no message are those of `Minix.Op`. -/
inductive Op (α : Type) where
  | sysCall (callerPtr : ProcPtr) (callNr : Nat) (srcDstE : Int) (m : Message α) (pointerOk : Bool)
  | lockSend (procPtr : ProcPtr) (dstE : Int) (m : Message α)
  | lockNotify (srcE dstE : Int)
  | genericHandler (procNrE : Int) (notifyId : Nat)
  | sendSig (procNr : Int) (sigNr : Nat)
  | clockHandler (ticks : Int) (timeout : Bool)
  | doFork (endpt slot : Int)
  | doExit (whoP endpt : Int)
  | kernel (op : Minix.Op)

/-- The operation has to do with no message. -/
def NoMessage : Minix.Op → Bool
  | .doNice .. | .doSetscheduler .. | .doClocktick | .balanceQueues | .doNewmap .. | .restart => true
  | .sysCall .. | .lockNotify .. | .doFork .. | .doExit .. | .clockHandler .. => false

def Op.run (st : Ipc α) : Op α → Option (Ipc α)
  | .sysCall callerPtr callNr srcDstE m pointerOk =>
    (st.sysCall callerPtr callNr srcDstE m pointerOk).map Prod.snd
  | .lockSend procPtr dstE m => (st.lockSend procPtr dstE m).map Prod.snd
  | .lockNotify srcE dstE => (st.lockNotify srcE dstE).map Prod.snd
  | .genericHandler procNrE notifyId => st.genericHandler procNrE notifyId
  | .sendSig procNr sigNr => st.sendSig procNr sigNr
  | .clockHandler ticks timeout => st.clockHandler ticks timeout
  | .doFork endpt slot => (st.doFork endpt slot).map Prod.snd
  | .doExit whoP endpt => (st.doExit whoP endpt).map Prod.snd
  | .kernel op => st.onKernel op.run

/-- When it happens: the process that traps and the task that sends are running, hence ready. -/
def Op.Allowed (st : Ipc α) : Op α → Prop
  | .sysCall callerPtr .. => (st.kernel.proc callerPtr).rtsFlags = ∅
  | .lockSend procPtr .. => (st.kernel.proc procPtr).rtsFlags = ∅
  | .kernel op => op.Allowed st.kernel ∧ NoMessage op = true
  | _ => True

instance (st : Ipc α) (op : Op α) : Decidable (op.Allowed st) :=
  match op with
  | .sysCall callerPtr .. => inferInstanceAs (Decidable ((st.kernel.proc callerPtr).rtsFlags = ∅))
  | .lockSend procPtr .. => inferInstanceAs (Decidable ((st.kernel.proc procPtr).rtsFlags = ∅))
  | .kernel op => inferInstanceAs (Decidable (op.Allowed st.kernel ∧ NoMessage op = true))
  | .lockNotify .. | .genericHandler .. | .sendSig .. | .clockHandler .. | .doFork .. | .doExit .. =>
    inferInstanceAs (Decidable True)

/-- The process that forks sends to nobody, nobody is queued at it, and it is not `IDLE`. -/
def CleanFork (s : Kernel) (endpt : Int) : Prop :=
  Minix.CleanFork s endpt ∧ ∀ rpp ∈ isokendpt s endpt, .sending ∉ (s.proc rpp).rtsFlags

instance (s : Kernel) (endpt : Int) : Decidable (CleanFork s endpt) :=
  inferInstanceAs (Decidable (Minix.CleanFork s endpt ∧
    ∀ rpp ∈ isokendpt s endpt, .sending ∉ (s.proc rpp).rtsFlags))

def Op.Clean (st : Ipc α) : Op α → Prop
  | .doFork endpt _ => CleanFork st.kernel endpt
  | _ => True

instance (st : Ipc α) (op : Op α) : Decidable (op.Clean st) :=
  match op with
  | .doFork endpt _ => inferInstanceAs (Decidable (CleanFork st.kernel endpt))
  | .sysCall .. | .lockSend .. | .lockNotify .. | .genericHandler .. | .sendSig ..
  | .clockHandler .. | .doExit .. | .kernel .. => inferInstanceAs (Decidable True)

/-- The states that are reached from the booted kernel, whatever is in the memory of the processes,
by operations that meet a condition. -/
inductive Run (cond : Ipc α → Op α → Prop) : Ipc α → Prop
  | boot {memory : ProcPtr → Message α} {st : Ipc α} (h : boot memory = some st) : Run cond st
  | step {st st' : Ipc α} {op : Op α} (h : Run cond st) (hallowed : op.Allowed st)
      (hcond : cond st op) (hstep : op.run st = some st') : Run cond st'

theorem Run.mono {cond cond' : Ipc α → Op α → Prop} (hsub : ∀ st op, cond st op → cond' st op)
    (h : Run cond st) : Run cond' st := by
  induction h with
  | boot h => exact .boot h
  | step _ hallowed hcond hstep ih => exact .step ih hallowed (hsub _ _ hcond) hstep

/-! ## the kernel is consistent -/

theorem setMasks_kernel {l : List (Int × Nat × Finset PrivPtr)} :
    (l.foldl setMasks st).kernel = st.kernel := by
  induction l generalizing st with
  | nil => rfl
  | cons entry l ih =>
    rw [List.foldl_cons, ih]
    unfold setMasks
    split <;> rfl

theorem setMasks_mail {l : List (Int × Nat × Finset PrivPtr)} :
    (l.foldl setMasks st).mail = st.mail := by
  induction l generalizing st with
  | nil => rfl
  | cons entry l ih =>
    rw [List.foldl_cons, ih]
    unfold setMasks
    split <;> rfl

theorem boot_kernel {memory : ProcPtr → Message α} (h : boot memory = some st) :
    Minix.boot = some st.kernel := by
  unfold boot at h
  obtain ⟨s, hs, h⟩ := Option.bind_eq_some_iff.mp h
  cases h
  rw [setMasks_kernel]
  exact hs

/-- A message that is sent without blocking is handed over or refused. -/
theorem lockSend_consistent (h : Consistent st.kernel)
    (hstep : st.lockSend callerPtr dstE m = some (e, st')) : Consistent st'.kernel := by
  have hkernel := miniSend_kernel hstep
  unfold Minix.miniSend at hkernel
  obtain ⟨dst, -, hkernel⟩ := Option.bind_eq_some_iff.mp hkernel
  dsimp only at hkernel
  split at hkernel
  · rw [← (Prod.mk.inj (Option.some.inj hkernel)).2]
    exact h
  · split at hkernel
    · next hready =>
      obtain ⟨s, hunset, hkernel⟩ := Option.bind_eq_some_iff.mp hkernel
      rw [← (Prod.mk.inj (Option.some.inj hkernel)).2]
      exact h.unset hready.1.1 (by decide) (by decide) hunset
    · rw [Bool.not_true, if_neg Bool.false_ne_true] at hkernel
      rw [← (Prod.mk.inj (Option.some.inj hkernel)).2]
      exact h

theorem clearProc_kernel (h : st.clearProc rc = some st') :
    Minix.clearProc rc st.kernel = some st'.kernel := by
  unfold clearProc at h
  split at h
  · next hempty =>
    cases h
    unfold Minix.clearProc
    rw [if_pos hempty]
  · obtain ⟨s, hs, h⟩ := Option.bind_eq_some_iff.mp h
    cases h
    exact hs

theorem doFork_kernel {endpt slot : Int} (h : st.doFork endpt slot = some (e, st')) :
    Minix.doFork endpt slot st.kernel = some (e, st'.kernel) := by
  unfold doFork at h
  obtain ⟨⟨e₁, s⟩, hs, h⟩ := Option.bind_eq_some_iff.mp h
  rw [hs]
  dsimp only at h
  split at h
  · cases h
    split <;> rfl
  · cases h
    rfl

theorem clockHandler_consistent {ticks : Int} {timeout : Bool} (h : Consistent st.kernel)
    (hstep : st.clockHandler ticks timeout = some st') : Consistent st'.kernel := by
  obtain ⟨s, procPtr, hcharge, rfl | ⟨e, hnotify⟩⟩ := clockHandler_cases hstep
  · exact h.chargeTicks hcharge
  · have hs : Consistent { s with prevPtr := some procPtr } :=
      (h.chargeTicks hcharge).of_proc_eq rfl rfl rfl
    exact hs.lockNotify (lockNotify_kernel hnotify)

theorem doExit_cases {whoP endpt : Int} (h : st.doExit whoP endpt = some (e, st')) :
    st' = st ∨ ∃ rc, st.clearProc rc = some st' ∧
      if PM_PROC_NR = whoP ∧ endpt ≠ SELF then isokendpt st.kernel endpt = some rc
      else procAddr whoP = some rc := by
  unfold doExit at h
  split at h
  · next hpm =>
    split at h
    · cases h
      exact Or.inl rfl
    · next rc hrc =>
      obtain ⟨st₂, hclear, h⟩ := Option.bind_eq_some_iff.mp h
      cases h
      exact Or.inr ⟨rc, hclear, by rwa [if_pos hpm]⟩
  · next hpm =>
    obtain ⟨rc, hrc, h⟩ := Option.bind_eq_some_iff.mp h
    obtain ⟨st₂, hclear, h⟩ := Option.bind_eq_some_iff.mp h
    cases h
    exact Or.inr ⟨rc, hclear, by rwa [if_neg hpm]⟩

theorem op_consistent {op : Op α} (h : Consistent st.kernel) (hallowed : op.Allowed st)
    (hclean : op.Clean st) (hstep : op.run st = some st') : Consistent st'.kernel := by
  cases op with
  | sysCall callerPtr callNr srcDstE m pointerOk =>
    obtain ⟨⟨e, st₁⟩, hrun, rfl⟩ := Option.map_eq_some_iff.mp hstep
    rcases sysCall_cases hrun with rfl | ⟨function, nonBlocking, -, -, -, hkernel⟩
    · exact h
    · exact h.sysCall hallowed hkernel
  | lockSend procPtr dstE m =>
    obtain ⟨⟨e, st₁⟩, hrun, rfl⟩ := Option.map_eq_some_iff.mp hstep
    exact lockSend_consistent h hrun
  | lockNotify srcE dstE =>
    obtain ⟨⟨e, st₁⟩, hrun, rfl⟩ := Option.map_eq_some_iff.mp hstep
    exact h.lockNotify (lockNotify_kernel hrun)
  | genericHandler procNrE notifyId =>
    rcases genericHandler_cases hstep with rfl | ⟨rp, e, -, hnotify⟩
    · exact h
    · have hkernel := lockNotify_kernel hnotify
      exact Consistent.lockNotify h hkernel
  | sendSig procNr sigNr =>
    rcases sendSig_cases hstep with rfl | ⟨rp, e, -, -, hnotify⟩
    · exact h
    · have hkernel := lockNotify_kernel hnotify
      exact Consistent.lockNotify h hkernel
  | clockHandler ticks timeout => exact clockHandler_consistent h hstep
  | doFork endpt slot =>
    obtain ⟨⟨e, st₁⟩, hrun, rfl⟩ := Option.map_eq_some_iff.mp hstep
    exact h.doFork hclean.1 (doFork_kernel hrun)
  | doExit whoP endpt =>
    obtain ⟨⟨e, st₁⟩, hrun, rfl⟩ := Option.map_eq_some_iff.mp hstep
    rcases doExit_cases hrun with rfl | ⟨rc, hclear, -⟩
    · exact h
    · exact h.clearProc (clearProc_kernel hclear)
  | kernel op =>
    obtain ⟨s, hrun, hstep⟩ := Option.bind_eq_some_iff.mp hstep
    cases hstep
    refine h.op hallowed.1 ?_ hrun
    cases op <;> first
      | trivial
      | exact absurd hallowed.2 Bool.false_ne_true

theorem Run.consistent (h : Run Op.Clean st) : Consistent st.kernel := by
  induction h with
  | boot h => exact boot_consistent (boot_kernel h)
  | step _ hallowed hclean hstep ih => exact op_consistent ih hallowed hclean hstep

/-! ## the kernel without messages -/

theorem clockHandler_kernel {ticks : Int} {timeout : Bool}
    (h : st.clockHandler ticks timeout = some st') :
    Minix.clockHandler ticks timeout st.kernel = some st'.kernel := by
  unfold clockHandler at h
  obtain ⟨s, hcharge, h⟩ := Option.bind_eq_some_iff.mp h
  obtain ⟨procPtr, hproc, h⟩ := Option.bind_eq_some_iff.mp h
  refine Option.bind_eq_some_iff.mpr ⟨s, hcharge, Option.bind_eq_some_iff.mpr ⟨procPtr, hproc, ?_⟩⟩
  split at h
  · next hdue =>
    rw [if_pos hdue]
    obtain ⟨⟨e, st₁⟩, hnotify, h⟩ := Option.bind_eq_some_iff.mp h
    cases h
    exact Option.bind_eq_some_iff.mpr ⟨_, lockNotify_kernel hnotify, rfl⟩
  · next hdue =>
    rw [if_neg hdue]
    cases h
    rfl

theorem doExit_kernel {whoP endpt : Int} (h : st.doExit whoP endpt = some (e, st')) :
    Minix.doExit whoP endpt st.kernel = some (e, st'.kernel) := by
  unfold doExit at h
  unfold Minix.doExit
  by_cases hpm : PM_PROC_NR = whoP ∧ endpt ≠ SELF
  · rw [if_pos hpm] at h ⊢
    cases hrc : isokendpt st.kernel endpt with
    | none =>
      rw [hrc] at h
      cases h
      rfl
    | some rc =>
      rw [hrc] at h
      obtain ⟨st₂, hclear, h⟩ := Option.bind_eq_some_iff.mp h
      cases h
      dsimp only
      rw [clearProc_kernel hclear]
      rfl
  · rw [if_neg hpm] at h ⊢
    obtain ⟨rc, hrc, h⟩ := Option.bind_eq_some_iff.mp h
    obtain ⟨st₂, hclear, h⟩ := Option.bind_eq_some_iff.mp h
    cases h
    rw [hrc, Option.bind_eq_bind, Option.bind_some, clearProc_kernel hclear]
    rfl

/-- The operation is not the answer of a task. -/
def NoAnswer (_ : Ipc α) : Op α → Prop
  | .lockSend .. => False
  | _ => True

instance (st : Ipc α) (op : Op α) : Decidable (NoAnswer st op) := by
  unfold NoAnswer
  split <;> infer_instance

/-- **What happens with the messages and the masks** happens without them, if it changes anything. -/
theorem op_kernel {op : Op α} (hallowed : op.Allowed st) (hanswer : NoAnswer st op)
    (hstep : op.run st = some st') : st'.kernel = st.kernel ∨
      ∃ op' : Minix.Op, op'.Allowed st.kernel ∧ op'.run st.kernel = some st'.kernel := by
  cases op with
  | sysCall callerPtr callNr srcDstE m pointerOk =>
    obtain ⟨⟨e, st₁⟩, hrun, rfl⟩ := Option.map_eq_some_iff.mp hstep
    rcases sysCall_cases hrun with rfl | ⟨function, nonBlocking, -, -, -, hkernel⟩
    · exact Or.inl rfl
    · exact Or.inr ⟨.sysCall callerPtr function srcDstE nonBlocking, hallowed,
        Option.map_eq_some_iff.mpr ⟨_, hkernel, rfl⟩⟩
  | lockSend procPtr dstE m => exact hanswer.elim
  | lockNotify srcE dstE =>
    obtain ⟨⟨e, st₁⟩, hrun, rfl⟩ := Option.map_eq_some_iff.mp hstep
    exact Or.inr ⟨.lockNotify srcE dstE, trivial,
      Option.map_eq_some_iff.mpr ⟨_, lockNotify_kernel hrun, rfl⟩⟩
  | genericHandler procNrE notifyId =>
    rcases genericHandler_cases hstep with rfl | ⟨rp, e, -, hnotify⟩
    · exact Or.inl rfl
    · have hkernel := lockNotify_kernel hnotify
      exact Or.inr ⟨.lockNotify HARDWARE procNrE, trivial, Option.map_eq_some_iff.mpr ⟨_, hkernel, rfl⟩⟩
  | sendSig procNr sigNr =>
    rcases sendSig_cases hstep with rfl | ⟨rp, e, -, -, hnotify⟩
    · exact Or.inl rfl
    · have hkernel := lockNotify_kernel hnotify
      exact Or.inr ⟨.lockNotify SYSTEM _, trivial, Option.map_eq_some_iff.mpr ⟨_, hkernel, rfl⟩⟩
  | clockHandler ticks timeout =>
    exact Or.inr ⟨.clockHandler ticks timeout, trivial, clockHandler_kernel hstep⟩
  | doFork endpt slot =>
    obtain ⟨⟨e, st₁⟩, hrun, rfl⟩ := Option.map_eq_some_iff.mp hstep
    exact Or.inr ⟨.doFork endpt slot, trivial,
      Option.map_eq_some_iff.mpr ⟨_, doFork_kernel hrun, rfl⟩⟩
  | doExit whoP endpt =>
    obtain ⟨⟨e, st₁⟩, hrun, rfl⟩ := Option.map_eq_some_iff.mp hstep
    exact Or.inr ⟨.doExit whoP endpt, trivial,
      Option.map_eq_some_iff.mpr ⟨_, doExit_kernel hrun, rfl⟩⟩
  | kernel op =>
    obtain ⟨s, hrun, hstep⟩ := Option.bind_eq_some_iff.mp hstep
    cases hstep
    exact Or.inr ⟨op, hallowed.1, hrun⟩

/-- **A run with the messages and the masks** is one without them. -/
theorem Run.kernel (h : Run NoAnswer st) : Minix.Run (fun _ _ => True) st.kernel := by
  induction h with
  | boot h => exact .boot (boot_kernel h)
  | step _ hallowed hanswer hstep ih =>
    rcases op_kernel hallowed hanswer hstep with heq | ⟨op', hallowed', hstep'⟩
    · rw [heq]
      exact ih
    · exact .step ih hallowed' trivial hstep'

/-! ## computing a run -/

/-- The state behind the given operations, if each meets the condition and has a next state. -/
def execute (cond : Ipc α → Op α → Prop) [∀ st op, Decidable (cond st op)] :
    List (Op α) → Ipc α → Option (Ipc α)
  | [], st => some st
  | op :: ops, st =>
    if op.Allowed st ∧ cond st op then (op.run st).bind (execute cond ops) else none

theorem execute_run {cond : Ipc α → Op α → Prop} [∀ st op, Decidable (cond st op)] :
    ∀ {ops : List (Op α)} {st st' : Ipc α}, Run cond st → execute cond ops st = some st' →
      Run cond st'
  | [], st, st', h, hrun => by
    cases hrun
    exact h
  | op :: ops, st, st', h, hrun => by
    unfold execute at hrun
    split at hrun
    · next hcond =>
      obtain ⟨st₁, hstep, hrun⟩ := Option.bind_eq_some_iff.mp hrun
      exact execute_run (.step h hcond.1 hcond.2 hstep) hrun
    · cases hrun

/-- What is in the memory at first does not matter. -/
def blank : ProcPtr → Message Nat := fun _ => ⟨NONE, .user 0⟩

end Ipc

end Minix
