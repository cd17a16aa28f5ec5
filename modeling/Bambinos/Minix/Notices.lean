import Bambinos.Minix.Rendezvous

/-!
# No notification is lost

A bit that is set for an interrupt or a signal stays pending until a notification takes it along. As
long as the kernel tasks do not exit, the notification is pending where the bit is, and no system
process sleeps while a notification is pending for it.

* `Privileged` — the privileges of system processes are their own
* `Ipc.NoticesOk` — what holds of pending bits and notifications
* `no_notice_lost` — it does in every run
-/

namespace Minix

open Infra

variable {s s' s₁ : Kernel} {p q rp rc x : ProcPtr} {e src : Int}

/-! ## the privileges -/

/-- The kernel tasks whose notifications take bits along. -/
def IsTask (src : Int) : Prop := src = HARDWARE ∨ src = SYSTEM

instance (src : Int) : Decidable (IsTask src) :=
  inferInstanceAs (Decidable (src = HARDWARE ∨ src = SYSTEM))

/-- Such a task in the process table. -/
def taskOf (src : Int) : ProcPtr := if src = HARDWARE then 3 else 2

/-- The slot is in use. -/
def Live (s : Kernel) (p : ProcPtr) : Prop := .slotFree ∉ (s.proc p).rtsFlags

/-- The privileges of system processes are their own, and the kernel tasks have theirs. -/
structure Privileged (s : Kernel) : Prop where
  own : ∀ p q, Live s p → Live s q → (s.proc p).priv = (s.proc q).priv → (s.proc p).priv ≠ 0 → p = q
  sysProc : ∀ p, Live s p → (s.proc p).priv ≠ 0 → .sysProc ∈ (s.priv (s.proc p).priv).flags
  task : ∀ src, IsTask src → Live s (taskOf src) ∧ (s.proc (taskOf src)).endpoint = src ∧
    (s.proc (taskOf src)).nr = src ∧ (s.proc (taskOf src)).priv ≠ 0 ∧
    (s.priv (s.proc (taskOf src)).priv).procNr = src

/-- The process is blocked until any message comes, and takes notifications. -/
structure Asleep (s : Kernel) (p : ProcPtr) : Prop where
  receiving : .receiving ∈ (s.proc p).rtsFlags
  sending : .sending ∉ (s.proc p).rtsFlags
  any : (s.proc p).getfromE = ANY
  replyPending : (s.proc p).replyPending = false

/-- No privileges change, but what is pending. -/
structure SamePrivs (s s' : Kernel) : Prop where
  flags : ∀ id, (s'.priv id).flags = (s.priv id).flags
  procNr : ∀ id, (s'.priv id).procNr = (s.priv id).procNr
  priv : ∀ p, (s'.proc p).priv = (s.proc p).priv
  endpoint : ∀ p, (s'.proc p).endpoint = (s.proc p).endpoint
  nr : ∀ p, (s'.proc p).nr = (s.proc p).nr
  live : ∀ p, Live s' p ↔ Live s p

theorem SamePrivs.refl (s : Kernel) : SamePrivs s s :=
  ⟨fun _ => rfl, fun _ => rfl, fun _ => rfl, fun _ => rfl, fun _ => rfl, fun _ => Iff.rfl⟩

theorem Privileged.same (h : Privileged s) (hs : SamePrivs s s') : Privileged s' where
  own p q hp hq heq hne := by
    rw [hs.priv, hs.priv] at heq
    rw [hs.priv] at hne
    exact h.own p q ((hs.live p).mp hp) ((hs.live q).mp hq) heq hne
  sysProc p hp hne := by
    rw [hs.priv] at hne ⊢
    rw [hs.flags]
    exact h.sysProc p ((hs.live p).mp hp) hne
  task src hsrc := by
    obtain ⟨hlive, hendpoint, hnr, hne, hproc⟩ := h.task src hsrc
    refine ⟨(hs.live _).mpr hlive, ?_, ?_, ?_, ?_⟩
    · rw [hs.endpoint, hendpoint]
    · rw [hs.nr, hnr]
    · rwa [hs.priv]
    · rw [hs.priv, hs.procNr, hproc]

/-- Nobody falls asleep, and nothing that is pending changes. -/
structure Calm (s s' : Kernel) : Prop extends SamePrivs s s' where
  notifyPending : ∀ id, (s'.priv id).notifyPending = (s.priv id).notifyPending
  asleep : ∀ p, Asleep s' p → Asleep s p

theorem Calm.refl (s : Kernel) : Calm s s := ⟨SamePrivs.refl s, fun _ => rfl, fun _ => id⟩

theorem Calm.trans (h : Calm s s₁) (h' : Calm s₁ s') : Calm s s' where
  flags id := (h'.flags id).trans (h.flags id)
  procNr id := (h'.procNr id).trans (h.procNr id)
  priv p := (h'.priv p).trans (h.priv p)
  endpoint p := (h'.endpoint p).trans (h.endpoint p)
  nr p := (h'.nr p).trans (h.nr p)
  live p := (h'.live p).trans (h.live p)
  notifyPending id := (h'.notifyPending id).trans (h.notifyPending id)
  asleep p hp := h.asleep p (h'.asleep p hp)

/-- A field that whom a process waits for is no part of either. -/
def Remote {β : Type} (g : Proc → β) : Prop :=
  Apart g ∧ ∀ r a b, g { r with sendtoE := a, getfromE := b } = g r

/-- Only the flags of one process change, and what it waits for. -/
theorem SamePrivs.of_flags {flags : Finset RtsFlag} (hpriv : s'.priv = s.priv)
    (hfield : ∀ {β : Type} {g : Proc → β}, Remote g → ∀ r, g (s'.proc r) = g (s.proc r))
    (hflags : FlagsOf s s' rp flags)
    (hfree : .slotFree ∈ flags ↔ .slotFree ∈ (s.proc rp).rtsFlags) : SamePrivs s s' :=
  ⟨fun id => by rw [hpriv], fun id => by rw [hpriv],
    hfield ⟨fun _ _ _ _ _ _ _ => rfl, fun _ _ _ => rfl⟩,
    hfield ⟨fun _ _ _ _ _ _ _ => rfl, fun _ _ _ => rfl⟩,
    hfield ⟨fun _ _ _ _ _ _ _ => rfl, fun _ _ _ => rfl⟩,
    fun p => not_congr (hflags.mem_iff hfree p)⟩

/-- Whoever else is asleep has been asleep. -/
theorem Asleep.of_flags {flags : Finset RtsFlag} (h : Asleep s' p) (hp : p ≠ rp)
    (hreply : ∀ r, (s'.proc r).replyPending = (s.proc r).replyPending)
    (hget : (s'.proc p).getfromE = (s.proc p).getfromE)
    (hflags : FlagsOf s s' rp flags) : Asleep s p := by
  obtain ⟨h1, h2, h3, h4⟩ := h
  rw [hflags.2 p hp] at h1 h2
  rw [hget] at h3
  rw [hreply] at h4
  exact ⟨h1, h2, h3, h4⟩

theorem Calm.of_flags {flags : Finset RtsFlag} (hpriv : s'.priv = s.priv)
    (hfield : ∀ {β : Type} {g : Proc → β}, Apart g →
      (∀ r e, g { r with sendtoE := e } = g r) → ∀ r, g (s'.proc r) = g (s.proc r))
    (hflags : FlagsOf s s' rp flags)
    (hfree : .slotFree ∈ flags ↔ .slotFree ∈ (s.proc rp).rtsFlags)
    (hnot : Asleep s' rp → Asleep s rp) : Calm s s' := by
  have hget := hfield (g := Proc.getfromE) (fun _ _ _ _ _ _ _ => rfl) fun _ _ => rfl
  have hreply := hfield (g := Proc.replyPending) (fun _ _ _ _ _ _ _ => rfl) fun _ _ => rfl
  refine ⟨.of_flags hpriv (fun hg => hfield hg.1 fun r e => hg.2 r e r.getfromE) hflags hfree,
    fun id => by rw [hpriv], fun p hp => ?_⟩
  rcases eq_or_ne p rp with rfl | hne
  · exact hnot hp
  · exact hp.of_flags hne hreply (hget p) hflags

theorem Calm.unset {flag : RtsFlag} (hrun : Runnable s) (hflag : flag ∈ (s.proc rp).rtsFlags)
    (hne : flag ≠ .slotFree) (hstep : unset flag rp s = some s')
    (hnot : Asleep s' rp → Asleep s rp) : Calm s s' := by
  obtain ⟨-, -, hflags⟩ := unset_spec hrun hflag hstep
  refine .of_flags (unset_priv hstep) (fun hg _ => unset_apart hg hstep) hflags ?_ hnot
  rw [Finset.mem_erase]
  exact ⟨And.right, fun h => ⟨hne.symm, h⟩⟩

/-- A process that waited to hear goes on. -/
theorem Calm.wake (hrun : Runnable s) (hreceiving : .receiving ∈ (s.proc rp).rtsFlags)
    (hstep : Minix.unset .receiving rp s = some s') : Calm s s' := by
  refine .unset hrun hreceiving (by decide) hstep fun hasleep => ?_
  have hmem := hasleep.receiving
  rw [(unset_spec hrun hreceiving hstep).2.2.1] at hmem
  simp at hmem

theorem Calm.still (h : Still s s') : Calm s s' := by
  refine ⟨⟨fun id => by rw [h.priv], fun id => by rw [h.priv],
    h.field fun _ _ _ _ _ _ _ _ => rfl, h.field fun _ _ _ _ _ _ _ _ => rfl,
    h.field fun _ _ _ _ _ _ _ _ => rfl, fun p => not_congr (h.flags p _ (by simp))⟩,
    fun id => by rw [h.priv], fun p hp => ?_⟩
  obtain ⟨h1, h2, h3, h4⟩ := hp
  rw [h.flags p _ (by simp)] at h1 h2
  rw [h.field (g := Proc.getfromE) fun _ _ _ _ _ _ _ _ => rfl] at h3
  rw [h.field (g := Proc.replyPending) fun _ _ _ _ _ _ _ _ => rfl] at h4
  exact ⟨h1, h2, h3, h4⟩

theorem Calm.of_proc_eq (hpriv : s'.priv = s.priv) (hproc : s'.proc = s.proc) : Calm s s' := by
  refine ⟨⟨?_, ?_, ?_, ?_, ?_, fun p => ?_⟩, ?_, fun p hp => ?_⟩
  all_goals try intro k
  · rw [hpriv]
  · rw [hpriv]
  · rw [hproc]
  · rw [hproc]
  · rw [hproc]
  · unfold Live
    rw [hproc]
  · rw [hpriv]
  · obtain ⟨h1, h2, h3, h4⟩ := hp
    rw [hproc] at h1 h2 h3 h4
    exact ⟨h1, h2, h3, h4⟩

namespace Ipc

variable {α : Type} {st st' : Ipc α} {callerPtr dstPtr : ProcPtr} {srcE srcP dstE : Int}
  {m : Message α} {nonBlocking : Bool} {id : PrivPtr} {n n' : Exchange ProcPtr (Message α)}
  {E : Option (Int × PrivPtr)}

/-! ## pending bits -/

theorem deliverNotice_pending (h : st.deliverNotice src dstPtr = some st') {t : Int}
    (ht : IsTask t) (k : PrivPtr) : st'.pending t k =
      if t = src ∧ k = (st.kernel.proc dstPtr).priv then ∅ else st.pending t k := by
  unfold deliverNotice at h
  obtain ⟨srcPtr, -, h⟩ := Option.bind_eq_some_iff.mp h
  cases h
  unfold pending
  rcases ht with rfl | rfl
  · by_cases hsrc : HARDWARE = src
    · subst hsrc
      by_cases hk : k = (st.kernel.proc dstPtr).priv
      · simp [hk]
      · simp [hk, Function.update_of_ne]
    · simp [hsrc, Ne.symm hsrc]
  · have hne : SYSTEM ≠ HARDWARE := by decide
    by_cases hsrc : SYSTEM = src
    · subst hsrc
      by_cases hk : k = (st.kernel.proc dstPtr).priv
      · simp [hk, hne]
      · simp [hk, hne, Function.update_of_ne]
    · simp [hsrc, Ne.symm hsrc, hne]

theorem raise_pending {bit : Nat} {t : Int} (hsrc : IsTask src) (ht : IsTask t) (k : PrivPtr) :
    (st.raise src id bit).pending t k =
      if t = src ∧ k = id then insert bit (st.pending t k) else st.pending t k := by
  have hne : SYSTEM ≠ HARDWARE := by decide
  unfold raise pending
  rcases hsrc with rfl | rfl <;> rcases ht with rfl | rfl
  all_goals
    by_cases hk : k = id
    · simp [hk, hne, hne.symm]
    · simp [hk, hne, hne.symm]

/-- What holds of the bits and the notifications that are pending. The bits of `E` may have been set
just now. -/
structure NoticesOk (st : Ipc α) (E : Option (Int × PrivPtr)) : Prop where
  privileged : Privileged st.kernel
  bits : ∀ src id, IsTask src → E ≠ some (src, id) → st.pending src id ≠ ∅ →
    (st.kernel.proc (taskOf src)).priv ∈ (st.kernel.priv id).notifyPending
  asleep : ∀ p, Asleep st.kernel p → (st.kernel.proc p).priv ≠ 0 →
    (st.kernel.priv (st.kernel.proc p).priv).notifyPending = ∅

theorem NoticesOk.calm (h : st.NoticesOk E) (hc : Calm st.kernel st'.kernel)
    (hpending : ∀ src id, IsTask src → st'.pending src id = st.pending src id) :
    st'.NoticesOk E where
  privileged := h.privileged.same hc.toSamePrivs
  bits src id hsrc hE hbits := by
    rw [hpending src id hsrc] at hbits
    rw [hc.notifyPending, hc.priv]
    exact h.bits src id hsrc hE hbits
  asleep p hp hne := by
    rw [hc.priv] at hne ⊢
    rw [hc.notifyPending]
    exact h.asleep p (hc.asleep p hp) hne

/-! ## notifications -/

theorem miniNotify_ok (hs : Consistent st.kernel) (htidy : Tidy st.kernel) (h : st.NoticesOk E)
    (hdst : Live st.kernel dstPtr)
    (hE : ∀ k, E = some k →
      k = ((st.kernel.proc callerPtr).nr, (st.kernel.proc dstPtr).priv))
    (hstep : st.miniNotify callerPtr dstPtr = some (e, st')) : st'.NoticesOk none := by
  unfold miniNotify at hstep
  dsimp only at hstep
  split at hstep
  · next hready =>
    obtain ⟨st₁, hnotice, hstep⟩ := Option.bind_eq_some_iff.mp hstep
    obtain ⟨s, hunset, hstep⟩ := Option.bind_eq_some_iff.mp hstep
    cases hstep
    have hc : Calm st.kernel s := .wake hs.runnable hready.1.1 hunset
    refine ⟨h.privileged.same hc.toSamePrivs, fun src id hsrc _ hbits => ?_, fun p hp hne => ?_⟩
    · have hpending := deliverNotice_pending hnotice hsrc id
      have hold : st₁.pending src id ≠ ∅ := hbits
      rw [hpending] at hold
      split at hold
      · exact absurd rfl hold
      · next hnot =>
        dsimp only
        rw [hc.notifyPending, hc.priv]
        refine h.bits src id hsrc (fun he => hnot ?_) hold
        exact Prod.mk.inj (hE _ he)
    · dsimp only at hp hne ⊢
      rw [hc.priv] at hne ⊢
      rw [hc.notifyPending]
      exact h.asleep p (hc.asleep p hp) hne
  · next hready =>
    cases hstep
    have hsame : SamePrivs st.kernel (st.kernel.setPriv (st.kernel.proc dstPtr).priv fun p =>
        { p with notifyPending := insert (st.kernel.proc callerPtr).priv p.notifyPending }) := by
      refine ⟨fun id => ?_, fun id => ?_, fun _ => rfl, fun _ => rfl, fun _ => rfl, fun _ => Iff.rfl⟩
      all_goals
        unfold Kernel.setPriv
        rcases eq_or_ne id (st.kernel.proc dstPtr).priv with rfl | hid
        · simp
        · simp [hid]
    refine ⟨h.privileged.same hsame, fun src id hsrc _ hbits => ?_, fun p hp hne => ?_⟩
    · have hbits : st.pending src id ≠ ∅ := hbits
      show (st.kernel.proc (taskOf src)).priv ∈ _
      unfold Kernel.setPriv
      dsimp only
      by_cases hnew : E = some (src, id)
      · obtain ⟨hnr, rfl⟩ := Prod.mk.inj (hE _ hnew)
        have hcaller : taskOf src = callerPtr := by
          refine nr_inj hs.numbered ?_
          rw [(h.privileged.task src hsrc).2.2.1, hnr]
        rw [Function.update_self, hcaller]
        exact Finset.mem_insert_self _ _
      · have hold := h.bits src id hsrc hnew hbits
        rcases eq_or_ne id (st.kernel.proc dstPtr).priv with rfl | hid
        · rw [Function.update_self]
          exact Finset.mem_insert_of_mem hold
        · rwa [Function.update_of_ne hid]
    · have hp : Asleep st.kernel p := ⟨hp.receiving, hp.sending, hp.any, hp.replyPending⟩
      have hne : (st.kernel.proc p).priv ≠ 0 := hne
      show ((Function.update _ _ _ : PrivPtr → Priv) (st.kernel.proc p).priv).notifyPending = ∅
      have hlive : Live st.kernel p := by
        intro hfree
        have hreceiving := hp.receiving
        rw [htidy p hfree] at hreceiving
        simp at hreceiving
      have hother : (st.kernel.proc p).priv ≠ (st.kernel.proc dstPtr).priv := by
        intro heq
        have hpd := h.privileged.own p dstPtr hlive hdst heq hne
        rw [hpd] at hp
        refine hready ⟨⟨hp.receiving, hp.sending⟩, ?_, Or.inl hp.any⟩
        rw [hp.replyPending]
        rfl
      rw [Function.update_of_ne hother]
      exact h.asleep p hp hne

theorem live_of_isokendpt (h : st.Shows n) (hd : isokendpt st.kernel e = some dstPtr) :
    Live st.kernel dstPtr := (h.live dstPtr).mp (h.isokendpt_spec hd).1

theorem lockNotify_ok (hs : Consistent st.kernel) (hshows : st.Shows n) (h : st.NoticesOk none)
    (hstep : st.lockNotify srcE dstE = some (e, st')) : st'.NoticesOk none := by
  unfold lockNotify at hstep
  split at hstep
  · next src dst _ hdst =>
    exact miniNotify_ok hs hshows.tidy h (live_of_isokendpt hshows hdst) nofun hstep
  · cases hstep
    exact h

/-- A bit is set, and the process is notified. -/
theorem raise_ok {bit : Nat} (hs : Consistent st.kernel) (hshows : st.Shows n)
    (h : st.NoticesOk none) (hsrc : IsTask src) (hdst : isokendpt st.kernel dstE = some dstPtr)
    (hstep : (st.raise src (st.kernel.proc dstPtr).priv bit).lockNotify src dstE =
      some (e, st')) : st'.NoticesOk none := by
  have hraised : (st.raise src (st.kernel.proc dstPtr).priv bit).NoticesOk
      (some (src, (st.kernel.proc dstPtr).priv)) := by
    refine ⟨h.privileged, fun t k ht hE hbits => ?_, h.asleep⟩
    rw [raise_pending hsrc ht] at hbits
    rw [if_neg] at hbits
    · exact h.bits t k ht nofun hbits
    · rintro ⟨rfl, rfl⟩
      exact hE rfl
  obtain ⟨hlive, hendpoint, hnr, -, -⟩ := h.privileged.task src hsrc
  have htask : isokendpt st.kernel src = some (taskOf src) := by
    have hself := hshows.isokendpt_endpoint hs.numbered ((hshows.live _).mpr hlive)
    rwa [hendpoint] at hself
  unfold lockNotify at hstep
  rw [show isokendpt (st.raise src (st.kernel.proc dstPtr).priv bit).kernel src = _ from htask,
    show isokendpt (st.raise src (st.kernel.proc dstPtr).priv bit).kernel dstE = _ from hdst] at hstep
  have hs' : Consistent (st.raise src (st.kernel.proc dstPtr).priv bit).kernel := hs
  have hlive' : Live st.kernel dstPtr := live_of_isokendpt hshows hdst
  refine miniNotify_ok hs' hshows.tidy hraised hlive' (fun k hk => ?_) hstep
  rw [← Option.some.inj hk, show ((st.raise src (st.kernel.proc dstPtr).priv bit).kernel.proc
    (taskOf src)).nr = src from hnr]
  rfl

/-! ## sending -/

theorem miniSend_ok (hs : Consistent st.kernel) (h : st.NoticesOk none)
    (hcaller : (st.kernel.proc callerPtr).rtsFlags = ∅)
    (hstep : st.miniSend callerPtr dstE m nonBlocking = some (e, st')) : st'.NoticesOk none := by
  unfold miniSend at hstep
  obtain ⟨dst, -, hstep⟩ := Option.bind_eq_some_iff.mp hstep
  dsimp only at hstep
  split at hstep
  · cases hstep
    exact h
  · split at hstep
    · next hready =>
      obtain ⟨s, hunset, hstep⟩ := Option.bind_eq_some_iff.mp hstep
      cases hstep
      exact h.calm (.wake hs.runnable hready.1.1 hunset) fun _ _ _ => rfl
    · split at hstep
      · obtain ⟨s₁, hblock, hstep⟩ := Option.bind_eq_some_iff.mp hstep
        obtain ⟨⟨place, z⟩, -, hstep⟩ := Option.bind_eq_some_iff.mp hstep
        cases hstep
        obtain ⟨-, -, hflags₁⟩ := block_spec hs.runnable hblock
        generalize hs' : (s₁.setProc callerPtr fun r => { r with sendtoE := dstE }).addCaller dst
          place callerPtr = s'
        have hfield : ∀ {β : Type} {g : Proc → β},
            (∀ r c q e, g { r with callerQ := c, qLink := q, sendtoE := e } = g r) → ∀ r,
            g (s'.proc r) = g (s₁.proc r) := by
          intro β g hg r
          rw [← hs', addCaller_field (g := g) (fun p c => hg p c p.qLink p.sendtoE)
            fun p q => hg p p.callerQ q p.sendtoE]
          exact Kernel.setProc_field (g := g) (hg _ (s₁.proc callerPtr).callerQ
            (s₁.proc callerPtr).qLink dstE) r
        have hflags : FlagsOf st.kernel s' callerPtr
            (insert .sending (st.kernel.proc callerPtr).rtsFlags) := by
          refine ⟨?_, fun r hr => ?_⟩
          · rw [hfield (g := Proc.rtsFlags) fun _ _ _ _ => rfl]
            exact hflags₁.1
          · rw [hfield (g := Proc.rtsFlags) fun _ _ _ _ => rfl]
            exact hflags₁.2 r hr
        have hpriv : s'.priv = st.kernel.priv := by
          rw [← hs']
          unfold Kernel.addCaller
          rw [Kernel.setProc_priv, setCallerLink_priv, Kernel.setProc_priv, block_priv hblock]
        refine h.calm (.of_flags hpriv (fun {β g} hg hto r => ?_) hflags (by simp [hcaller])
          fun hasleep => ?_) fun _ _ _ => rfl
        · rw [hfield (g := g) fun r c q e => ?_, block_apart hg hblock]
          have hlink := hg { r with sendtoE := e } r.rtsFlags r.nextready r.ticksLeft r.priority c q
          exact hlink.trans (hto r e)
        · have hnot := hasleep.sending
          rw [hflags.1] at hnot
          exact absurd (Finset.mem_insert_self _ _) hnot
      · cases hstep
        exact h

/-! ## receiving -/

theorem mem_firstInChunk {map : Finset PrivPtr} {chunk : Nat} (h : firstInChunk map chunk = none)
    (i : PrivPtr) (hi : i.val / 16 = chunk) : i ∉ map := by
  have hnot := List.find?_eq_none.mp h i (List.mem_finRange i)
  rw [decide_eq_true_iff] at hnot
  exact fun hmem => hnot ⟨hi, hmem⟩

/-- If any notification will do and none is found, there is none. -/
theorem pendingNotify_any {s : Kernel} {map : Finset PrivPtr}
    (h : pendingNotify s map ANY srcP = none) : map = ∅ := by
  unfold pendingNotify at h
  rw [List.findSome?_eq_none_iff] at h
  rw [Finset.eq_empty_iff_forall_notMem]
  intro i
  have hlt : i.val < 32 := i.isLt
  have hchunk := h (i.val / 16) (List.mem_range.mpr (by omega))
  have hnone : firstInChunk map (i.val / 16) = none := by
    rw [Option.eq_none_iff_forall_ne_some]
    simpa using hchunk
  exact mem_firstInChunk hnone i rfl

/-- The process waits, and nothing is pending if it falls asleep. -/
theorem waitMessage_ok (hs : Consistent st.kernel) (h : st.NoticesOk none)
    (hnone : srcE = ANY → (st.kernel.proc callerPtr).replyPending = false →
      .sending ∉ (st.kernel.proc callerPtr).rtsFlags →
      (st.kernel.priv (st.kernel.proc callerPtr).priv).notifyPending = ∅)
    (hstep : st.waitMessage callerPtr srcE m nonBlocking = some (e, st')) : st'.NoticesOk none := by
  unfold waitMessage at hstep
  split at hstep
  · obtain ⟨s', hblock, hstep⟩ := Option.bind_eq_some_iff.mp hstep
    cases hstep
    have hrun : Runnable (st.kernel.setProc callerPtr fun r => { r with getfromE := srcE }) :=
      hs.runnable.setProc rfl rfl rfl rfl
    obtain ⟨-, -, hflags₁⟩ := block_spec hrun hblock
    have hset : ∀ r, ((st.kernel.setProc callerPtr fun r =>
        { r with getfromE := srcE }).proc r).rtsFlags = (st.kernel.proc r).rtsFlags :=
      Kernel.setProc_field (g := Proc.rtsFlags) rfl
    have hflags : FlagsOf st.kernel s' callerPtr
        (insert .receiving (st.kernel.proc callerPtr).rtsFlags) := by
      refine ⟨?_, fun r hr => ?_⟩
      · rw [hflags₁.1, hset]
      · rw [hflags₁.2 r hr, hset]
    have hpriv : s'.priv = st.kernel.priv := (block_priv hblock).trans rfl
    have hfield : ∀ {β : Type} {g : Proc → β}, Remote g → ∀ r,
        g (s'.proc r) = g (st.kernel.proc r) := by
      intro β g hg r
      rw [block_apart hg.1 hblock]
      exact Kernel.setProc_field (g := g) (hg.2 _ (st.kernel.proc callerPtr).sendtoE srcE) r
    have hsame : SamePrivs st.kernel s' := .of_flags hpriv hfield hflags (by simp)
    have hreply := hfield (g := Proc.replyPending) ⟨fun _ _ _ _ _ _ _ => rfl, fun _ _ _ => rfl⟩
    refine ⟨h.privileged.same hsame, fun src id hsrc hE hbits => ?_, fun p hp hne => ?_⟩
    all_goals dsimp only at *
    · rw [hpriv, hsame.priv]
      exact h.bits src id hsrc hE hbits
    · rw [hsame.priv] at hne ⊢
      rw [hpriv]
      rcases eq_or_ne p callerPtr with rfl | hpc
      · refine hnone ?_ (by rw [← hreply, hp.replyPending]) fun hsending => hp.sending ?_
        · rw [← hp.any, block_apart (g := Proc.getfromE) (fun _ _ _ _ _ _ _ => rfl) hblock,
            Kernel.setProc_self]
        · rw [hflags.1]
          exact Finset.mem_insert_of_mem hsending
      · refine h.asleep p (hp.of_flags hpc hreply ?_ hflags) hne
        rw [block_apart (g := Proc.getfromE) (fun _ _ _ _ _ _ _ => rfl) hblock,
          Kernel.setProc_of_ne hpc]
  · cases hstep
    exact h

/-- A sender that goes on is not asleep. -/
theorem not_asleep_of_sending {s s' : Kernel} (h : Rendezvous s) (hn : Numbered s)
    (hsending : .sending ∈ (s.proc x).rtsFlags)
    (hreceiving : .receiving ∈ (s'.proc x).rtsFlags → .receiving ∈ (s.proc x).rtsFlags)
    (hget : (s'.proc x).getfromE = (s.proc x).getfromE) : ¬ Asleep s' x := by
  intro hasleep
  obtain ⟨d, hd⟩ := h.sendto x hsending
  have hany := hasleep.any
  rw [hget, h.paired x hsending (hreceiving hasleep.receiving), ← (isokendpt_endpoint hd).1] at hany
  exact endpoint_ne_any hn d hany

theorem takeMessage_ok {src : Option ProcPtr} (hs : Consistent st.kernel) (hshows : st.Shows n)
    (hok : n.Ok) (h : st.NoticesOk none) (hsource : Source st.kernel srcE src)
    (hidle : n.Idle callerPtr)
    (hnone : srcE = ANY → (st.kernel.proc callerPtr).replyPending = false →
      .sending ∉ (st.kernel.proc callerPtr).rtsFlags →
      (st.kernel.priv (st.kernel.proc callerPtr).priv).notifyPending = ∅)
    (hstep : st.takeMessage callerPtr srcE (if srcE = ANY then ANY else endpointP srcE) m
      nonBlocking = some (e, st')) : st'.NoticesOk none := by
  unfold takeMessage at hstep
  dsimp only at hstep
  obtain ⟨⟨place, z⟩, hseek, hstep⟩ := Option.bind_eq_some_iff.mp hstep
  cases z with
  | none => exact waitMessage_ok hs h hnone hstep
  | some x =>
    obtain ⟨q₁, q₂, m', hq, -⟩ := seek_split hs hshows.toTalks hidle.live hsource hseek
    obtain ⟨s₁, hunset, hstep⟩ := Option.bind_eq_some_iff.mp hstep
    cases hstep
    have hsending : .sending ∈ (st.kernel.proc x).rtsFlags := by
      refine ((hshows.sends_iff (d := callerPtr) hok hs.numbered).mp ?_).1
      rw [hok.queued, hq]
      simp
    obtain ⟨-, -, hflags⟩ := unset_spec hs.runnable hsending hunset
    have hlink : Calm s₁ (s₁.setCallerLink callerPtr place (s₁.proc x).qLink) := by
      have hfield : ∀ {β : Type} {g : Proc → β}, (∀ p c q, g { p with
          callerQ := c, qLink := q } = g p) → ∀ r,
          g ((s₁.setCallerLink callerPtr place (s₁.proc x).qLink).proc r) = g (s₁.proc r) :=
        fun hg => setCallerLink_field (fun p c => hg p c p.qLink) fun p q => hg p p.callerQ q
      refine .of_flags setCallerLink_priv (fun {β g} hg _ r => ?_)
        ⟨hfield (g := Proc.rtsFlags) (fun _ _ _ => rfl) x,
          fun r _ => hfield (g := Proc.rtsFlags) (fun _ _ _ => rfl) r⟩ Iff.rfl fun hasleep => ?_
      · exact hfield (fun p c q => hg p p.rtsFlags p.nextready p.ticksLeft p.priority c q) r
      · obtain ⟨h1, h2, h3, h4⟩ := hasleep
        rw [hfield (g := Proc.rtsFlags) fun _ _ _ => rfl] at h1 h2
        rw [hfield (g := Proc.getfromE) fun _ _ _ => rfl] at h3
        rw [hfield (g := Proc.replyPending) fun _ _ _ => rfl] at h4
        exact ⟨h1, h2, h3, h4⟩
    have hwake : Calm st.kernel s₁ := by
      refine .unset hs.runnable hsending (by decide) hunset fun hasleep => ?_
      refine absurd hasleep (not_asleep_of_sending (hshows.rendezvous hok hs.numbered) hs.numbered
        hsending (fun hmem => ?_) (unset_getfromE hunset x))
      rw [hflags.1] at hmem
      exact Finset.mem_of_mem_erase hmem
    exact h.calm (hwake.trans hlink) fun _ _ _ => rfl

theorem miniReceive_ok (hs : Consistent st.kernel) (hshows : st.Shows n) (hok : n.Ok)
    (h : st.NoticesOk none)
    (hcaller : n.Idle callerPtr ∨ .sending ∈ (st.kernel.proc callerPtr).rtsFlags)
    (hstep : st.miniReceive callerPtr srcE m nonBlocking = some (e, st')) : st'.NoticesOk none := by
  unfold miniReceive at hstep
  obtain ⟨dead, hdead, hstep⟩ := Option.bind_eq_some_iff.mp hstep
  obtain ⟨src, hsource, -⟩ := source_of_sourceDead hshows.toTalks hdead
  dsimp only at hstep
  split at hstep
  · cases hstep
    exact h
  · split at hstep
    · next hsending =>
      have hidle := hcaller.resolve_right hsending
      split at hstep
      · next srcId hfound =>
        obtain ⟨st₁, hnotice, hstep⟩ := Option.bind_eq_some_iff.mp hstep
        cases hstep
        have hkernel := (deliverNotice_spec hnotice).1
        dsimp only at hkernel
        have hsame : SamePrivs st.kernel st'.kernel := by
          rw [hkernel]
          refine ⟨fun id => ?_, fun id => ?_, fun _ => rfl, fun _ => rfl, fun _ => rfl,
            fun _ => Iff.rfl⟩
          all_goals
            unfold Kernel.setPriv
            rcases eq_or_ne id (st.kernel.proc callerPtr).priv with rfl | hid
            · simp
            · simp [hid]
        refine ⟨h.privileged.same hsame, fun t id ht _ hbits => ?_, fun p hp hne => ?_⟩
        · rw [deliverNotice_pending hnotice ht] at hbits
          split at hbits
          · exact absurd rfl hbits
          · next hnot =>
            have hold := h.bits t id ht nofun hbits
            rw [hsame.priv, hkernel]
            unfold Kernel.setPriv
            dsimp only
            rcases eq_or_ne id (st.kernel.proc callerPtr).priv with rfl | hid
            · rw [Function.update_self]
              refine Finset.mem_erase.mpr ⟨fun heq => hnot ⟨?_, rfl⟩, hold⟩
              rw [← heq, (h.privileged.task t ht).2.2.2.2]
            · rwa [Function.update_of_ne hid]
        · rw [hsame.priv] at hne ⊢
          have hempty := h.asleep p ?_ hne
          · rw [hkernel]
            unfold Kernel.setPriv
            dsimp only
            rcases eq_or_ne (st.kernel.proc p).priv (st.kernel.proc callerPtr).priv with heq | hid
            · rw [heq, Function.update_self]
              dsimp only
              rw [← heq, hempty, Finset.erase_empty]
            · rwa [Function.update_of_ne hid]
          · rw [hkernel] at hp
            exact ⟨hp.receiving, hp.sending, hp.any, hp.replyPending⟩
      · next hfound =>
        refine takeMessage_ok hs hshows hok h hsource hidle (fun hany hreply _ => ?_) hstep
        rw [hreply, if_neg Bool.false_ne_true, hany] at hfound
        exact pendingNotify_any hfound
    · next hsending =>
      exact waitMessage_ok hs h (fun _ _ hnot => absurd (not_not.mp hsending) hnot) hstep

/-! ## `sys_call` -/

theorem setReplyPending_ok {b : Bool} (h : st.NoticesOk none)
    (hcaller : (st.kernel.proc callerPtr).rtsFlags = ∅) :
    (st.setReplyPending callerPtr b).NoticesOk none := by
  have hflags : ∀ r, ((st.setReplyPending callerPtr b).kernel.proc r).rtsFlags =
      (st.kernel.proc r).rtsFlags := setReplyPending_field (g := Proc.rtsFlags) fun _ _ => rfl
  refine h.calm ⟨⟨fun _ => rfl, fun _ => rfl, setReplyPending_field fun _ _ => rfl,
    setReplyPending_field fun _ _ => rfl, setReplyPending_field fun _ _ => rfl, fun p => ?_⟩,
    fun _ => rfl, fun p hp => ?_⟩ fun _ _ _ => rfl
  · unfold Live
    rw [hflags]
  · obtain ⟨h1, h2, h3, h4⟩ := hp
    rw [hflags] at h1 h2
    have hne : p ≠ callerPtr := by
      rintro rfl
      rw [hcaller] at h1
      exact absurd h1 (Finset.notMem_empty _)
    rw [setReplyPending_kernel, Kernel.setProc_of_ne hne] at h3 h4
    exact ⟨h1, h2, h3, h4⟩

theorem sysCall_ok {callNr : Nat} {pointerOk : Bool} (hs : Consistent st.kernel)
    (hshows : st.Shows n) (hok : n.Ok) (h : st.NoticesOk none)
    (hcaller : (st.kernel.proc callerPtr).rtsFlags = ∅)
    (hstep : st.sysCall callerPtr callNr srcE m pointerOk = some (e, st')) :
    st'.NoticesOk none := by
  rcases sysCall_cases hstep with rfl | ⟨function, nonBlocking, hchecks, hfunction, hperform, -⟩
  · exact h
  · rw [functionOf_val hfunction] at hchecks
    have hidle := hshows.idle hcaller
    unfold perform at hperform
    cases function with
    | send => exact miniSend_ok hs h hcaller hperform
    | receive =>
      exact miniReceive_ok (setReplyPending_consistent hs) (setReplyPending_shows hshows) hok
        (setReplyPending_ok h hcaller) (Or.inl hidle) hperform
    | sendrec =>
      obtain ⟨⟨result, st₁⟩, hsend, hperform⟩ := Option.bind_eq_some_iff.mp hperform
      have hs₁ : Consistent (st.setReplyPending callerPtr true).kernel :=
        setReplyPending_consistent hs
      have hcaller₁ : ((st.setReplyPending callerPtr true).kernel.proc callerPtr).rtsFlags = ∅ := by
        rw [← hcaller]
        exact setReplyPending_field (g := Proc.rtsFlags) (fun _ _ => rfl) callerPtr
      have h₁ := miniSend_ok hs₁ (setReplyPending_ok h hcaller) hcaller₁ hsend
      obtain ⟨d, n₁, hreply, hs₂, hok₁, -, hsent⟩ :=
        sendrec_reply hs hshows hok hcaller hchecks hsend
      dsimp only at hperform
      split at hperform
      · cases hperform
        exact h₁
      · next hresult =>
        refine miniReceive_ok hs₂ hreply.1 hok₁ h₁ ?_ hperform
        cases hsent (not_not.mp hresult) with
        | handed hidle => exact Or.inl hidle
        | queued hsends =>
          exact Or.inr ((hreply.1.sends_iff hok₁ hs₂.numbered).mp hsends).1
    | notify =>
      obtain ⟨d, hd, hperform⟩ := Option.bind_eq_some_iff.mp hperform
      have hany : srcE ≠ ANY := by
        rintro rfl
        rw [procAddr_any] at hd
        cases hd
      obtain ⟨d', hd'⟩ := Option.ne_none_iff_exists'.mp fun hnone =>
        checks_endpoint hchecks ⟨hany, by decide, hnone⟩
      have heq : d' = d := by
        rw [isokendpt_procAddr hd'] at hd
        exact Option.some.inj hd
      exact miniNotify_ok hs hshows.tidy h (live_of_isokendpt hshows (heq ▸ hd')) nofun hperform
    | echo =>
      cases hperform
      exact h.calm (Calm.refl _) fun _ _ _ => rfl

/-! ## processes come and go -/

theorem childOf_priv {s : Kernel} {rpp rpc : ProcPtr} {slot : Int} (h : Privileged s)
    (hrpp : Live s rpp) : (childOf s rpp rpc slot).priv = 0 := by
  unfold childOf
  dsimp only
  split
  · rfl
  · next hnot =>
    by_contra hne
    exact hnot (decide_eq_true (h.sysProc rpp hrpp hne))

/-- A child takes the privileges of no system process. -/
theorem child_ok {rpp rpc : ProcPtr} {s : Kernel} (h : st.NoticesOk none)
    (hrpp : Live st.kernel rpp) (hfree : ¬ Live st.kernel rpc) (hs : s =
      st.kernel.setProc rpc fun _ => childOf st.kernel rpp rpc (rpc.val - NR_TASKS)) :
    NoticesOk { st with kernel := s } none := by
  have hself : s.proc rpc = childOf st.kernel rpp rpc (rpc.val - NR_TASKS) := by
    rw [hs]
    exact Kernel.setProc_self
  have helse : ∀ p, p ≠ rpc → s.proc p = st.kernel.proc p := fun p hp => by
    rw [hs]
    exact Kernel.setProc_of_ne hp
  have hpriv : s.priv = st.kernel.priv := by
    rw [hs]
    rfl
  have hzero : (s.proc rpc).priv = 0 := by
    rw [hself]
    exact childOf_priv h.privileged hrpp
  have hne : ∀ {p}, (s.proc p).priv ≠ 0 → p ≠ rpc := by
    rintro p hp rfl
    exact hp hzero
  have hlive : ∀ {p}, p ≠ rpc → Live s p → Live st.kernel p := by
    intro p hp hlive
    unfold Live at hlive
    rwa [helse p hp] at hlive
  have htask : ∀ src, IsTask src → taskOf src ≠ rpc := by
    rintro src hsrc rfl
    exact hfree (h.privileged.task src hsrc).1
  refine ⟨⟨fun p q hp hq heq hp0 => ?_, fun p hp hp0 => ?_, fun src hsrc => ?_⟩,
    fun src id hsrc hE hbits => ?_, fun p hp hp0 => ?_⟩
  all_goals dsimp only at *
  · have hp' := hne hp0
    have hq' := hne (heq ▸ hp0)
    rw [helse p hp'] at heq hp0
    rw [helse q hq'] at heq
    exact h.privileged.own p q (hlive hp' hp) (hlive hq' hq) heq hp0
  · have hp' := hne hp0
    rw [helse p hp'] at hp0 ⊢
    rw [hpriv]
    exact h.privileged.sysProc p (hlive hp' hp) hp0
  · have hne' := htask src hsrc
    unfold Live
    rw [helse _ hne', hpriv]
    exact h.privileged.task src hsrc
  · rw [helse _ (htask src hsrc), hpriv]
    exact h.bits src id hsrc hE hbits
  · have hp' := hne hp0
    rw [helse p hp'] at hp0 ⊢
    rw [hpriv]
    obtain ⟨h1, h2, h3, h4⟩ := hp
    rw [helse p hp'] at h1 h2 h3 h4
    exact h.asleep p ⟨h1, h2, h3, h4⟩ hp0

theorem doFork_ok {endpt slot : Int} (hshows : st.Shows n) (hok : n.Ok)
    (hclean : CleanFork st.kernel endpt) (h : st.NoticesOk none)
    (hstep : st.doFork endpt slot = some (e, st')) : st'.NoticesOk none := by
  obtain ⟨-, hpending, -, -⟩ := doFork_rest hstep
  rcases doFork_cases (doFork_kernel hstep) with ⟨hsame, -⟩ | ⟨rpp, rpc, hrpp, -, hfree, -, hs'⟩
  · exact h.calm (.of_proc_eq (by rw [hsame]) (by rw [hsame])) fun _ _ _ => by rw [hpending]
  · obtain ⟨hlive, -⟩ := hshows.isokendpt_spec hrpp
    have hsends := (hshows.sends_eq_none_iff hlive).mpr (hclean.2 rpp hrpp)
    have hdead : ¬ n.live rpc := by rwa [← hshows.alive_iff]
    have htalks := hshows.toTalks.child hok hlive hdead hsends (hclean.1 rpp hrpp).1
    have h₁ := child_ok h ((hshows.live rpp).mp hlive)
      (fun hrpc : Live _ rpc => hdead ((hshows.live rpc).mpr hrpc)) rfl
    refine h₁.calm (Calm.still ?_) fun _ _ _ => by rw [hpending]; rfl
    rw [hs']
    exact .set htalks.tidy rfl

/-- Nothing is lost with a process that is no kernel task. -/
theorem clearProc_ok {rc : ProcPtr} (hs : Consistent st.kernel) (hshows : st.Shows n)
    (hok : n.Ok) (h : st.NoticesOk none) (hrc : ∀ src, IsTask src → taskOf src ≠ rc)
    (hstep : st.clearProc rc = some st') : st'.NoticesOk none := by
  unfold clearProc at hstep
  split at hstep
  · cases hstep
    exact h
  · next hempty =>
    obtain ⟨s, hkernel, hstep⟩ := Option.bind_eq_some_iff.mp hstep
    cases hstep
    have hlive : n.live rc := by
      rw [← hshows.alive_iff]
      exact not_not.mp fun hdead => hempty (isempty_iff.mpr hdead)
    have hc := hshows.toTalks.cleared hok hs hlive hkernel
    obtain ⟨s₁, hdrops, hpriv⟩ := hc.priv
    have hfield := hc.field (g := Proc.priv) fun _ _ _ _ _ _ _ => rfl
    have hlive' : ∀ p, Live s p ↔ Live st.kernel p ∧ p ≠ rc := by
      intro p
      unfold Live
      rcases eq_or_ne p rc with rfl | hp
      · rw [hc.free]
        simp
      · rw [hc.flags p hp, mem_alertedFlags_slotFree]
        exact ⟨fun hmem => ⟨hmem, hp⟩, And.left⟩
    have hflags : ∀ id, (s.priv id).flags = (st.kernel.priv id).flags := by
      intro id
      rcases hpriv id with he | ⟨-, he⟩ <;> rw [he] <;> exact hdrops.flags id
    have hnotify : ∀ id, (s.priv id).notifyPending = (s₁.priv id).notifyPending := by
      intro id
      rcases hpriv id with he | ⟨-, he⟩ <;> rw [he]
    have hother : ∀ src, IsTask src →
        (st.kernel.proc (taskOf src)).priv ≠ (st.kernel.proc rc).priv := by
      intro src hsrc heq
      obtain ⟨htask, -, -, hne, -⟩ := h.privileged.task src hsrc
      exact hrc src hsrc (h.privileged.own _ _ htask ((hshows.live rc).mp hlive) heq hne)
    refine ⟨⟨fun p q hp hq heq hne => ?_, fun p hp hne => ?_, fun src hsrc => ?_⟩,
      fun src id hsrc hE hbits => ?_, fun p hp hne => ?_⟩
    all_goals dsimp only at *
    · rw [hfield, hfield] at heq
      rw [hfield] at hne
      exact h.privileged.own p q ((hlive' p).mp hp).1 ((hlive' q).mp hq).1 heq hne
    · rw [hfield] at hne ⊢
      rw [hflags]
      exact h.privileged.sysProc p ((hlive' p).mp hp).1 hne
    · obtain ⟨htask, hendpoint, hnr, hne, hproc⟩ := h.privileged.task src hsrc
      refine ⟨(hlive' _).mpr ⟨htask, hrc src hsrc⟩, ?_, ?_, ?_, ?_⟩
      · rw [hc.endpoint, hendpoint]
      · rw [hc.field (g := Proc.nr) fun _ _ _ _ _ _ _ => rfl, hnr]
      · rwa [hfield]
      · rw [hfield]
        rcases hpriv (st.kernel.proc (taskOf src)).priv with he | ⟨he, -⟩
        · rw [he, hdrops.procNr, hproc]
        · exact absurd he (hother src hsrc)
    · rw [hfield, hnotify]
      exact hdrops.others id _ (h.bits src id hsrc hE hbits) (hother src hsrc)
    · rw [hfield] at hne ⊢
      rw [hnotify, ← Finset.subset_empty]
      have hprc : p ≠ rc := by
        rintro rfl
        have hreceiving := hp.receiving
        rw [hc.free] at hreceiving
        simp at hreceiving
      have hreceiving : .receiving ∈ (st.kernel.proc p).rtsFlags := by
        have hmem := hp.receiving
        rw [hc.flags p hprc, mem_alertedFlags_receiving] at hmem
        exact hmem.1
      have hsending : .sending ∉ (st.kernel.proc p).rtsFlags := fun hsending =>
        not_asleep_of_sending (hshows.rendezvous hok hs.numbered) hs.numbered hsending
          (fun _ => hreceiving) (hc.getfromE p) hp
      have hasleep : Asleep st.kernel p := by
        refine ⟨hreceiving, hsending, ?_, ?_⟩
        · rw [← hp.any, hc.getfromE]
        · rw [← hp.replyPending, hc.field (g := Proc.replyPending) fun _ _ _ _ _ _ _ => rfl]
      rw [← h.asleep p hasleep hne]
      exact hdrops.fewer _

/-! ## runs -/

/-- A kernel task does not exit. -/
def Op.TasksStay (st : Ipc α) : Op α → Prop
  | .doExit whoP endpt =>
    if PM_PROC_NR = whoP ∧ endpt ≠ SELF then
      ∀ rc ∈ isokendpt st.kernel endpt, iskerneln (st.kernel.proc rc).nr = false
    else iskerneln whoP = false
  | _ => True

instance (st : Ipc α) (op : Op α) : Decidable (op.TasksStay st) :=
  match op with
  | .doExit whoP endpt =>
    inferInstanceAs (Decidable (if PM_PROC_NR = whoP ∧ endpt ≠ SELF then
      ∀ rc ∈ isokendpt st.kernel endpt, iskerneln (st.kernel.proc rc).nr = false
      else iskerneln whoP = false))
  | .sysCall .. | .lockSend .. | .lockNotify .. | .genericHandler .. | .sendSig ..
  | .clockHandler .. | .doFork .. | .kernel .. => inferInstanceAs (Decidable True)

theorem op_ok {op : Op α} (hs : Consistent st.kernel) (hshows : st.Shows n) (hok : n.Ok)
    (h : st.NoticesOk none) (hallowed : op.Allowed st) (hclean : op.Clean st)
    (hstay : op.TasksStay st) (hstep : op.run st = some st') : st'.NoticesOk none := by
  cases op with
  | sysCall callerPtr callNr srcDstE m pointerOk =>
    obtain ⟨⟨e, st₁⟩, hrun, rfl⟩ := Option.map_eq_some_iff.mp hstep
    exact sysCall_ok hs hshows hok h hallowed hrun
  | lockSend procPtr dstE m =>
    obtain ⟨⟨e, st₁⟩, hrun, rfl⟩ := Option.map_eq_some_iff.mp hstep
    exact miniSend_ok hs h hallowed hrun
  | lockNotify srcE dstE =>
    obtain ⟨⟨e, st₁⟩, hrun, rfl⟩ := Option.map_eq_some_iff.mp hstep
    exact lockNotify_ok hs hshows h hrun
  | genericHandler procNrE notifyId =>
    rcases genericHandler_cases hstep with rfl | ⟨rp, e, hrp, hnotify⟩
    · exact h
    · exact raise_ok hs hshows h (Or.inl rfl) hrp hnotify
  | sendSig procNr sigNr =>
    rcases sendSig_cases hstep with rfl | ⟨rp, e, -, hempty, hnotify⟩
    · exact h
    · have hlive : n.live rp := by
        rw [← hshows.alive_iff]
        exact not_not.mp fun hdead => by rw [isempty_iff.mpr hdead] at hempty; cases hempty
      have hself := hshows.isokendpt_endpoint hs.numbered hlive
      exact raise_ok hs hshows h (Or.inr rfl) hself hnotify
  | clockHandler ticks timeout =>
    obtain ⟨s, procPtr, hcharge, hcases⟩ := clockHandler_cases hstep
    have hstill := chargeTicks_still hshows.tidy hcharge
    rcases hcases with rfl | ⟨e, hnotify⟩
    · exact h.calm (.still hstill) fun _ _ _ => rfl
    · have hstill' : Still st.kernel { s with prevPtr := some procPtr } :=
        hstill.trans (.of_proc_eq hstill.tidy rfl rfl)
      have hs' : Consistent { s with prevPtr := some procPtr } :=
        (hs.chargeTicks hcharge).of_proc_eq rfl rfl rfl
      have hshows' : Shows { st with
          kernel := { s with prevPtr := some procPtr }
          realtime := st.realtime + ticks } n :=
        hshows.frame (hshows.toTalks.same hstill'.sameTalk) (fun _ _ => id)
          hstill'.sameTalk.endpoint fun _ _ _ _ => rfl
      have h' : NoticesOk { st with
          kernel := { s with prevPtr := some procPtr }
          realtime := st.realtime + ticks } none := h.calm (.still hstill') fun _ _ _ => rfl
      exact lockNotify_ok hs' hshows' h' hnotify
  | doFork endpt slot =>
    obtain ⟨⟨e, st₁⟩, hrun, rfl⟩ := Option.map_eq_some_iff.mp hstep
    exact doFork_ok hshows hok hclean h hrun
  | doExit whoP endpt =>
    obtain ⟨⟨e, st₁⟩, hrun, rfl⟩ := Option.map_eq_some_iff.mp hstep
    rcases doExit_cases hrun with rfl | ⟨rc, hclear, hrc⟩
    · exact h
    · refine clearProc_ok hs hshows hok h (fun src hsrc heq => ?_) hclear
      -- the number of a kernel task is negative
      have hnr : (st.kernel.proc rc).nr = src := heq ▸ (h.privileged.task src hsrc).2.2.1
      have hneg : iskerneln (st.kernel.proc rc).nr = true := by
        rw [hnr]
        rcases hsrc with rfl | rfl <;> decide
      simp only [Op.TasksStay] at hstay
      split at hrc
      · next hpm =>
        rw [if_pos hpm] at hstay
        rw [hstay rc hrc] at hneg
        cases hneg
      · next hpm =>
        rw [if_neg hpm] at hstay
        have hwho := procAddr_eq_some hrc
        rw [hs.numbered.nr, ← hwho, hstay] at hneg
        cases hneg
  | kernel op =>
    obtain ⟨s, hrun, hstep⟩ := Option.bind_eq_some_iff.mp hstep
    cases hstep
    exact h.calm (.still (kernel_still hallowed.2 hshows.tidy hrun)) fun _ _ _ => rfl

theorem setMasks_pending {l : List (Int × Nat × Finset PrivPtr)} :
    (l.foldl setMasks st).intPending = st.intPending ∧
      (l.foldl setMasks st).sigPending = st.sigPending ∧
      (l.foldl setMasks st).notices = st.notices := by
  induction l generalizing st with
  | nil => exact ⟨rfl, rfl, rfl⟩
  | cons entry l ih =>
    rw [List.foldl_cons, ih.1, ih.2.1, ih.2.2]
    unfold setMasks
    split <;> exact ⟨rfl, rfl, rfl⟩

theorem boot_pending {memory : ProcPtr → Message α} (h : boot memory = some st) :
    (∀ src id, st.pending src id = ∅) ∧ st.notices = [] := by
  unfold boot at h
  obtain ⟨s, -, h⟩ := Option.bind_eq_some_iff.mp h
  cases h
  refine ⟨fun src id => ?_, setMasks_pending.2.2⟩
  unfold pending
  rw [setMasks_pending.1, setMasks_pending.2.1]
  split
  · rfl
  · split <;> rfl

theorem boot_privileged {s : Kernel} (h : Minix.boot = some s) : Privileged s := by
  have hown : Minix.boot.all fun s => decide (∀ p, .slotFree ∉ (s.proc p).rtsFlags →
      (s.proc p).priv ≠ 0 → .sysProc ∈ (s.priv (s.proc p).priv).flags ∧
        (s.priv (s.proc p).priv).procNr = (s.proc p).nr) := by
    decide +kernel
  have htask : Minix.boot.all fun s => decide (∀ src ∈ [HARDWARE, SYSTEM],
      .slotFree ∉ (s.proc (taskOf src)).rtsFlags ∧ (s.proc (taskOf src)).endpoint = src ∧
      (s.proc (taskOf src)).nr = src ∧ (s.proc (taskOf src)).priv ≠ 0) := by
    decide +kernel
  rw [h, Option.all_some, decide_eq_true_iff] at hown htask
  refine ⟨fun p q hp hq heq hne => ?_, fun p hp hne => (hown p hp hne).1, fun src hsrc => ?_⟩
  · refine nr_inj (boot_consistent h).numbered ?_
    rw [← (hown p hp hne).2, ← (hown q hq (heq ▸ hne)).2, heq]
  · obtain ⟨hlive, hendpoint, hnr, hne⟩ := htask src (by rcases hsrc with rfl | rfl <;> simp)
    exact ⟨hlive, hendpoint, hnr, hne, by rw [(hown _ hlive hne).2, hnr]⟩

/-- The condition of the runs. -/
def Op.Orderly (st : Ipc α) (op : Op α) : Prop := op.Clean st ∧ op.TasksStay st

instance (st : Ipc α) (op : Op α) : Decidable (op.Orderly st) :=
  inferInstanceAs (Decidable (op.Clean st ∧ op.TasksStay st))

theorem Run.noticesOk (h : Run Op.Orderly st) : st.NoticesOk none := by
  induction h with
  | boot h =>
    obtain ⟨hpending, -⟩ := boot_pending h
    have htalks : Talks _ (_ : Exchange ProcPtr (Message α)) := boot_talks (boot_kernel h)
    refine ⟨boot_privileged (boot_kernel h), fun src id _ _ hbits => absurd (hpending src id) hbits,
      fun p hp _ => ?_⟩
    obtain ⟨src, hhears, -⟩ := htalks.source hp.receiving
    cases hhears
  | step h hallowed horderly hstep ih =>
    have hrun := h.mono fun _ _ h => h.1
    obtain ⟨n, hshows, hcareful, -⟩ := hrun.shows
    exact op_ok hrun.consistent hshows hcareful.toOk ih hallowed horderly.1 horderly.2 hstep

end Ipc

/--
**No notification is lost.** In every run in which processes fork in order and no kernel task exits:
where a bit of an interrupt or a signal is pending, so is a notification of the kernel task, and a
system process that sleeps until any message comes has neither.
-/
theorem no_notice_lost {α : Type} {st : Ipc α} (h : Ipc.Run Ipc.Op.Orderly st) :
    (∀ src id, IsTask src → st.pending src id ≠ ∅ →
      (st.kernel.proc (taskOf src)).priv ∈ (st.kernel.priv id).notifyPending) ∧
    ∀ p, Asleep st.kernel p → (st.kernel.proc p).priv ≠ 0 →
      (st.kernel.priv (st.kernel.proc p).priv).notifyPending = ∅ ∧
        ∀ src, IsTask src → st.pending src (st.kernel.proc p).priv = ∅ := by
  have hok := h.noticesOk
  refine ⟨fun src id hsrc => hok.bits src id hsrc nofun, fun p hp hne => ?_⟩
  have hnone := hok.asleep p hp hne
  refine ⟨hnone, fun src hsrc => ?_⟩
  by_contra hbits
  have hmem := hok.bits src _ hsrc nofun hbits
  rw [hnone] at hmem
  exact absurd hmem (Finset.notMem_empty _)

/-- The terminal driver in the process table. -/
def ttyProc : ProcPtr := 9

/-- The terminal driver waits and is interrupted twice, and then the data store waits. -/
def interruptOps : List (Ipc.Op Nat) :=
  [.sysCall ttyProc RECEIVE ANY ⟨NONE, .user 1⟩ true, .genericHandler TTY_PROC_NR 1,
   .genericHandler TTY_PROC_NR 12, .sysCall dsProc RECEIVE ANY ⟨NONE, .user 2⟩ true]

theorem no_notice_lost_interrupt : ∃ st : Ipc Nat, Ipc.Run Ipc.Op.Orderly st ∧
    (st.kernel.proc (taskOf HARDWARE)).priv ∈
      (st.kernel.priv (st.kernel.proc ttyProc).priv).notifyPending ∧
    (st.kernel.priv (st.kernel.proc dsProc).priv).notifyPending = ∅ := by
  have h : ((Ipc.boot Ipc.blank).bind (Ipc.execute Ipc.Op.Orderly interruptOps)).any fun st =>
      decide (st.pending HARDWARE (st.kernel.proc ttyProc).priv ≠ ∅ ∧
        (.receiving ∈ (st.kernel.proc dsProc).rtsFlags ∧
          .sending ∉ (st.kernel.proc dsProc).rtsFlags ∧ (st.kernel.proc dsProc).getfromE = ANY ∧
          (st.kernel.proc dsProc).replyPending = false) ∧
        (st.kernel.proc dsProc).priv ≠ 0) := by
    decide +kernel
  obtain ⟨st, hst, hfacts⟩ := (Option.any_eq_true _ _).mp h
  obtain ⟨st₀, hboot, hexec⟩ := Option.bind_eq_some_iff.mp hst
  obtain ⟨hpending, ⟨h1, h2, h3, h4⟩, hne⟩ := of_decide_eq_true hfacts
  have hrun := Ipc.execute_run (.boot hboot) hexec
  obtain ⟨hbits, hasleep⟩ := no_notice_lost hrun
  exact ⟨st, hrun, hbits HARDWARE _ (Or.inl rfl) hpending,
    (hasleep dsProc ⟨h1, h2, h3, h4⟩ hne).1⟩

end Minix
