import Bambinos.Minix.Fifo
import Bambinos.Minix.Leaving

/-!
# Rendezvous in every run of the kernel

* `Ipc.Run.shows` — in every run the process table shows an exchange whose queues are the mail
* `mail_in_order` — what is sent is got once, in order and unaltered, or waits
* `rendezvous_holds` — who is queued where, and nobody waits for a process that is queued at it
* `only_self_waits` — nobody is on a circle of processes that wait, but for one that waits for itself
* `deadlock_result` — what `deadlock` finds, and when it finds no end
-/

namespace Minix

open Infra

namespace Ipc

variable {α : Type} {st st' : Ipc α} {n : Exchange ProcPtr (Message α)} {e : Int}

/-! ## what the operations do -/

theorem raise_shows {src : Int} {id : PrivPtr} {bit : Nat} (h : st.Shows n) :
    (st.raise src id bit).Shows n := h.of_proc_eq rfl rfl

theorem clockHandler_answers {ticks : Int} {timeout : Bool} (hs : Consistent st.kernel)
    (h : st.Shows n) (hok : n.Ok) (hstep : st.clockHandler ticks timeout = some st') :
    st.Answers n st' := by
  obtain ⟨s, procPtr, hcharge, hcases⟩ := clockHandler_cases hstep
  have hsame := (chargeTicks_still h.tidy hcharge).sameTalk
  have hs₁ := hs.chargeTicks hcharge
  rcases hcases with rfl | ⟨e, hnotify⟩
  · exact .nil (h.frame (h.toTalks.same hsame) (fun _ _ => id) hsame.endpoint fun _ _ _ _ => rfl) rfl
  · have h₁ : Shows { st with
        kernel := { s with prevPtr := some procPtr }
        realtime := st.realtime + ticks } n :=
      h.frame ((h.toTalks.same hsame).of_proc_eq rfl) (fun _ _ => id) hsame.endpoint
        fun _ _ _ _ => rfl
    have hs₂ : Consistent { s with prevPtr := some procPtr } := hs₁.of_proc_eq rfl rfl rfl
    exact (Reply.nil h₁ rfl).trans (lockNotify_answers hs₂ h₁ hok hnotify)

/-- **One operation** is answered by an exchange. -/
theorem op_answers {op : Op α} (hs : Consistent st.kernel) (h : st.Shows n) (hok : n.Ok)
    (hallowed : op.Allowed st) (hclean : op.Clean st) (hstep : op.run st = some st') :
    st.Answers n st' := by
  cases op with
  | sysCall callerPtr callNr srcDstE m pointerOk =>
    obtain ⟨⟨e, st₁⟩, hrun, rfl⟩ := Option.map_eq_some_iff.mp hstep
    exact sysCall_answers hs h hok hallowed hrun
  | lockSend procPtr dstE m =>
    obtain ⟨⟨e, st₁⟩, hrun, rfl⟩ := Option.map_eq_some_iff.mp hstep
    exact lockSend_answers hs h hok hallowed hrun
  | lockNotify srcE dstE =>
    obtain ⟨⟨e, st₁⟩, hrun, rfl⟩ := Option.map_eq_some_iff.mp hstep
    exact lockNotify_answers hs h hok hrun
  | genericHandler procNrE notifyId =>
    rcases genericHandler_cases hstep with rfl | ⟨rp, e, -, hnotify⟩
    · exact .nil h rfl
    · have h₁ : (st.raise HARDWARE (st.kernel.proc rp).priv notifyId).Shows n := raise_shows h
      exact (Reply.nil h₁ rfl).trans (lockNotify_answers hs h₁ hok hnotify)
  | sendSig procNr sigNr =>
    rcases sendSig_cases hstep with rfl | ⟨rp, e, -, -, hnotify⟩
    · exact .nil h rfl
    · have h₁ : (st.raise SYSTEM (st.kernel.proc rp).priv sigNr).Shows n := raise_shows h
      exact (Reply.nil h₁ rfl).trans (lockNotify_answers hs h₁ hok hnotify)
  | clockHandler ticks timeout => exact clockHandler_answers hs h hok hstep
  | doFork endpt slot =>
    obtain ⟨⟨e, st₁⟩, hrun, rfl⟩ := Option.map_eq_some_iff.mp hstep
    exact doFork_answers h hok hclean hrun
  | doExit whoP endpt =>
    obtain ⟨⟨e, st₁⟩, hrun, rfl⟩ := Option.map_eq_some_iff.mp hstep
    exact doExit_answers hs h hok hrun
  | kernel op =>
    obtain ⟨s, hrun, hstep⟩ := Option.bind_eq_some_iff.mp hstep
    cases hstep
    have hsame := (kernel_still hallowed.2 h.tidy hrun).sameTalk
    exact .nil (h.frame (h.toTalks.same hsame) (fun _ _ => id) hsame.endpoint fun _ _ _ _ => rfl) rfl

/-! ## booting -/

/-- Behind `main` nobody waits. -/
theorem boot_talks {s : Kernel} (h : Minix.boot = some s) :
    Talks s (.start fun p => .slotFree ∉ (s.proc p).rtsFlags : Exchange ProcPtr (Message α)) := by
  have hboot : Minix.boot.all fun s => decide (∀ p, (s.proc p).callerQ = none ∧
      ((s.proc p).rtsFlags = {.slotFree} ∨
        .slotFree ∉ (s.proc p).rtsFlags ∧ .sending ∉ (s.proc p).rtsFlags ∧
          .receiving ∉ (s.proc p).rtsFlags)) := by
    decide +kernel
  rw [h, Option.all_some, decide_eq_true_iff] at hboot
  have hflags := fun p hp => (hboot p).2.resolve_left hp
  have hlive : ∀ p, .slotFree ∉ (s.proc p).rtsFlags → (s.proc p).rtsFlags ≠ {.slotFree} := by
    intro p hp he
    rw [he] at hp
    exact hp (Finset.mem_singleton_self _)
  refine ⟨fun p hp => ?_, fun _ => Iff.rfl, fun p hp => ?_, fun p hp => ?_, fun p _ => ?_, nofun⟩
  · exact (hboot p).2.resolve_right fun hnot => hnot.1 hp
  · exact .no (hflags p (hlive p hp)).2.1
  · exact .no (hflags p (hlive p hp)).2.2
  · rw [(hboot p).1]
    exact .nil

theorem boot_shows {memory : ProcPtr → Message α} (h : boot memory = some st) :
    ∃ live, st.Shows (.start live) ∧ st.mail = [] := by
  refine ⟨_, ⟨boot_talks (boot_kernel h), nofun⟩, ?_⟩
  unfold boot at h
  obtain ⟨s, -, h⟩ := Option.bind_eq_some_iff.mp h
  cases h
  rw [setMasks_mail]

/-- **Every state** that is reached shows an exchange, and the queues are what the mail makes them. -/
theorem Run.shows (h : Run Op.Clean st) :
    ∃ n, st.Shows n ∧ n.Careful ∧ ∀ d, Mailbox d st.mail (n.queue d) := by
  induction h with
  | boot h =>
    obtain ⟨live, hshows, hmail⟩ := boot_shows h
    refine ⟨_, hshows, Exchange.start_careful, fun d => ?_⟩
    rw [hmail]
    exact .nil
  | step h hallowed hclean hstep ih =>
    obtain ⟨n, hshows, hcareful, hbox⟩ := ih
    obtain ⟨n', hshows', k, es, hrun, hmail⟩ :=
      op_answers h.consistent hshows hcareful.toOk hallowed hclean hstep
    refine ⟨n', hshows', hcareful.run hrun, ?_⟩
    rw [hmail]
    exact hcareful.toOk.mailbox_run hbox hrun

end Ipc

/-! ## whom a process waits for -/

variable {s : Kernel} {α M : Type} {n : Exchange ProcPtr M} {st : Ipc α} {p x d cp : ProcPtr} {e : Int}
  {function : Nat}

/-- The process that is waited for; there is none when any message will do. -/
def waitsFor (s : Kernel) (p : ProcPtr) : Option ProcPtr :=
  let r := s.proc p
  if .sending ∈ r.rtsFlags then isokendpt s r.sendtoE
  else if .receiving ∈ r.rtsFlags ∧ r.getfromE ≠ ANY then isokendpt s r.getfromE
  else none

theorem Talks.sends_iff (h : Talks s n) (hok : n.Ok) (hn : Numbered s) : n.sends p = some d ↔
    .sending ∈ (s.proc p).rtsFlags ∧ isokendpt s (s.proc p).sendtoE = some d := by
  constructor
  · intro hsends
    obtain ⟨hp, hd⟩ := hok.sender p d hsends
    refine ⟨?_, by rw [h.sends_endpoint hp hsends, h.isokendpt_endpoint hn hd]⟩
    by_contra hnot
    rw [← h.sends_eq_none_iff hp, hsends] at hnot
    cases hnot
  · rintro ⟨hsending, hd⟩
    have hp := h.live_of_mem hsending (by decide)
    obtain ⟨c, hc⟩ : ∃ c, n.sends p = some c := by
      rw [← Option.ne_none_iff_exists', Ne, h.sends_eq_none_iff hp]
      exact not_not.mpr hsending
    have hcd := (h.sends_endpoint hp hc).symm.trans (h.isokendpt_spec hd).2
    rw [hc, hn.endpoint_inj hcd]

theorem Talks.waitsFor_eq (h : Talks s n) (hok : n.Ok) (hn : Numbered s) :
    waitsFor s = n.waits := by
  funext p
  unfold waitsFor
  dsimp only
  by_cases hsending : .sending ∈ (s.proc p).rtsFlags
  · have hp := h.live_of_mem hsending (by decide)
    obtain ⟨d, hd⟩ : ∃ d, n.sends p = some d := by
      rw [← Option.ne_none_iff_exists', Ne, h.sends_eq_none_iff hp]
      exact not_not.mpr hsending
    rw [if_pos hsending, ((h.sends_iff hok hn).mp hd).2, Exchange.waits_of_sends hd]
  · have hsends : n.sends p = none := by
      by_contra hnot
      obtain ⟨d, hd⟩ := Option.ne_none_iff_exists'.mp hnot
      exact hsending ((h.sends_iff hok hn).mp hd).1
    rw [if_neg hsending, Exchange.waits_of_not_sends hsends]
    by_cases hreceiving : .receiving ∈ (s.proc p).rtsFlags
    · obtain ⟨src, hhears, hsource⟩ := h.source hreceiving
      rw [hhears, Option.getD_some]
      cases hsource with
      | any he => rw [if_neg fun hnot => hnot.2 he]
      | of y he =>
        rw [if_pos ⟨hreceiving, fun hany => endpoint_ne_any hn y (he.symm.trans hany)⟩, he,
          h.isokendpt_endpoint hn (hok.source p y hhears)]
    · rw [if_neg fun hand => hreceiving hand.1]
      have hhears : n.hears p = none := by
        by_contra hnot
        obtain ⟨src, hsrc⟩ := Option.ne_none_iff_exists'.mp hnot
        rw [← h.hears_eq_none_iff (hok.hearer p src hsrc), hsrc] at hreceiving
        cases hreceiving
      rw [hhears]
      rfl

/-! ## a run -/

namespace Ipc

/-- The process manager takes the message of `init`, the file system sends to it, and the
reincarnation server sends to itself. -/
def meetOps : List (Op Nat) :=
  [.sysCall initProc SENDREC PM_PROC_NR ⟨NONE, .user 1⟩ true,
   .sysCall pmProc RECEIVE ANY ⟨NONE, .user 2⟩ true,
   .sysCall rsProc SEND RS_PROC_NR ⟨NONE, .user 3⟩ true,
   .sysCall fsProc SEND PM_PROC_NR ⟨NONE, .user 4⟩ true]

theorem exists_meet : ∃ st : Ipc Nat, Run Op.Clean st ∧ (st.kernel.proc pmProc).rtsFlags = ∅ ∧
    isokendpt st.kernel RS_PROC_NR = some rsProc ∧ waitsFor st.kernel rsProc = some rsProc ∧
    .sending ∈ (st.kernel.proc fsProc).rtsFlags := by
  have h : ((boot blank).bind (execute Op.Clean meetOps)).any fun st =>
      decide ((st.kernel.proc pmProc).rtsFlags = ∅ ∧ isokendpt st.kernel RS_PROC_NR = some rsProc ∧
        waitsFor st.kernel rsProc = some rsProc ∧
        .sending ∈ (st.kernel.proc fsProc).rtsFlags) := by
    decide +kernel
  obtain ⟨st, hst, hfacts⟩ := (Option.any_eq_true _ _).mp h
  obtain ⟨st₀, hboot, hexec⟩ := Option.bind_eq_some_iff.mp hst
  exact ⟨st, execute_run (.boot hboot) hexec, of_decide_eq_true hfacts⟩

end Ipc

/-! ## the properties -/

/-- Who is queued where, and whom a blocked process waits for. -/
structure Rendezvous (s : Kernel) : Prop where
  /-- A process that sends is queued once, at its destination, and nobody else is queued. -/
  queues : ∃ C : ProcPtr → List ProcPtr, ∀ d, Alive s d →
    Chain (fun r => (s.proc r).qLink) (s.proc d).callerQ (C d) ∧
      (∀ x, (C d).count x =
        if .sending ∈ (s.proc x).rtsFlags ∧ isokendpt s (s.proc x).sendtoE = some d then 1 else 0) ∧
      (.receiving ∈ (s.proc d).rtsFlags → .sending ∉ (s.proc d).rtsFlags →
        ∀ x ∈ C d, (s.proc d).getfromE ≠ ANY ∧ (s.proc d).getfromE ≠ (s.proc x).endpoint)
  sendto : ∀ p, .sending ∈ (s.proc p).rtsFlags → ∃ d, isokendpt s (s.proc p).sendtoE = some d
  getfrom : ∀ p, .receiving ∈ (s.proc p).rtsFlags → (s.proc p).getfromE ≠ ANY →
    ∃ d, isokendpt s (s.proc p).getfromE = some d
  /-- A process that sends waits for the answer of its destination at most. -/
  paired : ∀ p, .sending ∈ (s.proc p).rtsFlags → .receiving ∈ (s.proc p).rtsFlags →
    (s.proc p).getfromE = (s.proc p).sendtoE

theorem Talks.rendezvous (h : Talks s n) (hok : n.Ok) (hn : Numbered s) : Rendezvous s := by
  have hsends : ∀ p, .sending ∈ (s.proc p).rtsFlags → ∃ d, n.sends p = some d := by
    intro p hsending
    rw [← Option.ne_none_iff_exists', Ne, h.sends_eq_none_iff (h.live_of_mem hsending (by decide))]
    exact not_not.mpr hsending
  refine ⟨⟨fun d => (n.queue d).map Prod.fst, fun d hd => ⟨?_, fun x => ?_, ?_⟩⟩, ?_, ?_, ?_⟩
  · exact h.queued.chain d (h.alive_iff.mp hd)
  · split
    · next hx =>
      rw [← h.sends_iff hok hn, hok.queued] at hx
      exact List.count_eq_one_of_mem (hok.once d) hx
    · next hx =>
      rw [← h.sends_iff hok hn, hok.queued] at hx
      exact List.count_eq_zero_of_not_mem hx
  · intro hreceiving hsending x hx
    have hlive := h.alive_iff.mp hd
    obtain ⟨src, hhears, hsource⟩ := h.source hreceiving
    obtain ⟨c, hc, rfl⟩ := List.mem_map.mp hx
    have hmet := hok.met d src ((h.sends_eq_none_iff hlive).mpr hsending) hhears c hc
    cases hsource with
    | any he => exact absurd (Or.inl rfl) hmet
    | of y he =>
      refine ⟨fun hany => endpoint_ne_any hn y (he.symm.trans hany), fun heq => hmet (Or.inr ?_)⟩
      rw [hn.endpoint_inj (he.symm.trans heq)]
  · intro p hsending
    obtain ⟨d, hd⟩ := hsends p hsending
    exact ⟨d, ((h.sends_iff hok hn).mp hd).2⟩
  · intro p hreceiving hany
    obtain ⟨src, hhears, hsource⟩ := h.source hreceiving
    cases hsource with
    | any he => exact absurd he hany
    | of y he => exact ⟨y, by rw [he, h.isokendpt_endpoint hn (hok.source p y hhears)]⟩
  · intro p hsending hreceiving
    obtain ⟨d, hd⟩ := hsends p hsending
    obtain ⟨src, hhears, hsource⟩ := h.source hreceiving
    rw [hok.paired p d src hd hhears] at hsource
    cases hsource with
    | of _ he => rw [he, h.sends_endpoint (h.live_of_mem hsending (by decide)) hd]

/--
**Rendezvous.** In every run in which processes fork in order, a process that sends is queued exactly
once, where it sends to, and no process waits for a message of one that is queued at it.
-/
theorem rendezvous_holds (h : Ipc.Run Ipc.Op.Clean st) : Rendezvous st.kernel := by
  obtain ⟨n, hshows, hcareful, -⟩ := h.shows
  exact hshows.rendezvous hcareful.toOk h.consistent.numbered

theorem rendezvous_holds_meet : ∃ st : Ipc Nat, .sending ∈ (st.kernel.proc fsProc).rtsFlags ∧
    Rendezvous st.kernel := by
  obtain ⟨st, hrun, -, -, -, hsending⟩ := Ipc.exists_meet
  exact ⟨st, hsending, rendezvous_holds hrun⟩

/-- **Circles.** Processes that wait for one another never form a circle of two or more. -/
theorem only_self_waits (h : Ipc.Run Ipc.Op.Clean st) : OnlySelfWaits (waitsFor st.kernel) := by
  obtain ⟨n, hshows, hcareful, -⟩ := h.shows
  rw [hshows.waitsFor_eq hcareful.toOk h.consistent.numbered]
  exact hcareful.circles

theorem only_self_waits_meet : ∃ st : Ipc Nat, waitsFor st.kernel rsProc = some rsProc ∧
    OnlySelfWaits (waitsFor st.kernel) := by
  obtain ⟨st, hrun, -, -, hself, -⟩ := Ipc.exists_meet
  exact ⟨st, hself, only_self_waits hrun⟩

/--
**`deadlock`**, called for a process that runs, finds a group exactly if the chain of those who wait
leads from the destination to the caller and the two do not meet; and its loop has no end exactly if
the chain leads to a process that waits for itself.
-/
theorem deadlock_result (h : Ipc.Run Ipc.Op.Clean st)
    (hcp : (st.kernel.proc cp).rtsFlags = ∅) (hd : isokendpt st.kernel e = some d) :
    ((∃ k, k ≠ 0 ∧ deadlock st.kernel function cp (endpointP e) = some k) ↔
      (d ≠ cp ∧ Reaches (waitsFor st.kernel) d cp) ∧
        ¬ (waitsFor st.kernel d = some cp ∧ Meet st.kernel function d)) ∧
    (deadlock st.kernel function cp (endpointP e) = none ↔
      ∃ q, Reaches (waitsFor st.kernel) d q ∧ waitsFor st.kernel q = some q) := by
  obtain ⟨n, hshows, hcareful, -⟩ := h.shows
  have hn := h.consistent.numbered
  obtain ⟨hlive, rfl⟩ := hshows.isokendpt_spec hd
  have hwaits := (hshows.idle hcp).waits
  rw [hshows.waitsFor_eq hcareful.toOk hn, endpointP_endpoint hn]
  exact ⟨deadlock_found_iff hshows.toTalks hcareful hn hlive hwaits,
    deadlock_endless_iff hshows.toTalks hcareful hn hlive hwaits⟩

/-- Behind such a process the kernel goes round for ever. -/
theorem deadlock_result_meet : ∃ st : Ipc Nat, Ipc.Run Ipc.Op.Clean st ∧
    deadlock st.kernel SEND pmProc (endpointP RS_PROC_NR) = none := by
  obtain ⟨st, hrun, hready, hrs, hself, -⟩ := Ipc.exists_meet
  exact ⟨st, hrun, (deadlock_result hrun hready hrs).2.mpr ⟨rsProc, Reaches.refl rsProc, hself⟩⟩

/-- A message of `x` waits at `d`. -/
def Waiting (s : Kernel) (x d : ProcPtr) : Prop :=
  .sending ∈ (s.proc x).rtsFlags ∧ isokendpt s (s.proc x).sendtoE = some d

instance (s : Kernel) (x d : ProcPtr) : Decidable (Waiting s x d) :=
  inferInstanceAs (Decidable (_ ∧ _))

/-- The message a process last gave to the kernel. -/
def Ipc.message (st : Ipc α) (x : ProcPtr) : Message α :=
  ⟨(st.kernel.proc x).endpoint, (st.messbuf x).body⟩

/--
**The mail.** What a process has sent to another is what that one got, each message once, in this
order and unaltered, and at most one more that waits, as long as neither is gone. Whatever happens,
nothing is got or waits that has not been sent.
-/
theorem mail_in_order (h : Ipc.Run Ipc.Op.Clean st) :
    (st.mail.filterMap (gotFrom x d) ++ if Waiting st.kernel x d then [st.message x] else []).Sublist
      (st.mail.filterMap (sentTo x d)) ∧
    (.gone x ∉ st.mail → .gone d ∉ st.mail → st.mail.filterMap (sentTo x d) =
      st.mail.filterMap (gotFrom x d) ++ if Waiting st.kernel x d then [st.message x] else []) := by
  obtain ⟨n, hshows, hcareful, hbox⟩ := h.shows
  have hok := hcareful.toOk
  have hwaiting : waitingOf x (n.queue d) =
      if Waiting st.kernel x d then [st.message x] else [] := by
    rw [waitingOf_of_nodup (hok.once d) fun m => hshows.message d x m]
    have hiff : x ∈ (n.queue d).map Prod.fst ↔ Waiting st.kernel x d := by
      rw [← hok.queued]
      exact hshows.sends_iff hok h.consistent.numbered
    simp only [hiff, Ipc.message]
  rw [← hwaiting]
  exact ⟨(hbox d).sublist, (hbox d).accounted⟩

theorem mail_in_order_meet : ∃ st : Ipc Nat, .sending ∈ (st.kernel.proc fsProc).rtsFlags ∧
    (st.mail.filterMap (gotFrom fsProc pmProc) ++
      if Waiting st.kernel fsProc pmProc then [st.message fsProc] else []).Sublist
        (st.mail.filterMap (sentTo fsProc pmProc)) := by
  obtain ⟨st, hrun, -, -, -, hsending⟩ := Ipc.exists_meet
  exact ⟨st, hsending, (mail_in_order hrun).1⟩

/-- **The queue** of a process is the mailbox that what has happened makes: in the order of arrival,
whoever is gone taken out, and every message that was got the first one that was acceptable. -/
theorem queue_is_mailbox (h : Ipc.Run Ipc.Op.Clean st) (hd : Alive st.kernel d) :
    ∃ q : List ProcPtr, Chain (fun r => (st.kernel.proc r).qLink) (st.kernel.proc d).callerQ q ∧
      Mailbox d st.mail (q.map fun x => (x, st.message x)) := by
  obtain ⟨n, hshows, hcareful, hbox⟩ := h.shows
  refine ⟨(n.queue d).map Prod.fst, hshows.queued.chain d (hshows.alive_iff.mp hd), ?_⟩
  have hqueue : ((n.queue d).map Prod.fst).map (fun x => (x, st.message x)) = n.queue d := by
    rw [List.map_map]
    refine (List.map_congr_left ?_).trans (List.map_id _)
    rintro ⟨x, m⟩ hx
    rw [hshows.message d x m hx]
    rfl
  rw [hqueue]
  exact hbox d

theorem queue_is_mailbox_meet : ∃ (st : Ipc Nat) (q : List ProcPtr),
    Chain (fun r => (st.kernel.proc r).qLink) (st.kernel.proc pmProc).callerQ q ∧
      Mailbox pmProc st.mail (q.map fun x => (x, st.message x)) := by
  obtain ⟨st, hrun, hready, -, -, -⟩ := Ipc.exists_meet
  exact ⟨st, queue_is_mailbox hrun (alive_of_runnable hready)⟩

end Minix
