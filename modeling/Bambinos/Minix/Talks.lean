import Bambinos.Infra.Exchange
import Bambinos.Minix.Runs

/-!
# What the process table says about messages

The flags, the endpoints and the queues of callers, as an exchange: `p_sendto_e` and `p_getfrom_e` are
the processes that have these endpoints.

* `Talks` — the process table shows an exchange
* `Talks.wake`, `Talks.block`, `Talks.enqueue`, `Talks.release` — what a change of the process table
  is in it
-/

namespace Minix

open Infra

variable {s s' s₁ : Kernel} {M : Type} {n : Exchange ProcPtr M} {p x d rp : ProcPtr} {m : M}
  {flag : RtsFlag}

/-- To whom a process tries to send. -/
inductive Sends (s : Kernel) (p : ProcPtr) : Option ProcPtr → Prop
  | no (h : .sending ∉ (s.proc p).rtsFlags) : Sends s p none
  | dst (d : ProcPtr) (h : .sending ∈ (s.proc p).rtsFlags)
      (hd : (s.proc p).sendtoE = (s.proc d).endpoint) : Sends s p (some d)

/-- The source that an endpoint stands for. -/
inductive Source (s : Kernel) (e : Int) : Option ProcPtr → Prop
  | any (h : e = ANY) : Source s e none
  | of (x : ProcPtr) (h : e = (s.proc x).endpoint) : Source s e (some x)

/-- Whom a process waits to hear. -/
inductive Hears (s : Kernel) (p : ProcPtr) : Option (Option ProcPtr) → Prop
  | no (h : .receiving ∉ (s.proc p).rtsFlags) : Hears s p none
  | of (src : Option ProcPtr) (h : .receiving ∈ (s.proc p).rtsFlags)
      (hsrc : Source s (s.proc p).getfromE src) : Hears s p (some src)

/-- The process table shows the exchange. -/
structure Talks (s : Kernel) (n : Exchange ProcPtr M) : Prop where
  /-- A slot that is free has no other flag. -/
  tidy : ∀ p, .slotFree ∈ (s.proc p).rtsFlags → (s.proc p).rtsFlags = {.slotFree}
  live : ∀ p, n.live p ↔ .slotFree ∉ (s.proc p).rtsFlags
  sends : ∀ p, n.live p → Sends s p (n.sends p)
  hears : ∀ p, n.live p → Hears s p (n.hears p)
  queued : Queued s n.live fun d => (n.queue d).map Prod.fst

theorem Talks.alive_iff (h : Talks s n) : Alive s p ↔ n.live p := by
  rw [h.live]
  unfold Alive
  refine not_congr ⟨fun he => ?_, h.tidy p⟩
  rw [he]
  exact Finset.mem_singleton_self _

/-! ## what has the same endpoints -/

theorem Source.congr {e : Int} {src : Option ProcPtr} (h : Source s e src)
    (hendpoint : ∀ r, (s'.proc r).endpoint = (s.proc r).endpoint) : Source s' e src := by
  cases h with
  | any h => exact .any h
  | of x h => exact .of x (by rw [h, hendpoint])

theorem Sends.congr {o : Option ProcPtr} (h : Sends s p o)
    (hflag : .sending ∈ (s'.proc p).rtsFlags ↔ .sending ∈ (s.proc p).rtsFlags)
    (hsendto : (s'.proc p).sendtoE = (s.proc p).sendtoE)
    (hendpoint : ∀ r, (s'.proc r).endpoint = (s.proc r).endpoint) : Sends s' p o := by
  cases h with
  | no h => exact .no fun h' => h (hflag.mp h')
  | dst d h hd => exact .dst d (hflag.mpr h) (by rw [hsendto, hd, hendpoint])

theorem Hears.congr {o : Option (Option ProcPtr)} (h : Hears s p o)
    (hflag : .receiving ∈ (s'.proc p).rtsFlags ↔ .receiving ∈ (s.proc p).rtsFlags)
    (hgetfrom : (s'.proc p).getfromE = (s.proc p).getfromE)
    (hendpoint : ∀ r, (s'.proc r).endpoint = (s.proc r).endpoint) : Hears s' p o := by
  cases h with
  | no h => exact .no fun h' => h (hflag.mp h')
  | of src h hsrc =>
    refine .of src (hflag.mpr h) ?_
    rw [hgetfrom]
    exact hsrc.congr hendpoint

/-- What does not matter for messages may change. -/
structure SameTalk (s s' : Kernel) : Prop where
  tidy : ∀ p, .slotFree ∈ (s'.proc p).rtsFlags → (s'.proc p).rtsFlags = {.slotFree}
  free : ∀ p, .slotFree ∈ (s'.proc p).rtsFlags ↔ .slotFree ∈ (s.proc p).rtsFlags
  sending : ∀ p, .sending ∈ (s'.proc p).rtsFlags ↔ .sending ∈ (s.proc p).rtsFlags
  receiving : ∀ p, .receiving ∈ (s'.proc p).rtsFlags ↔ .receiving ∈ (s.proc p).rtsFlags
  sendtoE : ∀ p, (s'.proc p).sendtoE = (s.proc p).sendtoE
  getfromE : ∀ p, (s'.proc p).getfromE = (s.proc p).getfromE
  endpoint : ∀ p, (s'.proc p).endpoint = (s.proc p).endpoint
  callerQ : ∀ p, (s'.proc p).callerQ = (s.proc p).callerQ
  qLink : ∀ p, (s'.proc p).qLink = (s.proc p).qLink

theorem Queued.same {A : ProcPtr → Prop} {C : ProcPtr → List ProcPtr} (h : Queued s A C)
    (hcallerQ : ∀ p, (s'.proc p).callerQ = (s.proc p).callerQ)
    (hqLink : ∀ p, (s'.proc p).qLink = (s.proc p).qLink)
    (hsendto : ∀ p, (s'.proc p).sendtoE = (s.proc p).sendtoE)
    (hendpoint : ∀ p, (s'.proc p).endpoint = (s.proc p).endpoint) : Queued s' A C where
  chain y hy := by
    rw [hcallerQ]
    exact (h.chain y hy).congr fun r _ => hqLink r
  sendto y hy x hx := by
    rw [hsendto, hendpoint]
    exact h.sendto y hy x hx

theorem Talks.same (h : Talks s n) (hs : SameTalk s s') : Talks s' n where
  tidy := hs.tidy
  live p := by rw [h.live, hs.free]
  sends p hp := (h.sends p hp).congr (hs.sending p) (hs.sendtoE p) hs.endpoint
  hears p hp := (h.hears p hp).congr (hs.receiving p) (hs.getfromE p) hs.endpoint
  queued := h.queued.same hs.callerQ hs.qLink hs.sendtoE hs.endpoint

theorem Talks.of_proc_eq (h : Talks s n) (hproc : s'.proc = s.proc) : Talks s' n := by
  refine h.same ⟨?_, ?_, ?_, ?_, ?_, ?_, ?_, ?_, ?_⟩
  all_goals
    intro p
    rw [hproc]
  exact h.tidy p

/-! ## what changes -/

/-- Only whom `d` waits to hear changes. -/
theorem Talks.hear {o : Option (Option ProcPtr)} (h : Talks s n)
    (htidy : ∀ p, .slotFree ∈ (s'.proc p).rtsFlags → (s'.proc p).rtsFlags = {.slotFree})
    (hfree : ∀ p, .slotFree ∈ (s'.proc p).rtsFlags ↔ .slotFree ∈ (s.proc p).rtsFlags)
    (hsending : ∀ p, .sending ∈ (s'.proc p).rtsFlags ↔ .sending ∈ (s.proc p).rtsFlags)
    (hq : Quiet s s')
    (helse : ∀ p, p ≠ d → (.receiving ∈ (s'.proc p).rtsFlags ↔ .receiving ∈ (s.proc p).rtsFlags) ∧
      (s'.proc p).getfromE = (s.proc p).getfromE)
    (hd : Hears s' d o) : Talks s' (n.hear d o) where
  tidy := htidy
  live p := by rw [Exchange.hear_live, h.live, hfree]
  sends p hp := (h.sends p hp).congr (hsending p) (hq.sendtoE p) hq.endpoint
  hears p hp := by
    rcases eq_or_ne p d with rfl | hpd
    · rwa [Exchange.hear_self]
    · rw [Exchange.hear_of_ne hpd]
      exact (h.hears p hp).congr (helse p hpd).1 (helse p hpd).2 hq.endpoint
  queued := h.queued.same hq.callerQ hq.qLink hq.sendtoE hq.endpoint

/-- Flags that are taken from or given to one process. -/
theorem FlagsOf.mem_iff {flags : Finset RtsFlag} {f : RtsFlag} (h : FlagsOf s s' rp flags)
    (hf : f ∈ flags ↔ f ∈ (s.proc rp).rtsFlags) (p : ProcPtr) :
    f ∈ (s'.proc p).rtsFlags ↔ f ∈ (s.proc p).rtsFlags := by
  rcases eq_or_ne p rp with rfl | hp
  · rw [h.1, hf]
  · rw [h.2 p hp]

theorem FlagsOf.tidy_erase {f : RtsFlag} (h : FlagsOf s s' rp ((s.proc rp).rtsFlags.erase f))
    (hf : f ≠ .slotFree)
    (htidy : ∀ p, .slotFree ∈ (s.proc p).rtsFlags → (s.proc p).rtsFlags = {.slotFree})
    (p : ProcPtr) (hp : .slotFree ∈ (s'.proc p).rtsFlags) : (s'.proc p).rtsFlags = {.slotFree} := by
  rcases eq_or_ne p rp with rfl | hpr
  · rw [h.1] at hp ⊢
    rw [htidy p (Finset.mem_of_mem_erase hp), Finset.erase_eq_of_notMem]
    rw [Finset.mem_singleton]
    exact hf
  · rw [h.2 p hpr] at hp ⊢
    exact htidy p hp

theorem FlagsOf.tidy_insert {f : RtsFlag} (h : FlagsOf s s' rp (insert f (s.proc rp).rtsFlags))
    (hf : f ≠ .slotFree) (hrp : .slotFree ∉ (s.proc rp).rtsFlags)
    (htidy : ∀ p, .slotFree ∈ (s.proc p).rtsFlags → (s.proc p).rtsFlags = {.slotFree})
    (p : ProcPtr) (hp : .slotFree ∈ (s'.proc p).rtsFlags) : (s'.proc p).rtsFlags = {.slotFree} := by
  rcases eq_or_ne p rp with rfl | hpr
  · rw [h.1, Finset.mem_insert] at hp
    rcases hp with hp | hp
    · exact absurd hp.symm hf
    · exact absurd hp hrp
  · rw [h.2 p hpr] at hp ⊢
    exact htidy p hp

/-- A process does not wait to hear any more. -/
theorem Talks.deaf (h : Talks s n) (hq : Quiet s s')
    (hgetfrom : ∀ p, (s'.proc p).getfromE = (s.proc p).getfromE)
    (hf : FlagsOf s s' d ((s.proc d).rtsFlags.erase .receiving)) : Talks s' (n.hear d none) := by
  refine h.hear (hf.tidy_erase (by decide) h.tidy) (hf.mem_iff (by simp)) (hf.mem_iff (by simp)) hq
    (fun p hp => ⟨?_, hgetfrom p⟩) (.no ?_)
  · rw [hf.2 p hp]
  · rw [hf.1]
    simp

/-- A process starts to wait to hear. -/
theorem Talks.attend {e : Int} {src : Option ProcPtr} (h : Talks s n) (hq : Quiet s s')
    (hd : n.live d) (hf : FlagsOf s s' d (insert .receiving (s.proc d).rtsFlags))
    (hgetfrom : ∀ p, p ≠ d → (s'.proc p).getfromE = (s.proc p).getfromE)
    (he : (s'.proc d).getfromE = e) (hsrc : Source s e src) : Talks s' (n.hear d (some src)) := by
  refine h.hear (hf.tidy_insert (by decide) ((h.live d).mp hd) h.tidy) (hf.mem_iff (by simp))
    (hf.mem_iff (by simp)) hq (fun p hp => ⟨?_, hgetfrom p hp⟩) (.of src ?_ ?_)
  · rw [hf.2 p hp]
  · rw [hf.1]
    simp
  · rw [he]
    exact hsrc.congr hq.endpoint

/-- Only to whom `x` sends changes, and the queue of `d`. -/
theorem Talks.send {dst : Option ProcPtr} {q : List (ProcPtr × M)} (h : Talks s n)
    (htidy : ∀ p, .slotFree ∈ (s'.proc p).rtsFlags → (s'.proc p).rtsFlags = {.slotFree})
    (hfree : ∀ p, .slotFree ∈ (s'.proc p).rtsFlags ↔ .slotFree ∈ (s.proc p).rtsFlags)
    (hreceiving : ∀ p, .receiving ∈ (s'.proc p).rtsFlags ↔ .receiving ∈ (s.proc p).rtsFlags)
    (hgetfrom : ∀ p, (s'.proc p).getfromE = (s.proc p).getfromE)
    (hendpoint : ∀ p, (s'.proc p).endpoint = (s.proc p).endpoint)
    (helse : ∀ p, p ≠ x → (.sending ∈ (s'.proc p).rtsFlags ↔ .sending ∈ (s.proc p).rtsFlags) ∧
      (s'.proc p).sendtoE = (s.proc p).sendtoE)
    (hx : Sends s' x dst)
    (hqueued : Queued s' n.live
      (Function.update (fun c => (n.queue c).map Prod.fst) d (q.map Prod.fst))) :
    Talks s' (n.send x dst d q) where
  tidy := htidy
  live p := by rw [Exchange.send_live, h.live, hfree]
  sends p hp := by
    rcases eq_or_ne p x with rfl | hpx
    · rwa [Exchange.send_self]
    · rw [Exchange.send_of_ne hpx]
      exact (h.sends p hp).congr (helse p hpx).1 (helse p hpx).2 hendpoint
  hears p hp := (h.hears p hp).congr (hreceiving p) (hgetfrom p) hendpoint
  queued := by
    have heq : (fun c => ((n.send x dst d q).queue c).map Prod.fst) =
        Function.update (fun c => (n.queue c).map Prod.fst) d (q.map Prod.fst) := by
      funext c
      rcases eq_or_ne c d with rfl | hcd
      · rw [Exchange.send_queue, Function.update_self]
      · rw [Exchange.send_queue_of_ne hcd, Function.update_of_ne hcd]
    rw [heq]
    exact hqueued

/-! ## endpoints -/

theorem endpoint_ne_any (hn : Numbered s) (p : ProcPtr) : (s.proc p).endpoint ≠ ANY := by
  intro he
  obtain ⟨g, hg, hp⟩ := hn.endpoint p
  have haddr := endpointP_mkEndpoint hg p
  rw [← hp, he] at haddr
  have hany : endpointP ANY = 31438 := by decide
  have hlt : p.val < 104 := p.isLt
  rw [hany, tasks_eq] at haddr
  omega

theorem procAddr_nr (hn : Numbered s) (p : ProcPtr) : procAddr (s.proc p).nr = some p := by
  have hlt : p.val < NR_TASKS + NR_PROCS := p.isLt
  rw [hn.nr p]
  unfold procAddr
  split
  · refine congrArg some (Fin.ext ?_)
    dsimp only
    omega
  · next hnot => exact absurd ⟨by omega, by omega⟩ hnot

theorem endpointP_endpoint (hn : Numbered s) (p : ProcPtr) :
    endpointP (s.proc p).endpoint = (s.proc p).nr := by
  obtain ⟨g, hg, hp⟩ := hn.endpoint p
  rw [hp, endpointP_mkEndpoint hg, hn.nr p]

/-- The endpoint of a process that is there is its own. -/
theorem Talks.isokendpt_endpoint (h : Talks s n) (hn : Numbered s) (hp : n.live p) :
    isokendpt s (s.proc p).endpoint = some p := by
  unfold isokendpt
  rw [endpointP_endpoint hn, procAddr_nr hn, Option.bind_eq_bind, Option.bind_some]
  have hempty : (s.proc p).isempty = false := by
    rw [Bool.eq_false_iff, Ne, isempty_iff, not_not, h.alive_iff]
    exact hp
  rw [hempty, if_neg Bool.false_ne_true, if_neg (by simp)]

theorem Talks.isokendpt_spec {e : Int} (h : Talks s n) (hd : isokendpt s e = some d) :
    n.live d ∧ e = (s.proc d).endpoint := by
  obtain ⟨-, hendpoint, halive⟩ := Minix.isokendpt_spec hd
  exact ⟨h.alive_iff.mp halive, hendpoint.symm⟩

/-! ## one process at a time -/

theorem enqueueReady_moves (h : enqueueReady rp s = some s') : Moves s s' := by
  unfold enqueueReady at h
  split at h
  · exact enqueue_moves h
  · cases h
    exact Moves.refl s

theorem dequeueReady_moves (h : dequeueReady rp s = some s') : Moves s s' := by
  unfold dequeueReady at h
  split at h
  · exact (dequeue_moves h).1
  · cases h
    exact Moves.refl s

/-- What the ready lists and the flags have nothing to do with is kept. -/
theorem unset_field {β : Type} {g : Proc → β} (hg : ∀ r f n t y, g { r with
      rtsFlags := f, nextready := n, ticksLeft := t, priority := y } = g r)
    (h : unset flag rp s = some s') (r : ProcPtr) : g (s'.proc r) = g (s.proc r) := by
  rw [(enqueueReady_moves h).field (g := g) fun p n t y => hg p p.rtsFlags n t y]
  exact Kernel.setProc_field (g := g)
    (hg (s.proc rp) _ (s.proc rp).nextready (s.proc rp).ticksLeft (s.proc rp).priority) r

theorem block_field {β : Type} {g : Proc → β} (hg : ∀ r f n t y, g { r with
      rtsFlags := f, nextready := n, ticksLeft := t, priority := y } = g r)
    (h : block flag rp s = some s') (r : ProcPtr) : g (s'.proc r) = g (s.proc r) := by
  unfold block at h
  obtain ⟨s₁, hoff, h⟩ := Option.bind_eq_some_iff.mp h
  cases h
  rw [Kernel.setProc_field (g := g)
    (hg (s₁.proc rp) _ (s₁.proc rp).nextready (s₁.proc rp).ticksLeft (s₁.proc rp).priority)]
  exact (dequeueReady_moves hoff).field (g := g) (fun p n t y => hg p p.rtsFlags n t y) r

theorem unset_getfromE (h : unset flag rp s = some s') (r : ProcPtr) :
    (s'.proc r).getfromE = (s.proc r).getfromE :=
  unset_field (g := Proc.getfromE) (fun _ _ _ _ _ => rfl) h r

theorem block_getfromE (h : block flag rp s = some s') (r : ProcPtr) :
    (s'.proc r).getfromE = (s.proc r).getfromE :=
  block_field (g := Proc.getfromE) (fun _ _ _ _ _ => rfl) h r

/-! ## the exchange of a process table -/

namespace Talks

/-- A process without a flag is idle. -/
theorem idle (h : Talks s n) (hp : (s.proc p).rtsFlags = ∅) : n.Idle p := by
  have hnot : ∀ f : RtsFlag, f ∉ (s.proc p).rtsFlags := by
    intro f
    rw [hp]
    exact Finset.notMem_empty f
  have hlive := (h.live p).mpr (hnot _)
  refine ⟨hlive, ?_, ?_⟩
  · generalize ho : n.sends p = o
    have hsends := h.sends p hlive
    rw [ho] at hsends
    cases hsends with
    | no => rfl
    | dst d hflag => exact absurd hflag (hnot _)
  · generalize ho : n.hears p = o
    have hhears := h.hears p hlive
    rw [ho] at hhears
    cases hhears with
    | no => rfl
    | of src hflag => exact absurd hflag (hnot _)

theorem sends_eq_none_iff (h : Talks s n) (hp : n.live p) :
    n.sends p = none ↔ .sending ∉ (s.proc p).rtsFlags := by
  generalize ho : n.sends p = o
  have hsends := h.sends p hp
  rw [ho] at hsends
  cases hsends with
  | no hnot => exact ⟨fun _ => hnot, fun _ => rfl⟩
  | dst d hflag => exact ⟨nofun, fun hnot => absurd hflag hnot⟩

theorem hears_eq_none_iff (h : Talks s n) (hp : n.live p) :
    n.hears p = none ↔ .receiving ∉ (s.proc p).rtsFlags := by
  generalize ho : n.hears p = o
  have hhears := h.hears p hp
  rw [ho] at hhears
  cases hhears with
  | no hnot => exact ⟨fun _ => hnot, fun _ => rfl⟩
  | of src hflag => exact ⟨nofun, fun hnot => absurd hflag hnot⟩

theorem live_of_mem (h : Talks s n) (hf : flag ∈ (s.proc p).rtsFlags) (hne : flag ≠ .slotFree) :
    n.live p := by
  rw [h.live]
  intro hfree
  rw [h.tidy p hfree, Finset.mem_singleton] at hf
  exact hne hf

theorem source (h : Talks s n) (hf : .receiving ∈ (s.proc p).rtsFlags) :
    ∃ src, n.hears p = some src ∧ Source s (s.proc p).getfromE src := by
  have hlive := h.live_of_mem hf (by decide)
  generalize ho : n.hears p = o
  have hhears := h.hears p hlive
  rw [ho] at hhears
  cases hhears with
  | no hnot => exact absurd hf hnot
  | of src _ hsrc => exact ⟨src, rfl, hsrc⟩

theorem sends_endpoint (h : Talks s n) (hp : n.live p) (hd : n.sends p = some d) :
    (s.proc p).sendtoE = (s.proc d).endpoint := by
  have hsends := h.sends p hp
  rw [hd] at hsends
  cases hsends with
  | dst d _ he => exact he

theorem callers (h : Talks s n) (hok : n.Ok) :
    Callers s (Alive s) fun c => (n.queue c).map Prod.fst := by
  refine ⟨⟨fun y hy => h.queued.chain y (h.alive_iff.mp hy),
    fun y hy => h.queued.sendto y (h.alive_iff.mp hy)⟩, fun y _ x hx => ?_⟩
  rw [← hok.queued] at hx
  by_contra hnot
  rw [← h.sends_eq_none_iff (hok.sender x y hx).1, hx] at hnot
  cases hnot

end Talks

/-- The source that is waited for, when it is the sender. -/
theorem Source.accepts {e : Int} {src : Option ProcPtr} (h : Source s e src) (hn : Numbered s)
    (he : e = ANY ∨ e = (s.proc x).endpoint) :
    Accepts src x ∧ src = if e = ANY then none else some x := by
  cases h with
  | any h =>
    rw [if_pos h]
    exact ⟨Or.inl rfl, rfl⟩
  | of y h =>
    have hne : e ≠ ANY := by
      rw [h]
      exact endpoint_ne_any hn y
    have hyx : y = x := hn.endpoint_inj (h.symm.trans (he.resolve_left hne))
    rw [if_neg hne, hyx]
    exact ⟨Or.inr rfl, rfl⟩

theorem Source.not_accepts {e : Int} {src : Option ProcPtr} (h : Source s e src)
    (hnot : ¬ (e = ANY ∨ e = (s.proc x).endpoint)) : ¬ Accepts src x := by
  rintro (rfl | rfl)
  · cases h with
    | any h => exact hnot (Or.inl h)
  · cases h with
    | of _ h => exact hnot (Or.inr h)

theorem Source.eq {e : Int} {src : Option ProcPtr} (h : Source s e src)
    (hn : Numbered s) (he : e = (s.proc x).endpoint) : src = some x := by
  cases h with
  | any hany => exact absurd (he.symm.trans hany) (endpoint_ne_any hn x)
  | of y hy => rw [hn.endpoint_inj (hy.symm.trans he)]

/-- The test `mini_receive` makes of a caller. -/
theorem Source.accepts_iff {e : Int} {src : Option ProcPtr} (h : Source s e src) (hn : Numbered s) :
    (e = ANY ∨ (if e = ANY then ANY else endpointP e) = (s.proc x).nr) ↔ Accepts src x := by
  cases h with
  | any h => exact ⟨fun _ => Or.inl rfl, fun _ => Or.inl h⟩
  | of y h =>
    have hne : e ≠ ANY := by
      rw [h]
      exact endpoint_ne_any hn y
    rw [if_neg hne, h, endpointP_endpoint hn, hn.nr, hn.nr]
    constructor
    · rintro (he | he)
      · exact absurd (h.trans he) hne
      · exact Or.inr (congrArg some (Fin.ext (by omega)))
    · rintro (he | he)
      · cases he
      · rw [Option.some.inj he]
        exact Or.inr rfl

/-! ## the changes of the process table -/

namespace Talks

/-- A process that waits to hear is woken. -/
theorem wake (h : Talks s n) (hrun : Runnable s) (hd : .receiving ∈ (s.proc d).rtsFlags)
    (hstep : unset .receiving d s = some s') : Talks s' (n.hear d none) := by
  obtain ⟨-, hq, hflags⟩ := unset_spec hrun hd hstep
  exact h.deaf hq (unset_getfromE hstep) hflags

/-- A process is blocked to receive. -/
theorem block {e : Int} {src : Option ProcPtr} (h : Talks s n) (hrun : Runnable s)
    (hd : n.live d) (hsrc : Source s e src)
    (hstep : Minix.block .receiving d (s.setProc d fun r => { r with getfromE := e }) = some s') :
    Talks s' (n.hear d (some src)) := by
  have hrun₁ : Runnable (s.setProc d fun r => { r with getfromE := e }) :=
    hrun.setProc rfl rfl rfl rfl
  have hq₁ : Quiet s (s.setProc d fun r => { r with getfromE := e }) :=
    ⟨setProc_steady rfl rfl rfl rfl, Kernel.setProc_field (g := Proc.callerQ) rfl,
      Kernel.setProc_field (g := Proc.qLink) rfl, Kernel.setProc_field (g := Proc.sendtoE) rfl⟩
  have hflags₁ : ∀ r, ((s.setProc d fun r => { r with getfromE := e }).proc r).rtsFlags =
      (s.proc r).rtsFlags := Kernel.setProc_field (g := Proc.rtsFlags) rfl
  obtain ⟨-, hq, hflags⟩ := block_spec hrun₁ hstep
  refine h.attend (hq₁.trans hq) hd ⟨?_, fun r hr => ?_⟩ (fun r hr => ?_) ?_ hsrc
  · rw [hflags.1, hflags₁]
  · rw [hflags.2 r hr, hflags₁]
  · rw [block_getfromE hstep, Kernel.setProc_of_ne hr]
  · rw [block_getfromE hstep, Kernel.setProc_self]

/-- A process that cannot send is queued. -/
theorem enqueue {e : Int} {place z : Option ProcPtr} (h : Talks s n) (hok : n.Ok)
    (hs : Consistent s) (hx : (s.proc x).rtsFlags = ∅) (hd : n.live d)
    (he : e = (s.proc d).endpoint) (hblock : Minix.block .sending x s = some s₁)
    (hseek : seekCaller (s₁.setProc x fun r => { r with sendtoE := e }) (fun _ => false) d =
      some (place, z)) :
    Talks ((s₁.setProc x fun r => { r with sendtoE := e }).addCaller d place x)
      (n.send x (some d) d (n.queue d ++ [(x, m)])) := by
  have hC := h.callers hok
  have hd' : Alive s d := h.alive_iff.mpr hd
  have hunqueued : Unqueued s (s₁.setProc x fun r => { r with sendtoE := e }) x e _ :=
    hs.unqueued hx hblock hC
  have hplace : place = ((n.queue d).map Prod.fst).getLast? := by
    rw [(hunqueued.queued.seek hd' hseek).1]
    congr 1
    exact List.takeWhile_eq_self_iff.mpr fun _ _ => rfl
  subst hplace
  have happend := hunqueued.queued.append (hs.numbered.steady hunqueued.steady) hd'
    (hC.not_mem hx) (by rw [hunqueued.sendto, hunqueued.steady.endpoint, he])
  generalize hs' : (s₁.setProc x fun r => { r with sendtoE := e }).addCaller d
    ((n.queue d).map Prod.fst).getLast? x = s' at happend ⊢
  have hfield : ∀ {β : Type} {g : Proc → β}, (∀ p c, g { p with callerQ := c } = g p) →
      (∀ p l, g { p with qLink := l } = g p) → ∀ r, g (s'.proc r) =
        g ((s₁.setProc x fun r => { r with sendtoE := e }).proc r) := by
    intro β g hc hl r
    rw [← hs']
    exact addCaller_field hc hl r
  have hflags : FlagsOf s s' x (insert .sending (s.proc x).rtsFlags) := by
    rw [hx]
    refine ⟨?_, fun r hr => ?_⟩
    · rw [hfield (g := Proc.rtsFlags) (fun _ _ => rfl) fun _ _ => rfl]
      exact hunqueued.flags.1
    · rw [hfield (g := Proc.rtsFlags) (fun _ _ => rfl) fun _ _ => rfl]
      exact hunqueued.flags.2 r hr
  have hendpoint : ∀ r, (s'.proc r).endpoint = (s.proc r).endpoint := fun r => by
    rw [hfield (g := Proc.endpoint) (fun _ _ => rfl) fun _ _ => rfl]
    exact hunqueued.steady.endpoint r
  refine h.send (hflags.tidy_insert (by decide) ?_ h.tidy) (hflags.mem_iff (by simp))
    (hflags.mem_iff (by simp)) (fun r => ?_) hendpoint (fun r hr => ⟨?_, ?_⟩) (.dst d ?_ ?_) ?_
  · rw [hx]
    exact Finset.notMem_empty _
  · rw [hfield (g := Proc.getfromE) (fun _ _ => rfl) fun _ _ => rfl,
      Kernel.setProc_field (g := Proc.getfromE) rfl]
    exact block_getfromE hblock r
  · rw [hflags.2 r hr]
  · rw [hfield (g := Proc.sendtoE) (fun _ _ => rfl) fun _ _ => rfl, Kernel.setProc_of_ne hr]
    exact (block_spec hs.runnable hblock).2.1.sendtoE r
  · rw [hflags.1]
    exact Finset.mem_insert_self _ _
  · rw [hfield (g := Proc.sendtoE) (fun _ _ => rfl) fun _ _ => rfl, hunqueued.sendto, hendpoint, he]
  · rw [List.map_append]
    exact ⟨fun y hy => happend.chain y (h.alive_iff.mpr hy),
      fun y hy => happend.sendto y (h.alive_iff.mpr hy)⟩

/-- A sender that is queued is released. -/
theorem release {q₁ q₂ : List (ProcPtr × M)} (h : Talks s n) (hok : n.Ok)
    (hs : Consistent s) (hd : n.live d) (hq : n.queue d = q₁ ++ (x, m) :: q₂)
    (hunset : unset .sending x s = some s₁) :
    Talks (s₁.setCallerLink d (q₁.map Prod.fst).getLast? (s₁.proc x).qLink)
      (n.send x none d (q₁ ++ q₂)) := by
  have hx : n.sends x = some d := by
    rw [hok.queued, hq]
    simp
  have hsending : .sending ∈ (s.proc x).rtsFlags := by
    by_contra hnot
    rw [← h.sends_eq_none_iff (hok.sender x d hx).1, hx] at hnot
    cases hnot
  obtain ⟨-, hquiet, hflags₁⟩ := unset_spec hs.runnable hsending hunset
  have hqueued₁ : Queued s₁ n.live fun c => (n.queue c).map Prod.fst :=
    h.queued.quiet hquiet fun _ => id
  have hunlink := hqueued₁.unlink (hs.numbered.steady hquiet.toSteady) hd
    (show (n.queue d).map Prod.fst = q₁.map Prod.fst ++ x :: q₂.map Prod.fst by simp [hq])
  generalize hs' : s₁.setCallerLink d (q₁.map Prod.fst).getLast? (s₁.proc x).qLink = s'
    at hunlink ⊢
  have hfield : ∀ {β : Type} {g : Proc → β}, (∀ p c, g { p with callerQ := c } = g p) →
      (∀ p l, g { p with qLink := l } = g p) → ∀ r, g (s'.proc r) = g (s₁.proc r) := by
    intro β g hc hl r
    rw [← hs']
    exact setCallerLink_field hc hl r
  have hflags : FlagsOf s s' x ((s.proc x).rtsFlags.erase .sending) := by
    refine ⟨?_, fun r hr => ?_⟩
    · rw [hfield (g := Proc.rtsFlags) (fun _ _ => rfl) fun _ _ => rfl]
      exact hflags₁.1
    · rw [hfield (g := Proc.rtsFlags) (fun _ _ => rfl) fun _ _ => rfl]
      exact hflags₁.2 r hr
  refine h.send (hflags.tidy_erase (by decide) h.tidy) (hflags.mem_iff (by simp))
    (hflags.mem_iff (by simp)) (fun r => ?_) (fun r => ?_) (fun r hr => ⟨?_, ?_⟩) (.no ?_) ?_
  · rw [hfield (g := Proc.getfromE) (fun _ _ => rfl) fun _ _ => rfl]
    exact unset_getfromE hunset r
  · rw [hfield (g := Proc.endpoint) (fun _ _ => rfl) fun _ _ => rfl]
    exact hquiet.endpoint r
  · rw [hflags.2 r hr]
  · rw [hfield (g := Proc.sendtoE) (fun _ _ => rfl) fun _ _ => rfl]
    exact hquiet.sendtoE r
  · rw [hflags.1]
    simp
  · rw [List.map_append]
    exact hunlink

end Talks

end Minix
